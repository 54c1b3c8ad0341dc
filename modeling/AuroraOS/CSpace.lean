import AuroraOS.Ipc
import AuroraOS.Lib.Run

/-!
# Capability spaces

`class CSpace` of `kernel/core/cspace.cpp` and the reference counts of
`kernel/core/kernel_object.hpp`. Every task has sixteen slots for capabilities and a bitmap of the
slots in use. A capability counts as a reference to its object, and an object whose count drops to
zero is destroyed: an endpoint cancels all its waiters, a task gives up its slot in the task table,
other objects do nothing.

A result `none` is a loop over a wait queue that does not come to an end.
-/

namespace AuroraOS

open Bitmap Option Function

variable {N : Nat}

/-! ## Capabilities -/

inductive CapType
  | null
  | endpoint
  | thread
  | memory
  | device
  deriving DecidableEq, Repr

/-- `CapRights`, its reserved bits apart. -/
structure CapRights where
  read : Bool
  write : Bool
  grant : Bool
  deriving DecidableEq, Repr

namespace CapRights

/-- The rights that a `uint32_t rights` asks for: `CAP_RIGHT_READ` is bit 0, `CAP_RIGHT_WRITE` bit 1
and `CAP_RIGHT_GRANT` bit 2. -/
def requested (rights : BitVec 32) : CapRights :=
  ⟨rights.getLsbD 0, rights.getLsbD 1, rights.getLsbD 2⟩

/-- The check against privilege escalation: no right is asked for that `owned` lacks. -/
def coveredBy (req owned : CapRights) : Bool :=
  !((req.read && !owned.read) || (req.write && !owned.write) || (req.grant && !owned.grant))

end CapRights

/-- A `KernelObject*` that is not null: the object it points to. -/
inductive KernelObject (N : Nat)
  | endpoint (e : EndpointId)
  | task (t : Fin N)
  | memoryRegion (region : Nat)
  | device (dev : Nat)
  deriving DecidableEq

structure Capability (N : Nat) where
  type : CapType
  rights : CapRights
  badge : Nat
  object : Option (KernelObject N)
  deriving DecidableEq

/-- What is left in a slot that is given up: the rights and the badge stay. -/
def Capability.cleared (cap : Capability N) : Capability N :=
  { cap with type := .null, object := none }

/-- `MAX_CSPACE_SLOTS`. -/
abbrev maxCspaceSlots : Nat := 16

/-- A slot of a task. -/
abbrev Place (N : Nat) := Fin N × Fin maxCspaceSlots

/-- The slot that `slot_id` means in the capability space of `task`, the pointer not being null and
`is_valid_slot` being true. -/
def place (task : Option (Fin N)) (slotId : Nat) : Option (Place N) :=
  if h : slotId < maxCspaceSlots then task.map fun t => (t, ⟨slotId, h⟩) else none

theorem fst_of_place {t : Fin N} {slotId : Nat} {p : Place N} (h : place (some t) slotId = some p) :
    p.1 = t := by
  unfold place at h
  split_ifs at h
  rw [← some.inj h]

/-- An entry of the device registry. The name ends before its first NUL. -/
structure DeviceEntry where
  name : List UInt8
  device : Option Nat
  defaultRights : BitVec 32
  inUse : Bool
  deriving DecidableEq

/-- The kernel with the capability spaces of all tasks, the reference counts of all objects and the
device registry. -/
structure CapState (N : Nat) where
  kernel : Kernel N
  cspace : Place N → Capability N
  occupiedMask : Fin N → BitVec maxCspaceSlots
  refCount : KernelObject N → Nat
  registry : List DeviceEntry

/-- A `const Capability&`: a capability of its own, or a slot that may change meanwhile. -/
inductive CapRef (N : Nat)
  | value (cap : Capability N)
  | slot (p : Place N)
  deriving DecidableEq

namespace CapState

variable (s : CapState N)

/-! ## Field updates -/

def setSlot (p : Place N) (cap : Capability N) : CapState N :=
  { s with cspace := Function.update s.cspace p cap }

/-- Set the bit of a slot in `occupied_mask`. -/
def occupy (p : Place N) : CapState N :=
  { s with occupiedMask := Function.update s.occupiedMask p.1 (setBit (s.occupiedMask p.1) p.2) }

/-- Clear the bit of a slot in `occupied_mask`. -/
def vacate (p : Place N) : CapState N :=
  { s with occupiedMask := Function.update s.occupiedMask p.1 (clearBit (s.occupiedMask p.1) p.2) }

def setRefCount (o : KernelObject N) (n : Nat) : CapState N :=
  { s with refCount := Function.update s.refCount o n }

def withKernel (k : Kernel N) : CapState N := { s with kernel := k }

/-! ## Reference counts -/

/-- `KernelObject::retain`. -/
def retain (o : KernelObject N) : CapState N := s.setRefCount o ((s.refCount o + 1) % 2 ^ 32)

/-- Retain the object of a capability, if it has one. -/
def retainObject (o : Option (KernelObject N)) : CapState N :=
  match o with
  | none => s
  | some o => s.retain o

/-- `destroy`, by the kind of object. -/
def destroy : KernelObject N → Option (CapState N)
  | .endpoint e => (s.kernel.cancelAll e .receiverDead).map s.withKernel
  | .task t => some (s.withKernel (s.kernel.freeTask (some t)))
  | .memoryRegion _ | .device _ => some s

/-- `KernelObject::release`. -/
def release (o : KernelObject N) : Option (CapState N) :=
  if s.refCount o > 0 then
    let s := s.setRefCount o (s.refCount o - 1)
    if s.refCount o = 0 then s.destroy o else some s
  else some s

/-! ## Slots -/

/-- `CSpace::cap_alloc_slot`. -/
def capAllocSlot (task : Option (Fin N)) : Option (Fin maxCspaceSlots) :=
  match task with
  | none => none
  | some t => findLowestBit (~~~(s.occupiedMask t))

/-- Bring the bitmap in line with a slot. -/
def syncBit (p : Place N) : CapState N :=
  if (s.cspace p).type = .null then s.vacate p else s.occupy p

/-- `CSpace::cap_lookup`: the capability, if there is one. -/
def capLookup (task : Option (Fin N)) (slotId : Nat) : CapState N × Option (Capability N) :=
  match place task slotId with
  | none => (s, none)
  | some p => (s.syncBit p, if (s.cspace p).type = .null then none else some (s.cspace p))

/-- A task that waits at the endpoint of a capability it loses waits no longer. -/
def cancelWait (t : Fin N) (cap : Capability N) : Option (CapState N) :=
  match cap.type, cap.object with
  | .endpoint, some (.endpoint e) =>
    if (s.kernel.ipc t).waitingEndpoint = some e then
      (s.kernel.cancelWaiter e t .noPermission).map s.withKernel
    else some s
  | _, _ => some s

/-- Empty a slot that refers to an object. -/
def dropCap (p : Place N) (o : KernelObject N) : Option (CapState N) := do
  let s ← s.cancelWait p.1 (s.cspace p)
  let s ← s.release o
  return (s.setSlot p (s.cspace p).cleared).vacate p

/-- `CSpace::cap_delete`, its checks passed. -/
def capDeleteAt (p : Place N) : Option (CapState N) :=
  match (s.cspace p).type, (s.cspace p).object with
  | .null, _ | _, none => some ((s.setSlot p (s.cspace p).cleared).vacate p)
  | _, some o => s.dropCap p o

/-- `CSpace::cap_delete`. -/
def capDelete (task : Option (Fin N)) (slotId : Nat) : Option (CapState N × Bool) :=
  match place task slotId with
  | none => some (s, false)
  | some p => (s.capDeleteAt p).map (·, true)

def readRef : CapRef N → Capability N
  | .value cap => cap
  | .slot p => s.cspace p

/-- `CSpace::cap_insert`. The reference is read again after the old capability is gone. -/
def capInsert (task : Option (Fin N)) (slotId : Nat) (cap : CapRef N) :
    Option (CapState N × Bool) :=
  match place task slotId with
  | none => some (s, false)
  | some p =>
    if (s.readRef cap).type = .null then some (s, false)
    else do
      let s ← s.capDeleteAt p
      let s := s.setSlot p (s.readRef cap)
      let s := s.retainObject (s.cspace p).object
      return (s.occupy p, true)

/-! ## Copies -/

/-- The checks that `cap_derive_internal` and `cap_grant` make of the source slot. -/
def mayCopy (src : Place N) (rights : BitVec 32) : Bool :=
  (s.cspace src).type ≠ .null && (CapRights.requested rights).coveredBy (s.cspace src).rights

/-- The common body of `cap_derive_internal` and `cap_grant`. The source slot is read after the
destination has been emptied. -/
def copyCap (src dst : Place N) (rights : BitVec 32) (badge : Nat) :
    Option (CapState N × Bool) :=
  if s.mayCopy src rights then do
    let s ← s.capDeleteAt dst
    let srcCap := s.cspace src
    let s := s.setSlot dst
      { type := srcCap.type, rights := .requested rights, badge := badge, object := srcCap.object }
    let s := s.retainObject srcCap.object
    return (s.occupy dst, true)
  else some (s, false)

/-- `CSpace::cap_derive_internal`. -/
def capDeriveInternal (task : Option (Fin N)) (srcSlot dstSlot : Nat) (rights : BitVec 32)
    (badge : Nat) : Option (CapState N × Bool) :=
  match place task srcSlot, place task dstSlot with
  | some src, some dst => s.copyCap src dst rights badge
  | _, _ => some (s, false)

/-- `CSpace::cap_derive`. -/
def capDerive (task : Option (Fin N)) (srcSlot dstSlot : Nat) (rights : BitVec 32) :
    Option (CapState N × Bool) :=
  match place task srcSlot with
  | none => some (s, false)
  | some src => s.capDeriveInternal task srcSlot dstSlot rights (s.cspace src).badge

/-- `CSpace::cap_mint`. -/
def capMint (task : Option (Fin N)) (srcSlot dstSlot : Nat) (rights : BitVec 32) (badge : Nat) :
    Option (CapState N × Bool) :=
  s.capDeriveInternal task srcSlot dstSlot rights badge

/-- `CSpace::cap_grant`. -/
def capGrant (srcTask dstTask : Option (Fin N)) (srcSlot dstSlot : Nat) (newRights : BitVec 32)
    (badge : Nat) : Option (CapState N × Bool) :=
  match place srcTask srcSlot, place dstTask dstSlot with
  | some src, some dst => s.copyCap src dst newRights badge
  | _, _ => some (s, false)

/-! ## Revocation -/

/-- The loop of `cap_revoke` that brings the bitmap of a task in line with its slots. -/
def syncMask (t : Fin N) : CapState N :=
  (List.finRange maxCspaceSlots).foldl (fun s j => s.syncBit (t, j)) s

/-- The body of the loop of `cap_revoke` over the slots of a task. -/
def revokeSlot (target : KernelObject N) (s : CapState N) (p : Place N) : Option (CapState N) :=
  if (s.cspace p).object = some target then s.dropCap p target else some s

/-- The body of the loop of `cap_revoke` over the tasks: the occupied slots in ascending order, the
source slot `src` apart. -/
def revokeTask (src : Place N) (target : KernelObject N) (s : CapState N) (t : Fin N) :
    Option (CapState N) :=
  let s := s.syncMask t
  let mask := if t = src.1 then clearBit (s.occupiedMask t) src.2 else s.occupiedMask t
  (List.finRange maxCspaceSlots).foldlM
    (fun s (j : Fin maxCspaceSlots) =>
      if mask.getLsbD j then s.revokeSlot target (t, j) else some s) s

/-- `CSpace::cap_revoke`. -/
def capRevoke (task : Option (Fin N)) (slotId : Nat) : Option (CapState N × Bool) :=
  match place task slotId with
  | none => some (s, false)
  | some p =>
    match s.capLookup task slotId with
    | (s, none) => some (s, false)
    | (s, some cap) =>
      match cap.object with
      | none => some (s, false)
      | some target =>
        ((List.finRange N).foldlM
          (fun s' (t : Fin N) =>
            if (t : Nat) < s.kernel.sched.taskCount then s'.revokeTask p target t else some s')
          s).map (·, true)

/-! ## Devices

`DeviceRegistry` of `kernel/core/device.cpp`, as far as it hands out capabilities. What `open`
answers is up to the driver. -/

/-- `DeviceEntry::NAME_MAX_LEN`. -/
def nameMaxLen : Nat := 32

/-- The first entry in use under a name, as `strncmp` compares names. -/
def findEntry (name : List UInt8) : Option DeviceEntry :=
  s.registry.find? fun entry => entry.inUse && entry.name.take nameMaxLen == name.take nameMaxLen

/-- The device that a request opens, the request passing its checks. -/
def deviceFor (name : Option (List UInt8)) (rights : BitVec 32) : Option Nat := do
  let entry ← s.findEntry (← name)
  if (CapRights.requested rights).coveredBy (.requested entry.defaultRights) then entry.device
  else none

/-- `DeviceRegistry::open_device` once the device is open. -/
def mintDevice (dst : Place N) (dev : Nat) (rights : BitVec 32) : Option (CapState N) := do
  let s ← s.capDeleteAt dst
  let s := s.setSlot dst
    { type := .device, rights := .requested rights, badge := 0, object := some (.device dev) }
  return s.retain (.device dev)

/-- `DeviceRegistry::open_device`, `dev->open()` answering `openRes`. -/
def openDevice (task : Option (Fin N)) (name : Option (List UInt8)) (dstSlot : Nat)
    (requestedRights : BitVec 32) (openRes : Int) : Option (CapState N × Int) :=
  match place task dstSlot, name with
  | some dst, some name =>
    match s.findEntry name with
    | none => some (s, -1)
    | some entry =>
      match entry.device with
      | none => some (s, -1)
      | some dev =>
        if (CapRights.requested requestedRights).coveredBy (.requested entry.defaultRights) then
          if openRes ≠ 0 then some (s, -4)
          else (s.mintDevice dst dev requestedRights).map (·, 0)
        else some (s, -3)
  | _, _ => some (s, -2)

/-- `DeviceRegistry::device_close`. -/
def deviceClose (task : Option (Fin N)) (capSlot : Nat) : Option (CapState N × Int) :=
  match place task capSlot with
  | none => some (s, -2)
  | some p =>
    match s.capLookup task capSlot with
    | (s, none) => some (s, -1)
    | (s, some cap) => if cap.type ≠ .device then some (s, -1) else (s.capDeleteAt p).map (·, 0)

/-! ## What the pieces change -/

/-- The state with one slot emptied and its reference dropped. -/
def deleted (p : Place N) : CapState N :=
  { s with
    cspace := Function.update s.cspace p (s.cspace p).cleared
    occupiedMask := Function.update s.occupiedMask p.1 (clearBit (s.occupiedMask p.1) p.2)
    refCount :=
      match (s.cspace p).type, (s.cspace p).object with
      | .null, _ | _, none => s.refCount
      | _, some o => Function.update s.refCount o (s.refCount o - 1) }

/-- The state with a capability in a slot and its reference taken. -/
def filled (p : Place N) (cap : Capability N) : CapState N :=
  (s.setSlot p cap).retainObject cap.object

/-- The copy that `copyCap` makes of a slot. -/
def copyOf (src : Place N) (rights : BitVec 32) (badge : Nat) : Capability N :=
  { type := (s.cspace src).type, rights := .requested rights, badge := badge,
    object := (s.cspace src).object }

end CapState

/-- What the kernel does for a task that loses a capability, or for an object that loses its last
reference. -/
inductive Withdrawal (k : Kernel N) : Kernel N → Prop
  | cancelWaiter {k' : Kernel N} {e : EndpointId} {t : Fin N}
      (hwait : (k.ipc t).waitingEndpoint = some e)
      (h : k.cancelWaiter e t .noPermission = some k') : Withdrawal k k'
  | cancelAll {k' : Kernel N} {e : EndpointId} (h : k.cancelAll e .receiverDead = some k') :
      Withdrawal k k'
  | freeTask (t : Fin N) : Withdrawal k (k.freeTask (some t))

namespace CapState

open Relation

variable {s s' : CapState N} {p : Place N} {o : KernelObject N} {name : Option (List UInt8)}
  {slotId : Nat}

/-- The state is `t`, but for what the withdrawal of references did to the kernel. -/
structure Withdraws (s t s' : CapState N) : Prop where
  kernel : ReflTransGen Withdrawal s.kernel s'.kernel
  rest : s' = t.withKernel s'.kernel

namespace Withdraws

variable {t t' u : CapState N} {f : CapState N → CapState N}

theorem refl (s : CapState N) : Withdraws s s s := ⟨.refl, rfl⟩

variable (h : Withdraws s t s')

include h

theorem change (hf : ∀ s k, f (withKernel s k) = (f s).withKernel k)
    (hk : (f s').kernel = s'.kernel) : Withdraws s (f t) (f s') := by
  refine ⟨hk ▸ h.kernel, ?_⟩
  rw [hk, ← hf, ← h.rest]

theorem trans (hf : ∀ s k, f (withKernel s k) = (f s).withKernel k)
    (h' : Withdraws s' (f s') u) : Withdraws s (f t) u := by
  refine ⟨h.kernel.trans h'.kernel, ?_⟩
  have hrest := h'.rest
  rw [h.rest, hf] at hrest
  exact hrest

theorem cspace : s'.cspace = t.cspace := by
  rw [h.rest]
  rfl

theorem occupiedMask : s'.occupiedMask = t.occupiedMask :=
  by
  rw [h.rest]
  rfl

theorem refCount : s'.refCount = t.refCount :=
  by
  rw [h.rest]
  rfl

theorem registry : s'.registry = t.registry :=
  by
  rw [h.rest]
  rfl

end Withdraws

variable {rights : BitVec 32} {r : CapState N × Bool} {task : Option (Fin N)} {dstSlot : Nat}

theorem destroy_withdraws (h : s.destroy o = some s') : Withdraws s s s' := by
  cases o with
  | endpoint e =>
    obtain ⟨k, hk, rfl⟩ := map_eq_some_iff.mp h
    exact ⟨.single (.cancelAll hk), rfl⟩
  | task t =>
    rw [← some.inj h]
    exact ⟨.single (.freeTask t), rfl⟩
  | memoryRegion _ | device _ =>
    rw [← some.inj h]
    exact .refl s

theorem release_withdraws (h : s.release o = some s') :
    Withdraws s (s.setRefCount o (s.refCount o - 1)) s' := by
  unfold release at h
  split_ifs at h
  · dsimp only at h
    split_ifs at h
    · exact ⟨(destroy_withdraws h).kernel, (destroy_withdraws h).rest⟩
    · rw [← some.inj h]
      exact ⟨.refl, rfl⟩
  · rw [← some.inj h]
    refine ⟨.refl, ?_⟩
    have hzero : s.refCount o - 1 = s.refCount o := by omega
    rw [setRefCount, hzero, update_eq_self]
    rfl

theorem cancelWait_withdraws {t : Fin N} {cap : Capability N} (h : s.cancelWait t cap = some s') :
    Withdraws s s s' := by
  unfold cancelWait at h
  split at h
  · split_ifs at h with hwait
    · obtain ⟨k, hk, rfl⟩ := map_eq_some_iff.mp h
      exact ⟨.single (.cancelWaiter hwait hk), rfl⟩
    · rw [← some.inj h]
      exact .refl s
  · rw [← some.inj h]
    exact .refl s

theorem dropCap_withdraws (h : s.dropCap p o = some s') :
    Withdraws s ((s.setRefCount o (s.refCount o - 1)).setSlot p (s.cspace p).cleared |>.vacate p)
      s' := by
  simp only [dropCap, bind_eq_bind, bind_eq_some_iff] at h
  obtain ⟨s₁, h₁, s₂, h₂, h⟩ := h
  rw [← some.inj h]
  have h₁₂ := (cancelWait_withdraws h₁).trans
    (f := fun s => s.setRefCount o (s.refCount o - 1)) (fun _ _ => rfl) (release_withdraws h₂)
  exact h₁₂.change (f := fun s => (s.setSlot p (s.cspace p).cleared).vacate p) (fun _ _ => rfl) rfl

/-- **`cap_delete`** empties the slot, drops the reference and clears the bit. -/
theorem capDeleteAt_withdraws (h : s.capDeleteAt p = some s') : Withdraws s (s.deleted p) s' := by
  unfold capDeleteAt at h
  unfold deleted
  split at h
  · rw [← some.inj h]
    exact ⟨.refl, rfl⟩
  · rw [← some.inj h]
    exact ⟨.refl, rfl⟩
  · exact dropCap_withdraws h

/-- What `cap_derive_internal` and `cap_grant` can do. A slot copied onto itself has been emptied
before it is read. -/
inductive CopyCap (s : CapState N) (src dst : Place N) (rights : BitVec 32) (badge : Nat) :
    CapState N × Bool → Prop
  | refused (h : ¬ s.mayCopy src rights) : CopyCap s src dst rights badge (s, false)
  | onto (h : s.mayCopy src rights) (heq : src = dst) {s' : CapState N}
      (hs' : Withdraws s (((s.deleted dst).setSlot dst
        { (s.copyOf src rights badge) with type := .null, object := none }).occupy dst) s') :
      CopyCap s src dst rights badge (s', true)
  | copied (h : s.mayCopy src rights) (hne : src ≠ dst) {s' : CapState N}
      (hs' : Withdraws s
        (((s.deleted dst).filled dst (s.copyOf src rights badge)).occupy dst) s') :
      CopyCap s src dst rights badge (s', true)

section

variable (s : CapState N)

theorem filled_withKernel (k : Kernel N) (p : Place N) (cap : Capability N) :
    (s.withKernel k).filled p cap = (s.filled p cap).withKernel k := by
  unfold filled
  cases cap.object <;> rfl

theorem rest_filled (p : Place N) (cap : Capability N) :
    (s.filled p cap).kernel = s.kernel ∧ (s.filled p cap).occupiedMask = s.occupiedMask ∧
      (s.filled p cap).registry = s.registry := by
  unfold filled
  cases cap.object <;> exact ⟨rfl, rfl, rfl⟩

theorem cspace_filled (p : Place N) (cap : Capability N) :
    (s.filled p cap).cspace = update s.cspace p cap := by
  unfold filled
  cases cap.object <;> rfl

end

/-- A capability put into the slot that has just been emptied. -/
theorem Withdraws.fill {t : CapState N} (h : Withdraws s t s') (p : Place N) (cap : Capability N) :
    Withdraws s (t.filled p cap) (s'.filled p cap) :=
  h.change (f := fun s => s.filled p cap) (fun s k => filled_withKernel s k p cap)
    (rest_filled s' p cap).1

theorem Withdraws.occupy {t : CapState N} (h : Withdraws s t s') (p : Place N) :
    Withdraws s (t.occupy p) (s'.occupy p) :=
  h.change (f := fun s => s.occupy p) (fun _ _ => rfl) rfl

theorem cspace_deleted_of_ne {q : Place N} (h : q ≠ p) : (s.deleted p).cspace q = s.cspace q :=
  update_of_ne h _ _

theorem cspace_deleted_self : (s.deleted p).cspace p = (s.cspace p).cleared :=
  update_self _ _ _

theorem copyCap_cases {src dst : Place N} {badge : Nat}
    (h : s.copyCap src dst rights badge = some r) :
    CopyCap s src dst rights badge r := by
  unfold copyCap at h
  split_ifs at h with hmay
  · simp only [bind_eq_bind, bind_eq_some_iff] at h
    obtain ⟨s₁, h₁, h⟩ := h
    rw [← some.inj h]
    have hdel := capDeleteAt_withdraws h₁
    have hsrc : s₁.cspace src = (s.deleted dst).cspace src := by rw [hdel.cspace]
    by_cases heq : src = dst
    · rw [heq, cspace_deleted_self] at hsrc
      refine .onto hmay heq ?_
      rw [heq, hsrc]
      exact hdel.change (f := fun s => (s.setSlot dst _).occupy dst) (fun _ _ => rfl) rfl
    · rw [cspace_deleted_of_ne heq] at hsrc
      refine .copied hmay heq ?_
      rw [hsrc]
      exact (hdel.fill dst (s.copyOf src rights badge)).occupy dst
  · rw [← some.inj h]
    exact .refused hmay

/-- What `cap_insert` can do, its pointer and slot being valid. -/
inductive InsertCap (s : CapState N) (p : Place N) (cap : CapRef N) : CapState N × Bool → Prop
  | refused (h : (s.readRef cap).type = .null) : InsertCap s p cap (s, false)
  | onto (h : (s.readRef cap).type ≠ .null) (heq : cap = .slot p) {s' : CapState N}
      (hs' : Withdraws s ((s.deleted p).occupy p) s') : InsertCap s p cap (s', true)
  | inserted (h : (s.readRef cap).type ≠ .null) (hne : cap ≠ .slot p) {s' : CapState N}
      (hs' : Withdraws s (((s.deleted p).filled p (s.readRef cap)).occupy p) s') :
      InsertCap s p cap (s', true)

theorem capInsert_cases {cap : CapRef N} (h : s.capInsert task slotId cap = some r) :
    r = (s, false) ∨ ∃ p, place task slotId = some p ∧ InsertCap s p cap r := by
  unfold capInsert at h
  split at h
  · exact .inl (some.inj h).symm
  · next p hp =>
    refine .inr ⟨p, hp, ?_⟩
    split_ifs at h with hnull
    · rw [← some.inj h]
      exact .refused hnull
    · simp only [bind_eq_bind, bind_eq_some_iff] at h
      obtain ⟨s₁, h₁, h⟩ := h
      rw [← some.inj h]
      have hdel := capDeleteAt_withdraws h₁
      have hread : s₁.readRef cap = (s.deleted p).readRef cap := by
        rw [hdel.rest]
        cases cap <;> rfl
      by_cases heq : cap = .slot p
      · refine .onto hnull heq ?_
        have hself : (s₁.setSlot p (s₁.readRef cap)) = s₁ := by
          rw [heq]
          exact congrArg (fun c => { s₁ with cspace := c }) (update_eq_self p s₁.cspace)
        have hobject : (s₁.cspace p).object = none := by
          rw [hdel.cspace]
          exact congrArg Capability.object cspace_deleted_self
        simp only [hself, hobject]
        exact hdel.occupy p
      · have hvalue : (s.deleted p).readRef cap = s.readRef cap := by
          cases cap with
          | value c => rfl
          | slot q => exact cspace_deleted_of_ne fun hq => heq (congrArg CapRef.slot hq)
        refine .inserted hnull heq ?_
        have hslot : (s₁.setSlot p (s₁.readRef cap)).cspace p = s.readRef cap := by
          rw [hread, hvalue]
          exact update_self _ _ _
        rw [hslot, hread, hvalue]
        exact (hdel.fill p (s.readRef cap)).occupy p

/-- The capability that `open_device` writes. -/
def deviceCap (dev : Nat) (rights : BitVec 32) : Capability N :=
  { type := .device, rights := .requested rights, badge := 0, object := some (.device dev) }

/-- A request for a device is granted by an entry of the registry. -/
theorem deviceFor_cases {dev : Nat}
    (h : s.deviceFor name rights = some dev) : ∃ entry ∈ s.registry, entry.inUse = true ∧
      entry.device = some dev ∧
      (CapRights.requested rights).coveredBy (.requested entry.defaultRights) = true := by
  simp only [deviceFor, bind_eq_bind, bind_eq_some_iff] at h
  obtain ⟨name', -, entry, hentry, h⟩ := h
  split_ifs at h with hcovered
  have hfound := List.find?_some hentry
  rw [Bool.and_eq_true] at hfound
  exact ⟨entry, List.mem_of_find?_eq_some hentry, hfound.1, h, hcovered⟩

/-- `open_device` does nothing, or fills the slot and leaves its bit clear. -/
theorem openDevice_cases {openRes : Int} {r : CapState N × Int}
    (h : s.openDevice task name dstSlot rights openRes = some r) :
    r.1 = s ∨ ∃ dst dev, place task dstSlot = some dst ∧ s.deviceFor name rights = some dev ∧
      openRes = 0 ∧ Withdraws s ((s.deleted dst).filled dst (deviceCap dev rights)) r.1 := by
  unfold openDevice at h
  split at h
  · next dst name' hdst =>
    split at h
    · exact .inl (congrArg Prod.fst (some.inj h)).symm
    · next entry hentry =>
      split at h
      · exact .inl (congrArg Prod.fst (some.inj h)).symm
      · next dev hdev =>
        split_ifs at h with hrights hopen
        · exact .inl (congrArg Prod.fst (some.inj h)).symm
        · obtain ⟨s₁, h₁, rfl⟩ := map_eq_some_iff.mp h
          refine .inr ⟨dst, dev, hdst, ?_, not_not.mp hopen, ?_⟩
          · simp [deviceFor, hentry, hrights, hdev]
          · simp only [mintDevice, bind_eq_bind, bind_eq_some_iff] at h₁
            obtain ⟨s₂, h₂, h₁⟩ := h₁
            rw [← some.inj h₁]
            exact (capDeleteAt_withdraws h₂).fill dst (deviceCap dev rights)
        · exact .inl (congrArg Prod.fst (some.inj h)).symm
  · exact .inl (congrArg Prod.fst (some.inj h)).symm

/-- `cap_lookup` does nothing but to bring the bitmap in line. -/
theorem capLookup_cases (s : CapState N) (task : Option (Fin N)) (slotId : Nat) :
    s.capLookup task slotId = (s, none) ∨
      ∃ p, place task slotId = some p ∧ (s.capLookup task slotId).1 = s.syncBit p ∧
        ∀ cap, (s.capLookup task slotId).2 = some cap → cap = s.cspace p ∧ cap.type ≠ .null := by
  unfold capLookup
  split
  · exact .inl rfl
  · next p hp =>
    refine .inr ⟨p, hp, rfl, fun cap hcap => ?_⟩
    split_ifs at hcap with hnull
    rw [← some.inj hcap]
    exact ⟨rfl, hnull⟩

/-- `cap_derive_internal` and `cap_grant` find both slots, or do nothing. -/
theorem capGrant_cases {t u : Option (Fin N)} {srcSlot : Nat} {badge : Nat}
    (h : s.capGrant t u srcSlot dstSlot rights badge = some r) :
    r = (s, false) ∨ ∃ src dst, place t srcSlot = some src ∧ place u dstSlot = some dst ∧
      s.copyCap src dst rights badge = some r := by
  unfold capGrant at h
  split at h
  · next src dst hsrc hdst => exact .inr ⟨src, dst, hsrc, hdst, h⟩
  · exact .inl (some.inj h).symm

/-- Deriving and minting are granting to oneself. -/
theorem capMint_eq (s : CapState N) (task : Option (Fin N)) (srcSlot dstSlot : Nat)
    (rights : BitVec 32) (badge : Nat) :
    s.capMint task srcSlot dstSlot rights badge =
      s.capGrant task task srcSlot dstSlot rights badge := rfl

theorem capDerive_cases {srcSlot : Nat} (h : s.capDerive task srcSlot dstSlot rights = some r) :
    r = (s, false) ∨ ∃ src, place task srcSlot = some src ∧
      s.capGrant task task srcSlot dstSlot rights (s.cspace src).badge = some r := by
  unfold capDerive at h
  split at h
  · exact .inl (some.inj h).symm
  · next src hsrc => exact .inr ⟨src, hsrc, h⟩

theorem capDelete_cases (h : s.capDelete task slotId = some r) :
    r.1 = s ∨ ∃ p, place task slotId = some p ∧ s.capDeleteAt p = some r.1 := by
  unfold capDelete at h
  split at h
  · exact .inl (congrArg Prod.fst (some.inj h)).symm
  · next p hp =>
    obtain ⟨s₁, h₁, rfl⟩ := map_eq_some_iff.mp h
    exact .inr ⟨p, hp, h₁⟩

/-- `device_close` looks the capability up and may delete it. -/
theorem deviceClose_cases {capSlot : Nat} {r : CapState N × Int}
    (h : s.deviceClose task capSlot = some r) :
    r.1 = s ∨ ∃ p, place task capSlot = some p ∧
      (r.1 = s.syncBit p ∨ (s.syncBit p).capDeleteAt p = some r.1) := by
  unfold deviceClose at h
  split at h
  · exact .inl (congrArg Prod.fst (some.inj h)).symm
  · next p hp =>
    have hlook : (s.capLookup task capSlot).1 = s.syncBit p := by
      unfold capLookup
      rw [hp]
    refine .inr ⟨p, hp, ?_⟩
    split at h
    · next s₁ heq =>
      rw [heq] at hlook
      left
      rw [← hlook, ← some.inj h]
    · next s₁ cap heq =>
      rw [heq] at hlook
      subst hlook
      split_ifs at h
      · left
        rw [← some.inj h]
      · obtain ⟨s₂, h₂, rfl⟩ := map_eq_some_iff.mp h
        exact .inr h₂

section Revoke

variable {P : CapState N → Prop}

theorem revokeTask_invariant (hsync : ∀ s p, P s → P (syncBit s p))
    (hdrop : ∀ s s' p o, (cspace s p).object = some o → dropCap s p o = some s' → P s → P s')
    {src : Place N} {t : Fin N} (h : s.revokeTask src o t = some s') (hs : P s) : P s' := by
  have hsynced : P (s.syncMask t) :=
    Run.foldl_invariant (fun s j _ hs => hsync s (t, j) hs) hs
  unfold revokeTask at h
  dsimp only at h
  generalize (if t = src.1 then clearBit ((s.syncMask t).occupiedMask t) src.2
    else (s.syncMask t).occupiedMask t) = mask at h
  refine Run.foldlM_invariant (fun a j _ b ha hb => ?_) hsynced h
  unfold revokeSlot at hb
  split_ifs at hb with hbit hobject
  · exact hdrop a b (t, j) o hobject hb ha
  · rw [← some.inj hb]
    exact ha
  · rw [← some.inj hb]
    exact ha

/-- **The rule for `cap_revoke`.** What the alignment of a bit and the loss of a capability keep,
revocation keeps. -/
theorem capRevoke_invariant (hsync : ∀ s p, P s → P (syncBit s p))
    (hdrop : ∀ s s' p o, (cspace s p).object = some o → dropCap s p o = some s' → P s → P s')
    (h : s.capRevoke task slotId = some r) (hs : P s) : P r.1 := by
  have hlook : P (s.capLookup task slotId).1 := by
    rcases s.capLookup_cases task slotId with heq | ⟨q, -, heq, -⟩
    · rw [heq]
      exact hs
    · rw [heq]
      exact hsync s q hs
  unfold capRevoke at h
  split at h
  · rw [← some.inj h]
    exact hs
  · split at h
    · next s₁ heq =>
      rw [heq] at hlook
      rw [← some.inj h]
      exact hlook
    · next s₁ cap heq =>
      rw [heq] at hlook
      split at h
      · rw [← some.inj h]
        exact hlook
      · obtain ⟨s₂, h₂, rfl⟩ := map_eq_some_iff.mp h
        refine Run.foldlM_invariant (fun a t _ b ha hb => ?_) hlook h₂
        split_ifs at hb
        · exact revokeTask_invariant hsync hdrop hb ha
        · rw [← some.inj hb]
          exact ha

end Revoke

end CapState

end AuroraOS
