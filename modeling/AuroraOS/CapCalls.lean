import AuroraOS.CSpaceRuns

/-!
# Capability system calls

The handlers of `kernel/core/syscall_dispatcher.cpp` for `SYS_CAP_DERIVE`, `SYS_CAP_MINT`,
`SYS_CAP_GRANT`, `SYS_CAP_DELETE`, `SYS_CAP_REVOKE` and `SYS_DEV_OPEN`. They act for the current
task; a request that a capability space refuses ends the task that made it.

`SlotEffect` says what one call can leave in a slot. From it follow, by induction over runs, that
rights are never amplified, and which tasks a capability can reach. Between two calls anything that
leaves the capability spaces alone may happen to the kernel, so a call that a signal handler makes
while `schedule` runs it is a step of its own.
-/

namespace AuroraOS

open Relation Function Option

variable {N : Nat}

/-! ## Rights -/

inductive Right
  | read
  | write
  | grant
  deriving DecidableEq

def CapRights.has (rights : CapRights) : Right → Bool
  | .read => rights.read
  | .write => rights.write
  | .grant => rights.grant

theorem CapRights.has_of_coveredBy {req owned : CapRights} (h : req.coveredBy owned = true)
    {right : Right} (hr : req.has right = true) : owned.has right = true := by
  unfold coveredBy at h
  cases right <;> simp_all [has]

/-- The capability gives a right to an object. -/
def Capability.Carries (cap : Capability N) (o : KernelObject N) (right : Right) : Prop :=
  cap.type ≠ .null ∧ cap.object = some o ∧ cap.rights.has right = true
  deriving Decidable

/-! ## Handlers -/

namespace CapState

section Handlers

variable [NeZero N] (run : Handlers N) (allowed : Nat → Bool) (s : CapState N) (cur : Fin N)

/-- End the calling task. -/
def terminateCaller : Option (CapState N) :=
  ((s.kernel.setTaskState (s.kernel.sched.tasks cur).id .terminated).schedule
    (fun h sig => run (h, sig)) allowed).map fun r => s.withKernel r.1

/-- The end of a handler: a request that failed ends the calling task. -/
def finish (r : CapState N × Bool) : Option (CapState N) :=
  if r.2 then some r.1 else r.1.terminateCaller run allowed cur

/-- `SyscallDispatcher::handle_cap_derive`, `cur` being the current task; so below. -/
def handleCapDerive (src dst : Nat) (rights : BitVec 32) : Option (CapState N) :=
  (s.capDerive (some cur) src dst rights).bind (finish run allowed cur)

/-- `SyscallDispatcher::handle_cap_mint`. -/
def handleCapMint (src dst : Nat) (rights : BitVec 32) (badge : Nat) : Option (CapState N) :=
  (s.capMint (some cur) src dst rights badge).bind (finish run allowed cur)

/-- `SyscallDispatcher::handle_cap_revoke`. -/
def handleCapRevoke (slot : Nat) : Option (CapState N) :=
  (s.capRevoke (some cur) slot).bind (finish run allowed cur)

/-- `SyscallDispatcher::handle_cap_grant`. `valid` is what `validate_user_ptr` says of the
descriptor, whose fields are the other arguments. -/
def handleCapGrant (valid : Bool) (targetTaskId srcSlot dstSlot : Nat) (newRights : BitVec 32)
    (badge : Nat) : Option (CapState N) :=
  if valid then
    match s.kernel.getTaskById targetTaskId with
    | none => some s
    | some target =>
      (s.capGrant (some cur) (some target) srcSlot dstSlot newRights badge).bind
        (finish run allowed cur)
  else some s

/-- `SyscallDispatcher::handle_cap_delete`. -/
def handleCapDelete (slot : Nat) : Option (CapState N) :=
  (s.capDelete (some cur) slot).map Prod.fst

/-- `SyscallDispatcher::handle_dev_open`. `valid` is what `validate_user_ptr` says of the descriptor
and of the name. -/
def handleDevOpen (valid : Bool) (name : Option (List UInt8)) (dstSlot : Nat) (rights : BitVec 32)
    (openRes : Int) : Option (CapState N) :=
  if valid ∧ name.isSome then
    (s.openDevice (some cur) name dstSlot rights openRes).map Prod.fst
  else some s

end Handlers

end CapState

/-- A system call with its arguments. -/
inductive CapCall
  | capDerive (src dst : Nat) (rights : BitVec 32)
  | capMint (src dst : Nat) (rights : BitVec 32) (badge : Nat)
  | capGrant (valid : Bool) (targetTaskId srcSlot dstSlot : Nat) (newRights : BitVec 32)
      (badge : Nat)
  | capDelete (slot : Nat)
  | capRevoke (slot : Nat)
  | devOpen (valid : Bool) (name : Option (List UInt8)) (dstSlot : Nat) (rights : BitVec 32)
      (openRes : Int)

namespace CapCall

/-- What a call of task `cur` does. -/
def handle [NeZero N] (run : Handlers N) (allowed : Nat → Bool) (s : CapState N) (cur : Fin N) :
    CapCall → Option (CapState N)
  | .capDerive src dst rights => s.handleCapDerive run allowed cur src dst rights
  | .capMint src dst rights badge => s.handleCapMint run allowed cur src dst rights badge
  | .capGrant valid target src dst rights badge =>
    s.handleCapGrant run allowed cur valid target src dst rights badge
  | .capDelete slot => s.handleCapDelete cur slot
  | .capRevoke slot => s.handleCapRevoke run allowed cur slot
  | .devOpen valid name dst rights res => s.handleDevOpen cur valid name dst rights res

/-- A call of the current task. -/
def exec [NeZero N] (run : Handlers N) (allowed : Nat → Bool) (call : CapCall) (s : CapState N) :
    Option (CapState N) :=
  match s.kernel.currentTcb with
  | none => some s
  | some cur => call.handle run allowed s cur

/-- The call asks `cur` to copy slot `src` to slot `dst` with the given rights and badge. -/
def Copies (s : CapState N) (cur : Fin N) (call : CapCall) (src dst : Place N)
    (rights : BitVec 32) (badge : Nat) : Prop :=
  match call with
  | .capDerive a b r =>
    place (some cur) a = some src ∧ place (some cur) b = some dst ∧ r = rights ∧
      badge = (s.cspace src).badge
  | .capMint a b r bdg =>
    place (some cur) a = some src ∧ place (some cur) b = some dst ∧ r = rights ∧ badge = bdg
  | .capGrant valid target a b r bdg =>
    valid = true ∧ place (some cur) a = some src ∧
      place (s.kernel.getTaskById target) b = some dst ∧ r = rights ∧ badge = bdg
  | .capDelete _ | .capRevoke _ | .devOpen .. => False

def opens : CapCall → Bool
  | .devOpen .. => true
  | _ => false

end CapCall

/-! ## What a call can leave in a slot -/

/-- A slot keeps its capability, loses it, gets a copy of a capability of the caller, or gets the
capability of a device. -/
inductive SlotEffect (s : CapState N) (cur : Fin N) (call : CapCall) (p : Place N) :
    Capability N → Prop
  | kept : SlotEffect s cur call p (s.cspace p)
  | lost (cap : Capability N) (h : cap.object = none) : SlotEffect s cur call p cap
  | copied {src : Place N} {rights : BitVec 32} {badge : Nat}
      (hcall : call.Copies s cur src p rights badge) (hmay : s.mayCopy src rights) :
      SlotEffect s cur call p (s.copyOf src rights badge)
  | opened {name : Option (List UInt8)} {dev : Nat} {rights : BitVec 32} (hcall : call.opens = true)
      (hown : p.1 = cur) (hdev : s.deviceFor name rights = some dev) :
      SlotEffect s cur call p (CapState.deviceCap dev rights)

/-- What a call does: to each slot what `SlotEffect` says, and to the kernel what the loss of
references brings with it. -/
structure CallEffect (s : CapState N) (cur : Fin N) (call : CapCall) (s' : CapState N) : Prop where
  slots : ∀ p, SlotEffect s cur call p (s'.cspace p)
  registry : s'.registry = s.registry
  kernel : ReflTransGen Withdrawal s.kernel s'.kernel

namespace CallEffect

open CapState

variable {s s' : CapState N} {cur : Fin N} {call : CapCall} {r : CapState N × Bool}

theorem refl (s : CapState N) (cur : Fin N) (call : CapCall) : CallEffect s cur call s :=
  ⟨fun _ => .kept, rfl, .refl⟩

theorem of_deleted {p : Place N} (h : s.capDeleteAt p = some s') : CallEffect s cur call s' := by
  have hw := capDeleteAt_withdraws h
  refine ⟨fun q => ?_, hw.registry, hw.kernel⟩
  rw [hw.cspace]
  by_cases hq : q = p
  · rw [hq, cspace_deleted_self]
    exact .lost _ rfl
  · rw [cspace_deleted_of_ne hq]
    exact .kept

theorem of_copyCap {src dst : Place N} {rights : BitVec 32} {badge : Nat}
    (hcall : call.Copies s cur src dst rights badge)
    (h : s.copyCap src dst rights badge = some r) : CallEffect s cur call r.1 := by
  cases copyCap_cases h with
  | refused => exact .refl s cur call
  | onto _ _ hs' =>
    refine ⟨fun q => ?_, hs'.registry, hs'.kernel⟩
    rw [hs'.cspace]
    show SlotEffect s cur call q (update (s.deleted dst).cspace dst _ q)
    by_cases hq : q = dst
    · rw [hq, update_self]
      exact .lost _ rfl
    · rw [update_of_ne hq, cspace_deleted_of_ne hq]
      exact .kept
  | copied hmay _ hs' =>
    refine ⟨fun q => ?_, hs'.registry.trans ?_, hs'.kernel⟩
    · rw [hs'.cspace]
      show SlotEffect s cur call q
        (((s.deleted dst).filled dst (s.copyOf src rights badge)).cspace q)
      rw [cspace_filled]
      by_cases hq : q = dst
      · subst hq
        rw [update_self]
        exact .copied hcall hmay
      · rw [update_of_ne hq, cspace_deleted_of_ne hq]
        exact .kept
    · exact ((s.deleted dst).rest_filled dst _).2.2

theorem of_capRevoke {task : Option (Fin N)} {slot : Nat}
    (h : s.capRevoke task slot = some r) : CallEffect s cur call r.1 := by
  -- every slot is as it was or points nowhere, which the loss of one more keeps
  have hkept : (∀ p, r.1.cspace p = s.cspace p ∨ (r.1.cspace p).object = none) ∧
      r.1.registry = s.registry ∧ ReflTransGen Withdrawal s.kernel r.1.kernel := by
    refine capRevoke_invariant (P := fun s' => (∀ p, s'.cspace p = s.cspace p ∨
      (s'.cspace p).object = none) ∧ s'.registry = s.registry ∧
      ReflTransGen Withdrawal s.kernel s'.kernel) (fun s₁ p h₁ => ?_) (fun s₁ s₂ p o _ h₂ h₁ => ?_)
      h ⟨fun _ => .inl rfl, rfl, .refl⟩
    · unfold syncBit
      split_ifs
      · exact h₁
      · exact h₁
    · have hw := dropCap_withdraws h₂
      refine ⟨fun q => ?_, hw.registry.trans h₁.2.1, h₁.2.2.trans hw.kernel⟩
      rw [hw.cspace]
      show update s₁.cspace p _ q = _ ∨ (update s₁.cspace p _ q).object = _
      by_cases hq : q = p
      · rw [hq, update_self]
        exact .inr rfl
      · rw [update_of_ne hq]
        exact h₁.1 q
  refine ⟨fun p => ?_, hkept.2.1, hkept.2.2⟩
  rcases hkept.1 p with heq | hnone
  · rw [heq]
    exact .kept
  · exact .lost _ hnone

theorem of_openDevice {name : Option (List UInt8)} {dst : Nat} {rights : BitVec 32} {res : Int}
    {r : CapState N × Int} (hcall : call.opens = true)
    (h : s.openDevice (some cur) name dst rights res = some r) : CallEffect s cur call r.1 := by
  rcases openDevice_cases h with heq | ⟨p, dev, hp, hdev, -, hs'⟩
  · rw [heq]
    exact .refl s cur call
  · refine ⟨fun q => ?_, hs'.registry, hs'.kernel⟩
    rw [hs'.cspace, cspace_filled]
    by_cases hq : q = p
    · rw [hq, update_self]
      exact .opened hcall (fst_of_place hp) hdev
    · rw [update_of_ne hq, cspace_deleted_of_ne hq]
      exact .kept

end CallEffect

/-- The state after a call, up to the termination of a caller whose request was refused. -/
inductive CallResult [NeZero N] (run : Handlers N) (allowed : Nat → Bool) (s : CapState N)
    (cur : Fin N) (call : CapCall) : CapState N → Prop
  | done {s' : CapState N} (h : CallEffect s cur call s') : CallResult run allowed s cur call s'
  | failed {s₁ s' : CapState N} (h : CallEffect s cur call s₁)
      (hs' : s₁.terminateCaller run allowed cur = some s') : CallResult run allowed s cur call s'

namespace CapCall

open CapState

variable [NeZero N] {run : Handlers N} {allowed : Nat → Bool} {s s' : CapState N} {cur : Fin N}

theorem of_finish {call : CapCall} {r : CapState N × Bool} (hr : CallEffect s cur call r.1)
    (h : finish run allowed cur r = some s') : CallResult run allowed s cur call s' := by
  unfold finish at h
  split_ifs at h
  · rw [← some.inj h]
    exact .done hr
  · exact .failed hr h

/-- **What a call can do.** -/
theorem handle_cases {call : CapCall} (h : call.handle run allowed s cur = some s') :
    CallResult run allowed s cur call s' := by
  cases call with
  | capDerive =>
    obtain ⟨r, hr, h⟩ := bind_eq_some_iff.mp h
    refine of_finish ?_ h
    rcases capDerive_cases hr with rfl | ⟨p, hp, hr⟩
    · exact .refl ..
    rcases capGrant_cases hr with rfl | ⟨p', q, hp', hq, hr⟩
    · exact .refl ..
    · obtain rfl := some.inj (hp.symm.trans hp')
      exact .of_copyCap ⟨hp, hq, rfl, rfl⟩ hr
  | capMint =>
    obtain ⟨r, hr, h⟩ := bind_eq_some_iff.mp h
    refine of_finish ?_ h
    rcases capGrant_cases (s.capMint_eq .. ▸ hr) with rfl | ⟨p, q, hp, hq, hr⟩
    · exact .refl ..
    · exact .of_copyCap ⟨hp, hq, rfl, rfl⟩ hr
  | capGrant =>
    simp only [handle, handleCapGrant] at h
    split_ifs at h with hvalid
    · split at h
      · rw [← some.inj h]
        exact .done (.refl ..)
      · next u hu =>
        obtain ⟨r, hr, h⟩ := bind_eq_some_iff.mp h
        refine of_finish ?_ h
        rcases capGrant_cases hr with rfl | ⟨p, q, hp, hq, hr⟩
        · exact .refl ..
        · exact .of_copyCap ⟨hvalid, hp, hu ▸ hq, rfl, rfl⟩ hr
    · rw [← some.inj h]
      exact .done (.refl ..)
  | capDelete slot =>
    obtain ⟨r, hr, rfl⟩ := map_eq_some_iff.mp h
    rcases capDelete_cases hr with heq | ⟨p, -, hdel⟩
    · rw [heq]
      exact .done (.refl ..)
    · exact .done (.of_deleted hdel)
  | capRevoke slot =>
    obtain ⟨r, hr, h⟩ := bind_eq_some_iff.mp h
    exact of_finish (.of_capRevoke hr) h
  | devOpen =>
    simp only [handle, handleDevOpen] at h
    split_ifs at h
    · obtain ⟨r, hr, rfl⟩ := map_eq_some_iff.mp h
      exact .done (.of_openDevice rfl hr)
    · rw [← some.inj h]
      exact .done (.refl ..)

end CapCall

namespace CallResult

variable [NeZero N] {run : Handlers N} {allowed : Nat → Bool} {s s' : CapState N} {cur : Fin N}
  {call : CapCall}

/-- The end of the caller changes no slot. -/
theorem slots (h : CallResult run allowed s cur call s') :
    (∀ p, SlotEffect s cur call p (s'.cspace p)) ∧ s'.registry = s.registry := by
  cases h with
  | done h => exact ⟨h.slots, h.registry⟩
  | failed h hs' =>
    obtain ⟨k, -, rfl⟩ := map_eq_some_iff.mp hs'
    exact ⟨h.slots, h.registry⟩

end CallResult

/-! ## Rights are never amplified -/

/-- The right is among those under which the object's device is registered. -/
def CapState.Registered (s : CapState N) (o : KernelObject N) (right : Right) : Prop :=
  ∃ entry ∈ s.registry, entry.inUse = true ∧ entry.device.map .device = some o ∧
    (CapRights.requested entry.defaultRights).has right = true

/-- A right that a call leaves in a slot was in a slot before, or comes with a device. -/
theorem SlotEffect.carries {s : CapState N} {cur : Fin N} {call : CapCall} {p : Place N}
    {cap : Capability N} (h : SlotEffect s cur call p cap) {o : KernelObject N} {right : Right}
    (hcap : cap.Carries o right) :
    (∃ q, (s.cspace q).Carries o right) ∨ s.Registered o right := by
  cases h with
  | kept => exact .inl ⟨p, hcap⟩
  | lost _ hnone =>
    have hsome := hcap.2.1
    rw [hnone] at hsome
    cases hsome
  | @copied src rights badge _ hmay =>
    simp only [CapState.mayCopy, Bool.and_eq_true, decide_eq_true_eq] at hmay
    exact .inl ⟨src, hmay.1, hcap.2.1, CapRights.has_of_coveredBy hmay.2 hcap.2.2⟩
  | opened _ _ hdev =>
    obtain ⟨entry, hmem, huse, hentry, hcovered⟩ := CapState.deviceFor_cases hdev
    refine .inr ⟨entry, hmem, huse, ?_, CapRights.has_of_coveredBy hcovered hcap.2.2⟩
    rw [hentry]
    exact hcap.2.1

/-- A call of the current task, or anything that leaves the capability spaces alone. -/
inductive CallStep [NeZero N] (ok : CapState N → Fin N → CapCall → Prop) (s : CapState N) :
    CapState N → Prop
  | call {s' : CapState N} {cur : Fin N} (hcur : s.kernel.currentTcb = some cur)
      (run : Handlers N) (allowed : Nat → Bool) (call : CapCall) (hok : ok s cur call)
      (h : call.exec run allowed s = some s') : CallStep ok s s'
  | kernel (k : Kernel N) : CallStep ok s (s.withKernel k)

section Runs

variable [NeZero N] {s s' s₀ : CapState N}

theorem CallStep.cases {ok : CapState N → Fin N → CapCall → Prop} (h : CallStep ok s s') :
    (∃ cur call, s.kernel.currentTcb = some cur ∧ ok s cur call ∧
      ∀ p, SlotEffect s cur call p (s'.cspace p)) ∧ s'.registry = s.registry ∨
      s'.cspace = s.cspace ∧ s'.registry = s.registry := by
  cases h with
  | call hcur run allowed call hok h =>
    unfold CapCall.exec at h
    rw [hcur] at h
    have hslots := (CapCall.handle_cases h).slots
    exact .inl ⟨⟨_, call, hcur, hok, hslots.1⟩, hslots.2⟩
  | kernel k => exact .inr ⟨rfl, rfl⟩

/-- **No authority is amplified.** Along every run of capability calls by any tasks, a right that a
slot carries for an object was carried for it by some slot at the start, or is among the default
rights of the object's device. -/
theorem rights_traced (hrun : ReflTransGen (CallStep fun _ _ _ => True) s₀ s) {p : Place N}
    {o : KernelObject N} {right : Right} (h : (s.cspace p).Carries o right) :
    (∃ q, (s₀.cspace q).Carries o right) ∨
      ∃ entry ∈ s₀.registry, entry.inUse = true ∧ entry.device.map .device = some o ∧
        (CapRights.requested entry.defaultRights).has right = true := by
  suffices htrace : s.registry = s₀.registry ∧ ∀ p, (s.cspace p).Carries o right →
      (∃ q, (s₀.cspace q).Carries o right) ∨ s₀.Registered o right from htrace.2 p h
  clear h p
  induction hrun with
  | refl => exact ⟨rfl, fun p h => .inl ⟨p, h⟩⟩
  | tail _ hstep ih =>
    rcases hstep.cases with ⟨⟨cur, call, -, -, hslots⟩, hreg⟩ | ⟨hcspace, hreg⟩
    · refine ⟨hreg.trans ih.1, fun p h => ?_⟩
      rcases (hslots p).carries h with ⟨q, hq⟩ | hdevice
      · exact ih.2 q hq
      · unfold CapState.Registered at hdevice
        rw [ih.1] at hdevice
        exact .inr hdevice
    · rw [hcspace, hreg]
      exact ih

end Runs

/-! ## The grant right does not confine

`cap_grant` treats the grant right as one more right that may be asked for, and never asks whether
the source slot carries it. -/

/-- What is copied comes from a slot of the caller. -/
theorem CapCall.Copies.source {s : CapState N} {cur : Fin N} {call : CapCall} {src dst : Place N}
    {rights : BitVec 32} {badge : Nat} (h : call.Copies s cur src dst rights badge) :
    src.1 = cur := by
  cases call with
  | capDerive | capMint => exact fst_of_place h.1
  | capGrant => exact fst_of_place h.2.1
  | capDelete | capRevoke | devOpen => exact h.elim

/-- A caller that has no capability to an object, and opens no device, gives none to any slot. -/
theorem SlotEffect.confined {s : CapState N} {cur : Fin N} {call : CapCall} {p : Place N}
    {cap : Capability N} {o : KernelObject N} (h : SlotEffect s cur call p cap)
    (hnone : ∀ i, (s.cspace (cur, i)).object ≠ some o) (hcall : call.opens = false)
    (ho : cap.object = some o) : cap = s.cspace p := by
  cases h with
  | kept => rfl
  | lost _ hlost =>
    rw [hlost] at ho
    cases ho
  | @copied src _ _ hcopies _ =>
    obtain rfl := hcopies.source
    exact absurd ho (hnone src.2)
  | opened hopens _ _ =>
    rw [hopens] at hcall
    cases hcall

/-- **A task gives nobody what it has not.** If task `t` starts without a capability to `o`, then
along every run of its calls, `SYS_DEV_OPEN` apart, a capability to `o` that any task has in the end
it had from the start. A capability without the grant right is enough to break this. -/
theorem grants_confined [NeZero N] {s s₀ : CapState N} {t : Fin N} {o : KernelObject N}
    (hnone : ∀ i, (s₀.cspace (t, i)).object ≠ some o)
    (hrun : ReflTransGen (CallStep fun _ cur call => cur = t ∧ call.opens = false) s₀ s)
    {p : Place N} (h : (s.cspace p).object = some o) : s.cspace p = s₀.cspace p := by
  induction hrun generalizing p with
  | refl => rfl
  | tail _ hstep ih =>
    rcases hstep.cases with ⟨⟨cur, call, -, ⟨rfl, hcall⟩, hslots⟩, -⟩ | ⟨hcspace, -⟩
    · have hstill : ∀ i, (CapState.cspace _ (cur, i)).object ≠ some o := fun i hi =>
        hnone i (ih hi ▸ hi)
      have heq := (hslots p).confined hstill hcall h
      rw [heq] at h ⊢
      exact ih h
    · rw [hcspace] at h ⊢
      exact ih h

/-! ## Runs by example -/

local instance neZeroSlots : NeZero 16 := ⟨by decide⟩

/-- The first task holds an endpoint that it may call and listen at but not grant. -/
def oneHolder : CapState 2 :=
  let s := { noCaps with kernel := { twoTasks with currentTcb := some 0 } }
  (s.setSlot (0, 0) ⟨.endpoint, ⟨true, true, false⟩, 5, some (.endpoint 0)⟩).occupy (0, 0)

/-- The second task holds the same endpoint under another badge. -/
def twoHolders : CapState 2 :=
  (oneHolder.setSlot (1, 3) ⟨.endpoint, ⟨true, false, false⟩, 6, some (.endpoint 0)⟩).occupy (1, 3)

/-- The state after a list of calls, no signal handler coming back. -/
def CapCall.execAll [NeZero N] (calls : List CapCall) (s : CapState N) : Option (CapState N) :=
  calls.foldlM (fun s call => call.exec (fun _ _ => none) (fun _ => true) s) s

/-- Derive a weaker capability, mint another from it, open a device. -/
def spread : List CapCall :=
  [.capDerive 0 1 1#32, .capMint 1 2 1#32 9, .capDelete 0,
    .devOpen true (some [116, 116, 121]) 0 3#32 0]

theorem rights_traced_spread : ∃ s, CapCall.execAll spread twoHolders = some s ∧
    (s.cspace (0, 2)).Carries (.endpoint 0) .read ∧
    ((∃ q, (twoHolders.cspace q).Carries (.endpoint 0) .read) ∨
      ∃ entry ∈ twoHolders.registry, entry.inUse = true ∧
        entry.device.map .device = some (.endpoint 0 : KernelObject 2) ∧
        (CapRights.requested entry.defaultRights).has .read = true) := by
  obtain ⟨s, hs, hfacts⟩ : ∃ s ∈ CapCall.execAll spread twoHolders,
      (s.cspace (0, 2)).Carries (.endpoint 0) .read := by decide +kernel
  have hrun : ReflTransGen (CallStep fun _ _ _ => True) twoHolders s :=
    Run.reflTransGen_of_actions (P := fun s _ => s.kernel.currentTcb = some 0)
      (fun _ _ call hcur hexec => .call hcur _ _ call trivial hexec) (by decide +kernel) hs
  exact ⟨s, hs, hfacts, rights_traced hrun hfacts⟩

/-- The second task holds an endpoint that the first has not. -/
def strangers : CapState 2 :=
  twoHolders.setSlot (1, 3) ⟨.endpoint, ⟨true, false, true⟩, 6, some (.endpoint 1)⟩

/-- The first task hands its own endpoint on, and drops it. -/
def handOn : List CapCall := [.capDerive 0 1 1#32, .capGrant true 1 1 2 1#32 5, .capDelete 0]

theorem grants_confined_handOn : ∃ s, CapCall.execAll handOn strangers = some s ∧
    (s.cspace (1, 2)).object = some (.endpoint 0) ∧ s.cspace (1, 3) = strangers.cspace (1, 3) := by
  obtain ⟨s, hs, hfacts⟩ : ∃ s ∈ CapCall.execAll handOn strangers,
      (s.cspace (1, 2)).object = some (.endpoint 0) ∧
      (s.cspace (1, 3)).object = some (.endpoint 1) := by
    decide +kernel
  have hrun : ReflTransGen (CallStep fun _ cur call => cur = 0 ∧ call.opens = false) strangers s :=
    Run.reflTransGen_of_actions
      (P := fun s call => s.kernel.currentTcb = some 0 ∧ call.opens = false)
      (fun _ _ call hcall hexec => .call hcall.1 _ _ call ⟨rfl, hcall.2⟩ hexec)
      (by decide +kernel) hs
  exact ⟨s, hs, hfacts.1, grants_confined (by decide) hrun hfacts.2⟩

/-- A task without the grant right hands its capability on all the same. -/
theorem grant_without_right :
    (∀ i, ¬ (oneHolder.cspace (0, i)).Carries (.endpoint 0) .grant) ∧
      (∀ i, (oneHolder.cspace (1, i)).object ≠ some (.endpoint 0)) ∧
      ∃ s, (CapCall.capGrant true 1 0 0 3#32 5).exec (fun _ _ => none) (fun _ => true) oneHolder =
        some s ∧ (s.cspace (1, 0)).Carries (.endpoint 0) .write := by
  refine ⟨by decide, by decide, ?_⟩
  decide +kernel

end AuroraOS
