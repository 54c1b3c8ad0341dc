import AuroraOS.Lib.CString
import AuroraOS.VfsPaths

/-!
# The device registry

`DeviceRegistry` of `kernel/core/device.cpp`: devices under names, each with a reference held by the
registry and, where its path fits, a mount point `/dev/<name>`. A device is the number of its
object; 0 is the null pointer.

A name is cut to 31 characters where it is stored and compared as a whole, and a mount point is
never given back. `devices_agree`: in a run in which no device has a longer name, the table, the
names, the count and the references agree with the calls that have succeeded. The path leads to the
device as long as no device of that name has been unregistered and there was room for the mount
points.
-/

namespace AuroraOS

open CString Vfs List Function VfsState Option

variable {World : Type}

structure DeviceSystem.DeviceEntry where
  name : List Char
  device : Nat
  defaultRights : Nat
  inUse : Bool

/-- `DeviceEntry::NAME_MAX_LEN` -/
def nameMaxLen : Nat := 32

/-- `Device::VFS_PATH_CAP` -/
def vfsPathCap : Nat := 32

/-- A call that has returned true. -/
inductive DeviceEvent
  | registered (name : List Char) (device : Nat)
  | unregistered (name : List Char)
  deriving DecidableEq

/-- The registry, the devices' reference counts and `registered_` flags, and the file system. The
log has the successful calls, the last one first. -/
structure DeviceSystem (World : Type) where
  entries : Fin 16 → DeviceSystem.DeviceEntry
  deviceCount : Nat
  refCount : Nat → Nat
  marked : Nat → Bool
  vfs : VfsState World
  log : List DeviceEvent

/-- `/dev/<name>` -/
def devPath (name : List Char) : List Char := ['/', 'd', 'e', 'v', '/'] ++ name

namespace DeviceSystem

variable (s : DeviceSystem World)

/-! ## The functions -/

/-- The entry that a name is found at. -/
def findEntry (name : List Char) : Option (Fin 16) :=
  (List.finRange 16).find? fun i =>
    (s.entries i).inUse && strncmpEq (s.entries i).name name nameMaxLen

def freeSlot : Option (Fin 16) := (List.finRange 16).find? fun i => !(s.entries i).inUse

def setEntry (i : Fin 16) (e : DeviceEntry) : DeviceSystem World :=
  { s with entries := Function.update s.entries i e }

def retain (dev : Nat) : DeviceSystem World :=
  { s with refCount := Function.update s.refCount dev ((s.refCount dev + 1) % 2 ^ 32) }

/-- A device's `destroy` does nothing. -/
def release (dev : Nat) : DeviceSystem World :=
  if s.refCount dev > 0 then
    { s with refCount := Function.update s.refCount dev (s.refCount dev - 1) }
  else s

def markRegistered (dev : Nat) (v : Bool) : DeviceSystem World :=
  { s with marked := Function.update s.marked dev v }

/-- Step 4 of `register_device`. -/
def mountDevice (vn : Vnodes World) (endpoint : Bool) (dev : Nat) (name : List Char) :
    DeviceSystem World :=
  if 5 + name.length + 1 ≤ vfsPathCap then
    let (mounted, vfs) := s.vfs.managerMount vn endpoint id (devPath name) dev
    { s with vfs }.markRegistered dev mounted
  else s

/-- Fill an entry. The log has the name of the device, not what is stored of it. -/
def fillEntry (i : Fin 16) (name : List Char) (dev rights : Nat) : DeviceSystem World :=
  { (s.setEntry i ⟨name.take (nameMaxLen - 1), dev, rights, true⟩).retain dev with
    deviceCount := s.deviceCount + 1, log := .registered name dev :: s.log }

def registerDevice (names : Nat → Option (List Char)) (vn : Vnodes World) (endpoint : Bool)
    (dev rights : Nat) : Bool × DeviceSystem World :=
  if dev = 0 then (false, s)
  else
    match names dev with
    | none => (false, s)
    | some name =>
      if name.take (nameMaxLen - 1) = [] then (false, s)
      else
        match s.findEntry name, s.freeSlot with
        | none, some i =>
          (true, (s.fillEntry i name dev rights).mountDevice vn endpoint dev
            (name.take (nameMaxLen - 1)))
        | _, _ => (false, s)

/-- Clear an entry. -/
def clearEntry (i : Fin 16) (name : List Char) : DeviceSystem World :=
  { s.setEntry i ⟨[], 0, 0, false⟩ with
    deviceCount := s.deviceCount - 1, log := .unregistered name :: s.log }

def unregisterDevice (name : List Char) : Bool × DeviceSystem World :=
  match s.findEntry name with
  | none => (false, s)
  | some i =>
    let dev := (s.entries i).device
    (true, ((s.markRegistered dev false).release dev).clearEntry i name)

def lookupDevice (name : List Char) : Option Nat :=
  (s.findEntry name).map fun i => (s.entries i).device

end DeviceSystem

/-! ## Runs -/

inductive DeviceOp
  | register (dev rights : Nat)
  | unregister (name : List Char)

/-- A call. -/
def DeviceOp.exec (names : Nat → Option (List Char)) (vn : Vnodes World) (endpoint : Bool)
    (s : DeviceSystem World) : DeviceOp → DeviceSystem World
  | .register dev rights => (s.registerDevice names vn endpoint dev rights).2
  | .unregister name => (s.unregisterDevice name).2

/-- An empty registry; every device has the reference of its creator. -/
def DeviceSystem.init (vfs : VfsState World) : DeviceSystem World where
  entries := fun _ => ⟨[], 0, 0, false⟩
  deviceCount := 0
  refCount := fun _ => 1
  marked := fun _ => false
  vfs := vfs
  log := []

def DeviceSystem.run (names : Nat → Option (List Char)) (vn : Vnodes World) (endpoint : Bool)
    (l : List DeviceOp) (vfs : VfsState World) : DeviceSystem World :=
  l.foldl (DeviceOp.exec names vn endpoint) (.init vfs)

/-- The device for which `register_device` last returned true under a name and which has not been
unregistered since. -/
def holder : List DeviceEvent → List Char → Option Nat
  | [], _ => none
  | .registered m dev :: log, n => if m = n then some dev else holder log n
  | .unregistered m :: log, n => if m = n then none else holder log n

/-- The number of registrations. -/
def registrations (log : List DeviceEvent) : Nat :=
  log.countP fun e => match e with
    | .registered .. => true
    | .unregistered _ => false

/-! ## What a call does -/

namespace DeviceSystem

variable {s : DeviceSystem World} {s' : DeviceSystem World} {name : List Char} {dev : Nat}

theorem registerDevice_cases (names : Nat → Option (List Char)) (vn : Vnodes World)
    (endpoint : Bool) (dev rights : Nat) :
    s.registerDevice names vn endpoint dev rights = (false, s) ∨
      ∃ name i, dev ≠ 0 ∧ names dev = some name ∧ name ≠ [] ∧ s.findEntry name = none ∧
        s.freeSlot = some i ∧ s.registerDevice names vn endpoint dev rights =
          (true, (s.fillEntry i name dev rights).mountDevice vn endpoint dev (name.take 31)) := by
  unfold registerDevice
  by_cases hdev : dev = 0
  · exact .inl (by simp [hdev])
  · rw [if_neg hdev]
    cases hname : names dev with
    | none => exact .inl rfl
    | some name =>
      dsimp only
      by_cases hempty : name.take (nameMaxLen - 1) = []
      · exact .inl (by simp [hempty])
      · rw [if_neg hempty]
        cases hfind : s.findEntry name with
        | some i => exact .inl rfl
        | none =>
          cases hfree : s.freeSlot with
          | none => exact .inl rfl
          | some i =>
            refine .inr ⟨name, i, hdev, rfl, ?_, hfind, rfl, rfl⟩
            intro hnil
            simp [hnil] at hempty

/-- A device without references keeps none. -/
theorem release_eq (s : DeviceSystem World) (dev : Nat) :
    s.release dev = { s with refCount := update s.refCount dev (s.refCount dev - 1) } := by
  unfold release
  split_ifs with hpos
  · rfl
  · have hzero : s.refCount dev - 1 = s.refCount dev := by omega
    rw [hzero, update_eq_self]

/-- With nobody else at work, a request through the endpoint fails where the direct call has
failed. -/
theorem managerMount_eq {vfs : VfsState World} (vn : Vnodes World) (endpoint : Bool)
    (path : List Char) (hdev : dev ≠ 0) :
    vfs.managerMount vn endpoint id path dev = vfs.mount path dev := by
  have hfail : (vfs.mount path dev).1 = false → vfs.mount path dev = (false, vfs) := by
    intro h
    unfold mount at h ⊢
    split_ifs at h ⊢
    rfl
  unfold managerMount
  rw [if_neg hdev]
  by_cases hdirect : (vfs.mount path dev).1 = true
  · rw [if_pos hdirect]
    exact Prod.ext hdirect.symm rfl
  · have hfalse := hfail (by simpa using hdirect)
    rw [callVfs_mount_copyPath]
    cases endpoint <;> simp [hfalse, callVfs, processRequest, withStatus]

theorem mountDevice_frame (vn : Vnodes World) (endpoint : Bool) (dev : Nat) (name : List Char) :
    ∃ vfs marked, s.mountDevice vn endpoint dev name = { s with vfs, marked } := by
  unfold mountDevice
  split_ifs <;> exact ⟨_, _, rfl⟩

theorem mountDevice_vfs (vn : Vnodes World) (endpoint : Bool) (hdev : dev ≠ 0)
    (name : List Char) : (s.mountDevice vn endpoint dev name).vfs =
      if name.length ≤ 26 then (s.vfs.mount (devPath name) dev).2 else s.vfs := by
  unfold mountDevice vfsPathCap
  rw [managerMount_eq vn endpoint (devPath name) hdev]
  by_cases hlen : name.length ≤ 26
  · rw [if_pos hlen, if_pos (by omega)]
    rfl
  · rw [if_neg hlen, if_neg (by omega)]

/-! ## The table -/

/-- The number of entries with a property. -/
def entryCount (entries : Fin 16 → DeviceEntry) (p : DeviceEntry → Bool) : Nat :=
  (Finset.univ.filter fun i => p (entries i)).card

theorem entryCount_update (entries : Fin 16 → DeviceEntry) (p : DeviceEntry → Bool) (i : Fin 16)
    (e : DeviceEntry) :
    entryCount (update entries i e) p + (if p (entries i) then 1 else 0) =
      entryCount entries p + if p e then 1 else 0 := by
  have hrest : ∀ f : Fin 16 → DeviceEntry, entryCount f p =
      (if p (f i) then 1 else 0) + ∑ j ∈ Finset.univ.erase i, if p (f j) then 1 else 0 := by
    intro f
    rw [entryCount, Finset.card_filter]
    exact (Finset.add_sum_erase Finset.univ (fun j => if p (f j) then 1 else 0)
      (Finset.mem_univ i)).symm
  have hsame : ∑ j ∈ Finset.univ.erase i, (if p (update entries i e j) then 1 else 0) =
      ∑ j ∈ Finset.univ.erase i, if p (entries j) then 1 else 0 := by
    apply Finset.sum_congr rfl
    intro j hj
    rw [update_of_ne (Finset.ne_of_mem_erase hj)]
  rw [hrest, hrest entries, update_self]
  omega

theorem entryCount_le (entries : Fin 16 → DeviceEntry) (p : DeviceEntry → Bool) :
    entryCount entries p ≤ 16 :=
  (Finset.card_filter_le _ _).trans (by simp)

/-- What the table and the counts say about the calls that have succeeded. -/
structure Inv (s : DeviceSystem World) : Prop where
  short : ∀ i, (s.entries i).inUse = true → (s.entries i).name.length ≤ 31
  distinct : ∀ i j, (s.entries i).inUse = true → (s.entries j).inUse = true →
    (s.entries i).name = (s.entries j).name → i = j
  held : ∀ n d, holder s.log n = some d ↔
    ∃ i, (s.entries i).inUse = true ∧ (s.entries i).name = n ∧ (s.entries i).device = d
  count : s.deviceCount = entryCount s.entries fun e => e.inUse
  refs : ∀ d, s.refCount d = 1 + entryCount s.entries fun e => e.inUse && e.device = d

namespace Inv

variable {i : Fin 16}

theorem init (vfs : VfsState World) : (DeviceSystem.init vfs).Inv := by
  refine ⟨?_, ?_, ?_, ?_, ?_⟩ <;> simp [DeviceSystem.init, holder, entryCount]

variable (h : s.Inv)

include h

theorem matches_iff (n : List Char) (i : Fin 16) :
    ((s.entries i).inUse && decide (strncmpEq (s.entries i).name n nameMaxLen)) = true ↔
      (s.entries i).inUse = true ∧ (s.entries i).name = n := by
  rw [Bool.and_eq_true, decide_eq_true_eq]
  apply and_congr_right
  intro huse
  exact strncmpEq_iff (Nat.lt_succ_of_le (h.short i huse)) n

theorem findEntry_some {n : List Char} (hfind : s.findEntry n = some i) :
    (s.entries i).inUse = true ∧ (s.entries i).name = n := by
  have hmatch := find?_some hfind
  exact (h.matches_iff n i).mp hmatch

theorem findEntry_none {n : List Char} (hfind : s.findEntry n = none)
    (huse : (s.entries i).inUse = true) : (s.entries i).name ≠ n := by
  intro hname
  have hno := find?_eq_none.mp hfind i (mem_finRange i)
  exact hno ((h.matches_iff n i).mpr ⟨huse, hname⟩)

theorem lookupDevice (n : List Char) : s.lookupDevice n = holder s.log n := by
  unfold DeviceSystem.lookupDevice
  cases hfind : s.findEntry n with
  | some i =>
    obtain ⟨huse, hname⟩ := h.findEntry_some hfind
    exact ((h.held n _).mpr ⟨i, huse, hname, rfl⟩).symm
  | none =>
    cases hheld : holder s.log n with
    | none => rfl
    | some d =>
      obtain ⟨i, huse, hname, -⟩ := (h.held n d).mp hheld
      exact absurd hname (h.findEntry_none hfind huse)

/-- One entry is written, and the log and the counts follow it. -/
theorem update {e : DeviceEntry}
    (hentries : s'.entries = update s.entries i e)
    (hshort : e.inUse = true → e.name.length ≤ 31)
    (hother : e.inUse = true → ∀ j, (s.entries j).inUse = true → (s.entries j).name ≠ e.name)
    (hheld : ∀ n d, holder s'.log n = some d ↔ (e.inUse = true ∧ e.name = n ∧ e.device = d) ∨
      ∃ j ≠ i, (s.entries j).inUse = true ∧ (s.entries j).name = n ∧ (s.entries j).device = d)
    (hcount : s'.deviceCount + (if (s.entries i).inUse then 1 else 0) =
      s.deviceCount + if e.inUse then 1 else 0)
    (hrefs : ∀ d,
      s'.refCount d + (if (s.entries i).inUse && (s.entries i).device = d then 1 else 0) =
      s.refCount d + if e.inUse && e.device = d then 1 else 0) : s'.Inv where
  short := by
    rw [hentries]
    exact (forall_update_iff s.entries fun _ e => e.inUse = true → e.name.length ≤ 31).mpr
      ⟨hshort, fun j _ => h.short j⟩
  distinct := by
    rw [hentries]
    intro j k hj hk heq
    by_cases hji : j = i <;> by_cases hki : k = i <;>
      simp only [hji, hki, update_self, update_of_ne, ne_eq, not_false_eq_true] at *
    · exact absurd heq.symm (hother hj k hk)
    · exact absurd heq (hother hk j hj)
    · exact h.distinct j k hj hk heq
  held n d := by
    rw [hentries, hheld, exists_update_iff s.entries fun _ e =>
      e.inUse = true ∧ e.name = n ∧ e.device = d]
  count := by
    have hnow := entryCount_update s.entries (fun e => e.inUse) i e
    rw [hentries]
    rw [h.count] at hcount
    omega
  refs d := by
    have hnow := entryCount_update s.entries (fun e => e.inUse && e.device = d) i e
    have hd := hrefs d
    rw [hentries]
    rw [h.refs] at hd
    omega

theorem fillEntry (hfind : s.findEntry name = none)
    (hfree : (s.entries i).inUse = false) (hshort : name.length ≤ 31) (dev rights : Nat) :
    (s.fillEntry i name dev rights).Inv := by
  have hname : name.take (nameMaxLen - 1) = name := take_of_length_le hshort
  have hnone : ∀ j, (s.entries j).inUse = true → (s.entries j).name ≠ name := fun j hj =>
    h.findEntry_none hfind hj
  refine h.update (i := i) (e := ⟨name, dev, rights, true⟩) ?_ (fun _ => hshort) (fun _ => hnone)
    (fun n d => ?_) ?_ fun d => ?_
  · change Function.update s.entries i ⟨name.take (nameMaxLen - 1), dev, rights, true⟩ = _
    rw [hname]
  · change (if name = n then some dev else holder s.log n) = some d ↔ _
    split_ifs with heq
    · subst heq
      refine ⟨fun hd => .inl ⟨rfl, rfl, some.inj hd⟩, ?_⟩
      rintro (⟨-, -, hd⟩ | ⟨j, -, huse, hjname, -⟩)
      · exact congrArg some hd
      · exact absurd hjname (hnone j huse)
    · rw [h.held]
      constructor
      · rintro ⟨j, huse, hj⟩
        refine .inr ⟨j, ?_, huse, hj⟩
        rintro rfl
        exact absurd huse (by simp [hfree])
      · rintro (⟨-, hn, -⟩ | ⟨j, -, hj⟩)
        · exact absurd hn heq
        · exact ⟨j, hj⟩
  · simp [hfree, DeviceSystem.fillEntry, setEntry]
  · have hle := entryCount_le s.entries fun e => e.inUse && e.device = dev
    have hnow := h.refs dev
    change Function.update s.refCount dev ((s.refCount dev + 1) % 2 ^ 32) d + _ = _
    by_cases hd : dev = d
    · subst hd
      simp only [update_self, hfree, Bool.false_and, Bool.true_and, decide_true, if_true,
        Bool.false_eq_true, if_false]
      omega
    · simp [hfree, hd, update_of_ne (Ne.symm hd)]

theorem unregister (hfind : s.findEntry name = some i) :
    (((s.markRegistered (s.entries i).device false).release (s.entries i).device).clearEntry
      i name).Inv := by
  obtain ⟨huse, hname⟩ := h.findEntry_some hfind
  have hpos := h.refs (s.entries i).device
  rw [release_eq]
  refine h.update (i := i) (e := ⟨[], 0, 0, false⟩) rfl nofun nofun (fun n d => ?_) ?_ fun d => ?_
  · change (if name = n then none else holder s.log n) = some d ↔ _
    split_ifs with heq
    · refine ⟨nofun, ?_⟩
      rintro (⟨hno, -⟩ | ⟨j, hji, hj, hjname, -⟩)
      · cases hno
      · exact absurd (h.distinct j i hj huse (by rw [hjname, hname, heq])) hji
    · rw [h.held]
      constructor
      · rintro ⟨j, hj⟩
        refine .inr ⟨j, ?_, hj⟩
        rintro rfl
        exact heq (hname.symm.trans hj.2.1)
      · rintro (⟨hno, -⟩ | ⟨j, -, hj⟩)
        · cases hno
        · exact ⟨j, hj⟩
  · have hcount := entryCount_update s.entries (fun e => e.inUse) i ⟨[], 0, 0, false⟩
    rw [← h.count] at hcount
    change s.deviceCount - 1 + _ = _
    simp only [huse, Bool.false_eq_true, if_false, if_true] at hcount ⊢
    omega
  · change Function.update s.refCount (s.entries i).device
      (s.refCount (s.entries i).device - 1) d + _ = _
    by_cases hd : (s.entries i).device = d
    · subst hd
      simp only [update_self, huse, Bool.true_and, decide_true, if_true]
      simp only [Bool.false_and, Bool.false_eq_true, if_false]
      omega
    · simp [hd, update_of_ne (Ne.symm hd)]

theorem mountDevice (vn : Vnodes World) (endpoint : Bool) (dev : Nat) (name : List Char) :
    (s.mountDevice vn endpoint dev name).Inv := by
  obtain ⟨vfs, marked, heq⟩ := s.mountDevice_frame vn endpoint dev name
  rw [heq]
  exact ⟨h.short, h.distinct, h.held, h.count, h.refs⟩

theorem ncard_holder (p : Nat → Bool) :
    {n | ∃ d, holder s.log n = some d ∧ p d = true}.ncard =
      entryCount s.entries fun e => e.inUse && p e.device := by
  have hset : {n | ∃ d, holder s.log n = some d ∧ p d = true} =
      ((Finset.univ.filter fun i => (s.entries i).inUse && p (s.entries i).device).image
        fun i => (s.entries i).name : Finset (List Char)) := by
    ext n
    simp only [Finset.coe_image, Finset.coe_filter, Finset.mem_univ, true_and, Bool.and_eq_true]
    constructor
    · intro hex
      obtain ⟨d, hd, hp⟩ := hex
      obtain ⟨i, huse, hname, rfl⟩ := (h.held n d).mp hd
      exact ⟨i, ⟨huse, hp⟩, hname⟩
    · intro hex
      obtain ⟨i, ⟨huse, hp⟩, hname⟩ := hex
      exact ⟨_, (h.held n _).mpr ⟨i, huse, hname, rfl⟩, hp⟩
  rw [hset, Set.ncard_coe_finset, Finset.card_image_of_injOn, entryCount]
  intro i hi j hj heq
  simp only [Finset.coe_filter, Finset.mem_univ, true_and, Bool.and_eq_true] at hi hj
  exact h.distinct i j hi.1 hj.1 heq

end Inv

/-! ## The mount points -/

/-- What the mount table says about the calls that have succeeded, for a file system that was
`start` in the beginning. -/
structure Mounted (start : VfsState World) (s : DeviceSystem World) : Prop where
  stored : s.vfs.server.Stored
  table : ∃ added, s.vfs.server.mounts = start.server.mounts ++ added ∧
    ∀ m ∈ added, ∃ n d, m = (devPath n, d) ∧ n ≠ [] ∧ .registered n d ∈ s.log
  length : s.vfs.server.mounts.length ≤ start.server.mounts.length + registrations s.log
  complete : start.server.mounts.length + registrations s.log ≤ maxMountPoints →
    ∀ n d, .registered n d ∈ s.log → n.length ≤ 26 → hasTraversal true (devPath n) = false →
      (devPath n, d) ∈ s.vfs.server.mounts
  once : ∀ n d, .registered n d ∈ s.log → .unregistered n ∉ s.log → holder s.log n = some d

namespace Mounted

variable {start : VfsState World}

theorem init (h : start.server.Stored) : Mounted start (.init start) where
  stored := h
  table := ⟨[], by simp [DeviceSystem.init], by simp⟩
  length := by simp [DeviceSystem.init]
  complete := by simp [DeviceSystem.init]
  once := by simp [DeviceSystem.init]

theorem register (h : Mounted start s) (hinv : s.Inv) {i : Fin 16}
    (hempty : name ≠ []) (hfind : s.findEntry name = none) (hshort : name.length ≤ 31)
    (hdev : dev ≠ 0) (rights : Nat) (vn : Vnodes World) (endpoint : Bool) :
    Mounted start
      ((s.fillEntry i name dev rights).mountDevice vn endpoint dev (name.take 31)) := by
  have hname : name.take 31 = name := take_of_length_le hshort
  rw [hname]
  generalize hs' : (s.fillEntry i name dev rights).mountDevice vn endpoint dev name = s'
  have hlog : s'.log = .registered name dev :: s.log := by
    obtain ⟨vfs, marked, heq⟩ :=
      (s.fillEntry i name dev rights).mountDevice_frame vn endpoint dev name
    rw [← hs', heq]
    rfl
  have hcount : registrations s'.log = registrations s.log + 1 := by
    rw [hlog, registrations, countP_cons]
    rfl
  have hvfs : s'.vfs = if name.length ≤ 26 then (s.vfs.mount (devPath name) dev).2 else s.vfs := by
    rw [← hs', mountDevice_vfs vn endpoint hdev]
    rfl
  -- the table has at most one more entry, and it has it if there is room
  obtain ⟨new, hmounts, hnew, hmem, hroom⟩ : ∃ new,
      s'.vfs.server.mounts = s.vfs.server.mounts ++ new ∧
      new.length ≤ 1 ∧ (∀ m ∈ new, m = (devPath name, dev)) ∧
        (name.length ≤ 26 → hasTraversal true (devPath name) = false →
          s.vfs.server.mounts.length < maxMountPoints → (devPath name, dev) ∈ new) := by
    rw [hvfs]
    by_cases hlen : name.length ≤ 26
    · unfold mount
      split_ifs with hbad
      · have hpath : (devPath name).length ≤ 31 := by
          simp only [devPath, length_append, length_cons, length_nil]
          omega
        refine ⟨[], by simp, by simp, nofun, fun _ hdots hroom => ?_⟩
        rcases hbad with hnull | hlong | hbad | hfull
        · exact absurd hnull hdev
        · exact absurd hpath (not_le.mpr hlong)
        · cases hdots.symm.trans hbad
        · exact absurd hroom (not_lt.mpr hfull)
      · exact ⟨_, rfl, le_rfl, fun m => mem_singleton.mp, fun _ _ _ => mem_singleton.mpr rfl⟩
    · rw [if_neg hlen]
      exact ⟨[], by simp, by simp, nofun, fun hok => absurd hok hlen⟩
  obtain ⟨added, htable, hadded⟩ := h.table
  have hlength := h.length
  refine ⟨?_, ?_, ?_, ?_, ?_⟩
  · rw [hvfs]
    split_ifs
    · exact h.stored.mount _ _
    · exact h.stored
  · refine ⟨added ++ new, by rw [hmounts, htable, append_assoc], fun m hm => ?_⟩
    rw [hlog]
    rcases mem_append.mp hm with hm | hm
    · obtain ⟨n, d, hmn, hn, hin⟩ := hadded m hm
      exact ⟨n, d, hmn, hn, mem_cons_of_mem _ hin⟩
    · exact ⟨name, dev, hmem m hm, hempty, mem_cons_self ..⟩
  · rw [hmounts, length_append]
    omega
  · intro hfits n d hin hlen hdots
    rw [hlog] at hin
    rw [hmounts]
    rcases mem_cons.mp hin with heq | hin
    · obtain ⟨rfl, rfl⟩ : n = name ∧ d = dev := by simpa using heq
      exact mem_append_right _ (hroom hlen hdots (by omega))
    · exact mem_append_left _ (h.complete (by omega) n d hin hlen hdots)
  · intro n d hin hnot
    rw [hlog] at hin hnot ⊢
    change (if name = n then some dev else holder s.log n) = some d
    rcases mem_cons.mp hin with heq | hin
    · obtain ⟨rfl, rfl⟩ : n = name ∧ d = dev := by simpa using heq
      exact if_pos rfl
    · have hheld := h.once n d hin fun hun => hnot (mem_cons_of_mem _ hun)
      rw [if_neg ?_]
      · exact hheld
      · intro heq
        obtain ⟨j, huse, hjname, -⟩ := (hinv.held n d).mp hheld
        exact hinv.findEntry_none hfind huse (hjname.trans heq.symm)

/-- A name is free again: its mount point stays. -/
theorem unregister (h : Mounted start s) (name : List Char)
    (hvfs : s'.vfs = s.vfs) (hlog : s'.log = .unregistered name :: s.log) : Mounted start s' := by
  have hcount : registrations s'.log = registrations s.log := by
    rw [hlog, registrations]
    rfl
  have hin : ∀ n d, .registered n d ∈ s'.log → .registered n d ∈ s.log := by
    intro n d hmem
    rw [hlog] at hmem
    exact (mem_cons.mp hmem).resolve_left (by simp)
  obtain ⟨added, htable, hadded⟩ := h.table
  refine ⟨by rw [hvfs]; exact h.stored, ⟨added, by rw [hvfs, htable], ?_⟩, ?_, ?_, ?_⟩
  · intro m hm
    obtain ⟨n, d, hmn, hn, hmem⟩ := hadded m hm
    exact ⟨n, d, hmn, hn, by rw [hlog]; exact mem_cons_of_mem _ hmem⟩
  · rw [hvfs, hcount]
    exact h.length
  · intro hroom n d hmem
    rw [hvfs]
    exact h.complete (hcount ▸ hroom) n d (hin n d hmem)
  · intro n d hmem hnot
    rw [hlog] at hnot ⊢
    have hne : name ≠ n := by
      intro heq
      exact hnot (by rw [heq]; exact mem_cons_self ..)
    change (if name = n then none else holder s.log n) = some d
    rw [if_neg hne]
    exact h.once n d (hin n d hmem) fun hun => hnot (mem_cons_of_mem _ hun)

end Mounted

theorem inv_run {names : Nat → Option (List Char)} {start : VfsState World}
    (hstored : start.server.Stored) (vn : Vnodes World) (endpoint : Bool) {l : List DeviceOp}
    (hshort : ∀ dev rights, .register dev rights ∈ l → ∀ name ∈ names dev, name.length ≤ 31) :
    (run names vn endpoint l start).Inv ∧ Mounted start (run names vn endpoint l start) := by
  refine Run.foldl_invariant (P := fun s : DeviceSystem World => s.Inv ∧ Mounted start s) ?_
    ⟨Inv.init start, Mounted.init hstored⟩
  intro s op hop hs
  obtain ⟨hinv, hmounted⟩ := hs
  cases op with
  | register dev rights =>
    change (s.registerDevice names vn endpoint dev rights).2.Inv ∧
      Mounted start (s.registerDevice names vn endpoint dev rights).2
    rcases registerDevice_cases names vn endpoint dev rights with
      hsame | ⟨name, i, hdev, hname, hempty, hfind, hfree, hreg⟩
    · rw [hsame]
      exact ⟨hinv, hmounted⟩
    · have hlen := hshort dev rights hop name hname
      have hslot : (s.entries i).inUse = false := by simpa using find?_some hfree
      rw [hreg]
      exact ⟨(hinv.fillEntry hfind hslot hlen dev rights).mountDevice vn endpoint dev _,
        hmounted.register hinv hempty hfind hlen hdev rights vn endpoint⟩
  | unregister name =>
    change (s.unregisterDevice name).2.Inv ∧ Mounted start (s.unregisterDevice name).2
    unfold unregisterDevice
    cases hfind : s.findEntry name with
    | none => exact ⟨hinv, hmounted⟩
    | some i =>
      refine ⟨hinv.unregister hfind, hmounted.unregister name ?_ ?_⟩
      all_goals simp only [release_eq, clearEntry, setEntry, markRegistered]

end DeviceSystem

/-! ## Opening a device -/

theorem onPath_self (n : List Char) : OnPath (devPath n) (devPath n) := by
  rw [OnPath, startsWith, if_pos (prefix_refl _)]
  exact ⟨by simp [devPath], .inl (by simp)⟩

/-- On the path of a name without slashes lies the mount point of that name only. -/
theorem onPath_devPath {n k : List Char} (hn : '/' ∉ n) (hk : k ≠ []) :
    OnPath (devPath k) (devPath n) ↔ devPath k = devPath n := by
  constructor
  · intro hon
    obtain ⟨hpos, hend⟩ := hon
    by_cases hpre : devPath k <+: devPath n
    · obtain ⟨rest, rfl⟩ := (prefix_append_right_inj _).mp hpre
      rw [startsWith, if_pos hpre] at hend
      cases rest with
      | nil => rw [append_nil]
      | cons c rest =>
        exfalso
        have hnext : (devPath (k ++ c :: rest))[(devPath k).length]? = some c := by
          simp [devPath]
        have hlast : (devPath k)[(devPath k).length - 1]? = k.getLast? := by
          rw [← getLast?_eq_getElem?, devPath, getLast?_append]
          obtain ⟨d, hd⟩ := getLast?_isSome.mpr hk |> isSome_iff_exists.mp
          simp [hd]
        rw [hnext, hlast] at hend
        rcases hend with hend | hend | hend
        · cases hend
        · obtain rfl := some.inj hend
          exact hn (by simp)
        · exact hn (mem_append_left _ (mem_of_getLast? hend))
    · rw [startsWith, if_neg hpre] at hpos
      omega
  · intro heq
    rw [heq]
    exact onPath_self n

theorem hasTraversal_of_notMem {n : List Char} (hn : '/' ∉ n) : hasTraversal false n = false := by
  induction n with
  | nil => rfl
  | cons c n ih =>
    have hc : c ≠ '/' := fun heq => hn (by simp [heq])
    have hrest := ih fun hmem => hn (mem_cons_of_mem c hmem)
    simp [hasTraversal, hc, hrest]

theorem hasTraversal_devPath {n : List Char} (hn : '/' ∉ n) (hdots : n ≠ ['.', '.']) :
    hasTraversal true (devPath n) = false := by
  have hrest : hasTraversal true n = false := by
    cases n with
    | nil => rfl
    | cons c n =>
      have hc : c ≠ '/' := fun heq => hn (by simp [heq])
      have hslash := hasTraversal_of_notMem fun hmem => hn (mem_cons_of_mem c hmem)
      have hparent : parentHere (c :: n) = false := by
        match n with
        | [] => simp [parentHere]
        | [d] => simp [parentHere]
        | d :: e :: n =>
          have he : e ≠ '/' := fun he => hn (by simp [he])
          simp [parentHere_cons, he]
      simp [hasTraversal, hc, hslash, hparent]
  simp [devPath, hasTraversal, parentHere, hrest]

namespace DeviceSystem

variable {start : VfsState World} {s : DeviceSystem World} {n : List Char}

/-- The first mount point of a name, if the names on its path are registered ones. -/
theorem Mounted.findMount (h : Mounted start s) (hn : '/' ∉ n)
    (hothers : ∀ m ∈ start.server.mounts, ¬OnPath m.1 (devPath n)) :
    s.vfs.findMount (devPath n) = match s.vfs.server.mounts.find? fun m => m.1 = devPath n with
      | some m => (some m.2, (devPath n).length)
      | none => (none, 0) := by
  have hself : startsWith (devPath n) (devPath n) = (devPath n).length := if_pos (prefix_refl _)
  rw [← hself]
  apply findMount_of_only
  intro m hm
  obtain ⟨added, htable, hadded⟩ := h.table
  rw [htable] at hm
  rcases mem_append.mp hm with hm | hm
  · refine iff_of_false (hothers m hm) ?_
    intro heq
    apply hothers m hm
    rw [heq]
    exact onPath_self n
  · obtain ⟨k, d, rfl, hk, -⟩ := hadded m hm
    exact onPath_devPath hn hk

/-- An entry at the path of a name is for the device registered under it. -/
theorem Mounted.device (h : Mounted start s)
    (hothers : ∀ m ∈ start.server.mounts, ¬OnPath m.1 (devPath n))
    (hkept : .unregistered n ∉ s.log) {m : List Char × Nat}
    (hm : (s.vfs.server.mounts.find? fun m => m.1 = devPath n) = some m) :
    holder s.log n = some m.2 := by
  have hpath : m.1 = devPath n := by simpa using find?_some hm
  have hmem := mem_of_find?_eq_some hm
  obtain ⟨added, htable, hadded⟩ := h.table
  rw [htable] at hmem
  rcases mem_append.mp hmem with hmem | hmem
  · exfalso
    apply hothers m hmem
    rw [hpath]
    exact onPath_self n
  · obtain ⟨k, d, rfl, -, hreg⟩ := hadded m hmem
    obtain rfl : k = n := append_cancel_left hpath
    exact h.once k d hreg hkept

theorem registered_of_holder {log : List DeviceEvent} {d : Nat}
    (h : holder log n = some d) : .registered n d ∈ log := by
  induction log with
  | nil => cases h
  | cons e log ih =>
    cases e with
    | registered =>
      rw [holder] at h
      split_ifs at h with heq
      · obtain rfl := some.inj h
        rw [heq]
        exact mem_cons_self ..
      · exact mem_cons_of_mem _ (ih h)
    | unregistered m =>
      rw [holder] at h
      split_ifs at h
      exact mem_cons_of_mem _ (ih h)

/-- Opening the path of a name reaches the device registered under it, or fails. -/
theorem Mounted.managerOpen (h : Mounted start s) (hn : '/' ∉ n)
    (hothers : ∀ m ∈ start.server.mounts, ¬OnPath m.1 (devPath n))
    (hmountable : ∀ d, holder s.log n = some d → n.length ≤ 26 ∧ n ≠ ['.', '.'])
    (hkept : .unregistered n ∉ s.log)
    (hroom : start.server.mounts.length + registrations s.log ≤ maxMountPoints)
    (vn : Vnodes World) (flags : Int) :
    s.vfs.managerOpen vn (devPath n) flags = match holder s.log n with
      | some d => s.vfs.openAt vn d ['/'] flags
      | none => (-1, s.vfs) := by
  have hfound := h.findMount hn hothers
  rw [managerOpen_eq, handleOpen_eq]
  have hcopy : ¬(copyPath (devPath n)).length > 63 := by
    simp only [copyPath, length_take]
    omega
  rw [if_neg hcopy]
  cases hheld : holder s.log n with
  | none =>
    have hnone : (s.vfs.server.mounts.find? fun m => m.1 = devPath n) = none := by
      cases hfind : s.vfs.server.mounts.find? fun m => m.1 = devPath n with
      | none => rfl
      | some m =>
        rw [h.device hothers hkept hfind] at hheld
        cases hheld
    rw [hnone] at hfound
    have hresolve : s.vfs.resolve (copyPath (devPath n)) = none := by
      simp [resolve, findMount_copyPath h.stored, hfound]
    rw [hresolve]
  | some d =>
    obtain ⟨hlen, hdots⟩ := hmountable d hheld
    have hpath : copyPath (devPath n) = devPath n := by
      apply take_of_length_le
      simp only [devPath, length_append, length_cons, length_nil]
      omega
    have htraversal := hasTraversal_devPath hn hdots
    have hin := h.complete hroom n d (registered_of_holder hheld) hlen htraversal
    obtain ⟨m, hfind⟩ : ∃ m, (s.vfs.server.mounts.find? fun m => m.1 = devPath n) = some m := by
      rw [← isSome_iff_exists, find?_isSome]
      exact ⟨_, hin, by simp⟩
    have hdev : m.2 = d := by
      have hdevice := h.device hothers hkept hfind
      rw [hheld] at hdevice
      exact (some.inj hdevice).symm
    rw [hfind] at hfound
    have hresolve : s.vfs.resolve (devPath n) = some (d, ['/']) := by
      rw [resolve_eq_some_iff, hfound]
      exact ⟨htraversal, congrArg some hdev, by simp [relativePath]⟩
    rw [hpath, hresolve]

/-- The registry, the reference counts and the calls that have succeeded agree. -/
structure Agrees (s : DeviceSystem World) : Prop where
  distinct : ∀ i j, (s.entries i).inUse = true → (s.entries j).inUse = true →
    (s.entries i).name = (s.entries j).name → i = j
  lookup : ∀ n, s.lookupDevice n = holder s.log n
  count : s.deviceCount = {n | ∃ d, holder s.log n = some d}.ncard
  refs : ∀ d, s.refCount d = 1 + {n | holder s.log n = some d}.ncard

theorem Inv.agrees (h : s.Inv) : s.Agrees where
  distinct := h.distinct
  lookup := h.lookupDevice
  count := by
    have hall := h.ncard_holder fun _ => true
    simp only [and_true, Bool.and_true] at hall
    rw [hall, h.count]
  refs := by
    intro d
    have hall := h.ncard_holder fun d' => d' = d
    simp only [decide_eq_true_eq, exists_eq_right] at hall
    rw [hall, h.refs d]

/-- **The registry agrees with its calls in every run without long names, and a path leads to the
device registered under its name while the name was not unregistered and there is room for the mount
points.** `start` is the file system in the beginning, with mount points of others. -/
theorem devices_agree (names : Nat → Option (List Char)) (vn : Vnodes World) (endpoint : Bool)
    {start : VfsState World} (hstored : start.server.Stored) {l : List DeviceOp}
    (hshort : ∀ dev rights, .register dev rights ∈ l → ∀ name ∈ names dev, name.length ≤ 31) :
    (run names vn endpoint l start).Agrees ∧
      ∀ n, '/' ∉ n → (∀ m ∈ start.server.mounts, ¬OnPath m.1 (devPath n)) →
        (∀ d, holder (run names vn endpoint l start).log n = some d →
          n.length ≤ 26 ∧ n ≠ ['.', '.']) →
        .unregistered n ∉ (run names vn endpoint l start).log →
        start.server.mounts.length + registrations (run names vn endpoint l start).log ≤
          maxMountPoints →
        ∀ flags, (run names vn endpoint l start).vfs.managerOpen vn (devPath n) flags =
          match holder (run names vn endpoint l start).log n with
          | some d => (run names vn endpoint l start).vfs.openAt vn d ['/'] flags
          | none => (-1, (run names vn endpoint l start).vfs) := by
  obtain ⟨hinv, hmounted⟩ := inv_run hstored vn endpoint hshort
  refine ⟨hinv.agrees, ?_⟩
  intro n hn hothers hmountable hkept hroom flags
  exact hmounted.managerOpen hn hothers hmountable hkept hroom vn flags

/-- A file system without mount points. -/
def noMounts : VfsState Unit where
  server := ⟨[], fun _ => ⟨0, 0, false, 0⟩⟩
  world := ()
  calls := []

/-- Two devices, the second with a name of 40 characters. -/
def twoNames : Nat → Option (List Char)
  | 1 => some ['u', 'a', 'r', 't']
  | 2 => some (List.replicate 40 'x')
  | _ => none

theorem devices_agree_uart :
    (run twoNames VfsState.obliging false [.register 1 7] noMounts).lookupDevice
        ['u', 'a', 'r', 't'] = some 1 ∧
      ((run twoNames VfsState.obliging false [.register 1 7] noMounts).vfs.managerOpen
        VfsState.obliging (devPath ['u', 'a', 'r', 't']) 0).1 = 0 := by
  have hshort : ∀ dev rights, DeviceOp.register dev rights ∈ [DeviceOp.register 1 7] →
      ∀ name ∈ twoNames dev, name.length ≤ 31 := by
    intro dev rights hmem name hname
    obtain ⟨rfl, -⟩ : dev = 1 ∧ rights = 7 := by simpa using hmem
    obtain rfl := some.inj hname
    decide
  have hstored : noMounts.server.Stored := by simp [VfsServer.Stored, noMounts]
  obtain ⟨hagrees, hopen⟩ := devices_agree twoNames obliging false hstored hshort
  have hheld : holder (run twoNames obliging false [.register 1 7] noMounts).log
      ['u', 'a', 'r', 't'] = some 1 := by decide +kernel
  refine ⟨by rw [hagrees.lookup, hheld], ?_⟩
  decide +kernel

/-- After a device is unregistered its path still opens it. A device with a long name is registered
twice and never found. -/
theorem unregistered_still_opens :
    (run twoNames VfsState.obliging false [.register 1 7, .unregister ['u', 'a', 'r', 't']]
        noMounts).lookupDevice ['u', 'a', 'r', 't'] = none ∧
      ((run twoNames VfsState.obliging false [.register 1 7, .unregister ['u', 'a', 'r', 't']]
        noMounts).vfs.managerOpen VfsState.obliging (devPath ['u', 'a', 'r', 't']) 0).1 = 0 ∧
      (run twoNames VfsState.obliging false [.register 2 7, .register 2 7] noMounts).deviceCount =
        2 ∧
      (run twoNames VfsState.obliging false [.register 2 7, .register 2 7] noMounts).lookupDevice
        (List.replicate 40 'x') = none := by
  decide +kernel

end DeviceSystem

end AuroraOS
