import AuroraOS.MutexRuns

/-!
# The shape of the lock structure

The sections of `lock` and `unlock` edit the lock structure in three ways: a task starts, goes on or
stops waiting (`Locks.setWait`), a task takes a free mutex (`Locks.take`), and an owner gives a
mutex back (`Locks.giveBack`). What all of them keep, in whatever order tasks run, is `LockCore`:
the list of held mutexes of each task is what the task owns, a task waits for the mutex of the call
it is in, the masks hold waiting tasks only, and no task waits for itself through others.
-/

namespace AuroraOS

open Bitmap Chain Inheritance Option Function Locks Kernel

variable {N : Nat}

/-- The lock structure, without what depends on the order in which tasks are woken. -/
structure LockCore (s : Locks N) (pending : Pending N) : Prop where
  slots : s.Slots
  owned : ∀ {m t}, (s.mutexes m).owner = some t → (s.mutexes m).locked = true ∧ (t : Nat) < s.count
  held : ∀ t, ∃ l, Path (fun m => (s.mutexes m).nextHeld) (s.held t) l none ∧
    ∀ m, m ∈ l ↔ (s.mutexes m).owner = some t
  waits : ∀ t, s.waitingOn t = (pending t).map LockCall.mutex
  waiter : ∀ {t m}, s.waitingOn t = some m → (t : Nat) < s.count
  bit : ∀ {t : Fin N} {m}, (s.mutexes m).waitMask.getLsbD t = true → s.waitingOn t = some m
  acyclic : Acyclic s.blocker

namespace LockCore

variable {s : Locks N} {pending : Pending N} {t : Fin N} {m : MutexId}

variable (h : LockCore s pending)

include h

theorem setPriority (c : Fin N → Nat) : LockCore { s with priority := c } pending :=
  ⟨h.slots, h.owned, h.held, h.waits, h.waiter, h.bit, h.acyclic⟩

/-- Climbs stay among the tasks in use, and are no longer than the table. -/
theorem path_bound {o : Fin N} (ho : (o : Nat) < s.count) {l : List (Fin N)}
    (hl : Path s.blocker (some o) l none) : (∀ y ∈ l, (y : Nat) < s.count) ∧ l.length ≤ N := by
  refine ⟨hl.forall_mem (fun x hx => some.inj hx ▸ ho) fun x y hy => ?_, ?_⟩
  · obtain ⟨m, -, howner⟩ := bind_eq_some_iff.mp hy
    exact (h.owned howner).2
  · have hcard := hl.length_le_card
    rwa [Fintype.card_fin] at hcard

/-- Nobody owns a free mutex. -/
theorem owner_of_free (hfree : (s.mutexes m).locked = false) : (s.mutexes m).owner = none := by
  cases ho : (s.mutexes m).owner with
  | none => rfl
  | some o =>
    rw [(h.owned ho).1] at hfree
    cases hfree

theorem waitingOn_eq_none (ht : pending t = none) : s.waitingOn t = none := by
  rw [h.waits, ht]
  rfl

end LockCore

/-! ## Waiting -/

namespace Locks

/-- Write what `t` waits for, and the mask of `m`. -/
def setWait (s : Locks N) (m : MutexId) (t : Fin N) (w : BitVec 32) (o : Option MutexId) :
    Locks N :=
  { s.modifyMutex m fun c => { c with waitMask := w } with
    waitingOn := Function.update s.waitingOn t o }

variable {s : Locks N} {m m' : MutexId} {t u : Fin N} {w : BitVec 32} {o : Option MutexId}

/-- Everything about a mutex but its mask stays. -/
theorem setWait_field {α : Type} (f : Mutex N → α)
    (hf : ∀ c w, f { c with waitMask := w } = f c) :
    f ((s.setWait m t w o).mutexes m') = f (s.mutexes m') := by
  have h := s.mutexes_modifyMutex m m' fun c => { c with waitMask := w }
  unfold setWait
  rw [h]
  split_ifs with hm
  · rw [hf, hm]
  · rfl

@[simp] theorem setWait_owner : ((s.setWait m t w o).mutexes m').owner = (s.mutexes m').owner :=
  setWait_field Mutex.owner fun _ _ => rfl

@[simp] theorem setWait_ceilingPrio :
    ((s.setWait m t w o).mutexes m').ceilingPrio = (s.mutexes m').ceilingPrio :=
  setWait_field Mutex.ceilingPrio fun _ _ => rfl

@[simp] theorem setWait_locked : ((s.setWait m t w o).mutexes m').locked = (s.mutexes m').locked :=
  setWait_field Mutex.locked fun _ _ => rfl

@[simp] theorem setWait_nextHeld :
    ((s.setWait m t w o).mutexes m').nextHeld = (s.mutexes m').nextHeld :=
  setWait_field Mutex.nextHeld fun _ _ => rfl

theorem setWait_waitMask :
    ((s.setWait m t w o).mutexes m').waitMask = if m' = m then w else (s.mutexes m').waitMask := by
  have h := s.mutexes_modifyMutex m m' fun c => { c with waitMask := w }
  unfold setWait
  rw [h]
  split_ifs <;> rfl

theorem setWait_waitingOn :
    (s.setWait m t w o).waitingOn u = if u = t then o else s.waitingOn u :=
  update_apply ..

@[simp] theorem setWait_own : (s.setWait m t w o).own = s.own := by
  funext u
  unfold own
  simp only [setWait_owner, setWait_ceilingPrio]
  rfl

theorem setWait_blocker : (s.setWait m t w o).blocker u =
    if u = t then o.bind fun m => (s.mutexes m).owner else s.blocker u := by
  unfold blocker
  simp only [setWait_owner, setWait_waitingOn]
  split_ifs <;> rfl

theorem setWait_blocker_of_ne (hu : u ≠ t) : (s.setWait m t w o).blocker u = s.blocker u := by
  rw [setWait_blocker, if_neg hu]

theorem setWait_blocker_some : (s.setWait m t w (some m)).blocker t = (s.mutexes m).owner := by
  rw [setWait_blocker, if_pos rfl, bind_some]

/-- Nobody is waited for who was not waited for before. -/
theorem setWait_blocker_same (ho : o.bind (fun m => (s.mutexes m).owner) = s.blocker t) :
    (s.setWait m t w o).blocker = s.blocker := by
  funext u
  rw [setWait_blocker]
  split_ifs with hu
  · rw [ho, hu]
  · rfl

/-- The other tasks that wait for `m` are in its mask, and none is more urgent than `t` becomes with
it. -/
def Outranks (s : Locks N) (m : MutexId) (t : Fin N) : Prop :=
  ∀ u, u ≠ t → s.waitingOn u = some m → (s.mutexes m).waitMask.getLsbD u = true ∧
    s.priority u ≤ max (s.priority t) (s.mutexes m).ceilingPrio

end Locks

namespace Locks

variable {s : Locks N} {m : MutexId} {f : Mutex N → Mutex N}

theorem owner_modifyMutex (s : Locks N) (howner : (f (s.mutexes m)).owner = (s.mutexes m).owner)
    (m' : MutexId) : ((s.modifyMutex m f).mutexes m').owner = (s.mutexes m').owner := by
  rw [mutexes_modifyMutex]
  split_ifs with hm
  · rw [howner, hm]
  · rfl

theorem blocker_modifyMutex (s : Locks N)
    (howner : (f (s.mutexes m)).owner = (s.mutexes m).owner) :
    (s.modifyMutex m f).blocker = s.blocker := by
  funext t
  unfold blocker
  simp only [s.owner_modifyMutex howner]
  rfl

end Locks

namespace LockCore

variable {s : Locks N} {pending pending' : Pending N} {t : Fin N} {m : MutexId}

/-- A task starts, goes on or stops waiting for `m`. -/
theorem setWait (h : LockCore s pending) {w : BitVec 32} {o : Option MutexId}
    (ht : (t : Nat) < s.count) (hold : ∀ m', s.waitingOn t = some m' → m' = m)
    (hself : w.getLsbD t = true → o = some m)
    (hother : ∀ u : Fin N, u ≠ t → w.getLsbD u = true → (s.mutexes m).waitMask.getLsbD u = true)
    (hpending : ∀ u, (pending' u).map LockCall.mutex =
      if u = t then o else (pending u).map LockCall.mutex)
    (hacyclic : Acyclic (s.setWait m t w o).blocker) :
    LockCore (s.setWait m t w o) pending' where
  slots := h.slots
  owned hm := by
    rw [setWait_owner] at hm
    rw [setWait_locked]
    exact h.owned hm
  held u := by
    simp only [setWait_nextHeld, setWait_owner]
    exact h.held u
  waits u := by
    rw [setWait_waitingOn, hpending, h.waits]
  waiter {u m'} hu := by
    rw [setWait_waitingOn] at hu
    split_ifs at hu with hut
    · rw [hut]
      exact ht
    · exact h.waiter hu
  bit {u m'} hu := by
    rw [setWait_waitMask] at hu
    rw [setWait_waitingOn]
    by_cases hm : m' = m
    · rw [if_pos hm] at hu
      by_cases hut : u = t
      · rw [if_pos hut, hm]
        exact hself (hut ▸ hu)
      · rw [if_neg hut, hm]
        exact h.bit (hother u hut hu)
    · rw [if_neg hm] at hu
      have hut : u ≠ t := fun hut => hm (hold m' (hut ▸ h.bit hu))
      rw [if_neg hut]
      exact h.bit hu
  acyclic := hacyclic

/-! ## Changes that concern nobody else -/

/-- A change of one mutex that keeps its owner and adds no bit to its mask. -/
theorem modifyMutex (h : LockCore s pending) {f : Mutex N → Mutex N}
    (howner : (f (s.mutexes m)).owner = (s.mutexes m).owner)
    (hbit : ∀ i, (f (s.mutexes m)).waitMask.getLsbD i = true →
      (s.mutexes m).waitMask.getLsbD i = true)
    (hown : (s.mutexes m).owner ≠ none → (f (s.mutexes m)).locked = (s.mutexes m).locked ∧
      (f (s.mutexes m)).nextHeld = (s.mutexes m).nextHeld) :
    LockCore (s.modifyMutex m f) pending := by
  have howner' := s.owner_modifyMutex howner
  have hkept : ∀ m', (s.mutexes m').owner ≠ none →
      ((s.modifyMutex m f).mutexes m').locked = (s.mutexes m').locked ∧
      ((s.modifyMutex m f).mutexes m').nextHeld = (s.mutexes m').nextHeld := by
    intro m' hm'
    rw [mutexes_modifyMutex]
    split_ifs with hm
    · subst hm
      exact hown hm'
    · exact ⟨rfl, rfl⟩
  exact
    { slots := h.slots
      owned := fun {m' t} hm' => by
        rw [howner'] at hm'
        rw [(hkept m' (by simp [hm'])).1]
        exact h.owned hm'
      held := fun t => by
        obtain ⟨l, hl, hmem⟩ := h.held t
        refine ⟨l, hl.congr fun x hx => ?_, fun m' => by rw [howner']; exact hmem m'⟩
        exact (hkept x (by simp [(hmem x).mp hx])).2
      waits := h.waits
      waiter := h.waiter
      bit := fun {t m'} ht => by
        rw [mutexes_modifyMutex] at ht
        split_ifs at ht with hm
        · rw [hm]
          exact h.bit (hbit t ht)
        · exact h.bit ht
      acyclic := by
        rw [s.blocker_modifyMutex howner]
        exact h.acyclic }

end LockCore

/-! ## Taking a free mutex -/

namespace Locks

/-- `t` takes `m`. -/
def take (s : Locks N) (m : MutexId) (t : Fin N) : Locks N :=
  { s.modifyMutex m fun c =>
      { c with locked := true, owner := some t, recursiveCount := 1, nextHeld := s.held t } with
    held := Function.update s.held t (some m)
    priority := Function.update s.priority t (max (s.priority t) (s.mutexes m).ceilingPrio) }

variable {s : Locks N} {m m' : MutexId} {t u : Fin N}

theorem take_mutex : (s.take m t).mutexes m' =
    if m' = m then
      { s.mutexes m with
        locked := true, owner := some t, recursiveCount := 1, nextHeld := s.held t }
    else s.mutexes m' :=
  s.mutexes_modifyMutex m m' fun c =>
    { c with locked := true, owner := some t, recursiveCount := 1, nextHeld := s.held t }

theorem take_owner : ((s.take m t).mutexes m').owner =
    if m' = m then some t else (s.mutexes m').owner := by
  rw [take_mutex]
  split_ifs <;> rfl

theorem take_ceilingPrio :
    ((s.take m t).mutexes m').ceilingPrio = (s.mutexes m').ceilingPrio := by
  rw [take_mutex]
  split_ifs with hm
  · rw [hm]
  · rfl

theorem take_waitMask : ((s.take m t).mutexes m').waitMask = (s.mutexes m').waitMask := by
  rw [take_mutex]
  split_ifs with hm
  · rw [hm]
  · rfl

theorem take_blocker : (s.take m t).blocker u =
    if s.waitingOn u = some m then some t else s.blocker u := by
  have hw : (s.take m t).waitingOn u = s.waitingOn u := rfl
  unfold blocker
  rw [hw]
  cases hu : s.waitingOn u with
  | none => simp
  | some m' =>
    simp only [bind_some, take_owner, some.injEq]

/-- The new owner has to reach the ceiling. -/
theorem own_take_self (s : Locks N) (m : MutexId) (t : Fin N) :
    (s.take m t).own t = insert (s.mutexes m).ceilingPrio (s.own t) := by
  ext p
  simp only [own, take_owner, take_ceilingPrio]
  constructor
  · rintro (hp | ⟨m', hm', hp⟩)
    · exact .inr (.inl hp)
    · split_ifs at hm' with hm
      · exact .inl (hm ▸ hp)
      · exact .inr (.inr ⟨m', hm', hp⟩)
  · rintro (hp | hp | ⟨m', hm', hp⟩)
    · exact .inr ⟨m, if_pos rfl, hp⟩
    · exact .inl hp
    · refine .inr ⟨m', ?_, hp⟩
      split_ifs
      · rfl
      · exact hm'

theorem own_take_of_ne (s : Locks N) (hnone : (s.mutexes m).owner = none) (hu : u ≠ t) :
    (s.take m t).own u = s.own u := by
  ext p
  simp only [own, take_owner, take_ceilingPrio]
  refine or_congr Iff.rfl (exists_congr fun m' => and_congr_left fun _ => ?_)
  by_cases hm : m' = m
  · simp [hm, hnone, Ne.symm hu]
  · simp [hm]

theorem take_priority : (s.take m t).priority u =
    if u = t then max (s.priority t) (s.mutexes m).ceilingPrio else s.priority u :=
  update_apply ..

end Locks

namespace LockCore

variable {s : Locks N} {pending : Pending N} {m : MutexId} {t : Fin N}

/-- **Taking a free mutex.** The tasks that wait for it now wait for the new owner, which waits for
nobody. -/
theorem take (h : LockCore s pending) (ht : (t : Nat) < s.count)
    (hfree : (s.mutexes m).locked = false) (hwait : s.waitingOn t = none) :
    LockCore (s.take m t) pending := by
  have hnone : (s.mutexes m).owner = none := h.owner_of_free hfree
  have hroot : (s.take m t).blocker t = none := by
    rw [take_blocker, hwait]
    simp [blocker, hwait]
  refine
    { slots := h.slots
      owned := fun {m' u} hm' => ?_
      held := fun u => ?_
      waits := h.waits
      waiter := h.waiter
      bit := fun {u m'} hu => ?_
      acyclic := h.acyclic.graft hroot fun u => ?_ }
  · rw [take_mutex] at hm' ⊢
    split_ifs at hm' ⊢
    · exact ⟨rfl, some.inj hm' ▸ ht⟩
    · exact h.owned hm'
  · obtain ⟨l, hl, hmem⟩ := h.held u
    have hml : m ∉ l := fun hm => by
      rw [(hmem m).mp hm] at hnone
      cases hnone
    have hl' : Path (fun c => ((s.take m t).mutexes c).nextHeld) (s.held u) l none := by
      refine hl.congr fun x hx => ?_
      have hxm : x ≠ m := fun hxm => hml (hxm ▸ hx)
      rw [take_mutex, if_neg hxm]
    by_cases hu : u = t
    · subst hu
      refine ⟨m :: l, ⟨update_self .., ?_⟩, fun m' => ?_⟩
      · have hnext : ((s.take m u).mutexes m).nextHeld = s.held u := by
          rw [take_mutex, if_pos rfl]
        dsimp only
        rw [hnext]
        exact hl'
      · rw [List.mem_cons, hmem, take_owner]
        by_cases hm : m' = m <;> simp [hm]
    · refine ⟨l, ?_, fun m' => ?_⟩
      · have hheld : (s.take m t).held u = s.held u := update_of_ne hu _ _
        rw [hheld]
        exact hl'
      · rw [hmem, take_owner]
        by_cases hm : m' = m
        · simp [hm, hnone, Ne.symm hu]
        · simp [hm]
  · rw [take_waitMask] at hu
    exact h.bit hu
  · rw [take_blocker]
    split_ifs
    · exact .inr rfl
    · exact .inl rfl

end LockCore

/-! ## Giving a mutex back -/

namespace Locks

/-- `o`, which held `m`, is left with the list that starts at `h` and goes on through `next`. -/
def giveBack (s : Locks N) (m : MutexId) (o : Fin N) (h : Option MutexId)
    (next : MutexId → Option MutexId) : Locks N :=
  { s with
    held := Function.update s.held o h
    mutexes := Function.update (fun c => { s.mutexes c with nextHeld := next c }) m
      { s.mutexes m with nextHeld := none, owner := none, locked := false } }

variable {s : Locks N} {m m' : MutexId} {o u : Fin N} {h : Option MutexId}
  {next : MutexId → Option MutexId}

theorem giveBack_mutex : (s.giveBack m o h next).mutexes m' =
    if m' = m then { s.mutexes m with nextHeld := none, owner := none, locked := false }
    else { s.mutexes m' with nextHeld := next m' } := by
  simp only [giveBack, update_apply]

theorem giveBack_owner : ((s.giveBack m o h next).mutexes m').owner =
    if m' = m then none else (s.mutexes m').owner := by
  rw [giveBack_mutex]
  split_ifs <;> rfl

theorem giveBack_ceilingPrio :
    ((s.giveBack m o h next).mutexes m').ceilingPrio = (s.mutexes m').ceilingPrio := by
  rw [giveBack_mutex]
  split_ifs with hm
  · rw [hm]
  · rfl

theorem giveBack_waitMask :
    ((s.giveBack m o h next).mutexes m').waitMask = (s.mutexes m').waitMask := by
  rw [giveBack_mutex]
  split_ifs with hm
  · rw [hm]
  · rfl

theorem giveBack_blocker : (s.giveBack m o h next).blocker u =
    if s.waitingOn u = some m then none else s.blocker u := by
  have hw : (s.giveBack m o h next).waitingOn u = s.waitingOn u := rfl
  unfold blocker
  rw [hw]
  cases hu : s.waitingOn u with
  | none => simp
  | some m' => simp only [bind_some, giveBack_owner, some.injEq]

theorem own_giveBack_of_ne (howner : (s.mutexes m).owner = some o) (hu : u ≠ o) :
    (s.giveBack m o h next).own u = s.own u := by
  ext p
  simp only [own, giveBack_owner, giveBack_ceilingPrio]
  refine or_congr Iff.rfl (exists_congr fun m' => and_congr_left fun _ => ?_)
  by_cases hm : m' = m
  · simp [hm, howner, Ne.symm hu]
  · simp [hm]

end Locks

namespace LockCore

variable {s : Locks N} {pending : Pending N} {m : MutexId} {o : Fin N} {h : Option MutexId}
  {next : MutexId → Option MutexId}

theorem giveBack (hs : LockCore s pending) (howner : (s.mutexes m).owner = some o)
    {l : List MutexId} (hmem : ∀ m, m ∈ l ↔ (s.mutexes m).owner = some o) (hnd : l.Nodup)
    (hpath : Path next h (l.erase m) none)
    (hnext : ∀ c, c ∉ l → next c = (s.mutexes c).nextHeld) :
    LockCore (s.giveBack m o h next) pending where
  slots := hs.slots
  owned {m' t} hm' := by
    rw [giveBack_owner] at hm'
    rw [giveBack_mutex]
    split_ifs at hm' ⊢
    exact hs.owned hm'
  held u := by
    by_cases hu : u = o
    · subst hu
      refine ⟨l.erase m, ?_, fun m' => ?_⟩
      · have hheld : (s.giveBack m u h next).held u = h := update_self ..
        rw [hheld]
        refine hpath.congr fun x hx => ?_
        have hxm : x ≠ m := (hnd.mem_erase_iff.mp hx).1
        rw [giveBack_mutex, if_neg hxm]
      · rw [hnd.mem_erase_iff, hmem, giveBack_owner]
        by_cases hm : m' = m <;> simp [hm]
    · obtain ⟨l', hl', hmem'⟩ := hs.held u
      -- the lists of two tasks have no mutex in common
      have hout : ∀ x ∈ l', x ∉ l := by
        intro x hx' hx
        exact hu (some.inj (((hmem' x).mp hx').symm.trans ((hmem x).mp hx)))
      refine ⟨l', ?_, fun m' => ?_⟩
      · have hheld : (s.giveBack m o h next).held u = s.held u := update_of_ne hu _ _
        rw [hheld]
        refine hl'.congr fun x hx => ?_
        have hxm : x ≠ m := by
          rintro rfl
          exact hout x hx ((hmem x).mpr howner)
        rw [giveBack_mutex, if_neg hxm]
        exact hnext x (hout x hx)
      · rw [hmem', giveBack_owner]
        by_cases hm : m' = m
        · simp [hm, howner, Ne.symm hu]
        · simp [hm]
  waits := hs.waits
  waiter := hs.waiter
  bit hu := by
    rw [giveBack_waitMask] at hu
    exact hs.bit hu
  acyclic := by
    refine hs.acyclic.of_remove fun u => ?_
    rw [giveBack_blocker]
    split_ifs
    · exact .inr rfl
    · exact .inl rfl

end LockCore

/-! ## What the sections write -/

namespace Kernel

variable {k k' : Kernel N} {t : Fin N} {m : MutexId} {rounds : Nat}

theorem locks_startWaiting (hslots : k.locks.Slots) (ht : (t : Nat) < k.locks.count) :
    ((k.setWaitingOnMutex t (some m)).addWaiter m (k.sched.tasks t).id).locks =
      k.locks.setWait m t (setBit (k.mutexes m).waitMask t) (some m) := by
  have hid : (k.sched.tasks t).id = t := hslots t ht
  rw [addWaiter, locks_modifyMutex, locks_setWaitingOnMutex, hid]
  rfl

theorem locks_stopWaiting (hslots : k.locks.Slots) (ht : (t : Nat) < k.locks.count) :
    (k.stopWaiting m t).locks = k.locks.setWait m t (clearBit (k.mutexes m).waitMask t) none := by
  have hid : (k.sched.tasks t).id = t := hslots t ht
  rw [stopWaiting, locks_setWaitingOnMutex, dropWaiter, hid]
  rfl

theorem locks_keepWaiting (hslots : k.locks.Slots) (ht : (t : Nat) < k.locks.count)
    (hwait : k.locks.waitingOn t = some m) :
    (k.addWaiter m (k.sched.tasks t).id).locks =
      k.locks.setWait m t (setBit (k.mutexes m).waitMask t) (some m) := by
  have hid : (k.sched.tasks t).id = t := hslots t ht
  rw [addWaiter, hid, setWait, ← hwait, update_eq_self]
  rfl

theorem locks_acquire (hslots : k.locks.Slots) (ht : (t : Nat) < k.locks.count) (m : MutexId) :
    (k.acquire m t).locks = k.locks.take m t := by
  unfold acquire
  set k₁ := (k.modifyMutex m fun c =>
    { c with locked := true, owner := some t, recursiveCount := 1,
             nextHeld := (k.sched.tasks t).heldMutexes }).setHeldMutexes t (some m) with hk₁
  have hlocks : k₁.locks = { k.locks.take m t with priority := k.priority } := by
    rw [locks_setHeldMutexes]
    rfl
  have hprio : k₁.priority = k.priority := congrArg Locks.priority hlocks
  have hceil : (k₁.mutexes m).ceilingPrio = (k.mutexes m).ceilingPrio := by
    simp [hk₁, setHeldMutexes, Kernel.modifyMutex]
  show _ = { k.locks.take m t with
    priority := update k.priority t (max (k.priority t) (k.mutexes m).ceilingPrio) }
  dsimp only
  rw [hceil, hprio]
  split_ifs with hgt
  · have hslots₁ : k₁.locks.Slots := by rw [hlocks]; exact hslots
    have ht₁ : (t : Nat) < k₁.locks.count := by rw [hlocks]; exact ht
    rw [k₁.locks_setTaskPriority hslots₁ ht₁, hlocks, hprio, max_eq_right hgt.le]
  · rw [hlocks, max_eq_left (not_lt.mp hgt), update_eq_self]

theorem locks_release_unlinkHeld {o : Fin N} {l : List MutexId} {k₁ : Kernel N}
    (hpath : Path (fun c => (k.mutexes c).nextHeld) (k.locks.held o) l none) (hm : m ∈ l)
    (hk₁ : k.unlinkHeld rounds o m = some k₁) :
    ∃ hd next, (k₁.release m).locks = k.locks.giveBack m o hd next ∧
      Path next hd (l.erase m) none ∧ ∀ c, c ∉ l → next c = (k.mutexes c).nextHeld := by
  obtain ⟨k₂, hd, next, hunlink, hlocks, hnext, hout⟩ := locks_unlinkHeld hpath hm le_rfl
  -- both walks come to an end, so they end in the same state
  have h₁ := unlinkHeld_mono hk₁ (le_max_left rounds l.length)
  have h₂ := unlinkHeld_mono hunlink (le_max_right rounds l.length)
  obtain rfl : k₁ = k₂ := some.inj (h₁.symm.trans h₂)
  refine ⟨hd, next, ?_, hnext, hout⟩
  rw [release, locks_modifyMutex, hlocks]
  rfl

section Loops

variable {P : Kernel N → Prop} (hset : ∀ k id p, P k → P (k.setTaskPriority id p))

include hset

/-- What setting a priority keeps, passing priorities on keeps, and recalculating them. -/
theorem propagateFrom_invariant (start x : Fin N) (steps : Nat) (h : P k) :
    P (propagateFrom start steps x k) := by
  induction steps generalizing k x with
  | zero => exact h
  | succ steps ih =>
    unfold propagateFrom
    split
    · exact h
    · split
      · exact h
      · split_ifs
        · exact h
        · exact ih _ (hset _ _ _ h)
        · exact h

theorem recalculateFrom_invariant {steps : Nat}
    (hk' : recalculateFrom rounds steps t k = some k') (h : P k) : P k' := by
  induction steps generalizing k t with
  | zero =>
    cases hk'
    exact h
  | succ steps ih =>
    simp only [recalculateFrom, bind_eq_bind, bind_eq_some_iff] at hk'
    obtain ⟨v, -, hk'⟩ := hk'
    split_ifs at hk'
    · have hv := hset _ (k.sched.tasks t).id v h
      split at hk'
      · cases hk'
        exact hv
      · split at hk'
        · cases hk'
          exact hv
        · exact ih hk' hv
    · cases hk'
      exact h

end Loops

theorem locks_setTaskPriority_of_locks (k₁ : Kernel N) (id p : Nat)
    (h : ∃ c, k₁.locks = { k.locks with priority := c }) :
    ∃ c, (k₁.setTaskPriority id p).locks = { k.locks with priority := c } := by
  obtain ⟨c, hc⟩ := h
  obtain ⟨c', hc'⟩ := k₁.locks_setTaskPriority_exists id p
  exact ⟨c', by rw [hc', hc]⟩

theorem locks_propagateFrom (k : Kernel N) (start x : Fin N) (steps : Nat) :
    ∃ c, (propagateFrom start steps x k).locks = { k.locks with priority := c } :=
  propagateFrom_invariant locks_setTaskPriority_of_locks start x steps ⟨_, rfl⟩

theorem locks_recalculateFrom {steps : Nat}
    (h : recalculateFrom rounds steps t k = some k') :
    ∃ c, k'.locks = { k.locks with priority := c } :=
  recalculateFrom_invariant locks_setTaskPriority_of_locks h ⟨_, rfl⟩

end Kernel

/-! ## The sections keep the shape -/

namespace LockCore

variable {k k' : Kernel N} {pending : Pending N} {m : MutexId} {t : Fin N}
  {ok : Kernel N × Pending N → MutexOp N → Prop} {s' : Kernel N × Pending N}

section

variable (h : LockCore k.locks pending) {rounds : Nat}

include h

theorem setCount (m : MutexId) (n : Mutex N → Nat) :
    LockCore (k.modifyMutex m fun c => { c with recursiveCount := n c }).locks pending := by
  rw [locks_modifyMutex]
  exact h.modifyMutex rfl (fun _ hi => hi) fun _ => ⟨rfl, rfl⟩

theorem of_priority {c : Fin N → Nat} (hc : k'.locks = { k.locks with priority := c }) :
    LockCore k'.locks pending := by
  rw [hc]
  exact h.setPriority c

/-- The check for a deadlock follows the owner's chain. -/
theorem checkDeadlock_eq {o : Fin N} (ho : (k.mutexes m).owner = some o) {l : List (Fin N)}
    (hl : Path k.locks.blocker (some o) l none) : k.checkDeadlock t m = decide (t ∈ l) := by
  have hlen := (h.path_bound (h.owned ho).2 hl).2
  rw [checkDeadlock, ho, checkDeadlockFrom_eq hl hlen]

variable {call : LockCall}

/-- **A task starts to wait**, where the check finds no deadlock. -/
theorem startWaiting (ht : (t : Nat) < k.locks.count) (hpending : pending t = none)
    (hcall : call.mutex = m) (hdead : k.checkDeadlock t m = false) :
    LockCore ((k.setWaitingOnMutex t (some m)).addWaiter m (k.sched.tasks t).id).locks
      (update pending t (some call)) := by
  have hwait : k.locks.waitingOn t = none := h.waitingOn_eq_none hpending
  have hroot : k.locks.blocker t = none := by simp [blocker, hwait]
  rw [locks_startWaiting h.slots ht]
  refine h.setWait ht (by simp [hwait]) (fun _ => rfl) (fun u hu hw => ?_) (fun u => ?_) ?_
  · exact getLsbD_of_setBit hw fun hut => hu (Fin.ext hut)
  · rw [update_apply]
    split_ifs <;> simp [hcall]
  · cases ho : (k.mutexes m).owner with
    | none =>
      rw [setWait_blocker_same]
      · exact h.acyclic
      · exact ho.trans hroot.symm
    | some o =>
      obtain ⟨l, hl⟩ := h.acyclic o
      rw [h.checkDeadlock_eq ho hl] at hdead
      exact h.acyclic.link hl (of_decide_eq_false hdead) (setWait_blocker_some.trans ho)
        fun u => setWait_blocker_of_ne

/-- **The first section of `lock`.** -/
theorem lockEnter (ht : (t : Nat) < k.locks.count) (hpending : pending t = none) {r : LockResult}
    (hk' : k.lockEnter call.mutex (some t) = (k', r)) :
    LockCore k'.locks (if r = .waits then update pending t (some call) else pending) := by
  have hcases := k.lockEnter_cases call.mutex t
  rw [hk'] at hcases
  cases hcases with
  | free hfree =>
    rw [locks_acquire h.slots ht]
    exact h.take ht hfree (h.waitingOn_eq_none hpending)
  | own =>
    exact h.setCount _ _
  | deadlock =>
    exact h
  | wait _ _ hdead => exact h.startWaiting ht hpending rfl hdead
  | boost _ _ hdead =>
    obtain ⟨c, hc⟩ := locks_propagateFrom ((k.setWaitingOnMutex t
      (some call.mutex)).addWaiter call.mutex (k.sched.tasks t).id) t t N
    exact (h.startWaiting ht hpending rfl hdead).of_priority hc

theorem lockEnter_none (m : MutexId) : LockCore (k.lockEnter m none).1.locks pending := by
  rcases k.lockEnter_none_cases m with ⟨hfree, heq⟩ | ⟨-, heq⟩
  · have howner := h.owner_of_free hfree
    rw [heq, locks_modifyMutex]
    exact h.modifyMutex howner.symm (fun _ hi => hi) fun hne => absurd howner hne
  · rw [heq]
    exact h

section

variable (hcall : pending t = some call)

include hcall

theorem waitingOn_of_pending : k.locks.waitingOn t = some call.mutex := by
  rw [h.waits, hcall]
  rfl

theorem stopWaiting :
    LockCore (k.stopWaiting call.mutex t).locks (update pending t none) := by
  have hwait := h.waitingOn_of_pending hcall
  have ht := h.waiter hwait
  rw [locks_stopWaiting h.slots ht]
  refine h.setWait ht (by simp [hwait]) (fun hw => ?_) (fun u _ hw => getLsbD_of_clearBit hw)
    (fun u => ?_) (h.acyclic.of_remove fun u => ?_)
  · rw [getLsbD_clearBit_self] at hw
    cases hw
  · rw [update_apply]
    split_ifs <;> simp
  · rw [setWait_blocker]
    split_ifs
    · exact .inr rfl
    · exact .inl rfl

theorem keepWaiting : LockCore (k.addWaiter call.mutex (k.sched.tasks t).id).locks pending := by
  have hwait := h.waitingOn_of_pending hcall
  have ht := h.waiter hwait
  rw [locks_keepWaiting h.slots ht hwait]
  refine h.setWait ht (by simp [hwait]) (fun _ => rfl)
    (fun u hu hw => getLsbD_of_setBit hw fun hut => hu (Fin.ext hut)) (fun u => ?_) ?_
  · split_ifs with hu
    · rw [hu, hcall]
      rfl
    · rfl
  · rw [setWait_blocker_same]
    · exact h.acyclic
    · rw [blocker, hwait]

/-- A task inside `lock` does not own the mutex it waits for. -/
theorem owner_ne_self : (k.mutexes call.mutex).owner ≠ some t := by
  intro ho
  apply h.acyclic.ne_self t
  simp only [blocker, h.waitingOn_of_pending hcall]
  exact ho

/-- **A section of the loop of `lock`.** -/
theorem lockRetry {r : LockResult}
    (hk' : k.lockRetry rounds call.mutex t call.timeoutTicks call.startTick = some (k', r)) :
    LockCore k'.locks (if r = .waits then pending else update pending t none) := by
  have ht := h.waiter (h.waitingOn_of_pending hcall)
  have hstop := h.stopWaiting hcall
  have hkeep := h.keepWaiting hcall
  have hlocks := locks_stopWaiting (m := call.mutex) h.slots ht
  cases lockRetry_cases hk' with
  | free hfree =>
    have ht' : (t : Nat) < (k.stopWaiting call.mutex t).locks.count := by
      exact ht
    rw [locks_acquire hstop.slots ht']
    refine hstop.take ht' ?_ (hstop.waitingOn_eq_none (by simp))
    rw [hlocks, setWait_locked]
    exact hfree
  | own _ howner => exact absurd howner (h.owner_ne_self hcall)
  | timeoutUnowned => exact hstop
  | timeout _ _ _ hrecalc =>
    obtain ⟨c, hc⟩ := locks_recalculateFrom hrecalc
    exact hstop.of_priority hc
  | sleep =>
    rw [locks_setTaskState, locks_setSleepTicks]
    exact hkeep
  | suspend =>
    rw [locks_setTaskState]
    exact hkeep

end

theorem wakeHighestWaiter (m : MutexId) : LockCore (k.wakeHighestWaiter m).locks pending := by
  obtain ⟨w, hsub, hlocks⟩ := k.locks_wakeHighestWaiter m
  rw [hlocks]
  exact h.modifyMutex rfl hsub fun _ => ⟨rfl, rfl⟩

/-- **The section of `unlock`.** -/
theorem unlock {current : Option (Fin N)}
    (hk' : k.unlock rounds m current = some k') : LockCore k'.locks pending := by
  have hdown : LockCore (k.countDown m).locks pending := h.setCount m _
  have howner : ((k.countDown m).mutexes m).owner = (k.mutexes m).owner := by
    simp [Kernel.countDown, Kernel.modifyMutex]
  cases Kernel.unlock_cases hk' with
  | ignored => exact h
  | counted => exact hdown
  | releasedUnowned hown _ hcurrent =>
    rw [hown.2, hcurrent] at howner
    apply wakeHighestWaiter
    rw [Kernel.release, Kernel.locks_modifyMutex]
    exact hdown.modifyMutex howner.symm (fun _ hi => hi) fun hne => absurd howner hne
  | @released hown _ o hcurrent k₁ k₂ hk₁ hk₂ =>
    rw [hown.2, hcurrent] at howner
    obtain ⟨l, hl, hmem⟩ := hdown.held o
    obtain ⟨hd, next, hlocks, hpath, hnext⟩ :=
      Kernel.locks_release_unlinkHeld hl ((hmem m).mpr howner) hk₁
    have hback : LockCore (k₁.release m).locks pending := by
      rw [hlocks]
      exact hdown.giveBack howner hmem hl.nodup hpath hnext
    obtain ⟨c, hc⟩ := Kernel.locks_recalculateFrom hk₂
    exact (hback.of_priority hc).wakeHighestWaiter m

/-- **Every section keeps the shape.** -/
theorem exec {op : MutexOp N} (hop : op.Enabled (k, pending))
    (hs' : op.exec rounds (k, pending) = some s') :
    LockCore s'.1.locks s'.2 := by
  cases op with
  | lock current call =>
    cases current with
    | none =>
      rw [MutexOp.exec_lock_none hs']
      exact h.lockEnter_none call.mutex
    | some t =>
      obtain ⟨hlt, hpending⟩ := hop t rfl
      rw [MutexOp.exec_lock_some hs']
      exact h.lockEnter hlt hpending rfl
  | retry t =>
    obtain ⟨call, k', r, hcall, hk', rfl⟩ := MutexOp.exec_retry hs'
    exact h.lockRetry hcall hk'
  | unlock =>
    obtain ⟨k', hk', rfl⟩ := MutexOp.exec_unlock hs'
    exact h.unlock hk'

end

theorem of_idle (h : Idle k pending) : LockCore k.locks pending := by
  have hwait : ∀ t, k.locks.waitingOn t = none := fun t => (h.held t).2
  have howner : ∀ m, (k.locks.mutexes m).owner = none := fun m => (h.free m).2.1
  refine
    { slots := h.slots
      owned := fun {m t} hm => ?_
      held := fun t => ⟨[], (h.held t).1, fun m => by simp [howner]⟩
      waits := fun t => by rw [hwait, h.pending]; rfl
      waiter := fun {t m} hm => ?_
      bit := fun {t m} ht => ?_
      acyclic := fun t => ⟨[t], rfl, by simp [blocker, hwait]⟩ }
  · rw [howner] at hm
    cases hm
  · rw [hwait] at hm
    cases hm
  · have hmask : (k.locks.mutexes m).waitMask = 0#32 := (h.free m).2.2
    simp [hmask] at ht

theorem step {s : Kernel N × Pending N}
    (h : LockCore s.1.locks s.2) (hs : MutexStep ok s s') : LockCore s'.1.locks s'.2 := by
  rcases hs with ⟨op, rounds, hop, -, hexec⟩ | ⟨hsame, hpending⟩
  · exact h.exec hop hexec
  · rw [hsame, hpending]
    exact h

theorem of_run {k₀ : Kernel N}
    {pending₀ : Pending N} (h : Idle k₀ pending₀)
    (hrun : Relation.ReflTransGen (MutexStep ok) (k₀, pending₀) (k, pending)) :
    LockCore k.locks pending :=
  Run.steps_invariant (P := fun s => LockCore s.1.locks s.2) (of_idle h) (fun _ _ => step) hrun

end LockCore

end AuroraOS
