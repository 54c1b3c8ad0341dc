import AuroraOS.MutexShape

/-!
# Priority inheritance and ceilings

As long as no mutex is taken from under a more urgent waiter, every task's priority is the greatest
of its base priority, the ceilings of the mutexes it holds and the priorities of the tasks that wait
for them. The invariant has the shape of the lock structure (the lists of held mutexes, the masks,
no task waiting for itself) and the settled priorities on top of it.
-/

namespace AuroraOS

open Bitmap Chain Inheritance Locks Kernel Option Function MutexOp

variable {N : Nat}

/-- The lock structure is consistent. -/
structure LockShape (s : Locks N) (pending : Pending N) : Prop extends LockCore s pending where
  mask : ∀ {t : Fin N} {m}, (s.mutexes m).owner ≠ none → s.waitingOn t = some m →
    (s.mutexes m).waitMask.getLsbD t = true

/-- The invariant of a run. -/
structure LockInv (s : Locks N) (pending : Pending N) : Prop extends LockShape s pending where
  settled : Settled s.own s.blocker s.priority

namespace LockShape

variable {s s' : Locks N} {pending pending' : Pending N} {t u : Fin N} {m : MutexId}

/-- Priorities are no part of the shape. -/
theorem setPriority (h : LockShape s pending) (c : Fin N → Nat) :
    LockShape { s with priority := c } pending :=
  ⟨h.toLockCore.setPriority c, h.mask⟩

/-- With enough rounds, recalculation sees all mutexes of all tasks. -/
theorem exists_counted (h : LockShape s pending) (rounds : Nat) :
    ∃ R, rounds ≤ R ∧ ∀ t, s.Counted R t := by
  choose l hpath hmem using h.held
  refine ⟨max rounds (Finset.univ.sup fun t => (l t).length), le_max_left _ _, fun t => ?_⟩
  refine ⟨l t, hpath t, ?_, hmem t, fun m hm u => ?_⟩
  · exact (Finset.le_sup (f := fun t => (l t).length) (Finset.mem_univ t)).trans (le_max_right _ _)
  · refine ⟨fun hu => h.bit hu.1, fun hu => ⟨h.mask ?_ hu, h.waiter hu⟩⟩
    rw [(hmem t m).mp hm]
    simp

end LockShape

/-! ## Edits of the lock structure -/

/-- A change of one mutex that is invisible to the tasks that wait for others. -/
structure Locks.Quiet (s : Locks N) (m : MutexId) (f : Mutex N → Mutex N) : Prop where
  owner : (f (s.mutexes m)).owner = (s.mutexes m).owner
  ceil : (f (s.mutexes m)).ceilingPrio = (s.mutexes m).ceilingPrio
  bit : ∀ i, (f (s.mutexes m)).waitMask.getLsbD i = true → (s.mutexes m).waitMask.getLsbD i = true
  own : (s.mutexes m).owner ≠ none → (f (s.mutexes m)).locked = (s.mutexes m).locked ∧
    (f (s.mutexes m)).nextHeld = (s.mutexes m).nextHeld ∧
    (f (s.mutexes m)).waitMask = (s.mutexes m).waitMask

namespace LockShape

variable {s : Locks N} {pending pending' : Pending N} {t : Fin N} {m : MutexId}

/-- The masks when a task starts, goes on or stops waiting for `m`. -/
theorem mask_setWait (h : LockShape s pending) {w : BitVec 32} {o : Option MutexId}
    (ho : ∀ m', o = some m' → m' = m) (hself : o = some m → w.getLsbD t = true)
    (hother : ∀ u : Fin N, u ≠ t → (s.mutexes m).waitMask.getLsbD u = true → w.getLsbD u = true)
    {u : Fin N} {m' : MutexId} (hm' : ((s.setWait m t w o).mutexes m').owner ≠ none)
    (hu : (s.setWait m t w o).waitingOn u = some m') :
    ((s.setWait m t w o).mutexes m').waitMask.getLsbD u = true := by
  rw [setWait_owner] at hm'
  rw [setWait_waitingOn] at hu
  rw [setWait_waitMask]
  by_cases hut : u = t
  · rw [if_pos hut] at hu
    rw [if_pos (ho m' hu), hut]
    exact hself (ho m' hu ▸ hu)
  · rw [if_neg hut] at hu
    have hbit := h.mask hm' hu
    split_ifs with hm
    · subst hm
      exact hother u hut hbit
    · exact hbit

theorem modifyMutex (h : LockShape s pending) {f : Mutex N → Mutex N} (hf : s.Quiet m f) :
    LockShape (s.modifyMutex m f) pending := by
  refine ⟨h.toLockCore.modifyMutex hf.owner hf.bit fun hne => ⟨(hf.own hne).1, (hf.own hne).2.1⟩,
    fun {t m'} hm' ht => ?_⟩
  rw [s.owner_modifyMutex hf.owner] at hm'
  rw [mutexes_modifyMutex]
  split_ifs with hm
  · subst hm
    rw [(hf.own hm').2.2]
    exact h.mask hm' ht
  · exact h.mask hm' ht

/-- Taking a free mutex, the other tasks that wait for it being in its mask. -/
theorem take (h : LockShape s pending) (ht : (t : Nat) < s.count)
    (hfree : (s.mutexes m).locked = false) (hwait : s.waitingOn t = none)
    (hothers : ∀ u, u ≠ t → s.waitingOn u = some m → (s.mutexes m).waitMask.getLsbD u = true) :
    LockShape (s.take m t) pending := by
  refine ⟨h.toLockCore.take ht hfree hwait, fun {u m'} hm' hu => ?_⟩
  rw [take_waitMask]
  rw [take_owner] at hm'
  by_cases hm : m' = m
  · subst hm
    refine hothers u ?_ hu
    rintro rfl
    cases hwait.symm.trans hu
  · rw [if_neg hm] at hm'
    exact h.mask hm' hu

theorem giveBack {o : Fin N} {hd : Option MutexId} {next : MutexId → Option MutexId}
    (hs : LockShape s pending) (howner : (s.mutexes m).owner = some o)
    {l : List MutexId} (hmem : ∀ m, m ∈ l ↔ (s.mutexes m).owner = some o) (hnd : l.Nodup)
    (hpath : Path next hd (l.erase m) none)
    (hnext : ∀ c, c ∉ l → next c = (s.mutexes c).nextHeld) :
    LockShape (s.giveBack m o hd next) pending := by
  refine ⟨hs.toLockCore.giveBack howner hmem hnd hpath hnext, fun {u m'} hm' hu => ?_⟩
  rw [giveBack_waitMask]
  rw [giveBack_owner] at hm'
  split_ifs at hm'
  · exact absurd rfl hm'
  · exact hs.mask hm' hu

end LockShape

/-- Two changes of one mutex are one. -/
theorem Locks.modifyMutex_modifyMutex (s : Locks N) (m : MutexId) (f g : Mutex N → Mutex N) :
    (s.modifyMutex m f).modifyMutex m g = s.modifyMutex m fun c => g (f c) := by
  simp [Locks.modifyMutex]

namespace LockShape

variable {k k' : Kernel N} {pending : Pending N} {m : MutexId} {t : Fin N} {o : Fin N}
  {rounds : Nat}

/-- Recalculation repairs the priorities from a task on. -/
theorem recalculate (h : LockShape k.locks pending) (ho : (o : Nat) < k.locks.count)
    (hcount : ∀ t, k.locks.Counted rounds t) :
    ∃ k' c, k.recalculatePriorityChain rounds o = some k' ∧
      k'.locks = { k.locks with priority := c } ∧
      Repairs k.locks.own k.locks.blocker o k.priority c := by
  obtain ⟨l, hl⟩ := h.acyclic o
  obtain ⟨hlt, hlen⟩ := h.path_bound ho hl
  exact recalculateFrom_repairs h.slots hl hlt hlen fun y _ => hcount y

/-- Recalculation that comes to an end has repaired the priorities. -/
theorem repairs (h : LockShape k.locks pending) (ho : (o : Nat) < k.locks.count)
    (hk' : k.recalculatePriorityChain rounds o = some k') :
    ∃ c, k'.locks = { k.locks with priority := c } ∧
      Repairs k.locks.own k.locks.blocker o k.priority c := by
  obtain ⟨R, hR, hcount⟩ := h.exists_counted rounds
  obtain ⟨k₁, c, hk₁, hlocks, hrep⟩ := h.recalculate ho hcount
  obtain rfl : k₁ = k' := some.inj (hk₁.symm.trans (recalculateFrom_mono hk' hR))
  exact ⟨c, hlocks, hrep⟩

/-- Propagation raises the tasks that a task waits for. -/
theorem propagate (h : LockShape k.locks pending) (ho : k.locks.blocker t = some o) :
    ∃ c, (k.propagatePriority t).locks = { k.locks with priority := c } ∧
      Raises k.locks.blocker t k.priority c := by
  obtain ⟨l, hl⟩ := h.acyclic t
  cases l with
  | nil => cases hl
  | cons x l =>
    obtain rfl : t = x := some.inj hl.1
    obtain ⟨m, -, howner⟩ := bind_eq_some_iff.mp ho
    have hpath : Path k.locks.blocker (some o) l none := ho ▸ hl.2
    obtain ⟨hlt, hlen⟩ := h.path_bound (h.owned howner).2 hpath
    exact propagateFrom_raises h.slots ho hpath (List.nodup_cons.mp hl.nodup).1 hlt hlen

variable (hN : N ≤ 32)

variable {call : LockCall}

include hN

/-- The masks when the bit of `t` is set or cleared. -/
theorem getLsbD_setBit_fin (w : BitVec 32) (t u : Fin N) :
    (setBit w t).getLsbD u = (decide (u = t) || w.getLsbD u) := by
  rw [getLsbD_setBit w (t.isLt.trans_le hN)]
  simp [Fin.ext_iff]

theorem getLsbD_clearBit_fin (w : BitVec 32) (t u : Fin N) :
    (clearBit w t).getLsbD u = (!decide (u = t) && w.getLsbD u) := by
  rw [getLsbD_clearBit w (t.isLt.trans_le hN)]
  simp [Fin.ext_iff]

variable (h : LockShape k.locks pending)

include h

/-- A task starts to wait, where the check finds no deadlock. -/
theorem startWaiting (ht : (t : Nat) < k.locks.count)
    (hpending : pending t = none) (hcall : call.mutex = m) (hdead : k.checkDeadlock t m = false) :
    LockShape ((k.setWaitingOnMutex t (some m)).addWaiter m (k.sched.tasks t).id).locks
      (update pending t (some call)) := by
  refine ⟨h.toLockCore.startWaiting ht hpending hcall hdead, ?_⟩
  rw [locks_startWaiting h.slots ht]
  apply h.mask_setWait (by simp)
  · intro _
    simp [getLsbD_setBit_fin hN]
  · intro u hu hbit
    rw [getLsbD_setBit_fin hN, Bool.or_eq_true]
    exact .inr hbit

/-- What a task that starts to wait does to the lock structure. -/
theorem enters (ht : (t : Nat) < k.locks.count) (hpending : pending t = none)
    (hk' : k.lockEnter call.mutex (some t) = (k', .waits)) :
    let s := k.locks.setWait call.mutex t (setBit (k.mutexes call.mutex).waitMask t)
      (some call.mutex)
    LockShape s (update pending t (some call)) ∧ k.checkDeadlock t call.mutex = false ∧
      ∃ c, k'.locks = { s with priority := c } ∧ Raises s.blocker t k.priority c := by
  intro s
  have hlocks : _ = s := locks_startWaiting (m := call.mutex) h.slots ht
  have hshape := fun hdead => h.startWaiting hN ht hpending (Eq.refl call.mutex) hdead
  have hcases := hk' ▸ k.lockEnter_cases call.mutex t
  cases hcases with
  | wait _ _ hdead hle =>
    exact ⟨hlocks ▸ hshape hdead, hdead, _, hlocks, .stop fun o ho => hle o
      (setWait_blocker_some.symm.trans ho)⟩
  | boost _ _ hdead ho =>
    have hblocker : s.blocker t = some _ := setWait_blocker_some.trans ho
    obtain ⟨c, hc, hraises⟩ := (hshape hdead).propagate (hlocks ▸ hblocker)
    rw [show Kernel.priority _ = k.priority from congrArg Locks.priority hlocks] at hraises
    exact ⟨hlocks ▸ hshape hdead, hdead, c, hlocks ▸ hc, hlocks ▸ hraises⟩

theorem stopWaiting (hcall : pending t = some call) :
    LockShape (k.locks.setWait call.mutex t (clearBit (k.mutexes call.mutex).waitMask t) none)
      (update pending t none) := by
  have ht := h.waiter (h.waitingOn_of_pending hcall)
  refine ⟨locks_stopWaiting h.slots ht ▸ h.toLockCore.stopWaiting hcall, ?_⟩
  apply h.mask_setWait (by simp) (by simp)
  intro u hu hbit
  rw [getLsbD_clearBit_fin hN, Bool.and_eq_true]
  exact ⟨by simp [hu], hbit⟩

theorem keepWaiting (hcall : pending t = some call) :
    LockShape (k.locks.setWait call.mutex t (setBit (k.mutexes call.mutex).waitMask t)
      (some call.mutex)) pending := by
  have hwait := h.waitingOn_of_pending hcall
  refine ⟨locks_keepWaiting h.slots (h.waiter hwait) hwait ▸ h.toLockCore.keepWaiting hcall, ?_⟩
  apply h.mask_setWait (by simp)
  · intro _
    simp [getLsbD_setBit_fin hN]
  · intro u hu hbit
    rw [getLsbD_setBit_fin hN, Bool.or_eq_true]
    exact .inr hbit

/-- What a section of the loop of `lock` does to the lock structure, where `s` is what is left of it
when the task stops waiting. -/
inductive Retries (k : Kernel N) (call : LockCall) (t : Fin N) (s : Locks N) :
    Locks N → LockResult → Prop
  | acquired (hfree : (k.mutexes call.mutex).locked = false) :
      Retries k call t s (s.take call.mutex t) .acquired
  | unowned (ho : (k.mutexes call.mutex).owner = none) : Retries k call t s s .failed
  | failed {o : Fin N} {c : Fin N → Nat} (ho : (k.mutexes call.mutex).owner = some o)
      (hrep : Repairs s.own s.blocker o k.priority c) :
      Retries k call t s { s with priority := c } .failed
  | waits : Retries k call t s (k.locks.setWait call.mutex t
      (setBit (k.mutexes call.mutex).waitMask t) (some call.mutex)) .waits

theorem retries (hcall : pending t = some call) {r : LockResult}
    (hk' : k.lockRetry rounds call.mutex t call.timeoutTicks call.startTick = some (k', r)) :
    Retries k call t
      (k.locks.setWait call.mutex t (clearBit (k.mutexes call.mutex).waitMask t) none)
      k'.locks r := by
  have hwait := h.waitingOn_of_pending hcall
  have ht := h.waiter hwait
  have hlocks := locks_stopWaiting (m := call.mutex) h.slots ht
  have hstop : LockShape (k.stopWaiting call.mutex t).locks _ := hlocks ▸ h.stopWaiting hN hcall
  cases lockRetry_cases hk' with
  | free hfree =>
    rw [locks_acquire hstop.slots (by exact ht), hlocks]
    exact .acquired hfree
  | own _ howner => exact absurd howner (h.owner_ne_self hcall)
  | timeoutUnowned _ howner => exact hlocks ▸ .unowned howner
  | @timeout _ _ o ho _ hrecalc =>
    obtain ⟨c, hc, hrep⟩ := hstop.repairs (by exact (h.owned ho).2) hrecalc
    rw [show Kernel.priority _ = k.priority from congrArg Locks.priority hlocks, hlocks] at hrep
    rw [hc, hlocks]
    exact .failed ho hrep
  | sleep =>
    rw [locks_setTaskState, locks_setSleepTicks, locks_keepWaiting h.slots ht hwait]
    exact .waits
  | suspend =>
    rw [locks_setTaskState, locks_keepWaiting h.slots ht hwait]
    exact .waits

omit hN

/-- What the section of `unlock` does to the lock structure. -/
inductive Unlocks (k : Kernel N) (pending : Pending N) (m : MutexId) (current : Option (Fin N)) :
    Locks N → Prop
  | quiet {f : Mutex N → Mutex N} (hf : k.locks.Quiet m f) :
      Unlocks k pending m current (k.locks.modifyMutex m f)
  | givenBack {o : Fin N} {hd : Option MutexId} {next : MutexId → Option MutexId} {w : BitVec 32}
      {c : Fin N → Nat} (hcurrent : current = some o) (howner : (k.mutexes m).owner = some o)
      (hcount : (k.mutexes m).recursiveCount % 2 ^ 32 = 1)
      (hshape : LockShape ((k.countDown m).locks.giveBack m o hd next) pending)
      (hrep : Repairs ((k.countDown m).locks.giveBack m o hd next).own
        ((k.countDown m).locks.giveBack m o hd next).blocker o k.priority c)
      (hquiet : Quiet { (k.countDown m).locks.giveBack m o hd next with priority := c } m
        fun d => { d with waitMask := w }) :
      Unlocks k pending m current (Locks.modifyMutex
        { (k.countDown m).locks.giveBack m o hd next with priority := c } m fun d =>
        { d with waitMask := w })

theorem unlocks {current : Option (Fin N)}
    (hk' : k.unlock rounds m current = some k') : Unlocks k pending m current k'.locks := by
  have hquiet : k.locks.Quiet m fun c => { c with recursiveCount :=
      (c.recursiveCount + (2 ^ 32 - 1)) % 2 ^ 32 } :=
    ⟨rfl, rfl, fun _ => id, fun _ => ⟨rfl, rfl, rfl⟩⟩
  have hdown : LockShape (k.countDown m).locks pending := h.modifyMutex hquiet
  have howner : ((k.countDown m).mutexes m).owner = (k.mutexes m).owner := by
    simp [countDown, Kernel.modifyMutex]
  cases unlock_cases hk' with
  | ignored =>
    have hsame : k.locks = k.locks.modifyMutex m id := by simp [Locks.modifyMutex]
    rw [hsame]
    exact .quiet ⟨rfl, rfl, fun _ => id, fun _ => ⟨rfl, rfl, rfl⟩⟩
  | counted => exact .quiet hquiet
  | releasedUnowned hown _ hcurrent =>
    rw [hown.2, hcurrent] at howner
    obtain ⟨w, hsub, hlocks⟩ := ((k.countDown m).release m).locks_wakeHighestWaiter m
    have hnone : (k.mutexes m).owner = none := hown.2.trans hcurrent
    rw [hlocks, release, countDown, locks_modifyMutex, locks_modifyMutex, modifyMutex_modifyMutex,
      modifyMutex_modifyMutex]
    simp only [release, countDown, Kernel.modifyMutex, update_self] at hsub
    exact .quiet ⟨hnone.symm, rfl, hsub, fun hne => absurd hnone hne⟩
  | @released hown hzero o hcurrent k₁ k₂ hk₁ hk₂ =>
    rw [hown.2, hcurrent] at howner
    obtain ⟨l, hl, hmem⟩ := hdown.held o
    obtain ⟨hd, next, hlocks, hpath, hnext⟩ :=
      locks_release_unlinkHeld hl ((hmem m).mpr howner) hk₁
    have hshape := hdown.giveBack howner hmem hl.nodup hpath hnext
    obtain ⟨c, hc, hrep⟩ := repairs (k := k₁.release m) (hlocks ▸ hshape)
      (by rw [hlocks]; exact (hdown.owned howner).2) hk₂
    rw [show Kernel.priority _ = k.priority from congrArg Locks.priority hlocks, hlocks] at hrep
    obtain ⟨w, hsub, hwake⟩ := k₂.locks_wakeHighestWaiter m
    have hmutexes : k₂.mutexes = ((k.countDown m).locks.giveBack m o hd next).mutexes := by
      rw [← hlocks]
      exact congrArg Locks.mutexes hc
    rw [hmutexes] at hsub
    rw [hwake, hc, hlocks]
    refine .givenBack hcurrent (hown.2.trans hcurrent) ?_ hshape hrep
      ⟨rfl, rfl, hsub, fun hne => absurd ?_ hne⟩
    · have hzero' : ((k.mutexes m).recursiveCount + (2 ^ 32 - 1)) % 2 ^ 32 = 0 := by
        simpa [countDown, Kernel.modifyMutex] using hzero
      omega
    · dsimp only
      rw [giveBack_owner, if_pos rfl]

end LockShape

/-! ## Settled priorities -/

namespace Locks

variable {s : Locks N} {m : MutexId} {f : Mutex N → Mutex N}

/-- What tasks have to reach by themselves depends on owners and ceilings. -/
theorem own_modifyMutex (s : Locks N) (howner : (f (s.mutexes m)).owner = (s.mutexes m).owner)
    (hceil : (f (s.mutexes m)).ceilingPrio = (s.mutexes m).ceilingPrio) :
    (s.modifyMutex m f).own = s.own := by
  have hceil' : ∀ m', ((s.modifyMutex m f).mutexes m').ceilingPrio =
      (s.mutexes m').ceilingPrio := by
    intro m'
    rw [mutexes_modifyMutex]
    split_ifs with hm
    · rw [hceil, hm]
    · rfl
  funext t
  unfold own
  simp only [s.owner_modifyMutex howner, hceil']
  rfl

/-- The new owner of a free mutex takes the tasks that wait for it. -/
theorem graft_take {t : Fin N} (hnone : (s.mutexes m).owner = none) (hwait : s.waitingOn t = none)
    (hothers : s.Outranks m t) :
    Graft s.own (s.take m t).own s.blocker (s.take m t).blocker s.priority
      (s.take m t).priority t (s.mutexes m).ceilingPrio := by
  refine ⟨by simp [blocker, hwait], fun u => ?_,
    ⟨s.own_take_self m t, fun u hu => s.own_take_of_ne hnone hu⟩,
    by rw [take_priority, if_pos rfl], fun u hu => by rw [take_priority, if_neg hu]⟩
  rw [take_blocker]
  split_ifs with hw
  · have hne : u ≠ t := by
      rintro rfl
      cases hwait.symm.trans hw
    exact .inr ⟨by simp [blocker, hw, hnone], hne, rfl, (hothers u hne hw).2⟩
  · exact .inl rfl

end Locks

namespace LockInv

variable {s : Locks N} {pending : Pending N} {m : MutexId} {t : Fin N}

theorem modifyMutex (h : LockInv s pending) {f : Mutex N → Mutex N} (hf : s.Quiet m f) :
    LockInv (s.modifyMutex m f) pending where
  toLockShape := h.toLockShape.modifyMutex hf
  settled := by
    rw [s.blocker_modifyMutex hf.owner, s.own_modifyMutex hf.owner hf.ceil]
    exact h.settled

/-- **Taking a free mutex**, the other tasks that wait for it being in its mask and not more urgent
than the new owner becomes. -/
theorem take (h : LockInv s pending) (ht : (t : Nat) < s.count)
    (hfree : (s.mutexes m).locked = false) (hwait : s.waitingOn t = none)
    (hothers : s.Outranks m t) : LockInv (s.take m t) pending :=
  ⟨h.toLockShape.take ht hfree hwait fun u hu hw => (hothers u hu hw).1,
    h.settled.graft (graft_take (h.owner_of_free hfree) hwait hothers)⟩

end LockInv

/-- Only the former owner's priority may be out of order. -/
theorem LockInv.giveBack_but {s : Locks N} {pending : Pending N} {m : MutexId} {o : Fin N}
    {h : Option MutexId} {next : MutexId → Option MutexId} (hs : LockInv s pending)
    (howner : (s.mutexes m).owner = some o) :
    SettledBut (s.giveBack m o h next).own (s.giveBack m o h next).blocker s.priority o := by
  refine hs.settled.but (fun u hu => own_giveBack_of_ne howner hu) fun x u hu => ?_
  rw [giveBack_blocker]
  split_ifs with hx
  · simp [blocker, hx, howner, Ne.symm hu]
  · rfl

/-! ## The sections -/

namespace LockInv

variable {k k' : Kernel N} {pending : Pending N} {m : MutexId} {t : Fin N}

/-- The end of a climb that started at `o`. -/
theorem of_repairs {s : Locks N} {o : Fin N} {c : Fin N → Nat} (h : LockShape s pending)
    (hbut : SettledBut s.own s.blocker s.priority o)
    (hrep : Repairs s.own s.blocker o s.priority c) : LockInv { s with priority := c } pending where
  toLockShape := h.setPriority c
  settled := hrep.settled hbut

theorem setCount (h : LockInv k.locks pending) (m : MutexId) (n : Mutex N → Nat) :
    LockInv (k.modifyMutex m fun c => { c with recursiveCount := n c }).locks pending := by
  rw [locks_modifyMutex]
  exact h.modifyMutex ⟨rfl, rfl, fun _ => id, fun _ => ⟨rfl, rfl, rfl⟩⟩

variable (hN : N ≤ 32)

variable {call : LockCall}

include hN

/-- **A task that starts to wait** raises the tasks it waits for. -/
theorem startWaiting (h : LockInv k.locks pending) (ht : (t : Nat) < k.locks.count)
    (hpending : pending t = none) (hk' : k.lockEnter call.mutex (some t) = (k', .waits)) :
    LockInv k'.locks (update pending t (some call)) := by
  obtain ⟨hs, -, c, hc, hraises⟩ := h.toLockShape.enters hN ht hpending hk'
  rw [hc]
  set s := k.locks.setWait call.mutex t (setBit (k.mutexes call.mutex).waitMask t) (some call.mutex)
  have hroot : k.locks.blocker t = none := by simp [blocker, h.waitingOn_eq_none hpending]
  have hup : ∀ u, u ≠ t → s.blocker u = k.locks.blocker u := fun u hu => setWait_blocker_of_ne hu
  cases ho : s.blocker t with
  | none =>
    cases hraises with
    | climb hx => cases ho.symm.trans hx
    | stop =>
      refine ⟨hs.setPriority _, ?_⟩
      show Settled s.own s.blocker k.priority
      rw [setWait_own, setWait_blocker_same
        (by exact setWait_blocker_some.symm.trans (ho.trans hroot.symm))]
      exact h.settled
  | some o =>
    have hbut : SettledBut s.own s.blocker k.priority o := by
      rw [setWait_own]
      refine h.settled.but (fun _ _ => rfl) fun x u hu => ?_
      by_cases hx : x = t
      · simp [hx, ho, hroot, Ne.symm hu]
      · rw [hup x hx]
    refine of_repairs hs hbut (hraises.repairs hs.acyclic ho hbut ?_)
    rw [setWait_own]
    exact isGreatest_link (h.settled o) ho hup

/-- **The first section of `lock`.** -/
theorem lockEnter (h : LockInv k.locks pending) (ht : (t : Nat) < k.locks.count)
    (hpending : pending t = none)
    (hfree : (k.mutexes call.mutex).locked = false → k.locks.Outranks call.mutex t)
    {r : LockResult} (hk' : k.lockEnter call.mutex (some t) = (k', r)) :
    LockInv k'.locks (if r = .waits then update pending t (some call) else pending) := by
  have hcases := hk' ▸ k.lockEnter_cases call.mutex t
  cases hcases with
  | free hunlocked =>
    rw [locks_acquire h.slots ht]
    exact h.take ht hunlocked (h.waitingOn_eq_none hpending) (hfree hunlocked)
  | own => exact h.setCount _ _
  | deadlock => exact h
  | wait => exact h.startWaiting hN ht hpending hk'
  | boost => exact h.startWaiting hN ht hpending hk'

/-- The task that stops waiting is not one of the others. -/
theorem outranks_stopWaiting (hout : k.locks.Outranks m t) :
    (k.locks.setWait m t (clearBit (k.mutexes m).waitMask t) none).Outranks m t := by
  intro u hu hw
  rw [setWait_waitingOn, if_neg hu] at hw
  rw [setWait_waitMask, if_pos rfl, setWait_ceilingPrio, LockShape.getLsbD_clearBit_fin hN]
  obtain ⟨hbit, hle⟩ := hout u hu hw
  exact ⟨by simpa [hu] using show (k.mutexes m).waitMask.getLsbD u = true from hbit, hle⟩

/-- **A section of the loop of `lock`.** -/
theorem lockRetry (h : LockInv k.locks pending) (hcall : pending t = some call)
    (hfree : (k.mutexes call.mutex).locked = false → k.locks.Outranks call.mutex t) {rounds : Nat}
    {r : LockResult}
    (hk' : k.lockRetry rounds call.mutex t call.timeoutTicks call.startTick = some (k', r)) :
    LockInv k'.locks (if r = .waits then pending else update pending t none) := by
  have hwait := h.waitingOn_of_pending hcall
  have hshape := h.toLockShape.stopWaiting hN hcall
  have hold : k.locks.blocker t = (k.mutexes call.mutex).owner := by
    simp only [blocker, hwait]
    rfl
  have hnone (ho : (k.mutexes call.mutex).owner = none) : LockInv (k.locks.setWait call.mutex t
      (clearBit (k.mutexes call.mutex).waitMask t) none) (update pending t none) := by
    refine ⟨hshape, ?_⟩
    rw [setWait_own, setWait_blocker_same (by exact (hold.trans ho).symm)]
    exact h.settled
  have hcases := h.toLockShape.retries hN hcall hk'
  generalize k'.locks = s' at hcases ⊢
  cases hcases with
  | acquired hunlocked =>
    refine (hnone (h.owner_of_free hunlocked)).take (h.waiter hwait) ?_
      (hshape.waitingOn_eq_none (by simp)) (outranks_stopWaiting hN (hfree hunlocked))
    rw [setWait_locked]
    exact hunlocked
  | unowned ho => exact hnone ho
  | failed ho hrep =>
    -- only the priority of the mutex's owner may be out of order
    refine of_repairs hshape ?_ hrep
    rw [setWait_own]
    refine h.settled.but (fun _ _ => rfl) fun x u hu => ?_
    rw [setWait_blocker]
    split_ifs with hx
    · simp [hx, hold, ho, Ne.symm hu]
    · rfl
  | waits =>
    refine ⟨h.toLockShape.keepWaiting hN hcall, ?_⟩
    rw [setWait_own, setWait_blocker_same (by exact hold.symm)]
    exact h.settled

omit hN

/-- **The section of `unlock`.** -/
theorem unlock (h : LockInv k.locks pending) {m : MutexId} {current : Option (Fin N)} {rounds : Nat}
    (hk' : k.unlock rounds m current = some k') : LockInv k'.locks pending := by
  have hcases := h.toLockShape.unlocks hk'
  generalize k'.locks = s' at hcases ⊢
  cases hcases with
  | quiet hf => exact h.modifyMutex hf
  | @givenBack o _ _ _ _ _ howner _ hshape hrep hquiet =>
    have hdown : LockInv (k.countDown m).locks pending := h.setCount m _
    have howner' : ((k.countDown m).mutexes m).owner = some o := by
      simp [countDown, Kernel.modifyMutex, howner]
    exact (of_repairs hshape (hdown.giveBack_but howner') hrep).modifyMutex hquiet

end LockInv

/-! ## Runs -/

namespace LockInv

variable {k : Kernel N} {pending : Pending N}

theorem of_idle (h : Idle k pending) : LockInv k.locks pending := by
  have hroot : ∀ t, k.locks.blocker t = none := fun t => by
    simp [blocker, show k.locks.waitingOn t = none from (h.held t).2]
  have howner : ∀ m, (k.locks.mutexes m).owner = none := fun m => (h.free m).2.1
  refine ⟨⟨.of_idle h, fun {t m} hm => absurd (howner m) hm⟩,
    fun t => ⟨.inl (.inl (h.base t)), ?_⟩⟩
  rintro p ((hp | ⟨m, hm, -⟩) | ⟨u, hu, -⟩)
  · exact hp ▸ (h.base t).ge
  · rw [howner] at hm
    cases hm
  · rw [Set.mem_ofPred_eq, hroot] at hu
    cases hu

/-- The property in the kernel's terms. -/
theorem inherits (h : LockInv k.locks pending) : k.Inherits := by
  intro t
  obtain ⟨hmem, hub⟩ := h.settled t
  constructor
  · rcases hmem with (hb | ⟨m, hm, hp⟩) | ⟨u, hu, hp⟩
    · exact .inl hb
    · exact .inr (.inl ⟨m, hm, hp⟩)
    · obtain ⟨m, hw, ho⟩ := bind_eq_some_iff.mp hu
      exact .inr (.inr ⟨u, m, ho, hw, hp.symm⟩)
  · rintro p (hb | ⟨m, hm, hp⟩ | ⟨u, m, ho, hw, hp⟩)
    · exact hub (.inl (.inl hb))
    · exact hub (.inl (.inr ⟨m, hm, hp⟩))
    · exact hub (.inr ⟨u, bind_eq_some_iff.mpr ⟨m, hw, ho⟩, hp.symm⟩)

/-- **Every section keeps the invariant.** -/
theorem exec (hN : N ≤ 32) (h : LockInv k.locks pending) {op : MutexOp N}
    (hop : op.Enabled (k, pending)) (hfree : op.Undisputed (k, pending)) {rounds : Nat}
    {s' : Kernel N × Pending N} (hs' : op.exec rounds (k, pending) = some s') :
    LockInv s'.1.locks s'.2 := by
  cases op with
  | lock current call =>
    cases current with
    | none =>
      rw [exec_lock_none hs']
      rcases k.lockEnter_none_cases call.mutex with ⟨hlocked, heq⟩ | ⟨-, heq⟩
      · have howner := h.owner_of_free hlocked
        rw [heq, locks_modifyMutex]
        exact h.modifyMutex ⟨howner.symm, rfl, fun _ => id, fun hne => absurd howner hne⟩
      · rw [heq]
        exact h
    | some t =>
      obtain ⟨hlt, hpending⟩ := hop t rfl
      rw [exec_lock_some hs']
      exact h.lockEnter hN hlt hpending (fun hlocked => hfree t call.mutex rfl hlocked) rfl
  | retry t =>
    obtain ⟨call, k', r, hcall, hk', rfl⟩ := exec_retry hs'
    exact h.lockRetry hN hcall (fun hlocked => hfree t call.mutex (by simp [target, hcall]) hlocked)
      hk'
  | unlock =>
    obtain ⟨k', hk', rfl⟩ := exec_unlock hs'
    exact h.unlock hk'

theorem step (hN : N ≤ 32) {s s' : Kernel N × Pending N} (h : LockInv s.1.locks s.2)
    (hs : MutexStep MutexOp.Undisputed s s') : LockInv s'.1.locks s'.2 := by
  rcases hs with ⟨op, rounds, hop, hfree, hexec⟩ | ⟨hsame, hpending⟩
  · exact exec hN h hop hfree hexec
  · rw [hsame, hpending]
    exact h

end LockInv

/-- **Priorities are inherited**, in every run in which no mutex is taken from under a more urgent
waiter. -/
theorem priorities_inherited (hN : N ≤ 32) {k₀ k : Kernel N} {pending₀ pending : Pending N}
    (h : Idle k₀ pending₀)
    (hrun : Relation.ReflTransGen (MutexStep MutexOp.Undisputed) (k₀, pending₀) (k, pending)) :
    k.Inherits := by
  have hinv := Run.steps_invariant (P := fun s => LockInv s.1.locks s.2) (LockInv.of_idle h)
    (fun _ _ hs hstep => hs.step hN hstep) hrun
  exact hinv.inherits

/-! ## Runs by example -/

instance (s : Kernel N × Pending N) : DecidablePred (MutexOp.Enabled s) := by
  intro op
  cases op <;> dsimp only [MutexOp.Enabled] <;> infer_instance

instance (s : Kernel N × Pending N) (op : MutexOp N) : Decidable (op.Undisputed s) :=
  decidable_of_iff
    (∀ p ∈ op.target s.2, (s.1.mutexes p.2).locked = false →
      ∀ u, u ≠ p.1 → (s.1.sched.tasks u).waitingOnMutex = some p.2 →
        (s.1.mutexes p.2).waitMask.getLsbD u ∧
          s.1.priority u ≤ max (s.1.priority p.1) (s.1.mutexes p.2).ceilingPrio)
    ⟨fun h t m hp => h (t, m) hp, fun h p hp => h p.1 p.2 hp⟩

/-- A task of priority 1 and a task of priority 10. -/
def lowAndHigh : Kernel 2 := ((Kernel.boot.createTask true 1).1.createTask true 10).1

theorem lowAndHigh_idle : Idle lowAndHigh fun _ => none :=
  { slots := fun i _ => by revert i; decide
    free := fun _ => ⟨rfl, rfl, rfl⟩
    held := by decide
    base := by decide
    pending := fun _ => rfl }

/-- A call of `lock` without a timeout. -/
def lockCall : LockCall := ⟨0, lockForever, 0⟩

/-- The first task holds the mutex and the second one waits for it. -/
def contended : List (MutexOp 2) :=
  [.lock (some 0) lockCall, .lock (some 1) lockCall, .retry 1]

/-- The state after some sections, with a bound that is large enough here. -/
def MutexOp.execAll (ops : List (MutexOp 2)) : Option (Kernel 2 × Pending 2) :=
  ops.foldlM (fun s op => op.exec 4 s) (lowAndHigh, fun _ => none)

/-- The first task gives the mutex back and takes it again before the second one, which has been
woken, runs: it does not inherit the priority of the task that waits for it. -/
theorem not_inherits_of_barging : ∃ k pending,
    Relation.ReflTransGen (MutexStep fun _ _ => True) (lowAndHigh, fun _ => none) (k, pending) ∧
      ¬ k.Inherits := by
  let ops : List (MutexOp 2) := contended ++ [.unlock (some 0) 0, .lock (some 0) lockCall]
  obtain ⟨⟨k, pending⟩, hs, howner, hwait, hless⟩ : ∃ s ∈ execAll ops,
      (s.1.mutexes 0).owner = some 0 ∧ (s.1.sched.tasks 1).waitingOnMutex = some 0 ∧
      s.1.priority 0 < s.1.priority 1 := by decide +kernel
  refine ⟨k, pending, Run.reflTransGen_of_actions
    (fun _ _ op hop hexec => .inl ⟨op, 4, hop, trivial, hexec⟩) (by decide +kernel) hs, fun h => ?_⟩
  exact absurd ((h 0).2 (.inr (.inr ⟨1, 0, howner, hwait, rfl⟩))) (not_le.mpr hless)

/-- The first task inherits the priority of the second one. -/
theorem priorities_inherited_contended :
    ∃ k pending, MutexOp.execAll contended = some (k, pending) ∧ k.priority 0 = 10 ∧
      k.Inherits := by
  obtain ⟨⟨k, pending⟩, hs, hprio⟩ : ∃ s ∈ execAll contended, s.1.priority 0 = 10 := by
    decide +kernel
  have hrun : Relation.ReflTransGen (MutexStep MutexOp.Undisputed)
      (lowAndHigh, fun _ => none) (k, pending) :=
    Run.reflTransGen_of_actions (P := fun s op => op.Enabled s ∧ op.Undisputed s)
      (fun _ _ op hop hexec => .inl ⟨op, 4, hop.1, hop.2, hexec⟩) (by decide +kernel) hs
  exact ⟨k, pending, hs, hprio, priorities_inherited (by decide) lowAndHigh_idle hrun⟩

end AuroraOS
