import AuroraOS.MutexShape
import AuroraOS.Meanwhile

/-!
# Mutexes and the states of tasks

What the pieces of `lock` and `unlock` do to the mutexes and to the states of the tasks, and that no
other operation touches a mutex.
-/

namespace AuroraOS

open Bitmap Function Option

variable {N : Nat}

namespace Kernel

/-! ## What the pieces change -/

section Pieces

variable (k : Kernel N)

@[simp] theorem mutexes_setTaskState (id : Nat) (st : TaskState) :
    (k.setTaskState id st).mutexes = k.mutexes := rfl

section

variable (m : MutexId)

theorem mutexes_modifyMutex (f : Mutex N → Mutex N) :
    (k.modifyMutex m f).mutexes = update k.mutexes m (f (k.mutexes m)) := rfl

@[simp] theorem taskState_modifyMutex (f : Mutex N → Mutex N) :
    (k.modifyMutex m f).taskState = k.taskState := rfl

variable (t : Fin N)

theorem taskState_modify {f : SchedulerContext N → SchedulerContext N}
    (hf : ∀ c, (f c).state = c.state) :
    { k with sched := k.sched.modify t f }.taskState = k.taskState := by
  funext u
  simp only [taskState, Scheduler.tasks_modify]
  split_ifs with hu
  · rw [hf, hu]
  · rfl

@[simp] theorem taskState_setWaitingOnMutex (o : Option MutexId) :
    (k.setWaitingOnMutex t o).taskState = k.taskState :=
  k.taskState_modify t fun _ => rfl

@[simp] theorem taskState_setHeldMutexes (o : Option MutexId) :
    (k.setHeldMutexes t o).taskState = k.taskState :=
  k.taskState_modify t fun _ => rfl

theorem mutexes_acquire : (k.acquire m t).mutexes =
    update k.mutexes m { k.mutexes m with
      locked := true
      owner := some t
      recursiveCount := 1
      nextHeld := (k.sched.tasks t).heldMutexes } := by
  unfold acquire
  dsimp only
  split_ifs <;> rfl

@[simp] theorem taskState_acquire : (k.acquire m t).taskState = k.taskState := by
  unfold acquire
  dsimp only
  split_ifs
  · funext u
    simp
  · simp

@[simp] theorem taskState_stopWaiting : (k.stopWaiting m t).taskState = k.taskState := by
  simp [stopWaiting, dropWaiter]

theorem mutexes_stopWaiting : (k.stopWaiting m t).mutexes =
    update k.mutexes m { k.mutexes m with
      waitMask := clearBit (k.mutexes m).waitMask (k.sched.tasks t).id } := rfl

theorem mutexes_addWaiter (id : Nat) : (k.addWaiter m id).mutexes =
    update k.mutexes m
      { k.mutexes m with waitMask := setBit (k.mutexes m).waitMask id } := rfl

end

theorem frame_setTaskPriority (k₁ : Kernel N) (id p : Nat)
    (h : k₁.mutexes = k.mutexes ∧ k₁.taskState = k.taskState) :
    (k₁.setTaskPriority id p).mutexes = k.mutexes ∧
    (k₁.setTaskPriority id p).taskState = k.taskState := by
  refine ⟨h.1, Eq.trans ?_ h.2⟩
  funext u
  simp

/-- Passing priorities on changes neither mutexes nor states. -/
theorem propagateFrom_frame (start x : Fin N) (steps : Nat) :
    (propagateFrom start steps x k).mutexes = k.mutexes ∧
      (propagateFrom start steps x k).taskState = k.taskState :=
  propagateFrom_invariant (frame_setTaskPriority k) start x steps ⟨rfl, rfl⟩

variable {k} {k' : Kernel N}

/-- Recalculating priorities changes neither mutexes nor states. -/
theorem recalculateFrom_frame {rounds steps : Nat} {t : Fin N}
    (h : recalculateFrom rounds steps t k = some k') :
    k'.mutexes = k.mutexes ∧ k'.taskState = k.taskState :=
  recalculateFrom_invariant (frame_setTaskPriority k) h ⟨rfl, rfl⟩

/-- Taking a mutex out of its owner's list changes links only. -/
theorem unlinkHeld_frame {rounds : Nat} {o : Fin N} {m : MutexId}
    (h : k.unlinkHeld rounds o m = some k') :
    (∃ next : MutexId → Option MutexId,
        k'.mutexes = fun c => { k.mutexes c with nextHeld := next c }) ∧
      k'.taskState = k.taskState ∧ k'.sched.taskCount = k.sched.taskCount := by
  unfold unlinkHeld at h
  split at h
  · cases h
    exact ⟨⟨fun c => (k.mutexes c).nextHeld, rfl⟩, rfl, rfl⟩
  · split_ifs at h
    · cases h
      exact ⟨⟨fun c => (k.mutexes c).nextHeld, rfl⟩, taskState_setHeldMutexes .., rfl⟩
    · obtain ⟨c, -, h⟩ := bind_eq_some_iff.mp h
      split_ifs at h
      · cases h
        refine ⟨⟨update (fun c => (k.mutexes c).nextHeld) c (k.mutexes m).nextHeld, ?_⟩,
          rfl, rfl⟩
        funext x
        by_cases hx : x = c
        · subst hx
          simp [modifyMutex]
        · simp [modifyMutex, hx]
      · cases h
        exact ⟨⟨fun c => (k.mutexes c).nextHeld, rfl⟩, rfl, rfl⟩

end Pieces

/-! ## Waking the best waiter -/

/-- What holds in the loop of `wake_highest_waiter` over the mask `w`: bits are only cleared where
the task is not asleep, and the best waiter so far is asleep. -/
structure WakeLoop (k : Kernel N) (w : BitVec 32) (s : BitVec 32 × Option (Fin N × Nat)) :
    Prop where
  keeps : ∀ u, k.Waiter w u → s.1.getLsbD u = true
  sub : ∀ j, s.1.getLsbD j = true → w.getLsbD j = true
  best : ∀ b p, s.2 = some (b, p) → k.Waiter w b

namespace WakeLoop

variable {k : Kernel N} {w : BitVec 32} {s : BitVec 32 × Option (Fin N × Nat)}

theorem clear (h : WakeLoop k w s) {i : Fin N} (hbit : s.1.getLsbD i = true)
    (hno : ¬ k.Waiter w i) : WakeLoop k w (clearBit s.1 i, s.2) := by
  refine ⟨fun u hu => ?_, fun j hj => h.sub j (getLsbD_of_clearBit hj), h.best⟩
  have hne : (u : Nat) ≠ i := fun hui => hno (Fin.ext hui ▸ hu)
  rw [getLsbD_clearBit _ (BitVec.lt_of_getLsbD hbit), h.keeps u hu]
  simp [hne]

theorem round (h : WakeLoop k w s) (i : Fin N) : WakeLoop k w (k.wakeRound s i) ∧
    (s.2 ≠ none ∨ k.Waiter w i → (k.wakeRound s i).2 ≠ none) := by
  unfold wakeRound
  by_cases hbit : s.1.getLsbD i = true
  · rw [if_pos hbit]
    by_cases hlt : (i : Nat) < k.sched.taskCount
    · have htask : k.getTaskById i = some i := getTaskById_eq_some.mpr ⟨rfl, hlt⟩
      simp only [htask]
      by_cases hasleep : k.Asleep i
      · have hnew : WakeLoop k w (s.1, some (i, k.priority i)) := by
          refine ⟨h.keeps, h.sub, ?_⟩
          rintro b p ⟨⟩
          exact ⟨h.sub i hbit, hasleep, hlt⟩
        simp only [if_pos (show (k.sched.tasks i).state = .suspended ∨
          (k.sched.tasks i).state = .sleeping from hasleep)]
        split
        · exact ⟨hnew, fun _ => by simp⟩
        · next hs =>
          split_ifs
          · exact ⟨hnew, fun _ => by simp⟩
          · exact ⟨⟨h.keeps, h.sub, fun b p hb => h.best b p (hs.trans hb)⟩, fun _ => by simp⟩
      · simp only [if_neg (show ¬ ((k.sched.tasks i).state = .suspended ∨
          (k.sched.tasks i).state = .sleeping) from hasleep)]
        exact ⟨h.clear hbit fun hi => hasleep hi.2.1,
          fun hs => hs.resolve_right fun hi => hasleep hi.2.1⟩
    · have htask : k.getTaskById i = none := by simp [getTaskById, hlt]
      simp only [htask]
      exact ⟨h.clear hbit fun hi => hlt hi.2.2, fun hs => hs.resolve_right fun hi => hlt hi.2.2⟩
  · rw [if_neg hbit]
    exact ⟨h, fun hs => hs.resolve_right fun hi => hbit (h.keeps i hi)⟩

/-- The loop finds a waiter, if there is one. -/
theorem rounds (h : WakeLoop k w s) (l : List (Fin N)) : WakeLoop k w (l.foldl k.wakeRound s) ∧
    ((s.2 ≠ none ∨ ∃ i ∈ l, k.Waiter w i) → (l.foldl k.wakeRound s).2 ≠ none) :=
  Run.foldl_finds (P := WakeLoop k w) (F := (·.2 ≠ none)) (fun _ i h => h.round i) h

end WakeLoop

/-- **What `wake_highest_waiter` does**: it wakes one of the waiters of the mask, if there is one,
and the others stay in the mask. -/
theorem wakeHighestWaiter_spec (k : Kernel N) (m : MutexId) :
    ∃ w : BitVec 32,
      (k.wakeHighestWaiter m).mutexes =
        update k.mutexes m { k.mutexes m with waitMask := w } ∧
      (((k.wakeHighestWaiter m).taskState = k.taskState ∧
          ∀ u, ¬ k.Waiter (k.mutexes m).waitMask u) ∨
        ∃ b, k.Waiter (k.mutexes m).waitMask b ∧
          (k.wakeHighestWaiter m).taskState = update k.taskState b .ready ∧
          ∀ u, u ≠ b → k.Waiter (k.mutexes m).waitMask u → w.getLsbD u = true) := by
  unfold wakeHighestWaiter
  split_ifs with hzero
  · refine ⟨(k.mutexes m).waitMask, (update_eq_self ..).symm, .inl ⟨rfl, fun u hu => ?_⟩⟩
    have hbit := hu.1
    rw [hzero] at hbit
    simp at hbit
  · have hstart : WakeLoop k (k.mutexes m).waitMask ((k.mutexes m).waitMask, none) :=
      ⟨fun u hu => hu.1, fun _ hj => hj, by simp⟩
    obtain ⟨hloop, hfound⟩ := hstart.rounds (List.finRange N)
    set s := (List.finRange N).foldl k.wakeRound ((k.mutexes m).waitMask, none) with hs
    dsimp only
    split
    · next hnone =>
      refine ⟨s.1, rfl, .inl ⟨rfl, fun u hu => ?_⟩⟩
      exact hfound (.inr ⟨u, List.mem_finRange u, hu⟩) hnone
    · next b p hsome =>
      have hb := hloop.best b p hsome
      refine ⟨clearBit s.1 b, ?_, .inr ⟨b, hb, ?_, fun u hub hu => ?_⟩⟩
      · simp [dropWaiter, mutexes_modifyMutex]
      · funext u
        rw [taskState_setTaskState, update_apply]
        refine if_congr ?_ rfl rfl
        constructor
        · exact fun hu => Fin.ext hu.1
        · rintro rfl
          exact ⟨rfl, hb.2.2⟩
      · have hne : (u : Nat) ≠ b := fun h => hub (Fin.ext h)
        rw [getLsbD_clearBit _ (BitVec.lt_of_getLsbD hb.1), hloop.keeps u hu]
        simp [hne]

/-! ## Nothing else touches a mutex -/

section Elsewhere

variable {k k' : Kernel N}

/-- Calls into the scheduler do not change for which mutex a task waits. -/
theorem Moves.waitingOnMutex (h : Moves k k') (t : Fin N) :
    (k'.sched.tasks t).waitingOnMutex = (k.sched.tasks t).waitingOnMutex := by
  refine Scheduler.Moves.invariant (P := fun s =>
    (s.tasks t).waitingOnMutex = (k.sched.tasks t).waitingOnMutex) (fun s s' hmove hs => ?_) h rfl
  cases hmove with
  | setTaskState id st => rwa [(s.lockFields_setTaskState id st t).2.2]
  | setTaskPriority id p => rwa [(s.lockFields_setTaskPriority id p t).2.2]
  | setSleepTicks i n =>
    rw [Scheduler.setSleepTicks, Scheduler.tasks_modify]
    split_ifs with hi
    · subst hi
      exact hs
    · exact hs

theorem mutexes_schedule [NeZero N] {run : SignalHandler → Nat → Kernel N → Option (Kernel N)}
    (hrun : ∀ h sig a b, run h sig a = some b → b.mutexes = a.mutexes) {allowed : Nat → Bool}
    {switched : Bool} (h : k.schedule run allowed = some (k', switched)) : k'.mutexes = k.mutexes :=
  schedule_invariant (fun _ _ _ hk => hk)
    (fun h sig a b hab hk => (hrun h sig a b hab).trans hk) (fun _ _ hk => hk)
    (fun _ _ _ _ _ hk => hk) h rfl

/-- **No operation touches a mutex**, signal handlers apart. -/
theorem mutexes_exec [NeZero N] {run : Handlers N}
    (hrun : ∀ h a b, run h a = some b → b.mutexes = a.mutexes) {op : Op N}
    (h : op.exec run k = some k') : k'.mutexes = k.mutexes := by
  cases op with
  | createTask =>
    cases h
    unfold createTask
    split <;> rfl
  | freeTask tcb =>
    cases h
    cases tcb <;> rfl
  | give =>
    rcases give_cases h with rfl | ⟨i, -, rfl | ⟨-, rfl | ⟨switched, hs⟩⟩⟩
    · rfl
    · rfl
    · rfl
    · have hk := mutexes_schedule (fun h sig => hrun (h, sig)) hs
      exact hk
  | schedule =>
    obtain ⟨⟨k₁, switched⟩, hs, rfl⟩ := map_eq_some_iff.mp h
    exact mutexes_schedule (fun h sig => hrun (h, sig)) hs
  | memManage =>
    obtain ⟨⟨k₁, switched⟩, hs, rfl⟩ := map_eq_some_iff.mp h
    refine (mutexes_schedule (fun h sig => hrun (h, sig)) hs).trans ?_
    split <;> rfl
  | _ => exact (Op.calls h trivial).mutexes

end Elsewhere

end Kernel

end AuroraOS
