import AuroraOS.MutexState
import AuroraOS.Parked

/-!
# What happens to a task that waits

A task that waits for a mutex or a semaphore is suspended or sleeps. Between the sections that tasks
run, ticks wake sleepers and end IPC waits, and `schedule` dispatches signals and picks the next
task. `OnlyWakes` is what all of this comes to for the tasks that wait: priorities change, and a
task is woken or terminated, but nothing else happens to it.
-/

namespace AuroraOS

open Kernel Scheduler

variable {N : Nat}

/-- The task is suspended or sleeps. -/
def Kernel.Asleep (k : Kernel N) (t : Fin N) : Prop :=
  k.taskState t = .suspended ∨ k.taskState t = .sleeping
  deriving Decidable

/-- A task that can be woken through the mask `w`. -/
def Kernel.Waiter (k : Kernel N) (w : BitVec 32) (t : Fin N) : Prop :=
  w.getLsbD t = true ∧ k.Asleep t ∧ (t : Nat) < k.sched.taskCount

/-- Mutexes are left alone but for the priorities of their users, and tasks are woken or terminated
only. -/
structure OnlyWakes (k k' : Kernel N) : Prop where
  locks : ∃ c, k'.locks = { k.locks with priority := c }
  state : ∀ t, k'.taskState t = k.taskState t ∨ k'.taskState t = .ready ∨
    k'.taskState t = .terminated

namespace OnlyWakes

variable {k k' k'' : Kernel N} {t : Fin N}

theorem refl (k : Kernel N) : OnlyWakes k k := ⟨⟨k.priority, rfl⟩, fun _ => .inl rfl⟩

theorem trans (h : OnlyWakes k k') (h' : OnlyWakes k' k'') : OnlyWakes k k'' := by
  obtain ⟨⟨c, hc⟩, hstate⟩ := h
  obtain ⟨⟨c', hc'⟩, hstate'⟩ := h'
  refine ⟨⟨c', by rw [hc', hc]⟩, fun t => ?_⟩
  rcases hstate' t with ht | ht
  · rw [ht]
    exact hstate t
  · exact .inr ht

theorem asleep (h : OnlyWakes k k') (ht : k'.Asleep t) : k.Asleep t := by
  rcases h.state t with hs | hs | hs
  · rwa [Kernel.Asleep, hs] at ht
  · simp [Kernel.Asleep, hs] at ht
  · simp [Kernel.Asleep, hs] at ht

theorem ready (h : OnlyWakes k k') (ht : k.taskState t = .ready)
    (halive : k'.taskState t ≠ .terminated) : k'.taskState t = .ready := by
  rcases h.state t with hs | hs | hs
  · rw [hs, ht]
  · exact hs
  · exact absurd hs halive

/-! ## The operations that ticks and `schedule` consist of -/

theorem of_tasks (htasks : k'.sched.tasks = k.sched.tasks)
    (hcount : k'.sched.taskCount = k.sched.taskCount) (hmutexes : k'.mutexes = k.mutexes) :
    OnlyWakes k k' := by
  refine ⟨⟨k'.priority, ?_⟩, fun t => .inl ?_⟩
  · simp only [Kernel.locks, htasks, hcount, hmutexes]
  · simp only [taskState, htasks]

theorem setTaskPriority (k : Kernel N) (id p : Nat) : OnlyWakes k (k.setTaskPriority id p) :=
  ⟨k.locks_setTaskPriority_exists id p, fun _ => .inl (taskState_setTaskPriority ..)⟩

theorem setTaskState (k : Kernel N) (id : Nat) {st : TaskState}
    (hst : st = .ready ∨ st = .terminated) : OnlyWakes k (k.setTaskState id st) := by
  refine ⟨⟨k.priority, k.locks_setTaskState id st⟩, fun t => ?_⟩
  rw [taskState_setTaskState]
  split_ifs
  · exact .inr hst
  · exact .inl rfl

theorem setSleepTicks (k : Kernel N) (i : Fin N) (n : Nat) :
    OnlyWakes k (k.setSleepTicks i n) :=
  ⟨⟨k.priority, k.locks_setSleepTicks i n⟩, fun t => .inl (k.taskState_setSleepTicks i n t)⟩

theorem endWait (k : Kernel N) (t : Fin N) (reason : IpcStatus) :
    OnlyWakes k (k.endWait t reason) := by
  have hipc : OnlyWakes k (k.modifyIpc t fun c =>
      { c with waitingEndpoint := none, state := .ready, status := reason }) := of_tasks rfl rfl rfl
  exact hipc.trans ((setSleepTicks _ t 0).trans (setTaskState _ _ (.inl rfl)))

theorem recalculateById (k : Kernel N) (id : Nat) : OnlyWakes k (k.recalculateById id) := by
  unfold Kernel.recalculateById
  split
  · exact refl k
  · exact setTaskPriority ..

theorem cancelWaiter {e : EndpointId} {reason : IpcStatus}
    (h : k.cancelWaiter e t reason = some k') : OnlyWakes k k' := by
  obtain ⟨next, q, next', q', hk'⟩ := cancelWaiter_cases h
  have hqueue : OnlyWakes k ((k.setQueue e .send next q).setQueue e .recv next' q') :=
    of_tasks (by simp) (by simp) rfl
  rcases hk' with rfl | ⟨-, rfl⟩
  · exact hqueue.trans (endWait ..)
  · exact hqueue.trans ((endWait ..).trans (recalculateById ..))

/-- A wait that has timed out. -/
theorem expire {i : Fin N} (h : k.expire i = some k') : OnlyWakes k k' := by
  unfold Kernel.expire at h
  split at h
  · exact cancelWaiter h
  · cases h
    have hipc : OnlyWakes k (k.modifyIpc i fun c =>
      { c with state := .ready, status := .timeout }) := of_tasks rfl rfl rfl
    exact hipc.trans (setTaskState _ _ (.inl rfl))

theorem taskTick {canary : Bool} {i : Fin N} (h : Kernel.TaskTick canary k i k') :
    OnlyWakes k k' := by
  cases h with
  | keep => exact refl k
  | smash => exact setTaskState _ _ (.inr rfl)
  | count n => exact setSleepTicks k i n
  | wake n => exact (setSleepTicks k i n).trans (setTaskState _ _ (.inl rfl))
  | expire n _ hk' => exact (setSleepTicks k i n).trans (expire hk')

theorem forTasks {body : Kernel N → Fin N → Option (Kernel N)}
    (hbody : ∀ k k' i, body k i = some k' → OnlyWakes k k') (h : k.forTasks body = some k') :
    OnlyWakes k k' :=
  forTasks_invariant
    (fun k₁ k₂ i _ h₁ h₂ => h₁.trans (hbody k₁ k₂ i h₂)) h (refl k)

theorem tickUpdate (h : k.tickUpdate = some k') : OnlyWakes k k' :=
  forTasks (fun _ _ _ h => taskTick (tickTask_cases h)) h

theorem compensateTicks {skipped : Nat} (h : k.compensateTicks skipped = some k') :
    OnlyWakes k k' :=
  forTasks (fun _ _ _ h => taskTick (compensateTask_cases h)) h

theorem schedule [NeZero N] {run : SignalHandler → Nat → Kernel N → Option (Kernel N)}
    {allowed : Nat → Bool} {switched : Bool}
    (hrun : ∀ h sig a b, run h sig a = some b → OnlyWakes a b)
    (h : k.schedule run allowed = some (k', switched)) : OnlyWakes k k' :=
  schedule_invariant
    (fun _ _ _ h₁ => h₁.trans (of_tasks rfl rfl rfl))
    (fun h sig a b hab h₁ => h₁.trans (hrun h sig a b hab))
    (fun _ _ h₁ => h₁.trans (setTaskState _ _ (.inr rfl)))
    (fun _ _ _ _ hrot h₁ => h₁.trans
      (of_tasks (tasks_rotate hrot) (taskCount_rotate hrot) rfl)) h (refl k)

end OnlyWakes

/-- What happens between the sections that tasks run: a tick, the ticks of a sleep of the processor,
or the choice of the next task. What signal handlers do is known only as far as it wakes or
terminates tasks. -/
inductive Meanwhile [NeZero N] (k : Kernel N) : Kernel N → Prop
  | tick {k' : Kernel N} (now : Nat) (h : k.tickUpdate = some k') :
      Meanwhile k { k' with currentTick := now }
  | compensate {k' : Kernel N} (skipped now : Nat) (h : k.compensateTicks skipped = some k') :
      Meanwhile k { k' with currentTick := now }
  | schedule {k' : Kernel N} {run : SignalHandler → Nat → Kernel N → Option (Kernel N)}
      {allowed : Nat → Bool} {switched : Bool}
      (hrun : ∀ h sig a b, run h sig a = some b → OnlyWakes a b)
      (h : k.schedule run allowed = some (k', switched)) : Meanwhile k k'

/-- **Meanwhile, tasks that wait are woken or terminated only.** -/
theorem Meanwhile.onlyWakes [NeZero N] {k k' : Kernel N} (h : Meanwhile k k') :
    OnlyWakes k k' := by
  cases h with
  | tick now h => exact (OnlyWakes.tickUpdate h).trans (.of_tasks rfl rfl rfl)
  | compensate skipped now h => exact (OnlyWakes.compensateTicks h).trans (.of_tasks rfl rfl rfl)
  | schedule hrun h => exact OnlyWakes.schedule hrun h

end AuroraOS
