import AuroraOS.MutexPriority

/-!
# Deadlocks are refused

`lock` looks for a deadlock once, before a task starts to wait, and mutexes change hands afterwards
while tasks are inside the loop. **Theorem (`deadlocks_refused`).** Still no task ever waits for
itself, and the check refuses a call exactly where blocking would close a cycle; a call that is
refused changes nothing but `errno`.

A mutex that changes hands only lets tasks wait for a task that itself waits for nobody: the new
owner has just left the loop, or never was in it. So a cycle can only be closed by a task that
starts to wait, and that is where the check is.
-/

namespace AuroraOS

open Bitmap Chain Inheritance Relation Kernel

variable {N : Nat}

namespace Kernel

/-- `t` waits for a mutex that `u` owns. -/
def WaitsFor (k : Kernel N) (t u : Fin N) : Prop :=
  ∃ m, (k.sched.tasks t).waitingOnMutex = some m ∧ (k.mutexes m).owner = some u

/-- If `t` blocked on `m`, some task would wait for itself. -/
def ClosesCycle (k : Kernel N) (t : Fin N) (m : MutexId) : Prop :=
  (k.mutexes m).locked = true ∧ (k.mutexes m).owner ≠ some t ∧
    ∃ x, TransGen (k.setWaitingOnMutex t (some m)).WaitsFor x x

variable {k k' : Kernel N} {t : Fin N} {m : MutexId}

theorem waitsFor_eq (k : Kernel N) : k.WaitsFor = Parent k.locks.blocker := by
  funext t u
  exact propext Option.bind_eq_some_iff.symm

end Kernel

namespace LockCore

variable {k k' : Kernel N} {pending : Pending N} {t : Fin N} {m : MutexId}

theorem no_cycle (h : LockCore k.locks pending) (t : Fin N) : ¬ TransGen k.WaitsFor t t := by
  rw [k.waitsFor_eq]
  exact h.acyclic.irrefl t

/-- **The check is exact**: it finds a deadlock where blocking would close a cycle. -/
theorem checkDeadlock_iff (h : LockCore k.locks pending) (ht : (t : Nat) < k.locks.count)
    (hpending : pending t = none) :
    k.checkDeadlock t m = true ↔ ∃ x, TransGen (k.setWaitingOnMutex t (some m)).WaitsFor x x := by
  have hwait : k.locks.waitingOn t = none := h.waitingOn_eq_none hpending
  constructor
  · intro hdead
    cases ho : (k.mutexes m).owner with
    | none =>
      rw [checkDeadlock, ho] at hdead
      cases N <;> exact absurd hdead (by simp [checkDeadlockFrom])
    | some o =>
      obtain ⟨l, hl⟩ := h.acyclic o
      rw [h.checkDeadlock_eq ho hl] at hdead
      have hold : ReflTransGen k.WaitsFor o t := by
        rw [k.waitsFor_eq]
        exact ancestor_of_mem hl (of_decide_eq_true hdead)
      -- nobody waits in the place of `t`, so the way from the owner to `t` is still there
      have hnew : ReflTransGen (k.setWaitingOnMutex t (some m)).WaitsFor o t := by
        refine ReflTransGen.mono (fun x y hxy => ?_) _ _ hold
        obtain ⟨m', hx, hy⟩ := hxy
        have hxt : x ≠ t := by
          rintro rfl
          exact absurd (hwait.symm.trans hx) (by simp)
        refine ⟨m', ?_, hy⟩
        simp [setWaitingOnMutex, Scheduler.tasks_modify, hxt, hx]
      have hedge : (k.setWaitingOnMutex t (some m)).WaitsFor t o :=
        ⟨m, by simp [setWaitingOnMutex, Scheduler.tasks_modify], ho⟩
      exact ⟨t, .head' hedge hnew⟩
  · intro hcycle
    by_contra hdead
    obtain ⟨x, hx⟩ := hcycle
    have hcore := h.startWaiting ht hpending (show LockCall.mutex ⟨m, 0, 0⟩ = m from rfl)
      (Bool.not_eq_true _ ▸ hdead)
    apply hcore.no_cycle x
    have heq : ((k.setWaitingOnMutex t (some m)).addWaiter m (k.sched.tasks t).id).WaitsFor =
        (k.setWaitingOnMutex t (some m)).WaitsFor := by
      rw [waitsFor_eq, waitsFor_eq, addWaiter, locks_modifyMutex,
        Locks.blocker_modifyMutex _ rfl]
    rw [heq]
    exact hx

end LockCore

/-! ## What a call of `lock` returns -/

namespace Kernel

variable {k k' : Kernel N} {t : Fin N} {m : MutexId}

theorem task_propagateFrom (k : Kernel N) (start x : Fin N) (steps : Nat) :
    (propagateFrom start steps x k).task = k.task :=
  propagateFrom_invariant (P := fun k₁ => k₁.task = k.task) (fun _ _ _ h => h) start x steps rfl

theorem task_recalculateFrom {rounds steps : Nat}
    (h : recalculateFrom rounds steps t k = some k') : k'.task = k.task :=
  recalculateFrom_invariant (P := fun k₁ => k₁.task = k.task) (fun _ _ _ h => h) h rfl

theorem task_acquire (k : Kernel N) (m : MutexId) (t : Fin N) : (k.acquire m t).task = k.task := by
  unfold acquire
  dsimp only
  split_ifs <;> rfl

theorem task_lockRetry {rounds timeout start : Nat} {r : LockResult}
    (h : k.lockRetry rounds m t timeout start = some (k', r)) : k'.task = k.task := by
  cases lockRetry_cases h with
  | free => exact task_acquire ..
  | own => rfl
  | timeoutUnowned => rfl
  | timeout _ _ _ hrecalc => exact (task_recalculateFrom hrecalc).trans rfl
  | sleep => rfl
  | suspend => rfl

end Kernel

/-! ## Runs -/

/-- **Deadlocks are refused.** In every state that tasks reach by locking and unlocking mutexes, no
task waits for itself; a call of `lock` fails at once, with `errno` set to `EDEADLK`, exactly where
blocking would close a cycle, and then nothing else changes; and nothing else in `lock` sets
`errno`. -/
theorem deadlocks_refused {k₀ k : Kernel N} {pending₀ pending : Pending N} (h : Idle k₀ pending₀)
    (hrun : ReflTransGen (MutexStep fun _ _ => True) (k₀, pending₀) (k, pending)) :
    (∀ t, ¬ TransGen k.WaitsFor t t) ∧
      (∀ t call, (MutexOp.lock (some t) call).Enabled (k, pending) →
        ((k.lockEnter call.mutex (some t)).2 = .failed ↔ k.ClosesCycle t call.mutex) ∧
        (k.ClosesCycle t call.mutex →
          (k.lockEnter call.mutex (some t)).1 = k.setErrno t edeadlk) ∧
        (¬ k.ClosesCycle t call.mutex → (k.lockEnter call.mutex (some t)).1.task = k.task)) ∧
      ∀ t call rounds k' r, pending t = some call →
        k.lockRetry rounds call.mutex t call.timeoutTicks call.startTick = some (k', r) →
          k'.task = k.task := by
  have hcore := LockCore.of_run h hrun
  refine ⟨hcore.no_cycle, fun t call hop => ?_, fun t call rounds k' r _ hk' =>
    task_lockRetry hk'⟩
  obtain ⟨hlt, hpending⟩ := hop t rfl
  have hiff := hcore.checkDeadlock_iff (m := call.mutex) hlt hpending
  have hcycle : k.ClosesCycle t call.mutex ↔ (k.mutexes call.mutex).locked = true ∧
      (k.mutexes call.mutex).owner ≠ some t ∧ k.checkDeadlock t call.mutex = true := by
    rw [hiff]
    rfl
  have hcases := k.lockEnter_cases call.mutex t
  rw [hcycle]
  generalize k.lockEnter call.mutex (some t) = r at hcases ⊢
  cases hcases with
  | free hfree => simp [hfree, task_acquire]
  | own hlocked howner => simp [howner, relock, modifyMutex]
  | deadlock hlocked howner hdead => simp [hlocked, howner, hdead]
  | wait hlocked howner hdead =>
    simp [hdead, addWaiter, modifyMutex, setWaitingOnMutex]
  | boost hlocked howner hdead =>
    have htask : (((k.setWaitingOnMutex t (some call.mutex)).addWaiter call.mutex
        (k.sched.tasks t).id).propagatePriority t).task = k.task := task_propagateFrom ..
    simp [hdead, htask]

/-- Each task holds a mutex, and the first one waits for the mutex of the second. -/
def crossed : List (MutexOp 2) :=
  [.lock (some 0) ⟨0, lockForever, 0⟩, .lock (some 1) ⟨1, lockForever, 0⟩,
    .lock (some 0) ⟨1, lockForever, 0⟩]

/-- The second task is refused the mutex of the first. -/
theorem deadlocks_refused_crossed : ∃ k pending, MutexOp.execAll crossed = some (k, pending) ∧
    k.WaitsFor 0 1 ∧ k.ClosesCycle 1 0 ∧
      k.lockEnter 0 (some 1) = (k.setErrno 1 edeadlk, .failed) := by
  obtain ⟨⟨k, pending⟩, hs, hwait, howner, hcount, hpending, hfailed⟩ :
      ∃ s ∈ MutexOp.execAll crossed, (s.1.sched.tasks 0).waitingOnMutex = some 1 ∧
        (s.1.mutexes 1).owner = some 1 ∧ 1 < s.1.sched.taskCount ∧ s.2 1 = none ∧
        (s.1.lockEnter 0 (some 1)).2 = .failed := by decide +kernel
  have hrun : ReflTransGen (MutexStep fun _ _ => True) (lowAndHigh, fun _ => none) (k, pending) :=
    Run.reflTransGen_of_actions
      (fun _ _ op hop hexec => .inl ⟨op, 4, hop, trivial, hexec⟩) (by decide +kernel) hs
  have hlock := (deadlocks_refused lowAndHigh_idle hrun).2.1 1 ⟨0, lockForever, 0⟩ fun t ht => by
    obtain rfl : 1 = t := Option.some.inj ht
    exact ⟨hcount, hpending⟩
  have hcycle := hlock.1.mp hfailed
  exact ⟨k, pending, hs, ⟨1, hwait, howner⟩, hcycle, Prod.ext (hlock.2.1 hcycle) hfailed⟩

end AuroraOS
