import AuroraOS.MutexState

/-!
# Mutexes along runs

Tasks lock and unlock mutexes, each section under an `IrqGuard` being one step, in any order. A task
inside `lock` is known by the call it is in.
-/

namespace AuroraOS

open Bitmap Chain Inheritance Option

variable {N : Nat}

/-! ## More rounds change nothing -/

namespace Kernel

variable {k k' : Kernel N} {rounds rounds' : Nat}

theorem heldPriority_mono {o : Option MutexId} {b v : Nat} (h : k.heldPriority rounds o b = some v)
    (hle : rounds ≤ rounds') : k.heldPriority rounds' o b = some v := by
  induction rounds generalizing o b rounds' with
  | zero =>
    cases o with
    | none =>
      cases rounds' <;> exact h
    | some m => cases h
  | succ rounds ih =>
    obtain ⟨rounds', rfl⟩ : ∃ n, rounds' = n + 1 := ⟨rounds' - 1, by omega⟩
    cases o with
    | none => exact h
    | some m =>
      simp only [heldPriority] at h ⊢
      exact ih h (by omega)

theorem recalculateFrom_mono {steps : Nat} {t : Fin N}
    (h : recalculateFrom rounds steps t k = some k') (hle : rounds ≤ rounds') :
    recalculateFrom rounds' steps t k = some k' := by
  induction steps generalizing t k with
  | zero => exact h
  | succ steps ih =>
    simp only [recalculateFrom, bind_eq_bind, bind_eq_some_iff] at h ⊢
    obtain ⟨v, hv, h⟩ := h
    refine ⟨v, heldPriority_mono hv hle, ?_⟩
    split_ifs at h ⊢
    · cases hw : ((k.setTaskPriority (k.sched.tasks t).id v).sched.tasks t).waitingOnMutex with
      | none => simpa only [hw] using h
      | some m =>
        cases ho : ((k.setTaskPriority (k.sched.tasks t).id v).mutexes m).owner with
        | none => simpa only [hw, ho] using h
        | some q =>
          simp only [hw, ho] at h ⊢
          exact ih h
    · exact h

theorem unlinkHeld_mono {owner : Fin N} {m : MutexId} (h : k.unlinkHeld rounds owner m = some k')
    (hle : rounds ≤ rounds') : k.unlinkHeld rounds' owner m = some k' := by
  unfold unlinkHeld at h ⊢
  split
  · next hhead => simpa only [hhead] using h
  · next head hhead =>
    simp only [hhead] at h
    split_ifs at h ⊢
    · exact h
    · obtain ⟨c, hc, h⟩ := bind_eq_some_iff.mp h
      exact bind_eq_some_iff.mpr ⟨c, seek_mono hc hle, h⟩

end Kernel

/-! ## Runs -/

/-- A call of `lock` that has not returned. -/
structure LockCall where
  mutex : MutexId
  timeoutTicks : Nat
  startTick : Nat
  deriving DecidableEq

/-- The call of `lock` that each task is in. -/
abbrev Pending (N : Nat) := Fin N → Option LockCall

/-- The sections that tasks run. A null `current` is a call before the scheduler has started. -/
inductive MutexOp (N : Nat)
  | lock (current : Option (Fin N)) (call : LockCall)
  | retry (current : Fin N)
  | unlock (current : Option (Fin N)) (m : MutexId)

namespace MutexOp

/-- The state after a section. -/
def exec (rounds : Nat) : MutexOp N → Kernel N × Pending N → Option (Kernel N × Pending N)
  | .lock current call, (k, pending) =>
    let (k, r) := k.lockEnter call.mutex current
    match current, r with
    | some t, .waits => some (k, Function.update pending t (some call))
    | _, _ => some (k, pending)
  | .retry t, (k, pending) => do
    let call ← pending t
    let (k, r) ← k.lockRetry rounds call.mutex t call.timeoutTicks call.startTick
    return (k, if r = .waits then pending else Function.update pending t none)
  | .unlock current m, (k, pending) => do
    let k ← k.unlock rounds m current
    return (k, pending)

section Cases

variable {rounds : Nat} {k : Kernel N} {pending : Pending N} {s' : Kernel N × Pending N}

theorem exec_lock_none {call : LockCall} (h : (lock none call).exec rounds (k, pending) = some s') :
    s' = ((k.lockEnter call.mutex none).1, pending) :=
  (some.inj h).symm

theorem exec_lock_some {t : Fin N} {call : LockCall}
    (h : (lock (some t) call).exec rounds (k, pending) = some s') :
    s' = ((k.lockEnter call.mutex (some t)).1,
      if (k.lockEnter call.mutex (some t)).2 = .waits then Function.update pending t (some call)
      else pending) := by
  simp only [exec] at h
  cases hr : (k.lockEnter call.mutex (some t)).2 with
  | acquired | failed =>
    rw [hr] at h
    exact (some.inj h).symm
  | waits =>
    rw [hr] at h
    exact (some.inj h).symm

theorem exec_retry {t : Fin N} (h : (retry t).exec rounds (k, pending) = some s') :
    ∃ call k' r, pending t = some call ∧
      k.lockRetry rounds call.mutex t call.timeoutTicks call.startTick = some (k', r) ∧
      s' = (k', if r = .waits then pending else Function.update pending t none) := by
  simp only [exec, bind_eq_bind, bind_eq_some_iff] at h
  obtain ⟨call, hcall, ⟨k', r⟩, hk', h⟩ := h
  exact ⟨call, k', r, hcall, hk', (some.inj h).symm⟩

theorem exec_unlock {current : Option (Fin N)} {m : MutexId}
    (h : (unlock current m).exec rounds (k, pending) = some s') :
    ∃ k', k.unlock rounds m current = some k' ∧ s' = (k', pending) := by
  simp only [exec, bind_eq_bind, bind_eq_some_iff] at h
  obtain ⟨k', hk', h⟩ := h
  exact ⟨k', hk', (some.inj h).symm⟩

end Cases

/-- A task that is in no call of `lock` calls `lock` or `unlock`. -/
def Enabled (s : Kernel N × Pending N) : MutexOp N → Prop
  | .lock current _ | .unlock current _ =>
    ∀ t ∈ current, (t : Nat) < s.1.sched.taskCount ∧ s.2 t = none
  | .retry _ => True

/-- The mutex that a section takes if it is free, and the task that takes it. -/
def target (pending : Pending N) : MutexOp N → Option (Fin N × MutexId)
  | .lock current call => current.map fun t => (t, call.mutex)
  | .retry t => (pending t).map fun call => (t, call.mutex)
  | .unlock .. => none

end MutexOp

/-- What goes on between the sections: ticks, and the choice of the task that runs. -/
def SameLocks (k k' : Kernel N) : Prop := k'.locks = k.locks

/-- A step of a run whose sections all meet the condition `ok`. -/
def MutexStep (ok : Kernel N × Pending N → MutexOp N → Prop) (s s' : Kernel N × Pending N) : Prop :=
  (∃ op rounds, op.Enabled s ∧ ok s op ∧ op.exec rounds s = some s') ∨
    SameLocks s.1 s'.1 ∧ s'.2 = s.2

/-- Where a section takes a free mutex, the other tasks that wait for it are in its mask, and none
of them is more urgent than the new owner becomes. -/
def MutexOp.Undisputed (s : Kernel N × Pending N) (op : MutexOp N) : Prop :=
  ∀ t m, op.target s.2 = some (t, m) → (s.1.mutexes m).locked = false →
    ∀ u, u ≠ t → (s.1.sched.tasks u).waitingOnMutex = some m →
      (s.1.mutexes m).waitMask.getLsbD u ∧
        s.1.priority u ≤ max (s.1.priority t) (s.1.mutexes m).ceilingPrio

/-- No mutex is held and no task waits, and the priorities are the base priorities. -/
structure Idle (k : Kernel N) (pending : Pending N) : Prop where
  slots : k.locks.Slots
  free : ∀ m, (k.mutexes m).locked = false ∧ (k.mutexes m).owner = none ∧
    (k.mutexes m).waitMask = 0#32
  held : ∀ t, (k.sched.tasks t).heldMutexes = none ∧ (k.sched.tasks t).waitingOnMutex = none
  base : ∀ t, k.priority t = (k.sched.tasks t).basePriority
  pending : ∀ t, pending t = none

/-- Every priority is the greatest of the task's base priority, the ceilings of the mutexes it holds
and the priorities of the tasks that wait for them. -/
def Kernel.Inherits (k : Kernel N) : Prop :=
  ∀ t, IsGreatest { p | p = (k.sched.tasks t).basePriority ∨
    (∃ m, (k.mutexes m).owner = some t ∧ p = (k.mutexes m).ceilingPrio) ∨
    ∃ u m, (k.mutexes m).owner = some t ∧ (k.sched.tasks u).waitingOnMutex = some m ∧
      p = k.priority u } (k.priority t)

end AuroraOS
