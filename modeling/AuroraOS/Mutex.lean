import AuroraOS.Ipc

/-!
# Mutexes

`class Mutex` of `kernel/core/mutex.hpp`: priority inheritance, priority ceilings, and the check for
deadlocks. `lock` consists of a first section under its `IrqGuard` and of a loop of such sections;
`unlock` is one section. The calls of `schedule` between the sections are not part of them.

The list of the mutexes a task holds has no bound of its own, so the functions that walk it take a
number of rounds; a result `none` is a walk that needs more.
-/

namespace AuroraOS

open Bitmap Chain

variable {N : Nat}

/-- `EDEADLK`. -/
def edeadlk : Nat := 35

/-- A timeout that never comes. -/
def lockForever : Nat := 0xFFFFFFFF

/-- What a section of `lock` ends with: `lock` returns true or false, or goes on waiting. -/
inductive LockResult
  | acquired
  | failed
  | waits
  deriving DecidableEq

namespace Kernel

/-! ## Field updates -/

def modifyMutex (k : Kernel N) (m : MutexId) (f : Mutex N → Mutex N) : Kernel N :=
  { k with mutexes := Function.update k.mutexes m (f (k.mutexes m)) }

def setHeldMutexes (k : Kernel N) (t : Fin N) (m : Option MutexId) : Kernel N :=
  { k with sched := k.sched.modify t fun c => { c with heldMutexes := m } }

def setWaitingOnMutex (k : Kernel N) (t : Fin N) (m : Option MutexId) : Kernel N :=
  { k with sched := k.sched.modify t fun c => { c with waitingOnMutex := m } }

/-- Set the bit of task `id` in `wait_mask_`. -/
def addWaiter (k : Kernel N) (m : MutexId) (id : Nat) : Kernel N :=
  k.modifyMutex m fun c => { c with waitMask := setBit c.waitMask id }

/-- Clear the bit of task `id` in `wait_mask_`. -/
def dropWaiter (k : Kernel N) (m : MutexId) (id : Nat) : Kernel N :=
  k.modifyMutex m fun c => { c with waitMask := clearBit c.waitMask id }

/-! ## Inheritance -/

/-- `get_highest_waiter`. -/
def getHighestWaiter (k : Kernel N) (m : MutexId) : Nat :=
  (List.finRange N).foldl
    (fun (maxPrio : Nat) (i : Fin N) =>
      if (k.mutexes m).waitMask.getLsbD i then
        match k.getTaskById i with
        | some t => if k.priority t > maxPrio then k.priority t else maxPrio
        | none => maxPrio
      else maxPrio)
    0

/-- The loop of `check_deadlock`. -/
def checkDeadlockFrom (k : Kernel N) (current : Fin N) : Nat → Option (Fin N) → Bool
  | 0, _ | _, none => false
  | steps + 1, some check =>
    if check = current then true
    else
      match (k.sched.tasks check).waitingOnMutex with
      | none => false
      | some m => checkDeadlockFrom k current steps (k.mutexes m).owner

/-- `check_deadlock`. -/
def checkDeadlock (k : Kernel N) (current : Fin N) (m : MutexId) : Bool :=
  k.checkDeadlockFrom current N (k.mutexes m).owner

/-- The loop of `propagate_priority`. -/
def propagateFrom (start : Fin N) : Nat → Fin N → Kernel N → Kernel N
  | 0, _, k => k
  | steps + 1, task, k =>
    match (k.sched.tasks task).waitingOnMutex with
    | none => k
    | some m =>
      match (k.mutexes m).owner with
      | none => k
      | some owner =>
        if owner = start then k
        else if k.priority task > k.priority owner then
          propagateFrom start steps owner
            (k.setTaskPriority (k.sched.tasks owner).id (k.priority task))
        else k

/-- `propagate_priority`. -/
def propagatePriority (k : Kernel N) (startTask : Fin N) : Kernel N :=
  propagateFrom startTask N startTask k

/-- The inner loop of `recalculate_priority_chain`, over the mutexes held. -/
def heldPriority (k : Kernel N) : Nat → Option MutexId → Nat → Option Nat
  | _, none, maxPrio => some maxPrio
  | 0, some _, _ => none
  | rounds + 1, some m, maxPrio =>
    let maxPrio :=
      if (k.mutexes m).ceilingPrio > maxPrio then (k.mutexes m).ceilingPrio else maxPrio
    let highestWaiter := k.getHighestWaiter m
    let maxPrio := if highestWaiter > maxPrio then highestWaiter else maxPrio
    heldPriority k rounds (k.mutexes m).nextHeld maxPrio

/-- The loop of `recalculate_priority_chain`. -/
def recalculateFrom (rounds : Nat) : Nat → Fin N → Kernel N → Option (Kernel N)
  | 0, _, k => some k
  | steps + 1, task, k => do
    let maxPrio ← k.heldPriority rounds (k.sched.tasks task).heldMutexes
      (k.sched.tasks task).basePriority
    if maxPrio ≠ k.priority task then
      let k := k.setTaskPriority (k.sched.tasks task).id maxPrio
      match (k.sched.tasks task).waitingOnMutex with
      | none => some k
      | some m =>
        match (k.mutexes m).owner with
        | none => some k
        | some owner => recalculateFrom rounds steps owner k
    else some k

/-- `recalculate_priority_chain`. -/
def recalculatePriorityChain (k : Kernel N) (rounds : Nat) (startTask : Fin N) :
    Option (Kernel N) :=
  recalculateFrom rounds N startTask k

/-- A round of the loop of `wake_highest_waiter`: the mask, and the best waiter so far with its
priority. -/
def wakeRound (k : Kernel N) (s : BitVec 32 × Option (Fin N × Nat)) (i : Fin N) :
    BitVec 32 × Option (Fin N × Nat) :=
  if s.1.getLsbD i then
    match k.getTaskById i with
    | none => (clearBit s.1 i, s.2)
    | some t =>
      if (k.sched.tasks t).state = .suspended ∨ (k.sched.tasks t).state = .sleeping then
        match s.2 with
        | none => (s.1, some (i, k.priority t))
        | some (best, bestPrio) =>
          if k.priority t > bestPrio then (s.1, some (i, k.priority t))
          else (s.1, some (best, bestPrio))
      else (clearBit s.1 i, s.2)
  else s

/-- `wake_highest_waiter`. -/
def wakeHighestWaiter (k : Kernel N) (m : MutexId) : Kernel N :=
  if (k.mutexes m).waitMask = 0#32 then k
  else
    let s := (List.finRange N).foldl k.wakeRound ((k.mutexes m).waitMask, none)
    let k := k.modifyMutex m fun c => { c with waitMask := s.1 }
    match s.2 with
    | none => k
    | some (best, _) => (k.dropWaiter m best).setTaskState best .ready

/-! ## Locking -/

/-- Take a free mutex. -/
def acquire (k : Kernel N) (m : MutexId) (current : Fin N) : Kernel N :=
  let k := k.modifyMutex m fun c =>
    { c with
      locked := true
      owner := some current
      recursiveCount := 1
      nextHeld := (k.sched.tasks current).heldMutexes }
  let k := k.setHeldMutexes current (some m)
  if (k.mutexes m).ceilingPrio > k.priority current then
    k.setTaskPriority (k.sched.tasks current).id (k.mutexes m).ceilingPrio
  else k

/-- Lock once more; the count is a 32-bit word. -/
def relock (k : Kernel N) (m : MutexId) : Kernel N :=
  k.modifyMutex m fun c => { c with recursiveCount := (c.recursiveCount + 1) % 2 ^ 32 }

/-- The first section of `lock`. A null `current` is a call before the scheduler has started. -/
def lockEnter (k : Kernel N) (m : MutexId) (current : Option (Fin N)) : Kernel N × LockResult :=
  if (k.mutexes m).locked = false then
    match current with
    | none =>
      (k.modifyMutex m fun c => { c with locked := true, owner := none, recursiveCount := 1 },
        .acquired)
    | some t => (k.acquire m t, .acquired)
  else if (k.mutexes m).owner ≠ none ∧ (k.mutexes m).owner = current then
    (k.relock m, .acquired)
  else
    match current with
    | none => (k, .failed)
    | some t =>
      if k.checkDeadlock t m then
        ({ k with task := Function.update k.task t { k.task t with errnoVal := edeadlk } }, .failed)
      else
        let waitPrio := k.priority t
        let k := (k.setWaitingOnMutex t (some m)).addWaiter m (k.sched.tasks t).id
        match (k.mutexes m).owner with
        | none => (k, .waits)
        | some owner =>
          if waitPrio > k.priority owner then (k.propagatePriority t, .waits) else (k, .waits)

/-- `get_current_tick() - start_tick`, in 32 bits. -/
def elapsed (k : Kernel N) (startTick : Nat) : Nat :=
  (k.currentTick + (2 ^ 32 - startTick % 2 ^ 32)) % 2 ^ 32

/-- A task stops waiting for a mutex. -/
def stopWaiting (k : Kernel N) (m : MutexId) (current : Fin N) : Kernel N :=
  (k.dropWaiter m (k.sched.tasks current).id).setWaitingOnMutex current none

/-- A section of the loop of `lock`. -/
def lockRetry (k : Kernel N) (rounds : Nat) (m : MutexId) (current : Fin N)
    (timeoutTicks startTick : Nat) : Option (Kernel N × LockResult) :=
  if (k.mutexes m).locked = false then
    some ((k.stopWaiting m current).acquire m current, .acquired)
  else if (k.mutexes m).owner = some current then
    some ((k.stopWaiting m current).relock m, .acquired)
  else if timeoutTicks ≠ lockForever ∧ k.elapsed startTick ≥ timeoutTicks then
    let k := k.stopWaiting m current
    match (k.mutexes m).owner with
    | none => some (k, .failed)
    | some owner => do
      let k ← k.recalculatePriorityChain rounds owner
      return (k, .failed)
  else
    let k := k.addWaiter m (k.sched.tasks current).id
    if timeoutTicks ≠ lockForever then
      let k := k.setSleepTicks current (timeoutTicks - k.elapsed startTick)
      some (k.setTaskState (k.sched.tasks current).id .sleeping, .waits)
    else some (k.setTaskState (k.sched.tasks current).id .suspended, .waits)

/-- Take the mutex out of its owner's list. -/
def unlinkHeld (k : Kernel N) (rounds : Nat) (owner : Fin N) (m : MutexId) : Option (Kernel N) :=
  match (k.sched.tasks owner).heldMutexes with
  | none => some k
  | some head =>
    if head = m then some (k.setHeldMutexes owner (k.mutexes m).nextHeld)
    else do
      let curr ← seek (fun c => (k.mutexes c).nextHeld) (fun c => c ≠ m) rounds head
      if (k.mutexes curr).nextHeld = some m then
        return k.modifyMutex curr fun c => { c with nextHeld := (k.mutexes m).nextHeld }
      else return k

/-- What `unlock` writes once the mutex is out of the list. -/
def release (k : Kernel N) (m : MutexId) : Kernel N :=
  k.modifyMutex m fun c => { c with nextHeld := none, owner := none, locked := false }

/-- The section of `unlock`. -/
def unlock (k : Kernel N) (rounds : Nat) (m : MutexId) (current : Option (Fin N)) :
    Option (Kernel N) :=
  if (k.mutexes m).locked ∧ (k.mutexes m).owner = current then
    let k := k.modifyMutex m fun c =>
      { c with recursiveCount := (c.recursiveCount + (2 ^ 32 - 1)) % 2 ^ 32 }
    if (k.mutexes m).recursiveCount = 0 then
      match current with
      | none => some ((k.release m).wakeHighestWaiter m)
      | some owner => do
        let k ← k.unlinkHeld rounds owner m
        let k ← (k.release m).recalculatePriorityChain rounds owner
        return k.wakeHighestWaiter m
    else some k
  else some k

/-! ## What the sections can do -/

/-- The calling task's `errno`, and nothing else. -/
def setErrno (k : Kernel N) (t : Fin N) (e : Nat) : Kernel N :=
  { k with task := Function.update k.task t { k.task t with errnoVal := e } }

/-- The ways in which the first section of `lock` can end for a task. -/
inductive LockEnter (k : Kernel N) (m : MutexId) (t : Fin N) : Kernel N × LockResult → Prop
  | free (hfree : (k.mutexes m).locked = false) : LockEnter k m t (k.acquire m t, .acquired)
  | own (hlocked : (k.mutexes m).locked = true) (howner : (k.mutexes m).owner = some t) :
      LockEnter k m t (k.relock m, .acquired)
  | deadlock (hlocked : (k.mutexes m).locked = true) (howner : (k.mutexes m).owner ≠ some t)
      (hdead : k.checkDeadlock t m = true) : LockEnter k m t (k.setErrno t edeadlk, .failed)
  | wait (hlocked : (k.mutexes m).locked = true) (howner : (k.mutexes m).owner ≠ some t)
      (hdead : k.checkDeadlock t m = false)
      (hprio : ∀ o, (k.mutexes m).owner = some o → k.priority t ≤ k.priority o) :
      LockEnter k m t ((k.setWaitingOnMutex t (some m)).addWaiter m (k.sched.tasks t).id, .waits)
  | boost (hlocked : (k.mutexes m).locked = true) (howner : (k.mutexes m).owner ≠ some t)
      (hdead : k.checkDeadlock t m = false)
      {o : Fin N} (ho : (k.mutexes m).owner = some o) (hprio : k.priority o < k.priority t) :
      LockEnter k m t
        (((k.setWaitingOnMutex t (some m)).addWaiter m (k.sched.tasks t).id).propagatePriority t,
          .waits)

theorem lockEnter_cases (k : Kernel N) (m : MutexId) (t : Fin N) :
    LockEnter k m t (k.lockEnter m (some t)) := by
  unfold lockEnter
  by_cases hfree : (k.mutexes m).locked = false
  · rw [if_pos hfree]
    exact .free hfree
  · rw [if_neg hfree]
    have hlocked : (k.mutexes m).locked = true := by simpa using hfree
    by_cases hown : (k.mutexes m).owner = some t
    · rw [if_pos ⟨by simp [hown], hown⟩]
      exact .own hlocked hown
    · rw [if_neg fun ho => hown ho.2]
      dsimp only
      by_cases hdead : k.checkDeadlock t m = true
      · rw [if_pos hdead]
        exact .deadlock hlocked hown hdead
      · rw [if_neg hdead]
        have hdead : k.checkDeadlock t m = false := by simpa using hdead
        have howner : (((k.setWaitingOnMutex t (some m)).addWaiter m
            (k.sched.tasks t).id).mutexes m).owner = (k.mutexes m).owner := by
          simp [addWaiter, modifyMutex, setWaitingOnMutex]
        have hprio : ∀ o, ((k.setWaitingOnMutex t (some m)).addWaiter m
            (k.sched.tasks t).id).priority o = k.priority o := by
          intro o
          simp only [priority, addWaiter, modifyMutex, setWaitingOnMutex, Scheduler.tasks_modify]
          split_ifs with ho
          · rw [ho]
          · rfl
        rw [howner]
        cases ho : (k.mutexes m).owner with
        | none => exact .wait hlocked hown hdead (by simp [ho])
        | some o =>
          simp only [hprio]
          split_ifs with hgt
          · exact .boost hlocked hown hdead ho hgt
          · refine .wait hlocked hown hdead fun o' ho' => ?_
            obtain rfl : o = o' := Option.some.inj (ho.symm.trans ho')
            exact not_lt.mp hgt

theorem lockEnter_none_cases (k : Kernel N) (m : MutexId) :
    ((k.mutexes m).locked = false ∧ k.lockEnter m none =
      (k.modifyMutex m fun c => { c with locked := true, owner := none, recursiveCount := 1 },
        .acquired)) ∨
    ((k.mutexes m).locked = true ∧ k.lockEnter m none = (k, .failed)) := by
  unfold lockEnter
  by_cases hfree : (k.mutexes m).locked = false
  · rw [if_pos hfree]
    exact .inl ⟨hfree, rfl⟩
  · rw [if_neg hfree, if_neg fun ho => ho.1 ho.2]
    exact .inr ⟨by simpa using hfree, rfl⟩

/-- The ways in which a section of the loop of `lock` can end. -/
inductive LockRetry (k : Kernel N) (rounds : Nat) (m : MutexId) (t : Fin N)
    (timeoutTicks startTick : Nat) : Kernel N × LockResult → Prop
  | free (hfree : (k.mutexes m).locked = false) :
      LockRetry k rounds m t timeoutTicks startTick ((k.stopWaiting m t).acquire m t, .acquired)
  | own (hlocked : (k.mutexes m).locked = true) (howner : (k.mutexes m).owner = some t) :
      LockRetry k rounds m t timeoutTicks startTick ((k.stopWaiting m t).relock m, .acquired)
  | timeoutUnowned (hlocked : (k.mutexes m).locked = true) (howner : (k.mutexes m).owner = none) :
      LockRetry k rounds m t timeoutTicks startTick (k.stopWaiting m t, .failed)
  | timeout (hlocked : (k.mutexes m).locked = true) (howner : (k.mutexes m).owner ≠ some t)
      {o : Fin N} (ho : (k.mutexes m).owner = some o) {k' : Kernel N}
      (hk' : (k.stopWaiting m t).recalculatePriorityChain rounds o = some k') :
      LockRetry k rounds m t timeoutTicks startTick (k', .failed)
  | sleep (hlocked : (k.mutexes m).locked = true) (howner : (k.mutexes m).owner ≠ some t)
      (n : Nat) : LockRetry k rounds m t timeoutTicks startTick
        (((k.addWaiter m (k.sched.tasks t).id).setSleepTicks t n).setTaskState
          (k.sched.tasks t).id .sleeping, .waits)
  | suspend (hlocked : (k.mutexes m).locked = true) (howner : (k.mutexes m).owner ≠ some t) :
      LockRetry k rounds m t timeoutTicks startTick
        ((k.addWaiter m (k.sched.tasks t).id).setTaskState (k.sched.tasks t).id .suspended, .waits)

theorem lockRetry_cases {k : Kernel N} {rounds : Nat} {m : MutexId} {t : Fin N}
    {timeoutTicks startTick : Nat} {r : Kernel N × LockResult}
    (h : k.lockRetry rounds m t timeoutTicks startTick = some r) :
    LockRetry k rounds m t timeoutTicks startTick r := by
  unfold lockRetry at h
  by_cases hfree : (k.mutexes m).locked = false
  · rw [if_pos hfree] at h
    cases h
    exact .free hfree
  · rw [if_neg hfree] at h
    have hlocked : (k.mutexes m).locked = true := by simpa using hfree
    by_cases hown : (k.mutexes m).owner = some t
    · rw [if_pos hown] at h
      cases h
      exact .own hlocked hown
    · dsimp only at h
      split_ifs at h
      · have howner : ((k.stopWaiting m t).mutexes m).owner = (k.mutexes m).owner := by
          simp [stopWaiting, dropWaiter, modifyMutex, setWaitingOnMutex]
        rw [howner] at h
        cases ho : (k.mutexes m).owner with
        | none =>
          rw [ho] at h
          cases h
          exact .timeoutUnowned hlocked ho
        | some o =>
          rw [ho] at h
          obtain ⟨k', hk', h⟩ := Option.bind_eq_some_iff.mp h
          cases h
          exact .timeout hlocked hown ho hk'
      · cases h
        have hid : (((k.addWaiter m (k.sched.tasks t).id).setSleepTicks t (timeoutTicks -
            (k.addWaiter m (k.sched.tasks t).id).elapsed startTick)).sched.tasks t).id =
            (k.sched.tasks t).id := by
          simp [addWaiter, modifyMutex, setSleepTicks, Scheduler.setSleepTicks,
            Scheduler.tasks_modify]
        rw [hid]
        exact .sleep hlocked hown _
      · cases h
        exact .suspend hlocked hown

/-- The mutex with the count that `unlock` leaves. -/
def countDown (k : Kernel N) (m : MutexId) : Kernel N :=
  k.modifyMutex m fun c => { c with recursiveCount := (c.recursiveCount + (2 ^ 32 - 1)) % 2 ^ 32 }

/-- The ways in which the section of `unlock` can end. -/
inductive Unlock (k : Kernel N) (rounds : Nat) (m : MutexId) (current : Option (Fin N)) :
    Kernel N → Prop
  | ignored (h : ¬ ((k.mutexes m).locked = true ∧ (k.mutexes m).owner = current)) :
      Unlock k rounds m current k
  | counted (h : (k.mutexes m).locked = true ∧ (k.mutexes m).owner = current)
      (hcount : ((k.countDown m).mutexes m).recursiveCount ≠ 0) :
      Unlock k rounds m current (k.countDown m)
  | releasedUnowned (h : (k.mutexes m).locked = true ∧ (k.mutexes m).owner = current)
      (hcount : ((k.countDown m).mutexes m).recursiveCount = 0) (hcurrent : current = none) :
      Unlock k rounds m current (((k.countDown m).release m).wakeHighestWaiter m)
  | released (h : (k.mutexes m).locked = true ∧ (k.mutexes m).owner = current)
      (hcount : ((k.countDown m).mutexes m).recursiveCount = 0) {o : Fin N}
      (hcurrent : current = some o) {k₁ k₂ : Kernel N}
      (hk₁ : (k.countDown m).unlinkHeld rounds o m = some k₁)
      (hk₂ : (k₁.release m).recalculatePriorityChain rounds o = some k₂) :
      Unlock k rounds m current (k₂.wakeHighestWaiter m)

theorem unlock_cases {k k' : Kernel N} {rounds : Nat} {m : MutexId} {current : Option (Fin N)}
    (h : k.unlock rounds m current = some k') : Unlock k rounds m current k' := by
  unfold unlock at h
  by_cases hown : (k.mutexes m).locked ∧ (k.mutexes m).owner = current
  · rw [if_pos hown] at h
    by_cases hcount : ((k.countDown m).mutexes m).recursiveCount = 0
    · have h := (if_pos hcount).symm.trans h
      cases current with
      | none =>
        cases h
        exact .releasedUnowned hown hcount rfl
      | some o =>
        simp only [Option.bind_eq_bind, Option.bind_eq_some_iff] at h
        obtain ⟨k₁, hk₁, k₂, hk₂, h⟩ := h
        cases h
        exact .released hown hcount rfl hk₁ hk₂
    · have h := (if_neg hcount).symm.trans h
      cases h
      exact .counted hown hcount
  · rw [if_neg hown] at h
    cases h
    exact .ignored hown

end Kernel

end AuroraOS
