import AuroraOS.MutexEffects

/-!
# Semaphores

`class Semaphore` of `kernel/core/semaphore.cpp`. `wait` consists of a first section under its
`IrqGuard` and of a loop of such sections; `try_wait` and `signal` are one section each. `count_` is
an `int` of 32 bits: counting past the largest one is undefined in the source and wraps here.

`signal` counts and wakes, but does not hand over: the woken task has to find a unit when it runs,
and stays in the mask until then.
-/

namespace AuroraOS

open Bitmap Kernel

variable {N : Nat}

/-- The fields of `class Semaphore`. -/
structure Semaphore where
  count : Int
  waitMask : BitVec 32
  deriving DecidableEq

/-- What a section of `wait` ends with: `wait` returns true or false, or goes on waiting. -/
inductive WaitResult
  | taken
  | failed
  | waits
  deriving DecidableEq

/-- A timeout that never comes. -/
def waitForever : Nat := 0xFFFFFFFF

namespace Semaphore

variable {k : Kernel N} (s : Semaphore) {best : Option (Fin N × Nat)}

/-- The constructor, and `Semaphore::init`. -/
def init (initCount : Int) : Semaphore := ⟨initCount, 0#32⟩

/-- The first section of `wait`. A null `current` is a call before the scheduler has started. -/
def waitEnter (s : Semaphore) (k : Kernel N) (current : Option (Fin N)) : Semaphore × WaitResult :=
  if s.count > 0 then
    let s := { s with count := s.count - 1 }
    match current with
    | none => (s, .taken)
    | some t => ({ s with waitMask := clearBit s.waitMask (k.sched.tasks t).id }, .taken)
  else
    match current with
    | none => (s, .failed)
    | some _ => (s, .waits)

/-- A section of the loop of `wait`. -/
def waitRetry (s : Semaphore) (k : Kernel N) (t : Fin N) (timeoutTicks startTick : Nat) :
    (Kernel N × Semaphore) × WaitResult :=
  let id := (k.sched.tasks t).id
  if s.count > 0 then ((k, ⟨s.count - 1, clearBit s.waitMask id⟩), .taken)
  else if timeoutTicks ≠ waitForever ∧ k.elapsed startTick ≥ timeoutTicks then
    ((k, { s with waitMask := clearBit s.waitMask id }), .failed)
  else
    let s := { s with waitMask := setBit s.waitMask id }
    if timeoutTicks ≠ waitForever then
      let k := k.setSleepTicks t (timeoutTicks - k.elapsed startTick)
      ((k.setTaskState id .sleeping, s), .waits)
    else ((k.setTaskState id .suspended, s), .waits)

/-- `try_wait`. -/
def tryWait (s : Semaphore) : Semaphore × Bool :=
  if s.count > 0 then ({ s with count := s.count - 1 }, true) else (s, false)

/-- A round of the loop of `signal`: the best waiter so far, with its priority. -/
def signalRound (k : Kernel N) (w : BitVec 32) (best : Option (Fin N × Nat)) (i : Fin N) :
    Option (Fin N × Nat) :=
  if w.getLsbD i then
    match k.getTaskById i with
    | none => best
    | some t =>
      if (k.sched.tasks t).state = .suspended ∨ (k.sched.tasks t).state = .sleeping then
        match best with
        | none => some (i, k.priority t)
        | some (b, bestPrio) =>
          if k.priority t > bestPrio then some (i, k.priority t) else some (b, bestPrio)
      else best
  else best

/-- `signal`, up to its call of `schedule`. -/
def signal (s : Semaphore) (k : Kernel N) : Kernel N × Semaphore :=
  let s := { s with count := (s.count + 1).bmod (2 ^ 32) }
  if s.waitMask ≠ 0#32 then
    match (List.finRange N).foldl (signalRound k s.waitMask) none with
    | none => (k, s)
    | some (b, _) => (k.setTaskState b .ready, s)
  else (k, s)

/-! ## What the sections can do -/

/-- The ways in which a section of the loop of `wait` can end. -/
inductive Retry (s : Semaphore) (k : Kernel N) (t : Fin N) :
    (Kernel N × Semaphore) × WaitResult → Prop
  | taken (hcount : s.count > 0) :
      Retry s k t ((k, ⟨s.count - 1, clearBit s.waitMask (k.sched.tasks t).id⟩), .taken)
  | timeout (hcount : s.count ≤ 0) :
      Retry s k t ((k, ⟨s.count, clearBit s.waitMask (k.sched.tasks t).id⟩), .failed)
  | sleep (hcount : s.count ≤ 0) {k' : Kernel N} (hlocks : k'.locks = k.locks)
      (hstate : ∀ u, u ≠ t → k'.taskState u = k.taskState u) :
      Retry s k t ((k', ⟨s.count, setBit s.waitMask (k.sched.tasks t).id⟩), .waits)

theorem waitRetry_cases {t : Fin N} (hid : (k.sched.tasks t).id = t)
    (timeoutTicks startTick : Nat) :
    Retry s k t (s.waitRetry k t timeoutTicks startTick) := by
  have hother : ∀ (k' : Kernel N) st u, u ≠ t → k'.taskState u = k.taskState u →
      (k'.setTaskState (k.sched.tasks t).id st).taskState u = k.taskState u := by
    intro k' st u hu hk'
    rw [taskState_setTaskState, hid, if_neg fun h => hu (Fin.ext h.1), hk']
  unfold waitRetry
  by_cases hcount : s.count > 0
  · rw [if_pos hcount]
    exact .taken hcount
  · have hcount := not_lt.mp hcount
    split_ifs
    · exact .timeout hcount
    · refine .sleep hcount ?_ fun u hu => hother _ _ u hu (taskState_setSleepTicks ..)
      rw [locks_setTaskState, locks_setSleepTicks]
    · exact .sleep hcount (locks_setTaskState ..) fun u hu => hother _ _ u hu rfl

/-- `wait` enters nobody but its caller in the mask. -/
theorem getLsbD_of_waitRetry {s : Semaphore} {t : Fin N} {timeoutTicks startTick j : Nat}
    (hj : j ≠ (k.sched.tasks t).id)
    (h : (s.waitRetry k t timeoutTicks startTick).1.2.waitMask.getLsbD j = true) :
    s.waitMask.getLsbD j = true := by
  unfold waitRetry at h
  split_ifs at h
  · exact getLsbD_of_clearBit h
  · exact getLsbD_of_clearBit h
  · exact getLsbD_of_setBit h hj
  · exact getLsbD_of_setBit h hj

theorem getLsbD_of_waitEnter {s : Semaphore} {current : Option (Fin N)} {j : Nat}
    (h : (s.waitEnter k current).1.waitMask.getLsbD j = true) : s.waitMask.getLsbD j = true := by
  unfold waitEnter at h
  split_ifs at h
  · cases current with
    | none => exact h
    | some t => exact getLsbD_of_clearBit h
  · cases current <;> exact h

theorem waitMask_tryWait : s.tryWait.1.waitMask = s.waitMask := by
  unfold tryWait
  split_ifs <;> rfl

/-- A round finds waiters only, and keeps what has been found. -/
theorem signalRound_spec {w : BitVec 32}
    (hbest : ∀ b p, best = some (b, p) → k.Waiter w b) (i : Fin N) :
    (∀ b p, signalRound k w best i = some (b, p) → k.Waiter w b) ∧
      (best ≠ none ∨ k.Waiter w i → signalRound k w best i ≠ none) := by
  -- a round of the loop of a mutex, which clears bits besides
  have heq : signalRound k w best i = (k.wakeRound (w, best) i).2 := by
    unfold signalRound wakeRound
    split_ifs
    · cases k.getTaskById i with
      | none => rfl
      | some t =>
        dsimp only
        split_ifs
        · cases best <;> dsimp only
          split_ifs <;> rfl
        · rfl
    · rfl
  have hstart : WakeLoop k w (w, best) := ⟨fun _ hu => hu.1, fun _ hj => hj, hbest⟩
  obtain ⟨hround, hfound⟩ := hstart.round i
  rw [heq]
  exact ⟨hround.best, hfound⟩

/-- The loop finds a waiter, if there is one. -/
theorem signalRounds_spec {w : BitVec 32}
    (hbest : ∀ b p, best = some (b, p) → k.Waiter w b) (l : List (Fin N)) :
    (∀ b p, l.foldl (signalRound k w) best = some (b, p) → k.Waiter w b) ∧
      ((best ≠ none ∨ ∃ i ∈ l, k.Waiter w i) → l.foldl (signalRound k w) best ≠ none) :=
  Run.foldl_finds (P := fun best => ∀ b p, best = some (b, p) → k.Waiter w b) (F := (· ≠ none))
    (fun _ i h => signalRound_spec h i) hbest

/-- What `signal` does to the scheduler: it wakes a waiter of the mask if there is one. -/
theorem signal_cases (k : Kernel N) :
    ((s.signal k).1 = k ∧ ∀ u, ¬ k.Waiter s.waitMask u) ∨
      ∃ b : Fin N, k.Waiter s.waitMask b ∧ (s.signal k).1 = k.setTaskState b .ready := by
  unfold signal
  dsimp only
  split_ifs with hzero
  · have hstart : ∀ b p, (none : Option (Fin N × Nat)) = some (b, p) → k.Waiter s.waitMask b := by
      simp
    obtain ⟨hbest, hfound⟩ := signalRounds_spec hstart (List.finRange N)
    split
    · next hnone =>
      exact .inl ⟨rfl, fun u hu => hfound (.inr ⟨u, List.mem_finRange u, hu⟩) hnone⟩
    · next b p hsome => exact .inr ⟨b, hbest b p hsome, rfl⟩
  · rw [not_not] at hzero
    refine .inl ⟨rfl, fun u hu => ?_⟩
    have hbit := hu.1
    rw [hzero] at hbit
    simp at hbit

theorem signal_snd (k : Kernel N) : (s.signal k).2 = ⟨(s.count + 1).bmod (2 ^ 32), s.waitMask⟩ := by
  unfold signal
  dsimp only
  split_ifs
  · split <;> rfl
  · rfl

/-- **What `signal` does**: it counts, and wakes a waiter of the mask if there is one. -/
theorem signal_spec (k : Kernel N) :
    (s.signal k).2 = ⟨(s.count + 1).bmod (2 ^ 32), s.waitMask⟩ ∧
      (s.signal k).1.locks = k.locks ∧
      (((s.signal k).1.taskState = k.taskState ∧ ∀ u, ¬ k.Waiter s.waitMask u) ∨
        ∃ b, k.Waiter s.waitMask b ∧
          (s.signal k).1.taskState = Function.update k.taskState b .ready) := by
  refine ⟨signal_snd s k, ?_⟩
  rcases signal_cases s k with ⟨hk, hnone⟩ | ⟨b, hb, hk⟩
  · rw [hk]
    exact ⟨rfl, .inl ⟨rfl, hnone⟩⟩
  · rw [hk]
    refine ⟨locks_setTaskState .., .inr ⟨b, hb, funext fun u => ?_⟩⟩
    rw [taskState_setTaskState, Function.update_apply]
    refine if_congr ⟨fun hu => Fin.ext hu.1, fun hu => ?_⟩ rfl rfl
    rw [hu]
    exact ⟨rfl, hb.2.2⟩

end Semaphore

end AuroraOS
