import AuroraOS.Kernel

/-!
# Choosing the next task

`Scheduler::dispatch_signals` and `Scheduler::schedule` of `kernel/task/task.hpp`.

A signal handler is code outside the kernel, so what it does is the parameter `run`. The frame
scheduler's veto `frame_scheduler_is_task_allowed` is the parameter `allowed`. A result `none`
stands for an access outside an array or a loop without end.
-/

namespace AuroraOS

open Bitmap Links Option

variable {N : Nat}

def sigKill : Nat := 9

/-- `SA_RESETHAND` is bit 0 and `SA_NODEFER` bit 1 of `sa_flags`. -/
def saResetHand : Nat := 0

def saNoDefer : Nat := 1

/-- `sig_actions[sig].sa_handler = nullptr`. -/
def SecurityContext.clearHandler (c : SecurityContext) (sig : Nat) : SecurityContext :=
  let action := { c.sigActions sig with saHandler := none }
  { c with sigActions := Function.update c.sigActions sig action }

namespace Kernel

/-! ## Signal dispatch -/

/-- One handler call: the mask is widened around it, `SA_RESETHAND` is read after it. -/
def callHandler (run : SignalHandler → Nat → Kernel N → Option (Kernel N)) (k : Kernel N)
    (i : Fin N) (sig : Nat) (h : SignalHandler) : Option (Kernel N) := do
  let action := (k.security i).sigActions sig
  let oldMask := (k.security i).signalMask
  let mask := oldMask ||| action.saMask
  let mask := if action.saFlags.getLsbD saNoDefer then mask else setBit mask sig
  let k ← run h sig (k.modifySecurity i fun c => { c with signalMask := mask })
  let k :=
    if ((k.security i).sigActions sig).saFlags.getLsbD saResetHand then
      k.modifySecurity i fun c => c.clearHandler sig
    else k
  return k.modifySecurity i fun c => { c with signalMask := oldMask }

/-- The loop of `dispatch_signals` over the signals still to look at. The flag says that it came to
an end at `SIGKILL`. -/
def dispatchLoop (run : SignalHandler → Nat → Kernel N → Option (Kernel N)) (i : Fin N)
    (pending : BitVec 32) : List Nat → Kernel N → Option (Kernel N × Bool)
  | [], k => some (k, false)
  | sig :: sigs, k =>
    if pending.getLsbD sig then
      if sig ≠ sigKill ∧ (k.security i).signalMask.getLsbD sig then
        -- blocked: put it back
        dispatchLoop run i pending sigs
          (k.modifySecurity i fun c => { c with pendingSignals := setBit c.pendingSignals sig })
      else if sig = sigKill then some (k, true)
      else
        match ((k.security i).sigActions sig).saHandler with
        | none => dispatchLoop run i pending sigs k
        | some h => (k.callHandler run i sig h).bind (dispatchLoop run i pending sigs)
    else dispatchLoop run i pending sigs k

/-- `dispatch_signals` up to the termination of the task, if that is what it comes to. -/
def dispatchPending (run : SignalHandler → Nat → Kernel N → Option (Kernel N)) (k : Kernel N)
    (i : Fin N) : Option (Kernel N × Bool) :=
  let c := k.security i
  let actionable := (c.pendingSignals &&& ~~~c.signalMask) |||
    (c.pendingSignals &&& (1#32 <<< sigKill))
  if c.pendingSignals = 0#32 ∨ actionable = 0#32 then some (k, false)
  else
    dispatchLoop run i c.pendingSignals (List.range' 1 (numSigActions - 1))
      (k.modifySecurity i fun c => { c with pendingSignals := 0#32 })

/-- `Scheduler::dispatch_signals`. -/
def dispatchSignals (run : SignalHandler → Nat → Kernel N → Option (Kernel N)) (k : Kernel N)
    (i : Fin N) : Option (Kernel N) := do
  let (k, killed) ← k.dispatchPending run i
  return if killed then k.setTaskState (k.sched.tasks i).id .terminated else k

end Kernel

namespace Scheduler

/-! ## Selection -/

/-- The time-slice rotation: a ready current task at the head of its list steps behind it. The
list is looked up with the priority as it is, past the array when it exceeds the last level. -/
def rotate (s : Scheduler N) (cur : Fin N) : Option (Scheduler N) :=
  if (s.tasks cur).state = .ready then
    if h : (s.tasks cur).currentPriority < numPriorities then
      let p : Fin numPriorities := ⟨_, h⟩
      if s.readyHead p = some cur then some (s.setReadyHead p (s.tasks cur).nextReady) else some s
    else none
  else some s

/-- The highest allowed level in `mask`, looking at no more than `fuel` levels. -/
def scanAllowed (allowed : Nat → Bool) : Nat → BitVec 32 → Option (Fin numPriorities)
  | 0, _ => none
  | fuel + 1, mask =>
    match findHighestBit mask with
    | none => none
    | some p => if allowed p then some p else scanAllowed allowed fuel (clearBit mask p)

/-- The walk of the second fallback along a list, back to its head or to `-1`. -/
def scanList (s : Scheduler N) (head : Fin N) : Nat → Option (Fin N) → Option (Option (Fin N))
  | _, none => some none
  | 0, some _ => none
  | fuel + 1, some i =>
    if i = head then some none
    else if (s.tasks i).state = .ready then some (some i)
    else scanList s head fuel (s.tasks i).nextReady

/-- The second fallback: the first ready task from the highest level down, or `next`. -/
def scanFallback (s : Scheduler N) (next : Fin N) : Nat → BitVec 32 → Option (Fin N)
  | 0, _ => some next
  | fuel + 1, mask =>
    match findHighestBit mask with
    | none => some next
    | some p =>
      match s.readyHead p with
      | none => none
      | some candidate =>
        if (candidate : Nat) < s.taskCount ∧ (s.tasks candidate).state = .ready then
          some candidate
        else
          match s.scanList candidate N (s.tasks candidate).nextReady with
          | none => none
          | some (some i) => some i
          | some none => scanFallback s next fuel (clearBit mask p)

/-- The task `schedule` settles on, from the rotated lists. -/
def selectNext (allowed : Nat → Bool) (s : Scheduler N) (cur : Fin N) :
    Option (Fin N) := do
  let next ←
    match scanAllowed allowed numPriorities s.readyBitmask with
    | some p => s.readyHead p
    | none => some cur
  -- first fallback: meant for the case that the frame scheduler vetoed every level
  let next ←
    if next = cur ∧ s.readyBitmask.getLsbD TaskPriority.idle then s.readyHead 0 else some next
  if (s.tasks next).state = .ready then some next
  else s.scanFallback next numPriorities s.readyBitmask

end Scheduler

namespace Kernel

/-- The index `schedule` takes for the current task. -/
def currentTaskId [NeZero N] (k : Kernel N) : Fin N :=
  match k.currentTcb with
  | some i => (k.sched.tasks i).id
  | none => 0

/-- `schedule` past the signal dispatch: the new state, and whether a switch was triggered. -/
def reschedule (allowed : Nat → Bool) (k : Kernel N) (cur : Fin N) :
    Option (Kernel N × Bool) := do
  let s ← k.sched.rotate cur
  let next ← s.selectNext allowed cur
  if next = cur then return ({ k with sched := s }, false)
  else return ({ k with sched := s, nextTcb := some next }, true)

/-- `Scheduler::schedule`. -/
def schedule [NeZero N] (run : SignalHandler → Nat → Kernel N → Option (Kernel N))
    (allowed : Nat → Bool) (k : Kernel N) : Option (Kernel N × Bool) :=
  if !k.sched.started ∨ k.sched.taskCount ≤ 1 then some (k, false)
  else
    let cur := k.currentTaskId
    (k.dispatchSignals run cur).bind fun k => k.reschedule allowed cur

/-! ## What the steps can do -/

section Cases

variable {run : SignalHandler → Nat → Kernel N → Option (Kernel N)} {allowed : Nat → Bool}
  {k k' : Kernel N} {P : Kernel N → Prop}

/-- What handlers and changes of security contexts keep, the dispatch of signals keeps. -/
theorem dispatchPending_invariant
    (hsec : ∀ k i f, P k → P (modifySecurity k i f))
    (hrun : ∀ h sig a b, run h sig a = some b → P a → P b) {i : Fin N} {killed : Bool}
    (h : k.dispatchPending run i = some (k', killed)) (hk : P k) : P k' := by
  have hloop : ∀ (pending : BitVec 32) (sigs : List Nat) (k : Kernel N), P k →
      dispatchLoop run i pending sigs k = some (k', killed) → P k' := by
    intro pending sigs
    induction sigs with
    | nil =>
      intro k hk h
      cases h
      exact hk
    | cons sig sigs ih =>
      intro k hk h
      unfold dispatchLoop at h
      split_ifs at h
      · exact ih _ (hsec _ _ _ hk) h
      · cases h
        exact hk
      · split at h
        · exact ih _ hk h
        · rw [bind_eq_some_iff] at h
          obtain ⟨k₁, hcall, h⟩ := h
          refine ih k₁ ?_ h
          simp only [callHandler, bind_eq_bind, bind_eq_some_iff] at hcall
          obtain ⟨k₂, hrun₂, hcall⟩ := hcall
          have h₂ : P k₂ := hrun _ _ _ _ hrun₂ (hsec _ _ _ hk)
          cases hcall
          refine hsec _ _ _ ?_
          split_ifs
          · exact hsec _ _ _ h₂
          · exact h₂
      · exact ih _ hk h
  unfold dispatchPending at h
  dsimp only at h
  split_ifs at h
  · cases h
    exact hk
  · exact hloop _ _ _ (hsec _ _ _ hk) h

/-- `reschedule` rotates a list and may note the task to switch to. -/
theorem reschedule_cases {cur : Fin N} {switched : Bool}
    (h : k.reschedule allowed cur = some (k', switched)) :
    ∃ s next, k.sched.rotate cur = some s ∧ s.selectNext allowed cur = some next ∧
      (next = cur ∧ k' = { k with sched := s } ∧ switched = false ∨
        next ≠ cur ∧ k' = { k with sched := s, nextTcb := some next } ∧ switched = true) := by
  simp only [reschedule, bind_eq_bind, bind_eq_some_iff] at h
  obtain ⟨s, hs, next, hnext, h⟩ := h
  refine ⟨s, next, hs, hnext, ?_⟩
  split_ifs at h with hcur
  · cases h
    exact .inl ⟨hcur, rfl, rfl⟩
  · cases h
    exact .inr ⟨hcur, rfl, rfl⟩

/-- `schedule` dispatches signals, which may terminate the current task, and picks a task. -/
theorem schedule_cases [NeZero N] {switched : Bool}
    (h : k.schedule run allowed = some (k', switched)) :
    (k.sched.started = false ∨ k.sched.taskCount ≤ 1) ∧ k' = k ∧ switched = false ∨
      ∃ k₁ killed, k.dispatchPending run k.currentTaskId = some (k₁, killed) ∧
        (if killed then k₁.setTaskState (k₁.sched.tasks k.currentTaskId).id .terminated
          else k₁).reschedule allowed k.currentTaskId = some (k', switched) := by
  unfold schedule at h
  split_ifs at h with hidle
  · cases h
    exact .inl ⟨by simpa using hidle, rfl, rfl⟩
  · rw [bind_eq_some_iff] at h
    obtain ⟨k₂, hdisp, h⟩ := h
    simp only [dispatchSignals, bind_eq_bind, bind_eq_some_iff] at hdisp
    obtain ⟨⟨k₁, killed⟩, hpend, hk₂⟩ := hdisp
    cases hk₂
    exact .inr ⟨k₁, killed, hpend, h⟩

/-- **The rule for `schedule`.** What handlers, changes of security contexts, the termination of
the current task and the choice of the next one keep, `schedule` keeps. -/
theorem schedule_invariant [NeZero N]
    (hsec : ∀ k i f, P k → P (modifySecurity k i f))
    (hrun : ∀ h sig a b, run h sig a = some b → P a → P b)
    (hkill : ∀ k i, P k → P (setTaskState k (k.sched.tasks i).id .terminated))
    (hpick : ∀ k s cur next, k.sched.rotate cur = some s → P k →
      P { k with sched := s, nextTcb := next })
    {switched : Bool} (h : k.schedule run allowed = some (k', switched)) (hk : P k) : P k' := by
  rcases schedule_cases h with ⟨-, rfl, -⟩ | ⟨k₁, killed, hdisp, hre⟩
  · exact hk
  · have h₁ : P k₁ := dispatchPending_invariant hsec hrun hdisp hk
    have h₂ : P (if killed then k₁.setTaskState (k₁.sched.tasks k.currentTaskId).id .terminated
        else k₁) := by
      split_ifs
      · exact hkill _ _ h₁
      · exact h₁
    obtain ⟨s, next, hrot, -, hk'⟩ := reschedule_cases hre
    rcases hk' with ⟨-, rfl, -⟩ | ⟨-, rfl, -⟩
    · exact hpick _ s k.currentTaskId _ hrot h₂
    · exact hpick _ s k.currentTaskId _ hrot h₂

end Cases

end Kernel

end AuroraOS
