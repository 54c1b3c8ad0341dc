import AuroraOS.MutexCounts

/-!
# The lifecycle of apps

`AppControlBlock` of `kernel/task/app_lifecycle.hpp` and `Mutex::force_unlock`. A transition writes
the state of the app's task, whatever the task is doing: `FOREGROUND` makes it ready, `SUSPENDED`
unlocks the mutexes it holds and suspends it. The task is not told about either.

`lifecycle_respects_blocking`: if only tasks that hold no mutex are suspended, no two tasks are ever
past a successful `lock` of one mutex; and a transition to `FOREGROUND` makes no task ready that has
terminated or is inside `lock`, `call` or `receive` exactly if it is not requested for such a task.
-/

namespace AuroraOS

open Relation Kernel

variable {N : Nat}

/-! ## Transitions -/

inductive AppState
  | notRunning
  | foreground
  | background
  | suspended
  deriving DecidableEq

/-- The name of the app is left out. -/
structure AppControlBlock where
  tid : Nat
  state : AppState

namespace Kernel

/-- `Mutex::force_unlock`, for an owner that is not null. -/
def forceUnlock (k : Kernel N) (rounds : Nat) (m : MutexId) (targetOwner : Fin N) :
    Option (Kernel N) :=
  if (k.mutexes m).locked ∧ (k.mutexes m).owner = some targetOwner then do
    let k ← k.unlinkHeld rounds targetOwner m
    let k := (k.release m).modifyMutex m fun c => { c with recursiveCount := 0 }
    let k ← k.recalculatePriorityChain rounds targetOwner
    return k.wakeHighestWaiter m
  else some k

/-- The loop over the mutexes that the task holds; the next one is read before the mutex is
unlocked. -/
def forceUnlockAll (rounds : Nat) (target : Fin N) :
    Nat → Option MutexId → Kernel N → Option (Kernel N)
  | _, none, k => some k
  | 0, some _, _ => none
  | n + 1, some m, k => do
    let next := (k.mutexes m).nextHeld
    let k ← k.forceUnlock rounds m target
    forceUnlockAll rounds target n next k

end Kernel

/-- `AppControlBlock::transition_to`. -/
def AppControlBlock.transitionTo (app : AppControlBlock) (rounds : Nat) (newState : AppState)
    (k : Kernel N) : Option (AppControlBlock × Kernel N) :=
  let app := { app with state := newState }
  match k.getTaskById app.tid with
  | none => some (app, k)
  | some t =>
    match newState with
    | .foreground =>
      some (app, (k.setTaskPriority app.tid TaskPriority.realtime).setTaskState app.tid .ready)
    | .background => some (app, k.setTaskPriority app.tid TaskPriority.low)
    | .suspended => do
      let k ← k.forceUnlockAll rounds t rounds (k.sched.tasks t).heldMutexes
      return (app, (k.setHeldMutexes t none).setTaskState app.tid .suspended)
    | .notRunning => some (app, k)

/-! ## Runs -/

/-- The kernel with the calls of `lock` that tasks are in, those that have succeeded and not been
undone, and the apps. -/
structure AppSystem (N : Nat) where
  kernel : Kernel N
  pending : Pending N
  calls : Calls N
  apps : Nat → AppControlBlock

namespace AppSystem

def boot [NeZero N] (apps : Nat → AppControlBlock) : AppSystem N where
  kernel := Kernel.boot
  pending _ := none
  calls _ _ := 0
  apps := apps

/-- A transition of the app `a`. -/
def transition (s : AppSystem N) (rounds a : Nat) (newState : AppState) : Option (AppSystem N) :=
  ((s.apps a).transitionTo rounds newState s.kernel).map fun r =>
    { s with apps := Function.update s.apps a r.1, kernel := r.2 }

/-- The task has terminated, or is inside `lock`, `call` or `receive`. -/
def Blocked (s : AppSystem N) (t : Fin N) : Prop :=
  s.kernel.taskState t = .terminated ∨ s.pending t ≠ none ∨ (s.kernel.ipc t).state.waits

/-- The condition on transitions: a task that is not ready is brought to `FOREGROUND` only if
nothing else keeps it from running, and a task is suspended only if it holds no mutex. -/
def Gentle (s : AppSystem N) (a : Nat) : AppState → Prop
  | .foreground => ∀ t ∈ s.kernel.getTaskById (s.apps a).tid,
    s.kernel.taskState t ≠ .ready → ¬ s.Blocked t
  | .suspended => ∀ t ∈ s.kernel.getTaskById (s.apps a).tid,
    (s.kernel.sched.tasks t).heldMutexes = none
  | .background | .notRunning => True

end AppSystem

/-- A step of a run: a section of `lock` or `unlock`, another operation, or a transition that meets
the condition `ok`. Fewer than `2 ^ 32` calls of `lock` are outstanding, signal handlers leave
mutexes alone, and a slot is given back when its task is past all its calls. -/
inductive AppStep [NeZero N] (ok : AppSystem N → Nat → AppState → Prop) (s : AppSystem N) :
    AppSystem N → Prop
  | mutex (op : MutexOp N) (rounds : Nat) {r : Kernel N × Pending N}
      (hop : op.Enabled (s.kernel, s.pending)) (hcalls : ∀ c m, s.calls c m + 1 < 2 ^ 32)
      (h : op.exec rounds (s.kernel, s.pending) = some r) :
      AppStep ok s
        { s with
          kernel := r.1
          pending := r.2
          calls := (op.event rounds (s.kernel, s.pending)).count s.calls }
  | op (op : Op N) (run : Handlers N) {k' : Kernel N}
      (hrun : ∀ h a b, run h a = some b → b.mutexes = a.mutexes)
      (hfree : ∀ t, op = .freeTask (some t) → s.pending t = none ∧ ∀ m, s.calls (some t) m = 0)
      (h : op.exec run s.kernel = some k') : AppStep ok s { s with kernel := k' }
  | transition (rounds a : Nat) (newState : AppState) {s' : AppSystem N} (hok : ok s a newState)
      (h : s.transition rounds a newState = some s') : AppStep ok s s'

/-! ## What transitions keep -/

namespace AppSystem

variable {s s' : AppSystem N} {rounds a : Nat} {newState : AppState}

/-- A transition that meets the condition unlocks nothing. -/
theorem transition_same (hok : s.Gentle a newState) (h : s.transition rounds a newState = some s') :
    s'.calls = s.calls ∧ s'.kernel.mutexes = s.kernel.mutexes := by
  obtain ⟨⟨app, k'⟩, hk', rfl⟩ := Option.map_eq_some_iff.mp h
  refine ⟨rfl, ?_⟩
  unfold AppControlBlock.transitionTo at hk'
  dsimp only at hk' ⊢
  split at hk'
  · cases hk'
    rfl
  · next t ht =>
    cases newState with
    | foreground | background | notRunning =>
      cases hk'
      rfl
    | suspended =>
      have hheld : (s.kernel.sched.tasks t).heldMutexes = none := hok t ht
      simp only [hheld, forceUnlockAll] at hk'
      cases hk'
      rfl

/-- `FOREGROUND` makes the app's task ready, and touches no other task's state. -/
theorem taskState_foreground (h : s.transition rounds a .foreground = some s') (t : Fin N) :
    s'.kernel.taskState t =
      if s.kernel.getTaskById (s.apps a).tid = some t then .ready else s.kernel.taskState t := by
  obtain ⟨⟨app, k'⟩, hk', rfl⟩ := Option.map_eq_some_iff.mp h
  unfold AppControlBlock.transitionTo at hk'
  dsimp only at hk' ⊢
  split at hk'
  · next hnone =>
    cases hk'
    rw [hnone, if_neg (by simp)]
  · next x hx =>
    cases hk'
    rw [taskState_setTaskState, taskState_setTaskPriority]
    refine if_congr ?_ rfl rfl
    rw [getTaskById_eq_some, setTaskPriority, Scheduler.taskCount_setTaskPriority]

end AppSystem

/-- The counts of the mutexes are those of the callers, and do not wrap. -/
structure AppInv (s : AppSystem N) : Prop where
  counts : Counts s.kernel s.calls
  bound : ∀ c m, s.calls c m < 2 ^ 32

namespace AppInv

variable {s s' : AppSystem N}

theorem boot [NeZero N] (apps : Nat → AppControlBlock) :
    AppInv (AppSystem.boot apps : AppSystem N) := by
  have hfree : ∀ m c, ¬ ((Kernel.boot : Kernel N).hold m).By c := fun m c hby => by cases hby.1
  refine ⟨⟨fun m c => ?_, fun m c hby => absurd hby (hfree m c)⟩,
    fun _ _ => by simp [AppSystem.boot]⟩
  exact (if_neg (hfree m c)).symm

/-- Where no mutex changes, the counts stay. -/
theorem congr (h : AppInv s) (hcalls : s'.calls = s.calls)
    (hmutexes : s'.kernel.mutexes = s.kernel.mutexes) : AppInv s' := by
  have hsame : s'.kernel.hold = s.kernel.hold := hold_congr fun m => by
    rw [hmutexes]
    exact ⟨rfl, rfl, rfl⟩
  refine ⟨?_, fun c m => hcalls ▸ h.bound c m⟩
  rw [hcalls]
  exact h.counts.step (.same hsame)

theorem step [NeZero N] (h : AppInv s) (hstep : AppStep AppSystem.Gentle s s') : AppInv s' := by
  cases hstep with
  | mutex op rounds hop hcalls hexec =>
    refine ⟨h.counts.step (MutexOp.exec_hold hexec), fun c m => ?_⟩
    exact (MutexEvent.count_le ..).trans_lt (hcalls c m)
  | op op run hrun hfree hexec => exact h.congr rfl (mutexes_exec hrun hexec)
  | transition rounds a newState hok htrans =>
    obtain ⟨hcalls, hmutexes⟩ := AppSystem.transition_same hok htrans
    exact h.congr hcalls hmutexes

theorem run [NeZero N] {apps : Nat → AppControlBlock}
    (h : ReflTransGen (AppStep AppSystem.Gentle) (.boot apps) s) : AppInv s := by
  induction h with
  | refl => exact boot apps
  | tail _ hlast ih => exact ih.step hlast

/-- A caller with outstanding calls of a mutex holds it. -/
theorem owner_eq (h : AppInv s) {c : Option (Fin N)} {m : MutexId} (hc : 0 < s.calls c m) :
    (s.kernel.mutexes m).owner = c := by
  have hcount := h.counts.count m c
  rw [Nat.mod_eq_of_lt (h.bound c m)] at hcount
  split_ifs at hcount with hby
  · exact hby.2
  · omega

end AppInv

/-- **Transitions respect what blocks a task.** Along every run that suspends only apps that hold no
mutex, at most one caller is past a successful `lock` of a mutex; and a transition to `FOREGROUND`
makes no task ready that has terminated or is inside `lock`, `call` or `receive` exactly if it meets
the condition. -/
theorem lifecycle_respects_blocking [NeZero N] {apps : Nat → AppControlBlock} {s : AppSystem N}
    (h : ReflTransGen (AppStep AppSystem.Gentle) (.boot apps) s) :
    (∀ m c c', 0 < s.calls c m → 0 < s.calls c' m → c = c') ∧
      ∀ rounds a s', s.transition rounds a .foreground = some s' →
        ((∀ t, s.kernel.taskState t ≠ .ready → s'.kernel.taskState t = .ready → ¬ s.Blocked t) ↔
          s.Gentle a .foreground) := by
  have hinv := AppInv.run h
  refine ⟨fun m c c' hc hc' => (hinv.owner_eq hc).symm.trans (hinv.owner_eq hc'),
    fun rounds a s' hs' => ?_⟩
  have hstate := AppSystem.taskState_foreground hs'
  constructor
  · intro hmade t ht hnot
    exact hmade t hnot ((hstate t).trans (if_pos ht))
  · intro hgentle t hnot hready
    rw [hstate] at hready
    split_ifs at hready with ht
    · exact hgentle t ht hnot
    · exact absurd hready hnot

/-! ## Runs by example -/

/-- The app of each task. -/
def appOf (a : Nat) : AppControlBlock := ⟨a, .notRunning⟩

namespace AppStep

variable {ok : AppSystem 2 → Nat → AppState → Prop} {s : AppSystem 2}

/-- An operation in which no signal handler runs and no slot is given back. -/
theorem of_op (op : Op 2) {k' : Kernel 2} (hop : ∀ t, op ≠ .freeTask (some t))
    (h : op.exec (fun _ _ => none) s.kernel = some k') : AppStep ok s { s with kernel := k' } :=
  .op op _ (by simp) (fun t ht => absurd ht (hop t)) h

theorem created : ReflTransGen (AppStep ok) (.boot appOf)
    { AppSystem.boot appOf with kernel := AuroraOS.twoTasks } :=
  .tail (.single (.of_op (.createTask true 8) (by simp) rfl))
    (.of_op (.createTask true 8) (by simp) rfl)

end AppStep

/-- A task that holds a mutex is suspended, another one takes the mutex, and the first one is
brought to `FOREGROUND`: both are ready, inside their critical sections. And `FOREGROUND` revives a
task that has terminated. -/
theorem suspended_holder_shares_mutex :
    (∃ s : AppSystem 2, ReflTransGen (AppStep fun _ _ _ => True) (.boot appOf) s ∧
      0 < s.calls (some 0) 0 ∧ 0 < s.calls (some 1) 0 ∧ ∀ t, s.kernel.taskState t = .ready) ∧
    ∃ s s' : AppSystem 2, ReflTransGen (AppStep fun _ _ _ => True) (.boot appOf) s ∧
      s.kernel.taskState 1 = .terminated ∧ s.transition 0 1 .foreground = some s' ∧
      s'.kernel.taskState 1 = .ready := by
  constructor
  · refine ⟨_, .tail (.tail (.tail (.tail AppStep.created
      (.mutex (.lock (some 0) lockCall) 4 ?_ ?_ rfl)) (.transition 4 0 .suspended trivial rfl))
      (.mutex (.lock (some 1) lockCall) 4 ?_ ?_ rfl)) (.transition 4 0 .foreground trivial rfl),
      ?_, ?_, ?_⟩
    · decide
    · intro c m
      simp [AppSystem.boot]
    · decide +kernel
    · intro c m
      have hone := MutexEvent.count_le
        ((MutexOp.lock (some 0) lockCall).event 4 (twoTasks, fun _ => none))
        (fun _ _ => 0) c m
      refine lt_of_le_of_lt (Nat.succ_le_succ hone) ?_
      decide
    · decide +kernel
    · decide +kernel
    · decide +kernel
  · refine ⟨_, _, .tail AppStep.created (.of_op (.setTaskState 1 .terminated) (by simp) rfl), ?_,
      rfl, ?_⟩
    · decide
    · decide

/-- The first task holds a mutex, and the app of the second one is brought to `FOREGROUND`: the
first task is the only one past its `lock`. -/
theorem lifecycle_respects_blocking_twoTasks : ∃ s : AppSystem 2,
    ReflTransGen (AppStep AppSystem.Gentle) (.boot appOf) s ∧ 0 < s.calls (some 0) 0 ∧
      (s.apps 1).state = .foreground ∧ ∀ c, 0 < s.calls c 0 → c = some 0 := by
  have hrun : ∃ s : AppSystem 2, ReflTransGen (AppStep AppSystem.Gentle) (.boot appOf) s ∧
      0 < s.calls (some 0) 0 ∧ (s.apps 1).state = .foreground := by
    refine ⟨_, .tail (.tail AppStep.created (.mutex (.lock (some 0) lockCall) 4 ?_ ?_ rfl))
      (.transition 4 1 .foreground ?_ rfl), ?_, ?_⟩
    · decide
    · intro c m
      simp [AppSystem.boot]
    · intro t ht hnot
      obtain rfl : 1 = t := Option.some.inj ht
      exact absurd (by decide +kernel) hnot
    · decide +kernel
    · rfl
  obtain ⟨s, hs, hcalls, hstate⟩ := hrun
  exact ⟨s, hs, hcalls, hstate, fun c hc => (lifecycle_respects_blocking hs).1 0 c
    (some 0) hc hcalls⟩

end AuroraOS
