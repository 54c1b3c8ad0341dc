import AuroraOS.Ipc
import AuroraOS.Lib.Run

/-!
# Ticks

`Scheduler::tick_update` and `Scheduler::compensate_ticks` of `kernel/task/task.hpp`: the loops
over the task table that check stack canaries, wake sleepers and end waits that have timed out.
-/

namespace AuroraOS

variable {N : Nat}

/-- The states of a task that waits in an IPC operation. -/
def IpcState.waits : IpcState → Bool
  | .ready => false
  | .receiving | .replyBlocked | .sending => true

namespace Kernel

/-- A wait has timed out. -/
def expire (k : Kernel N) (i : Fin N) : Option (Kernel N) :=
  match (k.ipc i).waitingEndpoint with
  | some e => k.cancelWaiter e i .timeout
  | none =>
    let k := k.modifyIpc i fun c => { c with state := .ready, status := .timeout }
    some (k.setTaskState i .ready)

/-- The stack canary of task `i` has been overwritten. -/
def smashed (k : Kernel N) (i : Fin N) : Bool :=
  match (k.task i).stackCanary with
  | none => false
  | some w => w ≠ stackCanary

/-- The body of the loop of `tick_update`. -/
def tickTask (k : Kernel N) (i : Fin N) : Option (Kernel N) :=
  if k.smashed i ∧ (k.sched.tasks i).state ≠ .terminated then
    some (k.setTaskState i .terminated)
  else if (k.sched.tasks i).state = .sleeping then
    let k := k.setSleepTicks i ((k.sched.tasks i).sleepTicks - 1)
    some (if (k.sched.tasks i).sleepTicks = 0 then k.setTaskState i .ready else k)
  else if (k.ipc i).state.waits ∧ (k.sched.tasks i).sleepTicks > 0 then
    let k := k.setSleepTicks i ((k.sched.tasks i).sleepTicks - 1)
    if (k.sched.tasks i).sleepTicks = 0 then k.expire i else some k
  else some k

/-- The body of the loop of `compensate_ticks`. -/
def compensateTask (skipped : Nat) (k : Kernel N) (i : Fin N) : Option (Kernel N) :=
  let ticks := (k.sched.tasks i).sleepTicks
  if (k.sched.tasks i).state = .sleeping ∧ ticks > 0 then
    if ticks > skipped then some (k.setSleepTicks i (ticks - skipped))
    else some ((k.setSleepTicks i 0).setTaskState i .ready)
  else if (k.ipc i).state.waits ∧ ticks > 0 then
    if ticks > skipped then some (k.setSleepTicks i (ticks - skipped))
    else (k.setSleepTicks i 0).expire i
  else some k

/-- The loop over the task table. -/
def forTasks (body : Kernel N → Fin N → Option (Kernel N)) (k : Kernel N) : Option (Kernel N) :=
  (List.finRange N).foldlM
    (fun k (i : Fin N) => if (i : Nat) < k.sched.taskCount then body k i else some k) k

/-- `Scheduler::tick_update`. -/
def tickUpdate (k : Kernel N) : Option (Kernel N) := k.forTasks tickTask

/-- `Scheduler::compensate_ticks`. -/
def compensateTicks (k : Kernel N) (skipped : Nat) : Option (Kernel N) :=
  k.forTasks (compensateTask skipped)

/-! ## What a tick does to one task -/

/-- The effects that one round of either loop can have on its task. Only the loop of `tick_update`
looks at the canaries. -/
inductive TaskTick (canary : Bool) (k : Kernel N) (i : Fin N) : Kernel N → Prop
  | keep : TaskTick canary k i k
  | smash (hc : canary = true) (h : k.smashed i ∧ (k.sched.tasks i).state ≠ .terminated) :
      TaskTick canary k i (k.setTaskState i .terminated)
  | count (n : Nat) : TaskTick canary k i (k.setSleepTicks i n)
  | wake (n : Nat) (h : (k.sched.tasks i).state = .sleeping) :
      TaskTick canary k i ((k.setSleepTicks i n).setTaskState i .ready)
  | expire (n : Nat) {k' : Kernel N} (h : (k.ipc i).state.waits)
      (hk' : (k.setSleepTicks i n).expire i = some k') : TaskTick canary k i k'

section Cases

variable {k k' : Kernel N} {i : Fin N}

theorem tickTask_cases (h : k.tickTask i = some k') : TaskTick true k i k' := by
  unfold tickTask at h
  dsimp only at h
  split_ifs at h with hsmash hsleep _ hwait
  · cases h
    exact .smash rfl hsmash
  · cases h
    exact .wake _ hsleep
  · cases h
    exact .count _
  · exact .expire _ hwait.1 h
  · cases h
    exact .count _
  · cases h
    exact .keep

theorem compensateTask_cases {skipped : Nat} (h : k.compensateTask skipped i = some k') :
    TaskTick false k i k' := by
  unfold compensateTask at h
  dsimp only at h
  split_ifs at h with hsleep _ hwait
  · cases h
    exact .count _
  · cases h
    exact .wake _ hsleep.1
  · cases h
    exact .count _
  · exact .expire _ hwait.1 h
  · cases h
    exact .keep

/-- **The rule for ticks.** What a round keeps for each task below the high-water mark, the loops
keep. -/
theorem forTasks_invariant {P : Kernel N → Prop} {body : Kernel N → Fin N → Option (Kernel N)}
    (hbody : ∀ k k' (i : Fin N), (i : Nat) < k.sched.taskCount → P k → body k i = some k' → P k')
    (h : k.forTasks body = some k') (hk : P k) : P k' := by
  refine Run.foldlM_invariant (fun k₁ i _ k₂ h₁ h₂ => ?_) hk h
  split_ifs at h₂ with hi
  · exact hbody k₁ k₂ i hi h₁ h₂
  · cases h₂
    exact h₁

end Cases

end Kernel

end AuroraOS
