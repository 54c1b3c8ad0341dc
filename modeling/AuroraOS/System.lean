import AuroraOS.Schedule
import AuroraOS.Tick

/-!
# The kernel as a transition system

The entry points through which tasks, interrupt handlers and signal handlers change the shared
state, collected in the type `Op`, and what each of them does. `SYS_KILL` is from
`kernel/core/syscall_dispatcher.cpp`, `TaskNotify::give` from `kernel/task/task_notify.hpp`, the
expiry of a process timer from `kernel/core/process_timer.cpp`, and the memory-fault handler from
`boot/interrupts.cpp`.
-/

namespace AuroraOS

open Bitmap

variable {N : Nat}

/-- What signal handlers do: the handler and the signal give the change of state. -/
abbrev Handlers (N : Nat) := SignalHandler × Nat → Kernel N → Option (Kernel N)

namespace TimerFlags

/-- `NotifySignal` is bit 4, `NotifyIpc` bit 5 and `NotifyEvent` bit 6 of a timer's `flags`. -/
def notifySignal : Nat := 4

def notifyIpc : Nat := 5

def notifyEvent : Nat := 6

/-- The timer notifies its owner and does not send it a signal. -/
def Notifies (flags : BitVec 32) : Prop :=
  flags.getLsbD notifySignal = false ∧
    (flags.getLsbD notifyIpc = true ∨ flags.getLsbD notifyEvent = true)
  deriving Decidable

end TimerFlags

def sigAlrm : Nat := 14

namespace Kernel

/-! ## Entry points outside the scheduler and the endpoints -/

/-- `SyscallDispatcher::handle_kill`, once there is a current task. Unlike `send_signal` it does
not look whether the target has terminated. -/
def handleKill (k : Kernel N) (targetId : Nat) (sig : Int) : Kernel N × Bool :=
  if sig < 1 ∨ 16 ≤ sig then (k, false)
  else
    match k.getTaskById targetId with
    | none => (k, false)
    | some i => (k.signalAt i sig.toNat, true)

section Cases

variable {P : Kernel N → Prop} {k : Kernel N} {id : Nat} {sig : Int} (hsame : P k)

include hsame

theorem sendSignal_cases (hsent : ∀ i, k.getTaskById id = some i → (i : Nat) < k.sched.taskCount →
    0 < sig ∧ sig < 32 → P (k.signalAt i sig.toNat)) : P (k.sendSignal id sig).1 := by
  unfold sendSignal
  split
  · exact hsame
  · next i hi =>
    obtain ⟨hid, hlt⟩ := getTaskById_eq_some.mp hi
    split_ifs with hsig
    · exact hsame
    · exact hsame
    · exact hsent i hi (hid ▸ hlt) (by omega)

theorem handleKill_cases (hsent : ∀ i, k.getTaskById id = some i → (i : Nat) < k.sched.taskCount →
    1 ≤ sig ∧ sig < 16 → P (k.signalAt i sig.toNat)) : P (k.handleKill id sig).1 := by
  unfold handleKill
  split_ifs with hsig
  · exact hsame
  · split
    · exact hsame
    · next i hi =>
      obtain ⟨hid, hlt⟩ := getTaskById_eq_some.mp hi
      exact hsent i hi (hid ▸ hlt) (by omega)

end Cases

/-- Set notification bits of a task. -/
def notify (k : Kernel N) (i : Fin N) (val : BitVec 32) : Kernel N :=
  k.modifyIpc i fun c => { c with notifyValue := c.notifyValue ||| val, notifyPending := true }

/-- `TaskNotify::give`. -/
def give [NeZero N] (run : Handlers N) (allowed : Nat → Bool) (k : Kernel N) (targetId : Nat)
    (val : BitVec 32) (yield : Bool) : Option (Kernel N) :=
  match k.getTaskById targetId with
  | none => some k
  | some i =>
    let k := k.notify i val
    if (k.sched.tasks i).state = .blockedOnNotify then
      let k := k.setTaskState (k.sched.tasks i).id .ready
      if yield then (k.schedule (fun h sig => run (h, sig)) allowed).map Prod.fst else some k
    else some k

/-- A notification is noted; a task it finds blocked is woken, and may be switched to at once. -/
theorem give_cases [NeZero N] {run : Handlers N} {allowed : Nat → Bool} {k k' : Kernel N}
    {id : Nat} {val : BitVec 32} {yield : Bool} (h : k.give run allowed id val yield = some k') :
    k' = k ∨ ∃ i, k.getTaskById id = some i ∧
      (k' = k.notify i val ∨ (k.sched.tasks i).state = .blockedOnNotify ∧
        let woken := (k.notify i val).setTaskState (k.sched.tasks i).id .ready
        (k' = woken ∨
          ∃ switched, woken.schedule (fun h sig => run (h, sig)) allowed =
            some (k', switched))) := by
  unfold give at h
  split at h
  · cases h
    exact .inl rfl
  · next i hi =>
    refine .inr ⟨i, hi, ?_⟩
    dsimp only at h
    split_ifs at h with hblocked
    · obtain ⟨⟨k₁, switched⟩, hs, rfl⟩ := Option.map_eq_some_iff.mp h
      exact .inr ⟨hblocked, .inr ⟨switched, hs⟩⟩
    · cases h
      exact .inr ⟨hblocked, .inl rfl⟩
    · cases h
      exact .inl rfl

/-- Notify the owner of a timer and wake it, if it is suspended or asleep. -/
def notifyOwner (k : Kernel N) (owner : Nat) (val : BitVec 32) : Kernel N :=
  match k.getTaskById owner with
  | none => k
  | some i =>
    let k := k.notify i val
    if (k.sched.tasks i).state = .suspended ∨ (k.sched.tasks i).state = .sleeping then
      k.setTaskState (k.sched.tasks i).id .ready
    else k

/-- What `ProcessTimerManager::on_tick` does for the expired timer in slot `index`. -/
def timerExpiry (k : Kernel N) (index owner : Nat) (flags param : BitVec 32) : Kernel N :=
  if flags.getLsbD TimerFlags.notifySignal then
    (k.sendSignal owner (if param ≠ 0#32 then param.toInt else sigAlrm)).1
  else if flags.getLsbD TimerFlags.notifyIpc then
    k.notifyOwner owner (1#32 <<< (param.toNat % 32))
  else if flags.getLsbD TimerFlags.notifyEvent then
    k.notifyOwner owner (if param ≠ 0#32 then param else 1#32 <<< index)
  else (k.sendSignal owner sigAlrm).1

/-- An expired timer sends a signal or, if its flags say so, a notification. -/
theorem timerExpiry_cases (k : Kernel N) (index owner : Nat) (flags param : BitVec 32) :
    (∃ sig, k.timerExpiry index owner flags param = (k.sendSignal owner sig).1) ∨
      TimerFlags.Notifies flags ∧
        ∃ val, k.timerExpiry index owner flags param = k.notifyOwner owner val := by
  unfold timerExpiry
  by_cases hsignal : flags.getLsbD TimerFlags.notifySignal
  · rw [if_pos hsignal]
    exact .inl ⟨_, rfl⟩
  · rw [if_neg hsignal]
    have hsignal : flags.getLsbD TimerFlags.notifySignal = false := by simpa using hsignal
    by_cases hipc : flags.getLsbD TimerFlags.notifyIpc
    · rw [if_pos hipc]
      exact .inr ⟨⟨hsignal, .inl hipc⟩, _, rfl⟩
    · rw [if_neg hipc]
      by_cases hevent : flags.getLsbD TimerFlags.notifyEvent
      · rw [if_pos hevent]
        exact .inr ⟨⟨hsignal, .inr hevent⟩, _, rfl⟩
      · rw [if_neg hevent]
        exact .inl ⟨_, rfl⟩

/-- `MemManage_Handler`: the state is written without `set_task_state`. -/
def memManage [NeZero N] (run : Handlers N) (allowed : Nat → Bool) (k : Kernel N) :
    Option (Kernel N) :=
  let k :=
    match k.currentTcb with
    | none => k
    | some i => { k with sched := k.sched.setState i .terminated }
  (k.schedule (fun h sig => run (h, sig)) allowed).map Prod.fst

end Kernel

/-! ## Operations -/

/-- The calls that change the shared state. -/
inductive Op (N : Nat)
  | createTask (stack : Bool) (prio : Nat)
  | setTaskState (id : Nat) (newState : TaskState)
  | setTaskPriority (id newPrio : Nat)
  | freeTask (tcb : Option (Fin N))
  | sendSignal (targetId : Nat) (sig : Int)
  | handleKill (targetId : Nat) (sig : Int)
  | give (targetId : Nat) (val : BitVec 32) (yield : Bool) (allowed : Nat → Bool)
  | timerExpiry (index owner : Nat) (flags param : BitVec 32)
  | tickUpdate
  | compensateTicks (skipped : Nat)
  | schedule (allowed : Nat → Bool)
  | memManage (allowed : Nat → Bool)
  | call (e : EndpointId) (sender : Option (Fin N)) (msg : Option Buffer) (len : Nat)
      (replyBuf : Option Buffer) (maxReplyLen timeout badge : Nat)
  | receive (e : EndpointId) (receiver : Option (Fin N)) (msgBuf : Option Buffer)
      (maxLen timeout labelFilter : Nat)
  | reply (receiver : Option (Fin N)) (senderId : Nat) (replyMsg : Option Buffer) (len : Nat)
  | cancelWaiter (e : EndpointId) (t : Fin N) (reason : IpcStatus)
  | cancelAll (e : EndpointId) (reason : IpcStatus)

/-- What an operation does, signal handlers behaving as `run` says. -/
def Op.exec [NeZero N] (run : Handlers N) : Op N → Kernel N → Option (Kernel N)
  | .createTask stack prio, k => some (k.createTask stack prio).1
  | .setTaskState id st, k => some (k.setTaskState id st)
  | .setTaskPriority id p, k => some (k.setTaskPriority id p)
  | .freeTask tcb, k => some (k.freeTask tcb)
  | .sendSignal id sig, k => some (k.sendSignal id sig).1
  | .handleKill id sig, k => some (k.handleKill id sig).1
  | .give id val yield allowed, k => k.give run allowed id val yield
  | .timerExpiry index owner flags param, k => some (k.timerExpiry index owner flags param)
  | .tickUpdate, k => k.tickUpdate
  | .compensateTicks n, k => k.compensateTicks n
  | .schedule allowed, k => (k.schedule (fun h sig => run (h, sig)) allowed).map Prod.fst
  | .memManage allowed, k => k.memManage run allowed
  | .call e t msg len rep maxRep timeout badge, k =>
    (k.call e t msg len rep maxRep timeout badge).map Prod.fst
  | .receive e t buf maxLen timeout filter, k =>
    (k.receive e t buf maxLen timeout filter).map Prod.fst
  | .reply t id msg len, k => some (k.reply t id msg len).1
  | .cancelWaiter e t reason, k => k.cancelWaiter e t reason
  | .cancelAll e reason, k => k.cancelAll e reason

/-- The state after a list of operations, no signal handler coming back. -/
def Op.execAll [NeZero N] (ops : List (Op N)) (k : Kernel N) : Option (Kernel N) :=
  ops.foldlM (fun k op => op.exec (fun _ _ => none) k) k

/-- A system of two tasks, in no IPC operation, for runs by example. -/
def twoTasks : Kernel 2 := ((Kernel.boot.createTask true 8).1.createTask true 8).1

end AuroraOS
