import AuroraOS.ReadyList

/-!
# Operations on the shared state

The scheduler's operations of `kernel/task/task.hpp` lifted to the whole kernel, with the contexts
that `create_task` and `send_signal` write beside the scheduler's fields.
-/

namespace AuroraOS

open Bitmap

variable {N : Nat}

/-- `STACK_CANARY`, the word `create_task` puts at the bottom of a stack. -/
def stackCanary : BitVec 32 := 0xDEADBEEF#32

namespace Kernel

/-! ## Field updates -/

def modifyIpc (k : Kernel N) (i : Fin N) (f : IpcContext N → IpcContext N) : Kernel N :=
  { k with ipc := Function.update k.ipc i (f (k.ipc i)) }

def modifySecurity (k : Kernel N) (i : Fin N) (f : SecurityContext → SecurityContext) :
    Kernel N :=
  { k with security := Function.update k.security i (f (k.security i)) }

def setSleepTicks (k : Kernel N) (i : Fin N) (n : Nat) : Kernel N :=
  { k with sched := k.sched.setSleepTicks i n }

/-! ## The scheduler's operations -/

/-- The state after the static constructors and `Scheduler::init`. -/
def boot [NeZero N] : Kernel N where
  sched := Scheduler.init
    { tasks _ := SchedulerContext.zero, taskCount := 0, started := false, readyHead _ := none,
      readyBitmask := 0#32 }
  task _ := ⟨0, none⟩
  ipc _ := IpcContext.zero
  security _ := SecurityContext.zero
  endpoints _ := ⟨⟨none, none⟩, ⟨none, none⟩⟩
  mutexes _ := ⟨false, none, 0, none, 0#32, TaskPriority.idle⟩
  memory _ _ := 0
  currentTcb := none
  nextTcb := none
  currentTick := 0

/-- `Scheduler::set_task_state`. -/
def setTaskState (k : Kernel N) (id : Nat) (st : TaskState) : Kernel N :=
  { k with sched := k.sched.setTaskState id st }

/-- `Scheduler::set_task_priority`. -/
def setTaskPriority (k : Kernel N) (id : Nat) (p : Nat) : Kernel N :=
  { k with sched := k.sched.setTaskPriority id p }

/-- `Scheduler::create_task` for the free slot `i`. `stack` says whether `stack_space` is not
null. -/
def createAt (k : Kernel N) (i : Fin N) (stack : Bool) (prio : Nat) : Kernel N :=
  { k with
    sched := k.sched.createAt i prio
    task := Function.update k.task i ⟨0, if stack then some stackCanary else none⟩
    ipc := Function.update k.ipc i IpcContext.zero
    security := Function.update k.security i SecurityContext.zero }

/-- `Scheduler::create_task`: the new task's slot, if there was a free one. -/
def createTask (k : Kernel N) (stack : Bool) (prio : Nat) : Kernel N × Option (Fin N) :=
  match k.sched.freeSlot with
  | none => (k, none)
  | some i => (k.createAt i stack prio, some i)

/-- `Scheduler::free_task`. -/
def freeTask (k : Kernel N) (tcb : Option (Fin N)) : Kernel N :=
  match tcb with
  | none => k
  | some i => { k with sched := k.sched.freeTask i }

/-- The part of `Scheduler::send_signal` past its argument checks. -/
def signalAt (k : Kernel N) (i : Fin N) (sig : Nat) : Kernel N :=
  let k := k.modifySecurity i fun c => { c with pendingSignals := setBit c.pendingSignals sig }
  if (k.sched.tasks i).state = .sleeping ∨ (k.sched.tasks i).state = .blockedOnNotify then
    k.setTaskState (k.sched.tasks i).id .ready
  else k

/-- `Scheduler::get_task_by_id`. The table has `MAX_TASKS` slots, `task_count` of them in use. -/
def getTaskById (k : Kernel N) (id : Nat) : Option (Fin N) :=
  if h : id < k.sched.taskCount ∧ id < N then some ⟨id, h.2⟩ else none

theorem getTaskById_eq_some {k : Kernel N} {id : Nat} {i : Fin N} :
    k.getTaskById id = some i ↔ (i : Nat) = id ∧ id < k.sched.taskCount := by
  unfold getTaskById
  split_ifs with h
  · rw [Option.some.injEq, Fin.ext_iff]
    exact ⟨fun hi => ⟨hi.symm, h.1⟩, fun hi => hi.1.symm⟩
  · refine iff_of_false (by simp) fun hi => h ⟨hi.2, hi.1 ▸ i.isLt⟩

/-- `Scheduler::send_signal`. -/
def sendSignal (k : Kernel N) (targetId : Nat) (sig : Int) : Kernel N × Bool :=
  match k.getTaskById targetId with
  | none => (k, false)
  | some i =>
    if sig ≤ 0 ∨ 32 ≤ sig then (k, false)
    else if (k.sched.tasks i).state = .terminated then (k, false)
    else (k.signalAt i sig.toNat, true)

end Kernel

end AuroraOS
