import AuroraOS.Task

/-!
# The scheduler's ready lists and task table

`Scheduler::init`, `push_ready`, `remove_ready`, `set_task_state`, `set_task_priority`,
`create_task` and `free_task` of `kernel/task/task.hpp`, as functions on the scheduler's fields.

The bounds checks on `task_index` are carried by the index type. An access to `tasks[-1]`, which
a broken list would lead to, leaves the scheduler as it is; `ReadyList.lean` shows that it never
happens.
-/

namespace AuroraOS

open Bitmap

variable {N : Nat}

/-- The level whose list holds a task of priority `p`: priorities past the last level share it. -/
def readyIndex (p : Nat) : Fin numPriorities :=
  ⟨min p (numPriorities - 1), by unfold numPriorities; omega⟩

theorem readyIndex_of_lt {p : Nat} (h : p < numPriorities) : (readyIndex p : Nat) = p :=
  Nat.min_eq_left (Nat.le_pred_of_lt h)

namespace Scheduler

/-- The list a task belongs to while it is ready. -/
def level (s : Scheduler N) (i : Fin N) : Fin numPriorities :=
  readyIndex (s.tasks i).currentPriority

/-! ## Field updates -/

/-- Update one control block's scheduling context. -/
def modify (s : Scheduler N) (i : Fin N) (f : SchedulerContext N → SchedulerContext N) :
    Scheduler N :=
  { s with tasks := Function.update s.tasks i (f (s.tasks i)) }

def setNextReady (s : Scheduler N) (i : Fin N) (v : Option (Fin N)) : Scheduler N :=
  s.modify i fun c => { c with nextReady := v }

def setPrevReady (s : Scheduler N) (i : Fin N) (v : Option (Fin N)) : Scheduler N :=
  s.modify i fun c => { c with prevReady := v }

def setState (s : Scheduler N) (i : Fin N) (st : TaskState) : Scheduler N :=
  s.modify i fun c => { c with state := st }

def setCurrentPriority (s : Scheduler N) (i : Fin N) (p : Nat) : Scheduler N :=
  s.modify i fun c => { c with currentPriority := p }

def setSleepTicks (s : Scheduler N) (i : Fin N) (n : Nat) : Scheduler N :=
  s.modify i fun c => { c with sleepTicks := n }

def setReadyHead (s : Scheduler N) (p : Fin numPriorities) (v : Option (Fin N)) : Scheduler N :=
  { s with readyHead := Function.update s.readyHead p v }

/-! ## The source's operations -/

/-- `Scheduler::init`. -/
def init (s : Scheduler N) : Scheduler N where
  tasks i := { s.tasks i with nextReady := none, prevReady := none, state := .unallocated }
  taskCount := 0
  started := false
  readyHead _ := none
  readyBitmask := 0#32

/-- `Scheduler::push_ready`: append to the list of the task's priority. -/
def pushReady (s : Scheduler N) (i : Fin N) : Scheduler N :=
  let prio := s.level i
  match s.readyHead prio with
  | none =>
    let s := s.setReadyHead prio (some i)
    let s := s.setNextReady i (some i)
    let s := s.setPrevReady i (some i)
    { s with readyBitmask := setBit s.readyBitmask prio }
  | some head =>
    match (s.tasks head).prevReady with
    | none => s
    | some tail =>
      let s := s.setNextReady tail (some i)
      let s := s.setPrevReady i (some tail)
      let s := s.setNextReady i (some head)
      s.setPrevReady head (some i)

/-- `Scheduler::remove_ready`: unlink from the list of the task's priority, if linked. -/
def removeReady (s : Scheduler N) (i : Fin N) : Scheduler N :=
  let prio := s.level i
  match (s.tasks i).nextReady with
  | none => s
  | some next =>
    let s :=
      if next = i then
        -- the only element
        { s.setReadyHead prio none with readyBitmask := clearBit s.readyBitmask prio }
      else
        match (s.tasks i).prevReady with
        | none => s
        | some prev =>
          let s := s.setNextReady prev (some next)
          let s := s.setPrevReady next (some prev)
          if s.readyHead prio = some i then s.setReadyHead prio (some next) else s
    (s.setNextReady i none).setPrevReady i none

/-- The body of `set_task_state`, past its bounds check. -/
def setTaskStateAt (s : Scheduler N) (i : Fin N) (newState : TaskState) : Scheduler N :=
  if (s.tasks i).state = newState then s
  else
    let s := if (s.tasks i).state = .ready then s.removeReady i else s
    let s := s.setState i newState
    if newState = .ready then s.pushReady i else s

/-- `Scheduler::set_task_state`. -/
def setTaskState (s : Scheduler N) (id : Nat) (newState : TaskState) : Scheduler N :=
  if h : id < N ∧ id < s.taskCount then s.setTaskStateAt ⟨id, h.1⟩ newState else s

/-- The body of `set_task_priority`, past its bounds check. -/
def setTaskPriorityAt (s : Scheduler N) (i : Fin N) (newPrio : Nat) : Scheduler N :=
  if (s.tasks i).currentPriority = newPrio then s
  else if (s.tasks i).state = .ready then
    ((s.removeReady i).setCurrentPriority i newPrio).pushReady i
  else s.setCurrentPriority i newPrio

/-- `Scheduler::set_task_priority`. -/
def setTaskPriority (s : Scheduler N) (id : Nat) (newPrio : Nat) : Scheduler N :=
  if h : id < N ∧ id < s.taskCount then s.setTaskPriorityAt ⟨id, h.1⟩ newPrio else s

/-- The first slot of `tasks` that `create_task` may use. -/
def freeSlot (s : Scheduler N) : Option (Fin N) :=
  (List.finRange N).find? fun i => (s.tasks i).state = .unallocated

/-- The scheduling context `create_task` writes into slot `i`. -/
def newContext (i : Fin N) (prio : Nat) : SchedulerContext N where
  state := .ready
  id := i
  sleepTicks := 0
  basePriority := prio
  currentPriority := prio
  nextReady := none
  prevReady := none
  heldMutexes := none
  waitingOnMutex := none

/-- The scheduler's part of `Scheduler::create_task`, for the free slot `i`. -/
def createAt (s : Scheduler N) (i : Fin N) (prio : Nat) : Scheduler N :=
  let s := if s.taskCount ≤ i then { s with taskCount := i + 1 } else s
  (s.modify i fun _ => newContext i prio).pushReady i

/-- `Scheduler::free_task`. -/
def freeTask (s : Scheduler N) (i : Fin N) : Scheduler N :=
  let s := if (s.tasks i).state = .ready then s.removeReady (s.tasks i).id else s
  s.setState i .unallocated

end Scheduler

end AuroraOS
