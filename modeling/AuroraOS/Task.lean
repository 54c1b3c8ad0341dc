import AuroraOS.Lib.Bitmap

/-!
# Task control blocks and the kernel's shared state

The data model of `kernel/task/task.hpp`, `kernel/core/ipc.hpp` and `kernel/core/mutex.hpp`.

A `TaskControlBlock*` always points into the scheduler's array `tasks[MAX_TASKS]`, so it is an
index `Fin N` here, `none` being the null pointer (and the index `-1`). The array of control
blocks is kept as one array per context (`scheduler`, `ipc`, `security`, `task`), the way the
source composes a control block from modular contexts. Priorities and counters are natural
numbers; bitmaps are 32-bit words.
-/

namespace AuroraOS

instance neZeroTwo : NeZero 2 := ⟨by decide⟩

instance neZeroThree : NeZero 3 := ⟨by decide⟩

/-! ## Scheduling data -/

/-! The values of `enum class TaskPriority : uint8_t`, larger is more urgent. The named levels stop
at 31, but the type holds any byte; a priority is a natural number here. -/

namespace TaskPriority

def idle : Nat := 0

def low : Nat := 4

def realtime : Nat := 31

end TaskPriority

inductive TaskState
  | ready
  | running
  | sleeping
  | blockedOnNotify
  | terminated
  | suspended
  | unallocated
  deriving DecidableEq, Repr

abbrev MutexId := Nat

abbrev EndpointId := Nat

/-- `SchedulerContext`: scheduling and synchronisation state of one task. -/
structure SchedulerContext (N : Nat) where
  state : TaskState
  id : Fin N
  sleepTicks : Nat
  basePriority : Nat
  currentPriority : Nat
  nextReady : Option (Fin N)
  prevReady : Option (Fin N)
  heldMutexes : Option MutexId
  waitingOnMutex : Option MutexId
  deriving DecidableEq

/-- `NUM_PRIORITIES`: one ready list per level. -/
abbrev numPriorities : Nat := 32

/-- The fields of `class Scheduler`. -/
structure Scheduler (N : Nat) where
  tasks : Fin N → SchedulerContext N
  taskCount : Nat
  started : Bool
  readyHead : Fin numPriorities → Option (Fin N)
  readyBitmask : BitVec 32

/-! ## Communication data -/

inductive IpcState
  | ready
  | receiving
  | replyBlocked
  | sending
  deriving DecidableEq, Repr

inductive IpcStatus
  | ok
  | timeout
  | wouldBlock
  | invalid
  | noPermission
  | receiverDead
  deriving DecidableEq, Repr

/-- A non-null `void*` to a message buffer: the buffer it points to. -/
abbrev Buffer := Nat

/-- `IpcContext`: communication state of one task. -/
structure IpcContext (N : Nat) where
  state : IpcState
  status : IpcStatus
  blockedNext : Option (Fin N)
  msgBuf : Option Buffer
  replyBuf : Option Buffer
  msgLen : Nat
  maxLen : Nat
  senderId : Nat
  receiverId : Nat
  badge : Nat
  msgType : Nat
  labelFilter : Nat
  notifyValue : BitVec 32
  notifyPending : Bool
  waitingEndpoint : Option EndpointId
  deriving DecidableEq

/-- `WaitQueue`: the two ends of a list threaded through `blockedNext`. -/
structure WaitQueue (N : Nat) where
  head : Option (Fin N)
  tail : Option (Fin N)
  deriving DecidableEq

structure Endpoint (N : Nat) where
  sendQueue : WaitQueue N
  recvQueue : WaitQueue N
  deriving DecidableEq

/-! ## Signals, mutexes and the rest of a control block -/

/-- A signal handler is known by its address only; what it does is a parameter of the model. -/
abbrev SignalHandler := Nat

structure SignalAction where
  saHandler : Option SignalHandler
  saMask : BitVec 32
  saFlags : BitVec 32
  deriving DecidableEq

/-- `NUM_SIG_ACTIONS`. -/
def numSigActions : Nat := 16

/-- `SecurityContext`, as far as signals need it. -/
structure SecurityContext where
  pendingSignals : BitVec 32
  signalMask : BitVec 32
  sigActions : Nat → SignalAction

/-- `TaskContext`: the thread-local `errno`, and the word at the bottom of the stack that
`stack_canary_ptr` points to (`none` for the null pointer). -/
structure TaskContext where
  errnoVal : Nat
  stackCanary : Option (BitVec 32)
  deriving DecidableEq

/-- The fields of `class Mutex`. -/
structure Mutex (N : Nat) where
  locked : Bool
  owner : Option (Fin N)
  recursiveCount : Nat
  nextHeld : Option MutexId
  waitMask : BitVec 32
  ceilingPrio : Nat
  deriving DecidableEq

/-- Everything the kernel's tasks share: the scheduler, the control blocks' other contexts, the
endpoints and mutexes, the contents of message buffers, `g_current_tcb_ptr`, `g_next_tcb_ptr` and
the timer's tick count. -/
structure Kernel (N : Nat) where
  sched : Scheduler N
  task : Fin N → TaskContext
  ipc : Fin N → IpcContext N
  security : Fin N → SecurityContext
  endpoints : EndpointId → Endpoint N
  mutexes : MutexId → Mutex N
  memory : Buffer → Nat → UInt8
  currentTcb : Option (Fin N)
  nextTcb : Option (Fin N)
  currentTick : Nat

/-! ## Value-initialised contexts

`create_task` constructs a control block anew, all of its fields zero, before it writes some. -/

variable {N : Nat}

def SchedulerContext.zero [NeZero N] : SchedulerContext N where
  state := .ready
  id := 0
  sleepTicks := 0
  basePriority := TaskPriority.idle
  currentPriority := TaskPriority.idle
  nextReady := some 0
  prevReady := some 0
  heldMutexes := none
  waitingOnMutex := none

def IpcContext.zero : IpcContext N where
  state := .ready
  status := .ok
  blockedNext := none
  msgBuf := none
  replyBuf := none
  msgLen := 0
  maxLen := 0
  senderId := 0
  receiverId := 0
  badge := 0
  msgType := 0
  labelFilter := 0
  notifyValue := 0#32
  notifyPending := false
  waitingEndpoint := none

def SecurityContext.zero : SecurityContext where
  pendingSignals := 0#32
  signalMask := 0#32
  sigActions _ := ⟨none, 0#32, 0#32⟩

end AuroraOS
