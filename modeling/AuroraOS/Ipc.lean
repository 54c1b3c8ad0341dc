import AuroraOS.Kernel
import AuroraOS.WaitQueue

/-!
# Endpoints

`class Endpoint` of `kernel/core/ipc.cpp`: `call`, `receive`, `reply`, `cancel_waiter` and
`cancel_all`, each one step under its `IrqGuard`.

A message buffer is an object of its own, so two buffers are the same or do not overlap. A result
`none` is a loop over a wait queue that does not come to an end.
-/

namespace AuroraOS

open Option

variable {N : Nat}

/-- `MAX_IPC_MSG_SIZE`. -/
def maxIpcMsgSize : Nat := 4096

/-- `IPC_TIMEOUT_INFINITE`. -/
def ipcTimeoutInfinite : Nat := 0xFFFFFFFF

/-- `IPC_NONBLOCK`. -/
def ipcNonblock : Nat := 0

/-- `sizeof(IpcRawMessage)`. -/
def rawMessageSize : Nat := 8

/-- The two queues of an endpoint. -/
inductive Side
  | send
  | recv
  deriving DecidableEq

/-- The state of a task that waits in a queue. -/
def Side.state : Side → IpcState
  | .send => .sending
  | .recv => .receiving

def Endpoint.queue (ep : Endpoint N) : Side → WaitQueue N
  | .send => ep.sendQueue
  | .recv => ep.recvQueue

def Endpoint.setQueue (ep : Endpoint N) (side : Side) (q : WaitQueue N) : Endpoint N :=
  match side with
  | .send => { ep with sendQueue := q }
  | .recv => { ep with recvQueue := q }

/-- The 32-bit word at the start of a buffer, least significant byte first. -/
def firstWord (bytes : Nat → UInt8) : Nat :=
  (bytes 0).toNat + 2 ^ 8 * (bytes 1).toNat + 2 ^ 16 * (bytes 2).toNat + 2 ^ 24 * (bytes 3).toNat

/-- How many bytes of a message of `len` bytes go into a buffer of `maxLen`. -/
def copyLen (len maxLen : Nat) : Nat :=
  let n := if len < maxLen then len else maxLen
  if n > maxIpcMsgSize then maxIpcMsgSize else n

/-- `timeout_ticks` as a number of ticks to sleep. -/
def sleepFor (timeout : Nat) : Nat :=
  if timeout = ipcTimeoutInfinite then 0 else timeout

namespace Kernel

/-! ## Queues and messages -/

/-- `blocked_next` of all tasks. -/
def blocked (k : Kernel N) : Blocked N := fun i => (k.ipc i).blockedNext

def queue (k : Kernel N) (e : EndpointId) (side : Side) : WaitQueue N :=
  (k.endpoints e).queue side

/-- Store a wait queue back after an operation on it. -/
def setQueue (k : Kernel N) (e : EndpointId) (side : Side) (next : Blocked N) (q : WaitQueue N) :
    Kernel N :=
  { k with
    ipc := fun i => { k.ipc i with blockedNext := next i }
    endpoints := Function.update k.endpoints e ((k.endpoints e).setQueue side q) }

def priority (k : Kernel N) (i : Fin N) : Nat := (k.sched.tasks i).currentPriority

def enqueue (k : Kernel N) (e : EndpointId) (side : Side) (t : Fin N) : Option (Kernel N) := do
  let (next, q) ← (k.queue e side).enqueue k.priority k.blocked t
  return k.setQueue e side next q

def dequeue (k : Kernel N) (e : EndpointId) (side : Side) : Kernel N × Option (Fin N) :=
  let (next, q, t) := (k.queue e side).dequeue k.blocked
  (k.setQueue e side next q, t)

def remove (k : Kernel N) (e : EndpointId) (side : Side) (t : Fin N) : Option (Kernel N) := do
  let (next, q, _) ← (k.queue e side).remove k.blocked t
  return k.setQueue e side next q

/-- `send_queue_.dequeue_matching_sender`. -/
def dequeueMatchingSender (k : Kernel N) (e : EndpointId) (labelFilter : Nat) :
    Option (Kernel N × Option (Fin N)) := do
  let (next, q, t) ← (k.queue e .send).dequeueMatchingSender (fun i => (k.ipc i).msgType)
    labelFilter k.blocked
  return (k.setQueue e .send next q, t)

/-- `recv_queue_.dequeue_matching_receiver`. -/
def dequeueMatchingReceiver (k : Kernel N) (e : EndpointId) (senderLabel : Nat) :
    Option (Kernel N × Option (Fin N)) := do
  let (next, q, t) ← (k.queue e .recv).dequeueMatchingReceiver (fun i => (k.ipc i).labelFilter)
    senderLabel k.blocked
  return (k.setQueue e .recv next q, t)

/-- Copy `n` bytes from the start of `src` to the start of `dst`. -/
def copyBytes (k : Kernel N) (dst src : Buffer) (n : Nat) : Kernel N :=
  { k with
    memory := Function.update k.memory dst fun i =>
      if i < n then k.memory src i else k.memory dst i }

/-- Copy a message, if there is one and there is room for it: the new state and the number of
bytes copied. -/
def copyMessage (k : Kernel N) (dst src : Option Buffer) (n : Nat) : Kernel N × Nat :=
  match dst, src with
  | some dst, some src => if n > 0 then (k.copyBytes dst src n, n) else (k, 0)
  | _, _ => (k, 0)

/-- The label of a message: the first word of a message long enough to have a header. -/
def messageType (k : Kernel N) (msg : Option Buffer) (len : Nat) : Nat :=
  match msg with
  | some b => if rawMessageSize ≤ len then firstWord (k.memory b) else 0
  | none => 0

/-- Hand a message of `sender` to `receiver`, in `call` and in `receive` alike. -/
def deliver (k : Kernel N) (receiver sender : Fin N) (msg : Option Buffer) (len badge : Nat) :
    Kernel N :=
  let (k, n) := k.copyMessage (k.ipc receiver).msgBuf msg (copyLen len (k.ipc receiver).maxLen)
  let k := k.modifyIpc receiver fun c =>
    { c with
      msgLen := n
      senderId := (k.sched.tasks sender).id
      badge := badge
      msgType := (k.ipc sender).msgType
      state := .ready
      status := .ok
      waitingEndpoint := none }
  let k := k.setSleepTicks receiver 0
  k.modifyIpc sender fun c => { c with receiverId := (k.sched.tasks receiver).id }

/-- The receiver inherits the priority of a more urgent sender. -/
def inherit (k : Kernel N) (receiver sender : Fin N) : Kernel N :=
  if k.priority sender > k.priority receiver then
    k.setTaskPriority (k.sched.tasks receiver).id (k.priority sender)
  else k

/-- The highest priority among `receiver`'s own and those of the tasks that wait for its reply. -/
def receiverPriority (k : Kernel N) (receiver : Fin N) : Nat :=
  (List.finRange N).foldl
    (fun (maxPrio : Nat) (i : Fin N) =>
      if (i : Nat) < k.sched.taskCount ∧ (k.ipc i).state = .replyBlocked ∧
          (k.ipc i).receiverId = (k.sched.tasks receiver).id ∧ k.priority i > maxPrio then
        k.priority i
      else maxPrio)
    (k.sched.tasks receiver).basePriority

/-- `recalculate_receiver_priority`. -/
def recalculateReceiverPriority (k : Kernel N) (receiver : Fin N) : Kernel N :=
  k.setTaskPriority (k.sched.tasks receiver).id (k.receiverPriority receiver)

/-! ## The operations of an endpoint -/

/-- A non-blocking operation that finds no partner. -/
def refuse (k : Kernel N) (t : Fin N) : Kernel N :=
  let k := k.modifyIpc t fun c =>
    { c with state := .ready, status := .wouldBlock, waitingEndpoint := none }
  k.setSleepTicks t 0

/-- What a blocking operation writes before it enters a queue. `note` is what it notes in its
context for its partner. -/
def beginWait (k : Kernel N) (e : EndpointId) (side : Side) (t : Fin N) (timeout : Nat)
    (note : IpcContext N → IpcContext N) : Kernel N :=
  let k := k.modifyIpc t fun c => { note c with state := side.state, waitingEndpoint := some e }
  k.setSleepTicks t (sleepFor timeout)

/-- Wait in a queue of the endpoint, or give up at once if the operation must not block. -/
def await (k : Kernel N) (e : EndpointId) (side : Side) (t : Fin N) (timeout : Nat)
    (note : IpcContext N → IpcContext N) : Option (Kernel N × IpcStatus) :=
  if timeout = ipcNonblock then some (k.refuse t, .wouldBlock)
  else do
    let k ← (k.beginWait e side t timeout note).enqueue e side t
    return (k.setTaskState (k.sched.tasks t).id .blockedOnNotify, .ok)

/-- `Endpoint::call` when a receiver waits. -/
def callReceiver (k : Kernel N) (e : EndpointId) (sender receiver : Fin N) (msg : Option Buffer)
    (len timeout badge : Nat) : Kernel N :=
  let k := k.deliver receiver sender msg len badge
  if timeout = ipcNonblock then
    let k := k.modifyIpc sender fun c => { c with state := .ready, waitingEndpoint := none }
    let k := k.setSleepTicks sender 0
    k.setTaskState (k.sched.tasks receiver).id .ready
  else
    let k := k.modifyIpc sender fun c =>
      { c with state := .replyBlocked, waitingEndpoint := some e }
    let k := k.setSleepTicks sender (sleepFor timeout)
    let k := k.setTaskState (k.sched.tasks sender).id .blockedOnNotify
    let k := k.inherit receiver sender
    k.setTaskState (k.sched.tasks receiver).id .ready

/-- What `Endpoint::call` writes first. -/
def prepareCall (k : Kernel N) (sender : Fin N) (msg : Option Buffer) (len : Nat)
    (replyBuf : Option Buffer) (maxReplyLen badge : Nat) : Kernel N :=
  k.modifyIpc sender fun c =>
    { c with
      replyBuf := replyBuf
      maxLen := maxReplyLen
      status := .ok
      badge := badge
      msgType := k.messageType msg len }

/-- `Endpoint::call`, the sender not being null. -/
def callFrom (k : Kernel N) (e : EndpointId) (sender : Fin N) (msg : Option Buffer) (len : Nat)
    (replyBuf : Option Buffer) (maxReplyLen timeout badge : Nat) :
    Option (Kernel N × IpcStatus) := do
  let k := k.prepareCall sender msg len replyBuf maxReplyLen badge
  let (k, receiver) ← k.dequeueMatchingReceiver e (k.ipc sender).msgType
  match receiver with
  | some receiver => return (k.callReceiver e sender receiver msg len timeout badge, .ok)
  | none => k.await e .send sender timeout fun c => { c with msgBuf := msg, msgLen := len }

/-- `Endpoint::call`. -/
def call (k : Kernel N) (e : EndpointId) (sender : Option (Fin N)) (msg : Option Buffer)
    (len : Nat) (replyBuf : Option Buffer) (maxReplyLen timeout badge : Nat) :
    Option (Kernel N × IpcStatus) :=
  match sender with
  | none => some (k, .invalid)
  | some sender => k.callFrom e sender msg len replyBuf maxReplyLen timeout badge

/-- `Endpoint::receive` when a sender waits. -/
def receiveFrom (k : Kernel N) (receiver sender : Fin N) : Kernel N :=
  let k := k.deliver receiver sender (k.ipc sender).msgBuf (k.ipc sender).msgLen
    (k.ipc sender).badge
  let k := k.modifyIpc sender fun c => { c with state := .replyBlocked }
  let k := k.setTaskState (k.sched.tasks sender).id .blockedOnNotify
  k.inherit receiver sender

/-- What `Endpoint::receive` writes first. -/
def prepareReceive (k : Kernel N) (receiver : Fin N) (msgBuf : Option Buffer)
    (maxLen labelFilter : Nat) : Kernel N :=
  k.modifyIpc receiver fun c =>
    { c with msgBuf := msgBuf, maxLen := maxLen, status := .ok, labelFilter := labelFilter }

/-- `Endpoint::receive`, the receiver not being null. -/
def receiveAt (k : Kernel N) (e : EndpointId) (receiver : Fin N) (msgBuf : Option Buffer)
    (maxLen timeout labelFilter : Nat) : Option (Kernel N × IpcStatus) := do
  let k := k.prepareReceive receiver msgBuf maxLen labelFilter
  let (k, sender) ← k.dequeueMatchingSender e labelFilter
  match sender with
  | some sender => return (k.receiveFrom receiver sender, .ok)
  | none => k.await e .recv receiver timeout id

/-- `Endpoint::receive`. -/
def receive (k : Kernel N) (e : EndpointId) (receiver : Option (Fin N)) (msgBuf : Option Buffer)
    (maxLen timeout labelFilter : Nat) : Option (Kernel N × IpcStatus) :=
  match receiver with
  | none => some (k, .invalid)
  | some receiver => k.receiveAt e receiver msgBuf maxLen timeout labelFilter

/-- `Endpoint::reply` to a sender that waits for it. -/
def replyTo (k : Kernel N) (receiver sender : Fin N) (replyMsg : Option Buffer) (len : Nat) :
    Kernel N :=
  let (k, n) := k.copyMessage (k.ipc sender).replyBuf replyMsg (copyLen len (k.ipc sender).maxLen)
  let k := k.modifyIpc sender fun c =>
    { c with msgLen := n, state := .ready, status := .ok, waitingEndpoint := none }
  let k := k.setSleepTicks sender 0
  let k := k.setTaskState (k.sched.tasks sender).id .ready
  k.recalculateReceiverPriority receiver

/-- `Endpoint::reply`. -/
def reply (k : Kernel N) (receiver : Option (Fin N)) (senderId : Nat) (replyMsg : Option Buffer)
    (len : Nat) : Kernel N × IpcStatus :=
  match receiver with
  | none => (k, .invalid)
  | some receiver =>
    match k.getTaskById senderId with
    | none => (k, .receiverDead)
    | some sender =>
      if (k.ipc sender).state = .replyBlocked ∧
          (k.ipc sender).receiverId = (k.sched.tasks receiver).id then
        (k.replyTo receiver sender replyMsg len, .ok)
      else (k, .invalid)

/-- Recalculate the priority of the task `receiver_id` names, if it names one. -/
def recalculateById (k : Kernel N) (receiverId : Nat) : Kernel N :=
  match k.getTaskById receiverId with
  | none => k
  | some receiver => k.recalculateReceiverPriority receiver

/-- The end of a wait: what `cancel_waiter` does once the task is out of the queues. -/
def endWait (k : Kernel N) (t : Fin N) (reason : IpcStatus) : Kernel N :=
  let k := k.modifyIpc t fun c =>
    { c with waitingEndpoint := none, state := .ready, status := reason }
  let k := k.setSleepTicks t 0
  k.setTaskState (k.sched.tasks t).id .ready

/-- `Endpoint::cancel_waiter`, the task not being null. -/
def cancelWaiter (k : Kernel N) (e : EndpointId) (t : Fin N) (reason : IpcStatus) :
    Option (Kernel N) := do
  let k ← k.remove e .send t
  let k ← k.remove e .recv t
  return if (k.ipc t).state = .replyBlocked then
      (k.endWait t reason).recalculateById (k.ipc t).receiverId
    else k.endWait t reason

/-- The end of a wait in `cancel_all`. -/
def cancelOne (k : Kernel N) (t : Fin N) (reason : IpcStatus) : Kernel N :=
  (k.endWait t reason).modifyIpc t fun c => { c with blockedNext := none }

/-- The loops of `cancel_all` over the send and the receive queue. -/
def drain (e : EndpointId) (side : Side) (reason : IpcStatus) : Nat → Kernel N → Option (Kernel N)
  | fuel, k =>
    match k.dequeue e side with
    | (_, none) => some k
    | (k, some t) =>
      match fuel with
      | 0 => none
      | fuel + 1 =>
        let k := k.cancelOne t reason
        drain e side reason fuel
          (match side with
          | .send => k
          | .recv => k.recalculateReceiverPriority t)

/-- The last loop of `cancel_all`: the tasks that wait for a reply on this endpoint. -/
def cancelReplies (e : EndpointId) (reason : IpcStatus) (k : Kernel N) (i : Fin N) : Kernel N :=
  if (i : Nat) < k.sched.taskCount ∧ (k.ipc i).waitingEndpoint = some e then
    (k.cancelOne i reason).recalculateById (k.ipc i).receiverId
  else k

/-- `Endpoint::cancel_all`. -/
def cancelAll (k : Kernel N) (e : EndpointId) (reason : IpcStatus) : Option (Kernel N) := do
  let k ← drain e .send reason N k
  let k ← drain e .recv reason N k
  return (List.finRange N).foldl (cancelReplies e reason) k

/-! ## What the pieces change -/

section Shapes

variable {k k' : Kernel N} {e : EndpointId} {side : Side} {t : Fin N} {x : Option (Fin N)}

theorem enqueue_cases (h : k.enqueue e side t = some k') :
    ∃ next q, k' = k.setQueue e side next q := by
  simp only [enqueue, bind_eq_bind, bind_eq_some_iff] at h
  obtain ⟨⟨next, q⟩, -, h⟩ := h
  exact ⟨next, q, (some.inj h).symm⟩

theorem remove_cases (h : k.remove e side t = some k') :
    ∃ next q, k' = k.setQueue e side next q := by
  simp only [remove, bind_eq_bind, bind_eq_some_iff] at h
  obtain ⟨⟨next, q, b⟩, -, h⟩ := h
  exact ⟨next, q, (some.inj h).symm⟩

theorem dequeueMatchingSender_cases {filter : Nat}
    (h : k.dequeueMatchingSender e filter = some (k', x)) :
    ∃ next q, k' = k.setQueue e .send next q := by
  simp only [dequeueMatchingSender, bind_eq_bind, bind_eq_some_iff] at h
  obtain ⟨⟨next, q, y⟩, -, h⟩ := h
  exact ⟨next, q, (congrArg Prod.fst (some.inj h)).symm⟩

theorem dequeueMatchingReceiver_cases {label : Nat}
    (h : k.dequeueMatchingReceiver e label = some (k', x)) :
    ∃ next q, k' = k.setQueue e .recv next q := by
  simp only [dequeueMatchingReceiver, bind_eq_bind, bind_eq_some_iff] at h
  obtain ⟨⟨next, q, y⟩, -, h⟩ := h
  exact ⟨next, q, (congrArg Prod.fst (some.inj h)).symm⟩

/-- `cancel_waiter` takes the task out of two queues and ends its wait. -/
theorem cancelWaiter_cases {reason : IpcStatus} (h : k.cancelWaiter e t reason = some k') :
    ∃ next q next' q',
      k' = (((k.setQueue e .send next q).setQueue e .recv next' q').endWait t reason) ∨
      (k.ipc t).state = .replyBlocked ∧
        k' = (((k.setQueue e .send next q).setQueue e .recv next' q').endWait t
          reason).recalculateById (k.ipc t).receiverId := by
  simp only [cancelWaiter, bind_eq_bind, bind_eq_some_iff] at h
  obtain ⟨k₁, h₁, k₂, h₂, h⟩ := h
  obtain ⟨next, q, rfl⟩ := remove_cases h₁
  obtain ⟨next', q', rfl⟩ := remove_cases h₂
  refine ⟨next, q, next', q', ?_⟩
  have h := (some.inj h).symm
  split_ifs at h with hblocked
  · exact .inr ⟨hblocked, h⟩
  · exact .inl h

/-- A reply fails and does nothing, or wakes a sender that waits for a reply of this very
receiver. -/
theorem reply_cases (k : Kernel N) (receiver : Option (Fin N)) (senderId : Nat)
    (msg : Option Buffer) (len : Nat) :
    (∃ st, st ≠ .ok ∧ k.reply receiver senderId msg len = (k, st)) ∨
      ∃ r x, receiver = some r ∧ k.getTaskById senderId = some x ∧
        (k.ipc x).state = .replyBlocked ∧ (k.ipc x).receiverId = (k.sched.tasks r).id ∧
        k.reply receiver senderId msg len = (k.replyTo r x msg len, .ok) := by
  cases receiver with
  | none => exact .inl ⟨.invalid, by decide, rfl⟩
  | some r =>
    cases hx : k.getTaskById senderId with
    | none =>
      left
      exact ⟨.receiverDead, by decide, by simp [reply, hx]⟩
    | some x =>
      by_cases hb : (k.ipc x).state = .replyBlocked ∧
          (k.ipc x).receiverId = (k.sched.tasks r).id
      · right
        exact ⟨r, x, rfl, rfl, hb.1, hb.2, by simp [reply, hx, hb]⟩
      · left
        exact ⟨.invalid, by decide, by simp only [reply, hx, if_neg hb]⟩

end Shapes

section Fields

variable (k : Kernel N)

theorem ipc_modifyIpc (i : Fin N) (f : IpcContext N → IpcContext N) (j : Fin N) :
    (k.modifyIpc i f).ipc j = if j = i then f (k.ipc i) else k.ipc j := by
  simp [modifyIpc, Function.update_apply]

@[simp] theorem frame_modifyIpc (i : Fin N) (f : IpcContext N → IpcContext N) :
    (k.modifyIpc i f).endpoints = k.endpoints ∧ (k.modifyIpc i f).sched = k.sched ∧
      (k.modifyIpc i f).memory = k.memory := ⟨rfl, rfl, rfl⟩

@[simp] theorem frame_setTaskState (id : Nat) (st : TaskState) :
    (k.setTaskState id st).ipc = k.ipc ∧ (k.setTaskState id st).endpoints = k.endpoints ∧
      (k.setTaskState id st).memory = k.memory := ⟨rfl, rfl, rfl⟩

@[simp] theorem frame_setSleepTicks (i : Fin N) (n : Nat) :
    (k.setSleepTicks i n).ipc = k.ipc ∧ (k.setSleepTicks i n).endpoints = k.endpoints ∧
      (k.setSleepTicks i n).memory = k.memory := ⟨rfl, rfl, rfl⟩

@[simp] theorem frame_setQueue (e : EndpointId) (side : Side) (next : Blocked N) (q : WaitQueue N) :
    (k.setQueue e side next q).sched = k.sched ∧ (k.setQueue e side next q).memory = k.memory :=
  ⟨rfl, rfl⟩

@[simp] theorem ipc_setQueue (e : EndpointId) (side : Side) (next : Blocked N)
    (q : WaitQueue N) (i : Fin N) :
    (k.setQueue e side next q).ipc i = { k.ipc i with blockedNext := next i } := rfl

variable (receiver sender : Fin N)

@[simp] theorem frame_inherit :
    (k.inherit receiver sender).ipc = k.ipc ∧
      (k.inherit receiver sender).endpoints = k.endpoints ∧
      (k.inherit receiver sender).memory = k.memory := by
  unfold inherit
  split_ifs <;> exact ⟨rfl, rfl, rfl⟩

@[simp] theorem frame_recalculateReceiverPriority (receiver : Fin N) :
    (k.recalculateReceiverPriority receiver).ipc = k.ipc ∧
      (k.recalculateReceiverPriority receiver).endpoints = k.endpoints ∧
      (k.recalculateReceiverPriority receiver).memory = k.memory := ⟨rfl, rfl, rfl⟩

@[simp] theorem frame_recalculateById (id : Nat) :
    (k.recalculateById id).ipc = k.ipc ∧ (k.recalculateById id).endpoints = k.endpoints ∧
      (k.recalculateById id).memory = k.memory ∧
      (k.recalculateById id).currentTick = k.currentTick ∧
      (k.recalculateById id).task = k.task := by
  unfold recalculateById
  split <;> exact ⟨rfl, rfl, rfl, rfl, rfl⟩

@[simp] theorem frame_copyMessage (dst src : Option Buffer) (n : Nat) :
    (k.copyMessage dst src n).1.ipc = k.ipc ∧
      (k.copyMessage dst src n).1.endpoints = k.endpoints ∧
      (k.copyMessage dst src n).1.sched = k.sched := by
  unfold copyMessage
  split
  · split_ifs <;> exact ⟨rfl, rfl, rfl⟩
  · exact ⟨rfl, rfl, rfl⟩

variable (e : EndpointId)

theorem queue_setQueue (side : Side) (next : Blocked N) (q : WaitQueue N) (e' : EndpointId)
    (side' : Side) :
    (k.setQueue e side next q).queue e' side' =
      if e' = e ∧ side' = side then q else k.queue e' side' := by
  unfold queue setQueue
  by_cases he : e' = e
  · subst he
    cases side <;> cases side' <;> simp [Endpoint.setQueue, Endpoint.queue]
  · simp [he]

theorem ipc_deliver {receiver sender : Fin N} (hne : sender ≠ receiver) (msg : Option Buffer)
    (len badge : Nat) (i : Fin N) :
    (k.deliver receiver sender msg len badge).ipc i =
      if i = sender then { k.ipc sender with receiverId := (k.sched.tasks receiver).id }
      else if i = receiver then
        { k.ipc receiver with
          msgLen := (k.copyMessage (k.ipc receiver).msgBuf msg
            (copyLen len (k.ipc receiver).maxLen)).2
          senderId := (k.sched.tasks sender).id
          badge := badge
          msgType := (k.ipc sender).msgType
          state := .ready
          status := .ok
          waitingEndpoint := none }
      else k.ipc i := by
  have hid : ∀ n, ((k.sched.setSleepTicks receiver n).tasks receiver).id =
      (k.sched.tasks receiver).id := fun n => by
    simp [Scheduler.setSleepTicks, Scheduler.tasks_modify]
  unfold deliver
  simp only [ipc_modifyIpc, frame_copyMessage, frame_modifyIpc, setSleepTicks, hid, if_neg hne]

@[simp] theorem endpoints_deliver (msg : Option Buffer) (len badge : Nat) :
    (k.deliver receiver sender msg len badge).endpoints = k.endpoints := by
  simp [deliver]

theorem ipc_refuse (t i : Fin N) :
    (k.refuse t).ipc i =
      if i = t then { k.ipc t with state := .ready, status := .wouldBlock, waitingEndpoint := none }
      else k.ipc i := by
  simp [refuse, ipc_modifyIpc]

theorem ipc_beginWait (side : Side) (t : Fin N) (timeout : Nat) (note : IpcContext N → IpcContext N)
    (i : Fin N) :
    (k.beginWait e side t timeout note).ipc i =
      if i = t then { note (k.ipc t) with state := side.state, waitingEndpoint := some e }
      else k.ipc i := by
  simp [beginWait, ipc_modifyIpc]

@[simp] theorem priority_setSleepTicks (i : Fin N) (n : Nat) :
    (k.setSleepTicks i n).priority = k.priority := by
  funext j
  simp only [priority, setSleepTicks, Scheduler.setSleepTicks, Scheduler.tasks_modify]
  split_ifs with hj
  · rw [hj]
  · rfl

@[simp] theorem priority_beginWait (side : Side) (t : Fin N) (timeout : Nat)
    (note : IpcContext N → IpcContext N) :
    (k.beginWait e side t timeout note).priority = k.priority := by
  simp only [beginWait, priority_setSleepTicks]
  rfl

theorem ipc_callReceiver (sender receiver : Fin N) (msg : Option Buffer) (len timeout badge : Nat)
    (i : Fin N) :
    (k.callReceiver e sender receiver msg len timeout badge).ipc i =
      if i = sender then
        { (k.deliver receiver sender msg len badge).ipc sender with
          state := if timeout = ipcNonblock then .ready else .replyBlocked
          waitingEndpoint := if timeout = ipcNonblock then none else some e }
      else (k.deliver receiver sender msg len badge).ipc i := by
  unfold callReceiver
  by_cases ht : timeout = ipcNonblock <;> simp [ht, ipc_modifyIpc]

@[simp] theorem endpoints_callReceiver (sender receiver : Fin N) (msg : Option Buffer)
    (len timeout badge : Nat) :
    (k.callReceiver e sender receiver msg len timeout badge).endpoints = k.endpoints := by
  unfold callReceiver
  split_ifs <;> simp

theorem ipc_receiveFrom (i : Fin N) :
    (k.receiveFrom receiver sender).ipc i =
      if i = sender then
        { (k.deliver receiver sender (k.ipc sender).msgBuf (k.ipc sender).msgLen
            (k.ipc sender).badge).ipc sender with state := .replyBlocked }
      else (k.deliver receiver sender (k.ipc sender).msgBuf (k.ipc sender).msgLen
        (k.ipc sender).badge).ipc i := by
  simp [receiveFrom, ipc_modifyIpc]

@[simp] theorem endpoints_receiveFrom :
    (k.receiveFrom receiver sender).endpoints = k.endpoints := by
  simp [receiveFrom]

theorem ipc_endWait (t : Fin N) (reason : IpcStatus) (i : Fin N) :
    (k.endWait t reason).ipc i =
      if i = t then { k.ipc t with waitingEndpoint := none, state := .ready, status := reason }
      else k.ipc i := by
  simp [endWait, ipc_modifyIpc]

@[simp] theorem endpoints_endWait (t : Fin N) (reason : IpcStatus) :
    (k.endWait t reason).endpoints = k.endpoints := rfl

theorem ipc_cancelOne (t : Fin N) (reason : IpcStatus) (i : Fin N) :
    (k.cancelOne t reason).ipc i =
      if i = t then
        { k.ipc t with
          waitingEndpoint := none, state := .ready, status := reason, blockedNext := none }
      else k.ipc i := by
  unfold cancelOne
  rw [ipc_modifyIpc]
  split_ifs with hi
  · simp [ipc_endWait]
  · simp [ipc_endWait, hi]

@[simp] theorem endpoints_cancelOne (t : Fin N) (reason : IpcStatus) :
    (k.cancelOne t reason).endpoints = k.endpoints := rfl

theorem ipc_replyTo (msg : Option Buffer) (len : Nat) (i : Fin N) :
    (k.replyTo receiver sender msg len).ipc i =
      if i = sender then
        { k.ipc sender with
          msgLen := (k.copyMessage (k.ipc sender).replyBuf msg
            (copyLen len (k.ipc sender).maxLen)).2
          state := .ready
          status := .ok
          waitingEndpoint := none }
      else k.ipc i := by
  simp [replyTo, ipc_modifyIpc]

@[simp] theorem endpoints_replyTo (msg : Option Buffer) (len : Nat) :
    (k.replyTo receiver sender msg len).endpoints = k.endpoints := by
  simp [replyTo]

end Fields

end Kernel

end AuroraOS
