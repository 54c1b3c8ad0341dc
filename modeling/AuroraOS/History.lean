import AuroraOS.IpcRuns

/-!
# The history of messages

What tasks see of the endpoints, as a list of events: calls and receives are issued, a message is
delivered, a receive completes, a reply is copied or rejected, a call ends without a reply. The
history of a run is kept beside the kernel; nothing in the kernel depends on it. `Justified` says
what must have happened before an event may happen, and is the specification of message passing: no
call is delivered twice, no receive gets two messages, the receiver finds the sender's bytes, id,
badge and label, and a reply goes to a call that its receiver has got and that still waits.
-/

namespace AuroraOS

open WaitQueue

variable {N : Nat}

/-! ## Events -/

/-- A call as its sender issued it. The ticket tells it from every other operation. -/
structure CallInfo (N : Nat) where
  ticket : Nat
  sender : Fin N
  msg : Option Buffer
  len : Nat
  replyBuf : Option Buffer
  badge : Nat
  label : Nat

/-- A receive as its receiver issued it. -/
structure ReceiveInfo (N : Nat) where
  ticket : Nat
  receiver : Fin N
  buf : Option Buffer
  maxLen : Nat
  labelFilter : Nat

/-- The contents of all buffers. -/
abbrev Memory := Buffer → Nat → UInt8

/-- What a receiver finds in its context, and the memory before and after the delivery. -/
structure Receipt where
  len : Nat
  senderId : Nat
  badge : Nat
  label : Nat
  before : Memory
  after : Memory

inductive Event (N : Nat)
  | called (c : CallInfo N)
  | listened (r : ReceiveInfo N)
  | delivered (c : CallInfo N) (r : ReceiveInfo N) (got : Receipt)
  | received (r : ReceiveInfo N)
  | replied (c : CallInfo N) (receiver : Fin N) (before after : Memory)
  | rejected (before after : Memory)
  | closed (c : CallInfo N)

namespace Event

/-- The call that an event carries on or ends. -/
def call? : Event N → Option (CallInfo N)
  | delivered c .. | replied c .. | closed c => some c
  | called _ | listened _ | received _ | rejected .. => none

/-- The receive that an event carries on or ends. -/
def receive? : Event N → Option (ReceiveInfo N)
  | delivered _ r _ | received r => some r
  | called _ | listened _ | replied .. | rejected .. | closed _ => none

end Event

/-! ## The specification -/

/-- The receiver got the first bytes of the message, as many as there are and as fit, and nothing
else was written; and it finds the sender's id, badge and label. -/
def Receipt.Matches (got : Receipt) (c : CallInfo N) (r : ReceiveInfo N) : Prop :=
  got.senderId = c.sender ∧ got.badge = c.badge ∧ got.label = c.label ∧
    accepts r.labelFilter c.label = true ∧
    match c.msg, r.buf with
    | some src, some dst => got.len = min (min c.len r.maxLen) maxIpcMsgSize ∧
        ∀ b i, got.after b i = if b = dst ∧ i < got.len then got.before src i else got.before b i
    | _, _ => got.len = 0 ∧ got.after = got.before

/-- The event may follow the history `log`, latest event first. -/
def Event.Justified (log : List (Event N)) : Event N → Prop
  | called c => ∀ c', called c' ∈ log → c'.ticket ≠ c.ticket
  | listened r => ∀ r', listened r' ∈ log → r'.ticket ≠ r.ticket
  | delivered c r got =>
    called c ∈ log ∧ listened r ∈ log ∧ (∀ ev ∈ log, ev.call? ≠ some c) ∧
      (∀ ev ∈ log, ev.receive? ≠ some r) ∧ got.Matches c r
  | received r => (∃ c got, delivered c r got ∈ log) ∧ received r ∉ log
  | replied c receiver before after =>
    (∃ r got, delivered c r got ∈ log ∧ r.receiver = receiver) ∧
      (∀ ev ∈ log, ev.call? = some c → ∃ r got, ev = delivered c r got) ∧
      ∀ b, after b ≠ before b → c.replyBuf = some b
  | rejected before after => after = before
  | closed _ => True

/-- Every event of the history may follow those before it. -/
def History : List (Event N) → Prop
  | [] => True
  | ev :: log => ev.Justified log ∧ History log

/-- The deliveries of a history. -/
def deliveries (log : List (Event N)) : List (CallInfo N × ReceiveInfo N) :=
  log.filterMap fun
    | .delivered c r _ => some (c, r)
    | _ => none

/-! ## Keeping the history -/

/-- The history and, for each task, the last call and the last receive it issued. -/
structure Ghost (N : Nat) where
  next : Nat
  calls : Fin N → CallInfo N
  receives : Fin N → ReceiveInfo N
  log : List (Event N)

namespace Ghost

variable (g : Ghost N) (k k' : Kernel N)

/-- What a step from `k` to `k'` means for a task that waited: if it waits no longer, its receive
has completed, provided its status says so, or its call has ended. -/
def observed (t : Fin N) : Option (Event N) :=
  if (k'.ipc t).state = .ready then
    match (k.ipc t).state with
    | .ready => none
    | .receiving => if (k'.ipc t).status = .ok then some (.received (g.receives t)) else none
    | .sending | .replyBlocked => some (.closed (g.calls t))
  else none

/-- The events of tasks that waited, `skip` apart. -/
def observe (skip : Option (Fin N)) : List (Event N) :=
  (List.finRange N).filterMap fun t => if some t = skip then none else g.observed k k' t

/-- What receiver `r` finds. -/
def receipt (r : Fin N) : Receipt :=
  { len := (k'.ipc r).msgLen, senderId := (k'.ipc r).senderId, badge := (k'.ipc r).badge,
    label := (k'.ipc r).msgType, before := k.memory, after := k'.memory }

/-- A call of `t`. It is delivered if the code takes a receiver from the queue. -/
def afterCall (t : Fin N) (e : EndpointId) (msg : Option Buffer) (len : Nat)
    (replyBuf : Option Buffer) (maxReplyLen badge : Nat) : Ghost N :=
  let c : CallInfo N := ⟨g.next, t, msg, len, replyBuf, badge, k.messageType msg len⟩
  let taken := ((k.prepareCall t msg len replyBuf maxReplyLen badge).dequeueMatchingReceiver e
    c.label).bind Prod.snd
  { next := g.next + 1
    calls := Function.update g.calls t c
    receives := g.receives
    log := g.observe k k' none ++
      (taken.toList.map fun r => .delivered c (g.receives r) (receipt k k' r)) ++
      .called c :: g.log }

/-- A receive of `t`. -/
def afterReceive (t : Fin N) (e : EndpointId) (buf : Option Buffer) (maxLen labelFilter : Nat) :
    Ghost N :=
  let r : ReceiveInfo N := ⟨g.next, t, buf, maxLen, labelFilter⟩
  let taken := ((k.prepareReceive t buf maxLen labelFilter).dequeueMatchingSender e
    labelFilter).bind Prod.snd
  let completed := if (k'.ipc t).state = .ready ∧ (k'.ipc t).status = .ok then [.received r] else []
  { next := g.next + 1
    calls := g.calls
    receives := Function.update g.receives t r
    log := completed ++ g.observe k k' none ++
      (taken.toList.map fun x => .delivered (g.calls x) r (receipt k k' t)) ++
      .listened r :: g.log }

/-- A reply of `r` to the task `x`, once it has succeeded. -/
def afterReply (r x : Fin N) : Ghost N :=
  { g with
    log := g.observe k k' (some x) ++ .replied (g.calls x) r k.memory k'.memory :: g.log }

/-- The history after an operation. -/
def after : Op N → Ghost N
  | .call e (some t) msg len rep maxRep _ badge => g.afterCall k k' t e msg len rep maxRep badge
  | .receive e (some t) buf maxLen _ filter => g.afterReceive k k' t e buf maxLen filter
  | .reply (some r) id msg len =>
    match k.getTaskById id, (k.reply (some r) id msg len).2 with
    | some x, .ok => g.afterReply k k' r x
    | _, _ => { g with log := g.observe k k' none ++ .rejected k.memory k'.memory :: g.log }
  | _ => { g with log := g.observe k k' none ++ g.log }

end Ghost

/-! ## Runs -/

/-- The operations of a run. Only a task in no IPC operation issues one; a wait is cancelled at the
endpoint the task waits at, and with a status that says so. -/
def Op.IsMessageStep (k : Kernel N) : Op N → Prop
  | .call _ t .. | .receive _ t .. | .reply t .. =>
    ∀ i ∈ t, (i : Nat) < k.sched.taskCount ∧ (k.ipc i).state = .ready
  | .cancelWaiter e t reason => (k.ipc t).waitingEndpoint = some e ∧ reason ≠ .ok
  | .cancelAll _ reason => reason ≠ .ok
  | .tickUpdate | .compensateTicks _ => True
  | _ => False

/-- The slots of the task table know their index. -/
def Kernel.Slots (k : Kernel N) : Prop :=
  ∀ i : Fin N, (i : Nat) < k.sched.taskCount → (k.sched.tasks i).id = i
  deriving Decidable

/-- Anything else that happens: buffers are written, tasks are created and scheduled, notified and
signalled. Endpoints and the contexts of waiting tasks stay, notifications apart, and no task starts
to wait. -/
structure Background (k k' : Kernel N) : Prop where
  slots : k'.Slots
  count : k.sched.taskCount ≤ k'.sched.taskCount
  endpoints : k'.endpoints = k.endpoints
  idle : ∀ t, (k.ipc t).state = .ready → (k'.ipc t).state = .ready
  waiting : ∀ t, (k.ipc t).state ≠ .ready → ∃ v b,
    k'.ipc t = { k.ipc t with notifyValue := v, notifyPending := b }

/-- A step of a run, with its history. -/
def MessageStep [NeZero N] (s s' : Kernel N × Ghost N) : Prop :=
  (∃ op : Op N, op.IsMessageStep s.1 ∧ op.exec (fun _ _ => none) s.1 = some s'.1 ∧
      s'.2 = s.2.after s.1 s'.1 op) ∨
    Background s.1 s'.1 ∧ s'.2 = s.2

/-- No task is in an IPC operation, and no message has been sent. -/
structure Quiet (k : Kernel N) (g : Ghost N) : Prop where
  slots : k.Slots
  idle : ∀ t, (k.ipc t).state = .ready
  queues : ∀ e side, k.queue e side = ⟨none, none⟩
  log : g.log = []

end AuroraOS
