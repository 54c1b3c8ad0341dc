import AuroraOS.Parked

/-!
# Endpoints along runs

The queues of the endpoints and the scheduler's states along every run of endpoint operations,
ticks, signals and notifications, as long as no signal or notification reaches a task inside an IPC
operation. A signal that does leaves the task ready and queued at once.
-/

namespace AuroraOS

open Run WaitQueue Option Kernel

variable {N : Nat}

/-! ## Ticks end waits -/

namespace QueueInv

variable {k k' : Kernel N} {L : Waiting N} {t : Fin N}

variable (h : QueueInv k L)

include h

theorem setSched (s : Scheduler N) (reason : IpcStatus) :
    QueueInv { k with sched := s } L ∧ Releases reason k L { k with sched := s } L :=
  ⟨h.congr rfl fun _ => ⟨rfl, rfl, rfl⟩, .of_ipc_eq rfl (fun _ => rfl) fun _ => ⟨rfl, rfl⟩⟩

theorem endpoint_eq {e e' : EndpointId} {side : Side}
    (he : (k.ipc t).waitingEndpoint = some e) (ht : t ∈ L e' side) : e' = e :=
  some.inj (((h.mem _ _ _).mp ht).2.symm.trans he)

theorem expire (hk' : k.expire t = some k') :
    ∃ L', QueueInv k' L' ∧ Releases .timeout k L k' L' := by
  unfold Kernel.expire at hk'
  cases hw : (k.ipc t).waitingEndpoint with
  | some e =>
    rw [hw] at hk'
    exact Run.of_exists (h.cancelWaiter (fun _ _ => h.endpoint_eq hw) .timeout) hk'
  | none =>
    have hout : ∀ e side, t ∉ L e side := fun e side ht => by
      cases ((h.mem _ _ _).mp ht).2.symm.trans hw
    rw [hw] at hk'
    cases hk'
    have hother : ∀ x, x ≠ t → (k.modifyIpc t fun c =>
        { c with state := .ready, status := .timeout }).ipc x = k.ipc x := fun x hx => by
      rw [ipc_modifyIpc, if_neg hx]
    have hself : (k.modifyIpc t fun c => { c with state := .ready, status := .timeout }).ipc t =
        { k.ipc t with state := .ready, status := .timeout } := by
      rw [ipc_modifyIpc, if_pos rfl]
    refine ⟨L, h.modify hout rfl hother fun e side hwait => ?_,
      .single (t := t) rfl (fun _ _ => List.Sublist.refl _) (fun x => ?_) (fun x hx => ?_) ?_⟩
    · have := hwait.2
      rw [(frame_setTaskState ..).1, hself] at this
      cases hw.symm.trans this
    · by_cases hx : x = t
      · simp [hx, hself, IpcContext.message]
      · simp [hother x hx]
    · simp [hother x hx]
    · simp [hself]

theorem expireAfter (n : Nat) (hk' : (k.setSleepTicks t n).expire t = some k') :
    ∃ L', QueueInv k' L' ∧ Releases .timeout k L k' L' := by
  obtain ⟨h₁, hrel₁⟩ := h.setSched (k.sched.setSleepTicks t n) .timeout
  obtain ⟨L', h', hrel⟩ := h₁.expire hk'
  exact ⟨L', h', hrel₁.trans hrel⟩

theorem taskTick {c : Bool} (hk' : Kernel.TaskTick c k t k') :
    ∃ L', QueueInv k' L' ∧ Releases .timeout k L k' L' := by
  cases hk' with
  | keep => exact ⟨L, h, .refl .timeout k L⟩
  | smash => exact ⟨L, h.setSched _ _⟩
  | count n => exact ⟨L, h.setSched _ _⟩
  | wake n => exact ⟨L, h.setSched _ _⟩
  | expire n _ hk' => exact h.expireAfter n hk'

/-- **Ticks keep the queues.** -/
theorem forTasks {c : Bool} {body : Kernel N → Fin N → Option (Kernel N)}
    (hbody : ∀ {k k' : Kernel N} {i : Fin N}, body k i = some k' → Kernel.TaskTick c k i k')
    (hk' : k.forTasks body = some k') : ∃ L', QueueInv k' L' ∧ Releases .timeout k L k' L' := by
  refine forTasks_invariant (P := fun k' => ∃ L', QueueInv k' L' ∧ Releases .timeout k L k' L')
    (fun k₁ k₂ i _ h₁ h₂ => ?_) hk' ⟨L, h, .refl .timeout k L⟩
  obtain ⟨L₁, hinv₁, hrel₁⟩ := h₁
  obtain ⟨L₂, hinv₂, hrel₂⟩ := hinv₁.taskTick (hbody h₂)
  exact ⟨L₂, hinv₂, hrel₁.trans hrel₂⟩

end QueueInv

/-! ## The invariant of a run -/

/-- The queues hold the waiting tasks, and no waiting task is ready. -/
structure IpcInv (k : Kernel N) : Prop where
  parked : Parked k
  queues : ∃ L, QueueInv k L

namespace IpcInv

variable {k k' : Kernel N} {t : Fin N}

theorem setSched (h : IpcInv k) {s : Scheduler N} (hp : Parked { k with sched := s }) :
    IpcInv { k with sched := s } := by
  obtain ⟨L, hL⟩ := h.queues
  exact ⟨hp, L, (hL.setSched s .ok).1⟩

theorem congr (h : IpcInv k) (hp : Parked k') (hipc : k'.ipc = k.ipc)
    (hends : k'.endpoints = k.endpoints) : IpcInv k' := by
  obtain ⟨L, hL⟩ := h.queues
  exact ⟨hp, L, hL.congr hends fun x => by simp [hipc]⟩

variable {e : EndpointId}

section

variable (h : IpcInv k)

include h

theorem of_isReady (ht : k.sched.IsReady t) :
    (k.ipc t).state = .ready ∧ (t : Nat) < k.sched.taskCount := by
  have hstate : k.taskState t = .ready := ht
  exact ⟨h.parked.idle_of_state (by rw [hstate]; decide),
    h.parked.table.lt_of_state (by rw [show _ = _ from ht]; decide)⟩

theorem call (ht : k.sched.IsReady t) {msg : Option Buffer} {len : Nat}
    {rep : Option Buffer} {maxRep timeout badge : Nat} {st : IpcStatus}
    (hk' : k.callFrom e t msg len rep maxRep timeout badge = some (k', st)) : IpcInv k' := by
  obtain ⟨L, hL⟩ := h.queues
  obtain ⟨hidle, hlt⟩ := h.of_isReady ht
  obtain ⟨L', hout, hinv⟩ := Run.of_exists_pair (hL.callFrom hidle) hk'
  refine ⟨(h.parked.prepareCall msg len rep maxRep badge).call
    (hL.prepareCall msg len rep maxRep badge) hlt ?_ hout, L', hinv⟩
  rw [prepareCall, ipc_modifyIpc, if_pos rfl]
  exact hidle

theorem receive (ht : k.sched.IsReady t) {buf : Option Buffer}
    {maxLen timeout filter : Nat} {st : IpcStatus}
    (hk' : k.receiveAt e t buf maxLen timeout filter = some (k', st)) : IpcInv k' := by
  obtain ⟨L, hL⟩ := h.queues
  obtain ⟨hidle, hlt⟩ := h.of_isReady ht
  obtain ⟨L', hout, hinv⟩ := Run.of_exists_pair (hL.receiveAt hidle) hk'
  exact ⟨(h.parked.prepareReceive buf maxLen filter).receive
    (hL.prepareReceive buf maxLen filter) hlt hout, L', hinv⟩

theorem cancelWaiter {reason : IpcStatus} (he : (k.ipc t).waitingEndpoint = some e)
    (hk' : k.cancelWaiter e t reason = some k') : IpcInv k' := by
  obtain ⟨L, hL⟩ := h.queues
  have hlt := h.parked.lt_of_wait (h.parked.waiting t (by simp [he]))
  obtain ⟨L', hinv, -⟩ := Run.of_exists (hL.cancelWaiter (fun _ _ => hL.endpoint_eq he) reason) hk'
  exact ⟨h.parked.cancelWaiter hlt hk', L', hinv⟩

theorem cancelAll {reason : IpcStatus} (hk' : k.cancelAll e reason = some k') :
    IpcInv k' := by
  obtain ⟨L, hL⟩ := h.queues
  obtain ⟨hinv, -⟩ := Run.of_exists (hL.cancelAll e reason) hk'
  exact ⟨h.parked.cancelAll hL hk', _, hinv⟩

theorem reply (r : Option (Fin N)) (id : Nat) (msg : Option Buffer) (len : Nat) :
    IpcInv (k.reply r id msg len).1 := by
  obtain ⟨L, hL⟩ := h.queues
  exact ⟨h.parked.reply r id msg len, L, hL.reply r id msg len⟩

theorem taskTick {c : Bool} (ht : (t : Nat) < k.sched.taskCount)
    (hk' : Kernel.TaskTick c k t k') : IpcInv k' := by
  obtain ⟨L, hL⟩ := h.queues
  obtain ⟨L', hL', -⟩ := hL.taskTick hk'
  exact ⟨h.parked.taskTick ht hk', L', hL'⟩

end

theorem schedule [NeZero N] {run : SignalHandler → Nat → Kernel N → Option (Kernel N)}
    (hrun : ∀ h sig a b, run h sig a = some b → IpcInv a → IpcInv b) {allowed : Nat → Bool}
    {switched : Bool} (h : IpcInv k) (hk' : k.schedule run allowed = some (k', switched)) :
    IpcInv k' := by
  refine schedule_invariant (fun k i f hk => ?_) hrun (fun k i hk => ?_)
    (fun k s cur next hrot hk => ?_) hk' h
  · exact hk.congr (hk.parked.modifySecurity i f) rfl rfl
  · exact hk.setSched (hk.parked.stop _ (.inr rfl))
  · exact hk.congr (hk.parked.rotate hrot next) rfl rfl

theorem signalAt (h : IpcInv k) (ht : (t : Nat) < k.sched.taskCount)
    (hidle : k.taskState t = .blockedOnNotify → (k.ipc t).state = .ready) (sig : Nat) :
    IpcInv (k.signalAt t sig) := by
  refine h.congr (h.parked.signalAt ht hidle sig) ?_ ?_ <;>
  · unfold Kernel.signalAt
    dsimp only
    split_ifs <;> rfl

theorem notify (h : IpcInv k) (t : Fin N) (val : BitVec 32) : IpcInv (k.notify t val) := by
  obtain ⟨L, hL⟩ := h.queues
  refine ⟨h.parked.notify t val, L, hL.congr rfl fun x => ?_⟩
  rw [Kernel.notify, Kernel.ipc_modifyIpc]
  split_ifs with hx <;> simp [hx]

theorem createTask (h : IpcInv k) (stack : Bool) (prio : Nat) :
    IpcInv (k.createTask stack prio).1 := by
  unfold Kernel.createTask
  split
  · exact h
  · next i hfree =>
    obtain ⟨L, hL⟩ := h.queues
    obtain ⟨hidle, hp⟩ := h.parked.createAt hfree stack prio
    refine ⟨hp, L, hL.modify (hL.notMem_of_ready hidle) rfl (fun x hx => ?_) fun e side hw => ?_⟩
    · exact Function.update_of_ne hx _ _
    · simp [Kernel.Waits, createAt, IpcContext.zero] at hw

end IpcInv

/-! ## Runs -/

/-- The operations of a run. A task issues IPC operations only while it is ready, a wait is
cancelled at the endpoint the task waits at, and other services change the state of tasks outside
IPC operations only. -/
def Op.IsIpcStep (k : Kernel N) : Op N → Prop
  | .createTask .. | .setTaskPriority .. | .tickUpdate | .compensateTicks .. | .schedule ..
  | .cancelAll .. | .sendSignal .. | .handleKill .. | .give .. => True
  | .setTaskState id _ => ∀ i : Fin N, (i : Nat) = id → (k.ipc i).state = .ready
  | .call _ t .. | .receive _ t .. | .reply t .. => ∀ i ∈ t, k.sched.IsReady i
  | .cancelWaiter e t _ => (k.ipc t).waitingEndpoint = some e
  | _ => False

/-- The task with this `id`, if it is blocked, is not blocked in an IPC operation. -/
def Kernel.Interruptible (k : Kernel N) (id : Nat) : Prop :=
  ∀ i ∈ k.getTaskById id, k.taskState i = .blockedOnNotify → (k.ipc i).state = .ready

/-- The operation does not wake a task by a signal or a notification out of an IPC operation. -/
def Op.WakesNoWaiter (k : Kernel N) : Op N → Prop
  | .sendSignal id sig => 0 < sig ∧ sig < 32 → k.Interruptible id
  | .handleKill id sig => 1 ≤ sig ∧ sig < 16 → k.Interruptible id
  | .give id .. => k.Interruptible id
  | _ => True

/-- A step of a run: an operation that meets the condition `ok`, or a change outside contexts,
endpoints and task states. -/
def IpcStep [NeZero N] (ok : Kernel N → Op N → Prop) (run : Handlers N) (k k' : Kernel N) : Prop :=
  (∃ op : Op N, op.IsIpcStep k ∧ ok k op ∧ op.exec run k = some k') ∨
    k'.ipc = k.ipc ∧ k'.endpoints = k.endpoints ∧ ∃ b, k'.sched = { k.sched with started := b }

namespace IpcInv

variable {k k' : Kernel N} {id : Nat}

theorem boot [NeZero N] : IpcInv (boot : Kernel N) where
  parked :=
    { table := Table.init _
      blocked := fun _ hs => absurd rfl hs
      waiting := fun _ hw => absurd rfl hw }
  queues := ⟨fun _ _ => [],
    { holds := fun _ side => by cases side <;> exact ⟨Chain.path_nil.mpr rfl, rfl⟩
      mem := fun _ _ _ => by simp [Kernel.Waits, Kernel.boot, IpcContext.zero] }⟩

theorem sendSignal (h : IpcInv k) {sig : Int}
    (hok : 0 < sig ∧ sig < 32 → k.Interruptible id) : IpcInv (k.sendSignal id sig).1 :=
  sendSignal_cases h fun i hi hlt hsig => h.signalAt hlt (hok hsig i hi) _

theorem handleKill (h : IpcInv k) {sig : Int}
    (hok : 1 ≤ sig ∧ sig < 16 → k.Interruptible id) : IpcInv (k.handleKill id sig).1 :=
  handleKill_cases h fun i hi hlt hsig => h.signalAt hlt (hok hsig i hi) _

theorem give [NeZero N] {run : Handlers N}
    (hrun : ∀ h a b, run h a = some b → IpcInv a → IpcInv b) (h : IpcInv k)
    {val : BitVec 32} {yield : Bool} {allowed : Nat → Bool} (hok : k.Interruptible id)
    (hk' : k.give run allowed id val yield = some k') : IpcInv k' := by
  rcases give_cases hk' with rfl | ⟨i, hi, rfl | ⟨hblocked, hk'⟩⟩
  · exact h
  · exact h.notify i val
  · obtain ⟨hid, hlt⟩ := getTaskById_eq_some.mp hi
    have hnote := h.notify i val
    have hidle : ((k.notify i val).ipc i).state = .ready := by
      rw [Kernel.notify, Kernel.ipc_modifyIpc, if_pos rfl]
      exact hok i hi hblocked
    have hwake := hnote.setSched (hnote.parked.wake hidle (hnote.parked.table.id i (hid ▸ hlt)))
    rcases hk' with rfl | ⟨switched, hs⟩
    · exact hwake
    · exact hwake.schedule (fun h sig => hrun (h, sig)) hs

theorem step [NeZero N] {run : Handlers N}
    (hrun : ∀ h a b, run h a = some b → IpcInv a → IpcInv b)
    (hstep : IpcStep Op.WakesNoWaiter run k k') (h : IpcInv k) : IpcInv k' := by
  rcases hstep with ⟨op, hop, hok, hexec⟩ | ⟨hipc, hends, b, hsched⟩
  · cases op with
    | createTask stack prio =>
      cases hexec
      exact h.createTask stack prio
    | setTaskState id st =>
      cases hexec
      exact h.setSched (h.parked.setTaskState (fun x hx _ => hop x hx) st)
    | setTaskPriority id p =>
      cases hexec
      exact h.setSched (h.parked.setTaskPriority id p)
    | sendSignal =>
      cases hexec
      exact h.sendSignal hok
    | handleKill =>
      cases hexec
      exact h.handleKill hok
    | give => exact h.give hrun hok hexec
    | tickUpdate =>
      exact forTasks_invariant
        (fun _ _ _ hi hk hbody => hk.taskTick hi (tickTask_cases hbody)) hexec h
    | compensateTicks n =>
      exact forTasks_invariant
        (fun _ _ _ hi hk hbody => hk.taskTick hi (compensateTask_cases hbody)) hexec h
    | schedule =>
      obtain ⟨⟨k₁, switched⟩, hs, rfl⟩ := map_eq_some_iff.mp hexec
      exact h.schedule (fun h sig => hrun (h, sig)) hs
    | call e t =>
      obtain ⟨⟨k₁, st⟩, hcall, rfl⟩ := map_eq_some_iff.mp hexec
      cases t with
      | none =>
        cases hcall
        exact h
      | some t => exact h.call (hop t rfl) hcall
    | receive e t =>
      obtain ⟨⟨k₁, st⟩, hrecv, rfl⟩ := map_eq_some_iff.mp hexec
      cases t with
      | none =>
        cases hrecv
        exact h
      | some t => exact h.receive (hop t rfl) hrecv
    | reply t id msg len =>
      cases hexec
      exact h.reply t id msg len
    | cancelWaiter => exact h.cancelWaiter hop hexec
    | cancelAll => exact h.cancelAll hexec
    | _ => exact hop.elim
  · refine h.congr (h.parked.congr ?_ (fun x => by simp [hipc]) fun x => ?_) hipc hends
    · rw [hsched]
      exact h.parked.table.congr rfl (fun _ => rfl) fun _ _ => rfl
    · rw [taskState, taskState, hsched]

end IpcInv

/-- The endpoints and the scheduler fit together: the queues are finite lists without repetition
that hold exactly the tasks whose contexts say that they wait there, and no task inside an IPC
operation is ready. -/
def Kernel.EndpointsOk (k : Kernel N) : Prop :=
  (∃ L, QueueInv k L) ∧ ∀ t, (k.ipc t).state ≠ .ready → ¬ k.sched.IsReady t

/-- **The endpoints along every run** in which signals and notifications reach no task inside an
IPC operation. -/
theorem endpoints_ok [NeZero N] {k : Kernel N}
    (h : Reaches (IpcStep Op.WakesNoWaiter) Kernel.boot k) : k.EndpointsOk := by
  have hinv : IpcInv k := h.invariant (fun _ _ _ hrun hstep hk => hk.step hrun hstep) IpcInv.boot
  refine ⟨hinv.queues, fun t hs hready => ?_⟩
  have hstate : k.taskState t = .ready := hready
  rcases hinv.parked.blocked t hs with hb | hb <;> rw [hstate] at hb <;> cases hb

/-- **No operation at an endpoint hangs** in such a run: every walk along a queue comes to an
end. -/
theorem endpoints_return [NeZero N] {k : Kernel N} (h : Reaches (IpcStep Op.WakesNoWaiter) boot k)
    (e : EndpointId) :
    (∀ t, k.sched.IsReady t →
      (∀ msg len rep maxRep timeout badge,
        ∃ r, k.callFrom e t msg len rep maxRep timeout badge = some r) ∧
      ∀ buf maxLen timeout filter, ∃ r, k.receiveAt e t buf maxLen timeout filter = some r) ∧
    ∀ reason, (∀ t, (k.ipc t).waitingEndpoint = some e →
      ∃ k', k.cancelWaiter e t reason = some k') ∧
      ∃ k', k.cancelAll e reason = some k' := by
  have hinv : IpcInv k := h.invariant (fun _ _ _ hrun hstep hk => hk.step hrun hstep) IpcInv.boot
  obtain ⟨L, hL⟩ := hinv.queues
  refine ⟨fun t ht => ⟨fun msg len rep maxRep timeout badge => ?_,
    fun buf maxLen timeout filter => ?_⟩,
    fun reason => ⟨fun t ht => ?_, ?_⟩⟩
  · obtain ⟨_, _, hk', -⟩ := hL.callFrom (e := e) (hinv.of_isReady ht).1
    exact ⟨_, hk'⟩
  · obtain ⟨_, _, hk', -⟩ := hL.receiveAt (e := e) (hinv.of_isReady ht).1
    exact ⟨_, hk'⟩
  · obtain ⟨k', hk', -⟩ := hL.cancelWaiter (fun _ _ => hL.endpoint_eq ht) reason
    exact ⟨k', hk'⟩
  · obtain ⟨k', hk', -⟩ := hL.cancelAll e reason
    exact ⟨k', hk'⟩

/-! ## Runs by example -/

instance (k : Kernel N) : DecidablePred (Op.IsIpcStep k) := by
  intro op
  cases op <;> dsimp only [Op.IsIpcStep] <;> infer_instance

instance (k : Kernel N) : DecidablePred (Op.WakesNoWaiter k) := by
  intro op
  cases op <;> dsimp only [Op.WakesNoWaiter, Kernel.Interruptible] <;> infer_instance

/-- Two tasks, the second of which waits in the send queue of endpoint 0. -/
def sendingRun : List (Op 2) :=
  [.createTask true 8, .createTask true 8, .call 0 (some 1) none 0 none 0 ipcTimeoutInfinite 0]

/-- A signal reaches a task that waits in a send queue: it is ready and still queued. -/
theorem not_endpointsOk_of_signal : ∃ k : Kernel 2,
    Reaches (IpcStep fun _ _ => True) Kernel.boot k ∧ ¬ k.EndpointsOk := by
  let ops : List (Op 2) := sendingRun ++ [.sendSignal 1 10]
  obtain ⟨k, hk, hstate⟩ : ∃ k ∈ Op.execAll ops boot,
      (k.ipc 1).state = .sending ∧ (k.sched.tasks 1).state = .ready := by decide
  refine ⟨k, Reaches.of_actions
    (fun _ _ op hop hexec => .inl ⟨op, hop, trivial, hexec⟩) (by decide) hk, fun hok => ?_⟩
  exact hok.2 1 (by rw [hstate.1]; decide) hstate.2

/-- The other task is signalled and receives the message. -/
def receivedRun : List (Op 2) :=
  sendingRun ++ [.sendSignal 0 10, .receive 0 (some 0) none 0 ipcNonblock 0]

theorem endpoints_ok_received :
    ∃ k, Op.execAll receivedRun Kernel.boot = some k ∧ k.EndpointsOk := by
  obtain ⟨k, hk⟩ : ∃ k, Op.execAll receivedRun boot = some k :=
    isSome_iff_exists.mp (by decide)
  refine ⟨k, hk, endpoints_ok ?_⟩
  exact Reaches.of_actions (P := fun k op => Op.IsIpcStep k op ∧ Op.WakesNoWaiter k op)
    (fun _ _ op hop hexec => .inl ⟨op, hop.1, hop.2, hexec⟩) (by decide) hk

theorem endpoints_return_sending :
    ∃ k ∈ Op.execAll sendingRun boot, ∃ k', k.cancelAll 0 .timeout = some k' := by
  obtain ⟨k, hk⟩ := isSome_iff_exists.mp (by decide : (Op.execAll sendingRun boot).isSome = true)
  refine ⟨k, hk, ((endpoints_return ?_ 0).2 .timeout).2⟩
  exact Reaches.of_actions (P := fun k op => Op.IsIpcStep k op ∧ Op.WakesNoWaiter k op)
    (fun _ _ op hop hexec => .inl ⟨op, hop.1, hop.2, hexec⟩) (by decide) hk

end AuroraOS
