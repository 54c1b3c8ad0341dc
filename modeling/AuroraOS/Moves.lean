import AuroraOS.System

/-!
# What the operations do to the scheduler

Endpoints, ticks and signals reach into the scheduler through `set_task_state`,
`set_task_priority` and the `sleep_ticks` field only. `Moves s s'` says that `s'` comes from `s` by
such calls; every operation on endpoints, every tick and every signal is a sequence of them, and
touches no mutex. What holds under these calls then holds under all of the operations.
-/

namespace AuroraOS

open Run Kernel Relation.ReflTransGen Option

variable {N : Nat}

namespace Scheduler

/-- One call into the scheduler. -/
inductive Move : Scheduler N → Scheduler N → Prop
  | setTaskState (s : Scheduler N) (id : Nat) (st : TaskState) : Move s (s.setTaskState id st)
  | setTaskPriority (s : Scheduler N) (id p : Nat) : Move s (s.setTaskPriority id p)
  | setSleepTicks (s : Scheduler N) (i : Fin N) (n : Nat) : Move s (s.setSleepTicks i n)

/-- A sequence of calls into the scheduler. -/
def Moves : Scheduler N → Scheduler N → Prop := Relation.ReflTransGen Move

namespace Moves

variable {s s' t : Scheduler N}

theorem refl (s : Scheduler N) : Moves s s := Relation.ReflTransGen.refl

theorem trans (h : Moves s s') (h' : Moves s' t) : Moves s t := Relation.ReflTransGen.trans h h'

theorem setTaskState (h : Moves s s') (id : Nat) (st : TaskState) :
    Moves s (s'.setTaskState id st) := tail h (.setTaskState ..)

theorem setTaskPriority (h : Moves s s') (id p : Nat) : Moves s (s'.setTaskPriority id p) :=
  tail h (.setTaskPriority ..)

theorem setSleepTicks (h : Moves s s') (i : Fin N) (n : Nat) : Moves s (s'.setSleepTicks i n) :=
  tail h (.setSleepTicks ..)

theorem invariant {P : Scheduler N → Prop} (hmove : ∀ s s', Move s s' → P s → P s')
    (h : Moves s s') (hs : P s) : P s' := by
  induction h with
  | refl => exact hs
  | tail _ hlast ih => exact hmove _ _ hlast ih

end Moves

end Scheduler

namespace Kernel

variable {k k' : Kernel N}

/-- `Moves`, for the schedulers of two states of the kernel. -/
def Moves (k k' : Kernel N) : Prop := Scheduler.Moves k.sched k'.sched

namespace Moves

theorem of_eq (h : k'.sched = k.sched) : Moves k k' := by
  rw [Moves, h]
  exact Scheduler.Moves.refl _

theorem trans {k'' : Kernel N} (h : Moves k k') (h' : Moves k' k'') : Moves k k'' :=
  Scheduler.Moves.trans h h'

theorem fixed (h : Moves k k') : k'.sched.taskCount = k.sched.taskCount ∧
    ∀ i, (k'.sched.tasks i).id = (k.sched.tasks i).id := by
  refine Scheduler.Moves.invariant (P := fun s => s.taskCount = k.sched.taskCount ∧
    ∀ i, (s.tasks i).id = (k.sched.tasks i).id) (fun s s' hmove hs => ?_) h ⟨rfl, fun _ => rfl⟩
  cases hmove with
  | setTaskState => simpa using hs
  | setTaskPriority id p => simpa using hs
  | setSleepTicks i n =>
    refine ⟨hs.1, fun j => ?_⟩
    rw [Scheduler.setSleepTicks, Scheduler.tasks_modify]
    split_ifs with hj
    · rw [hj]
      exact hs.2 i
    · exact hs.2 j

end Moves

@[simp] theorem mutexes_copyMessage (k : Kernel N) (dst src : Option Buffer) (n : Nat) :
    (k.copyMessage dst src n).1.mutexes = k.mutexes := by
  unfold copyMessage
  split
  · split_ifs <;> rfl
  · rfl

/-- Calls into the scheduler, the mutexes being left alone. -/
structure Calls (k k' : Kernel N) : Prop where
  moves : Moves k k'
  mutexes : k'.mutexes = k.mutexes

namespace Calls

variable {e : EndpointId} {timeout : Nat} {st reason : IpcStatus} {rep msg buf : Option Buffer}

theorem refl (k : Kernel N) : Calls k k := ⟨.of_eq rfl, rfl⟩

theorem trans {k'' : Kernel N} (h : Calls k k') (h' : Calls k' k'') : Calls k k'' :=
  ⟨h.moves.trans h'.moves, h'.mutexes.trans h.mutexes⟩

theorem setTaskState (h : Calls k k') (id : Nat) (st : TaskState) :
    Calls k (k'.setTaskState id st) :=
  ⟨h.moves.setTaskState id st, h.mutexes⟩

theorem setTaskPriority (k : Kernel N) (id p : Nat) : Calls k (k.setTaskPriority id p) :=
  ⟨(Scheduler.Moves.refl _).setTaskPriority id p, rfl⟩

theorem setSleepTicks (k : Kernel N) (i : Fin N) (n : Nat) : Calls k (k.setSleepTicks i n) :=
  ⟨(Scheduler.Moves.refl _).setSleepTicks i n, rfl⟩

/-! ## Pieces of the operations -/

theorem deliver (k : Kernel N) (receiver sender : Fin N) (msg : Option Buffer) (len badge : Nat) :
    Calls k (k.deliver receiver sender msg len badge) := by
  refine ⟨Scheduler.Moves.setSleepTicks ?_ receiver 0, mutexes_copyMessage ..⟩
  exact Moves.of_eq (frame_copyMessage ..).2.2

theorem inherit (k : Kernel N) (receiver sender : Fin N) : Calls k (k.inherit receiver sender) := by
  unfold Kernel.inherit
  split_ifs
  · exact setTaskPriority ..
  · exact refl k

theorem recalculateReceiverPriority (k : Kernel N) (receiver : Fin N) :
    Calls k (k.recalculateReceiverPriority receiver) := setTaskPriority ..

theorem recalculateById (k : Kernel N) (id : Nat) : Calls k (k.recalculateById id) := by
  unfold Kernel.recalculateById
  split
  · exact refl k
  · exact recalculateReceiverPriority _ _

/-! ## Endpoints -/

theorem await {side : Side} {t : Fin N} {note : IpcContext N → IpcContext N}
    (h : k.await e side t timeout note = some (k', st)) : Calls k k' := by
  unfold Kernel.await at h
  split_ifs at h
  · cases h
    exact ⟨(Scheduler.Moves.refl _).setSleepTicks t 0, rfl⟩
  · simp only [bind_eq_bind, bind_eq_some_iff] at h
    obtain ⟨k₁, henq, h⟩ := h
    cases h
    obtain ⟨next, q, rfl⟩ := enqueue_cases henq
    exact ⟨((Scheduler.Moves.refl _).setSleepTicks t _).setTaskState _ _, rfl⟩

theorem callReceiver (k : Kernel N) (e : EndpointId) (sender receiver : Fin N)
    (msg : Option Buffer) (len timeout badge : Nat) :
    Calls k (k.callReceiver e sender receiver msg len timeout badge) := by
  have hdeliver := deliver k receiver sender msg len badge
  unfold Kernel.callReceiver
  split_ifs
  · exact ⟨(hdeliver.moves.setSleepTicks sender 0).setTaskState _ _, hdeliver.mutexes⟩
  · refine setTaskState (trans ?_ (inherit _ receiver sender)) _ _
    exact ⟨(hdeliver.moves.setSleepTicks sender _).setTaskState _ _, hdeliver.mutexes⟩

theorem callFrom {sender : Fin N} {len : Nat} {maxRep badge : Nat}
    (h : k.callFrom e sender msg len rep maxRep timeout badge = some (k', st)) :
    Calls k k' := by
  simp only [Kernel.callFrom, bind_eq_bind, bind_eq_some_iff] at h
  obtain ⟨⟨k₁, receiver⟩, hdeq, h⟩ := h
  have h₁ : Calls k k₁ := by
    obtain ⟨next, q, rfl⟩ := dequeueMatchingReceiver_cases hdeq
    exact ⟨.of_eq rfl, rfl⟩
  refine trans h₁ ?_
  cases receiver with
  | some =>
    cases h
    exact callReceiver ..
  | none => exact await h

theorem call {sender : Option (Fin N)} {len : Nat}
    {maxRep badge : Nat} (h : k.call e sender msg len rep maxRep timeout badge = some (k', st)) :
    Calls k k' := by
  cases sender with
  | none =>
    cases h
    exact refl _
  | some => exact callFrom h

theorem receiveFrom (k : Kernel N) (receiver sender : Fin N) :
    Calls k (k.receiveFrom receiver sender) := by
  have hdeliver := deliver k receiver sender (k.ipc sender).msgBuf (k.ipc sender).msgLen
    (k.ipc sender).badge
  refine trans ?_ (inherit _ receiver sender)
  exact ⟨hdeliver.moves.setTaskState _ _, hdeliver.mutexes⟩

theorem receiveAt {receiver : Fin N} {maxLen filter : Nat}
    (h : k.receiveAt e receiver buf maxLen timeout filter = some (k', st)) : Calls k k' := by
  simp only [Kernel.receiveAt, bind_eq_bind, bind_eq_some_iff] at h
  obtain ⟨⟨k₁, sender⟩, hdeq, h⟩ := h
  have h₁ : Calls k k₁ := by
    obtain ⟨next, q, rfl⟩ := dequeueMatchingSender_cases hdeq
    exact ⟨.of_eq rfl, rfl⟩
  refine trans h₁ ?_
  cases sender with
  | some =>
    cases h
    exact receiveFrom ..
  | none => exact await h

theorem receive {receiver : Option (Fin N)} {maxLen filter : Nat}
    (h : k.receive e receiver buf maxLen timeout filter = some (k', st)) : Calls k k' := by
  cases receiver with
  | none =>
    cases h
    exact refl _
  | some => exact receiveAt h

theorem replyTo (k : Kernel N) (receiver sender : Fin N) (msg : Option Buffer) (len : Nat) :
    Calls k (k.replyTo receiver sender msg len) := by
  refine trans ?_ (recalculateReceiverPriority _ receiver)
  refine ⟨Scheduler.Moves.setTaskState (Scheduler.Moves.setSleepTicks ?_ sender 0) _ _,
    mutexes_copyMessage ..⟩
  exact Moves.of_eq (frame_copyMessage ..).2.2

theorem reply (k : Kernel N) (receiver : Option (Fin N)) (id : Nat) (msg : Option Buffer)
    (len : Nat) : Calls k (k.reply receiver id msg len).1 := by
  rcases k.reply_cases receiver id msg len with ⟨_, -, heq⟩ | ⟨r, x, -, -, -, -, heq⟩
  · rw [heq]
    exact refl k
  · rw [heq]
    exact replyTo ..

theorem endWait (k : Kernel N) (t : Fin N) (reason : IpcStatus) : Calls k (k.endWait t reason) :=
  ⟨((Scheduler.Moves.refl _).setSleepTicks t 0).setTaskState _ _, rfl⟩

theorem cancelWaiter {t : Fin N} (h : k.cancelWaiter e t reason = some k') : Calls k k' := by
  obtain ⟨next, q, next', q', hk'⟩ := cancelWaiter_cases h
  have hout : Calls k ((k.setQueue e .send next q).setQueue e .recv next' q') := ⟨.of_eq rfl, rfl⟩
  have hwait := hout.trans (endWait _ t reason)
  rcases hk' with rfl | ⟨-, rfl⟩
  · exact hwait
  · exact hwait.trans (recalculateById ..)

theorem cancelOne (k : Kernel N) (t : Fin N) (reason : IpcStatus) :
    Calls k (k.cancelOne t reason) :=
  ⟨(endWait k t reason).moves, rfl⟩

theorem drain {side : Side} {fuel : Nat} (h : drain e side reason fuel k = some k') :
    Calls k k' := by
  induction fuel generalizing k with
  | zero =>
    unfold drain at h
    split at h
    · cases h
      exact refl _
    · cases h
  | succ fuel ih =>
    unfold drain at h
    split at h
    · cases h
      exact refl _
    · next k₁ t hdeq =>
      have hk₁ : Calls k k₁ := by
        obtain rfl := congrArg Prod.fst hdeq
        exact ⟨.of_eq rfl, rfl⟩
      have hone := hk₁.trans (cancelOne k₁ t reason)
      refine trans ?_ (ih h)
      cases side with
      | send => exact hone
      | recv => exact hone.trans (recalculateReceiverPriority ..)

theorem cancelAll (h : k.cancelAll e reason = some k') : Calls k k' := by
  simp only [Kernel.cancelAll, bind_eq_bind, bind_eq_some_iff] at h
  obtain ⟨k₁, h₁, k₂, h₂, h⟩ := h
  cases h
  refine ((drain h₁).trans (drain h₂)).trans ?_
  refine foldl_invariant (fun k₃ i _ h₃ => ?_) (refl k₂)
  unfold cancelReplies
  split_ifs
  · exact h₃.trans ((cancelOne k₃ i reason).trans (recalculateById ..))
  · exact h₃

/-! ## Ticks -/

theorem expire {i : Fin N} (h : k.expire i = some k') : Calls k k' := by
  unfold Kernel.expire at h
  split at h
  · exact cancelWaiter h
  · cases h
    exact ⟨(Scheduler.Moves.refl _).setTaskState _ _, rfl⟩

theorem taskTick {c : Bool} {i : Fin N} (h : TaskTick c k i k') : Calls k k' := by
  cases h with
  | keep => exact refl k
  | smash => exact (refl k).setTaskState _ _
  | count n => exact setSleepTicks k i n
  | wake n => exact (setSleepTicks k i n).setTaskState _ _
  | expire n _ hk' => exact (setSleepTicks k i n).trans (expire hk')

theorem tickUpdate (h : k.tickUpdate = some k') : Calls k k' :=
  forTasks_invariant
    (fun _ _ _ _ hk hbody => hk.trans (taskTick (tickTask_cases hbody))) h (refl k)

theorem compensateTicks {n : Nat} (h : k.compensateTicks n = some k') : Calls k k' :=
  forTasks_invariant
    (fun _ _ _ _ hk hbody => hk.trans (taskTick (compensateTask_cases hbody))) h (refl k)

/-! ## Signals and notifications -/

theorem signalAt (k : Kernel N) (i : Fin N) (sig : Nat) : Calls k (k.signalAt i sig) := by
  unfold Kernel.signalAt
  dsimp only
  split_ifs
  · exact ⟨(Scheduler.Moves.refl _).setTaskState _ _, rfl⟩
  · exact ⟨.of_eq rfl, rfl⟩

theorem sendSignal (k : Kernel N) (id : Nat) (sig : Int) : Calls k (k.sendSignal id sig).1 :=
  sendSignal_cases (refl k) fun _ _ _ _ => signalAt ..

theorem handleKill (k : Kernel N) (id : Nat) (sig : Int) : Calls k (k.handleKill id sig).1 :=
  handleKill_cases (refl k) fun _ _ _ _ => signalAt ..

theorem notifyOwner (k : Kernel N) (owner : Nat) (val : BitVec 32) :
    Calls k (k.notifyOwner owner val) := by
  unfold Kernel.notifyOwner
  split
  · exact refl k
  · dsimp only
    split_ifs
    · exact ⟨(Scheduler.Moves.refl _).setTaskState _ _, rfl⟩
    · exact ⟨.of_eq rfl, rfl⟩

theorem timerExpiry (k : Kernel N) (index owner : Nat) (flags param : BitVec 32) :
    Calls k (k.timerExpiry index owner flags param) := by
  rcases k.timerExpiry_cases index owner flags param with ⟨sig, heq⟩ | ⟨-, val, heq⟩
  · rw [heq]
    exact sendSignal ..
  · rw [heq]
    exact notifyOwner ..

end Calls

end Kernel

/-- The operation makes and frees no task, and switches to none. -/
def Op.OnlyCalls : Op N → Prop
  | .createTask .. | .freeTask _ | .give .. | .schedule _ | .memManage _ => False
  | _ => True

theorem Op.calls [NeZero N] {run : Handlers N} {op : Op N} {k k' : Kernel N}
    (h : op.exec run k = some k') (hop : op.OnlyCalls) : k.Calls k' := by
  cases op with
  | createTask | freeTask | give | schedule | memManage => exact hop.elim
  | setTaskState =>
    cases h
    exact (Calls.refl k).setTaskState _ _
  | setTaskPriority =>
    cases h
    exact .setTaskPriority ..
  | sendSignal =>
    cases h
    exact .sendSignal ..
  | handleKill =>
    cases h
    exact .handleKill ..
  | timerExpiry =>
    cases h
    exact .timerExpiry ..
  | tickUpdate => exact .tickUpdate h
  | compensateTicks => exact .compensateTicks h
  | call =>
    obtain ⟨r, hr, rfl⟩ := map_eq_some_iff.mp h
    exact .call hr
  | receive =>
    obtain ⟨r, hr, rfl⟩ := map_eq_some_iff.mp h
    exact .receive hr
  | reply =>
    cases h
    exact .reply ..
  | cancelWaiter => exact .cancelWaiter h
  | cancelAll => exact .cancelAll h

end AuroraOS
