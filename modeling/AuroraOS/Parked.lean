import AuroraOS.IpcQueues
import AuroraOS.Moves
import AuroraOS.TaskTable
import AuroraOS.Selection

/-!
# Waiting tasks are parked

A task inside an IPC operation is not ready in the scheduler: `call` and `receive` take it out of
the ready list when they let it wait, and only the end of the wait puts it back. `Parked` states
this, with the task table that leads from a control block to the scheduler.
-/

namespace AuroraOS

open WaitQueue Kernel Scheduler

variable {N : Nat}

/-- The state of a task in the scheduler. -/
def Kernel.taskState (k : Kernel N) (t : Fin N) : TaskState := (k.sched.tasks t).state

/-- A task that waits in an IPC operation is blocked, or has been terminated while it waited. -/
structure Parked (k : Kernel N) : Prop where
  table : Table k.sched
  blocked : ∀ t, (k.ipc t).state ≠ .ready →
    k.taskState t = .blockedOnNotify ∨ k.taskState t = .terminated
  waiting : ∀ t, (k.ipc t).waitingEndpoint ≠ none → (k.ipc t).state ≠ .ready

namespace Kernel

variable (k : Kernel N)

theorem taskState_setTaskState (id : Nat) (st : TaskState) (t : Fin N) :
    (k.setTaskState id st).taskState t =
      if (t : Nat) = id ∧ id < k.sched.taskCount then st else k.taskState t :=
  state_setTaskState ..

@[simp] theorem taskState_setTaskPriority (id p : Nat) (t : Fin N) :
    (k.setTaskPriority id p).taskState t = k.taskState t :=
  state_setTaskPriority ..

@[simp] theorem taskState_setSleepTicks (i : Fin N) (n : Nat) (t : Fin N) :
    (k.setSleepTicks i n).taskState t = k.taskState t := by
  simp only [taskState, setSleepTicks, Scheduler.setSleepTicks, Scheduler.tasks_modify]
  split_ifs with ht
  · rw [ht]
  · rfl

end Kernel

namespace Parked

variable {k k' : Kernel N} {t : Fin N} {f : IpcContext N → IpcContext N} {L : Waiting N}
  {reason : IpcStatus}

variable (h : Parked k)

include h

theorem lt_of_wait (ht : (k.ipc t).state ≠ .ready) : (t : Nat) < k.sched.taskCount := by
  refine h.table.lt_of_state fun hu => ?_
  rcases h.blocked t ht with hs | hs <;> rw [taskState, hu] at hs <;> cases hs

/-- A task that is neither blocked nor terminated is in no IPC operation. -/
theorem idle_of_state (ht : k.taskState t ≠ .blockedOnNotify ∧ k.taskState t ≠ .terminated) :
    (k.ipc t).state = .ready := by
  by_contra hs
  exact (h.blocked t hs).elim ht.1 ht.2

/-- The rule for a step: what it does to each task's account of itself and to its state. -/
theorem of_tasks (htable : Table k'.sched) (htask : ∀ x,
      ((k'.ipc x).state = (k.ipc x).state ∧
        (k'.ipc x).waitingEndpoint = (k.ipc x).waitingEndpoint ∧
        (k'.taskState x = k.taskState x ∨ k'.taskState x = .blockedOnNotify ∨
          k'.taskState x = .terminated ∨ (k.ipc x).state = .ready)) ∨
      ((k'.ipc x).state = .ready ∧ (k'.ipc x).waitingEndpoint = none) ∨
      ((k'.ipc x).state ≠ .ready ∧ k'.taskState x = .blockedOnNotify)) : Parked k' where
  table := htable
  blocked x hx := by
    rcases htask x with ⟨hs, -, hst⟩ | ⟨hs, -⟩ | ⟨-, hst⟩
    · rw [hs] at hx
      rcases hst with hst | hst | hst | hst
      · rw [hst]
        exact h.blocked x hx
      · exact .inl hst
      · exact .inr hst
      · exact absurd hst hx
    · exact absurd hs hx
    · exact .inl hst
  waiting x hx := by
    rcases htask x with ⟨hs, hw, -⟩ | ⟨-, hw⟩ | ⟨hs, -⟩
    · rw [hs]
      exact h.waiting x (hw ▸ hx)
    · exact absurd hw hx
    · exact hs

theorem congr (htable : Table k'.sched) (hipc : ∀ x, (k'.ipc x).state = (k.ipc x).state ∧
      (k'.ipc x).waitingEndpoint = (k.ipc x).waitingEndpoint)
    (hstate : ∀ x, k'.taskState x = k.taskState x) : Parked k' :=
  h.of_tasks htable fun x => .inl ⟨(hipc x).1, (hipc x).2, .inl (hstate x)⟩

/-! ## Calls into the scheduler -/

theorem setTaskPriority (id p : Nat) : Parked (k.setTaskPriority id p) :=
  h.congr (h.table.setTaskPriority id p) (fun _ => ⟨rfl, rfl⟩) (by simp)

theorem setSleepTicks (i : Fin N) (n : Nat) : Parked (k.setSleepTicks i n) :=
  h.congr (h.table.setSleepTicks i n) (fun _ => ⟨rfl, rfl⟩) (by simp)

/-- Blocking or terminating a task. -/
theorem stop (id : Nat) {st : TaskState} (hst : st = .blockedOnNotify ∨ st = .terminated) :
    Parked (k.setTaskState id st) := by
  refine h.of_tasks (h.table.setTaskState id st) fun x => .inl ⟨rfl, rfl, ?_⟩
  rw [taskState_setTaskState]
  split_ifs
  · rcases hst with rfl | rfl
    · exact .inr (.inl rfl)
    · exact .inr (.inr (.inl rfl))
  · exact .inl rfl

/-- Any change of state of a task that is in no IPC operation. -/
theorem setTaskState {id : Nat} (hid : ∀ x : Fin N, (x : Nat) = id →
    id < k.sched.taskCount → (k.ipc x).state = .ready) (st : TaskState) :
    Parked (k.setTaskState id st) := by
  refine h.of_tasks (h.table.setTaskState id st) fun x => .inl ⟨rfl, rfl, ?_⟩
  rw [taskState_setTaskState]
  split_ifs with hx
  · exact .inr (.inr (.inr (hid x hx.1 hx.2)))
  · exact .inl rfl

theorem inherit (r x : Fin N) : Parked (k.inherit r x) := by
  unfold Kernel.inherit
  split_ifs
  · exact h.setTaskPriority _ _
  · exact h

theorem recalculateById (id : Nat) : Parked (k.recalculateById id) := by
  unfold Kernel.recalculateById
  split
  · exact h
  · exact h.setTaskPriority _ _

/-! ## Contexts -/

theorem release
    (hf : (f (k.ipc t)).state = .ready ∧ (f (k.ipc t)).waitingEndpoint = none) :
    Parked (k.modifyIpc t f) := by
  refine h.of_tasks h.table fun x => ?_
  by_cases hx : x = t
  · right; left
    rwa [ipc_modifyIpc, if_pos hx]
  · left
    rw [ipc_modifyIpc, if_neg hx]
    exact ⟨rfl, rfl, .inl rfl⟩

/-- Fields other than the account of waiting. -/
theorem modifyIpc (hf : (f (k.ipc t)).state = (k.ipc t).state ∧
      (f (k.ipc t)).waitingEndpoint = (k.ipc t).waitingEndpoint) : Parked (k.modifyIpc t f) := by
  refine h.congr h.table (fun x => ?_) fun _ => rfl
  rw [ipc_modifyIpc]
  split_ifs with hx
  · rwa [hx]
  · exact ⟨rfl, rfl⟩

/-- A task with a slot enters an IPC operation and is blocked. -/
theorem enter (k' : Kernel N) (htable : Table k'.sched) (ht : (t : Nat) < k'.sched.taskCount)
    (hstate : ∀ x, k'.taskState x = k.taskState x)
    (hother : ∀ x, x ≠ t → (k'.ipc x).state = (k.ipc x).state ∧
      (k'.ipc x).waitingEndpoint = (k.ipc x).waitingEndpoint) (hself : (k'.ipc t).state ≠ .ready) :
    Parked (k'.setTaskState (k'.sched.tasks t).id .blockedOnNotify) := by
  rw [htable.id t ht]
  refine h.of_tasks (htable.setTaskState _ _) fun x => ?_
  rw [taskState_setTaskState]
  by_cases hx : x = t
  · subst hx
    exact .inr (.inr ⟨hself, if_pos ⟨rfl, ht⟩⟩)
  · have hne : (x : Nat) ≠ t := fun hv => hx (Fin.ext hv)
    exact .inl ⟨(hother x hx).1, (hother x hx).2, .inl (by simp [hne, hstate])⟩

theorem setQueue (e : EndpointId) (side : Side) (next : Blocked N) (q : WaitQueue N) :
    Parked (k.setQueue e side next q) :=
  h.congr h.table (fun _ => ⟨rfl, rfl⟩) fun _ => rfl

theorem copyMessage (dst src : Option Buffer) (n : Nat) : Parked (k.copyMessage dst src n).1 := by
  refine h.congr ?_ (by simp) fun y => ?_
  · rw [(k.frame_copyMessage dst src n).2.2]
    exact h.table
  · rw [taskState, (k.frame_copyMessage dst src n).2.2]
    rfl

theorem deliver (r x : Fin N) (msg : Option Buffer) (len badge : Nat) :
    Parked (k.deliver r x msg len badge) := by
  have hcopy : ∀ n, Parked (k.copyMessage (k.ipc r).msgBuf msg n).1 := fun n =>
    h.copyMessage _ _ n
  unfold Kernel.deliver
  refine modifyIpc (setSleepTicks (release (hcopy _) ?_) r 0) ?_ <;> exact ⟨rfl, rfl⟩

theorem refuse (t : Fin N) : Parked (k.refuse t) :=
  (h.release ⟨rfl, rfl⟩).setSleepTicks t 0

theorem parked (ht : (t : Nat) < k.sched.taskCount) (e : EndpointId) (side : Side) (timeout : Nat)
    (note : IpcContext N → IpcContext N) (next : Blocked N) (q : WaitQueue N) :
    Parked (k.parked e side t timeout note next q) := by
  refine h.enter _ (h.table.setSleepTicks t _) ht (fun x => ?_) (fun x hx => ?_) ?_
  · exact taskState_setSleepTicks _ t _ x
  · rw [ipc_setQueue, ipc_beginWait, if_neg hx]
    exact ⟨rfl, rfl⟩
  · rw [ipc_setQueue, ipc_beginWait]
    cases side <;> simp [Side.state]

/-- Waking a task that has left its IPC operation. -/
theorem wake (ht : (k.ipc t).state = .ready) (hid : (k.sched.tasks t).id = t) :
    Parked (k.setTaskState (k.sched.tasks t).id .ready) := by
  rw [hid]
  refine h.setTaskState (fun x hx _ => ?_) .ready
  rwa [Fin.ext hx]

theorem prepareCall (msg : Option Buffer) (len : Nat) (rep : Option Buffer) (maxRep badge : Nat) :
    Parked (k.prepareCall t msg len rep maxRep badge) :=
  h.modifyIpc ⟨rfl, rfl⟩

theorem prepareReceive (buf : Option Buffer) (maxLen filter : Nat) :
    Parked (k.prepareReceive t buf maxLen filter) :=
  h.modifyIpc ⟨rfl, rfl⟩

/-! ## Operations on endpoints -/

theorem callReceiver {r : Fin N} (ht : (t : Nat) < k.sched.taskCount) (hne : t ≠ r)
    (hr : (r : Nat) < k.sched.taskCount) (e : EndpointId) (msg : Option Buffer)
    (len timeout badge : Nat) : Parked (k.callReceiver e t r msg len timeout badge) := by
  have hdel := h.deliver r t msg len badge
  have hcount := (Calls.deliver k r t msg len badge).moves.fixed.1
  have hready : ((k.deliver r t msg len badge).ipc r).state = .ready := by
    rw [ipc_deliver _ hne, if_neg hne.symm, if_pos rfl]
  unfold Kernel.callReceiver
  split_ifs
  · have hrel := (hdel.release (t := t) (f := fun c =>
      { c with state := .ready, waitingEndpoint := none }) ⟨rfl, rfl⟩).setSleepTicks t 0
    refine hrel.wake ?_ (hrel.table.id r (hcount ▸ hr))
    simp [ipc_modifyIpc, hne.symm, hready]
  · -- the sender is blocked before the receiver is woken
    have hent := hdel.enter (((k.deliver r t msg len badge).modifyIpc t fun c =>
        { c with state := .replyBlocked, waitingEndpoint := some e }).setSleepTicks t
          (sleepFor timeout)) (hdel.table.setSleepTicks t _) (hcount ▸ ht)
          (fun x => taskState_setSleepTicks _ t _ x)
      (fun x hx => by simp [ipc_modifyIpc, hx]) (by simp [ipc_modifyIpc])
    have hinh := hent.inherit r t
    refine hinh.wake ?_ (hinh.table.id r ?_)
    · simp [ipc_modifyIpc, hne.symm, hready]
    · rw [(Calls.inherit _ r t).moves.fixed.1]
      exact lt_of_lt_of_eq hr (hcount.symm.trans (by simp [Kernel.setTaskState]; rfl))

theorem receiveFrom {x : Fin N} (hx : (k.ipc x).state ≠ .ready) : Parked (k.receiveFrom t x) := by
  have hdel := h.deliver t x (k.ipc x).msgBuf (k.ipc x).msgLen (k.ipc x).badge
  have hcount := (Calls.deliver k t x (k.ipc x).msgBuf (k.ipc x).msgLen
    (k.ipc x).badge).moves.fixed.1
  refine (hdel.enter ((k.deliver t x (k.ipc x).msgBuf (k.ipc x).msgLen
    (k.ipc x).badge).modifyIpc x _) hdel.table ?_ (fun _ => rfl) (fun y hy => ?_) ?_).inherit t x
  · exact hcount ▸ h.lt_of_wait hx
  · rw [ipc_modifyIpc, if_neg hy]
    exact ⟨rfl, rfl⟩
  · rw [ipc_modifyIpc, if_pos rfl]
    exact fun hs => nomatch hs

theorem replyTo (hx : (k.ipc t).state ≠ .ready) (r : Fin N) (msg : Option Buffer) (len : Nat) :
    Parked (k.replyTo r t msg len) := by
  have hcopy : ∀ n, Parked (k.copyMessage (k.ipc t).replyBuf msg n).1 := fun n =>
    h.copyMessage _ _ n
  refine setTaskPriority (wake (setSleepTicks (release (hcopy _) ?_) t 0) ?_ ?_) _ _
  · exact ⟨rfl, rfl⟩
  · simp [ipc_modifyIpc]
  · refine (Table.setSleepTicks ?_ t 0).id t ?_
    · exact (hcopy _).table
    · simpa [Scheduler.setSleepTicks] using h.lt_of_wait hx

theorem reply (r : Option (Fin N)) (id : Nat) (msg : Option Buffer) (len : Nat) :
    Parked (k.reply r id msg len).1 := by
  rcases k.reply_cases r id msg len with ⟨_, -, heq⟩ | ⟨r, x, -, -, hstate, -, heq⟩
  · rw [heq]
    exact h
  · rw [heq]
    exact h.replyTo (by rw [hstate]; decide) r msg len

theorem endWait (ht : (t : Nat) < k.sched.taskCount) (reason : IpcStatus) :
    Parked (k.endWait t reason) := by
  refine wake (setSleepTicks (h.release ?_) t 0) ?_ ?_
  · exact ⟨rfl, rfl⟩
  · simp [ipc_modifyIpc]
  · exact (h.table.setSleepTicks t 0).id t ht

theorem cancelOne (ht : (t : Nat) < k.sched.taskCount) (reason : IpcStatus) :
    Parked (k.cancelOne t reason) :=
  (h.endWait ht reason).modifyIpc ⟨rfl, rfl⟩

variable {e : EndpointId}

theorem cancelWaiter (ht : (t : Nat) < k.sched.taskCount)
    (hk' : k.cancelWaiter e t reason = some k') : Parked k' := by
  obtain ⟨next, q, next', q', hk'⟩ := cancelWaiter_cases hk'
  have hwait := ((h.setQueue e .send next q).setQueue e .recv next' q').endWait ht reason
  rcases hk' with rfl | ⟨-, rfl⟩
  · exact hwait
  · exact hwait.recalculateById _

theorem drain (hL : QueueInv k L) {side : Side} {fuel : Nat}
    (hk' : drain e side reason fuel k = some k') : Parked k' := by
  induction fuel generalizing k L with
  | zero =>
    unfold drain at hk'
    split at hk'
    · cases hk'
      exact h
    · cases hk'
  | succ fuel ih =>
    unfold drain at hk'
    cases hl : L e side with
    | nil =>
      rw [← Prod.mk.eta (p := k.dequeue e side), hL.toThreaded.dequeue_nil hl] at hk'
      cases hk'
      exact h
    | cons t l =>
      obtain ⟨next, q, hdeq, hq⟩ := hL.toThreaded.dequeue_cons hl
      have hwaits : k.Waits t e side := (hL.mem e side t).mp (by simp [hl])
      have ht := h.lt_of_wait (by rw [hwaits.1]; cases side <;> decide)
      have hL₁ := (hL.cancelHead hl hq reason).1
      have h₁ := (h.setQueue e side next q).cancelOne ht reason
      rw [hdeq] at hk'
      cases side with
      | send => exact ih h₁ hL₁ hk'
      | recv => exact ih (h₁.setTaskPriority _ _) (hL₁.congr rfl fun _ => ⟨rfl, rfl, rfl⟩) hk'

theorem cancelReplies (e : EndpointId) (reason : IpcStatus) (i : Fin N) :
    Parked (cancelReplies e reason k i) := by
  unfold Kernel.cancelReplies
  split_ifs with hi
  · exact (h.cancelOne hi.1 reason).recalculateById _
  · exact h

theorem cancelAll (hL : QueueInv k L)
    (hk' : k.cancelAll e reason = some k') : Parked k' := by
  simp only [Kernel.cancelAll, Option.bind_eq_bind, Option.bind_eq_some_iff] at hk'
  obtain ⟨k₁, hd₁, k₂, hd₂, hk'⟩ := hk'
  cases hk'
  obtain ⟨hL₁, -⟩ := Run.of_exists (hL.drain e .send reason (hL.length_le e .send)) hd₁
  exact Run.foldl_invariant (fun _ i _ hk => hk.cancelReplies e reason i)
    ((h.drain hL hd₁).drain hL₁ hd₂)

theorem call {L' : Waiting N} (hL : QueueInv k L) (ht : (t : Nat) < k.sched.taskCount)
    (hidle : (k.ipc t).state = .ready) {msg : Option Buffer} {len timeout badge : Nat}
    {st : IpcStatus} (hout : CallOutcome k L e t msg len timeout badge k' st L') : Parked k' := by
  cases hout with
  | @delivered r next q hfind =>
    have hr : r ∈ L e .recv := List.mem_of_find?_eq_some hfind
    have hstate : (k.ipc r).state ≠ .ready := by
      rw [((hL.mem _ _ _).mp hr).1]
      decide
    have hne : t ≠ r := fun htr => hstate (htr ▸ hidle)
    exact (h.setQueue e .recv next q).callReceiver ht hne (h.lt_of_wait hstate) e msg len timeout
      badge
  | refused => exact (h.setQueue ..).refuse t
  | queued => exact (h.setQueue ..).parked ht ..

theorem receive {L' : Waiting N} (hL : QueueInv k L) (ht : (t : Nat) < k.sched.taskCount)
    {timeout filter : Nat} {st : IpcStatus}
    (hout : ReceiveOutcome k L e t timeout filter k' st L') :
    Parked k' := by
  cases hout with
  | @delivered x next q hfind =>
    have hx : x ∈ L e .send := List.mem_of_find?_eq_some hfind
    refine (h.setQueue e .send next q).receiveFrom ?_
    exact ((hL.mem _ _ _).mp hx).1 ▸ by decide
  | refused => exact (h.setQueue ..).refuse t
  | queued => exact (h.setQueue ..).parked ht ..

/-! ## Ticks -/

theorem expire (ht : (t : Nat) < k.sched.taskCount) (hk' : k.expire t = some k') : Parked k' := by
  unfold Kernel.expire at hk'
  split at hk'
  · exact h.cancelWaiter ht hk'
  · next hw =>
    cases hk'
    refine (h.release ⟨rfl, hw⟩).setTaskState (fun x hx _ => ?_) _
    simp [ipc_modifyIpc, Fin.ext hx]

theorem wakeSleeper (ht : k.taskState t = .sleeping) (n : Nat) :
    Parked ((k.setSleepTicks t n).setTaskState t .ready) := by
  refine (h.setSleepTicks t n).setTaskState (fun x hx _ => ?_) _
  rw [Fin.ext hx]
  exact h.idle_of_state (by rw [ht]; decide)

theorem taskTick {c : Bool} (ht : (t : Nat) < k.sched.taskCount) (hk' : Kernel.TaskTick c k t k') :
    Parked k' := by
  cases hk' with
  | keep => exact h
  | smash => exact h.stop _ (.inr rfl)
  | count n => exact h.setSleepTicks t n
  | wake n hst => exact h.wakeSleeper hst n
  | expire n _ hk' => exact (h.setSleepTicks t n).expire ht hk'

/-! ## Signals, notifications and new tasks -/

theorem modifySecurity (t : Fin N) (f : SecurityContext → SecurityContext) :
    Parked (k.modifySecurity t f) :=
  h.congr h.table (fun _ => ⟨rfl, rfl⟩) fun _ => rfl

/-- A signal, to a task that is in no IPC operation or that it does not wake. -/
theorem signalAt (ht : (t : Nat) < k.sched.taskCount)
    (hidle : k.taskState t = .blockedOnNotify → (k.ipc t).state = .ready) (sig : Nat) :
    Parked (k.signalAt t sig) := by
  have hsec : ∀ f, Parked (k.modifySecurity t f) := h.modifySecurity t
  unfold Kernel.signalAt
  dsimp only
  split_ifs with hst
  · refine (hsec _).wake ?_ (h.table.id t ht)
    rcases hst with hst | hst
    · have hsleep : k.taskState t = .sleeping := hst
      exact h.idle_of_state (by rw [hsleep]; decide)
    · exact hidle hst
  · exact hsec _

theorem notify (t : Fin N) (val : BitVec 32) : Parked (k.notify t val) :=
  h.modifyIpc ⟨rfl, rfl⟩

theorem rotate {s : Scheduler N} {cur : Fin N} (hs : k.sched.rotate cur = some s)
    (next : Option (Fin N)) : Parked { k with sched := s, nextTcb := next } := by
  have htasks := tasks_rotate hs
  refine h.congr ?_ (fun _ => ⟨rfl, rfl⟩) fun x => ?_
  · exact h.table.congr (taskCount_rotate hs) (by simp [htasks]) (by simp [htasks])
  · simp only [taskState, htasks]

/-- A new task takes the place of none that waits. -/
theorem createAt (hfree : k.sched.freeSlot = some t) (stack : Bool) (prio : Nat) :
    (k.ipc t).state = .ready ∧ Parked (k.createAt t stack prio) := by
  have hunalloc : k.taskState t = .unallocated := by
    simpa [taskState] using (Bitmap.find?_finRange hfree).1
  obtain ⟨-, hother, -⟩ := createAt_fields k.sched t prio
  refine ⟨h.idle_of_state (by rw [hunalloc]; decide),
    h.of_tasks (h.table.createAt hfree prio) fun x => ?_⟩
  by_cases hx : x = t
  · subst hx
    right; left
    simp [Kernel.createAt, IpcContext.zero]
  · have hstate := congrArg SchedulerContext.state (hother x hx)
    have hipc : (k.createAt t stack prio).ipc x = k.ipc x := Function.update_of_ne hx _ _
    rw [hipc]
    exact .inl ⟨rfl, rfl, .inl hstate⟩

end Parked

end AuroraOS
