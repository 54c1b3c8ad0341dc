import AuroraOS.Detached
import AuroraOS.SchedulerRuns

/-!
# Termination is final

Along every run in which tasks terminate only outside IPC operations, a terminated task stays
terminated, is in no ready list and is never switched to, until `free_task` gives its slot back.

A task that is terminated while it waits in a queue or for a reply is woken by whatever ends the
wait; and the memory-fault handler writes the state of a task that is still in its ready list.
-/

namespace AuroraOS

open Run Bitmap Option Kernel Spares Reaches

variable {N : Nat}

/-! ## What `schedule` settles on -/

/-- The second fallback finds a ready task, or stays where it is when there is none. -/
theorem Consistent.scanFallback {s : Scheduler N} (h : Consistent s) {next i : Fin N}
    (hi : s.scanFallback next numPriorities s.readyBitmask = some i) :
    s.IsReady i ∨ i = next ∧ ∀ j, ¬ s.IsReady j := by
  unfold Scheduler.scanFallback at hi
  split at hi
  · next hnone =>
    refine .inr ⟨(some.inj hi).symm, fun j hj => ?_⟩
    have hbit := (h.agrees.bit_iff (s.level j)).mpr ⟨j, hj, rfl⟩
    rw [findHighestBit_eq_none.mp hnone] at hbit
    simp at hbit
  · next p hp =>
    obtain ⟨c, hc⟩ := h.agrees.readyHead_of_bit (findHighestBit_spec hp).1
    have hready : (s.tasks c).state = .ready := (h.agrees.isReady_of_readyHead hc).1
    have hlt := h.lt_of_state (by rw [hready]; decide)
    simp only [hc, hready, hlt, and_self, if_true, some.injEq] at hi
    exact .inl (hi ▸ hready)

/-- `schedule` settles on a ready task, or stays where it is when there is none. -/
theorem Consistent.selectNext {s : Scheduler N} (h : Consistent s) {allowed : Nat → Bool}
    {cur i : Fin N} (hi : s.selectNext allowed cur = some i) :
    s.IsReady i ∨ i = cur ∧ ∀ j, ¬ s.IsReady j := by
  -- each stage passes on a ready task or the current one
  have hlast : ∀ n, s.IsReady n ∨ n = cur → (if (s.tasks n).state = .ready then some n
      else s.scanFallback n numPriorities s.readyBitmask) = some i →
      s.IsReady i ∨ i = cur ∧ ∀ j, ¬ s.IsReady j := by
    intro n hn hn'
    split_ifs at hn' with hready
    · obtain rfl := some.inj hn'
      exact .inl hready
    · obtain rfl := hn.resolve_left hready
      exact h.scanFallback hn'
  have hmid : ∀ n, s.IsReady n ∨ n = cur →
      ((if n = cur ∧ s.readyBitmask.getLsbD TaskPriority.idle then s.readyHead 0 else some n).bind
        fun n => if (s.tasks n).state = .ready then some n
          else s.scanFallback n numPriorities s.readyBitmask) = some i →
      s.IsReady i ∨ i = cur ∧ ∀ j, ¬ s.IsReady j := by
    intro n hn hn'
    obtain ⟨m, hm, hm'⟩ := bind_eq_some_iff.mp hn'
    refine hlast m ?_ hm'
    split_ifs at hm
    · exact .inl (h.agrees.isReady_of_readyHead hm).1
    · rwa [← some.inj hm]
  unfold Scheduler.selectNext at hi
  split at hi
  · next p hp =>
    obtain ⟨n, hn, hi⟩ := bind_eq_some_iff.mp hi
    refine hmid n (.inl (h.agrees.isReady_of_readyHead hn).1) ?_
    dsimp only at hi
    split_ifs at hi ⊢ <;> exact hi
  · refine hmid cur (.inr rfl) ?_
    change ite _ _ _ = _ at hi
    split_ifs at hi ⊢ <;> exact hi

/-! ## Steps that terminate, free or create a task -/

namespace Kernel.Detached

variable {k k' : Kernel N} {t x : Fin N}

variable (h : k.Detached t)

include h

theorem congr (hipc : k'.ipc = k.ipc) (hends : k'.endpoints = k.endpoints) : k'.Detached t where
  state := by rw [hipc, h.state]
  waiting := by rw [hipc, h.waiting]
  pointed hp := h.pointed (by simpa only [Kernel.Pointed, queue, hipc, hends] using hp)

/-- Another task's context changes, its link apart. -/
theorem change (hne : t ≠ x) (hother : ∀ y, y ≠ x → k'.ipc y = k.ipc y)
    (hlink : (k'.ipc x).blockedNext = (k.ipc x).blockedNext) (hends : k'.endpoints = k.endpoints) :
    k'.Detached t where
  state := by rw [hother t hne, h.state]
  waiting := by rw [hother t hne, h.waiting]
  pointed hp := by
    refine h.pointed (hp.imp (fun ⟨e, side, he⟩ => ⟨e, side, ?_⟩) fun ⟨i, hi⟩ => ⟨i, ?_⟩)
    · simpa only [queue, hends] using he
    · by_cases hix : i = x
      · rw [hix, ← hlink, ← hix, hi]
      · rw [← hother i hix, hi]

theorem remove {e : EndpointId} {side : Side} (hk' : k.remove e side x = some k') :
    k'.Detached t := by
  have hpoint := fun ht => h.pointed (pointed_of_remove hk' ht)
  obtain ⟨next, q, rfl⟩ := remove_cases hk'
  exact ⟨h.state, h.waiting, hpoint⟩

theorem cancelWaiter (hne : t ≠ x) {e : EndpointId} {reason : IpcStatus}
    (hk' : k.cancelWaiter e x reason = some k') : k'.Detached t := by
  simp only [Kernel.cancelWaiter, Option.bind_eq_bind, Option.bind_eq_some_iff] at hk'
  obtain ⟨k₁, h₁, k₂, h₂, hk'⟩ := hk'
  have hend : (k₂.endWait x reason).Detached t := by
    refine ((h.remove h₁).remove h₂).change hne (fun y hy => ?_) ?_ rfl
    · rw [ipc_endWait, if_neg hy]
    · rw [ipc_endWait, if_pos rfl]
  have hk' := (some.inj hk').symm
  split_ifs at hk'
  · rw [hk']
    exact hend.congr (by simp) (by simp)
  · rw [hk']
    exact hend

/-- A tick links no task and unlinks only the task whose turn it is. -/
theorem taskTick {c : Bool} (hk' : Kernel.TaskTick c k x k') : k'.Detached t := by
  cases hk' with
  | keep => exact h
  | smash => exact h.congr rfl rfl
  | count n => exact h.congr rfl rfl
  | wake n => exact h.congr rfl rfl
  | expire n hw hk' =>
    have hne : t ≠ x := by
      rintro rfl
      simp [h.state, IpcState.waits] at hw
    have hcount : (k.setSleepTicks x n).Detached t := h.congr rfl rfl
    unfold expire at hk'
    split at hk'
    · exact hcount.cancelWaiter hne hk'
    · cases hk'
      refine hcount.change hne (fun y hy => ?_) ?_ rfl
      · simp [ipc_modifyIpc, hy]
      · simp [ipc_modifyIpc]

end Kernel.Detached

/-- Ticks do not touch stacks. -/
theorem Kernel.TaskTick.task_eq {c : Bool} {k k' : Kernel N} {i : Fin N}
    (h : Kernel.TaskTick c k i k') : k'.task = k.task := by
  cases h with
  | expire n _ hk' =>
    unfold Kernel.expire at hk'
    split at hk'
    · obtain ⟨next, q, next', q', hk' | ⟨-, hk'⟩⟩ := cancelWaiter_cases hk'
      · rw [hk']
        rfl
      · rw [hk']
        unfold recalculateById
        split <;> rfl
    · cases hk'
      rfl
  | _ => rfl

namespace Sound

variable {k : Kernel N} {t : Fin N}

/-- Terminating a detached task, whichever way its state is written. -/
theorem terminated {k' : Kernel N} (h : Sound k) (htable : Table k'.sched)
    (hcount : k'.sched.taskCount = k.sched.taskCount) (hd : k.Detached t)
    (hstate : ∀ x, x ≠ t → k'.taskState x = k.taskState x) (hipc : k'.ipc = k.ipc)
    (hends : k'.endpoints = k.endpoints) : Sound k' where
  table := htable
  bounded x hx := by
    rw [hcount]
    exact h.bounded x (by simpa only [Kernel.Pointed, queue, hipc, hends] using hx)
  detached x hx := by
    by_cases hxt : x = t
    · rw [hxt]
      exact hd.congr hipc hends
    · exact (h.detached x (hstate x hxt ▸ hx)).congr hipc hends

theorem setTaskState (h : Sound k) {id : Fin N} (hd : k.Detached id) :
    Sound (k.setTaskState id .terminated) := by
  refine h.terminated (h.table.setTaskState _ _) (Scheduler.taskCount_setTaskState ..) hd
    (fun x hx => ?_) rfl rfl
  have hne : (x : Nat) ≠ id := fun hv => hx (Fin.ext hv)
  simp [taskState_setTaskState, hne]

theorem freeTask (h : Sound k) (t : Fin N) : Sound (k.freeTask (some t)) := by
  have hout := h.outOfReach.freeTask t
  refine ⟨hout.table, hout.bounded, fun x hx => hout.detached x ?_⟩
  rw [taskState_freeTask] at hx
  split_ifs at hx
  exact hx

theorem createAt (h : Sound k) (hfree : k.sched.freeSlot = some t) (stack : Bool) (prio : Nat) :
    Sound (k.createAt t stack prio) := by
  have hunused : k.taskState t = .unallocated := by
    simpa [taskState] using (find?_finRange hfree).1
  have hout := h.outOfReach.createAt hfree (fun hterm => by cases hunused.symm.trans hterm) stack
    prio
  refine ⟨hout.table, hout.bounded, fun x hx => hout.detached x ?_⟩
  have hxt : x ≠ t := by
    rintro rfl
    have hready : (k.createAt x stack prio).taskState x = .ready :=
      congrArg SchedulerContext.state (Scheduler.createAt_fields k.sched x prio).2.2
    cases hx.symm.trans hready
  rwa [taskState_createAt hxt] at hx

end Sound

/-! ## The invariant of a run -/

/-- Ready lists, links and states fit together, and the task `keep` stays terminated. -/
structure Settled (keep : Option (Fin N)) (k : Kernel N) : Prop where
  consistent : Consistent k.sched
  sound : Sound k
  kept : ∀ t ∈ keep, k.taskState t = .terminated

/-- If `SIGKILL` terminates the current task, it finds it detached. -/
def Kernel.KillsDetached [NeZero N] (run : Handlers N) (k : Kernel N) : Prop :=
  ∀ k₁, k.dispatchPending (fun h sig => run (h, sig)) k.currentTaskId = some (k₁, true) →
    k₁.Detached (k₁.sched.tasks k.currentTaskId).id

/-- The state in which the memory-fault handler calls `schedule`. -/
def Kernel.faulted (k : Kernel N) : Kernel N :=
  match k.currentTcb with
  | none => k
  | some i => { k with sched := k.sched.setState i .terminated }

namespace Settled

variable {keep : Option (Fin N)} {k k' : Kernel N} {t : Fin N}

theorem advance (h : Settled keep k) (hc : Consistent k'.sched) (ha : Advances k k') :
    Settled keep k' :=
  ⟨hc, ha.sound, fun t ht => (ha.terminated t).mpr (h.kept t ht)⟩

theorem terminate (h : Settled keep k) {id : Fin N} (hd : k.Detached id) :
    Settled keep (k.setTaskState id .terminated) := by
  refine ⟨h.consistent.move (.setTaskState ..), h.sound.setTaskState hd, fun t ht => ?_⟩
  rw [taskState_setTaskState]
  split_ifs
  · rfl
  · exact h.kept t ht

/-- **`schedule` never turns to a terminated task.** -/
theorem schedule [NeZero N] {run : Handlers N}
    (hrun : ∀ h a b, run h a = some b → Settled keep a → Settled keep b) {allowed : Nat → Bool}
    {switched : Bool} (h : Settled keep k) (hkill : k.KillsDetached run)
    (hs : k.schedule (fun h sig => run (h, sig)) allowed = some (k', switched)) :
    Settled keep k' ∧ ∀ t, k'.taskState t = .terminated →
      (switched = true → k'.nextTcb ≠ some t) ∧
      (k.sched.started = true → 1 < k.sched.taskCount → (∃ j, k'.sched.IsReady j) →
        runsNext k.currentTaskId (k', switched) ≠ some t) := by
  rcases schedule_cases hs with ⟨hidle, rfl, rfl⟩ | ⟨k₁, killed, hdisp, hre⟩
  · refine ⟨h, fun t _ => ⟨by simp, fun hstarted hcount => ?_⟩⟩
    rcases hidle with hidle | hidle
    · rw [hstarted] at hidle
      cases hidle
    · omega
  · have h₁ : Settled keep k₁ := by
      refine dispatchPending_invariant (fun k i f hk => ?_) (fun h sig => hrun (h, sig))
        hdisp h
      exact hk.advance hk.consistent ((refl hk.sound.outOfReach).modifySecurity i f).advances
    have h₂ : Settled keep (if killed then
        k₁.setTaskState (k₁.sched.tasks k.currentTaskId).id .terminated else k₁) := by
      split_ifs with hk
      · exact h₁.terminate (hkill k₁ (hk ▸ hdisp))
      · exact h₁
    obtain ⟨s, next, hrot, hnext, hk'⟩ := reschedule_cases hre
    have hpicked := (h₂.consistent.rotate hrot).selectNext hnext
    have hnew : ∀ n, Settled keep { (if killed then k₁.setTaskState
        (k₁.sched.tasks k.currentTaskId).id .terminated else k₁) with sched := s, nextTcb := n } :=
      fun n => h₂.advance (h₂.consistent.rotate hrot)
        ((refl h₂.sound.outOfReach).rotate hrot n).advances
    have hdead : ∀ t, (s.tasks t).state = .terminated → ¬ s.IsReady t := fun t ht hready => by
      cases ht.symm.trans hready
    rcases hk' with ⟨hcur, rfl, rfl⟩ | ⟨hcur, rfl, rfl⟩
    · refine ⟨hnew _, fun t ht => ⟨by simp, fun _ _ hex heq => ?_⟩⟩
      obtain rfl : k.currentTaskId = t := by simpa [runsNext] using heq
      rcases hpicked with hready | ⟨-, hnone⟩
      · exact hdead _ ht (hcur ▸ hready)
      · exact hex.elim hnone
    · have hready := hpicked.resolve_right fun hno => hcur hno.1
      have hne : ∀ t, (s.tasks t).state = .terminated → some next ≠ some t := fun t ht heq =>
        hdead t ht (some.inj heq ▸ hready)
      exact ⟨hnew _, fun t ht => ⟨fun _ => hne t ht, fun _ _ _ => hne t ht⟩⟩

/-- The tick, if it finds only detached tasks with a smashed stack. -/
theorem tickUpdate (h : Settled keep k)
    (hsmashed : ∀ i : Fin N, (i : Nat) < k.sched.taskCount → k.smashed i →
      k.taskState i ≠ .terminated → k.Detached i)
    (hk' : k.tickUpdate = some k') : Settled keep k' := by
  refine (forTasks_invariant (P := fun k => Settled keep k ∧ ∀ i : Fin N,
      (i : Nat) < k.sched.taskCount → k.smashed i → k.taskState i ≠ .terminated → k.Detached i)
    (fun k k' i hi hk hbody => ?_) hk' ⟨h, hsmashed⟩).1
  have htick := tickTask_cases hbody
  have hmoves : Consistent k'.sched := hk.1.consistent.moves (Calls.taskTick htick).moves
  have hcount := (Calls.taskTick htick).moves.fixed.1
  have hsame : ∀ j, k'.smashed j → k.smashed j := fun j => by
    unfold smashed
    rw [htick.task_eq]
    exact id
  by_cases hsm : k.smashed i ∧ k.taskState i ≠ .terminated
  · obtain rfl : k' = k.setTaskState i .terminated := by
      unfold tickTask at hbody
      rw [if_pos (show _ ∧ (k.sched.tasks i).state ≠ _ from hsm)] at hbody
      exact (some.inj hbody).symm
    refine ⟨hk.1.terminate (hk.2 i hi hsm.1 hsm.2), fun j hj hjs hjt => ?_⟩
    refine (hk.2 j (hcount ▸ hj) hjs fun hterm => hjt ?_).taskTick htick
    rw [taskState_setTaskState]
    split_ifs
    · rfl
    · exact hterm
  · have ha := (taskTick hk.1.sound.outOfReach hi
      (fun _ hs => by by_contra hterm; exact hsm ⟨hs, hterm⟩) htick).advances
    refine ⟨hk.1.advance hmoves ha, fun j hj hjs hjt => ?_⟩
    exact (hk.2 j (hcount ▸ hj) (hsame j hjs) fun hterm =>
      hjt ((ha.terminated j).mpr hterm)).taskTick htick

theorem compensateTicks (h : Settled keep k) {n : Nat} (hk' : k.compensateTicks n = some k') :
    Settled keep k' := by
  refine forTasks_invariant (fun k k' i hi hk hbody => ?_) hk' h
  have htick := compensateTask_cases hbody
  exact hk.advance (hk.consistent.moves (Calls.taskTick htick).moves)
    (taskTick hk.sound.outOfReach hi (by simp) htick).advances

theorem give [NeZero N] {run : Handlers N}
    (hrun : ∀ h a b, run h a = some b → Settled keep a → Settled keep b) (h : Settled keep k)
    {id : Nat} {val : BitVec 32} {yield : Bool} {allowed : Nat → Bool}
    (hkill : ∀ i ∈ k.getTaskById id, k.taskState i = .blockedOnNotify →
      ((k.notify i val).setTaskState (k.sched.tasks i).id .ready).KillsDetached run)
    (hk' : k.give run allowed id val yield = some k') : Settled keep k' := by
  rcases give_cases hk' with rfl | ⟨i, hi, rfl | ⟨hblocked, hk'⟩⟩
  · exact h
  · exact h.advance h.consistent ((refl h.sound.outOfReach).notify i val).advances
  · obtain ⟨hid, hlt⟩ := getTaskById_eq_some.mp hi
    have halive : k.taskState i ≠ .terminated := fun hterm => by
      cases hblocked.symm.trans hterm
    have hwake : Settled keep ((k.notify i val).setTaskState (k.sched.tasks i).id .ready) :=
      h.advance (h.consistent.move (.setTaskState ..))
        (((refl h.sound.outOfReach).notify i val).setState (hid ▸ hlt) halive
          (by decide)).advances
    rcases hk' with rfl | ⟨switched, hs⟩
    · exact hwake
    · exact (hwake.schedule hrun (hkill i hi hblocked) hs).1

/-- The memory-fault handler, if it finds the current task detached and out of its ready list. -/
theorem faulted (h : Settled keep k) (hcur : ∀ i ∈ k.currentTcb, (i : Nat) < k.sched.taskCount ∧
    ¬ k.sched.IsReady i ∧ k.Detached i) : Settled keep k.faulted := by
  unfold Kernel.faulted
  split
  · exact h
  · next i hi =>
    obtain ⟨hlt, hnr, hd⟩ := hcur i hi
    have hstate : ∀ x, ((k.sched.setState i .terminated).tasks x).state =
        if x = i then .terminated else (k.sched.tasks x).state := fun x => by
      rw [Scheduler.setState, Scheduler.tasks_modify]
      split_ifs <;> rfl
    have hid : ∀ x, ((k.sched.setState i .terminated).tasks x).id = (k.sched.tasks x).id :=
      fun x => by
        rw [Scheduler.setState, Scheduler.tasks_modify]
        split_ifs with hx
        · rw [hx]
        · rfl
    have htable : Table (k.sched.setState i .terminated) := by
      refine h.sound.table.congr rfl hid fun x hx => ?_
      rw [hstate, if_neg (fun hxi => by omega)]
    refine ⟨⟨htable, ?_⟩, h.sound.terminated htable rfl hd (fun x hx => ?_) rfl rfl, fun t ht => ?_⟩
    · have hqueued : Queued (k.sched.setState i .terminated) k.sched.IsReady :=
        Queued.modify h.consistent.agrees rfl rfl (.inl hnr)
      refine hqueued.congr fun x => ?_
      rw [Scheduler.IsReady, Scheduler.IsReady, hstate]
      split_ifs with hx
      · rw [hx]
        exact iff_of_false hnr (by decide)
      · exact Iff.rfl
    · exact (hstate x).trans (if_neg hx)
    · refine (hstate t).trans ?_
      split_ifs
      · rfl
      · exact h.kept t ht

end Settled

/-! ## Runs -/

/-- The operations of a run. A task issues IPC operations only while it is ready, a wait is
cancelled at the endpoint the task waits at, other services do not change the state of a terminated
task, and the slot of `keep` is not given back. -/
def Op.IsTaskStep (keep : Option (Fin N)) (k : Kernel N) : Op N → Prop
  | .setTaskState id st =>
    st = .terminated ∨ ∀ i : Fin N, (i : Nat) = id → k.taskState i ≠ .terminated
  | .freeTask tcb => ∀ t ∈ keep, tcb ≠ some t
  | .call _ t .. | .receive _ t .. | .reply t .. => ∀ i ∈ t, k.sched.IsReady i
  | .cancelWaiter e t _ => (t : Nat) < k.sched.taskCount ∧ (k.ipc t).waitingEndpoint = some e
  | _ => True

/-- The operation terminates only tasks that are detached, and the memory-fault handler finds the
current task out of its ready list. -/
def Op.TerminatesDetached [NeZero N] (run : Handlers N) (k : Kernel N) : Op N → Prop
  | .setTaskState id st => st = .terminated → ∀ i : Fin N, (i : Nat) = id → k.Detached i
  | .tickUpdate => ∀ i : Fin N, (i : Nat) < k.sched.taskCount → k.smashed i →
      k.taskState i ≠ .terminated → k.Detached i
  | .schedule _ => k.KillsDetached run
  | .give id val .. => ∀ i ∈ k.getTaskById id, k.taskState i = .blockedOnNotify →
      ((k.notify i val).setTaskState (k.sched.tasks i).id .ready).KillsDetached run
  | .memManage _ =>
    (∀ i ∈ k.currentTcb,
      (i : Nat) < k.sched.taskCount ∧ ¬ k.sched.IsReady i ∧ k.Detached i) ∧
      k.faulted.KillsDetached run
  | _ => True

/-- A step of a run: an operation that meets the condition `ok`, or a change outside contexts,
endpoints and task states, such as a stack that overflows. -/
def TaskStep [NeZero N] (ok : Handlers N → Kernel N → Op N → Prop) (keep : Option (Fin N))
    (run : Handlers N) (k k' : Kernel N) : Prop :=
  (∃ op : Op N, op.IsTaskStep keep k ∧ ok run k op ∧ op.exec run k = some k') ∨
    k'.ipc = k.ipc ∧ k'.endpoints = k.endpoints ∧ ∃ b, k'.sched = { k.sched with started := b }

namespace Settled

variable {keep : Option (Fin N)} {k k' : Kernel N}

theorem boot [NeZero N] : Settled none (boot : Kernel N) where
  consistent := ⟨Table.init _, Agrees.init _⟩
  sound :=
    { table := Table.init _
      bounded := by
        rintro t (⟨e, side, ht⟩ | ⟨i, ht⟩)
        · cases side <;> cases ht
        · cases ht
      detached := fun t ht => by cases ht }
  kept := by simp

theorem step [NeZero N] {run : Handlers N}
    (hrun : ∀ h a b, run h a = some b → Settled keep a → Settled keep b)
    (hstep : TaskStep Op.TerminatesDetached keep run k k') (h : Settled keep k) :
    Settled keep k' := by
  rcases hstep with ⟨op, hop, hok, hexec⟩ | ⟨hipc, hends, b, hsched⟩
  · have hout := h.sound.outOfReach
    have hspares : op.OnlyCalls → Spares _ k k' → Settled keep k' := fun hop hs =>
      h.advance (h.consistent.moves (Op.calls hexec hop).moves) hs.advances
    cases op with
    | createTask stack prio =>
      cases hexec
      unfold createTask
      split
      · exact h
      · next i hfree =>
        refine ⟨h.consistent.createAt hfree prio, h.sound.createAt hfree stack prio, fun t ht => ?_⟩
        have hterm := h.kept t ht
        have hne : t ≠ i := by
          rintro rfl
          have hunalloc : k.taskState t = .unallocated := by
            simpa [taskState] using (find?_finRange hfree).1
          cases hunalloc.symm.trans hterm
        rw [taskState_createAt hne]
        exact hterm
    | setTaskState id st =>
      cases hexec
      by_cases hst : st = .terminated
      · subst hst
        by_cases hid : id < N
        · exact h.terminate (hok rfl ⟨id, hid⟩ rfl)
        · have hsame : k.sched.setTaskState id .terminated = k.sched := by
            simp [Scheduler.setTaskState, hid]
          rw [Kernel.setTaskState, hsame]
          exact h
      · exact hspares trivial ((Spares.refl hout).setTaskState (hop.resolve_left hst) hst)
    | setTaskPriority id p =>
      cases hexec
      exact hspares trivial ((Spares.refl hout).setTaskPriority id p)
    | freeTask tcb =>
      cases hexec
      cases tcb with
      | none => exact h
      | some i =>
        refine ⟨h.consistent.freeTask i, h.sound.freeTask i, fun t ht => ?_⟩
        have hne : t ≠ i := fun hti => hop t ht (hti ▸ rfl)
        rw [taskState_freeTask, if_neg hne]
        exact h.kept t ht
    | sendSignal id sig =>
      cases hexec
      exact hspares trivial (sendSignal hout id sig)
    | handleKill id sig =>
      cases hexec
      exact hspares trivial (handleKill hout id sig)
    | give => exact h.give hrun hok hexec
    | timerExpiry index owner flags param =>
      cases hexec
      exact hspares trivial (timerExpiry hout (fun _ t ht _ => by rw [ht]; decide) index param)
    | tickUpdate => exact h.tickUpdate hok hexec
    | compensateTicks n => exact h.compensateTicks hexec
    | schedule =>
      obtain ⟨⟨k₁, switched⟩, hs, rfl⟩ := map_eq_some_iff.mp hexec
      exact (h.schedule hrun hok hs).1
    | memManage =>
      obtain ⟨⟨k₁, switched⟩, hs, rfl⟩ := map_eq_some_iff.mp hexec
      exact ((h.faulted hok.1).schedule hrun hok.2 hs).1
    | call e t =>
      obtain ⟨⟨k₁, st⟩, hcall, rfl⟩ := map_eq_some_iff.mp hexec
      refine hspares trivial ?_
      cases t with
      | none =>
        cases hcall
        exact Spares.refl hout
      | some t =>
        obtain ⟨hlt, halive⟩ := h.sound.of_ready (hop t rfl)
        exact callFrom hout hlt halive hcall
    | receive e t =>
      obtain ⟨⟨k₁, st⟩, hrecv, rfl⟩ := map_eq_some_iff.mp hexec
      refine hspares trivial ?_
      cases t with
      | none =>
        cases hrecv
        exact Spares.refl hout
      | some t =>
        obtain ⟨hlt, halive⟩ := h.sound.of_ready (hop t rfl)
        exact receiveAt hout hlt halive hrecv
    | reply t id msg len =>
      cases hexec
      exact hspares trivial (reply hout t id msg len)
    | cancelWaiter e t =>
      have halive : k.taskState t ≠ .terminated := fun hterm => by
        cases (h.sound.detached t hterm).waiting.symm.trans hop.2
      exact hspares trivial ((Spares.refl hout).cancelWaiter hop.1 halive hexec)
    | cancelAll =>
      exact hspares trivial (cancelAll hout hexec)
  · have hc : Consistent k'.sched := by
      rw [hsched]
      exact h.consistent.setStarted b
    refine h.advance hc
      ((Spares.refl h.sound.outOfReach).congr hc.toTable ?_ (fun t => ?_) hipc hends).advances
    · rw [hsched]
    · rw [taskState, taskState, hsched]

end Settled

/-- **Termination is final.** Once a task has terminated, in a run whose steps terminate detached
tasks only, it stays terminated and out of the ready lists until its slot is given back; and
`schedule` neither switches to a terminated task nor stays with one while another task is ready. -/
theorem termination_final [NeZero N] {k k' : Kernel N} {t : Fin N}
    (h : Reaches (TaskStep Op.TerminatesDetached none) Kernel.boot k)
    (ht : k.taskState t = .terminated)
    (h' : Reaches (TaskStep Op.TerminatesDetached (some t)) k k') :
    k'.taskState t = .terminated ∧
      (∃ Q, Represents k'.sched Q k'.sched.IsReady ∧ ∀ p, t ∉ Q p) ∧
      ∀ run allowed k'' switched,
        (∀ h a b, run h a = some b →
          Reaches (TaskStep Op.TerminatesDetached (some t)) a b) →
        k'.KillsDetached run →
        k'.schedule (fun h sig => run (h, sig)) allowed = some (k'', switched) →
        ∀ x, k''.taskState x = .terminated →
          (switched = true → k''.nextTcb ≠ some x) ∧
          (k'.sched.started = true → 1 < k'.sched.taskCount → (∃ j, k''.sched.IsReady j) →
            runsNext k'.currentTaskId (k'', switched) ≠ some x) := by
  have hrun : ∀ {a b : Kernel N}, Reaches (TaskStep Op.TerminatesDetached (some t)) a b →
      Settled (some t) a → Settled (some t) b := fun hab =>
    hab.invariant fun _ _ _ hrun hstep hk => hk.step hrun hstep
  have hk : Settled none k :=
    h.invariant (fun _ _ _ hrun hstep hk => hk.step hrun hstep) Settled.boot
  have hk' : Settled (some t) k' := hrun h' ⟨hk.consistent, hk.sound, fun x hx => by
    obtain rfl := some.inj hx
    exact ht⟩
  have hterm := hk'.kept t rfl
  refine ⟨hterm, ?_, fun run allowed k'' switched hcalls hkill hs =>
    (hk'.schedule (fun h a b hab => hrun (hcalls h a b hab)) hkill hs).2⟩
  obtain ⟨Q, hQ⟩ := hk'.consistent.agrees
  refine ⟨Q, hQ, fun p hp => ?_⟩
  cases hterm.symm.trans (hQ.mem_iff.mp hp).1

/-! ## Runs by example -/

instance (keep : Option (Fin N)) (k : Kernel N) : DecidablePred (Op.IsTaskStep keep k) := by
  intro op
  induction op using Op.casesOn <;> dsimp only [Op.IsTaskStep] <;> infer_instance

/-- A task is terminated while it waits in a send queue. -/
def terminatedSender : List (Op 2) :=
  [.createTask true 8, .createTask true 8, .call 0 (some 1) none 0 none 0 ipcTimeoutInfinite 0,
    .setTaskState 1 .terminated]

/-- The other task receives its message and replies: it is ready again. -/
theorem terminated_sender_revives : ∃ k k' : Kernel 2,
    Reaches (TaskStep (fun _ _ _ => True) none) Kernel.boot k ∧ k.taskState 1 = .terminated ∧
      Reaches (TaskStep (fun _ _ _ => True) (some 1)) k k' ∧ k'.taskState 1 = .ready := by
  let ops : List (Op 2) := [.receive 0 (some 0) none 0 ipcNonblock 0, .reply (some 0) 1 none 0]
  let k : Kernel 2 := (Op.execAll terminatedSender boot).get (by decide)
  let k' : Kernel 2 := (Op.execAll ops k).get (by decide)
  have hstep : ∀ keep (a b : Kernel 2) op, Op.IsTaskStep keep a op →
      Op.exec (fun _ _ => none) op a = some b →
      TaskStep (fun _ _ _ => True) keep (fun _ _ => none) a b :=
    fun _ _ _ op hop hexec => .inl ⟨op, hop, trivial, hexec⟩
  exact ⟨k, k', of_actions (hstep none) (by decide) (some_get _).symm, by decide,
    of_actions (hstep (some 1)) (by decide) (some_get _).symm, by decide⟩

theorem detached_twoTasks (i : Fin 2) : twoTasks.Detached i where
  state := by
    revert i
    decide
  waiting := by
    revert i
    decide
  pointed := by
    rintro (⟨e, side, h⟩ | ⟨j, h⟩)
    · cases side <;> cases h
    · revert j i
      decide

/-- The second task is terminated; a signal comes too late for it. -/
theorem termination_final_twoTasks :
    ((twoTasks.setTaskState 1 .terminated).handleKill 1 10).1.taskState 1 = .terminated := by
  have hcreate : Reaches (TaskStep Op.TerminatesDetached none) boot twoTasks :=
    (single (.inl ⟨.createTask true 8, trivial, trivial, rfl⟩)).trans
      (single (.inl ⟨.createTask true 8, trivial, trivial, rfl⟩))
  have hterminate : Reaches (TaskStep Op.TerminatesDetached none) twoTasks
      (twoTasks.setTaskState 1 .terminated) :=
    single (.inl ⟨.setTaskState 1 .terminated, .inl rfl, fun _ i _ => detached_twoTasks i, rfl⟩)
  exact (termination_final (hcreate.trans hterminate) (by decide)
    (single (.inl ⟨.handleKill 1 10, trivial, trivial, rfl⟩))).1

/-- The memory-fault handler leaves the terminated task in its ready list. -/
example : ((Op.execAll [.createTask true 8] (boot : Kernel 1)).map fun k =>
    ((faulted { k with currentTcb := some 0 }).taskState 0,
      (faulted { k with currentTcb := some 0 }).sched.readyHead 8)) =
    some (.terminated, some 0) := by decide

end AuroraOS
