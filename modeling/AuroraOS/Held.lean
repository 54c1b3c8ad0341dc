import AuroraOS.MutexMoves
import AuroraOS.Semaphore
import AuroraOS.Termination

/-!
# Tasks that are held

A task that has been suspended from outside stays suspended only as long as nothing else wakes it.
`Held Q k` says that nothing can: the tasks of `Q` are suspended or have terminated, no link of an
endpoint leads to them, and they are in no mutex's mask. Everything that other tasks, ticks,
signals, notifications and timers do keeps this, two operations apart (`Op.Avoids`): `free_task`
gives the slot of a held task to somebody else, and a timer that notifies wakes its owner out of a
suspension, too.
-/

namespace AuroraOS

open Run Bitmap Kernel Scheduler Spares Option

variable {N : Nat}

/-- Nothing wakes the tasks of `Q`. -/
structure Held (Q : Fin N → Prop) (k : Kernel N) : Prop where
  consistent : Consistent k.sched
  out : OutOfReach Q k
  stopped : ∀ t, Q t → k.taskState t = .suspended ∨ k.taskState t = .terminated
  waiting : ∀ t, Q t → (k.sched.tasks t).waitingOnMutex = none
  unlisted : ∀ t, Q t → ∀ m, (k.mutexes m).waitMask.getLsbD t = false

/-- The tasks exist and are not in `Q`. -/
def Kernel.Others (Q : Fin N → Prop) (k : Kernel N) (current : Option (Fin N)) : Prop :=
  ∀ t ∈ current, ¬ Q t ∧ (t : Nat) < k.sched.taskCount

/-- Some task is ready once `schedule` has dispatched signals. -/
def Kernel.LeavesReady [NeZero N] (run : Handlers N) (k : Kernel N) : Prop :=
  ∀ k₁, k.dispatchSignals (fun h sig => run (h, sig)) k.currentTaskId = some k₁ →
    ∃ i, k₁.sched.IsReady i

/-- The operations that are not the doing of the tasks of `Q`, and do not resume them. A wait is
cancelled at the endpoint the task waits at. -/
def Op.ByOthers (Q : Fin N → Prop) (k : Kernel N) : Op N → Prop
  | .setTaskState id st => ∀ t : Fin N, Q t → (t : Nat) = id → st = .suspended ∨ st = .terminated
  | .call _ t .. | .receive _ t .. => k.Others Q t
  | .cancelWaiter e t _ => (t : Nat) < k.sched.taskCount ∧ (k.ipc t).waitingEndpoint = some e
  | .memManage _ => False
  | _ => True

/-- No task of `Q` is freed, or notified by a timer of its own. -/
def Op.Avoids (Q : Fin N → Prop) : Op N → Prop
  | .freeTask tcb => ∀ t, Q t → tcb ≠ some t
  | .timerExpiry _ owner flags _ =>
    TimerFlags.Notifies flags → ∀ t : Fin N, Q t → (t : Nat) ≠ owner
  | _ => True

namespace Held

variable {Q Q' : Fin N → Prop} {k k' : Kernel N} {t : Fin N}

section

variable (h : Held Q k) {caller : Option (Fin N)} {i : Fin N}

include h

theorem mono (hsub : ∀ t, Q' t → Q t) : Held Q' k where
  consistent := h.consistent
  out :=
    { table := h.out.table
      bounded := h.out.bounded
      detached := fun t ht => h.out.detached t (hsub t ht)
      calm := fun t ht => h.out.calm t (hsub t ht) }
  stopped t ht := h.stopped t (hsub t ht)
  waiting t ht := h.waiting t (hsub t ht)
  unlisted t ht := h.unlisted t (hsub t ht)

/-- The rule for steps that spare the tasks of `Q` and enter them in no mask. -/
theorem of_spares (hc : Consistent k'.sched) (hs : Spares Q k k')
    (hwait : ∀ t, Q t → (k'.sched.tasks t).waitingOnMutex = (k.sched.tasks t).waitingOnMutex)
    (hmask : ∀ t, Q t → ∀ m, (k'.mutexes m).waitMask.getLsbD t = true →
      (k.mutexes m).waitMask.getLsbD t = true) : Held Q k' where
  consistent := hc
  out := hs.out
  stopped t ht := by
    rw [(hs.state t).resolve_right fun h => h.1 ht]
    exact h.stopped t ht
  waiting t ht := (hwait t ht).trans (h.waiting t ht)
  unlisted t ht m := by
    by_contra hbit
    have hold := hmask t ht m (by simpa using hbit)
    rw [h.unlisted t ht m] at hold
    cases hold

theorem of_calls (hc : k.Calls k') (hs : Spares Q k k') : Held Q k' :=
  h.of_spares (h.consistent.moves hc.moves) hs (fun t _ => hc.moves.waitingOnMutex t)
    fun t _ m hbit => by rwa [hc.mutexes] at hbit

theorem setTaskState {id : Nat} {st : TaskState}
    (hst : ∀ t : Fin N, Q t → (t : Nat) = id → st = .suspended ∨ st = .terminated) :
    Held Q (k.setTaskState id st) := by
  have hstate : ∀ t, Q t → (k.setTaskState id st).taskState t = .suspended ∨
      (k.setTaskState id st).taskState t = .terminated := by
    intro t ht
    rw [taskState_setTaskState]
    split_ifs with hid
    · exact hst t ht hid.1
    · exact h.stopped t ht
  refine ⟨h.consistent.move (.setTaskState ..), ?_, hstate, fun t ht => ?_, h.unlisted⟩
  · refine h.out.of_pointed_imp (h.out.table.setTaskState id st)
      (taskCount_setTaskState ..).ge (fun _ _ => rfl) (fun _ hx => hx) fun t ht => ?_
    rcases hstate t ht with hs | hs
    · rw [hs]
      exact ⟨by decide, by decide⟩
    · rw [hs]
      exact ⟨by decide, by decide⟩
  · exact (lockFields_setTaskState k.sched id st t).2.2.trans (h.waiting t ht)

/-- A task that waits nowhere is suspended: it is held, too. -/
theorem insert (hlt : (t : Nat) < k.sched.taskCount) (hd : k.Detached t)
    (hwait : (k.sched.tasks t).waitingOnMutex = none)
    (hmask : ∀ m, (k.mutexes m).waitMask.getLsbD t = false) :
    Held (fun x => Q x ∨ x = t) (k.setTaskState t .suspended) := by
  have hrest : Held Q (k.setTaskState t .suspended) :=
    h.setTaskState fun _ _ _ => .inl rfl
  have hstate : (k.setTaskState t .suspended).taskState t = .suspended := by
    rw [taskState_setTaskState, if_pos ⟨rfl, hlt⟩]
  have hcases : ∀ {P : Fin N → Prop}, (∀ x, Q x → P x) → P t → ∀ x, Q x ∨ x = t → P x := by
    intro P hQ ht x hx
    rcases hx with hx | rfl
    · exact hQ x hx
    · exact ht
  refine ⟨hrest.consistent, ⟨hrest.out.table, hrest.out.bounded, ?_, ?_⟩, ?_, ?_, ?_⟩
  · exact hcases hrest.out.detached (hd.congr rfl rfl)
  · exact hcases hrest.out.calm (by rw [hstate]; exact ⟨by decide, by decide⟩)
  · exact hcases hrest.stopped (.inl hstate)
  · exact hcases hrest.waiting
      ((lockFields_setTaskState k.sched t .suspended t).2.2.trans hwait)
  · exact hcases hrest.unlisted hmask

/-! ## Mutexes -/

theorem setTaskPriority (id p : Nat) : Held Q (k.setTaskPriority id p) :=
  h.of_calls (.setTaskPriority ..) ((Spares.refl h.out).setTaskPriority id p)

theorem setSleepTicks (i : Fin N) (n : Nat) : Held Q (k.setSleepTicks i n) :=
  h.of_calls (.setSleepTicks ..) ((Spares.refl h.out).setSleepTicks i n)

/-- A change of a control block that neither lists nor states depend on. -/
theorem modify {f : SchedulerContext N → SchedulerContext N}
    (hc : Consistent (k.sched.modify i f)) (hstate : ∀ c, (f c).state = c.state)
    (hwait : Q i → ∀ c, (f c).waitingOnMutex = c.waitingOnMutex) :
    Held Q { k with sched := k.sched.modify i f } := by
  refine h.of_spares hc ((refl h.out).congr hc.toTable rfl (fun t => ?_) rfl rfl)
    (fun t ht => ?_) fun _ _ _ hbit => hbit
  · exact congrFun (k.taskState_modify i hstate) t
  · rw [tasks_modify]
    split_ifs with hti
    · subst hti
      exact hwait ht _
    · rfl

theorem modifyMutex (m : MutexId) {f : Mutex N → Mutex N}
    (hf : ∀ t : Fin N, Q t → (f (k.mutexes m)).waitMask.getLsbD t = true →
      (k.mutexes m).waitMask.getLsbD t = true) : Held Q (k.modifyMutex m f) := by
  refine h.of_spares h.consistent
    ((refl h.out).congr h.out.table rfl (fun _ => rfl) rfl rfl) (fun _ _ => rfl)
    fun t ht m' hbit => ?_
  rw [mutexes_modifyMutex, Function.update_apply] at hbit
  split_ifs at hbit with hm
  · rw [hm]
    exact hf t ht hbit
  · exact hbit

/-- One of the changes that a section of `lock` or `unlock` consists of. -/
theorem lockMove (hcaller : k.Others Q caller)
    (hmove : k.LockMove caller k') : Held Q k' := by
  have hid : ∀ t, caller = some t → ((k.sched.tasks t).id : Nat) = t := fun t ht =>
    congrArg Fin.val (h.consistent.id t (hcaller t ht).2)
  cases hmove with
  | priority id p => exact h.setTaskPriority id p
  | errno t e =>
    exact h.of_calls ⟨.of_eq rfl, rfl⟩ ((Spares.refl h.out).congr h.out.table rfl
      (fun _ => rfl) rfl rfl)
  | held t o =>
    exact h.modify (h.consistent.modify rfl rfl rfl rfl rfl) (fun _ => rfl) fun _ _ => rfl
  | mutex m hf => exact h.modifyMutex m fun t _ hbit => by rwa [hf] at hbit
  | waiting ht o =>
    exact h.modify (h.consistent.modify rfl rfl rfl rfl rfl) (fun _ => rfl)
      fun hq => absurd hq (hcaller _ ht).1
  | @enlist x ht m =>
    refine h.modifyMutex m fun t hq hbit => getLsbD_of_setBit hbit fun hv => ?_
    rw [hid x ht] at hv
    exact (hcaller x ht).1 (Fin.ext hv ▸ hq)
  | delist m hw => exact h.modifyMutex m fun t _ hbit => hw t hbit
  | ticks ht n => exact h.setSleepTicks _ n
  | park ht hst =>
    refine h.setTaskState fun t hq hv => ?_
    rw [hid _ ht] at hv
    exact absurd (Fin.ext hv ▸ hq) (hcaller _ ht).1
  | wake m hb =>
    refine (h.modifyMutex m fun t _ hbit => getLsbD_of_clearBit hbit).setTaskState fun t hq hv => ?_
    have hbit := h.unlisted t hq m
    rw [Fin.ext hv, hb.1] at hbit
    cases hbit

theorem lockMoves (hcaller : k.Others Q caller)
    (hmoves : k.LockMoves caller k') : Held Q k' := by
  refine (hmoves.invariant (P := fun k => Held Q k ∧ k.Others Q caller) (fun k₁ k₂ hmove hk => ?_)
    ⟨h, hcaller⟩).1
  refine ⟨hk.1.lockMove hk.2 hmove, fun t ht => ?_⟩
  rw [hmove.taskCount_eq]
  exact hk.2 t ht

/-! ## Semaphores -/

theorem semaphoreWait (ht : k.Others Q (some t)) (sem : Semaphore) (timeoutTicks startTick : Nat) :
    Held Q (sem.waitRetry k t timeoutTicks startTick).1.1 := by
  have hid : ((k.sched.tasks t).id : Nat) = t := congrArg Fin.val (h.consistent.id t (ht t rfl).2)
  have hpark : ∀ {k' : Kernel N} {st : TaskState}, Held Q k' →
      Held Q (k'.setTaskState (k.sched.tasks t).id st) := by
    intro k' st hk'
    refine hk'.setTaskState fun x hq hv => ?_
    rw [hid] at hv
    exact absurd (Fin.ext hv ▸ hq) (ht t rfl).1
  unfold Semaphore.waitRetry
  split_ifs
  · exact h
  · exact h
  · exact hpark (h.setSleepTicks t _)
  · exact hpark h

theorem semaphoreSignal {sem : Semaphore} (hmask : ∀ t, Q t → sem.waitMask.getLsbD t = false) :
    Held Q (sem.signal k).1 := by
  rcases sem.signal_cases k with ⟨heq, -⟩ | ⟨b, hb, heq⟩
  · rw [heq]
    exact h
  · rw [heq]
    refine h.setTaskState fun t hq hv => ?_
    have hbit := hmask t hq
    rw [Fin.ext hv, hb.1] at hbit
    cases hbit

/-! ## Operations -/

theorem taskTick {c : Bool} (hi : (i : Nat) < k.sched.taskCount)
    (htick : Kernel.TaskTick c k i k') : Held Q k' := by
  have hother : Kernel.TaskTick false k i k' → Held Q k' := fun htick =>
    h.of_calls (.taskTick htick) (Spares.taskTick h.out hi (by simp) htick)
  cases htick with
  | keep => exact h
  | smash => exact h.setTaskState fun _ _ _ => .inr rfl
  | count n => exact hother (.count n)
  | wake n hs => exact hother (.wake n hs)
  | expire n hw hk' => exact hother (.expire n hw hk')

theorem createTask (stack : Bool) (prio : Nat) :
    Held Q (k.createTask stack prio).1 ∧ ∀ t, Q t → (k.createTask stack prio).2 ≠ some t := by
  unfold Kernel.createTask
  split
  · exact ⟨h, by simp⟩
  · next i hfree =>
    have hunused : k.taskState i = .unallocated := by
      simpa [taskState] using (find?_finRange hfree).1
    have hne : ∀ t, Q t → t ≠ i := by
      rintro t ht rfl
      rcases h.stopped t ht with hs | hs
      · cases hunused.symm.trans hs
      · cases hunused.symm.trans hs
    refine ⟨⟨h.consistent.createAt hfree prio, h.out.createAt hfree
      (fun hq => hne i hq rfl) stack prio,
      fun t ht => ?_, fun t ht => ?_, h.unlisted⟩, fun t ht heq => hne t ht (some.inj heq).symm⟩
    · rw [taskState_createAt (hne t ht)]
      exact h.stopped t ht
    · have hother := (createAt_fields k.sched i prio).2.1 t (hne t ht)
      exact (congrArg SchedulerContext.waitingOnMutex hother).trans (h.waiting t ht)

theorem freeTask (hi : ¬ Q i) : Held Q (k.freeTask (some i)) := by
  have hne : ∀ t, Q t → t ≠ i := fun t ht hti => hi (hti ▸ ht)
  refine ⟨h.consistent.freeTask i, h.out.freeTask i, fun t ht => ?_, fun t ht => ?_, h.unlisted⟩
  · rw [taskState_freeTask, if_neg (hne t ht)]
    exact h.stopped t ht
  · have hother := congrArg SchedulerContext.waitingOnMutex (unlinked_freeTask k.sched i t)
    rw [if_neg (hne t ht)] at hother
    exact hother.trans (h.waiting t ht)

theorem modifySecurity (i : Fin N) (f : SecurityContext → SecurityContext) :
    Held Q (k.modifySecurity i f) :=
  h.of_calls ⟨.of_eq rfl, rfl⟩ ((Spares.refl h.out).modifySecurity i f)

theorem rotate {s : Scheduler N} {cur : Fin N} (hs : k.sched.rotate cur = some s)
    (next : Option (Fin N)) : Held Q { k with sched := s, nextTcb := next } := by
  refine h.of_spares (h.consistent.rotate hs) ((refl h.out).rotate hs next) (fun t _ => ?_)
    fun _ _ _ hbit => hbit
  simp only [tasks_rotate hs]

end

theorem dispatchSignals {run : Handlers N}
    (hrun : ∀ h a b, run h a = some b → Held Q a → Held Q b) (h : Held Q k) {i : Fin N}
    (hk' : k.dispatchSignals (fun h sig => run (h, sig)) i = some k') : Held Q k' := by
  simp only [Kernel.dispatchSignals, Option.bind_eq_bind, Option.bind_eq_some_iff] at hk'
  obtain ⟨⟨k₁, killed⟩, hdisp, hk'⟩ := hk'
  have h₁ : Held Q k₁ := dispatchPending_invariant (fun _ i f hk => hk.modifySecurity i f)
    (fun h sig => hrun (h, sig)) hdisp h
  cases hk'
  split_ifs
  · exact h₁.setTaskState fun _ _ _ => .inr rfl
  · exact h₁

section Schedule

variable [NeZero N] {run : Handlers N}

/-- **`schedule` keeps the tasks of `Q` held, and selects none of them.** -/
theorem schedule (hrun : ∀ h a b, run h a = some b → Held Q a → Held Q b) {allowed : Nat → Bool}
    {switched : Bool} (h : Held Q k)
    (hs : k.schedule (fun h sig => run (h, sig)) allowed = some (k', switched)) :
    Held Q k' ∧ (k.sched.started = true → 1 < k.sched.taskCount → k.LeavesReady run →
      ∀ t, Q t → runsNext k.currentTaskId (k', switched) ≠ some t) := by
  unfold Kernel.schedule at hs
  split_ifs at hs with hidle
  · cases hs
    refine ⟨h, fun hstarted hcount => ?_⟩
    rcases hidle with hidle | hidle
    · simp [hstarted] at hidle
    · omega
  · obtain ⟨k₁, hdisp, hre⟩ := bind_eq_some_iff.mp hs
    have h₁ := h.dispatchSignals hrun hdisp
    obtain ⟨s, next, hrot, hnext, hk'⟩ := reschedule_cases hre
    have h₂ := fun n => h₁.rotate hrot n
    have hpicked := (h₂ none).consistent.selectNext hnext
    have hfree : k.LeavesReady run → ∀ t, Q t → next ≠ t := by
      rintro hleaves t ht rfl
      rcases hpicked with hready | ⟨-, hnone⟩
      · rcases (h₂ none).stopped next ht with hstop | hstop
        · cases hstop.symm.trans hready
        · cases hstop.symm.trans hready
      · obtain ⟨i, hi⟩ := hleaves k₁ hdisp
        refine hnone i ?_
        rwa [Scheduler.IsReady, tasks_rotate hrot]
    rcases hk' with ⟨hcur, rfl, rfl⟩ | ⟨hcur, rfl, rfl⟩
    · refine ⟨h₂ _, fun _ _ hleaves t ht heq => hfree hleaves t ht ?_⟩
      exact hcur.trans (some.inj heq)
    · exact ⟨h₂ _, fun _ _ hleaves t ht heq => hfree hleaves t ht (some.inj heq)⟩

/-- **What others do keeps the tasks of `Q` held.** -/
theorem exec (hrun : ∀ h a b, run h a = some b → Held Q a → Held Q b) {op : Op N}
    (hop : op.ByOthers Q k) (hok : op.Avoids Q) (hexec : op.exec run k = some k') (h : Held Q k) :
    Held Q k' := by
  have hsched : ∀ {k k' : Kernel N} {allowed switched}, Held Q k →
      k.schedule (fun h sig => run (h, sig)) allowed = some (k', switched) → Held Q k' :=
    fun hk hs => (hk.schedule hrun hs).1
  cases op with
  | createTask stack prio =>
    cases hexec
    exact (h.createTask stack prio).1
  | setTaskState =>
    cases hexec
    exact h.setTaskState hop
  | setTaskPriority id p =>
    cases hexec
    exact h.setTaskPriority id p
  | freeTask tcb =>
    cases hexec
    cases tcb with
    | none => exact h
    | some i => exact h.freeTask fun hq => hok i hq rfl
  | sendSignal id sig =>
    cases hexec
    exact h.of_calls (.sendSignal ..) (sendSignal h.out id sig)
  | handleKill id sig =>
    cases hexec
    exact h.of_calls (.handleKill ..) (handleKill h.out id sig)
  | give id val =>
    rcases give_cases hexec with rfl | ⟨i, hi, hk'⟩
    · exact h
    · have hnote : Held Q (k.notify i val) :=
        h.of_calls ⟨.of_eq rfl, rfl⟩ ((Spares.refl h.out).notify i val)
      rcases hk' with rfl | ⟨hblocked, hk'⟩
      · exact hnote
      · have hwake : Held Q ((k.notify i val).setTaskState (k.sched.tasks i).id .ready) := by
          obtain ⟨hid, hlt⟩ := getTaskById_eq_some.mp hi
          refine hnote.setTaskState fun t hq hv => ?_
          rw [h.consistent.id i (hid ▸ hlt)] at hv
          exact absurd hblocked (Fin.ext hv ▸ (h.out.calm t hq).2)
        rcases hk' with rfl | ⟨switched, hs⟩
        · exact hwake
        · exact hsched hwake hs
  | timerExpiry index owner flags param =>
    cases hexec
    exact h.of_calls (.timerExpiry ..)
      (timerExpiry h.out (fun hflags t hq hv => absurd hv (hok hflags t hq)) index param)
  | tickUpdate =>
    exact forTasks_invariant (fun _ _ _ hi hk hbody => hk.taskTick hi
      (tickTask_cases hbody)) hexec h
  | compensateTicks n =>
    exact forTasks_invariant (fun _ _ _ hi hk hbody => hk.taskTick hi
      (compensateTask_cases hbody)) hexec h
  | schedule =>
    obtain ⟨⟨k₁, switched⟩, hs, rfl⟩ := map_eq_some_iff.mp hexec
    exact hsched h hs
  | memManage => exact hop.elim
  | call e t =>
    obtain ⟨⟨k₁, st⟩, hcall, rfl⟩ := map_eq_some_iff.mp hexec
    refine h.of_calls (.call hcall) ?_
    cases t with
    | none =>
      cases hcall
      exact .refl h.out
    | some t => exact callFrom h.out (hop t rfl).2 (hop t rfl).1 hcall
  | receive e t =>
    obtain ⟨⟨k₁, st⟩, hrecv, rfl⟩ := map_eq_some_iff.mp hexec
    refine h.of_calls (.receive hrecv) ?_
    cases t with
    | none =>
      cases hrecv
      exact .refl h.out
    | some t => exact receiveAt h.out (hop t rfl).2 (hop t rfl).1 hrecv
  | reply t id msg len =>
    cases hexec
    exact h.of_calls (.reply ..) (reply h.out t id msg len)
  | cancelWaiter e t =>
    have hother : ¬ Q t := fun hq => by
      cases (h.out.detached t hq).waiting.symm.trans hop.2
    exact h.of_calls (.cancelWaiter hexec) ((Spares.refl h.out).cancelWaiter hop.1 hother hexec)
  | cancelAll =>
    exact h.of_calls (.cancelAll hexec) (cancelAll h.out hexec)

end Schedule

end Held

end AuroraOS
