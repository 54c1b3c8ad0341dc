import AuroraOS.Timers

/-!
# Whose timers fire

A process timer names its owner by the number of its slot in the task table, and slots are used
again. `incarnation` counts the tasks that have been created in each slot and `creator` notes which
of them a timer was made for; neither exists in the source.

`timers_stay_with_creator`: if no task ends while it has timers, a timer belongs to a task that has
not ended and that created it, and what the timers do at a tick is done to such tasks. Nothing in
the kernel calls `cleanup_task_timers`, so a task may well end with timers:
`timer_fires_on_successor`.
-/

namespace AuroraOS

open TimedKernel

variable {N : Nat}

/-- The slot holds a task that has not ended. -/
def Kernel.Live (k : Kernel N) (t : Fin N) : Prop :=
  (k.sched.tasks t).state ≠ .terminated ∧ (k.sched.tasks t).state ≠ .unallocated
  deriving Decidable

/-- The kernel with its timers, the number of tasks that each slot has held, and the number of the
task that each timer was created for. -/
structure TimerSystem (N : Nat) where
  timed : TimedKernel N
  incarnation : Fin N → Nat
  creator : Fin 16 → Nat

namespace TimerSystem

def boot [NeZero N] : TimerSystem N where
  timed := ⟨.boot, fun _ => ⟨false, 0⟩, .init 0, fun _ => .zero⟩
  incarnation _ := 0
  creator _ := 0

def withKernel (s : TimerSystem N) (k : Kernel N) : TimerSystem N :=
  { s with timed := { s.timed with kernel := k } }

/-- `create_task`, which begins a new task in the slot that it finds. -/
def createTask (s : TimerSystem N) (stack : Bool) (prio : Nat) : TimerSystem N :=
  match s.timed.kernel.sched.freeSlot with
  | none => s
  | some i =>
    { s.withKernel (s.timed.kernel.createAt i stack prio) with
      incarnation := Function.update s.incarnation i (s.incarnation i + 1) }

/-- `create_timer` by the task in slot `o`. -/
def createTimer (s : TimerSystem N) (o : Fin N) (desc : Option ProcessTimerDesc) : TimerSystem N :=
  let timed := (s.timed.createTimer (some o) desc).1
  { s with
    timed
    creator := fun j =>
      if (timed.process j).allocated ∧ ¬(s.timed.process j).allocated then s.incarnation o
      else s.creator j }

/-- The steps. All that the kernel does besides creating and freeing tasks reaches the scheduler
through `Moves`, apart from the fault handler, which writes the state of a task itself. -/
inductive Step : TimerSystem N → TimerSystem N → Prop
  | createTask (s : TimerSystem N) (stack : Bool) (prio : Nat) : Step s (s.createTask stack prio)
  | freeTask (s : TimerSystem N) (tcb : Option (Fin N)) :
      Step s (s.withKernel (s.timed.kernel.freeTask tcb))
  | kernel {s : TimerSystem N} {k' : Kernel N} (h : s.timed.kernel.Moves k') :
      Step s (s.withKernel k')
  | fault {s : TimerSystem N} {t : Fin N} (h : s.timed.kernel.Live t) :
      Step s (s.withKernel
        { s.timed.kernel with sched := s.timed.kernel.sched.setState t .terminated })
  | createTimer {s : TimerSystem N} (o : Fin N) (desc : Option ProcessTimerDesc)
      (h : s.timed.kernel.Live o) : Step s (s.createTimer o desc)
  | startTimer (s : TimerSystem N) (owner : Option (Fin N)) (timerId : Nat)
      (desc : Option ProcessTimerDesc) :
      Step s { s with timed := (s.timed.startTimer owner timerId desc).1 }
  | stopTimer (s : TimerSystem N) (owner : Option (Fin N)) (timerId : Nat) :
      Step s { s with timed := (s.timed.stopTimer owner timerId).1 }
  | deleteTimer (s : TimerSystem N) (owner : Option (Fin N)) (timerId : Nat) :
      Step s { s with timed := (s.timed.deleteTimer owner timerId).1 }
  | cleanup (s : TimerSystem N) (taskId : Nat) :
      Step s { s with timed := s.timed.cleanupTaskTimers taskId }
  | tick {s : TimerSystem N} {k' : Kernel N} (h : s.timed.onTick.kernel.tickUpdate = some k') :
      Step s { s with timed := { s.timed.onTick with kernel := k' } }
  | skip {s : TimerSystem N} {k' : Kernel N} (n : Nat)
      (h : s.timed.kernel.compensateTicks n = some k') :
      Step s { s with timed := { s.timed with kernel := k' }.fastForwardTicks n }

/-- A task that ends with this step has no timers. -/
def EndsClean (s s' : TimerSystem N) : Prop :=
  ∀ t, s.timed.kernel.Live t → ¬s'.timed.kernel.Live t →
    ∀ j, (s.timed.process j).allocated → (s.timed.process j).ownerTaskId ≠ t
  deriving Decidable

/-- The task in slot `t` has created timer `j` and has not ended. -/
def Owns (s : TimerSystem N) (t : Fin N) (j : Fin 16) : Prop :=
  (s.timed.process j).ownerTaskId = t ∧ s.timed.kernel.Live t ∧ s.creator j = s.incarnation t

structure Inv (s : TimerSystem N) : Prop where
  table : Table s.timed.kernel.sched
  owned : ∀ j, (s.timed.process j).allocated → ∃ t, s.Owns t j

/-! ## The steps keep the invariant -/

variable {s s' : TimerSystem N}

/-- Steps that create neither tasks nor timers. -/
theorem Inv.keep (h : s.Inv) (hclean : s.EndsClean s') (htable : Table s'.timed.kernel.sched)
    (hinc : s'.incarnation = s.incarnation) (hcreator : s'.creator = s.creator)
    (hprocess : ∀ j, (s'.timed.process j).allocated → (s.timed.process j).allocated ∧
      (s'.timed.process j).ownerTaskId = (s.timed.process j).ownerTaskId) : s'.Inv := by
  refine ⟨htable, fun j hj => ?_⟩
  obtain ⟨hj, howner⟩ := hprocess j hj
  obtain ⟨t, ht, hlive, hcr⟩ := h.owned j hj
  refine ⟨t, howner.trans ht, ?_, by rw [hinc, hcreator, hcr]⟩
  by_contra hdead
  exact hclean t hlive hdead j hj ht

theorem Inv.withKernel (h : s.Inv) {k' : Kernel N} (hclean : s.EndsClean (s.withKernel k'))
    (htable : Table k'.sched) : (s.withKernel k').Inv :=
  h.keep hclean htable rfl rfl fun _ hj => ⟨hj, rfl⟩

theorem Inv.createTask (h : s.Inv) (stack : Bool) (prio : Nat) : (s.createTask stack prio).Inv := by
  unfold TimerSystem.createTask
  split
  · exact h
  · next i hfree =>
    have hstate : (s.timed.kernel.sched.tasks i).state = .unallocated := by
      simpa using (Bitmap.find?_finRange hfree).1
    refine ⟨h.table.createAt hfree prio, fun j hj => ?_⟩
    obtain ⟨t, ht, hlive, hcr⟩ := h.owned j hj
    -- a free slot has no timers
    have hti : t ≠ i := fun heq => hlive.2 (heq ▸ hstate)
    have hsame : ((s.timed.kernel.createAt i stack prio).sched.tasks t).state =
        (s.timed.kernel.sched.tasks t).state :=
      Scheduler.state_of_unlinked
      ((Scheduler.createAt_fields s.timed.kernel.sched i prio).2.1 t hti)
    exact ⟨t, ht, ⟨hsame ▸ hlive.1, hsame ▸ hlive.2⟩,
      hcr.trans (Function.update_of_ne hti _ _).symm⟩

theorem createTimer_process (o : Fin N) (desc : Option ProcessTimerDesc) (j : Fin 16) :
    ((s.timed.createTimer (some o) desc).1.process j = s.timed.process j ∨
      ¬(s.timed.process j).allocated ∧
        ((s.timed.createTimer (some o) desc).1.process j).ownerTaskId =
          (s.timed.kernel.sched.tasks o).id) ∧
      (s.timed.createTimer (some o) desc).1.kernel = s.timed.kernel := by
  unfold TimedKernel.createTimer
  cases desc with
  | none => exact ⟨.inl rfl, rfl⟩
  | some d =>
    dsimp only
    split
    · exact ⟨.inl rfl, rfl⟩
    · next i hi =>
      refine ⟨?_, rfl⟩
      by_cases hji : j = i
      · subst hji
        refine .inr ⟨by simpa using (Bitmap.find?_finRange hi).1, ?_⟩
        simp [process_setProcess]
      · exact .inl (by simp [process_setProcess, hji])

theorem Inv.createTimer (h : s.Inv) {o : Fin N} (ho : s.timed.kernel.Live o)
    (desc : Option ProcessTimerDesc) : (s.createTimer o desc).Inv := by
  have hkernel : (s.createTimer o desc).timed.kernel = s.timed.kernel :=
    (createTimer_process o desc 0).2
  refine ⟨hkernel ▸ h.table, fun j hj => ?_⟩
  have hlive : ∀ t, s.timed.kernel.Live t → (s.createTimer o desc).timed.kernel.Live t :=
    fun t ht => hkernel ▸ ht
  by_cases hold : (s.timed.process j).allocated
  · obtain ⟨t, ht, hl, hcr⟩ := h.owned j hold
    have hsame : (s.createTimer o desc).timed.process j = s.timed.process j :=
      (createTimer_process o desc j).1.resolve_right fun hnew => hnew.1 hold
    refine ⟨t, by rw [hsame, ht], hlive t hl, ?_⟩
    change (if _ ∧ ¬(s.timed.process j).allocated then _ else _) = _
    rw [if_neg fun hnew => hnew.2 hold]
    exact hcr
  · rcases (createTimer_process o desc j).1 with hsame | ⟨-, howner⟩
    · exact absurd (hsame ▸ hj) hold
    · refine ⟨o, howner.trans ?_, hlive o ho, ?_⟩
      · rw [h.table.id_of_state ho.2]
      · exact if_pos ⟨hj, hold⟩

section

variable {timed : TimedKernel N}

/-- Calls that rewrite timers of a task keep their owner. -/
theorem Inv.setTimers (h : s.Inv) (hkernel : timed.kernel = s.timed.kernel)
    (hprocess : ∀ j, (timed.process j).allocated → (s.timed.process j).allocated ∧
      (timed.process j).ownerTaskId = (s.timed.process j).ownerTaskId) :
    ({ s with timed } : TimerSystem N).Inv := by
  refine h.keep (fun t hlive hdead => ?_) ?_ rfl rfl hprocess
  · exact absurd (show timed.kernel.Live t from hkernel ▸ hlive) hdead
  · exact hkernel ▸ h.table

theorem setProcess_owner {i : Fin 16} {p : ProcessTimer}
    (hp : p.allocated → (timed.process i).allocated ∧ p.ownerTaskId = (timed.process i).ownerTaskId)
    (j : Fin 16) (hj : ((timed.setProcess i p).process j).allocated) : (timed.process j).allocated ∧
      ((timed.setProcess i p).process j).ownerTaskId = (timed.process j).ownerTaskId := by
  rw [process_setProcess] at hj ⊢
  split_ifs at hj ⊢ with hji
  · subst hji
    exact hp hj
  · exact ⟨hj, rfl⟩

theorem ownTimer_allocated {owner : Option (Fin N)} {timerId : Nat} {i : Fin 16}
    (h : timed.ownTimer owner timerId = some i) : (timed.process i).allocated := by
  unfold ownTimer at h
  split at h
  · cases h
  · dsimp only at h
    split_ifs at h with hlt hown
    cases h
    exact hown.1

theorem Inv.startTimer (h : s.Inv) (owner : Option (Fin N)) (timerId : Nat)
    (desc : Option ProcessTimerDesc) :
    ({ s with timed := (s.timed.startTimer owner timerId desc).1 } : TimerSystem N).Inv := by
  unfold TimedKernel.startTimer
  split
  · exact h
  · next i hi =>
    refine h.setTimers rfl (setProcess_owner fun _ => ⟨ownTimer_allocated hi, ?_⟩)
    cases desc <;> rfl

theorem Inv.stopTimer (h : s.Inv) (owner : Option (Fin N)) (timerId : Nat) :
    ({ s with timed := (s.timed.stopTimer owner timerId).1 } : TimerSystem N).Inv := by
  unfold TimedKernel.stopTimer
  split
  · exact h
  · exact h.setTimers rfl (setProcess_owner fun hp => ⟨hp, rfl⟩)

theorem Inv.deleteTimer (h : s.Inv) (owner : Option (Fin N)) (timerId : Nat) :
    ({ s with timed := (s.timed.deleteTimer owner timerId).1 } : TimerSystem N).Inv := by
  unfold TimedKernel.deleteTimer
  split
  · exact h
  · exact h.setTimers rfl (setProcess_owner fun hp => absurd hp (by decide))

theorem Inv.cleanup (h : s.Inv) (taskId : Nat) :
    ({ s with timed := s.timed.cleanupTaskTimers taskId } : TimerSystem N).Inv := by
  refine h.setTimers rfl fun j hj => ?_
  change (if _ then ProcessTimer.zero else s.timed.process j).allocated = true at hj
  change (s.timed.process j).allocated = true ∧
    (if _ then ProcessTimer.zero else s.timed.process j).ownerTaskId = _
  split_ifs at hj ⊢
  · exact absurd hj (by decide)
  · exact ⟨hj, rfl⟩

/-- The timers after a tick or after skipped ticks: they are still allocated, for the same tasks. -/
theorem fired_owner (htable : Table timed.kernel.sched) (j : Fin 16) :
    (timed.processOnTick.process j).allocated = (timed.process j).allocated ∧
      (timed.processOnTick.process j).ownerTaskId = (timed.process j).ownerTaskId := by
  rw [(processOnTick_fired htable).process j]
  split_ifs
  · unfold ProcessTimer.reload
    split_ifs <;> exact ⟨rfl, rfl⟩
  · exact ⟨rfl, rfl⟩

end

theorem Inv.step (h : s.Inv) (hstep : Step s s') (hclean : s.EndsClean s') : s'.Inv := by
  cases hstep with
  | createTask stack prio => exact h.createTask stack prio
  | freeTask tcb =>
    cases tcb with
    | none => exact h
    | some i => exact h.withKernel hclean (h.table.freeTask i)
  | kernel hmoves => exact h.withKernel hclean (h.table.moves hmoves)
  | fault ht =>
    refine h.withKernel hclean (h.table.setState fun hle => ?_)
    exact absurd (h.table.lt_of_state ht.2) (Nat.not_lt.2 hle)
  | createTimer o desc ho => exact h.createTimer ho desc
  | startTimer owner timerId desc => exact h.startTimer owner timerId desc
  | stopTimer owner timerId => exact h.stopTimer owner timerId
  | deleteTimer owner timerId => exact h.deleteTimer owner timerId
  | cleanup taskId => exact h.cleanup taskId
  | tick htick =>
    have hadv := advance_spec s.timed 1
    have htable := h.table.moves hadv.1
    refine h.keep hclean ?_ rfl rfl fun j hj => ?_
    · exact ((processOnTick_fired htable).delivers.table htable).moves
        (Kernel.Calls.tickUpdate htick).moves
    · obtain ⟨hall, hown⟩ := fired_owner htable j
      rw [hadv.2] at hall hown
      exact ⟨hall ▸ hj, hown⟩
  | @skip k' n hcomp =>
    have hadv := advance_spec { s.timed with kernel := k' } n
    have htable := (h.table.moves (Kernel.Calls.compensateTicks hcomp).moves).moves hadv.1
    refine h.keep hclean ((processOnTick_fired htable).delivers.table htable) rfl rfl fun j hj => ?_
    obtain ⟨hall, hown⟩ := fired_owner htable j
    rw [hadv.2] at hall hown
    exact ⟨hall ▸ hj, hown⟩

theorem inv_boot [NeZero N] : (boot : TimerSystem N).Inv :=
  ⟨Table.init _, fun _ hj => absurd hj Bool.false_ne_true⟩

/-- A run from the start in which every step meets `ok`. -/
def Run [NeZero N] (ok : TimerSystem N → TimerSystem N → Prop) : TimerSystem N → Prop :=
  Relation.ReflTransGen (fun a b => Step a b ∧ ok a b) boot

theorem Run.inv [NeZero N] (h : Run EndsClean s) : s.Inv := by
  induction h with
  | refl => exact inv_boot
  | tail _ hstep ih => exact ih.step hstep.1 hstep.2

/-- **Timers stay with the task that created them.** In every run in which no task ends while it has
timers, an allocated timer belongs to a task that has not ended and that created it, and the process
timers change a task at a tick only if it has created one that is due. -/
theorem timers_stay_with_creator [NeZero N] (hrun : Run EndsClean s) :
    (∀ j, (s.timed.process j).allocated → ∃ t, s.Owns t j) ∧
    ∀ n t, (s.timed.advance n).processOnTick.kernel.view t ≠ (s.timed.advance n).kernel.view t →
      ∃ j, (s.timed.process j).Due (s.timed.advance n).kernel.currentTick ∧ s.Owns t j := by
  have hinv := hrun.inv
  refine ⟨hinv.owned, fun n t hchanged => ?_⟩
  have hadv := advance_spec s.timed n
  have htable := hinv.table.moves hadv.1
  have hfired := processOnTick_fired htable
  by_contra hnone
  apply hchanged
  by_cases ht : (t : Nat) < (s.timed.advance n).kernel.sched.taskCount
  · rw [hfired.view t ht]
    -- no round of the loop is about this task
    refine List.foldl_fixed' (fun j => ?_) _
    unfold timerRound
    rw [if_neg]
    intro hdue
    rw [hadv.2] at hdue
    obtain ⟨t', hown, hlive, hcr⟩ := hinv.owned j hdue.1.1
    obtain rfl : t' = t := Fin.ext (hown.symm.trans hdue.2)
    exact hnone ⟨j, hdue.1, hown, hlive, hcr⟩
  · exact hfired.unused t (Nat.not_lt.1 ht)

/-! ## A task with a timer -/

/-- A timer that is due at once and sends `SIGALRM`. -/
def atOnce : ProcessTimerDesc := ⟨1#32 <<< TimerFlags.absolute, 0, 0, 0⟩

/-- The first task has created a timer. -/
def oneTimer : TimerSystem 1 := (boot.createTask true 8).createTimer 0 (some atOnce)

theorem timers_stay_with_creator_one :
    (oneTimer.timed.advance 1).processOnTick.kernel.view 0 ≠
        (oneTimer.timed.advance 1).kernel.view 0 ∧
      ∃ j, (oneTimer.timed.process j).allocated ∧ oneTimer.Owns 0 j := by
  have hcreate : Run EndsClean (boot.createTask true 8 : TimerSystem 1) :=
    .single ⟨.createTask boot true 8, by decide⟩
  have hrun : Run EndsClean oneTimer := hcreate.tail ⟨.createTimer 0 _ (by decide), by decide⟩
  obtain ⟨t, ht⟩ := (timers_stay_with_creator hrun).1 0 (by decide)
  obtain rfl : t = 0 := Subsingleton.elim t 0
  exact ⟨by decide, 0, by decide, ht⟩

/-- The task is freed and another one takes its slot: the timer of the first is still allocated, and
it sends a signal to the second. -/
theorem timer_fires_on_successor :
    ∃ s : TimerSystem 1, Run (fun _ _ => True) s ∧
      (s.timed.advance 1).processOnTick.kernel.view 0 ≠ (s.timed.advance 1).kernel.view 0 ∧
      ∀ j, (s.timed.process j).allocated → s.creator j ≠ s.incarnation 0 := by
  have hcreate : Run (fun _ _ => True) (boot.createTask true 8 : TimerSystem 1) :=
    .single ⟨.createTask boot true 8, trivial⟩
  have hrun : Run (fun _ _ => True) oneTimer := hcreate.tail ⟨.createTimer 0 _ (by decide), trivial⟩
  have hfree := hrun.tail ⟨.freeTask oneTimer (some 0), trivial⟩
  exact ⟨_, hfree.tail ⟨.createTask _ true 8, trivial⟩, by decide, by decide⟩

end TimerSystem

end AuroraOS
