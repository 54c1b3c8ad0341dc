import AuroraOS.Moves
import AuroraOS.Selection
import AuroraOS.TaskTable

/-!
# The ready lists along runs of the scheduler

After `Scheduler::init`, the ready lists, the bitmap and the task states agree after every sequence
of calls into the scheduler, with any arguments, whatever the rest of the kernel and the signal
handlers do in between.

`free_task` finds a task's list through the task's `id`, so the invariant includes the task table.
-/

namespace AuroraOS

open Run Kernel Scheduler

variable {N : Nat}

/-- Ready lists and task table are as they should be. -/
structure Consistent (s : Scheduler N) : Prop extends Table s where
  agrees : Agrees s

/-! ## The calls keep the invariant -/

namespace Consistent

variable {s s' : Scheduler N}

variable (h : Consistent s)

include h

/-- Fields that neither the lists nor the table depend on may change. -/
theorem modify {i : Fin N} {f : SchedulerContext N → SchedulerContext N}
    (hn : (f (s.tasks i)).nextReady = (s.tasks i).nextReady)
    (hp : (f (s.tasks i)).prevReady = (s.tasks i).prevReady)
    (hprio : (f (s.tasks i)).currentPriority = (s.tasks i).currentPriority)
    (hid : (f (s.tasks i)).id = (s.tasks i).id)
    (hstate : (f (s.tasks i)).state = (s.tasks i).state) : Consistent (s.modify i f) := by
  have hsame : ∀ j, ((s.modify i f).tasks j).state = (s.tasks j).state := fun j => by
    rw [tasks_modify]
    split_ifs with hji
    · rw [hji, hstate]
    · rfl
  refine ⟨h.toTable.congr rfl (fun j => ?_) fun j _ => hsame j, ?_⟩
  · rw [tasks_modify]
    split_ifs with hji
    · rw [hji, hid]
    · rfl
  · refine (Queued.modify h.agrees hn hp (.inr hprio)).congr fun j => ?_
    rw [Scheduler.IsReady, Scheduler.IsReady, hsame]

theorem move (hmove : Scheduler.Move s s') : Consistent s' := by
  cases hmove with
  | setTaskState id st =>
    exact ⟨h.toTable.setTaskState id st, h.agrees.setTaskState id st⟩
  | setTaskPriority id p =>
    exact ⟨h.toTable.setTaskPriority id p, h.agrees.setTaskPriority id p⟩
  | setSleepTicks i n => exact h.modify rfl rfl rfl rfl rfl

theorem createAt {i : Fin N} (hi : s.freeSlot = some i) (prio : Nat) :
    Consistent (s.createAt i prio) := by
  refine ⟨h.toTable.createAt hi prio, h.agrees.createAt (fun hr => ?_) prio⟩
  have hfree := (Bitmap.find?_finRange hi).1
  simp [show (s.tasks i).state = .ready from hr] at hfree

theorem freeTask (i : Fin N) : Consistent (s.freeTask i) := by
  exact ⟨h.toTable.freeTask i, h.agrees.freeTask fun hr => h.id_of_state (by rw [hr]; decide)⟩

theorem setStarted (b : Bool) : Consistent { s with started := b } := by
  obtain ⟨Q, hQ⟩ := h.agrees
  exact ⟨h.toTable.congr rfl (fun _ => rfl) fun _ _ => rfl,
    Q, hQ.toThreads.congr rfl rfl rfl (fun _ _ _ => rfl) rfl, hQ.mem⟩

theorem rotate {cur : Fin N} (hs : s.rotate cur = some s') : Consistent s' := by
  have htasks := tasks_rotate hs
  exact ⟨h.toTable.congr (taskCount_rotate hs) (by simp [htasks]) (by simp [htasks]),
    h.agrees.rotate hs⟩

end Consistent

/-! ## Runs -/

/-- The calls into the scheduler that a run may make. -/
def Op.IsSchedulerCall : Op N → Prop
  | .createTask .. | .setTaskState .. | .setTaskPriority .. | .freeTask .. | .sendSignal ..
  | .tickUpdate | .compensateTicks .. | .schedule .. => True
  | _ => False

/-- A step of a run: a call into the scheduler, or any change around it, such as starting it. -/
def SchedulerStep [NeZero N] (run : Handlers N) (k k' : Kernel N) : Prop :=
  (∃ op : Op N, op.IsSchedulerCall ∧ op.exec run k = some k') ∨
    ∃ b, k'.sched = { k.sched with started := b }

namespace Consistent

variable {k k' : Kernel N}

theorem moves (h : Consistent k.sched) (hmoves : k.Moves k') : Consistent k'.sched :=
  Scheduler.Moves.invariant (fun _ _ hmove hs => hs.move hmove) hmoves h

theorem schedule [NeZero N] {run : SignalHandler → Nat → Kernel N → Option (Kernel N)}
    (hrun : ∀ h sig a b, run h sig a = some b → Consistent a.sched → Consistent b.sched)
    {allowed : Nat → Bool} {switched : Bool} (h : Consistent k.sched)
    (hs : k.schedule run allowed = some (k', switched)) : Consistent k'.sched := by
  refine Kernel.schedule_invariant (fun _ _ _ hk => hk) hrun
    (fun _ _ hk => ?_) (fun _ _ _ _ hrot hk => ?_) hs h
  · exact hk.move (.setTaskState ..)
  · exact hk.rotate hrot

/-- Every operation but the memory-fault handler keeps the invariant. -/
theorem exec [NeZero N] {run : Handlers N}
    (hrun : ∀ h a b, run h a = some b → Consistent a.sched → Consistent b.sched) {op : Op N}
    (hop : ∀ allowed, op ≠ .memManage allowed) (hexec : op.exec run k = some k')
    (h : Consistent k.sched) : Consistent k'.sched := by
  have hsched : ∀ {k k' : Kernel N} {allowed switched}, Consistent k.sched →
      k.schedule (fun h sig => run (h, sig)) allowed = some (k', switched) →
      Consistent k'.sched := fun hk hs => hk.schedule (fun h sig => hrun (h, sig)) hs
  cases op with
  | createTask stack prio =>
    cases hexec
    unfold Kernel.createTask
    split
    · exact h
    · next i hi => exact h.createAt hi prio
  | freeTask tcb =>
    cases hexec
    cases tcb with
    | none => exact h
    | some i => exact h.freeTask i
  | give id val =>
    rcases Kernel.give_cases hexec with rfl | ⟨i, -, rfl | ⟨-, hk'⟩⟩
    · exact h
    · exact h
    · have hwake : Consistent ((k.notify i val).setTaskState (k.sched.tasks i).id .ready).sched :=
        h.move (.setTaskState ..)
      rcases hk' with rfl | ⟨switched, hs⟩
      · exact hwake
      · exact hsched hwake hs
  | schedule =>
    obtain ⟨⟨k₁, switched⟩, hs, rfl⟩ := Option.map_eq_some_iff.mp hexec
    exact hsched h hs
  | memManage allowed => exact absurd rfl (hop allowed)
  | _ => exact h.moves (Op.calls hexec trivial).moves

theorem step [NeZero N] {run : Handlers N}
    (hrun : ∀ h a b, run h a = some b → Consistent a.sched → Consistent b.sched)
    (hstep : SchedulerStep run k k') (h : Consistent k.sched) : Consistent k'.sched := by
  rcases hstep with ⟨op, hop, hexec⟩ | ⟨b, hsched⟩
  · refine h.exec hrun (fun allowed hop' => ?_) hexec
    rw [hop'] at hop
    exact hop
  · rw [hsched]
    exact h.setStarted b

end Consistent

/-- **The ready lists along every run.** After `init` and any sequence of scheduler calls, each
list is a ring that holds exactly the ready tasks of its level, bit and head of a level are set
exactly when its list is not empty, and a task that is not ready has no links. -/
theorem ready_lists_agree [NeZero N] (k₀ : Kernel N) {k : Kernel N}
    (h : Reaches SchedulerStep { k₀ with sched := k₀.sched.init } k) : Agrees k.sched := by
  have hinit : Consistent k₀.sched.init := ⟨Table.init _, Agrees.init _⟩
  exact (h.invariant (P := fun k => Consistent k.sched)
    (fun _ _ _ hrun hstep hk => hk.step hrun hstep) hinit).agrees

/-- Each list holds exactly the ready tasks whose priority is its level. -/
def ListsByPriority (s : Scheduler N) : Prop :=
  ∃ Q, Threads s Q ∧ ∀ i p, i ∈ Q p ↔ s.IsReady i ∧ (s.tasks i).currentPriority = p

/-- A task of priority 40 is kept on level 31. -/
theorem not_listsByPriority_createTask :
    Reaches SchedulerStep (boot : Kernel 1) (boot.createTask true 40).1 ∧
      ¬ ListsByPriority (boot.createTask (N := 1) true 40).1.sched := by
  refine ⟨Reaches.single (.inl ⟨.createTask true 40, trivial, rfl⟩), ?_⟩
  rintro ⟨Q, hQ, hmem⟩
  have hhead : (Q 31).head? = some 0 := (hQ.head 31).symm.trans rfl
  exact absurd ((hmem 0 31).mp (List.mem_of_mem_head? hhead)).2 (by decide)

/-- Of three tasks on one level, the second changes its level and the first ends. -/
def levelChanges : List (Op 3) :=
  [.createTask true 8, .createTask true 8, .createTask true 8, .setTaskPriority 1 3,
    .freeTask (some 0)]

theorem ready_lists_agree_levelChanges :
    ∃ k, Op.execAll levelChanges boot = some k ∧ Agrees k.sched := by
  refine ⟨_, rfl, ready_lists_agree boot (Reaches.of_actions (l := levelChanges)
    (P := fun _ op => op.IsSchedulerCall) (fun _ _ op hop hexec => .inl ⟨op, hop, hexec⟩) ?_ rfl)⟩
  simp [levelChanges, Allowed, Op.IsSchedulerCall]

end AuroraOS
