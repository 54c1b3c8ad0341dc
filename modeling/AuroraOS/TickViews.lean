import AuroraOS.IpcRuns
import AuroraOS.Timers

/-!
# Ticks, task by task

The loops of `tick_update` and `compensate_ticks` treat one task after the other. On a kernel whose
queues are in order and whose stack canaries are intact, the loops come back, and each task ends up
as `TaskView.tick` and `TaskView.compensate` say, whatever the others do.
-/

namespace AuroraOS

open TaskView Scheduler.Moves List

variable {N : Nat}

namespace TaskView

/-- A wait that has timed out. -/
def expired (v : TaskView) : TaskView :=
  { v with state := .ready, sleepTicks := 0, ipcState := .ready, ipcStatus := .timeout }

/-- A round of `tick_update`, the stack canary being intact. -/
def tick (v : TaskView) : TaskView :=
  if v.state = .sleeping then
    { v with
      sleepTicks := v.sleepTicks - 1
      state := if v.sleepTicks - 1 = 0 then .ready else v.state }
  else if v.ipcState.waits ∧ v.sleepTicks > 0 then
    if v.sleepTicks - 1 = 0 then v.expired else { v with sleepTicks := v.sleepTicks - 1 }
  else v

/-- A round of `compensate_ticks`. -/
def compensate (skipped : Nat) (v : TaskView) : TaskView :=
  if v.state = .sleeping ∧ v.sleepTicks > 0 then
    if v.sleepTicks > skipped then { v with sleepTicks := v.sleepTicks - skipped }
    else { v with sleepTicks := 0, state := .ready }
  else if v.ipcState.waits ∧ v.sleepTicks > 0 then
    if v.sleepTicks > skipped then { v with sleepTicks := v.sleepTicks - skipped } else v.expired
  else v

end TaskView

namespace Kernel

variable {k k' : Kernel N} {body : Kernel N → Fin N → Option (Kernel N)}

/-- What the ticks rely on. -/
structure Intact (k : Kernel N) : Prop where
  table : Table k.sched
  queues : ∃ L, QueueInv k L
  canary : ∀ i : Fin N, (i : Nat) < k.sched.taskCount → ¬k.smashed i

/-- The tasks in `l` have been treated as `f` says, and the others left alone. -/
structure Passes (f : TaskView → TaskView) (l : List (Fin N)) (k k' : Kernel N) : Prop where
  moves : k.Moves k'
  tick : k'.currentTick = k.currentTick
  task : k'.task = k.task
  queues : ∃ L, QueueInv k' L
  view : ∀ t : Fin N, k'.view t =
    if t ∈ l ∧ (t : Nat) < k.sched.taskCount then f (k.view t) else k.view t

theorem Passes.taskCount {f : TaskView → TaskView} {l : List (Fin N)} (h : Passes f l k k') :
    k'.sched.taskCount = k.sched.taskCount := h.moves.fixed.1

theorem Intact.of_moves (hk : k.Intact) (hmoves : k.Moves k') (htask : k'.task = k.task)
    (hqueues : ∃ L, QueueInv k' L) : k'.Intact where
  table := hk.table.moves hmoves
  queues := hqueues
  canary i hi := by
    rw [hmoves.fixed.1] at hi
    unfold smashed
    rw [htask]
    exact hk.canary i hi

theorem Passes.intact {f : TaskView → TaskView} {l : List (Fin N)} (h : Passes f l k k')
    (hk : k.Intact) :
    k'.Intact := hk.of_moves h.moves h.task h.queues

/-! ## A wait ends -/

section Expire

variable {k k' : Kernel N} {i : Fin N}

theorem view_recalculateById (k : Kernel N) (id : Nat) (t : Fin N) :
    (k.recalculateById id).view t = k.view t := by
  unfold recalculateById
  split
  · rfl
  · exact view_setTaskPriority ..

theorem Turns.endWait (htable : Table k.sched) (hi : (i : Nat) < k.sched.taskCount) :
    k.Turns i expired (k.endWait i .timeout) := by
  have hnote : k.Turns i (fun v => { v with ipcState := .ready, ipcStatus := .timeout })
      (k.modifyIpc i fun c =>
        { c with waitingEndpoint := none, state := .ready, status := .timeout }) :=
    .modifyIpc _ rfl
  refine (hnote.trans (.setSleepTicks _ i 0)).trans (.setTaskState ?_ (by exact hi) .ready)
  rw [Kernel.setSleepTicks, Scheduler.setSleepTicks, Scheduler.tasks_modify, if_pos rfl]
  exact congrArg Fin.val (htable.id i hi)

theorem Passes.of_turns {f : TaskView → TaskView} (hi : (i : Nat) < k.sched.taskCount)
    (hmoves : k.Moves k') (htick : k'.currentTick = k.currentTick) (htask : k'.task = k.task)
    (hqueues : ∃ L, QueueInv k' L) (hturns : k.Turns i f k') : Passes f [i] k k' := by
  refine ⟨hmoves, htick, htask, hqueues, fun t => (hturns t).trans (if_congr ?_ rfl rfl)⟩
  rw [mem_singleton]
  exact ⟨fun h => ⟨h, h ▸ hi⟩, fun h => h.1⟩

/-- The wait of a task ends when its ticks have run down. -/
theorem expire_passes (hk : k.Intact) (hi : (i : Nat) < k.sched.taskCount) :
    ∃ k', (k.setSleepTicks i 0).expire i = some k' ∧ Passes expired [i] k k' := by
  obtain ⟨L, hL⟩ := hk.queues
  have hL₁ := (hL.setSched (k.sched.setSleepTicks i 0) .timeout).1
  have hmoves : k.Moves (k.setSleepTicks i 0) := (refl _).setSleepTicks i 0
  have htable := hk.table.setSleepTicks i 0
  have hturns : ∀ t,
      (if t = i then ((k.setSleepTicks i 0).view t).expired else (k.setSleepTicks i 0).view t) =
      if t = i then (k.view t).expired else k.view t := by
    intro t
    rw [Turns.setSleepTicks k i 0 t]
    split_ifs <;> rfl
  unfold expire
  cases hw : ((k.setSleepTicks i 0).ipc i).waitingEndpoint with
  | some e =>
    obtain ⟨k', hk', L', hL', -⟩ := hL₁.cancelWaiter (fun _ _ => hL₁.endpoint_eq hw) .timeout
    refine ⟨k', hk', .of_turns hi (hmoves.trans (Calls.cancelWaiter hk').moves) ?_ ?_
      ⟨L', hL'⟩ fun t => ?_⟩
    all_goals obtain ⟨next, q, next', q', rfl | ⟨-, rfl⟩⟩ := cancelWaiter_cases hk'
    · rfl
    · exact (frame_recalculateById ..).2.2.2.1
    · rfl
    · exact (frame_recalculateById ..).2.2.2.2
    · exact (Turns.endWait (by exact htable) (by exact hi) t).trans (hturns t)
    · rw [view_recalculateById]
      exact (Turns.endWait (by exact htable) (by exact hi) t).trans (hturns t)
  | none =>
    have hk' : (k.setSleepTicks i 0).expire i = some (((k.setSleepTicks i 0).modifyIpc i fun c =>
        { c with state := .ready, status := .timeout }).setTaskState i .ready) := by
      rw [expire, hw]
    obtain ⟨L', hL', -⟩ := hL₁.expire hk'
    have hnote : (k.setSleepTicks i 0).Turns i
        (fun v => { v with ipcState := .ready, ipcStatus := .timeout })
        ((k.setSleepTicks i 0).modifyIpc i fun c =>
          { c with state := .ready, status := .timeout }) :=
      .modifyIpc _ rfl
    exact ⟨_, rfl, .of_turns hi (hmoves.trans ((Scheduler.Moves.refl _).setTaskState _ _))
      rfl rfl ⟨L', hL'⟩
      (((Turns.setSleepTicks k i 0).trans hnote).trans (.setTaskState rfl (by exact hi) .ready))⟩

end Expire

/-! ## Rounds -/

section Rounds

variable {f g : TaskView → TaskView} {k k' k'' : Kernel N} {i : Fin N} {l : List (Fin N)}

theorem Passes.congr (h : Passes f [i] k k') (hfg : f (k.view i) = g (k.view i)) :
    Passes g [i] k k' := by
  refine { h with view := fun t => ?_ }
  rw [h.view t]
  refine ite_congr rfl (fun ht => ?_) fun _ => rfl
  rw [mem_singleton.1 ht.1, hfg]

theorem Passes.of_sched (hk : k.Intact) (hi : (i : Nat) < k.sched.taskCount) {s : Scheduler N}
    (hmoves : k.Moves { k with sched := s }) (hturns : k.Turns i f { k with sched := s }) :
    Passes f [i] k { k with sched := s } := by
  obtain ⟨L, hL⟩ := hk.queues
  exact .of_turns hi hmoves rfl rfl ⟨L, (hL.setSched s .ok).1⟩ hturns

/-- A round comes back, with task `i` as `v` and the others left alone. -/
def Shows (k : Kernel N) (i : Fin N) (r : Option (Kernel N)) (v : TaskView) : Prop :=
  ∃ k', r = some k' ∧ ∃ f, f (k.view i) = v ∧ Passes f [i] k k'

theorem Shows.ite {c : Prop} [Decidable c] {r r' : Option (Kernel N)} {v v' : TaskView}
    (h : c → Shows k i r v) (h' : ¬c → Shows k i r' v') :
    Shows k i (if c then r else r') (if c then v else v') := by
  split_ifs with hc
  · exact h hc
  · exact h' hc

theorem Shows.keep (hk : k.Intact) (i : Fin N) : Shows k i (some k) (k.view i) :=
  ⟨k, rfl, id, rfl, .of_eq rfl, rfl, rfl, hk.queues, fun _ => (ite_self _).symm⟩

theorem Shows.count (hk : k.Intact) (hi : (i : Nat) < k.sched.taskCount) (n : Nat) :
    Shows k i (some (k.setSleepTicks i n)) { k.view i with sleepTicks := n } :=
  ⟨_, rfl, _, rfl, .of_sched hk hi ((Scheduler.Moves.refl _).setSleepTicks i n)
    (.setSleepTicks k i n)⟩

theorem Shows.wake (hk : k.Intact) (hi : (i : Nat) < k.sched.taskCount) (n : Nat) :
    Shows k i (some ((k.setSleepTicks i n).setTaskState i .ready))
      { k.view i with sleepTicks := n, state := .ready } := by
  refine ⟨_, rfl, _, ?_, .of_sched hk hi
    (((Scheduler.Moves.refl _).setSleepTicks i n).setTaskState _ _)
    ((Turns.setSleepTicks k i n).trans (.setTaskState rfl (by exact hi) .ready))⟩
  rfl

theorem Shows.expire (hk : k.Intact) (hi : (i : Nat) < k.sched.taskCount) :
    Shows k i ((k.setSleepTicks i 0).expire i) (k.view i).expired := by
  obtain ⟨k', hk', hpass⟩ := expire_passes hk hi
  exact ⟨k', hk', expired, rfl, hpass⟩

theorem Passes.cons (h : Passes f [i] k k') (h' : Passes f l k' k'') (hi : i ∉ l) :
    Passes f (i :: l) k k'' where
  moves := h.moves.trans h'.moves
  tick := h'.tick.trans h.tick
  task := h'.task.trans h.task
  queues := h'.queues
  view t := by
    rw [h'.view t, h.view t, h.taskCount]
    by_cases hti : t = i
    · subst hti
      simp [hi]
    · simp [hti]

end Rounds

/-- The effect of a whole loop: every task is treated as `f` says. -/
structure Treats (f : TaskView → TaskView) (k k' : Kernel N) : Prop where
  intact : k'.Intact
  taskCount : k'.sched.taskCount = k.sched.taskCount
  tick : k'.currentTick = k.currentTick
  view : ∀ t : Fin N, k'.view t = if (t : Nat) < k.sched.taskCount then f (k.view t) else k.view t

end Kernel

end AuroraOS
