import AuroraOS.Kernel

/-!
# The task table

A slot of `tasks` below the high-water mark `task_count` holds its own index as `id`, and the slots
above it have never been used. The kernel goes from a control block to the scheduler through `id`,
and `create_task` takes the first free slot; both rely on this.
-/

namespace AuroraOS

open Scheduler SchedulerContext

variable {N : Nat}

/-- The task table: slots in use know their index, slots past the high-water mark are free. -/
structure Table (s : Scheduler N) : Prop where
  id : ∀ i : Fin N, (i : Nat) < s.taskCount → (s.tasks i).id = i
  unused : ∀ i : Fin N, s.taskCount ≤ i → (s.tasks i).state = .unallocated

theorem Scheduler.createAt_fields (s : Scheduler N) (i : Fin N) (prio : Nat) :
    (s.createAt i prio).taskCount = (if s.taskCount ≤ i then (i : Nat) + 1 else s.taskCount) ∧
      (∀ j, j ≠ i → ((s.createAt i prio).tasks j).unlinked = (s.tasks j).unlinked) ∧
      ((s.createAt i prio).tasks i).unlinked = newContext i prio := by
  unfold createAt
  refine ⟨?_, fun j hji => ?_, ?_⟩
  · rw [taskCount_pushReady]
    split_ifs <;> rfl
  · rw [unlinked_pushReady, tasks_modify, if_neg hji]
    split_ifs <;> rfl
  · rw [unlinked_pushReady, tasks_modify, if_pos rfl]
    rfl

theorem Scheduler.unlinked_freeTask (s : Scheduler N) (i j : Fin N) :
    ((s.freeTask i).tasks j).unlinked =
      if j = i then { (s.tasks j).unlinked with state := .unallocated }
      else (s.tasks j).unlinked := by
  have hleave : ∀ j, ((if (s.tasks i).state = .ready then s.removeReady (s.tasks i).id
      else s).tasks j).unlinked = (s.tasks j).unlinked := by
    intro j
    split_ifs
    · rw [unlinked_removeReady]
    · rfl
  unfold freeTask setState
  rw [tasks_modify]
  by_cases hji : j = i
  · rw [if_pos hji, if_pos hji, hji, ← hleave i]
    rfl
  · rw [if_neg hji, if_neg hji]
    exact hleave j

theorem Scheduler.taskCount_freeTask (s : Scheduler N) (i : Fin N) :
    (s.freeTask i).taskCount = s.taskCount := by
  unfold freeTask setState
  rw [taskCount_modify]
  split_ifs
  · rw [taskCount_removeReady]
  · rfl

namespace Table

variable {s s' : Scheduler N} {i : Fin N}

/-- A task in use has an index below the high-water mark. -/
theorem lt_of_state (h : Table s) (hi : (s.tasks i).state ≠ .unallocated) :
    (i : Nat) < s.taskCount :=
  Nat.lt_of_not_le fun hle => hi (h.unused i hle)

theorem id_of_state (h : Table s) (hi : (s.tasks i).state ≠ .unallocated) :
    (s.tasks i).id = i := h.id i (h.lt_of_state hi)

theorem congr (h : Table s) (hcount : s'.taskCount = s.taskCount)
    (hid : ∀ i, (s'.tasks i).id = (s.tasks i).id)
    (hstate : ∀ i : Fin N, s.taskCount ≤ i → (s'.tasks i).state = (s.tasks i).state) :
    Table s' where
  id i hi := by
    rw [hcount] at hi
    rw [hid, h.id i hi]
  unused i hi := by
    rw [hcount] at hi
    rw [hstate i hi, h.unused i hi]

theorem init (s : Scheduler N) : Table s.init where
  id _ hi := absurd hi (Nat.not_lt_zero _)
  unused _ _ := rfl

theorem createAt (h : Table s) (hi : s.freeSlot = some i) (prio : Nat) :
    Table (s.createAt i prio) := by
  obtain ⟨hcount, hother, hnew⟩ := createAt_fields s i prio
  -- the first free slot is not past the high-water mark
  have hle : (i : Nat) ≤ s.taskCount := by
    by_contra hlt
    have hfree := h.unused ⟨s.taskCount, by omega⟩ (Nat.le_refl _)
    have := (Bitmap.find?_finRange hi).2 ⟨s.taskCount, by omega⟩ (Nat.lt_of_not_le hlt)
    simp [hfree] at this
  constructor
  · intro j hj
    by_cases hji : j = i
    · rw [hji]
      exact congrArg SchedulerContext.id hnew
    · have hid := congrArg SchedulerContext.id (hother j hji)
      refine hid.trans (h.id j ?_)
      rw [hcount] at hj
      split_ifs at hj <;> omega
  · intro j hj
    rw [hcount] at hj
    have hji : (j : Nat) ≠ i := by split_ifs at hj <;> omega
    have hstate := congrArg state (hother j fun hv => hji (congrArg Fin.val hv))
    refine hstate.trans (h.unused j ?_)
    split_ifs at hj <;> omega

end Table

variable {s : Scheduler N}

theorem Table.freeTask (h : Table s) (i : Fin N) : Table (s.freeTask i) := by
  refine h.congr (taskCount_freeTask s i) (fun j => ?_) (fun j hj => ?_)
  · have hid := congrArg SchedulerContext.id (Scheduler.unlinked_freeTask s i j)
    split_ifs at hid <;> exact hid
  · have hstate := congrArg state (unlinked_freeTask s i j)
    split_ifs at hstate
    · exact hstate.trans (h.unused j hj).symm
    · exact hstate

/-- The fault handler ends a task by writing its state. -/
theorem Table.setState (h : Table s) {i : Fin N} {st : TaskState}
    (hst : s.taskCount ≤ i → st = .unallocated) : Table (s.setState i st) := by
  refine h.congr rfl (fun j => ?_) fun j hj => ?_
  · rw [Scheduler.setState, Scheduler.tasks_modify]
    split_ifs with hji
    · rw [hji]
    · rfl
  · rw [Scheduler.setState, Scheduler.tasks_modify]
    split_ifs with hji
    · subst hji
      rw [h.unused j hj]
      exact hst hj
    · rfl

/-- The calls into the scheduler that leave the table alone. -/
theorem Table.setTaskState (h : Table s) (id : Nat) (st : TaskState) :
    Table (s.setTaskState id st) := by
  refine h.congr (by simp) (by simp) fun i hi => ?_
  rw [state_setTaskState, if_neg (by omega)]

theorem Table.setTaskPriority (h : Table s) (id p : Nat) : Table (s.setTaskPriority id p) :=
  h.congr (by simp) (by simp) (by simp)

theorem Table.setSleepTicks (h : Table s) (i : Fin N) (n : Nat) : Table (s.setSleepTicks i n) := by
  refine h.congr rfl (fun j => ?_) fun j _ => ?_ <;>
  · rw [Scheduler.setSleepTicks, Scheduler.tasks_modify]
    split_ifs with hji
    · rw [hji]
    · rfl

end AuroraOS
