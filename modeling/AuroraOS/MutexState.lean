import AuroraOS.Mutex
import AuroraOS.Lib.Inheritance
import AuroraOS.Lib.Run

/-!
# What the mutexes depend on

`Kernel.locks` is the part of the kernel that mutexes read and write. Each piece of `lock` and
`unlock` is described by what it does to that part, and the two loops that pass priorities on are
climbs along the tasks that wait for one another.
-/

namespace AuroraOS

open Bitmap Chain Inheritance Function List Scheduler SchedulerContext Option

variable {N : Nat}

/-- The part of the kernel that mutexes depend on. -/
@[ext] structure Locks (N : Nat) where
  count : Nat
  id : Fin N → Fin N
  base : Fin N → Nat
  priority : Fin N → Nat
  held : Fin N → Option MutexId
  waitingOn : Fin N → Option MutexId
  mutexes : MutexId → Mutex N

def Kernel.locks (k : Kernel N) : Locks N where
  count := k.sched.taskCount
  id i := (k.sched.tasks i).id
  base i := (k.sched.tasks i).basePriority
  priority := k.priority
  held i := (k.sched.tasks i).heldMutexes
  waitingOn i := (k.sched.tasks i).waitingOnMutex
  mutexes := k.mutexes

namespace Locks

/-- The task that `t` waits for. -/
def blocker (s : Locks N) (t : Fin N) : Option (Fin N) :=
  (s.waitingOn t).bind fun m => (s.mutexes m).owner

/-- What a task's priority has to reach by itself: its base priority and the ceilings of the mutexes
it holds. -/
def own (s : Locks N) (t : Fin N) : Set Nat :=
  { p | p = s.base t ∨ ∃ m, (s.mutexes m).owner = some t ∧ p = (s.mutexes m).ceilingPrio }

/-- Change one mutex. -/
def modifyMutex (s : Locks N) (m : MutexId) (f : Mutex N → Mutex N) : Locks N :=
  { s with mutexes := Function.update s.mutexes m (f (s.mutexes m)) }

theorem mutexes_modifyMutex (s : Locks N) (m m' : MutexId) (f : Mutex N → Mutex N) :
    (s.modifyMutex m f).mutexes m' = if m' = m then f (s.mutexes m) else s.mutexes m' := by
  simp [modifyMutex, update_apply]

/-- `u` is a task whose bit is set in the wait mask of `m`. -/
def InMask (s : Locks N) (m : MutexId) (u : Fin N) : Prop :=
  (s.mutexes m).waitMask.getLsbD u ∧ (u : Nat) < s.count
  deriving Decidable

/-- The list of the mutexes that `t` holds is complete and no longer than `rounds`, and their masks
are exact. -/
def Counted (s : Locks N) (rounds : Nat) (t : Fin N) : Prop :=
  ∃ l, Path (fun m => (s.mutexes m).nextHeld) (s.held t) l none ∧ l.length ≤ rounds ∧
    (∀ m, m ∈ l ↔ (s.mutexes m).owner = some t) ∧
    ∀ m ∈ l, ∀ u, s.InMask m u ↔ s.waitingOn u = some m

/-- The slots below the count know their index. -/
def Slots (s : Locks N) : Prop := ∀ i : Fin N, (i : Nat) < s.count → s.id i = i

end Locks

/-! ## What the pieces change -/

namespace Scheduler

/-- What `set_task_state` and `set_task_priority` leave alone. -/
def SameLockFields (c d : SchedulerContext N) : Prop :=
  c.basePriority = d.basePriority ∧ c.heldMutexes = d.heldMutexes ∧
    c.waitingOnMutex = d.waitingOnMutex

theorem lockFields_of_unlinked {c d : SchedulerContext N} {st : TaskState} {p : Nat}
    (h : c.unlinked = { d.unlinked with state := st, currentPriority := p }) :
    SameLockFields c d := by
  have hb : c.unlinked.basePriority = d.unlinked.basePriority := by rw [h]
  have hh : c.unlinked.heldMutexes = d.unlinked.heldMutexes := by rw [h]
  have hw : c.unlinked.waitingOnMutex = d.unlinked.waitingOnMutex := by rw [h]
  exact ⟨hb, hh, hw⟩

theorem lockFields_setTaskState (s : Scheduler N) (id : Nat) (st : TaskState) (j : Fin N) :
    SameLockFields ((s.setTaskState id st).tasks j) (s.tasks j) := by
  have h := unlinked_setTaskState s id st j
  split_ifs at h
  · exact lockFields_of_unlinked h
  · exact lockFields_of_unlinked (p := (s.tasks j).currentPriority) h

theorem lockFields_setTaskPriority (s : Scheduler N) (id p : Nat) (j : Fin N) :
    SameLockFields ((s.setTaskPriority id p).tasks j) (s.tasks j) := by
  have h := unlinked_setTaskPriority s id p j
  split_ifs at h
  · exact lockFields_of_unlinked h
  · exact lockFields_of_unlinked (p := (s.tasks j).currentPriority) h

end Scheduler

namespace Kernel

variable (k : Kernel N) {l : List (Fin N)} {t : Fin N} {rounds steps : Nat}

@[simp] theorem locks_setTaskState (id : Nat) (st : TaskState) :
    (k.setTaskState id st).locks = k.locks := by
  have h := fun j => lockFields_setTaskState k.sched id st j
  ext1
  · exact taskCount_setTaskState ..
  · exact funext fun j => id_setTaskState ..
  · exact funext fun j => (h j).1
  · exact funext fun j => currentPriority_setTaskState ..
  · exact funext fun j => (h j).2.1
  · exact funext fun j => (h j).2.2
  · rfl

theorem locks_setTaskPriority_exists (id p : Nat) :
    ∃ c, (k.setTaskPriority id p).locks = { k.locks with priority := c } := by
  have h := fun j => lockFields_setTaskPriority k.sched id p j
  refine ⟨(k.setTaskPriority id p).priority, Locks.ext ?_ ?_ ?_ rfl ?_ ?_ rfl⟩
  · exact taskCount_setTaskPriority ..
  · exact funext fun j => id_setTaskPriority ..
  · exact funext fun j => (h j).1
  · exact funext fun j => (h j).2.1
  · exact funext fun j => (h j).2.2

theorem locks_setTaskPriority {i : Fin N} (hslots : k.locks.Slots) (hi : (i : Nat) < k.locks.count)
    (p : Nat) : (k.setTaskPriority (k.sched.tasks i).id p).locks =
      { k.locks with priority := update k.priority i p } := by
  have hid : (k.sched.tasks i).id = i := hslots i hi
  have h := fun j => lockFields_setTaskPriority k.sched i p j
  rw [hid]
  ext1
  · exact taskCount_setTaskPriority ..
  · exact funext fun j => id_setTaskPriority ..
  · exact funext fun j => (h j).1
  · funext j
    refine (currentPriority_setTaskPriority ..).trans ?_
    dsimp only
    rw [update_apply]
    exact if_congr ((and_iff_left hi).trans Fin.ext_iff.symm) rfl rfl
  · exact funext fun j => (h j).2.1
  · exact funext fun j => (h j).2.2
  · rfl

@[simp] theorem locks_setSleepTicks (i : Fin N) (n : Nat) :
    (k.setSleepTicks i n).locks = k.locks := by
  have h : ∀ {α : Type} (f : SchedulerContext N → α)
      (_ : ∀ c : SchedulerContext N, f { c with sleepTicks := n } = f c) (j : Fin N),
      f ((k.setSleepTicks i n).sched.tasks j) = f (k.sched.tasks j) := by
    intro α f hf j
    simp only [setSleepTicks, Scheduler.setSleepTicks, Scheduler.tasks_modify]
    split_ifs with hj
    · rw [hf, hj]
    · rfl
  ext1
  · rfl
  · exact funext (h SchedulerContext.id fun _ => rfl)
  · exact funext (h basePriority fun _ => rfl)
  · exact funext (h currentPriority fun _ => rfl)
  · exact funext (h heldMutexes fun _ => rfl)
  · exact funext (h waitingOnMutex fun _ => rfl)
  · rfl

@[simp] theorem locks_modifyMutex (m : MutexId) (f : Mutex N → Mutex N) :
    (k.modifyMutex m f).locks = k.locks.modifyMutex m f := rfl

@[simp] theorem locks_setHeldMutexes (t : Fin N) (m : Option MutexId) :
    (k.setHeldMutexes t m).locks =
      { k.locks with held := update k.locks.held t m } := by
  ext1
  · rfl
  all_goals
    first
    | rfl
    | funext j
      simp only [locks, priority, setHeldMutexes, tasks_modify]
      by_cases hj : j = t
      · simp [hj]
      · simp [hj]

@[simp] theorem locks_setWaitingOnMutex (t : Fin N) (m : Option MutexId) :
    (k.setWaitingOnMutex t m).locks =
      { k.locks with waitingOn := update k.locks.waitingOn t m } := by
  ext1
  · rfl
  all_goals
    first
    | rfl
    | funext j
      simp only [locks, priority, setWaitingOnMutex, tasks_modify]
      by_cases hj : j = t
      · simp [hj]
      · simp [hj]

/-! ## Walks along the tasks that wait for one another -/

variable {k}

/-- The check for a deadlock finds a task exactly if it is on the way. -/
theorem checkDeadlockFrom_eq {o : Option (Fin N)}
    (h : Path k.locks.blocker o l none) (hsteps : l.length ≤ steps) :
    k.checkDeadlockFrom t steps o = decide (t ∈ l) := by
  induction l generalizing o steps with
  | nil =>
    rw [show o = none from h]
    cases steps <;> simp [checkDeadlockFrom]
  | cons x l ih =>
    obtain ⟨steps, rfl⟩ : ∃ n, steps = n + 1 := ⟨steps - 1, by simp at hsteps; omega⟩
    obtain ⟨rfl, hrest⟩ := h
    unfold checkDeadlockFrom
    by_cases hx : x = t
    · simp [hx]
    · have hmem : t ∈ x :: l ↔ t ∈ l := by simp [Ne.symm hx]
      simp only [if_neg hx, hmem]
      cases hw : (k.sched.tasks x).waitingOnMutex with
      | none =>
        have hroot : k.locks.blocker x = none := by
          simp [Locks.blocker, locks, hw]
        rw [hroot] at hrest
        have hl := hrest.head_eq
        cases l with
        | nil => simp
        | cons y l => cases hl
      | some m =>
        have hnext : k.locks.blocker x = (k.mutexes m).owner := by
          simp [Locks.blocker, locks, hw]
        rw [hnext] at hrest
        exact ih hrest (by simpa using hsteps)

/-- Propagation ends at a task that waits for nobody. -/
theorem propagateFrom_root {start x : Fin N} (h : k.locks.blocker x = none) (steps : Nat) :
    propagateFrom start steps x k = k := by
  cases steps with
  | zero => rfl
  | succ =>
    unfold propagateFrom
    cases hw : (k.sched.tasks x).waitingOnMutex with
    | none => rfl
    | some m =>
      have howner : (k.mutexes m).owner = none := by
        simpa [Locks.blocker, locks, hw] using h
      simp [howner]

/-- **Propagation raises the tasks** that a task waits for, directly or not. -/
theorem propagateFrom_raises {start x p : Fin N}
    (hslots : k.locks.Slots) (hx : k.locks.blocker x = some p)
    (hpath : Path k.locks.blocker (some p) l none) (hstart : start ∉ l)
    (hlt : ∀ y ∈ l, (y : Nat) < k.locks.count) (hsteps : l.length ≤ steps) :
    ∃ c, (propagateFrom start steps x k).locks = { k.locks with priority := c } ∧
      Raises k.locks.blocker x k.priority c := by
  induction l generalizing k x p steps with
  | nil => cases hpath
  | cons y l ih =>
    obtain ⟨steps, rfl⟩ : ∃ n, steps = n + 1 := ⟨steps - 1, by simp at hsteps; omega⟩
    obtain rfl : p = y := some.inj hpath.1
    obtain ⟨m, hw, howner⟩ : ∃ m, (k.sched.tasks x).waitingOnMutex = some m ∧
        (k.mutexes m).owner = some p := bind_eq_some_iff.mp hx
    have hps : p ≠ start := fun h => hstart (h ▸ mem_cons_self ..)
    simp only [propagateFrom, hw, howner, if_neg hps]
    by_cases hgt : k.priority x > k.priority p
    · rw [if_pos hgt]
      set k₁ := k.setTaskPriority (k.sched.tasks p).id (k.priority x) with hk₁
      have hlocks : k₁.locks = { k.locks with
          priority := update k.priority p (k.priority x) } :=
        k.locks_setTaskPriority hslots (hlt p (mem_cons_self ..)) _
      have hprio : k₁.priority = update k.priority p (k.priority x) :=
        congrArg Locks.priority hlocks
      have hblocker : k₁.locks.blocker = k.locks.blocker := by rw [hlocks]; rfl
      cases hq : k.locks.blocker p with
      | none =>
        rw [propagateFrom_root (by rw [hblocker, hq])]
        refine ⟨_, hlocks, .climb hx hgt (.stop fun q hq' => ?_)⟩
        cases hq.symm.trans hq'
      | some q =>
        obtain ⟨c, hc, hraises⟩ := ih
          (by rw [hlocks]; exact hslots) (by rw [hblocker, hq])
          (by rw [hblocker, ← hq]; exact hpath.2) (fun h => hstart (mem_cons_of_mem _ h))
          (by rw [hlocks]; exact fun y hy => hlt y (mem_cons_of_mem _ hy))
          (by simpa using hsteps)
        rw [hblocker, hprio] at hraises
        exact ⟨c, by rw [hc, hlocks], .climb hx hgt hraises⟩
    · rw [if_neg hgt]
      refine ⟨k.priority, rfl, .stop fun q hq => ?_⟩
      obtain rfl : p = q := some.inj (hx.symm.trans hq)
      exact not_lt.mp hgt

/-! ## Recalculation -/

/-- The highest waiter is the greatest priority of a task in the mask, or zero. -/
theorem isGreatest_getHighestWaiter (m : MutexId) :
    IsGreatest (insert 0 (k.priority '' { u | k.locks.InMask m u })) (k.getHighestWaiter m) := by
  have hset : { u | u ∈ finRange N ∧ k.locks.InMask m u } = { u | k.locks.InMask m u } := by
    ext u
    simp
  unfold getHighestWaiter
  rw [← hset]
  refine isGreatest_foldl (k.locks.InMask m) k.priority (fun b i => ?_) (finRange N) 0
  by_cases hbit : (k.mutexes m).waitMask.getLsbD i
  · by_cases hi : (i : Nat) < k.sched.taskCount
    · have htask : k.getTaskById i = some i := getTaskById_eq_some.mpr ⟨rfl, hi⟩
      simp [Locks.InMask, locks, hbit, hi, htask]
    · have htask : k.getTaskById i = none := by simp [getTaskById, hi]
      simp [Locks.InMask, locks, hbit, hi, htask]
  · simp [Locks.InMask, locks, hbit]

/-- The inner loop returns the greatest of its initial value, and the ceilings and waiters of the
mutexes it meets. -/
theorem heldPriority_spec {o : Option MutexId} {l : List MutexId}
    (h : Path (fun m => (k.mutexes m).nextHeld) o l none)
    (hrounds : l.length ≤ rounds) (b : Nat) :
    ∃ v, k.heldPriority rounds o b = some v ∧ b ≤ v ∧
      (∀ m ∈ l, (k.mutexes m).ceilingPrio ≤ v ∧ ∀ u, k.locks.InMask m u → k.priority u ≤ v) ∧
      (v = b ∨ ∃ m ∈ l, v = (k.mutexes m).ceilingPrio ∨ ∃ u, k.locks.InMask m u ∧
        v = k.priority u) := by
  induction l generalizing o rounds b with
  | nil =>
    refine ⟨b, ?_, le_rfl, by simp, .inl rfl⟩
    rw [show o = none from h]
    cases rounds <;> rfl
  | cons m l ih =>
    obtain ⟨rounds, rfl⟩ : ∃ n, rounds = n + 1 := ⟨rounds - 1, by simp at hrounds; omega⟩
    obtain ⟨rfl, hrest⟩ := h
    obtain ⟨hw, hwub⟩ := k.isGreatest_getHighestWaiter m
    set c := (k.mutexes m).ceilingPrio with hc
    set w := k.getHighestWaiter m with hhw
    set b₁ := if c > b then c else b with hb₁
    set b₂ := if w > b₁ then w else b₁ with hb₂
    have hle : b ≤ b₂ ∧ c ≤ b₂ ∧ w ≤ b₂ := by
      rw [hb₂, hb₁]
      split_ifs <;> omega
    obtain ⟨v, hv, hbv, hall, hv'⟩ := ih hrest (by simpa using hrounds) b₂
    refine ⟨v, ?_, hle.1.trans hbv, fun m' hm' => ?_, ?_⟩
    · exact hv
    · rcases mem_cons.mp hm' with rfl | hm'
      · exact ⟨hle.2.1.trans hbv, fun u hu =>
          (hwub (.inr ⟨u, hu, rfl⟩)).trans (hle.2.2.trans hbv)⟩
      · exact hall m' hm'
    · rcases hv' with rfl | ⟨m', hm', hm''⟩
      · -- the value is the one this round ended with
        by_cases hwb : w > b₁
        · rw [if_pos hwb] at hb₂
          rcases hw with hw | ⟨u, hu, huw⟩
          · omega
          · exact .inr ⟨m, mem_cons_self .., .inr ⟨u, hu, by rw [hb₂, huw]⟩⟩
        · rw [if_neg hwb] at hb₂
          by_cases hcb : c > b
          · rw [if_pos hcb] at hb₁
            exact .inr ⟨m, mem_cons_self .., .inl (hb₂.trans hb₁)⟩
          · rw [if_neg hcb] at hb₁
            exact .inl (hb₂.trans hb₁)
      · exact .inr ⟨m', mem_cons_of_mem _ hm', hm''⟩

/-- What recalculation finds for a task is what its priority has to reach. -/
theorem heldPriority_isGreatest (h : k.locks.Counted rounds t) :
    ∃ v, k.heldPriority rounds (k.sched.tasks t).heldMutexes (k.sched.tasks t).basePriority =
        some v ∧ IsGreatest (demands k.locks.own k.locks.blocker k.priority t) v := by
  obtain ⟨l, hpath, hlen, hmem, hmask⟩ := h
  obtain ⟨v, hv, hbase, hall, hv'⟩ := heldPriority_spec hpath hlen
    (k.sched.tasks t).basePriority
  refine ⟨v, hv, ?_, ?_⟩
  · rcases hv' with rfl | ⟨m, hm, rfl | ⟨u, hu, rfl⟩⟩
    · exact .inl (.inl rfl)
    · exact .inl (.inr ⟨m, (hmem m).mp hm, rfl⟩)
    · refine .inr ⟨u, ?_, rfl⟩
      exact bind_eq_some_iff.mpr ⟨m, (hmask m hm u).mp hu, (hmem m).mp hm⟩
  · rintro p ((rfl | ⟨m, hm, rfl⟩) | ⟨u, hu, rfl⟩)
    · exact hbase
    · exact (hall m ((hmem m).mpr hm)).1
    · obtain ⟨m, hw, ho⟩ := bind_eq_some_iff.mp hu
      have hm := (hmem m).mpr ho
      exact (hall m hm).2 u ((hmask m hm u).mpr hw)

/-- **Recalculation repairs the priorities** from a task on. -/
theorem recalculateFrom_repairs
    (hslots : k.locks.Slots) (hpath : Path k.locks.blocker (some t) l none)
    (hlt : ∀ y ∈ l, (y : Nat) < k.locks.count) (hsteps : l.length ≤ steps)
    (hcount : ∀ y ∈ l, k.locks.Counted rounds y) :
    ∃ k' c, recalculateFrom rounds steps t k = some k' ∧
      k'.locks = { k.locks with priority := c } ∧
      Repairs k.locks.own k.locks.blocker t k.priority c := by
  induction l generalizing k t steps with
  | nil => cases hpath
  | cons y l ih =>
    obtain ⟨steps, rfl⟩ : ∃ n, steps = n + 1 := ⟨steps - 1, by simp at hsteps; omega⟩
    obtain rfl : t = y := some.inj hpath.1
    obtain ⟨v, hv, hgreatest⟩ := heldPriority_isGreatest (hcount t (mem_cons_self ..))
    simp only [recalculateFrom, hv, bind_eq_bind, bind_some]
    by_cases hne : v ≠ k.priority t
    · rw [if_pos hne]
      set k₁ := k.setTaskPriority (k.sched.tasks t).id v with hk₁
      have hlocks : k₁.locks = { k.locks with priority := update k.priority t v } :=
        k.locks_setTaskPriority hslots (hlt t (mem_cons_self ..)) _
      have hprio : k₁.priority = update k.priority t v := congrArg Locks.priority hlocks
      have hself : IsGreatest (demands k.locks.own k.locks.blocker k.priority t)
          (k₁.priority t) := by
        rwa [hprio, update_self]
      have hother : ∀ u, u ≠ t → k₁.priority u = k.priority u := fun u hu => by
        rw [hprio, update_of_ne hu]
      have hblocker : k₁.locks.blocker = k.locks.blocker := by rw [hlocks]; rfl
      have hown : k₁.locks.own = k.locks.own := by rw [hlocks]; rfl
      have hwait : (k₁.sched.tasks t).waitingOnMutex = (k.sched.tasks t).waitingOnMutex :=
        congrFun (congrArg Locks.waitingOn hlocks) t
      have hmutexes : k₁.mutexes = k.mutexes := rfl
      have hdone : k.locks.blocker t = none → ∃ k' c, some k₁ = some k' ∧
          k'.locks = { k.locks with priority := c } ∧
          Repairs k.locks.own k.locks.blocker t k.priority c := fun hroot =>
        ⟨k₁, k₁.priority, rfl, by rw [hlocks, hprio], .root hself hother hroot⟩
      rw [hwait, hmutexes]
      cases hw : (k.sched.tasks t).waitingOnMutex with
      | none =>
        refine hdone ?_
        simp [Locks.blocker, locks, hw]
      | some m =>
        cases ho : (k.mutexes m).owner with
        | none =>
          simp only [ho]
          refine hdone ?_
          simp [Locks.blocker, locks, hw, ho]
        | some q =>
          simp only [ho]
          have hq : k.locks.blocker t = some q := by simp [Locks.blocker, locks, hw, ho]
          obtain ⟨k', c, hk', hc, hrep⟩ := ih
            (by rw [hlocks]; exact hslots) (by rw [hblocker, ← hq]; exact hpath.2)
            (by rw [hlocks]; exact fun y hy => hlt y (mem_cons_of_mem _ hy))
            (by simpa using hsteps)
            (by rw [hlocks]; exact fun y hy => hcount y (mem_cons_of_mem _ hy))
          rw [hblocker, hown] at hrep
          exact ⟨k', c, hk', by rw [hc, hlocks], .climb hself hother hq hrep⟩
    · rw [if_neg hne]
      rw [not_not] at hne
      exact ⟨k, k.priority, rfl, rfl, .stop (hne ▸ hgreatest)⟩

/-! ## Releasing and waking -/

/-- Waking changes a mask only, and adds no bit to it. -/
theorem locks_wakeHighestWaiter (k : Kernel N) (m : MutexId) :
    ∃ w : BitVec 32, (∀ i, w.getLsbD i = true → (k.mutexes m).waitMask.getLsbD i = true) ∧
      (k.wakeHighestWaiter m).locks = k.locks.modifyMutex m fun c => { c with waitMask := w } := by
  unfold wakeHighestWaiter
  split_ifs
  · refine ⟨(k.mutexes m).waitMask, fun _ h => h, ?_⟩
    exact Locks.ext rfl rfl rfl rfl rfl rfl (update_eq_self ..).symm
  · set s := (finRange N).foldl k.wakeRound ((k.mutexes m).waitMask, none) with hs
    have hsub : ∀ i, s.1.getLsbD i = true → (k.mutexes m).waitMask.getLsbD i = true := by
      refine Run.foldl_invariant (P := fun s : BitVec 32 × Option (Fin N × Nat) =>
        ∀ i, s.1.getLsbD i = true → (k.mutexes m).waitMask.getLsbD i = true)
        (fun s j _ h => ?_) fun _ h => h
      unfold wakeRound
      split_ifs
      · split
        · exact fun i hi => h i (getLsbD_of_clearBit hi)
        · split_ifs
          · split
            · exact h
            · split_ifs <;> exact h
          · exact fun i hi => h i (getLsbD_of_clearBit hi)
      · exact h
    dsimp only
    split
    · exact ⟨s.1, hsub, rfl⟩
    · next best _ _ =>
      refine ⟨clearBit s.1 best, fun i hi => hsub i (getLsbD_of_clearBit hi), ?_⟩
      rw [locks_setTaskState, dropWaiter, locks_modifyMutex, locks_modifyMutex]
      unfold Locks.modifyMutex
      simp

theorem locks_unlinkHeld {owner : Fin N} {m : MutexId} {l : List MutexId}
    (hpath : Path (fun c => (k.mutexes c).nextHeld) (k.locks.held owner) l none) (hm : m ∈ l)
    (hrounds : l.length ≤ rounds) :
    ∃ k' h next, k.unlinkHeld rounds owner m = some k' ∧
      k'.locks = { k.locks with
        held := update k.locks.held owner h
        mutexes := fun c => { k.mutexes c with nextHeld := next c } } ∧
      Path next h (l.erase m) none ∧ ∀ c, c ∉ l → next c = (k.mutexes c).nextHeld := by
  cases l with
  | nil => cases hm
  | cons x b =>
    have hhead : (k.sched.tasks owner).heldMutexes = some x := hpath.1
    have hnd := hpath.nodup
    simp only [unlinkHeld, hhead]
    by_cases hx : x = m
    · subst hx
      refine ⟨_, (k.mutexes x).nextHeld, fun c => (k.mutexes c).nextHeld, if_pos rfl, ?_, ?_,
        fun _ _ => rfl⟩
      · rw [locks_setHeldMutexes]
        rfl
      · rw [erase_cons_head]
        exact hpath.2
    · have hmb : m ∈ b := (mem_cons.mp hm).resolve_left (Ne.symm hx)
      obtain ⟨a, c, d, hsplit, hseek, hnext⟩ := seek_ne_eq hpath.2 hmb
        rounds (by simpa using hrounds)
      rw [hsplit] at hpath hnd hm
      have hmac : m ∉ a ∧ m ≠ c ∧ c ∉ a ∧ c ∉ d := by
        simp only [nodup_append, nodup_cons, mem_cons, not_or] at hnd
        refine ⟨fun h => ?_, Ne.symm hnd.2.1.1.1, fun h => ?_, hnd.2.1.1.2⟩
        · exact hnd.2.2 m h m (.inr (.inl rfl)) rfl
        · exact hnd.2.2 c h c (.inl rfl) rfl
      refine ⟨k.modifyMutex c fun z => { z with nextHeld := (k.mutexes m).nextHeld }, some x,
        update (fun c => (k.mutexes c).nextHeld) c (k.mutexes m).nextHeld, ?_, ?_, ?_,
        fun z hz => ?_⟩
      · rw [if_neg hx, hseek]
        exact if_pos hnext
      · rw [locks_modifyMutex]
        refine Locks.ext rfl rfl rfl rfl ?_ rfl ?_
        · exact (update_eq_self_iff.mpr hhead.symm).symm
        · funext z
          rw [Locks.mutexes_modifyMutex]
          by_cases hz : z = c
          · subst hz
            simp [locks]
          · simp [hz, locks]
      · have herase : (x :: b).erase m = a ++ c :: d := by
          rw [hsplit, erase_append_right _ hmac.1, erase_cons_tail (by simp [hmac.2.1.symm]),
            erase_cons_head]
        rw [herase]
        have hheld : k.locks.held owner = some x := hhead
        rw [hheld] at hpath
        refine hpath.unlinkAfter (update_self ..) fun z hz => update_of_ne ?_ _ _
        rintro rfl
        rcases mem_append.mp hz with hz | hz
        · exact hmac.2.2.1 hz
        · exact hmac.2.2.2 hz
      · refine update_of_ne ?_ _ _
        rintro rfl
        rw [hsplit] at hz
        simp at hz

end Kernel

end AuroraOS
