import AuroraOS.Schedule

/-!
# Which task `schedule` picks

Past the signal dispatch, `schedule` should hand the processor to a ready task of the highest
priority that the frame scheduler allows. It does, with one exception: the fallback to the idle
list, meant for a frame in which every level is vetoed, is also taken when the scan comes back to
the current task. `schedule_picks_top_iff` says exactly when that happens.
-/

namespace AuroraOS

open Bitmap Links TaskPriority List Option Function Scheduler

variable {N : Nat} {i : Fin N}

namespace Scheduler

/-- Some ready task has priority `p`. -/
def ReadyAt (s : Scheduler N) (p : Nat) : Prop :=
  ∃ i, s.IsReady i ∧ (s.tasks i).currentPriority = p

/-- `p` is the highest allowed priority of a ready task. -/
def TopAllowed (allowed : Nat → Bool) (s : Scheduler N) (p : Nat) : Prop :=
  allowed p = true ∧ s.ReadyAt p ∧ ∀ q, allowed q = true → s.ReadyAt q → q ≤ p

/-- The priorities of ready tasks index `ready_head` without clamping. -/
def InRange (s : Scheduler N) : Prop :=
  ∀ i, s.IsReady i → (s.tasks i).currentPriority < numPriorities

/-- The current task is ready, alone on the highest allowed level, above the idle level, and an
idle task is ready too. -/
def LoneTop (allowed : Nat → Bool) (s : Scheduler N) (cur : Fin N) : Prop :=
  s.IsReady cur ∧ s.TopAllowed allowed (s.tasks cur).currentPriority ∧
    0 < (s.tasks cur).currentPriority ∧
    (∀ j, s.IsReady j → (s.tasks j).currentPriority = (s.tasks cur).currentPriority → j = cur) ∧
    s.ReadyAt TaskPriority.idle

end Scheduler

/-! ## Reading the lists -/

/-- For priorities in range, the level is the priority. -/
theorem Scheduler.InRange.level_eq {s : Scheduler N} (hr : s.InRange)
    (hi : s.IsReady i) : (s.level i : Nat) = (s.tasks i).currentPriority :=
  readyIndex_of_lt (hr i hi)

namespace Agrees

variable {s : Scheduler N}

theorem isReady_of_readyHead (h : Agrees s) {p : Fin numPriorities}
    (hi : s.readyHead p = some i) : s.IsReady i ∧ s.level i = p := by
  obtain ⟨Q, hQ⟩ := h
  refine hQ.mem_iff.mp (mem_of_mem_head? ?_)
  rw [← hQ.head, hi]
  rfl

/-- A set bit leads to a head. -/
theorem readyHead_of_bit (h : Agrees s) {p : Fin numPriorities}
    (hp : s.readyBitmask.getLsbD p = true) : ∃ i, s.readyHead p = some i := by
  obtain ⟨Q, hQ⟩ := h
  rw [hQ.head]
  cases hl : Q p with
  | nil => exact absurd hl ((hQ.bit p).mp hp)
  | cons i l => exact ⟨i, rfl⟩

theorem bit_iff (h : Agrees s) (p : Fin numPriorities) :
    s.readyBitmask.getLsbD p = true ↔ ∃ i, s.IsReady i ∧ s.level i = p := by
  constructor
  · intro hp
    obtain ⟨i, hi⟩ := h.readyHead_of_bit hp
    exact ⟨i, h.isReady_of_readyHead hi⟩
  · obtain ⟨Q, hQ⟩ := h
    intro ⟨i, hi⟩
    exact (hQ.bit p).mpr (ne_nil_of_mem (hQ.mem_iff.mpr hi))

theorem readyAt_iff (h : Agrees s) (hr : s.InRange) (p : Nat) :
    s.ReadyAt p ↔ s.readyBitmask.getLsbD p = true := by
  constructor
  · intro ⟨i, hi, hp⟩
    have hlt : p < numPriorities := hp ▸ hr i hi
    refine (h.bit_iff ⟨p, hlt⟩).mpr ⟨i, hi, Fin.ext ?_⟩
    exact (hr.level_eq hi).trans hp
  · intro hp
    have hlt : p < numPriorities := BitVec.lt_of_getLsbD hp
    obtain ⟨i, hi, hl⟩ := (h.bit_iff ⟨p, hlt⟩).mp hp
    exact ⟨i, hi, (hr.level_eq hi).symm.trans (congrArg Fin.val hl)⟩

end Agrees

/-! ## The rotation -/

namespace Scheduler

variable {s s' : Scheduler N} {cur : Fin N}

section

variable (h : s.rotate cur = some s')

include h

theorem rotate_cases :
    s' = s ∨ s.IsReady cur ∧ (s.tasks cur).currentPriority < numPriorities ∧
      s.readyHead (s.level cur) = some cur ∧
      s' = s.setReadyHead (s.level cur) (s.tasks cur).nextReady := by
  unfold rotate at h
  split_ifs at h with hr hp
  · dsimp only at h
    have hl : s.level cur = ⟨_, hp⟩ := Fin.ext (readyIndex_of_lt hp)
    split_ifs at h with hh
    · refine .inr ⟨hr, hp, ?_, ?_⟩
      · rw [hl, hh]
      · rw [hl]
        exact (some.inj h).symm
    · exact .inl (some.inj h).symm
  · exact .inl (some.inj h).symm

theorem tasks_rotate : s'.tasks = s.tasks := by
  rcases rotate_cases h with rfl | ⟨-, -, -, rfl⟩ <;> rfl

theorem readyBitmask_rotate : s'.readyBitmask = s.readyBitmask := by
  rcases rotate_cases h with rfl | ⟨-, -, -, rfl⟩ <;> rfl

theorem taskCount_rotate : s'.taskCount = s.taskCount := by
  rcases rotate_cases h with rfl | ⟨-, -, -, rfl⟩ <;> rfl

end

/-- The rotation is defined unless a ready current task's priority is past the last level. -/
theorem rotate_isSome (h : s.IsReady cur → (s.tasks cur).currentPriority < numPriorities) :
    ∃ s', s.rotate cur = some s' := by
  unfold rotate
  split_ifs with hr hp
  · dsimp only
    split_ifs <;> exact ⟨_, rfl⟩
  · exact absurd (h hr) hp
  · exact ⟨s, rfl⟩

end Scheduler

/-- Rotating a queue: the head becomes the last element. -/
theorem Represents.setReadyHead {s : Scheduler N} {Q : Queues N} {R : Fin N → Prop}
    (h : Represents s Q R) {p : Fin numPriorities} {l : List (Fin N)}
    (hQ : Q p = i :: l) :
    Represents (s.setReadyHead p (s.tasks i).nextReady) (update Q p (l ++ [i])) R := by
  have hring := h.ring p
  rw [hQ] at hring
  have hmem : ∀ j, j ∈ l ++ [i] ↔ j ∈ Q p := by
    intro j
    rw [hQ, mem_append, mem_singleton, mem_cons, or_comm]
  refine ⟨h.toThreads.updateQueue (fun j => rfl) (fun j hj => h.level p j ((hmem j).mp hj))
    (fun q => ?_) (IsRing.rotate hring) (fun q => ?_)
    (fun j _ _ => ⟨rfl, rfl⟩) (fun j hj hj' => absurd ((hmem j).mpr hj) hj'), fun j => ?_⟩
  · show update s.readyHead p (s.next i) q = _
    rw [update_apply, hring.next_head]
  · show s.readyBitmask.getLsbD q = true ↔ _
    split_ifs with hq
    · rw [hq, h.bit]
      simp [hQ]
    · rfl
  · rw [← h.mem]
    show j ∈ update Q p (l ++ [i]) (s.level j) ↔ _
    by_cases hj : s.level j = p
    · rw [hj, update_self, hmem]
    · rw [update_of_ne hj]

namespace Agrees

variable {s s' : Scheduler N} {cur : Fin N}

theorem rotate (h : Agrees s) (hs : s.rotate cur = some s') : Agrees s' := by
  rcases rotate_cases hs with rfl | ⟨-, -, hh, rfl⟩
  · exact h
  · obtain ⟨Q, hQ⟩ := h
    obtain ⟨l, hl⟩ := head?_eq_some_iff.mp ((hQ.head _).symm.trans hh)
    exact ⟨_, hQ.setReadyHead hl⟩

/-- After the rotation the current task heads a list only if it is alone in it. -/
theorem eq_of_readyHead_rotate (h : Agrees s) (hr : s.InRange) (hs : s.rotate cur = some s')
    {p : Fin numPriorities} (hp : s'.readyHead p = some cur) {j : Fin N} (hj : s.IsReady j)
    (hjp : s.level j = p) : j = cur := by
  obtain ⟨hcur, hlev⟩ := (h.rotate hs).isReady_of_readyHead hp
  have hcur : s.IsReady cur := by
    unfold Scheduler.IsReady at hcur ⊢
    rwa [tasks_rotate hs] at hcur
  have hlev : s.level cur = p := by
    unfold level at hlev ⊢
    rwa [tasks_rotate hs] at hlev
  subst hlev
  have hlt := hr cur hcur
  have hidx : s.level cur = ⟨_, hlt⟩ := Fin.ext (hr.level_eq hcur)
  by_cases hh : s.readyHead (s.level cur) = some cur
  · -- the head stepped back to `next_ready`, so that link leads back to the task itself
    obtain ⟨Q, hQ⟩ := h
    have hs' : s' = s.setReadyHead (s.level cur) (s.tasks cur).nextReady := by
      rw [hidx] at hh ⊢
      simpa [Scheduler.rotate, show (s.tasks cur).state = .ready from hcur, hlt, hh] using hs.symm
    have hself : s.next cur = some cur := by
      rw [hs'] at hp
      simpa [Scheduler.setReadyHead, Scheduler.next] using hp
    have hmem : cur ∈ Q (s.level cur) := (hQ.mem cur).mpr hcur
    have hj' : j ∈ Q (s.level cur) := hQ.mem_iff.mpr ⟨hj, hjp⟩
    rw [(hQ.ring _).eq_singleton_of_next_self hmem hself] at hj'
    exact mem_singleton.mp hj'
  · rcases rotate_cases hs with rfl | ⟨-, -, hh', -⟩
    · exact absurd hp hh
    · exact absurd hh' hh

end Agrees

/-! ## The scan -/

namespace Scheduler

variable {allowed : Nat → Bool}

theorem scanAllowed_some {fuel : Nat} {mask : BitVec 32} {p : Fin numPriorities}
    (h : scanAllowed allowed fuel mask = some p) :
    mask.getLsbD p = true ∧ allowed p = true ∧
      ∀ q, mask.getLsbD q = true → allowed q = true → q ≤ p := by
  induction fuel generalizing mask with
  | zero => cases h
  | succ fuel ih =>
    rw [scanAllowed] at h
    cases hb : findHighestBit mask with
    | none => simp [hb] at h
    | some b =>
      obtain ⟨hset, habove⟩ := findHighestBit_spec hb
      have hle : ∀ q, mask.getLsbD q = true → q ≤ b := fun q hq =>
        Nat.le_of_not_lt fun hbq => by simp [habove q hbq] at hq
      simp only [hb] at h
      split_ifs at h with ha
      · obtain rfl := some.inj h
        exact ⟨hset, ha, fun q hq _ => hle q hq⟩
      · obtain ⟨hp, hap, hmax⟩ := ih h
        rw [getLsbD_clearBit _ b.isLt] at hp
        refine ⟨by simp_all, hap, fun q hq haq => hmax q ?_ haq⟩
        -- the level just dropped was not allowed
        have hqb : q ≠ b := fun hqb => ha (hqb ▸ haq)
        simp [getLsbD_clearBit _ b.isLt, hq, hqb]

theorem scanAllowed_none {fuel : Nat} {mask : BitVec 32}
    (h : scanAllowed allowed fuel mask = none) (hfuel : ∀ q, fuel ≤ q → mask.getLsbD q = false)
    {q : Nat} (hq : mask.getLsbD q = true) : allowed q = false := by
  induction fuel generalizing mask with
  | zero => simp [hfuel q (Nat.zero_le q)] at hq
  | succ fuel ih =>
    rw [scanAllowed] at h
    cases hb : findHighestBit mask with
    | none => simp [findHighestBit_eq_none.mp hb] at hq
    | some b =>
      obtain ⟨hset, habove⟩ := findHighestBit_spec hb
      simp only [hb] at h
      split_ifs at h with ha
      by_cases hqb : q = b
      · rw [hqb]
        simpa using ha
      · refine ih h (fun r hr => ?_) (by simp [getLsbD_clearBit _ b.isLt, hq, hqb])
        -- the highest bit is gone, and it was at most `fuel`
        rw [getLsbD_clearBit _ b.isLt]
        by_cases hrb : r = b
        · simp [hrb]
        · have hbf : (b : Nat) ≤ fuel := Nat.le_of_not_lt fun hfb =>
            Bool.false_ne_true ((hfuel b hfb).symm.trans hset)
          simp [habove r (by omega)]

/-! ## The choice -/

/-- The scan finds the highest allowed priority, when there is one. -/
theorem TopAllowed.scan {s : Scheduler N} (h : Agrees s) (hr : s.InRange)
    (hex : ∃ p, allowed p = true ∧ s.ReadyAt p) :
    ∃ p, scanAllowed allowed numPriorities s.readyBitmask = some p ∧ s.TopAllowed allowed p := by
  cases hscan : scanAllowed allowed numPriorities s.readyBitmask with
  | none =>
    obtain ⟨p, hp, hat⟩ := hex
    have hwide : ∀ q, numPriorities ≤ q → s.readyBitmask.getLsbD q = false := fun q hq =>
      BitVec.getLsbD_of_ge _ _ hq
    have := scanAllowed_none hscan hwide ((h.readyAt_iff hr p).mp hat)
    simp [hp] at this
  | some p =>
    obtain ⟨hbit, hall, hmax⟩ := scanAllowed_some hscan
    exact ⟨p, rfl, hall, (h.readyAt_iff hr p).mpr hbit, fun q hq hat =>
      hmax q ((h.readyAt_iff hr q).mp hat) hq⟩

/-- What `selectNext` returns when some ready task is allowed: the head of the top level, unless
that is the current task and the idle list is not empty. -/
theorem selectNext_eq {s : Scheduler N} (h : Agrees s) {p : Fin numPriorities}
    (hscan : scanAllowed allowed numPriorities s.readyBitmask = some p)
    (hi : s.readyHead p = some i) (cur : Fin N) :
    s.selectNext allowed cur =
      if i = cur ∧ s.readyBitmask.getLsbD idle then s.readyHead 0 else some i := by
  have hready : ∀ {q j}, s.readyHead q = some j → (s.tasks j).state = .ready := fun hj =>
    (h.isReady_of_readyHead hj).1
  simp only [selectNext, hscan, hi, bind_eq_bind, bind_some]
  by_cases hidle : i = cur ∧ s.readyBitmask.getLsbD idle
  · obtain ⟨j, hj⟩ := h.readyHead_of_bit (p := 0) hidle.2
    rw [if_pos hidle, if_pos hidle, hj, bind_some, if_pos (hready hj)]
  · rw [if_neg hidle, if_neg hidle]
    exact if_pos (hready hi)

end Scheduler

/-! ## The policy -/

/-- The task that runs after `schedule`: `g_next_tcb_ptr` when a switch was triggered. -/
def runsNext (cur : Fin N) (r : Kernel N × Bool) : Option (Fin N) :=
  if r.2 then r.1.nextTcb else some cur

/-- If some ready task is allowed, a ready task of the highest allowed priority runs next. -/
def PicksTop (allowed : Nat → Bool) (s : Scheduler N) (cur : Fin N)
    (r : Option (Kernel N × Bool)) : Prop :=
  (∃ p, allowed p = true ∧ s.ReadyAt p) →
    ∃ k i, r = some k ∧ runsNext cur k = some i ∧ k.1.sched.IsReady i ∧
      k.1.sched.TopAllowed allowed (k.1.sched.tasks i).currentPriority

namespace Kernel

variable {allowed : Nat → Bool} {k : Kernel N} {cur : Fin N}

theorem reschedule_eq {s : Scheduler N}
    (hs : k.sched.rotate cur = some s) (hi : s.selectNext allowed cur = some i) :
    ∃ r, k.reschedule allowed cur = some r ∧ runsNext cur r = some i ∧ r.1.sched = s := by
  simp only [reschedule, hs, hi, bind_eq_bind, bind_some]
  split_ifs with hcur
  · exact ⟨_, rfl, by simp [runsNext, hcur], rfl⟩
  · exact ⟨_, rfl, by simp [runsNext], rfl⟩

/-- What `reschedule` picks, in terms of the lists before the rotation. -/
theorem reschedule_spec (hagree : Agrees k.sched)
    (hrange : k.sched.InRange) (hex : ∃ p, allowed p = true ∧ k.sched.ReadyAt p) :
    ∃ r i, k.reschedule allowed cur = some r ∧ runsNext cur r = some i ∧
      r.1.sched.tasks = k.sched.tasks ∧ k.sched.IsReady i ∧
      (k.sched.LoneTop allowed cur → (k.sched.tasks i).currentPriority = idle) ∧
      (¬ k.sched.LoneTop allowed cur →
        k.sched.TopAllowed allowed (k.sched.tasks i).currentPriority) := by
  obtain ⟨s, hs⟩ := rotate_isSome (hrange cur)
  have htasks := tasks_rotate hs
  have hbits := readyBitmask_rotate hs
  have hhead : ∀ {q j}, s.readyHead q = some j →
      k.sched.IsReady j ∧ (k.sched.tasks j).currentPriority = q := by
    intro q j hj
    obtain ⟨hr, hl⟩ := (hagree.rotate hs).isReady_of_readyHead hj
    simp only [Scheduler.IsReady, level, htasks] at hr hl
    exact ⟨hr, (readyIndex_of_lt (hrange j hr)).symm.trans (congrArg Fin.val hl)⟩
  obtain ⟨p, hscan, htop⟩ := Scheduler.TopAllowed.scan hagree hrange hex
  rw [← hbits] at hscan
  obtain ⟨i, hi⟩ := (hagree.rotate hs).readyHead_of_bit (scanAllowed_some hscan).1
  have hsel := selectNext_eq (hagree.rotate hs) hscan hi cur
  have hidle : s.readyBitmask.getLsbD idle = true ↔
      k.sched.ReadyAt idle := by rw [hbits, hagree.readyAt_iff hrange]
  obtain ⟨hir, hip⟩ := hhead hi
  by_cases hfall : i = cur ∧ s.readyBitmask.getLsbD idle
  · -- the first fallback is taken
    rw [if_pos hfall] at hsel
    obtain ⟨j, hj⟩ := (hagree.rotate hs).readyHead_of_bit (p := 0) hfall.2
    obtain ⟨r, hr, hnext, hrs⟩ := reschedule_eq hs (hsel.trans hj)
    obtain ⟨hjr, hjp⟩ := hhead hj
    refine ⟨r, j, hr, hnext, by rw [hrs, htasks], hjr, fun _ => hjp, fun hlone => ?_⟩
    obtain rfl := hfall.1
    have hp : (p : Nat) = 0 := by
      by_contra hp
      refine hlone ⟨hir, hip ▸ htop, by omega, fun m hm hmp => ?_, hidle.mp hfall.2⟩
      refine hagree.eq_of_readyHead_rotate hrange hs hi hm (Fin.ext ?_)
      rw [hrange.level_eq hm, hmp, hip]
    rw [hp] at htop
    rwa [hjp]
  · rw [if_neg hfall] at hsel
    obtain ⟨r, hr, hnext, hrs⟩ := reschedule_eq hs hsel
    refine ⟨r, i, hr, hnext, by rw [hrs, htasks], hir, fun hlone => ?_, fun _ => hip ▸ htop⟩
    obtain ⟨-, htop', -, halone, hat⟩ := hlone
    refine absurd ⟨halone i hir ?_, hidle.mpr hat⟩ hfall
    rw [hip]
    exact Nat.le_antisymm (htop'.2.2 _ htop.1 htop.2.1) (htop.2.2 _ htop'.1 htop'.2.1)

/-- In the exceptional case the idle task is picked, below the current one. -/
theorem not_picksTop_of_loneTop (hagree : Agrees k.sched)
    (hrange : k.sched.InRange) (hlone : k.sched.LoneTop allowed cur) :
    ¬ PicksTop allowed k.sched cur (k.reschedule allowed cur) := by
  intro hpick
  have hex : ∃ p, allowed p = true ∧ k.sched.ReadyAt p := ⟨_, hlone.2.1.1, hlone.2.1.2.1⟩
  obtain ⟨r, i, hr, hnext, htasks, -, hidle, -⟩ := reschedule_spec hagree hrange hex
  obtain ⟨r', i', hr', hnext', -, htop⟩ := hpick hex
  obtain rfl : r = r' := some.inj (hr.symm.trans hr')
  obtain rfl : i = i' := some.inj (hnext.symm.trans hnext')
  simp only [Scheduler.TopAllowed, Scheduler.ReadyAt, Scheduler.IsReady, htasks] at htop
  -- the idle priority is not the highest one
  have hle := htop.2.2 _ hlone.2.1.1 hlone.2.1.2.1
  rw [hidle hlone] at hle
  exact absurd hlone.2.2.1 (Nat.not_lt.mpr hle)

/-- **When `schedule` keeps to the policy.** Past the signal dispatch it hands over to a ready task
of the highest allowed priority, exactly unless the current task is the only ready task of that
priority, the priority is above idle, and an idle task is ready: then the idle task gets the
processor. -/
theorem schedule_picks_top_iff [NeZero N]
    (run : SignalHandler → Nat → Kernel N → Option (Kernel N)) {k k₁ : Kernel N}
    (hstarted : k.sched.started = true) (hcount : 1 < k.sched.taskCount)
    (hdispatch : k.dispatchSignals run k.currentTaskId = some k₁) (hagree : Agrees k₁.sched)
    (hrange : k₁.sched.InRange) :
    PicksTop allowed k₁.sched k.currentTaskId (k.schedule run allowed) ↔
      ¬ k₁.sched.LoneTop allowed k.currentTaskId := by
  have hsched : k.schedule run allowed = k₁.reschedule allowed k.currentTaskId := by
    have hgo : ¬ (!k.sched.started ∨ k.sched.taskCount ≤ 1) := by simp [hstarted, hcount]
    simp only [schedule, if_neg hgo, hdispatch, bind_some]
  rw [hsched]
  constructor
  · intro hpick hlone
    exact not_picksTop_of_loneTop hagree hrange hlone hpick
  · intro hlone hex
    obtain ⟨r, i, hr, hnext, htasks, hir, -, htop⟩ := reschedule_spec hagree hrange hex
    refine ⟨r, i, hr, hnext, ?_, ?_⟩
    · rwa [Scheduler.IsReady, htasks]
    · simp only [Scheduler.TopAllowed, Scheduler.ReadyAt, Scheduler.IsReady, htasks]
      exact htop hlone

/-- An idle task and one of normal priority, both ready, `cur` being the current one. -/
def idleAndNormal (cur : Fin 2) : Kernel 2 :=
  let k := (boot.createAt 0 true TaskPriority.idle).createAt 1 true 8
  { k with sched := { k.sched with started := true }, currentTcb := some cur }

theorem agrees_idleAndNormal (cur : Fin 2) : Agrees (idleAndNormal cur).sched := by
  have h₀ : Agrees (boot : Kernel 2).sched := Agrees.init _
  have h₁ := h₀.createAt (i := 0) (by decide) idle
  obtain ⟨Q, hQ⟩ := h₁.createAt (i := 1) (by decide) 8
  exact ⟨Q, hQ.toThreads.congr rfl rfl rfl (fun _ _ _ => rfl) rfl, hQ.mem⟩

theorem inRange_idleAndNormal (cur : Fin 2) : (idleAndNormal cur).sched.InRange := by
  unfold Scheduler.InRange
  revert cur
  decide

/-- Task 1 is ready and has the highest priority of all, and `schedule` switches to the idle task
all the same. -/
theorem schedule_leaves_lone_top :
    (idleAndNormal 1).sched.started = true ∧ 1 < (idleAndNormal 1).sched.taskCount ∧
      (idleAndNormal 1).currentTaskId = 1 ∧
      (idleAndNormal 1).dispatchSignals (fun _ _ _ => none) 1 = some (idleAndNormal 1) ∧
      Agrees (idleAndNormal 1).sched ∧ (idleAndNormal 1).sched.InRange ∧
      ((idleAndNormal 1).schedule (fun _ _ _ => none) fun _ => true).bind (runsNext 1) = some 0 ∧
      ¬ PicksTop (fun _ => true) (idleAndNormal 1).sched 1
        ((idleAndNormal 1).schedule (fun _ _ _ => none) fun _ => true) := by
  refine ⟨rfl, by decide, rfl, rfl, agrees_idleAndNormal 1, inRange_idleAndNormal 1, by decide, ?_⟩
  refine not_picksTop_of_loneTop (agrees_idleAndNormal 1) (inRange_idleAndNormal 1) ?_
  refine ⟨rfl, ⟨rfl, ⟨1, rfl, rfl⟩, ?_⟩, by decide, ?_, 0, rfl, rfl⟩
  · rintro q - ⟨i, -, rfl⟩
    revert i
    decide
  · decide

theorem schedule_picks_top_from_idle :
    PicksTop (fun _ => true) (idleAndNormal 0).sched (idleAndNormal 0).currentTaskId
      ((idleAndNormal 0).schedule (fun _ _ _ => none) fun _ => true) :=
  (schedule_picks_top_iff (fun _ _ _ => none) rfl (by decide) rfl (agrees_idleAndNormal 0)
    (inRange_idleAndNormal 0)).mpr fun h => absurd h.2.2.1 (by decide)

end Kernel

end AuroraOS
