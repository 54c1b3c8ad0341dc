import AuroraOS.Timers

/-!
# The timer daemon

`TimerManager::start_timer` and the drain loop of `TimerManager::daemon_task` of
`kernel/interrupt/timer.hpp`. The tick count stands still while the loop runs, and the callbacks
leave the timers alone, so all that is kept of a callback is whose it was.

A timer falls due again as long as its next deadline has not passed the tick count, and deadlines
wrap around: `drains_iff` says when the loop ends with every callback made as often as it should be.
-/

namespace AuroraOS

open Nat List Function

inductive TimerType
  | oneShot
  | periodic
  deriving DecidableEq

/-- `SoftwareTimer` with the fields that the daemon looks at. -/
structure DaemonTimer extends SoftwareTimer where
  type : TimerType
  periodTicks : Nat

abbrev TimerTable := Fin 8 → DaemonTimer

namespace DaemonTimer

/-- A timer whose callback is about to be made. -/
def fire (t : DaemonTimer) : DaemonTimer :=
  match t.type with
  | .periodic => { t with expireTick := (t.expireTick + t.periodTicks) % 2 ^ 32 }
  | .oneShot => { t with active := false }

/-- The callbacks that the timer should make. -/
def callsBy (t : DaemonTimer) (now : Nat) : Nat :=
  if t.Due now then
    match t.type with
    | .periodic => (now - t.expireTick) / t.periodTicks + 1
    | .oneShot => 1
  else 0

/-- A periodic timer that is due has a period, and its first deadline after `now` does not wrap
around. -/
def Settles (t : DaemonTimer) (now : Nat) : Prop :=
  t.Due now → t.type = .periodic →
    0 < t.periodTicks ∧ t.expireTick + t.callsBy now * t.periodTicks < 2 ^ 32
  deriving Decidable

/-- The fields are `uint32_t`. -/
def IsWord (t : DaemonTimer) : Prop := t.expireTick < 2 ^ 32 ∧ t.periodTicks < 2 ^ 32

end DaemonTimer

namespace TimerTable

variable {t : DaemonTimer}

/-- `start_timer`: the slot, or `-1`. -/
def startTimer (timers : TimerTable) (now periodTicks : Nat) (type : TimerType) :
    TimerTable × Int :=
  match (List.finRange 8).find? fun i => !(timers i).active with
  | none => (timers, -1)
  | some i =>
    (Function.update timers i ⟨⟨true, (now + periodTicks) % 2 ^ 32⟩, type, periodTicks⟩, (i : Nat))

/-- A round of the `for` loop. -/
def visit (now : Nat) (s : TimerTable × List (Fin 8)) (i : Fin 8) : TimerTable × List (Fin 8) :=
  if (s.1 i).Due now then (Function.update s.1 i (s.1 i).fire, s.2 ++ [i]) else s

/-- The `for` loop: the timers, and whose callbacks it has made. -/
def pass (now : Nat) (timers : TimerTable) : TimerTable × List (Fin 8) :=
  (List.finRange 8).foldl (visit now) (timers, [])

/-- The loop around it, which ends with the first pass that makes no callback. -/
def drain (now : Nat) : Nat → TimerTable → Option (List (Fin 8))
  | 0, _ => none
  | fuel + 1, timers =>
    let (timers, calls) := pass now timers
    if calls = [] then some [] else (drain now fuel timers).map (calls ++ ·)

variable {now : Nat} {timers : TimerTable}

theorem startTimer_isWord (h : ∀ i, (timers i).IsWord) (now : Nat) {periodTicks : Nat}
    (hperiod : periodTicks < 2 ^ 32) (type : TimerType) (i : Fin 8) :
    ((timers.startTimer now periodTicks type).1 i).IsWord := by
  unfold startTimer
  split
  · exact h i
  · next j _ =>
    by_cases hij : i = j
    · subst hij
      simp only [update_self]
      exact ⟨mod_lt _ (by decide), hperiod⟩
    · simp only [update_of_ne hij]
      exact h i

/-! ## Passes -/

theorem foldl_visit (now : Nat) {l : List (Fin 8)} (hl : l.Nodup) (timers : TimerTable)
    (calls : List (Fin 8)) :
    l.foldl (visit now) (timers, calls) =
      (fun i => if i ∈ l ∧ (timers i).Due now then (timers i).fire else timers i,
        calls ++ l.filter fun i => (timers i).Due now) := by
  induction l generalizing timers calls with
  | nil => simp
  | cons j l ih =>
    obtain ⟨hj, hl⟩ := nodup_cons.1 hl
    have hne : ∀ i ∈ l, i ≠ j := fun i hi hij => hj (hij ▸ hi)
    rw [foldl_cons, visit]
    by_cases hdue : (timers j).Due now
    · rw [if_pos hdue, ih hl, filter_cons_of_pos (by simpa using hdue)]
      refine Prod.ext (funext fun i => ?_) ?_
      · by_cases hij : i = j
        · simp [hij, hj, hdue]
        · simp [hij]
      · have hfilter : (l.filter fun i => (update timers j (timers j).fire i).Due now) =
            l.filter fun i => (timers i).Due now :=
          filter_congr fun i hi => by rw [update_of_ne (hne i hi)]
        simp [hfilter]
    · rw [if_neg hdue, ih hl, filter_cons_of_neg (by simpa using hdue)]
      refine Prod.ext (funext fun i => ?_) rfl
      by_cases hij : i = j
      · simp [hij, hj, hdue]
      · simp [hij]

theorem pass_eq (now : Nat) (timers : TimerTable) :
    pass now timers = (fun i => if (timers i).Due now then (timers i).fire else timers i,
      (finRange 8).filter fun i => (timers i).Due now) := by
  simp [pass, foldl_visit now (nodup_finRange 8)]

theorem count_pass (now : Nat) (timers : TimerTable) (i : Fin 8) :
    (pass now timers).2.count i = if (timers i).Due now then 1 else 0 := by
  rw [pass_eq]
  by_cases hdue : (timers i).Due now
  · rw [if_pos hdue, count_filter (by simpa using hdue)]
    exact count_eq_one_of_mem (nodup_finRange 8) (mem_finRange i)
  · rw [if_neg hdue, count_eq_zero]
    simp [hdue]

/-! ## The loop -/

/-- The timer is due `n` times, and then no more. -/
structure Fires (now : Nat) (t : DaemonTimer) (n : Nat) : Prop where
  due : ∀ m < n, (DaemonTimer.fire^[m] t).Due now
  done : ¬(DaemonTimer.fire^[n] t).Due now

theorem Fires.zero_iff : Fires now t 0 ↔ ¬t.Due now :=
  ⟨fun h => h.done, fun h => ⟨by simp, h⟩⟩

theorem Fires.succ_iff {n : Nat} :
    Fires now t (n + 1) ↔ t.Due now ∧ Fires now t.fire n := by
  constructor
  · intro h
    exact ⟨h.due 0 n.succ_pos, fun m hm => h.due (m + 1) (succ_lt_succ hm), h.done⟩
  · rintro ⟨hdue, h⟩
    refine ⟨fun m hm => ?_, h.done⟩
    cases m with
    | zero => exact hdue
    | succ m => exact h.due m (lt_of_succ_lt_succ hm)

theorem Fires.unique {m n : Nat} (hm : Fires now t m) (hn : Fires now t n) : m = n := by
  rcases lt_trichotomy m n with hlt | heq | hlt
  · exact absurd (hn.due m hlt) hm.done
  · exact heq
  · exact absurd (hm.due n hlt) hn.done

/-- **When the loop ends**, each timer has made its callbacks. -/
theorem fires_of_drain {fuel : Nat} {calls : List (Fin 8)} (h : drain now fuel timers = some calls)
    (i : Fin 8) : Fires now (timers i) (calls.count i) := by
  induction fuel generalizing timers calls with
  | zero => cases h
  | succ fuel ih =>
    simp only [drain] at h
    have hcount := count_pass now timers i
    split_ifs at h with hnone
    · cases h
      rw [hnone] at hcount
      refine Fires.zero_iff.2 fun hdue => ?_
      simp [hdue] at hcount
    · obtain ⟨rest, hrest, rfl⟩ := Option.map_eq_some_iff.1 h
      have hfires := ih hrest
      rw [count_append, hcount]
      rw [pass_eq] at hfires
      by_cases hdue : (timers i).Due now
      · rw [if_pos hdue, add_comm]
        exact Fires.succ_iff.2 ⟨hdue, by simpa [hdue] using hfires⟩
      · simpa [hdue] using hfires

/-- **The loop ends** if every timer is done at some time. -/
theorem exists_drain {count : Fin 8 → Nat} {bound : Nat} (hbound : ∀ i, count i ≤ bound)
    (h : ∀ i, Fires now (timers i) (count i)) :
    ∃ calls, drain now (bound + 1) timers = some calls := by
  induction bound generalizing timers count with
  | zero =>
    have hnone : (pass now timers).2 = [] := by
      rw [pass_eq, filter_eq_nil_iff]
      intro i _
      have hi := h i
      rw [le_zero.1 (hbound i), Fires.zero_iff] at hi
      simpa using hi
    exact ⟨[], by simp [drain, hnone]⟩
  | succ bound ih =>
    have hstep : ∀ i, Fires now ((pass now timers).1 i) (count i - 1) := by
      intro i
      have hi := h i
      rw [pass_eq]
      cases hcount : count i with
      | zero =>
        rw [hcount, Fires.zero_iff] at hi
        simp [hi, Fires.zero_iff]
      | succ n =>
        rw [hcount, Fires.succ_iff] at hi
        simpa [hi.1] using hi.2
    obtain ⟨rest, hrest⟩ := ih (fun i => sub_le_of_le_add (hbound i)) hstep
    by_cases hnone : (pass now timers).2 = []
    · exact ⟨[], by simp [drain, hnone]⟩
    · refine ⟨(pass now timers).2 ++ rest, ?_⟩
      rw [drain]
      simp [hnone, hrest]

end TimerTable

/-! ## Deadlines -/

namespace DaemonTimer

open TimerTable

variable {t : DaemonTimer} {now : Nat}

theorem iterate_fire (hperiodic : t.type = .periodic) (hword : t.IsWord) (n : Nat) :
    fire^[n] t = { t with expireTick := (t.expireTick + n * t.periodTicks) % 2 ^ 32 } := by
  induction n with
  | zero => rw [zero_mul, add_zero, mod_eq_of_lt hword.1, iterate_zero_apply]
  | succ n ih =>
    rw [iterate_succ_apply', ih, fire]
    simp only [hperiodic]
    congr 2
    rw [mod_add_mod, succ_mul, add_assoc]

/-- The deadline after `callsBy` callbacks is the first one past `now`. -/
theorem lt_callsBy (hdue : t.Due now) (hperiodic : t.type = .periodic) (hpos : 0 < t.periodTicks) :
    now < t.expireTick + t.callsBy now * t.periodTicks ∧
      ∀ m < t.callsBy now, t.expireTick + m * t.periodTicks ≤ now := by
  have hle := hdue.2
  have hdiv := div_add_mod (now - t.expireTick) t.periodTicks
  have hmod := mod_lt (now - t.expireTick) hpos
  simp only [callsBy, if_pos hdue, hperiodic]
  constructor
  · rw [add_mul, mul_comm]
    omega
  · intro m hm
    have := mul_le_mul_right t.periodTicks (le_of_lt_succ hm)
    rw [mul_comm] at hdiv
    omega

/-- **A timer makes the callbacks it should** iff its deadlines do not wrap around. -/
theorem fires_callsBy_iff (hword : t.IsWord) (hnow : now < 2 ^ 32) :
    Fires now t (t.callsBy now) ↔ t.Settles now := by
  by_cases hdue : t.Due now
  swap
  · simp [callsBy, Settles, hdue, Fires.zero_iff]
  cases htype : t.type with
  | oneShot =>
    simp only [callsBy, if_pos hdue, htype, Settles, Fires.succ_iff, Fires.zero_iff, fire]
    simpa [SoftwareTimer.Due] using hdue
  | periodic =>
    have hiter := iterate_fire htype hword
    have hdue' : ∀ n, (fire^[n] t).Due now ↔ (t.expireTick + n * t.periodTicks) % 2 ^ 32 ≤ now := by
      intro n
      rw [hiter n]
      exact and_iff_right hdue.1
    constructor
    · intro h _ _
      have hdone := h.done
      rw [hdue', not_le] at hdone
      rcases Nat.eq_zero_or_pos t.periodTicks with hzero | hpos
      · rw [hzero, mul_zero, add_zero, mod_eq_of_lt hword.1] at hdone
        exact absurd hdue.2 (not_le.2 hdone)
      · refine ⟨hpos, not_le.1 fun hwrap => ?_⟩
        -- the deadline before it has not passed `now`, so it wraps around once
        obtain ⟨n, hn⟩ : ∃ n, t.callsBy now = n + 1 := ⟨_, by simp [callsBy, hdue, htype]; rfl⟩
        have hlast := (lt_callsBy hdue htype hpos).2 n (by omega)
        have hperiod := hword.2
        rw [hn, succ_mul] at hwrap hdone
        omega
    · intro h
      obtain ⟨hpos, hfits⟩ := h hdue htype
      obtain ⟨hlast, hbefore⟩ := lt_callsBy hdue htype hpos
      refine ⟨fun m hm => ?_, ?_⟩
      · have := hbefore m hm
        rw [hdue', mod_eq_of_lt (by omega)]
        exact this
      · rw [hdue']
        omega

end DaemonTimer

namespace TimerTable

/-- **The drain loop** ends with every callback made as often as it should be iff every periodic
timer that is due has a period and its next deadline does not wrap around. -/
theorem drains_iff (timers : TimerTable) (hword : ∀ i, (timers i).IsWord) (now : Nat)
    (hnow : now < 2 ^ 32) :
    (∃ fuel calls, drain now fuel timers = some calls ∧
        ∀ i, calls.count i = (timers i).callsBy now) ↔
      ∀ i, (timers i).Settles now := by
  constructor
  · rintro ⟨fuel, calls, hdrain, hcount⟩ i
    rw [← DaemonTimer.fires_callsBy_iff (hword i) hnow, ← hcount i]
    exact fires_of_drain hdrain i
  · intro h
    have hfires := fun i => (DaemonTimer.fires_callsBy_iff (hword i) hnow).2 (h i)
    obtain ⟨calls, hdrain⟩ := exists_drain
      (fun i => Finset.le_sup (f := fun i => (timers i).callsBy now) (Finset.mem_univ i)) hfires
    refine ⟨_, calls, hdrain, fun i => ?_⟩
    exact (fires_of_drain hdrain i).unique (hfires i)

/-- No timer is in use. -/
def empty : TimerTable := fun _ => ⟨⟨false, 0⟩, .oneShot, 0⟩

/-- A timer with a period of 3 ticks and one with a single deadline, started at tick 0 and looked at
at tick 10. -/
theorem drains_iff_two :
    let timers := ((empty.startTimer 0 3 .periodic).1.startTimer 0 5 .oneShot).1
    ∃ fuel calls, drain 10 fuel timers = some calls ∧
      ∀ i, calls.count i = (timers i).callsBy 10 := by
  intro timers
  have hempty : ∀ i, (empty i).IsWord := fun _ => ⟨Nat.two_pow_pos 32, Nat.two_pow_pos 32⟩
  have hword := startTimer_isWord (startTimer_isWord hempty 0 (by decide : 3 < 2 ^ 32) .periodic) 0
    (by decide : 5 < 2 ^ 32) .oneShot
  exact (drains_iff timers hword 10 (by decide)).2 (by decide)

/-- With a period of 0 the loop does not end. -/
theorem drain_endless :
    let timers := (empty.startTimer 0 0 .periodic).1
    ¬∃ fuel calls, drain 0 fuel timers = some calls ∧
      ∀ i, calls.count i = (timers i).callsBy 0 := by
  rintro timers ⟨fuel, calls, hdrain, hcount⟩
  have hfires := fires_of_drain hdrain 0
  rw [hcount 0, DaemonTimer.fires_callsBy_iff ⟨by decide, by decide⟩ (by decide)] at hfires
  revert hfires
  decide

end TimerTable

end AuroraOS
