import Mathlib.Tactic

/-!
# Registers that are read while they are written

A register holds values of type `V`. Writing and reading take time: an operation is called, takes
effect, and returns. Times are natural numbers, no two operations are called at the same time, and
an operation is known by the time it is called at. A log holds what has taken effect, the latest
first.

A read is regular if it returns what was the latest to take effect among the writes that had
returned before the read was called, or what a write brought that was under way at the same time. A
history is what has happened to many registers.
-/

namespace Register

variable {V : Type*}

/-- A value that has taken effect and the call that brought it, if it was not there from the
start. -/
structure Entry (V : Type*) where
  call : Option Nat
  value : V
  deriving DecidableEq

/-- The call had returned before time `t`. -/
def Entry.Before (returned : Nat → Option Nat) (t : Nat) (e : Entry V) : Prop :=
  ∀ c ∈ e.call, ∃ r ∈ returned c, r < t
  deriving Decidable

/-- What the register holds. -/
def latest (log : List (Entry V)) : Option V := log.head?.map Entry.value

/-- A read that was called at `called` and returned at `done` may return `v`. -/
def Regular (returned : Nat → Option Nat) (called done : Nat) (v : V) : List (Entry V) → Prop
  | [] => False
  | e :: older =>
    (e.value = v ∧ ∀ c ∈ e.call, c ≤ done) ∨
      ¬e.Before returned called ∧ Regular returned called done v older

instance Regular.decidable [DecidableEq V] (returned : Nat → Option Nat)
    (called done : Nat) (v : V) :
    ∀ log, Decidable (Regular returned called done v log)
  | [] => .isFalse id
  | _ :: older =>
    have := Regular.decidable returned called done v older
    inferInstanceAs (Decidable (_ ∨ _))

namespace Regular

variable {returned returned' : Nat → Option Nat} {called done done' : Nat} {v : V}
  {log : List (Entry V)}

/-- A read of what the register holds. -/
theorem of_latest (h : latest log = some v) (hlog : ∀ e ∈ log, ∀ c ∈ e.call, c ≤ done) :
    Regular returned called done v log := by
  cases log with
  | nil => cases h
  | cons e => exact .inl ⟨Option.some.inj h, hlog e List.mem_cons_self⟩

/-- A value stays regular as time passes. -/
theorem mono (h : Regular returned called done v log) (hdone : done ≤ done')
    (hreturned : ∀ c r, returned' c = some r → r < called → returned c = some r) :
    Regular returned' called done' v log := by
  have hbefore : ∀ e : Entry V, e.Before returned' called → e.Before returned called := by
    intro e he c hc
    obtain ⟨r, hr, hlt⟩ := he c hc
    exact ⟨r, hreturned c r hr hlt, hlt⟩
  induction log with
  | nil => exact h
  | cons e older ih =>
    rcases h with ⟨hv, hc⟩ | ⟨he, h⟩
    · exact .inl ⟨hv, fun c hmem => (hc c hmem).trans hdone⟩
    · exact .inr ⟨fun hb => he (hbefore e hb), ih h⟩

end Regular

/-! ## Histories -/

/-- What has happened to the registers `K`. At every time one call makes one step. -/
structure History (K V : Type*) where
  now : Nat
  log : K → List (Entry V)
  returned : Nat → Option Nat

namespace History

variable {K : Type*} {h : History K V} {c called done done' : Nat} {values : K → Option V}
  {returns : Bool} {v : V} {k : K}

def init (v : K → V) : History K V := ⟨0, fun k => [⟨none, v k⟩], fun _ => none⟩

/-- A step of the call `c`. The values take effect, and the call returns or goes on. -/
def step (h : History K V) (c : Nat) (values : K → Option V) (returns : Bool) : History K V where
  now := h.now + 1
  log k := ((values k).map (Entry.mk (some c))).toList ++ h.log k
  returned := if returns then Function.update h.returned c (some h.now) else h.returned

/-- The call may make a step. -/
def Open (h : History K V) (c : Nat) : Prop := c ≤ h.now ∧ h.returned c = none

/-- Nothing comes from the future. -/
structure Ok (h : History K V) : Prop where
  log_ne : ∀ k, h.log k ≠ []
  log_lt : ∀ k, ∀ e ∈ h.log k, ∀ c ∈ e.call, c < h.now
  returned_lt : ∀ c r, h.returned c = some r → c ≤ r ∧ r < h.now

theorem Ok.init (v : K → V) : (init v).Ok := by
  constructor <;> simp [History.init]

/-- A call that is made now has not returned. -/
theorem Ok.open_now (hok : h.Ok) : h.Open h.now := by
  refine ⟨Nat.le_refl _, Option.eq_none_iff_forall_ne_some.2 fun r hr => ?_⟩
  have := hok.returned_lt _ r hr
  omega

/-- What has returned after the step. -/
theorem returned_step {r : Nat} (hr : (h.step c values returns).returned called = some r) :
    h.returned called = some r ∨ called = c ∧ r = h.now := by
  unfold step at hr
  dsimp only at hr
  split_ifs at hr
  · rw [Function.update_apply] at hr
    split_ifs at hr with heq
    · exact .inr ⟨heq, (Option.some.inj hr).symm⟩
    · exact .inl hr
  · exact .inl hr

theorem Ok.step (hok : h.Ok) (hc : h.Open c) : (h.step c values returns).Ok where
  log_ne k := by
    have := hok.log_ne k
    simp [History.step, this]
  log_lt k e he c' hc' := by
    have hle := hc.1
    rcases List.mem_append.1 he with he | he
    · simp only [Option.mem_toList, Option.map_eq_some_iff] at he
      obtain ⟨v, -, rfl⟩ := he
      cases hc'
      exact Nat.lt_succ_of_le hle
    · exact Nat.lt_succ_of_lt (hok.log_lt k e he c' hc')
  returned_lt c' r hr := by
    rcases returned_step hr with hr | ⟨rfl, rfl⟩
    · have := hok.returned_lt c' r hr
      exact ⟨this.1, Nat.lt_succ_of_lt this.2⟩
    · exact ⟨hc.1, Nat.lt_succ_self _⟩

theorem Open.step (hc : h.Open called) (hne : returns → called ≠ c) :
    (h.step c values returns).Open called := by
  refine ⟨Nat.le_succ_of_le hc.1, ?_⟩
  unfold History.step
  dsimp only
  split_ifs with hret
  · rw [Function.update_of_ne (hne hret)]
    exact hc.2
  · exact hc.2

/-- **A step changes nothing for a read that was called before it.** -/
theorem regular_step (hc : h.Open c) (hcalled : called ≤ h.now) (hdone : done ≤ done')
    (hv : Regular h.returned called done v (h.log k)) :
    Regular (h.step c values returns).returned called done' v
      ((h.step c values returns).log k) := by
  have hold : Regular (h.step c values returns).returned called done' v (h.log k) := by
    refine hv.mono hdone fun c' r hr hlt => ?_
    rcases returned_step hr with hr | ⟨-, rfl⟩
    · exact hr
    · omega
  change Regular _ _ _ _ (((values k).map _).toList ++ h.log k)
  cases values k with
  | none => exact hold
  | some v' =>
    refine .inr ⟨fun hbefore => ?_, hold⟩
    obtain ⟨r, hr, hlt⟩ := hbefore c rfl
    rcases returned_step hr with hr | ⟨-, rfl⟩
    · rw [hc.2] at hr
      cases hr
    · omega

section Value

variable [Inhabited V]

/-- What the register holds now. -/
def value (h : History K V) (k : K) : V := (latest (h.log k)).getD default

theorem value_step (h : History K V) (c : Nat) (values : K → Option V) (returns : Bool) (k : K) :
    (h.step c values returns).value k = (values k).getD (h.value k) := by
  unfold value step
  dsimp only
  cases values k <;> rfl

theorem Ok.regular_value (hok : h.Ok) (k : K) :
    Regular h.returned called h.now (h.value k) (h.log k) := by
  refine .of_latest ?_ fun e he c hc => (hok.log_lt k e he c hc).le
  have hne := hok.log_ne k
  unfold value
  generalize h.log k = log at hne
  cases log with
  | nil => exact absurd rfl hne
  | cons => rfl

end Value

end History

end Register
