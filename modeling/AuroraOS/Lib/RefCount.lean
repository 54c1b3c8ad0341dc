import Mathlib.Data.Fintype.Card
import Mathlib.Tactic

/-!
# Reference counting

Places `P` each refer to an object or to none. An object's count is the number of places that refer
to it and a fixed number of references from elsewhere. Emptying a place and lowering the count of
what it referred to keeps this, and so does filling an empty place and raising the count, even where
the counter is a machine word, as long as all references fit in it.
-/

namespace RefCount

open Finset Function

variable {P O : Type*} [Fintype P] [DecidableEq O]

/-- How many places refer to an object. -/
def holders (ref : P → Option O) (o : O) : Nat :=
  (Finset.univ.filter fun p => ref p = some o).card

/-- The counters agree with the references, those from elsewhere included. -/
def Counts (elsewhere : O → Nat) (ref : P → Option O) (count : O → Nat) : Prop :=
  ∀ o, count o = elsewhere o + holders ref o

section

variable {ref : P → Option O} {p : P} {o : O}

/-- An empty place leaves room for one more reference. -/
theorem holders_lt (h : ref p = none) (o : O) : holders ref o < Fintype.card P := by
  apply card_lt_card
  rw [ssubset_univ_iff]
  intro hall
  have hsome := (mem_filter.mp (eq_univ_iff_forall.mp hall p)).2
  rw [h] at hsome
  cases hsome

variable [DecidableEq P]

/-- One more reference, in a place that was empty. -/
theorem holders_fill (h : ref p = none) (o o' : O) :
    holders (update ref p (some o)) o' = holders ref o' + if o' = o then 1 else 0 := by
  have hp : p ∉ univ.filter fun p => ref p = some o' := by
    intro hp
    have hsome := (mem_filter.mp hp).2
    rw [h] at hsome
    cases hsome
  unfold holders
  split_ifs with ho
  · rw [← card_insert_of_notMem hp]
    congr 1
    ext q
    by_cases hq : q = p
    · simp [hq, ho]
    · simp [hq]
  · congr 1
    ext q
    by_cases hq : q = p
    · simp [hq, h, Ne.symm ho]
    · simp [hq]

/-- A place that is emptied could have been filled last. -/
theorem holders_empty (h : ref p = some o) (o' : O) :
    holders ref o' = holders (update ref p none) o' + if o' = o then 1 else 0 := by
  rw [← holders_fill (update_self p none ref) o o', update_idem, ← h,
    update_eq_self]

end

namespace Counts

variable [DecidableEq P] {elsewhere : O → Nat} {ref : P → Option O} {count : O → Nat}
  {p : P} {o : O}

theorem drop (h : Counts elsewhere ref count) (hp : ref p = some o) :
    Counts elsewhere (update ref p none) (update count o (count o - 1)) := by
  intro o'
  have hempty := holders_empty hp o'
  by_cases ho : o' = o
  · rw [ho] at hempty ⊢
    rw [update_self, h o]
    simp only [if_true] at hempty
    omega
  · rw [update_of_ne ho, h o', hempty, if_neg ho, Nat.add_zero]

/-- Fill an empty place and take a reference. The counter has `m` values. -/
theorem take {m : Nat} (h : Counts elsewhere ref count) (hp : ref p = none)
    (hroom : elsewhere o + Fintype.card P < m) :
    Counts elsewhere (update ref p (some o))
      (update count o ((count o + 1) % m)) := by
  intro o'
  rw [holders_fill hp]
  by_cases ho : o' = o
  · have hlt := holders_lt hp o
    rw [ho, update_self, h o, if_pos rfl, Nat.mod_eq_of_lt (by omega), Nat.add_assoc]
  · rw [update_of_ne ho, h o', if_neg ho, Nat.add_zero]

end Counts

end RefCount
