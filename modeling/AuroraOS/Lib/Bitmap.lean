import Mathlib.Data.Nat.Bitwise
import Mathlib.Tactic

/-!
# Bitmaps in a machine word

A set of small numbers kept in one `BitVec w`, with the two searches that hardware offers for it:
the highest set bit (count leading zeros) and the lowest set bit (count trailing zeros). Both
answer `none` for the empty bitmap, where the C convention is `-1`.
-/

namespace Bitmap

variable {w : Nat}

variable {m : BitVec w} {i : Nat}

/-- Add `i` to the set. -/
def setBit (m : BitVec w) (i : Nat) : BitVec w := m ||| (1#w <<< i)

/-- Remove `i` from the set. -/
def clearBit (m : BitVec w) (i : Nat) : BitVec w := m &&& ~~~(1#w <<< i)

theorem log2_lt_width (h : m ≠ 0#w) : m.toNat.log2 < w := by
  have hne : m.toNat ≠ 0 := fun h0 => h (BitVec.eq_of_toNat_eq (by simpa using h0))
  exact (Nat.log2_lt hne).mpr m.isLt

/-- The most significant set bit. -/
def findHighestBit (m : BitVec w) : Option (Fin w) :=
  if h : m = 0#w then none else some ⟨m.toNat.log2, log2_lt_width h⟩

/-- The least significant set bit. -/
def findLowestBit (m : BitVec w) : Option (Fin w) :=
  (List.finRange w).find? fun i => m.getLsbD i

/-! ## Membership after an update -/

theorem getLsbD_setBit (m : BitVec w) (hi : i < w) (j : Nat) :
    (setBit m i).getLsbD j = (decide (j = i) || m.getLsbD j) := by
  simp only [setBit]
  rcases lt_trichotomy j i with h | rfl | h
  · simp [h, h.ne]
  · simp [hi]
  · have hne : ¬ (j - i = 0) := by omega
    simp [hne, h.ne']

theorem getLsbD_clearBit (m : BitVec w) (hi : i < w) (j : Nat) :
    (clearBit m i).getLsbD j = (!decide (j = i) && m.getLsbD j) := by
  simp only [clearBit]
  by_cases hj : j < w
  · rcases lt_trichotomy j i with h | rfl | h
    · simp [h, h.ne, hj]
    · simp [hj]
    · have hne : ¬ (j - i = 0) := by omega
      simp [hne, h.ne', hj]
  · simp [BitVec.getLsbD_of_ge m j (by omega)]

/-- Removing a number adds none. -/
theorem getLsbD_of_clearBit {j : Nat} (h : (clearBit m i).getLsbD j = true) :
    m.getLsbD j = true := by
  rw [clearBit, BitVec.getLsbD_and, Bool.and_eq_true] at h
  exact h.1

theorem getLsbD_clearBit_self (m : BitVec w) (i : Nat) : (clearBit m i).getLsbD i = false := by
  by_cases hi : i < w
  · simp [getLsbD_clearBit m hi]
  · exact BitVec.getLsbD_of_ge _ i (by omega)

/-- Adding a number adds no other. -/
theorem getLsbD_of_setBit {j : Nat} (h : (setBit m i).getLsbD j = true) (hj : j ≠ i) :
    m.getLsbD j = true := by
  rw [setBit, BitVec.getLsbD_or, Bool.or_eq_true] at h
  rcases h with h | h
  · exact h
  · simp only [BitVec.getLsbD_shiftLeft, BitVec.getLsbD_one, Bool.and_eq_true, decide_eq_true_eq,
      Bool.not_eq_true', decide_eq_false_iff_not] at h
    exact absurd (by omega) hj

/-! ## The two searches -/

/-- A search through `0, 1, …, n - 1` finds the least number that qualifies. -/
theorem find?_finRange {n : Nat} {p : Fin n → Bool} {i : Fin n}
    (h : (List.finRange n).find? p = some i) : p i = true ∧ ∀ j < i, p j = false := by
  obtain ⟨hi, m, hm, hget, hleast⟩ := List.find?_eq_some_iff_getElem.mp h
  obtain rfl : m = i := by simpa using congrArg Fin.val hget
  refine ⟨hi, fun j hj => ?_⟩
  simpa using hleast j hj

theorem findHighestBit_eq_none : findHighestBit m = none ↔ m = 0#w := by
  simp [findHighestBit]

theorem findHighestBit_spec {i : Fin w} (h : findHighestBit m = some i) :
    m.getLsbD i = true ∧ ∀ j, (i : Nat) < j → m.getLsbD j = false := by
  unfold findHighestBit at h
  split_ifs at h with hm
  obtain rfl : ⟨m.toNat.log2, log2_lt_width hm⟩ = i := by simpa using h
  have hne : m.toNat ≠ 0 := fun h0 => hm (BitVec.eq_of_toNat_eq (by simpa using h0))
  have hlow : 2 ^ m.toNat.log2 ≤ m.toNat := Nat.log2_self_le hne
  have hup : m.toNat < 2 ^ (m.toNat.log2 + 1) := Nat.lt_log2_self
  refine ⟨Nat.testBit_of_two_pow_le_and_two_pow_add_one_gt hlow hup, fun j hj => ?_⟩
  have hle : 2 ^ (m.toNat.log2 + 1) ≤ 2 ^ j := Nat.pow_le_pow_right (by decide) hj
  exact Nat.testBit_eq_false_of_lt (lt_of_lt_of_le hup hle)

theorem findLowestBit_spec {i : Fin w} (h : findLowestBit m = some i) :
    m.getLsbD i = true ∧ ∀ j, j < (i : Nat) → m.getLsbD j = false := by
  obtain ⟨hbit, hleast⟩ := find?_finRange h
  refine ⟨hbit, fun j hj => ?_⟩
  simpa using hleast ⟨j, lt_trans hj i.isLt⟩ hj

end Bitmap
