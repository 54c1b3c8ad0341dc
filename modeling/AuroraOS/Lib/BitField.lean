import Mathlib.Tactic

/-!
# Bit-fields

A bit-field is a run of bits of a word. Writing one changes these bits and no others, so a field is
read back as it was written, and fields that do not overlap are independent.
-/

/-- A run of `len` bits of a word of `w` bits. -/
structure BitField (w len : ℕ) where
  lo : ℕ
  fits : lo + len ≤ w

namespace BitField

variable {w len len' : ℕ} (a : BitField w len) (b : BitField w len')

def get (x : BitVec w) : BitVec len := x.extractLsb' a.lo len

def set (x : BitVec w) (v : BitVec len) : BitVec w :=
  (x &&& ~~~((BitVec.allOnes len).setWidth w <<< a.lo)) ||| (v.setWidth w <<< a.lo)

/-- The fields have no bit in common. -/
def Disjoint : Prop := a.lo + len ≤ b.lo ∨ b.lo + len' ≤ a.lo
  deriving Decidable

theorem getLsbD_get (x : BitVec w) (i : ℕ) :
    (a.get x).getLsbD i = (decide (i < len) && x.getLsbD (a.lo + i)) := by
  simp [get]

theorem getLsbD_set (x : BitVec w) (v : BitVec len) (i : ℕ) :
    (a.set x v).getLsbD i =
      if a.lo ≤ i ∧ i < a.lo + len then v.getLsbD (i - a.lo) else x.getLsbD i := by
  have hfits := a.fits
  by_cases hw : i < w
  · by_cases hlo : i < a.lo
    · simp [set, hw, hlo, show ¬ a.lo ≤ i by omega]
    · by_cases hhi : i < a.lo + len
      · simp [set, hw, hlo, hhi, show a.lo ≤ i by omega,
          show i - a.lo < len by omega]
      · simp [set, hw, hlo, hhi, show ¬ i - a.lo < len by omega,
          BitVec.getLsbD_of_ge v (i - a.lo) (by omega)]
  · rw [if_neg (by omega), BitVec.getLsbD_of_ge _ _ (by omega), BitVec.getLsbD_of_ge _ _ (by omega)]

/-- A field is read back as it was written. -/
@[simp] theorem get_set (x : BitVec w) (v : BitVec len) : a.get (a.set x v) = v := by
  apply BitVec.eq_of_getLsbD_eq
  intro i hi
  rw [getLsbD_get, getLsbD_set, if_pos (by omega), Nat.add_sub_cancel_left, decide_eq_true hi,
    Bool.true_and]

/-- Writing a field leaves the fields that it does not overlap. -/
theorem get_set_of_disjoint {a : BitField w len} {b : BitField w len'} (h : Disjoint a b)
    (x : BitVec w) (v : BitVec len) : b.get (a.set x v) = b.get x := by
  apply BitVec.eq_of_getLsbD_eq
  intro i hi
  unfold Disjoint at h
  rw [getLsbD_get, getLsbD_get, getLsbD_set, if_neg (by omega)]

end BitField
