import Mathlib.Tactic

/-!
# Strings of C

A string is the list of its characters, without the terminator.
-/

namespace CString

/-- `strncmp(a, b, n) == 0` -/
def strncmpEq (a b : List Char) (n : Nat) : Prop := a.take n = b.take n
  deriving Decidable

/-- If the terminator of one string is among the characters that are compared, the strings are
compared as a whole. -/
theorem strncmpEq_iff {a : List Char} {n : Nat} (h : a.length < n) (b : List Char) :
    strncmpEq a b n ↔ a = b := by
  constructor
  · intro heq
    have hlen : a.length = (b.take n).length := by
      rw [← heq, List.take_of_length_le h.le]
    rw [List.length_take] at hlen
    rw [strncmpEq, List.take_of_length_le h.le, List.take_of_length_le (by omega)] at heq
    exact heq
  · intro heq
    rw [heq, strncmpEq]

end CString
