import Mathlib.Data.List.Basic
import Mathlib.Tactic

/-!
# Ring buffers

A sequence kept in `cap` slots: element number `i` of an unbounded sequence lies in slot `i % cap`.
`Holds cap buf lo l` says that the slots hold the window `l` of the sequence that starts at number
`lo`.
-/

namespace Ring

variable {α : Type*} {cap lo : Nat} {buf : Nat → α} {l : List α}

/-- The elements of `l`, numbered from `lo` on, are in their slots. -/
def Holds (cap : Nat) (buf : Nat → α) (lo : Nat) (l : List α) : Prop :=
  ∀ i x, l[i]? = some x → buf ((lo + i) % cap) = x

/-- The numbers of a window that is no longer than the ring have different slots. -/
theorem slot_ne {i j : Nat} (hij : i < j) (hj : j < i + cap) : i % cap ≠ j % cap := by
  intro h
  have hdvd : cap ∣ j - i := (Nat.modEq_iff_dvd' hij.le).mp h
  have hle := Nat.le_of_dvd (by omega) hdvd
  omega

theorem holds_nil : Holds cap buf lo [] := fun _ _ h => by simp at h

/-- An element is appended to a window that does not fill the ring. -/
theorem Holds.push (h : Holds cap buf lo l) (hlen : l.length < cap) (x : α) :
    Holds cap (Function.update buf ((lo + l.length) % cap) x) lo (l ++ [x]) := by
  intro i y hy
  rcases Nat.lt_trichotomy i l.length with hi | rfl | hi
  · rw [List.getElem?_append_left hi] at hy
    rw [Function.update_of_ne (slot_ne (by omega) (by omega)), h i y hy]
  · rw [List.getElem?_concat_length] at hy
    rw [Function.update_self, Option.some.inj hy]
  · rw [List.getElem?_eq_none (by simp; omega)] at hy
    cases hy

/-- The first element of the window is in the first slot. -/
theorem Holds.head {x : α} (h : Holds cap buf lo (x :: l)) : buf (lo % cap) = x :=
  h 0 x rfl

/-- The window moves on. -/
theorem Holds.tail {x : α} (h : Holds cap buf lo (x :: l)) : Holds cap buf (lo + 1) l := by
  intro i y hy
  rw [show lo + 1 + i = lo + (i + 1) by omega]
  exact h (i + 1) y hy

/-- The slots of the window. -/
def Used (cap lo hi slot : Nat) : Prop := ∃ i, lo ≤ i ∧ i < hi ∧ i % cap = slot

theorem used_self (cap lo slot : Nat) : ¬ Used cap lo lo slot := by
  rintro ⟨i, hlo, hhi, -⟩
  omega

/-- The slot of the next element is not in use, as long as the ring is not full. -/
theorem not_used_next {hi : Nat} (hlen : hi < lo + cap) : ¬ Used cap lo hi (hi % cap) := by
  rintro ⟨i, hlo, hhi, hslot⟩
  exact slot_ne hhi (by omega) hslot

theorem used_push {hi slot : Nat} (h : lo ≤ hi) :
    Used cap lo (hi + 1) slot ↔ slot = hi % cap ∨ Used cap lo hi slot := by
  constructor
  · rintro ⟨i, hlo, hhi, rfl⟩
    rcases Nat.lt_or_eq_of_le (Nat.lt_succ_iff.mp hhi) with hi' | rfl
    · exact .inr ⟨i, hlo, hi', rfl⟩
    · exact .inl rfl
  · rintro (rfl | ⟨i, hlo, hhi, rfl⟩)
    · exact ⟨hi, h, by omega, rfl⟩
    · exact ⟨i, hlo, by omega, rfl⟩

theorem used_pop {hi slot : Nat} (hlen : hi ≤ lo + cap) :
    Used cap (lo + 1) hi slot ↔ slot ≠ lo % cap ∧ Used cap lo hi slot := by
  constructor
  · rintro ⟨i, hlo, hhi, rfl⟩
    exact ⟨(slot_ne (by omega) (by omega)).symm, i, by omega, hhi, rfl⟩
  · rintro ⟨hne, i, hlo, hhi, rfl⟩
    have hi' : i ≠ lo := fun h => hne (by rw [h])
    exact ⟨i, by omega, hhi, rfl⟩

end Ring
