import Mathlib.Data.Fintype.Card
import Mathlib.Data.List.Nodup
import Mathlib.Tactic

/-!
# Null-terminated singly linked lists

Nodes are linked by a function `next : α → Option α`, `none` being the null pointer. `Path` says
that following `next` from a pointer visits the nodes of a list and ends at another pointer; a path
to the null pointer is a finite list, and its nodes are distinct because `next` is a function.

The edits of a list (insert after a node, unlink the node after a node) are stated for any new link
function with the right value at the nodes they touch and the old value at the others.
-/

namespace Chain

open List

variable {α : Type*} {next next' : α → Option α}

variable {o m : Option α}

/-- Following `next` from `o` visits the nodes of the list, in order, and ends at `m`. -/
def Path (next : α → Option α) : Option α → List α → Option α → Prop
  | o, [], m => o = m
  | o, x :: l, m => o = some x ∧ Path next (next x) l m

@[simp] theorem path_nil : Path next o [] m ↔ o = m := Iff.rfl

@[simp] theorem path_cons {x : α} {l : List α} :
    Path next o (x :: l) m ↔ o = some x ∧ Path next (next x) l m := Iff.rfl

theorem path_append {a b : List α} :
    Path next o (a ++ b) m ↔ ∃ n, Path next o a n ∧ Path next n b m := by
  induction a generalizing o with
  | nil => simp
  | cons x a ih => simp [ih, and_assoc]

namespace Path

variable {o : Option α} {l a b : List α}

theorem head_eq (h : Path next o l none) : o = l.head? := by
  cases l with
  | nil => exact h
  | cons x l => exact h.1

/-- Only the links of the nodes on the path matter. -/
theorem congr {m : Option α} (h : Path next o l m) (hn : ∀ x ∈ l, next' x = next x) :
    Path next' o l m := by
  induction l generalizing o with
  | nil => exact h
  | cons x l ih =>
    refine ⟨h.1, ?_⟩
    rw [hn x (by simp)]
    exact ih h.2 fun y hy => hn y (mem_cons_of_mem x hy)

theorem unique {l' : List α} (h : Path next o l none) (h' : Path next o l' none) : l = l' := by
  induction l generalizing o l' with
  | nil =>
    cases l' with
    | nil => rfl
    | cons y l' => simpa [Path] using h.symm.trans h'.1
  | cons x l ih =>
    cases l' with
    | nil => simpa [Path] using h.1.symm.trans h'
    | cons y l' =>
      obtain rfl : x = y := Option.some.inj (h.1.symm.trans h'.1)
      rw [ih h.2 h'.2]

theorem suffix {x : α} (h : Path next o (a ++ x :: b) none) : Path next (next x) b none := by
  obtain ⟨n, -, -, hb⟩ := path_append.mp h
  exact hb

theorem nodup (h : Path next o l none) : l.Nodup := by
  induction l generalizing o with
  | nil => exact nodup_nil
  | cons x l ih =>
    refine nodup_cons.mpr ⟨fun hx => ?_, ih h.2⟩
    -- a second visit of `x` would make the rest of the list a proper part of itself
    obtain ⟨a, b, rfl⟩ := append_of_mem hx
    have hlen := congrArg length (h.2.unique h.2.suffix)
    simp only [length_append, length_cons] at hlen
    omega

theorem length_le_card [Fintype α] (h : Path next o l none) : l.length ≤ Fintype.card α :=
  h.nodup.length_le_card

/-- What holds of the first node and of every node linked to holds of all nodes. -/
theorem forall_mem {P : α → Prop} (h : Path next o l none) (ho : ∀ x ∈ o, P x)
    (hnext : ∀ x y, next x = some y → P y) : ∀ x ∈ l, P x := by
  induction l generalizing o with
  | nil => simp
  | cons x l ih =>
    intro y hy
    rcases mem_cons.mp hy with rfl | hy
    · exact ho y h.1
    · exact ih h.2 (fun z hz => hnext x z hz) y hy

/-- Insert `t` after `c`. -/
theorem insertAfter {c t : α} (h : Path next o (a ++ c :: b) none) (hc : next' c = some t)
    (ht : next' t = next c) (hn : ∀ x ∈ a ++ b, next' x = next x) :
    Path next' o (a ++ c :: t :: b) none := by
  obtain ⟨n, ha, hnc, hb⟩ := path_append.mp h
  refine path_append.mpr ⟨n, ha.congr fun x hx => hn x (by simp [hx]), hnc, hc, ?_⟩
  rw [ht]
  exact hb.congr fun x hx => hn x (by simp [hx])

/-- Unlink the node `c` after `p`. -/
theorem unlinkAfter {p c : α} (h : Path next o (a ++ p :: c :: b) none) (hp : next' p = next c)
    (hn : ∀ x ∈ a ++ b, next' x = next x) : Path next' o (a ++ p :: b) none := by
  obtain ⟨n, ha, hnp, -, hb⟩ := path_append.mp h
  refine path_append.mpr ⟨n, ha.congr fun x hx => hn x (by simp [hx]), hnp, ?_⟩
  rw [hp]
  exact hb.congr fun x hx => hn x (by simp [hx])

end Path

variable {p : α → Bool} {fuel : Nat} {x : α}

/-! ## Walking -/

/-- Walk on while the next node satisfies `p`, and return the last node reached. At most `fuel`
nodes are visited. -/
def seek (next : α → Option α) (p : α → Bool) : Nat → α → Option α
  | 0, _ => none
  | fuel + 1, x =>
    match next x with
    | none => some x
    | some y => if p y then seek next p fuel y else some x

/-- A walk that comes to an end does so with more fuel, too. -/
theorem seek_mono {fuel' : Nat} {c : α} (h : seek next p fuel x = some c) (hle : fuel ≤ fuel') :
    seek next p fuel' x = some c := by
  induction fuel generalizing x fuel' with
  | zero => cases h
  | succ fuel ih =>
    obtain ⟨fuel', rfl⟩ : ∃ n, fuel' = n + 1 := ⟨fuel' - 1, by omega⟩
    unfold seek at h ⊢
    cases hx : next x with
    | none => simpa only [hx] using h
    | some y =>
      simp only [hx] at h ⊢
      split_ifs at h ⊢
      · exact ih h (by omega)
      · exact h

/-- Where the walk stops, the next node fails `p`. -/
theorem seek_stop {c y : α} (h : seek next p fuel x = some c) (hy : next c = some y) :
    p y = false := by
  induction fuel generalizing x with
  | zero => cases h
  | succ fuel ih =>
    unfold seek at h
    cases hx : next x with
    | none =>
      simp only [hx, Option.some.injEq] at h
      simp [← h, hx] at hy
    | some z =>
      simp only [hx] at h
      split_ifs at h with hz
      · exact ih h
      · obtain rfl := Option.some.inj h
        obtain rfl := Option.some.inj (hx.symm.trans hy)
        simpa using hz

/-- The walk stops at the end of the longest run of nodes that satisfy `p`. -/
theorem seek_eq {l : List α} (h : Path next (next x) l none) (hfuel : l.length < fuel) :
    ∃ a c, x :: l.takeWhile p = a ++ [c] ∧ seek next p fuel x = some c := by
  induction l generalizing x fuel with
  | nil =>
    obtain ⟨fuel, rfl⟩ : ∃ n, fuel = n + 1 := ⟨fuel - 1, by simp at hfuel; omega⟩
    refine ⟨[], x, by simp, ?_⟩
    simp [seek, show next x = none from h]
  | cons y l ih =>
    obtain ⟨fuel, rfl⟩ : ∃ n, fuel = n + 1 := ⟨fuel - 1, by simp at hfuel; omega⟩
    simp only [seek, h.1]
    by_cases hy : p y
    · obtain ⟨a, c, hac, hs⟩ := ih h.2 (by simpa using hfuel)
      exact ⟨x :: a, c, by simp [hy, hac], by simp [hy, hs]⟩
    · exact ⟨[], x, by simp [hy], by simp [hy]⟩

/-- How a walk from the head of a list splits it at the first node that fails `p`. -/
theorem seek_split {b : List α} (h : Path next (next x) b none) (hfuel : b.length < fuel) :
    ∃ a c, x :: b.takeWhile p = a ++ [c] ∧ x :: b = a ++ c :: b.dropWhile p ∧
      seek next p fuel x = some c ∧ next c = (b.dropWhile p).head? := by
  obtain ⟨a, c, hac, hseek⟩ := seek_eq h hfuel
  have hsplit : x :: b = a ++ c :: b.dropWhile p := by
    calc x :: b = (x :: b.takeWhile p) ++ b.dropWhile p := by
          rw [cons_append, takeWhile_append_dropWhile]
      _ = a ++ c :: b.dropWhile p := by rw [hac, append_assoc, singleton_append]
  have hpath : Path next (some x) (x :: b) none := ⟨rfl, h⟩
  rw [hsplit] at hpath
  exact ⟨a, c, hac, hsplit, hseek, hpath.suffix.head_eq⟩

/-- A walk for a node of the list stops right before it. -/
theorem seek_ne_eq [DecidableEq α] {m : α} {b : List α} (h : Path next (next x) b none) (hm : m ∈ b)
    (fuel : Nat) (hfuel : b.length < fuel) :
    ∃ a c d, x :: b = a ++ c :: m :: d ∧ seek next (fun y => y ≠ m) fuel x = some c ∧
      next c = some m := by
  obtain ⟨a, c, -, hsplit, hseek, hnext⟩ := seek_split h hfuel
  have hdrop : ∃ d, b.dropWhile (fun y => y ≠ m) = m :: d := by
    clear * - hm
    induction b with
    | nil => cases hm
    | cons y b ih =>
      by_cases hy : y = m
      · exact ⟨b, by simp [hy]⟩
      · obtain ⟨d, hd⟩ := ih ((mem_cons.mp hm).resolve_left (Ne.symm hy))
        exact ⟨d, by simpa [hy] using hd⟩
  obtain ⟨d, hd⟩ := hdrop
  rw [hd] at hsplit hnext
  exact ⟨a, c, d, hsplit, hseek, hnext⟩

end Chain
