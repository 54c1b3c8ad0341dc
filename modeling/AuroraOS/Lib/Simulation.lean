import Mathlib.Control.Basic
import Mathlib.Tactic

/-!
# Programs that only look at their state

A program with a state may be no more than a computation without one, as long as its state meets an
invariant: the operations read from the state and change what the invariant does not depend on.
`Simulates I x y` says so of the runs of `x` that succeed. It is proved for the operations, and
carried over to whole programs by the rules below.
-/

namespace Simulation

variable {S A B C : Type}

/-- Where `x` succeeds, `y` has the same result, and the invariant is kept. -/
def Simulates (I : S → Prop) (x : StateT S Option A) (y : Option A) : Prop :=
  ∀ s, I s → ∀ a s', x s = some (a, s') → y = some a ∧ I s'

variable {I : S → Prop}

theorem simulates_pure (a : A) : Simulates I (pure a) (pure a) := by
  intro s hs b s' h
  obtain ⟨rfl, rfl⟩ : a = b ∧ s = s' := Prod.mk.inj (Option.some.inj h)
  exact ⟨rfl, hs⟩

/-- A program that fails may stand for anything. -/
theorem simulates_failure (y : Option A) : Simulates I (failure : StateT S Option A) y := by
  intro s hs a s' h
  cases h

theorem Simulates.bind {x : StateT S Option A} {y : Option A} {f : A → StateT S Option B}
    {g : A → Option B} (hx : Simulates I x y) (hf : ∀ a, y = some a → Simulates I (f a) (g a)) :
    Simulates I (x >>= f) (y >>= g) := by
  intro s hs b s' h
  obtain ⟨⟨a, t⟩, hxs, hfs⟩ : ∃ p : A × S, x s = some p ∧ f p.1 p.2 = some (b, s') :=
    Option.bind_eq_some_iff.mp h
  obtain ⟨hy, ht⟩ := hx s hs a t hxs
  rw [hy]
  exact hf a hy t ht b s' hfs

theorem Simulates.ite {c : Prop} [Decidable c] {x x' : StateT S Option A} {y y' : Option A}
    (h : c → Simulates I x y) (h' : ¬c → Simulates I x' y') :
    Simulates I (if c then x else x') (if c then y else y') := by
  by_cases hc : c
  · rw [if_pos hc, if_pos hc]
    exact h hc
  · rw [if_neg hc, if_neg hc]
    exact h' hc

theorem simulates_foldlM {f : B → A → StateT S Option B} {g : B → A → Option B} {l : List A}
    (h : ∀ b, ∀ a ∈ l, Simulates I (f b a) (g b a)) (b : B) :
    Simulates I (l.foldlM f b) (l.foldlM g b) := by
  induction l generalizing b with
  | nil => exact simulates_pure b
  | cons a l ih =>
    refine (h b a (by simp)).bind ?_
    intro b' _
    exact ih (fun b a ha => h b a (List.mem_cons_of_mem _ ha)) b'

end Simulation
