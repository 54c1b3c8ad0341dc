import Mathlib.Logic.Relation
import Mathlib.Tactic

/-!
# Programs that can be cut short

A program reads a state and performs operations on it. An operation succeeds or fails, the program
sees which, and a failed operation may have changed the state as well. The run can be cut off after
every operation.

`Safe I Q` is the specification of such a program: the states after its operations satisfy `I`,
whichever of them fail, and if it returns then `Q` holds of its result. Its rules follow the
program, so that a proof walks through the code once, and what is found at a cut is `I`
(`Safe.step`).
-/

namespace Crash

/-- A program over the operations `ω` on the states `σ`. -/
inductive Prog (ω σ α : Type)
  | pure (a : α)
  | get (k : σ → Prog ω σ α)
  | perform (o : ω) (k : Bool → Prog ω σ α)

/-- What the operations do to the state when they succeed, and what they may do when they fail. -/
structure Device (ω σ : Type) where
  apply : ω → σ → σ
  Fails : ω → σ → σ → Prop

namespace Prog

variable {ω σ α β : Type}

def bind : Prog ω σ α → (α → Prog ω σ β) → Prog ω σ β
  | pure a, next => next a
  | get k, next => get fun s => (k s).bind next
  | perform o k, next => perform o fun ok => (k ok).bind next

instance : Monad (Prog ω σ) where
  pure := pure
  bind := bind

/-- Reads the state. -/
def read : Prog ω σ σ := get pure

/-- Performs an operation and returns whether it has succeeded. -/
def try_ (o : ω) : Prog ω σ Bool := perform o pure

/-- The body for `i`, `i + 1` and so on, `n` times, up to the first that returns `false`. -/
def loop (body : Nat → Prog ω σ Bool) : Nat → Nat → Prog ω σ Bool
  | _, 0 => pure true
  | i, n + 1 => do if ← body i then loop body (i + 1) n else pure false

/-- The run in which every operation succeeds. -/
def run (apply : ω → σ → σ) : Prog ω σ α → σ → α × σ
  | pure a, s => (a, s)
  | get k, s => (k s).run apply s
  | perform o k, s => (k true).run apply (apply o s)

end Prog

variable {ω σ α β : Type} (D : Device ω σ)

/-- One step of a program. -/
inductive Step : Prog ω σ α × σ → Prog ω σ α × σ → Prop
  | get (k : σ → Prog ω σ α) (s : σ) : Step (.get k, s) (k s, s)
  | succeed (o : ω) (k : Bool → Prog ω σ α) (s : σ) : Step (.perform o k, s) (k true, D.apply o s)
  | fail (o : ω) (k : Bool → Prog ω σ α) {s t : σ} (h : D.Fails o s t) :
      Step (.perform o k, s) (k false, t)

/-- Every state that an operation of the program leaves satisfies `I`, and the result with the state
in which the program returns satisfies `Q`. -/
def Safe (I : σ → Prop) (Q : α → σ → Prop) : Prog ω σ α → σ → Prop
  | .pure a, s => Q a s
  | .get k, s => Safe I Q (k s) s
  | .perform o k, s => (I (D.apply o s) ∧ Safe I Q (k true) (D.apply o s)) ∧
      ∀ t, D.Fails o s t → I t ∧ Safe I Q (k false) t

variable {D} {I : σ → Prop} {Q Q' : α → σ → Prop} {R : β → σ → Prop} {s t : σ}

theorem safe_read {Q : σ → σ → Prop} : Safe D I Q Prog.read s ↔ Q s s := Iff.rfl

theorem safe_bind {p : Prog ω σ α} {next : α → Prog ω σ β} :
    Safe D I R (p >>= next) s ↔ Safe D I (fun a => Safe D I R (next a)) p s := by
  change Safe D I R (p.bind next) s ↔ _
  induction p generalizing s with
  | pure a => exact Iff.rfl
  | get k ih => exact ih s
  | perform o k ih =>
    simp only [Prog.bind, Safe, ih]

namespace Safe

/-- **The rule of an operation.** -/
theorem try_ {o : ω} {Q : Bool → σ → Prop} (hok : I (D.apply o s) ∧ Q true (D.apply o s))
    (hfail : ∀ t, D.Fails o s t → I t ∧ Q false t) : Safe D I Q (Prog.try_ o) s :=
  ⟨hok, hfail⟩

theorem mono {p : Prog ω σ α} (h : Safe D I Q p s) (hQ : ∀ a t, Q a t → Q' a t) :
    Safe D I Q' p s := by
  induction p generalizing s with
  | pure a => exact hQ a s h
  | get k ih => exact ih s h
  | perform o k ih => exact ⟨⟨h.1.1, ih true h.1.2⟩, fun t ht =>
      ⟨(h.2 t ht).1, ih false (h.2 t ht).2⟩⟩

/-- **The rule of a loop.** `J i` holds when the body is entered for `i`, and `F` when it is left by
a failure. -/
theorem loop {J : Nat → σ → Prop} {F : σ → Prop} {body : Nat → Prog ω σ Bool} {i n : Nat}
    (hbody : ∀ j s, i ≤ j → j < i + n → J j s →
      Safe D I (fun ok t => cond ok (J (j + 1) t) (F t)) (body j) s)
    (hs : J i s) : Safe D I (fun ok t => cond ok (J (i + n) t) (F t)) (Prog.loop body i n) s := by
  induction n generalizing i s with
  | zero => exact hs
  | succ n ih =>
    rw [Prog.loop, safe_bind]
    refine (hbody i s (le_refl i) (by omega) hs).mono ?_
    intro ok t ht
    cases ok with
    | false => exact ht
    | true =>
      rw [show i + (n + 1) = i + 1 + n by omega]
      exact ih (fun j s hj hlt => hbody j s (by omega) (by omega)) ht

theorem step {p p' : Prog ω σ α} (h : Safe D I Q p s) (hI : I s) (hstep : Step D (p, s) (p', t)) :
    I t ∧ Safe D I Q p' t := by
  cases hstep with
  | get k => exact ⟨hI, h⟩
  | succeed o k => exact h.1
  | fail o k ht => exact h.2 t ht

/-- The run without failures is one of those that the specification is about. -/
theorem run {p : Prog ω σ α} (h : Safe D I Q p s) : Q (p.run D.apply s).1 (p.run D.apply s).2 := by
  induction p generalizing s with
  | pure a => exact h
  | get k ih => exact ih s h
  | perform o k ih => exact ih true h.1.2

end Safe

end Crash
