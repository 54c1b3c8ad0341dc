import Mathlib.Logic.Relation
import Mathlib.Tactic

/-!
# Runs and their invariants

A system takes steps on a state `S`. A step may call code outside the system, which is known by a
name `H` only and which may itself take steps of the system before it returns: `Reaches Step s t`
holds when a run leads from `s` to `t`, every call that one of its steps makes being such a run too.
An invariant is established by one rule, with the calls as an induction hypothesis.

The second part is about loops over a list that may fail.
-/

namespace Run

variable {S H A : Type*}

/-- A run from one state to another. `Step call s t` is a step from `s` to `t` in which the calls
behave as `call` says. -/
inductive Reaches (Step : (H → S → Option S) → S → S → Prop) : S → S → Prop
  | refl (s : S) : Reaches Step s s
  | tail {s t u : S} (call : H → S → Option S)
      (hcall : ∀ h a b, call h a = some b → Reaches Step a b) :
      Reaches Step s t → Step call t u → Reaches Step s u

namespace Reaches

variable {Step Step' : (H → S → Option S) → S → S → Prop} {s t u : S}

/-- **The invariant rule.** What every step keeps, its calls keeping it, holds along every run. -/
theorem invariant {P : S → Prop}
    (hstep : ∀ call t u, (∀ h a b, call h a = some b → P a → P b) → Step call t u → P t → P u)
    (h : Reaches Step s t) (hs : P s) : P t := by
  induction h with
  | refl => exact hs
  | tail call _ _ hlast ihcall ih => exact hstep call _ _ ihcall hlast (ih hs)

theorem single (hstep : Step (fun _ _ => none) s t) : Reaches Step s t :=
  .tail (fun _ _ => none) (by simp) (.refl s) hstep

theorem trans (h : Reaches Step s t) (h' : Reaches Step t u) : Reaches Step s u := by
  induction h' with
  | refl => exact h
  | tail call hcall _ hlast _ ih => exact .tail call hcall (ih h) hlast

end Reaches

/-- The invariant rule where no step makes calls. -/
theorem steps_invariant {r : S → S → Prop} {s t : S} {P : S → Prop} (hs : P s)
    (hstep : ∀ t u, P t → r t u → P u) (hrun : Relation.ReflTransGen r s t) : P t := by
  induction hrun with
  | refl => exact hs
  | tail _ hlast ih => exact hstep _ _ ih hlast

variable {exec : A → S → Option S} {P : S → A → Prop} {l : List A} {s t : S}

/-! ## Runs given by their actions -/

/-- Every action of the list is allowed in the state it finds. -/
def Allowed (exec : A → S → Option S) (ok : S → A → Prop) : List A → S → Prop
  | [], _ => True
  | a :: l, s => ok s a ∧ ∀ t ∈ exec a s, Allowed exec ok l t

instance Allowed.decidable (exec : A → S → Option S) (ok : S → A → Prop)
    [∀ s a, Decidable (ok s a)] : ∀ (l : List A) (s : S), Decidable (Allowed exec ok l s)
  | [], _ => .isTrue trivial
  | a :: l, s =>
    have := Allowed.decidable exec ok l
    inferInstanceAs (Decidable (ok s a ∧ ∀ t ∈ exec a s, Allowed exec ok l t))

/-- Two conditions that agree in the states that the runs lead through. -/
theorem Allowed.congr {Q : S → A → Prop} {I : S → Prop} (hiff : ∀ s a, I s → (P s a ↔ Q s a))
    (hstep : ∀ s t a, I s → Q s a → exec a s = some t → I t) (hs : I s) :
    Allowed exec P l s ↔ Allowed exec Q l s := by
  induction l generalizing s with
  | nil => exact Iff.rfl
  | cons a l ih =>
    unfold Allowed
    rw [hiff s a hs]
    apply and_congr_right
    intro ha
    apply forall_congr'
    intro t
    apply forall_congr'
    intro ht
    exact ih (hstep s t a hs ha ht)

/-- A relation that contains the steps, and is reflexive and transitive, holds along the run. -/
theorem rel_of_actions {R : S → S → Prop} (hrefl : ∀ s, R s s)
    (htrans : ∀ {s t u}, R s t → R t u → R s u) (hstep : ∀ s t a, P s a → exec a s = some t → R s t)
    (hok : Allowed exec P l s) (h : l.foldlM (fun s a => exec a s) s = some t) : R s t := by
  induction l generalizing s with
  | nil =>
    obtain rfl : s = t := by simpa using h
    exact hrefl s
  | cons a l ih =>
    rw [List.foldlM_cons, Option.bind_eq_bind, Option.bind_eq_some_iff] at h
    obtain ⟨u, hu, h⟩ := h
    exact htrans (hstep s u a hok.1 hu) (ih (hok.2 u hu) h)

theorem Reaches.of_actions {Step : (H → S → Option S) → S → S → Prop}
    (hstep : ∀ s t a, P s a → exec a s = some t → Step (fun _ _ => none) s t)
    (hok : Allowed exec P l s) (h : l.foldlM (fun s a => exec a s) s = some t) :
    Reaches Step s t :=
  rel_of_actions .refl Reaches.trans (fun s t a ha hexec => .single (hstep s t a ha hexec)) hok h

theorem reflTransGen_of_actions {Step : S → S → Prop}
    (hstep : ∀ s t a, P s a → exec a s = some t → Step s t) (hok : Allowed exec P l s)
    (h : l.foldlM (fun s a => exec a s) s = some t) :
    Relation.ReflTransGen Step s t :=
  rel_of_actions (fun _ => .refl) Relation.ReflTransGen.trans
    (fun s t a ha hexec => .single (hstep s t a ha hexec)) hok h

/-- The same, where a step may rely on an invariant. -/
theorem reflTransGen_of_invariant {Step : S → S → Prop} {I : S → Prop}
    (hstep : ∀ s t a, I s → P s a → exec a s = some t → Step s t ∧ I t) (hs : I s)
    (hok : Allowed exec P l s) (h : l.foldlM (fun s a => exec a s) s = some t) :
    Relation.ReflTransGen Step s t := by
  have hrun := rel_of_actions (R := fun s t => I s → Relation.ReflTransGen Step s t ∧ I t)
    (fun _ hs => ⟨.refl, hs⟩)
    (fun h₁ h₂ hs => ⟨(h₁ hs).1.trans (h₂ (h₁ hs).2).1, (h₂ (h₁ hs).2).2⟩)
    (fun s t a ha hexec hs => ⟨.single (hstep s t a hs ha hexec).1, (hstep s t a hs ha hexec).2⟩)
    hok h
  exact (hrun hs).1

/-! ## The only result -/

theorem of_exists {x : Option S} {P : S → Prop} (h : ∃ s, x = some s ∧ P s) {s : S}
    (hx : x = some s) : P s := by
  obtain ⟨t, ht, hP⟩ := h
  cases ht.symm.trans hx
  exact hP

theorem of_exists_pair {x : Option (S × A)} {P : S → A → Prop}
    (h : ∃ s a, x = some (s, a) ∧ P s a) {s : S} {a : A} (hx : x = some (s, a)) : P s a := by
  obtain ⟨t, b, ht, hP⟩ := h
  cases ht.symm.trans hx
  exact hP

/-! ## Loops -/

theorem foldlM_invariant {P : S → Prop} {f : S → A → Option S}
    (hf : ∀ s, ∀ a ∈ l, ∀ t, P s → f s a = some t → P t) (hs : P s) (h : l.foldlM f s = some t) :
    P t := by
  induction l generalizing s with
  | nil =>
    obtain rfl : s = t := by simpa using h
    exact hs
  | cons a l ih =>
    rw [List.foldlM_cons, Option.bind_eq_bind, Option.bind_eq_some_iff] at h
    obtain ⟨u, hu, h⟩ := h
    exact ih (fun s b hb => hf s b (List.mem_cons_of_mem a hb)) (hf s a (by simp) u hs hu) h

theorem foldl_invariant {P : S → Prop} {f : S → A → S} (hf : ∀ s, ∀ a ∈ l, P s → P (f s a))
    (hs : P s) : P (l.foldl f s) := by
  induction l generalizing s with
  | nil => exact hs
  | cons a l ih =>
    exact ih (fun s b hb => hf s b (List.mem_cons_of_mem a hb)) (hf s a (by simp) hs)

/-- A loop that looks for something has found it, if it was there. -/
theorem foldl_finds {P F : S → Prop} {W : A → Prop} {f : S → A → S}
    (hf : ∀ s a, P s → P (f s a) ∧ (F s ∨ W a → F (f s a))) (hs : P s) :
    P (l.foldl f s) ∧ ((F s ∨ ∃ a ∈ l, W a) → F (l.foldl f s)) := by
  induction l generalizing s with
  | nil => exact ⟨hs, fun h => h.resolve_right (by simp)⟩
  | cons a l ih =>
    obtain ⟨hround, hfound⟩ := hf s a hs
    obtain ⟨hloop, hrest⟩ := ih hround
    refine ⟨hloop, fun h => hrest ?_⟩
    rcases h with h | ⟨b, hb, hW⟩
    · exact .inl (hfound (.inl h))
    · rcases List.mem_cons.mp hb with rfl | hb
      · exact .inl (hfound (.inr hW))
      · exact .inr ⟨b, hb, hW⟩

end Run
