import Mathlib.Tactic

/-!
# Machines that answer each input

A machine `step : S → A → B × S` answers every input and moves on. `trace` lists the inputs of a run
with their answers. The second part compares two runs of one machine: inputs that leave the state
the same, as far as later answers go, can be left out.
-/

namespace Transducer

variable {S A B : Type*} {step : S → A → B × S} {s s' : S} {l l' : List A}

/-- The state after a list of inputs. -/
def final (step : S → A → B × S) (s : S) (l : List A) : S := l.foldl (fun s a => (step s a).2) s

/-- The inputs with their answers. -/
def trace (step : S → A → B × S) : S → List A → List (A × B)
  | _, [] => []
  | s, a :: l => (a, (step s a).1) :: trace step (step s a).2 l

@[simp] theorem final_nil (s : S) : final step s [] = s := rfl

@[simp] theorem final_cons (s : S) (a : A) (l : List A) :
    final step s (a :: l) = final step (step s a).2 l := rfl

@[simp] theorem final_append (s : S) (l l' : List A) :
    final step s (l ++ l') = final step (final step s l) l' := by
  simp [final]

@[simp] theorem trace_nil (s : S) : trace step s [] = [] := rfl

@[simp] theorem trace_cons (s : S) (a : A) (l : List A) :
    trace step s (a :: l) = (a, (step s a).1) :: trace step (step s a).2 l := rfl

@[simp] theorem trace_append (s : S) (l l' : List A) :
    trace step s (l ++ l') = trace step s l ++ trace step (final step s l) l' := by
  induction l generalizing s with
  | nil => rfl
  | cons a l ih => simp [ih]

/-! ## Conditions on the inputs of a run -/

/-- Every input of the list meets the condition in the state that it finds. -/
def Always (step : S → A → B × S) (P : S → A → Prop) : S → List A → Prop
  | _, [] => True
  | s, a :: l => P s a ∧ Always step P (step s a).2 l

section Always

variable {P : S → A → Prop}

instance Always.decidable (step : S → A → B × S) (P : S → A → Prop) [∀ s a, Decidable (P s a)] :
    (s : S) → (l : List A) → Decidable (Always step P s l)
  | _, [] => .isTrue trivial
  | s, a :: l =>
    have := Always.decidable step P (step s a).2 l
    inferInstanceAs (Decidable (P s a ∧ Always step P (step s a).2 l))

theorem always_of_forall (h : ∀ a ∈ l, ∀ s, P s a) (s : S) : Always step P s l := by
  induction l generalizing s with
  | nil => trivial
  | cons a l ih => exact ⟨h a (by simp) s, ih (fun b hb => h b (List.mem_cons_of_mem a hb)) _⟩

theorem Always.and {Q : S → A → Prop} (h : Always step P s l) (h' : Always step Q s l) :
    Always step (fun s a => P s a ∧ Q s a) s l := by
  induction l generalizing s with
  | nil => trivial
  | cons a l ih => exact ⟨⟨h.1, h'.1⟩, ih h.2 h'.2⟩

theorem always_append :
    Always step P s (l ++ l') ↔ Always step P s l ∧ Always step P (final step s l) l' := by
  induction l generalizing s with
  | nil => simp [Always]
  | cons a l ih => simp [Always, ih, and_assoc]

/-- **Two machines side by side.** What each step keeps, under a condition on the second machine,
holds at the end. -/
theorem rel_final {S' B' : Type*} {step' : S' → A → B' × S'} {P : S' → A → Prop} {R : S → S' → Prop}
    (hstep : ∀ s t a, R s t → P t a → R (step s a).2 (step' t a).2) {t : S'} (h : R s t)
    (hl : Always step' P t l) : R (final step s l) (final step' t l) := by
  induction l generalizing s t with
  | nil => exact h
  | cons a l ih => exact ih (hstep s t a h hl.1) hl.2

/-- **Two conditions side by side.** What they say of one step from a good state is the same, and
the first one keeps the state good. -/
theorem always_iff {I : S → Prop} {C P Q : S → A → Prop}
    (h : ∀ s a, I s → C s a → (P s a ↔ Q s a) ∧ (P s a → I (step s a).2)) (hI : I s)
    (hC : Always step C s l) : Always step P s l ↔ Always step Q s l := by
  induction l generalizing s with
  | nil => exact Iff.rfl
  | cons a l ih =>
    obtain ⟨hiff, hnext⟩ := h s a hI hC.1
    exact (and_congr_right fun hP => ih (hnext hP) hC.2).trans (and_congr_left' hiff)

end Always

/-! ## What a machine sends out -/

/-- All that the machine sends out on a list of inputs. -/
def emitted (step : S → A → List B × S) (s : S) (l : List A) : List B :=
  (trace step s l).flatMap (·.2)

section Emitted

variable {step : S → A → List B × S}

@[simp] theorem emitted_nil (s : S) : emitted step s [] = [] := rfl

@[simp] theorem emitted_cons (s : S) (a : A) (l : List A) :
    emitted step s (a :: l) = (step s a).1 ++ emitted step (step s a).2 l := rfl

@[simp] theorem emitted_append (s : S) (l l' : List A) :
    emitted step s (l ++ l') = emitted step s l ++ emitted step (final step s l) l' := by
  simp [emitted]

/-- **Silence.** What each step keeps without sending `b` out holds at the end, and `b` was never
sent. -/
theorem emitted_keeps {I : S → Prop} {P : S → A → Prop} {b : B}
    (hstep : ∀ s a, I s → P s a → b ∉ (step s a).1 ∧ I (step s a).2) (hI : I s)
    (hP : Always step P s l) :
    b ∉ emitted step s l ∧ I (final step s l) := by
  induction l generalizing s with
  | nil => exact ⟨List.not_mem_nil, hI⟩
  | cons a l ih =>
    obtain ⟨hnot, hnext⟩ := hstep s a hI hP.1
    obtain ⟨hrest, hlast⟩ := ih hnext hP.2
    exact ⟨by simp [hnot, hrest], hlast⟩

end Emitted

/-! ## What a yes-or-no machine lets through -/

/-- The inputs that the machine accepts. -/
def accepted (step : S → A → Bool × S) (s : S) (l : List A) : List A :=
  ((trace step s l).filter (·.2)).map (·.1)

section Accepted

variable {step : S → A → Bool × S}

@[simp] theorem accepted_nil (s : S) : accepted step s [] = [] := rfl

theorem accepted_cons_of_true {a : A} (h : (step s a).1 = true) (l : List A) :
    accepted step s (a :: l) = a :: accepted step (step s a).2 l := by
  simp [accepted, h]

theorem accepted_cons_of_false {a : A} (h : (step s a).1 = false) (l : List A) :
    accepted step s (a :: l) = accepted step (step s a).2 l := by
  simp [accepted, h]

/-- **Accepted inputs are ordered.** `I s` holds of what may still come, `R` of what comes after
something accepted. -/
theorem accepted_pairwise {I P : S → A → Prop} {R : A → A → Prop}
    (hacc : ∀ s a, P s a → (step s a).1 = true → I s a ∧ ∀ b, I (step s a).2 b → I s b ∧ R a b)
    (hrej : ∀ s a, (step s a).1 = false → ∀ b, I (step s a).2 b → I s b) (hl : Always step P s l) :
    (accepted step s l).Pairwise R ∧ ∀ a ∈ accepted step s l, I s a := by
  induction l generalizing s with
  | nil => simp
  | cons a l ih =>
    obtain ⟨hpair, hall⟩ := ih hl.2
    cases h : (step s a).1 with
    | false =>
      rw [accepted_cons_of_false h]
      exact ⟨hpair, fun b hb => hrej s a h b (hall b hb)⟩
    | true =>
      obtain ⟨ha, hlater⟩ := hacc s a hl.1 h
      rw [accepted_cons_of_true h]
      refine ⟨List.pairwise_cons.2 ⟨fun b hb => (hlater b (hall b hb)).2, hpair⟩, ?_⟩
      intro b hb
      rcases List.mem_cons.1 hb with rfl | hb
      · exact ha
      · exact (hlater b (hall b hb)).1

end Accepted

/-! ## Leaving inputs out -/

section Marked

/-- The machine on marked inputs. The mark is for the reader only. -/
def marked (step : S → A → B × S) (s : S) (p : A × Bool) : B × S := step s p.1

/-- The inputs without a mark. -/
def unmarked (l : List (A × Bool)) : List A := (l.filter (!·.2)).map (·.1)

/-- **Two runs.** States related by `R` answer alike. If the inputs with a mark keep the relation to
the state before them, the other inputs are answered as if the marked ones had never been there. -/
theorem trace_unmarked {R : S → S → Prop}
    (hstep : ∀ s s' a, R s s' → (step s' a).1 = (step s a).1 ∧ R (step s a).2 (step s' a).2)
    {P : A → B → Prop} (hskip : ∀ s s' a, R s s' → P a (step s a).1 → R (step s a).2 s')
    {l : List (A × Bool)} (hR : R s s')
    (hmarked : ∀ e ∈ trace (marked step) s l, e.1.2 = true → P e.1.1 e.2) :
    ((trace (marked step) s l).filter (!·.1.2)).map (fun e => (e.1.1, e.2)) =
      trace step s' (unmarked l) := by
  induction l generalizing s s' with
  | nil => rfl
  | cons p l ih =>
    obtain ⟨a, m⟩ := p
    rw [trace_cons, List.forall_mem_cons] at hmarked
    obtain ⟨hhead, htail⟩ := hmarked
    cases m with
    | true =>
      simpa [unmarked, marked] using ih (hskip s s' a hR (hhead rfl)) htail
    | false =>
      obtain ⟨hout, hnext⟩ := hstep s s' a hR
      simpa [unmarked, marked, hout] using ih hnext htail

end Marked

end Transducer
