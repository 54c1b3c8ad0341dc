import Mathlib.Data.Set.NAry
import Mathlib.Tactic

/-!
# Paths and patterns

`AuditEngine::path_match_` goes through a path and a pattern together and comes back to the last `*`
alone. That is enough (`pathMatch_iff`): wherever an earlier `*` could end, what is left of the path
has it as well.

An index into a string stands here for the rest of the string from there on.
-/

namespace AuroraOS.PathMatch

open List

/-- The loop. After a `*` there are the rest of the pattern behind it and the rest of the path at
`match`, and both are at least as long as what is left now. -/
def loop (path pattern : List Char) (star : Option (List Char × List Char))
    (h : ∀ r ∈ star, pattern.length ≤ r.1.length ∧ path.length ≤ r.2.length) : Bool :=
  match path with
  | [] => (pattern.dropWhile (· = '*')).isEmpty
  | x :: path =>
    if hstar : pattern.head? = some '*' then
      loop (x :: path) pattern.tail (some (pattern.tail, x :: path))
      (by rintro _ ⟨⟩; exact ⟨le_rfl, le_rfl⟩)
    else if hsame : pattern.head? = some x ∨ pattern.head? = some '?' then
      loop path pattern.tail star fun r hr => by have := h r hr; simp at this ⊢; omega
    else
      match star with
      | none => false
      | some (rest, start) =>
        loop start.tail rest (some (rest, start.tail)) (by rintro _ ⟨⟩; exact ⟨le_rfl, le_rfl⟩)
termination_by (star.elim (pattern.length + 1) (·.1.length), star.elim 0 (·.2.length), path.length)
decreasing_by
  all_goals have hpos : pattern.head? ≠ none → 0 < pattern.length := by cases pattern <;> simp
  · have hlen : pattern.length ≤ star.elim (pattern.length + 1) (·.1.length) := by
      cases star with
      | none => simp
      | some r => exact (h r rfl).1
    have := hpos (by simp [hstar])
    refine Prod.Lex.left _ _ ?_
    simp
    omega
  · have := hpos (by rcases hsame with h | h <;> simp [h])
    cases star with
    | none =>
      refine Prod.Lex.left _ _ ?_
      simp
      omega
    | some r => exact Prod.Lex.right _ (Prod.Lex.right _ (by simp))
  · have := (h _ rfl).2
    refine Prod.Lex.right _ (Prod.Lex.left _ _ ?_)
    simp at this ⊢
    omega

/-- `path_match_` -/
def pathMatch (path pattern : List Char) : Bool := loop path pattern none (by simp)

/-- What a character of a pattern stands for: any string, any one character, or itself. -/
def meaning (c : Char) : Set (List Char) :=
  if c = '*' then Set.univ else if c = '?' then {w | ∃ x, w = [x]} else {[c]}

def language : List Char → Set (List Char)
  | [] => {[]}
  | c :: s => Set.image2 (· ++ ·) (meaning c) (language s)

variable {c : Char} {s p : List Char}

theorem mem_star : p ∈ language ('*' :: s) ↔ ∃ q, q <:+ p ∧ q ∈ language s := by
  constructor
  · rintro ⟨a, -, q, hq, rfl⟩
    exact ⟨q, suffix_append a q, hq⟩
  · rintro ⟨q, ⟨a, rfl⟩, hq⟩
    exact ⟨a, trivial, q, hq, rfl⟩

theorem mem_cons (hc : c ≠ '*') :
    p ∈ language (c :: s) ↔ ∃ x q, p = x :: q ∧ (c = x ∨ c = '?') ∧ q ∈ language s := by
  have hmeaning : ∀ a, a ∈ meaning c ↔ ∃ x, a = [x] ∧ (c = x ∨ c = '?') := by
    intro a
    rw [meaning, if_neg hc]
    split_ifs with h <;> simp [h]
  constructor
  · rintro ⟨a, ha, q, hq, rfl⟩
    obtain ⟨x, rfl, hx⟩ := (hmeaning a).mp ha
    exact ⟨x, q, rfl, hx, hq⟩
  · rintro ⟨x, q, rfl, hx, hq⟩
    exact ⟨[x], (hmeaning _).mpr ⟨x, rfl, hx⟩, q, hq, rfl⟩

theorem nil_mem (s : List Char) : [] ∈ language s ↔ (s.dropWhile (· = '*')).isEmpty := by
  induction s with
  | nil => simp [language]
  | cons c s ih =>
    by_cases hc : c = '*'
    · subst hc
      simp [mem_star, ih]
    · simp [mem_cons hc, hc]

/-- A `*` takes one character more, or none. -/
theorem mem_star_tail :
    p ∈ language ('*' :: s) ↔ p ∈ language s ∨ p.tail ∈ language ('*' :: s) := by
  cases p with
  | nil => simp [mem_star]
  | cons x p => simp [mem_star, suffix_cons_iff, or_and_right, exists_or]

theorem not_mem {x : Char} (hstar : s.head? ≠ some '*')
    (hsame : ¬(s.head? = some x ∨ s.head? = some '?')) :
    x :: p ∉ language s := by
  cases s with
  | nil => simp [language]
  | cons c s =>
    rw [mem_cons (by simpa using hstar)]
    rintro ⟨_, _, ⟨⟩, hx, -⟩
    exact hsame (by simpa using hx)

theorem loop_iff {path pattern : List Char} {star : Option (List Char × List Char)}
    (h : ∀ r ∈ star, pattern.length ≤ r.1.length ∧ path.length ≤ r.2.length)
    (hrest : ∀ r ∈ star, r.2 ∈ language ('*' :: r.1) → path ∈ language ('*' :: pattern)) :
    loop path pattern star h ↔ path ∈ language pattern ∨
      ∃ r ∈ star, r.2.tail ∈ language ('*' :: r.1) := by
  fun_induction loop path pattern star h with
  | case1 pattern star h =>
    rw [← nil_mem]
    refine ⟨.inl, fun hor => hor.elim id fun ⟨r, hr, htail⟩ => ?_⟩
    simpa [mem_star] using hrest r hr (mem_star_tail.mpr (.inr htail))
  | case2 pattern star x path _ hstar h ih =>
    have hlang : language pattern = language ('*' :: pattern.tail) := by cases pattern <;> simp_all
    rw [ih (by simp), hlang, mem_star_tail]
    refine ⟨fun hor => .inl (by simpa using hor), fun hor => hor.elim
      (by simp) fun ⟨r, hr, htail⟩ => ?_⟩
    -- two stars are one
    obtain ⟨q, hq, hmem⟩ := mem_star.mp (hrest r hr (mem_star_tail.mpr (.inr htail)))
    obtain ⟨q', hq', hmem⟩ := mem_star.mp (hlang ▸ hmem)
    simpa using mem_star_tail.mp (mem_star.mpr ⟨q', hq'.trans hq, hmem⟩)
  | case3 pattern star x path _ hstar hsame h ih =>
    obtain ⟨c, hhead⟩ : ∃ c, pattern.head? = some c := by rcases hsame with h | h <;> exact ⟨_, h⟩
    have hlang : language pattern = language (c :: pattern.tail) := by cases pattern <;> simp_all
    have hc : c ≠ '*' := by simpa [hhead] using hstar
    have hx : c = x ∨ c = '?' := by simpa [hhead] using hsame
    rw [ih, hlang, mem_cons hc]
    · simp [hx]
    · intro r hr hmem
      obtain ⟨q, hq, hmem⟩ := mem_star.mp (hrest r hr hmem)
      obtain ⟨y, q, rfl, -, hmem⟩ := (mem_cons hc).mp (hlang ▸ hmem)
      refine mem_star.mpr ⟨q, ?_, hmem⟩
      exact (suffix_cons_iff.mp hq).elim (by rintro ⟨⟩; rfl) (suffix_cons y q).trans
  | case4 pattern x path hstar hsame =>
    simp [not_mem hstar hsame]
  | case5 pattern x path hstar hsame rest start _ h ih =>
    rw [ih (by simp)]
    simpa [not_mem hstar hsame] using mem_star_tail.symm

theorem pathMatch_iff (path pattern : List Char) :
    pathMatch path pattern ↔ path ∈ language pattern := by
  rw [pathMatch, loop_iff] <;> simp

end AuroraOS.PathMatch
