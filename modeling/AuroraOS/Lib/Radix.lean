import Mathlib.Algebra.BigOperators.Group.Finset.Basic
import Mathlib.Algebra.Order.BigOperators.Group.Multiset
import Mathlib.Tactic

/-!
# Trees of tables

A table has one entry for each index, and an entry may lead to a further table. All tables have the
same number of levels below them, `n` for the root, and an index is read at each level: at the root
the index of level `n`, at the bottom that of level 0.

`tables` counts every table as often as it is reached, so that a tree in which each table has one
parent is one whose `tables` have no duplicates. In such a tree an entry can be overwritten locally:
`tables_set` says which tables are gained and lost, `leaf_set` which lookups change.
-/

namespace Radix

open Function Finset Multiset

variable {T E ι : Type*}

section Definitions

variable (child : E → Option T) (f : T → ι → E)

/-- The tables reached from `t`, which has `n` levels of tables below it. -/
def tables [Fintype ι] : ℕ → T → Multiset T
  | 0, t => {t}
  | n + 1, t => t ::ₘ ∑ i, (child (f t i)).elim 0 (tables n)

/-- The tables reached through an entry of a table with `n` levels below it. -/
def below [Fintype ι] : ℕ → E → Multiset T
  | 0, _ => 0
  | n + 1, e => (child e).elim 0 (tables child f n)

/-- The entry at the bottom that the indices `p` lead to. -/
def leaf : ℕ → T → (ℕ → ι) → Option E
  | 0, t, p => some (f t (p 0))
  | n + 1, t, p => (child (f t (p (n + 1)))).bind fun t' => leaf n t' p

/-- The entry at the bottom that the indices lead to from an entry of a table with `n` levels
below it. -/
def leafBelow : ℕ → E → (ℕ → ι) → Option E
  | 0, e, _ => some e
  | n + 1, e, p => (child e).bind fun t' => leaf child f n t' p

/-- The number of tables on the way down that do not exist. -/
def missing : ℕ → T → (ℕ → ι) → ℕ
  | 0, _, _ => 0
  | n + 1, t, p => (child (f t (p (n + 1)))).elim (n + 1) fun t' => missing n t' p

/-- The indices `p` lead from `t`, at level `n`, to the table `s` at level `k`. -/
inductive Leads (p : ℕ → ι) : ℕ → T → ℕ → T → Prop
  | refl (n : ℕ) (t : T) : Leads p n t n t
  | step {n k : ℕ} {t t' s : T} (h : child (f t (p (n + 1))) = some t')
      (hs : Leads p n t' k s) : Leads p (n + 1) t k s

/-- Write an entry. -/
def set [DecidableEq T] [DecidableEq ι] (s : T) (i : ι) (e : E) : T → ι → E :=
  Function.update f s (Function.update (f s) i e)

end Definitions

variable {child : E → Option T} {f f' : T → ι → E} {p q : ℕ → ι} {n k : ℕ} {t s : T} {e : E}

theorem leaf_eq (child : E → Option T) (f : T → ι → E) (n : ℕ) (t : T) (p : ℕ → ι) :
    leaf child f n t p = leafBelow child f n (f t (p n)) p := by
  cases n <;> rfl

/-- Lookups read the indices of the levels they pass. -/
theorem leaf_congr_indices (h : ∀ k ≤ n, q k = p k) : leaf child f n t q = leaf child f n t p := by
  induction n generalizing t with
  | zero => rw [leaf, leaf, h 0 le_rfl]
  | succ n ih =>
    rw [leaf, h (n + 1) le_rfl]
    congr 1
    funext t'
    exact ih fun k hk => h k (by omega)

theorem missing_le (child : E → Option T) (f : T → ι → E) (n : ℕ) (t : T) (p : ℕ → ι) :
    missing child f n t p ≤ n := by
  induction n generalizing t with
  | zero => exact le_rfl
  | succ n ih =>
    unfold missing
    cases child (f t (p (n + 1))) with
    | none => exact le_rfl
    | some t' => exact (ih t').trans n.le_succ

theorem missing_of_bare (h : ∀ i, child (f t i) = none) : missing child f n t p = n := by
  cases n with
  | zero => rfl
  | succ n => rw [missing, h, Option.elim_none]

/-- A path goes on through the entry it ends at. -/
theorem Leads.down {s' : T} (h : Leads child f p n t (k + 1) s)
    (hs : child (f s (p (k + 1))) = some s') : Leads child f p n t k s' := by
  generalize hk : k + 1 = m at h
  induction h with
  | refl n t =>
    subst hk
    exact .step hs (.refl _ _)
  | step hc _ ih => exact .step hc (ih hs hk)

theorem Leads.le (h : Leads child f p n t k s) : k ≤ n := by
  induction h with
  | refl => exact le_rfl
  | step => omega

/-- Of two tables on one path, the higher one leads to the lower one. -/
theorem Leads.of_le {j : ℕ} {u : T} (h : Leads child f p n t j u) (h' : Leads child f p n t k s)
    (hk : k ≤ j) : Leads child f p j u k s := by
  induction h with
  | refl => exact h'
  | @step n j t t' u hc hu ih =>
    have hj := hu.le
    cases h' with
    | refl => omega
    | step hc' h' =>
      obtain rfl := Option.some.inj (hc.symm.trans hc')
      exact ih h' hk

/-- A lookup that agrees with a path so far goes on from the path's end. -/
theorem Leads.leaf_eq (h : Leads child f p n t k s) (hq : ∀ l, k < l → l ≤ n → q l = p l) :
    leaf child f n t q = leaf child f k s q := by
  induction h with
  | refl => rfl
  | @step n k t t' s hc hs ih =>
    have hk := hs.le
    rw [leaf, hq (n + 1) (by omega) le_rfl, hc]
    exact ih fun l hl hn => hq l hl (by omega)

/-! ## The tables of a tree -/

section Tables

variable [Fintype ι]

theorem tables_eq (child : E → Option T) (f : T → ι → E) (n : ℕ) (t : T) :
    tables child f n t = t ::ₘ ∑ i, below child f n (f t i) := by
  cases n with
  | zero =>
    have hsum : ∑ i, below child f 0 (f t i) = 0 := sum_eq_zero fun _ _ => rfl
    rw [hsum]
    rfl
  | succ n => rfl

theorem tables_zero (child : E → Option T) (f : T → ι → E) (t : T) :
    tables child f 0 t = {t} := by
  rw [tables]

theorem self_mem_tables (child : E → Option T) (f : T → ι → E) (n : ℕ) (t : T) :
    t ∈ tables child f n t := by
  rw [tables_eq]
  exact mem_cons_self t _

theorem below_le_tables (child : E → Option T) (f : T → ι → E) (n : ℕ) (t : T) (i : ι) :
    below child f n (f t i) ≤ tables child f n t := by
  rw [tables_eq]
  exact (single_le_sum (fun _ _ => zero_le _) (mem_univ i)).trans
    (le_cons_self _ t)

theorem tables_le_of_child (hc : child (f t (p (n + 1))) = some s) :
    tables child f n s ≤ tables child f (n + 1) t := by
  have h := below_le_tables child f (n + 1) t (p (n + 1))
  rwa [below, hc] at h

/-- In a tree without duplicates, a table is not below itself. -/
theorem notMem_below (h : (tables child f n t).Nodup) (i : ι) : t ∉ below child f n (f t i) := by
  rw [tables_eq, nodup_cons] at h
  intro hmem
  exact h.1 (mem_sum.mpr ⟨i, mem_univ i, hmem⟩)

theorem ne_of_child (hn : (tables child f (n + 1) t).Nodup) {t' : T} {i : ι}
    (hc : child (f t i) = some t') (hs : s ∈ tables child f n t') : t ≠ s := by
  rintro rfl
  have hself := notMem_below hn i
  rw [below, hc] at hself
  exact hself hs

/-- In a tree without duplicates, a table is below one entry only. -/
theorem below_disjoint [DecidableEq ι] (h : (tables child f n t).Nodup) {i j : ι} (hij : j ≠ i)
    (hs : s ∈ below child f n (f t i)) : s ∉ below child f n (f t j) := by
  intro hj
  rw [tables_eq, nodup_cons,
    ← add_sum_erase univ _ (mem_univ i)] at h
  refine disjoint_left.mp (nodup_add.mp h.2).2.2 hs ?_
  exact mem_sum.mpr ⟨j, mem_erase.mpr ⟨hij, mem_univ j⟩, hj⟩

theorem Leads.tables_le (h : Leads child f p n t k s) :
    tables child f k s ≤ tables child f n t := by
  induction h with
  | refl => exact le_rfl
  | step hc _ ih => exact ih.trans (tables_le_of_child hc)

theorem Leads.mem (h : Leads child f p n t k s) : s ∈ tables child f n t :=
  mem_of_le h.tables_le (self_mem_tables child f k s)

theorem Leads.ne (h : Leads child f p n t k s) (hn : (tables child f n t).Nodup) (hk : k < n) :
    t ≠ s := by
  cases h with
  | refl => omega
  | step hc hs => exact ne_of_child hn hc hs.mem

/-- The tables depend on their own entries only. -/
theorem tables_congr (h : ∀ s ∈ tables child f n t, f' s = f s) :
    tables child f' n t = tables child f n t := by
  induction n generalizing t with
  | zero => rfl
  | succ n ih =>
    rw [tables, h t (self_mem_tables child f (n + 1) t)]
    congr 1
    refine sum_congr rfl fun i _ => ?_
    cases hc : child (f t i) with
    | none => rfl
    | some t' =>
      refine ih fun s hs => h s ?_
      have hle := below_le_tables child f (n + 1) t i
      rw [below, hc] at hle
      exact mem_of_le hle hs

theorem below_congr (h : ∀ s ∈ below child f n e, f' s = f s) :
    below child f' n e = below child f n e := by
  cases n with
  | zero => rfl
  | succ n =>
    rw [below] at h
    rw [below, below]
    cases hc : child e with
    | none => rfl
    | some t' =>
      rw [hc] at h
      exact tables_congr h

theorem leaf_congr (h : ∀ s ∈ tables child f n t, f' s = f s) (q : ℕ → ι) :
    leaf child f' n t q = leaf child f n t q := by
  induction n generalizing t with
  | zero => rw [leaf, leaf, h t (self_mem_tables child f 0 t)]
  | succ n ih =>
    rw [leaf, leaf, h t (self_mem_tables child f (n + 1) t)]
    cases hc : child (f t (q (n + 1))) with
    | none => rfl
    | some t' => exact ih fun s hs => h s (mem_of_le (tables_le_of_child hc) hs)

theorem leafBelow_congr (h : ∀ s ∈ below child f n e, f' s = f s) (q : ℕ → ι) :
    leafBelow child f' n e q = leafBelow child f n e q := by
  cases n with
  | zero => rfl
  | succ n =>
    rw [leafBelow, leafBelow]
    cases hc : child e with
    | none => rfl
    | some t' =>
      rw [below, hc] at h
      exact leaf_congr h q

theorem Leads.congr (h : Leads child f p n t k s) (hf : ∀ s ∈ tables child f n t, f' s = f s) :
    Leads child f' p n t k s := by
  induction h with
  | refl n t => exact .refl n t
  | @step n k t t' s hc _ ih =>
    refine .step ?_ (ih fun s hs => hf s (mem_of_le (tables_le_of_child hc) hs))
    rw [hf t (self_mem_tables child f (n + 1) t), hc]

/-- A table whose entries lead nowhere. -/
theorem tables_of_bare (h : ∀ i, child (f t i) = none) : tables child f n t = {t} := by
  cases n with
  | zero => rfl
  | succ n =>
    rw [tables, Finset.sum_eq_zero fun i _ => ?_]
    · rfl
    · rw [h i]
      rfl

/-- If every table has an entry that leads somewhere, or counts as a leaf, some lookup finds a
leaf. -/
theorem exists_leaf (h : ∀ s ∈ tables child f n t, ∃ i, child (f s i) ≠ none) :
    ∃ p e, leaf child f n t p = some e ∧ child e ≠ none := by
  induction n generalizing t with
  | zero =>
    obtain ⟨i, hi⟩ := h t (self_mem_tables child f 0 t)
    exact ⟨fun _ => i, f t i, rfl, hi⟩
  | succ n ih =>
    obtain ⟨i, hi⟩ := h t (self_mem_tables child f (n + 1) t)
    obtain ⟨t', hc⟩ := Option.ne_none_iff_exists'.mp hi
    have hle := below_le_tables child f (n + 1) t i
    rw [below, hc] at hle
    obtain ⟨p, e, hp, he⟩ := ih fun s hs => h s (mem_of_le hle hs)
    refine ⟨update p (n + 1) i, e, ?_, he⟩
    rw [leaf, update_self, hc, ← hp]
    exact leaf_congr_indices fun k hk => update_of_ne (by omega) _ _

end Tables

/-! ## Writing an entry -/

section Set

variable [DecidableEq T] [DecidableEq ι]

theorem set_self (f : T → ι → E) (s : T) (i : ι) (e : E) :
    set f s i e s = update (f s) i e := update_self s _ f

theorem set_of_ne (h : t ≠ s) (f : T → ι → E) (i : ι) (e : E) : set f s i e t = f t :=
  update_of_ne h _ f

variable [Fintype ι]

variable (h : Leads child f p n t k s)

include h

variable (hn : (tables child f n t).Nodup)

include hn

/-- **What a write gains and loses.** In a tree without duplicates, the tables below the old entry
go and those below the new one come. -/
theorem tables_set (i : ι) (he : s ∉ below child f k e) :
    tables child (set f s i e) n t + below child f k (f s i) =
      tables child f n t + below child f k e := by
  induction h with
  | refl n s =>
    have hnew : below child (set f s i e) n e = below child f n e :=
      below_congr fun u hu => set_of_ne (by rintro rfl; exact he hu) f i e
    have hold : ∀ j ∈ univ.erase i,
        below child (set f s i e) n (set f s i e s j) = below child f n (f s j) := by
      intro j hj
      rw [set_self, update_of_ne (ne_of_mem_erase hj)]
      exact below_congr fun u hu =>
        set_of_ne (by rintro rfl; exact notMem_below hn j hu) f i e
    rw [tables_eq, tables_eq child f, ← add_sum_erase _ _ (mem_univ i),
      ← add_sum_erase univ (fun j => below child f n (f s j)) (mem_univ i),
      sum_congr rfl hold, set_self, update_self, hnew]
    simp only [← singleton_add]
    abel
  | @step n k t t' s hc hs ih =>
    have hle := tables_le_of_child hc
    have hst : t ≠ s := ne_of_child hn hc hs.mem
    have hbelow : s ∈ below child f (n + 1) (f t (p (n + 1))) := by
      rw [below, hc]
      exact hs.mem
    have hold : ∀ j ∈ univ.erase (p (n + 1)),
        below child (set f s i e) (n + 1) (f t j) = below child f (n + 1) (f t j) := by
      intro j hj
      have hj' := below_disjoint hn (ne_of_mem_erase hj) hbelow
      exact below_congr fun u hu => set_of_ne (by rintro rfl; exact hj' hu) f i e
    have ih := ih (nodup_of_le hle hn) he
    rw [tables_eq, tables_eq child f, set_of_ne hst,
      ← add_sum_erase _ _ (mem_univ (p (n + 1))),
      ← add_sum_erase univ (fun j => below child f (n + 1) (f t j))
        (mem_univ (p (n + 1))),
      sum_congr rfl hold, below, below, hc]
    generalize ∑ j ∈ univ.erase (p (n + 1)), below child f (n + 1) (f t j) = rest
    calc {t} + (tables child (set f s i e) n t' + rest) + below child f k (f s i)
      _ = {t} + (tables child (set f s i e) n t' + below child f k (f s i)) + rest := by abel
      _ = {t} + (tables child f n t' + below child f k e) + rest := by rw [ih]
      _ = {t} + (tables child f n t' + rest) + below child f k e := by abel

/-- Writing to a table below the end of a path leaves the path. -/
theorem Leads.set {u : T} (hu : u ∈ tables child f k s) (i : ι) (e : E) :
    Leads child (set f u i e) p n t k s := by
  induction h with
  | refl n t => exact .refl n t
  | @step n k t t' s hc hs ih =>
    have hut : t ≠ u := ne_of_child hn hc (mem_of_le hs.tables_le hu)
    refine .step ?_ (ih (nodup_of_le (tables_le_of_child hc) hn) hu)
    rw [set_of_ne hut, hc]

/-- **What a write changes for lookups.** The lookups that come to the entry find what is below
the new one. -/
theorem leaf_set_of_eq {i : ι} (he : s ∉ below child f k e) (hq : ∀ l, k < l → l ≤ n → q l = p l)
    (hi : q k = i) : leaf child (set f s i e) n t q = leafBelow child f k e q := by
  induction h with
  | refl n s =>
    rw [leaf_eq, set_self, hi, update_self]
    exact leafBelow_congr (fun u hu => set_of_ne (by rintro rfl; exact he hu) f i e) q
  | @step n k t t' s hc hs ih =>
    have hk := hs.le
    have hst : t ≠ s := ne_of_child hn hc hs.mem
    rw [leaf, set_of_ne hst, hq (n + 1) (by omega) le_rfl, hc]
    exact ih (nodup_of_le (tables_le_of_child hc) hn) he
      (fun l hl hn => hq l hl (by omega)) hi

/-- The lookups that pass by the entry find what they found before. -/
theorem leaf_set_of_ne {i : ι} (hq : (∀ l, k < l → l ≤ n → q l = p l) → q k ≠ i) :
    leaf child (set f s i e) n t q = leaf child f n t q := by
  induction h with
  | refl n s =>
    rw [leaf_eq, set_self, update_of_ne (hq fun l hl hl' => by omega), leaf_eq child f]
    exact leafBelow_congr
      (fun u hu => set_of_ne (by rintro rfl; exact notMem_below hn _ hu) f i e) q
  | @step n k t t' s hc hs ih =>
    have hbelow : s ∈ below child f (n + 1) (f t (p (n + 1))) := by
      rw [below, hc]
      exact hs.mem
    have hst : t ≠ s := ne_of_child hn hc hs.mem
    rw [leaf_eq, set_of_ne hst, leaf_eq child f]
    by_cases hqp : q (n + 1) = p (n + 1)
    · rw [hqp, leafBelow, leafBelow, hc]
      refine ih (nodup_of_le (tables_le_of_child hc) hn) fun h => hq fun l hl hl' => ?_
      rcases Nat.lt_or_ge n l with hnl | hnl
      · obtain rfl : l = n + 1 := by omega
        exact hqp
      · exact h l hl hnl
    · have hj := below_disjoint hn hqp hbelow
      exact leafBelow_congr (fun u hu => set_of_ne (by rintro rfl; exact hj hu) f i e) q

end Set

-- the lemmas above are all there is to use of these; unfolding them at a fixed depth is costly
attribute [irreducible] tables leaf

end Radix
