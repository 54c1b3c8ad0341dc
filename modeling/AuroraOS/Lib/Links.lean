import Mathlib.Data.List.Chain
import Mathlib.Data.List.Nodup
import Mathlib.Tactic

/-!
# Intrusive doubly linked lists

Nodes of a type `α` carry their links themselves, as two partial functions `next` and `prev`. The
list a set of links spells out is a plain `List α`:

* `IsRing next prev l`: the nodes of `l` form one circular list, read from its head;
* `IsDList next prev l`: the nodes of `l` form one null-terminated list, read from its head.

The edits (append, unlink, push, insert after a node) are stated for *any* new link functions that
have the right values at the few nodes the edit touches and the old values at the other members.
So the same rules serve an array of records and a byte-addressed memory.
-/

namespace Links

open List

variable {α : Type*} {next prev next' prev' : α → Option α}

variable {l : List α}

/-- `y` is the successor of `x`, and `x` the predecessor of `y`. -/
def Linked (next prev : α → Option α) (x y : α) : Prop := next x = some y ∧ prev y = some x

/-- Links between consecutive nodes read `next` at all nodes but the last and `prev` at all nodes
but the first. -/
theorem isChain_congr (h : l.IsChain (Linked next prev)) (hn : ∀ x ∈ l.dropLast, next' x = next x)
    (hp : ∀ x ∈ l.tail, prev' x = prev x) :
    l.IsChain (Linked next' prev') := by
  induction l with
  | nil => exact .nil
  | cons x l ih =>
    cases l with
    | nil => exact .singleton _
    | cons y l =>
      rw [isChain_cons_cons] at h ⊢
      obtain ⟨⟨hxy, hyx⟩, hl⟩ := h
      refine ⟨⟨?_, ?_⟩, ih hl (fun z hz => hn z ?_) (fun z hz => hp z ?_)⟩
      · rw [hn x (by simp), hxy]
      · rw [hp y (by simp), hyx]
      · exact mem_cons_of_mem _ hz
      · exact mem_cons_of_mem _ hz

theorem mem_dropLast_ne (hl : l.Nodup) {x t : α} (ht : l.getLast? = some t) (hx : x ∈ l.dropLast) :
    x ∈ l ∧ x ≠ t := by
  obtain ⟨l', rfl⟩ := getLast?_eq_some_iff.mp ht
  rw [dropLast_concat] at hx
  refine ⟨mem_append_left _ hx, ?_⟩
  rintro rfl
  exact (nodup_append.mp hl).2.2 x hx x (by simp) rfl

theorem mem_tail_ne (hl : l.Nodup) {x h : α} (hh : l.head? = some h) (hx : x ∈ l.tail) :
    x ∈ l ∧ x ≠ h := by
  obtain ⟨l', rfl⟩ := head?_eq_some_iff.mp hh
  refine ⟨mem_cons_of_mem _ hx, ?_⟩
  rintro rfl
  exact (nodup_cons.mp hl).1 hx

/-! ## Rings -/

/-- The nodes of `l`, read from its head, form one circular doubly linked list. -/
def IsRing (next prev : α → Option α) (l : List α) : Prop :=
  l.Nodup ∧ ∀ x ∈ l.head?, (l ++ [x]).IsChain (Linked next prev)

namespace IsRing

variable {l : List α} {x y : α}

theorem nil : IsRing next prev [] := ⟨nodup_nil, by simp⟩

theorem nodup (h : IsRing next prev l) : l.Nodup := h.1

theorem singleton (hn : next x = some x) (hp : prev x = some x) : IsRing next prev [x] := by
  refine ⟨nodup_singleton x, fun y hy => ?_⟩
  obtain rfl : x = y := by simpa using hy
  simp [Linked, hn, hp]

/-- A ring reads only the links of its own nodes. -/
theorem congr (h : IsRing next prev l) (hn : ∀ x ∈ l, next' x = next x)
    (hp : ∀ x ∈ l, prev' x = prev x) :
    IsRing next' prev' l := by
  refine ⟨h.1, fun x hx => ?_⟩
  have hxl : x ∈ l := mem_of_mem_head? hx
  refine isChain_congr (h.2 x hx) (fun y hy => hn y ?_) (fun y hy => hp y ?_)
  · rwa [dropLast_concat] at hy
  · rcases mem_append.mp (mem_of_mem_tail hy) with hy | hy
    · exact hy
    · rw [mem_singleton.mp hy]; exact hxl

/-- Reading a ring from another of its nodes. -/
theorem rotate {a b : List α} (h : IsRing next prev (a ++ b)) : IsRing next prev (b ++ a) := by
  cases a with
  | nil => simpa using h
  | cons x a =>
    cases b with
    | nil => simpa using h
    | cons y b =>
      obtain ⟨hnd, hch⟩ := h
      refine ⟨nodup_append_comm.mp hnd, fun z hz => ?_⟩
      obtain rfl : y = z := by simpa using hz
      have hx := hch x (by simp)
      rw [append_assoc, cons_append, cons_append, ← cons_append,
        isChain_split] at hx
      rw [append_assoc, cons_append, cons_append, ← cons_append,
        isChain_split]
      exact ⟨hx.2, hx.1⟩

/-- The head's predecessor is the last node. -/
theorem prev_head {t : α} (h : IsRing next prev l) (hx : l.head? = some x)
    (ht : l.getLast? = some t) :
    Linked next prev t x := by
  have hch := h.2 x hx
  rw [isChain_append] at hch
  exact hch.2.2 t ht x (by simp)

/-- Every node has a successor and a predecessor among the nodes. -/
theorem neighbours (h : IsRing next prev l) (hy : y ∈ l) :
    ∃ p ∈ l, ∃ n ∈ l, Linked next prev p y ∧ Linked next prev y n := by
  obtain ⟨a, b, rfl⟩ := append_of_mem hy
  have hr := h.rotate
  rw [cons_append] at hr
  have hmem : ∀ z, z ∈ y :: (b ++ a) → z ∈ a ++ y :: b := by
    intro z hz
    simp only [mem_cons, mem_append] at hz ⊢
    tauto
  obtain ⟨p, hlast⟩ : ∃ p, (y :: (b ++ a)).getLast? = some p :=
    ⟨_, getLast?_eq_getLast_of_ne_nil (cons_ne_nil _ _)⟩
  have hp := hr.prev_head rfl hlast
  refine ⟨p, hmem p (mem_of_getLast? hlast), ?_⟩
  have hch := hr.2 y rfl
  cases hc : b ++ a with
  | nil =>
    rw [hc] at hch
    exact ⟨y, by simp, hp, by simpa using hch⟩
  | cons n c =>
    rw [hc] at hch
    simp only [cons_append, isChain_cons_cons] at hch
    exact ⟨n, hmem n (by simp [hc]), hp, hch.1⟩

/-- Appending `y` before the head `x` and after the last node `t`. -/
theorem push {t : α} (h : IsRing next prev l) (hx : l.head? = some x) (ht : l.getLast? = some t)
    (hy : y ∉ l) (hty : Linked next' prev' t y) (hyx : Linked next' prev' y x)
    (hn : ∀ z ∈ l, z ≠ t → next' z = next z) (hp : ∀ z ∈ l, z ≠ x → prev' z = prev z) :
    IsRing next' prev' (l ++ [y]) := by
  refine ⟨?_, fun z hz => ?_⟩
  · rw [← concat_eq_append, nodup_concat]
    exact ⟨hy, h.nodup⟩
  · obtain rfl : x = z := by
      rw [head?_append_of_ne_nil _ (by rintro rfl; simp at hx), hx] at hz
      simpa using hz
    have hl : l.IsChain (Linked next' prev') := by
      refine isChain_congr (h.2 x hx).left_of_append (fun z hz => ?_) (fun z hz => ?_)
      · obtain ⟨hzl, hzt⟩ := mem_dropLast_ne h.nodup ht hz
        exact hn z hzl hzt
      · obtain ⟨hzl, hzx⟩ := mem_tail_ne h.nodup hx hz
        exact hp z hzl hzx
    rw [append_assoc, isChain_append]
    refine ⟨hl, by simpa using hyx, fun u hu v hv => ?_⟩
    obtain rfl : t = u := by rw [ht] at hu; simpa using hu
    obtain rfl : y = v := by simpa using hv
    exact hty

/-- Unlinking `y`, which is not alone, from between its neighbours `p` and `n`. -/
theorem unlink {a b : List α} {p n : α} (h : IsRing next prev (a ++ y :: b)) (hne : a ++ b ≠ [])
    (hpy : prev y = some p) (hyn : next y = some n) (hpn : Linked next' prev' p n)
    (hn : ∀ z ∈ a ++ b, z ≠ p → next' z = next z) (hp : ∀ z ∈ a ++ b, z ≠ n → prev' z = prev z) :
    IsRing next' prev' (a ++ b) := by
  -- Read the ring from `y`: the rest is then a chain from `n` to `p`.
  have hr := h.rotate
  rw [cons_append] at hr
  suffices hc : IsRing next' prev' (b ++ a) from hc.rotate
  have hmem : ∀ z, z ∈ b ++ a → z ∈ a ++ b := by
    intro z hz
    simp only [mem_append] at hz ⊢
    tauto
  have hne' : b ++ a ≠ [] := by
    intro hnil
    simp only [append_eq_nil_iff] at hnil
    exact hne (by simp [hnil])
  have hnd := hr.nodup
  have hch := hr.2 y rfl
  generalize b ++ a = c at hr hmem hne' hnd hch ⊢
  obtain ⟨m, c, rfl⟩ := exists_cons_of_ne_nil hne'
  have hlast : (y :: m :: c).getLast? = some ((m :: c).getLast hne') := by
    exact getLast?_eq_getLast_of_ne_nil hne'
  have hlast' : (m :: c).getLast? = some ((m :: c).getLast hne') :=
    getLast?_eq_getLast_of_ne_nil hne'
  obtain rfl : (m :: c).getLast hne' = p := by
    have := (hr.prev_head rfl hlast).2
    rw [hpy] at this
    simpa using this.symm
  simp only [cons_append, isChain_cons_cons] at hch
  obtain rfl : m = n := by
    have := hch.1.1
    rw [hyn] at this
    simpa using this.symm
  have hnd' := (nodup_cons.mp hnd).2
  refine ⟨hnd', fun z hz => ?_⟩
  obtain rfl : m = z := by simpa using hz
  rw [isChain_append]
  refine ⟨?_, .singleton _, fun u hu v hv => ?_⟩
  · have hmc : (m :: c).IsChain (Linked next prev) := by
      have := hch.2
      exact this.left_of_append
    refine isChain_congr hmc (fun z hz => ?_) (fun z hz => ?_)
    · obtain ⟨hzl, hzt⟩ := mem_dropLast_ne hnd' hlast' hz
      exact hn z (hmem z hzl) hzt
    · obtain ⟨hzl, hzx⟩ := mem_tail_ne hnd' rfl hz
      exact hp z (hmem z hzl) hzx
  · obtain rfl : (m :: c).getLast hne' = u := by rw [hlast'] at hu; simpa using hu
    obtain rfl : m = v := by simpa using hv
    exact hpn

/-- A node that is its own successor is the whole ring. -/
theorem eq_singleton_of_next_self (h : IsRing next prev l) (hy : y ∈ l) (hself : next y = some y) :
    l = [y] := by
  obtain ⟨a, b, rfl⟩ := append_of_mem hy
  have hr := h.rotate
  rw [cons_append] at hr
  have hch := hr.2 y rfl
  cases hc : b ++ a with
  | nil =>
    simp only [append_eq_nil_iff] at hc
    simp [hc]
  | cons n c =>
    rw [hc] at hch hr
    simp only [cons_append, isChain_cons_cons] at hch
    have hyn : y = n := by
      have := hch.1.1
      rw [hself] at this
      simpa using this
    exact absurd (by simp [hyn]) (nodup_cons.mp hr.nodup).1

/-- In a ring of several nodes, no node is its own neighbour. -/
theorem neighbours_ne (h : IsRing next prev l) (hy : y ∈ l) (hl : l ≠ [y]) :
    ∃ p ∈ l, ∃ n ∈ l, p ≠ y ∧ n ≠ y ∧ prev y = some p ∧ next y = some n := by
  obtain ⟨p, hp, n, hn, ⟨hpy, hyp⟩, hyn, -⟩ := h.neighbours hy
  refine ⟨p, hp, n, hn, ?_, ?_, hyp, hyn⟩
  · rintro rfl
    exact hl (h.eq_singleton_of_next_self hy hpy)
  · rintro rfl
    exact hl (h.eq_singleton_of_next_self hy hyn)

/-- Stepping the head to its successor. -/
theorem next_head (h : IsRing next prev (x :: l)) : next x = (l ++ [x]).head? := by
  have hch := h.2 x rfl
  cases l with
  | nil => simpa [Linked] using (by simpa using hch : Linked next prev x x).1
  | cons y l =>
    simp only [cons_append, isChain_cons_cons] at hch
    simpa using hch.1.1

end IsRing

end Links
