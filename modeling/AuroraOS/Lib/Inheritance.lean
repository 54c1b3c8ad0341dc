import AuroraOS.Lib.Chain
import Mathlib.Logic.Relation
import Mathlib.Order.Bounds.Basic
import Mathlib.Order.Lattice

/-!
# Levels inherited along a forest

Every node has at most one parent, given by `up`, and following parents comes to an end. A node's
level is *settled* when it is the greatest of the node's own demands and the levels of its children.

When the demands of one node change, the levels are settled again by repairing that node, then its
parent, and so on, until a node keeps its level: `Repairs` describes such a climb, and
`Repairs.settled` says that it settles all levels. `Raises` is the climb that only passes a higher
level on.

Where levels may also be raised for other reasons, they *cover* what they have to reach: `Covered`
is kept by both kinds of climbs.
-/

namespace Inheritance

open Chain Option List Function

variable {α β : Type*} {up up' : α → Option α}

/-! ## Forests -/

/-- Following parents comes to an end. -/
def Acyclic (up : α → Option α) : Prop := ∀ t, ∃ l, Path up (some t) l none

namespace Acyclic

variable (h : Acyclic up)

include h

theorem ne_self (t : α) : up t ≠ some t := by
  intro ht
  obtain ⟨l, hl⟩ := h t
  cases l with
  | nil => cases hl
  | cons x l =>
    obtain rfl : t = x := some.inj hl.1
    have hlen := congrArg length (hl.unique (ht ▸ hl.2))
    simp at hlen

/-- Every node keeps its parent, or gets one from which following parents comes to an end. -/
theorem of_up (hup : ∀ t, up' t = up t ∨ ∃ l, Path up' (up' t) l none) : Acyclic up' := by
  intro t
  obtain ⟨l, hl⟩ := h t
  induction l generalizing t with
  | nil => cases hl
  | cons x l ih =>
    obtain rfl : t = x := some.inj hl.1
    rcases hup t with ht | ⟨l', hl'⟩
    · cases l with
      | nil => exact ⟨[t], rfl, ht.trans hl.2⟩
      | cons y l =>
        obtain ⟨l', hl'⟩ := ih y (hl.2.1 ▸ hl.2)
        exact ⟨t :: l', rfl, by rwa [ht, hl.2.1]⟩
    · exact ⟨t :: l', rfl, hl'⟩

/-- Some nodes lose their parent. -/
theorem of_remove (hup : ∀ t, up' t = up t ∨ up' t = none) : Acyclic up' :=
  h.of_up fun t => (hup t).imp_right fun ht => ⟨[], ht⟩

/-- Some nodes become children of a root. -/
theorem graft {r : α} (hr : up' r = none)
    (hup : ∀ t, up' t = up t ∨ up' t = some r) : Acyclic up' :=
  h.of_up fun t => (hup t).imp_right fun ht => ⟨[r], ht, hr⟩

/-- A root `t` becomes a child of `p`, which is not below it. -/
theorem link {t p : α} {lp : List α} (hp : Path up (some p) lp none)
    (htp : t ∉ lp) (ht : up' t = some p) (hother : ∀ x, x ≠ t → up' x = up x) : Acyclic up' := by
  refine h.of_up fun x => or_iff_not_imp_left.mpr fun hx => ?_
  obtain rfl : x = t := by_contra fun hxt => hx (hother x hxt)
  rw [ht]
  exact ⟨lp, hp.congr fun y hy => hother y fun hyx => htp (hyx ▸ hy)⟩

end Acyclic

/-- `y` is the parent of `x`. -/
def Parent (up : α → Option α) (x y : α) : Prop := up x = some y

/-- A climb passes every ancestor. -/
theorem mem_of_ancestor {x y : α} (h : Relation.ReflTransGen (Parent up) x y) {l : List α}
    (hl : Path up (some x) l none) : y ∈ l := by
  induction h using Relation.ReflTransGen.head_induction_on generalizing l with
  | refl =>
    cases l with
    | nil => cases hl
    | cons z l =>
      obtain rfl : y = z := some.inj hl.1
      exact mem_cons_self
  | head hxz _ ih =>
    cases l with
    | nil => cases hl
    | cons z l =>
      have hz := some.inj hl.1
      exact mem_cons_of_mem _ (ih (hxz ▸ hz ▸ hl.2))

/-- A climb passes ancestors only. -/
theorem ancestor_of_mem {x y : α} {l : List α} (hl : Path up (some x) l none) (hy : y ∈ l) :
    Relation.ReflTransGen (Parent up) x y := by
  induction l generalizing x with
  | nil => cases hy
  | cons z l ih =>
    obtain rfl : x = z := some.inj hl.1
    rcases mem_cons.mp hy with rfl | hy
    · exact .refl
    · cases l with
      | nil => cases hy
      | cons w l => exact .head hl.2.1 (ih (hl.2.1 ▸ hl.2) hy)

/-- Ancestors are the same where the tasks on the way wait for the same tasks. -/
theorem ancestor_congr {x y : α}
    (hup : ∀ z, Relation.ReflTransGen (Parent up) x z → up' z = up z)
    (h : Relation.ReflTransGen (Parent up) x y) : Relation.ReflTransGen (Parent up') x y := by
  induction h with
  | refl => exact .refl
  | tail hz hy ih => exact ih.tail ((hup _ hz).trans hy)

/-- **No node of a forest is its own ancestor.** -/
theorem Acyclic.irrefl (h : Acyclic up) (x : α) : ¬ Relation.TransGen (Parent up) x x := by
  intro hx
  obtain ⟨y, hxy, hyx⟩ := Relation.TransGen.head'_iff.mp hx
  obtain ⟨l, hl⟩ := h x
  have hnd := hl.nodup
  cases l with
  | nil => cases hl
  | cons z l =>
    obtain rfl : x = z := some.inj hl.1
    exact (nodup_cons.mp hnd).1 (mem_of_ancestor hyx (hxy ▸ hl.2))

/-! ## Settled levels -/

section Levels

variable {own own' : α → Set β} {c c' : α → β} {t p r : α} {v : β} {x : α}

/-- What the level of `t` has to reach: its own demands and the levels of its children. -/
def demands (own : α → Set β) (up : α → Option α) (c : α → β) (t : α) : Set β :=
  own t ∪ c '' { u | up u = some t }

/-- Demands are the same where the own demands, the children and their levels are. -/
theorem demands_congr {u : α} (hown : own' u = own u) (hup : ∀ x, up' x = some u ↔ up x = some u)
    (hc : ∀ x, up x = some u → c' x = c x) : demands own' up' c' u = demands own up c u := by
  unfold demands
  congr 1
  ext b
  constructor
  · rintro ⟨x, hx, rfl⟩
    exact ⟨x, (hup x).mp hx, (hc x ((hup x).mp hx)).symm⟩
  · rintro ⟨x, hx, rfl⟩
    exact ⟨x, (hup x).mpr hx, hc x hx⟩

variable [LinearOrder β]

/-- Every level is the greatest of what it has to reach. -/
def Settled (own : α → Set β) (up : α → Option α) (c : α → β) : Prop :=
  ∀ t, IsGreatest (demands own up c t) (c t)

/-- All levels but that of `t` are settled. -/
def SettledBut (own : α → Set β) (up : α → Option α) (c : α → β) (t : α) : Prop :=
  ∀ u, u ≠ t → IsGreatest (demands own up c u) (c u)

/-- The own demands and the children of `p` alone have changed. -/
theorem Settled.but (h : Settled own up c) (hown : ∀ u, u ≠ p → own' u = own u)
    (hup : ∀ x u, u ≠ p → (up' x = some u ↔ up x = some u)) : SettledBut own' up' c p := by
  intro u hu
  rw [demands_congr (hown u hu) (fun x => hup x u hu) fun _ _ => rfl]
  exact h u

/-- A child's level rises to `v`. -/
theorem isGreatest_raise (h : IsGreatest (demands own up c p) (c p)) (ht : up t = some p)
    (hv : c t ≤ v) (hct : c' t = v) (hother : ∀ u, u ≠ t → c' u = c u) :
    IsGreatest (demands own up c' p) (max (c p) v) := by
  constructor
  · rcases le_total v (c p) with hle | hle
    · rw [max_eq_left hle]
      rcases h.1 with hown | ⟨u, hu, hcu⟩
      · exact .inl hown
      · by_cases hut : u = t
        · subst hut
          exact .inr ⟨u, hu, hct.trans (le_antisymm hle (hcu ▸ hv))⟩
        · exact .inr ⟨u, hu, (hother u hut).trans hcu⟩
    · rw [max_eq_right hle]
      exact .inr ⟨t, ht, hct⟩
  · rintro b (hb | ⟨u, hu, rfl⟩)
    · exact (h.2 (.inl hb)).trans (le_max_left _ _)
    · by_cases hut : u = t
      · rw [hut, hct]
        exact le_max_right _ _
      · rw [hother u hut]
        exact (h.2 (.inr ⟨u, hu, rfl⟩)).trans (le_max_left _ _)

/-- A node becomes a child of `p`. -/
theorem isGreatest_link (h : IsGreatest (demands own up c p) (c p)) (ht : up' t = some p)
    (hother : ∀ u, u ≠ t → up' u = up u) : IsGreatest (demands own up' c p) (max (c p) (c t)) := by
  have hchildren : { u | up' u = some p } = insert t { u | up u = some p } := by
    ext u
    by_cases hu : u = t
    · simp [hu, ht]
    · simp [hu, hother u hu]
  rw [demands, hchildren, Set.image_insert_eq, Set.union_insert, max_comm]
  exact h.insert (c t)

/-! ## Repairing -/

/-- A climb from `t` that gives each node on its way the level it has to reach. It ends at a node
that keeps its level, or at a root. -/
inductive Repairs (own : α → Set β) (up : α → Option α) : α → (α → β) → (α → β) → Prop
  | stop {t : α} {c : α → β} (h : IsGreatest (demands own up c t) (c t)) : Repairs own up t c c
  | root {t : α} {c c' : α → β} (h : IsGreatest (demands own up c t) (c' t))
      (hother : ∀ u, u ≠ t → c' u = c u) (ht : up t = none) : Repairs own up t c c'
  | climb {t p : α} {c c₁ c' : α → β} (h : IsGreatest (demands own up c t) (c₁ t))
      (hother : ∀ u, u ≠ t → c₁ u = c u) (ht : up t = some p) (hrest : Repairs own up p c₁ c') :
      Repairs own up t c c'

/-- One node has been given its level: only its parent may be out of order. -/
theorem SettledBut.repair (h : SettledBut own up c t)
    (ht : IsGreatest (demands own up c t) (c' t)) (hother : ∀ u, u ≠ t → c' u = c u) {u : α}
    (hu : up t ≠ some u) : IsGreatest (demands own up c' u) (c' u) := by
  have hsame : demands own up c' u = demands own up c u := by
    refine demands_congr rfl (fun _ => Iff.rfl) fun x hx => hother x ?_
    rintro rfl
    exact hu hx
  rw [hsame]
  by_cases hut : u = t
  · subst hut
    exact ht
  · rw [hother u hut]
    exact h u hut

/-- **A climb settles all levels.** -/
theorem Repairs.settled (h : Repairs own up t c c') (hbut : SettledBut own up c t) :
    Settled own up c' := by
  induction h with
  | @stop t c h =>
    intro u
    by_cases hu : u = t
    · exact hu ▸ h
    · exact hbut u hu
  | root h hother ht => exact fun u => hbut.repair h hother (by simp [ht])
  | climb h hother ht _ ih =>
    refine ih fun u hu => hbut.repair h hother ?_
    rw [ht]
    exact fun heq => hu (some.inj heq).symm

/-! ## Raising -/

/-- A climb from `x` that raises each node on its way to the level of `x`. It ends at a node that is
high enough, or at a root. -/
inductive Raises [DecidableEq α] (up : α → Option α) : α → (α → β) → (α → β) → Prop
  | stop {x : α} {c : α → β} (h : ∀ p, up x = some p → c x ≤ c p) : Raises up x c c
  | climb {x p : α} {c c' : α → β} (hx : up x = some p) (h : c p < c x)
      (hrest : Raises up p (Function.update c p (c x)) c') : Raises up x c c'

/-- A raise repairs the levels when the parent alone is out of order, and only for the level of
`x`. -/
theorem Raises.repairs [DecidableEq α] (h : Raises up x c c') (hup : Acyclic up)
    (hx : up x = some p) (hbut : SettledBut own up c p)
    (hp : IsGreatest (demands own up c p) (max (c p) (c x))) : Repairs own up p c c' := by
  induction h generalizing p with
  | stop h =>
    rw [max_eq_left (h p hx)] at hp
    exact .stop hp
  | @climb x q c c' hq hlt hrest ih =>
    obtain rfl : q = p := some.inj (hq.symm.trans hx)
    rw [max_eq_right hlt.le] at hp
    have hself : update c q (c x) q = c x := update_self ..
    have hother : ∀ u, u ≠ q → update c q (c x) u = c u := fun u hu =>
      update_of_ne hu ..
    have hp' : IsGreatest (demands own up c q) (update c q (c x) q) := by rwa [hself]
    cases hr : up q with
    | none =>
      cases hrest with
      | stop => exact .root hp' hother hr
      | climb hq' => cases hr.symm.trans hq'
    | some r =>
      have hrq : r ≠ q := fun heq => hup.ne_self q (heq ▸ hr)
      refine .climb hp' hother hr (ih hr (fun u hu => hbut.repair hp' hother ?_) ?_)
      · rw [hr]
        exact fun heq => hu (some.inj heq).symm
      · rw [hself, hother r hrq]
        exact isGreatest_raise (hbut r hrq) hr hlt.le hself hother

/-! ## Covered levels -/

/-- Every level is as high as it has to be. -/
def Covered (own : α → Set β) (up : α → Option α) (c : α → β) : Prop :=
  ∀ t, c t ∈ upperBounds (demands own up c t)

/-- Every level is as high as it has to be, the level of `x` apart that its parent has to reach. -/
def CoveredBut (own : α → Set β) (up : α → Option α) (c : α → β) (x : α) : Prop :=
  (∀ t, ∀ b ∈ own t, b ≤ c t) ∧ ∀ u p, up u = some p → u ≠ x → c u ≤ c p

theorem Settled.covered (h : Settled own up c) : Covered own up c := fun t => (h t).2

theorem covered_iff : Covered own up c ↔
    (∀ t, ∀ b ∈ own t, b ≤ c t) ∧ ∀ u p, up u = some p → c u ≤ c p := by
  constructor
  · intro h
    exact ⟨fun t b hb => h t (.inl hb), fun u p hu => h p (.inr ⟨u, hu, rfl⟩)⟩
  · rintro ⟨hown, hup⟩ t b (hb | ⟨u, hu, rfl⟩)
    · exact hown t b hb
    · exact hup u t hu

/-- Demands and children are lost. -/
theorem Covered.mono (h : Covered own up c) (hown : ∀ t, own' t ⊆ own t)
    (hup : ∀ u p, up' u = some p → up u = some p) : Covered own' up' c := by
  rw [covered_iff] at h ⊢
  exact ⟨fun t b hb => h.1 t b (hown t hb), fun u p hu => h.2 u p (hup u p hu)⟩

/-- A root `r` takes other roots as its children, none of them above the level that it gets for a
new demand `v` of its own. -/
structure Graft (own own' : α → Set β) (up up' : α → Option α) (c c' : α → β) (r : α)
    (v : β) : Prop where
  root : up r = none
  up : ∀ u, up' u = up u ∨ up u = none ∧ u ≠ r ∧ up' u = some r ∧ c u ≤ max (c r) v
  own : own' r = insert v (own r) ∧ ∀ u, u ≠ r → own' u = own u
  level : c' r = max (c r) v ∧ ∀ u, u ≠ r → c' u = c u

theorem Covered.graft (h : Covered own up c) (hg : Graft own own' up up' c c' r v) :
    Covered own' up' c' := by
  rw [covered_iff] at h ⊢
  have hhigh : ∀ u, c u ≤ c' u := by
    intro u
    by_cases hu : u = r
    · rw [hu, hg.level.1]
      exact le_max_left _ _
    · exact (hg.level.2 u hu).ge
  constructor
  · intro t b hb
    by_cases ht : t = r
    · subst ht
      rw [hg.own.1] at hb
      rcases hb with rfl | hb
      · rw [hg.level.1]
        exact le_max_right _ _
      · exact (h.1 t b hb).trans (hhigh t)
    · rw [hg.own.2 t ht] at hb
      exact (h.1 t b hb).trans (hhigh t)
  · intro u p hu
    rcases hg.up u with heq | ⟨-, hur, hr, hle⟩
    · rw [heq] at hu
      have hur : u ≠ r := by
        rintro rfl
        cases hg.root.symm.trans hu
      rw [hg.level.2 u hur]
      exact (h.2 u p hu).trans (hhigh p)
    · obtain rfl : r = p := some.inj (hr.symm.trans hu)
      rwa [hg.level.2 u hur, hg.level.1]

theorem Settled.graft (h : Settled own up c) (hg : Graft own own' up up' c c' r v) :
    Settled own' up' c' := by
  intro u
  refine ⟨?_, h.covered.graft hg u⟩
  -- what gave a node its level is still there
  have hkeep : c u ∈ demands own' up' c' u := by
    rcases (h u).1 with hb | ⟨x, hx, hcx⟩
    · left
      by_cases hu : u = r
      · subst hu
        rw [hg.own.1]
        exact .inr hb
      · rwa [hg.own.2 u hu]
    · right
      refine ⟨x, ?_, (hg.level.2 x ?_).trans hcx⟩
      · exact ((hg.up x).resolve_right fun hroot => by cases hroot.1.symm.trans hx).trans hx
      · rintro rfl
        cases hg.root.symm.trans hx
  by_cases hu : u = r
  · subst hu
    rw [hg.level.1]
    rcases le_total v (c u) with hv | hv
    · rwa [max_eq_left hv]
    · rw [max_eq_right hv]
      exact .inl (hg.own.1 ▸ .inl rfl)
  · rwa [hg.level.2 u hu]

/-- A root gets a parent. -/
theorem Covered.link (h : Covered own up c) (hother : ∀ u, u ≠ t → up' u = up u) :
    CoveredBut own up' c t := by
  rw [covered_iff] at h
  refine ⟨h.1, fun u p hu hut => h.2 u p ?_⟩
  rwa [← hother u hut]

theorem CoveredBut.covered (h : CoveredBut own up c t) (ht : ∀ p, up t = some p → c t ≤ c p) :
    Covered own up c := by
  rw [covered_iff]
  refine ⟨h.1, fun u p hu => ?_⟩
  by_cases hut : u = t
  · subst hut
    exact ht p hu
  · exact h.2 u p hu hut

section Update

variable [DecidableEq α]

/-- A level is lowered, but not below what it has to reach. -/
theorem Covered.lower (h : Covered own up c) (hle : v ≤ c t)
    (hv : v ∈ upperBounds (demands own up c t)) : Covered own up (update c t v) := by
  rw [covered_iff] at h ⊢
  have hlow : update c t v ≤ c := update_le_self_iff.mpr hle
  refine ⟨fun u b hb => ?_, fun u p hu => ?_⟩
  · by_cases hut : u = t
    · subst hut
      rw [update_self]
      exact hv (.inl hb)
    · rw [update_of_ne hut]
      exact h.1 u b hb
  · by_cases hpt : p = t
    · subst hpt
      rw [update_self]
      exact (hlow u).trans (hv (.inr ⟨u, hu, rfl⟩))
    · rw [update_of_ne hpt]
      exact (hlow u).trans (h.2 u p hu)

/-- The level of a root is raised. -/
theorem Covered.raise_root (h : Covered own up c) (ht : up t = none) (hle : c t ≤ v) :
    Covered own up (update c t v) := by
  rw [covered_iff] at h ⊢
  have hhigh : c ≤ update c t v := le_update_self_iff.mpr hle
  refine ⟨fun u b hb => (h.1 u b hb).trans (hhigh u), fun u p hu => ?_⟩
  have hut : u ≠ t := by
    rintro rfl
    cases ht.symm.trans hu
  rw [update_of_ne hut]
  exact (h.2 u p hu).trans (hhigh p)

/-- A parent is raised to the level of its child: its own parent may now be too low. -/
theorem CoveredBut.raise (h : CoveredBut own up c x) (hx : up x = some p)
    (hlt : c p < c x) : CoveredBut own up (update c p (c x)) p := by
  have hhigh : c ≤ update c p (c x) := le_update_self_iff.mpr hlt.le
  refine ⟨fun u b hb => (h.1 u b hb).trans (hhigh u), fun u q hu hup => ?_⟩
  rw [update_of_ne hup]
  by_cases hux : u = x
  · subst hux
    obtain rfl : q = p := some.inj (hu.symm.trans hx)
    rw [update_self]
  · exact (h.2 u q hu hux).trans (hhigh q)

/-- **A raise covers what is to be reached**, and raises ancestors to the level of `x` only. -/
theorem Raises.covered (h : Raises up x c c') (hbut : CoveredBut own up c x) :
    Covered own up c' ∧ ∀ y, c' y = c y ∨
      Relation.TransGen (Parent up) x y ∧ c y < c x ∧ c' y = c x := by
  induction h with
  | stop h => exact ⟨hbut.covered h, fun _ => .inl rfl⟩
  | @climb x p c c' hx hlt hrest ih =>
    obtain ⟨hcov, hraised⟩ := ih (hbut.raise hx hlt)
    refine ⟨hcov, fun y => ?_⟩
    have hself : update c p (c x) p = c x := update_self ..
    rw [hself] at hraised
    by_cases hyp : y = p
    · subst hyp
      right
      refine ⟨.single hx, hlt, ?_⟩
      rcases hraised y with hy | ⟨-, hy, -⟩
      · rw [hy, hself]
      · rw [hself] at hy
        exact absurd hy (lt_irrefl _)
    · rcases hraised y with hy | ⟨hpy, hy, hy'⟩
      · rw [update_of_ne hyp] at hy
        exact .inl hy
      · rw [update_of_ne hyp] at hy
        exact .inr ⟨.head hx hpy, hy, hy'⟩

end Update

/-- A covered level is made what it has to be. -/
theorem Covered.repair [DecidableEq α] (hcov : Covered own up c)
    (h : IsGreatest (demands own up c t) (c' t)) (hother : ∀ u, u ≠ t → c' u = c u) :
    Covered own up c' ∧ ∀ y, c' y ≤ c y := by
  have hle : c' t ≤ c t := hcov t h.1
  have hc' : c' = update c t (c' t) := eq_update_iff.mpr ⟨rfl, hother⟩
  rw [hc']
  exact ⟨hcov.lower hle h.2, update_le_self_iff.mpr hle⟩

/-- **A repair of covered levels** lowers its first node and ancestors of it only. -/
theorem Repairs.covered [DecidableEq α] (h : Repairs own up t c c') (hcov : Covered own up c) :
    Covered own up c' ∧ (∀ y, c' y ≤ c y) ∧
      ∀ y, ¬ Relation.ReflTransGen (Parent up) t y → c' y = c y := by
  induction h with
  | stop => exact ⟨hcov, fun _ => le_rfl, fun _ _ => rfl⟩
  | root h hother ht =>
    obtain ⟨hcov', hle⟩ := hcov.repair h hother
    refine ⟨hcov', hle, fun y hy => hother y ?_⟩
    rintro rfl
    exact hy .refl
  | climb h hother ht _ ih =>
    obtain ⟨hcov₁, hle₁⟩ := hcov.repair h hother
    obtain ⟨hcov', hle', hsame⟩ := ih hcov₁
    refine ⟨hcov', fun y => (hle' y).trans (hle₁ y), fun y hy => ?_⟩
    rw [hsame y fun hpy => hy (.head ht hpy), hother y]
    rintro rfl
    exact hy .refl

end Levels

/-! ## A maximum taken by a loop -/

section Loop

variable [LinearOrder β]

/-- The loop returns the greatest of its initial value and the levels of those nodes of the list
that count. -/
theorem isGreatest_foldl (counts : α → Prop) [DecidablePred counts] (level : α → β)
    {body : β → α → β}
    (hbody : ∀ b x, body b x = if counts x ∧ level x > b then level x else b) (l : List α) (b : β) :
    IsGreatest (insert b (level '' { x | x ∈ l ∧ counts x })) (l.foldl body b) := by
  induction l generalizing b with
  | nil => simp [IsGreatest, upperBounds]
  | cons x l ih =>
    obtain ⟨hmem, hub⟩ := ih (body b x)
    rw [foldl_cons]
    have hstep : b ≤ body b x ∧ (counts x → level x ≤ body b x) ∧
        (body b x = b ∨ counts x ∧ body b x = level x) := by
      rw [hbody]
      split_ifs with h
      · exact ⟨h.2.le, fun _ => le_rfl, .inr ⟨h.1, rfl⟩⟩
      · refine ⟨le_rfl, fun hx => ?_, .inl rfl⟩
        exact not_lt.mp fun hlt => h ⟨hx, hlt⟩
    constructor
    · rcases hmem with hb | ⟨y, ⟨hy, hcy⟩, hlevel⟩
      · rw [hb]
        rcases hstep.2.2 with hsame | ⟨hx, hsame⟩
        · exact .inl hsame
        · exact .inr ⟨x, ⟨mem_cons_self .., hx⟩, hsame.symm⟩
      · exact .inr ⟨y, ⟨mem_cons_of_mem _ hy, hcy⟩, hlevel⟩
    · rintro v (rfl | ⟨y, ⟨hy, hcy⟩, rfl⟩)
      · exact hstep.1.trans (hub (.inl rfl))
      · rcases mem_cons.mp hy with rfl | hy
        · exact (hstep.2.1 hcy).trans (hub (.inl rfl))
        · exact hub (.inr ⟨y, ⟨hy, hcy⟩, rfl⟩)

end Loop

end Inheritance
