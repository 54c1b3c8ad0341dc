import AuroraOS.PageTree

/-!
# What the operations of an address space do

For each operation of the manager: it keeps the invariant, and it changes the lookup of the page it
is called for and of no other. `map` succeeds when there are as many free pages as tables are
missing; a `map` that finds some but not enough leaves the tables it has linked without entries.
-/

namespace AuroraOS

open ByteMem Radix PageSystem PageTableEntry MmuManager Option

namespace MmuManager

/-- The tables of the address space. -/
def tables (s : MmuManager) : Multiset Nat := if s.l0Table = 0 then 0 else s.pages.tables s.l0Table

/-- The valid entry at the bottom that an address leads to. -/
def lookup (s : MmuManager) (vaddr : Nat) : Option PageTableEntry :=
  if s.l0Table = 0 then none else s.pages.lookup s.l0Table (tableIndex vaddr)

/-- The number of tables that `map` has to allocate, and how many of them are the root. -/
def needed (s : MmuManager) (vaddr : Nat) : Nat :=
  if s.l0Table = 0 then 4 else Radix.missing child s.pages.entry 3 s.l0Table (tableIndex vaddr)

def rootNeeded (s : MmuManager) : Nat := if s.l0Table = 0 then 1 else 0

/-- The pages handed out are the tables of the address space and the pages of others. -/
structure Inv (lo hi : Nat) (s : MmuManager) (l others : List Nat) : Prop where
  split : s.pages.Split 8 lo hi l
  width : hi ≤ 2 ^ 48
  out : (s.pages.out : Multiset Nat) = s.tables + others
  isTable : ∀ t ∈ s.tables, ∀ i, (s.pages.entry t i).isValid →
    PageTableEntry.isTable.get (s.pages.entry t i) = 1

/-- Every table but the root has a valid entry. -/
def Used (s : MmuManager) : Prop := s.l0Table ≠ 0 → s.pages.Used s.l0Table s.l0Table

variable {lo hi vaddr paddr : Nat} {s : MmuManager} {l others : List Nat} {flags : MapFlags}

theorem Inv.tree (h : s.Inv lo hi l others) (hroot : s.l0Table ≠ 0) :
    Tree lo hi s.pages s.l0Table l others := by
  have htables : s.tables = s.pages.tables s.l0Table := if_neg hroot
  exact ⟨h.split, h.width, htables ▸ h.out, htables ▸ h.isTable⟩

theorem Inv.of_tree {pages : PageSystem} {root : Nat} (hroot : root ≠ 0)
    (h : Tree lo hi pages root l others) : Inv lo hi ⟨pages, root⟩ l others := by
  have htables : tables ⟨pages, root⟩ = pages.tables root := if_neg hroot
  exact ⟨h.split, h.width, htables.symm ▸ h.out, htables.symm ▸ h.isTable⟩

/-- The addresses have the same page, as far as the tables look at them. -/
def SamePage (v w : Nat) : Prop := v / pageSize % 2 ^ 36 = w / pageSize % 2 ^ 36
  deriving Decidable

theorem samePage_iff {v w : Nat} : SamePage v w ↔ ∀ i ≤ 3, tableIndex v i = tableIndex w i := by
  unfold SamePage pageSize
  constructor
  · intro h i hi
    apply Fin.ext
    change v / 2 ^ (12 + 9 * i) % 512 = w / 2 ^ (12 + 9 * i) % 512
    interval_cases i <;> norm_num <;> omega
  · intro h
    have h0 := congrArg Fin.val (h 0 (by omega))
    have h1 := congrArg Fin.val (h 1 (by omega))
    have h2 := congrArg Fin.val (h 2 (by omega))
    have h3 := congrArg Fin.val (h 3 (by omega))
    simp only [tableIndex] at h0 h1 h2 h3
    omega

theorem samePage_iff_of_lt {v w : Nat} (hv : v < 2 ^ 48) (hw : w < 2 ^ 48) :
    SamePage v w ↔ v / pageSize = w / pageSize := by
  unfold SamePage pageSize
  omega

theorem lookup_congr (s : MmuManager) {v w : Nat} (h : SamePage v w) : s.lookup v = s.lookup w := by
  unfold MmuManager.lookup PageSystem.lookup
  rw [leaf_congr_indices (samePage_iff.mp h)]

/-! ## Walking down -/

/-- The tables that a walk finds are those on the path, and it ends at a valid entry. -/
theorem walk_eq_some {l1 l2 l3 : Nat} :
    s.walk vaddr = some (l1, l2, l3) ↔
      child (s.pages.entry s.l0Table (tableIndex vaddr 3)) = some l1 ∧
      child (s.pages.entry l1 (tableIndex vaddr 2)) = some l2 ∧
      child (s.pages.entry l2 (tableIndex vaddr 1)) = some l3 ∧
      (s.pages.entry l3 (tableIndex vaddr 0)).isValid := by
  simp only [walk, bind_eq_bind, bind_eq_some_iff, ite_none_right_eq_some,
    some.injEq, Prod.mk.injEq]
  constructor
  · rintro ⟨_, h1, _, h2, _, h3, hv, rfl, rfl, rfl⟩
    exact ⟨h1, h2, h3, hv⟩
  · rintro ⟨h1, h2, h3, hv⟩
    exact ⟨l1, h1, l2, h2, l3, h3, hv, rfl, rfl, rfl⟩

theorem path_of_walk {l1 l2 l3 : Nat} (h : s.walk vaddr = some (l1, l2, l3)) :
    Leads child s.pages.entry (tableIndex vaddr) 3 s.l0Table 2 l1 ∧
      Leads child s.pages.entry (tableIndex vaddr) 3 s.l0Table 1 l2 ∧
      Leads child s.pages.entry (tableIndex vaddr) 3 s.l0Table 0 l3 := by
  obtain ⟨h1, h2, h3, -⟩ := walk_eq_some.mp h
  have hp1 := (Leads.refl 3 s.l0Table).down h1
  have hp2 := hp1.down h2
  exact ⟨hp1, hp2, hp2.down h3⟩

/-- A walk finds the entry that the lookup finds. -/
theorem lookup_eq_walk (vaddr : Nat) (hroot : s.l0Table ≠ 0) :
    s.lookup vaddr =
      (s.walk vaddr).map fun w => s.pages.entry w.2.2 (tableIndex vaddr 0) := by
  rw [lookup, if_neg hroot]
  cases hw : s.walk vaddr with
  | some w =>
    have hp := (path_of_walk hw).2.2
    obtain ⟨-, -, -, hv⟩ := walk_eq_some.mp hw
    rw [PageSystem.lookup, hp.leaf_eq fun _ _ _ => rfl, Radix.leaf_eq, leafBelow,
      filter_some, if_pos hv]
    rfl
  | none =>
    rw [PageSystem.lookup, Option.map_none, Option.filter_eq_none_iff]
    intro e he
    by_contra hv
    rw [leaf_eq, leafBelow, bind_eq_some_iff] at he
    obtain ⟨l1, h1, he⟩ := he
    rw [leaf_eq, leafBelow, bind_eq_some_iff] at he
    obtain ⟨l2, h2, he⟩ := he
    rw [leaf_eq, leafBelow, bind_eq_some_iff] at he
    obtain ⟨l3, h3, he⟩ := he
    rw [leaf_eq, leafBelow, some.injEq] at he
    subst he
    have := walk_eq_some.mpr ⟨h1, h2, h3, hv⟩
    rw [hw] at this
    cases this

/-- **`translate` reads off the entry that the address leads to.** -/
theorem translate_eq (s : MmuManager) (vaddr : Nat) :
    s.translate vaddr =
      (s.lookup vaddr).map fun e =>
        (e.getAddress ||| vaddr % pageSize, PageTableEntry.flags e) := by
  unfold translate
  by_cases hroot : s.l0Table = 0
  · rw [if_pos hroot, lookup, if_pos hroot]
    rfl
  · rw [if_neg hroot, lookup_eq_walk vaddr hroot]
    cases s.walk vaddr <;> rfl

/-- `unmap` and `protect` end at once, or they find a valid entry. -/
theorem finds (s : MmuManager) (vaddr : Nat) :
    (¬(vaddr % pageSize = 0 ∧ (s.lookup vaddr).isSome) ∧ s.unmap vaddr = (false, s) ∧
        ∀ flags, s.protect vaddr flags = (false, s)) ∨
      (vaddr % pageSize = 0 ∧ (s.lookup vaddr).isSome) ∧
        ¬(vaddr % pageSize ≠ 0 ∨ s.l0Table = 0) ∧ ∃ l1 l2 l3, s.walk vaddr = some (l1, l2, l3) := by
  by_cases hstop : vaddr % pageSize ≠ 0 ∨ s.l0Table = 0
  · refine .inl ⟨?_, if_pos hstop, fun _ => if_pos hstop⟩
    rintro ⟨halign, hfound⟩
    rw [lookup, if_pos (hstop.resolve_left (not_not.mpr halign))] at hfound
    cases hfound
  · obtain ⟨halign, hroot⟩ := not_or.mp hstop
    rw [lookup_eq_walk vaddr hroot]
    cases hw : s.walk vaddr with
    | none =>
      refine .inl ⟨by simp, ?_, fun _ => ?_⟩
      · rw [unmap, if_neg hstop, hw]
      · rw [protect, if_neg hstop, hw]
    | some w => exact .inr ⟨⟨not_not.mp halign, rfl⟩, hstop, w.1, w.2.1, w.2.2, rfl⟩

/-- A valid entry is written at the bottom. -/
theorem writeBottom {pages : PageSystem} {root t : Nat} {e : PageTableEntry} (hroot : root ≠ 0)
    (h : Tree lo hi pages root l others)
    (hp : Leads child pages.entry (tableIndex vaddr) 3 root 0 t) (hv : e.isValid)
    (he : isTable.get e = 1) :
    let s' : MmuManager := ⟨pages.setEntry t (tableIndex vaddr 0) e, root⟩
    s'.Inv lo hi l others ∧
      (∀ v, s'.lookup v = if SamePage v vaddr then some e else pages.lookup root (tableIndex v)) ∧
      (pages.Used root t → s'.Used) := by
  obtain ⟨htree, htables, -⟩ := h.write hp (tableIndex vaddr 0) fun _ => he
  refine ⟨.of_tree hroot htree, fun v => ?_, fun hu _ u hmem hur _ => ?_⟩
  · rw [lookup, if_neg hroot]
    split_ifs with hvv
    · rw [h.lookup_write_of_eq hp (fun _ => he) (samePage_iff.mp hvv), if_pos hv]
    · exact h.lookup_write_of_ne hp (fun _ => he) (mt samePage_iff.mpr hvv)
  · rw [htables] at hmem
    rw [entry_setEntry _ _ _ (h.dvd hp.mem) (h.dvd hmem)]
    by_cases hut : u = t
    · refine ⟨tableIndex vaddr 0, ?_⟩
      rw [hut, set_self, Function.update_self]
      exact hv
    · rw [set_of_ne hut]
      exact hu u hmem hur hut

/-! ## `map` -/

section Descend

variable {root k t : Nat} {pages : PageSystem}

/-- **The way down.** With enough free pages it ends at the bottom. Otherwise the free pages are
used up. -/
theorem descend_spec (vaddr : Nat) (h : Tree lo hi pages root l others)
    (hp : Leads child pages.entry (tableIndex vaddr) 3 root k t) :
    ∃ t' pages' l', descend vaddr k pages t = (t', pages') ∧ Tree lo hi pages' root l' others ∧
      (∀ q, pages'.lookup root q = pages.lookup root q) ∧
      (missing child pages.entry k t (tableIndex vaddr) ≤ l.length ∧ t' ≠ 0 ∧
          Leads child pages'.entry (tableIndex vaddr) 3 root 0 t' ∧
          (pages.Used root t → pages'.Used root t') ∧
          l'.length + missing child pages.entry k t (tableIndex vaddr) = l.length ∨
        l.length < missing child pages.entry k t (tableIndex vaddr) ∧ t' = 0 ∧ l' = [] ∧
          (l = [] → pages' = pages)) := by
  induction k generalizing pages l t with
  | zero =>
    refine ⟨t, pages, l, rfl, h, fun _ => rfl, .inl ?_⟩
    exact ⟨Nat.zero_le _, (h.isPage hp.mem).1.ne', hp, id, rfl⟩
  | succ k ih =>
    rcases h.getOrAllocateNextLevel hp with ⟨rfl, hmissing, heq⟩ | ⟨t', pages', l', heq, hne, hd⟩
    · refine ⟨0, pages, [], ?_, h, fun _ => rfl, .inr ⟨?_, rfl, rfl, fun _ => rfl⟩⟩
      · rw [descend, heq]
        rfl
      · rw [hmissing]
        exact Nat.succ_pos k
    · obtain ⟨t'', pages'', l'', hres, htree, hlookup, hend⟩ := ih hd.tree hd.path
      have hcount := hd.count
      refine ⟨t'', pages'', l'', ?_, htree, fun q => (hlookup q).trans (hd.lookup q), ?_⟩
      · rw [descend, heq]
        dsimp only
        rw [if_neg hne, hres]
      · rcases hend with ⟨hle, hne', hpath, hused, hlen⟩ | ⟨hlt, hnull, hused, hsame⟩
        · exact .inl ⟨by omega, hne', hpath, fun hu => hused (hd.used hu), by omega⟩
        · refine .inr ⟨by omega, hnull, hused, ?_⟩
          intro hnil
          obtain ⟨rfl, rfl⟩ := hd.stuck hnil
          exact hsame rfl

end Descend

/-- The addresses that `map` accepts. -/
def Aligned (vaddr paddr : Nat) : Prop := vaddr % pageSize = 0 ∧ paddr % pageSize = 0
  deriving Decidable

theorem aligned_iff : ¬(vaddr % pageSize ≠ 0 ∨ paddr % pageSize ≠ 0) ↔ Aligned vaddr paddr := by
  unfold Aligned
  tauto

/-- `map` links some of the tables that it needs and then runs out of pages. `free` is the number of
free pages. -/
def HalfBuilt (s : MmuManager) (vaddr paddr free : Nat) : Prop :=
  Aligned vaddr paddr ∧ s.rootNeeded < free ∧ free < s.needed vaddr

/-- What a call of `map` does, `l` being the free pages before it and `l'` those after it. -/
structure Maps (lo hi : Nat) (others : List Nat) (s : MmuManager) (l : List Nat)
    (vaddr paddr : Nat) (flags : MapFlags) (r : Bool) (s' : MmuManager) (l' : List Nat) : Prop where
  inv : s'.Inv lo hi l' others
  result : r = true ↔ Aligned vaddr paddr ∧ s.needed vaddr ≤ l.length
  lookup : ∀ v, s'.lookup v =
    if r = true ∧ SamePage v vaddr then some (PageTableEntry.ofPage paddr flags) else s.lookup v
  used : ¬ s.HalfBuilt vaddr paddr l.length → s.Used → s'.Used
  count : r = true → l'.length + s.needed vaddr = l.length
  exhausted : Aligned vaddr paddr → l.length < s.needed vaddr → l' = []

theorem Inv.map_of_root (h : s.Inv lo hi l others) (hroot : s.l0Table ≠ 0)
    (halign : Aligned vaddr paddr) (flags : MapFlags) :
    ∃ r s' l', s.map vaddr paddr flags = (r, s') ∧
      Maps lo hi others s l vaddr paddr flags r s' l' := by
  obtain ⟨t, pages, l', hres, htree, hlookup, hend⟩ :=
    descend_spec vaddr (h.tree hroot) (.refl 3 s.l0Table)
  have hneeded : s.needed vaddr =
      missing child s.pages.entry 3 s.l0Table (tableIndex vaddr) := if_neg hroot
  have hrootNeeded : s.rootNeeded = 0 := if_neg hroot
  have hmap : s.map vaddr paddr flags =
      if t = 0 then (false, ⟨pages, s.l0Table⟩)
      else (true, ⟨pages.setEntry t (tableIndex vaddr 0) (.ofPage paddr flags), s.l0Table⟩) := by
    rw [map, if_neg (aligned_iff.mpr halign), if_neg hroot]
    dsimp only
    rw [if_neg hroot, hres]
  rw [← hneeded] at hend
  rcases hend with ⟨hle, hne, hpath, hused, hlen⟩ | ⟨hlt, rfl, rfl, hsame⟩
  · obtain ⟨hinv, hfound, hused'⟩ := writeBottom hroot htree hpath
      (isValid_ofPage paddr flags) (isTable_ofPage paddr flags)
    refine ⟨true, _, l', by rw [hmap, if_neg hne], hinv, ?_, ?_, fun _ hu => hused'
      (hused (hu hroot)),
      fun _ => hlen, fun _ hlt => absurd hle (by omega)⟩
    · simp [halign, hle]
    · intro v
      rw [hfound, hlookup, lookup, if_neg hroot]
      simp
  · refine ⟨false, _, [], by rw [hmap, if_pos rfl], .of_tree hroot htree, ?_, ?_, ?_, by simp,
      fun _ _ => rfl⟩
    · simp only [Bool.false_eq_true, false_iff]
      omega
    · intro v
      unfold lookup
      rw [if_neg hroot, if_neg hroot, hlookup]
      simp
    · intro hhalf hu
      have hnil : l = [] := by
        by_contra hne
        exact hhalf ⟨halign, by rw [hrootNeeded]; exact List.length_pos_iff.mpr hne, hlt⟩
      rw [hsame hnil]
      exact hu

variable {pages : PageSystem}

theorem newRoot {page : Nat} {rest : List Nat} (h : pages.Split 8 lo hi (page :: rest))
    (hwidth : hi ≤ 2 ^ 48) :
    pages.allocPage.1 = page ∧ page ≠ 0 ∧ Tree lo hi pages.allocPage.2 page rest pages.out ∧
      ∀ i, pages.allocPage.2.entry page i = 0 := by
  obtain ⟨hpage, hout, -⟩ := h.allocPage_cons
  have hbare := (entry_allocPage h).1
  have htables := tables_of_zero hbare
  refine ⟨hpage, (h.pages page (by simp)).1.ne', ⟨h.alloc_cons (.inr rfl), hwidth, ?_, ?_⟩, hbare⟩
  · rw [hout, htables, ← Multiset.cons_coe, Multiset.singleton_add]
  · intro t ht i hv
    rw [htables, Multiset.mem_singleton] at ht
    rw [ht, hbare i] at hv
    cases hv

theorem allocPage_of_nil (h : pages.Split 8 lo hi []) : pages.allocPage = (0, pages) := by
  rw [allocPage, h.alloc_nil, PageAllocator.allocPage, if_pos h.head_eq_zero]

/-- An address space whose only table is a root without entries. -/
theorem used_of_bare {root : Nat} (h : ∀ i, pages.entry root i = 0) : Used ⟨pages, root⟩ := by
  intro _ u hu hne _
  rw [tables_of_zero h, Multiset.mem_singleton] at hu
  exact absurd hu hne

theorem lookup_of_bare {root : Nat} (h : ∀ i, pages.entry root i = 0) (v : Nat) :
    lookup ⟨pages, root⟩ v = none := by
  have hinvalid : ∀ i, (pages.entry root i).isValid = false := by
    intro i
    rw [h i]
    exact isValid_zero
  unfold MmuManager.lookup PageSystem.lookup
  rw [Tree.leaf_of_bare hinvalid, ite_self]

/-- **What `map` does.** -/
theorem Inv.map (h : s.Inv lo hi l others) (vaddr paddr : Nat) (flags : MapFlags) :
    ∃ r s' l', s.map vaddr paddr flags = (r, s') ∧
      Maps lo hi others s l vaddr paddr flags r s' l' := by
  by_cases halign : Aligned vaddr paddr
  swap
  · refine ⟨false, s, l, ?_, h, ?_, ?_, fun _ => id, by simp, fun ha => absurd ha halign⟩
    · rw [MmuManager.map, if_pos (not_not.mp (mt aligned_iff.mp halign))]
    · simp [halign]
    · simp
  by_cases hroot : s.l0Table = 0
  swap
  · exact h.map_of_root hroot halign flags
  have hs : s = ⟨s.pages, 0⟩ := by
    rw [← hroot]
  have hlookup : ∀ v, s.lookup v = none := fun v => if_pos hroot
  have hneeded : s.needed vaddr = 4 := if_pos hroot
  cases l with
  | nil =>
    refine ⟨false, s, [], ?_, h, ?_, ?_, fun _ => id, by simp, fun _ _ => rfl⟩
    · rw [map, if_neg (aligned_iff.mpr halign), if_pos hroot, allocPage_of_nil h.split]
      dsimp only
      rw [if_pos rfl, ← hs]
    · simp [hneeded]
    · simp
  | cons page rest =>
    obtain ⟨hpage, hnull, htree, hbare⟩ := newRoot h.split h.width
    have hothers : (s.pages.out : Multiset Nat) = others := by
      have htables : s.tables = 0 := if_pos hroot
      rw [h.out, htables, zero_add]
    have htree' : Tree lo hi s.pages.allocPage.2 page rest others :=
      ⟨htree.split, htree.width, by rw [htree.out, hothers], htree.isTable⟩
    obtain ⟨r, s', l', hmap, hmaps⟩ := (Inv.of_tree hnull htree').map_of_root hnull halign flags
    have hrest : needed ⟨s.pages.allocPage.2, page⟩ vaddr = 3 := by
      unfold needed
      rw [if_neg hnull]
      apply missing_of_bare
      intro i
      rw [hbare i]
      exact child_zero
    have hresult := hmaps.result
    refine ⟨r, s', l', ?_, hmaps.inv, ?_, ?_, ?_, ?_, ?_⟩
    · rw [← hmap]
      unfold map
      rw [if_neg (aligned_iff.mpr halign), if_neg (aligned_iff.mpr halign), if_pos hroot,
        if_neg hnull, ← hpage]
    · rw [hresult, List.length_cons]
      exact and_congr_right fun _ => by omega
    · intro v
      rw [hmaps.lookup, hlookup, lookup_of_bare hbare]
    · intro hhalf _
      apply hmaps.used _ (used_of_bare hbare)
      rintro ⟨_, hlt, hlt'⟩
      have hone : s.rootNeeded = 1 := if_pos hroot
      exact hhalf ⟨halign, by rw [List.length_cons]; omega,
        by rw [List.length_cons]; omega⟩
    · intro hr
      have hcount := hmaps.count hr
      rw [List.length_cons]
      omega
    · intro _ hlt
      rw [List.length_cons] at hlt
      exact hmaps.exhausted halign (by rw [hrest]; omega)

/-! ## `unmap` and `protect` -/

/-- What a call of `unmap` or `protect` does: the entry of the page becomes what `f` says. -/
structure Replaces (lo hi : Nat) (others : List Nat) (s : MmuManager) (vaddr : Nat)
    (f : Option PageTableEntry → Option PageTableEntry) (r : Bool) (s' : MmuManager)
    (l' : List Nat) : Prop where
  inv : s'.Inv lo hi l' others
  result : r = true ↔ vaddr % pageSize = 0 ∧ (s.lookup vaddr).isSome
  lookup : ∀ v, s'.lookup v = if r = true ∧ SamePage v vaddr then f (s.lookup v) else s.lookup v
  used : s.Used → s'.Used

theorem Inv.unmap (h : s.Inv lo hi l others) (vaddr : Nat) :
    ∃ r s' l', s.unmap vaddr = (r, s') ∧ Replaces lo hi others s vaddr (fun _ => none) r s' l' := by
  obtain ⟨hnone, heq, -⟩ | ⟨hfound, hgo, l1, l2, l3, hw⟩ := s.finds vaddr
  · exact ⟨false, s, l, heq, h, by simp [hnone], by simp, id⟩
  have hroot : s.l0Table ≠ 0 := (not_or.mp hgo).2
  obtain ⟨hp1, hp2, hp3⟩ := path_of_walk hw
  obtain ⟨h1, h2, h3, -⟩ := walk_eq_some.mp hw
  -- what is left of an argument for each of the four ends of the pruning
  have hend : ∀ {k t : Nat} {pages : PageSystem},
      Tree.Cleared lo hi s.l0Table others (tableIndex vaddr) s.pages k t pages →
      (pages.Used s.l0Table t → pages.Used s.l0Table s.l0Table) →
      ∃ r s' l', (true, MmuManager.mk pages s.l0Table) = (r, s') ∧
        Replaces lo hi others s vaddr (fun _ => none) r s' l' := by
    intro k t pages hc hused
    obtain ⟨l', htree⟩ := hc.tree
    refine ⟨true, _, l', rfl, .of_tree hroot htree, by simp [hfound], fun v => ?_,
      fun hu _ => hused (hc.used (hu hroot))⟩
    unfold lookup
    rw [if_neg hroot, if_neg hroot]
    split_ifs with hv
    · exact hc.gone _ (samePage_iff.mp hv.2)
    · exact hc.other _ fun hq => hv ⟨rfl, samePage_iff.mpr hq⟩
  have hc := (h.tree hroot).clear hp3
  rw [MmuManager.unmap, if_neg hgo, hw]
  dsimp only
  split_ifs with he3 he2 he1
  · exact hend (((hc.prune hp2 h3 he3).prune hp1 h2 he2).prune (.refl 3 _) h1 he1) id
  · exact hend ((hc.prune hp2 h3 he3).prune hp1 h2 he2) fun hu => Tree.used_of_not_isEmpty hu he1
  · exact hend (hc.prune hp2 h3 he3) fun hu => Tree.used_of_not_isEmpty hu he2
  · exact hend hc fun hu => Tree.used_of_not_isEmpty hu he3

theorem Inv.protect (h : s.Inv lo hi l others) (vaddr : Nat) (flags : MapFlags) :
    ∃ r s', s.protect vaddr flags = (r, s') ∧
      Replaces lo hi others s vaddr (Option.map (·.setAttributes flags)) r s' l := by
  obtain ⟨hnone, -, heq⟩ | ⟨hfound, hgo, l1, l2, l3, hw⟩ := s.finds vaddr
  · exact ⟨false, s, heq flags, h, by simp [hnone], by simp, id⟩
  have hroot : s.l0Table ≠ 0 := (not_or.mp hgo).2
  have hlookup := lookup_eq_walk vaddr hroot
  rw [hw, map_some] at hlookup
  have hp := (path_of_walk hw).2.2
  obtain ⟨-, -, -, hv⟩ := walk_eq_some.mp hw
  obtain ⟨hinv, hother, hused⟩ := writeBottom hroot (h.tree hroot) hp
    ((isValid_setAttributes (s.pages.entry l3 (tableIndex vaddr 0)) flags).trans hv)
    (by
      rw [isTable_setAttributes]
      exact (h.tree hroot).isTable l3 hp.mem _ hv)
  refine ⟨true, _, by rw [MmuManager.protect, if_neg hgo, hw], hinv, by simp [hfound], fun v => ?_,
    fun hu => hused fun u hmem hur _ => hu hroot u hmem hur hur⟩
  rw [hother]
  by_cases hvv : SamePage v vaddr
  · rw [if_pos hvv, if_pos ⟨rfl, hvv⟩, s.lookup_congr hvv, hlookup, map_some]
  · rw [if_neg hvv, if_neg fun h => hvv h.2, lookup, if_neg hroot]

end MmuManager

end AuroraOS
