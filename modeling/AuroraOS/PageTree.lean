import AuroraOS.PageTable

/-!
# The tree of page tables

The tables of an address space form a tree of the library `Radix`, read off the memory. `Tree` is
the invariant: the pages handed out by the allocator are the tables of the tree, each reached once,
and the pages of others. The manager edits the tree in three ways only: it writes an entry at the
bottom, it links a new table that has no valid entry, and it gives back a table that has none.
-/

namespace AuroraOS

open ByteMem Radix Radix PageTableEntry Function PageAllocator List Multiset Option PageSystem

namespace PageSystem

variable {rest : List Nat} {page u : Nat}

/-- The tables reached from `root`. -/
def tables (s : PageSystem) (root : Nat) : Multiset Nat := Radix.tables child s.entry 3 root

/-- The valid entry at the bottom that the indices lead to. -/
def lookup (s : PageSystem) (root : Nat) (q : Nat → Fin 512) : Option PageTableEntry :=
  (leaf child s.entry 3 root q).filter PageTableEntry.isValid

/-- The pages handed out are the tables of the tree at `root` and the pages of others. -/
structure Tree (lo hi : Nat) (s : PageSystem) (root : Nat) (l others : List Nat) : Prop where
  split : s.Split 8 lo hi l
  width : hi ≤ 2 ^ 48
  out : (s.out : Multiset Nat) = s.tables root + others
  isTable : ∀ t ∈ s.tables root, ∀ i, (s.entry t i).isValid →
    PageTableEntry.isTable.get (s.entry t i) = 1

/-- Every table has a valid entry, the root and `x` apart. -/
def Used (s : PageSystem) (root x : Nat) : Prop :=
  ∀ t ∈ s.tables root, t ≠ root → t ≠ x → ∃ i, (s.entry t i).isValid

/-- The tables that are reached in `s'` are what writing the entry makes of those of `s`. -/
def Edits (root t : Nat) (i : Fin 512) (e : PageTableEntry) (s s' : PageSystem) : Prop :=
  ∀ u ∈ Radix.tables child (Radix.set s.entry t i e) 3 root, s'.entry u = Radix.set s.entry t i e u

variable {lo hi root t k : Nat} {s s' : PageSystem} {l others : List Nat} {p q : Nat → Fin 512}
  {i : Fin 512} {e : PageTableEntry}

theorem Edits.entry (hs : Edits root t i e s s') (hu : u ∈ s'.tables root) :
    s'.entry u = set s.entry t i e u := by
  rw [tables, tables_congr hs] at hu
  exact hs u hu

theorem child_ne_none : child e ≠ none ↔ e.isValid := by
  unfold child
  split_ifs with h <;> simp [h]

theorem child_eq_none : child e = none ↔ e.isValid = false := by
  rw [← Bool.not_eq_true, ← child_ne_none, not_not]

theorem child_zero : child 0 = none := child_eq_none.mpr isValid_zero

theorem tables_of_zero (h : ∀ i, s.entry t i = 0) : s.tables t = {t} :=
  tables_of_bare fun i => (h i).symm ▸ child_zero

theorem isTable_of_zero : isValid 0 → isTable.get 0 = 1 := by
  rw [isValid_zero]
  simp

/-! ## Memory -/

/-- A table depends on the memory of its page only. -/
theorem entry_congr (h : ∀ y, t ≤ y → y < t + pageSize → s'.pages.mem y = s.pages.mem y) :
    s'.entry t = s.entry t := by
  funext i
  unfold entry
  rw [load_congr]
  intro y hy hlt
  apply h y (by omega)
  unfold pageSize
  omega

/-- An entry is read back as it was written, and the other entries of page-aligned tables stay. -/
theorem entry_setEntry {t' : Nat} (s : PageSystem) (i : Fin 512) (e : PageTableEntry)
    (ht : pageSize ∣ t) (ht' : pageSize ∣ t') :
    (s.setEntry t i e).entry t' = set s.entry t i e t' := by
  funext j
  by_cases htt : t' = t
  · subst htt
    rw [set_self]
    by_cases hij : j = i
    · subst hij
      rw [update_self, entry, setEntry, load_store_same,
        Nat.mod_eq_of_lt (show e.toNat < 256 ^ 8 from e.isLt), BitVec.ofNat_toNat]
      exact BitVec.setWidth_eq e
    · rw [update_of_ne hij, entry, setEntry]
      rw [load_store_of_disjoint _ _ (by omega)]
      rfl
  · have hapart := pages_apart ht' ht htt
    unfold pageSize at hapart
    rw [set_of_ne htt, entry, setEntry]
    rw [load_store_of_disjoint _ _ (by omega)]
    rfl

/-- Writing to a page that is handed out leaves the free list alone. -/
theorem Split.setEntry (h : s.Split 8 lo hi l) (ht : t ∈ s.out) (i : Fin 512)
    (e : PageTableEntry) : (s.setEntry t i e).Split 8 lo hi l := by
  refine h.of_perm ?_ h.free rfl (List.Perm.refl _)
  apply path_nextFree_congr (.inr rfl) h.freeList
  intro q hq y hy hlt
  have hne : q ≠ t := (nodup_append.mp h.nodup).2.2 q hq t ht
  have hapart := pages_apart (h.pages q (mem_append_left _ hq)).2.1
    (h.pages t (mem_append_right _ ht)).2.1 hne
  apply store_apply_outside
  unfold pageSize at hapart hlt
  omega

theorem Split.allocPage_cons (h : s.Split 8 lo hi (page :: rest)) :
    s.allocPage.1 = page ∧ s.allocPage.2.out = page :: s.out ∧
      s.allocPage.2.pages.mem = fill s.pages.mem page pageSize 0 := by
  have hhead := h.head_eq
  have hnull : s.pages.freeListHead ≠ 0 := hhead ▸ (h.pages page (by simp)).1.ne'
  subst hhead
  simp only [allocPage, PageOp.exec, PageAllocator.allocPage, if_neg hnull, and_self]

/-- A new page has no valid entry, and the other pages are as they were. -/
theorem entry_allocPage (h : s.Split 8 lo hi (page :: rest)) :
    (∀ i, s.allocPage.2.entry page i = 0) ∧
      ∀ t, pageSize ∣ t → t ≠ page → s.allocPage.2.entry t = s.entry t := by
  obtain ⟨-, -, hmem⟩ := h.allocPage_cons
  constructor
  · intro i
    rw [entry, hmem, load_fill_zero _ (by omega) (by unfold pageSize; omega)]
    rfl
  · intro t ht hne
    apply entry_congr
    intro y hy hlt
    have hapart := pages_apart ht (h.pages page (by simp)).2.1 hne
    rw [hmem, fill_apply, if_neg (by omega)]

/-- Giving back a page leaves the other pages as they were. -/
theorem entry_freePage (hpage : pageSize ∣ page) (ht : pageSize ∣ t)
    (hne : t ≠ page) : (s.freePage page).entry t = s.entry t := by
  have hapart := pages_apart ht hpage hne
  apply entry_congr
  intro y hy hlt
  unfold freePage PageOp.exec PageAllocator.freePage
  dsimp only
  split_ifs
  · rfl
  · apply store_apply_outside
    unfold pageSize at hapart hlt
    omega

/-! ## The tree -/

namespace Tree

section

variable (h : Tree lo hi s root l others)

include h

theorem nodup : (s.tables root).Nodup := by
  have hout : (s.out : Multiset Nat).Nodup := coe_nodup.mpr h.split.nodup.of_append_right
  rw [h.out] at hout
  exact (nodup_add.mp hout).1

section

variable (ht : t ∈ s.tables root)

include ht

theorem mem_out : t ∈ s.out := by
  rw [← mem_coe, h.out]
  exact mem_add.mpr (.inl ht)

theorem isPage : IsPage lo hi t :=
  h.split.pages t (mem_append_right l (h.mem_out ht))

theorem dvd : pageSize ∣ t :=
  (h.isPage ht).2.1

theorem notMem_free : t ∉ l :=
  fun hl => (nodup_append.mp h.split.nodup).2.2 t hl t (h.mem_out ht) rfl

end

/-- The address of a page survives the way through an entry. -/
theorem getAddress_ofTable
    (hpage : IsPage lo hi page) : (PageTableEntry.ofTable page).getAddress = page := by
  have hwidth := h.width
  have hfit := hpage.2.2.2
  have hsize : 0 < pageSize := by decide
  rw [PageTableEntry.getAddress_ofTable hpage.2.1, Nat.mod_eq_of_lt (by omega)]

variable (hp : Leads child s.entry p 3 root k t)

include hp

theorem tables_edit (hne : t ∉ below child s.entry k e) (hs : Edits root t i e s s') :
    s'.tables root + below child s.entry k (s.entry t i) =
      s.tables root + below child s.entry k e := by
  rw [tables, tables_congr hs]
  exact tables_set hp h.nodup i hne

theorem edits_setEntry (i : Fin 512) (hne : t ∉ below child s.entry k e)
    (hpages : ∀ u ∈ below child s.entry k e, pageSize ∣ u) :
    Edits root t i e s (s.setEntry t i e) := by
  intro u hu
  have hmem : u ∈ s.tables root + below child s.entry k e := by
    rw [tables, ← tables_set hp h.nodup i hne]
    exact mem_add.mpr (.inl hu)
  have hdvd : pageSize ∣ u := by
    rcases mem_add.mp hmem with hmem | hmem
    · exact h.dvd hmem
    · exact hpages u hmem
  exact entry_setEntry s i e (h.dvd hp.mem) hdvd

/-- If the tables that are gained have no valid entry, the tree is one again. -/
theorem edit {l' others' : List Nat} (hne : t ∉ below child s.entry k e)
    (hs : Edits root t i e s s') (he : e.isValid → PageTableEntry.isTable.get e = 1)
    (hbare : ∀ u ∈ below child s.entry k e, ∀ j, (s.entry u j).isValid = false)
    (hsplit : s'.Split 8 lo hi l') (hout : (s'.out : Multiset Nat) = s'.tables root + others') :
    Tree lo hi s' root l' others' := by
  refine ⟨hsplit, h.width, hout, fun u hu j hj => ?_⟩
  have hmem : u ∈ s.tables root + below child s.entry k e := by
    rw [← h.tables_edit hp hne hs]
    exact mem_add.mpr (.inl hu)
  have hold : (s.entry u j).isValid → PageTableEntry.isTable.get (s.entry u j) = 1 := by
    intro hv
    rcases mem_add.mp hmem with hmem | hmem
    · exact h.isTable u hmem j hv
    · rw [hbare u hmem j] at hv
      cases hv
  rw [hs.entry hu] at hj ⊢
  by_cases hut : u = t
  · subst hut
    rw [set_self] at hj ⊢
    by_cases hji : j = i
    · subst hji
      rw [update_self] at hj ⊢
      exact he hj
    · rw [update_of_ne hji] at hj ⊢
      exact hold hj
  · rw [set_of_ne hut] at hj ⊢
    exact hold hj

/-- The tables above it on the path are as they were. -/
theorem above_edit (hs : Edits root t i e s s') {j : Nat}
    (hu : Leads child s.entry p 3 root j u) (hj : k < j) :
    Leads child s'.entry p 3 root j u ∧ s'.entry u = s.entry u := by
  have hbelow := hu.of_le hp hj.le
  have hpath := hu.set h.nodup hbelow.mem i e
  refine ⟨hpath.congr hs, ?_⟩
  rw [hs u hpath.mem, set_of_ne (hbelow.ne (nodup_of_le hu.tables_le h.nodup) hj)]

/-- No lookup changes if none finds anything through the entry, before or after. -/
theorem lookup_edit (hne : t ∉ below child s.entry k e) (hs : Edits root t (p k) e s s')
    (hold : ∀ q, (leafBelow child s.entry k (s.entry t (p k)) q).filter isValid = none)
    (hnew : ∀ q, (leafBelow child s.entry k e q).filter isValid = none)
    (q : Nat → Fin 512) : s'.lookup root q = s.lookup root q := by
  rw [lookup, leaf_congr hs q]
  by_cases hq : (∀ l, k < l → l ≤ 3 → q l = p l) ∧ q k = p k
  · rw [leaf_set_of_eq hp h.nodup hne hq.1 hq.2, hnew, lookup, hp.leaf_eq hq.1, leaf_eq, hq.2,
      hold]
  · rw [leaf_set_of_ne hp h.nodup fun hpre heq => hq ⟨hpre, heq⟩]
    rfl

end

theorem write (h : Tree lo hi s root l others) (hp : Leads child s.entry p 3 root 0 t)
    (i : Fin 512) (he : e.isValid → PageTableEntry.isTable.get e = 1) :
    Tree lo hi (s.setEntry t i e) root l others ∧ (s.setEntry t i e).tables root = s.tables root ∧
      Edits root t i e s (s.setEntry t i e) := by
  have hnone : t ∉ below child s.entry 0 e := notMem_zero t
  have hs := h.edits_setEntry hp i hnone fun u hu => absurd hu (notMem_zero u)
  have htables : (s.setEntry t i e).tables root = s.tables root := by
    have hgain := h.tables_edit hp hnone hs
    rwa [below, below, add_zero, add_zero] at hgain
  refine ⟨h.edit hp hnone hs he (fun u hu => absurd hu (notMem_zero u))
    (h.split.setEntry (h.mem_out hp.mem) i e) ?_, htables, hs⟩
  rw [htables]
  exact h.out

theorem alloc (h : Tree lo hi s root (page :: rest) others) :
    Tree lo hi s.allocPage.2 root rest (page :: others) ∧ s.allocPage.1 = page ∧
      s.allocPage.2.tables root = s.tables root ∧
      ∀ t ∈ s.tables root, s.allocPage.2.entry t = s.entry t := by
  obtain ⟨hpage, hout, -⟩ := h.split.allocPage_cons
  have hentry : ∀ t ∈ s.tables root, s.allocPage.2.entry t = s.entry t := by
    intro t ht
    have hne : t ≠ page := by
      rintro rfl
      exact h.notMem_free ht (by simp)
    exact (entry_allocPage h.split).2 t (h.dvd ht) hne
  have htables : s.allocPage.2.tables root = s.tables root := tables_congr hentry
  refine ⟨⟨h.split.alloc_cons (.inr rfl), h.width, ?_, ?_⟩, hpage, htables, hentry⟩
  · rw [hout, htables, ← cons_coe, h.out, ← cons_coe, add_cons]
  · intro t ht i hi
    rw [htables] at ht
    rw [hentry t ht] at hi ⊢
    exact h.isTable t ht i hi

/-! ## Lookups -/

theorem lookup_write_of_eq (h : Tree lo hi s root l others) (hp : Leads child s.entry p 3 root 0 t)
    (he : e.isValid → PageTableEntry.isTable.get e = 1) (hq : ∀ l ≤ 3, q l = p l) :
    (s.setEntry t (p 0) e).lookup root q = if e.isValid then some e else none := by
  rw [lookup, leaf_congr (h.write hp (p 0) he).2.2,
    leaf_set_of_eq hp h.nodup (notMem_zero t) (fun l _ hl => hq l hl) (hq 0 (by omega)),
    leafBelow, filter_some]

theorem lookup_write_of_ne (h : Tree lo hi s root l others) (hp : Leads child s.entry p 3 root 0 t)
    (he : e.isValid → PageTableEntry.isTable.get e = 1) (hq : ¬ ∀ l ≤ 3, q l = p l) :
    (s.setEntry t (p 0) e).lookup root q = s.lookup root q := by
  rw [lookup, leaf_congr (h.write hp (p 0) he).2.2, leaf_set_of_ne hp h.nodup]
  · rfl
  · intro hpre hzero
    apply hq
    intro l hl
    rcases Nat.eq_zero_or_pos l with rfl | hpos
    · exact hzero
    · exact hpre l hpos hl

/-- A table without valid entries has nothing to find. -/
theorem leaf_of_bare (hbare : ∀ j, (s.entry t j).isValid = false) (k : Nat) :
    (leaf child s.entry k t q).filter isValid = none := by
  rw [leaf_eq]
  cases k with
  | zero =>
    rw [leafBelow, filter_some, hbare]
    rfl
  | succ k =>
    rw [leafBelow, child_eq_none.mpr (hbare _)]
    rfl

/-! ## Linking and unlinking a table -/

/-- A page of the others becomes a table. -/
theorem link (h : Tree lo hi s root l (page :: others))
    (hp : Leads child s.entry p 3 root (k + 1) t) (hinv : (s.entry t (p (k + 1))).isValid = false)
    (hbare : ∀ j, s.entry page j = 0) :
    let s' := s.setEntry t (p (k + 1)) (.ofTable page)
    Tree lo hi s' root l others ∧ s'.tables root = page ::ₘ s.tables root ∧
      Leads child s'.entry p 3 root k page ∧ (∀ q, s'.lookup root q = s.lookup root q) ∧
      Edits root t (p (k + 1)) (.ofTable page) s s' := by
  intro s'
  have ht : t ∈ s.tables root := hp.mem
  have hmem : page ∈ s.out := by
    rw [← mem_coe, h.out]
    exact mem_add.mpr (.inr (by simp))
  have hpage : IsPage lo hi page := h.split.pages page (mem_append_right l hmem)
  have hnot : page ∉ s.tables root := by
    intro hin
    have hout : (s.out : Multiset Nat).Nodup :=
      coe_nodup.mpr h.split.nodup.of_append_right
    rw [h.out] at hout
    exact disjoint_left.mp (nodup_add.mp hout).2.2 hin (by simp)
  have hchild : child (ofTable page) = some page := by
    rw [child, if_pos (isValid_ofTable page), h.getAddress_ofTable hpage]
  have hinvalid : ∀ j, (s.entry page j).isValid = false := by
    intro j
    rw [hbare j]
    exact isValid_zero
  have hnew : below child s.entry (k + 1) (.ofTable page) = {page} := by
    rw [below, hchild]
    exact tables_of_bare fun j => child_eq_none.mpr (hinvalid j)
  have hold : below child s.entry (k + 1) (s.entry t (p (k + 1))) = 0 := by
    rw [below, child_eq_none.mpr hinv]
    rfl
  have hne : t ∉ below child s.entry (k + 1) (.ofTable page) := by
    rw [hnew, Multiset.mem_singleton]
    rintro rfl
    exact hnot ht
  have hs : Edits root t (p (k + 1)) (.ofTable page) s s' :=
    h.edits_setEntry hp (p (k + 1)) hne fun u hu => by
      rw [hnew, Multiset.mem_singleton] at hu
      exact hu ▸ hpage.2.1
  have htables : s'.tables root = page ::ₘ s.tables root := by
    have hgain := h.tables_edit hp hne hs
    rwa [hold, hnew, add_zero, add_comm] at hgain
  refine ⟨h.edit hp hne hs (fun _ => isTable_ofTable page) ?_
    (h.split.setEntry (h.mem_out ht) _ _) ?_, htables, ?_, ?_, hs⟩
  · rw [hnew]
    simpa using hinvalid
  · rw [htables]
    change (s.out : Multiset Nat) = _
    rw [h.out, ← cons_coe, add_cons, cons_add]
  · have hpath := (hp.set h.nodup (self_mem_tables _ _ _ _) _ _).congr hs
    refine hpath.down ?_
    rw [hs.entry (htables ▸ mem_cons_of_mem ht), set_self, update_self, hchild]
  · refine h.lookup_edit hp hne hs (fun q => ?_) fun q => ?_
    · rw [leafBelow, child_eq_none.mpr hinv]
      rfl
    · rw [leafBelow, hchild, bind_some, leaf_of_bare hinvalid]

/-- A table without valid entries is given back. -/
theorem unlink (h : Tree lo hi s root l others) (hp : Leads child s.entry p 3 root (k + 1) t)
    {t' : Nat} (hc : child (s.entry t (p (k + 1))) = some t')
    (hbare : ∀ j, (s.entry t' j).isValid = false) :
    let s' := (s.freePage t').setEntry t (p (k + 1)) 0
    Tree lo hi s' root (t' :: l) others ∧ s.tables root = t' ::ₘ s'.tables root ∧
      (∀ q, s'.lookup root q = s.lookup root q) ∧ Edits root t (p (k + 1)) 0 s s' := by
  intro s'
  have ht : t ∈ s.tables root := hp.mem
  have ht' : t' ∈ s.tables root := (hp.down hc).mem
  have hold : below child s.entry (k + 1) (s.entry t (p (k + 1))) = {t'} := by
    rw [below, hc]
    exact tables_of_bare fun j => child_eq_none.mpr (hbare j)
  have hnew : below child s.entry (k + 1) 0 = 0 := by
    rfl
  have hnone : t ∉ below child s.entry (k + 1) 0 := by
    exact notMem_zero t
  have hset : s.tables root =
      t' ::ₘ Radix.tables child (Radix.set s.entry t (p (k + 1)) 0) 3 root := by
    have hlose := tables_set hp h.nodup (p (k + 1)) hnone
    rw [hold, hnew, add_zero, add_comm] at hlose
    exact hlose.symm
  have hnodup := h.nodup
  rw [hset, Multiset.nodup_cons] at hnodup
  have hne : t ≠ t' := by
    have hself := notMem_below (nodup_of_le hp.tables_le h.nodup) (p (k + 1))
    rw [hold, Multiset.mem_singleton] at hself
    exact hself
  -- the page that is given back is not reached any more, so what becomes of it does not matter
  have hs : Edits root t (p (k + 1)) 0 s s' := by
    intro u hu
    have hut' : u ≠ t' := by
      rintro rfl
      exact hnodup.1 hu
    have hmem : u ∈ s.tables root := by
      rw [hset]
      exact mem_cons_of_mem hu
    have hfree : ∀ v ∈ s.tables root, v ≠ t' → (s.freePage t').entry v = s.entry v :=
      fun v hv hvt => entry_freePage (h.dvd ht') (h.dvd hv) hvt
    rw [entry_setEntry _ _ _ (h.dvd ht) (h.dvd hmem)]
    unfold Radix.set
    by_cases hut : u = t
    · subst hut
      rw [update_self, update_self, hfree u ht hne]
    · rw [update_of_ne hut, update_of_ne hut, hfree u hmem hut']
  have htables : s.tables root = t' ::ₘ s'.tables root := by
    rw [hset, tables, tables_congr hs]
  have hout : s'.out = s.out.erase t' := rfl
  refine ⟨h.edit hp hnone hs isTable_of_zero
    (fun u hu => absurd (hnew ▸ hu) (notMem_zero u)) ?_ ?_,
    htables, h.lookup_edit hp hnone hs (fun q => ?_) fun q => ?_, hs⟩
  · refine Split.setEntry (h.split.freeOne (.inr rfl) ?_ (h.mem_out ht')) ?_ _ _
    · exact h.width.trans (by norm_num)
    · exact (List.mem_erase_of_ne hne).mpr (h.mem_out ht)
  · rw [hout, ← Multiset.coe_erase, h.out, htables, Multiset.cons_add, Multiset.erase_cons_head]
  · rw [leafBelow, hc, bind_some, leaf_of_bare hbare]
  · rfl

theorem isEmpty_iff : s.isEmpty t = true ↔ ∀ i, (s.entry t i).isValid = false := by
  simp [isEmpty]

/-- `unmap` has cleared the entries on the path `p` up to the table `t` at level `k`. The tables
above it are as they were. -/
structure Cleared (lo hi root : Nat) (others : List Nat) (p : Nat → Fin 512) (s : PageSystem)
    (k t : Nat) (s' : PageSystem) : Prop where
  tree : ∃ l, Tree lo hi s' root l others
  gone : ∀ q, (∀ l ≤ 3, q l = p l) → s'.lookup root q = none
  other : ∀ q, (¬ ∀ l ≤ 3, q l = p l) → s'.lookup root q = s.lookup root q
  used : s.Used root root → s'.Used root t
  above : ∀ j u, Leads child s.entry p 3 root j u → k < j →
    Leads child s'.entry p 3 root j u ∧ s'.entry u = s.entry u

theorem clear (h : Tree lo hi s root l others) (hp : Leads child s.entry p 3 root 0 t) :
    Cleared lo hi root others p s 0 t (s.setEntry t (p 0) 0) := by
  obtain ⟨htree, htables, hs⟩ := h.write hp (p 0) isTable_of_zero
  refine ⟨⟨l, htree⟩, fun q hq => ?_, fun q => h.lookup_write_of_ne hp isTable_of_zero,
    fun hu u hmem hur hne => ?_,
    fun j u hu hj => h.above_edit hp hs hu hj⟩
  · rw [h.lookup_write_of_eq hp isTable_of_zero hq]
    rfl
  · rw [htables] at hmem
    rw [entry_setEntry _ _ _ (h.dvd hp.mem) (h.dvd hmem), set_of_ne hne]
    exact hu u hmem hur hur

/-- One round of the pruning in `unmap`. -/
theorem Cleared.prune (h : Cleared lo hi root others p s k t s')
    (hp : Leads child s.entry p 3 root (k + 1) u) (hc : child (s.entry u (p (k + 1))) = some t)
    (hempty : s'.isEmpty t) :
    Cleared lo hi root others p s (k + 1) u ((s'.freePage t).setEntry u (p (k + 1)) 0) := by
  obtain ⟨l, htree⟩ := h.tree
  obtain ⟨hp', heq⟩ := h.above (k + 1) u hp (Nat.lt_succ_self k)
  obtain ⟨htree', htables, hlookup, hs⟩ :=
    htree.unlink hp' (by rw [heq, hc]) (isEmpty_iff.mp hempty)
  refine ⟨⟨_, htree'⟩, fun q hq => (hlookup q).trans (h.gone q hq),
    fun q hq => (hlookup q).trans (h.other q hq), fun hu v hv hroot hne => ?_,
    fun j v hv hj => ?_⟩
  · have hmem : v ∈ s'.tables root := by
      rw [htables]
      exact mem_cons_of_mem hv
    have hne' : v ≠ t := by
      rintro rfl
      have hnodup := htree.nodup
      rw [htables, Multiset.nodup_cons] at hnodup
      exact hnodup.1 hv
    rw [hs.entry hv, set_of_ne hne]
    exact h.used hu v hmem hroot hne'
  · obtain ⟨hv', heq'⟩ := h.above j v hv (by omega)
    obtain ⟨hv'', heq''⟩ := htree.above_edit hp' hs hv' hj
    exact ⟨hv'', heq''.trans heq'⟩

/-- With nothing to prune, every table has a valid entry. -/
theorem used_of_not_isEmpty (hused : s.Used root t) (hempty : ¬ s.isEmpty t) :
    s.Used root root := by
  intro u hu hroot _
  by_cases hut : u = t
  · rw [isEmpty_iff, not_forall] at hempty
    obtain ⟨i, hi⟩ := hempty
    exact ⟨i, by rw [hut]; simpa using hi⟩
  · exact hused u hu hroot hut

end Tree

/-! ## The way down of `map` -/

/-- From the table `t` at level `k + 1` to the table `t'` at level `k`, with new tables linked where
there were none. -/
structure Descent (lo hi root : Nat) (others : List Nat) (p : Nat → Fin 512) (k : Nat)
    (s : PageSystem) (l : List Nat) (t : Nat) (s' : PageSystem) (l' : List Nat) (t' : Nat) :
    Prop where
  tree : Tree lo hi s' root l' others
  path : Leads child s'.entry p 3 root k t'
  lookup : ∀ q, s'.lookup root q = s.lookup root q
  used : s.Used root t → s'.Used root t'
  count : l'.length + missing child s.entry (k + 1) t p = l.length + missing child s'.entry k t' p
  stuck : l = [] → s' = s ∧ l' = []

namespace Tree

theorem getOrAllocateNextLevel (h : Tree lo hi s root l others)
    (hp : Leads child s.entry p 3 root (k + 1) t) :
    (l = [] ∧ missing child s.entry (k + 1) t p = k + 1 ∧
        s.getOrAllocateNextLevel t (p (k + 1)) = (0, s)) ∨
      ∃ t' s' l', s.getOrAllocateNextLevel t (p (k + 1)) = (t', s') ∧ t' ≠ 0 ∧
        Descent lo hi root others p k s l t s' l' t' := by
  by_cases hv : (s.entry t (p (k + 1))).isValid
  · -- the table is there already
    have hc : child (s.entry t (p (k + 1))) = some (s.entry t (p (k + 1))).getAddress := if_pos hv
    have hpath := hp.down hc
    refine .inr ⟨_, s, l, ?_, (h.isPage hpath.mem).1.ne', h, hpath, fun _ => rfl, ?_, ?_,
      fun h => ⟨rfl, h⟩⟩
    · rw [PageSystem.getOrAllocateNextLevel, if_pos hv]
    · intro hused u hu hroot _
      by_cases hut : u = t
      · exact ⟨p (k + 1), hut ▸ hv⟩
      · exact hused u hu hroot hut
    · rw [missing, hc, elim_some]
  · have hinv : (s.entry t (p (k + 1))).isValid = false := by simpa using hv
    have hmissing : missing child s.entry (k + 1) t p = k + 1 := by
      rw [missing, child_eq_none.mpr hinv, elim_none]
    cases l with
    | nil =>
      refine .inl ⟨rfl, hmissing, ?_⟩
      have hpage : s.allocPage = (0, s) := by
        rw [allocPage, h.split.alloc_nil, PageAllocator.allocPage, if_pos h.split.head_eq_zero]
      rw [getOrAllocateNextLevel, if_neg hv, hpage]
      rfl
    | cons page rest =>
      obtain ⟨halloc, hpage, htables, hentry⟩ := h.alloc
      have hnull : page ≠ 0 := (h.split.pages page (by simp)).1.ne'
      have hbare := (entry_allocPage h.split).1
      have hp' : Leads child s.allocPage.2.entry p 3 root (k + 1) t := hp.congr hentry
      have hinv' : (s.allocPage.2.entry t (p (k + 1))).isValid = false := by
        rw [hentry t hp.mem, hinv]
      obtain ⟨htree, hlinked, hpath, hlookup, hset⟩ := halloc.link hp' hinv' hbare
      have hpage_ne : page ≠ t := by
        rintro rfl
        exact h.notMem_free hp.mem (by simp)
      have hself := hset.entry (hlinked ▸ mem_cons_self page _)
      rw [set_of_ne hpage_ne] at hself
      refine .inr ⟨page, _, rest, ?_, hnull, htree, hpath, ?_, ?_, ?_, by simp⟩
      · rw [getOrAllocateNextLevel, if_neg hv]
        dsimp only
        rw [hpage, if_neg hnull]
      · intro q
        rw [hlookup, lookup, leaf_congr hentry]
        rfl
      · intro hused u hu hroot hne
        rw [hset.entry hu]
        rw [hlinked] at hu
        have hu' := (mem_cons.mp hu).resolve_left hne
        by_cases hut : u = t
        · refine ⟨p (k + 1), ?_⟩
          rw [hut, set_self, update_self]
          exact isValid_ofTable page
        · rw [htables] at hu'
          rw [set_of_ne hut, hentry u hu']
          exact hused u hu' hroot hut
      · rw [hmissing, missing_of_bare]
        · rw [length_cons]
          omega
        · intro j
          rw [hself, hbare]
          exact child_zero

end Tree

end PageSystem

end AuroraOS
