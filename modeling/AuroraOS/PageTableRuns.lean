import AuroraOS.PageTableOps

/-!
# Address spaces over time

Runs of one address space, in which others take pages from the allocator, give them back and write
to them at any time.

* `translate_refines`: an address space is a finite map. What `translate` finds is what the last
  successful `map` of the page gave, with the flags of the last `protect`.
* `tables_owned`: the pages taken for the address space are its tables, each reached once, and all
  of them are given back once when it is destroyed or overwritten. If no `map` runs out of pages
  half way, an address space in which nothing is mapped has no table but its root.
-/

namespace AuroraOS

open ByteMem Radix PageSystem Multiset MmuManager PageTableEntry PageAllocator Option

/-! ## Giving back a tree -/

namespace PageSystem

variable {lo hi t : Nat} {s s₁ s₂ : PageSystem} {l l₁ l₂ : List Nat} {X X₁ X₂ : Multiset Nat}

/-- The pages `X` are given back, each once, and no other page is written to. -/
structure Frees (lo hi : Nat) (s : PageSystem) (l : List Nat) (s' : PageSystem) (l' : List Nat)
    (X : Multiset Nat) : Prop where
  split : s'.Split 8 lo hi l'
  free : (l' : Multiset Nat) = X + l
  out : (s.out : Multiset Nat) = X + s'.out
  frame : ∀ y, (∀ p ∈ X, y < p ∨ p + pageSize ≤ y) → s'.pages.mem y = s.pages.mem y

namespace Frees

theorem refl (h : s.Split 8 lo hi l) : Frees lo hi s l s l 0 :=
  ⟨h, (zero_add _).symm, (zero_add _).symm, fun _ _ => rfl⟩

theorem trans (h₁ : Frees lo hi s l s₁ l₁ X₁) (h₂ : Frees lo hi s₁ l₁ s₂ l₂ X₂) :
    Frees lo hi s l s₂ l₂ (X₁ + X₂) where
  split := h₂.split
  free := by rw [h₂.free, h₁.free, ← add_assoc, add_comm X₂]
  out := by rw [h₁.out, h₂.out, add_assoc]
  frame y hy := by
    rw [h₂.frame y fun p hp => hy p (mem_add.mpr (.inr hp)),
      h₁.frame y fun p hp => hy p (mem_add.mpr (.inl hp))]

theorem freePage (hhi : hi ≤ 2 ^ 48) (h : s.Split 8 lo hi l) (ht : t ∈ s.out) :
    Frees lo hi s l (s.freePage t) (t :: l) {t} where
  split := h.freeOne (.inr rfl) (hhi.trans (by norm_num)) ht
  free := by rw [← cons_coe, singleton_add]
  out := by
    change _ = {t} + ((s.out.erase t : List Nat) : Multiset Nat)
    rw [← coe_erase, singleton_add, cons_erase (mem_coe.mpr ht)]
  frame y hy := by
    have hy := hy t (mem_singleton_self t)
    have hnull : t ≠ 0 := (h.pages t (List.mem_append_right l ht)).1.ne'
    unfold PageSystem.freePage PageOp.exec PageAllocator.freePage
    dsimp only
    rw [if_neg hnull]
    apply store_apply_outside
    unfold pageSize at hy
    omega

theorem mem_out (h : Frees lo hi s l s₁ l₁ X) {p : Nat} (hp : p ∈ X) : p ∈ s.out := by
  rw [← mem_coe, h.out]
  exact mem_add.mpr (.inl hp)

/-- The tables that are not given back are as they were. -/
theorem entry (hs : s.Split 8 lo hi l) (h : Frees lo hi s l s₁ l₁ X) (ht : pageSize ∣ t)
    (hX : t ∉ X) : s₁.entry t = s.entry t := by
  apply entry_congr
  intro y hy hlt
  apply h.frame
  intro p hp
  have hdvd := (hs.pages p (List.mem_append_right l (h.mem_out hp))).2.1
  have hapart := pages_apart ht hdvd (by rintro rfl; exact hX hp)
  omega

end Frees

/-- `free_table_recursive` gives back all the tables of a tree of `n` levels, each once. -/
def FreesTables (lo hi n : Nat) : Prop :=
  ∀ (s : PageSystem) (l : List Nat) (t : Nat), s.Split 8 lo hi l →
    Radix.tables child s.entry n t ≤ s.out →
    (∀ u ∈ Radix.tables child s.entry n t, ∀ i, (s.entry u i).isValid →
      PageTableEntry.isTable.get (s.entry u i) = 1) →
    ∃ l', Frees lo hi s l (freeTableRecursive n s t) l' (Radix.tables child s.entry n t)

/-- The loop of `free_table_recursive` over the entries `is` of the table `t`, where the calls do
what they should. The entries are `f t`, and the tables below them are as in `f`. -/
theorem freeLoop_frees {n : Nat} {f : Nat → Fin 512 → PageTableEntry} (hrec : FreesTables lo hi n)
    (is : List (Fin 512)) (h : s.Split 8 lo hi l)
    (hagree : ∀ u ∈ t ::ₘ (is.map fun i => below child f (n + 1) (f t i)).sum, s.entry u = f u ∧
      ∀ i, (f u i).isValid → isTable.get (f u i) = 1)
    (hle : t ::ₘ (is.map fun i => below child f (n + 1) (f t i)).sum ≤ s.out) :
    ∃ l', Frees lo hi s l
      (is.foldl (fun s i =>
        let e : PageTableEntry := s.entry t i
        if e.isValid ∧ isTable.get e = 1 then freeTableRecursive n s e.getAddress
        else s) s) l'
      (is.map fun i => below child f (n + 1) (f t i)).sum := by
  induction is generalizing s l with
  | nil => exact ⟨l, .refl h⟩
  | cons i is ih =>
    obtain ⟨hself, htable⟩ := hagree t (mem_cons_self t _)
    rw [List.map_cons, List.sum_cons] at hagree hle ⊢
    rw [List.foldl_cons, hself]
    by_cases hv : (f t i).isValid
    · have hc : child (f t i) = some (getAddress (f t i)) := if_pos hv
      have hbelow : below child f (n + 1) (f t i) =
          Radix.tables child f n (getAddress (f t i)) := by rw [below, hc]; rfl
      rw [hbelow] at hagree hle ⊢
      have hsame : ∀ v ∈ Radix.tables child f n (getAddress (f t i)),
          s.entry v = f v ∧ ∀ j, (f v j).isValid → isTable.get (f v j) = 1 :=
        fun v hv => hagree v (mem_cons_of_mem (mem_add.mpr (.inl hv)))
      have htables := tables_congr fun v hv => (hsame v hv).1
      obtain ⟨l₁, h₁⟩ := hrec s l (getAddress (f t i)) h
        (by
          rw [htables]
          exact (le_add_right _ _).trans ((le_cons_self _ t).trans hle))
        (by
          rw [htables]
          intro v hv
          rw [(hsame v hv).1]
          exact (hsame v hv).2)
      rw [htables] at h₁
      -- what is left of the tree is not among the tables that the call gave back
      have hnodup : (s.out : Multiset Nat).Nodup := coe_nodup.mpr h.nodup.of_append_right
      rw [← add_cons] at hagree hle
      have hdisj := (nodup_add.mp (nodup_of_le hle hnodup)).2.2
      obtain ⟨l₂, h₂⟩ := ih h₁.split
        (by
          intro u hu
          have hmem : u ∈ s.out := mem_of_le hle (mem_add.mpr (.inr hu))
          have hdvd := (h.pages u (List.mem_append_right l hmem)).2.1
          rw [h₁.entry h hdvd (disjoint_right.mp hdisj hu)]
          exact hagree u (mem_add.mpr (.inr hu)))
        (by
          rw [h₁.out] at hle
          exact le_of_add_le_add_left hle)
      rw [if_pos ⟨hv, htable i hv⟩]
      exact ⟨l₂, h₁.trans h₂⟩
    · have hbelow : below child f (n + 1) (f t i) = 0 := by
        rw [below, child_eq_none.mpr (by simpa using hv)]
        rfl
      rw [hbelow, zero_add] at hagree hle ⊢
      rw [if_neg fun h => hv h.1]
      exact ih h hagree hle

theorem freeTableRecursive_frees (hhi : hi ≤ 2 ^ 48) (n : Nat) : FreesTables lo hi n := by
  induction n with
  | zero =>
    intro s l t h hsub _
    have ht : t ∈ s.out := mem_of_le hsub (self_mem_tables child s.entry 0 t)
    refine ⟨t :: l, ?_⟩
    rw [freeTableRecursive, if_neg (h.pages t (List.mem_append_right l ht)).1.ne', tables_zero]
    exact .freePage hhi h ht
  | succ n ih =>
    intro s l t h hsub htable
    have ht : t ∈ s.out := mem_of_le hsub (self_mem_tables child s.entry (n + 1) t)
    have htables := tables_eq child s.entry (n + 1) t
    rw [Fin.sum_univ_def] at htables
    rw [htables] at hsub htable ⊢
    rw [freeTableRecursive, if_neg (h.pages t (List.mem_append_right l ht)).1.ne']
    generalize List.finRange 512 = is at hsub htable ⊢
    obtain ⟨l₁, h₁⟩ := freeLoop_frees ih is h (fun u hu => ⟨rfl, htable u hu⟩) hsub
    -- the table itself is still there after the tables below it
    rw [h₁.out, ← singleton_add, add_comm] at hsub
    have hleft := mem_of_le (le_of_add_le_add_left hsub) (mem_singleton_self t)
    refine ⟨t :: l₁, ?_⟩
    rw [← singleton_add, add_comm]
    exact h₁.trans (.freePage hhi h₁.split (mem_coe.mp hleft))

end PageSystem

namespace MmuManager

variable {lo hi : Nat} {s : MmuManager} {l l' others : List Nat}

theorem Inv.nodup (h : s.Inv lo hi l others) : (s.tables + (others : Multiset Nat)).Nodup := by
  rw [← h.out]
  exact coe_nodup.mpr h.split.nodup.of_append_right

/-- The address space ends: its tables are given back, and nothing else. -/
theorem Inv.destroy (h : s.Inv lo hi l others) :
    ∃ l', Frees lo hi s.pages l s.destroy.pages l' s.tables := by
  unfold MmuManager.destroy MmuManager.tables
  by_cases hroot : s.l0Table = 0
  · rw [if_neg (not_not.mpr hroot), if_pos hroot]
    exact ⟨l, .refl h.split⟩
  · rw [if_pos hroot, if_neg hroot]
    have htree := h.tree hroot
    refine freeTableRecursive_frees h.width 3 _ l _ h.split ?_ htree.isTable
    rw [htree.out]
    exact le_add_right _ _

theorem moveAssign_pages (s : MmuManager) (other : Nat) :
    (s.moveAssign other).pages = s.destroy.pages := by
  unfold moveAssign destroy
  split_ifs <;> rfl

/-! ## What others do -/

theorem Inv.congr (h : s.Inv lo hi l others) (s' : MmuManager) (others' : List Nat)
    (hroot : s'.l0Table = s.l0Table)
    (hsplit : s'.pages.Split 8 lo hi l') (hout : (s'.pages.out : Multiset Nat) = s.tables + others')
    (hentry : ∀ t ∈ s.tables, s'.pages.entry t = s.pages.entry t) :
    s'.Inv lo hi l' others' ∧ (∀ v, s'.lookup v = s.lookup v) ∧ (s.Used → s'.Used) := by
  by_cases hnull : s.l0Table = 0
  · have htables : s.tables = 0 := if_pos hnull
    have htables' : s'.tables = 0 := if_pos (hroot.trans hnull)
    refine ⟨⟨hsplit, h.width, by rw [hout, htables, htables'], ?_⟩, ?_, ?_⟩
    · rw [htables']
      exact fun t ht => absurd ht (notMem_zero t)
    · intro v
      rw [lookup, lookup, hroot, if_pos hnull, if_pos hnull]
    · exact fun _ hne => absurd (hroot.trans hnull) hne
  · have htables : s.tables = s.pages.tables s.l0Table := if_neg hnull
    rw [htables] at hentry hout
    have hsame : s'.pages.tables s.l0Table = s.pages.tables s.l0Table := tables_congr hentry
    have htables' : s'.tables = s.pages.tables s.l0Table := by
      rw [tables, hroot, if_neg hnull, hsame]
    refine ⟨⟨hsplit, h.width, by rw [hout, htables'], ?_⟩, ?_, ?_⟩
    · intro t ht i
      rw [htables'] at ht
      rw [hentry t ht]
      exact (h.tree hnull).isTable t ht i
    · intro v
      rw [lookup, lookup, hroot, if_neg hnull, if_neg hnull, PageSystem.lookup, leaf_congr hentry]
      rfl
    · intro hused _ t ht hne _
      rw [hroot, hsame] at ht
      rw [hroot] at hne
      rw [hentry t ht]
      exact hused hnull t ht hne hne

end MmuManager

/-- The memory that the allocator was given. The addresses of its pages fit in an entry. -/
structure PagePool where
  startAddr : Nat
  size : Nat
  usable : UsableRegion 8 startAddr size
  width : startAddr + size ≤ 2 ^ 48

/-- An address space, and the pages that others have. -/
structure MmuSystem where
  mmu : MmuManager
  others : List Nat

namespace MmuSystem

/-- A page is taken or given back by others, or they write a byte. -/
def other (s : MmuSystem) (op : PageOp) : MmuSystem where
  mmu := { s.mmu with pages := op.exec 8 s.mmu.pages }
  others := (op.exec 8 ⟨s.mmu.pages.pages, s.others⟩).out

/-- Others give back and write to the pages that they have. -/
def OtherEnabled (pool : PagePool) (s : MmuSystem) (op : PageOp) : Prop :=
  op.Enabled pool.startAddr pool.size ⟨s.mmu.pages.pages, s.others⟩

variable {lo hi : Nat} {s : MmuSystem} {l : List Nat} {pool : PagePool}

/-- **A step of others** keeps the invariant and the translations. -/
theorem other_spec (hlo : pool.startAddr ≤ lo) (hhi : hi ≤ pool.startAddr + pool.size)
    (h : s.mmu.Inv lo hi l s.others) {op : PageOp} (hop : s.OtherEnabled pool op) :
    (∃ l', (s.other op).mmu.Inv lo hi l' (s.other op).others) ∧
      (∀ v, (s.other op).mmu.lookup v = s.mmu.lookup v) ∧
      (s.mmu.Used → (s.other op).mmu.Used) := by
  have hsplit := h.split
  have hsub : ∀ p ∈ s.others, p ∈ s.mmu.pages.out := by
    intro p hp
    rw [← mem_coe, h.out]
    exact mem_add.mpr (.inr (mem_coe.mpr hp))
  have htable : ∀ t ∈ s.mmu.tables, t ∈ s.mmu.pages.out ∧ IsPage lo hi t := by
    intro t ht
    have hout : t ∈ s.mmu.pages.out := by
      rw [← mem_coe, h.out]
      exact mem_add.mpr (.inl ht)
    exact ⟨hout, hsplit.pages t (List.mem_append_right l hout)⟩
  have hapart : ∀ t ∈ s.mmu.tables, ∀ p ∈ s.others, t ≠ p := by
    intro t ht p hp heq
    exact disjoint_left.mp (nodup_add.mp h.nodup).2.2 ht (heq ▸ mem_coe.mpr hp)
  cases op with
  | alloc =>
    cases l with
    | nil =>
      have hsame : s.other .alloc = s := by
        rw [other, hsplit.alloc_nil, PageOp.exec, PageAllocator.allocPage,
          if_pos hsplit.head_eq_zero]
        rfl
      rw [hsame]
      exact ⟨⟨[], h⟩, fun _ => rfl, id⟩
    | cons page rest =>
      have hpage := hsplit.pages page (by simp)
      have hnull : s.mmu.pages.pages.freeListHead ≠ 0 := hsplit.head_eq ▸ hpage.1.ne'
      have hother : (s.other .alloc).others = page :: s.others := by
        simp only [other, PageOp.exec, PageAllocator.allocPage, if_neg hnull]
        rw [hsplit.head_eq]
      have hout : (s.other .alloc).mmu.pages.out = page :: s.mmu.pages.out :=
        hsplit.allocPage_cons.2.1
      rw [hother]
      obtain ⟨hinv, hrest⟩ := h.congr (s.other .alloc).mmu (page :: s.others) rfl
        (hsplit.alloc_cons (.inr rfl))
        (by rw [hout, ← cons_coe, h.out, ← add_cons, cons_coe])
        (by
          intro t ht
          apply (entry_allocPage hsplit).2 t (htable t ht).2.2.1
          intro heq
          exact (List.nodup_append.mp hsplit.nodup).2.2 page (by simp) t (htable t ht).1 heq.symm)
      exact ⟨⟨rest, hinv⟩, hrest⟩
  | free page =>
    have hpage := hsplit.pages page (List.mem_append_right l (hsub page hop))
    obtain ⟨hinv, hrest⟩ := h.congr (s.other (.free page)).mmu
      (s.other (.free page)).others rfl
      (hsplit.freeOne (.inr rfl) (h.width.trans (by norm_num)) (hsub page hop))
      (by
        change ((s.mmu.pages.out.erase page : List Nat) : Multiset Nat) =
          _ + ((s.others.erase page : List Nat) : Multiset Nat)
        rw [← coe_erase, h.out, ← coe_erase,
          erase_add_right_pos _ (mem_coe.mpr hop)])
      (fun t ht => entry_freePage hpage.2.1 (htable t ht).2.2.1 (hapart t ht page hop))
    exact ⟨⟨_, hinv⟩, hrest⟩
  | write x v =>
    have hen : (PageOp.write x v).Enabled pool.startAddr pool.size s.mmu.pages := by
      rcases hop with ⟨p, hp, hx⟩ | hx
      · exact .inl ⟨p, hsub p hp, hx⟩
      · exact .inr hx
    obtain ⟨hinv, hrest⟩ := h.congr (s.other (.write x v)).mmu
      (s.other (.write x v)).others rfl
      (hsplit.write (.inr rfl) hlo hhi hen) h.out
      (by
        intro t ht
        obtain ⟨-, hdvd, hge, hle⟩ := (htable t ht).2
        apply entry_congr
        intro y hy hlt
        apply Function.update_of_ne
        rcases hop with ⟨p, hp, hx⟩ | hx
        · have := pages_apart hdvd
            (hsplit.pages p (List.mem_append_right l (hsub p hp))).2.1 (hapart t ht p hp)
          omega
        · omega)
    exact ⟨⟨l, hinv⟩, hrest⟩

end MmuSystem

/-! ## Calls -/

/-- The calls that change an address space. -/
inductive MmuOp
  | map (vaddr paddr : Nat) (flags : MapFlags)
  | unmap (vaddr : Nat)
  | protect (vaddr : Nat) (flags : MapFlags)

namespace MmuOp

def exec (s : MmuManager) : MmuOp → Bool × MmuManager
  | .map vaddr paddr flags => s.map vaddr paddr flags
  | .unmap vaddr => s.unmap vaddr
  | .protect vaddr flags => s.protect vaddr flags

/-- The address that a call is about. -/
def vaddr : MmuOp → Nat
  | .map vaddr _ _ => vaddr
  | .unmap vaddr => vaddr
  | .protect vaddr _ => vaddr

/-- The addresses have at most 48 bits. -/
def InSpace : MmuOp → Prop
  | .map vaddr paddr _ => vaddr < 2 ^ 48 ∧ paddr < 2 ^ 48
  | .unmap vaddr => vaddr < 2 ^ 48
  | .protect vaddr _ => vaddr < 2 ^ 48

/-- The call is a `map` that finds some of the pages it needs, but not all. -/
def HalfBuilds (s : MmuManager) : MmuOp → Prop
  | .map vaddr paddr _ => s.HalfBuilt vaddr paddr s.pages.pages.freePages
  | _ => False

/-- When a call succeeds: `map` is given addresses of pages and finds the pages for the tables it
needs; `unmap` and `protect` are given the address of a page that is mapped. -/
def Succeeds (s : MmuManager) : MmuOp → Prop
  | .map vaddr paddr _ =>
    MmuManager.Aligned vaddr paddr ∧ s.needed vaddr ≤ s.pages.pages.freePages
  | .unmap vaddr => vaddr % pageSize = 0 ∧ (s.translate vaddr).isSome
  | .protect vaddr _ => vaddr % pageSize = 0 ∧ (s.translate vaddr).isSome

/-- What a successful call makes of the entry of its page. -/
def newEntry (e : Option PageTableEntry) : MmuOp → Option PageTableEntry
  | .map _ paddr flags => some (.ofPage paddr flags)
  | .unmap _ => none
  | .protect _ flags => e.map fun e => e.setAttributes flags

/-- What a successful call makes of the mapping of its page: the physical address and the flags. -/
def newMapping (m : Option (Nat × MapFlags)) : MmuOp → Option (Nat × MapFlags)
  | .map _ paddr flags => some (paddr, flags)
  | .unmap _ => none
  | .protect _ flags => m.map fun m => (m.1, flags)

theorem InSpace.vaddr_lt {op : MmuOp} (h : op.InSpace) : op.vaddr < 2 ^ 48 := by
  cases op with
  | map => exact h.1
  | unmap => exact h
  | protect => exact h

variable {lo hi : Nat} {s : MmuManager} {l others : List Nat}

/-- **What a call does.** -/
theorem exec_spec (h : s.Inv lo hi l others) (op : MmuOp) :
    (∃ l', (op.exec s).2.Inv lo hi l' others) ∧
      (∀ v, (op.exec s).2.lookup v =
        if (op.exec s).1 = true ∧ MmuManager.SamePage v op.vaddr then op.newEntry (s.lookup v)
        else s.lookup v) ∧
      (¬ op.HalfBuilds s → s.Used → (op.exec s).2.Used) ∧
      ((op.exec s).1 = true ↔ op.Succeeds s) := by
  have hmapped : ∀ v, (s.translate v).isSome = (s.lookup v).isSome := fun v => by
    rw [translate_eq, isSome_map]
  cases op with
  | map vaddr paddr flags =>
    obtain ⟨r, s', l', heq, hmaps⟩ := h.map vaddr paddr flags
    simp only [exec, heq, HalfBuilds, Succeeds, h.split.free]
    exact ⟨⟨l', hmaps.inv⟩, hmaps.lookup, hmaps.used, hmaps.result⟩
  | unmap vaddr =>
    obtain ⟨r, s', l', heq, hunmaps⟩ := h.unmap vaddr
    simp only [exec, heq, Succeeds, hmapped]
    exact ⟨⟨l', hunmaps.inv⟩, hunmaps.lookup, fun _ => hunmaps.used, hunmaps.result⟩
  | protect vaddr flags =>
    obtain ⟨r, s', heq, hprotects⟩ := h.protect vaddr flags
    simp only [exec, heq, Succeeds, hmapped]
    exact ⟨⟨l, hprotects.inv⟩, hprotects.lookup, fun _ => hprotects.used, hprotects.result⟩

/-- A `map` that succeeds has got addresses of pages. -/
theorem dvd_of_map {vaddr paddr : Nat} {flags : MapFlags} (h : s.Inv lo hi l others)
    (hr : ((MmuOp.map vaddr paddr flags).exec s).1 = true) : pageSize ∣ paddr :=
  Nat.dvd_of_mod_eq_zero ((exec_spec h _).2.2.2.mp hr).1.2

end MmuOp

/-! ## Runs -/

/-- The calls made so far with their results, the latest first. -/
abbrev MmuTrace := List (MmuOp × Bool)

/-- **The finite map** that an address space stands for: what the calls have made of the mapping of
a page. -/
def MmuTrace.mappedTo (page : Nat) : MmuTrace → Option (Nat × MapFlags)
  | [] => none
  | (op, r) :: tr =>
    if r = true ∧ page = op.vaddr / pageSize then op.newMapping (mappedTo page tr)
    else mappedTo page tr

/-- The runs of an address space in which every call meets the condition `ok`. The allocator has
been in use when the address space is made. -/
inductive MmuRun (pool : PagePool) (ok : MmuManager → MmuOp → Prop) : MmuTrace → MmuSystem → Prop
  | construct {m : Mem} {pages : PageSystem}
      (hpages : Relation.ReflTransGen (PageStep 8 pool.startAddr pool.size)
        (.start 8 m pool.startAddr pool.size) pages) :
      MmuRun pool ok [] ⟨.construct pages, pages.out⟩
  | call {tr : MmuTrace} {s : MmuSystem} (hrun : MmuRun pool ok tr s) (op : MmuOp)
      (hok : ok s.mmu op) :
      MmuRun pool ok ((op, (op.exec s.mmu).1) :: tr) ⟨(op.exec s.mmu).2, s.others⟩
  | other {tr : MmuTrace} {s : MmuSystem} (hrun : MmuRun pool ok tr s) (op : PageOp)
      (hop : s.OtherEnabled pool op) : MmuRun pool ok tr (s.other op)

namespace PagePool

/-- The bounds of the pages of a pool. -/
def lo (pool : PagePool) : Nat := firstPage pool.startAddr

def hi (pool : PagePool) : Nat := endPage pool.startAddr pool.size

theorem hi_le (pool : PagePool) : pool.hi ≤ 2 ^ 48 :=
  (endPage_le pool.startAddr pool.size).trans pool.width

theorem start_split (pool : PagePool) (m : Mem) :
    (PageSystem.start 8 m pool.startAddr pool.size).Split 8 pool.lo pool.hi
      (List.range' pool.lo (pageCount 8 pool.startAddr pool.size) pageSize) := by
  have hwidth := pool.width
  exact pool.usable.split (.inr rfl) (by omega) (by omega) m

theorem split (pool : PagePool) {m : Mem} {pages : PageSystem}
    (h : Relation.ReflTransGen (PageStep 8 pool.startAddr pool.size)
      (.start 8 m pool.startAddr pool.size) pages) :
    ∃ l, pages.Split 8 pool.lo pool.hi l :=
  (pool.start_split m).run (.inr rfl) (le_firstPage _) (endPage_le _ _)
    (pool.hi_le.trans (by norm_num)) h

end PagePool

namespace MmuManager

variable {lo hi : Nat} {pages : PageSystem} {l : List Nat}

theorem construct_cons {page : Nat} {rest : List Nat} (h : pages.Split 8 lo hi (page :: rest))
    (hwidth : hi ≤ 2 ^ 48) :
    (construct pages).Inv lo hi rest pages.out ∧ (∀ v, (construct pages).lookup v = none) ∧
      (construct pages).Used ∧ ∀ v, (construct pages).needed v = 3 := by
  obtain ⟨hpage, hnull, htree, hbare⟩ := newRoot h hwidth
  unfold construct
  dsimp only
  rw [hpage]
  refine ⟨.of_tree hnull htree, lookup_of_bare hbare, used_of_bare hbare, ?_⟩
  intro v
  rw [needed, if_neg hnull]
  apply missing_of_bare
  intro i
  rw [hbare i]
  exact child_zero

theorem construct_nil (h : pages.Split 8 lo hi []) (hwidth : hi ≤ 2 ^ 48) :
    (construct pages).Inv lo hi [] pages.out ∧ (∀ v, (construct pages).lookup v = none) ∧
      (construct pages).Used := by
  unfold construct
  rw [allocPage_of_nil h]
  refine ⟨⟨h, hwidth, (zero_add _).symm, ?_⟩, fun v => if_pos rfl, fun hne => absurd rfl hne⟩
  exact fun t ht => absurd ht (notMem_zero t)

theorem construct_spec (h : pages.Split 8 lo hi l) (hwidth : hi ≤ 2 ^ 48) :
    (∃ l', (construct pages).Inv lo hi l' pages.out) ∧
      (∀ v, (construct pages).lookup v = none) ∧ (construct pages).Used := by
  cases l with
  | nil =>
    obtain ⟨hinv, hrest⟩ := construct_nil h hwidth
    exact ⟨⟨[], hinv⟩, hrest⟩
  | cons page rest =>
    obtain ⟨hinv, hlookup, hused, -⟩ := construct_cons h hwidth
    exact ⟨⟨rest, hinv⟩, hlookup, hused⟩

end MmuManager

namespace MmuRun

variable {pool : PagePool} {ok : MmuManager → MmuOp → Prop} {tr : MmuTrace} {s : MmuSystem}

theorem inv (h : MmuRun pool ok tr s) : ∃ l, s.mmu.Inv pool.lo pool.hi l s.others := by
  induction h with
  | construct hpages =>
    obtain ⟨l, hl⟩ := pool.split hpages
    exact (construct_spec hl pool.hi_le).1
  | call hrun op hok ih =>
    obtain ⟨l, hl⟩ := ih
    exact (op.exec_spec hl).1
  | other hrun op hop ih =>
    obtain ⟨l, hl⟩ := ih
    exact (MmuSystem.other_spec (le_firstPage _) (endPage_le _ _) hl hop).1

/-- If no `map` runs out of pages half way, there is no table without a valid entry but the root. -/
theorem used (hok : ∀ s op, ok s op → ¬ op.HalfBuilds s) (h : MmuRun pool ok tr s) :
    s.mmu.Used := by
  induction h with
  | construct hpages =>
    obtain ⟨l, hl⟩ := pool.split hpages
    exact (construct_spec hl pool.hi_le).2.2
  | call hrun op hop ih =>
    obtain ⟨l, hl⟩ := hrun.inv
    exact (op.exec_spec hl).2.2.1 (hok _ op hop) ih
  | other hrun op hop ih =>
    obtain ⟨l, hl⟩ := hrun.inv
    exact (MmuSystem.other_spec (le_firstPage _) (endPage_le _ _) hl hop).2.2 ih

/-! ## Refinement -/

/-- What is read off an entry is the mapping. -/
def Reads (e : Option PageTableEntry) (m : Option (Nat × MapFlags)) : Prop :=
  (e.map fun e => (PageTableEntry.getAddress e, PageTableEntry.flags e)) =
    m.map fun m => (m.1, m.2 ||| .Read)

/-- A successful call makes the same of the entry and of the mapping. -/
theorem Reads.exec {e : Option PageTableEntry} {m : Option (Nat × MapFlags)} (h : Reads e m)
    {lo hi : Nat} {l others : List Nat} {s : MmuManager} (hinv : s.Inv lo hi l others) {op : MmuOp}
    (hspace : op.InSpace) (hr : (op.exec s).1 = true) :
    Reads (op.newEntry e) (op.newMapping m) := by
  cases op with
  | map vaddr paddr flags =>
    simp only [Reads, MmuOp.newEntry, MmuOp.newMapping, map_some, some.injEq,
      Prod.mk.injEq]
    refine ⟨?_, flags_ofPage paddr flags⟩
    rw [getAddress_ofPage (MmuOp.dvd_of_map hinv hr), Nat.mod_eq_of_lt hspace.2]
  | unmap => rfl
  | protect =>
    cases e <;> cases m
    · rfl
    · simp [Reads] at h
    · simp [Reads] at h
    · simp only [Reads, MmuOp.newEntry, MmuOp.newMapping, map_some, some.injEq,
        Prod.mk.injEq] at h ⊢
      rw [getAddress_setAttributes, flags_setAttributes]
      exact ⟨h.1, rfl⟩

theorem reads (hok : ∀ s op, ok s op → op.InSpace) (h : MmuRun pool ok tr s) {v : Nat}
    (hv : v < 2 ^ 48) : Reads (s.mmu.lookup v) (tr.mappedTo (v / pageSize)) := by
  induction h with
  | construct hpages =>
    obtain ⟨l, hl⟩ := pool.split hpages
    rw [(construct_spec hl pool.hi_le).2.1 v]
    rfl
  | call hrun op hop ih =>
    obtain ⟨l, hl⟩ := hrun.inv
    have hspace := hok _ op hop
    rw [(op.exec_spec hl).2.1 v, MmuTrace.mappedTo]
    simp only [samePage_iff_of_lt hv hspace.vaddr_lt]
    split_ifs with hr
    · exact ih.exec hl hspace hr.1
    · exact ih
  | other hrun op hop ih =>
    obtain ⟨l, hl⟩ := hrun.inv
    rw [(MmuSystem.other_spec (le_firstPage _) (endPage_le _ _) hl hop).2.1 v]
    exact ih

end MmuRun

/-- **An address space is a finite map.** What `translate` finds for an address is what the calls
have made of its page. A call that fails changes no translation, and a call for one page none of
another. A call fails only for want of an aligned address, of a page for a table, or of a
mapping. -/
theorem translate_refines {pool : PagePool} {tr : MmuTrace} {s : MmuSystem}
    (h : MmuRun pool (fun _ op => op.InSpace) tr s) :
    (∀ v < 2 ^ 48, s.mmu.translate v =
      (tr.mappedTo (v / pageSize)).map fun m => (m.1 + v % pageSize, m.2 ||| .Read)) ∧
    (∀ op : MmuOp, op.InSpace → ∀ v < 2 ^ 48,
      (op.exec s.mmu).1 = false ∨ v / pageSize ≠ op.vaddr / pageSize →
      (op.exec s.mmu).2.translate v = s.mmu.translate v) ∧
    ∀ op : MmuOp, (op.exec s.mmu).1 = true ↔ op.Succeeds s.mmu := by
  obtain ⟨l, hl⟩ := h.inv
  refine ⟨?_, ?_, fun op => (op.exec_spec hl).2.2.2⟩
  · intro v hv
    have hreads := h.reads (fun _ _ => id) hv
    rw [translate_eq]
    cases he : s.mmu.lookup v with
    | none =>
      rw [he, MmuRun.Reads, map_none, eq_comm, map_eq_none_iff] at hreads
      rw [hreads]
      rfl
    | some e =>
      rw [he, MmuRun.Reads, map_some, eq_comm, map_eq_some_iff] at hreads
      obtain ⟨m, hm, heq⟩ := hreads
      rw [Prod.mk.injEq] at heq
      rw [hm, map_some, map_some, heq.1, heq.2, getAddress_or]
      exact Nat.mod_lt _ (by decide)
  · intro op hspace v hv hother
    rw [translate_eq, translate_eq, (op.exec_spec hl).2.1 v, if_neg]
    rw [samePage_iff_of_lt hv hspace.vaddr_lt]
    rintro ⟨hr, hpage⟩
    rcases hother with hfalse | hne
    · rw [hr] at hfalse
      cases hfalse
    · exact hne hpage

/-! ## The first calls -/

namespace MmuManager

/-! No page gets lost. -/

theorem totalPages_allocPage (pages : PageSystem) :
    pages.allocPage.2.pages.totalPages = pages.pages.totalPages :=
  allocPage_totalPages 8 pages.pages

theorem totalPages_getOrAllocateNextLevel (pages : PageSystem) (t : Nat) (i : Fin 512) :
    (pages.getOrAllocateNextLevel t i).2.pages.totalPages = pages.pages.totalPages := by
  rw [getOrAllocateNextLevel]
  dsimp only
  split_ifs
  · rfl
  · exact totalPages_allocPage pages
  · exact totalPages_allocPage pages

theorem totalPages_descend (vaddr k : Nat) (pages : PageSystem) (t : Nat) :
    (descend vaddr k pages t).2.pages.totalPages = pages.pages.totalPages := by
  induction k generalizing pages t with
  | zero => rfl
  | succ k ih =>
    have hnext := totalPages_getOrAllocateNextLevel pages t (tableIndex vaddr (k + 1))
    rw [descend]
    dsimp only
    split_ifs
    · rw [hnext]
    · rw [ih, hnext]

theorem totalPages_map (s : MmuManager) (vaddr paddr : Nat) (flags : MapFlags) :
    (s.map vaddr paddr flags).2.pages.pages.totalPages = s.pages.pages.totalPages := by
  have hroot : (if s.l0Table = 0 then s.pages.allocPage
      else (s.l0Table, s.pages)).2.pages.totalPages = s.pages.pages.totalPages := by
    split_ifs
    · exact totalPages_allocPage s.pages
    · rfl
  rw [map]
  generalize (if s.l0Table = 0 then s.pages.allocPage else (s.l0Table, s.pages)) = a at hroot
  dsimp only
  split_ifs
  · rfl
  · exact hroot
  · rw [totalPages_descend, hroot]
  · rw [setEntry, totalPages_descend, hroot]

end MmuManager

/-- The first call for the first address space, with `n` pages left for its tables. -/
theorem MmuRun.map_of_new (pool : PagePool) (ok : MmuManager → MmuOp → Prop) {n : Nat}
    (hcount : pageCount 8 pool.startAddr pool.size = n + 1) (m : Mem) {vaddr paddr : Nat}
    (halign : MmuManager.Aligned vaddr paddr) (flags : MapFlags)
    (hok : ∀ s : MmuManager, s.needed vaddr = 3 → s.pages.pages.freePages = n →
      ok s (.map vaddr paddr flags)) :
    ∃ s l, MmuRun pool ok [(.map vaddr paddr flags, decide (3 ≤ n))] ⟨s, []⟩ ∧
      (∀ v, s.lookup v =
        if 3 ≤ n ∧ MmuManager.SamePage v vaddr then some (.ofPage paddr flags) else none) ∧
      s.Inv pool.lo pool.hi l [] ∧ l.length + s.tables.card = n + 1 ∧ (n < 3 → l = []) := by
  have hstart := pool.start_split m
  rw [hcount] at hstart
  obtain ⟨hinv, hlookup, -, hneeded⟩ := construct_cons hstart pool.hi_le
  obtain ⟨r, s, l, heq, hmaps⟩ := hinv.map vaddr paddr flags
  have hr : r = decide (3 ≤ n) := by
    rw [Bool.eq_iff_iff, hmaps.result, hneeded, List.length_range', decide_eq_true_iff]
    exact and_iff_right halign
  have hrun : MmuRun pool ok [] ⟨.construct (.start 8 m pool.startAddr pool.size), []⟩ :=
    .construct .refl
  have hcall := hrun.call (.map vaddr paddr flags)
    (hok _ (hneeded vaddr) (by rw [hinv.split.free, List.length_range']))
  rw [MmuOp.exec, heq, hr] at hcall
  refine ⟨s, l, hcall, ?_, hmaps.inv, ?_, ?_⟩
  · intro v
    rw [hmaps.lookup, hlookup, hr]
    simp
  · have htotal := hmaps.inv.split.total
    have hout := congrArg card hmaps.inv.out
    have hsame := totalPages_map
      (.construct (.start 8 m pool.startAddr pool.size)) vaddr paddr flags
    rw [heq] at hsame
    have hnew : (MmuManager.construct
      (.start 8 m pool.startAddr pool.size)).pages.pages.totalPages =
        n + 1 := by
      rw [← hcount]
      exact (MmuManager.totalPages_allocPage _).trans (init_totalPages (.inr rfl))
    rw [show (PageSystem.start 8 m pool.startAddr pool.size).out = [] from rfl, coe_nil,
      add_zero, coe_card] at hout
    rw [← hout, htotal, hsame, hnew]
  · intro hn
    apply hmaps.exhausted halign
    rw [hneeded, List.length_range']
    exact hn

/-- A pool of five pages: one for the root of an address space, and three for a mapping. -/
def fivePages : PagePool := ⟨0x1000, 0x5000, by decide, by norm_num⟩

/-- A page is mapped, its flags are changed, and it is unmapped. -/
theorem translate_refines_map :
    (∃ s : MmuSystem, MmuRun fivePages (fun _ op => op.InSpace)
      [(.protect 0x3000 .Execute, true), (.map 0x3000 0x7000 .Write, true)] s ∧
        s.mmu.translate 0x3004 = some (0x7004, .Execute ||| .Read)) ∧
    ∃ s : MmuSystem, MmuRun fivePages (fun _ op => op.InSpace)
      [(.unmap 0x3000, true), (.protect 0x3000 .Execute, true),
        (.map 0x3000 0x7000 .Write, true)] s ∧ s.mmu.translate 0x3004 = none := by
  obtain ⟨s, l, hrun, -⟩ := MmuRun.map_of_new fivePages (fun _ op => op.InSpace)
    (show _ = 4 + 1 by decide) (fun _ => 0) (show MmuManager.Aligned 0x3000 0x7000 by decide) .Write
    (fun _ _ _ => by constructor <;> norm_num)
  have hmap := translate_refines hrun
  have hrun₁ := hrun.call (.protect 0x3000 .Execute) (by norm_num [MmuOp.InSpace])
  rw [(hmap.2.2 (.protect 0x3000 .Execute)).2
    ⟨by decide, by rw [hmap.1 0x3000 (by norm_num)]; decide⟩] at hrun₁
  have hprotect := translate_refines hrun₁
  have hrun₂ := hrun₁.call (.unmap 0x3000) (by norm_num [MmuOp.InSpace])
  rw [(hprotect.2.2 (.unmap 0x3000)).2
    ⟨by decide, by rw [hprotect.1 0x3000 (by norm_num)]; decide⟩] at hrun₂
  exact ⟨⟨_, hrun₁, (hprotect.1 0x3004 (by norm_num)).trans (by decide)⟩, _, hrun₂,
    ((translate_refines hrun₂).1 0x3004 (by norm_num)).trans (by decide)⟩

/-! ## Ownership -/

/-- Every combination of indices is that of an address. -/
theorem exists_tableIndex (p : Nat → Fin 512) : ∃ v, ∀ k ≤ 3, tableIndex v k = p k := by
  refine ⟨(p 0 + 2 ^ 9 * (p 1 + 2 ^ 9 * (p 2 + 2 ^ 9 * p 3))) * 2 ^ 12, ?_⟩
  intro k hk
  apply Fin.ext
  change _ / 2 ^ (12 + 9 * k) % 512 = _
  interval_cases k <;> norm_num <;> omega

/-- An address space in which nothing is mapped has no table but its root, if the other tables have
valid entries. -/
theorem MmuManager.Used.eq_root {s : MmuManager} (h : s.Used) (hnone : ∀ v, s.translate v = none)
    {t : Nat} (ht : t ∈ s.tables) : t = s.l0Table := by
  have hroot : s.l0Table ≠ 0 := by
    intro hnull
    rw [tables, if_pos hnull] at ht
    exact notMem_zero t ht
  rw [tables, if_neg hroot] at ht
  by_contra hne
  -- then the root has a valid entry as well, and some address leads to the bottom
  have hvalid : ∀ u ∈ s.pages.tables s.l0Table, ∃ i, child (s.pages.entry u i) ≠ none := by
    intro u hu
    by_cases hur : u = s.l0Table
    · by_contra hbare
      push Not at hbare
      rw [hur] at hbare
      rw [PageSystem.tables, tables_of_bare hbare, mem_singleton] at ht
      exact hne ht
    · obtain ⟨i, hi⟩ := h hroot u hu hur hur
      exact ⟨i, child_ne_none.mpr hi⟩
  obtain ⟨p, e, hleaf, he⟩ := Radix.exists_leaf hvalid
  obtain ⟨v, hv⟩ := exists_tableIndex p
  have hfound : s.lookup v = some e := by
    rw [lookup, if_neg hroot, PageSystem.lookup, leaf_congr_indices hv, hleaf, filter_some,
      if_pos (child_ne_none.mp he)]
  have htranslate := hnone v
  rw [translate_eq, hfound] at htranslate
  cases htranslate

/-- **The pages taken for an address space are its tables**, each reached once. They are given back,
each once, when the address space is destroyed or another is moved over it. If no `map` runs out of
pages half way, only the root is left when nothing is mapped. -/
theorem tables_owned {pool : PagePool} {tr : MmuTrace} {s : MmuSystem}
    (h : MmuRun pool (fun s op => ¬ op.HalfBuilds s) tr s) :
    (s.mmu.pages.out : Multiset Nat) = s.mmu.tables + s.others ∧ s.mmu.tables.Nodup ∧
      (∃ l l', s.mmu.pages.pages.FreeList 8 l ∧
        Frees pool.lo pool.hi s.mmu.pages l s.mmu.destroy.pages l' s.mmu.tables ∧
        ∀ other, Frees pool.lo pool.hi s.mmu.pages l (s.mmu.moveAssign other).pages l'
          s.mmu.tables) ∧
      ((∀ v, s.mmu.translate v = none) → ∀ t ∈ s.mmu.tables, t = s.mmu.l0Table) := by
  obtain ⟨l, hl⟩ := h.inv
  refine ⟨hl.out, (nodup_add.mp hl.nodup).1, ?_, ?_⟩
  · obtain ⟨l', hfrees⟩ := hl.destroy
    refine ⟨l, l', hl.split.freeList, hfrees, ?_⟩
    intro other
    rw [moveAssign_pages]
    exact hfrees
  · intro hnone t ht
    exact (h.used fun _ _ => id).eq_root hnone ht

theorem tables_owned_unmap : ∃ s : MmuSystem,
    MmuRun fivePages (fun s op => ¬ op.HalfBuilds s)
      [(.unmap 0x3000, true), (.map 0x3000 0x7000 .Write, true)] s ∧
    ∀ t ∈ s.mmu.tables, t = s.mmu.l0Table := by
  obtain ⟨s, l, hrun, hlookup, hinv, -⟩ := MmuRun.map_of_new fivePages
    (fun s op => ¬ op.HalfBuilds s) (show _ = 4 + 1 by decide) (fun _ => 0)
    (show MmuManager.Aligned 0x3000 0x7000 by decide) .Write
    (by
      intro s hneeded hfree hhalf
      have := hhalf.2.2
      omega)
  obtain ⟨r, s', l', heq, hunmaps⟩ := hinv.unmap 0x3000
  have hr : r = true := by
    rw [hunmaps.result, hlookup]
    exact ⟨by decide, rfl⟩
  have hcall := hrun.call (.unmap 0x3000) id
  simp only [MmuOp.exec, heq, hr] at hcall
  refine ⟨_, hcall, (tables_owned hcall).2.2.2 ?_⟩
  intro v
  rw [translate_eq, hunmaps.lookup, hlookup, hr]
  by_cases hv : MmuManager.SamePage v 0x3000
  · rw [if_pos ⟨rfl, hv⟩]
    rfl
  · rw [if_neg fun h => hv h.2, if_neg fun h => hv h.2]
    rfl

/-- A pool of two pages. The first is the root of the address space. `map` takes the second for a
table of the next level, finds no page for the one after it, and leaves the table it has linked. -/
theorem table_left_behind : ∃ (pool : PagePool) (s : MmuSystem),
    MmuRun pool (fun _ _ => True) [(.map 0x3000 0x7000 .Write, false)] s ∧
      (∀ v, s.mmu.translate v = none) ∧ ∃ t ∈ s.mmu.tables, t ≠ s.mmu.l0Table := by
  let pool : PagePool := ⟨0x1000, 0x2000, by decide, by norm_num⟩
  obtain ⟨s, l, hrun, hlookup, hinv, hcard, hnil⟩ := MmuRun.map_of_new pool (fun _ _ => True)
    (show _ = 1 + 1 by decide) (fun _ => 0) (show MmuManager.Aligned 0x3000 0x7000 by decide) .Write
    (fun _ _ _ => trivial)
  refine ⟨pool, _, hrun, ?_, ?_⟩
  · intro v
    rw [translate_eq, hlookup]
    rfl
  · by_contra hall
    push Not at hall
    have hnodup := hinv.nodup
    rw [coe_nil, add_zero] at hnodup
    have hle : s.tables ≤ {s.l0Table} :=
      (le_iff_subset hnodup).mpr fun t ht => mem_singleton.mpr (hall t ht)
    have hone := card_le_card hle
    rw [hnil (by omega), List.length_nil] at hcard
    rw [card_singleton] at hone
    omega

end AuroraOS
