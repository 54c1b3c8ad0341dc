import AuroraOS.PhotonCache

/-!
# What the cache holds

`Coherent` ties the pool and the flash to `cur`, the bytes as they should be: a valid slot holds the
bytes of its page, and they can be written over what the flash has; a byte that is in no slot is in
the flash. Blocks that are being erased are left out. The sections of the operations keep this,
provided a page that is put into a slot is what the flash holds, and its block is not being erased.
-/

namespace AuroraOS

open Nat Function PhotonCache FlashGeometry ByteMem FlashBlockDevice

namespace FlashGeometry

variable {g : FlashGeometry} {page k o : Nat}

theorem pageOf_add_indexOf (g : FlashGeometry) (o : Nat) : g.pageOf o + g.indexOf o = o :=
  Nat.sub_add_cancel (Nat.mod_le _ _)

theorem indexOf_lt (g : FlashGeometry) (o : Nat) : g.indexOf o < g.cachedSize :=
  mod_lt _ g.cachedSize_pos

theorem pageOf_add (hpage : g.cachedSize ∣ page) (hk : k < g.cachedSize) :
    g.pageOf (page + k) = page := by
  obtain ⟨m, rfl⟩ := hpage
  rw [pageOf, Nat.mul_add_mod, Nat.mod_eq_of_lt hk, Nat.add_sub_cancel]

/-! ## Bytes of blocks -/

/-- The byte at an offset in a block. -/
def bytes (g : FlashGeometry) (m : Mem) (block o : Nat) : UInt8 := m (block * g.blockSize + o)

variable {block lo n b : Nat}

theorem not_refuses (g : FlashGeometry) (hblock : block < g.blockCount) (h : lo + n ≤ g.blockSize) :
    ¬g.Refuses block lo n := by
  have hmod := Nat.mod_le (lo + n) (2 ^ 32)
  unfold Refuses
  omega

/-- Blocks do not overlap. -/
theorem mem_block (g : FlashGeometry) (h : lo + n ≤ g.blockSize) (ho : o < g.blockSize) (b : Nat) :
    block * g.blockSize + lo ≤ b * g.blockSize + o ∧
      b * g.blockSize + o < block * g.blockSize + lo + n ↔ b = block ∧ lo ≤ o ∧ o < lo + n := by
  rcases lt_trichotomy b block with hlt | rfl | hlt
  · have := Nat.mul_le_mul_right g.blockSize hlt
    rw [Nat.add_one_mul] at this
    omega
  · omega
  · have := Nat.mul_le_mul_right g.blockSize hlt
    rw [Nat.add_one_mul] at this
    omega

theorem bytes_anded (g : FlashGeometry) {m buf : Mem} (hblock : block < g.blockCount)
    (h : lo + n ≤ g.blockSize) (ho : o < g.blockSize) :
    g.bytes (anded m (g.physAddr block lo) buf n) b o =
      if b = block ∧ lo ≤ o ∧ o < lo + n then g.bytes m b o &&& buf (o - lo)
      else g.bytes m b o := by
  rw [physAddr_eq g.whole hblock (by omega)]
  simp only [bytes, anded, g.mem_block h ho]
  split_ifs with hin
  · rw [hin.1, show block * g.blockSize + o - (block * g.blockSize + lo) = o - lo by omega]
  · rfl

theorem bytes_eraseBlock (g : FlashGeometry) (m : Mem) (block b : Nat) (ho : o < g.blockSize) :
    g.bytes ((g.eraseBlock m block).getD m) b o =
      if b = block ∧ block < g.blockCount then 0xFF else g.bytes m b o := by
  unfold FlashBlockDevice.eraseBlock
  split_ifs with hcount hin hin
  · omega
  · rfl
  all_goals
    rw [physAddr_eq g.whole (by omega) (Nat.zero_le _), Option.getD_some, bytes, fill_apply]
    simp only [g.mem_block (Nat.zero_add _).le ho]
  · rw [if_pos ⟨hin.1, by omega⟩]
  · exact if_neg fun hc => hin ⟨hc.1, by omega⟩

end FlashGeometry

namespace PhotonCache

variable {g : FlashGeometry} {c c' : PhotonCache} {i j : Fin 8} {block page : Nat}
variable {slot : Fin 8} {copy : Nat → UInt8} {r : PhotonCache × PageResult}

/-! ## Slots -/

/-- No page is in two slots, and the flags go together. -/
structure Slots (c : PhotonCache) : Prop where
  unique : ∀ i j block page, (c.pool i).Holds block page → (c.pool j).Holds block page → i = j
  apart : ∀ i, (c.pool i).isReserved → (c.pool i).isValid = false
  dirty : ∀ i, (c.pool i).isDirty → (c.pool i).isValid

namespace Slots

variable (h : c.Slots)

include h

/-- A slot is changed that holds what it held, or what no other slot holds. -/
theorem update {p : CachePage} (hpool : c'.pool = update c.pool i p)
    (hunique : ∀ block page, p.Holds block page →
      (c.pool i).Holds block page ∨ ∀ j ≠ i, ¬(c.pool j).Holds block page)
    (hapart : p.isReserved → p.isValid = false) (hdirty : p.isDirty → p.isValid) : c'.Slots := by
  have hone : ∀ j block page, j ≠ i → p.Holds block page → ¬(c.pool j).Holds block page := by
    intro j block page hj hp hc
    rcases hunique block page hp with h' | h'
    · exact hj (h.unique j i block page hc h')
    · exact h' j hj hc
  refine ⟨?_, ?_, ?_⟩ <;> rw [hpool]
  · intro j k block page hj hk
    by_cases hji : j = i <;> by_cases hki : k = i <;>
      simp only [hji, hki, update_self, update_of_ne, ne_eq, not_false_eq_true] at hj hk ⊢
    · exact absurd hk (hone k block page hki hj)
    · exact absurd hj (hone j block page hji hk)
    · exact h.unique j k block page hj hk
  · exact (forall_update_iff c.pool fun _ p => p.isReserved → p.isValid = false).mpr
      ⟨hapart, fun j _ => h.apart j⟩
  · exact (forall_update_iff c.pool fun _ p => p.isDirty → p.isValid).mpr
      ⟨hdirty, fun j _ => h.dirty j⟩

theorem touch (i : Fin 8) : (c.touch i).Slots :=
  h.update rfl (fun _ _ => .inl) (h.apart i) (h.dirty i)

theorem flushPage (i : Fin 8) : (c.flushPage g i).1.Slots := by
  have hstep := flushPage_step g c i
  generalize c.flushPage g i = r at hstep
  cases hstep with
  | keep => exact h
  | write => exact h.update rfl (fun _ _ => .inl) (h.apart i) (by simp)
  | failed => exact h

theorem reserve (i : Fin 8) (block page : Nat) : (c.reserve i block page).Slots :=
  h.update rfl (fun _ _ hi => by simp [CachePage.Holds] at hi) (fun _ => rfl) (by simp)

theorem release (i : Fin 8) : (c.release i).Slots :=
  h.update rfl (fun _ _ => .inl) (by simp) (h.dirty i)

theorem install (hmiss : ∀ j ≠ i, ¬(c.pool j).Holds block page) (copy : Nat → UInt8) :
    (c.install g i block page copy).Slots := by
  refine h.update rfl (fun block' page' hi => .inr ?_) (by simp) fun _ => rfl
  obtain ⟨-, rfl, rfl⟩ := hi
  exact hmiss

theorem pageStep (hstep : PageStep g c block page r) :
    r.1.Slots := by
  cases hstep with
  | hit i => exact h.touch i
  | failed => exact h
  | fetch i => exact (h.flushPage i).reserve i block page

theorem resumeStep
    (hstep : ResumeStep g c block page slot copy r) : r.1.Slots := by
  cases hstep with
  | loaded i => exact (h.release slot).touch i
  | retry hstep => exact h.pageStep hstep
  | install hmiss => exact (h.install hmiss copy).touch slot

theorem access (x : Transfer) (hi : (c.pool i).isValid) : (c.access g x i).1.Slots := by
  unfold PhotonCache.access
  cases x.direction with
  | read => exact h
  | write => exact h.update rfl (fun _ _ => .inl) (h.apart i) fun _ => hi

theorem clearBlock (block : Nat) : (c.clearBlock block).Slots := by
  have hcases : ∀ i, (c.clearBlock block).pool i = c.pool i ∨ (c.clearBlock block).pool i =
      { c.pool i with isValid := false, isDirty := false, isReserved := false } := by
    intro i
    unfold PhotonCache.clearBlock
    dsimp only
    split_ifs
    · exact .inr rfl
    · exact .inl rfl
  have hholds : ∀ i block' page, ((c.clearBlock block).pool i).Holds block' page →
      (c.pool i).Holds block' page := by
    intro i block' page hi
    rcases hcases i with h' | h' <;> rw [h'] at hi
    · exact hi
    · simp [CachePage.Holds] at hi
  refine ⟨fun i j b p hi hj => h.unique i j b p (hholds i b p hi) (hholds j b p hj), fun i => ?_,
    fun i => ?_⟩
  · rcases hcases i with h' | h' <;> rw [h']
    · exact h.apart i
    · simp
  · rcases hcases i with h' | h' <;> rw [h']
    · exact h.dirty i
    · simp

theorem sync : (c.sync g).Slots := by
  refine List.foldlRecOn _ _ h fun c' h' i _ => ?_
  split_ifs
  · exact h'.flushPage i
  · exact h'

end Slots

/-! ## A page that is returned is in its slot -/

theorem holds_touch (c : PhotonCache) (i j : Fin 8) (block page : Nat) :
    ((c.touch i).pool j).Holds block page ↔ (c.pool j).Holds block page := by
  obtain ⟨tick, h⟩ := pool_touch c i j
  rw [h]
  rfl

theorem PageStep.holds (h : PageStep g c block page r)
    (hi : r.2 = .page i) : (r.1.pool i).Holds block page := by
  cases h with
  | hit k hk =>
    cases hi
    exact (holds_touch ..).2 hk
  | failed => cases hi
  | fetch => cases hi

theorem ResumeStep.holds
    (h : ResumeStep g c block page slot copy r) (hi : r.2 = .page i) :
    (r.1.pool i).Holds block page := by
  cases h with
  | loaded k hk =>
    cases hi
    rw [holds_touch, release, pool_modify]
    split_ifs <;> exact hk
  | retry h => exact h.holds hi
  | install =>
    cases hi
    rw [holds_touch, PhotonCache.install, pool_modify, if_pos rfl]
    exact ⟨rfl, rfl, rfl⟩

/-! ## Coherence -/

/-- What a valid slot holds. -/
structure PageOk (g : FlashGeometry) (erasing : Nat → Prop) (cur memory : Nat → Nat → UInt8)
    (p : CachePage) : Prop where
  block : p.blockAddr < g.blockCount
  page : p.pageOffset + g.cachedSize ≤ g.blockSize
  aligned : g.cachedSize ∣ p.pageOffset
  settled : ¬erasing p.blockAddr
  cached : ∀ k < g.cachedSize, p.data k = cur p.blockAddr (p.pageOffset + k)
  fits : ∀ k < g.cachedSize, memory p.blockAddr (p.pageOffset + k) &&& p.data k = p.data k
  clean : p.isDirty = false → ∀ k < g.cachedSize, p.data k = memory p.blockAddr (p.pageOffset + k)

/-- The bytes are where they should be. -/
structure Coherent (g : FlashGeometry) (erasing : Nat → Prop) (cur : Nat → Nat → UInt8)
    (c : PhotonCache) : Prop where
  slots : c.Slots
  pages : ∀ i, (c.pool i).isValid → PageOk g erasing cur (g.bytes c.memory) (c.pool i)
  stored : ∀ block o, block < g.blockCount → o < g.blockSize → ¬erasing block →
    (∀ i, ¬(c.pool i).Holds block (g.pageOf o)) → g.bytes c.memory block o = cur block o

variable {erasing : Nat → Prop} {cur cur' memory memory' : Nat → Nat → UInt8} {p q : CachePage}

namespace PageOk

theorem congr (h : PageOk g erasing cur memory p)
    (hcur : ∀ k < g.cachedSize,
      cur' p.blockAddr (p.pageOffset + k) = cur p.blockAddr (p.pageOffset + k))
    (hmem : ∀ k < g.cachedSize,
      memory' p.blockAddr (p.pageOffset + k) = memory p.blockAddr (p.pageOffset + k)) :
    PageOk g erasing cur' memory' p where
  block := h.block
  page := h.page
  aligned := h.aligned
  settled := h.settled
  cached k hk := (h.cached k hk).trans (hcur k hk).symm
  fits k hk := by
    rw [hmem k hk]
    exact h.fits k hk
  clean hdirty k hk := (h.clean hdirty k hk).trans (hmem k hk).symm

theorem holds_of_mem (hp : PageOk g erasing cur memory p)
    (hvalid : p.isValid) {o : Nat} (hle : p.pageOffset ≤ o)
    (hlt : o < p.pageOffset + g.cachedSize) :
    p.Holds p.blockAddr (g.pageOf o) := by
  obtain ⟨k, rfl⟩ := Nat.exists_eq_add_of_le hle
  exact ⟨hvalid, rfl, (pageOf_add hp.aligned (by omega)).symm⟩

end PageOk

namespace Coherent

variable (h : Coherent g erasing cur c)

include h

theorem update (hslots : c'.Slots)
    (hpool : c'.pool = update c.pool i p)
    (hself : p.isValid → PageOk g erasing cur' (g.bytes c'.memory) p)
    (hother : ∀ j ≠ i, (c.pool j).isValid → ∀ k < g.cachedSize,
      cur' (c.pool j).blockAddr ((c.pool j).pageOffset + k) =
          cur (c.pool j).blockAddr ((c.pool j).pageOffset + k) ∧
        g.bytes c'.memory (c.pool j).blockAddr ((c.pool j).pageOffset + k) =
          g.bytes c.memory (c.pool j).blockAddr ((c.pool j).pageOffset + k))
    (hstored : ∀ block o, block < g.blockCount → o < g.blockSize → ¬erasing block →
      (∀ j ≠ i, ¬(c.pool j).Holds block (g.pageOf o)) → ¬p.Holds block (g.pageOf o) →
      g.bytes c'.memory block o = cur' block o) : Coherent g erasing cur' c' where
  slots := hslots
  pages j := by
    rw [hpool]
    by_cases hji : j = i
    · rw [hji, update_self]
      exact hself
    · rw [update_of_ne hji]
      intro hj
      exact (h.pages j hj).congr (fun k hk => (hother j hji hj k hk).1)
        fun k hk => (hother j hji hj k hk).2
  stored block o hblock ho herasing hmiss := by
    refine hstored block o hblock ho herasing (fun j hji => ?_) ?_
    · have := hmiss j
      rwa [hpool, update_of_ne hji] at this
    · have := hmiss i
      rwa [hpool, update_self] at this

theorem stored_of_ne {b o : Nat} (hb : b < g.blockCount) (ho : o < g.blockSize)
    (herasing : ¬erasing b) (hother : ∀ j ≠ i, ¬(c.pool j).Holds b (g.pageOf o))
    (hi : ¬(c.pool i).Holds b (g.pageOf o)) : g.bytes c.memory b o = cur b o := by
  refine h.stored b o hb ho herasing fun j => ?_
  by_cases hji : j = i
  · exact hji ▸ hi
  · exact hother j hji

theorem same (hslots : c'.Slots)
    (hpool : c'.pool = Function.update c.pool i p) (hmem : c'.memory = c.memory)
    (hholds : ∀ block page, p.Holds block page ↔ (c.pool i).Holds block page)
    (hpage : PageOk g erasing cur (g.bytes c.memory) (c.pool i) →
      PageOk g erasing cur (g.bytes c.memory) p) :
    Coherent g erasing cur c' := by
  have hvalid : p.isValid → (c.pool i).isValid := fun hp => ((hholds _ _).1 ⟨hp, rfl, rfl⟩).1
  refine h.update hslots hpool (fun hp => ?_) (fun j _ _ k _ => ⟨rfl, by rw [hmem]⟩)
    fun block o hblock ho herasing hother hself => ?_
  · rw [hmem]
    exact hpage (h.pages i (hvalid hp))
  · rw [hmem]
    exact h.stored_of_ne hblock ho herasing hother fun hi => hself ((hholds _ _).2 hi)

theorem touch (i : Fin 8) : Coherent g erasing cur (c.touch i) :=
  h.same (h.slots.touch i) rfl rfl (fun _ _ => Iff.rfl) fun hp =>
    ⟨hp.block, hp.page, hp.aligned, hp.settled, hp.cached, hp.fits, hp.clean⟩

theorem release (i : Fin 8) : Coherent g erasing cur (c.release i) :=
  h.same (h.slots.release i) rfl rfl (fun _ _ => Iff.rfl) fun hp =>
    ⟨hp.block, hp.page, hp.aligned, hp.settled, hp.cached, hp.fits, hp.clean⟩

/-- A slot is given up: its bytes are in the flash. -/
theorem reserve (hclean : (c.pool i).isDirty = false)
    (block page : Nat) : Coherent g erasing cur (c.reserve i block page) := by
  refine h.update (h.slots.reserve i block page) rfl (by simp) (fun _ _ _ _ _ => ⟨rfl, rfl⟩)
    fun b o hb ho herasing hother _ => ?_
  by_cases hi : (c.pool i).Holds b (g.pageOf o)
  · obtain ⟨hvalid, rfl, hpage⟩ := hi
    have hp := h.pages i hvalid
    have hlt := g.indexOf_lt o
    have ho' : (c.pool i).pageOffset + g.indexOf o = o := hpage ▸ g.pageOf_add_indexOf o
    have := (hp.clean hclean _ hlt).symm.trans (hp.cached _ hlt)
    rwa [ho'] at this
  · exact h.stored_of_ne hb ho herasing hother hi

/-- **A flush succeeds**, and leaves the slot clean. -/
theorem flushPage (i : Fin 8) :
    Coherent g erasing cur (c.flushPage g i).1 ∧ ((c.flushPage g i).1.pool i).isDirty = false := by
  have hslots := h.slots.flushPage (g := g) i
  have hstep := flushPage_step g c i
  generalize c.flushPage g i = r at hslots hstep
  cases hstep with
  | keep hclean =>
    refine ⟨h, ?_⟩
    by_contra hdirty
    rw [Bool.not_eq_false] at hdirty
    exact hclean ⟨h.slots.dirty i hdirty, hdirty⟩
  | failed hdirty hwrite =>
    have hp := h.pages i hdirty.1
    rw [writeBlocks_eq, if_neg (g.cachedSize_eq ▸ g.not_refuses hp.block hp.page)] at hwrite
    cases hwrite
  | write memory hdirty hwrite =>
    have hp := h.pages i hdirty.1
    rw [writeBlocks_eq, ← g.cachedSize_eq, if_neg (g.not_refuses hp.block hp.page)] at hwrite
    have hmem : ∀ b o, o < g.blockSize → g.bytes memory b o = _ := fun b o ho =>
      Option.some.inj hwrite ▸ g.bytes_anded hp.block hp.page ho
    -- the page itself
    have hself : ∀ k < g.cachedSize,
      g.bytes memory (c.pool i).blockAddr ((c.pool i).pageOffset + k) =
        (c.pool i).data k := by
      intro k hk
      have hpage := hp.page
      rw [hmem _ _ (by omega), if_pos ⟨rfl, by omega, by omega⟩, Nat.add_sub_cancel_left]
      exact hp.fits k hk
    -- the rest of the flash
    have hother : ∀ b o, o < g.blockSize → ¬(c.pool i).Holds b (g.pageOf o) →
        g.bytes memory b o = g.bytes c.memory b o := by
      intro b o ho hnot
      rw [hmem b o ho]
      refine if_neg ?_
      rintro ⟨rfl, hle, hlt⟩
      exact hnot (hp.holds_of_mem hdirty.1 hle hlt)
    refine ⟨h.update hslots rfl (fun _ => ?_) (fun j hji hj k hk => ⟨rfl, ?_⟩)
      fun b o hb ho herasing hmiss hnot => ?_, ?_⟩
    · refine ⟨hp.block, hp.page, hp.aligned, hp.settled, hp.cached, fun k hk => ?_,
        fun _ k hk => ?_⟩
      · exact (congrArg (· &&& (c.pool i).data k) (hself k hk)).trans (UInt8.and_self ..)
      · exact (hself k hk).symm
    · have hpage := (h.pages j hj).page
      refine hother _ _ (by omega) fun hholds => ?_
      rw [pageOf_add (h.pages j hj).aligned hk] at hholds
      exact hji (h.slots.unique j i _ _ ⟨hj, rfl, rfl⟩ hholds)
    · exact (hother b o ho hnot).trans (h.stored_of_ne hb ho herasing hmiss hnot)
    · rw [flushed, pool_modify, if_pos rfl]

/-- The copy that is put into a slot is what the flash holds, and the block is not being erased. -/
structure Fresh (g : FlashGeometry) (erasing : Nat → Prop) (memory : Nat → Nat → UInt8)
    (block page : Nat) (copy : Nat → UInt8) : Prop where
  settled : ¬erasing block
  block_lt : block < g.blockCount
  page_le : page + g.cachedSize ≤ g.blockSize
  same : ∀ k < g.cachedSize, copy k = memory block (page + k)

instance [DecidablePred erasing] (memory : Nat → Nat → UInt8) (block page : Nat)
    (copy : Nat → UInt8) : Decidable (Fresh g erasing memory block page copy) :=
  decidable_of_iff (¬erasing block ∧ block < g.blockCount ∧ page + g.cachedSize ≤ g.blockSize ∧
      ∀ k < g.cachedSize, copy k = memory block (page + k))
    ⟨fun ⟨h₁, h₂, h₃, h₄⟩ => ⟨h₁, h₂, h₃, h₄⟩, fun h => ⟨h.settled, h.block_lt, h.page_le, h.same⟩⟩

theorem install (hmiss : ∀ j ≠ i, ¬(c.pool j).Holds block page)
    (hslot : (c.pool i).isReserved) (hpage : g.cachedSize ∣ page)
    (hfresh : Fresh g erasing (g.bytes c.memory) block page copy) :
    Coherent g erasing cur (c.install g i block page copy) := by
  have hinvalid : ∀ b p, ¬(c.pool i).Holds b p := fun b p hi =>
    Bool.false_ne_true ((h.slots.apart i hslot).symm.trans hi.1)
  refine h.update (h.slots.install hmiss copy) rfl (fun _ => ?_) (fun _ _ _ _ _ => ⟨rfl, rfl⟩)
    fun b o hb ho herasing hother hnot => ?_
  · have hcopy : ∀ k < g.cachedSize,
        (if k < g.cachedSize then copy k else (c.pool i).data k) =
        g.bytes c.memory block (page + k) := by
      intro k hk
      rw [if_pos hk, hfresh.same k hk]
    have hstored : ∀ k < g.cachedSize, g.bytes c.memory block (page + k) =
        cur block (page + k) := by
      intro k hk
      have hlt := hfresh.page_le
      refine h.stored_of_ne hfresh.block_lt (by omega) hfresh.settled ?_ (hinvalid _ _)
      rwa [pageOf_add hpage hk]
    refine ⟨hfresh.block_lt, hfresh.page_le, hpage, hfresh.settled, fun k hk => ?_, fun k hk => ?_,
      fun _ k hk => hcopy k hk⟩
    · exact (hcopy k hk).trans (hstored k hk)
    · exact (congrArg (g.bytes c.memory block (page + k) &&& ·) (hcopy k hk)).trans
        ((UInt8.and_self ..).trans (hcopy k hk).symm)
  · exact h.stored_of_ne hb ho herasing hother (hinvalid _ _)

theorem pageStep
    (hstep : PageStep g c block page r) : Coherent g erasing cur r.1 := by
  cases hstep with
  | hit i => exact h.touch i
  | failed => exact h
  | fetch i => exact (h.flushPage i).1.reserve (h.flushPage i).2 block page

theorem resumeStep (hstep : ResumeStep g c block page slot copy r)
    (hpage : g.cachedSize ∣ page)
    (hfresh : (∀ j ≠ slot, ¬(c.pool j).Holds block page) → (c.pool slot).isReserved →
      Fresh g erasing (g.bytes c.memory) block page copy) : Coherent g erasing cur r.1 := by
  cases hstep with
  | loaded i => exact (h.release slot).touch i
  | retry hstep => exact h.pageStep hstep
  | install hmiss hslot => exact (h.install hmiss hslot hpage (hfresh hmiss hslot)).touch slot

end Coherent

/-- The flash is left alone until the lock is given up. -/
theorem PageStep.memory_eq (h : PageStep g c block page r)
    (hi : r.2 = .page i) : r.1.memory = c.memory := by
  cases h with
  | hit => rfl
  | failed => rfl
  | fetch => cases hi

theorem ResumeStep.memory_eq
    (h : ResumeStep g c block page slot copy r) (hi : r.2 = .page i) : r.1.memory = c.memory := by
  cases h with
  | loaded => rfl
  | retry h => exact h.memory_eq hi
  | install => rfl

/-! ## Transfers -/

namespace Transfer

/-- The bytes as they should be once `x` has come as far as `n`. -/
def put (x : Transfer) (n : Nat) (cur : Nat → Nat → UInt8) : Nat → Nat → UInt8 := fun block o =>
  if x.direction = .write ∧ block = x.block ∧ x.offset + x.done ≤ o ∧ o < x.offset + n then
    x.buf (o - x.offset)
  else cur block o

/-- `x'` is `x` some bytes further. -/
structure Advances (cur : Nat → Nat → UInt8) (x x' : Transfer) : Prop where
  direction : x'.direction = x.direction
  called : x'.called = x.called
  block : x'.block = x.block
  offset : x'.offset = x.offset
  size : x'.size = x.size
  le : x.done ≤ x'.done
  write : x.direction = .write → x'.buf = x.buf
  old : ∀ j < x.done, x'.buf j = x.buf j
  new : x.direction = .read → ∀ j, x.done ≤ j → j < x'.done → x'.buf j = cur x.block (x.offset + j)

variable {x x' x'' : Transfer}

theorem put_of_read (hx : x.direction = .read) (n : Nat) (cur : Nat → Nat → UInt8) :
    x.put n cur = cur := by
  funext block o
  rw [put]
  rw [hx]
  simp

theorem put_self (x : Transfer) (cur : Nat → Nat → UInt8) : x.put x.done cur = cur := by
  funext block o
  rw [put, if_neg]
  omega

theorem Advances.refl (cur : Nat → Nat → UInt8) (x : Transfer) : Advances cur x x :=
  ⟨rfl, rfl, rfl, rfl, rfl, le_refl _, fun _ => rfl, fun _ _ => rfl, fun _ _ _ _ => by omega⟩

theorem Advances.trans (h : Advances cur x x') (h' : Advances (x.put x'.done cur) x' x'') :
    Advances cur x x'' where
  direction := h'.direction.trans h.direction
  called := h'.called.trans h.called
  block := h'.block.trans h.block
  offset := h'.offset.trans h.offset
  size := h'.size.trans h.size
  le := h.le.trans h'.le
  write hx := (h'.write (h.direction.trans hx)).trans (h.write hx)
  old j hj := (h'.old j (hj.trans_le h.le)).trans (h.old j hj)
  new hx j hj hlt := by
    rcases lt_or_ge j x'.done with hj' | hj'
    · rw [h'.old j hj']
      exact h.new hx j hj hj'
    · rw [h'.new (h.direction.trans hx) j hj' hlt, h.block, h.offset, put_of_read hx]

theorem Advances.put_put (h : Advances cur x x') {n : Nat} (hn : x'.done ≤ n) :
    x'.put n (x.put x'.done cur) = x.put n cur := by
  funext block o
  have hle := h.le
  unfold put
  rw [h.direction, h.block, h.offset]
  by_cases hx : x.direction = .write ∧ block = x.block
  · rw [h.write hx.1]
    simp only [hx, true_and]
    split_ifs <;> first | rfl | omega
  · rw [if_neg fun hc => hx ⟨hc.1, hc.2.1⟩, if_neg fun hc => hx ⟨hc.1, hc.2.1⟩,
      if_neg fun hc => hx ⟨hc.1, hc.2.1⟩]

theorem chunk_le (g : FlashGeometry) (x : Transfer) :
    x.index g + x.chunk g ≤ g.cachedSize ∧ x.chunk g ≤ x.size - x.done := by
  have hlt := g.indexOf_lt (x.offset + x.done)
  unfold chunk index
  dsimp only
  split_ifs <;> omega

theorem chunk_pos (g : FlashGeometry) (hx : x.done < x.size) : 0 < x.chunk g := by
  have hlt := g.indexOf_lt (x.offset + x.done)
  unfold chunk index
  dsimp only
  split_ifs <;> omega

theorem page_add_index (g : FlashGeometry) (x : Transfer) :
    x.page g + x.index g = x.offset + x.done := g.pageOf_add_indexOf _

end Transfer

variable {x : Transfer}

theorem access_done (g : FlashGeometry) (c : PhotonCache) (x : Transfer) (i : Fin 8) :
    (c.access g x i).2.done = x.done + x.chunk g := by
  unfold access
  cases x.direction <;> rfl

theorem access_size (g : FlashGeometry) (c : PhotonCache) (x : Transfer) (i : Fin 8) :
    (c.access g x i).2.size = x.size := by
  unfold access
  cases x.direction <;> rfl

section

variable (h : Coherent g erasing cur c)

include h

theorem access_advances (hi : (c.pool i).Holds x.block (x.page g)) :
    x.Advances cur (c.access g x i).2 := by
  have hchunk := (x.chunk_le g).1
  have hindex := x.page_add_index g
  obtain ⟨hvalid, hblock, hpage⟩ := hi
  unfold access
  cases hx : x.direction with
  | write =>
    exact ⟨hx.symm, rfl, rfl, rfl, rfl, le_add_right _ _, fun _ => rfl, fun _ _ => rfl,
      fun hread => by rw [hx] at hread; cases hread⟩
  | read =>
    refine ⟨hx.symm, rfl, rfl, rfl, rfl, le_add_right _ _, fun hwrite => ?_, fun j hj => ?_,
      fun _ j hj hlt => ?_⟩
    · rw [hx] at hwrite
      cases hwrite
    · exact if_neg fun hc => by omega
    · refine (if_pos ⟨hj, hlt⟩).trans ?_
      dsimp only at hlt
      rw [(h.pages i hvalid).cached _ (by omega)]
      congr 1
      omega

/-- **A chunk of a page.** What is written must have been erased. -/
theorem Coherent.access (hi : (c.pool i).Holds x.block (x.page g))
    (herased : x.direction = .write → ∀ j, x.done ≤ j → j < x.done + x.chunk g →
      g.bytes c.memory x.block (x.offset + j) = 0xFF) :
    Coherent g erasing (x.put (c.access g x i).2.done cur) (c.access g x i).1 ∧
      (c.access g x i).1.memory = c.memory := by
  have hslots := h.slots.access (g := g) x hi.1
  have hchunk := (x.chunk_le g).1
  have hindex := x.page_add_index g
  obtain ⟨hvalid, hblock, hpage⟩ := hi
  have hp := h.pages i hvalid
  revert hslots
  unfold PhotonCache.access
  cases hx : x.direction with
  | read =>
    intro _
    rw [Transfer.put_of_read hx]
    exact ⟨h, rfl⟩
  | write =>
    intro hslots
    -- the bytes of the page that are written
    have hput : ∀ k < g.cachedSize, x.put (x.done + x.chunk g) cur x.block (x.page g + k) =
        if x.index g ≤ k ∧ k < x.index g + x.chunk g then x.buf (x.done + (k - x.index g))
        else cur x.block (x.page g + k) := by
      intro k hk
      rw [Transfer.put]
      by_cases hk' : x.index g ≤ k ∧ k < x.index g + x.chunk g
      · rw [if_pos ⟨hx, rfl, by omega, by omega⟩, if_pos hk']
        congr 1
        omega
      · rw [if_neg (by omega), if_neg hk']
    -- the bytes of other pages
    have hother : ∀ b o, ¬(c.pool i).Holds b (g.pageOf o) →
        x.put (x.done + x.chunk g) cur b o = cur b o := by
      intro b o hnot
      refine if_neg ?_
      rintro ⟨-, rfl, hle, hlt⟩
      refine hnot (hblock ▸ hp.holds_of_mem hvalid ?_ ?_)
      · omega
      · omega
    refine ⟨h.update hslots rfl (fun _ => ?_) (fun j hji hj k hk => ⟨?_, rfl⟩)
      fun b o hb ho herasing hmiss hnot => ?_, rfl⟩
    · refine ⟨hp.block, hp.page, hp.aligned, hp.settled, fun k hk => ?_, fun k hk => ?_, by simp⟩
      · dsimp only
        rw [hblock, hpage, hput k hk, hp.cached k hk, hblock, hpage]
      · change g.bytes c.memory (c.pool i).blockAddr ((c.pool i).pageOffset + k) &&& _ = _
        dsimp only
        split_ifs
        · have hFF := herased hx (x.done + (k - x.index g)) (by omega) (by omega)
          rw [hblock, hpage, show x.page g + k = x.offset + (x.done + (k - x.index g)) by omega,
            hFF]
          exact UInt8.neg_one_and
        · exact hp.fits k hk
    · refine hother _ _ fun hholds => ?_
      rw [pageOf_add (h.pages j hj).aligned hk] at hholds
      exact hji (h.slots.unique j i _ _ ⟨hj, rfl, rfl⟩ hholds)
    · exact (h.stored_of_ne hb ho herasing hmiss hnot).trans (hother b o hnot).symm

/-- A section: what it leaves behind, and how far it has come. -/
structure Section (g : FlashGeometry) (erasing : Nat → Prop) (cur : Nat → Nat → UInt8)
    (x : Transfer) (r : PhotonCache × Transfer × Outcome) : Prop where
  coherent : Coherent g erasing (x.put r.2.1.done cur) r.1
  advances : x.Advances cur r.2.1

theorem Section.stay (x : Transfer) (o : Outcome) :
    Section g erasing cur x (c, x, o) :=
  ⟨by rw [x.put_self]; exact h, .refl cur x⟩

/-- What a section writes has been erased. -/
def Erased (memory : Nat → Nat → UInt8) (x x' : Transfer) : Prop :=
  x.direction = .write → ∀ j < x'.done, x.done ≤ j → memory x.block (x.offset + j) = 0xFF

instance (memory : Nat → Nat → UInt8) (x x' : Transfer) : Decidable (Erased memory x x') :=
  inferInstanceAs (Decidable (_ → ∀ j < x'.done, _ → _))

theorem Coherent.accessThen (hi : (c.pool i).Holds x.block (x.page g))
    {r : PhotonCache × Transfer × Outcome} (hle : (c.access g x i).2.done ≤ r.2.1.done)
    (herased : Erased (g.bytes c.memory) x r.2.1)
    (hrest : ∀ {cur}, Coherent g erasing cur (c.access g x i).1 →
      Erased (g.bytes (c.access g x i).1.memory) (c.access g x i).2 r.2.1 →
      Section g erasing cur (c.access g x i).2 r) :
    Section g erasing cur x r := by
  have hadv := access_advances h hi
  have hdone := access_done g c x i
  obtain ⟨hcoh, hmem⟩ := h.access hi fun hx j hj hlt => herased hx j (by omega) hj
  have hrest := hrest hcoh fun hx j hlt hj => by
    rw [hmem, hadv.block, hadv.offset]
    exact herased (hadv.direction ▸ hx) j hlt (hadv.le.trans hj)
  refine ⟨?_, hadv.trans hrest.advances⟩
  have hcoh' := hrest.coherent
  rwa [hadv.put_put hle] at hcoh'

end

theorem transfer_le (g : FlashGeometry) (fuel : Nat) (c : PhotonCache) (x : Transfer) :
    x.done ≤ (transfer g fuel c x).2.1.done := by
  induction fuel generalizing c x with
  | zero => exact le_refl _
  | succ fuel ih =>
    unfold transfer
    split_ifs
    · generalize c.getOrAllocPage g x.block (x.page g) = r
      obtain ⟨c₁, i | i | _⟩ := r
      · refine le_trans ?_ (ih (c₁.access g x i).1 (c₁.access g x i).2)
        rw [access_done]
        exact le_add_right _ _
      · exact le_refl _
      · exact le_refl _
    · exact le_refl _

/-- **The loop of `read` and `write`** keeps the cache coherent. -/
theorem Coherent.transfer (h : Coherent g erasing cur c) (fuel : Nat)
    (herased : Erased (g.bytes c.memory) x (transfer g fuel c x).2.1) :
    Section g erasing cur x (transfer g fuel c x) := by
  induction fuel generalizing c x cur with
  | zero => exact .stay h x _
  | succ fuel ih =>
    unfold transfer at herased ⊢
    split_ifs at herased ⊢
    · have hstep := getOrAllocPage_step g c x.block (x.page g)
      generalize c.getOrAllocPage g x.block (x.page g) = r at herased hstep ⊢
      have hcoh := h.pageStep hstep
      obtain ⟨c₁, i | i | _⟩ := r
      · have hmem : c₁.memory = c.memory := hstep.memory_eq rfl
        refine hcoh.accessThen (hstep.holds rfl) (transfer_le ..) ?_ fun hc he => ih hc he
        rw [hmem]
        exact herased
      · exact .stay hcoh x _
      · exact .stay hcoh x _
    · exact .stay h x _

/-- **A section after a page was read** keeps the cache coherent if the page is still what the flash
holds. -/
theorem Coherent.resumeTransfer (h : Coherent g erasing cur c)
    (hfresh : (∀ j ≠ slot, ¬(c.pool j).Holds x.block (x.page g)) → (c.pool slot).isReserved →
      Fresh g erasing (g.bytes c.memory) x.block (x.page g) copy)
    (herased : Erased (g.bytes c.memory) x (resumeTransfer g c x slot copy).2.1) :
    Section g erasing cur x (resumeTransfer g c x slot copy) := by
  unfold PhotonCache.resumeTransfer at herased ⊢
  have hstep := resumePage_step g c x.block (x.page g) slot copy
  generalize c.resumePage g x.block (x.page g) slot copy = r at herased hstep ⊢
  have hcoh := h.resumeStep hstep (dvd_sub_mod _) hfresh
  obtain ⟨c₁, i | i | _⟩ := r
  · have hmem : c₁.memory = c.memory := hstep.memory_eq rfl
    refine hcoh.accessThen (hstep.holds rfl) (transfer_le ..) ?_ fun hc he =>
      hc.transfer _ he
    rw [hmem]
    exact herased
  · exact .stay hcoh x _
  · exact .stay hcoh x _

/-! ### What holds of every section -/

theorem Slots.transfer (h : c.Slots) (g : FlashGeometry) (fuel : Nat) (x : Transfer) :
    (transfer g fuel c x).1.Slots := by
  induction fuel generalizing c x with
  | zero => exact h
  | succ fuel ih =>
    unfold transfer
    split_ifs
    · have hstep := getOrAllocPage_step g c x.block (x.page g)
      generalize c.getOrAllocPage g x.block (x.page g) = r at hstep ⊢
      have hslots := h.pageStep hstep
      obtain ⟨c₁, i | i | _⟩ := r
      · exact ih (hslots.access x (hstep.holds rfl).1) _
      · exact hslots
      · exact hslots
    · exact h

theorem Slots.resumeTransfer (h : c.Slots) (g : FlashGeometry) (x : Transfer) (slot : Fin 8)
    (copy : Nat → UInt8) : (resumeTransfer g c x slot copy).1.Slots := by
  unfold PhotonCache.resumeTransfer
  have hstep := resumePage_step g c x.block (x.page g) slot copy
  generalize c.resumePage g x.block (x.page g) slot copy = r at hstep ⊢
  have hslots := h.resumeStep hstep
  obtain ⟨c₁, i | i | _⟩ := r
  · exact (hslots.access x (hstep.holds rfl).1).transfer g _ _
  · exact hslots
  · exact hslots

theorem transfer_returned (g : FlashGeometry) {fuel : Nat} (hfuel : x.size - x.done ≤ fuel)
    (h : (transfer g fuel c x).2.2 = .returned true) : x.size ≤ (transfer g fuel c x).2.1.done := by
  induction fuel generalizing c x with
  | zero => exact Nat.sub_eq_zero_iff_le.1 (Nat.le_zero.1 hfuel)
  | succ fuel ih =>
    unfold transfer at h ⊢
    split_ifs at h ⊢ with hlt
    · generalize c.getOrAllocPage g x.block (x.page g) = r at h ⊢
      obtain ⟨c₁, i | i | _⟩ := r
      · have hchunk := x.chunk_pos g hlt
        have hdone := access_done g c₁ x i
        have hsize := access_size g c₁ x i
        have hle := ih (c := (c₁.access g x i).1) (x := (c₁.access g x i).2) (by omega) h
        rwa [hsize] at hle
      · cases h
      · cases h
    · exact not_lt.1 hlt

theorem resumeTransfer_returned (g : FlashGeometry)
    (h : (resumeTransfer g c x slot copy).2.2 = .returned true) :
    x.size ≤ (resumeTransfer g c x slot copy).2.1.done := by
  unfold resumeTransfer at h ⊢
  generalize c.resumePage g x.block (x.page g) slot copy = r at h ⊢
  obtain ⟨c₁, i | i | _⟩ := r
  · refine (access_size g c₁ x i).symm.le.trans ?_
    exact transfer_returned g (le_refl _) h
  · cases h
  · cases h

/-! ## Erasing and syncing -/

namespace Coherent

variable {erasing' : Nat → Prop}

/-- The slots of a block are given up, and what they held with them. -/
theorem clearBlock (h : Coherent g erasing cur c)
    (herasing : ∀ b, erasing' b ↔ erasing b ∨ b = block) :
    Coherent g erasing' cur (c.clearBlock block) := by
  have hkeep : ∀ i, ((c.clearBlock block).pool i).isValid →
      (c.clearBlock block).pool i = c.pool i ∧ (c.pool i).blockAddr ≠ block := by
    intro i
    unfold PhotonCache.clearBlock
    dsimp only
    split_ifs with hi
    · simp
    · intro hvalid
      refine ⟨rfl, fun hblock => hi ?_⟩
      simp [hvalid, hblock]
  refine ⟨h.slots.clearBlock block, fun i hi => ?_, fun b o hb ho hb' hmiss => ?_⟩
  · obtain ⟨heq, hne⟩ := hkeep i hi
    rw [heq] at hi ⊢
    have hp := h.pages i hi
    refine ⟨hp.block, hp.page, hp.aligned, fun hb => ?_, hp.cached, hp.fits, hp.clean⟩
    exact ((herasing _).1 hb).elim hp.settled hne
  · rw [herasing, not_or] at hb'
    refine h.stored b o hb ho hb'.1 fun i hi => hmiss i ?_
    obtain ⟨hvalid, rfl, hpage⟩ := hi
    unfold PhotonCache.clearBlock
    dsimp only
    rw [if_neg (by simp [hb'.2])]
    exact ⟨hvalid, rfl, hpage⟩

theorem eraseBlock (h : Coherent g erasing cur c) (hblock : erasing block)
    (herasing : ∀ b, erasing b ↔ erasing' b ∨ b = block) :
    Coherent g erasing'
      (fun b o => if b = block ∧ block < g.blockCount ∧ o < g.blockSize then 0xFF else cur b o)
      { c with memory := (g.eraseBlock c.memory block).getD c.memory } := by
  have hmem : ∀ b o, o < g.blockSize → g.bytes ((g.eraseBlock c.memory block).getD c.memory) b o =
      if b = block ∧ block < g.blockCount then 0xFF else g.bytes c.memory b o := fun b o ho =>
    g.bytes_eraseBlock c.memory block b ho
  refine ⟨⟨h.slots.unique, h.slots.apart, h.slots.dirty⟩, fun i hi => ?_,
    fun b o hb ho hb' hmiss => ?_⟩
  · have hp := h.pages i hi
    have hne : (c.pool i).blockAddr ≠ block := fun heq => hp.settled (heq ▸ hblock)
    have hp' : PageOk g erasing
        (fun b o => if b = block ∧ block < g.blockCount ∧ o < g.blockSize then 0xFF else cur b o)
        (g.bytes ((g.eraseBlock c.memory block).getD c.memory)) (c.pool i) := by
      refine hp.congr (fun k _ => if_neg fun hc => hne hc.1) fun k hk => ?_
      have hpage := hp.page
      rw [hmem _ _ (by omega), if_neg fun hc => hne hc.1]
    exact ⟨hp'.block, hp'.page, hp'.aligned, fun hb => hp.settled ((herasing _).2 (.inl hb)),
      hp'.cached, hp'.fits, hp'.clean⟩
  · refine (hmem b o ho).trans ?_
    by_cases hbb : b = block
    · rw [if_pos ⟨hbb, hbb ▸ hb⟩, if_pos ⟨hbb, hbb ▸ hb, ho⟩]
    · rw [if_neg fun hc => hbb hc.1, if_neg fun hc => hbb hc.1]
      exact h.stored b o hb ho (fun hb'' => ((herasing b).1 hb'').elim hb' hbb) hmiss

theorem sync (h : Coherent g erasing cur c) : Coherent g erasing cur (c.sync g) := by
  refine List.foldlRecOn _ _ h fun c' h' i _ => ?_
  split_ifs
  · exact (h'.flushPage i).1
  · exact h'

end Coherent

/-! ## Looking a byte up -/

/-- The byte as the cache has it, or else the flash. -/
def lookup (g : FlashGeometry) (c : PhotonCache) (block o : Nat) : UInt8 :=
  match (List.finRange 8).find? fun i => (c.pool i).Holds block (g.pageOf o) with
  | some i => (c.pool i).data (g.indexOf o)
  | none => g.bytes c.memory block o

/-- **Nothing is lost.** -/
theorem Coherent.lookup_eq (h : Coherent g erasing cur c) {o : Nat} (hblock : block < g.blockCount)
    (ho : o < g.blockSize) (herasing : ¬erasing block) : lookup g c block o = cur block o := by
  unfold lookup
  cases hfind : (List.finRange 8).find? fun i => (c.pool i).Holds block (g.pageOf o) with
  | none =>
    refine h.stored block o hblock ho herasing fun i => ?_
    simpa using List.find?_eq_none.1 hfind i (List.mem_finRange i)
  | some i =>
    obtain ⟨hvalid, hb, hpage⟩ : (c.pool i).Holds block (g.pageOf o) := by
      simpa using List.find?_some hfind
    have hcached := (h.pages i hvalid).cached _ (g.indexOf_lt o)
    rwa [hb, hpage, g.pageOf_add_indexOf] at hcached

end PhotonCache

end AuroraOS
