import AuroraOS.Lib.ByteMem
import AuroraOS.Lib.Chain
import Mathlib.Logic.Relation

/-!
# The page allocator

`PageAllocator` cuts a region into pages of 4096 bytes. The free pages form a list whose links are
in the pages themselves: the first word of a free page is the address of the next one. A page that
is handed out belongs to the caller, who writes to it at will.

Addresses are those of a machine with words of `b` bytes, and arithmetic on them wraps around at
`256 ^ b`. The null pointer is the address 0.
-/

namespace AuroraOS

open ByteMem Chain Nat List

/-- `PAGE_SIZE` -/
def pageSize : Nat := 4096

/-- The allocator's fields, and the memory they point into. -/
structure PageAllocator where
  mem : Mem
  baseAddr : Nat
  totalPages : Nat
  freePages : Nat
  freeListHead : Nat

namespace PageAllocator

/-! ## The source -/

/-- `x & ~(PAGE_SIZE - 1)` -/
def roundDown (b x : Nat) : Nat :=
  (BitVec.ofNat (8 * b) x &&& ~~~BitVec.ofNat (8 * b) (pageSize - 1)).toNat

/-- The loop of `init` with `n` rounds to go, and the write after it. -/
def linkPages (b : Nat) : Nat → Nat → Mem → Mem
  | 0, current, m => store m current b 0
  | n + 1, current, m =>
    let next := (current + pageSize) % 256 ^ b
    linkPages b n next (store m current b next)

def init (b : Nat) (m : Mem) (startAddr size : Nat) : PageAllocator :=
  let start := roundDown b (startAddr + pageSize - 1)
  let «end» := roundDown b (startAddr + size)
  let totalPages := («end» + 256 ^ b - start) % 256 ^ b / pageSize
  if totalPages = 0 then
    { mem := m, baseAddr := start, totalPages, freePages := totalPages, freeListHead := 0 }
  else
    { mem := linkPages b (totalPages - 1) start m, baseAddr := start, totalPages,
      freePages := totalPages, freeListHead := start }

/-- The page handed out, null if there is none. -/
def allocPage (b : Nat) (s : PageAllocator) : Nat × PageAllocator :=
  if s.freeListHead = 0 then (0, s)
  else
    (s.freeListHead, { s with
      freeListHead := load s.mem s.freeListHead b
      freePages := (s.freePages + 256 ^ b - 1) % 256 ^ b
      mem := fill s.mem s.freeListHead pageSize 0 })

def freePage (b : Nat) (s : PageAllocator) (page : Nat) : PageAllocator :=
  if page = 0 then s
  else { s with
    mem := store s.mem page b s.freeListHead
    freeListHead := page
    freePages := (s.freePages + 1) % 256 ^ b }

end PageAllocator

open PageAllocator

/-! ## Runs -/

/-- The allocator, and the pages that are handed out. -/
structure PageSystem where
  pages : PageAllocator
  out : List Nat

/-- A call, or the write of a byte by anyone but the allocator. -/
inductive PageOp
  | alloc
  | free (page : Nat)
  | write (x : Nat) (v : UInt8)

namespace PageOp

/-- The state after a call. -/
def exec (b : Nat) (s : PageSystem) : PageOp → PageSystem
  | .alloc =>
    let (page, pages) := s.pages.allocPage b
    { pages, out := if page = 0 then s.out else page :: s.out }
  | .free page => { pages := s.pages.freePage b page, out := s.out.erase page }
  | .write x v => { s with pages := { s.pages with mem := Function.update s.pages.mem x v } }

/-- A page that is freed is handed out. A write is to a page that is handed out, or to memory that
is not the allocator's. -/
def Enabled (startAddr size : Nat) (s : PageSystem) : PageOp → Prop
  | .alloc => True
  | .free page => page ∈ s.out
  | .write x _ => (∃ p ∈ s.out, p ≤ x ∧ x < p + pageSize) ∨ x < startAddr ∨ startAddr + size ≤ x

end PageOp

/-- A step of a run after `init(start_addr, size)`. -/
def PageStep (b startAddr size : Nat) (s s' : PageSystem) : Prop :=
  ∃ op : PageOp, op.Enabled startAddr size s ∧ op.exec b s = s'

/-- The system after `init`. -/
def PageSystem.start (b : Nat) (m : Mem) (startAddr size : Nat) : PageSystem :=
  { pages := .init b m startAddr size, out := [] }

/-- An address as a pointer. -/
def toPtr (a : Nat) : Option Nat := if a = 0 then none else some a

/-- The link in the first word of a free page. -/
def nextFree (b : Nat) (m : Mem) (p : Nat) : Option Nat := toPtr (load m p b)

/-- The free list, from its head on. -/
def PageAllocator.FreeList (b : Nat) (s : PageAllocator) (l : List Nat) : Prop :=
  Path (nextFree b s.mem) (toPtr s.freeListHead) l none

/-- What the allocator promises for the region of `size` bytes at `startAddr`. -/
structure PageSystem.Sound (b startAddr size : Nat) (s : PageSystem) : Prop where
  inside : ∀ p ∈ s.out, pageSize ∣ p ∧ startAddr ≤ p ∧ p + pageSize ≤ startAddr + size
  nodup : s.out.Nodup
  freeList : ∃ l, s.pages.FreeList b l ∧ s.pages.freePages = l.length
  outstanding : s.pages.freePages + s.out.length = s.pages.totalPages

/-- The first page boundary of the region. -/
def firstPage (startAddr : Nat) : Nat := (startAddr + (pageSize - 1)) / pageSize * pageSize

theorem pageSize_dvd_firstPage (startAddr : Nat) : pageSize ∣ firstPage startAddr :=
  dvd_mul_left _ _

/-- The last page boundary of the region. -/
def endPage (startAddr size : Nat) : Nat := (startAddr + size) / pageSize * pageSize

/-- The region has no room for a page but a boundary, or it has pages, all of them at addresses that
exist and are not null. -/
def UsableRegion (b startAddr size : Nat) : Prop :=
  firstPage startAddr = endPage startAddr size ∨
    0 < firstPage startAddr ∧ firstPage startAddr < endPage startAddr size ∧
      endPage startAddr size ≤ 256 ^ b
  deriving Decidable

/-! ## Rounding -/

section Rounding

variable {b startAddr size : Nat}

theorem testBit_pageSize_sub_one (i : Nat) : (pageSize - 1).testBit i = decide (i < 12) :=
  testBit_two_pow_sub_one 12 i

namespace PageAllocator

theorem roundDown_eq (b x : Nat) : roundDown b x = x % 256 ^ b / pageSize * pageSize := by
  have hpow : 256 ^ b = 2 ^ (8 * b) := by rw [pow_mul]; norm_num
  have hpage : pageSize = 2 ^ 12 := rfl
  apply eq_of_testBit_eq
  intro i
  rw [hpow, hpage, testBit_mul_two_pow, testBit_div_two_pow, roundDown,
    BitVec.testBit_toNat, BitVec.getLsbD_and, BitVec.getLsbD_not, BitVec.getLsbD_ofNat,
    BitVec.getLsbD_ofNat, testBit_pageSize_sub_one]
  by_cases hi : i < 12
  · simp [hi]
  · by_cases hw : i < 8 * b
    · simp [hi, hw, show i - 12 + 12 = i by omega, show 12 ≤ i by omega]
    · simp [hw, show i - 12 + 12 = i by omega]

/-- Where the words have four or eight bytes, the page boundaries wrap around as addresses do. -/
theorem roundDown_mod (hb : b = 4 ∨ b = 8) (x : Nat) :
    roundDown b x = x / pageSize * pageSize % 256 ^ b := by
  rw [roundDown_eq]
  unfold pageSize
  rcases hb with rfl | rfl <;> norm_num <;> omega

end PageAllocator

/-- The number of pages that `init` computes from the region's boundaries. -/
def pageCount (b startAddr size : Nat) : Nat :=
  (endPage startAddr size % 256 ^ b + 256 ^ b - firstPage startAddr % 256 ^ b) % 256 ^ b / pageSize

theorem pageCount_of_le (hb : b = 4 ∨ b = 8) (ha : startAddr < 256 ^ b) (hs : size < 256 ^ b)
    (h : firstPage startAddr ≤ endPage startAddr size) :
    firstPage startAddr + pageSize * pageCount b startAddr size = endPage startAddr size := by
  unfold pageCount firstPage endPage pageSize at *
  rcases hb with rfl | rfl <;> norm_num at ha hs ⊢ <;> omega

theorem pageCount_of_lt (hb : b = 4 ∨ b = 8) (ha : startAddr < 256 ^ b)
    (h : endPage startAddr size < firstPage startAddr) :
    pageSize * (pageCount b startAddr size + 1) = 256 ^ b := by
  unfold pageCount firstPage endPage pageSize at *
  rcases hb with rfl | rfl <;> norm_num at ha ⊢ <;> omega

theorem pageSize_dvd_pow (hb : b = 4 ∨ b = 8) : pageSize ∣ 256 ^ b := by
  rcases hb with rfl | rfl <;> decide

theorem mul_pageCount_lt (b startAddr size : Nat) :
    pageSize * pageCount b startAddr size < 256 ^ b := by
  have hlt : (endPage startAddr size % 256 ^ b + 256 ^ b - firstPage startAddr % 256 ^ b) % 256 ^ b
      < 256 ^ b := mod_lt _ (by positivity)
  exact lt_of_le_of_lt (mul_div_le _ _) hlt

end Rounding

/-! ## `init` -/

section Init

variable {b startAddr size : Nat} {m : Mem}

theorem toPtr_zero : toPtr 0 = none := rfl

theorem toPtr_of_pos {a : Nat} (h : 0 < a) : toPtr a = some a := if_neg (by omega)

namespace PageAllocator

variable {p n current : Nat}

theorem init_eq (hb : b = 4 ∨ b = 8) (m : Mem) (startAddr size : Nat) :
    init b m startAddr size =
      if pageCount b startAddr size = 0 then
        { mem := m, baseAddr := firstPage startAddr % 256 ^ b, totalPages := 0, freePages := 0,
          freeListHead := 0 }
      else
        { mem := linkPages b (pageCount b startAddr size - 1) (firstPage startAddr % 256 ^ b) m
          baseAddr := firstPage startAddr % 256 ^ b
          totalPages := pageCount b startAddr size
          freePages := pageCount b startAddr size
          freeListHead := firstPage startAddr % 256 ^ b } := by
  have hstart : roundDown b (startAddr + pageSize - 1) = firstPage startAddr % 256 ^ b :=
    roundDown_mod hb _
  have hend : roundDown b (startAddr + size) = endPage startAddr size % 256 ^ b :=
    roundDown_mod hb _
  unfold init
  rw [hstart, hend]
  change (if pageCount b startAddr size = 0 then _ else _) = _
  by_cases h : pageCount b startAddr size = 0
  · congr
  · rw [if_neg h, if_neg h]
    rfl

/-- Distinct pages do not overlap. -/
theorem pages_apart {q : Nat} (hp : pageSize ∣ p) (hq : pageSize ∣ q) (h : p ≠ q) :
    p + pageSize ≤ q ∨ q + pageSize ≤ p := by
  unfold pageSize at *
  omega

variable (hb : b = 4 ∨ b = 8)

include hb

theorem words_apart {q : Nat} (hp : pageSize ∣ p) (hq : pageSize ∣ q) (h : p ≠ q) :
    p + b ≤ q ∨ q + b ≤ p := by
  have := pages_apart hp hq h
  unfold pageSize at this
  omega

theorem pageSize_dvd_mod {x : Nat} (hx : pageSize ∣ x) : pageSize ∣ x % 256 ^ b :=
  (dvd_mod_iff (pageSize_dvd_pow hb)).mpr hx

/-- The links are written to the pages from `current` on, with wrap-around, and nowhere else. -/
theorem load_linkPages (hp : pageSize ∣ p) (hcurrent : pageSize ∣ current) (hlt : current < 256 ^ b)
    (h : ∀ i ≤ n, p ≠ (current + pageSize * i) % 256 ^ b) :
    load (linkPages b n current m) p b = load m p b := by
  induction n generalizing current m with
  | zero =>
    have hne : p ≠ current := by simpa [mod_eq_of_lt hlt] using h 0 le_rfl
    exact load_store_of_disjoint _ _ (words_apart hb hp hcurrent hne)
  | succ n ih =>
    have hne : p ≠ current := by simpa [mod_eq_of_lt hlt] using h 0 (zero_le _)
    have hnext : ∀ i ≤ n, p ≠ ((current + pageSize) % 256 ^ b + pageSize * i) % 256 ^ b := by
      intro i hi
      rw [mod_add_mod, add_assoc, add_comm pageSize]
      exact h (i + 1) (by omega)
    rw [linkPages, ih (pageSize_dvd_mod hb (dvd_add hcurrent dvd_rfl))
      (mod_lt _ (by positivity)) hnext]
    exact load_store_of_disjoint _ _ (words_apart hb hp hcurrent hne)

/-- A page's own link outlives the rest of the loop. -/
theorem load_linkPages_succ (hcurrent : pageSize ∣ current) (hlt : current < 256 ^ b)
    (hn : pageSize * (n + 1 + 1) ≤ 256 ^ b) :
    load (linkPages b (n + 1) current m) current b = (current + pageSize) % 256 ^ b := by
  have hsize : 0 < pageSize := by decide
  rw [linkPages, load_linkPages hb hcurrent (pageSize_dvd_mod hb (dvd_add hcurrent dvd_rfl))
    (mod_lt _ (by positivity)), load_store_same, mod_mod]
  intro i hi heq
  -- the loop would have to come round to `current`
  have hstep : pageSize * (i + 1) < 256 ^ b := by
    have := mul_le_mul_left pageSize (show i + 1 + 1 ≤ n + 1 + 1 by omega)
    rw [mul_succ] at this
    omega
  rw [mod_add_mod, add_assoc, add_comm pageSize] at heq
  have hmod : pageSize * (i + 1) % 256 ^ b = 0 := by
    have : current + 0 ≡ current + pageSize * (i + 1) [MOD 256 ^ b] := by
      rw [Nat.ModEq, add_zero, mod_eq_of_lt hlt]
      exact heq
    exact (Nat.ModEq.add_left_cancel' current this).symm
  rw [mod_eq_of_lt hstep] at hmod
  exact absurd hmod (by positivity)

/-- The list that the loop makes ends with its last page, or where the addresses wrap around to
null. -/
theorem path_linkPages {k : Nat} (hcurrent : pageSize ∣ current) (hpos : 0 < current) (hk : 0 < k)
    (hkn : k ≤ n + 1) (hfit : current + pageSize * k ≤ 256 ^ b)
    (hend : k = n + 1 ∨ current + pageSize * k = 256 ^ b) (hn : pageSize * (n + 1) ≤ 256 ^ b) :
    Path (nextFree b (linkPages b n current m)) (some current)
      (range' current k pageSize) none := by
  have hsize : 0 < pageSize := by decide
  induction n generalizing current k m with
  | zero =>
    obtain rfl : k = 1 := by omega
    refine ⟨rfl, ?_⟩
    change toPtr (load (store m current b 0) current b) = none
    rw [load_store_same, zero_mod, toPtr_zero]
  | succ n ih =>
    obtain ⟨k, rfl⟩ : ∃ k', k = k' + 1 := ⟨k - 1, by omega⟩
    rw [mul_succ] at hfit hend
    have hlt : current < 256 ^ b := by omega
    refine ⟨rfl, ?_⟩
    rw [nextFree, load_linkPages_succ hb hcurrent hlt hn]
    cases k with
    | zero =>
      have hwrap : current + pageSize = 256 ^ b := by omega
      rw [hwrap, mod_self]
      rfl
    | succ k =>
      rw [mul_succ] at hfit hend
      have hnext : (current + pageSize) % 256 ^ b = current + pageSize :=
        mod_eq_of_lt (by omega)
      rw [linkPages, hnext]
      apply ih (dvd_add hcurrent dvd_rfl) (by omega) (succ_pos k) (by omega)
      · rw [mul_succ]
        omega
      · rw [mul_succ]
        omega
      · exact le_trans (mul_le_mul_left _ (by omega)) hn

theorem init_freePages : (init b m startAddr size).freePages = pageCount b startAddr size := by
  rw [init_eq hb]
  split_ifs with h
  · exact h.symm
  · rfl

theorem init_totalPages : (init b m startAddr size).totalPages = pageCount b startAddr size := by
  rw [init_eq hb]
  split_ifs with h
  · exact h.symm
  · rfl

theorem init_freeListHead (h : pageCount b startAddr size ≠ 0) :
    (init b m startAddr size).freeListHead = firstPage startAddr % 256 ^ b := by
  rw [init_eq hb, if_neg h]

/-- **The free list after `init`.** It has all the pages that were counted, or it ends where the
addresses do. -/
theorem init_freeList {k : Nat} (hpos : 0 < firstPage startAddr) (hk : 0 < k)
    (hkn : k ≤ pageCount b startAddr size) (hfit : firstPage startAddr + pageSize * k ≤ 256 ^ b)
    (hend : k = pageCount b startAddr size ∨ firstPage startAddr + pageSize * k = 256 ^ b) :
    (init b m startAddr size).FreeList b (range' (firstPage startAddr) k pageSize) := by
  have hsize : 0 < pageSize := by decide
  have hcount : pageCount b startAddr size ≠ 0 := by omega
  have hlt : firstPage startAddr < 256 ^ b := by
    have := mul_le_mul_left pageSize hk
    omega
  rw [init_eq hb, if_neg hcount, mod_eq_of_lt hlt, FreeList]
  rw [toPtr_of_pos hpos]
  apply path_linkPages hb (pageSize_dvd_firstPage startAddr) hpos hk (by omega) hfit
    (hend.imp_left (by omega))
  rw [Nat.sub_add_cancel (by omega)]
  exact (mul_pageCount_lt b startAddr size).le

end PageAllocator

end Init

theorem PageAllocator.allocPage_totalPages (b : Nat) (s : PageAllocator) :
    (s.allocPage b).2.totalPages = s.totalPages := by
  unfold allocPage
  split_ifs <;> rfl

/-! ## The invariant -/

/-- A page between two addresses. -/
def IsPage (lo hi p : Nat) : Prop := 0 < p ∧ pageSize ∣ p ∧ lo ≤ p ∧ p + pageSize ≤ hi

/-- The pages between two addresses are those of the free list and those handed out. -/
structure PageSystem.Split (b lo hi : Nat) (s : PageSystem) (l : List Nat) : Prop where
  freeList : s.pages.FreeList b l
  free : s.pages.freePages = l.length
  total : l.length + s.out.length = s.pages.totalPages
  small : s.pages.totalPages < 256 ^ b
  pages : ∀ p ∈ l ++ s.out, IsPage lo hi p
  nodup : (l ++ s.out).Nodup

theorem path_nextFree_congr {b : Nat} (hb : b = 4 ∨ b = 8) {m m' : Mem} {o : Option Nat}
    {l : List Nat} (h : Path (nextFree b m) o l none)
    (hm : ∀ p ∈ l, ∀ y, p ≤ y → y < p + pageSize → m' y = m y) :
    Path (nextFree b m') o l none := by
  apply h.congr
  intro p hp
  have hword : load m' p b = load m p b := by
    apply load_congr
    intro y hy hlt
    apply hm p hp y hy
    unfold pageSize
    omega
  rw [nextFree, nextFree, hword]

namespace PageSystem.Split

variable {b lo hi : Nat} {s s' : PageSystem} {l l' : List Nat}

variable {page startAddr size : Nat}

/-- Pages only move between the free list and the callers. -/
theorem of_perm (h : s.Split b lo hi l) (hfree : s'.pages.FreeList b l')
    (hcount : s'.pages.freePages = l'.length) (htotal : s'.pages.totalPages = s.pages.totalPages)
    (hperm : (l' ++ s'.out).Perm (l ++ s.out)) : s'.Split b lo hi l' where
  freeList := hfree
  free := hcount
  total := by
    have := hperm.length_eq
    rw [length_append, length_append] at this
    rw [this, h.total, htotal]
  small := htotal ▸ h.small
  pages p hp := h.pages p (hperm.mem_iff.mp hp)
  nodup := hperm.nodup_iff.mpr h.nodup

theorem head_eq_zero (h : s.Split b lo hi []) : s.pages.freeListHead = 0 := by
  have hlist : toPtr s.pages.freeListHead = none := h.freeList
  by_contra hne
  rw [toPtr_of_pos (pos_of_ne_zero hne)] at hlist
  cases hlist

theorem head_eq {rest : List Nat} (h : s.Split b lo hi (page :: rest)) :
    s.pages.freeListHead = page := by
  have hlist : toPtr s.pages.freeListHead = some page := h.freeList.1
  by_cases hnull : s.pages.freeListHead = 0
  · rw [hnull] at hlist
    cases hlist
  · rw [toPtr_of_pos (pos_of_ne_zero hnull)] at hlist
    exact Option.some.inj hlist

theorem alloc_nil (h : s.Split b lo hi []) : PageOp.alloc.exec b s = s := by
  simp only [PageOp.exec, allocPage, if_pos h.head_eq_zero, if_true]

theorem alloc_cons (hb : b = 4 ∨ b = 8) {rest : List Nat} (h : s.Split b lo hi (page :: rest)) :
    (PageOp.alloc.exec b s).Split b lo hi rest := by
  have hhead := h.head_eq
  have hnull : s.pages.freeListHead ≠ 0 := by
    rw [hhead]
    exact (h.pages page (by simp)).1.ne'
  obtain ⟨-, hrest⟩ := h.freeList
  subst hhead
  simp only [PageOp.exec, allocPage, if_neg hnull]
  refine h.of_perm ?_ ?_ rfl perm_middle
  · -- the page that is zeroed is not in the rest of the list
    apply path_nextFree_congr hb hrest
    intro q hq y hy hlt
    have hne : q ≠ s.pages.freeListHead := by
      rintro rfl
      exact (nodup_cons.mp h.nodup).1 (mem_append_left _ hq)
    have hapart := pages_apart (h.pages q (by simp [hq])).2.1
      (h.pages s.pages.freeListHead (by simp)).2.1 hne
    dsimp only
    rw [fill_apply, if_neg (by omega)]
  · have hlt : rest.length < 256 ^ b := by
      have htotal := h.total
      have hsmall := h.small
      rw [length_cons] at htotal
      omega
    rw [h.free, length_cons, Nat.add_right_comm, Nat.add_sub_cancel, Nat.add_mod_right,
      mod_eq_of_lt hlt]

theorem alloc (hb : b = 4 ∨ b = 8) (h : s.Split b lo hi l) :
    ∃ l', (PageOp.alloc.exec b s).Split b lo hi l' := by
  cases l with
  | nil =>
    rw [h.alloc_nil]
    exact ⟨[], h⟩
  | cons page rest => exact ⟨rest, h.alloc_cons hb⟩

theorem head_lt (hhi : hi ≤ 256 ^ b) (h : s.Split b lo hi l) :
    s.pages.freeListHead < 256 ^ b := by
  have hsize : 0 < pageSize := by decide
  by_cases hnull : s.pages.freeListHead = 0
  · rw [hnull]
    positivity
  · have hhead : some s.pages.freeListHead = l.head? := by
      rw [← toPtr_of_pos (pos_of_ne_zero hnull)]
      exact h.freeList.head_eq
    have hpage := h.pages _ (mem_append_left _ (mem_of_head? hhead.symm))
    have := hpage.2.2.2
    omega

theorem freeOne (hb : b = 4 ∨ b = 8) (hhi : hi ≤ 256 ^ b) (h : s.Split b lo hi l)
    (hout : page ∈ s.out) : ((PageOp.free page).exec b s).Split b lo hi (page :: l) := by
  have hpage := h.pages page (mem_append_right l hout)
  have hperm : (page :: l ++ s.out.erase page).Perm (l ++ s.out) :=
    perm_middle.symm.trans ((perm_cons_erase hout).symm.append_left l)
  have hnodup : (page :: (l ++ s.out.erase page)).Nodup := hperm.nodup_iff.mpr h.nodup
  have hlt : l.length + 1 < 256 ^ b := by
    have hlen := hperm.length_eq
    have htotal := h.total
    have hsmall := h.small
    simp only [length_append, length_cons] at hlen
    omega
  simp only [PageOp.exec, freePage, if_neg hpage.1.ne']
  refine h.of_perm ⟨toPtr_of_pos hpage.1, ?_⟩ ?_ rfl hperm
  · -- the link to the old list is in the page, the links of the old list are in the other pages
    have hlink : nextFree b (store s.pages.mem page b s.pages.freeListHead) page =
        toPtr s.pages.freeListHead := by
      rw [nextFree, load_store_same, mod_eq_of_lt (h.head_lt hhi)]
    rw [hlink]
    apply path_nextFree_congr hb h.freeList
    intro q hq y hy hlt
    have hne : q ≠ page := by
      rintro rfl
      exact (nodup_cons.mp hnodup).1 (mem_append_left _ hq)
    have hapart :=
      pages_apart (h.pages q (mem_append_left _ hq)).2.1 hpage.2.1 hne
    apply store_apply_outside
    unfold pageSize at hapart hlt
    omega
  · rw [h.free, length_cons, mod_eq_of_lt hlt]

theorem write (hb : b = 4 ∨ b = 8) (hlo : startAddr ≤ lo) (hhi : hi ≤ startAddr + size)
    (h : s.Split b lo hi l) {x : Nat} {v : UInt8}
    (hx : (PageOp.write x v).Enabled startAddr size s) :
    ((PageOp.write x v).exec b s).Split b lo hi l := by
  refine h.of_perm ?_ h.free rfl (List.Perm.refl _)
  apply path_nextFree_congr hb h.freeList
  intro q hq y hy hlt
  apply Function.update_of_ne
  obtain ⟨_, hdvd, hqlo, hqhi⟩ := h.pages q (mem_append_left _ hq)
  rcases hx with ⟨p, hp, hpx⟩ | hx
  · have hne : q ≠ p := (nodup_append.mp h.nodup).2.2 q hq p hp
    have := pages_apart hdvd (h.pages p (mem_append_right _ hp)).2.1 hne
    omega
  · omega

theorem step (hb : b = 4 ∨ b = 8) (hlo : startAddr ≤ lo) (hhi : hi ≤ startAddr + size)
    (hw : hi ≤ 256 ^ b) (h : s.Split b lo hi l) (hstep : PageStep b startAddr size s s') :
    ∃ l', s'.Split b lo hi l' := by
  obtain ⟨op, hop, rfl⟩ := hstep
  cases op with
  | alloc => exact h.alloc hb
  | free page => exact ⟨page :: l, h.freeOne hb hw hop⟩
  | write x v => exact ⟨l, h.write hb hlo hhi hop⟩

theorem run (hb : b = 4 ∨ b = 8) (hlo : startAddr ≤ lo) (hhi : hi ≤ startAddr + size)
    (hw : hi ≤ 256 ^ b) (h : s.Split b lo hi l)
    (hrun : Relation.ReflTransGen (PageStep b startAddr size) s s') :
    ∃ l', s'.Split b lo hi l' := by
  induction hrun with
  | refl => exact ⟨l, h⟩
  | tail _ hstep ih =>
    obtain ⟨l', h'⟩ := ih
    exact h'.step hb hlo hhi hw hstep

theorem sound (hlo : startAddr ≤ lo) (hhi : hi ≤ startAddr + size) (h : s.Split b lo hi l) :
    s.Sound b startAddr size where
  inside p hp := by
    obtain ⟨_, hdvd, hplo, hphi⟩ := h.pages p (mem_append_right _ hp)
    exact ⟨hdvd, by omega, by omega⟩
  nodup := h.nodup.of_append_right
  freeList := ⟨l, h.freeList, h.free⟩
  outstanding := by rw [h.free, h.total]

end PageSystem.Split

open PageSystem

/-! ## Regions -/

section Regions

variable {b startAddr size : Nat} {m : Mem}

theorem le_firstPage (startAddr : Nat) : startAddr ≤ firstPage startAddr := by
  unfold firstPage pageSize
  omega

theorem endPage_le (startAddr size : Nat) : endPage startAddr size ≤ startAddr + size :=
  div_mul_le_self _ _

section

variable (hb : b = 4 ∨ b = 8)

include hb

/-- `init` makes the pages of a usable region the free ones. -/
theorem UsableRegion.split (ha : startAddr < 256 ^ b) (hs : size < 256 ^ b)
    (h : UsableRegion b startAddr size) (m : Mem) :
    (start b m startAddr size).Split b (firstPage startAddr) (endPage startAddr size)
      (range' (firstPage startAddr) (pageCount b startAddr size) pageSize) := by
  have hsize : 0 < pageSize := by decide
  have hle : firstPage startAddr ≤ endPage startAddr size := h.elim le_of_eq fun h => h.2.1.le
  have hcount := pageCount_of_le hb ha hs hle
  -- where a page was counted, the region is of the second kind
  have hkind : pageCount b startAddr size ≠ 0 →
      0 < firstPage startAddr ∧ endPage startAddr size ≤ 256 ^ b := by
    intro hne
    rcases h with h | h
    · rw [h, add_eq_left] at hcount
      exact absurd ((Nat.mul_eq_zero.mp hcount).resolve_left hsize.ne') hne
    · exact ⟨h.1, h.2.2⟩
  have hlist : (init b m startAddr size).FreeList b
      (range' (firstPage startAddr) (pageCount b startAddr size) pageSize) := by
    by_cases hzero : pageCount b startAddr size = 0
    · rw [hzero, init_eq hb, if_pos hzero]
      rfl
    · obtain ⟨hpos, hend⟩ := hkind hzero
      exact init_freeList hb hpos (pos_of_ne_zero hzero) le_rfl (by omega)
        (.inl rfl)
  refine ⟨hlist, ?_, ?_, ?_, ?_, ?_⟩
  · rw [length_range']
    exact init_freePages hb
  · rw [length_range']
    exact (init_totalPages hb).symm
  · calc (init b m startAddr size).totalPages
      _ = pageCount b startAddr size := init_totalPages hb
      _ ≤ pageSize * pageCount b startAddr size := Nat.le_mul_of_pos_left _ hsize
      _ < 256 ^ b := mul_pageCount_lt b startAddr size
  · intro p hp
    rw [start, append_nil, mem_range'] at hp
    obtain ⟨i, hi, rfl⟩ := hp
    have hroom := mul_le_mul_left pageSize hi
    rw [mul_succ] at hroom
    exact ⟨by omega, dvd_add (pageSize_dvd_firstPage startAddr) (dvd_mul_right _ _), by omega,
      by omega⟩
  · rw [start, append_nil]
    exact hlist.nodup

theorem firstPage_le_pow (ha : startAddr < 256 ^ b) : firstPage startAddr ≤ 256 ^ b := by
  unfold firstPage pageSize
  rcases hb with rfl | rfl <;> norm_num at ha ⊢ <;> omega

theorem firstPage_lt_pow (ha : startAddr < 256 ^ b) (h : firstPage startAddr % 256 ^ b ≠ 0) :
    firstPage startAddr < 256 ^ b := by
  apply lt_of_le_of_ne (firstPage_le_pow hb ha)
  intro heq
  rw [heq, mod_self] at h
  exact h rfl

/-- If the first boundary of the region is null, the list is empty whatever was counted. -/
theorem not_sound_of_null (hcount : pageCount b startAddr size ≠ 0)
    (hnull : firstPage startAddr % 256 ^ b = 0) :
    ¬(start b m startAddr size).Sound b startAddr size := by
  intro h
  obtain ⟨l, hl, hlen⟩ := h.freeList
  have hhead := hl.head_eq
  rw [start, init_freeListHead hb hcount, hnull] at hhead
  rw [start, init_freePages hb,
    head?_eq_none_iff.mp hhead.symm] at hlen
  exact hcount hlen

/-- If the region holds no page boundary, the first page handed out is after its end. -/
theorem not_sound_of_lt (hcount : pageCount b startAddr size ≠ 0)
    (hpos : 0 < firstPage startAddr % 256 ^ b)
    (hlt : startAddr + size < firstPage startAddr % 256 ^ b + pageSize) :
    ¬(PageOp.alloc.exec b (.start b m startAddr size)).Sound b startAddr size := by
  intro h
  have hhead : (init b m startAddr size).freeListHead =
      firstPage startAddr % 256 ^ b := init_freeListHead hb hcount
  have hout : firstPage startAddr % 256 ^ b ∈
      (PageOp.alloc.exec b (.start b m startAddr size)).out := by
    simp only [PageOp.exec, start, allocPage, hhead, if_neg hpos.ne']
    exact mem_singleton_self _
  have := (h.inside _ hout).2.2
  omega

/-- If the region goes past the end of the addresses, the list ends before it. -/
theorem not_sound_of_wrap (hpos : 0 < firstPage startAddr) (hlt : firstPage startAddr < 256 ^ b)
    (hwrap : 256 ^ b < firstPage startAddr + pageSize * pageCount b startAddr size) :
    ¬(start b m startAddr size).Sound b startAddr size := by
  intro h
  obtain ⟨l, hl, hlen⟩ := h.freeList
  obtain ⟨k, hk⟩ : pageSize ∣ 256 ^ b - firstPage startAddr :=
    dvd_sub (pageSize_dvd_pow hb) (pageSize_dvd_firstPage startAddr)
  have hcount : k < pageCount b startAddr size := by
    by_contra hge
    have := Nat.mul_le_mul_left pageSize (Nat.le_of_not_lt hge)
    omega
  have hshort := init_freeList (m := m) hb hpos
    (pos_of_ne_zero (by rintro rfl; omega)) hcount.le (by omega) (.inr (by omega))
  rw [hl.unique hshort, length_range', start,
    init_freePages hb] at hlen
  omega

end

/-- **The allocator keeps its promises for the usable regions, and for no others.** -/
theorem pages_sound_iff (hb : b = 4 ∨ b = 8) (ha : startAddr < 256 ^ b) (hs : size < 256 ^ b) :
    (∀ m s, Relation.ReflTransGen (PageStep b startAddr size) (.start b m startAddr size) s →
      s.Sound b startAddr size) ↔ UsableRegion b startAddr size := by
  have hsize : 0 < pageSize := by decide
  constructor
  · intro hsound
    have hstart := hsound (fun _ => 0) _ .refl
    rcases lt_trichotomy (endPage startAddr size) (firstPage startAddr) with hlt | heq | hgt
    · have hcount : pageCount b startAddr size ≠ 0 := by
        intro hzero
        have hpow := pageCount_of_lt hb ha hlt
        rw [hzero] at hpow
        rcases hb with rfl | rfl <;> cases hpow
      by_cases hnull : firstPage startAddr % 256 ^ b = 0
      · exact absurd hstart (not_sound_of_null hb hcount hnull)
      · have hmod := mod_eq_of_lt (firstPage_lt_pow hb ha hnull)
        have hroom : startAddr + size < endPage startAddr size + pageSize :=
          lt_div_mul_add hsize
        have hstep : PageStep b startAddr size (.start b (fun _ => 0) startAddr size)
            (PageOp.alloc.exec b (.start b (fun _ => 0) startAddr size)) :=
          ⟨.alloc, trivial, rfl⟩
        exact absurd (hsound _ _ (.single hstep))
          (not_sound_of_lt hb hcount (pos_of_ne_zero hnull) (by omega))
    · exact .inl heq.symm
    · have hpages := pageCount_of_le hb ha hs hgt.le
      have hcount : pageCount b startAddr size ≠ 0 := by
        intro hzero
        rw [hzero] at hpages
        omega
      have hnull : firstPage startAddr % 256 ^ b ≠ 0 := fun hnull =>
        absurd hstart (not_sound_of_null hb hcount hnull)
      have hpos : 0 < firstPage startAddr := by
        apply pos_of_ne_zero
        intro hzero
        exact hnull (by rw [hzero, zero_mod])
      refine .inr ⟨hpos, hgt, ?_⟩
      by_contra hwrap
      exact not_sound_of_wrap hb hpos (firstPage_lt_pow hb ha hnull) (by omega) hstart
  · intro h m s hrun
    have hend : endPage startAddr size ≤ 256 ^ b :=
      h.elim (fun h => h ▸ firstPage_le_pow hb ha) fun h => h.2.2
    have hlo := le_firstPage startAddr
    have hhi := endPage_le startAddr size
    obtain ⟨l, hl⟩ := (h.split hb ha hs m).run hb hlo hhi hend hrun
    exact hl.sound hlo hhi

/-- Two pages of memory at `0x1000`, on a 32-bit machine. -/
theorem pages_sound_two : UsableRegion 4 0x1000 0x2000 ∧
    ∀ m s, Relation.ReflTransGen (PageStep 4 0x1000 0x2000) (.start 4 m 0x1000 0x2000) s →
      s.Sound 4 0x1000 0x2000 :=
  ⟨by decide, (pages_sound_iff (.inl rfl) (by decide) (by decide)).mpr (by decide)⟩

/-- The sixteen bytes at `0x1001` hold no page boundary. Their start rounded up is after their end
rounded down, the count of pages wraps around, and the first page handed out is not theirs. -/
theorem page_outside_region : ∃ s,
    Relation.ReflTransGen (PageStep 4 0x1001 16) (.start 4 (fun _ => 0) 0x1001 16) s ∧
      s.out = [0x2000] ∧ s.pages.totalPages = 0xFFFFF ∧ ¬s.Sound 4 0x1001 16 := by
  refine ⟨PageOp.alloc.exec 4 (.start 4 (fun _ => 0) 0x1001 16),
    .single ⟨.alloc, trivial, rfl⟩, ?_, ?_,
    not_sound_of_lt (.inl rfl) (by decide) (by decide) (by decide)⟩
  · rfl
  · decide

end Regions

end AuroraOS
