import AuroraOS.FlashDevice
import AuroraOS.Lib.Run

/-!
# The photon cache

`PhotonCacheLayer` of `vfs/photon_cache.hpp` over a `FlashBlockDevice`. A section that holds
`cache_mutex_` is one function. It ends when the operation returns, or in the middle of
`get_or_alloc_page`, where the lock is given up to read the flash; `resumePage` is what follows when
the lock has been taken again.

Requests that run over the last of the 32-bit offsets are left out, and so are the counters for
diagnosis.
-/

namespace AuroraOS

open ByteMem

/-! ## Flash -/

/-- The constants of a `FlashBlockDevice` whose blocks lie in the backing store. The masks of `read`
and `write` make sense for powers of two only, and `flush_page` takes a whole page from the `data`
of a `CachePage`. -/
structure FlashGeometry extends FlashBlockDevice where
  pageSize : Nat
  power : ∃ n, pageSize = 2 ^ n
  small : pageSize ≤ 256
  whole : blockSize * blockCount ≤ backingStoreBytes

namespace FlashGeometry

/-- The defaults of the constructor. -/
def standard : FlashGeometry := ⟨.standard, 256, ⟨8, rfl⟩, by decide, by decide⟩

variable (g : FlashGeometry)

/-- The size of a cached page. -/
def cachedSize : Nat := if g.pageSize > 256 then 256 else g.pageSize

theorem cachedSize_eq : g.cachedSize = g.pageSize := if_neg (Nat.not_lt.2 g.small)

theorem cachedSize_pos : 0 < g.cachedSize := by
  obtain ⟨n, hn⟩ := g.power
  rw [cachedSize_eq, hn]
  exact Nat.two_pow_pos n

/-- `curr_offset & ~(page_size - 1)`. -/
def pageOf (offset : Nat) : Nat := offset - offset % g.cachedSize

/-- `curr_offset & (page_size - 1)`. -/
def indexOf (offset : Nat) : Nat := offset % g.cachedSize

end FlashGeometry

/-! ## The pool -/

structure CachePage where
  blockAddr : Nat
  pageOffset : Nat
  data : Nat → UInt8
  isValid : Bool
  isDirty : Bool
  isReserved : Bool
  lastAccessTick : Nat

/-- The slot holds this page. -/
def CachePage.Holds (p : CachePage) (block page : Nat) : Prop :=
  p.isValid ∧ p.blockAddr = block ∧ p.pageOffset = page
  deriving Decidable

structure PhotonCache where
  pool : Fin 8 → CachePage
  memory : Mem
  tickCounter : Nat

namespace PhotonCache

/-- The constructors. -/
def init : PhotonCache where
  pool _ := ⟨0, 0, fun _ => 0, false, false, false, 0⟩
  memory _ := 0xFF
  tickCounter := 0

def modify (c : PhotonCache) (i : Fin 8) (f : CachePage → CachePage) : PhotonCache :=
  { c with pool := Function.update c.pool i (f (c.pool i)) }

/-- `last_access_tick = ++tick_counter_`. -/
def touch (c : PhotonCache) (i : Fin 8) : PhotonCache :=
  let tick := (c.tickCounter + 1) % 2 ^ 32
  { c with tickCounter := tick }.modify i fun p => { p with lastAccessTick := tick }

variable (g : FlashGeometry)

/-- The retries of `flush_page`. The `data` of a slot are aligned. -/
def writeRetried (memory : Mem) (p : CachePage) : Nat → Option Mem
  | 0 => none
  | n + 1 =>
    match g.writeBlocks memory p.blockAddr p.pageOffset true p.data g.pageSize with
    | some memory => some memory
    | none => writeRetried memory p n

/-- The page in the slot has been written. -/
def flushed (c : PhotonCache) (i : Fin 8) (memory : Mem) : PhotonCache :=
  { c with memory }.modify i fun p => { p with isDirty := false }

/-- `flush_page`, and whether it returns 0. -/
def flushPage (c : PhotonCache) (i : Fin 8) : PhotonCache × Bool :=
  let p := c.pool i
  if !p.isValid || !p.isDirty then (c, true)
  else
    match writeRetried g c.memory p 3 with
    | some memory => (c.flushed i memory, true)
    | none => (c, false)

/-- What the first loop of `get_or_alloc_page` finds: the page, or the slot to use, if any. -/
inductive Found
  | hit (i : Fin 8)
  | slot (oldest : Option (Fin 8))

/-- The first loop of `get_or_alloc_page`. -/
def scan (pool : Fin 8 → CachePage) (block page : Nat) :
    List (Fin 8) → Option (Fin 8) → Nat → Found
  | [], oldest, _ => .slot oldest
  | i :: l, oldest, oldestTick =>
    let p := pool i
    if p.Holds block page then .hit i
    else if !p.isValid && !p.isReserved then scan pool block page l (some i) 0
    else if !p.isReserved && p.lastAccessTick < oldestTick then
      scan pool block page l (some i) p.lastAccessTick
    else scan pool block page l oldest oldestTick

/-- How a section of `get_or_alloc_page` ends: with the page, with a slot reserved to read the page
into, or with -1. -/
inductive PageResult
  | page (i : Fin 8)
  | fetch (i : Fin 8)
  | failed

/-- The slot is empty and waits for a page. -/
def reserve (c : PhotonCache) (i : Fin 8) (block page : Nat) : PhotonCache :=
  c.modify i fun p =>
    { p with
      isValid := false
      isDirty := false
      isReserved := true
      blockAddr := block
      pageOffset := page }

/-- `get_or_alloc_page`, up to where it gives up the lock. -/
def getOrAllocPage (c : PhotonCache) (block page : Nat) : PhotonCache × PageResult :=
  match scan c.pool block page (List.finRange 8) none 0xFFFFFFFF with
  | .hit i => (c.touch i, .page i)
  | .slot none => (c, .failed)
  | .slot (some i) =>
    let (c, ok) := c.flushPage g i
    if ok then (c.reserve i block page, .fetch i) else (c, .failed)

/-- The check of `get_or_alloc_page` for the page having been loaded by another. -/
def loaded (c : PhotonCache) (block page : Nat) (slot : Fin 8) : Option (Fin 8) :=
  (List.finRange 8).find? fun i => i ≠ slot ∧ (c.pool i).Holds block page

def release (c : PhotonCache) (i : Fin 8) : PhotonCache :=
  c.modify i fun p => { p with isReserved := false }

/-- A page that has been read is put into its slot. -/
def install (c : PhotonCache) (i : Fin 8) (block page : Nat) (copy : Nat → UInt8) : PhotonCache :=
  c.modify i fun p =>
    { p with
      data := fun j => if j < g.cachedSize then copy j else p.data j
      blockAddr := block
      pageOffset := page
      isValid := true
      isReserved := false }

/-- `get_or_alloc_page` from where it has the lock again, `copy` being what it has read. -/
def resumePage (c : PhotonCache) (block page : Nat) (slot : Fin 8) (copy : Nat → UInt8) :
    PhotonCache × PageResult :=
  match c.loaded block page slot with
  | some i => ((c.release slot).touch i, .page i)
  | none =>
    if !(c.pool slot).isReserved then c.getOrAllocPage g block page
    else ((c.install g slot block page copy).touch slot, .page slot)

/-! ## The operations -/

/-- `read` and `write` are the same loop but for what is done with a page. -/
inductive Direction
  | read
  | write
  deriving DecidableEq

/-- A call of `read` or `write` that has come as far as `done`. It was called at time `called`. -/
structure Transfer where
  direction : Direction
  called : Nat
  block : Nat
  offset : Nat
  buf : Nat → UInt8
  size : Nat
  done : Nat
  fits : offset + size ≤ 2 ^ 32

namespace Transfer

def page (x : Transfer) : Nat := g.pageOf (x.offset + x.done)

def index (x : Transfer) : Nat := g.indexOf (x.offset + x.done)

def chunk (x : Transfer) : Nat :=
  let chunk := g.cachedSize - x.index g
  if chunk > x.size - x.done then x.size - x.done else chunk

end Transfer

/-- The body of the loop, the page being in slot `i`. -/
def access (c : PhotonCache) (x : Transfer) (i : Fin 8) : PhotonCache × Transfer :=
  let index := x.index g
  let chunk := x.chunk g
  match x.direction with
  | .read =>
    (c, { x with
      buf := fun j =>
        if x.done ≤ j ∧ j < x.done + chunk then (c.pool i).data (index + (j - x.done)) else x.buf j
      done := x.done + chunk })
  | .write =>
    (c.modify i fun p =>
      { p with
        data := fun k =>
          if index ≤ k ∧ k < index + chunk then x.buf (x.done + (k - index)) else p.data k
        isDirty := true }, { x with done := x.done + chunk })

/-- How a section of `read` or `write` ends: with a page to read into a slot, or with a return. -/
inductive Outcome
  | fetch (i : Fin 8)
  | returned (ok : Bool)

/-- The loop of `read` and `write`, up to where it gives up the lock. Each round gets at least one
byte further. -/
def transfer : Nat → PhotonCache → Transfer → PhotonCache × Transfer × Outcome
  | 0, c, x => (c, x, .returned true)
  | fuel + 1, c, x =>
    if x.done < x.size then
      match c.getOrAllocPage g x.block (x.page g) with
      | (c, .page i) =>
        let (c, x) := c.access g x i
        transfer fuel c x
      | (c, .fetch i) => (c, x, .fetch i)
      | (c, .failed) => (c, x, .returned false)
    else (c, x, .returned true)

/-- `read` or `write` from its beginning. -/
def beginTransfer (c : PhotonCache) (x : Transfer) : PhotonCache × Transfer × Outcome :=
  transfer g (x.size - x.done) c x

/-- `read` or `write` from where it has the lock again. -/
def resumeTransfer (c : PhotonCache) (x : Transfer) (slot : Fin 8) (copy : Nat → UInt8) :
    PhotonCache × Transfer × Outcome :=
  match c.resumePage g x.block (x.page g) slot copy with
  | (c, .page i) =>
    let (c, x) := c.access g x i
    beginTransfer g c x
  | (c, .fetch i) => (c, x, .fetch i)
  | (c, .failed) => (c, x, .returned false)

/-- The section of `erase`, which comes before the flash is erased. -/
def clearBlock (c : PhotonCache) (block : Nat) : PhotonCache :=
  { c with
    pool := fun i =>
      let p := c.pool i
      if (p.isValid || p.isReserved) && p.blockAddr = block then
        { p with isValid := false, isDirty := false, isReserved := false }
      else p }

/-- `sync`. -/
def sync (c : PhotonCache) : PhotonCache :=
  (List.finRange 8).foldl (fun c i =>
    if (c.pool i).isValid && (c.pool i).isDirty then (c.flushPage g i).1 else c) c

/-! ## What the pieces do -/

section Pieces

variable {g} {c c' : PhotonCache} {i j : Fin 8} {block page : Nat}
  {oldest : Option (Fin 8)} {l : List (Fin 8)}

theorem pool_modify (c : PhotonCache) (i j : Fin 8) (f : CachePage → CachePage) :
    (c.modify i f).pool j = if j = i then f (c.pool j) else c.pool j := by
  by_cases hji : j = i
  · rw [hji, if_pos rfl]
    exact Function.update_self ..
  · rw [if_neg hji]
    exact Function.update_of_ne hji ..

theorem pool_touch (c : PhotonCache) (i j : Fin 8) :
    ∃ tick, (c.touch i).pool j = { c.pool j with lastAccessTick := tick } := by
  unfold touch
  rw [pool_modify]
  split_ifs
  · exact ⟨_, rfl⟩
  · exact ⟨(c.pool j).lastAccessTick, rfl⟩

theorem writeRetried_eq (memory : Mem) (p : CachePage) :
    writeRetried g memory p 3 =
      g.writeBlocks memory p.blockAddr p.pageOffset true p.data g.pageSize := by
  simp only [writeRetried]
  cases g.writeBlocks memory p.blockAddr p.pageOffset true p.data g.pageSize <;> rfl

/-- What `flush_page` does. -/
inductive FlushStep (g : FlashGeometry) (c : PhotonCache) (i : Fin 8) : PhotonCache × Bool → Prop
  | keep (h : ¬((c.pool i).isValid ∧ (c.pool i).isDirty)) : FlushStep g c i (c, true)
  | write (memory : Mem) (h : (c.pool i).isValid ∧ (c.pool i).isDirty)
      (hwrite : g.writeBlocks c.memory (c.pool i).blockAddr (c.pool i).pageOffset true
        (c.pool i).data g.pageSize = some memory) : FlushStep g c i (c.flushed i memory, true)
  | failed (h : (c.pool i).isValid ∧ (c.pool i).isDirty)
      (hwrite : g.writeBlocks c.memory (c.pool i).blockAddr (c.pool i).pageOffset true
        (c.pool i).data g.pageSize = none) : FlushStep g c i (c, false)

theorem flushPage_step (g : FlashGeometry) (c : PhotonCache) (i : Fin 8) :
    FlushStep g c i (c.flushPage g i) := by
  unfold flushPage
  dsimp only
  rw [writeRetried_eq]
  by_cases hdirty : (c.pool i).isValid ∧ (c.pool i).isDirty
  · rw [if_neg (by simp [hdirty])]
    cases hwrite : g.writeBlocks c.memory (c.pool i).blockAddr (c.pool i).pageOffset true
      (c.pool i).data g.pageSize with
    | some memory => exact .write memory hdirty hwrite
    | none => exact .failed hdirty hwrite
  · rw [if_pos]
    · exact .keep hdirty
    · simp only [not_and_or] at hdirty
      rcases hdirty with h | h <;> simp [h]

theorem flushPage_failed (h : (c.flushPage g i).2 ≠ true) : (c.flushPage g i).1 = c := by
  have hstep := flushPage_step g c i
  generalize c.flushPage g i = r at h hstep
  cases hstep with
  | keep => rfl
  | write => exact absurd rfl h
  | failed => rfl

theorem scan_hit {tick : Nat}
    (h : scan c.pool block page l oldest tick = .hit i) : (c.pool i).Holds block page := by
  induction l generalizing oldest tick with
  | nil => cases h
  | cons j l ih =>
    unfold scan at h
    dsimp only at h
    split_ifs at h with hj
    · cases h
      exact hj
    · exact ih h
    · exact ih h
    · exact ih h

/-- Without the page in the pool, the slot to use is not reserved. -/
theorem scan_slot {found : Option (Fin 8)} {tick : Nat}
    (h : scan c.pool block page l oldest tick = .slot found)
    (hold : ∀ i ∈ oldest, (c.pool i).isReserved = false) :
    (∀ i ∈ l, ¬(c.pool i).Holds block page) ∧ ∀ i ∈ found, (c.pool i).isReserved = false := by
  induction l generalizing oldest tick with
  | nil =>
    cases h
    exact ⟨by simp, hold⟩
  | cons j l ih =>
    unfold scan at h
    dsimp only at h
    have hone : ∀ {tick}, (c.pool j).isReserved = false → ¬(c.pool j).Holds block page →
        scan c.pool block page l (some j) tick = .slot found →
        (∀ i ∈ j :: l, ¬(c.pool i).Holds block page) ∧
          ∀ i ∈ found, (c.pool i).isReserved = false := by
      intro tick hres hj h
      obtain ⟨hl, hfound⟩ := ih h (by simpa using hres)
      exact ⟨by simpa using ⟨hj, hl⟩, hfound⟩
    split_ifs at h with hj hfree hold'
    · simp only [Bool.and_eq_true, Bool.not_eq_true'] at hfree
      exact hone hfree.2 hj h
    · simp only [Bool.and_eq_true, Bool.not_eq_true'] at hold'
      exact hone hold'.1 hj h
    · obtain ⟨hl, hfound⟩ := ih h hold
      exact ⟨by simpa using ⟨hj, hl⟩, hfound⟩

/-- **What `get_or_alloc_page` does** before it gives up the lock. -/
inductive PageStep (g : FlashGeometry) (c : PhotonCache) (block page : Nat) :
    PhotonCache × PageResult → Prop
  | hit (i : Fin 8) (hi : (c.pool i).Holds block page) :
      PageStep g c block page (c.touch i, .page i)
  | failed : PageStep g c block page (c, .failed)
  | fetch (i : Fin 8) (hmiss : ∀ j, ¬(c.pool j).Holds block page)
      (hfree : (c.pool i).isReserved = false) (hflush : (c.flushPage g i).2 = true) :
      PageStep g c block page ((c.flushPage g i).1.reserve i block page, .fetch i)

theorem getOrAllocPage_step (g : FlashGeometry) (c : PhotonCache) (block page : Nat) :
    PageStep g c block page (c.getOrAllocPage g block page) := by
  unfold getOrAllocPage
  cases hscan : scan c.pool block page (List.finRange 8) none 0xFFFFFFFF with
  | hit i => exact .hit i (scan_hit hscan)
  | slot found =>
    obtain ⟨hmiss, hfree⟩ := scan_slot hscan (by simp)
    cases found with
    | none => exact .failed
    | some i =>
      dsimp only
      have hmiss' : ∀ j, ¬(c.pool j).Holds block page := fun j => hmiss j (List.mem_finRange j)
      by_cases hflush : (c.flushPage g i).2 = true
      · rw [if_pos hflush]
        exact .fetch i hmiss' (hfree i rfl) hflush
      · rw [if_neg hflush, flushPage_failed hflush]
        exact .failed

theorem loaded_some (h : c.loaded block page j = some i) : i ≠ j ∧ (c.pool i).Holds block page := by
  simpa using List.find?_some h

theorem loaded_none (h : c.loaded block page j = none) (hi : i ≠ j) :
    ¬(c.pool i).Holds block page := by
  have := List.find?_eq_none.1 h i (List.mem_finRange i)
  simpa [hi] using this

/-- **What `get_or_alloc_page` does** with the lock taken again. -/
inductive ResumeStep (g : FlashGeometry) (c : PhotonCache) (block page : Nat) (slot : Fin 8)
    (copy : Nat → UInt8) : PhotonCache × PageResult → Prop
  | loaded (i : Fin 8) (hi : (c.pool i).Holds block page) :
      ResumeStep g c block page slot copy ((c.release slot).touch i, .page i)
  | retry {r : PhotonCache × PageResult} (h : PageStep g c block page r) :
      ResumeStep g c block page slot copy r
  | install (hmiss : ∀ j ≠ slot, ¬(c.pool j).Holds block page) (hslot : (c.pool slot).isReserved) :
      ResumeStep g c block page slot copy
        ((c.install g slot block page copy).touch slot, .page slot)

theorem resumePage_step (g : FlashGeometry) (c : PhotonCache) (block page : Nat) (slot : Fin 8)
    (copy : Nat → UInt8) :
    ResumeStep g c block page slot copy (c.resumePage g block page slot copy) := by
  unfold resumePage
  cases hloaded : c.loaded block page slot with
  | some i => exact .loaded i (loaded_some hloaded).2
  | none =>
    by_cases hslot : (c.pool slot).isReserved
    · rw [if_neg (by simp [hslot])]
      exact .install (fun _ => loaded_none hloaded) hslot
    · rw [if_pos (by simpa using hslot)]
      exact .retry (getOrAllocPage_step g c block page)

end Pieces

/-! ## Failing flash operations -/

section Failures

/-- A request that no other task disturbs: the flash is read where the lock was given up. The result
of `read_blocks` is not looked at: if it fails, the page is what the stack holds, `junk`. -/
inductive RequestStep (g : FlashGeometry) (junk : Mem) :
    PhotonCache × Transfer × Outcome → PhotonCache × Transfer × Outcome → Prop
  | resume (c : PhotonCache) (x : Transfer) (i : Fin 8) : RequestStep g junk (c, x, .fetch i)
      (c.resumeTransfer g x i
        ((g.readBlocks c.memory x.block (x.page g) junk g.cachedSize).getD junk))

/-- In the course of the request, a page has to be read into slot `i`. -/
def Reads (g : FlashGeometry) (junk : Mem) (c : PhotonCache) (x : Transfer) (c' : PhotonCache)
    (x' : Transfer) (i : Fin 8) : Prop :=
  Relation.ReflTransGen (RequestStep g junk) (c.beginTransfer g x) (c', x', .fetch i)

/-- `x` is `x₀`, some bytes further. -/
def Transfer.Same (x₀ x : Transfer) : Prop :=
  x.block = x₀.block ∧ x.offset = x₀.offset ∧ x.size = x₀.size

/-- The request is the same, and the page that it waits for is in no slot. -/
structure Waits (g : FlashGeometry) (x₀ : Transfer)
    (r : PhotonCache × Transfer × Outcome) : Prop where
  same : x₀.Same r.2.1
  fetch : ∀ i, r.2.2 = .fetch i → r.2.1.done < r.2.1.size ∧ (r.1.pool i).isReserved ∧
    (r.1.pool i).isValid = false ∧ ∀ j ≠ i, ¬(r.1.pool j).Holds r.2.1.block (r.2.1.page g)

variable {g : FlashGeometry} {c : PhotonCache} {i j : Fin 8} {x x₀ : Transfer} {junk : Mem}

theorem flushPage_of_ne (hji : j ≠ i) : (c.flushPage g i).1.pool j = c.pool j := by
  have hstep := flushPage_step g c i
  generalize c.flushPage g i = r at hstep
  cases hstep with
  | keep => rfl
  | write memory => exact Function.update_of_ne hji ..
  | failed => rfl

theorem Transfer.Same.access (h : x₀.Same x) (g : FlashGeometry) (c : PhotonCache) (i : Fin 8) :
    x₀.Same (c.access g x i).2 := by
  unfold PhotonCache.access
  cases x.direction <;> exact h

namespace Waits

theorem returned (h : x₀.Same x) (c : PhotonCache) (ok : Bool) : Waits g x₀ (c, x, .returned ok) :=
  ⟨h, fun _ hi => by cases hi⟩

theorem pageStep {r : PhotonCache × PageResult} (h : PageStep g c x.block (x.page g) r)
    (hlt : x.done < x.size) (hx : x₀.Same x) (hr : r.2 = .fetch i) :
    Waits g x₀ (r.1, x, .fetch i) := by
  refine ⟨hx, fun i' hi' => ?_⟩
  cases h with
  | hit => cases hr
  | failed => cases hr
  | fetch i hmiss =>
    cases hr
    cases hi'
    refine ⟨hlt, by simp [reserve, pool_modify], by simp [reserve, pool_modify], fun j hji => ?_⟩
    rw [reserve, pool_modify, if_neg hji, flushPage_of_ne hji]
    exact hmiss j

theorem transfer (fuel : Nat) (hx : x₀.Same x) : Waits g x₀ (transfer g fuel c x) := by
  induction fuel generalizing c x with
  | zero => exact returned hx c true
  | succ fuel ih =>
    unfold PhotonCache.transfer
    split_ifs with hlt
    · have hstep := getOrAllocPage_step g c x.block (x.page g)
      generalize c.getOrAllocPage g x.block (x.page g) = r at hstep
      obtain ⟨c₁, i | i | _⟩ := r
      · exact ih (hx.access g c₁ i)
      · exact pageStep hstep hlt hx rfl
      · exact returned hx c₁ false
    · exact returned hx c true

theorem step {r r' : PhotonCache × Transfer × Outcome} (h : Waits g x₀ r)
    (hstep : RequestStep g junk r r') : Waits g x₀ r' := by
  cases hstep with
  | resume c x i =>
    unfold resumeTransfer
    have hresume := resumePage_step g c x.block (x.page g) i
      ((g.readBlocks c.memory x.block (x.page g) junk g.cachedSize).getD junk)
    generalize c.resumePage g x.block (x.page g) i _ = r at hresume
    obtain ⟨c₁, k | k | _⟩ := r
    · exact transfer _ (h.same.access g c₁ k)
    · cases hresume with
      | retry hpage => exact pageStep hpage (h.fetch i rfl).1 h.same rfl
    · exact returned h.same c₁ false

end Waits

end Failures

end PhotonCache

end AuroraOS
