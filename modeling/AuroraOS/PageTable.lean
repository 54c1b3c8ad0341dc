import AuroraOS.Lib.BitField
import AuroraOS.Lib.Radix
import AuroraOS.PageAllocator

/-!
# Page tables

`AArch64MmuManager` of `arch/arm/cortex-a/mmu/mmu_manager.cpp`, with the entries of `mmu_pte.hpp`
and the flags of `kernel/mm/vasp.hpp`. A virtual address is translated through four levels of tables
of 512 entries. The tables are pages of the page allocator; `map` takes those that are missing,
`unmap` gives back those that have become empty, the destructor gives back all.

The tables are in the same memory as the allocator's free list, and a pointer is an address, 0 for
the null pointer. The manager is for a machine with words of 8 bytes.
-/

namespace AuroraOS

open ByteMem

/-! ## Flags and entries -/

/-- A set of the flags of `enum class MapFlags`. -/
@[ext]
structure MapFlags where
  read : Bool
  write : Bool
  execute : Bool
  user : Bool
  device : Bool
  deriving DecidableEq, Repr

namespace MapFlags

def none : MapFlags := ⟨false, false, false, false, false⟩

def Read : MapFlags := { none with read := true }

def Write : MapFlags := { none with write := true }

def Execute : MapFlags := { none with execute := true }

def User : MapFlags := { none with user := true }

def Device : MapFlags := { none with device := true }

/-- `operator|` -/
instance : OrOp MapFlags where
  or a b := ⟨a.read || b.read, a.write || b.write, a.execute || b.execute, a.user || b.user,
    a.device || b.device⟩

end MapFlags

/-- `PageTableEntry`: a word with bit-fields. -/
abbrev PageTableEntry := BitVec 64

namespace PageTableEntry

def valid : BitField 64 1 := ⟨0, by decide⟩

/-- Set in an entry that leads to a table, and in a page's entry at the last level. -/
def isTable : BitField 64 1 := ⟨1, by decide⟩

def attrIndx : BitField 64 3 := ⟨2, by decide⟩

def ap : BitField 64 2 := ⟨6, by decide⟩

def sh : BitField 64 2 := ⟨8, by decide⟩

def af : BitField 64 1 := ⟨10, by decide⟩

def outputAddr : BitField 64 36 := ⟨12, by decide⟩

def pxn : BitField 64 1 := ⟨53, by decide⟩

def uxn : BitField 64 1 := ⟨54, by decide⟩

/-! `MAIR_IDX_DEVICE_nGnRnE`, `MAIR_IDX_DEVICE_nGnRE` and `MAIR_IDX_NORMAL_WB` -/

def mairIdxDeviceNGnRnE : BitVec 3 := 0

def mairIdxDeviceNGnRE : BitVec 3 := 1

def mairIdxNormalWb : BitVec 3 := 3

def shOuterShareable : BitVec 2 := 2

def shInnerShareable : BitVec 2 := 3

def apEl1RwEl0None : BitVec 2 := 0

def apAllRw : BitVec 2 := 1

def apEl1RoEl0None : BitVec 2 := 2

def apAllRo : BitVec 2 := 3

def isValid (e : PageTableEntry) : Bool := valid.get e = 1

/-- The address that an entry holds. -/
def getAddress (e : PageTableEntry) : Nat := (outputAddr.get e).toNat <<< 12

/-- The entry that `get_or_allocate_next_level` writes. -/
def ofTable (page : Nat) : PageTableEntry :=
  let e : PageTableEntry := valid.set 0#64 1
  let e : PageTableEntry := isTable.set e 1
  outputAddr.set e (BitVec.ofNat 36 (page >>> 12))

/-- The fields that `map` and `protect` set from the flags. -/
def setAttributes (e : PageTableEntry) (flags : MapFlags) : PageTableEntry :=
  let e : PageTableEntry :=
    if flags.device then sh.set (attrIndx.set e mairIdxDeviceNGnRE) shOuterShareable
    else sh.set (attrIndx.set e mairIdxNormalWb) shInnerShareable
  let e : PageTableEntry :=
    if flags.user then ap.set e (if flags.write then apAllRw else apAllRo)
    else ap.set e (if flags.write then apEl1RwEl0None else apEl1RoEl0None)
  if flags.execute then
    pxn.set (uxn.set e (if flags.user then 0 else 1)) (if flags.user then 1 else 0)
  else pxn.set (uxn.set e 1) 1

/-- The entry that `map` writes at the last level. -/
def ofPage (paddr : Nat) (flags : MapFlags) : PageTableEntry :=
  let e : PageTableEntry := valid.set 0#64 1
  let e : PageTableEntry := isTable.set e 1
  let e : PageTableEntry := outputAddr.set e (BitVec.ofNat 36 (paddr >>> 12))
  let e : PageTableEntry := af.set e 1
  e.setAttributes flags

/-- The flags that `translate` reads off an entry. -/
def flags (e : PageTableEntry) : MapFlags :=
  let f := MapFlags.Read
  let f := if ap.get e = apAllRw ∨ ap.get e = apEl1RwEl0None then f ||| .Write else f
  let f := if ap.get e = apAllRw ∨ ap.get e = apAllRo then f ||| .User else f
  let f := if uxn.get e = 0 ∨ pxn.get e = 0 then f ||| .Execute else f
  if attrIndx.get e = mairIdxDeviceNGnRE ∨ attrIndx.get e = mairIdxDeviceNGnRnE then f ||| .Device
  else f

end PageTableEntry

/-! ## Tables in memory -/

namespace PageSystem

def allocPage (s : PageSystem) : Nat × PageSystem :=
  ((s.pages.allocPage 8).1, PageOp.alloc.exec 8 s)

def freePage (s : PageSystem) (page : Nat) : PageSystem := (PageOp.free page).exec 8 s

/-- `table[i]` -/
def entry (s : PageSystem) (table : Nat) (i : Fin 512) : PageTableEntry :=
  BitVec.ofNat 64 (load s.pages.mem (table + 8 * i) 8)

def setEntry (s : PageSystem) (table : Nat) (i : Fin 512) (e : PageTableEntry) : PageSystem :=
  { s with pages := { s.pages with mem := store s.pages.mem (table + 8 * i) 8 e.toNat } }

/-- The table that an entry leads to. -/
def child (e : PageTableEntry) : Option Nat := if e.isValid then some e.getAddress else none

/-- `AArch64MmuManager::get_or_allocate_next_level` for the entry `table[i]`. -/
def getOrAllocateNextLevel (s : PageSystem) (table : Nat) (i : Fin 512) : Nat × PageSystem :=
  if (s.entry table i).isValid then ((s.entry table i).getAddress, s)
  else
    let (newPage, s) := s.allocPage
    if newPage = 0 then (0, s) else (newPage, s.setEntry table i (.ofTable newPage))

/-- The loops of `unmap` over a table. -/
def isEmpty (s : PageSystem) (table : Nat) : Bool :=
  (List.finRange 512).all fun i => !(s.entry table i).isValid

/-- `AArch64MmuManager::free_table_recursive`, for a table with `n` levels of tables below it. -/
def freeTableRecursive : Nat → PageSystem → Nat → PageSystem
  | 0, s, table => if table = 0 then s else s.freePage table
  | n + 1, s, table =>
    if table = 0 then s
    else
      let s := (List.finRange 512).foldl (fun s i =>
        let e : PageTableEntry := s.entry table i
        if e.isValid ∧ PageTableEntry.isTable.get e = 1 then freeTableRecursive n s e.getAddress
        else s) s
      s.freePage table

end PageSystem

/-- `(vaddr >> (12 + 9 * level)) & 0x1FF`: the index that is read in a table with `level` levels of
tables below it. -/
def tableIndex (vaddr level : Nat) : Fin 512 :=
  ⟨vaddr / 2 ^ (12 + 9 * level) % 512, Nat.mod_lt _ (by decide)⟩

/-- An `AArch64MmuManager`, and the allocator that it takes its tables from. -/
structure MmuManager where
  pages : PageSystem
  l0Table : Nat

namespace MmuManager

/-! ## The manager -/

def construct (pages : PageSystem) : MmuManager :=
  let (page, pages) := pages.allocPage
  { pages, l0Table := page }

def destroy (s : MmuManager) : MmuManager :=
  if s.l0Table ≠ 0 then { pages := s.pages.freeTableRecursive 3 s.l0Table, l0Table := 0 } else s

/-- `operator=` for another manager whose root is `other`. -/
def moveAssign (s : MmuManager) (other : Nat) : MmuManager :=
  { pages := if s.l0Table ≠ 0 then s.pages.freeTableRecursive 3 s.l0Table else s.pages
    l0Table := other }

/-- The calls of `get_or_allocate_next_level` in `map`, one for each level below the table `t`: the
table at the bottom, null as soon as one of the calls returns null. -/
def descend (vaddr : Nat) : Nat → PageSystem → Nat → Nat × PageSystem
  | 0, pages, t => (t, pages)
  | k + 1, pages, t =>
    let (next, pages) := pages.getOrAllocateNextLevel t (tableIndex vaddr (k + 1))
    if next = 0 then (0, pages) else descend vaddr k pages next

def map (s : MmuManager) (vaddr paddr : Nat) (flags : MapFlags) : Bool × MmuManager :=
  if vaddr % pageSize ≠ 0 ∨ paddr % pageSize ≠ 0 then (false, s)
  else
    let (l0, pages) := if s.l0Table = 0 then s.pages.allocPage else (s.l0Table, s.pages)
    if l0 = 0 then (false, { pages, l0Table := 0 })
    else
      let (l3, pages) := descend vaddr 3 pages l0
      if l3 = 0 then (false, { pages, l0Table := l0 })
      else
        let pages := pages.setEntry l3 (tableIndex vaddr 0) (.ofPage paddr flags)
        (true, { pages, l0Table := l0 })

/-- The way down that `unmap`, `translate` and `protect` begin with: the tables of the levels 1, 2
and 3, if the entries are valid. -/
def walk (s : MmuManager) (vaddr : Nat) : Option (Nat × Nat × Nat) := do
  let l1 ← PageSystem.child (s.pages.entry s.l0Table (tableIndex vaddr 3))
  let l2 ← PageSystem.child (s.pages.entry l1 (tableIndex vaddr 2))
  let l3 ← PageSystem.child (s.pages.entry l2 (tableIndex vaddr 1))
  if (s.pages.entry l3 (tableIndex vaddr 0)).isValid then some (l1, l2, l3) else none

def unmap (s : MmuManager) (vaddr : Nat) : Bool × MmuManager :=
  if vaddr % pageSize ≠ 0 ∨ s.l0Table = 0 then (false, s)
  else
    match s.walk vaddr with
    | none => (false, s)
    | some (l1, l2, l3) =>
      let pages := s.pages.setEntry l3 (tableIndex vaddr 0) 0
      if pages.isEmpty l3 then
        let pages := (pages.freePage l3).setEntry l2 (tableIndex vaddr 1) 0
        if pages.isEmpty l2 then
          let pages := (pages.freePage l2).setEntry l1 (tableIndex vaddr 2) 0
          if pages.isEmpty l1 then
            let pages := (pages.freePage l1).setEntry s.l0Table (tableIndex vaddr 3) 0
            (true, { s with pages })
          else (true, { s with pages })
        else (true, { s with pages })
      else (true, { s with pages })

def translate (s : MmuManager) (vaddr : Nat) : Option (Nat × MapFlags) :=
  if s.l0Table = 0 then none
  else
    match s.walk vaddr with
    | none => none
    | some (_, _, l3) =>
      let pte := s.pages.entry l3 (tableIndex vaddr 0)
      some (pte.getAddress ||| vaddr % pageSize, pte.flags)

def protect (s : MmuManager) (vaddr : Nat) (flags : MapFlags) : Bool × MmuManager :=
  if vaddr % pageSize ≠ 0 ∨ s.l0Table = 0 then (false, s)
  else
    match s.walk vaddr with
    | none => (false, s)
    | some (_, _, l3) =>
      let pte := s.pages.entry l3 (tableIndex vaddr 0)
      (true, { s with pages := s.pages.setEntry l3 (tableIndex vaddr 0) (pte.setAttributes flags) })

end MmuManager

/-! ## What is read back from an entry -/

namespace PageTableEntry

open BitField

variable {len : Nat} {b : BitField 64 len}

variable (e : PageTableEntry) (paddr : Nat) (f : MapFlags)

theorem isValid_zero : isValid 0 = false := by decide

/-- The fields that the flags do not concern. -/
theorem get_setAttributes
    (h : attrIndx.Disjoint b ∧ sh.Disjoint b ∧ ap.Disjoint b ∧ uxn.Disjoint b ∧ pxn.Disjoint b) :
    b.get (e.setAttributes f) = b.get e := by
  obtain ⟨hattr, hsh, hap, huxn, hpxn⟩ := h
  unfold setAttributes
  split_ifs <;> simp only [get_set_of_disjoint hattr, get_set_of_disjoint hsh,
    get_set_of_disjoint hap, get_set_of_disjoint huxn, get_set_of_disjoint hpxn]

theorem attrIndx_setAttributes :
    attrIndx.get (e.setAttributes f) =
      if f.device then mairIdxDeviceNGnRE else mairIdxNormalWb := by
  have hsh : sh.Disjoint attrIndx := by decide
  have hap : ap.Disjoint attrIndx := by decide
  have huxn : uxn.Disjoint attrIndx := by decide
  have hpxn : pxn.Disjoint attrIndx := by decide
  unfold setAttributes
  split_ifs <;> simp only [get_set, get_set_of_disjoint hsh, get_set_of_disjoint hap,
    get_set_of_disjoint huxn, get_set_of_disjoint hpxn]

theorem ap_setAttributes :
    ap.get (e.setAttributes f) =
      if f.user then if f.write then apAllRw else apAllRo
      else if f.write then apEl1RwEl0None else apEl1RoEl0None := by
  have huxn : uxn.Disjoint ap := by decide
  have hpxn : pxn.Disjoint ap := by decide
  unfold setAttributes
  split_ifs <;> simp only [get_set, get_set_of_disjoint huxn, get_set_of_disjoint hpxn]

theorem uxn_setAttributes : uxn.get (e.setAttributes f) = if f.execute ∧ f.user then 0 else 1 := by
  have hpxn : pxn.Disjoint uxn := by decide
  unfold setAttributes
  split_ifs <;> simp_all only [get_set, get_set_of_disjoint hpxn] <;> simp_all

theorem pxn_setAttributes : pxn.get (e.setAttributes f) = if f.execute ∧ ¬f.user then 0 else 1 := by
  unfold setAttributes
  split_ifs <;> simp_all only [get_set] <;> simp_all

/-- **The flags are read back as they were written**, and a page can always be read. -/
theorem flags_setAttributes : (e.setAttributes f).flags = f ||| .Read := by
  unfold flags
  rw [ap_setAttributes, uxn_setAttributes, pxn_setAttributes, attrIndx_setAttributes]
  obtain ⟨read, write, execute, user, device⟩ := f
  cases read <;> cases write <;> cases execute <;> cases user <;> cases device <;> rfl

theorem isValid_setAttributes : (e.setAttributes f).isValid = e.isValid := by
  unfold isValid
  rw [get_setAttributes e f (by decide)]

theorem isTable_setAttributes :
    isTable.get (e.setAttributes f) = isTable.get e := get_setAttributes e f (by decide)

theorem getAddress_setAttributes : (e.setAttributes f).getAddress = e.getAddress := by
  unfold getAddress
  rw [get_setAttributes e f (by decide)]

theorem isValid_ofTable (page : Nat) : (ofTable page).isValid = true := by
  have hout : outputAddr.Disjoint valid := by decide
  have htable : isTable.Disjoint valid := by decide
  simp [isValid, ofTable, get_set_of_disjoint hout, get_set_of_disjoint htable]

theorem isTable_ofTable (page : Nat) : isTable.get (ofTable page) = 1 := by
  have hout : outputAddr.Disjoint isTable := by decide
  simp [ofTable, get_set_of_disjoint hout]

/-- The address bits of a page fit in an entry, up to the width of an address. -/
theorem shift_address {page : Nat} (h : pageSize ∣ page) :
    (BitVec.ofNat 36 (page >>> 12)).toNat <<< 12 = page % 2 ^ 48 := by
  obtain ⟨k, rfl⟩ := h
  rw [BitVec.toNat_ofNat]
  unfold pageSize
  omega

theorem getAddress_ofTable {page : Nat} (h : pageSize ∣ page) :
    (ofTable page).getAddress = page % 2 ^ 48 := by
  rw [getAddress, ofTable, get_set, shift_address h]

theorem isValid_ofPage : (ofPage paddr f).isValid = true := by
  have haf : af.Disjoint valid := by decide
  have hout : outputAddr.Disjoint valid := by decide
  have htable : isTable.Disjoint valid := by decide
  rw [ofPage, isValid_setAttributes]
  simp [isValid, get_set_of_disjoint haf, get_set_of_disjoint hout, get_set_of_disjoint htable]

theorem isTable_ofPage : isTable.get (ofPage paddr f) = 1 := by
  have haf : af.Disjoint isTable := by decide
  have hout : outputAddr.Disjoint isTable := by decide
  rw [ofPage, isTable_setAttributes, get_set_of_disjoint haf, get_set_of_disjoint hout, get_set]

theorem getAddress_ofPage {paddr : Nat} (h : pageSize ∣ paddr) (f : MapFlags) :
    (ofPage paddr f).getAddress = paddr % 2 ^ 48 := by
  have haf : af.Disjoint outputAddr := by decide
  rw [ofPage, getAddress_setAttributes, getAddress, get_set_of_disjoint haf, get_set,
    shift_address h]

theorem flags_ofPage : (ofPage paddr f).flags = f ||| .Read :=
  flags_setAttributes _ f

theorem pageSize_dvd_getAddress : pageSize ∣ e.getAddress := by
  rw [getAddress, Nat.shiftLeft_eq]
  exact dvd_mul_left _ _

/-- The offset in a page is below the bits of the address. -/
theorem getAddress_or {offset : Nat} (h : offset < pageSize) :
    e.getAddress ||| offset = e.getAddress + offset := by
  rw [getAddress, Nat.shiftLeft_eq, mul_comm]
  exact (Nat.two_pow_add_eq_or_of_lt h _).symm

end PageTableEntry

end AuroraOS
