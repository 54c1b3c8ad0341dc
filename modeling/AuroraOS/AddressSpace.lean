import AuroraOS.PageTableRuns

/-!
# Address spaces of tasks

`Mmu` of `kernel/mm/mmu.cpp` for one task, and the range operations of `kernel/mm/vasp.hpp`. An
address space made for a task maps the kernel's regions to themselves, without the flag `User`, and
the calls for user memory work on the same tables without asking for the range they are given.

`kernel_isolated`: as long as these calls stay clear of the kernel's regions, every page of the
regions stays mapped to itself without the flag `User`, and what is mapped with the flag is not in
them.
-/

namespace AuroraOS

open PageSystem MmuManager Nat MmuOp PageTableEntry

namespace MmuManager

/-! ## Ranges -/

/-- The loops over a range, for at most `n` rounds. `op` is the call made for an offset, and `stop`
tells whether the loop ends when a call fails. There is no result while the loop has not ended. The
offset is a `size_t`. -/
def rangeLoop (op : Nat → MmuOp) (stop : Bool) (size : Nat) :
    Nat → MmuManager → Nat → Bool → Option Bool × MmuManager
  | 0, s, _, _ => (none, s)
  | n + 1, s, offset, allOk =>
    if offset < size then
      let (ok, s) := (op offset).exec s
      if ok then rangeLoop op stop size n s ((offset + pageSize) % 2 ^ 64) allOk
      else if stop then (some false, s)
      else rangeLoop op stop size n s ((offset + pageSize) % 2 ^ 64) false
    else (some allOk, s)

/-- The call of `map` for an offset. -/
def mapAt (vaddr paddr : Nat) (flags : MapFlags) (offset : Nat) : MmuOp :=
  .map ((vaddr + offset) % 2 ^ 64) ((paddr + offset) % 2 ^ 64) flags

def mapRange (n : Nat) (s : MmuManager) (vaddr paddr size : Nat) (flags : MapFlags) :
    Option Bool × MmuManager :=
  if vaddr % pageSize ≠ 0 ∨ paddr % pageSize ≠ 0 ∨ size = 0 then (some false, s)
  else rangeLoop (mapAt vaddr paddr flags) true size n s 0 true

def unmapRange (n : Nat) (s : MmuManager) (vaddr size : Nat) : Option Bool × MmuManager :=
  if vaddr % pageSize ≠ 0 ∨ size = 0 then (some false, s)
  else rangeLoop (fun offset => .unmap ((vaddr + offset) % 2 ^ 64)) false size n s 0 true

def protectRange (n : Nat) (s : MmuManager) (vaddr size : Nat) (flags : MapFlags) :
    Option Bool × MmuManager :=
  if vaddr % pageSize ≠ 0 ∨ size = 0 then (some false, s)
  else rangeLoop (fun offset => .protect ((vaddr + offset) % 2 ^ 64) flags) true size n s 0 true

/-! ## The regions of the kernel -/

/-- `KERNEL_RAM_BASE`, `KERNEL_RAM_SIZE` -/
def kernelRamBase : Nat := 0x40000000

def kernelRamSize : Nat := 128 * 1024 * 1024

/-- `BOARD_UART0_BASE` -/
def boardUart0Base : Nat := 0x09000000

/-- `BOARD_GIC_DIST_BASE`, `BOARD_GIC_DIST_SIZE` -/
def boardGicDistBase : Nat := 0x08000000

def boardGicDistSize : Nat := 128 * 1024

def mapKernelRegions (n : Nat) (s : MmuManager) : Option Bool × MmuManager :=
  match s.mapRange n kernelRamBase kernelRamBase kernelRamSize (.Read ||| .Write ||| .Execute) with
  | (some true, s) =>
    match s.map boardUart0Base boardUart0Base (.Read ||| .Write ||| .Device) with
    | (true, s) =>
      s.mapRange n boardGicDistBase boardGicDistBase boardGicDistSize (.Read ||| .Write ||| .Device)
    | (false, s) => (some false, s)
  | r => r

/-- An address of the kernel's regions. -/
def InKernel (v : Nat) : Prop :=
  kernelRamBase ≤ v ∧ v < kernelRamBase + kernelRamSize ∨
    boardUart0Base ≤ v ∧ v < boardUart0Base + pageSize ∨
    boardGicDistBase ≤ v ∧ v < boardGicDistBase + boardGicDistSize

/-- `create_vas`, after which `map_kernel_regions` has returned `r`. -/
def createVas (n : Nat) (pages : PageSystem) : Option Bool × MmuManager :=
  (construct pages).mapKernelRegions n

end MmuManager

/-! ## Calls for user memory -/

/-- The calls for the memory of a task that has an address space. -/
inductive UserCall
  | mapUserMemory (vaddr paddr size : Nat) (flags : MapFlags)
  | unmapUserMemory (vaddr size : Nat)
  | protectUserMemory (vaddr size : Nat) (flags : MapFlags)

namespace UserCall

/-- The state after at most `n` rounds of the loop. -/
def exec (n : Nat) (s : MmuManager) : UserCall → Option Bool × MmuManager
  | .mapUserMemory vaddr paddr size flags =>
    if size = 0 then (some false, s) else s.mapRange n vaddr paddr size (flags ||| .User)
  | .unmapUserMemory vaddr size =>
    if size = 0 then (some false, s) else s.unmapRange n vaddr size
  | .protectUserMemory vaddr size flags =>
    if size = 0 then (some false, s) else s.protectRange n vaddr size (flags ||| .User)

/-- No page of the range is one of the kernel's, as far as the tables look at addresses. -/
def Clear (vaddr size : Nat) : Prop :=
  ∀ offset < size, pageSize ∣ offset → ∀ v, MmuManager.InKernel v →
    ¬ MmuManager.SamePage v (vaddr + offset)

/-- The call is refused at once, or it stays clear of the kernel's regions: the virtual range, and
for `map_user_memory` the physical range as well, up to the width of an address. -/
def Harmless : UserCall → Prop
  | .mapUserMemory vaddr paddr size _ =>
    vaddr % pageSize ≠ 0 ∨ paddr % pageSize ≠ 0 ∨ size = 0 ∨
      Clear vaddr size ∧ ∀ offset < size, pageSize ∣ offset →
        ¬ MmuManager.InKernel ((paddr + offset) % 2 ^ 48)
  | .unmapUserMemory vaddr size => vaddr % pageSize ≠ 0 ∨ size = 0 ∨ Clear vaddr size
  | .protectUserMemory vaddr size _ => vaddr % pageSize ≠ 0 ∨ size = 0 ∨ Clear vaddr size

end UserCall

/-- The runs of a task's address space after `create_task_vas`, in which every call meets the
condition `ok`. A call is followed for any number of rounds of its loop, as it need not end. -/
inductive VasRun (pool : PagePool) (ok : UserCall → Prop) : MmuSystem → Prop
  | create {m : ByteMem.Mem} {pages : PageSystem} {n : Nat} {mmu : MmuManager}
      (hpages : Relation.ReflTransGen (PageStep 8 pool.startAddr pool.size)
        (.start 8 m pool.startAddr pool.size) pages)
      (hcreate : MmuManager.createVas n pages = (some true, mmu)) : VasRun pool ok ⟨mmu, pages.out⟩
  | call {s : MmuSystem} (hrun : VasRun pool ok s) (c : UserCall) (hok : ok c) (n : Nat) :
      VasRun pool ok ⟨(c.exec n s.mmu).2, s.others⟩
  | other {s : MmuSystem} (hrun : VasRun pool ok s) (op : PageOp) (hop : s.OtherEnabled pool op) :
      VasRun pool ok (s.other op)

/-! ## Loops -/

namespace MmuManager

variable {l : List Nat} {o v : Nat}

theorem rangeLoop_invariant {op : Nat → MmuOp} {stop : Bool} {size : Nat} {P : MmuManager → Prop}
    (hstep : ∀ s o, P s → o < size → pageSize ∣ o → P ((op o).exec s).2) {n : Nat} {s : MmuManager}
    {allOk : Bool} (h : P s) (ho : pageSize ∣ o) :
    P (rangeLoop op stop size n s o allOk).2 := by
  induction n generalizing s o allOk with
  | zero => exact h
  | succ n ih =>
    have hnext : pageSize ∣ (o + pageSize) % 2 ^ 64 :=
      (dvd_mod_iff (by norm_num [pageSize])).mpr (dvd_add ho dvd_rfl)
    rw [rangeLoop]
    by_cases hlt : o < size
    · have hop := hstep s o h hlt ho
      generalize (op o).exec s = r at hop
      dsimp only at hop ⊢
      split_ifs
      · exact ih hop hnext
      · exact hop
      · exact ih hop hnext
    · rw [if_neg hlt]
      exact h

/-- A loop that has ended well has made every call, and each has succeeded. -/
theorem rangeLoop_true {op : Nat → MmuOp} {size : Nat} {Q : Nat → MmuManager → Prop}
    (hsize : size + pageSize ≤ 2 ^ 64)
    (hstep : ∀ s o, Q o s → o < size → pageSize ∣ o → ((op o).exec s).1 = true →
      Q (o + pageSize) ((op o).exec s).2)
    {n : Nat} {s s' : MmuManager} (h : Q o s) (ho : pageSize ∣ o)
    (hdvd : pageSize ∣ size) (hle : o ≤ size)
    (hloop : rangeLoop op true size n s o true = (some true, s')) : Q size s' := by
  induction n generalizing s o with
  | zero => cases hloop
  | succ n ih =>
    rw [rangeLoop] at hloop
    by_cases hlt : o < size
    · have hop := hstep s o h hlt ho
      have hroom : o + pageSize ≤ size := by
        unfold pageSize at ho hdvd ⊢
        omega
      rw [if_pos hlt] at hloop
      generalize (op o).exec s = r at hop hloop
      obtain ⟨ok, s₁⟩ := r
      cases ok with
      | false => cases hloop
      | true =>
        rw [mod_eq_of_lt (by omega)] at hloop
        exact ih (hop rfl) (dvd_add ho dvd_rfl) hroom hloop
    · rw [if_neg hlt] at hloop
      cases hloop
      rwa [show size = o by omega]

/-! ## The kernel's regions get mapped -/

/-- The first `o` bytes at `base` are mapped to themselves, and the other lookups are `prev`. -/
def Mapped (lo hi : Nat) (others : List Nat) (base : Nat) (flags : MapFlags)
    (prev : Nat → Option PageTableEntry) (o : Nat) (s : MmuManager) : Prop :=
  (∃ l, s.Inv lo hi l others) ∧ ∀ v, s.lookup v =
    if base ≤ v % 2 ^ 48 ∧ v % 2 ^ 48 < base + o then
      some (.ofPage (v % 2 ^ 48 / pageSize * pageSize) flags)
    else prev v

variable {lo hi base size n : Nat} {others : List Nat} {flags : MapFlags}
  {prev : Nat → Option PageTableEntry} {s s' : MmuManager}

theorem Mapped.step (hbase : pageSize ∣ base) (hfit : base + size ≤ 2 ^ 48)
    (hsize : pageSize ∣ size) (h : Mapped lo hi others base flags prev o s) (hlt : o < size)
    (ho : pageSize ∣ o) (hr : ((mapAt base base flags o).exec s).1 = true) :
    Mapped lo hi others base flags prev (o + pageSize) ((mapAt base base flags o).exec s).2 := by
  obtain ⟨⟨l, hl⟩, hlookup⟩ := h
  have haddr : (base + o) % 2 ^ 64 = base + o := mod_eq_of_lt (by omega)
  refine ⟨((mapAt base base flags o).exec_spec hl).1, ?_⟩
  intro v
  rw [((mapAt base base flags o).exec_spec hl).2.1 v, hr, hlookup v]
  simp only [mapAt, haddr, vaddr, newEntry, true_and]
  unfold pageSize at *
  have hsame : SamePage v (base + o) ↔
      base + o ≤ v % 2 ^ 48 ∧ v % 2 ^ 48 < base + (o + 4096) := by
    unfold SamePage pageSize
    omega
  by_cases hv : SamePage v (base + o)
  · rw [if_pos hv, if_pos (by have := hsame.mp hv; omega)]
    have hpage : v % 2 ^ 48 / 4096 * 4096 = base + o := by
      have := hsame.mp hv
      omega
    rw [hpage]
  · have hout := mt hsame.mpr hv
    rw [if_neg hv]
    by_cases hin : base ≤ v % 2 ^ 48 ∧ v % 2 ^ 48 < base + o
    · rw [if_pos hin, if_pos (by omega)]
    · rw [if_neg hin, if_neg (by omega)]

theorem Mapped.of_mapRange (hbase : pageSize ∣ base) (hfit : base + size ≤ 2 ^ 48)
    (hsize : pageSize ∣ size) (hpos : size ≠ 0) (hinv : ∃ l, s.Inv lo hi l others)
    (h : s.mapRange n base base size flags = (some true, s')) :
    Mapped lo hi others base flags s.lookup size s' := by
  have hstart : Mapped lo hi others base flags s.lookup 0 s := by
    refine ⟨hinv, fun v => ?_⟩
    rw [if_neg (by omega)]
  have hmod := mod_eq_zero_of_dvd hbase
  rw [mapRange, if_neg (by simp [hmod, hpos])] at h
  apply rangeLoop_true (by unfold pageSize; omega)
    (fun s o hq hlt ho hr => Mapped.step hbase hfit hsize hq hlt ho hr) hstart (dvd_zero _) hsize
    (zero_le _) h

theorem Mapped.of_map (hbase : pageSize ∣ base) (hfit : base + pageSize ≤ 2 ^ 48)
    (hinv : ∃ l, s.Inv lo hi l others) (h : s.map base base flags = (true, s')) :
    Mapped lo hi others base flags s.lookup pageSize s' := by
  have hstart : Mapped lo hi others base flags s.lookup 0 s := by
    refine ⟨hinv, fun v => ?_⟩
    rw [if_neg (by omega)]
  have hop : (mapAt base base flags 0).exec s = (true, s') := by
    rw [mapAt, mod_eq_of_lt (by unfold pageSize at hfit; omega)]
    exact h
  have hstep := Mapped.step hbase hfit dvd_rfl hstart (by decide) (dvd_zero _) (by rw [hop])
  rwa [hop] at hstep

/-! ## Isolation -/

/-- The kernel's regions are mapped to themselves and not for user code, and the other pages lead
elsewhere. -/
structure Isolated (s : MmuManager) : Prop where
  kernel : ∀ v, InKernel v → ∃ e, s.lookup v = some e ∧
    PageTableEntry.getAddress e = v / pageSize * pageSize ∧ (PageTableEntry.flags e).user = false
  elsewhere : ∀ v e, s.lookup v = some e →
    (∃ w, InKernel w ∧ SamePage v w) ∨ ¬ InKernel (PageTableEntry.getAddress e)

/-- The regions consist of whole pages, at addresses of less than 48 bits. -/
theorem inKernel_page : InKernel (v / pageSize * pageSize) ↔ InKernel v := by
  unfold InKernel kernelRamBase kernelRamSize boardUart0Base boardGicDistBase
    boardGicDistSize pageSize
  omega

theorem InKernel.lt (h : InKernel v) : v < 2 ^ 48 := by
  unfold InKernel kernelRamBase kernelRamSize boardUart0Base boardGicDistBase boardGicDistSize
    pageSize at h
  omega

/-- The flags that `map_kernel_regions` passes. -/
def kernelFlags (v : Nat) : MapFlags :=
  if kernelRamBase ≤ v then .Read ||| .Write ||| .Execute else .Read ||| .Write ||| .Device

/-- What `map_kernel_regions` maps in a new address space. -/
theorem createVas_spec {pages : PageSystem} (h : pages.Split 8 lo hi l)
    (hwidth : hi ≤ 2 ^ 48) (hcreate : createVas n pages = (some true, s)) :
    (∃ l, s.Inv lo hi l pages.out) ∧ (∀ v, ¬ InKernel (v % 2 ^ 48) → s.lookup v = none) ∧
      ∀ v, InKernel (v % 2 ^ 48) →
        s.lookup v = some (.ofPage (v % 2 ^ 48 / pageSize * pageSize)
          (kernelFlags (v % 2 ^ 48))) := by
  obtain ⟨hinv, hnone, -⟩ := construct_spec h hwidth
  rw [createVas, mapKernelRegions] at hcreate
  split at hcreate
  next s₁ hram =>
    split at hcreate
    next s₂ huart =>
      obtain ⟨hinv₁, hlookup₁⟩ := Mapped.of_mapRange (by decide) (by decide) (by decide) (by decide)
        hinv hram
      obtain ⟨hinv₂, hlookup₂⟩ := Mapped.of_map (by decide) (by decide) hinv₁ huart
      obtain ⟨hinv₃, hlookup₃⟩ := Mapped.of_mapRange (by decide) (by decide) (by decide) (by decide)
        hinv₂ hcreate
      refine ⟨hinv₃, fun v hv => ?_, fun v hv => ?_⟩
      · rw [InKernel, not_or, not_or] at hv
        rw [hlookup₃, if_neg hv.2.2, hlookup₂, if_neg hv.2.1, hlookup₁, if_neg hv.1, hnone]
      · rw [hlookup₃, hlookup₂, hlookup₁]
        split_ifs with h₃ h₂ h₁
        · rw [kernelFlags, if_neg
            (by unfold boardGicDistBase boardGicDistSize kernelRamBase at *; omega)]
        · rw [kernelFlags, if_neg (by unfold boardUart0Base pageSize kernelRamBase at *; omega)]
        · rw [kernelFlags, if_pos h₁.1]
        · rcases hv with hv | hv | hv <;> contradiction
    next => cases hcreate
  next hother => exact absurd hcreate (hother s)

/-- **`map_kernel_regions` isolates the kernel** in a new address space. -/
theorem isolated_of_createVas {pages : PageSystem} (h : pages.Split 8 lo hi l)
    (hwidth : hi ≤ 2 ^ 48) (hcreate : createVas n pages = (some true, s)) :
    (∃ l, s.Inv lo hi l pages.out) ∧ s.Isolated := by
  obtain ⟨hinv, hmissing, hfound⟩ := createVas_spec h hwidth hcreate
  refine ⟨hinv, fun v hv => ?_, fun v e he => .inl ⟨v % 2 ^ 48, ?_, ?_⟩⟩
  · have hlt : v / pageSize * pageSize < 2 ^ 48 := (div_mul_le_self _ _).trans_lt hv.lt
    have hmod := mod_eq_of_lt hv.lt
    have he := hfound v (by rwa [hmod])
    rw [hmod] at he
    refine ⟨_, he, ?_, ?_⟩
    · rw [getAddress_ofPage (dvd_mul_left _ _), mod_eq_of_lt hlt]
    · rw [flags_ofPage, kernelFlags]
      split_ifs <;> rfl
  · by_contra hv
    rw [hmissing v hv] at he
    cases he
  · unfold SamePage pageSize
    omega

/-- A call for a page that is not the kernel's keeps the isolation, if it does not map the page into
the kernel's regions. -/
theorem Isolated.exec (h : s.Isolated) (hinv : s.Inv lo hi l others) {op : MmuOp}
    (hclear : ∀ v, InKernel v → ¬ SamePage v op.vaddr)
    (hphys : ∀ vaddr paddr flags, op = .map vaddr paddr flags → ¬ InKernel (paddr % 2 ^ 48)) :
    (op.exec s).2.Isolated := by
  have hlookup := (op.exec_spec hinv).2.1
  constructor
  · intro v hv
    rw [hlookup, if_neg fun h => hclear v hv h.2]
    exact h.kernel v hv
  · intro v e he
    rw [hlookup] at he
    by_cases hr : (op.exec s).1 = true ∧ SamePage v op.vaddr
    · rw [if_pos hr] at he
      cases op with
      | map vaddr paddr flags =>
        simp only [newEntry, Option.some.injEq] at he
        subst he
        rw [getAddress_ofPage (dvd_of_map hinv hr.1)]
        exact .inr (hphys vaddr paddr flags rfl)
      | unmap => cases he
      | protect =>
        simp only [newEntry, Option.map_eq_some_iff] at he
        obtain ⟨e', he', rfl⟩ := he
        rw [getAddress_setAttributes]
        exact h.elsewhere v e' he'
    · rw [if_neg hr] at he
      exact h.elsewhere v e he

theorem samePage_mod {w : Nat} : SamePage v (w % 2 ^ 64) ↔ SamePage v w := by
  unfold SamePage pageSize
  omega

/-- What isolation means for the addresses that are translated. -/
theorem Isolated.translate (h : s.Isolated) :
    (∀ v, InKernel v → ∃ flags : MapFlags, s.translate v = some (v, flags) ∧ flags.user = false) ∧
      ∀ v paddr flags, s.translate v = some (paddr, flags) → flags.user = true →
        ¬ InKernel paddr := by
  have hoffset : ∀ v, v % pageSize < pageSize := fun v => mod_lt v (by decide)
  constructor
  · intro v hv
    obtain ⟨e, he, haddr, huser⟩ := h.kernel v hv
    refine ⟨_, ?_, huser⟩
    rw [translate_eq, he, Option.map_some, getAddress_or _ (hoffset v), haddr,
      div_add_mod']
  · intro v paddr flags ht huser hin
    rw [translate_eq, Option.map_eq_some_iff] at ht
    obtain ⟨e, he, heq⟩ := ht
    rw [getAddress_or _ (hoffset v)] at heq
    obtain ⟨rfl, rfl⟩ := heq
    rcases h.elsewhere v e he with ⟨w, hw, hsame⟩ | hout
    · obtain ⟨e', he', -, huser'⟩ := h.kernel w hw
      rw [s.lookup_congr hsame, he', Option.some.injEq] at he
      rw [← he, huser'] at huser
      cases huser
    · apply hout
      have hdvd := pageSize_dvd_getAddress e
      have hpage : (getAddress e + v % pageSize) / pageSize * pageSize =
          getAddress e := by
        unfold pageSize at *
        omega
      rw [← inKernel_page, hpage] at hin
      exact hin

end MmuManager

namespace UserCall

variable {lo hi n : Nat} {s : MmuManager} {others : List Nat}

/-- **A harmless call keeps the kernel isolated**, whatever becomes of it. -/
theorem exec_isolated {c : UserCall} (hc : c.Harmless)
    (h : (∃ l, s.Inv lo hi l others) ∧ s.Isolated) :
    (∃ l, (c.exec n s).2.Inv lo hi l others) ∧ (c.exec n s).2.Isolated := by
  -- what each of the loops needs of the calls it makes
  have hloop : ∀ {op : Nat → MmuOp} {stop : Bool} {size : Nat},
      (∀ o < size, pageSize ∣ o → (∀ v, MmuManager.InKernel v →
          ¬ MmuManager.SamePage v (op o).vaddr) ∧
        ∀ vaddr paddr flags, op o = .map vaddr paddr flags →
          ¬ MmuManager.InKernel (paddr % 2 ^ 48)) →
      (∃ l, (rangeLoop op stop size n s 0 true).2.Inv lo hi l others) ∧
        (rangeLoop op stop size n s 0 true).2.Isolated := by
    intro op stop size hop
    apply rangeLoop_invariant (P := fun s => (∃ l, s.Inv lo hi l others) ∧ s.Isolated) _ h
      (dvd_zero _)
    intro s o hs ho hdvd
    obtain ⟨⟨l, hl⟩, hiso⟩ := hs
    exact ⟨((op o).exec_spec hl).1, hiso.exec hl (hop o ho hdvd).1 (hop o ho hdvd).2⟩
  cases c with
  | mapUserMemory vaddr paddr size =>
    rw [exec]
    split_ifs with hzero
    · exact h
    rw [mapRange]
    split_ifs with hrefused
    · exact h
    obtain ⟨hclear, hphys⟩ : Clear vaddr size ∧ _ := by
      rcases hc with hc | hc | hc | hc
      · exact absurd (.inl hc) hrefused
      · exact absurd (.inr (.inl hc)) hrefused
      · exact absurd hc hzero
      · exact hc
    apply hloop
    intro o ho hdvd
    refine ⟨fun v hv => mt samePage_mod.mp (hclear o ho hdvd v hv), ?_⟩
    intro _ _ _ heq
    cases heq
    rw [mod_mod_of_dvd _ (by norm_num)]
    exact hphys o ho hdvd
  | unmapUserMemory vaddr size | protectUserMemory vaddr size =>
    simp only [exec, unmapRange, protectRange]
    split_ifs with hzero hrefused
    · exact h
    · exact h
    rw [not_or, not_not] at hrefused
    have hclear : Clear vaddr size := (hc.resolve_left (not_not.mpr hrefused.1)).resolve_left hzero
    apply hloop
    intro o ho hdvd
    refine ⟨fun v hv => mt samePage_mod.mp (hclear o ho hdvd v hv), ?_⟩
    intro _ _ _ heq
    cases heq

end UserCall

theorem VasRun.isolated {pool : PagePool} {s : MmuSystem} (h : VasRun pool UserCall.Harmless s) :
    (∃ l, s.mmu.Inv pool.lo pool.hi l s.others) ∧ s.mmu.Isolated := by
  induction h with
  | create hpages hcreate =>
    obtain ⟨l, hl⟩ := pool.split hpages
    exact isolated_of_createVas hl pool.hi_le hcreate
  | call hrun c hok n ih => exact UserCall.exec_isolated hok ih
  | other hrun op hop ih =>
    obtain ⟨⟨l, hl⟩, hiso⟩ := ih
    obtain ⟨hinv, hlookup, -⟩ := MmuSystem.other_spec (le_firstPage _) (endPage_le _ _) hl hop
    refine ⟨hinv, ?_, ?_⟩
    · intro v hv
      rw [hlookup]
      exact hiso.kernel v hv
    · intro v e he
      rw [hlookup] at he
      exact hiso.elsewhere v e he

/-- **The kernel stays isolated** in an address space for a task, if the calls for user memory stay
clear of its regions: each of its addresses is translated to itself without the flag `User`, and no
address is translated into its regions with the flag. -/
theorem kernel_isolated {pool : PagePool} {s : MmuSystem} (h : VasRun pool UserCall.Harmless s) :
    (∀ v, MmuManager.InKernel v → ∃ flags : MapFlags, s.mmu.translate v = some (v, flags) ∧
        flags.user = false) ∧
      ∀ v paddr flags, s.mmu.translate v = some (paddr, flags) → flags.user = true →
        ¬ MmuManager.InKernel paddr :=
  h.isolated.2.translate

/-! ## A large pool -/

namespace MmuManager

variable {lo hi vaddr paddr size n : Nat} {s : MmuManager} {l others : List Nat} {flags : MapFlags}

/-- `map` succeeds if there are three pages for its tables. -/
theorem Inv.map_succeeds (h : s.Inv lo hi l others) (hroot : s.l0Table ≠ 0)
    (vaddr paddr : Nat) (halign : Aligned vaddr paddr) (hfree : 3 ≤ l.length) (flags : MapFlags) :
    ∃ s' l', s.map vaddr paddr flags = (true, s') ∧ s'.Inv lo hi l' others ∧ s'.l0Table ≠ 0 ∧
      l.length ≤ l'.length + 3 := by
  obtain ⟨r, s', l', heq, hmaps⟩ := h.map vaddr paddr flags
  have hneeded : s.needed vaddr ≤ 3 := by
    rw [needed, if_neg hroot]
    exact Radix.missing_le _ _ _ _ _
  have hr : r = true := hmaps.result.mpr ⟨halign, hneeded.trans hfree⟩
  subst hr
  have hcount := hmaps.count rfl
  refine ⟨s', l', heq, hmaps.inv, ?_, by omega⟩
  intro hnull
  have hlookup := hmaps.lookup vaddr
  rw [lookup, if_pos hnull, if_pos ⟨rfl, rfl⟩] at hlookup
  cases hlookup

/-- The loop of `map_range` ends well if there are three pages for each of its rounds. -/
theorem rangeLoop_succeeds {k : Nat} (hv : pageSize ∣ vaddr) (hp : pageSize ∣ paddr)
    (hsize : size + pageSize ≤ 2 ^ 64) (hn : k < n) {o : Nat} (ho : o + k * pageSize = size)
    (hdvd : pageSize ∣ o) (h : s.Inv lo hi l others) (hroot : s.l0Table ≠ 0)
    (hfree : 3 * k ≤ l.length) :
    ∃ s' l', rangeLoop (mapAt vaddr paddr flags) true size n s o true = (some true, s') ∧
      s'.Inv lo hi l' others ∧ s'.l0Table ≠ 0 ∧ l.length ≤ l'.length + 3 * k := by
  induction k generalizing n s l o with
  | zero =>
    obtain ⟨n, rfl⟩ := exists_eq_succ_of_ne_zero (by omega : n ≠ 0)
    refine ⟨s, l, ?_, h, hroot, by omega⟩
    rw [rangeLoop, if_neg (by omega)]
  | succ k ih =>
    obtain ⟨n, rfl⟩ := exists_eq_succ_of_ne_zero (by omega : n ≠ 0)
    rw [succ_mul] at ho
    have hpos : 0 < pageSize := by decide
    have halign : Aligned ((vaddr + o) % 2 ^ 64) ((paddr + o) % 2 ^ 64) := by
      unfold Aligned pageSize at *
      omega
    obtain ⟨s₁, l₁, heq, hinv₁, hroot₁, hlen₁⟩ := h.map_succeeds hroot _ _ halign (by omega) flags
    obtain ⟨s₂, l₂, hloop, hinv₂, hroot₂, hlen₂⟩ := ih (n := n) (by omega)
      (by omega) (dvd_add hdvd dvd_rfl) hinv₁ hroot₁ (by omega)
    refine ⟨s₂, l₂, ?_, hinv₂, hroot₂, by omega⟩
    rw [rangeLoop, if_pos (by omega), mapAt, exec, heq]
    dsimp only
    rw [if_pos rfl, mod_eq_of_lt (by omega), hloop]

theorem mapRange_succeeds (vaddr paddr : Nat) (flags : MapFlags) {k : Nat} (hv : pageSize ∣ vaddr)
    (hp : pageSize ∣ paddr)
    (hsize : size + pageSize ≤ 2 ^ 64) (hpos : size ≠ 0) (hn : k < n) (hk : k * pageSize = size)
    (h : s.Inv lo hi l others) (hroot : s.l0Table ≠ 0) (hfree : 3 * k ≤ l.length) :
    ∃ s' l', s.mapRange n vaddr paddr size flags = (some true, s') ∧
      s'.Inv lo hi l' others ∧ s'.l0Table ≠ 0 ∧ l.length ≤ l'.length + 3 * k := by
  have hv0 := mod_eq_zero_of_dvd hv
  have hp0 := mod_eq_zero_of_dvd hp
  rw [mapRange, if_neg (by simp [hv0, hp0, hpos])]
  exact rangeLoop_succeeds hv hp hsize hn (by rw [zero_add, hk]) (dvd_zero _) h hroot hfree

/-- The kernel's regions have 32801 pages. -/
theorem createVas_succeeds {pages : PageSystem} {page : Nat} {rest : List Nat}
    (h : pages.Split 8 lo hi (page :: rest)) (hwidth : hi ≤ 2 ^ 48)
    (hfree : 3 * 32801 ≤ rest.length) : ∃ s l, createVas 32769 pages = (some true, s) ∧
      s.Inv lo hi l pages.out ∧ rest.length ≤ l.length + 3 * 32801 := by
  obtain ⟨hpage, hnull, htree, -⟩ := newRoot h hwidth
  have hinv := (construct_cons h hwidth).1
  have hroot : (construct pages).l0Table ≠ 0 := by
    rw [construct]
    dsimp only
    rwa [hpage]
  obtain ⟨s₁, l₁, heq₁, hinv₁, hroot₁, hlen₁⟩ := mapRange_succeeds kernelRamBase kernelRamBase
    (.Read ||| .Write ||| .Execute) (by decide) (by decide) (by decide) (by decide)
    (show 32768 < 32769 by decide) (show _ = kernelRamSize by decide) hinv hroot (by omega)
  obtain ⟨s₂, l₂, heq₂, hinv₂, hroot₂, hlen₂⟩ := hinv₁.map_succeeds hroot₁ boardUart0Base
    boardUart0Base (by decide) (by omega) (.Read ||| .Write ||| .Device)
  obtain ⟨s₃, l₃, heq₃, hinv₃, -, hlen₃⟩ := mapRange_succeeds boardGicDistBase boardGicDistBase
    (.Read ||| .Write ||| .Device) (by decide) (by decide) (by decide) (by decide)
    (show 32 < 32769 by decide) (show _ = boardGicDistSize by decide) hinv₂ hroot₂ (by omega)
  refine ⟨s₃, l₃, ?_, hinv₃, by omega⟩
  rw [createVas, mapKernelRegions, heq₁]
  dsimp only
  rw [heq₂]
  exact heq₃

end MmuManager

/-- A pool of a gigabyte. -/
def gigabytePool : PagePool := ⟨0x1000, 2 ^ 30, by decide, by norm_num⟩

theorem VasRun.gigabyte : ∃ s, ∀ ok, VasRun gigabytePool ok s := by
  have hsplit := gigabytePool.start_split fun _ => 0
  obtain ⟨s, _, hs, _⟩ := createVas_succeeds hsplit gigabytePool.hi_le
    (by rw [List.length_range']; norm_num)
  exact ⟨_, fun _ => .create .refl hs⟩

theorem kernel_isolated_gigabyte : ∃ s, VasRun gigabytePool UserCall.Harmless s ∧
    ∃ flags : MapFlags, s.mmu.translate 0x40000000 = some (0x40000000, flags) ∧
      flags.user = false := by
  obtain ⟨s, hs⟩ := VasRun.gigabyte
  have hharmless : (UserCall.mapUserMemory 0x400000 0x50000000 0x1000 .Read).Harmless := by
    refine .inr (.inr (.inr ⟨?_, ?_⟩))
    · intro o ho hdvd v hv hsame
      unfold MmuManager.InKernel kernelRamBase kernelRamSize
        boardUart0Base boardGicDistBase boardGicDistSize pageSize at hv
      unfold MmuManager.SamePage pageSize at hsame
      omega
    · intro o ho hdvd hin
      unfold MmuManager.InKernel kernelRamBase kernelRamSize
        boardUart0Base boardGicDistBase boardGicDistSize pageSize at hin
      omega
  have hrun := (hs UserCall.Harmless).call (.mapUserMemory 0x400000 0x50000000 0x1000 .Read)
    hharmless 2
  exact ⟨_, hrun, (kernel_isolated hrun).1 0x40000000 (.inl (by decide))⟩

/-- `unmap_user_memory` for the first page of the kernel's memory. -/
theorem kernel_page_unmapped : ∃ s, VasRun gigabytePool (fun _ => True) s ∧
    MmuManager.InKernel 0x40000000 ∧ s.mmu.translate 0x40000000 = none := by
  obtain ⟨s, hs⟩ := VasRun.gigabyte
  obtain ⟨⟨l, hinv⟩, hiso⟩ := (hs UserCall.Harmless).isolated
  have hin : MmuManager.InKernel 0x40000000 := .inl (by decide)
  obtain ⟨e, he, -⟩ := hiso.kernel 0x40000000 hin
  obtain ⟨r, s', l', heq, hunmaps⟩ := hinv.unmap 0x40000000
  have hr : r = true := hunmaps.result.mpr ⟨by decide, by rw [he]; rfl⟩
  have hexec : ((UserCall.unmapUserMemory 0x40000000 0x1000).exec 2 s.mmu).2 = s' := by
    rw [UserCall.exec, if_neg (by decide), unmapRange, if_neg (by decide),
      rangeLoop, exec, mod_eq_of_lt (by norm_num), heq, hr]
    rfl
  refine ⟨_, (hs fun _ => True).call (.unmapUserMemory 0x40000000 0x1000) trivial 2, hin, ?_⟩
  rw [hexec, translate_eq, hunmaps.lookup, if_pos ⟨hr, rfl⟩]
  rfl

end AuroraOS
