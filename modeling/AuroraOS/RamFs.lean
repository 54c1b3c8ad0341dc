import AuroraOS.VfsService

/-!
# Files in static buffers

`RamFile` of `vfs/ramfs.cpp` as it is built with `CONFIG_NO_DYNAMIC_ALLOCATION`: the files share the
four rows of `ramfs_buffers`, of 512 bytes each.

Memory is addressed from the first byte of the array and goes on before and after it, so that it can
be seen when an access leaves the array. `memset` and `memcpy` convert the length that they are
given, an `int`, to a `size_t` of 32 bits.

The rows have half of the capacity that a file is given, and the constructor clears a whole
capacity. `isolated_iff_unbuffered`: files do not disturb each other in exactly those runs in which
no file gets a buffer. As long as no file is longer than a row, a call that fits into the row
disturbs no other file.
-/

namespace AuroraOS.RamFs

open Option

open Vfs (wrap wrap_spec)

/-- The second dimension of `ramfs_buffers`. -/
def rowSize : Int := 512

/-- `kRamFileMaxCapacity` -/
def maxCapacity : Int := 1024 * 1024 * 1024

/-- What an `int` becomes as a `size_t`. -/
def sizeT (n : Int) : Nat := (n % 2 ^ 32).toNat

/-- `data_` is a row of the array or null. -/
structure RamFile where
  data : Option (Fin 4)
  capacity : Int
  fileSize : Int
  deriving DecidableEq

/-- The bytes that one `memset` or `memcpy` touches: `len` from `start` on, counted from the start
of the row. -/
structure Access where
  row : Fin 4
  start : Int
  len : Int
  deriving DecidableEq

namespace Access

def base (a : Access) : Int := rowSize * (a.row : Nat) + a.start

def Covers (a : Access) (x : Int) : Prop := a.base ≤ x ∧ x < a.base + sizeT a.len
  deriving Decidable

/-- All the bytes are bytes of the row. -/
def Inside (a : Access) : Prop := ∀ x, a.Covers x →
  rowSize * (a.row : Nat) ≤ x ∧ x < rowSize * (a.row : Nat) + rowSize

end Access

structure State where
  mem : Int → UInt8
  used : Fin 4 → Bool
  files : Nat → Option RamFile

/-! ## The functions -/

namespace RamFile

/-- What `read` copies, if it does not return 0. -/
def readAccess (f : RamFile) (len offset : Int) : Option Access :=
  match f.data with
  | none => none
  | some row =>
    if offset ≥ f.fileSize then none
    else
      let bytesToRead :=
        if len > wrap (f.fileSize - offset) then wrap (f.fileSize - offset) else len
      some ⟨row, offset, bytesToRead⟩

/-- The length that `write` goes on with, if it does not return 0. -/
def truncateToCapacity (f : RamFile) (len offset : Int) : Option Int :=
  let requiredCapacity := offset + len
  if requiredCapacity < 0 ∨ requiredCapacity > maxCapacity ∨ requiredCapacity > f.capacity then
    if offset ≥ f.capacity then none else some (wrap (f.capacity - offset))
  else some len

/-- What `write` overwrites, if it does not return 0. -/
def writeAccess (f : RamFile) (len offset : Int) : Option Access :=
  match f.truncateToCapacity len offset, f.data with
  | some bytesToWrite, some row => some ⟨row, offset, bytesToWrite⟩
  | _, _ => none

/-- What `truncate` clears. -/
def truncateAccess (f : RamFile) (newSize : Int) : Option Access :=
  if newSize < 0 then none
  else if newSize < f.fileSize then
    f.data.map fun row => ⟨row, newSize, wrap (f.capacity - newSize)⟩
  else none

/-- What `clear` clears. -/
def clearAccess (f : RamFile) : Option Access :=
  if f.capacity > 0 then f.data.map fun row => ⟨row, 0, f.capacity⟩ else none

/-- `file_size_` after `bytes` bytes were written. -/
def grow (f : RamFile) (offset bytes : Int) : RamFile :=
  if wrap (offset + bytes) > f.fileSize then { f with fileSize := wrap (offset + bytes) } else f

end RamFile

namespace State

def setFile (s : State) (id : Nat) (f : Option RamFile) : State :=
  { s with files := Function.update s.files id f }

def memset (s : State) (a : Option Access) (b : UInt8) : State :=
  match a with
  | none => s
  | some a => { s with mem := fun x => if a.Covers x then b else s.mem x }

def memcpy (s : State) (a : Access) (buf : Nat → UInt8) : State :=
  { s with mem := fun x => if a.Covers x then buf (x - a.base).toNat else s.mem x }

/-- The bytes of an access. -/
def bytes (s : State) (a : Access) : List UInt8 :=
  (List.range (sizeT a.len)).map fun i : Nat => s.mem (a.base + i)

/-- The row that the constructor takes. -/
def takeRow (s : State) (capacity : Int) : Option (Fin 4) :=
  if capacity ≤ 1024 then (List.finRange 4).find? fun i => !s.used i else none

/-- What the constructor clears. -/
def constructAccess (s : State) (capacity : Int) : Option Access :=
  (s.takeRow capacity).map fun row => ⟨row, 0, 1024⟩

/-- The constructor. -/
def construct (s : State) (id : Nat) (capacity : Int) : State :=
  match s.takeRow capacity with
  | none => s.setFile id (some ⟨none, 0, 0⟩)
  | some row =>
    let s := { s with used := Function.update s.used row true }
    (s.setFile id (some ⟨some row, 1024, 0⟩)).memset (some ⟨row, 0, 1024⟩) 0

/-- The destructor. -/
def destroy (s : State) (id : Nat) (f : RamFile) : State :=
  match f.data with
  | none => s.setFile id none
  | some row => { s.setFile id none with used := Function.update s.used row false }

/-- The value that `read` returns, and the bytes that it has copied. -/
def readFile (s : State) (f : RamFile) (len offset : Int) : Int × List UInt8 :=
  match f.readAccess len offset with
  | none => (0, [])
  | some a => (a.len, s.bytes a)

/-- What `read` returns on a live object. -/
def read (s : State) (id : Nat) (len offset : Int) : Option (Int × List UInt8) :=
  (s.files id).map fun f => s.readFile f len offset

def write (s : State) (id : Nat) (f : RamFile) (buf : Nat → UInt8) (len offset : Int) :
    Int × State :=
  match f.writeAccess len offset with
  | none => (0, s)
  | some a => (a.len, (s.memcpy a buf).setFile id (some (f.grow offset a.len)))

def truncate (s : State) (id : Nat) (f : RamFile) (newSize : Int) : Int × State :=
  if newSize < 0 then (-1, s)
  else if newSize < f.fileSize then
    (0, (s.memset (f.truncateAccess newSize) 0).setFile id (some { f with fileSize := newSize }))
  else (0, s)

def clear (s : State) (id : Nat) (f : RamFile) : State :=
  (s.memset f.clearAccess 0).setFile id (some { f with fileSize := 0 })

end State

/-! ## Runs -/

/-- A call on an object. The buffer of a `write` is what lies in memory from it on. -/
inductive Op
  | construct (id : Nat) (capacity : Int32)
  | destroy (id : Nat)
  | read (id : Nat) (len offset : Int32)
  | write (id : Nat) (buf : Nat → UInt8) (len offset : Int32)
  | truncate (id : Nat) (newSize : Int32)
  | clear (id : Nat)

namespace Op

/-- The object of a call. -/
def file : Op → Nat
  | construct id _ | destroy id | read id _ _ | write id _ _ _ | truncate id _ | clear id => id

/-- A call. An object is constructed once and used until it is destroyed. -/
def exec : Op → State → Option State
  | construct id capacity, s =>
    match s.files id with
    | none => some (s.construct id capacity.toInt)
    | some _ => none
  | destroy id, s => (s.files id).map (s.destroy id)
  | read id _ _, s => (s.files id).map fun _ => s
  | write id buf len offset, s =>
    (s.files id).map fun f => (s.write id f buf len.toInt offset.toInt).2
  | truncate id newSize, s => (s.files id).map fun f => (s.truncate id f newSize.toInt).2
  | clear id, s => (s.files id).map (s.clear id)

/-- What a call touches in the array. -/
def access (s : State) : Op → Option Access
  | construct _ capacity => s.constructAccess capacity.toInt
  | destroy _ => none
  | read id len offset => (s.files id).bind fun f => f.readAccess len.toInt offset.toInt
  | write id _ len offset => (s.files id).bind fun f => f.writeAccess len.toInt offset.toInt
  | truncate id newSize => (s.files id).bind fun f => f.truncateAccess newSize.toInt
  | clear id => (s.files id).bind RamFile.clearAccess

end Op

/-- A sequence of calls. -/
def run (l : List Op) (s : State) : Option State := l.foldlM (fun s op => op.exec s) s

/-- No file, every row free. -/
def boot : State := ⟨fun _ => 0, fun _ => false, fun _ => none⟩

/-- A call stays inside the row of its file, and another file returns what it has returned
before. -/
def Isolated (s : State) (op : Op) : Prop :=
  (∀ a ∈ op.access s, a.Inside) ∧
    ∀ s' ∈ op.exec s, ∀ id, id ≠ op.file → ∀ len offset,
      s'.read id len offset = s.read id len offset

/-- A construction that gets no buffer, because it asks for more than there is in any case. -/
def NoBuffer (_ : State) : Op → Prop
  | .construct _ capacity => 1024 < capacity.toInt
  | _ => True

/-- The calls that stay inside the row, where no file is longer than a row. -/
def Fits (s : State) : Op → Prop
  | .construct _ capacity => s.takeRow capacity.toInt = none
  | .destroy _ => True
  | .read id len offset => ∀ f ∈ s.files id, f.data = none ∨ f.fileSize ≤ offset.toInt ∨
      len.toInt = 0 ∧ f.fileSize - offset.toInt < 2 ^ 31 ∨ 0 ≤ offset.toInt ∧ 0 < len.toInt
  | .write id _ len offset => ∀ f ∈ s.files id, f.data = none ∨
      0 ≤ offset.toInt ∧ (len.toInt = 0 ∨ 0 < len.toInt ∧ offset.toInt + len.toInt ≤ 512) ∨
      1024 ≤ offset.toInt ∧ (offset.toInt + len.toInt < 0 ∨ 1024 < offset.toInt + len.toInt)
  | .truncate id newSize => ∀ f ∈ s.files id,
      f.data = none ∨ newSize.toInt < 0 ∨ f.fileSize ≤ newSize.toInt
  | .clear id => ∀ f ∈ s.files id, f.data = none

/-! ## Which bytes an access covers -/

variable {a : Access} {id : Nat} {op : Op}

namespace Access

theorem inside_iff (hlo : -2 ^ 31 ≤ a.len) (hhi : a.len < 2 ^ 31) :
    a.Inside ↔ a.len = 0 ∨ 0 ≤ a.start ∧ 0 < a.len ∧ a.start + a.len ≤ 512 := by
  have hcount : (sizeT a.len : Int) = a.len % 2 ^ 32 := by
    rw [sizeT, Int.toNat_of_nonneg (by omega)]
  simp only [Inside, Covers, base, rowSize]
  constructor
  · intro h
    by_cases hzero : a.len = 0
    · exact .inl hzero
    · -- the first and the last byte
      have hfirst := h (512 * (a.row : Nat) + a.start) (by omega)
      have hlast := h (512 * (a.row : Nat) + a.start + a.len % 2 ^ 32 - 1) (by omega)
      omega
  · intro h x hx
    omega

/-- Accesses inside different rows have no byte in common. -/
theorem Inside.disjoint {b : Access} (ha : a.Inside) (hb : b.Inside)
    (hrow : a.row ≠ b.row) {x : Int} (hx : b.Covers x) : ¬a.Covers x := by
  intro hax
  have h₁ := ha x hax
  have h₂ := hb x hx
  unfold rowSize at h₁ h₂
  omega

end Access

/-! ## What a call changes -/

namespace State

variable (s : State)

theorem bytes_congr {s s' : State} (h : ∀ x, a.Covers x → s'.mem x = s.mem x) :
    s'.bytes a = s.bytes a := by
  apply List.map_congr_left
  intro i hi
  rw [List.mem_range] at hi
  exact h _ ⟨by omega, by omega⟩

theorem takeRow_spec {capacity : Int} {row : Fin 4} (h : s.takeRow capacity = some row) :
    s.used row = false := by
  unfold takeRow at h
  split_ifs at h
  simpa using List.find?_some h

theorem takeRow_boot {capacity : Int} (hused : ∀ i, s.used i = false) :
    s.takeRow capacity = none ↔ 1024 < capacity := by
  unfold takeRow
  split_ifs with h
  · simp [hused, not_lt.mpr h, List.finRange]
  · simpa using h

end State

theorem Op.eq_construct {capacity : Int32} {s s' : State}
    (h : (Op.construct id capacity).exec s = some s') : s.construct id capacity.toInt = s' := by
  simp only [exec] at h
  cases hf : s.files id with
  | some f => simp [hf] at h
  | none => simpa [hf] using h

/-- A call leaves the other objects and the bytes that it does not touch as they are. -/
theorem Op.exec_frame {s s' : State} (h : op.exec s = some s') :
    (∀ id, id ≠ op.file → s'.files id = s.files id) ∧
      ∀ x, (∀ a ∈ op.access s, ¬a.Covers x) → s'.mem x = s.mem x := by
  cases op with
  | construct id capacity =>
    obtain rfl := eq_construct h
    simp only [State.construct, access, State.constructAccess, file]
    cases s.takeRow capacity.toInt with
    | none => simp +contextual [State.setFile]
    | some row => simp +contextual [State.setFile, State.memset]
  | destroy id =>
    obtain ⟨f, hf, rfl⟩ := map_eq_some_iff.mp h
    unfold State.destroy
    cases f.data <;> simp +contextual [State.setFile, file]
  | read =>
    obtain ⟨f, hf, rfl⟩ := map_eq_some_iff.mp h
    simp
  | write id buf len offset =>
    obtain ⟨f, hf, rfl⟩ := map_eq_some_iff.mp h
    simp only [State.write, access, hf, bind_some, file]
    cases f.writeAccess len.toInt offset.toInt with
    | none => simp
    | some a => simp +contextual [State.setFile, State.memcpy]
  | truncate id newSize =>
    obtain ⟨f, hf, rfl⟩ := map_eq_some_iff.mp h
    simp only [State.truncate, access, hf, bind_some, file]
    split_ifs
    · simp
    · cases f.truncateAccess newSize.toInt <;> simp +contextual [State.setFile, State.memset]
    · simp
  | clear id =>
    obtain ⟨f, hf, rfl⟩ := map_eq_some_iff.mp h
    simp only [State.clear, access, hf, bind_some, file]
    cases f.clearAccess <;> simp +contextual [State.setFile, State.memset]

/-! ## Reachable states -/

theorem State.setFile_cases {s : State} {id' : Nat} {o : Option RamFile} {f : RamFile}
    (h : (s.setFile id o).files id' = some f) :
    id' = id ∧ o = some f ∨ id' ≠ id ∧ s.files id' = some f := by
  by_cases hid : id' = id
  · subst hid
    exact .inl ⟨rfl, by simpa [State.setFile] using h⟩
  · exact .inr ⟨hid, by simpa [State.setFile, hid] using h⟩

/-- The object has the row. -/
def State.Owns (s : State) (id : Nat) (row : Fin 4) : Prop := ∃ f ∈ s.files id, f.data = some row

/-- A file has a row of its own, and the capacity that goes with a row. -/
structure Inv (s : State) : Prop where
  used : ∀ id row, s.Owns id row → s.used row = true
  own : ∀ id id' row, s.Owns id row → s.Owns id' row → id' = id
  capacity : ∀ id, ∀ f ∈ s.files id, f.data ≠ none → f.capacity = 1024

namespace Inv

variable {s s' : State}

theorem boot : Inv boot :=
  ⟨by simp [State.Owns, RamFs.boot], by simp [State.Owns, RamFs.boot], by simp [RamFs.boot]⟩

/-- Rows change hands only by being taken while they are free or by being given back: a file that
has a row has it since before, or is the object that the call has constructed. -/
theorem of_files (h : Inv s) (new : Nat)
    (hfiles : ∀ id f row, s'.files id = some f → f.data = some row →
      (s.Owns id row ∧ s'.used row = s.used row ∨
        id = new ∧ s.used row = false ∧ s'.used row = true) ∧ f.capacity = 1024) : Inv s' := by
  refine ⟨?_, ?_, ?_⟩
  · intro id row hown
    obtain ⟨f, hf, hdata⟩ := hown
    rcases (hfiles id f row hf hdata).1 with ⟨hold, hused⟩ | ⟨-, -, hused⟩
    · rw [hused, h.used id row hold]
    · exact hused
  · intro id id' row hown hown'
    obtain ⟨f, hf, hdata⟩ := hown
    obtain ⟨f', hf', hdata'⟩ := hown'
    rcases (hfiles id f row hf hdata).1 with ⟨hold, -⟩ | ⟨hnew, hfree, -⟩
    · rcases (hfiles id' f' row hf' hdata').1 with ⟨hold', -⟩ | ⟨-, hfree, -⟩
      · exact h.own id id' row hold hold'
      · exact absurd (h.used id row hold) (by simp [hfree])
    · rcases (hfiles id' f' row hf' hdata').1 with ⟨hold', -⟩ | ⟨hnew', -, -⟩
      · exact absurd (h.used id' row hold') (by simp [hfree])
      · rw [hnew, hnew']
  · intro id f hf hne
    obtain ⟨row, hdata⟩ := ne_none_iff_exists'.mp hne
    exact (hfiles id f row hf hdata).2

/-- A file is written back with its row and its capacity. -/
theorem rewrite (h : Inv s) {f : RamFile} (f' : RamFile) (hf : s.files id = some f)
    (hdata : f'.data = f.data) (hcap : f'.capacity = f.capacity)
    (hused : s'.used = s.used) (hfiles : s'.files = (s.setFile id (some f')).files) : Inv s' := by
  apply h.of_files id
  intro id' g row hg hrow
  rw [hfiles] at hg
  rcases State.setFile_cases hg with ⟨rfl, hsame⟩ | ⟨-, hg⟩
  · obtain rfl := some.inj hsame
    rw [hdata] at hrow
    exact ⟨.inl ⟨⟨f, hf, hrow⟩, by rw [hused]⟩, by rw [hcap, h.capacity _ f hf (by simp [hrow])]⟩
  · exact ⟨.inl ⟨⟨g, hg, hrow⟩, by rw [hused]⟩, h.capacity _ g hg (by simp [hrow])⟩

theorem construct (h : Inv s) (id : Nat) (capacity : Int) : Inv (s.construct id capacity) := by
  apply h.of_files id
  intro id' f row hf hrow
  unfold State.construct at hf ⊢
  cases htake : s.takeRow capacity with
  | none =>
    rw [htake] at hf
    rcases State.setFile_cases hf with ⟨-, hg⟩ | ⟨-, hg⟩
    · obtain rfl := some.inj hg
      cases hrow
    · exact ⟨.inl ⟨⟨f, hg, hrow⟩, rfl⟩, h.capacity _ f hg (by simp [hrow])⟩
  | some r =>
    rw [htake] at hf
    rcases State.setFile_cases hf with ⟨hid, hg⟩ | ⟨-, hg⟩
    · obtain rfl := some.inj hg
      obtain rfl : r = row := some.inj hrow
      exact ⟨.inr ⟨hid, s.takeRow_spec htake, Function.update_self ..⟩, rfl⟩
    · have hne : row ≠ r := by
        intro heq
        have hused := h.used id' row ⟨f, hg, hrow⟩
        rw [heq, s.takeRow_spec htake] at hused
        cases hused
      exact ⟨.inl ⟨⟨f, hg, hrow⟩, Function.update_of_ne hne ..⟩, h.capacity _ f hg (by simp [hrow])⟩

theorem destroy (h : Inv s) {g : RamFile} (hid : s.files id = some g) :
    Inv (s.destroy id g) := by
  apply h.of_files id
  intro id' f row hf hrow
  have hfiles : (s.destroy id g).files = (s.setFile id none).files := by
    unfold State.destroy
    cases g.data <;> rfl
  rw [hfiles] at hf
  rcases State.setFile_cases hf with ⟨-, hg⟩ | ⟨hne, hg⟩
  · cases hg
  · refine ⟨.inl ⟨⟨f, hg, hrow⟩, ?_⟩, h.capacity _ f hg (by simp [hrow])⟩
    unfold State.destroy
    cases hdata : g.data with
    | none => rfl
    | some r =>
      apply Function.update_of_ne
      intro heq
      exact hne (h.own id id' row ⟨g, hid, heq ▸ hdata⟩ ⟨f, hg, hrow⟩)

theorem exec (h : Inv s) (hexec : op.exec s = some s') : Inv s' := by
  cases op with
  | construct id =>
    obtain rfl := Op.eq_construct hexec
    exact h.construct id _
  | destroy id =>
    obtain ⟨f, hf, rfl⟩ := map_eq_some_iff.mp hexec
    exact h.destroy hf
  | read =>
    obtain ⟨f, hf, rfl⟩ := map_eq_some_iff.mp hexec
    exact h
  | write id buf len offset =>
    obtain ⟨f, hf, rfl⟩ := map_eq_some_iff.mp hexec
    unfold State.write
    cases f.writeAccess len.toInt offset.toInt with
    | none => exact h
    | some a =>
      refine h.rewrite (f.grow offset.toInt a.len) hf ?_ ?_ rfl rfl
      all_goals
        unfold RamFile.grow
        split_ifs <;> rfl
  | truncate id newSize =>
    obtain ⟨f, hf, rfl⟩ := map_eq_some_iff.mp hexec
    unfold State.truncate
    split_ifs
    · exact h
    · refine h.rewrite { f with fileSize := newSize.toInt } hf rfl rfl ?_ ?_
      all_goals cases f.truncateAccess newSize.toInt <;> rfl
    · exact h
  | clear id =>
    obtain ⟨f, hf, rfl⟩ := map_eq_some_iff.mp hexec
    refine h.rewrite { f with fileSize := 0 } hf rfl rfl ?_ ?_
    all_goals
      unfold State.clear
      cases f.clearAccess <;> rfl

end Inv

theorem inv_of_run {l : List Op} {s : State} (h : run l boot = some s) : Inv s :=
  Run.foldlM_invariant (fun _ _ _ _ hs hexec => hs.exec hexec) Inv.boot h

/-- All the bytes are bytes of the array. -/
def Access.InArray (a : Access) : Prop :=
  sizeT a.len = 0 ∨ 0 ≤ a.base ∧ a.base + sizeT a.len ≤ 4 * rowSize
  deriving Decidable

/-- A sequence of calls that do not leave the array. What lies beyond it, `ramfs_buf_used` perhaps,
is not touched. -/
def runInArray (l : List Op) (s : State) : Option State :=
  l.foldlM (fun s op => if ∀ a ∈ op.access s, a.InArray then op.exec s else none) s

/-- **No two files share a row**, in any run that stays in the array, and a new file gets a row of
its own. -/
theorem rows_not_shared {l : List Op} {s : State} (h : runInArray l boot = some s) :
    (∀ id id' row, s.Owns id row → s.Owns id' row → id' = id) ∧
      ∀ capacity row, s.takeRow capacity = some row → ∀ id, ¬s.Owns id row := by
  have hinv : Inv s := by
    refine Run.foldlM_invariant (fun _ _ _ _ hs hexec => ?_) Inv.boot h
    split_ifs at hexec
    exact hs.exec hexec
  refine ⟨hinv.own, fun capacity row htake id howns => ?_⟩
  have hfree := s.takeRow_spec htake
  rw [hinv.used id row howns] at hfree
  cases hfree

/-- Three files are constructed, and the second is destroyed. -/
theorem rows_not_shared_three :
    ∃ s ∈ runInArray [.construct 0 512, .construct 1 512, .construct 2 512, .destroy 1] boot,
      s.takeRow 512 = some 1 ∧ ∀ id, ¬s.Owns id 1 := by
  obtain ⟨s, hs, htake⟩ : ∃ s ∈ runInArray [.construct 0 512, .construct 1 512, .construct 2 512,
      .destroy 1] boot, s.takeRow 512 = some 1 := by
    decide
  exact ⟨s, hs, htake, (rows_not_shared hs).2 512 1 htake⟩

/-! ## Which calls stay inside -/

namespace RamFile

variable {f : RamFile} {row : Fin 4} {len offset : Int}

theorem readAccess_inside (hdata : f.data = some row) (hsize : f.fileSize ≤ 512)
    (hlen : -2 ^ 31 ≤ len ∧ len < 2 ^ 31) (hoff : -2 ^ 31 ≤ offset) :
    (∀ a ∈ f.readAccess len offset, a.Inside) ↔ f.fileSize ≤ offset ∨
      len = 0 ∧ f.fileSize - offset < 2 ^ 31 ∨ 0 ≤ offset ∧ 0 < len := by
  obtain ⟨c, hwrap, hlo, hhi⟩ := wrap_spec (f.fileSize - offset)
  simp only [readAccess, hdata]
  by_cases heof : offset ≥ f.fileSize
  · simp [heof]
  · rw [if_neg heof]
    simp only [mem_def, some.injEq, forall_eq']
    rw [Access.inside_iff] <;> dsimp only <;> split_ifs <;> omega

theorem writeAccess_inside (hdata : f.data = some row) (hcap : f.capacity = 1024)
    (hlen : -2 ^ 31 ≤ len ∧ len < 2 ^ 31) (hoff : -2 ^ 31 ≤ offset) :
    (∀ a ∈ f.writeAccess len offset, a.Inside) ↔
      0 ≤ offset ∧ (len = 0 ∨ 0 < len ∧ offset + len ≤ 512) ∨
      1024 ≤ offset ∧ (offset + len < 0 ∨ 1024 < offset + len) := by
  obtain ⟨c, hwrap, hlo, hhi⟩ := wrap_spec (f.capacity - offset)
  have hmax : maxCapacity = 1073741824 := rfl
  simp only [writeAccess, truncateToCapacity, hdata]
  by_cases hover : offset + len < 0 ∨ offset + len > maxCapacity ∨ offset + len > f.capacity
  · rw [if_pos hover]
    by_cases hend : offset ≥ f.capacity
    · simp [hend]
      omega
    · rw [if_neg hend]
      simp only [mem_def, some.injEq, forall_eq']
      rw [Access.inside_iff hlo hhi]
      dsimp only
      omega
  · rw [if_neg hover]
    simp only [mem_def, some.injEq, forall_eq']
    rw [Access.inside_iff hlen.1 hlen.2]
    dsimp only
    omega

theorem truncateAccess_inside (newSize : Int) (hdata : f.data = some row) (hcap : f.capacity = 1024)
    (hsize : f.fileSize ≤ 512) :
    (∀ a ∈ f.truncateAccess newSize, a.Inside) ↔ newSize < 0 ∨ f.fileSize ≤ newSize := by
  obtain ⟨c, hwrap, hlo, hhi⟩ := wrap_spec (f.capacity - newSize)
  unfold truncateAccess
  split_ifs with hneg hlt
  · simp [hneg]
  · simp only [hdata, map_some, mem_def, some.injEq, forall_eq']
    rw [Access.inside_iff hlo hhi]
    dsimp only
    omega
  · simp [not_lt.mp hlt]

end RamFile

/-- Where no file is longer than a row, a call stays inside the row exactly if it fits. -/
theorem inside_iff_fits {s : State} (h : Inv s) (hsize : ∀ id, ∀ f ∈ s.files id, f.fileSize ≤ 512)
    (op : Op) : (∀ a ∈ op.access s, a.Inside) ↔ Fits s op := by
  have hint : ∀ x : Int32, -2 ^ 31 ≤ x.toInt ∧ x.toInt < 2 ^ 31 := fun x => ⟨x.le_toInt, x.toInt_lt⟩
  cases op with
  | construct id capacity =>
    simp only [Op.access, State.constructAccess, Fits]
    cases s.takeRow capacity.toInt with
    | none => simp
    | some row =>
      simp only [map_some, mem_def, some.injEq, forall_eq']
      rw [Access.inside_iff (by simp) (by simp)]
      simp
  | destroy id => simp [Op.access, Fits]
  | read id len offset =>
    cases hf : s.files id with
    | none => simp [Op.access, Fits, hf]
    | some f =>
      cases hdata : f.data with
      | none => simp [Op.access, Fits, hf, hdata, RamFile.readAccess]
      | some row =>
        have hread := f.readAccess_inside hdata (hsize id f hf) (hint len) (hint offset).1
        simpa [Op.access, Fits, hf, hdata] using hread
  | write id buf len offset =>
    cases hf : s.files id with
    | none => simp [Op.access, Fits, hf]
    | some f =>
      cases hdata : f.data with
      | none => simp [Op.access, Fits, hf, hdata, RamFile.writeAccess]
      | some row =>
        have hcap := h.capacity id f hf (by simp [hdata])
        have hwrite := f.writeAccess_inside hdata hcap (hint len) (hint offset).1
        simpa [Op.access, Fits, hf, hdata] using hwrite
  | truncate id newSize =>
    cases hf : s.files id with
    | none => simp [Op.access, Fits, hf]
    | some f =>
      cases hdata : f.data with
      | none => simp [Op.access, Fits, hf, hdata, RamFile.truncateAccess]
      | some row =>
        have hcap := h.capacity id f hf (by simp [hdata])
        have htruncate := f.truncateAccess_inside newSize.toInt hdata hcap (hsize id f hf)
        simpa [Op.access, Fits, hf, hdata] using htruncate
  | clear id =>
    cases hf : s.files id with
    | none => simp [Op.access, Fits, hf]
    | some f =>
      cases hdata : f.data with
      | none => simp [Op.access, Fits, hf, hdata, RamFile.clearAccess]
      | some row =>
        have hcap := h.capacity id f hf (by simp [hdata])
        have hinside : ¬(⟨row, 0, 1024⟩ : Access).Inside := by
          rw [Access.inside_iff (by simp) (by simp)]
          simp
        simp [Op.access, Fits, hf, hdata, RamFile.clearAccess, hcap, hinside]

/-! ## Isolation -/

theorem RamFile.readAccess_row {f : RamFile} {len offset : Int}
    (h : f.readAccess len offset = some a) : f.data = some a.row := by
  unfold readAccess at h
  cases hdata : f.data with
  | none => simp [hdata] at h
  | some row =>
    simp only [hdata] at h
    by_cases heof : offset ≥ f.fileSize
    · simp [heof] at h
    · rw [if_neg heof] at h
      obtain rfl := some.inj h
      rfl

/-- A call touches the row of its own file, or the row that it takes. -/
theorem Op.access_row {s : State} (h : op.access s = some a) :
    s.Owns op.file a.row ∨
      ∃ id capacity, op = .construct id capacity ∧ s.takeRow capacity.toInt = some a.row := by
  cases op with
  | construct id capacity =>
    obtain ⟨row, hrow, rfl⟩ := map_eq_some_iff.mp h
    exact .inr ⟨id, capacity, rfl, hrow⟩
  | destroy id => cases h
  | read =>
    obtain ⟨f, hf, h⟩ := bind_eq_some_iff.mp h
    exact .inl ⟨f, hf, RamFile.readAccess_row h⟩
  | write =>
    obtain ⟨f, hf, h⟩ := bind_eq_some_iff.mp h
    refine .inl ⟨f, hf, ?_⟩
    unfold RamFile.writeAccess at h
    split at h
    · next hdata =>
      obtain rfl := some.inj h
      exact hdata
    · cases h
  | truncate =>
    obtain ⟨f, hf, h⟩ := bind_eq_some_iff.mp h
    refine .inl ⟨f, hf, ?_⟩
    unfold RamFile.truncateAccess at h
    split_ifs at h
    obtain ⟨row, hrow, rfl⟩ := map_eq_some_iff.mp h
    exact hrow
  | clear id =>
    obtain ⟨f, hf, h⟩ := bind_eq_some_iff.mp h
    refine .inl ⟨f, hf, ?_⟩
    unfold RamFile.clearAccess at h
    split_ifs at h
    obtain ⟨row, hrow, rfl⟩ := map_eq_some_iff.mp h
    exact hrow

/-- A call that stays inside its row does not change what an access inside another file's row
sees. -/
theorem read_of_inside {s s' : State} (h : Inv s) (hinside : ∀ a ∈ op.access s, a.Inside)
    (hexec : op.exec s = some s') {f : RamFile} (hf : s.files id = some f)
    (hne : id ≠ op.file) {len offset : Int} (hread : ∀ b ∈ f.readAccess len offset, b.Inside) :
    s'.read id len offset = s.read id len offset := by
  obtain ⟨hfiles, hmem⟩ := op.exec_frame hexec
  simp only [State.read, hfiles id hne, hf, map_some, State.readFile]
  cases hb : f.readAccess len offset with
  | none => rfl
  | some b =>
    dsimp only
    have hown : s.Owns id b.row := ⟨f, hf, RamFile.readAccess_row hb⟩
    rw [State.bytes_congr]
    intro x hx
    apply hmem
    intro a ha
    apply (hinside a ha).disjoint (hread b hb) _ hx
    intro hrow
    rcases Op.access_row ha with hmine | ⟨_, _, _, htake⟩
    · exact hne (h.own op.file id b.row (hrow ▸ hmine) hown)
    · have hfree := s.takeRow_spec htake
      rw [hrow, h.used id b.row hown] at hfree
      cases hfree

/-- No file has a buffer. -/
structure Unbuffered (s : State) : Prop where
  used : ∀ i, s.used i = false
  data : ∀ id, ∀ f ∈ s.files id, f.data = none

namespace Unbuffered

variable {s s' : State}

variable (h : Unbuffered s)

include h

theorem access (hop : NoBuffer s op) : op.access s = none := by
  cases haccess : op.access s with
  | none => rfl
  | some a =>
    rcases Op.access_row haccess with ⟨f, hf, hrow⟩ | ⟨id, capacity, rfl, htake⟩
    · rw [h.data _ f hf] at hrow
      cases hrow
    · rw [(s.takeRow_boot h.used).mpr hop] at htake
      cases htake

theorem noBuffer (hinside : ∀ a ∈ op.access s, a.Inside) :
    NoBuffer s op := by
  cases op with
  | construct id capacity =>
    apply (s.takeRow_boot h.used).mp
    cases hrow : s.takeRow capacity.toInt with
    | none => rfl
    | some row =>
      have ha := hinside ⟨row, 0, 1024⟩ (by simp [Op.access, State.constructAccess, hrow])
      rw [Access.inside_iff (by simp) (by simp)] at ha
      simp at ha
  | _ => trivial

theorem isolated_iff (op : Op) : Isolated s op ↔ NoBuffer s op := by
  constructor
  · intro hisolated
    exact h.noBuffer hisolated.1
  · intro hop
    have hnone := h.access hop
    refine ⟨by simp [hnone], ?_⟩
    intro s' hexec id hne len offset
    obtain ⟨hfiles, hmem⟩ := op.exec_frame hexec
    cases hf : s.files id with
    | none => simp [State.read, hfiles id hne, hf]
    | some f =>
      simp [State.read, hfiles id hne, hf, State.readFile, RamFile.readAccess, h.data id f hf]

theorem setFile (id : Nat) {o : Option RamFile} (ho : ∀ f ∈ o, f.data = none) :
    Unbuffered (s.setFile id o) := by
  refine ⟨h.used, fun id' f hf => ?_⟩
  rcases State.setFile_cases hf with ⟨-, hnew⟩ | ⟨-, hold⟩
  · exact ho f hnew
  · exact h.data id' f hold

theorem exec (hop : NoBuffer s op) (hexec : op.exec s = some s') :
    Unbuffered s' := by
  cases op with
  | construct id =>
    obtain rfl := Op.eq_construct hexec
    rw [State.construct, (s.takeRow_boot h.used).mpr hop]
    exact h.setFile id (by simp)
  | destroy id =>
    obtain ⟨f, hf, rfl⟩ := map_eq_some_iff.mp hexec
    rw [State.destroy, h.data id f hf]
    exact h.setFile id (by simp)
  | read =>
    obtain ⟨f, hf, rfl⟩ := map_eq_some_iff.mp hexec
    exact h
  | write id =>
    obtain ⟨f, hf, rfl⟩ := map_eq_some_iff.mp hexec
    simpa [State.write, RamFile.writeAccess, h.data id f hf] using h
  | truncate id newSize =>
    obtain ⟨f, hf, rfl⟩ := map_eq_some_iff.mp hexec
    unfold State.truncate
    split_ifs
    · exact h
    · have hnone : f.truncateAccess newSize.toInt = none := by
        simp [RamFile.truncateAccess, h.data id f hf]
      rw [hnone]
      exact h.setFile id (by simp [h.data id f hf])
    · exact h
  | clear id =>
    obtain ⟨f, hf, rfl⟩ := map_eq_some_iff.mp hexec
    have hnone : f.clearAccess = none := by simp [RamFile.clearAccess, h.data id f hf]
    rw [State.clear, hnone]
    exact h.setFile id (by simp [h.data id f hf])

end Unbuffered

/-- **The files keep apart in exactly those runs in which none of them gets a buffer.** In every
run, while no file is longer than a row, a call stays inside the row exactly if it fits, and then
another file goes on to return what it has returned. (A run with a fourth file has cleared bytes
behind the array; what lies there is taken to be of no use to the files.) -/
theorem isolated_iff_unbuffered (l : List Op) :
    (Run.Allowed Op.exec Isolated l boot ↔ Run.Allowed Op.exec NoBuffer l boot) ∧
      ∀ s, run l boot = some s →
        (∀ id, ∀ f ∈ s.files id, f.fileSize ≤ 512) → ∀ op,
          ((∀ a ∈ op.access s, a.Inside) ↔ Fits s op) ∧
          (Fits s op → ∀ s' ∈ op.exec s, ∀ id, ∀ f ∈ s.files id, id ≠ op.file → ∀ len offset,
            (∀ b ∈ f.readAccess len offset, b.Inside) →
              s'.read id len offset = s.read id len offset) := by
  refine ⟨?_, ?_⟩
  · apply Run.Allowed.congr (I := Unbuffered)
    · intro s op h
      exact h.isolated_iff op
    · intro s t op h hop hexec
      exact h.exec hop hexec
    · exact ⟨fun _ => rfl, by simp [boot]⟩
  · intro s hrun hsize op
    have h := inv_of_run hrun
    refine ⟨inside_iff_fits h hsize op, ?_⟩
    intro hfits s' hexec id f hf hne len offset hread
    exact read_of_inside h ((inside_iff_fits h hsize op).mpr hfits) hexec hf hne hread

/-- Two files of 16 bytes, the second with a byte in it. -/
def neighbours : List Op :=
  [.construct 0 16, .construct 1 16, .write 1 (fun _ => 0x41) 1 0]

/-- What they lead to. -/
def neighboursState : State := (run neighbours boot).getD boot

theorem small_write_keeps_neighbour :
    ∀ s' ∈ (Op.write 0 (fun _ => 0x42) 1 100).exec neighboursState,
      s'.read 1 1 0 = neighboursState.read 1 1 0 := by
  have hrun : run neighbours boot = some neighboursState := rfl
  have h₁ : neighboursState.files 1 = some ⟨some 1, 1024, 1⟩ := by decide +kernel
  have hsize : ∀ id, ∀ f ∈ neighboursState.files id, f.fileSize ≤ 512 := by
    intro id f hf
    match id with
    | 0 =>
      cases hf
      decide
    | 1 =>
      cases hf
      decide
    | id + 2 => cases hf
  intro s' hexec
  refine ((isolated_iff_unbuffered neighbours).2 _ hrun hsize _).2 ?_ s' hexec 1 _ h₁
    (by decide) 1 0 ?_
  · intro f hf
    cases hf
    decide
  · intro b hb
    have haccess : (⟨some 1, 1024, 1⟩ : RamFile).readAccess 1 0 = some ⟨1, 0, 1⟩ := by decide
    obtain rfl := some.inj (haccess.symm.trans hb)
    exact (Access.inside_iff (by decide) (by decide)).mpr (by decide)

/-- A write to the first file, at its offset 512, changes the first byte of the second. -/
theorem write_disturbs_neighbour :
    (run neighbours boot).bind (fun s => s.read 1 1 0) = some (1, [0x41]) ∧
      (run (neighbours ++ [.write 0 (fun _ => 0x42) 1 512]) boot).bind (fun s => s.read 1 1 0) =
        some (1, [0x42]) := by
  decide +kernel

end AuroraOS.RamFs
