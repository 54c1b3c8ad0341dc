import AuroraOS.Lib.ByteMem
import AuroraOS.Lib.Simulation
import AuroraOS.VfsPaths

/-!
# Loading programs

`ElfLoader::load_and_exec` of `apps/elf_loader.cpp` up to the relocation: the checks of the header,
the two passes over the program headers, and the check of the entry point. Every read of the loader
follows an `lseek`, so the loader is written over these two steps; numbers are 32-bit words.

The file lies behind the file system, whose client reads at most 1024 bytes at a time. A segment is
read at once and the rest of it is cleared. `image_faithful_iff`: the image is the one that the file
describes exactly if no segment has a byte other than zero after its first 1024.
-/

namespace AuroraOS.Elf

open ByteMem Simulation Vfs VfsState List Option

/-! ## Headers -/

/-- `Elf32_Ehdr`, as far as the loader looks at it. -/
structure Ehdr where
  ident : List UInt8
  machine : Nat
  entry : Nat
  phoff : Nat
  shoff : Nat
  phentsize : Nat
  phnum : Nat
  shnum : Nat

def parseEhdr (bytes : List UInt8) : Ehdr where
  ident := bytes.take 4
  machine := word bytes 18 2
  entry := word bytes 24 4
  phoff := word bytes 28 4
  shoff := word bytes 32 4
  phentsize := word bytes 42 2
  phnum := word bytes 44 2
  shnum := word bytes 48 2

/-- `Elf32_Phdr`, as far as the loader looks at it. -/
structure Phdr where
  type : Nat
  offset : Nat
  vaddr : Nat
  filesz : Nat
  memsz : Nat
  flags : Nat
deriving DecidableEq

def parsePhdr (bytes : List UInt8) : Phdr where
  type := word bytes 0 4
  offset := word bytes 4 4
  vaddr := word bytes 8 4
  filesz := word bytes 16 4
  memsz := word bytes 20 4
  flags := word bytes 24 4

/-- `ELFMAG0` to `ELFMAG3` -/
def elfMag : List UInt8 := [0x7f, 0x45, 0x4c, 0x46]

/-- `EM_ARM` -/
def emArm : Nat := 40

/-- `PT_LOAD` -/
def ptLoad : Nat := 1

/-- `sizeof(Elf32_Ehdr)`, `sizeof(Elf32_Phdr)` and `sizeof(Elf32_Shdr)` -/
def sizeofEhdr : Nat := 52

def sizeofPhdr : Nat := 32

def sizeofShdr : Nat := 40

namespace Phdr

/-- A segment that is loaded. -/
def Loaded (h : Phdr) : Prop := h.type = ptLoad ∧ h.memsz > 0
  deriving Decidable

/-- Both `PF_W` and `PF_X`. -/
def WritableExecutable (h : Phdr) : Prop := h.flags.testBit 1 ∧ h.flags.testBit 0
  deriving Decidable

/-- The check of the segment's place in the file. -/
def OutOfBounds (h : Phdr) (fsize : Nat) : Prop :=
  h.offset > fsize ∨ (h.offset + h.filesz) % 2 ^ 32 > fsize
  deriving Decidable

end Phdr

/-! ## The loader -/

/-- What the loader does with the file: `lseek` to an offset and `read`, `lseek` to the end and
back, and `close` before it returns false. -/
structure FileAccess (m : Type → Type) where
  readAt : Int → Int → m (Int × List UInt8)
  size : m Int
  reject : {A : Type} → m A

/-- The addresses of the loaded segments. -/
structure Span where
  minVaddr : Nat
  maxVaddr : Nat
  hasLoadable : Bool

/-- `segment_memory`, for the addresses from `min_vaddr` on. -/
structure Image where
  memory : Mem
  size : Nat
  minVaddr : Nat

section Loader

variable {m : Type → Type} [Monad m] (io : FileAccess m)

def readEhdr : m Ehdr := do
  let (n, bytes) ← io.readAt 0 sizeofEhdr
  let ehdr := parseEhdr bytes
  if n ≠ sizeofEhdr ∨ ehdr.ident ≠ elfMag then io.reject
  else if ehdr.machine ≠ emArm then io.reject
  else if ehdr.phentsize ≠ sizeofPhdr then io.reject
  else if ehdr.phnum > 16 then io.reject
  else return ehdr

/-- The size of the file, with room for the two tables of headers. -/
def checkTables (ehdr : Ehdr) : m Nat := do
  let fileSize ← io.size
  if fileSize < 0 then io.reject
  else
    let fsize := fileSize.toNat
    if ehdr.phoff > fsize ∨ (ehdr.phoff + ehdr.phnum * ehdr.phentsize) % 2 ^ 32 > fsize then
      io.reject
    else if ehdr.shnum > 0 ∧
        (ehdr.shoff > fsize ∨ (ehdr.shoff + ehdr.shnum * sizeofShdr) % 2 ^ 32 > fsize) then
      io.reject
    else return fsize

def readPhdr (ehdr : Ehdr) (i : Nat) : m Phdr := do
  let (n, bytes) ← io.readAt (wrap ((ehdr.phoff + i * ehdr.phentsize) % 2 ^ 32 : Nat)) sizeofPhdr
  if n ≠ sizeofPhdr then io.reject else return parsePhdr bytes

/-- A round of the first pass. -/
def scanSegment (ehdr : Ehdr) (fsize : Nat) (span : Span) (i : Nat) : m Span := do
  let phdr ← readPhdr io ehdr i
  if phdr.Loaded then
    if phdr.WritableExecutable then io.reject
    else if (phdr.vaddr + phdr.memsz) % 2 ^ 32 < phdr.vaddr then io.reject
    else if phdr.OutOfBounds fsize then io.reject
    else if phdr.filesz > phdr.memsz then io.reject
    else
      return {
        minVaddr := min phdr.vaddr span.minVaddr
        maxVaddr := max ((phdr.vaddr + phdr.memsz) % 2 ^ 32) span.maxVaddr
        hasLoadable := true }
  else return span

/-- A round of the second pass. -/
def loadSegment (ehdr : Ehdr) (fsize minVaddr totalMemsz : Nat) (memory : Mem) (i : Nat) :
    m Mem := do
  let phdr ← readPhdr io ehdr i
  if phdr.Loaded then
    let offsetInMem := (phdr.vaddr + (2 ^ 32 - minVaddr)) % 2 ^ 32
    if phdr.WritableExecutable then io.reject
    else if offsetInMem > totalMemsz ∨ phdr.memsz > totalMemsz - offsetInMem then io.reject
    else if phdr.OutOfBounds fsize then io.reject
    else if phdr.filesz > phdr.memsz then io.reject
    else
      let (actualRead, bytes) ← io.readAt (wrap phdr.offset) (wrap phdr.filesz)
      let memory := copy memory offsetInMem bytes
      -- a negative result counts as nothing read
      let read := actualRead.toNat
      return fill memory (offsetInMem + read) (phdr.memsz - read) 0
  else return memory

/-- From the open file to the image. -/
def loadImage : m Image := do
  let ehdr ← readEhdr io
  let fsize ← checkTables io ehdr
  let span ← (List.range ehdr.phnum).foldlM (scanSegment io ehdr fsize) ⟨0xFFFFFFFF, 0, false⟩
  if span.hasLoadable = false then io.reject
  else
    let totalMemsz := (span.maxVaddr + (2 ^ 32 - span.minVaddr)) % 2 ^ 32
    if totalMemsz > 256 * 1024 then io.reject
    else
      let memory ← (List.range ehdr.phnum).foldlM
        (loadSegment io ehdr fsize span.minVaddr totalMemsz) fun _ => 0
      if ehdr.entry ≥ span.minVaddr ∧ ehdr.entry < span.maxVaddr then
        return ⟨memory, totalMemsz, span.minVaddr⟩
      else io.reject

end Loader

/-! ## Files behind the file system -/

/-- A file with a fixed content as a node, as `RamFile::read` and `get_size` do it. -/
def fileNode : Vnodes (List UInt8) := fun content call =>
  match call with
  | .read _ len offset _ =>
    if offset ≥ content.length then (⟨0, [], 0⟩, content)
    else
      let bytesToRead := if len > content.length - offset then content.length - offset else len
      (⟨bytesToRead, (content.drop offset.toNat).take bytesToRead.toNat, 0⟩, content)
  | .getSize .. => (⟨content.length, [], 0⟩, content)
  | _ => (⟨0, [], 0⟩, content)

variable {World : Type}

/-- `VfsManager::lseek` -/
def managerLseek (vn : Vnodes World) (fd offset whence : Int) (s : VfsState World) :
    Int × VfsState World :=
  s.callVfs vn (VfsCall.lseek fd offset whence).request

/-- The loader's file, open at `fd`. -/
def vfsAccess (vn : Vnodes World) (fd : Int) : FileAccess (StateT (VfsState World) Option) where
  readAt offset len := fun s =>
    some ((managerLseek vn fd offset 0 s).2.managerRead .other vn fd len)
  size := fun s =>
    let (fileSize, s) := managerLseek vn fd 0 2 s
    some (fileSize, (managerLseek vn fd 0 0 s).2)
  reject := failure

/-- `load_and_exec`, to the point where it has the image. -/
def loadAndExec (vn : Vnodes World) (filepath : List Char) : StateT (VfsState World) Option Image :=
  fun s =>
    let (fd, s) := s.managerOpen vn filepath 0
    if fd < 0 then none else loadImage (vfsAccess vn fd) s

/-- What a read of the client returns: at most 1024 bytes. -/
def cappedRead (content : List UInt8) (offset len : Int) : Int × List UInt8 :=
  let len := VfsState.bufferLen (requestLen len)
  let bytes := (content.drop offset.toNat).take len.toNat
  (bytes.length, bytes)

/-- The file itself, read through the client. -/
def fileAccess (content : List UInt8) : FileAccess Option where
  readAt offset len := if offset < 0 then none else some (cappedRead content offset len)
  size := some content.length
  reject := none

/-- The file is open. -/
structure Opened (content : List UInt8) (fd : Int) (s : VfsState (List UInt8)) : Prop where
  world : s.world = content
  isOpen : ∃ f, s.openFd fd = some f

/-! ## The file system does not get in the way -/

theorem openFd_eq_some {s : VfsState World} {fd : Int} {f : FileDescriptor} : s.openFd fd = some f ↔
    ∃ n < maxOpenFiles, fd = (n : Nat) ∧ s.server.fdTable n = f ∧ f.used = true := by
  unfold openFd
  constructor
  · intro h
    split_ifs at h with hbad
    simp only [not_or, not_not] at hbad
    obtain rfl := some.inj h
    exact ⟨fd.toNat, by omega, by omega, rfl, hbad.2.2⟩
  · rintro ⟨n, hn, rfl, rfl, hused⟩
    rw [if_neg (by simp only [Int.toNat_natCast, hused, not_true_eq_false, or_false]; omega),
      Int.toNat_natCast]

theorem openFd_setFd {s : VfsState World} {fd : Int} {f f' : FileDescriptor}
    (h : s.openFd fd = some f) (hused : f'.used = f.used) :
    (s.setFd fd.toNat f').openFd fd = some f' := by
  obtain ⟨n, hn, rfl, -, hf⟩ := openFd_eq_some.mp h
  exact openFd_eq_some.mpr ⟨n, hn, rfl, Function.update_self .., hused.trans hf⟩

theorem openFd_advance {s : VfsState World} {fd : Int} {f : FileDescriptor}
    (h : s.openFd fd = some f) (bytes : Int) :
    ∃ f', (s.advance fd f bytes).openFd fd = some f' := by
  unfold advance
  split_ifs
  · exact ⟨_, openFd_setFd h rfl⟩
  · exact ⟨f, h⟩

variable {content : List UInt8} {fd : Int} {s : VfsState (List UInt8)}

theorem Opened.lseek (h : Opened content fd s) {offset : Int} (hoff : 0 ≤ offset) :
    (managerLseek fileNode fd offset 0 s).2.world = content ∧
      ∃ f, (managerLseek fileNode fd offset 0 s).2.openFd fd = some f ∧ f.offset = offset := by
  obtain ⟨f, hf⟩ := h.isOpen
  have hseek : managerLseek fileNode fd offset 0 s =
      (offset, s.setFd fd.toNat { f with offset := offset }) := by
    simp [managerLseek, callVfs, VfsCall.request, processRequest,
      withStatus, handleLseek, newOffset, hf, hoff]
  rw [hseek]
  exact ⟨h.world, _, openFd_setFd hf rfl, rfl⟩

theorem wrap_of_lt {n : Nat} (h : n < 2 ^ 31) : wrap n = n := by
  obtain ⟨c, heq, hlo, hhi⟩ := wrap_spec n
  omega

theorem Opened.size (h : Opened content fd s) (hsize : content.length < 2 ^ 31) :
    (managerLseek fileNode fd 0 2 s).1 = content.length ∧
      Opened content fd (managerLseek fileNode fd 0 2 s).2 := by
  obtain ⟨f, hf⟩ := h.isOpen
  have hseek : managerLseek fileNode fd 0 2 s = ((content.length : Int),
      (s.callVnode fileNode (.getSize f.vnode f.priv)).2.setFd fd.toNat
        { f with offset := content.length }) := by
    simp [managerLseek, callVfs, VfsCall.request, processRequest,
      withStatus, handleLseek, newOffset, hf, callVnode,
      fileNode, h.world, wrap_of_lt hsize]
  rw [hseek]
  exact ⟨rfl, h.world, _, openFd_setFd (s := (s.callVnode fileNode _).2) hf rfl⟩

theorem map_getD_range (l : List UInt8) (n : Nat) (hn : n = l.length) :
    ((range n).map fun i => l.getD i 0) = l := by
  subst hn
  apply ext_getElem
  · simp
  · intro i h₁ h₂
    simp [h₂]

theorem fileNode_read (content : List UInt8) (vnode priv : Nat) {len offset : Int} (hlen : 0 ≤ len)
    (hoff : 0 ≤ offset) : fileNode content (.read vnode len offset priv) =
      (⟨((content.drop offset.toNat).take len.toNat).length,
        (content.drop offset.toNat).take len.toNat, 0⟩, content) := by
  have hcount : (((content.drop offset.toNat).take len.toNat).length : Int) =
      min len (content.length - offset : Int).toNat := by
    simp only [length_take, length_drop]
    omega
  unfold fileNode
  dsimp only
  rw [hcount]
  split_ifs
  · have hnil : content.drop offset.toNat = [] := drop_eq_nil_iff.mpr (by omega)
    rw [hnil, take_nil]
    congr 2
    omega
  · have htake : (content.drop offset.toNat).take len.toNat =
        (content.drop offset.toNat).take (content.length - offset : Int).toNat := by
      rw [take_of_length_le, take_of_length_le]
      · simp only [length_drop]
        omega
      · simp only [length_drop]
        omega
    rw [htake]
    congr 2
    omega
  · congr 2
    omega

theorem Opened.read (hworld : s.world = content) {f : FileDescriptor} (hf : s.openFd fd = some f)
    (hoff : 0 ≤ f.offset) (len : Int) :
    (s.managerRead .other fileNode fd len).1 = cappedRead content f.offset len ∧
      Opened content fd (s.managerRead .other fileNode fd len).2 := by
  have hserver : bufferLen (Board.other.serverLen (requestLen len)) = bufferLen (requestLen len) :=
    bufferLen_serverLen .other _
  have hlen : 0 ≤ bufferLen (requestLen len) := by
    unfold bufferLen vfsIpcBufferSize
    split_ifs <;> omega
  have hnode := fileNode_read content f.vnode f.priv hlen hoff
  unfold managerRead cappedRead
  simp only [handleRead, hf, callVnode, hserver, hworld, hnode, VfsCall.copyOut]
  generalize (content.drop f.offset.toNat).take (bufferLen (requestLen len)).toNat = bytes
  constructor
  · rw [Prod.mk.injEq]
    refine ⟨rfl, ?_⟩
    split_ifs
    · exact map_getD_range bytes _ (Int.toNat_natCast _)
    · have hnil : bytes.length = 0 := by omega
      exact (length_eq_zero_iff.mp hnil).symm
  · refine ⟨?_, openFd_advance (s := ⟨s.server, content, _⟩) hf _⟩
    unfold advance
    split_ifs <;> rfl

/-! ## The loader sees the file only -/

theorem simulates_readAt (content : List UInt8) (fd : Int) {offset : Int} (hoff : 0 ≤ offset)
    (len : Int) : Simulates (Opened content fd) ((vfsAccess fileNode fd).readAt offset len)
      ((fileAccess content).readAt offset len) := by
  intro s hs a s' h
  obtain ⟨hworld, f, hf, hfoff⟩ := hs.lseek hoff
  obtain ⟨hread, hopened⟩ := Opened.read hworld hf (by omega) len
  have heq : (managerLseek fileNode fd offset 0 s).2.managerRead .other fileNode fd len = (a, s') :=
    some.inj h
  rw [heq, hfoff] at hread
  rw [heq] at hopened
  refine ⟨?_, hopened⟩
  unfold fileAccess
  dsimp only
  rw [if_neg (by omega), ← hread]

section

variable {content : List UInt8}

theorem simulates_size (fd : Int) (hsize : content.length < 2 ^ 31) :
    Simulates (Opened content fd) (vfsAccess fileNode fd).size (fileAccess content).size := by
  intro s hs a s' h
  obtain ⟨hvalue, hopened⟩ := hs.size hsize
  obtain ⟨hworld, f, hf, -⟩ := hopened.lseek le_rfl
  have heq : ((managerLseek fileNode fd 0 2 s).1,
      (managerLseek fileNode fd 0 0 (managerLseek fileNode fd 0 2 s).2).2) = (a, s') :=
    some.inj h
  obtain ⟨rfl, rfl⟩ := Prod.mk.inj heq
  exact ⟨by rw [hvalue]; rfl, hworld, f, hf⟩

theorem simulates_check {A : Type} {c : Prop} [Decidable c]
    {x : StateT (VfsState (List UInt8)) Option A} {y : Option A}
    (h : ¬c → Simulates (Opened content fd) x y) :
    Simulates (Opened content fd) (if c then (vfsAccess fileNode fd).reject else x)
      (if c then (fileAccess content).reject else y) :=
  .ite (fun _ => simulates_failure _) h

theorem simulates_readEhdr (content : List UInt8) (fd : Int) :
    Simulates (Opened content fd) (readEhdr (vfsAccess fileNode fd))
      (readEhdr (fileAccess content)) := by
  refine (simulates_readAt content fd le_rfl _).bind ?_
  intro r _
  refine simulates_check fun _ => ?_
  refine simulates_check fun _ => ?_
  refine simulates_check fun _ => ?_
  exact simulates_check fun _ => simulates_pure _

theorem simulates_checkTables (fd : Int) (hsize : content.length < 2 ^ 31) (ehdr : Ehdr) :
    Simulates (Opened content fd) (checkTables (vfsAccess fileNode fd) ehdr)
      (checkTables (fileAccess content) ehdr) := by
  refine (simulates_size fd hsize).bind ?_
  intro fileSize _
  refine simulates_check fun _ => ?_
  refine simulates_check fun _ => ?_
  exact simulates_check fun _ => simulates_pure _

theorem check_some {A : Type} {c : Prop} [Decidable c] {y : Option A} {a : A}
    (h : (if c then (fileAccess content).reject else y) = some a) : ¬c ∧ y = some a := by
  split_ifs at h with hc
  · cases h
  · exact ⟨hc, h⟩

theorem readEhdr_some {ehdr : Ehdr} (h : readEhdr (fileAccess content) = some ehdr) :
    ehdr = parseEhdr (content.take 52) ∧ ehdr.phentsize = 32 ∧ ehdr.phnum ≤ 16 := by
  simp only [readEhdr, bind_eq_bind, bind_eq_some_iff] at h
  obtain ⟨r, hr, h⟩ := h
  obtain ⟨-, h⟩ := check_some h
  obtain ⟨-, h⟩ := check_some h
  obtain ⟨hentry, h⟩ := check_some h
  obtain ⟨hnum, h⟩ := check_some h
  obtain rfl := some.inj h
  obtain rfl : cappedRead content (0 : Nat) (52 : Nat) = r := some.inj hr
  exact ⟨rfl, not_not.mp hentry, not_lt.mp hnum⟩

theorem checkTables_some {ehdr : Ehdr} {fsize : Nat}
    (h : checkTables (fileAccess content) ehdr = some fsize) :
    fsize = content.length ∧ ehdr.phoff ≤ fsize ∧
      (ehdr.phoff + ehdr.phnum * ehdr.phentsize) % 2 ^ 32 ≤ fsize := by
  simp only [checkTables, bind_eq_bind, bind_eq_some_iff] at h
  obtain ⟨fileSize, hfile, h⟩ := h
  obtain rfl : (content.length : Int) = fileSize := some.inj hfile
  obtain ⟨-, h⟩ := check_some h
  obtain ⟨hph, h⟩ := check_some h
  obtain ⟨-, h⟩ := check_some h
  obtain rfl := some.inj h
  exact ⟨rfl, not_lt.mp fun hlt => hph (.inl hlt), not_lt.mp fun hlt => hph (.inr hlt)⟩

end

theorem length_take_drop {a n : Nat} (h : a + n ≤ content.length) :
    ((content.drop a).take n).length = n :=
  length_take_of_le (by rw [length_drop]; omega)

theorem cappedRead_eq (content : List UInt8) (offset len : Nat) :
    cappedRead content offset len = ((((content.drop offset).take (min 1024 len)).length : Int),
      (content.drop offset).take (min 1024 len)) := by
  have hbuffer : (bufferLen (requestLen len)).toNat = min 1024 len := by
    unfold bufferLen requestLen vfsIpcBufferSize
    split_ifs <;> omega
  simp only [cappedRead, hbuffer, Int.toNat_natCast]

/-- The program header in the file. -/
def phdrAt (content : List UInt8) (ehdr : Ehdr) (i : Nat) : Phdr :=
  parsePhdr ((content.drop (ehdr.phoff + i * 32)).take 32)

/-- The header, the size of the file and the table of the program headers are as checked. -/
structure Checked (content : List UInt8) (ehdr : Ehdr) : Prop where
  size : content.length < 2 ^ 31
  entry : ehdr.phentsize = 32
  count : ehdr.phnum ≤ 16
  table : ehdr.phoff + ehdr.phnum * 32 ≤ content.length

theorem Checked.of_some {ehdr : Ehdr} {fsize : Nat}
    (hsize : content.length < 2 ^ 31) (he : readEhdr (fileAccess content) = some ehdr)
    (ht : checkTables (fileAccess content) ehdr = some fsize) :
    Checked content ehdr ∧ fsize = content.length := by
  obtain ⟨-, hentry, hcount⟩ := readEhdr_some he
  obtain ⟨rfl, hoff, htable⟩ := checkTables_some ht
  rw [hentry] at htable
  exact ⟨⟨hsize, hentry, hcount, by omega⟩, rfl⟩

variable {ehdr : Ehdr} {span : Span}

section

variable (h : Checked content ehdr) {i : Nat}

include h

theorem Checked.offset (hi : i < ehdr.phnum) :
    wrap ((ehdr.phoff + i * ehdr.phentsize) % 2 ^ 32 : Nat) = (ehdr.phoff + i * 32 : Nat) := by
  have htable := h.table
  have hsize := h.size
  rw [h.entry, Nat.mod_eq_of_lt (by omega), wrap_of_lt (by omega)]

theorem Checked.readPhdr_eq (hi : i < ehdr.phnum) :
    readPhdr (fileAccess content) ehdr i = some (phdrAt content ehdr i) := by
  have htable := h.table
  have hlen := length_take_drop (by omega : ehdr.phoff + i * 32 + 32 ≤ content.length)
  have hread : (fileAccess content).readAt (ehdr.phoff + i * 32 : Nat) sizeofPhdr =
      some (32, (content.drop (ehdr.phoff + i * 32)).take 32) := by
    simp only [fileAccess]
    rw [cappedRead_eq, sizeofPhdr, Nat.min_eq_right (by decide), hlen]
    rfl
  rw [readPhdr, h.offset hi, hread]
  rfl

theorem Checked.simulates_readPhdr (fd : Int) (hi : i < ehdr.phnum) :
    Simulates (Opened content fd) (readPhdr (vfsAccess fileNode fd) ehdr i)
      (readPhdr (fileAccess content) ehdr i) := by
  refine (simulates_readAt content fd ?_ _).bind ?_
  · rw [h.offset hi]
    omega
  · intro r _
    exact simulates_check fun _ => simulates_pure _

theorem Checked.simulates_scanSegment (fd : Int) (fsize : Nat) (span : Span)
    (hi : i < ehdr.phnum) :
    Simulates (Opened content fd) (scanSegment (vfsAccess fileNode fd) ehdr fsize span i)
      (scanSegment (fileAccess content) ehdr fsize span i) := by
  refine (h.simulates_readPhdr fd hi).bind ?_
  intro phdr _
  refine .ite (fun _ => ?_) fun _ => simulates_pure _
  refine simulates_check fun _ => ?_
  refine simulates_check fun _ => ?_
  refine simulates_check fun _ => ?_
  exact simulates_check fun _ => simulates_pure _

theorem Checked.simulates_loadSegment (fd : Int) (minVaddr totalMemsz : Nat) (memory : Mem)
    (hi : i < ehdr.phnum) :
    Simulates (Opened content fd)
      (loadSegment (vfsAccess fileNode fd) ehdr content.length minVaddr totalMemsz memory i)
      (loadSegment (fileAccess content) ehdr content.length minVaddr totalMemsz memory i) := by
  refine (h.simulates_readPhdr fd hi).bind ?_
  intro phdr _
  refine .ite (fun _ => ?_) fun _ => simulates_pure _
  refine simulates_check fun _ => ?_
  refine simulates_check fun _ => ?_
  refine simulates_check fun hbounds => ?_
  refine simulates_check fun _ => ?_
  -- the offset was checked against the size of the file
  have hoff : phdr.offset < 2 ^ 31 := by
    have hle := not_lt.mp fun hlt => hbounds (.inl hlt)
    have hsize := h.size
    omega
  refine (simulates_readAt content fd ?_ _).bind ?_
  · rw [wrap_of_lt hoff]
    omega
  · intro r _
    exact simulates_pure _

end

/-- **Refinement.** What the loader makes of a file behind the file system is what it makes of the
content. -/
theorem simulates_loadImage (fd : Int) (hsize : content.length < 2 ^ 31) :
    Simulates (Opened content fd) (loadImage (vfsAccess fileNode fd))
      (loadImage (fileAccess content)) := by
  refine (simulates_readEhdr content fd).bind ?_
  intro ehdr hehdr
  refine (simulates_checkTables fd hsize ehdr).bind ?_
  intro fsize hfsize
  obtain ⟨hchecked, rfl⟩ := Checked.of_some hsize hehdr hfsize
  refine (simulates_foldlM ?_ _).bind ?_
  · intro span i hi
    exact hchecked.simulates_scanSegment fd _ span (mem_range.mp hi)
  · intro span _
    refine simulates_check fun _ => ?_
    refine simulates_check fun _ => ?_
    refine (simulates_foldlM ?_ _).bind ?_
    · intro memory i hi
      exact hchecked.simulates_loadSegment fd _ _ memory (mem_range.mp hi)
    · intro memory _
      exact .ite (fun _ => simulates_pure _) fun _ => simulates_failure _

/-! ## The first pass -/

/-- What the first pass has made sure of. -/
structure Scanned (content : List UInt8) (span : Span) (h : Phdr) : Prop where
  low : span.minVaddr ≤ h.vaddr
  high : h.vaddr + h.memsz ≤ span.maxVaddr
  file : ¬h.OutOfBounds content.length
  sizes : h.filesz ≤ h.memsz

/-- A span of 32-bit addresses, which is not empty once it has a segment. -/
structure Span.Ok (span : Span) : Prop where
  low : span.minVaddr < 2 ^ 32
  high : span.maxVaddr < 2 ^ 32
  nonempty : span.hasLoadable = true → span.minVaddr ≤ span.maxVaddr

theorem word_lt (bytes : List UInt8) (a : Nat) : word bytes a 4 < 2 ^ 32 := load_lt _ a 4

/-- The span grows. -/
structure Span.Grows (span span' : Span) : Prop where
  low : span'.minVaddr ≤ span.minVaddr
  high : span.maxVaddr ≤ span'.maxVaddr
  ok : span.Ok → span'.Ok

/-- The span covers the segment that was read. -/
theorem Checked.scanSegment_some (h : Checked content ehdr) {span' : Span} {i : Nat}
    (hi : i < ehdr.phnum)
    (hscan : scanSegment (fileAccess content) ehdr content.length span i = some span') :
    span.Grows span' ∧
      ((phdrAt content ehdr i).Loaded → Scanned content span' (phdrAt content ehdr i)) := by
  rw [scanSegment, h.readPhdr_eq hi, bind_eq_bind, bind_some] at hscan
  have hmemsz : (phdrAt content ehdr i).memsz < 2 ^ 32 := word_lt ..
  have hvaddr : (phdrAt content ehdr i).vaddr < 2 ^ 32 := word_lt ..
  generalize phdrAt content ehdr i = phdr at hscan hmemsz hvaddr
  by_cases hl : phdr.Loaded
  · rw [if_pos hl] at hscan
    obtain ⟨-, hscan⟩ := check_some hscan
    obtain ⟨hwrap, hscan⟩ := check_some hscan
    obtain ⟨hfile, hscan⟩ := check_some hscan
    obtain ⟨hsizes, hscan⟩ := check_some hscan
    obtain rfl := some.inj hscan
    -- the end of the segment has not wrapped
    have hend : (phdr.vaddr + phdr.memsz) % 2 ^ 32 = phdr.vaddr + phdr.memsz := by omega
    refine ⟨⟨min_le_right _ _, le_max_right _ _, fun hok => ⟨?_, ?_, fun _ => ?_⟩⟩,
      fun _ => ⟨min_le_left _ _, ?_, hfile, not_lt.mp hsizes⟩⟩
    · exact lt_of_le_of_lt (min_le_left _ _) hvaddr
    · exact max_lt (Nat.mod_lt _ (by decide)) hok.high
    · calc min phdr.vaddr span.minVaddr ≤ phdr.vaddr := min_le_left _ _
        _ ≤ (phdr.vaddr + phdr.memsz) % 2 ^ 32 := not_lt.mp hwrap
        _ ≤ max ((phdr.vaddr + phdr.memsz) % 2 ^ 32) span.maxVaddr := le_max_left _ _
    · rw [hend]
      exact le_max_left _ _
  · rw [if_neg hl] at hscan
    obtain rfl := some.inj hscan
    exact ⟨⟨le_rfl, le_rfl, id⟩, fun hl' => absurd hl' hl⟩

theorem Checked.scan_some (h : Checked content ehdr) {l : List Nat} (hl : ∀ i ∈ l, i < ehdr.phnum)
    {span' : Span}
    (hscan : l.foldlM (scanSegment (fileAccess content) ehdr content.length) span = some span') :
    span.Grows span' ∧
      ∀ i ∈ l, (phdrAt content ehdr i).Loaded → Scanned content span' (phdrAt content ehdr i) := by
  induction l generalizing span with
  | nil =>
    obtain rfl := some.inj hscan
    exact ⟨⟨le_rfl, le_rfl, id⟩, by simp⟩
  | cons i l ih =>
    rw [foldlM_cons, bind_eq_bind, bind_eq_some_iff] at hscan
    obtain ⟨mid, hfirst, hrest⟩ := hscan
    obtain ⟨⟨hlow, hhigh, hok⟩, hthis⟩ := h.scanSegment_some (hl i (by simp)) hfirst
    obtain ⟨⟨hlow', hhigh', hok'⟩, hothers⟩ := ih (fun j hj => hl j (by simp [hj])) hrest
    refine ⟨⟨hlow'.trans hlow, hhigh.trans hhigh', fun h => hok' (hok h)⟩, ?_⟩
    intro j hj hloaded
    rcases mem_cons.mp hj with rfl | hj
    · have hs := hthis hloaded
      exact ⟨hlow'.trans hs.low, hs.high.trans hhigh', hs.file, hs.sizes⟩
    · exact hothers j hj hloaded

/-! ## The second pass -/

namespace Phdr

/-- The address is one of the segment's. -/
def Covers (h : Phdr) (minVaddr x : Nat) : Prop :=
  h.vaddr - minVaddr ≤ x ∧ x < h.vaddr - minVaddr + h.memsz
  deriving Decidable

/-- What the loader makes of byte `k` of a segment. -/
def loadedByte (h : Phdr) (content : List UInt8) (k : Nat) : UInt8 :=
  if k < min 1024 h.filesz then content.getD (h.offset + k) 0 else 0

/-- A loaded segment in memory. -/
def place (content : List UInt8) (minVaddr : Nat) (memory : Mem) (h : Phdr) : Mem := fun x =>
  if h.Loaded ∧ h.Covers minVaddr x then h.loadedByte content (x - (h.vaddr - minVaddr))
  else memory x

end Phdr

theorem fill_copy (content : List UInt8) (memory : Mem) {h : Phdr} (minVaddr : Nat)
    (hloaded : h.Loaded) (hfile : h.offset + h.filesz ≤ content.length)
    (hsizes : h.filesz ≤ h.memsz) :
    fill (copy memory (h.vaddr - minVaddr) ((content.drop h.offset).take (min 1024 h.filesz)))
        (h.vaddr - minVaddr + min 1024 h.filesz) (h.memsz - min 1024 h.filesz) 0 =
      h.place content minVaddr memory := by
  have hlen := length_take_drop (by omega : h.offset + min 1024 h.filesz ≤ content.length)
  funext x
  rw [fill_apply, copy, Phdr.place]
  by_cases hx : h.Covers minVaddr x
  · rw [if_pos (⟨hloaded, hx⟩ : h.Loaded ∧ _), Phdr.loadedByte]
    obtain ⟨hlo, hhi⟩ := hx
    by_cases hread : x - (h.vaddr - minVaddr) < min 1024 h.filesz
    · rw [if_neg (by omega), if_pos (by omega), if_pos hread, getD_eq_getElem?_getD,
        getElem?_take_of_lt hread, getElem?_drop, ← getD_eq_getElem?_getD]
    · rw [if_pos (by omega), if_neg hread]
  · have hout : x < h.vaddr - minVaddr ∨ h.vaddr - minVaddr + h.memsz ≤ x := by
      by_contra hin
      exact hx ⟨by omega, by omega⟩
    rw [if_neg (by omega), if_neg (by omega), if_neg fun hcov => hx hcov.2]

/-- The span fits into the memory that is allocated. -/
structure Fits (span : Span) : Prop where
  high : span.maxVaddr < 2 ^ 32
  total : span.maxVaddr - span.minVaddr ≤ 256 * 1024

theorem Scanned.end_le {h : Phdr} (hs : Scanned content span h) (hfits : Fits span)
    (hsize : content.length < 2 ^ 31) : h.offset + h.filesz ≤ content.length := by
  obtain ⟨hlow, hend, hfile, hsizes⟩ := hs
  obtain ⟨hhigh, htotal⟩ := hfits
  have hoff := not_lt.mp fun hlt => hfile (.inl hlt)
  have hmod := not_lt.mp fun hlt => hfile (.inr hlt)
  rwa [Nat.mod_eq_of_lt (by omega)] at hmod

theorem Checked.loadSegment_some (h : Checked content ehdr) (hfits : Fits span)
    {i : Nat} (hi : i < ehdr.phnum)
    (hscanned : (phdrAt content ehdr i).Loaded → Scanned content span (phdrAt content ehdr i))
    {totalMemsz : Nat} {memory memory' : Mem}
    (hload : loadSegment (fileAccess content) ehdr content.length span.minVaddr
      totalMemsz memory i =
      some memory') :
    memory' = (phdrAt content ehdr i).place content span.minVaddr memory := by
  rw [loadSegment, h.readPhdr_eq hi, bind_eq_bind, bind_some] at hload
  generalize phdrAt content ehdr i = phdr at hload hscanned
  by_cases hl : phdr.Loaded
  · have hend := (hscanned hl).end_le hfits h.size
    obtain ⟨hlow, hhigh, -, hsizes⟩ := hscanned hl
    have hmax := hfits.high
    have hsize := h.size
    have hbase : (phdr.vaddr + (2 ^ 32 - span.minVaddr)) % 2 ^ 32 = phdr.vaddr - span.minVaddr := by
      omega
    have hread : (fileAccess content).readAt (wrap phdr.offset) (wrap phdr.filesz) =
        some (((min 1024 phdr.filesz : Nat) : Int),
          (content.drop phdr.offset).take (min 1024 phdr.filesz)) := by
      have hlen := length_take_drop (by omega : phdr.offset + min 1024 phdr.filesz ≤ content.length)
      simp only [fileAccess]
      rw [wrap_of_lt (by omega), wrap_of_lt (by omega), if_neg (by omega), cappedRead_eq, hlen]
    rw [if_pos hl] at hload
    obtain ⟨-, hload⟩ := check_some hload
    obtain ⟨-, hload⟩ := check_some hload
    obtain ⟨-, hload⟩ := check_some hload
    obtain ⟨-, hload⟩ := check_some hload
    rw [hread, bind_eq_bind] at hload
    obtain rfl := some.inj hload
    rw [hbase]
    exact fill_copy content memory span.minVaddr hl hend hsizes
  · rw [if_neg hl] at hload
    obtain rfl := some.inj hload
    funext x
    exact (if_neg fun hcov => hl hcov.1).symm

/-- The second pass puts one segment after the other into memory. -/
theorem Checked.load_some (h : Checked content ehdr) (hfits : Fits span)
    {l : List Nat} (hl : ∀ i ∈ l, i < ehdr.phnum)
    (hscanned : ∀ i ∈ l, (phdrAt content ehdr i).Loaded →
      Scanned content span (phdrAt content ehdr i))
    {totalMemsz : Nat} {memory memory' : Mem}
    (hload : l.foldlM (loadSegment (fileAccess content) ehdr content.length span.minVaddr
      totalMemsz) memory = some memory') :
    memory' = (l.map (phdrAt content ehdr)).foldl (Phdr.place content span.minVaddr) memory := by
  induction l generalizing memory with
  | nil => exact (some.inj hload).symm
  | cons i l ih =>
    rw [foldlM_cons, bind_eq_bind, bind_eq_some_iff] at hload
    obtain ⟨mid, hfirst, hrest⟩ := hload
    obtain rfl := h.loadSegment_some hfits (hl i (by simp)) (hscanned i (by simp)) hfirst
    exact ih (fun j hj => hl j (by simp [hj])) (fun j hj => hscanned j (by simp [hj])) hrest

/-! ## The image -/

/-- Two segments have no address in common. -/
def Apart (g h : Phdr) : Prop :=
  g.Loaded → h.Loaded → g.vaddr + g.memsz ≤ h.vaddr ∨ h.vaddr + h.memsz ≤ g.vaddr

theorem foldl_place_of_not {minVaddr x : Nat} {hs : List Phdr}
    (hout : ∀ h ∈ hs, h.Loaded → ¬h.Covers minVaddr x) (memory : Mem) :
    hs.foldl (Phdr.place content minVaddr) memory x = memory x := by
  induction hs generalizing memory with
  | nil => rfl
  | cons h hs ih =>
    rw [foldl_cons, ih fun g hg => hout g (by simp [hg])]
    exact if_neg fun hcov => hout h (by simp) hcov.1 hcov.2

/-- A segment that is apart from the others is in memory as it was loaded. -/
theorem foldl_place (content : List UInt8) {minVaddr x : Nat} {hs : List Phdr}
    (hapart : hs.Pairwise Apart)
    (hlow : ∀ h ∈ hs, h.Loaded → minVaddr ≤ h.vaddr) {h : Phdr} (hmem : h ∈ hs) (hl : h.Loaded)
    (hx : h.Covers minVaddr x) (memory : Mem) :
    hs.foldl (Phdr.place content minVaddr) memory x =
      h.loadedByte content (x - (h.vaddr - minVaddr)) := by
  induction hs generalizing memory with
  | nil => cases hmem
  | cons g hs ih =>
    rw [pairwise_cons] at hapart
    rw [foldl_cons]
    rcases mem_cons.mp hmem with rfl | hmem
    · rw [foldl_place_of_not]
      · exact if_pos ⟨hl, hx⟩
      · intro g hg hgl hcov
        have hdisjoint := hapart.1 g hg hl hgl
        have hlow₁ := hlow h (by simp) hl
        have hlow₂ := hlow g (by simp [hg]) hgl
        obtain ⟨h₁, h₂⟩ := hx
        obtain ⟨h₃, h₄⟩ := hcov
        omega
    · exact ih hapart.2 (fun h' hh' => hlow h' (by simp [hh'])) hmem _

/-- The program headers of a file. -/
def headers (content : List UInt8) : List Phdr :=
  let ehdr := parseEhdr (content.take 52)
  (List.range ehdr.phnum).map (phdrAt content ehdr)

/-- The image that the segments make. -/
def imageOf (content : List UInt8) (span : Span) : Image where
  memory := (headers content).foldl (Phdr.place content span.minVaddr) fun _ => 0
  size := span.maxVaddr - span.minVaddr
  minVaddr := span.minVaddr

/-- The image has a place for all of the segment, with the bytes of the file and zeros behind
them. -/
structure Faithful (content : List UInt8) (img : Image) (h : Phdr) : Prop where
  sizes : h.filesz ≤ h.memsz
  inside : ∀ k < h.memsz, img.minVaddr ≤ h.vaddr ∧ h.vaddr - img.minVaddr + k < img.size
  bytes : ∀ k < h.filesz, content[h.offset + k]? = some (img.memory (h.vaddr - img.minVaddr + k))
  zeros : ∀ k, h.filesz ≤ k → k < h.memsz → img.memory (h.vaddr - img.minVaddr + k) = 0

/-- What a file is like that is loaded as it is. -/
structure Loadable (content : List UInt8) (h : Phdr) : Prop where
  sizes : h.filesz ≤ h.memsz
  rest : ∀ k, 1024 ≤ k → k < h.filesz → content[h.offset + k]? = some 0

theorem loadImage_some (hsize : content.length < 2 ^ 31) {img : Image}
    (h : loadImage (fileAccess content) = some img) :
    ∃ span : Span, Fits span ∧ (∀ g ∈ headers content, g.Loaded → Scanned content span g) ∧
      img = imageOf content span := by
  simp only [loadImage, bind_eq_bind, bind_eq_some_iff] at h
  obtain ⟨ehdr, hehdr, fsize, hfsize, span, hscan, h⟩ := h
  obtain ⟨hchecked, rfl⟩ := Checked.of_some hsize hehdr hfsize
  obtain ⟨hload, h⟩ := check_some h
  obtain ⟨htotal, h⟩ := check_some h
  rw [bind_eq_some_iff] at h
  obtain ⟨memory, hmemory, h⟩ := h
  have hrange : ∀ i ∈ range ehdr.phnum, i < ehdr.phnum := fun i hi => mem_range.mp hi
  obtain ⟨hgrows, hscanned⟩ := hchecked.scan_some hrange hscan
  obtain ⟨hlow, hhigh, hnonempty⟩ := hgrows.ok ⟨by decide, by decide, by simp⟩
  have hle := hnonempty (by simpa using hload)
  have htotal' : (span.maxVaddr + (2 ^ 32 - span.minVaddr)) % 2 ^ 32 =
      span.maxVaddr - span.minVaddr := by omega
  rw [htotal'] at htotal hmemory h
  have hfits : Fits span := ⟨hhigh, not_lt.mp htotal⟩
  have hplaced := hchecked.load_some hfits hrange hscanned hmemory
  split_ifs at h
  · obtain rfl := some.inj h
    have hheaders : headers content = (range ehdr.phnum).map (phdrAt content ehdr) := by
      rw [headers, ← (readEhdr_some hehdr).1]
    refine ⟨span, hfits, ?_, ?_⟩
    · rw [hheaders]
      exact forall_mem_map.mpr hscanned
    · rw [imageOf, hheaders, hplaced]
  · cases h

theorem faithful_iff (hfits : Fits span)
    (hscanned : ∀ g ∈ headers content, g.Loaded → Scanned content span g)
    (hapart : (headers content).Pairwise Apart) {h : Phdr} (hmem : h ∈ headers content)
    (hsize : content.length < 2 ^ 31) (htype : h.type = ptLoad) :
    Faithful content (imageOf content span) h ↔ Loadable content h := by
  rcases Nat.eq_zero_or_pos h.memsz with hempty | hpos
  · -- a segment without memory has nothing in the file either
    constructor
    · intro hf
      have hfile := hf.sizes
      exact ⟨hfile, fun k _ hk => by omega⟩
    · intro hl
      have hfile := hl.sizes
      exact ⟨hfile, fun k hk => by omega, fun k hk => by omega, fun k _ hk => by omega⟩
  · have hl : h.Loaded := ⟨htype, hpos⟩
    obtain ⟨hlow, hhigh, -, hsizes⟩ := hscanned h hmem hl
    have hmin : (imageOf content span).minVaddr = span.minVaddr := rfl
    have htop : (imageOf content span).size = span.maxVaddr - span.minVaddr := rfl
    have hend := (hscanned h hmem hl).end_le hfits hsize
    have hbyte : ∀ k < h.memsz, (imageOf content span).memory
        (h.vaddr - (imageOf content span).minVaddr + k) = h.loadedByte content k := by
      intro k hk
      have hcovers : h.Covers span.minVaddr (h.vaddr - span.minVaddr + k) :=
        ⟨Nat.le_add_right _ _, by omega⟩
      have hplaced := foldl_place content hapart
        (fun g hg hgl => (hscanned g hg hgl).low) hmem hl hcovers fun _ => 0
      rwa [Nat.add_sub_cancel_left] at hplaced
    constructor
    · intro hf
      refine ⟨hsizes, fun k hk hkf => ?_⟩
      have hsame := hf.bytes k hkf
      rw [hbyte k (by omega), Phdr.loadedByte, if_neg (by omega)] at hsame
      exact hsame
    · intro hrest
      refine ⟨hsizes, fun k hk => ⟨by omega, by omega⟩, fun k hk => ?_, fun k hkf hk => ?_⟩
      · rw [hbyte k (by omega), Phdr.loadedByte]
        split_ifs
        · rw [getD_eq_getElem?_getD, getElem?_eq_getElem (by omega)]
          rfl
        · exact hrest.rest k (by omega) hk
      · rw [hbyte k hk, Phdr.loadedByte, if_neg (by omega)]

theorem opened_of_open {filepath : List Char} {flags : Int} (hworld : s.world = content)
    (hopen : ¬(s.managerOpen fileNode filepath flags).1 < 0) :
    Opened content (s.managerOpen fileNode filepath flags).1
      (s.managerOpen fileNode filepath flags).2 := by
  rw [managerOpen_eq, handleOpen_eq] at hopen ⊢
  by_cases hlen : (copyPath filepath).length > 63
  · simp [hlen] at hopen
  · rw [if_neg hlen] at hopen ⊢
    cases hresolve : s.resolve (copyPath filepath) with
    | none => simp [hresolve] at hopen
    | some found =>
      simp only [hresolve] at hopen ⊢
      unfold openAt at hopen ⊢
      cases hfd : (range maxOpenFiles).find? fun fd => !(s.server.fdTable fd).used with
      | none => simp [hfd] at hopen
      | some fd =>
        have hrange : fd < maxOpenFiles := mem_range.mp (mem_of_find?_eq_some hfd)
        exact ⟨hworld, _, openFd_eq_some.mpr ⟨fd, hrange, rfl, Function.update_self .., rfl⟩⟩

/-- **The image is the one that the file describes exactly if no segment has a byte other than zero
after its first 1024, and none is longer in the file than in memory.** -/
theorem image_faithful_iff (hsize : content.length < 2 ^ 31) (hworld : s.world = content)
    {filepath : List Char} {img : Image} {s' : VfsState (List UInt8)}
    (hload : loadAndExec fileNode filepath s = some (img, s'))
    (hapart : (headers content).Pairwise Apart) :
    (∀ h ∈ headers content, h.type = ptLoad → Faithful content img h) ↔
      ∀ h ∈ headers content, h.type = ptLoad → Loadable content h := by
  unfold loadAndExec at hload
  dsimp only at hload
  split_ifs at hload with hopen
  have hopened := opened_of_open hworld hopen
  obtain ⟨himage, -⟩ := simulates_loadImage _ hsize _ hopened img s' hload
  obtain ⟨span, hfits, hscanned, rfl⟩ := loadImage_some hsize himage
  exact forall₃_congr fun h hmem htype => faithful_iff hfits hscanned hapart hmem hsize htype

/-- **The segments stay inside the image**, whatever the file holds. Before relocation, a loaded
segment is a part of the file and of the image, which has 256 KiB at most, and nothing is written
beside the segments. -/
theorem image_confined (hsize : content.length < 2 ^ 31) (hworld : s.world = content)
    {filepath : List Char} {r : Image × VfsState (List UInt8)}
    (hload : loadAndExec fileNode filepath s = some r) :
    r.1.size ≤ 256 * 1024 ∧
      (∀ h ∈ headers content, h.Loaded → h.offset + h.filesz ≤ content.length ∧
        ∀ x, h.Covers r.1.minVaddr x → x < r.1.size) ∧
      ∀ x, (∀ h ∈ headers content, h.Loaded → ¬h.Covers r.1.minVaddr x) → r.1.memory x = 0 := by
  unfold loadAndExec at hload
  dsimp only at hload
  split_ifs at hload with hopen
  obtain ⟨himage, -⟩ := simulates_loadImage _ hsize _ (opened_of_open hworld hopen) r.1 r.2 hload
  obtain ⟨span, hfits, hscanned, himg⟩ := loadImage_some hsize himage
  rw [himg]
  refine ⟨hfits.total, fun h hmem hl => ?_, fun x hout => foldl_place_of_not hout _⟩
  have hs := hscanned h hmem hl
  refine ⟨hs.end_le hfits hsize, fun x hx => ?_⟩
  have hlow := hs.low
  have hhigh := hs.high
  have hend := hx.2
  dsimp only [imageOf] at hend ⊢
  omega

/-! ## Two files -/

/-- A program of one segment at address 4096, with 4 bytes in memory behind those of the file. -/
def oneSegment (payload : List UInt8) : List UInt8 :=
  elfMag ++ List.replicate 14 0 ++ bytesOf 2 emArm ++ bytesOf 4 1 ++ bytesOf 4 4096 ++
    bytesOf 4 52 ++ List.replicate 10 0 ++ bytesOf 2 32 ++ bytesOf 2 1 ++ List.replicate 6 0 ++
    (bytesOf 4 ptLoad ++ bytesOf 4 84 ++ bytesOf 4 4096 ++ bytesOf 4 4096 ++
      bytesOf 4 payload.length ++ bytesOf 4 (payload.length + 4) ++ bytesOf 4 5 ++ bytesOf 4 4) ++
    payload

/-- The file, mounted at `/`. -/
def mounted (content : List UInt8) : VfsState (List UInt8) where
  server := ⟨[(['/'], 1)], fun _ => ⟨0, 0, false, 0⟩⟩
  world := content
  calls := []

theorem image_faithful_short : ∃ img s',
    loadAndExec fileNode ['/'] (mounted (oneSegment [0xDE, 0xAD])) = some (img, s') ∧
      ∀ h ∈ headers (oneSegment [0xDE, 0xAD]), h.type = ptLoad →
        Faithful (oneSegment [0xDE, 0xAD]) img h := by
  obtain ⟨⟨img, s'⟩, hload⟩ := isSome_iff_exists.mp (by decide +kernel :
    (loadAndExec fileNode ['/'] (mounted (oneSegment [0xDE, 0xAD]))).isSome = true)
  have hone : headers (oneSegment [0xDE, 0xAD]) = [⟨ptLoad, 84, 4096, 2, 6, 5⟩] := by decide +kernel
  have hworld : (mounted (oneSegment [0xDE, 0xAD])).world = oneSegment [0xDE, 0xAD] := rfl
  have hapart : (headers (oneSegment [0xDE, 0xAD])).Pairwise Apart := by
    exact pairwise_singleton _ _
  refine ⟨img, s', hload, (image_faithful_iff (by decide +kernel) hworld hload hapart).mpr ?_⟩
  rw [hone]
  intro h hh _
  obtain rfl := mem_singleton.mp hh
  exact ⟨by decide, fun k hk hlt => by dsimp only at hlt; omega⟩

theorem image_confined_short : ∃ r ∈ loadAndExec fileNode ['/'] (mounted (oneSegment [0xDE])),
    r.1.size ≤ 256 * 1024 := by
  obtain ⟨r, hload⟩ := isSome_iff_exists.mp (by decide +kernel :
    (loadAndExec fileNode ['/'] (mounted (oneSegment [0xDE]))).isSome = true)
  exact ⟨r, hload, (image_confined (by decide +kernel) rfl hload).1⟩

/-- A segment of 1025 bytes loses the last one. -/
theorem long_segment_cut :
    (loadAndExec fileNode ['/'] (mounted (oneSegment (List.replicate 1025 0x5A)))).map
        (fun r => (r.1.memory 1023, r.1.memory 1024)) = some (0x5A, 0) ∧
      (oneSegment (List.replicate 1025 0x5A))[84 + 1024]? = some 0x5A ∧
      (headers (oneSegment (List.replicate 1025 0x5A))).map
        (fun h => (h.type, h.offset, h.vaddr, h.filesz)) = [(ptLoad, 84, 4096, 1025)] := by
  decide +kernel

end AuroraOS.Elf
