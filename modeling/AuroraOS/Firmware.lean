import AuroraOS.Lib.Crash

/-!
# Firmware partitions, the updater and the bootloader

The flash as the words behind the flash controller, `OtaManager::unpack_from_vfs` of
`kernel/core/ota.cpp`, which stages an image in partition B, and `kernel_main` of
`bootloader/boot_main.cpp`, which copies a staged image to partition A and boots partition A.
`ed25519_verify` is a parameter. The messages on the serial line are left out.
-/

namespace AuroraOS.Firmware

open Crash

/-! ## Flash -/

abbrev Word := BitVec 32

abbrev Byte := BitVec 8

/-- The word at address `4 * i` is number `i`. -/
abbrev Flash := Nat → Word

/-- A word of an erased page. -/
def erased : Word := BitVec.allOnes 32

/-- The operations of the flash controller. -/
inductive FlashOp
  | erasePage (address : Nat)
  | writeWord (address : Nat) (data : Word)
  deriving DecidableEq

namespace FlashOp

/-- The words that an operation works on. -/
def Touches : FlashOp → Nat → Prop
  | erasePage address, w => w / 256 = address / 1024
  | writeWord address _, w => w = address / 4

instance (o : FlashOp) (w : Nat) : Decidable (o.Touches w) := by
  cases o <;> unfold Touches <;> infer_instance

/-- What it makes of a word: programming clears bits. -/
def value : FlashOp → Word → Word
  | erasePage _, _ => erased
  | writeWord _ data, old => old &&& data

def apply (o : FlashOp) (f : Flash) : Flash := fun w => if o.Touches w then o.value (f w) else f w

/-- An operation that was broken off: a part of the words is done. -/
def Torn (o : FlashOp) (f f' : Flash) : Prop := ∀ w, f' w = f w ∨ o.Touches w ∧ f' w = o.value (f w)

end FlashOp

abbrev FlashProg := Prog FlashOp Flash

def erasePage (address : Nat) : FlashProg Bool := .try_ (.erasePage address)

def writeWord (address : Nat) (data : Word) : FlashProg Bool := .try_ (.writeWord address data)

/-! ## Partitions -/

structure PartitionEntry where
  offset : Nat
  size : Nat
  deriving DecidableEq

/-- `PT_MAGIC` -/
def ptMagic : Word := 0x50415254

/-- `PT_PART_A` -/
def ptPartA : PartitionEntry := ⟨0x8000, 0x18000⟩

/-- `PT_PART_B` -/
def ptPartB : PartitionEntry := ⟨0x20000, 0x18000⟩

/-- An entry of the `PartitionTable` at `0x7000`: the magic and four pairs of offset and size. -/
def partitionEntry (f : Flash) (i : Nat) : PartitionEntry :=
  ⟨(f (0x7000 / 4 + 1 + 2 * i)).toNat, (f (0x7000 / 4 + 2 + 2 * i)).toNat⟩

/-- `pt->part_a`, or the default if there is no partition table. -/
def partA (f : Flash) : PartitionEntry :=
  if f (0x7000 / 4) = ptMagic then partitionEntry f 1 else ptPartA

/-- `pt->part_b`, or the default if there is no partition table. -/
def partB (f : Flash) : PartitionEntry :=
  if f (0x7000 / 4) = ptMagic then partitionEntry f 2 else ptPartB

/-! ## Images -/

/-- A `FirmwareHeader`, by its 32 words. -/
abbrev FirmwareHeader := Nat → Word

/-- `FIRMWARE_MAGIC` -/
def firmwareMagic : Word := 0x41555241

/-- `FirmwareStatus::UPDATE_PENDING` -/
def updatePending : Word := 0x55AA55AA

/-- `FirmwareStatus::VALID` -/
def statusValid : Word := 0x12345678

/-- Byte `i` of a word in memory. -/
def byte (w : Word) (i : Nat) : Byte := w.extractLsb' (8 * i) 8

namespace FirmwareHeader

def magic (h : FirmwareHeader) : Word := h 0

def imageSize (h : FirmwareHeader) : Nat := (h 2).toNat

def status (h : FirmwareHeader) : Word := h 3

/-- The 64 bytes from offset 16 on. -/
def signature (h : FirmwareHeader) : List Byte :=
  (List.range 64).map fun i => byte (h (4 + i / 4)) (i % 4)

end FirmwareHeader

/-- The header at a word-aligned address. -/
def headerAt (f : Flash) (offset : Nat) : FirmwareHeader := fun i => f (offset / 4 + i)

/-- The `n` bytes after the header at a word-aligned address. -/
def payload (f : Flash) (offset n : Nat) : List Byte :=
  (List.range n).map fun i => byte (f (offset / 4 + 32 + i / 4)) (i % 4)

/-- `ed25519_verify` of a signature, a message and a key. -/
abbrev Ed25519 := List Byte → List Byte → List Byte → Bool

/-- `ROOT_PUBLIC_KEY` -/
def rootPublicKey : List Byte := List.replicate 32 0xAA

/-- `part_size - 128` -/
def maxImageSize (partSize : Nat) : Nat := (partSize + 2 ^ 32 - 128) % 2 ^ 32

variable (ed : Ed25519)

def verifyFirmware (f : Flash) (offset partSize : Nat) : Bool :=
  let header := headerAt f offset
  if header.magic ≠ firmwareMagic then false
  else if header.imageSize = 0 ∨ maxImageSize partSize < header.imageSize then false
  else ed header.signature (payload f offset header.imageSize) rootPublicKey

/-- Erases the pages of a partition, up to the first failure. -/
def erasePartition (start size : Nat) : FlashProg Bool :=
  .loop (fun i => erasePage (start + 1024 * i)) 0 ((size + 1023) / 1024)

/-! ## The bootloader -/

/-- How `kernel_main` ends: it jumps to the application, it stops at the sanity check, or it stops
without an application. -/
inductive BootResult
  | handOver (sp pc : Word)
  | sanityFailed
  | fallback
  deriving DecidableEq

/-- The body of B, as the header of B gives its size, to A. -/
def copyBody (a b : Nat) : FlashProg Bool := do
  let f ← .read
  let imageSize := (headerAt f b).imageSize
  let words := if imageSize % 4 ≠ 0 then imageSize / 4 + 1 else imageSize / 4
  .loop (fun i => do
    let f ← .read
    writeWord (a + 128 + 4 * i) (f (b / 4 + 32 + i))) 0 words

/-- The header of B to A, with the status `VALID`. -/
def copyHeader (a b : Nat) : FlashProg Bool :=
  .loop (fun i => do
    let f ← .read
    writeWord (a + 4 * i) (if i = 3 then statusValid else headerAt f b i)) 0 (128 / 4)

/-- The copy of B to A; whether all of it succeeded. -/
def swap (a b partSize : Nat) : FlashProg Bool := do
  let f ← .read
  let imageSize := (headerAt f b).imageSize
  if imageSize = 0 ∨ maxImageSize partSize < imageSize then
    pure false
  else if ← erasePartition a partSize then
    if ← copyBody a b then
      copyHeader a b
    else
      pure false
  else
    pure false

/-- What the words at the start of the vector table lead to. -/
def bootResult (f : Flash) (a : Nat) : BootResult :=
  let sp := f (a / 4 + 32)
  let pc := f (a / 4 + 33)
  if sp &&& 0xF0000000 ≠ 0x20000000 ∨ pc &&& 1 = 0 then .sanityFailed else .handOver sp pc

def kernelMain : FlashProg BootResult := do
  let f ← .read
  let a := (partA f).offset
  let b := (partB f).offset
  let partSize := (partA f).size
  let aValid := verifyFirmware ed f a partSize
  let bValid := verifyFirmware ed f b partSize
  if bValid = true ∧ (aValid = false ∨ (headerAt f b).status = updatePending) then
    let _ ← swap a b partSize
    let f ← .read
    if verifyFirmware ed f a partSize then
      let _ ← erasePage b
      let f ← .read
      pure (bootResult f a)
    else
      pure .fallback
  else if aValid then
    pure (bootResult f a)
  else
    pure .fallback

/-! ## The updater -/

/-- Word `i` of a buffer that is filled up with zeros. -/
def wordOf (buf : List Byte) (i : Nat) : Word :=
  buf.getD (4 * i + 3) 0 ++ buf.getD (4 * i + 2) 0 ++ buf.getD (4 * i + 1) 0 ++ buf.getD (4 * i) 0

def writeWords (offset : Nat) (buf : List Byte) : FlashProg Bool :=
  .loop (fun i => writeWord (offset + 4 * i) (wordOf buf i)) 0 ((buf.length + 3) / 4)

/-- A write of the body has failed, or so many bytes remain when it ends. -/
inductive BodyResult
  | writeFailed
  | left (remaining : Nat)

/-- The loop over the body. The reads of the file give the elements of `reads`, cut to the length
asked for; no element, or an empty one, is the end of the file or an error. -/
def writeBody : List (List Byte) → Nat → Nat → FlashProg BodyResult
  | [], remaining, _ => pure (.left remaining)
  | data :: reads, remaining, offset =>
    let buf := data.take (min remaining 256)
    if buf = [] then
      pure (.left remaining)
    else do
      if ← writeWords offset buf then
        -- the offset advances by the words written
        writeBody reads (remaining - buf.length) (offset + 4 * ((buf.length + 3) / 4))
      else
        pure .writeFailed

/-- How `unpack_from_vfs` ends: it returns `false`, or it resets the board. -/
inductive UnpackResult
  | failed
  | reboot
  deriving DecidableEq

/-- Clears what has been staged. -/
def discard (b : PartitionEntry) : FlashProg UnpackResult := do
  let _ ← erasePartition b.offset b.size
  pure .failed

/-- The header, with the status `UPDATE_PENDING`; the results of the writes are not looked at. -/
def writeHeader (b : PartitionEntry) (header : FirmwareHeader) : FlashProg Bool :=
  .loop (fun i => do
    let _ ← writeWord (b.offset + 4 * i) (if i = 3 then updatePending else header i)
    pure true) 0 (128 / 4)

/-- `unpack_from_vfs` after its first read, which has filled `buf`. -/
def unpackImage (buf : List Byte) (reads : List (List Byte)) : FlashProg UnpackResult := do
  let f ← .read
  let b := partB f
  let header : FirmwareHeader := wordOf buf
  if buf.length ≠ 128 ∨ header.magic ≠ firmwareMagic then
    pure .failed
  else if header.imageSize = 0 ∨ maxImageSize b.size < header.imageSize then
    pure .failed
  else if ← erasePartition b.offset b.size then
    match ← writeBody reads header.imageSize (b.offset + 128) with
    | .writeFailed => discard b
    | .left (_ + 1) => discard b
    | .left 0 => do
      let f ← .read
      if ed header.signature (payload f b.offset header.imageSize) rootPublicKey then
        let _ ← writeHeader b header
        pure .reboot
      else
        discard b
  else
    pure .failed

/-- The file is what its reads give, or `none` if it cannot be opened. -/
def unpackFromVfs : Option (List (List Byte)) → FlashProg UnpackResult
  | none => pure .failed
  | some [] => unpackImage ed [] []
  | some (data :: reads) => unpackImage ed (data.take 128) reads

end AuroraOS.Firmware
