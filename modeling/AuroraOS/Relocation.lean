import Mathlib.Tactic

/-!
# Relocated calls

`R_ARM_THM_CALL` in `load_and_exec`: the offset of a Thumb `BL` pair is read, moved and written
back. The loader does not ask whether the new offset fits: `relocateCall_iff`.
-/

namespace AuroraOS.Relocation

open BitVec

/-- The 25 bits of the offset, which a `BL` pair has in five fields. -/
def callBits (hw1 hw2 : BitVec 16) : BitVec 32 :=
  let sBit := hw1.setWidth 32 >>> 10 &&& 1
  let j1 := hw2.setWidth 32 >>> 13 &&& 1
  let j2 := hw2.setWidth 32 >>> 11 &&& 1
  let i1 := ~~~(j1 ^^^ sBit) &&& 1
  let i2 := ~~~(j2 ^^^ sBit) &&& 1
  sBit <<< 24 ||| i1 <<< 23 ||| i2 <<< 22 ||| (hw1.setWidth 32 &&& 0x3FF) <<< 12 |||
    (hw2.setWidth 32 &&& 0x7FF) <<< 1

/-- The addend of a `BL` pair. -/
def decodeCall (hw1 hw2 : BitVec 16) : BitVec 32 :=
  let a := callBits hw1 hw2
  if a &&& 0x01000000 = 0 then a else a ||| 0xFE000000

/-- The new pair at the place `p`, for a symbol at `s`. -/
def relocateCall (hw1 hw2 : BitVec 16) (s p : BitVec 32) : BitVec 16 × BitVec 16 :=
  let result := s + decodeCall hw1 hw2 - p
  let newS := result.sshiftRight 24 &&& 1
  let newI1 := result.sshiftRight 23 &&& 1
  let newI2 := result.sshiftRight 22 &&& 1
  let newJ1 := ~~~(newI1 ^^^ newS) &&& 1
  let newJ2 := ~~~(newI2 ^^^ newS) &&& 1
  ((hw1.setWidth 32 &&& 0xF800 ||| newS <<< 10 ||| result.sshiftRight 12 &&& 0x3FF).setWidth 16,
    (hw2.setWidth 32 &&& 0xD000 ||| newJ1 <<< 13 ||| newJ2 <<< 11 |||
      result.sshiftRight 1 &&& 0x7FF).setWidth 16)

variable (hw1 hw2 : BitVec 16) (s p : BitVec 32)

/-- The offset that the new pair should have. -/
def offset : BitVec 32 := (s + decodeCall hw1 hw2 - p) &&& ~~~1

theorem callBits_relocateCall : callBits (relocateCall hw1 hw2 s p).1 (relocateCall hw1 hw2 s p).2 =
    offset hw1 hw2 s p &&& 0x01FFFFFF := by
  unfold relocateCall offset
  generalize s + decodeCall hw1 hw2 - p = result
  apply eq_of_getLsbD_eq
  intro i hi
  -- `simp` is fast when the bit is inside already
  simp only [callBits, getLsbD_or, getLsbD_and, getLsbD_xor, getLsbD_not,
    getLsbD_shiftLeft, getLsbD_ushiftRight, getLsbD_sshiftRight, getLsbD_setWidth]
  interval_cases i <;> simp

/-- The new pair has the low 25 bits of the offset, and their sign. -/
theorem decodeCall_relocateCall :
    decodeCall (relocateCall hw1 hw2 s p).1 (relocateCall hw1 hw2 s p).2 =
      ((offset hw1 hw2 s p).setWidth 25).signExtend 32 := by
  rw [decodeCall, callBits_relocateCall]
  generalize offset hw1 hw2 s p = r
  have hsign : r &&& 0x01FFFFFF &&& 0x01000000 = if r.getLsbD 24 then 0x01000000 else 0 := by
    rw [BitVec.and_assoc]
    exact and_twoPow r 24
  rw [hsign]
  cases h : r.getLsbD 24 <;> ext i hi <;> interval_cases i <;>
    simp_all [getElem_signExtend, msb_eq_getLsbD_last]

theorem signExtend_setWidth_eq_iff (x : BitVec 32) :
    (x.setWidth 25).signExtend 32 = x ↔ -2 ^ 24 ≤ x.toInt ∧ x.toInt < 2 ^ 24 := by
  have hx := x.isLt
  rw [← toInt_inj, toInt_signExtend_of_le (by decide), toInt_setWidth,
    toInt_eq_toNat_cond, Int.bmod_def]
  split_ifs <;> omega

/-- The other bits of the pair stay, and it has the offset exactly if that has 25 bits. -/
theorem relocateCall_iff :
    let new := relocateCall hw1 hw2 s p
    (decodeCall new.1 new.2 = offset hw1 hw2 s p ∧ new.1 &&& 0xF800 = hw1 &&& 0xF800 ∧
        new.2 &&& 0xD000 = hw2 &&& 0xD000) ↔
      -2 ^ 24 ≤ (offset hw1 hw2 s p).toInt ∧ (offset hw1 hw2 s p).toInt < 2 ^ 24 := by
  have hkept : (relocateCall hw1 hw2 s p).1 &&& 0xF800 = hw1 &&& 0xF800 ∧
      (relocateCall hw1 hw2 s p).2 &&& 0xD000 = hw2 &&& 0xD000 := by
    unfold relocateCall
    constructor <;> ext i hi <;> interval_cases i <;> simp
  intro new
  rw [← signExtend_setWidth_eq_iff, ← decodeCall_relocateCall, and_iff_left hkept]

/-- A call with the addend -4 from code in RAM to flash. -/
theorem ram_call_truncated : decodeCall 0xF7FF 0xFFFE = -4 ∧
    let new := relocateCall 0xF7FF 0xFFFE 0x08000000 0x20000000
    decodeCall new.1 new.2 ≠ offset 0xF7FF 0xFFFE 0x08000000 0x20000000 := by
  decide

end AuroraOS.Relocation
