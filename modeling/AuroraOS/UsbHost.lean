import Mathlib.Data.UInt
import Mathlib.Tactic

/-!
# The USB host

`enumerate_device` reads the configuration, selects it and goes through its descriptors. The
selection takes the variable that holds the number of bytes received, so that no descriptor is gone
through: `endpoints_iff`.

`bulk_in` asks for packets until one is short. It sees the sum of what one call of `hal_bulk_xfer_`
has read and not its last packet: `bulkIn_iff`.
-/

namespace AuroraOS.UsbHost

open List

structure UsbEndpoint where
  address : UInt8
  number : UInt8
  isIn : Bool
  type : UInt8
  maxPacket : UInt16
  interval : UInt8
  active : Bool
  toggle : UInt8

structure UsbDevice where
  /-- `endpoints`, up to `endpoint_count` -/
  endpoints : List UsbEndpoint := []
  configRaw : Nat → UInt8 := 0
  configLen : Nat := 0
  configValue : UInt8 := 0
  bulkInEp : UInt8 := 0
  bulkOutEp : UInt8 := 0
  bulkMaxPkt : UInt16 := 64
  enumerated : Bool := false

/-! ## Endpoints -/

/-- The data phase of `hal_control_xfer_` with direction IN: the bytes of the packets that come. -/
def dataIn (reqLen : Nat) : List (List UInt8) → List UInt8
  | [] => []
  | packet :: packets =>
    if reqLen = 0 then []
    else if packet.length < 64 then packet.take reqLen
    else packet.take reqLen ++ dataIn (reqLen - packet.length) packets

/-- `hal_control_xfer_`: the bytes for `data`, and `*len`. -/
def halControlXfer (hasData isIn : Bool) (packets : List (List UInt8)) (len : Nat) :
    List UInt8 × Nat :=
  if hasData ∧ isIn then (dataIn len packets, (dataIn len packets).length) else ([], len)

def word (raw : Nat → UInt8) (pos : Nat) : UInt16 :=
  (raw pos).toUInt16 ||| (raw (pos + 1)).toUInt16 <<< 8

def endpointAt (raw : Nat → UInt8) (pos : Nat) : UsbEndpoint where
  address := raw (pos + 2)
  number := raw (pos + 2) &&& 0x0F
  isIn := raw (pos + 2) &&& 0x80 ≠ 0
  type := raw (pos + 3) &&& 3
  maxPacket := word raw (pos + 4) &&& 0x7FF
  interval := raw (pos + 6)
  active := true
  toggle := 0

def UsbDevice.record (dev : UsbDevice) (ep : UsbEndpoint) : UsbDevice :=
  { dev with
    endpoints := dev.endpoints ++ [ep]
    bulkInEp := if ep.type = 2 ∧ ep.isIn then ep.number else dev.bulkInEp
    bulkOutEp := if ep.type = 2 ∧ ¬ep.isIn then ep.number else dev.bulkOutEp
    bulkMaxPkt := if ep.type = 2 then ep.maxPacket else dev.bulkMaxPkt }

/-- Step 5, with the indices at which `config_raw` is read. -/
def parse (xferLen pos : Nat) (dev : UsbDevice) : UsbDevice × List Nat :=
  let len := (dev.configRaw pos).toNat
  if pos + 2 ≤ xferLen ∧ dev.endpoints.length < 8 then
    if len < 2 ∨ pos + len > xferLen then (dev, [pos, pos + 1])
    else if dev.configRaw (pos + 1) = 5 then
      let (dev', reads) := parse xferLen (pos + len) (dev.record (endpointAt dev.configRaw pos))
      (dev', range' pos 7 ++ reads)
    else
      let (dev', reads) := parse xferLen (pos + len) dev
      (dev', [pos, pos + 1] ++ reads)
  else (dev, [])
termination_by xferLen - pos

/-- `enumerate_device` from step 3 on, with the packets that come for the two requests. -/
def enumerateDevice (first second : List (List UInt8)) (dev : UsbDevice) :
    Option (UsbDevice × List Nat) :=
  let (cdesc, xferLen) := halControlXfer true true first 9
  if xferLen < 9 then none
  else
    let (raw, xferLen) := halControlXfer true true second (min (word (cdesc.getD · 0) 2).toNat 256)
    let dev := { dev with configRaw := fun i => raw.getD i (dev.configRaw i), configLen := xferLen }
    -- `xfer_len = 0` for the request without data, and step 5 goes on with it
    let (_, xferLen) := halControlXfer false false [] 0
    let dev :=
      { dev with configValue := cdesc.getD 5 0, endpoints := [], bulkInEp := 0, bulkOutEp := 0 }
    let (dev, reads) := parse xferLen (cdesc.getD 0 0).toNat dev
    some ({ dev with enumerated := true }, reads)

/-- The descriptors inside the first `n` bytes that the length chain reaches. -/
def chain (raw : Nat → UInt8) (n pos : Nat) : List Nat :=
  if 2 ≤ (raw pos).toNat ∧ pos + (raw pos).toNat ≤ n then pos :: chain raw n (pos + (raw pos).toNat)
  else []
termination_by n - pos

/-- Those of type Endpoint that are long enough. -/
def endpointsFrom (bytes : List UInt8) (start : UInt8) : List Nat :=
  (chain (bytes.getD · 0) bytes.length start.toNat).filter fun p =>
    bytes.getD (p + 1) 0 = 5 ∧ 7 ≤ bytes.getD p 0

/-- The configuration that is received. -/
def received (first second : List (List UInt8)) : List UInt8 :=
  dataIn (min (word ((dataIn 9 first).getD · 0) 2).toNat 256) second

@[simp] theorem parse_zero (pos : Nat) (dev : UsbDevice) : parse 0 pos dev = (dev, []) := by
  rw [parse]
  simp

@[simp] theorem halControlXfer_setConfiguration : halControlXfer false false [] 0 = ([], 0) := rfl

/-- What the endpoints should be, and the reads. -/
def Right (bytes : List UInt8) (start : UInt8) (endpoints : List UsbEndpoint)
    (reads : List Nat) : Prop :=
  (∀ i ∈ reads, i < bytes.length) ∧
    endpoints = ((endpointsFrom bytes start).take 8).map (endpointAt (bytes.getD · 0))

/-- **No endpoint is ever recorded**: enumeration is right about devices without one. -/
theorem endpoints_iff {first second : List (List UInt8)} {dev dev' : UsbDevice} {reads : List Nat}
    (h : enumerateDevice first second dev = some (dev', reads)) :
    Right (received first second) ((dataIn 9 first).getD 0 0) dev'.endpoints reads ↔
      endpointsFrom (received first second) ((dataIn 9 first).getD 0 0) = [] := by
  obtain ⟨rfl, hnone⟩ : reads = [] ∧ dev'.endpoints = [] := by
    simp only [enumerateDevice, halControlXfer_setConfiguration, parse_zero] at h
    split_ifs at h
    cases h
    exact ⟨rfl, rfl⟩
  rw [Right, hnone, eq_comm]
  simp

/-- A configuration with one endpoint. -/
def oneEndpoint : List UInt8 := [9, 2, 16, 0, 1, 1, 0, 0x80, 50, 7, 5, 0x81, 2, 64, 0, 0]

def enumerated : UsbDevice where
  configRaw i := oneEndpoint.getD i 0
  configLen := 16
  configValue := 1
  enumerated := true

theorem enumerateDevice_oneEndpoint :
    enumerateDevice [oneEndpoint.take 9] [oneEndpoint] {} = some (enumerated, []) := by
  simp only [enumerateDevice, halControlXfer_setConfiguration, parse_zero]
  rfl

theorem endpoints_iff_oneEndpoint :
    Right (received [oneEndpoint.take 9] [oneEndpoint]) 9 [] [] ↔
      endpointsFrom (received [oneEndpoint.take 9] [oneEndpoint]) 9 = [] :=
  endpoints_iff enumerateDevice_oneEndpoint

theorem endpoint_missed : ∃ dev reads,
    enumerateDevice [oneEndpoint.take 9] [oneEndpoint] {} = some (dev, reads) ∧
      received [oneEndpoint.take 9] [oneEndpoint] = oneEndpoint ∧
      ¬Right oneEndpoint 9 dev.endpoints reads := by
  have hchain : endpointsFrom oneEndpoint 9 = [9] := by
    rw [endpointsFrom, chain, chain]
    decide
  refine ⟨_, _, enumerateDevice_oneEndpoint, rfl, ?_⟩
  rw [Right, hchain]
  simp [enumerated]

/-! ## Bulk transfers -/

/-- `find_endpoint` -/
def UsbDevice.findEndpoint (dev : UsbDevice) (number : UInt8) (isIn : Bool) : Option UsbEndpoint :=
  dev.endpoints.find? fun ep => ep.number = number ∧ ep.isIn = isIn

/-- `maxpkt` in `bulk_in` and `hal_bulk_xfer_`. -/
def UsbDevice.maxpkt (dev : UsbDevice) (number : UInt8) : Nat :=
  let m := ((dev.findEndpoint number true).elim 64 (·.maxPacket)).toNat
  if m = 0 then 64 else m

section Bulk

-- what a poll of `RX_CNT` finds; no packet is an empty one
variable (polls : Nat → List UInt8) (maxpkt : Nat)

/-- The loop of `hal_bulk_xfer_` for IN, with room for `room` bytes, from poll `i` on: what it
reads, and the next poll. -/
def halBulkXfer : Nat → Nat → Nat → List UInt8 × Nat
  | 0, _, i => ([], i)
  | d + 1, room, i =>
    if room = 0 then ([], i)
    else
      let read := (polls i).take room
      if polls i ≠ [] ∧ read.length < maxpkt then (read, i + 1)
      else
        let (rest, j) := halBulkXfer d (room - read.length) (i + 1)
        (read ++ rest, j)

/-- The loop of `bulk_in`. -/
def bulkLoop (remaining i : Nat) : List UInt8 × Nat :=
  if remaining = 0 then ([], i)
  else
    let (xfer, j) := halBulkXfer polls maxpkt 50000 remaining i
    if xfer.length = 0 then ([], j)
    else if xfer.length < maxpkt then (xfer, j)
    else
      let (rest, k) := bulkLoop (remaining - xfer.length) j
      (xfer ++ rest, k)
termination_by remaining

/-- The next `c` packets. -/
def packets (i c : Nat) : List UInt8 × Nat := ((range' i c).flatMap polls, i + c)

variable {polls} {m : Nat}

theorem length_packets {i c : Nat} (hall : ∀ j < c, (polls (i + j)).length = m) :
    (packets polls i c).1.length = c * m := by
  induction c with
  | zero => simp [packets]
  | succ c ih =>
    have := ih fun j hj => hall j (by omega)
    simp_all [packets, range'_1_concat, Nat.succ_mul]

variable (hpolls : ∀ i, 0 < (polls i).length ∧ (polls i).length ≤ m)

include hpolls

theorem halBulkXfer_eq {d n k i : Nat} (hall : ∀ j < k, (polls (i + j)).length = m)
    (hend : k = min d n ∨ k < min d n ∧ (polls (i + k)).length < m) :
    halBulkXfer polls m d (n * m) i = packets polls i (min (k + 1) (min d n)) := by
  induction d generalizing n k i with
  | zero => simp [halBulkXfer, packets]
  | succ d ih =>
    obtain _ | n := n
    · simp [halBulkXfer, packets]
    · have hroom : (polls i).take ((n + 1) * m) = polls i := take_of_length_le (by grind)
      have hne : polls i ≠ [] := length_pos_iff.mp (hpolls i).1
      have hm : (n + 1) * m ≠ 0 := by grind
      simp only [halBulkXfer, if_neg hm, hroom, hne, ne_eq, not_false_eq_true, true_and]
      obtain _ | k := k
      · have hshort : (polls i).length < m := by simpa using hend
        rw [if_pos hshort]
        simp [packets]
      · have hfull : (polls i).length = m := hall 0 (by omega)
        rw [if_neg (by omega), show (n + 1) * m - (polls i).length = n * m by grind,
          @ih n k (i + 1) (fun j hj => Nat.add_right_comm i j 1 ▸ hall (j + 1) (by omega))
          (by grind)]
        simp [packets, Nat.succ_min_succ, range'_succ, Nat.add_assoc, Nat.add_comm 1]

omit hpolls in
theorem packets_add (i p c : Nat) : packets polls i (p + c) =
    ((packets polls i p).1 ++ (packets polls (i + p) c).1, (packets polls (i + p) c).2) := by
  simp only [packets, ← range'_append_1, flatMap_append, Nat.add_assoc]

theorem bulkLoop_ne_nil {remaining : Nat} (i : Nat) (hremaining : remaining ≠ 0) :
    (bulkLoop polls m remaining i).1 ≠ [] := by
  have hne : polls i ≠ [] := length_pos_iff.mp (hpolls i).1
  have hxfer : (halBulkXfer polls m 50000 remaining i).1 ≠ [] := by
    rw [halBulkXfer, if_neg hremaining]
    dsimp only
    split_ifs <;> simp [hne, hremaining]
  rw [bulkLoop, if_neg hremaining]
  dsimp only
  split_ifs <;> simp_all

theorem bulkLoop_iff {n k i : Nat} (hall : ∀ j < k, (polls (i + j)).length = m)
    (hend : k = n ∨ k < n ∧ (polls (i + k)).length < m) :
    bulkLoop polls m (n * m) i = packets polls i (min (k + 1) n) ↔ k = n ∨ 50000 ∣ k := by
  induction n using Nat.strong_induction_on generalizing k i with
  | _ n ih =>
    rw [bulkLoop]
    split_ifs with hzero
    · obtain rfl : n = 0 := (Nat.mul_eq_zero.mp hzero).resolve_right (by grind)
      simp_all [packets]
    have hn : 0 < n := Nat.pos_of_mul_pos_right (Nat.pos_of_ne_zero hzero)
    obtain ⟨p, q, hp, rfl⟩ : ∃ p q, min 50000 n = p ∧ n = p + q :=
      ⟨_, n - min 50000 n, rfl, by omega⟩
    obtain hle | hlt := le_or_gt p k
    · obtain ⟨k, rfl⟩ := Nat.exists_eq_add_of_le hle
      have hfirst : ∀ j < p, (polls (i + j)).length = m := fun j hj => hall j (by omega)
      have hlen := length_packets hfirst
      have hpos : m ≤ p * m := Nat.le_mul_of_pos_left m (by omega)
      simp only [halBulkXfer_eq hpolls hfirst (.inl hp.symm), hp, min_eq_right (Nat.le_succ p)]
      have hrest := @ih q (by omega) k (i + p)
        (fun j hj => Nat.add_assoc i p j ▸ hall (p + j) (by omega))
        (by rw [Nat.add_assoc]; omega)
      rw [hlen, if_neg (by grind), if_neg (by omega), ← Nat.sub_mul, Nat.add_sub_cancel_left,
        Nat.add_assoc p,
        Nat.add_min_add_left, packets_add, Prod.mk.injEq, append_cancel_left_eq, ← Prod.mk.injEq]
      exact hrest.trans (by omega)
    · have hshort := (hend.resolve_left (by omega)).2
      have hsome := (hpolls (i + k)).1
      have hlen : (packets polls i (k + 1)).1.length = k * m + (polls (i + k)).length := by
        rw [packets_add, length_append, length_packets hall]
        simp [packets]
      simp only [halBulkXfer_eq hpolls hall (.inr ⟨hp ▸ hlt, hshort⟩), hp,
        min_eq_left (show k + 1 ≤ p from hlt),
        min_eq_left (show k + 1 ≤ p + q by omega)]
      rw [hlen, if_neg (by omega)]
      obtain rfl | hk := Nat.eq_zero_or_pos k
      · rw [if_pos (by omega)]
        simp
      · have hpos : m ≤ k * m := Nat.le_mul_of_pos_left m hk
        have hroom : (k + 1) * m ≤ (p + q) * m := Nat.mul_le_mul_right m (by omega)
        rw [if_neg (by omega)]
        refine iff_of_false (fun h => ?_) fun h => ?_
        · have hleft : (p + q) * m - (k * m + (polls (i + k)).length) ≠ 0 := by grind
          exact bulkLoop_ne_nil hpolls _ hleft (append_right_eq_self.mp (Prod.mk.inj h).1)
        · have := h.imp_right (Nat.le_of_dvd hk)
          omega

end Bulk

/-- `bulk_in`: the bytes in `buffer`, and the next poll. -/
def bulkIn (polls : Nat → List UInt8) (dev : UsbDevice) (number : UInt8) (maxLen : Nat) :
    List UInt8 × Nat :=
  bulkLoop polls (dev.maxpkt number) maxLen 0

/-- **A short packet ends the transfer** only if it is the first of a call of `hal_bulk_xfer_`. Here
there is room for `n` packets, and the first `k` of them are full. -/
theorem bulkIn_iff {polls : Nat → List UInt8} {dev : UsbDevice} {number : UInt8} {n k : Nat}
    (hpolls : ∀ i, 0 < (polls i).length ∧ (polls i).length ≤ dev.maxpkt number)
    (hall : ∀ j < k, (polls j).length = dev.maxpkt number)
    (hend : k = n ∨ k < n ∧ (polls k).length < dev.maxpkt number) :
    bulkIn polls dev number (n * dev.maxpkt number) = packets polls 0 (min (k + 1) n) ↔
      k = n ∨ 50000 ∣ k :=
  bulkLoop_iff hpolls (by simpa using hall) (by simpa using hend)

/-- Some full packets, then short ones. -/
def fullThenShort (k i : Nat) : List UInt8 := replicate (if i < k then 64 else 1) 0

theorem length_fullThenShort (k i : Nat) :
    0 < (fullThenShort k i).length ∧ (fullThenShort k i).length ≤ 64 := by
  rw [fullThenShort, length_replicate]
  split_ifs <;> decide

/-- With room for three packets: the first is short, all are full, the last is short. -/
theorem bulkIn_fullThenShort :
    bulkIn (fullThenShort 0) {} 1 192 = packets (fullThenShort 0) 0 1 ∧
      bulkIn (fullThenShort 3) {} 1 192 = packets (fullThenShort 3) 0 3 ∧
      bulkIn (fullThenShort 2) {} 1 192 ≠ packets (fullThenShort 2) 0 3 :=
  ⟨(bulkIn_iff (n := 3) (k := 0) (length_fullThenShort 0) (by decide) (by decide)).mpr (by decide),
    (bulkIn_iff (n := 3) (k := 3) (length_fullThenShort 3) (by decide) (by decide)).mpr (by decide),
    (bulkIn_iff (n := 3) (k := 2) (length_fullThenShort 2) (by decide) (by decide)).not.mpr
      (by decide)⟩

theorem short_packet_passed : bulkIn (fullThenShort 1) {} 1 128 ≠ packets (fullThenShort 1) 0 2 :=
  (bulkLoop_iff (n := 2) (k := 1) (length_fullThenShort 1) (by decide) (by decide)).not.mpr
    (by decide)

end AuroraOS.UsbHost
