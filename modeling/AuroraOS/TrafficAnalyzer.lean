import Mathlib.Tactic

/-!
# Traffic analysis

`TrafficAnalyzer` of `security/ids` keeps for each host a moving average of the packets per window,
in 1/256 packets. The average moves by a quarter of an unsigned difference, so that it rises when
traffic falls. `parse_packet` reads inside the frame, but takes the end of the frame for the end of
the datagram.
-/

namespace AuroraOS.TrafficAnalyzer

open BitVec Option

/-- The counters of a host that the end of a window reads or clears. -/
structure HostFlow where
  pktCount : BitVec 32 := 0
  byteCount : BitVec 32 := 0
  synCount : BitVec 32 := 0
  portCount : BitVec 8 := 0
  dstIpCount : BitVec 8 := 0
  windowStartMs : BitVec 32 := 0
  baselineQ8 : BitVec 32 := 0

/-- End a window. The flag reports an outlier. -/
def rollFlow (f : HostFlow) (now : BitVec 32) : Bool × HostFlow :=
  let rateQ8 := f.pktCount * 256
  (f.baselineQ8 > 0 && rateQ8 > f.baselineQ8 * 2 + 20 * 256,
    { windowStartMs := now, baselineQ8 := f.baselineQ8 + (rateQ8 - f.baselineQ8) / 4 })

/-- The host at the end of each window, when its packets are counted, and the tick of the roll. -/
def windows (f : HostFlow) : List (Fin (2 ^ 20) × BitVec 32) → List (HostFlow × BitVec 32)
  | [] => []
  | (count, now) :: ws =>
    let counted := { f with pktCount := BitVec.ofNat 32 count }
    (counted, now) :: windows (rollFlow counted now).2 ws

/-- The baseline moves towards the window's rate, and an outlier is reported as it should be. -/
def RollsWell (w : HostFlow × BitVec 32) : Prop :=
  let old := w.1.baselineQ8.toNat
  let rate := 256 * w.1.pktCount.toNat
  let r := rollFlow w.1 w.2
  min old rate ≤ r.2.baselineQ8.toNat ∧ r.2.baselineQ8.toNat ≤ max old rate ∧
    (r.1 ↔ 0 < old ∧ 2 * old + 20 * 256 < rate)
  deriving Decidable

/-- Traffic has not fallen below the baseline, or is gone with the baseline at its top. -/
def Steady (f : HostFlow) : Prop :=
  f.baselineQ8.toNat ≤ 256 * f.pktCount.toNat ∨ f.pktCount = 0 ∧ 2 ^ 32 - 3 ≤ f.baselineQ8.toNat

theorem rollsWell_iff {f : HostFlow} (now : BitVec 32) (h : f.pktCount.toNat < 2 ^ 20) :
    RollsWell (f, now) ↔ Steady f := by
  have hcount : f.pktCount = 0 ↔ f.pktCount.toNat = 0 := toNat_inj.symm
  have hrate : f.pktCount.toNat * 256 % 2 ^ 32 = 256 * f.pktCount.toNat := by omega
  have hbound := f.baselineQ8.isLt
  simp only [RollsWell, Steady, rollFlow, hcount, Bool.and_eq_true, decide_eq_true_eq, gt_iff_lt,
    lt_def, toNat_add, toNat_mul, toNat_udiv, toNat_sub,
    reduceToNat, hrate]
  generalize f.baselineQ8.toNat = b at *
  generalize f.pktCount.toNat = n at *
  rcases le_or_gt b (256 * n) with hle | hlt
  · rw [show (2 ^ 32 - b + 256 * n) % 2 ^ 32 = 256 * n - b by omega,
      Nat.mod_eq_of_lt (show b + (256 * n - b) / 4 < 2 ^ 32 by omega)]
    omega
  · -- the difference is below zero, and a quarter of what it wraps to is added
    rw [Nat.mod_eq_of_lt (show 2 ^ 32 - b + 256 * n < 2 ^ 32 by omega)]
    rcases Nat.lt_or_ge (b + (2 ^ 32 - b + 256 * n) / 4) (2 ^ 32) with hfit | hwrap
    · rw [Nat.mod_eq_of_lt hfit]
      omega
    · have hlow : (b + (2 ^ 32 - b + 256 * n) / 4) % 2 ^ 32 < 256 * n := by omega
      omega

theorem windows_count {f : HostFlow} {ws : List (Fin (2 ^ 20) × BitVec 32)} :
    ∀ w ∈ windows f ws, w.1.pktCount.toNat < 2 ^ 20 := by
  induction ws generalizing f with
  | nil => simp [windows]
  | cons p ws ih =>
    intro w hw
    rcases List.mem_cons.mp hw with rfl | hw
    · have hcount := p.1.isLt
      simp only [toNat_ofNat]
      omega
    · exact ih w hw

/-- In a run of windows, the averages and reports are right exactly if every window is steady. -/
theorem windows_rollWell_iff (f : HostFlow) (ws : List (Fin (2 ^ 20) × BitVec 32)) :
    (∀ w ∈ windows f ws, RollsWell w) ↔ ∀ w ∈ windows f ws, Steady w.1 :=
  forall₂_congr fun w hw => rollsWell_iff w.2 (windows_count w hw)

local instance neZeroCounts : NeZero (2 ^ 20) := ⟨by decide⟩

/-- Four packets, and none: the baseline rises from one packet to four million. -/
theorem silence_raises_baseline : ¬ ∀ w ∈ windows {} [(4, 1000), (0, 2000)], RollsWell w := by
  decide

/-! ## Taking packets apart -/

/-- A packet taken apart. A pointer into the frame is the index it points to. -/
structure ParsedPacket where
  ethType : Nat := 0
  isIpv4 : Bool := false
  isArp : Bool := false
  ipProto : Nat := 0
  ihl : Nat := 0
  srcIp : Nat := 0
  dstIp : Nat := 0
  fragOff : Nat := 0
  moreFrag : Bool := false
  totalLen : Nat := 0
  srcPort : Nat := 0
  dstPort : Nat := 0
  tcpFlags : Nat := 0
  tcpDataOff : Nat := 0
  payload : Option Nat := none
  payloadLen : Int := 0
  arpOp : Nat := 0
  arpSpa : Nat := 0
  arpSha : Option Nat := none
  malformed : Option String := none

section Parse

variable (pkt : Nat → UInt8) (len : Int) {p : ParsedPacket}

/-- Read a byte. What is not below the length of the frame cannot be read. -/
def read8 (i : Nat) : Option Nat := if i < len then some (pkt i).toNat else none

def read16 (i : Nat) : Option Nat := return (← read8 pkt len i) * 2 ^ 8 + (← read8 pkt len (i + 1))

def read32 (i : Nat) : Option Nat :=
  return (← read16 pkt len i) * 2 ^ 16 + (← read16 pkt len (i + 2))

def parseTransport (p : ParsedPacket) : Option ParsedPacket := do
  let l4Off := 14 + p.ihl * 4
  if p.ipProto = 6 then
    if len < l4Off + 20 then return { p with malformed := "TCP header too short" }
    let p := { p with
      srcPort := ← read16 pkt len l4Off
      dstPort := ← read16 pkt len (l4Off + 2)
      tcpDataOff := (← read8 pkt len (l4Off + 12)) / 2 ^ 4
      tcpFlags := ← read8 pkt len (l4Off + 13) }
    if p.tcpDataOff < 5 then return { p with malformed := "TCP data offset < 5" }
    let tcpHdrSz := p.tcpDataOff * 4
    return { p with
      payload := some (l4Off + tcpHdrSz)
      payloadLen := max 0 (len - (l4Off + tcpHdrSz)) }
  if p.ipProto = 17 then
    if len < l4Off + 8 then return { p with malformed := "UDP header too short" }
    return { p with
      srcPort := ← read16 pkt len l4Off
      dstPort := ← read16 pkt len (l4Off + 2)
      payload := some (l4Off + 8)
      payloadLen := len - (l4Off + 8) }
  return { p with payload := some l4Off, payloadLen := len - l4Off }

def parseIpv4 (p : ParsedPacket) : Option ParsedPacket := do
  if len < 34 then return { p with malformed := "IP header too short" }
  let p := { p with ihl := (← read8 pkt len 14) % 2 ^ 4 }
  if p.ihl < 5 then return { p with malformed := "IHL < 5" }
  let frag ← read16 pkt len 20
  let p := { p with
    totalLen := ← read16 pkt len 16
    ipProto := ← read8 pkt len 23
    srcIp := ← read32 pkt len 26
    dstIp := ← read32 pkt len 30
    fragOff := frag % 2 ^ 13
    moreFrag := frag.testBit 13 }
  if p.totalLen < p.ihl * 4 then return { p with malformed := "total_len < IP header" }
  if p.totalLen ≠ 0 ∧ 14 + p.totalLen > len then
    return { p with malformed := "total_len exceeds frame" }
  parseTransport pkt len p

def parsePacket : Option (Bool × ParsedPacket) := do
  if len < 14 then return (false, { malformed := "frame too short" })
  let p : ParsedPacket := { ethType := ← read16 pkt len 12 }
  if p.ethType = 0x0806 then
    let p := { p with isArp := true }
    if len < 42 then return (true, { p with malformed := "ARP too short" })
    return (true, { p with
      arpOp := ← read16 pkt len 20
      arpSha := some 22
      arpSpa := ← read32 pkt len 28 })
  if p.ethType ≠ 0x0800 then return (true, p)
  return (true, ← parseIpv4 pkt len { p with isIpv4 := true })

/-- `ids_read16be` of the frame, wherever it ends. -/
def word (i : Nat) : Nat := (pkt i).toNat * 2 ^ 8 + (pkt (i + 1)).toNat

def ihl : Nat := (pkt 14).toNat % 2 ^ 4

def dataOff : Nat := (pkt (14 + ihl pkt * 4 + 12)).toNat / 2 ^ 4

/-- Where the transport header ends. -/
def transportEnd : Nat := 14 + ihl pkt * 4 + if pkt 23 = 6 then dataOff pkt * 4 else 8

/-- A TCP or UDP header is there, with a length that is possible. -/
def HasTransport : Prop :=
  pkt 23 = 6 ∧ 14 + ihl pkt * 4 + 20 ≤ len ∧ 5 ≤ dataOff pkt ∨
    pkt 23 = 17 ∧ 14 + ihl pkt * 4 + 8 ≤ len

/-- A TCP or UDP packet in which nothing counts as malformed. -/
def Accepted : Prop :=
  34 ≤ len ∧ word pkt 12 = 0x0800 ∧ 5 ≤ ihl pkt ∧ ihl pkt * 4 ≤ word pkt 16 ∧
    14 + word pkt 16 ≤ len ∧ HasTransport pkt len

/-- The frame ends with the datagram, and the transport header is inside. -/
def Exact : Prop := len = 14 + word pkt 16 ∧ transportEnd pkt ≤ len

/-- The transport header and the payload fill the datagram. -/
def ParsedPacket.Contained (p : ParsedPacket) : Prop :=
  let hdrEnd := 14 + p.ihl * 4 + if p.ipProto = 6 then p.tcpDataOff * 4 else 8
  hdrEnd ≤ 14 + p.totalLen ∧ p.payload = some hdrEnd ∧ p.payloadLen = 14 + p.totalLen - hdrEnd
  deriving Decidable

variable {pkt len} {i : Nat}

theorem read8_eq (h : i < len) : read8 pkt len i = some (pkt i).toNat := if_pos h

theorem read16_eq (h : i + 1 < len) : read16 pkt len i = some (word pkt i) := by
  rw [read16, read8_eq (by omega), read8_eq (by omega)]
  rfl

theorem read32_eq (h : i + 3 < len) :
    read32 pkt len i = some (word pkt i * 2 ^ 16 + word pkt (i + 2)) := by
  rw [read32, read16_eq (by omega), read16_eq (by omega)]
  rfl

/-- A packet that is reported as TCP or UDP, and not as malformed, is contained. -/
def ParsedPacket.Sound (p : ParsedPacket) : Prop :=
  p.malformed = none → p.isIpv4 → p.ipProto = 6 ∨ p.ipProto = 17 → p.Contained
  deriving Decidable

theorem parseTransport_sound_iff (hproto : p.ipProto = (pkt 23).toNat)
    (hihl : p.ihl = ihl pkt) (htotal : p.totalLen = word pkt 16) (hlen : 14 + word pkt 16 ≤ len)
    (hwell : p.malformed = none) (hip : p.isIpv4) : ∃ q, parseTransport pkt len p = some q ∧
      (q.Sound ↔ (HasTransport pkt len → Exact pkt len)) := by
  have htcp : pkt 23 = 6 ↔ (pkt 23).toNat = 6 := UInt8.toNat_inj.symm
  have hudp : pkt 23 = 17 ↔ (pkt 23).toNat = 17 := UInt8.toNat_inj.symm
  unfold parseTransport HasTransport
  rw [hproto, hihl, htcp, hudp]
  simp (disch := omega) only [read8_eq, read16_eq, bind_eq_bind, bind_some]
  split_ifs
  all_goals
    refine ⟨_, rfl, ?_⟩
    simp [ParsedPacket.Sound, ParsedPacket.Contained, Exact, transportEnd, dataOff, *]
    try omega

theorem parseIpv4_sound_iff (hwell : p.malformed = none) (hip : p.isIpv4)
    (htype : word pkt 12 = 0x0800) : ∃ q, parseIpv4 pkt len p = some q ∧
      (q.Sound ↔ (Accepted pkt len → Exact pkt len)) := by
  have hihl : (pkt 14).toNat % 2 ^ 4 = ihl pkt := rfl
  unfold parseIpv4
  simp (disch := omega) only [read8_eq, read16_eq, read32_eq, bind_eq_bind, bind_some, hihl]
  split_ifs
  case neg =>
    have haccepted : Accepted pkt len ↔ HasTransport pkt len :=
      ⟨fun h => h.2.2.2.2.2, fun h => ⟨by omega, htype, by omega, by omega, by omega, h⟩⟩
    rw [haccepted]
    exact parseTransport_sound_iff rfl rfl rfl (by omega) hwell hip
  all_goals
    refine ⟨_, rfl, ?_⟩
    simp [ParsedPacket.Sound, Accepted]
    omega

/-- No read goes beyond the frame, and what is reported is contained exactly if the frame has no
padding and the datagram has room for the transport header. -/
theorem parsePacket_contained_iff : ∃ ok p, parsePacket pkt len = some (ok, p) ∧
    (p.Sound ↔ (Accepted pkt len → Exact pkt len)) := by
  unfold parsePacket
  simp (disch := omega) only [read16_eq, read32_eq, bind_eq_bind, bind_some]
  split_ifs
  pick_goal 5
  · obtain ⟨q, hq, hsound⟩ :=
      @parseIpv4_sound_iff pkt len { ethType := word pkt 12, isIpv4 := true } rfl rfl
      (by omega)
    exact ⟨true, q, by rw [hq]; rfl, hsound⟩
  all_goals
    refine ⟨_, _, rfl, ?_⟩
    simp [ParsedPacket.Sound, Accepted]
    omega

/-- An empty UDP datagram of 28 bytes in a frame of 60 bytes: the padding is taken for the
payload. -/
theorem padding_inspected : ∃ r ∈ parsePacket (fun i => if i = 12 then 8 else if i = 14 then 5 else
    if i = 17 then 28 else if i = 23 then 17 else 0) 60, ¬ r.2.Sound := by decide +kernel

end Parse

end AuroraOS.TrafficAnalyzer
