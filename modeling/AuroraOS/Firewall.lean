import AuroraOS.Lib.CString

/-!
# The firewall

`FirewallEngine` of `net/firewall` with its four stages: the probe suppression of `StealthIdentity`,
the `TrafficShaper`, the `RuleTable` and the `StatefulInspector`. Each of them takes the frame apart
for itself, and each has its own way out for a frame that it cannot read.

`processPacket_drops_iff`: a frame that a rule on interface, addresses and protocol forbids gets
through exactly if its header length is wrong and neither the inspector nor the shaper stops it.
-/

namespace AuroraOS

open CString

/-! ## Frames -/

/-- The bytes of a frame, and its length. -/
structure Frame where
  bytes : List UInt8

namespace Frame

variable (f : Frame)

def len : Nat := f.bytes.length

def byte (i : Nat) : Nat := (f.bytes.getD i 0).toNat

/-- `(packet[i] << 8) | packet[i + 1]` -/
def word (i : Nat) : Nat := f.byte i * 2 ^ 8 + f.byte (i + 1)

def ethType : Nat := f.word 12

def protocol : Nat := f.byte 23

def srcIp : Nat := f.word 26 * 2 ^ 16 + f.word 28

def dstIp : Nat := f.word 30 * 2 ^ 16 + f.word 32

/-- `packet[14] & 0x0F` -/
def ihl : Nat := f.byte 14 % 2 ^ 4

def ipHeaderLen : Nat := f.ihl * 4

/-- The frame goes `n` bytes beyond the IP header. -/
def Beyond (n : Nat) : Prop := 14 + f.ipHeaderLen + n ≤ f.len
  deriving Decidable

/-- The byte at `i` behind the IP header. -/
def payload (i : Nat) : Nat := f.byte (14 + f.ipHeaderLen + i)

def srcPort : Nat := f.payload 0 * 2 ^ 8 + f.payload 1

def dstPort : Nat := f.payload 2 * 2 ^ 8 + f.payload 3

def tcpFlags : Nat := f.payload 13

/-- An IPv4 frame with room for an IP header. -/
def IsIpv4 : Prop := 34 ≤ f.len ∧ f.ethType = 0x0800
  deriving Decidable

/-- The header length is possible, and the header is there. -/
def WellFormed : Prop := 5 ≤ f.ihl ∧ f.Beyond 0
  deriving Decidable

end Frame

/-! ## Rules -/

inductive FwAction
  | accept
  | drop
  | reject
  deriving DecidableEq

/-- A rule. The name of an interface is what stands in front of the first `0`. -/
structure FwRule where
  enabled : Bool := false
  matchSrcIp : Bool := false
  srcIp : Nat := 0
  matchDstIp : Bool := false
  dstIp : Nat := 0
  matchSrcPort : Bool := false
  srcPort : Nat := 0
  matchDstPort : Bool := false
  dstPort : Nat := 0
  matchProtocol : Bool := false
  protocol : Nat := 0
  matchTcpFlags : Bool := false
  tcpFlagsMask : Nat := 0
  tcpFlagsValue : Nat := 0
  matchInterface : Bool := false
  interface : List Char := []
  action : FwAction := .accept

namespace FwRule

/-- The predicates on interface, addresses and protocol. -/
def HeaderHolds (r : FwRule) (f : Frame) (interface : List Char) : Prop :=
  (r.matchInterface → strncmpEq r.interface interface 8) ∧ (r.matchSrcIp → r.srcIp = f.srcIp) ∧
    (r.matchDstIp → r.dstIp = f.dstIp) ∧ (r.matchProtocol → r.protocol = f.protocol)
  deriving Decidable

/-- The predicates on ports and flags. What the frame does not have is zero. -/
def TransportHolds (r : FwRule) (f : Frame) : Prop :=
  let hasPorts := (f.protocol = 6 ∨ f.protocol = 17) ∧ f.Beyond 4
  let tcpFlags := if f.protocol = 6 ∧ f.Beyond 14 then f.tcpFlags else 0
  (r.matchSrcPort → r.srcPort = if hasPorts then f.srcPort else 0) ∧
    (r.matchDstPort → r.dstPort = if hasPorts then f.dstPort else 0) ∧
    (r.matchTcpFlags ∧ f.protocol = 6 → tcpFlags &&& r.tcpFlagsMask = r.tcpFlagsValue)
  deriving Decidable

/-- All predicates of the rule hold. -/
def Holds (r : FwRule) (f : Frame) (interface : List Char) : Prop :=
  r.HeaderHolds f interface ∧ r.TransportHolds f
  deriving Decidable

/-- The rule has no predicates on ports or flags. -/
def HeaderOnly (r : FwRule) : Prop :=
  r.matchSrcPort = false ∧ r.matchDstPort = false ∧ r.matchTcpFlags = false
  deriving Decidable

end FwRule

/-- `rules_` -/
structure RuleTable where
  rules : Fin 16 → FwRule

namespace RuleTable

def addRule (t : RuleTable) (rule : FwRule) : Bool × RuleTable :=
  match (List.finRange 16).find? fun i => !(t.rules i).enabled with
  | some i => (true, ⟨Function.update t.rules i { rule with enabled := true }⟩)
  | none => (false, t)

def enableRule (t : RuleTable) (index : Int) (enable : Bool) : Bool × RuleTable :=
  if h : 0 ≤ index ∧ index < 16 then
    let i : Fin 16 := ⟨index.toNat, by omega⟩
    (true, ⟨Function.update t.rules i { t.rules i with enabled := enable }⟩)
  else (false, t)

def deleteRule (t : RuleTable) (index : Int) : Bool × RuleTable := t.enableRule index false

/-- `match` -/
def matchFrame (t : RuleTable) (f : Frame) (interface : List Char) : FwAction :=
  if f.len < 14 then .accept
  else if f.ethType ≠ 0x0800 then .accept
  else if f.len < 34 then .accept
  else if f.ihl < 5 then .accept
  else if ¬f.Beyond 0 then .accept
  else
    match (List.finRange 16).find? fun i => (t.rules i).enabled ∧ (t.rules i).Holds f interface with
    | some i => (t.rules i).action
    | none => .accept

/-- The first rule in force whose predicates on interface, addresses and protocol hold. -/
def firstRule (t : RuleTable) (f : Frame) (interface : List Char) : Option FwRule :=
  ((List.finRange 16).find? fun i =>
    (t.rules i).enabled ∧ (t.rules i).HeaderHolds f interface).map t.rules

end RuleTable

/-! ## Probe suppression -/

/-- What `should_drop_inbound_probe` reads of the active configuration. -/
structure StealthIdentity where
  dropIcmpEcho : Bool := false
  dropDiscovery : Bool := false

namespace StealthIdentity

def shouldDropInboundProbe (c : StealthIdentity) (ipProto dport icmpType : Nat) : Bool :=
  ipProto = 1 ∧ icmpType = 8 ∧ c.dropIcmpEcho ∨
    c.dropDiscovery ∧ ipProto = 17 ∧ (dport = 5353 ∨ dport = 1900 ∨ dport = 5355 ∨ dport = 137)

/-- The stage of `process_packet`. -/
def suppresses (c : StealthIdentity) (f : Frame) : Bool :=
  if f.IsIpv4 ∧ f.WellFormed then
    if f.protocol = 1 ∧ f.Beyond 1 then c.shouldDropInboundProbe 1 0 (f.payload 0)
    else if f.protocol = 17 ∧ f.Beyond 4 then c.shouldDropInboundProbe 17 f.dstPort 0
    else false
  else false

end StealthIdentity

/-! ## The traffic shaper -/

structure HostStats where
  active : Bool := false
  srcIp : Nat := 0
  synCount : Nat := 0
  icmpCount : Nat := 0
  portScanCount : Nat := 0
  lastDstPort : Nat := 0
  lastActivityTick : Nat := 0

/-- `hosts_` -/
structure TrafficShaper where
  hosts : Fin 8 → HostStats := fun _ => {}

/-- A difference of two ticks. -/
def tickDiff (now tick : Nat) : Nat := (now + 2 ^ 32 - tick) % 2 ^ 32

namespace TrafficShaper

def synLimit : Nat := 50

def icmpLimit : Nat := 20

def portScanLimit : Nat := 10

def resetInterval : Nat := 1000

def setHost (s : TrafficShaper) (i : Fin 8) (h : HostStats) : TrafficShaper :=
  ⟨Function.update s.hosts i h⟩

def getOrCreateStats (s : TrafficShaper) (srcIp now : Nat) : Option (Fin 8) × TrafficShaper :=
  match (List.finRange 8).find? fun i => (s.hosts i).active ∧ (s.hosts i).srcIp = srcIp with
  | some i => (some i, s.setHost i { s.hosts i with lastActivityTick := now })
  | none =>
    match (List.finRange 8).find? fun i => !(s.hosts i).active with
    | some i => (some i, s.setHost i { active := true, srcIp, lastActivityTick := now })
    | none => (none, s)

/-- A packet with `SYN` is counted. The texts are the anomalies that are reported. -/
def countSyn (h : HostStats) (dstPort : Nat) : Option String × HostStats :=
  let h := { h with synCount := (h.synCount + 1) % 2 ^ 32 }
  if h.synCount > synLimit then (some "SYN Flood", h)
  else if h.lastDstPort ≠ dstPort then
    let h := { h with portScanCount := (h.portScanCount + 1) % 2 ^ 32, lastDstPort := dstPort }
    (if h.portScanCount > portScanLimit then some "Port Scan" else none, h)
  else (none, h)

def countIcmp (h : HostStats) : Option String × HostStats :=
  let h := { h with icmpCount := (h.icmpCount + 1) % 2 ^ 32 }
  (if h.icmpCount > icmpLimit then some "ICMP Flood" else none, h)

/-- A `SYN` that the shaper can see. -/
def SeesSyn (f : Frame) : Prop :=
  f.protocol = 6 ∧ 5 ≤ f.ihl ∧ f.Beyond 14 ∧ f.tcpFlags &&& 0x02 ≠ 0
  deriving Decidable

/-- What is counted for a packet. -/
def count (h : HostStats) (f : Frame) : Option String × HostStats :=
  if f.protocol = 1 then countIcmp h
  else if SeesSyn f then countSyn h f.dstPort
  else (none, h)

/-- `process_packet`, and the anomaly if the packet is dropped. -/
def processPacket (s : TrafficShaper) (f : Frame) (now : Nat) : Option String × TrafficShaper :=
  if ¬f.IsIpv4 then (none, s)
  else
    match s.getOrCreateStats f.srcIp now with
    | (none, s) => (none, s)
    | (some i, s) =>
      let (anomaly, h) := count (s.hosts i) f
      (anomaly, s.setHost i h)

def tick (s : TrafficShaper) (now : Nat) : TrafficShaper where
  hosts i :=
    if (s.hosts i).active ∧ tickDiff now (s.hosts i).lastActivityTick > resetInterval then
      { s.hosts i with active := false }
    else s.hosts i

end TrafficShaper

/-! ## Stateful inspection -/

inductive TcpState
  | closed
  | synSent
  | synReceived
  | established
  | finWait
  deriving DecidableEq

structure TcpConnection where
  active : Bool := false
  srcIp : Nat := 0
  dstIp : Nat := 0
  srcPort : Nat := 0
  dstPort : Nat := 0
  state : TcpState := .closed
  lastActivityTick : Nat := 0

namespace TcpConnection

/-- The frame goes from the source of the connection to its destination. -/
def Forward (c : TcpConnection) (f : Frame) : Prop :=
  c.srcIp = f.srcIp ∧ c.dstIp = f.dstIp ∧ c.srcPort = f.srcPort ∧ c.dstPort = f.dstPort
  deriving Decidable

def Backward (c : TcpConnection) (f : Frame) : Prop :=
  c.srcIp = f.dstIp ∧ c.dstIp = f.srcIp ∧ c.srcPort = f.dstPort ∧ c.dstPort = f.srcPort
  deriving Decidable

end TcpConnection

namespace Frame

variable (f : Frame)

def isSyn : Bool := f.tcpFlags &&& 0x02 ≠ 0

def isAck : Bool := f.tcpFlags &&& 0x10 ≠ 0

def isFin : Bool := f.tcpFlags &&& 0x01 ≠ 0

def isRst : Bool := f.tcpFlags &&& 0x04 ≠ 0

end Frame

/-- `connections_` -/
structure StatefulInspector where
  connections : Fin 16 → TcpConnection := fun _ => {}

namespace StatefulInspector

def timeoutTicks : Nat := 30000

def setConnection (s : StatefulInspector) (i : Fin 16) (c : TcpConnection) : StatefulInspector :=
  ⟨Function.update s.connections i c⟩

/-- The entry of the connection that the frame belongs to. -/
def find (s : StatefulInspector) (f : Frame) : Option (Fin 16) :=
  (List.finRange 16).find? fun i => (s.connections i).active ∧
    ((s.connections i).Forward f ∨ (s.connections i).Backward f)

/-- The state machine. -/
def update (c : TcpConnection) (f : Frame) (now : Nat) : TcpConnection :=
  let c := { c with lastActivityTick := now }
  if f.isRst then { c with state := .closed, active := false }
  else if f.isFin then { c with state := .finWait }
  else if c.state = .synSent ∧ f.isSyn ∧ f.isAck then { c with state := .synReceived }
  else if c.state = .synReceived ∧ f.isAck then { c with state := .established }
  else c

/-- A new entry. -/
def opened (f : Frame) (now : Nat) : TcpConnection where
  active := true
  srcIp := f.srcIp
  dstIp := f.dstIp
  srcPort := f.srcPort
  dstPort := f.dstPort
  state := .synSent
  lastActivityTick := now

/-- A frame whose TCP header can be read. -/
def Inspects (f : Frame) : Prop := f.IsIpv4 ∧ f.protocol = 6 ∧ 5 ≤ f.ihl ∧ f.Beyond 14
  deriving Decidable

def processTcpPacket (s : StatefulInspector) (f : Frame) (now : Nat) : Bool × StatefulInspector :=
  if f.len < 34 then (true, s)
  else if f.ethType ≠ 0x0800 then (true, s)
  else if f.protocol ≠ 6 then (true, s)
  else if f.ihl < 5 then (false, s)
  else if ¬f.Beyond 14 then (true, s)
  else
    match s.find f with
    | some i => (true, s.setConnection i (update (s.connections i) f now))
    | none =>
      if f.isSyn ∧ ¬f.isAck then
        match (List.finRange 16).find? fun i => !(s.connections i).active with
        | some i => (true, s.setConnection i (opened f now))
        | none => (false, s)
      else (false, s)

def tick (s : StatefulInspector) (now : Nat) : StatefulInspector where
  connections i :=
    if (s.connections i).active ∧
      tickDiff now (s.connections i).lastActivityTick > timeoutTicks then
      { s.connections i with active := false }
    else s.connections i

end StatefulInspector

/-! ## The engine -/

structure FirewallEngine where
  ruleTable : RuleTable := ⟨fun _ => {}⟩
  inspector : StatefulInspector := {}
  shaper : TrafficShaper := {}
  enabled : Bool := true

namespace FirewallEngine

/-- `process_packet`. The configuration of `StealthIdentity` and the tick are read from outside. -/
def processPacket (e : FirewallEngine) (stealth : StealthIdentity) (now : Nat) (f : Frame)
    (interface : List Char) : Bool × FirewallEngine :=
  if !e.enabled then (true, e)
  else if stealth.suppresses f then (false, e)
  else
    let (anomaly, shaper) := e.shaper.processPacket f now
    let e := { e with shaper }
    if anomaly.isSome then (false, e)
    else if e.ruleTable.matchFrame f interface ≠ .accept then (false, e)
    else
      let (pass, inspector) := e.inspector.processTcpPacket f now
      (pass, { e with inspector })

def tick (e : FirewallEngine) (now : Nat) : FirewallEngine :=
  if !e.enabled then e
  else { e with inspector := e.inspector.tick now, shaper := e.shaper.tick now }

end FirewallEngine

/-! ## Rules against malformed frames -/

namespace RuleTable

variable {t : RuleTable} {f : Frame} {interface : List Char}

/-- What `match` does with a frame that is not an IPv4 frame in good form. -/
theorem matchFrame_malformed (h : ¬f.WellFormed) : t.matchFrame f interface = .accept := by
  unfold matchFrame
  by_cases hihl : f.ihl < 5
  · simp only [hihl, if_true, ite_self]
  · have hbeyond : ¬f.Beyond 0 := fun hb => h ⟨Nat.not_lt.1 hihl, hb⟩
    simp only [hbeyond, not_false_eq_true, if_true, ite_self]

/-- What it does with one that is: the first rule that holds decides. -/
theorem matchFrame_wellFormed (hf : f.IsIpv4) (h : f.WellFormed) :
    t.matchFrame f interface = match (List.finRange 16).find? fun i =>
        (t.rules i).enabled ∧ (t.rules i).Holds f interface with
      | some i => (t.rules i).action
      | none => .accept := by
  obtain ⟨hlen, heth⟩ := hf
  unfold matchFrame
  rw [if_neg (by omega), if_neg (not_not.2 heth), if_neg (by omega), if_neg (Nat.not_lt.2 h.1),
    if_neg (not_not.2 h.2)]

theorem matchFrame_headerOnly (hf : f.IsIpv4) (h : f.WellFormed)
    (hrules : ∀ i, (t.rules i).enabled → (t.rules i).HeaderOnly) :
    t.matchFrame f interface = ((t.firstRule f interface).map FwRule.action).getD .accept := by
  have hpred : (fun i => decide ((t.rules i).enabled ∧ (t.rules i).Holds f interface)) =
      fun i => decide ((t.rules i).enabled ∧ (t.rules i).HeaderHolds f interface) := by
    funext i
    refine decide_eq_decide.2 (and_congr_right fun hi => and_iff_left ?_)
    obtain ⟨hsrc, hdst, hflags⟩ := hrules i hi
    simp [FwRule.TransportHolds, hsrc, hdst, hflags]
  rw [matchFrame_wellFormed hf h, firstRule, hpred]
  cases (List.finRange 16).find? fun i =>
    decide ((t.rules i).enabled ∧ (t.rules i).HeaderHolds f interface) <;> rfl

end RuleTable

theorem StatefulInspector.processTcpPacket_malformed {s : StatefulInspector} {f : Frame} {now : Nat}
    (hf : f.IsIpv4) (h : ¬f.WellFormed) :
    (s.processTcpPacket f now).1 = false ↔ f.protocol = 6 ∧ f.ihl < 5 := by
  obtain ⟨hlen, heth⟩ := hf
  unfold processTcpPacket
  rw [if_neg (by omega), if_neg (not_not.2 heth)]
  by_cases hprotocol : f.protocol = 6
  · by_cases hihl : f.ihl < 5
    · simp [hprotocol, hihl]
    · have hbeyond : ¬f.Beyond 14 := fun hb => h ⟨by omega, by unfold Frame.Beyond at *; omega⟩
      rw [if_pos hbeyond]
      simp [hihl]
  · simp [hprotocol]

namespace FirewallEngine

variable {e : FirewallEngine} {stealth : StealthIdentity} {now : Nat} {f : Frame}
  {interface : List Char}

theorem processPacket_fst (henabled : e.enabled) :
    (e.processPacket stealth now f interface).1 = false ↔
      stealth.suppresses f ∨ (e.shaper.processPacket f now).1.isSome ∨
        e.ruleTable.matchFrame f interface ≠ .accept ∨
          (e.inspector.processTcpPacket f now).1 = false := by
  unfold processPacket
  rw [if_neg (by simp [henabled])]
  dsimp only
  split_ifs with hstealth hshaper hrule
  · simp [hstealth]
  · simp [hshaper]
  · exact iff_of_true rfl (.inr (.inr (.inl hrule)))
  · simp [hstealth, hshaper, hrule]

/-- **What a rule on interface, addresses and protocol forbids** is dropped exactly if the IP header
is in good form, or if it is a TCP packet with an impossible header length, or if the shaper drops
it. -/
theorem processPacket_drops_iff (hf : f.IsIpv4) (henabled : e.enabled)
    (hrules : ∀ i, (e.ruleTable.rules i).enabled → (e.ruleTable.rules i).HeaderOnly)
    {r : FwRule} (hfirst : e.ruleTable.firstRule f interface = some r)
    (hr : r.action = .drop ∨ r.action = .reject) :
    (e.processPacket stealth now f interface).1 = false ↔
      f.WellFormed ∨ f.protocol = 6 ∧ f.ihl < 5 ∨ (e.shaper.processPacket f now).1.isSome := by
  rw [processPacket_fst henabled]
  by_cases h : f.WellFormed
  · refine iff_of_true ?_ (.inl h)
    have haction : e.ruleTable.matchFrame f interface = r.action := by
      rw [RuleTable.matchFrame_headerOnly hf h hrules, hfirst]
      rfl
    refine .inr (.inr (.inl ?_))
    rcases hr with hr | hr <;> simp [haction, hr]
  · rw [StealthIdentity.suppresses, if_neg fun hf => h hf.2, RuleTable.matchFrame_malformed h,
      StatefulInspector.processTcpPacket_malformed hf h]
    simp only [h, Bool.false_eq_true, ne_eq, not_true_eq_false, false_or]
    exact or_comm

/-- A rule that drops what comes from 10.0.0.1. -/
def denied : FirewallEngine where
  ruleTable := ⟨fun i => if i = 0 then
    { enabled := true, matchSrcIp := true, srcIp := 0x0A000001, action := .drop } else {}⟩

/-- An IPv4 frame of 34 bytes from 10.0.0.1, without payload. -/
def bareFrame (ihl protocol : UInt8) : Frame :=
  ⟨List.replicate 12 0 ++ [0x08, 0, 0x40 + ihl, 0, 0, 0, 0, 0, 0, 0, 0, protocol, 0, 0, 10, 0, 0, 1,
    0, 0, 0, 0]⟩

theorem processPacket_drops_udp :
    (denied.processPacket {} 0 (bareFrame 5 17) ['e', 'n', '0']).1 = false :=
  (processPacket_drops_iff (by decide) rfl (by decide) rfl (by decide)).2 (.inl (by decide))

/-- **With a header length of zero the same packet gets through**, and so it does with one beyond
the end of the frame. -/
theorem malformed_evades_rule :
    (bareFrame 0 17).IsIpv4 ∧ (bareFrame 15 6).IsIpv4 ∧ denied.enabled ∧
    (∀ i, (denied.ruleTable.rules i).enabled → (denied.ruleTable.rules i).HeaderOnly) ∧
    (denied.ruleTable.firstRule (bareFrame 0 17) ['e', 'n', '0']).map FwRule.action = some .drop ∧
    (denied.ruleTable.firstRule (bareFrame 15 6) ['e', 'n', '0']).map FwRule.action = some .drop ∧
    (denied.processPacket {} 0 (bareFrame 0 17) ['e', 'n', '0']).1 = true ∧
    (denied.processPacket {} 0 (bareFrame 15 6) ['e', 'n', '0']).1 = true := by
  decide +kernel

end FirewallEngine

end AuroraOS
