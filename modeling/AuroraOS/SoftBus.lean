import AuroraOS.Lib.Bitmap
import AuroraOS.Lib.ByteMem
import Mathlib.Data.List.TakeWhile

/-!
# Who sent an intent

The receiving side of `SoftBus` (`ai/february/softbus.hpp`), with the frames of `softbus_codec.hpp`,
the inbox of `softbus_stub.hpp` and the statistics of `peer_table.hpp`. Identifiers and counters are
natural numbers, and signed parameters of an intent are their 32 bits. The transport is known by the
session that it opens; network ids and the device graph that the peer table is copied to are left
out.

A frame names its sender, and so does the session on which it comes. `on_bytes_received` believes
the frame.
-/

namespace AuroraOS

open List Function

/-! ## Frames -/

structure Intent where
  type : Nat := 0
  confidence : Nat := 0
  sourceId : Nat := 0
  param0 : Nat := 0
  param1 : Nat := 0
  text : List UInt8 := []
  deriving DecidableEq

def Intent.valid (i : Intent) : Bool := i.type ≠ 0

/-- What `n` bytes at `off` are read as. Outside the frame nothing is read. -/
def inside {α : Type} (data : List UInt8) (off n : Nat) (value : α) : Option α :=
  if off + n ≤ data.length then some value else none

/-- `get_u16` and `get_u32` -/
def getWord (data : List UInt8) (off n : Nat) : Option Nat :=
  inside data off n (ByteMem.word data off n)

/-- `softbus_unpack_intent`: the intent, the peer and the time of a frame, or that it is refused.
There is no result if a byte outside the frame is read. -/
def unpackFrame (data : List UInt8) : Option (Option (Intent × Nat × Nat)) :=
  if data.length < 31 then some none
  else do
    let magic ← getWord data 0 2
    if magic ≠ 0xFB02 then pure none
    else do
      let version ← getWord data 2 1
      let _flags ← getWord data 3 1
      if version ≠ 1 then pure none
      else if 4 + 19 > data.length then pure none
      else do
        let type ← getWord data 4 2
        let confidence ← getWord data 6 4
        let sourceId ← getWord data 10 4
        let param0 ← getWord data 14 4
        let param1 ← getWord data 18 4
        let textLen ← getWord data 22 1
        if textLen ≥ 64 ∨ 23 + textLen + 8 > data.length then pure none
        else do
          let text ← inside data 23 textLen ((data.drop 23).take textLen)
          let timestamp ← getWord data (23 + textLen) 4
          let peerId ← getWord data (27 + textLen) 4
          let intent : Intent := { type, confidence, sourceId, param0, param1, text }
          pure (if intent.valid ∨ intent.type = 0 then some (intent, peerId, timestamp) else none)

def softbusUnpackIntent (data : List UInt8) : Option (Intent × Nat × Nat) := (unpackFrame data).join

/-! ## The codec -/

section Codec

open ByteMem

/-- `softbus_pack_intent`, for a buffer of `outCap` bytes. -/
def softbusPackIntent (i : Intent) (peerId timestamp outCap : Nat) : Option (List UInt8) :=
  let text := (i.text.takeWhile (· ≠ 0)).take 64
  if outCap < 31 ∨ outCap < 31 + text.length then none
  else
    some (bytesOf 2 0xFB02 ++ bytesOf 1 1 ++ bytesOf 1 0 ++ bytesOf 2 i.type ++
      bytesOf 4 i.confidence ++ bytesOf 4 i.sourceId ++ bytesOf 4 i.param0 ++ bytesOf 4 i.param1 ++
      bytesOf 1 text.length ++ text ++ bytesOf 4 timestamp ++ bytesOf 4 peerId)

/-- The fields have their widths, and there is a zero behind the text. -/
def Intent.Fits (i : Intent) (peerId timestamp : Nat) : Prop :=
  i.type < 2 ^ 16 ∧ (∀ v ∈ [i.confidence, i.sourceId, i.param0, i.param1, peerId, timestamp],
    v < 2 ^ 32) ∧ i.text.length < 64 ∧ 0 ∉ i.text

variable {i : Intent} {peerId timestamp outCap : Nat}

theorem inside_eq {α : Type} {data : List UInt8} {off n : Nat} (h : off + n ≤ data.length)
    (value : α) : inside data off n value = some value := if_pos h

/-- The length of the frame is checked before each of its fields is read. -/
theorem unpackFrame_eq (data : List UInt8) : unpackFrame data =
    if word data 0 2 = 0xFB02 ∧ word data 2 1 = 1 ∧ word data 22 1 < 64 ∧
        31 + word data 22 1 ≤ data.length then
      some (some (⟨word data 4 2, word data 6 4, word data 10 4, word data 14 4, word data 18 4,
        (data.drop 23).take (word data 22 1)⟩, word data (27 + word data 22 1) 4,
        word data (23 + word data 22 1) 4))
    else some none := by
  by_cases hlen : data.length < 31
  · rw [unpackFrame, if_pos hlen, if_neg (by omega)]
  · have hvalid : ∀ i : Intent, i.valid ∨ i.type = 0 := by
      intro i
      by_cases h : i.type = 0 <;> simp [Intent.valid, h]
    simp (disch := omega) only [unpackFrame, getWord, inside_eq, hvalid, if_true, if_neg hlen,
      Option.bind_eq_bind, Option.bind_some]
    split_ifs <;> first | omega | rfl

theorem unpack_eq_some_iff (data : List UInt8) :
    softbusUnpackIntent data = some (i, peerId, timestamp) ↔
      word data 0 2 = 0xFB02 ∧ word data 2 1 = 1 ∧ word data 22 1 < 64 ∧
      31 + word data 22 1 ≤ data.length ∧
      i = ⟨word data 4 2, word data 6 4, word data 10 4, word data 14 4, word data 18 4,
        (data.drop 23).take (word data 22 1)⟩ ∧
      peerId = word data (27 + word data 22 1) 4 ∧
      timestamp = word data (23 + word data 22 1) 4 := by
  rw [softbusUnpackIntent, unpackFrame_eq]
  split_ifs <;> simp <;> grind

/-- **A frame starts like the packed intent** exactly if it is unpacked to it, and has no flags. -/
theorem pack_prefix_iff (hi : i.Fits peerId timestamp) (hcap : 31 + i.text.length ≤ outCap) :
    ∃ frame, softbusPackIntent i peerId timestamp outCap = some frame ∧ ∀ data,
      frame <+: data ↔ softbusUnpackIntent data = some (i, peerId, timestamp) ∧
      word data 3 1 = 0 := by
  obtain ⟨htype, hwords, hlen, hzero⟩ := hi
  have htext : (i.text.takeWhile (· ≠ 0)).take 64 = i.text := by
    rw [takeWhile_eq_self_iff.mpr (by grind), take_of_length_le hlen.le]
  refine ⟨_, by rw [softbusPackIntent, htext, if_neg (by omega)], fun data => ?_⟩
  simp only [forall_mem_cons, not_mem_nil, IsEmpty.forall_iff, implies_true, and_true] at hwords
  simp (disch := omega) only [append_assoc, append_prefix_iff, bytesOf_prefix_iff, length_bytesOf,
    drop_drop, word_drop, length_drop, Nat.mod_eq_of_lt, unpack_eq_some_iff]
  clear htype hwords hzero htext hcap
  obtain ⟨type, confidence, sourceId, param0, param1, text⟩ := i
  simp only [Intent.mk.injEq, prefix_iff_eq_take] at hlen ⊢
  by_cases hw : word data 22 1 = text.length
  · simp only [hw]
    grind
  · refine iff_of_false (by grind) fun h => hw ?_
    have := congrArg length h.1.2.2.2.2.1.2.2.2.2.2
    rw [length_take, length_drop] at this
    omega

theorem unpack_pack (hi : i.Fits peerId timestamp) (hcap : 31 + i.text.length ≤ outCap) :
    ∃ frame, softbusPackIntent i peerId timestamp outCap = some frame ∧
      softbusUnpackIntent frame = some (i, peerId, timestamp) := by
  obtain ⟨frame, hpack, hframe⟩ := pack_prefix_iff hi hcap
  exact ⟨frame, hpack, ((hframe frame).mp prefix_rfl).1⟩

theorem fits_of_unpack {data : List UInt8}
    (h : softbusUnpackIntent data = some (i, peerId, timestamp))
    (hzero : 0 ∉ i.text) : i.Fits peerId timestamp := by
  obtain ⟨-, -, hlen, hin, rfl, rfl, rfl⟩ := (unpack_eq_some_iff data).mp h
  have hword : ∀ a, word data a 4 < 2 ^ 32 := fun a => load_lt _ a 4
  have htype : word data 4 2 < 2 ^ 16 := load_lt _ 4 2
  refine ⟨htype, by simp [-Nat.reducePow, hword], ?_, hzero⟩
  rw [length_take]
  omega

/-- **The codec.** What was packed is unpacked, only bytes of the frame are read, what was unpacked
and has no flags is packed to the start of its frame, and no two intents are packed alike. -/
theorem softbus_codec :
    (∀ i peerId timestamp outCap, Intent.Fits i peerId timestamp → 31 + i.text.length ≤ outCap →
      ∃ frame, softbusPackIntent i peerId timestamp outCap = some frame ∧
        softbusUnpackIntent frame = some (i, peerId, timestamp)) ∧
    (∀ data, unpackFrame data ≠ none) ∧
    (∀ data i peerId timestamp outCap, softbusUnpackIntent data = some (i, peerId, timestamp) →
      word data 3 1 = 0 → 0 ∉ i.text → 31 + i.text.length ≤ outCap →
      ∃ frame, softbusPackIntent i peerId timestamp outCap = some frame ∧ frame <+: data) ∧
    ∀ i peerId timestamp i' peerId' timestamp' outCap, Intent.Fits i peerId timestamp →
      Intent.Fits i' peerId' timestamp' → 31 + i.text.length ≤ outCap →
      31 + i'.text.length ≤ outCap →
      softbusPackIntent i peerId timestamp outCap = softbusPackIntent i' peerId' timestamp' outCap →
      i = i' := by
  refine ⟨fun _ _ _ _ => unpack_pack, fun data => ?_, ?_, ?_⟩
  · rw [unpackFrame_eq]
    split_ifs <;> exact Option.some_ne_none _
  · intro data i peerId timestamp outCap hunpack hflags hzero hcap
    obtain ⟨frame, hpack, hframe⟩ := pack_prefix_iff (fits_of_unpack hunpack hzero) hcap
    exact ⟨frame, hpack, (hframe data).mpr ⟨hunpack, hflags⟩⟩
  · intro i peerId timestamp i' peerId' timestamp' outCap hi hi' hcap hcap' heq
    obtain ⟨frame, hpack, hunpack⟩ := unpack_pack hi hcap
    obtain ⟨frame', hpack', hunpack'⟩ := unpack_pack hi' hcap'
    rw [hpack, hpack', Option.some_inj] at heq
    rw [heq, hunpack'] at hunpack
    simpa [eq_comm] using congrArg (Option.map (·.1)) hunpack

theorem softbus_codec_greeting :
    ∃ frame, softbusPackIntent { type := 3, text := [72, 105] } 7 9 95 = some frame ∧
    softbusUnpackIntent frame = some ({ type := 3, text := [72, 105] }, 7, 9) :=
  softbus_codec.1 _ 7 9 95 ⟨by decide, by decide, by decide, by decide⟩ (by decide)

end Codec

/-! ## The inbox -/

structure SoftBusMessage where
  peerId : Nat := 0
  timestamp : Nat := 0
  intent : Intent := {}
  deriving DecidableEq

local instance neZeroMessages : NeZero 8 := ⟨by decide⟩

structure SoftBusStub where
  queue : Fin 8 → SoftBusMessage := fun _ => {}
  head : Fin 8 := 0
  tail : Fin 8 := 0
  dropCount : Nat := 0

namespace SoftBusStub

def publish (q : SoftBusStub) (peerId : Nat) (intent : Intent) (now : Nat) : SoftBusStub :=
  let msg : SoftBusMessage :=
    ⟨peerId, now, if peerId ≠ 0 then { intent with sourceId := peerId } else intent⟩
  let full := q.head + 1 = q.tail
  { queue := update q.queue q.head msg
    head := q.head + 1
    tail := if full then q.tail + 1 else q.tail
    dropCount := if full then q.dropCount + 1 else q.dropCount }

/-- The message that came last. -/
def newest (q : SoftBusStub) : SoftBusMessage := q.queue (q.head - 1)

end SoftBusStub

/-! ## Statistics -/

structure PeerSlot where
  peerId : Nat := 0
  lastSeen : Nat := 0
  lastRx : Nat := 0
  rxOk : Nat := 0
  sessionOpen : Bool := false
  deriving DecidableEq

abbrev PeerTable := Fin 4 → PeerSlot

namespace PeerTable

def find (t : PeerTable) (peerId : Nat) : Option (Fin 4) :=
  if peerId = 0 then none else (finRange 4).find? fun i => (t i).peerId = peerId

/-- The slot that `alloc` empties: a free one, or the one that was not seen for the longest time. -/
def alloc (t : PeerTable) : Fin 4 :=
  match (finRange 4).find? fun i => (t i).peerId = 0 with
  | some i => i
  | none =>
    (finRange 4).foldl (fun oldest i => if (t i).lastSeen < (t oldest).lastSeen then i else oldest)
      0

/-- The slot of a peer, after `touch`. -/
def touch (t : PeerTable) (peerId now : Nat) : Option (Fin 4 × PeerSlot) :=
  if peerId = 0 then none
  else
    match t.find peerId with
    | some i => some (i, { t i with lastSeen := now })
    | none =>
      let i := t.alloc
      let fresh := if (t i).peerId = 0 then t i else {}
      some (i, { fresh with peerId := peerId, lastSeen := now })

def noteRx (t : PeerTable) (peerId now : Nat) : PeerTable :=
  match ((t.find peerId).map fun i => (i, t i)).or (t.touch peerId now) with
  | none => t
  | some (i, s) =>
    update t i { s with lastSeen := now, lastRx := now, rxOk := min (s.rxOk + 1) 0xFFFF }

def setSessionOpen (t : PeerTable) (peerId : Nat) (isOpen : Bool) : PeerTable :=
  match t.find peerId with
  | none => t
  | some i => update t i { t i with sessionOpen := isOpen }

/-- One slot of the table changes: it is the one of the peer, or a free one, or it is taken from
another peer. It counts one frame more. -/
def Counts (t t' : PeerTable) (peer : Nat) : Prop :=
  ∃ i s, t' = update t i s ∧ s.peerId = peer ∧
    s.rxOk = min ((if (t i).peerId = peer ∨ (t i).peerId = 0 then (t i).rxOk else 0) + 1) 0xFFFF

end PeerTable

/-! ## The bus -/

/-- `kInvalidSession` -/
def invalidSession : Int := -1

structure SoftBusSessionSlot where
  peerId : Nat := 0
  sessionId : Int := invalidSession
  isOpen : Bool := false
  deriving DecidableEq

structure SoftBus where
  slots : Fin 4 → SoftBusSessionSlot := fun _ => {}
  stub : SoftBusStub := {}
  peers : PeerTable := fun _ => {}
  rxCount : Nat := 0

namespace SoftBus

def findPeer (b : SoftBus) (peerId : Nat) : Option (Fin 4) :=
  (finRange 4).find? fun i => (b.slots i).peerId = peerId

def registerPeer (b : SoftBus) (peerId now : Nat) : Bool × SoftBus :=
  if peerId = 0 then (false, b)
  else
    match (b.findPeer peerId).or (b.findPeer 0) with
    | none => (false, b)
    | some i =>
      (true, { b with
        slots := update b.slots i { b.slots i with peerId := peerId }
        peers := match b.peers.touch peerId now with
          | some (j, s) => update b.peers j s
          | none => b.peers })

/-- `ensure_session`. The transport opens the session, or there is no transport. -/
def ensureSession (openSession : Option Int) (b : SoftBus) (peerId : Nat) : Int × SoftBus :=
  match b.findPeer peerId with
  | none => (invalidSession, b)
  | some i =>
    if (b.slots i).isOpen ∧ (b.slots i).sessionId ≥ 0 then ((b.slots i).sessionId, b)
    else
      let sid := openSession.getD peerId
      if openSession.isNone ∨ sid ≥ 0 then
        (sid, { b with
          slots := update b.slots i { b.slots i with sessionId := sid, isOpen := true }
          peers := b.peers.setSessionOpen peerId true })
      else (sid, b)

/-- The slots for which the condition holds are closed: `close_peer`, `on_session_closed`. -/
def closeWhere (b : SoftBus) (p : SoftBusSessionSlot → Bool) : SoftBus :=
  (finRange 4).foldl
    (fun b i =>
      if p (b.slots i) then
        { b with
          slots := update b.slots i { b.slots i with isOpen := false, sessionId := invalidSession }
          peers := b.peers.setSessionOpen (b.slots i).peerId false }
      else b)
    b

def closePeer (b : SoftBus) (peerId : Nat) : SoftBus :=
  b.closeWhere fun s => (peerId = 0 ∨ s.peerId = peerId) ∧ s.peerId ≠ 0

def onSessionClosed (b : SoftBus) (sid : Int) : SoftBus := b.closeWhere fun s => s.sessionId = sid

def onSessionOpened (b : SoftBus) (sid result : Int) : SoftBus :=
  if result ≠ 0 then b
  else
    (finRange 4).foldl
      (fun b i =>
        if (b.slots i).sessionId = sid then
          { b with
            slots := update b.slots i { b.slots i with isOpen := true }
            peers := b.peers.setSessionOpen (b.slots i).peerId true }
        else b)
      b

/-- `peer_for_session` -/
def peerForSession (b : SoftBus) (sid : Int) : Nat :=
  match (finRange 4).find? fun i => (b.slots i).sessionId = sid with
  | some i => (b.slots i).peerId
  | none => 0

def onBytesReceived (b : SoftBus) (sid : Int) (data : List UInt8) : SoftBus :=
  match softbusUnpackIntent data with
  | none => b
  | some (intent, framePeer, ts) =>
    let peer := if framePeer = 0 then b.peerForSession sid else framePeer
    { b with
      stub := b.stub.publish peer intent ts
      peers := b.peers.noteRx peer ts
      rxCount := b.rxCount + 1 }

/-! ## Attribution -/

/-- The session belongs to the peer. -/
def Mapped (b : SoftBus) (sid : Int) (peer : Nat) : Prop :=
  sid ≠ invalidSession ∧ peer ≠ 0 ∧ ∃ i, (b.slots i).sessionId = sid ∧ (b.slots i).peerId = peer

/-- A peer that was registered, or that the statistics know. -/
def Known (b : SoftBus) (peer : Nat) : Prop :=
  peer ≠ 0 ∧ ((∃ i, (b.slots i).peerId = peer) ∨ ∃ i, (b.peers i).peerId = peer)

/-- From `b` to `b'` a message of the peer was put in the inbox, and it was counted for the peer.
Messages without a peer are not counted. -/
structure Attributed (b b' : SoftBus) (peer : Nat) : Prop where
  message : b'.stub.newest.peerId = peer
  stats : if peer = 0 then b'.peers = b.peers else PeerTable.Counts b.peers b'.peers peer

end SoftBus

namespace PeerTable

theorem noteRx_counts (t : PeerTable) {peer : Nat} (hpeer : peer ≠ 0) (now : Nat) :
    Counts t (t.noteRx peer now) peer := by
  cases hfind : t.find peer with
  | some i =>
    have hi : (t i).peerId = peer := by
      rw [find, if_neg hpeer] at hfind
      simpa using (Bitmap.find?_finRange hfind).1
    have hnote : t.noteRx peer now = update t i
        { t i with lastSeen := now, lastRx := now, rxOk := min ((t i).rxOk + 1) 0xFFFF } := by
      simp [noteRx, hfind]
    exact ⟨i, _, hnote, hi, by rw [if_pos (.inl hi)]⟩
  | none =>
    have hne : (t t.alloc).peerId ≠ peer := by
      simp only [find, if_neg hpeer, find?_eq_none] at hfind
      simpa using hfind t.alloc (mem_finRange _)
    let fresh : PeerSlot := if (t t.alloc).peerId = 0 then t t.alloc else {}
    have hnote : t.noteRx peer now = update t t.alloc { fresh with
        peerId := peer, lastSeen := now, lastRx := now, rxOk := min (fresh.rxOk + 1) 0xFFFF } := by
      simp [noteRx, touch, hfind, hpeer, fresh]
    refine ⟨t.alloc, _, hnote, rfl, ?_⟩
    by_cases hfree : (t t.alloc).peerId = 0 <;> simp [fresh, hfree, hne, hpeer.symm]

end PeerTable

namespace SoftBus

variable {b : SoftBus} {sid : Int} {data : List UInt8} {intent : Intent} {framePeer ts : Nat}

/-- **Whom a frame is attributed to.** -/
theorem attributed_iff (h : softbusUnpackIntent data = some (intent, framePeer, ts)) (peer : Nat) :
    Attributed b (b.onBytesReceived sid data) peer ↔
      (if framePeer = 0 then b.peerForSession sid else framePeer) = peer := by
  have hmessage : (b.onBytesReceived sid data).stub.newest.peerId =
      if framePeer = 0 then b.peerForSession sid else framePeer := by
    simp [onBytesReceived, h, SoftBusStub.publish, SoftBusStub.newest]
  refine ⟨fun ha => hmessage.symm.trans ha.message, fun heq => ⟨hmessage.trans heq, ?_⟩⟩
  have hpeers : (b.onBytesReceived sid data).peers = b.peers.noteRx peer ts := by
    simp [onBytesReceived, h, heq]
  rw [hpeers]
  split_ifs with hzero
  · simp [hzero, PeerTable.noteRx, PeerTable.find, PeerTable.touch]
  · exact b.peers.noteRx_counts hzero ts

/-- **The session says who has sent a frame** exactly if the frame says the same, or nothing. On a
session of no peer, the frame must not name a known peer, and no registered peer may be without a
session if the frame comes without one. -/
theorem attribution_iff (b : SoftBus) (sid : Int) (data : List UInt8) {intent : Intent}
    {framePeer ts : Nat} (h : softbusUnpackIntent data = some (intent, framePeer, ts)) :
    ((∀ peer, b.Mapped sid peer → Attributed b (b.onBytesReceived sid data) peer) ∧
        ((∀ peer, ¬b.Mapped sid peer) → ∀ peer, b.Known peer →
          ¬Attributed b (b.onBytesReceived sid data) peer)) ↔
      (∀ peer, b.Mapped sid peer → framePeer = peer ∨ framePeer = 0 ∧ b.peerForSession sid = peer) ∧
        ((∀ peer, ¬b.Mapped sid peer) → ¬b.Known framePeer ∧
          (framePeer = 0 → ¬b.Known (b.peerForSession sid))) := by
  simp only [attributed_iff h]
  have hzero : ∀ peer, b.Mapped sid peer → peer ≠ 0 := fun _ hm => hm.2.1
  have hnobody : ¬b.Known 0 := fun hk => hk.1 rfl
  by_cases hframe : framePeer = 0
  · refine and_congr (forall₂_congr fun peer hm => ?_) (imp_congr_right fun _ => ?_)
    · simp [hframe, (hzero peer hm).symm]
    · rw [if_pos hframe, hframe]
      exact ⟨fun hk => ⟨hnobody, fun _ hk' => hk _ hk' rfl⟩,
        fun hk _ hk' heq => hk.2 rfl (heq ▸ hk')⟩
  · refine and_congr (forall₂_congr fun peer hm => ?_) (imp_congr_right fun _ => ?_)
    · simp [hframe]
    · rw [if_neg hframe]
      exact ⟨fun hk => ⟨fun hk' => hk _ hk' rfl, fun h0 => absurd h0 hframe⟩,
        fun hk _ hk' heq => hk.1 (heq ▸ hk')⟩

/-- Peers 7 and 9, with the session of peer 7 open. -/
def twoPeers : SoftBus := (ensureSession none ((registerPeer (registerPeer {} 7 0).2 9 0).2) 7).2

/-- A frame without text that names a peer. -/
def frameOf (peer : UInt8) : List UInt8 :=
  [0x02, 0xFB, 1, 0] ++ replicate 19 0 ++ [0, 0, 0, 0] ++ [peer, 0, 0, 0]

theorem unpack_frameOf_nine : softbusUnpackIntent (frameOf 9) = some ({}, 9, 0) := by decide

theorem attribution_iff_twoPeers :
    Attributed twoPeers (twoPeers.onBytesReceived 7 (frameOf 0)) 7 := by
  have hmapped : twoPeers.Mapped 7 7 := ⟨by decide, by decide, 0, by decide⟩
  have honly : ∀ peer, twoPeers.Mapped 7 peer → 7 = peer := by
    intro peer ⟨_, _, i, hsid, hpeer⟩
    have hi : ∀ i, (twoPeers.slots i).sessionId = 7 → 7 = (twoPeers.slots i).peerId := by decide
    rw [← hpeer]
    exact hi i hsid
  have hframe : softbusUnpackIntent (frameOf 0) = some ({}, 0, 0) := by decide
  refine ((attribution_iff twoPeers 7 (frameOf 0) hframe).2 ⟨fun peer hm => .inr ⟨rfl, ?_⟩, ?_⟩).1 7
    hmapped
  · rw [← honly peer hm]
    decide
  · exact fun hnone => absurd hmapped (hnone 7)

/-- On the session of peer 7, a frame that names peer 9 is taken for one of peer 9; so is a frame on
a session that nobody has opened. -/
theorem forged_sender :
    twoPeers.Mapped 7 7 ∧ Attributed twoPeers (twoPeers.onBytesReceived 7 (frameOf 9)) 9 ∧
      ¬Attributed twoPeers (twoPeers.onBytesReceived 7 (frameOf 9)) 7 ∧
      (∀ peer, ¬twoPeers.Mapped 5 peer) ∧ twoPeers.Known 9 ∧
      Attributed twoPeers (twoPeers.onBytesReceived 5 (frameOf 9)) 9 := by
  refine ⟨⟨by decide, by decide, 0, by decide⟩, (attributed_iff unpack_frameOf_nine 9).2 rfl, ?_,
    ?_, ⟨by decide, .inl ⟨1, by decide⟩⟩, (attributed_iff unpack_frameOf_nine 9).2 rfl⟩
  · rw [attributed_iff unpack_frameOf_nine]
    decide
  · intro peer ⟨_, _, i, hsid, _⟩
    have hi : ∀ i, (twoPeers.slots i).sessionId ≠ 5 := by decide
    exact hi i hsid

end SoftBus

end AuroraOS
