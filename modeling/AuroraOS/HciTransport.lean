import AuroraOS.Lib.Transducer

/-!
# Packets on a serial line

`HciUartTransport::feed_rx_byte` of `net/ble/hci/hci_uart_transport.cpp`: bytes from the radio come
one by one, and complete packets go to `on_hardware_rx`. Sending is left out.

A packet that does not fit in the buffer is delivered cut off, and the rest of it is read as if it
were new packets. `delivered_iff`: the calls are those of the packets of the stream exactly if no
packet is that long.
-/

namespace AuroraOS

open List UInt8

/-! ## The receiver -/

inductive RxState
  | waitPacketType
  | waitEventHeader
  | waitAclHeader
  | waitPayload
  deriving DecidableEq

structure HciUartTransport where
  rxState : RxState
  pktType : UInt8
  rxBuffer : Nat → UInt8
  rxExpectedLen : Nat
  rxCursor : Nat

/-- A call of `on_hardware_rx`: the type of the packet and its bytes. -/
abbrev HardwareRx := UInt8 × List UInt8

namespace HciUartTransport

open Transducer

/-- `sizeof(rx_buffer_)` -/
def bufferSize : Nat := 256

/-- The bytes of the packet that are there so far. -/
def received (t : HciUartTransport) : List UInt8 := (List.range t.rxCursor).map t.rxBuffer

/-- A packet of this type begins. -/
def start (t : HciUartTransport) (byte : UInt8) (rxState : RxState) : HciUartTransport :=
  { t with pktType := byte, rxCursor := 0, rxState }

/-- `rx_buffer_[rx_cursor_++] = byte` -/
def push (t : HciUartTransport) (byte : UInt8) : HciUartTransport :=
  { t with rxBuffer := Function.update t.rxBuffer t.rxCursor byte, rxCursor := t.rxCursor + 1 }

/-- The call, and back to waiting for a packet. -/
def deliver (t : HciUartTransport) : List HardwareRx × HciUartTransport :=
  ([(t.pktType, t.received)], { t with rxState := .waitPacketType })

/-- The header is complete and announces a payload of this length. -/
def headerDone (t : HciUartTransport) (len : Nat) : List HardwareRx × HciUartTransport :=
  if len = 0 then deliver { t with rxExpectedLen := len }
  else ([], { t with rxExpectedLen := len, rxState := .waitPayload })

/-- `header_len` -/
def headerLen (t : HciUartTransport) : Nat := if t.pktType = 0x04 then 2 else 4

def feedRxByte (t : HciUartTransport) (byte : UInt8) : List HardwareRx × HciUartTransport :=
  match t.rxState with
  | .waitPacketType =>
    if byte = 0x04 then ([], t.start byte .waitEventHeader)
    else if byte = 0x02 then ([], t.start byte .waitAclHeader)
    else ([], t)
  | .waitEventHeader =>
    let t := t.push byte
    if t.rxCursor = 2 then t.headerDone (t.rxBuffer 1).toNat else ([], t)
  | .waitAclHeader =>
    let t := t.push byte
    if t.rxCursor = 4 then t.headerDone ((t.rxBuffer 2).toNat ||| (t.rxBuffer 3).toNat <<< 8)
    else ([], t)
  | .waitPayload =>
    let t := t.push byte
    if t.rxCursor = t.headerLen + t.rxExpectedLen ∨ t.rxCursor ≥ bufferSize then t.deliver
    else ([], t)

/-- The calls that a stream of bytes leads to. -/
def calls (t : HciUartTransport) (bytes : List UInt8) : List HardwareRx :=
  emitted feedRxByte t bytes

end HciUartTransport

/-! ## Packets -/

/-- A packet in good form. -/
inductive HciPacket
  | event (code : UInt8) (params : List UInt8) (hlen : params.length < 2 ^ 8)
  | acl (handle : UInt8 × UInt8) (data : List UInt8) (hlen : data.length < 2 ^ 16)

namespace HciPacket

def type : HciPacket → UInt8
  | event .. => 0x04
  | acl .. => 0x02

def payload : HciPacket → List UInt8
  | event _ params _ => params
  | acl _ data _ => data

def header : HciPacket → List UInt8
  | event code params _ => [code, UInt8.ofNat params.length]
  | acl handle data _ =>
    [handle.1, handle.2, UInt8.ofNat data.length, UInt8.ofNat (data.length / 256)]

/-- The packet, without its type. -/
def body (p : HciPacket) : List UInt8 := p.header ++ p.payload

/-- The packets on the line. -/
def stream (packets : List HciPacket) : List UInt8 := packets.flatMap fun p => p.type :: p.body

/-- The packet fits in `rx_buffer_`. -/
def Fits (p : HciPacket) : Prop := p.body.length ≤ HciUartTransport.bufferSize
  deriving Decidable

/-- What a packet is to lead to: a call, unless it is data and too long. -/
def expected : HciPacket → List HardwareRx
  | event code params h => [((event code params h).type, (event code params h).body)]
  | acl handle data h =>
    if (acl handle data h).Fits then [((acl handle data h).type, (acl handle data h).body)] else []

variable {p q : HciPacket}

theorem expected_of_fits (h : p.Fits) : p.expected = [(p.type, p.body)] := by
  cases p with
  | event => rfl
  | acl => simp [expected, h]

theorem ofNat_length_inj {m n : Nat} (h : ofNat m = ofNat n) : m % 256 = n % 256 := by
  simpa using congrArg toNat h

theorem length_body_eq (htype : q.type = p.type) (hbody : q.body.take 4 = p.body.take 4) :
    q.body.length = p.body.length := by
  cases q with
  | event code params hq =>
    cases p with
    | acl => simp [type] at htype
    | event code' params' hp =>
      have hlen : ofNat params.length = ofNat params'.length := by
        simp [body, header, payload] at hbody
        exact hbody.2.1
      have := ofNat_length_inj hlen
      simp only [body, header, payload, length_append, length_cons]
      omega
  | acl handle data hq =>
    cases p with
    | event => simp [type] at htype
    | acl handle' data' hp =>
      have hlen : ofNat data.length = ofNat data'.length ∧
          ofNat (data.length / 256) = ofNat (data'.length / 256) := by
        simp [body, header, payload] at hbody
        exact hbody.2.2
      have hlow := ofNat_length_inj hlen.1
      have hhigh := ofNat_length_inj hlen.2
      simp only [body, header, payload, length_append, length_cons]
      omega

theorem eq_of_mem_expected {call : HardwareRx} (h : call ∈ q.expected) :
    call = (q.type, q.body) := by
  cases q with
  | event => simpa [expected] using h
  | acl =>
    simp only [expected] at h
    split_ifs at h
    · simpa using h
    · simp at h

/-- No packet in good form looks like a long one that was cut off. -/
theorem cut_notMem_expected (h : ¬p.Fits) (packets : List HciPacket) :
    (p.type, p.body.take HciUartTransport.bufferSize) ∉ packets.flatMap expected := by
  intro hmem
  obtain ⟨q, -, hq⟩ := mem_flatMap.1 hmem
  obtain ⟨htype, hbody⟩ := Prod.mk.inj (eq_of_mem_expected hq)
  have hlen := congrArg length hbody
  have hsame : q.body.length = p.body.length := by
    apply length_body_eq htype.symm
    rw [← hbody, take_take]
    rfl
  rw [length_take] at hlen
  rw [Fits] at h
  omega

end HciPacket

namespace HciUartTransport

open Transducer HciPacket

variable {t : HciUartTransport} {p : HciPacket}

/-! ## One packet -/

section

variable (t : HciUartTransport)

@[simp] theorem length_received : t.received.length = t.rxCursor := by
  simp [received]

variable (byte : UInt8)

variable (rxState : RxState)

@[simp] theorem received_start : (t.start byte rxState).received = [] := rfl

@[simp] theorem start_rxState : (t.start byte rxState).rxState = rxState := rfl

@[simp] theorem start_pktType : (t.start byte rxState).pktType = byte := rfl

@[simp] theorem start_rxCursor : (t.start byte rxState).rxCursor = 0 := rfl

@[simp] theorem push_rxState : (t.push byte).rxState = t.rxState := rfl

@[simp] theorem push_pktType : (t.push byte).pktType = t.pktType := rfl

@[simp] theorem push_rxCursor : (t.push byte).rxCursor = t.rxCursor + 1 := rfl

@[simp] theorem received_push : (t.push byte).received = t.received ++ [byte] := by
  have hold : ∀ i ∈ range t.rxCursor,
      Function.update t.rxBuffer t.rxCursor byte i = t.rxBuffer i := by
    intro i hi
    exact Function.update_of_ne (mem_range.1 hi).ne _ _
  simp [received, push, range_succ, map_congr_left hold]

end

/-- Where the payload ends, or the buffer. -/
def limit (t : HciUartTransport) : Nat := min (t.headerLen + t.rxExpectedLen) bufferSize

@[simp] theorem push_limit (t : HciUartTransport) (byte : UInt8) : (t.push byte).limit = t.limit :=
  rfl

theorem feed_payload_byte (hstate : t.rxState = .waitPayload) (hlt : t.rxCursor < t.limit)
    (byte : UInt8) : t.feedRxByte byte =
      if t.rxCursor + 1 = t.limit then (t.push byte).deliver else ([], t.push byte) := by
  have hiff : (t.push byte).rxCursor = (t.push byte).headerLen + (t.push byte).rxExpectedLen ∨
      (t.push byte).rxCursor ≥ bufferSize ↔ t.rxCursor + 1 = t.limit := by
    show t.rxCursor + 1 = t.headerLen + t.rxExpectedLen ∨ t.rxCursor + 1 ≥ bufferSize ↔ _
    rw [limit] at hlt ⊢
    omega
  simp only [feedRxByte, hstate, hiff]

/-- The bytes of a payload, up to its end or the end of the buffer. -/
theorem feed_payload {bytes : List UInt8} (hstate : t.rxState = .waitPayload) (hne : bytes ≠ [])
    (hlen : t.rxCursor + bytes.length = t.limit) :
    t.calls bytes = [(t.pktType, t.received ++ bytes)] ∧
      (final feedRxByte t bytes).rxState = .waitPacketType := by
  induction bytes generalizing t with
  | nil => exact absurd rfl hne
  | cons b bytes ih =>
    rw [length_cons] at hlen
    rw [calls, emitted_cons, final_cons, feed_payload_byte hstate (by omega)]
    cases bytes with
    | nil =>
      rw [if_pos (by simpa using hlen)]
      simp [deliver]
    | cons =>
      have hmore : t.rxCursor + 1 ≠ t.limit := by
        rw [length_cons] at hlen
        omega
      have hrest := ih (t := t.push b) hstate (by simp) (by simp at hlen ⊢; omega)
      rw [if_neg hmore]
      simpa [calls] using hrest

theorem feed_header (hidle : t.rxState = .waitPacketType) (p : HciPacket) :
    ∃ u : HciUartTransport, u.pktType = p.type ∧ u.received = p.header ∧
      t.calls (p.type :: p.header) = (u.headerDone p.payload.length).1 ∧
      final feedRxByte t (p.type :: p.header) = (u.headerDone p.payload.length).2 := by
  cases p with
  | event code params hlen =>
    obtain ⟨u, hu⟩ : ∃ u, u =
        ((t.start 0x04 .waitEventHeader).push code).push (.ofNat params.length) :=
      ⟨_, rfl⟩
    have hlast : (u.rxBuffer 1).toNat = params.length := by
      simpa [hu, push] using hlen
    have hcursor : u.rxCursor = 2 := by simp [hu]
    refine ⟨u, by simp [hu, type], by simp [hu, header], ?_, ?_⟩ <;>
      simp [calls, type, header, payload, feedRxByte, hidle, ← hu, hcursor, hlast]
  | acl handle data hlen =>
    obtain ⟨u, hu⟩ : ∃ u, u = ((((t.start 0x02 .waitAclHeader).push handle.1).push handle.2).push
        (.ofNat data.length)).push (.ofNat (data.length / 256)) := ⟨_, rfl⟩
    have hlast : (u.rxBuffer 2).toNat ||| (u.rxBuffer 3).toNat <<< 8 = data.length := by
      have hlow : data.length % 256 < 2 ^ 8 := Nat.mod_lt _ (by decide)
      simp [hu, push]
      rw [Nat.or_comm, ← Nat.shiftLeft_add_eq_or_of_lt hlow]
      omega
    have hcursor : u.rxCursor = 4 := by simp [hu]
    refine ⟨u, by simp [hu, type], by simp [hu, header], ?_, ?_⟩ <;>
      simp [calls, type, header, payload, feedRxByte, hidle, ← hu, hcursor, hlast]

/-- **One packet.** It is delivered as far as it fits in the buffer, and then the line is idle. -/
theorem feed_packet (hidle : t.rxState = .waitPacketType) (p : HciPacket) :
    t.calls (p.type :: p.body.take bufferSize) = [(p.type, p.body.take bufferSize)] ∧
      (final feedRxByte t (p.type :: p.body.take bufferSize)).rxState = .waitPacketType := by
  obtain ⟨u, htype, hheader, hcalls, hfinal⟩ := feed_header hidle p
  have hlen : p.header.length ≤ 4 := by cases p <;> simp [header]
  have hcut : p.body.take bufferSize =
      p.header ++ p.payload.take (bufferSize - p.header.length) := by
    rw [body, take_append, take_of_length_le (hlen.trans (by decide))]
  rw [hcut, ← cons_append, calls, emitted_append, final_append, hfinal]
  rw [calls] at hcalls
  rw [hcalls]
  by_cases hempty : p.payload = []
  · simp [headerDone, deliver, hempty, received] at hheader ⊢
    exact ⟨htype, hheader⟩
  · -- the payload follows, up to its end or the end of the buffer
    have hpos : p.payload.length ≠ 0 := by simpa using hempty
    have hcursor : u.rxCursor = p.header.length := by rw [← length_received, hheader]
    let w : HciUartTransport :=
      { u with rxExpectedLen := p.payload.length, rxState := .waitPayload }
    have hw : w.headerLen = p.header.length := by
      rw [headerLen, show w.pktType = _ from htype]
      cases p <;> rfl
    have hne : p.payload.take (bufferSize - p.header.length) ≠ [] := by
      rw [← length_pos_iff, length_take, bufferSize]
      omega
    have hlen : w.rxCursor + (p.payload.take (bufferSize - p.header.length)).length = w.limit := by
      show u.rxCursor + _ = min (w.headerLen + p.payload.length) bufferSize
      rw [length_take, bufferSize]
      omega
    have hpayload := feed_payload rfl hne hlen
    have hreceived : w.received = p.header := hheader
    rw [hreceived] at hpayload
    rw [headerDone, if_neg hpos]
    simpa [calls, w, htype] using hpayload

/-! ## A stream of packets -/

/-- **The calls are those of the packets** exactly if every packet fits in the buffer. -/
theorem delivered_iff (t : HciUartTransport) (hidle : t.rxState = .waitPacketType)
    (packets : List HciPacket) :
    t.calls (stream packets) = packets.flatMap expected ↔ ∀ p ∈ packets, p.Fits := by
  induction packets generalizing t with
  | nil => simp [stream, calls]
  | cons p packets ih =>
    obtain ⟨hcalls, hnext⟩ := feed_packet hidle p
    have hsplit : stream (p :: packets) = (p.type :: p.body.take bufferSize) ++
        (p.body.drop bufferSize ++ stream packets) := by
      simp [stream, ← append_assoc]
    rw [calls] at hcalls
    rw [calls, hsplit, emitted_append, hcalls, forall_mem_cons, flatMap_cons]
    by_cases hfits : p.Fits
    · -- the packet is complete, and the rest of the stream is a stream
      have hwhole : p.body.take bufferSize = p.body := take_of_length_le hfits
      have hrest : p.body.drop bufferSize = [] := drop_of_length_le hfits
      rw [hrest, expected_of_fits hfits, hwhole]
      rw [hwhole] at hnext
      simpa [hfits, calls] using ih _ hnext
    · -- it is cut off, and that is no call of a packet
      refine iff_of_false (fun heq => ?_) fun h => hfits h.1
      apply cut_notMem_expected hfits (p :: packets)
      rw [flatMap_cons, ← heq]
      simp

/-- As the constructor leaves it. -/
def new : HciUartTransport := ⟨.waitPacketType, 0, fun _ => 0, 0, 0⟩

/-- A short event and a short data packet. -/
theorem delivered_iff_short :
    let packets := [HciPacket.event 0x13 [] (by decide), .acl (1, 0) [7, 8, 9] (by decide)]
    new.calls (stream packets) = packets.flatMap expected :=
  (delivered_iff new rfl _).2 (by decide)

/-- Data of 255 bytes: the last three of them become an event that nobody sent. And the longest
event is not delivered as it was sent. -/
theorem long_packet_splits :
    let long := HciPacket.acl (0, 0) (replicate 252 0 ++ [0x04, 0x13, 0x00]) (by decide +kernel)
    let event := HciPacket.event 0x3e (replicate 255 0) (by decide +kernel)
    new.calls (stream [long]) = [(0x02, long.body.take 256), (0x04, [0x13, 0x00])] ∧
      [long].flatMap expected = [] ∧
      new.calls (stream [event]) = [(0x04, event.body.take 256)] ∧
      [event].flatMap expected = [(0x04, event.body)] ∧ event.body.take 256 ≠ event.body := by
  intro long event
  obtain ⟨hlong, hidle⟩ := feed_packet (t := new) rfl long
  obtain ⟨hrest, -⟩ := feed_packet hidle (.event 0x13 [] (by decide))
  obtain ⟨hevent, hidle'⟩ := feed_packet (t := new) rfl event
  have hsplit : stream [long] = (long.type :: long.body.take bufferSize) ++ [0x04, 0x13, 0x00] := by
    decide +kernel
  have hsplit' : stream [event] = (event.type :: event.body.take bufferSize) ++ [0x00] := by
    decide +kernel
  rw [calls] at hlong hrest hevent
  refine ⟨?_, by decide +kernel, ?_, rfl, by decide +kernel⟩
  · rw [calls, hsplit, emitted_append, hlong]
    exact congrArg _ hrest
  · have hignored : ∀ u : HciUartTransport, u.rxState = .waitPacketType →
        emitted feedRxByte u [0x00] = [] := by
      intro u hu
      simp [feedRxByte, hu]
    rw [calls, hsplit', emitted_append, hevent, hignored _ hidle']
    rfl

end HciUartTransport

end AuroraOS
