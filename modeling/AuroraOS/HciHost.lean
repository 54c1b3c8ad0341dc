import AuroraOS.Lib.Bitmap
import AuroraOS.Lib.Transducer

/-!
# The host side of HCI

The command builders of `hci_packet.hpp`, the calls of `HalBle` that use them, and the connections
that `hal_ble_impl.cpp` remembers for `hci_event_dispatch.hpp`.

Every caller has a buffer of `HCI_CMD_MAX_LEN` bytes, and the advertising data need three more. The
host has one current connection, and whichever ends, it has none.
-/

namespace AuroraOS.HciHost

open Function Transducer

/-! ## Commands -/

/-- `HCI_CMD_MAX_LEN` -/
def cmdMaxLen : Nat := 32

/-- `BLE_ADV_DATA_MAX` -/
def advDataMax : Nat := 31

/-- The builders and their arguments. Advertising data that are not null are bytes in memory. -/
inductive Command
  | reset
  | leSetAdvertiseEnable (enable : Bool)
  | leSetAdvertisingData (adData : Option (Nat → UInt8)) (adLen : Nat)
  | leSetAdvertisingParameters (connectable : Bool)
  | leSetScanParameters
  | leSetScanEnable (enable filterDuplicates : Bool)
  | disconnect (connectionHandle : BitVec 16) (reason : UInt8)

/-- What all commands start with. -/
def header (opcode : Nat) (paramLen : UInt8) : List (Nat × UInt8) :=
  [(0, UInt8.ofNat opcode), (1, UInt8.ofNat (opcode / 2 ^ 8)), (2, paramLen)]

/-- Bytes written one after the other. -/
def writeFrom (p : Nat) (bytes : List UInt8) : List (Nat × UInt8) :=
  bytes.zipIdx.map fun (b, i) => (p + i, b)

/-- The writes of a builder to its buffer, and the length that it returns. -/
def build : Command → List (Nat × UInt8) × Nat
  | .reset => (header 0x0C03 0, 3)
  | .leSetAdvertiseEnable enable => (header 0x200A 1 ++ [(3, enable.toUInt8)], 4)
  | .leSetAdvertisingData adData adLen =>
    let adLen := min adLen advDataMax
    (header 0x2008 0x20 ++ (3, UInt8.ofNat adLen) :: writeFrom 4 (List.replicate advDataMax 0) ++
      adData.elim [] (fun ad => writeFrom 4 ((List.range adLen).map ad)), 4 + advDataMax)
  | .leSetAdvertisingParameters _ =>
    let params := [0x80, 0, 0xA0, 0, 0, 0, 0] ++ List.replicate 6 0 ++ [7, 0]
    (header 0x2006 0x0F ++ writeFrom 3 params, 3 + params.length)
  | .leSetScanParameters =>
    let params := [1, 0x10, 0, 0x10, 0, 0, 0]
    (header 0x200B 7 ++ writeFrom 3 params, 3 + params.length)
  | .leSetScanEnable enable filterDuplicates =>
    (header 0x200C 2 ++ [(3, enable.toUInt8), (4, filterDuplicates.toUInt8)], 5)
  | .disconnect connectionHandle reason =>
    (header 0x0406 3 ++ [(3, UInt8.ofNat connectionHandle.toNat),
      (4, UInt8.ofNat (connectionHandle.toNat / 2 ^ 8)), (5, reason)], 6)

/-- The calls of `HalBle`. A device name that is not null is what stands in front of its `0`. -/
inductive HalCall
  | init
  | startAdvertising (deviceName : Option (List UInt8))
  | startAdvertisingRaw (adData : Option (Nat → UInt8)) (adLen : Nat)
  | stopAdvertising
  | disconnect

/-- The payload of `start_advertising`: flags, and as much of the name as there is room for. -/
def namePayload (deviceName : Option (List UInt8)) : List UInt8 :=
  let name := (deviceName.getD []).take (advDataMax - 3 - 2)
  [2, 1, 6] ++ if name = [] then [] else UInt8.ofNat (name.length + 1) :: 9 :: name

/-- The commands of a call, with the handle of the current connection and the advertising data
kept. -/
def commands (connHandle : BitVec 16) (advData : Nat → UInt8) : HalCall → List Command
  | .init => [.reset]
  | .startAdvertising deviceName =>
    let ad := namePayload deviceName
    [.leSetAdvertisingParameters true, .leSetAdvertisingData
      (some fun i => ad.getD i (advData i)) ad.length,
      .leSetAdvertiseEnable true]
  | .startAdvertisingRaw adData adLen =>
    let adLen := min adLen advDataMax
    [.leSetAdvertisingParameters true,
      .leSetAdvertisingData (some fun i => if i < adLen then adData.getD advData i else advData i)
        adLen,
      .leSetAdvertiseEnable true]
  | .stopAdvertising => [.leSetAdvertiseEnable false]
  | .disconnect => if connHandle = 0xFFFF then [] else [.disconnect connHandle 0x13]

/-- The builder keeps to the buffer, and its length is that of the header and the parameters. -/
def Bounded (c : Command) : Prop :=
  (∀ w ∈ (build c).1, w.1 < cmdMaxLen) ∧ (∃ v ∈ (build c).1.lookup 2, (build c).2 = 3 + v.toNat) ∧
    (build c).2 ≤ cmdMaxLen

def Command.IsAdvertisingData : Command → Prop
  | .leSetAdvertisingData .. => True
  | _ => False

def HalCall.Advertises : HalCall → Prop
  | .startAdvertising _ | .startAdvertisingRaw .. => True
  | _ => False

theorem bounded_iff (c : Command) : Bounded c ↔ ¬c.IsAdvertisingData := by
  cases c with
  | leSetAdvertisingData adData adLen =>
    refine iff_of_false (fun h => ?_) (fun h => h trivial)
    exact absurd h.2.2 (show ¬4 + 31 ≤ 32 by decide)
  | _ =>
    refine iff_of_true ⟨?_, ⟨_, rfl, rfl⟩, ?_⟩ id
    all_goals simp [build, header, writeFrom, cmdMaxLen]

/-- **All commands keep to their buffers** but the one that sets the advertising data, and with it
all calls but those that start advertising. -/
theorem commands_bounded_iff (connHandle : BitVec 16) (advData : Nat → UInt8) :
    (∀ c, Bounded c ↔ ¬c.IsAdvertisingData) ∧
      ∀ call, (∀ c ∈ commands connHandle advData call, Bounded c) ↔ ¬call.Advertises := by
  refine ⟨bounded_iff, fun call => ?_⟩
  simp only [bounded_iff]
  cases call with
  | disconnect =>
    unfold commands
    split_ifs <;> simp [Command.IsAdvertisingData, HalCall.Advertises]
  | _ => simp [commands, Command.IsAdvertisingData, HalCall.Advertises]

/-- No data are advertised at all, and the last of 31 zeros are written behind the buffer. -/
theorem advertising_overflows : ∃ w ∈ (build (.leSetAdvertisingData none 0)).1,
    cmdMaxLen ≤ w.1 := by
  decide

/-! ## Connections -/

variable {Mac : Type}

/-- The handle of the current connection, and the slots for the addresses of all connections. -/
structure Host (Mac : Type) where
  connHandle : BitVec 16 := 0xFFFF
  connMac : Fin 8 → Option (BitVec 16 × Mac) := fun _ => none

namespace Host

variable (s : Host Mac) (handle : BitVec 16)

def find : Option (Fin 8) := (List.finRange 8).find? fun i => (s.connMac i).any (·.1 == handle)

def rememberConnMac (mac : Mac) : Host Mac :=
  match (s.find handle).or ((List.finRange 8).find? fun i => (s.connMac i).isNone) with
  | some i => { s with connMac := update s.connMac i (some (handle, mac)) }
  | none => s

def takeConnMac : Host Mac :=
  match s.find handle with
  | some i => { s with connMac := update s.connMac i none }
  | none => s

end Host

inductive Event (Mac : Type)
  | leConnectionComplete (status : UInt8) (handle : BitVec 16) (peerAddr : Mac)
  | disconnectionComplete (status : UInt8) (handle : BitVec 16)

def dispatch (s : Host Mac) : Event Mac → Host Mac
  | .leConnectionComplete status handle peerAddr =>
    if status ≠ 0 then s else { s.rememberConnMac handle peerAddr with connHandle := handle }
  | .disconnectionComplete _ handle => { s with connHandle := 0xFFFF }.takeConnMac handle

/-- The live connections, with the addresses of their peers. -/
abbrev Live (Mac : Type) := BitVec 16 → Option Mac

def Live.after (live : Live Mac) : Event Mac → Live Mac
  | .leConnectionComplete status handle peerAddr =>
    if status ≠ 0 then live else update live handle (some peerAddr)
  | .disconnectionComplete status handle => if status ≠ 0 then live else update live handle none

/-- The controller and the host. -/
def step (s : Live Mac × Host Mac) (e : Event Mac) : Unit × Live Mac × Host Mac :=
  ((), s.1.after e, dispatch s.2 e)

/-- At most eight connections are live after the event. -/
def AtMostEight (s : Live Mac × Host Mac) (e : Event Mac) : Prop :=
  ∀ f : Fin 9 → BitVec 16, Injective f → ∃ i, s.1.after e (f i) = none

/-- The host knows the live connections, and has one of them as the current one. -/
structure Agrees (live : Live Mac) (b : Host Mac) : Prop where
  map : ∀ handle mac, (∃ i, b.connMac i = some (handle, mac)) ↔ live handle = some mac
  single : ∀ i j p q, b.connMac i = some p → b.connMac j = some q → p.1 = q.1 → i = j
  current : if b.connHandle = 0xFFFF then ∀ handle, live handle = none else live b.connHandle ≠ none

/-- What should come of an event. -/
def Tracked (s : Live Mac × Host Mac) (e : Event Mac) : Prop :=
  Agrees (s.1.after e) (dispatch s.2 e) ∧
    ∀ status handle, e = .disconnectionComplete status handle → s.1 handle = none →
      dispatch s.2 e = s.2

/-- No connection has the handle 0xFFFF, and only the last one ends. -/
def Sole (s : Live Mac × Host Mac) : Event Mac → Prop
  | .leConnectionComplete status handle _ => status = 0 → handle ≠ 0xFFFF
  | .disconnectionComplete status handle => ∀ other, s.1 other ≠ none → other = handle ∧ status = 0

variable {live : Live Mac} {b : Host Mac} {handle : BitVec 16} {i : Fin 8} {p : BitVec 16 × Mac}

theorem find_some (hfind : b.find handle = some i) : ∃ mac, b.connMac i = some (handle, mac) := by
  have hi := (Bitmap.find?_finRange hfind).1
  cases hslot : b.connMac i with
  | none => simp [hslot] at hi
  | some p =>
    simp only [hslot, Option.any_some, beq_iff_eq] at hi
    exact ⟨p.2, by rw [← hi]⟩

theorem find_none (hfind : b.find handle = none) (hp : b.connMac i = some p) : p.1 ≠ handle := by
  simpa [hp] using List.find?_eq_none.mp hfind i (List.mem_finRange i)

section

variable (h : Agrees live b)

include h

theorem Agrees.live_of_slot (hp : b.connMac i = some p) : live p.1 = some p.2 :=
  (h.map p.1 p.2).mp ⟨i, hp⟩

/-- A new connection gets a slot, and no other slot has its handle. -/
theorem Agrees.slot {mac : Mac}
    (hroom : AtMostEight (live, b) (.leConnectionComplete 0 handle mac)) :
    ∃ i, (b.rememberConnMac handle mac).connMac = update b.connMac i (some (handle, mac)) ∧
      ∀ j p, b.connMac j = some p → (p.1 = handle ↔ j = i) := by
  unfold Host.rememberConnMac
  cases hfind : b.find handle with
  | some i =>
    obtain ⟨old, hold⟩ := find_some hfind
    refine ⟨i, rfl, fun j p hp => ⟨h.single j i p _ hp hold, ?_⟩⟩
    rintro rfl
    rw [← Option.some_inj.mp (hold.symm.trans hp)]
  | none =>
    cases hfree : (List.finRange 8).find? fun i => (b.connMac i).isNone with
    | some i =>
      refine ⟨i, rfl, fun j p hp => iff_of_false (find_none hfind hp) ?_⟩
      rintro rfl
      simpa [hp] using (Bitmap.find?_finRange hfree).1
    | none =>
      -- eight slots are in use, and the new connection is a ninth
      have hused : ∀ i, ∃ p, b.connMac i = some p := by
        intro i
        simpa [Option.ne_none_iff_exists'] using List.find?_eq_none.mp hfree i (List.mem_finRange i)
      choose p hp using hused
      obtain ⟨i, hi⟩ := hroom (Fin.cons handle fun i => (p i).1)
        (Fin.cons_injective_iff.mpr ⟨fun ⟨i, hi⟩ => find_none hfind (hp i) hi,
          fun i j hij => h.single i j _ _ (hp i) (hp j) hij⟩)
      cases i using Fin.cases with
      | zero => simp [Live.after] at hi
      | succ i => simp [Live.after, find_none hfind (hp i), h.live_of_slot (hp i)] at hi

/-- A new connection takes the place of one with its handle. -/
theorem Agrees.remember {mac : Mac}
    (hroom : AtMostEight (live, b) (.leConnectionComplete 0 handle mac)) :
    ∃ i, ∀ j p, (b.rememberConnMac handle mac).connMac j = some p ↔
      j = i ∧ p = (handle, mac) ∨ b.connMac j = some p ∧ p.1 ≠ handle := by
  obtain ⟨i, hremember, hslot⟩ := h.slot hroom
  refine ⟨i, fun j p => ?_⟩
  rw [hremember, and_congr_right fun hp => not_congr (hslot j p hp)]
  by_cases hji : j = i <;> simp [hji, eq_comm]

/-- A disconnection empties the slot of its handle, and there is no current connection any more. -/
theorem Agrees.disconnect (status : UInt8) :
    (dispatch b (.disconnectionComplete status handle)).connHandle = 0xFFFF ∧
      ∀ i p, (dispatch b (.disconnectionComplete status handle)).connMac i = some p ↔
        b.connMac i = some p ∧ p.1 ≠ handle := by
  simp only [dispatch, Host.takeConnMac]
  cases hfind : ({ b with connHandle := 0xFFFF } : Host Mac).find handle with
  | none => exact ⟨rfl, fun i p => (and_iff_left_of_imp fun hp => find_none hfind hp).symm⟩
  | some k =>
    obtain ⟨mac, hk⟩ : ∃ mac, b.connMac k = some (handle, mac) := find_some hfind
    refine ⟨rfl, fun i p => ?_⟩
    by_cases hik : i = k
    · subst hik
      simp only [update_self, reduceCtorEq, hk, Option.some.injEq, false_iff]
      rintro ⟨rfl, hne⟩
      exact hne rfl
    · simp only [update_of_ne hik]
      exact (and_iff_left_of_imp fun hp heq => hik (h.single i k p _ hp hk heq)).symm

theorem Agrees.connected_iff (mac : Mac)
    (hroom : AtMostEight (live, b) (.leConnectionComplete 0 handle mac)) :
    Tracked (live, b) (.leConnectionComplete 0 handle mac) ↔ handle ≠ 0xFFFF := by
  obtain ⟨i, hslots⟩ := h.remember hroom
  simp only [Tracked, dispatch, Live.after, ne_eq, not_true_eq_false, if_false]
  constructor
  · intro htracked hhandle
    simpa using (if_pos hhandle).mp htracked.1.current handle
  · intro hhandle
    refine ⟨⟨?_, ?_, (if_neg hhandle).mpr (by simp)⟩, fun _ _ he => by cases he⟩
    · intro handle' mac'
      simp only [hslots, exists_or, exists_and_right, exists_eq, true_and, h.map,
        Prod.mk.injEq, update_apply]
      by_cases heq : handle' = handle <;> simp [heq, eq_comm]
    · intro j k p q hp hq hpq
      rcases (hslots j p).mp hp with ⟨rfl, rfl⟩ | ⟨hp, hne⟩ <;>
        rcases (hslots k q).mp hq with ⟨rfl, rfl⟩ | ⟨hq, hne'⟩
      · rfl
      · exact absurd hpq.symm hne'
      · exact absurd hpq hne
      · exact h.single j k p q hp hq hpq

theorem Agrees.disconnected_iff (status : UInt8) :
    Tracked (live, b) (.disconnectionComplete status handle) ↔
      ∀ other, live other ≠ none → other = handle ∧ status = 0 := by
  obtain ⟨hcurrent, hslots⟩ := h.disconnect status
  have hlive : ∀ other, live.after (.disconnectionComplete status handle) other = none ↔
      (live other ≠ none → other = handle ∧ status = 0) := by
    intro other
    by_cases hstatus : status = 0 <;> by_cases heq : other = handle <;>
      simp [Live.after, hstatus, heq]
  rw [← forall_congr' hlive]
  constructor
  · intro htracked
    exact (if_pos hcurrent).mp htracked.1.current
  · intro hnone
    have hsole := fun other => (hlive other).mp (hnone other)
    have hempty : ∀ i, (dispatch b (.disconnectionComplete status handle)).connMac i = none := by
      intro i
      rw [Option.eq_none_iff_forall_ne_some]
      intro p hp
      obtain ⟨hold, hne⟩ := (hslots i p).mp hp
      exact hne (hsole p.1 (by simp [h.live_of_slot hold])).1
    refine ⟨⟨by simp [hempty, hnone], by simp [hempty], (if_pos hcurrent).mpr hnone⟩, ?_⟩
    intro _ _ he hdead
    cases he
    have hbefore : b.connHandle = 0xFFFF := by
      by_contra hne
      have hother := (if_neg hne).mp h.current
      exact hother ((hsole _ hother).1 ▸ hdead)
    have hfind : b.find handle = none := by
      rw [Option.eq_none_iff_forall_ne_some]
      intro i hi
      obtain ⟨mac, hmac⟩ := find_some hi
      cases hdead.symm.trans (h.live_of_slot hmac)
    have hhost : ({ b with connHandle := 0xFFFF } : Host Mac) = b := by rw [← hbefore]
    simp only [dispatch, hhost, Host.takeConnMac, hfind]

theorem tracked_iff (e : Event Mac) (hroom : AtMostEight (live, b) e) :
    Tracked (live, b) e ↔ Sole (live, b) e := by
  cases e with
  | leConnectionComplete status handle mac =>
    by_cases hstatus : status = 0
    · subst hstatus
      simpa [Sole] using h.connected_iff mac hroom
    · refine iff_of_true ⟨?_, fun _ _ he => by cases he⟩ fun hzero => absurd hzero hstatus
      simpa [dispatch, Live.after, hstatus] using h
  | disconnectionComplete status handle => exact h.disconnected_iff status

end

/-- **The host keeps track of its connections**, at most eight of them, exactly as long as only the
last one ends. -/
theorem always_tracked_iff (l : List (Event Mac))
    (hroom : Always step AtMostEight (fun _ => none, {}) l) :
    Always step Tracked (fun _ => none, {}) l ↔ Always step Sole (fun _ => none, {}) l := by
  refine always_iff (fun s e h hroom => ⟨tracked_iff h e hroom, And.left⟩) ?_ hroom
  constructor <;> simp

theorem atMostEight_of_one (handle : BitVec 16) {s : Live Mac × Host Mac} {e : Event Mac}
    (h : ∀ other, other ≠ handle → s.1.after e other = none) : AtMostEight s e := by
  intro f hf
  by_cases h0 : f 0 = handle
  · have h1 : f 1 ≠ handle := fun h1 => absurd (hf (h0.trans h1.symm)) (by decide)
    exact ⟨1, h _ h1⟩
  · exact ⟨0, h _ h0⟩

/-- A connection ends, and another begins. -/
theorem two_connections_tracked :
    Always step Tracked (fun _ => none, {}) [.leConnectionComplete 0 5 (),
      .disconnectionComplete 0 5, .leConnectionComplete 0 6 ()] := by
  refine (always_tracked_iff [_, _, _] ⟨atMostEight_of_one 5 fun _ h => ?_,
    atMostEight_of_one 5 fun _ h => ?_, atMostEight_of_one 6 fun _ h => ?_, trivial⟩).mpr
    ⟨fun _ => by decide, fun _ h => ?_, fun _ => by decide, trivial⟩
  all_goals simp_all [step, Live.after, update_apply]

/-- One of two connections ends, and the host has no current connection. -/
theorem connection_forgotten :
    let s := final step (fun _ => none, {}) [.leConnectionComplete 0 1 (),
      .leConnectionComplete 0 2 (), .disconnectionComplete 0 2]
    s.1 1 = some () ∧ s.2.connHandle = 0xFFFF := by
  decide

end AuroraOS.HciHost
