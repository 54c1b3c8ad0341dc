import AuroraOS.Lib.Bitmap
import AuroraOS.Lib.CString
import AuroraOS.Lib.Transducer

/-!
# Beacons of the distributed bus

The part of `DistributedSoftBus` (`net/distributed_bus.hpp`) that decides on a beacon: its
authentication code and its sequence number. A beacon comes here as the fields that the listener has
read from the datagram; the limit on the rate, the capabilities and the sending side are left out.
The code itself (`HmacSha256`) is a parameter.

A device that was silent for more than 30000 ticks may start again at any number, so that its old
beacons are good again, and the end of the window wraps around. `anti_replay` says when that does no
harm.
-/

namespace AuroraOS

open CString Transducer Function

/-- What is asked of an entry is asked of the entry that there is, not of every pair of words. -/
instance decidableForallEntry (p : BitVec 32 × BitVec 32 → Prop) [DecidablePred p] :
    ∀ e : Option (BitVec 32 × BitVec 32), Decidable (∀ a ∈ e, p a)
  | none => .isTrue (by simp)
  | some a => decidable_of_iff (p a) (by simp)

/-! ## The table against replays -/

structure ReplayEntry where
  deviceId : List Char := []
  lastSeq : BitVec 32 := 0
  lastActiveTick : BitVec 32 := 0
  valid : Bool := false

/-- The entry is in use, for this device. -/
def ReplayEntry.IsFor (id : List Char) (e : ReplayEntry) : Prop :=
  e.valid ∧ strncmpEq e.deviceId id 31
  deriving Decidable

abbrev ReplayTable := Fin 16 → ReplayEntry

namespace ReplayTable

/-- `REPLAY_WINDOW` -/
def replayWindow : BitVec 32 := 32

/-- The first entry for the device. -/
def find (t : ReplayTable) (id : List Char) : Option (Fin 16) :=
  (List.finRange 16).find? fun i => (t i).IsFor id

/-- The first entry that is not in use. -/
def findFree (t : ReplayTable) : Option (Fin 16) := (List.finRange 16).find? fun i => !(t i).valid

def checkAndUpdateSeq (t : ReplayTable) (id : List Char) (seq now : BitVec 32) :
    Bool × ReplayTable :=
  match t.find id with
  | some i =>
    let seen : ReplayTable := Function.update t i { t i with lastSeq := seq, lastActiveTick := now }
    if now - (t i).lastActiveTick > 30000 then (true, seen)
    else if seq ≤ (t i).lastSeq then (false, t)
    else if seq > (t i).lastSeq + replayWindow then (false, t)
    else (true, seen)
  | none =>
    match t.findFree with
    | some i => (true, Function.update t i ⟨id.take 31, seq, now, true⟩)
    | none => (false, t)

/-- What the table knows of a device: the last number, and when it came. -/
def lookup (t : ReplayTable) (id : List Char) : Option (BitVec 32 × BitVec 32) :=
  (t.find id).map fun i => ((t i).lastSeq, (t i).lastActiveTick)

end ReplayTable

theorem ReplayEntry.isFor_congr {id id' : List Char} (h : id'.take 31 = id.take 31)
    (e : ReplayEntry) :
    e.IsFor id' ↔ e.IsFor id := by
  simp [ReplayEntry.IsFor, strncmpEq, h]

/-! ## The bus -/

structure DistributedSoftBus where
  keySlots : Fin 2 → Option (List UInt8) := fun _ => none
  activeSlot : Fin 2 := 0
  replayTable : ReplayTable := fun _ => {}

structure Beacon where
  deviceId : List Char
  auth : List Char
  seq : BitVec 32
  deriving DecidableEq

/-- `HmacSha256` of a key and a message. -/
abbrev Hmac := List UInt8 → List UInt8 → Vector UInt8 32

namespace DistributedSoftBus

def hexNibble (c : Char) : Option Nat :=
  if '0' ≤ c ∧ c ≤ '9' then some (c.toNat - '0'.toNat)
  else if 'a' ≤ c ∧ c ≤ 'f' then some (c.toNat - 'a'.toNat + 10)
  else if 'A' ≤ c ∧ c ≤ 'F' then some (c.toNat - 'A'.toNat + 10)
  else none

/-- The 32 bytes that 64 digits stand for. Behind the end of the string there is no digit. -/
def decodeHex (hex : List Char) : Option (List UInt8) :=
  (List.range 32).mapM fun i => do
    let hi ← hex[i * 2]?.bind hexNibble
    let lo ← hex[i * 2 + 1]?.bind hexNibble
    some (UInt8.ofNat (hi <<< 4 ||| lo))

def seqBytes (seq : BitVec 32) : List UInt8 :=
  [UInt8.ofNat (seq.toNat >>> 24), UInt8.ofNat (seq.toNat >>> 16), UInt8.ofNat (seq.toNat >>> 8),
    UInt8.ofNat seq.toNat]

/-- `constant_time_eq` -/
def constantTimeEq (a b : List UInt8) : Bool := (List.zipWith (· ^^^ ·) a b).foldl (· ||| ·) 0 == 0

def verifyHmac (hmac : Hmac) (bus : DistributedSoftBus) (challenge hmacHex : List Char)
    (seq : BitVec 32) : Bool :=
  match bus.keySlots bus.activeSlot with
  | none => false
  | some key =>
    let computed := hmac key ((challenge.take 31).map (UInt8.ofNat ·.toNat) ++ seqBytes seq)
    match decodeHex hmacHex with
    | none => false
    | some received => constantTimeEq computed.toList received

def validateDeviceId (id : List Char) : Bool :=
  let len := min id.length 32
  len ≠ 0 && len ≠ 32 && id.all fun c =>
    'a' ≤ c ∧ c ≤ 'z' ∨ 'A' ≤ c ∧ c ≤ 'Z' ∨ '0' ≤ c ∧ c ≤ '9' ∨ c = '_' ∨ c = '-'

/-- What the listener asks of a beacon, apart from its number. -/
def authentic (hmac : Hmac) (bus : DistributedSoftBus) (b : Beacon) : Bool :=
  validateDeviceId b.deviceId && bus.verifyHmac hmac b.deviceId b.auth b.seq

/-- The decision of `listener_task` on a beacon at a tick. -/
def receive (hmac : Hmac) (bus : DistributedSoftBus) (p : Beacon × BitVec 32) :
    Bool × DistributedSoftBus :=
  if bus.authentic hmac p.1 then
    let r := bus.replayTable.checkAndUpdateSeq p.1.deviceId p.1.seq p.2
    (r.1, { bus with replayTable := r.2 })
  else (false, bus)

end DistributedSoftBus

namespace ReplayTable

variable {t : ReplayTable} {id id' : List Char} {seq now : BitVec 32} {i : Fin 16}
  {ids : Finset (List Char)}

variable {t' : ReplayTable} {name : List Char}

/-! ## The table as a map -/

theorem isFor_of_find (h : t.find id = some i) : (t i).IsFor id := by
  simpa using (Bitmap.find?_finRange h).1

theorem find_eq_none_iff : t.find id = none ↔ ∀ i, ¬(t i).IsFor id := by
  simp [find]

theorem find_congr (h : ∀ j, (t' j).IsFor id' ↔ (t j).IsFor id) : t'.find id' = t.find id := by
  simp only [find, h]

/-- After a write to the entry of a device, or to a free entry for a new device, the entry is
found. -/
theorem find_update {e : ReplayEntry} (he : e.IsFor id)
    (hold : t.find id = some i ∨ t.find id = none ∧ (t i).valid = false) :
    find (update t i e) id = some i := by
  rcases hold with hfind | ⟨hnone, -⟩
  · rw [← hfind]
    apply find_congr
    intro j
    by_cases hj : j = i
    · subst hj
      simp [he, isFor_of_find hfind]
    · rw [update_of_ne hj]
  · cases hnew : find (update t i e) id with
    | none => exact absurd (by simpa using he) (find_eq_none_iff.1 hnew i)
    | some j =>
      by_cases hj : j = i
      · rw [hj]
      · have hfor := isFor_of_find hnew
        rw [update_of_ne hj] at hfor
        exact absurd hfor (find_eq_none_iff.1 hnone j)

theorem lookup_update {e : ReplayEntry} (he : e.IsFor id)
    (hold : t.find id = some i ∨ t.find id = none ∧ (t i).valid = false) (id' : List Char) :
    lookup (update t i e) id' =
      if id'.take 31 = id.take 31 then some (e.lastSeq, e.lastActiveTick) else t.lookup id' := by
  split_ifs with hid
  · have hfind : find (update t i e) id' = some i := by
      rw [← find_update he hold]
      exact find_congr fun j => ReplayEntry.isFor_congr hid _
    simp [lookup, hfind]
  · -- the entry is for another device before and after
    have hne : ¬(t i).IsFor id' := by
      rintro ⟨hvalid, hsame⟩
      rcases hold with hfind | ⟨-, hfree⟩
      · exact hid (hsame.symm.trans (isFor_of_find hfind).2)
      · simp [hfree] at hvalid
    have hne' : ¬e.IsFor id' := fun h => hid (h.2.symm.trans he.2)
    have hfind : find (update t i e) id' = t.find id' := by
      apply find_congr
      intro j
      by_cases hj : j = i
      · subst hj
        simp [hne, hne']
      · rw [update_of_ne hj]
    rw [lookup, lookup, hfind]
    cases hj : t.find id' with
    | none => rfl
    | some j =>
      have hji : j ≠ i := fun h => hne (h ▸ isFor_of_find hj)
      simp [update_of_ne hji]

/-- What is asked of the number of a device that is known. -/
def Timely (e : BitVec 32 × BitVec 32) (seq now : BitVec 32) : Prop :=
  now - e.2 > 30000 ∨ e.1 < seq ∧ seq ≤ e.1 + replayWindow

/-- The number is noted in the entry of the device, or in a free entry. -/
structure Noted (t t' : ReplayTable) (id : List Char) (seq now : BitVec 32) (i : Fin 16)
    (name : List Char) : Prop where
  eq : t' = Function.update t i ⟨name, seq, now, true⟩
  entry : t.find id = some i ∧ name = (t i).deviceId ∨
    t.find id = none ∧ (t i).valid = false ∧ name = id.take 31

theorem Noted.isFor (h : Noted t t' id seq now i name) :
    ReplayEntry.IsFor id ⟨name, seq, now, true⟩ := by
  refine ⟨rfl, ?_⟩
  rcases h.entry with ⟨hfind, rfl⟩ | ⟨-, -, rfl⟩
  · exact (isFor_of_find hfind).2
  · simp [strncmpEq]

theorem Noted.lookup (h : Noted t t' id seq now i name) (id' : List Char) :
    t'.lookup id' = if id'.take 31 = id.take 31 then some (seq, now) else t.lookup id' := by
  rw [h.eq]
  exact lookup_update h.isFor (h.entry.imp (·.1) fun hc => ⟨hc.1, hc.2.1⟩) id'

/-- What a number has to satisfy. -/
def Admits (t : ReplayTable) (id : List Char) (seq now : BitVec 32) : Prop :=
  match t.lookup id with
  | some e => Timely e seq now
  | none => ∃ i, (t i).valid = false

/-- **The two outcomes** of `check_and_update_seq`. -/
theorem check_cases (t : ReplayTable) (id : List Char) (seq now : BitVec 32) :
    (t.Admits id seq now ∧ (t.checkAndUpdateSeq id seq now).1 = true ∧
        ∃ i name, Noted t (t.checkAndUpdateSeq id seq now).2 id seq now i name) ∨
      (¬t.Admits id seq now ∧ t.checkAndUpdateSeq id seq now = (false, t)) := by
  unfold Admits lookup checkAndUpdateSeq
  cases hfind : t.find id with
  | some i =>
    have hvalid := (isFor_of_find hfind).1
    have hnoted : Noted t (update t i { t i with lastSeq := seq, lastActiveTick := now }) id seq now
        i (t i).deviceId := by
      refine ⟨?_, .inl ⟨hfind, rfl⟩⟩
      rw [← hvalid]
    simp only [Option.map_some, Timely]
    split_ifs with hlong hold
    · exact .inl ⟨.inl hlong, rfl, i, _, hnoted⟩
    · exact .inr ⟨by bv_omega, rfl⟩
    · exact .inr ⟨by bv_omega, rfl⟩
    · exact .inl ⟨by bv_omega, rfl, i, _, hnoted⟩
  | none =>
    cases hfree : t.findFree with
    | some i =>
      have hinvalid : (t i).valid = false := by simpa using (Bitmap.find?_finRange hfree).1
      exact .inl ⟨⟨i, hinvalid⟩, rfl, i, _, rfl, .inr ⟨hfind, hinvalid, rfl⟩⟩
    | none => exact .inr ⟨by simpa [findFree] using hfree, rfl⟩

theorem lookup_congr (h : id'.take 31 = id.take 31) : t.lookup id' = t.lookup id := by
  have hfind : t.find id' = t.find id := find_congr fun j => ReplayEntry.isFor_congr h _
  rw [lookup, lookup, hfind]

/-! ## Room in the table -/

/-- Every entry in use is for a device of its own, out of a set. -/
structure Distinct (t : ReplayTable) (ids : Finset (List Char)) : Prop where
  mem : ∀ i, (t i).valid → (t i).deviceId ∈ ids ∧ (t i).deviceId.length ≤ 31
  inj : ∀ i j, (t i).valid → (t j).valid → (t i).deviceId = (t j).deviceId → i = j

theorem Distinct.noted (h : t.Distinct ids)
    (hn : Noted t t' id seq now i name) (hid : id ∈ ids) (hlen : id.length ≤ 31) :
    t'.Distinct ids := by
  obtain ⟨rfl, hentry⟩ := hn
  -- the entry that is written is for no device that another entry is for
  have hnew : (name ∈ ids ∧ name.length ≤ 31) ∧
      ∀ j, (t j).valid → name = (t j).deviceId → i = j := by
    rcases hentry with ⟨hfind, rfl⟩ | ⟨hnone, -, rfl⟩
    · have hvalid := (isFor_of_find hfind).1
      exact ⟨h.mem i hvalid, fun j hj heq => h.inj i j hvalid hj heq⟩
    · rw [List.take_of_length_le hlen]
      refine ⟨⟨hid, hlen⟩, fun j hj heq => ?_⟩
      exact absurd ⟨hj, by rw [← heq, strncmpEq]⟩ (find_eq_none_iff.1 hnone j)
  constructor
  · intro j hj
    by_cases hji : j = i
    · subst hji
      simpa using hnew.1
    · rw [update_of_ne hji] at hj ⊢
      exact h.mem j hj
  · intro j k hj hk heq
    by_cases hji : j = i <;> by_cases hki : k = i
    · rw [hji, hki]
    · subst hji
      rw [update_self, update_of_ne hki] at heq
      rw [update_of_ne hki] at hk
      exact hnew.2 k hk heq
    · subst hki
      rw [update_self, update_of_ne hji] at heq
      rw [update_of_ne hji] at hj
      exact (hnew.2 j hj heq.symm).symm
    · rw [update_of_ne hji] at hj heq
      rw [update_of_ne hki] at hk heq
      exact h.inj j k hj hk heq

/-- If not all devices of the set are in the table, and there are no more than entries, one is
free. -/
theorem Distinct.exists_free (h : t.Distinct ids) (hcard : ids.card ≤ 16)
    (hid : id ∈ ids) (hnone : t.lookup id = none) : ∃ i, (t i).valid = false := by
  by_contra hfull
  simp only [not_exists, Bool.not_eq_false] at hfull
  have hmaps : ∀ i : Fin 16, (t i).deviceId ∈ ids.erase id := by
    intro i
    refine Finset.mem_erase.2 ⟨fun heq => ?_, (h.mem i (hfull i)).1⟩
    have hfind : t.find id = none := by simpa [lookup] using hnone
    exact find_eq_none_iff.1 hfind i ⟨hfull i, by rw [heq, strncmpEq]⟩
  have hle := Finset.card_le_card_of_injOn (s := Finset.univ) (fun i => (t i).deviceId)
    (fun i _ => hmaps i) fun i _ j _ heq => h.inj i j (hfull i) (hfull j) heq
  rw [Finset.card_univ, Fintype.card_fin, Finset.card_erase_of_mem hid] at hle
  omega

end ReplayTable

namespace DistributedSoftBus

open ReplayTable

variable {hmac : Hmac} {bus bus' : DistributedSoftBus} {p : Beacon × BitVec 32} {id : List Char}

/-! ## One beacon -/

theorem length_of_authentic {b : Beacon} (h : bus.authentic hmac b) : b.deviceId.length ≤ 31 := by
  simp only [authentic, validateDeviceId, Bool.and_eq_true, decide_eq_true_eq] at h
  omega

theorem receive_of_not_authentic (h : ¬bus.authentic hmac p.1) :
    bus.receive hmac p = (false, bus) :=
  if_neg h

theorem receive_cases (h : bus.authentic hmac p.1) :
    (bus.replayTable.Admits p.1.deviceId p.1.seq p.2 ∧ (bus.receive hmac p).1 = true ∧
        ∃ i name, Noted bus.replayTable (bus.receive hmac p).2.replayTable p.1.deviceId
          p.1.seq p.2 i name) ∨
      (¬bus.replayTable.Admits p.1.deviceId p.1.seq p.2 ∧ bus.receive hmac p = (false, bus)) := by
  rw [receive, if_pos h]
  rcases check_cases bus.replayTable p.1.deviceId p.1.seq p.2 with hc | ⟨hnot, hc⟩
  · exact .inl hc
  · refine .inr ⟨hnot, ?_⟩
    rw [hc]

theorem receive_of_false (h : (bus.receive hmac p).1 = false) : (bus.receive hmac p).2 = bus := by
  by_cases hauth : bus.authentic hmac p.1
  · rcases receive_cases hauth with ⟨-, hacc, -⟩ | ⟨-, heq⟩
    · rw [hacc] at h
      cases h
    · rw [heq]
  · rw [receive_of_not_authentic hauth]

theorem receive_of_true (h : (bus.receive hmac p).1 = true) :
    bus.authentic hmac p.1 ∧ bus.replayTable.Admits p.1.deviceId p.1.seq p.2 ∧
      ∀ id', (bus.receive hmac p).2.replayTable.lookup id' =
        if id'.take 31 = p.1.deviceId.take 31 then some (p.1.seq, p.2)
        else bus.replayTable.lookup id' := by
  by_cases hauth : bus.authentic hmac p.1
  · rcases receive_cases hauth with ⟨hadm, -, i, name, hnoted⟩ | ⟨-, heq⟩
    · exact ⟨hauth, hadm, hnoted.lookup⟩
    · rw [heq] at h
      cases h
  · rw [receive_of_not_authentic hauth] at h
    cases h

theorem authentic_receive (b : Beacon) :
    (bus.receive hmac p).2.authentic hmac b = bus.authentic hmac b := by
  by_cases hauth : bus.authentic hmac p.1
  · rw [receive, if_pos hauth]
    rfl
  · rw [receive_of_not_authentic hauth]

/-! ## Replays -/

/-- If the device was silent for too long, it has not started again at a number that it had
passed. -/
def Rising (hmac : Hmac) (bus : DistributedSoftBus) (p : Beacon × BitVec 32) : Prop :=
  bus.authentic hmac p.1 →
    ∀ e ∈ bus.replayTable.lookup p.1.deviceId, p.2 - e.2 > 30000 → e.1 < p.1.seq
  deriving Decidable

theorem accepted_rising {run : List (Beacon × BitVec 32)}
    (h : Always (receive hmac) (Rising hmac) bus run) :
    (accepted (receive hmac) bus run).Pairwise fun p q =>
      p.1.deviceId = q.1.deviceId → p.1.seq < q.1.seq := by
  refine (accepted_pairwise
    (I := fun bus p => ∀ e ∈ bus.replayTable.lookup p.1.deviceId, e.1 < p.1.seq) ?_ ?_ h).1
  · intro bus p hrising hacc
    obtain ⟨hauth, hadm, hlookup⟩ := receive_of_true hacc
    have hless : ∀ e ∈ bus.replayTable.lookup p.1.deviceId, e.1 < p.1.seq := by
      intro e he
      rw [Admits, show bus.replayTable.lookup p.1.deviceId = some e from he] at hadm
      rcases hadm with hlong | ⟨hlt, -⟩
      · exact hrising hauth e he hlong
      · exact hlt
    refine ⟨hless, fun q hq => ?_⟩
    rw [hlookup] at hq
    split_ifs at hq with hid
    · have hlt := hq _ rfl
      refine ⟨fun e he => ?_, fun _ => hlt⟩
      rw [lookup_congr hid] at he
      exact BitVec.lt_trans (hless e he) hlt
    · exact ⟨hq, fun heq => absurd (by rw [heq]) hid⟩
  · intro bus p hrej q hq
    rwa [receive_of_false hrej] at hq

/-! ## A device that sends one number after the other -/

/-- A beacon of the device, not one that somebody made up. -/
def Own (hmac : Hmac) (bus : DistributedSoftBus) (id : List Char) (p : Beacon × BitVec 32) : Prop :=
  p.1.deviceId = id ∧ bus.authentic hmac p.1
  deriving Decidable

/-- The last number that the device has sent, and when. Old beacons that turn up again do not
count. -/
def nextOwn (hmac : Hmac) (bus : DistributedSoftBus) (id : List Char)
    (last : Option (BitVec 32 × BitVec 32))
    (p : Beacon × BitVec 32) : Unit × Option (BitVec 32 × BitVec 32) :=
  ((), if Own hmac bus id p ∧ ∀ e ∈ last, e.1 < p.1.seq then some (p.1.seq, p.2) else last)

/-- A beacon of the device comes within 30000 ticks after the last new one. It has the next number,
or it is an old one that somebody has kept. -/
def Steady (hmac : Hmac) (bus : DistributedSoftBus) (id : List Char)
    (last : Option (BitVec 32 × BitVec 32)) (p : Beacon × BitVec 32) : Prop :=
  Own hmac bus id p → ∀ e ∈ last,
    p.2 - e.2 ≤ 30000 ∧ (p.1.seq ≤ e.1 ∨ p.1.seq.toNat = e.1.toNat + 1)
  deriving Decidable

/-- The window above the last number does not wrap around. -/
def WindowFits (hmac : Hmac) (bus : DistributedSoftBus) (id : List Char)
    (last : Option (BitVec 32 × BitVec 32)) (p : Beacon × BitVec 32) : Prop :=
  Own hmac bus id p → ∀ e ∈ last, e.1 < p.1.seq → e.1.toNat + 32 < 2 ^ 32
  deriving Decidable

/-- The devices of a run. -/
def devices (hmac : Hmac) (bus : DistributedSoftBus) (run : List (Beacon × BitVec 32)) :
    Finset (List Char) :=
  ((run.filter fun p => bus.authentic hmac p.1).map (·.1.deviceId)).toFinset

/-- The table knows the last number of the device. -/
structure Tracks (hmac : Hmac) (bus : DistributedSoftBus) (id : List Char)
    (ids : Finset (List Char))
    (s : DistributedSoftBus) (last : Option (BitVec 32 × BitVec 32)) : Prop where
  keys : ∀ b, s.authentic hmac b = bus.authentic hmac b
  lookup : s.replayTable.lookup id = last
  distinct : s.replayTable.Distinct ids

section Tracks

variable {ids : Finset (List Char)} {s : DistributedSoftBus} {last : Option (BitVec 32 × BitVec 32)}

/-- A beacon of the device is accepted iff it is new. -/
theorem Tracks.admits_iff (h : Tracks hmac bus id ids s last) (hcard : ids.card ≤ 16)
    (hown : Own hmac bus id p) (hmem : p.1.deviceId ∈ ids) (hsteady : Steady hmac bus id last p)
    (hfits : WindowFits hmac bus id last p) :
    s.replayTable.Admits p.1.deviceId p.1.seq p.2 ↔ ∀ e ∈ last, e.1 < p.1.seq := by
  have hlookup : s.replayTable.lookup p.1.deviceId = last := by rw [hown.1, h.lookup]
  rw [Admits, hlookup]
  cases last with
  | none => simpa using h.distinct.exists_free hcard hmem hlookup
  | some e =>
    obtain ⟨hgap, hnumber⟩ := hsteady hown e rfl
    have hwin := hfits hown e rfl
    simp only [Timely, replayWindow, Option.mem_some_iff, forall_eq']
    bv_omega

theorem Tracks.receive (h : Tracks hmac bus id ids s last) (hcard : ids.card ≤ 16)
    (hlen : id.length ≤ 31)
    (hmem : bus.authentic hmac p.1 → p.1.deviceId ∈ ids) (hsteady : Steady hmac bus id last p)
    (hfits : WindowFits hmac bus id last p) :
    Tracks hmac bus id ids (s.receive hmac p).2 (nextOwn hmac bus id last p).2 := by
  by_cases hauth : s.authentic hmac p.1
  · have hauth' : bus.authentic hmac p.1 := by rw [← h.keys, hauth]
    have hkeys : ∀ b, (s.receive hmac p).2.authentic hmac b = bus.authentic hmac b := by
      intro b
      rw [authentic_receive, h.keys]
    by_cases hown : Own hmac bus id p
    · have hadmits := h.admits_iff hcard hown (hmem hauth') hsteady hfits
      rcases receive_cases hauth with ⟨hadm, -, i, name, hnoted⟩ | ⟨hrej, heq⟩
      · rw [nextOwn, if_pos ⟨hown, hadmits.1 hadm⟩]
        refine ⟨hkeys, ?_, h.distinct.noted hnoted (hmem hauth') (length_of_authentic hauth)⟩
        rw [hnoted.lookup, if_pos (by rw [hown.1])]
      · rw [nextOwn, if_neg (fun hc => hrej (hadmits.2 hc.2)), heq]
        exact h
    · rw [nextOwn, if_neg (fun hc => hown hc.1)]
      rcases receive_cases hauth with ⟨-, -, i, name, hnoted⟩ | ⟨-, heq⟩
      · refine ⟨hkeys, ?_, h.distinct.noted hnoted (hmem hauth') (length_of_authentic hauth)⟩
        -- both names are short, so that they differ in the part that is compared
        have hne : id.take 31 ≠ p.1.deviceId.take 31 := by
          rw [List.take_of_length_le hlen, List.take_of_length_le (length_of_authentic hauth)]
          exact fun heq => hown ⟨heq.symm, hauth'⟩
        rw [hnoted.lookup, if_neg hne, h.lookup]
      · rw [heq]
        exact h
  · have hown : ¬Own hmac bus id p := fun hown => hauth (by rw [h.keys, hown.2])
    rw [nextOwn, if_neg (fun hc => hown hc.1), receive_of_not_authentic hauth]
    exact h

end Tracks

theorem exists_of_final_nextOwn {pre : List (Beacon × BitVec 32)} {e : BitVec 32 × BitVec 32}
    (h : e ∈ final (nextOwn hmac bus id) none pre) :
    ∃ q ∈ pre, Own hmac bus id q ∧ q.1.seq = e.1 := by
  induction pre using List.reverseRecOn with
  | nil => simp at h
  | append_singleton pre p ih =>
    rw [final_append, final_cons, nextOwn] at h
    split_ifs at h with hown
    · cases h
      exact ⟨p, by simp, hown.1, rfl⟩
    · obtain ⟨q, hq, hq'⟩ := ih h
      exact ⟨q, by simp [hq], hq'⟩

/-- **No beacon is accepted twice, and no new one is lost.** -/
theorem anti_replay (hmac : Hmac) (keySlots : Fin 2 → Option (List UInt8)) (activeSlot : Fin 2)
    (run : List (Beacon × BitVec 32)) :
    let bus : DistributedSoftBus := { keySlots, activeSlot }
    (Always (receive hmac) (Rising hmac) bus run →
        ((accepted (receive hmac) bus run).map fun p => (p.1.deviceId, p.1.seq)).Nodup) ∧
      ∀ id, (devices hmac bus run).card ≤ 16 →
        Always (nextOwn hmac bus id) (Steady hmac bus id) none run →
        Always (nextOwn hmac bus id) (WindowFits hmac bus id) none run →
        ∀ pre p post, run = pre ++ p :: post → Own hmac bus id p →
          (∀ q ∈ pre, Own hmac bus id q → q.1.seq < p.1.seq) →
          ((final (receive hmac) bus pre).receive hmac p).1 = true := by
  intro bus
  constructor
  · intro h
    rw [List.nodup_iff_pairwise_ne, List.pairwise_map]
    refine (accepted_rising h).imp fun hlt heq => ?_
    obtain ⟨hid, hseq⟩ := Prod.mk.inj heq
    exact absurd (hseq ▸ hlt hid) (BitVec.lt_irrefl _)
  · intro id hcard hsteady hfits pre p post hrun hown hnew
    have hmem : ∀ q ∈ run, bus.authentic hmac q.1 → q.1.deviceId ∈ devices hmac bus run := by
      intro q hq hauth
      simp only [devices, List.mem_toFinset, List.mem_map, List.mem_filter]
      exact ⟨q, ⟨hq, hauth⟩, rfl⟩
    have hlen : id.length ≤ 31 := hown.1 ▸ length_of_authentic hown.2
    have hpre : pre ⊆ run := by simp [hrun]
    rw [hrun, always_append] at hsteady hfits
    have htracks : Tracks hmac bus id (devices hmac bus run) (final (receive hmac) bus pre)
        (final (nextOwn hmac bus id) none pre) := by
      refine rel_final (P := fun last q => (Steady hmac bus id last q ∧
        WindowFits hmac bus id last q) ∧
        q ∈ run) ?_ ⟨fun _ => rfl, rfl, by simp [bus], by simp [bus]⟩
        ((hsteady.1.and hfits.1).and (always_of_forall (fun q hq _ => hpre hq) none))
      intro s last q h hq
      exact h.receive hcard hlen (hmem q hq.2) hq.1.1 hq.1.2
    have hadm := (htracks.admits_iff hcard hown (hmem p (by simp [hrun]) hown.2) hsteady.2.1
        hfits.2.1).2 (by
      intro e he
      obtain ⟨q, hq, hq', heq⟩ := exists_of_final_nextOwn he
      exact heq ▸ hnew q hq hq')
    have hauth : (final (receive hmac) bus pre).authentic hmac p.1 := by rw [htracks.keys, hown.2]
    rcases receive_cases hauth with ⟨-, hacc, -⟩ | ⟨hrej, -⟩
    · exact hacc
    · exact absurd hadm hrej

/-! ## The watch -/

/-- A code that is the same for every message. -/
def zeroHmac : Hmac := fun _ _ => Vector.replicate 32 0

def sharedKey : Fin 2 → Option (List UInt8) := fun _ => some [1]

/-- A beacon of the watch. -/
def watchBeacon (seq : BitVec 32) : Beacon := ⟨['w'], List.replicate 64 '0', seq⟩

theorem anti_replay_watch :
    let bus : DistributedSoftBus := { keySlots := sharedKey }
    let run := [(watchBeacon 1, 0), (watchBeacon 2, 30000), (watchBeacon 1, 30001)]
    ((accepted (receive zeroHmac) bus run).map fun p => (p.1.deviceId, p.1.seq)).Nodup ∧
      ((final (receive zeroHmac) bus [(watchBeacon 1, 0)]).receive zeroHmac
        (watchBeacon 2, 30000)).1 = true := by
  intro bus run
  obtain ⟨honce, hnew⟩ := anti_replay zeroHmac sharedKey 0 run
  refine ⟨honce (by decide +kernel), ?_⟩
  exact hnew ['w'] (by decide +kernel) (by decide +kernel) (by decide +kernel) [(watchBeacon 1, 0)]
    (watchBeacon 2, 30000) [(watchBeacon 1, 30001)] rfl (by decide +kernel) (by decide +kernel)

/-- After 30001 ticks a beacon that was heard before is accepted once more. The beacon after number
`2 ^ 32 - 32` is never accepted, although it comes one tick later. -/
theorem replay_accepted :
    let bus : DistributedSoftBus := { keySlots := sharedKey }
    let replay := [(watchBeacon 1, 0), (watchBeacon 1, 30001)]
    let last := [(watchBeacon 0xFFFFFFE0, 0), (watchBeacon 0xFFFFFFE1, 1)]
    accepted (receive zeroHmac) bus replay = replay ∧
      Always (nextOwn zeroHmac bus ['w']) (Steady zeroHmac bus ['w']) none last ∧
      accepted (receive zeroHmac) bus last = [(watchBeacon 0xFFFFFFE0, 0)] := by
  decide +kernel

end DistributedSoftBus

end AuroraOS
