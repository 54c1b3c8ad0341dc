import AuroraOS.Lib.Transducer
import AuroraOS.SoftBus

/-!
# Sessions are closed

`SoftBus` opens a session of the transport when it has something to send, and `stop_server` closes
what is open. Every session is accounted for (`Inv`): it is in a slot, was closed, or was reported
closed. A slot whose message could not be sent counts as closed, but nobody has closed its session
(`session_leaked`).

The transport is there, and a run says what it returns.
-/

namespace AuroraOS

open Function Transducer

/-- What `close_session_slot` calls `close_session` with. -/
def SoftBusSessionSlot.held (s : SoftBusSessionSlot) : Multiset Int :=
  if s.isOpen ∧ s.sessionId ≥ 0 then {s.sessionId} else 0

namespace SoftBus

/-- `stop_server` -/
def stopServer (b : SoftBus) : SoftBus := b.closeWhere fun s => s.isOpen ∧ s.sessionId ≥ 0

/-- The sessions of the slots for which the condition holds. -/
def heldWhere (b : SoftBus) (p : SoftBusSessionSlot → Bool) : Multiset Int :=
  ∑ i, if p (b.slots i) then (b.slots i).held else 0

/-- The sessions that `open_session` opens for `ensure_session`, if it returns `sid`. -/
def openedFor (b : SoftBus) (peerId : Nat) (sid : Int) : Multiset Int :=
  match b.findPeer peerId with
  | none => 0
  | some i => if ¬((b.slots i).isOpen ∧ (b.slots i).sessionId ≥ 0) ∧ sid ≥ 0 then {sid} else 0

/-- What `publish_intent` makes of the slot when `send_bytes` fails. -/
def sendFailed (b : SoftBus) (peerId : Nat) : SoftBus :=
  match b.findPeer peerId with
  | none => b
  | some i =>
    { b with
      slots := update b.slots i { b.slots i with isOpen := false }
      peers := b.peers.setSessionOpen peerId false }

/-- The bus, and the sessions that `open_session` has returned, that `close_session` was called
with, and that `on_session_closed` was called with. -/
structure Sessions where
  bus : SoftBus := {}
  opened : Multiset Int := 0
  closed : Multiset Int := 0
  reported : List Int := []

/-- `open_session` returns `sid` if it is called, and `send_bytes` returns `rc`. -/
inductive SessionOp
  | registerPeer (peerId now : Nat)
  | publishIntent (peerId : Nat) (loopback : Bool) (sid rc : Int)
  | onSessionOpened (sid result : Int)
  | onSessionClosed (sid : Int)
  | closePeer (peerId : Nat)
  | stopServer

def step (w : Sessions) : SessionOp → Unit × Sessions
  | .registerPeer peerId now => ((), { w with bus := (w.bus.registerPeer peerId now).2 })
  | .publishIntent peerId loopback sid rc =>
    if loopback ∨ peerId = 0 then ((), w)
    else
      let r := ensureSession (some sid) w.bus peerId
      ((), { w with
        bus := if r.1 < 0 ∨ rc = 0 then r.2 else r.2.sendFailed peerId
        opened := w.bus.openedFor peerId sid + w.opened })
  | .onSessionOpened sid result => ((), { w with bus := w.bus.onSessionOpened sid result })
  | .onSessionClosed sid =>
    ((), { w with bus := w.bus.onSessionClosed sid, reported := sid :: w.reported })
  | .closePeer peerId =>
    ((), { w with
      bus := w.bus.closePeer peerId
      closed := w.bus.heldWhere (fun s => (peerId = 0 ∨ s.peerId = peerId) ∧
        s.peerId ≠ 0) + w.closed })
  | .stopServer =>
    ((), { w with
      bus := w.bus.stopServer
      closed := w.bus.heldWhere (fun s => s.isOpen ∧ s.sessionId ≥ 0) + w.closed })

/-- No session gets the id of an earlier one, and nothing fails to be sent. -/
def Delivered (w : Sessions) : SessionOp → Prop
  | .publishIntent _ _ sid rc => sid ∉ w.opened ∧ rc = 0
  | _ => True

/-- A session with an id is open. What was opened is closed, in a slot, or reported, and only
once. -/
structure Inv (w : Sessions) : Prop where
  live : ∀ i, 0 ≤ (w.bus.slots i).sessionId → (w.bus.slots i).isOpen
  nodup : w.opened.Nodup
  le : w.closed + ∑ i, (w.bus.slots i).held ≤ w.opened
  settled : ∀ x ∈ w.opened, x ∈ w.closed + ∑ i, (w.bus.slots i).held ∨ x ∈ w.reported

variable {w : Sessions} {b : SoftBus} {p : SoftBusSessionSlot → Bool}

theorem slots_foldl {p : SoftBusSessionSlot → Prop} [DecidablePred p]
    {f : SoftBusSessionSlot → SoftBusSessionSlot} {g : SoftBus → Fin 4 → PeerTable}
    {l : List (Fin 4)} (hl : l.Nodup) (b : SoftBus) (i : Fin 4) :
    (l.foldl (fun b i => if p (b.slots i) then
      { b with slots := update b.slots i (f (b.slots i)), peers := g b i } else b) b).slots i =
      if i ∈ l ∧ p (b.slots i) then f (b.slots i) else b.slots i := by
  induction l generalizing b with
  | nil => simp
  | cons j l ih =>
    rw [List.nodup_cons] at hl
    rw [List.foldl_cons, ih hl.2]
    by_cases hij : i = j
    · subst hij
      by_cases hp : p (b.slots i) <;> simp [hl.1, hp]
    · by_cases hp : p (b.slots j) <;> simp [hij, hp]

theorem slots_closeWhere (b : SoftBus) (p : SoftBusSessionSlot → Bool) (i : Fin 4) :
    (b.closeWhere p).slots i =
      if p (b.slots i) then { b.slots i with isOpen := false, sessionId := invalidSession }
      else b.slots i := by
  refine (slots_foldl (p := (p ·))
    (f := fun s => { s with isOpen := false, sessionId := invalidSession })
    (g := fun b i => b.peers.setSessionOpen (b.slots i).peerId false)
    (List.nodup_finRange 4) b i).trans ?_
  simp

theorem heldWhere_add_held (b : SoftBus) (p : SoftBusSessionSlot → Bool) :
    b.heldWhere p + ∑ i, ((b.closeWhere p).slots i).held = ∑ i, (b.slots i).held := by
  rw [heldWhere, ← Finset.sum_add_distrib]
  refine Finset.sum_congr rfl fun i _ => ?_
  rw [slots_closeWhere]
  split_ifs <;> simp [SoftBusSessionSlot.held]

theorem live_closeWhere (h : ∀ i, 0 ≤ (b.slots i).sessionId → (b.slots i).isOpen) (i : Fin 4) :
    0 ≤ ((b.closeWhere p).slots i).sessionId → ((b.closeWhere p).slots i).isOpen := by
  rw [slots_closeWhere]
  split_ifs
  · nofun
  · exact h i

/-- The slots hold the same sessions as before. -/
theorem Inv.congr (h : Inv w) (hid : ∀ i, (b.slots i).sessionId = (w.bus.slots i).sessionId)
    (hopen : ∀ i, (w.bus.slots i).isOpen → (b.slots i).isOpen) : Inv { w with bus := b } := by
  have hlive : ∀ i, 0 ≤ (b.slots i).sessionId → (b.slots i).isOpen :=
    fun i hi => hopen i (h.live i (hid i ▸ hi))
  have hheld : ∀ i, (b.slots i).held = (w.bus.slots i).held := by
    intro i
    have := h.live i
    have := hlive i
    grind [SoftBusSessionSlot.held]
  refine ⟨hlive, h.nodup, ?_, ?_⟩ <;> simp only [hheld]
  · exact h.le
  · exact h.settled

/-- The sessions of some slots are closed. -/
theorem Inv.close (h : Inv w) (p : SoftBusSessionSlot → Bool) :
    Inv { w with bus := w.bus.closeWhere p, closed := w.bus.heldWhere p + w.closed } := by
  have heq : w.bus.heldWhere p + w.closed + ∑ i, ((w.bus.closeWhere p).slots i).held =
      w.closed + ∑ i, (w.bus.slots i).held := by
    rw [add_comm (w.bus.heldWhere p), add_assoc, heldWhere_add_held]
  exact ⟨live_closeWhere h.live, h.nodup, heq.trans_le h.le, by simpa only [heq] using h.settled⟩

theorem Inv.onSessionClosed (h : Inv w) (sid : Int) :
    Inv { w with bus := w.bus.onSessionClosed sid, reported := sid :: w.reported } := by
  have hheld := w.bus.heldWhere_add_held fun s => s.sessionId = sid
  refine ⟨live_closeWhere h.live, h.nodup, (add_le_add_right ?_ _).trans h.le, fun x hx => ?_⟩
  · exact hheld ▸ Multiset.le_add_left ..
  · have hx := h.settled x hx
    have hsid : x ∈ w.bus.heldWhere (fun s => s.sessionId = sid) → x = sid := by
      intro hx
      obtain ⟨i, -, hi⟩ := Multiset.mem_sum.mp hx
      grind [SoftBusSessionSlot.held, Multiset.mem_singleton]
    rw [← hheld] at hx
    simp only [Multiset.mem_add, List.mem_cons] at hx ⊢
    tauto

/-- A slot without a session gets one. -/
theorem Inv.opens (h : Inv w) {i : Fin 4} (hi : (w.bus.slots i).held = 0) {s : SoftBusSessionSlot}
    {sid : Int} (hs : s.held = {sid}) (hopen : s.isOpen) (hfresh : sid ∉ w.opened)
    (peers : PeerTable) :
    Inv { w with
      bus := { w.bus with slots := update w.bus.slots i s, peers }
      opened := {sid} + w.opened } := by
  have hheld : ∑ j, (update w.bus.slots i s j).held = {sid} + ∑ j, (w.bus.slots j).held := by
    simp only [apply_update fun _ => SoftBusSessionSlot.held, Finset.sum_update_of_mem
      (Finset.mem_univ i), hs]
    rw [Finset.sum_eq_add_sum_sdiff_singleton_of_mem (Finset.mem_univ i) fun j =>
      (w.bus.slots j).held, hi,
      zero_add]
  refine ⟨fun j => ?_, ?_, ?_, fun x hx => ?_⟩
  · by_cases hj : j = i
    · simp [hj, hopen]
    · simpa [hj] using h.live j
  · exact Multiset.nodup_cons.mpr ⟨hfresh, h.nodup⟩
  · rw [hheld, add_left_comm]
    exact add_le_add_right h.le _
  · rw [hheld, add_left_comm, Multiset.mem_add]
    rcases Multiset.mem_add.mp hx with hx | hx
    · exact .inl (.inl hx)
    · exact (h.settled x hx).imp_left .inr

theorem slots_registerPeer (b : SoftBus) (peerId now : Nat) (i : Fin 4) :
    ((b.registerPeer peerId now).2.slots i).sessionId = (b.slots i).sessionId ∧
      ((b.registerPeer peerId now).2.slots i).isOpen = (b.slots i).isOpen := by
  unfold registerPeer
  split_ifs
  · exact ⟨rfl, rfl⟩
  · split
    · exact ⟨rfl, rfl⟩
    · simp only [update_apply]
      split_ifs with hi <;> simp [hi]

theorem Inv.step (h : Inv w) (op : SessionOp) (hop : Delivered w op) : Inv (step w op).2 := by
  cases op with
  | registerPeer peerId now =>
    exact h.congr (fun i => (slots_registerPeer ..).1) fun i hi =>
      (slots_registerPeer ..).2.trans hi
  | publishIntent peerId loopback sid rc =>
    obtain ⟨hfresh, rfl⟩ := hop
    by_cases hlocal : loopback ∨ peerId = 0
    · simpa only [SoftBus.step, if_pos hlocal] using h
    simp only [SoftBus.step, if_neg hlocal, ensureSession, openedFor]
    cases hfind : w.bus.findPeer peerId with
    | none => simpa using h
    | some i =>
      by_cases hopen : (w.bus.slots i).isOpen ∧ (w.bus.slots i).sessionId ≥ 0
      · simpa [hopen] using h
      · by_cases hsid : 0 ≤ sid
        · simpa [hopen, hsid] using h.opens (if_neg hopen)
            (s := { w.bus.slots i with sessionId := sid, isOpen := true })
            (if_pos ⟨rfl, hsid⟩) rfl hfresh (w.bus.peers.setSessionOpen peerId true)
        · simpa [hopen, hsid] using h
  | onSessionOpened sid result =>
    by_cases hresult : result = 0
    · have hslots := slots_foldl (p := (·.sessionId = sid))
        (f := fun s => { s with isOpen := true })
        (g := fun b i => b.peers.setSessionOpen (b.slots i).peerId true)
        (List.nodup_finRange 4) w.bus
      simp only [SoftBus.step, onSessionOpened, hresult, ne_eq, not_true_eq_false, if_false]
      refine h.congr (fun i => ?_) fun i hi => ?_ <;> rw [hslots] <;> split_ifs <;>
        first | rfl | exact hi
    · simpa [SoftBus.step, onSessionOpened, hresult] using h
  | onSessionClosed sid => exact h.onSessionClosed sid
  | closePeer peerId => exact h.close _
  | stopServer => exact h.close _

theorem Inv.run {ops : List SessionOp} (h : Inv w) (hops : Always SoftBus.step Delivered w ops) :
    Inv (final SoftBus.step w ops) := by
  induction ops generalizing w with
  | nil => exact h
  | cons op ops ih => exact ih (h.step op hops.1) hops.2

/-- **No session is leaked** in a run in which nothing fails to be sent, by a transport that does
not give an id twice: when the server is stopped, what was opened is closed once, or was
reported. -/
theorem sessions_closed (ops : List SessionOp) (h : Always step Delivered {} ops) :
    let w := (step (final step {} ops) .stopServer).2
    w.closed.Nodup ∧ ∀ x ∈ w.opened, w.closed.count x = 1 ∨ x ∈ w.reported := by
  intro w
  have hinv : Inv (final step {} ops) := Inv.run ⟨nofun, by simp, by decide, by simp⟩ h
  have hw : Inv w := hinv.step .stopServer trivial
  have hnodup : w.closed.Nodup :=
    Multiset.nodup_of_le ((Multiset.le_add_right ..).trans hw.le) hw.nodup
  -- no session is left in a slot
  have hslots : ∑ i, (w.bus.slots i).held = 0 := by
    refine Finset.sum_eq_zero fun i _ => ?_
    refine (congrArg SoftBusSessionSlot.held (slots_closeWhere ..)).trans ?_
    split_ifs with hp
    · rfl
    · exact if_neg (by simpa using hp)
  refine ⟨hnodup, fun x hx => (hw.settled x hx).imp_left fun hx => ?_⟩
  rw [hslots, add_zero] at hx
  exact Multiset.count_eq_one_of_mem hnodup hx

theorem sessions_closed_once :
    let w := (step (final step {} [.registerPeer 7 0, .publishIntent 7 false 5 0]) .stopServer).2
    w.closed.Nodup ∧ ∀ x ∈ w.opened, w.closed.count x = 1 ∨ x ∈ w.reported :=
  sessions_closed _ ⟨trivial, ⟨by decide, rfl⟩, trivial⟩

/-- The message could not be sent, and the session stays open. -/
theorem session_leaked :
    let w := (step (final step {} [.registerPeer 7 0, .publishIntent 7 false 5 1]) .stopServer).2
    w.opened = {5} ∧ w.closed = 0 ∧ w.reported = [] := by
  decide

end SoftBus

end AuroraOS
