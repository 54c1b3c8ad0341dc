import AuroraOS.Lib.Run

/-!
# Attacks on Bluetooth links

`BleMitmDetector` of `net/ble/ble_mitm.hpp`: one session per address, rules that look at what
happens to it, and a table of alerts. Fields that no rule reads are left out (times of events, the
security level, the initial parameters), and so are calls without an address, which do nothing.

The rule against pairing downgrades looks at the pairing before the one that is reported.
`downgrade_alert_iff` says when that makes no difference.
-/

namespace AuroraOS

local instance neZeroDisconnects : NeZero 16 := ⟨by decide⟩

/-! ## Sessions and alerts -/

inductive BlePairingMethod
  | justWorks
  | passkeyEntry
  | oob
  | numericComp
  deriving DecidableEq

def BlePairingMethod.value : BlePairingMethod → Nat
  | justWorks => 0
  | passkeyEntry => 1
  | oob => 2
  | numericComp => 3

/-- A method that protects against attacks: `PasskeyEntry` or above. -/
def BlePairingMethod.Authenticated (m : BlePairingMethod) : Prop := m.value ≥ passkeyEntry.value
  deriving Decidable

theorem BlePairingMethod.authenticated_iff {m : BlePairingMethod} :
    m.Authenticated ↔ m ≠ .justWorks := by
  cases m <;> decide

inductive MitmAlertType
  | pairingDowngrade
  | paramIntervalAnomaly
  | paramLatencyAnomaly
  | rssiParadox
  | disconnectStorm
  | supervisionTimeoutLong
  | securityLevelDowngrade
  deriving DecidableEq

inductive MitmSeverity
  | info
  | warning
  | alert
  | critical
  deriving DecidableEq

/-- The address of a device. -/
abbrev BleMac := Vector UInt8 6

structure MitmAlert where
  timestamp : Nat
  deviceMac : BleMac
  type : MitmAlertType
  severity : MitmSeverity
  confidence : Nat
  description : String
  deriving DecidableEq

structure BleConnParams where
  intervalMin : Nat
  latency : Nat
  supervisionTo : Nat

structure MitmSession where
  mac : BleMac
  active : Bool := true
  lastPairingMethod : BlePairingMethod := .justWorks
  initialPairingMethod : BlePairingMethod := .justWorks
  oobAvailable : Bool := false
  currentParams : BleConnParams
  paramsChangeCount : Nat := 0
  lastRssi : Int
  lastTxPower : Int := 0
  disconnectTimes : Fin 16 → Nat := fun _ => 0
  disconnectIndex : Fin 16 := 0
  disconnectCount : Nat := 0

structure BleMitmDetector where
  sessions : List MitmSession := []
  alerts : List MitmAlert := []
  rssiParadoxThreshold : Int := 10

/-! ## The rules -/

namespace MitmSession

/-- An alert about the session, if the condition holds. -/
def alertIf (s : MitmSession) (now : Nat) (cond : Prop) [Decidable cond] (type : MitmAlertType)
    (severity : MitmSeverity) (confidence : Nat) (description : String) : List MitmAlert :=
  if cond then [⟨now, s.mac, type, severity, confidence, description⟩] else []

/-- `detect_pairing_downgrade_` -/
def detectPairingDowngrade (s : MitmSession) (now : Nat) : List MitmAlert :=
  s.alertIf now (s.initialPairingMethod.Authenticated ∧
      s.lastPairingMethod = .justWorks) .pairingDowngrade .critical 85
    "Pairing downgraded from authenticated to JustWorks — possible MITM" ++
  s.alertIf now (s.oobAvailable ∧ s.lastPairingMethod = .justWorks)
    .securityLevelDowngrade .critical 90
    "OOB available but JustWorks used — possible MITM disabling OOB"

/-- `detect_param_anomaly_` -/
def detectParamAnomaly (s : MitmSession) (now : Nat) (newParams : BleConnParams) : List MitmAlert :=
  s.alertIf now (s.currentParams.intervalMin > 0 ∧
      (newParams.intervalMin > s.currentParams.intervalMin * 3 ∨
        newParams.intervalMin * 3 < s.currentParams.intervalMin)) .paramIntervalAnomaly .warning 55
    "Connection interval changed > 3x — possible parameter injection" ++
  s.alertIf now (s.currentParams.latency > 0 ∧ newParams.latency > s.currentParams.latency * 5)
    .paramLatencyAnomaly .alert 60
    "Slave latency increased > 5x — possible passive sniffing window" ++
  s.alertIf now (s.paramsChangeCount ≥ 3) .paramIntervalAnomaly .alert 65
    "Frequent connection parameter updates — possible tampering"

/-- `detect_rssi_paradox_` -/
def detectRssiParadox (s : MitmSession) (now : Nat) (threshold rssi txPower : Int) :
    List MitmAlert :=
  s.alertIf now (rssi - s.lastRssi > threshold ∧ txPower = s.lastTxPower ∧ s.lastTxPower ≠ 0)
    .rssiParadox .alert 70 "RSSI increased without TX power change — possible relay attack"

/-- `detect_disconnect_storm_` -/
def detectDisconnectStorm (s : MitmSession) (now : Nat) : List MitmAlert :=
  let recent := (List.finRange 16).countP fun i : Fin 16 =>
    i.val < s.disconnectCount ∧ s.disconnectTimes i > 0 ∧
      (now + (2 ^ 32 - s.disconnectTimes i)) % 2 ^ 32 < 10000
  s.alertIf now (recent ≥ 5) .disconnectStorm .critical 80
    "Disconnect storm detected — possible jamming-based MITM"

/-- `detect_supervision_anomaly_` -/
def detectSupervisionAnomaly (s : MitmSession) (now : Nat) : List MitmAlert :=
  s.alertIf now (s.currentParams.supervisionTo > 3200) .supervisionTimeoutLong .warning 40
    "Supervision timeout > 32s — device could be unreachable for long"

/-! ## What happens to a session -/

def connect (s : MitmSession) (params : BleConnParams) (rssi : Int) : MitmSession :=
  { s with active := true, currentParams := params, lastRssi := rssi, lastTxPower := 0,
           paramsChangeCount := 0 }

def disconnect (s : MitmSession) (now : Nat) : MitmSession :=
  { s with active := false
           disconnectTimes := Function.update s.disconnectTimes s.disconnectIndex now
           disconnectIndex := s.disconnectIndex + 1
           disconnectCount := if s.disconnectCount < 16 then s.disconnectCount + 1
             else s.disconnectCount }

/-- The first method that is not `JustWorks` is kept. -/
def noteInitial (s : MitmSession) (method : BlePairingMethod) : MitmSession :=
  if s.initialPairingMethod = .justWorks ∧ method ≠ .justWorks then
    { s with initialPairingMethod := method }
  else s

def pair (s : MitmSession) (method : BlePairingMethod) (oob : Bool) : MitmSession :=
  { s.noteInitial method with lastPairingMethod := method, oobAvailable := oob }

def updateParams (s : MitmSession) (params : BleConnParams) : MitmSession :=
  { s with currentParams := params, paramsChangeCount := s.paramsChangeCount + 1 }

def updateRssi (s : MitmSession) (rssi txPower : Int) : MitmSession :=
  { s with lastRssi := rssi, lastTxPower := txPower }

end MitmSession

/-! ## The detector -/

inductive MitmEvent
  | connect (mac : BleMac) (params : BleConnParams) (rssi : Int)
  | disconnect (mac : BleMac)
  | pairingComplete (mac : BleMac) (method : BlePairingMethod) (oob : Bool)
  | paramsUpdate (mac : BleMac) (params : BleConnParams)
  | rssiUpdate (mac : BleMac) (rssi txPower : Int)
  | clearAlerts
  | setRssiParadoxThreshold (dbm : Int)

namespace BleMitmDetector

def findSession (d : BleMitmDetector) (mac : BleMac) : Option MitmSession :=
  d.sessions.find? (·.mac = mac)

/-- Change the first session with the address. -/
def adjust (mac : BleMac) (f : MitmSession → MitmSession) : List MitmSession → List MitmSession
  | [] => []
  | s :: l => if s.mac = mac then f s :: l else s :: adjust mac f l

def addAlert (d : BleMitmDetector) (a : MitmAlert) : BleMitmDetector :=
  if d.alerts.length < 64 then { d with alerts := d.alerts ++ [a] } else d

/-- A session meets with an event: alerts first, then the session is updated. -/
def note (d : BleMitmDetector) (mac : BleMac) (alerts : MitmSession → List MitmAlert)
    (f : MitmSession → MitmSession) : BleMitmDetector :=
  match d.findSession mac with
  | none => d
  | some s =>
    let d := (alerts s).foldl addAlert d
    { d with sessions := adjust mac f d.sessions }

def onConnect (d : BleMitmDetector) (mac : BleMac) (params : BleConnParams) (rssi : Int) :
    BleMitmDetector :=
  match d.findSession mac with
  | some _ => d.note mac (fun _ => []) (·.connect params rssi)
  | none =>
    if d.sessions.length ≥ 16 then d
    else { d with sessions := d.sessions ++ [{ mac, currentParams := params, lastRssi := rssi }] }

/-- `on_disconnect`. The disconnection itself counts for the storm. -/
def onDisconnect (d : BleMitmDetector) (now : Nat) (mac : BleMac) : BleMitmDetector :=
  d.note mac (fun s => (s.disconnect now).detectDisconnectStorm now) (·.disconnect now)

/-- `on_pairing_complete`. The rule comes between the two updates. -/
def onPairingComplete (d : BleMitmDetector) (now : Nat) (mac : BleMac) (method : BlePairingMethod)
    (oob : Bool) : BleMitmDetector :=
  d.note mac (fun s => (s.noteInitial method).detectPairingDowngrade now) (·.pair method oob)

def onParamsUpdate (d : BleMitmDetector) (now : Nat) (mac : BleMac) (params : BleConnParams) :
    BleMitmDetector :=
  d.note mac (·.detectParamAnomaly now params) (·.updateParams params)

def onRssiUpdate (d : BleMitmDetector) (now : Nat) (mac : BleMac) (rssi txPower : Int) :
    BleMitmDetector :=
  d.note mac (fun s => s.detectRssiParadox now d.rssiParadoxThreshold rssi txPower ++
    s.detectSupervisionAnomaly now) (·.updateRssi rssi txPower)

/-- An event at a tick. -/
def step (d : BleMitmDetector) (e : Nat × MitmEvent) : BleMitmDetector :=
  match e.2 with
  | .connect mac params rssi => d.onConnect mac params rssi
  | .disconnect mac => d.onDisconnect e.1 mac
  | .pairingComplete mac method oob => d.onPairingComplete e.1 mac method oob
  | .paramsUpdate mac params => d.onParamsUpdate e.1 mac params
  | .rssiUpdate mac rssi txPower => d.onRssiUpdate e.1 mac rssi txPower
  | .clearAlerts => { d with alerts := [] }
  | .setRssiParadoxThreshold dbm => { d with rssiParadoxThreshold := dbm }

/-- The detector after a sequence of events. -/
def run (d : BleMitmDetector) (events : List (Nat × MitmEvent)) : BleMitmDetector :=
  events.foldl step d

/-- The method, if the event is a pairing in the session of the address. -/
def pairing (d : BleMitmDetector) (mac : BleMac) (e : Nat × MitmEvent) : List BlePairingMethod :=
  match e.2 with
  | .pairingComplete mac' method _ =>
    if mac' = mac ∧ (d.findSession mac).isSome then [method] else []
  | _ => []

/-- The methods of the pairings in the session of an address, in their order. -/
def pairings (mac : BleMac) : BleMitmDetector → List (Nat × MitmEvent) → List BlePairingMethod
  | _, [] => []
  | d, e :: events => d.pairing mac e ++ pairings mac (d.step e) events

/-- The call at this tick adds an alert of the type. -/
def Raises (d : BleMitmDetector) (e : Nat × MitmEvent) (type : MitmAlertType) : Prop :=
  ∃ a ∈ (d.step e).alerts.drop d.alerts.length, a.type = type
  deriving Decidable

variable {d : BleMitmDetector} {mac mac' : BleMac} {f : MitmSession → MitmSession}

/-! ## Sessions -/

theorem find?_adjust_self (hf : ∀ s, (f s).mac = s.mac) (l : List MitmSession) :
    (adjust mac f l).find? (·.mac = mac) = (l.find? (·.mac = mac)).map f := by
  induction l with
  | nil => rfl
  | cons s l ih =>
    by_cases hs : s.mac = mac
    · simp [adjust, hs, hf]
    · simp [adjust, hs, ih]

theorem find?_adjust_of_ne (hf : ∀ s, (f s).mac = s.mac) (hne : mac' ≠ mac) (l : List MitmSession) :
    (adjust mac f l).find? (·.mac = mac') = l.find? (·.mac = mac') := by
  induction l with
  | nil => rfl
  | cons s l ih =>
    by_cases hs : s.mac = mac
    · simp [adjust, hs, hf, hne.symm]
    · by_cases hs' : s.mac = mac'
      · simp [adjust, hs', hne]
      · simp [adjust, hs, hs', ih]

@[simp] theorem sessions_foldl_addAlert (alerts : List MitmAlert) (d : BleMitmDetector) :
    (alerts.foldl addAlert d).sessions = d.sessions := by
  induction alerts generalizing d with
  | nil => rfl
  | cons a alerts ih =>
    rw [List.foldl_cons, ih]
    simp only [addAlert]
    split_ifs <;> rfl

section

variable {alerts : MitmSession → List MitmAlert}

/-- What `note` does to the session of the address, and to the others. -/
theorem findSession_note (hf : ∀ s, (f s).mac = s.mac) :
    (d.note mac alerts f).findSession mac' =
      if mac' = mac then (d.findSession mac').map f else d.findSession mac' := by
  unfold note
  cases hfind : d.findSession mac with
  | none =>
    split_ifs with h
    · rw [h, hfind, Option.map_none]
    · rfl
  | some s =>
    show List.find? _ (adjust mac f ((alerts s).foldl addAlert d).sessions) = _
    rw [sessions_foldl_addAlert]
    split_ifs with h
    · subst h
      exact find?_adjust_self hf _
    · exact find?_adjust_of_ne hf h _

/-! ## Alerts -/

/-- The table takes as many alerts as there is room for. -/
theorem alerts_foldl_addAlert (alerts : List MitmAlert) (d : BleMitmDetector) :
    (alerts.foldl addAlert d).alerts = d.alerts ++ alerts.take (64 - d.alerts.length) := by
  induction alerts generalizing d with
  | nil => simp
  | cons a alerts ih =>
    rw [List.foldl_cons, ih, addAlert]
    split_ifs with hroom
    · obtain ⟨k, hk⟩ : ∃ k, 64 - d.alerts.length = k + 1 := ⟨64 - d.alerts.length - 1, by omega⟩
      have hless : 64 - (d.alerts.length + 1) = k := by omega
      simp [hk, hless]
    · simp [Nat.sub_eq_zero_of_le (Nat.not_lt.1 hroom)]

theorem drop_alerts_note {s : MitmSession} (hfind : d.findSession mac = some s) :
    (d.note mac alerts f).alerts.drop d.alerts.length = (alerts s).take (64 - d.alerts.length) := by
  rw [note, hfind]
  rw [alerts_foldl_addAlert, List.drop_left]

/-! ## The history of a session -/

/-- What the session of an address knows of its pairings. -/
def Knows (d : BleMitmDetector) (mac : BleMac) (methods : List BlePairingMethod) : Prop :=
  match d.findSession mac with
  | none => methods = []
  | some s => (s.initialPairingMethod = .justWorks ↔ ∀ m ∈ methods, m = .justWorks) ∧
      s.lastPairingMethod = methods.getLast?.getD .justWorks

variable {methods : List BlePairingMethod}

theorem Knows.note (h : d.Knows mac methods) (hmac : ∀ s, (f s).mac = s.mac)
    (hinitial : ∀ s, (f s).initialPairingMethod = s.initialPairingMethod)
    (hlast : ∀ s, (f s).lastPairingMethod = s.lastPairingMethod) :
    (d.note mac' alerts f).Knows mac methods := by
  unfold Knows at h ⊢
  rw [findSession_note hmac]
  split_ifs
  · cases hfind : d.findSession mac with
    | none => simpa [hfind] using h
    | some s => simpa [hfind, hinitial, hlast] using h
  · exact h

end

theorem Knows.onConnect (h : d.Knows mac methods) (params : BleConnParams) (rssi : Int) :
    (d.onConnect mac' params rssi).Knows mac methods := by
  unfold BleMitmDetector.onConnect
  cases hfind' : d.findSession mac' with
  | some s => exact h.note (fun _ => rfl) (fun _ => rfl) fun _ => rfl
  | none =>
    split_ifs
    · exact h
    · unfold Knows at h ⊢
      rw [findSession, List.find?_append]
      show match (d.findSession mac).or _ with | none => _ | some s => _
      cases hfind : d.findSession mac with
      | some s => simpa [hfind] using h
      | none =>
        obtain rfl : methods = [] := by simpa [hfind] using h
        by_cases hmac : mac' = mac
        · simp [hmac]
        · simp [hmac]

theorem mac_pair (s : MitmSession) (method : BlePairingMethod) (oob : Bool) :
    (s.pair method oob).mac = s.mac := by
  simp only [MitmSession.pair, MitmSession.noteInitial]
  split_ifs <;> rfl

theorem initial_noteInitial (s : MitmSession) (method : BlePairingMethod) :
    (s.noteInitial method).initialPairingMethod = .justWorks ↔
      s.initialPairingMethod = .justWorks ∧ method = .justWorks := by
  simp only [MitmSession.noteInitial]
  split_ifs with h
  · simp [h]
  · rw [not_and, not_not] at h
    exact ⟨fun hi => ⟨hi, h hi⟩, fun hi => hi.1⟩

theorem Knows.onPairingComplete (h : d.Knows mac methods) (now : Nat) (mac' : BleMac)
    (method : BlePairingMethod) (oob : Bool) :
    (d.onPairingComplete now mac' method oob).Knows mac
      (methods ++ d.pairing mac (now, .pairingComplete mac' method oob)) := by
  unfold Knows at h ⊢
  rw [BleMitmDetector.onPairingComplete, findSession_note fun s => mac_pair s method oob]
  unfold pairing
  by_cases hmac : mac' = mac
  · subst hmac
    cases hfind : d.findSession mac' with
    | none => simpa [hfind] using h
    | some s =>
      obtain ⟨hinitial, -⟩ : _ ∧ _ := by simpa only [hfind] using h
      simp [initial_noteInitial, hinitial, MitmSession.pair, or_imp, forall_and]
  · simpa [hmac, Ne.symm hmac] using h

theorem Knows.step (h : d.Knows mac methods) (e : Nat × MitmEvent) :
    (d.step e).Knows mac (methods ++ d.pairing mac e) := by
  obtain ⟨now, e⟩ := e
  have hother : ∀ d' : BleMitmDetector, d'.Knows mac methods → d'.Knows mac (methods ++ []) := by
    intro d' h'
    rwa [List.append_nil]
  cases e with
  | pairingComplete mac' method oob => exact h.onPairingComplete now mac' method oob
  | connect mac' params rssi => exact hother _ (h.onConnect params rssi)
  | disconnect mac' => exact hother _ (h.note (fun _ => rfl) (fun _ => rfl) fun _ => rfl)
  | paramsUpdate => exact hother _ (h.note (fun _ => rfl) (fun _ => rfl) fun _ => rfl)
  | rssiUpdate => exact hother _ (h.note (fun _ => rfl) (fun _ => rfl) fun _ => rfl)
  | clearAlerts => exact hother _ h
  | setRssiParadoxThreshold dbm => exact hother _ h

theorem Knows.run (h : d.Knows mac methods) (events : List (Nat × MitmEvent)) :
    (d.run events).Knows mac (methods ++ pairings mac d events) := by
  induction events generalizing d methods with
  | nil => simpa [pairings, BleMitmDetector.run] using h
  | cons e events ih =>
    rw [pairings, ← List.append_assoc]
    exact ih (h.step e)

/-! ## Pairing downgrades -/

/-- The alert of the rule is the first of its call. -/
theorem downgrade_mem_take_iff (s : MitmSession) (now n : Nat) :
    (∃ a ∈ (s.detectPairingDowngrade now).take n, a.type = .pairingDowngrade) ↔
      s.initialPairingMethod.Authenticated ∧ s.lastPairingMethod = .justWorks ∧ 0 < n := by
  unfold MitmSession.detectPairingDowngrade MitmSession.alertIf
  cases n with
  | zero => simp
  | succ n =>
    by_cases h : s.initialPairingMethod.Authenticated ∧ s.lastPairingMethod = .justWorks
    · simp [h]
    · rw [if_neg h, List.nil_append, ← and_assoc]
      refine iff_of_false ?_ fun hc => h hc.1
      rintro ⟨a, ha, htype⟩
      have ha := List.mem_of_mem_take ha
      split_ifs at ha
      · simp only [List.mem_singleton] at ha
        simp [ha] at htype
      · simp at ha

/-- What the rule looks for: the method was authenticated once, and the last one was not. -/
theorem raises_downgrade_iff {s : MitmSession} (hfind : d.findSession mac = some s) (now : Nat)
    (method : BlePairingMethod) (oob : Bool) :
    d.Raises (now, .pairingComplete mac method oob) .pairingDowngrade ↔
      (s.initialPairingMethod = .justWorks → method ≠ .justWorks) ∧
        s.lastPairingMethod = .justWorks ∧ d.alerts.length < 64 := by
  have hlast : (s.noteInitial method).lastPairingMethod = s.lastPairingMethod := by
    simp only [MitmSession.noteInitial]
    split_ifs <;> rfl
  have hinitial := initial_noteInitial s method
  show (∃ a ∈ (d.note mac _ _).alerts.drop d.alerts.length, _) ↔ _
  rw [drop_alerts_note hfind, downgrade_mem_take_iff, hlast, BlePairingMethod.authenticated_iff,
    ne_eq, hinitial, not_and, Nat.sub_pos_iff_lt]

/-- **Pairing downgrades.** The alert is raised for the right calls exactly if, at the calls with
`JustWorks` after an authenticated pairing, the pairing before was `JustWorks` too and there is room
for the alert, and at the other calls it was not `JustWorks`, or there is no room. -/
theorem downgrade_alert_iff (events : List (Nat × MitmEvent)) (mac : BleMac) (now : Nat)
    (method : BlePairingMethod) (oob : Bool)
    (hsession : ((({} : BleMitmDetector).run events).findSession mac).isSome) :
    let d := ({} : BleMitmDetector).run events
    let before := pairings mac {} events
    ((d.Raises (now, .pairingComplete mac method oob) .pairingDowngrade ↔
        method = .justWorks ∧ ∃ m ∈ before, m.Authenticated) ↔
      if method = .justWorks then
        (∃ m ∈ before, m.Authenticated) →
          before.getLast?.getD .justWorks = .justWorks ∧ d.alerts.length < 64
      else before.getLast?.getD .justWorks = .justWorks → 64 ≤ d.alerts.length) := by
  intro d before
  obtain ⟨s, hfind⟩ := Option.isSome_iff_exists.1 hsession
  have hstart : ({} : BleMitmDetector).Knows mac [] := rfl
  have hknows : d.Knows mac before := hstart.run events
  obtain ⟨hinitial, hlast⟩ : _ ∧ _ := by simpa only [Knows, hfind, d] using hknows
  have hearlier : (∃ m ∈ before, m.Authenticated) ↔ s.initialPairingMethod ≠ .justWorks := by
    simp only [BlePairingMethod.authenticated_iff]
    rw [ne_eq, hinitial]
    simp
  rw [raises_downgrade_iff hfind, hearlier, hlast]
  by_cases hmethod : method = .justWorks
  · -- the call is to raise an alert iff there was an authenticated pairing
    simp only [hmethod, ne_eq, not_true_eq_false, true_and]
    exact and_iff_left_iff_imp
  · -- the call is to raise none
    simp [hmethod, d]

/-- Connect, pair once, and pair again. -/
def twoPairings (first : BlePairingMethod) : List (Nat × MitmEvent) :=
  [(1, .connect (Vector.replicate 6 0) ⟨8, 0, 100⟩ (-40)),
    (2, .pairingComplete (Vector.replicate 6 0) first false)]

/-- An authenticated pairing after an authenticated pairing. -/
theorem downgrade_alert_iff_same :
    let d := ({} : BleMitmDetector).run (twoPairings .passkeyEntry)
    ¬d.Raises (3, .pairingComplete (Vector.replicate 6 0) .numericComp false) .pairingDowngrade :=
  fun h => absurd (((downgrade_alert_iff (twoPairings .passkeyEntry) (Vector.replicate 6 0)
    3 .numericComp false (by decide)).2 (by decide)).1 h).1 (by decide)

/-- A downgrade without an alert, and an upgrade with one. -/
theorem upgrade_alerted :
    ¬(({} : BleMitmDetector).run (twoPairings .passkeyEntry)).Raises
        (3, .pairingComplete (Vector.replicate 6 0) .justWorks false) .pairingDowngrade ∧
      (({} : BleMitmDetector).run (twoPairings .justWorks)).Raises
        (3, .pairingComplete (Vector.replicate 6 0) .passkeyEntry false) .pairingDowngrade := by
  decide

end BleMitmDetector

end AuroraOS
