import AuroraOS.Firewall
import AuroraOS.Lib.Run

/-!
# Connections under inspection

Runs of the `StatefulInspector`: frames come in and `tick` is called, in any order and at any ticks.
A history is kept for each entry, the frames that were seen for it since it was opened.

`inspector_runs`: there are no two entries for one connection; what gets through without belonging
to an entry has opened one, or is too short to be inspected; and an established connection has gone
through three stages. The inspector does not ask which side a frame comes from, so that these stages
are not quite the handshake of TCP: one side can go through them alone.
-/

namespace AuroraOS

open Function

namespace TcpConnection

/-- The two describe one connection, up to direction. -/
def Same (c d : TcpConnection) : Prop :=
  c.srcIp = d.srcIp ∧ c.dstIp = d.dstIp ∧ c.srcPort = d.srcPort ∧ c.dstPort = d.dstPort ∨
    c.srcIp = d.dstIp ∧ c.dstIp = d.srcIp ∧ c.srcPort = d.dstPort ∧ c.dstPort = d.srcPort

/-- The frame belongs to the connection. -/
def Carries (c : TcpConnection) (f : Frame) : Prop := c.Forward f ∨ c.Backward f
  deriving Decidable

theorem Same.symm {c d : TcpConnection} (h : c.Same d) : d.Same c := by
  rcases h with ⟨h₁, h₂, h₃, h₄⟩ | ⟨h₁, h₂, h₃, h₄⟩
  · exact .inl ⟨h₁.symm, h₂.symm, h₃.symm, h₄.symm⟩
  · exact .inr ⟨h₂.symm, h₁.symm, h₄.symm, h₃.symm⟩

/-- `d` has the addresses and ports of `c`. -/
structure Ends (c d : TcpConnection) : Prop where
  srcIp : d.srcIp = c.srcIp
  dstIp : d.dstIp = c.dstIp
  srcPort : d.srcPort = c.srcPort
  dstPort : d.dstPort = c.dstPort

variable {c c' d d' : TcpConnection} {f : Frame}

theorem Ends.refl (c : TcpConnection) : c.Ends c := ⟨rfl, rfl, rfl, rfl⟩

theorem Ends.same (hc : c.Ends c') (hd : d.Ends d') : c'.Same d' ↔ c.Same d := by
  unfold Same
  rw [hc.srcIp, hc.dstIp, hc.srcPort, hc.dstPort, hd.srcIp, hd.dstIp, hd.srcPort, hd.dstPort]

theorem Ends.forward (hc : c.Ends c') : c'.Forward f ↔ c.Forward f := by
  unfold Forward
  rw [hc.srcIp, hc.dstIp, hc.srcPort, hc.dstPort]

theorem Ends.carries (hc : c.Ends c') : c'.Carries f ↔ c.Carries f := by
  unfold Carries Forward Backward
  rw [hc.srcIp, hc.dstIp, hc.srcPort, hc.dstPort]

end TcpConnection

namespace StatefulInspector

open TcpConnection

variable {s s' : StatefulInspector} {f : Frame} {now : Nat} {i j : Fin 16} {c : TcpConnection}

/-! ## One frame -/

theorem update_ends (c : TcpConnection) (f : Frame) (now : Nat) : c.Ends (update c f now) := by
  unfold update
  dsimp only
  split_ifs <;> exact ⟨rfl, rfl, rfl, rfl⟩

theorem find_some (h : s.find f = some i) :
    (s.connections i).active ∧ (s.connections i).Carries f := by
  simpa [Carries] using List.find?_some h

theorem find_none (h : s.find f = none) (hi : (s.connections i).active) :
    ¬(s.connections i).Carries f := by
  have := List.find?_eq_none.1 h i (List.mem_finRange i)
  simpa [hi, Carries] using this

/-- **What the inspector does with a frame.** -/
inductive Inspected (s : StatefulInspector) (f : Frame)
    (now : Nat) : Bool × StatefulInspector → Prop
  | skip (h : ¬Inspects f) : Inspected s f now (true, s)
  | refuse (h : Inspects f → s.find f = none) : Inspected s f now (false, s)
  | belongs (i : Fin 16) (hf : Inspects f) (hi : s.find f = some i) :
      Inspected s f now (true, s.setConnection i (update (s.connections i) f now))
  | opens (i : Fin 16) (hf : Inspects f) (hnone : s.find f = none)
      (hi : (s.connections i).active = false) (hsyn : f.isSyn) (hack : f.isAck = false) :
      Inspected s f now (true, s.setConnection i (opened f now))

theorem processTcpPacket_inspected (s : StatefulInspector) (f : Frame) (now : Nat) :
    Inspected s f now (s.processTcpPacket f now) := by
  unfold processTcpPacket
  by_cases hlen : f.len < 34
  · rw [if_pos hlen]
    exact .skip fun h => absurd h.1.1 (Nat.not_le.2 hlen)
  by_cases heth : f.ethType = 0x0800
  swap
  · rw [if_neg hlen, if_pos heth]
    exact .skip fun h => heth h.1.2
  by_cases hprotocol : f.protocol = 6
  swap
  · rw [if_neg hlen, if_neg (not_not.2 heth), if_pos hprotocol]
    exact .skip fun h => hprotocol h.2.1
  rw [if_neg hlen, if_neg (not_not.2 heth), if_neg (not_not.2 hprotocol)]
  by_cases hihl : f.ihl < 5
  · rw [if_pos hihl]
    exact .refuse fun h => absurd h.2.2.1 (Nat.not_le.2 hihl)
  rw [if_neg hihl]
  by_cases hbeyond : f.Beyond 14
  swap
  · rw [if_pos hbeyond]
    exact .skip fun h => hbeyond h.2.2.2
  rw [if_neg (not_not.2 hbeyond)]
  have hf : Inspects f := ⟨⟨Nat.not_lt.1 hlen, heth⟩, hprotocol, Nat.not_lt.1 hihl, hbeyond⟩
  cases hfind : s.find f with
  | some i => exact .belongs i hf hfind
  | none =>
    by_cases hsyn : f.isSyn ∧ ¬f.isAck
    · rw [if_pos hsyn]
      cases hfree : (List.finRange 16).find? fun i => !(s.connections i).active with
      | some i =>
        have hi := List.find?_some hfree
        exact .opens i hf hfind (by simpa using hi) hsyn.1 (by simpa using hsyn.2)
      | none => exact .refuse fun _ => hfind
    · rw [if_neg hsyn]
      exact .refuse fun _ => hfind

theorem processTcpPacket_passes (heth : f.ethType = 0x0800) (hprotocol : f.protocol = 6)
    (hpass : (s.processTcpPacket f now).1 = true) :
    f.len < 34 ∨ 5 ≤ f.ihl ∧ ¬f.Beyond 14 ∨
      (f.isSyn ∧ f.isAck = false ∧ ∃ i, (s.connections i).active = false ∧
        (s.processTcpPacket f now).2.connections i = opened f now) ∨
      ∃ i, (s.connections i).active ∧ (s.connections i).Carries f := by
  by_cases hlen : f.len < 34
  · exact .inl hlen
  by_cases hihl : f.ihl < 5
  · -- the one malformed header that is refused
    simp [processTcpPacket, hlen, heth, hprotocol, hihl] at hpass
  have hstep := processTcpPacket_inspected s f now
  generalize s.processTcpPacket f now = r at hpass hstep
  cases hstep with
  | skip h =>
    refine .inr (.inl ⟨Nat.not_lt.1 hihl, fun hbeyond => h ?_⟩)
    exact ⟨⟨Nat.not_lt.1 hlen, heth⟩, hprotocol, Nat.not_lt.1 hihl, hbeyond⟩
  | refuse => cases hpass
  | belongs i hf hi => exact .inr (.inr (.inr ⟨i, find_some hi⟩))
  | opens i hf hnone hi hsyn hack =>
    exact .inr (.inr (.inl ⟨hsyn, hack, i, hi, update_self ..⟩))

/-! ## Runs -/

inductive Event
  | frame (f : Frame) (now : Nat)
  | tick (now : Nat)

/-- The inspector, and for each entry the frames that were seen for it since it was opened. -/
structure Watched where
  inspector : StatefulInspector := {}
  seen : Fin 16 → List Frame := fun _ => []

def Watched.step (w : Watched) : Event → Watched
  | .frame f now =>
    let s := (w.inspector.processTcpPacket f now).2
    { inspector := s
      seen := fun i =>
        if Inspects f ∧ w.inspector.find f = some i then w.seen i ++ [f]
        else if (w.inspector.connections i).active = false ∧ (s.connections i).active then [f]
        else w.seen i }
  | .tick now => { w with inspector := w.inspector.tick now }

/-- A run from the start. -/
def watch (events : List Event) : Watched := events.foldl Watched.step {}

/-- The stages that a connection has gone through. -/
def Stages (c : TcpConnection) (seen : List Frame) : Prop :=
  match c.state with
  | .synSent => ∃ f₁, [f₁].Sublist seen ∧ f₁.isSyn ∧ f₁.isAck = false ∧ c.Forward f₁
  | .synReceived => ∃ f₁ f₂, [f₁, f₂].Sublist seen ∧ (f₁.isSyn ∧ f₁.isAck = false ∧ c.Forward f₁) ∧
      f₂.isSyn ∧ f₂.isAck ∧ c.Carries f₂
  | .established => ∃ f₁ f₂ f₃, [f₁, f₂, f₃].Sublist seen ∧
      (f₁.isSyn ∧ f₁.isAck = false ∧ c.Forward f₁) ∧ (f₂.isSyn ∧ f₂.isAck ∧ c.Carries f₂) ∧
        f₃.isAck ∧ c.Carries f₃
  | _ => True

/-- The stages depend on addresses, ports and state only, and stay when more is seen. -/
theorem Stages.mono {c' : TcpConnection} {seen seen' : List Frame} (h : Stages c seen)
    (hends : c.Ends c') (hstate : c'.state = c.state) (hseen : seen.Sublist seen') :
    Stages c' seen' := by
  unfold Stages at h ⊢
  rw [hstate]
  cases hc : c.state <;> simp only [hc] at h ⊢
  · obtain ⟨f₁, hsub, h₁⟩ := h
    exact ⟨f₁, hsub.trans hseen, by rwa [hends.forward]⟩
  · obtain ⟨f₁, f₂, hsub, h₁, h₂⟩ := h
    exact ⟨f₁, f₂, hsub.trans hseen, by rwa [hends.forward], by rwa [hends.carries]⟩
  · obtain ⟨f₁, f₂, f₃, hsub, h₁, h₂, h₃⟩ := h
    exact ⟨f₁, f₂, f₃, hsub.trans hseen, by rwa [hends.forward], by rwa [hends.carries],
      by rwa [hends.carries]⟩

/-- A frame of the connection takes it one stage further, or leaves it where it is. -/
theorem Stages.update {seen : List Frame} (h : Stages c seen)
    (hf : c.Carries f) (now : Nat) : Stages (update c f now) (seen ++ [f]) := by
  have hends := update_ends c f now
  have hcarries : (StatefulInspector.update c f now).Carries f := hends.carries.2 hf
  have hsame : ∀ {c'}, c.Ends c' → c'.state = c.state → Stages c' (seen ++ [f]) :=
    fun he hs => h.mono he hs (List.sublist_append_left ..)
  revert hends hcarries
  unfold StatefulInspector.update
  dsimp only
  split_ifs with hrst hfin hsyn hack
  · exact fun _ _ => trivial
  · exact fun _ _ => trivial
  · intro hends hcarries
    unfold Stages at h
    rw [hsyn.1] at h
    obtain ⟨f₁, hsub, h₁⟩ := h
    exact ⟨f₁, f, hsub.append (List.Sublist.refl [f]), by rwa [hends.forward], hsyn.2.1, hsyn.2.2,
      hcarries⟩
  · intro hends hcarries
    unfold Stages at h
    rw [hack.1] at h
    obtain ⟨f₁, f₂, hsub, h₁, h₂⟩ := h
    exact ⟨f₁, f₂, f, hsub.append (List.Sublist.refl [f]), by rwa [hends.forward],
      by rwa [hends.carries], hack.2, hcarries⟩
  · exact fun hends _ => hsame hends rfl

/-- The invariant of runs. -/
structure Watched.Inv (w : Watched) : Prop where
  unique : ∀ i j, (w.inspector.connections i).active → (w.inspector.connections j).active →
    (w.inspector.connections i).Same (w.inspector.connections j) → i = j
  stages : ∀ i, (w.inspector.connections i).active → Stages (w.inspector.connections i) (w.seen i)

variable {w : Watched}

/-- An entry is changed that keeps its addresses and ports, or is new in a slot of its own. -/
theorem Watched.Inv.set {w' : Watched} (h : w.Inv)
    (hset : w'.inspector = w.inspector.setConnection i c)
    (hseen : ∀ j, j ≠ i → w'.seen j = w.seen j)
    (hunique : c.active → ∀ j, j ≠ i → (w.inspector.connections j).active →
      ¬c.Same (w.inspector.connections j))
    (hstages : c.active → Stages c (w'.seen i)) : w'.Inv := by
  have hself : w'.inspector.connections i = c := by rw [hset]; exact update_self ..
  have hother : ∀ j, j ≠ i → w'.inspector.connections j = w.inspector.connections j := by
    intro j hj
    rw [hset]
    exact update_of_ne hj ..
  refine ⟨fun j k => ?_, fun j => ?_⟩
  · by_cases hj : j = i <;> by_cases hk : k = i
    · exact fun _ _ _ => hj.trans hk.symm
    · rw [hj, hself, hother k hk]
      exact fun hc hk' hsame => absurd hsame (hunique hc k hk hk')
    · rw [hk, hself, hother j hj]
      exact fun hj' hc hsame => absurd hsame.symm (hunique hc j hj hj')
    · rw [hother j hj, hother k hk]
      exact h.unique j k
  · by_cases hj : j = i
    · rw [hj, hself]
      exact hstages
    · rw [hother j hj, hseen j hj]
      exact h.stages j

/-- The frames seen for the entries that the frame does not belong to, and that it does not open. -/
theorem Watched.seen_frame (hfind : ¬(Inspects f ∧ w.inspector.find f = some j))
    (hopen : ¬((w.inspector.connections j).active = false ∧
      ((w.inspector.processTcpPacket f now).2.connections j).active)) :
    (w.step (.frame f now)).seen j = w.seen j := by
  simp only [Watched.step, if_neg hfind, if_neg hopen]

theorem Watched.Inv.stay (h : w.Inv) {pass : Bool}
    (hr : w.inspector.processTcpPacket f now = (pass, w.inspector))
    (hnone : Inspects f → w.inspector.find f = none) : (w.step (.frame f now)).Inv := by
  have hinspector : (w.step (.frame f now)).inspector = w.inspector := by
    change (w.inspector.processTcpPacket f now).2 = _
    rw [hr]
  have hseen : ∀ i, (w.step (.frame f now)).seen i = w.seen i := by
    intro i
    refine Watched.seen_frame (fun hfind => ?_) fun hopen => ?_
    · rw [hnone hfind.1] at hfind
      cases hfind.2
    · rw [hr] at hopen
      rw [hopen.1] at hopen
      cases hopen.2
  refine ⟨?_, fun i => ?_⟩
  · rw [hinspector]
    exact h.unique
  · rw [hinspector, hseen]
    exact h.stages i

/-- **Every event keeps the invariant.** -/
theorem Watched.Inv.step (h : w.Inv) (event : Event) : (w.step event).Inv := by
  cases event with
  | tick now =>
    have hcases : ∀ i, (w.inspector.tick now).connections i = w.inspector.connections i ∨
        ((w.inspector.tick now).connections i).active = false := by
      intro i
      unfold StatefulInspector.tick
      dsimp only
      split_ifs
      · exact .inr rfl
      · exact .inl rfl
    refine ⟨fun i j hi hj => ?_, fun i hi => ?_⟩
    · rcases hcases i with hci | hci <;> rcases hcases j with hcj | hcj
      · simp only [Watched.step, hci, hcj] at hi hj ⊢
        exact h.unique i j hi hj
      all_goals simp [Watched.step, hci, hcj] at hi hj
    · rcases hcases i with hci | hci
      · simp only [Watched.step, hci] at hi ⊢
        exact h.stages i hi
      · simp [Watched.step, hci] at hi
  | frame f now =>
    have hstep := processTcpPacket_inspected w.inspector f now
    generalize hr : w.inspector.processTcpPacket f now = r at hstep
    have hinspector : (w.step (.frame f now)).inspector = r.2 := by rw [← hr]; rfl
    cases hstep with
    | skip hf => exact h.stay hr fun hf' => absurd hf' hf
    | refuse hnone => exact h.stay hr hnone
    | belongs i hf hi =>
      have hself : (w.step (.frame f now)).seen i = w.seen i ++ [f] := if_pos ⟨hf, hi⟩
      obtain ⟨hactive, hcarries⟩ := find_some hi
      have hends := update_ends (w.inspector.connections i) f now
      refine h.set hinspector (fun j hj => ?_) (fun _ j hj hj' hsame => hj ?_) fun _ => ?_
      · refine Watched.seen_frame (fun hfind => hj ?_) fun hopen => ?_
        · exact (Option.some.inj (hi.symm.trans hfind.2)).symm
        · rw [hr] at hopen
          simp [setConnection, update_of_ne hj] at hopen
      · exact h.unique j i hj' hactive (((hends.same (.refl _)).1 hsame).symm)
      · rw [hself]
        exact (h.stages i hactive).update hcarries now
    | opens i hf hnone hi hsyn hack =>
      have hself : (w.step (.frame f now)).seen i = [f] := by
        simp [Watched.step, hnone, hr, hi, setConnection, opened]
      refine h.set hinspector (fun j hj => ?_) (fun _ j _ hj' hsame => ?_) fun _ => ?_
      · refine Watched.seen_frame (fun hfind => ?_) fun hopen => ?_
        · rw [hnone] at hfind
          cases hfind.2
        · rw [hr] at hopen
          simp [setConnection, update_of_ne hj] at hopen
      · -- the entry of the same connection would have been found
        refine find_none hnone hj' ?_
        rcases hsame with ⟨h₁, h₂, h₃, h₄⟩ | ⟨h₁, h₂, h₃, h₄⟩
        · exact .inl ⟨h₁.symm, h₂.symm, h₃.symm, h₄.symm⟩
        · exact .inr ⟨h₂.symm, h₁.symm, h₄.symm, h₃.symm⟩
      · rw [hself]
        exact ⟨f, List.Sublist.refl _, hsyn, hack, rfl, rfl, rfl, rfl⟩

theorem Watched.Inv.run (events : List Event) : (watch events).Inv := by
  refine Run.foldl_invariant (fun _ event _ h => h.step event) ⟨?_, ?_⟩
  · simp
  · simp

/-- **Runs of the inspector.** No two active entries describe one connection. An IPv4 TCP frame that
is let through is too short to be inspected, has opened an entry, or belongs to an active entry. An
established connection has seen, in this order, the `SYN` that opened it, a `SYN` with `ACK` and an
`ACK`. -/
theorem inspector_runs {events : List Event} {w : Watched} (hw : watch events = w) :
    (∀ i j, (w.inspector.connections i).active → (w.inspector.connections j).active →
      (w.inspector.connections i).Same (w.inspector.connections j) → i = j) ∧
    (∀ f now, f.ethType = 0x0800 → f.protocol = 6 → (w.inspector.processTcpPacket f now).1 = true →
      f.len < 34 ∨ 5 ≤ f.ihl ∧ ¬f.Beyond 14 ∨
        (f.isSyn ∧ f.isAck = false ∧ ∃ i, (w.inspector.connections i).active = false ∧
          (w.inspector.processTcpPacket f now).2.connections i = opened f now) ∨
        ∃ i, (w.inspector.connections i).active ∧ (w.inspector.connections i).Carries f) ∧
    (∀ i, (w.inspector.connections i).active → (w.inspector.connections i).state = .established →
      ∃ f₁ f₂ f₃, [f₁, f₂, f₃].Sublist (w.seen i) ∧
        (f₁.isSyn ∧ f₁.isAck = false ∧ (w.inspector.connections i).Forward f₁) ∧
        (f₂.isSyn ∧ f₂.isAck ∧ (w.inspector.connections i).Carries f₂) ∧
        f₃.isAck ∧ (w.inspector.connections i).Carries f₃) := by
  have hinv : w.Inv := hw ▸ Watched.Inv.run events
  refine ⟨hinv.unique, fun f now heth hprotocol hpass => ?_, fun i hi hstate => ?_⟩
  · exact processTcpPacket_passes heth hprotocol hpass
  · have hstages := hinv.stages i hi
    unfold Stages at hstages
    rwa [hstate] at hstages

/-- A TCP frame from port and host `src` to port and host `dst`. -/
def tcpFrame (src dst flags : UInt8) : Frame :=
  ⟨List.replicate 12 0 ++ [0x08, 0, 0x45, 0, 0, 0, 0, 0, 0, 0, 0, 6, 0, 0, 0, 0, 0, src,
    0, 0, 0, dst] ++
    [0, src, 0, dst, 0, 0, 0, 0, 0, 0, 0, 0, 0, flags]⟩

/-- A handshake of hosts 1 and 2. -/
theorem inspector_runs_handshake : ∃ w, w = watch [.frame (tcpFrame 1 2 0x02) 0,
      .frame (tcpFrame 2 1 0x12) 0, .frame (tcpFrame 1 2 0x10) 0] ∧
    ∃ f₁ f₂ f₃, [f₁, f₂, f₃].Sublist (w.seen 0) ∧
      (f₁.isSyn ∧ f₁.isAck = false ∧ (w.inspector.connections 0).Forward f₁) ∧
      (f₂.isSyn ∧ f₂.isAck ∧ (w.inspector.connections 0).Carries f₂) ∧
      f₃.isAck ∧ (w.inspector.connections 0).Carries f₃ :=
  ⟨_, rfl, (inspector_runs rfl).2.2 0 (by decide +kernel) (by decide +kernel)⟩

/-- Host 1 goes through the stages alone. -/
def oneSided : Watched :=
  watch [.frame (tcpFrame 1 2 0x02) 0, .frame (tcpFrame 1 2 0x12) 0, .frame (tcpFrame 1 2 0x10) 0]

/-- **Host 1 establishes a connection alone**, and a TCP frame without a TCP header gets through an
empty table. -/
theorem one_sided_handshake :
    ((oneSided.inspector.connections 0).active ∧
      (oneSided.inspector.connections 0).state = .established ∧
      ∀ f ∈ oneSided.seen 0, ¬(oneSided.inspector.connections 0).Backward f) ∧
    ((FirewallEngine.bareFrame 5 6).IsIpv4 ∧ (FirewallEngine.bareFrame 5 6).protocol = 6 ∧
      (FirewallEngine.bareFrame 5 6).isSyn = false ∧
      ((watch []).inspector.processTcpPacket (FirewallEngine.bareFrame 5 6) 0).1 = true ∧
      ∀ i, ((watch []).inspector.connections i).active = false) := by
  decide +kernel

end StatefulInspector

end AuroraOS
