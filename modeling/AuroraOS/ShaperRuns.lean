import AuroraOS.Firewall

/-!
# Flood protection over time

Runs of the `TrafficShaper`: frames come in, and with every tick `tick` is called. The limits are
meant per `RESET_INTERVAL`, but the counters of a host are dropped only when it has been quiet for
longer than that, and every frame of the host puts this off. What is counted is therefore a streak:
all that the host has sent since its last long pause.

`modest_host_passes`: a host whose streaks stay within the limits is never dropped. A host that
merely stays within the limits in every interval is dropped after a while, and for as long as it
keeps sending.
-/

namespace AuroraOS.TrafficShaper

open List Nat

/-! ## Runs -/

inductive Event
  | frame (f : Frame)
  | tick

/-- The shaper, and `tick_count`. -/
structure Timed where
  shaper : TrafficShaper
  now : Nat

def Timed.step (s : Timed) : Event → Timed
  | .frame f => ⟨(s.shaper.processPacket f s.now).2, s.now⟩
  | .tick =>
    let now := (s.now + 1) % 2 ^ 32
    ⟨s.shaper.tick now, now⟩

/-- A run from the start, at any tick. -/
def after (start : Nat) (events : List Event) : Timed :=
  events.foldl Timed.step ⟨{}, start % 2 ^ 32⟩

/-- The anomaly that is reported for a frame which comes next. -/
def Timed.verdict (s : Timed) (f : Frame) : Option String := (s.shaper.processPacket f s.now).1

/-- A frame of the host. -/
def From (ip : Nat) (f : Frame) : Prop := f.IsIpv4 ∧ f.srcIp = ip
  deriving Decidable

def icmps (f : Frame) : Nat := if f.protocol = 1 then 1 else 0

def syns (f : Frame) : Nat := if SeesSyn f then 1 else 0

/-- What a host has sent since it was last quiet for more than `resetInterval` ticks, how often the
destination port of a `SYN` was another than the one before, and how long the host has been quiet
now. -/
structure Streak where
  quiet : Nat := 0
  icmp : Nat := 0
  syn : Nat := 0
  scan : Nat := 0
  port : Nat := 0

namespace Streak

def sent (k : Streak) (f : Frame) : Streak where
  quiet := 0
  icmp := k.icmp + icmps f
  syn := k.syn + syns f
  scan := k.scan + if SeesSyn f ∧ k.port ≠ f.dstPort then 1 else 0
  port := if SeesSyn f then f.dstPort else k.port

def step (ip : Nat) (k : Streak) : Event → Streak
  | .frame f => if From ip f then k.sent f else k
  | .tick =>
    if k.quiet + 1 > resetInterval then { quiet := k.quiet + 1 }
    else { k with quiet := k.quiet + 1 }

/-- The limits. -/
def Modest (k : Streak) : Prop := k.icmp ≤ icmpLimit ∧ k.syn ≤ synLimit ∧ k.scan ≤ portScanLimit
  deriving Decidable

end Streak

def streak (ip : Nat) (events : List Event) : Streak := events.foldl (Streak.step ip) {}

/-! ## Counting -/

/-- **What the shaper does with a frame.** It counts it for the host it knows, or for a new one, or
it does not count it. -/
inductive Shaped (s : TrafficShaper) (f : Frame) (now : Nat) : Option String × TrafficShaper → Prop
  | skip : Shaped s f now (none, s)
  | known (i : Fin 8) (h : HostStats) (hf : f.IsIpv4)
      (hi : (s.hosts i).active ∧ (s.hosts i).srcIp = f.srcIp)
      (hh : h = { s.hosts i with lastActivityTick := now }) :
      Shaped s f now ((count h f).1, s.setHost i (count h f).2)
  | fresh (i : Fin 8) (h : HostStats) (hf : f.IsIpv4)
      (hh : h = { active := true, srcIp := f.srcIp, lastActivityTick := now }) :
      Shaped s f now ((count h f).1, s.setHost i (count h f).2)

theorem setHost_setHost (s : TrafficShaper) (i : Fin 8) (h h' : HostStats) :
    (s.setHost i h).setHost i h' = s.setHost i h' := by
  simp [setHost]

theorem processPacket_shaped (s : TrafficShaper) (f : Frame) (now : Nat) :
    Shaped s f now (s.processPacket f now) := by
  unfold processPacket
  by_cases hf : f.IsIpv4
  swap
  · rw [if_pos hf]
    exact .skip
  rw [if_neg (not_not.2 hf)]
  unfold getOrCreateStats
  have hset : ∀ i (h : HostStats), (s.setHost i h).hosts i = h := fun i h => Function.update_self ..
  cases hknown : (finRange 8).find? fun i =>
      decide ((s.hosts i).active ∧ (s.hosts i).srcIp = f.srcIp) with
  | some i =>
    simp only [hset, setHost_setHost]
    exact .known i _ hf (by simpa using find?_some hknown) rfl
  | none =>
    cases (finRange 8).find? fun i => !(s.hosts i).active with
    | some i =>
      simp only [hset, setHost_setHost]
      exact .fresh i _ hf rfl
    | none => exact .skip

variable {ip : Nat} {s : Timed} {k : Streak} {f : Frame} {h : HostStats}

theorem count_same (h : HostStats) (f : Frame) : (count h f).2.active = h.active ∧
    (count h f).2.srcIp = h.srcIp ∧ (count h f).2.lastActivityTick = h.lastActivityTick := by
  unfold count countIcmp countSyn
  dsimp only
  split_ifs <;> exact ⟨rfl, rfl, rfl⟩

/-- The counters are within the streak. A host that was entered late may remember another port than
the one that was asked for last; then it has counted less. -/
structure Within (k : Streak) (h : HostStats) : Prop where
  icmp : h.icmpCount ≤ k.icmp
  syn : h.synCount ≤ k.syn
  scan : k.syn ≤ synLimit →
    h.portScanCount < k.scan ∨ h.portScanCount ≤ k.scan ∧ h.lastDstPort = k.port

/-- What is not counted makes the streak longer. -/
theorem Within.sent (hk : Within k h) (f : Frame) : Within (k.sent f) h := by
  refine ⟨hk.icmp.trans (le_add_right _ _), hk.syn.trans (le_add_right _ _), fun hlimit => ?_⟩
  have hscan := hk.scan ((le_add_right _ _).trans hlimit)
  unfold Streak.sent
  dsimp only
  by_cases hsyn : SeesSyn f
  · by_cases hport : k.port = f.dstPort
    · simpa [hsyn, hport] using hscan
    · rw [if_pos ⟨hsyn, hport⟩]
      omega
  · simpa [hsyn] using hscan

/-- Counting keeps within the streak, and drops nothing as long as this is modest. -/
theorem Within.count (hk : Within k h) (f : Frame) : Within (k.sent f) (count h f).2 ∧
    ((k.sent f).Modest → (count h f).1 = none) := by
  have hicmp := hk.icmp
  have hsyn := hk.syn
  unfold TrafficShaper.count
  by_cases hf : f.protocol = 1
  · have hnot : ¬SeesSyn f := fun hc => by have := hc.1; omega
    rw [if_pos hf]
    refine ⟨⟨?_, by simpa [Streak.sent, syns, hnot, countIcmp] using hsyn, ?_⟩,
      fun hmodest => if_neg ?_⟩
    · simp only [Streak.sent, icmps, hf, if_true, countIcmp]
      omega
    · simpa [Streak.sent, syns, hnot, countIcmp] using hk.scan
    · have hle := hmodest.1
      simp only [Streak.sent, icmps, hf, if_true] at hle
      dsimp only
      omega
  rw [if_neg hf]
  by_cases hsees : SeesSyn f
  swap
  · rw [if_neg hsees]
    exact ⟨hk.sent f, fun _ => rfl⟩
  rw [if_pos hsees]
  have hsent : k.sent f = ⟨0, k.icmp, k.syn + 1, k.scan + if k.port ≠ f.dstPort then 1 else 0,
      f.dstPort⟩ := by
    simp [Streak.sent, icmps, syns, hf, hsees]
  rw [hsent]
  unfold countSyn Streak.Modest
  dsimp only
  by_cases hflood : (h.synCount + 1) % 2 ^ 32 > synLimit
  · rw [if_pos hflood]
    exact ⟨⟨hicmp, by dsimp only; omega, fun hlimit => by dsimp only at hlimit; omega⟩,
      fun hmodest => by omega⟩
  rw [if_neg hflood]
  have hscan := hk.scan
  by_cases hport : h.lastDstPort ≠ f.dstPort
  · rw [if_pos hport]
    refine ⟨⟨hicmp, by dsimp only; omega, fun hlimit => .inr ⟨?_, rfl⟩⟩, fun hmodest => if_neg ?_⟩
    · dsimp only at hlimit ⊢
      split_ifs <;> omega
    · have hle := hmodest.2.2
      split_ifs at hle <;> omega
  · rw [if_neg hport]
    refine ⟨⟨hicmp, by dsimp only; omega, fun hlimit => .inr ⟨?_, not_not.1 hport⟩⟩, fun _ => rfl⟩
    dsimp only at hlimit ⊢
    omega

/-! ## The invariant -/

/-- The counters of the host are within its streak, and its timestamp tells how long it has been
quiet. -/
structure Tracks (k : Streak) (now : Nat) (h : HostStats) : Prop where
  within : Within k h
  tick : h.lastActivityTick < 2 ^ 32
  quiet : k.quiet ≤ tickDiff now h.lastActivityTick
  recent : tickDiff now h.lastActivityTick ≤ resetInterval

structure Inv (ip : Nat) (s : Timed) (k : Streak) : Prop where
  now : s.now < 2 ^ 32
  port : k.port = 0 ∨ 0 < k.scan
  host : ∀ i, (s.shaper.hosts i).active → (s.shaper.hosts i).srcIp = ip →
    Tracks k s.now (s.shaper.hosts i)

theorem tickDiff_self (now : Nat) : tickDiff now now = 0 := by
  simp [tickDiff]

theorem tickDiff_succ {now tick : Nat} (hnow : now < 2 ^ 32) (htick : tick < 2 ^ 32)
    (hdiff : tickDiff now tick ≤ resetInterval) :
    tickDiff ((now + 1) % 2 ^ 32) tick = tickDiff now tick + 1 := by
  unfold tickDiff resetInterval at *
  omega

theorem Tracks.count {now : Nat} (hnow : now < 2 ^ 32) (hk : Within k h)
    (htick : h.lastActivityTick = now) : Tracks (k.sent f) now (count h f).2 := by
  have htick' := (count_same h f).2.2.trans htick
  refine ⟨(hk.count f).1, htick' ▸ hnow, zero_le _, ?_⟩
  rw [htick', tickDiff_self]
  exact zero_le _

theorem Tracks.frame {now : Nat} (hk : Tracks k now h) (f : Frame) :
    Tracks (k.step ip (.frame f)) now h := by
  unfold Streak.step
  dsimp only
  split_ifs
  · exact ⟨hk.within.sent f, hk.tick, zero_le _, hk.recent⟩
  · exact hk

section

variable (hinv : Inv ip s k)

include hinv

/-- The counters of a new host. -/
theorem Inv.fresh : Within k { active := true, srcIp := f.srcIp, lastActivityTick := s.now } := by
  refine ⟨zero_le _, zero_le _, fun _ => ?_⟩
  rcases hinv.port with hport | hscan
  · exact .inr ⟨zero_le _, hport.symm⟩
  · exact .inl hscan

theorem Inv.port_frame (f : Frame) :
    (k.step ip (.frame f)).port = 0 ∨ 0 < (k.step ip (.frame f)).scan := by
  have hport := hinv.port
  unfold Streak.step
  dsimp only
  split_ifs
  · unfold Streak.sent
    by_cases hsyn : SeesSyn f
    · by_cases hsame : k.port = f.dstPort
      · rw [if_pos hsyn, ← hsame]
        exact hport.imp_right fun hscan => Nat.add_pos_left hscan _
      · rw [if_pos (⟨hsyn, hsame⟩ : _ ∧ _)]
        exact .inr (succ_pos _)
    · rw [if_neg hsyn]
      exact hport.imp_right fun hscan => Nat.add_pos_left hscan _
  · exact hport

theorem Inv.setHost (f : Frame) {i : Fin 8} {stats : HostStats}
    (hstats : stats.active → stats.srcIp = ip → Tracks (k.step ip (.frame f)) s.now stats) :
    Inv ip ⟨s.shaper.setHost i stats, s.now⟩ (k.step ip (.frame f)) := by
  refine ⟨hinv.now, hinv.port_frame f, fun j => ?_⟩
  dsimp only [TrafficShaper.setHost]
  by_cases hj : j = i
  · rw [hj, Function.update_self]
    exact hstats
  · rw [Function.update_of_ne hj]
    exact fun hactive hsrc => (hinv.host j hactive hsrc).frame f

theorem Inv.frame (f : Frame) : Inv ip (s.step (.frame f)) (k.step ip (.frame f)) := by
  have hshaped := processPacket_shaped s.shaper f s.now
  have hsent : From ip f → k.step ip (.frame f) = k.sent f := fun hf => if_pos hf
  unfold Timed.step
  dsimp only
  generalize s.shaper.processPacket f s.now = r at hshaped ⊢
  cases hshaped with
  | skip =>
    exact ⟨hinv.now, hinv.port_frame f, fun i hactive hsrc => (hinv.host i hactive hsrc).frame f⟩
  | known i h hf hi hh =>
    refine hinv.setHost f fun _ hsrc => ?_
    have hip : (s.shaper.hosts i).srcIp = ip := by
      rw [(count_same h f).2.1, hh] at hsrc
      exact hsrc
    rw [hsent ⟨hf, hi.2.symm.trans hip⟩]
    have hk := (hinv.host i hi.1 hip).within
    refine .count hinv.now ?_ (by rw [hh])
    rw [hh]
    exact ⟨hk.icmp, hk.syn, hk.scan⟩
  | fresh i h hf hh =>
    refine hinv.setHost f fun _ hsrc => ?_
    have hip : f.srcIp = ip := by
      rw [(count_same h f).2.1, hh] at hsrc
      exact hsrc
    rw [hsent ⟨hf, hip⟩]
    refine .count hinv.now ?_ (by rw [hh])
    rw [hh]
    exact hinv.fresh

theorem Inv.tick : Inv ip (s.step .tick) (k.step ip .tick) := by
  refine ⟨mod_lt _ (by decide), ?_, fun i => ?_⟩
  · have hport := hinv.port
    unfold Streak.step
    split_ifs
    · exact .inl rfl
    · exact hport
  dsimp only [Timed.step, TrafficShaper.tick]
  split_ifs with hidle
  · simp
  · intro hactive hsrc
    have hk := hinv.host i hactive hsrc
    have hdiff := tickDiff_succ hinv.now hk.tick hk.recent
    have hquiet := hk.quiet
    have hrecent : ¬tickDiff ((s.now + 1) % 2 ^ 32) (s.shaper.hosts i).lastActivityTick >
        resetInterval := fun hgt => hidle ⟨hactive, hgt⟩
    -- the streak goes on, as the host has not been quiet for long
    have hstep : k.step ip .tick = { k with quiet := k.quiet + 1 } := if_neg (by omega)
    rw [hstep]
    exact ⟨⟨hk.within.icmp, hk.within.syn, hk.within.scan⟩, hk.tick, by dsimp only; omega, by omega⟩

end

theorem Inv.run (ip start : Nat) (events : List Event) :
    Inv ip (after start events) (streak ip events) := by
  induction events using reverseRecOn with
  | nil => exact ⟨mod_lt _ (by decide), .inl rfl, by simp [after]⟩
  | append_singleton events event ih =>
    rw [after, streak, foldl_append, foldl_append]
    cases event with
    | frame f => exact ih.frame f
    | tick => exact ih.tick

/-! ## Modest hosts -/

theorem Inv.passes (hinv : Inv ip s k) (hf : From ip f) (hk : (k.sent f).Modest) :
    s.verdict f = none := by
  have hshaped := processPacket_shaped s.shaper f s.now
  unfold Timed.verdict
  generalize s.shaper.processPacket f s.now = r at hshaped ⊢
  cases hshaped with
  | skip => rfl
  | known i h _ hi hh =>
    have hwithin := (hinv.host i hi.1 (hi.2.trans hf.2)).within
    refine (Within.count ?_ f).2 hk
    rw [hh]
    exact ⟨hwithin.icmp, hwithin.syn, hwithin.scan⟩
  | fresh i h _ hh =>
    refine (Within.count ?_ f).2 hk
    rw [hh]
    exact hinv.fresh

/-- **A host whose streaks stay within the limits is never dropped**: no frame of it, in any run,
with any traffic of others. -/
theorem modest_host_passes {ip start : Nat} {before : List Event} {f : Frame} (hf : From ip f)
    (hmodest : (streak ip (before ++ [.frame f])).Modest) :
    (after start before).verdict f = none := by
  rw [streak, foldl_append] at hmodest
  have hsent : foldl (Streak.step ip) (streak ip before) [.frame f] = (streak ip before).sent f :=
    if_pos hf
  exact (Inv.run ip start before).passes hf (hsent ▸ hmodest)

/-- An ICMP packet of host 10.0.0.1. -/
def ping : Frame := FirewallEngine.bareFrame 5 1

theorem modest_host_passes_ping : (after 7 [.frame ping, .tick]).verdict ping = none :=
  modest_host_passes (by decide : From 0x0A000001 ping) (by decide)

/-! ## A host within the limits of every interval -/

/-- The frames of a run with the ticks at which they come. -/
def frames : Nat → List Event → List (Nat × Frame)
  | _, [] => []
  | now, .frame f :: events => (now, f) :: frames now events
  | now, .tick :: events => frames (now + 1) events

/-- What the host sends in the `resetInterval` ticks from `t` on. -/
def sentIn (ip t : Nat) (events : List Event) : List Frame :=
  ((frames 0 events).filter fun p => From ip p.2 ∧ t ≤ p.1 ∧ p.1 < t + resetInterval).map Prod.snd

/-- In every interval of `resetInterval` ticks the host sends at most `icmpLimit` ICMP packets and
at most `portScanLimit` packets with `SYN`. -/
def WithinLimits (ip : Nat) (events : List Event) : Prop :=
  ∀ t, ((sentIn ip t events).map icmps).sum ≤ icmpLimit ∧
    ((sentIn ip t events).map syns).sum ≤ portScanLimit

/-- Pings, every 500 ticks. -/
def steady : Nat → List Event
  | 0 => []
  | n + 1 => steady n ++ .frame ping :: List.replicate 500 .tick

theorem frames_ticks (now n : Nat) (events : List Event) :
    frames now (replicate n .tick ++ events) = frames (now + n) events := by
  induction n generalizing now with
  | zero => rfl
  | succ n ih =>
    rw [replicate_succ, cons_append, frames, ih, add_right_comm, add_assoc]

theorem frames_steady (now n : Nat) (events : List Event) :
    frames now (steady n ++ events) =
      (range n).map (fun j => (now + 500 * j, ping)) ++ frames (now + 500 * n) events := by
  induction n generalizing events with
  | zero => rfl
  | succ n ih =>
    rw [steady, append_assoc, ih, cons_append, frames, frames_ticks, range_succ,
      map_append, append_assoc, map_singleton, singleton_append, mul_succ,
      add_assoc]

theorem sum_icmps_le (l : List Frame) : (l.map icmps).sum ≤ l.length := by
  induction l with
  | nil => exact le_refl _
  | cons f l ih =>
    have hle : icmps f ≤ 1 := by unfold icmps; split_ifs <;> omega
    simp only [map_cons, sum_cons, length_cons]
    omega

/-- No interval holds all of the pings. -/
theorem steady_withinLimits : WithinLimits 0x0A000001 (steady 20 ++ [.frame ping]) := by
  intro t
  have hsyns : ∀ l : List (Nat × Frame), (∀ p ∈ l, p.2 = ping) →
      ((l.map Prod.snd).map syns).sum = 0 := by
    intro l hl
    induction l with
    | nil => rfl
    | cons p l ih =>
      have hp : p.2 = ping := hl p mem_cons_self
      rw [map_cons, map_cons, sum_cons, hp, ih fun q hq => hl q (mem_cons_of_mem p hq)]
      decide
  have hrange : range 21 = range 20 ++ [20] := range_succ
  have hframes : frames 0 (steady 20 ++ [.frame ping]) =
      (range 21).map fun j => (500 * j, ping) := by
    rw [hrange, frames_steady, map_append, map_singleton]
    simp only [frames, zero_add]
  unfold sentIn
  rw [hframes]
  refine ⟨(sum_icmps_le _).trans ?_, ?_⟩
  · rw [length_map]
    rcases Nat.eq_zero_or_pos t with ht | ht
    · -- the last one is too late
      rw [hrange, map_append, filter_append, length_append]
      have hlast : ([20].map fun j => (500 * j, ping)).filter (fun p =>
          decide (From 0x0A000001 p.2 ∧ t ≤ p.1 ∧ p.1 < t + resetInterval)) = [] := by
        simp [ht, resetInterval]
      rw [hlast]
      exact (length_filter_le ..).trans (by simp [icmpLimit])
    · -- the first one is too early
      rw [range_succ_eq_map, map_cons, filter_cons_of_neg (by simp; omega)]
      exact (length_filter_le ..).trans (by simp [icmpLimit])
  · rw [hsyns]
    · exact zero_le _
    · intro p hp
      obtain ⟨j, -, rfl⟩ := mem_map.1 (mem_filter.1 hp).1
      rfl

/-- Ticks that make no host quiet for long change the time only. -/
theorem ticks_recent {n : Nat} (hnow : s.now < 2 ^ 32)
    (hrecent : ∀ i, (s.shaper.hosts i).active → (s.shaper.hosts i).lastActivityTick < 2 ^ 32 ∧
      tickDiff s.now (s.shaper.hosts i).lastActivityTick + n ≤ resetInterval) :
    (replicate n Event.tick).foldl Timed.step s = ⟨s.shaper, (s.now + n) % 2 ^ 32⟩ := by
  induction n generalizing s with
  | zero => rw [replicate_zero, foldl_nil, add_zero, mod_eq_of_lt hnow]
  | succ n ih =>
    have hstep : s.step .tick = ⟨s.shaper, (s.now + 1) % 2 ^ 32⟩ := by
      have hsame : s.shaper.tick ((s.now + 1) % 2 ^ 32) = s.shaper := by
        unfold TrafficShaper.tick
        congr 1
        funext i
        refine if_neg fun hidle => ?_
        obtain ⟨htick, hdiff⟩ := hrecent i hidle.1
        have := tickDiff_succ hnow htick (by omega)
        omega
      unfold Timed.step
      dsimp only
      rw [hsame]
    rw [replicate_succ, foldl_cons, hstep, ih (mod_lt _ (by decide))]
    · congr 1
      dsimp only
      omega
    · intro i hi
      obtain ⟨htick, hdiff⟩ := hrecent i hi
      have := tickDiff_succ hnow htick (by omega)
      exact ⟨htick, by dsimp only at *; omega⟩

/-- The first slot has counted `n` pings, the last of them at `now`. -/
def counted (n now : Nat) : TrafficShaper := ({} : TrafficShaper).setHost 0
  { active := true, srcIp := 0x0A000001, icmpCount := n, lastActivityTick := now }

theorem processPacket_counted (n last now : Nat) : (counted n last).processPacket ping now =
    (if (n + 1) % 2 ^ 32 > icmpLimit then some "ICMP Flood" else none,
      counted ((n + 1) % 2 ^ 32) now) := by
  have hfind : (finRange 8).find? (fun i => decide (((counted n last).hosts i).active ∧
      ((counted n last).hosts i).srcIp = ping.srcIp)) = some 0 := rfl
  unfold processPacket getOrCreateStats
  rw [hfind]
  dsimp only
  unfold counted
  rw [setHost_setHost, setHost_setHost]
  rfl

theorem after_steady (start : Nat) {n : Nat} (hn : n < 20) :
    ∃ last < 2 ^ 32, after start (steady (n + 1)) =
      ⟨counted (n + 1) last, (last + 500) % 2 ^ 32⟩ := by
  -- what a ping and the ticks that follow it do, once the ping has been counted
  have hticks : ∀ n now, now < 2 ^ 32 → (replicate 500 Event.tick).foldl Timed.step
      ⟨counted n now, now⟩ = ⟨counted n now, (now + 500) % 2 ^ 32⟩ := by
    intro n now hnow
    refine ticks_recent hnow fun i hi => ?_
    have hzero : i = 0 := by
      by_contra hne
      simp [counted, setHost, Function.update_of_ne hne] at hi
    rw [hzero]
    exact ⟨hnow, by simp [counted, setHost, tickDiff_self, resetInterval]⟩
  induction n with
  | zero =>
    have hnow : start % 2 ^ 32 < 2 ^ 32 := mod_lt _ (by decide)
    have hping : Timed.step ⟨{}, start % 2 ^ 32⟩ (.frame ping) =
        ⟨counted 1 (start % 2 ^ 32), start % 2 ^ 32⟩ := by
      have hknown : (finRange 8).find? (fun i => decide ((({} : TrafficShaper).hosts i).active ∧
          (({} : TrafficShaper).hosts i).srcIp = ping.srcIp)) = none := rfl
      have hfree : (finRange 8).find? (fun i => !(({} : TrafficShaper).hosts i).active) =
          some 0 := rfl
      unfold Timed.step processPacket getOrCreateStats
      dsimp only
      rw [hknown]
      rw [hfree]
      dsimp only
      rw [setHost_setHost]
      rfl
    refine ⟨start % 2 ^ 32, hnow, ?_⟩
    rw [after, steady, steady, nil_append, foldl_cons, hping, hticks 1 _ hnow]
  | succ n ih =>
    obtain ⟨last, -, hafter⟩ := ih (by omega)
    have hnow : (last + 500) % 2 ^ 32 < 2 ^ 32 := mod_lt _ (by decide)
    refine ⟨(last + 500) % 2 ^ 32, hnow, ?_⟩
    rw [steady, after, foldl_append]
    change foldl Timed.step (after start (steady (n + 1))) _ = _
    rw [hafter, foldl_cons, Timed.step, processPacket_counted]
    rw [mod_eq_of_lt (by omega : n + 1 + 1 < 2 ^ 32), hticks _ _ hnow]

/-- **A host that pings every 500 ticks is dropped** with its twenty-first ping, though it sends two
in an interval. -/
theorem steady_host_dropped : WithinLimits 0x0A000001 (steady 20 ++ [.frame ping]) ∧
    From 0x0A000001 ping ∧ (after 0 (steady 20)).verdict ping = some "ICMP Flood" := by
  obtain ⟨last, -, hafter⟩ := after_steady 0 (by decide : 19 < 20)
  refine ⟨steady_withinLimits, by decide, ?_⟩
  rw [hafter, Timed.verdict]
  rfl

end AuroraOS.TrafficShaper
