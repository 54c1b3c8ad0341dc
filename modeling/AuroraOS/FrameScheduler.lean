import AuroraOS.Lib.Run

/-!
# The clock of the display

`FrameSchedulerV2` of `kernel/scheduler/frame_scheduler_v2.hpp`. A frame lasts the nominal period
that `set_fps` computes, or the period that has been measured between the pulses of the display,
smoothed by a moving average. The words are natural numbers, wrapped where the source can wrap. The
flag of the render window and the notifications of the render task are left out: no function here
reads them.

`set_fps` with more than 1000 frames per second makes the nominal period 0, and `on_tick` then takes
a remainder by it. `safe_iff_hasPeriod`: this is the only thing that goes wrong.
-/

namespace AuroraOS

/-- The period while the display sleeps. -/
def noPeriod : Nat := 0xFFFFFFFF

structure FrameSchedulerV2 where
  targetFps : Nat := 30
  framePeriodTicks : Nat := 33
  currentFrameTick : Nat := 0
  lastVsyncTick : Nat := 0
  measuredVsyncPeriodTicks : Nat := 33
  vsyncSampleCount : Nat := 0
  systemTicks : Nat := 0
  hasDynamicVsync : Bool := false

namespace FrameSchedulerV2

variable (s : FrameSchedulerV2) {delta : Nat}

def setFps (fps : UInt32) : FrameSchedulerV2 :=
  if 0 < fps.toNat then
    { s with
      targetFps := fps.toNat
      framePeriodTicks := 1000 / fps.toNat
      measuredVsyncPeriodTicks :=
        if s.measuredVsyncPeriodTicks = 0 ∨ ¬ s.hasDynamicVsync then 1000 / fps.toNat
        else s.measuredVsyncPeriodTicks }
  else
    { s with targetFps := 0, framePeriodTicks := noPeriod, measuredVsyncPeriodTicks := noPeriod }

def init (initialFps : UInt32) : FrameSchedulerV2 :=
  { s.setFps initialFps with
    currentFrameTick := 0, lastVsyncTick := 0, vsyncSampleCount := 0, systemTicks := 0
    hasDynamicVsync := false }

/-- The measured period is in force, not the nominal one. -/
def Measured : Prop :=
  s.hasDynamicVsync ∧ 0 < s.measuredVsyncPeriodTicks ∧ s.measuredVsyncPeriodTicks ≠ noPeriod
  deriving Decidable

def period : Nat := if s.Measured then s.measuredVsyncPeriodTicks else s.framePeriodTicks

def getTicksToNextVsync : Nat :=
  if s.targetFps = 0 then noPeriod
  else if s.Measured then
    let elapsed := if s.systemTicks ≥ s.lastVsyncTick then s.systemTicks - s.lastVsyncTick else 0
    if elapsed < s.measuredVsyncPeriodTicks then s.measuredVsyncPeriodTicks - elapsed else 0
  else if s.framePeriodTicks ≤ s.currentFrameTick then 0
  else s.framePeriodTicks - s.currentFrameTick

/-- The time of a pulse: 0 stands for the present. -/
def pulseTime (nowTicks : UInt32) : Nat :=
  if nowTicks.toNat = 0 then s.systemTicks else nowTicks.toNat

/-- The time since the last pulse, if it is a plausible one. -/
def sample (now : Nat) : Option Nat :=
  let delta := now - s.lastVsyncTick
  if (s.lastVsyncTick > 0 ∧ now > s.lastVsyncTick) ∧ delta ≥ 5 ∧ delta ≤ 2000 then some delta
  else none

/-- The first sample is taken as it is. -/
def Restarts : Prop :=
  s.vsyncSampleCount = 0 ∨ s.measuredVsyncPeriodTicks = 0 ∨ s.measuredVsyncPeriodTicks = noPeriod
  deriving Decidable

/-- The moving average: three quarters history, one quarter the sample. -/
def smooth (delta : Nat) : Nat :=
  if s.Restarts then delta else (s.measuredVsyncPeriodTicks * 3 + delta) % 2 ^ 32 / 4

def onHardwareVsync (nowTicks : UInt32) : FrameSchedulerV2 :=
  if s.targetFps = 0 then s
  else
    let now := s.pulseTime nowTicks
    let measured := match s.sample now with
      | some delta =>
        { s with
          measuredVsyncPeriodTicks := s.smooth delta
          vsyncSampleCount := (s.vsyncSampleCount + 1) % 2 ^ 32 }
      | none => s
    { measured with
      systemTicks := if now > s.systemTicks then now else s.systemTicks
      lastVsyncTick := now, hasDynamicVsync := true, currentFrameTick := 0 }

/-- Nothing is returned where the source takes a remainder by 0. -/
def onTick (deltaTicks : UInt32) : Option FrameSchedulerV2 :=
  let s := { s with systemTicks := (s.systemTicks + deltaTicks.toNat) % 2 ^ 32 }
  if s.targetFps = 0 then some s
  else
    let s := { s with currentFrameTick := (s.currentFrameTick + deltaTicks.toNat) % 2 ^ 32 }
    if s.currentFrameTick ≥ s.period then
      if s.period = 0 then none
      else some { s with currentFrameTick := s.currentFrameTick % s.period }
    else some s

inductive Op
  | init (initialFps : UInt32)
  | setFps (fps : UInt32)
  | onHardwareVsync (nowTicks : UInt32)
  | onTick (deltaTicks : UInt32)

def Op.exec : Op → FrameSchedulerV2 → Option FrameSchedulerV2
  | .init fps, s => some (s.init fps)
  | .setFps fps, s => some (s.setFps fps)
  | .onHardwareVsync now, s => some (s.onHardwareVsync now)
  | .onTick delta, s => s.onTick delta

/-- A call divides by nothing that is 0 and averages without overflow, and after a tick the next
frame is predicted within a period. -/
def Safe (s : FrameSchedulerV2) : Op → Prop
  | .init _ | .setFps _ => True
  | .onHardwareVsync now => ∀ delta ∈ s.sample (s.pulseTime now), ¬ s.Restarts →
    s.measuredVsyncPeriodTicks * 3 + delta < 2 ^ 32
  | .onTick delta => ∃ s', s.onTick delta = some s' ∧
    (0 < s'.targetFps → s'.getTicksToNextVsync ≤ s'.period)

/-- A tick finds a period: the frame rate is at most 1000, or a period has been measured. -/
def HasPeriod (s : FrameSchedulerV2) : Op → Prop
  | .onTick _ => s.targetFps ≤ 1000 ∨ s.Measured
  | _ => True

/-- The nominal period is that of the frame rate, and the measured one is plausible. -/
structure Inv : Prop where
  nominal : s.framePeriodTicks = if s.targetFps = 0 then noPeriod else 1000 / s.targetFps
  measured : s.measuredVsyncPeriodTicks ≤ 2000 ∨ s.measuredVsyncPeriodTicks = noPeriod

variable {s}

theorem getTicksToNextVsync_le (hfps : 0 < s.targetFps) : s.getTicksToNextVsync ≤ s.period := by
  simp only [getTicksToNextVsync, period]
  split_ifs <;> omega

theorem sample_le {now : Nat} (h : delta ∈ s.sample now) : delta ≤ 2000 := by
  simp only [sample, Option.mem_def, Option.ite_none_right_eq_some, Option.some.injEq] at h
  omega

namespace Inv

variable (h : s.Inv)

include h

theorem average_le (hdelta : delta ≤ 2000) (hs : ¬ s.Restarts) :
    s.measuredVsyncPeriodTicks * 3 + delta ≤ 4 * 2000 := by
  have hne : s.measuredVsyncPeriodTicks ≠ noPeriod := fun heq => hs (.inr (.inr heq))
  have hle := h.measured.resolve_right hne
  omega

theorem smooth_le (hdelta : delta ≤ 2000) : s.smooth delta ≤ 2000 := by
  unfold smooth
  split_ifs with hs
  · exact hdelta
  · have hsum := h.average_le hdelta hs
    rw [Nat.mod_eq_of_lt (by omega)]
    omega

/-- With the nominal period in force, a tick fails exactly if there are more frames than ticks. -/
theorem period_eq_zero_iff (hfps : s.targetFps ≠ 0) :
    s.period = 0 ↔ ¬(s.targetFps ≤ 1000 ∨ s.Measured) := by
  unfold period
  split_ifs with hm
  · simp [hm, hm.2.1.ne']
  · rw [h.nominal, if_neg hfps]
    simp [hm, hfps]

theorem safe_iff (op : Op) : s.Safe op ↔ s.HasPeriod op := by
  cases op with
  | init fps => exact Iff.rfl
  | setFps fps => exact Iff.rfl
  | onHardwareVsync now =>
    refine iff_of_true (fun delta hdelta hs => ?_) trivial
    have hsum := h.average_le (sample_le hdelta) hs
    omega
  | onTick delta =>
    by_cases hfps : s.targetFps = 0
    · simp [Safe, HasPeriod, onTick, hfps]
    have hzero : s.HasPeriod (.onTick delta) ↔ s.period ≠ 0 := by
      rw [ne_eq, h.period_eq_zero_iff hfps, not_not]
      rfl
    rw [hzero]
    simp only [Safe, onTick, hfps]
    change (∃ s', (if _ ≥ s.period then if s.period = 0 then none else _ else _) = some s' ∧ _) ↔ _
    constructor
    · rintro ⟨s', hs', -⟩ hperiod
      simp [hperiod] at hs'
    · intro hperiod
      split_ifs
      · exact ⟨_, rfl, getTicksToNextVsync_le⟩
      · exact ⟨_, rfl, getTicksToNextVsync_le⟩

theorem setFps (fps : UInt32) : (s.setFps fps).Inv := by
  unfold FrameSchedulerV2.setFps
  split_ifs with hfps
  · exact ⟨by simp [hfps.ne'], .inl ((Nat.div_le_self 1000 _).trans (by omega))⟩
  · exact ⟨by simp [hfps.ne'], h.measured⟩
  · exact ⟨rfl, .inr rfl⟩

theorem onHardwareVsync (now : UInt32) : (s.onHardwareVsync now).Inv := by
  rw [FrameSchedulerV2.onHardwareVsync]
  by_cases hfps : s.targetFps = 0
  · rwa [if_pos hfps]
  · rw [if_neg hfps]
    dsimp only
    cases hsample : s.sample (s.pulseTime now) with
    | none => exact ⟨h.nominal, h.measured⟩
    | some => exact ⟨h.nominal, .inl (h.smooth_le (sample_le hsample))⟩

theorem exec {s' : FrameSchedulerV2} {op : Op} (hop : op.exec s = some s') : s'.Inv := by
  cases op with
  | init fps =>
    cases hop
    exact ⟨(h.setFps fps).nominal, (h.setFps fps).measured⟩
  | setFps fps =>
    cases hop
    exact h.setFps fps
  | onHardwareVsync now =>
    cases hop
    exact h.onHardwareVsync now
  | onTick =>
    simp only [Op.exec, onTick] at hop
    split_ifs at hop <;> cases hop <;> exact ⟨h.nominal, h.measured⟩

end Inv

/-- **The frame scheduler is safe in exactly those runs in which every tick finds a period.** -/
theorem safe_iff_hasPeriod (ops : List Op) :
    Run.Allowed Op.exec Safe ops {} ↔ Run.Allowed Op.exec HasPeriod ops {} :=
  Run.Allowed.congr (I := Inv) (fun _ op h => h.safe_iff op) (fun _ _ _ h _ hop => h.exec hop)
    ⟨rfl, .inl (by decide)⟩

/-- A frame rate of 1001 gives a period of 0, and the next tick divides by it. -/
theorem tick_divides_by_zero :
    (FrameSchedulerV2.setFps {} 1001).onTick 1 = none ∧
      ¬ Run.Allowed Op.exec Safe [.setFps 1001, .onTick 1] {} := by
  have hnone : (FrameSchedulerV2.setFps {} 1001).onTick 1 = none := rfl
  refine ⟨hnone, fun h => ?_⟩
  obtain ⟨s', hs', -⟩ := (h.2 _ rfl).1
  cases hnone.symm.trans hs'

end FrameSchedulerV2

end AuroraOS
