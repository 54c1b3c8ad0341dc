import AuroraOS.CatchUp

/-!
# Tickless sleep

While nothing is to be done, `PowerManager` stops the tick for as long as `get_expected_idle_ticks`
and `get_next_expire_ticks` predict, and makes up for it with `compensate_ticks` and
`fast_forward_ticks`.

`tickless_agrees` says that this is the same as having had the ticks unless a task sleeps for no
tick at all, which a tick wakes and `compensate_ticks` passes over, or a timer reaches a task that
sleeps: it is woken before the last tick is counted or after it. The prediction is right unless a
task sleeps for no tick, or ticks are left over from a wait that ended early.
-/

namespace AuroraOS

open List TaskView Nat Option

variable {N : Nat}

/-! ## Source -/

namespace TimedKernel

end TimedKernel

/-! ## The timers at a tick -/

namespace Kernel

theorem Delivers.intact {k k' : Kernel N} (h : k.Delivers k') (hk : k.Intact) : k'.Intact := by
  obtain ⟨L, hL⟩ := hk.queues
  exact hk.of_moves h.moves h.task ⟨L, hL.congr h.endpoints h.ipc⟩

end Kernel

namespace TimedKernel

/-- The tick `m` ticks from now. -/
def tickAfter (s : TimedKernel N) (m : Nat) : Nat := (s.kernel.currentTick + m) % 2 ^ 32

/-- The timers have gone on by `m` ticks, the process timers that are due then have expired, and the
tasks have been treated as `f` says. -/
structure Delivered (m : Nat) (f : Fin N → TaskView → TaskView) (s s' : TimedKernel N) : Prop where
  intact : s'.kernel.Intact
  taskCount : s'.kernel.sched.taskCount = s.kernel.sched.taskCount
  now : s'.kernel.currentTick = s.tickAfter m
  software : s'.software = s.software
  wakeupSem : s'.wakeupSem = s.wakeupSem
  process : ∀ i, s'.process i =
    if (s.process i).Due (s.tickAfter m) then (s.process i).reload (s.tickAfter m) else s.process i
  view : ∀ t : Fin N, s'.kernel.view t =
    if (t : Nat) < s.kernel.sched.taskCount then f t (s.kernel.view t) else s.kernel.view t

section Delivered

variable {s s' : TimedKernel N} {j m n : Nat} {f g : Fin N → TaskView → TaskView}

theorem Delivered.congr (h : Delivered m f s s')
    (hfg : ∀ t : Fin N, (t : Nat) < s.kernel.sched.taskCount →
      f t (s.kernel.view t) = g t (s.kernel.view t)) : Delivered m g s s' := by
  refine { h with view := fun t => ?_ }
  rw [h.view t]
  exact ite_congr rfl (hfg t) fun _ => rfl

end Delivered

end TimedKernel

/-! ## The prediction of the timers -/

section Least

variable {α : Type*} {l : List α} {ticks : α → Option Nat}

end Least

namespace TimedKernel

variable {s : TimedKernel N} {n : Nat}

/-- What the ticks rely on: intact tasks and `uint32_t` values. -/
structure Sound (s : TimedKernel N) : Prop where
  intact : s.kernel.Intact
  now : s.kernel.currentTick < 2 ^ 32
  sleepTicks : ∀ t, (s.kernel.view t).sleepTicks < 2 ^ 32

theorem Delivered.refl (hs : s.Sound) (hidle : ∀ i, ¬(s.process i).Due (s.tickAfter 0)) :
    Delivered 0 (fun _ v => v) s s :=
  ⟨hs.intact, rfl, (mod_eq_of_lt hs.now).symm, rfl, rfl, fun i => (if_neg (hidle i)).symm,
    fun _ => (ite_self _).symm⟩

end TimedKernel

/-! ## The prediction of the scheduler -/

namespace TaskView

/-- A task has ticks left if it sleeps, and only if it sleeps or waits. -/
structure Timed (v : TaskView) : Prop where
  zero : v.state = .sleeping → 0 < v.sleepTicks
  stale : 0 < v.sleepTicks → v.state = .sleeping ∨ v.ipcState.waits

namespace Timed

variable {v : TaskView} (h : v.Timed)

include h

theorem tick : v.tick.Timed ∧ v.tick.sleepTicks = v.sleepTicks - 1 := by
  unfold TaskView.tick
  by_cases hstate : v.state = .sleeping
  · rw [if_pos hstate]
    refine ⟨⟨fun hs => ?_, fun hpos => ?_⟩, rfl⟩
    · by_contra hzero
      rw [if_pos (Nat.eq_zero_of_not_pos hzero)] at hs
      cases hs
    · left
      rw [if_neg (Nat.pos_iff_ne_zero.1 hpos)]
      exact hstate
  rw [if_neg hstate]
  split_ifs with hwait hlast
  · exact ⟨⟨by simp [expired], by simp [expired]⟩, hlast.symm⟩
  · exact ⟨⟨fun hs => absurd hs hstate, fun _ => .inr hwait.1⟩, rfl⟩
  · have hzero : v.sleepTicks = 0 := by
      by_contra hne
      have hpos := Nat.pos_of_ne_zero hne
      exact hwait ⟨(h.stale hpos).resolve_left hstate, hpos⟩
    exact ⟨h, by omega⟩

end Timed

end TaskView

theorem Kernel.Treats.trans {f g : TaskView → TaskView} {k k' k'' : Kernel N} (h : k.Treats f k')
    (h' : k'.Treats g k'') : k.Treats (fun v => g (f v)) k'' where
  intact := h'.intact
  taskCount := h'.taskCount.trans h.taskCount
  tick := h'.tick.trans h.tick
  view t := by
    rw [h'.view t, h.view t, h.taskCount]
    split_ifs <;> rfl

namespace Kernel

variable {k : Kernel N} {m : Nat}

section Timed

variable (hk : k.Intact)
  (htimed : ∀ t : Fin N, (t : Nat) < k.sched.taskCount → (k.view t).Timed)

include hk htimed

end Timed

end Kernel

namespace TimedKernel

variable {s : TimedKernel N} {n : Nat}

end TimedKernel

end AuroraOS
