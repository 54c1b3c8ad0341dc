import AuroraOS.Semaphore

/-!
# Timers

`ProcessTimerManager` of `kernel/core/process_timer.cpp` and the interrupt side of `TimerManager` of
`kernel/interrupt/timer.hpp`. The tick count `current_tick_` is the kernel's `currentTick`; tick
counts are `uint32_t`. A semaphore is signalled up to its call of `schedule`, as in
`Semaphore.signal`.

A task's `view` is what timers and ticks may do to it; every delivery of a timer is described by it.
-/

namespace AuroraOS

open Bitmap Scheduler List TimerFlags

variable {N : Nat}

/-! ## Data -/

structure ProcessTimer where
  allocated : Bool
  active : Bool
  ownerTaskId : Nat
  flags : BitVec 32
  expireTick : Nat
  periodTicks : Nat
  notifyParam : BitVec 32
  deriving DecidableEq

structure ProcessTimerDesc where
  flags : BitVec 32
  initialDelayMs : Nat
  intervalMs : Nat
  notifyParam : BitVec 32
  deriving DecidableEq

/-- The fields of `SoftwareTimer` that the tick looks at. -/
structure SoftwareTimer where
  active : Bool
  expireTick : Nat
  deriving DecidableEq

/-- The kernel with its timers. -/
structure TimedKernel (N : Nat) where
  kernel : Kernel N
  software : Fin 8 → SoftwareTimer
  wakeupSem : Semaphore
  process : Fin 16 → ProcessTimer

/-- `Periodic` is bit 0 and `Absolute` bit 1 of a timer's `flags`. -/
def TimerFlags.periodic : Nat := 0

def TimerFlags.absolute : Nat := 1

/-- `TICK_RATE_HZ`, unless configured. -/
def tickRateHz : Nat := 1000

def msToTicks (ms : Nat) : Nat :=
  if ms = 0 then 0
  else
    let ticks := (ms * tickRateHz + 999) % 2 ^ 32 / 1000
    if ticks = 0 then 1 else ticks

namespace ProcessTimer

/-- A free slot. -/
def zero : ProcessTimer := ⟨false, false, 0, 0, 0, 0, 0⟩

/-- The timer expires at this tick. -/
def Due (t : ProcessTimer) (now : Nat) : Prop := t.allocated ∧ t.active ∧ t.expireTick ≤ now
  deriving Decidable

/-- A timer after it has expired. -/
def reload (t : ProcessTimer) (now : Nat) : ProcessTimer :=
  if t.flags.getLsbD periodic ∧ t.periodTicks > 0 then
    let expire := (t.expireTick + t.periodTicks) % 2 ^ 32
    -- a timer that has fallen behind starts anew
    { t with expireTick := if now ≥ expire then (now + t.periodTicks) % 2 ^ 32 else expire }
  else { t with active := false }

end ProcessTimer

def SoftwareTimer.Due (t : SoftwareTimer) (now : Nat) : Prop := t.active ∧ t.expireTick ≤ now
  deriving Decidable

namespace ProcessTimerDesc

/-- The tick at which a timer with this descriptor expires. -/
def expireTick (d : ProcessTimerDesc) (now : Nat) : Nat :=
  if d.flags.getLsbD absolute then msToTicks d.initialDelayMs
  else (now + msToTicks d.initialDelayMs) % 2 ^ 32

end ProcessTimerDesc

namespace TimedKernel

/-! ## Calls by tasks -/

def setProcess (s : TimedKernel N) (i : Fin 16) (t : ProcessTimer) : TimedKernel N :=
  { s with process := Function.update s.process i t }

theorem process_setProcess (s : TimedKernel N) (i j : Fin 16) (t : ProcessTimer) :
    (s.setProcess i t).process j = if j = i then t else s.process j := by
  simp only [setProcess, Function.update_apply]

/-- `create_timer`: the slot, or `-1` for a null pointer, or `-2` without a free slot. -/
def createTimer (s : TimedKernel N) (owner : Option (Fin N)) (desc : Option ProcessTimerDesc) :
    TimedKernel N × Int :=
  match owner, desc with
  | some o, some d =>
    match (List.finRange 16).find? fun i => !(s.process i).allocated with
    | none => (s, -2)
    | some i =>
      (s.setProcess i
        { allocated := true
          active := d.initialDelayMs > 0 ∨ d.flags.getLsbD absolute
          ownerTaskId := (s.kernel.sched.tasks o).id
          flags := d.flags
          expireTick := d.expireTick s.kernel.currentTick
          periodTicks := msToTicks d.intervalMs
          notifyParam := d.notifyParam }, (i : Nat))
  | _, _ => (s, -1)

/-- The checks that the calls on a timer share: the slot, if it is a timer of this task. -/
def ownTimer (s : TimedKernel N) (owner : Option (Fin N)) (timerId : Nat) : Option (Fin 16) :=
  match owner with
  | none => none
  | some o =>
    if h : timerId < 16 then
      let t := s.process ⟨timerId, h⟩
      if t.allocated ∧ t.ownerTaskId = (s.kernel.sched.tasks o).id then some ⟨timerId, h⟩ else none
    else none

/-- `start_timer`. -/
def startTimer (s : TimedKernel N) (owner : Option (Fin N)) (timerId : Nat)
    (desc : Option ProcessTimerDesc) : TimedKernel N × Int :=
  match s.ownTimer owner timerId with
  | none => (s, -1)
  | some i =>
    let t := s.process i
    let t :=
      match desc with
      | none => t
      | some d =>
        { t with
          flags := d.flags
          notifyParam := d.notifyParam
          periodTicks := msToTicks d.intervalMs
          expireTick := d.expireTick s.kernel.currentTick }
    (s.setProcess i { t with active := true }, 0)

/-- `stop_timer`. -/
def stopTimer (s : TimedKernel N) (owner : Option (Fin N)) (timerId : Nat) : TimedKernel N × Int :=
  match s.ownTimer owner timerId with
  | none => (s, -1)
  | some i => (s.setProcess i { s.process i with active := false }, 0)

/-- `delete_timer`. -/
def deleteTimer (s : TimedKernel N) (owner : Option (Fin N)) (timerId : Nat) :
    TimedKernel N × Int :=
  match s.ownTimer owner timerId with
  | none => (s, -1)
  | some i => (s.setProcess i .zero, 0)

/-- `cleanup_task_timers`. -/
def cleanupTaskTimers (s : TimedKernel N) (taskId : Nat) : TimedKernel N :=
  { s with
    process := fun i =>
      let t := s.process i
      if t.allocated ∧ t.ownerTaskId = taskId then .zero else t }

/-! ## Ticks -/

/-- A round of `ProcessTimerManager::on_tick`. -/
def fire (s : TimedKernel N) (i : Fin 16) : TimedKernel N :=
  let t := s.process i
  if t.Due s.kernel.currentTick then
    { s.setProcess i (t.reload s.kernel.currentTick) with
      kernel := s.kernel.timerExpiry i t.ownerTaskId t.flags t.notifyParam }
  else s

/-- `ProcessTimerManager::on_tick`. -/
def processOnTick (s : TimedKernel N) : TimedKernel N := (List.finRange 16).foldl fire s

/-- What `on_tick` and `fast_forward_ticks` of `TimerManager` do before the process timers. -/
def advance (s : TimedKernel N) (ticks : Nat) : TimedKernel N :=
  let now := (s.kernel.currentTick + ticks) % 2 ^ 32
  let s := { s with kernel := { s.kernel with currentTick := now } }
  if ∃ i, (s.software i).Due now then
    let (k, sem) := s.wakeupSem.signal s.kernel
    { s with kernel := k, wakeupSem := sem }
  else s

/-- `TimerManager::on_tick`. -/
def onTick (s : TimedKernel N) : TimedKernel N := (s.advance 1).processOnTick

/-- `TimerManager::fast_forward_ticks`. -/
def fastForwardTicks (s : TimedKernel N) (ticks : Nat) : TimedKernel N :=
  (s.advance ticks).processOnTick

end TimedKernel

/-! ## Views of a task -/

/-- The part of a task that timers and ticks may change. -/
structure TaskView where
  state : TaskState
  sleepTicks : Nat
  ipcState : IpcState
  ipcStatus : IpcStatus
  pendingSignals : BitVec 32
  notifyValue : BitVec 32
  notifyPending : Bool
  deriving DecidableEq

namespace TaskView

/-- A signal has been sent to the task. -/
def signalled (v : TaskView) (sig : Int) : TaskView :=
  if sig ≤ 0 ∨ 32 ≤ sig then v
  else if v.state = .terminated then v
  else
    { v with
      pendingSignals := setBit v.pendingSignals sig.toNat
      state := if v.state = .sleeping ∨ v.state = .blockedOnNotify then .ready else v.state }

/-- A timer has notified the task. -/
def notified (v : TaskView) (val : BitVec 32) : TaskView :=
  { v with
    notifyValue := v.notifyValue ||| val
    notifyPending := true
    state := if v.state = .suspended ∨ v.state = .sleeping then .ready else v.state }

/-- A timer of the task has expired. -/
def timer (v : TaskView) (index : Nat) (flags param : BitVec 32) : TaskView :=
  if flags.getLsbD notifySignal then
    v.signalled (if param ≠ 0#32 then param.toInt else sigAlrm)
  else if flags.getLsbD notifyIpc then v.notified (1#32 <<< (param.toNat % 32))
  else if flags.getLsbD notifyEvent then
    v.notified (if param ≠ 0#32 then param else 1#32 <<< index)
  else v.signalled sigAlrm

end TaskView

namespace Kernel

def view (k : Kernel N) (t : Fin N) : TaskView where
  state := (k.sched.tasks t).state
  sleepTicks := (k.sched.tasks t).sleepTicks
  ipcState := (k.ipc t).state
  ipcStatus := (k.ipc t).status
  pendingSignals := (k.security t).pendingSignals
  notifyValue := (k.ipc t).notifyValue
  notifyPending := (k.ipc t).notifyPending

section View

variable (k : Kernel N)

theorem view_setTaskState (id : Nat) (st : TaskState) (t : Fin N) :
    (k.setTaskState id st).view t =
      if (t : Nat) = id ∧ id < k.sched.taskCount then { k.view t with state := st }
      else k.view t := by
  have hstate := state_setTaskState k.sched id st t
  have hsleep : ((k.sched.setTaskState id st).tasks t).sleepTicks =
      (k.sched.tasks t).sleepTicks := by
    have h := congrArg SchedulerContext.sleepTicks (unlinked_setTaskState k.sched id st t)
    split_ifs at h <;> exact h
  unfold view
  simp only [setTaskState, hstate, hsleep]
  split_ifs <;> rfl

theorem view_setTaskPriority (id p : Nat) (t : Fin N) :
    (k.setTaskPriority id p).view t = k.view t := by
  have hsleep : ((k.sched.setTaskPriority id p).tasks t).sleepTicks =
      (k.sched.tasks t).sleepTicks := by
    have h := congrArg SchedulerContext.sleepTicks (unlinked_setTaskPriority k.sched id p t)
    split_ifs at h <;> exact h
  unfold view
  simp only [setTaskPriority, state_setTaskPriority, hsleep]

end View

/-- Task `i` is changed as `f` says, and the others are left alone. -/
def Turns (k : Kernel N) (i : Fin N) (f : TaskView → TaskView) (k' : Kernel N) : Prop :=
  ∀ t, k'.view t = if t = i then f (k.view t) else k.view t

namespace Turns

variable {k k' k'' : Kernel N} {i : Fin N} {f g : TaskView → TaskView}

theorem of_self (hself : k'.view i = f (k.view i)) (hother : ∀ t, t ≠ i → k'.view t = k.view t) :
    k.Turns i f k' := by
  intro t
  split_ifs with hti
  · rw [hti, hself]
  · exact hother t hti

theorem refl (hf : f (k.view i) = k.view i) : k.Turns i f k := of_self hf.symm fun _ _ => rfl

theorem trans (h : k.Turns i f k') (h' : k'.Turns i g k'') : k.Turns i (fun v => g (f v)) k'' := by
  intro t
  rw [h' t, h t]
  split_ifs <;> rfl

theorem congr (h : k.Turns i f k') (hfg : f (k.view i) = g (k.view i)) : k.Turns i g k' := by
  refine of_self ?_ fun t hti => (h t).trans (if_neg hti)
  rw [h i, if_pos rfl, hfg]

theorem setTaskState {id : Nat} (hid : id = i) (hi : (i : Nat) < k.sched.taskCount)
    (st : TaskState) :
    k.Turns i (fun v => { v with state := st }) (k.setTaskState id st) := by
  intro t
  rw [view_setTaskState, hid]
  refine if_congr ?_ rfl rfl
  rw [and_iff_left hi, Fin.ext_iff]

theorem setSleepTicks (k : Kernel N) (i : Fin N) (n : Nat) :
    k.Turns i (fun v => { v with sleepTicks := n }) (k.setSleepTicks i n) := by
  refine of_self ?_ fun t hti => ?_
  all_goals simp [view, Kernel.setSleepTicks, Scheduler.setSleepTicks, Scheduler.tasks_modify, *]

theorem modifyIpc (c : IpcContext N → IpcContext N)
    (hf : { k.view i with
      ipcState := (c (k.ipc i)).state
      ipcStatus := (c (k.ipc i)).status
      notifyValue := (c (k.ipc i)).notifyValue
      notifyPending := (c (k.ipc i)).notifyPending } = f (k.view i)) :
    k.Turns i f (k.modifyIpc i c) := by
  refine of_self (.trans ?_ hf) fun t hti => ?_
  all_goals simp [view, Kernel.modifyIpc, *]

theorem wake (P : TaskState → Prop) [DecidablePred P] (hid : (k.sched.tasks i).id = i)
    (hi : (i : Nat) < k.sched.taskCount) :
    k.Turns i (fun v => { v with state := if P v.state then .ready else v.state })
      (if P (k.sched.tasks i).state then k.setTaskState (k.sched.tasks i).id .ready else k) := by
  split_ifs with hP
  · refine (setTaskState (congrArg Fin.val hid) hi .ready).congr ?_
    rw [if_pos (by exact hP)]
  · refine refl ?_
    rw [if_neg (by exact hP)]

theorem signalAt (hid : (k.sched.tasks i).id = i) (hi : (i : Nat) < k.sched.taskCount) (sig : Nat) :
    k.Turns i (fun v =>
      { v with
        pendingSignals := setBit v.pendingSignals sig
        state := if v.state = .sleeping ∨ v.state = .blockedOnNotify then .ready else v.state })
      (k.signalAt i sig) := by
  have hpend : k.Turns i (fun v => { v with pendingSignals := setBit v.pendingSignals sig })
      (k.modifySecurity i fun c => { c with pendingSignals := setBit c.pendingSignals sig }) := by
    refine of_self ?_ fun t hti => ?_
    all_goals simp [view, modifySecurity, *]
  exact hpend.trans (wake (fun st => st = .sleeping ∨ st = .blockedOnNotify) hid hi)

end Turns

section Expiry

variable {k : Kernel N} (htable : Table k.sched)

include htable

theorem view_sendSignal (owner : Nat) (sig : Int) (t : Fin N) :
    (k.sendSignal owner sig).1.view t =
      if (t : Nat) = owner ∧ owner < k.sched.taskCount then (k.view t).signalled sig
      else k.view t := by
  simp only [sendSignal, ← getTaskById_eq_some]
  cases hi : k.getTaskById owner with
  | none => rfl
  | some i =>
    obtain ⟨hid, hlt⟩ := getTaskById_eq_some.1 hi
    simp only [Option.some_inj, eq_comm (b := t)]
    refine (show k.Turns i (·.signalled sig) _ from ?_) t
    split_ifs with hsig hterm
    · exact .refl (if_pos hsig)
    · exact .refl ((if_neg hsig).trans (if_pos hterm))
    · exact (Turns.signalAt (htable.id i (hid ▸ hlt)) (hid ▸ hlt) _).congr
        ((if_neg hsig).trans (if_neg hterm)).symm

theorem view_notifyOwner (owner : Nat) (val : BitVec 32) (t : Fin N) :
    (k.notifyOwner owner val).view t =
      if (t : Nat) = owner ∧ owner < k.sched.taskCount then (k.view t).notified val
      else k.view t := by
  simp only [notifyOwner, ← getTaskById_eq_some]
  cases hi : k.getTaskById owner with
  | none => rfl
  | some i =>
    obtain ⟨hid, hlt⟩ := getTaskById_eq_some.1 hi
    have hnote : k.Turns i
        (fun v => { v with notifyValue := v.notifyValue ||| val, notifyPending := true })
        (k.notify i val) := .modifyIpc _ rfl
    simp only [Option.some_inj, eq_comm (b := t)]
    exact hnote.trans (.wake (fun st => st = .suspended ∨ st = .sleeping) (htable.id i (hid ▸ hlt))
      (hid ▸ hlt)) t

/-- **What an expired timer does** is done to the task with the owner's id. -/
theorem view_timerExpiry (index owner : Nat) (flags param : BitVec 32) (t : Fin N) :
    (k.timerExpiry index owner flags param).view t =
      if (t : Nat) = owner ∧ owner < k.sched.taskCount then (k.view t).timer index flags param
      else k.view t := by
  unfold timerExpiry TaskView.timer
  by_cases hsignal : flags.getLsbD notifySignal
  · rw [if_pos hsignal, if_pos hsignal, view_sendSignal htable]
  rw [if_neg hsignal, if_neg hsignal]
  by_cases hipc : flags.getLsbD notifyIpc
  · rw [if_pos hipc, if_pos hipc, view_notifyOwner htable]
  rw [if_neg hipc, if_neg hipc]
  by_cases hevent : flags.getLsbD notifyEvent
  · rw [if_pos hevent, if_pos hevent, view_notifyOwner htable]
  · rw [if_neg hevent, if_neg hevent, view_sendSignal htable]

end Expiry

end Kernel

theorem Table.moves {k k' : Kernel N} (htable : Table k.sched) (h : k.Moves k') :
    Table k'.sched := by
  refine Scheduler.Moves.invariant (fun s s' hmove hs => ?_) h htable
  cases hmove with
  | setTaskState id st => exact hs.setTaskState id st
  | setTaskPriority id p => exact hs.setTaskPriority id p
  | setSleepTicks i n => exact hs.setSleepTicks i n

namespace Kernel

/-! ## Deliveries -/

/-- Signals, notifications and wake-ups: the scheduler is told of them, and nothing else changes but
signals and notifications. -/
structure Delivers (k k' : Kernel N) : Prop where
  moves : k.Moves k'
  tick : k'.currentTick = k.currentTick
  task : k'.task = k.task
  endpoints : k'.endpoints = k.endpoints
  ipc : ∀ t, (k'.ipc t).blockedNext = (k.ipc t).blockedNext ∧ (k'.ipc t).state = (k.ipc t).state ∧
    (k'.ipc t).waitingEndpoint = (k.ipc t).waitingEndpoint

namespace Delivers

variable {k k' k'' : Kernel N}

theorem refl (k : Kernel N) : Delivers k k := ⟨.of_eq rfl, rfl, rfl, rfl, fun _ => ⟨rfl, rfl, rfl⟩⟩

theorem trans (h : Delivers k k') (h' : Delivers k' k'') : Delivers k k'' where
  moves := h.moves.trans h'.moves
  tick := h'.tick.trans h.tick
  task := h'.task.trans h.task
  endpoints := h'.endpoints.trans h.endpoints
  ipc t := ⟨(h'.ipc t).1.trans (h.ipc t).1, (h'.ipc t).2.1.trans (h.ipc t).2.1,
    (h'.ipc t).2.2.trans (h.ipc t).2.2⟩

theorem setTaskState (k : Kernel N) (id : Nat) (st : TaskState) :
    Delivers k (k.setTaskState id st) :=
  ⟨(Scheduler.Moves.refl _).setTaskState id st, rfl, rfl, rfl, fun _ => ⟨rfl, rfl, rfl⟩⟩

theorem modifySecurity (k : Kernel N) (i : Fin N) (f : SecurityContext → SecurityContext) :
    Delivers k (k.modifySecurity i f) :=
  ⟨.of_eq rfl, rfl, rfl, rfl, fun _ => ⟨rfl, rfl, rfl⟩⟩

theorem notify (k : Kernel N) (i : Fin N) (val : BitVec 32) : Delivers k (k.notify i val) := by
  refine ⟨.of_eq rfl, rfl, rfl, rfl, fun t => ?_⟩
  rw [Kernel.notify, ipc_modifyIpc]
  split_ifs with hti
  · rw [hti]
    exact ⟨rfl, rfl, rfl⟩
  · exact ⟨rfl, rfl, rfl⟩

theorem sendSignal (k : Kernel N) (id : Nat) (sig : Int) : Delivers k (k.sendSignal id sig).1 := by
  refine sendSignal_cases (refl k) fun i _ _ _ => ?_
  unfold Kernel.signalAt
  dsimp only
  split_ifs
  · exact (modifySecurity ..).trans (setTaskState ..)
  · exact modifySecurity ..

theorem notifyOwner (k : Kernel N) (owner : Nat) (val : BitVec 32) :
    Delivers k (k.notifyOwner owner val) := by
  unfold Kernel.notifyOwner
  split
  · exact refl k
  · dsimp only
    split_ifs
    · exact (notify ..).trans (setTaskState ..)
    · exact notify ..

theorem timerExpiry (k : Kernel N) (index owner : Nat) (flags param : BitVec 32) :
    Delivers k (k.timerExpiry index owner flags param) := by
  rcases timerExpiry_cases k index owner flags param with ⟨sig, h⟩ | ⟨-, val, h⟩
  · rw [h]
    exact sendSignal k owner sig
  · rw [h]
    exact notifyOwner k owner val

theorem taskCount (h : Delivers k k') : k'.sched.taskCount = k.sched.taskCount := h.moves.fixed.1

theorem table (h : Delivers k k') (htable : Table k.sched) : Table k'.sched := htable.moves h.moves

end Delivers

end Kernel

/-- What a signal of the semaphore may do: a task that waits is woken. -/
theorem Semaphore.signal_delivers (sem : Semaphore) (k : Kernel N) :
    k.Delivers (sem.signal k).1 := by
  rcases sem.signal_cases k with ⟨hk, -⟩ | ⟨b, -, hk⟩
  · rw [hk]
    exact .refl k
  · rw [hk]
    exact .setTaskState ..

theorem TimedKernel.advance_spec (s : TimedKernel N) (n : Nat) :
    s.kernel.Moves (s.advance n).kernel ∧ (s.advance n).process = s.process := by
  unfold TimedKernel.advance
  dsimp only
  generalize hk :
    ({ s.kernel with currentTick := (s.kernel.currentTick + n) % 2 ^ 32 } : Kernel N) = k
  have hmoves : s.kernel.Moves k := .of_eq (hk ▸ rfl)
  split_ifs
  · exact ⟨hmoves.trans (Semaphore.signal_delivers ..).moves, rfl⟩
  · exact ⟨hmoves, rfl⟩

/-! ## The process timers at a tick -/

/-- A round of the process timers, for one task. -/
def timerRound (process : Fin 16 → ProcessTimer) (now : Nat) (t : Fin N) (v : TaskView)
    (i : Fin 16) : TaskView :=
  let p := process i
  if p.Due now ∧ p.ownerTaskId = t then v.timer i p.flags p.notifyParam else v

/-- What the process timers in `l` have done. -/
structure Fired (l : List (Fin 16)) (s s' : TimedKernel N) : Prop where
  delivers : s.kernel.Delivers s'.kernel
  software : s'.software = s.software
  wakeupSem : s'.wakeupSem = s.wakeupSem
  process : ∀ i, s'.process i =
    if i ∈ l ∧ (s.process i).Due s.kernel.currentTick then (s.process i).reload s.kernel.currentTick
    else s.process i
  view : ∀ t : Fin N, (t : Nat) < s.kernel.sched.taskCount → s'.kernel.view t =
    l.foldl (timerRound s.process s.kernel.currentTick t) (s.kernel.view t)
  unused : ∀ t : Fin N, s.kernel.sched.taskCount ≤ t → s'.kernel.view t = s.kernel.view t

theorem fired_one {s : TimedKernel N} (htable : Table s.kernel.sched) (i : Fin 16) :
    Fired [i] s (s.fire i) := by
  unfold TimedKernel.fire
  by_cases hdue : (s.process i).Due s.kernel.currentTick
  · rw [if_pos hdue]
    refine ⟨.timerExpiry .., rfl, rfl, fun j => ?_, fun t ht => ?_, fun t ht => ?_⟩
    · by_cases hji : j = i
      · subst hji
        simp [TimedKernel.process_setProcess, hdue]
      · simp [TimedKernel.process_setProcess, hji]
    · rw [Kernel.view_timerExpiry htable]
      simp only [foldl_cons, foldl_nil, timerRound, hdue, true_and]
      by_cases hown : (s.process i).ownerTaskId = t
      · rw [if_pos ⟨hown.symm, hown ▸ ht⟩, if_pos hown]
      · rw [if_neg fun h => hown h.1.symm, if_neg hown]
    · rw [Kernel.view_timerExpiry htable, if_neg]
      intro h
      omega
  · rw [if_neg hdue]
    refine ⟨.refl _, rfl, rfl, fun j => ?_, fun t _ => ?_, fun _ _ => rfl⟩
    · rw [if_neg]
      intro h
      rw [mem_singleton] at h
      exact hdue (h.1 ▸ h.2)
    · simp [timerRound, hdue]

theorem fired_list {s : TimedKernel N} (htable : Table s.kernel.sched) {l : List (Fin 16)}
    (hl : l.Nodup) : Fired l s (l.foldl TimedKernel.fire s) := by
  induction l generalizing s with
  | nil => exact ⟨.refl _, rfl, rfl, fun _ => by simp, fun _ _ => rfl, fun _ _ => rfl⟩
  | cons i l ih =>
    obtain ⟨hi, hl⟩ := nodup_cons.1 hl
    have h₁ := fired_one htable i
    have h₂ := ih (h₁.delivers.table htable) hl
    -- the timers of the rest are as they were
    have hsame : ∀ j ∈ l, (s.fire i).process j = s.process j := by
      intro j hj
      rw [h₁.process j, if_neg]
      intro h
      rw [mem_singleton] at h
      exact hi (h.1 ▸ hj)
    have htick := h₁.delivers.tick
    refine ⟨h₁.delivers.trans h₂.delivers, h₂.software.trans h₁.software,
      h₂.wakeupSem.trans h₁.wakeupSem, fun j => ?_, fun t ht => ?_, fun t ht => ?_⟩
    · rw [foldl_cons, h₂.process j, htick]
      by_cases hj : j ∈ l
      · simp [hj, hsame j hj]
      · rw [h₁.process j]
        simp [hj]
    · rw [foldl_cons, h₂.view t (h₁.delivers.taskCount ▸ ht), h₁.view t ht, htick]
      apply foldl_ext
      intro v j hj
      simp only [timerRound, hsame j hj]
    · rw [foldl_cons, h₂.unused t (h₁.delivers.taskCount ▸ ht), h₁.unused t ht]

/-- **The process timers at a tick.** -/
theorem processOnTick_fired {s : TimedKernel N} (htable : Table s.kernel.sched) :
    Fired (finRange 16) s s.processOnTick :=
  fired_list htable (nodup_finRange 16)

end AuroraOS
