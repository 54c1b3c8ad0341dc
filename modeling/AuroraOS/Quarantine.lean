import AuroraOS.Held

/-!
# Quarantine

`QuarantineManager` of `security/response/quarantine.hpp`, tasks only: devices and the text of the
last action are left out. A task is put into quarantine by writing `Suspended` into its state, once,
and let out by writing `Ready`. The state `Suspended` is also what tasks that wait for a mutex or a
semaphore have; whatever ends a wait overwrites it.

`quarantine_holds`: the task stays out of the ready lists until it is let out, and is let out into a
state it can run in, if it was ready and waited nowhere when it was put into quarantine, is not
freed or notified by a timer of its own meanwhile, and has not terminated when it is let out.
-/

namespace AuroraOS

open Run Bitmap Relation Kernel Semaphore Function

variable {N : Nat}

/-! ## The manager -/

structure TaskQuarantine where
  active : Bool := false
  taskId : Nat := 0
  expireTick : Nat := 0

structure QuarantineManager where
  tasks : Fin 8 → TaskQuarantine := fun _ => {}

/-- The entry is for the task. -/
def TaskQuarantine.IsFor (id : Nat) (e : TaskQuarantine) : Prop := e.active ∧ e.taskId = id
  deriving Decidable

namespace QuarantineManager

def kPermanent : Nat := 0xFFFFFFFF

def kNoTask : Nat := 0xFFFFFFFF

def setEntry (m : QuarantineManager) (i : Fin 8) (e : TaskQuarantine) : QuarantineManager :=
  ⟨update m.tasks i e⟩

/-- The loop that looks for the entry of a task. -/
def findEntry (m : QuarantineManager) (id : Nat) : Option (Fin 8) :=
  (List.finRange 8).find? fun i => (m.tasks i).IsFor id

def isQuarantined (m : QuarantineManager) (id : Nat) : Bool := (m.findEntry id).isSome

def expireTick (now duration : Nat) : Nat :=
  if duration = 0 then kPermanent else (now + duration) % 2 ^ 32

def quarantineTask (now : Nat) (s : QuarantineManager × Kernel N) (id duration : Nat) :
    Bool × QuarantineManager × Kernel N :=
  if id = kNoTask then (false, s)
  else
    match s.2.getTaskById id with
    | none => (false, s)
    | some _ =>
      match s.1.findEntry id with
      | some i =>
        (true, s.1.setEntry i { s.1.tasks i with expireTick := expireTick now duration }, s.2)
      | none =>
        match (List.finRange 8).find? fun i => !(s.1.tasks i).active with
        | some i =>
          (true, s.1.setEntry i ⟨true, id, expireTick now duration⟩, s.2.setTaskState id .suspended)
        | none => (false, s)

/-- An entry ends, and its task is made ready. -/
def lift (s : QuarantineManager × Kernel N) (i : Fin 8) : QuarantineManager × Kernel N :=
  (s.1.setEntry i { s.1.tasks i with active := false },
    s.2.setTaskState (s.1.tasks i).taskId .ready)

def releaseTask (s : QuarantineManager × Kernel N) (id : Nat) :
    Bool × QuarantineManager × Kernel N :=
  match s.1.findEntry id with
  | some i => (true, lift s i)
  | none => (false, s)

/-- The entry's time has come. -/
def Expired (now : Nat) (e : TaskQuarantine) : Prop :=
  e.expireTick ≠ kPermanent ∧ now ≥ e.expireTick
  deriving Decidable

/-- One round of `tick`. -/
def expire (now : Nat) (s : QuarantineManager × Kernel N) (i : Fin 8) :
    QuarantineManager × Kernel N :=
  if (s.1.tasks i).active ∧ Expired now (s.1.tasks i) then (releaseTask s (s.1.tasks i).taskId).2
  else s

def tick (now : Nat) (s : QuarantineManager × Kernel N) : QuarantineManager × Kernel N :=
  (List.finRange 8).foldl (expire now) s

/-- One round of `reset`. -/
def clear (s : QuarantineManager × Kernel N) (i : Fin 8) : QuarantineManager × Kernel N :=
  if (s.1.tasks i).active then lift s i else s

def reset (s : QuarantineManager × Kernel N) : QuarantineManager × Kernel N :=
  (List.finRange 8).foldl clear s

end QuarantineManager

/-- The calls of the manager, with the time at which they come. -/
inductive QuarantineOp
  | quarantineTask (now id duration : Nat)
  | releaseTask (id : Nat)
  | tick (now : Nat)
  | reset

def QuarantineOp.exec : QuarantineOp → QuarantineManager × Kernel N → QuarantineManager × Kernel N
  | .quarantineTask now id duration, s => (QuarantineManager.quarantineTask now s id duration).2
  | .releaseTask id, s => (QuarantineManager.releaseTask s id).2
  | .tick now, s => QuarantineManager.tick now s
  | .reset, s => QuarantineManager.reset s

/-! ## What the calls do -/

namespace QuarantineManager

variable {m : QuarantineManager} {s s' : QuarantineManager × Kernel N} {i : Fin 8} {id : Nat}

theorem isQuarantined_iff : m.isQuarantined id = true ↔ ∃ i, (m.tasks i).IsFor id := by
  rw [isQuarantined, findEntry]
  simp

theorem isFor_of_findEntry (h : m.findEntry id = some i) : (m.tasks i).IsFor id := by
  simpa using (find?_finRange h).1

/-- At most one entry is for a task. -/
def Distinct (m : QuarantineManager) : Prop :=
  ∀ i j id, (m.tasks i).IsFor id → (m.tasks j).IsFor id → i = j

theorem isFor_setEntry {e : TaskQuarantine} {j : Fin 8} :
    ((m.setEntry i e).tasks j).IsFor id ↔ j = i ∧ e.IsFor id ∨ j ≠ i ∧ (m.tasks j).IsFor id := by
  by_cases hj : j = i
  · simp [setEntry, hj]
  · simp [setEntry, hj]

/-- The ways in which `quarantine_task` can end. -/
inductive Quarantines (s : QuarantineManager × Kernel N) (id : Nat) :
    QuarantineManager × Kernel N → Prop
  | refused : Quarantines s id s
  | again {i : Fin 8} (hi : (s.1.tasks i).IsFor id) (time : Nat) :
      Quarantines s id (s.1.setEntry i { s.1.tasks i with expireTick := time }, s.2)
  | entered {t : Fin N} {i : Fin 8} (ht : (t : Nat) = id) (hlt : (t : Nat) < s.2.sched.taskCount)
      (hnew : s.1.isQuarantined t = false) (hi : (s.1.tasks i).active = false) (time : Nat) :
      Quarantines s id (s.1.setEntry i ⟨true, t, time⟩, s.2.setTaskState t .suspended)

theorem quarantineTask_cases (now : Nat) (s : QuarantineManager × Kernel N) (id duration : Nat) :
    Quarantines s id (quarantineTask now s id duration).2 := by
  unfold quarantineTask
  split_ifs
  · exact .refused
  · split
    · exact .refused
    · next t ht =>
      obtain ⟨rfl, hlt⟩ := getTaskById_eq_some.mp ht
      split
      · next i hi => exact .again (isFor_of_findEntry hi) _
      · next hnew =>
        split
        · next i hi =>
          exact .entered rfl hlt (by simp [isQuarantined, hnew])
            (by simpa using (find?_finRange hi).1) _
        · exact .refused

/-- An entry for a task of `E` ends. -/
inductive Lifts (E : Nat → Prop) (s : QuarantineManager × Kernel N) :
    QuarantineManager × Kernel N → Prop
  | lift {i : Fin 8} (hi : (s.1.tasks i).active) (hE : E (s.1.tasks i).taskId) :
      Lifts E s (lift s i)

variable {E : Nat → Prop}

theorem releaseTask_lifts (hE : E id) (s : QuarantineManager × Kernel N) :
    ReflTransGen (Lifts E) s (releaseTask s id).2 := by
  unfold releaseTask
  split
  · next i hi =>
    obtain ⟨hactive, hid⟩ := isFor_of_findEntry hi
    exact .single (.lift hactive (hid ▸ hE))
  · exact .refl

/-- Entries end, or stay as they are. -/
theorem tasks_of_lifts (h : ReflTransGen (Lifts E) s s') (hi : (s'.1.tasks i).active) :
    s'.1.tasks i = s.1.tasks i := by
  induction h with
  | refl => rfl
  | tail _ hlast ih =>
    cases hlast with
    | @lift j =>
      simp only [lift, setEntry, update_apply] at hi ⊢
      split_ifs at hi ⊢
      exact ih hi

theorem tick_lifts (now : Nat) (s : QuarantineManager × Kernel N) :
    ReflTransGen (Lifts fun id => ∃ i, (s.1.tasks i).IsFor id ∧ Expired now (s.1.tasks i)) s
      (tick now s) := by
  refine foldl_invariant (P := ReflTransGen (Lifts _) s) (fun s' i _ h => ?_) .refl
  unfold expire
  split_ifs with hi
  · have hsame := tasks_of_lifts h hi.1
    refine h.trans (releaseTask_lifts ⟨i, ?_, ?_⟩ s')
    · rw [← hsame]
      exact ⟨hi.1, rfl⟩
    · rw [← hsame]
      exact hi.2
  · exact h

theorem reset_lifts (s : QuarantineManager × Kernel N) :
    ReflTransGen (Lifts fun _ => True) s (reset s) := by
  refine foldl_invariant (P := ReflTransGen (Lifts _) s) (fun s' i _ h => ?_) .refl
  unfold clear
  split_ifs with hi
  · exact h.tail (.lift hi trivial)
  · exact h

/-- Other tasks keep their states. -/
theorem taskState_of_lifts (h : ReflTransGen (Lifts E) s s') {t : Fin N} (ht : ¬ E t) :
    s'.2.taskState t = s.2.taskState t := by
  induction h with
  | refl => rfl
  | tail _ hlast ih =>
    cases hlast with
    | lift hi hE =>
      refine Eq.trans ?_ ih
      rw [lift, taskState_setTaskState, if_neg]
      exact fun hid => ht (hid.1 ▸ hE)

/-- Entries are ended or stay with their tasks. -/
theorem Distinct.sub {m' : QuarantineManager} (h : m.Distinct)
    (hsub : ∀ j id, (m'.tasks j).IsFor id → (m.tasks j).IsFor id) :
    m'.Distinct ∧ ∀ id, m'.isQuarantined id = true → m.isQuarantined id = true := by
  refine ⟨fun i j id hi hj => h i j id (hsub i id hi) (hsub j id hj), fun id hid => ?_⟩
  obtain ⟨j, hj⟩ := isQuarantined_iff.mp hid
  exact isQuarantined_iff.mpr ⟨j, hsub j id hj⟩

/-- The manager's entries and the states of their tasks fit together. -/
structure Keeps (s : QuarantineManager × Kernel N) : Prop where
  distinct : s.1.Distinct
  held : Held (fun t => s.1.isQuarantined t = true) s.2

theorem Keeps.lifts (h : Keeps s) (hlifts : ReflTransGen (Lifts E) s s') :
    Keeps s' ∧ ∀ id, s'.1.isQuarantined id = true → s.1.isQuarantined id = true := by
  induction hlifts with
  | refl => exact ⟨h, fun _ hid => hid⟩
  | @tail s₁ _ _ hlast ih =>
    cases hlast with
    | @lift i hi =>
      have hsub : ∀ j id,
          ((s₁.1.setEntry i { s₁.1.tasks i with active := false }).tasks j).IsFor id →
          j ≠ i ∧ (s₁.1.tasks j).IsFor id := by
        intro j id hj
        rcases isFor_setEntry.mp hj with ⟨-, hj⟩ | hj
        · cases hj.1
        · exact hj
      obtain ⟨hdistinct, hquar⟩ := ih.1.distinct.sub fun j id hj => (hsub j id hj).2
      refine ⟨⟨hdistinct, ?_⟩, fun id hid => ih.2 id (hquar id hid)⟩
      -- the entry was the only one for its task
      refine (ih.1.held.mono fun t ht => hquar t ht).setTaskState fun t ht hid => ?_
      obtain ⟨j, hj⟩ := isQuarantined_iff.mp ht
      obtain ⟨hne, hj⟩ := hsub j t hj
      exact absurd (ih.1.distinct j i t hj ⟨hi, hid.symm⟩) hne

/-- `quarantine_task`, for a task that waits for no endpoint and no mutex. -/
theorem Keeps.quarantines (h : Keeps s) (hfree : ∀ t : Fin N, (t : Nat) = id →
      s.1.isQuarantined t = false → s.2.Detached t ∧ (s.2.sched.tasks t).waitingOnMutex = none ∧
        ∀ m, (s.2.mutexes m).waitMask.getLsbD t = false)
    (hs' : Quarantines s id s') :
    Keeps s' ∧ ∀ x, s'.1.isQuarantined x = true → s.1.isQuarantined x = true ∨ x = id := by
  cases hs' with
  | refused => exact ⟨h, fun _ hx => .inl hx⟩
  | @again i hi time =>
    have hsame : ∀ j x, ((s.1.setEntry i { s.1.tasks i with expireTick := time }).tasks j).IsFor x →
        (s.1.tasks j).IsFor x := by
      intro j x hj
      rcases isFor_setEntry.mp hj with ⟨rfl, hj⟩ | hj
      · exact hj
      · exact hj.2
    obtain ⟨hdistinct, hquar⟩ := h.distinct.sub hsame
    exact ⟨⟨hdistinct, h.held.mono fun t ht => hquar t ht⟩, fun x hx => .inl (hquar x hx)⟩
  | @entered t i ht hlt hnew hi time =>
    have hcases : ∀ j x, ((s.1.setEntry i ⟨true, t, time⟩).tasks j).IsFor x →
        j = i ∧ x = t ∨ j ≠ i ∧ (s.1.tasks j).IsFor x := by
      intro j x hj
      rcases isFor_setEntry.mp hj with ⟨hji, hj⟩ | hj
      · exact .inl ⟨hji, hj.2.symm⟩
      · exact .inr hj
    have hother : ∀ j, ¬ (s.1.tasks j).IsFor t := by
      intro j hj
      rw [isQuarantined_iff.mpr ⟨j, hj⟩] at hnew
      cases hnew
    have hquar : ∀ x, (s.1.setEntry i ⟨true, t, time⟩).isQuarantined x = true →
        s.1.isQuarantined x = true ∨ x = t := by
      intro x hx
      obtain ⟨j, hj⟩ := isQuarantined_iff.mp hx
      rcases hcases j x hj with ⟨-, hx⟩ | ⟨-, hj⟩
      · exact .inr hx
      · exact .inl (isQuarantined_iff.mpr ⟨j, hj⟩)
    obtain ⟨hd, hwait, hmask⟩ := hfree t ht hnew
    refine ⟨⟨fun j l x hj hl => ?_, ?_⟩, fun x hx => (hquar x hx).imp_right fun hxt => hxt.trans ht⟩
    · rcases hcases j x hj with ⟨hji, rfl⟩ | ⟨-, hj⟩
      · rcases hcases l _ hl with ⟨hli, -⟩ | ⟨-, hl⟩
        · rw [hji, hli]
        · exact absurd hl (hother l)
      · rcases hcases l x hl with ⟨-, rfl⟩ | ⟨-, hl⟩
        · exact absurd hj (hother j)
        · exact h.distinct j l x hj hl
    · exact (h.held.insert hlt hd hwait hmask).mono fun x hx => (hquar x hx).imp_right Fin.ext

end QuarantineManager

/-! ## The system -/

/-- The kernel with its semaphores and the manager; `found` is the state in which the manager last
found each task outside quarantine. -/
structure QuarantineSystem (N : Nat) where
  kernel : Kernel N
  sems : Nat → Semaphore
  manager : QuarantineManager
  found : Fin N → TaskState

/-- A step of the kernel while the tasks of `Q` are in quarantine: an operation of others that meets
the condition `ok`, a section of `lock` or `unlock` run by another task, a sleep, or a change around
the scheduler, such as a switch of tasks. -/
inductive KernelStep [NeZero N] (ok : Op N → Prop) (Q : Fin N → Prop) (run : Handlers N)
    (k : Kernel N) : Kernel N → Prop
  | op (op : Op N) {k' : Kernel N} (hop : op.ByOthers Q k) (hok : ok op)
      (h : op.exec run k = some k') : KernelStep ok Q run k k'
  | lock (current : Option (Fin N)) (m : MutexId) (hcur : k.Others Q current) :
      KernelStep ok Q run k (k.lockEnter m current).1
  | retry (t : Fin N) {rounds timeout start : Nat} {m : MutexId} {r : Kernel N × LockResult}
      (ht : k.Others Q (some t)) (h : k.lockRetry rounds m t timeout start = some r) :
      KernelStep ok Q run k r.1
  | unlock (current : Option (Fin N)) {rounds : Nat} {m : MutexId} {k' : Kernel N}
      (hcur : k.Others Q current) (h : k.unlock rounds m current = some k') :
      KernelStep ok Q run k k'
  | sleep (t : Fin N) (n : Nat) : KernelStep ok Q run k (k.setSleepTicks t n)
  | around {k' : Kernel N} (hipc : k'.ipc = k.ipc) (hends : k'.endpoints = k.endpoints)
      (hmutexes : k'.mutexes = k.mutexes) {b : Bool}
      (hsched : k'.sched = { k.sched with started := b }) : KernelStep ok Q run k k'

namespace QuarantineSystem

/-- No task has been created, and the semaphores are new. -/
def boot [NeZero N] (counts : Nat → Int) : QuarantineSystem N where
  kernel := Kernel.boot
  sems j := .init (counts j)
  manager := {}
  found _ := .unallocated

def Quarantined (s : QuarantineSystem N) (t : Fin N) : Prop := s.manager.isQuarantined t = true
  deriving Decidable

/-- A call of the manager. -/
def manage (s : QuarantineSystem N) (op : QuarantineOp) : QuarantineSystem N :=
  let r := op.exec (s.manager, s.kernel)
  { s with
    manager := r.1
    kernel := r.2
    found := fun t => if s.Quarantined t then s.found t else s.kernel.taskState t }

/-- The task waits neither at an endpoint nor for a mutex or a semaphore. -/
structure WaitsNowhere (s : QuarantineSystem N) (t : Fin N) : Prop where
  detached : s.kernel.Detached t
  mutex : (s.kernel.sched.tasks t).waitingOnMutex = none
  unlisted : ∀ m, (s.kernel.mutexes m).waitMask.getLsbD t = false
  sems : ∀ j, (s.sems j).waitMask.getLsbD t = false

/-- The call ends the quarantine of the task. -/
def Ends (s : QuarantineSystem N) : QuarantineOp → Nat → Prop
  | .quarantineTask .., _ => False
  | .releaseTask id, t => t = id
  | .tick now, t => ∃ i, (s.manager.tasks i).IsFor t ∧
      QuarantineManager.Expired now (s.manager.tasks i)
  | .reset, _ => True

/-- A task is put into quarantine while it is ready and waits nowhere, and is not let out once it
has terminated. -/
def Fits (s : QuarantineSystem N) : QuarantineOp → Prop
  | .quarantineTask _ id _ => ∀ t : Fin N, (t : Nat) = id → ¬ s.Quarantined t →
    s.kernel.taskState t = .ready ∧ s.WaitsNowhere t
  | op => ∀ t : Fin N, s.Quarantined t → s.Ends op t → s.kernel.taskState t ≠ .terminated

end QuarantineSystem

/-- A step of the system: a run of the kernel, a section of a semaphore's functions run by another
task, or a call of the manager. -/
inductive QuarantineStep [NeZero N] (ok : (Fin N → Prop) → Op N → Prop)
    (fits : QuarantineSystem N → QuarantineOp → Prop) (s : QuarantineSystem N) :
    QuarantineSystem N → Prop
  | kernel {k' : Kernel N} (h : Reaches (KernelStep (ok s.Quarantined) s.Quarantined) s.kernel k') :
      QuarantineStep ok fits s { s with kernel := k' }
  | wait (j : Nat) (current : Option (Fin N)) (hcur : s.kernel.Others s.Quarantined current) :
      QuarantineStep ok fits s
        { s with sems := update s.sems j ((s.sems j).waitEnter s.kernel current).1 }
  | retry (j : Nat) (t : Fin N) (timeout start : Nat)
      (ht : s.kernel.Others s.Quarantined (some t)) :
      QuarantineStep ok fits s
        { s with
          kernel := ((s.sems j).waitRetry s.kernel t timeout start).1.1
          sems := update s.sems j ((s.sems j).waitRetry s.kernel t timeout start).1.2 }
  | tryWait (j : Nat) :
      QuarantineStep ok fits s { s with sems := update s.sems j (s.sems j).tryWait.1 }
  | signal (j : Nat) :
      QuarantineStep ok fits s
        { s with
          kernel := ((s.sems j).signal s.kernel).1
          sems := update s.sems j ((s.sems j).signal s.kernel).2 }
  | manage (op : QuarantineOp) (hop : fits s op) : QuarantineStep ok fits s (s.manage op)

/-! ## The invariant -/

/-- Every step of the kernel keeps the tasks of `Q` held. -/
theorem Held.kernelStep [NeZero N] {Q : Fin N → Prop} {run : Handlers N} {k k' : Kernel N}
    (hrun : ∀ h a b, run h a = some b → Held Q a → Held Q b)
    (hstep : KernelStep (Op.Avoids Q) Q run k k') (h : Held Q k) : Held Q k' := by
  cases hstep with
  | op op hop hok hexec => exact h.exec hrun hop hok hexec
  | lock current m hcur => exact h.lockMoves hcur (.lockEnter k m current)
  | retry t ht hretry => exact h.lockMoves ht (.lockRetry hretry)
  | unlock current hcur hunlock => exact h.lockMoves hcur (.unlock hunlock)
  | sleep t n => exact h.setSleepTicks t n
  | @around _ hipc hends hmutexes b hsched =>
    have hc : Consistent k'.sched := by
      rw [hsched]
      exact h.consistent.setStarted b
    refine h.of_spares hc ((Spares.refl h.out).congr hc.toTable ?_ (fun t => ?_) hipc hends)
      (fun t _ => ?_) fun t _ m hbit => ?_
    · rw [hsched]
    · rw [taskState, taskState, hsched]
    · rw [hsched]
    · rwa [hmutexes] at hbit

theorem Held.kernelRun [NeZero N] {Q : Fin N → Prop} {k k' : Kernel N}
    (hrun : Reaches (KernelStep (Op.Avoids Q) Q) k k') (h : Held Q k) : Held Q k' :=
  hrun.invariant (fun _ _ _ hcall hstep hk => hk.kernelStep hcall hstep) h

/-- The tasks in quarantine are held, wait for no semaphore, and were ready when they were put
there. -/
structure QuarantineInv (s : QuarantineSystem N) : Prop where
  keeps : QuarantineManager.Keeps (s.manager, s.kernel)
  sems : ∀ t, s.Quarantined t → ∀ j, (s.sems j).waitMask.getLsbD t = false
  found : ∀ t, s.Quarantined t → s.found t = .ready

namespace QuarantineInv

open QuarantineManager

variable {s s' : QuarantineSystem N} {op : QuarantineOp}

theorem boot [NeZero N] (counts : Nat → Int) :
    QuarantineInv (QuarantineSystem.boot counts : QuarantineSystem N) := by
  have hnone : ∀ id, ¬ ({} : QuarantineManager).isQuarantined id = true := by
    intro id hid
    obtain ⟨i, hi⟩ := isQuarantined_iff.mp hid
    cases hi.1
  have hboot : Settled none (Kernel.boot : Kernel N) := Settled.boot
  refine ⟨⟨fun i j id hi => ?_, ?_⟩, fun t ht => absurd ht (hnone t),
    fun t ht => absurd ht (hnone t)⟩
  · cases hi.1
  · exact
      { consistent := hboot.consistent
        out :=
          { table := hboot.sound.table
            bounded := hboot.sound.bounded
            detached := fun t ht => absurd ht (hnone t)
            calm := fun t ht => absurd ht (hnone t) }
        stopped := fun t ht => absurd ht (hnone t)
        waiting := fun t ht => absurd ht (hnone t)
        unlisted := fun t ht => absurd ht (hnone t) }

/-- The task in quarantine is in no mask after a section that enters at most its caller. -/
theorem mask_update (h : QuarantineInv s) {j : Nat} {sem : Semaphore}
    (hsem : ∀ t, s.Quarantined t → sem.waitMask.getLsbD t = true →
      (s.sems j).waitMask.getLsbD t = true) :
    ∀ t, s.Quarantined t → ∀ l, (update s.sems j sem l).waitMask.getLsbD t = false := by
  intro t ht l
  rw [update_apply]
  split_ifs
  · by_contra hbit
    have hold := hsem t ht (by simpa using hbit)
    rw [h.sems t ht j] at hold
    cases hold
  · exact h.sems t ht l

/-- A call that puts no task into quarantine ends some quarantines. -/
theorem exec_cases (s : QuarantineSystem N) (op : QuarantineOp) :
    (∃ now id duration, op = .quarantineTask now id duration) ∨
      ReflTransGen (QuarantineManager.Lifts (s.Ends op)) (s.manager, s.kernel)
      (op.exec (s.manager, s.kernel)) ∧
        (s.Fits op → ∀ t : Fin N, s.Quarantined t → s.Ends op t →
          s.kernel.taskState t ≠ .terminated) := by
  cases op with
  | quarantineTask now id duration => exact .inl ⟨now, id, duration, rfl⟩
  | releaseTask id => exact .inr ⟨releaseTask_lifts (E := (· = id)) rfl _, fun h => h⟩
  | tick now => exact .inr ⟨tick_lifts now (s.manager, s.kernel), fun h => h⟩
  | reset => exact .inr ⟨reset_lifts _, fun h => h⟩

theorem manage (h : QuarantineInv s) (hop : s.Fits op) :
    QuarantineInv (s.manage op) := by
  have hold : ∀ t, s.Quarantined t → (s.manage op).found t = .ready := by
    intro t ht
    exact (if_pos ht).trans (h.found t ht)
  rcases exec_cases s op with ⟨now, id, duration, rfl⟩ | ⟨hlifts, -⟩
  · have hnew : ∀ t : Fin N, (t : Nat) = id → ¬ s.Quarantined t →
        s.kernel.taskState t = .ready ∧ s.WaitsNowhere t := hop
    obtain ⟨hkeeps, hsub⟩ := h.keeps.quarantines (fun t ht hno => by
      obtain ⟨-, hfree⟩ := hnew t ht (by simp [QuarantineSystem.Quarantined, hno])
      exact ⟨hfree.detached, hfree.mutex, hfree.unlisted⟩)
      (quarantineTask_cases now (s.manager, s.kernel) id duration)
    refine ⟨hkeeps, fun t ht => ?_, fun t ht => ?_⟩
    · by_cases hin : s.Quarantined t
      · exact h.sems t hin
      · exact (hnew t ((hsub t ht).resolve_left hin) hin).2.sems
    · by_cases hin : s.Quarantined t
      · exact hold t hin
      · exact (if_neg hin).trans (hnew t ((hsub t ht).resolve_left hin) hin).1
  · obtain ⟨hkeeps, hsub⟩ := h.keeps.lifts hlifts
    exact ⟨hkeeps, fun t ht => h.sems t (hsub t ht), fun t ht => hold t (hsub t ht)⟩

theorem step [NeZero N] (h : QuarantineInv s)
    (hstep : QuarantineStep Op.Avoids QuarantineSystem.Fits s s') : QuarantineInv s' := by
  cases hstep with
  | kernel hrun => exact ⟨⟨h.keeps.distinct, h.keeps.held.kernelRun hrun⟩, h.sems, h.found⟩
  | wait =>
    exact ⟨h.keeps, h.mask_update fun _ _ hbit => getLsbD_of_waitEnter hbit, h.found⟩
  | retry j t timeout start ht =>
    refine ⟨⟨h.keeps.distinct, h.keeps.held.semaphoreWait ht _ _ _⟩,
      h.mask_update fun x hx hbit => ?_,
      h.found⟩
    refine getLsbD_of_waitRetry (fun hv => ?_) hbit
    rw [h.keeps.held.consistent.id t (ht t rfl).2] at hv
    exact (ht t rfl).1 (Fin.ext hv ▸ hx)
  | tryWait j =>
    refine ⟨h.keeps, h.mask_update fun t ht hbit => ?_, h.found⟩
    rwa [waitMask_tryWait] at hbit
  | signal j =>
    refine ⟨⟨h.keeps.distinct, h.keeps.held.semaphoreSignal fun t ht => h.sems t ht j⟩,
      h.mask_update fun t ht hbit => ?_, h.found⟩
    rwa [signal_snd] at hbit
  | manage op hop => exact h.manage hop

theorem run [NeZero N] {counts : Nat → Int}
    (h : ReflTransGen (QuarantineStep Op.Avoids QuarantineSystem.Fits) (.boot counts) s) :
    QuarantineInv s := by
  induction h with
  | refl => exact boot counts
  | tail _ hlast ih => exact ih.step hlast

/-- A task that is let out can run. -/
theorem runnable (h : QuarantineInv s) (hop : s.Fits op) {t : Fin N}
    (ht : s.Quarantined t) (hready : (s.manage op).kernel.taskState t = .ready) :
    s.kernel.taskState t = .suspended ∧ s.WaitsNowhere t ∧ s.found t = .ready := by
  refine ⟨?_, ⟨h.keeps.held.out.detached t ht, h.keeps.held.waiting t ht,
    h.keeps.held.unlisted t ht,
    h.sems t ht⟩, h.found t ht⟩
  have hstop := h.keeps.held.stopped t ht
  have hchanged : (s.manage op).kernel.taskState t ≠ s.kernel.taskState t := by
    rw [hready]
    rcases hstop with hs | hs
    · exact fun heq => by cases heq.trans hs
    · exact fun heq => by cases heq.trans hs
  rcases exec_cases s op with ⟨now, id, duration, rfl⟩ | ⟨hlifts, hfits⟩
  · have hcases := quarantineTask_cases now (s.manager, s.kernel) id duration
    have hexec : (s.manage (.quarantineTask now id duration)).kernel =
      (quarantineTask now (s.manager, s.kernel) id duration).2.2 := rfl
    rw [hexec] at hready hchanged
    generalize (quarantineTask now (s.manager, s.kernel) id duration).2 = r at *
    cases hcases with
    | refused | again => exact absurd rfl hchanged
    | entered =>
      rw [taskState_setTaskState] at hready hchanged
      split_ifs at hready hchanged
      exact absurd rfl hchanged
  · have hends : s.Ends op t := by
      by_contra hends
      exact hchanged (taskState_of_lifts hlifts hends)
    exact hstop.resolve_right (hfits hop t ht hends)

end QuarantineInv

/-- **Quarantine holds.** Along every run in which tasks are put into quarantine only while they are
ready and wait nowhere, are neither freed nor notified by a timer of their own meanwhile, and are
let out only if they have not terminated: a task in quarantine is not ready, its slot goes to no
other task, and `schedule` does not select it, as long as there is another task to run; and a call
of the manager makes it ready only if it is suspended, waits nowhere, and was not asleep when it was
put there. -/
theorem quarantine_holds [NeZero N] {counts : Nat → Int} {s : QuarantineSystem N} {t : Fin N}
    (h : ReflTransGen (QuarantineStep Op.Avoids QuarantineSystem.Fits) (.boot counts) s)
    (ht : s.Quarantined t) :
    (∀ k, Reaches (KernelStep (Op.Avoids s.Quarantined) s.Quarantined) s.kernel k →
      k.taskState t ≠ .ready ∧ (∀ stack prio, (k.createTask stack prio).2 ≠ some t) ∧
      ∀ run allowed k' switched,
        (∀ h a b, run h a = some b →
          Reaches (KernelStep (Op.Avoids s.Quarantined) s.Quarantined) a b) →
        k.LeavesReady run → k.sched.started = true → 1 < k.sched.taskCount →
        k.schedule (fun h sig => run (h, sig)) allowed = some (k', switched) →
        runsNext k.currentTaskId (k', switched) ≠ some t) ∧
    ∀ op, s.Fits op → (s.manage op).kernel.taskState t = .ready →
      s.kernel.taskState t = .suspended ∧ s.WaitsNowhere t ∧ s.found t = .ready := by
  have hinv := QuarantineInv.run h
  refine ⟨fun k hk => ?_, fun op hop hready => hinv.runnable hop ht hready⟩
  have hheld := hinv.keeps.held.kernelRun hk
  refine ⟨fun hready => ?_, fun stack prio => (hheld.createTask stack prio).2 t ht,
    fun run allowed k' switched hrun hleaves hstarted hcount hs => ?_⟩
  · rcases hheld.stopped t ht with hstop | hstop
    · cases hready.symm.trans hstop
    · cases hready.symm.trans hstop
  · exact (hheld.schedule (fun h a b hab ha => ha.kernelRun (hrun h a b hab)) hs).2 hstarted hcount
      hleaves t ht

/-! ## Runs by example -/

instance (Q : Fin N → Prop) [DecidablePred Q] (k : Kernel N) : DecidablePred (Op.ByOthers Q k) := by
  intro op
  induction op using Op.casesOn <;> dsimp only [Op.ByOthers, Kernel.Others] <;> infer_instance

/-- Operations, one after the other, are a step of the system. -/
theorem QuarantineStep.of_ops [NeZero N] {fits : QuarantineSystem N → QuarantineOp → Prop}
    {s : QuarantineSystem N} {k' : Kernel N} (ops : List (Op N))
    (hok : Allowed (Op.exec fun _ _ => none) (Op.ByOthers s.Quarantined) ops s.kernel)
    (h : Op.execAll ops s.kernel = some k') :
    QuarantineStep (fun _ _ => True) fits s { s with kernel := k' } :=
  .kernel (Reaches.of_actions (fun _ _ op hop hexec => .op op hop trivial hexec) hok h)

/-- The second task is put into quarantine while its call waits at an endpoint; the first one
receives the call and replies, which makes the second one ready. And a task that has terminated in
quarantine is made ready when it is released. -/
theorem quarantine_overwritten :
    (∃ s : QuarantineSystem 2,
      ReflTransGen (QuarantineStep (fun _ _ => True) fun _ _ => True) (.boot fun _ => 0) s ∧
        s.Quarantined 1 ∧ s.kernel.taskState 1 = .ready) ∧
    ∃ s : QuarantineSystem 2,
      ReflTransGen (QuarantineStep (fun _ _ => True) fun _ _ => True) (.boot fun _ => 0) s ∧
        s.Quarantined 1 ∧ s.kernel.taskState 1 = .terminated ∧
        (s.manage (.releaseTask 1)).kernel.taskState 1 = .ready := by
  let s₀ : QuarantineSystem 2 := .boot fun _ => 0
  constructor
  · let before : List (Op 2) := [.createTask true 8, .createTask true 8,
      .call 0 (some 1) none 0 none 0 ipcTimeoutInfinite 0]
    let after : List (Op 2) := [.receive 0 (some 0) none 0 ipcNonblock 0, .reply (some 0) 1 none 0]
    let s₁ := { s₀ with kernel := (Op.execAll before s₀.kernel).get (by decide) }
    let s₂ := s₁.manage (.quarantineTask 0 1 0)
    let s₃ := { s₂ with kernel := (Op.execAll after s₂.kernel).get (by decide) }
    refine ⟨s₃, .tail (.tail (.single (b := s₁) ?_) (.manage (.quarantineTask 0 1 0) trivial)) ?_,
      ?_, ?_⟩
    · exact .of_ops before (by decide) (Option.some_get _).symm
    · exact .of_ops after (by decide) (Option.some_get _).symm
    · decide
    · decide
  · let s₁ := { s₀ with kernel := twoTasks }
    let s₂ := s₁.manage (.quarantineTask 0 1 0)
    let s₃ := { s₂ with kernel := s₂.kernel.setTaskState 1 .terminated }
    refine ⟨s₃, .tail (.tail (.single (b := s₁) ?_) (.manage (.quarantineTask 0 1 0) trivial)) ?_,
      ?_, ?_, ?_⟩
    · exact .of_ops [.createTask true 8, .createTask true 8] (by decide) rfl
    · exact .of_ops [.setTaskState 1 .terminated] (by decide) rfl
    · decide
    · decide
    · decide

/-- The second of two ready tasks is put into quarantine; a signal does not wake it. -/
theorem quarantine_holds_twoTasks :
    ((twoTasks.setTaskState 1 .suspended).handleKill 1 10).1.taskState 1 ≠ .ready := by
  let s₀ : QuarantineSystem 2 := .boot fun _ => 0
  let s₁ := { s₀ with kernel := twoTasks }
  have hcreate : QuarantineStep Op.Avoids QuarantineSystem.Fits s₀ s₁ :=
    .kernel ((Reaches.single (.op (.createTask true 8) trivial trivial rfl)).trans
      (Reaches.single (.op (.createTask true 8) trivial trivial rfl)))
  have hfits : s₁.Fits (.quarantineTask 0 1 0) := by
    intro t ht _
    obtain rfl : t = 1 := Fin.ext ht
    exact ⟨by decide, detached_twoTasks 1, by decide, fun _ => BitVec.getLsbD_zero,
      fun _ => BitVec.getLsbD_zero⟩
  exact ((quarantine_holds (.tail (.single hcreate) (.manage _ hfits)) (by decide)).1 _
    (Reaches.single (.op (.handleKill 1 10) trivial trivial rfl))).1

end AuroraOS
