import AuroraOS.Semaphore

/-!
# No signal is lost

Tasks wait at a semaphore and signal it while ticks go on.

**Theorem (`signals_kept`).** In every state of a run the count is, as a signed word, the initial
count plus the signals minus the successful waits. Where the initial count is not negative, that
difference never is either, so the count is exactly the difference as long as it fits. And no signal
is lost: where there are units and some task sleeps inside `wait`, some task inside `wait` is ready
to try again.

A woken task can lose its unit to another one, so one ready task is not enough of an invariant. What
is kept is that as long as some task sleeps inside `wait`, at least as many tasks inside `wait` are
ready as there are units.
-/

namespace AuroraOS

open Bitmap Relation Option Semaphore Finset Function

variable {N : Nat}

/-- A call of `wait` that has not returned. -/
structure WaitCall where
  timeoutTicks : Nat
  startTick : Nat
  deriving DecidableEq

/-- The kernel with a semaphore, the calls of `wait` that tasks are in, and how many signals and
successful waits there have been. -/
structure SemState (N : Nat) where
  kernel : Kernel N
  sem : Semaphore
  pending : Fin N → Option WaitCall
  signals : Nat
  taken : Nat

/-- The sections that tasks run. -/
inductive SemOp (N : Nat)
  | wait (current : Option (Fin N)) (call : WaitCall)
  | retry (t : Fin N)
  | tryWait
  | signal

namespace SemState

/-- A caller leaves `wait` or `try_wait` with a result. -/
def leave (s : SemState N) (c : Option (Fin N)) (r : WaitResult) : SemState N :=
  { s with
    pending t := if some t = c then none else s.pending t
    taken := if r = .taken then s.taken + 1 else s.taken }

/-- A task is inside `wait`. -/
def enter (s : SemState N) (t : Fin N) (call : WaitCall) : SemState N :=
  { s with pending := Function.update s.pending t (some call) }

end SemState

open SemState

namespace SemOp

/-- The state after a section. -/
def exec : SemOp N → SemState N → Option (SemState N)
  | .wait current call, s =>
    let (sem, r) := s.sem.waitEnter s.kernel current
    let s := { s with sem := sem }
    match current, r with
    | some t, .waits => some (s.enter t call)
    | _, r => some (s.leave current r)
  | .retry t, s => do
    let call ← s.pending t
    let ((k, sem), r) := s.sem.waitRetry s.kernel t call.timeoutTicks call.startTick
    let s := { s with kernel := k, sem := sem }
    return match r with
      | .waits => s
      | r => s.leave (some t) r
  | .tryWait, s =>
    let (sem, b) := s.sem.tryWait
    some ({ s with sem := sem }.leave none (if b then .taken else .failed))
  | .signal, s =>
    let (k, sem) := s.sem.signal s.kernel
    some { s with kernel := k, sem := sem, signals := s.signals + 1 }

/-- A task that runs is ready; it calls `wait` when it is in no such call. -/
def Enabled (s : SemState N) : SemOp N → Prop
  | .wait current _ => ∀ t ∈ current,
    (t : Nat) < s.kernel.sched.taskCount ∧ s.pending t = none ∧ s.kernel.taskState t = .ready
  | _ => True

end SemOp

/-- A step of a run: a section, or what happens meanwhile, which terminates no task inside
`wait`. -/
inductive SemStep [NeZero N] : SemState N → SemState N → Prop
  | run (op : SemOp N) {s s' : SemState N} (hop : op.Enabled s) (h : op.exec s = some s') :
      SemStep s s'
  | meanwhile {s : SemState N} {k' : Kernel N} (h : Meanwhile s.kernel k')
      (halive : ∀ t, s.pending t ≠ none → k'.taskState t ≠ .terminated) :
      SemStep s { s with kernel := k' }

namespace SemState

/-- The initial count, the signals and the successful waits add up to this. -/
def balance (init : Int) (s : SemState N) : Int := init + s.signals - s.taken

/-- The tasks inside `wait` that are ready. -/
def ready (s : SemState N) : Finset (Fin N) :=
  Finset.univ.filter fun t => s.pending t ≠ none ∧ s.kernel.taskState t = .ready

theorem mem_ready {s : SemState N} {t : Fin N} :
    t ∈ s.ready ↔ s.pending t ≠ none ∧ s.kernel.taskState t = .ready := by
  simp [ready]

/-- No task is inside `wait`, and the semaphore is new. -/
structure Fresh (init : Int) (s : SemState N) : Prop where
  slots : s.kernel.locks.Slots
  range : -2 ^ 31 ≤ init ∧ init < 2 ^ 31
  sem : s.sem = Semaphore.init init
  pending : ∀ t, s.pending t = none
  counts : s.signals = 0 ∧ s.taken = 0

end SemState

variable {x c : Int}

/-! ## Signed words -/

theorem bmod_pred (h : c = x.bmod (2 ^ 32)) (hpos : c > 0) : c - 1 = (x - 1).bmod (2 ^ 32) := by
  have hlt : x.bmod (2 ^ 32) < ((2 ^ 32 : Nat) + 1) / 2 := Int.bmod_lt (by decide)
  rw [← Int.bmod_sub_bmod, ← h, Int.bmod_eq_of_le]
  · omega
  · omega

/-- A signed word does not grow by more than one. -/
theorem bmod_succ_le (h : c = x.bmod (2 ^ 32)) : (c + 1).bmod (2 ^ 32) ≤ c + 1 := by
  have hle : -((2 ^ 32 : Nat) / 2 : Int) ≤ x.bmod (2 ^ 32) := Int.le_bmod (by decide)
  have hlt : (c + 1).bmod (2 ^ 32) < ((2 ^ 32 : Nat) + 1) / 2 := Int.bmod_lt (by decide)
  by_cases hc : c + 1 < (2 ^ 32 + 1) / 2
  · exact (Int.bmod_eq_of_le (by omega) (by omega)).le
  · omega

/-! ## The invariant -/

/-- What holds in every state of a run. -/
structure SemInv (init : Int) (s : SemState N) : Prop where
  slots : s.kernel.locks.Slots
  inside : ∀ t, s.pending t ≠ none → (t : Nat) < s.kernel.locks.count
  marked : ∀ t, s.pending t ≠ none → s.kernel.Asleep t → s.sem.waitMask.getLsbD t = true
  bits : ∀ t : Fin N, s.sem.waitMask.getLsbD t = true → s.pending t ≠ none
  count : s.sem.count = (s.balance init).bmod (2 ^ 32)
  nonneg : 0 ≤ init → 0 ≤ s.balance init
  woken : ∀ t, s.pending t ≠ none → s.kernel.Asleep t → s.sem.count ≤ s.ready.card

namespace SemInv

variable {init : Int} {s : SemState N}

variable {t : Fin N} {s' : SemState N}

theorem id_eq (h : SemInv init s) (ht : (t : Nat) < s.kernel.locks.count) :
    (s.kernel.sched.tasks t).id = t := h.slots t ht

/-- **A unit is taken**, by a caller that is not or no longer inside `wait`. -/
theorem take (h : SemInv init s) (hcount : s.sem.count > 0) {c : Option (Fin N)} {w : BitVec 32}
    (hw : ∀ t : Fin N, some t ≠ c → w.getLsbD t = s.sem.waitMask.getLsbD t)
    (hc : ∀ t, some t = c → w.getLsbD t = false) :
    SemInv init ({ s with sem := ⟨s.sem.count - 1, w⟩ }.leave c .taken) := by
  set s' := { s with sem := ⟨s.sem.count - 1, w⟩ }.leave c .taken with hs'
  have hpending : ∀ t, s'.pending t = if some t = c then none else s.pending t := fun _ => rfl
  have hstill : ∀ {t}, s'.pending t ≠ none → some t ≠ c ∧ s.pending t ≠ none := by
    intro t ht
    rw [hpending] at ht
    split_ifs at ht with htc
    · exact absurd rfl ht
    · exact ⟨htc, ht⟩
  have hbalance : s'.balance init = s.balance init - 1 := by
    simp only [hs', balance, leave, if_true]
    omega
  refine
    { slots := h.slots
      inside := fun t ht => h.inside t (hstill ht).2
      marked := fun t ht hs => (hw t (hstill ht).1).trans (h.marked t (hstill ht).2 hs)
      bits := fun t ht => ?_
      count := hbalance ▸ bmod_pred h.count hcount
      nonneg := fun hinit => ?_
      woken := fun t ht hs => ?_ }
  · by_cases htc : some t = c
    · exact absurd (ht.symm.trans (hc t htc)) (by simp)
    · rw [hpending, if_neg htc]
      exact h.bits t ((hw t htc).symm.trans ht)
  · have hnonneg := h.nonneg hinit
    have hne : s.balance init ≠ 0 := by
      intro hzero
      rw [h.count, hzero] at hcount
      simp at hcount
    omega
  · -- the caller may be one of the ready tasks, no other one leaves
    have hsub : s.ready ⊆ insert (c.getD t) s'.ready := by
      intro u hu
      obtain ⟨hin, hready⟩ := mem_ready.mp hu
      by_cases huc : some u = c
      · rw [← huc]
        exact mem_insert_self ..
      · refine mem_insert_of_mem (mem_ready.mpr ⟨?_, hready⟩)
        rwa [hpending, if_neg huc]
    have hcard := (card_le_card hsub).trans (card_insert_le ..)
    have hle := h.woken t (hstill ht).2 hs
    have hcount' : s'.sem.count = s.sem.count - 1 := rfl
    omega

/-- **There is no unit**, and a task starts to wait, goes on or gives up. -/
theorem empty (h : SemInv init s) (hcount : s.sem.count ≤ 0) (ht : (t : Nat) < s.kernel.locks.count)
    {o : Option WaitCall} (hlocks : s'.kernel.locks = s.kernel.locks)
    (hstate : ∀ u, u ≠ t → s'.kernel.taskState u = s.kernel.taskState u)
    (hcount' : s'.sem.count = s.sem.count) (hbalance : s'.balance init = s.balance init)
    (hpending : s'.pending = update s.pending t o)
    (hw : ∀ u : Fin N, u ≠ t → s'.sem.waitMask.getLsbD u = s.sem.waitMask.getLsbD u)
    (hmarked : o ≠ none → s'.kernel.Asleep t → s'.sem.waitMask.getLsbD t = true)
    (hbit : s'.sem.waitMask.getLsbD t = true → o ≠ none) : SemInv init s' := by
  have hself : s'.pending t = o := by rw [hpending, update_self]
  have hother : ∀ u, u ≠ t → s'.pending u = s.pending u := fun u hu => by
    rw [hpending, update_of_ne hu]
  refine
    { slots := hlocks ▸ h.slots
      inside := fun u hu => ?_
      marked := fun u hu hs => ?_
      bits := fun u hu => ?_
      count := by rw [hcount', hbalance, h.count]
      nonneg := hbalance ▸ h.nonneg
      woken := fun _ _ _ => by omega }
  · rw [hlocks]
    by_cases hut : u = t
    · rw [hut]
      exact ht
    · exact h.inside u (hother u hut ▸ hu)
  · by_cases hut : u = t
    · subst hut
      exact hmarked (hself ▸ hu) hs
    · rw [Kernel.Asleep, hstate u hut] at hs
      rw [hw u hut]
      exact h.marked u (hother u hut ▸ hu) hs
  · by_cases hut : u = t
    · subst hut
      exact hself ▸ hbit hu
    · rw [hw u hut] at hu
      exact hother u hut ▸ h.bits u hu

theorem getLsbD_of_ne (hN : N ≤ 32) {w : BitVec 32} {u : Fin N} (hu : u ≠ t) :
    (clearBit w t).getLsbD u = w.getLsbD u ∧ (setBit w t).getLsbD u = w.getLsbD u := by
  have hne : (u : Nat) ≠ t := fun hut => hu (Fin.ext hut)
  rw [getLsbD_clearBit _ (by omega), getLsbD_setBit _ (by omega)]
  simp [hne]

theorem take_of_task (hN : N ≤ 32) (h : SemInv init s) (hcount : s.sem.count > 0) (t : Fin N) :
    SemInv init
      ({ s with sem := ⟨s.sem.count - 1, clearBit s.sem.waitMask t⟩ }.leave (some t) .taken) := by
  refine h.take hcount (fun u hu => ?_) fun u hu => ?_
  · exact (getLsbD_of_ne hN fun hut => hu (congrArg some hut)).1
  · rw [some.inj hu, getLsbD_clearBit_self]

theorem wait (hN : N ≤ 32) (h : SemInv init s) {current : Option (Fin N)} {call : WaitCall}
    (hop : (SemOp.wait current call).Enabled s) (hs' : (SemOp.wait current call).exec s = some s') :
    SemInv init s' := by
  by_cases hcount : s.sem.count > 0
  · cases current with
    | none =>
      simp only [SemOp.exec, waitEnter, if_pos hcount] at hs'
      rw [← some.inj hs']
      exact h.take hcount (fun _ _ => rfl) (by simp)
    | some t =>
      simp only [SemOp.exec, waitEnter, if_pos hcount] at hs'
      rw [← some.inj hs', h.id_eq (hop t rfl).1]
      exact h.take_of_task hN hcount t
  · cases current with
    | none =>
      simp only [SemOp.exec, waitEnter, if_neg hcount] at hs'
      rw [← some.inj hs']
      exact h
    | some t =>
      obtain ⟨hlt, -, hready⟩ := hop t rfl
      simp only [SemOp.exec, waitEnter, if_neg hcount] at hs'
      rw [← some.inj hs']
      refine h.empty (not_lt.mp hcount) hlt rfl (fun _ _ => rfl) rfl rfl rfl (fun _ _ => rfl)
        (fun _ hs => ?_) (by simp)
      simp [Kernel.Asleep, enter] at hs hready
      simp [hready] at hs

theorem retry (hN : N ≤ 32) (h : SemInv init s) (hs' : (SemOp.retry t).exec s = some s') :
    SemInv init s' := by
  simp only [SemOp.exec, bind_eq_bind, bind_eq_some_iff] at hs'
  obtain ⟨call, hcall, hs'⟩ := hs'
  have hlt := h.inside t (by simp [hcall])
  have hid := h.id_eq hlt
  have hcases := s.sem.waitRetry_cases hid call.timeoutTicks call.startTick
  generalize s.sem.waitRetry s.kernel t call.timeoutTicks call.startTick = r at hcases hs'
  have hs' := some.inj hs'
  cases hcases with
  | taken hcount =>
    rw [← hs', hid]
    exact h.take_of_task hN hcount t
  | timeout hcount =>
    rw [← hs', hid]
    refine h.empty (o := none) hcount hlt rfl (fun _ _ => rfl) rfl rfl (funext fun u => ?_)
      (fun u hu => (getLsbD_of_ne hN hu).1) (by simp) fun hbit => ?_
    · rw [update_apply]
      exact if_congr some_inj rfl rfl
    · exact absurd (hbit.symm.trans (getLsbD_clearBit_self ..)) (by simp)
  | sleep hcount hlocks hstate =>
    rw [← hs', hid]
    refine h.empty hcount hlt hlocks hstate rfl rfl
      (update_eq_self_iff.mpr hcall.symm).symm (fun u hu => (getLsbD_of_ne hN hu).2)
      (fun _ _ => ?_) (by simp)
    refine (getLsbD_setBit _ (by omega) _).trans ?_
    simp

theorem tryWait (h : SemInv init s) (hs' : SemOp.tryWait.exec s = some s') : SemInv init s' := by
  by_cases hcount : s.sem.count > 0
  · simp only [SemOp.exec, Semaphore.tryWait, if_pos hcount] at hs'
    rw [← some.inj hs']
    exact h.take hcount (fun _ _ => rfl) (by simp)
  · simp only [SemOp.exec, Semaphore.tryWait, if_neg hcount] at hs'
    rw [← some.inj hs', if_neg (by simp)]
    exact h

theorem signal (h : SemInv init s) (hs' : SemOp.signal.exec s = some s') : SemInv init s' := by
  obtain ⟨hsem, hlocks, hwake⟩ := s.sem.signal_spec s.kernel
  simp only [SemOp.exec, hsem] at hs'
  have hs' := some.inj hs'
  have hkernel : s'.kernel = (s.sem.signal s.kernel).1 := by rw [← hs']
  have hpending : s'.pending = s.pending := by rw [← hs']
  have hsem' : s'.sem = ⟨(s.sem.count + 1).bmod (2 ^ 32), s.sem.waitMask⟩ := by rw [← hs']
  have hbalance : s'.balance init = s.balance init + 1 := by
    rw [← hs']
    simp only [balance]
    omega
  rw [← hkernel] at hlocks hwake
  have hasleep : ∀ t, s'.kernel.Asleep t → s.kernel.Asleep t := by
    intro t ht
    rcases hwake with ⟨hstate, -⟩ | ⟨b, -, hstate⟩
    · rwa [Kernel.Asleep, hstate] at ht
    · rw [Kernel.Asleep, hstate, update_apply] at ht
      split_ifs at ht
      · simp at ht
      · exact ht
  refine
    { slots := hlocks ▸ h.slots
      inside := fun t ht => hlocks ▸ h.inside t (hpending ▸ ht)
      marked := fun t ht hs => ?_
      bits := fun t ht => ?_
      count := ?_
      nonneg := fun hinit => ?_
      woken := fun t ht hs => ?_ }
  · rw [hsem']
    exact h.marked t (hpending ▸ ht) (hasleep t hs)
  · rw [hsem'] at ht
    exact hpending ▸ h.bits t ht
  · rw [hsem', hbalance, h.count, Int.bmod_add_bmod]
  · have hnonneg := h.nonneg hinit
    omega
  · -- a task that still sleeps is in the mask, so one has been woken
    rw [hpending] at ht
    have hwaiter : s.kernel.Waiter s.sem.waitMask t :=
      ⟨h.marked t ht (hasleep t hs), hasleep t hs, h.inside t ht⟩
    rcases hwake with ⟨-, hnone⟩ | ⟨b, hb, hstate⟩
    · exact absurd hwaiter (hnone t)
    · have hsub : insert b s.ready ⊆ s'.ready := by
        intro u hu
        rw [mem_ready, hpending, hstate, update_apply]
        rcases mem_insert.mp hu with rfl | hu
        · exact ⟨h.bits u hb.1, if_pos rfl⟩
        · obtain ⟨hin, hready⟩ := mem_ready.mp hu
          refine ⟨hin, ?_⟩
          split_ifs
          · rfl
          · exact hready
      have hb' : b ∉ s.ready := by
        intro hmem
        have hready := (mem_ready.mp hmem).2
        have hsleeps := hb.2.1
        simp [Kernel.Asleep, hready] at hsleeps
      have hcard := card_le_card hsub
      rw [card_insert_of_notMem hb'] at hcard
      have hle := h.woken t ht (hasleep t hs)
      have hsucc := bmod_succ_le h.count
      rw [hsem']
      dsimp only
      omega

theorem meanwhile (h : SemInv init s) {k : Kernel N} (hk : OnlyWakes s.kernel k)
    (halive : ∀ t, s.pending t ≠ none → k.taskState t ≠ .terminated) :
    SemInv init { s with kernel := k } := by
  obtain ⟨c, hc⟩ := hk.locks
  refine
    { slots := ?_
      inside := fun t ht => ?_
      marked := fun t ht hs => h.marked t ht (hk.asleep hs)
      bits := h.bits
      count := h.count
      nonneg := h.nonneg
      woken := fun t ht hs => ?_ }
  · rw [hc]
    exact h.slots
  · rw [hc]
    exact h.inside t ht
  · have hsub : s.ready ⊆ ready { s with kernel := k } := by
      intro u hu
      obtain ⟨hin, hready⟩ := mem_ready.mp hu
      exact mem_ready.mpr ⟨hin, hk.ready hready (halive u hin)⟩
    have hcard := card_le_card hsub
    have hle := h.woken t ht (hk.asleep hs)
    dsimp only
    omega

theorem step [NeZero N] (hN : N ≤ 32) (h : SemInv init s) (hs : SemStep s s') : SemInv init s' := by
  cases hs with
  | run op hop hexec =>
    cases op with
    | wait => exact h.wait hN hop hexec
    | retry t => exact h.retry hN hexec
    | tryWait => exact h.tryWait hexec
    | signal => exact h.signal hexec
  | meanwhile hk halive => exact h.meanwhile hk.onlyWakes halive

theorem of_fresh (h : s.Fresh init) : SemInv init s := by
  have hbalance : s.balance init = init := by simp [balance, h.counts]
  refine
    { slots := h.slots
      inside := fun t ht => absurd (h.pending t) ht
      marked := fun t ht => absurd (h.pending t) ht
      bits := fun t ht => by simp [h.sem, Semaphore.init] at ht
      count := ?_
      nonneg := fun hinit => by rwa [hbalance]
      woken := fun t ht => absurd (h.pending t) ht }
  have hrange := h.range
  rw [hbalance, h.sem, Int.bmod_eq_of_le]
  · rfl
  · omega
  · omega

end SemInv

/-- **No signal is lost.** Whatever tasks do at a semaphore while ticks go on, the count is the
initial count plus the signals minus the successful waits as a signed word; from an initial count
that is not negative that difference never becomes negative, and the count is the difference as long
as it fits; and where there are units and a task sleeps inside `wait`, a task inside `wait` is
ready. -/
theorem signals_kept [NeZero N] (hN : N ≤ 32) {init : Int} {s₀ s : SemState N}
    (h : s₀.Fresh init) (hrun : ReflTransGen SemStep s₀ s) :
    s.sem.count = (init + s.signals - s.taken).bmod (2 ^ 32) ∧
      (0 ≤ init → 0 ≤ init + s.signals - s.taken ∧
        (init + s.signals - s.taken < 2 ^ 31 → s.sem.count = init + s.signals - s.taken)) ∧
      ∀ t, 0 < s.sem.count → s.pending t ≠ none → s.kernel.Asleep t →
        ∃ r, s.pending r ≠ none ∧ s.kernel.taskState r = .ready := by
  have hinv : SemInv init s := Run.steps_invariant (.of_fresh h) (fun _ _ hs => hs.step hN) hrun
  refine ⟨hinv.count, fun hinit => ⟨hinv.nonneg hinit, fun hlt => ?_⟩, fun t hpos ht hs => ?_⟩
  · have hnonneg := hinv.nonneg hinit
    rw [balance] at hnonneg
    rw [hinv.count, balance]
    exact Int.bmod_eq_of_le (by omega) (by omega)
  · have hle := hinv.woken t ht hs
    obtain ⟨r, hr⟩ := card_pos.mp (by omega : 0 < s.ready.card)
    exact ⟨r, mem_ready.mp hr⟩

/-- A new semaphore, two tasks being ready. -/
def newSemaphore (init : Int) : SemState 2 := ⟨twoTasks, .init init, fun _ => none, 0, 0⟩

theorem newSemaphore_fresh {init : Int} (h : -2 ^ 31 ≤ init ∧ init < 2 ^ 31) :
    (newSemaphore init).Fresh init :=
  { slots := show ∀ i : Fin 2, (i : Nat) < twoTasks.locks.count → twoTasks.locks.id i = i by decide
    range := h
    sem := rfl
    pending := fun _ => rfl
    counts := ⟨rfl, rfl⟩ }

instance (s : SemState N) : DecidablePred (SemOp.Enabled s) := by
  intro op
  cases op <;> dsimp only [SemOp.Enabled] <;> infer_instance

/-- Both tasks sleep inside `wait` when a signal comes: one of them is woken. -/
theorem signals_kept_both_waiting : ∃ s, ReflTransGen SemStep (newSemaphore 0) s ∧
    s.sem.count = 1 ∧ s.pending 1 ≠ none ∧ s.kernel.Asleep 1 ∧
      ∃ r, s.pending r ≠ none ∧ s.kernel.taskState r = .ready := by
  let ops : List (SemOp 2) := [.wait (some 0) ⟨waitForever, 0⟩, .retry 0,
    .wait (some 1) ⟨waitForever, 0⟩, .retry 1, .signal]
  obtain ⟨s, hs, hcount, hpending, hstate⟩ :
      ∃ s ∈ ops.foldlM (fun s op => SemOp.exec op s) (newSemaphore 0),
        s.sem.count = 1 ∧ s.pending 1 ≠ none ∧
        s.kernel.taskState 1 = .suspended := by decide +kernel
  have hrun : ReflTransGen SemStep (newSemaphore 0) s :=
    Run.reflTransGen_of_actions
      (fun _ _ op hop hexec => .run op hop hexec) (by decide +kernel) hs
  exact ⟨s, hrun, hcount, hpending, .inl hstate,
    (signals_kept (by decide) (newSemaphore_fresh (by decide)) hrun).2.2 1 (by omega) hpending
      (.inl hstate)⟩

/-- One signal too many makes the count negative. -/
theorem count_negative_of_signal : ∃ s : SemState 2,
    (newSemaphore (2 ^ 31 - 1)).Fresh (2 ^ 31 - 1) ∧
      ReflTransGen SemStep (newSemaphore (2 ^ 31 - 1)) s ∧ s.sem.count < 0 ∧
      s.sem.count ≠ 2 ^ 31 - 1 + s.signals - s.taken := by
  refine ⟨_, newSemaphore_fresh (by decide), .single (.run .signal trivial rfl), ?_, ?_⟩
  all_goals decide +kernel

end AuroraOS
