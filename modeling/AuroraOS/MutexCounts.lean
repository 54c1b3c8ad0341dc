import AuroraOS.MutexWakeups
import AuroraOS.MutexPriority

/-!
# Mutexes are counted and handed on

Tasks lock and unlock mutexes while ticks go on. A run carries, for every caller and mutex, the
number of the caller's calls of `lock` that have returned true and that no `unlock` has undone.

**Theorem (`mutexes_kept`).** In every state of a run the recursion count of a mutex is its owner's
number modulo `2 ^ 32`, and every other caller's number is zero modulo `2 ^ 32`; the list of each
task is exactly what it owns; and no wake-up is lost: where a free mutex has a task asleep inside
`lock`, some task inside `lock` on that mutex is ready to try again.
-/

namespace AuroraOS

open Bitmap Chain Relation MutexOp Function Kernel

variable {N : Nat}

/-! ## Outstanding calls -/

/-- What a section has done for its caller. -/
inductive MutexEvent (N : Nat)
  | locked (c : Option (Fin N)) (m : MutexId)
  | unlocked (c : Option (Fin N)) (m : MutexId)
  | neither

/-- The outcome of a section. -/
def MutexOp.event (rounds : Nat) : MutexOp N → Kernel N × Pending N → MutexEvent N
  | .lock current call, (k, _) =>
    if (k.lockEnter call.mutex current).2 = .acquired then .locked current call.mutex else .neither
  | .retry t, (k, pending) =>
    match pending t with
    | none => .neither
    | some call =>
      match k.lockRetry rounds call.mutex t call.timeoutTicks call.startTick with
      | some (_, .acquired) => .locked (some t) call.mutex
      | _ => .neither
  | .unlock current m, (k, _) =>
    if (k.mutexes m).locked ∧ (k.mutexes m).owner = current then .unlocked current m else .neither

/-- For each caller and mutex, the calls of `lock` that have returned true and not been undone. -/
abbrev Calls (N : Nat) := Option (Fin N) → MutexId → Nat

namespace MutexEvent

def count : MutexEvent N → Calls N → Calls N
  | .locked c m, n => fun c' m' => if c' = c ∧ m' = m then n c m + 1 else n c' m'
  | .unlocked c m, n => fun c' m' => if c' = c ∧ m' = m then n c m - 1 else n c' m'
  | .neither, n => n

/-- A section adds one call at most. -/
theorem count_le (ev : MutexEvent N) (n : Calls N) (c : Option (Fin N)) (m : MutexId) :
    ev.count n c m ≤ n c m + 1 := by
  cases ev with
  | neither => exact Nat.le_succ _
  | locked c' m' | unlocked c' m' =>
    simp only [count]
    split_ifs with heq
    · obtain ⟨rfl, rfl⟩ := heq
      omega
    · exact Nat.le_succ _

end MutexEvent

/-! ## Who holds a mutex -/

/-- Who holds a mutex, and how often. -/
structure Hold (N : Nat) where
  locked : Bool
  owner : Option (Fin N)
  count : Nat

def Kernel.hold (k : Kernel N) (m : MutexId) : Hold N :=
  ⟨(k.mutexes m).locked, (k.mutexes m).owner, (k.mutexes m).recursiveCount⟩

/-- The caller holds the mutex. -/
def Hold.By (h : Hold N) (c : Option (Fin N)) : Prop := h.locked = true ∧ h.owner = c
  deriving Decidable

/-- What a section can do to the holders. -/
inductive HoldStep (k k' : Kernel N) : MutexEvent N → Prop
  | taken (c : Option (Fin N)) (m : MutexId) (hfree : (k.hold m).locked = false)
      (hk' : k'.hold = Function.update k.hold m ⟨true, c, 1⟩) : HoldStep k k' (.locked c m)
  | again (c : Option (Fin N)) (m : MutexId) (hold : (k.hold m).By c)
      (hk' : k'.hold = Function.update k.hold m ⟨true, c, ((k.hold m).count + 1) % 2 ^ 32⟩) :
      HoldStep k k' (.locked c m)
  | down (c : Option (Fin N)) (m : MutexId) (hold : (k.hold m).By c)
      (hcount : ((k.hold m).count + (2 ^ 32 - 1)) % 2 ^ 32 ≠ 0)
      (hk' : k'.hold =
        Function.update k.hold m ⟨true, c, ((k.hold m).count + (2 ^ 32 - 1)) % 2 ^ 32⟩) :
      HoldStep k k' (.unlocked c m)
  | released (c : Option (Fin N)) (m : MutexId) (hold : (k.hold m).By c)
      (hcount : ((k.hold m).count + (2 ^ 32 - 1)) % 2 ^ 32 = 0)
      (hk' : k'.hold = Function.update k.hold m ⟨false, none, 0⟩) : HoldStep k k' (.unlocked c m)
  | same (hk' : k'.hold = k.hold) : HoldStep k k' .neither

/-- The counts of the mutexes are those of the callers. -/
structure Counts (k : Kernel N) (n : Calls N) : Prop where
  count : ∀ m c, n c m % 2 ^ 32 = if (k.hold m).By c then (k.hold m).count else 0
  pos : ∀ m c, (k.hold m).By c → 0 < n c m

namespace Counts

variable {k k' : Kernel N} {n : Calls N}

theorem update (h : Counts k n) {c : Option (Fin N)} {m : MutexId} {b : Hold N} {v : Nat}
    (hk' : k'.hold = update k.hold m b) (hbefore : (k.hold m).locked = true → (k.hold m).owner = c)
    (hafter : b.locked = true → b.owner = c) (hcount : v % 2 ^ 32 = if b.By c then b.count else 0)
    (hpos : b.By c → 0 < v) : Counts k' fun c' m' => if c' = c ∧ m' = m then v else n c' m' := by
  refine ⟨fun m' c' => ?_, fun m' c' hby => ?_⟩
  · rw [hk', update_apply]
    by_cases hm : m' = m
    · subst hm
      rw [if_pos rfl]
      by_cases hc : c' = c
      · rw [hc, if_pos ⟨rfl, rfl⟩]
        exact hcount
      · have hzero := h.count m' c'
        rw [if_neg fun hby => hc (hby.2.symm.trans (hbefore hby.1))] at hzero
        rw [if_neg fun h => hc h.1, if_neg fun hby => hc (hby.2.symm.trans (hafter hby.1))]
        exact hzero
    · rw [if_neg hm, if_neg fun h => hm h.2]
      exact h.count m' c'
  · rw [hk', update_apply] at hby
    by_cases hm : m' = m
    · subst hm
      rw [if_pos rfl] at hby
      obtain rfl : c' = c := hby.2.symm.trans (hafter hby.1)
      rw [if_pos ⟨rfl, rfl⟩]
      exact hpos hby
    · rw [if_neg hm] at hby
      rw [if_neg fun h => hm h.2]
      exact h.pos m' c' hby

theorem step {ev : MutexEvent N} (h : Counts k n) (hs : HoldStep k k' ev) :
    Counts k' (ev.count n) := by
  cases hs with
  | taken c m hfree hk' =>
    have hzero := h.count m c
    rw [if_neg (by simp [Hold.By, hfree])] at hzero
    refine h.update hk' (by simp [hfree]) (fun _ => rfl) ?_ fun _ => Nat.succ_pos _
    simp only [Hold.By, and_self, if_true]
    omega
  | again c m hold hk' =>
    have hcount := h.count m c
    rw [if_pos hold] at hcount
    refine h.update hk' (fun _ => hold.2) (fun _ => rfl) ?_ fun _ => Nat.succ_pos _
    simp only [Hold.By, and_self, if_true]
    omega
  | down c m hold hne hk' =>
    have hcount := h.count m c
    have hpos := h.pos m c hold
    rw [if_pos hold] at hcount
    refine h.update hk' (fun _ => hold.2) (fun _ => rfl) ?_ fun _ => by omega
    simp only [Hold.By, and_self, if_true]
    omega
  | released c m hold hzero hk' =>
    have hcount := h.count m c
    rw [if_pos hold] at hcount
    refine h.update hk' (fun _ => hold.2) nofun ?_ fun hby => nomatch hby.1
    simp only [Hold.By, Bool.false_eq_true, false_and, if_false]
    omega
  | same hk' => exact ⟨fun m c => hk' ▸ h.count m c, fun m c => hk' ▸ h.pos m c⟩

end Counts

/-! ## What the sections do to the holders -/

namespace Kernel

variable {k k' : Kernel N} {m : MutexId}

theorem hold_count (k : Kernel N) (m : MutexId) :
    (k.hold m).count = (k.mutexes m).recursiveCount := rfl

theorem hold_eq_update {b : Mutex N} (h : k'.mutexes = update k.mutexes m b) :
    k'.hold = update k.hold m ⟨b.locked, b.owner, b.recursiveCount⟩ := by
  funext m'
  rw [hold, h, update_apply, update_apply]
  split_ifs <;> rfl

theorem hold_congr (h : ∀ m, (k'.mutexes m).locked = (k.mutexes m).locked ∧
    (k'.mutexes m).owner = (k.mutexes m).owner ∧
    (k'.mutexes m).recursiveCount = (k.mutexes m).recursiveCount) : k'.hold = k.hold := by
  funext m
  obtain ⟨hl, ho, hc⟩ := h m
  rw [hold, hold, hl, ho, hc]

theorem hold_of_mask {w : BitVec 32}
    (h : k'.mutexes = update k.mutexes m { k.mutexes m with waitMask := w }) :
    k'.hold = k.hold := by
  rw [hold_eq_update h]
  exact update_eq_self m k.hold

theorem hold_lockEnter (k : Kernel N) (m : MutexId) (t : Fin N) :
    HoldStep k (k.lockEnter m (some t)).1
      (if (k.lockEnter m (some t)).2 = .acquired then .locked (some t) m else .neither) := by
  have hcases := k.lockEnter_cases m t
  generalize k.lockEnter m (some t) = r at hcases ⊢
  cases hcases with
  | free hfree => exact .taken _ _ hfree (hold_eq_update (mutexes_acquire k m t))
  | own hlocked howner =>
    refine .again _ _ ⟨hlocked, howner⟩ ?_
    rw [relock, hold_eq_update (mutexes_modifyMutex ..)]
    simp only [hlocked, howner, hold_count]
  | deadlock => exact .same rfl
  | wait => exact .same (hold_of_mask (mutexes_addWaiter ..))
  | boost =>
    exact .same (hold_of_mask ((propagateFrom_frame ..).1.trans (mutexes_addWaiter ..)))

theorem hold_lockRetry {t : Fin N} {rounds timeout start : Nat} {r : LockResult}
    (h : k.lockRetry rounds m t timeout start = some (k', r)) :
    HoldStep k k' (if r = .acquired then .locked (some t) m else .neither) := by
  have hstop : (k.stopWaiting m t).hold = k.hold := hold_of_mask (mutexes_stopWaiting ..)
  cases lockRetry_cases h with
  | free hfree =>
    refine .taken _ _ hfree ?_
    rw [hold_eq_update (mutexes_acquire ..), hstop]
  | own hlocked howner =>
    refine .again _ _ ⟨hlocked, howner⟩ ?_
    rw [relock, hold_eq_update (mutexes_modifyMutex ..), hstop]
    simp only [mutexes_stopWaiting, update_self, hlocked, howner, hold_count]
  | timeoutUnowned => exact .same hstop
  | timeout _ _ _ hrecalc =>
    have hmutexes := (recalculateFrom_frame hrecalc).1
    exact .same (hold_of_mask (hmutexes.trans (mutexes_stopWaiting ..)))
  | sleep => exact .same (hold_of_mask (mutexes_addWaiter ..))
  | suspend => exact .same (hold_of_mask (mutexes_addWaiter ..))

theorem hold_unlock {current : Option (Fin N)} {rounds : Nat}
    (h : k.unlock rounds m current = some k') :
    HoldStep k k' (if (k.mutexes m).locked ∧ (k.mutexes m).owner = current then
      .unlocked current m else .neither) := by
  have hdown : (k.countDown m).hold = update k.hold m ⟨(k.mutexes m).locked,
      (k.mutexes m).owner, ((k.mutexes m).recursiveCount + (2 ^ 32 - 1)) % 2 ^ 32⟩ := by
    rw [countDown, hold_eq_update (mutexes_modifyMutex ..)]
  have hcount : ((k.countDown m).mutexes m).recursiveCount =
      ((k.hold m).count + (2 ^ 32 - 1)) % 2 ^ 32 := by
    simp [countDown, mutexes_modifyMutex, hold]
  -- what is given up is free, and waking changes a mask only
  have hrelease : ∀ k₁ k₂ : Kernel N, (∃ next : MutexId → Option MutexId,
      k₁.mutexes = fun c => { (k.countDown m).mutexes c with nextHeld := next c }) →
      k₂.mutexes = (k₁.release m).mutexes → ((k.countDown m).mutexes m).recursiveCount = 0 →
      (k₂.wakeHighestWaiter m).hold = update k.hold m ⟨false, none, 0⟩ := by
    rintro k₁ k₂ ⟨next, hk₁⟩ hk₂ hzero
    obtain ⟨w, hw, -⟩ := k₂.wakeHighestWaiter_spec m
    rw [hold_of_mask hw]
    have hk₁' : k₁.hold = (k.countDown m).hold := by
      rw [hold_congr]
      intro m'
      rw [hk₁]
      exact ⟨rfl, rfl, rfl⟩
    have hk₂' : k₂.hold = update k₁.hold m
        ⟨false, none, (k₁.mutexes m).recursiveCount⟩ :=
      hold_eq_update
        (hk₂.trans (mutexes_modifyMutex ..))
    have hzero₁ : (k₁.mutexes m).recursiveCount = 0 := by
      rw [hk₁]
      exact hzero
    rw [hk₂', hk₁', hdown, hzero₁, update_idem]
  cases unlock_cases h with
  | ignored hno =>
    rw [if_neg hno]
    exact .same rfl
  | counted hown hne =>
    rw [if_pos hown]
    refine .down _ _ hown (hcount ▸ hne) ?_
    rw [hdown, hown.1, hown.2, hold_count]
  | releasedUnowned hown hzero =>
    rw [if_pos hown]
    refine .released _ _ hown (hcount ▸ hzero) ?_
    exact hrelease (k.countDown m) _ ⟨fun c => ((k.countDown m).mutexes c).nextHeld, rfl⟩ rfl hzero
  | @released hown hzero o hcurrent k₁ k₂ hk₁ hk₂ =>
    rw [if_pos hown]
    refine .released _ _ hown (hcount ▸ hzero) ?_
    exact hrelease k₁ k₂ (unlinkHeld_frame hk₁).1 (recalculateFrom_frame hk₂).1 hzero

end Kernel

/-- **Every section** is one of these steps. -/
theorem MutexOp.exec_hold {op : MutexOp N} {rounds : Nat} {s s' : Kernel N × Pending N}
    (h : op.exec rounds s = some s') : HoldStep s.1 s'.1 (op.event rounds s) := by
  obtain ⟨k, pending⟩ := s
  cases op with
  | lock current call =>
    cases current with
    | none =>
      rw [exec_lock_none h, event]
      rcases k.lockEnter_none_cases call.mutex with ⟨hfree, heq⟩ | ⟨-, heq⟩
      · rw [heq]
        exact .taken none call.mutex hfree (hold_eq_update (k.mutexes_modifyMutex call.mutex
          fun c => { c with locked := true, owner := none, recursiveCount := 1 }))
      · rw [heq]
        exact .same rfl
    | some t =>
      rw [exec_lock_some h]
      exact k.hold_lockEnter call.mutex t
  | retry t =>
    obtain ⟨call, k', r, hcall, hk', rfl⟩ := exec_retry h
    have hhold := hold_lockRetry hk'
    simp only [event, hcall, hk']
    cases r <;> exact hhold
  | unlock =>
    obtain ⟨k', hk', rfl⟩ := exec_unlock h
    exact hold_unlock hk'

/-! ## Runs -/

/-- A step of a run: a section, or what happens meanwhile, which terminates no task inside
`lock`. -/
inductive LockStep [NeZero N] :
    (Kernel N × Pending N) × Calls N → (Kernel N × Pending N) × Calls N → Prop
  | run (op : MutexOp N) (rounds : Nat) {s s' : Kernel N × Pending N} {n : Calls N}
      (hop : op.Enabled s) (h : op.exec rounds s = some s') :
      LockStep (s, n) (s', (op.event rounds s).count n)
  | meanwhile {k k' : Kernel N} {pending : Pending N} {n : Calls N} (h : Meanwhile k k')
      (halive : ∀ t, pending t ≠ none → k'.taskState t ≠ .terminated) :
      LockStep ((k, pending), n) ((k', pending), n)

/-- What holds in every state of a run. -/
structure LockRun (s : (Kernel N × Pending N) × Calls N) : Prop where
  core : LockCore s.1.1.locks s.1.2
  wakeful : Wakeful s.1.1 s.1.2
  counts : Counts s.1.1 s.2

namespace LockRun

theorem of_idle {k : Kernel N} {pending : Pending N} (h : Idle k pending) :
    LockRun ((k, pending), fun _ _ => 0) := by
  have hnone : ∀ t m, ¬ Inside pending t m := fun t m ht => by simp [Inside, h.pending t] at ht
  have hfree : ∀ m c, ¬ (k.hold m).By c := fun m c hby => by
    simp [Hold.By, hold, (h.free m).1] at hby
  refine ⟨.of_idle h, ⟨fun ht _ => absurd ht (hnone _ _), fun _ ht _ => absurd ht (hnone _ _)⟩,
    ⟨fun m c => ?_, fun m c hby => absurd hby (hfree m c)⟩⟩
  rw [if_neg (hfree m c)]
  rfl

theorem step [NeZero N] (hN : N ≤ 32) {s s' : (Kernel N × Pending N) × Calls N} (h : LockRun s)
    (hs : LockStep s s') : LockRun s' := by
  cases hs with
  | run op rounds hop hexec =>
    exact ⟨h.core.exec hop hexec, h.wakeful.effect h.core (h.core.exec_effect hN hop hexec),
      h.counts.step (exec_hold hexec)⟩
  | meanwhile hk' halive =>
    obtain ⟨c, hc⟩ := hk'.onlyWakes.locks
    have hmutexes := congrArg Locks.mutexes hc
    refine ⟨h.core.of_priority hc, h.wakeful.onlyWakes hk'.onlyWakes halive,
      h.counts.step (.same (hold_congr fun m => ?_))⟩
    have hm : _ = _ := congrFun hmutexes m
    exact ⟨congrArg Mutex.locked hm, congrArg Mutex.owner hm, congrArg Mutex.recursiveCount hm⟩

theorem of_run [NeZero N] (hN : N ≤ 32) {k₀ : Kernel N} {pending₀ : Pending N}
    {s : (Kernel N × Pending N) × Calls N} (h : Idle k₀ pending₀)
    (hrun : ReflTransGen LockStep ((k₀, pending₀), fun _ _ => 0) s) : LockRun s :=
  Run.steps_invariant (of_idle h) (fun _ _ hs => hs.step hN) hrun

end LockRun

/-- **Mutexes are kept.** Whatever tasks lock and unlock while ticks go on, the count of a mutex is
the number of its owner's outstanding calls modulo `2 ^ 32` and nobody else has any modulo `2 ^ 32`;
the list of each task holds exactly what it owns, once; and no wake-up is lost. -/
theorem mutexes_kept [NeZero N] (hN : N ≤ 32) {k₀ k : Kernel N} {pending₀ pending : Pending N}
    {calls : Calls N} (h : Idle k₀ pending₀)
    (hrun : ReflTransGen LockStep ((k₀, pending₀), fun _ _ => 0) ((k, pending), calls)) :
    (∀ m c, calls c m % 2 ^ 32 =
      if (k.mutexes m).locked = true ∧ (k.mutexes m).owner = c then (k.mutexes m).recursiveCount
      else 0) ∧
      (∀ t, ∃ l, Path (fun m => (k.mutexes m).nextHeld) (k.sched.tasks t).heldMutexes l none ∧
        l.Nodup ∧ ∀ m, m ∈ l ↔ (k.mutexes m).owner = some t) ∧
      ∀ m t, (k.mutexes m).locked = false → Inside pending t m → k.Asleep t →
        ∃ r, Inside pending r m ∧ k.taskState r = .ready := by
  have hinv := LockRun.of_run hN h hrun
  refine ⟨hinv.counts.count, fun t => ?_, fun m t hfree ht hs => hinv.wakeful.woken hfree ht hs⟩
  obtain ⟨l, hl, hmem⟩ := hinv.core.held t
  exact ⟨l, hl, hl.nodup, hmem⟩

/-- A section with a bound that is large enough here, and the calls it leaves outstanding. -/
def MutexOp.execCounting (op : MutexOp N) (s : (Kernel N × Pending N) × Calls N) :
    Option ((Kernel N × Pending N) × Calls N) :=
  (op.exec 4 s.1).map fun s' => (s', (op.event 4 s.1).count s.2)

theorem MutexOp.lockStep_of_execCounting [NeZero N] {op : MutexOp N}
    {s s' : (Kernel N × Pending N) × Calls N} (hop : op.Enabled s.1)
    (h : op.execCounting s = some s') : LockStep s s' := by
  obtain ⟨s₁, hs₁, rfl⟩ := Option.map_eq_some_iff.mp h
  exact .run op 4 hop hs₁

/-- Three tasks, in no call. -/
def idleTasks : Kernel 3 :=
  (((Kernel.boot.createTask true 1).1.createTask true 10).1.createTask true 20).1

theorem idleTasks_idle : Idle idleTasks fun _ => none :=
  { slots := fun i _ => by revert i; decide
    free := fun _ => ⟨rfl, rfl, rfl⟩
    held := by decide
    base := by decide
    pending := fun _ => rfl }

/-- Two tasks wait for the first one, which gives the mutex back: one of them stays asleep, the
other one is ready. -/
theorem mutexes_kept_handed_on : ∃ k pending calls,
    ReflTransGen LockStep ((idleTasks, fun _ => none), fun _ _ => 0) ((k, pending), calls) ∧
      (k.mutexes 0).locked = false ∧ Inside pending 1 0 ∧ k.Asleep 1 ∧
      ∃ r, Inside pending r 0 ∧ k.taskState r = .ready := by
  let ops : List (MutexOp 3) := [.lock (some 0) lockCall, .lock (some 1) lockCall, .retry 1,
    .lock (some 2) lockCall, .retry 2, .unlock (some 0) 0]
  obtain ⟨⟨⟨k, pending⟩, calls⟩, hs, hfree, hin, hstate⟩ :
      ∃ s ∈ ops.foldlM (fun s op => execCounting op s) ((idleTasks, fun _ => none), fun _ _ => 0),
        (s.1.1.mutexes 0).locked = false ∧ (s.1.2 1).map LockCall.mutex = some 0 ∧
        s.1.1.taskState 1 = .suspended := by decide +kernel
  have hrun : ReflTransGen LockStep ((idleTasks, fun _ => none), fun _ _ => 0)
      ((k, pending), calls) :=
    Run.reflTransGen_of_actions
      (P := fun (s : (Kernel 3 × Pending 3) × Calls 3) op => MutexOp.Enabled s.1 op)
      (fun _ _ _ hop hexec => lockStep_of_execCounting hop hexec) (by decide +kernel) hs
  exact ⟨k, pending, calls, hrun, hfree, hin, .inl hstate,
    (mutexes_kept (by decide) idleTasks_idle hrun).2.2 0 1 hfree hin (.inl hstate)⟩

/-- The first task can lock a mutex any number of times. -/
theorem lock_again (n : Nat) : ∃ k pending calls,
    ReflTransGen LockStep ((idleTasks, fun _ => none), fun _ _ => 0) ((k, pending), calls) ∧
      0 < k.sched.taskCount ∧ pending 0 = none ∧ (k.hold 0).By (some 0) ∧
      calls (some 0) 0 = n + 1 := by
  induction n with
  | zero =>
    refine ⟨_, _, _, .single (.run (.lock (some 0) lockCall) 0 ?_ rfl), ?_, ?_, ?_, ?_⟩
    all_goals decide +kernel
  | succ n ih =>
    obtain ⟨k, pending, calls, hrun, hcount, hpending, hby, hcalls⟩ := ih
    have hlock : k.lockEnter 0 (some 0) = (k.relock 0, .acquired) := by
      have hcases := k.lockEnter_cases 0 0
      generalize k.lockEnter 0 (some 0) = r at hcases ⊢
      cases hcases with
      | free hfree => exact absurd (hfree.symm.trans hby.1) (by simp)
      | own => rfl
      | deadlock _ howner | wait _ howner | boost _ howner => exact absurd hby.2 howner
    have hstep : LockStep ((k, pending), calls) ((k.relock 0, pending),
        (MutexEvent.locked (some 0) 0).count calls) := by
      have hexec : (lock (some 0) lockCall).exec 0 (k, pending) =
          some (k.relock 0, pending) := by
        simp only [exec, lockCall, hlock]
      have hevent : (lock (some 0) lockCall).event 0 (k, pending) =
          .locked (some 0) 0 := by
        simp only [event, lockCall, hlock, if_true]
      rw [← hevent]
      refine .run _ 0 (fun t ht => ?_) hexec
      obtain rfl : 0 = t := Option.some.inj ht
      exact ⟨hcount, hpending⟩
    refine ⟨_, _, _, hrun.tail hstep, hcount, hpending, ?_, ?_⟩
    · exact hby
    · simp [MutexEvent.count, hcalls]

/-- After `2 ^ 32` calls of `lock` the count is not the number of outstanding calls. -/
theorem recursiveCount_ne_calls : ∃ k pending calls,
    ReflTransGen LockStep ((idleTasks, fun _ => none), fun _ _ => 0) ((k, pending), calls) ∧
      (k.mutexes 0).owner = some 0 ∧ (k.mutexes 0).recursiveCount ≠ calls (some 0) 0 := by
  obtain ⟨k, pending, calls, hrun, -, -, hby, hcalls⟩ := lock_again (2 ^ 32 - 1)
  refine ⟨k, pending, calls, hrun, hby.2, ?_⟩
  have hinv : Counts k calls := (LockRun.of_run (by decide) idleTasks_idle hrun).counts
  have hcount := hinv.count 0 (some 0)
  rw [if_pos hby, hcalls] at hcount
  rw [hcalls, ← hold_count, ← hcount]
  decide

end AuroraOS
