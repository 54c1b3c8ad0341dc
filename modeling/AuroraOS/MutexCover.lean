import AuroraOS.MutexPriority

/-!
# Mutexes next to other reasons for a priority

Where endpoints raise priorities as well, a task's priority is no longer the greatest of what the
mutexes ask for. What the sections of `lock` and `unlock` still keep is `LockCover`: no priority is
*below* its base priority, the ceilings of the mutexes held and the priorities of the tasks that
wait for them. Each section comes with the priorities that it may change.
-/

namespace AuroraOS

open Bitmap Chain Inheritance Relation Kernel Locks Function

variable {N : Nat}

/-- The lock structure is consistent, and no priority is too low for it. -/
structure LockCover (s : Locks N) (pending : Pending N) : Prop extends LockShape s pending where
  covered : Covered s.own s.blocker s.priority

/-- The task `o`, the one it waits for, and so on: the tasks that propagation and recalculation walk
along. -/
def Kernel.chain (k : Kernel N) : Nat → Option (Fin N) → List (Fin N)
  | 0, _ | _, none => []
  | steps + 1, some o => o :: k.chain steps (k.locks.blocker o)

theorem Kernel.chain_eq {k : Kernel N} {o : Option (Fin N)} {l : List (Fin N)}
    (h : Path k.locks.blocker o l none) {steps : Nat} (hsteps : l.length ≤ steps) :
    k.chain steps o = l := by
  induction l generalizing o steps with
  | nil =>
    rw [show o = none from h]
    cases steps <;> rfl
  | cons x l ih =>
    obtain ⟨steps, rfl⟩ : ∃ n, steps = n + 1 := ⟨steps - 1, by simp at hsteps; omega⟩
    obtain ⟨rfl, hrest⟩ := h
    exact congrArg (x :: ·) (ih hrest (by simpa using hsteps))

/-- The priority `p` is at most the base priority of `y`, the ceiling of a mutex that `y` holds or
the priority of a task that waits for one, leaving out the mutexes `lost` and the tasks `gone`. -/
def Kernel.Due (k : Kernel N) (lost : MutexId → Prop) (gone : Fin N → Prop) (y : Fin N) (p : Nat) :
    Prop :=
  p ≤ (k.sched.tasks y).basePriority ∨ ∃ m, ¬ lost m ∧ (k.mutexes m).owner = some y ∧
    (p ≤ (k.mutexes m).ceilingPrio ∨
      ∃ u, ¬ gone u ∧ (k.sched.tasks u).waitingOnMutex = some m ∧ p ≤ k.priority u)

/-- A call of `lock` gives up only when its time is over. -/
theorem Kernel.timedOut_of_failed {k k' : Kernel N} {rounds timeout start : Nat} {m : MutexId}
    {t : Fin N} (h : k.lockRetry rounds m t timeout start = some (k', .failed)) :
    timeout ≠ lockForever ∧ k.elapsed start ≥ timeout := by
  unfold lockRetry at h
  split_ifs at h with hfree hown htime
  · simp at h
  · simp at h
  · exact htime
  · simp at h
  · simp at h

namespace LockShape

variable {k k' : Kernel N} {pending : Pending N} {o y : Fin N}

theorem mem_chain (h : LockShape k.locks pending) (ho : (o : Nat) < k.locks.count)
    (hy : ReflTransGen (Parent k.locks.blocker) o y) : y ∈ k.chain N (some o) := by
  obtain ⟨l, hl⟩ := h.acyclic o
  rw [chain_eq hl (h.path_bound ho hl).2]
  exact mem_of_ancestor hy hl

end LockShape

/-- What is due is reached, where the mutexes and tasks it comes from are still there. -/
theorem LockCover.le_of_due {k : Kernel N} {s : Locks N} {pending : Pending N}
    {lost : MutexId → Prop} {gone : Fin N → Prop} {y : Fin N} {p : Nat} (h : LockCover s pending)
    (hdue : k.Due lost gone y p) (hbase : ∀ u, s.base u = k.locks.base u)
    (hmutex : ∀ m, ¬ lost m → (s.mutexes m).owner = (k.mutexes m).owner ∧
      (s.mutexes m).ceilingPrio = (k.mutexes m).ceilingPrio)
    (htask : ∀ u, ¬ gone u → s.waitingOn u = k.locks.waitingOn u ∧ s.priority u = k.priority u) :
    p ≤ s.priority y := by
  obtain ⟨hown, hup⟩ := covered_iff.mp h.covered
  rcases hdue with hp | ⟨m, hm, howner, hp | ⟨u, hu, hw, hp⟩⟩
  · exact hp.trans (hown y _ (.inl (hbase y).symm))
  · exact hp.trans (hown y _ (.inr ⟨m, (hmutex m hm).1.trans howner, (hmutex m hm).2.symm⟩))
  · have hblocker : s.blocker u = some y := by
      rw [blocker, (htask u hu).1]
      exact Option.bind_eq_some_iff.mpr ⟨m, hw, (hmutex m hm).1.trans howner⟩
    exact (hp.trans (htask u hu).2.ge).trans (hup u y hblocker)

/-! ## Edits of the lock structure -/

namespace LockCover

variable {s : Locks N} {pending : Pending N} {m : MutexId} {t : Fin N}

theorem modifyMutex (h : LockCover s pending) {f : Mutex N → Mutex N} (hf : s.Quiet m f) :
    LockCover (s.modifyMutex m f) pending where
  toLockShape := h.toLockShape.modifyMutex hf
  covered := by
    rw [s.blocker_modifyMutex hf.owner, s.own_modifyMutex hf.owner hf.ceil]
    exact h.covered

/-- **Taking a free mutex**, the other tasks that wait for it being in its mask and not more urgent
than the new owner becomes. -/
theorem take (h : LockCover s pending) (ht : (t : Nat) < s.count)
    (hfree : (s.mutexes m).locked = false) (hwait : s.waitingOn t = none)
    (hothers : s.Outranks m t) : LockCover (s.take m t) pending :=
  ⟨h.toLockShape.take ht hfree hwait fun u hu hw => (hothers u hu hw).1,
    h.covered.graft (graft_take (h.owner_of_free hfree) hwait hothers)⟩

/-- Taking a mutex raises nobody but the new owner. -/
theorem priority_take (s : Locks N) (m : MutexId) (t y : Fin N) :
    (s.take m t).priority y = s.priority y ∨ y = t ∧ s.priority y ≤ (s.take m t).priority y := by
  rw [take_priority]
  split_ifs with hy
  · exact .inr ⟨hy, hy ▸ le_max_left _ _⟩
  · exact .inl rfl

/-- An owner that gives a mutex back has less to reach. -/
theorem covered_giveBack (h : LockCover s pending) {o : Fin N} {hd : Option MutexId}
    {next : MutexId → Option MutexId} :
    Covered (s.giveBack m o hd next).own (s.giveBack m o hd next).blocker s.priority := by
  refine h.covered.mono (fun t p hp => ?_) fun u p hu => ?_
  · rcases hp with hp | ⟨m', hm', hp⟩
    · exact .inl hp
    · rw [giveBack_owner] at hm'
      rw [giveBack_ceilingPrio] at hp
      split_ifs at hm'
      exact .inr ⟨m', hm', hp⟩
  · rw [giveBack_blocker] at hu
    split_ifs at hu
    exact hu

end LockCover

/-! ## The sections -/

namespace LockCover

variable {k k' : Kernel N} {pending : Pending N} {m : MutexId} {t o : Fin N}

/-- A task that stops waiting leaves the others behind the tasks they wait for. -/
theorem blocker_of_stop {s : Locks N} {w : BitVec 32} {u p : Fin N}
    (h : (s.setWait m t w none).blocker u = some p) : s.blocker u = some p := by
  rw [setWait_blocker] at h
  split_ifs at h
  · cases h
  · exact h

/-- The recursion count of a mutex plays no part. -/
theorem setCount (h : LockCover k.locks pending) (m : MutexId) (n : Mutex N → Nat) :
    LockCover (k.modifyMutex m fun c => { c with recursiveCount := n c }).locks pending := by
  rw [locks_modifyMutex]
  exact h.modifyMutex ⟨rfl, rfl, fun _ => id, fun _ => ⟨rfl, rfl, rfl⟩⟩

/-- **Repairing** lowers priorities, those of the tasks above the first one only. -/
theorem repair {s : Locks N} {c : Fin N → Nat} (h : LockCover s pending)
    (hrep : Repairs s.own s.blocker o s.priority c) : LockCover { s with priority := c } pending ∧
      (∀ y, c y ≤ s.priority y) ∧
      ∀ y, ¬ ReflTransGen (Parent s.blocker) o y → c y = s.priority y := by
  obtain ⟨hcov, hle, hsame⟩ := hrep.covered h.covered
  exact ⟨⟨h.toLockShape.setPriority _, hcov⟩, hle, hsame⟩

variable {rounds : Nat} {call : LockCall} (h : LockCover k.locks pending)

include h

theorem lockEnter_none (m : MutexId) :
    LockCover (k.lockEnter m none).1.locks pending ∧
      (k.lockEnter m none).1.priority = k.priority := by
  rcases k.lockEnter_none_cases m with ⟨hfree, heq⟩ | ⟨-, heq⟩
  · have howner := h.owner_of_free hfree
    rw [heq, Kernel.locks_modifyMutex]
    exact ⟨h.modifyMutex ⟨howner.symm, rfl, fun _ => id, fun hne => absurd howner hne⟩, rfl⟩
  · rw [heq]
    exact ⟨h, rfl⟩

variable (hN : N ≤ 32)

include hN

/-- **The first section of `lock`** raises the task that takes the mutex, or the tasks that it now
waits for, to its own priority. -/
theorem lockEnter (ht : (t : Nat) < k.locks.count)
    (hpending : pending t = none)
    (hfree : (k.mutexes call.mutex).locked = false → k.locks.Outranks call.mutex t)
    {r : LockResult} (hk' : k.lockEnter call.mutex (some t) = (k', r)) :
    LockCover k'.locks (if r = .waits then update pending t (some call) else pending) ∧
      ∀ y, k'.priority y = k.priority y ∨ k.priority y ≤ k'.priority y ∧ (y = t ∨
        k.checkDeadlock t call.mutex = false ∧ y ∈ k.chain N (k.mutexes call.mutex).owner ∧
          k.priority y < k.priority t ∧ k'.priority y = k.priority t) := by
  by_cases hr : r = .waits
  · subst hr
    obtain ⟨hs, hdead, c, hc, hraises⟩ := h.toLockShape.enters hN ht hpending hk'
    set s := k.locks.setWait call.mutex t (setBit (k.mutexes call.mutex).waitMask t)
      (some call.mutex)
    have hup : ∀ u, u ≠ t → s.blocker u = k.locks.blocker u := fun u hu => setWait_blocker_of_ne hu
    have hbut : CoveredBut s.own s.blocker k.priority t := by
      rw [setWait_own]
      exact h.covered.link hup
    obtain ⟨hcov, hraised⟩ := hraises.covered hbut
    obtain rfl : k'.priority = c := congrArg Locks.priority hc
    rw [hc]
    refine ⟨⟨hs.setPriority _, hcov⟩, fun y => ?_⟩
    rcases hraised y with hy | ⟨hty, hlt, hy⟩
    · exact .inl hy
    · refine .inr ⟨hy ▸ hlt.le, .inr ⟨hdead, ?_, hlt, hy⟩⟩
      -- the tasks above the owner are the same as before: the task that waits is not one of them
      obtain ⟨o, hto, hoy⟩ := TransGen.head'_iff.mp hty
      have ho : (k.mutexes call.mutex).owner = some o := setWait_blocker_some.symm.trans hto
      rw [ho]
      refine h.mem_chain (h.owned ho).2 (ancestor_congr (fun x hx => ?_) hoy)
      exact (hup x fun hxt => hs.acyclic.irrefl t (.head' hto (hxt ▸ hx))).symm
  have hcases := hk' ▸ k.lockEnter_cases call.mutex t
  rw [if_neg hr]
  cases hcases with
  | free hunlocked =>
    have hacquire := locks_acquire h.slots ht call.mutex
    have hwait : k.locks.waitingOn t = none := h.waitingOn_eq_none hpending
    rw [show Kernel.priority _ = _ from congrArg Locks.priority hacquire, hacquire]
    refine ⟨h.take ht hunlocked hwait (hfree hunlocked), fun y => ?_⟩
    exact (priority_take k.locks call.mutex t y).imp_right fun hy => ⟨hy.2, .inl hy.1⟩
  | own => exact ⟨h.setCount _ _, fun _ => .inl rfl⟩
  | deadlock => exact ⟨h, fun _ => .inl rfl⟩
  | wait => exact absurd rfl hr
  | boost => exact absurd rfl hr

/-- **A section of the loop of `lock`** raises the task that takes the mutex, or lowers the tasks
that a task which gives up has waited for. -/
theorem lockRetry (hcall : pending t = some call)
    (hfree : (k.mutexes call.mutex).locked = false → k.locks.Outranks call.mutex t)
    {r : LockResult}
    (hk' : k.lockRetry rounds call.mutex t call.timeoutTicks call.startTick = some (k', r)) :
    LockCover k'.locks (if r = .waits then pending else update pending t none) ∧
      ((∀ y, k'.priority y = k.priority y ∨ y = t ∧ k.priority y ≤ k'.priority y) ∨
        (call.timeoutTicks ≠ lockForever ∧ k.elapsed call.startTick ≥ call.timeoutTicks) ∧
          (∀ y, k'.priority y ≤ k.priority y) ∧
          (∀ y, y ∉ k.chain N (k.mutexes call.mutex).owner → k'.priority y = k.priority y) ∧
          ∀ y p, k.Due (fun _ => False)
            (fun u => u = t ∨ u ∈ k.chain N (k.mutexes call.mutex).owner) y p →
            p ≤ k'.priority y) := by
  have hwait := h.waitingOn_of_pending hcall
  have hstop : LockCover
      (k.locks.setWait call.mutex t (clearBit (k.mutexes call.mutex).waitMask t) none)
      (update pending t none) := by
    refine ⟨h.toLockShape.stopWaiting hN hcall, ?_⟩
    rw [setWait_own]
    exact h.covered.mono (fun _ => subset_rfl) fun u p => blocker_of_stop
  have htime (hr : r = .failed) := timedOut_of_failed (hr ▸ hk')
  have hcases := h.toLockShape.retries hN hcall hk'
  rw [show k'.priority = k'.locks.priority from rfl]
  generalize k'.locks = s' at hcases ⊢
  cases hcases with
  | acquired hunlocked =>
    refine ⟨hstop.take (h.waiter hwait) ?_ (hstop.waitingOn_eq_none (by simp))
      (LockInv.outranks_stopWaiting hN (hfree hunlocked)), .inl (priority_take _ call.mutex t)⟩
    rw [setWait_locked]
    exact hunlocked
  | unowned => exact ⟨hstop, .inl fun _ => .inl rfl⟩
  | @failed o c ho hrep =>
    obtain ⟨hcover, hle, hsame⟩ := hstop.repair hrep
    have hsame' : ∀ y, y ∉ k.chain N (k.mutexes call.mutex).owner → c y = k.priority y := by
      intro y hy
      rw [ho] at hy
      refine hsame y fun hoy => hy (h.mem_chain (h.owned ho).2 (ReflTransGen.mono ?_ _ _ hoy))
      exact fun _ _ => blocker_of_stop
    refine ⟨hcover, .inr ⟨htime rfl, hle, hsame', fun y p hdue => ?_⟩⟩
    refine hcover.le_of_due hdue (fun _ => rfl) (fun m' _ => by simp [Kernel.locks])
      fun u hu => ⟨?_, hsame' u fun hul => hu (.inr hul)⟩
    simp only [setWait_waitingOn]
    exact if_neg fun hut => hu (.inl hut)
  | waits =>
    refine ⟨⟨h.toLockShape.keepWaiting hN hcall, ?_⟩, .inl fun _ => .inl rfl⟩
    rw [setWait_own, setWait_blocker_same]
    · exact h.covered
    · rw [blocker, hwait]

omit hN

/-- **The section of `unlock`** lowers the task that has given the mutex back. -/
theorem unlock {current : Option (Fin N)}
    (hcurrent : ∀ t ∈ current, pending t = none) (hk' : k.unlock rounds m current = some k') :
    LockCover k'.locks pending ∧ ((∀ y, k'.priority y = k.priority y) ∨
      ∃ o, current = some o ∧ (k.mutexes m).owner = some o ∧
        (k.mutexes m).recursiveCount % 2 ^ 32 = 1 ∧
        (∀ y, k'.priority y ≤ k.priority y) ∧ (∀ y, y ≠ o → k'.priority y = k.priority y) ∧
        ∀ p, k.Due (· = m) (· = o) o p → p ≤ k'.priority o) := by
  have hcases := h.toLockShape.unlocks hk'
  rw [show k'.priority = k'.locks.priority from rfl]
  generalize k'.locks = s' at hcases ⊢
  cases hcases with
  | quiet hf => exact ⟨h.modifyMutex hf, .inl fun _ => rfl⟩
  | @givenBack o hd next w c ho howner hcount hshape hrep hquiet =>
    have hdown := h.setCount m fun c => (c.recursiveCount + (2 ^ 32 - 1)) % 2 ^ 32
    obtain ⟨hcover, hle, hsame⟩ := LockCover.repair ⟨hshape, hdown.covered_giveBack⟩ hrep
    have hfinal := hcover.modifyMutex hquiet
    -- the task runs, so it waits for nobody
    have hwait : k.locks.waitingOn o = none := h.waitingOn_eq_none (hcurrent o ho)
    have hsame' : ∀ y, y ≠ o → c y = k.priority y := by
      intro y hy
      refine hsame y fun hoy => ?_
      rcases hoy.cases_head with rfl | ⟨z, hz, -⟩
      · exact hy rfl
      · rw [Parent, giveBack_blocker, blocker,
          show (k.countDown m).locks.waitingOn o = none from hwait] at hz
        simp at hz
    refine ⟨hfinal, .inr ⟨o, ho, howner, hcount, hle, hsame', fun p hdue => ?_⟩⟩
    refine hfinal.le_of_due hdue (fun _ => rfl) (fun m' hm' => ?_) fun u hu => ⟨rfl, hsame' u hu⟩
    have hcount' : (k.countDown m).mutexes m' = k.mutexes m' := by
      simp [Kernel.countDown, Kernel.modifyMutex, hm']
    rw [Locks.mutexes_modifyMutex, if_neg hm']
    dsimp only
    rw [Locks.giveBack_owner, if_neg hm', Locks.giveBack_ceilingPrio]
    exact ⟨congrArg Mutex.owner hcount', congrArg Mutex.ceilingPrio hcount'⟩

end LockCover

end AuroraOS
