import AuroraOS.MutexEffects

/-!
# Tasks asleep inside `lock`

`wake_highest_waiter` takes waiters that are awake out of the mask, but a waiter puts itself back
before it goes to sleep again. So every task asleep inside `lock` is in the mask, and `unlock` finds
one if there is one. `Wakeful` states this, and that some task is about to try again wherever a free
mutex has tasks asleep inside `lock`. Each section is described by its `WaitEffect`, and every such
effect keeps `Wakeful`.
-/

namespace AuroraOS

open Bitmap Option Function Kernel

variable {N : Nat}

/-! ## Who is inside `lock` -/

/-- The task is inside `lock` on `m`. -/
def Inside (pending : Pending N) (t : Fin N) (m : MutexId) : Prop :=
  (pending t).map LockCall.mutex = some m

theorem Inside.unique {pending : Pending N} {t : Fin N} {m m' : MutexId} (h : Inside pending t m)
    (h' : Inside pending t m') : m = m' :=
  some.inj (h.symm.trans h')

/-- Tasks asleep inside `lock` are in the mask, and if there are any on a free mutex, then some task
is about to try again. -/
structure Wakeful (k : Kernel N) (pending : Pending N) : Prop where
  marked : ∀ {t m}, Inside pending t m → k.Asleep t → (k.mutexes m).waitMask.getLsbD t = true
  woken : ∀ {m t}, (k.mutexes m).locked = false → Inside pending t m → k.Asleep t →
    ∃ r, Inside pending r m ∧ k.taskState r = .ready

/-- What a section can do to the tasks that wait. -/
inductive WaitEffect (k : Kernel N) (pending : Pending N) (k' : Kernel N) (pending' : Pending N) :
    Prop
  /-- The caller is not or no longer inside `lock`, and the mutex is taken. -/
  | leave (c : Option (Fin N)) (m : MutexId) (hlocked : (k'.mutexes m).locked = true)
      (hother : ∀ m', m' ≠ m → (k'.mutexes m').locked = (k.mutexes m').locked)
      (hin : ∀ t m', some t = c → Inside pending t m' → m' = m)
      (hpending : ∀ t, pending' t = if some t = c then none else pending t)
      (hstate : k'.taskState = k.taskState)
      (hmask : ∀ m' (t : Fin N), some t ≠ c →
        (k'.mutexes m').waitMask.getLsbD t = (k.mutexes m').waitMask.getLsbD t)
  /-- A task starts or goes on waiting for a mutex that is taken. -/
  | wait (t : Fin N) (call : LockCall) (htaken : (k.mutexes call.mutex).locked = true)
      (hlocked : ∀ m, (k'.mutexes m).locked = (k.mutexes m).locked)
      (hin : ∀ m, Inside pending t m → m = call.mutex)
      (hpending : pending' = Function.update pending t (some call))
      (hstate : ∀ u, u ≠ t → k'.taskState u = k.taskState u)
      (hbit : (k'.mutexes call.mutex).waitMask.getLsbD t = true)
      (hmask : ∀ m (u : Fin N), u ≠ t →
        (k'.mutexes m).waitMask.getLsbD u = (k.mutexes m).waitMask.getLsbD u)
  /-- Nothing happens but to a count. -/
  | keep (hlocked : ∀ m, (k'.mutexes m).locked = (k.mutexes m).locked)
      (hmask : ∀ m, (k'.mutexes m).waitMask = (k.mutexes m).waitMask)
      (hpending : pending' = pending) (hstate : k'.taskState = k.taskState)
  /-- A mutex becomes free, and a waiter is woken if there is one. -/
  | release (m : MutexId)
      (hother : ∀ m', m' ≠ m → (k'.mutexes m').locked = (k.mutexes m').locked ∧
        (k'.mutexes m').waitMask = (k.mutexes m').waitMask)
      (hpending : pending' = pending)
      (hwake : (k'.taskState = k.taskState ∧ ∀ u, ¬ k.Waiter (k.mutexes m).waitMask u) ∨
        ∃ b, k.Waiter (k.mutexes m).waitMask b ∧
          k'.taskState = Function.update k.taskState b .ready ∧
          ∀ u, u ≠ b → k.Waiter (k.mutexes m).waitMask u →
            (k'.mutexes m).waitMask.getLsbD u = true)

/-- A task puts itself into the mask of a mutex that is taken. -/
theorem WaitEffect.of_addWaiter (hN : N ≤ 32) {k k' : Kernel N} {pending pending' : Pending N}
    {t : Fin N} {call : LockCall} (htaken : (k.mutexes call.mutex).locked = true)
    (hin : ∀ m, Inside pending t m → m = call.mutex)
    (hpending : pending' = update pending t (some call))
    (hstate : ∀ u, u ≠ t → k'.taskState u = k.taskState u)
    (hmutexes : k'.mutexes = (k.addWaiter call.mutex t).mutexes) :
    WaitEffect k pending k' pending' := by
  rw [mutexes_addWaiter] at hmutexes
  refine .wait t call htaken (fun m => ?_) hin hpending hstate ?_ fun m u hu => ?_
  · rw [hmutexes, update_apply]
    split_ifs with hm
    · rw [hm]
    · rfl
  · rw [hmutexes, update_self, getLsbD_setBit _ (by omega)]
    simp
  · have hne : (u : Nat) ≠ t := fun hut => hu (Fin.ext hut)
    rw [hmutexes, update_apply]
    split_ifs with hm
    · rw [getLsbD_setBit _ (by omega), hm]
      simp [hne]
    · rfl

namespace Wakeful

variable {k k' : Kernel N} {pending pending' : Pending N}

theorem asleep_congr {t : Fin N} (h : k'.taskState t = k.taskState t) :
    k'.Asleep t ↔ k.Asleep t := by
  unfold Kernel.Asleep
  rw [h]

/-- Waking a task puts no other one to sleep. -/
theorem asleep_of_update {b t : Fin N}
    (h : k'.taskState = update k.taskState b .ready) (ht : k'.Asleep t) :
    t ≠ b ∧ k.Asleep t := by
  have htb : t ≠ b := by
    rintro rfl
    simp [Kernel.Asleep, h] at ht
  refine ⟨htb, (asleep_congr ?_).mp ht⟩
  rw [h, update_of_ne htb]

/-- **A section keeps the property.** -/
theorem effect (h : Wakeful k pending) (hcore : LockCore k.locks pending)
    (he : WaitEffect k pending k' pending') : Wakeful k' pending' := by
  cases he with
  | leave c m hlocked hother hin hpending hstate hmask =>
    have hasleep : ∀ t, k'.Asleep t ↔ k.Asleep t := fun t => asleep_congr (by rw [hstate])
    -- a task still inside has been inside, and is not the caller
    have hstill : ∀ {t m'}, Inside pending' t m' → some t ≠ c ∧ Inside pending t m' := by
      intro t m' ht
      rw [Inside, hpending] at ht
      split_ifs at ht with htc
      · cases ht
      · exact ⟨htc, ht⟩
    refine ⟨fun ht hs => ?_, fun {m' t} hfree ht hs => ?_⟩
    · obtain ⟨htc, ht⟩ := hstill ht
      rw [hmask _ _ htc]
      exact h.marked ht ((hasleep _).mp hs)
    · have hne : m' ≠ m := by
        rintro rfl
        rw [hlocked] at hfree
        cases hfree
      rw [hother m' hne] at hfree
      obtain ⟨r, hr, hready⟩ := h.woken hfree (hstill ht).2 ((hasleep t).mp hs)
      refine ⟨r, ?_, by rw [hstate, hready]⟩
      have hrc : some r ≠ c := fun hrc => hne (hin r m' hrc hr)
      rw [Inside, hpending, if_neg hrc]
      exact hr
  | wait t call htaken hlocked hin hpending hstate hbit hmask =>
    have hself : Inside pending' t call.mutex := by simp [Inside, hpending]
    have hothers : ∀ {u m}, u ≠ t → (Inside pending' u m ↔ Inside pending u m) := by
      intro u m hu
      simp [Inside, hpending, hu]
    refine ⟨fun {u m} hu hs => ?_, fun {m u} hfree hu hs => ?_⟩
    · by_cases hut : u = t
      · subst hut
        rw [← hself.unique hu]
        exact hbit
      · rw [hmask m u hut]
        exact h.marked ((hothers hut).mp hu) ((asleep_congr (hstate u hut)).mp hs)
    · rw [hlocked] at hfree
      have hne : m ≠ call.mutex := by
        rintro rfl
        rw [htaken] at hfree
        cases hfree
      have hut : u ≠ t := by
        rintro rfl
        exact hne (hself.unique hu).symm
      obtain ⟨r, hr, hready⟩ := h.woken hfree ((hothers hut).mp hu)
        ((asleep_congr (hstate u hut)).mp hs)
      have hrt : r ≠ t := by
        rintro rfl
        exact hne (hin m hr)
      exact ⟨r, (hothers hrt).mpr hr, by rw [hstate r hrt, hready]⟩
  | keep hlocked hmask hpending hstate =>
    have hasleep : ∀ t, k'.Asleep t ↔ k.Asleep t := fun t => asleep_congr (by rw [hstate])
    subst hpending
    refine ⟨fun ht hs => ?_, fun hfree ht hs => ?_⟩
    · rw [hmask]
      exact h.marked ht ((hasleep _).mp hs)
    · rw [hlocked] at hfree
      rw [hstate]
      exact h.woken hfree ht ((hasleep _).mp hs)
  | release m hother hpending hwake =>
    subst hpending
    -- a task asleep inside `lock` on `m` is a waiter of its mask
    have hwaiter : ∀ {t}, Inside pending' t m → k.Asleep t →
        k.Waiter (k.mutexes m).waitMask t := fun ht hs =>
      ⟨h.marked ht hs, hs, hcore.waiter ((hcore.waits _).trans ht)⟩
    rcases hwake with ⟨hstate, hnone⟩ | ⟨b, hb, hstate, hkeep⟩
    · have hasleep : ∀ t, k'.Asleep t ↔ k.Asleep t := fun t => asleep_congr (by rw [hstate])
      refine ⟨fun {t m'} ht hs => ?_, fun {m' t} hfree ht hs => ?_⟩
      · by_cases hm : m' = m
        · subst hm
          exact absurd (hwaiter ht ((hasleep t).mp hs)) (hnone t)
        · rw [(hother m' hm).2]
          exact h.marked ht ((hasleep t).mp hs)
      · by_cases hm : m' = m
        · subst hm
          exact absurd (hwaiter ht ((hasleep t).mp hs)) (hnone t)
        · rw [(hother m' hm).1] at hfree
          rw [hstate]
          exact h.woken hfree ht ((hasleep t).mp hs)
    · have hbin : Inside pending' b m := (hcore.waits b).symm.trans (hcore.bit hb.1)
      refine ⟨fun {t m'} ht hs => ?_, fun {m' t} hfree ht hs => ?_⟩
      · obtain ⟨htb, hs⟩ := asleep_of_update hstate hs
        by_cases hm : m' = m
        · subst hm
          exact hkeep t htb (hwaiter ht hs)
        · rw [(hother m' hm).2]
          exact h.marked ht hs
      · by_cases hm : m' = m
        · subst hm
          exact ⟨b, hbin, by rw [hstate, update_self]⟩
        · rw [(hother m' hm).1] at hfree
          obtain ⟨r, hr, hready⟩ := h.woken hfree ht (asleep_of_update hstate hs).2
          have hrb : r ≠ b := by
            rintro rfl
            exact hm (hr.unique hbin)
          exact ⟨r, hr, by rw [hstate, update_of_ne hrb, hready]⟩

/-- What happens meanwhile keeps the property, unless it terminates a task inside `lock`. -/
theorem onlyWakes (h : Wakeful k pending) (hk' : OnlyWakes k k')
    (halive : ∀ t, pending t ≠ none → k'.taskState t ≠ .terminated) : Wakeful k' pending := by
  obtain ⟨c, hc⟩ := hk'.locks
  have hmutexes : k'.mutexes = k.mutexes := congrArg Locks.mutexes hc
  refine ⟨fun ht hs => ?_, fun hfree ht hs => ?_⟩
  · rw [hmutexes]
    exact h.marked ht (hk'.asleep hs)
  · rw [hmutexes] at hfree
    obtain ⟨r, hr, hready⟩ := h.woken hfree ht (hk'.asleep hs)
    have hpending : pending r ≠ none := by
      obtain ⟨call, hcall, -⟩ := map_eq_some_iff.mp hr
      simp [hcall]
    exact ⟨r, hr, hk'.ready hready (halive r hpending)⟩

end Wakeful

/-! ## What the sections do to the tasks that wait -/

namespace LockCore

variable {k k' : Kernel N} {pending : Pending N} {t : Fin N} {m : MutexId} {rounds : Nat}

theorem id_eq (h : LockCore k.locks pending) (ht : (t : Nat) < k.locks.count) :
    (k.sched.tasks t).id = t := h.slots t ht

theorem lockEnter_effect (hN : N ≤ 32) (h : LockCore k.locks pending)
    (ht : (t : Nat) < k.locks.count) (hpending : pending t = none) {call : LockCall}
    {r : LockResult} (hk' : k.lockEnter call.mutex (some t) = (k', r)) :
    WaitEffect k pending k'
      (if r = .waits then update pending t (some call) else pending) := by
  have hnot : ∀ m, ¬ Inside pending t m := fun m ht => by simp [Inside, hpending] at ht
  have hsame : ∀ u, pending u = if some u = some t then none else pending u := by
    intro u
    split_ifs with hu
    · rw [some.inj hu, hpending]
    · rfl
  have hid := h.id_eq ht
  have hwait : ∀ k'' : Kernel N, k''.mutexes = (k.addWaiter call.mutex
      (k.sched.tasks t).id).mutexes → k''.taskState = k.taskState →
      (k.mutexes call.mutex).locked = true →
      WaitEffect k pending k'' (update pending t (some call)) := by
    intro k'' hmutexes hstate hlocked
    rw [hid] at hmutexes
    exact .of_addWaiter hN hlocked (fun m hm => absurd hm (hnot m)) rfl
      (fun u _ => by rw [hstate]) hmutexes
  have hcases := k.lockEnter_cases call.mutex t
  rw [hk'] at hcases
  cases hcases with
  | free =>
    refine .leave (some t) call.mutex ?_ (fun m' hm' => ?_)
      (fun u m' hu hin => absurd (some.inj hu ▸ hin) (hnot m')) hsame
      (taskState_acquire ..) fun m' u _ => ?_
    · simp [mutexes_acquire]
    · simp [mutexes_acquire, hm']
    · rw [mutexes_acquire, update_apply]
      split_ifs with hm
      · rw [hm]
      · rfl
  | own =>
    refine .keep (fun m => ?_) (fun m => ?_) rfl rfl
    all_goals
      rw [relock, mutexes_modifyMutex, update_apply]
      split_ifs with hm
      · rw [hm]
      · rfl
  | deadlock =>
    exact .keep (fun _ => rfl) (fun _ => rfl) rfl rfl
  | wait hlocked => exact hwait _ rfl (by simp [addWaiter]) hlocked
  | boost hlocked =>
    obtain ⟨hmutexes, hstate⟩ := propagateFrom_frame ((k.setWaitingOnMutex t
      (some call.mutex)).addWaiter call.mutex (k.sched.tasks t).id) t t N
    exact hwait _ hmutexes (hstate.trans (by simp [addWaiter])) hlocked

theorem lockRetry_effect (hN : N ≤ 32) (h : LockCore k.locks pending) {call : LockCall}
    (hcall : pending t = some call) {r : LockResult}
    (hk' : k.lockRetry rounds call.mutex t call.timeoutTicks call.startTick = some (k', r)) :
    WaitEffect k pending k' (if r = .waits then pending else update pending t none) := by
  have ht := h.waiter (h.waitingOn_of_pending hcall)
  have hid := h.id_eq ht
  have hin : ∀ m, Inside pending t m → m = call.mutex := fun m hm => by
    simpa [Inside, hcall] using hm.symm
  have hleave : ∀ k'' : Kernel N, k''.taskState = k.taskState →
      (k''.mutexes call.mutex).locked = true →
      (∀ m, m ≠ call.mutex → k''.mutexes m = k.mutexes m) →
      (k''.mutexes call.mutex).waitMask = clearBit (k.mutexes call.mutex).waitMask t →
      WaitEffect k pending k'' (update pending t none) := by
    intro k'' hstate hlocked hother hmask
    refine .leave (some t) call.mutex hlocked (fun m hm => by rw [hother m hm])
      (fun u m hu hm => hin m (some.inj hu ▸ hm)) (fun u => ?_) hstate fun m u hu => ?_
    · rw [update_apply]
      exact if_congr some_inj.symm rfl rfl
    · by_cases hm : m = call.mutex
      · have hne : (u : Nat) ≠ t := fun hut => hu (congrArg some (Fin.ext hut))
        rw [hm, hmask, getLsbD_clearBit _ (by omega)]
        simp [hne]
      · rw [hother m hm]
  have hblock : ∀ (k'' : Kernel N) st,
      k''.mutexes = (k.addWaiter call.mutex (k.sched.tasks t).id).mutexes →
      k''.taskState = k.taskState → (k.mutexes call.mutex).locked = true →
      WaitEffect k pending (k''.setTaskState (k.sched.tasks t).id st) pending := by
    intro k'' st hmutexes hstate hlocked
    rw [hid] at hmutexes ⊢
    refine .of_addWaiter hN hlocked hin (update_eq_self_iff.mpr hcall.symm).symm
      (fun u hu => ?_) hmutexes
    rw [taskState_setTaskState, if_neg fun h => hu (Fin.ext h.1), hstate]
  cases lockRetry_cases hk' with
  | free =>
    refine hleave _ (by simp) ?_ (fun m hm => ?_) ?_
    · simp [mutexes_acquire]
    · simp [mutexes_acquire, mutexes_stopWaiting, hm]
    · simp [mutexes_acquire, mutexes_stopWaiting, hid]
  | own _ howner => exact absurd howner (h.owner_ne_self hcall)
  | timeoutUnowned hlocked =>
    refine hleave _ (by simp) ?_ (fun m hm => ?_) ?_
    · simpa [mutexes_stopWaiting] using hlocked
    · simp [mutexes_stopWaiting, hm]
    · simp [mutexes_stopWaiting, hid]
  | timeout hlocked _ _ hrecalc =>
    obtain ⟨hmutexes, hstate⟩ := recalculateFrom_frame hrecalc
    refine hleave _ (hstate.trans (by simp)) ?_ (fun m hm => ?_) ?_
    · simpa [hmutexes, mutexes_stopWaiting] using hlocked
    · simp [hmutexes, mutexes_stopWaiting, hm]
    · simp [hmutexes, mutexes_stopWaiting, hid]
  | sleep hlocked _ n =>
    exact hblock _ _ rfl (funext fun u => taskState_setSleepTicks ..) hlocked
  | suspend hlocked => exact hblock _ _ rfl rfl hlocked

theorem unlock_effect {current : Option (Fin N)}
    (hk' : k.unlock rounds m current = some k') : WaitEffect k pending k' pending := by
  have hdown : ∀ m', ((k.countDown m).mutexes m').locked = (k.mutexes m').locked ∧
      ((k.countDown m).mutexes m').waitMask = (k.mutexes m').waitMask := by
    intro m'
    rw [countDown, mutexes_modifyMutex, update_apply]
    split_ifs with hm
    · rw [hm]
      exact ⟨rfl, rfl⟩
    · exact ⟨rfl, rfl⟩
  -- a mutex that is given up wakes a waiter
  have hrelease : ∀ k'' : Kernel N, k''.taskState = k.taskState →
      k''.sched.taskCount = k.sched.taskCount →
      (∀ m', m' ≠ m → (k''.mutexes m').locked = (k.mutexes m').locked) →
      (∀ m', (k''.mutexes m').waitMask = (k.mutexes m').waitMask) →
      WaitEffect k pending (k''.wakeHighestWaiter m) pending := by
    intro k'' hstate hcount hlocked hmask
    obtain ⟨w, hmutexes, hwake⟩ := k''.wakeHighestWaiter_spec m
    have hwaiter : ∀ u, k''.Waiter (k''.mutexes m).waitMask u ↔
        k.Waiter (k.mutexes m).waitMask u := by
      intro u
      rw [Kernel.Waiter, Kernel.Waiter, Kernel.Asleep, Kernel.Asleep, hmask, hstate, hcount]
    refine .release m (fun m' hm' => ?_) rfl ?_
    · rw [hmutexes, update_of_ne hm']
      exact ⟨hlocked m' hm', hmask m'⟩
    · simp only [hwaiter, hstate] at hwake
      rw [hmutexes, update_self]
      exact hwake
  cases unlock_cases hk' with
  | ignored => exact .keep (fun _ => rfl) (fun _ => rfl) rfl rfl
  | counted => exact .keep (fun m => (hdown m).1) (fun m => (hdown m).2) rfl rfl
  | releasedUnowned =>
    refine hrelease _ rfl rfl (fun m' hm' => ?_) fun m' => ?_
    · rw [release, mutexes_modifyMutex, update_of_ne hm']
      exact (hdown m').1
    · rw [← (hdown m').2, release, mutexes_modifyMutex, update_apply]
      split_ifs with hm
      · rw [hm]
      · rfl
  | @released _ _ o _ k₁ k₂ hk₁ hk₂ =>
    obtain ⟨⟨next, hlinks⟩, hstate₁, hcount₁⟩ := unlinkHeld_frame hk₁
    obtain ⟨hmutexes, hstate₂⟩ := recalculateFrom_frame hk₂
    obtain ⟨c, hc⟩ := locks_recalculateFrom hk₂
    refine hrelease k₂ (hstate₂.trans hstate₁) ((congrArg Locks.count hc).trans hcount₁)
      (fun m' hm' => ?_) fun m' => ?_
    · rw [hmutexes, release, mutexes_modifyMutex, update_of_ne hm', hlinks]
      exact (hdown m').1
    · rw [hmutexes, ← (hdown m').2, release, mutexes_modifyMutex,
        update_apply, hlinks]
      split_ifs with hm
      · rw [hm]
      · rfl

/-- **Every section** has one of these effects. -/
theorem exec_effect (hN : N ≤ 32) (h : LockCore k.locks pending) {op : MutexOp N}
    (hop : op.Enabled (k, pending)) {s' : Kernel N × Pending N}
    (hs' : op.exec rounds (k, pending) = some s') : WaitEffect k pending s'.1 s'.2 := by
  cases op with
  | lock current call =>
    cases current with
    | none =>
      rw [MutexOp.exec_lock_none hs']
      rcases k.lockEnter_none_cases call.mutex with ⟨hfree, heq⟩ | ⟨-, heq⟩
      · rw [heq]
        refine .leave none call.mutex ?_ (fun m' hm' => ?_) (by simp) (by simp) rfl
          fun m' u _ => ?_
        · simp [mutexes_modifyMutex]
        · simp [mutexes_modifyMutex, hm']
        · rw [mutexes_modifyMutex, update_apply]
          split_ifs with hm
          · rw [hm]
          · rfl
      · rw [heq]
        exact .keep (fun _ => rfl) (fun _ => rfl) rfl rfl
    | some t =>
      obtain ⟨hlt, hpending⟩ := hop t rfl
      rw [MutexOp.exec_lock_some hs']
      exact h.lockEnter_effect hN hlt hpending rfl
  | retry t =>
    obtain ⟨call, k', r, hcall, hk', rfl⟩ := MutexOp.exec_retry hs'
    exact h.lockRetry_effect hN hcall hk'
  | unlock =>
    obtain ⟨k', hk', rfl⟩ := MutexOp.exec_unlock hs'
    exact unlock_effect hk'

end LockCore

end AuroraOS
