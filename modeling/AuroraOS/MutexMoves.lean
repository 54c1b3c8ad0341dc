import AuroraOS.MutexEffects

/-!
# What the sections of a mutex consist of

Each section of `lock` and `unlock` is a sequence of a few kinds of changes. What these keep, the
sections keep.
-/

namespace AuroraOS

open Bitmap Relation Scheduler

variable {N : Nat}

namespace Kernel

/-- One of the changes that a section consists of when `caller` runs it. Only the caller starts or
stops waiting and is put to sleep, and only a task of a mask is woken. -/
inductive LockMove (caller : Option (Fin N)) (k : Kernel N) : Kernel N → Prop
  | priority (id p : Nat) : LockMove caller k (k.setTaskPriority id p)
  | errno (t : Fin N) (e : Nat) : LockMove caller k (k.setErrno t e)
  | held (t : Fin N) (o : Option MutexId) : LockMove caller k (k.setHeldMutexes t o)
  | mutex (m : MutexId) {f : Mutex N → Mutex N} (hf : ∀ c, (f c).waitMask = c.waitMask) :
      LockMove caller k (k.modifyMutex m f)
  | waiting {t : Fin N} (ht : caller = some t) (o : Option MutexId) :
      LockMove caller k (k.setWaitingOnMutex t o)
  | enlist {t : Fin N} (ht : caller = some t) (m : MutexId) :
      LockMove caller k (k.addWaiter m (k.sched.tasks t).id)
  | delist (m : MutexId) {w : BitVec 32}
      (hw : ∀ j, w.getLsbD j = true → (k.mutexes m).waitMask.getLsbD j = true) :
      LockMove caller k (k.modifyMutex m fun c => { c with waitMask := w })
  | ticks {t : Fin N} (ht : caller = some t) (n : Nat) : LockMove caller k (k.setSleepTicks t n)
  | park {t : Fin N} (ht : caller = some t) {st : TaskState}
      (hst : st = .sleeping ∨ st = .suspended) :
      LockMove caller k (k.setTaskState (k.sched.tasks t).id st)
  | wake (m : MutexId) {b : Fin N} (hb : k.Waiter (k.mutexes m).waitMask b) :
      LockMove caller k ((k.dropWaiter m b).setTaskState b .ready)

theorem LockMove.taskCount_eq {caller : Option (Fin N)} {k k' : Kernel N}
    (h : LockMove caller k k') : k'.sched.taskCount = k.sched.taskCount := by
  cases h with
  | priority => exact taskCount_setTaskPriority ..
  | park | wake => exact taskCount_setTaskState ..
  | _ => rfl

/-- A sequence of such changes. -/
def LockMoves (caller : Option (Fin N)) : Kernel N → Kernel N → Prop :=
  ReflTransGen (LockMove caller)

namespace LockMoves

variable {caller : Option (Fin N)} {k k' k'' : Kernel N} {m : MutexId} {t : Fin N} {rounds : Nat}

theorem refl (k : Kernel N) : LockMoves caller k k := ReflTransGen.refl

theorem tail (h : LockMoves caller k k') (hmove : LockMove caller k' k'') :
    LockMoves caller k k'' :=
  ReflTransGen.tail h hmove

theorem trans (h : LockMoves caller k k') (h' : LockMoves caller k' k'') :
    LockMoves caller k k'' :=
  ReflTransGen.trans h h'

theorem single (hmove : LockMove caller k k') : LockMoves caller k k' := (refl k).tail hmove

theorem invariant {P : Kernel N → Prop} (hmove : ∀ k k', LockMove caller k k' → P k → P k')
    (h : LockMoves caller k k') (hk : P k) : P k' := by
  induction h with
  | refl => exact hk
  | tail _ hlast ih => exact hmove _ _ hlast ih

/-! ## Pieces -/

theorem acquire (h : LockMoves caller k k') (m : MutexId) (t : Fin N) :
    LockMoves caller k (k'.acquire m t) := by
  have htaken := (h.tail (.mutex m (f := fun c =>
    { c with
      locked := true
      owner := some t
      recursiveCount := 1
      nextHeld := (k'.sched.tasks t).heldMutexes }) fun _ => rfl)).tail (.held t (some m))
  unfold Kernel.acquire
  dsimp only
  split_ifs
  · exact htaken.tail (.priority ..)
  · exact htaken

theorem stopWaiting (h : LockMoves (some t) k k') (m : MutexId) :
    LockMoves (some t) k (k'.stopWaiting m t) :=
  (h.tail (.delist m fun _ hj => getLsbD_of_clearBit hj)).tail (.waiting rfl none)

theorem relock (h : LockMoves caller k k') (m : MutexId) : LockMoves caller k (k'.relock m) :=
  h.tail (.mutex m fun _ => rfl)

theorem release (h : LockMoves caller k k') (m : MutexId) : LockMoves caller k (k'.release m) :=
  h.tail (.mutex m fun _ => rfl)

theorem propagateFrom (k : Kernel N) (start x : Fin N) (steps : Nat) :
    LockMoves caller k (Kernel.propagateFrom start steps x k) :=
  propagateFrom_invariant (fun _ id p h => h.tail (.priority id p)) start x steps (refl k)

theorem recalculateFrom {steps : Nat}
    (h : Kernel.recalculateFrom rounds steps t k = some k') : LockMoves caller k k' :=
  recalculateFrom_invariant (fun _ id p h => h.tail (.priority id p)) h (refl k)

theorem unlinkHeld (h : k.unlinkHeld rounds t m = some k') :
    LockMoves caller k k' := by
  unfold Kernel.unlinkHeld at h
  split at h
  · cases h
    exact refl k
  · split_ifs at h
    · cases h
      exact single (.held ..)
    · obtain ⟨c, -, h⟩ := Option.bind_eq_some_iff.mp h
      split_ifs at h
      · cases h
        exact single (.mutex c fun _ => rfl)
      · cases h
        exact refl k

theorem wakeHighestWaiter (k : Kernel N) (m : MutexId) :
    LockMoves caller k (k.wakeHighestWaiter m) := by
  unfold Kernel.wakeHighestWaiter
  split_ifs
  · exact refl k
  · have hstart : WakeLoop k (k.mutexes m).waitMask ((k.mutexes m).waitMask, none) :=
      ⟨fun u hu => hu.1, fun _ hj => hj, by simp⟩
    have hloop := (hstart.rounds (List.finRange N)).1
    generalize (List.finRange N).foldl k.wakeRound ((k.mutexes m).waitMask, none) = s at hloop
    have hclean : LockMoves caller k (k.modifyMutex m fun c => { c with waitMask := s.1 }) :=
      single (.delist m hloop.sub)
    dsimp only
    split
    · exact hclean
    · next b p hsome =>
      have hb := hloop.best b p hsome
      refine hclean.tail (.wake m ⟨?_, hb.2⟩)
      simpa [mutexes_modifyMutex] using hloop.keeps b hb

/-! ## Sections -/

theorem lockEnter (k : Kernel N) (m : MutexId) (current : Option (Fin N)) :
    LockMoves current k (k.lockEnter m current).1 := by
  cases current with
  | none =>
    rcases k.lockEnter_none_cases m with ⟨-, heq⟩ | ⟨-, heq⟩
    · rw [heq]
      dsimp only
      refine single (.mutex m ?_)
      exact fun _ => rfl
    · rw [heq]
      exact refl k
  | some t =>
    have hwait : LockMoves (some t) k
        ((k.setWaitingOnMutex t (some m)).addWaiter m (k.sched.tasks t).id) := by
      have hid : ((k.setWaitingOnMutex t (some m)).sched.tasks t).id = (k.sched.tasks t).id := by
        simp [setWaitingOnMutex, tasks_modify]
      rw [← hid]
      exact (single (.waiting rfl (some m))).tail (.enlist rfl m)
    have hcases := k.lockEnter_cases m t
    generalize k.lockEnter m (some t) = r at hcases ⊢
    cases hcases with
    | free => exact (refl k).acquire m t
    | own => exact (refl k).relock m
    | deadlock => exact single (.errno ..)
    | wait => exact hwait
    | boost => exact hwait.trans (propagateFrom ..)

theorem lockRetry {timeout start : Nat} {r : Kernel N × LockResult}
    (h : k.lockRetry rounds m t timeout start = some r) : LockMoves (some t) k r.1 := by
  have hstop := (refl k).stopWaiting (t := t) m
  have hlist : LockMoves (some t) k (k.addWaiter m (k.sched.tasks t).id) := single (.enlist rfl m)
  cases lockRetry_cases h with
  | free => exact hstop.acquire m t
  | own => exact hstop.relock m
  | timeoutUnowned => exact hstop
  | timeout _ _ _ hrecalc => exact hstop.trans (recalculateFrom hrecalc)
  | sleep _ _ n =>
    have hid : (((k.addWaiter m (k.sched.tasks t).id).setSleepTicks t n).sched.tasks t).id =
        (k.sched.tasks t).id := by
      simp [addWaiter, modifyMutex, setSleepTicks, Scheduler.setSleepTicks, Scheduler.tasks_modify]
    have hpark := (hlist.tail (.ticks rfl n)).tail (.park rfl (.inl rfl))
    rwa [hid] at hpark
  | suspend => exact hlist.tail (.park rfl (.inr rfl))

theorem unlock {current : Option (Fin N)} (h : k.unlock rounds m current = some k') :
    LockMoves current k k' := by
  have hcount : LockMoves current k (k.countDown m) := single (.mutex m fun _ => rfl)
  cases unlock_cases h with
  | ignored => exact refl k
  | counted => exact hcount
  | releasedUnowned => exact (hcount.release m).trans (wakeHighestWaiter ..)
  | released _ _ _ hk₁ hk₂ =>
    have hfree := (hcount.trans (unlinkHeld hk₁)).release m
    exact (hfree.trans (recalculateFrom hk₂)).trans (wakeHighestWaiter ..)

end LockMoves

end Kernel

end AuroraOS
