import AuroraOS.Parked

/-!
# Tasks that nothing can wake

A task comes back to life through a link that leads to it: the head of a wait queue, another task's
`blocked_next`, or its own `ipc.state` and `waiting_endpoint`. `Detached k t` says that there is no
such link to `t`. Endpoints, ticks, signals and notifications spare a set of tasks that are detached
and neither sleep nor wait for a notification (`Spares`), whatever shape the queues are in. As long
as every terminated task is detached, they therefore change only tasks that have not terminated.
-/

namespace AuroraOS

open Option WaitQueue Scheduler Kernel

variable {N : Nat}

/-! ## Links of a queue -/

namespace WaitQueue

variable {q q' : WaitQueue N} {next next' : Blocked N} {t x : Fin N}

/-- `t` is the head of the queue or the successor of some task. -/
def PointsTo (q : WaitQueue N) (next : Blocked N) (t : Fin N) : Prop :=
  q.head = some t ∨ ∃ i, next i = some t

theorem exists_update_eq {a : Fin N} {v : Option (Fin N)}
    (h : ∃ i, Function.update next a v i = some t) : v = some t ∨ ∃ i, next i = some t := by
  obtain ⟨i, hi⟩ := h
  rw [Function.update_apply] at hi
  split_ifs at hi
  · exact .inl hi
  · exact .inr ⟨i, hi⟩

theorem pointsTo_of_enqueue {prio : Fin N → Nat} (h : enqueue prio next q x = some (next', q'))
    (ht : q'.PointsTo next' t) : t = x ∨ q.PointsTo next t := by
  have hfresh : ∀ i, Function.update next x none i = some t → ∃ i, next i = some t := fun i hi =>
    (exists_update_eq ⟨i, hi⟩).resolve_left (by simp)
  unfold enqueue at h
  cases hq : q.head with
  | none =>
    rw [hq] at h
    cases h
    rcases ht with ht | ⟨i, hi⟩
    · exact .inl (some.inj ht).symm
    · exact .inr (.inr (hfresh i hi))
  | some head =>
    rw [hq] at h
    dsimp only at h
    split_ifs at h
    · cases h
      rcases ht with ht | hi
      · exact .inl (some.inj ht).symm
      · rcases exists_update_eq hi with hi | ⟨i, hi⟩
        · exact .inr (.inl (hq.trans hi))
        · exact .inr (.inr (hfresh i hi))
    · simp only [bind_eq_bind, bind_eq_some_iff] at h
      obtain ⟨curr, -, h⟩ := h
      cases h
      rcases ht with ht | hi
      · exact .inr (.inl (hq.trans ht))
      · rcases exists_update_eq hi with hi | hi
        · exact .inl (some.inj hi).symm
        · rcases exists_update_eq hi with hi | ⟨i, hi⟩
          · exact .inr (.inr (hfresh curr hi))
          · exact .inr (.inr (hfresh i hi))

theorem pointsTo_of_dequeue (ht : (dequeue next q).2.1.PointsTo (dequeue next q).1 t) :
    q.PointsTo next t := by
  unfold dequeue at ht
  cases hq : q.head with
  | none =>
    simp only [hq] at ht
    exact ht
  | some head =>
    simp only [hq] at ht
    rcases ht with ht | hi
    · exact .inr ⟨head, ht⟩
    · exact .inr ((exists_update_eq hi).resolve_left (by simp))

theorem pointsTo_of_unlinkAfter {prev curr : Fin N}
    (ht : (unlinkAfter next q prev curr).2.PointsTo (unlinkAfter next q prev curr).1 t) :
    q.PointsTo next t := by
  rcases ht with ht | hi
  · exact .inl ht
  · rcases exists_update_eq ((exists_update_eq hi).resolve_left (by simp)) with hi | hi
    · exact .inr ⟨curr, hi⟩
    · exact .inr hi

theorem pointsTo_of_dequeueMatching {p : Fin N → Bool} {y : Option (Fin N)}
    (h : dequeueMatching p next q = some (next', q', y)) :
    (q'.PointsTo next' t → q.PointsTo next t) ∧ (y = some t → q.PointsTo next t) := by
  unfold dequeueMatching at h
  cases hq : q.head with
  | none =>
    rw [hq] at h
    cases h
    exact ⟨id, by simp⟩
  | some head =>
    rw [hq] at h
    dsimp only at h
    split_ifs at h
    · have hdeq : dequeue next q = (next', q', y) := some.inj h
      refine ⟨fun ht => pointsTo_of_dequeue (by rwa [hdeq]), fun hy => .inl ?_⟩
      simp only [dequeue, hq, Prod.mk.injEq] at hdeq
      rw [hq, ← hy, hdeq.2.2]
    · simp only [bind_eq_bind, bind_eq_some_iff] at h
      obtain ⟨prev, -, h⟩ := h
      cases hprev : next prev with
      | none =>
        rw [hprev] at h
        cases h
        exact ⟨id, by simp⟩
      | some curr =>
        rw [hprev] at h
        cases h
        exact ⟨pointsTo_of_unlinkAfter, fun hy => .inr ⟨prev, hprev.trans hy⟩⟩

theorem pointsTo_of_remove {b : Bool} (h : remove next q x = some (next', q', b))
    (ht : q'.PointsTo next' t) : q.PointsTo next t := by
  unfold remove at h
  cases hq : q.head with
  | none =>
    rw [hq] at h
    cases h
    exact ht
  | some head =>
    rw [hq] at h
    dsimp only at h
    split_ifs at h
    · cases h
      exact pointsTo_of_dequeue ht
    · simp only [bind_eq_bind, bind_eq_some_iff] at h
      obtain ⟨curr, -, h⟩ := h
      split_ifs at h
      · cases h
        exact pointsTo_of_unlinkAfter ht
      · cases h
        exact ht

end WaitQueue

/-! ## Links in the kernel -/

namespace Kernel

variable {k k' : Kernel N} {e : EndpointId} {side : Side} {t x : Fin N} {y : Option (Fin N)}

/-- `t` is the head of a queue or the successor of some task. -/
def Pointed (k : Kernel N) (t : Fin N) : Prop :=
  (∃ e side, (k.queue e side).head = some t) ∨ ∃ i, (k.ipc i).blockedNext = some t

/-- No link leads to `t`, and its own context says that it waits for nothing. -/
structure Detached (k : Kernel N) (t : Fin N) : Prop where
  state : (k.ipc t).state = .ready
  waiting : (k.ipc t).waitingEndpoint = none
  pointed : ¬ k.Pointed t

theorem pointed_of_pointsTo (h : (k.queue e side).PointsTo k.blocked t) : k.Pointed t :=
  h.imp (fun h => ⟨e, side, h⟩) id

theorem pointed_setQueue {next : Blocked N} {q : WaitQueue N}
    (h : (k.setQueue e side next q).Pointed t) : q.PointsTo next t ∨ k.Pointed t := by
  rcases h with ⟨e', side', h⟩ | h
  · rw [queue_setQueue] at h
    split_ifs at h
    · exact .inl (.inl h)
    · exact .inr (.inl ⟨e', side', h⟩)
  · exact .inl (.inr h)

theorem pointed_of_enqueue (h : k.enqueue e side x = some k') (ht : k'.Pointed t) :
    t = x ∨ k.Pointed t := by
  simp only [enqueue, bind_eq_bind, bind_eq_some_iff] at h
  obtain ⟨⟨next, q⟩, hq, h⟩ := h
  cases h
  rcases pointed_setQueue ht with ht | ht
  · exact (pointsTo_of_enqueue hq ht).imp_right pointed_of_pointsTo
  · exact .inr ht

theorem pointed_of_remove (h : k.remove e side x = some k') (ht : k'.Pointed t) :
    k.Pointed t := by
  simp only [remove, bind_eq_bind, bind_eq_some_iff] at h
  obtain ⟨⟨next, q, b⟩, hq, h⟩ := h
  cases h
  rcases pointed_setQueue ht with ht | ht
  · exact pointed_of_pointsTo (pointsTo_of_remove hq ht)
  · exact ht

theorem pointed_of_dequeue (ht : (k.dequeue e side).1.Pointed t) : k.Pointed t := by
  rcases pointed_setQueue ht with ht | ht
  · exact pointed_of_pointsTo (pointsTo_of_dequeue ht)
  · exact ht

theorem pointed_of_dequeued (h : (k.dequeue e side).2 = some t) : k.Pointed t := by
  refine .inl ⟨e, side, ?_⟩
  unfold dequeue WaitQueue.dequeue at h
  cases hq : (k.queue e side).head with
  | none => simp [hq] at h
  | some head => simpa [hq] using h

theorem pointed_of_dequeueMatching {p : Fin N → Bool} {next : Blocked N} {q : WaitQueue N}
    (h : dequeueMatching p k.blocked (k.queue e side) = some (next, q, y)) :
    ((k.setQueue e side next q).Pointed t → k.Pointed t) ∧ (y = some t → k.Pointed t) := by
  obtain ⟨hpoint, htaken⟩ := pointsTo_of_dequeueMatching h
  exact ⟨fun ht => (pointed_setQueue ht).elim (fun ht => pointed_of_pointsTo (hpoint ht)) id,
    fun hy => pointed_of_pointsTo (htaken hy)⟩

theorem pointed_of_dequeueMatchingReceiver {label : Nat}
    (h : k.dequeueMatchingReceiver e label = some (k', y)) :
    (k'.Pointed t → k.Pointed t) ∧ (y = some t → k.Pointed t) := by
  simp only [dequeueMatchingReceiver, bind_eq_bind, bind_eq_some_iff] at h
  obtain ⟨⟨next, q, z⟩, hq, h⟩ := h
  cases h
  exact pointed_of_dequeueMatching hq

theorem pointed_of_dequeueMatchingSender {filter : Nat}
    (h : k.dequeueMatchingSender e filter = some (k', y)) :
    (k'.Pointed t → k.Pointed t) ∧ (y = some t → k.Pointed t) := by
  simp only [dequeueMatchingSender, bind_eq_bind, bind_eq_some_iff] at h
  obtain ⟨⟨next, q, z⟩, hq, h⟩ := h
  cases h
  exact pointed_of_dequeueMatching hq

theorem pointed_modifyIpc {f : IpcContext N → IpcContext N}
    (hf : (f (k.ipc x)).blockedNext = (k.ipc x).blockedNext ∨ (f (k.ipc x)).blockedNext = none)
    (h : (k.modifyIpc x f).Pointed t) : k.Pointed t := by
  rcases h with h | ⟨i, h⟩
  · exact .inl h
  · rw [ipc_modifyIpc] at h
    split_ifs at h
    · rcases hf with hf | hf
      · exact .inr ⟨x, hf.symm.trans h⟩
      · cases hf.symm.trans h
    · exact .inr ⟨i, h⟩

theorem taskState_createAt (hx : x ≠ t) {stack : Bool} {prio : Nat} :
    (k.createAt t stack prio).taskState x = k.taskState x := by
  have hother := (createAt_fields k.sched t prio).2.1 x hx
  have hstate := congrArg SchedulerContext.state hother
  exact hstate

theorem taskState_freeTask :
    (k.freeTask (some t)).taskState x = if x = t then .unallocated else k.taskState x := by
  have hstate := congrArg SchedulerContext.state (unlinked_freeTask k.sched t x)
  split_ifs at hstate ⊢ <;> exact hstate

end Kernel

variable {k : Kernel N}

/-! ## The invariant -/

/-- Nothing leads to the tasks of `Q`: they are detached, and neither asleep nor waiting for a
notification. The links lead to slots that have been in use. -/
structure OutOfReach (Q : Fin N → Prop) (k : Kernel N) : Prop where
  table : Table k.sched
  bounded : ∀ t, k.Pointed t → (t : Nat) < k.sched.taskCount
  detached : ∀ t, Q t → k.Detached t
  calm : ∀ t, Q t → k.taskState t ≠ .sleeping ∧ k.taskState t ≠ .blockedOnNotify

/-- `k'` comes from `k` by steps that leave the tasks of `Q` alone and terminate no task. -/
structure Spares (Q : Fin N → Prop) (k k' : Kernel N) : Prop where
  out : OutOfReach Q k'
  count : k'.sched.taskCount = k.sched.taskCount
  state : ∀ t, k'.taskState t = k.taskState t ∨ ¬ Q t ∧ k'.taskState t ≠ .terminated

/-- Every terminated task is detached, and the links lead to slots that have been in use. -/
structure Sound (k : Kernel N) : Prop where
  table : Table k.sched
  bounded : ∀ t, k.Pointed t → (t : Nat) < k.sched.taskCount
  detached : ∀ t, k.taskState t = .terminated → k.Detached t

/-- `k'` comes from the sound state `k` by steps that terminate no task and revive none. -/
structure Advances (k k' : Kernel N) : Prop where
  sound : Sound k'
  count : k'.sched.taskCount = k.sched.taskCount
  terminated : ∀ t, k'.taskState t = .terminated ↔ k.taskState t = .terminated

theorem Sound.outOfReach (h : Sound k) :
    OutOfReach (fun t => k.taskState t = .terminated) k where
  table := h.table
  bounded := h.bounded
  detached := h.detached
  calm t ht := by
    rw [ht]
    decide

/-- Terminated tasks are left alone. -/
theorem Spares.advances {k' : Kernel N} (h : Spares (fun t => k.taskState t = .terminated) k k') :
    Advances k k' := by
  have hterm : ∀ t, k'.taskState t = .terminated ↔ k.taskState t = .terminated := by
    intro t
    rcases h.state t with hs | ⟨hq, hs⟩
    · rw [hs]
    · exact iff_of_false hs hq
  exact ⟨⟨h.out.table, h.out.bounded, fun t ht => h.out.detached t ((hterm t).mp ht)⟩,
    h.count, hterm⟩

theorem Sound.of_ready {x : Fin N} (h : Sound k) (hx : k.sched.IsReady x) :
    (x : Nat) < k.sched.taskCount ∧ k.taskState x ≠ .terminated := by
  have hstate : k.taskState x = .ready := hx
  refine ⟨h.table.lt_of_state fun hu => ?_, by rw [hstate]; decide⟩
  cases hstate.symm.trans hu

namespace OutOfReach

variable {Q : Fin N → Prop} {k k' : Kernel N} {t x : Fin N}

variable (h : OutOfReach Q k)

include h

theorem of_pointed (hx : k.Pointed x) : (x : Nat) < k.sched.taskCount ∧ ¬ Q x :=
  ⟨h.bounded x hx, fun hq => (h.detached x hq).pointed hx⟩

theorem of_wait (hx : (k.ipc x).state ≠ .ready) : ¬ Q x :=
  fun hq => hx (h.detached x hq).state

/-- The rule for a step: the tasks of `Q` keep their contexts, and new links lead to other tasks. -/
theorem spares (htable : Table k'.sched) (hcount : k'.sched.taskCount = k.sched.taskCount)
    (hstate : ∀ t, k'.taskState t = k.taskState t ∨ ¬ Q t ∧ k'.taskState t ≠ .terminated)
    (hipc : ∀ t, Q t → (k'.ipc t).state = (k.ipc t).state ∧
      (k'.ipc t).waitingEndpoint = (k.ipc t).waitingEndpoint)
    (hpoint : ∀ t, k'.Pointed t → k.Pointed t ∨ (t : Nat) < k.sched.taskCount ∧ ¬ Q t) :
    Spares Q k k' where
  count := hcount
  state := hstate
  out :=
    { table := htable
      bounded := fun t ht => by
        rw [hcount]
        exact (hpoint t ht).elim (h.bounded t) And.left
      detached := fun t ht =>
        { state := (hipc t ht).1.trans (h.detached t ht).state
          waiting := (hipc t ht).2.trans (h.detached t ht).waiting
          pointed := fun hp => (hpoint t hp).elim (h.detached t ht).pointed fun hnew => hnew.2 ht }
      calm := fun t ht => by
        rw [(hstate t).resolve_right fun hs => hs.1 ht]
        exact h.calm t ht }

/-- The rule for what touches no link: the tasks of `Q` keep their contexts, and are calm. -/
theorem of_pointed_imp (htable : Table k'.sched) (hcount : k.sched.taskCount ≤ k'.sched.taskCount)
    (hipc : ∀ t, Q t → k'.ipc t = k.ipc t) (hpoint : ∀ t, k'.Pointed t → k.Pointed t)
    (hcalm : ∀ t, Q t → k'.taskState t ≠ .sleeping ∧ k'.taskState t ≠ .blockedOnNotify) :
    OutOfReach Q k' where
  table := htable
  bounded t ht := (h.bounded t (hpoint t ht)).trans_le hcount
  detached t ht :=
    { state := by rw [hipc t ht, (h.detached t ht).state]
      waiting := by rw [hipc t ht, (h.detached t ht).waiting]
      pointed := fun hp => (h.detached t ht).pointed (hpoint t hp) }
  calm := hcalm

theorem createAt (hfree : k.sched.freeSlot = some t) (ht : ¬ Q t) (stack : Bool) (prio : Nat) :
    OutOfReach Q (k.createAt t stack prio) := by
  have hcount := (createAt_fields k.sched t prio).1
  have hipc : ∀ x, x ≠ t → (k.createAt t stack prio).ipc x = k.ipc x := fun x hx =>
    Function.update_of_ne hx _ _
  have hne : ∀ x, Q x → x ≠ t := fun x hx hxt => ht (hxt ▸ hx)
  refine h.of_pointed_imp (h.table.createAt hfree prio) ?_ (fun x hx => hipc x (hne x hx))
    (fun x hx => ?_) fun x hx => ?_
  · rw [show (k.createAt t stack prio).sched.taskCount = _ from hcount]
    split_ifs <;> omega
  · rcases hx with hx | ⟨i, hx⟩
    · exact .inl hx
    · by_cases hi : i = t
      · simp [hi, Kernel.createAt, IpcContext.zero] at hx
      · exact .inr ⟨i, hipc i hi ▸ hx⟩
  · rw [taskState_createAt (hne x hx)]
    exact h.calm x hx

theorem freeTask (t : Fin N) : OutOfReach Q (k.freeTask (some t)) := by
  refine h.of_pointed_imp (h.table.freeTask t) (taskCount_freeTask k.sched t).ge
    (fun _ _ => rfl) (fun _ hx => hx) fun x hx => ?_
  rw [taskState_freeTask]
  split_ifs
  · exact ⟨by decide, by decide⟩
  · exact h.calm x hx

end OutOfReach

/-! ## Steps -/

namespace Spares

variable {Q : Fin N → Prop} {k k' k'' : Kernel N} {t x : Fin N}

variable {e : EndpointId} {side : Side} {timeout : Nat} {st reason : IpcStatus}

theorem refl (h : OutOfReach Q k) : Spares Q k k := ⟨h, rfl, fun _ => .inl rfl⟩

section

variable (h : Spares Q k k')

include h

theorem trans (h' : Spares Q k' k'') : Spares Q k k'' := by
  refine ⟨h'.out, h'.count.trans h.count, fun t => ?_⟩
  rcases h'.state t with hs | hs
  · rw [hs]
    exact h.state t
  · exact .inr hs

theorem congr (htable : Table k''.sched) (hcount : k''.sched.taskCount = k'.sched.taskCount)
    (hstate : ∀ t, k''.taskState t = k'.taskState t) (hipc : k''.ipc = k'.ipc)
    (hends : k''.endpoints = k'.endpoints) : Spares Q k k'' := by
  refine h.trans (h.out.spares htable hcount (fun t => .inl (hstate t)) (fun t _ => ?_)
    fun t ht => .inl ?_)
  · rw [hipc]
    exact ⟨rfl, rfl⟩
  · simpa only [Kernel.Pointed, queue, hipc, hends] using ht

theorem setTaskPriority (id p : Nat) : Spares Q k (k'.setTaskPriority id p) :=
  h.congr (h.out.table.setTaskPriority id p) (taskCount_setTaskPriority ..)
    (fun t => taskState_setTaskPriority k' id p t) rfl rfl

theorem setSleepTicks (i : Fin N) (n : Nat) : Spares Q k (k'.setSleepTicks i n) :=
  h.congr (h.out.table.setSleepTicks i n) rfl (fun t => taskState_setSleepTicks k' i n t)
    rfl rfl

theorem modifySecurity (i : Fin N) (f : SecurityContext → SecurityContext) :
    Spares Q k (k'.modifySecurity i f) :=
  h.congr h.out.table rfl (fun _ => rfl) rfl rfl

theorem copyMessage (dst src : Option Buffer) (n : Nat) :
    Spares Q k (k'.copyMessage dst src n).1 := by
  have hsched := (k'.frame_copyMessage dst src n).2.2
  refine h.congr (hsched ▸ h.out.table) (congrArg _ hsched) (fun t => ?_) (by simp) (by simp)
  rw [taskState, hsched]
  rfl

/-- A task outside `Q` changes its context, but for its link. -/
theorem modifyIpc {f : IpcContext N → IpcContext N}
    (hx : ¬ Q x ∨ ((f (k'.ipc x)).state = (k'.ipc x).state ∧
      (f (k'.ipc x)).waitingEndpoint = (k'.ipc x).waitingEndpoint))
    (hf : (f (k'.ipc x)).blockedNext = (k'.ipc x).blockedNext ∨
      (f (k'.ipc x)).blockedNext = none) : Spares Q k (k'.modifyIpc x f) := by
  refine h.trans (h.out.spares h.out.table rfl (fun _ => .inl rfl) (fun t ht => ?_)
    fun t ht => .inl (pointed_modifyIpc hf ht))
  rw [ipc_modifyIpc]
  split_ifs with htx
  · subst htx
    rcases hx with hx | hx
    · exact absurd ht hx
    · exact hx
  · exact ⟨rfl, rfl⟩

theorem setTaskState {id : Nat} {st : TaskState} (hid : ∀ x : Fin N, (x : Nat) = id → ¬ Q x)
    (hst : st ≠ .terminated) : Spares Q k (k'.setTaskState id st) := by
  refine h.trans (h.out.spares (h.out.table.setTaskState id st)
    (taskCount_setTaskState ..) (fun t => ?_) (fun _ _ => ⟨rfl, rfl⟩) fun _ ht => .inl ht)
  rw [taskState_setTaskState]
  split_ifs with ht
  · exact .inr ⟨hid t ht.1, hst⟩
  · exact .inl rfl

theorem setState {st : TaskState} (hx : (x : Nat) < k.sched.taskCount) (hother : ¬ Q x)
    (hst : st ≠ .terminated) : Spares Q k (k'.setTaskState (k'.sched.tasks x).id st) := by
  rw [h.out.table.id x (h.count ▸ hx)]
  exact h.setTaskState (fun y hy => by rwa [Fin.ext hy]) hst

theorem setQueue {next : Blocked N} {q : WaitQueue N}
    (hpoint : ∀ t, (k'.setQueue e side next q).Pointed t → k'.Pointed t) :
    Spares Q k (k'.setQueue e side next q) :=
  h.trans (h.out.spares h.out.table rfl (fun _ => .inl rfl) (fun _ _ => ⟨rfl, rfl⟩)
    fun t ht => .inl (hpoint t ht))

theorem inherit (r y : Fin N) : Spares Q k (k'.inherit r y) := by
  unfold Kernel.inherit
  split_ifs
  · exact h.setTaskPriority _ _
  · exact h

theorem recalculateById (id : Nat) : Spares Q k (k'.recalculateById id) := by
  unfold Kernel.recalculateById
  split
  · exact h
  · exact h.setTaskPriority _ _

/-! ## Operations on endpoints -/

theorem deliver {r : Fin N} (hr : ¬ Q r) (y : Fin N) (msg : Option Buffer) (len badge : Nat) :
    Spares Q k (k'.deliver r y msg len badge) := by
  unfold Kernel.deliver
  refine modifyIpc (setSleepTicks (modifyIpc (h.copyMessage _ _ _) (.inl hr) ?_) r 0) ?_ ?_
  · exact .inl rfl
  · exact .inr ⟨rfl, rfl⟩
  · exact .inl rfl

theorem refuse (ht : ¬ Q t) : Spares Q k (k'.refuse t) :=
  (h.modifyIpc (.inl ht) (.inl rfl)).setSleepTicks t 0

theorem await (hlt : (t : Nat) < k.sched.taskCount) (ht : ¬ Q t)
    {note : IpcContext N → IpcContext N} (hnote : ∀ c, (note c).blockedNext = c.blockedNext)
    (hk'' : k'.await e side t timeout note = some (k'', st)) : Spares Q k k'' := by
  unfold Kernel.await at hk''
  split_ifs at hk''
  · cases hk''
    exact h.refuse ht
  · simp only [bind_eq_bind, bind_eq_some_iff] at hk''
    obtain ⟨k₁, henq, hk''⟩ := hk''
    cases hk''
    have hbegin : Spares Q k (k'.beginWait e side t timeout note) := by
      refine setSleepTicks (h.modifyIpc (.inl ht) ?_) t _
      exact .inl (hnote _)
    have henter : Spares Q (k'.beginWait e side t timeout note) k₁ := by
      have hpoint := fun y => pointed_of_enqueue (t := y) henq
      obtain ⟨next, q, rfl⟩ := enqueue_cases henq
      refine hbegin.out.spares hbegin.out.table rfl (fun _ => .inl rfl)
        (fun _ _ => ⟨rfl, rfl⟩) fun y hy => ?_
      rcases hpoint y hy with rfl | hy
      · exact .inr ⟨hbegin.count ▸ hlt, ht⟩
      · exact .inl hy
    exact (hbegin.trans henter).setState hlt ht (by decide)

theorem callReceiver {r : Fin N} (hlt : (t : Nat) < k.sched.taskCount) (ht : ¬ Q t)
    (hltr : (r : Nat) < k.sched.taskCount) (hr : ¬ Q r) (e : EndpointId) (msg : Option Buffer)
    (len timeout badge : Nat) : Spares Q k (k'.callReceiver e t r msg len timeout badge) := by
  have hdel := h.deliver hr t msg len badge
  unfold Kernel.callReceiver
  split_ifs
  · refine (setSleepTicks (hdel.modifyIpc (.inl ht) ?_) t 0).setState hltr hr (by decide)
    exact .inl rfl
  · refine ((setState (setSleepTicks (hdel.modifyIpc (.inl ht) ?_) t _) hlt ht
      (by decide)).inherit r t).setState hltr hr (by decide)
    exact .inl rfl

end

theorem prepareCall (h : OutOfReach Q k) (ht : ¬ Q t) (msg : Option Buffer)
    (len : Nat) (rep : Option Buffer) (maxRep badge : Nat) :
    Spares Q k (k.prepareCall t msg len rep maxRep badge) := by
  refine (refl h).modifyIpc (.inl ht) ?_
  exact .inl rfl

theorem prepareReceive (h : OutOfReach Q k) (ht : ¬ Q t) (buf : Option Buffer)
    (maxLen filter : Nat) : Spares Q k (k.prepareReceive t buf maxLen filter) := by
  refine (refl h).modifyIpc (.inl ht) ?_
  exact .inl rfl

theorem callFrom (h : OutOfReach Q k) (hlt : (t : Nat) < k.sched.taskCount) (ht : ¬ Q t)
    {msg : Option Buffer} {len : Nat} {rep : Option Buffer} {maxRep badge : Nat}
    (hk' : k.callFrom e t msg len rep maxRep timeout badge = some (k', st)) : Spares Q k k' := by
  simp only [Kernel.callFrom, Option.bind_eq_bind, Option.bind_eq_some_iff] at hk'
  obtain ⟨⟨k₁, receiver⟩, hdeq, hk'⟩ := hk'
  have hprep : Spares Q k (k.prepareCall t msg len rep maxRep badge) :=
    prepareCall h ht msg len rep maxRep badge
  have hpoint := fun y => pointed_of_dequeueMatchingReceiver (t := y) hdeq
  have hout : Spares Q k k₁ := by
    obtain ⟨next, q, rfl⟩ := dequeueMatchingReceiver_cases hdeq
    exact hprep.setQueue fun y => (hpoint y).1
  cases receiver with
  | some r =>
    cases hk'
    obtain ⟨hltr, hr⟩ := hprep.out.of_pointed ((hpoint r).2 rfl)
    exact hout.callReceiver hlt ht hltr hr e msg len timeout badge
  | none =>
    refine hout.await hlt ht ?_ hk'
    exact fun _ => rfl

theorem receiveFrom (h : Spares Q k k') (hlt : (x : Nat) < k.sched.taskCount)
    (hx : ¬ Q x) (ht : ¬ Q t) :
    Spares Q k (k'.receiveFrom t x) := by
  have hdel := h.deliver ht x (k'.ipc x).msgBuf (k'.ipc x).msgLen (k'.ipc x).badge
  refine (setState (hdel.modifyIpc (.inl hx) ?_) hlt hx (by decide)).inherit t x
  exact .inl rfl

theorem receiveAt (h : OutOfReach Q k) (hlt : (t : Nat) < k.sched.taskCount) (ht : ¬ Q t)
    {buf : Option Buffer} {maxLen filter : Nat}
    (hk' : k.receiveAt e t buf maxLen timeout filter = some (k', st)) : Spares Q k k' := by
  simp only [Kernel.receiveAt, Option.bind_eq_bind, Option.bind_eq_some_iff] at hk'
  obtain ⟨⟨k₁, sender⟩, hdeq, hk'⟩ := hk'
  have hprep : Spares Q k (k.prepareReceive t buf maxLen filter) :=
    prepareReceive h ht buf maxLen filter
  have hpoint := fun y => pointed_of_dequeueMatchingSender (t := y) hdeq
  have hout : Spares Q k k₁ := by
    obtain ⟨next, q, rfl⟩ := dequeueMatchingSender_cases hdeq
    exact hprep.setQueue fun y => (hpoint y).1
  cases sender with
  | some x =>
    cases hk'
    obtain ⟨hltx, hx⟩ := hprep.out.of_pointed ((hpoint x).2 rfl)
    exact hout.receiveFrom hltx hx ht
  | none =>
    refine hout.await hlt ht ?_ hk'
    exact fun _ => rfl

theorem replyTo (h : Spares Q k k') (hlt : (x : Nat) < k.sched.taskCount)
    (hx : ¬ Q x) (r : Fin N) (msg : Option Buffer) (len : Nat) :
    Spares Q k (k'.replyTo r x msg len) := by
  refine setTaskPriority (setState (setSleepTicks (modifyIpc (h.copyMessage _ _ _) (.inl hx) ?_)
    x 0) hlt hx (by decide)) _ _
  exact .inl rfl

theorem reply (h : OutOfReach Q k) (r : Option (Fin N)) (id : Nat)
    (msg : Option Buffer) (len : Nat) :
    Spares Q k (k.reply r id msg len).1 := by
  rcases k.reply_cases r id msg len with ⟨_, -, heq⟩ | ⟨r, x, -, hid, hstate, -, heq⟩
  · rw [heq]
    exact refl h
  · rw [heq]
    obtain ⟨hx, hlt⟩ := getTaskById_eq_some.mp hid
    exact (refl h).replyTo (hx ▸ hlt) (h.of_wait (by rw [hstate]; decide)) r msg len

section

variable (h : Spares Q k k')

include h

theorem endWait (hlt : (t : Nat) < k.sched.taskCount) (ht : ¬ Q t) (reason : IpcStatus) :
    Spares Q k (k'.endWait t reason) := by
  refine (setSleepTicks (h.modifyIpc (.inl ht) ?_) t 0).setState hlt ht (by decide)
  exact .inl rfl

theorem cancelOne (hlt : (t : Nat) < k.sched.taskCount) (ht : ¬ Q t) (reason : IpcStatus) :
    Spares Q k (k'.cancelOne t reason) :=
  (h.endWait hlt ht reason).modifyIpc (.inl ht) (.inr rfl)

theorem cancelWaiter (hlt : (t : Nat) < k.sched.taskCount) (ht : ¬ Q t)
    (hk'' : k'.cancelWaiter e t reason = some k'') : Spares Q k k'' := by
  simp only [Kernel.cancelWaiter, Option.bind_eq_bind, Option.bind_eq_some_iff] at hk''
  obtain ⟨k₁, h₁, k₂, h₂, hk''⟩ := hk''
  have hout₁ : Spares Q k k₁ := by
    have hpoint := fun y => pointed_of_remove (t := y) h₁
    obtain ⟨next, q, rfl⟩ := remove_cases h₁
    exact h.setQueue hpoint
  have hout₂ : Spares Q k k₂ := by
    have hpoint := fun y => pointed_of_remove (t := y) h₂
    obtain ⟨next, q, rfl⟩ := remove_cases h₂
    exact hout₁.setQueue hpoint
  have hend := hout₂.endWait hlt ht reason
  have hk'' := (some.inj hk'').symm
  split_ifs at hk''
  · rw [hk'']
    exact hend.recalculateById _
  · rw [hk'']
    exact hend

theorem drain {fuel : Nat} (hk'' : drain e side reason fuel k' = some k'') :
    Spares Q k k'' := by
  induction fuel generalizing k' with
  | zero =>
    unfold drain at hk''
    split at hk''
    · cases hk''
      exact h
    · cases hk''
  | succ fuel ih =>
    unfold drain at hk''
    split at hk''
    · cases hk''
      exact h
    · next k₁ t hdeq =>
      have hfst : k₁ = (k'.dequeue e side).1 := by rw [hdeq]
      obtain ⟨hlt, ht⟩ := h.out.of_pointed (pointed_of_dequeued (by rw [hdeq]))
      rw [h.count] at hlt
      have hout : Spares Q k k₁ := by
        rw [hfst]
        exact h.setQueue fun y => pointed_of_dequeue
      have hone := hout.cancelOne hlt ht reason
      refine ih ?_ hk''
      cases side with
      | send => exact hone
      | recv => exact hone.setTaskPriority _ _

theorem cancelReplies (e : EndpointId) (reason : IpcStatus) (i : Fin N) :
    Spares Q k (cancelReplies e reason k' i) := by
  unfold Kernel.cancelReplies
  split_ifs with hi
  · have hother : ¬ Q i := fun hq => by
      cases (h.out.detached i hq).waiting.symm.trans hi.2
    exact (h.cancelOne (h.count ▸ hi.1) hother reason).recalculateById _
  · exact h

end

theorem cancelAll (h : OutOfReach Q k) (hk' : k.cancelAll e reason = some k') : Spares Q k k' := by
  simp only [Kernel.cancelAll, Option.bind_eq_bind, Option.bind_eq_some_iff] at hk'
  obtain ⟨k₁, hd₁, k₂, hd₂, hk'⟩ := hk'
  cases hk'
  exact Run.foldl_invariant (fun _ i _ hk => hk.cancelReplies e reason i)
    (((refl h).drain hd₁).drain hd₂)

/-! ## Ticks -/

theorem expire (h : Spares Q k k') (hlt : (t : Nat) < k.sched.taskCount)
    (ht : ¬ Q t) (hk'' : k'.expire t = some k'') : Spares Q k k'' := by
  unfold Kernel.expire at hk''
  split at hk''
  · exact h.cancelWaiter hlt ht hk''
  · cases hk''
    refine (h.modifyIpc (.inl ht) ?_).setTaskState (fun y hy => ?_) (by decide)
    · exact .inl rfl
    · rwa [Fin.ext hy]

theorem taskTick {c : Bool} (h : OutOfReach Q k) (hlt : (t : Nat) < k.sched.taskCount)
    (hcanary : c = true → k.smashed t → k.taskState t = .terminated)
    (hk' : Kernel.TaskTick c k t k') :
    Spares Q k k' := by
  cases hk' with
  | keep => exact refl h
  | smash hc hs => exact absurd (hcanary hc hs.1) hs.2
  | count n => exact (refl h).setSleepTicks t n
  | wake n hst =>
    refine ((refl h).setSleepTicks t n).setTaskState (fun y hy => ?_) (by decide)
    rw [Fin.ext hy]
    exact fun hq => (h.calm t hq).1 hst
  | expire n hw hk' =>
    have hother := h.of_wait (x := t) fun hs => by simp [hs, IpcState.waits] at hw
    exact ((refl h).setSleepTicks t n).expire hlt hother hk'

/-! ## Signals and notifications -/

theorem signalAt (h : OutOfReach Q k) (hlt : (t : Nat) < k.sched.taskCount) (sig : Nat) :
    Spares Q k (k.signalAt t sig) := by
  have hsec := fun f => (refl h).modifySecurity t f
  unfold Kernel.signalAt
  dsimp only
  split_ifs with hst
  · exact (hsec _).setState hlt (fun hq => hst.elim (h.calm t hq).1 (h.calm t hq).2) (by decide)
  · exact hsec _

theorem sendSignal (h : OutOfReach Q k) (id : Nat) (sig : Int) :
    Spares Q k (k.sendSignal id sig).1 :=
  sendSignal_cases (refl h) fun _ _ hlt _ => signalAt h hlt _

theorem handleKill (h : OutOfReach Q k) (id : Nat) (sig : Int) :
    Spares Q k (k.handleKill id sig).1 :=
  handleKill_cases (refl h) fun _ _ hlt _ => signalAt h hlt _

theorem notify (h : Spares Q k k') (t : Fin N) (val : BitVec 32) :
    Spares Q k (k'.notify t val) :=
  h.modifyIpc (.inr ⟨rfl, rfl⟩) (.inl rfl)

/-- A timer wakes its owner out of a suspension, too. -/
theorem notifyOwner (h : OutOfReach Q k) {owner : Nat}
    (howner : ∀ t, Q t → (t : Nat) = owner → k.taskState t ≠ .suspended) (val : BitVec 32) :
    Spares Q k (k.notifyOwner owner val) := by
  unfold Kernel.notifyOwner
  split
  · exact refl h
  · next i hi =>
    obtain ⟨hid, hlt⟩ := getTaskById_eq_some.mp hi
    have hnote := (refl h).notify i val
    dsimp only
    split_ifs with hst
    · exact hnote.setState (hid ▸ hlt)
        (fun hq => hst.elim (howner i hq hid) (h.calm i hq).1) (by decide)
    · exact hnote

theorem timerExpiry (h : OutOfReach Q k) {owner : Nat} {flags : BitVec 32}
    (howner : TimerFlags.Notifies flags →
      ∀ t, Q t → (t : Nat) = owner → k.taskState t ≠ .suspended)
    (index : Nat) (param : BitVec 32) : Spares Q k (k.timerExpiry index owner flags param) := by
  rcases k.timerExpiry_cases index owner flags param with ⟨sig, heq⟩ | ⟨hflags, val, heq⟩
  · rw [heq]
    exact sendSignal h owner sig
  · rw [heq]
    exact notifyOwner h (howner hflags) val

theorem rotate (h : Spares Q k k') {s : Scheduler N} {cur : Fin N}
    (hs : k'.sched.rotate cur = some s) (next : Option (Fin N)) :
    Spares Q k { k' with sched := s, nextTcb := next } := by
  have htasks := tasks_rotate hs
  have hcount := taskCount_rotate hs
  refine h.congr (h.out.table.congr hcount ?_ ?_) hcount (fun t => ?_) rfl rfl
  · simp [htasks]
  · simp [htasks]
  · simp only [taskState, htasks]

end Spares

end AuroraOS
