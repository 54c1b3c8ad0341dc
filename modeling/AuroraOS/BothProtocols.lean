import AuroraOS.History
import AuroraOS.IpcPriority
import AuroraOS.MutexCover
import AuroraOS.MutexMoves

/-!
# Two protocols for one priority

Mutexes and endpoints both pass priorities on through `current_priority`, and each of them
recalculates it from its own half of the state. This file says what is to hold nevertheless
(`Kernel.BothInherit`) and under which condition the sections of `lock` and `unlock`, calls and
receives keep it; the operations that end waits are in `ProtocolRuns`.
-/

namespace AuroraOS

open Chain Inheritance Relation Kernel MutexOp Function

variable {N : Nat}

/-! ## Mutexes leave endpoints alone -/

/-- The endpoints and the contexts of the tasks are the same. -/
structure SameEndpoints (k k' : Kernel N) : Prop where
  ipc : k'.ipc = k.ipc
  endpoints : k'.endpoints = k.endpoints
  count : k'.sched.taskCount = k.sched.taskCount

namespace SameEndpoints

variable {k k' k'' : Kernel N}

theorem refl (k : Kernel N) : SameEndpoints k k := ⟨rfl, rfl, rfl⟩

theorem trans (h : SameEndpoints k k') (h' : SameEndpoints k' k'') : SameEndpoints k k'' :=
  ⟨h'.ipc.trans h.ipc, h'.endpoints.trans h.endpoints, h'.count.trans h.count⟩

theorem lockMoves {caller : Option (Fin N)} (h : LockMoves caller k k') : SameEndpoints k k' :=
  h.invariant (fun _ _ hmove hk => hk.trans ⟨by cases hmove <;> rfl, by cases hmove <;> rfl,
    hmove.taskCount_eq⟩)
    (refl k)

theorem mutexOp {op : MutexOp N} {rounds : Nat} {s s' : Kernel N × Pending N}
    (h : op.exec rounds s = some s') : SameEndpoints s.1 s'.1 := by
  cases op with
  | lock current call =>
    cases current with
    | none =>
      rw [exec_lock_none h]
      exact lockMoves (.lockEnter ..)
    | some t =>
      rw [exec_lock_some h]
      exact lockMoves (.lockEnter ..)
  | retry t =>
    obtain ⟨call, k', r, -, hk', rfl⟩ := exec_retry h
    exact lockMoves (.lockRetry hk')
  | unlock =>
    obtain ⟨k', hk', rfl⟩ := exec_unlock h
    exact lockMoves (.unlock hk')

end SameEndpoints

/-! ## What is to hold, and under which condition -/

/-- An owner is as urgent as the ceilings and the waiters of its mutexes ask for, and a receiver as
urgent as the tasks that wait for its reply. -/
structure Kernel.BothInherit (k : Kernel N) : Prop where
  held : ∀ t m, (k.mutexes m).owner = some t → (k.mutexes m).ceilingPrio ≤ k.priority t ∧
    ∀ u, (k.sched.tasks u).waitingOnMutex = some m → k.priority u ≤ k.priority t
  owed : ∀ r x, k.Owes r x → k.priority x ≤ k.priority r

/-- The task that calls `lock` or `unlock`. -/
def MutexOp.caller : MutexOp N → Option (Fin N)
  | .lock current _ | .unlock current _ => current
  | .retry _ => none

/-- The condition on `lock` and `unlock`. A task that starts to wait makes no task more urgent than
a receiver whose reply that task waits for. Where a task gives up waiting, or gives a mutex back,
each priority that the tasks on the way owe to a reply is also due for a mutex that is left. -/
def MutexOp.SparesReplies (s : Kernel N × Pending N) : MutexOp N → Prop
  | .lock (some t) call => s.1.checkDeadlock t call.mutex = false →
      ∀ y ∈ s.1.chain N (s.1.mutexes call.mutex).owner, ∀ r, s.1.Owes r y →
        s.1.priority t ≤ s.1.priority y ∨ s.1.priority t ≤ s.1.priority r
  | .retry t => ∀ call, s.2 t = some call →
      call.timeoutTicks ≠ lockForever ∧ s.1.elapsed call.startTick ≥ call.timeoutTicks →
      ∀ y ∈ s.1.chain N (s.1.mutexes call.mutex).owner, ∀ x, s.1.Owes y x →
        s.1.Due (fun _ => False) (fun u => u = t ∨ u ∈ s.1.chain N (s.1.mutexes call.mutex).owner) y
          (s.1.priority x)
  | .unlock (some o) m => (s.1.mutexes m).owner = some o →
      (s.1.mutexes m).recursiveCount % 2 ^ 32 = 1 →
      ∀ x, s.1.Owes o x → s.1.Due (· = m) (· = o) o (s.1.priority x)
  | .lock none _ | .unlock none _ => True

/-- Each priority that a task of `lowered` owes to a mutex is at most its base priority, or that of
a task that waits for its reply, leaving out those of `ended` and of `lowered`. -/
def Kernel.Keeps (k : Kernel N) (ended lowered : Fin N → Prop) : Prop :=
  ∀ r, lowered r → ∀ m, (k.mutexes m).owner = some r → ∀ p,
    (p = (k.mutexes m).ceilingPrio ∨
      ∃ u, (k.sched.tasks u).waitingOnMutex = some m ∧ p = k.priority u) →
    p ≤ (k.sched.tasks r).basePriority ∨
      ∃ x, ¬ ended x ∧ ¬ lowered x ∧ k.Owes r x ∧ p ≤ k.priority x

/-- The condition on the endpoints: where waits for a reply end, each priority that a receiver owes
to a mutex is kept for another reason. -/
def Op.SparesMutexes (k : Kernel N) : Op N → Prop
  | .reply (some r) id _ _ => ∀ x, k.getTaskById id = some x → k.Owes r x → k.Keeps (· = x) (· = r)
  | .cancelWaiter _ t _ => k.Keeps (· = t) fun r => k.Owes r t
  | .cancelAll e _ => k.Keeps (fun x => (k.ipc x).waitingEndpoint = some e)
      fun r => k.Waits r e .recv ∨ ∃ x, (k.ipc x).waitingEndpoint = some e ∧ k.Owes r x
  | _ => True

/-! ## The invariant -/

/-- What a task's context says about its wait. -/
def IpcContext.wait (c : IpcContext N) : IpcState × Nat × Option EndpointId :=
  (c.state, c.receiverId, c.waitingEndpoint)

/-- The invariant of a run. -/
structure Inherited (k : Kernel N) (pending : Pending N) : Prop where
  cover : LockCover k.locks pending
  served : ∀ r x, k.Owes r x → k.priority x ≤ k.priority r
  apart : ∀ t, (k.ipc t).state ≠ .ready → pending t = none ∧ (t : Nat) < k.locks.count
  idle : ∀ t, (k.ipc t).state = .ready → (k.ipc t).waitingEndpoint = none

namespace Inherited

variable {k k' : Kernel N} {pending : Pending N}

theorem both (h : Inherited k pending) : k.BothInherit where
  held t m hm := by
    obtain ⟨hown, hup⟩ := covered_iff.mp h.cover.covered
    exact ⟨hown t _ (.inr ⟨m, hm, rfl⟩), fun u hu =>
      hup u t (Option.bind_eq_some_iff.mpr ⟨m, hu, hm⟩)⟩
  owed := h.served

theorem wait_eq {c d : IpcContext N} (h : c.wait = d.wait) :
    c.state = d.state ∧ c.receiverId = d.receiverId ∧ c.waitingEndpoint = d.waitingEndpoint := by
  simpa [IpcContext.wait] using h

theorem owes_of_wait {r x : Fin N} (h : (k'.ipc x).wait = (k.ipc x).wait) :
    k'.Owes r x ↔ k.Owes r x := by
  obtain ⟨hstate, hid, -⟩ := wait_eq h
  rw [Kernel.Owes, Kernel.Owes, hstate, hid]

/-! ## Mutexes -/

section Sections

variable {pending' : Pending N} (h : Inherited k pending) (hcover : LockCover k'.locks pending')
  (hsame : SameEndpoints k k')

include h hcover hsame

theorem of_served (hpending : ∀ x, pending x = none → (k.ipc x).state ≠ .ready → pending' x = none)
    (hserved : ∀ r x, k.Owes r x → k'.priority x ≤ k'.priority r) : Inherited k' pending' := by
  refine ⟨hcover, fun r x hx => hserved r x ?_, fun t ht => ?_, fun t ht => ?_⟩
  · rwa [Kernel.Owes, ← hsame.ipc]
  · rw [hsame.ipc] at ht
    obtain ⟨hnone, hlt⟩ := h.apart t ht
    exact ⟨hpending t hnone ht, hlt.trans_eq hsame.count.symm⟩
  · rw [hsame.ipc] at ht ⊢
    exact h.idle t ht

/-- Priorities have been raised, but not above those of the tasks that owe a reply. -/
theorem of_raised
    (hpending : ∀ x, pending x = none → (k.ipc x).state ≠ .ready → pending' x = none)
    (hraise : ∀ y, k.priority y ≤ k'.priority y)
    (howes : ∀ r x, k.Owes r x → k'.priority x = k.priority x ∨ k'.priority x ≤ k.priority r) :
    Inherited k' pending' := by
  refine h.of_served hcover hsame hpending fun r x hx => ?_
  rcases howes r x hx with hp | hp
  · rw [hp]
    exact (h.served r x hx).trans (hraise r)
  · exact hp.trans (hraise r)

/-- Priorities have been lowered, but not below those of the tasks that wait for a reply. -/
theorem of_lowered (hpending : ∀ x, pending x = none → pending' x = none)
    (hlower : ∀ y, k'.priority y ≤ k.priority y)
    (howes : ∀ r x, k.Owes r x → k'.priority r = k.priority r ∨ k.priority x ≤ k'.priority r) :
    Inherited k' pending' := by
  refine h.of_served hcover hsame (fun x hx _ => hpending x hx) fun r x hx => (hlower x).trans ?_
  rcases howes r x hx with hp | hp
  · rw [hp]
    exact h.served r x hx
  · exact hp

end Sections

/-- **The sections of `lock` and `unlock`.** -/
theorem mutexOp (hN : N ≤ 32) (h : Inherited k pending) {op : MutexOp N} {rounds : Nat}
    {s' : Kernel N × Pending N} (hop : op.Enabled (k, pending))
    (hready : ∀ t ∈ op.caller, (k.ipc t).state = .ready) (hfree : op.Undisputed (k, pending))
    (hspare : op.SparesReplies (k, pending)) (hexec : op.exec rounds (k, pending) = some s') :
    Inherited s'.1 s'.2 := by
  cases op with
  | lock current call =>
    cases current with
    | none =>
      rw [exec_lock_none hexec]
      obtain ⟨hcover, hprio⟩ := h.cover.lockEnter_none call.mutex
      exact h.of_raised hcover (.lockMoves (.lockEnter ..)) (fun _ hx _ => hx)
        (fun y => (congrFun hprio y).ge)
        fun r x _ => .inl (congrFun hprio x)
    | some t =>
      obtain ⟨hlt, hpending⟩ := hop t rfl
      have htready : (k.ipc t).state = .ready := hready t rfl
      rw [exec_lock_some hexec]
      have hsame := SameEndpoints.lockMoves (.lockEnter k call.mutex (some t))
      rcases hk' : k.lockEnter call.mutex (some t) with ⟨k', r⟩
      rw [hk'] at hsame
      obtain ⟨hcover, hprio⟩ := h.cover.lockEnter hN hlt hpending
        (fun hunlocked => hfree t call.mutex rfl hunlocked) hk'
      refine h.of_raised hcover hsame (fun x hx hxs => ?_) (fun y => ?_) fun r x hx => ?_
      · have hxt : x ≠ t := fun hxt => hxs (hxt ▸ htready)
        dsimp only
        split_ifs
        · rw [update_of_ne hxt, hx]
        · exact hx
      · rcases hprio y with hy | hy
        · exact hy.ge
        · exact hy.1
      · rcases hprio x with hp | ⟨-, rfl | ⟨hdead, hchain, hlow, hp⟩⟩
        · exact .inl hp
        · cases htready.symm.trans hx.1
        · rcases hspare hdead x hchain r hx with hle | hle
          · exact absurd hlow (not_lt.mpr hle)
          · exact .inr (hp.trans_le hle)
  | retry t =>
    obtain ⟨call, k', r, hcall, hk', rfl⟩ := exec_retry hexec
    have htready : (k.ipc t).state = .ready := by
      by_contra hne
      cases (h.apart t hne).1.symm.trans hcall
    obtain ⟨hcover, hprio⟩ := h.cover.lockRetry hN hcall
      (fun hunlocked => hfree t call.mutex (by simp [target, hcall]) hunlocked) hk'
    have hnone : ∀ x, pending x = none →
        (if r = .waits then pending else update pending t none) x = none := by
      intro x hx
      split_ifs
      · exact hx
      · rw [update_apply]
        split_ifs
        · rfl
        · exact hx
    rcases hprio with hprio | ⟨htime, hle, hsame, hdue⟩
    · refine h.of_raised hcover (.lockMoves (.lockRetry hk')) (fun x hx _ => hnone x hx)
        (fun y => ?_) fun r x hx => ?_
      · rcases hprio y with hy | hy
        · exact hy.ge
        · exact hy.2
      · rcases hprio x with hp | ⟨rfl, -⟩
        · exact .inl hp
        · cases htready.symm.trans hx.1
    · refine h.of_lowered hcover (.lockMoves (.lockRetry hk')) hnone hle fun r x hx => ?_
      by_cases hchain : r ∈ k.chain N (k.mutexes call.mutex).owner
      · exact .inr (hdue r _ (hspare call hcall htime r hchain x hx))
      · exact .inl (hsame r hchain)
  | unlock =>
    obtain ⟨k', hk', rfl⟩ := exec_unlock hexec
    obtain ⟨hcover, hprio⟩ := h.cover.unlock (fun t ht => (hop t ht).2) hk'
    rcases hprio with hprio | ⟨o, rfl, howner, hcount, hle, hsame, hdue⟩
    · exact h.of_raised hcover (.lockMoves (.unlock hk')) (fun _ hx _ => hx) (fun y => (hprio y).ge)
        fun r x _ => .inl (hprio x)
    · refine h.of_lowered hcover (.lockMoves (.unlock hk')) (fun _ hx => hx) hle fun r x hx => ?_
      by_cases hr : r = o
      · subst hr
        exact .inr (hdue _ (hspare howner hcount x hx))
      · exact .inl (hsame r hr)

/-! ## Calls and receives -/

/-- Some tasks have started or ended a wait, none of them for a reply. -/
theorem change (h : Inherited k pending) (hlocks : k'.locks = k.locks) {A : Fin N → Prop}
    (hother : ∀ i, ¬ A i → (k'.ipc i).wait = (k.ipc i).wait)
    (hA : ∀ i, A i → pending i = none ∧ (i : Nat) < k.locks.count ∧
      (k'.ipc i).state ≠ .replyBlocked ∧
      ((k'.ipc i).state = .ready → (k'.ipc i).waitingEndpoint = none)) :
    Inherited k' pending := by
  have hprio : k'.priority = k.priority := congrArg Locks.priority hlocks
  refine ⟨hlocks ▸ h.cover, fun r x hx => ?_, fun t ht => ?_, fun t ht => ?_⟩
  · have hAx : ¬ A x := fun hAx => (hA x hAx).2.2.1 hx.1
    rw [hprio]
    exact h.served r x ((owes_of_wait (hother x hAx)).mp hx)
  · rw [hlocks]
    by_cases hAt : A t
    · exact ⟨(hA t hAt).1, (hA t hAt).2.1⟩
    · rw [(wait_eq (hother t hAt)).1] at ht
      exact h.apart t ht
  · by_cases hAt : A t
    · exact (hA t hAt).2.2.2 ht
    · obtain ⟨hstate, -, hend⟩ := wait_eq (hother t hAt)
      rw [hend]
      exact h.idle t (hstate ▸ ht)

/-- `x` has handed a message to `r` and waits for its reply, and `r` has inherited. -/
theorem serve (h : Inherited k pending) {r x : Fin N} (hne : x ≠ r)
    (hr : pending r = none ∧ (r : Nat) < k.locks.count)
    (hx : pending x = none ∧ (x : Nat) < k.locks.count)
    (hlocks : k'.locks = { k.locks with
      priority := update k.priority r (max (k.priority r) (k.priority x)) })
    (hother : ∀ i, i ≠ x → i ≠ r → (k'.ipc i).wait = (k.ipc i).wait)
    (hr' : (k'.ipc r).state = .ready ∧ (k'.ipc r).waitingEndpoint = none)
    (hx' : k'.Owes r x) : Inherited k' pending := by
  have hprio : k'.priority =
      update k.priority r (max (k.priority r) (k.priority x)) :=
    congrArg Locks.priority hlocks
  have hself : k'.priority r = max (k.priority r) (k.priority x) := by
    rw [hprio, update_self]
  have hsame : ∀ i, i ≠ r → k'.priority i = k.priority i := fun i hi => by
    rw [hprio, update_of_ne hi]
  have hraise : ∀ i, k.priority i ≤ k'.priority i := by
    intro i
    by_cases hi : i = r
    · rw [hi, hself]
      exact le_max_left _ _
    · exact (hsame i hi).ge
  have hroot : k.locks.blocker r = none := by
    simp [Locks.blocker, h.cover.waitingOn_eq_none hr.1]
  refine ⟨?_, fun q y hy => ?_, fun t ht => ?_, fun t ht => ?_⟩
  · rw [hlocks]
    exact ⟨h.cover.toLockShape.setPriority _, h.cover.covered.raise_root hroot (le_max_left _ _)⟩
  · have hyr : y ≠ r := by
      rintro rfl
      cases hr'.1.symm.trans hy.1
    rw [hsame y hyr]
    by_cases hyx : y = x
    · subst hyx
      obtain rfl : q = r := Fin.ext (hy.2.symm.trans hx'.2)
      rw [hself]
      exact le_max_right _ _
    · exact (h.served q y ((owes_of_wait (hother y hyx hyr)).mp hy)).trans (hraise q)
  · rw [hlocks]
    by_cases htx : t = x
    · exact htx ▸ hx
    · have htr : t ≠ r := by
        rintro rfl
        exact ht hr'.1
      rw [(wait_eq (hother t htx htr)).1] at ht
      exact h.apart t ht
  · by_cases htr : t = r
    · rw [htr]
      exact hr'.2
    · have htx : t ≠ x := by
        rintro rfl
        cases ht.symm.trans hx'.1
      obtain ⟨hstate, -, hend⟩ := wait_eq (hother t htx htr)
      rw [hend]
      exact h.idle t (hstate ▸ ht)

theorem congr (h : Inherited k pending) (hlocks : k'.locks = k.locks)
    (hwait : ∀ i, (k'.ipc i).wait = (k.ipc i).wait) : Inherited k' pending :=
  h.change hlocks (A := fun _ => False) (fun i _ => hwait i) fun _ hA => hA.elim

section Pieces

variable {t r x : Fin N} {e : EndpointId} {side : Side}

variable (h : Inherited k pending)

include h

theorem refuse (ht : pending t = none ∧ (t : Nat) < k.locks.count) :
    Inherited (k.refuse t) pending := by
  refine h.change (k.locks_refuse t) (A := (· = t)) (fun i hi => ?_) fun i hi => ?_
  · rw [ipc_refuse, if_neg hi]
  · subst hi
    rw [ipc_refuse, if_pos rfl]
    exact ⟨ht.1, ht.2, nofun, fun _ => rfl⟩

theorem parked (ht : pending t = none ∧ (t : Nat) < k.locks.count) (timeout : Nat)
    (note : IpcContext N → IpcContext N) (next : Blocked N) (q : WaitQueue N) :
    Inherited (k.parked e side t timeout note next q) pending := by
  refine h.change (k.locks_parked ..) (A := (· = t)) (fun i hi => ?_) fun i hi => ?_
  · rw [ipc_parked, if_neg hi]
    rfl
  · subst hi
    rw [ipc_parked, if_pos rfl]
    refine ⟨ht.1, ht.2, ?_, ?_⟩
    · cases side <;> exact nofun
    · cases side <;> exact nofun

theorem wait_deliver (hne : x ≠ r) (hr : (r : Nat) < k.locks.count) (msg : Option Buffer)
    (len badge : Nat) :
    ((k.deliver r x msg len badge).ipc x).receiverId = r ∧
      ((k.deliver r x msg len badge).ipc r).state = .ready ∧
      ((k.deliver r x msg len badge).ipc r).waitingEndpoint = none ∧
      ∀ i, i ≠ x → i ≠ r → (k.deliver r x msg len badge).ipc i = k.ipc i := by
  have hid : ((k.sched.tasks r).id : Nat) = r := congrArg Fin.val (h.cover.slots r hr)
  refine ⟨?_, ?_, ?_, fun i hix hir => ?_⟩
  · rw [ipc_deliver _ hne, if_pos rfl]
    exact hid
  · rw [ipc_deliver _ hne, if_neg hne.symm, if_pos rfl]
  · rw [ipc_deliver _ hne, if_neg hne.symm, if_pos rfl]
  · rw [ipc_deliver _ hne, if_neg hix, if_neg hir]

theorem callReceiver (hne : x ≠ r) (hr : pending r = none ∧ (r : Nat) < k.locks.count)
    (hx : pending x = none ∧ (x : Nat) < k.locks.count) (msg : Option Buffer)
    (len timeout badge : Nat) : Inherited (k.callReceiver e x r msg len timeout badge) pending := by
  obtain ⟨hid, hstate, hend, hother⟩ := h.wait_deliver hne hr.2 msg len badge
  have hlocks := locks_callReceiver h.cover.slots hr.2 e x msg len timeout badge
  by_cases hnb : timeout = ipcNonblock
  · -- the sender does not wait
    rw [if_pos hnb] at hlocks
    refine h.change hlocks (A := fun i => i = x ∨ i = r) (fun i hi => ?_) fun i hi => ?_
    · rw [not_or] at hi
      rw [ipc_callReceiver, if_neg hi.1, hother i hi.1 hi.2]
    · rw [ipc_callReceiver]
      rcases hi with rfl | rfl
      · rw [if_pos rfl, if_pos hnb, if_pos hnb]
        exact ⟨hx.1, hx.2, nofun, fun _ => rfl⟩
      · rw [if_neg hne.symm, hstate, hend]
        exact ⟨hr.1, hr.2, nofun, fun _ => rfl⟩
  · rw [if_neg hnb] at hlocks
    refine h.serve hne hr hx hlocks (fun i hix hir => ?_) ?_ ?_
    · rw [ipc_callReceiver, if_neg hix, hother i hix hir]
    · rw [ipc_callReceiver, if_neg hne.symm]
      exact ⟨hstate, hend⟩
    · rw [Kernel.Owes, ipc_callReceiver, if_pos rfl, if_neg hnb]
      exact ⟨rfl, hid⟩

theorem receiveFrom (hne : x ≠ r) (hr : pending r = none ∧ (r : Nat) < k.locks.count)
    (hx : pending x = none ∧ (x : Nat) < k.locks.count) :
    Inherited (k.receiveFrom r x) pending := by
  obtain ⟨hid, hstate, hend, hother⟩ := h.wait_deliver hne hr.2 (k.ipc x).msgBuf
    (k.ipc x).msgLen (k.ipc x).badge
  refine h.serve hne hr hx (locks_receiveFrom h.cover.slots hr.2 x) (fun i hix hir => ?_) ?_ ?_
  · rw [ipc_receiveFrom, if_neg hix, hother i hix hir]
  · rw [ipc_receiveFrom, if_neg hne.symm]
    exact ⟨hstate, hend⟩
  · rw [Kernel.Owes, ipc_receiveFrom, if_pos rfl]
    exact ⟨rfl, hid⟩

end Pieces

section Calls

variable {L : Waiting N} {t : Fin N} {e : EndpointId} {st : IpcStatus}

theorem wait_modifyIpc {f : IpcContext N → IpcContext N} (hf : ∀ c, (f c).wait = c.wait)
    (i : Fin N) : ((k.modifyIpc t f).ipc i).wait = (k.ipc i).wait := by
  rw [ipc_modifyIpc]
  split_ifs with hi
  · rw [hf, hi]
  · rfl

/-- Who waits in a queue is not the caller. -/
theorem found (h : Inherited k pending) (hL : QueueInv k L) (hready : (k.ipc t).state = .ready)
    {side : Side} {p : Fin N → Bool} {r : Fin N} (hfind : (L e side).find? p = some r) :
    t ≠ r ∧ pending r = none ∧ (r : Nat) < k.locks.count := by
  have hr : (k.ipc r).state ≠ .ready :=
    ((hL.mem e side r).mp (List.mem_of_find?_eq_some hfind)).not_ready
  exact ⟨fun htr => hr (htr ▸ hready), h.apart r hr⟩

/-- **`Endpoint::call`.** -/
theorem callFrom (h : Inherited k pending) (hL : QueueInv k L)
    (ht : pending t = none ∧ (t : Nat) < k.locks.count) (hready : (k.ipc t).state = .ready)
    {msg rep : Option Buffer} {len maxRep timeout badge : Nat}
    (hk' : k.callFrom e t msg len rep maxRep timeout badge = some (k', st)) :
    Inherited k' pending ∧ ∃ L', QueueInv k' L' := by
  obtain ⟨L', hout, hL'⟩ := Run.of_exists_pair (hL.callFrom hready) hk'
  refine ⟨?_, L', hL'⟩
  have h₀ : ∀ next q, Inherited ((k.prepareCall t msg len rep maxRep badge).setQueue e .recv next q)
      pending := fun _ _ => h.congr rfl (wait_modifyIpc fun _ => rfl)
  cases hout with
  | @delivered r next q hfind =>
    obtain ⟨hne, hr⟩ := h.found hL hready hfind
    exact (h₀ next q).callReceiver hne hr ht msg len timeout badge
  | @refused next q _ _ =>
    exact (h₀ next q).refuse ht
  | @queued next _ q _ _ _ =>
    exact (h₀ next q).parked ht timeout _ _ _

/-- **`Endpoint::receive`.** -/
theorem receiveAt (h : Inherited k pending) (hL : QueueInv k L)
    (ht : pending t = none ∧ (t : Nat) < k.locks.count) (hready : (k.ipc t).state = .ready)
    {buf : Option Buffer} {maxLen timeout filter : Nat}
    (hk' : k.receiveAt e t buf maxLen timeout filter = some (k', st)) :
    Inherited k' pending ∧ ∃ L', QueueInv k' L' := by
  obtain ⟨L', hout, hL'⟩ := Run.of_exists_pair (hL.receiveAt hready) hk'
  refine ⟨?_, L', hL'⟩
  have h₀ : ∀ next q, Inherited ((k.prepareReceive t buf maxLen filter).setQueue e .send next q)
      pending := fun _ _ => h.congr rfl (wait_modifyIpc fun _ => rfl)
  cases hout with
  | @delivered x next q hfind =>
    obtain ⟨hne, hx⟩ := h.found hL hready hfind
    exact (h₀ next q).receiveFrom hne.symm ht hx
  | @refused next q _ _ =>
    exact (h₀ next q).refuse ht
  | @queued next _ q _ _ _ =>
    exact (h₀ next q).parked ht timeout _ _ _

end Calls

end Inherited

end AuroraOS
