import AuroraOS.BothProtocols

/-!
# Mutexes and endpoints along runs

When a wait for a reply ends, `recalculate_receiver_priority` looks at the tasks that still wait for
a reply, and not at the mutexes; `recalculate_priority_chain` looks at the mutexes, and not at the
tasks that wait for a reply. A server that holds a mutex and owes a reply therefore loses what it
has inherited through the one as soon as it is done with the other (`inherited_lost`).

**Theorem (`protocols_compatible`).** This is the only way in which they disturb each other. In
every run in which a recalculation drops no priority that the other protocol still asks for, and no
task becomes more urgent than a task that owes it a reply, an owner's priority reaches the ceilings
and the waiters of its mutexes, and a receiver's priority reaches the tasks that wait for its reply.
-/

namespace AuroraOS

open Inheritance Relation Inherited Kernel Option

variable {N : Nat}

/-! ## Waits that end -/

/-- What happens while waits end: tasks of `ended` become ready, and the priorities of tasks of
`lowered` are recalculated. -/
structure Ending (pending : Pending N) (k : Kernel N) (ended lowered : Fin N → Prop)
    (k' : Kernel N) : Prop where
  inherited : Inherited k' pending
  locks : k'.locks = { k.locks with priority := k'.priority }
  le : ∀ t, k'.priority t ≤ k.priority t
  same : ∀ t, ¬ lowered t → k'.priority t = k.priority t
  wait : ∀ x, (k'.ipc x).wait = (k.ipc x).wait ∨
    ended x ∧ (k'.ipc x).state = .ready ∧ (k'.ipc x).waitingEndpoint = none

namespace Ending

variable {k k₁ k₂ : Kernel N} {pending : Pending N} {ended lowered : Fin N → Prop} {t r : Fin N}

variable {e : EndpointId} {reason : IpcStatus}

theorem refl (h : Inherited k pending) : Ending pending k ended lowered k :=
  ⟨h, rfl, fun _ => le_rfl, fun _ _ => rfl, fun _ => .inl rfl⟩

section

variable (h : Ending pending k ended lowered k₁)

include h

theorem release (ht : ended t) (hlocks : k₂.locks = k₁.locks)
    (hself : (k₂.ipc t).state = .ready ∧ (k₂.ipc t).waitingEndpoint = none)
    (hother : ∀ i, i ≠ t → (k₂.ipc i).wait = (k₁.ipc i).wait) (hwait : (k₁.ipc t).state ≠ .ready) :
    Ending pending k ended lowered k₂ := by
  have hprio : k₂.priority = k₁.priority := congrArg Locks.priority hlocks
  have htask := h.inherited.apart t hwait
  refine ⟨h.inherited.change hlocks (A := (· = t)) hother fun i hi => ?_, ?_, ?_, ?_, fun x => ?_⟩
  · subst hi
    refine ⟨htask.1, htask.2, ?_, fun _ => hself.2⟩
    rw [hself.1]
    exact nofun
  · rw [hprio, hlocks]
    exact h.locks
  · rw [hprio]
    exact h.le
  · rw [hprio]
    exact h.same
  · by_cases hx : x = t
    · subst hx
      exact .inr ⟨ht, hself⟩
    · obtain ⟨hstate, -, hend⟩ := wait_eq (hother x hx)
      rw [hother x hx, hstate, hend]
      exact h.wait x

theorem recalculate (hkeeps : k.Keeps ended lowered) (hr : lowered r)
    (hlt : (r : Nat) < k.locks.count) :
    Ending pending k ended lowered (k₁.recalculateReceiverPriority r) := by
  have hlt₁ : (r : Nat) < k₁.locks.count := by rwa [h.locks]
  have hslots := h.inherited.cover.slots
  obtain ⟨hown, -⟩ := covered_iff.mp h.inherited.cover.covered
  obtain ⟨hmem, hub⟩ := isGreatest_receiverPriority
    (congrArg Fin.val (hslots r hlt₁))
  set v := k₁.receiverPriority r
  have howes : ∀ x, k₁.Owes r x → k₁.priority x ≤ v := by
    intro x hx
    refine hub (.inr ⟨x, ⟨(h.inherited.apart x ?_).2, hx⟩, rfl⟩)
    rw [hx.1]
    exact nofun
  have hv : v ≤ k₁.priority r := by
    rcases hmem with hv | ⟨x, ⟨-, hx⟩, hv⟩
    · rw [hv]
      exact hown r _ (.inl rfl)
    · rw [← hv]
      exact h.inherited.served r x hx
  -- what the mutexes ask for is kept for another reason
  have hbase : (k₁.sched.tasks r).basePriority = (k.sched.tasks r).basePriority :=
    congrFun (congrArg Locks.base h.locks) r
  have hmutexes : k₁.mutexes = k.mutexes := congrArg Locks.mutexes h.locks
  have hkept : ∀ m, (k.mutexes m).owner = some r → ∀ p, (p = (k.mutexes m).ceilingPrio ∨
      ∃ u, (k.sched.tasks u).waitingOnMutex = some m ∧ p = k.priority u) → p ≤ v := by
    intro m hm p hp
    rcases hkeeps r hr m hm p hp with hp | ⟨x, hended, hlowered, hx, hp⟩
    · rw [← hbase] at hp
      exact hp.trans (hub (.inl rfl))
    · have hwait : (k₁.ipc x).wait = (k.ipc x).wait :=
        (h.wait x).resolve_right fun hx' => hended hx'.1
      rw [← h.same x hlowered] at hp
      exact hp.trans (howes x ((owes_of_wait hwait).mpr hx))
  have hdemands : v ∈ upperBounds (demands k₁.locks.own k₁.locks.blocker k₁.priority r) := by
    rintro b ((hb | ⟨m, hm, hb⟩) | ⟨u, hu, rfl⟩)
    · rw [hb]
      exact hub (.inl rfl)
    · have hm : (k₁.mutexes m).owner = some r := hm
      have hb : b = (k₁.mutexes m).ceilingPrio := hb
      rw [hmutexes] at hm hb
      exact hkept m hm b (.inl hb)
    · obtain ⟨m, hw, hm⟩ := bind_eq_some_iff.mp hu
      have hm : (k₁.mutexes m).owner = some r := hm
      rw [hmutexes] at hm
      have hw : (k.sched.tasks u).waitingOnMutex = some m :=
        (congrFun (congrArg Locks.waitingOn h.locks) u).symm.trans hw
      exact (h.le u).trans (hkept m hm _ (.inr ⟨u, hw, rfl⟩))
  have hlocks := locks_recalculateReceiverPriority hslots hlt₁
  have hprio : (k₁.recalculateReceiverPriority r).priority = Function.update k₁.priority r v :=
    congrArg Locks.priority hlocks
  have hlow : ∀ y, (k₁.recalculateReceiverPriority r).priority y ≤ k₁.priority y := by
    intro y
    rw [hprio, Function.update_apply]
    split_ifs with hy
    · rwa [hy]
    · exact le_rfl
  refine ⟨⟨?_, fun q y hy => ?_, ?_, h.inherited.idle⟩, ?_, fun y => (hlow y).trans (h.le y),
    fun y hy => ?_, h.wait⟩
  · rw [hlocks]
    exact ⟨h.inherited.cover.toLockShape.setPriority _,
      h.inherited.cover.covered.lower hv hdemands⟩
  · refine (hlow y).trans ?_
    rw [hprio, Function.update_apply]
    split_ifs with hq
    · exact howes y (hq ▸ hy)
    · exact h.inherited.served q y hy
  · rw [hlocks]
    exact h.inherited.apart
  · rw [hprio, hlocks, h.locks]
  · have hyr : y ≠ r := fun hyr => hy (hyr ▸ hr)
    rw [hprio, Function.update_of_ne hyr]
    exact h.same y hy

theorem recalculateById (hkeeps : k.Keeps ended lowered) {id : Nat}
    (hr : ∀ r : Fin N, id = r → lowered r) :
    Ending pending k ended lowered (k₁.recalculateById id) := by
  unfold Kernel.recalculateById
  split
  · exact h
  · next r hr' =>
    obtain ⟨hid, hlt⟩ := getTaskById_eq_some.mp hr'
    have hcount : k₁.locks.count = k.locks.count := by rw [h.locks]
    exact h.recalculate hkeeps (hr r hid.symm) (hid.trans_lt (hlt.trans_eq hcount))

theorem congr (hlocks : k₂.locks = k₁.locks) (hwait : ∀ i, (k₂.ipc i).wait = (k₁.ipc i).wait) :
    Ending pending k ended lowered k₂ := by
  have hprio : k₂.priority = k₁.priority := congrArg Locks.priority hlocks
  refine ⟨h.inherited.congr hlocks hwait, ?_, hprio ▸ h.le, hprio ▸ h.same, fun x => ?_⟩
  · rw [hprio, hlocks]
    exact h.locks
  · obtain ⟨hstate, -, hend⟩ := wait_eq (hwait x)
    rw [hwait x, hstate, hend]
    exact h.wait x

end

/-- **`Endpoint::reply`** to a task that waits for it. -/
theorem replyTo (h : Inherited k pending) {x : Fin N} (hx : k.Owes r x)
    (hlt : (r : Nat) < k.locks.count) (hkeeps : k.Keeps (· = x) (· = r)) (msg : Option Buffer)
    (len : Nat) : Ending pending k (· = x) (· = r) (k.replyTo r x msg len) := by
  have hipc := (k.frame_copyMessage (k.ipc x).replyBuf msg (copyLen len (k.ipc x).maxLen)).1
  have hlocks := k.locks_copyMessage (k.ipc x).replyBuf msg (copyLen len (k.ipc x).maxLen)
  unfold Kernel.replyTo
  generalize k.copyMessage (k.ipc x).replyBuf msg (copyLen len (k.ipc x).maxLen) =
    c at hipc hlocks ⊢
  refine recalculate ?_ hkeeps rfl hlt
  refine (refl h).release rfl (by simpa using hlocks) ?_ (fun i hi => ?_) ?_
  · simp [ipc_modifyIpc]
  · simp [ipc_modifyIpc, hi, hipc]
  · rw [hx.1]
    exact nofun

theorem endWait (h : Ending pending k ended lowered k₁) (ht : ended t)
    (hwait : (k₁.ipc t).state ≠ .ready) (reason : IpcStatus) :
    Ending pending k ended lowered (k₁.endWait t reason) := by
  refine h.release ht (k₁.locks_endWait t reason) ?_ (fun i hi => ?_) hwait
  · rw [ipc_endWait, if_pos rfl]
    exact ⟨rfl, rfl⟩
  · rw [ipc_endWait, if_neg hi]

theorem cancelOne (h : Ending pending k ended lowered k₁) (ht : ended t)
    (hwait : (k₁.ipc t).state ≠ .ready) (reason : IpcStatus) :
    Ending pending k ended lowered (k₁.cancelOne t reason) := by
  refine (h.endWait ht hwait reason).congr rfl fun i => ?_
  rw [Kernel.cancelOne, Kernel.ipc_modifyIpc]
  split_ifs with hi
  · rw [hi]
    rfl
  · rfl

/-- **`Endpoint::cancel_waiter`.** -/
theorem cancelWaiter (h : Inherited k pending) (hwait : (k.ipc t).state ≠ .ready)
    (hkeeps : k.Keeps (· = t) fun r => k.Owes r t) (hk₁ : k.cancelWaiter e t reason = some k₁) :
    Ending pending k (· = t) (fun r => k.Owes r t) k₁ := by
  obtain ⟨next, q, next', q', hcases⟩ := cancelWaiter_cases hk₁
  have hqueues : Ending pending k (· = t) (fun r => k.Owes r t)
      ((k.setQueue e .send next q).setQueue e .recv next' q') := (refl h).congr rfl fun _ => rfl
  have hend := hqueues.endWait rfl hwait reason
  rcases hcases with rfl | ⟨hblocked, rfl⟩
  · exact hend
  · exact hend.recalculateById hkeeps fun r hid => ⟨hblocked, hid⟩

theorem drain {L : Waiting N} {side : Side} (h : Ending pending k ended lowered k₁)
    (hL : QueueInv k₁ L)
    (hkeeps : k.Keeps ended lowered) (hmem : ∀ t ∈ L e side, ended t ∧ (side = .recv → lowered t))
    {fuel : Nat} (hk₂ : drain e side reason fuel k₁ = some k₂) :
    Ending pending k ended lowered k₂ := by
  induction hl : L e side generalizing k₁ L fuel with
  | nil =>
    have hdeq := hL.toThreaded.dequeue_nil hl
    unfold drain at hk₂
    rw [← Prod.mk.eta (p := k₁.dequeue e side), hdeq] at hk₂
    cases hk₂
    exact h
  | cons t l ih =>
    obtain ⟨next, q, hdeq, hq⟩ := hL.toThreaded.dequeue_cons hl
    obtain ⟨hL', -⟩ := hL.cancelHead hl hq reason
    have htL : t ∈ L e side := by simp [hl]
    have hstate : (k₁.ipc t).state ≠ .ready := by
      rw [((hL.mem e side t).mp htL).1]
      cases side <;> decide
    have hlt : (t : Nat) < k.locks.count := by
      have hlt := (h.inherited.apart t hstate).2
      rwa [h.locks] at hlt
    have hrest : L.set e side l e side = l := Waiting.set_self ..
    have hmem' : ∀ x ∈ L.set e side l e side, ended x ∧ (side = .recv → lowered x) := by
      rw [hrest]
      intro x hx
      exact hmem x (by simp [hl, hx])
    have hqueue : Ending pending k ended lowered (k₁.setQueue e side next q) :=
      h.congr rfl fun _ => rfl
    have hone := hqueue.cancelOne (hmem t htL).1 hstate reason
    unfold drain at hk₂
    rw [hdeq] at hk₂
    cases fuel with
    | zero => cases hk₂
    | succ fuel =>
      cases side with
      | send => exact ih hone hL' hmem' hk₂ hrest
      | recv =>
        exact ih (hone.recalculate hkeeps ((hmem t htL).2 rfl) hlt)
          (hL'.congr rfl fun _ => ⟨rfl, rfl, rfl⟩) hmem' hk₂ hrest

/-- **`Endpoint::cancel_all`.** -/
theorem cancelAll (h : Inherited k pending) {L : Waiting N} (hL : QueueInv k L)
    (hkeeps : k.Keeps (fun x => (k.ipc x).waitingEndpoint = some e) fun r => k.Waits r e .recv ∨
      ∃ x, (k.ipc x).waitingEndpoint = some e ∧ k.Owes r x)
    (hk₁ : k.cancelAll e reason = some k₁) :
    Ending pending k (fun x => (k.ipc x).waitingEndpoint = some e)
      (fun r => k.Waits r e .recv ∨ ∃ x, (k.ipc x).waitingEndpoint = some e ∧ k.Owes r x) k₁ := by
  simp only [Kernel.cancelAll, bind_eq_bind, bind_eq_some_iff] at hk₁
  obtain ⟨ks, hsend, kr, hrecv, hk₁⟩ := hk₁
  obtain ⟨hLs, -⟩ := Run.of_exists (hL.drain e .send reason (hL.length_le e .send)) hsend
  obtain ⟨hLr, -⟩ := Run.of_exists (hLs.drain e .recv reason (hLs.length_le e .recv)) hrecv
  have h₁ := (refl h).drain hL hkeeps
    (fun t ht => ⟨((hL.mem e .send t).mp ht).2, fun h => by cases h⟩) hsend
  have h₂ := h₁.drain hLs hkeeps (fun t ht => by
    have ht : t ∈ L e .recv := by simpa [Waiting.set] using ht
    have hw := (hL.mem e .recv t).mp ht
    exact ⟨hw.2, fun _ => .inl hw⟩) hrecv
  have hempty : ∀ side, (L.set e .send []).set e .recv [] e side = [] := fun side => by
    cases side <;> simp [Waiting.set]
  rw [← some.inj hk₁]
  refine (Run.foldl_invariant (P := fun k' => Ending pending k
    (fun x => (k.ipc x).waitingEndpoint = some e) (fun r => k.Waits r e .recv ∨
      ∃ x, (k.ipc x).waitingEndpoint = some e ∧ k.Owes r x) k' ∧
      QueueInv k' ((L.set e .send []).set e .recv [])) (fun k' i _ hk' => ?_) ⟨h₂, hLr⟩).1
  refine ⟨?_, (hk'.2.cancelReplies hempty reason i).1⟩
  unfold cancelReplies
  split_ifs with hi
  · have hstate : (k'.ipc i).state ≠ .ready := fun hready => by
      cases (hk'.1.inherited.idle i hready).symm.trans hi.2
    have hwait : (k'.ipc i).wait = (k.ipc i).wait :=
      (hk'.1.wait i).resolve_right fun hended => hstate hended.2.1
    obtain ⟨hs, hid, hend⟩ := wait_eq hwait
    -- its queues are empty, so the task waits for a reply
    have hblocked : (k'.ipc i).state = .replyBlocked := by
      have hnot : ∀ side : Side, (k'.ipc i).state ≠ side.state := by
        intro side hside
        have hmem := (hk'.2.mem e side i).mpr ⟨hside, hi.2⟩
        simp [hempty] at hmem
      cases hstate' : (k'.ipc i).state with
      | ready => exact absurd hstate' hstate
      | replyBlocked => rfl
      | sending => exact absurd hstate' (hnot .send)
      | receiving => exact absurd hstate' (hnot .recv)
    refine (hk'.1.cancelOne (hend.symm.trans hi.2) hstate reason).recalculateById hkeeps
      fun r hr => .inr ⟨i, hend.symm.trans hi.2, hs.symm.trans hblocked, hid.symm.trans hr⟩
  · exact hk'.1

end Ending

/-! ## Runs -/

/-- A section of `lock` or `unlock`, or an operation of an endpoint. -/
inductive MixedOp (N : Nat)
  | mutex (op : MutexOp N)
  | endpoint (op : Op N)

namespace MixedOp

/-- The state after an operation. -/
def exec [NeZero N] (rounds : Nat) :
    MixedOp N → Kernel N × Pending N → Option (Kernel N × Pending N)
  | .mutex op, s => op.exec rounds s
  | .endpoint op, s => (op.exec (fun _ _ => none) s.1).map fun k => (k, s.2)

/-- A task that calls is in no other call, and a wait is cancelled at the endpoint the task waits
at. -/
def Enabled (s : Kernel N × Pending N) : MixedOp N → Prop
  | .mutex op => op.Enabled s ∧ ∀ t ∈ op.caller, (s.1.ipc t).state = .ready
  | .endpoint (.call _ t ..) | .endpoint (.receive _ t ..) | .endpoint (.reply t ..) =>
    ∀ i ∈ t, (i : Nat) < s.1.sched.taskCount ∧ (s.1.ipc i).state = .ready ∧ s.2 i = none
  | .endpoint (.cancelWaiter e t _) => (s.1.ipc t).waitingEndpoint = some e
  | .endpoint (.cancelAll ..) => True
  | .endpoint _ => False

/-- No mutex is taken from under a more urgent waiter. -/
def Undisputed (s : Kernel N × Pending N) : MixedOp N → Prop
  | .mutex op => op.Undisputed s
  | .endpoint _ => True

/-- No mutex is taken from under a more urgent waiter, and neither protocol undoes what the other
one still asks for. -/
def Compatible (s : Kernel N × Pending N) : MixedOp N → Prop
  | .mutex op => op.Undisputed s ∧ op.SparesReplies s
  | .endpoint op => op.SparesMutexes s.1

end MixedOp

/-- What goes on between the operations: neither mutexes nor waits are concerned. -/
structure Elsewhere (k k' : Kernel N) : Prop where
  locks : k'.locks = k.locks
  endpoints : k'.endpoints = k.endpoints
  ipc : ∀ t, (k'.ipc t).wait = (k.ipc t).wait ∧ (k'.ipc t).blockedNext = (k.ipc t).blockedNext

/-- A step of a run whose operations all meet the condition `ok`. -/
def MixedStep [NeZero N] (ok : Kernel N × Pending N → MixedOp N → Prop)
    (s s' : Kernel N × Pending N) : Prop :=
  (∃ op rounds, op.Enabled s ∧ ok s op ∧ op.exec rounds s = some s') ∨
    Elsewhere s.1 s'.1 ∧ s'.2 = s.2

/-- No mutex is held, and no task waits for one or is in an IPC operation. -/
structure AtRest (k : Kernel N) (pending : Pending N) : Prop where
  mutexes : Idle k pending
  ipc : ∀ t, (k.ipc t).state = .ready ∧ (k.ipc t).waitingEndpoint = none
  queues : ∀ e side, k.queue e side = ⟨none, none⟩

namespace Inherited

variable {k k' : Kernel N} {pending : Pending N}

theorem of_atRest (h : AtRest k pending) : Inherited k pending where
  cover := ⟨(LockInv.of_idle h.mutexes).toLockShape, (LockInv.of_idle h.mutexes).settled.covered⟩
  served _ x hx := nomatch (h.ipc x).1.symm.trans hx.1
  apart t ht := absurd (h.ipc t).1 ht
  idle t _ := (h.ipc t).2

/-- **The operations of an endpoint.** -/
theorem endpointOp [NeZero N] {L : Waiting N} (h : Inherited k pending)
    (hL : QueueInv k L) {op : Op N}
    (hop : (MixedOp.endpoint op).Enabled (k, pending)) (hspare : op.SparesMutexes k)
    (hexec : op.exec (fun _ _ => none) k = some k') :
    Inherited k' pending ∧ ∃ L', QueueInv k' L' := by
  cases op with
  | call e t =>
    obtain ⟨⟨k₁, st⟩, hk₁, rfl⟩ := map_eq_some_iff.mp hexec
    cases t with
    | none =>
      cases hk₁
      exact ⟨h, L, hL⟩
    | some t =>
      obtain ⟨hlt, hready, hpending⟩ := hop t rfl
      exact h.callFrom hL ⟨hpending, hlt⟩ hready hk₁
  | receive e t =>
    obtain ⟨⟨k₁, st⟩, hk₁, rfl⟩ := map_eq_some_iff.mp hexec
    cases t with
    | none =>
      cases hk₁
      exact ⟨h, L, hL⟩
    | some t =>
      obtain ⟨hlt, hready, hpending⟩ := hop t rfl
      exact h.receiveAt hL ⟨hpending, hlt⟩ hready hk₁
  | reply receiver id msg len =>
    have hk' : (k.reply receiver id msg len).1 = k' := some.inj hexec
    have hL' := hL.reply receiver id msg len
    rw [hk'] at hL'
    refine ⟨?_, L, hL'⟩
    rcases k.reply_cases receiver id msg len with ⟨st, -, heq⟩ | ⟨r, x, rfl, hx, hstate, hid, heq⟩
    · rw [heq] at hk'
      exact hk' ▸ h
    · rw [heq] at hk'
      obtain ⟨hlt, -, -⟩ := hop r rfl
      have hid' : ((k.sched.tasks r).id : Nat) = r := congrArg Fin.val (h.cover.slots r hlt)
      have howes : k.Owes r x := ⟨hstate, hid.trans hid'⟩
      rw [← hk']
      exact (Ending.replyTo h howes hlt (hspare x hx howes) msg len).inherited
  | cancelWaiter e t reason =>
    have hend : (k.ipc t).waitingEndpoint = some e := hop
    have hstate : (k.ipc t).state ≠ .ready := fun hready =>
      nomatch (h.idle t hready).symm.trans hend
    obtain ⟨L', hL', -⟩ := Run.of_exists (hL.cancelWaiter (fun _ _ => hL.endpoint_eq hend) reason)
      hexec
    exact ⟨(Ending.cancelWaiter h hstate hspare hexec).inherited, L', hL'⟩
  | cancelAll e reason =>
    obtain ⟨hL', -⟩ := Run.of_exists (hL.cancelAll e reason) hexec
    exact ⟨(Ending.cancelAll h hL hspare hexec).inherited, _, hL'⟩
  | _ => exact hop.elim

/-- **Every step keeps the invariant.** -/
theorem step [NeZero N] (hN : N ≤ 32) {s s' : Kernel N × Pending N}
    (h : Inherited s.1 s.2 ∧ ∃ L, QueueInv s.1 L) (hs : MixedStep MixedOp.Compatible s s') :
    Inherited s'.1 s'.2 ∧ ∃ L, QueueInv s'.1 L := by
  obtain ⟨hinv, L, hL⟩ := h
  rcases hs with ⟨op, rounds, hop, hok, hexec⟩ | ⟨hother, hpending⟩
  · cases op with
    | mutex op =>
      have hsame := SameEndpoints.mutexOp hexec
      refine ⟨hinv.mutexOp hN hop.1 hop.2 hok.1 hok.2 hexec, L,
        hL.congr hsame.endpoints fun i => ?_⟩
      rw [hsame.ipc]
      exact ⟨rfl, rfl, rfl⟩
    | endpoint op =>
      obtain ⟨k', hk', rfl⟩ := map_eq_some_iff.mp hexec
      exact hinv.endpointOp hL hop hok hk'
  · rw [hpending]
    refine ⟨hinv.congr hother.locks fun i => (hother.ipc i).1, L, hL.congr hother.endpoints ?_⟩
    intro i
    obtain ⟨hwait, hnext⟩ := hother.ipc i
    obtain ⟨hstate, -, hend⟩ := wait_eq hwait
    exact ⟨hnext, hstate, hend⟩

end Inherited

/-- **Mutexes and endpoints do not undo what the other ones ask for**, in every run in which a
recalculation drops no priority that the other protocol still asks for. -/
theorem protocols_compatible [NeZero N] (hN : N ≤ 32) {k₀ k : Kernel N}
    {pending₀ pending : Pending N} (h : AtRest k₀ pending₀)
    (hrun : ReflTransGen (MixedStep MixedOp.Compatible) (k₀, pending₀) (k, pending)) :
    k.BothInherit := by
  have hinv := Run.steps_invariant (P := fun s => Inherited s.1 s.2 ∧ ∃ L, QueueInv s.1 L)
    ⟨.of_atRest h, _, .empty (fun t => (h.ipc t).1) h.queues⟩ (fun _ _ => step hN) hrun
  exact hinv.1.both

/-! ## Runs by example -/

instance (s : Kernel N × Pending N) : DecidablePred (MixedOp.Enabled s) := by
  rintro (op | op)
  · dsimp only [MixedOp.Enabled]
    infer_instance
  · induction op using Op.casesOn <;> dsimp only [MixedOp.Enabled] <;> infer_instance

instance (s : Kernel N × Pending N) : DecidablePred (MixedOp.Undisputed s) := by
  intro op
  cases op <;> dsimp only [MixedOp.Undisputed] <;> infer_instance

/-- A server of priority `prio`, and a client and another task of priority 10. -/
def serverAndClient (prio : Nat) : Kernel 3 :=
  (((Kernel.boot.createTask true prio).1.createTask true 10).1.createTask true 10).1

theorem serverAndClient_atRest (prio : Nat) (hprio : prio = 1 ∨ prio = 10) :
    AtRest (serverAndClient prio) fun _ => none := by
  rcases hprio with rfl | rfl
  all_goals exact
    { mutexes :=
        { slots := fun i _ => by revert i; decide
          free := fun _ => ⟨rfl, rfl, rfl⟩
          held := by decide
          base := by decide
          pending := fun _ => rfl }
      ipc := by decide
      queues := fun _ side => by cases side <;> rfl }

/-- The server holds a mutex, and receives a message of its client. -/
def serving : List (MixedOp 3) :=
  [.mutex (.lock (some 0) lockCall),
   .endpoint (.call 0 (some 1) none 0 none 0 ipcTimeoutInfinite 0),
   .endpoint (.receive 0 (some 0) none 0 ipcTimeoutInfinite 0)]

/-- The third task waits for the mutex. -/
def contending : List (MixedOp 3) :=
  serving ++ [.mutex (.lock (some 2) lockCall), .mutex (.retry 2)]

def answer : MixedOp 3 := .endpoint (.reply (some 0) 1 none 0)

def giveBack : MixedOp 3 := .mutex (.unlock (some 0) 0)

/-- The state after some operations, with a bound that is large enough here. -/
def MixedOp.execAll (prio : Nat) (ops : List (MixedOp 3)) : Option (Kernel 3 × Pending 3) :=
  ops.foldlM (fun s op => op.exec 4 s) (serverAndClient prio, fun _ => none)

theorem reflTransGen_execAll {prio : Nat} {ops : List (MixedOp 3)} {s : Kernel 3 × Pending 3}
    (hok : Run.Allowed (fun op s => op.exec 4 s) (fun s (op : MixedOp 3) =>
      op.Enabled s ∧ op.Undisputed s) ops (serverAndClient prio, fun _ => none))
    (hs : MixedOp.execAll prio ops = some s) :
    ReflTransGen (MixedStep MixedOp.Undisputed) (serverAndClient prio, fun _ => none) s :=
  Run.reflTransGen_of_actions (fun _ _ op hop hexec => .inl ⟨op, 4, hop.1, hop.2, hexec⟩) hok hs

/-- The server replies while it holds the mutex, and is left less urgent than the task that waits
for the mutex; it gives the mutex back before it replies, and is left less urgent than its
client. -/
theorem inherited_lost :
    (∃ s s', ReflTransGen (MixedStep MixedOp.Undisputed) (serverAndClient 1, fun _ => none) s ∧
      answer.Enabled s ∧ answer.exec 4 s = some s' ∧ (s'.1.mutexes 0).owner = some 0 ∧
      (s'.1.sched.tasks 2).waitingOnMutex = some 0 ∧ s'.1.priority 0 < s'.1.priority 2) ∧
    ∃ s s', ReflTransGen (MixedStep MixedOp.Undisputed) (serverAndClient 1, fun _ => none) s ∧
      giveBack.Enabled s ∧ giveBack.exec 4 s = some s' ∧ s'.1.Owes 0 1 ∧
      s'.1.priority 0 < s'.1.priority 1 := by
  constructor
  · obtain ⟨s, hs, henabled, s', hs', hfacts⟩ : ∃ s ∈ MixedOp.execAll 1 contending,
        answer.Enabled s ∧ ∃ s' ∈ answer.exec 4 s, (s'.1.mutexes 0).owner = some 0 ∧
          (s'.1.sched.tasks 2).waitingOnMutex = some 0 ∧ s'.1.priority 0 < s'.1.priority 2 := by
      decide +kernel
    exact ⟨s, s', reflTransGen_execAll (by decide +kernel) hs, henabled, hs', hfacts⟩
  · obtain ⟨s, hs, henabled, s', hs', hfacts⟩ : ∃ s ∈ MixedOp.execAll 1 serving,
        giveBack.Enabled s ∧ ∃ s' ∈ giveBack.exec 4 s, s'.1.Owes 0 1 ∧
          s'.1.priority 0 < s'.1.priority 1 := by decide +kernel
    exact ⟨s, s', reflTransGen_execAll (by decide +kernel) hs, henabled, hs', hfacts⟩

/-- The base priority of every task that holds the first mutex, no other one being held, or owes a
reply is as urgent as anything that asks for it. -/
def Suffices (s : Kernel 3 × Pending 3) : Prop :=
  (∀ r, s.1.locks.held r = none ∨ s.1.locks.held r = some 0 ∧ (s.1.mutexes 0).nextHeld = none) ∧
    (∀ r, (s.1.mutexes 0).ceilingPrio ≤ s.1.locks.base r) ∧
    (∀ u, s.1.locks.waitingOn u = some 0 → ∀ r, s.1.priority u ≤ s.1.locks.base r) ∧
    ∀ r x, s.1.Owes r x → ∀ t, s.1.priority t ≤ s.1.locks.base r
  deriving Decidable

theorem Suffices.compatible {s : Kernel 3 × Pending 3} (h : Suffices s) (hinv : Inherited s.1 s.2)
    {op : MixedOp 3} (hop : op.Undisputed s) : op.Compatible s := by
  obtain ⟨hheld, hceil, hwait, howes⟩ := h
  have hfirst : ∀ r m, (s.1.mutexes m).owner = some r → m = 0 := by
    intro r m hm
    obtain ⟨l, hl, hmem⟩ := hinv.cover.held r
    have hml : m ∈ l := (hmem m).mpr hm
    rcases hheld r with hnone | ⟨hzero, hnext⟩
    · rw [hnone] at hl
      cases l with
      | nil => cases hml
      | cons => cases hl.1
    · rw [hzero] at hl
      have hone : l = [0] := hl.unique ⟨rfl, hnext⟩
      simpa [hone] using hml
  have hkeeps : ∀ ended lowered, s.1.Keeps ended lowered := by
    intro ended lowered r _ m hm p hp
    obtain rfl := hfirst r m hm
    rcases hp with rfl | ⟨u, hu, rfl⟩
    · exact .inl (hceil r)
    · exact .inl (hwait u hu r)
  cases op with
  | mutex op =>
    refine ⟨hop, ?_⟩
    cases op with
    | lock current call =>
      cases current with
      | none => trivial
      | some t =>
        intro _ y _ r hr
        right
        exact (howes r y hr t).trans ((covered_iff.mp hinv.cover.covered).1 r _ (.inl rfl))
    | retry t => exact fun _ _ _ y _ x hx => .inl (howes y x hx x)
    | unlock current m =>
      cases current with
      | none => trivial
      | some o => exact fun _ _ x hx => .inl (howes o x hx x)
  | endpoint op =>
    cases op with
    | reply receiver =>
      cases receiver with
      | none => trivial
      | some r => exact fun _ _ _ => hkeeps _ _
    | cancelWaiter => exact hkeeps _ _
    | cancelAll => exact hkeeps _ _
    | _ => trivial

/-- A server whose base priority is as high as the priority of the others can do both. -/
theorem protocols_compatible_server :
    ∃ k pending, MixedOp.execAll 10 (contending ++ [answer]) = some (k, pending) ∧
      (k.mutexes 0).owner = some 0 ∧ (k.sched.tasks 2).waitingOnMutex = some 0 ∧ k.BothInherit := by
  obtain ⟨⟨k, pending⟩, hs, hfacts⟩ : ∃ s ∈ MixedOp.execAll 10 (contending ++ [answer]),
      (s.1.mutexes 0).owner = some 0 ∧ (s.1.sched.tasks 2).waitingOnMutex = some 0 := by
    decide +kernel
  have hrest := serverAndClient_atRest 10 (.inr rfl)
  have hrun : ReflTransGen (MixedStep MixedOp.Compatible) (serverAndClient 10, fun _ => none)
      (k, pending) := by
    refine Run.reflTransGen_of_invariant (I := fun s => Inherited s.1 s.2 ∧ ∃ L, QueueInv s.1 L)
      (P := fun s op => op.Enabled s ∧ op.Undisputed s ∧ Suffices s) (fun s t op hI hop hexec => ?_)
      ⟨.of_atRest hrest, _, .empty (fun t => (hrest.ipc t).1) hrest.queues⟩ (by decide +kernel) hs
    have hstep : MixedStep MixedOp.Compatible s t :=
      .inl ⟨op, 4, hop.1, hop.2.2.compatible hI.1 hop.2.1, hexec⟩
    exact ⟨hstep, step (by decide) hI hstep⟩
  exact ⟨k, pending, hs, hfacts.1, hfacts.2, protocols_compatible (by decide) hrest hrun⟩

end AuroraOS
