import AuroraOS.CapCalls
import AuroraOS.MessageRuns

/-!
# Badges

The IPC system calls of `kernel/core/syscall_ipc.hpp` find the endpoint and the badge in a
capability of the caller. A badge is meant to tell a receiver which task a message is from. It does
so as long as the task cannot choose the badges of its own capabilities: `cap_mint`, and `cap_grant`
to oneself, write whatever badge they are given, so a task that holds an endpoint under one badge
can call it under any other.

A message is what a receiver finds: the endpoint, the sender's id and the badge. An inbox collects
the messages of a run; nothing depends on it.
-/

namespace AuroraOS

open Relation WaitQueue Kernel Option List Side Scheduler

variable {N : Nat}

/-! ## IPC system calls -/

/-- The label in a message's header, if the message is long enough to have one. -/
def Kernel.noteType (k : Kernel N) (t : Fin N) (msg : Option Buffer) (len : Nat) : Kernel N :=
  match msg with
  | none => k
  | some b =>
    if rawMessageSize ≤ len then
      k.modifyIpc t fun c => { c with msgType := firstWord (k.memory b) }
    else k

namespace CapState

variable (s : CapState N) (t : Fin N)

/-- The endpoint and the badge of a capability with the right an operation needs, or the status with
which the operation fails. The result is `none` where the code takes another object for an
endpoint. -/
def endpointOf (capSlot : Nat) (right : Right) :
    Option (CapState N × Except IpcStatus (EndpointId × Nat)) :=
  match s.capLookup (some t) capSlot with
  | (s, none) => some (s, .error .noPermission)
  | (s, some cap) =>
    if cap.type = .endpoint ∧ cap.rights.has right then
      match cap.object with
      | none => some (s, .error .invalid)
      | some (.endpoint e) => some (s, .ok (e, cap.badge))
      | some _ => none
    else some (s, .error .noPermission)

/-- `KernelIpc::sys_ipc_call`, up to the call of `schedule` with which a caller that has to wait
gives up the processor. -/
def sysIpcCall (capSlot : Nat) (msg : Option Buffer) (len : Nat) (replyBuf : Option Buffer)
    (maxReplyLen timeout : Nat) : Option (CapState N × IpcStatus) := do
  match ← s.endpointOf t capSlot .write with
  | (s, .error st) => return (s, st)
  | (s, .ok (e, badge)) =>
    let (k, st) ← s.kernel.call e (some t) msg len replyBuf maxReplyLen timeout badge
    if st = .wouldBlock then return (s.withKernel k, .wouldBlock)
    else
      let k := k.noteType t msg len
      return (s.withKernel k, (k.ipc t).status)

/-- `KernelIpc::sys_ipc_receive`, up to the call of `schedule`. -/
def sysIpcReceive (capSlot : Nat) (msgBuf : Option Buffer) (maxLen timeout labelFilter : Nat) :
    Option (CapState N × IpcStatus) := do
  match ← s.endpointOf t capSlot .read with
  | (s, .error st) => return (s, st)
  | (s, .ok (e, _)) =>
    let (k, st) ← s.kernel.receive e (some t) msgBuf maxLen timeout labelFilter
    if st = .wouldBlock then return (s.withKernel k, .wouldBlock)
    else
      let k := k.noteType t (k.ipc t).msgBuf (k.ipc t).msgLen
      return (s.withKernel k, (k.ipc t).status)

/-- `KernelIpc::sys_ipc_reply`, up to the call of `schedule`. -/
def sysIpcReply (senderId : Nat) (replyMsg : Option Buffer) (len : Nat) : CapState N × IpcStatus :=
  let r := s.kernel.reply (some t) senderId replyMsg len
  (s.withKernel r.1, r.2)

end CapState

/-! ## Messages that arrive -/

/-- A message as its receiver finds it. -/
structure Message where
  endpoint : EndpointId
  senderId : Nat
  badge : Nat
  deriving DecidableEq

/-- What the receiver `r` finds after an operation at an endpoint. -/
def Kernel.found (k : Kernel N) (r : Fin N) (e : EndpointId) : Message :=
  ⟨e, (k.ipc r).senderId, (k.ipc r).badge⟩

/-- The messages of the tasks whose wait in a receive ends well in a step from `k` to `k'`. -/
def Kernel.arrivals (k k' : Kernel N) : List Message :=
  (List.finRange N).filterMap fun r =>
    if (k.ipc r).state = .receiving ∧ (k'.ipc r).state = .ready ∧ (k'.ipc r).status = .ok then
      (k.ipc r).waitingEndpoint.map (k'.found r)
    else none

/-- The message of a receive of `t` that did not have to wait. -/
def CapState.fetched (s : CapState N) (t : Fin N) (capSlot : Nat) (r : CapState N × IpcStatus) :
    List Message :=
  match s.endpointOf t capSlot .read with
  | some (_, .ok (e, _)) =>
    if r.2 = .ok ∧ (r.1.kernel.ipc t).state = .ready then [r.1.kernel.found t e] else []
  | _ => []

theorem Kernel.mem_arrivals {k k' : Kernel N} {m : Message} :
    m ∈ k.arrivals k' ↔ ∃ r e, (k.ipc r).state = .receiving ∧
      (k.ipc r).waitingEndpoint = some e ∧ (k'.ipc r).state = .ready ∧
      (k'.ipc r).status = .ok ∧ m = k'.found r e := by
  unfold arrivals
  rw [mem_filterMap]
  constructor
  · rintro ⟨r, -, hr⟩
    split_ifs at hr with hstates
    obtain ⟨e, he, rfl⟩ := map_eq_some_iff.mp hr
    exact ⟨r, e, hstates.1, he, hstates.2.1, hstates.2.2, rfl⟩
  · rintro ⟨r, e, hr, he, hr', hok, rfl⟩
    refine ⟨r, mem_finRange r, ?_⟩
    rw [if_pos ⟨hr, hr', hok⟩, he]
    rfl

/-! ## Steps -/

/-- Nothing happens to the endpoints and to the IPC contexts. -/
structure SameIpc (k k' : Kernel N) : Prop where
  slots : k.Slots → k'.Slots
  count : k'.sched.taskCount = k.sched.taskCount
  endpoints : k'.endpoints = k.endpoints
  ipc : k'.ipc = k.ipc

/-- Another task gives `t` a capability to endpoint `e`. -/
def CapCall.Gives (t : Fin N) (e : EndpointId) (s : CapState N) (cur : Fin N) (call : CapCall) :
    Prop :=
  cur ≠ t ∧ ∃ src dst rights badge, call.Copies s cur src dst rights badge ∧
    s.mayCopy src rights ∧ (s.cspace src).type = .endpoint ∧
    (s.cspace src).object = some (.endpoint e) ∧ dst.1 = t

/-- Task `t` mints a capability to endpoint `e` for itself, or grants itself one, under another
badge than `b`. -/
def CapCall.Rebadges (t : Fin N) (e : EndpointId) (b : Nat) (s : CapState N) (cur : Fin N)
    (call : CapCall) : Prop :=
  cur = t ∧ (match call with
    | .capMint .. | .capGrant .. => True
    | _ => False) ∧
  ∃ src dst rights badge, call.Copies s cur src dst rights badge ∧
    s.mayCopy src rights ∧ (s.cspace src).type = .endpoint ∧
    (s.cspace src).object = some (.endpoint e) ∧ dst.1 = t ∧ badge ≠ b

/-- A step of a run with its inbox. Only a task in no IPC operation makes an IPC system call. -/
inductive BadgeStep [NeZero N] (ok : CapState N → Fin N → CapCall → Prop)
    (s : CapState N × List Message) : CapState N × List Message → Prop
  | capCall {s' : CapState N} {cur : Fin N} (hcur : s.1.kernel.currentTcb = some cur)
      (run : Handlers N) (hrun : ∀ h a b, run h a = some b → SameIpc a b) (allowed : Nat → Bool)
      (call : CapCall) (hok : ok s.1 cur call) (h : call.exec run allowed s.1 = some s') :
      BadgeStep ok s (s', s.1.kernel.arrivals s'.kernel ++ s.2)
  | ipcCall {r : CapState N × IpcStatus} {t : Fin N} (ht : (t : Nat) < s.1.kernel.sched.taskCount)
      (hready : (s.1.kernel.ipc t).state = .ready) {capSlot : Nat} {msg : Option Buffer} {len : Nat}
      {replyBuf : Option Buffer} {maxReplyLen timeout : Nat}
      (h : s.1.sysIpcCall t capSlot msg len replyBuf maxReplyLen timeout = some r) :
      BadgeStep ok s (r.1, s.1.kernel.arrivals r.1.kernel ++ s.2)
  | ipcReceive {r : CapState N × IpcStatus} {t : Fin N}
      (ht : (t : Nat) < s.1.kernel.sched.taskCount) (hready : (s.1.kernel.ipc t).state = .ready)
      {capSlot : Nat} {msgBuf : Option Buffer} {maxLen timeout labelFilter : Nat}
      (h : s.1.sysIpcReceive t capSlot msgBuf maxLen timeout labelFilter = some r) :
      BadgeStep ok s (r.1, s.1.fetched t capSlot r ++ (s.1.kernel.arrivals r.1.kernel ++ s.2))
  | ipcReply {t : Fin N} (senderId : Nat) (replyMsg : Option Buffer) (len : Nat) :
      BadgeStep ok s ((s.1.sysIpcReply t senderId replyMsg len).1,
        s.1.kernel.arrivals (s.1.sysIpcReply t senderId replyMsg len).1.kernel ++ s.2)
  | tick {k : Kernel N} (h : s.1.kernel.tickUpdate = some k) :
      BadgeStep ok s (s.1.withKernel k, s.1.kernel.arrivals k ++ s.2)
  | compensate {n : Nat} {k : Kernel N} (h : s.1.kernel.compensateTicks n = some k) :
      BadgeStep ok s (s.1.withKernel k, s.1.kernel.arrivals k ++ s.2)
  | background {k : Kernel N} (h : Background s.1.kernel k) :
      BadgeStep ok s (s.1.withKernel k, s.1.kernel.arrivals k ++ s.2)

/-! ## The invariant -/

/-- The queues are in order, and a call of `t` that waits at `e` does so under badge `b`. -/
structure Badged (t : Fin N) (e : EndpointId) (b : Nat) (k : Kernel N) : Prop where
  slots : k.Slots
  queues : ∃ L, QueueInv k L
  bounded : ∀ x, (k.ipc x).state ≠ .ready → (x : Nat) < k.sched.taskCount
  badge : k.Waits t e .send → (k.ipc t).badge = b

/-- Waits end badly if they end at all, and messages stay as they are. -/
structure Quietly (k k' : Kernel N) : Prop where
  badge : ∀ x, (k'.ipc x).badge = (k.ipc x).badge
  waits : ∀ x, ((k'.ipc x).state = (k.ipc x).state ∧ (k'.ipc x).status = (k.ipc x).status) ∨
    ((k'.ipc x).state = .ready ∧ (k'.ipc x).status ≠ .ok)
  places : ∀ x e side, k'.Waits x e side → k.Waits x e side

namespace Quietly

variable {k k' k'' : Kernel N}

theorem refl (k : Kernel N) : Quietly k k :=
  ⟨fun _ => rfl, fun _ => .inl ⟨rfl, rfl⟩, fun _ _ _ => id⟩

theorem trans (h : Quietly k k') (h' : Quietly k' k'') : Quietly k k'' where
  badge x := (h'.badge x).trans (h.badge x)
  waits x := by
    rcases h'.waits x with hsame | hready
    · rw [hsame.1, hsame.2]
      exact h.waits x
    · exact .inr hready
  places x e side hw := h.places x e side (h'.places x e side hw)

theorem of_ipc_eq (h : k'.ipc = k.ipc) : Quietly k k' := by
  refine ⟨fun x => ?_, fun x => .inl ?_, fun x e side hw => ?_⟩
  · rw [h]
  · rw [h]
    exact ⟨rfl, rfl⟩
  · rwa [Kernel.Waits, h] at hw

theorem of_releases {reason : IpcStatus} {L L' : Waiting N} (h : Releases reason k L k' L')
    (hreason : reason ≠ .ok) (hL : QueueInv k L) (hL' : QueueInv k' L') : Quietly k k' := by
  refine ⟨fun x => ?_, fun x => ?_, fun x e side hw => ?_⟩
  · show (k'.ipc x).message.badge = (k.ipc x).message.badge
    rw [h.message x]
  · rcases h.waits x with hsame | ⟨hready, hstatus⟩
    · exact .inl hsame
    · exact .inr ⟨hready, hstatus ▸ hreason⟩
  · exact (hL.mem e side x).mp ((h.lists e side).subset ((hL'.mem e side x).mpr hw))

theorem arrivals (h : Quietly k k') : k.arrivals k' = [] := by
  rw [eq_nil_iff_forall_not_mem]
  intro m hm
  obtain ⟨r, e, hr, -, hr', hok, -⟩ := mem_arrivals.mp hm
  rcases h.waits r with ⟨hstate, -⟩ | ⟨-, hstatus⟩
  · simp [hr, hr'] at hstate
  · exact hstatus hok

end Quietly

namespace Badged

variable {t : Fin N} {e : EndpointId} {b : Nat} {k k' : Kernel N}

theorem quietly (h : Badged t e b k) (hslots : k'.Slots)
    (hcount : k'.sched.taskCount = k.sched.taskCount) (hqueues : ∃ L, QueueInv k' L)
    (hq : Quietly k k') : Badged t e b k' where
  slots := hslots
  queues := hqueues
  bounded x hx := by
    rw [hcount]
    apply h.bounded x
    rcases hq.waits x with ⟨hstate, -⟩ | ⟨hready, -⟩
    · rw [← hstate]
      exact hx
    · exact absurd hready hx
  badge hw := by
    rw [hq.badge]
    exact h.badge (hq.places t e .send hw)

theorem sameIpc (h : Badged t e b k) (hs : SameIpc k k') : Badged t e b k' := by
  obtain ⟨L, hL⟩ := h.queues
  refine h.quietly (hs.slots h.slots) hs.count ⟨L, hL.congr hs.endpoints fun x => ?_⟩
    (.of_ipc_eq hs.ipc)
  rw [hs.ipc]
  exact ⟨rfl, rfl, rfl⟩

/-! ### The loss of references -/

theorem withdrawal (h : Badged t e b k) (hw : Withdrawal k k') :
    Badged t e b k' ∧ Quietly k k' := by
  obtain ⟨L, hL⟩ := h.queues
  cases hw with
  | @cancelWaiter _ e' u hwait hk' =>
    obtain ⟨L', hL', hrel⟩ :=
      Run.of_exists (hL.cancelWaiter (fun _ _ => hL.endpoint_eq hwait) .noPermission) hk'
    have hq := Quietly.of_releases hrel (by decide) hL hL'
    have hmoves : k.Moves k' := (Calls.cancelWaiter hk').moves
    exact ⟨h.quietly (h.slots.moves hmoves) hmoves.fixed.1 ⟨L', hL'⟩ hq, hq⟩
  | @cancelAll _ e' hk' =>
    obtain ⟨hL', hrel⟩ := Run.of_exists (hL.cancelAll e' .receiverDead) hk'
    have hq := Quietly.of_releases hrel (by decide) hL hL'
    have hmoves : k.Moves k' := (Calls.cancelAll hk').moves
    exact ⟨h.quietly (h.slots.moves hmoves) hmoves.fixed.1 ⟨_, hL'⟩ hq, hq⟩
  | freeTask u =>
    have hsame : SameIpc k (k.freeTask (some u)) := by
      refine ⟨fun hslots i hi => ?_, k.sched.taskCount_freeTask u, rfl, rfl⟩
      have hid := congrArg SchedulerContext.id (k.sched.unlinked_freeTask u i)
      have hcount : (i : Nat) < k.sched.taskCount := k.sched.taskCount_freeTask u ▸ hi
      refine (Eq.trans hid ?_).trans (hslots i hcount)
      split_ifs <;> rfl
    exact ⟨h.sameIpc hsame, .of_ipc_eq hsame.ipc⟩

theorem withdrawals (h : Badged t e b k) (hw : ReflTransGen Withdrawal k k') :
    Badged t e b k' ∧ Quietly k k' := by
  induction hw with
  | refl => exact ⟨h, .refl k⟩
  | tail _ hlast ih =>
    obtain ⟨hlast, hq⟩ := ih.1.withdrawal hlast
    exact ⟨hlast, ih.2.trans hq⟩

/-! ### Calls and receives -/

/-- Every message that arrives from `t` at `e` in a step carries badge `b`. -/
def Arrives (t : Fin N) (e : EndpointId) (b : Nat) (l : List Message) : Prop :=
  ∀ m ∈ l, m.endpoint = e → m.senderId = t → m.badge = b

variable (h : Badged t e b k)

include h

/-- The rule for a step that concerns the tasks in `A` only. -/
theorem change (A : Fin N → Prop) (hmoves : k.Moves k') (hqueues : ∃ L, QueueInv k' L)
    (hbounded : ∀ x, A x → (x : Nat) < k.sched.taskCount)
    (hother : ∀ x, ¬ A x → (k'.ipc x).state = (k.ipc x).state ∧
      (k'.ipc x).waitingEndpoint = (k.ipc x).waitingEndpoint ∧
      (k'.ipc x).badge = (k.ipc x).badge) (hwaits : A t → k'.Waits t e .send → (k'.ipc t).badge = b)
    (hgets : ∀ r, A r → k.Waits r e .recv → (k'.ipc r).state = .ready →
      (k'.ipc r).senderId = t → (k'.ipc r).badge = b) :
    Badged t e b k' ∧ Arrives t e b (k.arrivals k') := by
  refine ⟨⟨h.slots.moves hmoves, hqueues, fun x hx => ?_, fun hw => ?_⟩, fun m hm => ?_⟩
  · rw [hmoves.fixed.1]
    by_cases hA : A x
    · exact hbounded x hA
    · apply h.bounded
      rw [← (hother x hA).1]
      exact hx
  · by_cases ht : A t
    · exact hwaits ht hw
    · obtain ⟨hstate, hwait, hbadge⟩ := hother t ht
      unfold Kernel.Waits at hw
      rw [hstate, hwait] at hw
      rw [hbadge]
      exact h.badge hw
  · obtain ⟨r, e', hr, he', hr', -, rfl⟩ := mem_arrivals.mp hm
    intro he hsender
    obtain rfl : e' = e := he
    by_cases hA : A r
    · exact hgets r hA ⟨hr, he'⟩ hr' hsender
    · simpa [hr, hr'] using (hother r hA).1

/-- A call under badge `b`, where `t` makes it at `e`. -/
theorem callFrom {u : Fin N} (hu : (u : Nat) < k.sched.taskCount)
    (hready : (k.ipc u).state = .ready) {e' : EndpointId} {msg : Option Buffer} {len : Nat}
    {rep : Option Buffer} {maxRep timeout badge : Nat} {st : IpcStatus}
    (hbadge : u = t → e' = e → badge = b)
    (hk' : k.callFrom e' u msg len rep maxRep timeout badge = some (k', st)) :
    Badged t e b k' ∧ Arrives t e b (k.arrivals k') := by
  obtain ⟨L, hL⟩ := h.queues
  obtain ⟨L', hout, hL'⟩ := Run.of_exists_pair (hL.callFrom hready) hk'
  have hmoves := (Calls.callFrom hk').moves
  have hnot : ¬ k.Waits u e .recv := fun hw => hw.not_ready hready
  set k₀ := k.prepareCall u msg len rep maxRep badge with hk₀
  have hself : (k₀.ipc u).badge = badge := by rw [ipc_prepareCall_self]
  have hother : ∀ x, x ≠ u → k₀.ipc x = k.ipc x := fun x =>
    k.ipc_prepareCall_of_ne msg len rep maxRep badge
  cases hout with
  | @delivered r next q hfind =>
    have hr : k.Waits r e' .recv := (hL.mem _ _ _).mp (mem_of_find?_eq_some hfind)
    have hne : u ≠ r := by
      rintro rfl
      exact hr.not_ready hready
    refine h.change (fun x => x = u ∨ x = r) hmoves ⟨_, hL'⟩ ?_ (fun x hx => ?_)
      (fun ht hw => ?_) fun x hx hw hx' hsender => ?_
    · rintro x (rfl | rfl)
      · exact hu
      · exact h.bounded x hr.not_ready
    · obtain ⟨hxu, hxr⟩ := not_or.mp hx
      simp [ipc_callReceiver, ipc_deliver _ hne, hxu, hxr, hother x hxu]
    · -- neither of the two is left in a queue
      have hstate := hw.1
      rw [ipc_callReceiver] at hstate
      rcases ht with rfl | rfl
      · by_cases hnb : timeout = ipcNonblock <;> simp [hnb, state] at hstate
      · simp [hne.symm, ipc_deliver _ hne, state] at hstate
    · rcases hx with rfl | rfl
      · exact absurd hw hnot
      · simp only [ipc_callReceiver, ipc_deliver _ hne, hne.symm] at hsender ⊢
        refine hbadge (Fin.ext ?_) (some.inj (hr.2.symm.trans hw.2))
        rw [← hsender]
        exact (congrArg Fin.val (h.slots u hu)).symm
  | @refused next q _ hfind =>
    refine h.change (fun x => x = u) hmoves ⟨_, hL'⟩ (fun x hx => hx ▸ hu) (fun x hx => ?_)
      (fun ht hw => ?_) fun x hx hw => absurd (hx ▸ hw) hnot
    · simp [ipc_refuse, hx, hother x hx]
    · simp [Kernel.Waits, ipc_refuse, ht] at hw
  | @queued next next' q q' _ hfind =>
    refine h.change (fun x => x = u) hmoves ⟨_, hL'⟩ (fun x hx => hx ▸ hu) (fun x hx => ?_)
      (fun ht hw => ?_) fun x hx hw => absurd (hx ▸ hw) hnot
    · simp [ipc_parked, hx, hother x hx]
    · subst ht
      have hwait := hw.2
      rw [ipc_parked, if_pos rfl] at hwait ⊢
      exact hself.trans (hbadge rfl (some.inj hwait))

/-- A receive finds the badge under which `t` waits. -/
theorem receiveAt {u : Fin N} (hu : (u : Nat) < k.sched.taskCount)
    (hready : (k.ipc u).state = .ready) {e' : EndpointId} {buf : Option Buffer}
    {maxLen timeout filter : Nat} {st : IpcStatus}
    (hk' : k.receiveAt e' u buf maxLen timeout filter = some (k', st)) :
    (Badged t e b k' ∧ Arrives t e b (k.arrivals k')) ∧
      ((k'.ipc u).state = .ready → st ≠ .wouldBlock → Arrives t e b [k'.found u e']) := by
  obtain ⟨L, hL⟩ := h.queues
  obtain ⟨L', hout, hL'⟩ := Run.of_exists_pair (hL.receiveAt hready) hk'
  have hmoves := (Calls.receiveAt hk').moves
  have hnot : ¬ k.Waits u e .recv := fun hw => hw.not_ready hready
  set k₀ := k.prepareReceive u buf maxLen filter with hk₀
  have hother : ∀ x, x ≠ u → k₀.ipc x = k.ipc x := fun x =>
    k.ipc_prepareReceive_of_ne buf maxLen filter
  cases hout with
  | @delivered x next q hfind =>
    have hx : k.Waits x e' .send := (hL.mem _ _ _).mp (mem_of_find?_eq_some hfind)
    have hne : x ≠ u := by
      rintro rfl
      exact hx.not_ready hready
    have hxcount : (x : Nat) < k.sched.taskCount := h.bounded x hx.not_ready
    refine ⟨h.change (fun y => y = u ∨ y = x) hmoves ⟨_, hL'⟩ ?_ (fun y hy => ?_)
      (fun ht hw => ?_) fun y hy hw => ?_, fun _ _ m hm he hsender => ?_⟩
    · rintro y (rfl | rfl)
      · exact hu
      · exact hxcount
    · obtain ⟨hyu, hyx⟩ := not_or.mp hy
      simp [ipc_receiveFrom, ipc_deliver _ hne, hyx, hyu, hother y hyu]
    · have hstate := hw.1
      rw [ipc_receiveFrom] at hstate
      rcases ht with rfl | rfl
      · simp [hne.symm, ipc_deliver _ hne, state] at hstate
      · simp [state] at hstate
    · rcases hy with rfl | rfl
      · exact absurd hw hnot
      · cases hx.1.symm.trans hw.1
    · obtain rfl := mem_singleton.mp hm
      obtain rfl : e' = e := he
      simp only [found, ipc_receiveFrom, ipc_deliver _ hne, hne.symm,
        ipc_setQueue, hother x hne] at hsender ⊢
      obtain rfl : x = t := by
        apply Fin.ext
        rw [← hsender]
        exact (congrArg Fin.val (h.slots x hxcount)).symm
      exact h.badge hx
  | @refused next q _ hfind =>
    refine ⟨h.change (fun x => x = u) hmoves ⟨_, hL'⟩ (fun x hx => hx ▸ hu) (fun x hx => ?_)
      (fun ht hw => ?_) fun x hx hw => absurd (hx ▸ hw) hnot, fun _ hst => absurd rfl hst⟩
    · simp [ipc_refuse, hx, hother x hx]
    · simp [Kernel.Waits, ipc_refuse, ht] at hw
  | @queued next next' q q' _ hfind =>
    refine ⟨h.change (fun x => x = u) hmoves ⟨_, hL'⟩ (fun x hx => hx ▸ hu) (fun x hx => ?_)
      (fun ht hw => ?_) fun x hx hw => absurd (hx ▸ hw) hnot, fun hstate => ?_⟩
    · simp [ipc_parked, hx, hother x hx]
    · simp [Kernel.Waits, ipc_parked, ht, state] at hw
    · simp [ipc_parked, state] at hstate

theorem reply (receiver : Option (Fin N)) (id : Nat) (msg : Option Buffer) (len : Nat) :
    Badged t e b (k.reply receiver id msg len).1 ∧
      Arrives t e b (k.arrivals (k.reply receiver id msg len).1) := by
  obtain ⟨L, hL⟩ := h.queues
  rcases k.reply_cases receiver id msg len with ⟨_, -, heq⟩ | ⟨r, x, -, -, hx, -, heq⟩
  · rw [heq]
    exact ⟨h, by simp [(Quietly.refl k).arrivals, Arrives]⟩
  · rw [heq]
    refine h.change (fun y => y = x) (Calls.replyTo k r x msg len).moves
      ⟨L, hL.replyTo hx r msg len⟩
      (fun y hy => ?_) (fun y hy => ?_) (fun ht hw => ?_) fun y hy hw => ?_
    · exact hy ▸ h.bounded x (by simp [hx])
    · simp [ipc_replyTo, hy]
    · simp [Kernel.Waits, ipc_replyTo, ht] at hw
    · simp [Kernel.Waits, hy, hx, state] at hw

/-! ### Everything else -/

theorem forTasks {c : Bool} {body : Kernel N → Fin N → Option (Kernel N)}
    (hbody : ∀ {k k' : Kernel N} {i : Fin N}, body k i = some k' → Kernel.TaskTick c k i k')
    (hmoves : k.Moves k') (hk' : k.forTasks body = some k') : Badged t e b k' ∧ Quietly k k' := by
  obtain ⟨L, hL⟩ := h.queues
  obtain ⟨L', hL', hrel⟩ := hL.forTasks hbody hk'
  have hq := Quietly.of_releases hrel (by decide) hL hL'
  exact ⟨h.quietly (h.slots.moves hmoves) hmoves.fixed.1 ⟨L', hL'⟩ hq, hq⟩

theorem background (hb : Background k k') : Badged t e b k' ∧ Arrives t e b (k.arrivals k') := by
  obtain ⟨L, hL⟩ := h.queues
  have hwaiting : ∀ x, (k'.ipc x).state ≠ .ready → (k.ipc x).state ≠ .ready :=
    fun x hx hidle => hx (hb.idle x hidle)
  refine ⟨⟨hb.slots, ⟨L, hb.queueInv hL⟩, fun x hx => ?_, fun hw => ?_⟩, fun m hm => ?_⟩
  · exact Nat.lt_of_lt_of_le (h.bounded x (hwaiting x hx)) hb.count
  · obtain ⟨v, p, hctx⟩ := hb.waiting t (hwaiting t hw.not_ready)
    unfold Kernel.Waits at hw
    rw [hctx] at hw ⊢
    exact h.badge hw
  · obtain ⟨r, e', hr, -, hr', -⟩ := mem_arrivals.mp hm
    obtain ⟨v, p, hctx⟩ := hb.waiting r (by simp [hr])
    simp [hctx, hr] at hr'

end Badged

/-! ## Scheduling leaves IPC alone -/

namespace SameIpc

variable {k k' k'' : Kernel N}

theorem refl (k : Kernel N) : SameIpc k k := ⟨id, rfl, rfl, rfl⟩

theorem trans (h : SameIpc k k') (h' : SameIpc k' k'') : SameIpc k k'' :=
  ⟨h'.slots ∘ h.slots, h'.count.trans h.count, h'.endpoints.trans h.endpoints, h'.ipc.trans h.ipc⟩

theorem setTaskState (k : Kernel N) (id : Nat) (st : TaskState) :
    SameIpc k (k.setTaskState id st) := by
  refine ⟨fun hslots i hi => ?_, ?_, rfl, rfl⟩
  · simp only [Kernel.setTaskState, taskCount_setTaskState] at hi
    simpa [Kernel.setTaskState] using hslots i hi
  · simp [Kernel.setTaskState]

theorem schedule [NeZero N] {run : Handlers N} {allowed : Nat → Bool} {switched : Bool}
    (hrun : ∀ h a b, run h a = some b → SameIpc a b)
    (h : k.schedule (fun h sig => run (h, sig)) allowed = some (k', switched)) : SameIpc k k' := by
  refine schedule_invariant (fun k₁ i f h₁ => ?_)
    (fun handler sig a b hab ha => ha.trans (hrun (handler, sig) a b hab)) (fun k₁ i h₁ => ?_)
    (fun k₁ s cur next hrot h₁ => ?_) h (refl k)
  · exact ⟨h₁.slots, h₁.count, h₁.endpoints, h₁.ipc⟩
  · exact h₁.trans (setTaskState k₁ _ _)
  · refine h₁.trans ⟨fun hslots i hi => ?_, taskCount_rotate hrot, rfl, rfl⟩
    have hcount : (i : Nat) < k₁.sched.taskCount := taskCount_rotate hrot ▸ hi
    rw [tasks_rotate hrot]
    exact hslots i hcount

end SameIpc

theorem Badged.capCall [NeZero N] {t : Fin N} {e : EndpointId} {b : Nat} {s s' : CapState N}
    (h : Badged t e b s.kernel) {run : Handlers N}
    (hrun : ∀ h a b, run h a = some b → SameIpc a b) {allowed : Nat → Bool} {cur : Fin N}
    {call : CapCall} (hcall : CallResult run allowed s cur call s') :
    Badged t e b s'.kernel ∧ Quietly s.kernel s'.kernel := by
  cases hcall with
  | done heffect => exact h.withdrawals heffect.kernel
  | failed heffect hs' =>
    obtain ⟨h₁, hq⟩ := h.withdrawals heffect.kernel
    obtain ⟨⟨k, switched⟩, hk, rfl⟩ := map_eq_some_iff.mp hs'
    have hsame := (SameIpc.setTaskState _ _ _).trans (SameIpc.schedule hrun hk)
    exact ⟨h₁.sameIpc hsame, hq.trans (.of_ipc_eq hsame.ipc)⟩

/-! ## The system calls keep badges -/

namespace Kernel

variable {t : Fin N} {msg : Option Buffer} {len : Nat}

theorem ipc_noteType (k : Kernel N) (t : Fin N) (msg : Option Buffer) (len : Nat) (x : Fin N) :
    ∃ label, (k.noteType t msg len).ipc x = { k.ipc x with msgType := label } := by
  unfold noteType
  split
  · exact ⟨_, rfl⟩
  · simp only [apply_ite ipc, ite_apply, ipc_modifyIpc]
    split_ifs with _ hx
    · exact hx ▸ ⟨_, rfl⟩
    all_goals exact ⟨_, rfl⟩

theorem rest_noteType (k : Kernel N) (t : Fin N) (msg : Option Buffer) (len : Nat) :
    (k.noteType t msg len).sched = k.sched ∧ (k.noteType t msg len).endpoints = k.endpoints := by
  unfold noteType
  split
  · exact ⟨rfl, rfl⟩
  · split_ifs <;> exact ⟨rfl, rfl⟩

theorem found_noteType (k : Kernel N) (t : Fin N) (msg : Option Buffer) (len : Nat) (r : Fin N)
    (e : EndpointId) : (k.noteType t msg len).found r e = k.found r e := by
  obtain ⟨label, hctx⟩ := k.ipc_noteType t msg len r
  unfold found
  rw [hctx]

theorem arrivals_noteType (k k' : Kernel N) (t : Fin N) (msg : Option Buffer) (len : Nat) :
    k.arrivals (k'.noteType t msg len) = k.arrivals k' := by
  unfold arrivals
  congr 1
  funext r
  obtain ⟨label, hctx⟩ := k'.ipc_noteType t msg len r
  have hfound : (k'.noteType t msg len).found r = k'.found r :=
    funext fun e => k'.found_noteType t msg len r e
  rw [hctx, hfound]

end Kernel

namespace Badged

variable {t : Fin N} {e : EndpointId} {b : Nat} {k : Kernel N}

theorem noteType (h : Badged t e b k) (u : Fin N) (msg : Option Buffer) (len : Nat) :
    Badged t e b (k.noteType u msg len) := by
  obtain ⟨L, hL⟩ := h.queues
  obtain ⟨hsched, hends⟩ := k.rest_noteType u msg len
  refine ⟨?_, ⟨L, hL.congr hends fun x => ?_⟩, fun x hx => ?_, fun hw => ?_⟩
  · unfold Kernel.Slots
    rw [hsched]
    exact h.slots
  · obtain ⟨label, hctx⟩ := k.ipc_noteType u msg len x
    rw [hctx]
    exact ⟨rfl, rfl, rfl⟩
  · obtain ⟨label, hctx⟩ := k.ipc_noteType u msg len x
    rw [hctx] at hx
    rw [hsched]
    exact h.bounded x hx
  · obtain ⟨label, hctx⟩ := k.ipc_noteType u msg len t
    unfold Kernel.Waits at hw
    rw [hctx] at hw ⊢
    exact h.badge hw

end Badged

/-- Task `t` holds endpoint `e` under no badge but `b`. -/
def CapState.HoldsUnder (t : Fin N) (e : EndpointId) (b : Nat) (s : CapState N) : Prop :=
  ∀ i, (s.cspace (t, i)).type = .endpoint → (s.cspace (t, i)).object = some (.endpoint e) →
    (s.cspace (t, i)).badge = b
  deriving Decidable

/-- The endpoint and the badge of an operation are those of a capability of its caller. -/
theorem CapState.endpointOf_cases {s : CapState N} {t : Fin N} {capSlot : Nat} {right : Right}
    {r : CapState N × Except IpcStatus (EndpointId × Nat)}
    (h : s.endpointOf t capSlot right = some r) :
    r.1.kernel = s.kernel ∧ r.1.cspace = s.cspace ∧ ∀ e badge, r.2 = .ok (e, badge) →
      ∃ i, (s.cspace (t, i)).type = .endpoint ∧ (s.cspace (t, i)).object = some (.endpoint e) ∧
        (s.cspace (t, i)).badge = badge := by
  have hsync : ∀ p, (s.syncBit p).kernel = s.kernel ∧ (s.syncBit p).cspace = s.cspace := by
    intro p
    unfold syncBit
    split_ifs
    · exact ⟨rfl, rfl⟩
    · exact ⟨rfl, rfl⟩
  have hlook : (s.capLookup (some t) capSlot).1.kernel = s.kernel ∧
      (s.capLookup (some t) capSlot).1.cspace = s.cspace ∧
      ∀ cap, (s.capLookup (some t) capSlot).2 = some cap → ∃ i, cap = s.cspace (t, i) := by
    rcases s.capLookup_cases (some t) capSlot with heq | ⟨p, hp, heq, hcap⟩
    · rw [heq]
      exact ⟨rfl, rfl, fun _ hcap => nomatch hcap⟩
    · rw [heq]
      refine ⟨(hsync p).1, (hsync p).2, fun cap hsome => ⟨p.2, ?_⟩⟩
      rw [(hcap cap hsome).1, ← fst_of_place hp]
  unfold endpointOf at h
  generalize s.capLookup (some t) capSlot = found at h hlook
  obtain ⟨s₁, cap⟩ := found
  cases cap with
  | none =>
    rw [← some.inj h]
    exact ⟨hlook.1, hlook.2.1, fun _ _ hok => nomatch hok⟩
  | some cap =>
    obtain ⟨i, hi⟩ := hlook.2.2 cap rfl
    dsimp only at h
    split_ifs at h with hright
    · cases hobject : cap.object with
      | none =>
        rw [hobject] at h
        rw [← some.inj h]
        exact ⟨hlook.1, hlook.2.1, fun _ _ hok => nomatch hok⟩
      | some o =>
        rw [hobject] at h
        cases o with
        | endpoint e =>
          rw [← some.inj h]
          refine ⟨hlook.1, hlook.2.1, fun e' badge hok => ⟨i, ?_⟩⟩
          obtain ⟨rfl, rfl⟩ := Prod.mk.inj (Except.ok.inj hok)
          rw [← hi]
          exact ⟨hright.1, hobject, rfl⟩
        | _ => cases h
    · rw [← some.inj h]
      exact ⟨hlook.1, hlook.2.1, fun _ _ hok => nomatch hok⟩

section Runs

open CapState Badged

variable {t : Fin N} {e : EndpointId} {b : Nat} {s s' : CapState N} {r : CapState N × IpcStatus}

theorem CapState.sysIpcCall_badged (h : Badged t e b s.kernel) (hcaps : s.HoldsUnder t e b)
    {u : Fin N} (hu : (u : Nat) < s.kernel.sched.taskCount)
    (hready : (s.kernel.ipc u).state = .ready) {capSlot : Nat} {msg : Option Buffer} {len : Nat}
    {rep : Option Buffer} {maxRep timeout : Nat}
    (hr : s.sysIpcCall u capSlot msg len rep maxRep timeout = some r) :
    (Badged t e b r.1.kernel ∧ Arrives t e b (s.kernel.arrivals r.1.kernel)) ∧
      r.1.cspace = s.cspace := by
  unfold sysIpcCall at hr
  simp only [bind_eq_bind, bind_eq_some_iff] at hr
  obtain ⟨⟨s₁, found⟩, hfound, hr⟩ := hr
  obtain ⟨hkernel, hcspace, hok⟩ := endpointOf_cases hfound
  cases found with
  | error st =>
    rw [← some.inj hr]
    refine ⟨?_, hcspace⟩
    rw [hkernel]
    exact ⟨h, by simp [(Quietly.refl s.kernel).arrivals, Arrives]⟩
  | ok target =>
    obtain ⟨e', badge⟩ := target
    obtain ⟨i, htype, hobject, hb⟩ := hok e' badge rfl
    obtain ⟨⟨k, st⟩, hk, hr⟩ := bind_eq_some_iff.mp hr
    rw [hkernel] at hk
    have hcall := h.callFrom hu hready (fun hut he => by
      subst hut he
      rw [← hb]
      exact hcaps i htype hobject) hk
    split_ifs at hr
    · rw [← some.inj hr]
      exact ⟨hcall, hcspace⟩
    · rw [← some.inj hr]
      refine ⟨⟨hcall.1.noteType u msg len, ?_⟩, hcspace⟩
      show Arrives t e b (s.kernel.arrivals (k.noteType u msg len))
      rw [arrivals_noteType]
      exact hcall.2

theorem CapState.sysIpcReceive_badged (h : Badged t e b s.kernel) {u : Fin N}
    (hu : (u : Nat) < s.kernel.sched.taskCount) (hready : (s.kernel.ipc u).state = .ready)
    {capSlot : Nat} {buf : Option Buffer} {maxLen timeout filter : Nat}
    (hr : s.sysIpcReceive u capSlot buf maxLen timeout filter = some r) :
    ((Badged t e b r.1.kernel ∧ Arrives t e b (s.kernel.arrivals r.1.kernel)) ∧
      Arrives t e b (s.fetched u capSlot r)) ∧ r.1.cspace = s.cspace := by
  unfold sysIpcReceive at hr
  simp only [bind_eq_bind, bind_eq_some_iff] at hr
  obtain ⟨⟨s₁, found⟩, hfound, hr⟩ := hr
  obtain ⟨hkernel, hcspace, hok⟩ := endpointOf_cases hfound
  unfold fetched
  rw [hfound]
  cases found with
  | error st =>
    rw [← some.inj hr]
    refine ⟨⟨?_, by simp [Arrives]⟩, hcspace⟩
    rw [hkernel]
    exact ⟨h, by simp [(Quietly.refl s.kernel).arrivals, Arrives]⟩
  | ok target =>
    obtain ⟨e', badge⟩ := target
    obtain ⟨⟨k, st⟩, hk, hr⟩ := bind_eq_some_iff.mp hr
    rw [hkernel] at hk
    obtain ⟨hrecv, hgot⟩ := h.receiveAt hu hready hk
    split_ifs at hr with hst
    · rw [← some.inj hr]
      exact ⟨⟨hrecv, by simp [Arrives]⟩, hcspace⟩
    · rw [← some.inj hr]
      refine ⟨⟨⟨hrecv.1.noteType u _ _, ?_⟩, ?_⟩, hcspace⟩
      · show Arrives t e b (s.kernel.arrivals (k.noteType u _ _))
        rw [arrivals_noteType]
        exact hrecv.2
      · split_ifs with hdone
        · show Arrives t e b [(k.noteType u _ _).found u e']
          rw [found_noteType]
          obtain ⟨label, hctx⟩ := k.ipc_noteType u (k.ipc u).msgBuf (k.ipc u).msgLen u
          have hstate : ((k.noteType u (k.ipc u).msgBuf (k.ipc u).msgLen).ipc u).state = .ready :=
            hdone.2
          rw [hctx] at hstate
          exact hgot hstate hst
        · simp [Arrives]

/-- A capability call leaves `t` the endpoint under badge `b`, if nobody gives it the endpoint and
it does not choose another badge itself. -/
theorem SlotEffect.badge {cur : Fin N} {call : CapCall} {i : Fin maxCspaceSlots}
    {cap : Capability N} (h : SlotEffect s cur call (t, i) cap) (hcaps : s.HoldsUnder t e b)
    (hgives : ¬ call.Gives t e s cur) (hre : ¬ call.Rebadges t e b s cur)
    (htype : cap.type = .endpoint) (hobject : cap.object = some (.endpoint e)) : cap.badge = b := by
  cases h with
  | kept => exact hcaps i htype hobject
  | lost _ hnone =>
    rw [hnone] at hobject
    cases hobject
  | @copied src rights badge hcopies hmay =>
    have hcur : cur = t := by
      by_contra hne
      exact hgives ⟨hne, src, _, rights, badge, hcopies, hmay, htype, hobject, rfl⟩
    by_contra hbadge
    cases call with
    | capDerive =>
      obtain ⟨hsrc, -, -, rfl⟩ := hcopies
      have hown : src = (t, src.2) := by rw [← hcur, ← fst_of_place hsrc]
      rw [hown] at htype hobject hbadge
      exact hbadge (hcaps src.2 htype hobject)
    | capMint =>
      exact hre ⟨hcur, trivial, src, _, rights, badge, hcopies, hmay, htype, hobject, rfl, hbadge⟩
    | capGrant =>
      exact hre ⟨hcur, trivial, src, _, rights, badge, hcopies, hmay, htype, hobject, rfl, hbadge⟩
    | _ => exact hcopies.elim
  | opened _ _ _ => cases htype

/-- The calls of a run in which `t` gets the endpoint from nobody and keeps to its badge. -/
def Faithful (t : Fin N) (e : EndpointId) (b : Nat) (s : CapState N) (cur : Fin N)
    (call : CapCall) : Prop :=
  ¬ call.Gives t e s cur ∧ ¬ call.Rebadges t e b s cur

theorem BadgeStep.keeps [NeZero N] {x x' : CapState N × List Message}
    (hstep : BadgeStep (Faithful t e b) x x') (h : Badged t e b x.1.kernel)
    (hcaps : x.1.HoldsUnder t e b) (hinbox : Arrives t e b x.2) :
    Badged t e b x'.1.kernel ∧ x'.1.HoldsUnder t e b ∧ Arrives t e b x'.2 := by
  have hboth : ∀ {l : List Message}, Arrives t e b l → Arrives t e b (l ++ x.2) := by
    intro l hl m hm
    rcases mem_append.mp hm with hm | hm
    · exact hl m hm
    · exact hinbox m hm
  have hsame : ∀ {s : CapState N}, s.cspace = x.1.cspace → s.HoldsUnder t e b := by
    intro s hs
    unfold CapState.HoldsUnder
    rw [hs]
    exact hcaps
  cases hstep with
  | capCall hcur run hrun allowed call hok hexec =>
    unfold CapCall.exec at hexec
    rw [hcur] at hexec
    have hcall := CapCall.handle_cases hexec
    obtain ⟨hbadged, hq⟩ := h.capCall hrun hcall
    refine ⟨hbadged, fun i => ?_, ?_⟩
    · exact (hcall.slots.1 (t, i)).badge hcaps hok.1 hok.2
    · rw [hq.arrivals]
      exact hinbox
  | ipcCall ht hready hr =>
    obtain ⟨⟨hbadged, harr⟩, hcspace⟩ := CapState.sysIpcCall_badged h hcaps ht hready hr
    exact ⟨hbadged, hsame hcspace, hboth harr⟩
  | @ipcReceive r u ht hready capSlot _ _ _ _ hr =>
    obtain ⟨⟨⟨hbadged, harr⟩, hfetched⟩, hcspace⟩ :=
      CapState.sysIpcReceive_badged h ht hready hr
    refine ⟨hbadged, hsame hcspace, fun m hm => ?_⟩
    rcases mem_append.mp hm with hm | hm
    · exact hfetched m hm
    · exact hboth harr m hm
  | ipcReply senderId msg len =>
    obtain ⟨hbadged, harr⟩ := h.reply _ senderId msg len
    exact ⟨hbadged, hsame rfl, hboth harr⟩
  | tick hk =>
    obtain ⟨hbadged, hq⟩ := h.forTasks tickTask_cases (Calls.tickUpdate hk).moves hk
    rw [hq.arrivals]
    exact ⟨hbadged, hsame rfl, hinbox⟩
  | compensate hk =>
    obtain ⟨hbadged, hq⟩ := h.forTasks compensateTask_cases (Calls.compensateTicks hk).moves hk
    rw [hq.arrivals]
    exact ⟨hbadged, hsame rfl, hinbox⟩
  | background hb =>
    obtain ⟨hbadged, harr⟩ := h.background hb
    exact ⟨hbadged, hsame rfl, hboth harr⟩

/-- **A badge tells the sender**, as long as the sender does not choose it. A task that holds an
endpoint under one badge, gets no other capability to it from other tasks and neither mints nor
grants itself one under another badge, is heard there under its badge only: along every run of
capability and IPC system calls, by any tasks, every message at the endpoint that a receiver
attributes to the task carries the badge. -/
theorem badges_kept [NeZero N] {got : List Message} (h : Badged t e b s.kernel)
    (hcaps : s.HoldsUnder t e b)
    (hrun : ReflTransGen (BadgeStep (Faithful t e b)) (s, []) (s', got)) :
    ∀ m ∈ got, m.endpoint = e → m.senderId = t → m.badge = b := by
  have hkept := Run.steps_invariant
    (P := fun x => Badged t e b x.1.kernel ∧ x.1.HoldsUnder t e b ∧ Arrives t e b x.2)
    ⟨h, hcaps, by simp [Arrives]⟩ (fun _ _ hx hstep => hstep.keeps hx.1 hx.2.1 hx.2.2) hrun
  exact hkept.2.2

/-- Where nothing has been sent, no badge is wrong. -/
theorem Badged.of_quiet {k : Kernel N} (h : Quiet k (Ghost.empty N)) : Badged t e b k where
  slots := h.slots
  queues := (Tracks.of_quiet h).queues
  bounded x hx := absurd (h.idle x) hx
  badge hw := absurd (h.idle t) hw.not_ready

end Runs

/-! ## Runs by example -/

/-- The first task, which holds an endpoint under badge 5, mints a capability to it. -/
def mintUnder (b : Nat) : Option (CapState 2) :=
  (CapCall.capMint 0 1 3#32 b).exec (fun _ _ => none) (fun _ => true) twoHolders

def minted (b : Nat) : CapState 2 := (mintUnder b).getD twoHolders

/-- The second task listens. -/
def listenAfter (b : Nat) : Option (CapState 2 × IpcStatus) :=
  (minted b).sysIpcReceive 1 3 none 0 ipcTimeoutInfinite 0

def listened (b : Nat) : CapState 2 × IpcStatus := (listenAfter b).getD (twoHolders, .ok)

/-- The first task calls through what it has minted. -/
def callAfter (b : Nat) : Option (CapState 2 × IpcStatus) :=
  (listened b).1.sysIpcCall 0 1 none 0 none 0 ipcTimeoutInfinite

def called (b : Nat) : CapState 2 × IpcStatus := (callAfter b).getD (twoHolders, .ok)

/-- What the second task hears. -/
def heard (b : Nat) : List Message := (listened b).1.kernel.arrivals (called b).1.kernel

theorem twoHolders_quiet : Quiet twoHolders.kernel (Ghost.empty 2) :=
  ⟨by decide, by decide, fun _ side => by cases side <;> rfl, rfl⟩

theorem badges_kept_minted : heard 5 = [⟨0, 0, 5⟩] ∧
    ∀ m ∈ heard 5, m.endpoint = 0 → m.senderId = 0 → m.badge = 5 := by
  have hmint : mintUnder 5 = some (minted 5) :=
    (getD_of_ne_none (isSome_iff_ne_none.mp (by decide +kernel)) _).symm
  have hlisten : listenAfter 5 = some (listened 5) :=
    (getD_of_ne_none (isSome_iff_ne_none.mp (by decide +kernel)) _).symm
  have hcall : callAfter 5 = some (called 5) :=
    (getD_of_ne_none (isSome_iff_ne_none.mp (by decide +kernel)) _).symm
  have hfaithful : Faithful 0 0 5 twoHolders 0 (.capMint 0 1 3#32 5) := by
    refine ⟨fun h => h.1 rfl, ?_⟩
    rintro ⟨-, -, src, dst, rights, badge, ⟨-, -, -, rfl⟩, -, -, -, -, hne⟩
    exact hne rfl
  have hstep : BadgeStep (Faithful 0 0 5) (twoHolders, []) _ :=
    .capCall (rfl : twoHolders.kernel.currentTcb = some 0) (fun _ _ => none) (by simp)
      (fun _ => true) _ hfaithful hmint
  have hrun := ReflTransGen.single hstep
    |>.tail (.ipcReceive (by decide +kernel) (by decide +kernel) hlisten)
    |>.tail (.ipcCall (by decide +kernel) (by decide +kernel) hcall)
  exact ⟨by decide +kernel, fun m hm =>
    badges_kept (.of_quiet twoHolders_quiet) (by decide) hrun m (mem_append_left _ hm)⟩

/-- A task that holds an endpoint under badge 5 only mints itself a capability under badge 9, and is
heard under badge 9. -/
theorem badge_forged : twoHolders.HoldsUnder 0 0 5 ∧ (mintUnder 9).isSome ∧
    (listenAfter 9).isSome ∧ (callAfter 9).isSome ∧ heard 9 = [⟨0, 0, 9⟩] := by
  exact ⟨by decide, by decide +kernel, by decide +kernel, by decide +kernel, by decide +kernel⟩

end AuroraOS
