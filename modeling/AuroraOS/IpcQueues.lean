import AuroraOS.Ipc
import AuroraOS.Lib.Run

/-!
# The endpoints' queues are the waiting tasks

The abstract view of all endpoints is one list of tasks per endpoint and side, `Waiting N`.
`Threaded k L` says that the queues in memory spell out the lists `L`; `QueueInv k L` adds that a
task is in a list exactly when its own context says that it waits there. The operations of an
endpoint keep `QueueInv`, for a caller whose `ipc.state` is `Ready`: a call inserts the sender by
priority or takes out the first receiver that accepts its label, a receive the first sender whose
label it accepts, a cancellation erases.
-/

namespace AuroraOS

open WaitQueue Kernel WaitQueue Option List

variable {N : Nat}

/-- The tasks that wait at each endpoint, in order. -/
abbrev Waiting (N : Nat) := EndpointId → Side → List (Fin N)

/-- Replace one list. -/
def Waiting.set (L : Waiting N) (e : EndpointId) (side : Side) (l : List (Fin N)) : Waiting N :=
  fun e' side' => if e' = e ∧ side' = side then l else L e' side'

theorem Waiting.set_self (L : Waiting N) (e : EndpointId) (side : Side) (l : List (Fin N)) :
    L.set e side l e side = l := by simp [Waiting.set]

theorem Waiting.set_of_ne (L : Waiting N) {e e' : EndpointId} {side side' : Side}
    (l : List (Fin N)) (h : ¬ (e' = e ∧ side' = side)) : L.set e side l e' side' = L e' side' := by
  simp [Waiting.set, h]

theorem Waiting.set_same (L : Waiting N) (e : EndpointId) (side : Side) :
    L.set e side (L e side) = L := by
  funext e' side'
  by_cases hs : e' = e ∧ side' = side
  · obtain ⟨rfl, rfl⟩ := hs
    exact Waiting.set_self ..
  · exact Waiting.set_of_ne _ _ hs

/-- A task's own account of where it waits. -/
def Kernel.Waits (k : Kernel N) (t : Fin N) (e : EndpointId) (side : Side) : Prop :=
  (k.ipc t).state = side.state ∧ (k.ipc t).waitingEndpoint = some e
  deriving Decidable

theorem Kernel.Waits.not_ready {k : Kernel N} {t : Fin N} {e : EndpointId} {side : Side}
    (h : k.Waits t e side) : (k.ipc t).state ≠ .ready := by
  rw [h.1]
  cases side <;> decide

/-- The queues in memory are the lists `L`, and no task is in two of them. -/
structure Threaded (k : Kernel N) (L : Waiting N) : Prop where
  holds : ∀ e side, (k.queue e side).Holds k.blocked (L e side)
  disjoint : ∀ {t e e' side side'}, t ∈ L e side → t ∈ L e' side' → e = e' ∧ side = side'

/-- The queues in memory are the lists `L`, and these hold exactly the tasks that say so. -/
structure QueueInv (k : Kernel N) (L : Waiting N) : Prop where
  holds : ∀ e side, (k.queue e side).Holds k.blocked (L e side)
  mem : ∀ e side t, t ∈ L e side ↔ k.Waits t e side

/-! ## Operations on the queues in memory -/

namespace Threaded

variable {k k' : Kernel N} {L : Waiting N} {e : EndpointId} {side : Side} {t : Fin N}
  {l : List (Fin N)}

variable (h : Threaded k L)

include h

/-- A change that keeps the queues and the links of the tasks in them. -/
theorem congr (hends : k'.endpoints = k.endpoints)
    (hblocked : ∀ e side, ∀ x ∈ L e side, k'.blocked x = k.blocked x) : Threaded k' L where
  holds e side := by
    have hq : k'.queue e side = k.queue e side := by rw [queue, queue, hends]
    rw [hq]
    exact (h.holds e side).congr (hblocked e side)
  disjoint := h.disjoint

/-- Storing back a queue whose list is now `l`. Its new members were in no list. -/
theorem setQueue {next : Blocked N} {q : WaitQueue N}
    (hq : q.Holds next l) (hnext : ∀ x, x ∉ L e side → x ∉ l → next x = k.blocked x)
    (hl : ∀ x ∈ l, x ∈ L e side ∨ ∀ e side, x ∉ L e side) :
    Threaded (k.setQueue e side next q) (L.set e side l) := by
  -- a task of another list is neither in the old list nor in the new one
  have hoff : ∀ {e' side'}, ¬ (e' = e ∧ side' = side) → ∀ x ∈ L e' side', x ∉ L e side ∧ x ∉ l := by
    intro e' side' hne x hx
    have hx' : x ∉ L e side := fun hx' => hne (h.disjoint hx hx')
    exact ⟨hx', fun hxl => (hl x hxl).elim hx' fun hno => hno e' side' hx⟩
  constructor
  · intro e' side'
    rw [queue_setQueue]
    by_cases hs : e' = e ∧ side' = side
    · obtain ⟨rfl, rfl⟩ := hs
      rw [if_pos ⟨rfl, rfl⟩, Waiting.set_self]
      exact hq
    · rw [if_neg hs, Waiting.set_of_ne _ _ hs]
      exact (h.holds e' side').congr fun x hx => hnext x (hoff hs x hx).1 (hoff hs x hx).2
  · intro x e₁ e₂ side₁ side₂ h₁ h₂
    by_cases hs₁ : e₁ = e ∧ side₁ = side <;> by_cases hs₂ : e₂ = e ∧ side₂ = side
    · exact ⟨hs₁.1.trans hs₂.1.symm, hs₁.2.trans hs₂.2.symm⟩
    · obtain ⟨rfl, rfl⟩ := hs₁
      rw [Waiting.set_self] at h₁
      rw [Waiting.set_of_ne _ _ hs₂] at h₂
      exact absurd h₁ (hoff hs₂ x h₂).2
    · obtain ⟨rfl, rfl⟩ := hs₂
      rw [Waiting.set_self] at h₂
      rw [Waiting.set_of_ne _ _ hs₁] at h₁
      exact absurd h₂ (hoff hs₁ x h₁).2
    · rw [Waiting.set_of_ne _ _ hs₁] at h₁
      rw [Waiting.set_of_ne _ _ hs₂] at h₂
      exact h.disjoint h₁ h₂

theorem enqueue (ht : ∀ e side, t ∉ L e side) (e : EndpointId) (side : Side) :
    ∃ next q, k.enqueue e side t = some (k.setQueue e side next q) ∧
      Threaded (k.setQueue e side next q)
        (L.set e side (insertByPrio k.priority t (L e side))) := by
  obtain ⟨next, q, heq, hq, hframe⟩ :=
    enqueue_spec k.priority (h.holds e side) (ht e side)
  have hmem : ∀ x, x ∈ insertByPrio k.priority t (L e side) ↔ x = t ∨ x ∈ L e side := by
    intro x
    rw [(perm_insertByPrio ..).mem_iff, mem_cons]
  refine ⟨next, q, by simp [Kernel.enqueue, heq], h.setQueue hq (fun x hx hxl => ?_) ?_⟩
  · exact hframe x hx fun hxt => hxl ((hmem x).mpr (.inl hxt))
  · intro x hx
    rcases (hmem x).mp hx with rfl | hx
    · exact .inr ht
    · exact .inl hx

theorem dequeueMatchingSender (e : EndpointId) (filter : Nat) :
    ∃ next q, k.dequeueMatchingSender e filter = some (k.setQueue e .send next q,
        (L e .send).find? fun t => accepts filter (k.ipc t).msgType) ∧
      Threaded (k.setQueue e .send next q)
        (L.set e .send ((L e .send).eraseP fun t => accepts filter (k.ipc t).msgType)) := by
  obtain ⟨next, q, heq, hq, hframe⟩ := dequeueMatching_spec (h.holds e .send)
    fun t => accepts filter (k.ipc t).msgType
  refine ⟨next, q, ?_, h.setQueue hq (fun x hx _ => hframe x hx) fun x hx => ?_⟩
  · simp [Kernel.dequeueMatchingSender, WaitQueue.dequeueMatchingSender, heq]
  · exact .inl (mem_of_mem_eraseP hx)

theorem dequeueMatchingReceiver (e : EndpointId) (label : Nat) :
    ∃ next q, k.dequeueMatchingReceiver e label = some (k.setQueue e .recv next q,
        (L e .recv).find? fun t => accepts (k.ipc t).labelFilter label) ∧
      Threaded (k.setQueue e .recv next q)
        (L.set e .recv ((L e .recv).eraseP fun t => accepts (k.ipc t).labelFilter label)) := by
  obtain ⟨next, q, heq, hq, hframe⟩ := dequeueMatching_spec (h.holds e .recv)
    fun t => accepts (k.ipc t).labelFilter label
  refine ⟨next, q, ?_, h.setQueue hq (fun x hx _ => hframe x hx) fun x hx => ?_⟩
  · simp [Kernel.dequeueMatchingReceiver, WaitQueue.dequeueMatchingReceiver, heq]
  · exact .inl (mem_of_mem_eraseP hx)

theorem remove (e : EndpointId) (side : Side) (t : Fin N) :
    ∃ next q, k.remove e side t = some (k.setQueue e side next q) ∧
      Threaded (k.setQueue e side next q) (L.set e side ((L e side).erase t)) := by
  obtain ⟨next, q, b, heq, hq, hframe⟩ := remove_spec (h.holds e side) t
  refine ⟨next, q, by simp [Kernel.remove, heq],
    h.setQueue hq (fun x hx _ => hframe x hx) fun x hx => .inl (mem_of_mem_erase hx)⟩

theorem dequeue_nil (hl : L e side = []) : (k.dequeue e side).2 = none := by
  have hq := (h.holds e side).1.head_eq
  rw [hl] at hq
  simp [Kernel.dequeue, WaitQueue.dequeue, hq]

theorem dequeue_cons (hl : L e side = t :: l) :
    ∃ next q, k.dequeue e side = (k.setQueue e side next q, some t) ∧
      Threaded (k.setQueue e side next q) (L.set e side l) := by
  have hq := h.holds e side
  rw [hl] at hq
  obtain ⟨heq, hrest⟩ := hq.dequeue
  refine ⟨_, _, by simp only [Kernel.dequeue, heq], h.setQueue hrest (fun x hx _ => ?_) ?_⟩
  · have hxt : x ≠ t := fun hxt => hx (by simp [hl, hxt])
    exact Function.update_of_ne hxt _ _
  · intro x hx
    exact .inl (by simp [hl, hx])

end Threaded

open Waiting

/-! ## The operations keep the invariant -/

namespace QueueInv

variable {k k' : Kernel N} {L L' : Waiting N} {e : EndpointId} {side : Side} {t : Fin N}
variable {p : Fin N → Bool} {next : Blocked N} {q : WaitQueue N}

theorem toThreaded (h : QueueInv k L) : Threaded k L where
  holds := h.holds
  disjoint {x e₁ e₂ side₁ side₂} h₁ h₂ := by
    obtain ⟨hs₁, he₁⟩ := (h.mem _ _ _).mp h₁
    obtain ⟨hs₂, he₂⟩ := (h.mem _ _ _).mp h₂
    refine ⟨some.inj (he₁.symm.trans he₂), ?_⟩
    have hside := hs₁.symm.trans hs₂
    cases side₁ <;> cases side₂ <;> simp [Side.state] at hside ⊢

/-- The queues are right again once every task's account fits its place in the lists. `A` are the
tasks whose account or place changed. -/
theorem of_threaded (h : QueueInv k L) (hk' : Threaded k' L') (A : Fin N → Prop)
    (hother : ∀ x, ¬ A x → (∀ e side, x ∈ L' e side ↔ x ∈ L e side) ∧
      (k'.ipc x).state = (k.ipc x).state ∧
      (k'.ipc x).waitingEndpoint = (k.ipc x).waitingEndpoint)
    (hchanged : ∀ x, A x → ∀ e side, x ∈ L' e side ↔ k'.Waits x e side) : QueueInv k' L' where
  holds := hk'.holds
  mem e side x := by
    by_cases hx : A x
    · exact hchanged x hx e side
    · obtain ⟨hL, hstate, hwait⟩ := hother x hx
      rw [hL, h.mem, Kernel.Waits, Kernel.Waits, hstate, hwait]

/-- A task whose `ipc.state` is not that of a queue is in no list. -/
theorem notMem (h : QueueInv k L) (ht : ∀ side : Side, (k.ipc t).state ≠ side.state)
    (e : EndpointId) (side : Side) : t ∉ L e side :=
  fun hmem => ht side ((h.mem _ _ _).mp hmem).1

theorem empty (hidle : ∀ t, (k.ipc t).state = .ready)
    (hqueues : ∀ e side, k.queue e side = ⟨none, none⟩) : QueueInv k fun _ _ => [] where
  holds e side := by
    rw [hqueues]
    exact ⟨Chain.path_nil.mpr rfl, rfl⟩
  mem e side t := by
    refine iff_of_false (by simp) fun hw => ?_
    have hstate := (hidle t).symm.trans hw.1
    cases side <;> cases hstate

section

variable (h : QueueInv k L)

include h

theorem notMem_of_ready (ht : (k.ipc t).state = .ready) (e : EndpointId)
    (side : Side) : t ∉ L e side :=
  h.notMem (fun side => by rw [ht]; cases side <;> decide) e side

theorem length_le (e : EndpointId) (side : Side) : (L e side).length ≤ N := by
  have hcard := (h.holds e side).1.length_le_card
  rwa [Fintype.card_fin] at hcard

theorem congr (hends : k'.endpoints = k.endpoints)
    (hipc : ∀ x, (k'.ipc x).blockedNext = (k.ipc x).blockedNext ∧
      (k'.ipc x).state = (k.ipc x).state ∧
      (k'.ipc x).waitingEndpoint = (k.ipc x).waitingEndpoint) : QueueInv k' L :=
  h.of_threaded (h.toThreaded.congr hends fun _ _ x _ => (hipc x).1) (fun _ => False)
    (fun x _ => ⟨fun _ _ => Iff.rfl, (hipc x).2⟩) (fun _ hx => hx.elim)

/-- A task outside the lists may change its context, as long as it still does not wait. -/
theorem modify (ht : ∀ e side, t ∉ L e side)
    (hends : k'.endpoints = k.endpoints) (hother : ∀ x, x ≠ t → k'.ipc x = k.ipc x)
    (hwait : ∀ e side, ¬ k'.Waits t e side) : QueueInv k' L := by
  have hne : ∀ {e side x}, x ∈ L e side → x ≠ t := fun hx hxt => ht _ _ (hxt ▸ hx)
  refine h.of_threaded (h.toThreaded.congr hends fun _ _ x hx => ?_) (fun x => x = t)
    (fun x hx => ⟨fun _ _ => Iff.rfl, ?_⟩) ?_
  · simp only [blocked, hother x (hne hx)]
  · rw [hother x hx]
    exact ⟨rfl, rfl⟩
  · rintro x rfl e side
    exact iff_of_false (ht e side) (hwait e side)

/-- A task that has been taken out of a queue, in the state it is left in. -/
theorem taken (hfind : (L e side).find? p = some t) :
    t ∈ L e side ∧ ∀ e' side' x,
      x ∈ L.set e side ((L e side).eraseP p) e' side' ↔ x ∈ L e' side' ∧ x ≠ t := by
  have ht : t ∈ L e side := mem_of_find?_eq_some hfind
  refine ⟨ht, fun e' side' x => ?_⟩
  by_cases hs : e' = e ∧ side' = side
  · obtain ⟨rfl, rfl⟩ := hs
    rw [set_self]
    exact mem_eraseP_iff (h.holds _ _).nodup hfind
  · rw [set_of_ne _ _ hs]
    refine ⟨fun hx => ⟨hx, ?_⟩, And.left⟩
    rintro rfl
    exact hs (h.toThreaded.disjoint hx ht)

end

theorem set_of_find?_eq_none (hfind : (L e side).find? p = none) :
    L.set e side ((L e side).eraseP p) = L := by
  rw [eraseP_of_forall_not (by simpa using find?_eq_none.mp hfind), set_same]

variable (h : QueueInv k L)

include h

section

variable (ht : (k.ipc t).state = .ready)

include ht

theorem refuse : QueueInv (k.refuse t) L := by
  refine h.modify (h.notMem_of_ready ht) rfl (fun x hx => ?_) fun e side hw => ?_
  · rw [ipc_refuse, if_neg hx]
  · simp [Kernel.Waits, ipc_refuse] at hw

theorem wait (e : EndpointId) (side : Side) (timeout : Nat) (note : IpcContext N → IpcContext N) :
    ∃ next q, (k.beginWait e side t timeout note).enqueue e side t =
        some ((k.beginWait e side t timeout note).setQueue e side next q) ∧
      QueueInv ((k.beginWait e side t timeout note).setQueue e side next q)
        (L.set e side (insertByPrio k.priority t (L e side))) := by
  have hout := h.notMem_of_ready ht
  have hthread : Threaded (k.beginWait e side t timeout note) L := by
    refine h.toThreaded.congr rfl fun e' side' x hx => ?_
    have hxt : x ≠ t := fun hxt => hout _ _ (hxt ▸ hx)
    rw [blocked, blocked, ipc_beginWait, if_neg hxt]
  obtain ⟨next, q, henq, hnew⟩ := hthread.enqueue hout e side
  rw [priority_beginWait] at hnew
  have hmem : ∀ e' side' x,
      x ∈ L.set e side (insertByPrio k.priority t (L e side)) e' side' ↔
        x ∈ L e' side' ∨ x = t ∧ e' = e ∧ side' = side := by
    intro e' side' x
    by_cases hs : e' = e ∧ side' = side
    · obtain ⟨rfl, rfl⟩ := hs
      rw [set_self, (perm_insertByPrio ..).mem_iff]
      simp [or_comm]
    · rw [set_of_ne _ _ hs]
      simp [hs]
  refine ⟨next, q, henq, h.of_threaded hnew (fun x => x = t) (fun x hx => ⟨?_, ?_⟩) ?_⟩
  · intro e' side'
    simp [hmem, hx]
  · simp [ipc_beginWait, hx]
  · rintro x rfl e' side'
    have hside : side'.state = side.state ↔ side' = side := by
      cases side <;> cases side' <;> simp [Side.state]
    simp only [hmem, hout, Kernel.Waits, ipc_setQueue, ipc_beginWait, if_true,
      false_or, true_and, some.injEq]
    rw [eq_comm (a := side.state), hside, eq_comm, and_comm]

/-- A task has been taken out of its queue; it and `t`, which is in no queue, end up in states that
are not those of a queue. -/
theorem matched {r : Fin N} (hfind : (L e side).find? p = some r)
    (hq : Threaded (k.setQueue e side next q) (L.set e side ((L e side).eraseP p)))
    (hends : k'.endpoints = (k.setQueue e side next q).endpoints)
    (hblocked : ∀ x, (k'.ipc x).blockedNext = next x)
    (hother : ∀ x, x ≠ t → x ≠ r → (k'.ipc x).state = (k.ipc x).state ∧
      (k'.ipc x).waitingEndpoint = (k.ipc x).waitingEndpoint)
    (hpair : ∀ x, x = t ∨ x = r → ∀ side : Side, (k'.ipc x).state ≠ side.state) :
    QueueInv k' (L.set e side ((L e side).eraseP p)) := by
  obtain ⟨hr, hmem⟩ := h.taken hfind
  refine h.of_threaded (hq.congr hends fun _ _ x _ => hblocked x) (fun x => x = t ∨ x = r)
    (fun x hx => ?_) (fun x hx e' side' => ?_)
  · rw [not_or] at hx
    refine ⟨fun e' side' => ?_, hother x hx.1 hx.2⟩
    rw [hmem, and_iff_left hx.2]
  · refine iff_of_false (fun hx' => ?_) fun hw => hpair x hx side' hw.1
    obtain ⟨hxL, hxr⟩ := (hmem e' side' x).mp hx'
    rcases hx with rfl | rfl
    · exact h.notMem_of_ready ht e' side' hxL
    · exact hxr rfl

theorem callReceiver {r : Fin N} (hfind : (L e .recv).find? p = some r)
    (hq : Threaded (k.setQueue e .recv next q) (L.set e .recv ((L e .recv).eraseP p)))
    (msg : Option Buffer) (len timeout badge : Nat) :
    QueueInv ((k.setQueue e .recv next q).callReceiver e t r msg len timeout badge)
      (L.set e .recv ((L e .recv).eraseP p)) := by
  have hne : t ≠ r := fun htr => h.notMem_of_ready ht _ _ (htr ▸ (h.taken hfind).1)
  refine h.matched ht hfind hq (by simp) (fun x => ?_) (fun x hxt hxr => ?_) ?_
  · rw [ipc_callReceiver, ipc_deliver _ hne, ipc_deliver _ hne]
    by_cases hxt : x = t
    · simp [hxt]
    · by_cases hxr : x = r <;> simp [hxt, hxr, hne.symm]
  · simp [ipc_callReceiver, ipc_deliver _ hne, hxt, hxr]
  · rintro x (rfl | rfl) side
    · rw [ipc_callReceiver, if_pos rfl]
      dsimp only
      split_ifs <;> cases side <;> decide
    · rw [ipc_callReceiver, if_neg hne.symm, ipc_deliver _ hne, if_neg hne.symm]
      cases side <;> simp [Side.state]

theorem receiveFrom {x : Fin N} (hfind : (L e .send).find? p = some x)
    (hq : Threaded (k.setQueue e .send next q) (L.set e .send ((L e .send).eraseP p))) :
    QueueInv ((k.setQueue e .send next q).receiveFrom t x)
      (L.set e .send ((L e .send).eraseP p)) := by
  have hne : x ≠ t := fun hxt => h.notMem_of_ready ht _ _ (hxt ▸ (h.taken hfind).1)
  refine h.matched ht hfind hq (by simp) (fun y => ?_) (fun y hyt hyx => ?_) ?_
  · rw [ipc_receiveFrom, ipc_deliver _ hne, ipc_deliver _ hne]
    by_cases hyx : y = x
    · simp [hyx]
    · by_cases hyt : y = t <;> simp [hyx, hyt, hne.symm]
  · simp [ipc_receiveFrom, ipc_deliver _ hne, hyt, hyx]
  · rintro y (rfl | rfl) side
    · rw [ipc_receiveFrom, if_neg hne.symm, ipc_deliver _ hne, if_neg hne.symm]
      cases side <;> simp [Side.state]
    · rw [ipc_receiveFrom]
      cases side <;> simp [Side.state]

end

theorem prepareCall (msg : Option Buffer) (len : Nat) (rep : Option Buffer) (maxRep badge : Nat) :
    QueueInv (k.prepareCall t msg len rep maxRep badge) L := by
  refine h.congr rfl fun x => ?_
  rw [Kernel.prepareCall, Kernel.ipc_modifyIpc]
  split_ifs with hx <;> simp [hx]

theorem prepareReceive (buf : Option Buffer) (maxLen filter : Nat) :
    QueueInv (k.prepareReceive t buf maxLen filter) L := by
  refine h.congr rfl fun x => ?_
  rw [Kernel.prepareReceive, Kernel.ipc_modifyIpc]
  split_ifs with hx <;> simp [hx]

end QueueInv

/-- A task's context without its account of where it waits. -/
def IpcContext.message (c : IpcContext N) : IpcContext N :=
  { c with
    state := .ready
    status := .ok
    blockedNext := none
    waitingEndpoint := none
    notifyValue := 0#32
    notifyPending := false }

/-! ## How calls and receives can go -/

/-- The state of a task that has entered a queue and left the ready list. -/
def Kernel.parked (k : Kernel N) (e : EndpointId) (side : Side) (t : Fin N) (timeout : Nat)
    (note : IpcContext N → IpcContext N) (next : Blocked N) (q : WaitQueue N) : Kernel N :=
  let k := (k.beginWait e side t timeout note).setQueue e side next q
  k.setTaskState (k.sched.tasks t).id .blockedOnNotify

/-- What a call writes into its context when it queues. -/
def noteMessage (msg : Option Buffer) (len : Nat) (c : IpcContext N) : IpcContext N :=
  { c with msgBuf := msg, msgLen := len }

namespace Kernel

variable (k : Kernel N) {t i : Fin N}

theorem ipc_prepareCall_self (t : Fin N) (msg : Option Buffer) (len : Nat) (rep : Option Buffer)
    (maxRep badge : Nat) :
    (k.prepareCall t msg len rep maxRep badge).ipc t =
      { k.ipc t with
        replyBuf := rep, maxLen := maxRep, status := .ok, badge := badge,
        msgType := k.messageType msg len } := by
  rw [prepareCall, ipc_modifyIpc, if_pos rfl]

theorem ipc_prepareCall_of_ne (msg : Option Buffer) (len : Nat) (rep : Option Buffer)
    (maxRep badge : Nat) (hi : i ≠ t) :
    (k.prepareCall t msg len rep maxRep badge).ipc i = k.ipc i := by
  rw [prepareCall, ipc_modifyIpc, if_neg hi]

theorem ipc_prepareReceive_self (t : Fin N) (buf : Option Buffer) (maxLen filter : Nat) :
    (k.prepareReceive t buf maxLen filter).ipc t =
      { k.ipc t with
        msgBuf := buf, maxLen := maxLen, status := .ok, labelFilter := filter } := by
  rw [prepareReceive, ipc_modifyIpc, if_pos rfl]

theorem ipc_prepareReceive_of_ne (buf : Option Buffer) (maxLen filter : Nat) (hi : i ≠ t) :
    (k.prepareReceive t buf maxLen filter).ipc i = k.ipc i := by
  rw [prepareReceive, ipc_modifyIpc, if_neg hi]

theorem ipc_parked (e : EndpointId) (side : Side) (timeout : Nat)
    (note : IpcContext N → IpcContext N) (next : Blocked N) (q : WaitQueue N) :
    (k.parked e side t timeout note next q).ipc i =
      if i = t then
        { note (k.ipc t) with
          state := side.state, waitingEndpoint := some e, blockedNext := next t }
      else { k.ipc i with blockedNext := next i } := by
  simp only [parked, frame_setTaskState, ipc_setQueue, ipc_beginWait]
  split_ifs with hi
  · rw [hi]
  · rfl

/-- Nothing happens to the other tasks' states and messages. -/
def Aside (t : Fin N) (k k' : Kernel N) : Prop :=
  ∀ x, x ≠ t → (k'.ipc x).state = (k.ipc x).state ∧ (k'.ipc x).message = (k.ipc x).message

theorem aside_refuse {k k₀ : Kernel N} (hother : ∀ x, x ≠ t → k₀.ipc x = k.ipc x) {e : EndpointId}
    {side : Side} {next : Blocked N} {q : WaitQueue N} :
    Aside t k ((k₀.setQueue e side next q).refuse t) := by
  intro x hx
  simp [ipc_refuse, hx, hother x hx, IpcContext.message]

theorem aside_parked {k k₀ : Kernel N} (hother : ∀ x, x ≠ t → k₀.ipc x = k.ipc x) {e : EndpointId}
    {side side' : Side} {timeout : Nat} {note : IpcContext N → IpcContext N}
    {next next' : Blocked N} {q q' : WaitQueue N} :
    Aside t k ((k₀.setQueue e side next q).parked e side' t timeout note next' q') := by
  intro x hx
  simp [ipc_parked, hx, hother x hx, IpcContext.message]

end Kernel

/-- How a call can go, from the state `k` its preparation leaves: a waiting receiver takes the
message, the call is refused, or the sender queues. -/
inductive CallOutcome (k : Kernel N) (L : Waiting N) (e : EndpointId) (sender : Fin N)
    (msg : Option Buffer) (len timeout badge : Nat) : Kernel N → IpcStatus → Waiting N → Prop
  | delivered {r : Fin N} {next : Blocked N} {q : WaitQueue N}
      (hfind : (L e .recv).find?
        (fun t => accepts (k.ipc t).labelFilter (k.ipc sender).msgType) = some r) :
      CallOutcome k L e sender msg len timeout badge
        ((k.setQueue e .recv next q).callReceiver e sender r msg len timeout badge) .ok
        (L.set e .recv ((L e .recv).eraseP
          fun t => accepts (k.ipc t).labelFilter (k.ipc sender).msgType))
  | refused {next : Blocked N} {q : WaitQueue N} (ht : timeout = ipcNonblock)
      (hfind : (L e .recv).find?
        (fun t => accepts (k.ipc t).labelFilter (k.ipc sender).msgType) = none) :
      CallOutcome k L e sender msg len timeout badge
        ((k.setQueue e .recv next q).refuse sender) .wouldBlock L
  | queued {next next' : Blocked N} {q q' : WaitQueue N} (ht : timeout ≠ ipcNonblock)
      (hfind : (L e .recv).find?
        (fun t => accepts (k.ipc t).labelFilter (k.ipc sender).msgType) = none) :
      CallOutcome k L e sender msg len timeout badge
        ((k.setQueue e .recv next q).parked e .send sender timeout (noteMessage msg len) next' q')
        .ok (L.set e .send (insertByPrio k.priority sender (L e .send)))

/-- How a receive can go. -/
inductive ReceiveOutcome (k : Kernel N) (L : Waiting N) (e : EndpointId) (receiver : Fin N)
    (timeout filter : Nat) : Kernel N → IpcStatus → Waiting N → Prop
  | delivered {x : Fin N} {next : Blocked N} {q : WaitQueue N}
      (hfind : (L e .send).find? (fun t => accepts filter (k.ipc t).msgType) = some x) :
      ReceiveOutcome k L e receiver timeout filter
        ((k.setQueue e .send next q).receiveFrom receiver x) .ok
        (L.set e .send ((L e .send).eraseP fun t => accepts filter (k.ipc t).msgType))
  | refused {next : Blocked N} {q : WaitQueue N} (ht : timeout = ipcNonblock)
      (hfind : (L e .send).find? (fun t => accepts filter (k.ipc t).msgType) = none) :
      ReceiveOutcome k L e receiver timeout filter
        ((k.setQueue e .send next q).refuse receiver) .wouldBlock L
  | queued {next next' : Blocked N} {q q' : WaitQueue N} (ht : timeout ≠ ipcNonblock)
      (hfind : (L e .send).find? (fun t => accepts filter (k.ipc t).msgType) = none) :
      ReceiveOutcome k L e receiver timeout filter
        ((k.setQueue e .send next q).parked e .recv receiver timeout id next' q')
        .ok (L.set e .recv (insertByPrio k.priority receiver (L e .recv)))

/-! ## How waits end -/

/-- What cancellations and timeouts do: some tasks stop waiting, for the given reason, and nothing
else happens to the messages and the queues. -/
structure Releases (reason : IpcStatus) (k : Kernel N) (L : Waiting N) (k' : Kernel N)
    (L' : Waiting N) : Prop where
  memory : k'.memory = k.memory
  lists : ∀ e side, (L' e side).Sublist (L e side)
  message : ∀ x, (k'.ipc x).message = (k.ipc x).message
  waits : ∀ x,
    ((k'.ipc x).state = (k.ipc x).state ∧ (k'.ipc x).status = (k.ipc x).status) ∨
    ((k'.ipc x).state = .ready ∧ (k'.ipc x).status = reason)

namespace Releases

variable {reason : IpcStatus} {k k' k'' : Kernel N} {L L' L'' : Waiting N} {t : Fin N}

theorem of_ipc_eq (hmem : k'.memory = k.memory)
    (hmsg : ∀ x, (k'.ipc x).message = (k.ipc x).message)
    (hipc : ∀ x, (k'.ipc x).state = (k.ipc x).state ∧ (k'.ipc x).status = (k.ipc x).status) :
    Releases reason k L k' L :=
  ⟨hmem, fun _ _ => List.Sublist.refl _, hmsg, fun x => .inl (hipc x)⟩

theorem refl (reason : IpcStatus) (k : Kernel N) (L : Waiting N) : Releases reason k L k L :=
  of_ipc_eq rfl (fun _ => rfl) fun _ => ⟨rfl, rfl⟩

theorem trans (h : Releases reason k L k' L') (h' : Releases reason k' L' k'' L'') :
    Releases reason k L k'' L'' where
  memory := h'.memory.trans h.memory
  lists e side := (h'.lists e side).trans (h.lists e side)
  message x := (h'.message x).trans (h.message x)
  waits x := by
    rcases h'.waits x with ⟨hs, hw⟩ | hx
    · rw [hs, hw]
      exact h.waits x
    · exact .inr hx

theorem single (hmem : k'.memory = k.memory)
    (hlists : ∀ e side, (L' e side).Sublist (L e side))
    (hmsg : ∀ x, (k'.ipc x).message = (k.ipc x).message)
    (hother : ∀ x, x ≠ t → (k'.ipc x).state = (k.ipc x).state ∧
      (k'.ipc x).status = (k.ipc x).status)
    (hself : (k'.ipc t).state = .ready ∧ (k'.ipc t).status = reason) :
    Releases reason k L k' L' := by
  refine ⟨hmem, hlists, hmsg, fun x => ?_⟩
  by_cases hx : x = t
  · rw [hx]
    exact .inr hself
  · exact .inl (hother x hx)

end Releases

/-- What the end of a wait in `cancel_all` does to the contexts. -/
theorem Kernel.cancelOne_context (k : Kernel N) (t : Fin N) (reason : IpcStatus) :
    (∀ x, x ≠ t → (k.cancelOne t reason).ipc x = k.ipc x) ∧
      (((k.cancelOne t reason).ipc t).state = .ready ∧
        ((k.cancelOne t reason).ipc t).status = reason) ∧
      ((k.cancelOne t reason).ipc t).waitingEndpoint = none ∧
      ∀ x, ((k.cancelOne t reason).ipc x).message = (k.ipc x).message := by
  refine ⟨fun x hx => ?_, ?_, ?_, fun x => ?_⟩
  · rw [ipc_cancelOne, if_neg hx]
  · rw [ipc_cancelOne, if_pos rfl]
    exact ⟨rfl, rfl⟩
  · rw [ipc_cancelOne, if_pos rfl]
  · rw [ipc_cancelOne]
    split_ifs with hx
    · rw [hx]
      rfl
    · rfl

namespace QueueInv

variable {k k' : Kernel N} {L : Waiting N} {e : EndpointId} {side : Side} {t : Fin N}

section

variable (h : QueueInv k L)

include h

theorem setQueue {next : Blocked N} {q : WaitQueue N}
    (hq : Threaded (k.setQueue e side next q) L) : QueueInv (k.setQueue e side next q) L :=
  h.of_threaded hq (fun _ => False) (fun _ _ => ⟨fun _ _ => Iff.rfl, rfl, rfl⟩)
    (fun _ hx => hx.elim)

theorem parked (ht : (k.ipc t).state = .ready) (e : EndpointId) (side : Side)
    (timeout : Nat) (hnb : timeout ≠ ipcNonblock) (note : IpcContext N → IpcContext N) :
    ∃ next q, k.await e side t timeout note =
        some (k.parked e side t timeout note next q, .ok) ∧
      QueueInv (k.parked e side t timeout note next q)
        (L.set e side (insertByPrio k.priority t (L e side))) := by
  obtain ⟨next, q, henq, hinv⟩ := h.wait ht e side timeout note
  refine ⟨next, q, ?_, hinv.congr rfl fun _ => ⟨rfl, rfl, rfl⟩⟩
  simp only [await, if_neg hnb, henq]
  rfl

/-- **A call keeps the queues**, and comes back, when its sender is in no IPC operation. -/
theorem callFrom (ht : (k.ipc t).state = .ready) {msg rep : Option Buffer}
    {len maxRep timeout badge : Nat} :
    ∃ k' st, k.callFrom e t msg len rep maxRep timeout badge = some (k', st) ∧ ∃ L',
      CallOutcome (k.prepareCall t msg len rep maxRep badge) L e t msg len timeout badge k' st L' ∧
      QueueInv k' L' := by
  set k₀ := k.prepareCall t msg len rep maxRep badge with hk₀
  have h₀ : QueueInv k₀ L := h.prepareCall msg len rep maxRep badge
  have ht₀ : (k₀.ipc t).state = .ready := by
    simpa [hk₀, Kernel.prepareCall, Kernel.ipc_modifyIpc] using ht
  obtain ⟨next, q, hdeq, hq⟩ := h₀.toThreaded.dequeueMatchingReceiver e (k₀.ipc t).msgType
  simp only [Kernel.callFrom, ← hk₀, hdeq]
  cases hfind : (L e .recv).find? fun x =>
      accepts (k₀.ipc x).labelFilter (k₀.ipc t).msgType with
  | some r =>
    exact ⟨_, _, rfl, _, .delivered hfind, h₀.callReceiver ht₀ hfind hq msg len timeout badge⟩
  | none =>
    rw [set_of_find?_eq_none hfind] at hq
    have h₁ := h₀.setQueue hq
    by_cases hnb : timeout = ipcNonblock
    · refine ⟨_, _, ?_, L, .refused hnb hfind, h₁.refuse ht₀⟩
      simp only [await, if_pos hnb]
      rfl
    · obtain ⟨next', q', hawait, hinv⟩ :=
        h₁.parked ht₀ e .send timeout hnb (noteMessage msg len)
      exact ⟨_, _, hawait, _, .queued hnb hfind, hinv⟩

/-- **A receive keeps the queues**, and comes back. -/
theorem receiveAt (ht : (k.ipc t).state = .ready) {buf : Option Buffer}
    {maxLen timeout filter : Nat} :
    ∃ k' st, k.receiveAt e t buf maxLen timeout filter = some (k', st) ∧ ∃ L',
      ReceiveOutcome (k.prepareReceive t buf maxLen filter) L e t timeout filter k' st L' ∧
      QueueInv k' L' := by
  set k₀ := k.prepareReceive t buf maxLen filter with hk₀
  have h₀ : QueueInv k₀ L := h.prepareReceive buf maxLen filter
  have ht₀ : (k₀.ipc t).state = .ready := by
    simpa [hk₀, Kernel.prepareReceive, Kernel.ipc_modifyIpc] using ht
  obtain ⟨next, q, hdeq, hq⟩ := h₀.toThreaded.dequeueMatchingSender e filter
  simp only [Kernel.receiveAt, ← hk₀, hdeq]
  cases hfind : (L e .send).find? fun x => accepts filter (k₀.ipc x).msgType with
  | some x => exact ⟨_, _, rfl, _, .delivered hfind, h₀.receiveFrom ht₀ hfind hq⟩
  | none =>
    rw [set_of_find?_eq_none hfind] at hq
    have h₁ := h₀.setQueue hq
    by_cases hnb : timeout = ipcNonblock
    · refine ⟨_, _, ?_, L, .refused hnb hfind, h₁.refuse ht₀⟩
      simp only [await, if_pos hnb]
      rfl
    · obtain ⟨next', q', hawait, hinv⟩ := h₁.parked ht₀ e .recv timeout hnb id
      exact ⟨_, _, hawait, _, .queued hnb hfind, hinv⟩

/-! ## Replies and cancellations -/

theorem replyTo (ht : (k.ipc t).state = .replyBlocked) (receiver : Fin N)
    (msg : Option Buffer) (len : Nat) : QueueInv (k.replyTo receiver t msg len) L := by
  have hout := h.notMem fun side => by rw [ht]; cases side <;> decide
  refine h.modify hout (by simp) (fun x hx => ?_) fun e side hw => ?_
  · rw [ipc_replyTo, if_neg hx]
  · simp [Kernel.Waits, ipc_replyTo] at hw

theorem reply (receiver : Option (Fin N)) (id : Nat) (msg : Option Buffer)
    (len : Nat) : QueueInv (k.reply receiver id msg len).1 L := by
  rcases k.reply_cases receiver id msg len with ⟨_, -, heq⟩ | ⟨r, x, -, -, hstate, -, heq⟩
  · rw [heq]
    exact h
  · rw [heq]
    exact h.replyTo hstate r msg len

theorem erased (hown : ∀ e' side, t ∈ L e' side → e' = e) :
    ∀ e' side x, x ∈ (L.set e .send ((L e .send).erase t)).set e .recv ((L e .recv).erase t)
      e' side ↔ x ∈ L e' side ∧ x ≠ t := by
  intro e' side x
  have herase : ∀ side, x ∈ (L e side).erase t ↔ x ∈ L e side ∧ x ≠ t := fun side => by
    rw [(h.holds e side).nodup.mem_erase_iff, and_comm]
  by_cases he : e' = e
  · subst he
    cases side <;> simp [Waiting.set, herase]
  · have hx : x ∈ L e' side → x ≠ t := fun hx hxt => he (hown e' side (hxt ▸ hx))
    simp only [Waiting.set, he]
    exact ⟨fun hxL => ⟨hxL, hx hxL⟩, And.left⟩

end

variable (h : QueueInv k L)

include h

/-- **A cancellation keeps the queues**, and comes back, for a task that waits at no other
endpoint. -/
theorem cancelWaiter (hown : ∀ e' side, t ∈ L e' side → e' = e) (reason : IpcStatus) :
    ∃ k', k.cancelWaiter e t reason = some k' ∧ ∃ L', QueueInv k' L' ∧
      Releases reason k L k' L' := by
  obtain ⟨next, q, hrem, hq⟩ := h.toThreaded.remove e .send t
  obtain ⟨next', q', hrem', hq'⟩ := hq.remove e .recv t
  have hrecv : L.set e .send ((L e .send).erase t) e .recv = L e .recv :=
    set_of_ne _ _ (by simp)
  rw [hrecv] at hq'
  set k₁ := (k.setQueue e .send next q).setQueue e .recv next' q' with hk₁
  set L' := (L.set e .send ((L e .send).erase t)).set e .recv ((L e .recv).erase t) with hL'
  have hmem := h.erased hown
  have hsub : ∀ e' side, (L' e' side).Sublist (L e' side) := by
    intro e' side
    by_cases he : e' = e
    · subst he
      cases side <;> simp [hL', Waiting.set, erase_sublist]
    · simp [hL', Waiting.set, he]
  -- whether a priority is recalculated afterwards makes no difference here
  have hend : ∀ k', k'.memory = k.memory → k'.endpoints = k₁.endpoints →
      (∀ x, k'.ipc x = (k₁.endWait t reason).ipc x) →
      QueueInv k' L' ∧ Releases reason k L k' L' := by
    intro k' hmemory hends hipc
    have hother : ∀ x, x ≠ t → k'.ipc x = k₁.ipc x := fun x hx => by
      rw [hipc, ipc_endWait, if_neg hx]
    have hself : k'.ipc t =
        { k₁.ipc t with waitingEndpoint := none, state := .ready, status := reason } := by
      rw [hipc, ipc_endWait, if_pos rfl]
    refine ⟨h.of_threaded (hq'.congr hends fun e' side x hx => ?_) (fun x => x = t)
      (fun x hx => ⟨fun e' side => ?_, ?_⟩) ?_,
      .single (t := t) hmemory hsub (fun x => ?_) (fun x hx => ?_) ?_⟩
    · have hxt := ((hmem e' side x).mp hx).2
      simp only [blocked, hother x hxt]
    · rw [hmem, and_iff_left hx]
    · rw [hother x hx]
      exact ⟨rfl, rfl⟩
    · rintro x rfl e' side
      refine iff_of_false (fun hx => ((hmem e' side x).mp hx).2 rfl) fun hw => ?_
      have := hw.2
      rw [hself] at this
      cases this
    · by_cases hx : x = t
      · rw [hx, hself]
        rfl
      · rw [hother x hx]
        rfl
    · rw [hother x hx]
      exact ⟨rfl, rfl⟩
    · rw [hself]
      exact ⟨rfl, rfl⟩
  by_cases hrb : (k.ipc t).state = .replyBlocked
  · refine ⟨(k₁.endWait t reason).recalculateById (k.ipc t).receiverId, ?_, L',
      hend _ (by simp; rfl) (by simp) (by simp)⟩
    simp only [Kernel.cancelWaiter, hrem, hrem', bind_eq_bind, bind_some]
    exact congrArg some (if_pos hrb)
  · refine ⟨k₁.endWait t reason, ?_, L', hend _ rfl rfl fun _ => rfl⟩
    simp only [Kernel.cancelWaiter, hrem, hrem', bind_eq_bind, bind_some]
    exact congrArg some (if_neg hrb)

/-- The head of a queue has been taken out and its wait ended. -/
theorem cancelHead {l : List (Fin N)} (hl : L e side = t :: l) {next : Blocked N} {q : WaitQueue N}
    (hq : Threaded (k.setQueue e side next q) (L.set e side l)) (reason : IpcStatus) :
    QueueInv ((k.setQueue e side next q).cancelOne t reason) (L.set e side l) ∧
      Releases reason k L ((k.setQueue e side next q).cancelOne t reason) (L.set e side l) := by
  have ht : t ∈ L e side := by simp [hl]
  have hnd : t ∉ l := by
    have := (h.holds e side).nodup
    rw [hl] at this
    exact (nodup_cons.mp this).1
  have hout : ∀ e' side', t ∉ L.set e side l e' side' := by
    intro e' side' hx
    by_cases hs : e' = e ∧ side' = side
    · obtain ⟨rfl, rfl⟩ := hs
      rw [set_self] at hx
      exact hnd hx
    · rw [set_of_ne _ _ hs] at hx
      exact hs (h.toThreaded.disjoint hx ht)
  obtain ⟨hother, hself, hwait, hmsg⟩ :=
    cancelOne_context (k.setQueue e side next q) t reason
  refine ⟨h.of_threaded (hq.congr rfl fun e' side' x hx => ?_) (fun x => x = t)
    (fun x hx => ⟨fun e' side' => ?_, ?_⟩) ?_,
    .single rfl (fun e' side' => ?_) hmsg (fun x hx => ?_) hself⟩
  · have hxt : x ≠ t := fun hxt => hout e' side' (hxt ▸ hx)
    simp only [blocked, hother x hxt]
  · by_cases hs : e' = e ∧ side' = side
    · obtain ⟨rfl, rfl⟩ := hs
      rw [set_self, hl, mem_cons, or_iff_right hx]
    · rw [set_of_ne _ _ hs]
  · rw [hother x hx]
    exact ⟨rfl, rfl⟩
  · rintro x rfl e' side'
    exact iff_of_false (hout e' side') fun hw => nomatch hwait.symm.trans hw.2
  · by_cases hs : e' = e ∧ side' = side
    · obtain ⟨rfl, rfl⟩ := hs
      rw [set_self, hl]
      exact sublist_cons_self t l
    · rw [set_of_ne _ _ hs]
  · rw [hother x hx]
    exact ⟨rfl, rfl⟩

theorem drain (e : EndpointId) (side : Side) (reason : IpcStatus) {fuel : Nat}
    (hfuel : (L e side).length ≤ fuel) :
    ∃ k', drain e side reason fuel k = some k' ∧ QueueInv k' (L.set e side []) ∧
      Releases reason k L k' (L.set e side []) := by
  induction hl : L e side generalizing k L fuel with
  | nil =>
    have hdeq := h.toThreaded.dequeue_nil hl
    refine ⟨k, ?_, ?_⟩
    · unfold drain
      rw [← Prod.mk.eta (p := k.dequeue e side), hdeq]
    · rw [← hl, set_same]
      exact ⟨h, .refl reason k L⟩
  | cons t l ih =>
    obtain ⟨next, q, hdeq, hq⟩ := h.toThreaded.dequeue_cons hl
    obtain ⟨h₁, hrel⟩ := h.cancelHead hl hq reason
    have hrest : L.set e side l e side = l := set_self ..
    obtain ⟨fuel, rfl⟩ : ∃ n, fuel = n + 1 := ⟨fuel - 1, by simp [hl] at hfuel; omega⟩
    have hset : (L.set e side l).set e side [] = L.set e side [] := by
      funext e' side'
      by_cases hs : e' = e ∧ side' = side <;> simp [Waiting.set, hs]
    unfold drain
    rw [hdeq, ← hset]
    have hfuel' : (L.set e side l e side).length ≤ fuel := by simpa [hrest, hl] using hfuel
    cases side with
    | send =>
      obtain ⟨k', hk', h', hrel'⟩ := ih h₁ hfuel' hrest
      exact ⟨k', hk', h', hrel.trans hrel'⟩
    | recv =>
      obtain ⟨k', hk', h', hrel'⟩ := ih
        (k := ((k.setQueue e .recv next q).cancelOne t reason).recalculateReceiverPriority t)
        (h₁.congr rfl fun _ => ⟨rfl, rfl, rfl⟩) hfuel' hrest
      refine ⟨k', hk', h', (hrel.trans ?_).trans hrel'⟩
      exact .of_ipc_eq rfl (fun _ => rfl) fun _ => ⟨rfl, rfl⟩

theorem cancelReplies (hempty : ∀ side, L e side = []) (reason : IpcStatus) (i : Fin N) :
    QueueInv (cancelReplies e reason k i) L ∧
      Releases reason k L (cancelReplies e reason k i) L := by
  unfold Kernel.cancelReplies
  split_ifs with hi
  · have hout : ∀ e' side, i ∉ L e' side := by
      intro e' side hmem
      have he := ((h.mem _ _ _).mp hmem).2
      obtain rfl : e' = e := some.inj (he.symm.trans hi.2)
      simp [hempty] at hmem
    obtain ⟨hother, hself, hwait, hmsg⟩ := cancelOne_context k i reason
    have hipc := (frame_recalculateById (k.cancelOne i reason) (k.ipc i).receiverId).1
    refine ⟨h.modify hout (by simp) (fun x hx => ?_) fun e' side hw => ?_,
      .single ?_ (fun _ _ => List.Sublist.refl _) (by rwa [hipc]) (fun x hx => ?_)
        (by rwa [hipc])⟩
    · rw [hipc, hother x hx]
    · rw [Kernel.Waits, hipc] at hw
      cases hwait.symm.trans hw.2
    · exact (frame_recalculateById ..).2.2.1
    · rw [hipc, hother x hx]
      exact ⟨rfl, rfl⟩
  · exact ⟨h, .refl reason k L⟩

/-- **`cancel_all` keeps the queues**, comes back, and leaves the endpoint's own empty. -/
theorem cancelAll (e : EndpointId) (reason : IpcStatus) :
    ∃ k', k.cancelAll e reason = some k' ∧ QueueInv k' ((L.set e .send []).set e .recv []) ∧
      Releases reason k L k' ((L.set e .send []).set e .recv []) := by
  obtain ⟨k₁, hd₁, h₁, hrel₁⟩ := h.drain e .send reason (h.length_le e .send)
  obtain ⟨k₂, hd₂, h₂, hrel₂⟩ := h₁.drain e .recv reason (h₁.length_le e .recv)
  refine ⟨_, by simp only [Kernel.cancelAll, hd₁, hd₂, bind_eq_bind, bind_some]; rfl,
    Run.foldl_invariant (P := fun k' => QueueInv k' _ ∧ Releases reason k L k' _)
      (fun k' i _ hk => ?_) ⟨h₂, hrel₁.trans hrel₂⟩⟩
  have hempty : ∀ side, (L.set e .send []).set e .recv [] e side = [] := fun side => by
    cases side <;> simp [Waiting.set]
  obtain ⟨hinv, hrel⟩ := hk.1.cancelReplies hempty reason i
  exact ⟨hinv, hk.2.trans hrel⟩

end QueueInv

end AuroraOS
