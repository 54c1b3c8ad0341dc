import AuroraOS.Task
import AuroraOS.Lib.Chain
import Mathlib.Data.List.TakeWhile

/-!
# Wait queues

`class WaitQueue` of `kernel/task/wait_queue.cpp`. A queue is threaded through the `blocked_next`
fields of the control blocks, so each operation takes the field as a function of the task and
returns it updated. A result `none` is a loop that does not come to an end.

`Holds q next l` says that the queue `q` is the list `l`. On such a queue every operation returns,
and it is a list operation: `enqueue` inserts by priority, `remove` erases, and the selective
`dequeue_matching_sender` and `dequeue_matching_receiver` take out the first match.
-/

namespace AuroraOS

open Chain Function List WaitQueue

variable {N : Nat}

/-- `blocked_next` as a function of the task. -/
abbrev Blocked (N : Nat) := Fin N → Option (Fin N)

namespace WaitQueue

variable {b : List (Fin N)} {x : Fin N}

/-! ## The source's operations -/

/-- `WaitQueue::enqueue`: before the first task of a lower priority. -/
def enqueue (prio : Fin N → Nat) (next : Blocked N) (q : WaitQueue N) (t : Fin N) :
    Option (Blocked N × WaitQueue N) :=
  let next := Function.update next t none
  match q.head with
  | none => some (next, ⟨some t, q.tail.or (some t)⟩)
  | some head =>
    if prio head < prio t then
      some (Function.update next t (some head), ⟨some t, q.tail.or (some t)⟩)
    else do
      let curr ← seek next (fun c => prio t ≤ prio c) N head
      let next := Function.update next t (next curr)
      let next := Function.update next curr (some t)
      return (next, ⟨q.head, if q.tail = some curr then some t else q.tail⟩)

/-- `WaitQueue::dequeue`. -/
def dequeue (next : Blocked N) (q : WaitQueue N) : Blocked N × WaitQueue N × Option (Fin N) :=
  match q.head with
  | none => (next, q, none)
  | some t =>
    let head := next t
    (Function.update next t none, ⟨head, if head = none then none else q.tail⟩, some t)

/-- Take the node `curr` after `prev` out of the queue. -/
def unlinkAfter (next : Blocked N) (q : WaitQueue N) (prev curr : Fin N) :
    Blocked N × WaitQueue N :=
  let next := Function.update next prev (next curr)
  let tail := if q.tail = some curr then some prev else q.tail
  (Function.update next curr none, ⟨q.head, tail⟩)

/-- The shape that `dequeue_matching_sender` and `dequeue_matching_receiver` share: take out the
first task that matches. -/
def dequeueMatching (matching : Fin N → Bool) (next : Blocked N) (q : WaitQueue N) :
    Option (Blocked N × WaitQueue N × Option (Fin N)) :=
  match q.head with
  | none => some (next, q, none)
  | some head =>
    if matching head then some (dequeue next q)
    else do
      let prev ← seek next (fun c => !matching c) N head
      match next prev with
      | none => return (next, q, none)
      | some curr =>
        let (next, q) := unlinkAfter next q prev curr
        return (next, q, some curr)

/-- A receiver's label filter: zero accepts every label. -/
def accepts (labelFilter label : Nat) : Bool := labelFilter = 0 ∨ label = labelFilter

/-- `WaitQueue::dequeue_matching_sender`, for the labels `msg_type` of the tasks. -/
def dequeueMatchingSender (msgType : Fin N → Nat) (labelFilter : Nat) (next : Blocked N)
    (q : WaitQueue N) : Option (Blocked N × WaitQueue N × Option (Fin N)) :=
  dequeueMatching (fun t => accepts labelFilter (msgType t)) next q

/-- `WaitQueue::dequeue_matching_receiver`, for the filters `label_filter` of the tasks. -/
def dequeueMatchingReceiver (labelFilter : Fin N → Nat) (senderLabel : Nat) (next : Blocked N)
    (q : WaitQueue N) : Option (Blocked N × WaitQueue N × Option (Fin N)) :=
  dequeueMatching (fun t => accepts (labelFilter t) senderLabel) next q

/-- `WaitQueue::remove`. -/
def remove (next : Blocked N) (q : WaitQueue N) (t : Fin N) :
    Option (Blocked N × WaitQueue N × Bool) :=
  match q.head with
  | none => some (next, q, false)
  | some head =>
    if head = t then
      let (next, q, _) := dequeue next q
      some (next, q, true)
    else do
      let curr ← seek next (fun c => c ≠ t) N head
      if next curr = some t then
        let (next, q) := unlinkAfter next q curr t
        return (next, q, true)
      else return (next, q, false)

/-! ## Queues as lists -/

/-- The queue `q` is the list `l`: a finite list through `blocked_next`, with `tail_` its last
node. -/
def Holds (q : WaitQueue N) (next : Blocked N) (l : List (Fin N)) : Prop :=
  Path next q.head l none ∧ q.tail = l.getLast?

/-- Where `enqueue` puts `t`. -/
def insertByPrio (prio : Fin N → Nat) (t : Fin N) (l : List (Fin N)) : List (Fin N) :=
  l.takeWhile (fun c => prio t ≤ prio c) ++ t :: l.dropWhile (fun c => prio t ≤ prio c)

theorem perm_insertByPrio (prio : Fin N → Nat) (t : Fin N) (l : List (Fin N)) :
    (insertByPrio prio t l).Perm (t :: l) := by
  refine perm_middle.trans ?_
  rw [takeWhile_append_dropWhile]

/-- The order of a queue: by priority, and among equals by `stamp`. -/
def Before (prio stamp : Fin N → Nat) (a b : Fin N) : Prop :=
  prio b < prio a ∨ prio b = prio a ∧ stamp a < stamp b
  deriving Decidable

/-- A task with the latest stamp is put where the order wants it. -/
theorem pairwise_insertByPrio {prio stamp : Fin N → Nat} {t : Fin N} {l : List (Fin N)}
    (h : l.Pairwise (Before prio stamp)) (hlatest : ∀ c ∈ l, stamp c < stamp t) :
    (insertByPrio prio t l).Pairwise (Before prio stamp) := by
  induction l with
  | nil => exact pairwise_singleton ..
  | cons c l ih =>
    obtain ⟨hc, hl⟩ := pairwise_cons.mp h
    have hct := hlatest c (mem_cons_self ..)
    by_cases hle : prio t ≤ prio c
    · have hinsert : insertByPrio prio t (c :: l) = c :: insertByPrio prio t l := by
        simp [insertByPrio, hle]
      rw [hinsert]
      refine pairwise_cons.mpr ⟨fun x hx => ?_, ih hl fun x hx =>
        hlatest x (mem_cons_of_mem _ hx)⟩
      rcases mem_cons.mp ((perm_insertByPrio ..).mem_iff.mp hx) with rfl | hx
      · unfold Before
        omega
      · exact hc x hx
    · have hinsert : insertByPrio prio t (c :: l) = t :: c :: l := by
        simp [insertByPrio, hle]
      rw [hinsert]
      refine pairwise_cons.mpr ⟨fun x hx => .inl ?_, h⟩
      rcases mem_cons.mp hx with rfl | hx
      · omega
      · have := hc x hx
        unfold Before at this
        omega

variable {q : WaitQueue N} {next : Blocked N} {l : List (Fin N)} {t : Fin N}

namespace Holds

theorem nodup (h : Holds q next l) : l.Nodup := h.1.nodup

theorem congr (h : Holds q next l) {next' : Blocked N} (hn : ∀ x ∈ l, next' x = next x) :
    Holds q next' l := ⟨h.1.congr hn, h.2⟩

theorem eq_nil (h : Holds q next l) (hq : q.head = none) : l = [] :=
  head?_eq_none_iff.mp (h.1.head_eq.symm.trans hq)

theorem eq_cons (h : Holds q next l) (hq : q.head = some x) : ∃ b, l = x :: b :=
  head?_eq_some_iff.mp (h.1.head_eq.symm.trans hq)

theorem dequeue (h : Holds q next (x :: b)) :
    q.dequeue next = (update next x none, ⟨next x, if next x = none then none else q.tail⟩,
      some x) ∧
    Holds ⟨next x, if next x = none then none else q.tail⟩ (update next x none) b := by
  obtain ⟨⟨hhead, hpath⟩, htail⟩ := h
  have hxb : x ∉ b := (nodup_cons.mp (Path.nodup ⟨hhead, hpath⟩)).1
  refine ⟨by simp only [WaitQueue.dequeue, hhead], hpath.congr fun y hy => ?_, ?_⟩
  · have hyx : y ≠ x := fun hyx => hxb (hyx ▸ hy)
    exact update_of_ne hyx _ _
  · rw [hpath.head_eq]
    cases b with
    | nil => rfl
    | cons y b => simpa using htail

theorem unlinkAfter {a : List (Fin N)} {p c : Fin N} (h : Holds q next (a ++ p :: c :: b)) :
    Holds (unlinkAfter next q p c).2 (unlinkAfter next q p c).1
      (a ++ p :: b) := by
  have hnd := h.nodup
  have hdist : p ≠ c ∧ p ∉ b ∧ c ∉ b ∧ p ∉ a ∧ c ∉ a := by
    simp only [nodup_append, nodup_cons, mem_cons, not_or] at hnd
    refine ⟨hnd.2.1.1.1, hnd.2.1.1.2, hnd.2.1.2.1, fun hp => ?_, fun hc => ?_⟩
    · exact hnd.2.2 p hp p (.inl rfl) rfl
    · exact hnd.2.2 c hc c (.inr (.inl rfl)) rfl
  refine ⟨h.1.unlinkAfter (by simp [WaitQueue.unlinkAfter, hdist.1]) fun x hx => ?_, ?_⟩
  · have hxp : x ≠ p := by
      rintro rfl
      simp [hdist] at hx
    have hxc : x ≠ c := by
      rintro rfl
      simp [hdist] at hx
    simp [WaitQueue.unlinkAfter, hxp, hxc]
  · simp only [WaitQueue.unlinkAfter, h.2]
    cases hb : b.getLast? with
    | none =>
      obtain rfl := getLast?_eq_none_iff.mp hb
      simp
    | some z =>
      have hz : z ≠ c := fun hz => hdist.2.2.1 (hz ▸ mem_of_getLast? hb)
      simp [getLast?_append, getLast?_cons, hb, hz]

end Holds

/-- What is left when the first match is taken out. -/
theorem mem_eraseP_iff {p : Fin N → Bool} (hl : l.Nodup) (hfind : l.find? p = some t) :
    x ∈ l.eraseP p ↔ x ∈ l ∧ x ≠ t := by
  obtain ⟨hp, a, b, rfl, hmiss⟩ := find?_eq_some_iff_append.mp hfind
  have hmiss : ∀ y ∈ a, ¬ p y := fun y hy => by simpa using hmiss y hy
  rw [eraseP_append_right _ hmiss, eraseP_cons_of_pos hp]
  have hnd := nodup_middle.mp hl
  constructor
  · intro hx
    refine ⟨by rcases mem_append.mp hx with hx | hx <;> simp [hx], ?_⟩
    rintro rfl
    exact hnd.notMem hx
  · rintro ⟨hx, hxt⟩
    simpa [hxt] using hx

/-! ## What the operations do to the list -/

/-- How a walk from the head splits the list at the first node that fails `p`. -/
theorem Holds.split (h : Holds q next (x :: b)) (p : Fin N → Bool) :
    ∃ a c, x :: b.takeWhile p = a ++ [c] ∧ x :: b = a ++ c :: b.dropWhile p ∧
      seek next p N x = some c ∧ next c = (b.dropWhile p).head? := by
  refine seek_split h.1.2 ?_
  have hlen := h.1.length_le_card
  rw [Fintype.card_fin] at hlen
  exact hlen

/-- **`dequeue_matching_*`** take out the first task that matches. -/
theorem dequeueMatching_spec (h : Holds q next l) (matching : Fin N → Bool) :
    ∃ next' q', dequeueMatching matching next q = some (next', q', l.find? matching) ∧
      Holds q' next' (l.eraseP matching) ∧ ∀ x, x ∉ l → next' x = next x := by
  unfold dequeueMatching
  cases hq : q.head with
  | none =>
    obtain rfl := h.eq_nil hq
    exact ⟨next, q, rfl, h, fun _ _ => rfl⟩
  | some x =>
    obtain ⟨b, rfl⟩ := h.eq_cons hq
    by_cases hx : matching x
    · obtain ⟨heq, hb⟩ := h.dequeue
      refine ⟨_, _, ?_, by rwa [eraseP_cons_of_pos hx], fun y hy => ?_⟩
      · simp only [if_pos hx, heq, find?_cons_of_pos hx]
      · have hyx : y ≠ x := fun hyx => hy (by simp [hyx])
        exact update_of_ne hyx _ _
    · obtain ⟨a, c, hac, hsplit, hseek, hnext⟩ := h.split fun z => !matching z
      have hfind : (x :: b).find? matching = (b.dropWhile fun z => !matching z).head? := by
        rw [find?_cons_of_neg hx, find?_eq_head?_dropWhile_not]
      -- nothing up to `c` matches
      have hmiss : ∀ z ∈ a ++ [c], ¬ matching z := by
        rw [← hac]
        intro z hz
        rcases mem_cons.mp hz with rfl | hz
        · exact hx
        · simpa using mem_takeWhile_imp hz
      simp only [if_neg hx, hseek, Option.bind_eq_bind, Option.bind_some, hnext]
      cases hd : b.dropWhile fun z => !matching z with
      | nil =>
        rw [hd] at hfind hsplit
        refine ⟨next, q, by rw [hfind]; rfl, ?_, fun _ _ => rfl⟩
        rwa [eraseP_of_forall_not (hsplit ▸ hmiss)]
      | cons y d =>
        rw [hd] at hfind hsplit
        have hy : matching y := by
          have hhead := hfind
          simpa using find?_some hhead
        have herase : (x :: b).eraseP matching = a ++ c :: d := by
          have := eraseP_append_right (y :: d) hmiss
          rw [append_assoc, append_assoc, eraseP_cons_of_pos hy] at this
          rw [hsplit]
          exact this
        refine ⟨_, _, by rw [hfind]; rfl, ?_, fun z hz => ?_⟩
        · rw [herase]
          rw [hsplit] at h
          exact h.unlinkAfter
        · rw [hsplit] at hz
          simp only [mem_append, mem_cons, not_or] at hz
          simp [unlinkAfter, hz.2.1, hz.2.2.1]

/-- `remove` is a selective dequeue of the task itself. -/
theorem remove_eq (next : Blocked N) (q : WaitQueue N) (t : Fin N) :
    remove next q t =
      (dequeueMatching (fun c => c = t) next q).map fun r => (r.1, r.2.1, r.2.2.isSome) := by
  unfold remove dequeueMatching
  cases hq : q.head with
  | none => rfl
  | some x =>
    by_cases hx : x = t
    · simp only [if_pos hx, decide_eq_true hx, dequeue, hq]
      rfl
    · have hpred : (fun c => !decide (c = t)) = fun c => decide (c ≠ t) := by simp
      simp only [if_neg hx, decide_eq_true_eq, hpred, Option.bind_eq_bind]
      cases hseek : seek next (fun c => c ≠ t) N x with
      | none => rfl
      | some c =>
        simp only [Option.bind_some]
        cases hc : next c with
        | none => rfl
        | some y =>
          obtain rfl : y = t := by simpa using seek_stop hseek hc
          simp

/-- **`remove`** erases the task, if it is in the queue. -/
theorem remove_spec (h : Holds q next l) (t : Fin N) :
    ∃ next' q' b, remove next q t = some (next', q', b) ∧
      Holds q' next' (l.erase t) ∧ ∀ x, x ∉ l → next' x = next x := by
  obtain ⟨next', q', heq, hl, hframe⟩ := dequeueMatching_spec h fun c => c = t
  refine ⟨next', q', _, by rw [remove_eq, heq]; rfl, ?_, hframe⟩
  rwa [erase_eq_eraseP']

/-- **`enqueue`** inserts by priority, behind the tasks of the same priority. -/
theorem enqueue_spec (prio : Fin N → Nat) (h : Holds q next l) (ht : t ∉ l) :
    ∃ next' q', enqueue prio next q t = some (next', q') ∧
      Holds q' next' (insertByPrio prio t l) ∧ ∀ x, x ∉ l → x ≠ t → next' x = next x := by
  have hne : ∀ x ∈ l, x ≠ t := fun x hx hxt => ht (hxt ▸ hx)
  have h' : Holds q (update next t none) l :=
    h.congr fun x hx => update_of_ne (hne x hx) _ _
  unfold enqueue
  cases hq : q.head with
  | none =>
    obtain rfl := h.eq_nil hq
    refine ⟨_, _, rfl, ⟨⟨rfl, by simp⟩, by simp [h.2, insertByPrio]⟩, fun x _ hxt => ?_⟩
    exact update_of_ne hxt _ _
  | some x =>
    obtain ⟨b, rfl⟩ := h.eq_cons hq
    by_cases hlt : prio x < prio t
    · -- in front of everyone
      have hfront : insertByPrio prio t (x :: b) = t :: x :: b := by
        simp [insertByPrio, Nat.not_le.mpr hlt]
      refine ⟨_, _, by simp only [if_pos hlt]; rfl, ?_, fun y _ hyt => ?_⟩
      · rw [hfront]
        refine ⟨⟨rfl, ?_⟩, ?_⟩
        · have hpath : Path next (some x) (x :: b) none := ⟨rfl, h.1.2⟩
          rw [update_self]
          exact hpath.congr fun y hy => by simp [hne y hy]
        · rw [h.2]
          simp [getLast?_cons]
      · simp [hyt]
    · obtain ⟨a, c, hac, hsplit, hseek, hnext⟩ := h'.split fun z => prio t ≤ prio z
      have hmiddle : insertByPrio prio t (x :: b) =
          a ++ c :: t :: b.dropWhile fun z => prio t ≤ prio z := by
        have hx : prio t ≤ prio x := Nat.not_lt.mp hlt
        simp only [insertByPrio, takeWhile_cons, dropWhile_cons, hx, decide_true,
          if_true, hac, append_assoc, singleton_append]
      have hct : c ≠ t := hne c (by simp [hsplit])
      refine ⟨_, _, by simp only [if_neg hlt, hseek]; rfl,
        ?_, fun y hy hyt => ?_⟩
      · rw [hmiddle]
        have hpath := h'.1
        have hnd := h.nodup
        rw [hq, hsplit] at hpath
        rw [hsplit] at hnd hne
        refine ⟨hpath.insertAfter (update_self ..) ?_ fun y hy => ?_, ?_⟩
        · rw [update_of_ne hct.symm, update_self]
        · have hyc : y ≠ c := by
            rintro rfl
            exact (nodup_middle.mp hnd).notMem hy
          have hyt : y ≠ t := hne y (by
            rcases mem_append.mp hy with hy | hy <;> simp [hy])
          rw [update_of_ne hyc, update_of_ne hyt]
        · rw [h.2, hsplit]
          cases hd : (b.dropWhile fun z => prio t ≤ prio z).getLast? with
          | none => simp [getLast?_eq_none_iff.mp hd]
          | some z =>
            have hzc : z ≠ c := by
              rintro rfl
              exact (nodup_middle.mp hnd).notMem (by simp [mem_of_getLast? hd])
            simp [getLast?_append, getLast?_cons, hd, hzc]
      · have hyc : y ≠ c := by
          rintro rfl
          exact hy (by simp [hsplit])
        rw [update_of_ne hyc, update_of_ne hyt, update_of_ne hyt]

end WaitQueue

end AuroraOS
