import AuroraOS.Scheduler
import AuroraOS.Lib.Links

/-!
# The ready lists are the ready tasks

The abstract scheduler keeps one queue of tasks per priority level, `Queues N`. `Threads s Q` says
that the scheduler's links, heads and bitmap spell out the queues `Q`: every `Q p` is a ring
through `next_ready` and `prev_ready` entered at `ready_head[p]`, bit `p` of `ready_bitmask` is set
exactly when `Q p` is not empty, and a task in no queue has both links `-1`.

`push_ready` appends to a queue and `remove_ready` erases from one, whatever the position of the
task in its list. `Agrees` adds that a task is queued exactly when its state is `Ready`; every
operation that moves tasks keeps it.
-/

namespace AuroraOS

open Bitmap Links Function Scheduler SchedulerContext List

variable {N : Nat}

/-- Forget the list links. -/
def SchedulerContext.unlinked (c : SchedulerContext N) : SchedulerContext N :=
  { c with nextReady := none, prevReady := none }

namespace Scheduler

/-- `next_ready` as a function of the task. -/
def next (s : Scheduler N) (i : Fin N) : Option (Fin N) := (s.tasks i).nextReady

/-- `prev_ready` as a function of the task. -/
def prev (s : Scheduler N) (i : Fin N) : Option (Fin N) := (s.tasks i).prevReady

def IsReady (s : Scheduler N) (i : Fin N) : Prop := (s.tasks i).state = .ready
  deriving Decidable

/-! ## What the field updates change -/

variable (s : Scheduler N) (i : Fin N) (v : Option (Fin N))

variable (f : SchedulerContext N → SchedulerContext N)

theorem tasks_modify (j : Fin N) :
    (s.modify i f).tasks j = if j = i then f (s.tasks i) else s.tasks j := by
  simp [modify, update_apply]

@[simp] theorem taskCount_modify : (s.modify i f).taskCount = s.taskCount := rfl

theorem links_modify {f : SchedulerContext N → SchedulerContext N}
    (hn : (f (s.tasks i)).nextReady = (s.tasks i).nextReady)
    (hp : (f (s.tasks i)).prevReady = (s.tasks i).prevReady) :
    (s.modify i f).next = s.next ∧ (s.modify i f).prev = s.prev := by
  constructor <;> funext j <;> simp only [next, prev, tasks_modify] <;> split_ifs <;>
    simp [*]

@[simp] theorem next_setNextReady : (s.setNextReady i v).next = update s.next i v := by
  funext j
  simp only [next, setNextReady, tasks_modify, update_apply]
  split_ifs <;> rfl

@[simp] theorem prev_setNextReady : (s.setNextReady i v).prev = s.prev := by
  funext j
  simp only [prev, setNextReady, tasks_modify]
  split_ifs with h <;> simp [h]

@[simp] theorem next_setPrevReady : (s.setPrevReady i v).next = s.next := by
  funext j
  simp only [next, setPrevReady, tasks_modify]
  split_ifs with h <;> simp [h]

@[simp] theorem prev_setPrevReady : (s.setPrevReady i v).prev = update s.prev i v := by
  funext j
  simp only [prev, setPrevReady, tasks_modify, update_apply]
  split_ifs <;> rfl

@[simp] theorem next_setReadyHead (p : Fin numPriorities) :
    (s.setReadyHead p v).next = s.next := rfl

@[simp] theorem prev_setReadyHead (p : Fin numPriorities) :
    (s.setReadyHead p v).prev = s.prev := rfl

@[simp] theorem unlinked_setNextReady (j : Fin N) :
    ((s.setNextReady i v).tasks j).unlinked = (s.tasks j).unlinked := by
  simp only [setNextReady, tasks_modify]
  split_ifs with h <;> simp [h, unlinked]

@[simp] theorem unlinked_setPrevReady (j : Fin N) :
    ((s.setPrevReady i v).tasks j).unlinked = (s.tasks j).unlinked := by
  simp only [setPrevReady, tasks_modify]
  split_ifs with h <;> simp [h, unlinked]

/-- `push_ready` changes nothing but links, a head and the bitmap. -/
@[simp] theorem unlinked_pushReady (i j : Fin N) :
    ((s.pushReady i).tasks j).unlinked = (s.tasks j).unlinked := by
  dsimp only [pushReady]
  split
  · rw [unlinked_setPrevReady, unlinked_setNextReady]
    rfl
  · split
    · rfl
    · simp

@[simp] theorem taskCount_pushReady : (s.pushReady i).taskCount = s.taskCount := by
  dsimp only [pushReady]
  split
  · rfl
  · split <;> rfl

/-- `remove_ready` changes nothing but links, a head and the bitmap. -/
@[simp] theorem unlinked_removeReady (i j : Fin N) :
    ((s.removeReady i).tasks j).unlinked = (s.tasks j).unlinked := by
  dsimp only [removeReady]
  split
  · rfl
  · rw [unlinked_setPrevReady, unlinked_setNextReady]
    split_ifs
    · rfl
    · split
      · rfl
      · split_ifs
        · show (((s.setNextReady _ _).setPrevReady _ _).tasks j).unlinked = _
          simp
        · simp

@[simp] theorem taskCount_removeReady : (s.removeReady i).taskCount = s.taskCount := by
  dsimp only [removeReady]
  split
  · rfl
  · split_ifs
    · rfl
    · split
      · rfl
      · split_ifs <;> rfl

theorem state_of_unlinked {c d : SchedulerContext N} (h : c.unlinked = d.unlinked) :
    c.state = d.state := congrArg (·.state) h

end Scheduler

/-! ## Queues spelled out by links -/

/-- One queue of tasks per priority level. -/
abbrev Queues (N : Nat) := Fin numPriorities → List (Fin N)

/-- The links, heads and bitmap of `s` spell out the queues `Q`. -/
structure Threads (s : Scheduler N) (Q : Queues N) : Prop where
  head : ∀ p, s.readyHead p = (Q p).head?
  ring : ∀ p, IsRing s.next s.prev (Q p)
  level : ∀ p, ∀ i ∈ Q p, s.level i = p
  bit : ∀ p : Fin numPriorities, s.readyBitmask.getLsbD p = true ↔ Q p ≠ []
  out : ∀ i, (∀ p, i ∉ Q p) → s.next i = none ∧ s.prev i = none

namespace Threads

variable {s : Scheduler N} {Q : Queues N} {i : Fin N} {s' : Scheduler N}

/-- Queues survive a change of the scheduler that keeps links, heads, bitmap and the levels of
queued tasks. -/
theorem congr (h : Threads s Q) (hhead : s'.readyHead = s.readyHead)
    (hnext : s'.next = s.next) (hprev : s'.prev = s.prev)
    (hlevel : ∀ p, ∀ i ∈ Q p, s'.level i = s.level i)
    (hbit : s'.readyBitmask = s.readyBitmask) : Threads s' Q where
  head p := by rw [hhead, h.head]
  ring p := by rw [hnext, hprev]; exact h.ring p
  level p i hi := by rw [hlevel p i hi, h.level p i hi]
  bit p := by rw [hbit, h.bit]
  out i hi := by rw [hnext, hprev]; exact h.out i hi

theorem level_eq_of_unlinked
    (h : (s'.tasks i).unlinked = (s.tasks i).unlinked) : s'.level i = s.level i := by
  have hprio : (s'.tasks i).currentPriority = _ := congrArg (·.currentPriority) h
  rw [Scheduler.level, hprio]
  rfl

variable (h : Threads s Q)

include h

/-- Replacing the queue of one level. Outside the old and the new queue no link may change, and a
task that leaves the queue loses its links. -/
theorem updateQueue {p : Fin numPriorities}
    {l : List (Fin N)} (hlevel : ∀ j, s'.level j = s.level j) (hl : ∀ j ∈ l, s.level j = p)
    (hhead : ∀ q, s'.readyHead q = if q = p then l.head? else s.readyHead q)
    (hring : IsRing s'.next s'.prev l)
    (hbit : ∀ q : Fin numPriorities, s'.readyBitmask.getLsbD q = true ↔
      if q = p then l ≠ [] else s.readyBitmask.getLsbD q = true)
    (hsame : ∀ j, j ∉ Q p → j ∉ l → s'.next j = s.next j ∧ s'.prev j = s.prev j)
    (hgone : ∀ j ∈ Q p, j ∉ l → s'.next j = none ∧ s'.prev j = none) :
    Threads s' (update Q p l) where
  head q := by
    rw [hhead, update_apply]
    split_ifs
    · rfl
    · exact h.head q
  ring q := by
    rw [update_apply]
    split_ifs with hq
    · exact hring
    · have hoff : ∀ j ∈ Q q, j ∉ Q p ∧ j ∉ l := fun j hj =>
        ⟨fun hjp => hq ((h.level q j hj).symm.trans (h.level p j hjp)),
          fun hjl => hq ((h.level q j hj).symm.trans (hl j hjl))⟩
      exact (h.ring q).congr (fun j hj => (hsame j (hoff j hj).1 (hoff j hj).2).1)
        (fun j hj => (hsame j (hoff j hj).1 (hoff j hj).2).2)
  level q j hj := by
    rw [hlevel]
    rw [update_apply] at hj
    split_ifs at hj with hq
    · rw [hl j hj, hq]
    · exact h.level q j hj
  bit q := by
    rw [hbit, update_apply]
    split_ifs
    · rfl
    · exact h.bit q
  out j hj := by
    have hjl : j ∉ l := by simpa using hj p
    by_cases hjp : j ∈ Q p
    · exact hgone j hjp hjl
    · rw [(hsame j hjp hjl).1, (hsame j hjp hjl).2]
      refine h.out j fun q hjq => ?_
      by_cases hq : q = p
      · exact hjp (hq ▸ hjq)
      · exact hj q (by rwa [update_of_ne hq])

/-! ## Appending -/

theorem pushReady_empty
    (hhead : s.readyHead (s.level i) = none) :
    Threads (s.pushReady i) (update Q (s.level i) [i]) := by
  have hnil : Q (s.level i) = [] := head?_eq_none_iff.mp ((h.head _).symm.trans hhead)
  have hlevel : ∀ j, (s.pushReady i).level j = s.level j := fun j =>
    level_eq_of_unlinked (unlinked_pushReady s i j)
  have heq : s.pushReady i =
      { ((s.setReadyHead (s.level i) (some i)).setNextReady i (some i)).setPrevReady i (some i) with
        readyBitmask := setBit s.readyBitmask (s.level i) } := by
    simp only [pushReady, hhead]
    rfl
  have hnext : (s.pushReady i).next = update s.next i (some i) := by
    rw [heq]
    show (((s.setReadyHead _ _).setNextReady i _).setPrevReady i _).next = _
    simp
  have hprev : (s.pushReady i).prev = update s.prev i (some i) := by
    rw [heq]
    show (((s.setReadyHead _ _).setNextReady i _).setPrevReady i _).prev = _
    simp
  refine h.updateQueue hlevel (by simp) (fun q => ?_) ?_ (fun q => ?_) (fun j _ hj => ?_)
    (fun j hj => ?_)
  · rw [heq]
    show update s.readyHead (s.level i) (some i) q = _
    rw [update_apply]
    rfl
  · exact IsRing.singleton (by simp [hnext]) (by simp [hprev])
  · rw [heq]
    rw [getLsbD_setBit _ (s.level i).isLt]
    by_cases hq : q = s.level i
    · simp [hq]
    · have hne : (q : Nat) ≠ s.level i := fun hqp => hq (Fin.ext hqp)
      simp [hq, hne]
  · have hji : j ≠ i := by simpa using hj
    simp [hnext, hprev, hji]
  · simp [hnil] at hj

theorem pushReady_nonempty {x : Fin N} (hi : ∀ p, i ∉ Q p)
    (hhead : s.readyHead (s.level i) = some x) :
    Threads (s.pushReady i) (update Q (s.level i) (Q (s.level i) ++ [i])) := by
  have hx : (Q (s.level i)).head? = some x := by rw [← h.head, hhead]
  have hxQ : x ∈ Q (s.level i) := mem_of_mem_head? hx
  obtain ⟨t, ht⟩ : ∃ t, (Q (s.level i)).getLast? = some t :=
    ⟨_, getLast?_eq_getLast_of_ne_nil (ne_nil_of_mem hxQ)⟩
  have htQ : t ∈ Q (s.level i) := mem_of_getLast? ht
  have hmem : ∀ {j}, j ∈ Q (s.level i) → j ≠ i := fun hj hji => hi _ (hji ▸ hj)
  have htx : (s.tasks x).prevReady = some t := ((h.ring _).prev_head hx ht).2
  have heq : s.pushReady i =
      (((s.setNextReady t (some i)).setPrevReady i (some t)).setNextReady i
        (some x)).setPrevReady x (some i) := by
    simp only [pushReady, hhead, htx]
  have hlevel : ∀ j, (s.pushReady i).level j = s.level j := fun j =>
    level_eq_of_unlinked (unlinked_pushReady s i j)
  have hnext : (s.pushReady i).next =
      update (update s.next t (some i)) i (some x) := by
    rw [heq]
    simp
  have hprev : (s.pushReady i).prev =
      update (update s.prev i (some t)) x (some i) := by
    rw [heq]
    simp
  refine h.updateQueue hlevel (fun j hj => ?_) (fun q => ?_) ?_ (fun q => ?_)
    (fun j hjQ hj => ?_) (fun j hjQ hj => ?_)
  · rcases mem_append.mp hj with hj | hj
    · exact h.level _ j hj
    · rw [mem_singleton.mp hj]
  · rw [heq]
    show s.readyHead q = _
    split_ifs with hq
    · rw [head?_append_of_ne_nil _ (ne_nil_of_mem hxQ), hx, hq, hhead]
    · rfl
  · rw [hnext, hprev]
    refine (h.ring _).push hx ht (hi _) ⟨?_, ?_⟩ ⟨?_, ?_⟩ (fun z hz hzt => ?_)
      (fun z hz hzx => ?_)
    · rw [update_of_ne (hmem htQ), update_self]
    · rw [update_of_ne (hmem hxQ).symm, update_self]
    · rw [update_self]
    · rw [update_self]
    · rw [update_of_ne (hmem hz), update_of_ne hzt]
    · rw [update_of_ne hzx, update_of_ne (hmem hz)]
  · rw [heq]
    show s.readyBitmask.getLsbD q = true ↔ _
    split_ifs with hq
    · rw [hq, h.bit]
      simp [ne_nil_of_mem hxQ]
    · rfl
  · have hji : j ≠ i := fun hji => hj (by simp [hji])
    have hjt : j ≠ t := fun hjt => hjQ (hjt ▸ htQ)
    have hjx : j ≠ x := fun hjx => hjQ (hjx ▸ hxQ)
    simp [hnext, hprev, hji, hjt, hjx]
  · exact absurd (mem_append_left _ hjQ) hj

/-- **`push_ready` appends** an unqueued task to the queue of its level. -/
theorem pushReady (hi : ∀ p, i ∉ Q p) :
    Threads (s.pushReady i) (update Q (s.level i) (Q (s.level i) ++ [i])) := by
  cases hhead : s.readyHead (s.level i) with
  | none =>
    have hnil : Q (s.level i) = [] := head?_eq_none_iff.mp ((h.head _).symm.trans hhead)
    rw [hnil]
    exact h.pushReady_empty hhead
  | some x => exact h.pushReady_nonempty hi hhead

/-! ## Unlinking -/

theorem removeReady_single (hQ : Q (s.level i) = [i]) :
    Threads (s.removeReady i) (update Q (s.level i) []) := by
  have hlevel : ∀ j, (s.removeReady i).level j = s.level j := fun j =>
    level_eq_of_unlinked (unlinked_removeReady s i j)
  have hself : (s.tasks i).nextReady = some i := by
    have := h.ring (s.level i)
    rw [hQ] at this
    exact this.next_head
  have heq : s.removeReady i =
      (({ s.setReadyHead (s.level i) none with
        readyBitmask := clearBit s.readyBitmask (s.level i) } : Scheduler N).setNextReady i
          none).setPrevReady i none := by
    simp [removeReady, hself]
  have hnext : (s.removeReady i).next = update s.next i none := by
    rw [heq, next_setPrevReady, next_setNextReady]
    rfl
  have hprev : (s.removeReady i).prev = update s.prev i none := by
    rw [heq, prev_setPrevReady, prev_setNextReady]
    rfl
  refine h.updateQueue hlevel (by simp) (fun q => ?_) IsRing.nil (fun q => ?_)
    (fun j hj _ => ?_) (fun j hj _ => ?_)
  · rw [heq]
    show update s.readyHead (s.level i) none q = _
    rw [update_apply]
    rfl
  · rw [heq]
    show (clearBit s.readyBitmask (s.level i)).getLsbD q = true ↔ _
    rw [getLsbD_clearBit _ (s.level i).isLt]
    by_cases hq : q = s.level i
    · simp [hq]
    · have hne : (q : Nat) ≠ s.level i := fun hqp => hq (Fin.ext hqp)
      simp [hq, hne]
  · have hji : j ≠ i := by simpa [hQ] using hj
    simp [hnext, hprev, hji]
  · obtain rfl : j = i := by simpa [hQ] using hj
    simp [hnext, hprev]

theorem removeReady_linked {a b : List (Fin N)}
    (hQ : Q (s.level i) = a ++ i :: b) (hne : a ++ b ≠ []) :
    Threads (s.removeReady i) (update Q (s.level i) (a ++ b)) := by
  have hlevel : ∀ j, (s.removeReady i).level j = s.level j := fun j =>
    level_eq_of_unlinked (unlinked_removeReady s i j)
  have hring := h.ring (s.level i)
  have hi : i ∈ Q (s.level i) := by simp [hQ]
  have hQi : Q (s.level i) ≠ [i] := by
    intro hQi
    have hlen := congrArg length (hQ.symm.trans hQi)
    exact hne (eq_nil_of_length_eq_zero (by simpa [← Nat.add_assoc] using hlen))
  obtain ⟨prev, hprevQ, next, hnextQ, hpi', hni, hpi, hin⟩ := hring.neighbours_ne hi hQi
  have hin' : (s.tasks i).nextReady = some next := hin
  have hpi'' : (s.tasks i).prevReady = some prev := hpi
  set s₁ := (s.setNextReady prev (some next)).setPrevReady next (some prev) with hs₁
  have heq : s.removeReady i =
      ((if s.readyHead (s.level i) = some i then s₁.setReadyHead (s.level i) (some next)
        else s₁).setNextReady i none).setPrevReady i none := by
    simp only [removeReady, hin', if_neg hni, hpi'']
    rfl
  have hlinks : (if s.readyHead (s.level i) = some i then
        s₁.setReadyHead (s.level i) (some next) else s₁).next =
          update s.next prev (some next) ∧
      (if s.readyHead (s.level i) = some i then
        s₁.setReadyHead (s.level i) (some next) else s₁).prev =
          update s.prev next (some prev) := by
    split_ifs <;> simp [hs₁]
  have hnext : (s.removeReady i).next =
      update (update s.next prev (some next)) i none := by
    rw [heq, next_setPrevReady, next_setNextReady, hlinks.1]
  have hprev : (s.removeReady i).prev =
      update (update s.prev next (some prev)) i none := by
    rw [heq, prev_setPrevReady, prev_setNextReady, hlinks.2]
  have hnd : i ∉ a ++ b := by
    have := hring.nodup
    rw [hQ, nodup_middle] at this
    exact (nodup_cons.mp this).1
  have hmem : ∀ {j}, j ∈ a ++ b → j ≠ i := fun hj hji => hnd (hji ▸ hj)
  have hsplit : ∀ {j}, j ∈ Q (s.level i) ↔ j = i ∨ j ∈ a ++ b := by
    intro j
    rw [hQ]
    simp only [mem_append, mem_cons]
    tauto
  refine h.updateQueue hlevel (fun j hj => h.level _ j (hsplit.mpr (.inr hj))) (fun q => ?_) ?_
    (fun q => ?_) (fun j hjQ hj => ?_) (fun j hjQ hj => ?_)
  · rw [heq]
    have hhead := h.head (s.level i)
    rw [hQ] at hhead
    rcases a with _ | ⟨x, a⟩
    · -- `i` was the head: the head moves on to its successor.
      simp only [nil_append] at hQ hhead hne ⊢
      have hb : b.head? = some next := by
        have := h.ring (s.level i)
        rw [hQ] at this
        rw [← hin, this.next_head, head?_append_of_ne_nil b hne]
      rw [if_pos (by simp [hhead])]
      show update s.readyHead (s.level i) (some next) q = _
      rw [update_apply, hb]
    · have hxi : x ≠ i := hmem (by simp)
      rw [if_neg (by simp [hhead, hxi])]
      show s.readyHead q = _
      split_ifs with hq
      · rw [hq, hhead]
        rfl
      · rfl
  · rw [hnext, hprev]
    rw [hQ] at hring
    refine hring.unlink hne hpi hin ⟨?_, ?_⟩ (fun z hz hzp => ?_) (fun z hz hzn => ?_)
    · rw [update_of_ne hpi', update_self]
    · rw [update_of_ne hni, update_self]
    · rw [update_of_ne (hmem hz), update_of_ne hzp]
    · rw [update_of_ne (hmem hz), update_of_ne hzn]
  · have hbits : (s.removeReady i).readyBitmask = s.readyBitmask := by
      rw [heq]
      split_ifs <;> rfl
    rw [hbits]
    split_ifs with hq
    · rw [hq, h.bit]
      simp [hne, ne_nil_of_mem hi]
    · rfl
  · have hji : j ≠ i := fun hji => hjQ (hji ▸ hi)
    have hjp : j ≠ prev := fun hjp => hjQ (hjp ▸ hprevQ)
    have hjn : j ≠ next := fun hjn => hjQ (hjn ▸ hnextQ)
    simp [hnext, hprev, hji, hjp, hjn]
  · obtain rfl : j = i := (hsplit.mp hjQ).resolve_right hj
    simp [hnext, hprev]

/-- **`remove_ready` erases** a queued task, wherever it stands in its list. -/
theorem removeReady (hi : i ∈ Q (s.level i)) :
    Threads (s.removeReady i) (update Q (s.level i) ((Q (s.level i)).erase i)) := by
  obtain ⟨a, b, hQ⟩ := append_of_mem hi
  have hia : i ∉ a := by
    have := (h.ring (s.level i)).nodup
    rw [hQ, nodup_middle, nodup_cons] at this
    exact fun hia => this.1 (mem_append_left _ hia)
  have herase : (Q (s.level i)).erase i = a ++ b := by
    rw [hQ, erase_append_right _ hia, erase_cons_head]
  rw [herase]
  by_cases hne : a ++ b = []
  · obtain ⟨rfl, rfl⟩ := append_eq_nil_iff.mp hne
    exact h.removeReady_single hQ
  · exact h.removeReady_linked hQ hne

theorem modify {f : SchedulerContext N → SchedulerContext N}
    (hn : (f (s.tasks i)).nextReady = (s.tasks i).nextReady)
    (hp : (f (s.tasks i)).prevReady = (s.tasks i).prevReady)
    (hi : (∀ p, i ∉ Q p) ∨ (f (s.tasks i)).currentPriority = (s.tasks i).currentPriority) :
    Threads (s.modify i f) Q := by
  obtain ⟨hnext, hprev⟩ := links_modify s i hn hp
  refine h.congr rfl hnext hprev (fun p j hj => ?_) rfl
  simp only [Scheduler.level, Scheduler.tasks_modify]
  split_ifs with hji
  · subst hji
    rcases hi with hi | hi
    · exact absurd hj (hi p)
    · rw [hi]
  · rfl

end Threads

/-! ## Agreement with the task states -/

/-- The queues `Q` are spelled out by the links and hold exactly the tasks of `R`. -/
structure Represents (s : Scheduler N) (Q : Queues N) (R : Fin N → Prop) : Prop
    extends Threads s Q where
  mem : ∀ i, i ∈ Q (s.level i) ↔ R i

/-- The ready lists hold exactly the tasks of `R`. -/
def Queued (s : Scheduler N) (R : Fin N → Prop) : Prop := ∃ Q, Represents s Q R

/-- The ready lists, the bitmap and the task states agree: a task is listed, at the level of its
priority, exactly when its state is `Ready`. -/
def Agrees (s : Scheduler N) : Prop := Queued s s.IsReady

theorem Represents.mem_iff {s : Scheduler N} {Q : Queues N} {R : Fin N → Prop}
    (h : Represents s Q R) {i : Fin N} {p : Fin numPriorities} :
    i ∈ Q p ↔ R i ∧ s.level i = p := by
  constructor
  · intro hi
    have hp := h.level p i hi
    exact ⟨(h.mem i).mp (by rw [hp]; exact hi), hp⟩
  · rintro ⟨hi, rfl⟩
    exact (h.mem i).mpr hi

namespace Queued

variable {s : Scheduler N} {R : Fin N → Prop} {i : Fin N}

variable (h : Queued s R)

include h

theorem congr {R' : Fin N → Prop} (hR : ∀ i, R i ↔ R' i) : Queued s R' := by
  obtain ⟨Q, hQ⟩ := h
  exact ⟨Q, hQ.toThreads, fun i => (hQ.mem i).trans (hR i)⟩

/-- Changing a context without touching its links; a listed task keeps its priority. -/
theorem modify {f : SchedulerContext N → SchedulerContext N}
    (hn : (f (s.tasks i)).nextReady = (s.tasks i).nextReady)
    (hp : (f (s.tasks i)).prevReady = (s.tasks i).prevReady)
    (hi : ¬ R i ∨ (f (s.tasks i)).currentPriority = (s.tasks i).currentPriority) :
    Queued (s.modify i f) R := by
  obtain ⟨Q, hQ⟩ := h
  have hi' : (∀ p, i ∉ Q p) ∨
      (f (s.tasks i)).currentPriority = (s.tasks i).currentPriority :=
    hi.imp_left fun hR p hip => hR (hQ.mem_iff.mp hip).1
  refine ⟨Q, hQ.toThreads.modify hn hp hi', fun j => ?_⟩
  by_cases hji : j = i
  · subst hji
    rcases hi with hR | hprio
    · exact iff_of_false (fun hj => hR (hQ.mem_iff.mp hj).1) hR
    · rw [← hQ.mem]
      simp [level, tasks_modify, hprio]
  · rw [← hQ.mem]
    simp [level, tasks_modify, hji]

theorem removeReady (hi : R i) :
    Queued (s.removeReady i) fun j => R j ∧ j ≠ i := by
  obtain ⟨Q, hQ⟩ := h
  refine ⟨_, hQ.toThreads.removeReady ((hQ.mem i).mpr hi), fun j => ?_⟩
  rw [Threads.level_eq_of_unlinked (unlinked_removeReady s i j), ← hQ.mem,
    update_apply]
  split_ifs with hl
  · rw [hl, (hQ.ring _).nodup.mem_erase_iff, and_comm]
  · have hji : j ≠ i := fun hji => hl (by rw [hji])
    simp [hji]

theorem pushReady (hi : ¬ R i) :
    Queued (s.pushReady i) fun j => R j ∨ j = i := by
  obtain ⟨Q, hQ⟩ := h
  have hout : ∀ p, i ∉ Q p := fun p hip => hi (hQ.mem_iff.mp hip).1
  refine ⟨_, hQ.toThreads.pushReady hout, fun j => ?_⟩
  rw [Threads.level_eq_of_unlinked (unlinked_pushReady s i j), ← hQ.mem,
    update_apply]
  split_ifs with hl
  · rw [hl, mem_append, mem_singleton]
  · have hji : j ≠ i := fun hji => hl (by rw [hji])
    simp [hji]

/-- A task that is not listed has no links. -/
theorem links_none (hi : ¬ R i) :
    s.next i = none ∧ s.prev i = none := by
  obtain ⟨Q, hQ⟩ := h
  exact hQ.out i fun p hip => hi (hQ.mem_iff.mp hip).1

end Queued

/-! ## What the operations do to the other fields -/

namespace Scheduler

variable (s : Scheduler N)

/-- `set_task_state` writes one state, and otherwise only links. -/
theorem unlinked_setTaskStateAt (i : Fin N) (st : TaskState) (j : Fin N) :
    ((s.setTaskStateAt i st).tasks j).unlinked =
      if j = i then { (s.tasks j).unlinked with state := st } else (s.tasks j).unlinked := by
  have hset : ∀ t : Scheduler N, (t.tasks j).unlinked = (s.tasks j).unlinked →
      ((t.setState i st).tasks j).unlinked =
        if j = i then { (s.tasks j).unlinked with state := st } else (s.tasks j).unlinked := by
    intro t ht
    simp only [setState, tasks_modify]
    split_ifs with hji
    · subst hji
      rw [← ht]
      rfl
    · exact ht
  unfold setTaskStateAt
  by_cases hst : (s.tasks i).state = st
  · split_ifs with hji
    · rw [hji, ← hst]
      rfl
    · rfl
  · by_cases hr : (s.tasks i).state = .ready
    · have := hset _ (unlinked_removeReady s i j)
      split_ifs at this ⊢ <;> simp only [unlinked_pushReady, this]
    · have := hset s rfl
      split_ifs at this ⊢ <;> simp only [unlinked_pushReady, this]

variable (id : Nat)

variable (st : TaskState)

theorem unlinked_setTaskState (j : Fin N) :
    ((s.setTaskState id st).tasks j).unlinked =
      if (j : Nat) = id ∧ id < s.taskCount then { (s.tasks j).unlinked with state := st }
      else (s.tasks j).unlinked := by
  unfold setTaskState
  by_cases h : id < N ∧ id < s.taskCount
  · rw [dif_pos h, unlinked_setTaskStateAt]
    simp [Fin.ext_iff, h.2]
  · rw [dif_neg h, if_neg]
    rintro ⟨rfl, hlt⟩
    exact h ⟨j.isLt, hlt⟩

/-- `set_task_priority` writes one priority, and otherwise only links. -/
theorem unlinked_setTaskPriorityAt (i : Fin N) (p : Nat) (j : Fin N) :
    ((s.setTaskPriorityAt i p).tasks j).unlinked =
      if j = i then { (s.tasks j).unlinked with currentPriority := p }
      else (s.tasks j).unlinked := by
  have hset : ∀ t : Scheduler N, (t.tasks j).unlinked = (s.tasks j).unlinked →
      ((t.setCurrentPriority i p).tasks j).unlinked =
        if j = i then { (s.tasks j).unlinked with currentPriority := p }
        else (s.tasks j).unlinked := by
    intro t ht
    simp only [setCurrentPriority, tasks_modify]
    split_ifs with hji
    · subst hji
      rw [← ht]
      rfl
    · exact ht
  unfold setTaskPriorityAt
  by_cases hp : (s.tasks i).currentPriority = p
  · split_ifs with hji
    · rw [hji, ← hp]
      rfl
    · rfl
  · rw [if_neg hp]
    by_cases hr : (s.tasks i).state = .ready
    · rw [if_pos hr, unlinked_pushReady]
      exact hset _ (unlinked_removeReady s i j)
    · rw [if_neg hr]
      exact hset s rfl

theorem unlinked_setTaskPriority (p : Nat) (j : Fin N) :
    ((s.setTaskPriority id p).tasks j).unlinked =
      if (j : Nat) = id ∧ id < s.taskCount then
        { (s.tasks j).unlinked with currentPriority := p }
      else (s.tasks j).unlinked := by
  unfold setTaskPriority
  by_cases h : id < N ∧ id < s.taskCount
  · rw [dif_pos h, unlinked_setTaskPriorityAt]
    simp [Fin.ext_iff, h.2]
  · rw [dif_neg h, if_neg]
    rintro ⟨rfl, hlt⟩
    exact h ⟨j.isLt, hlt⟩

@[simp] theorem taskCount_setTaskState : (s.setTaskState id st).taskCount = s.taskCount := by
  unfold setTaskState setTaskStateAt
  split_ifs <;> simp [setState]

@[simp] theorem taskCount_setTaskPriority (p : Nat) :
    (s.setTaskPriority id p).taskCount = s.taskCount := by
  unfold setTaskPriority setTaskPriorityAt
  split_ifs <;> simp [setCurrentPriority]

theorem state_setTaskState (j : Fin N) :
    ((s.setTaskState id st).tasks j).state =
      if (j : Nat) = id ∧ id < s.taskCount then st else (s.tasks j).state := by
  have h := congrArg state (unlinked_setTaskState s id st j)
  split_ifs at h ⊢ <;> exact h

@[simp] theorem state_setTaskPriority (p : Nat) (j : Fin N) :
    ((s.setTaskPriority id p).tasks j).state = (s.tasks j).state := by
  have h := congrArg state (unlinked_setTaskPriority s id p j)
  split_ifs at h <;> exact h

@[simp] theorem id_setTaskState (j : Fin N) :
    ((s.setTaskState id st).tasks j).id = (s.tasks j).id := by
  have h := congrArg SchedulerContext.id (unlinked_setTaskState s id st j)
  split_ifs at h <;> exact h

@[simp] theorem id_setTaskPriority (p : Nat) (j : Fin N) :
    ((s.setTaskPriority id p).tasks j).id = (s.tasks j).id := by
  have h := congrArg SchedulerContext.id (unlinked_setTaskPriority s id p j)
  split_ifs at h <;> exact h

@[simp] theorem currentPriority_setTaskState (j : Fin N) :
    ((s.setTaskState id st).tasks j).currentPriority = (s.tasks j).currentPriority := by
  have h := congrArg currentPriority (unlinked_setTaskState s id st j)
  split_ifs at h <;> exact h

theorem currentPriority_setTaskPriority (p : Nat) (j : Fin N) :
    ((s.setTaskPriority id p).tasks j).currentPriority =
      if (j : Nat) = id ∧ id < s.taskCount then p else (s.tasks j).currentPriority := by
  have h := congrArg currentPriority (unlinked_setTaskPriority s id p j)
  split_ifs at h ⊢ <;> exact h

end Scheduler

/-! ## The operations keep the agreement -/

namespace Agrees

variable {s : Scheduler N}

section

variable (h : Agrees s)

include h

theorem leave (i : Fin N) :
    Queued (if (s.tasks i).state = .ready then s.removeReady i else s)
      fun j => s.IsReady j ∧ j ≠ i := by
  split_ifs with hr
  · exact Queued.removeReady h hr
  · exact Queued.congr h fun j => ⟨fun hj => ⟨hj, by rintro rfl; exact hr hj⟩, And.left⟩

theorem setTaskStateAt (i : Fin N) (st : TaskState) :
    Agrees (s.setTaskStateAt i st) := by
  have hready : ∀ j, (s.setTaskStateAt i st).IsReady j ↔
      if j = i then st = .ready else s.IsReady j := by
    intro j
    have := congrArg state (unlinked_setTaskStateAt s i st j)
    unfold Scheduler.IsReady
    split_ifs at this ⊢ <;> exact iff_of_eq (congrArg (· = TaskState.ready) this)
  refine Queued.congr ?_ fun j => (hready j).symm
  unfold Scheduler.setTaskStateAt
  by_cases hst : (s.tasks i).state = st
  · rw [if_pos hst]
    refine Queued.congr h fun j => ?_
    split_ifs with hji
    · rw [hji, Scheduler.IsReady, hst]
    · rfl
  · rw [if_neg hst]
    have hQ := (h.leave i).modify (f := fun c => { c with state := st }) rfl rfl
      (.inl fun hi => hi.2 rfl)
    by_cases hnew : st = .ready
    · simp only [if_pos hnew]
      refine (hQ.pushReady (by simp)).congr fun j => ?_
      by_cases hji : j = i <;> simp [hji, hnew]
    · simp only [if_neg hnew]
      refine hQ.congr fun j => ?_
      by_cases hji : j = i <;> simp [hji, hnew]

theorem setTaskState (id : Nat) (st : TaskState) :
    Agrees (s.setTaskState id st) := by
  unfold Scheduler.setTaskState
  split_ifs
  · exact h.setTaskStateAt _ st
  · exact h

theorem setTaskPriority (id : Nat) (p : Nat) :
    Agrees (s.setTaskPriority id p) := by
  have hstate : ∀ j, (s.setTaskPriority id p).IsReady j ↔ s.IsReady j := fun j => by
    simp [Scheduler.IsReady]
  refine Queued.congr ?_ fun j => (hstate j).symm
  unfold Scheduler.setTaskPriority Scheduler.setTaskPriorityAt
  split_ifs with hid hp hr
  · exact h
  · set i : Fin N := ⟨id, hid.1⟩
    have hQ : Queued ((s.removeReady i).setCurrentPriority i p) fun j => s.IsReady j ∧ j ≠ i :=
      (Queued.removeReady h hr).modify rfl rfl (.inl (by simp))
    refine (hQ.pushReady (by simp)).congr fun j => ?_
    by_cases hji : j = i
    · subst hji
      exact iff_of_true (.inr rfl) hr
    · simp [hji]
  · exact Queued.modify h rfl rfl (.inl hr)
  · exact h

/-- `create_task` fills a slot that no list holds. -/
theorem createAt {i : Fin N} (hi : ¬ s.IsReady i) (prio : Nat) :
    Agrees (s.createAt i prio) := by
  set t : Scheduler N := if s.taskCount ≤ i then { s with taskCount := i + 1 } else s with ht
  have htasks : t.tasks = s.tasks := by rw [ht]; split_ifs <;> rfl
  have hQt : Queued t s.IsReady := by
    obtain ⟨Q, hQ⟩ := h
    have hnext : t.next = s.next := by funext j; simp only [Scheduler.next, htasks]
    have hprev : t.prev = s.prev := by funext j; simp only [Scheduler.prev, htasks]
    have hlevel : ∀ j, t.level j = s.level j := fun j => by simp only [level, htasks]
    refine ⟨Q, hQ.toThreads.congr ?_ hnext hprev (fun _ j _ => hlevel j) ?_, fun j => ?_⟩
    · rw [ht]; split_ifs <;> rfl
    · rw [ht]; split_ifs <;> rfl
    · rw [hlevel, hQ.mem]
  obtain ⟨hnone, hnone'⟩ := hQt.links_none hi
  have hnew : Queued (t.modify i fun _ => newContext i prio) s.IsReady :=
    hQt.modify hnone.symm hnone'.symm (.inl hi)
  have hpush := hnew.pushReady hi
  refine Queued.congr hpush fun j => ?_
  unfold Scheduler.IsReady
  rw [show s.createAt i prio = (t.modify i fun _ => newContext i prio).pushReady i
      from rfl, state_of_unlinked (unlinked_pushReady _ i j),
    tasks_modify]
  by_cases hji : j = i
  · simp [hji, newContext]
  · simp [hji, htasks]

/-- `free_task` keeps the agreement for a control block whose `id` is its slot. -/
theorem freeTask {i : Fin N} (hi : s.IsReady i → (s.tasks i).id = i) :
    Agrees (s.freeTask i) := by
  have hfree : s.freeTask i =
      (if (s.tasks i).state = .ready then s.removeReady i else s).setState i .unallocated := by
    unfold Scheduler.freeTask
    by_cases hr : (s.tasks i).state = .ready
    · simp only [hi hr]
    · simp only [if_neg hr]
  rw [hfree]
  have hQ := (h.leave i).modify (f := fun c => { c with state := .unallocated }) rfl rfl
    (.inl fun hi => hi.2 rfl)
  refine Queued.congr hQ fun j => ?_
  simp only [Scheduler.IsReady, setState, tasks_modify]
  by_cases hji : j = i
  · simp [hji]
  · simp only [hji, if_false, ne_eq, not_false_eq_true, and_true]
    split_ifs
    · rw [state_of_unlinked (unlinked_removeReady s i j)]
    · rfl

end

/-- After `init` no task is ready and every list is empty. -/
theorem init (s : Scheduler N) : Agrees s.init := by
  refine ⟨fun _ => [], ⟨fun _ => rfl, fun _ => IsRing.nil, fun _ i hi => by simp at hi,
    fun p => ?_, fun i _ => ⟨rfl, rfl⟩⟩, fun i => ?_⟩
  · simp [Scheduler.init]
  · simp [Scheduler.IsReady, Scheduler.init]

end Agrees

end AuroraOS
