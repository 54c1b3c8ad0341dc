import AuroraOS.Semaphore
import AuroraOS.Lib.Ring

/-!
# Message queues

`MessageQueue<T, Capacity>` of `kernel/core/msg_queue.hpp`: a ring of slots with two indices and two
semaphores, for one producer and one consumer. The steps of `push`, `try_push`, `pop` and `try_pop`
(semaphore operation, access to the buffer, update of the index, semaphore operation) interleave in
any order, and the rest of the kernel may change arbitrarily in between.

**Theorem (`messages_in_order`).** If both users are tasks, the items popped are a prefix of the
items pushed, and a slot is never written while it holds an item that has not been popped.

Where there is no current task, `wait` returns false at once, and `push` goes on as if it had taken
a unit: `push_overwrites`.

An item counts as popped when it is read, and as pushed only when `items_` has been signalled, which
is the last step of `push`.
-/

namespace AuroraOS

open Bitmap Relation List Semaphore

variable {N : Nat} {T : Type}

/-! ## The queue -/

/-- The fields of `class MessageQueue`. -/
structure MessageQueue (T : Type) where
  buffer : Nat → T
  head : Nat
  tail : Nat
  items : Semaphore
  spaces : Semaphore

/-- `MessageQueue::init`. -/
def MessageQueue.init (q : MessageQueue T) (capacity : Nat) : MessageQueue T :=
  { q with items := .init 0, spaces := .init capacity }

/-- How far the producer has come in `push` or `try_push`. -/
inductive Producer (T : Type)
  | idle
  | waiting (item : T) (startTick : Nat)
  | writing (item : T)
  | advancing (item : T) (currentTail : Nat)
  | signalling (item : T)

/-- How far the consumer has come in `pop` or `try_pop`. -/
inductive Consumer (T : Type)
  | idle
  | waiting (startTick : Nat)
  | reading
  | advancing (item : T) (currentHead : Nat)
  | signalling (item : T)

/-- The queue with its two users. `full` says which slots hold an item that has been written and not
yet read. -/
structure QueueState (N : Nat) (T : Type) where
  kernel : Kernel N
  queue : MessageQueue T
  producer : Producer T
  consumer : Consumer T
  pushed : List T
  popped : List T
  full : Nat → Bool

namespace QueueState

/-- The call of `spaces_.wait` or `spaces_.try_wait` has ended, or goes on. `push` does not look at
the result of `wait`. -/
def afterSpaces (s : QueueState N T) (item : T) (startTick : Nat) (spaces : Semaphore)
    (r : WaitResult) : QueueState N T :=
  { s with
    queue := { s.queue with spaces := spaces }
    producer := if r = .waits then .waiting item startTick else .writing item }

/-- The call of `items_.wait` has ended, or goes on. -/
def afterItems (s : QueueState N T) (startTick : Nat) (items : Semaphore) (r : WaitResult) :
    QueueState N T :=
  { s with
    queue := { s.queue with items := items }
    consumer := if r = .waits then .waiting startTick else .reading }

/-- The producer calls `push`, as the current task `p` if there is one. -/
def push (s : QueueState N T) (p : Option (Fin N)) (item : T) (startTick : Nat) : QueueState N T :=
  let (spaces, r) := s.queue.spaces.waitEnter s.kernel p
  s.afterSpaces item startTick spaces r

/-- The producer calls `try_push`, which returns false where there is no space. -/
def tryPush (s : QueueState N T) (item : T) : QueueState N T :=
  match s.queue.spaces.tryWait with
  | (spaces, true) => s.afterSpaces item 0 spaces .taken
  | (_, false) => s

/-- The consumer calls `pop`. -/
def pop (s : QueueState N T) (c : Option (Fin N)) (startTick : Nat) : QueueState N T :=
  let (items, r) := s.queue.items.waitEnter s.kernel c
  s.afterItems startTick items r

/-- The consumer calls `try_pop`, which returns false where there is no item. -/
def tryPop (s : QueueState N T) : QueueState N T :=
  match s.queue.items.tryWait with
  | (items, true) => s.afterItems 0 items .taken
  | (_, false) => s

/-- The next step of the producer inside `push` or `try_push`. -/
def produce (capacity : Nat) (p : Option (Fin N)) (s : QueueState N T) : QueueState N T :=
  match s.producer with
  | .idle => s
  | .waiting item startTick =>
    -- without a current task `wait` does not come here
    match p with
    | none => s
    | some t =>
      let ((k, spaces), r) := s.queue.spaces.waitRetry s.kernel t waitForever startTick
      { s with kernel := k }.afterSpaces item startTick spaces r
  | .writing item =>
    let currentTail := s.queue.tail
    { s with
      queue := { s.queue with buffer := Function.update s.queue.buffer currentTail item }
      producer := .advancing item currentTail
      full := Function.update s.full currentTail true }
  | .advancing item currentTail =>
    { s with
      queue := { s.queue with tail := (currentTail + 1) % capacity }
      producer := .signalling item }
  | .signalling item =>
    let (k, items) := s.queue.items.signal s.kernel
    { s with
      kernel := k
      queue := { s.queue with items := items }
      producer := .idle
      pushed := s.pushed ++ [item] }

/-- The next step of the consumer inside `pop` or `try_pop`. -/
def consume (capacity : Nat) (c : Option (Fin N)) (s : QueueState N T) : QueueState N T :=
  match s.consumer with
  | .idle => s
  | .waiting startTick =>
    match c with
    | none => s
    | some t =>
      let ((k, items), r) := s.queue.items.waitRetry s.kernel t waitForever startTick
      { s with kernel := k }.afterItems startTick items r
  | .reading =>
    let currentHead := s.queue.head
    let item := s.queue.buffer currentHead
    { s with
      consumer := .advancing item currentHead
      popped := s.popped ++ [item]
      full := Function.update s.full currentHead false }
  | .advancing item currentHead =>
    { s with
      queue := { s.queue with head := (currentHead + 1) % capacity }
      consumer := .signalling item }
  | .signalling _ =>
    let (k, spaces) := s.queue.spaces.signal s.kernel
    { s with
      kernel := k
      queue := { s.queue with spaces := spaces }
      consumer := .idle }

end QueueState

/-- A step of one of the two users, or a change of the kernel elsewhere. The producer runs as the
current task `p` and the consumer as `c`; `none` is code that runs while there is no current
task. -/
inductive QueueStep (capacity : Nat) (p c : Option (Fin N)) :
    QueueState N T → QueueState N T → Prop
  | push {s : QueueState N T} (h : s.producer = .idle) (item : T) (startTick : Nat) :
      QueueStep capacity p c s (s.push p item startTick)
  | tryPush {s : QueueState N T} (h : s.producer = .idle) (item : T) :
      QueueStep capacity p c s (s.tryPush item)
  | produce (s : QueueState N T) : QueueStep capacity p c s (s.produce capacity p)
  | pop {s : QueueState N T} (h : s.consumer = .idle) (startTick : Nat) :
      QueueStep capacity p c s (s.pop c startTick)
  | tryPop {s : QueueState N T} (h : s.consumer = .idle) : QueueStep capacity p c s s.tryPop
  | consume (s : QueueState N T) : QueueStep capacity p c s (s.consume capacity c)
  | other (s : QueueState N T) (k : Kernel N) : QueueStep capacity p c s { s with kernel := k }

/-! ## What the semaphores do to their counts -/

namespace Semaphore

variable (s : Semaphore) (k : Kernel N) (t : Fin N)

/-- A call of `wait` has taken a unit, or goes on. -/
def Takes (s' : Semaphore) (r : WaitResult) : Prop :=
  s.count > 0 ∧ r = .taken ∧ s'.count = s.count - 1 ∨ r = .waits ∧ s'.count = s.count

theorem Takes.nonneg {s s' : Semaphore} {r : WaitResult} (h : s.Takes s' r) (hs : 0 ≤ s.count) :
    0 ≤ s'.count := by
  rcases h with ⟨hpos, -, hcount⟩ | ⟨-, hcount⟩ <;> omega

theorem waitEnter_takes : s.Takes (s.waitEnter k (some t)).1 (s.waitEnter k (some t)).2 := by
  unfold waitEnter
  split_ifs with hcount
  · exact .inl ⟨hcount, rfl, rfl⟩
  · exact .inr ⟨rfl, rfl⟩

/-- A wait without a timeout ends with a unit only. -/
theorem waitRetry_takes (startTick : Nat) : s.Takes (s.waitRetry k t waitForever startTick).1.2
    (s.waitRetry k t waitForever startTick).2 := by
  by_cases hcount : s.count > 0 <;> simp [waitRetry, Takes, hcount]

theorem tryWait_takes : s.Takes s.tryWait.1 .taken ∧ s.tryWait.2 = true ∨ s.tryWait.2 = false := by
  by_cases hcount : s.count > 0 <;> simp [tryWait, Takes, hcount]

/-- A count that stays in the range of an `int` goes up by one. -/
theorem signal_count (h : 0 ≤ s.count ∧ s.count < 2 ^ 31 - 1) :
    (s.signal k).2.count = s.count + 1 := by
  rw [(s.signal_spec k).1]
  exact Int.bmod_eq_of_le (by omega) (by omega)

end Semaphore

/-! ## The invariant -/

namespace Producer

/-- The item that is in the buffer, but not signalled yet. -/
@[simp] def inFlight : Producer T → List T
  | .advancing item _ | .signalling item => [item]
  | _ => []

/-- The spaces that have been taken, but not written yet. -/
@[simp] def claimed : Producer T → Nat
  | .writing _ => 1
  | _ => 0

/-- The updates of `tail_` that have not been signalled yet. -/
@[simp] def ahead : Producer T → Nat
  | .signalling _ => 1
  | _ => 0

end Producer

namespace Consumer

/-- The items that have been taken, but not read yet. -/
@[simp] def claimed : Consumer T → Nat
  | .reading => 1
  | _ => 0

/-- The items that have been read, but whose space has not been signalled yet. -/
@[simp] def owed : Consumer T → Nat
  | .advancing _ _ | .signalling _ => 1
  | _ => 0

/-- The updates of `head_` that are still to come. -/
@[simp] def behind : Consumer T → Nat
  | .advancing _ _ => 1
  | _ => 0

end Consumer

namespace QueueState

/-- All items that have been written. -/
def written (s : QueueState N T) : List T := s.pushed ++ s.producer.inFlight

/-- What holds between all steps. The last three fields are about what is under way. -/
structure Inv (capacity : Nat) (s : QueueState N T) : Prop where
  content : ∃ unread, s.written = s.popped ++ unread ∧
    Ring.Holds capacity s.queue.buffer s.popped.length unread
  full : ∀ i, s.full i = true ↔ Ring.Used capacity s.popped.length s.written.length i
  spaces : s.queue.spaces.count =
    capacity - s.written.length - s.producer.claimed + s.popped.length - s.consumer.owed
  spaces_nonneg : 0 ≤ s.queue.spaces.count
  items : s.queue.items.count = s.pushed.length - s.popped.length - s.consumer.claimed
  items_nonneg : 0 ≤ s.queue.items.count
  tail : s.queue.tail = (s.pushed.length + s.producer.ahead) % capacity
  head : s.consumer.owed ≤ s.popped.length ∧
    s.queue.head = (s.popped.length - s.consumer.behind) % capacity
  currentTail : ∀ item cur, s.producer = .advancing item cur → cur = s.queue.tail
  currentHead : ∀ item cur, s.consumer = .advancing item cur → cur = s.queue.head

namespace Inv

variable {capacity : Nat} {s : QueueState N T} {s' : QueueState N T} {item : T}

/-- A step that neither writes nor reads an item. -/
theorem keep (h : s.Inv capacity) (hwritten : s'.written = s.written)
    (hpopped : s'.popped = s.popped) (hbuffer : s'.queue.buffer = s.queue.buffer)
    (hfull : s'.full = s.full)
    (hspaces : s'.queue.spaces.count + s'.producer.claimed + s'.consumer.owed =
      s.queue.spaces.count + s.producer.claimed + s.consumer.owed)
    (hspaces' : 0 ≤ s'.queue.spaces.count)
    (hitems : s'.queue.items.count + s'.consumer.claimed + s.pushed.length =
      s.queue.items.count + s.consumer.claimed + s'.pushed.length)
    (hitems' : 0 ≤ s'.queue.items.count)
    (htail : s'.queue.tail = (s'.pushed.length + s'.producer.ahead) % capacity)
    (hhead : s'.consumer.owed ≤ s.popped.length ∧
      s'.queue.head = (s.popped.length - s'.consumer.behind) % capacity)
    (hcurTail : ∀ item cur, s'.producer = .advancing item cur → cur = s'.queue.tail)
    (hcurHead : ∀ item cur, s'.consumer = .advancing item cur → cur = s'.queue.head) :
    s'.Inv capacity := by
  have hsp := h.spaces
  have hit := h.items
  refine ⟨?_, ?_, ?_, hspaces', ?_, hitems', htail, ?_, hcurTail, hcurHead⟩
  · rw [hwritten, hpopped, hbuffer]
    exact h.content
  · rw [hfull, hpopped, hwritten]
    exact h.full
  · rw [hwritten, hpopped]
    omega
  · rw [hpopped]
    omega
  · rw [hpopped]
    exact hhead

theorem popped_le (h : s.Inv capacity) : s.popped.length ≤ s.written.length := by
  obtain ⟨unread, hwritten, -⟩ := h.content
  rw [hwritten, length_append]
  omega

theorem length_written (s : QueueState N T) :
    s.written.length = s.pushed.length + s.producer.inFlight.length := length_append

section

variable (h : s.Inv capacity)

include h

theorem afterSpaces
    (hrest : s.producer.inFlight = [] ∧ s.producer.claimed = 0 ∧ s.producer.ahead = 0) (item : T)
    (startTick : Nat) {k : Kernel N} {spaces : Semaphore} {r : WaitResult}
    (hr : s.queue.spaces.Takes spaces r) :
    ({ s with kernel := k }.afterSpaces item startTick spaces r).Inv capacity := by
  obtain ⟨hflight, hclaimed, hahead⟩ := hrest
  have hnonneg : 0 ≤ spaces.count := hr.nonneg h.spaces_nonneg
  have htail := h.tail
  rw [hahead] at htail
  rcases hr with ⟨-, rfl, hcount⟩ | ⟨rfl, hcount⟩
  all_goals
    refine h.keep ?_ rfl rfl rfl ?_ hnonneg rfl h.items_nonneg htail h.head nofun h.currentHead
    · exact (congrArg (s.pushed ++ ·) hflight).symm
    · rw [hclaimed]
      simp [QueueState.afterSpaces, hcount]

theorem afterItems (hrest : s.consumer.claimed = 0 ∧ s.consumer.owed = 0 ∧ s.consumer.behind = 0)
    (startTick : Nat) {k : Kernel N} {items : Semaphore} {r : WaitResult}
    (hr : s.queue.items.Takes items r) :
    ({ s with kernel := k }.afterItems startTick items r).Inv capacity := by
  obtain ⟨hclaimed, howed, hbehind⟩ := hrest
  have hnonneg : 0 ≤ items.count := hr.nonneg h.items_nonneg
  have hhead := h.head
  rw [howed, hbehind] at hhead
  rcases hr with ⟨-, rfl, hcount⟩ | ⟨rfl, hcount⟩
  all_goals
    refine h.keep rfl rfl rfl rfl ?_ h.spaces_nonneg ?_ hnonneg h.tail hhead h.currentTail nofun
    · rw [howed]
      simp [QueueState.afterItems]
    · rw [hclaimed]
      simp [QueueState.afterItems, hcount]

/-- Where the producer is about to write, the slot is not in use. -/
theorem tail_free (hp : s.producer = .writing item) :
    s.queue.tail = s.written.length % capacity ∧
      s.written.length < s.popped.length + capacity := by
  have hlen := length_written s
  have htail := h.tail
  have hspaces := h.spaces
  have hnonneg := h.spaces_nonneg
  simp only [hp, Producer.inFlight, Producer.claimed, Producer.ahead, length_nil] at *
  exact ⟨by rw [htail, hlen], by omega⟩

/-- **The producer writes** into a slot that is not in use. -/
theorem write (p : Option (Fin N)) (hp : s.producer = .writing item) :
    (s.produce capacity p).Inv capacity := by
  obtain ⟨htail, hroom⟩ := h.tail_free hp
  obtain ⟨unread, hwritten, hholds⟩ := h.content
  have hfull := h.full
  have hspaces := h.spaces
  have htail' := h.tail
  have hpushed : s.written = s.pushed := by simp [QueueState.written, hp]
  simp only [hp, Producer.claimed, hpushed] at htail hroom hwritten hfull hspaces htail'
  have hlen := congrArg length hwritten
  rw [length_append] at hlen
  simp only [QueueState.produce, hp]
  refine ⟨⟨unread ++ [item], ?_, ?_⟩, fun i => ?_, ?_, h.spaces_nonneg, h.items, h.items_nonneg,
    htail', h.head,
    by simp, h.currentHead⟩
  · simp [QueueState.written, hwritten]
  · rw [htail, hlen]
    exact hholds.push (by omega) item
  · simp only [QueueState.written, Producer.inFlight, length_append, length_singleton]
    rw [Ring.used_push (by omega), ← hfull i, Function.update_apply, htail]
    split_ifs with hi <;> simp [hi]
  · simp only [QueueState.written, Producer.inFlight, Producer.claimed, length_append,
      length_singleton]
    omega

theorem advanceTail (p : Option (Fin N)) {cur : Nat} (hp : s.producer = .advancing item cur) :
    (s.produce capacity p).Inv capacity := by
  have hcur := h.currentTail item cur hp
  have htail := h.tail
  simp only [hp] at htail
  simp only [QueueState.produce, hp]
  refine h.keep ?_ rfl rfl rfl ?_ h.spaces_nonneg rfl h.items_nonneg ?_ h.head nofun h.currentHead
  · simp [QueueState.written, hp]
  · simp [hp]
  · simp [hcur, htail]

end

theorem signalItems (hmax : capacity < 2 ^ 31) (h : s.Inv capacity) (p : Option (Fin N))
    (hp : s.producer = .signalling item) : (s.produce capacity p).Inv capacity := by
  have hspaces := h.spaces
  have hnonneg := h.spaces_nonneg
  have hitems := h.items
  have hitems_nonneg := h.items_nonneg
  have htail := h.tail
  have hlen := length_written s
  simp only [hp, Producer.inFlight, length_singleton]
    at hspaces htail hlen
  have hcount := s.queue.items.signal_count s.kernel ⟨hitems_nonneg, by omega⟩
  simp only [QueueState.produce, hp]
  refine h.keep ?_ rfl rfl rfl ?_ hnonneg ?_ ?_ ?_ h.head nofun h.currentHead
  · simp [QueueState.written, hp]
  · simp [hp]
  · simp only [length_append, length_singleton]
    omega
  · simp only [hcount]
    omega
  · simpa using htail

/-- Where the consumer is about to read, there is an item. -/
theorem head_full (h : s.Inv capacity) (hc : s.consumer = .reading) :
    s.queue.head = s.popped.length % capacity ∧ s.popped.length < s.pushed.length := by
  have hhead := h.head
  have hitems := h.items
  have hnonneg := h.items_nonneg
  simp only [hc, Consumer.claimed] at hhead hitems
  exact ⟨hhead.2, by omega⟩

/-- **The consumer reads** the first item that is in the buffer. -/
theorem read (h : s.Inv capacity) (c : Option (Fin N)) (hc : s.consumer = .reading) :
    (s.consume capacity c).Inv capacity := by
  obtain ⟨hhead, hlt⟩ := h.head_full hc
  obtain ⟨unread, hwritten, hholds⟩ := h.content
  have hlen : s.written.length = s.popped.length + unread.length := by
    rw [hwritten, length_append]
  have hlen' := length_written s
  have hspaces := h.spaces
  have hnonneg := h.spaces_nonneg
  have hitems := h.items
  simp only [hc, Consumer.claimed, Consumer.owed] at hspaces hitems
  cases unread with
  | nil =>
    simp only [length_nil] at hlen
    omega
  | cons x unread =>
    have hx : s.queue.buffer s.queue.head = x := by
      rw [hhead]
      exact hholds.head
    simp only [QueueState.consume, hc, hx]
    refine ⟨⟨unread, ?_, ?_⟩, fun i => ?_, ?_, h.spaces_nonneg, ?_, h.items_nonneg, h.tail, ?_,
      h.currentTail, by simp⟩
    · exact hwritten.trans (append_cons ..)
    · rw [length_append]
      exact hholds.tail
    · change _ ↔ Ring.Used capacity (s.popped ++ [x]).length s.written.length i
      rw [length_append, length_singleton, Ring.used_pop (by omega), ← h.full i, ← hhead]
      by_cases hi : i = s.queue.head <;> simp [hi]
    · change s.queue.spaces.count = (capacity : Int) - s.written.length - s.producer.claimed +
        (s.popped ++ [x]).length - (1 : Nat)
      rw [length_append, length_singleton]
      omega
    · simp only [length_append, length_singleton, Consumer.claimed]
      omega
    · simp only [length_append, length_singleton, Consumer.owed]
      exact ⟨by omega, hhead⟩

theorem advanceHead (h : s.Inv capacity) (c : Option (Fin N)) {cur : Nat}
    (hc : s.consumer = .advancing item cur) : (s.consume capacity c).Inv capacity := by
  have hcur := h.currentHead item cur hc
  have hhead := h.head
  simp only [hc, Consumer.owed] at hhead
  simp only [QueueState.consume, hc]
  refine h.keep rfl rfl rfl rfl ?_ h.spaces_nonneg ?_ h.items_nonneg h.tail
    ⟨hhead.1, ?_⟩ h.currentTail nofun
  · simp [hc]
  · simp [hc]
  · simp [hcur, hhead.2, Nat.sub_add_cancel hhead.1]

variable (hmax : capacity < 2 ^ 31)

include hmax

variable (h : s.Inv capacity)

include h

theorem signalSpaces (c : Option (Fin N)) (hc : s.consumer = .signalling item) :
    (s.consume capacity c).Inv capacity := by
  have hspaces := h.spaces
  have hnonneg := h.spaces_nonneg
  have hhead := h.head
  have hle := h.popped_le
  simp only [hc, Consumer.owed] at hspaces hhead
  have hcount := s.queue.spaces.signal_count s.kernel ⟨hnonneg, by omega⟩
  simp only [QueueState.consume, hc]
  refine h.keep rfl rfl rfl rfl ?_ ?_ ?_ h.items_nonneg h.tail ⟨Nat.zero_le _, hhead.2⟩
    h.currentTail nofun
  · simp [hc, hcount]
    omega
  · simp only [hcount]
    omega
  · simp [hc]

theorem produce (p : Fin N) : (s.produce capacity (some p)).Inv capacity := by
  cases hp : s.producer with
  | idle => simpa only [QueueState.produce, hp] using h
  | waiting item startTick =>
    simpa only [QueueState.produce, hp] using
      h.afterSpaces (by simp [hp]) item startTick
      (s.queue.spaces.waitRetry_takes s.kernel p startTick)
  | writing item => exact h.write _ hp
  | advancing => exact h.advanceTail _ hp
  | signalling item => exact h.signalItems hmax _ hp

theorem consume (c : Fin N) : (s.consume capacity (some c)).Inv capacity := by
  cases hc : s.consumer with
  | idle => simpa only [QueueState.consume, hc] using h
  | waiting startTick =>
    simpa only [QueueState.consume, hc] using
      h.afterItems (by simp [hc]) startTick (s.queue.items.waitRetry_takes s.kernel c startTick)
  | reading => exact h.read _ hc
  | advancing => exact h.advanceHead _ hc
  | signalling item => exact h.signalSpaces hmax _ hc

/-- **Every step keeps the invariant**, if both users are tasks. -/
theorem step {p c : Fin N} (hs : QueueStep capacity (some p) (some c) s s') :
    s'.Inv capacity := by
  cases hs with
  | push hidle item startTick =>
    exact h.afterSpaces (by simp [hidle]) item startTick (s.queue.spaces.waitEnter_takes s.kernel p)
  | tryPush hidle item =>
    unfold QueueState.tryPush
    split
    · next spaces heq =>
      have htakes := s.queue.spaces.tryWait_takes
      simp only [heq, reduceCtorEq, or_false, and_true] at htakes
      exact h.afterSpaces (by simp [hidle]) item 0 htakes
    · exact h
  | produce => exact h.produce hmax p
  | pop hidle startTick =>
    exact h.afterItems (by simp [hidle]) startTick (s.queue.items.waitEnter_takes s.kernel c)
  | tryPop hidle =>
    unfold QueueState.tryPop
    split
    · next items heq =>
      have htakes := s.queue.items.tryWait_takes
      simp only [heq, reduceCtorEq, or_false, and_true] at htakes
      exact h.afterItems (by simp [hidle]) 0 htakes
    · exact h
  | consume => exact h.consume hmax c
  | other => exact ⟨h.content, h.full, h.spaces, h.spaces_nonneg, h.items, h.items_nonneg, h.tail,
      h.head, h.currentTail, h.currentHead⟩

end Inv

end QueueState

/-! ## Runs -/

/-- A new queue after `init`, with its users outside it. -/
structure QueueState.Fresh (capacity : Nat) (s : QueueState N T) : Prop where
  queue : ∃ q : MessageQueue T, q.head = 0 ∧ q.tail = 0 ∧ s.queue = q.init capacity
  users : s.producer = .idle ∧ s.consumer = .idle
  history : s.pushed = [] ∧ s.popped = [] ∧ ∀ i, s.full i = false

theorem QueueState.Inv.of_fresh {capacity : Nat} {s : QueueState N T} (h : s.Fresh capacity) :
    s.Inv capacity := by
  obtain ⟨q, hhead, htail, hq⟩ := h.queue
  obtain ⟨hp, hc⟩ := h.users
  obtain ⟨hpushed, hpopped, hfull⟩ := h.history
  have hwritten : s.written = [] := by simp [written, hpushed, hp, Producer.inFlight]
  refine
    { content := ⟨[], by rw [hwritten, hpopped]; rfl, Ring.holds_nil⟩
      full := fun i => ?_
      spaces := ?_
      spaces_nonneg := ?_
      items := ?_
      items_nonneg := ?_
      tail := ?_
      head := ?_
      currentTail := by simp [hp]
      currentHead := by simp [hc] }
  · simp [hfull, hpopped, hwritten, Ring.used_self]
  · simp [hq, MessageQueue.init, init, hwritten, hpopped, hp, hc, Producer.claimed,
      Consumer.owed]
  · simp [hq, MessageQueue.init, init]
  · simp [hq, MessageQueue.init, init, hpushed, hpopped, hc, Consumer.claimed]
  · simp [hq, MessageQueue.init, init]
  · simp [hq, MessageQueue.init, htail, hpushed, hp, Producer.ahead]
  · simp [hq, MessageQueue.init, hhead, hpopped, hc, Consumer.owed, Consumer.behind]

/-- **Messages are delivered in order.** In every interleaving of the steps of two tasks, one
producer and one consumer, the items popped are a prefix of the items pushed; where the producer is
about to write, its slot lies in the buffer and holds no item that has not been popped; and where
the consumer is about to read, its slot lies in the buffer and holds one. -/
theorem messages_in_order {capacity : Nat} (hcap : 1 ≤ capacity) (hmax : capacity < 2 ^ 31)
    {p c : Fin N} {s₀ s : QueueState N T} (h : s₀.Fresh capacity)
    (hrun : ReflTransGen (QueueStep capacity (some p) (some c)) s₀ s) :
    s.popped <+: s.pushed ∧
      (∀ item, s.producer = .writing item →
        s.queue.tail < capacity ∧ s.full s.queue.tail = false) ∧
      (s.consumer = .reading → s.queue.head < capacity ∧ s.full s.queue.head = true) := by
  have hinv : s.Inv capacity := Run.steps_invariant (.of_fresh h) (fun _ _ hs => hs.step hmax) hrun
  refine ⟨?_, fun item hp => ?_, fun hc => ?_⟩
  · obtain ⟨unread, hwritten, -⟩ := hinv.content
    have hitems := hinv.items
    have hnonneg := hinv.items_nonneg
    have hpopped : s.popped <+: s.written := ⟨unread, hwritten.symm⟩
    exact prefix_of_prefix_length_le hpopped ⟨_, rfl⟩ (by omega)
  · obtain ⟨htail, hroom⟩ := hinv.tail_free hp
    have hfree := Ring.not_used_next hroom
    rw [← hinv.full, ← htail] at hfree
    exact ⟨htail ▸ Nat.mod_lt _ hcap, by simpa using hfree⟩
  · obtain ⟨hhead, hlt⟩ := hinv.head_full hc
    have hlen := QueueState.Inv.length_written s
    have hused : Ring.Used capacity s.popped.length s.written.length (s.popped.length % capacity) :=
      ⟨_, le_rfl, by omega, rfl⟩
    rw [← hinv.full, ← hhead] at hused
    exact ⟨hhead ▸ Nat.mod_lt _ hcap, hused⟩

/-- A new queue with one slot. -/
def oneSlot : QueueState 2 Nat where
  kernel := twoTasks
  queue := MessageQueue.init ⟨fun _ => 0, 0, 0, .init 0, .init 0⟩ 1
  producer := .idle
  consumer := .idle
  pushed := []
  popped := []
  full _ := false

/-- One item goes through the slot, and the producer is about to write the next one. -/
theorem messages_in_order_oneSlot : ∃ s, ReflTransGen (QueueStep 1 (some 0) (some 1)) oneSlot s ∧
    s.pushed = [7] ∧ s.popped <+: s.pushed ∧ s.popped = [7] ∧ s.full s.queue.tail = false := by
  have hrun : ReflTransGen (QueueStep 1 (some 0) (some 1)) oneSlot _ :=
    ((((((((ReflTransGen.refl.tail (.push rfl 7 0)).tail (.produce _)).tail (.produce _)).tail
      (.produce _)).tail (.pop rfl 0)).tail (.consume _)).tail (.consume _)).tail
      (.consume _)).tail (.push rfl 8 0)
  have horder := messages_in_order (by decide) (by decide) ⟨⟨_, rfl, rfl, rfl⟩,
    ⟨rfl, rfl⟩, rfl, rfl, fun _ => rfl⟩ hrun
  exact ⟨_, hrun, rfl, horder.1, rfl, (horder.2.1 8 (by rfl)).2⟩

/-- Two calls of `push` while there is no current task, and a call of `pop` by a task: the second
`push` finds no space, writes over the item that has not been popped, and the consumer never gets
it. -/
theorem push_overwrites :
    (∃ s, ReflTransGen (QueueStep 1 none (some 1)) oneSlot s ∧
      s.producer = .writing 8 ∧ s.full s.queue.tail = true) ∧
    ∃ s, ReflTransGen (QueueStep 1 none (some 1)) oneSlot s ∧
      s.pushed = [7, 8] ∧ s.popped = [8] ∧ ¬s.popped <+: s.pushed := by
  have hfirst : ReflTransGen (QueueStep 1 none (some 1)) oneSlot _ :=
    ((((ReflTransGen.refl.tail (.push rfl 7 0)).tail (.produce _)).tail (.produce _)).tail
      (.produce _)).tail (.push rfl 8 0)
  have hsecond : ReflTransGen (QueueStep 1 none (some 1)) oneSlot _ :=
    ((((hfirst.tail (.produce _)).tail (.produce _)).tail (.produce _)).tail (.pop rfl 0)).tail
      (.consume _)
  exact ⟨⟨_, hfirst, rfl, rfl⟩, _, hsecond, rfl, rfl, by decide⟩

end AuroraOS
