import AuroraOS.MessageRuns

/-!
# Which sender a receive takes

`enqueue` sorts the send queue by priority when a sender enters it, and nothing sorts it again. As
long as no queued sender's priority changes, a receive takes the most urgent of the senders whose
label it accepts, and among equals the one whose call came first. A change of a queued sender's
priority breaks the order.
-/

namespace AuroraOS

open WaitQueue Ghost Option Waiting List.Sublist List

variable {N : Nat}

/-! ## The property -/

/-- The ticket of the last call of each task. -/
def Ghost.stamp (g : Ghost N) (t : Fin N) : Nat := (g.calls t).ticket

/-- Whatever an idle task receives at an endpoint, the sender that leaves the queue has an accepted
label and comes before every other queued sender with an accepted label. -/
def TakesFirst (k : Kernel N) (g : Ghost N) : Prop :=
  ∀ (e : EndpointId) (t : Fin N) (buf : Option Buffer) (maxLen timeout filter : Nat) (k' : Kernel N)
    (st : IpcStatus) (x : Fin N),
    (k.ipc t).state = .ready → k.receive e (some t) buf maxLen timeout filter = some (k', st) →
    k.Waits x e .send → ¬ k'.Waits x e .send →
    accepts filter (k.ipc x).msgType = true ∧
      ∀ y, k.Waits y e .send → accepts filter (k.ipc y).msgType = true → y ≠ x →
        Before k.priority g.stamp x y

/-- No task that is queued as a sender before and after the step changes its priority. -/
def KeepsSenderPriority (k k' : Kernel N) : Prop :=
  ∀ x, (k.ipc x).state = .sending → (k'.ipc x).state = .sending → k'.priority x = k.priority x
  deriving Decidable

/-! ## The invariant -/

/-- The send queues are in order. -/
structure Ordered (k : Kernel N) (g : Ghost N) : Prop where
  tracks : Tracks k g
  order : ∃ L, QueueInv k L ∧ ∀ e, (L e .send).Pairwise (Before k.priority g.stamp)

namespace Kernel

@[simp] theorem priority_setTaskState (k : Kernel N) (id : Nat) (st : TaskState) :
    (k.setTaskState id st).priority = k.priority := by
  funext i
  exact Scheduler.currentPriority_setTaskState ..

end Kernel

theorem Ghost.after_calls (g : Ghost N) (k k' : Kernel N) (op : Op N) {x : Fin N}
    (h : ∀ e msg len rep maxRep timeout badge,
      op ≠ .call e (some x) msg len rep maxRep timeout badge) :
    (g.after k k' op).calls x = g.calls x := by
  cases op with
  | call e t msg len rep maxRep timeout badge =>
    cases t with
    | none => rfl
    | some t =>
      refine Function.update_of_ne (fun hx => ?_) _ _
      exact h e msg len rep maxRep timeout badge (by rw [hx])
  | receive e t => cases t <;> rfl
  | reply t =>
    cases t with
    | none => rfl
    | some t =>
      simp only [after]
      split <;> rfl
  | _ => rfl

namespace Ordered

variable {k k' : Kernel N} {g g' : Ghost N} {L L' : Waiting N} {t : Fin N}

/-- Queues from which tasks have been taken stay in order. -/
theorem pairwise_of_sublist (hL : QueueInv k L) (hL' : QueueInv k' L')
    (hsub : ∀ e, (L' e .send).Sublist (L e .send)) (hprio : KeepsSenderPriority k k')
    (hcalls : ∀ x, (k.ipc x).state = .sending → g'.calls x = g.calls x)
    (horder : ∀ e, (L e .send).Pairwise (Before k.priority g.stamp)) (e : EndpointId) :
    (L' e .send).Pairwise (Before k'.priority g'.stamp) := by
  have hsame : ∀ x ∈ L' e .send, k'.priority x = k.priority x ∧ g'.stamp x = g.stamp x := by
    intro x hx
    have hx₀ : (k.ipc x).state = .sending := ((hL.mem _ _ _).mp ((hsub e).mem hx)).1
    have hx₁ : (k'.ipc x).state = .sending := ((hL'.mem _ _ _).mp hx).1
    exact ⟨hprio x hx₀ hx₁, by rw [stamp, stamp, hcalls x hx₀]⟩
  refine ((horder e).sublist (hsub e)).imp_of_mem fun {a b} ha hb hab => ?_
  obtain ⟨hpa, hsa⟩ := hsame a ha
  obtain ⟨hpb, hsb⟩ := hsame b hb
  rw [Before, hpa, hpb, hsa, hsb]
  exact hab

/-- A call takes no sender out of a queue, and puts its own behind those that came before. -/
theorem call (h : Ordered k g) (ht : (k.ipc t).state = .ready) {e : EndpointId}
    {msg : Option Buffer} {len : Nat} {rep : Option Buffer} {maxRep timeout badge : Nat}
    {st : IpcStatus} (hk' : k.callFrom e t msg len rep maxRep timeout badge = some (k', st))
    (hprio : KeepsSenderPriority k k') (hcalls : ∀ x, x ≠ t → g'.calls x = g.calls x)
    (hticket : (g'.calls t).ticket = g.next) :
    ∃ L', QueueInv k' L' ∧ ∀ e, (L' e .send).Pairwise (Before k'.priority g'.stamp) := by
  obtain ⟨L, hL, horder⟩ := h.order
  obtain ⟨L', hout, hqueues⟩ := Run.of_exists_pair (hL.callFrom ht) hk'
  have hcalls' : ∀ x, (k.ipc x).state = .sending → g'.calls x = g.calls x := by
    intro x hx
    refine hcalls x ?_
    rintro rfl
    rw [ht] at hx
    cases hx
  refine ⟨L', hqueues, ?_⟩
  cases hout with
  | delivered =>
    refine pairwise_of_sublist hL hqueues (fun e' => ?_) hprio hcalls' horder
    rw [set_of_ne _ _ (by simp)]
  | refused =>
    exact pairwise_of_sublist hL hqueues (fun _ => refl _) hprio hcalls' horder
  | @queued next next' q q' =>
    intro e'
    have hprio' : ((((k.prepareCall t msg len rep maxRep badge).setQueue e .recv next q).parked e
        .send t timeout (noteMessage msg len) next' q').priority) = k.priority := by
      rw [Kernel.parked, Kernel.priority_setTaskState]
      exact Kernel.priority_beginWait ..
    have hold : ∀ e, (L e .send).Pairwise (Before k.priority g'.stamp) := by
      intro e
      refine (horder e).imp_of_mem fun {a b} ha hb hab => ?_
      rw [Before, stamp, stamp, hcalls' a ((hL.mem _ _ _).mp ha).1,
        hcalls' b ((hL.mem _ _ _).mp hb).1]
      exact hab
    rw [hprio']
    by_cases he : e' = e
    · subst he
      rw [set_self]
      refine pairwise_insertByPrio (hold e') fun c hc => ?_
      have hc' := ((hL.mem _ _ _).mp hc).1
      rw [stamp, stamp, hcalls' c hc', hticket]
      exact (h.tracks.ticket_lt (.inl hc')).2
    · rw [set_of_ne _ _ (by simp [he])]
      exact hold e'

/-- A receive takes at most one sender out of a queue. -/
theorem receive (hL : QueueInv k L) (ht : (k.ipc t).state = .ready) {e : EndpointId}
    {buf : Option Buffer} {maxLen timeout filter : Nat} {st : IpcStatus}
    (hk' : k.receiveAt e t buf maxLen timeout filter = some (k', st)) :
    ∃ L', QueueInv k' L' ∧ ∀ e, (L' e .send).Sublist (L e .send) := by
  obtain ⟨L', hout, hqueues⟩ := Run.of_exists_pair (hL.receiveAt ht) hk'
  refine ⟨L', hqueues, fun e' => ?_⟩
  cases hout with
  | delivered =>
    by_cases he : e' = e
    · subst he
      rw [set_self]
      exact eraseP_sublist
    · rw [set_of_ne _ _ (by simp [he])]
  | refused => exact refl _
  | queued => rw [set_of_ne _ _ (by simp)]

/-- **Every step that keeps the priorities of queued senders keeps the queues in order.** -/
theorem step [NeZero N] {s s' : Kernel N × Ghost N} (h : Ordered s.1 s.2) (hs : MessageStep s s')
    (hprio : KeepsSenderPriority s.1 s'.1) : Ordered s'.1 s'.2 := by
  refine ⟨h.tracks.step hs, ?_⟩
  obtain ⟨k, g⟩ := s
  obtain ⟨k', g'⟩ := s'
  obtain ⟨L, hL, horder⟩ := h.order
  dsimp only at h hL horder hprio ⊢
  -- all operations but a call only take tasks out of the queues
  have hshrink : ∀ {L'}, QueueInv k' L' → (∀ e, (L' e .send).Sublist (L e .send)) →
      (∀ x, (k.ipc x).state = .sending → g'.calls x = g.calls x) →
      ∃ L', QueueInv k' L' ∧ ∀ e, (L' e .send).Pairwise (Before k'.priority g'.stamp) :=
    fun hL' hsub hcalls => ⟨_, hL', pairwise_of_sublist hL hL' hsub hprio hcalls horder⟩
  rcases hs with ⟨op, hop, hexec, hg⟩ | ⟨hb, hg⟩
  · dsimp only at hop hexec hg
    have hcalls := fun x => g.after_calls k k' op (x := x)
    rw [← hg] at hcalls
    cases op with
    | call e t =>
      obtain ⟨⟨k₁, st⟩, hk₁, rfl⟩ := map_eq_some_iff.mp hexec
      cases t with
      | none =>
        cases hk₁
        exact hshrink hL (fun _ => refl _) fun x _ => hcalls x (by simp)
      | some t =>
        refine h.call (hop t rfl).2 hk₁ hprio (fun x hx => hcalls x ?_) ?_
        · simp [hx.symm]
        · rw [hg]
          simp only [Ghost.after, Ghost.afterCall, Function.update_self]
    | receive e t =>
      obtain ⟨⟨k₁, st⟩, hk₁, rfl⟩ := map_eq_some_iff.mp hexec
      cases t with
      | none =>
        cases hk₁
        exact hshrink hL (fun _ => refl _) fun x _ => hcalls x (by simp)
      | some t =>
        obtain ⟨L', hL', hsub⟩ := receive hL (hop t rfl).2 hk₁
        exact hshrink hL' hsub fun x _ => hcalls x (by simp)
    | reply t id msg len =>
      have hk₁ := some.inj hexec
      subst hk₁
      exact hshrink (hL.reply t id msg len) (fun _ => refl _) fun x _ =>
        hcalls x (by simp)
    | cancelWaiter e t reason =>
      obtain ⟨L', hinv, hrel⟩ :=
        Run.of_exists (hL.cancelWaiter (fun _ _ => hL.endpoint_eq hop.1) reason) hexec
      exact hshrink hinv (fun e => hrel.lists e .send) fun x _ => hcalls x (by simp)
    | cancelAll e reason =>
      obtain ⟨hinv, hrel⟩ := Run.of_exists (hL.cancelAll e reason) hexec
      exact hshrink hinv (fun e => hrel.lists e .send) fun x _ => hcalls x (by simp)
    | tickUpdate =>
      obtain ⟨L', hinv, hrel⟩ := hL.forTasks Kernel.tickTask_cases hexec
      exact hshrink hinv (fun e => hrel.lists e .send) fun x _ => hcalls x (by simp)
    | compensateTicks n =>
      obtain ⟨L', hinv, hrel⟩ := hL.forTasks Kernel.compensateTask_cases hexec
      exact hshrink hinv (fun e => hrel.lists e .send) fun x _ => hcalls x (by simp)
    | _ => exact hop.elim
  · subst hg
    exact hshrink (hb.queueInv hL) (fun _ => refl _) fun _ _ => rfl

/-- What a receive does with queues in order. -/
theorem takesFirst (h : Ordered k g) : TakesFirst k g := by
  intro e t buf maxLen timeout filter k' st x ht hk' hx hx'
  obtain ⟨L, hL, horder⟩ := h.order
  obtain ⟨L', hout, hqueues⟩ := Run.of_exists_pair (hL.receiveAt ht) hk'
  have hxL := (hL.mem _ _ _).mpr hx
  have hxL' : x ∉ L' e .send := fun hmem => hx' ((hqueues.mem _ _ _).mp hmem)
  have hlabel : ∀ y, y ∈ L e .send →
      (k.prepareReceive t buf maxLen filter).ipc y = k.ipc y := by
    intro y hy
    refine k.ipc_prepareReceive_of_ne buf maxLen filter ?_
    rintro rfl
    exact hL.notMem_of_ready ht e .send hy
  cases hout with
  | @delivered z next q hfind =>
    rw [set_self] at hxL'
    -- the only sender that leaves is the one found
    obtain rfl : x = z := by
      by_contra hne
      exact hxL' ((mem_eraseP_iff (hL.holds e .send).nodup hfind).mpr ⟨hxL, hne⟩)
    obtain ⟨hacc, as, bs, hsplit, has⟩ := find?_eq_some_iff_append.mp hfind
    rw [hlabel x hxL] at hacc
    refine ⟨hacc, fun y hy hacc' hne => ?_⟩
    have hyL := (hL.mem _ _ _).mpr hy
    have hpair := horder e
    rw [hsplit] at hyL hpair
    rcases mem_append.mp hyL with hya | hyb
    · have hrej := has y hya
      rw [hlabel y (hsplit ▸ hyL), hacc'] at hrej
      cases hrej
    · rcases mem_cons.mp hyb with rfl | hyb
      · exact absurd rfl hne
      · exact rel_of_pairwise_cons (pairwise_append.mp hpair).2.1 hyb
  | refused => exact absurd hxL hxL'
  | queued =>
    rw [set_of_ne _ _ (by simp)] at hxL'
    exact absurd hxL hxL'

theorem of_quiet (h : Quiet k g) : Ordered k g where
  tracks := Tracks.of_quiet h
  order := by
    obtain ⟨L, hL⟩ := (Tracks.of_quiet h).queues
    refine ⟨L, hL, fun e => ?_⟩
    have hnil : L e .send = [] := eq_nil_iff_forall_not_mem.mpr fun x =>
      hL.notMem_of_ready (h.idle x) e .send
    rw [hnil]
    exact List.Pairwise.nil

end Ordered

/-- **A receive takes the most urgent sender, and among equals the first**, in every run in which no
queued sender's priority changes. -/
theorem receive_takes_first [NeZero N] {k₀ k : Kernel N} {g₀ g : Ghost N} (h : Quiet k₀ g₀)
    (hrun : Relation.ReflTransGen
      (fun s s' => MessageStep s s' ∧ KeepsSenderPriority s.1 s'.1) (k₀, g₀) (k, g)) :
    TakesFirst k g := by
  have hordered := Run.steps_invariant (P := fun s => Ordered s.1 s.2) (Ordered.of_quiet h)
    (fun _ _ hs hstep => hs.step hstep.1 hstep.2) hrun
  exact hordered.takesFirst

/-! ## Runs by example -/

theorem Background.of_moves {k k' : Kernel N} (h : k.Slots) (hmoves : k.Moves k')
    (hipc : k'.ipc = k.ipc) (hends : k'.endpoints = k.endpoints) : Background k k' where
  slots := h.moves hmoves
  count := hmoves.fixed.1.ge
  endpoints := hends
  idle t ht := by rw [hipc, ht]
  waiting t _ := ⟨_, _, by rw [hipc]⟩

/-- A system of three tasks of one priority. -/
def threeTasks : Kernel 3 :=
  (((Kernel.boot.createTask true 8).1.createTask true 8).1.createTask true 8).1

theorem threeTasks_quiet : Quiet threeTasks (empty 3) :=
  ⟨by decide, by decide, fun _ side => by cases side <;> rfl, rfl⟩

/-- A call that waits as long as it takes. -/
def sendFrom (t : Fin 3) : Op 3 := .call 0 (some t) none 0 none 0 ipcTimeoutInfinite 0

/-- The second task queues. -/
def oneSender : Kernel 3 := ((sendFrom 1).exec (fun _ _ => none) threeTasks).get (by decide)

/-- The third task queues behind it. -/
def twoSenders : Kernel 3 := ((sendFrom 2).exec (fun _ _ => none) oneSender).get (by decide)

def sendersGhost : Ghost 3 :=
  ((Ghost.empty 3).after threeTasks oneSender (sendFrom 1)).after oneSender twoSenders (sendFrom 2)

theorem twoSenders_reached : Relation.ReflTransGen
    (fun s s' => MessageStep s s' ∧ KeepsSenderPriority s.1 s'.1) (threeTasks, empty 3)
    (twoSenders, sendersGhost) := by
  have hone : (sendFrom 1).exec (fun _ _ => none) threeTasks = some oneSender :=
    (some_get _).symm
  have htwo : (sendFrom 2).exec (fun _ _ => none) oneSender = some twoSenders :=
    (some_get _).symm
  exact .tail (.single ⟨.of_exec _ (by decide) hone, by decide⟩)
    ⟨.of_exec _ (by decide) htwo, by decide⟩

/-- The third task's priority is raised while it is queued, as by inheritance: the other sender is
taken all the same. -/
theorem not_takesFirst_of_setTaskPriority : ∃ k g,
    Relation.ReflTransGen MessageStep (threeTasks, Ghost.empty 3) (k, g) ∧ ¬ TakesFirst k g := by
  refine ⟨twoSenders.setTaskPriority 2 20, sendersGhost,
    .tail (twoSenders_reached.lift id fun _ _ h => h.1) (.inr ⟨?_, rfl⟩),
    fun h => ?_⟩
  · exact .of_moves (by decide) ((Scheduler.Moves.refl _).setTaskPriority 2 20) rfl rfl
  · let k' : Kernel 3 × IpcStatus := ((twoSenders.setTaskPriority 2 20).receive 0 (some 0) none 0
      ipcNonblock 0).get (by decide)
    have hk' : (twoSenders.setTaskPriority 2 20).receive 0 (some 0) none 0 ipcNonblock 0 =
        some k' := (some_get _).symm
    have hfirst := (h 0 0 none 0 ipcNonblock 0 k'.1 k'.2 1 (by decide) hk' (by decide)
      (by decide)).2 2 (by decide) (by decide) (by decide)
    revert hfirst
    decide

/-- The task that queued first is taken first. -/
theorem receive_takes_first_twoSenders : twoSenders.Waits 1 0 .send ∧ twoSenders.Waits 2 0 .send ∧
    TakesFirst twoSenders sendersGhost :=
  ⟨by decide, by decide, receive_takes_first threeTasks_quiet twoSenders_reached⟩

end AuroraOS
