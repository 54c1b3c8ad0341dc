import AuroraOS.History

/-!
# Every message is delivered once, as it was sent

The history of every run of calls, receives, replies, timeouts and cancellations is justified. The
invariant ties a waiting task's context to the call or the receive it issued last: a queued call has
not been delivered, an open receive has got no message, and a task that waits for a reply has had
its call delivered to the task its context names.
-/

namespace AuroraOS

open WaitQueue Option List IpcContext

variable {N : Nat}

/-! ## The invariant -/

/-- All tickets of the event have been given out. -/
def Event.Below (n : Nat) : Event N → Prop
  | called c | closed c | replied c .. => c.ticket < n
  | listened r | received r => r.ticket < n
  | delivered c r _ => c.ticket < n ∧ r.ticket < n
  | rejected .. => True

/-- The context of task `t` agrees with the operation it issued last. -/
def Ghost.Fits (g : Ghost N) (t : Fin N) (ctx : IpcContext N) : Prop :=
  match ctx.state with
  | .ready => True
  | .sending =>
    (g.calls t).sender = t ∧ .called (g.calls t) ∈ g.log ∧
      (∀ ev ∈ g.log, ev.call? ≠ some (g.calls t)) ∧
      ctx.msgBuf = (g.calls t).msg ∧ ctx.msgLen = (g.calls t).len ∧
      ctx.replyBuf = (g.calls t).replyBuf ∧ ctx.badge = (g.calls t).badge ∧
      ctx.msgType = (g.calls t).label
  | .receiving =>
    (g.receives t).receiver = t ∧ .listened (g.receives t) ∈ g.log ∧
      (∀ ev ∈ g.log, ev.receive? ≠ some (g.receives t)) ∧
      ctx.msgBuf = (g.receives t).buf ∧ ctx.maxLen = (g.receives t).maxLen ∧
      ctx.labelFilter = (g.receives t).labelFilter
  | .replyBlocked =>
    (g.calls t).sender = t ∧
      (∃ r got, .delivered (g.calls t) r got ∈ g.log ∧ (r.receiver : Nat) = ctx.receiverId) ∧
      (∀ ev ∈ g.log, ev.call? = some (g.calls t) → ∃ r got, ev = .delivered (g.calls t) r got) ∧
      ctx.replyBuf = (g.calls t).replyBuf

/-- The history is justified, and the kernel is where the history says. -/
structure Tracks (k : Kernel N) (g : Ghost N) : Prop where
  slots : k.Slots
  queues : ∃ L, QueueInv k L
  bounded : ∀ t, (k.ipc t).state ≠ .ready → (t : Nat) < k.sched.taskCount
  history : History g.log
  below : ∀ ev ∈ g.log, ev.Below g.next
  fits : ∀ t, g.Fits t (k.ipc t)

namespace Event

variable {n : Nat} {ev : Event N}

/-- The tickets have been given out, and the operations that the event carries on are those of tasks
in `A`. -/
def About (A : Fin N → Prop) (n : Nat) (ev : Event N) : Prop :=
  ev.Below n ∧ (∀ c, ev.call? = some c → A c.sender) ∧ ∀ r, ev.receive? = some r → A r.receiver

theorem Below.mono {m : Nat} (h : n ≤ m) (hev : ev.Below n) : ev.Below m := by
  cases ev with
  | delivered => exact ⟨hev.1.trans_le h, hev.2.trans_le h⟩
  | rejected => trivial
  | _ => exact Nat.lt_of_lt_of_le hev h

theorem Below.call_lt (h : ev.Below n) {c : CallInfo N} (hc : ev.call? = some c) :
    c.ticket < n := by
  cases ev <;> simp only [Event.call?, some.injEq, reduceCtorEq] at hc
  case delivered => exact hc ▸ h.1
  all_goals exact hc ▸ h

theorem Below.receive_lt (h : ev.Below n) {r : ReceiveInfo N} (hr : ev.receive? = some r) :
    r.ticket < n := by
  cases ev <;> simp only [Event.receive?, some.injEq, reduceCtorEq] at hr
  case delivered => exact hr ▸ h.2
  all_goals exact hr ▸ h

end Event

theorem History.append {new log : List (Event N)} (h : History log)
    (hnew : ∀ ev ∈ new, ∃ c, ev = .closed c) : History (new ++ log) := by
  induction new with
  | nil => exact h
  | cons ev new ih =>
    refine ⟨?_, ih fun ev' hev => hnew ev' (mem_cons_of_mem _ hev)⟩
    obtain ⟨c, rfl⟩ := hnew ev (mem_cons_self ..)
    trivial

namespace Ghost

variable {g g' : Ghost N} {t : Fin N} {ctx ctx' : IpcContext N}

/-- Fitting depends on the message fields only. -/
theorem Fits.congr (h : g.Fits t ctx) (hstate : ctx'.state = ctx.state)
    (hmsg : ctx'.message = ctx.message) : g.Fits t ctx' := by
  have hfield : ∀ {α : Type} (f : IpcContext N → α), f ctx'.message = f ctx.message :=
    fun f => congrArg f hmsg
  have h₁ : ctx'.msgBuf = ctx.msgBuf := hfield msgBuf
  have h₂ : ctx'.msgLen = ctx.msgLen := hfield msgLen
  have h₃ : ctx'.replyBuf = ctx.replyBuf := hfield replyBuf
  have h₄ : ctx'.badge = ctx.badge := hfield badge
  have h₅ : ctx'.msgType = ctx.msgType := hfield msgType
  have h₆ : ctx'.maxLen = ctx.maxLen := hfield maxLen
  have h₇ : ctx'.labelFilter = ctx.labelFilter := hfield labelFilter
  have h₈ : ctx'.receiverId = ctx.receiverId := hfield receiverId
  unfold Fits at h ⊢
  rw [hstate, h₁, h₂, h₃, h₄, h₅, h₆, h₇, h₈]
  exact h

/-- Events about other tasks' operations change nothing. -/
theorem Fits.frame (h : g.Fits t ctx) (hcalls : g'.calls t = g.calls t)
    (hreceives : g'.receives t = g.receives t) {new : List (Event N)}
    (hlog : g'.log = new ++ g.log)
    (hcall : ctx.state = .sending ∨ ctx.state = .replyBlocked → (g.calls t).sender = t →
      ∀ ev ∈ new, ev.call? ≠ some (g.calls t))
    (hreceive : ctx.state = .receiving → (g.receives t).receiver = t →
      ∀ ev ∈ new, ev.receive? ≠ some (g.receives t)) : g'.Fits t ctx := by
  unfold Fits at h ⊢
  rw [hcalls, hreceives, hlog]
  cases hstate : ctx.state with
  | ready => trivial
  | sending =>
    simp only [hstate] at h ⊢
    obtain ⟨hself, hcalled, huntouched, hfields⟩ := h
    refine ⟨hself, mem_append_right _ hcalled, fun ev hev => ?_, hfields⟩
    rcases mem_append.mp hev with hev | hev
    · exact hcall (.inl hstate) hself ev hev
    · exact huntouched ev hev
  | receiving =>
    simp only [hstate] at h ⊢
    obtain ⟨hself, hlistened, huntouched, hfields⟩ := h
    refine ⟨hself, mem_append_right _ hlistened, fun ev hev => ?_, hfields⟩
    rcases mem_append.mp hev with hev | hev
    · exact hreceive hstate hself ev hev
    · exact huntouched ev hev
  | replyBlocked =>
    simp only [hstate] at h ⊢
    obtain ⟨hself, ⟨r, got, hdelivered, hr⟩, honly, hfields⟩ := h
    refine ⟨hself, ⟨r, got, mem_append_right _ hdelivered, hr⟩, fun ev hev hc => ?_, hfields⟩
    rcases mem_append.mp hev with hev | hev
    · exact absurd hc (hcall (.inr hstate) hself ev hev)
    · exact honly ev hev hc

end Ghost

/-! ## What is observed -/

namespace Ghost

variable {g : Ghost N} {k k' : Kernel N} {t : Fin N}

theorem observed_eq_none (h : (k.ipc t).state = .ready ∨ (k'.ipc t).state ≠ .ready) :
    g.observed k k' t = none := by
  unfold observed
  rcases h with h | h
  · simp [h]
  · simp [h]

theorem observe_eq_nil {skip : Option (Fin N)}
    (h : ∀ x, some x ≠ skip → (k.ipc x).state = .ready ∨ (k'.ipc x).state ≠ .ready) :
    g.observe k k' skip = [] := by
  rw [observe, filterMap_eq_nil_iff]
  intro x _
  split_ifs with hx
  · rfl
  · exact observed_eq_none (h x hx)

theorem observe_eq_nil_of_ne (ht : (k.ipc t).state = .ready)
    (h : ∀ x, x ≠ t → (k'.ipc x).state = (k.ipc x).state) : g.observe k k' none = [] := by
  refine observe_eq_nil fun x _ => ?_
  by_cases hx : x = t
  · exact .inl (hx ▸ ht)
  · rw [h x hx]
    exact em _

theorem observe_eq_singleton (ht : (k.ipc t).state = .receiving)
    (ht' : (k'.ipc t).state = .ready ∧ (k'.ipc t).status = .ok)
    (h : ∀ x, x ≠ t → (k.ipc x).state = .ready ∨ (k'.ipc x).state ≠ .ready) :
    g.observe k k' none = [.received (g.receives t)] := by
  have hone : ∀ x, (if some x = none then none else g.observed k k' x) =
      if x = t then some (.received (g.receives t)) else none := by
    intro x
    by_cases hx : x = t
    · rw [hx, observed, if_pos ht'.1, ht]
      simp [ht'.2]
    · rw [if_neg (by simp), if_neg hx, observed_eq_none (h x hx)]
  rw [observe, filterMap_congr (fun x _ => hone x)]
  have hmem : t ∈ finRange N := mem_finRange t
  have hnd := nodup_finRange N
  generalize finRange N = l at hmem hnd
  induction l with
  | nil => cases hmem
  | cons x l ih =>
    rw [nodup_cons] at hnd
    rw [filterMap_cons]
    by_cases hx : x = t
    · have hrest : l.filterMap (fun y => if y = t then some (.received (g.receives t)) else none) =
          ([] : List (Event N)) := by
        refine filterMap_eq_nil_iff.mpr fun y hy => if_neg ?_
        rintro rfl
        exact hnd.1 (hx ▸ hy)
      rw [if_pos hx, hrest]
    · rw [if_neg hx]
      exact ih ((mem_cons.mp hmem).resolve_left (Ne.symm hx)) hnd.2

end Ghost

variable (k : Kernel N)

/-! ## Copying -/

theorem copyLen_eq (len maxLen : Nat) :
    copyLen len maxLen = min (min len maxLen) maxIpcMsgSize := by
  unfold copyLen
  dsimp only
  split_ifs <;> omega

theorem Kernel.copyMessage_some (dst src : Buffer) (n : Nat) :
    (k.copyMessage (some dst) (some src) n).2 = n ∧
      ∀ b i, (k.copyMessage (some dst) (some src) n).1.memory b i =
        if b = dst ∧ i < n then k.memory src i else k.memory b i := by
  unfold copyMessage
  dsimp only
  split_ifs
  · refine ⟨rfl, fun b i => ?_⟩
    simp only [copyBytes]
    by_cases hb : b = dst
    · subst hb
      simp
    · simp [hb]
  · refine ⟨by omega, fun b i => ?_⟩
    rw [if_neg (by omega)]

theorem Kernel.copyMessage_congr {k k' : Kernel N} (h : k'.memory = k.memory)
    (dst src : Option Buffer) (n : Nat) :
    (k'.copyMessage dst src n).2 = (k.copyMessage dst src n).2 ∧
      (k'.copyMessage dst src n).1.memory = (k.copyMessage dst src n).1.memory := by
  unfold copyMessage
  split
  · split_ifs
    · exact ⟨rfl, by simp only [copyBytes, h]⟩
    · exact ⟨rfl, h⟩
  · exact ⟨rfl, h⟩

/-- A copy writes to its destination only. -/
theorem Kernel.copyMessage_frame {k : Kernel N} {dst src : Option Buffer} {n : Nat} {b : Buffer}
    (h : (k.copyMessage dst src n).1.memory b ≠ k.memory b) : dst = some b := by
  by_contra hne
  apply h
  unfold copyMessage
  split
  · next dst src =>
    split_ifs
    · have hb : b ≠ dst := fun hb => hne (congrArg some hb.symm)
      exact Function.update_of_ne hb _ _
    · rfl
  · rfl

theorem Receipt.matches_copy {k : Kernel N} {c : CallInfo N} {r : ReceiveInfo N} {got : Receipt}
    (hid : got.senderId = c.sender) (hbadge : got.badge = c.badge) (hlabel : got.label = c.label)
    (haccepts : accepts r.labelFilter c.label = true)
    (hlen : got.len = (k.copyMessage r.buf c.msg (copyLen c.len r.maxLen)).2)
    (hbefore : got.before = k.memory)
    (hafter : got.after = (k.copyMessage r.buf c.msg (copyLen c.len r.maxLen)).1.memory) :
    got.Matches c r := by
  refine ⟨hid, hbadge, hlabel, haccepts, ?_⟩
  cases hmsg : c.msg with
  | none =>
    rw [hmsg] at hlen hafter
    rw [hlen, hafter, hbefore]
    cases r.buf <;> exact ⟨rfl, rfl⟩
  | some src =>
    cases hbuf : r.buf with
    | none =>
      rw [hbuf] at hlen hafter
      rw [hlen, hafter, hbefore]
      exact ⟨rfl, rfl⟩
    | some dst =>
      rw [hmsg, hbuf] at hlen hafter
      obtain ⟨hn, hbytes⟩ := k.copyMessage_some dst src (copyLen c.len r.maxLen)
      rw [hlen, hafter, hbefore, hn]
      exact ⟨copyLen_eq .., hbytes⟩

@[simp] theorem Kernel.memory_deliver (receiver sender : Fin N) (msg : Option Buffer)
    (len badge : Nat) :
    (k.deliver receiver sender msg len badge).memory =
      (k.copyMessage (k.ipc receiver).msgBuf msg
        (copyLen len (k.ipc receiver).maxLen)).1.memory := by
  simp [deliver]

@[simp] theorem Kernel.memory_callReceiver (e : EndpointId) (sender receiver : Fin N)
    (msg : Option Buffer) (len timeout badge : Nat) :
    (k.callReceiver e sender receiver msg len timeout badge).memory =
      (k.deliver receiver sender msg len badge).memory := by
  unfold callReceiver
  split_ifs <;> simp

@[simp] theorem Kernel.memory_receiveFrom (receiver sender : Fin N) :
    (k.receiveFrom receiver sender).memory =
      (k.deliver receiver sender (k.ipc sender).msgBuf (k.ipc sender).msgLen
        (k.ipc sender).badge).memory := by
  simp [receiveFrom]

/-! ## Steps -/

theorem Kernel.Slots.moves {k k' : Kernel N} (h : k.Slots) (hmoves : k.Moves k') : k'.Slots := by
  obtain ⟨hcount, hid⟩ := hmoves.fixed
  intro i hi
  rw [hid i]
  exact h i (hcount ▸ hi)

namespace Tracks

variable {k k' : Kernel N} {g g' : Ghost N} {t : Fin N} {r : ReceiveInfo N}

variable {L' : Waiting N}

variable (h : Tracks k g)

include h

/-- The rule for a step. `A` are the tasks it concerns: the new events are about their operations,
and they fit the new history. -/
theorem extend (A : Fin N → Prop) (new : List (Event N)) (hlog : g'.log = new ++ g.log)
    (hslots : k'.Slots) (hqueues : ∃ L, QueueInv k' L)
    (hcount : k.sched.taskCount ≤ k'.sched.taskCount) (hhistory : History g'.log)
    (hnext : g.next ≤ g'.next) (hnew : ∀ ev ∈ new, ev.About A g'.next)
    (hother : ∀ x, ¬ A x → (k'.ipc x).state = (k.ipc x).state ∧
      (k'.ipc x).message = (k.ipc x).message ∧ g'.calls x = g.calls x ∧
      g'.receives x = g.receives x) (hfits : ∀ x, A x → (k'.ipc x).state ≠ .ready →
      (x : Nat) < k'.sched.taskCount ∧ g'.Fits x (k'.ipc x)) : Tracks k' g' where
  slots := hslots
  queues := hqueues
  bounded x hx := by
    by_cases hA : A x
    · exact (hfits x hA hx).1
    · exact (h.bounded x ((hother x hA).1 ▸ hx)).trans_le hcount
  history := hhistory
  below ev hev := by
    rw [hlog] at hev
    rcases mem_append.mp hev with hev | hev
    · exact (hnew ev hev).1
    · exact (h.below ev hev).mono hnext
  fits x := by
    by_cases hA : A x
    · by_cases hx : (k'.ipc x).state = .ready
      · unfold Ghost.Fits
        rw [hx]
        trivial
      · exact (hfits x hA hx).2
    · obtain ⟨hstate, hmsg, hc, hr⟩ := hother x hA
      exact ((h.fits x).congr hstate hmsg).frame hc hr hlog
        (fun _ hself ev hev hcall => hA (hself ▸ (hnew ev hev).2.1 _ hcall))
        fun _ hself ev hev hrecv => hA (hself ▸ (hnew ev hev).2.2 _ hrecv)

theorem ticket_lt (ht : (k.ipc t).state = .sending ∨ (k.ipc t).state = .replyBlocked) :
    (g.calls t).sender = t ∧ (g.calls t).ticket < g.next := by
  have hfits := h.fits t
  unfold Ghost.Fits at hfits
  rcases ht with ht | ht <;> simp only [ht] at hfits
  · exact ⟨hfits.1, h.below _ hfits.2.1⟩
  · obtain ⟨hself, ⟨r, got, hdelivered, -⟩, -⟩ := hfits
    exact ⟨hself, (h.below _ hdelivered).1⟩

theorem releases {reason : IpcStatus} {L : Waiting N} (hrel : Releases reason k L k' L')
    (hreason : reason ≠ .ok) (hqueues : QueueInv k' L') (hmoves : k.Moves k') :
    Tracks k' { g with log := g.observe k k' none ++ g.log } := by
  -- what is observed is the end of calls
  have hclosed : ∀ ev ∈ g.observe k k' none, ∃ x, ev = .closed (g.calls x) ∧
      ((k.ipc x).state = .sending ∨ (k.ipc x).state = .replyBlocked) ∧
      (k'.ipc x).state = .ready := by
    intro ev hev
    obtain ⟨x, -, hx⟩ := mem_filterMap.mp hev
    rw [if_neg (by simp)] at hx
    have hready : (k'.ipc x).state = .ready := by
      by_contra hne
      rw [Ghost.observed_eq_none (.inr hne)] at hx
      cases hx
    rw [Ghost.observed, if_pos hready] at hx
    refine ⟨x, ?_⟩
    cases hstate : (k.ipc x).state with
    | ready => simp [hstate] at hx
    | receiving =>
      have hok : (k'.ipc x).status = .ok := by
        by_contra hok
        simp [hstate, hok] at hx
      rcases hrel.waits x with ⟨hs, -⟩ | ⟨-, hs⟩
      · rw [hready, hstate] at hs
        cases hs
      · exact absurd (hs.symm.trans hok) hreason
    | sending =>
      simp only [hstate, some.injEq] at hx
      exact ⟨hx.symm, .inl rfl, hready⟩
    | replyBlocked =>
      simp only [hstate, some.injEq] at hx
      exact ⟨hx.symm, .inr rfl, hready⟩
  refine h.extend (fun x => (k.ipc x).state ≠ .ready ∧ (k'.ipc x).state = .ready) _ rfl
    (h.slots.moves hmoves) ⟨L', hqueues⟩ hmoves.fixed.1.ge ?_ le_rfl (fun ev hev => ?_)
    (fun x hx => ?_) (fun x hx hne => absurd hx.2 hne)
  · refine h.history.append fun ev hev => ?_
    obtain ⟨x, rfl, -⟩ := hclosed ev hev
    exact ⟨_, rfl⟩
  · obtain ⟨x, rfl, hx, hready⟩ := hclosed ev hev
    obtain ⟨hself, hlt⟩ := h.ticket_lt hx
    refine ⟨hlt, fun c hc => ?_, nofun⟩
    rw [← some.inj hc, hself]
    refine ⟨?_, hready⟩
    rcases hx with hx | hx <;> rw [hx] <;> decide
  · refine ⟨?_, hrel.message x, rfl, rfl⟩
    rcases hrel.waits x with ⟨hs, -⟩ | ⟨hs, -⟩
    · exact hs
    · by_contra hne
      exact hx ⟨fun hready => hne (hs.trans hready.symm), hs⟩

theorem called_justified {c : CallInfo N} (hc : c.ticket = g.next) :
    (Event.called c).Justified g.log ∧ ∀ ev ∈ g.log, ev.call? ≠ some c := by
  refine ⟨fun c' hc' heq => ?_, fun ev hev hcall => ?_⟩
  · have : c'.ticket < g.next := h.below _ hc'
    omega
  · have := (h.below ev hev).call_lt hcall
    omega

theorem listened_justified (hr : r.ticket = g.next) :
    (Event.listened r).Justified g.log ∧ ∀ ev ∈ g.log, ev.receive? ≠ some r := by
  refine ⟨fun r' hr' heq => ?_, fun ev hev hrecv => ?_⟩
  · have : r'.ticket < g.next := h.below _ hr'
    omega
  · have := (h.below ev hev).receive_lt hrecv
    omega

/-- A call or a receive is issued, and is refused or waits. -/
theorem issued {issue : Event N} (hissue : issue.Justified g.log)
    (hnew : issue.call? = none ∧ issue.receive? = none ∧ issue.Below (g.next + 1))
    (hlog : g'.log = [issue] ++ g.log) (hnext : g'.next = g.next + 1)
    (hops : ∀ x, x ≠ t → g'.calls x = g.calls x ∧ g'.receives x = g.receives x)
    (hqueues : QueueInv k' L') (hmoves : k.Moves k') (hlt : (t : Nat) < k.sched.taskCount)
    (hother : Kernel.Aside t k k') (hfits : (k'.ipc t).state ≠ .ready → g'.Fits t (k'.ipc t)) :
    Tracks k' g' := by
  have hcount := hmoves.fixed.1
  refine h.extend (fun x => x = t) _ hlog (h.slots.moves hmoves) ⟨L', hqueues⟩ hcount.ge
    (hlog ▸ ⟨hissue, h.history⟩) (by omega) ?_ (fun x hx => ?_) ?_
  · rw [hnext]
    exact forall_mem_singleton.mpr ⟨hnew.2.2, by simp [hnew.1, hnew.2.1]⟩
  · exact ⟨(hother x hx).1, (hother x hx).2, hops x hx⟩
  · rintro x rfl hne
    exact ⟨hcount ▸ hlt, hfits hne⟩

/-- A call and a receive, one of which has just been issued, find each other. -/
theorem delivered {c : CallInfo N} {issue : Event N}
    (hissue : issue.Justified g.log)
    (hnew : issue.call? = none ∧ issue.receive? = none ∧ issue.Below (g.next + 1))
    (hlog : g'.log = [.received r, .delivered c r (Ghost.receipt k k' r.receiver), issue] ++ g.log)
    (hnext : g'.next = g.next + 1) (hcall : g'.calls c.sender = c)
    (hcalls : ∀ x, x ≠ c.sender → g'.calls x = g.calls x)
    (hreceives : ∀ x, x ≠ r.receiver → g'.receives x = g.receives x)
    (hcalled : .called c ∈ issue :: g.log ∧ (∀ ev ∈ g.log, ev.call? ≠ some c) ∧
      c.ticket < g.next + 1)
    (hlistened : .listened r ∈ issue :: g.log ∧ (∀ ev ∈ g.log, ev.receive? ≠ some r) ∧
      r.ticket < g.next + 1)
    (hmatch : (Ghost.receipt k k' r.receiver).Matches c r) (hqueues : QueueInv k' L')
    (hmoves : k.Moves k') (hlt : (c.sender : Nat) < k.sched.taskCount)
    (hother : ∀ x, x ≠ c.sender → x ≠ r.receiver → (k'.ipc x).state = (k.ipc x).state ∧
      (k'.ipc x).message = (k.ipc x).message)
    (hsender : (k'.ipc c.sender).state = .replyBlocked → (k'.ipc c.sender).receiverId = r.receiver ∧
      (k'.ipc c.sender).replyBuf = c.replyBuf)
    (hsender' : (k'.ipc c.sender).state = .ready ∨ (k'.ipc c.sender).state = .replyBlocked)
    (hready : (k'.ipc r.receiver).state = .ready) : Tracks k' g' := by
  have hcount := hmoves.fixed.1
  have huntouched : ∀ ev ∈ issue :: g.log, ev.call? ≠ some c :=
    forall_mem_cons.mpr ⟨by simp [hnew.1], hcalled.2.1⟩
  have hopen : ∀ ev ∈ issue :: g.log, ev.receive? ≠ some r :=
    forall_mem_cons.mpr ⟨by simp [hnew.2.1], hlistened.2.1⟩
  refine h.extend (fun x => x = c.sender ∨ x = r.receiver) _ hlog (h.slots.moves hmoves)
    ⟨L', hqueues⟩ hcount.ge
    ?_ (by omega) ?_ (fun x hx => ?_) fun x hx hne => ?_
  · rw [hlog]
    refine ⟨⟨⟨c, _, mem_cons_self ..⟩, fun hmem => ?_⟩,
      ⟨hcalled.1, hlistened.1, huntouched, hopen, hmatch⟩, hissue, h.history⟩
    exact hopen _ ((mem_cons.mp hmem).resolve_left nofun) rfl
  · rw [hnext]
    refine forall_mem_cons.mpr ⟨⟨hlistened.2.2, nofun, ?_⟩, forall_mem_cons.mpr
      ⟨⟨⟨hcalled.2.2, hlistened.2.2⟩, ?_, ?_⟩, forall_mem_singleton.mpr ⟨hnew.2.2, ?_⟩⟩⟩
    · exact fun r' hr' => some.inj hr' ▸ .inr rfl
    · exact fun c' hc' => some.inj hc' ▸ .inl rfl
    · exact fun r' hr' => some.inj hr' ▸ .inr rfl
    · simp [hnew.1, hnew.2.1]
  · rw [not_or] at hx
    obtain ⟨hstate, hmsg⟩ := hother x hx.1 hx.2
    exact ⟨hstate, hmsg, hcalls x hx.1, hreceives x hx.2⟩
  · rcases hx with rfl | rfl
    · have hblocked := hsender'.resolve_left hne
      obtain ⟨hrid, hrep⟩ := hsender hblocked
      refine ⟨hcount ▸ hlt, ?_⟩
      simp only [Ghost.Fits, hblocked, hcall, hlog]
      refine ⟨trivial, ⟨r, _, mem_cons_of_mem _ (mem_cons_self ..), hrid.symm⟩,
        fun ev hev hc => ?_, hrep⟩
      simp only [cons_append, mem_cons] at hev
      rcases hev with rfl | rfl | hev
      · cases hc
      · exact ⟨_, _, rfl⟩
      · exact absurd hc (huntouched ev (mem_cons.mpr hev))
    · exact absurd hready hne

end Tracks

end AuroraOS
