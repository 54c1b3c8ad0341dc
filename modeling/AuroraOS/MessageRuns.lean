import AuroraOS.Messages

/-!
# Message passing along runs

Calls, receives, replies, timeouts and cancellations keep the history justified, whatever else
happens between them.
-/

namespace AuroraOS

open WaitQueue Function Kernel Option List Ghost Nat

variable {N : Nat}

/-! ## Taking a partner -/

namespace Ghost

variable {k k' : Kernel N} {L : Waiting N} {t : Fin N} {e : EndpointId} {r : Option (Fin N)}

theorem afterCall_eq (g : Ghost N) (k' : Kernel N) (hL : QueueInv k L)
    (msg : Option Buffer) (len : Nat) (rep : Option Buffer) (maxRep badge : Nat)
    (hfind : (L e .recv).find? (fun x =>
      accepts ((k.prepareCall t msg len rep maxRep badge).ipc x).labelFilter
        ((k.prepareCall t msg len rep maxRep badge).ipc t).msgType) = r) :
    let c : CallInfo N := ⟨g.next, t, msg, len, rep, badge, k.messageType msg len⟩
    g.afterCall k k' t e msg len rep maxRep badge = { g with
      next := g.next + 1
      calls := update g.calls t c
      log := g.observe k k' none ++
        (r.toList.map fun r => .delivered c (g.receives r) (receipt k k' r)) ++
        .called c :: g.log } := by
  intro c
  rw [ipc_prepareCall_self] at hfind
  obtain ⟨next, q, hdeq, -⟩ := (hL.prepareCall msg len rep maxRep
    badge).toThreaded.dequeueMatchingReceiver e (k.messageType msg len)
  have htaken : ((k.prepareCall t msg len rep maxRep badge).dequeueMatchingReceiver e
      c.label).bind Prod.snd = r := by
    rw [hdeq]
    exact hfind
  unfold afterCall
  rw [← htaken]

theorem afterReceive_eq (g : Ghost N) (k' : Kernel N) (hL : QueueInv k L) (buf : Option Buffer)
    (maxLen filter : Nat)
    (hfind : (L e .send).find? (fun x =>
      accepts filter ((k.prepareReceive t buf maxLen filter).ipc x).msgType) = r) :
    let ri : ReceiveInfo N := ⟨g.next, t, buf, maxLen, filter⟩
    g.afterReceive k k' t e buf maxLen filter = { g with
      next := g.next + 1
      receives := update g.receives t ri
      log := (if (k'.ipc t).state = .ready ∧ (k'.ipc t).status = .ok then [.received ri] else []) ++
        g.observe k k' none ++
        (r.toList.map fun x => .delivered (g.calls x) ri (receipt k k' t)) ++
        .listened ri :: g.log } := by
  intro ri
  obtain ⟨next, q, hdeq, -⟩ := (hL.prepareReceive buf maxLen
    filter).toThreaded.dequeueMatchingSender e filter
  have htaken : ((k.prepareReceive t buf maxLen filter).dequeueMatchingSender e
      filter).bind Prod.snd = r := by
    rw [hdeq]
    exact hfind
  unfold afterReceive
  rw [← htaken]

end Ghost

/-! ## Operations -/

/-- What happens outside the endpoints leaves the queues alone. -/
theorem Background.queueInv {k k' : Kernel N} {L : Waiting N} (h : Background k k')
    (hL : QueueInv k L) : QueueInv k' L := by
  refine hL.of_threaded (hL.toThreaded.congr h.endpoints fun e side x hx => ?_)
    (fun x => (k.ipc x).state = .ready) (fun x hx => ⟨fun _ _ => Iff.rfl, ?_⟩)
    fun x hx e side => ?_
  · have hwaits : (k.ipc x).state ≠ .ready := fun hready => hL.notMem_of_ready hready e side hx
    obtain ⟨v, b, hctx⟩ := h.waiting x hwaits
    rw [blocked, hctx]
    rfl
  · obtain ⟨v, b, hctx⟩ := h.waiting x hx
    rw [hctx]
    exact ⟨rfl, rfl⟩
  · refine iff_of_false (hL.notMem_of_ready hx e side) fun hw => ?_
    have hstate := (h.idle x hx).symm.trans hw.1
    cases side <;> cases hstate

namespace Tracks

variable {k k' : Kernel N} {g : Ghost N} {t : Fin N}

/-- **A call keeps the history justified.** -/
theorem call (h : Tracks k g) (hlt : (t : Nat) < k.sched.taskCount)
    (ht : (k.ipc t).state = .ready) {e : EndpointId} {msg : Option Buffer} {len : Nat}
    {rep : Option Buffer} {maxRep timeout badge : Nat} {st : IpcStatus}
    (hk' : k.callFrom e t msg len rep maxRep timeout badge = some (k', st)) :
    Tracks k' (g.afterCall k k' t e msg len rep maxRep badge) := by
  obtain ⟨L, hL⟩ := h.queues
  obtain ⟨L', hout, hqueues⟩ := Run.of_exists_pair (hL.callFrom ht) hk'
  have hmoves := (Calls.callFrom hk').moves
  have hself := k.ipc_prepareCall_self t msg len rep maxRep badge
  have hother := fun x => k.ipc_prepareCall_of_ne (t := t) (i := x) msg len rep maxRep badge
  have hafter := fun r => g.afterCall_eq (r := r) k' hL msg len rep maxRep badge (t := t) (e := e)
  set k₀ := k.prepareCall t msg len rep maxRep badge with hk₀
  set c : CallInfo N := ⟨g.next, t, msg, len, rep, badge, k.messageType msg len⟩ with hc
  obtain ⟨hfresh, hunused⟩ := h.called_justified (c := c) rfl
  cases hout with
  | @delivered r next q hfind =>
    have hr : (k.ipc r).state = .receiving :=
      ((hL.mem _ _ _).mp (mem_of_find?_eq_some hfind)).1
    have hne : t ≠ r := by
      rintro rfl
      rw [ht] at hr
      cases hr
    have hcopy := copyMessage_congr (show (k₀.setQueue e .recv next q).memory = k.memory from rfl)
      (k.ipc r).msgBuf msg (copyLen len (k.ipc r).maxLen)
    have haccepts := find?_some hfind
    rw [hother r hne.symm, hself] at haccepts
    set k' := (k₀.setQueue e .recv next q).callReceiver e t r msg len timeout badge with hk'
    have hctx : ∀ x, x ≠ t → x ≠ r → k'.ipc x = { k.ipc x with blockedNext := next x } := by
      intro x hxt hxr
      rw [ipc_callReceiver, if_neg hxt, ipc_deliver _ hne, if_neg hxt, if_neg hxr,
        ipc_setQueue, hother x hxt]
    have hctxt : k'.ipc t = { k₀.ipc t with
        blockedNext := next t
        receiverId := (k.sched.tasks r).id
        state := if timeout = ipcNonblock then .ready else .replyBlocked
        waitingEndpoint := if timeout = ipcNonblock then none else some e } := by
      rw [ipc_callReceiver, if_pos rfl, ipc_deliver _ hne, if_pos rfl]
      rfl
    have hctxr : k'.ipc r = { k.ipc r with
        blockedNext := next r
        msgLen := (k.copyMessage (k.ipc r).msgBuf msg (copyLen len (k.ipc r).maxLen)).2
        senderId := (k.sched.tasks t).id
        badge := badge
        msgType := k.messageType msg len
        state := .ready
        status := .ok
        waitingEndpoint := none } := by
      rw [ipc_callReceiver, if_neg hne.symm, ipc_deliver _ hne, if_neg hne.symm,
        if_pos rfl, ipc_setQueue, ipc_setQueue, hother r hne.symm, hself]
      rw [hcopy.1]
      rfl
    have hmemory : k'.memory = (k.copyMessage (k.ipc r).msgBuf msg
        (copyLen len (k.ipc r).maxLen)).1.memory := by
      rw [memory_callReceiver, memory_deliver, ipc_setQueue, hother r hne.symm]
      exact hcopy.2
    have hfits := h.fits r
    simp only [Ghost.Fits, hr] at hfits
    obtain ⟨hown, hlistened, hopen, hbuf, hmax, hfilter⟩ := hfits
    have hid : (k.sched.tasks r).id = r := h.slots r (h.bounded r (by rw [hr]; decide))
    rw [hafter _ hfind, observe_eq_singleton hr (by rw [hctxr]; exact ⟨rfl, rfl⟩) fun x hxr => ?_]
    · refine h.delivered hfresh ⟨rfl, rfl, lt_succ_self _⟩ (by rw [hown]; rfl) rfl (update_self ..)
        (fun x hx => update_of_ne hx _ _) (fun _ _ => rfl)
        ⟨mem_cons_self .., hunused, lt_succ_self _⟩
        ⟨mem_cons_of_mem _ hlistened, hopen, lt_succ_of_lt (h.below _ hlistened)⟩ ?_
        hqueues hmoves hlt
        ?_ ?_ ?_ ?_
      all_goals try rw [hown]
      · refine Receipt.matches_copy ?_ ?_ ?_ (hfilter ▸ haccepts) ?_ rfl (hbuf ▸ hmax ▸ hmemory)
        all_goals rw [receipt, hctxr]
        · exact congrArg Fin.val (h.slots t hlt)
        · rw [← hbuf, ← hmax]
      · intro x hxt hxr
        rw [hctx x hxt hxr]
        exact ⟨rfl, rfl⟩
      · intro _
        rw [hctxt, hself]
        exact ⟨congrArg Fin.val hid, rfl⟩
      · rw [hctxt]
        split_ifs
        · exact .inl rfl
        · exact .inr rfl
      · rw [hctxr]
    · by_cases hxt : x = t
      · exact .inl (hxt ▸ ht)
      · rw [hctx x hxt hxr]
        exact em _
  | @refused next q _ hfind =>
    rw [hafter _ hfind, observe_eq_nil_of_ne ht fun x hx => (aside_refuse hother x hx).1]
    refine h.issued hfresh ⟨rfl, rfl, lt_succ_self _⟩ rfl rfl
      (fun x hx => ⟨update_of_ne hx _ _, rfl⟩)
      hqueues hmoves hlt (aside_refuse hother) fun hne => absurd ?_ hne
    rw [ipc_refuse, if_pos rfl]
  | @queued next next' q q' _ hfind =>
    rw [hafter _ hfind, observe_eq_nil_of_ne ht fun x hx => (aside_parked hother x hx).1]
    refine h.issued hfresh ⟨rfl, rfl, lt_succ_self _⟩ rfl rfl
      (fun x hx => ⟨update_of_ne hx _ _, rfl⟩)
      hqueues hmoves hlt (aside_parked hother) fun _ => ?_
    rw [ipc_parked, ipc_setQueue, hself]
    simp only [Ghost.Fits, update_self]
    exact ⟨rfl, mem_cons_self .., forall_mem_cons.mpr
      ⟨(Option.some_ne_none _).symm, hunused⟩, rfl, rfl, rfl, rfl, rfl⟩

/-- **A receive keeps the history justified.** -/
theorem receive (h : Tracks k g) (hlt : (t : Nat) < k.sched.taskCount)
    (ht : (k.ipc t).state = .ready) {e : EndpointId} {buf : Option Buffer}
    {maxLen timeout filter : Nat} {st : IpcStatus}
    (hk' : k.receiveAt e t buf maxLen timeout filter = some (k', st)) :
    Tracks k' (g.afterReceive k k' t e buf maxLen filter) := by
  obtain ⟨L, hL⟩ := h.queues
  obtain ⟨L', hout, hqueues⟩ := Run.of_exists_pair (hL.receiveAt ht) hk'
  have hmoves := (Calls.receiveAt hk').moves
  have hself := k.ipc_prepareReceive_self t buf maxLen filter
  have hother := fun x => k.ipc_prepareReceive_of_ne (t := t) (i := x) buf maxLen filter
  have hafter := fun r => g.afterReceive_eq (r := r) (t := t) (e := e) k' hL buf maxLen
    filter
  set k₀ := k.prepareReceive t buf maxLen filter with hk₀
  obtain ⟨hfresh, hunused⟩ := h.listened_justified (r := ⟨g.next, t, buf, maxLen, filter⟩) rfl
  cases hout with
  | @delivered x next q hfind =>
    have hx : (k.ipc x).state = .sending :=
      ((hL.mem _ _ _).mp (mem_of_find?_eq_some hfind)).1
    have hne : x ≠ t := by
      rintro rfl
      rw [ht] at hx
      cases hx
    have hcopy := copyMessage_congr (show (k₀.setQueue e .send next q).memory = k.memory from rfl)
      buf (k.ipc x).msgBuf (copyLen (k.ipc x).msgLen maxLen)
    have haccepts := find?_some hfind
    rw [hother x hne] at haccepts
    set k' := (k₀.setQueue e .send next q).receiveFrom t x with hk'
    have hctx : ∀ y, y ≠ t → y ≠ x → (k'.ipc y).state = (k.ipc y).state ∧
        (k'.ipc y).message = (k.ipc y).message := by
      intro y hyt hyx
      rw [ipc_receiveFrom, if_neg hyx, ipc_deliver _ hne, if_neg hyx, if_neg hyt,
        ipc_setQueue, hother y hyt]
      exact ⟨rfl, rfl⟩
    have hctxx : k'.ipc x = { k.ipc x with
        blockedNext := next x, receiverId := (k.sched.tasks t).id, state := .replyBlocked } := by
      rw [ipc_receiveFrom, if_pos rfl, ipc_deliver _ hne, if_pos rfl,
        ipc_setQueue, hother x hne]
      rfl
    have hctxt : k'.ipc t = { k.ipc t with
        msgBuf := buf
        maxLen := maxLen
        labelFilter := filter
        blockedNext := next t
        msgLen := (k.copyMessage buf (k.ipc x).msgBuf (copyLen (k.ipc x).msgLen maxLen)).2
        senderId := (k.sched.tasks x).id
        badge := (k.ipc x).badge
        msgType := (k.ipc x).msgType
        state := .ready
        status := .ok
        waitingEndpoint := none } := by
      rw [ipc_receiveFrom, if_neg hne.symm, ipc_deliver _ hne, if_neg hne.symm,
        if_pos rfl, ipc_setQueue, ipc_setQueue, hother x hne, hself]
      rw [hcopy.1]
      rfl
    have hmemory : k'.memory = (k.copyMessage buf (k.ipc x).msgBuf
        (copyLen (k.ipc x).msgLen maxLen)).1.memory := by
      rw [memory_receiveFrom, memory_deliver, ipc_setQueue,
        ipc_setQueue, hother x hne, hself]
      exact hcopy.2
    have hdone : (k'.ipc t).state = .ready ∧ (k'.ipc t).status = .ok := by
      rw [hctxt]
      exact ⟨rfl, rfl⟩
    have hfits := h.fits x
    simp only [Ghost.Fits, hx] at hfits
    obtain ⟨hown, hcalled, hopen, hbuf, hlen, hrep, hbadge, hlabel⟩ := hfits
    have hltx := h.bounded x (by rw [hx]; decide)
    rw [hafter _ hfind, if_pos hdone, observe_eq_nil fun y _ => ?_]
    · refine h.delivered hfresh ⟨rfl, rfl, lt_succ_self _⟩ rfl rfl (by rw [hown]) (fun _ _ => rfl)
        (fun y hy => update_of_ne hy _ _)
        ⟨mem_cons_of_mem _ hcalled, hopen, lt_succ_of_lt (h.below _ hcalled)⟩
        ⟨mem_cons_self .., hunused, lt_succ_self _⟩ ?_ hqueues hmoves ?_ ?_ ?_ ?_ hdone.1
      all_goals try rw [hown]
      · refine Receipt.matches_copy ?_ ?_ ?_ (hlabel ▸ haccepts) ?_ rfl (hbuf ▸ hlen ▸ hmemory)
        all_goals rw [receipt, hctxt]
        · exact congrArg Fin.val ((h.slots x hltx).trans hown.symm)
        · exact hbadge
        · exact hlabel
        · rw [← hbuf, ← hlen]
      · exact hltx
      · exact fun y hyx hyt => hctx y hyt hyx
      · intro _
        rw [hctxx]
        exact ⟨congrArg Fin.val (h.slots t hlt), hrep⟩
      · rw [hctxx]
        exact .inr rfl
    · by_cases hyt : y = t
      · exact .inl (hyt ▸ ht)
      · by_cases hyx : y = x
        · rw [hyx, hctxx]
          exact .inr (by simp)
        · rw [(hctx y hyt hyx).1]
          exact em _
  | @refused next q _ hfind =>
    rw [hafter _ hfind, if_neg (by simp [ipc_refuse]),
      observe_eq_nil_of_ne ht fun x hx => (aside_refuse hother x hx).1]
    refine h.issued hfresh ⟨rfl, rfl, lt_succ_self _⟩ rfl rfl
      (fun x hx => ⟨rfl, update_of_ne hx _ _⟩)
      hqueues hmoves hlt (aside_refuse hother) fun hne => absurd ?_ hne
    rw [ipc_refuse, if_pos rfl]
  | @queued next next' q q' _ hfind =>
    rw [hafter _ hfind, if_neg (by simp [ipc_parked, Side.state]),
      observe_eq_nil_of_ne ht fun x hx => (aside_parked hother x hx).1]
    refine h.issued hfresh ⟨rfl, rfl, lt_succ_self _⟩ rfl rfl
      (fun x hx => ⟨rfl, update_of_ne hx _ _⟩)
      hqueues hmoves hlt (aside_parked hother) fun _ => ?_
    rw [ipc_parked, if_pos rfl, ipc_setQueue, id, hself]
    simp only [Ghost.Fits, update_self]
    exact ⟨trivial, mem_cons_self .., forall_mem_cons.mpr
      ⟨(Option.some_ne_none _).symm, hunused⟩, trivial, trivial, trivial⟩

/-- **A reply keeps the history justified.** -/
theorem replyTo (h : Tracks k g) {r x : Fin N} (hr : (r : Nat) < k.sched.taskCount)
    (hx : (k.ipc x).state = .replyBlocked)
    (hid : (k.ipc x).receiverId = (k.sched.tasks r).id) (msg : Option Buffer) (len : Nat) :
    Tracks (k.replyTo r x msg len) (g.afterReply k (k.replyTo r x msg len) r x) := by
  obtain ⟨L, hL⟩ := h.queues
  set k' := k.replyTo r x msg len with hk'
  have hmoves : k.Moves k' := (Calls.replyTo k r x msg len).moves
  have hctx : ∀ y, y ≠ x → k'.ipc y = k.ipc y := fun y hy => by
    rw [ipc_replyTo, if_neg hy]
  have hfits := h.fits x
  simp only [Ghost.Fits, hx] at hfits
  obtain ⟨hself, ⟨ri, got, hdelivered, hri⟩, honly, hbuf⟩ := hfits
  have hreceiver : ri.receiver = r := by
    apply Fin.ext
    rw [hri, hid, h.slots r hr]
  have hmemory : k'.memory = (k.copyMessage (k.ipc x).replyBuf msg
      (copyLen len (k.ipc x).maxLen)).1.memory := by simp [hk', Kernel.replyTo]
  have hobserve : g.observe k k' (some x) = [] := by
    refine observe_eq_nil fun y hy => ?_
    rw [hctx y fun hyx => hy (hyx ▸ rfl)]
    exact em _
  unfold afterReply
  rw [hobserve]
  refine h.extend (fun y => y = x) [.replied (g.calls x) r k.memory k'.memory] rfl
    (h.slots.moves hmoves) ⟨L, hL.replyTo hx r msg len⟩ hmoves.fixed.1.ge
    ⟨⟨⟨ri, got, hdelivered, hreceiver⟩, honly, fun b hb => ?_⟩, h.history⟩ le_rfl
    (forall_mem_singleton.mpr ⟨(h.below _ hdelivered).1, fun c hc => some.inj hc ▸ hself,
      fun _ hc => absurd hc.symm (Option.some_ne_none _)⟩)
    (fun y hy => ?_) fun y hy hne => ?_
  · rw [← hbuf]
    exact copyMessage_frame hb
  · rw [hctx y hy]
    exact ⟨rfl, rfl, rfl, rfl⟩
  · refine absurd ?_ hne
    rw [hy, ipc_replyTo, if_pos rfl]

theorem stay (h : Tracks k g) (new : List (Event N))
    (hnew : ∀ ev ∈ new, ev = .rejected k.memory k.memory) :
    Tracks k { g with log := new ++ g.log } := by
  refine h.extend (fun _ => False) new rfl h.slots h.queues le_rfl ?_ le_rfl (fun ev hev => ?_)
    (fun _ _ => ⟨rfl, rfl, rfl, rfl⟩) fun _ hx => hx.elim
  · induction new with
    | nil => exact h.history
    | cons ev new ih =>
      refine ⟨?_, ih fun ev hev => hnew ev (mem_cons_of_mem _ hev)⟩
      rw [hnew ev (mem_cons_self ..)]
      exact rfl
  · rw [hnew ev hev]
    exact ⟨trivial, nofun, nofun⟩

theorem observe_self (g : Ghost N) (k : Kernel N) (skip : Option (Fin N)) :
    g.observe k k skip = [] :=
  observe_eq_nil fun _ _ => em _

theorem background (h : Tracks k g) (hb : Background k k') : Tracks k' g := by
  obtain ⟨L, hL⟩ := h.queues
  refine h.extend (fun x => (k.ipc x).state = .ready) [] rfl hb.slots ⟨L, hb.queueInv hL⟩
    hb.count h.history le_rfl (by simp) (fun x hx => ?_)
    fun x hx hne => absurd (hb.idle x hx) hne
  obtain ⟨v, b, hctx⟩ := hb.waiting x hx
  rw [hctx]
  exact ⟨rfl, rfl, rfl, rfl⟩

/-- **Every step keeps the history justified.** -/
theorem step [NeZero N] {s s' : Kernel N × Ghost N} (h : Tracks s.1 s.2) (hs : MessageStep s s') :
    Tracks s'.1 s'.2 := by
  obtain ⟨k, g⟩ := s
  obtain ⟨k', g'⟩ := s'
  rcases hs with ⟨op, hop, hexec, hg⟩ | ⟨hb, hg⟩
  · dsimp only at h hop hexec hg ⊢
    subst hg
    cases op with
    | call e t =>
      obtain ⟨⟨k₁, st⟩, hk₁, rfl⟩ := map_eq_some_iff.mp hexec
      cases t with
      | none =>
        cases hk₁
        simp only [Ghost.after, observe_self]
        exact h
      | some t =>
        obtain ⟨hlt, ht⟩ := hop t rfl
        exact h.call hlt ht hk₁
    | receive e t =>
      obtain ⟨⟨k₁, st⟩, hk₁, rfl⟩ := map_eq_some_iff.mp hexec
      cases t with
      | none =>
        cases hk₁
        simp only [Ghost.after, observe_self]
        exact h
      | some t =>
        obtain ⟨hlt, ht⟩ := hop t rfl
        exact h.receive hlt ht hk₁
    | reply t id msg len =>
      have hk₁ := some.inj hexec
      cases t with
      | none =>
        cases hk₁
        simp only [Ghost.after, Kernel.reply, observe_self]
        exact h
      | some t =>
        rcases k.reply_cases (some t) id msg len with
          ⟨st, hst, heq⟩ | ⟨r, x, hr, hid, hx, hrid, heq⟩
        · subst hk₁
          simp only [Ghost.after, heq, observe_self]
          cases k.getTaskById id with
          | none => exact h.stay [_] (by simp)
          | some x =>
            cases st with
            | ok => exact absurd rfl hst
            | _ => exact h.stay [_] (by simp)
        · cases hr
          subst hk₁
          simp only [Ghost.after, heq, hid]
          exact h.replyTo (hop t rfl).1 hx hrid msg len
    | cancelWaiter e t reason =>
      obtain ⟨L, hL⟩ := h.queues
      obtain ⟨L', hinv, hrel⟩ :=
        Run.of_exists (hL.cancelWaiter (fun _ _ => hL.endpoint_eq hop.1) reason) hexec
      exact h.releases hrel hop.2 hinv (Calls.cancelWaiter hexec).moves
    | cancelAll e reason =>
      obtain ⟨L, hL⟩ := h.queues
      obtain ⟨hinv, hrel⟩ := Run.of_exists (hL.cancelAll e reason) hexec
      exact h.releases hrel hop hinv (Calls.cancelAll hexec).moves
    | tickUpdate =>
      obtain ⟨L, hL⟩ := h.queues
      obtain ⟨L', hinv, hrel⟩ := hL.forTasks tickTask_cases hexec
      exact h.releases hrel (by decide) hinv (Calls.tickUpdate hexec).moves
    | compensateTicks n =>
      obtain ⟨L, hL⟩ := h.queues
      obtain ⟨L', hinv, hrel⟩ := hL.forTasks compensateTask_cases hexec
      exact h.releases hrel (by decide) hinv (Calls.compensateTicks hexec).moves
    | _ => exact hop.elim
  · subst hg
    exact h.background hb

theorem of_quiet (h : Quiet k g) : Tracks k g where
  slots := h.slots
  queues := ⟨fun _ _ => [], .empty h.idle h.queues⟩
  bounded t ht := absurd (h.idle t) ht
  history := by
    rw [h.log]
    trivial
  below ev hev := by
    rw [h.log] at hev
    cases hev
  fits t := by
    unfold Ghost.Fits
    rw [h.idle t]
    trivial

end Tracks

/-! ## Once and only once -/

theorem mem_deliveries {log : List (Event N)} {c : CallInfo N} {r : ReceiveInfo N} :
    (c, r) ∈ deliveries log ↔ ∃ got, .delivered c r got ∈ log := by
  unfold deliveries
  rw [mem_filterMap]
  constructor
  · rintro ⟨ev, hev, heq⟩
    cases ev <;> simp only [reduceCtorEq] at heq
    obtain ⟨rfl, rfl⟩ := heq
    exact ⟨_, hev⟩
  · rintro ⟨got, hev⟩
    exact ⟨_, hev, rfl⟩

namespace History

variable {log : List (Event N)}

/-- In a justified history no call and no receive is in two deliveries. -/
theorem nodup (h : History log) :
    ((deliveries log).map Prod.fst).Nodup ∧ ((deliveries log).map Prod.snd).Nodup := by
  induction log with
  | nil => exact ⟨nodup_nil, nodup_nil⟩
  | cons ev log ih =>
    obtain ⟨hcalls, hreceives⟩ := ih h.2
    cases ev with
    | delivered =>
      obtain ⟨-, -, hcall, hreceive, -⟩ := h.1
      refine ⟨nodup_cons.mpr ⟨fun hmem => ?_, hcalls⟩,
        nodup_cons.mpr ⟨fun hmem => ?_, hreceives⟩⟩
      · obtain ⟨⟨c', r'⟩, hd, rfl⟩ := mem_map.mp hmem
        obtain ⟨got', hd⟩ := mem_deliveries.mp hd
        exact hcall _ hd rfl
      · obtain ⟨⟨c', r'⟩, hd, rfl⟩ := mem_map.mp hmem
        obtain ⟨got', hd⟩ := mem_deliveries.mp hd
        exact hreceive _ hd rfl
    | _ => exact ⟨hcalls, hreceives⟩

/-- Every completed receive got the message of one call. -/
theorem existsUnique_delivery (h : History log) {r : ReceiveInfo N} (hr : .received r ∈ log) :
    ∃! c, (c, r) ∈ deliveries log := by
  have hsome : ∃ c got, .delivered c r got ∈ log := by
    induction log with
    | nil => cases hr
    | cons ev log ih =>
      have hlast : ∃ c got, .delivered c r got ∈ log := by
        rcases mem_cons.mp hr with rfl | hr
        · exact h.1.1
        · exact ih h.2 hr
      obtain ⟨c, got, hd⟩ := hlast
      exact ⟨c, got, mem_cons_of_mem _ hd⟩
  obtain ⟨c, got, hd⟩ := hsome
  refine ⟨c, mem_deliveries.mpr ⟨got, hd⟩, fun c' hc' => ?_⟩
  have hpair := inj_on_of_nodup_map h.nodup.2 hc' (mem_deliveries.mpr ⟨got, hd⟩) rfl
  exact congrArg Prod.fst hpair

end History

/-- **Every message is delivered once, as it was sent, and only its receiver replies to it**, in
every run of calls, receives, replies, timeouts and cancellations. -/
theorem messages_delivered_once [NeZero N] {k₀ k : Kernel N} {g₀ g : Ghost N} (h : Quiet k₀ g₀)
    (hrun : Relation.ReflTransGen MessageStep (k₀, g₀) (k, g)) :
    History g.log ∧
      ((deliveries g.log).map Prod.fst).Nodup ∧ ((deliveries g.log).map Prod.snd).Nodup ∧
      ∀ r, .received r ∈ g.log → ∃! c, (c, r) ∈ deliveries g.log := by
  have htracks := Run.steps_invariant (P := fun s => Tracks s.1 s.2) (Tracks.of_quiet h)
    (fun _ _ => Tracks.step) hrun
  have hhistory := htracks.history
  exact ⟨hhistory, hhistory.nodup.1, hhistory.nodup.2, fun r hr =>
    hhistory.existsUnique_delivery hr⟩

/-! ## A run by example -/

instance (k : Kernel N) : DecidablePred (Op.IsMessageStep k) := by
  intro op
  induction op using Op.casesOn <;> dsimp only [Op.IsMessageStep] <;> infer_instance

/-- Nothing has been sent. -/
def Ghost.empty (N : Nat) : Ghost N where
  next := 0
  calls t := ⟨0, t, none, 0, none, 0, 0⟩
  receives t := ⟨0, t, none, 0, 0⟩
  log := []

theorem MessageStep.of_exec [NeZero N] {k k' : Kernel N} {op : Op N} (g : Ghost N)
    (hop : op.IsMessageStep k) (hexec : op.exec (fun _ _ => none) k = some k') :
    MessageStep (k, g) (k', g.after k k' op) := .inl ⟨op, hop, hexec, rfl⟩

/-- A call, its message as long as a header. -/
def ping : Op 2 := .call 0 (some 1) (some 0) 8 (some 1) 8 ipcTimeoutInfinite 5

/-- The receive that gets it. -/
def pong : Op 2 := .receive 0 (some 0) (some 2) 8 ipcNonblock 0

def pinged : Kernel 2 := (ping.exec (fun _ _ => none) twoTasks).get (by decide)

def ponged : Kernel 2 := (pong.exec (fun _ _ => none) pinged).get (by decide)

theorem messages_delivered_once_ping :
    let g := ((empty 2).after twoTasks pinged ping).after pinged ponged pong
    (deliveries g.log).length = 1 ∧ History g.log := by
  have hquiet : Quiet twoTasks (empty 2) :=
    ⟨by decide, by decide, fun _ side => by cases side <;> rfl, rfl⟩
  have hping : ping.exec (fun _ _ => none) twoTasks = some pinged := (some_get _).symm
  have hpong : pong.exec (fun _ _ => none) pinged = some ponged := (some_get _).symm
  have hcall := MessageStep.of_exec (empty 2) (by decide) hping
  have hreceive := MessageStep.of_exec ((empty 2).after twoTasks pinged ping) (by decide) hpong
  exact ⟨by decide +kernel,
    (messages_delivered_once hquiet (.tail (.single hcall) hreceive)).1⟩

end AuroraOS
