import AuroraOS.Lib.Transducer
import AuroraOS.Schedule

/-!
# The signals of a task

The part of a task that signals use, with `send_signal`, changes of the mask and of the handlers,
and `dispatch_signals`. A handler may send signals to its own task; its mask counts only while it
runs. The dispatch is the one of `Kernel.dispatchPending` (`dispatchPending_security`), with a list
of the signals that were handled.

`send_signal` takes signals up to 31 but the loop of `dispatch_signals` ends with 15, so that a
masked signal above is lost as soon as another one is dispatched: `masked_signal_lost`. Nothing else
is: `signals_arrive`.
-/

namespace AuroraOS

open Bitmap Transducer List SecurityContext

namespace SecurityContext

/-- The signals that handlers send to their own task. -/
abbrev Raises := SignalHandler → Nat → BitVec 32

variable (raise : Raises) (c : SecurityContext)

def callHandler (sig : Nat) (h : SignalHandler) : SecurityContext :=
  let c := { c with pendingSignals := c.pendingSignals ||| raise h sig }
  if (c.sigActions sig).saFlags.getLsbD saResetHand then c.clearHandler sig else c

/-- The loop of `dispatch_signals`: the signals that are handled, and what becomes of the task. -/
def deliver (pending : BitVec 32) : List Nat → SecurityContext → List Nat × SecurityContext × Bool
  | [], c => ([], c, false)
  | sig :: sigs, c =>
    if pending.getLsbD sig then
      if sig ≠ sigKill ∧ c.signalMask.getLsbD sig then
        deliver pending sigs { c with pendingSignals := setBit c.pendingSignals sig }
      else if sig = sigKill then ([], c, true)
      else
        match (c.sigActions sig).saHandler with
        | none => deliver pending sigs c
        | some h =>
          let r := deliver pending sigs (c.callHandler raise sig h)
          (sig :: r.1, r.2)
    else deliver pending sigs c

/-- The signals that `dispatch_signals` starts for. -/
def actionable : BitVec 32 :=
  (c.pendingSignals &&& ~~~c.signalMask) ||| (c.pendingSignals &&& (1#32 <<< sigKill))

/-- `dispatch_signals`. -/
def dispatch : List Nat × SecurityContext × Bool :=
  if c.pendingSignals = 0#32 ∨ c.actionable = 0#32 then ([], c, false)
  else deliver raise c.pendingSignals (List.range' 1 (numSigActions - 1))
    { c with pendingSignals := 0#32 }

end SecurityContext

/-- **The dispatch of the kernel**, if handlers do no more to the signals of the task. -/
theorem Kernel.dispatchPending_security {N : Nat}
    {run : SignalHandler → Nat → Kernel N → Option (Kernel N)} {raise : SecurityContext.Raises}
    {i : Fin N}
    (hrun : ∀ h sig k k', run h sig k = some k' → k'.security i =
      { k.security i with pendingSignals := (k.security i).pendingSignals ||| raise h sig })
    {k k' : Kernel N} {killed : Bool} (h : k.dispatchPending run i = some (k', killed)) :
    ((k.security i).dispatch raise).2 = (k'.security i, killed) := by
  have hself : ∀ (k : Kernel N) f, (k.modifySecurity i f).security i = f (k.security i) := by
    simp [modifySecurity]
  have hloop : ∀ (pending : BitVec 32) (sigs : List Nat) (k : Kernel N),
      dispatchLoop run i pending sigs k = some (k', killed) →
      (deliver raise pending sigs (k.security i)).2 = (k'.security i, killed) := by
    intro pending sigs
    induction sigs with
    | nil =>
      rintro k ⟨⟩
      rfl
    | cons sig sigs ih =>
      intro k h
      unfold dispatchLoop at h
      unfold deliver
      split_ifs at h ⊢
      · rw [← ih _ h, hself]
      · cases h
        rfl
      · cases hact : ((k.security i).sigActions sig).saHandler with
        | none =>
          rw [hact] at h
          exact ih k h
        | some a =>
          simp only [hact, callHandler, Option.bind_eq_bind, Option.bind_eq_some_iff] at h
          obtain ⟨k₁, ⟨k₂, hcall, hk₁⟩, h⟩ := h
          have hsec := hrun _ _ _ _ hcall
          rw [hself] at hsec
          have hk : k₁.security i = (k.security i).callHandler raise sig a := by
            cases hk₁
            rw [hself, SecurityContext.callHandler]
            by_cases hreset : ((k.security i).sigActions sig).saFlags.getLsbD saResetHand
            · rw [if_pos (by rw [hsec]; exact hreset), if_pos hreset, hself, hsec]
              rfl
            · rw [if_neg (by rw [hsec]; exact hreset), if_neg hreset, hsec]
          have := ih k₁ h
          rw [hk] at this
          exact this
      · exact ih k h
  unfold dispatchPending at h
  unfold dispatch actionable
  dsimp only at h
  split_ifs at h ⊢
  · cases h
    rfl
  · have := hloop _ _ _ h
    rwa [hself] at this

/-! ## Runs -/

inductive SignalOp
  | send (sig : Nat)
  | sigprocmask (mask : BitVec 32)
  | sigaction (sig : Nat) (action : SignalAction)
  | dispatch
  deriving DecidableEq

namespace SecurityContext

variable {raise : Raises} {c : SecurityContext} {sig : Nat}

/-- A step of a run, with the signals that it hands to their handlers. -/
def step (raise : Raises) (c : SecurityContext) : SignalOp → List Nat × SecurityContext
  | .send sig =>
    ([], if sig = 0 ∨ 32 ≤ sig then c else { c with pendingSignals := setBit c.pendingSignals sig })
  | .sigprocmask mask => ([], { c with signalMask := mask })
  | .sigaction sig action => ([], { c with sigActions := Function.update c.sigActions sig action })
  | .dispatch => ((c.dispatch raise).1, (c.dispatch raise).2.1)

def Pending (c : SecurityContext) (sig : Nat) : Prop := c.pendingSignals.getLsbD sig
  deriving Decidable

def Masked (c : SecurityContext) (sig : Nat) : Prop := c.signalMask.getLsbD sig
  deriving Decidable

/-- There are handlers for the signals that have an entry in `sig_actions`. -/
def Handled (c : SecurityContext) (sig : Nat) : Prop :=
  sig < numSigActions ∧ (c.sigActions sig).saHandler.isSome
  deriving Decidable

/-- A dispatch does not kill the task, and finds none of the signals from 16 on masked unless it has
nothing to do. -/
def Safe (c : SecurityContext) (op : SignalOp) : Prop :=
  op = .dispatch → ¬c.Pending sigKill ∧
    (c.actionable = 0#32 ∨ ∀ sig < 32, numSigActions ≤ sig → c.Pending sig → ¬c.Masked sig)

instance decidableSafe (c : SecurityContext) (op : SignalOp) : Decidable (c.Safe op) :=
  inferInstanceAs (Decidable (_ → _))

theorem callHandler_eq (raise : Raises) (c : SecurityContext) (sig : Nat) (h : SignalHandler) :
    (c.callHandler raise sig h).signalMask = c.signalMask ∧
      (c.callHandler raise sig h).pendingSignals = c.pendingSignals ||| raise h sig ∧
      ∀ s ≠ sig, (c.callHandler raise sig h).sigActions s = c.sigActions s := by
  unfold callHandler
  dsimp only
  split_ifs <;> simp +contextual [clearHandler, Function.update_of_ne]

/-- One of the handlers that were called has sent the signal. -/
def RaisedBy (raise : Raises) (c : SecurityContext) (handled : List Nat) (sig : Nat) : Prop :=
  ∃ s ∈ handled, ∃ h ∈ (c.sigActions s).saHandler, (raise h s).getLsbD sig

/-- **The loop.** -/
theorem deliver_spec {pending : BitVec 32} (hkill : pending.getLsbD sigKill = false)
    {sigs : List Nat} (hsigs : sigs.Nodup) (hlt : ∀ s ∈ sigs, s < 32) (c : SecurityContext)
    (s : Nat) :
    let r := deliver raise pending sigs c
    r.1.count s = (if s ∈ sigs ∧ pending.getLsbD s ∧ ¬c.Masked s ∧
        (c.sigActions s).saHandler.isSome then 1 else 0) ∧
      (r.2.1.Pending s ↔ c.Pending s ∨ (s ∈ sigs ∧ pending.getLsbD s ∧ c.Masked s) ∨
        c.RaisedBy raise r.1 s) := by
  induction sigs generalizing c s with
  | nil => simp [deliver, RaisedBy]
  | cons sig sigs ih =>
    obtain ⟨hsig, hsigs⟩ := nodup_cons.1 hsigs
    have ih := ih hsigs fun s hs => hlt s (mem_cons_of_mem _ hs)
    have hkill' : pending.getLsbD sig → sig ≠ sigKill := by
      rintro hp rfl
      simp [hkill] at hp
    unfold deliver
    by_cases hp : pending.getLsbD sig
    swap
    · have hskip : s ∈ sig :: sigs ∧ pending.getLsbD s ↔ s ∈ sigs ∧ pending.getLsbD s := by
        by_cases hs : s = sig <;> simp [hs, hp]
      simpa only [if_neg hp, ← and_assoc, hskip] using ih c s
    rw [if_pos hp]
    by_cases hmask : c.signalMask.getLsbD sig
    · rw [if_pos ⟨hkill' hp, hmask⟩]
      obtain ⟨hcount, hpending⟩ := ih { c with pendingSignals := setBit c.pendingSignals sig } s
      have hset := getLsbD_setBit c.pendingSignals (hlt sig (by simp)) s
      refine ⟨hcount.trans (if_congr ?_ rfl rfl), hpending.trans ?_⟩
      · by_cases hs : s = sig <;> simp [hs, hsig, Masked, hmask]
      · rcases eq_or_ne s sig with rfl | hs
        · simp [Pending, hset, hp, Masked, hmask]
        · simp [RaisedBy, Pending, hset, hs, Masked]
    · rw [if_neg fun h => hmask h.2, if_neg (hkill' hp)]
      split
      · next hnone =>
        obtain ⟨hcount, hpending⟩ := ih c s
        refine ⟨hcount.trans (if_congr ?_ rfl rfl), hpending.trans ?_⟩
        · by_cases hs : s = sig <;> simp [hs, hsig, hnone]
        · by_cases hs : s = sig <;> simp [hs, Masked, hmask]
      · next h hsome =>
        obtain ⟨hcount, hpending⟩ := ih (c.callHandler raise sig h) s
        obtain ⟨hm, hpend, hact⟩ := callHandler_eq raise c sig h
        have hlater := (ih (c.callHandler raise sig h) sig).1
        rw [if_neg fun h => hsig h.1, count_eq_zero] at hlater
        -- the handlers of later signals are still the ones from before the call
        have hraised : c.RaisedBy raise
          (sig :: (deliver raise pending sigs (c.callHandler raise sig h)).1) s ↔
            (raise h sig).getLsbD s ∨ (c.callHandler raise sig h).RaisedBy raise
              (deliver raise pending sigs (c.callHandler raise sig h)).1 s := by
          simp only [RaisedBy, mem_cons, exists_eq_or_imp, hsome, Option.mem_some_iff,
            exists_eq_left']
          refine or_congr_right (exists_congr fun a => and_congr_right fun ha => ?_)
          rw [hact a (ne_of_mem_of_not_mem ha hlater)]
        refine ⟨?_, hpending.trans ?_⟩
        · rw [count_cons, hcount]
          by_cases hs : s = sig
          · simp [hs, hsig, hp, Masked, hmask, hsome]
          · simp [hs, Ne.symm hs, Masked, hm, hact s hs]
        · rw [hraised]
          by_cases hs : s = sig <;> simp [Pending, hpend, hs, hsig, Masked, hm, hmask,
            or_assoc, or_left_comm]

/-- **A dispatch** hands over the signals that are not masked, keeps the masked ones, and leaves no
other pending but what handlers have sent. -/
theorem dispatch_spec (raise : Raises) (hsafe : c.Safe .dispatch) (hpos : 0 < sig) :
    (c.dispatch raise).1.count sig = (if c.Pending sig ∧ ¬c.Masked sig ∧
      c.Handled sig then 1 else 0) ∧
      ((c.dispatch raise).2.1.Pending sig ↔
        c.Pending sig ∧ c.Masked sig ∨ c.RaisedBy raise (c.dispatch raise).1 sig) := by
  obtain ⟨hkill, hfew⟩ := hsafe rfl
  unfold dispatch
  by_cases hnone : c.pendingSignals = 0#32 ∨ c.actionable = 0#32
  · rw [if_pos hnone]
    -- nothing is pending but what is masked
    have hmasked : c.Pending sig → c.Masked sig := by
      intro hp
      have hlt : sig < 32 := BitVec.lt_of_getLsbD hp
      by_contra hm
      have hbit : (c.pendingSignals &&& ~~~c.signalMask).getLsbD sig = true := by
        simpa [Pending, Masked, hlt] using And.intro hp hm
      rcases hnone with hzero | hzero
      · simp [hzero] at hbit
      · have := congrArg (·.getLsbD sig) hzero
        simp [actionable, hbit] at this
    constructor
    · rw [if_neg fun h => h.2.1 (hmasked h.1)]
      rfl
    · simpa [RaisedBy] using hmasked
  · rw [if_neg hnone]
    have hfew := hfew.resolve_left fun h => hnone (.inr h)
    have hlist : ∀ s ∈ range' 1 (numSigActions - 1), s < 32 := by decide
    have hspec := @deliver_spec raise c.pendingSignals (by simpa [Pending] using hkill) _
      nodup_range' hlist
      { c with pendingSignals := 0#32 } sig
    have hmem : sig ∈ range' 1 (numSigActions - 1) ↔ sig < numSigActions := by
      simp only [mem_range'_1]
      omega
    have hsmall : c.Pending sig → c.Masked sig → sig < numSigActions := fun hp hm => by
      by_contra hge
      exact hfew sig (BitVec.lt_of_getLsbD hp) (Nat.not_lt.1 hge) hp hm
    refine ⟨hspec.1.trans (if_congr ?_ rfl rfl), hspec.2.trans ?_⟩
    · rw [hmem]
      exact ⟨fun h => ⟨h.2.1, h.2.2.1, h.1, h.2.2.2⟩, fun h => ⟨h.2.2.1, h.1, h.2.1, h.2.2.2⟩⟩
    · have hkept : c.Pending sig ∧ c.Masked sig ↔
          sig ∈ range' 1 (numSigActions - 1) ∧ c.Pending sig ∧ c.Masked sig := by
        rw [hmem]
        exact ⟨fun h => ⟨hsmall h.1 h.2, h⟩, And.right⟩
      rw [hkept]
      simp [Pending, Masked, RaisedBy]

/-- A step raises a signal: it is sent, or a handler that is called sends it. -/
def RaisedIn (raise : Raises) (sig : Nat) (c : SecurityContext) (op : SignalOp) : Prop :=
  op = .send sig ∨ op = .dispatch ∧ c.RaisedBy raise (c.dispatch raise).1 sig

/-- **A step** hands a signal over if it dispatches it, and leaves it pending if it does not; a
signal that is not pending becomes so only by being raised. -/
theorem step_spec (raise : Raises) {op : SignalOp} (hsafe : c.Safe op) (hpos : 0 < sig)
    (hlt : sig < 32) :
    (sig ∈ (c.step raise op).1 → op = .dispatch ∧ c.Pending sig ∧ ¬c.Masked sig) ∧
      ((c.step raise op).2.Pending sig ↔
        c.Pending sig ∧ (op = .dispatch → c.Masked sig) ∨ c.RaisedIn raise sig op) := by
  cases op with
  | send s =>
    refine ⟨fun h => absurd h not_mem_nil, ?_⟩
    simp only [step, RaisedIn]
    split_ifs with hbad
    · have hne : s ≠ sig := by omega
      simp [hne]
    · rw [Pending, getLsbD_setBit c.pendingSignals (show s < 32 by omega)]
      simp [Pending, or_comm, eq_comm (a := sig)]
  | sigprocmask mask => simp [step, RaisedIn, Pending]
  | sigaction => simp [step, RaisedIn, Pending]
  | dispatch =>
    obtain ⟨hcount, hpending⟩ := dispatch_spec raise hsafe hpos
    refine ⟨fun h => ⟨rfl, ?_⟩, hpending.trans (by simp [RaisedIn])⟩
    by_contra hnot
    rw [if_neg fun h => hnot ⟨h.1, h.2.1⟩, count_eq_zero] at hcount
    exact hcount h

/-- **Signals arrive, and arrive once.** A signal that is pending stays pending, and is not handed
over, as long as every dispatch finds it masked. The first dispatch that does not find it masked
calls its handler once; from then on it is neither pending nor handed over until it is raised
again. -/
theorem signals_arrive (raise : Raises) (c : SecurityContext) (ops : List SignalOp)
    (hsafe : Always (step raise) Safe c ops) (pre mid post : List SignalOp)
    (hops : ops = pre ++ (mid ++ .dispatch :: post)) (sig : Nat) (hpos : 0 < sig)
    (hp : (final (step raise) c pre).Pending sig)
    (hmask : Always (step raise) (fun c op => op = .dispatch → c.Masked sig)
      (final (step raise) c pre) mid) :
    let c' := final (step raise) c (pre ++ mid)
    sig ∉ emitted (step raise) (final (step raise) c pre) mid ∧ c'.Pending sig ∧
      (c'.Masked sig → sig ∉ (c'.step raise .dispatch).1 ∧
        (c'.step raise .dispatch).2.Pending sig) ∧
      (¬c'.Masked sig → c'.Handled sig → (c'.step raise .dispatch).1.count sig = 1 ∧
        (Always (step raise) (fun c op => ¬c.RaisedIn raise sig op) c' (.dispatch :: post) →
          sig ∉ emitted (step raise) (c'.step raise .dispatch).2 post ∧
            ¬(final (step raise) c' (.dispatch :: post)).Pending sig)) := by
  have hlt : sig < 32 := BitVec.lt_of_getLsbD hp
  have hkeep : ∀ {c : SecurityContext} {op : SignalOp}, c.Pending sig →
      c.Safe op ∧ (op = .dispatch → c.Masked sig) →
      sig ∉ (c.step raise op).1 ∧ (c.step raise op).2.Pending sig := by
    intro c op hp ⟨hsafe, hm⟩
    obtain ⟨hmem, hpending⟩ := step_spec raise hsafe hpos hlt
    exact ⟨fun h => (hmem h).2.2 (hm (hmem h).1), hpending.2 (.inl ⟨hp, hm⟩)⟩
  rw [hops, always_append, always_append] at hsafe
  obtain ⟨hnot, hp'⟩ := emitted_keeps (I := (·.Pending sig)) (fun _ _ => hkeep) hp
    (hsafe.2.1.and hmask)
  rw [final_append]
  refine ⟨hnot, hp', fun hm => hkeep hp' ⟨hsafe.2.2.1, fun _ => hm⟩, fun hm hh => ?_⟩
  obtain ⟨hcount, hpending⟩ := dispatch_spec raise hsafe.2.2.1 hpos
  refine ⟨hcount.trans (if_pos ⟨hp', hm, hh⟩), fun hraised => ?_⟩
  -- from the dispatch on it is not pending
  refine emitted_keeps (I := fun c => ¬c.Pending sig) (fun c op hp h => ?_) (fun h => ?_)
    (hsafe.2.2.2.and hraised.2)
  · obtain ⟨hmem, hpending⟩ := step_spec raise h.1 hpos hlt
    exact ⟨fun hin => hp (hmem hin).2.1, fun h' => (hpending.1 h').elim (fun h => hp h.1) h.2⟩
  · exact (hpending.1 h).elim (fun h => hm h.2) fun h => hraised.1 (.inr ⟨rfl, h⟩)

/-- A task without handlers. -/
def fresh : SecurityContext := ⟨0#32, 0#32, fun _ => ⟨none, 0#32, 0#32⟩⟩

/-- Signal 10 is sent while it is masked, is handled once it no longer is, and not a second time. -/
theorem signals_arrive_ten :
    let c := final (step fun _ _ => 0#32) fresh [.sigaction 10 ⟨some 7, 0#32, 0#32⟩,
      .sigprocmask 0x400#32,
      .send 10, .send 14, .dispatch, .sigprocmask 0#32]
    (c.step (fun _ _ => 0#32) .dispatch).1.count 10 = 1 ∧
      10 ∉ emitted (step fun _ _ => 0#32) (c.step (fun _ _ => 0#32) .dispatch).2
      [.send 12, .dispatch] := by
  have hquiet : ∀ c op, ¬SecurityContext.RaisedBy (fun _ _ => 0#32) c op 10 := by simp [RaisedBy]
  have h := (signals_arrive (fun _ _ => 0#32) fresh
    [.sigaction 10 ⟨some 7, 0#32, 0#32⟩, .sigprocmask 0x400#32, .send 10, .send 14, .dispatch,
      .sigprocmask 0#32, .dispatch, .send 12, .dispatch] (by decide)
    [.sigaction 10 ⟨some 7, 0#32, 0#32⟩, .sigprocmask 0x400#32, .send 10]
    [.send 14, .dispatch, .sigprocmask 0#32]
    [.send 12, .dispatch] rfl 10 (by decide) (by decide) (by decide)).2.2.2 (by decide) (by decide)
  exact ⟨h.1, (h.2 (by simp [Always, RaisedIn, hquiet])).1⟩

/-- Signal 20 is masked and pending, and is lost when signal 14 is dispatched. -/
theorem masked_signal_lost :
    let c := final (step fun _ _ => 0#32) fresh [.sigprocmask 0x100000#32, .send 20, .send 14]
    c.Pending 20 ∧ c.Masked 20 ∧ ¬(c.step (fun _ _ => 0#32) .dispatch).2.Pending 20 := by
  decide

end SecurityContext

end AuroraOS
