import AuroraOS.NetService

/-!
# Clients of the network service

Runs of `NetServer::run` with any number of clients. The network stack is a state machine over
sockets, of which it is known that a call changes no socket that it does not name.

The service keeps no record of who has created a socket, it sends the whole of a reply of which it
has filled a part, and it takes what a short message leaves of the last one for a part of the
request. `client_isolated`: a client that sends complete messages and names only sockets that its
own requests have created gets, in the parts that are filled, replies that do not depend on other
clients, and changes no socket of others.
-/

namespace AuroraOS.Net

open ByteMem List

/-- The call names the descriptor. -/
def LwipCall.Names (fd : BitVec 32) : LwipCall → Prop
  | .socket .. => False
  | .connect fd' _ => fd = fd'
  | .bind fd' _ => fd = fd'
  | .send fd' .. => fd = fd'
  | .recv fd' .. => fd = fd'
  | .sendto fd' .. => fd = fd'
  | .recvfrom fd' .. => fd = fd'
  | .fcntl fd' .. => fd = fd'
  | .setsockopt fd' .. => fd = fd'
  | .getsockopt fd' .. => fd = fd'
  | .select _ r w e _ _ => ∃ set, (r = some set ∨ w = some set ∨ e = some set) ∧ fd.toNat ∈ set
  | .close fd' => fd = fd'

/-- The request names the descriptor. -/
def NetRequest.Names (fd : BitVec 32) : NetRequest → Prop
  | .socket .. => False
  | .bind fd' .. => fd = fd'
  | .connect fd' .. => fd = fd'
  | .send fd' .. => fd = fd'
  | .recv fd' .. => fd = fd'
  | .sendto fd' .. => fd = fd'
  | .recvfrom fd' .. => fd = fd'
  | .setsockopt fd' .. => fd = fd'
  | .getsockopt fd' .. => fd = fd'
  | .fcntl fd' .. => fd = fd'
  | .select req => fd.toNat < req.rounds ∧
      (req.hasReadset && req.readset.getLsbD fd.toNat ||
        req.hasWriteset && req.writeset.getLsbD fd.toNat ||
        req.hasExceptset && req.exceptset.getLsbD fd.toNat)
  | .close fd' => fd = fd'
  | .other _ => False

/-- A network stack with sockets in states of type `Socket`. `Input` is what comes from the
network. -/
structure Lwip (Socket Input : Type) where
  exec : Input → (BitVec 32 → Option Socket) → LwipCall → LwipResult × (BitVec 32 → Option Socket)
  frame : ∀ input sockets call fd, ¬ call.Names fd → (sockets fd).isSome →
    (exec input sockets call).2 fd = sockets fd

/-- What `ipc_msg` holds. -/
structure NetMessage where
  msgType : BitVec 32
  req : NetRequest

/-- The sockets, the client whose request has created each of them, and `ipc_msg`. -/
structure NetState (Socket : Type) where
  sockets : BitVec 32 → Option Socket
  creator : BitVec 32 → Option Nat
  ipcMsg : NetMessage

/-- A message that the service receives, with the contents of the storage for the reply and the
input of the stack. `receive` says what `sys_ipc_receive` makes of `ipc_msg`: a short message
overwrites the beginning, and a call that fails nothing. -/
structure NetEvent (Input : Type) where
  client : Nat
  receive : NetMessage → NetMessage
  storage : Mem
  input : Input

/-- The message is a complete one. -/
def NetEvent.Sends {Input : Type} (e : NetEvent Input) (msg : NetMessage) : Prop :=
  ∀ old, e.receive old = msg

/-- A message and what has become of it. -/
structure Served (Socket Input : Type) where
  event : NetEvent Input
  before : NetState Socket
  after : NetState Socket
  call : Option LwipCall
  result : Option LwipResult
  reply : Option Mem

variable {Socket Input : Type} (w : Nat) (L : Lwip Socket Input)

/-- Who has created the sockets after a call. -/
def createdBy (client : Nat) (creator : BitVec 32 → Option Nat) (call : LwipCall) (r : LwipResult) :
    BitVec 32 → Option Nat :=
  match call with
  | .socket .. =>
    if 0 ≤ r.status.toInt then Function.update creator r.status (some client) else creator
  | .close fd => if r.status.toInt = 0 then Function.update creator fd none else creator
  | _ => creator

/-- One round of `run`: requests are the messages of type 2. The length of the message is not looked
at. -/
def serve (s : NetState Socket) (e : NetEvent Input) : Served Socket Input :=
  let msg := e.receive s.ipcMsg
  if msg.msgType = 2 then
    let h := processRequest w (fun call => (L.exec e.input s.sockets call).1) msg.req e.storage
    match h.call with
    | none => ⟨e, s, { s with ipcMsg := msg }, none, none, some h.reply⟩
    | some call =>
      let (r, sockets) := L.exec e.input s.sockets call
      ⟨e, s, ⟨sockets, createdBy e.client s.creator call r, msg⟩, some call, some r, some h.reply⟩
  else ⟨e, s, { s with ipcMsg := msg }, none, none, none⟩

def run (s : NetState Socket) : List (NetEvent Input) → List (Served Socket Input)
  | [] => []
  | e :: events => serve w L s e :: run (serve w L s e).after events

/-- What concerns a client. -/
def ofClient (c : Nat) (served : List (Served Socket Input)) : List (Served Socket Input) :=
  served.filter fun x => x.event.client = c

/-- The message is complete, and if it is a request, it names only sockets that requests of the same
client have created. -/
def Served.Own (x : Served Socket Input) : Prop :=
  ∃ msg, x.event.Sends msg ∧ (msg.msgType = 2 → ∀ fd, msg.req.Names fd →
    x.before.creator fd = some x.event.client)

/-- The request that is served. -/
def Served.req (x : Served Socket Input) : NetRequest := (x.event.receive x.before.ipcMsg).req

/-- The bytes of the union that the handler of a request fills when the stack has answered `r`. -/
def FilledUnion (r : LwipResult) (y : Nat) : NetRequest → Prop
  | .recv .. => 0 < r.status.toInt ∧ 4 ≤ y ∧ y < 8 ∨ 8 ≤ y ∧ y < 8 + r.data.length
  | .recvfrom .. => 0 < r.status.toInt ∧ 4 ≤ y ∧ y < 14 ∨ 14 ≤ y ∧ y < 14 + r.data.length
  | .getsockopt .. => r.status.toInt = 0 ∧ 4 ≤ y ∧ y < 8 ∨ 8 ≤ y ∧ y < 8 + r.data.length
  | .select _ => 0 < r.status.toInt ∧ 4 ≤ y ∧ y < 16
  | _ => False

/-- The bytes of a reply that are filled: the status, and some of the union. -/
def Filled (req : NetRequest) (r : Option LwipResult) (y : Nat) : Prop :=
  y < 4 ∨ ∃ r', r = some r' ∧ FilledUnion r' y req

/-- The same message, answered in the same way by the stack as far as it is about sockets of the
client. -/
structure SameMessage (x y : Served Socket Input) : Prop where
  message : ∀ msg, x.event.Sends msg → y.event.Sends msg
  result : x.Own → y.Own → x.result = y.result

/-- The same reply, as far as it is filled. -/
structure SameReply (x y : Served Socket Input) : Prop where
  sent : x.reply.isSome = y.reply.isSome
  filled : ∀ m m', x.reply = some m → y.reply = some m' → ∀ i, Filled x.req x.result i →
    m i = m' i

/-! ## What a handler fills -/

/-- The memories agree on a set of addresses. -/
def Agree (S : Nat → Prop) (m m' : Mem) : Prop := ∀ y, S y → m y = m' y

theorem Agree.store {S : Nat → Prop} {m m' : Mem} (h : Agree S m m') (a n v : Nat) :
    Agree (fun y => S y ∨ a ≤ y ∧ y < a + n) (store m a n v) (store m' a n v) := by
  intro y hy
  by_cases hin : a ≤ y ∧ y < a + n
  · exact store_apply_inside m m' v hin.1 hin.2
  · rw [store_apply_outside _ _ (by omega), store_apply_outside _ _ (by omega)]
    exact h y (hy.resolve_right hin)

theorem Agree.writeBytes {S : Nat → Prop} {m m' : Mem} (h : Agree S m m') (a : Nat)
    (bytes : List UInt8) :
    Agree (fun y => S y ∨ a ≤ y ∧ y < a + bytes.length) (writeBytes m a bytes)
      (writeBytes m' a bytes) := by
  intro y hy
  unfold Net.writeBytes
  by_cases hle : a ≤ y
  · rw [if_pos hle, if_pos hle]
    by_cases hlt : y - a < bytes.length
    · simp only [getD_eq_getElem?_getD, getElem?_eq_getElem hlt, Option.getD_some]
    · simp only [getD_eq_getElem?_getD, getElem?_eq_none (not_lt.mp hlt)]
      exact h y (hy.resolve_right (by omega))
  · rw [if_neg hle, if_neg hle]
    exact h y (hy.resolve_right (by omega))

theorem Agree.setStatus {S : Nat → Prop} {m m' : Mem} (h : Agree S m m') (status : BitVec 32) :
    Agree (fun y => S y ∨ y < 4) (setStatus m status) (setStatus m' status) := by
  intro y hy
  exact h.store statusOffset 4 status.toNat y
    (hy.imp_right fun hlt => ⟨Nat.zero_le y, by unfold statusOffset; omega⟩)

theorem Agree.mono {S T : Nat → Prop} {m m' : Mem} (h : Agree T m m') (hsub : ∀ y, S y → T y) :
    Agree S m m' := fun y hy => h y (hsub y hy)

theorem Agree.nothing (m m' : Mem) : Agree (fun _ => False) m m' := fun _ hy => hy.elim

variable {w}

section Determined

variable {lwip lwip' : LwipCall → LwipResult} {m m' : Mem} {req : NetRequest}

theorem agree_passOn {S : Nat → Prop} (uses : List Use) {call : LwipCall}
    (hlwip : lwip call = lwip' call) (hS : ∀ y, S y → y < 4) :
    Agree S (passOn lwip uses call m).reply (passOn lwip' uses call m').reply := by
  have hstatus := (Agree.nothing m m').setStatus (lwip call).status
  unfold passOn
  rw [← hlwip]
  exact hstatus.mono fun y hy => .inr (hS y hy)

theorem filled_some {r : LwipResult} {y : Nat} :
    Filled req (some r) y ↔ y < 4 ∨ FilledUnion r y req := by
  simp [Filled]

/-- A reply with the data of the stack at `a`, the status and, if the answer is a good one, what is
stored before the data. -/
theorem agree_data {r r' : LwipResult} {a : Nat} {c : LwipResult → Prop}
    [∀ r, Decidable (c r)] {f : LwipResult → Mem → Mem} (hr : r = r')
    (hf : ∀ {S m m'}, Agree S m m' → Agree (fun y => S y ∨ 4 ≤ y ∧ y < a) (f r m) (f r m'))
    (hreq : ∀ y, FilledUnion r y req → c r ∧ 4 ≤ y ∧ y < a ∨ a ≤ y ∧ y < a + r.data.length) :
    let answer := fun (r : LwipResult) m => setStatus (writeBytes m a r.data) r.status
    Agree (Filled req (some r)) (if c r then f r (answer r m) else answer r m)
      (if c r' then f r' (answer r' m') else answer r' m') := by
  subst hr
  have hdata := ((Agree.nothing m m').writeBytes a r.data).setStatus r.status
  intro answer y hy
  have hy := (filled_some.mp hy).imp_right (hreq y)
  split_ifs with hc
  · exact hf hdata y (by tauto)
  · exact hdata y (by tauto)

theorem handleSelect_call (lwip : LwipCall → LwipResult) (req : SelectReq) (m : Mem) :
    (handleSelect lwip req m).call = some (selectCall req) := by
  unfold handleSelect
  dsimp only
  split_ifs <;> rfl

theorem agree_select {req : SelectReq} (hlwip : lwip (selectCall req) = lwip' (selectCall req)) :
    Agree (Filled (.select req) (some (lwip (selectCall req))))
      (handleSelect lwip req m).reply (handleSelect lwip' req m').reply := by
  unfold handleSelect
  dsimp only
  rw [← hlwip]
  generalize lwip (selectCall req) = r
  have hstatus := (Agree.nothing m m').setStatus r.status
  split_ifs with hpos
  · apply (((hstatus.store 4 4 _).store 8 4 _).store 12 4 _).mono
    intro y hy
    rcases filled_some.mp hy with hy | ⟨_, hy⟩ <;> omega
  · apply hstatus.mono
    intro y hy
    rcases filled_some.mp hy with hy | ⟨hlt, _⟩
    · exact .inr hy
    · exact absurd hlt hpos

/-- The call that a request leads to depends on the request only. -/
theorem call_processRequest (lwip lwip' : LwipCall → LwipResult) (req : NetRequest) (m m' : Mem) :
    (processRequest w lwip req m).call = (processRequest w lwip' req m').call := by
  cases req with
  | select req => exact (handleSelect_call lwip req _).trans (handleSelect_call lwip' req _).symm
  | _ => rfl

theorem mem_fdSet {has : Bool} {mask : BitVec 32} {n i : Nat} :
    i ∈ fdSet has mask n ↔ i < n ∧ (has && mask.getLsbD i) = true := by
  simp [fdSet]

/-- The call names only descriptors that the request names. -/
theorem names_of_call {call : LwipCall} (h : (processRequest w lwip req m).call = some call)
    {fd : BitVec 32} (hfd : call.Names fd) : req.Names fd := by
  cases req with
  | other => cases h
  | select req =>
    rw [show call = selectCall req from
      (Option.some.inj ((handleSelect_call lwip req _).symm.trans h)).symm] at hfd
    obtain ⟨set, hset, hmem⟩ := hfd
    have hin : ∀ {has : Bool} {mask : BitVec 32},
        (if has then some (fdSet has mask req.rounds) else none) = some set →
        fd.toNat < req.rounds ∧ (has && mask.getLsbD fd.toNat) = true := by
      intro has mask heq
      split_ifs at heq
      rw [← mem_fdSet, Option.some.inj heq]
      exact hmem
    rcases hset with hset | hset | hset
    all_goals
      obtain ⟨hlt, hbit⟩ := hin hset
      exact ⟨hlt, by simp [hbit]⟩
  | _ =>
    cases h
    exact hfd

/-- **A reply is determined as far as it is filled**: by the request and by what the stack
answers. -/
theorem agree_processRequest
    (hlwip : ∀ call, (processRequest w lwip req m).call = some call → lwip call = lwip' call) :
    Agree (Filled req ((processRequest w lwip req m).call.map lwip))
      (processRequest w lwip req m).reply (processRequest w lwip' req m').reply := by
  cases req with
  | socket | bind | connect | send | sendto | setsockopt | fcntl | close =>
    exact agree_passOn _ (hlwip _ rfl) fun y hy => (filled_some.mp hy).resolve_right id
  | recv =>
    exact agree_data (c := (·.status.toInt > 0)) (f := fun r m => store m 4 4 r.status.toNat)
      (hlwip _ rfl) (fun h => h.store 4 4 _) fun _ => id
  | recvfrom =>
    refine agree_data (c := (·.status.toInt > 0))
      (f := fun r m => store (store (store m 4 4 r.status.toNat) 12 2
        (lwipHtons r.sender.sinPort).toNat) 8 4 (lwipHtonl r.sender.sinAddr).toNat)
      (hlwip _ rfl) ?_ fun _ => id
    exact fun h => (((h.store 4 4 _).store 12 2 _).store 8 4 _).mono
      fun y hy => by grind [recvfromDataOffset]
  | getsockopt =>
    exact agree_data (c := (·.status.toInt = 0)) (f := fun r m => store m 4 4 r.optlen)
      (hlwip _ rfl) (fun h => h.store 4 4 _) fun _ => id
  | select req =>
    have hcall : (processRequest w lwip (.select req) m).call = some (selectCall req) :=
      handleSelect_call lwip req _
    rw [hcall]
    exact agree_select (hlwip _ hcall)
  | other =>
    apply ((Agree.nothing m m').setStatus (-1)).mono
    intro y hy
    rcases hy with hy | ⟨r', hr', -⟩
    · exact .inr hy
    · cases hr'

end Determined

/-! ## Runs -/

variable {L}

/-- A request is served, by the stack's answer to its call. -/
theorem serve_of_request {s : NetState Socket} {e : NetEvent Input}
    (h : (e.receive s.ipcMsg).msgType = 2) :
    let handled := processRequest w (fun call => (L.exec e.input s.sockets call).1)
      (e.receive s.ipcMsg).req e.storage
    (serve w L s e).call = handled.call ∧
      (serve w L s e).result = handled.call.map (fun call => (L.exec e.input s.sockets call).1) ∧
      (serve w L s e).reply = some handled.reply := by
  unfold serve
  rw [if_pos h]
  dsimp only
  split <;> simp_all

theorem serve_of_ne {s : NetState Socket} {e : NetEvent Input}
    (h : (e.receive s.ipcMsg).msgType ≠ 2) :
    serve w L s e = ⟨e, s, { s with ipcMsg := e.receive s.ipcMsg }, none, none, none⟩ := if_neg h

/-- A round changes no socket that the call of its request does not name. -/
theorem serve_frame {s : NetState Socket} {e : NetEvent Input} {fd : BitVec 32}
    (hcall : ∀ call, (serve w L s e).call = some call → ¬ call.Names fd)
    (hfd : (s.sockets fd).isSome) : (serve w L s e).after.sockets fd = s.sockets fd := by
  unfold serve at hcall ⊢
  dsimp only at hcall ⊢
  split_ifs at hcall ⊢
  · split
    · rfl
    · next call heq =>
      rw [heq] at hcall
      exact L.frame e.input s.sockets call fd (hcall call rfl) hfd
  · rfl

/-- What is in a run is a round, from the state before it. -/
theorem eq_serve_of_mem {s : NetState Socket} {events : List (NetEvent Input)}
    {x : Served Socket Input} (h : x ∈ run w L s events) : x = serve w L x.before x.event := by
  have hself : ∀ s e, (serve w L s e).before = s ∧ (serve w L s e).event = e := by
    intro s e
    unfold serve
    dsimp only
    split_ifs
    · split <;> exact ⟨rfl, rfl⟩
    · exact ⟨rfl, rfl⟩
  induction events generalizing s with
  | nil => cases h
  | cons e events ih =>
    rcases mem_cons.mp h with rfl | h
    · rw [(hself s e).1, (hself s e).2]
    · exact ih h

/-- The same messages have the same replies, as far as they are filled. -/
theorem SameMessage.sameReply {x y : Served Socket Input} (h : SameMessage x y)
    (hx : x = serve w L x.before x.event) (hy : y = serve w L y.before y.event) (hxo : x.Own)
    (hyo : y.Own) : SameReply x y := by
  have hresult := h.result hxo hyo
  obtain ⟨msg, hsends, -⟩ := hxo
  have hxmsg := hsends x.before.ipcMsg
  have hymsg := h.message msg hsends y.before.ipcMsg
  by_cases hm : msg.msgType = 2
  · obtain ⟨-, hxr, hxm⟩ := serve_of_request (w := w) (L := L) (hxmsg ▸ hm)
    obtain ⟨-, hyr, hym⟩ := serve_of_request (w := w) (L := L) (hymsg ▸ hm)
    rw [← hx, hxmsg] at hxr hxm
    rw [← hy, hymsg] at hyr hym
    refine ⟨by rw [hxm, hym]; rfl, ?_⟩
    intro m m' hm hm' i hi
    rw [hxm, Option.some.injEq] at hm
    rw [hym, Option.some.injEq] at hm'
    subst hm hm'
    rw [Served.req, hxmsg, hxr] at hi
    apply agree_processRequest _ i hi
    intro call hcall
    rw [hxr, hyr, call_processRequest _ _ _ y.event.storage x.event.storage, hcall] at hresult
    exact Option.some.inj hresult
  · rw [serve_of_ne (hxmsg.symm ▸ hm)] at hx
    rw [serve_of_ne (hymsg.symm ▸ hm)] at hy
    have hxn : x.reply = none := by rw [hx]
    have hyn : y.reply = none := by rw [hy]
    refine ⟨by rw [hxn, hyn], ?_⟩
    intro m m' hsome
    rw [hxn] at hsome
    cases hsome

/-- **Clients do not disturb each other** as long as a client sends complete messages and names only
sockets that its own requests have created: in two runs with the same messages of the client,
answered in the same way by the stack for its sockets, it gets the same replies as far as they are
filled, and it changes no socket that it has not created. -/
theorem client_isolated (L : Lwip Socket Input) (c : Nat) {s s' : NetState Socket}
    {events events' : List (NetEvent Input)}
    (hsame : List.Forall₂ SameMessage (ofClient c (run w L s events))
      (ofClient c (run w L s' events')))
    (hown : ∀ x ∈ ofClient c (run w L s events), x.Own)
    (hown' : ∀ x ∈ ofClient c (run w L s' events'), x.Own) :
    List.Forall₂ SameReply (ofClient c (run w L s events)) (ofClient c (run w L s' events')) ∧
      ∀ x ∈ ofClient c (run w L s events), ∀ fd, x.before.creator fd ≠ some c →
        (x.before.sockets fd).isSome → x.after.sockets fd = x.before.sockets fd := by
  constructor
  · rw [forall₂_iff_zip] at hsame ⊢
    refine ⟨hsame.1, ?_⟩
    intro x y hxy
    obtain ⟨hx, hy⟩ := of_mem_zip hxy
    exact (hsame.2 hxy).sameReply (eq_serve_of_mem (mem_of_mem_filter hx))
      (eq_serve_of_mem (mem_of_mem_filter hy)) (hown x hx) (hown' y hy)
  · intro x hx fd hcreator hfd
    have hclient : x.event.client = c := by simpa using (mem_filter.mp hx).2
    have heq := eq_serve_of_mem (mem_of_mem_filter hx)
    have hafter : x.after = (serve w L x.before x.event).after := congrArg Served.after heq
    rw [hafter]
    apply serve_frame _ hfd
    intro call hcall hnames
    obtain ⟨msg, hsends, hcreated⟩ := hown x hx
    have hmsg := hsends x.before.ipcMsg
    by_cases hm : msg.msgType = 2
    · rw [(serve_of_request (hmsg ▸ hm)).1, hmsg] at hcall
      exact hcreator (hclient ▸ hcreated hm fd (names_of_call hcall hnames))
    · rw [serve_of_ne (hmsg.symm ▸ hm)] at hcall
      cases hcall

/-! ## A small stack -/

/-- A stack with one socket, of number 3, that can be opened and closed. -/
def oneSocket : Lwip Unit Unit where
  exec _ sockets call :=
    match call with
    | .socket .. => (⟨3, [], ⟨0, 0⟩, 0, ∅, ∅, ∅⟩, Function.update sockets 3 (some ()))
    | .close fd => (⟨0, [], ⟨0, 0⟩, 0, ∅, ∅, ∅⟩, Function.update sockets fd none)
    | call => (failing call, sockets)
  frame _ sockets call fd hnames hfd := by
    cases call with
    | socket =>
      by_cases h : fd = 3
      · subst h
        obtain ⟨u, hu⟩ := Option.isSome_iff_exists.mp hfd
        rw [hu]
        rfl
      · exact Function.update_of_ne h _ _
    | close fd' => exact Function.update_of_ne hnames _ _
    | _ => rfl

/-- A complete message. -/
def complete (client : Nat) (req : NetRequest) (storage : Mem) : NetEvent Unit :=
  ⟨client, fun _ => ⟨2, req⟩, storage, ()⟩

/-- The state before the first message. -/
def noSockets : NetState Unit := ⟨fun _ => none, fun _ => none, ⟨0, .other 0⟩⟩

theorem client_isolated_close :
    List.Forall₂ SameReply
      (ofClient 1 (run 32 oneSocket noSockets
        [complete 1 (.socket 2 1 0) fun _ => 0, complete 1 (.close 3) fun _ => 0]))
      (ofClient 1 (run 32 oneSocket noSockets
        [complete 1 (.socket 2 1 0) fun _ => 1, complete 0 (.other 7) fun _ => 5,
          complete 1 (.close 3) fun _ => 1])) := by
  refine (client_isolated oneSocket 1 ?_ ?_ ?_).1
  · exact .cons ⟨fun _ h => h, fun _ _ => rfl⟩ (.cons ⟨fun _ h => h, fun _ _ => rfl⟩ .nil)
  all_goals
    refine forall_mem_cons.mpr ⟨?_, forall_mem_cons.mpr ⟨?_, forall_mem_nil _⟩⟩
    · exact ⟨_, fun _ => rfl, fun _ fd hnames => hnames.elim⟩
    · refine ⟨_, fun _ => rfl, fun _ fd hnames => ?_⟩
      cases hnames
      rfl

/-- What client 1 is answered to a message that ends after its type, when client 0 has sent `req`
before. -/
def shortReplies (req : NetRequest) : List (Option Int) :=
  (ofClient 1 (run 32 oneSocket noSockets
    [complete 0 req fun _ => 0, ⟨1, fun old => ⟨2, old.req⟩, fun _ => 0, ()⟩])).map
    fun x => x.reply.map getStatus

/-- Client 1 closes the socket that client 0 has created. The reply is the status and, after it,
whatever was in the storage. And a short message of client 1 is answered with the status of the
request that client 0 has sent before. -/
theorem socket_closed_by_other :
    (∃ (s : NetState Unit) (m m' : Mem), s.creator 3 = some 0 ∧ (s.sockets 3).isSome ∧
      (serve 32 oneSocket s (complete 1 (.close 3) m)).after.sockets 3 = none ∧
      (serve 32 oneSocket s (complete 1 (.close 3) m)).reply ≠
        (serve 32 oneSocket s (complete 1 (.close 3) m')).reply) ∧
    shortReplies (.socket 2 1 0) = [some 3] ∧ shortReplies (.close 3) = [some 0] := by
  refine ⟨⟨⟨fun _ => some (), fun _ => some 0, ⟨0, .other 0⟩⟩, fun _ => 0, fun _ => 1,
    rfl, rfl, rfl, fun h => ?_⟩, by decide +kernel, by decide +kernel⟩
  have hbyte := congrFun (Option.some.inj h) 4
  exact absurd hbyte (by decide)

end AuroraOS.Net
