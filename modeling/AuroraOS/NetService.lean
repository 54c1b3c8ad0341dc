import AuroraOS.Lib.ByteMem

/-!
# The network service

`NetServer` of `services/net/net_service.cpp`, with the messages of `net_ipc.hpp`. A request of a
client is turned into one call of the network stack, and what the stack answers is written to the
reply. The stack is a parameter.

A reply is the memory that it is written to, with the fields at the offsets that the structure gives
them. Beside the reply, a handler's result lists the lengths that it passes with a buffer, the
indices that it uses with `FD_SET` and `FD_ISSET`, and the counts that it shifts by.

`request_safe_iff`: which requests are handled without leaving a buffer, a set of descriptors or a
word.
-/

namespace AuroraOS.Net

open ByteMem BitVec

/-! ## Messages -/

structure SelectReq where
  maxfdp1 : BitVec 32
  hasReadset : Bool
  hasWriteset : Bool
  hasExceptset : Bool
  readset : BitVec 32
  writeset : BitVec 32
  exceptset : BitVec 32
  timeoutMs : BitVec 32

/-- A `NetRequest`: the opcode, and the member of the union that its handler reads. The opcodes
without a handler are `other`. -/
inductive NetRequest
  | socket (domain type protocol : BitVec 32)
  | bind (fd addr : BitVec 32) (port : BitVec 16)
  | connect (fd addr : BitVec 32) (port : BitVec 16)
  | send (fd flags len : BitVec 32) (data : Vector UInt8 1024)
  | recv (fd flags len : BitVec 32)
  | sendto (fd flags addr : BitVec 32) (port : BitVec 16) (len : BitVec 32)
      (data : Vector UInt8 1024)
  | recvfrom (fd flags len : BitVec 32)
  | setsockopt (fd level optname optlen : BitVec 32) (optval : Vector UInt8 128)
  | getsockopt (fd level optname optlen : BitVec 32)
  | fcntl (fd cmd val : BitVec 32)
  | select (req : SelectReq)
  | close (fd : BitVec 32)
  | other (opcode : BitVec 32)

/-! The fields of a `NetReply`: `status` is followed by the members of the union, which overlap. -/

def statusOffset : Nat := 0

/-- `recv.len`, `recvfrom.len`, `getsockopt.optlen` and `select.readset` -/
def lenOffset : Nat := 4

def recvDataOffset : Nat := 8

def recvfromAddrOffset : Nat := 8

def recvfromPortOffset : Nat := 12

def recvfromDataOffset : Nat := 14

def getsockoptOptvalOffset : Nat := 8

def selectWritesetOffset : Nat := 8

def selectExceptsetOffset : Nat := 12

/-- `sizeof` of the data fields of requests and replies, of their option fields, and of
`sockaddr_in` -/
def dataSize : Nat := 1024

def optvalSize : Nat := 128

def sockaddrSize : Nat := 16

/-! ## The network stack -/

/-- The port and the address of a `sockaddr_in`, in network byte order. -/
structure SockAddrIn where
  sinPort : BitVec 16
  sinAddr : BitVec 32
  deriving DecidableEq

def lwipHtons (x : BitVec 16) : BitVec 16 := x.extractLsb' 0 8 ++ x.extractLsb' 8 8

def lwipHtonl (x : BitVec 32) : BitVec 32 :=
  x.extractLsb' 0 8 ++ x.extractLsb' 8 8 ++ x.extractLsb' 16 8 ++ x.extractLsb' 24 8

/-- A call of the stack. The lengths are as the callee gets them. A set of descriptors is there or
not. -/
inductive LwipCall
  | socket (domain type protocol : BitVec 32)
  | connect (fd : BitVec 32) (addr : SockAddrIn)
  | bind (fd : BitVec 32) (addr : SockAddrIn)
  | send (fd : BitVec 32) (data : Vector UInt8 1024) (size : Nat) (flags : BitVec 32)
  | recv (fd : BitVec 32) (size : Nat) (flags : BitVec 32)
  | sendto (fd : BitVec 32) (data : Vector UInt8 1024) (size : Nat) (flags : BitVec 32)
      (addr : SockAddrIn)
  | recvfrom (fd : BitVec 32) (size : Nat) (flags : BitVec 32)
  | fcntl (fd cmd val : BitVec 32)
  | setsockopt (fd level optname : BitVec 32) (optval : Vector UInt8 128) (optlen : Nat)
  | getsockopt (fd level optname : BitVec 32) (optlen : Nat)
  | select (maxfdp1 : BitVec 32) (readset writeset exceptset : Option (Finset Nat))
      (tvSec tvUsec : Nat)
  | close (fd : BitVec 32)

/-- What the stack answers: the value returned, as an `int`, what it has written to the buffer that
it was passed, and what it has written through its other arguments. -/
structure LwipResult where
  status : BitVec 32
  data : List UInt8
  sender : SockAddrIn
  optlen : Nat
  readset : Finset Nat
  writeset : Finset Nat
  exceptset : Finset Nat

/-- What the stack promises: it receives and copies no more than it is asked for, it does not
enlarge `optlen`, and `select` with more descriptors than fit in a set fails. -/
structure LwipContract (fdSetsize : Nat) (lwip : LwipCall → LwipResult) : Prop where
  recv : ∀ fd size flags, (lwip (.recv fd size flags)).status.toInt ≤ size ∧
    (lwip (.recv fd size flags)).data.length ≤ size
  recvfrom : ∀ fd size flags, (lwip (.recvfrom fd size flags)).status.toInt ≤ size ∧
    (lwip (.recvfrom fd size flags)).data.length ≤ size
  getsockopt : ∀ fd level optname optlen,
    (lwip (.getsockopt fd level optname optlen)).optlen ≤ optlen
    ∧ (lwip (.getsockopt fd level optname optlen)).data.length ≤ optlen
  select : ∀ maxfdp1 r w e sec usec, 0 < (lwip (.select maxfdp1 r w e sec usec)).status.toInt →
    maxfdp1.toInt ≤ fdSetsize

/-! ## Handlers -/

/-- What a handler does that could go wrong. -/
inductive Use
  | buffer (len size : Nat)
  | fdIndex (i : Nat)
  | shift (count : Nat)
  deriving DecidableEq

/-- A length is at most the size of its buffer, an index is that of a set, and a word is not shifted
by more bits than it has. -/
def Use.Ok (fdSetsize : Nat) : Use → Prop
  | .buffer len size => len ≤ size
  | .fdIndex i => i < fdSetsize
  | .shift count => count < 32

instance (fdSetsize : Nat) : DecidablePred (Use.Ok fdSetsize) := by
  intro use
  cases use <;> dsimp only [Use.Ok] <;> infer_instance

/-- The result of a handler. -/
structure Handled where
  uses : List Use
  call : Option LwipCall
  reply : Mem

/-- Write bytes from an address on. -/
def writeBytes (m : Mem) (a : Nat) (bytes : List UInt8) : Mem :=
  fun y => if a ≤ y then bytes.getD (y - a) (m y) else m y

/-- `reply.status = status` -/
def setStatus (reply : Mem) (status : BitVec 32) : Mem := store reply statusOffset 4 status.toNat

def getStatus (reply : Mem) : Int := (BitVec.ofNat 32 (load reply statusOffset 4)).toInt

/-- An `int` that is passed as a `size_t` of `w` bits. -/
def toSizeT (w : Nat) (x : Int) : Nat := (x % 2 ^ w).toNat

section Handlers

variable (w : Nat) (lwip : LwipCall → LwipResult)

/-- The handlers that only pass on the request and return the status. -/
def passOn (uses : List Use) (call : LwipCall) (reply : Mem) : Handled :=
  ⟨uses, some call, setStatus reply (lwip call).status⟩

def handleSocket (domain type protocol : BitVec 32) (reply : Mem) : Handled :=
  passOn lwip [] (.socket domain type protocol) reply

def sockAddr (addr : BitVec 32) (port : BitVec 16) : SockAddrIn := ⟨lwipHtons port, lwipHtonl addr⟩

def handleConnect (fd addr : BitVec 32) (port : BitVec 16) (reply : Mem) : Handled :=
  passOn lwip [.buffer sockaddrSize sockaddrSize] (.connect fd (sockAddr addr port)) reply

def handleBind (fd addr : BitVec 32) (port : BitVec 16) (reply : Mem) : Handled :=
  passOn lwip [.buffer sockaddrSize sockaddrSize] (.bind fd (sockAddr addr port)) reply

/-- The clamp of an unsigned length. -/
def clamp (len : BitVec 32) (size : Nat) : Nat := if len.toNat > size then size else len.toNat

def handleSend (fd flags len : BitVec 32) (data : Vector UInt8 1024) (reply : Mem) : Handled :=
  let len := clamp len dataSize
  passOn lwip [.buffer len dataSize] (.send fd data len flags) reply

/-- The clamp of a length in an `int`, and its conversion to a `size_t`. -/
def clampInt (len : BitVec 32) : Nat :=
  let maxLen := len.toInt
  let maxLen := if maxLen > dataSize then (dataSize : Int) else maxLen
  toSizeT w maxLen

def handleRecv (fd flags len : BitVec 32) (reply : Mem) : Handled :=
  let size := clampInt w len
  let r := lwip (.recv fd size flags)
  let reply := writeBytes reply recvDataOffset r.data
  let reply := setStatus reply r.status
  let reply := if r.status.toInt > 0 then store reply lenOffset 4 r.status.toNat else reply
  ⟨[.buffer size dataSize], some (.recv fd size flags), reply⟩

def handleSendto (fd flags addr : BitVec 32) (port : BitVec 16) (len : BitVec 32)
    (data : Vector UInt8 1024) (reply : Mem) : Handled :=
  let len := clamp len dataSize
  passOn lwip [.buffer len dataSize, .buffer sockaddrSize sockaddrSize]
    (.sendto fd data len flags (sockAddr addr port)) reply

def handleRecvfrom (fd flags len : BitVec 32) (reply : Mem) : Handled :=
  let size := clampInt w len
  let r := lwip (.recvfrom fd size flags)
  let reply := writeBytes reply recvfromDataOffset r.data
  let reply := setStatus reply r.status
  let reply :=
    if r.status.toInt > 0 then
      let reply := store reply lenOffset 4 r.status.toNat
      let reply := store reply recvfromPortOffset 2 (lwipHtons r.sender.sinPort).toNat
      store reply recvfromAddrOffset 4 (lwipHtonl r.sender.sinAddr).toNat
    else reply
  ⟨[.buffer size dataSize, .buffer sockaddrSize sockaddrSize], some (.recvfrom fd size flags),
    reply⟩

def handleFcntl (fd cmd val : BitVec 32) (reply : Mem) : Handled :=
  passOn lwip [] (.fcntl fd cmd val) reply

def handleSetsockopt (fd level optname optlen : BitVec 32) (optval : Vector UInt8 128)
    (reply : Mem) : Handled :=
  let optlen := clamp optlen optvalSize
  passOn lwip [.buffer optlen optvalSize] (.setsockopt fd level optname optval optlen) reply

def handleGetsockopt (fd level optname optlen : BitVec 32) (reply : Mem) : Handled :=
  let optlen := clamp optlen optvalSize
  let r := lwip (.getsockopt fd level optname optlen)
  let reply := writeBytes reply getsockoptOptvalOffset r.data
  let reply := setStatus reply r.status
  let reply := if r.status.toInt = 0 then store reply lenOffset 4 r.optlen else reply
  ⟨[.buffer optlen optvalSize], some (.getsockopt fd level optname optlen), reply⟩

/-- The first loop of `handle_select`, for one of the sets: `mask & (1 << i)` is looked at only if
the set is there. -/
def setUses (has : Bool) (mask : BitVec 32) (i : Nat) : List Use :=
  if has then .shift i :: if mask.getLsbD i then [.fdIndex i] else [] else []

/-- The set that the loop makes. -/
def fdSet (has : Bool) (mask : BitVec 32) (n : Nat) : Finset Nat :=
  ((List.range n).filter fun i => has && mask.getLsbD i).toFinset

/-- The second loop, for one of the sets. -/
def isSetUses (has : Bool) (set : Finset Nat) (i : Nat) : List Use :=
  if has then .fdIndex i :: if i ∈ set then [.shift i] else [] else []

/-- The bits that the loop sets in the reply. -/
def maskOf (has : Bool) (set : Finset Nat) (n : Nat) : BitVec 32 :=
  (List.range n).foldl (fun mask i => if has && i ∈ set then mask ||| 1#32 <<< i else mask) 0

/-- The number of rounds of the loops: `maxfdp1` is an `int`. -/
def SelectReq.rounds (req : SelectReq) : Nat := req.maxfdp1.toInt.toNat

def selectUses (req : SelectReq) : List Use :=
  (List.range req.rounds).flatMap fun i =>
    setUses req.hasReadset req.readset i ++ setUses req.hasWriteset req.writeset i ++
      setUses req.hasExceptset req.exceptset i

def selectedUses (req : SelectReq) (r : LwipResult) : List Use :=
  (List.range req.rounds).flatMap fun i =>
    isSetUses req.hasReadset r.readset i ++ isSetUses req.hasWriteset r.writeset i ++
      isSetUses req.hasExceptset r.exceptset i

/-- The call of `select`. A set that the client does not pass is null. -/
def selectCall (req : SelectReq) : LwipCall :=
  let set (has : Bool) (mask : BitVec 32) : Option (Finset Nat) :=
    if has then some (fdSet has mask req.rounds) else none
  .select req.maxfdp1 (set req.hasReadset req.readset) (set req.hasWriteset req.writeset)
    (set req.hasExceptset req.exceptset) (req.timeoutMs.toNat / 1000)
    (req.timeoutMs.toNat % 1000 * 1000)

def handleSelect (req : SelectReq) (reply : Mem) : Handled :=
  let r := lwip (selectCall req)
  let reply := setStatus reply r.status
  if r.status.toInt > 0 then
    let mask (has : Bool) (set : Finset Nat) : Nat := (maskOf has set req.rounds).toNat
    let reply := store reply lenOffset 4 (mask req.hasReadset r.readset)
    let reply := store reply selectWritesetOffset 4 (mask req.hasWriteset r.writeset)
    let reply := store reply selectExceptsetOffset 4 (mask req.hasExceptset r.exceptset)
    ⟨selectUses req ++ selectedUses req r, some (selectCall req), reply⟩
  else ⟨selectUses req, some (selectCall req), reply⟩

def handleClose (fd : BitVec 32) (reply : Mem) : Handled := passOn lwip [] (.close fd) reply

def processRequest (req : NetRequest) (reply : Mem) : Handled :=
  let reply := setStatus reply (-1)
  match req with
  | .socket domain type protocol => handleSocket lwip domain type protocol reply
  | .connect fd addr port => handleConnect lwip fd addr port reply
  | .bind fd addr port => handleBind lwip fd addr port reply
  | .send fd flags len data => handleSend lwip fd flags len data reply
  | .recv fd flags len => handleRecv w lwip fd flags len reply
  | .sendto fd flags addr port len data => handleSendto lwip fd flags addr port len data reply
  | .recvfrom fd flags len => handleRecvfrom w lwip fd flags len reply
  | .fcntl fd cmd val => handleFcntl lwip fd cmd val reply
  | .setsockopt fd level optname optlen optval =>
    handleSetsockopt lwip fd level optname optlen optval reply
  | .getsockopt fd level optname optlen => handleGetsockopt lwip fd level optname optlen reply
  | .select req => handleSelect lwip req reply
  | .close fd => handleClose lwip fd reply
  | .other _ => ⟨[], none, reply⟩

end Handlers

/-! ## Safety -/

/-- The length field of a successful reply is at most the size of its data. -/
def ReplyFits (reply : Mem) : NetRequest → Prop
  | .recv .. => 0 < getStatus reply → load reply lenOffset 4 ≤ dataSize
  | .recvfrom .. => 0 < getStatus reply → load reply lenOffset 4 ≤ dataSize
  | .getsockopt .. => getStatus reply = 0 → load reply lenOffset 4 ≤ optvalSize
  | _ => True

/-- Everything that the handler of a request does is in bounds. -/
def Handled.Safe (fdSetsize : Nat) (req : NetRequest) (h : Handled) : Prop :=
  (∀ use ∈ h.uses, use.Ok fdSetsize) ∧ ReplyFits h.reply req

/-- A set that is passed names no descriptor outside of a word or of an `fd_set`. -/
def SetInBounds (fdSetsize : Nat) (maxfdp1 : BitVec 32) (has : Bool) (mask : BitVec 32) : Prop :=
  has = true → maxfdp1.toInt ≤ 32 ∧ ∀ i < maxfdp1.toInt.toNat, mask.getLsbD i = true → i < fdSetsize

/-- The requests that are handled safely: a length to receive is not negative as an `int`, and a set
to select from stays in bounds. -/
def NetRequest.InBounds (fdSetsize : Nat) : NetRequest → Prop
  | .recv _ _ len => len.toNat < 2 ^ 31
  | .recvfrom _ _ len => len.toNat < 2 ^ 31
  | .select req =>
    SetInBounds fdSetsize req.maxfdp1 req.hasReadset req.readset ∧
      SetInBounds fdSetsize req.maxfdp1 req.hasWriteset req.writeset ∧
      SetInBounds fdSetsize req.maxfdp1 req.hasExceptset req.exceptset
  | _ => True

variable {w fdSetsize : Nat}

theorem clamp_le (len : BitVec 32) (size : Nat) : clamp len size ≤ size := by
  unfold clamp
  split_ifs <;> omega

/-- The clamp of an `int` keeps negative lengths, and these become large as a `size_t`. -/
theorem clampInt_le_iff (hw : 32 ≤ w) (len : BitVec 32) :
    clampInt w len ≤ dataSize ↔ len.toNat < 2 ^ 31 := by
  have hpow : (2 : Int) ^ 32 ≤ 2 ^ w := pow_le_pow_right₀ (by norm_num) hw
  unfold clampInt toSizeT dataSize
  dsimp only
  rw [toInt_eq_toNat_cond]
  by_cases h : 2 * len.toNat < 2 ^ 32
  · rw [if_pos h]
    split_ifs
    · rw [Int.emod_eq_of_lt (by norm_num) (by norm_num; linarith)]
      simp
      omega
    · rw [Int.emod_eq_of_lt (by omega) (by push_cast at *; linarith)]
      simp
      omega
  · rw [if_neg h, if_neg (by push_cast; omega)]
    have hneg : ((len.toNat : Int) - (2 ^ 32 : Nat)) % 2 ^ w =
        len.toNat - (2 ^ 32 : Nat) + 2 ^ w := by
      rw [← Int.add_emod_right, Int.emod_eq_of_lt] <;> push_cast <;> omega
    omega

/-! The status and the length are read back as they were written. -/

theorem getStatus_setStatus (reply : Mem) (status : BitVec 32) :
    getStatus (setStatus reply status) = status.toInt := by
  have hlt : status.toNat < 256 ^ 4 := status.isLt
  rw [getStatus, setStatus, load_store_same, Nat.mod_eq_of_lt hlt, ofNat_toNat, setWidth_eq]

theorem load_lenOffset (reply : Mem) {v : Nat} (hv : v < 256 ^ 4) :
    load (store reply lenOffset 4 v) lenOffset 4 = v := by
  rw [load_store_same, Nat.mod_eq_of_lt hv]

/-! ## Selecting -/

/-- What the first loop does for one set. -/
theorem setUses_ok_iff {maxfdp1 : BitVec 32} {has : Bool} {mask : BitVec 32} :
    (∀ i < maxfdp1.toInt.toNat, ∀ use ∈ setUses has mask i, use.Ok fdSetsize) ↔
      SetInBounds fdSetsize maxfdp1 has mask := by
  unfold SetInBounds setUses
  cases has with
  | false => simp
  | true =>
    simp only [if_true, List.mem_cons, forall_const]
    constructor
    · intro h
      constructor
      · by_contra hlt
        exact absurd (h 32 (by omega) (.shift 32) (.inl rfl)) (by unfold Use.Ok; omega)
      · intro i hi hbit
        exact h i hi (.fdIndex i) (.inr (by simp [hbit]))
    · intro h i hi use huse
      rcases huse with rfl | huse
      · change i < 32
        omega
      · split_ifs at huse with hbit
        · rw [List.mem_singleton] at huse
          subst huse
          exact h.2 i hi hbit
        · cases huse

/-- What the second loop does for one set, after `select` has succeeded. -/
theorem isSetUses_ok {maxfdp1 : BitVec 32} {has : Bool} {mask : BitVec 32} {set : Finset Nat}
    (h : SetInBounds fdSetsize maxfdp1 has mask) (hmax : maxfdp1.toInt ≤ fdSetsize) {i : Nat}
    (hi : i < maxfdp1.toInt.toNat) {use : Use} (huse : use ∈ isSetUses has set i) :
    use.Ok fdSetsize := by
  unfold isSetUses at huse
  cases has with
  | false => cases huse
  | true =>
    have hword := (h rfl).1
    rw [if_pos rfl, List.mem_cons] at huse
    rcases huse with rfl | huse
    · change i < fdSetsize
      omega
    · split_ifs at huse
      · rw [List.mem_singleton] at huse
        subst huse
        change i < 32
        omega
      · cases huse

theorem selectUses_ok_iff {req : SelectReq} :
    (∀ use ∈ selectUses req, use.Ok fdSetsize) ↔ (NetRequest.select req).InBounds fdSetsize := by
  change _ ↔ SetInBounds _ _ _ _ ∧ SetInBounds _ _ _ _ ∧ SetInBounds _ _ _ _
  rw [← setUses_ok_iff, ← setUses_ok_iff, ← setUses_ok_iff]
  simp only [selectUses, List.mem_flatMap, List.mem_range, List.mem_append]
  constructor
  · intro h
    exact ⟨fun i hi use huse => h use ⟨i, hi, .inl (.inl huse)⟩,
      fun i hi use huse => h use ⟨i, hi, .inl (.inr huse)⟩,
      fun i hi use huse => h use ⟨i, hi, .inr huse⟩⟩
  · intro h use huse
    obtain ⟨i, hi, (huse | huse) | huse⟩ := huse
    · exact h.1 i hi use huse
    · exact h.2.1 i hi use huse
    · exact h.2.2 i hi use huse

section

variable {lwip : LwipCall → LwipResult}

theorem handleSelect_safe_iff {req : SelectReq} (hlwip : LwipContract fdSetsize lwip)
    (reply : Mem) :
    (∀ use ∈ (handleSelect lwip req reply).uses, use.Ok fdSetsize) ↔
      (NetRequest.select req).InBounds fdSetsize := by
  rw [← selectUses_ok_iff]
  unfold handleSelect
  dsimp only
  split_ifs with hstatus
  · have hmax : req.maxfdp1.toInt ≤ fdSetsize := hlwip.select _ _ _ _ _ _ hstatus
    constructor
    · intro h use huse
      exact h use (List.mem_append_left _ huse)
    · intro h use huse
      rcases List.mem_append.mp huse with huse | huse
      · exact h use huse
      · obtain ⟨hread, hwrite, hexcept⟩ := selectUses_ok_iff.mp h
        simp only [selectedUses, List.mem_flatMap, List.mem_range, List.mem_append] at huse
        obtain ⟨i, hi, (huse | huse) | huse⟩ := huse
        · exact isSetUses_ok hread hmax hi huse
        · exact isSetUses_ok hwrite hmax hi huse
        · exact isSetUses_ok hexcept hmax hi huse
  · exact Iff.rfl

/-! ## Receiving -/

/-- The length of what was received, in a reply to `recv` or `recvfrom`. -/
theorem status_le {size : Nat} {status : BitVec 32} (hstatus : status.toInt ≤ size)
    (hsize : size ≤ dataSize) (hpos : 0 < status.toInt) : status.toNat ≤ dataSize := by
  have hcond := toInt_eq_toNat_cond status
  split_ifs at hcond <;> omega

theorem handleRecv_safe_iff (hw : 32 ≤ w) (hlwip : LwipContract fdSetsize lwip)
    (fd flags len : BitVec 32) (reply : Mem) :
    (handleRecv w lwip fd flags len reply).Safe fdSetsize (.recv fd flags len) ↔
      len.toNat < 2 ^ 31 := by
  have huses : (∀ use ∈ (handleRecv w lwip fd flags len reply).uses, use.Ok fdSetsize) ↔
      clampInt w len ≤ dataSize := by simp [handleRecv, Use.Ok]
  rw [Handled.Safe, huses, ← clampInt_le_iff hw]
  refine and_iff_left_of_imp fun hsize hpos => ?_
  have hrecv := (hlwip.recv fd (clampInt w len) flags).1
  unfold handleRecv at hpos ⊢
  dsimp only at hpos ⊢
  split_ifs at hpos ⊢ with hstatus
  · rw [load_lenOffset _ (isLt _)]
    exact status_le hrecv hsize hstatus
  · rw [getStatus_setStatus] at hpos
    exact absurd hpos hstatus

theorem handleRecvfrom_safe_iff (hw : 32 ≤ w) (hlwip : LwipContract fdSetsize lwip)
    (fd flags len : BitVec 32) (reply : Mem) :
    (handleRecvfrom w lwip fd flags len reply).Safe fdSetsize (.recvfrom fd flags len) ↔
      len.toNat < 2 ^ 31 := by
  have huses : (∀ use ∈ (handleRecvfrom w lwip fd flags len reply).uses, use.Ok fdSetsize) ↔
      clampInt w len ≤ dataSize := by simp [handleRecvfrom, Use.Ok]
  rw [Handled.Safe, huses, ← clampInt_le_iff hw]
  refine and_iff_left_of_imp fun hsize hpos => ?_
  have hrecv := (hlwip.recvfrom fd (clampInt w len) flags).1
  unfold handleRecvfrom at hpos ⊢
  dsimp only at hpos ⊢
  split_ifs at hpos ⊢ with hstatus
  · rw [load_store_of_disjoint _ _ (by decide), load_store_of_disjoint _ _ (by decide),
      load_lenOffset _ (isLt _)]
    exact status_le hrecv hsize hstatus
  · rw [getStatus_setStatus] at hpos
    exact absurd hpos hstatus

theorem handleGetsockopt_safe (hlwip : LwipContract fdSetsize lwip)
    (fd level optname optlen : BitVec 32) (reply : Mem) :
    (handleGetsockopt lwip fd level optname optlen reply).Safe fdSetsize
      (.getsockopt fd level optname optlen) := by
  have hclamp := clamp_le optlen optvalSize
  refine ⟨?_, ?_⟩
  · intro use huse
    rw [handleGetsockopt, List.mem_singleton] at huse
    subst huse
    exact hclamp
  · intro hzero
    have hopt := (hlwip.getsockopt fd level optname (clamp optlen optvalSize)).1
    unfold handleGetsockopt at hzero ⊢
    dsimp only at hzero ⊢
    split_ifs at hzero ⊢ with hstatus
    · rw [load_lenOffset]
      · exact hopt.trans hclamp
      · exact (hopt.trans hclamp).trans_lt (by decide)
    · rw [getStatus_setStatus] at hzero
      exact absurd hzero hstatus

end

/-! ## All requests -/

/-- A stack that always fails. -/
def failing : LwipCall → LwipResult := fun _ => ⟨-1, [], ⟨0, 0⟩, 0, ∅, ∅, ∅⟩

theorem failing_contract (fdSetsize : Nat) : LwipContract fdSetsize failing where
  recv _ _ _ :=
    ⟨(show (-1 : BitVec 32).toInt ≤ 0 by decide).trans (Int.natCast_nonneg _), Nat.zero_le _⟩
  recvfrom _ _ _ :=
    ⟨(show (-1 : BitVec 32).toInt ≤ 0 by decide).trans (Int.natCast_nonneg _), Nat.zero_le _⟩
  getsockopt _ _ _ _ := ⟨Nat.zero_le _, Nat.zero_le _⟩
  select _ _ _ _ _ _ h := absurd h (show ¬0 < (-1 : BitVec 32).toInt by decide)

/-- **Which requests are handled safely**, whatever the network stack answers. -/
theorem request_safe_iff (hw : 32 ≤ w) (fdSetsize : Nat) (req : NetRequest) :
    (∀ lwip, LwipContract fdSetsize lwip → ∀ reply,
      (processRequest w lwip req reply).Safe fdSetsize req) ↔ req.InBounds fdSetsize := by
  have hfails := failing_contract fdSetsize
  cases req with
  | recv fd flags len =>
    constructor
    · intro h
      exact (handleRecv_safe_iff hw hfails fd flags len _).mp (h failing hfails fun _ => 0)
    · intro h lwip hlwip reply
      exact (handleRecv_safe_iff hw hlwip fd flags len _).mpr h
  | recvfrom fd flags len =>
    constructor
    · intro h
      exact (handleRecvfrom_safe_iff hw hfails fd flags len _).mp (h failing hfails fun _ => 0)
    · intro h lwip hlwip reply
      exact (handleRecvfrom_safe_iff hw hlwip fd flags len _).mpr h
  | select req =>
    constructor
    · intro h
      exact (handleSelect_safe_iff hfails _).mp (h failing hfails fun _ => 0).1
    · intro h lwip hlwip reply
      exact ⟨(handleSelect_safe_iff hlwip _).mpr h, trivial⟩
  | getsockopt fd level optname optlen =>
    refine iff_of_true (fun lwip hlwip reply => ?_) trivial
    exact handleGetsockopt_safe hlwip fd level optname optlen _
  | _ =>
    refine iff_of_true (fun lwip _ reply => ⟨?_, trivial⟩) trivial
    simp [processRequest, handleSocket, handleBind, handleConnect, handleSend, handleSendto,
      handleSetsockopt, handleFcntl, handleClose, passOn, Use.Ok, clamp_le]

theorem request_safe_recv : (NetRequest.recv 3 0 4096).InBounds 4 ∧
    ∀ lwip, LwipContract 4 lwip → ∀ reply,
      (processRequest 32 lwip (.recv 3 0 4096) reply).Safe 4 (.recv 3 0 4096) :=
  have hlen : (4096 : BitVec 32).toNat < 2 ^ 31 := by decide
  ⟨hlen, (request_safe_iff le_rfl 4 (.recv 3 0 4096)).mpr hlen⟩

/-- A length of `2 ^ 31` is negative as an `int`, passes the clamp, and is a length of two gigabytes
for the stack. -/
theorem recv_length_unbounded :
    Use.buffer (2 ^ 31) dataSize ∈
        (processRequest 32 failing (.recv 3 0 0x80000000) fun _ => 0).uses ∧
      ¬ (Use.buffer (2 ^ 31) dataSize).Ok 4 :=
  ⟨by decide, by decide⟩

end AuroraOS.Net
