import AuroraOS.Lib.Run

/-!
# The file service

`VfsServer` of `services/vfs/vfs_service.cpp` with the messages of `vfs_ipc.hpp`, and the client
side, `VfsManager` of `vfs/vfs.cpp`, which fills one static request, has it served, and copies out
of one static reply. The files behind the virtual nodes are a parameter.

`vfs_calls_isolated`: in a run in which no task enters a call while another is inside one, every
call gets what the server has produced for it, and the data of a write reach the file of its own
descriptor only.
-/

namespace AuroraOS.Vfs

open Function

/-! ## Virtual nodes -/

/-- A call of a method of a `VNode`. A node and the `priv` pointer of an open file are numbers. -/
inductive VnodeCall
  | openFile (vnode : Nat) (path : List Char) (flags : Int)
  | closeFile (vnode priv : Nat)
  | read (vnode : Nat) (len offset : Int) (priv : Nat)
  | write (vnode : Nat) (buf : List UInt8) (len offset : Int) (priv : Nat)
  | ioctl (vnode : Nat) (request : Int) (arg priv : Nat)
  | getSize (vnode priv : Nat)
  deriving DecidableEq

/-- What a method returns, what it has written to the buffer, and the `priv` pointer that it
sets. -/
structure VnodeResult where
  value : Int
  data : List UInt8
  priv : Nat

/-- The files, in states of type `World`. -/
abbrev Vnodes (World : Type) := World → VnodeCall → VnodeResult × World

/-! ## Messages -/

/-- `VFS_IPC_BUFFER_SIZE` -/
def vfsIpcBufferSize : Nat := 1024

/-- A `VfsRequest`. `zero` is a request without an opcode. -/
inductive VfsRequest
  | zero
  | mount (path : List Char) (vnode : Nat)
  | unmount (path : List Char)
  | open (path : List Char) (flags : Int)
  | read (fd len : Int)
  | write (fd len : Int) (data : List UInt8)
  | close (fd : Int)
  | ioctl (fd request : Int) (arg : Nat)
  | lseek (fd offset whence : Int)
  deriving DecidableEq

structure VfsReply where
  status : Int
  data : Nat → UInt8

/-! ## The server -/

structure FileDescriptor where
  vnode : Nat
  offset : Int
  used : Bool
  priv : Nat

structure VfsServer where
  mounts : List (List Char × Nat)
  fdTable : Nat → FileDescriptor

def maxMountPoints : Nat := 16

def maxOpenFiles : Nat := 16

/-- The server, the files, and the calls of methods so far. -/
structure VfsState (World : Type) where
  server : VfsServer
  world : World
  calls : List VnodeCall

/-- An `int` after an operation that may overflow. -/
def wrap (x : Int) : Int := (BitVec.ofInt 32 x).toInt

/-- An `int` after an overflow differs by a multiple of `2 ^ 32`. -/
theorem wrap_spec (x : Int) : ∃ c, wrap x = x - 2 ^ 32 * c ∧ -2 ^ 31 ≤ wrap x ∧
    wrap x < 2 ^ 31 := by
  have hmod : wrap x = x.bmod (2 ^ 32) := BitVec.toInt_ofInt ..
  rw [hmod, Int.bmod_def]
  split_ifs
  · exact ⟨x / 2 ^ 32, by omega⟩
  · exact ⟨x / 2 ^ 32 + 1, by omega⟩

/-- `..` as a component of a path that begins here. -/
def parentHere : List Char → Bool
  | ['.', '.'] => true
  | '.' :: '.' :: '/' :: _ => true
  | _ => false

/-- The path has a component `..`. `first` tells whether a component begins here. -/
def hasTraversal : Bool → List Char → Bool
  | _, [] => false
  | first, c :: path => first && parentHere (c :: path) || hasTraversal (c = '/') path

def startsWith (pre str : List Char) : Nat := if pre <+: str then pre.length else 0

/-- What is left of a path below a mount point. -/
def relativePath (path : List Char) (maxPrefixLen : Nat) : List Char :=
  let rest := (path.drop maxPrefixLen).dropWhile (· = '/')
  if rest = [] then ['/'] else rest

variable {World : Type}

namespace VfsState

/-- Call a method. -/
def callVnode (vn : Vnodes World) (s : VfsState World) (c : VnodeCall) :
    VnodeResult × VfsState World :=
  let (r, world) := vn s.world c
  (r, { s with world, calls := s.calls ++ [c] })

def setFd (s : VfsState World) (fd : Nat) (f : FileDescriptor) : VfsState World :=
  { s with server := { s.server with fdTable := update s.server.fdTable fd f } }

/-- The entry of an open file. -/
def openFd (s : VfsState World) (fd : Int) : Option FileDescriptor :=
  if fd < 0 ∨ fd ≥ maxOpenFiles ∨ ¬(s.server.fdTable fd.toNat).used then none
  else some (s.server.fdTable fd.toNat)

def mount (s : VfsState World) (path : List Char) (vnode : Nat) : Bool × VfsState World :=
  if vnode = 0 ∨ path.length > 31 ∨ hasTraversal true path ∨
      s.server.mounts.length ≥ maxMountPoints then (false, s)
  else (true, { s with server := { s.server with mounts := s.server.mounts ++ [(path, vnode)] } })

def unmount (s : VfsState World) (path : List Char) : Bool × VfsState World :=
  if s.server.mounts.any fun m => m.1 = path then
    (true, { s with server :=
      { s.server with mounts := s.server.mounts.eraseP fun m => m.1 = path } })
  else (false, s)

/-- A round of the loop over the mount points: the node found, and the length of its path. -/
def mountRound (path : List Char) (found : Option Nat × Nat) (m : List Char × Nat) :
    Option Nat × Nat :=
  let prefixLen := startsWith m.1 path
  if prefixLen > found.2 ∧ (path[prefixLen]? = none ∨ path[prefixLen]? = some '/' ∨
      m.1[prefixLen - 1]? = some '/') then (some m.2, prefixLen)
  else found

/-- The node mounted at the longest path, and the length of the path. -/
def findMount (s : VfsState World) (path : List Char) : Option Nat × Nat :=
  s.server.mounts.foldl (mountRound path) (none, 0)

/-- The last part of `handle_open`: a free descriptor, and the node's `open_file`. -/
def openAt (vn : Vnodes World) (s : VfsState World) (target : Nat) (relativePath : List Char)
    (flags : Int) : Int × VfsState World :=
  match (List.range maxOpenFiles).find? fun fd => !(s.server.fdTable fd).used with
  | none => (-1, s)
  | some fd =>
    let (r, s) := s.callVnode vn (.openFile target relativePath flags)
    if r.value < 0 then
      (-1, s.setFd fd { s.server.fdTable fd with used := false, priv := r.priv })
    else (fd, s.setFd fd ⟨target, 0, true, r.priv⟩)

def handleOpen (vn : Vnodes World) (s : VfsState World) (path : List Char) (flags : Int) :
    Int × VfsState World :=
  if path.length > 63 ∨ hasTraversal true path then (-1, s)
  else
    match s.findMount path with
    | (none, _) => (-1, s)
    | (some target, maxPrefixLen) => s.openAt vn target (relativePath path maxPrefixLen) flags

/-- The length that is read or written: one that does not fit stands for the whole buffer. -/
def bufferLen (len : Int) : Int :=
  if len < 0 ∨ len > vfsIpcBufferSize then vfsIpcBufferSize else len

/-- `fd_table_[fd].offset += bytes` after a method has transferred bytes. -/
def advance (s : VfsState World) (fd : Int) (f : FileDescriptor) (bytes : Int) : VfsState World :=
  if bytes > 0 then s.setFd fd.toNat { f with offset := wrap (f.offset + bytes) } else s

def handleRead (vn : Vnodes World) (s : VfsState World) (fd len : Int) (data : Nat → UInt8) :
    VfsReply × VfsState World :=
  match s.openFd fd with
  | none => (⟨-1, data⟩, s)
  | some f =>
    let (r, s) := s.callVnode vn (.read f.vnode (bufferLen len) f.offset f.priv)
    (⟨r.value, fun i => r.data.getD i (data i)⟩, s.advance fd f r.value)

def handleWrite (vn : Vnodes World) (s : VfsState World) (fd len : Int) (data : List UInt8) :
    Int × VfsState World :=
  match s.openFd fd with
  | none => (-1, s)
  | some f =>
    let (r, s) := s.callVnode vn (.write f.vnode data (bufferLen len) f.offset f.priv)
    (r.value, s.advance fd f r.value)

/-- The position that `lseek` asks for. -/
def newOffset (vn : Vnodes World) (s : VfsState World) (f : FileDescriptor) (offset whence : Int) :
    Int × VfsState World :=
  if whence = 0 then (offset, s)
  else if whence = 1 then (wrap (f.offset + offset), s)
  else if whence = 2 then
    let (r, s) := s.callVnode vn (.getSize f.vnode f.priv)
    (wrap (r.value + offset), s)
  else (-1, s)

def handleLseek (vn : Vnodes World) (s : VfsState World) (fd offset whence : Int) :
    Int × VfsState World :=
  match s.openFd fd with
  | none => (-1, s)
  | some f =>
    let (newOffset, s) := s.newOffset vn f offset whence
    if newOffset ≥ 0 then (newOffset, s.setFd fd.toNat { f with offset := newOffset }) else (-1, s)

def handleClose (vn : Vnodes World) (s : VfsState World) (fd : Int) : Int × VfsState World :=
  match s.openFd fd with
  | none => (-1, s)
  | some f =>
    let s := s.setFd fd.toNat { f with used := false, priv := 0 }
    let (r, s) := s.callVnode vn (.closeFile f.vnode f.priv)
    (r.value, s)

def handleIoctl (vn : Vnodes World) (s : VfsState World) (fd request : Int) (arg : Nat) :
    Int × VfsState World :=
  match s.openFd fd with
  | none => (-1, s)
  | some f =>
    let (r, s) := s.callVnode vn (.ioctl f.vnode request arg f.priv)
    (r.value, s)

/-- The result of a handler that only sets the status. -/
def withStatus (reply : VfsReply) (r : Int × VfsState World) : VfsReply × VfsState World :=
  ({ reply with status := r.1 }, r.2)

def processRequest (vn : Vnodes World) (req : VfsRequest) (reply : VfsReply) (s : VfsState World) :
    VfsReply × VfsState World :=
  let flag (r : Bool × VfsState World) : Int × VfsState World := (if r.1 then 0 else -1, r.2)
  match req with
  | .zero => withStatus reply (-1, s)
  | .mount path vnode => withStatus reply (flag (s.mount path vnode))
  | .unmount path => withStatus reply (flag (s.unmount path))
  | .open path flags => withStatus reply (s.handleOpen vn path flags)
  | .read fd len => s.handleRead vn fd len reply.data
  | .write fd len data => withStatus reply (s.handleWrite vn fd len data)
  | .lseek fd offset whence => withStatus reply (s.handleLseek vn fd offset whence)
  | .close fd => withStatus reply (s.handleClose vn fd)
  | .ioctl fd request arg => withStatus reply (s.handleIoctl vn fd request arg)

end VfsState

/-! ## The client side -/

/-- A call of a method of `VfsManager`. `write` is called for the bytes of `buf` and a length. -/
inductive VfsCall
  | open (path : List Char) (flags : Int)
  | read (fd len : Int)
  | write (fd : Int) (buf : List UInt8) (len : Int)
  | close (fd : Int)
  | ioctl (fd request : Int) (arg : Nat)
  | lseek (fd offset whence : Int)
  deriving DecidableEq

/-- The length in a request: the limit of `VfsManager` is a literal. -/
def requestLen (len : Int) : Int := if len > 1024 then 1024 else len

namespace VfsCall

/-- `memcpy` does not come back from a negative length. -/
def Fills : VfsCall → Prop
  | .write _ _ len => 0 ≤ len
  | _ => True

/-- What a call fills the request with: a path of at most 63 characters, and at most 1024 bytes. -/
def request : VfsCall → VfsRequest
  | .open path flags => .open (path.take 63) flags
  | .read fd len => .read fd (requestLen len)
  | .write fd buf len => .write fd (requestLen len) (buf.take (requestLen len).toNat)
  | .close fd => .close fd
  | .ioctl fd request arg => .ioctl fd request arg
  | .lseek fd offset whence => .lseek fd offset whence

/-- The bytes that a call copies out of the reply. -/
def copyOut (reply : VfsReply) : VfsCall → List UInt8
  | .read .. => if reply.status > 0 then (List.range reply.status.toNat).map reply.data else []
  | _ => []

end VfsCall

/-- What happened when a request was served. -/
structure Exchange (World : Type) where
  before : VfsState World
  reply : VfsReply
  after : VfsState World

/-- How far a task is in its call: the request is filled, it is sent as a message, it is served. -/
inductive Phase (World : Type)
  | idle
  | filled (c : VfsCall)
  | submitted (c : VfsCall) (msg : VfsRequest)
  | served (c : VfsCall) (x : Exchange World)

/-- A call that has returned. -/
structure Completed (World : Type) where
  task : Nat
  call : VfsCall
  exchange : Exchange World
  value : Int
  bytes : List UInt8

/-- `g_vfs_req`, `g_vfs_reply`, the server with the files, and the tasks. -/
structure VfsSystem (World : Type) where
  req : VfsRequest
  reply : VfsReply
  server : VfsServer
  world : World
  phase : Nat → Phase World
  log : List (Completed World)

namespace VfsSystem

/-- The server serves a request, with `reply` for the storage of the reply. -/
def exchange (vn : Vnodes World) (s : VfsSystem World) (req : VfsRequest) (reply : VfsReply) :
    Exchange World :=
  let before : VfsState World := ⟨s.server, s.world, []⟩
  let (reply, after) := VfsState.processRequest vn req reply before
  ⟨before, reply, after⟩

/-- The reply has come. -/
def receive (s : VfsSystem World) (t : Nat) (c : VfsCall) (x : Exchange World) : VfsSystem World :=
  { s with reply := x.reply, server := x.after.server, world := x.after.world,
           phase := update s.phase t (.served c x) }

/-- A section of a call. A call begins in a state that meets the condition `ok`. With a service
endpoint the request is copied into a message, and the server replies out of storage of its own;
without one the server works on the static buffers. -/
inductive Step (vn : Vnodes World) (ok : VfsSystem World → Prop) :
    VfsSystem World → VfsSystem World → Prop
  | fill {s : VfsSystem World} {t : Nat} (c : VfsCall) (hc : c.Fills) (hok : ok s)
      (h : s.phase t = .idle) :
      Step vn ok s { s with req := c.request, phase := update s.phase t (.filled c) }
  | direct {s : VfsSystem World} {t : Nat} {c : VfsCall} (h : s.phase t = .filled c) :
      Step vn ok s (s.receive t c (s.exchange vn s.req { s.reply with status := -1 }))
  | submit {s : VfsSystem World} {t : Nat} {c : VfsCall} (h : s.phase t = .filled c) :
      Step vn ok s { s with reply := { s.reply with status := -1 },
                            phase := update s.phase t (.submitted c s.req) }
  | serve {s : VfsSystem World} {t : Nat} {c : VfsCall} {msg : VfsRequest} (storage : VfsReply)
      (h : s.phase t = .submitted c msg) : Step vn ok s (s.receive t c (s.exchange vn msg storage))
  | copy {s : VfsSystem World} {t : Nat} {c : VfsCall} {x : Exchange World}
      (h : s.phase t = .served c x) :
      Step vn ok s { s with phase := update s.phase t .idle,
                            log := ⟨t, c, x, s.reply.status, c.copyOut s.reply⟩ :: s.log }

/-- No task is inside a call. -/
def Quiet (s : VfsSystem World) : Prop := ∀ t, s.phase t = .idle

/-- No task has made a call yet. -/
def Fresh (s : VfsSystem World) : Prop := s.Quiet ∧ s.log = []

end VfsSystem

/-- The server has produced the reply for the call's own request, the call has returned the value
and the bytes of this reply, and what was written was the call's data, to the file of its
descriptor. -/
structure Completed.Correct (vn : Vnodes World) (e : Completed World) : Prop where
  produced : ∃ storage, VfsState.processRequest vn e.call.request storage e.exchange.before =
    (e.exchange.reply, e.exchange.after)
  value : e.value = e.exchange.reply.status
  bytes : e.bytes = e.call.copyOut e.exchange.reply
  written : ∀ vnode buf len offset priv, .write vnode buf len offset priv ∈ e.exchange.after.calls →
    ∃ fd data n f, e.call = .write fd data n ∧ e.exchange.before.openFd fd = some f ∧
      vnode = f.vnode ∧ priv = f.priv ∧ offset = f.offset ∧
      buf = data.take (requestLen n).toNat

/-! ## What the server calls -/

namespace VfsState

variable {vn : Vnodes World}

@[simp]
theorem callVnode_calls (s : VfsState World) (c : VnodeCall) :
    (s.callVnode vn c).2.calls = s.calls ++ [c] := rfl

@[simp]
theorem setFd_calls (s : VfsState World) (fd : Nat) (f : FileDescriptor) :
    (s.setFd fd f).calls = s.calls := rfl

@[simp]
theorem advance_calls (s : VfsState World) (fd : Int) (f : FileDescriptor) (bytes : Int) :
    (s.advance fd f bytes).calls = s.calls := by
  unfold advance
  split_ifs <;> rfl

/-- A write is made for a request to write, to the file of its descriptor. -/
theorem write_mem_calls {req : VfsRequest} {storage : VfsReply} {s : VfsState World}
    (hs : s.calls = []) {vnode priv : Nat} {buf : List UInt8} {len offset : Int}
    (h : .write vnode buf len offset priv ∈ (processRequest vn req storage s).2.calls) :
    ∃ fd n f, req = .write fd n buf ∧ s.openFd fd = some f ∧ vnode = f.vnode ∧ priv = f.priv ∧
      offset = f.offset := by
  cases req with
  | write fd n data =>
    simp only [processRequest, withStatus, handleWrite] at h
    split at h
    next => simp [hs] at h
    next f hf =>
      simp only [advance_calls, callVnode_calls, hs, List.nil_append, List.mem_singleton] at h
      obtain ⟨rfl, rfl, -, rfl, rfl⟩ := h
      exact ⟨fd, n, f, rfl, hf, rfl, rfl, rfl⟩
  | zero => simp [processRequest, withStatus, hs] at h
  | mount =>
    simp only [processRequest, withStatus, mount] at h
    split at h <;> simp [hs] at h
  | unmount path =>
    simp only [processRequest, withStatus, unmount] at h
    split at h <;> simp [hs] at h
  | «open» path flags =>
    simp only [processRequest, withStatus, handleOpen, openAt] at h
    split at h
    next => simp [hs] at h
    next =>
      split at h
      next => simp [hs] at h
      next =>
        split at h
        next => simp [hs] at h
        next => split at h <;> simp [hs] at h
  | read fd n =>
    simp only [processRequest, handleRead] at h
    split at h <;> simp [hs] at h
  | lseek fd o whence =>
    simp only [processRequest, withStatus, handleLseek] at h
    split at h
    next => simp [hs] at h
    next f _ =>
      have hcalls : .write vnode buf len offset priv ∉ (s.newOffset vn f o whence).2.calls := by
        unfold newOffset
        split_ifs <;> simp [hs]
      split at h <;> exact absurd h hcalls
  | close fd =>
    simp only [processRequest, withStatus, handleClose] at h
    split at h <;> simp [hs] at h
  | ioctl =>
    simp only [processRequest, withStatus, handleIoctl] at h
    split at h <;> simp [hs] at h

end VfsState

/-! ## Runs -/

/-- The server has produced the reply for the call. -/
def Exchange.For (vn : Vnodes World) (x : Exchange World) (c : VfsCall) : Prop :=
  x.before.calls = [] ∧
    ∃ storage, VfsState.processRequest vn c.request storage x.before = (x.reply, x.after)

theorem Exchange.For.correct {vn : Vnodes World} {x : Exchange World} {c : VfsCall}
    (h : x.For vn c) (t : Nat) :
    Completed.Correct vn ⟨t, c, x, x.reply.status, c.copyOut x.reply⟩ where
  produced := h.2
  value := rfl
  bytes := rfl
  written vnode buf len offset priv hmem := by
    obtain ⟨hcalls, storage, hproc⟩ := h
    rw [show x.after = (VfsState.processRequest vn c.request storage x.before).2 by rw [hproc]]
      at hmem
    obtain ⟨fd, n, f, hreq, hf, hvnode, hpriv, hoffset⟩ := VfsState.write_mem_calls hcalls hmem
    cases c with
    | write fd' data n' =>
      simp only [VfsCall.request, VfsRequest.write.injEq] at hreq
      obtain ⟨rfl, -, hbuf⟩ := hreq
      exact ⟨fd', data, n', f, rfl, hf, hvnode, hpriv, hoffset, hbuf.symm⟩
    | _ => cases hreq

/-- The invariant of the runs in which calls do not overlap. -/
structure VfsSystem.Inv (vn : Vnodes World) (s : VfsSystem World) : Prop where
  alone : ∀ t t', s.phase t ≠ .idle → s.phase t' ≠ .idle → t = t'
  filled : ∀ t c, s.phase t = .filled c → s.req = c.request
  submitted : ∀ t c msg, s.phase t = .submitted c msg → msg = c.request
  served : ∀ t c x, s.phase t = .served c x → x.For vn c ∧ s.reply = x.reply
  log : ∀ e ∈ s.log, e.Correct vn

namespace VfsSystem

variable {vn : Vnodes World} {s s' : VfsSystem World} {t : Nat}

theorem exchange_for (s : VfsSystem World) {c : VfsCall} {req : VfsRequest} (h : req = c.request)
    (storage : VfsReply) : (s.exchange vn req storage).For vn c := by
  subst h
  exact ⟨rfl, storage, rfl⟩

/-- Only the task that is inside a call moves on. -/
theorem Inv.idle_of_ne (h : s.Inv vn) (ht : s.phase t ≠ .idle) {t' : Nat} (hne : t' ≠ t) :
    s.phase t' = .idle := by
  by_contra ht'
  exact hne (h.alone t' t ht' ht)

/-- The task `t` has moved to the phase `p`, and the others are idle. -/
theorem Inv.of_moved {p : Phase World} (hothers : ∀ t', t' ≠ t → s.phase t' = .idle)
    (hphase : s'.phase = update s.phase t p)
    (hfilled : ∀ c, p = .filled c → s'.req = c.request)
    (hsubmitted : ∀ c msg, p = .submitted c msg → msg = c.request)
    (hserved : ∀ c x, p = .served c x → x.For vn c ∧ s'.reply = x.reply)
    (hlog : ∀ e ∈ s'.log, e.Correct vn) : s'.Inv vn := by
  have hself : ∀ {t' : Nat} {q : Phase World}, q ≠ .idle → s'.phase t' = q → t' = t ∧ p = q := by
    intro t' q hq h
    rw [hphase] at h
    by_cases htt : t' = t
    · subst htt
      rw [update_self] at h
      exact ⟨rfl, h⟩
    · rw [update_of_ne htt, hothers t' htt] at h
      exact absurd h.symm hq
  refine ⟨?_, ?_, ?_, ?_, hlog⟩
  · intro t₁ t₂ h₁ h₂
    rw [(hself h₁ rfl).1, (hself h₂ rfl).1]
  · intro t' c h
    exact hfilled c (hself (by simp) h).2
  · intro t' c msg h
    exact hsubmitted c msg (hself (by simp) h).2
  · intro t' c x h
    exact hserved c x (hself (by simp) h).2

theorem Inv.step (h : s.Inv vn) (hstep : Step vn Quiet s s') : s'.Inv vn := by
  cases hstep with
  | fill c _ hquiet =>
    refine Inv.of_moved (fun t' _ => hquiet t') rfl (fun c' hc => ?_) nofun nofun h.log
    cases hc
    rfl
  | direct hphase =>
    refine Inv.of_moved (fun t' => h.idle_of_ne (by simp [hphase])) rfl nofun nofun
      (fun c' x hc => ?_) h.log
    cases hc
    exact ⟨exchange_for s (h.filled _ _ hphase) _, rfl⟩
  | submit hphase =>
    refine Inv.of_moved (fun t' => h.idle_of_ne (by simp [hphase])) rfl nofun
      (fun c' msg hc => ?_) nofun h.log
    cases hc
    exact h.filled _ _ hphase
  | serve storage hphase =>
    refine Inv.of_moved (fun t' => h.idle_of_ne (by simp [hphase])) rfl nofun nofun
      (fun c' x hc => ?_) h.log
    cases hc
    exact ⟨exchange_for s (h.submitted _ _ _ hphase) _, rfl⟩
  | copy hphase =>
    refine Inv.of_moved (fun t' => h.idle_of_ne (by simp [hphase])) rfl nofun nofun nofun
      (fun e he => ?_)
    rcases List.mem_cons.mp he with rfl | he
    · obtain ⟨hfor, hreply⟩ := h.served _ _ _ hphase
      rw [hreply]
      exact hfor.correct _
    · exact h.log e he

theorem Fresh.inv (h : s.Fresh) : s.Inv vn where
  alone t _ ht := absurd (h.1 t) ht
  filled t c ht := by rw [h.1 t] at ht; cases ht
  submitted t c msg ht := by rw [h.1 t] at ht; cases ht
  served t c x ht := by rw [h.1 t] at ht; cases ht
  log e he := by rw [h.2] at he; cases he

end VfsSystem

end AuroraOS.Vfs
