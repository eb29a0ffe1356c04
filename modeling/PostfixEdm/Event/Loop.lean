import PostfixEdm.Conn.Read
import PostfixEdm.Lib.RefTable
import PostfixEdm.Pdu.Encode
import Mathlib.Data.List.Sort

/-!
# The event loop: `CEventDispatch`, `CBaseSocket`, `netlib` and `imconn_callback`

Sockets and connections are objects that count their references. `g_socket_map` finds the sockets, the map of the
program finds its connections, both by the descriptor. Nothing that is gone may be used, and no result of
`FindBaseSocket` that is NULL may be dereferenced: such code halts.

* `CBaseSocket`, `Conn` : the two kinds of objects; `LoopEnv` : what a step meets;
* `Loop` : the two tables and what else the program has (`world`);
* `ConnClass` : the methods in which `cServConn` and `cClientConn` differ;
* `Loop.send`, `Loop.onRead`, `Loop.onWrite` : the methods of `CImConn`, with the references that their calls of
  `netlib` take and give back;
* `Loop.imconnCallback`, `Loop.baseOnRead`, `Loop.baseOnWrite`, `Loop.baseOnClose`, `Loop.event` : from the event
  of a descriptor down to the connection.
-/

namespace PostfixEdm

/-- `net_handle_t`; an open descriptor is not negative. -/
abbrev Fd := Int

/-- `NETLIB_INVALID_HANDLE` -/
abbrev invalidHandle : Fd := -1

theorem natCast_ne_invalidHandle (n : Nat) : (n : Fd) ≠ invalidHandle := by
  intro heq
  have hnat := Int.natCast_nonneg n
  rw [heq] at hnat
  exact absurd hnat (by decide)

/-- `SOCKET_STATE_…` -/
inductive SocketState
  | idle | listening | connecting | connected | closing
  deriving DecidableEq, Repr

/-- The functions that `m_callback` may point to. -/
inductive Callback
  | serverCallback | imconnCallback
  deriving DecidableEq, Repr

/-- `callbackData` : `m_callback_data` points to the map of connections, and is not NULL. -/
structure CBaseSocket where
  socket : Fd
  state : SocketState
  callback : Callback
  callbackData : Bool
  deriving DecidableEq, Repr

/-- A connection: `im` are its buffers, `data` is what its class adds. -/
structure Conn (κ : Type) where
  handle : Fd
  im : CImConn
  lastSendTick : UInt64
  lastRecvTick : UInt64
  data : κ

/-- In which order an iterator visits the entries of a `hash_map`. -/
structure KeyOrder where
  list : Finset Fd → List Fd
  nodup : ∀ keys, (list keys).Nodup
  mem : ∀ keys fd, fd ∈ list keys ↔ fd ∈ keys

/-- What a step of the loop meets: the readings of `get_tick_count` that follow, the indeterminate bytes of a
growth, the answers of the sockets to each `Send` and `OnWrite` that follows, and the order of the map's entries. -/
structure LoopEnv where
  now : Nat → UInt64
  heap : Heap
  sockets : Nat → Socket
  order : KeyOrder

/-- The visits go from the smallest descriptor to the largest. -/
def KeyOrder.ascending : KeyOrder where
  list := fun keys => Quot.liftOn keys.val (fun l => l.insertionSort (· ≤ ·)) fun l l' h =>
    (((l.perm_insertionSort (· ≤ ·)).trans h).trans (l'.perm_insertionSort (· ≤ ·)).symm).eq_of_pairwise'
      (l.pairwise_insertionSort (· ≤ ·)) (l'.pairwise_insertionSort (· ≤ ·))
  nodup := fun ⟨keys, hkeys⟩ => by
    induction keys using Quot.ind with
    | mk l => exact (l.perm_insertionSort (· ≤ ·)).nodup_iff.mpr hkeys
  mem := fun ⟨keys, _⟩ fd => by
    induction keys using Quot.ind with
    | mk l => exact List.mem_insertionSort (· ≤ ·)

/-- The clock stands still, and no socket takes anything. -/
def LoopEnv.quiet (now : UInt64) : LoopEnv := ⟨fun _ => now, fun _ _ => 0, fun _ _ => .wouldBlock, .ascending⟩

structure Loop (κ ω : Type) where
  sockets : RefTable Fd CBaseSocket
  conns : RefTable Fd (Conn κ)
  world : ω
  env : LoopEnv

/-- What `OnRead` of a socket meets: the descriptors that `accept` returns, whether `FIONREAD` finds bytes, and
what `CImConn::OnRead` meets. -/
structure ReadInput where
  accepted : List Fd
  avail : Bool
  call : ReadCall
  fuel : Nat

/-- `NETLIB_MSG_…` -/
inductive NetlibMsg
  | connect | confirm
  | read (input : ReadInput)
  | write | close

/-- What a socket that does not listen tells its callback when it can be read. -/
def ReadInput.msg (input : ReadInput) : NetlibMsg := if input.avail then .read input else .close

/-- The virtual methods of a class of connections, by the object, and what `serverCallback` does with a new
descriptor. -/
structure ConnClass (κ ω : Type) where
  onConnect : Fd → Loop κ ω → Except Halt (Loop κ ω)
  onConfirm : Nat → Loop κ ω → Except Halt (Loop κ ω)
  handlePdu : Nat → CImPdu → List UInt8 → Loop κ ω → Except Halt (Loop κ ω)
  onClose : Nat → Loop κ ω → Except Halt (Loop κ ω)

namespace Loop

variable {κ ω : Type}

/-! ## References -/

/-- `FindBaseSocket` -/
def findBaseSocket (s : Loop κ ω) (fd : Fd) : Except Halt (Option Nat × Loop κ ω) := do
  let (p, sockets) ← s.sockets.find fd
  .ok (p, { s with sockets := sockets })

def releaseSocket (s : Loop κ ω) (id : Nat) : Except Halt (Loop κ ω) := do
  let sockets ← s.sockets.releaseRef id
  .ok { s with sockets := sockets }

def modifySocket (s : Loop κ ω) (id : Nat) (f : CBaseSocket → CBaseSocket) : Except Halt (Loop κ ω) := do
  let sockets ← s.sockets.modify id f
  .ok { s with sockets := sockets }

/-- `FindImConn` -/
def findImConn (s : Loop κ ω) (fd : Fd) : Except Halt (Option Nat × Loop κ ω) := do
  let (p, conns) ← s.conns.find fd
  .ok (p, { s with conns := conns })

def releaseConn (s : Loop κ ω) (id : Nat) : Except Halt (Loop κ ω) := do
  let conns ← s.conns.releaseRef id
  .ok { s with conns := conns }

def modifyConn (s : Loop κ ω) (id : Nat) (f : Conn κ → Conn κ) : Except Halt (Loop κ ω) := do
  let conns ← s.conns.modify id f
  .ok { s with conns := conns }

/-! ## `netlib` -/

/-- `netlib_send`, `netlib_recv` and `netlib_option` : the socket is found, does `f`, and is released. -/
def netlibCall (fd : Fd) (f : CBaseSocket → CBaseSocket) (s : Loop κ ω) : Except Halt (Loop κ ω) := do
  let (p, s) ← s.findBaseSocket fd
  match p with
  | none => .ok s
  | some id => do
    let s ← s.modifySocket id f
    s.releaseSocket id

/-- What a send or a receive does to the socket object. -/
def netlibUse (fd : Fd) (s : Loop κ ω) : Except Halt (Loop κ ω) := s.netlibCall fd id

/-- `FindBaseSocket`, the remote address, `ReleaseRef`. The result is not checked. -/
def remoteAddress (fd : Fd) (s : Loop κ ω) : Except Halt (Loop κ ω) := do
  let (p, s) ← s.findBaseSocket fd
  match p with
  | none => .error .null
  | some id => do
    let _ ← s.sockets.get id
    s.releaseSocket id

/-- `CBaseSocket::Close` -/
def closeSocket (id : Nat) (s : Loop κ ω) : Except Halt (Loop κ ω) := do
  let sock ← s.sockets.get id
  { s with sockets := s.sockets.erase sock.socket }.releaseSocket id

/-- `netlib_close` -/
def netlibClose (fd : Fd) (s : Loop κ ω) : Except Halt (Loop κ ω) := do
  let (p, s) ← s.findBaseSocket fd
  match p with
  | none => .ok s
  | some id => do
    let s ← s.closeSocket id
    s.releaseSocket id

/-- `m_handle` is set, and the program's map gets an entry for it. -/
def openHandle (id : Nat) (handle : Fd) (s : Loop κ ω) : Except Halt (Loop κ ω) := do
  let s ← s.modifyConn id fun c => { c with handle := handle }
  .ok { s with conns := s.conns.insert handle id }

/-- `netlib_close`, and the entry leaves the program's map. -/
def dropHandle (fd : Fd) (s : Loop κ ω) : Except Halt (Loop κ ω) := do
  let s ← s.netlibClose fd
  .ok { s with conns := s.conns.erase fd }

/-- What the socket of a descriptor answers: an error if there is none or it is not connected. -/
def answers (s : Loop κ ω) (fd : Fd) : Socket :=
  match s.sockets.registered fd with
  | some sock => if sock.state = .connected then s.env.sockets 0 else fun _ => .error
  | none => fun _ => .error

/-- A reading of the clock has been used. -/
def nextTick (s : Loop κ ω) : Loop κ ω :=
  { s with env := { s.env with now := fun i => s.env.now (i + 1) } }

/-- The answers for the next `Send`. -/
def nextSend (s : Loop κ ω) : Loop κ ω :=
  { s with env := { s.env with sockets := fun i => s.env.sockets (i + 1) } }

/-! ## The methods of `CImConn` -/

/-- `CImConn::Send` -/
def send (id : Nat) (data : List UInt8) (s : Loop κ ω) : Except Halt (Loop κ ω) := do
  let c ← s.conns.get id
  let socket := s.answers c.handle
  let heap := s.env.heap
  let s ← (c.im.sendCalls socket data).foldlM (fun s _ => s.netlibUse c.handle) s
  let s ← s.modifyConn id fun c => { c with lastSendTick := s.env.now 0, im := (c.im.send heap socket data).2 }
  .ok s.nextTick.nextSend

/-- `CImConn::SendPdu` -/
def sendPdu (id : Nat) (pdu : OutPdu) (s : Loop κ ω) : Except Halt (Loop κ ω) :=
  s.send id (pdu.encode s.env.heap).contents

/-- `CImConn::OnWrite` -/
def onWrite (id : Nat) (s : Loop κ ω) : Except Halt (Loop κ ω) := do
  let c ← s.conns.get id
  let socket := s.answers c.handle
  let s ← (c.im.writeCalls socket).foldlM (fun s _ => s.netlibUse c.handle) s
  let s ← s.modifyConn id fun c => { c with im := (c.im.onWrite socket).2 }
  .ok s.nextSend

/-- What the first loop of `CImConn::OnRead` receives. -/
def received (s : Loop κ ω) (fd : Fd) (call : ReadCall) : List (List UInt8) :=
  match s.sockets.registered fd with
  | some _ => call.chunks.flatMap (Framing.slices readBufSize.toNat)
  | none => []

/-- `CImConn::OnRead` : one `netlib_recv` for each piece and one that gets nothing, then the second loop. An
exception is followed by `OnClose`. -/
def onRead (cls : ConnClass κ ω) (input : ReadInput) (id : Nat) (s : Loop κ ω) : Except Halt (Loop κ ω) := do
  let c ← s.conns.get id
  let pieces := s.received c.handle input.call
  let s ← ([] :: pieces).foldlM (fun s _ => s.netlibUse c.handle) s
  let im := recvLoop input.call.heap pieces c.im
  let s ← s.modifyConn id fun c =>
    { c with im := im, lastRecvTick := if pieces = [] then c.lastRecvTick else s.env.now 0 }
  let s := s.nextTick
  if im.policyConn then .ok s
  else
    match policyReply im with
    | some content => do
      let s ← s.modifyConn id fun c => { c with im := { c.im with policyConn := true } }
      s.send id content
    | none =>
      match parseLoop (fun st pdu buf => st >>= cls.handlePdu id pdu buf) input.fuel input.call.envs (.ok s)
          im.inBuf with
      | none => .error .endless
      | some r => do
        let s ← r.state
        let s ← s.modifyConn id fun c => { c with im := { c.im with inBuf := r.inBuf } }
        if r.thrown.isSome then cls.onClose id s else .ok s

/-- `ReadPdu` throws on what `CImConn::OnRead` has buffered. -/
def throws (s : Loop κ ω) (input : ReadInput) (c : Conn κ) : Bool :=
  let im := recvLoop input.call.heap (s.received c.handle input.call) c.im
  if im.policyConn then false
  else
    match parseLoop (fun _ _ _ => ()) input.fuel input.call.envs () im.inBuf with
    | some r => r.thrown.isSome
    | none => false

/-! ## From the descriptor to the connection -/

/-- The switch of `imconn_callback` -/
def onMsg (cls : ConnClass κ ω) (msg : NetlibMsg) (id : Nat) (s : Loop κ ω) : Except Halt (Loop κ ω) :=
  match msg with
  | .confirm => cls.onConfirm id s
  | .read input => s.onRead cls input id
  | .write => s.onWrite id
  | .close => cls.onClose id s
  | .connect => .ok s

/-- `imconn_callback` with the program's map -/
def imconnCallback (cls : ConnClass κ ω) (msg : NetlibMsg) (handle : Fd) (s : Loop κ ω) :
    Except Halt (Loop κ ω) := do
  let (p, s) ← s.findImConn handle
  match p with
  | none => .ok s
  | some id => do
    let s ← s.onMsg cls msg id
    s.releaseConn id

/-- A message after which `imconn_callback` has closed the connection. -/
def closesOn (s : Loop κ ω) (msg : NetlibMsg) (handle : Fd) : Bool :=
  match s.conns.registered handle with
  | none => false
  | some c =>
    match msg with
    | .close => true
    | .read input => s.throws input c
    | .connect | .confirm | .write => false

/-- A call of `m_callback(m_callback_data, msg, handle, NULL)`. -/
def invoke (cls : ConnClass κ ω) (callback : Callback) (callbackData : Bool) (msg : NetlibMsg) (handle : Fd)
    (s : Loop κ ω) : Except Halt (Loop κ ω) :=
  match callback with
  | .serverCallback =>
    match msg with
    | .connect => cls.onConnect handle s
    | _ => .ok s
  | .imconnCallback => if callbackData then s.imconnCallback cls msg handle else .ok s

/-- `CBaseSocket::_AcceptNewSocket` -/
def acceptNewSocket (cls : ConnClass κ ω) (id : Nat) (accepted : List Fd) (s : Loop κ ω) :
    Except Halt (Loop κ ω) :=
  accepted.foldlM (fun s fd => do
    let sock ← s.sockets.get id
    let (new, sockets) := s.sockets.new ⟨fd, .connected, sock.callback, sock.callbackData⟩
    { s with sockets := sockets.insert fd new }.invoke cls sock.callback sock.callbackData .connect fd) s

/-- `CBaseSocket::OnRead` -/
def baseOnRead (cls : ConnClass κ ω) (input : ReadInput) (id : Nat) (s : Loop κ ω) :
    Except Halt (Loop κ ω) := do
  let sock ← s.sockets.get id
  if sock.state = .listening then s.acceptNewSocket cls id input.accepted
  else s.invoke cls sock.callback sock.callbackData input.msg sock.socket

/-- `CBaseSocket::OnWrite`; `soError` is what `getsockopt` finds. -/
def baseOnWrite (cls : ConnClass κ ω) (soError : Bool) (id : Nat) (s : Loop κ ω) :
    Except Halt (Loop κ ω) := do
  let sock ← s.sockets.get id
  if sock.state = .connecting then
    if soError then s.invoke cls sock.callback sock.callbackData .close sock.socket
    else do
      let s ← s.modifySocket id fun sock => { sock with state := .connected }
      s.invoke cls sock.callback sock.callbackData .confirm sock.socket
  else s.invoke cls sock.callback sock.callbackData .write sock.socket

/-- `CBaseSocket::OnClose` -/
def baseOnClose (cls : ConnClass κ ω) (id : Nat) (s : Loop κ ω) : Except Halt (Loop κ ω) := do
  let sock ← s.sockets.get id
  let s ← s.modifySocket id fun sock => { sock with state := .closing }
  s.invoke cls sock.callback sock.callbackData .close sock.socket

/-- An entry of what `epoll_wait` returns: the flags that are set, `epollin` and `epollout` with what the handler
meets; `epollhup` stands for any of `EPOLLPRI`, `EPOLLERR` and `EPOLLHUP`. -/
structure Event where
  fd : Fd
  epollin : Option ReadInput
  epollout : Option Bool
  epollhup : Option Unit

/-- `if (events & flag)` -/
def ifSet {β : Type} (flag : Option β) (handler : β → Loop κ ω → Except Halt (Loop κ ω)) (s : Loop κ ω) :
    Except Halt (Loop κ ω) :=
  match flag with
  | some b => handler b s
  | none => .ok s

/-- One entry in `CEventDispatch::StartDispatch` -/
def event (cls : ConnClass κ ω) (ev : Event) (s : Loop κ ω) : Except Halt (Loop κ ω) := do
  let (p, s) ← s.findBaseSocket ev.fd
  match p with
  | none => .ok s
  | some id => do
    let s ← s.ifSet ev.epollin fun input => baseOnRead cls input id
    let s ← s.ifSet ev.epollout fun soError => baseOnWrite cls soError id
    let s ← s.ifSet ev.epollhup fun () => baseOnClose cls id
    s.releaseSocket id

/-- `for` over the entries that the program's map has at the start. An entry that is gone when its turn comes
would be a dangling iterator. -/
def forEachConn (f : Nat → Loop κ ω → Except Halt (Loop κ ω)) (s : Loop κ ω) : Except Halt (Loop κ ω) :=
  (s.env.order.list s.conns.map.keys).foldlM (fun s fd =>
    match s.conns.map.lookup fd with
    | none => .error .destroyed
    | some id => f id s) s

end Loop

end PostfixEdm
