import PostfixEdm.Client.ClientConn
import PostfixEdm.Server.ServConn
import Mathlib.Logic.Function.Basic

/-!
# The server, its clients and the links between them

A client process has at most one connection at a time (`current`); a connection is a `Link`. `toServer`
and `toClient` hold, oldest first, the messages that one side has sent and the other has not handled:
those in a socket's buffers, those in flight and those still in `m_out_buf`.

* `Act` : what can happen; everything that the code does not determine is part of the act;
* `Net.step` : the effect of an act, `none` when it cannot happen;
* `Net.Settled` : a client whose connection is established and registered, with nothing under way.
-/

namespace PostfixEdm

/-- The server's end of a link: not accepted yet, a `cServConn` with its `client_type`, or closed. -/
inductive Side
  | pending
  | serving (clientType : UInt16)
  | closed
  deriving DecidableEq, Repr

structure Link (ι : Type) where
  owner : ι
  confirmed : Bool
  side : Side
  toServer : List OutPdu
  toClient : List OutPdu

structure Net (ι κ : Type) where
  manager : Manager
  worker : ι → Job
  current : ι → Option κ
  links : κ → Option (Link ι)

/-- The text of a client's heartbeat: a C string of less than `2^30` bytes. -/
structure HeartbeatText where
  text : List UInt8
  nul : 0 ∉ text
  size : text.length < 2 ^ 30

/-- What can happen. `clientType` is the value that `cServConn::cServConn` leaves unset. -/
inductive Act (ι κ : Type)
  | start (i : ι) (k : κ)
  | confirm (i : ι)
  | accept (k : κ) (clientType : UInt16)
  | command (c : AdminCommand)
  | serverRecv (k : κ) (heap : Heap) (env : Env) (look : Lookup)
  | clientRecv (i : ι) (heap : Heap) (env : Env)
  | clientHeartbeat (i : ι) (json : HeartbeatText)
  | clientDone (i : ι)
  | serverHeartbeat (k : κ)
  | serverTimer (onlineClientNum : UInt16)
  | clientClose (i : ι)
  | clientTimeout (i : ι) (k : κ)
  | serverClose (k : κ)

/-- `send_all_client_pdu` sends to this connection. -/
def Link.hears {ι : Type} (l : Link ι) : Bool :=
  match l.side with
  | .serving clientType => clientType ≠ clientPhp
  | _ => false

namespace Net

variable {ι κ : Type} [DecidableEq ι] [DecidableEq κ]

def init (onlineClientNum : UInt16) : Net ι κ :=
  ⟨.init onlineClientNum, fun _ => Worker.init, fun _ => none, fun _ => none⟩

def setLink (s : Net ι κ) (k : κ) (l : Link ι) : Net ι κ :=
  { s with links := Function.update s.links k (some l) }

/-- `send_all_client_pdu` of each PDU. -/
def broadcast (s : Net ι κ) (pdus : List OutPdu) : Net ι κ :=
  { s with links := fun k =>
      (s.links k).map fun l => if l.hears then { l with toClient := l.toClient ++ pdus } else l }

/-- `SendPdu` of each PDU on the server's end of a link. -/
def reply (s : Net ι κ) (k : κ) (pdus : List OutPdu) : Net ι κ :=
  match s.links k with
  | some l => s.setLink k { l with toClient := l.toClient ++ pdus }
  | none => s

/-- `connect_server`: a new link, with the PDUs that are sent on it before it is confirmed. -/
def connect (s : Net ι κ) (i : ι) (k : κ) (pdus : List OutPdu) : Net ι κ :=
  { s with current := Function.update s.current i (some k) }.setLink k ⟨i, false, .pending, pdus, []⟩

/-- `SendPdu` of each PDU on the client's connection, if it has one. -/
def clientSend (s : Net ι κ) (i : ι) (pdus : List OutPdu) : Option (Net ι κ) := do
  let k ← s.current i
  let l ← s.links k
  some (s.setLink k { l with toServer := l.toServer ++ pdus })

/-- `OnRead` of the server's end, for the oldest message. An exception closes the connection. -/
def serverRecv (s : Net ι κ) (k : κ) (heap : Heap) (env : Env) (look : Lookup) : Option (Net ι κ) := do
  let l ← s.links k
  match l.side, l.toServer with
  | .serving clientType, m :: rest =>
    match receive heap env m with
    | some (pdu, _) =>
      let h := ServConn.handlePdu look s.manager clientType pdu
      let s := { s with manager := h.manager }.setLink k { l with side := .serving h.clientType, toServer := rest }
      some ((s.broadcast h.broadcast).reply k h.replies)
    | none => some (s.setLink k { l with side := .closed, toServer := rest })
  | _, _ => none

/-- `OnRead` of a client, for the oldest message of its connection. An exception closes the connection. -/
def clientRecv (parse : JsonReader) (s : Net ι κ) (i : ι) (heap : Heap) (env : Env) : Option (Net ι κ) := do
  let k ← s.current i
  let l ← s.links k
  match l.toClient with
  | [] => none
  | m :: rest =>
    match receive heap env m with
    | some (pdu, mem) =>
      some ({ s with worker := Function.update s.worker i (ClientConn.handlePdu parse mem pdu (s.worker i)) }.setLink
        k { l with toClient := rest })
    | none => some { s with current := Function.update s.current i none }

def step (parse : JsonReader) : Act ι κ → Net ι κ → Option (Net ι κ)
  | .start i k, s =>
    if (s.links k).isNone then
      some ({ s with worker := Function.update s.worker i Worker.init }.connect i k ClientConn.initClientConn)
    else none
  | .confirm i, s => do
    let k ← s.current i
    let l ← s.links k
    if l.confirmed then none
    else some (s.setLink k { l with confirmed := true, toServer := l.toServer ++ ClientConn.onConfirm })
  | .accept k clientType, s => do
    let l ← s.links k
    if l.side = .pending then some (s.setLink k { l with side := .serving clientType }) else none
  | .command c, s =>
    let (pdu, manager) := s.manager.run c
    some ({ s with manager := manager }.broadcast [pdu])
  | .serverRecv k heap env look, s => s.serverRecv k heap env look
  | .clientRecv i heap env, s => s.clientRecv parse i heap env
  | .clientHeartbeat i json, s => s.clientSend i [.heartbeat json.text]
  | .clientDone i, s => s.clientSend i [.clientDone clientCpp]
  | .serverHeartbeat k, s => do
    let l ← s.links k
    if l.hears then some (s.reply k [.emptyHeartbeat]) else none
  | .serverTimer onlineClientNum, s =>
    some { s with manager := { s.manager with onlineClientNum := onlineClientNum } }
  | .clientClose i, s => do
    let _ ← s.current i
    some { s with current := Function.update s.current i none }
  | .clientTimeout i k, s => do
    let _ ← s.current i
    if (s.links k).isNone then some (s.connect i k []) else none
  | .serverClose k, s => do
    let l ← s.links k
    match l.side with
    | .serving _ => some (s.setLink k { l with side := .closed })
    | _ => none

/-- The client's connection is established and registered, no message is under way in either direction and
nothing is left to send. The registration is sent when the connection is confirmed. -/
def Settled (s : Net ι κ) (i : ι) : Prop :=
  ∃ k l, s.current i = some k ∧ s.links k = some l ∧ l.confirmed = true ∧
    (∃ clientType, l.side = .serving clientType) ∧ l.toServer = [] ∧ l.toClient = []

end Net

end PostfixEdm
