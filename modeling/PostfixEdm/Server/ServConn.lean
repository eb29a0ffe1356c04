import PostfixEdm.Conn.Receive
import PostfixEdm.Server.StatusInfo

/-!
# The server: `cManager` and `cServConn::HandlePdu`

* `Manager` : the job state, with the two numbers of the monitor that a status reply carries. A command
  returns the PDU it broadcasts and the manager after it;
* `Handled` : what one `HandlePdu` does;
* `ServConn.handlePdu` : the dispatch on the type of the PDU, and the handlers;
* `ServConn.handlePdu_carries` : what the server does with each message a client's code sends.
-/

namespace PostfixEdm

structure Manager where
  job : Job
  totalNum : UInt64
  onlineClientNum : UInt16
  deriving DecidableEq, Repr

namespace Manager

/-- `cManager::cManager`; the monitor's count of clients is set by a timer only. -/
def init (onlineClientNum : UInt16) : Manager := ⟨⟨cidCommandStop, 0, 1⟩, 0, onlineClientNum⟩

/-- `totalNum` is what `_getTotalNum` finds in the database. -/
def start (totalNum : UInt64) (mgr : Manager) : OutPdu × Manager :=
  (.serverCommand cidCommandStart,
    { mgr with totalNum := totalNum, job := { mgr.job with status := cidCommandStart } })

def stop (mgr : Manager) : OutPdu × Manager :=
  (.serverCommand cidCommandStop, { mgr with job := { mgr.job with status := cidCommandStop } })

def pause (mgr : Manager) : OutPdu × Manager :=
  (.serverCommand cidCommandPause, { mgr with job := { mgr.job with status := cidCommandPause } })

def resume (mgr : Manager) : OutPdu × Manager :=
  (.serverCommand cidCommandResume, { mgr with job := { mgr.job with status := cidCommandResume } })

def adjustSendRate (delay multi : UInt16) (mgr : Manager) : OutPdu × Manager :=
  (.adjustRate delay multi, { mgr with job := { mgr.job with delay := delay, multi := multi } })

end Manager

/-- The commands of an administrator. -/
inductive AdminCommand
  | start (totalNum : UInt64)
  | stop
  | pause
  | resume
  | adjustSendRate (delay multi : UInt16)

namespace Manager

def run (mgr : Manager) : AdminCommand → OutPdu × Manager
  | .start totalNum => mgr.start totalNum
  | .stop => mgr.stop
  | .pause => mgr.pause
  | .resume => mgr.resume
  | .adjustSendRate delay multi => mgr.adjustSendRate delay multi

def statusInfo (mgr : Manager) : ServerStatusInfo := ⟨mgr.job, mgr.totalNum, mgr.onlineClientNum⟩

end Manager

/-- What the handlers look up elsewhere: two counts of the database, and the text about all clients. -/
structure Lookup where
  totalNum : UInt64
  sentEmailNum : Int
  allClientStatus : List UInt8

inductive Handler
  | handleHeartBeat | handleClientData | handleServerCommand | handleServerAdjustRate
  | handleRegClientType | handleServerStatusInfo | handleAllClientStatusInfo | handleClientDone
  deriving DecidableEq, Repr

/-- What one `HandlePdu` does: the handler it calls, the manager and the client type after it, the PDUs for
all clients and then the ones for this connection. -/
structure Handled where
  handler : Option Handler
  manager : Manager
  clientType : UInt16
  broadcast : List OutPdu
  replies : List OutPdu

/-- "操作成功" -/
def successText : List UInt8 := [0xE6, 0x93, 0x8D, 0xE4, 0xBD, 0x9C, 0xE6, 0x88, 0x90, 0xE5, 0x8A, 0x9F]

/-- "操作失败" -/
def failureText : List UInt8 := [0xE6, 0x93, 0x8D, 0xE4, 0xBD, 0x9C, 0xE5, 0xA4, 0xB1, 0xE8, 0xB4, 0xA5]

def serverHeartbeatInterval : UInt64 := 5000

def clientTimeout : UInt64 := 30000

namespace ServConn

/-- The switch of `_HandleServerCommand`; `none` leaves `ret` at -1. -/
def runCommand (look : Lookup) (command : UInt16) (mgr : Manager) : Option (OutPdu × Manager) :=
  if command = cidCommandStart then some (mgr.start look.totalNum)
  else if command = cidCommandStop then some mgr.stop
  else if command = cidCommandPause then some mgr.pause
  else if command = cidCommandResume then some mgr.resume
  else none

/-- `cServConn::HandlePdu`. What `_HandleHeartBeat` tells the monitor about a client is left out. -/
def handlePdu (look : Lookup) (mgr : Manager) (clientType : UInt16) (pdu : CImPdu) : Handled :=
  match pdu.body with
  | .heartbeat _ _ => ⟨some .handleHeartBeat, mgr, clientType, [], []⟩
  | .clientData _ _ => ⟨some .handleClientData, mgr, clientType, [], [.response 0 successText]⟩
  | .serverCommand command =>
    match runCommand look command mgr with
    | some (pdu, mgr) => ⟨some .handleServerCommand, mgr, clientType, [pdu], [.response 0 successText]⟩
    | none => ⟨some .handleServerCommand, mgr, clientType, [], [.response (-1) failureText]⟩
  | .adjustRate delay multi =>
    let (pdu, mgr) := mgr.adjustSendRate delay multi
    ⟨some .handleServerAdjustRate, mgr, clientType, [pdu], [.response 0 successText]⟩
  | .regClientType type => ⟨some .handleRegClientType, mgr, type, [], []⟩
  | .serverStatusInfo _ _ =>
    ⟨some .handleServerStatusInfo, mgr, clientType, [], [.serverStatusInfo mgr.statusInfo.serialize]⟩
  | .allClientStatusInfo =>
    ⟨some .handleAllClientStatusInfo, mgr, clientType, [], [.allClientStatusInfo look.allClientStatus]⟩
  | .clientDone =>
    if look.sentEmailNum = 0 then
      ⟨some .handleClientDone, mgr.pause.2, clientType, [mgr.pause.1], []⟩
    else ⟨some .handleClientDone, mgr, clientType, [], []⟩
  | .response _ _ _ => ⟨none, mgr, clientType, [], []⟩

/-! ## The messages of a client -/

/-- The handler, the client type and the replies for a message that a client's code sends. -/
def answer (mgr : Manager) (clientType : UInt16) : OutPdu → Handled
  | .serverStatusRequest =>
    ⟨some .handleServerStatusInfo, mgr, clientType, [], [.serverStatusInfo mgr.statusInfo.serialize]⟩
  | .clientData _ => ⟨some .handleClientData, mgr, clientType, [], [.response 0 successText]⟩
  | .heartbeat _ => ⟨some .handleHeartBeat, mgr, clientType, [], []⟩
  | .regClientType type => ⟨some .handleRegClientType, mgr, type, [], []⟩
  | _ => ⟨none, mgr, clientType, [], []⟩

end ServConn

/-- The messages that the client's code sends, completion reports apart. -/
def OutPdu.FromClient : OutPdu → Prop
  | .serverStatusRequest | .clientData _ | .heartbeat _ => True
  | .regClientType type => type = clientCpp
  | _ => False

namespace ServConn

theorem framed_of_fromClient {m : OutPdu} (h : m.FromClient) : m.Framed := by
  cases m with
  | serverStatusRequest | clientData _ | heartbeat _ | regClientType _ => trivial
  | _ => exact h.elim

/-- A decoded message of a client is answered as the message asks. -/
theorem handlePdu_carries {look : Lookup} {mgr : Manager} {clientType : UInt16} {m : OutPdu}
    (h : m.FromClient) {mem : Nat → UInt8} {pdu : CImPdu} (hcar : m.Carries mem pdu.body) :
    handlePdu look mgr clientType pdu = answer mgr clientType m := by
  unfold handlePdu
  cases m with
  | serverStatusRequest =>
    obtain ⟨p, n, hbd⟩ := hcar
    rw [hbd]
    rfl
  | clientData s | heartbeat s =>
    obtain ⟨p, n, hbd, -⟩ := hcar
    rw [hbd]
    rfl
  | regClientType t =>
    rw [show pdu.body = .regClientType t from hcar]
    rfl
  | _ => exact h.elim

/-- The replies of the server fit a frame. -/
theorem encodable_of_mem_replies {mgr : Manager} {clientType : UInt16} {m reply : OutPdu}
    (h : reply ∈ (answer mgr clientType m).replies) : reply.Encodable ∧ reply.Framed := by
  cases m with
  | serverStatusRequest =>
    rw [List.mem_singleton.mp h]
    have := mgr.statusInfo.length_serialize_le
    refine ⟨⟨?_, ?_⟩, trivial⟩
    · simp only [OutPdu.body, CByteStreamOut.length_lengthPrefixed]
      omega
    · intro s hs
      rw [List.mem_singleton.mp hs]
      exact mgr.statusInfo.nul_notMem_serialize
  | clientData s =>
    rw [List.mem_singleton.mp h]
    exact ⟨⟨by decide, by decide⟩, trivial⟩
  | _ => cases h

end ServConn

end PostfixEdm
