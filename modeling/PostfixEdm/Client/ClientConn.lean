import PostfixEdm.Conn.Receive
import PostfixEdm.Server.StatusInfo

/-!
# The client: `cClientConn`

* `Worker.init` : the job state of a fresh `cWorker`;
* `ClientConn.initClientConn`, `ClientConn.onConfirm` : what a client sends at its start and when a
  connection is confirmed;
* `ClientConn.handlePdu` : what a message of the server does to the worker; `ClientConn.apply` is the same by
  message, and `ClientConn.handlePdu_carries` the agreement of the two.
-/

namespace PostfixEdm

/-- `cWorker::cWorker` -/
def Worker.init : Job := ⟨0, 0, 1⟩

namespace ClientConn

/-- The PDU of `init_client_conn`. -/
def initClientConn : List OutPdu := [.serverStatusRequest]

/-- The PDUs of `OnConfirm`. -/
def onConfirm : List OutPdu := [.regClientType clientCpp, .clientData (ascii "hello world")]

variable (parse : JsonReader)

/-- `cClientConn::HandlePdu` -/
def handlePdu (mem : Nat → UInt8) (pdu : CImPdu) (worker : Job) : Job :=
  match pdu.body with
  | .heartbeat _ _ => worker
  | .response _ _ _ => worker
  | .serverCommand serverCommand => { worker with status := serverCommand }
  | .adjustRate delay multi => { worker with multi := multi, delay := delay }
  | .serverStatusInfo jsonData jsonDataLen =>
    let info := ServerStatusInfo.unserialize parse (viewString mem jsonData jsonDataLen)
    { status := info.job.status, multi := info.job.multi, delay := info.job.delay }
  | _ => worker

/-- What a message of the server means to a worker. -/
def apply (worker : Job) : OutPdu → Job
  | .serverCommand serverCommand => { worker with status := serverCommand }
  | .adjustRate delay multi => { worker with multi := multi, delay := delay }
  | .serverStatusInfo json => (ServerStatusInfo.unserialize parse json).job
  | _ => worker

end ClientConn

/-- The messages that the server's code sends to a client. -/
def OutPdu.FromServer : OutPdu → Prop
  | .serverCommand _ | .adjustRate _ _ | .serverStatusInfo _ | .response _ _ | .emptyHeartbeat => True
  | _ => False

/-- A decoded message of the server does what the message means. -/
theorem ClientConn.handlePdu_carries (parse : JsonReader) {m : OutPdu} (h : m.FromServer)
    {mem : Nat → UInt8} {pdu : CImPdu} (hcar : m.Carries mem pdu.body) (worker : Job) :
    handlePdu parse mem pdu worker = apply parse worker m := by
  unfold handlePdu
  cases m with
  | serverCommand c | adjustRate d n =>
    rw [show pdu.body = _ from hcar]
    rfl
  | serverStatusInfo json =>
    obtain ⟨p, n, hbd, hs⟩ := hcar
    rw [hbd]
    dsimp only
    rw [viewString_of_holds hs]
    rfl
  | response st s =>
    obtain ⟨p, n, hbd, -⟩ := hcar
    rw [hbd]
    rfl
  | emptyHeartbeat =>
    obtain ⟨p, n, hbd⟩ := hcar
    rw [hbd]
    rfl
  | _ => exact h.elim

end PostfixEdm
