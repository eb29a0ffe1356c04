import PostfixEdm.Client.ClientConn
import PostfixEdm.Server.Registry

/-!
# Payloads that do not parse

The two receivers of a JSON payload go by the result of `unserialize`, which is 0 for every text.

* `ClientConn.handleServerStatusInfo` : `_HandleServerStatusInfo`, by the result of `unserialize`;
* `Payload.KeepsWorker`, `Payload.KeepsRegistry`, `Payload.Reported` : a payload changes nothing on the client or
  on the server, and `unserialize` says that it is not one;
* `Payload.rejected` : what a payload that does not parse does instead.
-/

namespace PostfixEdm

/-- `unserialize` of a fresh object, with its result. -/
def ServerStatusInfo.unserializeResult (parse : JsonReader) (text : List UInt8) : Int × ServerStatusInfo :=
  (0, unserialize parse text)

/-- `_HandleServerStatusInfo` of a payload -/
def ClientConn.handleServerStatusInfo (parse : JsonReader) (jsonData : List UInt8) (worker : Job) : Job :=
  let (ret, info) := ServerStatusInfo.unserializeResult parse jsonData
  if ret = 0 then { status := info.job.status, multi := info.job.multi, delay := info.job.delay } else worker

/-- The handler is what `HandlePdu` does with a status PDU. -/
theorem ClientConn.handlePdu_serverStatusInfo (parse : JsonReader) (mem : Nat → UInt8) {pdu : CImPdu} {jsonData : Ptr}
    {jsonDataLen : UInt32} (h : pdu.body = .serverStatusInfo jsonData jsonDataLen) (worker : Job) :
    handlePdu parse mem pdu worker = handleServerStatusInfo parse (viewString mem jsonData jsonDataLen) worker := by
  unfold handlePdu
  rw [h]
  rfl

namespace Payload

variable (parse : JsonReader) (parseStatus : ClientStatusReader) (payload : List UInt8)

/-- The reader takes a payload up to its first NUL, and finds no JSON text. -/
def Rejected : Prop := parse (cstr payload) = none ∧ parseStatus (cstr payload) = none

def KeepsWorker (worker : Job) : Prop := ClientConn.handleServerStatusInfo parse payload worker = worker

/-- The server goes on, and its map is as it was. -/
def KeepsRegistry (maps : ClientStatusMap) : Prop := ServConn.handleHeartBeat parseStatus maps payload = .ok maps

/-- Neither `unserialize` returns 0. -/
def Reported : Prop :=
  (ServerStatusInfo.unserializeResult parse payload).1 ≠ 0 ∧ (ClientStatusInfo.unserialize parseStatus payload).1 ≠ 0

variable {parse parseStatus payload}

/-- A worker gets the defaults of `server_status_info`. -/
theorem keepsWorker_iff (h : parse (cstr payload) = none) (worker : Job) :
    KeepsWorker parse payload worker ↔ worker = ServerStatusInfo.default.job := by
  have hdefault : ServerStatusInfo.unserialize parse payload = ServerStatusInfo.default := by
    rw [ServerStatusInfo.unserialize, h]
    rfl
  unfold KeepsWorker ClientConn.handleServerStatusInfo ServerStatusInfo.unserializeResult
  rw [hdefault]
  exact eq_comm

/-- The monitor gets an object without an ip. -/
theorem handleHeartBeat_rejected (h : parseStatus (cstr payload) = none) (maps : ClientStatusMap) :
    ServConn.handleHeartBeat parseStatus maps payload = .error .null := by
  have hdefault : (ClientStatusInfo.unserialize parseStatus payload).2 = ClientStatusInfo.default := by
    rw [ClientStatusInfo.unserialize, h]
  rw [ServConn.handleHeartBeat_eq, hdefault]
  exact Monitoring.updateClientStatus_null maps rfl

/-- A payload that does not parse leaves a worker alone only if that is stopped at the default rate, ends the
server, and is not reported. -/
theorem rejected (h : Rejected parse parseStatus payload) (worker : Job) (maps : ClientStatusMap) :
    (KeepsWorker parse payload worker ↔ worker = ServerStatusInfo.default.job) ∧
      ¬ KeepsRegistry parseStatus payload maps ∧ ¬ Reported parse parseStatus payload := by
  refine ⟨keepsWorker_iff h.1 worker, fun hkeeps => ?_, fun hreported => hreported.1 rfl⟩
  unfold KeepsRegistry at hkeeps
  rw [handleHeartBeat_rejected h.2] at hkeeps
  cases hkeeps

/-- A text without an object in it, for readers that know what clients and servers write. -/
theorem rejected_text : ¬ KeepsWorker digitReader (ascii "status") ⟨cidCommandStart, 10, 4⟩ ∧
    ¬ KeepsRegistry Registry.heartbeatReader (ascii "status") fun _ => none := by
  have h : Rejected digitReader Registry.heartbeatReader (ascii "status") := ⟨by decide, by decide⟩
  obtain ⟨hworker, hregistry, _⟩ := rejected h ⟨cidCommandStart, 10, 4⟩ fun _ => none
  exact ⟨fun hkeeps => absurd (hworker.mp hkeeps) (by decide), hregistry⟩

/-- The same text stops a worker that sends, ends the server, and is not reported. -/
theorem not_unchanged : ∃ payload, Rejected digitReader Registry.heartbeatReader payload ∧
    ClientConn.handleServerStatusInfo digitReader payload ⟨cidCommandStart, 10, 4⟩ = ⟨cidCommandStop, 0, 1⟩ ∧
    ServConn.handleHeartBeat Registry.heartbeatReader (fun _ => none) payload = .error .null ∧
    ¬ Reported digitReader Registry.heartbeatReader payload :=
  ⟨ascii "status", ⟨by decide, by decide⟩, by decide, handleHeartBeat_rejected (by decide) _, fun h => h.1 rfl⟩

end Payload

end PostfixEdm
