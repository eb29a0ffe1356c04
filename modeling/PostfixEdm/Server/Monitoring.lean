import PostfixEdm.Lib.Safe
import PostfixEdm.Server.StatusInfo

/-!
# The registry of clients: `client_status_info` and `cMonitoring`

* `ClientStatusInfo.unserialize` : `client_status_info::unserialize` over a JSON reader, with its result;
* `Monitoring.getClientStatus`, `Monitoring.updateClientStatus`, `Monitoring.removeClientStauts` : the methods of
  `cMonitoring`. A `string` cannot be made of a NULL pointer;
* `ServConn.handleHeartBeat` : what `_HandleHeartBeat` does to the registry.
-/

namespace PostfixEdm

/-- A `char*` is `none` when it is NULL. -/
structure ClientStatusInfo where
  ip : Option (List UInt8)
  emailFromAddr : Option (List UInt8)
  havePushNum : UInt64
  mailqNum : UInt64
  deriving DecidableEq, Repr

/-- What the conversions of `unserialize` find in an object. -/
structure ClientStatusFields where
  ip : List UInt8
  emailFromAddr : List UInt8
  havePushNum : UInt64
  mailqNum : UInt64
  deriving DecidableEq, Repr

/-- `Json::Reader::parse` and the conversions; `none` when the text does not parse. -/
abbrev ClientStatusReader := List UInt8 → Option ClientStatusFields

namespace ClientStatusInfo

/-- `client_status_info()` -/
def default : ClientStatusInfo := ⟨none, none, 0, 0⟩

/-- `unserialize` of a fresh object, with its result. -/
def unserialize (parse : ClientStatusReader) (text : List UInt8) : Int × ClientStatusInfo :=
  match parse (cstr text) with
  | some value =>
    (0, ⟨some (cstr value.ip), some (cstr value.emailFromAddr), value.havePushNum, value.mailqNum⟩)
  | none => (0, default)

/-- The result is 0 in either case. -/
theorem unserialize_fst (parse : ClientStatusReader) (text : List UInt8) : (unserialize parse text).1 = 0 := by
  unfold unserialize
  split <;> rfl

end ClientStatusInfo

/-- `client_status_map_t` -/
abbrev ClientStatusMap := List UInt8 → Option ClientStatusInfo

namespace Monitoring

/-- `GetClientStatus` -/
def getClientStatus (maps : ClientStatusMap) (ip : Option (List UInt8)) : Except Halt (Option ClientStatusInfo) :=
  match ip with
  | some ip => .ok (maps ip)
  | none => .error .null

/-- `insert` and `erase` of the map, by a `char*`. -/
def insert (maps : ClientStatusMap) (ip : Option (List UInt8)) (info : ClientStatusInfo) :
    Except Halt ClientStatusMap :=
  match ip with
  | some ip => .ok (if (maps ip).isSome then maps else Function.update maps ip (some info))
  | none => .error .null

def erase (maps : ClientStatusMap) (ip : Option (List UInt8)) : Except Halt ClientStatusMap :=
  match ip with
  | some ip => .ok (Function.update maps ip none)
  | none => .error .null

/-- `UpdateClientStatus` -/
def updateClientStatus (maps : ClientStatusMap) (info : ClientStatusInfo) : Except Halt ClientStatusMap := do
  let found ← getClientStatus maps info.ip
  if found.isNone then insert maps info.ip info
  else do
    let maps ← erase maps info.ip
    insert maps info.ip info

def removeClientStauts (maps : ClientStatusMap) (ip : List UInt8) : ClientStatusMap := Function.update maps ip none

/-- The entry of the object's ip is the object, whether there was one before or not. -/
theorem updateClientStatus_eq (maps : ClientStatusMap) {info : ClientStatusInfo} {ip : List UInt8}
    (h : info.ip = some ip) : updateClientStatus maps info = .ok (Function.update maps ip (some info)) := by
  unfold updateClientStatus
  rw [h]
  simp only [getClientStatus, insert, erase, bind, Except.bind]
  split
  · next hnone =>
    rw [if_neg (by simpa using hnone)]
  · simp

/-- An object without an ip. -/
theorem updateClientStatus_null (maps : ClientStatusMap) {info : ClientStatusInfo} (h : info.ip = none) :
    updateClientStatus maps info = .error .null := by
  unfold updateClientStatus
  rw [h]
  rfl

end Monitoring

/-- `_HandleHeartBeat` of a payload -/
def ServConn.handleHeartBeat (parse : ClientStatusReader) (maps : ClientStatusMap) (jsonData : List UInt8) :
    Except Halt ClientStatusMap :=
  let (ret, info) := ClientStatusInfo.unserialize parse jsonData
  if ret = 0 then Monitoring.updateClientStatus maps info else .ok maps

theorem ServConn.handleHeartBeat_eq (parse : ClientStatusReader) (maps : ClientStatusMap) (jsonData : List UInt8) :
    handleHeartBeat parse maps jsonData =
      Monitoring.updateClientStatus maps (ClientStatusInfo.unserialize parse jsonData).2 :=
  if_pos (ClientStatusInfo.unserialize_fst parse jsonData)

end PostfixEdm
