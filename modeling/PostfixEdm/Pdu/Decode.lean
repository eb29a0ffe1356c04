import PostfixEdm.Pdu.Types

/-!
# `CImPdu::ReadPdu` and the decoding constructors

`readPdu env buf len` runs `ReadPdu(buf, len)`. `buf` is the memory from the pointer on; `env` is
everything else the code may see: the bytes behind `buf`, indeterminate locals and indeterminate members.
The result carries every read as (offset, length), also when the constructor throws.

The constructors differ in what they parse after the header, so each is `decodePdu` of its parser. The
second half puts what each of them returns in closed form, by the declared length: the subtraction
`len - 12` wraps, and a read that does not fit leaves its value indeterminate.
-/

namespace PostfixEdm
open BigEndian

/-- What `ReadPdu` may see and the frame does not determine. -/
structure Env where
  beyond : Nat → UInt8
  uninit : Nat → UInt8
  jsonData : Ptr
  jsonDataLen : UInt32

/-- The memory from the frame's first byte on. -/
def Env.mem (env : Env) (buf : List UInt8) (i : Nat) : UInt8 := buf.getD i (env.beyond i)

structure ReadResult (α : Type) where
  value : Except CPduException α
  reads : List (Nat × Nat)

/-- The static `CByteStream::ReadUint16(buf + i)` -/
def readUint16At (mem : Nat → UInt8) (i : Nat) : UInt16 := ofBe16 (mem i) (mem (i + 1))

/-- The static `CByteStream::ReadUint32(buf + i)` -/
def readUint32At (mem : Nat → UInt8) (i : Nat) : UInt32 :=
  ofBe32 (mem i) (mem (i + 1)) (mem (i + 2)) (mem (i + 3))

/-- `CImPdu::ReadPduHeader`; `none` is `-1`. -/
def readPduHeader (env : Env) (mem : Nat → UInt8) (len : UInt32) : Option (PduHeader × List (Nat × Nat)) :=
  if headerLen ≤ len then
    let is : CByteStreamIn := { mem, base := 0, len, pos := 0, uninit := env.uninit, reads := [] }
    let (length, is) := is.readUint32
    let (moduleId, is) := is.readUint16
    let (commandId, is) := is.readUint16
    let (version, is) := is.readUint16
    let (reserved, is) := is.readUint16
    some ({ length, moduleId, commandId, version, reserved }, is.reads)
  else none

/-- The header `CImPdu()` starts with. -/
def defaultHeader : PduHeader :=
  { length := 0, moduleId := sidOther, commandId := 0, version := pduVersion, reserved := 0 }

/-- The shape of every decoding constructor, `PARSE_PACKET_ASSERT` included. -/
def decodePdu (env : Env) (mem : Nat → UInt8) (len : UInt32)
    (parse : CByteStreamIn → PduBody × CByteStreamIn) : ReadResult CImPdu :=
  let (header, reads) := (readPduHeader env mem headerLen).getD (defaultHeader, [])
  let is : CByteStreamIn :=
    { mem, base := 12, len := len - headerLen, pos := 0, uninit := env.uninit, reads }
  let (body, is) := parse is
  if is.pos ≠ len - headerLen then
    ⟨.error ⟨header.moduleId, header.commandId, errorParseFailed, "parse packet failed"⟩, is.reads⟩
  else ⟨.ok ⟨header, len, body⟩, is.reads⟩

def CImPduServerCommand.decode (env : Env) (mem : Nat → UInt8) (len : UInt32) : ReadResult CImPdu :=
  decodePdu env mem len fun is =>
    let (servCommand, is) := is.readUint16
    (.serverCommand servCommand, is)

def CImPduAdjustRate.decode (env : Env) (mem : Nat → UInt8) (len : UInt32) : ReadResult CImPdu :=
  decodePdu env mem len fun is =>
    let (delay, is) := is.readUint16
    let (multi, is) := is.readUint16
    (.adjustRate delay multi, is)

def CImPduClientData.decode (env : Env) (mem : Nat → UInt8) (len : UInt32) : ReadResult CImPdu :=
  decodePdu env mem len fun is =>
    let (data, dataLen, is) := is.readString
    (.clientData data dataLen, is)

/-- `json_data` and `json_data_len` keep their indeterminate values when there is no body. -/
def CImPduServerStatusInfo.decode (env : Env) (mem : Nat → UInt8) (len : UInt32) : ReadResult CImPdu :=
  decodePdu env mem len fun is =>
    if headerLen < len then
      let (jsonData, jsonDataLen, is) := is.readString
      (.serverStatusInfo jsonData jsonDataLen, is)
    else (.serverStatusInfo env.jsonData env.jsonDataLen, is)

def CImPduAllClientStatusInfo.decode (env : Env) (mem : Nat → UInt8) (len : UInt32) : ReadResult CImPdu :=
  decodePdu env mem len fun is => (.allClientStatusInfo, is)

def CImPduHeartbeat.decode (env : Env) (mem : Nat → UInt8) (len : UInt32) : ReadResult CImPdu :=
  decodePdu env mem len fun is =>
    if headerLen < len then
      let (jsonData, jsonDataLen, is) := is.readString
      (.heartbeat jsonData jsonDataLen, is)
    else (.heartbeat env.jsonData env.jsonDataLen, is)

def CImPduResponse.decode (env : Env) (mem : Nat → UInt8) (len : UInt32) : ReadResult CImPdu :=
  decodePdu env mem len fun is =>
    let (status, is) := is.readUint16
    let (message, messageLen, is) := is.readString
    (.response status message messageLen, is)

def CImPduRegClientType.decode (env : Env) (mem : Nat → UInt8) (len : UInt32) : ReadResult CImPdu :=
  decodePdu env mem len fun is =>
    let (clientType, is) := is.readUint16
    (.regClientType clientType, is)

def CImPduClientDone.decode (env : Env) (mem : Nat → UInt8) (len : UInt32) : ReadResult CImPdu :=
  decodePdu env mem len fun is => (.clientDone, is)

/-! ## Dispatch -/

def readPduCommand (env : Env) (commandId : UInt16) (mem : Nat → UInt8) (len : UInt32) : ReadResult CImPdu :=
  if IsServCommand commandId then CImPduServerCommand.decode env mem len
  else if commandId = cidCommandAdjustRate then CImPduAdjustRate.decode env mem len
  else ⟨.error ⟨sidCommand, commandId, errorWrongCommandId, "wrong command id"⟩, []⟩

def readPduMsg (env : Env) (commandId : UInt16) (mem : Nat → UInt8) (len : UInt32) : ReadResult CImPdu :=
  if commandId = cidMsgData then CImPduClientData.decode env mem len
  else if commandId = cidMsgServerStatusInfo then CImPduServerStatusInfo.decode env mem len
  else if commandId = cidMsgAllClientStatusInfo then CImPduAllClientStatusInfo.decode env mem len
  else ⟨.error ⟨sidMsg, commandId, errorWrongCommandId, "wrong command id"⟩, []⟩

def readPduOther (env : Env) (commandId : UInt16) (mem : Nat → UInt8) (len : UInt32) : ReadResult CImPdu :=
  if commandId = cidOtherHeartbeat then CImPduHeartbeat.decode env mem len
  else if commandId = cidOtherResponse then CImPduResponse.decode env mem len
  else if commandId = cidOtherRegClientType then CImPduRegClientType.decode env mem len
  else if commandId = cidOtherClientDone then CImPduClientDone.decode env mem len
  else ⟨.error ⟨sidOther, commandId, errorWrongCommandId, "wrong packet type"⟩, []⟩

/-- The switch of `ReadPdu` on the service id, for a complete frame. -/
def dispatch (env : Env) (serviceId commandId : UInt16) (mem : Nat → UInt8) (len : UInt32) :
    ReadResult CImPdu :=
  if serviceId = sidCommand then readPduCommand env commandId mem len
  else if serviceId = sidMsg then readPduMsg env commandId mem len
  else if serviceId = sidOther then readPduOther env commandId mem len
  else ⟨.error ⟨serviceId, commandId, errorWrongServiceId, "wrong service id"⟩, []⟩

/-- `_IsPduAvailable`: the declared length of a complete frame, and the reads it took. -/
def isPduAvailable (mem : Nat → UInt8) (len : UInt32) : Option UInt32 × List (Nat × Nat) :=
  if len < headerLen then (none, [])
  else
    let pduLen := readUint32At mem 0
    if len < pduLen then (none, [(0, 4)]) else (some pduLen, [(0, 4)])

def readPdu (env : Env) (buf : List UInt8) (len : UInt32) : ReadResult (Option CImPdu) :=
  let mem := env.mem buf
  match isPduAvailable mem len with
  | (none, reads) => ⟨.ok none, reads⟩
  | (some pduLen, reads) =>
    let r := dispatch env (readUint16At mem 4) (readUint16At mem 6) mem pduLen
    ⟨r.value.map some, reads ++ [(4, 2), (6, 2)] ++ r.reads⟩

end PostfixEdm
