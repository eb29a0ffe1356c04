import PostfixEdm.Base.ByteStream

/-!
# PDU headers, classes and errors

The constants of `ImPduBase.h` and `ImPduClient.h`, the header, and a received PDU: its class with the
members the decoding constructor filled. Members that hold a string are a pointer and a length.
-/

namespace PostfixEdm

/-- `IM_PDU_HEADER_LEN` -/
abbrev headerLen : UInt32 := 12
/-- `IM_PDU_VERSION` -/
abbrev pduVersion : UInt16 := 1

abbrev sidCommand : UInt16 := 1
abbrev sidMsg : UInt16 := 2
abbrev sidOther : UInt16 := 3

abbrev cidCommandStart : UInt16 := 1
abbrev cidCommandStop : UInt16 := 2
abbrev cidCommandPause : UInt16 := 4
abbrev cidCommandResume : UInt16 := 8
abbrev cidCommandAdjustRate : UInt16 := 16

abbrev cidMsgData : UInt16 := 1
abbrev cidMsgServerStatusInfo : UInt16 := 2
abbrev cidMsgAllClientStatusInfo : UInt16 := 3

abbrev cidOtherHeartbeat : UInt16 := 1
abbrev cidOtherResponse : UInt16 := 2
abbrev cidOtherRegClientType : UInt16 := 3
abbrev cidOtherClientDone : UInt16 := 4

abbrev clientCpp : UInt16 := 1
abbrev clientPhp : UInt16 := 2

/-- The ids `ReadPduCommand` hands to `CImPduServerCommand`. -/
def IsServCommand (c : UInt16) : Prop :=
  c = cidCommandStart ∨ c = cidCommandStop ∨ c = cidCommandPause ∨ c = cidCommandResume

instance (c : UInt16) : Decidable (IsServCommand c) := by unfold IsServCommand; infer_instance

structure PduHeader where
  length : UInt32
  moduleId : UInt16
  commandId : UInt16
  version : UInt16
  reserved : UInt16
  deriving DecidableEq, Repr

structure CPduException where
  moduleId : UInt16
  commandId : UInt16
  errorCode : Nat
  errorMsg : String
  deriving DecidableEq, Repr

def errorParseFailed : Nat := 1
def errorWrongServiceId : Nat := 2
def errorWrongCommandId : Nat := 3

/-- The class of a received PDU and its members. -/
inductive PduBody
  | serverCommand (servCommand : UInt16)
  | adjustRate (delay multi : UInt16)
  | clientData (data : Ptr) (dataLen : UInt32)
  | serverStatusInfo (jsonData : Ptr) (jsonDataLen : UInt32)
  | allClientStatusInfo
  | heartbeat (jsonData : Ptr) (jsonDataLen : UInt32)
  | response (status : UInt16) (message : Ptr) (messageLen : UInt32)
  | regClientType (clientType : UInt16)
  | clientDone
  deriving DecidableEq, Repr

namespace PduBody

/-- `GetPduType()` -/
def pduType : PduBody → UInt16
  | serverCommand _ => 1
  | adjustRate _ _ => 2
  | clientData _ _ => (1 : UInt16) <<< 8 ||| 1
  | serverStatusInfo _ _ => (1 : UInt16) <<< 8 ||| 2
  | allClientStatusInfo => (1 : UInt16) <<< 8 ||| 3
  | heartbeat _ _ => (2 : UInt16) <<< 8 ||| 1
  | response _ _ _ => (2 : UInt16) <<< 8 ||| 2
  | regClientType _ => (2 : UInt16) <<< 8 ||| 3
  | clientDone => (2 : UInt16) <<< 8 ||| 4

/-- The (pointer, length) pair that `GetData`/`GetDataLen` and their siblings expose. -/
def view : PduBody → Option (Ptr × UInt32)
  | clientData p n | serverStatusInfo p n | heartbeat p n | response _ p n => some (p, n)
  | _ => none

/-- The scalar members, in the order of the class. -/
def scalars : PduBody → List UInt32
  | serverCommand c => [c.toUInt32]
  | adjustRate d m => [d.toUInt32, m.toUInt32]
  | clientData _ n | serverStatusInfo _ n | heartbeat _ n => [n]
  | response st _ n => [st.toUInt32, n]
  | regClientType t => [t.toUInt32]
  | allClientStatusInfo | clientDone => []

end PduBody

/-- A PDU returned by `ReadPdu`: `m_incoming_buf` is the buffer that was read. -/
structure CImPdu where
  header : PduHeader
  incomingLen : UInt32
  body : PduBody
  deriving DecidableEq, Repr

namespace CImPdu

def getLength (pdu : CImPdu) : UInt32 := pdu.incomingLen

def getPduType (pdu : CImPdu) : UInt16 := pdu.body.pduType

/-- Everything a PDU says without a look behind its pointer. -/
def scalars (pdu : CImPdu) : PduHeader × UInt32 × UInt16 × List UInt32 :=
  (pdu.header, pdu.getLength, pdu.getPduType, pdu.body.scalars)

end CImPdu

end PostfixEdm
