import PostfixEdm.Pdu.Types

/-!
# The encoding constructors

Each constructor reserves the header, appends its fields to `m_buf` and patches the header last
(`WriteHeader`). `frame` is the byte string this comes to; `encode_contents` says so for every message
that fits a buffer. An `OutPdu` is a message together with the constructor that encodes it.
-/

namespace PostfixEdm
open BigEndian

/-- `CImPdu::WriteHeader`, on `m_buf` -/
def writeHeader (moduleId commandId : UInt16) (buf : CSimpleBuffer) : CSimpleBuffer :=
  { buf with
    buffer := Block.store buf.buffer 0 (be32 buf.writeOffset ++ be16 moduleId ++ be16 commandId ++
      be16 pduVersion ++ be16 0) }

/-- The stream `os` behind the reserved header. -/
def headerStream (heap : Heap) : CByteStreamOut :=
  { buf := CSimpleBuffer.empty.write heap true none headerLen, pos := headerLen }

/-- The shape of every encoding constructor: `body` writes the fields. -/
def encodePdu (heap : Heap) (moduleId commandId : UInt16) (body : CByteStreamOut → CByteStreamOut) :
    CSimpleBuffer :=
  writeHeader moduleId commandId (body (headerStream heap)).buf

def CImPduServerCommand.encode (heap : Heap) (servCommand : UInt16) : CSimpleBuffer :=
  encodePdu heap sidCommand servCommand fun os => os.writeUint16 heap servCommand

def CImPduAdjustRate.encode (heap : Heap) (delay multi : UInt16) : CSimpleBuffer :=
  encodePdu heap sidCommand cidCommandAdjustRate fun os =>
    (os.writeUint16 heap delay).writeUint16 heap multi

def CImPduClientData.encode (heap : Heap) (data : List UInt8) : CSimpleBuffer :=
  encodePdu heap sidMsg cidMsgData fun os => os.writeStringLen heap data (UInt32.ofNat data.length)

/-- Without an argument: the client's request. -/
def CImPduServerStatusInfo.encodeRequest (heap : Heap) : CSimpleBuffer :=
  encodePdu heap sidMsg cidMsgServerStatusInfo fun os => os

/-- With the text `server_status_ptr->serialize()`: the server's reply. -/
def CImPduServerStatusInfo.encode (heap : Heap) (json : List UInt8) : CSimpleBuffer :=
  encodePdu heap sidMsg cidMsgServerStatusInfo fun os => os.writeString heap json

def CImPduAllClientStatusInfo.encode (heap : Heap) (jsonData : List UInt8) : CSimpleBuffer :=
  encodePdu heap sidMsg cidMsgAllClientStatusInfo fun os => os.writeString heap jsonData

/-- Without an argument: the server's heartbeat. -/
def CImPduHeartbeat.encodeEmpty (heap : Heap) : CSimpleBuffer :=
  encodePdu heap sidOther cidOtherHeartbeat fun os => os

/-- With the text `client_status_ptr->serialize()`: the client's heartbeat. -/
def CImPduHeartbeat.encode (heap : Heap) (json : List UInt8) : CSimpleBuffer :=
  encodePdu heap sidOther cidOtherHeartbeat fun os => os.writeString heap json

def CImPduResponse.encode (heap : Heap) (status : UInt16) (message : List UInt8) : CSimpleBuffer :=
  encodePdu heap sidOther cidOtherResponse fun os =>
    (os.writeUint16 heap status).writeString heap message

def CImPduRegClientType.encode (heap : Heap) (clientType : UInt16) : CSimpleBuffer :=
  encodePdu heap sidOther cidOtherRegClientType fun os => os.writeUint16 heap clientType

/-- The constructor ignores its argument, and its command id is the one of `CImPduRegClientType`. -/
def CImPduClientDone.encode (heap : Heap) (_clientType : UInt16) : CSimpleBuffer :=
  encodePdu heap sidOther cidOtherRegClientType fun os => os

/-- A message and the constructor that encodes it. -/
inductive OutPdu
  | serverCommand (servCommand : UInt16)
  | adjustRate (delay multi : UInt16)
  | clientData (data : List UInt8)
  | serverStatusRequest
  | serverStatusInfo (json : List UInt8)
  | allClientStatusInfo (json : List UInt8)
  | emptyHeartbeat
  | heartbeat (json : List UInt8)
  | response (status : UInt16) (message : List UInt8)
  | regClientType (clientType : UInt16)
  | clientDone (clientType : UInt16)
  deriving DecidableEq, Repr

namespace OutPdu

def encode (heap : Heap) : OutPdu → CSimpleBuffer
  | serverCommand c => CImPduServerCommand.encode heap c
  | adjustRate d m => CImPduAdjustRate.encode heap d m
  | clientData data => CImPduClientData.encode heap data
  | serverStatusRequest => CImPduServerStatusInfo.encodeRequest heap
  | serverStatusInfo json => CImPduServerStatusInfo.encode heap json
  | allClientStatusInfo json => CImPduAllClientStatusInfo.encode heap json
  | emptyHeartbeat => CImPduHeartbeat.encodeEmpty heap
  | heartbeat json => CImPduHeartbeat.encode heap json
  | response st message => CImPduResponse.encode heap st message
  | regClientType t => CImPduRegClientType.encode heap t
  | clientDone t => CImPduClientDone.encode heap t

/-- `module_id` and `command_id` of the encoding. -/
def ids : OutPdu → UInt16 × UInt16
  | serverCommand c => (sidCommand, c)
  | adjustRate _ _ => (sidCommand, cidCommandAdjustRate)
  | clientData _ => (sidMsg, cidMsgData)
  | serverStatusRequest | serverStatusInfo _ => (sidMsg, cidMsgServerStatusInfo)
  | allClientStatusInfo _ => (sidMsg, cidMsgAllClientStatusInfo)
  | emptyHeartbeat | heartbeat _ => (sidOther, cidOtherHeartbeat)
  | response _ _ => (sidOther, cidOtherResponse)
  | regClientType _ | clientDone _ => (sidOther, cidOtherRegClientType)

/-- The bytes after the header. -/
def body : OutPdu → List UInt8
  | serverCommand c | regClientType c => be16 c
  | adjustRate d m => be16 d ++ be16 m
  | clientData s | serverStatusInfo s | allClientStatusInfo s | heartbeat s =>
      CByteStreamOut.lengthPrefixed s
  | response st s => be16 st ++ CByteStreamOut.lengthPrefixed s
  | serverStatusRequest | emptyHeartbeat | clientDone _ => []

/-- The `char*` arguments: these are C strings, so they hold no NUL. -/
def cstrings : OutPdu → List (List UInt8)
  | serverStatusInfo s | allClientStatusInfo s | heartbeat s | response _ s => [s]
  | _ => []

/-- A message whose frame stays below `2^31` bytes and whose C strings are C strings. -/
structure Encodable (m : OutPdu) : Prop where
  size : 12 + m.body.length < 2 ^ 31
  nul : ∀ s ∈ m.cstrings, 0 ∉ s

end OutPdu

/-- A frame: the header and the body it announces. -/
def frame (moduleId commandId : UInt16) (body : List UInt8) : List UInt8 :=
  be32 (UInt32.ofNat (12 + body.length)) ++ be16 moduleId ++ be16 commandId ++ be16 pduVersion ++ be16 0 ++
    body

@[simp] theorem length_frame (moduleId commandId : UInt16) (body : List UInt8) :
    (frame moduleId commandId body).length = 12 + body.length := by
  simp [frame]
  omega

theorem writeHeader_contents {b : CSimpleBuffer} (hb : b.Wf) (m c : UInt16) (h : 12 ≤ b.writeOffset.toNat) :
    (writeHeader m c b).contents =
      be32 b.writeOffset ++ be16 m ++ be16 c ++ be16 pduVersion ++ be16 0 ++ b.contents.drop 12 := by
  have := hb.offset_le
  have := hb.alloc_le
  simp only [CSimpleBuffer.contents, writeHeader]
  have hlen : (be32 b.writeOffset ++ be16 m ++ be16 c ++ be16 pduVersion ++ be16 0).length = 12 := by simp
  obtain ⟨n, hn⟩ : ∃ n, b.writeOffset.toNat = 12 + n := ⟨_, (Nat.add_sub_cancel' h).symm⟩
  rw [Block.store, hn, List.take_zero, List.nil_append, hlen, Nat.zero_add, List.drop_take,
    show 12 + n - 12 = n by omega]
  conv_lhs => rw [← hlen]
  rw [List.take_length_add_append, hlen]

/-- What an encoding constructor leaves in `m_buf`, given what its field writes append. -/
theorem encodePdu_contents (heap : Heap) (m c : UInt16) {body : CByteStreamOut → CByteStreamOut}
    {data : List UInt8} (hsize : 12 + data.length < 2 ^ 31)
    (hbody : ∀ os : CByteStreamOut, os.buf.Wf → os.buf.contents.length = 12 →
      CByteStreamOut.Appends os (body os) data) :
    (encodePdu heap m c body).contents = frame m c data ∧
      (encodePdu heap m c body).writeOffset = UInt32.ofNat (12 + data.length) := by
  obtain ⟨hwf, hlen⟩ : (headerStream heap).buf.Wf ∧ (headerStream heap).buf.contents.length = 12 :=
    CSimpleBuffer.write_null_spec heap headerLen (by decide)
  have happ := hbody (headerStream heap) hwf hlen
  have hoff := happ.wf.length_contents
  rw [happ.contents, List.length_append, hlen] at hoff
  have hoff' : (body (headerStream heap)).buf.writeOffset = UInt32.ofNat (12 + data.length) := by
    rw [← UInt32.toNat_inj, UInt32.toNat_ofNat', Nat.mod_eq_of_lt (by omega), ← hoff]
  constructor
  · unfold encodePdu
    rw [writeHeader_contents happ.wf m c (by omega), hoff', happ.contents, List.drop_left' hlen]
    rfl
  · exact hoff'

namespace OutPdu

/-- The field writes of the message's constructor. -/
def writeBody (heap : Heap) (m : OutPdu) (os : CByteStreamOut) : CByteStreamOut :=
  match m with
  | serverCommand c | regClientType c => os.writeUint16 heap c
  | adjustRate d n => (os.writeUint16 heap d).writeUint16 heap n
  | clientData s => os.writeStringLen heap s (UInt32.ofNat s.length)
  | serverStatusInfo s | allClientStatusInfo s | heartbeat s => os.writeString heap s
  | response st s => (os.writeUint16 heap st).writeString heap s
  | serverStatusRequest | emptyHeartbeat | clientDone _ => os

theorem encode_eq (heap : Heap) (m : OutPdu) :
    m.encode heap = encodePdu heap m.ids.1 m.ids.2 (m.writeBody heap) := by
  cases m <;> rfl

theorem appends_writeBody (heap : Heap) {m : OutPdu} (h : m.Encodable) {os : CByteStreamOut}
    (hos : os.buf.Wf) (hlen : os.buf.contents.length = 12) :
    CByteStreamOut.Appends os (m.writeBody heap os) m.body := by
  have hsize := h.size
  cases m with
  | serverCommand c | regClientType c => exact CByteStreamOut.appends_writeUint16 heap hos c (by omega)
  | adjustRate d n =>
    have h1 := CByteStreamOut.appends_writeUint16 heap hos d (by omega)
    refine h1.trans (CByteStreamOut.appends_writeUint16 heap h1.wf n ?_)
    rw [h1.contents, List.length_append, length_be16]
    omega
  | clientData s =>
    refine CByteStreamOut.appends_writeStringLen heap hos ?_
    simp only [body, CByteStreamOut.length_lengthPrefixed] at hsize
    omega
  | serverStatusInfo s | allClientStatusInfo s | heartbeat s =>
    refine CByteStreamOut.appends_writeString heap hos (h.nul s (List.mem_singleton_self s)) ?_
    simp only [body, CByteStreamOut.length_lengthPrefixed] at hsize
    omega
  | response st s =>
    have h1 := CByteStreamOut.appends_writeUint16 heap hos st (by omega)
    refine h1.trans (CByteStreamOut.appends_writeString heap h1.wf (h.nul s (List.mem_singleton_self s)) ?_)
    simp only [body, List.length_append, CByteStreamOut.length_lengthPrefixed, length_be16] at hsize
    rw [h1.contents, List.length_append, length_be16]
    omega
  | serverStatusRequest | emptyHeartbeat | clientDone _ => exact ⟨hos, (List.append_nil _).symm⟩

/-- Every encodable message is encoded as its frame. -/
theorem encode_contents (heap : Heap) {m : OutPdu} (h : m.Encodable) :
    (m.encode heap).contents = frame m.ids.1 m.ids.2 m.body ∧
      (m.encode heap).writeOffset = UInt32.ofNat (12 + m.body.length) := by
  rw [encode_eq]
  exact encodePdu_contents heap _ _ h.size fun _ hos hlen => appends_writeBody heap h hos hlen

end OutPdu

end PostfixEdm
