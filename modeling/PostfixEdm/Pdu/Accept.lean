import PostfixEdm.Pdu.Decode

/-!
# What the decoding constructors accept

`PduClass` names the nine decoding constructors and `classOf` the switches that choose one.
`PduClass.decode_eq` puts each constructor in closed form: `PduClass.body` is the PDU it builds, `none`
when `PARSE_PACKET_ASSERT` throws, and `PduClass.bodyReads` the reads after the header. The declared
length `len` may be below 12: then `len - 12` wraps and the stream seems to go on for 4 GiB.
-/

namespace PostfixEdm
open BigEndian

inductive PduClass
  | serverCommand | adjustRate | clientData | serverStatusInfo | allClientStatusInfo
  | heartbeat | response | regClientType | clientDone
  deriving DecidableEq, Repr

/-- The constructor that `ReadPdu` chooses for a pair of ids. -/
def classOf (serviceId commandId : UInt16) : Option PduClass :=
  if serviceId = sidCommand then
    if IsServCommand commandId then some .serverCommand
    else if commandId = cidCommandAdjustRate then some .adjustRate else none
  else if serviceId = sidMsg then
    if commandId = cidMsgData then some .clientData
    else if commandId = cidMsgServerStatusInfo then some .serverStatusInfo
    else if commandId = cidMsgAllClientStatusInfo then some .allClientStatusInfo else none
  else if serviceId = sidOther then
    if commandId = cidOtherHeartbeat then some .heartbeat
    else if commandId = cidOtherResponse then some .response
    else if commandId = cidOtherRegClientType then some .regClientType
    else if commandId = cidOtherClientDone then some .clientDone else none
  else none

namespace PduClass

def decode : PduClass → Env → (Nat → UInt8) → UInt32 → ReadResult CImPdu
  | serverCommand => CImPduServerCommand.decode
  | adjustRate => CImPduAdjustRate.decode
  | clientData => CImPduClientData.decode
  | serverStatusInfo => CImPduServerStatusInfo.decode
  | allClientStatusInfo => CImPduAllClientStatusInfo.decode
  | heartbeat => CImPduHeartbeat.decode
  | response => CImPduResponse.decode
  | regClientType => CImPduRegClientType.decode
  | clientDone => CImPduClientDone.decode

end PduClass

/-- What `ReadPdu` throws for a pair of ids. -/
def refusal (serviceId commandId : UInt16) : CPduException :=
  if serviceId = sidCommand then ⟨sidCommand, commandId, errorWrongCommandId, "wrong command id"⟩
  else if serviceId = sidMsg then ⟨sidMsg, commandId, errorWrongCommandId, "wrong command id"⟩
  else if serviceId = sidOther then ⟨sidOther, commandId, errorWrongCommandId, "wrong packet type"⟩
  else ⟨serviceId, commandId, errorWrongServiceId, "wrong service id"⟩

theorem dispatch_eq (env : Env) (m c : UInt16) (mem : Nat → UInt8) (len : UInt32) : dispatch env m c mem len =
    match classOf m c with
    | some k => k.decode env mem len
    | none => ⟨.error (refusal m c), []⟩ := by
  unfold dispatch classOf refusal
  by_cases hcommand : m = sidCommand
  · simp only [if_pos hcommand]
    unfold readPduCommand
    split_ifs <;> rfl
  · by_cases hmsg : m = sidMsg
    · simp only [if_neg hcommand, if_pos hmsg]
      unfold readPduMsg
      split_ifs <;> rfl
    · by_cases hother : m = sidOther
      · simp only [if_neg hcommand, if_neg hmsg, if_pos hother]
        unfold readPduOther
        split_ifs <;> rfl
      · simp only [if_neg hcommand, if_neg hmsg, if_neg hother]

theorem dispatch_of_class {m c : UInt16} {k : PduClass} (h : classOf m c = some k) (env : Env)
    (mem : Nat → UInt8) (len : UInt32) : dispatch env m c mem len = k.decode env mem len := by
  rw [dispatch_eq, h]

theorem dispatch_of_none {m c : UInt16} (h : classOf m c = none) :
    ∃ e, ∀ env mem len, dispatch env m c mem len = ⟨.error e, []⟩ := by
  refine ⟨refusal m c, fun env mem len => ?_⟩
  rw [dispatch_eq, h]

/-! ## The shape shared by the constructors -/

/-- The header as it stands in memory. -/
def headerAt (mem : Nat → UInt8) : PduHeader :=
  { length := readUint32At mem 0, moduleId := readUint16At mem 4, commandId := readUint16At mem 6
    version := readUint16At mem 8, reserved := readUint16At mem 10 }

/-- The reads of `ReadPduHeader`. -/
def headerReads : List (Nat × Nat) := [(0, 4), (4, 2), (6, 2), (8, 2), (10, 2)]

theorem readPduHeader_eq (env : Env) (mem : Nat → UInt8) :
    readPduHeader env mem headerLen = some (headerAt mem, headerReads) := rfl

/-- The stream a decoding constructor parses. -/
def bodyStream (env : Env) (mem : Nat → UInt8) (len : UInt32) : CByteStreamIn :=
  { mem, base := 12, len := len - headerLen, pos := 0, uninit := env.uninit, reads := headerReads }

def parseError (mem : Nat → UInt8) : CPduException :=
  ⟨(headerAt mem).moduleId, (headerAt mem).commandId, errorParseFailed, "parse packet failed"⟩

/-- A constructor that built `body`, or threw for want of one. -/
def accept (mem : Nat → UInt8) (len : UInt32) (body : Option PduBody) : Except CPduException CImPdu :=
  match body with
  | some body => .ok ⟨headerAt mem, len, body⟩
  | none => .error (parseError mem)

theorem decodePdu_eq (env : Env) (mem : Nat → UInt8) (len : UInt32)
    (parse : CByteStreamIn → PduBody × CByteStreamIn) :
    decodePdu env mem len parse =
      ⟨accept mem len (if (parse (bodyStream env mem len)).2.pos = len - headerLen then
          some (parse (bodyStream env mem len)).1 else none),
        (parse (bodyStream env mem len)).2.reads⟩ := by
  unfold decodePdu
  rw [readPduHeader_eq]
  simp only [Option.getD_some, ne_eq, ite_not]
  split
  · next h => rw [if_pos (by exact h)]; rfl
  · next h => rw [if_neg (by exact h)]; rfl

/-- Indeterminate words: the arrays of the `i`-th byte on that no read filled. -/
def Env.word16 (env : Env) (i : Nat) : UInt16 := ofBe16 (env.uninit i) (env.uninit (i + 1))

def Env.word32 (env : Env) (i : Nat) : UInt32 :=
  ofBe32 (env.uninit i) (env.uninit (i + 1)) (env.uninit (i + 2)) (env.uninit (i + 3))

/-- The environment after `n` indeterminate bytes were used up. -/
def Env.shift (env : Env) (n : Nat) : Env := { env with uninit := fun i => env.uninit (i + n) }

/-! ## Arithmetic of `len - 12` -/

theorem toNat_sub_headerLen (len : UInt32) :
    (len - headerLen).toNat = if 12 ≤ len.toNat then len.toNat - 12 else len.toNat + (2 ^ 32 - 12) := by
  have := len.toNat_lt
  rw [UInt32.toNat_sub, show headerLen.toNat = 12 from rfl]
  split <;> omega

theorem eq_sub_headerLen_iff (x len : UInt32) : x = len - headerLen ↔ len = x + headerLen := by
  have := len.toNat_lt
  have := x.toNat_lt
  rw [← UInt32.toNat_inj, ← UInt32.toNat_inj, toNat_sub_headerLen, UInt32.toNat_add,
    show headerLen.toNat = 12 from rfl]
  split <;> omega

/-- `PARSE_PACKET_ASSERT` at a position that does not depend on the frame. -/
theorem pos_test (x len : UInt32) : x = len - headerLen ↔ len.toNat = (x + headerLen).toNat := by
  rw [eq_sub_headerLen_iff, UInt32.toNat_inj]

theorem add_eq_sub_headerLen_iff (x y len : UInt32) :
    x + y = len - headerLen ↔ y = len - (headerLen + x) := by
  have := len.toNat_lt
  have := x.toNat_lt
  have := y.toNat_lt
  rw [← UInt32.toNat_inj, ← UInt32.toNat_inj, toNat_sub_headerLen, UInt32.toNat_sub, UInt32.toNat_add,
    UInt32.toNat_add, show headerLen.toNat = 12 from rfl]
  split <;> omega

/-! ## Closed forms -/

namespace PduClass

/-- A body of one 16-bit word. -/
def wordBody (env : Env) (mem : Nat → UInt8) (len : UInt32) (mk : UInt16 → PduBody) : Option PduBody :=
  if len.toNat = 14 then some (mk (readUint16At mem 12))
  else if len.toNat = 12 then some (mk (env.word16 0)) else none

def rateBody (env : Env) (mem : Nat → UInt8) (len : UInt32) : Option PduBody :=
  if len.toNat = 16 then some (.adjustRate (readUint16At mem 12) (readUint16At mem 14))
  else if len.toNat = 14 then some (.adjustRate (readUint16At mem 12) (env.word16 0))
  else if len.toNat = 12 then some (.adjustRate (env.word16 0) (env.word16 2)) else none

/-- A body of one length-prefixed string. -/
def stringBody (env : Env) (mem : Nat → UInt8) (len : UInt32) (mk : Ptr → UInt32 → PduBody) :
    Option PduBody :=
  if 12 ≤ len.toNat ∧ len.toNat < 16 then
    if env.word32 0 = len - 12 then some (mk 12 (len - 12)) else none
  else if readUint32At mem 12 = len - 16 then some (mk 16 (len - 16)) else none

/-- A body that is empty or a string. -/
def optStringBody (env : Env) (mem : Nat → UInt8) (len : UInt32) (mk : Ptr → UInt32 → PduBody) :
    Option PduBody :=
  if 12 < len.toNat then stringBody env mem len mk
  else if len.toNat = 12 then some (mk env.jsonData env.jsonDataLen) else none

def responseBody (env : Env) (mem : Nat → UInt8) (len : UInt32) : Option PduBody :=
  if 12 ≤ len.toNat ∧ len.toNat < 14 then
    if env.word32 2 = len - 12 then some (.response (env.word16 0) 12 (len - 12)) else none
  else if 14 ≤ len.toNat ∧ len.toNat < 18 then
    if env.word32 0 = len - 14 then some (.response (readUint16At mem 12) 14 (len - 14)) else none
  else if readUint32At mem 14 = len - 18 then some (.response (readUint16At mem 12) 18 (len - 18))
  else none

def emptyBody (len : UInt32) (body : PduBody) : Option PduBody := if len.toNat = 12 then some body else none

/-- What the constructor builds from a frame of declared length `len`. -/
def body (env : Env) (mem : Nat → UInt8) (len : UInt32) : PduClass → Option PduBody
  | serverCommand => wordBody env mem len .serverCommand
  | adjustRate => rateBody env mem len
  | clientData => stringBody env mem len .clientData
  | serverStatusInfo => optStringBody env mem len .serverStatusInfo
  | allClientStatusInfo => emptyBody len .allClientStatusInfo
  | heartbeat => optStringBody env mem len .heartbeat
  | response => responseBody env mem len
  | regClientType => wordBody env mem len .regClientType
  | clientDone => emptyBody len .clientDone

/-- A read of `n` bytes at `off`, when the wrapping test against the declared length lets it happen. -/
def readIf (len : UInt32) (off n : Nat) : List (Nat × Nat) :=
  if 12 ≤ len.toNat ∧ len.toNat < off + n then [] else [(off, n)]

/-- The reads of the constructor after the header. -/
def bodyReads (len : UInt32) : PduClass → List (Nat × Nat)
  | serverCommand | regClientType => readIf len 12 2
  | adjustRate => readIf len 12 2 ++ readIf len 14 2
  | clientData => readIf len 12 4
  | serverStatusInfo | heartbeat => if 12 < len.toNat then readIf len 12 4 else []
  | response =>
      if 12 ≤ len.toNat ∧ len.toNat < 14 then [] else readIf len 12 2 ++ readIf len 14 4
  | allClientStatusInfo | clientDone => []

end PduClass

/-! ## Reading the body -/

/-- The stream of the body at position `pos`. -/
def streamAt (env : Env) (mem : Nat → UInt8) (len pos : UInt32) (reads : List (Nat × Nat)) : CByteStreamIn :=
  { bodyStream env mem len with pos := pos, reads := reads }

section Reads
variable (env : Env) (mem : Nat → UInt8) {len pos : UInt32} (reads : List (Nat × Nat))

theorem bodyStream_eq (len : UInt32) : bodyStream env mem len = streamAt env mem len 0 headerReads := rfl

/-- `>>` of a 16-bit word, when the wrapping stream length has room for it. -/
theorem readUint16_streamAt (hpos : pos.toNat < 1024)
    (h : ¬ (12 ≤ len.toNat ∧ len.toNat < 12 + pos.toNat + 2)) :
    (streamAt env mem len pos reads).readUint16 =
      (readUint16At mem (12 + pos.toNat),
        streamAt env mem len (pos + 2) (reads ++ [(12 + pos.toNat, 2)])) := by
  refine CByteStreamIn.readUint16_of_le ?_
  change pos.toNat + 2 ≤ (len - headerLen).toNat
  rw [toNat_sub_headerLen]
  split <;> omega

theorem readUint32_streamAt (hpos : pos.toNat < 1024)
    (h : ¬ (12 ≤ len.toNat ∧ len.toNat < 12 + pos.toNat + 4)) :
    (streamAt env mem len pos reads).readUint32 =
      (readUint32At mem (12 + pos.toNat),
        streamAt env mem len (pos + 4) (reads ++ [(12 + pos.toNat, 4)])) := by
  refine CByteStreamIn.readUint32_of_le ?_
  change pos.toNat + 4 ≤ (len - headerLen).toNat
  rw [toNat_sub_headerLen]
  split <;> omega

/-- `>>` of a word the body is too short for: the position stays. -/
theorem readUint16_streamAt_short (hpos : pos.toNat < 1024)
    (h : 12 ≤ len.toNat ∧ len.toNat < 12 + pos.toNat + 2) :
    (streamAt env mem len pos reads).readUint16 =
      (env.word16 0, streamAt (env.shift 2) mem len pos reads) := by
  refine CByteStreamIn.readUint16_of_gt (show pos.toNat < _ by omega) ?_
  change (len - headerLen).toNat < pos.toNat + 2
  rw [toNat_sub_headerLen, if_pos h.1]
  omega

theorem readUint32_streamAt_short (hpos : pos.toNat < 1024)
    (h : 12 ≤ len.toNat ∧ len.toNat < 12 + pos.toNat + 4) :
    (streamAt env mem len pos reads).readUint32 =
      (env.word32 0, streamAt (env.shift 4) mem len pos reads) := by
  refine CByteStreamIn.readUint32_of_gt (show pos.toNat < _ by omega) ?_
  change (len - headerLen).toNat < pos.toNat + 4
  rw [toNat_sub_headerLen, if_pos h.1]
  omega

theorem readString_streamAt (hpos : pos.toNat < 1024)
    (h : ¬ (12 ≤ len.toNat ∧ len.toNat < 12 + pos.toNat + 4)) :
    (streamAt env mem len pos reads).readString =
      (((12 + (pos + 4).toNat : Nat) : Ptr), readUint32At mem (12 + pos.toNat),
        streamAt env mem len (pos + 4 + readUint32At mem (12 + pos.toNat))
          (reads ++ [(12 + pos.toNat, 4)])) := by
  unfold CByteStreamIn.readString
  rw [readUint32_streamAt env mem reads hpos h]
  rfl

theorem readString_streamAt_short (hpos : pos.toNat < 1024)
    (h : 12 ≤ len.toNat ∧ len.toNat < 12 + pos.toNat + 4) :
    (streamAt env mem len pos reads).readString =
      (((12 + pos.toNat : Nat) : Ptr), env.word32 0,
        streamAt (env.shift 4) mem len (pos + env.word32 0) reads) := by
  unfold CByteStreamIn.readString
  rw [readUint32_streamAt_short env mem reads hpos h]
  rfl

end Reads

/-! ## The constructors -/

namespace PduClass

variable (env : Env) (mem : Nat → UInt8) (len : UInt32)

theorem readIf_short {len : UInt32} {off n : Nat} (h : 12 ≤ len.toNat ∧ len.toNat < off + n) :
    readIf len off n = [] := if_pos h

theorem readIf_fits {len : UInt32} {off n : Nat} (h : ¬ (12 ≤ len.toNat ∧ len.toNat < off + n)) :
    readIf len off n = [(off, n)] := if_neg h

theorem headerLen_add (x : UInt32) : headerLen + x = 12 + x := rfl

theorem decode_word (mk : UInt16 → PduBody) :
    (decodePdu env mem len fun is => (mk is.readUint16.1, is.readUint16.2)) =
      ⟨accept mem len (wordBody env mem len mk), headerReads ++ readIf len 12 2⟩ := by
  rw [decodePdu_eq, bodyStream_eq]
  unfold wordBody
  by_cases h : 12 ≤ len.toNat ∧ len.toNat < 14
  · rw [readUint16_streamAt_short env mem _ (by decide) h, readIf_short h, List.append_nil]
    simp only [streamAt, pos_test]
    rw [if_neg (show ¬ len.toNat = 14 by omega)]
    rfl
  · rw [readUint16_streamAt env mem _ (by decide) h, readIf_fits h]
    simp only [streamAt, pos_test]
    rw [if_neg (show ¬ len.toNat = 12 by omega)]
    rfl

theorem decode_rate :
    CImPduAdjustRate.decode env mem len =
      ⟨accept mem len (rateBody env mem len), headerReads ++ (readIf len 12 2 ++ readIf len 14 2)⟩ := by
  unfold CImPduAdjustRate.decode rateBody
  rw [decodePdu_eq, bodyStream_eq]
  by_cases h : 12 ≤ len.toNat ∧ len.toNat < 14
  · have hdelay := readUint16_streamAt_short env mem headerReads (show UInt32.toNat 0 < 1024 by decide) h
    have hmulti := readUint16_streamAt_short (env.shift 2) mem headerReads (show UInt32.toNat 0 < 1024 by decide) h
    simp only [hdelay, hmulti]
    rw [readIf_short h, readIf_short (show 12 ≤ len.toNat ∧ len.toNat < 14 + 2 by omega), List.append_nil,
      List.append_nil]
    simp only [streamAt, pos_test]
    rw [if_neg (show ¬ len.toNat = 16 by omega), if_neg (show ¬ len.toNat = 14 by omega)]
    rfl
  · have hdelay := readUint16_streamAt env mem headerReads (show UInt32.toNat 0 < 1024 by decide) h
    by_cases h' : 12 ≤ len.toNat ∧ len.toNat < 16
    · have hmulti := readUint16_streamAt_short env mem (headerReads ++ [(12, 2)])
        (show UInt32.toNat (0 + 2) < 1024 by decide) h'
      simp only [hdelay, UInt32.reduceToNat, hmulti]
      rw [readIf_fits h, readIf_short h', List.append_nil]
      simp only [streamAt, pos_test]
      rw [if_neg (show ¬ len.toNat = 16 by omega), if_neg (show ¬ len.toNat = 12 by omega)]
      rfl
    · have hmulti := readUint16_streamAt env mem (headerReads ++ [(12, 2)])
        (show UInt32.toNat (0 + 2) < 1024 by decide) h'
      simp only [hdelay, UInt32.reduceToNat, hmulti]
      rw [readIf_fits h, readIf_fits h', ← List.append_assoc]
      simp only [streamAt, pos_test]
      rw [if_neg (show ¬ len.toNat = 14 by omega), if_neg (show ¬ len.toNat = 12 by omega)]
      rfl

theorem decode_string (mk : Ptr → UInt32 → PduBody) :
    (decodePdu env mem len fun is => (mk is.readString.1 is.readString.2.1, is.readString.2.2)) =
      ⟨accept mem len (stringBody env mem len mk), headerReads ++ readIf len 12 4⟩ := by
  rw [decodePdu_eq, bodyStream_eq]
  unfold stringBody
  by_cases h : 12 ≤ len.toNat ∧ len.toNat < 16
  · rw [readString_streamAt_short env mem _ (by decide) h, readIf_short h, if_pos h, List.append_nil]
    simp only [streamAt, UInt32.zero_add]
    split
    · next he => rw [he]; rfl
    · rfl
  · rw [readString_streamAt env mem _ (by decide) h, readIf_fits h, if_neg h]
    simp only [streamAt, add_eq_sub_headerLen_iff, headerLen_add, UInt32.reduceAdd, UInt32.reduceToNat, Nat.add_zero]
    split
    · next he => rw [he]; rfl
    · rfl

theorem decode_optString (mk : Ptr → UInt32 → PduBody) :
    (decodePdu env mem len fun is =>
        if headerLen < len then (mk is.readString.1 is.readString.2.1, is.readString.2.2)
        else (mk env.jsonData env.jsonDataLen, is)) =
      ⟨accept mem len (optStringBody env mem len mk),
        headerReads ++ if 12 < len.toNat then readIf len 12 4 else []⟩ := by
  unfold optStringBody
  by_cases h : 12 < len.toNat
  · simp only [show headerLen < len from UInt32.lt_iff_toNat_lt.mpr h, if_true, if_pos h]
    exact decode_string env mem len mk
  · simp only [show ¬ headerLen < len from fun h' => h (UInt32.lt_iff_toNat_lt.mp h'), if_false, if_neg h]
    rw [decodePdu_eq, bodyStream_eq, List.append_nil]
    simp only [streamAt, pos_test]
    rfl

theorem decode_response :
    CImPduResponse.decode env mem len =
      ⟨accept mem len (responseBody env mem len), headerReads ++ bodyReads len response⟩ := by
  unfold CImPduResponse.decode responseBody bodyReads
  rw [decodePdu_eq, bodyStream_eq]
  by_cases h : 12 ≤ len.toNat ∧ len.toNat < 14
  · have hstatus := readUint16_streamAt_short env mem headerReads (show UInt32.toNat 0 < 1024 by decide) h
    have hmessage := readString_streamAt_short (env.shift 2) mem headerReads
      (show UInt32.toNat 0 < 1024 by decide) (show 12 ≤ len.toNat ∧ len.toNat < 12 + 0 + 4 by omega)
    simp only [hstatus, hmessage]
    rw [if_pos h, if_pos h, List.append_nil]
    have hlen : (env.shift 2).word32 0 = env.word32 2 := rfl
    simp only [streamAt, UInt32.zero_add, hlen, UInt32.reduceToNat, Nat.add_zero]
    split
    · next he => rw [he]; rfl
    · rfl
  · have hstatus := readUint16_streamAt env mem headerReads (show UInt32.toNat 0 < 1024 by decide) h
    rw [readIf_fits h, if_neg h, if_neg h]
    by_cases h' : 14 ≤ len.toNat ∧ len.toNat < 18
    · have hmessage := readString_streamAt_short env mem (headerReads ++ [(12, 2)])
        (show UInt32.toNat (0 + 2) < 1024 by decide) (show 12 ≤ len.toNat ∧ len.toNat < 12 + 2 + 4 by omega)
      simp only [hstatus, UInt32.reduceToNat, hmessage]
      rw [readIf_short (show 12 ≤ len.toNat ∧ len.toNat < 14 + 4 by omega), if_pos h', List.append_nil]
      simp only [streamAt, add_eq_sub_headerLen_iff, headerLen_add, UInt32.reduceAdd, UInt32.reduceToNat, Nat.add_zero]
      split
      · next he => rw [he]; rfl
      · rfl
    · have hmessage := readString_streamAt env mem (headerReads ++ [(12, 2)])
        (show UInt32.toNat (0 + 2) < 1024 by decide) (show ¬ (12 ≤ len.toNat ∧ len.toNat < 12 + 2 + 4) by omega)
      simp only [hstatus, UInt32.reduceToNat, hmessage]
      rw [readIf_fits (show ¬ (12 ≤ len.toNat ∧ len.toNat < 14 + 4) by omega), if_neg h', ← List.append_assoc]
      simp only [streamAt, add_eq_sub_headerLen_iff, headerLen_add, UInt32.reduceAdd, UInt32.reduceToNat, Nat.add_zero,
        Nat.reduceAdd]
      split
      · next he => rw [he]; rfl
      · rfl

theorem decode_empty (body : PduBody) :
    (decodePdu env mem len fun is => (body, is)) = ⟨accept mem len (emptyBody len body), headerReads⟩ := by
  rw [decodePdu_eq, bodyStream_eq]
  simp only [streamAt, pos_test]
  rfl

/-- Every decoding constructor in closed form. -/
theorem decode_eq (k : PduClass) :
    k.decode env mem len = ⟨accept mem len (k.body env mem len), headerReads ++ k.bodyReads len⟩ := by
  cases k with
  | serverCommand => exact decode_word env mem len .serverCommand
  | adjustRate => exact decode_rate env mem len
  | clientData => exact decode_string env mem len .clientData
  | serverStatusInfo => exact decode_optString env mem len .serverStatusInfo
  | allClientStatusInfo => exact decode_empty env mem len .allClientStatusInfo
  | heartbeat => exact decode_optString env mem len .heartbeat
  | response => exact decode_response env mem len
  | regClientType => exact decode_word env mem len .regClientType
  | clientDone => exact decode_empty env mem len .clientDone

end PduClass

/-- What lies behind the buffer matters only through the memory. -/
theorem dispatch_beyond (env : Env) (beyond : Nat → UInt8) (m c : UInt16) (mem : Nat → UInt8) (len : UInt32) :
    dispatch { env with beyond := beyond } m c mem len = dispatch env m c mem len := by
  cases hk : classOf m c with
  | none =>
    obtain ⟨e, he⟩ := dispatch_of_none hk
    rw [he, he]
  | some k =>
    rw [dispatch_of_class hk, dispatch_of_class hk, PduClass.decode_eq, PduClass.decode_eq]
    cases k <;> rfl

/-! ## `ReadPdu` -/

/-- The declared length of a buffer. -/
def declaredLen (env : Env) (buf : List UInt8) : UInt32 := readUint32At (env.mem buf) 0

/-- The class of the frame at the front of a buffer. -/
def frameClass (env : Env) (buf : List UInt8) : Option PduClass :=
  classOf (readUint16At (env.mem buf) 4) (readUint16At (env.mem buf) 6)

section ReadPdu
variable (env : Env) (buf : List UInt8) (len : UInt32)

/-- Two buffers with the same memory are read alike. -/
theorem readPdu_mem {beyond : Nat → UInt8} {buf' : List UInt8}
    (h : Env.mem { env with beyond := beyond } buf' = env.mem buf) :
    readPdu { env with beyond := beyond } buf' len = readPdu env buf len := by
  unfold readPdu
  simp only [h, dispatch_beyond]

/-- An incomplete frame: `ReadPdu` returns `NULL`. -/
theorem readPdu_incomplete (h : len.toNat < 12 ∨ len.toNat < (declaredLen env buf).toNat) :
    (readPdu env buf len).value = .ok none ∧
      ∀ r ∈ (readPdu env buf len).reads, r = (0, 4) ∧ 12 ≤ len.toNat := by
  unfold readPdu isPduAvailable
  by_cases hlen : len < headerLen
  · simp [if_pos hlen]
  · have h12 : 12 ≤ len.toNat := by
      rw [UInt32.lt_iff_toNat_lt] at hlen
      exact Nat.le_of_not_lt hlen
    have hlt : len < readUint32At (env.mem buf) 0 := UInt32.lt_iff_toNat_lt.mpr (by
      unfold declaredLen at h
      omega)
    simp [if_neg hlen, if_pos hlt, h12]

theorem readPdu_complete (h12 : 12 ≤ len.toNat) (h : (declaredLen env buf).toNat ≤ len.toNat) :
    readPdu env buf len =
      let r := dispatch env (readUint16At (env.mem buf) 4) (readUint16At (env.mem buf) 6) (env.mem buf)
        (declaredLen env buf)
      ⟨r.value.map some, [(0, 4), (4, 2), (6, 2)] ++ r.reads⟩ := by
  have hlen : ¬ len < headerLen := by
    rw [UInt32.lt_iff_toNat_lt]
    exact Nat.not_lt.mpr h12
  have hlt : ¬ len < readUint32At (env.mem buf) 0 := by
    rw [UInt32.lt_iff_toNat_lt]
    unfold declaredLen at h
    omega
  unfold readPdu isPduAvailable
  simp only [if_neg hlen, if_neg hlt]
  rfl

/-- A complete frame of a known class: what the class builds, or a parse error. -/
theorem readPdu_of_class (h12 : 12 ≤ len.toNat) (h : (declaredLen env buf).toNat ≤ len.toNat) {k : PduClass}
    (hk : frameClass env buf = some k) :
    readPdu env buf len =
      ⟨(accept (env.mem buf) (declaredLen env buf) (k.body env (env.mem buf) (declaredLen env buf))).map some,
        [(0, 4), (4, 2), (6, 2)] ++ (headerReads ++ k.bodyReads (declaredLen env buf))⟩ := by
  rw [readPdu_complete env buf len h12 h, dispatch_of_class hk, PduClass.decode_eq]

/-- A complete frame of no class: a wrong-id exception before anything more is read. -/
theorem readPdu_of_no_class (h12 : 12 ≤ len.toNat) (h : (declaredLen env buf).toNat ≤ len.toNat)
    (hk : frameClass env buf = none) :
    ∃ e, readPdu env buf len = ⟨.error e, [(0, 4), (4, 2), (6, 2)]⟩ := by
  obtain ⟨e, he⟩ := dispatch_of_none hk
  refine ⟨e, ?_⟩
  rw [readPdu_complete env buf len h12 h, he]
  rfl

end ReadPdu

end PostfixEdm
