import PostfixEdm.Php.AdjustRate
import PostfixEdm.Php.AllClientStatus
import PostfixEdm.System.Statuses

/-!
# What the pages make of the answers

* `EdmController.commandReply` : the end of `actionServerCommand` and of `actionAdjustRate`;
  `EdmController.statusReply` : that of `getServerStatusInfo`;
* `EdmController.commandReply_response` : the outcome of a response, by how much of it has arrived;
* `EdmController.serverCommand_page` : a command, from the page to the server, its clients and back;
* `EdmController.serverStatusInfo_page` : the state of the server, on the index page.
-/

namespace PostfixEdm.EdmController
open Php BigEndian

/-- `ajaxOutput` and `ajaxError` -/
inductive Ajax
  | output
  | error (status : Value) (message : Value)
  deriving DecidableEq

/-- "服务器是不是感冒了" -/
def coldText : List UInt8 := "服务器是不是感冒了".toUTF8.toList

/-- "服务器神经错乱了" -/
def confusedText : List UInt8 := "服务器神经错乱了".toUTF8.toList

def isServerResponsePacket (data : PhpArray Value) : Bool :=
  data.get (.str (ascii "module_id")) = some (.int 3) && data.get (.str (ascii "command_id")) = some (.int 2)

def isServerStatusPacket (data : PhpArray Value) : Bool :=
  data.get (.str (ascii "module_id")) = some (.int 2) && data.get (.str (ascii "command_id")) = some (.int 2)

/-- `!$recv_bin` : of the strings, the empty one and "0" are false. -/
def IsFalsy (recvBin : List UInt8) : Prop := recvBin = [] ∨ recvBin = [48]

instance (recvBin : List UInt8) : Decidable (IsFalsy recvBin) := inferInstanceAs (Decidable (_ ∨ _))

/-- The page after `recv`. FALSE is no array, and ends the script. -/
def commandReply (recvBin : List UInt8) : Option Ajax :=
  if IsFalsy recvBin then some (.error (.int (-1)) (.str coldText))
  else do
    let data ← unpack (ascii "nstatus/Nmsg_len/A*") recvBin
    if ¬ isServerResponsePacket data then some (.error (.int (-1)) (.str confusedText))
    else if data.get (.str (ascii "status")) = some (.int 0) then some .output
    else some (.error (← data.get (.str (ascii "status"))) (← data.pop))

/-- The text that `getServerStatusInfo` decodes; `none` when it has no information. -/
def statusReply (recvBin : List UInt8) : Option (List UInt8) :=
  if IsFalsy recvBin then none
  else do
    let data ← unpack (ascii "Ndata_len/A*") recvBin
    if isServerStatusPacket data then
      match data.pop with
      | some (.str text) => some text
      | _ => none
    else none

/-! ## Responses -/

/-- The codes of a response, with their names. -/
def responseCodes : List (Code × List UInt8) :=
  [(.long, ascii "pdu_len"), (.short, ascii "module_id"), (.short, ascii "command_id"), (.short, ascii "version_id"),
    (.short, ascii "reserve_id"), (.short, ascii "status"), (.long, ascii "msg_len"), (.string, [])]

theorem unpack_responseCodes (binStr : List UInt8) :
    unpack (ascii "nstatus/Nmsg_len/A*") binStr = (unpackCodes responseCodes binStr).map .ofEntries := by
  have hcodes : ((headerUnpackFormat ++ ascii "nstatus/Nmsg_len/A*").splitOn 47).mapM parseSegment =
      some responseCodes := by decide
  rw [unpack, Php.unpack, hcodes]
  simp only [Option.bind_eq_bind, Option.bind_some]
  cases unpackCodes responseCodes binStr <;> rfl

variable {status : UInt16} {message : List UInt8}

/-- `CImPduResponse`, as it is sent. -/
def response (status : UInt16) (message : List UInt8) : List UInt8 :=
  frame sidOther cidOtherResponse (be16 status ++ CByteStreamOut.lengthPrefixed message)

/-- What is in front of the message. -/
theorem take_response {n : Nat} (hn : 18 ≤ n) : (response status message).take n =
    be32 (UInt32.ofNat (12 + (be16 status ++ CByteStreamOut.lengthPrefixed message).length)) ++ (be16 sidOther ++
      (be16 cidOtherResponse ++ (be16 pduVersion ++ (be16 0 ++ (be16 status ++
        (be32 (UInt32.ofNat message.length) ++ message.take (n - 18))))))) := by
  have hfront : ∀ (a b : List UInt8) (k : Nat), a.length ≤ k → (a ++ b).take k = a ++ b.take (k - a.length) := by
    intro a b k hk
    rw [List.take_append, List.take_of_length_le hk]
  rw [response, frame, CByteStreamOut.lengthPrefixed]
  simp only [List.append_assoc]
  rw [hfront, hfront, hfront, hfront, hfront, hfront, hfront]
  · simp only [length_be32, length_be16, Nat.sub_sub]
  all_goals simp only [length_be32, length_be16]
  all_goals omega

/-- The entries of a response of which 18 bytes or more are there. -/
theorem unpackCodes_response {n : Nat} (hn : 18 ≤ n) :
    unpackCodes responseCodes ((response status message).take n) = some
      [(.str (ascii "pdu_len"), .int (UInt32.ofNat
          (12 + (be16 status ++ CByteStreamOut.lengthPrefixed message).length)).toNat),
        (.str (ascii "module_id"), .int sidOther.toNat), (.str (ascii "command_id"), .int cidOtherResponse.toNat),
        (.str (ascii "version_id"), .int pduVersion.toNat), (.str (ascii "reserve_id"), .int (0 : UInt16).toNat),
        (.str (ascii "status"), .int status.toNat),
        (.str (ascii "msg_len"), .int (UInt32.ofNat message.length).toNat),
        (.int 1, .str ((message.take (n - 18)).rdropWhile isPadding))] := by
  rw [take_response hn]
  exact unpackCodes_cons (unpack_be32 _ _) (unpackCodes_cons (unpack_be16 _ _) (unpackCodes_cons (unpack_be16 _ _)
    (unpackCodes_cons (unpack_be16 _ _) (unpackCodes_cons (unpack_be16 _ _) (unpackCodes_cons (unpack_be16 _ _)
      (unpackCodes_cons (unpack_be32 _ _) (unpackCodes_cons rfl rfl)))))))

/-- What the page finds in it. -/
theorem exists_data_response {n : Nat} (hn : 18 ≤ n) :
    ∃ data, unpack (ascii "nstatus/Nmsg_len/A*") ((response status message).take n) = some data ∧
      isServerResponsePacket data ∧ data.get (.str (ascii "status")) = some (.int status.toNat) ∧
      data.pop = some (.str ((message.take (n - 18)).rdropWhile isPadding)) := by
  have hunpack : unpackCodes responseCodes ((response status message).take n) = _ := unpackCodes_response hn
  have hentries : (PhpArray.ofEntries _).entries = _ := PhpArray.entries_ofEntries (by
    rw [keys_unpackCodes hunpack]
    decide)
  refine ⟨_, by rw [unpack_responseCodes, hunpack, Option.map_some], ?_, ?_, ?_⟩
  · simp only [isServerResponsePacket, PhpArray.get, hentries]
    rfl
  · rw [PhpArray.get, hentries]
    rfl
  · rw [PhpArray.pop, PhpArray.values, hentries]
    rfl

/-- The outcome of a response, by how many of its bytes are read. -/
theorem commandReply_response (hlen : message.length < 2 ^ 24) (n : Nat) :
    commandReply ((response status message).take n) =
      if n = 0 then some (.error (.int (-1)) (.str coldText))
      else if n < 18 then none
      else if status = 0 then some .output
      else some (.error (.int status.toNat) (.str ((message.take (n - 18)).rdropWhile isPadding))) := by
  by_cases hzero : n = 0
  · rw [hzero, if_pos rfl, List.take_zero]
    exact if_pos (Or.inl rfl)
  -- the first byte is one of the length
  have htrue : ¬ IsFalsy ((response status message).take n) := by
    obtain ⟨k, rfl⟩ := Nat.exists_eq_succ_of_ne_zero hzero
    rintro (h | h)
    · cases h
    · have hfirst : (UInt32.ofNat (12 + (be16 status ++ CByteStreamOut.lengthPrefixed message).length) >>> 24).toUInt8 =
          48 := (List.cons.inj h).1
      have hnat := congrArg UInt8.toNat hfirst
      rw [UInt32.toNat_toUInt8, UInt32.toNat_shiftRight, UInt32.toNat_ofNat', List.length_append, length_be16,
        CByteStreamOut.length_lengthPrefixed, Nat.shiftRight_eq_div_pow] at hnat
      have h24 : (24 : UInt32).toNat % 32 = 24 := rfl
      have h48 : (48 : UInt8).toNat = 48 := rfl
      rw [h24, h48] at hnat
      omega
  rw [if_neg hzero, commandReply, if_neg htrue]
  by_cases hshort : n < 18
  · rw [if_pos hshort, unpack_responseCodes]
    cases hunpack : unpackCodes responseCodes ((response status message).take n) with
    | none => rfl
    | some entries =>
      have hwidth := sum_width_le hunpack
      have hsum : (responseCodes.map fun c => c.1.width).sum = 18 := rfl
      have htake := List.length_take_le n (response status message)
      omega
  · obtain ⟨data, hunpack, hpacket, hstatus, hpop⟩ :
        ∃ data, unpack _ ((response status message).take n) = some data ∧ _ :=
      exists_data_response (Nat.le_of_not_lt hshort)
    rw [if_neg hshort, hunpack]
    simp only [Option.bind_eq_bind, Option.bind_some, hpacket, not_true_eq_false, if_false, hstatus, hpop]
    by_cases hok : status = 0
    · rw [if_pos hok, hok]
      rfl
    · have hne : ¬ some (Value.int status.toNat) = some (.int 0) := by
        intro h
        have hnat : (status.toNat : Int) = 0 := Value.int.inj (Option.some.inj h)
        exact hok (UInt16.toNat_inj.mp (Int.ofNat.inj hnat))
      rw [if_neg hok, if_neg hne]

/-! ## Commands -/

/-- What a command of the page does to the state of a job. The fifth is taken for a change of the rate, which has one
word too few: the other one is an array that no read filled. -/
def commandEffect (env : Env) (command : Int) (job : Job) : Job :=
  if command = Command.adjustRate then { job with delay := UInt16.ofInt command, multi := env.word16 0 }
  else { job with status := UInt16.ofInt command }

/-- The class of a command, and what its constructor builds. -/
theorem body_serverCommand {command : Int} (h : command ∈ Command.all) (env : Env) {b : UcharBuf}
    (hs : Starts b sidCommand (UInt16.ofInt command) (be16 (UInt16.ofInt command))) :
    ∃ k, classOf sidCommand (UInt16.ofInt command) = some k ∧ k.body env (env.mem b.bytes) b.pduLen = some
      (if command = Command.adjustRate then .adjustRate (UInt16.ofInt command) (env.word16 0)
        else .serverCommand (UInt16.ofInt command)) := by
  have hlen : b.pduLen.toNat = 14 := hs.toNat_pduLen
  have hword : readUint16At (env.mem b.bytes) 12 = UInt16.ofInt command := by
    rw [readUint16At_eq_iff, ← hs.bodyAt_eq env, bodyAt, hlen]
  by_cases hrate : command = Command.adjustRate
  · refine ⟨.adjustRate, by rw [hrate]; rfl, ?_⟩
    rw [if_pos hrate, PduClass.body, PduClass.rateBody, if_neg (by omega), if_pos hlen, hword]
  · refine ⟨.serverCommand, ?_, ?_⟩
    · have hcommand : ∀ c ∈ Command.all, c ≠ Command.adjustRate →
          classOf sidCommand (UInt16.ofInt c) = some .serverCommand := by decide
      exact hcommand command h hrate
    · rw [if_neg hrate, PduClass.body, PduClass.wordBody, if_pos hlen, hword]

theorem readPdu_serverCommand {command : Int} (h : command ∈ Command.all) (env : Env) :
    ∃ bytes pdu, actionServerCommand command = some bytes ∧
      (readPdu env bytes (UInt32.ofNat bytes.length)).value = .ok (some pdu) ∧
      pdu.body = if command = Command.adjustRate then .adjustRate (UInt16.ofInt command) (env.word16 0)
        else .serverCommand (UInt16.ofInt command) := by
  let heap : Heap := fun _ _ => 0
  let m : OutPdu := .serverCommand (UInt16.ofInt command)
  have hencodable : m.Encodable := ⟨show 12 + 2 < 2 ^ 31 by decide, nofun⟩
  obtain ⟨b, hbytes, hs, hread⟩ := exists_ucharBuf heap env hencodable
  obtain ⟨k, hclass, hbody⟩ := body_serverCommand h env hs
  obtain ⟨hcontents, hoffset⟩ := OutPdu.encode_contents heap hencodable
  have hlen : UInt32.ofNat (m.encode heap).contents.length = (m.encode heap).writeOffset := by
    rw [hoffset, hcontents, length_frame]
  have hvalue := hs.readPdu_of_body hclass hbody
  rw [← hread, ← hlen] at hvalue
  exact ⟨_, _, actionServerCommand_eq heap h, hvalue, rfl⟩

/-- A client does with a broadcast what the server did. -/
theorem handle_broadcast {m : OutPdu} (hm : m.Encodable) (hframed : m.Framed) (hserver : m.FromServer)
    {effect : Job → Job} (heffect : ∀ parse worker, ClientConn.apply parse worker m = effect worker) (heap : Heap)
    (env : Env) (parse : JsonReader) (worker : Job) : ∃ pdu mem, receive heap env m = some (pdu, mem) ∧
      ClientConn.handlePdu parse mem pdu worker = effect worker := by
  obtain ⟨pdu, mem, hreceive, hcarries⟩ := receive_framed heap env hm hframed
  refine ⟨pdu, mem, hreceive, ?_⟩
  rw [ClientConn.handlePdu_carries parse hserver hcarries, heffect]

/-- The answer of success, on the page. -/
theorem commandReply_success (heap : Heap) (arrived : Nat) :
    commandReply (recv ((OutPdu.response 0 successText).encode heap).contents arrived) = some .output ↔
      18 ≤ arrived := by
  have hencodable : (OutPdu.response 0 successText).Encodable := ⟨by decide, by decide⟩
  have hcontents : ((OutPdu.response 0 successText).encode heap).contents = response 0 successText :=
    (OutPdu.encode_contents heap hencodable).1
  rw [recv, hcontents, commandReply_response (by decide)]
  by_cases harrived : 18 ≤ arrived
  · rw [if_neg (by omega), if_neg (by omega), if_pos rfl]
    exact iff_of_true rfl harrived
  · refine iff_of_false ?_ harrived
    intro h
    by_cases hzero : min arrived 1024 = 0
    · rw [if_pos hzero] at h
      cases h
    · rw [if_neg hzero, if_pos (by omega)] at h
      cases h

theorem isServCommand_page {command : Int} (h : command ∈ Command.all) (hrate : command ≠ Command.adjustRate) :
    IsServCommand (UInt16.ofInt command) := by
  have hall : ∀ c ∈ Command.all, c ≠ Command.adjustRate → IsServCommand (UInt16.ofInt c) := by decide
  exact hall command h hrate

/-- The server has the other four. -/
theorem runCommand_page {command : Int} (h : command ∈ Command.all) (hrate : command ≠ Command.adjustRate)
    (look : Lookup) (mgr : Manager) : ∃ mgr', ServConn.runCommand look (UInt16.ofInt command) mgr =
      some (.serverCommand (UInt16.ofInt command), mgr') ∧
      mgr'.job = { mgr.job with status := UInt16.ofInt command } := by
  obtain hcommand | hcommand | hcommand | hcommand := isServCommand_page h hrate
  all_goals rw [hcommand]
  · exact ⟨(mgr.start look.totalNum).2, rfl, rfl⟩
  · exact ⟨mgr.stop.2, rfl, rfl⟩
  · exact ⟨mgr.pause.2, rfl, rfl⟩
  · exact ⟨mgr.resume.2, rfl, rfl⟩

/-- A command of the page: the server does with its state what every client does with its own, and answers with success.
The page says so exactly when 18 bytes of the answer or more are there. -/
theorem serverCommand_page {command : Int} (h : command ∈ Command.all) (env : Env) (look : Lookup) (mgr : Manager)
    (clientType : UInt16) :
    ∃ bytes pdu m reply, actionServerCommand command = some bytes ∧
      (readPdu env bytes (UInt32.ofNat bytes.length)).value = .ok (some pdu) ∧
      (ServConn.handlePdu look mgr clientType pdu).manager.job = commandEffect env command mgr.job ∧
      (ServConn.handlePdu look mgr clientType pdu).broadcast = [m] ∧
      (∀ heap env' parse worker, ∃ pdu mem, receive heap env' m = some (pdu, mem) ∧
        ClientConn.handlePdu parse mem pdu worker = commandEffect env command worker) ∧
      (ServConn.handlePdu look mgr clientType pdu).replies = [reply] ∧
      ∀ heap arrived, commandReply (recv (reply.encode heap).contents arrived) = some .output ↔ 18 ≤ arrived := by
  obtain ⟨bytes, pdu, hbytes, hread, hbody⟩ := readPdu_serverCommand h env
  by_cases hrate : command = Command.adjustRate
  · rw [if_pos hrate] at hbody
    have hhandle := AdjustRate.handlePdu_adjustRate hbody look mgr clientType
    refine ⟨bytes, pdu, .adjustRate (UInt16.ofInt command) (env.word16 0), .response 0 successText, hbytes, hread, ?_,
      ?_, ?_, ?_, commandReply_success⟩
    · rw [hhandle, commandEffect, if_pos hrate]
      rfl
    · rw [hhandle]
    · refine handle_broadcast (AdjustRate.encodable_adjustRate _ _) trivial trivial ?_
      intro parse worker
      rw [commandEffect, if_pos hrate]
      rfl
    · rw [hhandle]
  · rw [if_neg hrate] at hbody
    obtain ⟨mgr', hrun, hjob⟩ := runCommand_page h hrate look mgr
    have hhandle : ServConn.handlePdu look mgr clientType pdu = ⟨some .handleServerCommand, mgr', clientType,
        [.serverCommand (UInt16.ofInt command)], [.response 0 successText]⟩ := by
      unfold ServConn.handlePdu
      rw [hbody]
      simp only [hrun]
    refine ⟨bytes, pdu, .serverCommand (UInt16.ofInt command), .response 0 successText, hbytes, hread, ?_, ?_, ?_, ?_,
      commandReply_success⟩
    · rw [hhandle, hjob, commandEffect, if_neg hrate]
    · rw [hhandle]
    · have hencodable : (OutPdu.serverCommand (UInt16.ofInt command)).Encodable :=
        ⟨show 12 + 2 < 2 ^ 31 by decide, nofun⟩
      refine handle_broadcast hencodable (isServCommand_page h hrate) trivial ?_
      intro parse worker
      rw [commandEffect, if_neg hrate]
      rfl
    · rw [hhandle]

/-- The fifth command, with the word that happens to lie there. -/
theorem serverCommand_page_adjustRate :
    ∃ bytes pdu m reply, actionServerCommand 16 = some bytes ∧
      (readPdu ⟨fun _ => 0, fun _ => 7, 0, 0⟩ bytes (UInt32.ofNat bytes.length)).value = .ok (some pdu) ∧
      (ServConn.handlePdu ⟨0, 0, []⟩ (.init 0) PostfixEdm.clientPhp pdu).manager.job = ⟨cidCommandStop, 16, 1799⟩ ∧
      (ServConn.handlePdu ⟨0, 0, []⟩ (.init 0) PostfixEdm.clientPhp pdu).broadcast = [m] ∧
      (∀ heap env' parse worker, ∃ pdu mem, receive heap env' m = some (pdu, mem) ∧
        ClientConn.handlePdu parse mem pdu worker = { worker with delay := 16, multi := 1799 }) ∧
      (ServConn.handlePdu ⟨0, 0, []⟩ (.init 0) PostfixEdm.clientPhp pdu).replies = [reply] ∧
      ∀ heap arrived, commandReply (recv (reply.encode heap).contents arrived) = some .output ↔ 18 ≤ arrived :=
  serverCommand_page (by decide) ⟨fun _ => 0, fun _ => 7, 0, 0⟩ ⟨0, 0, []⟩ (.init 0) PostfixEdm.clientPhp

/-! ## The state of the server -/

/-- What the page finds in an answer that is all there. -/
theorem exists_data_status (text : List UInt8) :
    ∃ data, unpack (ascii "Ndata_len/A*") (frame sidMsg cidMsgServerStatusInfo (CByteStreamOut.lengthPrefixed text)) =
      some data ∧ isServerStatusPacket data ∧ data.pop = some (.str (text.rdropWhile isPadding)) := by
  have hunpack : unpackCodes replyCodes (frame sidMsg cidMsgServerStatusInfo (CByteStreamOut.lengthPrefixed text)) =
      some [(.str (ascii "pdu_len"), .int (UInt32.ofNat (12 + (CByteStreamOut.lengthPrefixed text).length)).toNat),
        (.str (ascii "module_id"), .int sidMsg.toNat), (.str (ascii "command_id"), .int cidMsgServerStatusInfo.toNat),
        (.str (ascii "version_id"), .int pduVersion.toNat), (.str (ascii "reserve_id"), .int (0 : UInt16).toNat),
        (.str (ascii "data_len"), .int (UInt32.ofNat text.length).toNat),
        (.int 1, .str (text.rdropWhile isPadding))] := by
    rw [frame]
    nth_rewrite 2 [CByteStreamOut.lengthPrefixed]
    simp only [List.append_assoc]
    exact unpackCodes_cons (unpack_be32 _ _) (unpackCodes_cons (unpack_be16 _ _) (unpackCodes_cons (unpack_be16 _ _)
      (unpackCodes_cons (unpack_be16 _ _) (unpackCodes_cons (unpack_be16 _ _) (unpackCodes_cons (unpack_be32 _ _)
        (unpackCodes_cons rfl rfl))))))
  have hentries := entries_unpack hunpack
  refine ⟨_, by rw [unpack_eq, hunpack, Option.map_some], ?_, ?_⟩
  · simp only [isServerStatusPacket, PhpArray.get, hentries]
    rfl
  · rw [PhpArray.pop, PhpArray.values, hentries]
    rfl

/-- The header and the length are in front of the text. -/
theorem length_statusReply {recvBin text : List UInt8} (h : statusReply recvBin = some text) :
    16 + text.length ≤ recvBin.length := by
  rw [statusReply] at h
  split at h
  · cases h
  · rw [unpack_eq] at h
    obtain ⟨data, hdata, htext⟩ := Option.bind_eq_some_iff.mp h
    obtain ⟨entries, hentries, rfl⟩ := Option.map_eq_some_iff.mp hdata
    split at htext
    · split at htext
      · next other hpop =>
        cases htext
        rw [PhpArray.pop, PhpArray.values, entries_unpack hentries] at hpop
        exact length_unpackCodes hentries hpop
      · cases htext
    · cases htext

/-- The page has the text of the server exactly when all of the answer is there, for one read has room for it. -/
theorem statusReply_recv (info : ServerStatusInfo) (heap : Heap) (arrived : Nat) :
    statusReply (recv ((OutPdu.serverStatusInfo info.serialize).encode heap).contents arrived) = some info.serialize ↔
      16 + info.serialize.length ≤ arrived := by
  have hroom := info.length_serialize_le
  have hlen : (CByteStreamOut.lengthPrefixed info.serialize).length = 4 + info.serialize.length :=
    CByteStreamOut.length_lengthPrefixed _
  constructor
  · intro h
    have := length_statusReply h
    rw [recv, List.length_take] at this
    omega
  · intro h
    have hencodable : (OutPdu.serverStatusInfo info.serialize).Encodable := by
      refine ⟨?_, fun s hs => ?_⟩
      · rw [OutPdu.body, hlen]
        omega
      · rw [List.mem_singleton.mp hs]
        exact info.nul_notMem_serialize
    have hcontents : ((OutPdu.serverStatusInfo info.serialize).encode heap).contents =
        frame sidMsg cidMsgServerStatusInfo (CByteStreamOut.lengthPrefixed info.serialize) :=
      (OutPdu.encode_contents heap hencodable).1
    have hstrip : info.serialize.rdropWhile isPadding = info.serialize := by
      obtain ⟨text, htext⟩ : ∃ text, info.serialize = text ++ [125] := ⟨_, (List.append_assoc _ [10] [125]).symm⟩
      rw [htext]
      exact List.rdropWhile_concat_neg isPadding text 125 (by decide)
    obtain ⟨data, hunpack, hpacket, hpop⟩ := exists_data_status info.serialize
    have htrue : ¬ IsFalsy (frame sidMsg cidMsgServerStatusInfo (CByteStreamOut.lengthPrefixed info.serialize)) := by
      rintro (h | h)
      all_goals
        have := congrArg List.length h
        rw [length_frame] at this
        simp only [List.length_nil, List.length_singleton] at this
        omega
    rw [recv, hcontents, List.take_of_length_le (by rw [length_frame, hlen]; omega), statusReply, if_neg htrue, hunpack]
    simp only [Option.bind_eq_bind, Option.bind_some, hpacket, if_true, hpop, hstrip]

/-- The members that the page shows. -/
def statusMembers {δ : Type} (dbl : CDouble δ) (info : ServerStatusInfo) : JsonMembers δ :=
  .cons ⟨ascii "status", by decide⟩ (.number (dbl.ofInt info.job.status.toNat))
    (.cons ⟨ascii "delay", by decide⟩ (.number (dbl.ofInt info.job.delay.toNat))
      (.cons ⟨ascii "multi", by decide⟩ (.number (dbl.ofInt info.job.multi.toNat))
        (.cons ⟨ascii "totalNum", by decide⟩ (.number (dbl.ofInt info.totalNum.toNat))
          (.cons ⟨ascii "online_client_num", by decide⟩ (.number (dbl.ofInt info.onlineClientNum.toNat)) .nil))))

/-- The text of a total of 53 bits is JSON for these members. -/
theorem value_serialize {δ : Type} (dbl : CDouble δ) {info : ServerStatusInfo} (h : info.totalNum.toNat < 2 ^ 53) :
    Json.Value dbl info.serialize (.object (statusMembers dbl info)) := by
  have hword : ∀ n : UInt16, (n.toNat : Int).natAbs < 2 ^ 53 := by
    intro n
    have := n.toNat_lt
    omega
  have hself : ∀ n : UInt16, toDouble n.toNat = (n.toNat : Int) := fun n => toDouble_eq_self (hword n)
  have htotal : toDouble info.totalNum.toNat = (info.totalNum.toNat : Int) := toDouble_eq_self h
  rw [info.serialize_eq_print]
  simp only [wordItem, hself, htotal]
  apply CJson.value_print dbl
  simp only [CJson.Exact, CJsonItems.Exact]
  exact ⟨hword _, hword _, hword _, h, hword _, trivial⟩

/-- The index page asks for the state of the server: it has the text of it exactly when all of the answer is there, and
the text says what the state is. -/
theorem serverStatusInfo_page {δ : Type} (dbl : CDouble δ) (env : Env) (look : Lookup) (mgr : Manager)
    (clientType : UInt16) :
    ∃ bytes pdu text, getServerStatusInfo = some bytes ∧
      (readPdu env bytes (UInt32.ofNat bytes.length)).value = .ok (some pdu) ∧
      ServConn.handlePdu look mgr clientType pdu =
        ⟨some .handleServerStatusInfo, mgr, clientType, [], [.serverStatusInfo text]⟩ ∧
      (∀ heap arrived, statusReply (recv ((OutPdu.serverStatusInfo text).encode heap).contents arrived) = some text ↔
        16 + text.length ≤ arrived) ∧
      (mgr.totalNum.toNat < 2 ^ 53 → Json.Value dbl text (.object (statusMembers dbl mgr.statusInfo))) := by
  have hpack : getServerStatusInfo = _ := pack_eq rfl rfl
  have hlen : (frame sidMsg cidMsgServerStatusInfo []).length = 12 := length_frame ..
  let b : UcharBuf := ⟨frame sidMsg cidMsgServerStatusInfo [], by omega⟩
  have hstarts : Starts b sidMsg cidMsgServerStatusInfo [] := ⟨⟨[], (List.append_nil _).symm⟩, by decide⟩
  have hpduLen : b.pduLen.toNat = 12 := hstarts.toNat_pduLen
  have hbody : PduClass.serverStatusInfo.body env (env.mem b.bytes) b.pduLen =
      some (.serverStatusInfo env.jsonData env.jsonDataLen) := by
    rw [PduClass.body, PduClass.optStringBody, if_neg (by omega), if_pos hpduLen]
  have hvalue : mgr.totalNum.toNat < 2 ^ 53 →
      Json.Value dbl mgr.statusInfo.serialize (.object (statusMembers dbl mgr.statusInfo)) := fun htotal =>
    value_serialize dbl htotal
  exact ⟨b.bytes, _, mgr.statusInfo.serialize, hpack.trans (if_pos (by decide)), hstarts.readPdu_of_body rfl hbody,
    rfl, statusReply_recv mgr.statusInfo, hvalue⟩

end PostfixEdm.EdmController
