import PostfixEdm.Php.EdmController
import PostfixEdm.Server.ClientList

/-!
# The list of all clients on the page: `actionGetAllClientStatus`

* `EdmController.recv` : one read of at most 1024 bytes; `EdmController.unpack`, `EdmController.clientText` : the text
  that the page takes from it;
* `replies_actionGetAllClientStatus` : the request of the page is answered with the text of the server;
* `clientText_recv_iff` : the page has that text exactly when the reply is not longer than the read.
-/

namespace PostfixEdm.EdmController
open Php BigEndian

/-- `recv`, when `arrived` bytes of the reply are there. -/
def recv (reply : List UInt8) (arrived : Nat) : List UInt8 := reply.take (min arrived 1024)

/-- `$header_unpack_format` -/
def headerUnpackFormat : List UInt8 := ascii "Npdu_len/nmodule_id/ncommand_id/nversion_id/nreserve_id/"

/-- `BaseClientController::unpack` -/
def unpack (dataFormat binStr : List UInt8) : Option (PhpArray Value) :=
  Php.unpack (headerUnpackFormat ++ dataFormat) binStr

/-- What `actionGetAllClientStatus` decodes; `none` is one of its errors. -/
def clientText (recvBin : List UInt8) : Option (List UInt8) := do
  let data ← unpack (ascii "Ndata_len/A*") recvBin
  if data.get (.str (ascii "data_len")) = some (.int 0) then none
  else
    match data.pop with
    | some (.str text) => some text
    | _ => none

/-- The server reads the request of the page, and answers it with its text. -/
theorem replies_actionGetAllClientStatus (env : Env) (look : Lookup) (mgr : Manager) (clientType : UInt16) :
    ∃ bytes pdu, actionGetAllClientStatus = some bytes ∧
      (readPdu env bytes (UInt32.ofNat bytes.length)).value = .ok (some pdu) ∧
      (ServConn.handlePdu look mgr clientType pdu).replies = [.allClientStatusInfo look.allClientStatus] := by
  have hpack : actionGetAllClientStatus = _ := pack_eq rfl rfl
  have hlen : (frame sidMsg cidMsgAllClientStatusInfo []).length = 12 := length_frame ..
  let b : UcharBuf := ⟨frame sidMsg cidMsgAllClientStatusInfo [], by omega⟩
  have hstarts : Starts b sidMsg cidMsgAllClientStatusInfo [] := ⟨⟨[], (List.append_nil _).symm⟩, by decide⟩
  have hbody : PduClass.allClientStatusInfo.body env (env.mem b.bytes) b.pduLen = some .allClientStatusInfo :=
    if_pos hstarts.toNat_pduLen
  exact ⟨b.bytes, _, hpack.trans (if_pos (by decide)), hstarts.readPdu_of_body rfl hbody, rfl⟩

/-- The codes of the reply, with their names. -/
def replyCodes : List (Code × List UInt8) :=
  [(.long, ascii "pdu_len"), (.short, ascii "module_id"), (.short, ascii "command_id"), (.short, ascii "version_id"),
    (.short, ascii "reserve_id"), (.long, ascii "data_len"), (.string, [])]

theorem unpack_eq (binStr : List UInt8) :
    unpack (ascii "Ndata_len/A*") binStr = (unpackCodes replyCodes binStr).map .ofEntries := by
  have hcodes : ((headerUnpackFormat ++ ascii "Ndata_len/A*").splitOn 47).mapM parseSegment = some replyCodes := by
    decide
  rw [unpack, Php.unpack, hcodes]
  simp only [Option.bind_eq_bind, Option.bind_some]
  cases unpackCodes replyCodes binStr <;> rfl

/-- The entries of a reply. -/
theorem entries_unpack {binStr : List UInt8} {entries : List (Key × Value)}
    (h : unpackCodes replyCodes binStr = some entries) : (PhpArray.ofEntries entries).entries = entries := by
  apply PhpArray.entries_ofEntries
  rw [keys_unpackCodes h]
  decide

/-- A reply that is all there. -/
theorem clientText_frame {moduleId commandId : UInt16} {text : List UInt8} (hne : UInt32.ofNat text.length ≠ 0) :
    clientText (frame moduleId commandId (CByteStreamOut.lengthPrefixed text)) = some (text.rdropWhile isPadding) := by
  have hreply : unpackCodes replyCodes (frame moduleId commandId (CByteStreamOut.lengthPrefixed text)) = some
      [(.str (ascii "pdu_len"), .int (UInt32.ofNat (12 + (CByteStreamOut.lengthPrefixed text).length)).toNat),
        (.str (ascii "module_id"), .int moduleId.toNat), (.str (ascii "command_id"), .int commandId.toNat),
        (.str (ascii "version_id"), .int pduVersion.toNat), (.str (ascii "reserve_id"), .int (0 : UInt16).toNat),
        (.str (ascii "data_len"), .int (UInt32.ofNat text.length).toNat),
        (.int 1, .str (text.rdropWhile isPadding))] := by
    rw [frame]
    nth_rewrite 2 [CByteStreamOut.lengthPrefixed]
    simp only [List.append_assoc]
    exact unpackCodes_cons (unpack_be32 _ _) (unpackCodes_cons (unpack_be16 _ _) (unpackCodes_cons (unpack_be16 _ _)
      (unpackCodes_cons (unpack_be16 _ _) (unpackCodes_cons (unpack_be16 _ _) (unpackCodes_cons (unpack_be32 _ _)
        (unpackCodes_cons rfl rfl))))))
  have hzero : ¬ some (Value.int (UInt32.ofNat text.length).toNat) = some (.int 0) := by
    intro h
    have hnat : ((UInt32.ofNat text.length).toNat : Int) = 0 := Value.int.inj (Option.some.inj h)
    exact hne (UInt32.toNat_inj.mp (Int.ofNat.inj hnat))
  rw [clientText, unpack_eq, hreply]
  simp only [Option.map_some, Option.bind_eq_bind, Option.bind_some, PhpArray.get, PhpArray.pop, PhpArray.values,
    entries_unpack hreply]
  exact if_neg hzero

/-- The header and the length are in front of the text that is taken. -/
theorem length_clientText {recvBin text : List UInt8} (h : clientText recvBin = some text) :
    16 + text.length ≤ recvBin.length := by
  rw [clientText, unpack_eq] at h
  obtain ⟨data, hdata, htext⟩ := Option.bind_eq_some_iff.mp h
  obtain ⟨entries, hentries, rfl⟩ := Option.map_eq_some_iff.mp hdata
  split at htext
  · cases htext
  · split at htext
    · next other hpop =>
      cases htext
      rw [PhpArray.pop, PhpArray.values, entries_unpack hentries] at hpop
      exact length_unpackCodes hentries hpop
    · cases htext

/-- The page has the text of the server exactly when one read takes all of the reply. -/
theorem clientText_recv_iff (clients : ClientList) (heap : Heap) (arrived : Nat) :
    clientText (recv (CImPduAllClientStatusInfo.encode heap (allClientStatus clients)).contents arrived) =
      some (allClientStatus clients) ↔ 16 + (allClientStatus clients).length ≤ min arrived 1024 := by
  constructor
  · intro h
    have := length_clientText h
    rw [recv, List.length_take] at this
    omega
  · intro h
    obtain ⟨text, htext⟩ := allClientStatus_eq clients
    have hlen : (CByteStreamOut.lengthPrefixed (allClientStatus clients)).length =
        4 + (allClientStatus clients).length := CByteStreamOut.length_lengthPrefixed _
    have henc : (OutPdu.allClientStatusInfo (allClientStatus clients)).Encodable := by
      refine ⟨?_, fun s hs => ?_⟩
      · rw [OutPdu.body, hlen]
        omega
      · rw [List.mem_singleton.mp hs]
        exact nul_notMem_allClientStatus clients
    have hcontents : (CImPduAllClientStatusInfo.encode heap (allClientStatus clients)).contents =
        frame sidMsg cidMsgAllClientStatusInfo (CByteStreamOut.lengthPrefixed (allClientStatus clients)) :=
      (OutPdu.encode_contents heap henc).1
    have hstrip : (allClientStatus clients).rdropWhile isPadding = allClientStatus clients := by
      rw [htext]
      exact List.rdropWhile_concat_neg isPadding text 125 (by decide)
    rw [recv, hcontents, List.take_of_length_le (by rw [length_frame, hlen]; omega), clientText_frame, hstrip]
    intro hzero
    have := congrArg UInt32.toNat hzero
    rw [UInt32.toNat_ofNat', Nat.mod_eq_of_lt (by omega), htext, List.length_append] at this
    exact Nat.succ_ne_zero _ this

/-- Ten clients. -/
def tenClients : ClientList :=
  (List.range 10).map fun n => ⟨.ofBytes (ascii "10.0.0." ++ decimal n), .ofBytes (ascii "news@example.com"), 0, 0⟩

/-- Their reply is longer than the read, even when all of it is there. -/
theorem not_clientText_tenClients : ¬ ∀ (clients : ClientList) (heap : Heap) (arrived : Nat), 0 < arrived →
    clientText (recv (CImPduAllClientStatusInfo.encode heap (allClientStatus clients)).contents arrived) =
      some (allClientStatus clients) := by
  intro h
  have hroom := length_clientText (h tenClients (fun _ _ => 0) 4096 (by decide))
  have hlong : 1008 < (allClientStatus tenClients).length := by decide +kernel
  rw [recv, List.length_take] at hroom
  omega

end PostfixEdm.EdmController
