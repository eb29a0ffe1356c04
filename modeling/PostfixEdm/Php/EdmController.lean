import PostfixEdm.Base.Text
import PostfixEdm.Lib.PhpPack
import PostfixEdm.Pdu.Encode

/-!
# The encoder of the administrator's pages: `EdmController.php`

* `EdmController.pack` : `BaseClientController::pack`, which packs twice to know the length;
* `regClientType`, `actionServerCommand`, `actionAdjustRate`, `getServerStatusInfo`, `actionGetAllClientStatus`,
  `actionTest` : the strings that are sent; `none` where there is none;
* `pack_eq` : what is packed is a frame; `pack_eq_encode` : so the pages and the constructors encode alike.
-/

namespace PostfixEdm.EdmController
open Php BigEndian

def version : Int := 1
def clientPhp : Int := 2

namespace Module
def sidCommand : Int := 1
def sidMsg : Int := 2
def sidOther : Int := 3
end Module

namespace Command
def start : Int := 1
def stop : Int := 2
def pause : Int := 4
def resume : Int := 8
def adjustRate : Int := 16

/-- `getStaticProperties()` -/
def all : List Int := [start, stop, pause, resume, adjustRate]
end Command

namespace Msg
def cidMsgData : Int := 1
def cidMsgServerStatusInfo : Int := 2
def cidMsgAllClientStatusInfo : Int := 3
end Msg

namespace Other
def cidOtherRegClientType : Int := 3
end Other

/-- `$header_format` -/
def headerFormat : List UInt8 := ascii "Nnnnn"

/-- `$header_pack_args` -/
def headerPackArgs : PhpArray Value := .literal
  [(some (ascii "pdu_len"), .int 0), (some (ascii "module_id"), .int Module.sidOther),
    (some (ascii "command_id"), .int 0), (some (ascii "version_id"), .int version),
    (some (ascii "reserve_id"), .int 0)]

/-- `array('module_id' => ..., 'command_id' => ..., ...)` -/
def dataArgs (moduleId commandId : Int) (data : List Value) : PhpArray Value := .literal
  ([(some (ascii "module_id"), .int moduleId), (some (ascii "command_id"), .int commandId)] ++
    data.map fun v => (none, v))

/-- `pack`; `none` is an exception or FALSE, whose `strlen` is 0. -/
def pack (dataArgs : PhpArray Value) (dataFormat : List UInt8) : Option (List UInt8) :=
  if dataArgs.entries = [] then none
  else
    let packArgs := (headerPackArgs.merge dataArgs).unshift (.str (headerFormat ++ dataFormat))
    let packStr := (Php.pack packArgs.values).getD []
    Php.pack (packArgs.set (.str (ascii "pdu_len")) (.int packStr.length)).values

def regClientType : Option (List UInt8) :=
  pack (dataArgs Module.sidOther Other.cidOtherRegClientType [.int clientPhp]) (ascii "n")

/-- Another command is refused. -/
def actionServerCommand (command : Int) : Option (List UInt8) :=
  if command ∈ Command.all then pack (dataArgs Module.sidCommand command [.int command]) (ascii "n") else none

def actionAdjustRate (delay multi : Int) : Option (List UInt8) :=
  pack (dataArgs Module.sidCommand Command.adjustRate [.int delay, .int multi]) (ascii "nn")

def getServerStatusInfo : Option (List UInt8) := pack (dataArgs Module.sidMsg Msg.cidMsgServerStatusInfo []) []

def actionGetAllClientStatus : Option (List UInt8) := pack (dataArgs Module.sidMsg Msg.cidMsgAllClientStatusInfo []) []

/-- With `s` for "hello world". -/
def actionTest (s : List UInt8) : Option (List UInt8) :=
  pack (dataArgs Module.sidMsg Msg.cidMsgData [.int s.length, .str s]) (ascii "NA*")

/-! ## What is packed -/

/-- The arguments, in order: a length, the header, and the data. -/
theorem values_packArgs (format : List UInt8) (moduleId commandId : Int) (data : List Value) :
    ((headerPackArgs.merge (dataArgs moduleId commandId data)).unshift (.str format)).values =
      .str format :: .int 0 :: .int moduleId :: .int commandId :: .int 1 :: .int 0 :: data := by
  rw [PhpArray.values_unshift, dataArgs, PhpArray.values_merge_literal]
  rfl

/-- The length is filled in where it was left out. -/
theorem values_set_pduLen (format : List UInt8) (moduleId commandId : Int) (data : List Value) (pduLen : Int) :
    (((headerPackArgs.merge (dataArgs moduleId commandId data)).unshift (.str format)).set (.str (ascii "pdu_len"))
      (.int pduLen)).values =
      .str format :: .int pduLen :: .int moduleId :: .int commandId :: .int 1 :: .int 0 :: data := by
  have hmerge : headerPackArgs.keys <+: (headerPackArgs.merge (dataArgs moduleId commandId data)).keys := by
    rw [PhpArray.merge, List.foldl_append]
    exact PhpArray.keys_foldl_add (dataArgs moduleId commandId data).entries (headerPackArgs.entries.foldl .add .empty)
  obtain ⟨rest, hrest⟩ := hmerge
  obtain ⟨more, hkeys⟩ := PhpArray.keys_unshift hrest.symm (.str format)
  rw [PhpArray.values_set (by rw [← hkeys]; exact List.mem_append_left more (by decide)), ← hkeys,
    values_packArgs]
  rfl

theorem parseFormat_header {format : List UInt8} {codes : List Code} (h : parseFormat format = some codes) :
    parseFormat (headerFormat ++ format) = some ([.long, .short, .short, .short, .short] ++ codes) := by
  rw [show headerFormat ++ format = 78 :: 110 :: 110 :: 110 :: 110 :: format from rfl, parseFormat_long,
    parseFormat_short, parseFormat_short, parseFormat_short, parseFormat_short, h]
  rfl

/-- What is packed is the frame of the packed data. -/
theorem pack_eq {moduleId commandId : Int} {data : List Value} {format : List UInt8} {codes : List Code}
    {body : List UInt8} (hformat : parseFormat format = some codes) (hbody : packCodes codes data = some body) :
    pack (dataArgs moduleId commandId data) format =
      if 12 + body.length < 2 ^ 31 then some (frame (UInt16.ofInt moduleId) (UInt16.ofInt commandId) body)
      else none := by
  have hpack : ∀ pduLen : Int,
      Php.pack (.str (headerFormat ++ format) :: .int pduLen :: .int moduleId :: .int commandId :: .int 1 :: .int 0 ::
        data) = if 12 + body.length < 2 ^ 31 then
          some (be32 (UInt32.ofInt pduLen) ++ be16 (UInt16.ofInt moduleId) ++ be16 (UInt16.ofInt commandId) ++
            be16 pduVersion ++ be16 0 ++ body)
        else none := by
    intro pduLen
    have hheader : packCodes [.long, .short, .short, .short, .short]
        [.int pduLen, .int moduleId, .int commandId, .int 1, .int 0] =
        some (be32 (UInt32.ofInt pduLen) ++ be16 (UInt16.ofInt moduleId) ++ be16 (UInt16.ofInt commandId) ++
          be16 pduVersion ++ be16 0) := rfl
    have hall := packCodes_append rfl hheader hbody
    rw [Php.pack, parseFormat_header hformat]
    simp only [Option.bind_eq_bind, Option.bind_some]
    rw [show Value.int pduLen :: .int moduleId :: .int commandId :: .int 1 :: .int 0 :: data =
      [.int pduLen, .int moduleId, .int commandId, .int 1, .int 0] ++ data from rfl, hall, Option.bind_some]
    congr 1
    simp only [List.length_append, length_be32, length_be16]
  have hne : (dataArgs moduleId commandId data).entries ≠ [] := by
    obtain ⟨entries, hentries, -⟩ := PhpArray.entries_literal
      [(some (ascii "module_id"), .int moduleId), (some (ascii "command_id"), .int commandId)] data
    rw [dataArgs, hentries]
    exact List.append_ne_nil_of_left_ne_nil (List.cons_ne_nil _ _) entries
  rw [pack, if_neg hne]
  simp only [values_packArgs, values_set_pduLen, hpack]
  by_cases hsize : 12 + body.length < 2 ^ 31
  · have hlen : ∀ x : UInt32, (be32 x ++ be16 (UInt16.ofInt moduleId) ++ be16 (UInt16.ofInt commandId) ++
        be16 pduVersion ++ be16 0 ++ body).length = 12 + body.length := by
      intro x
      simp only [List.length_append, length_be32, length_be16]
    simp only [if_pos hsize, Option.getD_some, hlen]
    rw [ofInt32_natCast, frame]
  · rw [if_neg hsize, if_neg hsize]

/-! ## The constructors -/

/-- What is packed like a message is what its constructor leaves in `m_buf`. -/
theorem pack_eq_contents (heap : Heap) {m : OutPdu} {moduleId commandId : Int} {data : List Value} {format : List UInt8}
    {codes : List Code} (hids : (UInt16.ofInt moduleId, UInt16.ofInt commandId) = m.ids)
    (hnul : ∀ s ∈ m.cstrings, 0 ∉ s) (hformat : parseFormat format = some codes)
    (hbody : packCodes codes data = some m.body) :
    pack (dataArgs moduleId commandId data) format =
      if 12 + m.body.length < 2 ^ 31 then some (m.encode heap).contents else none := by
  rw [pack_eq hformat hbody]
  by_cases hsize : 12 + m.body.length < 2 ^ 31
  · rw [if_pos hsize, if_pos hsize, (OutPdu.encode_contents heap ⟨hsize, hnul⟩).1, ← hids]
  · rw [if_neg hsize, if_neg hsize]

/-- Only the low 16 bits of the rates are packed. -/
theorem actionAdjustRate_eq (heap : Heap) (delay multi : Int) : actionAdjustRate delay multi =
    some (CImPduAdjustRate.encode heap (UInt16.ofInt delay) (UInt16.ofInt multi)).contents := by
  have hpack : actionAdjustRate delay multi = _ :=
    pack_eq_contents heap (m := .adjustRate (UInt16.ofInt delay) (UInt16.ofInt multi)) rfl nofun rfl rfl
  exact hpack.trans (if_pos (show 12 + 4 < 2 ^ 31 by decide))

theorem actionServerCommand_eq (heap : Heap) {command : Int} (h : command ∈ Command.all) : actionServerCommand command =
    some (CImPduServerCommand.encode heap (UInt16.ofInt command)).contents := by
  have hpack : pack (dataArgs Module.sidCommand command [.int command]) (ascii "n") = _ :=
    pack_eq_contents heap (m := .serverCommand (UInt16.ofInt command)) rfl nofun rfl rfl
  rw [actionServerCommand, if_pos h]
  exact hpack.trans (if_pos (show 12 + 2 < 2 ^ 31 by decide))

theorem actionTest_eq (heap : Heap) (s : List UInt8) : actionTest s =
    if 16 + s.length < 2 ^ 31 then some (CImPduClientData.encode heap s).contents else none := by
  have hbody : packCodes [.long, .string] [.int s.length, .str s] = some (OutPdu.clientData s).body := by
    change some (be32 (UInt32.ofInt s.length) ++ (s ++ [])) = some (be32 (UInt32.ofNat s.length) ++ s)
    rw [ofInt32_natCast, List.append_nil]
  have hpack : actionTest s = _ := pack_eq_contents heap (m := .clientData s) rfl nofun rfl hbody
  rw [hpack, show 12 + (OutPdu.clientData s).body.length = 16 + s.length by
    simp only [OutPdu.body, CByteStreamOut.length_lengthPrefixed]; omega]
  rfl

/-- The pages and the constructors encode alike, where a page encodes at all. -/
theorem pack_eq_encode (heap : Heap) (delay multi : UInt16) (s : List UInt8) :
    ([Command.start, Command.stop, Command.pause, Command.resume].map actionServerCommand =
      [cidCommandStart, cidCommandStop, cidCommandPause, cidCommandResume].map fun command =>
        some (CImPduServerCommand.encode heap command).contents) ∧
    actionAdjustRate delay.toNat multi.toNat = some (CImPduAdjustRate.encode heap delay multi).contents ∧
    regClientType = some (CImPduRegClientType.encode heap PostfixEdm.clientPhp).contents ∧
    getServerStatusInfo = some (CImPduServerStatusInfo.encodeRequest heap).contents ∧
    actionTest s = if 16 + s.length < 2 ^ 31 then some (CImPduClientData.encode heap s).contents else none := by
  refine ⟨?_, ?_, ?_, ?_, actionTest_eq heap s⟩
  · simp only [List.map_cons, List.map_nil, actionServerCommand_eq heap (show Command.start ∈ Command.all by decide),
      actionServerCommand_eq heap (show Command.stop ∈ Command.all by decide),
      actionServerCommand_eq heap (show Command.pause ∈ Command.all by decide),
      actionServerCommand_eq heap (show Command.resume ∈ Command.all by decide)]
    rfl
  · have hword : ∀ x : UInt16, UInt16.ofInt (x.toNat : Int) = x := by
      intro x
      have hx := x.toNat_lt
      have hmod : ((x.toNat : Int) % 2 ^ 16).toNat = x.toNat := by omega
      rw [UInt16.ofInt, hmod, UInt16.ofNat_toNat]
    rw [actionAdjustRate_eq heap, hword, hword]
  · have hpack : regClientType = _ :=
      pack_eq_contents heap (m := .regClientType PostfixEdm.clientPhp) rfl nofun rfl rfl
    exact hpack.trans (if_pos (show 12 + 2 < 2 ^ 31 by decide))
  · have hpack : getServerStatusInfo = _ := pack_eq_contents heap (m := .serverStatusRequest) rfl nofun rfl rfl
    exact hpack.trans (if_pos (show 12 + 0 < 2 ^ 31 by decide))

end PostfixEdm.EdmController
