import PostfixEdm.Base.CJsonComplete
import PostfixEdm.Client.Mailq
import PostfixEdm.Php.AllClientStatus
import PostfixEdm.System.Delivery

/-!
# The statuses of the clients, from their timers to the page

* `CJson.toItem` : the items of the program among all items, with the same text;
* `ClientStatus.serialize` : `client_status_info::serialize`; `ClientStatusReader.Reads` : a reader that understands
  JSON;
* `Monitoring.link_statuses` : the server learns the statuses that its client sent, in their order;
* `decode_allClientStatus` : the text for the page says of every client what the monitor holds.
-/

namespace PostfixEdm
open Fifo Json

variable {δ : Type} (dbl : CDouble δ)

/-! ## Texts -/

mutual
/-- The item, with its numbers as doubles. -/
def CJson.toItem : CJson → JsonItem δ
  | .number valuedouble => .number (dbl.ofInt valuedouble)
  | .string valuestring => .string valuestring
  | .object child => .object child.toMembers

def CJsonItems.toMembers : CJsonItems → JsonMembers δ
  | .nil => .nil
  | .cons name item next => .cons name item.toItem next.toMembers
end

mutual
/-- All numbers have 53 bits. -/
def CJson.Exact : CJson → Prop
  | .number valuedouble => valuedouble.natAbs < 2 ^ 53
  | .string _ => True
  | .object child => child.Exact

def CJsonItems.Exact : CJsonItems → Prop
  | .nil => True
  | .cons _ item next => item.Exact ∧ next.Exact
end

mutual
theorem CJson.exact_toItem {item : CJson} (h : item.Exact) : (item.toItem dbl).All dbl.Exact := by
  cases item with
  | number valuedouble => exact ⟨valuedouble, rfl, h⟩
  | string valuestring => trivial
  | object child => exact CJsonItems.exact_toMembers (show child.Exact from h)

theorem CJsonItems.exact_toMembers {items : CJsonItems} (h : items.Exact) : (items.toMembers dbl).All dbl.Exact := by
  cases items with
  | nil => trivial
  | cons name item next =>
    exact ⟨CJson.exact_toItem (show item.Exact from h.1), CJsonItems.exact_toMembers (show next.Exact from h.2)⟩
end

mutual
/-- Both models of the printer write the same text. -/
theorem CJson.print_toItem {item : CJson} (h : item.Exact) (depth : Nat) :
    (item.toItem dbl).print dbl depth true = item.print depth := by
  cases item with
  | number valuedouble => exact text_exact h
  | string valuestring => rfl
  | object child =>
    have hopen : ascii "\x7b\n" = [123] ++ [10] := rfl
    have hclose : ascii "\x7d" = [125] := rfl
    have hchild := CJsonItems.print_toMembers (show child.Exact from h) (depth + 1)
    simp only [CJson.toItem, JsonItem.print, CJson.print, layout, if_true, hopen, hclose, hchild]

theorem CJsonItems.print_toMembers {items : CJsonItems} (h : items.Exact) (depth : Nat) :
    (items.toMembers dbl).print dbl depth true = items.print depth := by
  have hcolon : ascii ":\t" = [58] ++ [9] := rfl
  have hline : ascii "\n" = [10] := rfl
  have hcomma : ascii ",\n" = [44] ++ [10] := rfl
  cases items with
  | nil => rfl
  | cons name item next =>
    have hitem := CJson.print_toItem (show item.Exact from h.1) depth
    cases next with
    | nil =>
      simp only [CJsonItems.toMembers, JsonMembers.print, CJsonItems.print, layout, if_true, hitem, hcolon, hline,
        List.append_assoc]
    | cons name' item' next' =>
      have hitems : (CJsonItems.cons name' item' next').Exact := h.2
      have hnext := CJsonItems.print_toMembers hitems depth
      simp only [CJsonItems.toMembers] at hnext
      simp only [CJsonItems.toMembers, JsonMembers.print, CJsonItems.print, layout, if_true, hitem, hnext, hcolon,
        hcomma, List.append_assoc]
end

/-- What the program prints is a JSON text of its item. -/
theorem CJson.value_print {item : CJson} (h : item.Exact) : Value dbl (item.print 0) (item.toItem dbl) := by
  rw [← CJson.print_toItem dbl h]
  exact JsonItem.value_print (CJson.exact_toItem dbl h) 0 true

/-! ## A status -/

/-- `client_status_info::serialize` -/
def ClientStatus.serialize (c : ClientStatus) : List UInt8 := c.getJsonObject.print 0

/-- The object of a status with these counts. -/
def statusItem (ip emailFromAddr : CString) (havePushNum mailqNum : Int) : JsonItem δ :=
  .object (.cons (.ofBytes (ascii "ip")) (.string ip)
    (.cons (.ofBytes (ascii "emailFromAddr")) (.string emailFromAddr)
      (.cons (.ofBytes (ascii "havePushNum")) (.number (dbl.ofInt havePushNum))
        (.cons (.ofBytes (ascii "mailqNum")) (.number (dbl.ofInt mailqNum)) .nil))))

/-- The reader understands the JSON texts of a status, in any layout. -/
def ClientStatusReader.Reads (parse : ClientStatusReader) : Prop :=
  ∀ (text : List UInt8) (ip emailFromAddr : CString) (havePushNum mailqNum : Nat), havePushNum < 2 ^ 53 →
    mailqNum < 2 ^ 53 → Value dbl text (statusItem dbl ip emailFromAddr havePushNum mailqNum) →
      parse text = some ⟨ip.bytes, emailFromAddr.bytes, UInt64.ofNat havePushNum, UInt64.ofNat mailqNum⟩

/-- What `cClientConn::OnTimer` finds: a queue of `requests` mails. -/
structure Heartbeat where
  ip : CString
  emailFromAddr : CString
  havePushNum : Nat
  kbytes : Nat
  requests : Nat
  havePushNum_lt : havePushNum < 2 ^ 53
  kbytes_lt : kbytes < 2 ^ 63
  requests_lt : requests < 2 ^ 53

namespace Heartbeat

/-- The object that `OnTimer` fills. -/
def status (h : Heartbeat) : ClientStatus where
  ip := h.ip
  emailFromAddr := h.emailFromAddr
  havePushNum := UInt64.ofNat h.havePushNum
  mailqNum := (Int64.ofInt (Worker.getMailqNum (some (mailqSummary h.kbytes h.requests ++ [10])))).toUInt64

/-- The status as the client means it. -/
def info (h : Heartbeat) : ClientStatusInfo :=
  ⟨some h.ip.bytes, some h.emailFromAddr.bytes, UInt64.ofNat h.havePushNum, UInt64.ofNat h.requests⟩

theorem toInt_ofNat {n : Nat} (h : n < 2 ^ 53) : (UInt64.ofNat n).toInt64.toInt = n := by
  change (BitVec.ofNat 64 n).toInt = n
  rw [BitVec.toInt_eq_toNat_of_lt]
  · rw [BitVec.toNat_ofNat, Nat.mod_eq_of_lt (by omega)]
  · rw [BitVec.toNat_ofNat]
    omega

theorem toUInt64_ofInt (n : Nat) : (Int64.ofInt n).toUInt64 = UInt64.ofNat n := by
  apply UInt64.toBitVec_inj.mp
  exact BitVec.ofInt_natCast 64 n

theorem mailqNum_status (h : Heartbeat) : h.status.mailqNum = UInt64.ofNat h.requests := by
  have hlt := h.requests_lt
  have hnum := Worker.getMailqNum_mailqSummary h.kbytes_lt (show h.requests < 2 ^ 63 by omega)
  rw [status, hnum]
  exact toUInt64_ofInt h.requests

/-- The text of a heartbeat says what the client means. -/
theorem value_serialize (h : Heartbeat) :
    Value dbl h.status.serialize (statusItem dbl h.ip h.emailFromAddr h.havePushNum h.requests) := by
  have hpush : toDouble h.status.havePushNum.toInt64.toInt = h.havePushNum := by
    have hlt := h.havePushNum_lt
    rw [status, toInt_ofNat hlt]
    exact toDouble_eq_self (by omega)
  have hmailq : toDouble h.status.mailqNum.toInt64.toInt = h.requests := by
    have hlt := h.requests_lt
    rw [mailqNum_status, toInt_ofNat hlt]
    exact toDouble_eq_self (by omega)
  have hexact : h.status.getJsonObject.Exact := by
    have hlt := h.havePushNum_lt
    have hlt' := h.requests_lt
    simp only [ClientStatus.getJsonObject, CJson.Exact, CJsonItems.Exact, hpush, hmailq, Int.natAbs_natCast]
    exact ⟨trivial, trivial, hlt, hlt', trivial⟩
  have hvalue := CJson.value_print dbl hexact
  simp only [ClientStatus.getJsonObject, CJson.toItem, CJsonItems.toMembers, hpush, hmailq] at hvalue
  rw [ClientStatus.serialize, ClientStatus.getJsonObject, hpush, hmailq]
  exact hvalue

theorem unserialize_serialize {parse : ClientStatusReader} (hparse : parse.Reads dbl) (h : Heartbeat) :
    (ClientStatusInfo.unserialize parse h.status.serialize).2 = h.info := by
  have hvalue := h.value_serialize dbl
  have hread := hparse _ _ _ _ _ h.havePushNum_lt h.requests_lt hvalue
  rw [ClientStatusInfo.unserialize, cstr_eq_self (JsonItem.nul_text hvalue), hread]
  simp only [info, cstr_eq_self h.ip.nul, cstr_eq_self h.emailFromAddr.nul]

end Heartbeat

/-! ## The statuses of a connection -/

/-- What a client sends: what its timer finds, or another message. -/
inductive ClientMsg
  | heartbeat (h : Heartbeat)
  | other (m : OutPdu)

namespace ClientMsg

def pdu : ClientMsg → OutPdu
  | heartbeat h => .heartbeat h.status.serialize
  | other m => m

/-- The other messages are no heartbeats. -/
def Plain : ClientMsg → Prop
  | heartbeat _ => True
  | other m => ∀ json, m ≠ .heartbeat json ∧ m ≠ .emptyHeartbeat

def info? : ClientMsg → Option ClientStatusInfo
  | heartbeat h => some h.info
  | other _ => none

end ClientMsg

/-- `HandlePdu` of the server, which keeps what `UpdateClientStatus` is called with. -/
def Monitoring.handler (parse : ClientStatusReader) : HandlePdu (List ClientStatusInfo) := fun infos pdu buf =>
  match pdu.body with
  | .heartbeat jsonData jsonDataLen =>
    infos ++ [(ClientStatusInfo.unserialize parse (viewString (bufMem buf) jsonData jsonDataLen)).2]
  | _ => infos

namespace Monitoring

variable {parse : ClientStatusReader}

/-- One message: a heartbeat gives its status, any other one gives none. -/
theorem serve_handler (hparse : parse.Reads dbl) {m : ClientMsg} (hm : m.Plain) {heap : Heap}
    {infos infos' : List ClientStatusInfo} (hserve : serve (handler parse) infos (heap, m.pdu) infos') :
    infos' = infos ++ m.info?.toList := by
  obtain ⟨pdu, buf, harr, rfl⟩ := hserve
  rcases harr with hcar | ⟨t, u, hdone, hbody⟩
  · have hcar := hcar fun _ => 0
    cases m with
    | heartbeat h =>
      obtain ⟨p, n, hbody, hholds⟩ := hcar
      have htext : viewString (bufMem buf) p n = h.status.serialize := viewString_of_holds hholds
      simp only [handler, hbody, htext, h.unserialize_serialize dbl hparse]
      rfl
    | other m =>
      have hno : ∀ p n, pdu.body ≠ .heartbeat p n := by
        intro p n hbody
        rw [hbody] at hcar
        cases m with
        | heartbeat json => exact (hm json).1 rfl
        | emptyHeartbeat => exact (hm []).2 rfl
        | serverCommand | adjustRate | regClientType => cases hcar
        | clientData | serverStatusInfo | response =>
          obtain ⟨_, _, heq, -⟩ := hcar
          cases heq
        | serverStatusRequest =>
          obtain ⟨_, _, heq⟩ := hcar
          cases heq
        | allClientStatusInfo | clientDone => exact hcar
      unfold handler
      split
      · next heq => exact absurd heq (hno _ _)
      · exact (List.append_nil infos).symm
  · cases m with
    | heartbeat h => cases hdone
    | other m => simp [handler, hbody, ClientMsg.info?]

/-- What was sent: messages, each with the heap that it was encoded in. -/
def sent (msgs : List (Heap × ClientMsg)) : List Sent := msgs.map fun m => (m.1, m.2.pdu)

theorem serves_handler (hparse : parse.Reads dbl) {msgs : List (Heap × ClientMsg)} (hm : ∀ m ∈ msgs, m.2.Plain)
    {infos infos' : List ClientStatusInfo} (hserves : Serves (serve (handler parse)) infos (sent msgs) infos') :
    infos' = infos ++ msgs.filterMap fun m => m.2.info? := by
  induction msgs generalizing infos with
  | nil =>
    cases hserves
    exact (List.append_nil _).symm
  | cons m msgs ih =>
    cases hserves with
    | cons hserve hserves =>
      have hstep := serve_handler dbl hparse (hm m List.mem_cons_self) hserve
      have hrest := ih (fun m' hm' => hm m' (List.mem_cons_of_mem _ hm')) hserves
      rw [hrest, hstep, List.append_assoc, List.filterMap_cons]
      cases m.2.info? <;> rfl

/-- The server's end of a connection whose client has sent these messages: `UpdateClientStatus` was called with the
statuses of those handled so far, in their order, and a flush and a read bring it to all of them. -/
structure Informed (parse : ClientStatusReader) (msgs : List (Heap × ClientMsg))
    (l : ByteLink (List ClientStatusInfo)) : Prop where
  handled : ∃ handled waiting, msgs = handled ++ waiting ∧
    l.peer.inBuf.contents ++ l.inFlight ++ l.conn.outBuf.contents = (frames (sent waiting)).flatten ∧
    l.state = handled.filterMap fun m => m.2.info?
  flushed : ∀ socket, ByteLink.Willing socket →
    (l.peer.inBuf.contents ++ l.inFlight ++ l.conn.outBuf.contents).length < 2 ^ 31 →
    ∃ l₁, ByteLink.step (handler parse) (.onWrite socket) l = some l₁ ∧ ∀ call, call.bytes = l₁.inFlight →
      ∃ l₂, ByteLink.step (handler parse) (.onRead call) l₁ = some l₂ ∧
        l₂.state = msgs.filterMap fun m => m.2.info?

/-- In every run of a connection the server learns the statuses that its client means, the length of the mail queue
included, each once and in order. -/
theorem link_statuses (hparse : parse.Reads dbl) {l : ByteLink (List ClientStatusInfo)}
    (h : Transition.Reaches (ByteLink.step (handler parse)) ByteLink.Fits (ByteLink.init []) l)
    {msgs : List (Heap × ClientMsg)} (hsent : l.sent = sent msgs) (hm : ∀ m ∈ msgs, m.2.Plain) :
    Informed parse msgs l := by
  constructor
  · obtain ⟨handled, waiting, href⟩ := ByteLink.refines_of_reaches (handler parse) [] h
    have hsplit := href.split
    rw [hsent] at hsplit
    obtain ⟨handled', waiting', rfl, rfl, rfl⟩ := List.map_eq_append_iff.mp hsplit
    have hstate := serves_handler dbl hparse (fun m hmem => hm m (List.mem_append_left _ hmem)) href.serves
    exact ⟨handled', waiting', rfl, href.bytes, hstate⟩
  · intro socket hsocket hsize
    obtain ⟨l₁, hstep₁, hread⟩ := ByteLink.serves_of_willing (handler parse) [] h hsocket hsize
    refine ⟨l₁, hstep₁, fun call hcall => ?_⟩
    obtain ⟨l₂, hstep₂, hserves⟩ := hread call hcall
    rw [hsent] at hserves
    exact ⟨l₂, hstep₂, serves_handler dbl hparse hm hserves⟩

/-- `cJSON_Parse` as the reader. -/
def cJsonReader : ClientStatusReader := fun text =>
  match cJsonParse intDouble (fun _ => ⟨0, 0⟩) text with
  | .ok (.object (.cons _ (.string ip) (.cons _ (.string emailFromAddr) (.cons _ (.number havePushNum)
      (.cons _ (.number mailqNum) .nil))))) =>
    some ⟨ip.bytes, emailFromAddr.bytes, UInt64.ofNat havePushNum.toNat, UInt64.ofNat mailqNum.toNat⟩
  | _ => none

theorem reads_cJsonReader : cJsonReader.Reads intDouble := by
  intro text ip emailFromAddr havePushNum mailqNum hpush hmailq hvalue
  have hparse := cJsonParse_text (fun _ => ⟨0, 0⟩) isWs_nil hvalue stops_nil
  rw [List.nil_append, List.append_nil] at hparse
  have hofInt : ∀ n : Nat, n < 2 ^ 53 → intDouble.ofInt n = n := fun n hn =>
    toDouble_eq_self (show (n : Int).natAbs < 2 ^ 53 from hn)
  rw [cJsonReader, hparse]
  simp only [statusItem, hofInt _ hpush, hofInt _ hmailq, Int.toNat_natCast]

/-- One heartbeat for a queue of a single mail, of which the socket takes five bytes. -/
theorem link_statuses_one :
    let h : Heartbeat := ⟨⟨ascii "10.0.0.5", by decide⟩, ⟨ascii "edm@example.com", by decide⟩, 3, 4, 1, by decide,
      by decide, by decide⟩
    let msgs : List (Heap × ClientMsg) := [(fun _ _ => 0, .heartbeat h)]
    let socket : Socket := fun i => if i = 0 then .accepted 5 else .wouldBlock
    ∃ l, ByteLink.step (handler cJsonReader)
        (.sendPdu (fun _ _ => 0) socket (fun _ _ => 0, .heartbeat h.status.serialize)) (ByteLink.init []) = some l ∧
      Informed cJsonReader msgs l := by
  intro h msgs socket
  have hfits : (ByteLink.init ([] : List ClientStatusInfo)).Fits
      (.sendPdu (fun _ _ => 0) socket (fun _ _ => 0, .heartbeat h.status.serialize)) := by
    have hlen : h.status.serialize.length < 1000 := by decide +kernel
    have hprefix : (CByteStreamOut.lengthPrefixed h.status.serialize).length = 4 + h.status.serialize.length :=
      CByteStreamOut.length_lengthPrefixed _
    have hencodable : (OutPdu.heartbeat h.status.serialize).Encodable := by
      refine ⟨?_, fun s hs => ?_⟩
      · rw [OutPdu.body, hprefix]
        omega
      · rw [List.mem_singleton.mp hs]
        exact JsonItem.nul_text (h.value_serialize intDouble)
    refine ⟨⟨hencodable, Or.inl trivial⟩, ?_⟩
    have hbytes := length_bytes (s := (fun _ _ => 0, .heartbeat h.status.serialize)) hencodable
    rw [OutPdu.body, hprefix] at hbytes
    rw [hbytes]
    change 0 + (12 + (4 + h.status.serialize.length)) < 2 ^ 31
    omega
  obtain ⟨l, hstep, hsent⟩ : ∃ l, ByteLink.step (handler cJsonReader)
      (.sendPdu (fun _ _ => 0) socket (fun _ _ => 0, .heartbeat h.status.serialize)) (ByteLink.init []) = some l ∧
        l.sent = sent msgs := ⟨_, rfl, rfl⟩
  refine ⟨l, hstep, link_statuses intDouble reads_cJsonReader (.step _ .start hfits hstep) hsent ?_⟩
  intro m hm
  rw [List.mem_singleton.mp hm]
  trivial

end Monitoring

/-! ## The text for the page -/

/-- What the page has of the clients: an entry for each, under its ip. -/
def clientMembers : ClientList → JsonMembers δ
  | [] => .nil
  | c :: clients =>
    .cons c.ip (statusItem dbl c.ip c.emailFromAddr c.havePushNum.toInt64.toInt c.mailqNum.toInt64.toInt)
      (clientMembers clients)

/-- The counts have 53 bits. -/
def ClientStatus.Counts (c : ClientStatus) : Prop :=
  c.havePushNum.toInt64.toInt.natAbs < 2 ^ 53 ∧ c.mailqNum.toInt64.toInt.natAbs < 2 ^ 53

theorem exact_clientItems {clients : ClientList} (h : ∀ c ∈ clients, c.Counts) : (clientItems clients).Exact ∧
    (clientItems clients).toMembers dbl = clientMembers dbl clients := by
  induction clients with
  | nil => exact ⟨trivial, rfl⟩
  | cons c clients ih =>
    obtain ⟨ihexact, iheq⟩ := ih fun c' hc' => h c' (List.mem_cons_of_mem _ hc')
    obtain ⟨hpush, hmailq⟩ := h c List.mem_cons_self
    have hpush' := toDouble_eq_self hpush
    have hmailq' := toDouble_eq_self hmailq
    simp only [clientItems, ClientStatus.getJsonObject, hpush', hmailq', CJsonItems.Exact, CJson.Exact,
      CJsonItems.toMembers, CJson.toItem, iheq, clientMembers]
    exact ⟨⟨⟨trivial, trivial, hpush, hmailq, trivial⟩, ihexact⟩, rfl⟩

/-- Whatever the strings of the clients are, a decoder that understands JSON has the clients as the monitor has
them. -/
theorem decode_allClientStatus {decode : List UInt8 → Option (JsonItem δ)}
    (hdecode : ∀ text item, Value dbl text item → decode text = some item) {clients : ClientList}
    (h : ∀ c ∈ clients, c.Counts) : decode (allClientStatus clients) = some (.object (clientMembers dbl clients)) := by
  obtain ⟨hexact, heq⟩ := exact_clientItems dbl h
  have hvalue := CJson.value_print dbl (show (CJson.object (clientItems clients)).Exact from hexact)
  rw [CJson.toItem, heq] at hvalue
  exact hdecode _ _ hvalue

/-- A client with a quote in its address. -/
theorem decode_allClientStatus_quote :
    let clients : ClientList := [⟨⟨ascii "10.0.0.5", by decide⟩, ⟨ascii "\"EDM\" <edm@example.com>", by decide⟩, 3, 1⟩]
    (cJsonParse intDouble (fun _ => ⟨0, 0⟩) (allClientStatus clients)).toOption =
      some (.object (clientMembers intDouble clients)) := by
  intro clients
  let decode := fun text => (cJsonParse intDouble (fun _ => ⟨0, 0⟩) text).toOption
  have hdecode : ∀ text item, Value intDouble text item → decode text = some item := by
    intro text item hvalue
    have hparse := cJsonParse_text (fun _ => ⟨0, 0⟩) isWs_nil hvalue stops_nil
    rw [List.nil_append, List.append_nil] at hparse
    simp only [decode, hparse]
    rfl
  refine decode_allClientStatus intDouble hdecode ?_
  intro c hc
  rw [List.mem_singleton.mp hc]
  exact ⟨by decide, by decide⟩

end PostfixEdm
