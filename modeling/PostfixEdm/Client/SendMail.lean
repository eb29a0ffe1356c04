import PostfixEdm.Base.Base64
import PostfixEdm.Lib.Header
import PostfixEdm.Lib.Safe

/-!
# `cSendMail::send`

* `SendMail.MailInfo` : `mail_info_t`; `SendMail.send` : what is written to `sendmail -t -i`, and the result;
* `SendMail.Mail` : a mail with all of its strings but `cc`; `Mail.headers` : the lines that its header is made of;
* `SendMail.Intact` : the header is read as these lines, and the recipients are those of `to` and `cc`;
* `SendMail.intact_iff` : it is when no line break in `to`, `cc` or `from` begins a new header line. `subject` and
  `sender` have been encoded.
-/

namespace PostfixEdm.SendMail

/-- `mail_info_t`; `none` is NULL. -/
structure MailInfo where
  toAddr : Option CString
  cc : Option CString
  subject : Option CString
  content : Option CString
  sender : Option CString
  fromAddr : Option CString
  deriving DecidableEq

/-- `strlen` and `%s` of a `char*` -/
def deref : Option CString → Except Halt (List UInt8)
  | some s => .ok s.bytes
  | none => .error .null

/-- `base64_encode(s, strlen(s))` -/
def base64 (s : List UInt8) : List UInt8 := base64Encode s (UInt32.ofNat s.length)

/-- The result and the text written. `popen` : the command could be started; `convert` : `_convert_ptr->convert`, when
`_isConvert` is set. -/
def send (popen : Bool) (convert : Option (List UInt8 → List UInt8)) (mail : MailInfo) :
    Except Halt (Int × List UInt8) :=
  if popen = false then .ok (-1, [])
  else do
    let toAddr ← deref mail.toAddr
    let cc := match mail.cc with
      | some cc => ascii "Cc: " ++ cc.bytes ++ ascii "\n"
      | none => []
    let subject ← deref mail.subject
    let sender ← deref mail.sender
    let fromAddr ← deref mail.fromAddr
    let content ← deref mail.content
    let content := match convert with
      | some convert => cstr (convert content)
      | none => content
    .ok (0, ascii "To: " ++ toAddr ++ ascii "\n" ++ cc ++
      ascii "Subject: =?UTF-8?B?" ++ base64 subject ++ ascii "?=\n" ++
      ascii "From: =?UTF-8?B?" ++ base64 sender ++ ascii "?=<" ++ fromAddr ++ ascii ">\n" ++
      ascii "Content-type: text/html; charset=gb2312\n" ++ ascii "Author: lijianwei\n" ++
      ascii "\n" ++ content ++ ascii "\n")

structure Mail where
  toAddr : CString
  cc : Option CString
  subject : CString
  content : CString
  sender : CString
  fromAddr : CString

namespace Mail

def info (m : Mail) : MailInfo := ⟨m.toAddr, m.cc, m.subject, m.content, m.sender, m.fromAddr⟩

/-- The header lines, without what ends them. -/
def headers (m : Mail) : List (List UInt8) :=
  (ascii "To: " ++ m.toAddr.bytes) :: (m.cc.toList.map fun cc => ascii "Cc: " ++ cc.bytes) ++
    [ascii "Subject: =?UTF-8?B?" ++ base64 m.subject.bytes ++ ascii "?=",
      ascii "From: =?UTF-8?B?" ++ base64 m.sender.bytes ++ ascii "?=<" ++ m.fromAddr.bytes ++ ascii ">",
      ascii "Content-type: text/html; charset=gb2312", ascii "Author: lijianwei"]

/-- The fields that are written as they are. -/
def raw (m : Mail) : List CString := m.toAddr :: m.cc.toList ++ [m.fromAddr]

end Mail

/-! ## How the header is read -/

/-- A line that begins with a space or a tab continues the one before it, for a reader that folds. -/
def continuation (folding : Bool) (b : UInt8) : Bool := folding && (b = 32 || b = 9)

def headerSection (folding : Bool) (message : List UInt8) : List (List UInt8) :=
  Message.headerFields 10 (continuation folding) [] message

/-- The body of a header that `sendmail -t` takes recipients from. -/
def recipients (header : List UInt8) : Option (List UInt8) :=
  let name := (header.takeWhile (· ≠ 58)).map tolower
  if name = ascii "to" ∨ name = ascii "cc" ∨ name = ascii "bcc" then some (header.drop (name.length + 1)) else none

/-- The header of the mail is read as its header lines, and its recipients are those in `to` and `cc`. -/
def Intact (folding : Bool) (convert : Option (List UInt8 → List UInt8)) (m : Mail) : Prop :=
  ∃ message, send true convert m.info = .ok (0, message) ∧ headerSection folding message = m.headers ∧
    (headerSection folding message).filterMap recipients =
      (m.toAddr :: m.cc.toList).map fun s => ascii " " ++ s.bytes

/-- No line break begins a header line: there is none, or for a reader that folds, each one is followed by a space or
a tab. -/
def OneLine (folding : Bool) (s : CString) : Prop := Message.Folds 10 (continuation folding) s.bytes

instance (folding : Bool) (s : CString) : Decidable (OneLine folding s) :=
  inferInstanceAs (Decidable (Message.Folds ..))

variable {folding : Bool} {convert : Option (List UInt8 → List UInt8)} {m : Mail}

/-- What is sent is the header lines, an empty line and the content. -/
theorem send_eq (convert : Option (List UInt8 → List UInt8)) (m : Mail) :
    ∃ body, send true convert m.info = .ok (0, m.headers.flatMap (· ++ [10]) ++ 10 :: body) := by
  refine ⟨(match convert with
    | some convert => cstr (convert m.content.bytes)
    | none => m.content.bytes) ++ ascii "\n", ?_⟩
  obtain ⟨toAddr, cc, subject, content, sender, fromAddr⟩ := m
  cases cc <;> simp [send, Mail.info, Mail.headers, deref, bind, Except.bind, ascii]

theorem base64_oneLine (s : List UInt8) : (10 : UInt8) ∉ base64 s := by
  intro h
  rcases base64_clean h with h | h
  · have hmem : (10 : UInt8).toNat ∈ base64Chars.map UInt8.toNat := List.mem_map_of_mem h
    rw [base64Chars_toNat] at hmem
    exact absurd hmem (by decide)
  · exact absurd h (by decide)

theorem headers_begin : ∀ h ∈ m.headers, Message.Begins 10 (continuation folding) h := by
  have hletter : ∀ b : UInt8, b ≠ 10 ∧ b ≠ 32 ∧ b ≠ 9 → ∀ rest,
      Message.Begins 10 (continuation folding) (b :: rest) := by
    intro b ⟨hlf, hspace, htab⟩ rest
    exact ⟨b, rest, rfl, hlf, by simp [continuation, hspace, htab]⟩
  intro h hh
  simp only [Mail.headers, List.cons_append, List.mem_cons, List.mem_append, List.mem_map, List.not_mem_nil,
    or_false] at hh
  rcases hh with rfl | ⟨cc, -, rfl⟩ | rfl | rfl | rfl | rfl
  all_goals exact hletter _ (by decide) _

/-- A header line is one line when the field at its end is. -/
theorem folds_label {label : List UInt8} (hlabel : 10 ∉ label) (s : CString) :
    Message.Folds 10 (continuation folding) (label ++ s.bytes) ↔ OneLine folding s :=
  Message.folds_append_of_notMem hlabel _

theorem folds_of_notMem {s : List UInt8} (h : 10 ∉ s) : Message.Folds 10 (continuation folding) s := by
  rw [← List.append_nil s, Message.folds_append_of_notMem h]
  trivial

/-- The header lines fold exactly when the fields that are not encoded do. -/
theorem headers_fold_iff :
    (∀ h ∈ m.headers, Message.Folds 10 (continuation folding) h) ↔ ∀ s ∈ m.raw, OneLine folding s := by
  have hsubject : (10 : UInt8) ∉ ascii "Subject: =?UTF-8?B?" ++ base64 m.subject.bytes ++ ascii "?=" := by
    simp only [List.mem_append, not_or]
    exact ⟨⟨by decide, base64_oneLine _⟩, by decide⟩
  have hsender : (10 : UInt8) ∉ ascii "From: =?UTF-8?B?" ++ base64 m.sender.bytes ++ ascii "?=<" := by
    simp only [List.mem_append, not_or]
    exact ⟨⟨by decide, base64_oneLine _⟩, by decide⟩
  have hfrom : Message.Folds 10 (continuation folding) (ascii "From: =?UTF-8?B?" ++ base64 m.sender.bytes ++
      ascii "?=<" ++ m.fromAddr.bytes ++ ascii ">") ↔ OneLine folding m.fromAddr := by
    have hend : ¬ Message.continues (continuation folding) (ascii ">") := by cases folding <;> decide
    rw [Message.folds_append_iff (folds_of_notMem (by decide)) hend]
    exact folds_label hsender _
  have hlabel : ∀ label : List UInt8, 10 ∉ label → ∀ s : CString,
      Message.Folds 10 (continuation folding) (label ++ s.bytes) ↔ OneLine folding s := fun _ h s => folds_label h s
  simp only [Mail.headers, Mail.raw, List.cons_append, List.forall_mem_cons, List.forall_mem_append,
    List.forall_mem_map, hlabel (ascii "To: ") (by decide), hlabel (ascii "Cc: ") (by decide), hfrom]
  have hrest : Message.Folds 10 (continuation folding) (ascii "Content-type: text/html; charset=gb2312") ∧
      Message.Folds 10 (continuation folding) (ascii "Author: lijianwei") :=
    ⟨folds_of_notMem (by decide), folds_of_notMem (by decide)⟩
  have hnil : ∀ P : List UInt8 → Prop, ∀ x ∈ ([] : List (List UInt8)), P x := fun _ _ hx => absurd hx List.not_mem_nil
  constructor
  · rintro ⟨hto, hcc, -, hfromAddr, -⟩
    exact ⟨hto, hcc, hfromAddr, fun _ hx => absurd hx List.not_mem_nil⟩
  · rintro ⟨hto, hcc, hfromAddr, -⟩
    exact ⟨hto, hcc, folds_of_notMem hsubject, hfromAddr, hrest.1, hrest.2, hnil _⟩

theorem recipients_headers (m : Mail) :
    m.headers.filterMap recipients = (m.toAddr :: m.cc.toList).map fun s => ascii " " ++ s.bytes := by
  obtain ⟨toAddr, cc, subject, content, sender, fromAddr⟩ := m
  cases cc <;> rfl

/-- The header lines are read as they were written exactly when the fields that are not encoded are one line each. -/
theorem headerSection_eq_iff (body : List UInt8) :
    headerSection folding (m.headers.flatMap (· ++ [10]) ++ 10 :: body) = m.headers ↔
      ∀ s ∈ m.raw, OneLine folding s := by
  have hlf : continuation folding 10 = false := by cases folding <;> rfl
  exact (Message.headerFields_eq_iff hlf body headers_begin).trans headers_fold_iff

theorem oneLine_of_intact (h : Intact folding convert m) : ∀ s ∈ m.raw, OneLine folding s := by
  obtain ⟨body, hsend⟩ := send_eq convert m
  obtain ⟨message, hmessage, hheaders, -⟩ := h
  rw [hsend, Except.ok.injEq, Prod.mk.injEq] at hmessage
  rw [← hmessage.2] at hheaders
  exact (headerSection_eq_iff body).mp hheaders

/-- The header of a mail is intact exactly when the fields that are not encoded are one line each. -/
theorem intact_iff : Intact folding convert m ↔ ∀ s ∈ m.raw, OneLine folding s := by
  refine ⟨oneLine_of_intact, fun hlines => ?_⟩
  obtain ⟨body, hsend⟩ := send_eq convert m
  have hheaders := (headerSection_eq_iff body).mpr hlines
  exact ⟨_, hsend, hheaders, by rw [hheaders, recipients_headers]⟩

/-- A mail to one address, with another one on a second line. -/
def forged : Mail :=
  ⟨⟨ascii "a@example.com\nBcc: b@example.com", by decide⟩, none, ⟨ascii "news", by decide⟩, ⟨ascii "hello", by decide⟩,
    ⟨ascii "edm", by decide⟩, ⟨ascii "edm@example.com", by decide⟩⟩

/-- `sendmail` sees two headers, and a recipient in each of them. -/
theorem not_intact_forged : (∃ message, send true none forged.info = .ok (0, message) ∧
      (headerSection true message).filterMap recipients = [ascii " a@example.com", ascii " b@example.com"]) ∧
    ¬ ∀ (folding : Bool) (m : Mail), Intact folding none m := by
  refine ⟨⟨_, rfl, by decide⟩, fun h => ?_⟩
  have hto : OneLine true forged.toAddr := oneLine_of_intact (h true forged) _ List.mem_cons_self
  exact absurd hto (by decide)

end PostfixEdm.SendMail
