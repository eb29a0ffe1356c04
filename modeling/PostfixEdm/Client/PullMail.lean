import PostfixEdm.Base.Config
import PostfixEdm.Base.Mysql
import PostfixEdm.Client.Mail
import PostfixEdm.Client.SendMail
import PostfixEdm.Lib.SqlLiteral

/-!
# The statements about the sender: `pullSentInfoFromMysql` and `_haveSendInfo`

* `pullSql`, `haveSql` : the statements, in their buffers of 200 bytes;
* `pullSentInfoFromMysql`, `haveSendInfo` : the functions, over a database that may fail;
* `Sendable` : a queued mail that `cSendMail::send` can take; `pull_sendable_iff` : when all that are queued are;
* `AddressKept` : a statement that is whole and whose literal denotes the address; `addressKept_iff` : when it does;
* `pull_tableResult` : over the columns of the table, a pull queues what `SendEmail.mailInfo` says.
-/

namespace PostfixEdm.PullMail
open Mysql

/-! ## The statements -/

/-- The statement up to the opening quote. -/
def front (columns : List UInt8) : List UInt8 :=
  ascii "select " ++ columns ++ ascii " from send_email where status = 1 and from = " ++ [Sql.quote]

/-- The statement behind the closing quote. -/
def back : List UInt8 := ascii " group by `to` limit " ++ decimal pullSentMailUnit

def statement (columns : List UInt8) (addr : CString) : List UInt8 := front columns ++ addr.bytes ++ Sql.quote :: back

/-- `select_sql` of `pullSentInfoFromMysql` -/
def pullSql (addr : CString) : List UInt8 := snprintf 200 (statement (ascii "*") addr)

/-- `select_sql` of `_haveSendInfo` -/
def haveSql (addr : CString) : List UInt8 := snprintf 200 (statement (ascii "cout(`to`)") addr)

/-! ## The mails -/

/-- The fields of a `mail_info_t`. -/
inductive Field
  | toAddr | cc | subject | content | sender | fromAddr
  deriving DecidableEq

namespace Field

/-- The column that a field is taken from. -/
def column : Field → CString
  | toAddr => ⟨ascii "to", by decide⟩
  | cc => ⟨ascii "cc", by decide⟩
  | subject => ⟨ascii "subject", by decide⟩
  | content => ⟨ascii "content", by decide⟩
  | sender => ⟨ascii "sender", by decide⟩
  | fromAddr => ⟨ascii "from", by decide⟩

/-- In the order in which columns are matched. -/
def all : List Field := [toAddr, cc, subject, content, sender, fromAddr]

def get (mail : SendMail.MailInfo) : Field → Option CString
  | toAddr => mail.toAddr
  | cc => mail.cc
  | subject => mail.subject
  | content => mail.content
  | sender => mail.sender
  | fromAddr => mail.fromAddr

def set (mail : SendMail.MailInfo) (value : Option CString) : Field → SendMail.MailInfo
  | toAddr => { mail with toAddr := value }
  | cc => { mail with cc := value }
  | subject => { mail with subject := value }
  | content => { mail with content := value }
  | sender => { mail with sender := value }
  | fromAddr => { mail with fromAddr := value }

/-- `!strncasecmp(fieldName, "to", sizeof("to"))`, and so on. -/
def named (fieldName : CString) (f : Field) : Bool := strncasecmp fieldName f.column (f.column.bytes.length + 1)

end Field

/-- A `mail_info_t` of zeros. -/
def emptyMail : SendMail.MailInfo := ⟨none, none, none, none, none, none⟩

/-- The chain of comparisons for one element: the first field that it is named after takes its value, if it has one. -/
def takeValue (mail : SendMail.MailInfo) (c : FieldValue) : Except Fault SendMail.MailInfo :=
  match c.fieldName with
  | none => .error .null
  | some fieldName =>
    match Field.all.find? fun f => Field.named fieldName f && c.fieldValue.isSome with
    | some f => .ok (f.set mail c.fieldValue)
    | none => .ok mail

/-- `pullSentInfoFromMysql`, with what it pushes on `send_mail_queue`. -/
def pullSentInfoFromMysql (db : Db) (emailFromAddr : CString) : Except Fault (List SendMail.MailInfo) := do
  let resultData ← query db (pullSql emailFromAddr)
  let data ← assigned resultData
  let heads ← counted data
  let queue ← heads.mapM fun head => do
    let cells ← walk data.columns.toNat head
    cells.foldlM takeValue emptyMail
  freeResultData resultData
  .ok queue

/-- `_haveSendInfo` -/
def haveSendInfo (db : Db) (emailFromAddr : CString) : Except Fault Bool := do
  let resultData ← query db (haveSql emailFromAddr)
  let data ← assigned resultData
  let value ← if 0 < data.rows then firstValue data else .ok none
  freeResultData resultData
  .ok value.isSome

/-! ## What a row gives -/

namespace Field

theorem named_iff {fieldName : CString} {f : Field} :
    named fieldName f = true ↔ fieldName.bytes.map tolower = f.column.bytes.map tolower := strncasecmp_iff

/-- A column is named after one field at most. -/
theorem named_unique {fieldName : CString} {f g : Field} (hf : named fieldName f = true)
    (hg : named fieldName g = true) : f = g := by
  have heq := (named_iff.mp hf).symm.trans (named_iff.mp hg)
  clear hf hg
  cases f <;> cases g <;> first | rfl | exact absurd heq (by decide)

theorem mem_all (f : Field) : f ∈ all := by cases f <;> decide

theorem get_set (mail : SendMail.MailInfo) (value : Option CString) (f g : Field) :
    g.get (f.set mail value) = if g = f then value else g.get mail := by
  cases f <;> cases g <;> rfl

end Field

/-- What `takeValue` makes of a column. -/
def taken (mail : SendMail.MailInfo) (fieldName : CString) (value : Option CString) : SendMail.MailInfo :=
  match Field.all.find? fun f => Field.named fieldName f && value.isSome with
  | some f => f.set mail value
  | none => mail

theorem takeValue_cell (mail : SendMail.MailInfo) (name : CString) (value : Option (List UInt8)) :
    takeValue mail (cell name value) = .ok (taken mail name (cell name value).fieldValue) := by
  rw [takeValue, taken]
  simp only [cell]
  split <;> rfl

theorem get_taken (mail : SendMail.MailInfo) (name : CString) (value : Option CString) (f : Field) :
    f.get (taken mail name value) = if Field.named name f = true then value.or (f.get mail) else f.get mail := by
  rw [taken]
  cases value with
  | none =>
    have hfind : Field.all.find? (fun f => Field.named name f && (none : Option CString).isSome) = none :=
      List.find?_eq_none.mpr fun _ _ => by simp
    rw [hfind, Option.none_or, ite_self]
  | some s =>
    cases hfind : Field.all.find? fun f => Field.named name f && (some s).isSome with
    | none =>
      have := List.find?_eq_none.mp hfind f f.mem_all
      rw [if_neg (by simpa using this)]
    | some g =>
      have hg := List.find?_some hfind
      rw [Option.isSome_some, Bool.and_true] at hg
      simp only [Field.get_set, Option.some_or]
      by_cases hfg : f = g
      · rw [if_pos hfg, if_pos (hfg ▸ hg)]
      · rw [if_neg hfg, if_neg fun hf => hfg (Field.named_unique hf hg)]

/-- The fields that a row's columns fill, one column after the other. -/
def rowMail (columns : List (CString × Option (List UInt8))) (mail : SendMail.MailInfo) : SendMail.MailInfo :=
  columns.foldl (fun mail (name, value) => taken mail name (cell name value).fieldValue) mail

theorem foldlM_takeValue (columns : List (CString × Option (List UInt8))) (mail : SendMail.MailInfo) :
    (columns.map fun (name, value) => cell name value).foldlM takeValue mail = .ok (rowMail columns mail) := by
  induction columns generalizing mail with
  | nil => rfl
  | cons column columns ih =>
    rw [List.map_cons, List.foldlM_cons, takeValue_cell]
    exact ih _

/-- A value that is not NULL and not empty. -/
def HasText (value : Option (List UInt8)) : Prop := ∃ bytes ∈ value, bytes ≠ []

theorem fieldValue_isSome_iff {name : CString} {value : Option (List UInt8)} :
    (cell name value).fieldValue.isSome = true ↔ HasText value := by
  rw [HasText, cell]
  cases value with
  | none => simp
  | some bytes => cases bytes <;> simp

/-- A field is filled exactly when a column that is named after it has a text. -/
theorem get_rowMail_isSome (columns : List (CString × Option (List UInt8))) (mail : SendMail.MailInfo) (f : Field) :
    (f.get (rowMail columns mail)).isSome = true ↔
      (f.get mail).isSome = true ∨ ∃ column ∈ columns, Field.named column.1 f = true ∧ HasText column.2 := by
  induction columns generalizing mail with
  | nil => simp [rowMail]
  | cons column columns ih =>
    have hstep := ih (taken mail column.1 (cell column.1 column.2).fieldValue)
    rw [get_taken] at hstep
    refine hstep.trans ?_
    rw [List.exists_mem_cons_iff, ← @fieldValue_isSome_iff column.1]
    by_cases hcolumn : Field.named column.1 f = true
    · rw [if_pos hcolumn, Option.isSome_or, Bool.or_eq_true]
      simp only [hcolumn, true_and]
      rw [or_assoc, or_left_comm]
    · rw [if_neg hcolumn]
      simp only [hcolumn, Bool.false_eq_true, false_and, false_or]

/-! ## The queue -/

/-- What `send` needs: all fields but `cc`. -/
def Sendable (mail : SendMail.MailInfo) : Prop := ∀ f, f ≠ Field.cc → (f.get mail).isSome = true

/-- A mail is sendable exactly when no run of `send` meets NULL. -/
theorem sendable_iff {mail : SendMail.MailInfo} :
    Sendable mail ↔ ∀ popen convert, SendMail.send popen convert mail ≠ .error .null := by
  obtain ⟨toAddr, cc, subject, content, sender, fromAddr⟩ := mail
  constructor
  · intro h popen convert hsend
    obtain ⟨toAddr, rfl⟩ := Option.isSome_iff_exists.mp (h .toAddr (by decide))
    obtain ⟨subject, rfl⟩ := Option.isSome_iff_exists.mp (h .subject (by decide))
    obtain ⟨content, rfl⟩ := Option.isSome_iff_exists.mp (h .content (by decide))
    obtain ⟨sender, rfl⟩ := Option.isSome_iff_exists.mp (h .sender (by decide))
    obtain ⟨fromAddr, rfl⟩ := Option.isSome_iff_exists.mp (h .fromAddr (by decide))
    cases popen <;> cases hsend
  · intro h f hf
    by_contra hnone
    rw [Option.not_isSome_iff_eq_none] at hnone
    refine h true none ?_
    cases f with
    | cc => exact absurd rfl hf
    | toAddr =>
      obtain rfl := hnone
      rfl
    | subject =>
      obtain rfl := hnone
      cases toAddr <;> rfl
    | sender =>
      obtain rfl := hnone
      cases toAddr <;> cases subject <;> rfl
    | fromAddr =>
      obtain rfl := hnone
      cases toAddr <;> cases subject <;> cases sender <;> rfl
    | content =>
      obtain rfl := hnone
      cases toAddr <;> cases subject <;> cases sender <;> cases fromAddr <;> rfl

/-- A database that is there and answers each query with `res`. -/
def answering (res : MysqlRes) : Db := ⟨true, true, fun _ => .stored res⟩

/-- The columns of a row that a pull goes through. -/
def readColumns (res : MysqlRes) (row : List (Option (List UInt8))) : List (CString × Option (List UInt8)) :=
  (res.fields.zip row).take (UInt16.ofNat res.fields.length).toNat

/-- The result set has no more rows than can be copied, and no more columns are counted than are copied. -/
def Walkable (res : MysqlRes) : Prop :=
  res.rows.length < 2 ^ 31 ∧
    (res.rows ≠ [] → (UInt16.ofNat res.fields.length).toNat ≤ (Int32.ofNat res.fields.length).toInt.toNat)

/-- Each field but `cc` has a column with a text. -/
def Complete (res : MysqlRes) (row : List (Option (List UInt8))) : Prop :=
  ∀ f, f ≠ Field.cc → ∃ column ∈ readColumns res row, Field.named column.1 f = true ∧ HasText column.2

section
variable {res : MysqlRes}

theorem query_answering (res : MysqlRes) (sql : List UInt8) :
    query (answering res) sql = (mysqlFillData res).map some := query_stored rfl rfl

/-- The elements that are met in a row. -/
theorem walk_row (h : (UInt16.ofNat res.fields.length).toNat ≤ (Int32.ofNat res.fields.length).toInt.toNat)
    {row : List (Option (List UInt8))} (hrow : row ∈ res.rows) :
    walk (UInt16.ofNat res.fields.length).toNat (⟨none, none⟩ :: rowCells res row) =
      .ok ((readColumns res row).map fun (name, value) => cell name value) := by
  have hmod : (UInt16.ofNat res.fields.length).toNat ≤ res.fields.length := Nat.mod_le _ _
  rw [walk_cons, rowCells, readColumns, ← List.map_take, List.take_take, Nat.min_eq_left (by omega)]
  rw [rowCells, List.length_map, List.length_take, length_zip_fields hrow]
  omega

/-- The NULL behind the last column. -/
theorem walk_beyond (h : ¬ (UInt16.ofNat res.fields.length).toNat ≤ (Int32.ofNat res.fields.length).toInt.toNat)
    (row : List (Option (List UInt8))) :
    walk (UInt16.ofNat res.fields.length).toNat (⟨none, none⟩ :: rowCells res row) = .error .null := by
  refine walk_short _ ?_
  rw [rowCells, List.length_map, List.length_take]
  omega

/-- A pull queues one mail for each row, in their order. -/
theorem pull_eq (h : Walkable res) (addr : CString) : pullSentInfoFromMysql (answering res) addr =
    .ok (res.rows.map fun row => rowMail (readColumns res row) emptyMail) := by
  obtain ⟨hrows, hcolumns⟩ := h
  have hwalk : ∀ row ∈ res.rows, walk (UInt16.ofNat res.fields.length).toNat (⟨none, none⟩ :: rowCells res row) =
      .ok ((readColumns res row).map fun (name, value) => cell name value) := fun row hrow =>
    walk_row (hcolumns (List.ne_nil_of_mem hrow)) hrow
  have hqueue : ((res.rows.map fun row => (⟨none, none⟩ : FieldValue) :: rowCells res row).mapM fun head => do
      let cells ← walk (UInt16.ofNat res.fields.length).toNat head
      cells.foldlM takeValue emptyMail) =
      .ok (res.rows.map fun row => rowMail (readColumns res row) emptyMail) := by
    rw [List.mapM_map]
    apply Except.mapM_ok
    intro row hrow
    rw [Function.comp_apply, hwalk row hrow]
    exact foldlM_takeValue _ _
  have hcounted := counted_eq hrows (res.rows.map fun row => (⟨none, none⟩ : FieldValue) :: rowCells res row)
    (List.length_map _) (UInt16.ofNat res.fields.length)
  have hfree : freeResultData (some ⟨res.rows.map fun row => ⟨none, none⟩ :: rowCells res row,
      UInt32.ofNat res.rows.length, UInt16.ofNat res.fields.length⟩) = .ok () := by
    rw [freeResultData, assigned]
    simp only [bind, Except.bind, hcounted]
    apply Except.forM_ok
    intro head hhead
    obtain ⟨row, hrow, rfl⟩ := List.mem_map.mp hhead
    rw [hwalk row hrow]
  rw [pullSentInfoFromMysql, query_answering, mysqlFillData_eq hrows]
  simp only [bind, Except.bind, Except.map, assigned, hcounted] at hqueue ⊢
  rw [hqueue]
  simp only [hfree]

theorem pull_error (h : ¬ Walkable res) (addr : CString) :
    ∃ fault, pullSentInfoFromMysql (answering res) addr = .error fault := by
  rw [Walkable, not_and_or, Classical.not_imp] at h
  rcases h with hrows | ⟨hne, hcolumns⟩
  · rw [pullSentInfoFromMysql, query_answering, mysqlFillData_outOfBounds (Nat.le_of_not_lt hrows)]
    exact ⟨_, rfl⟩
  · by_cases hrows : res.rows.length < 2 ^ 31
    · have hcounted := counted_eq hrows (res.rows.map fun row => (⟨none, none⟩ : FieldValue) :: rowCells res row)
        (List.length_map _) (UInt16.ofNat res.fields.length)
      obtain ⟨row, rows, hcons⟩ := List.exists_cons_of_ne_nil hne
      rw [pullSentInfoFromMysql, query_answering, mysqlFillData_eq hrows]
      simp only [bind, Except.bind, Except.map, assigned, hcounted]
      rw [hcons, List.map_cons, List.mapM_cons, walk_beyond hcolumns]
      exact ⟨_, rfl⟩
    · rw [pullSentInfoFromMysql, query_answering, mysqlFillData_outOfBounds (Nat.le_of_not_lt hrows)]
      exact ⟨_, rfl⟩

theorem complete_iff {row : List (Option (List UInt8))} :
    Complete res row ↔ Sendable (rowMail (readColumns res row) emptyMail) := by
  have hempty : ∀ f : Field, (f.get emptyMail).isSome = false := by
    intro f
    cases f <;> rfl
  simp only [Complete, Sendable, get_rowMail_isSome, hempty, Bool.false_eq_true, false_or]

/-- All mails that a pull queues can be sent exactly when every row has a text in each of their columns. -/
theorem pull_sendable_iff {addr : CString} :
    (∀ queue, pullSentInfoFromMysql (answering res) addr = .ok queue → ∀ mail ∈ queue, Sendable mail) ↔
      (Walkable res → ∀ row ∈ res.rows, Complete res row) := by
  by_cases hwalk : Walkable res
  · rw [pull_eq hwalk]
    constructor
    · intro h _ row hrow
      exact complete_iff.mpr (h _ rfl _ (List.mem_map_of_mem hrow))
    · intro h queue hqueue mail hmail
      cases hqueue
      obtain ⟨row, hrow, rfl⟩ := List.mem_map.mp hmail
      exact complete_iff.mp (h hwalk row hrow)
  · refine iff_of_true (fun queue hqueue => ?_) fun h => absurd h hwalk
    obtain ⟨fault, hfault⟩ := pull_error hwalk addr
    rw [hfault] at hqueue
    cases hqueue

end

/-- A row whose subject is empty. -/
def noSubject : MysqlRes where
  fields := [Field.toAddr.column, Field.subject.column, Field.content.column, Field.sender.column,
    Field.fromAddr.column]
  rows := [[some (ascii "a@example.com"), some [], some (ascii "hello"), some (ascii "edm"),
    some (ascii "b@example.com")]]
  width := by decide

theorem not_sendable_noSubject :
    ¬ ∀ (res : MysqlRes) (addr : CString) (queue : List SendMail.MailInfo),
      pullSentInfoFromMysql (answering res) addr = .ok queue → ∀ mail ∈ queue, Sendable mail := by
  intro h
  have hwalk : Walkable noSubject := ⟨by decide, fun _ => by decide⟩
  have hmail := h noSubject ⟨[], by decide⟩ _ (pull_eq hwalk _) _ (List.mem_map_of_mem List.mem_cons_self)
  exact absurd (hmail .subject (by decide)) (by decide)

/-! ## The rows of the table -/

/-- The result set of `select *` over the columns that a mail is made of. -/
def tableResult (rows : List SendEmail) : MysqlRes where
  fields := Field.all.map Field.column
  rows := rows.map fun r => [r.toAddr, r.cc, r.subject, r.content, r.sender, r.fromAddr]
  width := by
    intro row hrow
    obtain ⟨r, -, rfl⟩ := List.mem_map.mp hrow
    rfl

/-- The strings of a `mail_info_t`. -/
def strings (mail : PostfixEdm.MailInfo) : SendMail.MailInfo :=
  ⟨mail.toAddr.map CString.ofBytes, mail.cc.map CString.ofBytes, mail.subject.map CString.ofBytes,
    mail.content.map CString.ofBytes, mail.sender.map CString.ofBytes, mail.fromAddr.map CString.ofBytes⟩

theorem fieldValue_cell (name : CString) (value : Option (List UInt8)) :
    (cell name value).fieldValue = (PostfixEdm.fieldValue value).map CString.ofBytes := by
  rw [cell, PostfixEdm.fieldValue]
  cases value with
  | none => rfl
  | some bytes => cases bytes <;> rfl

theorem named_column (f g : Field) : Field.named f.column g = true ↔ g = f := by cases f <;> cases g <;> decide

theorem eq_of_get {a b : SendMail.MailInfo} (h : ∀ f : Field, f.get a = f.get b) : a = b := by
  have hto := h .toAddr
  have hcc := h .cc
  have hsubject := h .subject
  have hcontent := h .content
  have hsender := h .sender
  have hfrom := h .fromAddr
  cases a
  cases b
  simp only [Field.get] at hto hcc hsubject hcontent hsender hfrom
  rw [hto, hcc, hsubject, hcontent, hsender, hfrom]

/-- A pull queues the mails that the rows make. -/
theorem pull_tableResult {rows : List SendEmail} (h : rows.length < 2 ^ 31) (addr : CString) :
    pullSentInfoFromMysql (answering (tableResult rows)) addr = .ok (rows.map fun r => strings r.mailInfo) := by
  have hcolumns : (UInt16.ofNat 6).toNat ≤ (Int32.ofNat 6).toInt.toNat := by decide
  have hwalk : Walkable (tableResult rows) := ⟨(List.length_map _).trans_lt h, fun _ => hcolumns⟩
  rw [pull_eq hwalk, tableResult, List.map_map]
  congr 1
  apply List.map_congr_left
  intro r _
  change taken (taken (taken (taken (taken (taken emptyMail Field.toAddr.column _) Field.cc.column _)
    Field.subject.column _) Field.content.column _) Field.sender.column _) Field.fromAddr.column _ = _
  apply eq_of_get
  intro f
  simp only [get_taken, named_column, fieldValue_cell]
  cases f <;> simp [Field.get, emptyMail, strings, SendEmail.mailInfo]

/-! ## The address -/

/-- `sql` is the whole statement, and its literal denotes the address. -/
def Denotes (sql columns : List UInt8) (addr : CString) : Prop :=
  sql = statement columns addr ∧ Sql.readLiteral (sql.drop (front columns).length) = some (addr.bytes, back)

/-- Both statements say what they are meant to about the address. -/
def AddressKept (addr : CString) : Prop :=
  Denotes (pullSql addr) (ascii "*") addr ∧ Denotes (haveSql addr) (ascii "cout(`to`)") addr

theorem back_eq : back = ascii " group by `to` limit 1000" := by
  rw [back, decimal, if_neg (by decide), pullSentMailUnit]
  norm_num
  decide

theorem denotes_iff {columns : List UInt8} {addr : CString} :
    Denotes (snprintf 200 (statement columns addr)) columns addr ↔
      (statement columns addr).length ≤ 199 ∧ Sql.Verbatim addr.bytes := by
  have hback : back.head? ≠ some Sql.quote := by
    rw [back_eq]
    decide
  have hwhole : snprintf 200 (statement columns addr) = statement columns addr ↔
      (statement columns addr).length ≤ 199 := List.take_eq_self_iff _
  rw [Denotes, hwhole]
  refine and_congr_right fun hlen => ?_
  rw [hwhole.mpr hlen, statement, List.append_assoc, List.drop_left]
  exact Sql.readLiteral_eq_iff hback

/-- Both statements keep the address exactly when it fits the longer one and denotes itself. -/
theorem addressKept_iff {addr : CString} :
    AddressKept addr ↔ addr.bytes.length ≤ 110 ∧ Sql.Verbatim addr.bytes := by
  have hpull : (statement (ascii "*") addr).length = addr.bytes.length + 80 := by
    rw [statement, back_eq, List.length_append, List.length_append,
      show (front (ascii "*")).length = 54 by decide, List.length_cons,
      show (ascii " group by `to` limit 1000").length = 25 by decide]
    omega
  have hhave : (statement (ascii "cout(`to`)") addr).length = addr.bytes.length + 89 := by
    rw [statement, back_eq, List.length_append, List.length_append,
      show (front (ascii "cout(`to`)")).length = 63 by decide, List.length_cons,
      show (ascii " group by `to` limit 1000").length = 25 by decide]
    omega
  rw [AddressKept, pullSql, haveSql, denotes_iff, denotes_iff, hpull, hhave]
  constructor
  · rintro ⟨-, hlen, hverb⟩
    exact ⟨by omega, hverb⟩
  · rintro ⟨hlen, hverb⟩
    exact ⟨⟨by omega, hverb⟩, by omega, hverb⟩

/-! ## The address of the configuration -/

/-- `stripLineSep` -/
def stripLineSep (str : List UInt8) : List UInt8 := str.rdropWhile fun b => b = 13 || b = 10

/-- `emailFromAddr`, from `client.conf`. -/
def emailFromAddr (clientConf : CConfigFileReader) : Option (List UInt8) :=
  (clientConf.getConfigName (ascii "emailFromAddr")).map stripLineSep

/-- An address with a quote in it. -/
def quoted : TextFile := ⟨ascii "emailFromAddr=o'brien@mail.com\n", by decide⟩

theorem not_addressKept_quoted :
    ¬ ∀ (file : TextFile) (addr : CString),
      emailFromAddr (CConfigFileReader.construct false (some file)) = some addr.bytes → AddressKept addr := by
  intro h
  have hread : emailFromAddr (CConfigFileReader.construct false (some quoted)) = some (ascii "o'brien@mail.com") := by
    have hlines : ∀ line ∈ ConfigGrammar.lines quoted.bytes, line.length ≤ 255 := by decide
    rw [emailFromAddr, CConfigFileReader.getConfigName_eq,
      ConfigGrammar.first_flatMap_pieces fun line hline => Or.inl (hlines line hline)]
    decide
  have hkept := h quoted ⟨ascii "o'brien@mail.com", by decide⟩ hread
  rw [AddressKept, pullSql, denotes_iff] at hkept
  exact absurd hkept.1.2 (by decide)

end PostfixEdm.PullMail
