import PostfixEdm.Base.Mysql
import PostfixEdm.Server.Admins

/-!
# The counts of the database: `_getTotalNum` and `getSentEmailNum`

* `Manager.getTotalNum`, `Monitoring.getSentEmailNum` : the functions, over a database that may fail;
* `counting` : a database that answers with a count; `getTotalNum_counting` : what becomes of it;
* `Admins.TotalReported` : in every run, the replies after a start carry the count of the start;
  `totalReported_iff` : they do for the counts of 16 bits.
-/

namespace PostfixEdm
open Mysql

/-- `atoi(fieldValue)` -/
def atoiValue : Option CString → Except Fault Int32
  | some s => .ok (atoi s.bytes)
  | none => .error .null

/-- `select_sql` of `_getTotalNum` -/
def totalSql : List UInt8 :=
  snprintf 200 (ascii "SELECT count(DISTINCT `to`) as totalnum FROM `send_email` limit 1")

/-- `select_sql` of `getSentEmailNum` -/
def sentSql : List UInt8 :=
  snprintf 200 (ascii "SELECT count(1) as sentNum FROM `send_email` where `status` = 1 limit 1")

/-- `_getTotalNum` -/
def Manager.getTotalNum (db : Db) : Except Fault UInt64 := do
  let resultData ← query db totalSql
  let data ← assigned resultData
  if 0 < data.rows then
    let value ← firstValue data
    let num ← atoiValue value
    .ok (UInt16.ofInt num.toInt).toUInt64
  else .ok 0

/-- `getSentEmailNum` -/
def Monitoring.getSentEmailNum (db : Db) : Except Fault Int64 := do
  let resultData ← query db sentSql
  let data ← assigned resultData
  if 0 < data.rows then
    let value ← firstValue data
    let num ← atoiValue value
    .ok num.toInt64
  else .ok 0

/-- One row with one column, the decimal text of `n`. -/
def countResult (n : Nat) : MysqlRes := ⟨[⟨ascii "totalnum", by decide⟩], [[some (decimal n)]], by simp⟩

/-- A database that answers with a count. -/
def counting (n : Nat) : Db := ⟨true, true, fun _ => .stored (countResult n)⟩

theorem decimal_ne_nil (n : Nat) : decimal n ≠ [] := by
  obtain ⟨ds, hne, -, heq, -⟩ := decimal_digits n
  rwa [heq, ne_eq, List.map_eq_nil_iff]

theorem mysqlFillData_count (n : Nat) : mysqlFillData (countResult n) =
    .ok ⟨[[⟨none, none⟩, ⟨some ⟨ascii "totalnum", by decide⟩, some (CString.ofBytes (decimal n))⟩]], 1, 1⟩ := by
  have hcell : cell ⟨ascii "totalnum", by decide⟩ (some (decimal n)) =
      ⟨some ⟨ascii "totalnum", by decide⟩, some (CString.ofBytes (decimal n))⟩ := by
    rw [cell]
    exact congrArg (FieldValue.mk _) (if_pos (mt List.length_eq_zero_iff.mp (decimal_ne_nil n)))
  rw [mysqlFillData_eq (Nat.one_lt_two_pow (by decide))]
  change Except.ok (ResultData.mk [[⟨none, none⟩, cell ⟨ascii "totalnum", by decide⟩ (some (decimal n))]] 1 1) = _
  rw [hcell]

/-- The count, as `_getTotalNum` casts it. -/
theorem getTotalNum_counting (n : Nat) :
    Manager.getTotalNum (counting n) = .ok (UInt16.ofInt (atoi (decimal n)).toInt).toUInt64 := by
  have hbytes : (CString.ofBytes (decimal n)).bytes = decimal n :=
    cstr_eq_self (nul_notMem_decimal n)
  have hquery : query (counting n) totalSql = (mysqlFillData (countResult n)).map some := query_stored rfl rfl
  rw [Manager.getTotalNum, hquery, mysqlFillData_count]
  change Except.ok (UInt16.ofInt (atoi (CString.ofBytes (decimal n)).bytes).toInt).toUInt64 = _
  rw [hbytes]

/-- It is the count if that fits 16 bits. -/
theorem getTotalNum_eq {n : Nat} (h : n < 65536) :
    Manager.getTotalNum (counting n) = .ok (UInt64.ofNat n) := by
  have hmod : ((n : Int) % 2 ^ 16).toNat = n := by omega
  rw [getTotalNum_counting, toInt_atoi_decimal (by omega), UInt16.ofInt, hmod]
  congr 1
  apply UInt64.toNat_inj.mp
  have h16 : (UInt16.ofNat n).toNat = n := UInt16.toNat_ofNat_of_lt h
  have h64 : (UInt64.ofNat n).toNat = n := UInt64.toNat_ofNat_of_lt (Nat.lt_trans h (by decide))
  rw [UInt16.toNat_toUInt64, h16, h64]

theorem getTotalNum_lt {n : Nat} {total : UInt64} (h : Manager.getTotalNum (counting n) = .ok total) :
    total.toNat < 65536 := by
  rw [getTotalNum_counting] at h
  cases h
  exact UInt16.toNat_lt _

/-! ## Every reply after a start -/

/-- The reader understands the totals that a double holds exactly. -/
def JsonReader.ReadsTotal (parse : JsonReader) : Prop :=
  ∀ info : ServerStatusInfo, info.totalNum.toNat < 2 ^ 53 →
    ∃ info', parse info.serialize = some info' ∧ info'.totalNum = info.totalNum

namespace Admins

variable {κ : Type} [DecidableEq κ]

/-- A start finds the count in the database. -/
def StartFinds (n : Nat) : Act κ → Prop
  | .handlePdu _ pdu look _ =>
    pdu.body = .serverCommand cidCommandStart → Manager.getTotalNum (counting n) = .ok look.totalNum
  | _ => True

/-- A status request is answered with the total, and so the receiver reads it. -/
def Reports (parse : JsonReader) (n : Nat) (mgr : Manager) : Prop :=
  ∀ (look : Lookup) (clientType : UInt16) (pdu : CImPdu) (p : Nat) (m : UInt32),
    pdu.body = .serverStatusInfo p m →
    ∃ info : ServerStatusInfo,
      (ServConn.handlePdu look mgr clientType pdu).replies = [.serverStatusInfo info.serialize] ∧
        info.totalNum.toNat = n ∧ (ServerStatusInfo.unserialize parse info.serialize).totalNum.toNat = n

/-- Every reply after a start that finds `n`, in every run in which any other start finds it too. -/
def TotalReported (parse : JsonReader) (n : Nat) (κ : Type) [DecidableEq κ] : Prop :=
  ∀ (onlineClientNum : UInt16) (s s' t : Admins κ) (k : κ) (pdu : CImPdu) (look : Lookup) (now : UInt64),
    Transition.Reachable step (init onlineClientNum) s → pdu.body = .serverCommand cidCommandStart →
    Manager.getTotalNum (counting n) = .ok look.totalNum → step (.handlePdu k pdu look now) s = some s' →
    Transition.Reaches step (fun _ a => StartFinds n a) s' t → Reports parse n t.manager

omit [DecidableEq κ] in
/-- A handler leaves the total alone, a start apart. -/
theorem handlePdu_totalNum (look : Lookup) (mgr : Manager) (clientType : UInt16) (pdu : CImPdu) :
    (ServConn.handlePdu look mgr clientType pdu).manager.totalNum =
      if pdu.body = .serverCommand cidCommandStart then look.totalNum else mgr.totalNum := by
  unfold ServConn.handlePdu
  cases pdu.body with
  | serverCommand command =>
    by_cases hstart : command = cidCommandStart
    · subst hstart
      rw [if_pos rfl]
      rfl
    · rw [if_neg fun h => hstart (PduBody.serverCommand.inj h)]
      unfold ServConn.runCommand
      dsimp only
      rw [if_neg hstart]
      split_ifs <;> rfl
  | clientDone =>
    dsimp only
    by_cases hsent : look.sentEmailNum = 0
    · rw [if_pos hsent]
      rfl
    · rw [if_neg hsent]
      rfl
  | _ => rfl

variable {parse : JsonReader} {n : Nat} {s s' : Admins κ}

theorem totalNum_handlePdu {k : κ} {pdu : CImPdu} {look : Lookup} {now : UInt64}
    (hstep : step (.handlePdu k pdu look now) s = some s') : s'.manager.totalNum =
      if pdu.body = .serverCommand cidCommandStart then look.totalNum else s.manager.totalNum := by
  obtain ⟨c, -, hstep⟩ := Option.bind_eq_some_iff.mp hstep
  obtain ⟨-, hstep⟩ := Option.ite_none_right_eq_some.mp hstep
  obtain rfl := Option.some.inj hstep
  exact handlePdu_totalNum look s.manager c.clientType pdu

/-- The total stays what the database has. -/
theorem totalNum_step (h : Manager.getTotalNum (counting n) = .ok s.manager.totalNum) {a : Act κ}
    (hgood : StartFinds n a) (hstep : step a s = some s') :
    Manager.getTotalNum (counting n) = .ok s'.manager.totalNum := by
  cases a with
  | accept k peer clientType now =>
    simp only [step, Option.ite_none_right_eq_some, Option.some.injEq] at hstep
    obtain ⟨_, rfl⟩ := hstep
    exact h
  | recv k now | close k =>
    obtain ⟨c, -, hstep⟩ := Option.bind_eq_some_iff.mp hstep
    obtain rfl := Option.some.inj hstep
    exact h
  | handlePdu k pdu look now =>
    rw [totalNum_handlePdu hstep]
    split
    · next hstart => exact hgood hstart
    · exact h
  | timer now onlineClientNum =>
    obtain rfl := Option.some.inj hstep
    exact h

/-- After a start, and in every run that goes on from it. -/
theorem totalNum_reaches {k : κ} {pdu : CImPdu} {look : Lookup} {now : UInt64} {t : Admins κ}
    (hstart : pdu.body = .serverCommand cidCommandStart)
    (hlook : Manager.getTotalNum (counting n) = .ok look.totalNum)
    (hstep : step (.handlePdu k pdu look now) s = some s')
    (hrun : Transition.Reaches step (fun _ a => StartFinds n a) s' t) :
    Manager.getTotalNum (counting n) = .ok t.manager.totalNum := by
  refine hrun.invariant (motive := fun t => Manager.getTotalNum (counting n) = .ok t.manager.totalNum) ?_
    fun _ _ _ h hgood hstep => totalNum_step h hgood hstep
  rw [totalNum_handlePdu hstep, if_pos hstart]
  exact hlook

theorem reply_statusInfo {look : Lookup} {mgr : Manager} {clientType : UInt16} {pdu : CImPdu} {p : Nat} {m : UInt32}
    (h : pdu.body = .serverStatusInfo p m) :
    (ServConn.handlePdu look mgr clientType pdu).replies = [.serverStatusInfo mgr.statusInfo.serialize] := by
  unfold ServConn.handlePdu
  rw [h]

theorem totalNum_unserialize (hreads : parse.ReadsTotal) {info : ServerStatusInfo}
    (h : info.totalNum.toNat < 2 ^ 53) :
    (ServerStatusInfo.unserialize parse info.serialize).totalNum = info.totalNum := by
  obtain ⟨info', hparse, htotal⟩ := hreads info h
  rw [ServerStatusInfo.unserialize, cstr_eq_self info.nul_notMem_serialize, hparse]
  exact htotal

/-- A manager with the total of a count of 16 bits, and no other, reports it. -/
theorem reports_iff (hreads : parse.ReadsTotal) {mgr : Manager}
    (h : Manager.getTotalNum (counting n) = .ok mgr.totalNum) : Reports parse n mgr ↔ n < 65536 := by
  have hlt : mgr.statusInfo.totalNum.toNat < 2 ^ 53 := Nat.lt_trans (getTotalNum_lt h) (by decide)
  constructor
  · intro hreports
    let request : CImPdu := ⟨⟨0, 0, 0, 0, 0⟩, 0, .serverStatusInfo 0 0⟩
    obtain ⟨info, hreply, -, htotal⟩ := hreports ⟨0, 0, []⟩ clientPhp request 0 0 rfl
    rw [reply_statusInfo rfl] at hreply
    rw [← OutPdu.serverStatusInfo.inj (List.singleton_inj.mp hreply), totalNum_unserialize hreads hlt] at htotal
    exact htotal ▸ getTotalNum_lt h
  · intro hn look clientType pdu p m hbody
    have htotal : mgr.totalNum = UInt64.ofNat n := (Except.ok.inj ((getTotalNum_eq hn).symm.trans h)).symm
    have hnum : mgr.statusInfo.totalNum.toNat = n := by
      change mgr.totalNum.toNat = n
      rw [htotal]
      exact UInt64.toNat_ofNat_of_lt (Nat.lt_trans hn (by decide))
    exact ⟨mgr.statusInfo, reply_statusInfo hbody, hnum, by rw [totalNum_unserialize hreads hlt, hnum]⟩

/-- A start, as it is decoded. -/
def startCommand : CImPdu := ⟨⟨14, sidCommand, cidCommandStart, pduVersion, 0⟩, 14, .serverCommand cidCommandStart⟩

theorem lt_of_totalReported (k : κ) (hreads : parse.ReadsTotal) (h : TotalReported parse n κ) : n < 65536 := by
  obtain ⟨total, hfind⟩ : ∃ total, Manager.getTotalNum (counting n) = .ok total := ⟨_, getTotalNum_counting n⟩
  let c : Served := ⟨.cpp, true, clientCpp, 0, 0, [], []⟩
  have hreach : Transition.Reachable step (init 0 : Admins κ) ((init 0).setConn k c) :=
    Transition.reachable_of_run [.accept k .cpp clientCpp 0] rfl
  have hopen : ((init 0 : Admins κ).setConn k c).openConn k = some c := by
    rw [openConn, conns_setConn_self]
    rfl
  have hstep : ∃ s', step (.handlePdu k startCommand ⟨total, 0, []⟩ 0) ((init 0 : Admins κ).setConn k c) = some s' := by
    simp only [step, hopen]
    exact ⟨_, rfl⟩
  obtain ⟨s', hs'⟩ := hstep
  exact (reports_iff hreads (totalNum_reaches rfl hfind hs' .start)).mp
    (h 0 _ s' s' k startCommand ⟨total, 0, []⟩ 0 hreach rfl hfind hs' .start)

/-- The replies after a start carry the count of the start exactly when it fits 16 bits. -/
theorem totalReported_iff (k : κ) (hreads : parse.ReadsTotal) : TotalReported parse n κ ↔ n < 65536 := by
  refine ⟨lt_of_totalReported k hreads, ?_⟩
  intro hn onlineClientNum s s' t k pdu look now _ hstart hlook hstep hrun
  exact (reports_iff hreads (totalNum_reaches hstart hlook hstep hrun)).mpr hn

end Admins

theorem digitReader_readsTotal : digitReader.ReadsTotal := by
  intro info h
  refine ⟨_, digitReader_serialize info, ?_⟩
  simp only [roundDouble, if_pos h, UInt64.ofNat_toNat]

namespace Admins

theorem totalReported_digitReader : TotalReported digitReader 50000 Unit ↔ 50000 < 65536 :=
  totalReported_iff () digitReader_readsTotal

/-- Of 70000 mails, 4464 are reported. -/
theorem not_totalReported_70000 : Manager.getTotalNum (counting 70000) = .ok 4464 ∧
    ¬ ∀ n < 2 ^ 31, TotalReported digitReader n Unit := by
  constructor
  · rw [getTotalNum_counting, toInt_atoi_decimal (by decide)]
    rfl
  · intro h
    have hlt : 70000 < 65536 := lt_of_totalReported () digitReader_readsTotal (h 70000 (by decide))
    omega

end Admins

end PostfixEdm
