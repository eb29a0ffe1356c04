import PostfixEdm.Client.PullMail
import PostfixEdm.Lib.Avoids
import PostfixEdm.Server.Totals

/-!
# The callers of `mysql_select`

* `Caller` : the four functions that read a result; `Caller.run` : one of them, over a database;
* `Caller.readsAssigned_iff` : a caller reads what has been assigned exactly when its query is answered with a result
  set, or the caller does not come to it.
-/

namespace PostfixEdm
open Mysql

inductive Caller
  | getTotalNum | getSentEmailNum | haveSendInfo | pullSentInfoFromMysql
  deriving DecidableEq

namespace Caller

/-- `select_sql` -/
def sql (emailFromAddr : CString) : Caller → List UInt8
  | getTotalNum => totalSql
  | getSentEmailNum => sentSql
  | haveSendInfo => PullMail.haveSql emailFromAddr
  | pullSentInfoFromMysql => PullMail.pullSql emailFromAddr

/-- What comes of a caller, its result apart. -/
def run (db : Db) (emailFromAddr : CString) : Caller → Except Fault Unit
  | getTotalNum => (Manager.getTotalNum db).map fun _ => ()
  | getSentEmailNum => (Monitoring.getSentEmailNum db).map fun _ => ()
  | haveSendInfo => (PullMail.haveSendInfo db emailFromAddr).map fun _ => ()
  | pullSentInfoFromMysql => (PullMail.pullSentInfoFromMysql db emailFromAddr).map fun _ => ()

/-- No field of the `result_data_t` is read or freed unless it has been assigned. -/
def ReadsAssigned (db : Db) (emailFromAddr : CString) (caller : Caller) : Prop :=
  Avoids .unassigned (caller.run db emailFromAddr)

end Caller

/-! ## What is assigned -/

namespace Mysql

theorem avoids_walk (n : Nat) (pointer : List FieldValue) : Avoids .unassigned (walk n pointer) := by
  induction n generalizing pointer with
  | zero => exact .ok []
  | succ n ih =>
    unfold walk
    split
    · exact (ih _).bind fun _ _ => .ok _
    · exact .error (by decide)

theorem avoids_counted (data : ResultData) : Avoids .unassigned (counted data) := by
  unfold counted
  split
  · exact .ok _
  · exact .error (by decide)

theorem avoids_firstValue (data : ResultData) : Avoids .unassigned (firstValue data) := by
  unfold firstValue
  split
  · exact .error (by decide)
  · exact .ok _
  · exact .error (by decide)

theorem avoids_freeResultData (data : ResultData) : Avoids .unassigned (freeResultData (some data)) := by
  unfold freeResultData
  refine Avoids.bind (.ok data) fun _ _ => (avoids_counted _).bind fun _ _ => .forM fun _ => ?_
  exact (avoids_walk _ _).bind fun _ _ => .ok ()

theorem avoids_mysqlFillData (res : MysqlRes) : Avoids .unassigned (mysqlFillData res) := by
  by_cases h : res.rows.length < 2 ^ 31
  · rw [mysqlFillData_eq h]
    exact .ok _
  · rw [mysqlFillData_outOfBounds (Nat.le_of_not_lt h)]
    exact .error (by decide)

/-- The first value of a row, as a number. -/
theorem avoids_count {α : Type} (data : ResultData) (zero : α) (read : Int32 → α) :
    Avoids .unassigned (if 0 < data.rows then do
        let value ← firstValue data
        let num ← atoiValue value
        .ok (read num)
      else .ok zero) := by
  split
  · refine (avoids_firstValue data).bind fun value _ => Avoids.bind ?_ fun _ _ => .ok _
    cases value with
    | none => exact .error (by decide)
    | some s => exact .ok _
  · exact .ok zero

/-- A caller that reads the result as soon as it has it. -/
theorem avoids_query_iff {α : Type} {db : Db} {sql : List UInt8}
    {rest : Option ResultData → ResultData → Except Fault α}
    (hrest : ∀ data, Avoids .unassigned (rest (some data) data)) :
    Avoids .unassigned (do
        let resultData ← query db sql
        let data ← assigned resultData
        rest resultData data) ↔
      (db.connect = true → db.selectDb = true → ∃ res, db.query (strtrim sql) = .stored res) := by
  by_cases hopen : (db.connect && db.selectDb) = true
  · obtain ⟨hconnect, hselect⟩ := Bool.and_eq_true_iff.mp hopen
    cases hquery : db.query (strtrim sql) with
    | error | noResult errno =>
      refine iff_of_false (fun h => h ?_) fun h => ?_
      · rw [query, openDb, if_pos hopen, mysqlSelect, hquery]
        rfl
      · obtain ⟨res, hres⟩ := h hconnect hselect
        cases hres
    | stored res =>
      refine iff_of_true ?_ fun _ _ => ⟨res, rfl⟩
      rw [query_stored hopen hquery]
      cases hdata : mysqlFillData res with
      | error fault => exact .error fun heq => avoids_mysqlFillData res (heq ▸ hdata)
      | ok data => exact hrest data
  · rw [query, openDb, if_neg hopen]
    refine iff_of_true (.error (by decide)) fun hconnect hselect => absurd ?_ hopen
    rw [hconnect, hselect]
    rfl

end Mysql

namespace Caller

/-- A caller reads only what has been assigned exactly when it gets a result set for its statement, or does not come to
query at all. -/
theorem readsAssigned_iff {db : Db} {emailFromAddr : CString} {caller : Caller} :
    caller.ReadsAssigned db emailFromAddr ↔
      (db.connect = true → db.selectDb = true →
        ∃ res, db.query (strtrim (caller.sql emailFromAddr)) = .stored res) := by
  cases caller with
  | getTotalNum => exact Avoids.map_iff.trans (avoids_query_iff fun data => avoids_count data _ _)
  | getSentEmailNum => exact Avoids.map_iff.trans (avoids_query_iff fun data => avoids_count data _ _)
  | haveSendInfo =>
    refine Avoids.map_iff.trans (avoids_query_iff fun data => ?_)
    have hfree : ∀ value : Option CString, Avoids .unassigned (do
        freeResultData (some data)
        Except.ok value.isSome) := fun value => (avoids_freeResultData data).bind fun _ _ => .ok _
    dsimp only
    split
    · exact (avoids_firstValue data).bind fun value _ => hfree value
    · exact hfree none
  | pullSentInfoFromMysql =>
    refine Avoids.map_iff.trans (avoids_query_iff fun data => (avoids_counted data).bind fun heads _ => ?_)
    refine Avoids.bind (.mapM fun head => (avoids_walk _ head).bind fun cells _ => .foldlM ?_ _) fun queue _ => ?_
    · intro mail c
      unfold PullMail.takeValue
      split
      · exact .error (by decide)
      · split <;> exact .ok _
    · exact (avoids_freeResultData data).bind fun _ _ => .ok queue

/-- A database that every query fails on. -/
def failing : Db := ⟨true, true, fun _ => .error⟩

theorem not_readsAssigned_failing : ¬ ∀ (db : Db) (emailFromAddr : CString) (caller : Caller),
    caller.ReadsAssigned db emailFromAddr := fun h => h failing ⟨[], by decide⟩ .getTotalNum rfl

end Caller

end PostfixEdm
