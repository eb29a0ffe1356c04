import PostfixEdm.Base.Text
import PostfixEdm.Lib.Avoids

/-!
# `mysql.c`

* `MysqlRes` : a result set as the client library reports it; `ResultData` : `result_data_t`, with the lists that
  `next` makes;
* `mysqlFillData`, `mysqlSelect`, `freeResultData` : the functions. `none` is a `result_data_t` that nothing has been
  assigned to;
* `Mysql.walk` : what a reader finds that follows `next`;
* `Mysql.copied_iff` : when a copy has the rows, columns and values of the result set.
-/

namespace PostfixEdm

/-- Why a function does not return. -/
inductive Fault
  | null | outOfBounds | unassigned | assertion
  deriving DecidableEq, Repr

/-- A value is `none` when it is NULL. -/
structure MysqlRes where
  fields : List CString
  rows : List (List (Option (List UInt8)))
  width : ∀ row ∈ rows, row.length = fields.length

/-- `mysql_field_value_t`, without `next`. -/
structure FieldValue where
  fieldName : Option CString
  fieldValue : Option CString
  deriving DecidableEq

structure ResultData where
  data : List (List FieldValue)
  rows : UInt32
  columns : UInt16
  deriving DecidableEq

namespace Mysql

/-- The element for a column: a value of length 0 is left NULL, any other is copied as a C string. -/
def cell (name : CString) (value : Option (List UInt8)) : FieldValue :=
  let fieldValueLength := (value.getD []).length
  ⟨some name, if fieldValueLength ≠ 0 then value.map CString.ofBytes else none⟩

/-- The list of a row: `head`, and an element for each column. -/
def fillRow (fieldsNum : Int) (fields : List CString) (row : List (Option (List UInt8))) : List FieldValue :=
  ((fields.zip row).take fieldsNum.toNat).foldl (fun list (name, value) => list ++ [cell name value]) [⟨none, none⟩]

/-- `*(result_data_ptr->data + i) = head`, in an array of `rowsNum`. -/
def storeRow (rowsNum : Int) (data : List (List FieldValue)) (head : List FieldValue) :
    Except Fault (List (List FieldValue)) :=
  if data.length < rowsNum then .ok (data ++ [head]) else .error .outOfBounds

/-- `mysql_fill_data` -/
def mysqlFillData (res : MysqlRes) : Except Fault ResultData := do
  let rowsNum := (Int32.ofNat res.rows.length).toInt
  let fieldsNum := (Int32.ofNat res.fields.length).toInt
  let data ← (res.rows.map (fillRow fieldsNum res.fields)).foldlM (storeRow rowsNum) []
  .ok ⟨data, UInt32.ofNat res.rows.length, UInt16.ofNat res.fields.length⟩

/-- What the calls of `mysql_select` come to: the query fails, there is no result set, or there is one. -/
inductive QueryOutcome
  | error
  | noResult (errno : UInt32)
  | stored (res : MysqlRes)

/-- The database behind a connection; `connect` and `selectDb` : the connection and the choice of the database
succeed. -/
structure Db where
  connect : Bool
  selectDb : Bool
  query : List UInt8 → QueryOutcome

/-- `mysql_user_connect` and `mysql_select_db`, with the assertions of their callers. -/
def openDb (db : Db) : Except Fault Unit :=
  if db.connect && db.selectDb then .ok () else .error .assertion

/-- `mysql_select`, with what it assigns to the `result_data_t`. -/
def mysqlSelect (db : Db) (sql : List UInt8) : Except Fault (Int × Option ResultData) :=
  match db.query (strtrim sql) with
  | .error => .ok (-1, none)
  | .noResult _ => .ok (-1, none)
  | .stored res => do
    let data ← mysqlFillData res
    .ok (0, some data)

/-- What each caller begins with. It does not look at the return code of `mysql_select`. -/
def query (db : Db) (sql : List UInt8) : Except Fault (Option ResultData) := do
  openDb db
  let (_, resultData) ← mysqlSelect db sql
  .ok resultData

/-- A field of a `result_data_t` is read. -/
def assigned : Option ResultData → Except Fault ResultData
  | some data => .ok data
  | none => .error .unassigned

/-- The elements that are met by following `next`. -/
def walk : Nat → List FieldValue → Except Fault (List FieldValue)
  | 0, _ => .ok []
  | n + 1, pointer =>
    match pointer with
    | _ :: current :: rest => do
      let cells ← walk n (current :: rest)
      .ok (current :: cells)
    | _ => .error .null

/-- `*(data + i)`, for each row that is counted. -/
def counted (data : ResultData) : Except Fault (List (List FieldValue)) :=
  if data.rows.toNat ≤ data.data.length then .ok (data.data.take data.rows.toNat) else .error .outOfBounds

/-- `(*data)->next->fieldValue` -/
def firstValue (data : ResultData) : Except Fault (Option CString) :=
  match data.data with
  | [] => .error .outOfBounds
  | (_ :: current :: _) :: _ => .ok current.fieldValue
  | _ => .error .null

/-- `free_result_data` goes through all rows. -/
def freeResultData (data : Option ResultData) : Except Fault Unit := do
  let data ← assigned data
  let heads ← counted data
  heads.forM fun head => do
    let _ ← walk data.columns.toNat head
    .ok ()

/-- What a reader of the copy finds: each row, by its columns. -/
def cells (data : ResultData) : Except Fault (List (List FieldValue)) := do
  let heads ← counted data
  heads.mapM (walk data.columns.toNat)

theorem query_stored {db : Db} {sql : List UInt8} {res : MysqlRes} (hopen : (db.connect && db.selectDb) = true)
    (h : db.query (strtrim sql) = .stored res) : query db sql = (mysqlFillData res).map some := by
  rw [query, openDb, if_pos hopen, mysqlSelect, h]
  dsimp only
  cases mysqlFillData res <;> rfl

/-! ## The copy -/

theorem fillRow_eq (fieldsNum : Int) (fields : List CString) (row : List (Option (List UInt8))) :
    fillRow fieldsNum fields row =
      ⟨none, none⟩ :: ((fields.zip row).take fieldsNum.toNat).map fun (name, value) => cell name value := by
  have hfold : ∀ (columns : List (CString × Option (List UInt8))) (list : List FieldValue),
      columns.foldl (fun list (name, value) => list ++ [cell name value]) list =
        list ++ columns.map fun (name, value) => cell name value := by
    intro columns
    induction columns with
    | nil => exact fun list => (List.append_nil list).symm
    | cons column columns ih =>
      intro list
      rw [List.foldl_cons, ih, List.append_assoc]
      rfl
  exact hfold _ _

theorem walk_cons {n : Nat} (head : FieldValue) {cells : List FieldValue} (h : n ≤ cells.length) :
    walk n (head :: cells) = .ok (cells.take n) := by
  induction n generalizing head cells with
  | zero => rfl
  | succ n ih =>
    cases cells with
    | nil => exact absurd h (by simp)
    | cons current cells =>
      rw [walk, ih current (Nat.le_of_succ_le_succ h)]
      rfl

theorem walk_short {n : Nat} (head : FieldValue) {cells : List FieldValue} (h : cells.length < n) :
    walk n (head :: cells) = .error .null := by
  induction n generalizing head cells with
  | zero => exact absurd h (Nat.not_lt_zero _)
  | succ n ih =>
    cases cells with
    | nil => rfl
    | cons current cells =>
      rw [walk, ih current (Nat.lt_of_succ_lt_succ h)]
      rfl

/-- As many rows fit as the array has places. -/
theorem storeRows_eq {rowsNum : Int} (heads data : List (List FieldValue)) (h : data.length + heads.length ≤ rowsNum) :
    heads.foldlM (storeRow rowsNum) data = .ok (data ++ heads) := by
  induction heads generalizing data with
  | nil => exact congrArg Except.ok (List.append_nil data).symm
  | cons head heads ih =>
    rw [List.length_cons] at h
    have hstore : storeRow rowsNum data head = .ok (data ++ [head]) := if_pos (by omega)
    rw [List.foldlM_cons, hstore]
    refine (ih (data ++ [head]) ?_).trans (by rw [List.append_assoc]; rfl)
    rw [List.length_append, List.length_singleton]
    omega

theorem storeRows_outOfBounds {rowsNum : Int} {heads : List (List FieldValue)} (hne : heads ≠ [])
    (data : List (List FieldValue)) (h : rowsNum < data.length + heads.length) :
    heads.foldlM (storeRow rowsNum) data = .error .outOfBounds := by
  induction heads generalizing data with
  | nil => exact absurd rfl hne
  | cons head heads ih =>
    rw [List.length_cons] at h
    rw [List.foldlM_cons, storeRow]
    split
    · refine ih ?_ (data ++ [head]) ?_
      · rintro rfl
        rw [List.length_nil] at h
        omega
      · rw [List.length_append, List.length_singleton]
        omega
    · rfl

variable {res : MysqlRes}

/-- The elements of a row. -/
def rowCells (res : MysqlRes) (row : List (Option (List UInt8))) : List FieldValue :=
  ((res.fields.zip row).take (Int32.ofNat res.fields.length).toInt.toNat).map fun (name, value) => cell name value

/-- Up to `2^31` rows can be copied. -/
theorem mysqlFillData_eq (h : res.rows.length < 2 ^ 31) : mysqlFillData res =
    .ok ⟨res.rows.map fun row => ⟨none, none⟩ :: rowCells res row, UInt32.ofNat res.rows.length,
      UInt16.ofNat res.fields.length⟩ := by
  have hrows : (Int32.ofNat res.rows.length).toInt = res.rows.length := Int32.toInt_ofNat_of_lt h
  have hfill : fillRow (Int32.ofNat res.fields.length).toInt res.fields =
      fun row => ⟨none, none⟩ :: rowCells res row := funext fun row => fillRow_eq _ _ row
  unfold mysqlFillData
  simp only [hrows, hfill]
  rw [storeRows_eq _ _ (by rw [List.length_map, List.length_nil]; omega)]
  rfl

theorem mysqlFillData_outOfBounds (h : 2 ^ 31 ≤ res.rows.length) : mysqlFillData res = .error .outOfBounds := by
  have hrows : (Int32.ofNat res.rows.length).toInt < 2 ^ 31 := Int32.toInt_lt _
  unfold mysqlFillData
  simp only []
  rw [storeRows_outOfBounds (List.ne_nil_of_length_pos (by rw [List.length_map]; omega)) _
    (by rw [List.length_map, List.length_nil]; omega)]
  rfl

theorem length_zip_fields {row : List (Option (List UInt8))} (hrow : row ∈ res.rows) :
    (res.fields.zip row).length = res.fields.length := by
  rw [List.length_zip, res.width row hrow, Nat.min_self]

/-- The elements of a row are its columns, if there are no more than an `int` counts. -/
theorem rowCells_eq (h : res.fields.length < 2 ^ 31) {row : List (Option (List UInt8))} (hrow : row ∈ res.rows) :
    rowCells res row = (res.fields.zip row).map fun (name, value) => cell name value := by
  have hfields : (Int32.ofNat res.fields.length).toInt = res.fields.length := Int32.toInt_ofNat_of_lt h
  rw [rowCells, hfields, Int.toNat_natCast, ← length_zip_fields hrow, List.take_length]

/-! ## A copy that says what the result set says -/

/-- The name and the value that an element stands for. -/
def FieldValue.contents (c : FieldValue) : Option CString × Option (List UInt8) :=
  (c.fieldName, c.fieldValue.map CString.bytes)

/-- The counts are those of the result set, and its rows are what a reader finds. -/
def Copied (res : MysqlRes) (data : ResultData) : Prop :=
  data.rows.toNat = res.rows.length ∧ data.columns.toNat = res.fields.length ∧
    ∃ rows, cells data = .ok rows ∧
      rows.map (fun row => row.map FieldValue.contents) =
        res.rows.map fun row => (res.fields.zip row).map fun (name, value) => (some name, value)

/-- A value that is neither empty nor has a NUL in it. -/
def Plain (value : Option (List UInt8)) : Prop := ∀ bytes ∈ value, bytes ≠ [] ∧ 0 ∉ bytes

/-- A value is copied faithfully exactly when it is plain. -/
theorem contents_cell_iff {name : CString} {value : Option (List UInt8)} :
    FieldValue.contents (cell name value) = (some name, value) ↔ Plain value := by
  cases value with
  | none => exact iff_of_true rfl nofun
  | some bytes =>
    have hplain : Plain (some bytes) ↔ bytes ≠ [] ∧ 0 ∉ bytes := by simp [Plain]
    rw [hplain]
    cases bytes with
    | nil => exact iff_of_false nofun fun h => h.1 rfl
    | cons b rest =>
      constructor
      · intro h
        have hbytes : cstr (b :: rest) = b :: rest := Option.some.inj (congrArg Prod.snd h)
        exact ⟨List.cons_ne_nil _ _, hbytes ▸ CString.nul_notMem_cstr (b :: rest)⟩
      · intro h
        have hbytes : cstr (b :: rest) = b :: rest := cstr_eq_self h.2
        exact congrArg (fun bytes => (some name, some bytes)) hbytes

theorem contents_row_iff {row : List (Option (List UInt8))} (hrow : row ∈ res.rows) :
    ((res.fields.zip row).map fun (name, value) => FieldValue.contents (cell name value)) =
      ((res.fields.zip row).map fun (name, value) => (some name, value)) ↔ ∀ value ∈ row, Plain value := by
  rw [List.map_inj_left]
  constructor
  · intro h value hvalue
    have hsnd : (res.fields.zip row).map Prod.snd = row := List.map_snd_zip (Nat.le_of_eq (res.width row hrow))
    rw [← hsnd] at hvalue
    obtain ⟨⟨name, value⟩, hmem, rfl⟩ := List.mem_map.mp hvalue
    exact contents_cell_iff.mp (h _ hmem)
  · intro h column hcolumn
    exact contents_cell_iff.mpr (h _ (List.of_mem_zip hcolumn).2)

theorem counted_eq (h : res.rows.length < 2 ^ 31) (heads : List (List FieldValue))
    (hlen : heads.length = res.rows.length) (columns : UInt16) :
    counted ⟨heads, UInt32.ofNat res.rows.length, columns⟩ = .ok heads := by
  have hrows : (UInt32.ofNat res.rows.length).toNat = heads.length :=
    (UInt32.toNat_ofNat_of_lt (Nat.lt_trans h (by decide))).trans hlen.symm
  rw [counted, hrows, if_pos (Nat.le_refl _), List.take_length]

/-- A reader of a copy finds the elements of every row. -/
theorem cells_eq (hrows : res.rows.length < 2 ^ 31) (h : res.fields.length < 2 ^ 16) :
    cells ⟨res.rows.map fun row => ⟨none, none⟩ :: rowCells res row, UInt32.ofNat res.rows.length,
      UInt16.ofNat res.fields.length⟩ = .ok (res.rows.map (rowCells res)) := by
  have hcolumns : (UInt16.ofNat res.fields.length).toNat = res.fields.length := UInt16.toNat_ofNat_of_lt h
  have hwalk : ∀ row ∈ res.rows, walk (UInt16.ofNat res.fields.length).toNat (⟨none, none⟩ :: rowCells res row) =
      .ok (rowCells res row) := by
    intro row hrow
    have hlen : (rowCells res row).length = res.fields.length := by
      rw [rowCells_eq (by omega) hrow, List.length_map, length_zip_fields hrow]
    rw [hcolumns, walk_cons _ (Nat.le_of_eq hlen.symm), ← hlen, List.take_length]
  rw [cells, counted_eq hrows _ (List.length_map _)]
  refine (Except.mapM_ok (g := List.tail) ?_).trans (by rw [List.map_map]; rfl)
  intro head hhead
  obtain ⟨row, hrow, rfl⟩ := List.mem_map.mp hhead
  exact hwalk row hrow

/-- A result set is copied faithfully exactly when its counts fit the types of the copy and its values are plain. -/
theorem copied_iff : (∃ data, mysqlFillData res = .ok data ∧ Copied res data) ↔
    res.rows.length < 2 ^ 31 ∧ res.fields.length < 2 ^ 16 ∧ ∀ row ∈ res.rows, ∀ value ∈ row, Plain value := by
  constructor
  · rintro ⟨data, hdata, hrows, hcolumns, rows, hcells, heq⟩
    have hlen : res.rows.length < 2 ^ 31 := by
      by_contra hlong
      rw [mysqlFillData_outOfBounds (Nat.le_of_not_lt hlong)] at hdata
      cases hdata
    rw [mysqlFillData_eq hlen] at hdata
    cases hdata
    have hfields : res.fields.length < 2 ^ 16 := hcolumns ▸ (UInt16.ofNat res.fields.length).toNat_lt
    rw [cells_eq hlen hfields] at hcells
    cases hcells
    refine ⟨hlen, hfields, fun row hrow => (contents_row_iff hrow).mp ?_⟩
    rw [List.map_map, List.map_inj_left] at heq
    have := heq row hrow
    rw [Function.comp_apply, rowCells_eq (by omega) hrow, List.map_map] at this
    exact this
  · rintro ⟨hlen, hfields, hplain⟩
    have hrows : (UInt32.ofNat res.rows.length).toNat = res.rows.length :=
      UInt32.toNat_ofNat_of_lt (Nat.lt_trans hlen (by decide))
    refine ⟨_, mysqlFillData_eq hlen, hrows, UInt16.toNat_ofNat_of_lt hfields, _, cells_eq hlen hfields, ?_⟩
    rw [List.map_map]
    apply List.map_congr_left
    intro row hrow
    rw [Function.comp_apply, rowCells_eq (by omega) hrow, List.map_map]
    exact (contents_row_iff hrow).mpr (hplain row hrow)

/-- One column and one row. -/
def oneValue (value : Option (List UInt8)) : MysqlRes := ⟨[⟨ascii "city", by decide⟩], [[value]], by simp⟩

/-- The copies of NULL and of an empty string are the same, and a NUL ends a value. -/
theorem not_copied_empty :
    mysqlFillData (oneValue (some [])) = mysqlFillData (oneValue none) ∧
      mysqlFillData (oneValue (some [97, 0, 98])) = mysqlFillData (oneValue (some [97])) ∧
      ¬ ∀ res, ∃ data, mysqlFillData res = .ok data ∧ Copied res data := by
  refine ⟨by decide, by decide, fun h => ?_⟩
  obtain ⟨data, hdata, -, -, rows, hcells, heq⟩ := h (oneValue (some []))
  have hcopy : mysqlFillData (oneValue (some [])) =
      .ok ⟨[[⟨none, none⟩, ⟨some ⟨ascii "city", by decide⟩, none⟩]], 1, 1⟩ := by decide
  rw [hcopy] at hdata
  cases hdata
  cases hcells
  exact absurd heq (by decide)

end Mysql

end PostfixEdm
