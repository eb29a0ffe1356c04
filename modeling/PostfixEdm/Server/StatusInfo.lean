import PostfixEdm.Pdu.RoundTrip
import PostfixEdm.Base.CJson

/-!
# The job state and its JSON text

* `Job` : the state that a server and its clients must agree on;
* `ServerStatusInfo.serialize` : `server_status_info::serialize`, the text of `cJSON_Print`;
* `ServerStatusInfo.unserialize` : `server_status_info::unserialize` over a JSON reader, which is a
  parameter. `JsonReader.Reads` says of it that it reads back what `cJSON_Print` wrote;
* `digitReader` : a reader that collects the decimal numbers of a text.
-/

namespace PostfixEdm

/-- `status`, `delay` and `multi`. -/
structure Job where
  status : UInt16
  delay : UInt16
  multi : UInt16
  deriving DecidableEq, Repr

structure ServerStatusInfo where
  job : Job
  totalNum : UInt64
  onlineClientNum : UInt16
  deriving DecidableEq, Repr

namespace ServerStatusInfo

/-- `server_status_info()` -/
def default : ServerStatusInfo := ⟨⟨cidCommandStop, 0, 1⟩, 0, 0⟩

/-- The object as `cJSON_Print` lays it out, one member a line. A `double` holds 16 bits as they are. -/
def serialize (info : ServerStatusInfo) : List UInt8 :=
  ascii "\x7b\n\t\"status\":\t" ++ decimal info.job.status.toNat ++
    ascii ",\n\t\"delay\":\t" ++ decimal info.job.delay.toNat ++
    ascii ",\n\t\"multi\":\t" ++ decimal info.job.multi.toNat ++
    ascii ",\n\t\"totalNum\":\t" ++ printNumber (toDouble info.totalNum.toNat) ++
    ascii ",\n\t\"online_client_num\":\t" ++ decimal info.onlineClientNum.toNat ++ ascii "\n\x7d"

end ServerStatusInfo

/-- `Json::Reader::parse` and the conversions of `unserialize`; `none` when the text does not parse. -/
abbrev JsonReader := List UInt8 → Option ServerStatusInfo

/-- `unserialize` of a fresh object. It returns 0 whether or not the text parses, so an object that does
not parse keeps its defaults. -/
def ServerStatusInfo.unserialize (parse : JsonReader) (text : List UInt8) : ServerStatusInfo :=
  (parse (cstr text)).getD ServerStatusInfo.default

/-- The reader understands the texts that `serialize` writes. -/
def JsonReader.Reads (parse : JsonReader) : Prop :=
  ∀ info : ServerStatusInfo, ∃ info', parse info.serialize = some info' ∧ info'.job = info.job

/-! ## The text -/

namespace ServerStatusInfo

/-- The text is a C string. -/
theorem nul_notMem_serialize (info : ServerStatusInfo) : 0 ∉ info.serialize := by
  simp only [serialize, List.mem_append, not_or]
  refine ⟨⟨⟨⟨⟨⟨⟨⟨⟨⟨?_, ?_⟩, ?_⟩, ?_⟩, ?_⟩, ?_⟩, ?_⟩, ?_⟩, ?_⟩, ?_⟩, ?_⟩
  all_goals first | exact nul_notMem_decimal _ | exact nul_notMem_printNumber _ | decide

theorem length_serialize_le (info : ServerStatusInfo) : info.serialize.length ≤ 200 := by
  have h16 : ∀ x : UInt16, (decimal x.toNat).length ≤ 5 := fun x =>
    length_decimal_le (by decide) (Nat.lt_trans x.toNat_lt (by decide))
  have h64 : (printNumber (toDouble info.totalNum.toNat)).length ≤ 20 := by
    rw [printNumber_toDouble]
    exact length_decimal_le (by decide) (roundDouble_lt info.totalNum.toNat_lt)
  have h1 := h16 info.job.status
  have h2 := h16 info.job.delay
  have h3 := h16 info.job.multi
  have h4 := h16 info.onlineClientNum
  have hk : (ascii "\x7b\n\t\"status\":\t").length = 13 ∧ (ascii ",\n\t\"delay\":\t").length = 12 ∧
      (ascii ",\n\t\"multi\":\t").length = 12 ∧ (ascii ",\n\t\"totalNum\":\t").length = 15 ∧
      (ascii ",\n\t\"online_client_num\":\t").length = 24 ∧ (ascii "\n\x7d").length = 2 := by decide
  simp only [serialize, List.length_append]
  omega

end ServerStatusInfo

/-- A reader that understands the text gets the job back. -/
theorem unserialize_serialize {parse : JsonReader} (h : parse.Reads) (info : ServerStatusInfo) :
    (ServerStatusInfo.unserialize parse info.serialize).job = info.job := by
  obtain ⟨info', hparse, hjob⟩ := h info
  rw [ServerStatusInfo.unserialize, cstr_eq_self info.nul_notMem_serialize, hparse]
  exact hjob

/-! ## A reader -/

/-- The decimal numbers of a text; `acc` is the number being read. -/
def numbersFrom : Option Nat → List UInt8 → List Nat
  | acc, [] => acc.toList
  | acc, b :: text =>
    if IsDigit b then numbersFrom (some (acc.getD 0 * 10 + (b.toNat - 48))) text
    else acc.toList ++ numbersFrom none text

def digitReader : JsonReader := fun text =>
  match numbersFrom none text with
  | [status, delay, multi, totalNum, onlineClientNum] =>
    some ⟨⟨UInt16.ofNat status, UInt16.ofNat delay, UInt16.ofNat multi⟩, UInt64.ofNat totalNum,
      UInt16.ofNat onlineClientNum⟩
  | _ => none

theorem numbersFrom_text {text : List UInt8} (h : text.all (fun b => ¬ IsDigit b) = true) (rest : List UInt8) :
    numbersFrom none (text ++ rest) = numbersFrom none rest := by
  induction text with
  | nil => rfl
  | cons b text ih =>
    rw [List.all_cons, Bool.and_eq_true, decide_eq_true_iff] at h
    rw [List.cons_append, numbersFrom, if_neg h.1, ih h.2]
    rfl

theorem numbersFrom_digits {ds : List Nat} (h : ∀ d ∈ ds, d < 10) (a : Nat) (rest : List UInt8) :
    numbersFrom (some a) (ds.map (fun d => (48 + d).toUInt8) ++ rest) =
      numbersFrom (some (ds.foldl (fun a d => a * 10 + d) a)) rest := by
  induction ds generalizing a with
  | nil => rfl
  | cons d ds ih =>
    have hd := h d List.mem_cons_self
    have hdigit : IsDigit (48 + d).toUInt8 := by
      unfold IsDigit
      rw [toNat_digit hd]
      omega
    rw [List.map_cons, List.cons_append, numbersFrom, if_pos hdigit, toNat_digit hd, Nat.add_sub_cancel_left,
      ih fun e he => h e (List.mem_cons_of_mem _ he)]
    rfl

/-- A number followed by something else is read as itself. -/
theorem numbersFrom_decimal (n : Nat) {b : UInt8} (hb : ¬ IsDigit b) (rest : List UInt8) :
    numbersFrom none (decimal n ++ b :: rest) = n :: numbersFrom none (b :: rest) := by
  obtain ⟨ds, hne, hlt, heq, hval⟩ := decimal_digits n
  have hstart : numbersFrom none (decimal n ++ b :: rest) = numbersFrom (some 0) (decimal n ++ b :: rest) := by
    obtain ⟨d, ds, rfl⟩ := List.exists_cons_of_ne_nil hne
    have hdigit : IsDigit (48 + d).toUInt8 := by
      unfold IsDigit
      rw [toNat_digit (hlt d List.mem_cons_self)]
      have := hlt d List.mem_cons_self
      omega
    rw [heq, List.map_cons, List.cons_append, numbersFrom, numbersFrom, if_pos hdigit, if_pos hdigit]
    rfl
  rw [hstart, heq, numbersFrom_digits hlt, hval, numbersFrom, if_neg hb, numbersFrom, if_neg hb]
  rfl

/-- Collecting the numbers is enough to read what `serialize` writes, the total as a `double` holds it. -/
theorem digitReader_serialize (info : ServerStatusInfo) : digitReader info.serialize =
    some { info with totalNum := UInt64.ofNat (roundDouble info.totalNum.toNat) } := by
  have hnum : numbersFrom none info.serialize =
      [info.job.status.toNat, info.job.delay.toNat, info.job.multi.toNat, roundDouble info.totalNum.toNat,
        info.onlineClientNum.toNat] := by
    simp only [ServerStatusInfo.serialize, printNumber_toDouble, List.append_assoc]
    rw [numbersFrom_text (by decide)]
    change numbersFrom none (decimal _ ++ 44 :: (ascii "\n\t\"delay\":\t" ++ _)) = _
    rw [numbersFrom_decimal _ (by decide), ← List.cons_append, numbersFrom_text (by decide)]
    change _ :: numbersFrom none (decimal _ ++ 44 :: (ascii "\n\t\"multi\":\t" ++ _)) = _
    rw [numbersFrom_decimal _ (by decide), ← List.cons_append, numbersFrom_text (by decide)]
    change _ :: _ :: numbersFrom none (decimal _ ++ 44 :: (ascii "\n\t\"totalNum\":\t" ++ _)) = _
    rw [numbersFrom_decimal _ (by decide), ← List.cons_append, numbersFrom_text (by decide)]
    change _ :: _ :: _ :: numbersFrom none (decimal _ ++ 44 :: (ascii "\n\t\"online_client_num\":\t" ++ _)) = _
    rw [numbersFrom_decimal _ (by decide), ← List.cons_append, numbersFrom_text (by decide)]
    change _ :: _ :: _ :: _ :: numbersFrom none (decimal _ ++ 10 :: ascii "\x7d") = _
    rw [numbersFrom_decimal _ (by decide)]
    rfl
  unfold digitReader
  rw [hnum]
  simp only [UInt16.ofNat_toNat]

theorem digitReader_reads : digitReader.Reads := fun info => ⟨_, digitReader_serialize info, rfl⟩

end PostfixEdm
