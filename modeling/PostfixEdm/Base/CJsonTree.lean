import PostfixEdm.Base.CJson

/-!
# `cJSON` items of every type, and their text

* `CDouble` : what `cJSON.c` does with a `double`; `CDouble.text` : `print_number`;
* `JsonItem`, `JsonItems`, `JsonMembers` : an item, and the lists of children of an array and of an object;
* `JsonItem.print` : `print_value` with and without layout;
* `intDouble` : the doubles that are integers.
-/

namespace PostfixEdm

/-- The type `double`, as far as `print_number` and `parse_number` use it: `n*10.0 + (c - '0')`, `sign*n*pow(10.0, e)`
which are exact for integers of 53 bits, the test for an `int` with `valueint`, `floor(d)` where it is within
`DBL_EPSILON` of `d`, and the text of `%e` or `%f`. -/
structure CDouble (δ : Type) where
  ofInt : Int → δ
  next : δ → UInt8 → δ
  scale : Bool → δ → Int → δ
  isInt : δ → Bool
  valueint : δ → Int
  whole : δ → Option Int
  short : δ → List UInt8
  next_ofInt : ∀ n d : Nat, d < 10 → n * 10 + d ≤ 2 ^ 53 → next (ofInt n) (48 + d).toUInt8 = ofInt (n * 10 + d : Nat)
  scale_ofNat : ∀ n : Nat, n ≤ 2 ^ 53 → scale false (ofInt n) 0 = ofInt n
  scale_neg : ∀ n : Nat, 0 < n → n ≤ 2 ^ 53 → scale true (ofInt n) 0 = ofInt (-n)
  isInt_ofInt : ∀ n : Int, toDouble n = n → isInt (ofInt n) = decide (-2 ^ 31 ≤ n ∧ n < 2 ^ 31)
  valueint_range : ∀ d, isInt d = true → -2 ^ 31 ≤ valueint d ∧ valueint d < 2 ^ 31
  valueint_ofInt : ∀ n : Int, -2 ^ 31 ≤ n → n < 2 ^ 31 → valueint (ofInt n) = n
  whole_ofInt : ∀ n : Int, toDouble n = n → n.natAbs < 2 ^ 1024 → whole (ofInt n) = some n
  length_short : ∀ d, isInt d = false → whole d = none → (short d).length < 64

namespace CDouble

variable {δ : Type} (dbl : CDouble δ)

/-- `print_number`: `%d`, `%.0f`, or `%e` and `%f`. -/
def text (valuedouble : δ) : List UInt8 :=
  if dbl.isInt valuedouble then printNumber (dbl.valueint valuedouble)
  else
    match dbl.whole valuedouble with
    | some n => printNumber n
    | none => dbl.short valuedouble

theorem text_ofInt {n : Int} (hn : toDouble n = n) (hfinite : n.natAbs < 2 ^ 1024) :
    dbl.text (dbl.ofInt n) = printNumber n := by
  unfold text
  rw [dbl.isInt_ofInt n hn, dbl.whole_ofInt n hn hfinite]
  by_cases hint : -2 ^ 31 ≤ n ∧ n < 2 ^ 31
  · rw [decide_eq_true hint, if_pos rfl, dbl.valueint_ofInt n hint.1 hint.2]
  · rw [decide_eq_false hint, if_neg Bool.false_ne_true]

end CDouble

/-! ## Items -/

mutual
inductive JsonItem (δ : Type)
  | null
  | false
  | true
  | number (valuedouble : δ)
  | string (valuestring : CString)
  | array (child : JsonItems δ)
  | object (child : JsonMembers δ)

inductive JsonItems (δ : Type)
  | nil
  | cons (item : JsonItem δ) (next : JsonItems δ)

inductive JsonMembers (δ : Type)
  | nil
  | cons (name : CString) (item : JsonItem δ) (next : JsonMembers δ)
end

variable {δ : Type}

/-! ## Text -/

/-- Layout, when it is asked for. -/
def layout (fmt : Bool) (text : List UInt8) : List UInt8 := if fmt then text else []

mutual
/-- `print_value` -/
def JsonItem.print (dbl : CDouble δ) (depth : Nat) (fmt : Bool) : JsonItem δ → List UInt8
  | .null => ascii "null"
  | .false => ascii "false"
  | .true => ascii "true"
  | .number valuedouble => dbl.text valuedouble
  | .string valuestring => printStringPtr valuestring
  | .array child => [91] ++ child.print dbl (depth + 1) fmt ++ [93]
  | .object child =>
    [123] ++ layout fmt [10] ++ child.print dbl (depth + 1) fmt ++ layout fmt (tabs depth) ++ [125]

/-- The entries of `print_array`. -/
def JsonItems.print (dbl : CDouble δ) (depth : Nat) (fmt : Bool) : JsonItems δ → List UInt8
  | .nil => []
  | .cons item .nil => item.print dbl depth fmt
  | .cons item next => item.print dbl depth fmt ++ [44] ++ layout fmt [32] ++ next.print dbl depth fmt

/-- The lines of `print_object`. -/
def JsonMembers.print (dbl : CDouble δ) (depth : Nat) (fmt : Bool) : JsonMembers δ → List UInt8
  | .nil => []
  | .cons name item .nil =>
    layout fmt (tabs depth) ++ printStringPtr name ++ [58] ++ layout fmt [9] ++ item.print dbl depth fmt ++
      layout fmt [10]
  | .cons name item next =>
    layout fmt (tabs depth) ++ printStringPtr name ++ [58] ++ layout fmt [9] ++ item.print dbl depth fmt ++ [44] ++
      layout fmt [10] ++ next.print dbl depth fmt
end

/-- `cJSON_Print` -/
def cJsonPrint (dbl : CDouble δ) (item : JsonItem δ) : List UInt8 := item.print dbl 0 true

/-- `cJSON_PrintUnformatted` -/
def cJsonPrintUnformatted (dbl : CDouble δ) (item : JsonItem δ) : List UInt8 := item.print dbl 0 false

mutual
/-- All numbers of an item satisfy `p`. -/
def JsonItem.All (p : δ → Prop) : JsonItem δ → Prop
  | .number valuedouble => p valuedouble
  | .array child => child.All p
  | .object child => child.All p
  | _ => True

def JsonItems.All (p : δ → Prop) : JsonItems δ → Prop
  | .nil => True
  | .cons item next => item.All p ∧ next.All p

def JsonMembers.All (p : δ → Prop) : JsonMembers δ → Prop
  | .nil => True
  | .cons _ item next => item.All p ∧ next.All p
end

/-! ## Doubles without a fraction -/

theorem toDouble_ofNat_le {n : Nat} (h : n ≤ 2 ^ 53) : toDouble n = n := by
  rcases Nat.lt_or_eq_of_le h with hlt | rfl
  · exact toDouble_eq_self (by omega)
  · decide +kernel

theorem toDouble_neg (n : Int) : toDouble (-n) = -toDouble n := by
  simp [toDouble]

/-- The doubles that are integers. -/
def intDouble : CDouble Int where
  ofInt := toDouble
  next n b := toDouble (n * 10 + (b.toNat - 48 : Nat))
  scale negative n e := if negative then -toDouble (n * 10 ^ e.toNat) else toDouble (n * 10 ^ e.toNat)
  isInt n := decide (-2 ^ 31 ≤ n ∧ n < 2 ^ 31)
  valueint n := n
  whole := some
  short _ := []
  next_ofInt n d hd hle := by
    rw [toDouble_ofNat_le (by omega), toNat_digit hd, Nat.add_sub_cancel_left]
    rfl
  scale_ofNat n hle := by
    simp [toDouble_ofNat_le hle]
  scale_neg n hpos hle := by
    simp [toDouble_ofNat_le hle, toDouble_neg]
  isInt_ofInt n hn := by rw [hn]
  valueint_range n h := of_decide_eq_true h
  valueint_ofInt n hlo hhi := toDouble_eq_self (by omega)
  whole_ofInt n hn _ := congrArg some hn
  length_short _ _ h := by cases h

end PostfixEdm
