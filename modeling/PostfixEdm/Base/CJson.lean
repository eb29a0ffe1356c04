import PostfixEdm.Base.Text

/-!
# `cJSON_Print`

* `CJson`, `CJsonItems` : the items that the program makes, and the lists of an object;
* `toDouble` : a number as a `double` holds it;
* `CJson.print`, `CJsonItems.print` : `print_value` and `print_object`, with their layout;
* `CJson.nul_notMem_print`, `CJson.print_object` : the text is a C string, and that of an object ends with its brace.
-/

namespace PostfixEdm

mutual
/-- An item; a number is a `double` that is an integer. -/
inductive CJson
  | number (valuedouble : Int)
  | string (valuestring : CString)
  | object (child : CJsonItems)

inductive CJsonItems
  | nil
  | cons (name : CString) (item : CJson) (next : CJsonItems)
end

/-! ## Numbers and strings -/

/-- The nearest number of 53 significant bits, of two the even one. -/
def roundDouble (n : Nat) : Nat :=
  if n < 2 ^ 53 then n
  else
    let ulp := 2 ^ (n.log2 - 52)
    let up := ulp < 2 * (n % ulp) ∨ ulp = 2 * (n % ulp) ∧ n / ulp % 2 = 1
    (if up then n / ulp + 1 else n / ulp) * ulp

def toDouble (n : Int) : Int := n.sign * roundDouble n.natAbs

/-- `print_number`: `%d` and `%.0f` write an integer alike. -/
def printNumber (valuedouble : Int) : List UInt8 :=
  (if valuedouble < 0 then [45] else []) ++ decimal valuedouble.natAbs

def hexDigit (n : UInt8) : UInt8 := if n < 10 then 48 + n else 87 + n

/-- A byte of a string. -/
def escape (b : UInt8) : List UInt8 :=
  if 31 < b ∧ b ≠ 34 ∧ b ≠ 92 then [b]
  else if b = 92 then [92, 92]
  else if b = 34 then [92, 34]
  else if b = 8 then [92, 98]
  else if b = 12 then [92, 102]
  else if b = 10 then [92, 110]
  else if b = 13 then [92, 114]
  else if b = 9 then [92, 116]
  else [92, 117, 48, 48, hexDigit (b / 16), hexDigit (b % 16)]

/-- `print_string_ptr` -/
def printStringPtr (str : CString) : List UInt8 := [34] ++ str.bytes.flatMap escape ++ [34]

def tabs (depth : Nat) : List UInt8 := List.replicate depth 9

mutual
/-- `print_value` -/
def CJson.print (depth : Nat) : CJson → List UInt8
  | .number valuedouble => printNumber valuedouble
  | .string valuestring => printStringPtr valuestring
  | .object child => ascii "\x7b\n" ++ child.print (depth + 1) ++ tabs depth ++ ascii "\x7d"

/-- The lines of `print_object`. -/
def CJsonItems.print (depth : Nat) : CJsonItems → List UInt8
  | .nil => []
  | .cons name item .nil => tabs depth ++ printStringPtr name ++ ascii ":\t" ++ item.print depth ++ ascii "\n"
  | .cons name item next =>
    tabs depth ++ printStringPtr name ++ ascii ":\t" ++ item.print depth ++ ascii ",\n" ++ next.print depth
end

/-! ## The text -/

theorem nul_notMem_printNumber (n : Int) : 0 ∉ printNumber n := by
  rw [printNumber, List.mem_append, not_or]
  refine ⟨?_, nul_notMem_decimal _⟩
  split <;> decide

theorem hexDigit_ne_zero {n : UInt8} (h : n.toNat < 16) : hexDigit n ≠ 0 := by
  unfold hexDigit
  intro heq
  have hnat := congrArg UInt8.toNat heq
  split at hnat
  · simp only [UInt8.toNat_add, UInt8.reduceToNat] at hnat
    omega
  · simp only [UInt8.toNat_add, UInt8.reduceToNat] at hnat
    omega

theorem nul_notMem_escape {b : UInt8} (h : b ≠ 0) : 0 ∉ escape b := by
  have hhigh : hexDigit (b / 16) ≠ 0 := hexDigit_ne_zero (by
    have := b.toNat_lt
    simp only [UInt8.toNat_div, UInt8.reduceToNat]
    omega)
  have hlow : hexDigit (b % 16) ≠ 0 := hexDigit_ne_zero (by
    simp only [UInt8.toNat_mod, UInt8.reduceToNat]
    omega)
  unfold escape
  split_ifs
  · exact fun hmem => h (List.mem_singleton.mp hmem).symm
  all_goals first | decide | simp [hhigh.symm, hlow.symm]

theorem nul_notMem_printStringPtr (str : CString) : 0 ∉ printStringPtr str := by
  simp only [printStringPtr, List.mem_append, List.mem_flatMap, List.mem_singleton, not_or, not_exists, not_and]
  refine ⟨⟨by decide, fun b hb => nul_notMem_escape ?_⟩, by decide⟩
  rintro rfl
  exact str.nul hb

theorem nul_notMem_tabs (depth : Nat) : 0 ∉ tabs depth := fun h => absurd (List.eq_of_mem_replicate h) (by decide)

mutual
theorem CJson.nul_notMem_print (depth : Nat) (item : CJson) : 0 ∉ item.print depth := by
  cases item with
  | number valuedouble => exact nul_notMem_printNumber valuedouble
  | string valuestring => exact nul_notMem_printStringPtr valuestring
  | object child =>
    simp only [CJson.print, List.mem_append, not_or]
    exact ⟨⟨⟨by decide, CJsonItems.nul_notMem_print (depth + 1) child⟩, nul_notMem_tabs depth⟩, by decide⟩

theorem CJsonItems.nul_notMem_print (depth : Nat) (items : CJsonItems) : 0 ∉ items.print depth := by
  cases items with
  | nil => exact List.not_mem_nil
  | cons name item next =>
    have hitem := CJson.nul_notMem_print depth item
    cases next with
    | nil =>
      simp only [CJsonItems.print, List.mem_append, not_or]
      exact ⟨⟨⟨⟨nul_notMem_tabs depth, nul_notMem_printStringPtr name⟩, by decide⟩, hitem⟩, by decide⟩
    | cons name' item' next' =>
      have hnext := CJsonItems.nul_notMem_print depth (.cons name' item' next')
      simp only [CJsonItems.print, List.mem_append, not_or] at hnext ⊢
      exact ⟨⟨⟨⟨⟨nul_notMem_tabs depth, nul_notMem_printStringPtr name⟩, by decide⟩, hitem⟩, by decide⟩, hnext⟩
end

/-- The text of an object ends with its brace. -/
theorem CJson.print_object (depth : Nat) (child : CJsonItems) :
    ∃ text, (CJson.object child).print depth = text ++ [125] := ⟨_, rfl⟩

/-! ## Numbers as doubles -/

theorem toDouble_natCast (n : Nat) : toDouble n = roundDouble n := by
  cases n with
  | zero => rfl
  | succ n => exact Int.one_mul _

theorem printNumber_toDouble (n : Nat) : printNumber (toDouble n) = decimal (roundDouble n) := by
  rw [toDouble_natCast, printNumber, if_neg (Int.not_lt.mpr (Int.natCast_nonneg _))]
  rfl

/-- Rounding adds less than the unit in the last place. -/
theorem roundDouble_le (n : Nat) : roundDouble n ≤ n + 2 ^ (n.log2 - 52) := by
  unfold roundDouble
  split
  · exact Nat.le_add_right _ _
  · have hdown : n / 2 ^ (n.log2 - 52) * 2 ^ (n.log2 - 52) ≤ n := Nat.div_mul_le_self ..
    dsimp only
    split
    · rw [Nat.succ_mul]
      exact Nat.add_le_add_right hdown _
    · exact Nat.le_add_right_of_le hdown

theorem roundDouble_lt {n : Nat} (h : n < 2 ^ 64) : roundDouble n < 10 ^ 20 := by
  have hlog : n.log2 - 52 ≤ 11 := by
    by_cases hn : n = 0
    · rw [hn]
      decide
    · have := (Nat.log2_lt hn).mpr h
      omega
  have hulp : 2 ^ (n.log2 - 52) ≤ 2 ^ 11 := Nat.pow_le_pow_right (by decide) hlog
  have := roundDouble_le n
  omega

/-- A number of up to 53 bits is held as it is. -/
theorem toDouble_eq_self {n : Int} (h : n.natAbs < 2 ^ 53) : toDouble n = n := by
  rw [toDouble, roundDouble, if_pos h]
  exact Int.sign_mul_natAbs n

end PostfixEdm
