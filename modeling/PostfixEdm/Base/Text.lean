import PostfixEdm.Base.ByteStream
import Mathlib.Data.List.DropRight
import Mathlib.Data.Nat.Digits.Lemmas

/-!
# C strings and decimal numbers

* `ascii`, `decimal` : the bytes of a text and of a number;
* `CString` : a C string, whose NUL is not part of it; `CString.ofBytes` : the one that a block of memory begins with;
* `snprintf`, `strncasecmp`, `strtrim`, `atoi` : as the C library and `mysql.c` have them, in the "C" locale;
* `toInt_atoi_decimal` : `atoi` reads a decimal text back.
-/

namespace PostfixEdm

def ascii (text : String) : List UInt8 := text.toList.map fun c => c.toNat.toUInt8

/-- The decimal text of a number. -/
def decimal (n : Nat) : List UInt8 :=
  if n = 0 then [48] else (Nat.digits 10 n).reverse.map fun d => (48 + d).toUInt8

/-! ## Decimal numbers -/

def IsDigit (b : UInt8) : Prop := 48 ≤ b.toNat ∧ b.toNat ≤ 57

instance (b : UInt8) : Decidable (IsDigit b) := by unfold IsDigit; infer_instance

theorem toNat_digit {d : Nat} (h : d < 10) : ((48 + d).toUInt8).toNat = 48 + d := by
  rw [Nat.toUInt8, UInt8.toNat_ofNat', Nat.mod_eq_of_lt (by omega)]

/-- The digits of a number, most significant first, with their values. -/
theorem decimal_digits (n : Nat) : ∃ ds : List Nat, ds ≠ [] ∧ (∀ d ∈ ds, d < 10) ∧
    decimal n = ds.map (fun d => (48 + d).toUInt8) ∧ ds.foldl (fun a d => a * 10 + d) 0 = n := by
  unfold decimal
  by_cases hn : n = 0
  · exact ⟨[0], by decide, by decide, by rw [if_pos hn]; rfl, by rw [hn]; rfl⟩
  · refine ⟨(Nat.digits 10 n).reverse, ?_, ?_, by rw [if_neg hn], ?_⟩
    · rw [ne_eq, List.reverse_eq_nil_iff, Nat.digits_eq_nil_iff_eq_zero]
      exact hn
    · intro d hd
      exact Nat.digits_lt_base (by decide) (List.mem_reverse.mp hd)
    · rw [List.foldl_reverse]
      conv_rhs => rw [← Nat.ofDigits_digits 10 n, Nat.ofDigits_eq_foldr]
      congr 1
      funext d a
      simp only [Nat.cast_id]
      omega

theorem isDigit_of_mem_decimal {n : Nat} {b : UInt8} (h : b ∈ decimal n) : IsDigit b := by
  obtain ⟨ds, -, hlt, heq, -⟩ := decimal_digits n
  rw [heq] at h
  obtain ⟨d, hd, rfl⟩ := List.mem_map.mp h
  have := hlt d hd
  unfold IsDigit
  rw [toNat_digit this]
  omega

theorem exists_cons_decimal (n : Nat) : ∃ b text, decimal n = b :: text ∧ IsDigit b := by
  obtain ⟨ds, hne, -, heq, -⟩ := decimal_digits n
  obtain ⟨d, ds, rfl⟩ := List.exists_cons_of_ne_nil hne
  exact ⟨_, _, heq, isDigit_of_mem_decimal (n := n) (by rw [heq]; exact List.mem_cons_self)⟩

theorem nul_notMem_decimal (n : Nat) : 0 ∉ decimal n := fun h => absurd (isDigit_of_mem_decimal h) (by decide)

theorem length_decimal_le {n k : Nat} (hk : 0 < k) (h : n < 10 ^ k) : (decimal n).length ≤ k := by
  unfold decimal
  split
  · exact hk
  · rw [List.length_map, List.length_reverse]
    exact (Nat.digits_length_le_iff (by decide) n).mpr h

/-! ## C strings -/

structure CString where
  bytes : List UInt8
  nul : 0 ∉ bytes
  deriving DecidableEq

namespace CString

@[ext] theorem ext {s t : CString} (h : s.bytes = t.bytes) : s = t := by
  cases s
  cases t
  exact (CString.mk.injEq ..).mpr h

theorem nul_notMem_cstr (block : List UInt8) : 0 ∉ cstr block := by
  intro h
  exact absurd (List.mem_takeWhile_imp (p := fun b => decide (b ≠ 0)) h) (by decide)

/-- What `strdup` and `strcpy` take from a block. -/
def ofBytes (block : List UInt8) : CString := ⟨cstr block, nul_notMem_cstr block⟩

end CString

/-- `snprintf(buf, size, ...)` of a text without a NUL. -/
def snprintf (size : Nat) (text : List UInt8) : List UInt8 := text.take (size - 1)

/-- `tolower` -/
def tolower (b : UInt8) : UInt8 := if 65 ≤ b ∧ b ≤ 90 then b + 32 else b

/-- `!strncasecmp(s, t, n)`; a string that ends within `n` bytes is compared with its NUL. -/
def strncasecmp (s t : CString) (n : Nat) : Bool :=
  ((s.bytes ++ [0]).take n).map tolower = ((t.bytes ++ [0]).take n).map tolower

theorem eq_zero_of_tolower {b : UInt8} (h : tolower b = 0) : b = 0 := by
  unfold tolower at h
  split at h
  · next hletter =>
    have hsum := congrArg UInt8.toNat h
    simp only [UInt8.le_iff_toNat_le, UInt8.toNat_add, UInt8.reduceToNat] at hletter hsum
    omega
  · exact h

/-- Compared with its NUL, a string is all compared. -/
theorem strncasecmp_iff {s t : CString} :
    strncasecmp s t (t.bytes.length + 1) = true ↔ s.bytes.map tolower = t.bytes.map tolower := by
  have htake : (t.bytes ++ [0]).take (t.bytes.length + 1) = t.bytes ++ [0] :=
    List.take_of_length_le (by rw [List.length_append, List.length_singleton])
  rw [strncasecmp, htake, decide_eq_true_iff]
  constructor
  · intro h
    have hlen := congrArg List.length h
    rw [List.length_map, List.length_map, List.length_take, List.length_append, List.length_append,
      List.length_singleton] at hlen
    rcases Nat.lt_or_ge t.bytes.length s.bytes.length with hlong | hshort
    · -- the NUL of `t` is compared with a byte of `s`
      have hat := congrArg (fun text => text[t.bytes.length]?) h
      simp only [List.getElem?_map, List.getElem?_take_of_lt (Nat.lt_succ_self _),
        List.getElem?_append_left hlong, List.getElem?_concat_length, List.getElem?_eq_getElem hlong,
        Option.map_some, Option.some.injEq] at hat
      exact absurd (eq_zero_of_tolower hat ▸ List.getElem_mem hlong) s.nul
    · have heq : s.bytes.length = t.bytes.length := by omega
      rw [← heq, List.take_of_length_le (by rw [List.length_append, List.length_singleton]), List.map_append,
        List.map_append] at h
      exact List.append_cancel_right h
  · intro h
    have hlen : s.bytes.length = t.bytes.length := by
      rw [← List.length_map tolower, h, List.length_map]
    rw [← hlen, List.take_of_length_le (by rw [List.length_append, List.length_singleton]), List.map_append, h,
      List.map_append]

/-- `isspace` -/
def isspace (b : UInt8) : Bool := b = 32 || (9 ≤ b && b ≤ 13)

/-- `strtrim`: `strtrimr`, then `strtriml`. -/
def strtrim (sql : List UInt8) : List UInt8 := (sql.rdropWhile isspace).dropWhile isspace

/-- The value of the digits that a text begins with. -/
def digitsValue (text : List UInt8) : Nat :=
  (text.takeWhile fun b => IsDigit b).foldl (fun a b => a * 10 + (b.toNat - 48)) 0

/-- `strtol(text, NULL, 10)` of a `long` of 64 bits. -/
def strtol (text : List UInt8) : Int :=
  match text.dropWhile isspace with
  | 45 :: text => max (-2 ^ 63) (-digitsValue text)
  | 43 :: text => min (2 ^ 63 - 1) (digitsValue text)
  | text => min (2 ^ 63 - 1) (digitsValue text)

/-- `atoi` -/
def atoi (text : List UInt8) : Int32 := Int32.ofInt (strtol text)

theorem digitsValue_decimal (n : Nat) : digitsValue (decimal n) = n := by
  obtain ⟨ds, -, hlt, heq, hval⟩ := decimal_digits n
  have hall : (decimal n).takeWhile (fun b => IsDigit b) = decimal n := by
    rw [List.takeWhile_eq_self_iff]
    intro b hb
    exact decide_eq_true (isDigit_of_mem_decimal hb)
  rw [digitsValue, hall, heq, List.foldl_map]
  rw [← hval]
  apply List.foldl_ext
  intro a d hd
  rw [toNat_digit (hlt d hd), Nat.add_sub_cancel_left]

theorem strtol_decimal (n : Nat) (h : n < 2 ^ 63) : strtol (decimal n) = n := by
  have hne : decimal n ≠ [] := by
    obtain ⟨ds, hds, -, heq, -⟩ := decimal_digits n
    rwa [heq, ne_eq, List.map_eq_nil_iff]
  obtain ⟨b, rest, heq⟩ := List.exists_cons_of_ne_nil hne
  have hdigit : IsDigit b := isDigit_of_mem_decimal (n := n) (by rw [heq]; exact List.mem_cons_self)
  have hspace : (decimal n).dropWhile isspace = decimal n := by
    rw [heq, List.dropWhile_cons_of_neg]
    simp only [isspace, IsDigit, UInt8.le_iff_toNat_le, ← UInt8.toNat_inj] at hdigit ⊢
    simp
    omega
  have hsigned : ∀ c : UInt8, IsDigit c → c ≠ 45 ∧ c ≠ 43 := by
    intro c hc
    constructor <;> rintro rfl <;> exact absurd hc (by decide)
  obtain ⟨hminus, hplus⟩ := hsigned b hdigit
  have hval := digitsValue_decimal n
  rw [strtol, hspace]
  rw [heq] at hval ⊢
  split
  · next h45 => exact absurd (List.cons.inj h45).1 hminus
  · next h43 => exact absurd (List.cons.inj h43).1 hplus
  · rw [hval]
    omega

theorem toInt_atoi_decimal {n : Nat} (h : n < 2 ^ 31) : (atoi (decimal n)).toInt = n := by
  rw [atoi, strtol_decimal n (by omega), Int32.toInt_ofInt_of_le (by omega) (by omega)]

end PostfixEdm
