import PostfixEdm.Base.Text
import PostfixEdm.Lib.BitField

/-!
# `base64_encode`

* `base64Encode` : three bytes at a time, and the last one or two with padding;
* `charArray4_toNat` : the four fields that three bytes are cut into;
* `base64_clean` : the text has no byte outside the alphabet and the padding.
-/

namespace PostfixEdm

def base64Chars : List UInt8 := ascii "ABCDEFGHIJKLMNOPQRSTUVWXYZabcdefghijklmnopqrstuvwxyz0123456789+/"

/-- `char_array_4` for the bytes of `char_array_3`. -/
def charArray4 (a b c : UInt8) : List UInt8 :=
  [(a &&& 0xfc) >>> 2, ((a &&& 0x03) <<< 4) + ((b &&& 0xf0) >>> 4), ((b &&& 0x0f) <<< 2) + ((c &&& 0xc0) >>> 6),
    c &&& 0x3f]

/-- `base64_chars[i]` -/
def base64Char (i : UInt8) : UInt8 := base64Chars.getD i.toNat 0

/-- The loop of `base64_encode`, and what it does with an incomplete `char_array_3`. -/
def base64Loop : List UInt8 → List UInt8
  | a :: b :: c :: rest => (charArray4 a b c).map base64Char ++ base64Loop rest
  | [a, b] => ((charArray4 a b 0).take 3).map base64Char ++ [61]
  | [a] => ((charArray4 a 0 0).take 2).map base64Char ++ [61, 61]
  | [] => []

def base64Encode (bytesToEncode : List UInt8) (inLen : UInt32) : List UInt8 :=
  base64Loop (bytesToEncode.take inLen.toNat)

/-- Capital letters, small letters, digits, and two more. -/
theorem base64Chars_toNat : base64Chars.map UInt8.toNat =
    List.range' 65 26 ++ List.range' 97 26 ++ List.range' 48 10 ++ [43, 47] := by decide

theorem length_base64Chars : base64Chars.length = 64 := by decide

theorem base64Char_mem {i : UInt8} (h : i.toNat < 64) : base64Char i ∈ base64Chars := by
  rw [base64Char, List.getD_eq_getElem _ _ (by rw [length_base64Chars]; exact h)]
  exact List.getElem_mem _

/-- The four fields of 24 bits. -/
theorem charArray4_toNat (a b c : UInt8) : (charArray4 a b c).map UInt8.toNat =
    [a.toNat / 4, a.toNat % 4 * 16 + b.toNat / 16, b.toNat % 16 * 4 + c.toNat / 64, c.toNat % 64] := by
  have ha := a.toNat_lt
  have hb := b.toNat_lt
  have hc := c.toNat_lt
  have halow : (a &&& 0x03).toNat = a.toNat % 2 ^ 2 := UInt8.toNat_low a 2 rfl
  have hblow : (b &&& 0x0f).toNat = b.toNat % 2 ^ 4 := UInt8.toNat_low b 4 rfl
  have hfirst : ((a &&& 0xfc) >>> 2).toNat = a.toNat / 2 ^ 2 % 2 ^ 6 :=
    UInt8.toNat_field a 2 6 (by decide) rfl rfl
  have hsecond : ((a &&& 0x03) <<< 4).toNat = (a &&& 0x03).toNat * 2 ^ 4 :=
    UInt8.toNat_shiftLeft_of_lt 4 (by decide) rfl (by omega)
  have hsecond' : ((b &&& 0xf0) >>> 4).toNat = b.toNat / 2 ^ 4 % 2 ^ 4 :=
    UInt8.toNat_field b 4 4 (by decide) rfl rfl
  have hthird : ((b &&& 0x0f) <<< 2).toNat = (b &&& 0x0f).toNat * 2 ^ 2 :=
    UInt8.toNat_shiftLeft_of_lt 2 (by decide) rfl (by omega)
  have hthird' : ((c &&& 0xc0) >>> 6).toNat = c.toNat / 2 ^ 6 % 2 ^ 2 :=
    UInt8.toNat_field c 6 2 (by decide) rfl rfl
  have hfourth : (c &&& 0x3f).toNat = c.toNat % 2 ^ 6 := UInt8.toNat_low c 6 rfl
  simp only [charArray4, List.map_cons, List.map_nil, UInt8.toNat_add, List.cons.injEq, and_true]
  exact ⟨by omega, by omega, by omega, by omega⟩

theorem toNat_lt_of_mem_charArray4 {a b c i : UInt8} (h : i ∈ charArray4 a b c) : i.toNat < 64 := by
  have hmem : i.toNat ∈ (charArray4 a b c).map UInt8.toNat := List.mem_map_of_mem h
  have ha := a.toNat_lt
  have hb := b.toNat_lt
  have hc := c.toNat_lt
  simp only [charArray4_toNat, List.mem_cons, List.not_mem_nil, or_false] at hmem
  omega

theorem base64Loop_clean : ∀ bytes : List UInt8, ∀ b ∈ base64Loop bytes, b ∈ base64Chars ∨ b = 61
  | [], b, h => absurd h List.not_mem_nil
  | [x], b, h | [x, y], b, h => by
    rcases List.mem_append.mp h with h | h
    · obtain ⟨i, hi, rfl⟩ := List.mem_map.mp h
      exact .inl (base64Char_mem (toNat_lt_of_mem_charArray4 (List.mem_of_mem_take hi)))
    · simpa using Or.inr h
  | x :: y :: z :: rest, b, h => by
    rcases List.mem_append.mp h with h | h
    · obtain ⟨i, hi, rfl⟩ := List.mem_map.mp h
      exact .inl (base64Char_mem (toNat_lt_of_mem_charArray4 hi))
    · exact base64Loop_clean rest b h

theorem base64_clean {bytes : List UInt8} {inLen : UInt32} {b : UInt8} (h : b ∈ base64Encode bytes inLen) :
    b ∈ base64Chars ∨ b = 61 :=
  base64Loop_clean _ b h

end PostfixEdm
