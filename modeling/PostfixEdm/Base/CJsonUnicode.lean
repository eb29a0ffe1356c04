import PostfixEdm.Base.CJsonParse
import PostfixEdm.Base.JsonGrammar

/-!
# The escape `\u` of `parse_string`

* `scanHex4_hex4` : `sscanf` reads four hexadecimal digits;
* `transcode_val` : the transcoding writes the UTF-8 of a character;
* `readPair_eq_iff` : which characters above `U+FFFF` are read from their surrogate pair;
* `parseChar_unit`, `parseChar_pair` : what is written for one code unit and for a pair.
-/

namespace PostfixEdm

open Json

/-! ## Digits -/

theorem hexValue_isHex {b : UInt8} {v : Nat} (h : IsHex b v) :
    v < 16 ∧ hexValue b = some (UInt32.ofNat v) ∧ isspace b = false ∧ b ≠ 45 ∧ b ≠ 43 ∧ b ≠ 120 ∧ b ≠ 88 := by
  have hv : v < 16 := by
    rcases h with h | h
    · exact (List.getElem?_eq_some_iff.mp h).1
    · exact (List.getElem?_eq_some_iff.mp h).1
  refine ⟨hv, ?_⟩
  rcases h with h | h
  · interval_cases v <;> cases h <;> decide
  · interval_cases v <;> cases h <;> decide

theorem scanHex4_hex4 {h₁ h₂ h₃ h₄ : UInt8} {n : Nat} (h : Hex4 h₁ h₂ h₃ h₄ n) (uc : UInt32) (rest : List UInt8) :
    scanHex4 uc (h₁ :: h₂ :: h₃ :: h₄ :: rest) = UInt32.ofNat n := by
  obtain ⟨v₁, v₂, v₃, v₄, hv₁, hv₂, hv₃, hv₄, rfl⟩ := h.digits
  obtain ⟨-, hval₁, hspace, h45, h43, -, -⟩ := hexValue_isHex hv₁
  obtain ⟨-, hval₂, -, -, -, h120, h88⟩ := hexValue_isHex hv₂
  obtain ⟨-, hval₃, -⟩ := hexValue_isHex hv₃
  obtain ⟨-, hval₄, -⟩ := hexValue_isHex hv₄
  unfold scanHex4
  simp [hspace, h45, h43, h120, h88, hval₁, hval₂, hval₃, hval₄]

theorem Json.Hex4.lt {h₁ h₂ h₃ h₄ : UInt8} {n : Nat} (h : Hex4 h₁ h₂ h₃ h₄ n) : n < 0x10000 := by
  obtain ⟨v₁, v₂, v₃, v₄, hv₁, hv₂, hv₃, hv₄, rfl⟩ := h.digits
  have := (hexValue_isHex hv₁).1
  have := (hexValue_isHex hv₂).1
  have := (hexValue_isHex hv₃).1
  have := (hexValue_isHex hv₄).1
  omega

/-! ## The block -/

theorem stringSize_plain {b : UInt8} (h92 : b ≠ 92) (h34 : b ≠ 34) {rest : List UInt8} {len : Nat}
    (hrest : stringSize rest = .ok len) : stringSize (b :: rest) = .ok (len + 1) := by
  rw [stringSize]
  · rw [if_neg h34, hrest]
    rfl
  · rintro rfl
    exact absurd rfl h92
  · rintro _ _ rfl
    exact absurd rfl h92

theorem stringSize_escape (e : UInt8) {rest : List UInt8} {len : Nat} (hrest : stringSize rest = .ok len) :
    stringSize (92 :: e :: rest) = .ok (len + 1) := by
  rw [stringSize, hrest]
  rfl

theorem stringSize_isHex {b : UInt8} {v : Nat} (h : IsHex b v) {rest : List UInt8} {len : Nat}
    (hrest : stringSize rest = .ok len) : stringSize (b :: rest) = .ok (len + 1) := by
  have hval := (hexValue_isHex h).2.1
  refine stringSize_plain ?_ ?_ hrest
  · rintro rfl
    cases hval
  · rintro rfl
    cases hval

/-- An escape of a code unit counts five. -/
theorem Json.Hex4.stringSize {h₁ h₂ h₃ h₄ : UInt8} {n : Nat} (h : Hex4 h₁ h₂ h₃ h₄ n) {rest : List UInt8} {len : Nat}
    (hrest : PostfixEdm.stringSize rest = .ok len) :
    PostfixEdm.stringSize (92 :: 117 :: h₁ :: h₂ :: h₃ :: h₄ :: rest) = .ok (len + 5) := by
  obtain ⟨v₁, v₂, v₃, v₄, hv₁, hv₂, hv₃, hv₄, -⟩ := h.digits
  have hdigits := stringSize_isHex hv₁ (stringSize_isHex hv₂ (stringSize_isHex hv₃ (stringSize_isHex hv₄ hrest)))
  exact stringSize_escape 117 hdigits

theorem length_utf8EncodeChar_le (c : Char) : (String.utf8EncodeChar c).length ≤ 4 := by
  rw [String.length_utf8EncodeChar]
  exact c.utf8Size_le_four

/-! ## The transcoding -/

theorem trailing_eq (uc : UInt32) : trailing uc = UInt8.ofNat (uc.toNat % 64 + 128) := by
  have hall : ∀ r < 256, (r ||| 128) &&& 191 = r % 64 + 128 := by decide +kernel
  have hmod : (uc.toNat ||| 128) &&& 191 = ((uc.toNat ||| 128) &&& 191) % 2 ^ 8 := by
    rw [Nat.mod_eq_of_lt]
    exact Nat.lt_of_le_of_lt Nat.and_le_right (by decide)
  have hor : (uc.toNat ||| 128) % 2 ^ 8 = uc.toNat % 2 ^ 8 ||| 128 := by rw [Nat.or_mod_two_pow]
  have hfield : (uc.toNat ||| 128) &&& 191 = uc.toNat % 64 + 128 := by
    rw [hmod, Nat.and_mod_two_pow, hor]
    change (uc.toNat % 256 ||| 128) &&& 191 = _
    rw [hall _ (Nat.mod_lt _ (by decide)), Nat.mod_mod_of_dvd _ (by decide)]
  apply UInt8.toNat_inj.mp
  unfold trailing
  rw [UInt32.toNat_toUInt8, UInt32.toNat_and, UInt32.toNat_or, UInt8.toNat_ofNat']
  exact congrArg (· % 256) hfield

/-- A leading byte: the mark, and the bits that are left of the code point. -/
theorem lead_eq {x mark : UInt32} {bits : Nat} (hx : x.toNat < bits)
    (hall : ∀ r < bits, r ||| mark.toNat = r + mark.toNat) :
    (x ||| mark).toUInt8 = UInt8.ofNat (x.toNat + mark.toNat) := by
  apply UInt8.toNat_inj.mp
  rw [UInt32.toNat_toUInt8, UInt32.toNat_or, hall _ hx, UInt8.toNat_ofNat']

/-- What the source writes for a code point is its UTF-8. -/
theorem transcode_val (c : Char) : transcode c.val = String.utf8EncodeChar c := by
  have hmax : c.val.toNat < 0x110000 := by
    rcases c.valid with h | h
    · exact Nat.lt_of_lt_of_le h (by decide)
    · exact h.2
  have h0 : firstByteMark 1 = 0 := rfl
  have h6 : (c.val >>> 6).toNat = c.val.toNat / 64 := by simp [UInt32.toNat_shiftRight, Nat.shiftRight_eq_div_pow]
  have h12 : (c.val >>> 12).toNat = c.val.toNat / 4096 := by
    simp [UInt32.toNat_shiftRight, Nat.shiftRight_eq_div_pow]
  have h18 : (c.val >>> 18).toNat = c.val.toNat / 262144 := by
    simp [UInt32.toNat_shiftRight, Nat.shiftRight_eq_div_pow]
  unfold transcode String.utf8EncodeChar
  simp only [UInt32.lt_iff_toNat_lt, UInt32.reduceToNat, trailing_eq, h6, h12]
  by_cases h80 : c.val.toNat < 128
  · rw [if_pos h80, if_pos (show c.val.toNat ≤ 127 by omega), h0, UInt32.or_zero, UInt8.ofNat_uInt32ToNat]
  rw [if_neg h80, if_neg (show ¬ c.val.toNat ≤ 127 by omega)]
  by_cases h800 : c.val.toNat < 2048
  · have hlt : c.val.toNat / 64 < 32 := by omega
    rw [if_pos h800, if_pos (show c.val.toNat ≤ 2047 by omega), lead_eq (h6.trans_lt hlt) (by decide), h6,
      Nat.mod_eq_of_lt hlt]
    rfl
  rw [if_neg h800, if_neg (show ¬ c.val.toNat ≤ 2047 by omega)]
  by_cases h10000 : c.val.toNat < 65536
  · have hlt : c.val.toNat / 4096 < 16 := by omega
    rw [if_pos h10000, if_pos (show c.val.toNat ≤ 65535 by omega), lead_eq (h12.trans_lt hlt) (by decide), h12,
      Nat.mod_eq_of_lt hlt]
    rfl
  have hlt : c.val.toNat / 262144 < 8 := by omega
  rw [if_neg h10000, if_neg (show ¬ c.val.toNat ≤ 65535 by omega), lead_eq (h18.trans_lt hlt) (by decide), h18,
    Nat.mod_eq_of_lt hlt]
  rfl

/-! ## Surrogate pairs -/

/-- The source sets bit 16 where it should add it. -/
theorem or_0x10000 {m : Nat} (h : m < 0x100000) :
    0x10000 ||| m = if m / 2 ^ 16 % 2 = 1 then m else 2 ^ 16 + m := by
  have hsplit : 2 ^ 16 * (m / 2 ^ 16) ||| m % 2 ^ 16 = m := by
    rw [← Nat.two_pow_add_eq_or_of_lt (Nat.mod_lt _ (by decide)), Nat.div_add_mod]
  have hall : ∀ q < 16, 2 ^ 16 ||| 2 ^ 16 * q = if q % 2 = 1 then 2 ^ 16 * q else 2 ^ 16 * (q + 1) := by decide
  have hor : 2 ^ 16 ||| m = (2 ^ 16 ||| 2 ^ 16 * (m / 2 ^ 16)) ||| m % 2 ^ 16 := by
    rw [Nat.or_assoc, hsplit]
  change 2 ^ 16 ||| m = _
  rw [hor, hall _ (by omega)]
  split_ifs with hodd
  · exact hsplit
  · rw [← Nat.two_pow_add_eq_or_of_lt (Nat.mod_lt _ (by decide))]
    omega

/-- The character that the source reads for one that is written as a surrogate pair. -/
def readPair (c : Char) : Char :=
  if c.toNat < 0x10000 then c else Char.ofNat (0x10000 ||| (c.toNat - 0x10000))

theorem char_lt (c : Char) : c.toNat < 0x110000 := by
  rcases c.valid with h | h
  · exact Nat.lt_of_lt_of_le h (by decide)
  · exact h.2

theorem toNat_readPair {c : Char} (h : 0x10000 ≤ c.toNat) : (readPair c).toNat = 0x10000 ||| (c.toNat - 0x10000) := by
  have hlt := char_lt c
  have hor := or_0x10000 (m := c.toNat - 0x10000) (by omega)
  have hvalid : (0x10000 ||| (c.toNat - 0x10000)).isValidChar := by
    right
    rw [hor]
    split_ifs <;> omega
  rw [readPair, if_neg (by omega), Char.ofNat, dif_pos hvalid]
  rfl

theorem readPair_eq_iff (c : Char) : readPair c = c ↔ c.toNat < 0x10000 ∨ c.toNat / 0x10000 % 2 = 1 := by
  by_cases h : c.toNat < 0x10000
  · rw [readPair, if_pos h]
    exact iff_of_true rfl (Or.inl h)
  have hlt := char_lt c
  have hor := or_0x10000 (m := c.toNat - 0x10000) (by omega)
  rw [← Char.toNat_inj, toNat_readPair (Nat.le_of_not_lt h), hor]
  split_ifs <;> omega

theorem toNat_combine {m : Nat} (h : m < 0x100000) :
    (combine (UInt32.ofNat (0xD800 + m / 0x400)) (UInt32.ofNat (0xDC00 + m % 0x400))).toNat = 0x10000 ||| m := by
  have hmask : ∀ x, x < 2 ^ 32 → x % 2 ^ 32 &&& 1023 = x % 2 ^ 10 := fun x hx => by
    rw [Nat.mod_eq_of_lt hx]
    exact Nat.and_two_pow_sub_one_eq_mod x 10
  have hhigh : (55296 + m / 1024) % 2 ^ 10 = m / 2 ^ 10 := by omega
  have hlow : (56320 + m % 1024) % 2 ^ 10 = m % 2 ^ 10 := by omega
  have hshift : (m / 2 ^ 10) <<< (10 % 32) % 2 ^ 32 = 2 ^ 10 * (m / 2 ^ 10) := by
    have hpow : 2 ^ (10 % 32) = 2 ^ 10 := rfl
    rw [Nat.shiftLeft_eq, hpow]
    omega
  unfold combine
  simp only [UInt32.toNat_or, UInt32.toNat_and, UInt32.toNat_shiftLeft, UInt32.toNat_ofNat', UInt32.reduceToNat]
  rw [hmask _ (by omega), hmask _ (by omega), hhigh, hlow, hshift, Nat.or_assoc,
    ← Nat.two_pow_add_eq_or_of_lt (Nat.mod_lt _ (by decide)), Nat.div_add_mod]

/-! ## What is written -/

/-- One code unit. -/
theorem parseChar_unit {h₁ h₂ h₃ h₄ : UInt8} {c : Char} (h : Hex4 h₁ h₂ h₃ h₄ c.toNat) (h0 : c.toNat ≠ 0)
    (units : CodeUnits) (rest : List UInt8) :
    ∃ units', parseChar units (92 :: 117 :: h₁ :: h₂ :: h₃ :: h₄ :: rest) =
      .ok (some (String.utf8EncodeChar c, units'), rest) := by
  have hscan := scanHex4_hex4 h units.uc rest
  have hval : UInt32.ofNat c.toNat = c.val := UInt32.ofNat_toNat
  have hne : c.val ≠ 0 := fun heq => h0 (congrArg UInt32.toNat heq)
  have hsurrogate : ¬ (0xD800 ≤ c.val.toNat ∧ c.val.toNat ≤ 0xDFFF) := by
    rcases c.valid with hv | hv
    · exact fun hle => Nat.not_le.mpr hv hle.1
    · exact fun hle => Nat.not_lt.mpr hle.2 hv.1
  refine ⟨{ units with uc := shifted c.val }, ?_⟩
  rw [parseChar, parseUnicode, if_neg (by simp)]
  simp only [hscan, hval]
  rw [if_neg, if_neg, ← transcode_val]
  · rfl
  · intro ⟨hlo, hhi⟩
    exact hsurrogate ⟨hlo, Nat.le_trans hhi (by decide)⟩
  · rintro (⟨hlo, hhi⟩ | heq)
    · exact hsurrogate ⟨Nat.le_trans (by decide) hlo, hhi⟩
    · exact hne heq

theorem ofNat_high {q : Nat} (h : q < 0x400) :
    ¬ ((0xDC00 ≤ UInt32.ofNat (0xD800 + q) ∧ UInt32.ofNat (0xD800 + q) ≤ 0xDFFF) ∨ UInt32.ofNat (0xD800 + q) = 0) ∧
      0xD800 ≤ UInt32.ofNat (0xD800 + q) ∧ UInt32.ofNat (0xD800 + q) ≤ 0xDBFF := by
  simp only [UInt32.le_iff_toNat_le, ← UInt32.toNat_inj, UInt32.toNat_ofNat', UInt32.reduceToNat]
  omega

theorem ofNat_low {q : Nat} (h : q < 0x400) :
    ¬ (UInt32.ofNat (0xDC00 + q) < 0xDC00 ∨ 0xDFFF < UInt32.ofNat (0xDC00 + q)) := by
  simp only [UInt32.lt_iff_toNat_lt, UInt32.toNat_ofNat', UInt32.reduceToNat]
  omega

/-- A surrogate pair. -/
theorem parseChar_pair {h₁ h₂ h₃ h₄ l₁ l₂ l₃ l₄ : UInt8} {m : Nat} (hm : m < 0x100000)
    (hhi : Hex4 h₁ h₂ h₃ h₄ (0xD800 + m / 0x400)) (hlo : Hex4 l₁ l₂ l₃ l₄ (0xDC00 + m % 0x400)) {c : Char}
    (hc : c.toNat = 0x10000 ||| m) (units : CodeUnits) (rest : List UInt8) :
    ∃ units', parseChar units
        (92 :: 117 :: h₁ :: h₂ :: h₃ :: h₄ :: 92 :: 117 :: l₁ :: l₂ :: l₃ :: l₄ :: rest) =
      .ok (some (String.utf8EncodeChar c, units'), rest) := by
  have hscan := scanHex4_hex4 hhi units.uc (92 :: 117 :: l₁ :: l₂ :: l₃ :: l₄ :: rest)
  have hscan₂ := scanHex4_hex4 hlo units.uc2 rest
  obtain ⟨hno, hyes⟩ := ofNat_high (q := m / 0x400) (by omega)
  have hno₂ := ofNat_low (q := m % 0x400) (by omega)
  have hcombine : combine (UInt32.ofNat (0xD800 + m / 0x400)) (UInt32.ofNat (0xDC00 + m % 0x400)) = c.val := by
    apply UInt32.toNat_inj.mp
    rw [toNat_combine hm]
    exact hc.symm
  generalize UInt32.ofNat (0xD800 + m / 0x400) = uc at hscan hno hyes hcombine
  generalize UInt32.ofNat (0xDC00 + m % 0x400) = uc2 at hscan₂ hno₂ hcombine
  refine ⟨⟨shifted c.val, uc2⟩, ?_⟩
  rw [parseChar, parseUnicode, if_neg (by simp)]
  have hlen : ¬ rest.length + 1 + 1 + 1 + 1 + 1 + 1 < 6 := by omega
  simp only [hscan, if_neg hno, if_pos hyes]
  simp [hscan₂, hno₂, hcombine, hlen, transcode_val, Except.map]

end PostfixEdm
