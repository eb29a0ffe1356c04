import PostfixEdm.Base.Base64
import PostfixEdm.Lib.BitField
import Mathlib.Data.Int.Init

/-!
# `base64_decode`

It counts in `int`: `in_len` is the size of the text, and `in_` the position in it.

* `charArray3`, `base64Find`, `isBase64` : four symbols to three bytes;
* `decodeLoop`, `base64Decode` : the loop, and what it does with an incomplete `char_array_4`. There is no result
  where an `int` overflows;
* `charArray3_of_charArray4` : three bytes are the same after they have been regrouped twice;
* `decodeLoop_base64Loop` : a text whose size is an `int` is read as what has been encoded; `decodeLoop_negative`,
  `length_decodeLoop_le` : what becomes of a text whose size is none.
-/

namespace PostfixEdm

/-- `char_array_3` for the values in `char_array_4`. -/
def charArray3 (p q r s : UInt8) : List UInt8 :=
  [(p <<< 2) + ((q &&& 0x30) >>> 4), ((q &&& 0xf) <<< 4) + ((r &&& 0x3c) >>> 2), ((r &&& 0x3) <<< 6) + s]

/-- `base64_chars.find(c)`, in an `unsigned char`; `npos` is 255 there. -/
def base64Find (c : UInt8) : UInt8 := if c ∈ base64Chars then UInt8.ofNat (base64Chars.idxOf c) else 255

/-- `isalnum(c) || c == '+' || c == '/'` -/
def isBase64 (c : UInt8) : Bool :=
  (65 ≤ c && c ≤ 90) || (97 ≤ c && c ≤ 122) || (48 ≤ c && c ≤ 57) || c = 43 || c = 47

/-- What `char_array_4` gives; `group` are its characters, and the others are 0. -/
def decodeGroup (group : List UInt8) : List UInt8 :=
  (charArray3 (base64Find (group.getD 0 0)) (base64Find (group.getD 1 0)) (base64Find (group.getD 2 0))
    (base64Find (group.getD 3 0))).take (group.length - 1)

/-- The loop, and what follows it. The first argument is the text from `in_` on; behind its end is a NUL. -/
def decodeLoop : List UInt8 → Int → Int → List UInt8 → List UInt8 → Option (List UInt8)
  | [], inLen, _, group, ret => if inLen = -2 ^ 31 then none else some (ret ++ decodeGroup group)
  | c :: rest, inLen, in_, group, ret =>
    if inLen = -2 ^ 31 then none
    else if inLen = 0 ∨ c = 61 ∨ isBase64 c = false then some (ret ++ decodeGroup group)
    else if in_ = 2 ^ 31 - 1 then none
    else if group.length = 3 then decodeLoop rest (inLen - 1) (in_ + 1) [] (ret ++ decodeGroup (group ++ [c]))
    else decodeLoop rest (inLen - 1) (in_ + 1) (group ++ [c]) ret

/-- `int in_len = encoded_string.size()` keeps 32 bits. -/
def base64Decode (encodedString : List UInt8) : Option (List UInt8) :=
  decodeLoop encodedString (Int.bmod encodedString.length (2 ^ 32)) 0 [] []

example : base64Decode (ascii "MTIzNA==") = some (ascii "1234") := by decide

/-! ## Three bytes and four symbols -/

theorem charArray3_toNat {p q r s : UInt8} (hp : p.toNat < 64) (hq : q.toNat < 64) (hr : r.toNat < 64)
    (hs : s.toNat < 64) : (charArray3 p q r s).map UInt8.toNat =
      [p.toNat * 4 + q.toNat / 16, q.toNat % 16 * 16 + r.toNat / 4, r.toNat % 4 * 64 + s.toNat] := by
  have hqlow : (q &&& 0xf).toNat = q.toNat % 2 ^ 4 := UInt8.toNat_low q 4 rfl
  have hrlow : (r &&& 0x3).toNat = r.toNat % 2 ^ 2 := UInt8.toNat_low r 2 rfl
  have hfirst : (p <<< 2).toNat = p.toNat * 2 ^ 2 := UInt8.toNat_shiftLeft_of_lt 2 (by decide) rfl (by omega)
  have hfirst' : ((q &&& 0x30) >>> 4).toNat = q.toNat / 2 ^ 4 % 2 ^ 2 := UInt8.toNat_field q 4 2 (by decide) rfl rfl
  have hsecond : ((q &&& 0xf) <<< 4).toNat = (q &&& 0xf).toNat * 2 ^ 4 :=
    UInt8.toNat_shiftLeft_of_lt 4 (by decide) rfl (by omega)
  have hsecond' : ((r &&& 0x3c) >>> 2).toNat = r.toNat / 2 ^ 2 % 2 ^ 4 := UInt8.toNat_field r 2 4 (by decide) rfl rfl
  have hthird : ((r &&& 0x3) <<< 6).toNat = (r &&& 0x3).toNat * 2 ^ 6 :=
    UInt8.toNat_shiftLeft_of_lt 6 (by decide) rfl (by omega)
  simp only [charArray3, List.map_cons, List.map_nil, UInt8.toNat_add, List.cons.injEq, and_true]
  exact ⟨by omega, by omega, by omega⟩

/-- Regrouping three bytes and back. -/
theorem charArray3_of_charArray4 {a b c p q r s : UInt8} (h : charArray4 a b c = [p, q, r, s]) :
    charArray3 p q r s = [a, b, c] := by
  have hlt : ∀ i ∈ [p, q, r, s], i.toNat < 64 := fun i hi => toNat_lt_of_mem_charArray4 (h ▸ hi)
  simp only [List.forall_mem_cons] at hlt
  obtain ⟨hp, hq, hr, hs, -⟩ := hlt
  have hfields := charArray4_toNat a b c
  rw [h] at hfields
  simp only [List.map_cons, List.map_nil, List.cons.injEq, and_true] at hfields
  obtain ⟨hp', hq', hr', hs'⟩ := hfields
  have ha := a.toNat_lt
  have hb := b.toNat_lt
  have hc := c.toNat_lt
  refine List.map_injective_iff.mpr (fun _ _ => UInt8.toNat_inj.mp) ?_
  rw [charArray3_toNat hp hq hr hs, hp', hq', hr', hs']
  simp only [List.map_cons, List.map_nil, List.cons.injEq, and_true]
  exact ⟨by omega, by omega, by omega⟩

/-! ## The table -/

theorem base64Chars_nodup : base64Chars.Nodup := by
  have h : (base64Chars.map UInt8.toNat).Nodup := by
    rw [base64Chars_toNat]
    decide
  exact h.of_map _

theorem idxOf_getD {table : List UInt8} (h : table.Nodup) {n : Nat} (hn : n < table.length) :
    table.idxOf (table.getD n 0) = n := by
  rw [List.getD_eq_getElem _ _ hn, h.idxOf_getElem]

theorem base64Find_base64Char {i : UInt8} (h : i.toNat < 64) : base64Find (base64Char i) = i := by
  have hidx : base64Chars.idxOf (base64Char i) = i.toNat :=
    idxOf_getD base64Chars_nodup (Nat.lt_of_lt_of_eq h length_base64Chars.symm)
  rw [base64Find, if_pos (base64Char_mem h), hidx, UInt8.ofNat_toNat]

/-- A symbol does not end the loop. -/
def Symbol (c : UInt8) : Prop := c ≠ 61 ∧ isBase64 c = true

theorem symbol_of_mem {c : UInt8} (h : c ∈ base64Chars) : Symbol c := by
  have hall : base64Chars.all (fun c => c ≠ 61 && isBase64 c) = true := by decide
  have hc := List.all_eq_true.mp hall c h
  rw [Bool.and_eq_true, decide_eq_true_iff] at hc
  exact hc

/-! ## The loop -/

section
variable {c : UInt8} {rest group ret : List UInt8} {inLen in_ : Int}

theorem decodeLoop_symbol (hc : Symbol c) (hlen : inLen ≠ -2 ^ 31) (hlen0 : inLen ≠ 0) (hin : in_ ≠ 2 ^ 31 - 1) :
    decodeLoop (c :: rest) inLen in_ group ret =
      if group.length = 3 then decodeLoop rest (inLen - 1) (in_ + 1) [] (ret ++ decodeGroup (group ++ [c]))
      else decodeLoop rest (inLen - 1) (in_ + 1) (group ++ [c]) ret := by
  rw [decodeLoop, if_neg hlen, if_neg (by simp [hlen0, hc.1, hc.2]), if_neg hin]

/-- Symbols that do not fill `char_array_4`. -/
theorem decodeLoop_symbols {symbols : List UInt8} (h : ∀ c ∈ symbols, Symbol c)
    (hgroup : group.length + symbols.length ≤ 3) (hlen : symbols.length ≤ inLen) (hin : 0 ≤ in_)
    (hbound : in_ + symbols.length < 2 ^ 31) :
    decodeLoop (symbols ++ rest) inLen in_ group ret =
      decodeLoop rest (inLen - symbols.length) (in_ + symbols.length) (group ++ symbols) ret := by
  induction symbols generalizing inLen in_ group with
  | nil => simp
  | cons c symbols ih =>
    rw [List.forall_mem_cons] at h
    rw [List.length_cons] at hgroup hlen hbound ⊢
    push_cast at hlen hbound ⊢
    rw [List.cons_append, decodeLoop_symbol h.1 (by omega) (by omega) (by omega), if_neg (by omega),
      ih h.2 (by rw [List.length_append, List.length_singleton]; omega) (by omega) (by omega) (by omega)]
    rw [List.append_assoc, List.singleton_append, sub_sub, add_assoc, add_comm (1 : Int)]

/-- Four symbols of a text that is not at its end. -/
theorem decodeLoop_four {p q r s : UInt8} (h : ∀ c ∈ [p, q, r, s], Symbol c) (hlen : 4 ≤ inLen)
    (hin : 0 ≤ in_) (hbound : in_ + 4 < 2 ^ 31) :
    decodeLoop (p :: q :: r :: s :: rest) inLen in_ [] ret =
      decodeLoop rest (inLen - 4) (in_ + 4) [] (ret ++ decodeGroup [p, q, r, s]) := by
  have hsplit : p :: q :: r :: s :: rest = [p, q, r] ++ s :: rest := rfl
  have hthree : ∀ c ∈ [p, q, r], Symbol c := fun c hc => h c (List.mem_append_left [s] hc)
  have hlast : Symbol s := h s (by simp)
  rw [hsplit, decodeLoop_symbols hthree (by simp) (by simp; omega) hin (by simp; omega),
    decodeLoop_symbol hlast (by simp; omega) (by simp; omega) (by simp; omega), if_pos (by simp)]
  simp only [List.length_cons, List.length_nil]
  rw [show inLen - ((0 + 1 + 1 + 1 : Nat) : Int) - 1 = inLen - 4 by push_cast; omega,
    show in_ + ((0 + 1 + 1 + 1 : Nat) : Int) + 1 = in_ + 4 by push_cast; omega]
  rfl

/-- The padding ends the text, and what has been read of `char_array_4` counts. -/
theorem decodeLoop_padded {symbols : List UInt8} (h : ∀ c ∈ symbols, Symbol c) (hgroup : symbols.length ≤ 3)
    (hlen : symbols.length ≤ inLen) (hin : 0 ≤ in_) (hbound : in_ + symbols.length < 2 ^ 31) :
    decodeLoop (symbols ++ 61 :: rest) inLen in_ [] ret = some (ret ++ decodeGroup symbols) := by
  rw [decodeLoop_symbols h (by rw [List.length_nil]; omega) hlen hin hbound, decodeLoop, if_neg (by omega),
    if_pos (Or.inr (Or.inl rfl)), List.nil_append]

end

/-- The first symbols of three bytes give the first of these back. -/
theorem decodeGroup_charArray4 (a b c : UInt8) :
    decodeGroup (((charArray4 a b c).take 2).map base64Char) = [a] ∧
    decodeGroup (((charArray4 a b c).take 3).map base64Char) = [a, b] ∧
    decodeGroup ((charArray4 a b c).map base64Char) = [a, b, c] := by
  have hfind : ∀ i ∈ charArray4 a b c, base64Find (base64Char i) = i := fun i hi =>
    base64Find_base64Char (toNat_lt_of_mem_charArray4 hi)
  generalize hgroup : charArray4 a b c = group at hfind
  obtain ⟨p, q, r, s, rfl⟩ : ∃ p q r s, group = [p, q, r, s] := ⟨_, _, _, _, hgroup.symm⟩
  have hround := charArray3_of_charArray4 hgroup
  simp only [List.forall_mem_cons] at hfind
  obtain ⟨hp, hq, hr, hs, -⟩ := hfind
  simp only [charArray3, List.cons.injEq, and_true] at hround
  obtain ⟨ha, hb, hc⟩ := hround
  simp [decodeGroup, charArray3, hp, hq, hr, hs, ha, hb, hc]

theorem mem_of_charArray4 {a b c x : UInt8} (h : x ∈ (charArray4 a b c).map base64Char) : x ∈ base64Chars := by
  obtain ⟨i, hi, rfl⟩ := List.mem_map.mp h
  exact base64Char_mem (toNat_lt_of_mem_charArray4 hi)

theorem mem_of_take_charArray4 {a b c x : UInt8} {n : Nat} (h : x ∈ ((charArray4 a b c).take n).map base64Char) :
    x ∈ base64Chars := by
  rw [List.map_take] at h
  exact mem_of_charArray4 (List.mem_of_mem_take h)

/-- A text whose size is an `int` is read as what has been encoded. -/
theorem decodeLoop_base64Loop : ∀ (bytes : List UInt8) (in_ : Int) (ret : List UInt8), 0 ≤ in_ →
    in_ + (base64Loop bytes).length < 2 ^ 31 →
    decodeLoop (base64Loop bytes) (base64Loop bytes).length in_ [] ret = some (ret ++ bytes)
  | [], in_, ret, _, _ => by simp [base64Loop, decodeLoop, decodeGroup]
  | [a], in_, ret, hin, hbound => by
    have hlen : (((charArray4 a 0 0).take 2).map base64Char).length = 2 := rfl
    have hsize : (base64Loop [a]).length = 4 := rfl
    rw [hsize] at hbound ⊢
    rw [base64Loop, decodeLoop_padded (fun x hx => symbol_of_mem (mem_of_take_charArray4 hx)) (by omega) (by omega) hin
      (by omega), (decodeGroup_charArray4 a 0 0).1]
  | [a, b], in_, ret, hin, hbound => by
    have hlen : (((charArray4 a b 0).take 3).map base64Char).length = 3 := rfl
    have hsize : (base64Loop [a, b]).length = 4 := rfl
    rw [hsize] at hbound ⊢
    rw [base64Loop, decodeLoop_padded (fun x hx => symbol_of_mem (mem_of_take_charArray4 hx)) (by omega) (by omega) hin
      (by omega), (decodeGroup_charArray4 a b 0).2.1]
  | a :: b :: c :: rest, in_, ret, hin, hbound => by
    have hsymbols : ∀ x ∈ (charArray4 a b c).map base64Char, Symbol x := fun x hx =>
      symbol_of_mem (mem_of_charArray4 hx)
    have hgroup := (decodeGroup_charArray4 a b c).2.2
    have hsize : ((base64Loop (a :: b :: c :: rest)).length : Int) = (base64Loop rest).length + 4 := by
      rw [base64Loop, List.length_append]
      push_cast
      rw [add_comm]
      rfl
    rw [hsize] at hbound ⊢
    rw [base64Loop]
    refine (decodeLoop_four hsymbols (by omega) hin (by omega)).trans ?_
    rw [add_sub_cancel_right]
    refine (decodeLoop_base64Loop rest (in_ + 4) _ (by omega) (by omega)).trans ?_
    refine (congrArg (fun group => some (ret ++ group ++ rest)) hgroup).trans ?_
    simp

/-! ## Sizes that are no `int` -/

theorem length_base64Loop (bytes : List UInt8) : (base64Loop bytes).length = 4 * ((bytes.length + 2) / 3) := by
  induction bytes using base64Loop.induct with
  | case1 a b c rest ih =>
    rw [base64Loop, List.length_append, ih, List.length_map]
    simp only [charArray4, List.length_cons, List.length_nil]
    omega
  | case2 a b => simp [base64Loop, charArray4]
  | case3 a => simp [base64Loop, charArray4]
  | case4 => rfl

/-- Symbols, and padding behind them. -/
theorem base64Loop_eq (bytes : List UInt8) : ∃ symbols pad, base64Loop bytes = symbols ++ List.replicate pad 61 ∧
    (∀ c ∈ symbols, c ∈ base64Chars) ∧ pad ≤ 2 := by
  induction bytes using base64Loop.induct with
  | case1 a b c rest ih =>
    obtain ⟨symbols, pad, heq, hsymbols, hpad⟩ := ih
    refine ⟨(charArray4 a b c).map base64Char ++ symbols, pad, ?_, ?_, hpad⟩
    · rw [base64Loop, heq, List.append_assoc]
    · exact List.forall_mem_append.mpr ⟨fun x hx => mem_of_charArray4 hx, hsymbols⟩
  | case2 a b => exact ⟨_, 1, rfl, fun x hx => mem_of_take_charArray4 hx, by omega⟩
  | case3 a => exact ⟨_, 2, rfl, fun x hx => mem_of_take_charArray4 hx, by omega⟩
  | case4 => exact ⟨[], 0, rfl, fun x hx => absurd hx List.not_mem_nil, by omega⟩

/-- What `base64_encode` promises: the alphabet, and padding to a multiple of four. -/
def Base64Text (text : List UInt8) : Prop :=
  ∃ symbols pad, text = symbols ++ List.replicate pad 61 ∧ (∀ c ∈ symbols, c ∈ base64Chars) ∧ pad ≤ 2 ∧
    text.length % 4 = 0

theorem base64Encode_text (bytes : List UInt8) (inLen : UInt32) : Base64Text (base64Encode bytes inLen) := by
  obtain ⟨symbols, pad, heq, hsymbols, hpad⟩ := base64Loop_eq (bytes.take inLen.toNat)
  refine ⟨symbols, pad, heq, hsymbols, hpad, ?_⟩
  rw [base64Encode, length_base64Loop]
  exact Nat.mul_mod_right 4 _

theorem decodeLoop_min (text group ret : List UInt8) (in_ : Int) : decodeLoop text (-2 ^ 31) in_ group ret = none := by
  cases text with
  | nil => exact if_pos rfl
  | cons c rest => rw [decodeLoop, if_pos rfl]

/-- A size that reads as a negative number: `in_len` is counted down until it overflows. -/
theorem decodeLoop_negative {symbols padding : List UInt8} (h : ∀ c ∈ symbols, Symbol c) {inLen in_ : Int}
    {group ret : List UInt8} (hneg : inLen < 0) (hmin : -2 ^ 31 ≤ inLen) (hlong : inLen + 2 ^ 31 ≤ symbols.length) :
    decodeLoop (symbols ++ padding) inLen in_ group ret = none := by
  induction symbols generalizing inLen in_ group ret with
  | nil =>
    rw [List.length_nil] at hlong
    obtain rfl : inLen = -2 ^ 31 := by omega
    exact decodeLoop_min _ _ _ _
  | cons c symbols ih =>
    rw [List.forall_mem_cons] at h
    rw [List.length_cons] at hlong
    push_cast at hlong
    by_cases hover : inLen = -2 ^ 31
    · rw [hover]
      exact decodeLoop_min _ _ _ _
    · by_cases hin : in_ = 2 ^ 31 - 1
      · rw [List.cons_append, decodeLoop, if_neg hover, if_neg (by simp [hneg.ne, h.1.1, h.1.2]), if_pos hin]
      · rw [List.cons_append, decodeLoop_symbol h.1 hover hneg.ne hin]
        split <;> exact ih h.2 (by omega) (by omega) (by omega)

theorem length_decodeGroup_le (group : List UInt8) : (decodeGroup group).length ≤ group.length - 1 := by
  rw [decodeGroup, List.length_take]
  exact Nat.min_le_left _ _

/-- No more is read than `in_len` says, and of four symbols three bytes. -/
theorem length_decodeLoop_le {text : List UInt8} {inLen in_ : Int} {group ret result : List UInt8} (hlen : 0 ≤ inLen)
    (hgroup : group.length ≤ 3) (h : decodeLoop text inLen in_ group ret = some result) :
    4 * (result.length : Int) ≤ 4 * ret.length + 3 * (group.length + inLen) := by
  have hstop : ∀ {group ret : List UInt8} {inLen : Int}, 0 ≤ inLen → group.length ≤ 3 →
      4 * ((ret ++ decodeGroup group).length : Int) ≤ 4 * ret.length + 3 * (group.length + inLen) := by
    intro group ret inLen hlen hgroup
    have hle := length_decodeGroup_le group
    rw [List.length_append]
    omega
  induction text generalizing inLen in_ group ret with
  | nil =>
    rw [decodeLoop, if_neg (by omega)] at h
    cases h
    exact hstop hlen hgroup
  | cons c rest ih =>
    rw [decodeLoop, if_neg (by omega)] at h
    split at h
    · cases h
      exact hstop hlen hgroup
    · next hgo =>
      have hpos : inLen ≠ 0 := fun h0 => hgo (Or.inl h0)
      split at h
      · cases h
      · split at h
        · next hfull =>
          have hle := ih (by omega) (show ([] : List UInt8).length ≤ 3 from Nat.zero_le 3) h
          have hgroup' := length_decodeGroup_le (group ++ [c])
          rw [List.length_append, List.length_singleton] at hgroup'
          rw [List.length_append, List.length_nil] at hle
          omega
        · next hfree =>
          have hle := ih (by omega) (by rw [List.length_append, List.length_singleton]; omega) h
          rw [List.length_append, List.length_singleton] at hle
          omega

/-! ## Encoding and decoding -/

theorem bmod_of_lt {n : Nat} (h : n < 2 ^ 31) : Int.bmod n (2 ^ 32) = n := by
  rw [Int.bmod_def]
  omega

/-- What is read is about as long as what has been encoded, and shorter if the text has `2 ^ 31` bytes or more. -/
theorem length_decode_le {bytes result : List UInt8} (hsize : bytes.length < 2 ^ 32)
    (h : base64Decode (base64Loop bytes) = some result) :
    result.length ≤ bytes.length + 2 ∧ (2 ^ 31 ≤ (base64Loop bytes).length → result.length < bytes.length) := by
  have hlength := length_base64Loop bytes
  have hbound : ∀ inLen : Int, 0 ≤ inLen → Int.bmod (base64Loop bytes).length (2 ^ 32) = inLen →
      4 * (result.length : Int) ≤ 3 * inLen := by
    intro inLen hlen hbmod
    rw [base64Decode, hbmod] at h
    have hle := length_decodeLoop_le hlen (show ([] : List UInt8).length ≤ 3 from Nat.zero_le 3) h
    simp only [List.length_nil] at hle
    omega
  by_cases hint : (base64Loop bytes).length < 2 ^ 31
  · have hle := hbound _ (Int.natCast_nonneg _) (bmod_of_lt hint)
    exact ⟨by omega, fun hlong => absurd hint (Nat.not_lt.mpr hlong)⟩
  · have hbmod : Int.bmod (base64Loop bytes).length (2 ^ 32) = (base64Loop bytes).length - 2 ^ 32 := by
      rw [Int.bmod_def]
      omega
    by_cases hwrap : (base64Loop bytes).length < 2 ^ 32
    · obtain ⟨symbols, pad, heq, hsymbols, hpad⟩ := base64Loop_eq bytes
      have htotal : (base64Loop bytes).length = symbols.length + pad := by
        rw [heq, List.length_append, List.length_replicate]
      rw [base64Decode, hbmod, htotal, heq, decodeLoop_negative (fun c hc => symbol_of_mem (hsymbols c hc)) (by omega)
        (by omega) (by omega)] at h
      cases h
    · have hle := hbound _ (by omega) hbmod
      exact ⟨by omega, fun _ => by omega⟩

/-- `base64_decode` gives back what `base64_encode` got exactly as long as the text is shorter than `2 ^ 31` bytes. -/
theorem decode_encode_iff (bytes : List UInt8) :
    base64Decode (base64Encode bytes (UInt32.ofNat bytes.length)) = some bytes ↔ bytes.length < 1610612734 := by
  have hkept : (UInt32.ofNat bytes.length).toNat = bytes.length % 2 ^ 32 := rfl
  rw [base64Encode, hkept]
  by_cases hsize : bytes.length < 2 ^ 32
  · rw [Nat.mod_eq_of_lt hsize, List.take_length]
    have hlength := length_base64Loop bytes
    constructor
    · intro h
      by_contra hlong
      exact absurd ((length_decode_le hsize h).2 (by omega)) (Nat.lt_irrefl _)
    · intro hshort
      rw [base64Decode, bmod_of_lt (by omega)]
      exact decodeLoop_base64Loop bytes 0 [] (Int.le_refl 0) (by omega)
  · -- the encoder has read the length modulo `2 ^ 32`
    refine iff_of_false (fun h => ?_) (by omega)
    have htake : (bytes.take (bytes.length % 2 ^ 32)).length = bytes.length % 2 ^ 32 := by
      rw [List.length_take]
      omega
    have hle := (length_decode_le (by rw [htake]; omega) h).1
    omega

end PostfixEdm
