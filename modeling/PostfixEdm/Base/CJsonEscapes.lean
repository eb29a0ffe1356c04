import PostfixEdm.Base.CJsonComplete

/-!
# Strings in ASCII

A string whose characters above ASCII are written as `\u` escapes, those above `U+FFFF` as surrogate pairs.

* `Json.CharText`, `Json.AsciiText` : such a text and its characters;
* `Json.AsciiText.parse` : what the parser makes of it;
* `parse_ascii_iff` : when that is the string.
-/

namespace PostfixEdm

open Json

variable {δ : Type} {dbl : CDouble δ} {units : List UInt8 → CodeUnits}

namespace Json

/-- A character, and a text of it in ASCII. -/
inductive CharText : List UInt8 → Char → Prop
  | plain (b : UInt8) (h : 31 < b ∧ b < 128 ∧ b ≠ 34 ∧ b ≠ 92) : CharText [b] (Char.ofNat b.toNat)
  | escape (e b : UInt8) (h : (e, b) ∈ escapes) : CharText [92, e] (Char.ofNat b.toNat)
  | unit {h₁ h₂ h₃ h₄ : UInt8} (c : Char) (h : Hex4 h₁ h₂ h₃ h₄ c.toNat) (h0 : c.toNat ≠ 0) :
      CharText [92, 117, h₁, h₂, h₃, h₄] c
  | pair {h₁ h₂ h₃ h₄ l₁ l₂ l₃ l₄ : UInt8} (c : Char) (hc : 0x10000 ≤ c.toNat)
      (hhi : Hex4 h₁ h₂ h₃ h₄ (0xD800 + (c.toNat - 0x10000) / 0x400))
      (hlo : Hex4 l₁ l₂ l₃ l₄ (0xDC00 + (c.toNat - 0x10000) % 0x400)) :
      CharText [92, 117, h₁, h₂, h₃, h₄, 92, 117, l₁, l₂, l₃, l₄] c

inductive AsciiText : List UInt8 → List Char → Prop
  | nil : AsciiText [] []
  | cons {t ts : List UInt8} {c : Char} {cs : List Char} (h : CharText t c) (hs : AsciiText ts cs) :
      AsciiText (t ++ ts) (c :: cs)

end Json

/-! ## Characters -/

theorem toNat_ascii {b : UInt8} (h : b < 128) : (Char.ofNat b.toNat).toNat = b.toNat := by
  have hlt : b.toNat < 128 := UInt8.lt_iff_toNat_lt.mp h
  rw [Char.ofNat, dif_pos (Or.inl (by omega))]
  rfl

theorem utf8EncodeChar_ascii {b : UInt8} (h : b < 128) : String.utf8EncodeChar (Char.ofNat b.toNat) = [b] := by
  have hlt : b.toNat < 128 := UInt8.lt_iff_toNat_lt.mp h
  have hval : (Char.ofNat b.toNat).val.toNat = b.toNat := toNat_ascii h
  unfold String.utf8EncodeChar
  rw [hval, if_pos (by omega), UInt8.ofNat_toNat]

theorem nul_notMem_utf8EncodeChar {c : Char} (h : c.toNat ≠ 0) : 0 ∉ String.utf8EncodeChar c := by
  have hbyte : ∀ n : Nat, 0 < n → n < 256 → (0 : UInt8) ≠ UInt8.ofNat n := by
    intro n hpos hlt heq
    have := congrArg UInt8.toNat heq
    rw [UInt8.toNat_ofNat', Nat.mod_eq_of_lt hlt] at this
    exact absurd this (by simp only [UInt8.reduceToNat]; omega)
  have hc : c.val.toNat ≠ 0 := h
  have hlt : c.val.toNat < 0x110000 := char_lt c
  unfold String.utf8EncodeChar
  dsimp only
  split_ifs
  all_goals
    simp only [List.mem_cons, List.not_mem_nil, or_false, not_or]
    repeat' apply And.intro
    all_goals exact hbyte _ (by omega) (by omega)

theorem Json.CharText.ne_zero {t : List UInt8} {c : Char} (h : CharText t c) : c.toNat ≠ 0 := by
  cases h with
  | plain b hb =>
    obtain ⟨hlo, hascii, -⟩ := hb
    rw [toNat_ascii hascii]
    exact Nat.ne_of_gt (Nat.zero_lt_of_lt (UInt8.lt_iff_toNat_lt.mp hlo))
  | escape e b hmem =>
    have hall : ∀ p ∈ escapes, (Char.ofNat p.2.toNat).toNat ≠ 0 := List.all_iff_forall_prop.mp (by decide)
    exact hall _ hmem
  | unit c hhex h0 => exact h0
  | pair c hc => omega

theorem readPair_of_lt {c : Char} (h : c.toNat < 0x10000) : readPair c = c := (readPair_eq_iff c).mpr (Or.inl h)

theorem Json.CharText.parse {t : List UInt8} {c : Char} (h : CharText t c) (units : CodeUnits) (rest : List UInt8) :
    ∃ units', parseChar units (t ++ rest) = .ok (some (String.utf8EncodeChar (readPair c), units'), rest) := by
  cases h with
  | plain b hb =>
    have hascii : b < 128 := hb.2.1
    have hlt : (Char.ofNat b.toNat).toNat < 0x10000 := by
      rw [toNat_ascii hascii]
      exact Nat.lt_trans b.toNat_lt (by decide)
    rw [readPair_of_lt hlt, utf8EncodeChar_ascii hascii]
    exact (StringChar.plain b ⟨hb.1, hb.2.2⟩).parse units rest
  | escape e b hmem =>
    have hall : ∀ p ∈ escapes, p.2 < 128 := List.all_iff_forall_prop.mp (by decide)
    have hascii : b < 128 := hall _ hmem
    have hlt : (Char.ofNat b.toNat).toNat < 0x10000 := by
      rw [toNat_ascii hascii]
      exact Nat.lt_trans b.toNat_lt (by decide)
    rw [readPair_of_lt hlt, utf8EncodeChar_ascii hascii]
    exact (StringChar.escape e b hmem).parse units rest
  | unit c hhex h0 =>
    rw [readPair_of_lt hhex.lt]
    exact parseChar_unit hhex h0 units rest
  | pair c hc hhi hlo =>
    have hlt := char_lt c
    exact parseChar_pair (by omega) hhi hlo (toNat_readPair hc) units rest

/-- The first loop counts at least what is written for a character. -/
theorem Json.CharText.stringSize {t : List UInt8} {c : Char} (h : CharText t c) {rest : List UInt8} {len : Nat}
    (hrest : PostfixEdm.stringSize rest = .ok len) :
    ∃ len', PostfixEdm.stringSize (t ++ rest) = .ok len' ∧
      (String.utf8EncodeChar (readPair c)).length + len ≤ len' := by
  have hfour := length_utf8EncodeChar_le (readPair c)
  have hone : ∀ b : UInt8, b < 128 → c = Char.ofNat b.toNat → (String.utf8EncodeChar (readPair c)).length = 1 := by
    intro b hb hc
    have hlt : c.toNat < 0x10000 := by
      rw [hc, toNat_ascii hb]
      exact Nat.lt_trans b.toNat_lt (by decide)
    rw [readPair_of_lt hlt, hc, utf8EncodeChar_ascii hb]
    rfl
  cases h with
  | plain b hb =>
    refine ⟨len + 1, stringSize_plain hb.2.2.2 hb.2.2.1 hrest, ?_⟩
    rw [hone b hb.2.1 rfl, Nat.add_comm]
  | escape e b hmem =>
    have hall : ∀ p ∈ escapes, p.2 < 128 := List.all_iff_forall_prop.mp (by decide)
    refine ⟨len + 1, stringSize_escape e hrest, ?_⟩
    rw [hone b (hall _ hmem) rfl, Nat.add_comm]
  | unit c hhex h0 => exact ⟨len + 5, hhex.stringSize hrest, by omega⟩
  | pair c hc hhi hlo => exact ⟨len + 5 + 5, hhi.stringSize (hlo.stringSize hrest), by omega⟩

theorem Json.CharText.length_pos {t : List UInt8} {c : Char} (h : CharText t c) : 0 < t.length := by
  cases h with
  | plain | escape | unit | pair => exact Nat.succ_pos _

/-! ## Strings -/

theorem Json.AsciiText.parseChars {t : List UInt8} {cs : List Char} (h : AsciiText t cs) (fuel : Nat)
    (hfuel : t.length < fuel) (units : CodeUnits) (rest : List UInt8) :
    PostfixEdm.parseChars fuel units (t ++ 34 :: rest) =
      .ok ((cs.map readPair).flatMap String.utf8EncodeChar, rest) := by
  induction h generalizing fuel units with
  | nil =>
    obtain ⟨fuel, rfl⟩ := Nat.exists_eq_succ_of_ne_zero (Nat.ne_of_gt hfuel)
    rfl
  | @cons t ts c cs h _ ih =>
    obtain ⟨fuel, rfl⟩ := Nat.exists_eq_succ_of_ne_zero (Nat.ne_of_gt (Nat.lt_of_le_of_lt (Nat.zero_le _) hfuel))
    obtain ⟨units', hchar⟩ := h.parse units (ts ++ 34 :: rest)
    have hlen := h.length_pos
    have hrest := ih fuel (by rw [List.length_append] at hfuel; omega) units'
    rw [PostfixEdm.parseChars, List.append_assoc, hchar]
    simp only [hrest, Except.map, List.map_cons, List.flatMap_cons]

theorem Json.AsciiText.stringSize {t : List UInt8} {cs : List Char} (h : AsciiText t cs) (rest : List UInt8) :
    ∃ len, PostfixEdm.stringSize (t ++ 34 :: rest) = .ok len ∧
      ((cs.map readPair).flatMap String.utf8EncodeChar).length ≤ len := by
  induction h with
  | nil => exact ⟨0, rfl, Nat.le_refl 0⟩
  | @cons t ts c cs h _ ih =>
    obtain ⟨len, hlen, hle⟩ := ih
    obtain ⟨len', hlen', hle'⟩ := h.stringSize hlen
    refine ⟨len', ?_, ?_⟩
    · rwa [List.append_assoc]
    · rw [List.map_cons, List.flatMap_cons, List.length_append]
      omega

theorem Json.AsciiText.parse {t : List UInt8} {cs : List Char} (h : AsciiText t cs) :
    cJsonParse dbl units (34 :: t ++ [34]) =
      .ok (.string (.ofBytes ((cs.map readPair).flatMap String.utf8EncodeChar))) := by
  have hskip : skip (34 :: t ++ [34]) = 34 :: (t ++ [34]) := skip_cons (by decide) _
  have hchars := h.parseChars ((t ++ [34]).length + 1) (by rw [List.length_append]; omega) (units (t ++ [34])) []
  obtain ⟨len, hsize, hle⟩ := h.stringSize []
  rw [cJsonParse, hskip, parseValue_string, parseString, hsize, hchars]
  dsimp only
  rw [if_pos hle]
  rfl

theorem flatMap_utf8EncodeChar_inj {cs cs' : List Char}
    (h : cs.flatMap String.utf8EncodeChar = cs'.flatMap String.utf8EncodeChar) : cs = cs' := by
  have hbytes : (String.ofList cs).toByteArray = (String.ofList cs').toByteArray := by
    simp only [String.toByteArray_ofList, List.utf8Encode, h]
  exact String.ofList_injective (String.toByteArray_inj.mp hbytes)

theorem nul_notMem_flatMap {cs : List Char} (h : ∀ c ∈ cs, c.toNat ≠ 0) : 0 ∉ cs.flatMap String.utf8EncodeChar := by
  rw [List.mem_flatMap]
  rintro ⟨c, hc, hmem⟩
  exact nul_notMem_utf8EncodeChar (h c hc) hmem

theorem Json.AsciiText.ne_zero {t : List UInt8} {cs : List Char} (h : AsciiText t cs) : ∀ c ∈ cs, c.toNat ≠ 0 := by
  induction h with
  | nil => exact fun _ hc => absurd hc List.not_mem_nil
  | cons h _ ih => exact List.forall_mem_cons.mpr ⟨h.ne_zero, ih⟩

theorem readPair_ne_zero {c : Char} (h : c.toNat ≠ 0) : (readPair c).toNat ≠ 0 := by
  by_cases hc : c.toNat < 0x10000
  · rwa [readPair_of_lt hc]
  · rw [toNat_readPair (Nat.le_of_not_lt hc)]
    exact Nat.ne_of_gt (Nat.lt_of_lt_of_le (by decide) Nat.left_le_or)

theorem ofBytes_inj {s t : List UInt8} (hs : 0 ∉ s) (ht : 0 ∉ t) (h : CString.ofBytes s = .ofBytes t) : s = t := by
  have hbytes : ∀ u : List UInt8, (hu : 0 ∉ u) → (CString.ofBytes u).bytes = u := fun u hu =>
    congrArg CString.bytes (ofBytes_bytes ⟨u, hu⟩)
  rw [← hbytes s hs, ← hbytes t ht, h]

/-- A string in ASCII is read as it is if and only if its surrogate pairs are those of the odd planes. -/
theorem parse_ascii_iff {t : List UInt8} {cs : List Char} (h : AsciiText t cs) :
    cJsonParse dbl units (34 :: t ++ [34]) = .ok (.string (.ofBytes (cs.flatMap String.utf8EncodeChar))) ↔
      ∀ c ∈ cs, c.toNat < 0x10000 ∨ c.toNat / 0x10000 % 2 = 1 := by
  have hne := h.ne_zero
  have hread : ∀ c ∈ cs.map readPair, c.toNat ≠ 0 := by
    intro c hc
    obtain ⟨c, hmem, rfl⟩ := List.mem_map.mp hc
    exact readPair_ne_zero (hne c hmem)
  have hmap : cs.map readPair = cs ↔ ∀ c ∈ cs, readPair c = c := by
    conv_lhs => rw [← List.map_id' cs, List.map_map]
    exact List.map_inj_left
  rw [h.parse]
  constructor
  · intro heq
    have hbytes := ofBytes_inj (nul_notMem_flatMap hread) (nul_notMem_flatMap hne)
      (JsonItem.string.inj (Except.ok.inj heq))
    intro c hc
    exact (readPair_eq_iff c).mp (hmap.mp (flatMap_utf8EncodeChar_inj hbytes) c hc)
  · intro hplanes
    rw [hmap.mpr fun c hc => (readPair_eq_iff c).mpr (hplanes c hc)]

/-- `U+20000` is read as another character. -/
theorem parse_ascii_iff_plane_two : cJsonParse intDouble (fun _ => ⟨0, 0⟩)
    [34, 92, 117, 68, 56, 52, 48, 92, 117, 68, 67, 48, 48, 34] ≠
      .ok (.string (.ofBytes ([Char.ofNat 0x20000].flatMap String.utf8EncodeChar))) := by
  have hhi : Hex4 68 56 52 48 (0xD800 + ((Char.ofNat 0x20000).toNat - 0x10000) / 0x400) :=
    ⟨13, 8, 4, 0, Or.inr rfl, Or.inl rfl, Or.inl rfl, Or.inl rfl, by decide⟩
  have hlo : Hex4 68 67 48 48 (0xDC00 + ((Char.ofNat 0x20000).toNat - 0x10000) % 0x400) :=
    ⟨13, 12, 0, 0, Or.inr rfl, Or.inr rfl, Or.inl rfl, Or.inl rfl, by decide⟩
  have htext : AsciiText [92, 117, 68, 56, 52, 48, 92, 117, 68, 67, 48, 48] [Char.ofNat 0x20000] :=
    .cons (.pair _ (by decide) hhi hlo) .nil
  intro heq
  have hplanes := (parse_ascii_iff htext).mp heq
  exact absurd (hplanes _ (List.mem_singleton_self _)) (by decide)

end PostfixEdm
