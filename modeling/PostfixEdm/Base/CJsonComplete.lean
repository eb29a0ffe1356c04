import PostfixEdm.Base.CJsonUnicode
import Mathlib.Data.Bool.AllAny

/-!
# What `cJSON_Parse` reads

* `parseNumber_printNumber`, `Json.Chars.parseString` : numbers and strings, whatever follows;
* `JsonItem.parse` : a text of an item is read as that item;
* `cJsonParse_text` : so is the text with white space in front, whatever stops it;
* `cJsonParse_value`, `cJsonParse_print` : a text is one of a single item; what the printer writes is read back.
-/

namespace PostfixEdm

open Json

variable {δ : Type} {dbl : CDouble δ} {units : List UInt8 → CodeUnits}

/-! ## White space -/

theorem skip_ws {w : List UInt8} (h : IsWs w) (text : List UInt8) : skip (w ++ text) = skip text := by
  unfold skip
  rw [List.dropWhile_append_of_pos]
  intro b hb
  rcases h b hb with rfl | rfl | rfl | rfl <;> decide

theorem skip_cons {b : UInt8} (h : 32 < b) (text : List UInt8) : skip (b :: text) = b :: text := by
  have : ¬ b ≤ 32 := UInt8.not_le.mpr h
  simp [skip, this]

theorem skip_skip (text : List UInt8) : skip (skip text) = skip text := by
  simp [skip, List.dropWhile_idempotent]

/-! ## Numbers -/

/-- What follows does not go on with a number. -/
def Stops (rest : List UInt8) : Prop := ∀ b ∈ rest.head?, ¬ IsDigit b ∧ b ≠ 46 ∧ b ≠ 101 ∧ b ≠ 69

theorem stops_nil : Stops [] := by
  intro b hb
  cases hb

theorem stops_ws {w : List UInt8} (h : IsWs w) {b : UInt8} (hb : b ∈ ([44, 93, 125] : List UInt8)) (rest : List UInt8) :
    Stops (w ++ b :: rest) := by
  have hall : ∀ c ∈ ([44, 93, 125] ++ [32, 9, 10, 13] : List UInt8), ¬ IsDigit c ∧ c ≠ 46 ∧ c ≠ 101 ∧ c ≠ 69 :=
    List.all_iff_forall_prop.mp (by decide)
  intro c hc
  apply hall
  cases w with
  | nil =>
    cases hc
    exact List.mem_append_left [32, 9, 10, 13] hb
  | cons d w =>
    cases hc
    have := h c List.mem_cons_self
    exact List.mem_append_right [44, 93, 125] (by simpa using this)

theorem le_foldl_digits (ds : List Nat) (a : Nat) : a ≤ ds.foldl (fun a d => a * 10 + d) a := by
  induction ds generalizing a with
  | nil => exact Nat.le_refl a
  | cons d ds ih => exact Nat.le_trans (by omega) (ih (a * 10 + d))

theorem isDigit_digit {d : Nat} (h : d < 10) : IsDigit (48 + d).toUInt8 := by
  unfold IsDigit
  rw [toNat_digit h]
  omega

variable (dbl) in
theorem parseDigits_map {ds : List Nat} (hds : ∀ d ∈ ds, d < 10) {a : Nat}
    (hle : ds.foldl (fun a d => a * 10 + d) a ≤ 2 ^ 53) {rest : List UInt8} (hrest : Stops rest) :
    parseDigits dbl (dbl.ofInt a) (ds.map (fun d => (48 + d).toUInt8) ++ rest) =
      (dbl.ofInt (ds.foldl (fun a d => a * 10 + d) a : Nat), ds.length, rest) := by
  induction ds generalizing a with
  | nil =>
    cases rest with
    | nil => simp [parseDigits]
    | cons b rest =>
      have hno : ¬ IsDigit b := (hrest b rfl).1
      simp [parseDigits, hno]
  | cons d ds ih =>
    have hd : d < 10 := hds d List.mem_cons_self
    have hnext := dbl.next_ofInt a d hd (Nat.le_trans (le_foldl_digits ds (a * 10 + d)) hle)
    have := ih (fun x hx => hds x (List.mem_cons_of_mem _ hx)) (a := a * 10 + d) hle
    rw [List.map_cons, List.cons_append, parseDigits, if_pos (isDigit_digit hd), hnext, this]
    rfl

/-- The digits of a number that is not zero begin with one that is not. -/
theorem decimal_pos {n : Nat} (hn : n ≠ 0) : ∃ d ds, d ≠ 0 ∧ (∀ x ∈ d :: ds, x < 10) ∧
    decimal n = (d :: ds).map (fun d => (48 + d).toUInt8) ∧ (d :: ds).foldl (fun a d => a * 10 + d) 0 = n := by
  obtain ⟨ds, hne, hlt, heq, hval⟩ := decimal_digits n
  obtain ⟨d, ds, rfl⟩ := List.exists_cons_of_ne_nil hne
  refine ⟨d, ds, ?_, hlt, heq, hval⟩
  rintro rfl
  have hne' : Nat.digits 10 n ≠ [] := Nat.digits_ne_nil_iff_ne_zero.mpr hn
  have hlast := Nat.getLast_digit_ne_zero 10 hn
  have hhead : (decimal n).head? = some (48 + (Nat.digits 10 n).getLast hne').toUInt8 := by
    rw [decimal, if_neg hn, List.head?_map, List.head?_reverse, List.getLast?_eq_some_getLast hne']
    rfl
  rw [heq] at hhead
  have hdigit := congrArg UInt8.toNat (Option.some.inj hhead)
  rw [toNat_digit (by decide), toNat_digit (Nat.digits_lt_base (by decide) (List.getLast_mem hne'))] at hdigit
  exact hlast (by omega)

variable (dbl) in
theorem parseInteger_decimal {n : Nat} (hn : n ≤ 2 ^ 53) {rest : List UInt8} (hrest : Stops rest) :
    parseInteger dbl (decimal n ++ rest) = (dbl.ofInt n, rest) := by
  have hno : ∀ b ∈ rest.head?, ¬ (49 ≤ b ∧ b ≤ 57) := by
    rintro b hb ⟨hlo, hhi⟩
    exact (hrest b hb).1 ⟨Nat.le_of_succ_le hlo, hhi⟩
  by_cases h0 : n = 0
  · subst h0
    unfold parseInteger
    have hfirst : rest.head?.any (fun b => decide (49 ≤ b) && decide (b ≤ 57)) = false := by
      cases hhead : rest.head? with
      | none => rfl
      | some b => simpa using hno b hhead
    simp [decimal, hfirst]
  · obtain ⟨d, ds, hd, hlt, heq, hval⟩ := decimal_pos h0
    have hd10 : d < 10 := hlt d List.mem_cons_self
    have hdigits := parseDigits_map dbl hlt (a := 0) (by rw [hval]; exact hn) hrest
    have h48 : (48 + d).toUInt8 ≠ 48 := by
      intro h
      have := congrArg UInt8.toNat h
      rw [toNat_digit hd10] at this
      exact hd (by simpa using this)
    have hrange : 49 ≤ (48 + d).toUInt8 ∧ (48 + d).toUInt8 ≤ 57 := by
      rw [UInt8.le_iff_toNat_le, UInt8.le_iff_toNat_le, toNat_digit hd10]
      simp only [UInt8.reduceToNat]
      omega
    rw [hval] at hdigits
    unfold parseInteger
    rw [heq]
    simp only [List.map_cons, List.cons_append, List.head?_cons, Option.some.injEq, if_neg h48, Option.any_some,
      decide_eq_true hrange, if_true]
    exact congrArg (fun p : δ × Nat × List UInt8 => (p.1, p.2.2)) hdigits

theorem parseFraction_stops (n : δ) {rest : List UInt8} (hrest : Stops rest) :
    parseFraction dbl n rest = (n, 0, rest) := by
  unfold parseFraction
  split
  · exact absurd rfl (hrest 46 rfl).2.1
  · rfl

theorem parseExponent_stops {rest : List UInt8} (hrest : Stops rest) : parseExponent rest = (0, rest) := by
  cases rest with
  | nil => rfl
  | cons b rest =>
    obtain ⟨-, -, h101, h69⟩ := hrest b rfl
    exact if_neg (not_or.mpr ⟨h101, h69⟩)

variable (dbl) in
/-- An integer of 53 bits is read back. -/
theorem parseNumber_printNumber {n : Int} (hn : n.natAbs < 2 ^ 53) {rest : List UInt8} (hrest : Stops rest) :
    parseNumber dbl (printNumber n ++ rest) = (dbl.ofInt n, rest) := by
  have hinteger := parseInteger_decimal dbl (Nat.le_of_lt hn) hrest
  have hpos := dbl.scale_ofNat n.natAbs (Nat.le_of_lt hn)
  have hsigned := dbl.scale_neg n.natAbs
  obtain ⟨b, text, hcons, hdigit⟩ := exists_cons_decimal n.natAbs
  unfold parseNumber printNumber
  rw [hcons] at hinteger ⊢
  by_cases hneg : n < 0
  · have habs : -(n.natAbs : Int) = n := by omega
    have hscale := hsigned (by omega) (Nat.le_of_lt hn)
    rw [habs] at hscale
    generalize (n.natAbs : Int) = m at hinteger hscale
    simp_rw [if_pos hneg, List.singleton_append, List.cons_append, List.head?_cons, List.tail_cons, ← List.cons_append,
      decide_true, if_true, hinteger, parseFraction_stops _ hrest, parseExponent_stops hrest, Int.add_zero, hscale]
  · have habs : (n.natAbs : Int) = n := by omega
    have h45 : b ≠ 45 := by
      rintro rfl
      exact absurd hdigit (by decide)
    rw [habs] at hinteger hpos
    simp_rw [if_neg hneg, List.nil_append, List.cons_append, List.head?_cons, ← List.cons_append,
      Option.some.injEq, decide_eq_false h45, Bool.false_eq_true, if_false, hinteger, parseFraction_stops _ hrest,
      parseExponent_stops hrest, Int.add_zero, hpos]

/-! ## Strings -/

theorem Json.StringChar.parse {t s : List UInt8} (h : StringChar t s) (units : CodeUnits) (rest : List UInt8) :
    ∃ units', parseChar units (t ++ rest) = .ok (some (s, units'), rest) := by
  cases h with
  | plain b hb =>
    refine ⟨units, ?_⟩
    rw [List.singleton_append]
    unfold parseChar
    split
    · next heq => cases heq
    · next heq =>
      cases heq
      exact absurd rfl hb.2.2
    · next heq =>
      cases heq
      exact absurd rfl hb.2.2
    · next heq =>
      cases heq
      exact absurd rfl hb.2.2
    · next heq =>
      cases heq
      exact if_neg hb.2.1
  | escape e b hmem =>
    refine ⟨units, ?_⟩
    have hall : ∀ p ∈ escapes, p.1 ≠ 117 ∧ unescape p.1 = p.2 := List.all_iff_forall_prop.mp (by decide)
    obtain ⟨h117, hval⟩ := hall _ hmem
    change parseChar units (92 :: e :: rest) = _
    unfold parseChar
    split
    · next heq => cases heq
    · next heq => cases heq
    · next heq =>
      cases heq
      exact absurd rfl h117
    · next heq =>
      cases heq
      rw [hval]
    · next _ hno heq =>
      cases heq
      exact (hno e rest rfl rfl).elim
  | unicode c hhex h0 => exact parseChar_unit hhex h0 units rest

theorem Json.Chars.parse {t s : List UInt8} (h : Chars t s) (fuel : Nat) (hfuel : t.length < fuel) (units : CodeUnits)
    (rest : List UInt8) : parseChars fuel units (t ++ 34 :: rest) = .ok (s, rest) := by
  induction h generalizing fuel units with
  | nil =>
    obtain ⟨fuel, rfl⟩ := Nat.exists_eq_succ_of_ne_zero (Nat.ne_of_gt hfuel)
    rfl
  | @cons t s ts ss h _ ih =>
    obtain ⟨fuel, rfl⟩ := Nat.exists_eq_succ_of_ne_zero (Nat.ne_of_gt (Nat.lt_of_le_of_lt (Nat.zero_le _) hfuel))
    obtain ⟨units', hchar⟩ := h.parse units (ts ++ 34 :: rest)
    have hlen : 0 < t.length := by
      cases h with
      | plain | escape | unicode => exact Nat.succ_pos _
    have hrest := ih fuel (by rw [List.length_append] at hfuel; omega) units'
    rw [parseChars, List.append_assoc, hchar]
    simp only [hrest, Except.map]

/-- The first loop counts at least what the second one writes. -/
theorem Json.StringChar.stringSize {t s : List UInt8} (h : StringChar t s) {rest : List UInt8} {len : Nat}
    (hrest : PostfixEdm.stringSize rest = .ok len) :
    ∃ len', PostfixEdm.stringSize (t ++ rest) = .ok len' ∧ s.length + len ≤ len' := by
  cases h with
  | plain b hb => exact ⟨len + 1, stringSize_plain hb.2.2 hb.2.1 hrest, Nat.le_of_eq (Nat.add_comm 1 len)⟩
  | escape e b hmem => exact ⟨len + 1, stringSize_escape e hrest, Nat.le_of_eq (Nat.add_comm 1 len)⟩
  | unicode c hhex h0 =>
    have hlen := length_utf8EncodeChar_le c
    exact ⟨len + 5, hhex.stringSize hrest, by omega⟩

theorem Json.Chars.stringSize {t s : List UInt8} (h : Chars t s) (rest : List UInt8) :
    ∃ len, PostfixEdm.stringSize (t ++ 34 :: rest) = .ok len ∧ s.length ≤ len := by
  induction h with
  | nil => exact ⟨0, rfl, Nat.le_refl 0⟩
  | @cons t s ts ss h _ ih =>
    obtain ⟨len, hlen, hle⟩ := ih
    obtain ⟨len', hlen', hle'⟩ := h.stringSize hlen
    refine ⟨len', ?_, ?_⟩
    · rwa [List.append_assoc]
    · rw [List.length_append]
      omega

theorem ofBytes_bytes (s : CString) : CString.ofBytes s.bytes = s := by
  apply CString.ext
  change s.bytes.takeWhile _ = s.bytes
  rw [List.takeWhile_eq_self_iff]
  intro b hb
  refine decide_eq_true ?_
  rintro rfl
  exact s.nul hb

theorem bracket (b c : UInt8) (t rest : List UInt8) : b :: t ++ [c] ++ rest = b :: (t ++ c :: rest) := by
  simp

variable (units) in
/-- A string literal, whatever follows. -/
theorem Json.Chars.parseString {t : List UInt8} {s : CString} (h : Chars t s.bytes) (rest : List UInt8) :
    parseString units (34 :: t ++ [34] ++ rest) = .ok (s, rest) := by
  have hchars := h.parse ((t ++ 34 :: rest).length + 1)
    (by rw [List.length_append]; omega) (units (t ++ 34 :: rest)) rest
  obtain ⟨len, hsize, hle⟩ := h.stringSize rest
  rw [bracket, PostfixEdm.parseString, hsize, hchars]
  dsimp only
  rw [if_pos hle, ofBytes_bytes]

/-! ## Values -/

/-- The first byte of a value is no white space and closes nothing. -/
theorem Json.Value.starts {t : List UInt8} {item : JsonItem δ} (h : Value dbl t item) :
    ∃ b text, t = b :: text ∧ 32 < b ∧ b ≠ 93 ∧ b ≠ 125 := by
  cases h with
  | null => exact ⟨_, _, rfl, by decide⟩
  | false => exact ⟨_, _, rfl, by decide⟩
  | true => exact ⟨_, _, rfl, by decide⟩
  | number n hn =>
    obtain ⟨b, text, hcons, hdigit⟩ := exists_cons_decimal n.natAbs
    unfold printNumber
    by_cases hneg : n < 0
    · rw [if_pos hneg]
      exact ⟨45, _, rfl, by decide⟩
    · rw [if_neg hneg, List.nil_append]
      refine ⟨b, text, hcons, ?_, ?_, ?_⟩
      · rw [UInt8.lt_iff_toNat_lt]
        exact Nat.lt_of_lt_of_le (by decide) hdigit.1
      · rintro rfl
        exact absurd hdigit (by decide)
      · rintro rfl
        exact absurd hdigit (by decide)
  | string | emptyArray | array | emptyObject | object => exact ⟨_, _, rfl, by decide⟩

theorem not_prefix_cons {p : UInt8} {ps : List UInt8} {b : UInt8} (h : p ≠ b) (text : List UInt8) :
    ¬ (p :: ps) <+: b :: text := by
  rw [List.cons_prefix_cons]
  exact fun hp => h hp.1

/-- A byte that is no letter is none of the three words. -/
theorem not_word {b : UInt8} (hb : b ∉ ascii "nft") (text : List UInt8) :
    ¬ ascii "null" <+: b :: text ∧ ¬ ascii "false" <+: b :: text ∧ ¬ ascii "true" <+: b :: text := by
  refine ⟨not_prefix_cons ?_ text, not_prefix_cons ?_ text, not_prefix_cons ?_ text⟩
  all_goals
    rintro rfl
    exact hb (by decide)

theorem parseValue_string (fuel : Nat) (text : List UInt8) : parseValue dbl units (fuel + 1) (34 :: text) =
    (parseString units (34 :: text)).map fun (valuestring, rest) => (.string valuestring, rest) := by
  obtain ⟨hnull, hfalse, htrue⟩ := not_word (b := 34) (by decide) text
  rw [parseValue, if_neg hnull, if_neg hfalse, if_neg htrue]

theorem parseValue_number (fuel : Nat) {b : UInt8} (hb : b = 45 ∨ IsDigit b) (text : List UInt8) :
    parseValue dbl units (fuel + 1) (b :: text) =
      .ok (.number (parseNumber dbl (b :: text)).1, (parseNumber dbl (b :: text)).2) := by
  have hno : ∀ c : UInt8, ¬ (c = 45 ∨ IsDigit c) → b ≠ c := fun c hc heq => hc (heq ▸ hb)
  obtain ⟨hnull, hfalse, htrue⟩ := not_word (b := b) (by
    intro hmem
    have hall : ∀ c ∈ ascii "nft", ¬ (c = 45 ∨ IsDigit c) := List.all_iff_forall_prop.mp (by decide)
    exact hno b (hall b hmem) rfl) text
  rw [parseValue, if_neg hnull, if_neg hfalse, if_neg htrue]
  rw [if_pos hb]
  · exact hno 34 (by decide)
  · exact hno 91 (by decide)
  · exact hno 123 (by decide)

theorem parseItems_skip (fuel : Nat) (text : List UInt8) :
    parseItems dbl units fuel (skip text) = parseItems dbl units fuel text := by
  cases fuel with
  | zero => simp [parseItems]
  | succ fuel => simp [parseItems, skip_skip]

theorem parseMembers_skip (fuel : Nat) (text : List UInt8) :
    parseMembers dbl units fuel (skip text) = parseMembers dbl units fuel text := by
  cases fuel with
  | zero => simp [parseMembers]
  | succ fuel => simp [parseMembers, skip_skip]

theorem parseItems_last {fuel : Nat} {text rest rest' : List UInt8} {item : JsonItem δ}
    (hvalue : parseValue dbl units fuel (skip text) = .ok (item, rest)) (hskip : skip rest = 93 :: rest') :
    parseItems dbl units (fuel + 1) text = .ok (.cons item .nil, 93 :: rest') := by
  simp [parseItems, hvalue, hskip]

theorem parseItems_cons {fuel : Nat} {text rest rest' rest'' : List UInt8} {item : JsonItem δ} {items : JsonItems δ}
    (hvalue : parseValue dbl units fuel (skip text) = .ok (item, rest)) (hskip : skip rest = 44 :: rest')
    (hitems : parseItems dbl units fuel rest' = .ok (items, rest'')) :
    parseItems dbl units (fuel + 1) text = .ok (.cons item items, rest'') := by
  simp [parseItems, hvalue, hskip, hitems]

theorem parseMembers_last {fuel : Nat} {text rest rest₁ rest₂ rest' : List UInt8} {name : CString} {item : JsonItem δ}
    (hname : parseString units (skip text) = .ok (name, rest)) (hcolon : skip rest = 58 :: rest₁)
    (hvalue : parseValue dbl units fuel (skip rest₁) = .ok (item, rest₂)) (hskip : skip rest₂ = 125 :: rest') :
    parseMembers dbl units (fuel + 1) text = .ok (.cons name item .nil, 125 :: rest') := by
  simp [parseMembers, hname, hcolon, hvalue, hskip]

theorem parseMembers_cons {fuel : Nat} {text rest rest₁ rest₂ rest' rest'' : List UInt8} {name : CString}
    {item : JsonItem δ} {members : JsonMembers δ} (hname : parseString units (skip text) = .ok (name, rest))
    (hcolon : skip rest = 58 :: rest₁) (hvalue : parseValue dbl units fuel (skip rest₁) = .ok (item, rest₂))
    (hskip : skip rest₂ = 44 :: rest') (hmembers : parseMembers dbl units fuel rest' = .ok (members, rest'')) :
    parseMembers dbl units (fuel + 1) text = .ok (.cons name item members, rest'') := by
  simp [parseMembers, hname, hcolon, hvalue, hskip, hmembers]

theorem parseValue_emptyArray {fuel : Nat} {text rest : List UInt8} (hskip : skip text = 93 :: rest) :
    parseValue dbl units (fuel + 1) (91 :: text) = .ok (.array .nil, rest) := by
  obtain ⟨hnull, hfalse, htrue⟩ := not_word (b := 91) (by decide) text
  rw [parseValue, if_neg hnull, if_neg hfalse, if_neg htrue]
  simp [hskip]

theorem parseValue_emptyObject {fuel : Nat} {text rest : List UInt8} (hskip : skip text = 125 :: rest) :
    parseValue dbl units (fuel + 1) (123 :: text) = .ok (.object .nil, rest) := by
  obtain ⟨hnull, hfalse, htrue⟩ := not_word (b := 123) (by decide) text
  rw [parseValue, if_neg hnull, if_neg hfalse, if_neg htrue]
  simp [hskip]

theorem parseValue_array {fuel : Nat} {text rest : List UInt8} {items : JsonItems δ} {b : UInt8} {text' : List UInt8}
    (hskip : skip text = b :: text') (hb : b ≠ 93) (hitems : parseItems dbl units fuel text = .ok (items, 93 :: rest)) :
    parseValue dbl units (fuel + 1) (91 :: text) = .ok (.array items, rest) := by
  obtain ⟨hnull, hfalse, htrue⟩ := not_word (b := 91) (by decide) text
  rw [← parseItems_skip, hskip] at hitems
  rw [parseValue, if_neg hnull, if_neg hfalse, if_neg htrue]
  simp [hskip, hb, hitems]

theorem parseValue_object {fuel : Nat} {text rest : List UInt8} {members : JsonMembers δ} {b : UInt8}
    {text' : List UInt8} (hskip : skip text = b :: text') (hb : b ≠ 125)
    (hmembers : parseMembers dbl units fuel text = .ok (members, 125 :: rest)) :
    parseValue dbl units (fuel + 1) (123 :: text) = .ok (.object members, rest) := by
  obtain ⟨hnull, hfalse, htrue⟩ := not_word (b := 123) (by decide) text
  rw [← parseMembers_skip, hskip] at hmembers
  rw [parseValue, if_neg hnull, if_neg hfalse, if_neg htrue]
  simp [hskip, hb, hmembers]

/-- Elements begin with a value, which closes nothing. -/
theorem Json.Elements.starts {t : List UInt8} {items : JsonItems δ} (h : Elements dbl t items) (rest : List UInt8) :
    ∃ b text, skip (t ++ rest) = b :: text ∧ b ≠ 93 := by
  cases h with
  | @last w t w' item hw hv hw' =>
    obtain ⟨b, text, rfl, hb, h93, -⟩ := hv.starts
    refine ⟨b, text ++ (w' ++ rest), ?_, h93⟩
    rw [List.append_assoc, List.append_assoc, skip_ws hw, List.cons_append, skip_cons hb]
  | @cons w t w' ts item items hw hv hw' hs =>
    obtain ⟨b, text, rfl, hb, h93, -⟩ := hv.starts
    refine ⟨b, text ++ (w' ++ (44 :: ts ++ rest)), ?_, h93⟩
    rw [List.append_assoc, List.append_assoc, List.append_assoc, skip_ws hw, List.cons_append, skip_cons hb]

theorem Json.MemberList.starts {t : List UInt8} {members : JsonMembers δ} (h : MemberList dbl t members)
    (rest : List UInt8) : ∃ text, skip (t ++ rest) = 34 :: text := by
  cases h with
  | last hw | cons hw =>
    simp only [List.append_assoc, List.cons_append]
    rw [skip_ws hw, skip_cons (by decide)]
    exact ⟨_, rfl⟩

mutual
/-- A text of an item is read as that item, whatever follows. -/
theorem JsonItem.parse {item : JsonItem δ} {t : List UInt8} (h : Value dbl t item) (fuel : Nat)
    (hfuel : t.length ≤ fuel) {rest : List UInt8} (hrest : Stops rest) :
    parseValue dbl units fuel (t ++ rest) = .ok (item, rest) := by
  have hne : fuel ≠ 0 := by
    obtain ⟨b, text, rfl, -⟩ := h.starts
    rw [List.length_cons] at hfuel
    omega
  obtain ⟨fuel, rfl⟩ := Nat.exists_eq_succ_of_ne_zero hne
  cases h with
  | null => simp [parseValue, ascii]
  | false => simp [parseValue, ascii]
  | true => simp [parseValue, ascii]
  | number n hn =>
    have hnumber := parseNumber_printNumber dbl hn hrest
    obtain ⟨b, text, hcons, hb⟩ : ∃ b text, printNumber n = b :: text ∧ (b = 45 ∨ IsDigit b) := by
      obtain ⟨b, text, hcons, hdigit⟩ := exists_cons_decimal n.natAbs
      unfold printNumber
      split
      · exact ⟨45, _, rfl, Or.inl rfl⟩
      · exact ⟨b, text, hcons, Or.inr hdigit⟩
    rw [hcons, List.cons_append] at hnumber ⊢
    rw [parseValue_number fuel hb, hnumber]
  | string s hs =>
    have hstring := hs.parseString units rest
    rw [bracket] at hstring ⊢
    rw [parseValue_string, hstring]
    rfl
  | @emptyArray w hw =>
    rw [bracket]
    apply parseValue_emptyArray
    rw [skip_ws hw, skip_cons (by decide)]
  | @array t items hitems =>
    obtain ⟨b, text, hskip, hb⟩ := hitems.starts (93 :: rest)
    have hlen : t.length + 1 ≤ fuel := by
      simp only [List.length_append, List.length_cons, List.length_nil] at hfuel
      omega
    have := JsonItems.parse hitems fuel hlen rest
    rw [bracket]
    exact parseValue_array hskip hb this
  | @emptyObject w hw =>
    rw [bracket]
    apply parseValue_emptyObject
    rw [skip_ws hw, skip_cons (by decide)]
  | @object t members hmembers =>
    obtain ⟨text, hskip⟩ := hmembers.starts (125 :: rest)
    have hlen : t.length + 1 ≤ fuel := by
      simp only [List.length_append, List.length_cons, List.length_nil] at hfuel
      omega
    have := JsonMembers.parse hmembers fuel hlen rest
    rw [bracket]
    exact parseValue_object hskip (by decide) this

theorem JsonItems.parse {items : JsonItems δ} {t : List UInt8} (h : Elements dbl t items) (fuel : Nat)
    (hfuel : t.length + 1 ≤ fuel) (rest : List UInt8) :
    parseItems dbl units fuel (t ++ 93 :: rest) = .ok (items, 93 :: rest) := by
  obtain ⟨fuel, rfl⟩ := Nat.exists_eq_succ_of_ne_zero (show fuel ≠ 0 by omega)
  cases h with
  | @last w v w' item hw hv hw' =>
    obtain ⟨b, text, hcons, hb, -⟩ := hv.starts
    have hskip : skip (w ++ v ++ w' ++ 93 :: rest) = v ++ (w' ++ 93 :: rest) := by
      rw [List.append_assoc, List.append_assoc, skip_ws hw, hcons, List.cons_append, skip_cons hb]
    have hlen : v.length ≤ fuel := by
      simp only [List.length_append] at hfuel
      omega
    have hvalue := JsonItem.parse hv fuel hlen (stops_ws hw' (b := 93) (by decide) rest)
    apply parseItems_last
    · rw [hskip, hvalue]
    · rw [skip_ws hw', skip_cons (by decide)]
  | @cons w v w' ts item items hw hv hw' hs =>
    obtain ⟨b, text, hcons, hb, -⟩ := hv.starts
    have hskip : skip (w ++ v ++ w' ++ 44 :: ts ++ 93 :: rest) = v ++ (w' ++ 44 :: (ts ++ 93 :: rest)) := by
      simp only [List.append_assoc, List.cons_append]
      rw [skip_ws hw, hcons, List.cons_append, skip_cons hb]
    simp only [List.length_append, List.length_cons] at hfuel
    have hvalue := JsonItem.parse hv fuel (by omega) (stops_ws hw' (b := 44) (by decide) (ts ++ 93 :: rest))
    have hitems := JsonItems.parse hs fuel (by omega) rest
    apply parseItems_cons
    · rw [hskip, hvalue]
    · rw [skip_ws hw', skip_cons (by decide)]
    · exact hitems

theorem JsonMembers.parse {members : JsonMembers δ} {t : List UInt8} (h : MemberList dbl t members) (fuel : Nat)
    (hfuel : t.length + 1 ≤ fuel) (rest : List UInt8) :
    parseMembers dbl units fuel (t ++ 125 :: rest) = .ok (members, 125 :: rest) := by
  obtain ⟨fuel, rfl⟩ := Nat.exists_eq_succ_of_ne_zero (show fuel ≠ 0 by omega)
  cases h with
  | @last w k w₁ w₂ v w' name item hw hk hw₁ hw₂ hv hw' =>
    obtain ⟨b, text, hcons, hb, -⟩ := hv.starts
    simp only [List.length_append, List.length_cons] at hfuel
    have hname := hk.parseString units (w₁ ++ 58 :: (w₂ ++ (v ++ (w' ++ 125 :: rest))))
    have hvalue := JsonItem.parse hv fuel (by omega) (stops_ws hw' (b := 125) (by decide) rest)
    simp only [List.append_assoc, List.cons_append] at hname ⊢
    apply parseMembers_last
    · rw [skip_ws hw, skip_cons (by decide), hname]
    · rw [skip_ws hw₁, skip_cons (by decide)]
    · rw [skip_ws hw₂, hcons, List.cons_append, skip_cons hb, ← List.cons_append, ← hcons, hvalue]
    · rw [skip_ws hw', skip_cons (by decide)]
  | @cons w k w₁ w₂ v w' ts name item members hw hk hw₁ hw₂ hv hw' hs =>
    obtain ⟨b, text, hcons, hb, -⟩ := hv.starts
    simp only [List.length_append, List.length_cons] at hfuel
    have hname := hk.parseString units (w₁ ++ 58 :: (w₂ ++ (v ++ (w' ++ 44 :: (ts ++ 125 :: rest)))))
    have hvalue := JsonItem.parse hv fuel (by omega) (stops_ws hw' (b := 44) (by decide) (ts ++ 125 :: rest))
    have hmembers := JsonMembers.parse hs fuel (by omega) rest
    simp only [List.append_assoc, List.cons_append] at hname ⊢
    apply parseMembers_cons
    · rw [skip_ws hw, skip_cons (by decide), hname]
    · rw [skip_ws hw₁, skip_cons (by decide)]
    · rw [skip_ws hw₂, hcons, List.cons_append, skip_cons hb, ← List.cons_append, ← hcons, hvalue]
    · rw [skip_ws hw', skip_cons (by decide)]
    · exact hmembers
end

/-! ## Documents -/

variable (units) in
/-- The parser reads every text of an item, with white space in front of it and whatever stops it behind. -/
theorem cJsonParse_text {w t : List UInt8} {item : JsonItem δ} (hw : IsWs w) (h : Value dbl t item) {rest : List UInt8}
    (hrest : Stops rest) : cJsonParse dbl units (w ++ t ++ rest) = .ok item := by
  obtain ⟨b, text, hcons, hb, -⟩ := h.starts
  have hskip : skip (w ++ t ++ rest) = t ++ rest := by
    rw [List.append_assoc, skip_ws hw, hcons, List.cons_append, skip_cons hb]
  have hlen : t.length ≤ (w ++ t ++ rest).length + 1 := by
    simp only [List.length_append]
    omega
  rw [cJsonParse, hskip, JsonItem.parse h _ hlen hrest]
  rfl

theorem Json.Hex4.nul {h₁ h₂ h₃ h₄ : UInt8} {n : Nat} (h : Hex4 h₁ h₂ h₃ h₄ n) : 0 ∉ [h₁, h₂, h₃, h₄] := by
  obtain ⟨v₁, v₂, v₃, v₄, hv₁, hv₂, hv₃, hv₄, -⟩ := h.digits
  have hne : ∀ {b : UInt8} {v : Nat}, IsHex b v → 0 ≠ b := by
    rintro b v hb rfl
    have := (hexValue_isHex hb).2.1
    exact absurd this (by simp [hexValue, IsDigit])
  simp [hne hv₁, hne hv₂, hne hv₃, hne hv₄]

theorem Json.Chars.nul {t s : List UInt8} (h : Chars t s) : 0 ∉ t := by
  induction h with
  | nil => exact List.not_mem_nil
  | cons h _ ih =>
    rw [List.mem_append, not_or]
    refine ⟨?_, ih⟩
    cases h with
    | plain b hb =>
      rw [List.mem_singleton]
      rintro rfl
      exact absurd hb.1 (by decide)
    | escape e b hmem =>
      have hall : ∀ p ∈ escapes, 0 ∉ [92, p.1] := List.all_iff_forall_prop.mp (by decide)
      exact hall _ hmem
    | unicode c hhex h0 =>
      have := hhex.nul
      simpa using this

theorem Json.IsWs.nul {w : List UInt8} (h : IsWs w) : 0 ∉ w := fun hmem => absurd (h 0 hmem) (by decide)

mutual
/-- A text of an item is a C string. -/
theorem JsonItem.nul_text {item : JsonItem δ} {t : List UInt8} (h : Value dbl t item) : 0 ∉ t := by
  cases h with
  | null | false | true => decide
  | number n hn => exact nul_notMem_printNumber n
  | string s hs => simpa using hs.nul
  | emptyArray hw | emptyObject hw => simpa using hw.nul
  | array hitems => simpa using JsonItems.nul_text hitems
  | object hmembers => simpa using JsonMembers.nul_text hmembers

theorem JsonItems.nul_text {items : JsonItems δ} {t : List UInt8} (h : Elements dbl t items) : 0 ∉ t := by
  cases h with
  | last hw hv hw' => simp [hw.nul, JsonItem.nul_text hv, hw'.nul]
  | cons hw hv hw' hs => simp [hw.nul, JsonItem.nul_text hv, hw'.nul, JsonItems.nul_text hs]

theorem JsonMembers.nul_text {members : JsonMembers δ} {t : List UInt8} (h : MemberList dbl t members) : 0 ∉ t := by
  cases h with
  | last hw hk hw₁ hw₂ hv hw' => simp [hw.nul, hk.nul, hw₁.nul, hw₂.nul, JsonItem.nul_text hv, hw'.nul]
  | cons hw hk hw₁ hw₂ hv hw' hs =>
    simp [hw.nul, hk.nul, hw₁.nul, hw₂.nul, JsonItem.nul_text hv, hw'.nul, JsonMembers.nul_text hs]
end

/-- A text of an item is a C string that the parser reads as that item, with white space in front of it and whatever
stops it behind, and it is a text of no other item. -/
theorem cJsonParse_value {t : List UInt8} {item : JsonItem δ} (h : Value dbl t item) : 0 ∉ t ∧
    (∀ w rest, IsWs w → Stops rest → cJsonParse dbl units (w ++ t ++ rest) = .ok item) ∧
    ∀ item', Value dbl t item' → item' = item := by
  refine ⟨JsonItem.nul_text h, fun w rest hw hrest => cJsonParse_text units hw h hrest, fun item' h' => ?_⟩
  have hparse := cJsonParse_text units isWs_nil h stops_nil
  rw [cJsonParse_text units isWs_nil h' stops_nil] at hparse
  exact Except.ok.inj hparse

theorem cJsonParse_value_spaces : 0 ∉ ([91, 32, 45, 53, 10, 93] : List UInt8) ∧
    (∀ w rest, IsWs w → Stops rest → cJsonParse intDouble (fun _ => ⟨0, 0⟩) (w ++ [91, 32, 45, 53, 10, 93] ++ rest) =
      .ok (.array (.cons (.number (-5)) .nil))) ∧
    ∀ item', Value intDouble [91, 32, 45, 53, 10, 93] item' → item' = .array (.cons (.number (-5)) .nil) := by
  have htext : printNumber (-5) = [45, 53] := by simp [printNumber, decimal]
  have hdouble : intDouble.ofInt (-5) = -5 := toDouble_eq_self (by decide)
  have hnumber : Value intDouble (printNumber (-5)) (.number (intDouble.ofInt (-5))) := .number (-5) (by decide)
  rw [htext, hdouble] at hnumber
  have hw : IsWs [32] := isWs_singleton (by decide)
  have hw' : IsWs [10] := isWs_singleton (by decide)
  exact cJsonParse_value (.array (.last hw hnumber hw'))

/-- Both printers write a C string that is read as the same item. -/
theorem cJsonParse_print {item : JsonItem δ} (h : item.All dbl.Exact) :
    (0 ∉ cJsonPrint dbl item ∧ cJsonParse dbl units (cJsonPrint dbl item) = .ok item) ∧
      0 ∉ cJsonPrintUnformatted dbl item ∧ cJsonParse dbl units (cJsonPrintUnformatted dbl item) = .ok item := by
  have hboth : ∀ fmt : Bool, 0 ∉ item.print dbl 0 fmt ∧ cJsonParse dbl units (item.print dbl 0 fmt) = .ok item := by
    intro fmt
    have hvalue := JsonItem.value_print h 0 fmt
    have hparse := cJsonParse_text units isWs_nil hvalue stops_nil
    rw [List.nil_append, List.append_nil] at hparse
    exact ⟨JsonItem.nul_text hvalue, hparse⟩
  exact ⟨hboth true, hboth false⟩

theorem cJsonParse_print_object :
    let item : JsonItem Int := .object (.cons ⟨[110], by decide⟩ (.number 7) .nil)
    (0 ∉ cJsonPrint intDouble item ∧
      cJsonParse intDouble (fun _ => ⟨0, 0⟩) (cJsonPrint intDouble item) = .ok item) ∧
      0 ∉ cJsonPrintUnformatted intDouble item ∧
        cJsonParse intDouble (fun _ => ⟨0, 0⟩) (cJsonPrintUnformatted intDouble item) = .ok item := by
  have hexact : intDouble.Exact (7 : Int) := ⟨7, (toDouble_eq_self (by decide)).symm, by decide⟩
  apply cJsonParse_print
  simp only [JsonItem.All, JsonMembers.All]
  exact ⟨hexact, trivial⟩

end PostfixEdm
