import PostfixEdm.Base.CJsonTree

/-!
# JSON texts

What a text says, by the grammar of JSON over bytes. Numbers are the integers of 53 bits, and `\u` escapes those of
one code unit.

* `Json.StringChar`, `Json.Chars` : the inside of a string literal and its bytes;
* `Json.Value`, `Json.Elements`, `Json.MemberList` : texts of items, with white space wherever it is allowed;
* `JsonItem.value_print` : both layouts of the printer write a text of the item.
-/

namespace PostfixEdm

variable {δ : Type}

namespace Json

def IsWs (w : List UInt8) : Prop := ∀ b ∈ w, b = 32 ∨ b = 9 ∨ b = 10 ∨ b = 13

/-- A hexadecimal digit of either case. -/
def IsHex (b : UInt8) (v : Nat) : Prop :=
  (ascii "0123456789abcdef")[v]? = some b ∨ (ascii "0123456789ABCDEF")[v]? = some b

/-- Four hexadecimal digits. -/
structure Hex4 (h₁ h₂ h₃ h₄ : UInt8) (n : Nat) : Prop where
  digits : ∃ v₁ v₂ v₃ v₄, IsHex h₁ v₁ ∧ IsHex h₂ v₂ ∧ IsHex h₃ v₃ ∧ IsHex h₄ v₄ ∧
    n = ((v₁ * 16 + v₂) * 16 + v₃) * 16 + v₄

/-- The characters of an escape, and the bytes that they stand for. -/
def escapes : List (UInt8 × UInt8) :=
  [(34, 34), (92, 92), (47, 47), (98, 8), (102, 12), (110, 10), (114, 13), (116, 9)]

/-- A character of a string literal, and its bytes. -/
inductive StringChar : List UInt8 → List UInt8 → Prop
  | plain (b : UInt8) (h : 31 < b ∧ b ≠ 34 ∧ b ≠ 92) : StringChar [b] [b]
  | escape (e b : UInt8) (h : (e, b) ∈ escapes) : StringChar [92, e] [b]
  | unicode {h₁ h₂ h₃ h₄ : UInt8} (c : Char) (h : Hex4 h₁ h₂ h₃ h₄ c.toNat) (h0 : c.toNat ≠ 0) :
      StringChar [92, 117, h₁, h₂, h₃, h₄] (String.utf8EncodeChar c)

inductive Chars : List UInt8 → List UInt8 → Prop
  | nil : Chars [] []
  | cons {t s ts ss : List UInt8} (h : StringChar t s) (hs : Chars ts ss) : Chars (t ++ ts) (s ++ ss)

mutual
/-- The texts of an item. -/
inductive Value (dbl : CDouble δ) : List UInt8 → JsonItem δ → Prop
  | null : Value dbl (ascii "null") .null
  | false : Value dbl (ascii "false") .false
  | true : Value dbl (ascii "true") .true
  | number (n : Int) (h : n.natAbs < 2 ^ 53) : Value dbl (printNumber n) (.number (dbl.ofInt n))
  | string {t : List UInt8} (s : CString) (h : Chars t s.bytes) : Value dbl (34 :: t ++ [34]) (.string s)
  | emptyArray {w : List UInt8} (h : IsWs w) : Value dbl (91 :: w ++ [93]) (.array .nil)
  | array {t : List UInt8} {items : JsonItems δ} (h : Elements dbl t items) : Value dbl (91 :: t ++ [93]) (.array items)
  | emptyObject {w : List UInt8} (h : IsWs w) : Value dbl (123 :: w ++ [125]) (.object .nil)
  | object {t : List UInt8} {members : JsonMembers δ} (h : MemberList dbl t members) :
      Value dbl (123 :: t ++ [125]) (.object members)

inductive Elements (dbl : CDouble δ) : List UInt8 → JsonItems δ → Prop
  | last {w t w' : List UInt8} {item : JsonItem δ} (hw : IsWs w) (h : Value dbl t item) (hw' : IsWs w') :
      Elements dbl (w ++ t ++ w') (.cons item .nil)
  | cons {w t w' ts : List UInt8} {item : JsonItem δ} {items : JsonItems δ} (hw : IsWs w) (h : Value dbl t item)
      (hw' : IsWs w') (hs : Elements dbl ts items) : Elements dbl (w ++ t ++ w' ++ 44 :: ts) (.cons item items)

inductive MemberList (dbl : CDouble δ) : List UInt8 → JsonMembers δ → Prop
  | last {w k w₁ w₂ t w' : List UInt8} {name : CString} {item : JsonItem δ} (hw : IsWs w) (hk : Chars k name.bytes)
      (hw₁ : IsWs w₁) (hw₂ : IsWs w₂) (h : Value dbl t item) (hw' : IsWs w') :
      MemberList dbl (w ++ (34 :: k ++ [34]) ++ w₁ ++ 58 :: w₂ ++ t ++ w') (.cons name item .nil)
  | cons {w k w₁ w₂ t w' ts : List UInt8} {name : CString} {item : JsonItem δ} {members : JsonMembers δ} (hw : IsWs w)
      (hk : Chars k name.bytes) (hw₁ : IsWs w₁) (hw₂ : IsWs w₂) (h : Value dbl t item) (hw' : IsWs w')
      (hs : MemberList dbl ts members) :
      MemberList dbl (w ++ (34 :: k ++ [34]) ++ w₁ ++ 58 :: w₂ ++ t ++ w' ++ 44 :: ts) (.cons name item members)
end

/-! ## White space -/

theorem isWs_nil : IsWs [] := fun _ h => absurd h List.not_mem_nil

theorem IsWs.append {w w' : List UInt8} (h : IsWs w) (h' : IsWs w') : IsWs (w ++ w') := fun b hb =>
  (List.mem_append.mp hb).elim (h b) (h' b)

theorem isWs_singleton {b : UInt8} (h : b = 32 ∨ b = 9 ∨ b = 10 ∨ b = 13) : IsWs [b] := fun c hc => by
  rwa [List.mem_singleton.mp hc]

theorem isWs_tabs (depth : Nat) : IsWs (tabs depth) := fun _ hb => Or.inr (Or.inl (List.eq_of_mem_replicate hb))

theorem isWs_layout (fmt : Bool) {w : List UInt8} (h : IsWs w) : IsWs (layout fmt w) := by
  cases fmt
  · exact isWs_nil
  · exact h

variable {dbl : CDouble δ}

theorem Elements.ws_append {w t : List UInt8} {items : JsonItems δ} (hw : IsWs w) (h : Elements dbl t items) :
    Elements dbl (w ++ t) items := by
  cases h with
  | last hw₁ hv hw' =>
    rw [← List.append_assoc, ← List.append_assoc]
    exact .last (hw.append hw₁) hv hw'
  | cons hw₁ hv hw' hs =>
    rw [← List.append_assoc, ← List.append_assoc, ← List.append_assoc]
    exact .cons (hw.append hw₁) hv hw' hs

theorem MemberList.ws_append {w t : List UInt8} {members : JsonMembers δ} (hw : IsWs w) (h : MemberList dbl t members) :
    MemberList dbl (w ++ t) members := by
  cases h with
  | last hw₀ hk hw₁ hw₂ hv hw' =>
    simp only [← List.append_assoc]
    have := MemberList.last (hw.append hw₀) hk hw₁ hw₂ hv hw'
    simpa only [← List.append_assoc] using this
  | cons hw₀ hk hw₁ hw₂ hv hw' hs =>
    have := MemberList.cons (hw.append hw₀) hk hw₁ hw₂ hv hw' hs
    simpa only [← List.append_assoc] using this

/-! ## String literals -/

theorem isHex_hexDigit {n : UInt8} (h : n.toNat < 16) : IsHex (hexDigit n) n.toNat := by
  have hall : ∀ v < 16, IsHex (hexDigit (UInt8.ofNat v)) v := by
    intro v hv
    left
    interval_cases v <;> rfl
  have := hall n.toNat h
  rwa [UInt8.ofNat_toNat] at this

/-- A control character is written as a code unit. -/
theorem stringChar_control {b : UInt8} (h0 : b ≠ 0) (h : b.toNat < 32) :
    StringChar [92, 117, 48, 48, hexDigit (b / 16), hexDigit (b % 16)] [b] := by
  have hvalid : b.toNat.isValidChar := Or.inl (by omega)
  have hval : (Char.ofNat b.toNat).toNat = b.toNat := by
    rw [Char.ofNat, dif_pos hvalid]
    rfl
  have hzero : IsHex 48 0 := Or.inl rfl
  have hdiv : (b / 16).toNat = b.toNat / 16 := by simp
  have hmod : (b % 16).toNat = b.toNat % 16 := by simp
  have henc : String.utf8EncodeChar (Char.ofNat b.toNat) = [b] := by
    have hle : (Char.ofNat b.toNat).val.toNat ≤ 0x7f := by
      change (Char.ofNat b.toNat).toNat ≤ _
      omega
    unfold String.utf8EncodeChar
    rw [if_pos hle]
    change [UInt8.ofNat (Char.ofNat b.toNat).toNat] = _
    rw [hval, UInt8.ofNat_toNat]
  rw [← henc]
  refine .unicode _ ⟨0, 0, _, _, hzero, hzero, isHex_hexDigit ?_, isHex_hexDigit ?_, ?_⟩ ?_
  · rw [hdiv]
    omega
  · rw [hmod]
    omega
  · rw [hval, hdiv, hmod]
    omega
  · rw [hval]
    exact fun h => h0 (UInt8.toNat_inj.mp h)

theorem stringChar_escape {b : UInt8} (h0 : b ≠ 0) : StringChar (escape b) [b] := by
  unfold escape
  by_cases hplain : 31 < b ∧ b ≠ 34 ∧ b ≠ 92
  · rw [if_pos hplain]
    exact .plain b hplain
  rw [if_neg hplain]
  split_ifs with h92 h34 h8 h12 h10 h13 h9
  case neg =>
    refine stringChar_control h0 ?_
    by_contra hge
    refine hplain ⟨?_, h34, h92⟩
    rw [UInt8.lt_iff_toNat_lt]
    exact Nat.lt_of_succ_le (Nat.le_of_not_lt hge)
  all_goals
    subst b
    exact .escape _ _ (by decide)

/-- `print_string_ptr` writes the characters of a literal. -/
theorem chars_escape (str : CString) : Chars (str.bytes.flatMap escape) str.bytes := by
  have hall : ∀ bytes : List UInt8, 0 ∉ bytes → Chars (bytes.flatMap escape) bytes := by
    intro bytes
    induction bytes with
    | nil => exact fun _ => .nil
    | cons b bytes ih =>
      intro hnul
      rw [List.mem_cons, not_or] at hnul
      have := Chars.cons (stringChar_escape (Ne.symm hnul.1)) (ih hnul.2)
      rwa [List.singleton_append] at this
  exact hall str.bytes str.nul

end Json

/-! ## The printer -/

/-- An integer of 53 bits. -/
def CDouble.Exact (dbl : CDouble δ) (d : δ) : Prop := ∃ n : Int, d = dbl.ofInt n ∧ n.natAbs < 2 ^ 53

open Json

variable {dbl : CDouble δ}

theorem text_exact {n : Int} (h : n.natAbs < 2 ^ 53) : dbl.text (dbl.ofInt n) = printNumber n := by
  apply dbl.text_ofInt (toDouble_eq_self h)
  generalize hk : 1024 = k
  have hpow : 2 ^ 53 < 2 ^ k := Nat.pow_lt_pow_right (by decide) (by omega)
  exact Nat.lt_trans h hpow

mutual
/-- Both layouts are texts of the item. -/
theorem JsonItem.value_print {item : JsonItem δ} (h : item.All dbl.Exact) (depth : Nat) (fmt : Bool) :
    Value dbl (item.print dbl depth fmt) item := by
  cases item with
  | null => exact .null
  | false => exact .false
  | true => exact .true
  | number valuedouble =>
    obtain ⟨n, rfl, hn⟩ := h
    rw [JsonItem.print, text_exact hn]
    exact .number n hn
  | string valuestring => exact .string valuestring (chars_escape valuestring)
  | array child =>
    cases child with
    | nil => exact .emptyArray isWs_nil
    | cons item next =>
      have hitems : (JsonItems.cons item next).All dbl.Exact := h
      exact .array (JsonItems.elements_print hitems (by rintro ⟨⟩) (depth + 1) fmt)
  | object child =>
    cases child with
    | nil =>
      have hline := isWs_layout fmt (w := [10]) (isWs_singleton (by decide))
      have : Value dbl _ _ := .emptyObject (hline.append (isWs_layout fmt (isWs_tabs depth)))
      simpa [JsonItem.print, JsonMembers.print] using this
    | cons name item next =>
      have hw := isWs_layout fmt (w := [10]) (isWs_singleton (by decide))
      have hw' := isWs_layout fmt (isWs_tabs depth)
      have hmembers : (JsonMembers.cons name item next).All dbl.Exact := h
      have := JsonMembers.memberList_print hmembers (by rintro ⟨⟩) (depth + 1) fmt hw'
      have := Value.object (this.ws_append hw)
      simpa [JsonItem.print] using this

theorem JsonItems.elements_print {items : JsonItems δ} (h : items.All dbl.Exact) (hne : items ≠ .nil) (depth : Nat)
    (fmt : Bool) : Elements dbl (items.print dbl depth fmt) items := by
  cases items with
  | nil => exact absurd rfl hne
  | cons item next =>
    have hitem := JsonItem.value_print (show item.All dbl.Exact from h.1) depth fmt
    cases next with
    | nil =>
      have := Elements.last isWs_nil hitem isWs_nil
      simpa [JsonItems.print] using this
    | cons item' next' =>
      have hitems : (JsonItems.cons item' next').All dbl.Exact := h.2
      have hnext := JsonItems.elements_print hitems (by rintro ⟨⟩) depth fmt
      have hw := isWs_layout fmt (w := [32]) (isWs_singleton (by decide))
      have := Elements.cons isWs_nil hitem isWs_nil (hnext.ws_append hw)
      simpa [JsonItems.print] using this

/-- The lines of an object, with white space behind them. -/
theorem JsonMembers.memberList_print {members : JsonMembers δ} (h : members.All dbl.Exact) (hne : members ≠ .nil)
    (depth : Nat) (fmt : Bool) {w : List UInt8} (hw : IsWs w) :
    MemberList dbl (members.print dbl depth fmt ++ w) members := by
  cases members with
  | nil => exact absurd rfl hne
  | cons name item next =>
    have hitem := JsonItem.value_print (show item.All dbl.Exact from h.1) depth fmt
    have htabs := isWs_layout fmt (isWs_tabs depth)
    have htab := isWs_layout fmt (w := [9]) (isWs_singleton (by decide))
    have hline := isWs_layout fmt (w := [10]) (isWs_singleton (by decide))
    cases next with
    | nil =>
      have := MemberList.last htabs (chars_escape name) isWs_nil htab hitem (hline.append hw)
      simpa [JsonMembers.print, printStringPtr] using this
    | cons name' item' next' =>
      have hmembers : (JsonMembers.cons name' item' next').All dbl.Exact := h.2
      have hnext := JsonMembers.memberList_print hmembers (by rintro ⟨⟩) depth fmt hw
      have := MemberList.cons htabs (chars_escape name) isWs_nil htab hitem isWs_nil (hnext.ws_append hline)
      simpa [JsonMembers.print, printStringPtr] using this
end

end PostfixEdm
