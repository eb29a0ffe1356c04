import Mathlib.Data.List.Induction

/-!
# String literals of SQL

A literal in single quotes, as MySQL reads it: a doubled quote stands for one, and a backslash escapes the byte behind
it. The bytes of a character of UTF-8 are not special.

* `readLiteral` : what is denoted by the literal whose opening quote has been read, and what follows it;
* `Verbatim` : a text that denotes itself; `readLiteral_eq_iff` : in quotes, exactly such texts do.
-/

namespace Sql

/-- `'` -/
def quote : UInt8 := 39

/-- `\` -/
def backslash : UInt8 := 92

/-- What a backslash and a byte stand for. `\%` and `\_` keep their backslash outside of patterns. -/
def escaped (b : UInt8) : List UInt8 :=
  if b = 48 then [0]
  else if b = 98 then [8]
  else if b = 110 then [10]
  else if b = 114 then [13]
  else if b = 116 then [9]
  else if b = 90 then [26]
  else if b = 37 ∨ b = 95 then [backslash, b]
  else [b]

/-- `none` if the literal is not closed. -/
def readLiteral : List UInt8 → Option (List UInt8 × List UInt8)
  | [] => none
  | b :: rest =>
    if b = quote then
      match rest with
      | [] => some ([], [])
      | c :: rest' =>
        if c = quote then (readLiteral rest').map fun (value, after) => (quote :: value, after)
        else some ([], c :: rest')
    else if b = backslash then
      match rest with
      | [] => none
      | c :: rest' => (readLiteral rest').map fun (value, after) => (escaped c ++ value, after)
    else (readLiteral rest).map fun (value, after) => (b :: value, after)

/-- No quote, and behind every backslash a byte that it stays in front of. -/
def Verbatim : List UInt8 → Prop
  | [] => True
  | b :: rest => b ≠ quote ∧ (b = backslash → rest.head? = some 37 ∨ rest.head? = some 95) ∧ Verbatim rest

instance decidableVerbatim : DecidablePred Verbatim
  | [] => isTrue trivial
  | b :: rest =>
    have : Decidable (Verbatim rest) := decidableVerbatim rest
    inferInstanceAs (Decidable
      (b ≠ quote ∧ (b = backslash → rest.head? = some 37 ∨ rest.head? = some 95) ∧ Verbatim rest))

theorem length_escaped_le (b : UInt8) : (escaped b).length ≤ 2 := by
  unfold escaped
  split_ifs <;> simp

/-- An escape that is as long as what it stands for. -/
theorem escaped_of_length {b : UInt8} (h : (escaped b).length = 2) : b = 37 ∨ b = 95 := by
  unfold escaped at h
  split_ifs at h with h0 hb hn hr ht hz hkeep
  all_goals first | exact hkeep | cases h

/-- What is read of a literal and what follows it are fewer bytes than there were. -/
theorem length_readLiteral_lt {text value after : List UInt8} (h : readLiteral text = some (value, after)) :
    value.length + after.length < text.length := by
  fun_induction readLiteral text generalizing value after with
  | case1 | case5 => cases h
  | case2 =>
    cases h
    exact Nat.zero_lt_one
  | case4 c rest hc =>
    cases h
    simp
  | case3 rest ih =>
    obtain ⟨⟨v, r⟩, hv, heq⟩ := Option.map_eq_some_iff.mp h
    cases heq
    have := ih hv
    simp only [List.length_cons]
    omega
  | case6 c rest hc ih =>
    obtain ⟨⟨v, r⟩, hv, heq⟩ := Option.map_eq_some_iff.mp h
    cases heq
    have := ih hv
    have := length_escaped_le c
    simp only [List.length_append, List.length_cons]
    omega
  | case7 b rest hq hb ih =>
    obtain ⟨⟨v, r⟩, hv, heq⟩ := Option.map_eq_some_iff.mp h
    cases heq
    have := ih hv
    simp only [List.length_cons]
    omega

theorem readLiteral_of_ne {b : UInt8} (hquote : b ≠ quote) (hslash : b ≠ backslash) (rest : List UInt8) :
    readLiteral (b :: rest) = (readLiteral rest).map fun (value, after) => (b :: value, after) := by
  rw [readLiteral.eq_def]
  simp only [if_neg hquote, if_neg hslash]

theorem readLiteral_backslash (b : UInt8) (rest : List UInt8) :
    readLiteral (backslash :: b :: rest) = (readLiteral rest).map fun (value, after) => (escaped b ++ value, after) :=
  rfl

/-- The closing quote. -/
theorem readLiteral_quote {after : List UInt8} (h : after.head? ≠ some quote) :
    readLiteral (quote :: after) = some ([], after) := by
  cases after with
  | nil => rfl
  | cons b rest =>
    have hb : b ≠ quote := fun heq => h (congrArg some heq)
    rw [readLiteral, if_pos rfl]
    exact if_neg hb

variable {s after : List UInt8}

/-- A text that denotes itself is read up to the closing quote. -/
theorem readLiteral_verbatim (hs : Verbatim s) (hafter : after.head? ≠ some quote) :
    readLiteral (s ++ quote :: after) = some (s, after) := by
  induction s using List.twoStepInduction with
  | nil => exact readLiteral_quote hafter
  | singleton b =>
    have hslash : b ≠ backslash := fun heq => by
      rcases hs.2.1 heq with h | h <;> cases h
    rw [List.singleton_append, readLiteral_of_ne hs.1 hslash, readLiteral_quote hafter]
    rfl
  | cons_cons b c rest ihrest ih =>
    obtain ⟨hquote, hkeep, hverb⟩ := hs
    by_cases hslash : b = backslash
    · have hc : c = 37 ∨ c = 95 := (hkeep hslash).imp Option.some.inj Option.some.inj
      rw [hslash, List.cons_append, List.cons_append, readLiteral_backslash, ihrest hverb.2.2]
      rcases hc with rfl | rfl <;> rfl
    · rw [List.cons_append, readLiteral_of_ne hquote hslash, ih c hverb]
      rfl

/-- A text that a literal denotes in full denotes itself: anything else is shorter than what it is read from. -/
theorem verbatim_of_readLiteral (h : readLiteral (s ++ quote :: after) = some (s, after)) : Verbatim s := by
  induction s using List.twoStepInduction with
  | nil => trivial
  | singleton b =>
    refine ⟨?_, fun hslash => ?_, trivial⟩
    · rintro rfl
      obtain ⟨⟨v, r⟩, hv, heq⟩ := Option.map_eq_some_iff.mp (h : (readLiteral after).map _ = _)
      cases heq
      have := length_readLiteral_lt hv
      omega
    · rw [hslash, List.singleton_append, readLiteral_backslash] at h
      obtain ⟨⟨v, r⟩, -, heq⟩ := Option.map_eq_some_iff.mp h
      cases heq
  | cons_cons b c rest ihrest ih =>
    have hlen : ∀ v, readLiteral (rest ++ quote :: after) = some (v, after) → v.length ≤ rest.length := by
      intro v hv
      have := length_readLiteral_lt hv
      rw [List.length_append, List.length_cons] at this
      omega
    rw [List.cons_append, List.cons_append] at h
    by_cases hquote : b = quote
    · by_cases hc : c = quote
      · rw [hquote, hc] at h
        obtain ⟨⟨v, r⟩, hv, heq⟩ := Option.map_eq_some_iff.mp (h : (readLiteral (rest ++ quote :: after)).map _ = _)
        cases heq
        have := hlen _ hv
        rw [List.length_cons] at this
        omega
      · have hnext : (c :: (rest ++ quote :: after)).head? ≠ some quote := fun heq => hc (Option.some.inj heq)
        rw [hquote, readLiteral_quote hnext] at h
        cases h
    · by_cases hslash : b = backslash
      · rw [hslash, readLiteral_backslash] at h
        obtain ⟨⟨v, r⟩, hv, heq⟩ := Option.map_eq_some_iff.mp h
        have hvalue : escaped c ++ v = [backslash, c] ++ rest := congrArg Prod.fst heq
        obtain rfl : r = after := congrArg Prod.snd heq
        have hsum := congrArg List.length hvalue
        have := hlen v hv
        have := length_escaped_le c
        simp only [List.length_append, List.length_cons, List.length_nil] at hsum
        have htwo : (escaped c).length = 2 := by omega
        have hc : c = 37 ∨ c = 95 := escaped_of_length htwo
        obtain rfl : v = rest := (List.append_inj hvalue htwo).2
        refine ⟨hquote, fun _ => hc.imp (congrArg some) (congrArg some), ?_, ?_, ihrest hv⟩
        · rcases hc with rfl | rfl <;> decide
        · rintro rfl
          rcases hc with hc | hc <;> cases hc
      · rw [readLiteral_of_ne hquote hslash] at h
        obtain ⟨⟨v, r⟩, hv, heq⟩ := Option.map_eq_some_iff.mp h
        cases heq
        exact ⟨hquote, fun heq => absurd heq hslash, ih c hv⟩

/-- A text in quotes denotes itself exactly when it has no quote and no escape that stands for less than it is. -/
theorem readLiteral_eq_iff (hafter : after.head? ≠ some quote) :
    readLiteral (s ++ quote :: after) = some (s, after) ↔ Verbatim s :=
  ⟨verbatim_of_readLiteral, fun hs => readLiteral_verbatim hs hafter⟩

end Sql
