import PostfixEdm.Base.Config
import PostfixEdm.Base.Text
import Mathlib.Data.Bool.AllAny

/-!
# The length of the mail queue: `cWorker::GetMailqNum`

* `sscanf` : the directives that the format needs, over a C string;
* `Worker.getMailqNum` : what is taken from the last line of `mailq`;
* `Worker.getMailqNum_mailqSummary` : the summary of a queue gives its number of requests.
-/

namespace PostfixEdm

/-! ## `sscanf` -/

/-- A character, white space and `%ld`. -/
inductive Directive
  | byte (b : UInt8)
  | space
  | long
  deriving DecidableEq

/-- The directives of a format without conversions. -/
def literal (text : List UInt8) : List Directive := text.map fun b => if isspace b then .space else .byte b

def dropSign : List UInt8 → List UInt8
  | 45 :: text | 43 :: text => text
  | text => text

/-- `%ld`: the number, as `strtol` reads it, and the rest. -/
def scanLong (text : List UInt8) : Option (Int × List UInt8) :=
  let text := text.dropWhile isspace
  let digits := dropSign text
  if digits.head?.any fun b => IsDigit b then some (strtol text, digits.dropWhile fun b => IsDigit b) else none

/-- `sscanf`: what it returns, and the values that it assigns; `assigned` of them are there already. -/
def sscanf (assigned : Nat) : List Directive → List UInt8 → Int × List Int
  | [], _ => (assigned, [])
  | .byte b :: format, text =>
    match text with
    | [] => (if assigned = 0 then -1 else assigned, [])
    | c :: text => if c = b then sscanf assigned format text else (assigned, [])
  | .space :: format, text => sscanf assigned format (text.dropWhile isspace)
  | .long :: format, text =>
    match scanLong text with
    | some (value, text) =>
      let (ret, values) := sscanf (assigned + 1) format text
      (ret, value :: values)
    | none => (if assigned = 0 ∧ text.dropWhile isspace = [] then -1 else assigned, [])

/-! ## The queue -/

/-- `"-- %ld Kbytes in %ld Requests."` -/
def mailqFormat : List Directive :=
  literal (ascii "-- ") ++ .long :: literal (ascii " Kbytes in ") ++ .long :: literal (ascii " Requests.")

/-- `cWorker::GetMailqNum`; `output` is what the pipe gives, if there is one. -/
def Worker.getMailqNum (output : Option (List UInt8)) : Int :=
  match output with
  | none => 0
  | some output =>
    let lastLineStr := cstr (fgets 1023 output).1
    if ascii "empty" <:+: lastLineStr then 0
    else
      let (ret, values) := sscanf 0 mailqFormat lastLineStr
      if ret = -1 then 0 else values.getD 1 0

/-- The last line that `mailq` prints for a queue that is not empty. -/
def mailqSummary (kbytes requests : Nat) : List UInt8 :=
  ascii "-- " ++ decimal kbytes ++ ascii " Kbytes in " ++ decimal requests ++
    (if requests = 1 then ascii " Request." else ascii " Requests.")

/-! ## Reading the summary -/

theorem sscanf_literal (assigned : Nat) (format : List Directive) {text rest : List UInt8}
    (h : ∀ b ∈ text, isspace b = false) :
    sscanf assigned (literal text ++ format) (text ++ rest) = sscanf assigned format rest := by
  induction text with
  | nil => rfl
  | cons b text ih =>
    have hb := h b List.mem_cons_self
    have := ih fun c hc => h c (List.mem_cons_of_mem _ hc)
    simpa [literal, hb, sscanf] using this

theorem sscanf_space (assigned : Nat) (format : List Directive) {b : UInt8} (hb : isspace b = false)
    (rest : List UInt8) :
    sscanf assigned (.space :: format) (32 :: b :: rest) = sscanf assigned format (b :: rest) := by
  have h32 : isspace 32 = true := by decide
  simp [sscanf, h32, hb]

theorem isspace_of_isDigit {b : UInt8} (h : IsDigit b) : isspace b = false := by
  have hall : ∀ n < 256, IsDigit (UInt8.ofNat n) → isspace (UInt8.ofNat n) = false := by decide +kernel
  have := hall b.toNat b.toNat_lt
  rw [UInt8.ofNat_toNat] at this
  exact this h

theorem takeWhile_decimal {n : Nat} {rest : List UInt8} (hrest : ∀ b ∈ rest.head?, ¬ IsDigit b) :
    ((decimal n ++ rest).takeWhile fun b => IsDigit b) = decimal n ∧
      ((decimal n ++ rest).dropWhile fun b => IsDigit b) = rest := by
  have hall : ∀ b ∈ decimal n, decide (IsDigit b) = true := fun b hb => decide_eq_true (isDigit_of_mem_decimal hb)
  rw [List.takeWhile_append_of_pos hall, List.dropWhile_append_of_pos hall]
  cases rest with
  | nil => simp
  | cons b rest => simp [hrest b rfl]

/-- A number is read up to what is no digit. -/
theorem scanLong_decimal {n : Nat} (hn : n < 2 ^ 63) {rest : List UInt8} (hrest : ∀ b ∈ rest.head?, ¬ IsDigit b) :
    scanLong (decimal n ++ rest) = some ((n : Int), rest) := by
  obtain ⟨htake, hdrop⟩ := takeWhile_decimal (n := n) hrest
  have htake' := (takeWhile_decimal (n := n) (show ∀ b ∈ ([] : List UInt8).head?, ¬ IsDigit b from nofun)).1
  have hdigits : digitsValue (decimal n ++ rest) = n := by
    have := digitsValue_decimal n
    rw [List.append_nil] at htake'
    rw [digitsValue, htake'] at this
    rw [digitsValue, htake, this]
  obtain ⟨b, text, hcons, hdigit⟩ := exists_cons_decimal n
  have h45 : b ≠ 45 := by
    rintro rfl
    exact absurd hdigit (by decide)
  have h43 : b ≠ 43 := by
    rintro rfl
    exact absurd hdigit (by decide)
  rw [hcons, List.cons_append] at hdrop hdigits ⊢
  have hspace : (b :: (text ++ rest)).dropWhile isspace = b :: (text ++ rest) := by
    simp [isspace_of_isDigit hdigit]
  have hsign : dropSign (b :: (text ++ rest)) = b :: (text ++ rest) := by
    simp [dropSign, h45, h43]
  have hvalue : strtol (b :: (text ++ rest)) = n := by
    unfold strtol
    rw [hspace]
    split
    · next heq => exact absurd (List.cons.inj heq).1 h45
    · next heq => exact absurd (List.cons.inj heq).1 h43
    · rw [hdigits]
      omega
  unfold scanLong
  simp only [hspace, hsign, hvalue, hdrop]
  simp [hdigit]

theorem sscanf_long (assigned : Nat) (format : List Directive) {n : Nat} (hn : n < 2 ^ 63) {rest : List UInt8}
    (hrest : ∀ b ∈ rest.head?, ¬ IsDigit b) :
    sscanf assigned (.long :: format) (decimal n ++ rest) =
      ((sscanf (assigned + 1) format rest).1, (n : Int) :: (sscanf (assigned + 1) format rest).2) := by
  rw [sscanf, scanLong_decimal hn hrest]

/-! ## The summary -/

theorem mailqFormat_eq : mailqFormat = literal (ascii "--") ++ .space :: .long :: .space ::
    (literal (ascii "Kbytes") ++ .space :: (literal (ascii "in") ++ .space :: .long ::
      literal (ascii " Requests."))) := by
  decide

/-- What is behind the last conversion changes nothing. -/
theorem sscanf_tail {assigned : Nat} (h : assigned ≠ 0) (text rest : List UInt8) :
    sscanf assigned (literal text) rest = ((assigned : Int), []) := by
  induction text generalizing rest with
  | nil => rfl
  | cons b text ih =>
    by_cases hb : isspace b = true
    · have := ih (rest.dropWhile isspace)
      simpa [literal, hb, sscanf] using this
    · cases rest with
      | nil => simp [literal, hb, sscanf, h]
      | cons c rest =>
        by_cases hc : c = b
        · have := ih rest
          simpa [literal, hb, sscanf, hc] using this
        · simp [literal, hb, sscanf, hc]

theorem sscanf_mailqSummary {kbytes requests : Nat} (hkbytes : kbytes < 2 ^ 63) (hrequests : requests < 2 ^ 63)
    {rest : List UInt8} (hrest : ∀ b ∈ rest.head?, ¬ IsDigit b) :
    sscanf 0 mailqFormat (ascii "-- " ++ decimal kbytes ++ ascii " Kbytes in " ++ decimal requests ++ rest) =
      (2, [(kbytes : Int), (requests : Int)]) := by
  obtain ⟨b, kdigits, hk, hb⟩ := exists_cons_decimal kbytes
  obtain ⟨c, rdigits, hr, hc⟩ := exists_cons_decimal requests
  have htext : ascii "-- " ++ decimal kbytes ++ ascii " Kbytes in " ++ decimal requests ++ rest =
      ascii "--" ++ 32 :: (decimal kbytes ++ 32 :: (ascii "Kbytes" ++ 32 :: (ascii "in" ++ 32 ::
        (decimal requests ++ rest)))) := by
    have h₁ : ascii "-- " = ascii "--" ++ [32] := rfl
    have h₂ : ascii " Kbytes in " = 32 :: (ascii "Kbytes" ++ 32 :: (ascii "in" ++ [32])) := rfl
    simp [h₁, h₂]
  have hspace : ∀ {d : UInt8} {digits text : List UInt8} {n : Nat} (assigned : Nat) (format : List Directive),
      decimal n = d :: digits → IsDigit d → sscanf assigned (.space :: format) (32 :: (decimal n ++ text)) =
        sscanf assigned format (decimal n ++ text) := by
    intro d digits text n assigned format hn hd
    rw [hn]
    exact sscanf_space assigned format (isspace_of_isDigit hd) (digits ++ text)
  have hno : ∀ text : List UInt8, ∀ d ∈ (32 :: text).head?, ¬ IsDigit d := by
    intro text d hd
    cases hd
    decide
  have hwords : (∀ b ∈ ascii "--", isspace b = false) ∧ (∀ b ∈ ascii "Kbytes", isspace b = false) ∧
      ∀ b ∈ ascii "in", isspace b = false :=
    ⟨List.all_iff_forall_prop.mp (by decide), List.all_iff_forall_prop.mp (by decide),
      List.all_iff_forall_prop.mp (by decide)⟩
  have hkb : ∀ (format : List Directive) (text : List UInt8), sscanf 1 (.space :: (literal (ascii "Kbytes") ++ format))
      (32 :: (ascii "Kbytes" ++ text)) = sscanf 1 format text := fun format text =>
    (sscanf_space 1 _ (by decide) _).trans (sscanf_literal 1 format hwords.2.1)
  have hin : ∀ (format : List Directive) (text : List UInt8), sscanf 1 (.space :: (literal (ascii "in") ++ format))
      (32 :: (ascii "in" ++ text)) = sscanf 1 format text := fun format text =>
    (sscanf_space 1 _ (by decide) _).trans (sscanf_literal 1 format hwords.2.2)
  rw [mailqFormat_eq, htext, sscanf_literal 0 _ hwords.1, hspace 0 _ hk hb, sscanf_long 0 _ hkbytes (hno _), hkb,
    hin, hspace 1 _ hr hc, sscanf_long 1 _ hrequests hrest, sscanf_tail (by decide)]
  rfl

theorem length_mailqSummary {kbytes requests : Nat} (hkbytes : kbytes < 2 ^ 63) (hrequests : requests < 2 ^ 63) :
    (mailqSummary kbytes requests).length < 1023 := by
  have hk := length_decimal_le (n := kbytes) (k := 19) (by decide) (by omega)
  have hr := length_decimal_le (n := requests) (k := 19) (by decide) (by omega)
  have h₁ : (ascii "-- ").length = 3 ∧ (ascii " Kbytes in ").length = 11 ∧ (ascii " Request.").length = 9 ∧
      (ascii " Requests.").length = 10 := by decide
  unfold mailqSummary
  split
  · simp only [List.length_append]
    omega
  · simp only [List.length_append]
    omega

theorem mem_mailqSummary {kbytes requests : Nat} {b : UInt8} (h : b ∈ mailqSummary kbytes requests) :
    IsDigit b ∨ b ∈ ascii "-- Kbytes in Requests." := by
  have hsub : ∀ text ∈ [ascii "-- ", ascii " Kbytes in ", ascii " Request.", ascii " Requests."],
      text ⊆ ascii "-- Kbytes in Requests." := by decide
  unfold mailqSummary at h
  simp only [List.mem_append] at h
  rcases h with (((h | h) | h) | h) | h
  · exact Or.inr (hsub _ (by decide) h)
  · exact Or.inl (isDigit_of_mem_decimal h)
  · exact Or.inr (hsub _ (by decide) h)
  · exact Or.inl (isDigit_of_mem_decimal h)
  · right
    split at h
    · exact hsub _ (by decide) h
    · exact hsub _ (by decide) h

theorem notMem_mailqSummary (kbytes requests : Nat) {b : UInt8} (h : b ∈ ([0, 10, 109] : List UInt8)) :
    b ∉ mailqSummary kbytes requests := by
  have hall : ∀ c ∈ ([0, 10, 109] : List UInt8), ¬ IsDigit c ∧ c ∉ ascii "-- Kbytes in Requests." :=
    List.all_iff_forall_prop.mp (by decide)
  intro hmem
  obtain ⟨hdigit, htext⟩ := hall b h
  exact (mem_mailqSummary hmem).elim hdigit htext

/-- The summary of a queue gives its number of requests, a single one included. -/
theorem Worker.getMailqNum_mailqSummary {kbytes requests : Nat} (hkbytes : kbytes < 2 ^ 63)
    (hrequests : requests < 2 ^ 63) : getMailqNum (some (mailqSummary kbytes requests ++ [10])) = requests := by
  have hline := CConfigFileReader.fgets_line (notMem_mailqSummary kbytes requests (b := 10) (by decide))
    (length_mailqSummary hkbytes hrequests) []
  have hnul : 0 ∉ mailqSummary kbytes requests ++ [10] := by
    rw [List.mem_append, not_or]
    exact ⟨notMem_mailqSummary kbytes requests (by decide), by decide⟩
  -- There is an `m` in "empty", and none in the summary.
  have hempty : ¬ ascii "empty" <:+: mailqSummary kbytes requests ++ [10] := by
    intro hinfix
    have hmem := hinfix.subset (show 109 ∈ ascii "empty" by decide)
    rcases List.mem_append.mp hmem with hmem | hmem
    · exact notMem_mailqSummary kbytes requests (by decide) hmem
    · exact absurd hmem (by decide)
  have hscan : sscanf 0 mailqFormat (mailqSummary kbytes requests ++ [10]) =
      (2, [(kbytes : Int), (requests : Int)]) := by
    unfold mailqSummary
    rw [List.append_assoc]
    apply sscanf_mailqSummary hkbytes hrequests
    split
    · rintro b ⟨⟩
      decide
    · rintro b ⟨⟩
      decide
  unfold getMailqNum
  simp only [hline, cstr_eq_self hnul, if_neg hempty, hscan]
  rfl

end PostfixEdm
