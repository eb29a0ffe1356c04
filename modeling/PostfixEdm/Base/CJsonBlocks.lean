import PostfixEdm.Base.CJsonTree

/-!
# The blocks of the printer

`cJSON.c` counts the bytes of a text in an `int` and allocates a block of that size.

* `intAdd` : an `int` that counts;
* `JsonItem.allocated` : the size of the block for the text of an item;
* `JsonItem.Fits` : every count stays an `int`, and every text and its NUL fit their block;
* `blocks_suffice_iff` : when an item does; `JsonItem.counted_of_length` : shorter texts are counted.
-/

namespace PostfixEdm

variable {δ : Type}

/-! ## Counting -/

/-- `len += n`; an `int` that leaves its range has no value. -/
def intAdd (len n : Nat) : Option Nat := if len + n < 2 ^ 31 then some (len + n) else none

theorem intAdd_eq_some_iff {len n size : Nat} : intAdd len n = some size ↔ len + n < 2 ^ 31 ∧ len + n = size := by
  simp [intAdd]

theorem intAdd_zero {len : Nat} (h : len < 2 ^ 31) : intAdd len 0 = some len := if_pos h

theorem intAdd_bind {len a b : Nat} {f : Nat → Option Nat} (hf : ∀ size < 2 ^ 31, f size = intAdd size b) :
    (intAdd len a).bind f = intAdd len (a + b) := by
  by_cases h : len + a < 2 ^ 31
  · rw [intAdd, if_pos h, Option.bind_some, hf _ h, intAdd, intAdd, Nat.add_assoc]
  · have hno : ¬ len + (a + b) < 2 ^ 31 := by omega
    rw [intAdd, if_neg h, intAdd, if_neg hno]
    rfl

/-- A loop that counts has a value if and only if the sum has one. -/
theorem foldlM_intAdd {α : Type} (f : α → Nat) (xs : List α) {len : Nat} (h : len < 2 ^ 31) :
    xs.foldlM (fun len x => intAdd len (f x)) len = intAdd len (xs.map f).sum := by
  induction xs generalizing len with
  | nil => exact (intAdd_zero h).symm
  | cons x xs ih =>
    rw [List.map_cons, List.sum_cons, List.foldlM_cons]
    exact intAdd_bind fun size hlt => ih hlt

/-! ## Sizes -/

/-- What a byte of a string adds to `len` of `print_string_ptr`. -/
def escapeLen (b : UInt8) : Nat := if b ∈ [34, 92, 8, 12, 10, 13, 9] then 2 else if b < 32 then 6 else 1

/-- The size that `print_string_ptr` allocates. -/
def stringAllocated (str : CString) : Option Nat :=
  (str.bytes.foldlM (fun len b => intAdd len (escapeLen b)) 0).bind fun len => intAdd len 3

/-- `len` of `print_array`. -/
def JsonItems.len (dbl : CDouble δ) (depth : Nat) (fmt : Bool) (len : Nat) : JsonItems δ → Option Nat
  | .nil => some len
  | .cons item next =>
    (intAdd len ((item.print dbl depth fmt).length + 2 + (if fmt then 1 else 0))).bind fun len =>
      next.len dbl depth fmt len

/-- `len` of `print_object`. -/
def JsonMembers.len (dbl : CDouble δ) (depth : Nat) (fmt : Bool) (len : Nat) : JsonMembers δ → Option Nat
  | .nil => some len
  | .cons name item next =>
    (intAdd len ((item.print dbl depth fmt).length + (printStringPtr name).length + 2 +
      (if fmt then 2 + depth else 0))).bind fun len => next.len dbl depth fmt len

/-- The size that the printer allocates for the text of an item. A number gets 21 bytes when it is an `int`, and
64 bytes otherwise. -/
def JsonItem.allocated (dbl : CDouble δ) (depth : Nat) (fmt : Bool) : JsonItem δ → Option Nat
  | .null | .true => some 5
  | .false => some 6
  | .number valuedouble => some (if dbl.isInt valuedouble then 21 else 64)
  | .string valuestring => stringAllocated valuestring
  | .array child => child.len dbl (depth + 1) fmt 5
  | .object child =>
    (intAdd 7 (if fmt then depth + 1 else 0)).bind fun len => child.len dbl (depth + 1) fmt len

/-- The text and its NUL fit a block that is allocated. -/
def FitsBlock (text : List UInt8) (allocated : Option Nat) : Prop := ∃ size ∈ allocated, text.length + 1 ≤ size

mutual
/-- No count leaves its range and no block is overrun while the item is printed. -/
def JsonItem.Fits (dbl : CDouble δ) (depth : Nat) (fmt : Bool) : JsonItem δ → Prop
  | .array child =>
    child.Fits dbl (depth + 1) fmt ∧
      FitsBlock ((JsonItem.array child).print dbl depth fmt) ((JsonItem.array child).allocated dbl depth fmt)
  | .object child =>
    child.Fits dbl (depth + 1) fmt ∧
      FitsBlock ((JsonItem.object child).print dbl depth fmt) ((JsonItem.object child).allocated dbl depth fmt)
  | item => FitsBlock (item.print dbl depth fmt) (item.allocated dbl depth fmt)

def JsonItems.Fits (dbl : CDouble δ) (depth : Nat) (fmt : Bool) : JsonItems δ → Prop
  | .nil => True
  | .cons item next => item.Fits dbl depth fmt ∧ next.Fits dbl depth fmt

def JsonMembers.Fits (dbl : CDouble δ) (depth : Nat) (fmt : Bool) : JsonMembers δ → Prop
  | .nil => True
  | .cons name item next =>
    FitsBlock (printStringPtr name) (stringAllocated name) ∧ item.Fits dbl depth fmt ∧ next.Fits dbl depth fmt
end

/-! ## Sizes in full -/

/-- The size of the block of a string. -/
def stringRoom (str : CString) : Nat := (str.bytes.map escapeLen).sum + 3

/-- What the entries of an array add to `len`. -/
def JsonItems.room (dbl : CDouble δ) (depth : Nat) (fmt : Bool) : JsonItems δ → Nat
  | .nil => 0
  | .cons item next => (item.print dbl depth fmt).length + 2 + (if fmt then 1 else 0) + next.room dbl depth fmt

/-- What the entries of an object add to `len`. -/
def JsonMembers.room (dbl : CDouble δ) (depth : Nat) (fmt : Bool) : JsonMembers δ → Nat
  | .nil => 0
  | .cons name item next =>
    (item.print dbl depth fmt).length + (printStringPtr name).length + 2 + (if fmt then 2 + depth else 0) +
      next.room dbl depth fmt

/-- The size of the block of an item, without the bound of an `int`. -/
def JsonItem.room (dbl : CDouble δ) (depth : Nat) (fmt : Bool) : JsonItem δ → Nat
  | .null | .true => 5
  | .false => 6
  | .number valuedouble => if dbl.isInt valuedouble then 21 else 64
  | .string valuestring => stringRoom valuestring
  | .array child => 5 + child.room dbl (depth + 1) fmt
  | .object child => 7 + (if fmt then depth + 1 else 0) + child.room dbl (depth + 1) fmt

mutual
/-- Every block of the item and of what it holds is smaller than `2^31` bytes. -/
def JsonItem.Counted (dbl : CDouble δ) (depth : Nat) (fmt : Bool) : JsonItem δ → Prop
  | .array child => child.Counted dbl (depth + 1) fmt ∧ (JsonItem.array child).room dbl depth fmt < 2 ^ 31
  | .object child => child.Counted dbl (depth + 1) fmt ∧ (JsonItem.object child).room dbl depth fmt < 2 ^ 31
  | item => item.room dbl depth fmt < 2 ^ 31

def JsonItems.Counted (dbl : CDouble δ) (depth : Nat) (fmt : Bool) : JsonItems δ → Prop
  | .nil => True
  | .cons item next => item.Counted dbl depth fmt ∧ next.Counted dbl depth fmt

def JsonMembers.Counted (dbl : CDouble δ) (depth : Nat) (fmt : Bool) : JsonMembers δ → Prop
  | .nil => True
  | .cons name item next => stringRoom name < 2 ^ 31 ∧ item.Counted dbl depth fmt ∧ next.Counted dbl depth fmt
end

theorem stringAllocated_eq (str : CString) : stringAllocated str = intAdd 0 (stringRoom str) := by
  rw [stringAllocated, foldlM_intAdd escapeLen str.bytes (by decide)]
  exact intAdd_bind fun _ _ => rfl

variable (dbl : CDouble δ)

theorem JsonItems.len_eq (depth : Nat) (fmt : Bool) (items : JsonItems δ) {len : Nat} (h : len < 2 ^ 31) :
    items.len dbl depth fmt len = intAdd len (items.room dbl depth fmt) := by
  cases items with
  | nil => exact (intAdd_zero h).symm
  | cons item next =>
    rw [JsonItems.len, JsonItems.room]
    exact intAdd_bind fun size hlt => JsonItems.len_eq depth fmt next hlt

theorem JsonMembers.len_eq (depth : Nat) (fmt : Bool) (members : JsonMembers δ) {len : Nat} (h : len < 2 ^ 31) :
    members.len dbl depth fmt len = intAdd len (members.room dbl depth fmt) := by
  cases members with
  | nil => exact (intAdd_zero h).symm
  | cons name item next =>
    rw [JsonMembers.len, JsonMembers.room]
    exact intAdd_bind fun size hlt => JsonMembers.len_eq depth fmt next hlt

/-- The counts give the size in full, while that is an `int`. -/
theorem JsonItem.allocated_eq (depth : Nat) (fmt : Bool) (item : JsonItem δ) :
    item.allocated dbl depth fmt = intAdd 0 (item.room dbl depth fmt) := by
  cases item with
  | null | false | true => rfl
  | number valuedouble =>
    rw [JsonItem.allocated, JsonItem.room]
    cases dbl.isInt valuedouble <;> rfl
  | string valuestring => exact stringAllocated_eq valuestring
  | array child =>
    rw [JsonItem.allocated, child.len_eq dbl (depth + 1) fmt (by decide), JsonItem.room, intAdd, intAdd, Nat.zero_add]
  | object child =>
    rw [JsonItem.allocated, JsonItem.room, intAdd_bind fun len hlt => child.len_eq dbl (depth + 1) fmt hlt, intAdd,
      intAdd, Nat.zero_add, Nat.add_assoc]

theorem fitsBlock_iff (text : List UInt8) (room : Nat) :
    FitsBlock text (intAdd 0 room) ↔ room < 2 ^ 31 ∧ text.length + 1 ≤ room := by
  simp only [FitsBlock, Option.mem_def, intAdd_eq_some_iff, Nat.zero_add, and_assoc, exists_and_left, exists_eq_left']

/-! ## Texts and blocks -/

theorem length_escape (b : UInt8) :
    (escape b).length = escapeLen b := by
  unfold escape escapeLen
  by_cases hmem : b ∈ [34, 92, 8, 12, 10, 13, 9]
  · rw [if_pos hmem]
    simp only [List.mem_cons, List.not_mem_nil, or_false] at hmem
    rcases hmem with rfl | rfl | rfl | rfl | rfl | rfl | rfl <;> rfl
  · rw [if_neg hmem]
    simp only [List.mem_cons, List.not_mem_nil, or_false, not_or] at hmem
    obtain ⟨h34, h92, h8, h12, h10, h13, h9⟩ := hmem
    by_cases h32 : b < 32
    · have hno : ¬ 31 < b := by
        rw [UInt8.lt_iff_toNat_lt] at h32 ⊢
        exact Nat.not_lt.mpr (Nat.lt_succ_iff.mp h32)
      simp [hno, h34, h92, h8, h12, h10, h13, h9, h32]
    · have hyes : 31 < b := by
        rw [UInt8.lt_iff_toNat_lt] at h32 ⊢
        exact Nat.lt_of_succ_le (Nat.le_of_not_lt h32)
      simp [hyes, h34, h92, h32]

/-- The block of a string is exactly as long as its text and the NUL. -/
theorem length_printStringPtr (str : CString) : (printStringPtr str).length + 1 = stringRoom str := by
  have hlen : (str.bytes.flatMap escape).length = (str.bytes.map escapeLen).sum := by
    rw [List.length_flatMap]
    congr 1
    exact List.map_congr_left fun b _ => length_escape b
  simp only [printStringPtr, List.length_append, List.length_singleton, hlen, stringRoom]
  omega

theorem fits_string (str : CString) :
    FitsBlock (printStringPtr str) (stringAllocated str) ↔ stringRoom str < 2 ^ 31 := by
  rw [stringAllocated_eq, fitsBlock_iff, length_printStringPtr]
  exact and_iff_left (Nat.le_refl _)

theorem length_layout (fmt : Bool) (text : List UInt8) :
    (layout fmt text).length = if fmt then text.length else 0 := by
  cases fmt <;> rfl

theorem JsonItems.length_print_le (depth : Nat) (fmt : Bool) (items : JsonItems δ) :
    (items.print dbl depth fmt).length ≤ items.room dbl depth fmt := by
  cases items with
  | nil => exact Nat.le_refl 0
  | cons item next =>
    have ih := JsonItems.length_print_le depth fmt next
    cases next with
    | nil =>
      simp only [JsonItems.print, JsonItems.room]
      omega
    | cons item' next' =>
      simp only [JsonItems.print, List.length_append, List.length_singleton, length_layout]
      rw [JsonItems.room]
      cases fmt
      · simp only [Bool.false_eq_true, if_false]
        omega
      · simp only [if_true]
        omega

theorem JsonMembers.length_print_le (depth : Nat) (fmt : Bool) (members : JsonMembers δ) :
    (members.print dbl depth fmt).length ≤ members.room dbl depth fmt := by
  cases members with
  | nil => exact Nat.le_refl 0
  | cons name item next =>
    have ih := JsonMembers.length_print_le depth fmt next
    cases next with
    | nil =>
      simp only [JsonMembers.print, JsonMembers.room, List.length_append, List.length_singleton, length_layout, tabs,
        List.length_replicate]
      cases fmt
      · simp only [Bool.false_eq_true, if_false]
        omega
      · simp only [if_true]
        omega
    | cons name' item' next' =>
      simp only [JsonMembers.print, List.length_append, List.length_singleton, length_layout, tabs,
        List.length_replicate]
      rw [JsonMembers.room]
      cases fmt
      · simp only [Bool.false_eq_true, if_false]
        omega
      · simp only [if_true]
        omega

theorem JsonItem.length_print_array (depth : Nat) (fmt : Bool) (child : JsonItems δ) :
    ((JsonItem.array child).print dbl depth fmt).length + 1 ≤ (JsonItem.array child).room dbl depth fmt := by
  have hlen := JsonItems.length_print_le dbl (depth + 1) fmt child
  simp only [JsonItem.print, JsonItem.room, List.length_append, List.length_singleton]
  omega

theorem JsonItem.length_print_object (depth : Nat) (fmt : Bool) (child : JsonMembers δ) :
    ((JsonItem.object child).print dbl depth fmt).length + 1 ≤ (JsonItem.object child).room dbl depth fmt := by
  have hlen := JsonMembers.length_print_le dbl (depth + 1) fmt child
  simp only [JsonItem.print, JsonItem.room, List.length_append, List.length_singleton, length_layout, tabs,
    List.length_replicate]
  split <;> omega

/-! ## Numbers -/

/-- An integer that `%.0f` writes into 63 bytes, the sign included. -/
def Int63 (n : Int) : Prop := -10 ^ 62 < n ∧ n < 10 ^ 63

theorem length_decimal_iff {n k : Nat} (hk : 0 < k) : (decimal n).length ≤ k ↔ n < 10 ^ k := by
  refine ⟨fun h => ?_, length_decimal_le hk⟩
  unfold decimal at h
  split at h
  · next h0 =>
    rw [h0]
    exact Nat.pow_pos (by decide)
  · rw [List.length_map, List.length_reverse] at h
    exact (Nat.digits_length_le_iff (by decide) n).mp h

theorem length_printNumber_iff (n : Int) : (printNumber n).length + 1 ≤ 64 ↔ Int63 n := by
  unfold printNumber Int63
  by_cases hneg : n < 0
  · have h := length_decimal_iff (n := n.natAbs) (show 0 < 62 by decide)
    rw [if_pos hneg, List.length_append, List.length_singleton]
    constructor
    · intro hle
      have := h.mp (by omega)
      omega
    · intro hrange
      have := h.mpr (by omega)
      omega
  · have h := length_decimal_iff (n := n.natAbs) (show 0 < 63 by decide)
    rw [if_neg hneg, List.nil_append]
    constructor
    · intro hle
      have := h.mp (by omega)
      omega
    · intro hrange
      have := h.mpr (by omega)
      omega

/-- An `int` fits the short block. -/
theorem length_printNumber_int {n : Int} (h : -2 ^ 31 ≤ n ∧ n < 2 ^ 31) : (printNumber n).length + 1 ≤ 21 := by
  have hdec := length_decimal_le (n := n.natAbs) (show 0 < 10 by decide) (by omega)
  unfold printNumber
  rw [List.length_append]
  split
  · rw [List.length_singleton]
    omega
  · rw [List.length_nil]
    omega

/-- An integer that `%.0f` writes is not longer than 63 bytes. -/
def CDouble.Within63 (valuedouble : δ) : Prop :=
  ∀ n, dbl.isInt valuedouble = false → dbl.whole valuedouble = some n → Int63 n

/-- The text of a number fits its block. -/
theorem CDouble.fits_iff (valuedouble : δ) :
    (dbl.text valuedouble).length + 1 ≤ (if dbl.isInt valuedouble then 21 else 64) ↔ dbl.Within63 valuedouble := by
  unfold CDouble.text CDouble.Within63
  cases hint : dbl.isInt valuedouble with
  | true =>
    rw [if_pos rfl, if_pos rfl]
    exact iff_of_true (length_printNumber_int (dbl.valueint_range valuedouble hint)) fun _ h => by cases h
  | false =>
    rw [if_neg Bool.false_ne_true, if_neg Bool.false_ne_true]
    cases hwhole : dbl.whole valuedouble with
    | none => exact iff_of_true (dbl.length_short valuedouble hint hwhole) fun _ _ h => by cases h
    | some n =>
      rw [length_printNumber_iff]
      constructor
      · rintro h m - ⟨⟩
        exact h
      · exact fun h => h n rfl rfl

/-! ## Overruns -/

/-- The text of a number fits its block. -/
def CDouble.FitsBlock (valuedouble : δ) : Prop :=
  (dbl.text valuedouble).length + 1 ≤ if dbl.isInt valuedouble then 21 else 64

theorem fits_number (depth : Nat) (fmt : Bool) (valuedouble : δ) :
    (JsonItem.number valuedouble).Fits dbl depth fmt ↔ dbl.FitsBlock valuedouble := by
  simp [JsonItem.Fits, PostfixEdm.FitsBlock, JsonItem.allocated, JsonItem.print, CDouble.FitsBlock]

theorem counted_number (depth : Nat) (fmt : Bool) (valuedouble : δ) :
    (JsonItem.number valuedouble).Counted dbl depth fmt := by
  simp only [JsonItem.Counted, JsonItem.room]
  split <;> decide

mutual
/-- Nothing but a number overruns a block that is counted. -/
theorem JsonItem.fits_iff (depth : Nat) (fmt : Bool) (item : JsonItem δ) :
    item.Fits dbl depth fmt ↔ item.Counted dbl depth fmt ∧ item.All dbl.FitsBlock := by
  cases item with
  | null | false | true =>
    simp [JsonItem.Fits, PostfixEdm.FitsBlock, JsonItem.allocated, JsonItem.print, JsonItem.Counted, JsonItem.room,
      JsonItem.All, ascii]
  | number valuedouble => rw [fits_number, and_iff_right (counted_number ..), JsonItem.All]
  | string valuestring => exact (fits_string valuestring).trans (and_iff_left trivial).symm
  | array child =>
    have hlen := JsonItem.length_print_array dbl depth fmt child
    rw [JsonItem.Fits, JsonItem.Counted, JsonItem.All, JsonItem.allocated_eq, fitsBlock_iff, and_iff_left hlen,
      JsonItems.fits_iff (depth + 1) fmt child]
    tauto
  | object child =>
    have hlen := JsonItem.length_print_object dbl depth fmt child
    rw [JsonItem.Fits, JsonItem.Counted, JsonItem.All, JsonItem.allocated_eq, fitsBlock_iff, and_iff_left hlen,
      JsonMembers.fits_iff (depth + 1) fmt child]
    tauto

theorem JsonItems.fits_iff (depth : Nat) (fmt : Bool) (items : JsonItems δ) :
    items.Fits dbl depth fmt ↔ items.Counted dbl depth fmt ∧ items.All dbl.FitsBlock := by
  cases items with
  | nil => simp [JsonItems.Fits, JsonItems.Counted, JsonItems.All]
  | cons item next =>
    rw [JsonItems.Fits, JsonItems.Counted, JsonItems.All, JsonItem.fits_iff depth fmt item,
      JsonItems.fits_iff depth fmt next]
    tauto

theorem JsonMembers.fits_iff (depth : Nat) (fmt : Bool) (members : JsonMembers δ) :
    members.Fits dbl depth fmt ↔ members.Counted dbl depth fmt ∧ members.All dbl.FitsBlock := by
  cases members with
  | nil => simp [JsonMembers.Fits, JsonMembers.Counted, JsonMembers.All]
  | cons name item next =>
    rw [JsonMembers.Fits, JsonMembers.Counted, JsonMembers.All, fits_string, JsonItem.fits_iff depth fmt item,
      JsonMembers.fits_iff depth fmt next]
    tauto
end

/-- No count leaves its range and no block is overrun if and only if the blocks are smaller than `2^31` bytes and
`%.0f` writes no integer that is longer than 63 bytes. -/
theorem blocks_suffice_iff (depth : Nat) (fmt : Bool) (item : JsonItem δ) :
    item.Fits dbl depth fmt ↔ item.Counted dbl depth fmt ∧ item.All dbl.Within63 := by
  have hnumbers : dbl.FitsBlock = dbl.Within63 := funext fun d => propext (dbl.fits_iff d)
  rw [item.fits_iff, hnumbers]

theorem blocks_suffice_iff_long : ¬ (JsonItem.number ((2 : Int) ^ 210)).Fits intDouble 0 true := by
  rw [blocks_suffice_iff]
  rintro ⟨-, hall⟩
  have hwithin : Int63 (2 ^ 210) := hall (2 ^ 210) (by decide +kernel) rfl
  exact absurd hwithin.2 (by decide +kernel)

/-! ## Short texts -/

/-- An array gets at most twice as much as its entries need. -/
theorem JsonItems.room_le (depth : Nat) (fmt : Bool) (items : JsonItems δ) :
    items.room dbl depth fmt ≤ 2 * (items.print dbl depth fmt).length + 3 := by
  cases items with
  | nil => exact Nat.zero_le _
  | cons item next =>
    have ih := JsonItems.room_le depth fmt next
    cases next with
    | nil =>
      simp only [JsonItems.print, JsonItems.room]
      split <;> omega
    | cons item' next' =>
      simp only [JsonItems.print, List.length_append, List.length_singleton, length_layout]
      rw [JsonItems.room]
      split <;> omega

theorem JsonMembers.room_le (depth : Nat) (fmt : Bool) (members : JsonMembers δ) :
    members.room dbl depth fmt ≤ (members.print dbl depth fmt).length + 1 := by
  cases members with
  | nil => exact Nat.zero_le _
  | cons name item next =>
    have ih := JsonMembers.room_le depth fmt next
    cases next with
    | nil =>
      simp only [JsonMembers.print, JsonMembers.room, List.length_append, List.length_singleton, length_layout, tabs,
        List.length_replicate]
      split <;> omega
    | cons name' item' next' =>
      simp only [JsonMembers.print, List.length_append, List.length_singleton, length_layout, tabs,
        List.length_replicate]
      rw [JsonMembers.room]
      split <;> omega

mutual
/-- A text of less than about a gigabyte is counted. -/
theorem JsonItem.counted_of_length {depth : Nat} {fmt : Bool} {item : JsonItem δ}
    (h : 2 * (item.print dbl depth fmt).length + 64 < 2 ^ 31) : item.Counted dbl depth fmt := by
  cases item with
  | null | false | true => simp [JsonItem.Counted, JsonItem.room]
  | number valuedouble => exact counted_number ..
  | string valuestring =>
    have hlen := length_printStringPtr valuestring
    rw [JsonItem.print] at h
    have hroom : stringRoom valuestring < 2 ^ 31 := by omega
    exact hroom
  | array child =>
    have hroom := JsonItems.room_le dbl (depth + 1) fmt child
    simp only [JsonItem.print, List.length_append, List.length_singleton] at h
    refine ⟨JsonItems.counted_of_length (by omega), ?_⟩
    rw [JsonItem.room]
    omega
  | object child =>
    have hroom := JsonMembers.room_le dbl (depth + 1) fmt child
    simp only [JsonItem.print, List.length_append, List.length_singleton, length_layout, tabs,
      List.length_replicate] at h
    refine ⟨JsonMembers.counted_of_length (by omega), ?_⟩
    rw [JsonItem.room]
    cases fmt
    · rw [if_neg Bool.false_ne_true]
      omega
    · simp only [if_true] at h ⊢
      omega

theorem JsonItems.counted_of_length {depth : Nat} {fmt : Bool} {items : JsonItems δ}
    (h : 2 * (items.print dbl depth fmt).length + 64 < 2 ^ 31) : items.Counted dbl depth fmt := by
  cases items with
  | nil => trivial
  | cons item next =>
    cases next with
    | nil => exact ⟨JsonItem.counted_of_length (by rwa [JsonItems.print] at h), trivial⟩
    | cons item' next' =>
      simp only [JsonItems.print, List.length_append] at h
      exact ⟨JsonItem.counted_of_length (by omega), JsonItems.counted_of_length (by omega)⟩

theorem JsonMembers.counted_of_length {depth : Nat} {fmt : Bool} {members : JsonMembers δ}
    (h : 2 * (members.print dbl depth fmt).length + 64 < 2 ^ 31) : members.Counted dbl depth fmt := by
  cases members with
  | nil => trivial
  | cons name item next =>
    have hlen := length_printStringPtr name
    cases next with
    | nil =>
      simp only [JsonMembers.print, List.length_append] at h
      exact ⟨by omega, JsonItem.counted_of_length (by omega), trivial⟩
    | cons name' item' next' =>
      simp only [JsonMembers.print, List.length_append] at h
      exact ⟨by omega, JsonItem.counted_of_length (by omega), JsonMembers.counted_of_length (by omega)⟩
end

end PostfixEdm
