import Mathlib.Data.List.Basic

/-!
# Frames in a stream

A stream is the concatenation of its frames. Of the first `n` elements of the stream, `complete fs n`
frames are there to the last element, and `pending fs n` elements come behind them.

* `take_flatten` : the elements received are these frames and the pending elements;
* `complete_add`, `pending_add` : reception in two steps is reception at once, so the cut does not matter;
* `slices` : a list in pieces of at most `n` elements.
-/

namespace Framing

variable {α : Type*}

def complete : List (List α) → Nat → Nat
  | [], _ => 0
  | f :: fs, n => if f.length ≤ n then complete fs (n - f.length) + 1 else 0

def pending : List (List α) → Nat → Nat
  | [], n => n
  | f :: fs, n => if f.length ≤ n then pending fs (n - f.length) else n

section
variable {f : List α} {fs : List (List α)} {n : Nat}

theorem complete_of_le (h : f.length ≤ n) : complete (f :: fs) n = complete fs (n - f.length) + 1 := if_pos h

theorem complete_of_lt (h : n < f.length) : complete (f :: fs) n = 0 := if_neg (Nat.not_le.mpr h)

theorem pending_of_le (h : f.length ≤ n) : pending (f :: fs) n = pending fs (n - f.length) := if_pos h

theorem pending_of_lt (h : n < f.length) : pending (f :: fs) n = n := if_neg (Nat.not_le.mpr h)

end

/-- The part of the stream that has arrived and belongs to no complete frame. -/
def suffix (fs : List (List α)) (n : Nat) : List α :=
  ((fs.drop (complete fs n)).flatten).take (pending fs n)

theorem take_flatten (fs : List (List α)) (n : Nat) :
    fs.flatten.take n = (fs.take (complete fs n)).flatten ++ suffix fs n := by
  unfold suffix
  induction fs generalizing n with
  | nil => simp [complete]
  | cons f fs ih =>
    by_cases h : f.length ≤ n
    · rw [complete_of_le h, pending_of_le h, List.flatten_cons, List.take_append, List.take_of_length_le h,
        ih, List.take_succ_cons, List.drop_succ_cons, List.flatten_cons, List.append_assoc]
    · rw [complete_of_lt (Nat.lt_of_not_le h), pending_of_lt (Nat.lt_of_not_le h)]
      rfl

theorem complete_add (fs : List (List α)) (n m : Nat) :
    complete fs (n + m) = complete fs n + complete (fs.drop (complete fs n)) (pending fs n + m) := by
  induction fs generalizing n with
  | nil => rfl
  | cons f fs ih =>
    by_cases h : f.length ≤ n
    · rw [complete_of_le h, pending_of_le h, complete_of_le (by omega), List.drop_succ_cons,
        show n + m - f.length = n - f.length + m by omega, ih]
      omega
    · rw [complete_of_lt (Nat.lt_of_not_le h), pending_of_lt (Nat.lt_of_not_le h), List.drop_zero, Nat.zero_add]

theorem pending_add (fs : List (List α)) (n m : Nat) :
    pending fs (n + m) = pending (fs.drop (complete fs n)) (pending fs n + m) := by
  induction fs generalizing n with
  | nil => rfl
  | cons f fs ih =>
    by_cases h : f.length ≤ n
    · rw [complete_of_le h, pending_of_le h, pending_of_le (by omega), List.drop_succ_cons,
        show n + m - f.length = n - f.length + m by omega, ih]
    · rw [complete_of_lt (Nat.lt_of_not_le h), pending_of_lt (Nat.lt_of_not_le h), List.drop_zero]

theorem pending_le (fs : List (List α)) (n : Nat) : pending fs n ≤ n := by
  induction fs generalizing n with
  | nil => exact Nat.le_refl n
  | cons f fs ih =>
    unfold pending
    split
    · exact Nat.le_trans (ih _) (Nat.sub_le _ _)
    · exact Nat.le_refl n

theorem length_suffix {fs : List (List α)} {n : Nat} (h : n ≤ fs.flatten.length) :
    (suffix fs n).length = pending fs n := by
  induction fs generalizing n with
  | nil => simpa [suffix, pending] using (Nat.le_zero.mp h).symm
  | cons f fs ih =>
    rw [List.flatten_cons, List.length_append] at h
    by_cases hf : f.length ≤ n
    · have := ih (n := n - f.length) (by omega)
      unfold suffix at this ⊢
      rw [complete_of_le hf, pending_of_le hf, List.drop_succ_cons, this]
    · unfold suffix
      rw [complete_of_lt (Nat.lt_of_not_le hf), pending_of_lt (Nat.lt_of_not_le hf), List.drop_zero,
        List.length_take, List.flatten_cons, List.length_append]
      omega

/-- More of the stream arrives: the pending elements and the new ones continue it from the next frame on. -/
theorem suffix_append {fs : List (List α)} {n : Nat} {new : List α} (hn : n ≤ fs.flatten.length)
    (h : fs.flatten.take (n + new.length) = fs.flatten.take n ++ new) :
    suffix fs n ++ new = ((fs.drop (complete fs n)).flatten).take (pending fs n + new.length) := by
  have hsplit : fs.flatten = (fs.take (complete fs n)).flatten ++ (fs.drop (complete fs n)).flatten := by
    rw [← List.flatten_append, List.take_append_drop]
  have hlen : n = (fs.take (complete fs n)).flatten.length + pending fs n := by
    have := congrArg List.length (take_flatten fs n)
    rw [List.length_take, List.length_append, length_suffix hn] at this
    omega
  rw [take_flatten fs n, List.append_assoc, hsplit, List.take_append, List.take_of_length_le (by omega)] at h
  rw [← List.append_cancel_left h]
  congr 1
  omega

theorem suffix_add (fs : List (List α)) (n m : Nat) :
    suffix fs (n + m) = suffix (fs.drop (complete fs n)) (pending fs n + m) := by
  rw [suffix, suffix, complete_add, pending_add, List.drop_drop]

/-! ## Slices -/

/-- Cuts `n` elements off the list until it is empty; the length of the list is fuel enough. -/
def slicesFuel (n : Nat) : Nat → List α → List (List α)
  | _, [] => []
  | 0, _ :: _ => []
  | fuel + 1, a :: l => (a :: l).take n :: slicesFuel n fuel ((a :: l).drop n)

def slices (n : Nat) (l : List α) : List (List α) := slicesFuel n l.length l

theorem flatten_slicesFuel {n fuel : Nat} (hn : 0 < n) {l : List α} (h : l.length ≤ fuel) :
    (slicesFuel n fuel l).flatten = l := by
  induction fuel generalizing l with
  | zero =>
    rw [List.eq_nil_of_length_eq_zero (Nat.le_zero.mp h)]
    rfl
  | succ fuel ih =>
    cases l with
    | nil => rfl
    | cons a l =>
      rw [slicesFuel, List.flatten_cons, ih (by rw [List.length_drop]; omega), List.take_append_drop]

theorem flatten_slices {n : Nat} (hn : 0 < n) (l : List α) : (slices n l).flatten = l :=
  flatten_slicesFuel hn (Nat.le_refl _)

theorem length_le_of_mem_slices {n : Nat} {l s : List α} (h : s ∈ slices n l) : s.length ≤ n := by
  unfold slices at h
  generalize l.length = fuel at h
  induction fuel generalizing l with
  | zero => cases l <;> cases h
  | succ fuel ih =>
    cases l with
    | nil => cases h
    | cons a l =>
      rcases List.mem_cons.mp h with rfl | h
      · rw [List.length_take]
        omega
      · exact ih h

end Framing
