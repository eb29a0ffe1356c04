import Mathlib.Data.List.Basic

/-!
# The header of a message

A message is lines, each ended by `lf`; the lines before the first empty one are its header. A line that begins with
a byte of `cont` continues the field of the line before it.

* `headerFields` : the fields of the header;
* `Folds` : every line of a string but the first continues the one before it;
* `headerFields_eq_iff` : the fields of a message are read as they were written exactly when each of them folds.
-/

namespace Message

variable {α : Type*} [DecidableEq α] (lf : α) (cont : α → Bool)

/-- The next line continues the field. -/
def continues (rest : List α) : Bool := rest.head?.any cont

/-- `carry` is what has been read of the field so far. A line that is not ended is a field as well. -/
def headerFields : List α → List α → List (List α)
  | carry, [] => if carry = [] then [] else [carry]
  | carry, b :: rest =>
    if b = lf then
      if carry = [] then []
      else if continues cont rest then headerFields (carry ++ [b]) rest
      else carry :: headerFields [] rest
    else headerFields (carry ++ [b]) rest

def Folds : List α → Prop
  | [] => True
  | b :: rest => (b = lf → continues cont rest) ∧ Folds rest

instance decidableFolds : DecidablePred (Folds lf cont)
  | [] => isTrue trivial
  | b :: rest =>
    have : Decidable (Folds lf cont rest) := decidableFolds rest
    inferInstanceAs (Decidable ((b = lf → continues cont rest) ∧ Folds lf cont rest))

variable {lf cont}

omit [DecidableEq α] in
theorem continues_append {s : List α} (h : continues cont s) (t : List α) : continues cont (s ++ t) := by
  cases s with
  | nil => cases h
  | cons b rest => exact h

omit [DecidableEq α] in
theorem Folds.append {s t : List α} (hs : Folds lf cont s) (ht : Folds lf cont t) : Folds lf cont (s ++ t) := by
  induction s with
  | nil => exact ht
  | cons b rest ih => exact ⟨fun heq => continues_append (hs.1 heq) t, ih hs.2⟩

omit [DecidableEq α] in
/-- What follows a string does not continue its last line, and so does not matter. -/
theorem folds_append_iff {s t : List α} (ht : Folds lf cont t) (hsep : ¬ continues cont t) :
    Folds lf cont (s ++ t) ↔ Folds lf cont s := by
  induction s with
  | nil => exact iff_of_true ht trivial
  | cons b rest ih =>
    refine and_congr (imp_congr_right fun _ => ?_) ih
    cases rest with
    | nil => exact iff_of_false hsep nofun
    | cons c rest => exact Iff.rfl

omit [DecidableEq α] in
theorem folds_append_of_notMem {s : List α} (hs : lf ∉ s) (t : List α) : Folds lf cont (s ++ t) ↔ Folds lf cont t := by
  induction s with
  | nil => exact Iff.rfl
  | cons b rest ih =>
    have hrest := ih fun hmem => hs (List.mem_cons_of_mem _ hmem)
    exact ⟨fun h => hrest.mp h.2, fun h => ⟨fun heq => absurd (heq ▸ List.mem_cons_self) hs, hrest.mpr h⟩⟩

/-! ## Reading what was written -/

/-- The rest of a field is read to its end. -/
theorem headerFields_append {carry s rest : List α} (hs : Folds lf cont s) (hne : carry ++ s ≠ [])
    (hcarry : carry = [] → s.head? ≠ some lf) (hrest : ¬ continues cont rest) :
    headerFields lf cont carry (s ++ lf :: rest) = (carry ++ s) :: headerFields lf cont [] rest := by
  induction s generalizing carry with
  | nil =>
    rw [List.append_nil] at hne
    rw [List.nil_append, List.append_nil, headerFields, if_pos rfl, if_neg hne, if_neg hrest]
  | cons b s ih =>
    have hnext : headerFields lf cont (carry ++ [b]) (s ++ lf :: rest) = _ := ih hs.2 (by simp) (by simp)
    rw [List.append_assoc, List.singleton_append] at hnext
    rw [List.cons_append, headerFields]
    split
    · next heq =>
      have hopen : carry ≠ [] := fun hnil => hcarry hnil (by rw [heq]; rfl)
      rw [if_neg hopen, if_pos (continues_append (hs.1 heq) _), hnext]
    · exact hnext

/-- A field begins with a byte that neither ends nor continues a line. -/
def Begins (lf : α) (cont : α → Bool) (s : List α) : Prop := ∃ b rest, s = b :: rest ∧ b ≠ lf ∧ cont b = false

/-- Fields that fold are read as they were written. The empty line ends the header. -/
theorem headerFields_message (hlf : cont lf = false) (body : List α) {fields : List (List α)}
    (hbegins : ∀ f ∈ fields, Begins lf cont f) (hfolds : ∀ f ∈ fields, Folds lf cont f) :
    headerFields lf cont [] (fields.flatMap (· ++ [lf]) ++ lf :: body) = fields := by
  induction fields with
  | nil =>
    rw [List.flatMap_nil, List.nil_append, headerFields, if_pos rfl, if_pos rfl]
  | cons f fields ih =>
    obtain ⟨b, s, rfl, hb, -⟩ := hbegins f List.mem_cons_self
    have hnext : ¬ continues cont (fields.flatMap (· ++ [lf]) ++ lf :: body) := by
      cases fields with
      | nil =>
        rw [Bool.not_eq_true]
        exact hlf
      | cons g fields =>
        obtain ⟨c, t, rfl, -, hc⟩ := hbegins g (List.mem_cons_of_mem _ List.mem_cons_self)
        rw [Bool.not_eq_true]
        exact hc
    rw [List.flatMap_cons, List.append_assoc, List.append_assoc, List.singleton_append,
      headerFields_append (hfolds _ List.mem_cons_self) (List.cons_ne_nil _ _)
        (fun _ heq => hb (Option.some.inj heq)) hnext,
      ih (fun g hg => hbegins g (List.mem_cons_of_mem _ hg)) fun g hg => hfolds g (List.mem_cons_of_mem _ hg)]
    rfl

/-- Any field that is read folds: a line that does not continue it has ended it. -/
theorem folds_of_mem (hlf : cont lf = false) {carry s f : List α}
    (hcarry : Folds lf cont carry ∨ ∃ c, carry = c ++ [lf] ∧ Folds lf cont c ∧ continues cont s)
    (h : f ∈ headerFields lf cont carry s) : Folds lf cont f := by
  induction s generalizing carry with
  | nil =>
    rw [headerFields] at h
    split at h
    · cases h
    · rcases hcarry with hcarry | ⟨_, _, _, hcont⟩
      · exact List.mem_singleton.mp h ▸ hcarry
      · cases hcont
  | cons b rest ih =>
    rw [headerFields] at h
    split at h
    · next heq =>
      have hcarry' : Folds lf cont carry := by
        refine hcarry.resolve_right fun ⟨_, _, _, hcont⟩ => ?_
        rw [continues, heq, List.head?_cons, Option.any_some, hlf] at hcont
        cases hcont
      split at h
      · cases h
      · split at h
        · next hnext => exact ih (.inr ⟨carry, by rw [heq], hcarry', hnext⟩) h
        · rcases List.mem_cons.mp h with rfl | h
          · exact hcarry'
          · have hnil : Folds lf cont [] := trivial
            exact ih (.inl hnil) h
    · next hne =>
      refine ih (.inl ?_) h
      have hb : Folds lf cont [b] := ⟨fun heq => absurd heq hne, trivial⟩
      rcases hcarry with hcarry | ⟨c, rfl, hc, hcont⟩
      · exact hcarry.append hb
      · rw [List.append_assoc]
        exact hc.append ⟨fun _ => hcont, hb⟩

/-- The fields of a message are read as they were written exactly when each of them folds. -/
theorem headerFields_eq_iff (hlf : cont lf = false) (body : List α) {fields : List (List α)}
    (hbegins : ∀ f ∈ fields, Begins lf cont f) :
    headerFields lf cont [] (fields.flatMap (· ++ [lf]) ++ lf :: body) = fields ↔ ∀ f ∈ fields, Folds lf cont f := by
  constructor
  · intro heq f hf
    have hnil : Folds lf cont [] := trivial
    rw [← heq] at hf
    exact folds_of_mem hlf (.inl hnil) hf
  · exact headerFields_message hlf body hbegins

end Message
