import Mathlib.Data.List.Nodup

/-!
# Walking a list while its entries come and go

A walk visits the entries of a list one by one. At a visit the cursor moves on first; then entries may be erased
anywhere and new ones may be put at the end. The cursor must not lose the entry it has moved on to.

* `Ahead c l ahead` : `ahead` is what the cursor `c` still has before it in `l`;
* `successor a l` : the entry behind `a`; `Ahead.advance`, `Ahead.edit` : the two halves of a visit;
* `Walk start lost turns l c` : the invariant of a walk that began with the entries `start`. `turns` are the
  entries it has visited, and `lost` holds of those that it does not answer for;
* `Walk.visit` : what one visit keeps; `Walk.finished`, `Walk.soon` : who has been visited, in the end and after as
  many visits as an entry had others before it.
-/

namespace Cursor

variable {α : Type*}

def Ahead (c : Option α) (l ahead : List α) : Prop := ∃ behind, l = behind ++ ahead ∧ c = ahead.head?

theorem ahead_all (l : List α) : Ahead l.head? l l := ⟨[], rfl, rfl⟩

section
variable {a : α} {c : Option α} {l ahead rest : List α}

theorem Ahead.subset (h : Ahead c l ahead) : ahead ⊆ l := by
  obtain ⟨behind, rfl, -⟩ := h
  exact List.subset_append_right behind ahead

theorem Ahead.cons (h : Ahead (some a) l ahead) : ∃ rest, ahead = a :: rest := by
  obtain ⟨_, -, hc⟩ := h
  obtain ⟨rest, hrest⟩ := List.head?_eq_some_iff.mp hc.symm
  exact ⟨rest, hrest⟩

theorem Ahead.nil (h : Ahead none l ahead) : ahead = [] := by
  obtain ⟨_, -, hc⟩ := h
  exact List.head?_eq_none_iff.mp hc.symm

/-- At the end of the list the cursor stays there, whatever is put before it. -/
theorem Ahead.edit {kept : α → Bool} (h : Ahead c l ahead) (hkept : ∀ b, c = some b → kept b = true)
    (born : List α) : ∃ more, Ahead c (l.filter kept ++ born) (ahead.filter kept ++ more) ∧ more ⊆ born := by
  obtain ⟨behind, rfl, rfl⟩ := h
  cases ahead with
  | nil => exact ⟨[], ⟨behind.filter kept ++ born, by simp, rfl⟩, List.nil_subset _⟩
  | cons b rest =>
    have hb : kept b = true := hkept b rfl
    refine ⟨born, ⟨behind.filter kept, ?_, ?_⟩, List.Subset.refl _⟩
    · rw [List.filter_append, List.append_assoc]
    · rw [List.filter_cons_of_pos hb]
      rfl

variable [DecidableEq α]

def successor (a : α) : List α → Option α
  | [] => none
  | b :: rest => if b = a then rest.head? else successor a rest

theorem mem_of_successor {b : α} (h : successor a l = some b) : b ∈ l := by
  induction l with
  | nil => cases h
  | cons x rest ih =>
    rw [successor] at h
    split at h
    · exact List.mem_cons_of_mem x (List.mem_of_head? h)
    · exact List.mem_cons_of_mem x (ih h)

theorem successor_append {behind : List α} (h : a ∉ behind) : successor a (behind ++ a :: rest) = rest.head? := by
  induction behind with
  | nil => simp [successor]
  | cons b behind ih =>
    rw [List.mem_cons, not_or] at h
    rw [List.cons_append, successor, if_neg (Ne.symm h.1), ih h.2]

theorem Ahead.advance (h : Ahead (some a) l (a :: rest)) (hnodup : l.Nodup) : Ahead (successor a l) l rest := by
  obtain ⟨behind, rfl, -⟩ := h
  have hnot : a ∉ behind := fun hin => (List.nodup_append.mp hnodup).2.2 a hin a List.mem_cons_self rfl
  exact ⟨behind ++ [a], by simp, successor_append hnot⟩

end

variable [DecidableEq α]

theorem idxOf_filter_le (kept : α → Bool) {b : α} (hb : kept b = true) (l : List α) :
    (l.filter kept).idxOf b ≤ l.idxOf b := by
  induction l with
  | nil => exact Nat.le_refl _
  | cons x l ih =>
    by_cases hxb : x = b
    · subst hxb
      simp [List.filter_cons_of_pos hb]
    · rw [List.idxOf_cons_ne _ hxb]
      by_cases hx : kept x = true
      · rw [List.filter_cons_of_pos hx, List.idxOf_cons_ne _ hxb]
        exact Nat.succ_le_succ ih
      · rw [List.filter_cons_of_neg hx]
        exact Nat.le_trans ih (Nat.le_succ _)

/-! ## Walks -/

structure Walk (start : List α) (lost : α → Prop) (turns l : List α) (c : Option α) : Prop where
  nodup : turns.Nodup
  ahead : ∃ ahead, Ahead c l ahead ∧ (∀ b ∈ turns, b ∉ ahead) ∧
    ∀ b ∈ start, ¬ lost b → b ∉ turns → b ∈ ahead ∧ ahead.idxOf b + turns.length ≤ start.idxOf b

theorem walk_start (l : List α) (lost : α → Prop) : Walk l lost [] l l.head? :=
  ⟨List.nodup_nil, l, ahead_all l, fun _ hb => absurd hb List.not_mem_nil, fun _ hb _ _ => ⟨hb, Nat.le_refl _⟩⟩

namespace Walk

variable {start turns l : List α} {lost lost' : α → Prop} {a : α} {c : Option α}

/-- The cursor stands on an entry of the list. -/
theorem mem (h : Walk start lost turns l (some a)) : a ∈ l := by
  obtain ⟨-, ahead, hahead, -, -⟩ := h
  obtain ⟨rest, rfl⟩ := hahead.cons
  exact hahead.subset List.mem_cons_self

theorem notMem_turns (h : Walk start lost turns l (some a)) : a ∉ turns := by
  obtain ⟨-, ahead, hahead, hturns, -⟩ := h
  obtain ⟨rest, rfl⟩ := hahead.cons
  exact fun hin => hturns a hin List.mem_cons_self

/-- A visit of `a` at which the entries that are not `kept` are erased and `born` is put at the end. -/
theorem visit (h : Walk start lost turns l (some a)) (hl : l.Nodup) {kept : α → Bool} {born : List α}
    (hkept : ∀ b, successor a l = some b → kept b = true) (hborn : ∀ b ∈ born, b ∉ l ∧ b ∉ turns)
    (hlost : ∀ b ∈ start, ¬ lost' b → ¬ lost b ∧ (b ∉ turns → b ≠ a → kept b = true)) :
    Walk start lost' (turns ++ [a]) (l.filter kept ++ born) (successor a l) := by
  have hnot := h.notMem_turns
  have hmem := h.mem
  obtain ⟨hnodup, ahead, hahead, hturns, hstart⟩ := h
  obtain ⟨rest, rfl⟩ := hahead.cons
  have hnodupAhead : (a :: rest).Nodup := by
    obtain ⟨behind, rfl, -⟩ := hahead
    exact (List.nodup_append.mp hl).2.1
  obtain ⟨more, hmore, hsub⟩ := (hahead.advance hl).edit hkept born
  refine ⟨?_, _, hmore, fun b hb => ?_, fun b hb hlost' hb' => ?_⟩
  · refine List.nodup_append.mpr ⟨hnodup, List.nodup_singleton a, fun x hx y hy => ?_⟩
    rw [List.mem_singleton.mp hy]
    rintro rfl
    exact hnot hx
  · rw [List.mem_append, not_or]
    rcases List.mem_append.mp hb with hb | hb
    · exact ⟨fun hin => hturns b hb (List.mem_cons_of_mem a (List.mem_of_mem_filter hin)),
        fun hin => (hborn b (hsub hin)).2 hb⟩
    · rw [List.mem_singleton.mp hb]
      exact ⟨fun hin => (List.nodup_cons.mp hnodupAhead).1 (List.mem_of_mem_filter hin),
        fun hin => (hborn a (hsub hin)).1 hmem⟩
  · rw [List.mem_append, List.mem_singleton, not_or] at hb'
    obtain ⟨hbt, hba⟩ := hb'
    obtain ⟨hold, hkeep⟩ := hlost b hb hlost'
    obtain ⟨hin, hidx⟩ := hstart b hb hold hbt
    have hrest : b ∈ rest := (List.mem_cons.mp hin).resolve_left hba
    have hkeptb : kept b = true := hkeep hbt hba
    have hfilter : b ∈ rest.filter kept := List.mem_filter.mpr ⟨hrest, hkeptb⟩
    refine ⟨List.mem_append_left more hfilter, ?_⟩
    have hle := idxOf_filter_le kept hkeptb rest
    rw [List.idxOf_cons_ne _ (Ne.symm hba)] at hidx
    rw [List.idxOf_append_of_mem hfilter, List.length_append, List.length_singleton]
    omega

/-- At the end of the list the entries do not matter any more. -/
theorem atEnd (h : Walk start lost turns l none) (l' : List α) : Walk start lost turns l' none := by
  obtain ⟨hnodup, ahead, hahead, hturns, hstart⟩ := h
  exact ⟨hnodup, ahead, ⟨l', by rw [hahead.nil, List.append_nil], by rw [hahead.nil]; rfl⟩, hturns, hstart⟩

theorem finished (h : Walk start lost turns l none) {b : α} (hb : b ∈ start) (hlost : ¬ lost b) : b ∈ turns := by
  obtain ⟨-, ahead, hahead, -, hstart⟩ := h
  by_contra hnot
  have := (hstart b hb hlost hnot).1
  rw [hahead.nil] at this
  exact List.not_mem_nil this

theorem soon (h : Walk start lost turns l c) {b : α} (hb : b ∈ start) (hlost : ¬ lost b)
    (hidx : start.idxOf b < turns.length) : b ∈ turns := by
  obtain ⟨-, ahead, -, -, hstart⟩ := h
  by_contra hnot
  have := (hstart b hb hlost hnot).2
  omega

end Walk

end Cursor
