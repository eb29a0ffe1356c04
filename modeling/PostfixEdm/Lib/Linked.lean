import Mathlib.Data.List.Basic
import Mathlib.Logic.Function.Basic

/-!
# Doubly linked lists

* `Linked.Links` : where the cells point, forwards and backwards;
* `Linked.Seg` : the cells of a list are linked one after the other, between two ends;
* `Linked.Links.join` : two cells become neighbours, of which either may be missing; `Linked.Seg.join` : two lists
  become one.
-/

namespace Linked

variable {α : Type*}

@[ext] structure Links (α : Type*) where
  next : α → Option α
  prev : α → Option α

/-- The cells of a list, in their order, behind `p` and in front of `q`. -/
def Seg (l : Links α) : Option α → List α → Option α → Prop
  | _, [], _ => True
  | p, x :: xs, q => l.prev x = p ∧ l.next x = xs.head?.or q ∧ Seg l (some x) xs q

variable {l l' : Links α} {p q : Option α} {x y : α} {xs ys : List α}

@[simp] theorem seg_nil : Seg l p [] q := trivial

@[simp] theorem seg_cons :
    Seg l p (x :: xs) q ↔ l.prev x = p ∧ l.next x = xs.head?.or q ∧ Seg l (some x) xs q := Iff.rfl

/-- A list in two parts: each part ends where the other one begins. -/
theorem seg_append :
    Seg l p (xs ++ ys) q ↔ Seg l p xs (ys.head?.or q) ∧ Seg l (xs.getLast?.or p) ys q := by
  induction xs generalizing p with
  | nil => simp
  | cons x xs ih =>
    have hlast : (xs.getLast?.or (some x)) = ((x :: xs).getLast?.or p) := by
      rw [List.getLast?_cons]
      cases xs.getLast? <;> rfl
    simp only [List.cons_append, seg_cons, ih, hlast, List.head?_append, Option.or_assoc, and_assoc]

/-- Only the links of the cells matter. -/
theorem Seg.congr (h : Seg l p xs q) (hnext : ∀ x ∈ xs, l'.next x = l.next x)
    (hprev : ∀ x ∈ xs, l'.prev x = l.prev x) : Seg l' p xs q := by
  induction xs generalizing p with
  | nil => trivial
  | cons x xs ih =>
    obtain ⟨hp, hq, hrest⟩ := h
    refine ⟨(hprev x List.mem_cons_self).trans hp, (hnext x List.mem_cons_self).trans hq, ?_⟩
    exact ih hrest (fun y hy => hnext y (List.mem_cons_of_mem x hy)) fun y hy => hprev y (List.mem_cons_of_mem x hy)

variable [DecidableEq α]

/-- The last cell has a new successor. -/
theorem Seg.congr_last {q' : Option α} (h : Seg l p xs q) (hnodup : xs.Nodup)
    (hnext : ∀ x ∈ xs, l'.next x = if xs.getLast? = some x then q' else l.next x)
    (hprev : ∀ x ∈ xs, l'.prev x = l.prev x) : Seg l' p xs q' := by
  rcases List.eq_nil_or_concat xs with rfl | ⟨ys, y, rfl⟩
  · trivial
  · rw [List.concat_eq_append] at *
    obtain ⟨hys, hprevy, -, -⟩ := seg_append.mp h
    have hy : y ∉ ys := fun hmem => (List.nodup_append.mp hnodup).2.2 y hmem y (List.mem_singleton_self y) rfl
    refine seg_append.mpr ⟨hys.congr ?_ ?_, ?_, ?_, trivial⟩
    · intro x hx
      rw [hnext x (List.mem_append_left _ hx), if_neg]
      simp only [List.getLast?_append, List.getLast?_singleton, Option.some_or, Option.some.injEq]
      rintro rfl
      exact hy hx
    · exact fun x hx => hprev x (List.mem_append_left _ hx)
    · exact (hprev y (List.mem_append_right _ (List.mem_singleton_self y))).trans hprevy
    · rw [hnext y (List.mem_append_right _ (List.mem_singleton_self y)), if_pos (by simp)]
      simp

/-- The first cell has a new predecessor. -/
theorem Seg.congr_head {p' : Option α} (h : Seg l p xs q) (hnodup : xs.Nodup)
    (hnext : ∀ x ∈ xs, l'.next x = l.next x)
    (hprev : ∀ x ∈ xs, l'.prev x = if xs.head? = some x then p' else l.prev x) : Seg l' p' xs q := by
  cases xs with
  | nil => trivial
  | cons x xs =>
    obtain ⟨-, hq, hrest⟩ := h
    refine ⟨?_, (hnext x List.mem_cons_self).trans hq, hrest.congr ?_ ?_⟩
    · rw [hprev x List.mem_cons_self]
      exact if_pos rfl
    · exact fun y hy => hnext y (List.mem_cons_of_mem x hy)
    · intro y hy
      rw [hprev y (List.mem_cons_of_mem x hy), if_neg]
      rintro heq
      cases heq
      exact (List.nodup_cons.mp hnodup).1 hy

/-- Nothing happens without a cell. -/
def Links.setNext (l : Links α) (p q : Option α) : Links α :=
  { l with next := fun x => if p = some x then q else l.next x }

def Links.setPrev (l : Links α) (q p : Option α) : Links α :=
  { l with prev := fun x => if q = some x then p else l.prev x }

def Links.clear (l : Links α) (x : α) : Links α := ⟨Function.update l.next x none, Function.update l.prev x none⟩

/-- `p` and `q` become neighbours. -/
def Links.join (l : Links α) (p q : Option α) : Links α := (l.setNext p q).setPrev q p

theorem Links.clear_next (hne : y ≠ x) : (l.clear x).next y = l.next y := Function.update_of_ne hne ..

theorem Links.clear_prev (hne : y ≠ x) : (l.clear x).prev y = l.prev y := Function.update_of_ne hne ..

theorem Links.clear_self : (l.clear x).next x = none ∧ (l.clear x).prev x = none :=
  ⟨Function.update_self .., Function.update_self ..⟩

theorem Seg.clear (h : Seg l p xs q) (hx : x ∉ xs) : Seg (l.clear x) p xs q :=
  h.congr (fun _ hy => Links.clear_next fun heq => hx (heq ▸ hy)) fun _ hy => Links.clear_prev fun heq => hx (heq ▸ hy)

theorem Links.setNext_next (hne : p ≠ some x) : (l.setNext p q).next x = l.next x := if_neg hne

theorem Links.join_next (hne : p ≠ some x) : (l.join p q).next x = l.next x := if_neg hne

theorem Links.join_prev (hne : q ≠ some x) : (l.join p q).prev x = l.prev x := if_neg hne

/-- A new cell between two others, by its own links first. -/
theorem Links.between_eq (hne : p ≠ some y) :
    (((l.setNext (some y) q).setPrev (some y) p).setPrev q (some y)).setNext p (some y) =
      (l.join p (some y)).join (some y) q := by
  ext x : 2
  · by_cases hx : p = some x
    · have hyx : y ≠ x := fun heq => hne (heq ▸ hx)
      simp [join, setNext, setPrev, hx, hyx]
    · simp [join, setNext, setPrev, hx]
  · simp [join, setNext, setPrev]

/-- Two lists become one. -/
theorem Seg.join {r s : Option α} (hxs : Seg l none xs r) (hys : Seg l s ys none) (hnodup : (xs ++ ys).Nodup) :
    Seg (l.join xs.getLast? ys.head?) none (xs ++ ys) none := by
  obtain ⟨hnodupxs, hnodupys, hdisj⟩ := List.nodup_append.mp hnodup
  rw [seg_append, Option.or_none, Option.or_none]
  constructor
  · refine hxs.congr_last hnodupxs (fun x _ => rfl) fun x hx => ?_
    refine if_neg fun hhead => ?_
    exact hdisj x hx x (List.mem_of_head? hhead) rfl
  · refine hys.congr_head hnodupys (fun y hy => ?_) fun y _ => rfl
    refine if_neg fun hlast => ?_
    exact hdisj y (List.mem_of_getLast? hlast) y hy rfl

/-- A cell comes between two lists. -/
theorem Seg.between {r s : Option α} (hxs : Seg l none xs r) (hy : l.next y = none ∧ l.prev y = none)
    (hys : Seg l s ys none) (hnodup : (xs ++ y :: ys).Nodup) :
    Seg ((l.join xs.getLast? (some y)).join (some y) ys.head?) none (xs ++ y :: ys) none := by
  obtain ⟨-, hnodupys, hdisj⟩ := List.nodup_append.mp hnodup
  have hleft : Seg (l.join xs.getLast? (some y)) none (xs ++ [y]) none := by
    have hone : Seg l none [y] none := ⟨hy.2, hy.1, trivial⟩
    exact hxs.join hone (hnodup.sublist (((List.nil_sublist ys).cons_cons y).append_left xs))
  have hright : Seg (l.join xs.getLast? (some y)) s ys none := by
    refine hys.congr (fun x hx => Links.join_next fun hlast => ?_) fun x hx => Links.join_prev fun heq => ?_
    · exact hdisj x (List.mem_of_getLast? hlast) x (List.mem_cons_of_mem y hx) rfl
    · cases heq
      exact (List.nodup_cons.mp hnodupys).1 hx
  have hall := hleft.join hright (by rwa [List.append_assoc])
  rwa [List.getLast?_append, List.getLast?_singleton, Option.some_or, List.append_assoc] at hall

end Linked
