import Mathlib.Init

/-!
# Code that does not fail in a given way, or not at all

* `Avoids e x` : the code does not end with the error `e`;
* `Avoids.bind`, `Avoids.mapM`, `Avoids.forM`, `Avoids.foldlM` : the rules for a sequence and for loops over a list;
* `Except.mapM_ok`, `Except.forM_ok` : loops over a list whose steps all go through.
-/

universe u v

variable {ε : Type u} {α β σ : Type v} {e : ε}

def Avoids (e : ε) (x : Except ε α) : Prop := x ≠ .error e

namespace Avoids

theorem ok (a : α) : Avoids e (.ok a) := nofun

theorem error {e' : ε} (h : e' ≠ e) : Avoids e (.error e' : Except ε α) := fun heq => h (Except.error.inj heq)

theorem bind {x : Except ε α} {f : α → Except ε β} (h : Avoids e x) (hf : ∀ a, x = .ok a → Avoids e (f a)) :
    Avoids e (x >>= f) := by
  cases x with
  | ok a => exact hf a rfl
  | error e' => exact error fun heq => h (congrArg Except.error heq)

theorem map_iff {x : Except ε α} {f : α → β} : Avoids e (x.map f) ↔ Avoids e x := by
  cases x with
  | ok a => exact iff_of_true (ok (f a)) (ok a)
  | error e' =>
    constructor
    · exact fun h => error fun heq => h (congrArg Except.error heq)
    · exact fun h => error fun heq => h (congrArg Except.error heq)

theorem mapM {f : α → Except ε β} {list : List α} (hf : ∀ a, Avoids e (f a)) : Avoids e (list.mapM f) := by
  induction list with
  | nil => exact ok []
  | cons a list ih =>
    rw [List.mapM_cons]
    exact (hf a).bind fun _ _ => ih.bind fun _ _ => ok _

theorem foldlM {f : σ → α → Except ε σ} {list : List α} (hf : ∀ s a, Avoids e (f s a)) (s : σ) :
    Avoids e (list.foldlM f s) := by
  induction list generalizing s with
  | nil => exact ok s
  | cons a list ih =>
    rw [List.foldlM_cons]
    exact (hf s a).bind fun s _ => ih s

theorem forM {f : α → Except ε PUnit} {list : List α} (hf : ∀ a, Avoids e (f a)) : Avoids e (list.forM f) := by
  induction list with
  | nil => exact ok PUnit.unit
  | cons a list ih =>
    rw [List.forM_eq_forM, List.forM_cons]
    exact (hf a).bind fun _ _ => ih

end Avoids

namespace Except

theorem mapM_ok {f : α → Except ε β} {g : α → β} {list : List α} (h : ∀ a ∈ list, f a = .ok (g a)) :
    list.mapM f = .ok (list.map g) := by
  induction list with
  | nil => rfl
  | cons a list ih =>
    rw [List.mapM_cons, h a List.mem_cons_self, ih fun b hb => h b (List.mem_cons_of_mem a hb)]
    rfl

theorem forM_ok {f : α → Except ε PUnit} {list : List α} (h : ∀ a ∈ list, f a = .ok ⟨⟩) : list.forM f = .ok ⟨⟩ := by
  induction list with
  | nil => rfl
  | cons a list ih =>
    rw [List.forM_eq_forM, List.forM_cons, h a List.mem_cons_self]
    exact ih fun b hb => h b (List.mem_cons_of_mem a hb)

end Except
