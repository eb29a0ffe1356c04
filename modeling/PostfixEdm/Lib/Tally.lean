import Mathlib.Algebra.Order.BigOperators.Group.Finset
import Mathlib.Logic.Function.Basic

/-!
# Tallies over a finite set

Each member of a finite set has a value, and `f` says how much a value counts.

* `sum_update` : one member's value changes;
* `sum_update_insert` : a member comes in; `sum_erase_eq` : one that counts nothing leaves.
-/

section
variable {κ α : Type*} [DecidableEq κ] {t : Finset κ} {c : κ}

theorem sum_update (hc : c ∈ t) (g : κ → α) (x : α) (f : α → Nat) :
    ∑ d ∈ t, f (Function.update g c x d) + f (g c) = ∑ d ∈ t, f (g d) + f x := by
  have hrest : ∑ d ∈ t.erase c, f (Function.update g c x d) = ∑ d ∈ t.erase c, f (g d) := by
    apply Finset.sum_congr rfl
    intro d hd
    rw [Function.update_of_ne (Finset.ne_of_mem_erase hd)]
  have hnew := Finset.add_sum_erase t (fun d => f (Function.update g c x d)) hc
  have hold := Finset.add_sum_erase t (fun d => f (g d)) hc
  rw [Function.update_self] at hnew
  omega

theorem sum_update_insert (hc : c ∉ t) (g : κ → α) (x : α) (f : α → Nat) :
    ∑ d ∈ insert c t, f (Function.update g c x d) = f x + ∑ d ∈ t, f (g d) := by
  have hrest : ∑ d ∈ t, f (Function.update g c x d) = ∑ d ∈ t, f (g d) := by
    apply Finset.sum_congr rfl
    intro d hd
    rw [Function.update_of_ne (ne_of_mem_of_not_mem hd hc)]
  rw [Finset.sum_insert hc, Function.update_self, hrest]

theorem sum_erase_eq (g : κ → α) {f : α → Nat} (hzero : f (g c) = 0) :
    ∑ d ∈ t.erase c, f (g d) = ∑ d ∈ t, f (g d) :=
  Finset.sum_erase t hzero

end
