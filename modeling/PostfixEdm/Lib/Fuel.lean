import Mathlib.Tactic.TypeStar

/-!
# Loops with fuel

* `Fuel.Ends` : with enough fuel there is a result, and more fuel does not change it;
* `Fuel.Ends.bind` : one computation after the other;
* `Fuel.Mono` : a result stays with more fuel; `Fuel.Mono.eq_of_ends` : it is then the one that there is.
-/

namespace Fuel

variable {α β : Type*} {f : Nat → Option α} {g : Nat → α → Option β} {x y : α} {z : β}

def Ends (f : Nat → Option α) (x : α) : Prop := ∃ n, ∀ fuel, n ≤ fuel → f fuel = some x

theorem Ends.of_forall (h : ∀ fuel, f fuel = some x) : Ends f x := ⟨0, fun fuel _ => h fuel⟩

theorem Ends.unique (hx : Ends f x) (hy : Ends f y) : x = y := by
  obtain ⟨n, hn⟩ := hx
  obtain ⟨m, hm⟩ := hy
  exact Option.some.inj ((hn (max n m) (Nat.le_max_left n m)).symm.trans (hm (max n m) (Nat.le_max_right n m)))

theorem Ends.bind (hf : Ends f x) (hg : Ends (fun fuel => g fuel x) z) :
    Ends (fun fuel => (f fuel).bind (g fuel)) z := by
  obtain ⟨n, hn⟩ := hf
  obtain ⟨m, hm⟩ := hg
  refine ⟨max n m, fun fuel hle => ?_⟩
  show (f fuel).bind (g fuel) = some z
  rw [hn fuel (Nat.le_trans (Nat.le_max_left n m) hle), Option.bind_some]
  exact hm fuel (Nat.le_trans (Nat.le_max_right n m) hle)

theorem Ends.map (h : Ends f x) (g : α → β) : Ends (fun fuel => (f fuel).map g) (g x) :=
  h.imp fun _ hn fuel hle => by simp [hn fuel hle]

/-- One more for the call itself. -/
theorem Ends.succ {f' : Nat → Option α} (h : Ends f' x) (hsucc : ∀ fuel, f (fuel + 1) = f' fuel) : Ends f x := by
  obtain ⟨n, hn⟩ := h
  refine ⟨n + 1, fun fuel hle => ?_⟩
  obtain ⟨fuel, rfl⟩ := Nat.exists_eq_add_of_le' (Nat.le_trans (Nat.le_add_left 1 n) hle)
  rw [hsucc]
  exact hn fuel (Nat.le_of_succ_le_succ hle)

def Mono (f : Nat → Option α) : Prop := ∀ fuel x, f fuel = some x → f (fuel + 1) = some x

theorem Mono.le (hf : Mono f) {n m : Nat} (hle : n ≤ m) (h : f n = some x) : f m = some x := by
  induction hle with
  | refl => exact h
  | step _ ih => exact hf _ x ih

theorem Mono.eq_of_ends (hf : Mono f) {n : Nat} (h : f n = some y) (hends : Ends f x) : y = x :=
  Ends.unique ⟨n, fun _ hle => hf.le hle h⟩ hends

theorem mono_const (m : Option α) : Mono fun _ => m := fun _ _ h => h

theorem Mono.bind (hf : Mono f) (hg : ∀ x, Mono fun fuel => g fuel x) : Mono fun fuel => (f fuel).bind (g fuel) := by
  intro fuel z h
  obtain ⟨x, hx, hz⟩ := Option.bind_eq_some_iff.mp h
  exact Option.bind_eq_some_iff.mpr ⟨x, hf fuel x hx, hg x fuel z hz⟩

end Fuel
