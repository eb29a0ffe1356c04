import Mathlib.Order.Basic

/-!
# A counter that follows a target

Whenever the counter looks at the target it goes up by one, if it is below. So it lags behind a target that has
moved on by more than one, and catches up later.

* `catchUp`, `caughtUp` : one look, and the counter after a list of looks, of which the head is the last;
* `caughtUp_le` : it does not get ahead of the target;
* `caughtUp_eq` : it is level with a target that grows and of which it has seen every value.
-/

namespace CatchUp

def catchUp (target n : Nat) : Nat := if n < target then n + 1 else n

def caughtUp (targets : List Nat) : Nat := targets.foldr catchUp 0

theorem caughtUp_cons (target : Nat) (targets : List Nat) :
    caughtUp (target :: targets) = catchUp target (caughtUp targets) := rfl

theorem catchUp_le {target n bound : Nat} (htarget : target ≤ bound) (hn : n ≤ bound) : catchUp target n ≤ bound := by
  unfold catchUp
  split
  · omega
  · exact hn

theorem caughtUp_le {targets : List Nat} {bound : Nat} (h : ∀ target ∈ targets, target ≤ bound) :
    caughtUp targets ≤ bound := by
  induction targets with
  | nil => exact Nat.zero_le bound
  | cons target targets ih =>
    rw [List.forall_mem_cons] at h
    exact catchUp_le h.1 (ih h.2)

/-- The target has never been more than one ahead of what the counter has seen. -/
theorem caughtUp_eq {target : Nat} {earlier : List Nat} (hsorted : (target :: earlier).Pairwise (· ≥ ·))
    (hseen : ∀ k, 1 ≤ k → k ≤ target → k ∈ target :: earlier) : caughtUp (target :: earlier) = target := by
  induction earlier generalizing target with
  | nil =>
    have hsmall : target ≤ 1 := by
      by_contra hlarge
      have := List.mem_singleton.mp (hseen 1 (Nat.le_refl 1) (by omega))
      omega
    rw [caughtUp_cons, show caughtUp [] = 0 from rfl, catchUp]
    split <;> omega
  | cons last earlier ih =>
    obtain ⟨hle, hrest⟩ := List.pairwise_cons.mp hsorted
    have hlast : last ≤ target := hle last List.mem_cons_self
    rw [caughtUp_cons]
    by_cases heq : last = target
    · subst heq
      rw [ih hrest fun k hk hkl => (List.mem_cons.mp (hseen k hk hkl)).elim (fun h => by simp [h]) id, catchUp,
        if_neg (Nat.lt_irrefl _)]
    · have hsame : caughtUp (last :: earlier) = last :=
        ih hrest fun k hk hkl => (List.mem_cons.mp (hseen k hk (by omega))).resolve_left (by omega)
      -- the value before the target has been seen, and not after the last look
      have hnext : target = last + 1 := by
        by_contra hne
        have hmem := (List.mem_cons.mp (hseen (target - 1) (by omega) (by omega))).resolve_left (by omega)
        rcases List.mem_cons.mp hmem with h | h
        · omega
        · have := (List.pairwise_cons.mp hrest).1 _ h
          omega
      rw [hsame, catchUp, if_pos (by omega), hnext]

end CatchUp
