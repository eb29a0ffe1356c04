import Mathlib.Init

/-!
# Code that must not go wrong

A piece of code returns, or halts: it uses NULL, it uses an object that is gone, or it never comes back.

* `Safe x Q` : the code uses nothing it must not use, and what it returns satisfies `Q`;
* `Safe.bind`, `Safe.mono`, `Safe.foldlM` : the rules for a sequence, for a weaker condition and for a loop
  over a list;
* `Yields x Q` : what the code returns, if it returns, satisfies `Q`; `Yields.bind` and so on : the same rules.
-/

/-- Why a piece of code does not return. -/
inductive Halt
  | null | destroyed | endless
  deriving DecidableEq, Repr

universe u

variable {α β σ : Type u}

def Safe (x : Except Halt α) (Q : α → Prop) : Prop :=
  match x with
  | .ok a => Q a
  | .error .endless => True
  | .error _ => False

namespace Safe

variable {x : Except Halt α} {P Q : α → Prop}

theorem ok {a : α} (h : Q a) : Safe (.ok a) Q := h

theorem endless : Safe (.error .endless) Q := trivial

theorem bind {f : α → Except Halt β} {R : β → Prop} (h : Safe x P) (hf : ∀ a, P a → Safe (f a) R) :
    Safe (x >>= f) R := by
  cases x with
  | ok a => exact hf a h
  | error e =>
    cases e with
    | endless => trivial
    | null | destroyed => exact h.elim

theorem mono (h : Safe x P) (himp : ∀ a, P a → Q a) : Safe x Q := by
  cases x with
  | ok a => exact himp a h
  | error e =>
    cases e with
    | endless => trivial
    | null | destroyed => exact h.elim

/-- The condition may speak of the part of the list that is still to come. -/
theorem foldlM {f : σ → β → Except Halt σ} {I : List β → σ → Prop}
    (hstep : ∀ s b rest, I (b :: rest) s → Safe (f s b) (I rest)) {s : σ} {list : List β} (h : I list s) :
    Safe (list.foldlM f s) (I []) := by
  induction list generalizing s with
  | nil => exact h
  | cons b rest ih =>
    rw [List.foldlM_cons]
    exact (hstep s b rest h).bind fun _ => ih

end Safe

/-- Nothing is said of code that halts. -/
def Yields (x : Except Halt α) (Q : α → Prop) : Prop := ∀ a, x = .ok a → Q a

namespace Yields

variable {x : Except Halt α} {P Q : α → Prop}

theorem ok {a : α} (h : Q a) : Yields (.ok a) Q := by
  intro b hb
  cases hb
  exact h

theorem error {e : Halt} : Yields (.error e) Q := nofun

/-- The rest of the code may use that the first part has returned. -/
theorem bind {f : α → Except Halt β} {R : β → Prop} (h : Yields x P) (hf : ∀ a, x = .ok a → P a → Yields (f a) R) :
    Yields (x >>= f) R := by
  intro b hb
  cases hx : x with
  | error e =>
    rw [hx] at hb
    cases hb
  | ok a =>
    rw [hx] at hb
    exact hf a hx (h a hx) b hb

/-- All that matters is what the first part has returned. -/
theorem bind_of_eq {f : α → Except Halt β} {R : β → Prop} (hf : ∀ a, x = .ok a → Yields (f a) R) :
    Yields (x >>= f) R := by
  refine bind (P := fun _ => True) (fun _ _ => trivial) ?_
  intro a ha _
  exact hf a ha

theorem mono (h : Yields x P) (himp : ∀ a, P a → Q a) : Yields x Q := fun a ha => himp a (h a ha)

theorem foldlM {f : σ → β → Except Halt σ} {I : σ → Prop} {list : List β}
    (hstep : ∀ s b, I s → Yields (f s b) I) {s : σ} (h : I s) : Yields (list.foldlM f s) I := by
  induction list generalizing s with
  | nil => exact ok h
  | cons b rest ih =>
    rw [List.foldlM_cons]
    exact (hstep s b h).bind fun _ _ => ih

end Yields
