import Mathlib.Tactic.TypeStar

/-!
# Labelled transition systems

A system steps from a state under a label, or cannot (`none`); whatever is not determined is part of the
label.

* `Reaches good s₀` : the states of the runs from `s₀` whose steps all meet `good`, a condition on the
  state before the step and the label; `Reachable` : of all runs;
* `run` : the state after a list of labels; `reachable_of_run` : it is reachable;
* `Reaches.invariant` : what the start has and every such step keeps, every state reached has.
-/

namespace Transition

variable {σ : Type*} {α : Type*}

inductive Reaches (step : α → σ → Option σ) (good : σ → α → Prop) (s₀ : σ) : σ → Prop
  | start : Reaches step good s₀ s₀
  | step {s s' : σ} (a : α) (h : Reaches step good s₀ s) (hgood : good s a) (hstep : step a s = some s') :
      Reaches step good s₀ s'

def Reachable (step : α → σ → Option σ) (s₀ : σ) : σ → Prop := Reaches step (fun _ _ => True) s₀

def run (step : α → σ → Option σ) : List α → σ → Option σ
  | [], s => some s
  | a :: rest, s => (step a s).bind (run step rest)

section
variable {step : α → σ → Option σ} {good : σ → α → Prop} {s₀ s : σ}

theorem Reaches.invariant {motive : σ → Prop} (h : Reaches step good s₀ s) (hstart : motive s₀)
    (hkeep : ∀ s a s', motive s → good s a → step a s = some s' → motive s') : motive s := by
  induction h with
  | start => exact hstart
  | step _ _ hgood hstep ih => exact hkeep _ _ _ ih hgood hstep

theorem Reaches.mono {good' : σ → α → Prop} (h : Reaches step good s₀ s)
    (himp : ∀ s a, good s a → good' s a) : Reaches step good' s₀ s := by
  induction h with
  | start => exact .start
  | step a _ hgood hstep ih => exact .step a ih (himp _ _ hgood) hstep

theorem Reaches.run {acts : List α} {s' : σ} (h : Reaches step (fun _ _ => True) s₀ s)
    (hrun : Transition.run step acts s = some s') : Reachable step s₀ s' := by
  induction acts generalizing s with
  | nil => exact Option.some.inj hrun ▸ h
  | cons a rest ih =>
    obtain ⟨mid, hstep, hrest⟩ := Option.bind_eq_some_iff.mp hrun
    exact ih (h.step a trivial hstep) hrest

theorem reachable_of_run (acts : List α) (hrun : run step acts s₀ = some s) : Reachable step s₀ s :=
  Reaches.start.run hrun

end

end Transition
