import Mathlib.Logic.Relation

/-!
# A queue in front of a handler

Messages wait in the order in which they were sent and are handled one by one; `serve s m s'` says that the
handler may take the state `s` to `s'` on the message `m`.

* `Serves` : a list of messages is handled, first to last; `Serves.eq_foldl` : by a handler that is a function;
* `Queue.Step` : a message is sent, or the oldest one is handled; `Serves.steps` : some of the oldest ones are.
-/

namespace Fifo

variable {σ μ : Type*} {serve : σ → μ → σ → Prop}

inductive Serves (serve : σ → μ → σ → Prop) : σ → List μ → σ → Prop
  | nil (s : σ) : Serves serve s [] s
  | cons {s s' s'' : σ} {m : μ} {ms : List μ} (h : serve s m s') (t : Serves serve s' ms s'') :
      Serves serve s (m :: ms) s''

theorem Serves.append {s s' s'' : σ} {ms ms' : List μ} (h : Serves serve s ms s')
    (h' : Serves serve s' ms' s'') : Serves serve s (ms ++ ms') s'' := by
  induction h with
  | nil s => exact h'
  | cons hm _ ih => exact .cons hm (ih h')

/-- A handler that is a function of the message folds it over the messages. -/
theorem Serves.eq_foldl {g : σ → μ → σ} {s s' : σ} {ms : List μ} (h : Serves serve s ms s')
    (hg : ∀ m ∈ ms, ∀ t t', serve t m t' → t' = g t m) : s' = ms.foldl g s := by
  induction h with
  | nil s => rfl
  | cons hm _ ih =>
    rw [List.foldl_cons, ← hg _ List.mem_cons_self _ _ hm]
    exact ih fun m hmem => hg m (List.mem_cons_of_mem _ hmem)

@[ext] structure Queue (σ μ : Type*) where
  waiting : List μ
  state : σ

/-- One step of the queue. -/
inductive Queue.Step (serve : σ → μ → σ → Prop) : Queue σ μ → Queue σ μ → Prop
  | send (ms : List μ) (s : σ) (m : μ) : Step serve ⟨ms, s⟩ ⟨ms ++ [m], s⟩
  | handle {s s' : σ} {m : μ} (ms : List μ) (h : serve s m s') : Step serve ⟨m :: ms, s⟩ ⟨ms, s'⟩

abbrev Queue.Steps (serve : σ → μ → σ → Prop) : Queue σ μ → Queue σ μ → Prop :=
  Relation.ReflTransGen (Queue.Step serve)

theorem Serves.steps {s s' : σ} {ms : List μ} (h : Serves serve s ms s') (rest : List μ) :
    Queue.Steps serve ⟨ms ++ rest, s⟩ ⟨rest, s'⟩ := by
  induction h with
  | nil s => exact .refl
  | cons hm _ ih => exact .head (.handle _ hm) ih

end Fifo
