import Mathlib.Data.Finset.Erase
import Mathlib.Data.Finset.Insert
import Mathlib.Logic.Function.Basic

/-!
# Threads that share locks with a condition

Each thread of `τ` is at a position of its own program; the locks `ℓ` are shared, and every lock comes with a
condition that threads wait for.

* `Stmt` : what a statement does with a lock, and where its thread goes on;
* `Threads` : the positions, the owners of the locks, and who waits for a condition without having been
  notified;
* `Threads.exec`, `Threads.wakeup`, `Threads.goto` : a statement, a wait that ends without a notification, and a
  thread that goes on without touching a lock;
* `Stmt.Keeps`, `Owned` : a table says which locks are held at which position; a statement agrees with the
  table; the locks belong to the threads that the table names;
* `Owned.exec`, `Owned.goto` : what agrees with the table keeps `Owned`.
-/

namespace CondLock

variable {ℓ τ : Type*} {ρ : τ → Type*}

/-- `wait` gives the lock back and sleeps, `waiting` is the sleep, which ends with the lock; `other` leaves the
locks alone. -/
inductive Stmt (ℓ ρ : Type*) where
  | lock (l : ℓ) (next : ρ)
  | unlock (l : ℓ) (next : ρ)
  | wait (l : ℓ) (next : ρ)
  | waiting (l : ℓ) (next : ρ)
  | notifyAll (l : ℓ) (next : ρ)
  | other

/-- Where the thread goes on. -/
def Stmt.next {ρ : Type*} : Stmt ℓ ρ → Option ρ
  | .lock _ next | .unlock _ next | .wait _ next | .waiting _ next | .notifyAll _ next => some next
  | .other => none

/-- `waiting l` are the threads that sleep for the condition of `l`; a notification takes them out. -/
structure Threads (ℓ : Type*) {τ : Type*} (ρ : τ → Type*) where
  pos : ∀ t, ρ t
  owner : ℓ → Option τ
  waiting : ℓ → Finset τ

namespace Threads

section
variable [DecidableEq τ]

def goto (s : Threads ℓ ρ) (t : τ) (next : ρ t) : Threads ℓ ρ :=
  { s with pos := Function.update s.pos t next }

variable [DecidableEq ℓ]

/-- A lock that is taken blocks, for its owner as well; so does a sleep without a notification. -/
def exec (s : Threads ℓ ρ) (t : τ) : Stmt ℓ (ρ t) → Option (Threads ℓ ρ)
  | .lock l next =>
    if s.owner l = none then some { s.goto t next with owner := Function.update s.owner l (some t) } else none
  | .unlock l next => some { s.goto t next with owner := Function.update s.owner l none }
  | .wait l next => some { s.goto t next with
      owner := Function.update s.owner l none
      waiting := Function.update s.waiting l (insert t (s.waiting l)) }
  | .waiting l next =>
    if t ∉ s.waiting l ∧ s.owner l = none then
      some { s.goto t next with owner := Function.update s.owner l (some t) }
    else none
  | .notifyAll l next => some { s.goto t next with waiting := Function.update s.waiting l ∅ }
  | .other => none

/-- A wait may end without a notification. -/
def wakeup (s : Threads ℓ ρ) (t : τ) (l : ℓ) : Threads ℓ ρ :=
  { s with waiting := Function.update s.waiting l ((s.waiting l).erase t) }

end

section
variable [DecidableEq τ] (s : Threads ℓ ρ) (t : τ) (next : ρ t)

@[simp] theorem goto_owner : (s.goto t next).owner = s.owner := rfl


@[simp] theorem goto_pos_self : (s.goto t next).pos t = next := Function.update_self ..

theorem goto_pos_of_ne {u : τ} (h : u ≠ t) : (s.goto t next).pos u = s.pos u := Function.update_of_ne h ..

/-- A statement moves its own thread and no other. -/
theorem exec_pos [DecidableEq ℓ] {s s' : Threads ℓ ρ} {stmt : Stmt ℓ (ρ t)} (h : s.exec t stmt = some s') :
    ∃ next, stmt.next = some next ∧ s'.pos = Function.update s.pos t next := by
  cases stmt with
  | lock l next | waiting l next =>
    simp only [exec, Option.ite_none_right_eq_some, Option.some.injEq] at h
    obtain ⟨_, rfl⟩ := h
    exact ⟨next, rfl, rfl⟩
  | unlock l next | wait l next | notifyAll l next =>
    obtain rfl := Option.some.inj h
    exact ⟨next, rfl, rfl⟩
  | other => cases h

/-- Only a `wait` puts a thread to sleep. -/
theorem exec_waiting_subset [DecidableEq ℓ] {s s' : Threads ℓ ρ} {stmt : Stmt ℓ (ρ t)} {l : ℓ}
    (h : s.exec t stmt = some s') (hstmt : ∀ next, stmt ≠ .wait l next) : s'.waiting l ⊆ s.waiting l := by
  cases stmt with
  | lock m next | waiting m next =>
    simp only [exec, Option.ite_none_right_eq_some, Option.some.injEq] at h
    obtain ⟨_, rfl⟩ := h
    exact Finset.Subset.refl _
  | unlock m next =>
    obtain rfl := Option.some.inj h
    exact Finset.Subset.refl _
  | wait m next =>
    obtain rfl := Option.some.inj h
    have hne : l ≠ m := fun heq => hstmt next (by rw [heq])
    exact (Function.update_of_ne hne ..).subset
  | notifyAll m next =>
    obtain rfl := Option.some.inj h
    by_cases hm : l = m
    · subst hm
      exact (Function.update_self ..).subset.trans (Finset.empty_subset _)
    · exact (Function.update_of_ne hm ..).subset
  | other => cases h

theorem waiting_of_notifyAll [DecidableEq ℓ] {s s' : Threads ℓ ρ} {l : ℓ} {next : ρ t}
    (h : s.exec t (.notifyAll l next) = some s') : s'.waiting l = ∅ := by
  obtain rfl := Option.some.inj h
  exact Function.update_self l ∅ s.waiting

theorem mem_waiting_of_wait [DecidableEq ℓ] {s s' : Threads ℓ ρ} {l : ℓ} {next : ρ t}
    (h : s.exec t (.wait l next) = some s') : t ∈ s'.waiting l := by
  obtain rfl := Option.some.inj h
  change t ∈ Function.update s.waiting l (insert t (s.waiting l)) l
  rw [Function.update_self]
  exact Finset.mem_insert_self t _

theorem wakeup_waiting_subset [DecidableEq ℓ] (l m : ℓ) : (s.wakeup t m).waiting l ⊆ s.waiting l := by
  by_cases hm : l = m
  · subst hm
    exact (Function.update_self ..).subset.trans (Finset.erase_subset _ _)
  · exact (Function.update_of_ne hm ..).subset

end

end Threads

/-! ## Who holds what -/

variable {held : ∀ t, ρ t → ℓ → Bool}

namespace Stmt

/-- A statement at position `a` agrees with the table `held`. -/
def Keeps {ρ : Type*} [DecidableEq ℓ] (held : ρ → ℓ → Bool) (a : ρ) : Stmt ℓ ρ → Prop
  | .lock l next | .waiting l next => held a l = false ∧ held next = Function.update (held a) l true
  | .unlock l next | .wait l next => held a l = true ∧ held next = Function.update (held a) l false
  | .notifyAll _ next => held next = held a
  | .other => True

end Stmt

/-- The locks belong to the threads that the table names. -/
def Owned (held : ∀ t, ρ t → ℓ → Bool) (s : Threads ℓ ρ) : Prop :=
  ∀ l t, s.owner l = some t ↔ held t (s.pos t) l = true

namespace Owned

variable {s s' : Threads ℓ ρ} {t u : τ}

theorem eq_of_held (h : Owned held s) {l : ℓ} (ht : held t (s.pos t) l = true)
    (hu : held u (s.pos u) l = true) : t = u :=
  Option.some.inj (((h l t).mpr ht).symm.trans ((h l u).mpr hu))

variable [DecidableEq τ]

theorem goto (h : Owned held s) {next : ρ t} (heq : held t next = held t (s.pos t)) :
    Owned held (s.goto t next) := by
  intro l u
  by_cases hu : u = t
  · subst hu
    rw [Threads.goto_owner, Threads.goto_pos_self, heq]
    exact h l u
  · rw [Threads.goto_owner, s.goto_pos_of_ne t next hu]
    exact h l u

section
variable [DecidableEq ℓ]

/-- A free lock is taken. -/
theorem take (h : Owned held s) {l : ℓ} {next : ρ t} (hfree : s.owner l = none)
    (heq : held t next = Function.update (held t (s.pos t)) l true) :
    Owned held { s.goto t next with owner := Function.update s.owner l (some t) } := by
  intro m u
  change Function.update s.owner l (some t) m = some u ↔ held u ((s.goto t next).pos u) m = true
  by_cases hu : u = t
  · subst hu
    rw [Threads.goto_pos_self, heq]
    by_cases hm : m = l
    · subst hm
      simp only [Function.update_self]
    · rw [Function.update_of_ne hm, Function.update_of_ne hm]
      exact h m u
  · rw [s.goto_pos_of_ne t next hu]
    by_cases hm : m = l
    · subst hm
      have hnot : ¬ held u (s.pos u) m = true := by
        rw [← h m u, hfree]
        exact Option.some_ne_none u ∘ Eq.symm
      rw [Function.update_self]
      exact iff_of_false (fun heq => hu (Option.some.inj heq).symm) hnot
    · rw [Function.update_of_ne hm]
      exact h m u

/-- A lock that is held is given back. -/
theorem give (h : Owned held s) {l : ℓ} {next : ρ t} (hmine : held t (s.pos t) l = true)
    (heq : held t next = Function.update (held t (s.pos t)) l false) :
    Owned held { s.goto t next with owner := Function.update s.owner l none } := by
  intro m u
  change Function.update s.owner l none m = some u ↔ held u ((s.goto t next).pos u) m = true
  by_cases hm : m = l
  · subst hm
    rw [Function.update_self]
    refine iff_of_false (Option.some_ne_none u ∘ Eq.symm) fun hheld => ?_
    by_cases hu : u = t
    · subst hu
      rw [Threads.goto_pos_self, heq, Function.update_self] at hheld
      exact Bool.noConfusion hheld
    · rw [s.goto_pos_of_ne t next hu] at hheld
      exact hu (h.eq_of_held hheld hmine)
  · rw [Function.update_of_ne hm]
    by_cases hu : u = t
    · subst hu
      rw [Threads.goto_pos_self, heq, Function.update_of_ne hm]
      exact h m u
    · rw [s.goto_pos_of_ne t next hu]
      exact h m u

theorem exec (h : Owned held s) {stmt : Stmt ℓ (ρ t)} (hkeeps : stmt.Keeps (held t) (s.pos t))
    (hstep : s.exec t stmt = some s') : Owned held s' := by
  cases stmt with
  | lock l next =>
    simp only [Threads.exec, Option.ite_none_right_eq_some, Option.some.injEq] at hstep
    obtain ⟨hfree, rfl⟩ := hstep
    exact h.take hfree hkeeps.2
  | unlock l next =>
    obtain rfl := Option.some.inj hstep
    exact h.give hkeeps.1 hkeeps.2
  | wait l next =>
    obtain rfl := Option.some.inj hstep
    exact h.give hkeeps.1 hkeeps.2
  | waiting l next =>
    simp only [Threads.exec, Option.ite_none_right_eq_some, Option.some.injEq] at hstep
    obtain ⟨⟨_, hfree⟩, rfl⟩ := hstep
    exact h.take hfree hkeeps.2
  | notifyAll l next =>
    obtain rfl := Option.some.inj hstep
    exact h.goto hkeeps
  | other => cases hstep

end

end Owned

end CondLock
