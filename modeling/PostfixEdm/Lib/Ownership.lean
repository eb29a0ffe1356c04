import Mathlib.Data.List.Perm.Basic
import Mathlib.Logic.Relation
import Mathlib.Order.WellFounded
import Mathlib.Order.WellFoundedSet

/-!
# Forests of owners

Everything has a list of the things that it owns.

* `Ownership.Forest` : nothing is owned twice, and ownership ends somewhere;
* `Ownership.Below` : what is owned, by way of others; `Ownership.below_graft` : with two more edges;
* `Ownership.Forest.attach`, `Ownership.Forest.mono` : the changes that keep a forest;
* `Ownership.Forest.not_below_both` : what two owners own is apart, if neither is below the other;
* `Ownership.Forest.eq_empty_of_owned` : something has no owner, if there is anything.
-/

namespace Ownership

open Relation

variable {α : Type*} {kids kids' : α → List α} {a b c r x : α}

structure Forest (kids : α → List α) : Prop where
  nodup : ∀ a, (kids a).Nodup
  unique : ∀ a a' b, b ∈ kids a → b ∈ kids a' → a = a'
  wf : WellFounded fun b a => b ∈ kids a

/-- `b` is `a`, or is owned by something below `a`. -/
def Below (kids : α → List α) : α → α → Prop := ReflTransGen fun a b => b ∈ kids a

/-- Nothing owns it. -/
def IsRoot (kids : α → List α) (r : α) : Prop := ∀ a, r ∉ kids a

theorem Below.refl (a : α) : Below kids a a := ReflTransGen.refl

theorem Below.head (h : b ∈ kids a) (hbelow : Below kids b c) : Below kids a c := ReflTransGen.head h hbelow

theorem Below.tail (hbelow : Below kids a b) (h : c ∈ kids b) : Below kids a c := ReflTransGen.tail hbelow h

theorem Below.trans (h : Below kids a b) (h' : Below kids b c) : Below kids a c := ReflTransGen.trans h h'

/-- Nothing is below what owns nothing. -/
theorem Below.eq_of_nil (hbelow : Below kids a b) (hnil : kids a = []) : a = b := by
  rcases ReflTransGen.cases_head hbelow with heq | ⟨c, hc, -⟩
  · exact heq
  · rw [hnil] at hc
    cases hc

/-- Two more edges, to `a`, and from there to something that owns nothing. -/
theorem below_graft {o t : α} (hmem : ∀ b x, x ∈ kids' b ↔ x ∈ kids b ∨ b = o ∧ x = a ∨ b = a ∧ x = t)
    (hnil : kids t = []) : Below kids' o x ↔ Below kids o x ∨ Below kids a x ∨ x = t := by
  have hmono : ∀ {y z}, Below kids y z → Below kids' y z := fun hyz =>
    ReflTransGen.mono (fun y z hz => (hmem y z).mpr (.inl hz)) _ _ hyz
  have hedge : a ∈ kids' o := (hmem o a).mpr (.inr (.inl ⟨rfl, rfl⟩))
  constructor
  · intro h
    induction h with
    | refl => exact Or.inl (.refl o)
    | @tail y z _ hz ih =>
      rcases (hmem y z).mp hz with hz | ⟨-, rfl⟩ | ⟨-, rfl⟩
      · rcases ih with hy | hy | rfl
        · exact Or.inl (hy.tail hz)
        · exact Or.inr (.inl (hy.tail hz))
        · rw [hnil] at hz
          cases hz
      · exact Or.inr (.inl (.refl z))
      · exact Or.inr (.inr rfl)
  · rintro (h | h | rfl)
    · exact hmono h
    · exact .head hedge (hmono h)
    · exact .head hedge (.head ((hmem a x).mpr (.inr (.inr ⟨rfl, rfl⟩))) (.refl x))

namespace Forest

/-- An owner is not below what it owns. -/
theorem not_below (h : Forest kids) (hmem : b ∈ kids a) : ¬ Below kids b a := by
  intro hbelow
  have hcycle : TransGen (fun b a => b ∈ kids a) a a := by
    have hloop : TransGen (fun a b => b ∈ kids a) a a := TransGen.head' hmem hbelow
    exact transGen_swap.mp hloop
  exact h.wf.transGen.irrefl.irrefl a hcycle

/-- What is below two things has one of them below the other. -/
theorem below_total (h : Forest kids) (ha : Below kids a x) (hb : Below kids b x) :
    Below kids a b ∨ Below kids b a := by
  have hunique : Relator.RightUnique (Function.swap fun a b => b ∈ kids a) := fun x a b ha hb => h.unique a b x ha hb
  have hswap := ReflTransGen.total_of_right_unique hunique (reflTransGen_swap.mpr ha) (reflTransGen_swap.mpr hb)
  exact hswap.symm.imp reflTransGen_swap.mp reflTransGen_swap.mp

theorem not_below_both (h : Forest kids) (hab : ¬ Below kids a b) (hba : ¬ Below kids b a) (ha : Below kids a x) :
    ¬ Below kids b x := fun hb => (h.below_total ha hb).elim hab hba

/-- Below a thing with an owner is what is below that owner. -/
theorem below_of_mem (h : Forest kids) (hmem : b ∈ kids a) (hbelow : Below kids r b) (hne : r ≠ b) :
    Below kids r a := by
  cases hbelow with
  | refl => exact absurd rfl hne
  | @tail c _ hc hmem' => exact h.unique c a b hmem' hmem ▸ hc

/-- Siblings are not below each other. -/
theorem not_below_sibling (h : Forest kids) (hb : b ∈ kids a) (hc : c ∈ kids a) (hne : b ≠ c) : ¬ Below kids b c :=
  fun hbelow => h.not_below hb (h.below_of_mem hc hbelow hne)

/-- A root gets an owner that is not below it. -/
theorem attach (h : Forest kids) (hroot : IsRoot kids r) (hbelow : ¬ Below kids r a)
    (hperm : (kids' a).Perm (r :: kids a)) (hother : ∀ b, b ≠ a → kids' b = kids b) : Forest kids' := by
  have hmem : ∀ b c, c ∈ kids' b → c ∈ kids b ∨ c = r ∧ b = a := by
    intro b c hc
    by_cases hb : b = a
    · subst hb
      exact (List.mem_cons.mp (hperm.mem_iff.mp hc)).symm.imp id fun heq => ⟨heq, rfl⟩
    · rw [hother b hb] at hc
      exact Or.inl hc
  constructor
  · intro b
    by_cases hb : b = a
    · subst hb
      exact hperm.nodup_iff.mpr (List.nodup_cons.mpr ⟨hroot b, h.nodup b⟩)
    · rw [hother b hb]
      exact h.nodup b
  · intro b b' c hc hc'
    rcases hmem b c hc with hc | ⟨rfl, rfl⟩
    · rcases hmem b' c hc' with hc' | ⟨rfl, -⟩
      · exact h.unique b b' c hc hc'
      · exact absurd hc (hroot b)
    · rcases hmem b' c hc' with hc' | ⟨-, rfl⟩
      · exact absurd hc' (hroot b')
      · rfl
  · -- first for what the new owner is not below, and so for the root, and then for the rest
    have hfar : ∀ x, ¬ Below kids x a → Acc (fun b a => b ∈ kids' a) x := by
      intro x
      induction x using h.wf.induction with
      | h x ih =>
        intro hx
        refine Acc.intro x fun c hc => ?_
        rcases hmem x c hc with hc | ⟨-, rfl⟩
        · exact ih c hc fun hbelow => hx (.head hc hbelow)
        · exact absurd (Below.refl _) hx
    refine ⟨fun x => ?_⟩
    induction x using h.wf.induction with
    | h x ih =>
      refine Acc.intro x fun c hc => ?_
      rcases hmem x c hc with hc | ⟨rfl, -⟩
      · exact ih c hc
      · exact hfar c hbelow

/-- With fewer owned things. -/
theorem mono (h : Forest kids) (hsub : ∀ a, (kids' a).Sublist (kids a)) : Forest kids' where
  nodup a := (h.nodup a).sublist (hsub a)
  unique a a' b hb hb' := h.unique a a' b ((hsub a).subset hb) ((hsub a').subset hb')
  wf := Subrelation.wf (fun {_ a} hmem => (hsub a).subset hmem) h.wf

/-- Some finitely many things that all have an owner among them are none. -/
theorem eq_empty_of_owned (h : Forest kids) {s : Set α} (hs : s.Finite) (howned : ∀ b ∈ s, ∃ a ∈ s, b ∈ kids a) :
    s = ∅ := by
  have hwf : s.WellFoundedOn (TransGen fun a b => b ∈ kids a) := by
    have hirrefl : ∀ a, ¬ TransGen (fun a b => b ∈ kids a) a a := fun a hloop =>
      h.wf.transGen.irrefl.irrefl a (transGen_swap.mp hloop)
    have : IsStrictOrder α (TransGen fun a b => b ∈ kids a) := { irrefl := hirrefl, trans := fun _ _ _ => .trans }
    exact hs.wellFoundedOn
  refine Set.eq_empty_of_forall_notMem fun b hb => ?_
  refine hwf.induction (P := fun _ => False) hb fun b hb ih => ?_
  obtain ⟨a, ha, hmem⟩ := howned b hb
  exact ih a ha (.single hmem)

end Forest

end Ownership
