import Mathlib.Data.List.Chain

/-!
# A pulse between two clocks

One side sends whenever it likes, and at its passes when it has not sent for longer than an interval. What it sends
is under way for a while. All that is kept is times.

* `Pulse.send`, `Pulse.pass`, `Pulse.recv` : the operations; a reception takes any number of the oldest messages;
* `Pulse.Timely` : at this time, the last pass is not older than a period and nothing is under way for longer than
  a delay;
* `Pulse.Beats` : two consecutive sends are never more than an interval and a period apart, and the start of the
  sender is not later than that of the receiver by more than a skew;
* `Pulse.Beats.heard` : at a timely moment the other side has heard something not long ago.
-/

structure Pulse where
  lastSend : Nat
  lastPass : Nat
  lastRecv : Nat
  underWay : List Nat

namespace Pulse

def send (t : Nat) (p : Pulse) : Pulse := { p with lastSend := t, underWay := p.underWay ++ [t] }

/-- A pass at `curr`; what it sends leaves at `t`. -/
def pass (interval curr t : Nat) (p : Pulse) : Pulse :=
  { (if p.lastSend + interval < curr then p.send t else p) with lastPass := curr }

def recv (t k : Nat) (p : Pulse) : Pulse := { p with lastRecv := t, underWay := p.underWay.drop k }

structure Timely (period delay t : Nat) (p : Pulse) : Prop where
  pass : t ≤ p.lastPass + period
  underWay : ∀ m ∈ p.underWay, t ≤ m + delay

/-- `base` is the last message that was received, or the start of the sender. -/
structure Beats (interval period skew now : Nat) (p : Pulse) : Prop where
  gaps : ∃ base, base ≤ p.lastRecv + skew ∧ (base :: p.underWay).IsChain (fun m m' => m' ≤ m + (interval + period)) ∧
    (base :: p.underWay).getLast? = some p.lastSend
  pass : p.lastPass ≤ p.lastSend + interval
  past : ∀ m ∈ p.underWay, m ≤ now

section
variable {interval period skew delay now : Nat} {p : Pulse}

theorem Beats.mono (h : p.Beats interval period skew now) {t : Nat} (ht : now ≤ t) : p.Beats interval period skew t :=
  ⟨h.gaps, h.pass, fun m hm => (h.past m hm).trans ht⟩

theorem Beats.send (h : p.Beats interval period skew now) {t : Nat} (ht : now ≤ t) (hlate : t ≤ p.lastPass + period)
    (hpast : p.lastPass ≤ t + interval) : (p.send t).Beats interval period skew t := by
  obtain ⟨base, hbase, hchain, hlast⟩ := h.gaps
  have hpass := h.pass
  refine ⟨⟨base, hbase, ?_, ?_⟩, hpast, ?_⟩
  · unfold Pulse.send
    rw [← List.cons_append]
    refine hchain.append (List.isChain_singleton t) ?_
    intro x hx y hy
    rw [hlast, Option.mem_some_iff] at hx
    rw [List.head?_cons, Option.mem_some_iff] at hy
    omega
  · unfold Pulse.send
    simp only [← List.cons_append, List.getLast?_append, List.getLast?_singleton, Option.some_or]
  · unfold Pulse.send
    intro m hm
    rcases List.mem_append.mp hm with hm | hm
    · exact (h.past m hm).trans ht
    · rw [List.mem_singleton.mp hm]

/-- A pass, with what it sends. -/
theorem Beats.pass_of (h : p.Beats interval period skew now) {curr t : Nat} (hnow : now ≤ t) (hcurr : curr ≤ t)
    (hlate : t ≤ p.lastPass + period) : (p.pass interval curr t).Beats interval period skew t := by
  unfold Pulse.pass
  split
  · have hpass := h.pass
    have hsend := h.send hnow hlate (show p.lastPass ≤ t + interval by omega)
    exact ⟨hsend.gaps, show curr ≤ t + interval by omega, hsend.past⟩
  · next hdue =>
    exact ⟨h.gaps, Nat.le_of_not_lt hdue, (h.mono hnow).past⟩

/-- Dropping messages from the front of a chain leaves a chain, from the last one dropped on. -/
theorem exists_base {R : Nat → Nat → Prop} {l : List Nat} {b : Nat} (hchain : (b :: l).IsChain R) (k : Nat) :
    ∃ b', (b' = b ∨ b' ∈ l) ∧ (b' :: l.drop k).IsChain R ∧ (b' :: l.drop k).getLast? = (b :: l).getLast? := by
  induction k generalizing b l with
  | zero => exact ⟨b, Or.inl rfl, hchain, rfl⟩
  | succ k ih =>
    cases l with
    | nil => exact ⟨b, Or.inl rfl, hchain, rfl⟩
    | cons m l =>
      obtain ⟨b', hmem, hchain', hlast⟩ := ih hchain.tail
      refine ⟨b', Or.inr ?_, hchain', ?_⟩
      · rcases hmem with rfl | hmem
        · exact List.mem_cons_self
        · exact List.mem_cons_of_mem m hmem
      · rw [List.drop_succ_cons, hlast, List.getLast?_cons_cons]

theorem Beats.recv (h : p.Beats interval period skew now) {t : Nat} (ht : now ≤ t) (hrecv : p.lastRecv ≤ t) (k : Nat) :
    (p.recv t k).Beats interval period skew t := by
  obtain ⟨base, hbase, hchain, hlast⟩ := h.gaps
  obtain ⟨base', hmem, hchain', hlast'⟩ := exists_base hchain k
  refine ⟨⟨base', ?_, hchain', hlast'.trans hlast⟩, h.pass, fun m hm => ?_⟩
  · rcases hmem with rfl | hmem
    · exact hbase.trans (Nat.add_le_add_right hrecv skew)
    · exact ((h.past _ hmem).trans ht).trans (Nat.le_add_right t skew)
  · exact (h.past m (List.mem_of_mem_drop hm)).trans ht

/-- At a timely moment something was received at most an interval, a period, a delay and the skew ago. -/
theorem Beats.heard (h : p.Beats interval period skew now) {t : Nat} (ht : p.Timely period delay t) :
    t ≤ p.lastRecv + (interval + period + delay + skew) := by
  obtain ⟨base, hbase, hchain, hlast⟩ := h.gaps
  cases hway : p.underWay with
  | nil =>
    rw [hway, List.getLast?_singleton, Option.some.injEq] at hlast
    have := ht.pass
    have := h.pass
    omega
  | cons m rest =>
    rw [hway] at hchain
    have hgap := (List.isChain_cons_cons.mp hchain).1
    have hdelay := ht.underWay m (by rw [hway]; exact List.mem_cons_self)
    omega

end

end Pulse
