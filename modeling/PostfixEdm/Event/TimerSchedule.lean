import PostfixEdm.Event.TimerPass
import PostfixEdm.Lib.CatchUp
import Mathlib.Algebra.Group.Nat.Defs

/-!
# The schedule of a timer

A timer is registered, and then passes come and go, while other timers are registered, removed and called.

* `TimerAct`, `Pass.step` : a call of `AddTimer` or `RemoveTimer` between two passes, the start of a pass, and a
  round;
* `Watch` : the timers with what one timer has done since it was registered; `Watch.step`, `Undisturbed` : the steps
  that leave the timer alone, with a clock that does not go back;
* `RegisteredAt` : the last that was done to the timer was an `AddTimer`, its first or a later one;
* `Schedule` : the invariant; `Schedule.step` : what a step keeps; `timer_schedule` : what holds in every run.
-/

namespace PostfixEdm

open Cursor CatchUp

/-- A step of `CEventDispatch`: outside of `_CheckTimer`, its start at a tick, and a round of its loop. -/
inductive TimerAct (κ : Type)
  | op (o : TimerOp κ)
  | check (tick : UInt64)
  | visit (ops : List (TimerOp κ))
  deriving DecidableEq, Repr

/-- `times` are the ticks of the passes that have begun since, the last one first. `fired` counts the calls of the
timer, and `firedNow` those in the last pass. -/
structure Watch (κ : Type) where
  pass : Pass κ
  times : List UInt64
  fired : Nat
  firedNow : Nat

def Watch.start {κ : Type} (s : Pass κ) : Watch κ := ⟨s, [], 0, 0⟩

section
variable {κ : Type} [DecidableEq κ]

/-- `_CheckTimer` runs to its end before anything else happens. -/
def Pass.step : TimerAct κ → Pass κ → Option (Pass κ)
  | .op o, s => if s.it = none then some { s with timers := o.apply s.timers } else none
  | .check tick, s => if s.it = none then some (start tick s.timers) else none
  | .visit ops, s => s.visit ops

namespace Watch

/-- Whether a step calls the timer. -/
def fires (key : κ) (w : Watch κ) : TimerAct κ → Nat
  | .visit _ => if w.pass.dueItem.any (·.key = key) then 1 else 0
  | _ => 0

def step (key : κ) (a : TimerAct κ) (w : Watch κ) : Option (Watch κ) := do
  let pass ← w.pass.step a
  match a with
  | .check tick => some ⟨pass, tick :: w.times, w.fired, 0⟩
  | _ => some ⟨pass, w.times, w.fired + w.fires key a, w.firedNow + w.fires key a⟩

end Watch

/-- Nobody touches the timer, and the clock does not go back. -/
def Undisturbed (key : κ) (t0 : UInt64) (w : Watch κ) : TimerAct κ → Prop
  | .op o => o.key ≠ key
  | .check tick => t0 ≤ tick ∧ (∀ last ∈ w.times.head?, last ≤ tick) ∧ tick.toNat < 2 ^ 63
  | .visit ops => ∀ o ∈ ops, o.key ≠ key

/-- The last operation on the timer was `AddTimer`, at `t0`. -/
def RegisteredAt (key : κ) (interval t0 : UInt64) (t : TimerList κ) : Prop :=
  ∃ t₁ pre post, t = TimerList.run (pre ++ .add key interval t0 :: post) t₁ ∧ ∀ o ∈ post, o.key ≠ key

/-! ## Registrations -/

theorem exists_mem_addTimer (t : TimerList κ) (key : κ) (interval tick : UInt64) :
    ∃ x ∈ (t.addTimer key interval tick).items, x.key = key ∧ x.interval = interval ∧
      x.nextTick = tick + interval := by
  by_cases hmem : key ∈ t.items.map TimerItem.key
  · obtain ⟨x, hx, rfl⟩ := List.mem_map.mp hmem
    refine ⟨{ x with interval := interval, nextTick := tick + interval }, ?_, rfl, rfl, rfl⟩
    have hitems : TimerItem.addTimer ⟨t.nodes, x.key, interval, tick + interval⟩ t.items = _ :=
      TimerItem.addTimer_of_mem t.keys hmem
    show _ ∈ TimerItem.addTimer _ t.items
    rw [hitems]
    exact List.mem_map.mpr ⟨x, hx, if_pos rfl⟩
  · refine ⟨⟨t.nodes, key, interval, tick + interval⟩, ?_, rfl, rfl, rfl⟩
    show _ ∈ TimerItem.addTimer ⟨t.nodes, key, interval, tick + interval⟩ t.items
    rw [TimerItem.addTimer_of_notMem hmem]
    exact List.mem_append_right t.items (List.mem_singleton_self _)

theorem RegisteredAt.exists_mem {key : κ} {interval t0 : UInt64} {t : TimerList κ}
    (h : RegisteredAt key interval t0 t) :
    ∃ x ∈ t.items, x.key = key ∧ x.interval = interval ∧ x.nextTick = t0 + interval := by
  obtain ⟨t₁, pre, post, rfl, hpost⟩ := h
  obtain ⟨x, hx, rfl, hinterval, hnext⟩ := exists_mem_addTimer (t₁.run pre) key interval t0
  refine ⟨x, ?_, rfl, hinterval, hnext⟩
  rw [TimerList.run, List.foldl_append, List.foldl_cons]
  exact TimerList.mem_run hx hpost

/-- A second registration adds no second entry. -/
theorem keys_addTimer_of_mem {t : TimerList κ} {key : κ} (h : key ∈ t.items.map TimerItem.key)
    (interval tick : UInt64) : (t.addTimer key interval tick).items.map TimerItem.key = t.items.map TimerItem.key := by
  rw [TimerList.addTimer, TimerItem.map_addTimer TimerItem.key t.keys fun _ => rfl, if_pos h, List.append_nil]

end

/-! ## The invariant -/

section
variable {κ : Type}

/-- How many calls the schedule wants by a tick. -/
def wanted (interval t0 tick : UInt64) : Nat := (tick.toNat - t0.toNat) / interval.toNat

/-- The looks at the clock that the timer has had a turn for: the last pass counts once its loop has come to it. -/
def Watch.seen (id : Nat) (w : Watch κ) : List UInt64 := if id ∈ w.pass.turns then w.times else w.times.tail

/-- The invariant of the timer on the node `id`. -/
structure Schedule (id : Nat) (key : κ) (interval t0 : UInt64) (w : Watch κ) : Prop where
  item : ∃ x ∈ w.pass.timers.items, x.id = id ∧ x.key = key ∧ x.interval = interval ∧
    x.nextTick.toNat = t0.toNat + (w.fired + 1) * interval.toNat
  fired : w.fired = caughtUp ((w.seen id).map (wanted interval t0))
  firedNow : w.firedNow ≤ 1 ∧ (id ∉ w.pass.turns → w.firedNow = 0)
  clock : ∀ tick ∈ w.times, t0 ≤ tick ∧ tick.toNat < 2 ^ 63
  sorted : w.times.Pairwise (· ≥ ·)
  fresh : w.times = [] → w.pass.currTick ≤ t0 ∧ w.firedNow = 0
  last : ∀ tick ∈ w.times.head?, w.pass.currTick = tick
  walk : w.times ≠ [] → w.pass.Dangling ∨
    ∃ start, id ∈ start ∧ Walk start (· ≠ id) w.pass.turns w.pass.timers.nodeIds w.pass.it ∧
      ∀ b ∈ w.pass.turns, b < w.pass.timers.nodes

section
variable {id : Nat} {key : κ} {interval t0 : UInt64} {w w' : Watch κ}

theorem Schedule.start {s : Pass κ} {x : TimerItem κ} (hx : x ∈ s.timers.items) (hinterval : x.interval = interval)
    (hnext : x.nextTick = t0 + interval) (hrange : t0.toNat + interval.toNat < 2 ^ 64) (hclock : s.currTick ≤ t0) :
    Schedule x.id x.key interval t0 (Watch.start s) where
  item := by
    refine ⟨x, hx, rfl, rfl, hinterval, ?_⟩
    rw [hnext, UInt64.toNat_add, Nat.mod_eq_of_lt hrange, Watch.start, Nat.zero_add, Nat.one_mul]
  fired := by
    unfold Watch.seen
    split <;> rfl
  firedNow := ⟨Nat.zero_le 1, fun _ => rfl⟩
  clock := fun _ h => absurd h List.not_mem_nil
  sorted := .nil
  fresh := fun _ => ⟨hclock, rfl⟩
  last := by simp [Watch.start]
  walk := fun h => absurd rfl h

theorem Schedule.seen_of_end (h : Schedule id key interval t0 w) (hend : w.pass.it = none) : w.seen id = w.times := by
  rw [Watch.seen]
  split
  · rfl
  · next hnot =>
    by_cases hne : w.times = []
    · rw [hne, List.tail_nil]
    · obtain ⟨b, hb, -⟩ | ⟨begun, hin, hwalk, -⟩ := h.walk hne
      · rw [hend] at hb
        cases hb
      · rw [hend] at hwalk
        exact absurd (hwalk.finished hin fun hother => hother rfl) hnot

/-- A pass begins. -/
theorem Schedule.check (h : Schedule id key interval t0 w) {tick : UInt64} (hend : w.pass.it = none) (hle : t0 ≤ tick)
    (hlast : ∀ last ∈ w.times.head?, last ≤ tick) (htick : tick.toNat < 2 ^ 63) :
    Schedule id key interval t0 ⟨Pass.start tick w.pass.timers, tick :: w.times, w.fired, 0⟩ := by
  obtain ⟨x, hx, rfl, hkey, hinterval, hnext⟩ := h.item
  refine ⟨⟨x, hx, rfl, hkey, hinterval, hnext⟩, ?fired, ⟨Nat.zero_le 1, fun _ => rfl⟩, ?clock, ?sorted,
    fun hnil => absurd hnil (List.cons_ne_nil _ _), ?last,
    fun _ => ?walk⟩
  case fired =>
    rw [h.fired, h.seen_of_end hend]
    rfl
  case clock => exact List.forall_mem_cons.mpr ⟨⟨hle, htick⟩, h.clock⟩
  case sorted =>
    refine List.pairwise_cons.mpr ⟨fun time htime => ?_, h.sorted⟩
    have hsorted := h.sorted
    cases htimes : w.times with
    | nil =>
      rw [htimes] at htime
      exact absurd htime List.not_mem_nil
    | cons last earlier =>
      have hlast' : last ≤ tick := hlast last (by rw [htimes]; rfl)
      rw [htimes] at htime hsorted
      rcases List.mem_cons.mp htime with rfl | htime
      · exact hlast'
      · exact UInt64.le_trans ((List.pairwise_cons.mp hsorted).1 time htime) hlast'
  case last => simp [Pass.start]
  case walk =>
    exact Or.inr ⟨w.pass.timers.nodeIds, List.mem_map_of_mem hx, walk_start _ _, fun b hb => absurd hb List.not_mem_nil⟩

theorem dueItem_eq {s : Pass κ} {item : TimerItem κ} (hmem : item ∈ s.timers.items) (hit : s.it = some item.id) :
    s.dueItem = if item.nextTick ≤ s.currTick then some item else none := by
  simp [Pass.dueItem, hit, TimerList.find_eq_some.mpr ⟨hmem, rfl⟩]

theorem Schedule.walking (h : Schedule id key interval t0 w) {item : TimerItem κ} (hmem : item ∈ w.pass.timers.items)
    (hit : w.pass.it = some item.id) (hne : w.times ≠ []) :
    ∃ begun, id ∈ begun ∧ Walk begun (· ≠ id) w.pass.turns w.pass.timers.nodeIds (some item.id) ∧
      ∀ b ∈ w.pass.turns, b < w.pass.timers.nodes := by
  rcases h.walk hne with ⟨b, hb, hfind⟩ | hwalk
  · obtain rfl := Option.some.inj (hit.symm.trans hb)
    rw [TimerList.find_eq_some.mpr ⟨hmem, rfl⟩] at hfind
    cases hfind
  · rw [hit] at hwalk
    exact hwalk

/-- The timer is due when the schedule wants more calls than there have been. -/
theorem due_iff {x : TimerItem κ} {n : Nat} {tick : UInt64}
    (hnext : x.nextTick.toNat = t0.toNat + (n + 1) * interval.toNat) (hpos : 0 < interval.toNat) (hle : t0 ≤ tick) :
    x.nextTick ≤ tick ↔ n < wanted interval t0 tick := by
  rw [UInt64.le_iff_toNat_le, hnext, wanted, ← Nat.succ_le_iff, Nat.le_div_iff_mul_le hpos]
  have := UInt64.le_iff_toNat_le.mp hle
  rw [Nat.succ_eq_add_one]
  omega

/-- What the turn of the timer adds to its calls. -/
theorem Schedule.turn (h : Schedule id key interval t0 w) {item : TimerItem κ} (hpos : 0 < interval.toNat)
    (hmem : item ∈ w.pass.timers.items) (hit : w.pass.it = some item.id) (hid : item.id = id)
    (hnext : item.nextTick.toNat = t0.toNat + (w.fired + 1) * interval.toNat) :
    (w.fired + if item.nextTick ≤ w.pass.currTick then 1 else 0) = caughtUp (w.times.map (wanted interval t0)) ∧
      w.firedNow = 0 ∧ (item.nextTick ≤ w.pass.currTick → w.times ≠ [] ∧ w.pass.currTick.toNat < 2 ^ 63) := by
  have hfired := h.fired
  cases htimes : w.times with
  | nil =>
    have hzero : w.fired = 0 := by
      rw [hfired, Watch.seen, htimes]
      split <;> rfl
    obtain ⟨hclock, hnow⟩ := h.fresh htimes
    have hlate : ¬ item.nextTick ≤ w.pass.currTick := by
      rw [UInt64.le_iff_toNat_le, hnext, hzero]
      have := UInt64.le_iff_toNat_le.mp hclock
      omega
    refine ⟨?_, hnow, fun hdue => absurd hdue hlate⟩
    rw [if_neg hlate, hzero]
    rfl
  | cons tick earlier =>
    obtain ⟨begun, hin, hwalk, -⟩ := h.walking hmem hit (by rw [htimes]; exact List.cons_ne_nil _ _)
    have hnot : id ∉ w.pass.turns := hid ▸ hwalk.notMem_turns
    have hcurr : w.pass.currTick = tick := h.last tick (by rw [htimes]; rfl)
    obtain ⟨hle, htick⟩ := h.clock tick (by rw [htimes]; exact List.mem_cons_self)
    rw [Watch.seen, if_neg hnot, htimes, List.tail_cons] at hfired
    refine ⟨?_, h.firedNow.2 hnot, fun _ => ⟨List.cons_ne_nil _ _, hcurr ▸ htick⟩⟩
    rw [List.map_cons, caughtUp_cons, ← hfired, catchUp, hcurr]
    simp only [due_iff hnext hpos hle]
    split <;> rfl

theorem wanted_mono {t₁ t₂ : UInt64} (h : t₁ ≤ t₂) : wanted interval t0 t₁ ≤ wanted interval t0 t₂ :=
  Nat.div_le_div_right (Nat.sub_le_sub_right (UInt64.le_iff_toNat_le.mp h) t0.toNat)

theorem Schedule.fired_le (h : Schedule id key interval t0 w) {t : UInt64} {earlier : List UInt64}
    (htimes : w.times = t :: earlier) : w.fired ≤ wanted interval t0 t := by
  have hsorted := h.sorted
  rw [htimes] at hsorted
  have hle : ∀ time ∈ w.times, time ≤ t := by
    rw [htimes]
    exact List.forall_mem_cons.mpr ⟨UInt64.le_refl t, (List.pairwise_cons.mp hsorted).1⟩
  rw [h.fired]
  refine caughtUp_le fun target htarget => ?_
  obtain ⟨time, htime, rfl⟩ := List.mem_map.mp htarget
  refine wanted_mono (hle time ?_)
  rw [Watch.seen] at htime
  split at htime
  · exact htime
  · exact List.mem_of_mem_tail htime

/-- The pass is over, and there has been a pass in each interval. -/
theorem Schedule.fired_eq (h : Schedule id key interval t0 w) (hend : w.pass.it = none) {t : UInt64}
    {earlier : List UInt64} (htimes : w.times = t :: earlier) (hpos : 0 < interval.toNat)
    (hseen : ∀ k, 1 ≤ k → t0.toNat + k * interval.toNat ≤ t.toNat → ∃ τ ∈ w.times,
      t0.toNat + k * interval.toNat ≤ τ.toNat ∧ τ.toNat < t0.toNat + (k + 1) * interval.toNat) :
    w.fired = wanted interval t0 t := by
  have hsorted := h.sorted
  have hle : t0.toNat ≤ t.toNat :=
    UInt64.le_iff_toNat_le.mp (h.clock t (by rw [htimes]; exact List.mem_cons_self)).1
  rw [h.fired, h.seen_of_end hend]
  rw [htimes] at hsorted hseen ⊢
  have hfloors : ((t :: earlier).map (wanted interval t0)).Pairwise (· ≥ ·) :=
    List.pairwise_map.mpr (hsorted.imp wanted_mono)
  refine caughtUp_eq hfloors fun k hk hkt => ?_
  rw [wanted, Nat.le_div_iff_mul_le hpos] at hkt
  obtain ⟨τ, hτ, hlow, hhigh⟩ := hseen k hk (by omega)
  have hfloor : wanted interval t0 τ = k := Nat.div_eq_of_lt_le (by omega) (by omega)
  exact hfloor ▸ List.mem_map_of_mem hτ

end

end

/-! ## A step -/

section
variable {κ : Type} [DecidableEq κ] {id : Nat} {key : κ} {interval t0 : UInt64} {w w' : Watch κ} {item : TimerItem κ}
  {ops : List (TimerOp κ)}

/-- An operation on another timer, between two passes. -/
theorem Schedule.op (h : Schedule id key interval t0 w) {o : TimerOp κ} (ho : o.key ≠ key) (hend : w.pass.it = none) :
    Schedule id key interval t0 { w with pass := { w.pass with timers := o.apply w.pass.timers } } := by
  obtain ⟨x, hx, hid, rfl, hinterval, hnext⟩ := h.item
  have hmem : x ∈ (TimerList.run [o] w.pass.timers).items :=
    TimerList.mem_run hx fun o' ho' => by rw [List.mem_singleton.mp ho']; exact ho
  refine ⟨⟨x, hmem, hid, rfl, hinterval, hnext⟩, h.fired, h.firedNow, h.clock, h.sorted, h.fresh, h.last,
    fun hne => ?_⟩
  obtain ⟨b, hb, -⟩ | ⟨begun, hin, hwalk, hold⟩ := h.walk hne
  · rw [hend] at hb
    cases hb
  · rw [hend] at hwalk
    refine Or.inr ⟨begun, hin, ?_, fun b hb => ?_⟩
    · show Walk begun _ _ _ w.pass.it
      rw [hend]
      exact hwalk.atEnd _
    · obtain ⟨-, -, -, hle⟩ := TimerList.nodeIds_run [o] w.pass.timers
      exact Nat.lt_of_lt_of_le (hold b hb) hle

theorem fires_visit (hmem : item ∈ w.pass.timers.items) (hit : w.pass.it = some item.id) :
    w.fires key (.visit ops) = if item.nextTick ≤ w.pass.currTick ∧ item.key = key then 1 else 0 := by
  rw [Watch.fires, dueItem_eq hmem hit]
  split
  · next hdue => simp [hdue]
  · next hlate => simp [hlate]

/-- The loop goes on, or has lost its iterator for good. -/
theorem Schedule.walk_after (h : Schedule id key interval t0 w) (hmem : item ∈ w.pass.timers.items)
    (hit : w.pass.it = some item.id) (hops : ∀ o ∈ ops, o.key ≠ key)
    (hvisit : w.pass.visit ops = some (w.pass.after item ops)) (hne : w.times ≠ []) :
    (w.pass.after item ops).Dangling ∨ ∃ begun, id ∈ begun ∧
      Walk begun (· ≠ id) (w.pass.after item ops).turns (w.pass.after item ops).timers.nodeIds
        (w.pass.after item ops).it ∧
      ∀ b ∈ (w.pass.after item ops).turns, b < (w.pass.after item ops).timers.nodes := by
  by_cases hspares : w.pass.Spares ops
  · obtain ⟨begun, hin, hwalk, hold⟩ := h.walking hmem hit hne
    obtain ⟨x, hx, hid, rfl, -, -⟩ := h.item
    refine Or.inr ⟨begun, hin, Pass.walk_after hspares hmem hit hwalk hold fun b _ hb => ⟨hb, fun _ _ => ?_⟩⟩
    obtain rfl : b = id := not_not.mp hb
    rw [← hid, TimerList.keptNode_of_mem hx]
    exact TimerItem.keptBy_of_ne (Pass.forall_mem_done hops)
  · exact Or.inl (Pass.dangling_of_not_spares hvisit hspares)

/-- Another timer has its turn. -/
theorem Schedule.visit_other (h : Schedule id key interval t0 w) (hmem : item ∈ w.pass.timers.items)
    (hit : w.pass.it = some item.id) (hops : ∀ o ∈ ops, o.key ≠ key)
    (hvisit : w.pass.visit ops = some (w.pass.after item ops)) (hne : item.id ≠ id) :
    Schedule id key interval t0 { w with pass := w.pass.after item ops } := by
  have hturns : id ∈ (w.pass.after item ops).turns ↔ id ∈ w.pass.turns := by
    rw [Pass.after_turns, List.mem_append, List.mem_singleton, or_iff_left (Ne.symm hne)]
  obtain ⟨x, hx, hid, rfl, hinterval, hnext⟩ := h.item
  have hx' : x ∈ (w.pass.after item ops).timers.items :=
    TimerList.mem_run (Pass.mem_found hx (by rw [hid]; exact Ne.symm hne)) (Pass.forall_mem_done hops)
  refine ⟨⟨x, hx', hid, rfl, hinterval, hnext⟩, ?_, ⟨h.firedNow.1, fun hnot => ?_⟩, h.clock, h.sorted, h.fresh, h.last,
    h.walk_after hmem hit hops hvisit⟩
  · rw [h.fired, Watch.seen, Watch.seen]
    simp only [hturns]
  · exact h.firedNow.2 fun hin => hnot (hturns.mpr hin)

/-- The timer itself has its turn: it is called if it is due. -/
theorem Schedule.visit_own (h : Schedule id key interval t0 w) (hpos : 0 < interval.toNat)
    (hmem : item ∈ w.pass.timers.items) (hit : w.pass.it = some item.id) (hops : ∀ o ∈ ops, o.key ≠ key)
    (hvisit : w.pass.visit ops = some (w.pass.after item ops)) (hid : item.id = id) :
    Schedule id key interval t0 ⟨w.pass.after item ops, w.times,
      w.fired + (if item.nextTick ≤ w.pass.currTick then 1 else 0),
      w.firedNow + if item.nextTick ≤ w.pass.currTick then 1 else 0⟩ := by
  obtain ⟨x, hx, hidx, rfl, hinterval, hnext⟩ := h.item
  obtain rfl : x = item := TimerList.eq_of_id hx hmem (hidx.trans hid.symm)
  obtain ⟨hfired, hnow, hdue⟩ := h.turn hpos hmem hit hid hnext
  have hturns : id ∈ (w.pass.after x ops).turns := by
    rw [Pass.after_turns, ← hid]
    exact List.mem_append_right _ (List.mem_singleton_self _)
  refine ⟨?item, ?fired, ⟨?now, fun hnot => absurd hturns hnot⟩, h.clock, h.sorted,
    fun hnil => ⟨(h.fresh hnil).1, ?fresh⟩, h.last, h.walk_after hmem hit hops hvisit⟩
  case item =>
    by_cases hle : x.nextTick ≤ w.pass.currTick
    · have hfound : x.advance ∈ (w.pass.found x).items := by
        rw [Pass.found, if_pos hle]
        exact TimerList.advance_mem hx
      refine ⟨x.advance, TimerList.mem_run hfound (Pass.forall_mem_done hops), hidx, rfl, hinterval, ?_⟩
      have hlast := (hdue hle).2
      have hcurr := UInt64.le_iff_toNat_le.mp hle
      have hstep : (w.fired + 1 + 1) * interval.toNat = (w.fired + 1) * interval.toNat + interval.toNat :=
        Nat.succ_mul _ _
      have hinc : interval.toNat ≤ (w.fired + 1) * interval.toNat := Nat.le_mul_of_pos_left _ (Nat.succ_pos _)
      rw [if_pos hle, hstep, TimerItem.advance, UInt64.toNat_add, hinterval, hnext, Nat.mod_eq_of_lt (by omega)]
      omega
    · have hfound : x ∈ (w.pass.found x).items := by
        rw [Pass.found, if_neg hle]
        exact hx
      refine ⟨x, TimerList.mem_run hfound (Pass.forall_mem_done hops), hidx, rfl, hinterval, ?_⟩
      rw [if_neg hle]
      exact hnext
  case fired => rw [Watch.seen, if_pos hturns, hfired]
  case now =>
    simp only [hnow]
    split <;> decide
  case fresh =>
    rw [hnow, if_neg fun hle => (hdue hle).1 hnil]

/-- What a step keeps. -/
theorem Schedule.step (h : Schedule id key interval t0 w) (hpos : 0 < interval.toNat) {a : TimerAct κ}
    (hgood : Undisturbed key t0 w a) (hstep : w.step key a = some w') : Schedule id key interval t0 w' := by
  obtain ⟨s', hs', hstep⟩ := Option.bind_eq_some_iff.mp hstep
  cases a with
  | op o =>
    obtain ⟨hend, heq⟩ := Option.ite_none_right_eq_some.mp hs'
    cases heq
    cases hstep
    exact h.op hgood hend
  | check tick =>
    obtain ⟨hend, heq⟩ := Option.ite_none_right_eq_some.mp hs'
    cases heq
    cases hstep
    exact h.check hend hgood.1 hgood.2.1 hgood.2.2
  | visit ops =>
    obtain ⟨item, hmem, hit, rfl⟩ := Pass.visit_cases hs'
    cases hstep
    rw [fires_visit hmem hit]
    have hkey : item.key = key ↔ item.id = id := by
      obtain ⟨x, hx, hid, rfl, -, -⟩ := h.item
      rw [← hid]
      exact ⟨fun heq => congrArg _ (TimerList.eq_of_key hmem hx heq),
        fun heq => congrArg _ (TimerList.eq_of_id hmem hx heq)⟩
    by_cases hid : item.id = id
    · simp only [hkey, hid, and_true]
      exact h.visit_own hpos hmem hit hgood hs' hid
    · simp only [hkey, hid, and_false, if_false, Nat.add_zero]
      exact h.visit_other hmem hit hgood hs' hid

/-! ## Every run -/

/-- A timer has been registered at `t0`, by its first or by a later `AddTimer`, in a callback or not. The first tick
at which it is due is below `2 ^ 64`. Then, as long as nobody touches it, it has one entry, which is due an interval
after its last call in the schedule; no pass calls it twice; by a tick it has been called at most as often as whole
intervals have gone by; and after a pass exactly as often, if each interval has seen a pass. The next registration
adds no entry, and the schedule starts from it. -/
theorem timer_schedule {s₀ : Pass κ} (hreg : RegisteredAt key interval t0 s₀.timers) (hpos : 0 < interval)
    (hrange : t0.toNat + interval.toNat < 2 ^ 64) (hclock : s₀.currTick ≤ t0)
    (h : Transition.Reaches (Watch.step key) (Undisturbed key t0) (Watch.start s₀) w) :
    (∃ x ∈ w.pass.timers.items, x.key = key ∧ x.interval = interval ∧
      x.nextTick.toNat = t0.toNat + (w.fired + 1) * interval.toNat) ∧
    (w.pass.timers.items.map TimerItem.key).Nodup ∧
    w.firedNow ≤ 1 ∧ (w.times = [] → w.fired = 0) ∧
    (∀ t earlier, w.times = t :: earlier →
      w.fired ≤ (t.toNat - t0.toNat) / interval.toNat ∧
      (w.pass.it = none →
        (∀ k, 1 ≤ k → t0.toNat + k * interval.toNat ≤ t.toNat → ∃ τ ∈ w.times,
          t0.toNat + k * interval.toNat ≤ τ.toNat ∧ τ.toNat < t0.toNat + (k + 1) * interval.toNat) →
        w.fired = (t.toNat - t0.toNat) / interval.toNat)) ∧
    ∀ interval' tick',
      (w.pass.timers.addTimer key interval' tick').items.map TimerItem.key =
        w.pass.timers.items.map TimerItem.key ∧
      RegisteredAt key interval' tick' (w.pass.timers.addTimer key interval' tick') := by
  have hpos' : 0 < interval.toNat := UInt64.lt_iff_toNat_lt.mp hpos
  obtain ⟨x₀, hx₀, rfl, hinterval, hnext⟩ := hreg.exists_mem
  have hsched : Schedule x₀.id x₀.key interval t0 w :=
    h.invariant (.start hx₀ hinterval hnext hrange hclock) fun _ _ _ hinv hgood hstep => hinv.step hpos' hgood hstep
  obtain ⟨x, hx, -, hkey, hitem⟩ := hsched.item
  refine ⟨⟨x, hx, hkey, hitem⟩, w.pass.timers.keys, hsched.firedNow.1, fun hnil => ?_, fun t earlier htimes => ⟨?_, ?_⟩,
    fun interval' tick' => ⟨?_, w.pass.timers, [], [], rfl, ?_⟩⟩
  · rw [hsched.fired, Watch.seen, hnil]
    split <;> rfl
  · exact hsched.fired_le htimes
  · exact fun hend hseen => hsched.fired_eq hend htimes hpos' hseen
  · exact keys_addTimer_of_mem (hkey ▸ List.mem_map_of_mem hx) interval' tick'
  · exact fun o ho => absurd ho List.not_mem_nil

end

/-- One timer, registered at 0 and due every 10 milliseconds. -/
def oneTimer : Pass Nat := ⟨TimerList.empty.addTimer 7 10 0, 0, none, []⟩

/-- One pass, at 10. -/
theorem timer_schedule_once :
    ∃ w, Transition.run (Watch.step 7) [.check 10, .visit []] (Watch.start oneTimer) = some w ∧ w.fired = 10 / 10 := by
  have hreg : RegisteredAt 7 10 0 oneTimer.timers :=
    ⟨TimerList.empty, [], [], rfl, fun o ho => absurd ho List.not_mem_nil⟩
  have hstart : Transition.Reaches (Watch.step 7) (Undisturbed 7 0) (Watch.start oneTimer) (Watch.start oneTimer) :=
    .start
  have hgood : Undisturbed 7 0 (Watch.start oneTimer) (.check 10) :=
    ⟨by decide, fun _ hnone => absurd hnone (by simp [Watch.start]), by decide⟩
  have hquiet : ∀ w : Watch Nat, Undisturbed 7 0 w (.visit []) := fun w o ho => absurd ho List.not_mem_nil
  have hcheck := hstart.step _ hgood rfl
  have hvisit := hcheck.step _ (hquiet _) rfl
  obtain ⟨-, -, -, -, htimes, -⟩ := timer_schedule hreg (by decide) (by decide) (UInt64.le_refl 0) hvisit
  refine ⟨_, rfl, (htimes 10 [] rfl).2 rfl fun k hk hle => ⟨10, List.mem_singleton_self _, hle, ?_⟩⟩
  show 10 < 0 + (k + 1) * 10
  omega

end PostfixEdm
