import PostfixEdm.Event.Timer
import PostfixEdm.Lib.Cursor
import PostfixEdm.Lib.Transition

/-!
# One pass of `CEventDispatch::_CheckTimer`

The loop moves its iterator on before it calls back, and the callback may change the list. The entry that the
iterator has been moved on to must then still be there.

* `Pass`, `Pass.visit` : where a pass stands, and one round of the loop, with all that the callback does;
* `Pass.Spares` : the callback does not remove the timer that stands behind its own;
* `Untouched visits x` : no callback has removed or registered the timer `x` before its turn;
* `Pass.Inv` : the invariant of a pass, a walk over the nodes; `Inv.visit` : a round whose callback spares the next
  timer keeps it;
* `checkTimer_reentrant` : what holds in every run of such rounds.
-/

namespace PostfixEdm

open Cursor

/-- A round of the loop: the node, whether its timer has been called, and what the callback has done. -/
structure Visit (κ : Type) where
  id : Nat
  called : Bool
  ops : List (TimerOp κ)
  deriving DecidableEq, Repr

/-- `it` is the node that the iterator stands on, and `none` at `end()`. `visits` are the rounds so far. -/
structure Pass (κ : Type) where
  timers : TimerList κ
  currTick : UInt64
  it : Option Nat
  visits : List (Visit κ)

section
variable {κ : Type}

namespace Pass

def start (tick : UInt64) (t : TimerList κ) : Pass κ := ⟨t, tick, t.nodeIds.head?, []⟩

def turns (s : Pass κ) : List Nat := s.visits.map Visit.id

/-- How often the timer of a node has been called. -/
def calls (id : Nat) (s : Pass κ) : Nat := s.visits.countP fun v => v.id = id ∧ v.called

section
variable {s : Pass κ} {id : Nat}

theorem calls_of_notMem (h : id ∉ s.turns) : s.calls id = 0 := by
  refine List.countP_eq_zero.mpr fun v hv => ?_
  have hid : v.id ≠ id := by
    rintro rfl
    exact h (List.mem_map_of_mem hv)
  simp [hid]

/-- No timer is called more often than the loop comes to it. -/
theorem calls_le_one (h : s.turns.Nodup) (id : Nat) : s.calls id ≤ 1 := by
  have hcount : s.calls id ≤ s.turns.count id := by
    rw [turns, List.count_eq_countP, List.countP_map]
    refine List.countP_mono_left fun v _ hv => ?_
    simpa using (of_decide_eq_true hv).1
  exact Nat.le_trans hcount (List.nodup_iff_count_le_one.mp h id)

end

variable {s : Pass κ} {item x : TimerItem κ}

/-- What the callback has done in a round; one that is not called does nothing. -/
def done (s : Pass κ) (item : TimerItem κ) (ops : List (TimerOp κ)) : List (TimerOp κ) :=
  if item.nextTick ≤ s.currTick then ops else []

theorem forall_mem_done {ops : List (TimerOp κ)} {p : TimerOp κ → Prop} (h : ∀ o ∈ ops, p o) :
    ∀ o ∈ s.done item ops, p o := by
  unfold done
  split
  · exact h
  · exact fun o ho => absurd ho List.not_mem_nil

/-- The timers that the callback of a round finds. -/
def found (s : Pass κ) (item : TimerItem κ) : TimerList κ :=
  if item.nextTick ≤ s.currTick then s.timers.advance item.id else s.timers

@[simp] theorem found_nodeIds : (s.found item).nodeIds = s.timers.nodeIds := by
  unfold found
  split
  · exact TimerList.nodeIds_advance
  · rfl

@[simp] theorem found_nodes : (s.found item).nodes = s.timers.nodes := by
  unfold found
  split <;> rfl

theorem mem_found (hx : x ∈ s.timers.items) (h : x.id ≠ item.id) : x ∈ (s.found item).items := by
  unfold found
  split
  · exact TimerList.mem_advance hx h
  · exact hx

end Pass

/-- No callback has removed or registered the timer before its turn. -/
def Untouched (visits : List (Visit κ)) (x : TimerItem κ) : Prop :=
  ∀ v ∈ visits.takeWhile (·.id ≠ x.id), ∀ o ∈ v.ops, o.key ≠ x.key

theorem takeWhile_append_of_mem {α : Type} {p : α → Bool} {a : α} {xs ys : List α} (ha : a ∈ xs)
    (hp : p a = false) : (xs ++ ys).takeWhile p = xs.takeWhile p := by
  induction xs with
  | nil => exact absurd ha List.not_mem_nil
  | cons x xs ih =>
    rw [List.cons_append, List.takeWhile_cons, List.takeWhile_cons]
    split
    · next hx =>
      refine congrArg (x :: ·) (ih ((List.mem_cons.mp ha).resolve_left ?_))
      rintro rfl
      exact absurd (hp.symm.trans hx) (by decide)
    · rfl

namespace Untouched

variable {visits : List (Visit κ)} {v : Visit κ} {x : TimerItem κ}

theorem append_of_mem (h : x.id ∈ visits.map Visit.id) : Untouched (visits ++ [v]) x ↔ Untouched visits x := by
  obtain ⟨w, hw, hid⟩ := List.mem_map.mp h
  rw [Untouched, takeWhile_append_of_mem hw (by simpa using hid), Untouched]

theorem append_of_notMem (h : x.id ∉ visits.map Visit.id) :
    Untouched (visits ++ [v]) x ↔ Untouched visits x ∧ (v.id ≠ x.id → ∀ o ∈ v.ops, o.key ≠ x.key) := by
  have hall : ∀ w ∈ visits, decide (w.id ≠ x.id) = true := by
    intro w hw
    refine decide_eq_true fun hid => h ?_
    rw [← hid]
    exact List.mem_map_of_mem hw
  have hself : visits.takeWhile (·.id ≠ x.id) = visits := by
    simpa using @List.takeWhile_append_of_pos _ _ _ [] hall
  rw [Untouched, List.takeWhile_append_of_pos hall, List.forall_mem_append, Untouched, hself]
  refine and_congr_right fun _ => ?_
  by_cases hid : v.id = x.id
  · simp [hid]
  · simp [hid]

end Untouched

/-- The pass does not answer for the timer of the node: a callback has touched it before its turn. -/
def Lost (t : TimerList κ) (visits : List (Visit κ)) (id : Nat) : Prop :=
  ∃ x ∈ t.items, x.id = id ∧ ¬ Untouched visits x

theorem lost_iff {t : TimerList κ} {visits : List (Visit κ)} {x : TimerItem κ} (hx : x ∈ t.items) :
    Lost t visits x.id ↔ ¬ Untouched visits x := by
  constructor
  · rintro ⟨y, hy, hid, hnot⟩
    rwa [← TimerList.eq_of_id hy hx hid]
  · exact fun hnot => ⟨x, hx, rfl, hnot⟩

end

section
variable {κ : Type} [DecidableEq κ]

namespace Pass

/-- A round; `ops` is what the callback does, if it is called. There is none without a timer at the iterator: at
`end()`, and where the node is gone. -/
def visit (ops : List (TimerOp κ)) (s : Pass κ) : Option (Pass κ) := do
  let id ← s.it
  let pItem ← s.timers.find id
  let it := successor id s.timers.nodeIds
  if pItem.nextTick ≤ s.currTick then
    some { s with
      timers := (s.timers.advance id).run ops
      it := it
      visits := s.visits ++ [⟨id, true, ops⟩] }
  else some { s with it := it, visits := s.visits ++ [⟨id, false, []⟩] }

/-- The iterator stands on a node that is gone. -/
def Dangling (s : Pass κ) : Prop := ∃ id, s.it = some id ∧ s.timers.find id = none

/-- The timer that is due and that the next round calls. -/
def dueItem (s : Pass κ) : Option (TimerItem κ) := do
  let id ← s.it
  let pItem ← s.timers.find id
  if pItem.nextTick ≤ s.currTick then some pItem else none

/-- The timer that stands behind the one at the iterator. -/
def behind (s : Pass κ) : Option (TimerItem κ) := do
  let id ← s.it
  let next ← successor id s.timers.nodeIds
  s.timers.find next

/-- A callback that is called does not remove the timer behind its own. -/
def Spares (s : Pass κ) (ops : List (TimerOp κ)) : Prop :=
  s.dueItem.isSome → ∀ next, s.behind = some next → .remove next.key ∉ ops

end Pass

/-! ## A round -/

namespace Pass

variable {s s' : Pass κ} {item x : TimerItem κ} {ops : List (TimerOp κ)}

@[simp] theorem found_keptNode : (s.found item).keptNode ops = s.timers.keptNode ops := by
  unfold found
  split
  · exact TimerList.keptNode_advance item.id
  · rfl

/-- The state after a round. -/
def after (s : Pass κ) (item : TimerItem κ) (ops : List (TimerOp κ)) : Pass κ :=
  ⟨(s.found item).run (s.done item ops), s.currTick, successor item.id s.timers.nodeIds,
    s.visits ++ [⟨item.id, decide (item.nextTick ≤ s.currTick), s.done item ops⟩]⟩

@[simp] theorem after_turns : (s.after item ops).turns = s.turns ++ [item.id] := by
  rw [turns, after, List.map_append]
  rfl

theorem visit_cases (h : s.visit ops = some s') :
    ∃ item ∈ s.timers.items, s.it = some item.id ∧ s' = s.after item ops := by
  obtain ⟨id, hit, h⟩ := Option.bind_eq_some_iff.mp h
  obtain ⟨item, hfind, h⟩ := Option.bind_eq_some_iff.mp h
  obtain ⟨hmem, rfl⟩ := TimerList.find_eq_some.mp hfind
  refine ⟨item, hmem, hit, ?_⟩
  unfold after found done
  split at h
  · next hdue =>
    cases h
    simp [hdue]
  · next hdue =>
    cases h
    simp [hdue, TimerList.run]

/-- A round whose callback spares the next timer does not lose it. -/
theorem Spares.kept (h : s.Spares ops) (hmem : item ∈ s.timers.items) (hit : s.it = some item.id) {b : Nat}
    (hb : successor item.id s.timers.nodeIds = some b) : s.timers.keptNode (s.done item ops) b = true := by
  obtain ⟨next, hnext⟩ := TimerList.exists_find (mem_of_successor hb)
  obtain ⟨hmemNext, rfl⟩ := TimerList.find_eq_some.mp hnext
  rw [TimerList.keptNode_of_mem hmemNext, TimerItem.keptBy_iff]
  unfold done
  split
  · next hdue =>
    refine h ?_ next ?_
    · simp [dueItem, hit, TimerList.find_eq_some.mpr ⟨hmem, rfl⟩, hdue]
    · simp [behind, hit, hb, hnext]
  · exact List.not_mem_nil

/-- The walk over the nodes goes on, if the callback spares the next one. -/
theorem walk_after (hspares : s.Spares ops) (hmem : item ∈ s.timers.items) (hit : s.it = some item.id)
    {begun : List Nat} {lost lost' : Nat → Prop}
    (hwalk : Walk begun lost s.turns s.timers.nodeIds (some item.id)) (hold : ∀ b ∈ s.turns, b < s.timers.nodes)
    (hlost : ∀ b ∈ begun, ¬ lost' b → ¬ lost b ∧
      (b ∉ s.turns → b ≠ item.id → s.timers.keptNode (s.done item ops) b = true)) :
    Walk begun lost' (s.after item ops).turns (s.after item ops).timers.nodeIds (s.after item ops).it ∧
      ∀ b ∈ (s.after item ops).turns, b < (s.after item ops).timers.nodes := by
  obtain ⟨born, hnodes, hborn, hle⟩ := TimerList.nodeIds_run (s.done item ops) (s.found item)
  rw [found_nodeIds, found_keptNode] at hnodes
  rw [found_nodes] at hborn hle
  rw [after_turns]
  constructor
  · show Walk begun lost' _ ((s.found item).run (s.done item ops)).nodeIds _
    rw [hnodes]
    refine hwalk.visit s.timers.ids (fun b => hspares.kept hmem hit) (fun b hb => ⟨fun hin => ?_, fun hin => ?_⟩) hlost
    · obtain ⟨y, hy, rfl⟩ := List.mem_map.mp hin
      exact absurd (s.timers.old y hy) (Nat.not_lt.mpr (hborn _ hb))
    · exact absurd (hold b hin) (Nat.not_lt.mpr (hborn b hb))
  · intro b hb
    rw [List.mem_append, List.mem_singleton] at hb
    refine Nat.lt_of_lt_of_le ?_ hle
    rcases hb with hb | rfl
    · exact hold b hb
    · exact s.timers.old item hmem

end Pass

/-! ## The invariant -/

namespace Pass

/-- The invariant of a pass that has begun with the timers `t` at `tick`. -/
structure Inv (t : TimerList κ) (tick : UInt64) (s : Pass κ) : Prop where
  currTick : s.currTick = tick
  walk : Walk t.nodeIds (Lost t s.visits) s.turns s.timers.nodeIds s.it
  old : ∀ b ∈ s.turns, b < s.timers.nodes
  waiting : ∀ x ∈ t.items, Untouched s.visits x → x.id ∉ s.turns → x ∈ s.timers.items
  called : ∀ x ∈ t.items, Untouched s.visits x → x.id ∈ s.turns →
    s.calls x.id = if x.nextTick ≤ tick then 1 else 0

variable {t : TimerList κ} {tick : UInt64} {s s' : Pass κ} {ops : List (TimerOp κ)} {x : TimerItem κ}

omit [DecidableEq κ] in
theorem inv_start (t : TimerList κ) (tick : UInt64) : Inv t tick (start tick t) :=
  ⟨rfl, walk_start _ _, fun _ hb => absurd hb List.not_mem_nil, fun _ hx _ _ => hx,
    fun _ _ _ hb => absurd hb List.not_mem_nil⟩

omit [DecidableEq κ] in
theorem Inv.not_dangling (h : Inv t tick s) : ¬ s.Dangling := by
  rintro ⟨id, hit, hfind⟩
  have hwalk := h.walk
  rw [hit] at hwalk
  obtain ⟨x, hx⟩ := TimerList.exists_find hwalk.mem
  rw [hfind] at hx
  cases hx

/-- A round after which the node at the iterator is still there. -/
theorem Inv.visit (h : Inv t tick s) (hspares : s.Spares ops) (hvisit : s.visit ops = some s') : Inv t tick s' := by
  obtain ⟨item, hmem, hit, rfl⟩ := visit_cases hvisit
  have hwalk := h.walk
  rw [hit] at hwalk
  have hturn : item.id ∉ s.turns := hwalk.notMem_turns
  -- what a timer that is still untouched has been before the round
  have hbefore : ∀ y, Untouched (s.after item ops).visits y → Untouched s.visits y ∧
      (y.id ∉ s.turns → y.id ≠ item.id → ∀ o ∈ s.done item ops, o.key ≠ y.key) := by
    intro y hy
    by_cases hin : y.id ∈ s.turns
    · exact ⟨(Untouched.append_of_mem hin).mp hy, fun hnot => absurd hin hnot⟩
    · obtain ⟨hold, hops⟩ := (Untouched.append_of_notMem hin).mp hy
      exact ⟨hold, fun _ hne => hops (Ne.symm hne)⟩
  obtain ⟨hwalk', hold'⟩ := walk_after hspares hmem hit hwalk h.old fun b hb (hlost : ¬ Lost t _ b) => by
    obtain ⟨y, hy, rfl⟩ := List.mem_map.mp hb
    rw [lost_iff hy, not_not] at hlost
    obtain ⟨hold, hops⟩ := hbefore y hlost
    refine ⟨by rw [lost_iff hy, not_not]; exact hold, fun hnot hne => ?_⟩
    rw [TimerList.keptNode_of_mem (h.waiting y hy hold hnot)]
    exact TimerItem.keptBy_of_ne (hops hnot hne)
  refine ⟨h.currTick, hwalk', hold', fun y hy hun hnot => ?waiting, fun y hy hun hin => ?called⟩
  case waiting =>
    rw [after_turns, List.mem_append, List.mem_singleton, not_or] at hnot
    obtain ⟨hold, hops⟩ := hbefore y hun
    exact TimerList.mem_run (mem_found (h.waiting y hy hold hnot.1) hnot.2) (hops hnot.1 hnot.2)
  case called =>
    rw [after_turns, List.mem_append, List.mem_singleton] at hin
    rw [calls, after, List.countP_append, List.countP_singleton]
    rcases hin with hin | hid
    · have hne : item.id ≠ y.id := fun hid => hturn (hid ▸ hin)
      simp only [hne, false_and, decide_false]
      exact h.called y hy (hbefore y hun).1 hin
    · have hitem : y = item := TimerList.eq_of_id
        (h.waiting y hy (hbefore y hun).1 (hid ▸ hturn)) hmem hid
      have hzero : s.calls y.id = 0 := calls_of_notMem (hid ▸ hturn)
      rw [calls] at hzero
      rw [hzero, hitem, h.currTick]
      simp

/-- A callback that removes the timer behind its own leaves the iterator on a node that is gone. -/
theorem dangling_of_not_spares (hvisit : s.visit ops = some s') (hnot : ¬ s.Spares ops) : s'.Dangling := by
  simp only [Spares, not_forall, not_not] at hnot
  obtain ⟨hdue, next, hbehind, hremove⟩ := hnot
  obtain ⟨item, hmem, hit, rfl⟩ := visit_cases hvisit
  have hfind := TimerList.find_eq_some.mpr ⟨hmem, rfl⟩
  have hdone : s.done item ops = ops := by
    refine if_pos ?_
    by_contra hlate
    simp [dueItem, hit, hfind, hlate] at hdue
  obtain ⟨id, hid, hbehind⟩ := Option.bind_eq_some_iff.mp hbehind
  obtain ⟨b, hb, hnext⟩ := Option.bind_eq_some_iff.mp hbehind
  obtain ⟨hmemNext, rfl⟩ := TimerList.find_eq_some.mp hnext
  obtain rfl := Option.some.inj (hit.symm.trans hid)
  refine ⟨next.id, hb, ?_⟩
  rw [Option.eq_none_iff_forall_not_mem]
  intro x hx
  obtain ⟨born, hnodes, hborn, -⟩ := TimerList.nodeIds_run (s.done item ops) (s.found item)
  have hin : next.id ∈ ((s.found item).run (s.done item ops)).nodeIds := TimerList.mem_nodeIds hx
  rw [hnodes, found_nodeIds, found_keptNode, List.mem_append] at hin
  rcases hin with hin | hin
  · have hkept := (List.mem_filter.mp hin).2
    rw [TimerList.keptNode_of_mem hmemNext, TimerItem.keptBy_iff, hdone] at hkept
    exact hkept hremove
  · have hle := hborn _ hin
    rw [found_nodes] at hle
    exact absurd (s.timers.old next hmemNext) (Nat.not_lt.mpr hle)

/-! ## A whole pass -/

theorem inv_of_reaches (h : Transition.Reaches visit Spares (start tick t) s) : Inv t tick s :=
  h.invariant (inv_start t tick) fun _ _ _ hinv hspares hvisit => hinv.visit hspares hvisit

omit [DecidableEq κ] in
theorem Inv.turn (h : Inv t tick s) (hx : x ∈ t.items) (hun : Untouched s.visits x)
    (hlate : s.it = none ∨ t.nodeIds.idxOf x.id < s.visits.length) : x.id ∈ s.turns := by
  have hstart : x.id ∈ t.nodeIds := List.mem_map_of_mem hx
  have hlost : ¬ Lost t s.visits x.id := by
    rw [lost_iff hx, not_not]
    exact hun
  have hwalk := h.walk
  rcases hlate with hend | hlate
  · rw [hend] at hwalk
    exact hwalk.finished hstart hlost
  · exact hwalk.soon hstart hlost (by rw [turns, List.length_map]; exact hlate)

/-- The loop uses no timer that is gone, exactly as long as each callback spares the timer behind its own. Then there
is one entry for each pair; no timer is called twice; and a timer that was due and that nobody has touched before its
turn is called: by the end of the pass, and after as many rounds as the pass had timers before it. -/
theorem checkTimer_reentrant (h : Transition.Reaches visit Spares (start tick t) s) :
    ¬ s.Dangling ∧
    (∀ ops s', s.visit ops = some s' → (¬ s'.Dangling ↔ s.Spares ops)) ∧
    (s.timers.items.map TimerItem.key).Nodup ∧
    (∀ id, s.calls id ≤ 1) ∧
    ∀ x ∈ t.items, x.nextTick ≤ tick → Untouched s.visits x →
      s.it = none ∨ t.nodeIds.idxOf x.id < s.visits.length → s.calls x.id = 1 := by
  have hinv := inv_of_reaches h
  refine ⟨hinv.not_dangling, fun ops s' hvisit => ⟨fun hsafe => ?_, fun hspares => ?_⟩, s.timers.keys,
    calls_le_one hinv.walk.nodup, fun x hx hdue hun hlate => ?_⟩
  · by_contra hnot
    exact hsafe (dangling_of_not_spares hvisit hnot)
  · exact (hinv.visit hspares hvisit).not_dangling
  · rw [hinv.called x hx hun (hinv.turn hx hun hlate), if_pos hdue]

end Pass

end

/-- Two timers that have been registered at 0 and are due every 10 milliseconds. -/
def twoTimers : TimerList Nat := (TimerList.empty.addTimer 0 10 0).addTimer 1 10 0

/-- Both are due, and the callback of the first removes the second. -/
theorem pass_dangling :
    ∃ s, (Pass.start 10 twoTimers).visit [.remove 1] = some s ∧ s.Dangling := by
  refine ⟨_, rfl, 1, rfl, ?_⟩
  decide

/-- The callback of the first removes itself and registers a third; the second has its turn all the same. -/
theorem checkTimer_reentrant_two :
    ∃ s, Transition.run Pass.visit [[.remove 0, .add 2 10 10], [], []] (Pass.start 10 twoTimers) = some s ∧
      s.it = none ∧ ¬ s.Dangling ∧ s.calls 1 = 1 := by
  have hspares : (Pass.start 10 twoTimers).Spares [.remove 0, .add 2 10 10] := by
    intro _ next hnext
    cases hnext
    decide
  have hrest : ∀ s : Pass Nat, s.Spares [] := fun s _ next _ => List.not_mem_nil
  have hstart : Transition.Reaches Pass.visit Pass.Spares (Pass.start 10 twoTimers) (Pass.start 10 twoTimers) := .start
  have hfirst := hstart.step _ hspares rfl
  have hsecond := hfirst.step _ (hrest _) rfl
  have hthird := hsecond.step _ (hrest _) rfl
  obtain ⟨hsafe, -, -, -, hcalls⟩ := Pass.checkTimer_reentrant hthird
  exact ⟨_, rfl, rfl, hsafe, hcalls ⟨1, 1, 10, 10⟩ (by decide) (by decide) (by unfold Untouched; decide) (Or.inl rfl)⟩

end PostfixEdm
