import PostfixEdm.Client.Pool
import Mathlib.Algebra.Group.Nat.Defs

/-!
# What `childNum` counts

As long as every run of `sigChldHandler` finds what it expects, `childNum` is the size of the map and the number
of children in service, up to the statement that the adjustment is in the middle of.

* `Pool.GoodStep` : the runs of the handler that do what they should. One `waitpid` must be enough, and what
  it finds must be the end of a child: of one in the map, or an `exit(SIGUSR1)` of one that was retired;
* `Pool.Inv` : what the counter, the map and the children have to do with each other at each statement;
* `Inv.step` : what one good step preserves; `childNum_eq_of_quiescent` : what holds in every run of good steps.
-/

namespace PostfixEdm

namespace Phase

/-- The entries that the map has more than the counter. -/
def uncounted : Phase → Nat
  | .retire .erase _ _ _ | .count _ _ => 1
  | _ => 0

/-- The increments that are still to come. -/
def toCount : Phase → Nat
  | .increase left => left
  | .insert _ left | .count _ left => left + 1
  | _ => 0

/-- The entries that the loop over the map still has to do with. -/
def entries : Phase → List Pid
  | .reduce _ it => it
  | .retire _ _ itOld it => itOld :: it
  | _ => []

/-- The child that is retired and still in the map. -/
def leaving : Phase → Option Pid
  | .retire .decrement _ itOld _ | .retire .erase _ itOld _ => some itOld
  | _ => none

/-- The child that is forked and not yet in the map. -/
def newborn : Phase → Option Pid
  | .insert cid _ => some cid
  | _ => none

section
variable (p : Pid) (phase : Phase)

@[simp] theorem uncounted_eraseEntry : (phase.eraseEntry p).uncounted = phase.uncounted := by
  rcases phase with _ | _ | _ | _ | _ | ⟨next, _, _, _⟩ | _ | _ | _ <;> first | rfl | (cases next <;> rfl)

@[simp] theorem toCount_eraseEntry : (phase.eraseEntry p).toCount = phase.toCount := by
  cases phase <;> rfl

@[simp] theorem leaving_eraseEntry : (phase.eraseEntry p).leaving = phase.leaving := by
  rcases phase with _ | _ | _ | _ | _ | ⟨next, _, _, _⟩ | _ | _ | _ <;> first | rfl | (cases next <;> rfl)

@[simp] theorem newborn_eraseEntry : (phase.eraseEntry p).newborn = phase.newborn := by
  cases phase <;> rfl

end

theorem eraseEntry_planIncrease {phase : Phase} {p : Pid} {n : UInt16}
    (h : phase.eraseEntry p = .planIncrease n) : phase = .planIncrease n := by
  cases phase with
  | reduce _ _ | retire _ _ _ _ => cases h
  | _ => exact h

end Phase

theorem eraseBehind_sublist (p : Pid) : ∀ it : List Pid, List.Sublist (eraseBehind p it) it
  | [] => .slnil
  | x :: _ => (List.erase_sublist).cons_cons x

theorem notMem_eraseBehind {p : Pid} {it : List Pid} (hnodup : it.Nodup) (h : p ∉ it.take 1) :
    p ∉ eraseBehind p it := by
  cases it with
  | nil => exact List.not_mem_nil
  | cons x rest =>
    rw [List.take_succ_cons, List.take_zero, List.mem_singleton] at h
    rw [eraseBehind, List.mem_cons, not_or]
    exact ⟨h, (List.nodup_cons.mp hnodup).2.not_mem_erase⟩

namespace Phase

theorem entries_eraseEntry_sublist (p : Pid) (phase : Phase) :
    List.Sublist (phase.eraseEntry p).entries phase.entries := by
  cases phase with
  | reduce left it => exact eraseBehind_sublist p it
  | retire next left itOld it => exact (eraseBehind_sublist p it).cons_cons itOld
  | _ => exact List.Sublist.refl _

theorem notMem_entries_eraseEntry {p : Pid} {phase : Phase} (hnodup : phase.entries.Nodup)
    (h : p ∉ phase.iterators) : p ∉ (phase.eraseEntry p).entries := by
  cases phase with
  | reduce left it => exact notMem_eraseBehind hnodup h
  | retire next left itOld it =>
    obtain ⟨hold, hit⟩ := not_or.mp (List.mem_cons.not.mp h)
    exact List.mem_cons.not.mpr (not_or.mpr ⟨hold, notMem_eraseBehind (List.nodup_cons.mp hnodup).2 hit⟩)
  | _ => exact List.not_mem_nil

end Phase

namespace Pool

/-- The steps after which counter, map and children still agree. -/
def GoodStep (s : Pool) : Act → Prop
  | .handle none => s.children = ∅
  | .handle (some p) =>
    (∃ e, (s.child p).state = .zombie e ∧
      if e = .exited sigUsr1 then (s.child p).retired = true
      else (s.child p).retired = false ∧ p ∈ s.childProcessMap ∧ p ∉ s.phase.iterators ∧ s.childNum ≠ 0) ∧
    ∀ q ∈ s.children, q ≠ p → (s.child q).state.alive = false → (s.child q).retired = false → s.pending = true
  | _ => True

structure Inv (s : Pool) : Prop where
  positive : ∀ p ∈ s.children, 0 < p
  counted : s.childNum.toNat + s.phase.uncounted = s.childProcessMap.card
  room : s.childNum.toNat + s.phase.toCount < 2 ^ 16
  planned : ∀ n, s.phase = .planIncrease n → s.childNum ≤ n
  nodup : s.phase.entries.Nodup
  entries : ∀ p ∈ s.phase.entries, p ∈ s.childProcessMap
  leaving : ∀ p, s.phase.leaving = some p → p ∈ s.childProcessMap ∧ (s.child p).retired = true
  newborn : ∀ p, s.phase.newborn = some p → p ∈ s.children ∧ p ∉ s.childProcessMap ∧ (s.child p).retired = false
  mapped : ∀ p ∈ s.childProcessMap, (p ∈ s.children ∧ (s.child p).retired = false) ∨ s.phase.leaving = some p
  served : ∀ p ∈ s.children, (s.child p).retired = false → p ∈ s.childProcessMap ∨ s.phase.newborn = some p
  noticed : ∀ p ∈ s.children, (s.child p).state.alive = false → (s.child p).retired = false →
    s.pending = true ∨ s.inHandler = true

theorem inv_init : Inv init := by
  refine ⟨?_, rfl, by decide, ?_, List.nodup_nil, ?_, ?_, ?_, ?_, ?_, ?_⟩
  · exact fun p hp => absurd hp (Finset.notMem_empty p)
  · intro n h
    cases h
  · exact fun p hp => absurd hp List.not_mem_nil
  · intro p h
    cases h
  · intro p h
    cases h
  all_goals exact fun p hp => absurd hp (Finset.notMem_empty p)

/-! ## Signals -/

section
variable {s : Pool}

@[simp] theorem setState_retired (p q : Pid) (state : ChildState) :
    ((s.setState p state).child q).retired = (s.child q).retired := by
  by_cases h : q = p
  · rw [h]
    simp only [setState, Function.update_self]
  · simp only [setState, Function.update_of_ne h]

/-- A change of a child's state raises `SIGCHLD`. -/
theorem Inv.signal (h : Inv s) (p : Pid) (state : ChildState) :
    Inv { s.setState p state with pending := true } := by
  refine ⟨h.positive, h.counted, h.room, h.planned, h.nodup, h.entries, fun q hq => ?_, fun q hq => ?_,
    fun q hq => ?_, fun q hq hret => ?_, fun _ _ _ _ => Or.inl rfl⟩
  · exact ⟨(h.leaving q hq).1, (setState_retired p q state).trans (h.leaving q hq).2⟩
  · obtain ⟨hmem, hmap, hret⟩ := h.newborn q hq
    exact ⟨hmem, hmap, (setState_retired p q state).trans hret⟩
  · exact (h.mapped q hq).imp_left fun ⟨hmem, hret⟩ => ⟨hmem, (setState_retired p q state).trans hret⟩
  · exact h.served q hq ((setState_retired p q state).symm.trans hret)

theorem Inv.deliver (h : Inv s) : Inv { s with pending := false, inHandler := true } :=
  ⟨h.positive, h.counted, h.room, h.planned, h.nodup, h.entries, h.leaving, h.newborn, h.mapped, h.served,
    fun _ _ _ _ => Or.inr rfl⟩

/-! ## The handler -/

theorem toNat_pred {c : UInt16} (h : c ≠ 0) : (c - 1).toNat + 1 = c.toNat := by
  have hpos : 0 < c.toNat := Nat.pos_of_ne_zero fun h0 => h (UInt16.toNat_inj.mp h0)
  rw [UInt16.toNat_sub_of_le c 1 (UInt16.le_iff_toNat_le.mpr hpos)]
  exact Nat.sub_add_cancel hpos

/-- Without a child there is nothing to find. -/
theorem Inv.handle_none (h : Inv s) (hempty : s.children = ∅) : Inv { s with inHandler := false } := by
  refine ⟨h.positive, h.counted, h.room, h.planned, h.nodup, h.entries, h.leaving, h.newborn, h.mapped, h.served,
    fun q hq => ?_⟩
  rw [show s.children = ∅ from hempty] at hq
  exact absurd hq (Finset.notMem_empty q)

/-- A retired child that has ended is forgotten. -/
theorem Inv.handle_retired (h : Inv s) {p : Pid} (hret : (s.child p).retired = true)
    (hnoticed : ∀ q ∈ s.children, q ≠ p → (s.child q).state.alive = false → (s.child q).retired = false →
      s.pending = true) :
    Inv { s with children := s.children.erase p, inHandler := false } := by
  have hne : ∀ q, (s.child q).retired = false → q ≠ p := by
    rintro q hq rfl
    exact absurd (hq.symm.trans hret) (by decide)
  refine ⟨fun q hq => h.positive q (Finset.mem_of_mem_erase hq), h.counted, h.room, h.planned, h.nodup, h.entries,
    h.leaving, fun q hq => ?_, fun q hq => ?_, fun q hq => ?_, fun q hq halive hq' => ?_⟩
  · obtain ⟨hmem, hmap, hq'⟩ := h.newborn q hq
    exact ⟨Finset.mem_erase.mpr ⟨hne q hq', hmem⟩, hmap, hq'⟩
  · exact (h.mapped q hq).imp_left fun ⟨hmem, hq'⟩ => ⟨Finset.mem_erase.mpr ⟨hne q hq', hmem⟩, hq'⟩
  · exact h.served q (Finset.mem_of_mem_erase hq)
  · obtain ⟨hqp, hmem⟩ := Finset.mem_erase.mp hq
    exact Or.inl (hnoticed q hmem hqp halive hq')

/-- A child in service that has ended leaves the map and the count. -/
theorem Inv.handle_crashed (h : Inv s) {p : Pid} (hret : (s.child p).retired = false)
    (hmap : p ∈ s.childProcessMap) (hit : p ∉ s.phase.iterators) (hnum : s.childNum ≠ 0)
    (hnoticed : ∀ q ∈ s.children, q ≠ p → (s.child q).state.alive = false → (s.child q).retired = false →
      s.pending = true) :
    Inv { s with
      children := s.children.erase p
      childProcessMap := s.childProcessMap.erase p
      childNum := s.childNum - 1
      phase := s.phase.eraseEntry p
      inHandler := false } := by
  have hpred := toNat_pred hnum
  refine ⟨fun q hq => h.positive q (Finset.mem_of_mem_erase hq), ?counted, ?room, fun n hn => ?planned, ?nodup,
    fun q hq => ?entries, fun q hq => ?leaving, fun q hq => ?newborn, fun q hq => ?mapped, fun q hq hq' => ?served,
    fun q hq halive hq' => ?noticed⟩
  case counted =>
    have hcard := Finset.card_erase_add_one hmap
    have hcount := h.counted
    simp only [Phase.uncounted_eraseEntry]
    omega
  case room =>
    have hroom := h.room
    simp only [Phase.toCount_eraseEntry]
    omega
  case planned =>
    have hle := UInt16.le_iff_toNat_le.mp (h.planned n (Phase.eraseEntry_planIncrease hn))
    exact UInt16.le_iff_toNat_le.mpr (show (s.childNum - 1).toNat ≤ n.toNat by omega)
  case nodup => exact h.nodup.sublist (Phase.entries_eraseEntry_sublist p _)
  case entries =>
    have hmem := h.entries q ((Phase.entries_eraseEntry_sublist p _).subset hq)
    refine Finset.mem_erase.mpr ⟨?_, hmem⟩
    rintro rfl
    exact Phase.notMem_entries_eraseEntry h.nodup hit hq
  case leaving =>
    obtain ⟨hmem, hq'⟩ := h.leaving q ((Phase.leaving_eraseEntry p _).symm.trans hq)
    refine ⟨Finset.mem_erase.mpr ⟨?_, hmem⟩, hq'⟩
    rintro rfl
    exact absurd (hret.symm.trans hq') (by decide)
  case newborn =>
    obtain ⟨hmem, hnot, hq'⟩ := h.newborn q ((Phase.newborn_eraseEntry p _).symm.trans hq)
    refine ⟨Finset.mem_erase.mpr ⟨?_, hmem⟩, fun hin => hnot (Finset.mem_of_mem_erase hin), hq'⟩
    rintro rfl
    exact hnot hmap
  case mapped =>
    obtain ⟨hqp, hin⟩ := Finset.mem_erase.mp hq
    rw [Phase.leaving_eraseEntry]
    exact (h.mapped q hin).imp_left fun ⟨hmem, hq'⟩ => ⟨Finset.mem_erase.mpr ⟨hqp, hmem⟩, hq'⟩
  case served =>
    obtain ⟨hqp, hmem⟩ := Finset.mem_erase.mp hq
    rw [Phase.newborn_eraseEntry]
    exact (h.served q hmem hq').imp_left fun hin => Finset.mem_erase.mpr ⟨hqp, hin⟩
  case noticed =>
    obtain ⟨hqp, hmem⟩ := Finset.mem_erase.mp hq
    exact Or.inl (hnoticed q hmem hqp halive hq')

theorem waitpid_none (hempty : s.children = ∅) : s.waitpid none = some (-1, .ended (.exited 0), s) := by
  rw [waitpid, if_pos (fun p hp => absurd (hempty ▸ hp) (Finset.notMem_empty p)), if_pos hempty]

theorem waitpid_zombie {p : Pid} {e : Ending} (hmem : p ∈ s.children) (h : (s.child p).state = .zombie e) :
    s.waitpid (some p) = some (p, .ended e, { s with children := s.children.erase p }) := by
  simp only [waitpid, if_pos hmem, h]

theorem waitpid_of_notMem {p : Pid} (h : p ∉ s.children) : s.waitpid (some p) = none := if_neg h

/-- A good run of the handler. -/
theorem Inv.handle (h : Inv s) {found : Option Pid} {s' : Pool} (hgood : GoodStep s (.handle found))
    (hstep : step (.handle found) s = some s') : Inv s' := by
  rw [step] at hstep
  split at hstep
  · cases found with
    | none =>
      rw [waitpid_none hgood] at hstep
      cases hstep
      rw [sigChldHandler, if_pos (by decide)]
      exact h.handle_none hgood
    | some p =>
      obtain ⟨⟨e, hzombie, hend⟩, hnoticed⟩ := hgood
      by_cases hmem : p ∈ s.children
      · rw [waitpid_zombie hmem hzombie] at hstep
        cases hstep
        have hpos : ¬ p < 0 := not_lt.mpr (h.positive p hmem).le
        by_cases he : e = .exited sigUsr1
        · rw [if_pos he] at hend
          rw [sigChldHandler, if_neg hpos, if_pos (by rw [he])]
          exact h.handle_retired hend hnoticed
        · rw [if_neg he] at hend
          obtain ⟨hret, hmap, hit, hnum⟩ := hend
          rw [sigChldHandler, if_neg hpos, if_neg (fun heq => he (WaitStatus.ended.inj heq))]
          exact h.handle_crashed hret hmap hit hnum hnoticed
      · rw [waitpid_of_notMem hmem] at hstep
        cases hstep
  · cases hstep

/-! ## The adjustment -/

/-- A statement that changes no more than where the adjustment stands. -/
theorem Inv.moveTo (h : Inv s) {old phase : Phase} (hphase : s.phase = old)
    (hsame : phase.uncounted = old.uncounted ∧ phase.leaving = old.leaving ∧ phase.newborn = old.newborn)
    (hroom : s.childNum.toNat + phase.toCount < 2 ^ 16) (hplanned : ∀ n, phase = .planIncrease n → s.childNum ≤ n)
    (hnodup : phase.entries.Nodup) (hentries : ∀ p ∈ phase.entries, p ∈ s.childProcessMap) :
    Inv { s with phase := phase } := by
  obtain ⟨huncounted, hleaving, hnewborn⟩ := hsame
  rw [← hphase] at huncounted hleaving hnewborn
  refine ⟨h.positive, ?_, hroom, hplanned, hnodup, hentries, fun q hq => ?_, fun q hq => ?_, fun q hq => ?_,
    fun q hq hret => ?_, h.noticed⟩
  · rw [huncounted]
    exact h.counted
  · exact h.leaving q (hleaving.symm.trans hq)
  · exact h.newborn q (hnewborn.symm.trans hq)
  · rw [hleaving]
    exact h.mapped q hq
  · rw [hnewborn]
    exact h.served q hq hret

/-- Such a statement outside the loop over the map. -/
theorem Inv.moveOn (h : Inv s) {old phase : Phase} (hphase : s.phase = old)
    (hsame : phase.uncounted = old.uncounted ∧ phase.leaving = old.leaving ∧ phase.newborn = old.newborn)
    (hroom : s.childNum.toNat + phase.toCount < 2 ^ 16) (hplanned : ∀ n, phase = .planIncrease n → s.childNum ≤ n)
    (hnil : phase.entries = []) : Inv { s with phase := phase } := by
  refine h.moveTo hphase hsame hroom hplanned ?_ ?_
  · rw [hnil]
    exact List.nodup_nil
  · rw [hnil]
    exact fun p hp => absurd hp List.not_mem_nil

theorem retired_setRetired_self (p : Pid) : ((s.setRetired p).child p).retired = true := by
  simp only [setRetired, Function.update_self]

theorem setRetired_child_of_ne {p q : Pid} (h : q ≠ p) : (s.setRetired p).child q = s.child q :=
  Function.update_of_ne h _ _

/-- Whoever is still not retired has not been touched. -/
theorem setRetired_child {p q : Pid} (h : ((s.setRetired p).child q).retired = false) :
    (s.setRetired p).child q = s.child q := by
  refine setRetired_child_of_ne ?_
  rintro rfl
  exact absurd (h.symm.trans (retired_setRetired_self q)) (by decide)

/-- `kill(it_old->first, SIGUSR1)` -/
theorem Inv.kill (h : Inv s) {left : Nat} {itOld : Pid} {it : List Pid}
    (hphase : s.phase = .retire .kill left itOld it) :
    Inv { s.setRetired itOld with phase := .retire .decrement left itOld it } := by
  have hcount := h.counted
  have hroom := h.room
  have hnodup := h.nodup
  have hentries := h.entries
  rw [hphase] at hcount hroom hnodup hentries
  have hold : itOld ∈ s.childProcessMap := hentries itOld List.mem_cons_self
  refine ⟨h.positive, hcount, hroom, fun n hn => (by cases hn), hnodup, hentries, fun q hq => ?leaving,
    fun q hq => (by cases hq), fun q hq => ?mapped, fun q hq hret => ?served, fun q hq halive hret => ?noticed⟩
  case leaving =>
    cases hq
    exact ⟨hold, retired_setRetired_self itOld⟩
  case mapped =>
    by_cases hqo : q = itOld
    · exact Or.inr (congrArg some hqo.symm)
    · rcases h.mapped q hq with ⟨hmem, hret⟩ | hleaving
      · exact Or.inl ⟨hmem, (congrArg Child.retired (setRetired_child_of_ne hqo)).trans hret⟩
      · rw [hphase] at hleaving
        cases hleaving
  case served =>
    rcases h.served q hq ((congrArg Child.retired (setRetired_child hret)).symm.trans hret) with hmap | hnewborn
    · exact Or.inl hmap
    · rw [hphase] at hnewborn
      cases hnewborn
  case noticed =>
    have heq := setRetired_child hret
    exact h.noticed q hq ((congrArg (fun c => c.state.alive) heq).symm.trans halive)
      ((congrArg Child.retired heq).symm.trans hret)

/-- `--childNum`, for a child that is retired -/
theorem Inv.decrement (h : Inv s) {left : Nat} {itOld : Pid} {it : List Pid}
    (hphase : s.phase = .retire .decrement left itOld it) :
    Inv { s with childNum := s.childNum - 1, phase := .retire .erase left itOld it } := by
  have hcount := h.counted
  have hroom := h.room
  have hnodup := h.nodup
  have hentries := h.entries
  have hleaving := h.leaving
  have hmapped := h.mapped
  have hserved := h.served
  rw [hphase] at hcount hroom hnodup hentries hleaving hmapped hserved
  have hold : itOld ∈ s.childProcessMap := hentries itOld List.mem_cons_self
  have hcard : 0 < s.childProcessMap.card := Finset.card_pos.mpr ⟨itOld, hold⟩
  have hnum : s.childNum.toNat = s.childProcessMap.card := hcount
  have hpred : (s.childNum - 1).toNat + 1 = s.childNum.toNat := by
    refine toNat_pred fun h0 => ?_
    rw [h0] at hnum
    exact absurd hnum (Nat.ne_of_lt hcard)
  have hroom : s.childNum.toNat + 0 < 2 ^ 16 := hroom
  refine ⟨h.positive, hpred.trans hnum, ?_, fun n hn => (by cases hn), hnodup, hentries, hleaving,
    fun q hq => (by cases hq), hmapped, hserved, h.noticed⟩
  show (s.childNum - 1).toNat + 0 < 2 ^ 16
  omega

/-- `childProcessMap.erase(it_old->first)` -/
theorem Inv.eraseRetired (h : Inv s) {left : Nat} {itOld : Pid} {it : List Pid}
    (hphase : s.phase = .retire .erase left itOld it) :
    Inv { s with childProcessMap := s.childProcessMap.erase itOld, phase := .reduce left it } := by
  have hcount := h.counted
  have hroom := h.room
  have hnodup := h.nodup
  have hentries := h.entries
  rw [hphase] at hcount hroom hnodup hentries
  obtain ⟨hold, hretired⟩ := h.leaving itOld (by rw [hphase]; rfl)
  have hnum : s.childNum.toNat + 1 = s.childProcessMap.card := hcount
  refine ⟨h.positive, ?counted, hroom, fun n hn => (by cases hn), (List.nodup_cons.mp hnodup).2, fun q hq => ?entries,
    fun q hq => (by cases hq), fun q hq => (by cases hq), fun q hq => ?mapped, fun q hq hret => ?served, h.noticed⟩
  case counted =>
    have hcard := Finset.card_erase_add_one hold
    show s.childNum.toNat + 0 = (s.childProcessMap.erase itOld).card
    omega
  case entries =>
    refine Finset.mem_erase.mpr ⟨?_, hentries q (List.mem_cons_of_mem _ hq)⟩
    rintro rfl
    exact (List.nodup_cons.mp hnodup).1 hq
  case mapped =>
    obtain ⟨hqo, hmap⟩ := Finset.mem_erase.mp hq
    rcases h.mapped q hmap with hin | hleaving
    · exact Or.inl hin
    · rw [hphase] at hleaving
      exact absurd (Option.some.inj hleaving).symm hqo
  case served =>
    rcases h.served q hq hret with hmap | hnewborn
    · refine Or.inl (Finset.mem_erase.mpr ⟨?_, hmap⟩)
      rintro rfl
      exact absurd (hret.symm.trans hretired) (by decide)
    · rw [hphase] at hnewborn
      cases hnewborn

/-- `CreateChild` -/
theorem Inv.fork (h : Inv s) {left : Nat} {cid : Pid} (hphase : s.phase = .increase (left + 1)) (hpos : 0 < cid)
    (hnew : cid ∉ s.children) :
    Inv { s with
      children := Insert.insert cid s.children
      child := Function.update s.child cid ⟨.running, false⟩
      phase := .insert cid left } := by
  have hcount := h.counted
  have hroom := h.room
  have hmapped := h.mapped
  rw [hphase] at hcount hroom hmapped
  have hnot : cid ∉ s.childProcessMap := by
    intro hmap
    rcases hmapped cid hmap with ⟨hmem, -⟩ | hleaving
    · exact hnew hmem
    · cases hleaving
  have hold : ∀ q ∈ s.children, Function.update s.child cid ⟨.running, false⟩ q = s.child q := by
    intro q hq
    refine Function.update_of_ne ?_ _ _
    rintro rfl
    exact hnew hq
  have hself : Function.update s.child cid ⟨.running, false⟩ cid = ⟨.running, false⟩ := Function.update_self _ _ _
  refine ⟨fun q hq => ?positive, hcount, hroom, fun n hn => (by cases hn), List.nodup_nil,
    fun q hq => absurd hq List.not_mem_nil, fun q hq => (by cases hq), fun q hq => ?newborn, fun q hq => ?mapped,
    fun q hq hret => ?served, fun q hq halive hret => ?noticed⟩
  case positive =>
    rcases Finset.mem_insert.mp hq with rfl | hmem
    · exact hpos
    · exact h.positive q hmem
  case newborn =>
    cases hq
    exact ⟨Finset.mem_insert_self _ _, hnot, congrArg Child.retired hself⟩
  case mapped =>
    rcases hmapped q hq with ⟨hmem, hret⟩ | hleaving
    · exact Or.inl ⟨Finset.mem_insert_of_mem hmem, (congrArg Child.retired (hold q hmem)).trans hret⟩
    · cases hleaving
  case served =>
    rcases Finset.mem_insert.mp hq with rfl | hmem
    · exact Or.inr rfl
    · rcases h.served q hmem ((congrArg Child.retired (hold q hmem)).symm.trans hret) with hmap | hnewborn
      · exact Or.inl hmap
      · rw [hphase] at hnewborn
        cases hnewborn
  case noticed =>
    rcases Finset.mem_insert.mp hq with rfl | hmem
    · exact absurd ((congrArg (fun c => c.state.alive) hself).symm.trans halive) (by decide)
    · have heq := hold q hmem
      exact h.noticed q hmem ((congrArg (fun c => c.state.alive) heq).symm.trans halive)
        ((congrArg Child.retired heq).symm.trans hret)

/-- `childProcessMap.insert(...)` -/
theorem Inv.insert (h : Inv s) {left : Nat} {cid : Pid} (hphase : s.phase = .insert cid left) :
    Inv { s with childProcessMap := Insert.insert cid s.childProcessMap, phase := .count cid left } := by
  have hcount := h.counted
  have hroom := h.room
  rw [hphase] at hcount hroom
  obtain ⟨hmem, hnot, hret⟩ := h.newborn cid (by rw [hphase]; rfl)
  refine ⟨h.positive, ?counted, hroom, fun n hn => (by cases hn), List.nodup_nil,
    fun q hq => absurd hq List.not_mem_nil, fun q hq => (by cases hq), fun q hq => (by cases hq), fun q hq => ?mapped,
    fun q hq hret => ?served, h.noticed⟩
  case counted =>
    have hnum : s.childNum.toNat = s.childProcessMap.card := hcount
    show s.childNum.toNat + 1 = (Insert.insert cid s.childProcessMap).card
    rw [Finset.card_insert_of_notMem hnot, hnum]
  case mapped =>
    rcases Finset.mem_insert.mp hq with rfl | hmap
    · exact Or.inl ⟨hmem, hret⟩
    · rcases h.mapped q hmap with hin | hleaving
      · exact Or.inl hin
      · rw [hphase] at hleaving
        cases hleaving
  case served =>
    rcases h.served q hq hret with hmap | hnewborn
    · exact Or.inl (Finset.mem_insert_of_mem hmap)
    · rw [hphase] at hnewborn
      cases hnewborn
      exact Or.inl (Finset.mem_insert_self _ _)

/-- `++childNum` -/
theorem Inv.count (h : Inv s) {left : Nat} {cid : Pid} (hphase : s.phase = .count cid left) :
    Inv { s with childNum := s.childNum + 1, phase := .increase left } := by
  have hcount := h.counted
  have hroom := h.room
  have hmapped := h.mapped
  have hserved := h.served
  rw [hphase] at hcount hroom hmapped hserved
  have hroom : s.childNum.toNat + (left + 1) < 2 ^ 16 := hroom
  have hsucc : (s.childNum + 1).toNat = s.childNum.toNat + 1 := by
    rw [UInt16.toNat_add]
    exact Nat.mod_eq_of_lt (show s.childNum.toNat + 1 < 2 ^ 16 by omega)
  refine ⟨h.positive, hsucc.trans hcount, ?_, fun n hn => (by cases hn), List.nodup_nil,
    fun q hq => absurd hq List.not_mem_nil, fun q hq => (by cases hq), fun q hq => (by cases hq), hmapped, hserved,
    h.noticed⟩
  show (s.childNum + 1).toNat + left < 2 ^ 16
  omega

/-- Every statement of the adjustment keeps the invariant. -/
theorem Inv.pass (h : Inv s) {multi : UInt16} {order : List Pid} {cid : Pid} {s' : Pool}
    (hstep : s.pass multi order cid = some s') : Inv s' := by
  have hlt : s.childNum.toNat < 2 ^ 16 := s.childNum.toNat_lt
  rw [Pool.pass] at hstep
  split at hstep
  case h_1 hphase =>
    cases hstep
    exact h.moveOn hphase ⟨rfl, rfl, rfl⟩ hlt (fun n hn => by cases hn) rfl
  case h_2 processNum hphase =>
    cases hstep
    by_cases hmore : processNum < s.childNum
    · rw [if_pos hmore]
      exact h.moveOn hphase ⟨rfl, rfl, rfl⟩ hlt (fun n hn => by cases hn) rfl
    · rw [if_neg hmore]
      refine h.moveOn hphase ⟨rfl, rfl, rfl⟩ hlt (fun n hn => ?_) rfl
      cases hn
      exact UInt16.not_lt.mp hmore
  case h_3 processNum hphase =>
    split at hstep
    · next horder =>
      cases hstep
      refine h.moveTo hphase ⟨rfl, rfl, rfl⟩ hlt (fun n hn => by cases hn) horder.1 (fun p hp => ?_)
      rw [← horder.2]
      exact List.mem_toFinset.mpr hp
    · cases hstep
  case h_4 processNum hphase =>
    cases hstep
    have hplanned := h.planned processNum hphase
    have hsub := UInt16.toNat_sub_of_le processNum s.childNum hplanned
    have hle := UInt16.le_iff_toNat_le.mp hplanned
    have hmax := processNum.toNat_lt
    refine h.moveOn hphase ⟨rfl, rfl, rfl⟩ ?_ (fun n hn => by cases hn) rfl
    show s.childNum.toNat + (processNum - s.childNum).toNat < 2 ^ 16
    omega
  case h_5 left itOld it hphase =>
    cases hstep
    have hnodup := h.nodup
    have hentries := h.entries
    rw [hphase] at hnodup hentries
    exact h.moveTo hphase ⟨rfl, rfl, rfl⟩ hlt (fun n hn => by cases hn) hnodup hentries
  case h_6 left it _ hphase =>
    cases hstep
    exact h.moveOn hphase ⟨rfl, rfl, rfl⟩ hlt (fun n hn => by cases hn) rfl
  case h_7 left itOld it hphase =>
    cases hstep
    exact h.kill hphase
  case h_8 left itOld it hphase =>
    cases hstep
    exact h.decrement hphase
  case h_9 left itOld it hphase =>
    cases hstep
    exact h.eraseRetired hphase
  case h_10 left hphase =>
    split at hstep
    · next hnew =>
      cases hstep
      exact h.fork hphase hnew.1 hnew.2
    · cases hstep
  case h_11 hphase =>
    cases hstep
    exact h.moveOn hphase ⟨rfl, rfl, rfl⟩ hlt (fun n hn => by cases hn) rfl
  case h_12 cid left hphase =>
    cases hstep
    exact h.insert hphase
  case h_13 cid left hphase =>
    cases hstep
    exact h.count hphase

theorem Inv.step (h : Inv s) {a : Act} {s' : Pool} (hgood : GoodStep s a) (hstep : Pool.step a s = some s') :
    Inv s' := by
  cases a with
  | pass multi order cid =>
    rw [Pool.step] at hstep
    split at hstep
    · cases hstep
    · exact h.pass hstep
  | finish p e | stop p sig | cont p =>
    rw [Pool.step] at hstep
    split at hstep
    · cases hstep
      exact h.signal p _
    · cases hstep
  | deliver =>
    rw [Pool.step] at hstep
    split at hstep
    · cases hstep
      exact h.deliver
    · cases hstep
  | handle found => exact h.handle hgood hstep

/-! ## Runs -/

theorem Inv.inService_eq (h : Inv s) (hquiet : Quiescent s) : s.inService = s.childProcessMap := by
  obtain ⟨hidle, hpending, hhandler⟩ := hquiet
  ext p
  rw [inService, Finset.mem_filter]
  constructor
  · rintro ⟨hmem, -, hret⟩
    rcases h.served p hmem hret with hmap | hnewborn
    · exact hmap
    · rw [hidle] at hnewborn
      cases hnewborn
  · intro hmap
    rcases h.mapped p hmap with ⟨hmem, hret⟩ | hleaving
    · refine ⟨hmem, ?_, hret⟩
      by_contra halive
      rcases h.noticed p hmem (Bool.not_eq_true _ ▸ halive) hret with hp | hh
      · rw [hpending] at hp
        cases hp
      · rw [hhandler] at hh
        cases hh
    · rw [hidle] at hleaving
      cases hleaving

/-- In every run of good steps the counter never exceeds the map, and at rest it is the number of entries and
of children in service. -/
theorem childNum_eq_of_quiescent (h : Transition.Reaches step GoodStep init s) :
    s.childNum.toNat ≤ s.childProcessMap.card ∧
      (Quiescent s → s.childNum.toNat = s.childProcessMap.card ∧ s.childNum.toNat = s.inService.card) := by
  have hinv : Inv s := h.invariant inv_init fun _ _ _ hs hgood hstep => hs.step hgood hstep
  have hcount := hinv.counted
  refine ⟨by omega, fun hquiet => ?_⟩
  rw [hinv.inService_eq hquiet, and_self]
  rw [hquiet.1] at hcount
  exact hcount

end

/-- A child that crashes is replaced by the next adjustment. -/
theorem childNum_eq_of_quiescent_crash :
    ∃ s, Transition.Reaches step GoodStep init s ∧ Quiescent s ∧ s.childNum = 1 ∧ s.inService = {2} ∧
      s.childNum.toNat = s.inService.card := by
  have next {s s' : Pool} (h : Transition.Reaches step GoodStep init s) (cid : Pid)
      (hstep : step (.pass 1 [] cid) s = some s') : Transition.Reaches step GoodStep init s' :=
    h.step (Act.pass 1 [] cid) trivial hstep
  have h0 : Transition.Reaches step GoodStep init _ := .start
  have h1 := next (next (next (next (next (next (next h0 1 rfl) 1 rfl) 1 rfl) 1 rfl) 1 rfl) 1 rfl) 1 rfl
  have h2 := h1.step (Act.finish 1 (.exited 1)) trivial rfl
  have h3 := h2.step Act.deliver trivial rfl
  have h4 := h3.step (Act.handle (some 1)) ⟨⟨.exited 1, rfl, by decide⟩, by decide⟩ rfl
  have h5 := next (next (next (next (next (next (next h4 2 rfl) 2 rfl) 2 rfl) 2 rfl) 2 rfl) 2 rfl) 2 rfl
  refine ⟨_, h5, ?hquiet, rfl, rfl, ((childNum_eq_of_quiescent h5).2 ?hquiet).2⟩
  exact ⟨rfl, rfl, rfl⟩

/-- A child is stopped and goes on. Both signals lead to a decrement, and the counter is 65535. -/
theorem childNum_wraps_after_stop :
    ¬ ∀ s, Transition.Reachable step init s → Quiescent s →
      s.childNum.toNat = s.childProcessMap.card ∧ s.childNum.toNat = s.inService.card := by
  intro hall
  have next {s s' : Pool} (h : Transition.Reachable step init s) (a : Act) (hstep : step a s = some s') :
      Transition.Reachable step init s' := h.step a trivial hstep
  have h0 : Transition.Reachable step init _ := .start
  have h1 := next (next (next (next h0 (.pass 1 [] 1) rfl) (.pass 1 [] 1) rfl) (.pass 1 [] 1) rfl) (.pass 1 [] 1) rfl
  have h2 := next (next (next h1 (.pass 1 [] 1) rfl) (.pass 1 [] 1) rfl) (.pass 1 [] 1) rfl
  have h3 := next (next (next h2 (.stop 1 19) rfl) .deliver rfl) (.handle (some 1)) rfl
  have h4 := next (next (next h3 (.cont 1) rfl) .deliver rfl) (.handle none) rfl
  exact absurd (hall _ h4 ⟨rfl, rfl, rfl⟩).1 (by decide)

end Pool

end PostfixEdm
