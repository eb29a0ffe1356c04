import PostfixEdm.Client.PoolCount
import Mathlib.Algebra.Order.Ring.Int
import Mathlib.Order.Interval.Set.Infinite

/-!
# One pass of the adjustment, from the first statement to the last

No `SIGCHLD` is handled during the pass, and each `fork` gives a pid that is not in the map. The children stop,
go on and end between the statements as they like.

* `Phase.calls` : the system calls of the next statement;
* `Adjusts multi s n log t` : `n` statements of a pass from `s` lead to `t`, and `log` is what they have asked of
  the kernel;
* `Shrinks`, `Grows` : which entries the two loops are through with; `Middle` : where counter, map and log are at
  each statement, and `Middle.pass` that a statement keeps it;
* `AdjustedTo` : what a pass that is over has done; `pass_reaches_target` : every pass gets there; `exists_end` : one
  that is over can be had from every idle state.
-/

namespace PostfixEdm

/-- `kill(p, SIGUSR1)`, and a `fork` that gives `cid`. -/
inductive Call
  | kill (p : Pid)
  | fork (cid : Pid)
  deriving DecidableEq, Repr

def Phase.calls (cid : Pid) : Phase → List Call
  | .retire .kill _ itOld _ => [.kill itOld]
  | .increase (_ + 1) => [.fork cid]
  | _ => []

namespace Pool

/-- What a child does by itself. -/
def Act.OfChild : Act → Prop
  | .finish _ _ | .stop _ _ | .cont _ => True
  | .pass _ _ _ | .deliver | .handle _ => False

inductive Adjusts (multi : UInt16) (s : Pool) : Nat → List Call → Pool → Prop
  | start {t : Pool} (order : List Pid) (cid : Pid) (hidle : s.phase = .idle)
      (hstep : step (.pass multi order cid) s = some t) : Adjusts multi s 1 [] t
  | pass {n : Nat} {log : List Call} {t t' : Pool} (later : UInt16) (order : List Pid) (cid : Pid)
      (h : Adjusts multi s n log t) (hbusy : t.phase ≠ .idle) (hfresh : cid ∉ t.childProcessMap)
      (hstep : step (.pass later order cid) t = some t') : Adjusts multi s (n + 1) (log ++ t.phase.calls cid) t'
  | child {n : Nat} {log : List Call} {t t' : Pool} (a : Act) (h : Adjusts multi s n log t) (ha : a.OfChild)
      (hstep : step a t = some t') : Adjusts multi s n log t'

/-! ## Where a pass stands -/

/-- The loop over the map is through with `killed`, and `kept` is what it leaves. -/
structure Shrinks (multi : UInt16) (s : Pool) (log : List Call) (killed kept : List Pid) : Prop where
  less : multi < s.childNum
  log_eq : log = killed.map .kill
  nodup : (killed ++ kept).Nodup
  entries : (killed ++ kept).toFinset = s.childProcessMap

/-- The loop that forks has made `forked`. -/
structure Grows (multi : UInt16) (s : Pool) (log : List Call) (forked : List Pid) : Prop where
  le : s.childNum ≤ multi
  log_eq : log = forked.map .fork
  nodup : forked.Nodup
  fresh : ∀ p ∈ forked, p ∉ s.childProcessMap

/-- What a pass that is over has done: `log` is what it has asked of the kernel, `t` its end. -/
structure AdjustedTo (multi : UInt16) (s : Pool) (log : List Call) (t : Pool) : Prop where
  childNum : t.childNum = multi
  card : t.childProcessMap.card = multi.toNat
  shrunk : multi < s.childNum → ∃ killed : List Pid, log = killed.map .kill ∧ killed.Nodup ∧
    killed.length = s.childNum.toNat - multi.toNat ∧ (∀ p ∈ killed, p ∈ s.childProcessMap) ∧
    t.childProcessMap = s.childProcessMap \ killed.toFinset
  grown : s.childNum < multi → ∃ forked : List Pid, log = forked.map .fork ∧ forked.Nodup ∧
    forked.length = multi.toNat - s.childNum.toNat ∧ (∀ p ∈ forked, p ∉ s.childProcessMap) ∧
    t.childProcessMap = s.childProcessMap ∪ forked.toFinset
  same : s.childNum = multi → log = [] ∧ t.childProcessMap = s.childProcessMap

/-- How far `childNum` is from its target. -/
def gap (multi : UInt16) (s : Pool) : Nat :=
  (s.childNum.toNat - multi.toNat) + (multi.toNat - s.childNum.toNat)

/-- The counter, the map and the number of statements at each of them. -/
def Middle (multi : UInt16) (s : Pool) (n : Nat) (log : List Call) (t : Pool) : Phase → Prop
  | .idle => AdjustedTo multi s log t ∧ n ≤ 4 + 4 * gap multi s
  | .compare m => m = multi ∧ log = [] ∧ t.childNum = s.childNum ∧ t.childProcessMap = s.childProcessMap ∧ n = 1
  | .planReduce m =>
    m = multi ∧ multi < s.childNum ∧ log = [] ∧ t.childNum = s.childNum ∧
      t.childProcessMap = s.childProcessMap ∧ n = 2
  | .planIncrease m =>
    m = multi ∧ s.childNum ≤ multi ∧ log = [] ∧ t.childNum = s.childNum ∧
      t.childProcessMap = s.childProcessMap ∧ n = 2
  | .reduce left it =>
    ∃ killed, Shrinks multi s log killed it ∧ t.childProcessMap = it.toFinset ∧ t.childNum.toNat = it.length ∧
      left + multi.toNat = it.length ∧ n = 3 + 4 * killed.length
  | .retire .kill left itOld it =>
    ∃ killed, Shrinks multi s log killed (itOld :: it) ∧ t.childProcessMap = (itOld :: it).toFinset ∧
      t.childNum.toNat = it.length + 1 ∧ left + multi.toNat = it.length ∧ n = 4 + 4 * killed.length
  | .retire .decrement left itOld it =>
    ∃ killed, Shrinks multi s log (killed ++ [itOld]) it ∧ t.childProcessMap = (itOld :: it).toFinset ∧
      t.childNum.toNat = it.length + 1 ∧ left + multi.toNat = it.length ∧ n = 5 + 4 * killed.length
  | .retire .erase left itOld it =>
    ∃ killed, Shrinks multi s log (killed ++ [itOld]) it ∧ t.childProcessMap = (itOld :: it).toFinset ∧
      t.childNum.toNat = it.length ∧ left + multi.toNat = it.length ∧ n = 6 + 4 * killed.length
  | .increase left =>
    ∃ forked, Grows multi s log forked ∧ t.childProcessMap = s.childProcessMap ∪ forked.toFinset ∧
      t.childNum.toNat = s.childNum.toNat + forked.length ∧ t.childNum.toNat + left = multi.toNat ∧
      n = 3 + 3 * forked.length
  | .insert cid left =>
    ∃ forked, Grows multi s log (forked ++ [cid]) ∧ t.childProcessMap = s.childProcessMap ∪ forked.toFinset ∧
      t.childNum.toNat = s.childNum.toNat + forked.length ∧ t.childNum.toNat + (left + 1) = multi.toNat ∧
      n = 4 + 3 * forked.length
  | .count _ left =>
    ∃ forked, Grows multi s log forked ∧ t.childProcessMap = s.childProcessMap ∪ forked.toFinset ∧
      t.childNum.toNat + 1 = s.childNum.toNat + forked.length ∧ t.childNum.toNat + (left + 1) = multi.toNat ∧
      n = 2 + 3 * forked.length

section
variable {multi : UInt16} {s t t' : Pool} {n : Nat} {log : List Call}

theorem Shrinks.length {killed kept : List Pid} (h : Shrinks multi s log killed kept)
    (hcount : s.childNum.toNat = s.childProcessMap.card) : killed.length + kept.length = s.childNum.toNat := by
  rw [hcount, ← h.entries, List.toFinset_card_of_nodup h.nodup, List.length_append]

/-- One more entry is killed. -/
theorem Shrinks.kill {killed kept : List Pid} {p : Pid} (h : Shrinks multi s log killed (p :: kept)) :
    Shrinks multi s (log ++ [.kill p]) (killed ++ [p]) kept := by
  have hsplit : killed ++ [p] ++ kept = killed ++ p :: kept := by simp
  refine ⟨h.less, ?_, ?_, ?_⟩
  · simp [h.log_eq]
  · rw [hsplit]
    exact h.nodup
  · rw [hsplit]
    exact h.entries

/-- What is left of the map are the entries that are kept. -/
theorem Shrinks.sdiff {killed kept : List Pid} (h : Shrinks multi s log killed kept) :
    kept.toFinset = s.childProcessMap \ killed.toFinset := by
  have hdisjoint := (List.nodup_append.mp h.nodup).2.2
  ext p
  simp only [← h.entries, Finset.mem_sdiff, List.mem_toFinset, List.mem_append]
  constructor
  · intro hp
    exact ⟨Or.inr hp, fun hkilled => hdisjoint p hkilled p hp rfl⟩
  · rintro ⟨hp | hp, hnot⟩
    · exact absurd hp hnot
    · exact hp

theorem Grows.fork {forked : List Pid} {cid : Pid} (h : Grows multi s log forked)
    (hcid : cid ∉ s.childProcessMap ∪ forked.toFinset) : Grows multi s (log ++ [.fork cid]) (forked ++ [cid]) := by
  simp only [Finset.mem_union, List.mem_toFinset, not_or] at hcid
  refine ⟨h.le, by simp [h.log_eq], ?_, ?_⟩
  · exact List.nodup_append.mpr ⟨h.nodup, List.nodup_singleton cid, by
      intro a ha b hb
      rw [List.mem_singleton.mp hb]
      rintro rfl
      exact hcid.2 ha⟩
  · intro p hp
    rcases List.mem_append.mp hp with hp | hp
    · exact h.fresh p hp
    · rw [List.mem_singleton.mp hp]
      exact hcid.1

theorem Grows.card {forked : List Pid} (h : Grows multi s log forked) :
    (s.childProcessMap ∪ forked.toFinset).card = s.childProcessMap.card + forked.length := by
  rw [Finset.card_union_of_disjoint, List.toFinset_card_of_nodup h.nodup]
  exact Finset.disjoint_left.mpr fun p hp hforked => h.fresh p (List.mem_toFinset.mp hforked) hp

/-- Only the counter and the map of the state matter. -/
theorem Middle.congr {phase : Phase} (h : Middle multi s n log t phase) (hnum : t'.childNum = t.childNum)
    (hmap : t'.childProcessMap = t.childProcessMap) : Middle multi s n log t' phase := by
  cases phase with
  | idle =>
    obtain ⟨⟨hchild, hcard, hshrunk, hgrown, hsame⟩, hn⟩ := h
    rw [← hnum] at hchild
    rw [← hmap] at hcard hshrunk hgrown hsame
    exact ⟨⟨hchild, hcard, hshrunk, hgrown, hsame⟩, hn⟩
  | retire next left itOld it => cases next <;> simpa only [Middle, hnum, hmap] using h
  | _ => simpa only [Middle, hnum, hmap] using h

/-! ## One statement -/

theorem toNat_sub_of_lt {a b : UInt16} (h : a < b) : (b - a).toNat = b.toNat - a.toNat :=
  UInt16.toNat_sub_of_le b a (UInt16.le_iff_toNat_le.mpr (UInt16.lt_iff_toNat_lt.mp h).le)

/-- The loop over the map has come to its end. -/
theorem adjustedTo_of_shrinks {killed kept : List Pid} (h : Shrinks multi s log killed kept)
    (hcount : s.childNum.toNat = s.childProcessMap.card) (hmap : t.childProcessMap = kept.toFinset)
    (hnum : t.childNum.toNat = kept.length) (hend : kept.length = multi.toNat) : AdjustedTo multi s log t := by
  have hlength := h.length hcount
  have hless := UInt16.lt_iff_toNat_lt.mp h.less
  refine ⟨UInt16.toNat_inj.mp (hnum.trans hend), ?card, fun _ => ?shrunk, fun hgrown => ?grown, fun hsame => ?same⟩
  case card => rw [hmap, List.toFinset_card_of_nodup (List.nodup_append.mp h.nodup).2.1, hend]
  case shrunk =>
    refine ⟨killed, h.log_eq, (List.nodup_append.mp h.nodup).1, by omega, fun p hp => ?_, hmap.trans h.sdiff⟩
    rw [← h.entries, List.mem_toFinset]
    exact List.mem_append_left kept hp
  case grown =>
    have := UInt16.lt_iff_toNat_lt.mp hgrown
    omega
  case same =>
    rw [hsame] at hless
    exact absurd hless (lt_irrefl _)

/-- The loop that forks has come to its end. -/
theorem adjustedTo_of_grows {forked : List Pid} (h : Grows multi s log forked)
    (hcount : s.childNum.toNat = s.childProcessMap.card)
    (hmap : t.childProcessMap = s.childProcessMap ∪ forked.toFinset)
    (hnum : t.childNum.toNat = s.childNum.toNat + forked.length) (hend : t.childNum.toNat = multi.toNat) :
    AdjustedTo multi s log t := by
  have hle := UInt16.le_iff_toNat_le.mp h.le
  refine ⟨UInt16.toNat_inj.mp hend, ?card, fun hshrunk => ?shrunk, fun _ => ?grown, fun hsame => ?same⟩
  case card =>
    rw [hmap, h.card]
    omega
  case shrunk =>
    have := UInt16.lt_iff_toNat_lt.mp hshrunk
    omega
  case grown => exact ⟨forked, h.log_eq, h.nodup, by omega, h.fresh, hmap⟩
  case same =>
    have hnil : forked = [] := List.eq_nil_of_length_eq_zero (by rw [hsame] at hnum; omega)
    constructor
    · rw [h.log_eq, hnil, List.map_nil]
    · rw [hmap, hnil, List.toFinset_nil, Finset.union_empty]

/-- What a statement of the adjustment keeps. -/
theorem Middle.pass {later : UInt16} {order : List Pid} {cid : Pid}
    (hcount : s.childNum.toNat = s.childProcessMap.card) (h : Middle multi s n log t t.phase)
    (hbusy : t.phase ≠ .idle) (hfresh : cid ∉ t.childProcessMap) (hpass : t.pass later order cid = some t') :
    Middle multi s (n + 1) (log ++ t.phase.calls cid) t' t'.phase := by
  unfold Pool.pass at hpass
  generalize hphase : t.phase = phase at h hbusy hpass ⊢
  cases phase with
  | idle => exact absurd rfl hbusy
  | compare m =>
    obtain ⟨rfl, rfl, hnum, hmap, rfl⟩ := h
    cases hpass
    by_cases hlt : m < t.childNum
    · simp only [if_pos hlt]
      exact ⟨rfl, hnum ▸ hlt, rfl, hnum, hmap, rfl⟩
    · simp only [if_neg hlt]
      exact ⟨rfl, hnum ▸ UInt16.not_lt.mp hlt, rfl, hnum, hmap, rfl⟩
  | planReduce m =>
    obtain ⟨rfl, hlt, rfl, hnum, hmap, rfl⟩ := h
    obtain ⟨⟨hnodup, horder⟩, heq⟩ := Option.ite_none_right_eq_some.mp hpass
    cases heq
    have hlength : s.childNum.toNat = order.length := by
      rw [hcount, ← hmap, ← horder, List.toFinset_card_of_nodup hnodup]
    have hleft := toNat_sub_of_lt hlt
    have hless := UInt16.lt_iff_toNat_lt.mp hlt
    refine ⟨[], ⟨hlt, rfl, hnodup, horder.trans hmap⟩, horder.symm, ?_, ?_, rfl⟩
    · rw [hnum, hlength]
    · rw [hnum, hleft]
      omega
  | planIncrease m =>
    obtain ⟨rfl, hle, rfl, hnum, hmap, rfl⟩ := h
    cases hpass
    have hleft := UInt16.toNat_sub_of_le m s.childNum hle
    have hle' := UInt16.le_iff_toNat_le.mp hle
    refine ⟨[], ⟨hle, rfl, List.nodup_nil, fun p hp => absurd hp List.not_mem_nil⟩, ?_, ?_, ?_, rfl⟩
    · simpa using hmap
    · simp [hnum]
    · simp only [hnum, hleft]
      omega
  | reduce left it =>
    obtain ⟨killed, hshrinks, hmap, hnum, hleft, rfl⟩ := h
    have hlength := hshrinks.length hcount
    cases left with
    | zero =>
      cases hpass
      simp only [Phase.calls, List.append_nil]
      refine ⟨adjustedTo_of_shrinks hshrinks hcount hmap hnum (by omega), ?_⟩
      simp only [gap]
      omega
    | succ left =>
      cases it with
      | nil =>
        rw [List.length_nil] at hleft
        omega
      | cons itOld it =>
        cases hpass
        simp only [Phase.calls, List.append_nil]
        rw [List.length_cons] at hnum hleft
        exact ⟨killed, hshrinks, hmap, hnum, by omega, by omega⟩
  | retire next left itOld it =>
    cases next with
    | kill =>
      obtain ⟨killed, hshrinks, hmap, hnum, hleft, rfl⟩ := h
      cases hpass
      exact ⟨killed, hshrinks.kill, hmap, hnum, hleft, by omega⟩
    | decrement =>
      obtain ⟨killed, hshrinks, hmap, hnum, hleft, rfl⟩ := h
      cases hpass
      simp only [Phase.calls, List.append_nil]
      refine ⟨killed, hshrinks, hmap, ?_, hleft, by omega⟩
      have := toNat_pred (c := t.childNum) (by rintro h0; rw [h0] at hnum; exact absurd hnum (by simp))
      exact Nat.succ_injective (this.trans hnum)
    | erase =>
      obtain ⟨killed, hshrinks, hmap, hnum, hleft, rfl⟩ := h
      cases hpass
      simp only [Phase.calls, List.append_nil]
      have hnot : itOld ∉ it := fun hin =>
        (List.nodup_append.mp hshrinks.nodup).2.2 itOld (by simp) itOld hin rfl
      refine ⟨killed ++ [itOld], hshrinks, ?_, hnum, hleft, ?_⟩
      · simp only [hmap, List.toFinset_cons]
        exact Finset.erase_insert (by simpa using hnot)
      · rw [List.length_append, List.length_singleton]
        omega
  | increase left =>
    obtain ⟨forked, hgrows, hmap, hnum, hleft, rfl⟩ := h
    cases left with
    | zero =>
      cases hpass
      simp only [Phase.calls, List.append_nil]
      refine ⟨adjustedTo_of_grows hgrows hcount hmap hnum hleft, ?_⟩
      simp only [gap]
      omega
    | succ left =>
      obtain ⟨-, heq⟩ := Option.ite_none_right_eq_some.mp hpass
      cases heq
      rw [hmap] at hfresh
      exact ⟨forked, hgrows.fork hfresh, hmap, hnum, hleft, by omega⟩
  | insert cid' left =>
    obtain ⟨forked, hgrows, hmap, hnum, hleft, rfl⟩ := h
    cases hpass
    simp only [Phase.calls, List.append_nil]
    refine ⟨forked ++ [cid'], hgrows, ?_, ?_, hleft, ?_⟩
    · simp only [hmap]
      ext p
      simp only [Finset.mem_insert, Finset.mem_union, List.mem_toFinset, List.mem_append, List.mem_singleton]
      tauto
    · simp only [List.length_append, List.length_singleton]
      omega
    · rw [List.length_append, List.length_singleton]
      omega
  | count cid' left =>
    obtain ⟨forked, hgrows, hmap, hnum, hleft, rfl⟩ := h
    cases hpass
    simp only [Phase.calls, List.append_nil]
    have hlt : t.childNum.toNat + 1 < 2 ^ 16 := by
      have := multi.toNat_lt
      omega
    have hsucc : (t.childNum + 1).toNat = t.childNum.toNat + 1 := by
      rw [UInt16.toNat_add]
      exact Nat.mod_eq_of_lt hlt
    exact ⟨forked, hgrows, hmap, hsucc.trans hnum, by simp only [hsucc]; omega, by omega⟩

/-- What a child does by itself is none of the pass's business. -/
theorem step_ofChild {a : Act} (ha : a.OfChild) (hstep : step a t = some t') :
    t'.childNum = t.childNum ∧ t'.childProcessMap = t.childProcessMap ∧ t'.phase = t.phase ∧
      t'.inHandler = t.inHandler := by
  cases a with
  | finish p e | stop p sig | cont p =>
    obtain ⟨-, heq⟩ := Option.ite_none_right_eq_some.mp hstep
    cases heq
    exact ⟨rfl, rfl, rfl, rfl⟩
  | _ => exact ha.elim

theorem pass_inHandler {later : UInt16} {order : List Pid} {cid : Pid} (hpass : t.pass later order cid = some t') :
    t'.inHandler = t.inHandler := by
  unfold Pool.pass at hpass
  split at hpass
  case h_3 | h_10 =>
    obtain ⟨-, heq⟩ := Option.ite_none_right_eq_some.mp hpass
    cases heq
    rfl
  all_goals
    cases hpass
    rfl

/-- Where the `fork` succeeds, every statement can be run. -/
theorem exists_pass {cid : Pid} (hpos : 0 < cid) (hnew : cid ∉ t.children) (later : UInt16) :
    ∃ order t', t.pass later order cid = some t' := by
  refine ⟨t.childProcessMap.toList, ?_⟩
  unfold Pool.pass
  split
  case h_3 => exact ⟨_, if_pos ⟨Finset.nodup_toList _, Finset.toList_toFinset _⟩⟩
  case h_10 => exact ⟨_, if_pos ⟨hpos, hnew⟩⟩
  all_goals exact ⟨_, rfl⟩

/-! ## A whole pass -/

theorem pass_of_step {later : UInt16} {order : List Pid} {cid : Pid}
    (hstep : step (.pass later order cid) t = some t') :
    t.inHandler = false ∧ t.pass later order cid = some t' := by
  rw [step] at hstep
  split at hstep
  · cases hstep
  · rename_i hnot
    exact ⟨Bool.eq_false_iff.mpr hnot, hstep⟩

theorem Adjusts.middle (h : Adjusts multi s n log t) (hcount : s.childNum.toNat = s.childProcessMap.card) :
    Middle multi s n log t t.phase ∧ t.inHandler = false := by
  induction h with
  | start order cid hidle hstep =>
    obtain ⟨hhandler, hpass⟩ := pass_of_step hstep
    simp only [Pool.pass, hidle] at hpass
    cases hpass
    exact ⟨⟨rfl, rfl, rfl, rfl, rfl⟩, hhandler⟩
  | pass later order cid _ hbusy hfresh hstep ih =>
    obtain ⟨hhandler, hpass⟩ := pass_of_step hstep
    exact ⟨ih.1.pass hcount hbusy hfresh hpass, (pass_inHandler hpass).trans hhandler⟩
  | child a _ ha hstep ih =>
    obtain ⟨hnum, hmap, hphase, hhandler⟩ := step_ofChild ha hstep
    rw [hphase]
    exact ⟨ih.1.congr hnum hmap, hhandler.trans ih.2⟩

/-- No statement of a pass is further from its start than the two loops need. -/
theorem Middle.bound {phase : Phase} (h : Middle multi s n log t phase)
    (hcount : s.childNum.toNat = s.childProcessMap.card) : n ≤ 4 + 4 * gap multi s := by
  simp only [gap]
  cases phase with
  | idle => exact h.2
  | compare m =>
    obtain ⟨-, -, -, -, rfl⟩ := h
    omega
  | planReduce m | planIncrease m =>
    obtain ⟨-, -, -, -, -, rfl⟩ := h
    omega
  | reduce left it =>
    obtain ⟨killed, hshrinks, -, hnum, hleft, rfl⟩ := h
    have := hshrinks.length hcount
    omega
  | retire next left itOld it =>
    cases next with
    | kill | decrement | erase =>
      obtain ⟨killed, hshrinks, -, hnum, hleft, rfl⟩ := h
      have := hshrinks.length hcount
      simp only [List.length_append, List.length_cons, List.length_nil] at this
      omega
  | increase left | insert cid left | count cid left =>
    obtain ⟨forked, -, -, hnum, hleft, rfl⟩ := h
    omega

/-- A pass that is not over goes on. -/
theorem Adjusts.next (h : Adjusts multi s n log t) (hcount : s.childNum.toNat = s.childProcessMap.card)
    (hbusy : t.phase ≠ .idle) {cid : Pid} (hpos : 0 < cid) (hnew : cid ∉ t.children)
    (hfresh : cid ∉ t.childProcessMap) :
    ∃ t', Adjusts multi s (n + 1) (log ++ t.phase.calls cid) t' := by
  obtain ⟨order, t', hpass⟩ := exists_pass hpos hnew multi
  have hstep : step (.pass multi order cid) t = some t' := by
    rw [step, (h.middle hcount).2]
    exact hpass
  exact ⟨t', h.pass multi order cid hbusy hfresh hstep⟩

theorem exists_fresh (used : Finset Pid) : ∃ cid : Pid, 0 < cid ∧ cid ∉ used := by
  obtain ⟨cid, hcid, hnot⟩ := (Set.Ioi_infinite (0 : Int)).exists_notMem_finset used
  exact ⟨cid, hcid, hnot⟩

/-- From every idle state a pass gets to its end. -/
theorem exists_end (hidle : s.phase = .idle) (hhandler : s.inHandler = false)
    (hcount : s.childNum.toNat = s.childProcessMap.card) (multi : UInt16) :
    ∃ n log t, Adjusts multi s n log t ∧ t.phase = .idle := by
  by_contra hnone
  have hlong : ∀ k, ∃ log t, Adjusts multi s (k + 1) log t := by
    intro k
    induction k with
    | zero =>
      refine ⟨[], { s with phase := .compare multi }, .start [] 0 hidle ?_⟩
      simp [step, Pool.pass, hidle, hhandler]
    | succ k ih =>
      obtain ⟨log, t, h⟩ := ih
      have hbusy : t.phase ≠ .idle := fun hend => hnone ⟨_, _, t, h, hend⟩
      obtain ⟨cid, hpos, hcid⟩ := exists_fresh (t.children ∪ t.childProcessMap)
      rw [Finset.mem_union, not_or] at hcid
      obtain ⟨t', h'⟩ := h.next hcount hbusy hpos hcid.1 hcid.2
      exact ⟨_, t', h'⟩
  obtain ⟨log, t, h⟩ := hlong (4 + 4 * gap multi s)
  have := (h.middle hcount).1.bound hcount
  omega

/-- A pass ends after boundedly many statements: it goes on as long as it is not over, and where it is over it has
reached its target, with no child signalled or forked that it did not have to. -/
theorem pass_reaches_target (hcount : s.childNum.toNat = s.childProcessMap.card) (h : Adjusts multi s n log t) :
    n ≤ 4 + 4 * gap multi s ∧
    (t.phase ≠ .idle → ∀ cid : Pid, 0 < cid → cid ∉ t.children → cid ∉ t.childProcessMap →
      ∃ t', Adjusts multi s (n + 1) (log ++ t.phase.calls cid) t') ∧
    (t.phase = .idle → AdjustedTo multi s log t) := by
  obtain ⟨hmiddle, -⟩ := h.middle hcount
  refine ⟨hmiddle.bound hcount, fun hbusy cid hpos hnew hfresh => ?_, fun hidle => ?_⟩
  · exact h.next hcount hbusy hpos hnew hfresh
  · rw [hidle] at hmiddle
    exact hmiddle.1

end

/-- A master with two children. -/
def masterOfTwo : Pool := { init with childNum := 2, childProcessMap := {3, 4}, children := {3, 4} }

/-- Of two children one is kept. -/
theorem pass_reaches_target_two :
    ∃ t, Adjusts 1 masterOfTwo 8 [.kill 3] t ∧ t.phase = .idle ∧ AdjustedTo 1 masterOfTwo [.kill 3] t := by
  have hcompare := @Adjusts.start 1 masterOfTwo _ [] 0 rfl rfl
  have hplan := hcompare.pass 0 [] 0 (by decide) (by decide) rfl
  have hreduce := hplan.pass 0 [3, 4] 0 (by decide) (by decide) rfl
  have hkill := hreduce.pass 0 [] 0 (by decide) (by decide) rfl
  have hdecrement := hkill.pass 0 [] 0 (by decide) (by decide) rfl
  have herase := hdecrement.pass 0 [] 0 (by decide) (by decide) rfl
  have hlast := herase.pass 0 [] 0 (by decide) (by decide) rfl
  have hend := hlast.pass 0 [] 0 (by decide) (by decide) rfl
  exact ⟨_, hend, rfl, (pass_reaches_target rfl hend).2.2 rfl⟩

end Pool

end PostfixEdm
