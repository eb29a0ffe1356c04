import PostfixEdm.Client.Pool
import PostfixEdm.Lib.Transition

/-!
# The masters of a client process: `cWorkerThread::OnThreadRun` and `cWorker::GetMailqNum`

The worker thread forks a master when it starts and again whenever its `waitpid` answers with anything but 0. The
main thread runs `mailq` in the meantime. Both are children of the client process, which stop, go on and end as
they like.

* `Role`, `Proc` : what the client process forks;
* `Masters` : its children, the static `master_pid`, and where the two threads stand;
* `Masters.step` : everything that can happen;
* `Masters.Single` : one live master at most, and `master_pid` names the latest; `Masters.ForksInPlace` : the
  steps that keep it;
* `single_of_forksInPlace`, `not_single_of_not_forksInPlace` : what holds in every run of such steps, and what
  any other step does.
-/

namespace PostfixEdm

/-- `popen` : the shell of a `popen`. -/
inductive Role
  | master | popen
  deriving DecidableEq, Repr

structure Proc where
  role : Role
  state : ChildState
  deriving DecidableEq, Repr

def Proc.liveMaster (p : Proc) : Bool := p.role = .master && p.state.alive

/-- Where the worker thread stands: before its loop, in the loop, or after a `waitpid` that did not answer 0. -/
inductive ThreadAt
  | start | loop | reported
  deriving DecidableEq, Repr

/-- The client process. `children` are the processes it has forked and not waited for; of `proc` only their
values matter. `mailq` is the shell that `GetMailqNum` reads from, `latest` the master forked last. -/
structure Masters where
  masterPid : Pid
  children : Finset Pid
  proc : Pid → Proc
  thread : ThreadAt
  mailq : Option Pid
  latest : Option Pid

namespace Masters

def init : Masters := ⟨0, ∅, fun _ => ⟨.popen, .running⟩, .start, none, none⟩

def setState (s : Masters) (p : Pid) (state : ChildState) : Masters :=
  { s with proc := Function.update s.proc p { s.proc p with state := state } }

/-- `fork` gives a new process an id that no child has. -/
def fork (s : Masters) (role : Role) (new : Pid) : Option Masters :=
  if 0 < new ∧ new ∉ s.children then
    some { s with children := Insert.insert new s.children, proc := Function.update s.proc new ⟨role, .running⟩ }
  else none

/-- The result is left to the caller. When `fork` fails the client process exits. -/
def forkMasterProcess (s : Masters) (new : Pid) : Option (Pid × Masters) := do
  let s ← s.fork .master new
  some (new, { s with latest := some new })

/-- `waitpid(-1, &status, WNOHANG | WUNTRACED)`. `found` is the child that the kernel reports; without one the
answer is 0, or -1 when there is no child at all. -/
def waitpid (found : Option Pid) (s : Masters) : Option (Pid × Masters) :=
  match found with
  | some p =>
    if p ∈ s.children then
      match (s.proc p).state with
      | .zombie _ => some (p, { s with children := s.children.erase p })
      | .stopped sig false => some (p, s.setState p (.stopped sig true))
      | _ => none
    else none
  | none =>
    if ∀ p ∈ s.children, (s.proc p).state.changed = false then some (if s.children = ∅ then -1 else 0, s)
    else none

/-- The test before the loop. `isParent` : `getParentProcessIdByChildId(master_pid) == getpid()`, which fails as
well when `popen` does. -/
def mustFork (masterPid : Pid) (isParent : Bool) : Bool := masterPid = 0 || (0 < masterPid && !isParent)

/-- What can happen: the start of the worker thread, the two halves of its reaping, its end and new start by
`checkThreadAlive`, the two ends of `GetMailqNum`, and a change of a child. -/
inductive Act
  | start (isParent : Bool) (new : Pid)
  | waitpid (found : Option Pid)
  | fork (new : Pid)
  | restart
  | popen (new : Pid)
  | pclose
  | finish (p : Pid) (e : Ending)
  | stop (p : Pid) (sig : UInt8)
  | cont (p : Pid)

def step : Act → Masters → Option Masters
  | .start isParent new, s =>
    if s.thread = .start ∧ (isParent = true → s.masterPid ∈ s.children) then
      if mustFork s.masterPid isParent then do
        let (masterPid, s) ← s.forkMasterProcess new
        some { s with masterPid := masterPid, thread := .loop }
      else some { s with thread := .loop }
    else none
  | .waitpid found, s =>
    if s.thread = .loop then do
      let (dieMasterPid, s) ← s.waitpid found
      some { s with thread := if dieMasterPid = 0 then .loop else .reported }
    else none
  | .fork new, s =>
    if s.thread = .reported then do
      let (_, s) ← s.forkMasterProcess new
      some { s with thread := .loop }
    else none
  | .restart, s => some { s with thread := .start }
  | .popen new, s =>
    if s.mailq = none then do
      let s ← s.fork .popen new
      some { s with mailq := some new }
    else none
  | .pclose, s => do
    let p ← s.mailq
    -- the worker thread may have waited for the shell already
    if p ∉ s.children then some { s with mailq := none }
    else if (s.proc p).state.alive then none
    else some { s with mailq := none, children := s.children.erase p }
  | .finish p e, s =>
    if p ∈ s.children ∧ (s.proc p).state.canEnd e then some (s.setState p (.zombie e)) else none
  | .stop p sig, s =>
    if p ∈ s.children ∧ (s.proc p).state = .running then some (s.setState p (.stopped sig false)) else none
  | .cont p, s =>
    if p ∈ s.children ∧ (s.proc p).state.isStopped then some (s.setState p .running) else none

/-! ## One live master, and its id -/

def liveMasters (s : Masters) : Finset Pid := s.children.filter fun p => (s.proc p).liveMaster = true

/-- At most one master is alive, and `master_pid` names the one that was forked last. -/
structure Single (s : Masters) : Prop where
  card_le : s.liveMasters.card ≤ 1
  named : ∀ p, s.latest = some p → s.masterPid = p

/-- A master is only forked when none is alive; in the loop, where the result of `_forkMasterProcess` is dropped,
it also gets the id that `master_pid` holds already. -/
def ForksInPlace (s : Masters) : Act → Prop
  | .start isParent _ => mustFork s.masterPid isParent = true → s.liveMasters = ∅
  | .fork new => s.liveMasters = ∅ ∧ new = s.masterPid
  | _ => True

theorem single_init : init.Single := ⟨Nat.zero_le 1, nofun⟩

section
variable {s s' : Masters}

theorem Single.of_subset (h : s.Single) (hsub : s'.liveMasters ⊆ s.liveMasters) (hlatest : s'.latest = s.latest)
    (hpid : s'.masterPid = s.masterPid) : s'.Single := by
  refine ⟨(Finset.card_le_card hsub).trans h.card_le, fun p hp => ?_⟩
  rw [hpid]
  exact h.named p (hlatest.symm.trans hp)

theorem liveMasters_erase_subset (p : Pid) :
    ({ s with children := s.children.erase p } : Masters).liveMasters ⊆ s.liveMasters :=
  Finset.filter_subset_filter _ (Finset.erase_subset p s.children)

/-- Nothing comes back to life. -/
theorem liveMasters_setState_subset {p : Pid} {state : ChildState}
    (halive : state.alive = true → (s.proc p).state.alive = true) :
    (s.setState p state).liveMasters ⊆ s.liveMasters := by
  intro q hq
  obtain ⟨hmem, hlive⟩ := Finset.mem_filter.mp hq
  refine Finset.mem_filter.mpr ⟨hmem, ?_⟩
  by_cases hqp : q = p
  · subst hqp
    simp only [setState, Function.update_self, Proc.liveMaster, Bool.and_eq_true] at hlive ⊢
    exact ⟨hlive.1, halive hlive.2⟩
  · simpa only [setState, Function.update_of_ne hqp] using hlive

theorem fork_eq_some {role : Role} {new : Pid} (h : s.fork role new = some s') :
    new ∉ s.children ∧ s' = { s with
      children := Insert.insert new s.children, proc := Function.update s.proc new ⟨role, .running⟩ } := by
  simp only [fork, Option.ite_none_right_eq_some, Option.some.injEq] at h
  exact ⟨h.1.2, h.2.symm⟩

theorem liveMasters_fork {role : Role} {new : Pid} (h : s.fork role new = some s') :
    s'.liveMasters = if role = .master then Insert.insert new s.liveMasters else s.liveMasters := by
  obtain ⟨hnew, rfl⟩ := fork_eq_some h
  have hold : s.children.filter
      (fun p => (Function.update s.proc new ⟨role, ChildState.running⟩ p).liveMaster = true) = s.liveMasters := by
    apply Finset.filter_congr
    intro p hp
    rw [Function.update_of_ne (ne_of_mem_of_not_mem hp hnew)]
  change (Insert.insert new s.children).filter
    (fun p => (Function.update s.proc new ⟨role, ChildState.running⟩ p).liveMaster = true) = _
  rw [Finset.filter_insert, hold, Function.update_self]
  cases role with
  | master => rfl
  | popen => rfl

/-- A fork while no master is alive leaves exactly one. -/
theorem card_liveMasters_fork {new : Pid} (h : s.fork .master new = some s') :
    s'.liveMasters.card = s.liveMasters.card + 1 := by
  rw [liveMasters_fork h, if_pos rfl]
  apply Finset.card_insert_of_notMem
  exact fun hmem => (fork_eq_some h).1 (Finset.mem_filter.mp hmem).1

theorem forkMasterProcess_eq_some {new masterPid : Pid} (h : s.forkMasterProcess new = some (masterPid, s')) :
    masterPid = new ∧ s'.liveMasters.card = s.liveMasters.card + 1 ∧ s'.latest = some new ∧
      s'.masterPid = s.masterPid := by
  obtain ⟨mid, hfork, hs'⟩ := Option.bind_eq_some_iff.mp h
  obtain ⟨rfl, rfl⟩ := Prod.mk.inj (Option.some.inj hs')
  have hcard : mid.liveMasters.card = s.liveMasters.card + 1 := card_liveMasters_fork hfork
  obtain ⟨_, rfl⟩ := fork_eq_some hfork
  exact ⟨rfl, hcard, rfl, rfl⟩

/-- Whatever `waitpid` reports, it brings nothing to life. -/
theorem Single.waitpid (h : s.Single) {found : Option Pid} {ans : Pid} (hwait : s.waitpid found = some (ans, s')) :
    s'.Single := by
  unfold Masters.waitpid at hwait
  split at hwait
  · next p =>
    split at hwait
    case isFalse => cases hwait
    split at hwait
    · obtain ⟨_, rfl⟩ := Prod.mk.inj (Option.some.inj hwait)
      exact h.of_subset (liveMasters_erase_subset p) rfl rfl
    · next hstopped =>
      obtain ⟨_, rfl⟩ := Prod.mk.inj (Option.some.inj hwait)
      refine h.of_subset (liveMasters_setState_subset fun _ => ?_) rfl rfl
      rw [hstopped]
      rfl
    · cases hwait
  · split at hwait
    case isFalse => cases hwait
    obtain ⟨_, rfl⟩ := Prod.mk.inj (Option.some.inj hwait)
    exact h

theorem Single.start (h : s.Single) {isParent : Bool} {new : Pid} (hgood : s.ForksInPlace (.start isParent new))
    (hstep : step (.start isParent new) s = some s') : s'.Single := by
  simp only [step, Option.ite_none_right_eq_some] at hstep
  obtain ⟨_, hstep⟩ := hstep
  split at hstep
  · next hfork =>
    obtain ⟨⟨masterPid, mid⟩, hmaster, hs'⟩ := Option.bind_eq_some_iff.mp hstep
    obtain rfl := Option.some.inj hs'
    obtain ⟨rfl, hcard, hlatest, _⟩ := forkMasterProcess_eq_some hmaster
    refine ⟨?_, fun p hp => Option.some.inj (hlatest.symm.trans hp)⟩
    rw [hgood hfork, Finset.card_empty] at hcard
    exact hcard.le
  · obtain rfl := Option.some.inj hstep
    exact h.of_subset (Finset.Subset.refl _) rfl rfl

theorem Single.fork {new : Pid} (hgood : s.ForksInPlace (.fork new)) (hstep : step (.fork new) s = some s') :
    s'.Single := by
  simp only [step, Option.ite_none_right_eq_some] at hstep
  obtain ⟨⟨masterPid, mid⟩, hmaster, hs'⟩ := Option.bind_eq_some_iff.mp hstep.2
  obtain rfl := Option.some.inj hs'
  obtain ⟨_, hcard, hlatest, hpid⟩ := forkMasterProcess_eq_some hmaster
  refine ⟨?_, fun p hp => ?_⟩
  · rw [hgood.1, Finset.card_empty] at hcard
    exact hcard.le
  · exact hpid.trans (hgood.2.symm.trans (Option.some.inj (hlatest.symm.trans hp)))

theorem Single.step (h : s.Single) {a : Act} (hgood : s.ForksInPlace a) (hstep : Masters.step a s = some s') :
    s'.Single := by
  cases a with
  | start isParent new => exact h.start hgood hstep
  | waitpid found =>
    simp only [Masters.step, Option.ite_none_right_eq_some] at hstep
    obtain ⟨⟨ans, mid⟩, hwait, hs'⟩ := Option.bind_eq_some_iff.mp hstep.2
    obtain rfl := Option.some.inj hs'
    exact (h.waitpid hwait).of_subset (Finset.Subset.refl _) rfl rfl
  | fork new => exact .fork hgood hstep
  | restart =>
    obtain rfl := Option.some.inj hstep
    exact h.of_subset (Finset.Subset.refl _) rfl rfl
  | popen new =>
    simp only [Masters.step, Option.ite_none_right_eq_some] at hstep
    obtain ⟨mid, hfork, hs'⟩ := Option.bind_eq_some_iff.mp hstep.2
    obtain rfl := Option.some.inj hs'
    have hlive := liveMasters_fork hfork
    obtain ⟨_, rfl⟩ := fork_eq_some hfork
    exact h.of_subset hlive.subset rfl rfl
  | pclose =>
    obtain ⟨p, _, hstep⟩ := Option.bind_eq_some_iff.mp hstep
    split at hstep
    · obtain rfl := Option.some.inj hstep
      exact h.of_subset (Finset.Subset.refl _) rfl rfl
    · split at hstep
      · cases hstep
      · obtain rfl := Option.some.inj hstep
        exact h.of_subset (liveMasters_erase_subset p) rfl rfl
  | finish p e =>
    simp only [Masters.step, Option.ite_none_right_eq_some, Option.some.injEq] at hstep
    obtain ⟨_, rfl⟩ := hstep
    exact h.of_subset (liveMasters_setState_subset nofun) rfl rfl
  | stop p sig =>
    simp only [Masters.step, Option.ite_none_right_eq_some, Option.some.injEq] at hstep
    obtain ⟨⟨_, hrunning⟩, rfl⟩ := hstep
    refine h.of_subset (liveMasters_setState_subset fun _ => ?_) rfl rfl
    rw [hrunning]
    rfl
  | cont p =>
    simp only [Masters.step, Option.ite_none_right_eq_some, Option.some.injEq] at hstep
    obtain ⟨⟨_, hstopped⟩, rfl⟩ := hstep
    refine h.of_subset (liveMasters_setState_subset fun _ => ?_) rfl rfl
    cases hstate : (s.proc p).state with
    | stopped sig reported => rfl
    | running => rfl
    | zombie e =>
      rw [hstate] at hstopped
      cases hstopped

/-- In a run whose forks are all in place, one master at most is alive, and `master_pid` names the latest. -/
theorem single_of_forksInPlace (h : Transition.Reaches Masters.step ForksInPlace init s) : s.Single :=
  h.invariant single_init fun _ _ _ hs hgood hstep => hs.step hgood hstep

/-- `GetMailqNum` runs to its end before the worker thread looks for children that have died. -/
theorem single_after_mailq : ∃ s : Masters, s.liveMasters = {100} ∧ s.children = {100} ∧ s.Single := by
  have h0 : Transition.Reaches Masters.step ForksInPlace init _ := .start
  have h1 := h0.step (Act.start false 100) (fun _ => rfl) rfl
  have h2 := h1.step (Act.popen 200) trivial rfl
  have h3 := h2.step (Act.finish 200 (.exited 0)) trivial rfl
  have h4 := h3.step Act.pclose trivial rfl
  have h5 := h4.step (Act.waitpid none) trivial rfl
  exact ⟨_, by decide, by decide, single_of_forksInPlace h5⟩

/-- The worker thread takes the end of the shell for the end of its master. -/
theorem not_single_after_mailq : ∃ s : Masters, Transition.Reachable Masters.step init s ∧
    s.liveMasters = {100, 300} ∧ s.masterPid = 100 ∧ s.latest = some 300 ∧ ¬ s.Single := by
  have hrun : Transition.Reachable Masters.step init _ := Transition.reachable_of_run
    [.start false 100, .popen 200, .finish 200 (.exited 0), .waitpid (some 200), .fork 300] rfl
  exact ⟨_, hrun, by decide, rfl, rfl, fun h => absurd h.card_le (by decide)⟩

/-- Any other fork leaves two live masters or one that `master_pid` does not name. -/
theorem not_single_of_not_forksInPlace {a : Act} (hbad : ¬ s.ForksInPlace a) (hstep : Masters.step a s = some s') :
    ¬ s'.Single := by
  intro h
  cases a with
  | start isParent new =>
    simp only [ForksInPlace, Classical.not_imp] at hbad
    simp only [Masters.step, hbad.1, if_true, Option.ite_none_right_eq_some] at hstep
    obtain ⟨⟨masterPid, mid⟩, hmaster, hs'⟩ := Option.bind_eq_some_iff.mp hstep.2
    obtain rfl := Option.some.inj hs'
    obtain ⟨_, hcard, _⟩ := forkMasterProcess_eq_some hmaster
    have hle := hcard.symm.trans_le h.card_le
    exact hbad.2 (Finset.card_eq_zero.mp (Nat.le_zero.mp (Nat.le_of_succ_le_succ hle)))
  | fork new =>
    simp only [Masters.step, Option.ite_none_right_eq_some] at hstep
    obtain ⟨⟨masterPid, mid⟩, hmaster, hs'⟩ := Option.bind_eq_some_iff.mp hstep.2
    obtain rfl := Option.some.inj hs'
    obtain ⟨_, hcard, hlatest, hpid⟩ := forkMasterProcess_eq_some hmaster
    have hle := hcard.symm.trans_le h.card_le
    refine hbad ⟨Finset.card_eq_zero.mp (Nat.le_zero.mp (Nat.le_of_succ_le_succ hle)), ?_⟩
    exact (h.named new hlatest).symm.trans hpid
  | _ => exact hbad trivial

end

end Masters

end PostfixEdm
