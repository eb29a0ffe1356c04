import PostfixEdm.Client.Mail

/-!
# The push counter: `havePushNum` in `cChildProcess::OnChildRun` and `cWorkerThread::_init_shm`

A child advances the counter under `childLock` by the size of its queue, and then sends what is queued. The main
thread starts the worker thread anew when it finds it gone, and writes the shared memory from the beginning.

* `sendMailResult` : what `cSendMail::send` returns;
* `Pushing` : the children, `childLock` and `havePushNum`, where the main thread stands, and how many mails have been
  sent and have failed; `Pushing.step` : every statement that touches one of them;
* `Pushing.RestartsFresh` : a write of `_init_shm` finds nothing that it would change; `Pushing.GoodStep` : and no
  mail fails;
* `Pushing.havePushNum_of_restartsFresh` : the counter has what was handed to `cSendMail::send`, sent or not, and what
  is still queued; `Pushing.havePushNum_eq_sent` : with no failure it has what was sent, and
  `Pushing.havePushNum_iff_failed` : otherwise it has not.
-/

namespace PostfixEdm

/-- `cSendMail::send`, by whether `popen` gives a pipe. -/
def sendMailResult (popen : Bool) : Int := if popen then 0 else -1

/-- Where a child stands. `locked`, `pulled`, `loaded` and `stored` are inside `childLock`; `havePushNum += size` loads
the counter and stores the sum. -/
inductive PushStage
  | top | locked | pulled
  | loaded (havePushNum : UInt64)
  | stored | sending
  deriving DecidableEq, Repr

structure PushChild where
  stage : PushStage
  sendMailQueue : List MailInfo
  deriving DecidableEq, Repr

/-- Where the main thread stands: outside, or before a write of `_init_shm`. -/
inductive InitAt
  | idle | memset | havePushNum | childLock
  deriving DecidableEq, Repr

/-- `sent` and `failed` count the mails for which `cSendMail::send` has returned 0, and has not. -/
structure Pushing (κ : Type) where
  children : Finset κ
  child : κ → PushChild
  childLock : Bool
  havePushNum : UInt64
  main : InitAt
  sent : Nat
  failed : Nat

namespace PushChild

/-- Between `Lock` and `Unlock` of `childLock`. -/
def inside (x : PushChild) : Bool :=
  match x.stage with
  | .locked | .pulled | .loaded _ | .stored => true
  | .top | .sending => false

/-- How many mails of the queue the counter has already. -/
def counted (x : PushChild) : Nat :=
  match x.stage with
  | .stored | .sending => x.sendMailQueue.length
  | .top | .locked | .pulled | .loaded _ => 0

end PushChild

namespace Pushing

/-- `checkThreadAlive` with the answer of `pthread_kill`; `initShm` is the next write of `_init_shm`. -/
inductive Act (κ : Type)
  | fork (c : κ)
  | retire (c : κ)
  | lock (c : κ)
  | pull (c : κ) (rows : List SendEmail)
  | load (c : κ)
  | store (c : κ)
  | unlock (c : κ)
  | send (c : κ) (popen : Bool)
  | again (c : κ)
  | checkThreadAlive (alive : Bool)
  | initShm

variable {κ : Type}

/-- After `cWorker::run`. -/
def init : Pushing κ := ⟨∅, fun _ => ⟨.top, []⟩, false, 0, .idle, 0, 0⟩

/-- How many mails of all queues the counter has already. -/
def counted (s : Pushing κ) : Nat := ∑ c ∈ s.children, (s.child c).counted

/-- All queues are empty. -/
def Empty (s : Pushing κ) : Prop := ∀ c ∈ s.children, (s.child c).sendMailQueue = []

section
variable [DecidableEq κ]

def setChild (s : Pushing κ) (c : κ) (x : PushChild) : Pushing κ :=
  { s with child := Function.update s.child c x }

/-- A child that is not in the middle of anything leaves at the top of its loop. Whether the shared status lets a child
start, and its waits while the queue is empty, are left open. -/
def step : Act κ → Pushing κ → Option (Pushing κ)
  | .fork c, s =>
    if c ∈ s.children then none
    else some { s.setChild c ⟨.top, []⟩ with children := insert c s.children }
  | .retire c, s =>
    if c ∈ s.children ∧ (s.child c).stage = .top then some { s with children := s.children.erase c } else none
  | .lock c, s =>
    if c ∈ s.children ∧ (s.child c).stage = .top ∧ s.childLock = false then
      some { s.setChild c ⟨.locked, (s.child c).sendMailQueue⟩ with childLock := true }
    else none
  | .pull c rows, s =>
    if c ∈ s.children ∧ (s.child c).stage = .locked ∧ rows.length ≤ pullSentMailUnit then
      some (s.setChild c ⟨.pulled, (s.child c).sendMailQueue ++ rows.map SendEmail.mailInfo⟩)
    else none
  | .load c, s =>
    if c ∈ s.children ∧ (s.child c).stage = .pulled then
      some (s.setChild c ⟨.loaded s.havePushNum, (s.child c).sendMailQueue⟩)
    else none
  | .store c, s =>
    match (s.child c).stage with
    | .loaded havePushNum =>
      if c ∈ s.children then
        some { s.setChild c ⟨.stored, (s.child c).sendMailQueue⟩ with
          havePushNum := havePushNum + UInt64.ofNat (s.child c).sendMailQueue.length }
      else none
    | _ => none
  | .unlock c, s =>
    if c ∈ s.children ∧ (s.child c).stage = .stored then
      some { s.setChild c ⟨.sending, (s.child c).sendMailQueue⟩ with childLock := false }
    else none
  | .send c popen, s =>
    match (s.child c).sendMailQueue with
    | _ :: rest =>
      if c ∈ s.children ∧ (s.child c).stage = .sending then
        if sendMailResult popen = 0 then some { s.setChild c ⟨.sending, rest⟩ with sent := s.sent + 1 }
        else some { s.setChild c ⟨.sending, rest⟩ with failed := s.failed + 1 }
      else none
    | [] => none
  | .again c, s =>
    if c ∈ s.children ∧ (s.child c).stage = .sending ∧ (s.child c).sendMailQueue = [] then
      some (s.setChild c ⟨.top, []⟩)
    else none
  | .checkThreadAlive alive, s =>
    if s.main = .idle then some (if alive then s else { s with main := .memset }) else none
  | .initShm, s =>
    match s.main with
    | .idle => none
    | .memset => some { s with havePushNum := 0, childLock := false, main := .havePushNum }
    | .havePushNum => some { s with havePushNum := 0, main := .childLock }
    | .childLock => some { s with childLock := false, main := .idle }

end

/-- A write of `_init_shm` finds the counter at 0 when it clears it, and nobody inside `childLock` when it clears
that. -/
def RestartsFresh (s : Pushing κ) : Act κ → Prop
  | .initShm =>
    (s.main = .memset ∨ s.main = .havePushNum → s.havePushNum = 0) ∧
      (s.main = .memset ∨ s.main = .childLock → ∀ c ∈ s.children, (s.child c).inside = false)
  | _ => True

/-- And `cSendMail::send` returns 0. -/
def GoodStep (s : Pushing κ) (a : Act κ) : Prop :=
  s.RestartsFresh a ∧ ∀ c popen, a = .send c popen → sendMailResult popen = 0

/-! ## One child at a time -/

/-- `childLock` does its work. -/
structure Exclusive (s : Pushing κ) : Prop where
  one : ∀ c ∈ s.children, ∀ d ∈ s.children, (s.child c).inside = true → (s.child d).inside = true → c = d
  free : s.childLock = false → ∀ c ∈ s.children, (s.child c).inside = false

/-- The counter has what was handed over and what it has of the queues. A child that has loaded it still finds it as it
was, and a child that has not pulled yet has an empty queue. -/
structure Counts (s : Pushing κ) : Prop where
  num : s.havePushNum = UInt64.ofNat (s.sent + s.failed + s.counted)
  loaded : ∀ c ∈ s.children, ∀ n, (s.child c).stage = .loaded n → n = s.havePushNum
  fresh : ∀ c ∈ s.children, (s.child c).stage = .top ∨ (s.child c).stage = .locked → (s.child c).sendMailQueue = []

theorem exclusive_init : Exclusive (init : Pushing κ) :=
  ⟨fun _ hc => absurd hc (Finset.notMem_empty _), fun _ _ hc => absurd hc (Finset.notMem_empty _)⟩

theorem counts_init : Counts (init : Pushing κ) :=
  ⟨rfl, fun _ hc => absurd hc (Finset.notMem_empty _), fun _ hc => absurd hc (Finset.notMem_empty _)⟩

section
variable [DecidableEq κ] {s s' : Pushing κ} {a : Act κ} {c : κ} {y : PushChild} {k : Nat}

/-- What a statement of the child `c` does: it becomes `y`, and the counter grows by `k`. -/
structure Moves (s s' : Pushing κ) (c : κ) (y : PushChild) (k : Nat) : Prop where
  mem : c ∈ s.children
  children : s'.children = s.children
  child : s'.child = Function.update s.child c y
  enters : y.inside = true → (s.child c).inside = true ∨ s.childLock = false
  frees : s'.childLock = false →
    s.childLock = false ∧ ((s.child c).inside = false → y.inside = false) ∨
      (s.child c).inside = true ∧ y.inside = false
  num : s'.havePushNum = s.havePushNum + UInt64.ofNat k
  adds : k = 0 ∨ (s.child c).inside = true
  total : s'.sent + s'.failed + y.counted = s.sent + s.failed + (s.child c).counted + k
  loaded : ∀ n, y.stage = .loaded n → n = s'.havePushNum
  fresh : y.stage = .top ∨ y.stage = .locked →
    y.sendMailQueue = [] ∨ (s.child c).stage = .top ∧ y.sendMailQueue = (s.child c).sendMailQueue

/-- Inside `childLock`, or outside, with the counter as it was. -/
theorem moves_quiet (hc : c ∈ s.children) (hinside : y.inside = (s.child c).inside)
    (hcounted : y.counted = (s.child c).counted) (hloaded : ∀ n, y.stage = .loaded n → n = s.havePushNum)
    (hfresh : y.stage = .top ∨ y.stage = .locked → y.sendMailQueue = []) : Moves s (s.setChild c y) c y 0 where
  mem := hc
  children := rfl
  child := rfl
  enters := fun hy => .inl (hinside.symm.trans hy)
  frees := fun hlock => .inl ⟨hlock, fun hold => hinside.trans hold⟩
  num := (UInt64.add_zero _).symm
  adds := .inl rfl
  total := by
    rw [hcounted]
    rfl
  loaded := hloaded
  fresh := fun hy => .inl (hfresh hy)

/-- What a step can do. The sum that a child stores is right because its load still is. -/
theorem moves_step (h : s.Counts) (hstep : step a s = some s') :
    (∃ c y k, Moves s s' c y k) ∨
    (∃ c, c ∉ s.children ∧ s' = { s.setChild c ⟨.top, []⟩ with children := insert c s.children }) ∨
    (∃ c, (s.child c).stage = .top ∧ s' = { s with children := s.children.erase c }) ∨
    (∃ main, s' = { s with main := main }) ∨
    a = .initShm := by
  cases a with
  | fork c =>
    simp only [step, Option.ite_none_left_eq_some, Option.some.injEq] at hstep
    obtain ⟨hc, rfl⟩ := hstep
    exact .inr (.inl ⟨c, hc, rfl⟩)
  | retire c =>
    simp only [step, Option.ite_none_right_eq_some, Option.some.injEq] at hstep
    obtain ⟨⟨_, htop⟩, rfl⟩ := hstep
    exact .inr (.inr (.inl ⟨c, htop, rfl⟩))
  | lock c =>
    simp only [step, Option.ite_none_right_eq_some, Option.some.injEq] at hstep
    obtain ⟨⟨hc, htop, hfree⟩, rfl⟩ := hstep
    refine .inl ⟨c, _, 0, hc, rfl, rfl, fun _ => .inr hfree, nofun, (UInt64.add_zero _).symm, .inl rfl, ?_, nofun,
      fun _ => .inr ⟨htop, rfl⟩⟩
    simp [PushChild.counted, htop, setChild]
  | pull c rows =>
    simp only [step, Option.ite_none_right_eq_some, Option.some.injEq] at hstep
    obtain ⟨⟨hc, hlocked, _⟩, rfl⟩ := hstep
    refine .inl ⟨c, _, 0, moves_quiet hc ?_ ?_ nofun (by simp)⟩
    · simp [PushChild.inside, hlocked]
    · simp [PushChild.counted, hlocked]
  | load c =>
    simp only [step, Option.ite_none_right_eq_some, Option.some.injEq] at hstep
    obtain ⟨⟨hc, hpulled⟩, rfl⟩ := hstep
    refine .inl ⟨c, _, 0, moves_quiet hc ?_ ?_ (fun n hn => ?_) (by simp)⟩
    · simp [PushChild.inside, hpulled]
    · simp [PushChild.counted, hpulled]
    · exact (PushStage.loaded.inj hn).symm
  | store c =>
    rw [step] at hstep
    split at hstep
    · next n hloaded =>
      simp only [Option.ite_none_right_eq_some, Option.some.injEq] at hstep
      obtain ⟨hc, rfl⟩ := hstep
      have hinside : (s.child c).inside = true := by simp [PushChild.inside, hloaded]
      refine .inl ⟨c, _, (s.child c).sendMailQueue.length, hc, rfl, rfl, fun _ => .inl hinside, fun hlock => ?_, ?_,
        .inr hinside, ?_, nofun, by simp⟩
      · exact .inl ⟨hlock, fun hold => absurd (hinside.symm.trans hold) Bool.true_eq_false_eq_False⟩
      · rw [h.loaded c hc n hloaded]
      · simp [PushChild.counted, hloaded, setChild]
    · cases hstep
  | unlock c =>
    simp only [step, Option.ite_none_right_eq_some, Option.some.injEq] at hstep
    obtain ⟨⟨hc, hstored⟩, rfl⟩ := hstep
    have hinside : (s.child c).inside = true := by simp [PushChild.inside, hstored]
    refine .inl ⟨c, _, 0, hc, rfl, rfl, nofun, fun _ => .inr ⟨hinside, rfl⟩, (UInt64.add_zero _).symm, .inl rfl, ?_,
      nofun, by simp⟩
    simp [PushChild.counted, hstored, setChild]
  | send c popen =>
    rw [step] at hstep
    split at hstep
    · next mail rest hqueue =>
      simp only [Option.ite_none_right_eq_some] at hstep
      obtain ⟨⟨hc, hsending⟩, hstep⟩ := hstep
      have hinside : (s.child c).inside = false := by simp [PushChild.inside, hsending]
      have hmoves : s'.children = s.children ∧ s'.child = Function.update s.child c ⟨.sending, rest⟩ ∧
          s'.childLock = s.childLock ∧ s'.havePushNum = s.havePushNum ∧
          s'.sent + s'.failed = s.sent + s.failed + 1 := by
        split at hstep
        · obtain rfl := Option.some.inj hstep
          exact ⟨rfl, rfl, rfl, rfl, Nat.succ_add _ _⟩
        · obtain rfl := Option.some.inj hstep
          exact ⟨rfl, rfl, rfl, rfl, rfl⟩
      obtain ⟨hchildren, hchild, hlock, hnum, htotal⟩ := hmoves
      refine .inl ⟨c, _, 0, hc, hchildren, hchild, nofun, fun hfree => ?_, ?_, .inl rfl, ?_, nofun, by simp⟩
      · exact .inl ⟨hlock.symm.trans hfree, fun _ => rfl⟩
      · rw [hnum]
        exact (UInt64.add_zero _).symm
      · simp only [PushChild.counted, hsending, hqueue, List.length_cons]
        omega
    · cases hstep
  | again c =>
    simp only [step, Option.ite_none_right_eq_some, Option.some.injEq] at hstep
    obtain ⟨⟨hc, hsending, hqueue⟩, rfl⟩ := hstep
    refine .inl ⟨c, _, 0, moves_quiet hc ?_ ?_ nofun fun _ => rfl⟩
    · simp [PushChild.inside, hsending]
    · simp [PushChild.counted, hsending, hqueue]
  | checkThreadAlive alive =>
    simp only [step, Option.ite_none_right_eq_some, Option.some.injEq] at hstep
    obtain ⟨_, rfl⟩ := hstep
    refine .inr (.inr (.inr (.inl ?_)))
    split
    · exact ⟨s.main, rfl⟩
    · exact ⟨.memset, rfl⟩
  | initShm => exact .inr (.inr (.inr (.inr rfl)))

/-! ### What a statement of a child keeps -/

theorem Moves.of_ne (h : Moves s s' c y k) {d : κ} (hd : d ≠ c) : s'.child d = s.child d := by
  rw [h.child, Function.update_of_ne hd]

theorem Moves.self (h : Moves s s' c y k) : s'.child c = y := by
  rw [h.child, Function.update_self]

theorem Exclusive.moves (hex : s.Exclusive) (h : Moves s s' c y k) : s'.Exclusive := by
  -- nobody else is inside when `c` is
  have halone : ∀ d ∈ s.children, d ≠ c → (s.child d).inside = true → y.inside = false := by
    intro d hd hne hinside
    rw [← Bool.not_eq_true]
    intro hy
    rcases h.enters hy with hc | hfree
    · exact hne (hex.one d hd c h.mem hinside hc)
    · simp [hex.free hfree d hd] at hinside
  constructor
  case one =>
    intro d hd e he hdin hein
    rw [h.children] at hd he
    by_cases hdc : d = c
    · by_cases hec : e = c
      · rw [hdc, hec]
      · rw [hdc, h.self] at hdin
        rw [h.of_ne hec] at hein
        simp [halone e he hec hein] at hdin
    · rw [h.of_ne hdc] at hdin
      by_cases hec : e = c
      · rw [hec, h.self] at hein
        simp [halone d hd hdc hdin] at hein
      · rw [h.of_ne hec] at hein
        exact hex.one d hd e he hdin hein
  case free =>
    intro hlock d hd
    rw [h.children] at hd
    by_cases hdc : d = c
    · rw [hdc, h.self]
      rcases h.frees hlock with ⟨hfree, hy⟩ | ⟨_, hy⟩
      · exact hy (hex.free hfree c h.mem)
      · exact hy
    · rw [h.of_ne hdc, ← Bool.not_eq_true]
      intro hdin
      rcases h.frees hlock with ⟨hfree, _⟩ | ⟨hc, _⟩
      · simp [hex.free hfree d hd] at hdin
      · exact hdc (hex.one d hd c h.mem hdin hc)

theorem Counts.moves (h : s.Counts) (hex : s.Exclusive) (hmoves : Moves s s' c y k) : s'.Counts := by
  constructor
  case num =>
    have hsum := sum_update hmoves.mem s.child y PushChild.counted
    have htotal := hmoves.total
    have hcounted : s'.sent + s'.failed + s'.counted = s.sent + s.failed + s.counted + k := by
      unfold counted
      rw [hmoves.children, hmoves.child]
      omega
    rw [hcounted, hmoves.num, h.num, UInt64.ofNat_add _ k]
  case loaded =>
    intro d hd n hn
    rw [hmoves.children] at hd
    by_cases hdc : d = c
    · rw [hdc, hmoves.self] at hn
      exact hmoves.loaded n hn
    · rw [hmoves.of_ne hdc] at hn
      rcases hmoves.adds with hzero | hc
      · rw [hmoves.num, hzero]
        exact (h.loaded d hd n hn).trans (UInt64.add_zero _).symm
      · -- the counter grows for the child inside `childLock`, and no other one is there
        have hd' : (s.child d).inside = true := by simp [PushChild.inside, hn]
        exact absurd (hex.one d hd c hmoves.mem hd' hc) hdc
  case fresh =>
    intro d hd hstage
    rw [hmoves.children] at hd
    by_cases hdc : d = c
    · rw [hdc, hmoves.self] at hstage ⊢
      rcases hmoves.fresh hstage with hnil | ⟨htop, hqueue⟩
      · exact hnil
      · exact hqueue.trans (h.fresh c hmoves.mem (.inl htop))
    · rw [hmoves.of_ne hdc] at hstage ⊢
      exact h.fresh d hd hstage

/-! ### Forks, retirements and restarts -/

/-- A child that stands at the top of its loop, and so outside. -/
theorem at_top {x : PushChild} (htop : x.stage = .top) : x.inside = false ∧ x.counted = 0 := by
  simp [PushChild.inside, PushChild.counted, htop]

theorem Exclusive.fork (hex : s.Exclusive) (hc : c ∉ s.children) :
    Exclusive { s.setChild c ⟨.top, []⟩ with children := insert c s.children } := by
  have hnew : ∀ d ∈ insert c s.children, (Function.update s.child c ⟨.top, []⟩ d).inside = true →
      d ∈ s.children ∧ (s.child d).inside = true := by
    intro d hd hinside
    by_cases hdc : d = c
    · subst hdc
      rw [Function.update_self] at hinside
      cases hinside
    · rw [Function.update_of_ne hdc] at hinside
      exact ⟨Finset.mem_of_mem_insert_of_ne hd hdc, hinside⟩
  refine ⟨fun d hd e he hdin hein => ?_, fun hlock d hd => ?_⟩
  · obtain ⟨hd', hdin'⟩ := hnew d hd hdin
    obtain ⟨he', hein'⟩ := hnew e he hein
    exact hex.one d hd' e he' hdin' hein'
  · rw [← Bool.not_eq_true]
    intro hdin
    obtain ⟨hd', hdin'⟩ := hnew d hd hdin
    simp [hex.free hlock d hd'] at hdin'

theorem Counts.fork (h : s.Counts) (hc : c ∉ s.children) :
    Counts { s.setChild c ⟨.top, []⟩ with children := insert c s.children } := by
  have hnew : ∀ d ∈ insert c s.children,
      d = c ∨ d ∈ s.children ∧ Function.update s.child c ⟨.top, []⟩ d = s.child d := by
    intro d hd
    by_cases hdc : d = c
    · exact .inl hdc
    · exact .inr ⟨Finset.mem_of_mem_insert_of_ne hd hdc, Function.update_of_ne hdc _ _⟩
  refine ⟨?num, fun d hd n hn => ?loaded, fun d hd hstage => ?fresh⟩
  case num =>
    refine h.num.trans (congrArg (fun n => UInt64.ofNat (s.sent + s.failed + n)) ?_)
    refine Eq.symm ((sum_update_insert hc s.child ⟨.top, []⟩ PushChild.counted).trans ?_)
    exact Nat.zero_add _
  case loaded =>
    change (Function.update s.child c ⟨.top, []⟩ d).stage = .loaded n at hn
    rcases hnew d hd with rfl | ⟨hd', heq⟩
    · rw [Function.update_self] at hn
      cases hn
    · rw [heq] at hn
      exact h.loaded d hd' n hn
  case fresh =>
    change (Function.update s.child c ⟨.top, []⟩ d).sendMailQueue = []
    rcases hnew d hd with rfl | ⟨hd', heq⟩
    · rw [Function.update_self]
    · have hold : (Function.update s.child c ⟨.top, []⟩ d).stage = .top ∨
          (Function.update s.child c ⟨.top, []⟩ d).stage = .locked := hstage
      rw [heq] at hold ⊢
      exact h.fresh d hd' hold

theorem Exclusive.retire (hex : s.Exclusive) (c : κ) : Exclusive { s with children := s.children.erase c } :=
  ⟨fun d hd e he => hex.one d (Finset.mem_of_mem_erase hd) e (Finset.mem_of_mem_erase he),
    fun hlock d hd => hex.free hlock d (Finset.mem_of_mem_erase hd)⟩

theorem Counts.retire (h : s.Counts) (htop : (s.child c).stage = .top) :
    Counts { s with children := s.children.erase c } := by
  refine ⟨?num, fun d hd => h.loaded d (Finset.mem_of_mem_erase hd), fun d hd => h.fresh d (Finset.mem_of_mem_erase hd)⟩
  refine h.num.trans (congrArg (fun n => UInt64.ofNat (s.sent + s.failed + n)) ?_)
  exact (sum_erase_eq s.child (f := PushChild.counted) (at_top htop).2).symm

omit [DecidableEq κ] in
theorem Exclusive.unlocked (hex : s.Exclusive) (hnobody : ∀ c ∈ s.children, (s.child c).inside = false) (num : UInt64)
    (main : InitAt) : Exclusive { s with childLock := false, havePushNum := num, main := main } :=
  ⟨hex.one, fun _ => hnobody⟩

/-- A write of `_init_shm` that changes nothing. -/
theorem initShm_keeps (hex : s.Exclusive) (h : s.Counts) (hfresh : s.RestartsFresh .initShm)
    (hstep : step .initShm s = some s') : s'.Exclusive ∧ s'.Counts := by
  obtain ⟨hzero, hnobody⟩ := hfresh
  rw [step] at hstep
  split at hstep
  · cases hstep
  · next hmain =>
    obtain rfl := Option.some.inj hstep
    refine ⟨hex.unlocked (hnobody (.inl hmain)) _ _, ?_⟩
    rw [← hzero (.inl hmain)]
    exact ⟨h.num, h.loaded, h.fresh⟩
  · next hmain =>
    obtain rfl := Option.some.inj hstep
    rw [← hzero (.inr hmain)]
    exact ⟨⟨hex.one, hex.free⟩, h.num, h.loaded, h.fresh⟩
  · next hmain =>
    obtain rfl := Option.some.inj hstep
    exact ⟨hex.unlocked (hnobody (.inr hmain)) _ _, h.num, h.loaded, h.fresh⟩

/-! ## Runs -/

theorem step_keeps (hex : s.Exclusive) (h : s.Counts) (hfresh : s.RestartsFresh a) (hstep : step a s = some s') :
    s'.Exclusive ∧ s'.Counts := by
  rcases moves_step h hstep with ⟨c, y, k, hmoves⟩ | ⟨c, hc, rfl⟩ | ⟨c, htop, rfl⟩ | ⟨main, rfl⟩ | rfl
  · exact ⟨hex.moves hmoves, h.moves hex hmoves⟩
  · exact ⟨hex.fork hc, h.fork hc⟩
  · exact ⟨hex.retire c, h.retire htop⟩
  · exact ⟨⟨hex.one, hex.free⟩, h.num, h.loaded, h.fresh⟩
  · exact initShm_keeps hex h hfresh hstep

/-- The counter has every mail that was handed to `cSendMail::send`, and those of the queues that it has already. -/
theorem havePushNum_of_restartsFresh (h : Transition.Reaches step RestartsFresh init s) :
    s.havePushNum = UInt64.ofNat (s.sent + s.failed + s.counted) := by
  suffices hboth : s.Exclusive ∧ s.Counts from hboth.2.num
  apply h.invariant (motive := fun s => s.Exclusive ∧ s.Counts) ⟨exclusive_init, counts_init⟩
  intro s a s' ⟨hex, hcounts⟩ hfresh hstep
  exact step_keeps hex hcounts hfresh hstep

/-- Only a `cSendMail::send` that does not return 0 fails. -/
theorem failed_step (hstep : step a s = some s') :
    s'.failed = s.failed ∨ ∃ c popen, a = .send c popen ∧ sendMailResult popen ≠ 0 := by
  cases a with
  | send c popen =>
    rw [step] at hstep
    split at hstep
    · simp only [Option.ite_none_right_eq_some] at hstep
      obtain ⟨_, hstep⟩ := hstep
      split at hstep
      · obtain rfl := Option.some.inj hstep
        exact .inl rfl
      · next hresult => exact .inr ⟨c, popen, rfl, hresult⟩
    · cases hstep
  | store c =>
    rw [step] at hstep
    split at hstep
    · simp only [Option.ite_none_right_eq_some, Option.some.injEq] at hstep
      obtain ⟨_, rfl⟩ := hstep
      exact .inl rfl
    · cases hstep
  | initShm =>
    rw [step] at hstep
    split at hstep <;> cases hstep
    all_goals exact .inl rfl
  | checkThreadAlive alive =>
    simp only [step, Option.ite_none_right_eq_some, Option.some.injEq] at hstep
    obtain ⟨_, rfl⟩ := hstep
    cases alive <;> exact .inl rfl
  | _ =>
    simp only [step, Option.ite_none_right_eq_some, Option.ite_none_left_eq_some, Option.some.injEq] at hstep
    obtain ⟨_, rfl⟩ := hstep
    exact .inl rfl

theorem failed_eq_zero (h : Transition.Reaches step GoodStep (init : Pushing κ) s) : s.failed = 0 := by
  apply h.invariant (motive := fun s => s.failed = 0) rfl
  intro s a s' hzero hgood hstep
  rcases failed_step hstep with heq | ⟨c, popen, ha, hresult⟩
  · exact heq.trans hzero
  · exact absurd (hgood.2 c popen ha) hresult

omit [DecidableEq κ] in
/-- A queue that is empty counts nothing. -/
theorem counted_eq_zero (hempty : s.Empty) : s.counted = 0 := by
  apply Finset.sum_eq_zero
  intro c hc
  unfold PushChild.counted
  rw [hempty c hc]
  split <;> rfl

/-- In every run in which no mail fails and the worker thread is started anew only where that changes nothing, the
counter is the number of mails sent whenever all queues are empty. -/
theorem havePushNum_eq_sent (h : Transition.Reaches step GoodStep (init : Pushing κ) s) (hempty : s.Empty) :
    s.havePushNum = UInt64.ofNat s.sent := by
  have hnum := havePushNum_of_restartsFresh (h.mono fun _ _ hgood => hgood.1)
  rw [failed_eq_zero h, counted_eq_zero hempty] at hnum
  exact hnum

/-- The same for runs in which mails may fail: the counter is wrong as soon as one has. -/
theorem havePushNum_iff_failed (h : Transition.Reaches step RestartsFresh (init : Pushing κ) s) (hempty : s.Empty)
    (hwrap : s.sent + s.failed < 2 ^ 64) : s.havePushNum = UInt64.ofNat s.sent ↔ s.failed = 0 := by
  rw [havePushNum_of_restartsFresh h, counted_eq_zero hempty, Nat.add_zero, ← UInt64.toNat_inj, UInt64.toNat_ofNat',
    UInt64.toNat_ofNat', Nat.mod_eq_of_lt hwrap, Nat.mod_eq_of_lt (by omega)]
  omega

end

/-! ## One child and one row -/

open Mailing in
/-- The worker thread is started anew before anything is pulled, and then a child pulls and sends once. -/
theorem havePushNum_eq_sent_batch : ∃ s : Pushing Unit, Transition.Reaches step GoodStep init s ∧ s.Empty ∧
    s.sent = 1 ∧ s.havePushNum = UInt64.ofNat s.sent := by
  have hother : ∀ (s : Pushing Unit) (a : Act Unit), s.RestartsFresh a →
      (∀ c popen, a ≠ .send c popen) → s.GoodStep a :=
    fun s a hfresh hne => ⟨hfresh, fun c popen ha => absurd ha (hne c popen)⟩
  have hinit : ∀ s : Pushing Unit, s.havePushNum = 0 → s.children = ∅ → s.RestartsFresh .initShm := by
    intro s hzero hnone
    refine ⟨fun _ => hzero, fun _ c hc => ?_⟩
    rw [hnone] at hc
    exact absurd hc (Finset.notMem_empty c)
  have h0 : Transition.Reaches step GoodStep (init : Pushing Unit) _ := .start
  have h1 := h0.step (Act.checkThreadAlive false) (hother _ _ trivial nofun) rfl
  have h2 := h1.step Act.initShm (hother _ _ (hinit _ rfl rfl) nofun) rfl
  have h3 := h2.step Act.initShm (hother _ _ (hinit _ rfl rfl) nofun) rfl
  have h4 := h3.step Act.initShm (hother _ _ (hinit _ rfl rfl) nofun) rfl
  have h5 := h4.step (Act.fork ()) (hother _ _ trivial nofun) rfl
  have h6 := h5.step (Act.lock ()) (hother _ _ trivial nofun) rfl
  have h7 := h6.step (Act.pull () [oneRow]) (hother _ _ trivial nofun) rfl
  have h8 := h7.step (Act.load ()) (hother _ _ trivial nofun) rfl
  have h9 := h8.step (Act.store ()) (hother _ _ trivial nofun) rfl
  have h10 := h9.step (Act.unlock ()) (hother _ _ trivial nofun) rfl
  have h11 := h10.step (Act.send () true) ⟨trivial, fun _ _ ha => by cases ha; rfl⟩ rfl
  exact ⟨_, h11, fun _ _ => rfl, rfl, havePushNum_eq_sent h11 fun _ _ => rfl⟩

/-- A child takes one row, up to where it is in its queue and counted. -/
def oneBatch : List (Act Unit) := [.fork (), .lock (), .pull () [Mailing.oneRow], .load (), .store (), .unlock ()]

/-- The pipe cannot be opened for the mail; or it is sent, and then the worker thread is started anew. -/
theorem not_havePushNum_eq_sent :
    (∃ s : Pushing Unit, Transition.run step (oneBatch ++ [.send () false]) init = some s ∧ s.Empty ∧
      s.havePushNum = 1 ∧ s.sent = 0) ∧
    (∃ s : Pushing Unit, Transition.run step (oneBatch ++ [.send () true, .checkThreadAlive false, .initShm]) init =
      some s ∧ s.Empty ∧ s.havePushNum = 0 ∧ s.sent = 1) ∧
    ¬ ∀ s : Pushing Unit, Transition.Reachable step init s → s.Empty → s.havePushNum = UInt64.ofNat s.sent := by
  have hfailure : ∃ s : Pushing Unit, Transition.run step (oneBatch ++ [.send () false]) init = some s ∧ s.Empty ∧
      s.havePushNum = 1 ∧ s.sent = 0 := ⟨_, rfl, fun _ _ => rfl, rfl, rfl⟩
  refine ⟨hfailure, ⟨_, rfl, fun _ _ => rfl, rfl, rfl⟩, fun hall => ?_⟩
  obtain ⟨s, hrun, hempty, hnum, hsent⟩ := hfailure
  have heq := hall s (Transition.reachable_of_run _ hrun) hempty
  rw [hnum, hsent] at heq
  exact absurd heq (by decide)

end Pushing

end PostfixEdm
