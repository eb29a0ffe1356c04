import PostfixEdm.Client.Loops

/-!
# In which order `productLock` and `consumeLock` are taken

The worker thread takes `consumeLock` while it holds `productLock`; a child that has found no mail takes them
the other way round.

* `Shm.Deadlock` : each of the two holds what the other wants; `Deadlock.step` : such a state lasts;
* `Shm.InOrder` : the steps that do not lead there: neither of the two takes its second lock's opposite while
  the other one is between its locks;
* `not_deadlock_of_inOrder`, `deadlock_of_not_inOrder` : what holds in every run of such steps, and what any
  other step does.
-/

namespace PostfixEdm

namespace Shm

variable {κ : Type} {s s' : Shm κ}

/-- The worker thread holds `productLock` and is at `consumeLock.Lock()`. -/
def WorkerBetween (s : Shm κ) : Prop :=
  s.threads.owner .productLock = some .worker ∧ s.threads.pos .worker = WorkerAt.notifyConsume .lock

/-- The child holds `consumeLock` and is at `productLock.Lock()`. -/
def ChildBetween (s : Shm κ) (k : κ) : Prop :=
  s.threads.owner .consumeLock = some (.child k) ∧ s.threads.pos (.child k) = ChildAt.notifyProduct .lock

def Deadlock (s : Shm κ) : Prop := s.WorkerBetween ∧ ∃ k, s.ChildBetween k

/-- A step by which one of the two gets between its locks finds the other one elsewhere. For the worker thread
this is an answer of `_haveSendInfo` that there is mail. -/
def InOrder (s : Shm κ) : Act κ → Prop
  | .goOn .worker found =>
    s.threads.pos .worker = WorkerAt.haveSendInfo → found = true → ∀ k, ¬ s.ChildBetween k
  | .exec (.child k) => s.threads.pos (.child k) = ChildAt.lockConsume → ¬ s.WorkerBetween
  | _ => True

theorem Owned.workerBetween (h : s.Owned) (hpos : s.threads.pos .worker = WorkerAt.notifyConsume .lock) :
    s.WorkerBetween :=
  ⟨(h _ _).mpr (by rw [hpos]; rfl), hpos⟩

theorem Owned.childBetween (h : s.Owned) {k : κ}
    (hpos : s.threads.pos (.child k) = ChildAt.notifyProduct .lock) : s.ChildBetween k :=
  ⟨(h _ _).mpr (by rw [hpos]; rfl), hpos⟩

/-! ## How they get between their locks -/

theorem next_code_worker (b : WorkerAt) : b.code.next ≠ some (.notifyConsume .lock) := by
  cases b
  case notifyConsume b | command b => cases b <;> nofun
  all_goals nofun

theorem goOn_worker {status : UInt16} {found : Bool} {b : WorkerAt}
    (h : b.goOn status found = some (.notifyConsume .lock)) : b = .haveSendInfo ∧ found = true := by
  cases b
  case haveSendInfo =>
    cases found
    · cases h
    · exact ⟨rfl, rfl⟩
  case check b =>
    exact absurd (Option.some.inj h)
      (b.goOn_of_forall (· ≠ WorkerAt.notifyConsume .lock) (fun _ => nofun) nofun nofun)
  all_goals cases h

theorem next_code_child {b : ChildAt} (h : b.code.next = some (.notifyProduct .lock)) : b = .lockConsume := by
  cases b
  case lockConsume => rfl
  case notifyProduct b | command b => cases b <;> cases h
  case unlockChild mail => cases mail <;> cases h
  all_goals cases h

theorem goOn_child {status : UInt16} {found : Bool} (b : ChildAt) :
    b.goOn status found ≠ some (.notifyProduct .lock) := by
  intro h
  cases b
  case check b =>
    exact absurd (Option.some.inj h)
      (b.goOn_of_forall (· ≠ ChildAt.notifyProduct .lock) (fun _ => nofun) nofun nofun)
  case top => cases found <;> cases h
  all_goals cases h

variable [DecidableEq κ] {a : Act κ}

/-- The worker thread gets between its locks when it finds mail. -/
theorem worker_enters (h : step a s = some s') (hnew : s'.threads.pos .worker = WorkerAt.notifyConsume .lock) :
    s.threads.pos .worker = WorkerAt.notifyConsume .lock ∨
      (s.threads.pos .worker = WorkerAt.haveSendInfo ∧ a = .goOn .worker true) := by
  rcases step_pos h .worker with heq | ⟨_, hnext⟩ | ⟨found, rfl, hnext⟩ | hmain | ⟨k, hk, _⟩
  · exact .inl (heq.symm.trans hnew)
  · exact absurd (hnext.trans (congrArg some hnew)) (next_code_worker _)
  · obtain ⟨hpos, rfl⟩ := goOn_worker (hnext.trans (congrArg some hnew))
    exact .inr ⟨hpos, rfl⟩
  · cases hmain
  · cases hk

/-- A child gets between its locks when it takes `consumeLock`. -/
theorem child_enters {k : κ} (h : step a s = some s')
    (hnew : s'.threads.pos (.child k) = ChildAt.notifyProduct .lock) :
    s.threads.pos (.child k) = ChildAt.notifyProduct .lock ∨
      (s.threads.pos (.child k) = ChildAt.lockConsume ∧ a = .exec (.child k)) := by
  rcases step_pos h (.child k) with heq | ⟨rfl, hnext⟩ | ⟨found, _, hnext⟩ | hmain | ⟨k', hk, _, htop⟩
  · exact .inl (heq.symm.trans hnew)
  · exact .inr ⟨next_code_child (hnext.trans (congrArg some hnew)), rfl⟩
  · exact absurd (hnext.trans (congrArg some hnew)) (goOn_child _)
  · cases hmain
  · cases hk
    exact absurd (htop.symm.trans hnew) nofun

/-! ## The deadlock -/

theorem not_deadlock_step (howned : s.Owned) (hnot : ¬ s.Deadlock) (hgood : s.InOrder a)
    (h : step a s = some s') : ¬ s'.Deadlock := by
  rintro ⟨⟨_, hworker⟩, k, _, hchild⟩
  rcases worker_enters h hworker with hwas | ⟨hpos, rfl⟩
  · rcases child_enters h hchild with hwas' | ⟨hpos', rfl⟩
    · exact hnot ⟨howned.workerBetween hwas, k, howned.childBetween hwas'⟩
    · exact hgood hpos' (howned.workerBetween hwas)
  · rcases child_enters h hchild with hwas' | ⟨_, heq⟩
    · exact hgood hpos rfl k (howned.childBetween hwas')
    · cases heq

/-- In a run of steps in order, the worker thread and a child never each hold the lock that the other wants. -/
theorem not_deadlock_of_inOrder (h : Transition.Reaches step InOrder init s) : ¬ s.Deadlock := by
  suffices hboth : s.Owned ∧ ¬ s.Deadlock from hboth.2
  refine h.invariant (motive := fun s => s.Owned ∧ ¬ s.Deadlock) ⟨owned_init, ?start⟩ ?keep
  case start => exact fun ⟨⟨_, hworker⟩, _⟩ => absurd hworker nofun
  case keep =>
    intro s a s' ⟨howned, hnot⟩ hgood hstep
    exact ⟨howned.step hstep, not_deadlock_step howned hnot hgood hstep⟩

/-- The child is between its locks, and the worker thread has not found any mail yet. -/
theorem not_deadlock_childBetween : ∃ s : Shm Unit, s.ChildBetween () ∧ ¬ s.Deadlock := by
  have h0 : Transition.Reaches step InOrder (init : Shm Unit) _ := .start
  have h1 := h0.step (Act.setStatus cidCommandStart) trivial rfl
  have h2 := h1.step Act.write trivial rfl
  have h3 := h2.step (Act.goOn .master false) trivial rfl
  have h4 := h3.step (Act.fork ()) trivial rfl
  have h5 := h4.step (Act.goOn (.child ()) false) trivial rfl
  have h6 := h5.step (Act.goOn (.child ()) false) trivial rfl
  have h7 := h6.step (Act.exec (.child ())) (fun _ hworker => nomatch hworker.2) rfl
  have h8 := h7.step (Act.goOn (.child ()) false) trivial rfl
  have h9 := h8.step (Act.exec (.child ())) (fun _ hworker => nomatch hworker.2) rfl
  have h10 := h9.step (Act.exec (.child ())) (fun _ hworker => nomatch hworker.2) rfl
  exact ⟨_, ⟨rfl, rfl⟩, not_deadlock_of_inOrder h10⟩

/-- Any other step is the one that locks the two up. -/
theorem deadlock_of_not_inOrder (howned : s.Owned) (hbad : ¬ s.InOrder a) (h : step a s = some s') :
    s'.Deadlock := by
  have howned' := howned.step h
  cases a with
  | goOn t found =>
    cases t with
    | worker =>
      simp only [InOrder, not_forall, not_not] at hbad
      obtain ⟨hpos, rfl, k, hchild⟩ := hbad
      simp only [step, hpos] at h
      obtain rfl := Option.some.inj h
      exact ⟨howned'.workerBetween rfl, k, howned'.childBetween hchild.2⟩
    | _ => exact absurd trivial hbad
  | exec t =>
    cases t with
    | child k =>
      simp only [InOrder, Classical.not_imp, not_not] at hbad
      obtain ⟨hpos, hworker⟩ := hbad
      obtain ⟨threads, hexec, hs'⟩ := Option.bind_eq_some_iff.mp h
      obtain rfl := Option.some.inj hs'
      obtain ⟨next, hnext, hmoved⟩ := CondLock.Threads.exec_pos _ hexec
      rw [hpos] at hnext
      obtain rfl := Option.some.inj hnext
      refine ⟨howned'.workerBetween ?_, k, howned'.childBetween ?_⟩
      · exact (congrFun hmoved _).trans ((Function.update_of_ne (fun heq => by cases heq) ..).trans hworker.2)
      · exact (congrFun hmoved _).trans (Function.update_self ..)
    | _ => exact absurd trivial hbad
  | _ => exact absurd trivial hbad

/-- Neither of the two ever moves again. -/
theorem Deadlock.step (howned : s.Owned) (hdead : s.Deadlock) (h : Shm.step a s = some s') : s'.Deadlock := by
  have howned' := howned.step h
  obtain ⟨hworker, k, hchild⟩ := hdead
  refine ⟨howned'.workerBetween ?_, k, howned'.childBetween ?_⟩
  · rcases step_pos h .worker with heq | ⟨rfl, _⟩ | ⟨found, _, hnext⟩ | hmain | ⟨k, hk, _⟩
    · exact heq.trans hworker.2
    · simp only [Shm.step, hworker.2, Party.code, WorkerAt.code, NotifyAt.code, CondLock.Threads.exec, hchild.1,
        reduceCtorEq, if_false, Option.bind_eq_bind, Option.bind_none] at h
    · rw [hworker.2] at hnext
      cases hnext
    · cases hmain
    · cases hk
  · rcases step_pos h (.child k) with heq | ⟨rfl, _⟩ | ⟨found, _, hnext⟩ | hmain | ⟨k', hk, hgone, _⟩
    · exact heq.trans hchild.2
    · simp only [Shm.step, hchild.2, Party.code, ChildAt.code, NotifyAt.code, CondLock.Threads.exec, hworker.1,
        reduceCtorEq, if_false, Option.bind_eq_bind, Option.bind_none] at h
    · rw [hchild.2] at hnext
      cases hnext
    · cases hmain
    · cases hk
      have hnever := hgone.symm.trans hchild.2
      cases hnever

/-- A child that has found no mail, up to where it holds `consumeLock`. -/
def childWantsProduct : List (Act Unit) :=
  [.setStatus cidCommandStart, .write, .goOn .master false, .fork (), .goOn (.child ()) false,
    .goOn (.child ()) false, .exec (.child ()), .goOn (.child ()) false, .exec (.child ()), .exec (.child ())]

/-- The worker thread, up to where it has found mail. -/
def workerWantsConsume : List (Act Unit) :=
  [.goOn .worker false, .goOn .worker false, .exec .worker, .goOn .worker true]

theorem deadlock_reachable : ∃ s : Shm Unit, Transition.Reachable step init s ∧ s.Deadlock :=
  ⟨_, Transition.reachable_of_run (childWantsProduct ++ workerWantsConsume) rfl, ⟨rfl, rfl⟩, (), rfl, rfl⟩

end Shm

end PostfixEdm
