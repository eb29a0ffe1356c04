import PostfixEdm.Client.Loops

/-!
# A start command and those who wait for it

The loops read the status before they take `commandLock`, so a command may come and go between the test and the
wait.

* `Shm.LostStart` : the status says that everyone may start, no `setStatus` is under way, and someone sleeps
  for a command all the same;
* `Shm.WaitsInTime` : a step that does not wait for a command that has already been given;
* `Shm.Awaits` : whoever sleeps will be notified or has nothing to do;
* `not_lostStart_of_waitsInTime`, `lostStart_of_not_waitsInTime` : what holds in every run of such steps, and
  what any other step does.
-/

namespace PostfixEdm

open CondLock

/-- `setStatus` has its `notifyAll` still to come, if the status says so. -/
def MainAt.toNotify : MainAt → Bool
  | write _ | check _ | notify .lock | notify .notifyAll => true
  | notify .unlock | idle => false

namespace Shm

variable {κ : Type} {s s' : Shm κ}

/-- `setStatus` is the only one to write the status, so what it says is the last command. -/
def LostStart (s : Shm κ) : Prop :=
  s.threads.pos .main = MainAt.idle ∧ canStart s.status = true ∧ ∃ t, t ∈ s.threads.waiting .commandLock

/-- Nobody starts to wait for a command once one that lets it start has been carried out. -/
def WaitsInTime (s : Shm κ) : Act κ → Prop
  | .exec t => ∀ next, t.code (s.threads.pos t) = .wait .commandLock next →
    ¬ (s.threads.pos .main = MainAt.idle ∧ canStart s.status = true)
  | _ => True

/-- Whoever sleeps will be notified or has nothing to do. `asked` : the second test of `setStatus` comes after
the first one failed. -/
structure Awaits (main : MainAt) (status : UInt16) (asleep : Finset (Party κ)) : Prop where
  asked : main = .check .resume → status &&& cidCommandStart = 0
  told : asleep = ∅ ∨ canStart status = false ∨ main.toNotify = true

def AllAwait (s : Shm κ) : Prop := Awaits (s.threads.pos .main) s.status (s.threads.waiting .commandLock)

theorem AllAwait.not_lostStart (h : s.AllAwait) : ¬ s.LostStart := by
  rintro ⟨hidle, hstart, t, ht⟩
  rcases h.told with hempty | hstop | hnotify
  · rw [hempty] at ht
    exact absurd ht (Finset.notMem_empty t)
  · exact Bool.noConfusion (hstart.symm.trans hstop)
  · rw [hidle] at hnotify
    exact Bool.noConfusion hnotify

theorem allAwait_init : (init : Shm κ).AllAwait := ⟨nofun, .inl rfl⟩

section
variable {main : MainAt} {status : UInt16} {asleep asleep' : Finset (Party κ)}

theorem Awaits.of_subset (h : Awaits main status asleep) (hsub : asleep' ⊆ asleep) :
    Awaits main status asleep' := by
  refine ⟨h.asked, h.told.imp_left fun hempty => ?_⟩
  rw [hempty] at hsub
  exact Finset.subset_empty.mp hsub

theorem canStart_eq_false (hstart : status &&& cidCommandStart = 0) (hresume : status &&& cidCommandResume = 0) :
    canStart status = false := by
  rw [canStart, hstart, hresume]
  rfl

/-- The tests of `setStatus` end with the notification when one of the bits is set. -/
theorem Awaits.check {b : CheckAt} (h : Awaits (.check b) status asleep) :
    Awaits (b.goOn status .check (.notify .lock) .idle) status asleep := by
  cases b with
  | start =>
    rw [CheckAt.goOn]
    split
    · refine ⟨fun hmain => ?_, .inr (.inr rfl)⟩
      cases hmain
    · next hstart => exact ⟨fun _ => not_not.mp hstart, .inr (.inr rfl)⟩
  | resume =>
    rw [CheckAt.goOn]
    split
    · refine ⟨fun hmain => ?_, .inr (.inr rfl)⟩
      cases hmain
    · next hresume =>
      refine ⟨fun hmain => ?_, .inr (.inl (canStart_eq_false (h.asked rfl) (not_not.mp hresume)))⟩
      cases hmain

/-- Someone falls asleep: a command that is under way will find it there. -/
theorem Awaits.sleep (h : Awaits main status asleep) (hunlock : main ≠ .notify .unlock)
    (hintime : ¬ (main = .idle ∧ canStart status = true)) : Awaits main status asleep' := by
  refine ⟨h.asked, .inr ?_⟩
  by_cases hstart : canStart status = true
  · right
    cases main with
    | idle => exact absurd ⟨rfl, hstart⟩ hintime
    | notify b =>
      cases b with
      | unlock => exact absurd rfl hunlock
      | lock | notifyAll => rfl
    | write | check => rfl
  · exact .inl (Bool.eq_false_of_not_eq_true hstart)

end

variable [DecidableEq κ] {a : Act κ}

theorem AllAwait.exec_main (h : s.AllAwait) (hstep : step (.exec .main) s = some s') : s'.AllAwait := by
  obtain ⟨threads, hexec, hs'⟩ := Option.bind_eq_some_iff.mp hstep
  obtain rfl := Option.some.inj hs'
  obtain ⟨next, hnext, hpos⟩ := Threads.exec_pos _ hexec
  have hmain : threads.pos .main = next := (congrFun hpos _).trans (Function.update_self ..)
  unfold AllAwait at h ⊢
  rw [hmain]
  cases hwas : s.threads.pos .main with
  | notify b =>
    rw [hwas] at hexec hnext h
    cases b with
    | lock =>
      obtain rfl := Option.some.inj hnext
      exact ⟨nofun, .inr (.inr rfl)⟩
    | notifyAll =>
      obtain rfl := Option.some.inj hnext
      exact ⟨nofun, .inl (Threads.waiting_of_notifyAll _ hexec)⟩
    | unlock =>
      obtain rfl := Option.some.inj hnext
      obtain rfl := Option.some.inj hexec
      exact ⟨nofun, h.told.imp_right fun hrest => .inl (hrest.resolve_right nofun)⟩
  | idle | write | check =>
    rw [hwas] at hnext
    cases hnext

/-- The others: who falls asleep owns `commandLock`, so `setStatus` is not about to give it back. -/
theorem AllAwait.exec_other (h : s.AllAwait) (howned : s.Owned) {t : Party κ} (ht : t ≠ .main)
    (hgood : s.WaitsInTime (.exec t)) (hstep : step (.exec t) s = some s') : s'.AllAwait := by
  obtain ⟨threads, hexec, hs'⟩ := Option.bind_eq_some_iff.mp hstep
  obtain rfl := Option.some.inj hs'
  obtain ⟨next, _, hpos⟩ := Threads.exec_pos _ hexec
  have hmain : threads.pos .main = s.threads.pos .main := (congrFun hpos _).trans (Function.update_of_ne ht.symm ..)
  unfold AllAwait at h ⊢
  rw [hmain]
  by_cases hwait : ∃ next, t.code (s.threads.pos t) = .wait .commandLock next
  · obtain ⟨next, hwait⟩ := hwait
    apply h.sleep _ (hgood next hwait)
    intro hunlock
    have hmine := (t.keeps (s.threads.pos t))
    rw [hwait] at hmine
    exact ht (howned.eq_of_held hmine.1 (by rw [hunlock]; rfl))
  · exact h.of_subset (Threads.exec_waiting_subset _ hexec (not_exists.mp hwait))

theorem AllAwait.step (h : s.AllAwait) (howned : s.Owned) (hgood : s.WaitsInTime a)
    (hstep : Shm.step a s = some s') : s'.AllAwait := by
  cases a with
  | setStatus status =>
    simp only [Shm.step, Option.ite_none_right_eq_some, Option.some.injEq] at hstep
    obtain ⟨_, rfl⟩ := hstep
    refine ⟨fun hmain => ?_, .inr (.inr rfl)⟩
    cases hmain
  | write =>
    obtain ⟨status, _, rfl⟩ := step_write hstep
    refine ⟨fun hmain => ?_, .inr (.inr rfl)⟩
    cases hmain
  | exec t =>
    by_cases ht : t = .main
    · subst ht
      exact h.exec_main hstep
    · exact h.exec_other howned ht hgood hstep
  | goOn t found =>
    obtain ⟨next, hnext, hs'⟩ := Option.bind_eq_some_iff.mp hstep
    obtain rfl := Option.some.inj hs'
    by_cases ht : t = .main
    · subst ht
      unfold AllAwait at h ⊢
      cases hwas : s.threads.pos .main with
      | check b =>
        rw [hwas] at hnext h
        obtain rfl := Option.some.inj hnext
        exact h.check
      | idle | write | notify =>
        rw [hwas] at hnext
        cases hnext
    · unfold AllAwait at h ⊢
      rwa [show (s.goto t next).threads.pos .main = s.threads.pos .main from
        Threads.goto_pos_of_ne _ _ _ (Ne.symm ht)]
  | fork k =>
    simp only [Shm.step, Option.ite_none_right_eq_some, Option.some.injEq] at hstep
    obtain ⟨_, rfl⟩ := hstep
    exact h
  | wakeup t l =>
    obtain rfl := Option.some.inj hstep
    exact Awaits.of_subset h (Threads.wakeup_waiting_subset _ _ _ _)

/-- In a run of steps that wait in time, nobody sleeps after a completed start command. -/
theorem not_lostStart_of_waitsInTime (h : Transition.Reaches step WaitsInTime init s) : ¬ s.LostStart := by
  suffices hboth : s.Owned ∧ s.AllAwait from hboth.2.not_lostStart
  refine h.invariant (motive := fun s => s.Owned ∧ s.AllAwait) ⟨owned_init, allAwait_init⟩ ?keep
  intro s a s' ⟨howned, hawait⟩ hgood hstep
  exact ⟨howned.step hstep, hawait.step howned hgood hstep⟩

/-- The worker thread waits in time, and the command wakes it. -/
theorem not_lostStart_after_start : ∃ s : Shm Unit, s.threads.pos .worker = WorkerAt.command .unlock ∧
    s.status = cidCommandStart ∧ ¬ s.LostStart := by
  have h0 : Transition.Reaches step WaitsInTime (init : Shm Unit) _ := .start
  have h1 := h0.step (Act.goOn .worker false) trivial rfl
  have h2 := h1.step (Act.goOn .worker false) trivial rfl
  have h3 := h2.step (Act.goOn .worker false) trivial rfl
  have h4 := h3.step (Act.exec .worker) (fun _ h => nomatch h) rfl
  have h5 := h4.step (Act.exec .worker) (fun _ _ hstart => nomatch hstart.2) rfl
  have h6 := h5.step (Act.setStatus cidCommandStart) trivial rfl
  have h7 := h6.step Act.write trivial rfl
  have h8 := h7.step (Act.goOn .main false) trivial rfl
  have h9 := h8.step (Act.exec .main) (fun _ h => nomatch h) rfl
  have h10 := h9.step (Act.exec .main) (fun _ h => nomatch h) rfl
  have h11 := h10.step (Act.exec .main) (fun _ h => nomatch h) rfl
  have h12 := h11.step (Act.exec .worker) (fun _ h => nomatch h) rfl
  exact ⟨_, rfl, rfl, not_lostStart_of_waitsInTime h12⟩

/-- Any other step is a wait for a command that has already been given. -/
theorem lostStart_of_not_waitsInTime (hbad : ¬ s.WaitsInTime a) (h : step a s = some s') : s'.LostStart := by
  cases a with
  | exec t =>
    simp only [WaitsInTime, not_forall, not_not] at hbad
    obtain ⟨next, hwait, hidle, hstart⟩ := hbad
    obtain ⟨threads, hexec, hs'⟩ := Option.bind_eq_some_iff.mp h
    obtain rfl := Option.some.inj hs'
    have ht : t ≠ .main := by
      rintro rfl
      rw [hidle] at hwait
      cases hwait
    obtain ⟨_, _, hpos⟩ := Threads.exec_pos _ hexec
    rw [hwait] at hexec
    refine ⟨?_, hstart, t, Threads.mem_waiting_of_wait _ hexec⟩
    exact (congrFun hpos _).trans ((Function.update_of_ne ht.symm ..).trans hidle)
  | _ => exact absurd trivial hbad

/-- The worker thread finds the status 0 and goes for `commandLock`. -/
def workerFindsStop : List (Act Unit) :=
  [.goOn .worker false, .goOn .worker false, .goOn .worker false]

/-- `setStatus(status)` for a status with the `START` bit -/
def setStart : List (Act Unit) :=
  [.setStatus cidCommandStart, .write, .goOn .main false, .exec .main, .exec .main, .exec .main]

/-- The command comes between the worker thread's test and its wait. -/
theorem lostStart_reachable : ∃ s : Shm Unit, Transition.Reachable step init s ∧ s.LostStart :=
  ⟨_, Transition.reachable_of_run (workerFindsStop ++ setStart ++ [.exec .worker, .exec .worker]) rfl,
    rfl, rfl, .worker, by decide⟩

end Shm

end PostfixEdm
