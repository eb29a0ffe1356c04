import PostfixEdm.Lib.CondLock
import PostfixEdm.Lib.Transition
import PostfixEdm.Pdu.Types

/-!
# The loops around the shared memory: `cWorker::setStatus` and the three `On…Run`

The main thread, the worker thread, the master and its children meet at `shm_ptr`: at its `status` and at its
four locks. Each loop is a program over the locks; a statement that touches no lock is a position of its own
where the status is read or the loop branches.

* `NotifyAt`, `AwaitAt`, `CheckAt` : `COND_LOCK_NOTIFYALL`, the wait for a command and `CHECK_CAN_START`, which
  the loops share;
* `MainAt`, `WorkerAt`, `MasterAt`, `ChildAt` : the four programs, each with its `code`, its other statements
  (`goOn`) and the locks it holds (`held`);
* `Shm.step` : a statement of anyone, in any order; `Shm.owned` : every lock belongs to whom `held` says.
-/

namespace PostfixEdm

open CondLock

/-- The locks of `shm_shared_t`. -/
inductive ShmLock
  | childLock | commandLock | productLock | consumeLock
  deriving DecidableEq, Repr

/-- Who uses the shared memory; the children are `κ`. -/
inductive Party (κ : Type)
  | main | worker | master
  | child (k : κ)
  deriving DecidableEq, Repr

/-! ## What the loops share -/

/-- `COND_LOCK_NOTIFYALL(cond)` -/
inductive NotifyAt
  | lock | notifyAll | unlock
  deriving DecidableEq, Repr

/-- `cond.Lock(); cond.wait(); cond.Unlock();` -/
inductive AwaitAt
  | lock | wait | waiting | unlock
  deriving DecidableEq, Repr

/-- `CHECK_CAN_START(shm_ptr)` reads the status once for each bit. -/
inductive CheckAt
  | start | resume
  deriving DecidableEq, Repr

section
variable {ρ : Type}

def NotifyAt.code (cond : ShmLock) (here : NotifyAt → ρ) (next : ρ) : NotifyAt → Stmt ShmLock ρ
  | lock => .lock cond (here notifyAll)
  | notifyAll => .notifyAll cond (here unlock)
  | unlock => .unlock cond next

def NotifyAt.held (cond : ShmLock) : NotifyAt → ShmLock → Bool
  | lock => fun _ => false
  | notifyAll | unlock => fun l => l = cond

def AwaitAt.code (cond : ShmLock) (here : AwaitAt → ρ) (next : ρ) : AwaitAt → Stmt ShmLock ρ
  | lock => .lock cond (here wait)
  | wait => .wait cond (here waiting)
  | waiting => .waiting cond (here unlock)
  | unlock => .unlock cond next

def AwaitAt.held (cond : ShmLock) : AwaitAt → ShmLock → Bool
  | lock | waiting => fun _ => false
  | wait | unlock => fun l => l = cond

def CheckAt.goOn (status : UInt16) (here : CheckAt → ρ) (yes no : ρ) : CheckAt → ρ
  | start => if status &&& cidCommandStart ≠ 0 then yes else here resume
  | resume => if status &&& cidCommandResume ≠ 0 then yes else no

theorem CheckAt.goOn_of_forall {status : UInt16} {here : CheckAt → ρ} {yes no : ρ} (P : ρ → Prop) (a : CheckAt)
    (hhere : ∀ a, P (here a)) (hyes : P yes) (hno : P no) : P (a.goOn status here yes no) := by
  cases a with
  | start =>
    rw [goOn]
    split
    · exact hyes
    · exact hhere .resume
  | resume =>
    rw [goOn]
    split
    · exact hyes
    · exact hno

end

/-- `CHECK_CAN_START(shm_ptr)` for one value of the status. -/
def canStart (status : UInt16) : Bool := status &&& cidCommandStart ≠ 0 || status &&& cidCommandResume ≠ 0

/-! ## The main thread: `cWorker::setStatus` -/

inductive MainAt
  | idle
  | write (status : UInt16)
  | check (a : CheckAt)
  | notify (a : NotifyAt)
  deriving DecidableEq, Repr

namespace MainAt

def code : MainAt → Stmt ShmLock MainAt
  | notify a => a.code .commandLock notify idle
  | idle | write _ | check _ => .other

def goOn (status : UInt16) : MainAt → Option MainAt
  | check a => some (a.goOn status check (notify .lock) idle)
  | _ => none

def held : MainAt → ShmLock → Bool
  | notify a => a.held .commandLock
  | idle | write _ | check _ => fun _ => false

end MainAt

/-! ## The worker thread: `cWorkerThread::OnThreadRun` -/

inductive WorkerAt
  | waitpid
  | check (a : CheckAt)
  | lockProduct
  | haveSendInfo
  | notifyConsume (a : NotifyAt)
  | waitProduct
  | waitingProduct
  | unlockProduct
  | sleep
  | command (a : AwaitAt)
  deriving DecidableEq, Repr

namespace WorkerAt

def code : WorkerAt → Stmt ShmLock WorkerAt
  | lockProduct => .lock .productLock haveSendInfo
  | notifyConsume a => a.code .consumeLock notifyConsume waitProduct
  | waitProduct => .wait .productLock waitingProduct
  | waitingProduct => .waiting .productLock unlockProduct
  | unlockProduct => .unlock .productLock sleep
  | command a => a.code .commandLock command waitpid
  | waitpid | check _ | haveSendInfo | sleep => .other

/-- `found` : what `_haveSendInfo` returns. -/
def goOn (status : UInt16) (found : Bool) : WorkerAt → Option WorkerAt
  | waitpid => some (check .start)
  | check a => some (a.goOn status check lockProduct (command .lock))
  | haveSendInfo => some (if found then notifyConsume .lock else unlockProduct)
  | sleep => some waitpid
  | _ => none

def held : WorkerAt → ShmLock → Bool
  | haveSendInfo | waitProduct | unlockProduct => fun l => l = .productLock
  | notifyConsume a => fun l => l = .productLock || a.held .consumeLock l
  | command a => a.held .commandLock
  | waitpid | check _ | lockProduct | waitingProduct | sleep => fun _ => false

end WorkerAt

/-! ## The master: `cMasterProcess::OnChildRun` -/

/-- `adjust` : the adjustment of the children and the sleep after it. -/
inductive MasterAt
  | check (a : CheckAt)
  | adjust
  | command (a : AwaitAt)
  deriving DecidableEq, Repr

namespace MasterAt

def code : MasterAt → Stmt ShmLock MasterAt
  | command a => a.code .commandLock command (check .start)
  | check _ | adjust => .other

def goOn (status : UInt16) : MasterAt → Option MasterAt
  | check a => some (a.goOn status check adjust (command .lock))
  | adjust => some (check .start)
  | _ => none

def held : MasterAt → ShmLock → Bool
  | command a => a.held .commandLock
  | check _ | adjust => fun _ => false

end MasterAt

/-! ## A child: `cChildProcess::OnChildRun` -/

/-- `gone` : no such process. `unlockChild mail` : the `childLock` is about to be given back, and `mail` says
whether the queue has anything. -/
inductive ChildAt
  | gone
  | top
  | check (a : CheckAt)
  | lockChild
  | pull
  | unlockChild (mail : Bool)
  | send
  | lockConsume
  | notifyProduct (a : NotifyAt)
  | waitConsume
  | waitingConsume
  | unlockConsume
  | command (a : AwaitAt)
  deriving DecidableEq, Repr

namespace ChildAt

def code : ChildAt → Stmt ShmLock ChildAt
  | lockChild => .lock .childLock pull
  | unlockChild mail => .unlock .childLock (if mail then send else lockConsume)
  | lockConsume => .lock .consumeLock (notifyProduct .lock)
  | notifyProduct a => a.code .productLock notifyProduct waitConsume
  | waitConsume => .wait .consumeLock waitingConsume
  | waitingConsume => .waiting .consumeLock unlockConsume
  | unlockConsume => .unlock .consumeLock top
  | command a => a.code .commandLock command top
  | gone | top | check _ | pull | send => .other

/-- `found` : at the top, that the child is to quit; after the pull, that there is mail. -/
def goOn (status : UInt16) (found : Bool) : ChildAt → Option ChildAt
  | top => some (if found then gone else check .start)
  | check a => some (a.goOn status check lockChild (command .lock))
  | pull => some (unlockChild found)
  | send => some top
  | _ => none

def held : ChildAt → ShmLock → Bool
  | pull | unlockChild _ => fun l => l = .childLock
  | notifyProduct a => fun l => l = .consumeLock || a.held .productLock l
  | waitConsume | unlockConsume => fun l => l = .consumeLock
  | command a => a.held .commandLock
  | gone | top | check _ | lockChild | send | lockConsume | waitingConsume => fun _ => false

end ChildAt

/-! ## All of them together -/

namespace Party

variable {κ : Type}

abbrev At : Party κ → Type
  | main => MainAt
  | worker => WorkerAt
  | master => MasterAt
  | child _ => ChildAt

def code : (t : Party κ) → t.At → Stmt ShmLock t.At
  | main => MainAt.code
  | worker => WorkerAt.code
  | master => MasterAt.code
  | child _ => ChildAt.code

def goOn (status : UInt16) (found : Bool) : (t : Party κ) → t.At → Option t.At
  | main => MainAt.goOn status
  | worker => WorkerAt.goOn status found
  | master => MasterAt.goOn status
  | child _ => ChildAt.goOn status found

def held : (t : Party κ) → t.At → ShmLock → Bool
  | main => MainAt.held
  | worker => WorkerAt.held
  | master => MasterAt.held
  | child _ => ChildAt.held

end Party

/-- The shared memory and the positions of all who use it. -/
structure Shm (κ : Type) where
  status : UInt16
  threads : Threads ShmLock (Party.At (κ := κ))

namespace Shm

variable {κ : Type}

def startAt : (t : Party κ) → t.At
  | .main => MainAt.idle
  | .worker => WorkerAt.waitpid
  | .master => MasterAt.check .start
  | .child _ => ChildAt.gone

/-- `_init_shm`, before any command; the master has been forked and has no children yet. -/
def init : Shm κ := ⟨0, startAt, fun _ => none, fun _ => ∅⟩

variable [DecidableEq κ]

def goto (s : Shm κ) (t : Party κ) (next : t.At) : Shm κ := { s with threads := s.threads.goto t next }

/-- What can happen: a call of `setStatus` and its write, a statement with a lock, another statement, a new
child, and a wait that ends by itself. -/
inductive Act (κ : Type)
  | setStatus (status : UInt16)
  | write
  | exec (t : Party κ)
  | goOn (t : Party κ) (found : Bool)
  | fork (k : κ)
  | wakeup (t : Party κ) (l : ShmLock)

def step : Act κ → Shm κ → Option (Shm κ)
  | .setStatus status, s =>
    if s.threads.pos .main = MainAt.idle then some (s.goto .main (.write status)) else none
  | .write, s =>
    match s.threads.pos .main with
    | MainAt.write status => some { s.goto .main (.check .start) with status := status }
    | _ => none
  | .exec t, s => do
    let threads ← s.threads.exec t (t.code (s.threads.pos t))
    some { s with threads := threads }
  | .goOn t found, s => do
    let next ← t.goOn s.status found (s.threads.pos t)
    some (s.goto t next)
  | .fork k, s =>
    if s.threads.pos .master = MasterAt.adjust ∧ s.threads.pos (.child k) = ChildAt.gone then
      some (s.goto (.child k) .top)
    else none
  | .wakeup t l, s => some { s with threads := s.threads.wakeup t l }

end Shm

/-! ## Who holds what -/

theorem MainAt.keeps (a : MainAt) : a.code.Keeps MainAt.held a := by
  rcases a with _ | _ | _ | a
  case notify =>
    cases a
    case notifyAll => rfl
    all_goals exact ⟨rfl, funext fun l => by cases l <;> rfl⟩
  all_goals trivial

theorem WorkerAt.keeps (a : WorkerAt) : a.code.Keeps WorkerAt.held a := by
  cases a
  case notifyConsume a =>
    cases a
    case notifyAll => rfl
    all_goals exact ⟨rfl, funext fun l => by cases l <;> rfl⟩
  case command a => cases a <;> exact ⟨rfl, funext fun l => by cases l <;> rfl⟩
  case waitpid | check | haveSendInfo | sleep => trivial
  all_goals exact ⟨rfl, funext fun l => by cases l <;> rfl⟩

theorem MasterAt.keeps (a : MasterAt) : a.code.Keeps MasterAt.held a := by
  cases a
  case command a => cases a <;> exact ⟨rfl, funext fun l => by cases l <;> rfl⟩
  all_goals trivial

theorem ChildAt.keeps (a : ChildAt) : a.code.Keeps ChildAt.held a := by
  cases a
  case notifyProduct a =>
    cases a
    case notifyAll => rfl
    all_goals exact ⟨rfl, funext fun l => by cases l <;> rfl⟩
  case command a => cases a <;> exact ⟨rfl, funext fun l => by cases l <;> rfl⟩
  case unlockChild mail => cases mail <;> exact ⟨rfl, funext fun l => by cases l <;> rfl⟩
  case gone | top | check | pull | send => trivial
  all_goals exact ⟨rfl, funext fun l => by cases l <;> rfl⟩

namespace Party

variable {κ : Type}

/-- Every program agrees with its table. -/
theorem keeps (t : Party κ) (a : t.At) : (t.code a).Keeps t.held a := by
  cases t with
  | main => exact MainAt.keeps a
  | worker => exact WorkerAt.keeps a
  | master => exact MasterAt.keeps a
  | child k => exact ChildAt.keeps a

theorem held_goOn {status : UInt16} {found : Bool} (t : Party κ) {a next : t.At}
    (h : t.goOn status found a = some next) : t.held next = t.held a := by
  cases t with
  | main =>
    cases a
    case check a =>
      obtain rfl := Option.some.inj h
      exact a.goOn_of_forall (fun next => MainAt.held next = fun _ => false) (fun _ => rfl) rfl rfl
    all_goals cases h
  | worker =>
    cases a
    case waitpid | sleep => exact Option.some.inj h ▸ rfl
    case check a =>
      obtain rfl := Option.some.inj h
      exact a.goOn_of_forall (fun next => WorkerAt.held next = fun _ => false) (fun _ => rfl) rfl rfl
    case haveSendInfo =>
      obtain rfl := Option.some.inj h
      cases found <;> exact funext fun l => by cases l <;> rfl
    all_goals cases h
  | master =>
    cases a
    case check a =>
      obtain rfl := Option.some.inj h
      exact a.goOn_of_forall (fun next => MasterAt.held next = fun _ => false) (fun _ => rfl) rfl rfl
    case adjust => exact Option.some.inj h ▸ rfl
    all_goals cases h
  | child k =>
    cases a
    case check a =>
      obtain rfl := Option.some.inj h
      exact a.goOn_of_forall (fun next => ChildAt.held next = fun _ => false) (fun _ => rfl) rfl rfl
    case top =>
      obtain rfl := Option.some.inj h
      cases found <;> rfl
    case pull | send => exact Option.some.inj h ▸ rfl
    all_goals cases h

end Party

namespace Shm

variable {κ : Type} {s s' : Shm κ}

abbrev Owned (s : Shm κ) : Prop := CondLock.Owned Party.held s.threads

theorem owned_init : (init : Shm κ).Owned := by
  intro l t
  refine iff_of_false (Option.some_ne_none t ∘ Eq.symm) ?_
  cases t <;> exact Bool.noConfusion

variable [DecidableEq κ]

theorem step_write (h : step .write s = some s') : ∃ status, s.threads.pos .main = MainAt.write status ∧
    s' = { s.goto .main (.check .start) with status := status } := by
  cases hpos : s.threads.pos .main with
  | write status =>
    simp only [step, hpos, Option.some.injEq] at h
    exact ⟨status, rfl, h.symm⟩
  | idle | check | notify => simp only [step, hpos, reduceCtorEq] at h

theorem Owned.step (h : s.Owned) {a : Act κ} (hstep : step a s = some s') : s'.Owned := by
  cases a with
  | setStatus status =>
    simp only [Shm.step, Option.ite_none_right_eq_some, Option.some.injEq] at hstep
    obtain ⟨hidle, rfl⟩ := hstep
    exact h.goto (by rw [hidle]; rfl)
  | write =>
    obtain ⟨status, hwrite, rfl⟩ := step_write hstep
    exact h.goto (by rw [hwrite]; rfl)
  | exec t =>
    obtain ⟨threads, hexec, hs'⟩ := Option.bind_eq_some_iff.mp hstep
    obtain rfl := Option.some.inj hs'
    exact h.exec (t.keeps _) hexec
  | goOn t found =>
    obtain ⟨next, hnext, hs'⟩ := Option.bind_eq_some_iff.mp hstep
    obtain rfl := Option.some.inj hs'
    exact h.goto (t.held_goOn hnext)
  | fork k =>
    simp only [Shm.step, Option.ite_none_right_eq_some, Option.some.injEq] at hstep
    obtain ⟨⟨_, hgone⟩, rfl⟩ := hstep
    exact h.goto (by rw [hgone]; rfl)
  | wakeup t l =>
    obtain rfl := Option.some.inj hstep
    exact h

/-- How a party comes to where it is after a step. -/
theorem step_pos {a : Act κ} (h : step a s = some s') (t : Party κ) :
    s'.threads.pos t = s.threads.pos t ∨
    (a = .exec t ∧ (t.code (s.threads.pos t)).next = some (s'.threads.pos t)) ∨
    (∃ found, a = .goOn t found ∧ t.goOn s.status found (s.threads.pos t) = some (s'.threads.pos t)) ∨
    t = .main ∨
    ∃ k, t = .child k ∧ s.threads.pos (.child k) = ChildAt.gone ∧ s'.threads.pos (.child k) = ChildAt.top := by
  cases a with
  | setStatus status =>
    simp only [step, Option.ite_none_right_eq_some, Option.some.injEq] at h
    obtain ⟨_, rfl⟩ := h
    by_cases ht : t = .main
    · exact .inr (.inr (.inr (.inl ht)))
    · exact .inl (Threads.goto_pos_of_ne _ _ _ ht)
  | write =>
    obtain ⟨status, _, rfl⟩ := step_write h
    by_cases ht : t = .main
    · exact .inr (.inr (.inr (.inl ht)))
    · exact .inl (Threads.goto_pos_of_ne _ _ _ ht)
  | exec u =>
    obtain ⟨threads, hexec, hs'⟩ := Option.bind_eq_some_iff.mp h
    obtain rfl := Option.some.inj hs'
    obtain ⟨next, hnext, hpos⟩ := Threads.exec_pos u hexec
    by_cases ht : t = u
    · subst ht
      exact .inr (.inl ⟨rfl, hnext.trans (by rw [hpos, Function.update_self])⟩)
    · exact .inl ((congrFun hpos t).trans (Function.update_of_ne ht ..))
  | goOn u found =>
    obtain ⟨next, hnext, hs'⟩ := Option.bind_eq_some_iff.mp h
    obtain rfl := Option.some.inj hs'
    by_cases ht : t = u
    · subst ht
      exact .inr (.inr (.inl ⟨found, rfl, hnext.trans (congrArg some (Threads.goto_pos_self ..).symm)⟩))
    · exact .inl (Threads.goto_pos_of_ne _ _ _ ht)
  | fork k =>
    simp only [step, Option.ite_none_right_eq_some, Option.some.injEq] at h
    obtain ⟨⟨_, hgone⟩, rfl⟩ := h
    by_cases ht : t = .child k
    · exact .inr (.inr (.inr (.inr ⟨k, ht, hgone, Threads.goto_pos_self ..⟩)))
    · exact .inl (Threads.goto_pos_of_ne _ _ _ ht)
  | wakeup u l =>
    obtain rfl := Option.some.inj h
    exact .inl rfl

/-- In every reachable state each lock belongs to the one whose program says so. -/
theorem owned (h : Transition.Reachable step (init : Shm κ) s) : s.Owned :=
  h.invariant owned_init fun _ _ _ hs _ hstep => hs.step hstep

end Shm

end PostfixEdm
