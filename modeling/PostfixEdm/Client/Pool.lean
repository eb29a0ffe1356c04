import PostfixEdm.Lib.Transition
import Mathlib.Data.Finset.Card
import Mathlib.Logic.Function.Basic

/-!
# The pool of mail children: `cMasterProcess::OnChildRun` and `sigChldHandler`

The master adjusts the number of its children, statement by statement, and `sigChldHandler` may run between
any two statements. Children stop, go on and end as they like.

* `Child`, `Phase`, `Pool` : a child as the kernel sees it, the next statement of the adjustment, and the
  master with its children;
* `Pool.waitpid`, `Pool.sigChldHandler` : the handler's call and what it does with the answer;
* `Pool.pass` : the next statement of the adjustment;
* `Pool.step` : everything that can happen; `Pool.Quiescent` : nothing is under way.
-/

namespace PostfixEdm

abbrev Pid := Int

def sigUsr1 : UInt8 := 10

/-- How a process ends. -/
inductive Ending
  | exited (code : UInt8)
  | signaled (sig : UInt8)
  deriving DecidableEq, Repr

/-- What `waitpid` leaves in `status`; one that stays 0 reads as an exit with code 0. -/
inductive WaitStatus
  | ended (e : Ending)
  | stopped (sig : UInt8)
  deriving DecidableEq, Repr

/-- A stop is reported once. -/
inductive ChildState
  | running
  | stopped (sig : UInt8) (reported : Bool)
  | zombie (e : Ending)
  deriving DecidableEq, Repr

namespace ChildState

/-- A process that is stopped runs no `exit`. -/
def canEnd : ChildState → Ending → Bool
  | .running, _ => true
  | .stopped _ _, .signaled _ => true
  | _, _ => false

def isStopped : ChildState → Bool
  | .stopped _ _ => true
  | _ => false

def alive : ChildState → Bool
  | running | stopped _ _ => true
  | zombie _ => false

/-- `waitpid` has something to report of it. -/
def changed : ChildState → Bool
  | running | stopped _ true => false
  | stopped _ false | zombie _ => true

end ChildState

/-- `retired` : the master has sent it `SIGUSR1`. -/
structure Child where
  state : ChildState
  retired : Bool
  deriving DecidableEq, Repr

/-- The statement of the loop over `childProcessMap` that comes next. -/
inductive Stage
  | kill | decrement | erase
  deriving DecidableEq, Repr

/-- Where the adjustment stands. `left` is what remains of `reduceProcessNum` and `incProcessNum`; `it` lists
the entries from the iterator on, so it is empty at `end()`. -/
inductive Phase
  | idle
  | compare (processNum : UInt16)
  | planReduce (processNum : UInt16)
  | planIncrease (processNum : UInt16)
  | reduce (left : Nat) (it : List Pid)
  | retire (next : Stage) (left : Nat) (itOld : Pid) (it : List Pid)
  | increase (left : Nat)
  | insert (cid : Pid) (left : Nat)
  | count (cid : Pid) (left : Nat)
  deriving DecidableEq, Repr

/-- The master. `children` are the processes it has forked and not waited for; of `child` only their values
matter. -/
structure Pool where
  childNum : UInt16
  childProcessMap : Finset Pid
  phase : Phase
  children : Finset Pid
  child : Pid → Child
  pending : Bool
  inHandler : Bool

/-- An erased entry leaves the part of the iteration that is still to come; an iterator that stands on it
keeps pointing at it. -/
def eraseBehind (p : Pid) : List Pid → List Pid
  | [] => []
  | x :: rest => x :: rest.erase p

namespace Phase

def eraseEntry (p : Pid) : Phase → Phase
  | .reduce left it => .reduce left (eraseBehind p it)
  | .retire next left itOld it => .retire next left itOld (eraseBehind p it)
  | phase => phase

/-- The entries that the pass has an iterator on. -/
def iterators : Phase → List Pid
  | .reduce _ it => it.take 1
  | .retire _ _ itOld it => itOld :: it.take 1
  | _ => []

end Phase

namespace Pool

/-- A fresh master: `_forkMasterProcess` leaves the map empty and the counter at 0. -/
def init : Pool := ⟨0, ∅, .idle, ∅, fun _ => ⟨.running, false⟩, false, false⟩

def setState (s : Pool) (p : Pid) (state : ChildState) : Pool :=
  { s with child := Function.update s.child p { s.child p with state := state } }

/-- `kill(p, SIGUSR1)` -/
def setRetired (s : Pool) (p : Pid) : Pool :=
  { s with child := Function.update s.child p { s.child p with retired := true } }

/-- `waitpid(-1, &status, WNOHANG | WUNTRACED)`: the answer and the status. `found` is the child that the
kernel reports; without one the answer is 0, or -1 when there is no child at all. -/
def waitpid (found : Option Pid) (s : Pool) : Option (Pid × WaitStatus × Pool) :=
  match found with
  | some p =>
    if p ∈ s.children then
      match (s.child p).state with
      | .zombie e => some (p, .ended e, { s with children := s.children.erase p })
      | .stopped sig false => some (p, .stopped sig, s.setState p (.stopped sig true))
      | _ => none
    else none
  | none =>
    if ∀ p ∈ s.children, (s.child p).state.changed = false then
      some (if s.children = ∅ then -1 else 0, .ended (.exited 0), s)
    else none

/-- `sigChldHandler` after its `waitpid`. -/
def sigChldHandler (chldPid : Pid) (status : WaitStatus) (s : Pool) : Pool :=
  if chldPid < 0 then s
  else if status = .ended (.exited sigUsr1) then s
  else { s with
    childProcessMap := s.childProcessMap.erase chldPid
    childNum := s.childNum - 1
    phase := s.phase.eraseEntry chldPid }

/-- The next statement of the adjustment. `multi` is what the shared memory says, `order` the order of the
map's entries, `cid` the id of a new child. When `fork` fails the master exits. -/
def pass (multi : UInt16) (order : List Pid) (cid : Pid) (s : Pool) : Option Pool :=
  match s.phase with
  | .idle => some { s with phase := .compare multi }
  | .compare processNum =>
    some { s with phase := if processNum < s.childNum then .planReduce processNum else .planIncrease processNum }
  | .planReduce processNum =>
    if order.Nodup ∧ order.toFinset = s.childProcessMap then
      some { s with phase := .reduce (s.childNum - processNum).toNat order }
    else none
  | .planIncrease processNum => some { s with phase := .increase (processNum - s.childNum).toNat }
  | .reduce (left + 1) (itOld :: it) => some { s with phase := .retire .kill left itOld it }
  | .reduce _ _ => some { s with phase := .idle }
  | .retire .kill left itOld it =>
    some { s.setRetired itOld with phase := .retire .decrement left itOld it }
  | .retire .decrement left itOld it =>
    some { s with childNum := s.childNum - 1, phase := .retire .erase left itOld it }
  | .retire .erase left itOld it =>
    some { s with childProcessMap := s.childProcessMap.erase itOld, phase := .reduce left it }
  | .increase (left + 1) =>
    if 0 < cid ∧ cid ∉ s.children then
      some { s with
        children := Insert.insert cid s.children
        child := Function.update s.child cid ⟨.running, false⟩
        phase := .insert cid left }
    else none
  | .increase 0 => some { s with phase := .idle }
  | .insert cid left =>
    some { s with childProcessMap := Insert.insert cid s.childProcessMap, phase := .count cid left }
  | .count _ left => some { s with childNum := s.childNum + 1, phase := .increase left }

/-- What can happen: a statement of the adjustment, a change of a child, a delivery of `SIGCHLD` and a run of
the handler. -/
inductive Act
  | pass (multi : UInt16) (order : List Pid) (cid : Pid)
  | finish (p : Pid) (e : Ending)
  | stop (p : Pid) (sig : UInt8)
  | cont (p : Pid)
  | deliver
  | handle (found : Option Pid)

def step : Act → Pool → Option Pool
  | .pass multi order cid, s => if s.inHandler then none else s.pass multi order cid
  | .finish p e, s =>
    if p ∈ s.children ∧ (s.child p).state.canEnd e then
      some { s.setState p (.zombie e) with pending := true }
    else none
  | .stop p sig, s =>
    if p ∈ s.children ∧ (s.child p).state = .running then
      some { s.setState p (.stopped sig false) with pending := true }
    else none
  | .cont p, s =>
    if p ∈ s.children ∧ (s.child p).state.isStopped then some { s.setState p .running with pending := true }
    else none
  | .deliver, s =>
    if s.pending ∧ ¬ s.inHandler then some { s with pending := false, inHandler := true } else none
  | .handle found, s =>
    if s.inHandler then do
      let (chldPid, status, s) ← s.waitpid found
      some { s.sigChldHandler chldPid status with inHandler := false }
    else none

/-- No `SIGCHLD` is pending, and neither the handler nor an adjustment is in progress. -/
def Quiescent (s : Pool) : Prop := s.phase = .idle ∧ s.pending = false ∧ s.inHandler = false

/-- The children that are alive and have not been retired. -/
def inService (s : Pool) : Finset Pid :=
  s.children.filter fun p => (s.child p).state.alive = true ∧ (s.child p).retired = false

end Pool

end PostfixEdm
