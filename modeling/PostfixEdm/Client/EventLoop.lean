import PostfixEdm.Client.ClientConn
import PostfixEdm.Event.Dispatch
import PostfixEdm.Lib.Transition
import Mathlib.Order.Lattice.Nat

/-!
# The client's event loop

* `ClientConn.connClass` : `cClientConn`; `ClientConn.connectServer` : `connect_server`;
  `ClientConn.timerCallback` : its timer;
* `Client.step` : one entry of `epoll_wait`, the timer, or a `send_server_pdu`, on the state that the step before
  has left;
* `ClientConn.keeps`, `Client.kept_of_reachable` : no run uses NULL or an object that is gone;
* `Client.OneConnection` : there is exactly one connection; `Client.StaysOpen` : the steps that keep it: no handler
  of an event closes the connection;
* `Client.oneConnection_of_staysOpen` : what holds in every run of such steps.
-/

namespace PostfixEdm

/-- The descriptor that `socket` returns is not open. -/
structure Descriptors where
  socket : Finset Fd → Nat
  fresh : ∀ fds, (socket fds : Fd) ∉ fds

/-- What the client has besides its tables: the worker, the memory around a buffer, the texts of the heartbeats
that follow, and the descriptors of new sockets. -/
structure ClientWorld where
  worker : Job
  memory : Env
  status : Nat → List UInt8
  descriptors : Descriptors

abbrev ClientLoop := Loop Unit ClientWorld

def clientHeartbeatInterval : UInt64 := 5000

def serverTimeout : UInt64 := 30000

namespace ClientConn

/-! ## `cClientConn` -/

/-- `new cClientConn()` -/
def construct (s : ClientLoop) : ClientLoop :=
  { s.nextTick with conns := (s.conns.new ⟨invalidHandle, .init, s.env.now 0, s.env.now 0, ()⟩).2 }

/-- `netlib_connect`, which does not fail. -/
def netlibConnect (s : ClientLoop) : Nat × ClientLoop :=
  let fd := s.world.descriptors.socket s.sockets.map.keys
  (fd, { s with sockets := (s.sockets.new ⟨fd, .connecting, .imconnCallback, true⟩).2.insert fd s.sockets.next })

/-- `connect_server` and `cClientConn::connect` -/
def connectServer (s : ClientLoop) : Except Halt ClientLoop :=
  let (fd, s') := netlibConnect (construct s)
  s'.openHandle s.conns.next fd

/-- `cClientConn::close` -/
def close (id : Nat) (s : ClientLoop) : Except Halt ClientLoop := do
  let c ← s.conns.get id
  if c.handle ≠ invalidHandle then do
    let s ← s.dropHandle c.handle
    s.releaseConn id
  else s.releaseConn id

/-- `cClientConn::OnConfirm` -/
def sendOnConfirm (id : Nat) (s : ClientLoop) : Except Halt ClientLoop :=
  onConfirm.foldlM (fun s pdu => s.sendPdu id pdu) s

/-- The heartbeat of `cClientConn::OnTimer` -/
def sendHeartbeat (id : Nat) (s : ClientLoop) : Except Halt ClientLoop := do
  let s ← s.sendPdu id (.heartbeat (s.world.status 0))
  .ok { s with world := { s.world with status := fun i => s.world.status (i + 1) } }

/-- The timeout of `cClientConn::OnTimer` -/
def reconnectOnTimeout (currTick : UInt64) (id : Nat) (s : ClientLoop) : Except Halt ClientLoop := do
  let c ← s.conns.get id
  if c.lastRecvTick + serverTimeout < currTick then do
    let s ← s.remoteAddress c.handle
    let s ← close id s
    if s.conns.map.keys.card < 1 then connectServer s else .ok s
  else .ok s

/-- `cClientConn::OnTimer` -/
def onTimer (currTick : UInt64) (id : Nat) (s : ClientLoop) : Except Halt ClientLoop := do
  let c ← s.conns.get id
  if c.lastSendTick + clientHeartbeatInterval < currTick then do
    let s ← sendHeartbeat id s
    reconnectOnTimeout currTick id s
  else reconnectOnTimeout currTick id s

/-- `client_conn_timer_callback` -/
def timerCallback (s : ClientLoop) : Except Halt ClientLoop :=
  s.nextTick.forEachConn fun id s' => onTimer (s.env.now 0) id s'

/-- `send_server_pdu` -/
def sendServerPdu (pdu : OutPdu) (s : ClientLoop) : Except Halt ClientLoop :=
  s.forEachConn fun id s => s.sendPdu id pdu

/-- `cClientConn` overrides `OnConfirm`, `OnClose` and `HandlePdu`. A client does not listen. -/
def connClass (parse : JsonReader) : ConnClass Unit ClientWorld where
  onConnect := fun _ s => .ok s
  onConfirm := sendOnConfirm
  handlePdu := fun _ pdu buf s =>
    .ok { s with world := { s.world with worker := handlePdu parse (s.world.memory.mem buf) pdu s.world.worker } }
  onClose := close

/-! ## What the methods keep -/

section
open Loop RefTable

variable {so co : Nat → Nat} {s : ClientLoop}

/-- The new socket and the new connection have the same descriptor. -/
theorem connectServer_keeps (h : Inv none so co s) :
    Safe (connectServer s) fun s' => Inv none so co s' ∧
      ∃ fd id, fd ∉ s.conns.map ∧ s'.conns.map = s.conns.map.insert fd id := by
  have hnotin := s.world.descriptors.fresh s.sockets.map.keys
  rw [Finmap.mem_keys] at hnotin
  obtain ⟨ht, hmap, hreg⟩ := h.sockets.newEntry
    (a := ⟨s.world.descriptors.socket s.sockets.map.keys, .connecting, .imconnCallback, true⟩) hnotin rfl
  obtain ⟨hnew, _⟩ := h.conns.new ⟨invalidHandle, .init, s.env.now 0, s.env.now 0, ()⟩
  have hloose : ∀ k, s.conns.map.lookup k ≠ some s.conns.next := fun k hk => h.conns.ne_next_of_lookup hk rfl
  have hfree : ((s.world.descriptors.socket s.sockets.map.keys : Nat) : Fd) ∉ s.conns.map := fun hmem =>
    hnotin ((h.keys _).mp hmem).1
  refine (openHandle_spec (s := (netlibConnect (construct s)).2) hnew hloose hfree).mono
    fun s' ⟨t, hs', htc, hconns⟩ => ?_
  subst hs'
  refine ⟨⟨ht, htc, fun k => ?keys, fun k hk => ?valid, fun k sock hsock => ?wired⟩, _, _, hfree, hconns⟩
  case keys =>
    have hnone : (none : Option Fd) ≠ some k := (Option.some_ne_none k).symm
    have hmem : k ∈ s.conns.map ↔ k ∈ s.sockets.map := (h.keys k).trans (and_iff_left hnone)
    refine Iff.trans ?_ (and_iff_left hnone).symm
    change k ∈ t.map ↔ k ∈ ((s.sockets.new _).2.insert _ s.sockets.next).map
    rw [hconns]
    refine Finmap.mem_insert.trans ((or_congr_right hmem).trans ?_)
    rw [← Finmap.mem_insert, ← hmap]
    rfl
  case valid =>
    rcases Finmap.mem_insert.mp (hmap ▸ hk) with rfl | hold
    · exact natCast_ne_invalidHandle _
    · exact h.valid k hold
  case wired =>
    replace hsock := (hreg k).symm.trans hsock
    split at hsock
    · obtain rfl := Option.some.inj hsock
      refine ⟨rfl, rfl, fun hlistening => ?_⟩
      cases hlistening
    · exact h.wired k sock hsock

theorem close_keeps (h : Inv none so co s) {fd : Fd} {id : Nat} (hid : s.conns.map.lookup fd = some id) :
    Safe (close id s) fun s' => Inv none so co s' ∧ s'.conns.map = s.conns.map.erase fd := by
  refine (h.getConn hid).bind fun c ⟨hfd, hvalid⟩ => ?_
  rw [if_pos hvalid, hfd]
  exact h.dropConn hid

theorem sendOnConfirm_keeps (h : Inv none so co s) {id : Nat} (hid : Held co s.conns id) :
    Safe (sendOnConfirm id s) fun s' => Inv none so co s' ∧ Frame s s' := by
  apply Safe.foldlM (I := fun _ s' => Inv none so co s' ∧ Frame s s') ?send ⟨h, .refl s⟩
  intro s₁ pdu _ ⟨h₁, hframe₁⟩
  exact (h₁.sendPdu (hframe₁.held hid) pdu).mono fun s₂ ⟨h₂, hframe₂⟩ => ⟨h₂, hframe₁.trans hframe₂⟩

/-- `cClientConn` does its part. -/
theorem keeps (parse : JsonReader) : (connClass parse).Keeps none where
  onConnect := nofun
  onConfirm := fun h hid => sendOnConfirm_keeps h hid
  handlePdu := fun _ _ h _ => Safe.ok ⟨h.setEnv _ _, (Frame.refl _).setEnv _ _⟩
  onClose := fun h hid => close_keeps h hid

end

end ClientConn

/-- There is exactly one connection. -/
def Client.OneConnection (s : ClientLoop) : Prop := s.conns.map.keys.card = 1

namespace ClientConn

section
open Loop RefTable Client

variable {so co : Nat → Nat} {s : ClientLoop}

/-- What a round of a loop over all connections keeps. -/
def RoundKeeps (so co : Nat → Nat) (fd : Fd) (s s' : ClientLoop) : Prop :=
  Inv none so co s' ∧ (OneConnection s → OneConnection s') ∧ ∀ k, k ≠ fd → k ∈ s.conns.map → k ∈ s'.conns.map

theorem oneConnection_of_frame {s' : ClientLoop} (hframe : Frame s s') (h : OneConnection s) : OneConnection s' := by
  unfold OneConnection
  rw [hframe.conns]
  exact h

theorem oneConnection_of_insert {s' : ClientLoop} (hnone : s.conns.map.keys = ∅) {fd : Fd} {id : Nat}
    (hmap : s'.conns.map = s.conns.map.insert fd id) : OneConnection s' := by
  refine Finset.card_eq_one.mpr ⟨fd, Finset.ext fun k => ?_⟩
  rw [hmap, Finmap.mem_keys, Finmap.mem_insert, ← Finmap.mem_keys, hnone, Finset.mem_singleton]
  exact or_iff_left (Finset.notMem_empty k)

theorem reconnectOnTimeout_keeps (h : Inv none so co s) {fd : Fd} {id : Nat} (hid : s.conns.map.lookup fd = some id)
    (currTick : UInt64) : Safe (reconnectOnTimeout currTick id s) (RoundKeeps so co fd s) := by
  refine (h.getConn hid).bind fun c ⟨hfd, _⟩ => ?_
  split
  · rw [hfd]
    refine (h.remoteAddress_of_lookup hid).bind fun s₁ ⟨h₁, hmap₁, hid₁⟩ => ?_
    refine (close_keeps h₁ hid₁).bind fun s₂ ⟨h₂, hmap₂⟩ => ?_
    rw [hmap₁] at hmap₂
    have hothers : ∀ k, k ≠ fd → k ∈ s.conns.map → k ∈ s₂.conns.map := fun k hk hmem => mem_of_erase hmap₂ hk hmem
    split
    · next hnone =>
      refine (connectServer_keeps h₂).mono fun s₃ ⟨h₃, k, j, hfree, hmap₃⟩ => ⟨h₃, fun _ => ?_, fun k hk hmem => ?_⟩
      · exact oneConnection_of_insert (Finset.card_eq_zero.mp (Nat.lt_one_iff.mp hnone)) hmap₃
      · rw [hmap₃]
        exact Finmap.mem_insert.mpr (.inr (hothers k hk hmem))
    · next hsome =>
      refine Safe.ok ⟨h₂, fun hone => absurd ?_ hsome, hothers⟩
      rw [hmap₂, Finmap.keys_erase, Finset.card_erase_of_mem (Finmap.mem_keys.mpr (Finmap.mem_of_lookup_eq_some hid)),
        show s.conns.map.keys.card = 1 from hone]
      exact Nat.one_pos
  · exact Safe.ok ⟨h, fun hone => hone, fun _ _ hmem => hmem⟩

theorem onTimer_keeps (h : Inv none so co s) {fd : Fd} {id : Nat} (hid : s.conns.map.lookup fd = some id)
    (currTick : UInt64) : Safe (onTimer currTick id s) (RoundKeeps so co fd s) := by
  refine (h.conns.get (held_of_lookup hid)).bind fun c _ => ?_
  split
  · refine Safe.bind (P := fun s₁ => Inv none so co s₁ ∧ Frame s s₁) ?heartbeat fun s₁ ⟨h₁, hframe₁⟩ => ?_
    case heartbeat =>
      refine (h.sendPdu (held_of_lookup hid) _).bind fun s₁ ⟨h₁, hframe₁⟩ => ?_
      exact Safe.ok ⟨h₁.setEnv _ _, hframe₁.setEnv _ _⟩
    have hid₁ : s₁.conns.map.lookup fd = some id := by rw [hframe₁.conns, hid]
    refine (reconnectOnTimeout_keeps h₁ hid₁ currTick).mono fun s₂ ⟨h₂, hone₂, hothers₂⟩ => ⟨h₂, fun hone => ?_, ?_⟩
    · exact hone₂ (oneConnection_of_frame hframe₁ hone)
    · rw [← hframe₁.conns]
      exact hothers₂
  · exact reconnectOnTimeout_keeps h hid currTick

/-- A loop whose rounds keep what they should. -/
theorem forEachConn_keeps (h : Inv none so co s) {f : Nat → ClientLoop → Except Halt ClientLoop}
    (hround : ∀ s₁ fd id, Inv none so co s₁ → s₁.conns.map.lookup fd = some id →
      Safe (f id s₁) (RoundKeeps so co fd s₁)) :
    Safe (s.forEachConn f) fun s' => Inv none so co s' ∧ (OneConnection s → OneConnection s') := by
  apply safe_forEachConn (P := fun s' => Inv none so co s' ∧ (OneConnection s → OneConnection s')) ⟨h, fun hone => hone⟩
  intro s₁ fd id ⟨h₁, hone₁⟩ hid
  refine (hround s₁ fd id h₁ hid).mono fun s₂ ⟨h₂, hone₂, hothers₂⟩ => ?_
  exact ⟨⟨h₂, fun hone => hone₂ (hone₁ hone)⟩, hothers₂⟩

theorem timerCallback_keeps (h : Inv none so co s) :
    Safe (timerCallback s) fun s' => Inv none so co s' ∧ (OneConnection s → OneConnection s') :=
  forEachConn_keeps (s := s.nextTick) (h.setEnv _ _) fun _ _ _ h₁ hid => onTimer_keeps h₁ hid _

theorem sendServerPdu_keeps (h : Inv none so co s) (pdu : OutPdu) :
    Safe (sendServerPdu pdu s) fun s' => Inv none so co s' ∧ (OneConnection s → OneConnection s') := by
  apply forEachConn_keeps h
  intro s₁ fd id h₁ hid
  refine (h₁.sendPdu (held_of_lookup hid) pdu).mono fun s₂ ⟨h₂, hframe₂⟩ => ?_
  refine ⟨h₂, oneConnection_of_frame hframe₂, fun k _ hmem => ?_⟩
  rw [hframe₂.conns]
  exact hmem

end

end ClientConn

/-! ## Runs -/

namespace Client

/-- What happens to the client. -/
inductive Input
  | event (ev : Loop.Event)
  | timer
  | sendServerPdu (pdu : OutPdu)

/-- An input, with what its step meets. -/
structure Act where
  input : Input
  env : LoopEnv
  memory : Env
  status : Nat → List UInt8
  descriptors : Descriptors

/-- `connect_server` at the start. -/
def start (env : LoopEnv) (world : ClientWorld) : Except Halt ClientLoop :=
  ClientConn.connectServer ⟨.empty, .empty, world, env⟩

/-- The state of a client when an input comes. -/
def meets (a : Act) (s : ClientLoop) : ClientLoop :=
  { s with
    env := a.env
    world := { s.world with memory := a.memory, status := a.status, descriptors := a.descriptors } }

/-- The state after a step, or why it has not come back. There is no step from a state that was not reached. -/
def step (parse : JsonReader) (a : Act) : Except Halt ClientLoop → Option (Except Halt ClientLoop)
  | .error _ => none
  | .ok s =>
    match a.input with
    | .event ev => some ((meets a s).event (ClientConn.connClass parse) ev)
    | .timer => some (ClientConn.timerCallback (meets a s))
    | .sendServerPdu pdu => some (ClientConn.sendServerPdu pdu (meets a s))

/-- No handler of an event closes the connection. -/
def StaysOpen (r : Except Halt ClientLoop) (a : Act) : Prop :=
  ∀ s ev, r = .ok s → a.input = .event ev → ev.fd ∈ s.conns.map → ¬ (meets a s).Closes ev

section
open Loop RefTable

variable {parse : JsonReader} {env : LoopEnv} {world : ClientWorld}

/-- Nobody owes a reference between steps. -/
def Kept (s : ClientLoop) : Prop := Inv none (fun _ => 0) (fun _ => 0) s

theorem start_keeps (env : LoopEnv) (world : ClientWorld) :
    Safe (start env world) fun s => Kept s ∧ OneConnection s := by
  have hempty : Kept ⟨.empty, .empty, world, env⟩ := by
    refine ⟨counted_empty _, counted_empty _, fun fd => ?_, fun fd hfd => ?_, nofun⟩
    · exact iff_of_false Finmap.notMem_empty fun hmem => Finmap.notMem_empty hmem.1
    · exact absurd hfd Finmap.notMem_empty
  refine (ClientConn.connectServer_keeps hempty).mono fun s ⟨hs, fd, id, _, hmap⟩ => ⟨hs, ?_⟩
  exact ClientConn.oneConnection_of_insert Finmap.keys_empty hmap

theorem step_keeps {a : Act} {s : ClientLoop} (h : Kept s) {r : Except Halt ClientLoop}
    (hstep : step parse a (.ok s) = some r) :
    Safe r fun s' => Kept s' ∧ (StaysOpen (.ok s) a → OneConnection s → OneConnection s') := by
  have hmeets : Inv none (fun _ => 0) (fun _ => 0) (meets a s) := h.setEnv _ _
  unfold step at hstep
  dsimp only at hstep
  split at hstep
  · next ev hinput =>
    obtain rfl := Option.some.inj hstep
    refine (hmeets.event (ClientConn.keeps parse) nofun).mono fun s' ⟨h', hmap⟩ => ⟨h', fun hgood hone => ?_⟩
    unfold OneConnection
    rw [hmap nofun (hgood s ev rfl hinput)]
    exact hone
  · obtain rfl := Option.some.inj hstep
    exact (ClientConn.timerCallback_keeps hmeets).mono fun s' ⟨h', hone⟩ => ⟨h', fun _ => hone⟩
  · obtain rfl := Option.some.inj hstep
    exact (ClientConn.sendServerPdu_keeps hmeets _).mono fun s' ⟨h', hone⟩ => ⟨h', fun _ => hone⟩

/-- Whatever happens, the client uses neither NULL nor an object that is gone. -/
theorem kept_of_reachable {r : Except Halt ClientLoop} (h : Transition.Reachable (step parse) (start env world) r) :
    Safe r Kept := by
  apply h.invariant (motive := fun r => Safe r Kept)
  · exact (start_keeps env world).mono fun s hs => hs.1
  · intro r a r' hr _ hstep
    cases r with
    | error e => cases hstep
    | ok s => exact (step_keeps hr hstep).mono fun s' hs' => hs'.1

/-- In a run in which no event closes the connection, there is exactly one after each step. -/
theorem oneConnection_of_staysOpen {r : Except Halt ClientLoop}
    (h : Transition.Reaches (step parse) StaysOpen (start env world) r) : Safe r OneConnection := by
  refine Safe.mono (P := fun s => Kept s ∧ OneConnection s) ?inv fun s hs => hs.2
  apply h.invariant (motive := fun r => Safe r fun s => Kept s ∧ OneConnection s)
  · exact start_keeps env world
  · intro r a r' hr hgood hstep
    cases r with
    | error e => cases hstep
    | ok s => exact (step_keeps hr.1 hstep).mono fun s' hs' => ⟨hs'.1, hs'.2 hgood hr.2⟩

/-- `socket` returns the descriptor behind the largest one. -/
def nextDescriptor : Descriptors where
  socket := fun fds => fds.sup Int.toNat + 1
  fresh := fun fds hmem => by
    have hle := Finset.le_sup (f := Int.toNat) hmem
    rw [Int.toNat_natCast] at hle
    exact absurd hle (Nat.not_succ_le_self _)

/-- An input at a time, in memory that holds nothing. -/
def act (now : UInt64) (input : Input) : Act :=
  ⟨input, .quiet now, ⟨fun _ => 0, fun _ => 0, 0, 0⟩, fun _ => [], nextDescriptor⟩

def started : Except Halt ClientLoop :=
  start (.quiet 0) ⟨Worker.init, ⟨fun _ => 0, fun _ => 0, 0, 0⟩, fun _ => [], nextDescriptor⟩

theorem not_closes_of_confirm (s : ClientLoop) (fd : Fd) : ¬ s.Closes ⟨fd, none, some false, none⟩ := by
  rintro (⟨_, hin, _⟩ | ⟨soError, hout, _, _, _, herror⟩ | hhup)
  · cases hin
  · cases hout
    cases herror
  · cases hhup

/-- The connection is confirmed, and a new one takes its place when the server has been silent for too long. -/
theorem oneConnection_after_timeout :
    ∃ s, Transition.run (step digitReader) [act 1 (.event ⟨1, none, some false, none⟩), act 40000 .timer] started =
      some (.ok s) ∧ s.conns.destroyed = [0] ∧ OneConnection s := by
  have h0 : Transition.Reaches (step digitReader) StaysOpen started _ := .start
  have h1 := h0.step (act 1 (.event ⟨1, none, some false, none⟩)) (fun s ev _ hev _ => by
    cases hev
    exact not_closes_of_confirm _ 1) rfl
  have h2 := h1.step (act 40000 .timer) (fun s ev _ hev => by cases hev) rfl
  exact ⟨_, rfl, rfl, oneConnection_of_staysOpen h2⟩

/-- The server hangs up, and the client goes on without a connection. -/
theorem not_oneConnection_after_hangup :
    ∃ s, Transition.Reachable (step digitReader) started (.ok s) ∧ s.conns.map.keys = ∅ ∧ ¬ OneConnection s := by
  obtain ⟨s, hrun, hkeys⟩ : ∃ s, Transition.run (step digitReader) [act 1 (.event ⟨1, none, none, some ()⟩)] started =
    some (.ok s) ∧ s.conns.map.keys = ∅ := ⟨_, rfl, rfl⟩
  refine ⟨s, Transition.reachable_of_run _ hrun, hkeys, fun h => ?_⟩
  unfold OneConnection at h
  rw [hkeys] at h
  cases h

end

end Client

end PostfixEdm
