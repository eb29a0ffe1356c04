import PostfixEdm.Event.Dispatch
import PostfixEdm.Lib.Transition
import PostfixEdm.Server.ServConn

/-!
# The server's event loop

* `ServConn.connClass` : `cServConn`, with `serverCallback`; `ServConn.timerCallback` : its timer;
* `Server.step` : one entry of `epoll_wait`, or the timer, on the state that the step before has left;
* `ServConn.keeps` : the methods of `cServConn` do their part;
* `Server.safe_of_reachable` : no run uses NULL or an object that is gone, and between steps the two tables agree
  and every object has one reference or has been destroyed once.

What `close` and `_HandleHeartBeat` tell the monitor about a client is left out.
-/

namespace PostfixEdm

/-- What the server has besides its tables: the manager, what the handlers that follow look up elsewhere, and the
client types of the connections that follow, which the constructor leaves unset. -/
structure ServerWorld where
  manager : Manager
  look : Nat → Lookup
  unset : Nat → UInt16

/-- `data` is the client type. -/
abbrev ServerLoop := Loop UInt16 ServerWorld

namespace ServConn

/-! ## `cServConn` -/

/-- `new cServConn()` -/
def construct (s : ServerLoop) : ServerLoop :=
  { s.nextTick with
    conns := (s.conns.new ⟨invalidHandle, .init, s.env.now 0, s.env.now 0, s.world.unset 0⟩).2
    world := { s.world with unset := fun i => s.world.unset (i + 1) } }

/-- `serverCallback` : a new connection, and `cServConn::onConnect2` -/
def onConnect2 (handle : Fd) (s : ServerLoop) : Except Halt ServerLoop := do
  let s ← (construct s).openHandle s.conns.next handle
  let s ← s.netlibCall handle fun sock => { sock with callback := .imconnCallback }
  s.netlibCall handle fun sock => { sock with callbackData := true }

/-- `send_all_client_pdu` -/
def sendAllClientPdu (pdu : OutPdu) (s : ServerLoop) : Except Halt ServerLoop :=
  s.forEachConn fun id s => do
    let c ← s.conns.get id
    if c.data ≠ clientPhp then s.sendPdu id pdu else .ok s

/-- `cServConn::HandlePdu` on the connection's object -/
def onPdu (id : Nat) (pdu : CImPdu) (s : ServerLoop) : Except Halt ServerLoop := do
  let c ← s.conns.get id
  let h := handlePdu (s.world.look 0) s.world.manager c.data pdu
  let world := { s.world with manager := h.manager, look := fun i => s.world.look (i + 1) }
  let s ← s.modifyConn id fun c => { c with data := h.clientType }
  let s ← h.broadcast.foldlM (fun s pdu => sendAllClientPdu pdu s) { s with world := world }
  h.replies.foldlM (fun s pdu => s.sendPdu id pdu) s

/-- `cServConn::close` -/
def close (id : Nat) (s : ServerLoop) : Except Halt ServerLoop := do
  let c ← s.conns.get id
  if c.handle ≠ invalidHandle then do
    let s ← s.remoteAddress c.handle
    let s ← s.dropHandle c.handle
    s.releaseConn id
  else s.releaseConn id

/-- The timeout of `cServConn::OnTimer` -/
def closeOnTimeout (currTick : UInt64) (id : Nat) (s : ServerLoop) : Except Halt ServerLoop := do
  let c ← s.conns.get id
  if c.lastRecvTick + clientTimeout < currTick then do
    let s ← s.remoteAddress c.handle
    close id s
  else .ok s

/-- `cServConn::OnTimer` -/
def onTimer (currTick : UInt64) (id : Nat) (s : ServerLoop) : Except Halt ServerLoop := do
  let c ← s.conns.get id
  if c.lastSendTick + serverHeartbeatInterval < currTick then do
    let s ← s.sendPdu id .emptyHeartbeat
    closeOnTimeout currTick id s
  else closeOnTimeout currTick id s

/-- How many connections are not registered as an administrator's. -/
def onlineClientNum (s : ServerLoop) : Nat :=
  (s.env.order.list s.conns.map.keys).countP fun fd =>
    match s.conns.registered fd with
    | some c => c.data ≠ clientPhp
    | none => false

/-- `server_conn_timer_callback` -/
def timerCallback (s : ServerLoop) : Except Halt ServerLoop := do
  let currTick := s.env.now 0
  let s ← s.nextTick.forEachConn fun id s => do
    let c ← s.conns.get id
    if c.data ≠ clientPhp then onTimer currTick id s else .ok s
  let manager := { s.world.manager with onlineClientNum := UInt16.ofNat (onlineClientNum s) }
  .ok { s with world := { s.world with manager := manager } }

/-- `cServConn` overrides `OnClose` and `HandlePdu`; `serverCallback` makes one of a new descriptor. -/
def connClass : ConnClass UInt16 ServerWorld where
  onConnect := onConnect2
  onConfirm := fun _ s => .ok s
  handlePdu := fun id pdu _ s => onPdu id pdu s
  onClose := close

/-! ## What the methods keep -/

section
open Loop RefTable

variable {listenFd : Option Fd} {so co : Nat → Nat} {s : ServerLoop}

theorem sendAllClientPdu_keeps (h : Inv listenFd so co s) (pdu : OutPdu) :
    Safe (sendAllClientPdu pdu s) fun s' => Inv listenFd so co s' ∧ Frame s s' := by
  apply safe_forEachConn ⟨h, .refl s⟩
  intro s₁ fd id ⟨h₁, hframe₁⟩ hid
  refine (h₁.conns.get (held_of_lookup hid)).bind fun c _ => ?_
  have hothers : ∀ {s₂ : ServerLoop}, Frame s₁ s₂ → ∀ k, k ≠ fd → k ∈ s₁.conns.map → k ∈ s₂.conns.map :=
    fun hframe₂ k _ hk => by rw [hframe₂.conns]; exact hk
  split
  · refine (h₁.sendPdu (held_of_lookup hid) pdu).mono fun s₂ ⟨h₂, hframe₂⟩ => ?_
    exact ⟨⟨h₂, hframe₁.trans hframe₂⟩, hothers hframe₂⟩
  · exact Safe.ok ⟨⟨h₁, hframe₁⟩, hothers (.refl s₁)⟩

theorem onPdu_keeps (h : Inv listenFd so co s) {id : Nat} (hid : Held co s.conns id) (pdu : CImPdu) :
    Safe (onPdu id pdu s) fun s' => Inv listenFd so co s' ∧ Frame s s' := by
  refine (h.conns.get hid).bind fun c _ => ?_
  refine (h.modifyConn hid fun _ => by rfl).bind fun s₁ ⟨h₁, hframe₁⟩ => ?_
  refine Safe.bind (P := fun s₂ => Inv listenFd so co s₂ ∧ Frame s s₂) ?broadcast fun s₂ ⟨h₂, hframe₂⟩ => ?replies
  case broadcast =>
    apply Safe.foldlM (I := fun _ s₂ => Inv listenFd so co s₂ ∧ Frame s s₂) ?send ⟨h₁.setEnv _ _, hframe₁.setEnv _ _⟩
    intro s₂ pdu _ ⟨h₂, hframe₂⟩
    exact (sendAllClientPdu_keeps h₂ pdu).mono fun s₃ ⟨h₃, hframe₃⟩ => ⟨h₃, hframe₂.trans hframe₃⟩
  apply Safe.foldlM (I := fun _ s₃ => Inv listenFd so co s₃ ∧ Frame s s₃) ?reply ⟨h₂, hframe₂⟩
  intro s₃ reply _ ⟨h₃, hframe₃⟩
  exact (h₃.sendPdu (hframe₃.held hid) reply).mono fun s₄ ⟨h₄, hframe₄⟩ => ⟨h₄, hframe₃.trans hframe₄⟩

theorem close_keeps (h : Inv listenFd so co s) {fd : Fd} {id : Nat} (hid : s.conns.map.lookup fd = some id) :
    Safe (close id s) fun s' => Inv listenFd so co s' ∧ s'.conns.map = s.conns.map.erase fd := by
  refine (h.getConn hid).bind fun c ⟨hfd, hvalid⟩ => ?_
  rw [if_pos hvalid, hfd]
  refine (h.remoteAddress_of_lookup hid).bind fun s₁ ⟨h₁, hmap₁, hid₁⟩ => ?_
  rw [← hmap₁]
  exact h₁.dropConn hid₁

/-- The new connection belongs to the descriptor, and its socket calls `imconn_callback` from now on. -/
theorem onConnect2_keeps {fd : Fd} (h : Accepted listenFd so co fd s) :
    Safe (onConnect2 fd s) fun s' => Inv listenFd so co s' ∧ s'.sockets.map = s.sockets.map := by
  obtain ⟨hfd, hlisten, hfree⟩ := h.mem
  obtain ⟨hnew, _⟩ := h.conns.new ⟨invalidHandle, .init, s.env.now 0, s.env.now 0, s.world.unset 0⟩
  have hloose : ∀ k, s.conns.map.lookup k ≠ some s.conns.next := fun k hk => h.conns.ne_next_of_lookup hk rfl
  refine (openHandle_spec (s := construct s) hnew hloose hfree).bind fun s₁ ⟨t, hs₁, ht, hconns⟩ => ?_
  subst hs₁
  refine (Inv.netlibCall (s := { construct s with conns := t }) h.sockets fd fun _ => by rfl).bind
    fun s₂ ⟨t₁, hs₂, ht₁, hmap₁, hreg₁⟩ => ?_
  subst hs₂
  refine (Inv.netlibCall (s := { construct s with conns := t, sockets := t₁ }) ht₁ fd fun _ => by rfl).mono
    fun s₃ ⟨t₂, hs₃, ht₂, hmap₂, hreg₂⟩ => ?_
  subst hs₃
  have hmap : t₂.map = s.sockets.map := hmap₂.trans hmap₁
  refine ⟨⟨ht₂, ht, fun k => ?keys, fun k hk => ?valid, fun k sock hsock => ?wired⟩, hmap⟩
  case keys =>
    change k ∈ t.map ↔ k ∈ t₂.map ∧ listenFd ≠ some k
    rw [hconns, hmap, Finmap.mem_insert]
    by_cases hk : k = fd
    · subst hk
      exact iff_of_true (.inl rfl) ⟨hfd, hlisten⟩
    · exact (or_iff_right hk).trans (h.keys k hk)
  case valid => exact h.valid k (hmap ▸ hk)
  case wired =>
    replace hsock := (hreg₂ k).symm.trans hsock
    rw [hreg₁ k] at hsock
    by_cases hk : k = fd
    · subst hk
      rw [if_pos rfl, if_pos rfl] at hsock
      obtain ⟨sock₁, hsock₁, rfl⟩ := Option.map_eq_some_iff.mp hsock
      obtain ⟨sock₀, hsock₀, rfl⟩ := Option.map_eq_some_iff.mp hsock₁
      unfold Wired
      rw [if_neg hlisten]
      exact ⟨rfl, rfl, by rw [h.connected sock₀ hsock₀]; exact nofun⟩
    · rw [if_neg hk, if_neg hk] at hsock
      exact h.wired k sock hk hsock

/-- `cServConn` does its part. -/
theorem keeps (listenFd : Option Fd) : connClass.Keeps listenFd where
  onConnect := fun _ => onConnect2_keeps
  onConfirm := fun h _ => Safe.ok ⟨h, .refl _⟩
  handlePdu := fun pdu _ h hid => onPdu_keeps h hid pdu
  onClose := fun h hid => close_keeps h hid

theorem closeOnTimeout_keeps (h : Inv listenFd so co s) {fd : Fd} {id : Nat} (hid : s.conns.map.lookup fd = some id)
    (currTick : UInt64) :
    Safe (closeOnTimeout currTick id s) fun s' => Inv listenFd so co s' ∧
      ∀ k, k ≠ fd → k ∈ s.conns.map → k ∈ s'.conns.map := by
  refine (h.getConn hid).bind fun c ⟨hfd, _⟩ => ?_
  split
  · rw [hfd]
    refine (h.remoteAddress_of_lookup hid).bind fun s₁ ⟨h₁, hmap₁, hid₁⟩ => ?_
    rw [← hmap₁]
    exact (close_keeps h₁ hid₁).mono fun s₂ ⟨h₂, hmap₂⟩ => ⟨h₂, fun k hk hmem => mem_of_erase hmap₂ hk hmem⟩
  · exact Safe.ok ⟨h, fun k _ hmem => hmem⟩

theorem onTimer_keeps (h : Inv listenFd so co s) {fd : Fd} {id : Nat} (hid : s.conns.map.lookup fd = some id)
    (currTick : UInt64) :
    Safe (onTimer currTick id s) fun s' => Inv listenFd so co s' ∧
      ∀ k, k ≠ fd → k ∈ s.conns.map → k ∈ s'.conns.map := by
  refine (h.conns.get (held_of_lookup hid)).bind fun c _ => ?_
  split
  · refine (h.sendPdu (held_of_lookup hid) _).bind fun s₁ ⟨h₁, hframe₁⟩ => ?_
    rw [← hframe₁.conns] at hid ⊢
    exact closeOnTimeout_keeps h₁ hid currTick
  · exact closeOnTimeout_keeps h hid currTick

theorem timerCallback_keeps (h : Inv listenFd so co s) :
    Safe (timerCallback s) fun s' => Inv listenFd so co s' := by
  have hnext : Inv listenFd so co s.nextTick := h.setEnv _ _
  refine (safe_forEachConn hnext ?round).bind fun s' h' => Safe.ok (h'.setEnv _ _)
  intro s₁ fd id h₁ hid
  refine (h₁.conns.get (held_of_lookup hid)).bind fun c _ => ?_
  split
  · exact onTimer_keeps h₁ hid _
  · exact Safe.ok ⟨h₁, fun k _ hmem => hmem⟩

end

end ServConn

/-! ## Runs -/

namespace Server

/-- What happens to the server. -/
inductive Input
  | event (ev : Loop.Event)
  | timer

/-- An input, with what its step meets. -/
structure Act where
  input : Input
  env : LoopEnv
  look : Nat → Lookup
  unset : Nat → UInt16

/-- After `netlib_listen`; `listenFd` is the descriptor of the listening socket. -/
def start (listenFd : Nat) (env : LoopEnv) (world : ServerWorld) : Except Halt ServerLoop :=
  .ok {
    sockets := (RefTable.empty.new ⟨listenFd, .listening, .serverCallback, false⟩).2.insert listenFd 0
    conns := .empty
    world := world
    env := env }

/-- The state after a step, or why it has not come back. There is no step from a state that was not reached, and
`accept` cannot return a descriptor that is open. -/
def step (a : Act) : Except Halt ServerLoop → Option (Except Halt ServerLoop)
  | .error _ => none
  | .ok s =>
    let s := { s with env := a.env, world := { s.world with look := a.look, unset := a.unset } }
    match a.input with
    | .event ev => if s.Fresh ev then some (s.event ServConn.connClass ev) else none
    | .timer => some (ServConn.timerCallback s)

/-- The two tables agree but for the listening socket, and their objects are as they should be. -/
structure Consistent (listenFd : Nat) (s : ServerLoop) : Prop where
  keys : s.conns.map.keys = s.sockets.map.keys.erase (listenFd : Fd)
  sockets : s.sockets.Settled
  conns : s.conns.Settled

section
open Loop RefTable

variable {listenFd : Nat} {env : LoopEnv} {world : ServerWorld}

theorem start_inv (listenFd : Nat) (env : LoopEnv) (world : ServerWorld) :
    Safe (start listenFd env world) (Inv (some (listenFd : Fd)) (fun _ => 0) fun _ => 0) := by
  obtain ⟨ht, hmap, hreg⟩ := (counted_empty CBaseSocket.socket).newEntry
    (a := ⟨listenFd, .listening, .serverCallback, false⟩) Finmap.notMem_empty rfl
  refine Safe.ok ⟨ht, counted_empty _, fun fd => ?keys, fun fd hfd => ?valid, fun fd sock hsock => ?wired⟩
  case keys =>
    refine iff_of_false (Finmap.notMem_empty) fun ⟨hmem, hne⟩ => ?_
    rcases Finmap.mem_insert.mp (hmap ▸ hmem) with rfl | hold
    · exact hne rfl
    · exact Finmap.notMem_empty hold
  case valid =>
    rcases Finmap.mem_insert.mp (hmap ▸ hfd) with rfl | hold
    · exact natCast_ne_invalidHandle listenFd
    · exact absurd hold Finmap.notMem_empty
  case wired =>
    replace hsock := (hreg fd).symm.trans hsock
    split at hsock
    · next heq =>
      subst heq
      obtain rfl := Option.some.inj hsock
      unfold Wired
      exact (if_pos rfl).mpr rfl
    · cases hsock

theorem consistent_of_inv {s : ServerLoop} (h : Inv (some (listenFd : Fd)) (fun _ => 0) (fun _ => 0) s) :
    Consistent listenFd s := by
  refine ⟨Finset.ext fun fd => ?_, h.sockets.settled, h.conns.settled⟩
  rw [Finset.mem_erase, Finmap.mem_keys, Finmap.mem_keys, h.keys fd, and_comm, ne_comm]
  exact and_congr_left' (not_congr Option.some_inj)

theorem step_keeps {a : Act} {r r' : Except Halt ServerLoop}
    (h : Safe r (Inv (some (listenFd : Fd)) (fun _ => 0) fun _ => 0)) (hstep : step a r = some r') :
    Safe r' (Inv (some (listenFd : Fd)) (fun _ => 0) fun _ => 0) := by
  cases r with
  | error e => cases hstep
  | ok s =>
    have hinv : Inv (some (listenFd : Fd)) (fun _ => 0) (fun _ => 0)
        { s with env := a.env, world := { s.world with look := a.look, unset := a.unset } } := Inv.setEnv h _ _
    unfold step at hstep
    dsimp only at hstep
    split at hstep
    · split at hstep
      · next hfresh =>
        obtain rfl := Option.some.inj hstep
        exact (hinv.event (ServConn.keeps _) fun _ => hfresh).mono fun s' ⟨h', _⟩ => h'
      · cases hstep
    · obtain rfl := Option.some.inj hstep
      exact ServConn.timerCallback_keeps hinv

/-- Whatever happens, the server uses neither NULL nor an object that is gone, and its tables are consistent
between steps. -/
theorem safe_of_reachable {r : Except Halt ServerLoop}
    (h : Transition.Reachable step (start listenFd env world) r) : Safe r (Consistent listenFd) := by
  refine Safe.mono (P := Inv (some (listenFd : Fd)) (fun _ => 0) fun _ => 0) ?inv fun s hinv => consistent_of_inv hinv
  apply h.invariant (motive := fun r => Safe r (Inv (some (listenFd : Fd)) (fun _ => 0) fun _ => 0))
  · exact start_inv listenFd env world
  · exact fun r a r' hr _ hstep => step_keeps hr hstep

/-- Two descriptors are accepted, and the second one hangs up. -/
def acceptTwo : List Act :=
  let look : Nat → Lookup := fun _ => ⟨0, 0, []⟩
  let input : ReadInput := ⟨[7, 8], true, ⟨[], fun _ _ => 0, fun _ => .wouldBlock,
    fun _ => ⟨fun _ => 0, fun _ => 0, 0, 0⟩⟩, 1⟩
  [⟨.event ⟨3, some input, none, none⟩, .quiet 0, look, fun _ => 0⟩,
    ⟨.event ⟨8, none, none, some ()⟩, .quiet 0, look, fun _ => 0⟩]

theorem safe_after_acceptTwo :
    ∃ s, Transition.run step acceptTwo (start 3 (.quiet 0) ⟨Manager.init 0, fun _ => ⟨0, 0, []⟩, fun _ => 0⟩) =
        some (.ok s) ∧
      s.conns.map.keys = {7} ∧ Consistent 3 s := by
  let r := Transition.run step acceptTwo (start 3 (.quiet 0) ⟨Manager.init 0, fun _ => ⟨0, 0, []⟩, fun _ => 0⟩)
  have h : ∃ s, r = some (.ok s) ∧ s.conns.map.keys = {7} := by
    refine ⟨_, rfl, ?_⟩
    decide
  obtain ⟨s, hs, hkeys⟩ := h
  exact ⟨s, hs, hkeys, safe_of_reachable (Transition.reachable_of_run acceptTwo hs)⟩

end

end Server

end PostfixEdm
