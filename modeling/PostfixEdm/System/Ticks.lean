import PostfixEdm.Client.WriteEdge
import PostfixEdm.Server.EventLoop

/-!
# The ticks of a connection

* `ImConn.onTimerTicks` : the shape of `cServConn::OnTimer` and `cClientConn::OnTimer`;
* `ServConn.onTimer_ticks`, `ClientConn.onTimer_ticks` : the callbacks of the loops are those of the ticks;
* `ServConn.onConnect2_ticks`, `ClientConn.connectServer_ticks` : the constructors read the clock for both ticks;
* `Loop.sendPdu_ticks`, `Loop.onRead_ticks` : what else changes them.
-/

namespace PostfixEdm

/-- `m_last_send_tick` and `m_last_recv_tick` -/
structure Ticks where
  lastSendTick : UInt64
  lastRecvTick : UInt64
  deriving DecidableEq, Repr

/-- What `OnTimer` does: the ticks after it, and whether it sends a heartbeat and closes the connection. -/
structure TimerResult where
  ticks : Ticks
  heartbeat : Bool
  close : Bool
  deriving DecidableEq, Repr

/-- `OnTimer` at `currTick`; a heartbeat is sent at `tick`. -/
def ImConn.onTimerTicks (heartbeatInterval timeout currTick tick : UInt64) (c : Ticks) : TimerResult :=
  let due := decide (c.lastSendTick + heartbeatInterval < currTick)
  ⟨if due then { c with lastSendTick := tick } else c, due, decide (c.lastRecvTick + timeout < currTick)⟩

/-- `cServConn::OnTimer` -/
def ServConn.onTimerTicks : UInt64 → UInt64 → Ticks → TimerResult :=
  ImConn.onTimerTicks serverHeartbeatInterval clientTimeout

/-- `cClientConn::OnTimer`, up to the new connection -/
def ClientConn.onTimerTicks : UInt64 → UInt64 → Ticks → TimerResult :=
  ImConn.onTimerTicks clientHeartbeatInterval serverTimeout

/-! ## The callbacks of the loops -/

namespace Loop

variable {κ ω : Type} {s : Loop κ ω}

/-- The ticks of a connection of a loop. -/
def ticks (c : Conn κ) : Ticks := ⟨c.lastSendTick, c.lastRecvTick⟩

theorem modifySocket_env (id : Nat) (f : CBaseSocket → CBaseSocket) :
    Yields (s.modifySocket id f) fun s' => s'.env = s.env := Yields.bind_of_eq fun _ _ => Yields.ok rfl

theorem netlibUse_env (fd : Fd) : Yields (s.netlibUse fd) fun s' => s'.env = s.env := by
  have hfind : Yields (s.findBaseSocket fd) fun r => r.2.env = s.env := Yields.bind_of_eq fun _ _ => Yields.ok rfl
  refine hfind.bind fun ⟨p, s₀⟩ _ hs₀ => ?_
  cases p with
  | none => exact Yields.ok hs₀
  | some id =>
    refine (modifySocket_env id _).bind fun s₁ _ hs₁ => ?_
    exact Yields.bind_of_eq fun _ _ => Yields.ok (hs₁.trans hs₀)

/-- `SendPdu` notes the time. -/
theorem sendPdu_ticks {id : Nat} {c : Conn κ} (hc : s.conns.get id = .ok c) (pdu : OutPdu) :
    Yields (s.sendPdu id pdu) fun s' => ∀ c', s'.conns.get id = .ok c' →
      ticks c' = { ticks c with lastSendTick := s.env.now 0 } := by
  refine Yields.bind_of_eq fun c₀ hc₀ => ?_
  obtain rfl : c = c₀ := Except.ok.inj (hc.symm.trans hc₀)
  have huses : Yields ((c.im.sendCalls (s.answers c.handle) (pdu.encode s.env.heap).contents).foldlM
      (fun s _ => s.netlibUse c.handle) s) fun s' => s'.conns = s.conns ∧ s'.env = s.env := by
    apply Yields.foldlM (I := fun s' : Loop κ ω => s'.conns = s.conns ∧ s'.env = s.env) ?step ⟨rfl, rfl⟩
    intro s₁ _ ⟨hconns₁, henv₁⟩ s₂ hs₂
    exact ⟨((netlibUse_left c.handle) s₂ hs₂).2.trans hconns₁, (netlibUse_env c.handle s₂ hs₂).trans henv₁⟩
  refine huses.bind fun s₁ _ ⟨hconns₁, henv₁⟩ => ?_
  refine (modifyConn_turns id _).bind fun s₂ _ ⟨_, hturns⟩ => Yields.ok ?_
  intro c' hc'
  obtain ⟨c₁, hc₁, rfl⟩ := hturns.2 id c' (RefTable.value_of_get hc')
  rw [hconns₁] at hc₁
  obtain rfl : c = c₁ := Except.ok.inj (hc.symm.trans (RefTable.get_of_value hc₁))
  rw [if_pos rfl]
  simp only [ticks, henv₁]

end Loop

/-- A callback, by `onTimerTicks` : whether it sends a heartbeat, what the ticks are then, and whether it gives the
connection up. -/
theorem Loop.onTimer_ticks {κ ω : Type} {s : Loop κ ω} {id : Nat} {c : Conn κ} (hc : s.conns.get id = .ok c)
    {beat : Loop κ ω → Except Halt (Loop κ ω)} {expire : Conn κ → Loop κ ω → Except Halt (Loop κ ω)}
    (hbeat : Yields (beat s) fun s' => ∀ c', s'.conns.get id = .ok c' →
      ticks c' = { ticks c with lastSendTick := s.env.now 0 }) (heartbeatInterval timeout currTick : UInt64) :
    let check := fun s : Loop κ ω => do
      let c ← s.conns.get id
      if c.lastRecvTick + timeout < currTick then expire c s else .ok s
    let r := ImConn.onTimerTicks heartbeatInterval timeout currTick (s.env.now 0) (ticks c)
    Yields (if c.lastSendTick + heartbeatInterval < currTick then beat s >>= check else check s) fun s' => ∃ s₁,
      (if r.heartbeat then beat s else .ok s) = .ok s₁ ∧ ∀ c₁, s₁.conns.get id = .ok c₁ → ticks c₁ = r.ticks ∧
        (if r.close then expire c₁ s₁ else .ok s₁) = .ok s' := by
  intro check r
  have hcheck : ∀ s₁ : Loop κ ω, (∀ c₁, s₁.conns.get id = .ok c₁ → ticks c₁ = r.ticks) →
      Yields (check s₁) fun s' => ∀ c₁, s₁.conns.get id = .ok c₁ → ticks c₁ = r.ticks ∧
        (if r.close then expire c₁ s₁ else .ok s₁) = .ok s' := by
    intro s₁ hticks s' hs' c₁ hc₁
    refine ⟨hticks c₁ hc₁, ?_⟩
    have hrecv : c₁.lastRecvTick = c.lastRecvTick := by
      have hrecv := congrArg Ticks.lastRecvTick (hticks c₁ hc₁)
      simp only [r, ImConn.onTimerTicks] at hrecv
      split at hrecv <;> exact hrecv
    have hexpire : (if c₁.lastRecvTick + timeout < currTick then expire c₁ s₁ else .ok s₁) = .ok s' := by
      simp only [check, hc₁] at hs'
      exact hs'
    have hclose : r.close = true ↔ c.lastRecvTick + timeout < currTick := decide_eq_true_iff
    rw [hrecv] at hexpire
    simpa only [hclose] using hexpire
  split
  · next hdue =>
    refine hbeat.bind fun s₁ hs₁ hticks => ?_
    refine (hcheck s₁ ?_).mono fun s' hs' => ⟨s₁, ?_, hs'⟩
    · intro c₁ hc₁
      rw [hticks c₁ hc₁]
      exact (if_pos (decide_eq_true hdue)).symm
    · exact (if_pos (decide_eq_true hdue)).trans hs₁
  · next hdue =>
    have hnot : ¬ decide ((ticks c).lastSendTick + heartbeatInterval < currTick) = true := by
      rw [decide_eq_true_iff]
      exact hdue
    refine (hcheck s ?_).mono fun s' hs' => ⟨s, ?_, hs'⟩
    · intro c₁ hc₁
      obtain rfl : c = c₁ := Except.ok.inj (hc.symm.trans hc₁)
      exact (if_neg hnot).symm
    · exact if_neg hnot

/-- The callback of the server's loop is the one of the ticks. -/
theorem ServConn.onTimer_ticks {s : ServerLoop} {id : Nat} {c : Conn UInt16} (hc : s.conns.get id = .ok c)
    (currTick : UInt64) :
    let r := onTimerTicks currTick (s.env.now 0) (Loop.ticks c)
    Yields (ServConn.onTimer currTick id s) fun s' => ∃ s₁,
      (if r.heartbeat then s.sendPdu id .emptyHeartbeat else .ok s) = .ok s₁ ∧
      ∀ c₁, s₁.conns.get id = .ok c₁ → Loop.ticks c₁ = r.ticks ∧
        (if r.close then (do ServConn.close id (← s₁.remoteAddress c₁.handle)) else .ok s₁) = .ok s' := by
  intro r
  refine Yields.bind_of_eq fun c' hc' => ?_
  obtain rfl : c = c' := Except.ok.inj (hc.symm.trans hc')
  exact Loop.onTimer_ticks hc (Loop.sendPdu_ticks hc .emptyHeartbeat) serverHeartbeatInterval clientTimeout currTick

/-- So is the one of the client's. -/
theorem ClientConn.onTimer_ticks {s : ClientLoop} {id : Nat} {c : Conn Unit} (hc : s.conns.get id = .ok c)
    (currTick : UInt64) :
    let r := onTimerTicks currTick (s.env.now 0) (Loop.ticks c)
    Yields (ClientConn.onTimer currTick id s) fun s' => ∃ s₁,
      (if r.heartbeat then ClientConn.sendHeartbeat id s else .ok s) = .ok s₁ ∧
      ∀ c₁, s₁.conns.get id = .ok c₁ → Loop.ticks c₁ = r.ticks ∧
        (if r.close then (do
          let s₂ ← ClientConn.close id (← s₁.remoteAddress c₁.handle)
          if s₂.conns.map.keys.card < 1 then ClientConn.connectServer s₂ else .ok s₂) else .ok s₁) = .ok s' := by
  intro r
  refine Yields.bind_of_eq fun c' hc' => ?_
  obtain rfl : c = c' := Except.ok.inj (hc.symm.trans hc')
  have hbeat : Yields (ClientConn.sendHeartbeat id s) fun s' => ∀ c', s'.conns.get id = .ok c' →
      Loop.ticks c' = { Loop.ticks c with lastSendTick := s.env.now 0 } :=
    (Loop.sendPdu_ticks hc (.heartbeat (s.world.status 0))).bind fun _ _ hticks => Yields.ok hticks
  exact Loop.onTimer_ticks hc hbeat clientHeartbeatInterval serverTimeout currTick

/-! ## Constructors -/

namespace Loop

open RefTable

variable {κ ω : Type} {s s' : Loop κ ω} {id j : Nat} {now : UInt64}

/-- The ticks of a connection, while it is there. -/
def Made (id : Nat) (now : UInt64) (s : Loop κ ω) : Prop := s.conns.All fun j c => j = id → ticks c = ⟨now, now⟩

/-- Nothing has the next id yet. -/
theorem made_next {owed : Nat → Nat} (h : Counted Conn.handle owed s.conns) (now : UInt64) :
    s.Made s.conns.next now := by
  intro j c hc hj
  rw [hj, value, h.cells_next] at hc
  cases hc

theorem Made.openHandle (h : s.Made id now) (j : Nat) (handle : Fd) : Yields (s.openHandle j handle) (Made id now) := by
  refine (modifyConn_turns j _).bind fun s₁ _ ⟨_, hturns⟩ => Yields.ok ?_
  refine All.left ?_ (left_of_value (value_insert ..))
  intro k c' hc' hk
  obtain ⟨c, hc, rfl⟩ := hturns.2 k c' hc'
  split
  · exact h k c hc hk
  · exact h k c hc hk

theorem netlibCall_conns (fd : Fd) (f : CBaseSocket → CBaseSocket) :
    Yields (s.netlibCall fd f) fun s' => s'.conns = s.conns := by
  refine (findBaseSocket_left fd).bind fun ⟨p, s₀⟩ _ ⟨_, hconns⟩ => ?_
  cases p with
  | none => exact Yields.ok hconns
  | some id =>
    refine (modifySocket_turns id f).bind fun s₁ _ ⟨_, hconns₁⟩ => ?_
    exact (releaseSocket_left id).mono fun s₂ ⟨_, hconns₂⟩ => hconns₂.trans (hconns₁.trans hconns)

end Loop

/-- The server's end of a connection is made when it accepts. -/
theorem ServConn.onConnect2_ticks {s : ServerLoop} {owed : Nat → Nat} (h : RefTable.Counted Conn.handle owed s.conns)
    (handle : Fd) : Yields (ServConn.onConnect2 handle s) (Loop.Made s.conns.next (s.env.now 0)) := by
  have hnew : (ServConn.construct s).Made s.conns.next (s.env.now 0) :=
    RefTable.All.new (Loop.made_next h _) fun _ => rfl
  refine (hnew.openHandle _ handle).bind fun s₁ _ h₁ => ?_
  refine (Loop.netlibCall_conns handle _).bind fun s₂ _ hconns₂ => ?_
  refine (Loop.netlibCall_conns handle _).mono fun s₃ hconns₃ => ?_
  unfold Loop.Made
  rw [hconns₃, hconns₂]
  exact h₁

/-- The client's end is made by `connect_server`. -/
theorem ClientConn.connectServer_ticks {s : ClientLoop} {owed : Nat → Nat}
    (h : RefTable.Counted Conn.handle owed s.conns) :
    Yields (ClientConn.connectServer s) (Loop.Made s.conns.next (s.env.now 0)) := by
  have hnew : (ClientConn.netlibConnect (ClientConn.construct s)).2.Made s.conns.next (s.env.now 0) :=
    RefTable.All.new (Loop.made_next h _) fun _ => rfl
  exact hnew.openHandle _ _

/-! ## `OnRead` -/

namespace Loop

open RefTable

variable {κ ω : Type} {s s' : Loop κ ω} {id j : Nat} {tick : UInt64}

/-- The tick of the last reception of a connection, while it is there. -/
def HeardAt (id : Nat) (tick : UInt64) (s : Loop κ ω) : Prop :=
  s.conns.All fun j c => j = id → c.lastRecvTick = tick

theorem HeardAt.modifyConn (h : s.HeardAt id tick) (j : Nat) {f : Conn κ → Conn κ}
    (hf : ∀ c, (f c).lastRecvTick = c.lastRecvTick) : Yields (s.modifyConn j f) (HeardAt id tick) := by
  refine (modifyConn_turns j f).mono fun s₁ ⟨_, hturns⟩ k c' hc' hk => ?_
  obtain ⟨c, hc, rfl⟩ := hturns.2 k c' hc'
  split
  · rw [hf]
    exact h k c hc hk
  · exact h k c hc hk

theorem HeardAt.send (h : s.HeardAt id tick) (j : Nat) (data : List UInt8) :
    Yields (s.send j data) (HeardAt id tick) := by
  refine Yields.bind_of_eq fun c _ => ?_
  refine (netlibUses_left c.handle _).bind fun s₁ _ ⟨_, hconns₁⟩ => ?_
  have h₁ : s₁.HeardAt id tick := All.left h (left_of_eq hconns₁)
  exact (h₁.modifyConn j fun _ => by exact rfl).bind fun s₂ _ h₂ => Yields.ok h₂

end Loop

/-- The methods of a class leave the receptions to `OnRead`. -/
structure ConnClass.KeepsHeard {κ ω : Type} (cls : ConnClass κ ω) : Prop where
  handlePdu : ∀ {s : Loop κ ω} {id tick} j pdu buf, s.HeardAt id tick →
    Yields (cls.handlePdu j pdu buf s) (Loop.HeardAt id tick)
  onClose : ∀ {s : Loop κ ω} {id tick} j, s.HeardAt id tick → Yields (cls.onClose j s) (Loop.HeardAt id tick)

/-- `OnRead` notes the time when it receives something. -/
theorem Loop.onRead_ticks {κ ω : Type} {s : Loop κ ω} {cls : ConnClass κ ω} (hcls : cls.KeepsHeard) {id : Nat}
    {c : Conn κ} (hc : s.conns.get id = .ok c) (input : ReadInput) :
    Yields (s.onRead cls input id)
      (HeardAt id (if s.received c.handle input.call = [] then c.lastRecvTick else s.env.now 0)) := by
  refine Yields.bind_of_eq fun c₀ hc₀ => ?_
  obtain rfl : c = c₀ := Except.ok.inj (hc.symm.trans hc₀)
  have huses : Yields (([] :: s.received c.handle input.call).foldlM (fun s _ => s.netlibUse c.handle) s)
      fun s' => s'.conns = s.conns ∧ s'.env = s.env := by
    apply Yields.foldlM (I := fun s' : Loop κ ω => s'.conns = s.conns ∧ s'.env = s.env) ?step ⟨rfl, rfl⟩
    intro s₁ _ ⟨hconns₁, henv₁⟩ s₂ hs₂
    exact ⟨((netlibUse_left c.handle) s₂ hs₂).2.trans hconns₁, (netlibUse_env c.handle s₂ hs₂).trans henv₁⟩
  refine huses.bind fun s₁ _ ⟨hconns₁, henv₁⟩ => ?_
  generalize htick : (if s.received c.handle input.call = [] then c.lastRecvTick else s.env.now 0) = tick
  refine Yields.bind (P := HeardAt id tick) ?note fun s₂ _ h₂ => ?_
  case note =>
    refine (modifyConn_turns id _).mono fun s₂ ⟨_, hturns⟩ k c' hc' hk => ?_
    obtain ⟨c₁, hc₁, rfl⟩ := hturns.2 k c' hc'
    rw [hconns₁, hk] at hc₁
    obtain rfl : c = c₁ := Except.ok.inj (hc.symm.trans (RefTable.get_of_value hc₁))
    rw [if_pos hk, henv₁]
    exact htick
  have h₂' : s₂.nextTick.HeardAt id tick := h₂
  dsimp only
  split
  · exact Yields.ok h₂'
  · split
    · next content _ => exact (h₂'.modifyConn id fun _ => by exact rfl).bind fun s₃ _ h₃ => h₃.send id content
    · split
      · exact Yields.error
      · next r hr =>
        refine Yields.bind (yields_parseLoop (fun pdu buf s hs => hcls.handlePdu id pdu buf hs) (Yields.ok h₂') hr)
          fun s₃ _ h₃ => ?_
        refine (h₃.modifyConn id fun _ => by exact rfl).bind fun s₄ _ h₄ => ?_
        split
        · exact hcls.onClose id h₄
        · exact Yields.ok h₄

/-! ## The two classes -/

theorem ClientConn.keepsHeard (parse : JsonReader) : (ClientConn.connClass parse).KeepsHeard where
  handlePdu := fun _ _ _ h => Yields.ok h
  onClose := fun j h => (ClientConn.close_left j).mono fun _ hleft => RefTable.All.left h hleft.2

namespace ServConn

open RefTable

theorem close_left {s : ServerLoop} (id : Nat) : Yields (close id s) fun s' => Left s.conns s'.conns := by
  have hrelease : ∀ s₁ : ServerLoop, Yields (s₁.releaseConn id) fun s' => Left s₁.conns s'.conns := fun s₁ =>
    (Loop.releaseConn_left id).mono fun s' ⟨_, _, hleft⟩ => hleft
  refine Yields.bind_of_eq fun c _ => ?_
  split
  · refine Yields.bind (P := fun s₁ => s₁.conns = s.conns) ?address fun s₁ _ hconns₁ => ?_
    case address =>
      refine (Loop.findBaseSocket_left c.handle).bind fun ⟨p, s₀⟩ _ ⟨_, hconns⟩ => ?_
      cases p with
      | none => exact Yields.error
      | some id =>
        refine Yields.bind_of_eq fun _ _ => ?_
        exact (Loop.releaseSocket_left id).mono fun s₁ ⟨_, hconns₁⟩ => hconns₁.trans hconns
    refine (Loop.dropHandle_left c.handle).bind fun s₂ _ ⟨_, hleft₂⟩ => ?_
    rw [hconns₁] at hleft₂
    exact (hrelease s₂).mono fun s₃ hleft₃ => hleft₂.trans hleft₃
  · exact hrelease s

theorem keepsHeard : connClass.KeepsHeard where
  handlePdu := by
    intro s id tick j pdu buf h
    refine Yields.bind_of_eq fun c _ => ?_
    refine (h.modifyConn j fun _ => by exact rfl).bind fun s₁ _ h₁ => ?_
    refine Yields.bind (P := Loop.HeardAt id tick) ?broadcast fun s₂ _ h₂ => ?_
    case broadcast =>
      refine Yields.foldlM (fun s₂ pdu' h₂ => ?_) h₁
      refine Yields.foldlM (fun s₃ fd h₃ => ?_) h₂
      split
      · exact Yields.error
      · next k _ =>
        refine Yields.bind_of_eq fun c' _ => ?_
        split
        · exact h₃.send k _
        · exact Yields.ok h₃
    exact Yields.foldlM (fun s₃ pdu' h₃ => h₃.send j _) h₂
  onClose := fun j h => (close_left j).mono fun _ hleft => All.left h hleft

end ServConn

end PostfixEdm
