import PostfixEdm.Lib.Transition
import PostfixEdm.Server.ServConn
import Mathlib.Logic.Function.Basic

/-!
# Administrators: what the server writes to whom

The connections of the server with the kind of their peers, for the PDUs that `ReadPdu` returns on them. Each
connection records the PDUs that were handled on it and the ones that were written to it, and why.

* `Admins.step` : an accept, a receive, the handling of a PDU, the timer, and the end of a connection;
* `Admins.OnlyReplies` : what a PHP peer reads are the replies to its own requests, in order and one for each;
* `Admins.RegistersInTime` : the steps that keep it: nothing is written to all while the registration of a PHP
  peer is still to be handled and its `client_type` happens to be another one;
* `onlyReplies_of_registersInTime`, `not_onlyReplies_of_not_registersInTime` : what holds in every run of such
  steps, and what any other step does.
-/

namespace PostfixEdm

/-- The program at the other end. -/
inductive Peer
  | php | cpp
  deriving DecidableEq, Repr

/-- Why the server writes a PDU. -/
inductive Origin
  | reply (request : PduBody)
  | broadcast
  | heartbeat
  deriving DecidableEq, Repr

structure Served where
  peer : Peer
  isOpen : Bool
  clientType : UInt16
  lastSendTick : UInt64
  lastRecvTick : UInt64
  handled : List PduBody
  written : List (Origin × OutPdu)

/-- The requests of `EdmController`: the commands, the two status requests and the test data. -/
def PduBody.isAdminRequest : PduBody → Bool
  | .serverCommand _ | .adjustRate _ _ | .clientData _ _ | .serverStatusInfo _ _ | .allClientStatusInfo => true
  | .heartbeat _ _ | .response _ _ _ | .regClientType _ | .clientDone => false

namespace Served

/-- What the code of the peer sends next: a PHP peer registers first, in `getSock`. -/
def Sends (c : Served) (body : PduBody) : Prop :=
  match c.peer with
  | .php => if c.handled = [] then body = .regClientType clientPhp else body.isAdminRequest = true
  | .cpp => True

instance (c : Served) (body : PduBody) : Decidable (c.Sends body) := by
  unfold Sends
  split <;> infer_instance

/-- `Send` of each PDU. -/
def send (now : UInt64) (origin : Origin) (pdus : List OutPdu) (c : Served) : Served :=
  if pdus = [] then c
  else { c with lastSendTick := now, written := c.written ++ pdus.map fun pdu => (origin, pdu) }

/-- The filter of `send_all_client_pdu` and of the timer, over the connections that are open. -/
def hears (c : Served) : Bool := c.isOpen && c.clientType ≠ clientPhp

def heartbeatDue (now : UInt64) (c : Served) : Bool := c.lastSendTick + serverHeartbeatInterval < now

/-- `cServConn::OnTimer` -/
def onTimer (now : UInt64) (c : Served) : Served :=
  let c := if c.heartbeatDue now then c.send now .heartbeat [.emptyHeartbeat] else c
  if c.lastRecvTick + clientTimeout < now then { c with isOpen := false } else c

end Served

/-- Every connection that was accepted, closed ones too. -/
structure Admins (κ : Type) where
  manager : Manager
  conns : κ → Option Served

namespace Admins

/-- What can happen. `clientType` is the value that `cServConn::cServConn` leaves unset. -/
inductive Act (κ : Type)
  | accept (k : κ) (peer : Peer) (clientType : UInt16) (now : UInt64)
  | recv (k : κ) (now : UInt64)
  | handlePdu (k : κ) (pdu : CImPdu) (look : Lookup) (now : UInt64)
  | timer (now : UInt64) (onlineClientNum : UInt16)
  | close (k : κ)

variable {κ : Type} [DecidableEq κ]

def init (onlineClientNum : UInt16) : Admins κ := ⟨.init onlineClientNum, fun _ => none⟩

def setConn (s : Admins κ) (k : κ) (c : Served) : Admins κ :=
  { s with conns := Function.update s.conns k (some c) }

/-- The connection, while it is open. -/
def openConn (s : Admins κ) (k : κ) : Option Served := (s.conns k).filter Served.isOpen

/-- `send_all_client_pdu` -/
def broadcast (s : Admins κ) (now : UInt64) (pdus : List OutPdu) : Admins κ :=
  { s with conns := fun k => (s.conns k).map fun c => if c.hears then c.send now .broadcast pdus else c }

/-- `SendPdu` of the replies to `request`. -/
def reply (s : Admins κ) (k : κ) (now : UInt64) (request : PduBody) (pdus : List OutPdu) : Admins κ :=
  { s with conns := Function.update s.conns k ((s.conns k).map (Served.send now (.reply request) pdus)) }

/-- `server_conn_timer_callback` -/
def timerCallback (s : Admins κ) (now : UInt64) : Admins κ :=
  { s with conns := fun k => (s.conns k).map fun c => if c.hears then c.onTimer now else c }

def step : Act κ → Admins κ → Option (Admins κ)
  | .accept k peer clientType now, s =>
    if (s.conns k).isNone then some (s.setConn k ⟨peer, true, clientType, now, now, [], []⟩) else none
  | .recv k now, s => do
    let c ← s.openConn k
    some (s.setConn k { c with lastRecvTick := now })
  | .handlePdu k pdu look now, s => do
    let c ← s.openConn k
    if c.Sends pdu.body then
      let h := ServConn.handlePdu look s.manager c.clientType pdu
      let c := { c with clientType := h.clientType, handled := c.handled ++ [pdu.body] }
      let s := { s with manager := h.manager }.setConn k c
      some ((s.broadcast now h.broadcast).reply k now pdu.body h.replies)
    else none
  | .timer now onlineClientNum, s =>
    some { s.timerCallback now with manager := { s.manager with onlineClientNum := onlineClientNum } }
  | .close k, s => do
    let c ← s.openConn k
    some (s.setConn k { c with isOpen := false })

/-! ## Replies and nothing else -/

/-- A PHP peer reads the replies to its own requests, in order and one for each. -/
def OnlyReplies (s : Admins κ) : Prop :=
  ∀ k c, s.conns k = some c → c.peer = .php →
    c.written.map Prod.fst = (c.handled.filter PduBody.isAdminRequest).map .reply

end Admins

/-- The PDUs for which the manager sends something to all. -/
def PduBody.broadcasts (look : Lookup) : PduBody → Bool
  | .serverCommand command =>
    command = cidCommandStart || command = cidCommandStop || command = cidCommandPause || command = cidCommandResume
  | .adjustRate _ _ => true
  | .clientDone => look.sentEmailNum = 0
  | _ => false

/-- A PHP peer whose registration is still to be handled, with another `client_type` until then. -/
def Served.Exposed (c : Served) : Prop := c.peer = .php ∧ c.handled = [] ∧ c.hears = true

/-- Nothing is sent to all, and no heartbeat is due, while a PHP peer is exposed to it. -/
def Admins.RegistersInTime {κ : Type} (s : Admins κ) : Admins.Act κ → Prop
  | .handlePdu _ pdu look _ => pdu.body.broadcasts look = true → ∀ k c, s.conns k = some c → ¬ c.Exposed
  | .timer now _ => ∀ k c, s.conns k = some c → c.Exposed → c.heartbeatDue now = false
  | _ => True

namespace ServConn

variable (look : Lookup) (mgr : Manager) (clientType : UInt16)

theorem isSome_runCommand (command : UInt16) :
    (runCommand look command mgr).isSome = (PduBody.serverCommand command).broadcasts look := by
  unfold runCommand PduBody.broadcasts
  split_ifs <;> simp_all

theorem handlePdu_broadcast_eq_nil (pdu : CImPdu) :
    (handlePdu look mgr clientType pdu).broadcast = [] ↔ pdu.body.broadcasts look = false := by
  unfold handlePdu
  cases pdu.body with
  | serverCommand command =>
    have hsome := isSome_runCommand look mgr command
    dsimp only
    split
    · next hrun =>
      rw [hrun] at hsome
      simp [← hsome]
    · next hrun =>
      rw [hrun] at hsome
      simp [← hsome]
  | clientDone =>
    unfold PduBody.broadcasts
    by_cases hsent : look.sentEmailNum = 0 <;> simp [hsent]
  | adjustRate delay multi =>
    unfold PduBody.broadcasts
    simp [Manager.adjustSendRate]
  | _ =>
    unfold PduBody.broadcasts
    simp

/-- A request gets one reply, and no other PDU gets any. -/
theorem length_handlePdu_replies (pdu : CImPdu) :
    (handlePdu look mgr clientType pdu).replies.length = if pdu.body.isAdminRequest then 1 else 0 := by
  unfold handlePdu
  cases pdu.body with
  | serverCommand command =>
    dsimp only
    split <;> rfl
  | clientDone =>
    dsimp only
    split <;> rfl
  | _ => rfl

/-- Only a registration sets the client type. -/
theorem handlePdu_clientType (pdu : CImPdu) :
    (handlePdu look mgr clientType pdu).clientType =
      match pdu.body with
      | .regClientType type => type
      | _ => clientType := by
  unfold handlePdu
  cases pdu.body with
  | serverCommand command =>
    dsimp only
    split <;> rfl
  | clientDone =>
    dsimp only
    split <;> rfl
  | _ => rfl

end ServConn

namespace Served

section
variable (now : UInt64) (origin : Origin) (pdus : List OutPdu) (c : Served)

@[simp] theorem peer_send : (c.send now origin pdus).peer = c.peer := by unfold send; split <;> rfl

@[simp] theorem handled_send : (c.send now origin pdus).handled = c.handled := by unfold send; split <;> rfl

@[simp] theorem hears_send : (c.send now origin pdus).hears = c.hears := by unfold send; split <;> rfl

theorem send_nil : c.send now origin [] = c := if_pos rfl

theorem origins_send :
    (c.send now origin pdus).written.map Prod.fst = c.written.map Prod.fst ++ List.replicate pdus.length origin := by
  unfold send
  split
  · next hnil => simp [hnil]
  · simp [List.map_const', Function.comp_def]

end

/-- The invariant of a PHP peer's connection. -/
structure Sound (c : Served) : Prop where
  written : c.written.map Prod.fst = (c.handled.filter PduBody.isAdminRequest).map .reply
  registered : c.handled ≠ [] → c.hears = false

section
variable {c : Served} {now : UInt64}

theorem Sound.exposed (h : c.Sound) (hpeer : c.peer = .php) (hhears : c.hears = true) : c.Exposed := by
  refine ⟨hpeer, ?_, hhears⟩
  by_contra hne
  rw [h.registered hne] at hhears
  cases hhears

/-- What a peer that is not exposed gets of a broadcast. -/
theorem Sound.broadcast (h : c.Sound) (hpeer : c.peer = .php) {pdus : List OutPdu}
    (hgood : pdus ≠ [] → ¬ c.Exposed) : (if c.hears then c.send now .broadcast pdus else c) = c := by
  split
  · next hhears =>
    by_cases hnil : pdus = []
    · rw [hnil, send_nil]
    · exact absurd (h.exposed hpeer hhears) (hgood hnil)
  · rfl

theorem Sound.close (h : c.Sound) : ({ c with isOpen := false } : Served).Sound := ⟨h.written, fun _ => rfl⟩

@[simp] theorem peer_onTimer (now : UInt64) (c : Served) : (c.onTimer now).peer = c.peer := by
  rw [onTimer]
  simp only [apply_ite peer, peer_send, ite_self]

theorem onTimer_of_heartbeatDue (h : c.heartbeatDue now = true) :
    (c.onTimer now).written = (c.send now .heartbeat [.emptyHeartbeat]).written ∧
      (c.onTimer now).handled = c.handled := by
  rw [onTimer, h]
  simp only [if_true, apply_ite written, apply_ite handled, handled_send, ite_self, and_self]

/-- The timer writes nothing to a peer that has no heartbeat due. -/
theorem Sound.timer (h : c.Sound) (hpeer : c.peer = .php) (hgood : c.Exposed → c.heartbeatDue now = false) :
    (if c.hears then c.onTimer now else c).Sound := by
  split
  · next hhears =>
    unfold onTimer
    rw [hgood (h.exposed hpeer hhears)]
    simp only [Bool.false_eq_true, if_false]
    split
    · exact h.close
    · exact h
  · exact h

/-- The first PDU of a PHP peer registers it, and no later one changes that. -/
theorem Sound.handle (h : c.Sound) (hpeer : c.peer = .php) {pdu : CImPdu} (hsends : c.Sends pdu.body) (look : Lookup)
    (mgr : Manager) (now : UInt64) :
    let h := ServConn.handlePdu look mgr c.clientType pdu
    let c := { c with clientType := h.clientType, handled := c.handled ++ [pdu.body] }
    c.hears = false ∧ (c.send now (.reply pdu.body) h.replies).Sound := by
  have hhears : (c.isOpen && decide ((ServConn.handlePdu look mgr c.clientType pdu).clientType ≠ clientPhp)) =
      false := by
    rw [ServConn.handlePdu_clientType]
    unfold Sends at hsends
    rw [hpeer] at hsends
    dsimp only at hsends
    split at hsends
    · rw [hsends]
      exact Bool.and_false _
    · next hne =>
      have hreg := h.registered hne
      cases hbody : pdu.body with
      | regClientType type =>
        rw [hbody] at hsends
        cases hsends
      | _ => exact hreg
  refine ⟨hhears, ?_, fun _ => (hears_send ..).trans hhears⟩
  rw [origins_send, handled_send, ServConn.length_handlePdu_replies]
  dsimp only
  rw [h.written, List.filter_append, List.map_append]
  by_cases hrequest : pdu.body.isAdminRequest = true
  · simp [hrequest]
  · simp [hrequest]

end

end Served

namespace Admins

variable {κ : Type}

def Sound (s : Admins κ) : Prop := ∀ k c, s.conns k = some c → c.peer = .php → c.Sound

theorem sound_init (onlineClientNum : UInt16) : (init onlineClientNum : Admins κ).Sound := nofun

theorem Sound.onlyReplies {s : Admins κ} (h : s.Sound) : s.OnlyReplies :=
  fun k c hc hpeer => (h k c hc hpeer).written

variable [DecidableEq κ] {s s' : Admins κ}

@[simp] theorem conns_setConn_self (s : Admins κ) (k : κ) (c : Served) : (s.setConn k c).conns k = some c := by
  simp [Admins.setConn]

theorem conns_setConn_of_ne (s : Admins κ) {k j : κ} (c : Served) (h : j ≠ k) :
    (s.setConn k c).conns j = s.conns j := by
  simp [Admins.setConn, h]

theorem Sound.setConn (h : s.Sound) (k : κ) {c : Served} (hc : c.peer = .php → c.Sound) :
    (s.setConn k c).Sound := by
  intro j d hd hpeer
  by_cases hj : j = k
  · subst hj
    rw [conns_setConn_self] at hd
    obtain rfl := Option.some.inj hd
    exact hc hpeer
  · rw [conns_setConn_of_ne s c hj] at hd
    exact h j d hd hpeer

/-- The connections after a PDU has been handled. -/
theorem conns_reply_broadcast (k : κ) (c : Served) (now : UInt64) (request : PduBody) (pdus replies : List OutPdu)
    (j : κ) :
    (((s.setConn k c).broadcast now pdus).reply k now request replies).conns j =
      if j = k then some ((if c.hears then c.send now .broadcast pdus else c).send now (.reply request) replies)
      else (s.conns j).map fun d => if d.hears then d.send now .broadcast pdus else d := by
  by_cases hj : j = k
  · subst hj
    simp [reply, broadcast, Admins.setConn]
  · simp [reply, broadcast, Admins.setConn, hj]

theorem Sound.handlePdu (h : s.Sound) {k : κ} {pdu : CImPdu} {look : Lookup} {now : UInt64}
    (hgood : s.RegistersInTime (.handlePdu k pdu look now)) (hstep : step (.handlePdu k pdu look now) s = some s') :
    s'.Sound := by
  obtain ⟨c, hopen, hstep⟩ := Option.bind_eq_some_iff.mp hstep
  have hc := (Option.filter_eq_some_iff.mp hopen).1
  simp only [Option.ite_none_right_eq_some, Option.some.injEq] at hstep
  obtain ⟨hsends, rfl⟩ := hstep
  intro j d hd hpeer
  rw [conns_reply_broadcast] at hd
  split at hd
  · next hj =>
    subst hj
    obtain rfl := Option.some.inj hd
    have hpeer₀ : c.peer = .php := by
      rw [← hpeer, Served.peer_send]
      split <;> simp
    obtain ⟨hhears, hsound⟩ := (h j c hc hpeer₀).handle hpeer₀ hsends look s.manager now
    rw [hhears]
    exact hsound
  · obtain ⟨d₀, hd₀, rfl⟩ := Option.map_eq_some_iff.mp hd
    have hpeer₀ : d₀.peer = .php := by
      rw [← hpeer]
      split <;> simp
    rw [(h j d₀ hd₀ hpeer₀).broadcast hpeer₀ fun hne => hgood ?_ j d₀ hd₀]
    · exact h j d₀ hd₀ hpeer₀
    · rw [← Bool.not_eq_false, ← ServConn.handlePdu_broadcast_eq_nil look s.manager c.clientType]
      exact hne

theorem Sound.step (h : s.Sound) {a : Act κ} (hgood : s.RegistersInTime a) (hstep : Admins.step a s = some s') :
    s'.Sound := by
  cases a with
  | accept k peer clientType now =>
    simp only [Admins.step, Option.ite_none_right_eq_some, Option.some.injEq] at hstep
    obtain ⟨_, rfl⟩ := hstep
    exact h.setConn k fun _ => ⟨rfl, fun hne => absurd rfl hne⟩
  | recv k now =>
    obtain ⟨c, hopen, hstep⟩ := Option.bind_eq_some_iff.mp hstep
    have hc := (Option.filter_eq_some_iff.mp hopen).1
    obtain rfl := Option.some.inj hstep
    exact h.setConn k fun hpeer => ⟨(h k c hc hpeer).written, (h k c hc hpeer).registered⟩
  | handlePdu k pdu look now => exact h.handlePdu hgood hstep
  | timer now onlineClientNum =>
    obtain rfl := Option.some.inj hstep
    intro k c hc hpeer
    obtain ⟨c₀, hc₀, rfl⟩ := Option.map_eq_some_iff.mp hc
    have hpeer₀ : c₀.peer = .php := by
      rw [← hpeer]
      split <;> simp
    exact (h k c₀ hc₀ hpeer₀).timer hpeer₀ (hgood k c₀ hc₀)
  | close k =>
    obtain ⟨c, hopen, hstep⟩ := Option.bind_eq_some_iff.mp hstep
    have hc := (Option.filter_eq_some_iff.mp hopen).1
    obtain rfl := Option.some.inj hstep
    exact h.setConn k fun hpeer => (h k c hc hpeer).close

/-- In a run in which every PHP peer is registered in time, each one reads the replies to its requests and
nothing else. -/
theorem onlyReplies_of_registersInTime {onlineClientNum : UInt16}
    (h : Transition.Reaches Admins.step RegistersInTime (init onlineClientNum) s) : s.OnlyReplies := by
  refine Sound.onlyReplies (h.invariant (motive := Sound) (sound_init onlineClientNum) ?keep)
  exact fun _ _ _ hs hgood hstep => hs.step hgood hstep

/-- A registration and a command of a PHP peer, as they are decoded. -/
def registration : CImPdu := ⟨⟨14, sidOther, cidOtherRegClientType, pduVersion, 0⟩, 14, .regClientType clientPhp⟩

def stopCommand : CImPdu := ⟨⟨14, sidCommand, cidCommandStop, pduVersion, 0⟩, 14, .serverCommand cidCommandStop⟩

/-- A client hears of the command of a registered administrator, who reads the reply. -/
theorem onlyReplies_after_stop : ∃ s : Admins Bool,
    (∃ c, s.conns false = some c ∧ c.peer = .php ∧ c.written = [(.reply stopCommand.body, .response 0 successText)]) ∧
    (∃ c, s.conns true = some c ∧ c.peer = .cpp ∧ c.written = [(.broadcast, .serverCommand cidCommandStop)]) ∧
    s.OnlyReplies := by
  have h0 : Transition.Reaches Admins.step RegistersInTime (init 0 : Admins Bool) _ := .start
  have h1 := h0.step (Act.accept false .php 0 0) trivial rfl
  have h2 := h1.step (Act.handlePdu false registration ⟨0, 0, []⟩ 1) nofun rfl
  have h3 := h2.step (Act.accept true .cpp 0 2) trivial rfl
  have h4 := h3.step (Act.handlePdu false stopCommand ⟨0, 0, []⟩ 3) (by
    rintro _ (_ | _) c hc ⟨hpeer, hhandled, _⟩
    · obtain rfl := Option.some.inj hc
      cases hhandled
    · obtain rfl := Option.some.inj hc
      cases hpeer) rfl
  exact ⟨_, ⟨_, rfl, rfl, rfl⟩, ⟨_, rfl, rfl, rfl⟩, onlyReplies_of_registersInTime h4⟩

/-- The command of one administrator reaches another one, whose registration is still to be handled. -/
theorem not_onlyReplies_after_stop : ∃ s : Admins Bool, Transition.Reachable Admins.step (init 0) s ∧
    (∃ c, s.conns true = some c ∧ c.peer = .php ∧ c.handled = [registration.body] ∧
      c.written = [(.broadcast, .serverCommand cidCommandStop)]) ∧ ¬ s.OnlyReplies := by
  have hrun : Transition.Reachable Admins.step (init 0 : Admins Bool) _ := Transition.reachable_of_run
    [.accept false .php 0 0, .handlePdu false registration ⟨0, 0, []⟩ 1, .accept true .php 0 2,
      .handlePdu false stopCommand ⟨0, 0, []⟩ 3, .handlePdu true registration ⟨0, 0, []⟩ 4] rfl
  exact ⟨_, hrun, ⟨_, rfl, rfl, rfl, rfl⟩, fun h => absurd (h true _ rfl rfl) (by decide)⟩

omit [DecidableEq κ] in
/-- What is written to an exposed peer is no reply. -/
theorem not_onlyReplies_of_send {k : κ} {c c' : Served} (h : s.OnlyReplies) (hc : s.conns k = some c)
    (hexposed : c.Exposed)
    {now : UInt64} {origin : Origin} {pdus : List OutPdu} (hpdus : pdus ≠ []) (hc' : s'.conns k = some c')
    (hpeer : c'.peer = c.peer) (hhandled : c'.handled = c.handled)
    (hwritten : c'.written = (c.send now origin pdus).written) : ¬ s'.OnlyReplies := by
  obtain ⟨hphp, hnone, _⟩ := hexposed
  intro hreplies
  have hold := h k c hc hphp
  have hnew := hreplies k c' hc' (hpeer.trans hphp)
  rw [hwritten, Served.origins_send, hold, hhandled, hnone] at hnew
  exact hpdus (List.eq_nil_of_length_eq_zero (by simpa using hnew))

/-- Any other step writes to a PHP peer what it has not asked for. -/
theorem not_onlyReplies_of_not_registersInTime {a : Act κ} (h : s.OnlyReplies) (hbad : ¬ s.RegistersInTime a)
    (hstep : Admins.step a s = some s') : ¬ s'.OnlyReplies := by
  cases a with
  | handlePdu k pdu look now =>
    simp only [RegistersInTime, Classical.not_imp, not_forall, not_not] at hbad
    obtain ⟨hbroadcasts, j, c, hc, hexposed⟩ := hbad
    obtain ⟨c₀, hopen, hstep⟩ := Option.bind_eq_some_iff.mp hstep
    simp only [Option.ite_none_right_eq_some, Option.some.injEq] at hstep
    obtain ⟨hsends, rfl⟩ := hstep
    have hj : j ≠ k := by
      rintro rfl
      -- the first PDU of an exposed peer is its registration
      obtain rfl := Option.some.inj (hc.symm.trans (Option.filter_eq_some_iff.mp hopen).1)
      simp only [Served.Sends, hexposed.1, hexposed.2.1, if_true] at hsends
      rw [hsends] at hbroadcasts
      cases hbroadcasts
    have hpdus : (ServConn.handlePdu look s.manager c₀.clientType pdu).broadcast ≠ [] := by
      rw [ne_eq, ServConn.handlePdu_broadcast_eq_nil, hbroadcasts]
      exact nofun
    refine not_onlyReplies_of_send h hc hexposed hpdus ?conn (c.peer_send now .broadcast _)
      (c.handled_send now .broadcast _) rfl
    rw [conns_reply_broadcast, if_neg hj, hc, Option.map_some, if_pos hexposed.2.2]
  | timer now onlineClientNum =>
    simp only [RegistersInTime, not_forall, Bool.not_eq_false] at hbad
    obtain ⟨k, c, hc, hexposed, hdue⟩ := hbad
    obtain rfl := Option.some.inj hstep
    have hc' : (s.timerCallback now).conns k = some (c.onTimer now) := by
      simp only [timerCallback, hc, Option.map_some, hexposed.2.2, if_true]
    obtain ⟨hwritten, hhandled⟩ := Served.onTimer_of_heartbeatDue hdue
    exact not_onlyReplies_of_send h hc hexposed (List.cons_ne_nil _ _) hc' (c.peer_onTimer now) hhandled hwritten
  | _ => exact absurd trivial hbad

end Admins

end PostfixEdm
