import PostfixEdm.Client.EventLoop
import PostfixEdm.Event.Values

/-!
# No write edge of the client is lost

* `ClientConn.onWriteCalls` : the calls of `netlib_send` while `CBaseSocket::OnWrite` runs;
* `Client.EdgeKept` : when `OnWrite` returns for a socket that is connected, `m_out_buf` is empty or a call was short,
  so that a further write edge is due;
* `Client.ConfirmsIdle` : the connection is not confirmed while data is queued for it;
* `Client.edgeKept_of_confirmsIdle` : what holds of every call of `OnWrite` in every run. A `Send` before the
  connection is confirmed queues data, and the edge that confirms it sends nothing (`not_edgeKept_of_busy`).
-/

namespace PostfixEdm

namespace ClientConn

/-- The calls of `netlib_send` of one `SendPdu` after the other. -/
def sendPduCalls (id : Nat) : List OutPdu → ClientLoop → Except Halt (List SendCall)
  | [], _ => .ok []
  | pdu :: pdus, s => do
    let c ← s.conns.get id
    let calls := c.im.sendCalls (s.answers c.handle) (pdu.encode s.env.heap).contents
    let s ← s.sendPdu id pdu
    let rest ← sendPduCalls id pdus s
    .ok (calls ++ rest)

/-- The calls of `netlib_send` of one `CImConn::OnWrite`. -/
def imConnWriteCalls (id : Nat) (s : ClientLoop) : Except Halt (List SendCall) := do
  let c ← s.conns.get id
  .ok (c.im.writeCalls (s.answers c.handle))

/-- The calls of `netlib_send` while `imconn_callback` runs, by those of the method that it calls. -/
def callbackCalls (calls : Nat → ClientLoop → Except Halt (List SendCall)) (handle : Fd) (s : ClientLoop) :
    Except Halt (List SendCall) := do
  let (p, s) ← s.findImConn handle
  match p with
  | none => .ok []
  | some id => calls id s

/-- The calls of `netlib_send` while `CBaseSocket::OnWrite` runs; `cClientConn::OnClose` makes none. -/
def onWriteCalls (soError : Bool) (id : Nat) (s : ClientLoop) : Except Halt (List SendCall) := do
  let sock ← s.sockets.get id
  if sock.state = .connecting then
    if soError then .ok []
    else do
      let s ← s.modifySocket id fun sock => { sock with state := .connected }
      callbackCalls (fun id => sendPduCalls id onConfirm) sock.socket s
  else callbackCalls imConnWriteCalls sock.socket s

end ClientConn

namespace Client

/-- Nothing is buffered, or a call was short. -/
def Due (calls : List SendCall) (c : Conn Unit) : Prop :=
  c.im.outBuf.writeOffset = 0 ∨ ∃ call ∈ calls, call.Short

/-- When `OnWrite` of the socket `id` returns and the socket is connected, nothing is buffered or a further edge is
due. -/
def EdgeKept (parse : JsonReader) (soError : Bool) (id : Nat) (s : ClientLoop) : Prop :=
  Yields (s.baseOnWrite (ClientConn.connClass parse) soError id) fun s' =>
    ∃ calls, ClientConn.onWriteCalls soError id s = .ok calls ∧
      ∀ sock c, s'.sockets.value id = some sock → sock.state = .connected →
        s'.conns.registered sock.socket = some c → Due calls c

/-- The connection is not confirmed while data is queued for it. -/
def ConfirmsIdle (soError : Bool) (id : Nat) (s : ClientLoop) : Prop :=
  ∀ sock c, s.sockets.value id = some sock → sock.state = .connecting → soError = false →
    s.conns.registered sock.socket = some c → c.im.busy = false

/-- In a step from `r`, `OnWrite` of the socket `id` is called in the state `s`. -/
def CallsOnWrite (parse : JsonReader) (a : Act) (r : ClientLoop) (soError : Bool) (id : Nat) (s : ClientLoop) : Prop :=
  ∃ ev s₁, a.input = .event ev ∧ ev.epollout = some soError ∧ (meets a r).findBaseSocket ev.fd = .ok (some id, s₁) ∧
    s₁.ifSet ev.epollin (fun input => Loop.baseOnRead (ClientConn.connClass parse) input id) = .ok s

end Client

open Loop RefTable

/-! ## The flags in every run -/

namespace ClientConn

variable {s : ClientLoop} {id : Nat} {soError : Bool}

theorem close_left (id : Nat) :
    Yields (close id s) fun s' => Left s.sockets s'.sockets ∧ Left s.conns s'.conns := by
  have hrelease : ∀ s₁ : ClientLoop, Yields (s₁.releaseConn id) fun s' =>
      Left s₁.sockets s'.sockets ∧ Left s₁.conns s'.conns := by
    intro s₁
    exact (releaseConn_left id).mono fun s' ⟨hsockets, _, hleft⟩ => ⟨left_of_eq hsockets, hleft⟩
  refine Yields.bind_of_eq fun c _ => ?_
  split
  · refine (dropHandle_left c.handle).bind fun s₁ _ ⟨hsockets₁, hconns₁⟩ => ?_
    exact (hrelease s₁).mono fun s₂ h₂ => ⟨hsockets₁.trans h₂.1, hconns₁.trans h₂.2⟩
  · exact hrelease s

theorem close_flagged (h : s.Flagged) (id : Nat) : Yields (close id s) Flagged :=
  (close_left id).mono fun _ hleft => h.left hleft.1 hleft.2

theorem keepsFlags (parse : JsonReader) : (connClass parse).KeepsFlags where
  onConfirm := fun id h => Yields.foldlM (fun _ _ h₁ => h₁.send id _) h
  handlePdu := fun _ _ _ h => Yields.ok ⟨h.sockets, h.conns⟩
  onClose := fun id h => close_flagged h id

theorem connectServer_flagged (h : s.Flagged) : Yields (connectServer s) Flagged := by
  have hnew : (netlibConnect (construct s)).2.Flagged := by
    refine ⟨?_, h.conns.new CImConn.flagged_init⟩
    refine All.left ?_ (left_of_value (value_insert _ _ _))
    exact h.sockets.new ⟨rfl, rfl, nofun⟩
  refine (hnew.modifyConn s.conns.next fun _ hc => by exact hc).bind fun s₁ _ h₁ => Yields.ok ⟨h₁.sockets, ?_⟩
  exact h₁.conns.left (left_of_value (value_insert _ _ _))

theorem reconnectOnTimeout_flagged (h : s.Flagged) (currTick : UInt64) (id : Nat) :
    Yields (reconnectOnTimeout currTick id s) Flagged := by
  refine Yields.bind_of_eq fun c _ => ?_
  split
  · refine (h.remoteAddress c.handle).bind fun s₁ _ h₁ => ?_
    refine (close_flagged h₁ id).bind fun s₂ _ h₂ => ?_
    split
    · exact connectServer_flagged h₂
    · exact Yields.ok h₂
  · exact Yields.ok h

theorem onTimer_flagged (h : s.Flagged) (currTick : UInt64) (id : Nat) :
    Yields (onTimer currTick id s) Flagged := by
  refine Yields.bind_of_eq fun c _ => ?_
  split
  · refine Yields.bind (P := Flagged) ?heartbeat fun s₁ _ h₁ => reconnectOnTimeout_flagged h₁ currTick id
    refine (h.send id _).bind fun s₁ _ h₁ => Yields.ok ⟨h₁.sockets, h₁.conns⟩
  · exact reconnectOnTimeout_flagged h currTick id

end ClientConn

namespace Client

variable {parse : JsonReader} {env : LoopEnv} {world : ClientWorld}

theorem start_flagged (env : LoopEnv) (world : ClientWorld) : Yields (start env world) Flagged :=
  ClientConn.connectServer_flagged ⟨all_empty, all_empty⟩

theorem meets_flagged (a : Act) {s : ClientLoop} (h : s.Flagged) : (meets a s).Flagged := ⟨h.sockets, h.conns⟩

theorem step_flagged {a : Act} {s : ClientLoop} (h : s.Flagged) {r : Except Halt ClientLoop}
    (hstep : step parse a (.ok s) = some r) : Yields r Flagged := by
  have hmeets := meets_flagged a h
  unfold step at hstep
  dsimp only at hstep
  split at hstep
  · obtain rfl := Option.some.inj hstep
    exact hmeets.event (ClientConn.keepsFlags parse) _
  · obtain rfl := Option.some.inj hstep
    have htick : (meets a s).nextTick.Flagged := ⟨hmeets.sockets, hmeets.conns⟩
    exact htick.forEachConn fun s id h => ClientConn.onTimer_flagged h _ id
  · obtain rfl := Option.some.inj hstep
    exact hmeets.forEachConn fun s id h => h.send id _

theorem flagged_of_reachable {s : ClientLoop} (h : Transition.Reachable (step parse) (start env world) (.ok s)) :
    s.Flagged := by
  refine h.invariant (motive := fun r => Yields r Flagged) (start_flagged env world) (fun r a r' hr _ hstep => ?_) s rfl
  cases r with
  | error e => cases hstep
  | ok s => exact step_flagged (hr s rfl) hstep

/-- `OnRead` before it does not change that. -/
theorem flagged_of_callsOnWrite {a : Act} {r s : ClientLoop} (hr : r.Flagged) {soError : Bool} {id : Nat}
    (hcall : CallsOnWrite parse a r soError id s) : s.Flagged := by
  obtain ⟨ev, s₁, _, _, hfind, hread⟩ := hcall
  have h₁ := (meets_flagged a hr).findBaseSocket ev.fd _ hfind
  exact h₁.ifSet (fun input => h₁.baseOnRead (ClientConn.keepsFlags parse) input id) s hread

end Client

/-! ## The calls and what is left -/

/-- What a method does in `imconn_callback`: `P` is what its connection is before, and `R` relates the calls to what
it is then. -/
def ClientConn.Calling (method : Nat → ClientLoop → Except Halt ClientLoop)
    (callsOf : Nat → ClientLoop → Except Halt (List SendCall)) (P : Conn Unit → Prop)
    (R : List SendCall → Conn Unit → Prop) : Prop :=
  ∀ id s, (∀ c, s.conns.value id = some c → P c) →
    Yields (method id s) fun s' => Left s.sockets s'.sockets ∧ s'.conns.map = s.conns.map ∧
      ∃ calls, callsOf id s = .ok calls ∧ ∀ c, s'.conns.value id = some c → R calls c

namespace ClientConn

open Client

theorem onWrite_calling : Calling (fun id s => s.onWrite id) imConnWriteCalls (fun c => c.im.Flagged) Due := by
  intro id s hP
  refine (onWrite_ims id).mono fun s' ⟨c₀, hc₀, hims⟩ =>
    ⟨hims.sockets, hims.map, c₀.im.writeCalls (s.answers c₀.handle), ?_, fun c hc => ?_⟩
  · unfold imConnWriteCalls
    rw [hc₀]
    rfl
  · obtain ⟨c', hc', him⟩ := hims.ims id c hc
    obtain rfl := Option.some.inj (hc'.symm.trans (value_of_get hc₀))
    rw [if_pos rfl] at him
    unfold Due
    rw [him]
    exact CImConn.onWrite_due (hP _ hc') _

/-- One `SendPdu` after the other is one `Send` after the other. -/
theorem sendPdus_calling (pdus : List OutPdu) (conn : CImConn) :
    Calling (fun id s => pdus.foldlM (fun s pdu => s.sendPdu id pdu) s) (fun id => sendPduCalls id pdus)
      (fun c => c.im = conn) fun calls c => ∃ inputs, conn.sendAll inputs = (calls, c.im) ∧
        List.Forall₂ (fun input pdu => ∃ heap, input.data = (OutPdu.encode heap pdu).contents) inputs pdus := by
  induction pdus generalizing conn with
  | nil =>
    intro id s hP
    exact Yields.ok ⟨.refl _, rfl, [], rfl, fun c hc => ⟨[], by rw [hP c hc]; rfl, .nil⟩⟩
  | cons pdu pdus ih =>
    intro id s hP
    dsimp only
    rw [List.foldlM_cons]
    refine (send_ims id _).bind fun s₁ hs₁ ⟨c₀, hc₀, hims⟩ => ?_
    have hfirst := hP c₀ (value_of_get hc₀)
    have hnext : ∀ c, s₁.conns.value id = some c →
        c.im = (conn.send s.env.heap (s.answers c₀.handle) (pdu.encode s.env.heap).contents).2 := by
      intro c hc
      obtain ⟨c', hc', him⟩ := hims.ims id c hc
      rw [if_pos rfl, hP c' hc'] at him
      exact him
    refine (ih _ id s₁ hnext).mono fun s' ⟨hleft, hmap, calls, hcalls, hends⟩ =>
      ⟨hims.sockets.trans hleft, hmap.trans hims.map,
        c₀.im.sendCalls (s.answers c₀.handle) (pdu.encode s.env.heap).contents ++ calls, ?_, fun c hc => ?_⟩
    · unfold sendPduCalls
      rw [hc₀]
      change (s.send id _ >>= _) = _
      rw [hs₁]
      dsimp only at hcalls
      change (sendPduCalls id pdus s₁ >>= _) = _
      rw [hcalls]
      rfl
    · obtain ⟨inputs, hall, hdata⟩ := hends c hc
      refine ⟨⟨s.env.heap, s.answers c₀.handle, (pdu.encode s.env.heap).contents⟩ :: inputs, ?_, .cons ⟨_, rfl⟩ hdata⟩
      unfold CImConn.sendAll
      dsimp only
      rw [hall, hfirst]

theorem onConfirm_calling : Calling sendOnConfirm (fun id => sendPduCalls id onConfirm)
    (fun c => c.im.busy = false ∧ c.im.Flagged) Due := by
  intro id s hP
  obtain ⟨conn, hconn, hidle, hflagged⟩ : ∃ conn, (∀ c, s.conns.value id = some c → c.im = conn) ∧
      conn.busy = false ∧ conn.Flagged := by
    cases hc : s.conns.value id with
    | none => exact ⟨.init, nofun, rfl, CImConn.flagged_init⟩
    | some c =>
      refine ⟨c.im, fun c' hc' => ?_, hP c hc⟩
      rw [Option.some.inj hc']
  refine (sendPdus_calling onConfirm conn id s hconn).mono fun s' ⟨hleft, hmap, calls, hcalls, hends⟩ =>
    ⟨hleft, hmap, calls, hcalls, fun c hc => ?_⟩
  obtain ⟨inputs, hall, _⟩ := hends c hc
  have hdue := CImConn.sendAll_due inputs hidle
  rw [hall] at hdue
  refine hdue.imp_left fun hsame => ?_
  dsimp only at hsame
  rw [hsame]
  exact hflagged hidle

/-- An encoded PDU is as long as its frame. -/
theorem length_sendInputs {inputs : List SendInput} {pdus : List OutPdu} (hpdus : ∀ pdu ∈ pdus, pdu.Encodable)
    (h : List.Forall₂ (fun input pdu => ∃ heap, input.data = (OutPdu.encode heap pdu).contents) inputs pdus) :
    (inputs.map fun input => input.data.length) = pdus.map fun pdu => 12 + pdu.body.length := by
  induction h with
  | nil => rfl
  | @cons input pdu inputs pdus hdata _ ih =>
    obtain ⟨heap, hdata⟩ := hdata
    rw [List.map_cons, List.map_cons, ih fun pdu hmem => hpdus pdu (List.mem_cons_of_mem _ hmem), hdata,
      (OutPdu.encode_contents heap (hpdus pdu List.mem_cons_self)).1, length_frame]

/-- While something is buffered, the PDUs of `OnConfirm` are, and no call is made. -/
theorem onConfirm_calling_busy {conn : CImConn} (hbusy : conn.busy = true)
    (hsize : conn.outBuf.writeOffset.toNat < 2 ^ 31) :
    Calling sendOnConfirm (fun id => sendPduCalls id onConfirm) (fun c => c.im = conn)
      fun calls c => calls = [] ∧ c.im.outBuf.writeOffset ≠ 0 := by
  intro id s hP
  refine (sendPdus_calling onConfirm conn id s hP).mono fun s' ⟨hleft, hmap, calls, hcalls, hends⟩ =>
    ⟨hleft, hmap, calls, hcalls, fun c hc => ?_⟩
  obtain ⟨inputs, hall, hdata⟩ := hends c hc
  have hsum : (inputs.map fun input => input.data.length).sum = 41 := by
    rw [length_sendInputs (fun pdu hmem => ?_) hdata]
    · rfl
    · simp only [onConfirm, List.mem_cons, List.not_mem_nil, or_false] at hmem
      rcases hmem with rfl | rfl <;> exact ⟨by decide, by decide⟩
  obtain ⟨hnil, hoffset⟩ := CImConn.sendAll_busy inputs hbusy (by omega)
  rw [hall] at hnil hoffset
  refine ⟨hnil, fun hzero => ?_⟩
  dsimp only at hoffset
  rw [hzero, hsum] at hoffset
  exact absurd hoffset.symm (Nat.succ_ne_zero _)

/-- `imconn_callback` calls the method on the connection that is registered. -/
theorem callback_calling (parse : JsonReader) (msg : NetlibMsg)
    {callsOf : Nat → ClientLoop → Except Halt (List SendCall)}
    {P : Conn Unit → Prop} {R : List SendCall → Conn Unit → Prop}
    (hcalling : Calling (fun id s => s.onMsg (connClass parse) msg id) callsOf P R) {fd : Fd} {s : ClientLoop}
    (hP : ∀ c, s.conns.registered fd = some c → P c) :
    Yields (s.imconnCallback (connClass parse) msg fd) fun s' => Left s.sockets s'.sockets ∧
      ∃ calls, callbackCalls callsOf fd s = .ok calls ∧ ∀ c, s'.conns.registered fd = some c → R calls c := by
  refine (findImConn_left fd).bind fun ⟨p, s₁⟩ hfind ⟨hsockets₁, hmap₁, hleft₁, hp⟩ => ?_
  dsimp only at hsockets₁ hmap₁ hleft₁ hp
  unfold callbackCalls
  rw [hfind]
  cases p with
  | none =>
    refine Yields.ok ⟨left_of_eq hsockets₁, [], rfl, fun c hc => ?_⟩
    obtain ⟨id, hid, _⟩ := Option.bind_eq_some_iff.mp hc
    rw [hmap₁, ← hp] at hid
    cases hid
  | some id =>
    have hP₁ : ∀ c, s₁.conns.value id = some c → P c := fun c hc =>
      hP c (registered_of_lookup hp.symm (hleft₁ id c hc))
    refine (hcalling id s₁ hP₁).bind fun s₂ _ ⟨hleft₂, hmap₂, calls, hcalls, hR⟩ => ?_
    refine (releaseConn_left id).mono fun s₃ ⟨hsockets₃, hmap₃, hleft₃⟩ => ⟨?_, calls, hcalls, fun c hc => ?_⟩
    · rw [hsockets₃, ← hsockets₁]
      exact hleft₂
    · obtain ⟨id', hid', hvalue⟩ := Option.bind_eq_some_iff.mp hc
      rw [hmap₃, hmap₂, hmap₁, ← hp] at hid'
      obtain rfl := Option.some.inj hid'
      exact hR c (hleft₃ id c hvalue)

end ClientConn

namespace Client

open ClientConn

variable {parse : JsonReader} {soError : Bool} {id : Nat} {s : ClientLoop}

/-- The edge that confirms the connection: the socket is connected from then on. -/
theorem confirm_calling {sock : CBaseSocket} (hsock : s.sockets.get id = .ok sock) (hcalls : Calls sock)
    (hconnecting : sock.state = .connecting) {P : Conn Unit → Prop} {R : List SendCall → Conn Unit → Prop}
    (hcalling : Calling (sendOnConfirm) (fun id => sendPduCalls id onConfirm) P R)
    (hP : ∀ c, s.conns.registered sock.socket = some c → P c) :
    Yields (s.baseOnWrite (connClass parse) false id) fun s' => ∃ calls, onWriteCalls false id s = .ok calls ∧
      ∀ sock' c, s'.sockets.value id = some sock' → s'.conns.registered sock'.socket = some c → R calls c := by
  unfold Loop.baseOnWrite onWriteCalls
  rw [hsock]
  change Yields (ite _ _ _) _
  rw [if_pos hconnecting, if_neg Bool.false_ne_true]
  refine (modifySocket_turns id _).bind fun s₁ hs₁ ⟨hturns₁, hconns₁⟩ => ?_
  obtain ⟨hcallback, hdata, _⟩ := hcalls
  unfold Loop.invoke
  rw [hcallback, hdata]
  refine (callback_calling parse .confirm hcalling fun c hc => ?_).mono
    fun s' ⟨hleft, calls, hcallsOf, hR⟩ => ⟨calls, ?_, fun sock' c hsock' hc => ?_⟩
  · rw [hconns₁] at hc
    exact hP c hc
  · change (ite _ _ _) = _
    rw [if_pos hconnecting, if_neg Bool.false_ne_true, hs₁]
    exact hcallsOf
  · obtain ⟨a, ha, rfl⟩ := hturns₁.2 id sock' (hleft id sock' hsock')
    obtain rfl := Option.some.inj (ha.symm.trans (value_of_get hsock))
    rw [if_pos rfl] at hc
    exact hR c hc

/-- A connection that fails is closed, and its socket does not become connected. -/
theorem fail_left (fd : Fd) :
    Yields (s.imconnCallback (connClass parse) .close fd) fun s' => Left s.sockets s'.sockets := by
  refine (findImConn_left fd).bind fun ⟨p, s₁⟩ _ ⟨hsockets₁, _, _, _⟩ => ?_
  dsimp only at hsockets₁
  rw [← hsockets₁]
  cases p with
  | none => exact Yields.ok (.refl _)
  | some cid =>
    refine (close_left cid).bind fun s₂ _ ⟨hleft₂, _⟩ => ?_
    refine (releaseConn_left cid).mono fun s₃ ⟨hsockets₃, _⟩ => ?_
    rw [hsockets₃]
    exact hleft₂

/-- No call of `OnWrite` loses an edge, unless it confirms a connection for which data is queued. -/
theorem edgeKept_of_flagged (h : s.Flagged) (hidle : ConfirmsIdle soError id s) : EdgeKept parse soError id s := by
  unfold EdgeKept
  cases hsock : s.sockets.get id with
  | error e =>
    unfold Loop.baseOnWrite
    rw [hsock]
    exact Yields.error
  | ok sock =>
    have hvalue := value_of_get hsock
    have hcalls := h.sockets id sock hvalue
    by_cases hconnecting : sock.state = .connecting
    · cases soError with
      | true =>
        unfold Loop.baseOnWrite onWriteCalls
        rw [hsock]
        change Yields (ite _ _ _) _
        rw [if_pos hconnecting, if_pos rfl]
        unfold Loop.invoke
        rw [hcalls.1, hcalls.2.1]
        refine (fail_left _).mono fun s' hleft => ⟨[], ?_, fun sock' c hsock' hconnected => ?_⟩
        · exact (if_pos hconnecting).trans (if_pos rfl)
        · obtain rfl := Option.some.inj ((hleft id sock' hsock').symm.trans hvalue)
          rw [hconnecting] at hconnected
          cases hconnected
      | false =>
        refine (confirm_calling hsock hcalls hconnecting onConfirm_calling fun c hc => ?_).mono
          fun s' ⟨calls, hcallsOf, hdue⟩ => ⟨calls, hcallsOf, fun sock' c hsock' _ hc => hdue sock' c hsock' hc⟩
        obtain ⟨cid, _, hc'⟩ := Option.bind_eq_some_iff.mp hc
        exact ⟨hidle sock c hvalue hconnecting rfl hc, h.conns cid c hc'⟩
    · unfold Loop.baseOnWrite onWriteCalls
      rw [hsock]
      change Yields (ite _ _ _) _
      rw [if_neg hconnecting]
      unfold Loop.invoke
      rw [hcalls.1, hcalls.2.1]
      refine (callback_calling parse .write onWrite_calling fun c hc => ?_).mono
        fun s' ⟨hleft, calls, hcallsOf, hdue⟩ => ⟨calls, ?_, fun sock' c hsock' _ hc => ?_⟩
      · obtain ⟨cid, _, hc'⟩ := Option.bind_eq_some_iff.mp hc
        exact h.conns cid c hc'
      · exact (if_neg hconnecting).trans hcallsOf
      · obtain rfl := Option.some.inj ((hleft id sock' hsock').symm.trans hvalue)
        exact hdue c hc

/-- What is queued stays queued when the connection is confirmed, and nothing is tried. -/
theorem not_edgeKept_of_busy (h : s.Flagged) {sock : CBaseSocket} {c : Conn Unit}
    (hsock : s.sockets.value id = some sock)
    (hconnecting : sock.state = .connecting) (hc : s.conns.registered sock.socket = some c) (hbusy : c.im.busy = true)
    (hsize : c.im.outBuf.writeOffset.toNat < 2 ^ 31) :
    Yields (s.baseOnWrite (connClass parse) false id) fun s' => ∃ calls, onWriteCalls false id s = .ok calls ∧
      ∀ sock' c', s'.sockets.value id = some sock' → s'.conns.registered sock'.socket = some c' →
        calls = [] ∧ c'.im.outBuf.writeOffset ≠ 0 := by
  refine confirm_calling (get_of_value hsock) (h.sockets id sock hsock) hconnecting
    (onConfirm_calling_busy hbusy hsize) fun c' hc' => ?_
  rw [Option.some.inj (hc'.symm.trans hc)]

/-- In every run: when `OnWrite` returns for a connected socket, nothing is buffered or a further write edge is due,
unless the call has confirmed a connection for which data was queued. -/
theorem edgeKept_of_confirmsIdle {env : LoopEnv} {world : ClientWorld} {r : ClientLoop}
    (h : Transition.Reachable (step parse) (start env world) (.ok r)) {a : Act}
    (hcall : CallsOnWrite parse a r soError id s)
    (hidle : ConfirmsIdle soError id s) : EdgeKept parse soError id s :=
  edgeKept_of_flagged (flagged_of_callsOnWrite (flagged_of_reachable h) hcall) hidle

/-- The socket can be written. -/
def writable : Loop.Event := ⟨1, none, some false, none⟩

/-- The connection is confirmed before anything is sent. -/
theorem edgeKept_first : ∃ r s, Transition.Reachable (step digitReader) started (.ok r) ∧
    CallsOnWrite digitReader (act 1 (.event writable)) r false 0 s ∧ ConfirmsIdle false 0 s ∧
    EdgeKept digitReader false 0 s := by
  obtain ⟨r, hr⟩ : ∃ r, started = .ok r := ⟨_, rfl⟩
  obtain ⟨s, hcall, sock, hsock, c, hc, hidle⟩ : ∃ s, CallsOnWrite digitReader (act 1 (.event writable)) r false 0 s ∧
      ∃ sock, s.sockets.value 0 = some sock ∧ ∃ c, s.conns.registered sock.socket = some c ∧ c.im.busy = false := by
    cases hr
    exact ⟨_, ⟨writable, _, rfl, rfl, rfl, rfl⟩, _, rfl, _, rfl, rfl⟩
  have hreach : Transition.Reachable (step digitReader) started (.ok r) := hr ▸ .start
  have hidle : ConfirmsIdle false 0 s := by
    intro sock' c' hsock' _ _ hc'
    obtain rfl := Option.some.inj (hsock'.symm.trans hsock)
    obtain rfl := Option.some.inj (hc'.symm.trans hc)
    exact hidle
  exact ⟨r, s, hreach, hcall, hidle, edgeKept_of_confirmsIdle hreach hcall hidle⟩

/-- The status request of `init_client_conn` is sent before the connection is confirmed, and stays where it is. -/
theorem not_edgeKept_after_init : ∃ r s,
    Transition.run (step digitReader) [act 0 (.sendServerPdu .serverStatusRequest)] started = some (.ok r) ∧
    CallsOnWrite digitReader (act 1 (.event writable)) r false 0 s ∧ ¬ EdgeKept digitReader false 0 s := by
  obtain ⟨r, hrun, s, hcall, sock, hsock, hconnecting, c, hc, hbusy, hsize, s', hs', sock', hsock',
    hconnected, c', hc'⟩ : ∃ r,
      Transition.run (step digitReader) [act 0 (.sendServerPdu .serverStatusRequest)] started = some (.ok r) ∧
      ∃ s, CallsOnWrite digitReader (act 1 (.event writable)) r false 0 s ∧
      ∃ sock, s.sockets.value 0 = some sock ∧ sock.state = .connecting ∧
      ∃ c, s.conns.registered sock.socket = some c ∧ c.im.busy = true ∧ c.im.outBuf.writeOffset.toNat < 2 ^ 31 ∧
      ∃ s', s.baseOnWrite (connClass digitReader) false 0 = .ok s' ∧
      ∃ sock', s'.sockets.value 0 = some sock' ∧ sock'.state = .connected ∧
      ∃ c', s'.conns.registered sock'.socket = some c' := by
    exact ⟨_, rfl, _, ⟨writable, _, rfl, rfl, rfl, rfl⟩, _, rfl, rfl, _, rfl, rfl,
      by decide, _, rfl, _, rfl, rfl, _, rfl⟩
  have hreach := Transition.reachable_of_run _ hrun
  refine ⟨r, s, hrun, hcall, fun hkept => ?_⟩
  have hflagged := flagged_of_callsOnWrite (flagged_of_reachable hreach) hcall
  obtain ⟨calls, hcalls, hstranded⟩ := not_edgeKept_of_busy hflagged hsock hconnecting hc hbusy hsize s' hs'
  obtain ⟨hnil, hoffset⟩ := hstranded sock' c' hsock' hc'
  obtain ⟨calls', hcalls', hdue⟩ := hkept s' hs'
  obtain rfl := Except.ok.inj (hcalls.symm.trans hcalls')
  rcases hdue sock' c' hsock' hconnected hc' with hzero | ⟨call, hmem, _⟩
  · exact hoffset hzero
  · rw [hnil] at hmem
    cases hmem

end Client

end PostfixEdm
