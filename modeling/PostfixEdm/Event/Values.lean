import PostfixEdm.Event.Safety
import PostfixEdm.Conn.WriteEdge

/-!
# What the methods do to sockets and connections

* `Loop.Ims id g` : the buffers of the connection `id` change by `g`, and nothing else does;
* `Loop.send_ims`, `Loop.onWrite_ims` : the methods of `CImConn`, as far as they return;
* `Loop.Flagged` : every socket is set up for the program's map, and no connection has anything buffered without
  `m_busy`; `Loop.Flagged.event` : an event keeps it, if the methods of the class do.
-/

namespace PostfixEdm

open RefTable

namespace Loop

variable {κ ω : Type} {s s' : Loop κ ω} {id : Nat}

/-- The connections may have new buffers. The entries and the other objects stay, or are destroyed. -/
structure Ims (id : Nat) (g : CImConn → CImConn) (s s' : Loop κ ω) : Prop where
  sockets : Left s.sockets s'.sockets
  map : s'.conns.map = s.conns.map
  ims : ∀ j c', s'.conns.value j = some c' → ∃ c, s.conns.value j = some c ∧ c'.im = if j = id then g c.im else c.im

/-! ## References and `netlib` -/

theorem findBaseSocket_left (fd : Fd) :
    Yields (s.findBaseSocket fd) fun r => Left s.sockets r.2.sockets ∧ r.2.conns = s.conns :=
  (find_left fd).bind fun _ _ ⟨_, hleft, _⟩ => Yields.ok ⟨hleft, rfl⟩

theorem releaseSocket_left (id : Nat) :
    Yields (s.releaseSocket id) fun s' => Left s.sockets s'.sockets ∧ s'.conns = s.conns :=
  releaseRef_left.bind fun _ _ ⟨_, hleft⟩ => Yields.ok ⟨hleft, rfl⟩

theorem modifySocket_turns (id : Nat) (f : CBaseSocket → CBaseSocket) :
    Yields (s.modifySocket id f) fun s' => Turns id f s.sockets s'.sockets ∧ s'.conns = s.conns :=
  (modify_turns f).bind fun _ _ h => Yields.ok ⟨h, rfl⟩

theorem findImConn_left (fd : Fd) :
    Yields (s.findImConn fd) fun r => r.2.sockets = s.sockets ∧ r.2.conns.map = s.conns.map ∧
      Left s.conns r.2.conns ∧ r.1 = s.conns.map.lookup fd :=
  (find_left fd).bind fun _ _ h => Yields.ok ⟨rfl, h⟩

theorem releaseConn_left (id : Nat) :
    Yields (s.releaseConn id) fun s' => s'.sockets = s.sockets ∧ s'.conns.map = s.conns.map ∧
      Left s.conns s'.conns :=
  releaseRef_left.bind fun _ _ h => Yields.ok ⟨rfl, h⟩

theorem modifyConn_turns (id : Nat) (f : Conn κ → Conn κ) :
    Yields (s.modifyConn id f) fun s' => s'.sockets = s.sockets ∧ Turns id f s.conns s'.conns :=
  (modify_turns f).bind fun _ _ h => Yields.ok ⟨rfl, h⟩

theorem netlibUse_left (fd : Fd) :
    Yields (s.netlibUse fd) fun s' => Left s.sockets s'.sockets ∧ s'.conns = s.conns := by
  refine (findBaseSocket_left fd).bind fun ⟨p, s₀⟩ _ ⟨hleft, hconns⟩ => ?_
  cases p with
  | none => exact Yields.ok ⟨hleft, hconns⟩
  | some id =>
    refine (modifySocket_turns id _).bind fun s₁ _ ⟨hturns, hconns₁⟩ => ?_
    refine (releaseSocket_left id).mono fun s₂ ⟨hleft₂, hconns₂⟩ => ⟨?_, hconns₂.trans (hconns₁.trans hconns)⟩
    exact (hleft.trans (hturns.left fun _ => rfl)).trans hleft₂

theorem netlibUses_left {β : Type} (fd : Fd) (list : List β) :
    Yields (list.foldlM (fun s _ => s.netlibUse fd) s) fun s' => Left s.sockets s'.sockets ∧ s'.conns = s.conns := by
  apply Yields.foldlM (I := fun s' : Loop κ ω => Left s.sockets s'.sockets ∧ s'.conns = s.conns) ?step ⟨.refl _, rfl⟩
  intro s₁ _ ⟨hleft₁, hconns₁⟩
  exact (netlibUse_left fd).mono fun s₂ ⟨hleft₂, hconns₂⟩ => ⟨hleft₁.trans hleft₂, hconns₂.trans hconns₁⟩

theorem netlibClose_left (fd : Fd) :
    Yields (s.netlibClose fd) fun s' => Left s.sockets s'.sockets ∧ s'.conns = s.conns := by
  refine (findBaseSocket_left fd).bind fun ⟨p, s₀⟩ _ ⟨hleft, hconns⟩ => ?_
  cases p with
  | none => exact Yields.ok ⟨hleft, hconns⟩
  | some id =>
    refine Yields.bind (P := fun s₁ => Left s.sockets s₁.sockets ∧ s₁.conns = s.conns) ?close
      fun s₁ _ ⟨hleft₁, hconns₁⟩ => ?_
    case close =>
      refine Yields.bind_of_eq fun sock _ => ?_
      exact (releaseSocket_left id).mono fun s₁ ⟨hleft₁, hconns₁⟩ => ⟨hleft.trans hleft₁, hconns₁.trans hconns⟩
    exact (releaseSocket_left id).mono fun s₂ ⟨hleft₂, hconns₂⟩ => ⟨hleft₁.trans hleft₂, hconns₂.trans hconns₁⟩

theorem dropHandle_left (fd : Fd) :
    Yields (s.dropHandle fd) fun s' => Left s.sockets s'.sockets ∧ Left s.conns s'.conns := by
  refine (netlibClose_left fd).bind fun s₁ _ ⟨hleft, hconns⟩ => Yields.ok ⟨hleft, ?_⟩
  rw [← hconns]
  exact fun _ _ h => h

/-! ## The methods of `CImConn` -/

/-- `netlib` is used, and then the connection changes. -/
theorem change_ims {β : Type} {fd : Fd} {list : List β} {g : CImConn → CImConn} (f : Loop κ ω → Conn κ → Conn κ)
    (next : Loop κ ω → Loop κ ω) (hf : ∀ s c, (f s c).im = g c.im)
    (hnext : ∀ s, (next s).sockets = s.sockets ∧ (next s).conns = s.conns) :
    Yields (do
      let s ← list.foldlM (fun s _ => s.netlibUse fd) s
      let s ← s.modifyConn id (f s)
      .ok (next s)) (Ims id g s) := by
  refine (netlibUses_left fd list).bind fun s₁ _ ⟨hleft₁, hconns₁⟩ => ?_
  refine (modifyConn_turns id _).bind fun s₂ _ ⟨hsockets₂, hmap₂, hvalue₂⟩ => Yields.ok ?_
  obtain ⟨hsockets, hconns⟩ := hnext s₂
  refine ⟨?_, ?_, fun j c' hc' => ?_⟩
  · rw [hsockets, hsockets₂]
    exact hleft₁
  · rw [hconns, hmap₂, hconns₁]
  · rw [hconns] at hc'
    obtain ⟨c, hc, rfl⟩ := hvalue₂ j c' hc'
    rw [hconns₁] at hc
    refine ⟨c, hc, ?_⟩
    split
    · exact hf s₁ c
    · rfl

theorem send_ims (id : Nat) (data : List UInt8) :
    Yields (s.send id data) fun s' => ∃ c, s.conns.get id = .ok c ∧
      Ims id (fun im => (im.send s.env.heap (s.answers c.handle) data).2) s s' := by
  refine Yields.bind_of_eq fun c hc => ?_
  refine Yields.mono ?_ fun s' h => ⟨c, hc, h⟩
  exact change_ims (fun s' c' => { c' with
    lastSendTick := s'.env.now 0
    im := (c'.im.send s.env.heap (s.answers c.handle) data).2 }) (fun s => s.nextTick.nextSend)
    (fun _ _ => rfl) fun _ => ⟨rfl, rfl⟩

theorem onWrite_ims (id : Nat) :
    Yields (s.onWrite id) fun s' => ∃ c, s.conns.get id = .ok c ∧
      Ims id (fun im => (im.onWrite (s.answers c.handle)).2) s s' := by
  refine Yields.bind_of_eq fun c hc => ?_
  refine Yields.mono ?_ fun s' h => ⟨c, hc, h⟩
  exact change_ims (fun _ c' => { c' with im := (c'.im.onWrite (s.answers c.handle)).2 }) nextSend
    (fun _ _ => rfl) fun _ => ⟨rfl, rfl⟩

/-! ## Every socket and every connection -/

/-- A socket that calls `imconn_callback` with the map. -/
def Calls (sock : CBaseSocket) : Prop :=
  sock.callback = .imconnCallback ∧ sock.callbackData = true ∧ sock.state ≠ .listening

structure Flagged (s : Loop κ ω) : Prop where
  sockets : s.sockets.All fun _ => Calls
  conns : s.conns.All fun _ c => c.im.Flagged

namespace Flagged

theorem left (h : s.Flagged) (hsockets : Left s.sockets s'.sockets) (hconns : Left s.conns s'.conns) : s'.Flagged :=
  ⟨h.sockets.left hsockets, h.conns.left hconns⟩

theorem ims (h : s.Flagged) {g : CImConn → CImConn} (hg : ∀ im, im.Flagged → (g im).Flagged) (hims : Ims id g s s') :
    s'.Flagged := by
  refine ⟨h.sockets.left hims.sockets, fun j c' hc' => ?_⟩
  obtain ⟨c, hc, him⟩ := hims.ims j c' hc'
  rw [him]
  split
  · exact hg _ (h.conns j c hc)
  · exact h.conns j c hc

theorem modifyConn (h : s.Flagged) (id : Nat) {f : Conn κ → Conn κ} (hf : ∀ c, c.im.Flagged → (f c).im.Flagged) :
    Yields (s.modifyConn id f) Flagged := by
  refine (modifyConn_turns id f).mono fun s' ⟨hsockets, _, hvalue⟩ => ⟨?_, fun j c' hc' => ?_⟩
  · rw [hsockets]
    exact h.sockets
  · obtain ⟨c, hc, rfl⟩ := hvalue j c' hc'
    split
    · exact hf c (h.conns j c hc)
    · exact h.conns j c hc

theorem modifySocket (h : s.Flagged) (id : Nat) {f : CBaseSocket → CBaseSocket} (hf : ∀ a, Calls a → Calls (f a)) :
    Yields (s.modifySocket id f) Flagged := by
  refine (modifySocket_turns id f).mono fun s' ⟨⟨_, hvalue⟩, hconns⟩ => ⟨fun j a' ha' => ?_, ?_⟩
  · obtain ⟨a, ha, rfl⟩ := hvalue j a' ha'
    split
    · exact hf a (h.sockets j a ha)
    · exact h.sockets j a ha
  · rw [hconns]
    exact h.conns

theorem send (h : s.Flagged) (id : Nat) (data : List UInt8) : Yields (s.send id data) Flagged :=
  (send_ims id data).mono fun _ ⟨_, _, hims⟩ => h.ims (fun _ him => him.send _ _ _) hims

theorem onWrite (h : s.Flagged) (id : Nat) : Yields (s.onWrite id) Flagged :=
  (onWrite_ims id).mono fun _ ⟨_, _, hims⟩ => h.ims (fun _ him => him.onWrite _) hims

end Flagged

end Loop

/-- The methods of a class keep the flags right. -/
structure ConnClass.KeepsFlags {κ ω : Type} (cls : ConnClass κ ω) : Prop where
  onConfirm : ∀ {s : Loop κ ω} id, s.Flagged → Yields (cls.onConfirm id s) Loop.Flagged
  handlePdu : ∀ {s : Loop κ ω} id pdu buf, s.Flagged → Yields (cls.handlePdu id pdu buf s) Loop.Flagged
  onClose : ∀ {s : Loop κ ω} id, s.Flagged → Yields (cls.onClose id s) Loop.Flagged

/-- What a handler keeps, if it returns, the second loop of `OnRead` keeps. -/
theorem yields_parseLoop {σ : Type} {handle : CImPdu → List UInt8 → σ → Except Halt σ} {P : σ → Prop}
    (hkeep : ∀ pdu buf s, P s → Yields (handle pdu buf s) P) {fuel : Nat} {envs : Nat → Env} {b : CSimpleBuffer}
    {x : Except Halt σ} (hx : Yields x P) {r : ParseResult (Except Halt σ)}
    (hr : parseLoop (fun st pdu buf => st >>= handle pdu buf) fuel envs x b = some r) : Yields r.state P := by
  induction fuel generalizing envs x b with
  | zero => cases hr
  | succ fuel ih =>
    rw [parseLoop] at hr
    split at hr
    · obtain rfl := Option.some.inj hr
      exact hx
    · obtain rfl := Option.some.inj hr
      exact hx
    · exact ih (hx.bind fun s _ hs => hkeep _ _ s hs) hr

namespace Loop

variable {κ ω : Type} {s : Loop κ ω} {id : Nat} {cls : ConnClass κ ω}

namespace Flagged

/-- The answer to a policy request is never sent. -/
theorem onRead (h : s.Flagged) (hcls : cls.KeepsFlags) (input : ReadInput) (id : Nat) :
    Yields (s.onRead cls input id) Flagged := by
  refine Yields.bind (P := fun c => c.im.Flagged) (fun c hc => h.conns id c (value_of_get hc)) fun c _ him => ?_
  refine (netlibUses_left c.handle _).bind fun s₁ _ ⟨hleft₁, hconns₁⟩ => ?_
  have h₁ : s₁.Flagged := h.left hleft₁ (left_of_eq hconns₁)
  refine (h₁.modifyConn id fun _ _ => him.recvLoop _ _).bind fun s₂ _ h₂ => ?_
  have h₂' : s₂.nextTick.Flagged := ⟨h₂.sockets, h₂.conns⟩
  dsimp only
  split
  · exact Yields.ok h₂'
  · rw [policyReply_eq]
    dsimp only
    split
    · exact Yields.error
    · next r hr =>
      refine Yields.bind (yields_parseLoop (fun pdu buf s hs => hcls.handlePdu id pdu buf hs) (Yields.ok h₂') hr)
        fun s₃ _ h₃ => ?_
      refine (h₃.modifyConn id fun _ hc => by exact hc).bind fun s₄ _ h₄ => ?_
      split
      · exact hcls.onClose id h₄
      · exact Yields.ok h₄

theorem imconnCallback (h : s.Flagged) (hcls : cls.KeepsFlags) (msg : NetlibMsg) (handle : Fd) :
    Yields (s.imconnCallback cls msg handle) Flagged := by
  refine (findImConn_left handle).bind fun ⟨p, s₁⟩ _ ⟨hsockets₁, _, hleft₁, _⟩ => ?_
  have h₁ : s₁.Flagged := h.left (left_of_eq hsockets₁) hleft₁
  cases p with
  | none => exact Yields.ok h₁
  | some id =>
    refine Yields.bind (P := Flagged) ?msg fun s₂ _ h₂ => ?_
    case msg =>
      cases msg with
      | connect => exact Yields.ok h₁
      | confirm => exact hcls.onConfirm id h₁
      | read input => exact h₁.onRead hcls input id
      | write => exact h₁.onWrite id
      | close => exact hcls.onClose id h₁
    exact (releaseConn_left id).mono fun s₃ ⟨hsockets₃, _, hleft₃⟩ => h₂.left (left_of_eq hsockets₃) hleft₃

/-- What a socket that calls `imconn_callback` does. -/
theorem invoke (h : s.Flagged) (hcls : cls.KeepsFlags) {sock : CBaseSocket} (hsock : Calls sock) (msg : NetlibMsg)
    (handle : Fd) : Yields (s.invoke cls sock.callback sock.callbackData msg handle) Flagged := by
  obtain ⟨hcallback, hdata, _⟩ := hsock
  unfold Loop.invoke
  rw [hcallback, hdata]
  exact h.imconnCallback hcls msg handle

theorem baseOnRead (h : s.Flagged) (hcls : cls.KeepsFlags) (input : ReadInput) (id : Nat) :
    Yields (s.baseOnRead cls input id) Flagged := by
  refine Yields.bind (P := Calls) (fun sock hsock => h.sockets id sock (value_of_get hsock)) fun sock _ hsock => ?_
  rw [if_neg hsock.2.2]
  exact h.invoke hcls hsock _ _

theorem baseOnWrite (h : s.Flagged) (hcls : cls.KeepsFlags) (soError : Bool) (id : Nat) :
    Yields (s.baseOnWrite cls soError id) Flagged := by
  refine Yields.bind (P := Calls) (fun sock hsock => h.sockets id sock (value_of_get hsock)) fun sock _ hsock => ?_
  split
  · split
    · exact h.invoke hcls hsock _ _
    · refine (h.modifySocket id fun _ ha => by exact ⟨ha.1, ha.2.1, nofun⟩).bind fun s₁ _ h₁ => ?_
      exact h₁.invoke hcls hsock _ _
  · exact h.invoke hcls hsock _ _

theorem baseOnClose (h : s.Flagged) (hcls : cls.KeepsFlags) (id : Nat) :
    Yields (s.baseOnClose cls id) Flagged := by
  refine Yields.bind (P := Calls) (fun sock hsock => h.sockets id sock (value_of_get hsock)) fun sock _ hsock => ?_
  refine (h.modifySocket id fun _ ha => by exact ⟨ha.1, ha.2.1, nofun⟩).bind fun s₁ _ h₁ => ?_
  exact h₁.invoke hcls hsock _ _

theorem ifSet {β : Type} (h : s.Flagged) {flag : Option β} {handler : β → Loop κ ω → Except Halt (Loop κ ω)}
    (hset : ∀ b, Yields (handler b s) Flagged) : Yields (s.ifSet flag handler) Flagged := by
  cases flag with
  | none => exact Yields.ok h
  | some b => exact hset b

theorem findBaseSocket (h : s.Flagged) (fd : Fd) : Yields (s.findBaseSocket fd) fun r => r.2.Flagged := by
  exact (findBaseSocket_left fd).mono fun r ⟨hleft, hconns⟩ => h.left hleft (left_of_eq hconns)

theorem remoteAddress (h : s.Flagged) (fd : Fd) : Yields (s.remoteAddress fd) Flagged := by
  refine (h.findBaseSocket fd).bind fun ⟨p, s₁⟩ _ h₁ => ?_
  cases p with
  | none => exact Yields.error
  | some id =>
    refine Yields.bind_of_eq fun _ _ => ?_
    exact (releaseSocket_left id).mono fun s₂ ⟨hleft₂, hconns₂⟩ => h₁.left hleft₂ (left_of_eq hconns₂)

theorem event (h : s.Flagged) (hcls : cls.KeepsFlags) (ev : Event) : Yields (s.event cls ev) Flagged := by
  refine (h.findBaseSocket ev.fd).bind fun ⟨p, s₁⟩ _ h₁ => ?_
  cases p with
  | none => exact Yields.ok h₁
  | some id =>
    refine (h₁.ifSet fun input => h₁.baseOnRead hcls input id).bind fun s₂ _ h₂ => ?_
    refine (h₂.ifSet fun soError => h₂.baseOnWrite hcls soError id).bind fun s₃ _ h₃ => ?_
    refine (h₃.ifSet fun () => h₃.baseOnClose hcls id).bind fun s₄ _ h₄ => ?_
    exact (releaseSocket_left id).mono fun s₅ ⟨hleft₅, hconns₅⟩ => h₄.left hleft₅ (left_of_eq hconns₅)

/-- A loop over all connections. -/
theorem forEachConn (h : s.Flagged) {f : Nat → Loop κ ω → Except Halt (Loop κ ω)}
    (hround : ∀ s id, s.Flagged → Yields (f id s) Flagged) : Yields (s.forEachConn f) Flagged := by
  apply Yields.foldlM ?step h
  intro s₁ fd h₁
  split
  · exact Yields.error
  · exact hround s₁ _ h₁

end Flagged

end Loop

end PostfixEdm
