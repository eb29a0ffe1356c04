import PostfixEdm.Event.Loop

/-!
# What the event loop keeps

* `Loop.Inv` : the counts of all objects are right, the two tables have the same descriptors but for the
  listening one, and every socket is wired to the map of connections;
* `Frame` : a step that closes nothing;
* `ConnClass.Keeps` : the methods of a class do their part; then `Inv.onRead` uses nothing it must not use.
-/

namespace PostfixEdm

open RefTable

/-- How the socket of a descriptor is set up: the listening one calls `serverCallback`, any other one
`imconn_callback` with the map. -/
def Wired (listenFd : Option Fd) (fd : Fd) (sock : CBaseSocket) : Prop :=
  if listenFd = some fd then sock.callback = .serverCallback
  else sock.callback = .imconnCallback ∧ sock.callbackData = true ∧ sock.state ≠ .listening

namespace Loop

variable {κ ω : Type}

/-- `so` and `co` are the references that the running code has to sockets and connections. -/
structure Inv (listenFd : Option Fd) (so co : Nat → Nat) (s : Loop κ ω) : Prop where
  sockets : Counted CBaseSocket.socket so s.sockets
  conns : Counted Conn.handle co s.conns
  keys : ∀ fd, fd ∈ s.conns.map ↔ fd ∈ s.sockets.map ∧ listenFd ≠ some fd
  valid : ∀ fd, fd ∈ s.sockets.map → fd ≠ invalidHandle
  wired : ∀ fd sock, s.sockets.registered fd = some sock → Wired listenFd fd sock

/-- Nothing is opened or closed, and the sockets stay as they are. -/
structure Frame (s s' : Loop κ ω) : Prop where
  sockets : Same s.sockets s'.sockets
  conns : s'.conns.map = s.conns.map

theorem Frame.refl (s : Loop κ ω) : Frame s s := ⟨.refl _, rfl⟩

theorem Frame.trans {s₁ s₂ s₃ : Loop κ ω} (h : Frame s₁ s₂) (h' : Frame s₂ s₃) : Frame s₁ s₃ :=
  ⟨h.sockets.trans h'.sockets, h'.conns.trans h.conns⟩

theorem Frame.setEnv {s s' : Loop κ ω} (h : Frame s s') (world : ω) (env : LoopEnv) :
    Frame s { s' with world := world, env := env } :=
  ⟨h.sockets, h.conns⟩

theorem Frame.held {s s' : Loop κ ω} (h : Frame s s') {co : Nat → Nat} {id : Nat} (hid : Held co s.conns id) :
    Held co s'.conns id :=
  hid.imp_right fun ⟨k, hk⟩ => ⟨k, by rw [h.conns, hk]⟩

section
variable {listenFd : Option Fd} {so so' co co' : Nat → Nat} {s s' : Loop κ ω}

namespace Inv

theorem withSockets (h : Inv listenFd so co s) {t : RefTable Fd CBaseSocket}
    (ht : Counted CBaseSocket.socket so' t) (hsame : Same s.sockets t) :
    Inv listenFd so' co { s with sockets := t } := by
  refine ⟨ht, h.conns, fun fd => ?_, fun fd hfd => ?_, fun fd sock hsock => ?_⟩
  · rw [show ({ s with sockets := t } : Loop κ ω).sockets.map = s.sockets.map from hsame.map]
    exact h.keys fd
  · exact h.valid fd (hsame.map ▸ hfd)
  · exact h.wired fd sock ((hsame.registered fd).symm.trans hsock)

theorem withConns (h : Inv listenFd so co s) {t : RefTable Fd (Conn κ)} (ht : Counted Conn.handle co' t)
    (hmap : t.map = s.conns.map) : Inv listenFd so co' { s with conns := t } := by
  refine ⟨h.sockets, ht, fun fd => ?_, h.valid, h.wired⟩
  rw [show ({ s with conns := t } : Loop κ ω).conns.map = s.conns.map from hmap]
  exact h.keys fd

/-! ## References -/

/-- `FindBaseSocket` -/
theorem findSocket (h : Counted CBaseSocket.socket so s.sockets) (fd : Fd) :
    Safe (s.findBaseSocket fd) fun r =>
      (s.sockets.map.lookup fd = none ∧ r = (none, s)) ∨
      ∃ id t, s.sockets.map.lookup fd = some id ∧ r = (some id, { s with sockets := t }) ∧
        Counted CBaseSocket.socket (lend so id) t ∧ Same s.sockets t := by
  refine (h.find fd).bind fun r hr => ?_
  rcases hr with ⟨hnone, rfl⟩ | ⟨id, t, hid, rfl, ht, hsame⟩
  · exact Safe.ok (.inl ⟨hnone, rfl⟩)
  · exact Safe.ok (.inr ⟨id, t, hid, rfl, ht, hsame⟩)

theorem modifyEntry (h : Counted CBaseSocket.socket so s.sockets) {fd : Fd} {id : Nat}
    (hid : s.sockets.map.lookup fd = some id) {f : CBaseSocket → CBaseSocket}
    (hkey : ∀ sock, (f sock).socket = sock.socket) :
    Safe (s.modifySocket id f) fun s' => ∃ t, s' = { s with sockets := t } ∧ Counted CBaseSocket.socket so t ∧
      t.map = s.sockets.map ∧
      ∀ k, t.registered k = if k = fd then (s.sockets.registered k).map f else s.sockets.registered k := by
  refine (h.modify_entry hid hkey).bind fun t ⟨ht, hmap, hreg⟩ => ?_
  exact Safe.ok ⟨t, rfl, ht, hmap, hreg⟩

theorem release {id : Nat} (h : Counted CBaseSocket.socket (lend so id) s.sockets) :
    Safe (s.releaseSocket id) fun s' => ∃ t, s' = { s with sockets := t } ∧ Counted CBaseSocket.socket so t ∧
      Same s.sockets t := by
  refine h.releaseRef.bind fun t ⟨ht, hsame⟩ => ?_
  exact Safe.ok ⟨t, rfl, ht, hsame⟩

theorem findBaseSocket (h : Inv listenFd so co s) (fd : Fd) :
    Safe (s.findBaseSocket fd) fun r =>
      (s.sockets.map.lookup fd = none ∧ r = (none, s)) ∨
      ∃ id s', s.sockets.map.lookup fd = some id ∧ r = (some id, s') ∧ Inv listenFd (lend so id) co s' ∧
        Frame s s' ∧ s'.conns = s.conns := by
  refine (findSocket h.sockets fd).mono fun r hr => hr.imp_right ?_
  rintro ⟨id, t, hid, rfl, ht, hsame⟩
  exact ⟨id, _, hid, rfl, h.withSockets ht hsame, ⟨hsame, rfl⟩, rfl⟩

theorem releaseSocket {id : Nat} (h : Inv listenFd (lend so id) co s) :
    Safe (s.releaseSocket id) fun s' => Inv listenFd so co s' ∧ Frame s s' := by
  refine (release h.sockets).mono fun s' ⟨t, hs', ht, hsame⟩ => ?_
  subst hs'
  exact ⟨h.withSockets ht hsame, hsame, rfl⟩

theorem findImConn (h : Inv listenFd so co s) (fd : Fd) :
    Safe (s.findImConn fd) fun r =>
      (s.conns.map.lookup fd = none ∧ r = (none, s)) ∨
      ∃ id s', s.conns.map.lookup fd = some id ∧ r = (some id, s') ∧ Inv listenFd so (lend co id) s' ∧
        Frame s s' ∧ Same s.conns s'.conns := by
  refine (h.conns.find fd).bind fun r hr => ?_
  rcases hr with ⟨hnone, rfl⟩ | ⟨id, t, hid, rfl, ht, hsame⟩
  · exact Safe.ok (.inl ⟨hnone, rfl⟩)
  · exact Safe.ok (.inr ⟨id, _, hid, rfl, h.withConns ht hsame.map, ⟨.refl _, hsame.map⟩, hsame⟩)

theorem releaseConn {id : Nat} (h : Inv listenFd so (lend co id) s) :
    Safe (s.releaseConn id) fun s' => Inv listenFd so co s' ∧ Frame s s' := by
  refine h.conns.releaseRef.bind fun t ⟨ht, hsame⟩ => ?_
  exact Safe.ok ⟨h.withConns ht hsame.map, .refl _, hsame.map⟩

/-- A connection changes and keeps its descriptor. -/
theorem modifyConn (h : Inv listenFd so co s) {id : Nat} (hid : Held co s.conns id) {f : Conn κ → Conn κ}
    (hkey : ∀ c, (f c).handle = c.handle) :
    Safe (s.modifyConn id f) fun s' => Inv listenFd so co s' ∧ Frame s s' := by
  refine (h.conns.modify hid (.inl hkey)).bind fun t ⟨ht, hmap, _⟩ => ?_
  exact Safe.ok ⟨h.withConns ht hmap, .refl _, hmap⟩

/-! ## `netlib` -/

/-- The socket of the descriptor changes by `f`, if there is one. -/
theorem netlibCall (h : Counted CBaseSocket.socket so s.sockets) (fd : Fd) {f : CBaseSocket → CBaseSocket}
    (hkey : ∀ sock, (f sock).socket = sock.socket) :
    Safe (s.netlibCall fd f) fun s' => ∃ t, s' = { s with sockets := t } ∧ Counted CBaseSocket.socket so t ∧
      t.map = s.sockets.map ∧
      ∀ k, t.registered k = if k = fd then (s.sockets.registered k).map f else s.sockets.registered k := by
  refine (findSocket h fd).bind fun r hr => ?_
  rcases hr with ⟨hnone, rfl⟩ | ⟨id, t₁, hid, rfl, h₁, hsame₁⟩
  · refine Safe.ok ⟨s.sockets, rfl, h, rfl, fun k => ?_⟩
    split
    · next heq =>
      subst heq
      rw [RefTable.registered, hnone]
      rfl
    · rfl
  · have hid₁ : t₁.map.lookup fd = some id := by rw [hsame₁.map, hid]
    refine (modifyEntry h₁ hid₁ hkey).bind fun s₂ ⟨t₂, hs₂, h₂, hmap₂, hreg₂⟩ => ?_
    subst hs₂
    refine (release h₂).mono fun s₃ ⟨t₃, hs₃, h₃, hsame₃⟩ => ?_
    refine ⟨t₃, hs₃, h₃, hsame₃.map.trans (hmap₂.trans hsame₁.map), fun k => ?_⟩
    rw [hsame₃.registered k, hreg₂ k, hsame₁.registered k]

theorem netlibUse (h : Inv listenFd so co s) (fd : Fd) :
    Safe (s.netlibUse fd) fun s' => Inv listenFd so co s' ∧ Frame s s' := by
  refine (netlibCall h.sockets fd fun _ => rfl).mono fun s' ⟨t, hs', ht, hmap, hreg⟩ => ?_
  have hsame : Same s.sockets t := by
    refine ⟨hmap, fun k => (hreg k).trans ?_⟩
    split
    · exact congrFun Option.map_id _
    · rfl
  rw [hs']
  exact ⟨h.withSockets ht hsame, hsame, rfl⟩

theorem setEnv (h : Inv listenFd so co s) (world : ω) (env : LoopEnv) :
    Inv listenFd so co { s with world := world, env := env } :=
  ⟨h.sockets, h.conns, h.keys, h.valid, h.wired⟩

/-- Any number of calls. -/
theorem netlibUses {β : Type} (h : Inv listenFd so co s) (fd : Fd) (list : List β) :
    Safe (list.foldlM (fun s _ => s.netlibUse fd) s) fun s' => Inv listenFd so co s' ∧ Frame s s' := by
  apply Safe.foldlM (I := fun _ s' => Inv listenFd so co s' ∧ Frame s s') ?step ⟨h, .refl s⟩
  intro s₁ _ _ ⟨h₁, hframe₁⟩
  exact (h₁.netlibUse fd).mono fun s₂ ⟨h₂, hframe₂⟩ => ⟨h₂, hframe₁.trans hframe₂⟩

/-! ## The methods of `CImConn` -/

theorem send (h : Inv listenFd so co s) {id : Nat} (hid : Held co s.conns id) (data : List UInt8) :
    Safe (s.send id data) fun s' => Inv listenFd so co s' ∧ Frame s s' := by
  refine (h.conns.get hid).bind fun c _ => ?_
  refine (h.netlibUses c.handle _).bind fun s₁ ⟨h₁, hframe₁⟩ => ?_
  refine (h₁.modifyConn (hframe₁.held hid) fun _ => by rfl).bind fun s₂ ⟨h₂, hframe₂⟩ => ?_
  exact Safe.ok ⟨h₂.setEnv _ _, (hframe₁.trans hframe₂).setEnv _ _⟩

theorem sendPdu (h : Inv listenFd so co s) {id : Nat} (hid : Held co s.conns id) (pdu : OutPdu) :
    Safe (s.sendPdu id pdu) fun s' => Inv listenFd so co s' ∧ Frame s s' :=
  h.send hid _

theorem onWrite (h : Inv listenFd so co s) {id : Nat} (hid : Held co s.conns id) :
    Safe (s.onWrite id) fun s' => Inv listenFd so co s' ∧ Frame s s' := by
  refine (h.conns.get hid).bind fun c _ => ?_
  refine (h.netlibUses c.handle _).bind fun s₁ ⟨h₁, hframe₁⟩ => ?_
  refine (h₁.modifyConn (hframe₁.held hid) fun _ => by rfl).bind fun s₂ ⟨h₂, hframe₂⟩ => ?_
  exact Safe.ok ⟨h₂.setEnv _ _, (hframe₁.trans hframe₂).setEnv _ _⟩

end Inv

end

end Loop

/-! ## The second loop of `OnRead` -/

section
variable {σ : Type} {fuel : Nat} {envs : Nat → Env} {b : CSimpleBuffer}

/-- What a handler that may halt keeps, the loop keeps. -/
theorem safe_parseLoop {handle : CImPdu → List UInt8 → σ → Except Halt σ} {P : σ → Prop}
    (hkeep : ∀ pdu buf s, P s → Safe (handle pdu buf s) P) {x : Except Halt σ} (hx : Safe x P)
    {r : ParseResult (Except Halt σ)}
    (hr : parseLoop (fun st pdu buf => st >>= handle pdu buf) fuel envs x b = some r) : Safe r.state P := by
  induction fuel generalizing envs x b with
  | zero => cases hr
  | succ fuel ih =>
    rw [parseLoop] at hr
    split at hr
    · obtain rfl := Option.some.inj hr
      exact hx
    · obtain rfl := Option.some.inj hr
      exact hx
    · exact ih (hx.bind fun s hs => hkeep _ _ s hs) hr

/-- How the loop ends does not depend on the handler. -/
theorem parseLoop_ends {τ : Type} (handle : HandlePdu σ) (handle' : HandlePdu τ) (fuel : Nat)
    (envs : Nat → Env) (b : CSimpleBuffer) (st : σ) (st' : τ) :
    (parseLoop handle fuel envs st b).map (fun r => (r.inBuf, r.thrown)) =
      (parseLoop handle' fuel envs st' b).map fun r => (r.inBuf, r.thrown) := by
  induction fuel generalizing envs st st' b with
  | zero => rfl
  | succ fuel ih =>
    rw [parseLoop, parseLoop]
    split
    · rfl
    · rfl
    · exact ih _ _ _ _

end

/-! ## The methods of a class -/

namespace Loop

variable {κ ω : Type}

/-- A descriptor has been accepted, and its connection is still to come. -/
structure Accepted (listenFd : Option Fd) (so co : Nat → Nat) (fd : Fd) (s : Loop κ ω) : Prop where
  sockets : Counted CBaseSocket.socket so s.sockets
  conns : Counted Conn.handle co s.conns
  mem : fd ∈ s.sockets.map ∧ listenFd ≠ some fd ∧ fd ∉ s.conns.map
  keys : ∀ k, k ≠ fd → (k ∈ s.conns.map ↔ k ∈ s.sockets.map ∧ listenFd ≠ some k)
  valid : ∀ k, k ∈ s.sockets.map → k ≠ invalidHandle
  wired : ∀ k sock, k ≠ fd → s.sockets.registered k = some sock → Wired listenFd k sock
  connected : ∀ sock, s.sockets.registered fd = some sock → sock.state = .connected

end Loop

open Loop in
/-- The methods of a class do their part. -/
structure ConnClass.Keeps {κ ω : Type} (cls : ConnClass κ ω) (listenFd : Option Fd) : Prop where
  onConnect : listenFd.isSome → ∀ {so co fd s}, Accepted listenFd so co fd s →
    Safe (cls.onConnect fd s) fun s' => Inv listenFd so co s' ∧ s'.sockets.map = s.sockets.map
  onConfirm : ∀ {so co id s}, Inv listenFd so co s → Held co s.conns id →
    Safe (cls.onConfirm id s) fun s' => Inv listenFd so co s' ∧ Frame s s'
  handlePdu : ∀ {so co id s} pdu buf, Inv listenFd so co s → Held co s.conns id →
    Safe (cls.handlePdu id pdu buf s) fun s' => Inv listenFd so co s' ∧ Frame s s'
  onClose : ∀ {so co id s fd}, Inv listenFd so co s → s.conns.map.lookup fd = some id →
    Safe (cls.onClose id s) fun s' => Inv listenFd so co s' ∧ s'.conns.map = s.conns.map.erase fd

namespace Loop

variable {κ ω : Type} {listenFd : Option Fd} {so co : Nat → Nat} {s s' : Loop κ ω} {cls : ConnClass κ ω}

theorem throws_of_policyConn {input : ReadInput} {c : Conn κ}
    (h : (recvLoop input.call.heap (s.received c.handle input.call) c.im).policyConn = true) :
    s.throws input c = false :=
  if_pos h

theorem throws_of_parseLoop {input : ReadInput} {c : Conn κ} {σ : Type} {handle : HandlePdu σ} {st : σ}
    {r : ParseResult σ}
    (h : ¬ (recvLoop input.call.heap (s.received c.handle input.call) c.im).policyConn = true)
    (hr : parseLoop handle input.fuel input.call.envs st
      (recvLoop input.call.heap (s.received c.handle input.call) c.im).inBuf = some r) :
    s.throws input c = r.thrown.isSome := by
  have hends := parseLoop_ends handle (fun _ _ _ => ()) input.fuel input.call.envs
    (recvLoop input.call.heap (s.received c.handle input.call) c.im).inBuf st ()
  rw [hr] at hends
  obtain ⟨r', hr', hpair⟩ := Option.map_eq_some_iff.mp hends.symm
  refine (if_neg h).trans ?_
  rw [hr']
  exact congrArg Option.isSome (Prod.mk.inj hpair).2

namespace Inv

theorem onRead (h : Inv listenFd so co s) (hcls : cls.Keeps listenFd) {id : Nat} {fd : Fd}
    (hid : s.conns.map.lookup fd = some id) (input : ReadInput) :
    Safe (s.onRead cls input id) fun s' => Inv listenFd so co s' ∧
      ∃ c, s.conns.value id = some c ∧
        if s.throws input c then s'.conns.map = s.conns.map.erase fd else Frame s s' := by
  have hheld : Held co s.conns id := held_of_lookup hid
  refine (h.conns.get hheld).bind fun c hc => ?_
  refine (h.netlibUses c.handle _).bind fun s₁ ⟨h₁, hframe₁⟩ => ?_
  refine (h₁.modifyConn (hframe₁.held hheld) fun _ => by rfl).bind fun s₂ ⟨h₂, hframe₂⟩ => ?_
  have hframe : Frame s s₂.nextTick := (hframe₁.trans hframe₂).setEnv _ _
  replace h₂ : Inv listenFd so co s₂.nextTick := h₂.setEnv _ _
  dsimp only
  split
  · next hpolicy =>
    refine Safe.ok ⟨h₂, c, hc, ?_⟩
    rw [if_neg (Bool.eq_false_iff.mp (throws_of_policyConn hpolicy))]
    exact hframe
  · next hpolicy =>
    rw [policyReply_eq]
    dsimp only
    split
    · exact Safe.endless
    · next r hr =>
      -- the handlers leave the tables alone, so the connection is still there to be closed
      have hstate := safe_parseLoop (P := fun s' => Inv listenFd so co s' ∧ Frame s s')
        (fun pdu buf s' ⟨h', hframe'⟩ => (hcls.handlePdu pdu buf h' (hframe'.held hheld)).mono
          fun s'' ⟨h'', hframe''⟩ => ⟨h'', hframe'.trans hframe''⟩) (Safe.ok ⟨h₂, hframe⟩) hr
      refine hstate.bind fun s₃ ⟨h₃, hframe₃⟩ => ?_
      refine (h₃.modifyConn (hframe₃.held hheld) fun _ => by rfl).bind fun s₄ ⟨h₄, hframe₄⟩ => ?_
      have hthrown := throws_of_parseLoop hpolicy hr
      have hframe' : Frame s s₄ := hframe₃.trans hframe₄
      split
      · next hsome =>
        have hid' : s₄.conns.map.lookup fd = some id := by rw [hframe'.conns, hid]
        refine (hcls.onClose h₄ hid').mono fun s₅ ⟨h₅, hmap⟩ => ⟨h₅, c, hc, ?_⟩
        rw [if_pos (hthrown.trans hsome), hmap, hframe'.conns]
      · next hnone =>
        exact Safe.ok ⟨h₄, c, hc, by rw [if_neg (hthrown ▸ hnone)]; exact hframe'⟩

end Inv

end Loop

end PostfixEdm
