import PostfixEdm.Event.Safety

/-!
# From an event to its connection

* `After closed fd s s'` : what has become of the connection of a descriptor;
* `Inv.imconnCallback`, `Inv.acceptNewSocket` : what the two callbacks keep;
* `Inv.baseOnRead`, `Inv.baseOnWrite`, `Inv.baseOnClose` : what the handlers of a socket keep, also of one that
  has been closed by the handler before;
* `Inv.event` : then every event keeps the invariant and uses nothing it must not use;
* `safe_forEachConn`, `Inv.dropHandle` : a loop over all connections, and the end of one.
-/

namespace PostfixEdm

open RefTable

namespace Loop

variable {κ ω : Type} {listenFd : Option Fd} {so co : Nat → Nat} {s s' : Loop κ ω} {cls : ConnClass κ ω}

/-! ## From the descriptor to the connection -/

/-- What has become of the connection of a descriptor. -/
def After (closed : Bool) (fd : Fd) (s s' : Loop κ ω) : Prop :=
  if closed then s'.conns.map = s.conns.map.erase fd else Frame s s'

theorem After.trans {closed : Bool} {fd : Fd} {s₁ s₂ s₃ s₄ : Loop κ ω} (h₁ : Frame s₁ s₂)
    (h : After closed fd s₂ s₃) (h₂ : Frame s₃ s₄) : After closed fd s₁ s₄ := by
  unfold After at h ⊢
  split at h
  · next hclosed =>
    rw [if_pos hclosed, h₂.conns, h, h₁.conns]
  · next hopen =>
    rw [if_neg hopen]
    exact (h₁.trans h).trans h₂

theorem throws_frame (h : Frame s s') (input : ReadInput) (c : Conn κ) : s'.throws input c = s.throws input c := by
  unfold throws received
  rw [h.sockets.registered]

theorem closesOn_frame (h : Frame s s') {fd : Fd} (hreg : s'.conns.registered fd = s.conns.registered fd)
    (msg : NetlibMsg) : s'.closesOn msg fd = s.closesOn msg fd := by
  unfold closesOn
  rw [hreg]
  cases s.conns.registered fd with
  | none => rfl
  | some c =>
    cases msg with
    | read input => exact throws_frame h input c
    | _ => rfl

theorem closesOn_confirm (s : Loop κ ω) (fd : Fd) : s.closesOn .confirm fd = false := by
  unfold closesOn
  split <;> rfl

theorem closesOn_write (s : Loop κ ω) (fd : Fd) : s.closesOn .write fd = false := by
  unfold closesOn
  split <;> rfl

namespace Inv

theorem onMsg (h : Inv listenFd so co s) (hcls : cls.Keeps listenFd) (msg : NetlibMsg) {fd : Fd} {id : Nat}
    (hid : s.conns.map.lookup fd = some id) :
    Safe (s.onMsg cls msg id) fun s' => Inv listenFd so co s' ∧ After (s.closesOn msg fd) fd s s' := by
  obtain ⟨cell, hcell, _⟩ := h.conns.entry fd id hid
  have hvalue : s.conns.value id = some cell.value := congrArg (Option.map Cell.value) hcell
  have hreg : s.conns.registered fd = some cell.value := by rw [RefTable.registered, hid]; exact hvalue
  have hheld : Held co s.conns id := held_of_lookup hid
  unfold closesOn
  rw [hreg]
  cases msg with
  | confirm => exact hcls.onConfirm h hheld
  | write => exact h.onWrite hheld
  | connect => exact Safe.ok ⟨h, .refl s⟩
  | close => exact hcls.onClose h hid
  | read input =>
    refine (h.onRead hcls hid input).mono fun s' hs' => ?_
    obtain ⟨h', c, hc, hafter⟩ := hs'
    obtain rfl := Option.some.inj (hvalue.symm.trans hc)
    exact ⟨h', hafter⟩

theorem imconnCallback (h : Inv listenFd so co s) (hcls : cls.Keeps listenFd) (msg : NetlibMsg) (fd : Fd) :
    Safe (s.imconnCallback cls msg fd) fun s' => Inv listenFd so co s' ∧ After (s.closesOn msg fd) fd s s' := by
  refine (h.findImConn fd).bind fun r hr => ?_
  rcases hr with ⟨hnone, rfl⟩ | ⟨id, s₁, hid, rfl, h₁, hframe₁, hsame⟩
  · refine Safe.ok ⟨h, ?_⟩
    have hreg : s.conns.registered fd = none := by rw [RefTable.registered, hnone]; rfl
    unfold closesOn
    rw [hreg]
    exact Frame.refl s
  · have hid₁ : s₁.conns.map.lookup fd = some id := by rw [hframe₁.conns, hid]
    refine (h₁.onMsg hcls msg hid₁).bind fun s₂ hs₂ => ?_
    obtain ⟨h₂, hafter⟩ := hs₂
    rw [closesOn_frame hframe₁ (hsame.registered fd)] at hafter
    refine h₂.releaseConn.mono fun s₃ hs₃ => ?_
    obtain ⟨h₃, hframe₃⟩ := hs₃
    exact ⟨h₃, hafter.trans hframe₁ hframe₃⟩

/-- The socket's callback, with any message but that of a new descriptor. -/
theorem invoke (h : Inv listenFd so co s) (hcls : cls.Keeps listenFd) (callback : Callback) (callbackData : Bool)
    {msg : NetlibMsg} (hmsg : msg ≠ .connect) (fd : Fd) :
    Safe (s.invoke cls callback callbackData msg fd) fun s' => Inv listenFd so co s' ∧
      (callback = .imconnCallback → callbackData = true → After (s.closesOn msg fd) fd s s') ∧
      (s.closesOn msg fd = false → Frame s s') := by
  cases callback with
  | serverCallback =>
    cases msg with
    | connect => exact absurd rfl hmsg
    | _ => exact Safe.ok ⟨h, nofun, fun _ => .refl s⟩
  | imconnCallback =>
    cases callbackData with
    | false => exact Safe.ok ⟨h, nofun, fun _ => .refl s⟩
    | true =>
      refine (h.imconnCallback hcls msg fd).mono fun s' ⟨h', hafter⟩ => ⟨h', fun _ _ => hafter, fun hopen => ?_⟩
      rw [hopen] at hafter
      exact hafter

/-! ## The handlers of a socket -/

/-- The socket's callback, when it is a socket of a connection. -/
theorem invoke_wired (h : Inv listenFd so co s) (hcls : cls.Keeps listenFd) {fd : Fd} {sock : CBaseSocket}
    (hwired : Wired listenFd fd sock) {msg : NetlibMsg} (hmsg : msg ≠ .connect) :
    Safe (s.invoke cls sock.callback sock.callbackData msg fd) fun s' => Inv listenFd so co s' ∧
      (listenFd ≠ some fd → After (s.closesOn msg fd) fd s s') := by
  refine (h.invoke hcls sock.callback sock.callbackData hmsg fd).mono fun s' ⟨h', hconn, _⟩ => ⟨h', fun hfd => ?_⟩
  unfold Wired at hwired
  rw [if_neg hfd] at hwired
  exact hconn hwired.1 hwired.2.1

/-- A socket changes its state, and does not listen. -/
theorem modifySocket (h : Inv listenFd so co s) {id : Nat} (hid : Held so s.sockets id) {state : SocketState}
    (hstate : state ≠ .listening) :
    Safe (s.modifySocket id fun sock => { sock with state := state }) fun s' => Inv listenFd so co s' ∧
      s'.conns = s.conns := by
  refine (h.sockets.modify hid (.inl fun _ => by rfl)).bind fun t ⟨ht, hmap, hvalue⟩ => Safe.ok ⟨?_, rfl⟩
  have hmem : ∀ fd, fd ∈ t.map ↔ fd ∈ s.sockets.map := fun fd => by rw [hmap]
  refine ⟨ht, h.conns, fun fd => ?_, fun fd hfd => h.valid fd ((hmem fd).mp hfd), fun fd sock hsock => ?_⟩
  · exact (h.keys fd).trans (and_congr_left' (hmem fd).symm)
  · obtain ⟨j, hj, hsock⟩ := Option.bind_eq_some_iff.mp hsock
    rw [show ({ s with sockets := t } : Loop κ ω).sockets.map = s.sockets.map from hmap] at hj
    rw [show ({ s with sockets := t } : Loop κ ω).sockets.value j = _ from hvalue j] at hsock
    have hold : ∀ sock, s.sockets.value j = some sock → Wired listenFd fd sock := fun sock hval =>
      h.wired fd sock (registered_of_lookup hj hval)
    split at hsock
    · next heq =>
      subst heq
      obtain ⟨old, hval, rfl⟩ := Option.map_eq_some_iff.mp hsock
      have hw := hold old hval
      unfold Wired at hw ⊢
      split
      · next hfd => exact (if_pos hfd).mp hw
      · next hfd => exact ⟨((if_neg hfd).mp hw).1, ((if_neg hfd).mp hw).2.1, hstate⟩
    · exact hold sock hsock

/-- A new socket in the table. -/
theorem accepted (h : Inv listenFd so co s) {fd : Fd} (hfd : fd ∉ s.sockets.map) (hvalid : fd ≠ invalidHandle)
    (hlisten : listenFd ≠ some fd) (sock : CBaseSocket) (hkey : sock.socket = fd) (hstate : sock.state = .connected) :
    Accepted listenFd so co fd { s with sockets := (s.sockets.new sock).2.insert fd s.sockets.next } ∧
      ((s.sockets.new sock).2.insert fd s.sockets.next).map = s.sockets.map.insert fd s.sockets.next := by
  obtain ⟨ht, hmap, hreg⟩ := h.sockets.newEntry hfd hkey
  have hmem : ∀ k, k ∈ ((s.sockets.new sock).2.insert fd s.sockets.next).map ↔ k = fd ∨ k ∈ s.sockets.map :=
    fun k => by rw [hmap, Finmap.mem_insert]
  refine ⟨⟨ht, h.conns, ⟨(hmem fd).mpr (.inl rfl), hlisten, fun hc => hfd ((h.keys fd).mp hc).1⟩, ?keys, ?valid,
    ?wired, ?connected⟩, hmap⟩
  case keys =>
    intro k hk
    exact (h.keys k).trans (and_congr_left' ((hmem k).trans (or_iff_right hk)).symm)
  case valid =>
    intro k hk
    rcases (hmem k).mp hk with rfl | hold
    · exact hvalid
    · exact h.valid k hold
  case wired =>
    intro k sock' hk hsock'
    exact h.wired k sock' (((hreg k).trans (if_neg hk)).symm.trans hsock')
  case connected =>
    intro sock' hsock'
    obtain rfl := Option.some.inj ((hsock'.symm.trans (hreg fd)).trans (if_pos rfl))
    exact hstate

/-- `accept` returns descriptors that are not open. -/
theorem acceptNewSocket {fd : Fd} (h : Inv (some fd) so co s) (hcls : cls.Keeps (some fd)) {id : Nat}
    (hid : s.sockets.map.lookup fd = some id) {accepted : List Fd} (hnodup : accepted.Nodup)
    (hfresh : ∀ k ∈ accepted, k ∉ s.sockets.map ∧ k ≠ invalidHandle) :
    Safe (s.acceptNewSocket cls id accepted) fun s' => Inv (some fd) so co s' := by
  apply (Safe.foldlM (I := fun rest s' => Inv (some fd) so co s' ∧ s'.sockets.map.lookup fd = some id ∧ rest.Nodup ∧
    ∀ k ∈ rest, k ∉ s'.sockets.map ∧ k ≠ invalidHandle) ?step ⟨h, hid, hnodup, hfresh⟩).mono fun s' h' => h'.1
  intro s₁ k rest ⟨h₁, hid₁, hnodup₁, hfresh₁⟩
  obtain ⟨hk, hrest⟩ := List.nodup_cons.mp hnodup₁
  obtain ⟨hkfree, hkvalid⟩ := hfresh₁ k List.mem_cons_self
  have hkfd : fd ≠ k := by
    rintro rfl
    exact hkfree (Finmap.mem_of_lookup_eq_some hid₁)
  refine (h₁.sockets.get (held_of_lookup hid₁)).bind fun sock hsock => ?_
  have hwired := h₁.wired fd sock (registered_of_lookup hid₁ hsock)
  unfold Wired at hwired
  rw [if_pos rfl] at hwired
  obtain ⟨hacc, hmap⟩ := h₁.accepted hkfree hkvalid (fun heq => hkfd (Option.some.inj heq))
    ⟨k, .connected, .serverCallback, sock.callbackData⟩ rfl rfl
  dsimp only
  rw [hwired]
  refine (hcls.onConnect rfl hacc).mono fun s₂ ⟨h₂, hmap₂⟩ => ?_
  rw [hmap₂]
  refine ⟨h₂, ?_, hrest, fun j hj => ⟨fun hmem => ?_, (hfresh₁ j (List.mem_cons_of_mem k hj)).2⟩⟩
  · exact (congrArg (Finmap.lookup fd) hmap).trans ((Finmap.lookup_insert_of_ne _ hkfd).trans hid₁)
  · rcases Finmap.mem_insert.mp (hmap ▸ hmem) with rfl | hold
    · exact hk hj
    · exact (hfresh₁ j (List.mem_cons_of_mem k hj)).1 hold

theorem baseOnRead (h : Inv listenFd so co s) (hcls : cls.Keeps listenFd) {fd : Fd} {id : Nat}
    (hid : s.sockets.map.lookup fd = some id) {input : ReadInput}
    (hfresh : listenFd = some fd → input.accepted.Nodup ∧
      ∀ k ∈ input.accepted, k ∉ s.sockets.map ∧ k ≠ invalidHandle) :
    Safe (s.baseOnRead cls input id) fun s' => Inv listenFd so co s' ∧
      (listenFd ≠ some fd → After (s.closesOn input.msg fd) fd s s') := by
  refine (h.sockets.get (held_of_lookup hid)).bind fun sock hsock => ?_
  have hwired := h.wired fd sock (registered_of_lookup hid hsock)
  have hmsg : input.msg ≠ .connect := by
    unfold ReadInput.msg
    split <;> exact nofun
  rw [h.sockets.key_of_lookup hid hsock]
  split
  · next hlistening =>
    -- only the listening socket listens
    by_cases hfd : listenFd = some fd
    · subst hfd
      obtain ⟨hnodup, hnew⟩ := hfresh rfl
      exact (h.acceptNewSocket hcls hid hnodup hnew).mono fun s' h' => ⟨h', fun hne => absurd rfl hne⟩
    · unfold Wired at hwired
      rw [if_neg hfd] at hwired
      exact absurd hlistening hwired.2.2
  · exact h.invoke_wired hcls hwired hmsg

end Inv

/-- `OnWrite` of the socket tells its callback that the connection is closed. -/
def connectFails (s : Loop κ ω) (fd : Fd) (soError : Bool) : Prop :=
  ∃ sock, s.sockets.registered fd = some sock ∧ sock.state = .connecting ∧ soError = true

namespace Inv

/-- The socket need not be in the table any more. -/
theorem baseOnWrite (h : Inv listenFd so co s) (hcls : cls.Keeps listenFd) (soError : Bool) {id : Nat}
    (hheld : Held so s.sockets id) :
    Safe (s.baseOnWrite cls soError id) fun s' => Inv listenFd so co s' ∧
      ∀ fd, s.sockets.map.lookup fd = some id → ¬ s.connectFails fd soError → s'.conns.map = s.conns.map := by
  refine (h.sockets.get hheld).bind fun sock hsock => ?_
  split
  · next hconnecting =>
    split
    · next herror =>
      refine (h.invoke hcls _ _ (fun heq => by cases heq) _).mono fun s' ⟨h', _⟩ => ⟨h', fun fd hid hok => ?_⟩
      exact absurd ⟨sock, registered_of_lookup hid hsock, hconnecting, herror⟩ hok
    · refine (h.modifySocket hheld (fun heq => by cases heq)).bind fun s₁ ⟨h₁, hconns⟩ => ?_
      refine (h₁.invoke hcls _ _ (fun heq => by cases heq) _).mono fun s' ⟨h', _, hframe⟩ => ⟨h', fun _ _ _ => ?_⟩
      rw [(hframe (closesOn_confirm s₁ _)).conns, hconns]
  · refine (h.invoke hcls _ _ (fun heq => by cases heq) _).mono fun s' ⟨h', _, hframe⟩ => ⟨h', fun _ _ _ => ?_⟩
    exact (hframe (closesOn_write s _)).conns

/-- The same for a hang-up. -/
theorem baseOnClose (h : Inv listenFd so co s) (hcls : cls.Keeps listenFd) {id : Nat}
    (hheld : Held so s.sockets id) :
    Safe (s.baseOnClose cls id) fun s' => Inv listenFd so co s' := by
  refine (h.sockets.get hheld).bind fun sock _ => ?_
  refine (h.modifySocket hheld (fun heq => by cases heq)).bind fun s₁ ⟨h₁, _⟩ => ?_
  exact (h₁.invoke hcls _ _ (fun heq => by cases heq) _).mono fun s' ⟨h', _⟩ => h'

end Inv

/-! ## An event -/

/-- `accept` returns descriptors that are not open. -/
def Fresh (s : Loop κ ω) (ev : Event) : Prop :=
  ∀ input ∈ ev.epollin, input.accepted.Nodup ∧ ∀ fd ∈ input.accepted, fd ∉ s.sockets.map ∧ fd ≠ invalidHandle

instance (s : Loop κ ω) (ev : Event) : Decidable (s.Fresh ev) :=
  inferInstanceAs (Decidable (∀ input ∈ ev.epollin, _))

/-- A handler of the event closes the connection of its descriptor. -/
def Closes (s : Loop κ ω) (ev : Event) : Prop :=
  (∃ input ∈ ev.epollin, s.closesOn input.msg ev.fd = true) ∨
    (∃ soError ∈ ev.epollout, s.connectFails ev.fd soError) ∨ ev.epollhup.isSome = true

theorem safe_ifSet {β : Type} {flag : Option β} {handler : β → Loop κ ω → Except Halt (Loop κ ω)}
    {Q : Loop κ ω → Prop} (hset : ∀ b ∈ flag, Safe (handler b s) Q) (hclear : flag = none → Q s) :
    Safe (s.ifSet flag handler) Q := by
  cases flag with
  | none => exact hclear rfl
  | some b => exact hset b rfl

theorem connectFails_frame (h : Frame s s') (fd : Fd) (soError : Bool) :
    s'.connectFails fd soError ↔ s.connectFails fd soError := by
  unfold connectFails
  rw [h.sockets.registered]

theorem Inv.event (h : Inv listenFd so co s) (hcls : cls.Keeps listenFd) {ev : Event}
    (hfresh : listenFd = some ev.fd → s.Fresh ev) :
    Safe (s.event cls ev) fun s' => Inv listenFd so co s' ∧
      (listenFd ≠ some ev.fd → (ev.fd ∈ s.conns.map → ¬ s.Closes ev) → s'.conns.map = s.conns.map) := by
  refine (h.findBaseSocket ev.fd).bind fun r hr => ?_
  rcases hr with ⟨_, rfl⟩ | ⟨id, s₁, hid, rfl, h₁, hframe₁, hconns₁⟩
  · exact Safe.ok ⟨h, fun _ _ => rfl⟩
  have hid₁ : s₁.sockets.map.lookup ev.fd = some id := by rw [hframe₁.sockets.map, hid]
  have hread : Safe (s₁.ifSet ev.epollin fun input => Loop.baseOnRead cls input id) fun s₂ =>
      Inv listenFd (lend so id) co s₂ ∧ (listenFd ≠ some ev.fd → ¬ s.Closes ev → Frame s₁ s₂) := by
    refine safe_ifSet (fun input hinput => ?_) fun _ => ⟨h₁, fun _ _ => .refl s₁⟩
    have hnew : listenFd = some ev.fd → _ := fun hlisten => hfresh hlisten input hinput
    rw [← hframe₁.sockets.map] at hnew
    refine (h₁.baseOnRead hcls hid₁ hnew).mono fun s₂ ⟨h₂, hafter⟩ => ⟨h₂, fun hfd hopen => ?_⟩
    have hkeep : s₁.closesOn input.msg ev.fd = false := by
      rw [closesOn_frame hframe₁ (by rw [hconns₁]), ← Bool.not_eq_true]
      exact fun hcloses => hopen (.inl ⟨input, hinput, hcloses⟩)
    have hafter' := hafter hfd
    rw [hkeep] at hafter'
    exact hafter'
  refine hread.bind fun s₂ ⟨h₂, hframe₂⟩ => ?_
  have hwrite : Safe (s₂.ifSet ev.epollout fun soError => Loop.baseOnWrite cls soError id) fun s₃ =>
      Inv listenFd (lend so id) co s₃ ∧ (listenFd ≠ some ev.fd → ¬ s.Closes ev → s₃.conns.map = s.conns.map) := by
    refine safe_ifSet (fun soError hsoError => ?_) fun _ =>
      ⟨h₂, fun hfd hopen => (hframe₁.trans (hframe₂ hfd hopen)).conns⟩
    refine (h₂.baseOnWrite hcls soError (held_lend so _ id)).mono fun s₃ ⟨h₃, hmap⟩ => ⟨h₃, fun hfd hopen => ?_⟩
    have hframe := hframe₁.trans (hframe₂ hfd hopen)
    rw [hmap ev.fd (by rw [hframe.sockets.map, hid]) fun hfails => ?_, hframe.conns]
    exact hopen (.inr (.inl ⟨soError, hsoError, (connectFails_frame hframe _ _).mp hfails⟩))
  refine hwrite.bind fun s₃ ⟨h₃, hmap₃⟩ => ?_
  have hclose : Safe (s₃.ifSet ev.epollhup fun () => Loop.baseOnClose cls id) fun s₄ =>
      Inv listenFd (lend so id) co s₄ ∧ (listenFd ≠ some ev.fd → ¬ s.Closes ev → s₄.conns.map = s.conns.map) := by
    refine safe_ifSet (fun _ hhup => ?_) fun _ => ⟨h₃, hmap₃⟩
    refine (h₃.baseOnClose hcls (held_lend so _ id)).mono fun s₄ h₄ => ⟨h₄, fun _ hopen => ?_⟩
    exact absurd (.inr (.inr (Option.isSome_of_mem hhup))) hopen
  refine hclose.bind fun s₄ ⟨h₄, hmap₄⟩ => ?_
  refine h₄.releaseSocket.mono fun s₅ ⟨h₅, hframe₅⟩ => ⟨h₅, fun hfd hopen => ?_⟩
  have hconn : ev.fd ∈ s.conns.map := (h.keys ev.fd).mpr ⟨Finmap.mem_of_lookup_eq_some hid, hfd⟩
  rw [hframe₅.conns, hmap₄ hfd (hopen hconn)]

/-! ## All connections, and the end of one -/

/-- A round may close the connection that it is about, and must leave the others. -/
theorem safe_forEachConn {f : Nat → Loop κ ω → Except Halt (Loop κ ω)} {P : Loop κ ω → Prop} (hP : P s)
    (hround : ∀ s₁ fd id, P s₁ → s₁.conns.map.lookup fd = some id →
      Safe (f id s₁) fun s₂ => P s₂ ∧ ∀ k, k ≠ fd → k ∈ s₁.conns.map → k ∈ s₂.conns.map) :
    Safe (s.forEachConn f) P := by
  have hlist := s.env.order.nodup s.conns.map.keys
  have hmem : ∀ k ∈ s.env.order.list s.conns.map.keys, k ∈ s.conns.map := fun k hk =>
    Finmap.mem_keys.mp ((s.env.order.mem _ k).mp hk)
  apply (Safe.foldlM (I := fun rest s₁ => P s₁ ∧ rest.Nodup ∧ ∀ k ∈ rest, k ∈ s₁.conns.map) ?step
    ⟨hP, hlist, hmem⟩).mono fun s₁ h₁ => h₁.1
  intro s₁ fd rest ⟨hP₁, hnodup, hrest⟩
  obtain ⟨hfd, hnodup'⟩ := List.nodup_cons.mp hnodup
  obtain ⟨id, hid⟩ := Finmap.mem_iff.mp (hrest fd List.mem_cons_self)
  rw [hid]
  refine (hround s₁ fd id hP₁ hid).mono fun s₂ ⟨hP₂, hothers⟩ => ⟨hP₂, hnodup', fun k hk => ?_⟩
  exact hothers k (ne_of_mem_of_not_mem hk hfd) (hrest k (List.mem_cons_of_mem fd hk))

/-- A connection that has no entry yet leaves its reference to the map. -/
theorem openHandle_spec {id : Nat} (h : Counted Conn.handle (lend co id) s.conns)
    (hloose : ∀ k, s.conns.map.lookup k ≠ some id) {fd : Fd} (hfree : fd ∉ s.conns.map) :
    Safe (s.openHandle id fd) fun s' => ∃ t, s' = { s with conns := t } ∧ Counted Conn.handle co t ∧
      t.map = s.conns.map.insert fd id := by
  obtain ⟨cell, hcell⟩ := h.alive (held_lend co _ id)
  have hvalue : s.conns.value id = some cell.value := congrArg (Option.map Cell.value) hcell
  refine Safe.bind (P := fun s' => ∃ t, s' = { s with conns := t } ∧ Counted Conn.handle (lend co id) t ∧
    t.map = s.conns.map ∧ t.value id = some { cell.value with handle := fd }) ?modify
    fun s₁ ⟨t, hs₁, ht, hmap, hval⟩ => ?_
  case modify =>
    refine (h.modify (held_lend co _ id) (.inr hloose)).bind fun t ⟨ht, hmap, hval⟩ => Safe.ok ⟨t, rfl, ht, hmap, ?_⟩
    rw [hval id, if_pos rfl, hvalue]
    rfl
  subst hs₁
  obtain ⟨hins, hmapins, _⟩ := ht.insert (hmap ▸ hfree) hval rfl
  exact Safe.ok ⟨_, rfl, hins, hmapins.trans (congrArg (Finmap.insert fd id) hmap)⟩

namespace Inv

/-- The socket of a connection is there. -/
theorem remoteAddress (h : Inv listenFd so co s) {fd : Fd} (hfd : fd ∈ s.conns.map) :
    Safe (s.remoteAddress fd) fun s' => Inv listenFd so co s' ∧ Frame s s' := by
  refine (h.findBaseSocket fd).bind fun r hr => ?_
  rcases hr with ⟨hnone, _⟩ | ⟨id, s₁, _, rfl, h₁, hframe₁, _⟩
  · exact absurd ((h.keys fd).mp hfd).1 (Finmap.lookup_eq_none.mp hnone)
  · refine (h₁.sockets.get (held_lend so _ id)).bind fun _ _ => ?_
    exact h₁.releaseSocket.mono fun s₂ ⟨h₂, hframe₂⟩ => ⟨h₂, hframe₁.trans hframe₂⟩

/-- The socket goes, and the map's reference to the connection is left to the caller. -/
theorem dropHandle (h : Inv listenFd so co s) {fd : Fd} {id : Nat} (hid : s.conns.map.lookup fd = some id) :
    Safe (s.dropHandle fd) fun s' => Inv listenFd so (lend co id) s' ∧ s'.conns.map = s.conns.map.erase fd := by
  obtain ⟨hfd, hlisten⟩ := (h.keys fd).mp (Finmap.mem_of_lookup_eq_some hid)
  have hclose : Safe (s.netlibClose fd) fun s' => ∃ t, s' = { s with sockets := t } ∧
      Counted CBaseSocket.socket so t ∧ t.map = s.sockets.map.erase fd ∧
      ∀ k, t.registered k = if k = fd then none else s.sockets.registered k := by
    refine (findSocket h.sockets fd).bind fun r hr => ?_
    rcases hr with ⟨hnone, rfl⟩ | ⟨sid, t₁, hsid, rfl, h₁, hsame₁⟩
    · exact absurd hfd (Finmap.lookup_eq_none.mp hnone)
    have hsid₁ : t₁.map.lookup fd = some sid := by rw [hsame₁.map, hsid]
    have hsocket : Safe (({ s with sockets := t₁ } : Loop κ ω).closeSocket sid) fun s' =>
        ∃ t, s' = { s with sockets := t } ∧ Counted CBaseSocket.socket (lend so sid) t ∧ Same (t₁.erase fd) t := by
      refine (h₁.get (held_lend so t₁ sid)).bind fun sock hsock => ?_
      rw [h₁.key_of_lookup hsid₁ hsock]
      refine (release (s := { s with sockets := t₁.erase fd }) (h₁.erase hsid₁).1).mono
        fun s' ⟨t, hs', ht⟩ => ⟨t, hs', ht⟩
    refine hsocket.bind fun s₂ ⟨t₂, hs₂, h₂, hsame₂⟩ => ?_
    subst hs₂
    refine (release h₂).mono fun s₃ ⟨t₃, hs₃, h₃, hsame₃⟩ => ⟨t₃, hs₃, h₃, ?_, fun k => ?_⟩
    · have hmap := hsame₃.map.trans hsame₂.map
      exact hmap.trans (congrArg (Finmap.erase fd) hsame₁.map)
    · rw [hsame₃.registered k]
      refine ((hsame₂.registered k).trans ((h₁.erase hsid₁).2 k)).trans ?_
      rw [hsame₁.registered k]
  refine hclose.bind fun s₁ ⟨t, hs₁, ht, hmap, hreg⟩ => ?_
  subst hs₁
  refine Safe.ok ⟨⟨ht, (h.conns.erase hid).1, fun k => ?keys, fun k hk => ?valid, fun k sock hsock => ?wired⟩, rfl⟩
  case keys =>
    change k ∈ s.conns.map.erase fd ↔ k ∈ t.map ∧ listenFd ≠ some k
    rw [hmap, Finmap.mem_erase, Finmap.mem_erase, h.keys k, and_assoc]
  case valid =>
    rw [show ({ s with sockets := t, conns := s.conns.erase fd } : Loop κ ω).sockets.map = _ from hmap] at hk
    exact h.valid k (Finmap.mem_erase.mp hk).2
  case wired =>
    have hold := (hreg k).symm.trans hsock
    split at hold
    · cases hold
    · exact h.wired k sock hold

/-- The connection of an entry has its descriptor. -/
theorem getConn (h : Inv listenFd so co s) {fd : Fd} {id : Nat} (hid : s.conns.map.lookup fd = some id) :
    Safe (s.conns.get id) fun c => c.handle = fd ∧ c.handle ≠ invalidHandle := by
  refine (h.conns.get (held_of_lookup hid)).mono fun c hc => ?_
  have hfd := (h.keys fd).mp (Finmap.mem_of_lookup_eq_some hid)
  rw [h.conns.key_of_lookup hid hc]
  exact ⟨rfl, h.valid fd hfd.1⟩

/-- Its socket can be asked for the address, and the entry stays. -/
theorem remoteAddress_of_lookup (h : Inv listenFd so co s) {fd : Fd} {id : Nat}
    (hid : s.conns.map.lookup fd = some id) :
    Safe (s.remoteAddress fd) fun s' => Inv listenFd so co s' ∧ s'.conns.map = s.conns.map ∧
      s'.conns.map.lookup fd = some id := by
  refine (h.remoteAddress (Finmap.mem_of_lookup_eq_some hid)).mono fun s' ⟨h', hframe'⟩ => ⟨h', hframe'.conns, ?_⟩
  rw [hframe'.conns, hid]

/-- The map's reference was the last but those of the running code. -/
theorem dropConn (h : Inv listenFd so co s) {fd : Fd} {id : Nat} (hid : s.conns.map.lookup fd = some id) :
    Safe (do
      let s ← s.dropHandle fd
      s.releaseConn id) fun s' => Inv listenFd so co s' ∧ s'.conns.map = s.conns.map.erase fd := by
  refine (h.dropHandle hid).bind fun s₁ ⟨h₁, hmap₁⟩ => ?_
  refine h₁.releaseConn.mono fun s₂ ⟨h₂, hframe₂⟩ => ⟨h₂, ?_⟩
  rw [hframe₂.conns, hmap₁]

end Inv

/-- The other entries are still there. -/
theorem mem_of_erase {fd k : Fd} (hmap : s'.conns.map = s.conns.map.erase fd) (hk : k ≠ fd) (hmem : k ∈ s.conns.map) :
    k ∈ s'.conns.map := by
  rw [hmap]
  exact Finmap.mem_erase.mpr ⟨hk, hmem⟩

end Loop

end PostfixEdm
