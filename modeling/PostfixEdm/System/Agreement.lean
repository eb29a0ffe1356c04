import PostfixEdm.Lib.Transition
import PostfixEdm.System.Net

/-!
# Server and clients agree on the job

A client catches up with the server in one of two ways: its status request will be answered with the
server's state, or what is on the way to it amounts to that state already. `LinkOk` says so of a client's
connection, and `Inv` of all of them.

* `GoodStep` : the steps after which this stays true. A connection that a timeout opened carries no status
  request, so the client must hold the server's state when it is accepted; and an unset client type must not
  happen to be the one of a PHP client, which the server leaves out when it broadcasts;
* `Inv.step` : what one good step preserves; `agree_of_settled` : what holds in every run of good steps.
-/

namespace PostfixEdm

variable {ι κ : Type} {parse : JsonReader}

/-- The messages on the way, oldest first, bring the worker to `job`. -/
def CatchesUp (parse : JsonReader) (worker : Job) (msgs : List OutPdu) (job : Job) : Prop :=
  msgs.foldl (ClientConn.apply parse) worker = job

/-- The messages of a link are ones that the two programs send. -/
structure Link.Sound (l : Link ι) : Prop where
  toServer : ∀ m ∈ l.toServer, (m.FromClient ∨ ∃ t, m = .clientDone t) ∧ m.Encodable
  toClient : ∀ m ∈ l.toClient, m.FromServer ∧ m.Encodable ∧ m.Framed

/-- The connection of a client will bring its worker to the server's state. -/
structure LinkOk (parse : JsonReader) (job worker : Job) (l : Link ι) : Prop where
  pending : l.side = .pending → l.toClient = []
  hears : ∀ t, l.side = .serving t → t ≠ clientPhp
  catchesUp : ∀ t, l.side = .serving t →
    .serverStatusRequest ∈ l.toServer ∨ CatchesUp parse worker l.toClient job

structure Inv (parse : JsonReader) (s : Net ι κ) : Prop where
  sound : ∀ k l, s.links k = some l → l.Sound
  current : ∀ i k, s.current i = some k →
    ∃ l, s.links k = some l ∧ l.owner = i ∧ LinkOk parse s.manager.job (s.worker i) l

/-- The steps after which the clients can still catch up. -/
def GoodStep (s : Net ι κ) : Act ι κ → Prop
  | .accept k clientType => clientType ≠ clientPhp ∧
      ∀ l, s.links k = some l → s.current l.owner = some k → .serverStatusRequest ∉ l.toServer →
        s.worker l.owner = s.manager.job
  | .serverRecv k _ env _ =>
      ∀ l t, s.links k = some l → l.toServer.head? = some (.clientDone t) → env.word16 0 ≠ clientPhp
  | _ => True

theorem inv_init (online : UInt16) : Inv parse (Net.init online : Net ι κ) := by
  constructor
  · intro k l h
    cases h
  · intro i k h
    cases h

section Updates
variable {s : Net ι κ} {i : ι} {k : κ} {l : Link ι}

/-- The owner of a current link is unique. -/
theorem Inv.owner_eq (hs : Inv parse s) (hi : s.current i = some k) (hl : s.links k = some l) :
    l.owner = i := by
  obtain ⟨l₁, hl₁, howner, -⟩ := hs.current i k hi
  obtain rfl : l = l₁ := Option.some.inj (hl.symm.trans hl₁)
  exact howner

theorem Inv.linkOk (hs : Inv parse s) (hi : s.current i = some k) (hl : s.links k = some l) :
    LinkOk parse s.manager.job (s.worker i) l := by
  obtain ⟨l₁, hl₁, -, hok⟩ := hs.current i k hi
  obtain rfl : l = l₁ := Option.some.inj (hl.symm.trans hl₁)
  exact hok

/-- A client gives its connection up. -/
theorem Inv.disconnect [DecidableEq ι] (hs : Inv parse s) (i : ι) :
    Inv parse { s with current := Function.update s.current i none } := by
  refine ⟨hs.sound, fun j k' h => ?_⟩
  by_cases hj : j = i
  · subst hj
    simp only [Function.update_self] at h
    cases h
  · simp only [Function.update_of_ne hj] at h
    exact hs.current j k' h

variable [DecidableEq κ]

/-- One link changes, and the manager at most in what is not the job. -/
theorem Inv.setLink (hs : Inv parse s) (hl : s.links k = some l) (l' : Link ι) (howner : l'.owner = l.owner)
    (hsound : l'.Sound) {mgr : Manager} (hmgr : mgr.job = s.manager.job)
    (hok : s.current l.owner = some k → LinkOk parse s.manager.job (s.worker l.owner) l →
      LinkOk parse s.manager.job (s.worker l.owner) l') :
    Inv parse ({ s with manager := mgr }.setLink k l') := by
  constructor
  · intro k' l₁ h
    by_cases hk : k' = k
    · subst hk
      simp only [Net.setLink, Function.update_self, Option.some.injEq] at h
      rwa [← h]
    · simp only [Net.setLink, Function.update_of_ne hk] at h
      exact hs.sound k' l₁ h
  · intro j k' h
    obtain ⟨l₁, hl₁, hj, hok₁⟩ := hs.current j k' h
    by_cases hk : k' = k
    · subst hk
      obtain rfl : l = l₁ := Option.some.inj (hl.symm.trans hl₁)
      subst hj
      refine ⟨l', by simp only [Net.setLink, Function.update_self], howner, ?_⟩
      simp only [Net.setLink, hmgr]
      exact hok h hok₁
    · refine ⟨l₁, by simp only [Net.setLink, Function.update_of_ne hk]; exact hl₁, hj, ?_⟩
      simp only [Net.setLink, hmgr]
      exact hok₁

/-- The client's program sends on its connection. -/
theorem Inv.clientSend (hs : Inv parse s) {pdus : List OutPdu} {s' : Net ι κ}
    (hpdus : ∀ m ∈ pdus, (m.FromClient ∨ ∃ t, m = .clientDone t) ∧ m.Encodable)
    (h : s.clientSend i pdus = some s') : Inv parse s' := by
  obtain ⟨k, hi, h⟩ := Option.bind_eq_some_iff.mp h
  obtain ⟨l, hl, h⟩ := Option.bind_eq_some_iff.mp h
  cases h
  have hsound := hs.sound k l hl
  refine hs.setLink hl { l with toServer := l.toServer ++ pdus } rfl ⟨?_, hsound.toClient⟩ rfl
    fun _ hok => ⟨hok.pending, hok.hears, fun t ht => ?_⟩
  · intro m hm
    exact (List.mem_append.mp hm).elim (hsound.toServer m) (hpdus m)
  · exact (hok.catchesUp t ht).imp_left fun hreq => List.mem_append_left _ hreq

variable [DecidableEq ι]

/-- A client connects, and its worker may start afresh. -/
theorem Inv.connect (hs : Inv parse s) (hk : s.links k = none) {pdus : List OutPdu}
    (hpdus : ∀ m ∈ pdus, (m.FromClient ∨ ∃ t, m = .clientDone t) ∧ m.Encodable) (worker : ι → Job)
    (hworker : ∀ j, j ≠ i → worker j = s.worker j) :
    Inv parse ({ s with worker := worker }.connect i k pdus) := by
  constructor
  · intro k' l₁ h
    by_cases hkk : k' = k
    · subst hkk
      simp only [Net.connect, Net.setLink, Function.update_self, Option.some.injEq] at h
      rw [← h]
      exact ⟨hpdus, fun m hm => by cases hm⟩
    · simp only [Net.connect, Net.setLink, Function.update_of_ne hkk] at h
      exact hs.sound k' l₁ h
  · intro j k' h
    by_cases hj : j = i
    · subst hj
      simp only [Net.connect, Net.setLink, Function.update_self, Option.some.injEq] at h
      subst h
      refine ⟨⟨j, false, .pending, pdus, []⟩, by simp only [Net.connect, Net.setLink, Function.update_self],
        rfl, ⟨fun _ => rfl, ?_, ?_⟩⟩
      · intro t ht
        cases ht
      · intro t ht
        cases ht
    · simp only [Net.connect, Net.setLink, Function.update_of_ne hj] at h
      obtain ⟨l₁, hl₁, howner, hok⟩ := hs.current j k' h
      have hkk : k' ≠ k := by
        rintro rfl
        rw [hk] at hl₁
        cases hl₁
      refine ⟨l₁, by simp only [Net.connect, Net.setLink, Function.update_of_ne hkk]; exact hl₁, howner, ?_⟩
      simp only [Net.connect, Net.setLink, hworker j hj]
      exact hok

end Updates

/-! ## Broadcasts -/

theorem catchesUp_append {worker job job' : Job} {msgs pdus : List OutPdu} (h : CatchesUp parse worker msgs job)
    (hpdus : pdus.foldl (ClientConn.apply parse) job = job') :
    CatchesUp parse worker (msgs ++ pdus) job' := by
  rw [CatchesUp, List.foldl_append, h]
  exact hpdus

/-- A command does to every worker that holds the server's state what it does to the server. -/
theorem apply_run (mgr : Manager) (c : AdminCommand) :
    ClientConn.apply parse mgr.job (mgr.run c).1 = (mgr.run c).2.job := by
  cases c <;> rfl

theorem run_sound (mgr : Manager) (c : AdminCommand) :
    (mgr.run c).1.FromServer ∧ (mgr.run c).1.Encodable ∧ (mgr.run c).1.Framed := by
  cases c with
  | start totalNum | stop | pause | resume =>
    exact ⟨trivial, ⟨show 12 + 2 < 2 ^ 31 by decide, fun _ h => by cases h⟩, show IsServCommand _ by decide⟩
  | adjustSendRate d m => exact ⟨trivial, ⟨show 12 + 4 < 2 ^ 31 by decide, fun _ h => by cases h⟩, trivial⟩

theorem Inv.command {s : Net ι κ} (hs : Inv parse s) (c : AdminCommand) :
    Inv parse ({ s with manager := (s.manager.run c).2 }.broadcast [(s.manager.run c).1]) := by
  constructor
  · intro k l' h
    obtain ⟨l, hl, rfl⟩ := Option.map_eq_some_iff.mp h
    have hsound := hs.sound k l hl
    split
    · refine ⟨hsound.toServer, fun m hm => ?_⟩
      rcases List.mem_append.mp hm with hm | hm
      · exact hsound.toClient m hm
      · rw [List.mem_singleton.mp hm]
        exact run_sound s.manager c
    · exact hsound
  · intro i k h
    obtain ⟨l, hl, howner, hok⟩ := hs.current i k h
    refine ⟨_, by simp only [Net.broadcast, hl, Option.map_some]; rfl, ?_, ?_⟩
    · split <;> exact howner
    · by_cases hhears : l.hears = true
      · rw [if_pos hhears]
        refine ⟨fun hp => ?_, hok.hears, fun t ht => ?_⟩
        · rw [Link.hears, show l.side = .pending from hp] at hhears
          cases hhears
        · refine (hok.catchesUp t ht).imp_right fun hc => ?_
          exact catchesUp_append hc (apply_run s.manager c)
      · rw [if_neg hhears]
        refine ⟨hok.pending, hok.hears, fun t ht => ?_⟩
        rw [Link.hears, ht] at hhears
        exact absurd (decide_eq_true (hok.hears t ht)) hhears

/-! ## The server receives -/

/-- What the server makes of a client's message keeps the client catching up. -/
theorem answer_catchesUp (hp : parse.Reads) {mgr : Manager} {t : UInt16} {m : OutPdu} (hm : m.FromClient)
    {rest msgs : List OutPdu} {worker : Job}
    (h : .serverStatusRequest ∈ m :: rest ∨ CatchesUp parse worker msgs mgr.job) :
    .serverStatusRequest ∈ rest ∨
      CatchesUp parse worker (msgs ++ (ServConn.answer mgr t m).replies) mgr.job := by
  have hneutral : m ≠ .serverStatusRequest →
      (∀ job, (ServConn.answer mgr t m).replies.foldl (ClientConn.apply parse) job = job) →
      .serverStatusRequest ∈ rest ∨
        CatchesUp parse worker (msgs ++ (ServConn.answer mgr t m).replies) mgr.job := by
    intro hne hid
    rcases h with hreq | hc
    · exact Or.inl ((List.mem_cons.mp hreq).resolve_left fun he => hne he.symm)
    · exact Or.inr (catchesUp_append hc (hid _))
  cases m with
  | serverStatusRequest =>
    right
    rw [CatchesUp, List.foldl_append]
    exact unserialize_serialize hp mgr.statusInfo
  | clientData s => exact hneutral (by rintro ⟨⟩) fun _ => rfl
  | heartbeat s => exact hneutral (by rintro ⟨⟩) fun _ => rfl
  | regClientType type => exact hneutral (by rintro ⟨⟩) fun _ => rfl
  | _ => exact hm.elim

theorem fromServer_of_mem_replies {mgr : Manager} {t : UInt16} {m reply : OutPdu}
    (h : reply ∈ (ServConn.answer mgr t m).replies) : reply.FromServer := by
  cases m with
  | serverStatusRequest | clientData s =>
    rw [List.mem_singleton.mp h]
    trivial
  | _ => cases h

/-- A client's message changes neither the manager nor what others are sent. -/
theorem answer_frame (mgr : Manager) (t : UInt16) (m : OutPdu) :
    (ServConn.answer mgr t m).manager = mgr ∧ (ServConn.answer mgr t m).broadcast = [] := by
  cases m <;> exact ⟨rfl, rfl⟩

theorem answer_clientType {mgr : Manager} {t : UInt16} {m : OutPdu} (hm : m.FromClient) (ht : t ≠ clientPhp) :
    (ServConn.answer mgr t m).clientType ≠ clientPhp := by
  cases m with
  | regClientType type =>
    rw [show (ServConn.answer mgr t (.regClientType type)).clientType = clientCpp from hm]
    decide
  | _ => exact ht

section
variable {s : Net ι κ}

theorem broadcast_nil (s : Net ι κ) : s.broadcast [] = s := by
  have hlinks : (s.broadcast []).links = s.links := by
    funext k
    simp only [Net.broadcast, List.append_nil, ite_self, Option.map_id']
  cases s
  exact congrArg _ hlinks

variable [DecidableEq κ]

theorem reply_setLink (s : Net ι κ) (k : κ) (l : Link ι) (pdus : List OutPdu) :
    (s.setLink k l).reply k pdus = s.setLink k { l with toClient := l.toClient ++ pdus } := by
  unfold Net.reply
  simp only [Net.setLink, Function.update_self, Function.update_idem]

/-- The server's end answers a message of the client. -/
theorem serverRecv_of_fromClient {k : κ} {l : Link ι} {t : UInt16} {m : OutPdu} {rest : List OutPdu}
    (hl : s.links k = some l) (hside : l.side = .serving t) (hmsgs : l.toServer = m :: rest)
    (hm : m.FromClient) (henc : m.Encodable) (heap : Heap) (env : Env) (look : Lookup) :
    s.serverRecv k heap env look =
      some (s.setLink k ⟨l.owner, l.confirmed, .serving (ServConn.answer s.manager t m).clientType, rest,
        l.toClient ++ (ServConn.answer s.manager t m).replies⟩) := by
  obtain ⟨pdu, mem, hrecv, hcar⟩ := receive_framed heap env henc (ServConn.framed_of_fromClient hm)
  obtain ⟨hmgr, hbroad⟩ := answer_frame s.manager t m
  unfold Net.serverRecv
  simp only [hl, Option.bind_eq_bind, Option.bind_some, hside, hmsgs, hrecv,
    ServConn.handlePdu_carries hm hcar, hmgr, hbroad, broadcast_nil, reply_setLink]

/-- A completion report registers the connection with an unset type. -/
theorem serverRecv_clientDone {k : κ} {l : Link ι} {t type : UInt16} {rest : List OutPdu}
    (hl : s.links k = some l) (hside : l.side = .serving t) (hmsgs : l.toServer = .clientDone type :: rest)
    (heap : Heap) (env : Env) (look : Lookup) :
    s.serverRecv k heap env look =
      some (s.setLink k ⟨l.owner, l.confirmed, .serving (env.word16 0), rest, l.toClient⟩) := by
  obtain ⟨pdu, mem, hrecv, hbd⟩ := receive_clientDone heap env type
  unfold Net.serverRecv
  simp only [hl, Option.bind_eq_bind, Option.bind_some, hside, hmsgs, hrecv, ServConn.handlePdu, hbd,
    broadcast_nil, reply_setLink, List.append_nil]

theorem Inv.serverRecv (hp : parse.Reads) (hs : Inv parse s) {k : κ} {heap : Heap} {env : Env} {look : Lookup}
    {s' : Net ι κ}
    (hgood : ∀ l t, s.links k = some l → l.toServer.head? = some (.clientDone t) → env.word16 0 ≠ clientPhp)
    (h : s.serverRecv k heap env look = some s') : Inv parse s' := by
  obtain ⟨l, hl, h'⟩ := Option.bind_eq_some_iff.mp h
  have hsound := hs.sound k l hl
  split at h'
  · next t m rest hside hmsgs =>
    obtain ⟨hfrom, henc⟩ := hsound.toServer m (by rw [hmsgs]; exact List.mem_cons_self)
    have hrest : ∀ m' ∈ rest, (m'.FromClient ∨ ∃ t, m' = .clientDone t) ∧ m'.Encodable := fun m' hm' =>
      hsound.toServer m' (by rw [hmsgs]; exact List.mem_cons_of_mem _ hm')
    rcases hfrom with hm | ⟨type, rfl⟩
    · rw [serverRecv_of_fromClient hl hside hmsgs hm henc heap env look, Option.some.injEq] at h
      rw [← h]
      refine hs.setLink hl (.mk l.owner l.confirmed (.serving (ServConn.answer s.manager t m).clientType) rest
        (l.toClient ++ (ServConn.answer s.manager t m).replies)) rfl ⟨hrest, fun reply hr => ?_⟩ rfl
        fun _ hok => ⟨?_, ?_, ?_⟩
      · rcases List.mem_append.mp hr with hr | hr
        · exact hsound.toClient reply hr
        · exact ⟨fromServer_of_mem_replies hr, ServConn.encodable_of_mem_replies hr⟩
      · intro hp
        cases hp
      · intro t' ht'
        cases ht'
        exact answer_clientType hm (hok.hears t hside)
      · intro t' _
        have hc := hok.catchesUp t hside
        rw [hmsgs] at hc
        exact answer_catchesUp hp hm hc
    · rw [serverRecv_clientDone hl hside hmsgs heap env look, Option.some.injEq] at h
      rw [← h]
      refine hs.setLink hl (.mk l.owner l.confirmed (.serving (env.word16 0)) rest l.toClient) rfl
        ⟨hrest, hsound.toClient⟩ rfl fun _ hok => ⟨?_, ?_, ?_⟩
      · intro hp
        cases hp
      · intro t' ht'
        cases ht'
        exact hgood l type hl (by rw [hmsgs]; rfl)
      · intro t' _
        have hc := hok.catchesUp t hside
        rw [hmsgs] at hc
        exact hc.imp_left fun hreq => (List.mem_cons.mp hreq).resolve_left (by rintro ⟨⟩)
  · cases h'

/-! ## Steps of one connection -/

theorem encodable_fromClient {m : OutPdu} (h : m ∈ ClientConn.initClientConn ++ ClientConn.onConfirm) :
    (m.FromClient ∨ ∃ t, m = .clientDone t) ∧ m.Encodable := by
  simp only [ClientConn.initClientConn, ClientConn.onConfirm, List.cons_append, List.nil_append, List.mem_cons,
    List.not_mem_nil, or_false] at h
  rcases h with rfl | rfl | rfl
  · exact ⟨Or.inl trivial, ⟨by decide, by decide⟩⟩
  · exact ⟨Or.inl rfl, ⟨by decide, by decide⟩⟩
  · exact ⟨Or.inl trivial, ⟨by decide, by decide⟩⟩

section Links
variable {k : κ} {l : Link ι}

/-- A client's connection is confirmed. -/
theorem Inv.confirm (hs : Inv parse s) (hl : s.links k = some l) :
    Inv parse (s.setLink k { l with confirmed := true, toServer := l.toServer ++ ClientConn.onConfirm }) := by
  have hsound := hs.sound k l hl
  refine hs.setLink hl { l with confirmed := true, toServer := l.toServer ++ ClientConn.onConfirm } rfl
    ⟨fun m hm => ?_, hsound.toClient⟩ rfl fun _ hok => ⟨hok.pending, hok.hears, fun t ht => ?_⟩
  · exact (List.mem_append.mp hm).elim (hsound.toServer m) fun hm =>
      encodable_fromClient (List.mem_append_right _ hm)
  · exact (hok.catchesUp t ht).imp_left fun hreq => List.mem_append_left _ hreq

/-- The server accepts a connection that asks for its state, or whose client holds it. -/
theorem Inv.accept (hs : Inv parse s) (hl : s.links k = some l) (hside : l.side = .pending) {clientType : UInt16}
    (hne : clientType ≠ clientPhp)
    (hjob : s.current l.owner = some k → .serverStatusRequest ∉ l.toServer → s.worker l.owner = s.manager.job) :
    Inv parse (s.setLink k { l with side := .serving clientType }) := by
  have hsound := hs.sound k l hl
  refine hs.setLink hl { l with side := .serving clientType } rfl ⟨hsound.toServer, hsound.toClient⟩ rfl
    fun hcur hok => ⟨?_, ?_, ?_⟩
  · intro hp
    cases hp
  · intro t ht
    cases ht
    exact hne
  · intro t _
    by_cases hreq : .serverStatusRequest ∈ l.toServer
    · exact Or.inl hreq
    · right
      rw [CatchesUp, hok.pending hside]
      exact hjob hcur hreq

/-- The server's own heartbeat changes nobody's state. -/
theorem Inv.serverHeartbeat (hs : Inv parse s) (hl : s.links k = some l) (hhears : l.hears = true) :
    Inv parse (s.setLink k { l with toClient := l.toClient ++ [.emptyHeartbeat] }) := by
  have hsound := hs.sound k l hl
  refine hs.setLink hl { l with toClient := l.toClient ++ [.emptyHeartbeat] } rfl
    ⟨hsound.toServer, fun m hm => ?_⟩ rfl fun _ hok => ⟨fun hpend => ?_, hok.hears,
      fun t ht => (hok.catchesUp t ht).imp_right fun hc => catchesUp_append hc rfl⟩
  · rcases List.mem_append.mp hm with hm | hm
    · exact hsound.toClient m hm
    · rw [List.mem_singleton.mp hm]
      exact ⟨trivial, ⟨by decide, by decide⟩, trivial⟩
  · rw [Link.hears, show l.side = .pending from hpend] at hhears
    cases hhears

/-- The server closes a connection. -/
theorem Inv.serverClose (hs : Inv parse s) (hl : s.links k = some l) :
    Inv parse (s.setLink k { l with side := .closed }) := by
  have hsound := hs.sound k l hl
  refine hs.setLink hl { l with side := .closed } rfl ⟨hsound.toServer, hsound.toClient⟩ rfl
    fun _ hok => ⟨?_, ?_, ?_⟩ <;> · intros; contradiction

end Links

/-! ## The client receives -/

variable [DecidableEq ι]

/-- A client applies a message of the server to its worker. -/
theorem clientRecv_of_fromServer {i : ι} {k : κ} {l : Link ι} {m : OutPdu} {rest : List OutPdu}
    (hi : s.current i = some k) (hl : s.links k = some l) (hmsgs : l.toClient = m :: rest) (hm : m.FromServer)
    (henc : m.Encodable) (hframed : m.Framed) (heap : Heap) (env : Env) :
    s.clientRecv parse i heap env =
      some ({ s with worker := Function.update s.worker i (ClientConn.apply parse (s.worker i) m) }.setLink k
        { l with toClient := rest }) := by
  obtain ⟨pdu, mem, hrecv, hcar⟩ := receive_framed heap env henc hframed
  unfold Net.clientRecv
  simp only [hi, hl, Option.bind_eq_bind, Option.bind_some, hmsgs, hrecv,
    ClientConn.handlePdu_carries parse hm hcar]

theorem Inv.clientRecv (hs : Inv parse s) {i : ι} {heap : Heap} {env : Env} {s' : Net ι κ}
    (h : s.clientRecv parse i heap env = some s') : Inv parse s' := by
  obtain ⟨k, hi, h'⟩ := Option.bind_eq_some_iff.mp h
  obtain ⟨l, hl, h'⟩ := Option.bind_eq_some_iff.mp h'
  have hsound := hs.sound k l hl
  have howner := hs.owner_eq hi hl
  have hok := hs.linkOk hi hl
  split at h'
  · cases h'
  · next m rest hmsgs =>
    obtain ⟨hfrom, henc, hframed⟩ := hsound.toClient m (by rw [hmsgs]; exact List.mem_cons_self)
    rw [clientRecv_of_fromServer hi hl hmsgs hfrom henc hframed heap env, Option.some.injEq] at h
    rw [← h]
    constructor
    · intro k' l' hl'
      by_cases hk : k' = k
      · subst hk
        simp only [Net.setLink, Function.update_self, Option.some.injEq] at hl'
        rw [← hl']
        exact ⟨hsound.toServer, fun m' hm' => hsound.toClient m' (by rw [hmsgs]; exact List.mem_cons_of_mem _ hm')⟩
      · simp only [Net.setLink, Function.update_of_ne hk] at hl'
        exact hs.sound k' l' hl'
    · intro j k' hj
      obtain ⟨l', hl', howner', hok'⟩ := hs.current j k' hj
      by_cases hji : j = i
      · subst hji
        obtain rfl : k' = k := Option.some.inj (hj.symm.trans hi)
        refine ⟨{ l with toClient := rest }, by simp only [Net.setLink, Function.update_self], howner, ?_, hok.hears,
          ?_⟩
        · intro hp
          rw [hok.pending hp] at hmsgs
          cases hmsgs
        · intro t ht
          simp only [Net.setLink, Function.update_self]
          refine (hok.catchesUp t ht).imp_right fun hc => ?_
          rw [hmsgs] at hc
          exact hc
      · have hk : k' ≠ k := by
          rintro rfl
          obtain rfl : l = l' := Option.some.inj (hl.symm.trans hl')
          exact hji (howner'.symm.trans howner)
        refine ⟨l', by simp only [Net.setLink, Function.update_of_ne hk]; exact hl', howner', ?_⟩
        simp only [Net.setLink, Function.update_of_ne hji]
        exact hok'

/-! ## Steps and runs -/

/-- What a client may send at any time. -/
theorem encodable_heartbeat (json : HeartbeatText) : (OutPdu.heartbeat json.text).Encodable := by
  have := json.size
  refine ⟨?_, fun s hs => ?_⟩
  · simp only [OutPdu.body, CByteStreamOut.length_lengthPrefixed]
    omega
  · rw [List.mem_singleton.mp hs]
    exact json.nul

theorem Inv.step (hp : parse.Reads) (hs : Inv parse s) {a : Act ι κ} {s' : Net ι κ} (hgood : GoodStep s a)
    (h : Net.step parse a s = some s') : Inv parse s' := by
  cases a with
  | start i k =>
    simp only [Net.step] at h
    split at h
    · next hk =>
      cases h
      refine hs.connect (Option.isNone_iff_eq_none.mp hk) (fun m hm => encodable_fromClient
        (List.mem_append_left _ hm)) _ fun j hj => Function.update_of_ne hj _ _
    · cases h
  | confirm i =>
    obtain ⟨k, hi, h⟩ := Option.bind_eq_some_iff.mp h
    obtain ⟨l, hl, h⟩ := Option.bind_eq_some_iff.mp h
    split at h <;> cases h
    exact hs.confirm hl
  | accept k clientType =>
    obtain ⟨l, hl, h⟩ := Option.bind_eq_some_iff.mp h
    split at h
    · next hside =>
      cases h
      exact hs.accept hl hside hgood.1 (hgood.2 l hl)
    · cases h
  | command c =>
    cases h
    exact hs.command c
  | serverRecv k heap env look => exact hs.serverRecv hp hgood h
  | clientRecv i heap env => exact hs.clientRecv h
  | clientHeartbeat i json =>
    refine hs.clientSend (fun m hm => ?_) h
    rw [List.mem_singleton.mp hm]
    exact ⟨Or.inl trivial, encodable_heartbeat json⟩
  | clientDone i =>
    refine hs.clientSend (fun m hm => ?_) h
    rw [List.mem_singleton.mp hm]
    exact ⟨Or.inr ⟨_, rfl⟩, encodable_clientDone _⟩
  | serverHeartbeat k =>
    obtain ⟨l, hl, h⟩ := Option.bind_eq_some_iff.mp h
    split at h
    · next hhears =>
      simp only [Net.reply, hl, Option.some.injEq] at h
      rw [← h]
      exact hs.serverHeartbeat hl hhears
    · cases h
  | serverTimer online =>
    cases h
    exact ⟨hs.sound, hs.current⟩
  | clientClose i =>
    obtain ⟨k, hi, h⟩ := Option.bind_eq_some_iff.mp h
    cases h
    exact hs.disconnect i
  | clientTimeout i k =>
    obtain ⟨k', hi, h⟩ := Option.bind_eq_some_iff.mp h
    split at h
    · next hk =>
      cases h
      exact hs.connect (Option.isNone_iff_eq_none.mp hk) (fun m hm => by cases hm) s.worker fun _ _ => rfl
    · cases h
  | serverClose k =>
    obtain ⟨l, hl, h⟩ := Option.bind_eq_some_iff.mp h
    split at h <;> cases h
    exact hs.serverClose hl

/-- In every run of good steps, a settled client holds the server's state. -/
theorem agree_of_settled (hp : parse.Reads) {online : UInt16}
    (h : Transition.Reaches (Net.step parse) GoodStep (Net.init online) s) {i : ι} (hi : s.Settled i) :
    s.worker i = s.manager.job := by
  have hinv : Inv parse s := h.invariant (inv_init online) fun s a s' hs hgood hstep => hs.step hp hgood hstep
  obtain ⟨k, l, hcur, hl, -, ⟨t, hside⟩, hserver, hclient⟩ := hi
  have hc := (hinv.linkOk hcur hl).catchesUp t hside
  rw [hserver, hclient] at hc
  exact hc.resolve_left List.not_mem_nil

end

/-! ## Two runs -/

section Runs

def anyHeap : Heap := fun _ _ => 0

def anyEnv : Env := ⟨fun _ => 0, fun _ => 0, 0, 0⟩

def anyLookup : Lookup := ⟨0, 0, []⟩

/-- A client that starts and asks is settled after its three messages and the two answers. -/
theorem agree_of_settled_start :
    ∃ s : Net Unit Unit, Transition.Reaches (Net.step digitReader) GoodStep (Net.init 0) s ∧ s.Settled () ∧
      s.worker () = s.manager.job := by
  have h0 : Transition.Reaches (Net.step digitReader) GoodStep (Net.init 0 : Net Unit Unit) _ := .start
  have h1 := h0.step (Act.start () ()) trivial rfl
  have h2 := h1.step (Act.accept () clientCpp)
    ⟨by decide, fun l hl _ hreq => by cases hl; exact absurd (by decide) hreq⟩ rfl
  have h3 := h2.step (Act.confirm ()) trivial rfl
  have h4 := h3.step (Act.serverRecv () anyHeap anyEnv anyLookup) (fun l t hl h => by cases hl; cases h)
    (show Net.serverRecv _ _ _ _ _ = _ from
      serverRecv_of_fromClient (m := .serverStatusRequest) rfl rfl rfl trivial ⟨by decide, by decide⟩ _ _ _)
  have h5 := h4.step (Act.serverRecv () anyHeap anyEnv anyLookup) (fun l t hl h => by cases hl; cases h)
    (show Net.serverRecv _ _ _ _ _ = _ from
      serverRecv_of_fromClient (m := .regClientType clientCpp) rfl rfl rfl rfl ⟨by decide, by decide⟩ _ _ _)
  have h6 := h5.step (Act.serverRecv () anyHeap anyEnv anyLookup) (fun l t hl h => by cases hl; cases h)
    (show Net.serverRecv _ _ _ _ _ = _ from
      serverRecv_of_fromClient (m := .clientData _) rfl rfl rfl trivial ⟨by decide, by decide⟩ _ _ _)
  have h7 := h6.step (Act.clientRecv () anyHeap anyEnv) trivial
    (show Net.clientRecv _ _ _ _ _ = _ from
      clientRecv_of_fromServer (m := .serverStatusInfo _) rfl rfl rfl trivial ⟨by decide, by decide⟩ trivial _ _)
  have h8 := h7.step (Act.clientRecv () anyHeap anyEnv) trivial
    (show Net.clientRecv _ _ _ _ _ = _ from
      clientRecv_of_fromServer (m := .response _ _) rfl rfl rfl trivial ⟨by decide, by decide⟩ trivial _ _)
  refine ⟨_, h8, ?hset, agree_of_settled digitReader_reads h8 ?hset⟩
  exact ⟨(), _, rfl, rfl, rfl, ⟨_, rfl⟩, rfl, rfl⟩

/-- A client whose connection timed out once: the new one is settled, and nobody has told the client. -/
theorem not_agree_after_timeout :
    ¬ ∀ s : Net Unit Bool, Transition.Reachable (Net.step digitReader) (Net.init 0) s →
      ∀ i, s.Settled i → s.worker i = s.manager.job := by
  intro hall
  have h0 : Transition.Reachable (Net.step digitReader) (Net.init 0 : Net Unit Bool) _ := .start
  have h1 := h0.step (Act.start () false) trivial rfl
  have h2 := h1.step (Act.clientTimeout () true) trivial rfl
  have h3 := h2.step (Act.command (.start 0)) trivial rfl
  have h4 := h3.step (Act.accept true clientCpp) trivial rfl
  have h5 := h4.step (Act.confirm ()) trivial rfl
  have h6 := h5.step (Act.serverRecv true anyHeap anyEnv anyLookup) trivial
    (show Net.serverRecv _ _ _ _ _ = _ from
      serverRecv_of_fromClient (m := .regClientType clientCpp) rfl rfl rfl rfl ⟨by decide, by decide⟩ _ _ _)
  have h7 := h6.step (Act.serverRecv true anyHeap anyEnv anyLookup) trivial
    (show Net.serverRecv _ _ _ _ _ = _ from
      serverRecv_of_fromClient (m := .clientData _) rfl rfl rfl trivial ⟨by decide, by decide⟩ _ _ _)
  have h8 := h7.step (Act.clientRecv () anyHeap anyEnv) trivial
    (show Net.clientRecv _ _ _ _ _ = _ from
      clientRecv_of_fromServer (m := .response _ _) rfl rfl rfl trivial ⟨by decide, by decide⟩ trivial _ _)
  exact absurd (hall _ h8 () ⟨true, _, rfl, rfl, rfl, ⟨_, rfl⟩, rfl, rfl⟩) (by decide)

end Runs

end PostfixEdm
