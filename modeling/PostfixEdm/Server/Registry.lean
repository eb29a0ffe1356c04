import PostfixEdm.Lib.Transition
import PostfixEdm.Server.Monitoring

/-!
# The registry and the connections

A heartbeat is entered under the ip that its text reports, and the end of any connection removes what is entered
under the connection's remote ip.

* `Registry` : the connections with the heartbeats handled on each, the monitor's map, and for each entry the
  connection whose heartbeat it is;
* `Registry.step` : an accept, a heartbeat, and the end of a connection, by a close or by the timer;
* `Registry.Live`, `Registry.ClosesOwn` : every entry is the latest heartbeat of an open connection; the end of a
  connection removes its entries and no others;
* `Registry.Addressed` : the steps that keep this: every connection reports the ip that it comes from, and no
  other one comes from there;
* `live_of_addressed`, `live_heartbeat_iff`, `live_close_iff` : what holds in every run of such steps, and that any
  other step breaks it.
-/

namespace PostfixEdm

structure Session where
  remoteIp : List UInt8
  isOpen : Bool
  heartbeats : List ClientStatusInfo

/-- Every connection that was accepted, of either kind, closed ones too. `source` says of an entry of `maps` on
which connection it was received. -/
structure Registry (κ : Type) where
  sessions : κ → Option Session
  maps : ClientStatusMap
  source : List UInt8 → Option κ

namespace Registry

inductive Act (κ : Type)
  | accept (k : κ) (remoteIp : List UInt8)
  | heartbeat (k : κ) (jsonData : List UInt8)
  | close (k : κ)

variable {κ : Type}

def init : Registry κ := ⟨fun _ => none, fun _ => none, fun _ => none⟩

/-- The connection, while it is open. -/
def openSession (s : Registry κ) (k : κ) : Option Session := (s.sessions k).filter Session.isOpen

section
variable [DecidableEq κ]

def setSession (s : Registry κ) (k : κ) (c : Session) : Registry κ :=
  { s with sessions := Function.update s.sessions k (some c) }

/-- After a text without an ip there is no next state: the server has used NULL. -/
def step (parse : ClientStatusReader) : Act κ → Registry κ → Option (Registry κ)
  | .accept k remoteIp, s => if (s.sessions k).isNone then some (s.setSession k ⟨remoteIp, true, []⟩) else none
  | .heartbeat k jsonData, s => do
    let c ← s.openSession k
    let maps ← (ServConn.handleHeartBeat parse s.maps jsonData).toOption
    let info := (ClientStatusInfo.unserialize parse jsonData).2
    let ip ← info.ip
    some { s.setSession k { c with heartbeats := c.heartbeats ++ [info] } with
      maps := maps, source := Function.update s.source ip (some k) }
  | .close k, s => do
    let c ← s.openSession k
    some { s.setSession k { c with isOpen := false } with
      maps := Monitoring.removeClientStauts s.maps c.remoteIp }

end

/-- Every entry is the latest heartbeat of a connection that is open, under the ip which that reports. -/
def Live (s : Registry κ) : Prop :=
  ∀ ip info, s.maps ip = some info → info.ip = some ip ∧
    ∃ k c, s.source ip = some k ∧ s.openSession k = some c ∧ c.heartbeats.getLast? = some info

/-- From `s` to `s'`, the entries of `k` are gone and the others are as they were. -/
def ClosesOwn (s : Registry κ) (k : κ) (s' : Registry κ) : Prop :=
  ∀ ip info, s.maps ip = some info →
    (s.source ip = some k → s'.maps ip = none) ∧ (s.source ip ≠ some k → s'.maps ip = some info)

/-- A heartbeat leaves no entry of its connection under another ip; a connection that ends has its entry under its
remote ip, and no other connection has. -/
def Addressed (parse : ClientStatusReader) (s : Registry κ) : Act κ → Prop
  | .heartbeat k jsonData => ∀ ip, (s.maps ip).isSome → s.source ip = some k →
      (ClientStatusInfo.unserialize parse jsonData).2.ip = some ip
  | .close k => ∀ c, s.openSession k = some c → ∀ ip, (s.maps ip).isSome →
      (s.source ip = some k ↔ ip = c.remoteIp)
  | .accept _ _ => True

theorem live_init : (init : Registry κ).Live := nofun

section
variable [DecidableEq κ] {parse : ClientStatusReader} {s s' : Registry κ}

theorem openSession_setSession_self (s : Registry κ) (k : κ) (c : Session) :
    (s.setSession k c).openSession k = if c.isOpen then some c else none := by
  simp [openSession, setSession, Option.filter]

theorem openSession_setSession_of_ne (s : Registry κ) {k j : κ} (c : Session) (h : j ≠ k) :
    (s.setSession k c).openSession j = s.openSession j := by
  simp [openSession, setSession, h]

/-- What a heartbeat does, when the server survives it. -/
theorem heartbeat_cases {k : κ} {jsonData : List UInt8} (hstep : step parse (.heartbeat k jsonData) s = some s') :
    ∃ c ip info, s.openSession k = some c ∧ (ClientStatusInfo.unserialize parse jsonData).2 = info ∧
      info.ip = some ip ∧ s' = { s.setSession k { c with heartbeats := c.heartbeats ++ [info] } with
        maps := Function.update s.maps ip (some info), source := Function.update s.source ip (some k) } := by
  obtain ⟨c, hopen, hstep⟩ := Option.bind_eq_some_iff.mp hstep
  obtain ⟨maps, hmaps, hstep⟩ := Option.bind_eq_some_iff.mp hstep
  obtain ⟨ip, hip, hstep⟩ := Option.bind_eq_some_iff.mp hstep
  rw [ServConn.handleHeartBeat_eq, Monitoring.updateClientStatus_eq s.maps hip] at hmaps
  obtain rfl := Option.some.inj hmaps
  exact ⟨c, ip, _, hopen, rfl, hip, (Option.some.inj hstep).symm⟩

theorem close_cases {k : κ} (hstep : step parse (.close k) s = some s') :
    ∃ c, s.openSession k = some c ∧ s' = { s.setSession k { c with isOpen := false } with
      maps := Function.update s.maps c.remoteIp none } := by
  obtain ⟨c, hopen, hstep⟩ := Option.bind_eq_some_iff.mp hstep
  exact ⟨c, hopen, (Option.some.inj hstep).symm⟩

/-- An accept makes and unmakes no entry. -/
theorem Live.accept (h : s.Live) {k : κ} {remoteIp : List UInt8}
    (hstep : step parse (.accept k remoteIp) s = some s') : s'.Live := by
  simp only [step, Option.ite_none_right_eq_some, Option.some.injEq] at hstep
  obtain ⟨hnew, rfl⟩ := hstep
  intro ip info hinfo
  obtain ⟨hip, j, c, hsource, hopen, hlast⟩ := h ip info hinfo
  have hj : j ≠ k := by
    rintro rfl
    simp [openSession, Option.isNone_iff_eq_none.mp hnew] at hopen
  exact ⟨hip, j, c, hsource, (openSession_setSession_of_ne s _ hj).trans hopen, hlast⟩

/-- A heartbeat keeps the registry in order exactly when its connection has no entry under another ip. -/
theorem live_heartbeat_iff (h : s.Live) {k : κ} {jsonData : List UInt8}
    (hstep : step parse (.heartbeat k jsonData) s = some s') :
    s'.Live ↔ s.Addressed parse (.heartbeat k jsonData) := by
  obtain ⟨c, ip, info, hopen, hinfo, hip, rfl⟩ := heartbeat_cases hstep
  have hisOpen : c.isOpen = true := (Option.filter_eq_some_iff.mp hopen).2
  have hself := openSession_setSession_self s k { c with heartbeats := c.heartbeats ++ [info] }
  rw [if_pos hisOpen] at hself
  constructor
  · intro hlive ip' hsome hsource
    rw [hinfo, hip]
    by_contra hne
    -- the old entry would have to be the new heartbeat
    have hne' : ip' ≠ ip := fun heq => hne (by rw [heq])
    obtain ⟨info', hinfo'⟩ := Option.isSome_iff_exists.mp hsome
    obtain ⟨hip', j, d, hj, hd, hlast⟩ := hlive ip' info' ((Function.update_of_ne hne' _ _).trans hinfo')
    obtain rfl := Option.some.inj (hsource.symm.trans ((Function.update_of_ne hne' _ _).symm.trans hj))
    obtain rfl := Option.some.inj (hself.symm.trans hd)
    obtain rfl := Option.some.inj (List.getLast?_concat.symm.trans hlast)
    exact hne (hip.symm.trans hip')
  · intro hgood ip' info' hinfo'
    by_cases heq : ip' = ip
    · subst heq
      obtain rfl := Option.some.inj ((Function.update_self ip' (some info) s.maps).symm.trans hinfo')
      exact ⟨hip, k, _, Function.update_self .., hself, List.getLast?_concat⟩
    · have hold : s.maps ip' = some info' := (Function.update_of_ne heq (some info) s.maps).symm.trans hinfo'
      obtain ⟨hip', j, d, hj, hd, hlast⟩ := h ip' info' hold
      have hjk : j ≠ k := by
        rintro rfl
        have hreport := hgood ip' (Option.isSome_of_eq_some hold) hj
        rw [hinfo, hip] at hreport
        exact heq (Option.some.inj hreport).symm
      exact ⟨hip', j, d, (Function.update_of_ne heq ..).trans hj,
        (openSession_setSession_of_ne s _ hjk).trans hd, hlast⟩

/-- The end of a connection keeps the registry in order exactly when the entries of the connection are the ones
under its remote ip. -/
theorem live_close_iff (h : s.Live) {k : κ} (hstep : step parse (.close k) s = some s') :
    s'.Live ∧ s.ClosesOwn k s' ↔ s.Addressed parse (.close k) := by
  obtain ⟨c, hopen, rfl⟩ := close_cases hstep
  constructor
  · rintro ⟨_, hcloses⟩ d hd ip hsome
    obtain rfl := Option.some.inj (hopen.symm.trans hd)
    obtain ⟨info, hinfo⟩ := Option.isSome_iff_exists.mp hsome
    obtain ⟨hown, hothers⟩ := hcloses ip info hinfo
    constructor
    · intro hsource
      by_contra hne
      have hkept := (Function.update_of_ne hne none s.maps).symm.trans (hown hsource)
      exact Option.some_ne_none info (hinfo.symm.trans hkept)
    · rintro rfl
      by_contra hsource
      have hkept := (Function.update_self c.remoteIp none s.maps).symm.trans (hothers hsource)
      cases hkept
  · intro hgood
    have hgood' := hgood c hopen
    refine ⟨fun ip info hinfo => ?_, fun ip info hinfo => ⟨fun hsource => ?_, fun hsource => ?_⟩⟩
    · have hne : ip ≠ c.remoteIp := by
        rintro rfl
        cases (Function.update_self c.remoteIp none s.maps).symm.trans hinfo
      have hold : s.maps ip = some info := (Function.update_of_ne hne none s.maps).symm.trans hinfo
      obtain ⟨hip, j, d, hj, hd, hlast⟩ := h ip info hold
      have hjk : j ≠ k := by
        rintro rfl
        exact hne ((hgood' ip (Option.isSome_of_eq_some hold)).mp hj)
      exact ⟨hip, j, d, hj, (openSession_setSession_of_ne s _ hjk).trans hd, hlast⟩
    · obtain rfl := (hgood' ip (Option.isSome_of_eq_some hinfo)).mp hsource
      exact Function.update_self ..
    · have hne : ip ≠ c.remoteIp := fun heq => hsource ((hgood' ip (Option.isSome_of_eq_some hinfo)).mpr heq)
      exact (Function.update_of_ne hne ..).trans hinfo

theorem Live.step (h : s.Live) {a : Act κ} (hgood : s.Addressed parse a) (hstep : Registry.step parse a s = some s') :
    s'.Live := by
  cases a with
  | accept k remoteIp => exact h.accept hstep
  | heartbeat k jsonData => exact (live_heartbeat_iff h hstep).mpr hgood
  | close k => exact ((live_close_iff h hstep).mpr hgood).1

/-- In a run in which every connection is entered under the ip that it comes from, and no two come from one, every
entry is the latest heartbeat of an open connection, and the end of a connection removes its entries and no
others. -/
theorem live_of_addressed (h : Transition.Reaches (Registry.step parse) (Addressed parse) init s) :
    s.Live ∧ ∀ k s', s.Addressed parse (.close k) → Registry.step parse (.close k) s = some s' → s.ClosesOwn k s' := by
  have hlive : s.Live := h.invariant live_init fun _ _ _ hs hgood hstep => hs.step hgood hstep
  exact ⟨hlive, fun k s' hgood hstep => ((live_close_iff hlive hstep).mpr hgood).2⟩

/-- The text of a heartbeat from a client at 10.0.0.5, and a reader that knows it. -/
def heartbeatText : List UInt8 :=
  ascii "\x7b\"ip\":\"10.0.0.5\",\"emailFromAddr\":\"edm@example.com\",\"havePushNum\":3,\"mailqNum\":0\x7d"

def heartbeatReader : ClientStatusReader := fun text =>
  if text = heartbeatText then some ⟨ascii "10.0.0.5", ascii "edm@example.com", 3, 0⟩ else none

/-- The client of 10.0.0.5 comes and goes, and an administrator at 10.0.0.6 stays. -/
theorem live_after_heartbeat : ∃ s s' : Registry Bool, (s.maps (ascii "10.0.0.5")).isSome ∧
    Registry.step heartbeatReader (.close false) s = some s' ∧ s.Live ∧ s.ClosesOwn false s' := by
  have h0 : Transition.Reaches (Registry.step heartbeatReader) (Addressed heartbeatReader) (init : Registry Bool) _ :=
    .start
  have h1 := h0.step (Act.accept false (ascii "10.0.0.5")) trivial rfl
  have h2 := h1.step (Act.accept true (ascii "10.0.0.6")) trivial rfl
  have h3 := h2.step (Act.heartbeat false heartbeatText) nofun rfl
  obtain ⟨hlive, hcloses⟩ := live_of_addressed h3
  refine ⟨_, _, rfl, rfl, hlive, hcloses false _ ?_ rfl⟩
  intro c hc ip hsome
  obtain rfl := Option.some.inj hc
  have hip : ip = ascii "10.0.0.5" := by
    by_contra hne
    cases (congrArg Option.isSome (Function.update_of_ne hne _ fun _ => none)).symm.trans hsome
  subst hip
  exact ⟨fun _ => rfl, fun _ => rfl⟩

/-- An administrator at the client's address goes and takes the client's entry along. A client behind another
address goes and leaves its own. -/
theorem not_live_after_close : ∃ s s₁ t : Registry Bool,
    Transition.Reachable (Registry.step heartbeatReader) init s ∧
    Registry.step heartbeatReader (.close true) s = some s₁ ∧
      ¬ s.ClosesOwn true s₁ ∧ Transition.Reachable (Registry.step heartbeatReader) init t ∧ ¬ t.Live := by
  have hadmin : Transition.Reachable (Registry.step heartbeatReader) (init : Registry Bool) _ :=
    Transition.reachable_of_run [.accept false (ascii "10.0.0.5"), .accept true (ascii "10.0.0.5"),
      .heartbeat false heartbeatText] rfl
  have hnat : Transition.Reachable (Registry.step heartbeatReader) (init : Registry Bool) _ :=
    Transition.reachable_of_run [.accept false (ascii "192.0.2.1"), .heartbeat false heartbeatText, .close false] rfl
  refine ⟨_, _, _, hadmin, rfl, fun h => ?_, hnat, fun h => ?_⟩
  · cases (h (ascii "10.0.0.5") _ rfl).2 nofun
  · obtain ⟨_, k, c, hsource, hopen, _⟩ := h (ascii "10.0.0.5") _ rfl
    obtain rfl := Option.some.inj hsource
    cases hopen

end

end Registry

end PostfixEdm
