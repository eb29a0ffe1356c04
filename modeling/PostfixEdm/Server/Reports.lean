import PostfixEdm.Server.ServConn

/-!
# A registered connection and its completion reports

A C++ client that has registered goes on with heartbeats, data and status requests, and with the reports of
`cWorker::done`.

* `Arrival` : such a message, with everything on its way to `HandlePdu` that the code does not determine;
* `ServConn.serve` : the handlers that a sequence of arrivals reaches, each with the client type after it;
* `AsIntended` : a report, and nothing else, reaches `_HandleClientDone`, and the connection stays one that
  the server's broadcasts reach;
* `asIntended_iff` : this holds of a sequence exactly when there is no report in it.
-/

namespace PostfixEdm

namespace OutPdu

/-- The message is a report of `cWorker::done`. -/
def IsReport : OutPdu → Prop
  | .clientDone _ => True
  | _ => False

/-- The messages that the client's code sends on a connection once it has registered. -/
def AfterRegistration : OutPdu → Prop
  | .serverStatusRequest | .clientData _ | .heartbeat _ | .clientDone _ => True
  | _ => False

end OutPdu

/-- A message on its way to `HandlePdu`; `manager` and `look` are as they are when it is handled. -/
structure Arrival where
  msg : OutPdu
  afterRegistration : msg.AfterRegistration
  encodable : msg.Encodable
  heap : Heap
  env : Env
  look : Lookup
  manager : Manager

namespace ServConn

/-- `OnRead` on one connection, arrival after arrival. An exception closes the connection. -/
def serve (clientType : UInt16) : List Arrival → List (Option Handler × UInt16)
  | [] => []
  | a :: as =>
    match receive a.heap a.env a.msg with
    | some (pdu, _) =>
      let h := handlePdu a.look a.manager clientType pdu
      (h.handler, h.clientType) :: serve h.clientType as
    | none => []

/-- Any other message reaches the handler of its own, and leaves the client type alone. -/
theorem serve_message (clientType : UInt16) {a : Arrival} (h : ¬ a.msg.IsReport) (as : List Arrival) :
    ∃ handler, handler ≠ .handleClientDone ∧
      serve clientType (a :: as) = (some handler, clientType) :: serve clientType as := by
  obtain ⟨msg, hafter, henc, heap, env, look, mgr⟩ := a
  have hfrom : msg.FromClient := by
    cases msg with
    | serverStatusRequest | clientData _ | heartbeat _ => trivial
    | clientDone t => exact absurd trivial h
    | _ => exact hafter.elim
  obtain ⟨pdu, mem, hrec, hcar⟩ := receive_framed heap env henc (framed_of_fromClient hfrom)
  simp only [serve, hrec, handlePdu_carries hfrom hcar]
  cases msg with
  | serverStatusRequest => exact ⟨.handleServerStatusInfo, by decide, rfl⟩
  | clientData s => exact ⟨.handleClientData, by decide, rfl⟩
  | heartbeat s => exact ⟨.handleHeartBeat, by decide, rfl⟩
  | clientDone t => exact absurd trivial h
  | _ => exact hafter.elim

/-- A report reaches the handler of registrations, and leaves a client type that nobody sent. -/
theorem serve_report (clientType : UInt16) {a : Arrival} (h : a.msg.IsReport) (as : List Arrival) :
    serve clientType (a :: as) =
      (some .handleRegClientType, a.env.word16 0) :: serve (a.env.word16 0) as := by
  obtain ⟨msg, hafter, henc, heap, env, look, mgr⟩ := a
  cases msg with
  | clientDone t =>
    obtain ⟨pdu, mem, hrec, hbody⟩ := receive_clientDone heap env t
    simp only [serve, hrec, handlePdu, hbody]
  | _ => exact h.elim

end ServConn

/-- What an arrival is to do on a registered connection: a report reaches `_HandleClientDone`, no other
message does, and the connection stays one that `send_all_client_pdu` sends to. -/
def AsIntended (a : Arrival) (served : Option Handler × UInt16) : Prop :=
  (served.1 = some .handleClientDone ↔ a.msg.IsReport) ∧ served.2 = clientCpp ∧ served.2 ≠ clientPhp

/-- A report misses its handler, wherever in the sequence it comes. -/
theorem not_report_of_asIntended {as : List Arrival}
    (h : List.Forall₂ AsIntended as (ServConn.serve clientCpp as)) : ∀ a ∈ as, ¬ a.msg.IsReport := by
  induction as with
  | nil => exact fun a ha => absurd ha List.not_mem_nil
  | cons a as ih =>
    by_cases hrep : a.msg.IsReport
    · rw [ServConn.serve_report clientCpp hrep as] at h
      rcases h with _ | ⟨hfirst, -⟩
      cases hfirst.1.mpr hrep
    · obtain ⟨handler, -, hserve⟩ := ServConn.serve_message clientCpp hrep as
      rw [hserve] at h
      rcases h with _ | ⟨-, hrest⟩
      exact List.forall_mem_cons.mpr ⟨hrep, ih hrest⟩

/-- Without a report, every message does its job. -/
theorem asIntended_of_not_report {as : List Arrival} (h : ∀ a ∈ as, ¬ a.msg.IsReport) :
    List.Forall₂ AsIntended as (ServConn.serve clientCpp as) := by
  induction as with
  | nil => exact .nil
  | cons a as ih =>
    obtain ⟨hrep, hrest⟩ := List.forall_mem_cons.mp h
    obtain ⟨handler, hne, hserve⟩ := ServConn.serve_message clientCpp hrep as
    rw [hserve]
    refine .cons ⟨⟨fun heq => ?_, fun hr => absurd hr hrep⟩, rfl, show clientCpp ≠ clientPhp by decide⟩ (ih hrest)
    exact absurd (Option.some.inj heq) hne

/-- Every message of a registered connection does its job exactly when none of them is a report. -/
theorem asIntended_iff (as : List Arrival) :
    List.Forall₂ AsIntended as (ServConn.serve clientCpp as) ↔ ∀ a ∈ as, ¬ a.msg.IsReport :=
  ⟨not_report_of_asIntended, asIntended_of_not_report⟩

/-- One report, on a connection that has registered as `CLIENT_CPP`. -/
theorem not_asIntended_report :
    ¬ ∀ as : List Arrival, List.Forall₂ AsIntended as (ServConn.serve clientCpp as) := by
  intro hall
  let a : Arrival := ⟨.clientDone clientCpp, trivial, encodable_clientDone _, fun _ _ => 0,
    ⟨fun _ => 0, fun _ => 0, 0, 0⟩, ⟨0, 0, []⟩, Manager.init 1⟩
  have h := hall [a]
  rw [ServConn.serve_report clientCpp (a := a) trivial []] at h
  rcases h with _ | ⟨hfirst, -⟩
  cases hfirst.1.mpr trivial

end PostfixEdm
