import PostfixEdm.Client.ClientConn
import PostfixEdm.Conn.Link
import PostfixEdm.Server.ServConn

/-!
# The messages of a connection, from `SendPdu` to the handlers

The two directions of a connection between a client and the server, byte by byte.

* `ClientConn.handler` : `HandlePdu` of a client, for the server's messages; `ClientConn.link_worker` : the worker is
  always what the messages handled so far make of it, and the messages on the way make of it what all do;
* `ServConn.handler` : `HandlePdu` of the server, which keeps its answers; `ServConn.link_replies` : every request of
  a client is answered once, in the order of the requests.
-/

namespace PostfixEdm
open Fifo

/-- The memory that a handler reads strings from. -/
def bufMem (buf : List UInt8) (i : Nat) : UInt8 := buf.getD i 0

namespace ClientConn

variable (parse : JsonReader)

def handler : HandlePdu Job := fun worker pdu buf => handlePdu parse (bufMem buf) pdu worker

/-- A client does with a message of the server what the message means. -/
theorem serve_handler {s : Sent} (h : s.2.FromServer) {worker worker' : Job}
    (hserve : serve (handler parse) worker s worker') : worker' = apply parse worker s.2 := by
  obtain ⟨pdu, buf, harr, rfl⟩ := hserve
  rcases harr with hcar | ⟨t, u, ht, -⟩
  · exact handlePdu_carries parse h (hcar fun _ => 0) worker
  · rw [ht] at h
    exact h.elim

theorem serves_handler {msgs : List Sent} (h : ∀ s ∈ msgs, s.2.FromServer) {worker worker' : Job}
    (hserves : Serves (serve (handler parse)) worker msgs worker') :
    worker' = (msgs.map Prod.snd).foldl (apply parse) worker := by
  rw [List.foldl_map]
  exact hserves.eq_foldl fun s hs _ _ hserve => serve_handler parse (h s hs) hserve

/-- The worker of a client whose server has sent these messages: it is what the messages handled so far make of it,
those under way bring it to what all of them make of it, and a flush and a read do so. -/
structure Follows (worker : Job) (l : ByteLink Job) : Prop where
  handled : ∃ handled waiting, l.sent = handled ++ waiting ∧
    l.peer.inBuf.contents ++ l.inFlight ++ l.conn.outBuf.contents = (frames waiting).flatten ∧
    l.state = (handled.map Prod.snd).foldl (apply parse) worker ∧
    (waiting.map Prod.snd).foldl (apply parse) l.state = (l.sent.map Prod.snd).foldl (apply parse) worker
  flushed : ∀ socket, ByteLink.Willing socket →
    (l.peer.inBuf.contents ++ l.inFlight ++ l.conn.outBuf.contents).length < 2 ^ 31 →
    ∃ l₁, ByteLink.step (handler parse) (.onWrite socket) l = some l₁ ∧ ∀ call, call.bytes = l₁.inFlight →
      ∃ l₂, ByteLink.step (handler parse) (.onRead call) l₁ = some l₂ ∧
        l₂.state = (l.sent.map Prod.snd).foldl (apply parse) worker

/-- In every run of a connection the worker follows the server. -/
theorem link_worker (worker : Job) {l : ByteLink Job}
    (h : Transition.Reaches (ByteLink.step (handler parse)) ByteLink.Fits (ByteLink.init worker) l)
    (hserver : ∀ s ∈ l.sent, s.2.FromServer) : Follows parse worker l := by
  constructor
  · obtain ⟨handled, waiting, href⟩ := ByteLink.refines_of_reaches (handler parse) worker h
    have hstate := serves_handler parse (fun s hs => hserver s (by
      rw [href.split]
      exact List.mem_append_left _ hs)) href.serves
    refine ⟨handled, waiting, href.split, href.bytes, hstate, ?_⟩
    rw [hstate, href.split, List.map_append, List.foldl_append]
  · intro socket hsocket hsize
    obtain ⟨l₁, hstep₁, hread⟩ := ByteLink.serves_of_willing (handler parse) worker h hsocket hsize
    refine ⟨l₁, hstep₁, fun call hcall => ?_⟩
    obtain ⟨l₂, hstep₂, hserves⟩ := hread call hcall
    exact ⟨l₂, hstep₂, serves_handler parse hserver hserves⟩

/-- A start command that a half-full socket takes in part. -/
theorem link_worker_start :
    let s : Sent := (fun _ _ => 0, .serverCommand cidCommandStart)
    let socket : Socket := fun i => if i = 0 then .accepted 5 else .wouldBlock
    ∃ l, ByteLink.step (handler digitReader) (.sendPdu s.1 socket s) (ByteLink.init Worker.init) = some l ∧
      l.sent = [s] ∧ Follows digitReader Worker.init l := by
  intro s socket
  have hfits : (ByteLink.init Worker.init).Fits (.sendPdu s.1 socket s) :=
    ⟨⟨⟨by decide, by decide⟩, Or.inl (show IsServCommand cidCommandStart by decide)⟩, by decide⟩
  obtain ⟨l, hstep, hsent⟩ : ∃ l, ByteLink.step (handler digitReader) (.sendPdu s.1 socket s)
      (ByteLink.init Worker.init) = some l ∧ l.sent = [s] := ⟨_, rfl, rfl⟩
  refine ⟨l, hstep, hsent, link_worker digitReader Worker.init (.step _ .start hfits hstep) ?_⟩
  intro s' hs'
  rw [hsent, List.mem_singleton] at hs'
  rw [hs']
  trivial

end ClientConn

namespace ServConn

/-- The server's end of a connection: how many messages were handled, the client type and what was sent. -/
structure End where
  count : Nat
  clientType : UInt16
  broadcast : List OutPdu
  replies : List OutPdu

/-- `HandlePdu` of the server. Other connections may change the manager and the database in between: `looks n`
and `mgrs n` are what the `n`-th message finds. -/
def handler (looks : Nat → Lookup) (mgrs : Nat → Manager) : HandlePdu End := fun e pdu _ =>
  let h := handlePdu (looks e.count) (mgrs e.count) e.clientType pdu
  ⟨e.count + 1, h.clientType, e.broadcast ++ h.broadcast, e.replies ++ h.replies⟩

/-- The answers to a client's messages, from the `n`-th on. -/
def answers (mgrs : Nat → Manager) : Nat → List OutPdu → List OutPdu
  | _, [] => []
  | n, m :: ms => (answer (mgrs n) clientCpp m).replies ++ answers mgrs (n + 1) ms

theorem answer_replies (mgr : Manager) (clientType : UInt16) (m : OutPdu) :
    (answer mgr clientType m).replies = (answer mgr clientCpp m).replies := by
  cases m <;> rfl

variable (looks : Nat → Lookup) (mgrs : Nat → Manager)

/-- A message of a client is answered, and nothing is sent to the others. -/
theorem serve_handler {s : Sent} (h : s.2.FromClient ∨ ∃ t, s.2 = .clientDone t) {e e' : End}
    (hserve : PostfixEdm.serve (handler looks mgrs) e s e') :
    e'.count = e.count + 1 ∧ e'.broadcast = e.broadcast ∧
      e'.replies = e.replies ++ (answer (mgrs e.count) clientCpp s.2).replies := by
  obtain ⟨pdu, buf, harr, rfl⟩ := hserve
  rcases h with hclient | ⟨t, ht⟩
  · rcases harr with hcar | ⟨t, u, ht, -⟩
    · have hanswer : handlePdu (looks e.count) (mgrs e.count) e.clientType pdu =
          answer (mgrs e.count) e.clientType s.2 := handlePdu_carries hclient (hcar fun _ => 0)
      refine ⟨rfl, ?_, ?_⟩
      · simp only [handler, hanswer]
        cases s.2 <;> exact List.append_nil _
      · simp only [handler, hanswer, answer_replies]
    · rw [ht] at hclient
      exact hclient.elim
  · -- a completion report arrives as a registration
    rcases harr with hcar | ⟨_, u, -, hbody⟩
    · have := hcar fun _ => 0
      rw [ht] at this
      exact this.elim
    · refine ⟨rfl, ?_, ?_⟩
      · simp [handler, handlePdu, hbody]
      · simp [handler, handlePdu, hbody, ht, answer]

theorem serves_handler {msgs : List Sent} (h : ∀ s ∈ msgs, s.2.FromClient ∨ ∃ t, s.2 = .clientDone t) {e e' : End}
    (hserves : Serves (PostfixEdm.serve (handler looks mgrs)) e msgs e') :
    e'.broadcast = e.broadcast ∧ e'.replies = e.replies ++ answers mgrs e.count (msgs.map Prod.snd) := by
  induction hserves with
  | nil e => exact ⟨rfl, (List.append_nil _).symm⟩
  | @cons e mid e' s msgs hserve _ ih =>
    obtain ⟨hcount, hbroadcast, hreplies⟩ := serve_handler looks mgrs (h s List.mem_cons_self) hserve
    obtain ⟨ihbroadcast, ihreplies⟩ := ih fun s hs => h s (List.mem_cons_of_mem _ hs)
    refine ⟨ihbroadcast.trans hbroadcast, ?_⟩
    rw [ihreplies, hreplies, hcount, List.append_assoc]
    rfl

/-- The server's end of a connection whose client has sent these messages: those handled so far are answered, in
order, the bytes under way are the frames of the others, and a flush and a read answer them all. -/
structure Answers (e : End) (l : ByteLink End) : Prop where
  handled : ∃ handled waiting, l.sent = handled ++ waiting ∧
    l.peer.inBuf.contents ++ l.inFlight ++ l.conn.outBuf.contents = (frames waiting).flatten ∧
    l.state.broadcast = e.broadcast ∧
    l.state.replies = e.replies ++ answers mgrs e.count (handled.map Prod.snd)
  flushed : ∀ socket, ByteLink.Willing socket →
    (l.peer.inBuf.contents ++ l.inFlight ++ l.conn.outBuf.contents).length < 2 ^ 31 →
    ∃ l₁, ByteLink.step (handler looks mgrs) (.onWrite socket) l = some l₁ ∧ ∀ call, call.bytes = l₁.inFlight →
      ∃ l₂, ByteLink.step (handler looks mgrs) (.onRead call) l₁ = some l₂ ∧
        l₂.state.replies = e.replies ++ answers mgrs e.count (l.sent.map Prod.snd)

/-- In every run of a connection each request is answered once, in the order of the requests. -/
theorem link_replies (e : End) {l : ByteLink End}
    (h : Transition.Reaches (ByteLink.step (handler looks mgrs)) ByteLink.Fits (ByteLink.init e) l)
    (hclient : ∀ s ∈ l.sent, s.2.FromClient ∨ ∃ t, s.2 = .clientDone t) : Answers looks mgrs e l := by
  constructor
  · obtain ⟨handled, waiting, href⟩ := ByteLink.refines_of_reaches (handler looks mgrs) e h
    obtain ⟨hbroadcast, hreplies⟩ := serves_handler looks mgrs (fun s hs => hclient s (by
      rw [href.split]
      exact List.mem_append_left _ hs)) href.serves
    exact ⟨handled, waiting, href.split, href.bytes, hbroadcast, hreplies⟩
  · intro socket hsocket hsize
    obtain ⟨l₁, hstep₁, hread⟩ := ByteLink.serves_of_willing (handler looks mgrs) e h hsocket hsize
    refine ⟨l₁, hstep₁, fun call hcall => ?_⟩
    obtain ⟨l₂, hstep₂, hserves⟩ := hread call hcall
    exact ⟨l₂, hstep₂, (serves_handler looks mgrs hclient hserves).2⟩

/-- A status request whose last bytes stay in the buffer. -/
theorem link_replies_status :
    let looks : Nat → Lookup := fun _ => ⟨0, 0, []⟩
    let mgrs : Nat → Manager := fun _ => .init 0
    let s : Sent := (fun _ _ => 0, .serverStatusRequest)
    let socket : Socket := fun i => if i = 0 then .accepted 7 else .wouldBlock
    ∃ l, ByteLink.step (handler looks mgrs) (.sendPdu s.1 socket s) (ByteLink.init ⟨0, 0, [], []⟩) = some l ∧
      l.sent = [s] ∧ Answers looks mgrs ⟨0, 0, [], []⟩ l := by
  intro looks mgrs s socket
  have hfits : (ByteLink.init (⟨0, 0, [], []⟩ : End)).Fits (.sendPdu s.1 socket s) :=
    ⟨⟨⟨by decide, by decide⟩, Or.inl trivial⟩, by decide⟩
  obtain ⟨l, hstep, hsent⟩ : ∃ l, ByteLink.step (handler looks mgrs) (.sendPdu s.1 socket s)
      (ByteLink.init ⟨0, 0, [], []⟩) = some l ∧ l.sent = [s] := ⟨_, rfl, rfl⟩
  refine ⟨l, hstep, hsent, link_replies looks mgrs ⟨0, 0, [], []⟩ (.step _ .start hfits hstep) ?_⟩
  intro s' hs'
  rw [hsent, List.mem_singleton] at hs'
  rw [hs']
  exact Or.inl trivial

end ServConn

end PostfixEdm
