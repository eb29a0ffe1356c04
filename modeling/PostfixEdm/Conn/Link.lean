import PostfixEdm.Conn.Arrival
import PostfixEdm.Lib.Transition

/-!
# One direction of a connection refines a queue of messages

`SendPdu` and `OnWrite` at one end, `OnRead` with any `HandlePdu` at the other, and a network that keeps the
order of the bytes and may hold them back at any point.

* `ByteLink.step` : a call at one end, with what the sockets answer; a read that would not return or that throws
  is no step;
* `ByteLink.Inv` : the bytes in the two buffers and in flight are the frames of the messages that wait;
* `ByteLink.refines_of_reaches` : every run is a run of the queue, and no read fails;
* `ByteLink.serves_of_willing` : a socket that takes something on every call, and one read, empty the queue;
* `ByteLink.isQueue_of_reaches` : so the link is a queue of messages.
-/

namespace PostfixEdm
open Fifo Framing

structure ByteLink (σ : Type) where
  conn : CImConn
  inFlight : List UInt8
  peer : CImConn
  sent : List Sent
  state : σ

inductive LinkAct
  | sendPdu (heap : Heap) (socket : Socket) (s : Sent)
  | onWrite (socket : Socket)
  | onRead (call : ReadCall)

namespace ByteLink

variable {σ : Type}

def init (state : σ) : ByteLink σ := ⟨.init, [], .init, [], state⟩

/-- The effect of a call. `onRead` takes bytes that are in flight, oldest first. -/
def step (handlePdu : HandlePdu σ) : LinkAct → ByteLink σ → Option (ByteLink σ)
  | .sendPdu heap socket s, l =>
    let (taken, conn) := l.conn.send heap socket s.bytes
    some { l with conn := conn, inFlight := l.inFlight ++ taken, sent := l.sent ++ [s] }
  | .onWrite socket, l =>
    let (taken, conn) := l.conn.onWrite socket
    some { l with conn := conn, inFlight := l.inFlight ++ taken }
  | .onRead call, l =>
    if call.bytes <+: l.inFlight then
      match l.peer.onRead handlePdu (2 ^ 31) call l.state with
      | some r =>
        if r.thrown = none then
          some { l with inFlight := l.inFlight.drop call.bytes.length, peer := r.conn, state := r.state }
        else none
      | none => none
    else none

/-- The message can be decoded, and neither buffer grows to `2^31` bytes. -/
def Fits (l : ByteLink σ) : LinkAct → Prop
  | .sendPdu _ _ s => s.2.Deliverable ∧ l.conn.outBuf.contents.length + s.bytes.length < 2 ^ 31
  | .onWrite _ => True
  | .onRead call => l.peer.inBuf.contents.length + call.bytes.length < 2 ^ 31

/-- The first `k` messages are handled; the bytes that are on the way are the frames of the others. -/
structure Inv (handlePdu : HandlePdu σ) (start : σ) (l : ByteLink σ) (k : Nat) : Prop where
  deliverable : ∀ s ∈ l.sent, s.2.Deliverable
  out : OutState.Inv ⟨l.conn, [], l.conn.outBuf.contents⟩
  peerWf : l.peer.inBuf.Wf
  policy : l.peer.policyConn = false
  le : k ≤ l.sent.length
  conserved : l.peer.inBuf.contents ++ l.inFlight ++ l.conn.outBuf.contents = (frames (l.sent.drop k)).flatten
  serves : Serves (serve handlePdu) start (l.sent.take k) l.state

section Steps
variable {handlePdu : HandlePdu σ} {start : σ} {l : ByteLink σ} {k : Nat}

theorem inv_init (handlePdu : HandlePdu σ) (start : σ) : Inv handlePdu start (init start) 0 where
  deliverable := fun _ h => absurd h List.not_mem_nil
  out := OutState.inv_init
  peerWf := CSimpleBuffer.wf_empty
  policy := rfl
  le := Nat.le_refl 0
  conserved := rfl
  serves := .nil start

/-- What a sender's call does to its buffer and to the bytes in flight. -/
theorem Inv.sender (h : Inv handlePdu start l k) {taken data : List UInt8} {conn : CImConn} {new : List Sent}
    (hout : OutState.Inv ⟨conn, taken, l.conn.outBuf.contents ++ data⟩) (hdata : data = (frames new).flatten)
    (hnew : ∀ s ∈ new, s.2.Deliverable) :
    Inv handlePdu start { l with conn := conn, inFlight := l.inFlight ++ taken, sent := l.sent ++ new } k where
  deliverable := fun s hs => (List.mem_append.mp hs).elim (h.deliverable s) (hnew s)
  out := ⟨hout.wf, rfl, hout.busy_iff⟩
  peerWf := h.peerWf
  policy := h.policy
  le := by
    rw [List.length_append]
    exact Nat.le_add_right_of_le h.le
  conserved := by
    have hbytes : taken ++ conn.outBuf.contents = l.conn.outBuf.contents ++ data := hout.conserved
    simp only [List.drop_append_of_le_length h.le, frames, List.map_append, List.flatten_append]
    rw [← frames, ← frames, ← h.conserved, ← hdata]
    simp only [List.append_assoc, hbytes]
  serves := by
    simp only [List.take_append_of_le_length h.le]
    exact h.serves

theorem Inv.sendPdu (h : Inv handlePdu start l k) (heap : Heap) (socket : Socket) {s : Sent}
    (hs : l.Fits (.sendPdu heap socket s)) {l' : ByteLink σ}
    (hstep : step handlePdu (.sendPdu heap socket s) l = some l') :
    Inv handlePdu start l' k ∧ l'.sent = l.sent ++ [s] ∧ l'.state = l.state := by
  cases hstep
  have hsize : (l.conn.outBuf.contents ++ s.bytes).length < 2 ^ 31 := by
    rw [List.length_append]
    exact hs.2
  have hout := h.out.send heap socket hsize
  refine ⟨h.sender hout ?_ fun s' hs' => ?_, rfl, rfl⟩
  · simp [frames]
  · rw [List.mem_singleton.mp hs']
    exact hs.1

theorem Inv.onWrite (h : Inv handlePdu start l k) (socket : Socket) {l' : ByteLink σ}
    (hstep : step handlePdu (.onWrite socket) l = some l') :
    Inv handlePdu start l' k ∧ l'.sent = l.sent ∧ l'.state = l.state := by
  cases hstep
  have hout := h.out.onWrite socket
  rw [show l.conn.outBuf.contents = l.conn.outBuf.contents ++ [] from (List.append_nil _).symm] at hout
  have hnew : ∀ s ∈ ([] : List Sent), s.2.Deliverable := fun s hs => absurd hs List.not_mem_nil
  have hinv := h.sender hout rfl hnew
  simp only [List.append_nil] at hinv
  exact ⟨hinv, rfl, rfl⟩

/-- A read of bytes in flight returns, does not throw, and hands the complete frames over. -/
theorem Inv.onRead (h : Inv handlePdu start l k) {call : ReadCall} (hcall : call.bytes <+: l.inFlight)
    (hfits : l.Fits (.onRead call)) :
    ∃ l' n, step handlePdu (.onRead call) l = some l' ∧ Inv handlePdu start l' (k + n) ∧ l'.sent = l.sent ∧
      l'.conn = l.conn ∧ l'.inFlight = l.inFlight.drop call.bytes.length ∧
      LoopServed handlePdu (l.sent.drop k) (l'.inFlight ++ l'.conn.outBuf.contents) l.state n l'.peer.inBuf
        l'.state := by
  let recvs := call.chunks.flatMap (slices readBufSize.toNat)
  have hflat : recvs.flatten = call.bytes := flatten_recvs call.chunks
  have hsmall : ∀ data ∈ recvs, data.length ≤ 2048 := by
    intro data hd
    obtain ⟨chunk, -, hs⟩ := List.mem_flatMap.mp hd
    exact length_le_of_mem_slices hs
  obtain ⟨hwf, hcont, hpolicy⟩ := recvLoop_spec call.heap h.peerWf hsmall (by rw [hflat]; exact hfits)
  rw [hflat] at hcont
  have hsplit : call.bytes ++ l.inFlight.drop call.bytes.length = l.inFlight := by
    have := List.take_append_drop call.bytes.length l.inFlight
    rwa [← List.prefix_iff_eq_take.mp hcall] at this
  have hstream : (recvLoop call.heap recvs l.peer).inBuf.contents ++
      (l.inFlight.drop call.bytes.length ++ l.conn.outBuf.contents) = (frames (l.sent.drop k)).flatten := by
    rw [hcont, ← h.conserved]
    conv_rhs => rw [← hsplit]
    simp only [List.append_assoc]
  obtain ⟨r, n, hr, hthrown, hserved⟩ := parseLoop_serves handlePdu
    (fun s hs => h.deliverable s (List.mem_of_mem_drop hs)) (2 ^ 31) call.envs l.state hwf hstream (by
      rw [hcont, List.length_append]
      exact hfits)
  have hread : l.peer.onRead handlePdu (2 ^ 31) call l.state = _ :=
    CImConn.onRead_eq handlePdu (2 ^ 31) l.state rfl (hpolicy.trans h.policy)
  rw [hr] at hread
  let conn : CImConn := { recvLoop call.heap recvs l.peer with inBuf := r.inBuf }
  refine ⟨⟨l.conn, l.inFlight.drop call.bytes.length, conn, l.sent, r.state⟩, n, ?_, ?_, rfl, rfl, rfl, hserved⟩
  · unfold step
    simp only [if_pos hcall, hread, Option.map_some, hthrown, if_true]
    rfl
  · have hle := hserved.le
    rw [List.length_drop] at hle
    have hk : k + n ≤ l.sent.length := by
      have := h.le
      omega
    refine ⟨h.deliverable, h.out, hserved.wf, hpolicy.trans h.policy, hk, ?_, ?_⟩
    · rw [← List.drop_drop, List.append_assoc]
      exact hserved.contents
    · rw [List.take_add]
      exact h.serves.append hserved.serves

/-- One step keeps the invariant, and moves the queue. -/
theorem Inv.step (h : Inv handlePdu start l k) {a : LinkAct} (hfits : l.Fits a) {l' : ByteLink σ}
    (hstep : ByteLink.step handlePdu a l = some l') :
    ∃ k', Inv handlePdu start l' k' ∧
      Queue.Steps (serve handlePdu) ⟨l.sent.drop k, l.state⟩ ⟨l'.sent.drop k', l'.state⟩ := by
  cases a with
  | sendPdu heap socket s =>
    obtain ⟨hinv, hsent, hstate⟩ := h.sendPdu heap socket hfits hstep
    refine ⟨k, hinv, ?_⟩
    rw [hsent, hstate, List.drop_append_of_le_length h.le]
    exact .single (.send _ _ s)
  | onWrite socket =>
    obtain ⟨hinv, hsent, hstate⟩ := h.onWrite socket hstep
    refine ⟨k, hinv, ?_⟩
    rw [hsent, hstate]
  | onRead call =>
    have hprefix : call.bytes <+: l.inFlight := by
      by_contra hno
      simp [ByteLink.step, hno] at hstep
    obtain ⟨l₁, n, hstep₁, hinv, hsent, -, -, hserved⟩ := h.onRead hprefix hfits
    obtain rfl : l₁ = l' := Option.some.inj (hstep₁.symm.trans hstep)
    refine ⟨k + n, hinv, ?_⟩
    rw [hsent, ← List.drop_drop]
    have hsteps := hserved.serves.steps ((l.sent.drop k).drop n)
    rwa [List.take_append_drop] at hsteps

/-- The invariant in every state reached, with the run of the queue. -/
theorem inv_of_reaches (h : Transition.Reaches (ByteLink.step handlePdu) Fits (init start) l) :
    ∃ k, Inv handlePdu start l k ∧
      Queue.Steps (serve handlePdu) ⟨[], start⟩ ⟨l.sent.drop k, l.state⟩ := by
  induction h with
  | start => exact ⟨0, inv_init handlePdu start, .refl⟩
  | step a _ hfits hstep ih =>
    obtain ⟨k, hinv, hsteps⟩ := ih
    obtain ⟨k', hinv', hmore⟩ := hinv.step hfits hstep
    exact ⟨k', hinv', hsteps.trans hmore⟩

end Steps

/-! ## Runs -/

/-- What holds of a state of the link: the messages are those handled and those waiting, the bytes under way are
the frames of the latter, and a read of bytes in flight succeeds. -/
structure Refines {σ : Type} (handlePdu : HandlePdu σ) (start : σ) (l : ByteLink σ) (handled waiting : List Sent) :
    Prop where
  split : l.sent = handled ++ waiting
  bytes : l.peer.inBuf.contents ++ l.inFlight ++ l.conn.outBuf.contents = (frames waiting).flatten
  serves : Serves (serve handlePdu) start handled l.state
  steps : Queue.Steps (serve handlePdu) ⟨[], start⟩ ⟨waiting, l.state⟩
  reads : ∀ call, call.bytes <+: l.inFlight → l.Fits (.onRead call) → (step handlePdu (.onRead call) l).isSome

/-- Whatever the sockets take and however the bytes arrive, the messages are handled once and in order. -/
theorem refines_of_reaches (handlePdu : HandlePdu σ) (start : σ) {l : ByteLink σ}
    (h : Transition.Reaches (step handlePdu) Fits (init start) l) :
    ∃ handled waiting, Refines handlePdu start l handled waiting := by
  obtain ⟨k, hinv, hsteps⟩ := inv_of_reaches h
  refine ⟨l.sent.take k, l.sent.drop k, (List.take_append_drop k l.sent).symm, hinv.conserved, hinv.serves, hsteps,
    fun call hprefix hfits => ?_⟩
  obtain ⟨l', n, hstep, -⟩ := hinv.onRead hprefix hfits
  rw [hstep]
  rfl

/-- A socket that takes at least a byte of what it is offered, every time. -/
def Willing (socket : Socket) : Prop := ∀ i, ∃ n, 0 < n ∧ socket i = .accepted n

theorem writeLoop_willing {fuel : Nat} {socket : Socket} (hs : Willing socket) {b : CSimpleBuffer} (hb : b.Wf)
    (hfuel : b.writeOffset.toNat ≤ fuel) : (writeLoop fuel socket b).2.contents = [] := by
  induction fuel generalizing socket b with
  | zero =>
    refine List.eq_nil_of_length_eq_zero ?_
    change b.contents.length = 0
    rw [hb.length_contents]
    omega
  | succ fuel ih =>
    unfold writeLoop
    dsimp only
    split
    · next hpos =>
      rw [UInt32.lt_iff_toNat_lt] at hpos
      obtain ⟨n, hn, hsock⟩ := hs 0
      have hret : 0 < netlibSend (socket 0) (sliceSize b.writeOffset.toNat) := by
        have : 0 < sliceSize b.writeOffset.toNat := by
          unfold sliceSize maxSocketBufSize
          have hpos' : 0 < b.writeOffset.toNat := hpos
          split <;> omega
        rw [hsock, netlibSend]
        omega
      rw [if_neg (by omega)]
      have htaken := taken_le (socket 0) b.writeOffset.toNat
      obtain ⟨-, hwf, hcont⟩ := read_taken hb htaken
      refine ih (fun i => hs (i + 1)) hwf ?_
      rw [← hwf.length_contents, hcont, List.length_drop, hb.length_contents]
      omega
    · next hpos =>
      refine List.eq_nil_of_length_eq_zero ?_
      rw [UInt32.lt_iff_toNat_lt] at hpos
      rw [hb.length_contents]
      exact Nat.eq_zero_of_not_pos hpos

theorem onWrite_willing {conn : CImConn} (h : OutState.Inv ⟨conn, [], conn.outBuf.contents⟩) {socket : Socket}
    (hs : Willing socket) : (conn.onWrite socket).2.outBuf.contents = [] := by
  unfold CImConn.onWrite
  by_cases hbusy : conn.busy = true
  · rw [if_pos hbusy]
    exact writeLoop_willing hs h.wf (Nat.le_refl _)
  · rw [if_neg hbusy]
    by_contra hne
    exact hbusy (h.busy_iff.mpr hne)

/-- From every state of every run, one `OnWrite` of a willing socket and one `OnRead` of what is then in flight
bring the receiver to the state that all messages lead to. -/
theorem serves_of_willing (handlePdu : HandlePdu σ) (start : σ) {l : ByteLink σ}
    (h : Transition.Reaches (step handlePdu) Fits (init start) l) {socket : Socket} (hs : Willing socket)
    (hfits : (l.peer.inBuf.contents ++ l.inFlight ++ l.conn.outBuf.contents).length < 2 ^ 31) :
    ∃ l₁, step handlePdu (.onWrite socket) l = some l₁ ∧ ∀ call, call.bytes = l₁.inFlight →
      ∃ l₂, step handlePdu (.onRead call) l₁ = some l₂ ∧ Serves (serve handlePdu) start l.sent l₂.state := by
  obtain ⟨k, hinv, -⟩ := inv_of_reaches h
  obtain ⟨l₁, hstep⟩ : ∃ l₁, step handlePdu (.onWrite socket) l = some l₁ := ⟨_, rfl⟩
  refine ⟨l₁, hstep, fun call hcall => ?_⟩
  obtain ⟨hinv₁, hsent, -⟩ := hinv.onWrite socket hstep
  have hempty : l₁.conn.outBuf.contents = [] := by
    cases hstep
    exact onWrite_willing hinv.out hs
  have hbytes := hinv₁.conserved
  rw [hsent, ← hinv.conserved, hempty, List.append_nil] at hbytes
  rw [← hbytes, List.length_append, ← hcall] at hfits
  obtain ⟨l₂, n, hstep₂, hinv₂, hsent₂, hconn, hflight, hserved⟩ := hinv₁.onRead (hcall ▸ List.prefix_rfl) hfits
  refine ⟨l₂, hstep₂, ?_⟩
  rw [hflight, hconn, hempty, hcall, List.drop_length, List.append_nil] at hserved
  have hall := hserved.eq_length
  have hserves := hinv₂.serves
  have hle := hinv₁.le
  rw [List.length_drop] at hall
  rw [hsent₂, hsent, List.take_of_length_le (by rw [← hsent]; omega)] at hserves
  exact hserves

/-- The link as a queue of messages: in this state it is one, and a flush and a read empty it. -/
structure IsQueue {σ : Type} (handlePdu : HandlePdu σ) (start : σ) (l : ByteLink σ) : Prop where
  refines : ∃ handled waiting, Refines handlePdu start l handled waiting
  delivers : ∀ socket, Willing socket →
    (l.peer.inBuf.contents ++ l.inFlight ++ l.conn.outBuf.contents).length < 2 ^ 31 →
      ∃ l₁, step handlePdu (.onWrite socket) l = some l₁ ∧ ∀ call, call.bytes = l₁.inFlight →
        ∃ l₂, step handlePdu (.onRead call) l₁ = some l₂ ∧ Serves (serve handlePdu) start l.sent l₂.state

/-- In every run the two buffers and the bytes between them are a queue of messages. -/
theorem isQueue_of_reaches (handlePdu : HandlePdu σ) (start : σ) {l : ByteLink σ}
    (h : Transition.Reaches (step handlePdu) Fits (init start) l) : IsQueue handlePdu start l where
  refines := refines_of_reaches handlePdu start h
  delivers _ hs hfits := serves_of_willing handlePdu start h hs hfits

/-- Two messages that the socket takes in parts, and that arrive in pieces. -/
theorem isQueue_pieces :
    let s₁ : Sent := (fun _ _ => 0, .emptyHeartbeat)
    let s₂ : Sent := (fun _ _ => 0, .serverStatusRequest)
    let part : Socket := fun i => if i = 0 then .accepted 5 else .wouldBlock
    let piece : List UInt8 → ReadCall := fun bytes =>
      ⟨[bytes], fun _ _ => 0, part, fun _ => ⟨fun _ => 0, fun _ => 0, 0, 0⟩⟩
    ∃ l l₁ l₂, l.sent = [s₁, s₂] ∧ l.inFlight.length = 20 ∧
      step recordPdu (.onRead (piece (l.inFlight.take 7))) l = some l₁ ∧
      step recordPdu (.onRead (piece (l₁.inFlight.take 8))) l₁ = some l₂ ∧
      l₂.inFlight.length = 5 ∧ IsQueue recordPdu [] l₂ := by
  intro s₁ s₂ part piece
  let more : Socket := fun i => if i = 0 then .accepted 15 else .wouldBlock
  have hsend₁ : (init ([] : List (CImPdu × List UInt8))).Fits (.sendPdu s₁.1 part s₁) :=
    ⟨⟨⟨by decide, by decide⟩, Or.inl trivial⟩, by decide⟩
  obtain ⟨l₁, l₂, l, hstep₁, hstep₂, hstep, hsent, hlen, hpeer, hsend₂⟩ : ∃ l₁ l₂ l,
      step recordPdu (.sendPdu s₁.1 part s₁) (init []) = some l₁ ∧
      step recordPdu (.sendPdu s₂.1 part s₂) l₁ = some l₂ ∧ step recordPdu (.onWrite more) l₂ = some l ∧
      l.sent = [s₁, s₂] ∧ l.inFlight.length = 20 ∧ l.peer.inBuf.contents = [] ∧ l₁.Fits (.sendPdu s₂.1 part s₂) :=
    ⟨_, _, _, rfl, rfl, rfl, rfl, by decide, rfl, ⟨⟨by decide, by decide⟩, Or.inl trivial⟩, by decide⟩
  have hreach : Transition.Reaches (step recordPdu) Fits (init []) l :=
    .step _ (.step _ (.step _ .start hsend₁ hstep₁) hsend₂ hstep₂) (show l₂.Fits (.onWrite more) from trivial)
      hstep
  obtain ⟨k, hinv, -⟩ := inv_of_reaches hreach
  have hbytes : ∀ bytes, (piece bytes).bytes = bytes := fun bytes => List.append_nil bytes
  have hread : ∀ m : ByteLink (List (CImPdu × List UInt8)), m.peer.inBuf.contents.length ≤ 24 → ∀ n ≤ 8,
      m.Fits (.onRead (piece (m.inFlight.take n))) := by
    intro m hm n hn
    change m.peer.inBuf.contents.length + (piece (m.inFlight.take n)).bytes.length < 2 ^ 31
    rw [hbytes, List.length_take]
    omega
  have hread₁ := hread l (by rw [hpeer]; decide) 7 (by decide)
  obtain ⟨m₁, n₁, hstep₁, hinv₁, hsent₁, -, hflight₁, -⟩ := hinv.onRead (hbytes _ ▸ List.take_prefix ..) hread₁
  have hbuf : m₁.peer.inBuf.contents.length ≤ 24 := by
    have hwaits : (frames (m₁.sent.drop (k + n₁))).flatten.length ≤ 24 := by
      rw [hsent₁, hsent]
      generalize k + n₁ = i
      rcases i with _ | _ | i
      · decide
      · decide
      · simp [frames]
    have hbytes₁ := congrArg List.length hinv₁.conserved
    simp only [List.length_append] at hbytes₁
    omega
  have hread₂ := hread m₁ hbuf 8 (Nat.le_refl 8)
  obtain ⟨m₂, n₂, hstep₂, -, -, -, hflight₂, -⟩ := hinv₁.onRead (hbytes _ ▸ List.take_prefix ..) hread₂
  refine ⟨l, m₁, m₂, hsent, hlen, hstep₁, hstep₂, ?_,
    isQueue_of_reaches recordPdu [] (.step _ (.step _ hreach hread₁ hstep₁) hread₂ hstep₂)⟩
  rw [hflight₂, hflight₁, hbytes, hbytes]
  simp only [List.length_drop, List.length_take, hlen]
  decide
end ByteLink

end PostfixEdm
