import PostfixEdm.Base.SimpleBuffer

/-!
# `CImConn::Send` and `CImConn::OnWrite`

* `CImConn` : a connection's buffers and flags; `netlibSend` : what a socket may answer;
* `sendLoop`, `writeLoop` : the loops of `Send` and `OnWrite`, with one answer of the socket for each
  `netlib_send`. Every answer that lets a loop go on takes a byte, so the bytes at hand are fuel enough
  (`sendLoop_succ`, `writeLoop_succ`);
* `sendCalls`, `writeCalls` : the calls of `netlib_send` that the two loops make;
* `OutState`, `OutOp` : a connection, what its socket has taken and what was passed to `Send`;
* `run_conserves` : what the socket took and what is buffered are together what was passed to `Send`, in
  order, and `m_busy` says whether something is buffered.

Sizes are `int` in the source; the model counts in `Nat` and is meant for sizes below `2^31`.
-/

namespace PostfixEdm

structure CImConn where
  busy : Bool
  inBuf : CSimpleBuffer
  outBuf : CSimpleBuffer
  policyConn : Bool
  recvBytes : UInt32
  deriving DecidableEq, Repr

namespace CImConn

/-- `CImConn::CImConn` -/
def init : CImConn :=
  { busy := false, inBuf := .empty, outBuf := .empty, policyConn := false, recvBytes := 0 }

end CImConn

/-- `NETLIB_MAX_SOCKET_BUF_SIZE` -/
def maxSocketBufSize : Nat := 128 * 1024

/-- How a socket may answer `netlib_send`: not connected or broken, full, or by taking bytes. -/
inductive SendOutcome
  | error
  | wouldBlock
  | accepted (n : Nat)
  deriving DecidableEq, Repr

/-- `netlib_send` of `len` bytes: its result, which is also how many of them the socket took. -/
def netlibSend (o : SendOutcome) (len : Nat) : Int :=
  match o with
  | .error => -1
  | .wouldBlock => 0
  | .accepted n => min n len

/-- The answers of a socket to the calls that follow. -/
abbrev Socket := Nat → SendOutcome

/-- One slice of what is left to send. -/
def sliceSize (remain : Nat) : Nat := if maxSocketBufSize < remain then maxSocketBufSize else remain

/-! ## `Send` -/

/-- The loop of `Send` over `remain`: the bytes the socket took, and the bytes left. -/
def sendLoop : Nat → Socket → List UInt8 → List UInt8 × List UInt8
  | 0, _, remain => ([], remain)
  | fuel + 1, socket, remain =>
    if 0 < remain.length then
      let ret := netlibSend (socket 0) (sliceSize remain.length)
      if ret ≤ 0 then ([], remain)
      else
        let (sent, rest) := sendLoop fuel (fun i => socket (i + 1)) (remain.drop ret.toNat)
        (remain.take ret.toNat ++ sent, rest)
    else ([], remain)

/-- `CImConn::Send`: the bytes the socket took, and the connection. -/
def CImConn.send (heap : Heap) (socket : Socket) (conn : CImConn) (data : List UInt8) :
    List UInt8 × CImConn :=
  if conn.busy then
    ([], { conn with outBuf := conn.outBuf.write heap true (some data) (UInt32.ofNat data.length) })
  else
    let (sent, remain) := sendLoop data.length socket data
    if 0 < remain.length then
      (sent, { conn with
        outBuf := conn.outBuf.write heap true (some remain) (UInt32.ofNat remain.length), busy := true })
    else (sent, conn)

theorem netlibSend_le (o : SendOutcome) (len : Nat) : (netlibSend o len).toNat ≤ len := by
  cases o with
  | error | wouldBlock => exact Nat.zero_le len
  | accepted n =>
    simp only [netlibSend]
    omega

theorem sliceSize_le (remain : Nat) : sliceSize remain ≤ remain := by
  unfold sliceSize
  split <;> omega

/-- A socket takes no more than it was offered. -/
theorem taken_le (o : SendOutcome) (remain : Nat) : (netlibSend o (sliceSize remain)).toNat ≤ remain :=
  Nat.le_trans (netlibSend_le o _) (sliceSize_le remain)

/-- The loop sends a prefix of the data and leaves the rest. -/
theorem sendLoop_append (fuel : Nat) (socket : Socket) (data : List UInt8) :
    (sendLoop fuel socket data).1 ++ (sendLoop fuel socket data).2 = data := by
  induction fuel generalizing socket data with
  | zero => rfl
  | succ fuel ih =>
    unfold sendLoop
    dsimp only
    split
    · split
      · rfl
      · rw [List.append_assoc, ih, List.take_append_drop]
    · rfl

/-- The length of the data is fuel enough. -/
theorem sendLoop_succ {fuel : Nat} {socket : Socket} {data : List UInt8} (h : data.length ≤ fuel) :
    sendLoop (fuel + 1) socket data = sendLoop fuel socket data := by
  induction fuel generalizing socket data with
  | zero =>
    unfold sendLoop
    exact if_neg (by omega)
  | succ fuel ih =>
    rw [sendLoop, sendLoop]
    dsimp only
    split
    · split
      · rfl
      · rw [ih]
        rw [List.length_drop]
        omega
    · rfl

/-! ## `OnWrite` -/

/-- The loop of `OnWrite`: the bytes the socket took, and `m_out_buf`. -/
def writeLoop : Nat → Socket → CSimpleBuffer → List UInt8 × CSimpleBuffer
  | 0, _, outBuf => ([], outBuf)
  | fuel + 1, socket, outBuf =>
    if 0 < outBuf.writeOffset then
      let ret := netlibSend (socket 0) (sliceSize outBuf.writeOffset.toNat)
      if ret ≤ 0 then ([], outBuf)
      else
        let (sent, rest) := writeLoop fuel (fun i => socket (i + 1)) (outBuf.read (UInt32.ofNat ret.toNat)).2
        (outBuf.buffer.take ret.toNat ++ sent, rest)
    else ([], outBuf)

/-- `CImConn::OnWrite` -/
def CImConn.onWrite (socket : Socket) (conn : CImConn) : List UInt8 × CImConn :=
  if conn.busy then
    let (sent, outBuf) := writeLoop conn.outBuf.writeOffset.toNat socket conn.outBuf
    (sent, { conn with outBuf := outBuf, busy := if outBuf.writeOffset = 0 then false else conn.busy })
  else ([], conn)

/-! ## The calls of `netlib_send` -/

/-- One `netlib_send`: how many bytes it was offered, and its result. -/
structure SendCall where
  offered : Nat
  ret : Int
  deriving DecidableEq, Repr

/-- The calls that the loop of `Send` makes. -/
def sendCalls : Nat → Socket → List UInt8 → List SendCall
  | 0, _, _ => []
  | fuel + 1, socket, remain =>
    if 0 < remain.length then
      let ret := netlibSend (socket 0) (sliceSize remain.length)
      ⟨sliceSize remain.length, ret⟩ ::
        if ret ≤ 0 then [] else sendCalls fuel (fun i => socket (i + 1)) (remain.drop ret.toNat)
    else []

/-- The calls that the loop of `OnWrite` makes. -/
def writeCalls : Nat → Socket → CSimpleBuffer → List SendCall
  | 0, _, _ => []
  | fuel + 1, socket, outBuf =>
    if 0 < outBuf.writeOffset then
      let ret := netlibSend (socket 0) (sliceSize outBuf.writeOffset.toNat)
      ⟨sliceSize outBuf.writeOffset.toNat, ret⟩ ::
        if ret ≤ 0 then [] else
          writeCalls fuel (fun i => socket (i + 1)) (outBuf.read (UInt32.ofNat ret.toNat)).2
    else []

namespace CImConn

/-- The calls of one `Send`. -/
def sendCalls (socket : Socket) (conn : CImConn) (data : List UInt8) : List SendCall :=
  if conn.busy then [] else PostfixEdm.sendCalls data.length socket data

/-- The calls of one `OnWrite`. -/
def writeCalls (socket : Socket) (conn : CImConn) : List SendCall :=
  if conn.busy then PostfixEdm.writeCalls conn.outBuf.writeOffset.toNat socket conn.outBuf else []

end CImConn

/-- What the socket takes of the buffer, and the buffer behind it. -/
theorem read_taken {b : CSimpleBuffer} (hb : b.Wf) {n : Nat} (h : n ≤ b.writeOffset.toNat) :
    b.buffer.take n = b.contents.take n ∧ (b.read (UInt32.ofNat n)).2.Wf ∧
      (b.read (UInt32.ofNat n)).2.contents = b.contents.drop n := by
  have hn : (UInt32.ofNat n).toNat = n := by
    have := b.writeOffset.toNat_lt
    rw [UInt32.toNat_ofNat', Nat.mod_eq_of_lt (by omega)]
  obtain ⟨-, hwf, hcont⟩ := CSimpleBuffer.read_spec hb (show (UInt32.ofNat n).toNat ≤ _ by omega)
  rw [hn] at hcont
  refine ⟨?_, hwf, hcont⟩
  rw [CSimpleBuffer.contents, List.take_take, Nat.min_eq_left h]

/-- The loop sends a prefix of the contents and keeps the rest buffered. -/
theorem writeLoop_spec (fuel : Nat) (socket : Socket) {b : CSimpleBuffer} (hb : b.Wf) :
    (writeLoop fuel socket b).2.Wf ∧
      (writeLoop fuel socket b).1 ++ (writeLoop fuel socket b).2.contents = b.contents := by
  induction fuel generalizing socket b with
  | zero => exact ⟨hb, rfl⟩
  | succ fuel ih =>
    unfold writeLoop
    dsimp only
    split
    · split
      · exact ⟨hb, rfl⟩
      · obtain ⟨htake, hwf, hcont⟩ := read_taken hb (taken_le (socket 0) b.writeOffset.toNat)
        obtain ⟨ihwf, ihcont⟩ := ih (fun i => socket (i + 1)) hwf
        refine ⟨ihwf, ?_⟩
        rw [List.append_assoc, ihcont, hcont, htake, List.take_append_drop]
    · exact ⟨hb, rfl⟩

theorem writeLoop_succ {fuel : Nat} {socket : Socket} {b : CSimpleBuffer} (hb : b.Wf)
    (h : b.writeOffset.toNat ≤ fuel) : writeLoop (fuel + 1) socket b = writeLoop fuel socket b := by
  induction fuel generalizing socket b with
  | zero =>
    unfold writeLoop
    refine if_neg ?_
    rw [UInt32.lt_iff_toNat_lt]
    exact Nat.not_lt.mpr h
  | succ fuel ih =>
    rw [writeLoop, writeLoop]
    dsimp only
    split
    · split
      · rfl
      · obtain ⟨-, hwf, hcont⟩ := read_taken hb (taken_le (socket 0) b.writeOffset.toNat)
        rw [ih hwf]
        rw [← hwf.length_contents, hcont, List.length_drop, hb.length_contents]
        omega
    · rfl

/-! ## Runs -/

/-- A connection with the bytes its socket has taken (`wire`) and all data passed to `Send` (`given`). -/
structure OutState where
  conn : CImConn
  wire : List UInt8
  given : List UInt8

def OutState.init : OutState := ⟨.init, [], []⟩

/-- A call with the answers its socket gives, and for `Send` the indeterminate bytes of a growth. -/
inductive OutOp
  | send (heap : Heap) (socket : Socket) (data : List UInt8)
  | onWrite (socket : Socket)

def OutState.step (s : OutState) : OutOp → OutState
  | .send heap socket data =>
    let (sent, conn) := s.conn.send heap socket data
    ⟨conn, s.wire ++ sent, s.given ++ data⟩
  | .onWrite socket =>
    let (sent, conn) := s.conn.onWrite socket
    ⟨conn, s.wire ++ sent, s.given⟩

/-- The data that a sequence of calls passes to `Send`. -/
def payload (ops : List OutOp) : List UInt8 :=
  ops.flatMap fun
    | .send _ _ data => data
    | .onWrite _ => []

def OutState.run (s : OutState) (ops : List OutOp) : OutState := ops.foldl OutState.step s

/-- Nothing is lost or reordered, and the flag says whether something is buffered. -/
structure OutState.Inv (s : OutState) : Prop where
  wf : s.conn.outBuf.Wf
  conserved : s.wire ++ s.conn.outBuf.contents = s.given
  busy_iff : s.conn.busy = true ↔ s.conn.outBuf.contents ≠ []

theorem OutState.inv_init : OutState.init.Inv := ⟨CSimpleBuffer.wf_empty, rfl, by decide⟩

section Step
variable {s : OutState}

/-- The bytes that a socket did not take are buffered behind what is buffered already. -/
theorem OutState.Inv.write (hs : s.Inv) (heap : Heap) {sent remain data : List UInt8}
    (hdata : sent ++ remain = data) (hsent : sent = [] ∨ s.conn.outBuf.contents = [])
    (hne : s.conn.outBuf.contents ++ remain ≠ []) (hsize : (s.given ++ data).length < 2 ^ 31) :
    OutState.Inv ⟨{ s.conn with
      outBuf := s.conn.outBuf.write heap true (some remain) (UInt32.ofNat remain.length), busy := true },
      s.wire ++ sent, s.given ++ data⟩ := by
  have hlen := hs.wf.length_contents
  have hgiven := congrArg List.length hs.conserved
  have hdlen := congrArg List.length hdata
  rw [List.length_append] at hsize hgiven hdlen
  obtain ⟨hwf, hcont⟩ := CSimpleBuffer.write_spec heap hs.wf (show _ + remain.length < _ by omega)
  refine ⟨hwf, ?_, ?_⟩
  · simp only [hcont, ← hs.conserved, ← hdata]
    rcases hsent with h | h <;> simp [h]
  · simp only [hcont, true_iff]
    exact hne

theorem OutState.Inv.send (hs : s.Inv) (heap : Heap) (socket : Socket) {data : List UInt8}
    (hsize : (s.given ++ data).length < 2 ^ 31) : (s.step (.send heap socket data)).Inv := by
  by_cases hbusy : s.conn.busy = true
  · -- the deferred path: everything goes behind the buffered bytes
    have hne := hs.busy_iff.mp hbusy
    have hw := hs.write heap (List.nil_append data) (Or.inl rfl) (by simp [hne]) hsize
    simp only [OutState.step, CImConn.send, if_pos hbusy]
    rw [hbusy]
    exact hw
  · have hempty : s.conn.outBuf.contents = [] := by
      by_contra h
      exact hbusy (hs.busy_iff.mpr h)
    have hloop := sendLoop_append data.length socket data
    simp only [OutState.step, CImConn.send, if_neg hbusy]
    by_cases hrem : 0 < (sendLoop data.length socket data).2.length
    · rw [if_pos hrem]
      refine hs.write heap hloop (Or.inr hempty) ?_ hsize
      rw [hempty, List.nil_append]
      exact List.ne_nil_of_length_pos hrem
    · rw [if_neg hrem]
      have hnil : (sendLoop data.length socket data).2 = [] := List.eq_nil_of_length_eq_zero (by omega)
      rw [hnil, List.append_nil] at hloop
      refine ⟨hs.wf, ?_, hs.busy_iff⟩
      simp only [hloop, hempty, List.append_nil, ← hs.conserved]

theorem OutState.Inv.onWrite (hs : s.Inv) (socket : Socket) : (s.step (.onWrite socket)).Inv := by
  by_cases hbusy : s.conn.busy = true
  · obtain ⟨hwf, hcont⟩ := writeLoop_spec s.conn.outBuf.writeOffset.toNat socket hs.wf
    simp only [OutState.step, CImConn.onWrite, if_pos hbusy]
    refine ⟨hwf, ?_, ?_⟩
    · rw [List.append_assoc]
      simp only [hcont, hs.conserved]
    · have hlen := hwf.length_contents
      simp only [hbusy]
      split
      · next h0 =>
        rw [h0] at hlen
        simp [List.eq_nil_of_length_eq_zero hlen]
      · next h0 =>
        rw [← UInt32.toNat_inj, ← hlen] at h0
        simpa using h0
  · simp only [OutState.step, CImConn.onWrite, if_neg hbusy]
    exact ⟨hs.wf, by simp only [List.append_nil, hs.conserved], hs.busy_iff⟩

theorem OutState.Inv.step (hs : s.Inv) (op : OutOp) (hsize : (s.given ++ payload [op]).length < 2 ^ 31) :
    (s.step op).Inv := by
  cases op with
  | send heap socket data => exact hs.send heap socket (by simpa [payload] using hsize)
  | onWrite socket => exact hs.onWrite socket

end Step

theorem OutState.given_step (s : OutState) (op : OutOp) : (s.step op).given = s.given ++ payload [op] := by
  cases op with
  | send heap socket data => simp [OutState.step, payload]
  | onWrite socket => simp [OutState.step, payload]

theorem payload_cons (op : OutOp) (ops : List OutOp) : payload (op :: ops) = payload [op] ++ payload ops := by
  simp [payload]

/-- The invariant along a run, from any state that has it. -/
theorem OutState.Inv.run {s : OutState} (hs : s.Inv) (ops : List OutOp)
    (hsize : (s.given ++ payload ops).length < 2 ^ 31) :
    (s.run ops).Inv ∧ (s.run ops).given = s.given ++ payload ops := by
  induction ops generalizing s with
  | nil => exact ⟨hs, (List.append_nil _).symm⟩
  | cons op ops ih =>
    rw [payload_cons, ← List.append_assoc] at hsize
    have hstep := hs.step op (by rw [List.length_append] at hsize; omega)
    rw [← s.given_step op] at hsize
    obtain ⟨hinv, hgiven⟩ := ih hstep hsize
    exact ⟨hinv, by rw [payload_cons, ← List.append_assoc, ← s.given_step op]; exact hgiven⟩

/-- Outgoing bytes are neither lost nor duplicated nor reordered, whatever the sockets answer. -/
theorem run_conserves (ops : List OutOp) (hsize : (payload ops).length < 2 ^ 31) :
    (OutState.init.run ops).wire ++ (OutState.init.run ops).conn.outBuf.contents = payload ops ∧
      ((OutState.init.run ops).conn.busy = true ↔ (OutState.init.run ops).conn.outBuf.contents ≠ []) := by
  obtain ⟨hinv, hgiven⟩ := OutState.inv_init.run ops hsize
  exact ⟨hinv.conserved.trans hgiven, hinv.busy_iff⟩

/-- Two sends around a full socket, and the flush. -/
theorem run_conserves_blocked :
    let full : Socket := fun i => if i = 0 then .accepted 1 else .wouldBlock
    let ops : List OutOp := [.send (fun _ _ => 0) full [1, 2], .send (fun _ _ => 0) full [3], .onWrite full]
    (payload ops).length < 2 ^ 31 ∧
      ((OutState.init.run ops).wire ++ (OutState.init.run ops).conn.outBuf.contents = payload ops ∧
        ((OutState.init.run ops).conn.busy = true ↔ (OutState.init.run ops).conn.outBuf.contents ≠ [])) := by
  intro full ops
  exact ⟨by decide, run_conserves ops (by decide)⟩

end PostfixEdm
