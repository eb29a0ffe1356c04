import PostfixEdm.Conn.Read
import PostfixEdm.Pdu.RoundTrip
import Mathlib.Data.List.Forall2

/-!
# Framing does not depend on segmentation

* `ensureFree_spec`, `recvLoop_spec` : the first loop of `OnRead` appends what arrives;
* `parseLoop_frames` : the second loop dispatches the complete frames of the buffer, one by one, and
  leaves the rest;
* `onReads` : any number of `OnRead` calls; `onReads_frames` : together they dispatch exactly the messages
  whose frames have arrived, wherever the stream was cut.
-/

namespace PostfixEdm
open Framing

/-! ## The buffer as the argument of `ReadPdu` -/

/-- The written part of a buffer. -/
def CSimpleBuffer.Wf.ucharBuf {b : CSimpleBuffer} (hb : b.Wf) : UcharBuf :=
  ⟨b.contents, by rw [hb.length_contents]; exact b.writeOffset.toNat_lt⟩

/-- The rest of the block lies behind the written part. -/
def Env.behind (env : Env) (b : CSimpleBuffer) : Env := { env with beyond := env.mem b.buffer }

theorem Env.behind_mem (env : Env) (b : CSimpleBuffer) : (env.behind b).mem b.contents = env.mem b.buffer := by
  funext i
  by_cases h : i < b.contents.length
  · have hi : i < b.buffer.length := by
      rw [CSimpleBuffer.contents, List.length_take] at h
      omega
    rw [Env.mem, Env.mem, List.getD_eq_getElem _ _ h, List.getD_eq_getElem _ _ hi]
    exact List.getElem_take
  · rw [Env.mem, List.getD_eq_default _ _ (Nat.le_of_not_lt h)]
    rfl

theorem readPdu_ucharBuf {b : CSimpleBuffer} (hb : b.Wf) (env : Env) :
    readPdu env b.buffer b.writeOffset = hb.ucharBuf.readPdu (env.behind b) := by
  have hlen : hb.ucharBuf.len = b.writeOffset := by
    rw [← UInt32.toNat_inj, UcharBuf.toNat_len]
    exact hb.length_contents
  rw [UcharBuf.readPdu, hlen]
  exact (readPdu_mem env b.buffer b.writeOffset (env.behind_mem b)).symm

/-! ## Receiving -/

/-- Before every `netlib_recv` there is room for `READ_BUF_SIZE` bytes. -/
theorem ensureFree_spec (heap : Heap) {b : CSimpleBuffer} (hb : b.Wf) (h : b.writeOffset.toNat < 2 ^ 31) :
    (ensureFree heap b).Wf ∧ (ensureFree heap b).contents = b.contents ∧
      (ensureFree heap b).writeOffset = b.writeOffset ∧
      b.writeOffset.toNat + 2048 ≤ (ensureFree heap b).allocSize.toNat := by
  unfold ensureFree
  split
  · have hlt : b.writeOffset.toNat + readBufSize.toNat < 2 ^ 31 + 2048 := Nat.add_lt_add_right h 2048
    obtain ⟨hwf, hcont, hroom⟩ := hb.extend heap hlt
    exact ⟨hwf, hcont, rfl, hroom⟩
  · next hfree =>
    have hle := hb.offset_le
    rw [UInt32.lt_iff_toNat_lt, UInt32.toNat_sub_of_le _ _ (UInt32.le_iff_toNat_le.mpr hle),
      show readBufSize.toNat = 2048 from rfl] at hfree
    exact ⟨hb, rfl, rfl, by omega⟩

theorem recvInto_spec {b : CSimpleBuffer} (hb : b.Wf) {data : List UInt8}
    (h : b.writeOffset.toNat + data.length ≤ b.allocSize.toNat) :
    (recvInto b data).Wf ∧ (recvInto b data).contents = b.contents ++ data := by
  have halloc := hb.alloc_le
  have hlt := b.allocSize.toNat_lt
  have hoff : (b.writeOffset + UInt32.ofNat data.length).toNat = b.writeOffset.toNat + data.length := by
    rw [UInt32.toNat_add, UInt32.toNat_ofNat', Nat.mod_eq_of_lt (show data.length < 2 ^ 32 by omega),
      Nat.mod_eq_of_lt (by omega)]
  refine ⟨⟨?_, ?_⟩, ?_⟩
  · simp only [recvInto, CSimpleBuffer.incWriteOffset, hoff]
    exact h
  · simp only [recvInto, CSimpleBuffer.incWriteOffset]
    rwa [Block.length_store (by omega)]
  · simp only [recvInto, CSimpleBuffer.incWriteOffset, CSimpleBuffer.contents, hoff]
    exact Block.take_store (by omega)

/-- The first loop appends everything that arrives, and touches nothing else of the connection. -/
theorem recvLoop_spec (heap : Heap) {recvs : List (List UInt8)} {conn : CImConn} (hb : conn.inBuf.Wf)
    (hle : ∀ data ∈ recvs, data.length ≤ 2048)
    (hsize : conn.inBuf.contents.length + recvs.flatten.length < 2 ^ 31) :
    (recvLoop heap recvs conn).inBuf.Wf ∧
      (recvLoop heap recvs conn).inBuf.contents = conn.inBuf.contents ++ recvs.flatten ∧
      (recvLoop heap recvs conn).policyConn = conn.policyConn := by
  have hoff := hb.length_contents
  obtain ⟨hwf, hcont, hsame, hroom⟩ := ensureFree_spec heap hb (by omega)
  induction recvs generalizing conn with
  | nil => exact ⟨hwf, by rw [List.flatten_nil, List.append_nil]; exact hcont, rfl⟩
  | cons data recvs ih =>
    have hdata := hle data List.mem_cons_self
    let conn' : CImConn := { conn with
      recvBytes := conn.recvBytes + UInt32.ofNat data.length
      inBuf := recvInto (ensureFree heap conn.inBuf) data }
    obtain ⟨hwf', hcont'⟩ : conn'.inBuf.Wf ∧ conn'.inBuf.contents = _ :=
      recvInto_spec hwf (show _ + data.length ≤ _ by rw [hsame]; omega)
    rw [hcont] at hcont'
    rw [List.flatten_cons, List.length_append] at hsize
    have hlen' : (conn.inBuf.contents ++ data).length + recvs.flatten.length < 2 ^ 31 := by
      rw [List.length_append]
      omega
    rw [← hcont'] at hlen'
    have hoff' := hwf'.length_contents
    obtain ⟨hwf'', hcont'', hsame'', hroom''⟩ := ensureFree_spec heap hwf' (by omega)
    obtain ⟨h1, h2, h3⟩ := ih hwf' (fun d hd => hle d (List.mem_cons_of_mem _ hd)) hlen' hoff' hwf'' hcont''
      hsame'' hroom''
    rw [hcont', List.append_assoc, ← List.flatten_cons] at h2
    exact ⟨h1, h2, h3⟩

/-! ## Dispatching -/

/-- A message, and the indeterminate bytes its encoder met. -/
abbrev Sent := Heap × OutPdu

def Sent.bytes (s : Sent) : List UInt8 := (s.2.encode s.1).contents

/-- The encodings of a list of messages, one frame each. -/
def frames (msgs : List Sent) : List (List UInt8) := msgs.map Sent.bytes

/-- The messages of the stream: each fits its frame and is decoded by the class that encodes it. -/
def AllFramed (msgs : List Sent) : Prop := ∀ s ∈ msgs, s.2.Encodable ∧ s.2.Framed

/-- `HandlePdu` that writes down what it is called with. -/
def recordPdu : HandlePdu (List (CImPdu × List UInt8)) := fun calls pdu buf =>
  calls ++ [(pdu, buf.take pdu.getLength.toNat)]

/-- A call of `HandlePdu` with the type, the header and the bytes of a message. -/
structure Dispatched (call : CImPdu × List UInt8) (s : Sent) : Prop where
  type_eq : call.1.getPduType = s.2.pduType
  header_eq : call.1.header = ⟨(s.2.encode s.1).writeOffset, s.2.ids.1, s.2.ids.2, pduVersion, 0⟩
  bytes_eq : call.2 = s.bytes

theorem length_bytes {s : Sent} (h : s.2.Encodable) : s.bytes.length = 12 + s.2.body.length := by
  rw [Sent.bytes, (OutPdu.encode_contents s.1 h).1, length_frame]

theorem toNat_writeOffset_encode {s : Sent} (h : s.2.Encodable) :
    ((s.2.encode s.1).writeOffset).toNat = s.bytes.length := by
  have := h.size
  rw [(OutPdu.encode_contents s.1 h).2, length_bytes h, UInt32.toNat_ofNat', Nat.mod_eq_of_lt (by omega)]

/-- A proper prefix of a frame is not a complete frame. -/
theorem not_complete_of_take {u : UcharBuf} {s : Sent} (hm : s.2.Encodable) {n : Nat}
    (hn : n < s.bytes.length) (hu : u.bytes = s.bytes.take n) : ¬ u.Complete := by
  intro hc
  have hlen : u.bytes.length = n := by
    rw [hu, List.length_take]
    omega
  have h12 := hc.header
  have hle := hc.frame
  have env : Env := ⟨fun _ => 0, fun _ => 0, 0, 0⟩
  have hp : u.pduLen = UInt32.ofNat (12 + s.2.body.length) := by
    rw [← UcharBuf.declaredLen_eq env h12, declaredLen, readUint32At_eq_iff, bytesAt_mem env (by omega), hu,
      List.drop_zero, List.take_take, Nat.min_eq_left (by omega), Sent.bytes,
      (OutPdu.encode_contents s.1 hm).1]
    rfl
  have hsize := hm.size
  rw [hp, UInt32.toNat_ofNat', Nat.mod_eq_of_lt (by omega), ← length_bytes hm] at hle
  omega

/-- One iteration on a buffer that holds a complete frame: its message is dispatched and taken out. -/
theorem iteration_of_frame {b : CSimpleBuffer} (hb : b.Wf) (env : Env) {s : Sent} {tail : List UInt8}
    (hm : s.2.Encodable) (hf : s.2.Framed) (hcont : b.contents = s.bytes ++ tail) :
    ∃ pdu, (readPdu env b.buffer b.writeOffset).value = .ok (some pdu) ∧
      Dispatched (pdu, b.buffer.take pdu.getLength.toNat) s ∧
      (b.read pdu.getLength).2.Wf ∧ (b.read pdu.getLength).2.contents = tail := by
  obtain ⟨bd, hval, htype, -⟩ := readPdu_encode s.1 (env.behind b) hm hf (b := hb.ucharBuf) hcont
  rw [← readPdu_ucharBuf hb] at hval
  have hoff := toNat_writeOffset_encode hm
  have hlen := congrArg List.length hcont
  rw [List.length_append, hb.length_contents] at hlen
  obtain ⟨-, hwf, hread⟩ := CSimpleBuffer.read_spec hb (show (s.2.encode s.1).writeOffset.toNat ≤ _ by omega)
  rw [hoff, hcont, List.drop_left] at hread
  refine ⟨_, hval, ⟨htype, rfl, ?_⟩, hwf, hread⟩
  have htake : b.buffer.take s.bytes.length = b.contents.take s.bytes.length := by
    rw [CSimpleBuffer.contents, List.take_take, Nat.min_eq_left (by omega)]
  change b.buffer.take ((s.2.encode s.1).writeOffset).toNat = s.bytes
  rw [hoff, htake, hcont, List.take_left]

theorem readPdu_of_not_complete {b : CSimpleBuffer} (hb : b.Wf) (env : Env) (h : ¬ hb.ucharBuf.Complete) :
    (readPdu env b.buffer b.writeOffset).value = .ok none := by
  rw [readPdu_ucharBuf hb]
  exact UcharBuf.readPdu_of_not_complete _ h

/-- The second loop dispatches the complete frames at the front of the stream and keeps the rest. -/
theorem parseLoop_frames {msgs : List Sent} (hmsgs : AllFramed msgs) (fuel n : Nat) (envs : Nat → Env)
    (calls : List (CImPdu × List UInt8)) {b : CSimpleBuffer} (hb : b.Wf) (hlen : b.contents.length = n)
    (hcont : b.contents = (frames msgs).flatten.take n) (hfuel : n < fuel) :
    ∃ r, parseLoop recordPdu fuel envs calls b = some r ∧ r.thrown = none ∧ r.inBuf.Wf ∧
      r.inBuf.contents = suffix (frames msgs) n ∧
      ∃ new, r.state = calls ++ new ∧
        List.Forall₂ Dispatched new (msgs.take (complete (frames msgs) n)) := by
  induction msgs generalizing fuel n envs calls b with
  | nil =>
    have hnil : b.contents = [] := by rw [hcont]; exact List.take_nil
    cases fuel with
    | zero => exact absurd hfuel (Nat.not_lt_zero _)
    | succ fuel =>
      have hnc : ¬ hb.ucharBuf.Complete := by
        intro hc
        have h12 : 12 ≤ b.contents.length := hc.header
        rw [hnil] at h12
        exact absurd h12 (by decide)
      refine ⟨⟨b, calls, none⟩, ?_, rfl, hb, ?_, [], (List.append_nil _).symm, ?_⟩
      · unfold parseLoop
        rw [readPdu_of_not_complete hb _ hnc]
      · rw [hnil]
        exact List.take_nil.symm
      · rw [List.take_nil]
        exact .nil
  | cons s msgs ih =>
    obtain ⟨hm, hf⟩ := hmsgs s List.mem_cons_self
    rw [frames, List.map_cons, ← frames] at hcont ⊢
    cases fuel with
    | zero => exact absurd hfuel (Nat.not_lt_zero _)
    | succ fuel =>
      by_cases hn : s.bytes.length ≤ n
      · rw [complete_of_le hn]
        rw [List.flatten_cons, List.take_append, List.take_of_length_le hn] at hcont
        obtain ⟨pdu, hval, hdisp, hwf, htail⟩ := iteration_of_frame hb (envs 0) hm hf hcont
        have h12 := length_bytes hm
        have hlen' : (b.read pdu.getLength).2.contents.length = n - s.bytes.length := by
          rw [htail]
          rw [hcont, List.length_append] at hlen
          omega
        obtain ⟨r, hr, hthrown, hrwf, hrcont, new, hstate, hall⟩ :=
          ih (fun s hs => hmsgs s (List.mem_cons_of_mem _ hs)) fuel _ (fun i => envs (i + 1))
            (recordPdu calls pdu b.buffer) hwf hlen' htail (by omega)
        refine ⟨r, ?_, hthrown, hrwf, ?_, (pdu, b.buffer.take pdu.getLength.toNat) :: new, ?_, ?_⟩
        · unfold parseLoop
          rw [hval]
          exact hr
        · rw [hrcont, suffix, suffix, complete_of_le hn, pending_of_le hn, List.drop_succ_cons]
        · rw [hstate, recordPdu, List.append_assoc]
          rfl
        · exact .cons hdisp hall
      · have hlt := Nat.lt_of_not_le hn
        rw [List.flatten_cons, List.take_append_of_le_length hlt.le] at hcont
        refine ⟨⟨b, calls, none⟩, ?_, rfl, hb, ?_, [], (List.append_nil _).symm, ?_⟩
        · unfold parseLoop
          rw [readPdu_of_not_complete hb _ (not_complete_of_take hm hlt hcont)]
        · rw [suffix, complete_of_lt hlt, pending_of_lt hlt, List.drop_zero, List.flatten_cons,
            List.take_append_of_le_length hlt.le]
          exact hcont
        · rw [complete_of_lt hlt, List.take_zero]
          exact .nil

/-! ## Calls -/

/-- What a call receives. -/
def ReadCall.bytes (call : ReadCall) : List UInt8 := call.chunks.flatten

def received (calls : List ReadCall) : List UInt8 := calls.flatMap ReadCall.bytes

/-- `OnRead` calls one after the other; after an exception the connection is closed. -/
def onReads {σ : Type} (handlePdu : HandlePdu σ) (fuel : Nat) :
    List ReadCall → CImConn → σ → Option (OnReadResult σ)
  | [], conn, state => some ⟨conn, state, none⟩
  | call :: calls, conn, state =>
    match conn.onRead handlePdu fuel call state with
    | none => none
    | some r => if r.thrown = none then onReads handlePdu fuel calls r.conn r.state else some r

/-- Fewer than `2^31` bytes are ever buffered: what is pending before a call, and what the call brings. -/
def BufferedBelow (msgs : List Sent) (calls : List ReadCall) : Prop :=
  ∀ before call after, calls = before ++ call :: after →
    pending (frames msgs) (received before).length + call.bytes.length < 2 ^ 31

/-- Fewer than `2^31` bytes in all are enough. -/
theorem bufferedBelow_of_length (msgs : List Sent) {calls : List ReadCall}
    (h : (received calls).length < 2 ^ 31) : BufferedBelow msgs calls := by
  rintro before call after rfl
  have := pending_le (frames msgs) (received before).length
  simp only [received, List.flatMap_append, List.flatMap_cons, List.length_append] at h this ⊢
  omega

/-- After `n` bytes of the stream: the messages of the complete frames were dispatched, the rest is kept. -/
structure Received (msgs : List Sent) (n : Nat) (conn : CImConn) (calls : List (CImPdu × List UInt8)) :
    Prop where
  wf : conn.inBuf.Wf
  contents : conn.inBuf.contents = suffix (frames msgs) n
  policy : conn.policyConn = false
  dispatched : List.Forall₂ Dispatched calls (msgs.take (complete (frames msgs) n))

theorem received_init (msgs : List Sent) (hmsgs : AllFramed msgs) : Received msgs 0 .init [] := by
  have hzero : complete (frames msgs) 0 = 0 := by
    cases msgs with
    | nil => rfl
    | cons s msgs =>
      have := length_bytes (hmsgs s List.mem_cons_self).1
      exact complete_of_lt (by omega)
  refine ⟨CSimpleBuffer.wf_empty, ?_, rfl, ?_⟩
  · have := pending_le (frames msgs) 0
    rw [suffix, Nat.le_zero.mp this, List.take_zero]
    rfl
  · rw [hzero, List.take_zero]
    exact .nil

theorem frames_drop (msgs : List Sent) (k : Nat) : (frames msgs).drop k = frames (msgs.drop k) :=
  List.map_drop.symm

theorem flatten_recvs (chunks : List (List UInt8)) :
    (chunks.flatMap (slices readBufSize.toNat)).flatten = chunks.flatten := by
  induction chunks with
  | nil => rfl
  | cons chunk chunks ih =>
    rw [List.flatMap_cons, List.flatten_append, flatten_slices (by decide), ih, List.flatten_cons]

/-- One `OnRead`: what it receives is dispatched as far as frames are complete. -/
theorem Received.onRead {msgs : List Sent} (hmsgs : AllFramed msgs) {n fuel : Nat} {conn : CImConn}
    {calls : List (CImPdu × List UInt8)} (h : Received msgs n conn calls) {call : ReadCall}
    (hn : n ≤ (frames msgs).flatten.length)
    (hcut : (frames msgs).flatten.take (n + call.bytes.length) = (frames msgs).flatten.take n ++ call.bytes)
    (hsize : pending (frames msgs) n + call.bytes.length < 2 ^ 31) (hfuel : 2 ^ 31 ≤ fuel) :
    ∃ r, conn.onRead recordPdu fuel call calls = some r ∧ r.thrown = none ∧
      Received msgs (n + call.bytes.length) r.conn r.state := by
  let recvs := call.chunks.flatMap (slices readBufSize.toNat)
  have hflat : recvs.flatten = call.bytes := flatten_recvs call.chunks
  have hle : ∀ data ∈ recvs, data.length ≤ 2048 := by
    intro data hd
    obtain ⟨chunk, -, hs⟩ := List.mem_flatMap.mp hd
    exact length_le_of_mem_slices hs
  have hpend : conn.inBuf.contents.length = pending (frames msgs) n := by
    rw [h.contents, length_suffix hn]
  obtain ⟨hwf, hcont, hpolicy⟩ := recvLoop_spec call.heap h.wf hle (by rwa [hflat, hpend])
  rw [hflat, h.contents] at hcont
  have hnew := suffix_append hn hcut
  rw [frames_drop] at hnew
  obtain ⟨r, hr, hthrown, hrwf, hrcont, new, hstate, hall⟩ := parseLoop_frames
    (fun s hs => hmsgs s (List.mem_of_mem_drop hs)) fuel (pending (frames msgs) n + call.bytes.length) call.envs
    calls hwf (by rw [hcont, List.length_append, ← h.contents, hpend]) (hcont.trans hnew) (by omega)
  refine ⟨⟨{ recvLoop call.heap recvs conn with inBuf := r.inBuf }, r.state, r.thrown⟩, ?_, hthrown, hrwf, ?_, ?_, ?_⟩
  · rw [CImConn.onRead_eq recordPdu fuel calls rfl (hpolicy.trans h.policy), hr]
    rfl
  · rw [suffix_add, frames_drop]
    exact hrcont
  · exact hpolicy.trans h.policy
  · rw [complete_add, frames_drop, List.take_add, hstate]
    exact List.rel_append h.dispatched hall

/-- Any number of calls, from a state in which `n` bytes were received. -/
theorem Received.onReads {msgs : List Sent} (hmsgs : AllFramed msgs) {n fuel : Nat} {conn : CImConn}
    {state : List (CImPdu × List UInt8)} (h : Received msgs n conn state) {calls : List ReadCall}
    (hn : n ≤ (frames msgs).flatten.length)
    (hcut : (frames msgs).flatten.take n ++ received calls <+: (frames msgs).flatten)
    (hsize : ∀ before call after, calls = before ++ call :: after →
      pending (frames msgs) (n + (received before).length) + call.bytes.length < 2 ^ 31)
    (hfuel : 2 ^ 31 ≤ fuel) :
    ∃ r, PostfixEdm.onReads recordPdu fuel calls conn state = some r ∧ r.thrown = none ∧
      Received msgs (n + (received calls).length) r.conn r.state := by
  induction calls generalizing n conn state with
  | nil => exact ⟨_, rfl, rfl, h⟩
  | cons call calls ih =>
    have hrec : received (call :: calls) = call.bytes ++ received calls := List.flatMap_cons
    rw [hrec, ← List.append_assoc] at hcut
    have hlen : ((frames msgs).flatten.take n).length = n := by
      rw [List.length_take]
      omega
    have htake : (frames msgs).flatten.take (n + call.bytes.length) =
        (frames msgs).flatten.take n ++ call.bytes := by
      have hp := List.prefix_iff_eq_take.mp ((List.prefix_append _ _).trans hcut)
      rw [List.length_append, hlen] at hp
      exact hp.symm
    have hle : n + call.bytes.length ≤ (frames msgs).flatten.length := by
      have := congrArg List.length htake
      rw [List.length_take, List.length_append, hlen] at this
      omega
    obtain ⟨r, hr, hthrown, hrec'⟩ := h.onRead hmsgs hn htake (hsize [] call calls rfl) hfuel
    obtain ⟨r', hr', hthrown', hrec''⟩ := ih hrec' hle (by rwa [htake]) fun before call' after hc => by
      have := hsize (call :: before) call' after (congrArg (call :: ·) hc)
      rwa [show received (call :: before) = call.bytes ++ received before from List.flatMap_cons,
        List.length_append, ← Nat.add_assoc] at this
    refine ⟨r', ?_, hthrown', ?_⟩
    · unfold PostfixEdm.onReads
      rw [hr]
      simp only [hthrown, if_true]
      exact hr'
    · rwa [hrec, List.length_append, ← Nat.add_assoc]

/-- However the encodings are cut and delivered, `HandlePdu` is called once for every message whose frame
has arrived, in order, and `m_in_buf` holds the rest. -/
theorem onReads_frames {msgs : List Sent} (hmsgs : AllFramed msgs) {calls : List ReadCall}
    (hcut : received calls <+: (frames msgs).flatten) (hsize : BufferedBelow msgs calls) {fuel : Nat}
    (hfuel : 2 ^ 31 ≤ fuel) :
    ∃ r, onReads recordPdu fuel calls .init [] = some r ∧ r.thrown = none ∧
      List.Forall₂ Dispatched r.state (msgs.take (complete (frames msgs) (received calls).length)) ∧
      r.conn.inBuf.contents = suffix (frames msgs) (received calls).length := by
  obtain ⟨r, hr, hthrown, h⟩ := (received_init msgs hmsgs).onReads hmsgs (Nat.zero_le _)
    (by rw [List.take_zero]; exact hcut) (fun before call after hc => by
      rw [Nat.zero_add]
      exact hsize before call after hc) hfuel
  rw [Nat.zero_add] at h
  exact ⟨r, hr, hthrown, h.dispatched, h.contents⟩

/-- A registration and a heartbeat, cut inside the first header and inside the first body. -/
theorem onReads_frames_cut :
    let heap : Heap := fun _ _ => 0
    let env : Env := ⟨fun _ => 0, fun _ => 0, 0, 0⟩
    let msgs : List Sent := [(heap, .regClientType clientCpp), (heap, .emptyHeartbeat)]
    let call (chunks : List (List UInt8)) : ReadCall := ⟨chunks, heap, fun _ => .wouldBlock, fun _ => env⟩
    let calls := [call [[0, 0], [0, 14, 0, 3]], call [[0, 3, 0, 1, 0, 0, 0]], call [[1, 0, 0, 0, 12]]]
    ∃ r, onReads recordPdu (2 ^ 31) calls .init [] = some r ∧ r.thrown = none ∧
      List.Forall₂ Dispatched r.state (msgs.take (complete (frames msgs) (received calls).length)) ∧
      r.conn.inBuf.contents = suffix (frames msgs) (received calls).length := by
  intro heap env msgs call calls
  refine onReads_frames ?_ (show received calls <+: (frames msgs).flatten by decide)
    (bufferedBelow_of_length msgs (by decide)) (Nat.le_refl _)
  intro s hs
  rcases List.mem_cons.mp hs with rfl | hs
  · exact ⟨⟨by decide, by decide⟩, trivial⟩
  · rw [List.mem_singleton.mp hs]
    exact ⟨⟨by decide, by decide⟩, trivial⟩

end PostfixEdm
