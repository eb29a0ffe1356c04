import PostfixEdm.Conn.Receive
import PostfixEdm.Conn.Stream
import PostfixEdm.Lib.Fifo

/-!
# Frames handed to any `HandlePdu`

* `OutPdu.Arrives` : the PDU and the buffer that `HandlePdu` is called with for a message; a completion report
  arrives as a registration;
* `OutPdu.Deliverable` : the messages of which this is true;
* `parseLoop_serves` : the second loop of `OnRead` hands the complete frames over, oldest first, whatever
  `HandlePdu` does, and leaves less than a frame.
-/

namespace PostfixEdm
open Fifo

/-- What `HandlePdu` sees of a message; nothing behind the buffer matters. -/
def OutPdu.Arrives (m : OutPdu) (pdu : CImPdu) (buf : List UInt8) : Prop :=
  (∀ beyond : Nat → UInt8, m.Carries (fun i => buf.getD i (beyond i)) pdu.body) ∨
    ∃ t u, m = .clientDone t ∧ pdu.body = .regClientType u

/-- The messages whose frame is decoded, as the message itself or as a registration. -/
structure OutPdu.Deliverable (m : OutPdu) : Prop where
  encodable : m.Encodable
  framed : m.Framed ∨ ∃ t, m = .clientDone t

/-- `HandlePdu` on a message. -/
def serve {σ : Type} (handlePdu : HandlePdu σ) (state : σ) (s : Sent) (state' : σ) : Prop :=
  ∃ pdu buf, s.2.Arrives pdu buf ∧ state' = handlePdu state pdu buf

namespace OutPdu

/-- The decoded body stands for the message in every memory that begins with the buffer. -/
theorem exists_carries_all {m : OutPdu} (hm : m.Encodable) (h : m.Framed) {b : UcharBuf}
    (hs : Starts b m.ids.1 m.ids.2 m.body) (env : Env) :
    ∃ bd, m.pduClass.body env (env.mem b.bytes) b.pduLen = some bd ∧
      ∀ mem : Nat → UInt8, (∀ i < b.bytes.length, env.mem b.bytes i = mem i) → m.Carries mem bd := by
  by_cases hne : m ≠ serverStatusRequest ∧ m ≠ emptyHeartbeat
  · have hlen := hs.toNat_pduLen
    have hle := hs.le_length
    have h12 : 12 ≤ b.pduLen.toNat := by omega
    have hshape : m.pduClass.Shape (bodyAt (env.mem b.bytes) b.pduLen) := by
      rw [hs.bodyAt_eq env]
      exact shape_body hm h
    refine ⟨_, PduClass.body_of_shape h12 hshape fun hopt => ?_, fun mem hmem => ?_⟩
    · rw [hlen]
      cases m with
      | serverStatusRequest => exact absurd rfl hne.1
      | emptyHeartbeat => exact absurd rfl hne.2
      | serverStatusInfo s | heartbeat s =>
        simp only [body, CByteStreamOut.length_lengthPrefixed]
        omega
      | _ => rcases hopt with hk | hk <;> cases hk
    · have hagree : ∀ j < b.pduLen.toNat, env.mem b.bytes j = mem j := fun j hj => hmem j (by omega)
      have hbody : bodyAt mem b.pduLen = m.body := by
        rw [← hs.bodyAt_eq env, bodyAt, bodyAt]
        refine (bytesAt_congr fun j hj => (hagree _ ?_)).symm
        omega
      rw [PduClass.fields_congr h12 hshape hagree]
      exact carries_fields h hlen hbody hne
  · obtain ⟨bd, hbd, hcar⟩ := exists_carries hm h hs env
    refine ⟨bd, hbd, fun mem _ => ?_⟩
    cases m with
    | serverStatusRequest | emptyHeartbeat => exact hcar
    | _ => exact absurd ⟨by rintro ⟨⟩, by rintro ⟨⟩⟩ hne

/-- A frame at the front of a buffer is decoded as its message. -/
theorem Deliverable.readPdu {m : OutPdu} (hm : m.Deliverable) (heap : Heap) (env : Env) {b : UcharBuf}
    {tail : List UInt8} (hb : b.bytes = (m.encode heap).contents ++ tail) :
    ∃ pdu, (b.readPdu env).value = .ok (some pdu) ∧ pdu.getLength = (m.encode heap).writeOffset ∧
      ((∀ mem : Nat → UInt8, (∀ i < b.bytes.length, env.mem b.bytes i = mem i) → m.Carries mem pdu.body) ∨
        ∃ t u, m = .clientDone t ∧ pdu.body = .regClientType u) := by
  have hs := starts_encode heap hm.encodable hb
  rw [(encode_contents heap hm.encodable).2]
  rcases hm.framed with hf | ⟨t, rfl⟩
  · obtain ⟨bd, hbd, hcar⟩ := exists_carries_all hm.encodable hf hs env
    exact ⟨_, hs.readPdu_of_body (classOf_ids hf) hbd, rfl, Or.inl hcar⟩
  · have hlen : b.pduLen.toNat = 12 := hs.toNat_pduLen
    have hbd : PduClass.body env (env.mem b.bytes) b.pduLen .regClientType =
        some (.regClientType (env.word16 0)) := by
      rw [PduClass.body, PduClass.wordBody, if_neg (by omega), if_pos hlen]
    exact ⟨_, hs.readPdu_of_body rfl hbd, rfl, Or.inr ⟨t, _, rfl, rfl⟩⟩

end OutPdu

/-- One iteration on a buffer that begins with a frame. -/
theorem iteration_arrives {b : CSimpleBuffer} (hb : b.Wf) (env : Env) {s : Sent} {tail : List UInt8}
    (hm : s.2.Deliverable) (hcont : b.contents = s.bytes ++ tail) :
    ∃ pdu, (readPdu env b.buffer b.writeOffset).value = .ok (some pdu) ∧ s.2.Arrives pdu b.buffer ∧
      (b.read pdu.getLength).2.Wf ∧ (b.read pdu.getLength).2.contents = tail := by
  obtain ⟨pdu, hval, hlen, hcar⟩ := hm.readPdu s.1 (env.behind b) (b := hb.ucharBuf) hcont
  rw [← readPdu_ucharBuf hb] at hval
  have hoff := toNat_writeOffset_encode hm.encodable
  have hsplit := congrArg List.length hcont
  rw [List.length_append, hb.length_contents] at hsplit
  obtain ⟨-, hwf, hread⟩ := CSimpleBuffer.read_spec hb (show (s.2.encode s.1).writeOffset.toNat ≤ _ by omega)
  rw [hoff, hcont, List.drop_left] at hread
  rw [← hlen] at hwf hread
  refine ⟨pdu, hval, hcar.imp_left fun h beyond => h _ fun i hi => ?_, hwf, hread⟩
  have hi' : i < b.buffer.length := by
    have := hb.offset_le
    have := hb.alloc_le
    have : i < b.writeOffset.toNat := by
      rw [← hb.length_contents]
      exact hi
    omega
  change (env.behind b).mem b.contents i = _
  rw [Env.behind_mem, Env.mem, List.getD_eq_getElem _ _ hi', List.getD_eq_getElem _ _ hi']

/-- The bytes of a stream that is not a whole frame yet are not taken for one. -/
theorem iteration_of_short {b : CSimpleBuffer} (hb : b.Wf) (env : Env) {msgs : List Sent}
    (hmsgs : ∀ s ∈ msgs, s.2.Deliverable) {rest : List UInt8} (hcont : b.contents ++ rest = (frames msgs).flatten)
    (hshort : ∀ s, msgs.head? = some s → b.contents.length < s.bytes.length) :
    (readPdu env b.buffer b.writeOffset).value = .ok none := by
  refine readPdu_of_not_complete hb env ?_
  cases msgs with
  | nil =>
    have hnil : b.contents = [] := (List.append_eq_nil_iff.mp hcont).1
    intro hc
    have h12 : 12 ≤ b.contents.length := hc.header
    rw [hnil] at h12
    exact absurd h12 (by decide)
  | cons s msgs =>
    have hlt := hshort s rfl
    rw [frames, List.map_cons, List.flatten_cons] at hcont
    have htake : b.contents = s.bytes.take b.contents.length := by
      have := congrArg (List.take b.contents.length) hcont
      rwa [List.take_left, List.take_append_of_le_length hlt.le] at this
    exact not_complete_of_take (hmsgs s List.mem_cons_self).encodable hlt htake

/-- What the second loop leaves of a stream: the frames of the messages from the `k`-th on. -/
structure LoopServed {σ : Type} (handlePdu : HandlePdu σ) (msgs : List Sent) (rest : List UInt8) (state : σ)
    (k : Nat) (inBuf : CSimpleBuffer) (state' : σ) : Prop where
  le : k ≤ msgs.length
  wf : inBuf.Wf
  contents : inBuf.contents ++ rest = (frames (msgs.drop k)).flatten
  short : ∀ s, (msgs.drop k).head? = some s → inBuf.contents.length < s.bytes.length
  serves : Serves (serve handlePdu) state (msgs.take k) state'

/-- The second loop hands every complete frame over, whatever `HandlePdu` does with it. -/
theorem parseLoop_serves {σ : Type} (handlePdu : HandlePdu σ) {msgs : List Sent}
    (hmsgs : ∀ s ∈ msgs, s.2.Deliverable) (fuel : Nat) (envs : Nat → Env) (state : σ) {b : CSimpleBuffer}
    (hb : b.Wf) {rest : List UInt8} (hcont : b.contents ++ rest = (frames msgs).flatten)
    (hfuel : b.contents.length < fuel) :
    ∃ r k, parseLoop handlePdu fuel envs state b = some r ∧ r.thrown = none ∧
      LoopServed handlePdu msgs rest state k r.inBuf r.state := by
  induction fuel generalizing msgs envs state b with
  | zero => exact absurd hfuel (Nat.not_lt_zero _)
  | succ fuel ih =>
    by_cases hshort : ∀ s, msgs.head? = some s → b.contents.length < s.bytes.length
    · refine ⟨⟨b, state, none⟩, 0, ?_, rfl, Nat.zero_le _, hb, hcont, hshort, .nil state⟩
      unfold parseLoop
      rw [iteration_of_short hb (envs 0) hmsgs hcont hshort]
    · push Not at hshort
      obtain ⟨s, hs, hle⟩ := hshort
      cases msgs with
      | nil => cases hs
      | cons s' msgs =>
        obtain rfl : s' = s := Option.some.inj hs
        have hm := hmsgs s' List.mem_cons_self
        rw [frames, List.map_cons, List.flatten_cons] at hcont
        obtain ⟨tail, htail⟩ : ∃ tail, b.contents = s'.bytes ++ tail := by
          have := congrArg (List.take s'.bytes.length) hcont
          rw [List.take_append_of_le_length hle, List.take_left] at this
          refine ⟨b.contents.drop s'.bytes.length, ?_⟩
          conv_lhs => rw [← List.take_append_drop s'.bytes.length b.contents, this]
        rw [htail, List.append_assoc] at hcont
        obtain ⟨pdu, hval, harr, hwf, hread⟩ := iteration_arrives hb (envs 0) hm htail
        have hpos := length_bytes hm.encodable
        have hlen := congrArg List.length htail
        rw [List.length_append] at hlen
        obtain ⟨r, k, hr, hthrown, hserved⟩ := ih (fun s hs => hmsgs s (List.mem_cons_of_mem _ hs))
          (fun i => envs (i + 1)) (handlePdu state pdu b.buffer) hwf
          (by rw [hread]; exact List.append_cancel_left hcont) (by rw [hread]; omega)
        refine ⟨r, k + 1, ?_, hthrown, Nat.succ_le_succ hserved.le, hserved.wf, hserved.contents, hserved.short,
          .cons ⟨pdu, b.buffer, harr, rfl⟩ hserved.serves⟩
        unfold parseLoop
        rw [hval]
        exact hr

/-- When the whole stream is there, every message is handed over. -/
theorem LoopServed.eq_length {σ : Type} {handlePdu : HandlePdu σ} {msgs : List Sent} {state state' : σ} {k : Nat}
    {inBuf : CSimpleBuffer} (h : LoopServed handlePdu msgs [] state k inBuf state') : k = msgs.length := by
  by_contra hne
  have hlt : k < msgs.length := lt_of_le_of_ne h.le hne
  have hcont := h.contents
  rw [List.drop_eq_getElem_cons hlt, frames, List.map_cons, List.flatten_cons, List.append_nil] at hcont
  have hshort := h.short msgs[k] (by rw [List.drop_eq_getElem_cons hlt]; rfl)
  rw [hcont, List.length_append] at hshort
  omega

end PostfixEdm
