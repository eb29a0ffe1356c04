import PostfixEdm.Conn.Write
import PostfixEdm.Lib.Framing
import PostfixEdm.Pdu.Grammar

/-!
# `CImConn::OnRead`

* `recvLoop` : the first loop, which appends what `netlib_recv` returns to `m_in_buf`;
* `parseLoop` : the second loop, which hands every PDU at the front of `m_in_buf` to `HandlePdu`;
* `onRead` : both, with the test for a policy request between them;
* `Returns` : a PDU that some evaluation of the second loop's condition returns; `LoopTerminates` : these
  are never shorter than a header, and the loop ends;
* `loopTerminates_iff` : the buffers of which this is true.
-/

namespace PostfixEdm

/-- `READ_BUF_SIZE` -/
abbrev readBufSize : UInt32 := 2048

/-- `g_policy_content`, which nothing assigns. -/
def gPolicyContent : Option (List UInt8) := none

/-! ## Receiving -/

def ensureFree (heap : Heap) (inBuf : CSimpleBuffer) : CSimpleBuffer :=
  if inBuf.allocSize - inBuf.writeOffset < readBufSize then inBuf.extend heap true readBufSize else inBuf

/-- `netlib_recv` behind the buffered bytes, and `IncWriteOffset`. -/
def recvInto (inBuf : CSimpleBuffer) (data : List UInt8) : CSimpleBuffer :=
  { inBuf with buffer := Block.store inBuf.buffer inBuf.writeOffset.toNat data }.incWriteOffset
    (UInt32.ofNat data.length)

/-- The first loop: one result of `netlib_recv` after the other, and then one that is not positive. -/
def recvLoop (heap : Heap) : List (List UInt8) → CImConn → CImConn
  | [], conn => { conn with inBuf := ensureFree heap conn.inBuf }
  | data :: recvs, conn =>
    recvLoop heap recvs
      { conn with
        recvBytes := conn.recvBytes + UInt32.ofNat data.length
        inBuf := recvInto (ensureFree heap conn.inBuf) data }

/-! ## Parsing -/

/-- `HandlePdu` of a class of connections: it may look at the buffer, and leaves it alone. -/
abbrev HandlePdu (σ : Type) := σ → CImPdu → List UInt8 → σ

structure ParseResult (σ : Type) where
  inBuf : CSimpleBuffer
  state : σ
  thrown : Option CPduException

/-- The second loop; `none` when the fuel runs out. -/
def parseLoop {σ : Type} (handlePdu : HandlePdu σ) :
    Nat → (Nat → Env) → σ → CSimpleBuffer → Option (ParseResult σ)
  | 0, _, _, _ => none
  | fuel + 1, envs, state, inBuf =>
    match (readPdu (envs 0) inBuf.buffer inBuf.writeOffset).value with
    | .error ex => some ⟨inBuf, state, some ex⟩
    | .ok none => some ⟨inBuf, state, none⟩
    | .ok (some pdu) =>
      parseLoop handlePdu fuel (fun i => envs (i + 1)) (handlePdu state pdu inBuf.buffer)
        (inBuf.read pdu.getLength).2

/-! ## `OnRead` -/

/-- What one call may meet: the segments that arrive, and everything indeterminate. -/
structure ReadCall where
  chunks : List (List UInt8)
  heap : Heap
  socket : Socket
  envs : Nat → Env

structure OnReadResult (σ : Type) where
  conn : CImConn
  state : σ
  thrown : Option CPduException

/-- The content to answer a flash policy request with. -/
def policyReply (conn : CImConn) : Option (List UInt8) :=
  if conn.recvBytes = conn.inBuf.writeOffset then
    if conn.inBuf.buffer.head? = some 0x3C then gPolicyContent else none
  else none

/-- `CImConn::OnRead`. Each segment is received in pieces of at most `READ_BUF_SIZE` bytes; an exception
that ends the second loop is followed by `OnClose`. -/
def CImConn.onRead {σ : Type} (handlePdu : HandlePdu σ) (fuel : Nat) (call : ReadCall) (conn : CImConn)
    (state : σ) : Option (OnReadResult σ) :=
  let conn := recvLoop call.heap (call.chunks.flatMap (Framing.slices readBufSize.toNat)) conn
  if conn.policyConn then some ⟨conn, state, none⟩
  else
    match policyReply conn with
    | some content => some ⟨({ conn with policyConn := true }.send call.heap call.socket content).2, state, none⟩
    | none =>
      (parseLoop handlePdu fuel call.envs state conn.inBuf).map fun r =>
        ⟨{ conn with inBuf := r.inBuf }, r.state, r.thrown⟩

theorem policyReply_eq (conn : CImConn) : policyReply conn = none := by
  unfold policyReply
  split
  · split <;> rfl
  · rfl

/-- Without a policy request, which there never is, the second loop follows the first. -/
theorem CImConn.onRead_eq {σ : Type} (handlePdu : HandlePdu σ) (fuel : Nat) {call : ReadCall}
    {conn after : CImConn} (state : σ)
    (hafter : recvLoop call.heap (call.chunks.flatMap (Framing.slices readBufSize.toNat)) conn = after)
    (hp : after.policyConn = false) :
    conn.onRead handlePdu fuel call state =
      (parseLoop handlePdu fuel call.envs state after.inBuf).map fun r =>
        ⟨{ after with inBuf := r.inBuf }, r.state, r.thrown⟩ := by
  unfold CImConn.onRead
  rw [hafter]
  simp only [hp, policyReply_eq]
  rfl

/-! ## Termination -/

/-- Some evaluation of the loop condition, from this buffer on, returns the PDU. -/
inductive Returns : CSimpleBuffer → CImPdu → Prop
  | here {b : CSimpleBuffer} {pdu : CImPdu} (env : Env)
      (h : (readPdu env b.buffer b.writeOffset).value = .ok (some pdu)) : Returns b pdu
  | later {b : CSimpleBuffer} {pdu next : CImPdu} (env : Env)
      (h : (readPdu env b.buffer b.writeOffset).value = .ok (some pdu))
      (t : Returns (b.read pdu.getLength).2 next) : Returns b next

/-- Every PDU is at least a header long, and the loop ends, whatever `HandlePdu` does and whatever the
indeterminate bytes are. -/
structure LoopTerminates (b : CSimpleBuffer) : Prop where
  lengths : ∀ pdu, Returns b pdu → 12 ≤ pdu.getLength.toNat
  terminates : ∀ (σ : Type) (handlePdu : HandlePdu σ) (state : σ) (envs : Nat → Env),
    ∃ fuel, (parseLoop handlePdu fuel envs state b).isSome

section Frames
variable (mem : Nat → UInt8) (len : UInt32)

/-- A complete frame in memory that declares fewer than 12 bytes, made acceptable by a nested length. -/
def ShortFrame : Prop :=
  12 ≤ len.toNat ∧ (readUint32At mem 0).toNat ≤ len.toNat ∧ (readUint32At mem 0).toNat < 12 ∧
    ∃ k, classOf (readUint16At mem 4) (readUint16At mem 6) = some k ∧ k.ShortShape mem (readUint32At mem 0)

/-- A complete frame in memory that declares 12 bytes or more and may be accepted. -/
def LongFrame : Prop :=
  12 ≤ len.toNat ∧ (readUint32At mem 0).toNat ≤ len.toNat ∧ 12 ≤ (readUint32At mem 0).toNat ∧
    ∃ k, classOf (readUint16At mem 4) (readUint16At mem 6) = some k ∧
      (k.Shape (bodyAt mem (readUint32At mem 0)) ∨ k.Truncated (bodyAt mem (readUint32At mem 0)))

end Frames

/-- Behind acceptable frames that declare 12 bytes or more, the buffer holds a short one. -/
inductive ReachesShort : CSimpleBuffer → Prop
  | here {b : CSimpleBuffer} (env : Env) (h : ShortFrame (env.mem b.buffer) b.writeOffset) : ReachesShort b
  | later {b : CSimpleBuffer} (env : Env) (h : LongFrame (env.mem b.buffer) b.writeOffset)
      (t : ReachesShort (b.read (readUint32At (env.mem b.buffer) 0)).2) : ReachesShort b

section Accepted
variable {env : Env} {buf : List UInt8} {len : UInt32}

theorem value_of_body (h12 : 12 ≤ len.toNat) (hle : (readUint32At (env.mem buf) 0).toNat ≤ len.toNat)
    {k : PduClass} (hk : classOf (readUint16At (env.mem buf) 4) (readUint16At (env.mem buf) 6) = some k)
    {bd : PduBody} (hbd : k.body env (env.mem buf) (readUint32At (env.mem buf) 0) = some bd) :
    (readPdu env buf len).value = .ok (some ⟨headerAt (env.mem buf), readUint32At (env.mem buf) 0, bd⟩) := by
  rw [readPdu_of_class env buf len h12 hle hk]
  simp only [declaredLen, hbd]
  rfl

/-- What a returned PDU says of the memory: a complete frame of a class that accepts it. -/
theorem body_of_value {pdu : CImPdu} (h : (readPdu env buf len).value = .ok (some pdu)) :
    12 ≤ len.toNat ∧ (readUint32At (env.mem buf) 0).toNat ≤ len.toNat ∧
      pdu.getLength = readUint32At (env.mem buf) 0 ∧
      ∃ k, classOf (readUint16At (env.mem buf) 4) (readUint16At (env.mem buf) 6) = some k ∧
        (k.body env (env.mem buf) (readUint32At (env.mem buf) 0)).isSome := by
  by_cases hinc : len.toNat < 12 ∨ len.toNat < (declaredLen env buf).toNat
  · rw [(readPdu_incomplete env buf len hinc).1] at h
    cases h
  · have h12 : 12 ≤ len.toNat := by omega
    have hle : (declaredLen env buf).toNat ≤ len.toNat := by omega
    cases hk : frameClass env buf with
    | none =>
      obtain ⟨ex, hex⟩ := readPdu_of_no_class env buf len h12 hle hk
      rw [hex] at h
      cases h
    | some k =>
      rw [readPdu_of_class env buf len h12 hle hk] at h
      cases hbd : k.body env (env.mem buf) (declaredLen env buf) with
      | none =>
        rw [hbd] at h
        cases h
      | some bd =>
        rw [hbd] at h
        cases h
        exact ⟨h12, hle, rfl, k, hk, Option.isSome_of_eq_some hbd⟩

theorem shortFrame_of_value {pdu : CImPdu} (h : (readPdu env buf len).value = .ok (some pdu))
    (hlt : pdu.getLength.toNat < 12) : ShortFrame (env.mem buf) len := by
  obtain ⟨h12, hle, hlen, k, hk, hsome⟩ := body_of_value h
  rw [hlen] at hlt
  exact ⟨h12, hle, hlt, k, hk, (PduClass.body_of_short hlt).mp hsome⟩

theorem longFrame_of_value {pdu : CImPdu} (h : (readPdu env buf len).value = .ok (some pdu))
    (hge : 12 ≤ pdu.getLength.toNat) : LongFrame (env.mem buf) len := by
  obtain ⟨h12, hle, hlen, k, hk, hsome⟩ := body_of_value h
  rw [hlen] at hge
  obtain ⟨bd, hbd⟩ := Option.isSome_iff_exists.mp hsome
  exact ⟨h12, hle, hge, k, hk, PduClass.shape_of_body hge hbd⟩

theorem value_of_shortFrame (h : ShortFrame (env.mem buf) len) :
    ∃ pdu, (readPdu env buf len).value = .ok (some pdu) ∧ pdu.getLength.toNat < 12 := by
  obtain ⟨h12, hle, hlt, k, hk, hshort⟩ := h
  obtain ⟨bd, hbd⟩ := Option.isSome_iff_exists.mp ((PduClass.body_of_short hlt).mpr hshort)
  exact ⟨_, value_of_body h12 hle hk hbd, hlt⟩

/-- A long frame is accepted for some value of the indeterminate bytes. -/
theorem value_of_longFrame (h : LongFrame (env.mem buf) len) :
    ∃ env' pdu, (readPdu env' buf len).value = .ok (some pdu) ∧
      pdu.getLength = readUint32At (env.mem buf) 0 := by
  obtain ⟨h12, hle, hge, k, hk, hshape⟩ := h
  obtain ⟨env', hmem, hsome⟩ : ∃ env' : Env, env'.mem buf = env.mem buf ∧
      (k.body env' (env.mem buf) (readUint32At (env.mem buf) 0)).isSome := by
    rcases hshape with hs | ht
    · by_cases hopt : k.OptionalBody ∧ (readUint32At (env.mem buf) 0).toNat = 12
      · obtain ⟨mk, -, -, hmk⟩ := PduClass.body_of_optional_empty hopt.2 hopt.1
        exact ⟨env, rfl, Option.isSome_of_eq_some (hmk env)⟩
      · have hbd : k.body env _ _ = _ := PduClass.body_of_shape hge hs fun ho => by
          by_contra hlt
          exact hopt ⟨ho, by omega⟩
        exact ⟨env, rfl, Option.isSome_of_eq_some hbd⟩
    · obtain ⟨uninit, hu⟩ := PduClass.body_of_truncated hge ht
      exact ⟨{ env with uninit := uninit }, rfl, hu env⟩
  obtain ⟨bd, hbd⟩ := Option.isSome_iff_exists.mp hsome
  rw [← hmem] at hle hk hbd ⊢
  exact ⟨env', _, value_of_body h12 hle hk hbd, rfl⟩

end Accepted

/-- A short frame behind long ones is returned. -/
theorem returns_of_reachesShort {b : CSimpleBuffer} (h : ReachesShort b) :
    ∃ pdu, Returns b pdu ∧ pdu.getLength.toNat < 12 := by
  induction h with
  | here env h =>
    obtain ⟨pdu, hpdu, hlt⟩ := value_of_shortFrame h
    exact ⟨pdu, .here env hpdu, hlt⟩
  | later env h _ ih =>
    obtain ⟨env', pdu, hpdu, hlen⟩ := value_of_longFrame h
    obtain ⟨next, hnext, hlt⟩ := ih
    exact ⟨next, .later env' hpdu (by rwa [hlen]), hlt⟩

/-- One iteration without a short frame: the PDU is long enough, and none is reached behind it. -/
theorem iteration_of_not_reachesShort {b : CSimpleBuffer} (hb : ¬ ReachesShort b) {env : Env} {pdu : CImPdu}
    (h : (readPdu env b.buffer b.writeOffset).value = .ok (some pdu)) :
    12 ≤ pdu.getLength.toNat ∧ pdu.getLength.toNat ≤ b.writeOffset.toNat ∧
      ¬ ReachesShort (b.read pdu.getLength).2 := by
  have hge : 12 ≤ pdu.getLength.toNat := by
    by_contra hlt
    exact hb (.here env (shortFrame_of_value h (Nat.lt_of_not_le hlt)))
  obtain ⟨-, hle, hlen, -⟩ := body_of_value h
  refine ⟨hge, by rwa [hlen], fun ht => hb (.later env (longFrame_of_value h hge) ?_)⟩
  rwa [← hlen]

theorem lengths_of_not_reachesShort {b : CSimpleBuffer} {pdu : CImPdu} (h : Returns b pdu)
    (hb : ¬ ReachesShort b) : 12 ≤ pdu.getLength.toNat := by
  induction h with
  | here env h => exact (iteration_of_not_reachesShort hb h).1
  | later env h _ ih => exact ih (iteration_of_not_reachesShort hb h).2.2

/-- The buffer shrinks in every iteration, so more fuel than it has bytes is enough. -/
theorem parseLoop_isSome {σ : Type} (handlePdu : HandlePdu σ) {fuel : Nat} {envs : Nat → Env} {state : σ}
    {b : CSimpleBuffer} (hb : ¬ ReachesShort b) (hfuel : b.writeOffset.toNat < fuel) :
    (parseLoop handlePdu fuel envs state b).isSome := by
  induction fuel generalizing envs state b with
  | zero => exact absurd hfuel (Nat.not_lt_zero _)
  | succ fuel ih =>
    unfold parseLoop
    cases hv : (readPdu (envs 0) b.buffer b.writeOffset).value with
    | error ex => rfl
    | ok v =>
      cases v with
      | none => rfl
      | some pdu =>
        obtain ⟨hge, hle, hnext⟩ := iteration_of_not_reachesShort hb hv
        refine ih hnext ?_
        rw [CSimpleBuffer.read_writeOffset b _ (UInt32.le_iff_toNat_le.mpr hle),
          UInt32.toNat_sub_of_le _ _ (UInt32.le_iff_toNat_le.mpr hle)]
        omega

/-- The loop is sound on exactly the buffers in which no short frame is reached. -/
theorem loopTerminates_iff (b : CSimpleBuffer) : LoopTerminates b ↔ ¬ ReachesShort b := by
  constructor
  · intro hl hs
    obtain ⟨pdu, hret, hlt⟩ := returns_of_reachesShort hs
    exact absurd (hl.lengths pdu hret) (Nat.not_le.mpr hlt)
  · intro hb
    exact ⟨fun pdu hret => lengths_of_not_reachesShort hret hb,
      fun σ handlePdu state envs => ⟨_, parseLoop_isSome handlePdu hb (Nat.lt_succ_self _)⟩⟩

/-- A buffer of which `ReadPdu` returns a PDU of length 0 is parsed forever. -/
theorem parseLoop_eq_none {σ : Type} (handlePdu : HandlePdu σ) {env : Env} {b : CSimpleBuffer} {pdu : CImPdu}
    (h : (readPdu env b.buffer b.writeOffset).value = .ok (some pdu)) (hread : (b.read pdu.getLength).2 = b)
    (fuel : Nat) (state : σ) : parseLoop handlePdu fuel (fun _ => env) state b = none := by
  induction fuel generalizing state with
  | zero => rfl
  | succ fuel ih =>
    unfold parseLoop
    simp only [h, hread]
    exact ih _

/-- A data message that declares length 0 and nests the length `2^32 - 16` keeps the loop busy forever. -/
theorem parseLoop_clientData :
    ¬ ∀ b : CSimpleBuffer, LoopTerminates b := by
  intro h
  let b : CSimpleBuffer := ⟨[0, 0, 0, 0, 0, 2, 0, 1, 0, 1, 0, 0, 255, 255, 255, 240], 16, 16⟩
  let env : Env := ⟨fun _ => 0, fun _ => 0, 0, 0⟩
  have hread : (b.read (readUint32At (env.mem b.buffer) 0)).2 = b := by decide
  have hbd : PduClass.body env (env.mem b.buffer) (readUint32At (env.mem b.buffer) 0) .clientData =
      some (.clientData 16 4294967280) := by decide
  have hv := value_of_body (show 12 ≤ b.writeOffset.toNat by decide) (by decide)
    (show classOf (readUint16At (env.mem b.buffer) 4) (readUint16At (env.mem b.buffer) 6) = _ by decide) hbd
  obtain ⟨fuel, hfuel⟩ := (h b).terminates Unit (fun _ _ _ => ()) () fun _ => env
  rw [parseLoop_eq_none _ hv hread] at hfuel
  cases hfuel

end PostfixEdm
