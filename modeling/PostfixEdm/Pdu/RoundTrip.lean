import PostfixEdm.Pdu.Encode
import PostfixEdm.Pdu.Grammar

/-!
# Decoding what was encoded

* `Starts` : a buffer that begins with a frame; `Starts.readPdu_of_body` : what `ReadPdu` makes of it;
* `OutPdu.Framed` : the messages whose encoder and decoder agree on the ids;
* `OutPdu.Carries` : a decoded body that stands for a message, strings included;
* `readPdu_encode` : `ReadPdu` undoes the encoding constructors, whatever follows the frame.
-/

namespace PostfixEdm
open BigEndian

/-! ## Frames at the front of a buffer -/

/-- The buffer begins with a frame of less than `2^31` bytes. -/
structure Starts (b : UcharBuf) (moduleId commandId : UInt16) (body : List UInt8) : Prop where
  prefix_bytes : ∃ suffix, b.bytes = frame moduleId commandId body ++ suffix
  size : 12 + body.length < 2 ^ 31

namespace Starts

variable {b : UcharBuf} {m c : UInt16} {body : List UInt8}

theorem le_length (h : Starts b m c body) : 12 + body.length ≤ b.bytes.length := by
  obtain ⟨suffix, hb⟩ := h.prefix_bytes
  rw [hb, List.length_append, length_frame]
  omega

/-- The header words of the buffer are the ones of the frame. -/
theorem headerAt_eq (h : Starts b m c body) (env : Env) :
    headerAt (env.mem b.bytes) = ⟨UInt32.ofNat (12 + body.length), m, c, pduVersion, 0⟩ := by
  have hle := h.le_length
  obtain ⟨suffix, hb⟩ := h.prefix_bytes
  have hword : ∀ i (x : UInt16), i + 2 ≤ 12 → (b.bytes.drop i).take 2 = be16 x →
      readUint16At (env.mem b.bytes) i = x := by
    intro i x hi hx
    rw [readUint16At_eq_iff, bytesAt_mem env (by omega), hx]
  have hlen : readUint32At (env.mem b.bytes) 0 = UInt32.ofNat (12 + body.length) := by
    rw [readUint32At_eq_iff, bytesAt_mem env (by omega), hb]
    rfl
  rw [headerAt, hlen, hword 4 m (by decide) (by rw [hb]; rfl), hword 6 c (by decide) (by rw [hb]; rfl),
    hword 8 pduVersion (by decide) (by rw [hb]; rfl), hword 10 0 (by decide) (by rw [hb]; rfl)]

theorem pduLen_eq (h : Starts b m c body) : b.pduLen = UInt32.ofNat (12 + body.length) := by
  have hle := h.le_length
  have := h.headerAt_eq ⟨fun _ => 0, fun _ => 0, 0, 0⟩
  rw [← UcharBuf.declaredLen_eq ⟨fun _ => 0, fun _ => 0, 0, 0⟩ (by omega)]
  exact congrArg PduHeader.length this

theorem toNat_pduLen (h : Starts b m c body) : b.pduLen.toNat = 12 + body.length := by
  have := h.size
  rw [h.pduLen_eq, UInt32.toNat_ofNat', Nat.mod_eq_of_lt (by omega)]

theorem pduClass_eq (h : Starts b m c body) : b.pduClass = classOf m c := by
  have hle := h.le_length
  have := h.headerAt_eq ⟨fun _ => 0, fun _ => 0, 0, 0⟩
  rw [← UcharBuf.frameClass_eq ⟨fun _ => 0, fun _ => 0, 0, 0⟩ (by omega)]
  exact congrArg₂ classOf (congrArg PduHeader.moduleId this) (congrArg PduHeader.commandId this)

theorem complete (h : Starts b m c body) : b.Complete := by
  have hle := h.le_length
  exact ⟨by omega, by rw [h.toNat_pduLen]; exact hle⟩

theorem bodyAt_eq (h : Starts b m c body) (env : Env) : bodyAt (env.mem b.bytes) b.pduLen = body := by
  obtain ⟨suffix, hb⟩ := h.prefix_bytes
  rw [UcharBuf.bodyAt_eq env (by rw [h.toNat_pduLen]; omega) h.complete, UcharBuf.body, h.toNat_pduLen, hb,
    Nat.add_sub_cancel_left]
  exact List.take_left

/-- A frame of a class is answered by what the constructor builds. -/
theorem readPdu_of_body (h : Starts b m c body) {k : PduClass} (hk : classOf m c = some k) {env : Env}
    {bd : PduBody} (hbd : k.body env (env.mem b.bytes) b.pduLen = some bd) :
    (b.readPdu env).value = .ok (some ⟨⟨UInt32.ofNat (12 + body.length), m, c, pduVersion, 0⟩,
      UInt32.ofNat (12 + body.length), bd⟩) := by
  rw [UcharBuf.readPdu_of_body env h.complete (h.pduClass_eq.trans hk) hbd, h.headerAt_eq, h.pduLen_eq]

end Starts

/-! ## Messages -/

namespace OutPdu

/-- The messages that are decoded by the class that encodes them. -/
def Framed : OutPdu → Prop
  | serverCommand c => IsServCommand c
  | allClientStatusInfo _ | clientDone _ => False
  | _ => True

/-- The class a message belongs to. -/
def pduClass : OutPdu → PduClass
  | serverCommand _ => .serverCommand
  | adjustRate _ _ => .adjustRate
  | clientData _ => .clientData
  | serverStatusRequest | serverStatusInfo _ => .serverStatusInfo
  | allClientStatusInfo _ => .allClientStatusInfo
  | emptyHeartbeat | heartbeat _ => .heartbeat
  | response _ _ => .response
  | regClientType _ => .regClientType
  | clientDone _ => .clientDone

/-- `GetPduType()` of the encoding side. -/
def pduType (m : OutPdu) : UInt16 :=
  match m.pduClass with
  | .serverCommand => 1
  | .adjustRate => 2
  | .clientData => (1 : UInt16) <<< 8 ||| 1
  | .serverStatusInfo => (1 : UInt16) <<< 8 ||| 2
  | .allClientStatusInfo => (1 : UInt16) <<< 8 ||| 3
  | .heartbeat => (2 : UInt16) <<< 8 ||| 1
  | .response => (2 : UInt16) <<< 8 ||| 2
  | .regClientType => (2 : UInt16) <<< 8 ||| 3
  | .clientDone => (2 : UInt16) <<< 8 ||| 4

/-- A pointer and a length that hold the string `s`. -/
def Holds (mem : Nat → UInt8) (v : Ptr × UInt32) (s : List UInt8) : Prop :=
  v.2.toNat = s.length ∧ ∃ i : Nat, v.1 = i ∧ bytesAt mem i s.length = s

/-- The decoded body stands for the message. -/
def Carries (mem : Nat → UInt8) : OutPdu → PduBody → Prop
  | serverCommand c, bd => bd = .serverCommand c
  | adjustRate d n, bd => bd = .adjustRate d n
  | clientData s, bd => ∃ p n, bd = .clientData p n ∧ Holds mem (p, n) s
  | serverStatusRequest, bd => ∃ p n, bd = .serverStatusInfo p n
  | serverStatusInfo s, bd => ∃ p n, bd = .serverStatusInfo p n ∧ Holds mem (p, n) s
  | emptyHeartbeat, bd => ∃ p n, bd = .heartbeat p n
  | heartbeat s, bd => ∃ p n, bd = .heartbeat p n ∧ Holds mem (p, n) s
  | response st s, bd => ∃ p n, bd = .response st p n ∧ Holds mem (p, n) s
  | regClientType t, bd => bd = .regClientType t
  | allClientStatusInfo _, _ | clientDone _, _ => False

theorem classOf_ids {m : OutPdu} (h : m.Framed) : classOf m.ids.1 m.ids.2 = some m.pduClass := by
  cases m with
  | serverCommand c => exact if_pos h
  | allClientStatusInfo _ | clientDone _ => exact h.elim
  | _ => rfl

theorem isString_lengthPrefixed {s : List UInt8} (h : s.length < 2 ^ 32) :
    IsString (CByteStreamOut.lengthPrefixed s) :=
  ⟨UInt32.ofNat s.length, s, by rw [UInt32.toNat_ofNat', Nat.mod_eq_of_lt h], rfl⟩

theorem shape_body {m : OutPdu} (hm : m.Encodable) (h : m.Framed) : m.pduClass.Shape m.body := by
  have hsize := hm.size
  have hstr : ∀ s : List UInt8, 12 + (CByteStreamOut.lengthPrefixed s).length < 2 ^ 31 →
      IsString (CByteStreamOut.lengthPrefixed s) := by
    intro s hs
    rw [CByteStreamOut.length_lengthPrefixed] at hs
    exact isString_lengthPrefixed (by omega)
  cases m with
  | serverCommand c | regClientType t => exact length_be16 _
  | adjustRate d n => rfl
  | clientData s => exact hstr s hsize
  | serverStatusInfo s | heartbeat s => exact Or.inr (hstr s hsize)
  | serverStatusRequest | emptyHeartbeat => exact Or.inl rfl
  | response st s =>
    refine ⟨st, _, hstr s ?_, rfl⟩
    simp only [body, List.length_append, length_be16] at hsize
    omega
  | allClientStatusInfo _ | clientDone _ => exact h.elim

/-- The string of a length-prefixed body is found behind its length. -/
theorem holds_of_bytesAt {mem : Nat → UInt8} {i : Nat} {s : List UInt8} {n : UInt32}
    (h : bytesAt mem i (4 + s.length) = CByteStreamOut.lengthPrefixed s) (hn : n.toNat = s.length) :
    Holds mem (((i + 4 : Nat) : Ptr), n) s := by
  rw [bytesAt_add] at h
  exact ⟨hn, i + 4, rfl, (List.append_inj h (by simp)).2⟩

theorem toNat_sub {len off : UInt32} {n : Nat} (h : len.toNat = off.toNat + n) : (len - off).toNat = n := by
  rw [UInt32.toNat_sub_of_le _ _ (UInt32.le_iff_toNat_le.mpr (by omega))]
  omega

/-- The members of a body that a message wrote stand for the message. -/
theorem carries_fields {mem : Nat → UInt8} {len : UInt32} {m : OutPdu} (h : m.Framed)
    (hlen : len.toNat = 12 + m.body.length) (hbody : bodyAt mem len = m.body)
    (hne : m ≠ serverStatusRequest ∧ m ≠ emptyHeartbeat) : m.Carries mem (m.pduClass.fields mem len) := by
  rw [bodyAt, hlen, Nat.add_sub_cancel_left] at hbody
  have hstr : ∀ s, m.body = CByteStreamOut.lengthPrefixed s → Holds mem (16, len - 16) s := by
    intro s hs
    rw [hs, CByteStreamOut.length_lengthPrefixed] at hbody hlen
    exact holds_of_bytesAt hbody (toNat_sub (show len.toNat = 16 + _ by omega))
  cases m with
  | serverCommand c => exact congrArg PduBody.serverCommand ((readUint16At_eq_iff mem 12 c).mpr hbody)
  | regClientType t => exact congrArg PduBody.regClientType ((readUint16At_eq_iff mem 12 t).mpr hbody)
  | adjustRate d n =>
    have hsplit : bytesAt mem 12 (2 + 2) = be16 d ++ be16 n := hbody
    rw [bytesAt_add] at hsplit
    obtain ⟨hd, hn⟩ := List.append_inj hsplit (by simp)
    exact congrArg₂ PduBody.adjustRate ((readUint16At_eq_iff mem 12 d).mpr hd)
      ((readUint16At_eq_iff mem 14 n).mpr hn)
  | clientData s => exact ⟨_, _, rfl, hstr s rfl⟩
  | serverStatusInfo s => exact ⟨_, _, rfl, hstr s rfl⟩
  | heartbeat s => exact ⟨_, _, rfl, hstr s rfl⟩
  | response st s =>
    simp only [body, List.length_append, length_be16, CByteStreamOut.length_lengthPrefixed] at hbody hlen
    rw [bytesAt_add] at hbody
    obtain ⟨hst, hs⟩ := List.append_inj hbody (by simp)
    refine ⟨18, len - 18, ?_, holds_of_bytesAt hs (toNat_sub (show len.toNat = 18 + _ by omega))⟩
    exact congrArg (PduBody.response · 18 (len - 18)) ((readUint16At_eq_iff mem 12 st).mpr hst)
  | serverStatusRequest => exact absurd rfl hne.1
  | emptyHeartbeat => exact absurd rfl hne.2
  | allClientStatusInfo _ | clientDone _ => exact h.elim

theorem pduType_of_carries {mem : Nat → UInt8} {m : OutPdu} {bd : PduBody} (h : m.Carries mem bd) :
    bd.pduType = m.pduType := by
  cases m with
  | serverCommand c | adjustRate d n | regClientType t =>
    obtain rfl := h
    rfl
  | clientData s | serverStatusInfo s | heartbeat s | response st s =>
    obtain ⟨p, n, rfl, -⟩ := h
    rfl
  | serverStatusRequest | emptyHeartbeat =>
    obtain ⟨p, n, rfl⟩ := h
    rfl
  | allClientStatusInfo _ | clientDone _ => exact h.elim

/-- The frame of a message at the front of a buffer. -/
theorem starts_encode (heap : Heap) {m : OutPdu} (hm : m.Encodable) {b : UcharBuf} {suffix : List UInt8}
    (hb : b.bytes = (m.encode heap).contents ++ suffix) : Starts b m.ids.1 m.ids.2 m.body :=
  ⟨⟨suffix, by rw [hb, (encode_contents heap hm).1]⟩, hm.size⟩

theorem exists_carries {m : OutPdu} (hm : m.Encodable) (h : m.Framed) {b : UcharBuf}
    (hs : Starts b m.ids.1 m.ids.2 m.body) (env : Env) :
    ∃ bd, m.pduClass.body env (env.mem b.bytes) b.pduLen = some bd ∧ m.Carries (env.mem b.bytes) bd := by
  have h12 : 12 ≤ b.pduLen.toNat := by
    rw [hs.toNat_pduLen]
    omega
  have hshape : m.pduClass.Shape (bodyAt (env.mem b.bytes) b.pduLen) := by
    rw [hs.bodyAt_eq env]
    exact shape_body hm h
  by_cases hne : m ≠ serverStatusRequest ∧ m ≠ emptyHeartbeat
  · refine ⟨_, PduClass.body_of_shape h12 hshape fun hopt => ?_,
      carries_fields h hs.toNat_pduLen (hs.bodyAt_eq env) hne⟩
    rw [hs.toNat_pduLen]
    cases m with
    | serverStatusRequest => exact absurd rfl hne.1
    | emptyHeartbeat => exact absurd rfl hne.2
    | serverStatusInfo s | heartbeat s =>
      simp only [body, CByteStreamOut.length_lengthPrefixed]
      omega
    | _ => rcases hopt with hk | hk <;> cases hk
  · -- an absent optional body: the view is as it was allocated
    have hlen := hs.toNat_pduLen
    cases m with
    | serverStatusRequest =>
      refine ⟨.serverStatusInfo env.jsonData env.jsonDataLen, ?_, _, _, rfl⟩
      simp only [body, List.length_nil] at hlen
      rw [pduClass, PduClass.body, PduClass.optStringBody, if_neg (by omega), if_pos (by omega)]
    | emptyHeartbeat =>
      refine ⟨.heartbeat env.jsonData env.jsonDataLen, ?_, _, _, rfl⟩
      simp only [body, List.length_nil] at hlen
      rw [pduClass, PduClass.body, PduClass.optStringBody, if_neg (by omega), if_pos (by omega)]
    | _ => exact absurd ⟨by rintro ⟨⟩, by rintro ⟨⟩⟩ hne

end OutPdu

/-- `ReadPdu` undoes the encoding constructors: header, length, class and payload, whatever follows. -/
theorem readPdu_encode (heap : Heap) (env : Env) {m : OutPdu} (hm : m.Encodable) (hf : m.Framed)
    {b : UcharBuf} {suffix : List UInt8} (hb : b.bytes = (m.encode heap).contents ++ suffix) :
    ∃ bd, (b.readPdu env).value = .ok (some ⟨⟨(m.encode heap).writeOffset, m.ids.1, m.ids.2, pduVersion, 0⟩,
        (m.encode heap).writeOffset, bd⟩) ∧
      bd.pduType = m.pduType ∧ m.Carries (env.mem b.bytes) bd := by
  have hs := OutPdu.starts_encode heap hm hb
  obtain ⟨bd, hbd, hcar⟩ := OutPdu.exists_carries hm hf hs env
  refine ⟨bd, ?_, OutPdu.pduType_of_carries hcar, hcar⟩
  rw [(OutPdu.encode_contents heap hm).2]
  exact hs.readPdu_of_body (OutPdu.classOf_ids hf) hbd

/-- A response of two characters, followed by two foreign bytes. -/
theorem readPdu_encode_response :
    let m : OutPdu := .response 7 [79, 75]
    let heap : Heap := fun _ _ => 0
    let env : Env := ⟨fun _ => 0, fun _ => 0, 0, 0⟩
    (m.encode heap).writeOffset = 20 ∧ ∃ b : UcharBuf, b.bytes = (m.encode heap).contents ++ [1, 2] ∧
      ∃ bd, (b.readPdu env).value = .ok (some ⟨⟨(m.encode heap).writeOffset, m.ids.1, m.ids.2, pduVersion, 0⟩,
          (m.encode heap).writeOffset, bd⟩) ∧
        bd.pduType = m.pduType ∧ m.Carries (env.mem b.bytes) bd := by
  intro m heap env
  let b : UcharBuf := ⟨(m.encode heap).contents ++ [1, 2], by decide⟩
  have hm : m.Encodable := ⟨by decide, by decide⟩
  exact ⟨by decide, b, rfl, readPdu_encode heap env hm trivial rfl⟩

end PostfixEdm
