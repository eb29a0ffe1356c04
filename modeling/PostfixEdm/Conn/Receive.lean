import PostfixEdm.Pdu.RoundTrip

/-!
# Messages between two connections

`OnRead` hands every message over once and in order, so a link carries messages. `receive` is what the
receiver's `ReadPdu` makes of one: `receive_framed` for the messages that their own class decodes,
`receive_clientDone` for the report that another class decodes.
-/

namespace PostfixEdm

/-- The PDU of a message that has arrived, and the memory it points into; `none` is an exception. -/
def receive (heap : Heap) (env : Env) (m : OutPdu) : Option (CImPdu × (Nat → UInt8)) :=
  match (readPdu env (m.encode heap).contents (m.encode heap).writeOffset).value with
  | .ok (some pdu) => some (pdu, env.mem (m.encode heap).contents)
  | _ => none

/-- The string behind a pointer and a length. -/
def viewString (mem : Nat → UInt8) (p : Ptr) (n : UInt32) : List UInt8 := bytesAt mem p.toNat n.toNat

theorem viewString_of_holds {mem : Nat → UInt8} {p : Ptr} {n : UInt32} {s : List UInt8}
    (h : OutPdu.Holds mem (p, n) s) : viewString mem p n = s := by
  obtain ⟨hn, i, hp, hs⟩ := h
  dsimp only at hn hp
  rw [viewString, hn, hp]
  exact hs

variable (heap : Heap) (env : Env) {m : OutPdu}

/-- The encoding of a message as the argument of `ReadPdu`. -/
theorem exists_ucharBuf (hm : m.Encodable) : ∃ b : UcharBuf, b.bytes = (m.encode heap).contents ∧
    Starts b m.ids.1 m.ids.2 m.body ∧
    readPdu env (m.encode heap).contents (m.encode heap).writeOffset = b.readPdu env := by
  obtain ⟨hcont, hoff⟩ := OutPdu.encode_contents heap hm
  have hlen : (m.encode heap).contents.length = 12 + m.body.length := by rw [hcont, length_frame]
  have hsize := hm.size
  refine ⟨⟨(m.encode heap).contents, by omega⟩, rfl, ?_, ?_⟩
  · exact OutPdu.starts_encode heap hm (List.append_nil _).symm
  · have hlen' : (m.encode heap).writeOffset = UInt32.ofNat (m.encode heap).contents.length := by
      rw [hoff, hlen]
    exact congrArg (readPdu env _) hlen'

theorem receive_framed (hm : m.Encodable) (hf : m.Framed) :
    ∃ pdu mem, receive heap env m = some (pdu, mem) ∧ m.Carries mem pdu.body := by
  obtain ⟨b, hb, hs, hread⟩ := exists_ucharBuf heap env hm
  obtain ⟨bd, hbd, hcar⟩ := OutPdu.exists_carries hm hf hs env
  have hval := hs.readPdu_of_body (OutPdu.classOf_ids hf) hbd
  rw [← hread] at hval
  rw [hb] at hcar
  refine ⟨⟨⟨UInt32.ofNat (12 + m.body.length), m.ids.1, m.ids.2, pduVersion, 0⟩,
    UInt32.ofNat (12 + m.body.length), bd⟩, _, ?_, hcar⟩
  rw [receive, hval]

theorem encodable_clientDone (t : UInt16) : (OutPdu.clientDone t).Encodable :=
  ⟨show 12 + 0 < 2 ^ 31 by decide, fun _ h => by cases h⟩

/-- A completion report arrives as a registration, for a type that nobody sent. -/
theorem receive_clientDone (t : UInt16) :
    ∃ pdu mem, receive heap env (.clientDone t) = some (pdu, mem) ∧
      pdu.body = .regClientType (env.word16 0) := by
  obtain ⟨b, -, hs, hread⟩ := exists_ucharBuf heap env (encodable_clientDone t)
  have hlen : b.pduLen.toNat = 12 := hs.toNat_pduLen
  have hbd : PduClass.body env (env.mem b.bytes) b.pduLen .regClientType =
      some (.regClientType (env.word16 0)) := by
    rw [PduClass.body, PduClass.wordBody, if_neg (by omega), if_pos hlen]
  have hval := hs.readPdu_of_body rfl hbd
  rw [← hread] at hval
  refine ⟨⟨⟨UInt32.ofNat 12, sidOther, cidOtherRegClientType, pduVersion, 0⟩, UInt32.ofNat 12,
    .regClientType (env.word16 0)⟩, env.mem ((OutPdu.clientDone t).encode heap).contents, ?_, rfl⟩
  rw [receive, hval]
  rfl

end PostfixEdm
