import PostfixEdm.Pdu.Grammar

/-!
# Where `ReadPdu` reads and where its views point

* `StaysInside` : no read reaches the end of the buffer, and the view of a returned PDU lies in its body;
* `PduClass.bodyReads_inside`, `PduClass.body_view` : both hold of every constructor from a declared
  length of 12 on, absent optional bodies apart;
* `PduClass.shortReach` : how far a constructor reads when the declared length is below 12;
* `staysInside_iff` : the exact condition.
-/

namespace PostfixEdm

namespace PduClass

/-- The bytes a constructor reads, counted from the frame's start, if the declared length is below 12. -/
def shortReach : PduClass → Nat
  | serverCommand | regClientType => 14
  | adjustRate | clientData => 16
  | response => 18
  | serverStatusInfo | allClientStatusInfo | heartbeat | clientDone => 12

variable {env : Env} {mem : Nat → UInt8} {len : UInt32} {k : PduClass}

theorem readIf_inside {off n : Nat} (h12 : 12 ≤ len.toNat) : ∀ r ∈ readIf len off n, r.1 + r.2 ≤ len.toNat := by
  intro r hr
  unfold readIf at hr
  split_ifs at hr with h
  · cases hr
  · rw [List.mem_singleton.mp hr]
    omega

/-- From a declared length of 12 on, no constructor reads behind the frame. -/
theorem bodyReads_inside (h12 : 12 ≤ len.toNat) : ∀ r ∈ k.bodyReads len, r.1 + r.2 ≤ len.toNat := by
  intro r hr
  cases k with
  | serverCommand | regClientType | clientData => exact readIf_inside h12 r hr
  | adjustRate => exact (List.mem_append.mp hr).elim (readIf_inside h12 r) (readIf_inside h12 r)
  | serverStatusInfo | heartbeat =>
    simp only [bodyReads] at hr
    split at hr
    · exact readIf_inside h12 r hr
    · cases hr
  | response =>
    simp only [bodyReads] at hr
    split at hr
    · cases hr
    · exact (List.mem_append.mp hr).elim (readIf_inside h12 r) (readIf_inside h12 r)
  | allClientStatusInfo | clientDone => cases hr

theorem readIf_short_len {off n : Nat} (h12 : len.toNat < 12) : readIf len off n = [(off, n)] :=
  if_neg (by omega)

/-- Below 12, a constructor stays inside `n` bytes exactly when they are as many as it always reads. -/
theorem bodyReads_short (h12 : len.toNat < 12) {n : Nat} (hn : 12 ≤ n) :
    (∀ r ∈ k.bodyReads len, r.1 + r.2 ≤ n) ↔ k.shortReach ≤ n := by
  cases k with
  | serverCommand | regClientType | clientData =>
    simp [bodyReads, readIf_short_len h12, shortReach]
  | adjustRate =>
    simp only [bodyReads, readIf_short_len h12, shortReach, List.cons_append, List.nil_append, List.mem_cons,
      List.not_mem_nil, or_false, forall_eq_or_imp, forall_eq]
    omega
  | serverStatusInfo | heartbeat =>
    simp only [bodyReads, shortReach, if_neg (show ¬ 12 < len.toNat by omega)]
    simpa using hn
  | response =>
    rw [bodyReads, if_neg (by omega), readIf_short_len h12, readIf_short_len h12]
    simp only [shortReach, List.cons_append, List.nil_append, List.mem_cons, List.not_mem_nil, or_false,
      forall_eq_or_imp, forall_eq]
    omega
  | allClientStatusInfo | clientDone => simpa [bodyReads, shortReach] using hn

/-- The view of a PDU lies between its header and its declared end. -/
def ViewInside (len : UInt32) (bd : PduBody) : Prop :=
  ∀ v, bd.view = some v → 12 ≤ v.1 ∧ v.1 + v.2.toNat ≤ len.toNat

theorem viewInside_at (off : UInt32) {n : UInt32} {p : Int} (hp : p = off.toNat) (h12 : 12 ≤ off.toNat)
    (hoff : off.toNat ≤ len.toNat) (hn : n = len - off) : 12 ≤ p ∧ p + n.toNat ≤ len.toNat := by
  rw [hp, hn, UInt32.toNat_sub_of_le _ _ (UInt32.le_iff_toNat_le.mpr hoff)]
  omega

theorem stringBody_view {mk : Ptr → UInt32 → PduBody} {bd : PduBody}
    (hmk : ∀ p n, (mk p n).view = some (p, n)) (h12 : 12 ≤ len.toNat)
    (h : stringBody env mem len mk = some bd) : ViewInside len bd := by
  intro v hv
  unfold stringBody at h
  split_ifs at h with h16 hw hw
  · cases h
    cases (hmk _ _).symm.trans hv
    exact viewInside_at 12 rfl (by decide) (show 12 ≤ _ from h12) rfl
  · cases h
    cases (hmk _ _).symm.trans hv
    exact viewInside_at 16 rfl (by decide) (show 16 ≤ _ by omega) rfl

theorem optStringBody_view {mk : Ptr → UInt32 → PduBody} {bd : PduBody}
    (hmk : ∀ p n, (mk p n).view = some (p, n)) (h12 : 12 < len.toNat)
    (h : optStringBody env mem len mk = some bd) : ViewInside len bd := by
  rw [optStringBody, if_pos h12] at h
  exact stringBody_view hmk h12.le h

theorem responseBody_view {bd : PduBody} (h12 : 12 ≤ len.toNat) (h : responseBody env mem len = some bd) :
    ViewInside len bd := by
  intro v hv
  unfold responseBody at h
  split_ifs at h with h14 hw h18 hw hw
  · cases h
    cases hv
    exact viewInside_at 12 rfl (by decide) (show 12 ≤ _ from h12) rfl
  · cases h
    cases hv
    exact viewInside_at 14 rfl (by decide) (show 14 ≤ _ by omega) rfl
  · cases h
    cases hv
    exact viewInside_at 18 rfl (by decide) (show 18 ≤ _ by omega) rfl

/-- From a declared length of 12 on, the view of a PDU that has a body lies in it. -/
theorem body_view {bd : PduBody} (h12 : 12 ≤ len.toNat) (hne : k.OptionalBody → 12 < len.toNat)
    (h : k.body env mem len = some bd) : ViewInside len bd := by
  cases k with
  | clientData => exact stringBody_view (fun _ _ => rfl) h12 h
  | serverStatusInfo => exact optStringBody_view (fun _ _ => rfl) (hne (Or.inl rfl)) h
  | heartbeat => exact optStringBody_view (fun _ _ => rfl) (hne (Or.inr rfl)) h
  | response => exact responseBody_view h12 h
  | serverCommand | regClientType | adjustRate | allClientStatusInfo | clientDone =>
    intro v hv
    simp only [body, wordBody, rateBody, emptyBody] at h
    split_ifs at h <;> cases h <;> cases hv

/-- Below 12, the view of an accepted PDU starts behind its declared end. -/
theorem body_view_short {bd : PduBody} (h12 : len.toNat < 12) (h : k.body env mem len = some bd) :
    ¬ ViewInside len bd := by
  intro hv
  have hs := (body_of_short h12).mp (Option.isSome_of_eq_some h)
  cases k with
  | clientData =>
    rw [body, stringBody, if_neg (by omega),
      if_pos (show readUint32At mem 12 = len - 16 from hs)] at h
    cases h
    have : (16 : Int) + (len - 16).toNat ≤ len.toNat := (hv _ rfl).2
    omega
  | response =>
    rw [body, responseBody, if_neg (by omega), if_neg (by omega),
      if_pos (show readUint32At mem 14 = len - 18 from hs)] at h
    cases h
    have : (18 : Int) + (len - 18).toNat ≤ len.toNat := (hv _ rfl).2
    omega
  | serverCommand | regClientType | adjustRate | serverStatusInfo | heartbeat | allClientStatusInfo | clientDone =>
    exact hs

end PduClass

namespace UcharBuf

/-- `ReadPdu` reads inside the buffer, and what it returns points inside the frame's body. -/
structure StaysInside (b : UcharBuf) : Prop where
  reads : ∀ env, ∀ r ∈ (b.readPdu env).reads, r.1 + r.2 ≤ b.bytes.length
  view : ∀ env pdu, (b.readPdu env).value = .ok (some pdu) → PduClass.ViewInside b.pduLen pdu.body

/-- The complete frames that lead outside: a declared length below 12 in a buffer shorter than what the
constructor then reads, or with a nested length that makes it acceptable; an absent optional body. -/
def OutOfBounds (b : UcharBuf) : Prop :=
  b.Complete ∧ ∃ k, b.pduClass = some k ∧
    ((b.pduLen.toNat < 12 ∧
        (b.bytes.length < k.shortReach ∨ ∃ env : Env, k.ShortShape (env.mem b.bytes) b.pduLen)) ∨
      (b.pduLen.toNat = 12 ∧ k.OptionalBody))

section
variable (env : Env) {b : UcharBuf}

theorem headerReads_inside (h : 12 ≤ b.bytes.length) {r : Nat × Nat}
    (hr : r ∈ [(0, 4), (4, 2), (6, 2)] ++ headerReads) : r.1 + r.2 ≤ b.bytes.length := by
  have : ∀ r ∈ [(0, 4), (4, 2), (6, 2)] ++ headerReads, r.1 + r.2 ≤ 12 := by decide
  exact (this r hr).trans h

theorem reads_of_not_complete (h : ¬ b.Complete) : ∀ r ∈ (b.readPdu env).reads, r.1 + r.2 ≤ b.bytes.length := by
  intro r hr
  have hinc := (readPdu_incomplete env b.bytes b.len (by
    rw [toNat_len]
    by_cases h12 : b.bytes.length < 12
    · exact Or.inl h12
    · rw [declaredLen_eq env (by omega)]
      exact Or.inr (Nat.lt_of_not_le fun hle => h ⟨by omega, hle⟩))).2 r hr
  rw [toNat_len] at hinc
  rw [hinc.1]
  exact (by decide : 0 + 4 ≤ 12).trans hinc.2

theorem reads_of_class (h : b.Complete) {k : PduClass} (hk : b.pduClass = some k) :
    (b.readPdu env).reads = ([(0, 4), (4, 2), (6, 2)] ++ headerReads) ++ k.bodyReads b.pduLen := by
  have h12 := h.header
  have hlen := declaredLen_eq env h12
  have hr := PostfixEdm.readPdu_of_class env b.bytes b.len (by rwa [toNat_len])
    (by rw [toNat_len, hlen]; exact h.frame) ((frameClass_eq env h12).trans hk)
  rw [readPdu, hr, hlen, List.append_assoc]

theorem reads_of_no_class (h : b.Complete) (hk : b.pduClass = none) :
    (b.readPdu env).reads = [(0, 4), (4, 2), (6, 2)] := by
  have h12 := h.header
  obtain ⟨ex, hex⟩ := PostfixEdm.readPdu_of_no_class env b.bytes b.len (by rwa [toNat_len])
    (by rw [toNat_len, declaredLen_eq env h12]; exact h.frame) ((frameClass_eq env h12).trans hk)
  rw [readPdu, hex]

end

variable {b : UcharBuf}

theorem reads_of_not_outOfBounds (hb : ¬ b.OutOfBounds) (env : Env) :
    ∀ r ∈ (b.readPdu env).reads, r.1 + r.2 ≤ b.bytes.length := by
  by_cases hc : b.Complete
  · intro r hr
    cases hk : b.pduClass with
    | none =>
      rw [reads_of_no_class env hc hk] at hr
      exact headerReads_inside hc.header (List.mem_append_left _ hr)
    | some k =>
      rw [reads_of_class env hc hk] at hr
      rcases List.mem_append.mp hr with hr | hr
      · exact headerReads_inside hc.header hr
      · by_cases h12 : 12 ≤ b.pduLen.toNat
        · exact (PduClass.bodyReads_inside h12 r hr).trans hc.frame
        · refine (PduClass.bodyReads_short (Nat.lt_of_not_le h12) hc.header).mpr ?_ r hr
          by_contra hreach
          exact hb ⟨hc, k, hk, Or.inl ⟨Nat.lt_of_not_le h12, Or.inl (Nat.lt_of_not_le hreach)⟩⟩
  · exact reads_of_not_complete env hc

theorem view_of_not_outOfBounds (hb : ¬ b.OutOfBounds) {env : Env} {pdu : CImPdu}
    (h : (b.readPdu env).value = .ok (some pdu)) : PduClass.ViewInside b.pduLen pdu.body := by
  obtain ⟨hc, k, bd, hk, hbd, rfl⟩ := exists_body_of_readPdu env h
  have h12 : 12 ≤ b.pduLen.toNat := by
    by_contra hlt
    have hs := (PduClass.body_of_short (Nat.lt_of_not_le hlt)).mp (Option.isSome_of_eq_some hbd)
    exact hb ⟨hc, k, hk, Or.inl ⟨Nat.lt_of_not_le hlt, Or.inr ⟨env, hs⟩⟩⟩
  refine PduClass.body_view h12 (fun hopt => ?_) hbd
  by_contra hlt
  exact hb ⟨hc, k, hk, Or.inr ⟨by omega, hopt⟩⟩

/-- Out of bounds, some value of the bytes behind the buffer and of the unset members shows it. -/
theorem not_staysInside_of_outOfBounds (hb : b.OutOfBounds) : ¬ b.StaysInside := by
  intro hs
  let env₀ : Env := ⟨fun _ => 0, fun _ => 0, 0, 0⟩
  obtain ⟨hc, k, hk, ⟨hlt, hreach | ⟨env, hshort⟩⟩ | ⟨h12, hopt⟩⟩ := hb
  · have hr := hs.reads env₀
    rw [reads_of_class env₀ hc hk] at hr
    have hin := (PduClass.bodyReads_short hlt hc.header).mp fun r hr' => hr r (List.mem_append_right _ hr')
    omega
  · obtain ⟨bd, hbd⟩ := Option.isSome_iff_exists.mp ((PduClass.body_of_short hlt).mpr hshort)
    exact PduClass.body_view_short hlt hbd (hs.view env _ (readPdu_of_body env hc hk hbd))
  · obtain ⟨mk, -, hview, hmk⟩ := PduClass.body_of_optional_empty h12 hopt
    have h0 := (hs.view env₀ _ (readPdu_of_body env₀ hc hk (hmk env₀)) _ (hview _ _)).1
    exact absurd h0 (by decide)

/-- `ReadPdu` and its views stay inside if and only if the buffer is none of these. -/
theorem staysInside_iff (b : UcharBuf) : b.StaysInside ↔ ¬ b.OutOfBounds :=
  ⟨fun hs hb => not_staysInside_of_outOfBounds hb hs,
    fun hb => ⟨reads_of_not_outOfBounds hb, fun _ _ h => view_of_not_outOfBounds hb h⟩⟩

/-- A data message that declares length 0 and nests the length `2^32 - 16`: the view is 4 GiB long. -/
theorem not_staysInside_clientData : ¬ ∀ b : UcharBuf, b.StaysInside := by
  intro h
  let b : UcharBuf := ⟨[0, 0, 0, 0, 0, 2, 0, 1, 0, 1, 0, 0, 255, 255, 255, 240], by decide⟩
  refine not_staysInside_of_outOfBounds (b := b) ⟨⟨by decide, by decide⟩, .clientData, by decide, ?_⟩ (h b)
  exact Or.inl ⟨by decide, Or.inr ⟨⟨fun _ => 0, fun _ => 0, 0, 0⟩,
    show readUint32At _ 12 = b.pduLen - 16 by decide⟩⟩

end UcharBuf

end PostfixEdm
