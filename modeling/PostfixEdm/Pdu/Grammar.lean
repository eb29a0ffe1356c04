import PostfixEdm.Pdu.Accept

/-!
# The grammar of the frames, and what `ReadPdu` accepts beyond it

* `PduClass.Shape`, `PduClass.Grammar` : the bodies a class prescribes; `WellFormed` : a buffer that
  starts with a frame of the grammar;
* `PduClass.Truncated` : the shorter bodies that a constructor may take as well, because a read past the
  end fails in silence;
* `ShortFrame` : a declared length below 12 that a nested length makes acceptable;
* `parsesExactly_iff` : `ReadPdu` accepts exactly the grammar on a buffer, whatever the indeterminate
  bytes are, if and only if the buffer has none of these defects.
-/

namespace PostfixEdm
open BigEndian

/-! ## Bytes in memory -/

theorem bytesAt_mem (env : Env) {buf : List UInt8} {i n : Nat} (h : i + n ≤ buf.length) :
    bytesAt (env.mem buf) i n = (buf.drop i).take n :=
  bytesAt_getD env.beyond h

theorem readUint32At_eq_iff (mem : Nat → UInt8) (i : Nat) (x : UInt32) :
    readUint32At mem i = x ↔ bytesAt mem i 4 = be32 x := by
  rw [bytesAt_four]
  exact ofBe32_eq_iff _ _ _ _ x

theorem readUint16At_eq_iff (mem : Nat → UInt8) (i : Nat) (x : UInt16) :
    readUint16At mem i = x ↔ bytesAt mem i 2 = be16 x := by
  rw [bytesAt_two]
  exact ofBe16_eq_iff _ _ x

theorem readUint16At_congr {mem mem' : Nat → UInt8} {i p : Nat} (h : ∀ j < p, mem j = mem' j)
    (hp : i + 2 ≤ p) : readUint16At mem i = readUint16At mem' i := by
  rw [readUint16At, readUint16At, h i (by omega), h (i + 1) (by omega)]

theorem readUint32At_congr {mem mem' : Nat → UInt8} {i p : Nat} (h : ∀ j < p, mem j = mem' j)
    (hp : i + 4 ≤ p) : readUint32At mem i = readUint32At mem' i := by
  rw [readUint32At, readUint32At, h i (by omega), h (i + 1) (by omega), h (i + 2) (by omega),
    h (i + 3) (by omega)]

/-! ## The bodies -/

/-- A 32-bit length and exactly that many bytes. -/
def IsString (body : List UInt8) : Prop :=
  ∃ (len : UInt32) (str : List UInt8), str.length = len.toNat ∧ body = be32 len ++ str

namespace PduClass

/-- The bodies of a class, but for the command that a `CImPduServerCommand` repeats. -/
def Shape : PduClass → List UInt8 → Prop
  | serverCommand, body | regClientType, body => body.length = 2
  | adjustRate, body => body.length = 4
  | clientData, body => IsString body
  | serverStatusInfo, body | heartbeat, body => body = [] ∨ IsString body
  | response, body => ∃ (status : UInt16) (str : List UInt8), IsString str ∧ body = be16 status ++ str
  | allClientStatusInfo, body | clientDone, body => body = []

/-- The grammar: the body of a `CImPduServerCommand` is its command id. -/
def Grammar (k : PduClass) (commandId : UInt16) (body : List UInt8) : Prop :=
  k.Shape body ∧ (k = serverCommand → body = be16 commandId)

/-- Bodies too short for the grammar that the constructor takes, or may take. -/
def Truncated : PduClass → List UInt8 → Prop
  | serverCommand, body | regClientType, body => body = []
  | adjustRate, body => body.length = 0 ∨ body.length = 2
  | clientData, body => body.length < 4
  | serverStatusInfo, body | heartbeat, body => 0 < body.length ∧ body.length < 4
  | response, body => body.length < 6
  | allClientStatusInfo, _ | clientDone, _ => False

end PduClass

theorem isString_bytesAt (mem : Nat → UInt8) {i n : Nat} (hn : n < 2 ^ 32) :
    IsString (bytesAt mem i n) ↔ 4 ≤ n ∧ readUint32At mem i = UInt32.ofNat (n - 4) := by
  constructor
  · rintro ⟨len, str, hlen, hbody⟩
    have hn' := congrArg List.length hbody
    rw [length_bytesAt, List.length_append, length_be32] at hn'
    obtain ⟨m, rfl⟩ : ∃ m, n = 4 + m := ⟨_, hn'⟩
    rw [bytesAt_add] at hbody
    have h4 := (List.append_inj hbody (by simp)).1
    refine ⟨by omega, ((readUint32At_eq_iff mem i len).mpr h4).trans ?_⟩
    rw [← UInt32.toNat_inj, UInt32.toNat_ofNat', Nat.mod_eq_of_lt (by omega)]
    omega
  · rintro ⟨h4, hw⟩
    obtain ⟨m, rfl⟩ : ∃ m, n = 4 + m := ⟨_, (Nat.add_sub_cancel' h4).symm⟩
    refine ⟨UInt32.ofNat m, bytesAt mem (i + 4) m, ?_, ?_⟩
    · rw [length_bytesAt, UInt32.toNat_ofNat', Nat.mod_eq_of_lt (by omega)]
    · rw [bytesAt_add, (readUint32At_eq_iff mem i _).mp hw, Nat.add_sub_cancel_left]

/-! ## What the constructors build, by the shape of the body -/

theorem sub_eq_ofNat {len n : UInt32} (h : n.toNat ≤ len.toNat) :
    len - n = UInt32.ofNat (len.toNat - n.toNat) := by
  have := len.toNat_lt
  rw [← UInt32.toNat_inj, UInt32.toNat_sub_of_le _ _ (UInt32.le_iff_toNat_le.mpr h), UInt32.toNat_ofNat',
    Nat.mod_eq_of_lt (by omega)]

/-- The body of a frame in memory. -/
def bodyAt (mem : Nat → UInt8) (len : UInt32) : List UInt8 := bytesAt mem 12 (len.toNat - 12)

@[simp] theorem length_bodyAt (mem : Nat → UInt8) (len : UInt32) :
    (bodyAt mem len).length = len.toNat - 12 := length_bytesAt _ _ _

/-- A string body, as the constructor tests it. -/
theorem isString_bodyAt (mem : Nat → UInt8) {len : UInt32} (h12 : 12 ≤ len.toNat) :
    IsString (bodyAt mem len) ↔ 16 ≤ len.toNat ∧ readUint32At mem 12 = len - 16 := by
  have := len.toNat_lt
  rw [bodyAt, isString_bytesAt mem (by omega)]
  constructor
  · rintro ⟨h4, hw⟩
    rw [hw, sub_eq_ofNat (show (16 : UInt32).toNat ≤ _ by simp; omega)]
    exact ⟨by omega, congrArg _ (by simp; omega)⟩
  · rintro ⟨h16, hw⟩
    rw [hw, sub_eq_ofNat (show (16 : UInt32).toNat ≤ _ by simpa using h16)]
    exact ⟨by omega, congrArg _ (by simp; omega)⟩

theorem response_shape (mem : Nat → UInt8) {len : UInt32} (h12 : 12 ≤ len.toNat) :
    PduClass.response.Shape (bodyAt mem len) ↔ 18 ≤ len.toNat ∧ readUint32At mem 14 = len - 18 := by
  have := len.toNat_lt
  have key : 18 ≤ len.toNat → len - 18 = UInt32.ofNat (len.toNat - 14 - 4) := by
    intro h18
    rw [sub_eq_ofNat (show (18 : UInt32).toNat ≤ _ by simpa using h18)]
    exact congrArg _ (by simp; omega)
  constructor
  · rintro ⟨status, str, hstr, hbody⟩
    have hlen := congrArg List.length hbody
    rw [length_bodyAt, List.length_append, length_be16] at hlen
    have hsplit : bodyAt mem len = bytesAt mem 12 2 ++ bytesAt mem 14 (len.toNat - 14) := by
      rw [bodyAt, ← bytesAt_add]
      congr 1
      omega
    rw [hsplit] at hbody
    rw [← (List.append_inj hbody (by simp)).2, isString_bytesAt mem (by omega)] at hstr
    exact ⟨by omega, by rw [hstr.2, key (by omega)]⟩
  · rintro ⟨h18, hw⟩
    refine ⟨readUint16At mem 12, bytesAt mem 14 (len.toNat - 14), ?_, ?_⟩
    · rw [isString_bytesAt mem (by omega)]
      exact ⟨by omega, by rw [hw, key h18]⟩
    · rw [← (readUint16At_eq_iff mem 12 _).mp rfl, ← bytesAt_add, bodyAt]
      congr 1
      omega

namespace PduClass

/-- The members that a body of the class's shape determines. -/
def fields (mem : Nat → UInt8) (len : UInt32) : PduClass → PduBody
  | serverCommand => .serverCommand (readUint16At mem 12)
  | adjustRate => .adjustRate (readUint16At mem 12) (readUint16At mem 14)
  | clientData => .clientData 16 (len - 16)
  | serverStatusInfo => .serverStatusInfo 16 (len - 16)
  | allClientStatusInfo => .allClientStatusInfo
  | heartbeat => .heartbeat 16 (len - 16)
  | response => .response (readUint16At mem 12) 18 (len - 18)
  | regClientType => .regClientType (readUint16At mem 12)
  | clientDone => .clientDone

/-- The classes whose body is optional and whose constructor then leaves its members unset. -/
def OptionalBody (k : PduClass) : Prop := k = serverStatusInfo ∨ k = heartbeat

instance (k : PduClass) : Decidable k.OptionalBody := by unfold OptionalBody; infer_instance

variable {env : Env} {mem : Nat → UInt8} {len : UInt32} {k : PduClass}

theorem stringBody_of_isString (h12 : 12 ≤ len.toNat) (hs : IsString (bodyAt mem len))
    (mk : Ptr → UInt32 → PduBody) : stringBody env mem len mk = some (mk 16 (len - 16)) := by
  obtain ⟨h16, hw⟩ := (isString_bodyAt mem h12).mp hs
  rw [stringBody, if_neg (by omega), if_pos hw]

/-- A body of the class's shape is accepted, and its members are determined by its bytes. -/
theorem body_of_shape (h12 : 12 ≤ len.toNat) (hs : k.Shape (bodyAt mem len))
    (hne : k.OptionalBody → 12 < len.toNat) : k.body env mem len = some (k.fields mem len) := by
  have hopt : ∀ mk, bodyAt mem len = [] ∨ IsString (bodyAt mem len) → 12 < len.toNat →
      optStringBody env mem len mk = some (mk 16 (len - 16)) := by
    intro mk h hlt
    rw [optStringBody, if_pos hlt]
    refine stringBody_of_isString h12 (h.resolve_left fun he => ?_) mk
    have := congrArg List.length he
    rw [length_bodyAt, List.length_nil] at this
    omega
  cases k with
  | serverCommand | regClientType =>
    rw [Shape, length_bodyAt] at hs
    exact if_pos (by omega)
  | adjustRate =>
    rw [Shape, length_bodyAt] at hs
    exact if_pos (by omega)
  | clientData => exact stringBody_of_isString h12 hs _
  | serverStatusInfo => exact hopt _ hs (hne (Or.inl rfl))
  | heartbeat => exact hopt _ hs (hne (Or.inr rfl))
  | response =>
    obtain ⟨h18, hw⟩ := (response_shape mem h12).mp hs
    rw [body, responseBody, if_neg (by omega), if_neg (by omega), if_pos hw]
    rfl
  | allClientStatusInfo | clientDone =>
    have := congrArg List.length hs
    rw [length_bodyAt, List.length_nil] at this
    exact if_pos (by omega)

/-- An empty optional body is accepted, with the members as they were allocated. -/
theorem body_of_optional_empty (h12 : len.toNat = 12) (hk : k.OptionalBody) :
    ∃ mk : Ptr → UInt32 → PduBody, (∀ p n, (mk p n).scalars = [n]) ∧ (∀ p n, (mk p n).view = some (p, n)) ∧
      ∀ env, k.body env mem len = some (mk env.jsonData env.jsonDataLen) := by
  have hopt : ∀ env mk, optStringBody env mem len mk = some (mk env.jsonData env.jsonDataLen) := by
    intro env mk
    rw [optStringBody, if_neg (by omega), if_pos h12]
  rcases hk with rfl | rfl
  · exact ⟨.serverStatusInfo, fun _ _ => rfl, fun _ _ => rfl, fun env => hopt env _⟩
  · exact ⟨.heartbeat, fun _ _ => rfl, fun _ _ => rfl, fun env => hopt env _⟩

/-- What a constructor accepts at a declared length of 12 or more: its grammar or a truncated body. -/
theorem shape_of_body {bd : PduBody} (h12 : 12 ≤ len.toNat) (h : k.body env mem len = some bd) :
    k.Shape (bodyAt mem len) ∨ k.Truncated (bodyAt mem len) := by
  have hstr : ∀ mk, stringBody env mem len mk = some bd →
      IsString (bodyAt mem len) ∨ (bodyAt mem len).length < 4 := by
    intro mk h
    rw [isString_bodyAt mem h12, length_bodyAt]
    unfold stringBody at h
    split_ifs at h with h16 hw hw
    · exact Or.inr (by omega)
    · exact Or.inl ⟨by omega, hw⟩
  have hopt : ∀ mk, optStringBody env mem len mk = some bd →
      (bodyAt mem len = [] ∨ IsString (bodyAt mem len)) ∨
        (0 < (bodyAt mem len).length ∧ (bodyAt mem len).length < 4) := by
    intro mk h
    unfold optStringBody at h
    split_ifs at h with hlt h0
    · rcases hstr mk h with hs | hs
      · exact Or.inl (Or.inr hs)
      · exact Or.inr ⟨by rw [length_bodyAt]; omega, hs⟩
    · refine Or.inl (Or.inl (List.eq_nil_of_length_eq_zero ?_))
      rw [length_bodyAt]
      omega
  have hword : ∀ mk, wordBody env mem len mk = some bd →
      (bodyAt mem len).length = 2 ∨ bodyAt mem len = [] := by
    intro mk h
    rw [← List.length_eq_zero_iff, length_bodyAt]
    unfold wordBody at h
    split_ifs at h <;> omega
  have hempty : ∀ b, emptyBody len b = some bd → bodyAt mem len = [] := by
    intro b h
    rw [← List.length_eq_zero_iff, length_bodyAt]
    unfold emptyBody at h
    split_ifs at h
    omega
  cases k with
  | serverCommand | regClientType => exact hword _ h
  | adjustRate =>
    simp only [Shape, Truncated, length_bodyAt]
    unfold body rateBody at h
    split_ifs at h <;> omega
  | clientData => exact hstr _ h
  | serverStatusInfo | heartbeat => exact hopt _ h
  | response =>
    rw [response_shape mem h12, Truncated, length_bodyAt]
    unfold body responseBody at h
    split_ifs at h with h14 hw h18 hw hw
    · exact Or.inr (by omega)
    · exact Or.inr (by omega)
    · exact Or.inl ⟨by omega, hw⟩
  | allClientStatusInfo | clientDone => exact Or.inl (hempty _ h)

/-- Indeterminate bytes that happen to hold the word `x` from `off` on. -/
def uninitWord (off : Nat) (x : UInt32) (i : Nat) : UInt8 := (be32 x).getD (i - off) 0

theorem word32_uninitWord (env : Env) (off : Nat) (x : UInt32) :
    Env.word32 { env with uninit := uninitWord off x } off = x := by
  simp only [Env.word32, uninitWord, Nat.sub_self, Nat.add_sub_cancel_left]
  exact ofBe32_be32 x

/-- A truncated body is accepted for some value of the indeterminate bytes. -/
theorem body_of_truncated (h12 : 12 ≤ len.toNat) (h : k.Truncated (bodyAt mem len)) :
    ∃ uninit, ∀ env : Env, (k.body { env with uninit := uninit } mem len).isSome := by
  have hstr : 12 ≤ len.toNat ∧ len.toNat < 16 → ∀ (env : Env) (mk : Ptr → UInt32 → PduBody),
      (stringBody { env with uninit := uninitWord 0 (len - 12) } mem len mk).isSome := by
    intro h16 env mk
    rw [stringBody, if_pos h16, if_pos (word32_uninitWord env 0 _)]
    rfl
  cases k with
  | serverCommand | regClientType =>
    rw [Truncated, ← List.length_eq_zero_iff, length_bodyAt] at h
    refine ⟨fun _ => 0, fun env => ?_⟩
    rw [body, wordBody, if_neg (by omega), if_pos (by omega)]
    rfl
  | adjustRate =>
    rw [Truncated, length_bodyAt] at h
    refine ⟨fun _ => 0, fun env => ?_⟩
    rw [body, rateBody, if_neg (by omega)]
    split_ifs
    · rfl
    · rfl
    · omega
  | clientData =>
    rw [Truncated, length_bodyAt] at h
    exact ⟨_, fun env => hstr (by omega) env _⟩
  | serverStatusInfo | heartbeat =>
    rw [Truncated, length_bodyAt] at h
    refine ⟨uninitWord 0 (len - 12), fun env => ?_⟩
    rw [body, optStringBody, if_pos (by omega)]
    exact hstr (by omega) env _
  | response =>
    rw [Truncated, length_bodyAt] at h
    by_cases h14 : len.toNat < 14
    · refine ⟨uninitWord 2 (len - 12), fun env => ?_⟩
      rw [body, responseBody, if_pos (by omega), if_pos (word32_uninitWord env 2 _)]
      rfl
    · refine ⟨uninitWord 0 (len - 14), fun env => ?_⟩
      rw [body, responseBody, if_neg (by omega), if_pos (by omega), if_pos (word32_uninitWord env 0 _)]
      rfl
  | allClientStatusInfo | clientDone => exact h.elim

/-- The nested lengths that lead the wrapping position to a declared length below 12. -/
def ShortShape (mem : Nat → UInt8) (len : UInt32) : PduClass → Prop
  | clientData => readUint32At mem 12 = len - 16
  | response => readUint32At mem 14 = len - 18
  | _ => False

/-- What a constructor accepts at a declared length below 12. -/
theorem body_of_short (h12 : len.toNat < 12) : (k.body env mem len).isSome ↔ k.ShortShape mem len := by
  cases k with
  | serverCommand | regClientType =>
    rw [body, wordBody, if_neg (by omega), if_neg (by omega)]
    simp [ShortShape]
  | adjustRate =>
    rw [body, rateBody, if_neg (by omega), if_neg (by omega), if_neg (by omega)]
    simp [ShortShape]
  | clientData =>
    rw [body, stringBody, if_neg (by omega)]
    simp [ShortShape]
  | serverStatusInfo | heartbeat =>
    rw [body, optStringBody, if_neg (by omega), if_neg (by omega)]
    simp [ShortShape]
  | response =>
    rw [body, responseBody, if_neg (by omega), if_neg (by omega)]
    simp [ShortShape]
  | allClientStatusInfo | clientDone =>
    rw [body, emptyBody, if_neg (by omega)]
    simp [ShortShape]

/-- The members of a shaped body depend on the bytes of the frame alone. -/
theorem fields_congr {mem' : Nat → UInt8} (h12 : 12 ≤ len.toNat) (hs : k.Shape (bodyAt mem len))
    (h : ∀ j < len.toNat, mem j = mem' j) : k.fields mem len = k.fields mem' len := by
  cases k with
  | serverCommand | regClientType =>
    rw [Shape, length_bodyAt] at hs
    rw [fields, fields, readUint16At_congr h (show 12 + 2 ≤ _ by omega)]
  | adjustRate =>
    rw [Shape, length_bodyAt] at hs
    rw [fields, fields, readUint16At_congr h (show 12 + 2 ≤ _ by omega),
      readUint16At_congr h (show 14 + 2 ≤ _ by omega)]
  | response =>
    obtain ⟨h18, -⟩ := (response_shape mem h12).mp hs
    rw [fields, fields, readUint16At_congr h (show 12 + 2 ≤ _ by omega)]
  | clientData | serverStatusInfo | heartbeat | allClientStatusInfo | clientDone => rfl

end PduClass

/-! ## Buffers -/

/-- The arguments of `ReadPdu`: a pointer to `len` bytes. -/
structure UcharBuf where
  bytes : List UInt8
  size_lt : bytes.length < 2 ^ 32

namespace UcharBuf

def len (b : UcharBuf) : UInt32 := UInt32.ofNat b.bytes.length

@[simp] theorem toNat_len (b : UcharBuf) : b.len.toNat = b.bytes.length := by
  rw [len, UInt32.toNat_ofNat', Nat.mod_eq_of_lt b.size_lt]

def readPdu (env : Env) (b : UcharBuf) : ReadResult (Option CImPdu) := PostfixEdm.readPdu env b.bytes b.len

/-- The header words of a buffer, and its body, from its bytes alone. -/
def pduLen (b : UcharBuf) : UInt32 := readUint32At (fun i => b.bytes.getD i 0) 0

def moduleId (b : UcharBuf) : UInt16 := readUint16At (fun i => b.bytes.getD i 0) 4

def commandId (b : UcharBuf) : UInt16 := readUint16At (fun i => b.bytes.getD i 0) 6

def body (b : UcharBuf) : List UInt8 := (b.bytes.drop 12).take (b.pduLen.toNat - 12)

def pduClass (b : UcharBuf) : Option PduClass := classOf b.moduleId b.commandId

/-- The declared frame has arrived. -/
structure Complete (b : UcharBuf) : Prop where
  header : 12 ≤ b.bytes.length
  frame : b.pduLen.toNat ≤ b.bytes.length

/-- The buffer starts with a frame of the grammar. -/
structure WellFormed (b : UcharBuf) : Prop where
  twelve_le : 12 ≤ b.pduLen.toNat
  le_len : b.pduLen.toNat ≤ b.bytes.length
  grammar : ∃ k, b.pduClass = some k ∧ k.Grammar b.commandId b.body

theorem WellFormed.complete {b : UcharBuf} (h : b.WellFormed) : b.Complete :=
  ⟨h.twelve_le.trans h.le_len, h.le_len⟩

section
variable (env : Env) {b : UcharBuf}

theorem mem_eq {j : Nat} (h : j < b.bytes.length) : env.mem b.bytes j = b.bytes.getD j 0 := by
  rw [Env.mem, List.getD_eq_getElem _ _ h, List.getD_eq_getElem _ _ h]

theorem declaredLen_eq (h : 12 ≤ b.bytes.length) : declaredLen env b.bytes = b.pduLen :=
  readUint32At_congr (p := 12) (fun _ hj => mem_eq env (by omega)) (by decide)

theorem moduleId_eq (h : 12 ≤ b.bytes.length) : readUint16At (env.mem b.bytes) 4 = b.moduleId :=
  readUint16At_congr (p := 12) (fun _ hj => mem_eq env (by omega)) (by decide)

theorem commandId_eq (h : 12 ≤ b.bytes.length) : readUint16At (env.mem b.bytes) 6 = b.commandId :=
  readUint16At_congr (p := 12) (fun _ hj => mem_eq env (by omega)) (by decide)

theorem frameClass_eq (h : 12 ≤ b.bytes.length) : frameClass env b.bytes = b.pduClass := by
  rw [frameClass, moduleId_eq env h, commandId_eq env h, pduClass]

theorem bodyAt_eq (h12 : 12 ≤ b.pduLen.toNat) (h : b.Complete) :
    bodyAt (env.mem b.bytes) b.pduLen = b.body := by
  have := h.frame
  exact bytesAt_mem env (by omega)

/-! ### `ReadPdu` on a buffer -/

theorem readPdu_of_not_complete (h : ¬ b.Complete) : (b.readPdu env).value = .ok none := by
  refine (readPdu_incomplete env b.bytes b.len ?_).1
  rw [toNat_len]
  by_cases h12 : b.bytes.length < 12
  · exact Or.inl h12
  · rw [declaredLen_eq env (by omega)]
    exact Or.inr (Nat.lt_of_not_le fun hle => h ⟨by omega, hle⟩)

theorem readPdu_of_class (h : b.Complete) {k : PduClass} (hk : b.pduClass = some k) :
    (b.readPdu env).value =
      (accept (env.mem b.bytes) b.pduLen (k.body env (env.mem b.bytes) b.pduLen)).map some := by
  have h12 := h.header
  have hlen := declaredLen_eq env h12
  have hr := PostfixEdm.readPdu_of_class env b.bytes b.len (by rwa [toNat_len])
    (by rw [toNat_len, hlen]; exact h.frame) ((frameClass_eq env h12).trans hk)
  rw [readPdu, hr, hlen]

theorem readPdu_of_no_class (h : b.Complete) (hk : b.pduClass = none) :
    ∃ ex, (b.readPdu env).value = .error ex := by
  have h12 := h.header
  obtain ⟨ex, hex⟩ := PostfixEdm.readPdu_of_no_class env b.bytes b.len (by rwa [toNat_len])
    (by rw [toNat_len, declaredLen_eq env h12]; exact h.frame) ((frameClass_eq env h12).trans hk)
  exact ⟨ex, by rw [readPdu, hex]⟩

theorem readPdu_of_body (h : b.Complete) {k : PduClass} (hk : b.pduClass = some k) {bd : PduBody}
    (hbd : k.body env (env.mem b.bytes) b.pduLen = some bd) :
    (b.readPdu env).value = .ok (some ⟨headerAt (env.mem b.bytes), b.pduLen, bd⟩) := by
  rw [readPdu_of_class env h hk, hbd]
  rfl

theorem readPdu_of_body_none (h : b.Complete) {k : PduClass} (hk : b.pduClass = some k)
    (hbd : k.body env (env.mem b.bytes) b.pduLen = none) : ∃ ex, (b.readPdu env).value = .error ex := by
  rw [readPdu_of_class env h hk, hbd]
  exact ⟨_, rfl⟩

/-- A PDU is returned only for a complete frame of a class whose constructor accepts it. -/
theorem exists_body_of_readPdu {pdu : CImPdu} (h : (b.readPdu env).value = .ok (some pdu)) :
    b.Complete ∧ ∃ k bd, b.pduClass = some k ∧ k.body env (env.mem b.bytes) b.pduLen = some bd ∧
      pdu = ⟨headerAt (env.mem b.bytes), b.pduLen, bd⟩ := by
  by_cases hc : b.Complete
  · refine ⟨hc, ?_⟩
    cases hk : b.pduClass with
    | none =>
      obtain ⟨ex, hex⟩ := readPdu_of_no_class env hc hk
      rw [hex] at h
      cases h
    | some k =>
      cases hbd : k.body env (env.mem b.bytes) b.pduLen with
      | none =>
        obtain ⟨ex, hex⟩ := readPdu_of_body_none env hc hk hbd
        rw [hex] at h
        cases h
      | some bd =>
        rw [readPdu_of_body env hc hk hbd] at h
        cases h
        exact ⟨k, bd, rfl, hbd, rfl⟩
  · rw [readPdu_of_not_complete env hc] at h
    cases h

end

/-! ### Accepting exactly the grammar -/

/-- `ReadPdu` parses the grammar and nothing else, whatever the bytes it has not read are. -/
structure ParsesExactly (b : UcharBuf) : Prop where
  returns_iff : ∀ env, (∃ pdu, (b.readPdu env).value = .ok (some pdu)) ↔ b.WellFormed
  determined : ∀ (b' : UcharBuf) env env' pdu pdu',
    b'.bytes.take b.pduLen.toNat = b.bytes.take b.pduLen.toNat →
    (b.readPdu env).value = .ok (some pdu) → (b'.readPdu env').value = .ok (some pdu') →
    pdu'.scalars = pdu.scalars
  rejects : b.Complete → ¬ b.WellFormed → ∀ env, ∃ ex, (b.readPdu env).value = .error ex

/-- The complete frames on which the constructors and the grammar part: a declared length below 12 that
a nested length makes up for, a body that ends early, an optional body that is absent, or a command
that differs from the header's. -/
def Defect (b : UcharBuf) : Prop :=
  b.Complete ∧ ∃ k, b.pduClass = some k ∧
    ((b.pduLen.toNat < 12 ∧ ∃ env : Env, k.ShortShape (env.mem b.bytes) b.pduLen) ∨
      (12 ≤ b.pduLen.toNat ∧
        (k.Truncated b.body ∨ (k.OptionalBody ∧ b.body = []) ∨
          (k = .serverCommand ∧ b.body.length = 2 ∧ b.body ≠ be16 b.commandId))))

variable {b : UcharBuf}

theorem length_body (h : b.Complete) : b.body.length = b.pduLen.toNat - 12 := by
  have := h.header
  have := h.frame
  rw [body, List.length_take, List.length_drop]
  omega

theorem returns_of_body {env : Env} (h : b.Complete) {k : PduClass} (hk : b.pduClass = some k)
    (hbd : (k.body env (env.mem b.bytes) b.pduLen).isSome) :
    ∃ pdu, (b.readPdu env).value = .ok (some pdu) := by
  obtain ⟨bd, hbd⟩ := Option.isSome_iff_exists.mp hbd
  exact ⟨_, readPdu_of_body env h hk hbd⟩

theorem body_ne_nil (hd : ¬ b.Defect) (h : b.Complete) {k : PduClass} (hk : b.pduClass = some k)
    (h12 : 12 ≤ b.pduLen.toNat) (hopt : k.OptionalBody) : 12 < b.pduLen.toNat := by
  by_contra hlt
  refine hd ⟨h, k, hk, Or.inr ⟨h12, Or.inr (Or.inl ⟨hopt, List.eq_nil_of_length_eq_zero ?_⟩)⟩⟩
  rw [length_body h]
  omega

/-- Without a defect, what a constructor accepts is of the grammar. -/
theorem grammar_of_body (hd : ¬ b.Defect) (h : b.Complete) {k : PduClass} (hk : b.pduClass = some k)
    {env : Env} {bd : PduBody} (hbd : k.body env (env.mem b.bytes) b.pduLen = some bd) :
    12 ≤ b.pduLen.toNat ∧ k.Grammar b.commandId b.body := by
  have h12 : 12 ≤ b.pduLen.toNat := by
    by_contra hlt
    have hshort := (PduClass.body_of_short (Nat.lt_of_not_le hlt)).mp (Option.isSome_of_eq_some hbd)
    exact hd ⟨h, k, hk, Or.inl ⟨Nat.lt_of_not_le hlt, env, hshort⟩⟩
  refine ⟨h12, ?_⟩
  have hshape := PduClass.shape_of_body h12 hbd
  rw [bodyAt_eq env h12 h] at hshape
  rcases hshape with hshape | htrunc
  · refine ⟨hshape, ?_⟩
    rintro rfl
    by_contra hne
    exact hd ⟨h, _, hk, Or.inr ⟨h12, Or.inr (Or.inr ⟨rfl, hshape, hne⟩)⟩⟩
  · exact (hd ⟨h, k, hk, Or.inr ⟨h12, Or.inl htrunc⟩⟩).elim

/-- Without a defect, a frame of the grammar is accepted with the members its bytes determine. -/
theorem body_of_grammar (hd : ¬ b.Defect) (h : b.Complete) {k : PduClass} (hk : b.pduClass = some k)
    (h12 : 12 ≤ b.pduLen.toNat) (hg : k.Grammar b.commandId b.body) (env : Env) :
    k.body env (env.mem b.bytes) b.pduLen = some (k.fields (env.mem b.bytes) b.pduLen) := by
  refine PduClass.body_of_shape h12 ?_ (body_ne_nil hd h hk h12)
  rw [bodyAt_eq env h12 h]
  exact hg.1

/-- Two buffers that share a frame agree in memory on it. -/
theorem mem_agree {b' : UcharBuf} (env env' : Env) {p : Nat} (hp : p ≤ b.bytes.length)
    (h : b'.bytes.take p = b.bytes.take p) : ∀ j < p, env.mem b.bytes j = env'.mem b'.bytes j := by
  intro j hj
  have hlen := congrArg List.length h
  rw [List.length_take, List.length_take] at hlen
  have hget : (b'.bytes.take p).getD j 0 = (b.bytes.take p).getD j 0 := by rw [h]
  rw [mem_eq env (by omega), mem_eq env' (by omega)]
  rw [List.getD_eq_getElem _ _ (by rw [List.length_take]; omega),
    List.getD_eq_getElem _ _ (by rw [List.length_take]; omega), List.getElem_take, List.getElem_take] at hget
  rw [List.getD_eq_getElem _ _ (by omega), List.getD_eq_getElem _ _ (by omega), hget]

/-- What a buffer without a defect returns: the members that the bytes of its frame determine. -/
theorem returned_of_not_defect (hd : ¬ b.Defect) {env : Env} {pdu : CImPdu}
    (h : (b.readPdu env).value = .ok (some pdu)) :
    b.Complete ∧ 12 ≤ b.pduLen.toNat ∧ ∃ k, b.pduClass = some k ∧ k.Grammar b.commandId b.body ∧
      pdu = ⟨headerAt (env.mem b.bytes), b.pduLen, k.fields (env.mem b.bytes) b.pduLen⟩ := by
  obtain ⟨hc, k, bd, hk, hbd, rfl⟩ := exists_body_of_readPdu env h
  obtain ⟨h12, hg⟩ := grammar_of_body hd hc hk hbd
  rw [body_of_grammar hd hc hk h12 hg env, Option.some.injEq] at hbd
  exact ⟨hc, h12, k, hk, hg, by rw [hbd]⟩

theorem determined_of_not_defect (hd : ¬ b.Defect) {b' : UcharBuf} {env env' : Env} {pdu pdu' : CImPdu}
    (htake : b'.bytes.take b.pduLen.toNat = b.bytes.take b.pduLen.toNat)
    (h : (b.readPdu env).value = .ok (some pdu)) (h' : (b'.readPdu env').value = .ok (some pdu')) :
    pdu'.scalars = pdu.scalars := by
  obtain ⟨hc, h12, k, hk, hg, rfl⟩ := returned_of_not_defect hd h
  obtain ⟨hc', k', bd', hk', hbd', rfl⟩ := exists_body_of_readPdu env' h'
  have hagree := mem_agree env env' hc.frame htake
  have hlen : b'.pduLen = b.pduLen := by
    rw [← declaredLen_eq env' hc'.header, ← declaredLen_eq env hc.header]
    exact (readUint32At_congr hagree (by omega)).symm
  have hclass : b'.pduClass = b.pduClass := by
    rw [← frameClass_eq env' hc'.header, ← frameClass_eq env hc.header, frameClass, frameClass,
      readUint16At_congr hagree (show 4 + 2 ≤ _ by omega), readUint16At_congr hagree (show 6 + 2 ≤ _ by omega)]
  have hheader : headerAt (env'.mem b'.bytes) = headerAt (env.mem b.bytes) := by
    simp only [headerAt]
    rw [readUint32At_congr hagree (show 0 + 4 ≤ _ by omega), readUint16At_congr hagree (show 4 + 2 ≤ _ by omega),
      readUint16At_congr hagree (show 6 + 2 ≤ _ by omega), readUint16At_congr hagree (show 8 + 2 ≤ _ by omega),
      readUint16At_congr hagree (show 10 + 2 ≤ _ by omega)]
  obtain rfl : k' = k := Option.some.inj (hk'.symm.trans (hclass.trans hk))
  have hbody : bodyAt (env'.mem b'.bytes) b.pduLen = bodyAt (env.mem b.bytes) b.pduLen :=
    bytesAt_congr fun j hj => (hagree j (by omega)).symm
  have hshape : k'.Shape (bodyAt (env.mem b.bytes) b.pduLen) := by
    rw [bodyAt_eq env h12 hc]
    exact hg.1
  rw [hlen, PduClass.body_of_shape h12 (by rwa [hbody]) (body_ne_nil hd hc hk h12), Option.some.injEq] at hbd'
  rw [hheader, hlen, ← hbd', PduClass.fields_congr h12 hshape hagree]

theorem parsesExactly_of_not_defect (hd : ¬ b.Defect) : b.ParsesExactly where
  returns_iff env := by
    constructor
    · rintro ⟨pdu, h⟩
      obtain ⟨hc, h12, k, hk, hg, -⟩ := returned_of_not_defect hd h
      exact ⟨h12, hc.frame, k, hk, hg⟩
    · intro hw
      obtain ⟨k, hk, hg⟩ := hw.grammar
      exact ⟨_, readPdu_of_body env hw.complete hk
        (body_of_grammar hd hw.complete hk hw.twelve_le hg env)⟩
  determined _ _ _ _ _ htake h h' := determined_of_not_defect hd htake h h'
  rejects hc hw env := by
    cases hk : b.pduClass with
    | none => exact readPdu_of_no_class env hc hk
    | some k =>
      cases hbd : k.body env (env.mem b.bytes) b.pduLen with
      | none => exact readPdu_of_body_none env hc hk hbd
      | some bd =>
        obtain ⟨h12, hg⟩ := grammar_of_body hd hc hk hbd
        exact (hw ⟨h12, hc.frame, k, hk, hg⟩).elim

theorem not_truncated_of_shape {k : PduClass} {body : List UInt8} (h : k.Shape body) : ¬ k.Truncated body := by
  have hstr : ∀ {s : List UInt8}, IsString s → 4 ≤ s.length := by
    rintro s ⟨len, str, -, rfl⟩
    simp
  intro ht
  cases k with
  | serverCommand | regClientType =>
    rw [PduClass.Truncated] at ht
    rw [PduClass.Shape, ht] at h
    cases h
  | adjustRate =>
    simp only [PduClass.Shape, PduClass.Truncated] at h ht
    omega
  | clientData => exact absurd ht (Nat.not_lt.mpr (hstr h))
  | serverStatusInfo | heartbeat =>
    rcases h with rfl | hs
    · exact absurd ht.1 (Nat.lt_irrefl 0)
    · exact absurd ht.2 (Nat.not_lt.mpr (hstr hs))
  | response =>
    obtain ⟨status, str, hs, rfl⟩ := h
    have := hstr hs
    simp only [PduClass.Truncated, List.length_append, length_be16] at ht
    omega
  | allClientStatusInfo | clientDone => exact ht

/-- On a defect the parser accepts what the grammar rejects, or returns a member that no byte determines. -/
theorem not_parsesExactly_of_defect (hd : b.Defect) : ¬ b.ParsesExactly := by
  intro hp
  obtain ⟨hc, k, hk, ⟨hlt, env, hs⟩ | ⟨h12, ht | ⟨hopt, hnil⟩ | ⟨rfl, h2, hne⟩⟩⟩ := hd
  · have hw := (hp.returns_iff env).mp (returns_of_body hc hk ((PduClass.body_of_short hlt).mpr hs))
    exact absurd hw.twelve_le (Nat.not_le.mpr hlt)
  · let env₀ : Env := ⟨fun _ => 0, fun _ => 0, 0, 0⟩
    rw [← bodyAt_eq env₀ h12 hc] at ht
    obtain ⟨uninit, hsome⟩ := PduClass.body_of_truncated h12 ht
    obtain ⟨k', hk', hg⟩ := ((hp.returns_iff { env₀ with uninit := uninit }).mp
      (returns_of_body hc hk (hsome env₀))).grammar
    obtain rfl : k' = k := Option.some.inj (hk'.symm.trans hk)
    rw [bodyAt_eq env₀ h12 hc] at ht
    exact not_truncated_of_shape hg.1 ht
  · have hlen := length_body hc
    rw [hnil, List.length_nil] at hlen
    obtain ⟨mk, hscal, -, hmk⟩ := PduClass.body_of_optional_empty (show b.pduLen.toNat = 12 by omega) hopt
    let env₀ : Env := ⟨fun _ => 0, fun _ => 0, 0, 0⟩
    let env₁ : Env := ⟨fun _ => 0, fun _ => 0, 0, 1⟩
    have h := hp.determined b env₀ env₁ _ _ rfl (readPdu_of_body env₀ hc hk (hmk env₀))
      (readPdu_of_body env₁ hc hk (hmk env₁))
    have hs := congrArg (fun s => s.2.2.2) h
    simp only [CImPdu.scalars, hscal] at hs
    exact absurd hs (by decide)
  · let env₀ : Env := ⟨fun _ => 0, fun _ => 0, 0, 0⟩
    have hshape : PduClass.serverCommand.Shape (bodyAt (env₀.mem b.bytes) b.pduLen) := by
      rw [bodyAt_eq env₀ h12 hc]
      exact h2
    have hbd : PduClass.body env₀ _ b.pduLen .serverCommand = some _ :=
      PduClass.body_of_shape h12 hshape fun h => by rcases h with h | h <;> cases h
    obtain ⟨k', hk', hg⟩ := ((hp.returns_iff env₀).mp ⟨_, readPdu_of_body env₀ hc hk hbd⟩).grammar
    obtain rfl : k' = .serverCommand := Option.some.inj (hk'.symm.trans hk)
    exact hne (hg.2 rfl)

/-- `ReadPdu` accepts exactly the grammar if and only if the buffer has no defect. -/
theorem parsesExactly_iff (b : UcharBuf) : b.ParsesExactly ↔ ¬ b.Defect :=
  ⟨fun hp hd => not_parsesExactly_of_defect hd hp, parsesExactly_of_not_defect⟩

/-- A registration without its type is accepted, though the grammar asks for two bytes. -/
theorem not_parsesExactly_regClientType :
    ¬ ∀ b : UcharBuf, b.ParsesExactly := by
  intro h
  let b : UcharBuf := ⟨[0, 0, 0, 12, 0, 3, 0, 3, 0, 1, 0, 0], by decide⟩
  refine not_parsesExactly_of_defect (b := b) ⟨⟨by decide, by decide⟩, .regClientType, by decide, ?_⟩ (h b)
  exact Or.inr ⟨by decide, Or.inl (show b.body = [] by decide)⟩

end UcharBuf

end PostfixEdm
