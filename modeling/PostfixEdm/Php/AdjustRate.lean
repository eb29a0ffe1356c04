import PostfixEdm.Client.ClientConn
import PostfixEdm.Php.EdmController
import PostfixEdm.Server.ServConn

/-!
# A change of the rate, from the page to the clients

* `AdjustRate.Applied` : an answer of status 0 means that the server, and every client that handles its broadcast, has
  the posted numbers;
* `AdjustRate.applied_iff` : it does for the numbers of 16 bits. Nothing refuses the others.
-/

namespace PostfixEdm.AdjustRate
open EdmController

/-- The rates of a job are these numbers. -/
def Posted (job : Job) (delay multi : Int) : Prop := (job.delay.toNat : Int) = delay ∧ (job.multi.toNat : Int) = multi

instance (job : Job) (delay multi : Int) : Decidable (Posted job delay multi) := inferInstanceAs (Decidable (_ ∧ _))

/-- What `actionAdjustRate` sends is read and handled by the server; if the answer is of status 0, the rates are the
posted ones there and at each client that reads and handles something of the broadcast. -/
def Applied (delay multi : Int) : Prop :=
  ∀ (env : Env) (bytes : List UInt8) (pdu : CImPdu) (look : Lookup) (mgr : Manager) (clientType : UInt16)
    (message : List UInt8),
    actionAdjustRate delay multi = some bytes →
    (readPdu env bytes (UInt32.ofNat bytes.length)).value = .ok (some pdu) →
    .response 0 message ∈ (ServConn.handlePdu look mgr clientType pdu).replies →
    Posted (ServConn.handlePdu look mgr clientType pdu).manager.job delay multi ∧
      ∀ m ∈ (ServConn.handlePdu look mgr clientType pdu).broadcast,
        ∀ (heap : Heap) (env : Env) (pdu : CImPdu) (mem : Nat → UInt8) (parse : JsonReader) (worker : Job),
          receive heap env m = some (pdu, mem) → Posted (ClientConn.handlePdu parse mem pdu worker) delay multi

variable {delay multi : Int}

theorem posted_iff {job : Job} (hdelay : job.delay = UInt16.ofInt delay) (hmulti : job.multi = UInt16.ofInt multi) :
    Posted job delay multi ↔ (0 ≤ delay ∧ delay < 65536) ∧ (0 ≤ multi ∧ multi < 65536) := by
  have hword : ∀ x : Int, ((UInt16.ofInt x).toNat : Int) = x ↔ 0 ≤ x ∧ x < 65536 := by
    intro x
    rw [UInt16.ofInt, UInt16.toNat_ofNat']
    omega
  rw [Posted, hdelay, hmulti, hword, hword]

theorem encodable_adjustRate (d n : UInt16) : (OutPdu.adjustRate d n).Encodable :=
  ⟨show 12 + 4 < 2 ^ 31 by decide, fun _ h => by cases h⟩

/-- A decoded change of the rate has the rates in it. -/
theorem receive_adjustRate (heap : Heap) (env : Env) (d n : UInt16) :
    ∃ pdu mem, receive heap env (.adjustRate d n) = some (pdu, mem) ∧ pdu.body = .adjustRate d n :=
  receive_framed heap env (encodable_adjustRate d n) trivial

/-- The server reads what is sent as the rates modulo `2^16`. -/
theorem readPdu_actionAdjustRate (env : Env) (delay multi : Int) :
    ∃ bytes pdu, actionAdjustRate delay multi = some bytes ∧
      (readPdu env bytes (UInt32.ofNat bytes.length)).value = .ok (some pdu) ∧
      pdu.body = .adjustRate (UInt16.ofInt delay) (UInt16.ofInt multi) := by
  let heap : Heap := fun _ _ => 0
  let m : OutPdu := .adjustRate (UInt16.ofInt delay) (UInt16.ofInt multi)
  obtain ⟨pdu, mem, hreceive, hbody⟩ := receive_adjustRate heap env (UInt16.ofInt delay) (UInt16.ofInt multi)
  obtain ⟨hcontents, hoffset⟩ := OutPdu.encode_contents heap (encodable_adjustRate _ _ : m.Encodable)
  refine ⟨(m.encode heap).contents, pdu, actionAdjustRate_eq heap delay multi, ?_, hbody⟩
  have hlen : UInt32.ofNat (m.encode heap).contents.length = (m.encode heap).writeOffset := by
    rw [hoffset, hcontents, length_frame]
  rw [hlen]
  rw [receive] at hreceive
  split at hreceive
  · next p hvalue =>
    cases hreceive
    exact hvalue
  · cases hreceive

theorem handlePdu_adjustRate {d n : UInt16} {pdu : CImPdu} (h : pdu.body = .adjustRate d n) (look : Lookup)
    (mgr : Manager) (clientType : UInt16) : ServConn.handlePdu look mgr clientType pdu =
      ⟨some .handleServerAdjustRate, (mgr.adjustSendRate d n).2, clientType, [.adjustRate d n],
        [.response 0 successText]⟩ := by
  unfold ServConn.handlePdu
  rw [h]
  rfl

theorem range_of_applied (h : Applied delay multi) :
    (0 ≤ delay ∧ delay < 65536) ∧ (0 ≤ multi ∧ multi < 65536) := by
  obtain ⟨bytes, pdu, hbytes, hread, hbody⟩ := readPdu_actionAdjustRate ⟨fun _ => 0, fun _ => 0, 0, 0⟩ delay multi
  have happlied := h _ bytes pdu ⟨0, 0, []⟩ (.init 0) PostfixEdm.clientPhp successText hbytes hread
  rw [handlePdu_adjustRate hbody] at happlied
  exact (posted_iff rfl rfl).mp (happlied List.mem_cons_self).1

/-- A change of the rate is applied as it was posted exactly when both numbers are of 16 bits. -/
theorem applied_iff : Applied delay multi ↔ (0 ≤ delay ∧ delay < 65536) ∧ (0 ≤ multi ∧ multi < 65536) := by
  refine ⟨range_of_applied, ?_⟩
  intro hrange env bytes pdu look mgr clientType message hbytes hread _
  obtain ⟨bytes', pdu', hbytes', hread', hbody⟩ := readPdu_actionAdjustRate env delay multi
  obtain rfl : bytes = bytes' := Option.some.inj (hbytes.symm.trans hbytes')
  obtain rfl : pdu = pdu' := Option.some.inj (Except.ok.inj (hread.symm.trans hread'))
  rw [handlePdu_adjustRate hbody]
  refine ⟨(posted_iff rfl rfl).mpr hrange, ?_⟩
  intro m hm heap env pdu mem parse worker hreceive
  obtain rfl := List.mem_singleton.mp hm
  obtain ⟨pdu', mem', hreceive', hcarries⟩ := receive_adjustRate heap env (UInt16.ofInt delay) (UInt16.ofInt multi)
  obtain ⟨rfl, rfl⟩ := Prod.mk.inj (Option.some.inj (hreceive'.symm.trans hreceive))
  have hhandle : ClientConn.handlePdu parse mem' pdu' worker =
      { worker with multi := UInt16.ofInt multi, delay := UInt16.ofInt delay } := by
    unfold ClientConn.handlePdu
    rw [hcarries]
  rw [hhandle]
  exact (posted_iff rfl rfl).mpr hrange

/-- A delay of 65536 seconds is sent like one of none. -/
theorem not_applied_65536 : actionAdjustRate 65536 1 = actionAdjustRate 0 1 ∧ ¬ ∀ delay multi, Applied delay multi := by
  refine ⟨by decide, fun h => ?_⟩
  have hlt : (65536 : Int) < 65536 := (range_of_applied (h 65536 1)).1.2
  omega

end PostfixEdm.AdjustRate
