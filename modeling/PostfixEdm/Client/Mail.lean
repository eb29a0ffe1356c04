import PostfixEdm.Lib.Tally
import PostfixEdm.Lib.Transition

/-!
# The mail children: `cChildProcess::OnChildRun` and `pullSentInfoFromMysql`

Any number of children pull rows of `send_email` and hand them to `cSendMail::send`. No statement of the
program changes the table while they run: it is a parameter.

* `SendEmail`, `Answer` : a row, and what the database may answer to the statement of a pull;
* `MailInfo`, `Mailing` : what a child queues, and the children with what they have pulled and handed over;
* `Mailing.step` : the statements of the children, with forks, retirements and kills in between;
* `Mailing.handed_le_pulled` : a row is handed over no more often than it is pulled, in every run;
* `Mailing.handed_le_one` : and so once, when no pull follows one that returned a row. `Mailing.pull_again` is
  why any such pull may return the row again.
-/

namespace PostfixEdm

def pullSentMailUnit : Nat := 1000

/-- A row of `send_email`; `none` is NULL. `id` tells rows apart. -/
structure SendEmail where
  id : Nat
  toAddr : Option (List UInt8)
  cc : Option (List UInt8)
  subject : Option (List UInt8)
  content : Option (List UInt8)
  sender : Option (List UInt8)
  fromAddr : Option (List UInt8)
  status : Nat
  deriving DecidableEq, Repr

/-- `status = 1 and from = '...'` -/
def SendEmail.Pending (emailFromAddr : List UInt8) (r : SendEmail) : Prop :=
  r.status = 1 ∧ r.fromAddr = some emailFromAddr

instance (emailFromAddr : List UInt8) (r : SendEmail) : Decidable (r.Pending emailFromAddr) :=
  inferInstanceAs (Decidable (_ ∧ _))

/-- The rows that the database may answer a pull with: one of each group, as far as the limit goes. Which row
of a group, which groups and in which order is not determined. -/
structure Answer (table : Finset SendEmail) (emailFromAddr : List UInt8) (rows : List SendEmail) : Prop where
  pending : ∀ r ∈ rows, r ∈ table ∧ r.Pending emailFromAddr
  groups : (rows.map SendEmail.toAddr).Nodup
  limit : rows.length ≤ pullSentMailUnit
  all : rows.length < pullSentMailUnit → ∀ r ∈ table, r.Pending emailFromAddr → r.toAddr ∈ rows.map SendEmail.toAddr

instance (table : Finset SendEmail) (emailFromAddr : List UInt8) (rows : List SendEmail) :
    Decidable (Answer table emailFromAddr rows) :=
  decidable_of_iff ((∀ r ∈ rows, r ∈ table ∧ r.Pending emailFromAddr) ∧ (rows.map SendEmail.toAddr).Nodup ∧
      rows.length ≤ pullSentMailUnit ∧
      (rows.length < pullSentMailUnit →
        ∀ r ∈ table, r.Pending emailFromAddr → r.toAddr ∈ rows.map SendEmail.toAddr))
    ⟨fun ⟨h₁, h₂, h₃, h₄⟩ => ⟨h₁, h₂, h₃, h₄⟩, fun ⟨h₁, h₂, h₃, h₄⟩ => ⟨h₁, h₂, h₃, h₄⟩⟩

/-- `mail_info_t`, with the row it is filled from; `none` is a null pointer. -/
structure MailInfo where
  row : SendEmail
  toAddr : Option (List UInt8)
  cc : Option (List UInt8)
  subject : Option (List UInt8)
  content : Option (List UInt8)
  sender : Option (List UInt8)
  fromAddr : Option (List UInt8)
  deriving DecidableEq, Repr

/-- `fieldValue`: a column that is NULL or empty is left as a null pointer. -/
def fieldValue (column : Option (List UInt8)) : Option (List UInt8) := column.filter (· ≠ [])

/-- The `mail_info_t` that a pull fills from a row. -/
def SendEmail.mailInfo (r : SendEmail) : MailInfo :=
  ⟨r, fieldValue r.toAddr, fieldValue r.cc, fieldValue r.subject, fieldValue r.content, fieldValue r.sender,
    fieldValue r.fromAddr⟩

/-- Where a child stands: at the top of its loop, inside `childLock` before or after the pull, or in the loop
over its queue. -/
inductive MailStage
  | top | locked | pulled | sending
  deriving DecidableEq, Repr

structure MailChild where
  stage : MailStage
  sendMailQueue : List MailInfo
  deriving DecidableEq, Repr

/-- The children, and the part of the shared memory that they write. `pulled` and `handed` record the rows that
pulls have returned and what has been passed to `cSendMail::send`. -/
structure Mailing (κ : Type) where
  children : Finset κ
  child : κ → MailChild
  childLock : Bool
  havePushNum : UInt64
  pulled : List SendEmail
  handed : List MailInfo

namespace Mailing

inductive Act (κ : Type)
  | fork (c : κ)
  | retire (c : κ)
  | kill (c : κ)
  | lock (c : κ)
  | pull (c : κ) (rows : List SendEmail)
  | unlock (c : κ)
  | send (c : κ)
  | again (c : κ)

variable {κ : Type}

def init : Mailing κ := ⟨∅, fun _ => ⟨.top, []⟩, false, 0, [], []⟩

section
variable [DecidableEq κ]

def setChild (s : Mailing κ) (c : κ) (x : MailChild) : Mailing κ :=
  { s with child := Function.update s.child c x }

/-- A child leaves: `exit` at the top of its loop, or a signal anywhere. A lock it holds stays held. -/
def drop (s : Mailing κ) (c : κ) : Mailing κ := { s with children := s.children.erase c }

/-- The statements of the children. Whether the shared status lets a child start is left open. -/
def step (table : Finset SendEmail) (emailFromAddr : List UInt8) : Act κ → Mailing κ → Option (Mailing κ)
  | .fork c, s =>
    if c ∈ s.children then none
    else some { s.setChild c ⟨.top, []⟩ with children := insert c s.children }
  | .retire c, s => if c ∈ s.children ∧ (s.child c).stage = .top then some (s.drop c) else none
  | .kill c, s => if c ∈ s.children then some (s.drop c) else none
  | .lock c, s =>
    if c ∈ s.children ∧ (s.child c).stage = .top ∧ s.childLock = false then
      some { s.setChild c ⟨.locked, (s.child c).sendMailQueue⟩ with childLock := true }
    else none
  | .pull c rows, s =>
    if c ∈ s.children ∧ (s.child c).stage = .locked ∧ Answer table emailFromAddr rows then
      some { s.setChild c ⟨.pulled, (s.child c).sendMailQueue ++ rows.map SendEmail.mailInfo⟩ with
        pulled := s.pulled ++ rows }
    else none
  | .unlock c, s =>
    if c ∈ s.children ∧ (s.child c).stage = .pulled then
      some { s.setChild c ⟨.sending, (s.child c).sendMailQueue⟩ with
        childLock := false
        havePushNum := s.havePushNum + UInt64.ofNat (s.child c).sendMailQueue.length }
    else none
  | .send c, s =>
    if c ∈ s.children ∧ (s.child c).stage = .sending then
      match (s.child c).sendMailQueue with
      | m :: rest => some { s.setChild c ⟨.sending, rest⟩ with handed := s.handed ++ [m] }
      | [] => none
    else none
  | .again c, s =>
    if c ∈ s.children ∧ (s.child c).stage = .sending ∧ (s.child c).sendMailQueue = [] then
      some (s.setChild c ⟨.top, []⟩)
    else none

end

/-! ## No row is handed over more often than pulled -/

/-- How often the row is queued. -/
def queued (r : SendEmail) (x : MailChild) : Nat := (x.sendMailQueue.map MailInfo.row).count r

def inFlight (s : Mailing κ) (r : SendEmail) : Nat := ∑ c ∈ s.children, queued r (s.child c)

def handedOver (s : Mailing κ) (r : SendEmail) : Nat := (s.handed.map MailInfo.row).count r

/-- What has been handed over and what is queued has been pulled. -/
def Conserves (s : Mailing κ) : Prop := ∀ r, s.handedOver r + s.inFlight r ≤ s.pulled.count r

theorem conserves_init : Conserves (init : Mailing κ) := fun _ => Nat.le_refl 0

section
variable [DecidableEq κ] {s : Mailing κ} {c : κ} {r : SendEmail}

/-- The other children keep their queues. -/
theorem inFlight_setChild (hc : c ∈ s.children) (x : MailChild) :
    (s.setChild c x).inFlight r + queued r (s.child c) = s.inFlight r + queued r x :=
  sum_update hc s.child x (queued r)

theorem inFlight_setChild_stage (hc : c ∈ s.children) (stage : MailStage) :
    (s.setChild c ⟨stage, (s.child c).sendMailQueue⟩).inFlight r = s.inFlight r :=
  Nat.add_right_cancel (inFlight_setChild hc ⟨stage, (s.child c).sendMailQueue⟩)

theorem inFlight_drop_le : (s.drop c).inFlight r ≤ s.inFlight r :=
  Finset.sum_le_sum_of_subset (Finset.erase_subset c s.children)

theorem inFlight_fork (hc : c ∉ s.children) :
    inFlight { s.setChild c ⟨.top, []⟩ with children := insert c s.children } r = s.inFlight r := by
  refine (sum_update_insert hc s.child ⟨.top, []⟩ (queued r)).trans ?_
  exact Nat.zero_add _

variable {table : Finset SendEmail} {emailFromAddr : List UInt8}

theorem step_pull {rows : List SendEmail} (hc : c ∈ s.children) (hlocked : (s.child c).stage = .locked)
    (hans : Answer table emailFromAddr rows) :
    step table emailFromAddr (.pull c rows) s =
      some { s.setChild c ⟨.pulled, (s.child c).sendMailQueue ++ rows.map SendEmail.mailInfo⟩ with
        pulled := s.pulled ++ rows } :=
  if_pos ⟨hc, hlocked, hans⟩

theorem row_mailInfo (rows : List SendEmail) : (rows.map SendEmail.mailInfo).map MailInfo.row = rows := by
  rw [List.map_map]
  exact List.map_id rows

/-- What a pull returns is queued. -/
theorem Conserves.pull (h : Conserves s) (hc : c ∈ s.children) (rows : List SendEmail) :
    Conserves { s.setChild c ⟨.pulled, (s.child c).sendMailQueue ++ rows.map SendEmail.mailInfo⟩ with
      pulled := s.pulled ++ rows } := by
  intro r
  have hr := h r
  have hqueue := inFlight_setChild (r := r) hc
    ⟨.pulled, (s.child c).sendMailQueue ++ rows.map SendEmail.mailInfo⟩
  simp only [queued, List.map_append, List.count_append, row_mailInfo] at hqueue
  show s.handedOver r + inFlight (s.setChild c _) r ≤ (s.pulled ++ rows).count r
  rw [List.count_append]
  omega

/-- What is handed over leaves the queue. -/
theorem Conserves.send (h : Conserves s) (hc : c ∈ s.children) {m : MailInfo} {rest : List MailInfo}
    (hqueue : (s.child c).sendMailQueue = m :: rest) :
    Conserves { s.setChild c ⟨.sending, rest⟩ with handed := s.handed ++ [m] } := by
  intro r
  have hr := h r
  have hold := inFlight_setChild (r := r) hc ⟨.sending, rest⟩
  simp only [queued, hqueue, List.map_cons, List.count_cons] at hold
  have hhanded : ((s.handed ++ [m]).map MailInfo.row).count r = s.handedOver r + if m.row == r then 1 else 0 := by
    rw [List.map_append, List.count_append, List.map_singleton, List.count_singleton, handedOver]
  show ((s.handed ++ [m]).map MailInfo.row).count r + inFlight (s.setChild c _) r ≤ s.pulled.count r
  rw [hhanded]
  omega

/-- Queues that stay as they are. -/
theorem Conserves.stage (h : Conserves s) (hc : c ∈ s.children) (stage : MailStage) :
    Conserves (s.setChild c ⟨stage, (s.child c).sendMailQueue⟩) := by
  intro r
  show s.handedOver r + inFlight (s.setChild c _) r ≤ s.pulled.count r
  rw [inFlight_setChild_stage hc]
  exact h r

theorem Conserves.drop (h : Conserves s) (c : κ) : Conserves (s.drop c) := fun r =>
  (Nat.add_le_add_left inFlight_drop_le _).trans (h r)

theorem Conserves.fork (h : Conserves s) (hc : c ∉ s.children) :
    Conserves { s.setChild c ⟨.top, []⟩ with children := insert c s.children } := by
  intro r
  rw [inFlight_fork hc]
  exact h r

theorem Conserves.step (h : Conserves s) {a : Act κ} {s' : Mailing κ}
    (hstep : step table emailFromAddr a s = some s') : Conserves s' := by
  cases a with
  | fork c =>
    rw [Mailing.step] at hstep
    split at hstep
    · cases hstep
    · next hc =>
      cases hstep
      exact h.fork hc
  | retire c | kill c =>
    rw [Mailing.step] at hstep
    split at hstep <;> cases hstep
    exact h.drop c
  | lock c | unlock c =>
    rw [Mailing.step] at hstep
    split at hstep
    · next hc =>
      cases hstep
      exact h.stage hc.1 _
    · cases hstep
  | pull c rows =>
    rw [Mailing.step] at hstep
    split at hstep
    · next hc =>
      cases hstep
      exact h.pull hc.1 rows
    · cases hstep
  | send c =>
    rw [Mailing.step] at hstep
    split at hstep
    · next hc =>
      split at hstep
      · next m rest hqueue =>
        cases hstep
        exact h.send hc.1 hqueue
      · cases hstep
    · cases hstep
  | again c =>
    rw [Mailing.step] at hstep
    split at hstep
    · next hc =>
      cases hstep
      have hsame := h.stage hc.1 .top
      rw [hc.2.2] at hsame
      exact hsame
    · cases hstep

/-- In every run a row is handed over no more often than it is pulled. -/
theorem handed_le_pulled (h : Transition.Reachable (step table emailFromAddr) init s) (r : SendEmail) :
    s.handedOver r ≤ s.pulled.count r := by
  have hc : Conserves s := Transition.Reaches.invariant h conserves_init fun _ _ _ hs _ hstep => hs.step hstep
  exact (Nat.le_add_right _ _).trans (hc r)

/-! ## When rows are pulled once -/

/-- The steps that keep rows from being pulled twice: no pull after one that returned a row. -/
def GoodStep (s : Mailing κ) : Act κ → Prop
  | .pull _ _ => s.pulled = []
  | _ => True

/-- Only a pull adds to what is pulled. -/
theorem pulled_step {a : Act κ} {s' : Mailing κ} (hstep : step table emailFromAddr a s = some s') :
    s'.pulled = s.pulled ∨ ∃ c rows, a = .pull c rows ∧ s'.pulled = s.pulled ++ rows ∧
      Answer table emailFromAddr rows := by
  cases a with
  | pull c rows =>
    rw [step] at hstep
    split at hstep
    · next hc =>
      cases hstep
      exact Or.inr ⟨c, rows, rfl, rfl, hc.2.2⟩
    · cases hstep
  | send c =>
    rw [step] at hstep
    split at hstep
    · split at hstep
      · cases hstep
        exact Or.inl rfl
      · cases hstep
    · cases hstep
  | _ =>
    rw [step] at hstep
    split at hstep <;> cases hstep
    exact Or.inl rfl

/-- In every run without such a pull each row is passed to `cSendMail::send` at most once. -/
theorem handed_le_one (h : Transition.Reaches (step table emailFromAddr) GoodStep init s) (r : SendEmail) :
    s.handedOver r ≤ 1 := by
  have hnodup : s.pulled.Nodup := by
    refine h.invariant (motive := fun s => s.pulled.Nodup) ?start ?keep
    case start => exact List.nodup_nil
    case keep =>
      intro s a s' hs hgood hstep
      rcases pulled_step hstep with heq | ⟨c, rows, rfl, heq, hans⟩
      · exact heq ▸ hs
      · have hempty : s.pulled = [] := hgood
        rw [heq, hempty, List.nil_append]
        exact hans.groups.of_map _
  have hle := handed_le_pulled (h.mono fun _ _ _ => trivial) r
  exact hle.trans (List.nodup_iff_count_le_one.mp hnodup r)

/-- What a pull has returned once, the next one may return again, whoever makes it. -/
theorem pull_again (h : Transition.Reachable (step table emailFromAddr) init s) (hr : r ∈ s.pulled)
    (hc : c ∈ s.children) (hlocked : (s.child c).stage = .locked) :
    ∃ rows s', step table emailFromAddr (.pull c rows) s = some s' ∧ 2 ≤ s'.pulled.count r := by
  have hanswer : ∀ q ∈ s.pulled, ∃ rows, Answer table emailFromAddr rows ∧ q ∈ rows := by
    refine Transition.Reaches.invariant
      (motive := fun s => ∀ q ∈ s.pulled, ∃ rows, Answer table emailFromAddr rows ∧ q ∈ rows) h ?start ?keep
    case start => exact fun q hq => absurd hq List.not_mem_nil
    case keep =>
      intro s a s' hs _ hstep q hq
      rcases pulled_step hstep with heq | ⟨c, rows, rfl, heq, hans⟩
      · exact hs q (heq ▸ hq)
      · rw [heq] at hq
        rcases List.mem_append.mp hq with hq | hq
        · exact hs q hq
        · exact ⟨rows, hans, hq⟩
  obtain ⟨rows, hans, hmem⟩ := hanswer r hr
  refine ⟨rows, _, step_pull hc hlocked hans, ?_⟩
  show 2 ≤ (s.pulled ++ rows).count r
  rw [List.count_append]
  have hold := List.count_pos_iff.mpr hr
  have hnew := List.count_pos_iff.mpr hmem
  omega

end

/-! ## One child and one row -/

section Runs

def oneRow : SendEmail := ⟨1, some [0x61], none, none, none, none, some [0x62], 1⟩

/-- The answers to a pull from a table of this one row. -/
theorem answer_oneRow : Answer {oneRow} [0x62] [oneRow] := by decide

/-- A child that pulls and sends once. -/
theorem handed_le_one_batch : ∃ s : Mailing Unit,
    Transition.Reaches (step {oneRow} [0x62]) GoodStep init s ∧ s.handed = [oneRow.mailInfo] ∧
      s.handedOver oneRow ≤ 1 := by
  have h0 : Transition.Reaches (step {oneRow} [0x62]) GoodStep (init : Mailing Unit) _ := .start
  have h1 := h0.step (Act.fork ()) trivial rfl
  have h2 := h1.step (Act.lock ()) trivial rfl
  have h3 := h2.step (Act.pull () [oneRow]) rfl (step_pull (by decide) rfl answer_oneRow)
  have h4 := h3.step (Act.unlock ()) trivial rfl
  have h5 := h4.step (Act.send ()) trivial rfl
  exact ⟨_, h5, rfl, handed_le_one h5 oneRow⟩

/-- The child goes on to its next pull, and the row it has sent is still pending. -/
theorem not_handed_le_one :
    ¬ ∀ (table : Finset SendEmail) (emailFromAddr : List UInt8) (s : Mailing Unit),
      Transition.Reachable (step table emailFromAddr) init s →
        ∀ r ∈ table, r.Pending emailFromAddr → s.handedOver r ≤ 1 := by
  intro hall
  have h0 : Transition.Reachable (step {oneRow} [0x62]) (init : Mailing Unit) _ := .start
  have h1 := h0.step (Act.fork ()) trivial rfl
  have h2 := h1.step (Act.lock ()) trivial rfl
  have h3 := h2.step (Act.pull () [oneRow]) trivial (step_pull (by decide) rfl answer_oneRow)
  have h4 := h3.step (Act.unlock ()) trivial rfl
  have h5 := h4.step (Act.send ()) trivial rfl
  have h6 := h5.step (Act.again ()) trivial rfl
  have h7 := h6.step (Act.lock ()) trivial rfl
  have h8 := h7.step (Act.pull () [oneRow]) trivial (step_pull (by decide) rfl answer_oneRow)
  have h9 := h8.step (Act.unlock ()) trivial rfl
  have h10 := h9.step (Act.send ()) trivial rfl
  exact absurd (hall _ _ _ h10 oneRow (by decide) (by decide)) (by decide)

end Runs

end Mailing

end PostfixEdm
