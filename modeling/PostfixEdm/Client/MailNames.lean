import PostfixEdm.Base.Base64Decode
import PostfixEdm.Client.SendMail
import Mathlib.Algebra.Group.Nat.Defs

/-!
# Subject and sender of a mail

* `Mail.message` : what `send` writes, with room for two encoded texts; `send_message` : these are the ones of the
  subject and of the sender;
* `Encodes text s` : `text` is in one line, is base64, and is decoded to `s`;
* `NamesSurvive` : both names are; `namesSurvive_iff` : that is so up to the size at which the text is longer than an
  `int` can say.
-/

namespace PostfixEdm.SendMail

namespace Mail

def beforeNames (m : Mail) : List UInt8 :=
  ascii "To: " ++ m.toAddr.bytes ++ ascii "\n" ++
    match m.cc with
    | some cc => ascii "Cc: " ++ cc.bytes ++ ascii "\n"
    | none => []

def afterNames (convert : Option (List UInt8 → List UInt8)) (m : Mail) : List UInt8 :=
  ascii "<" ++ m.fromAddr.bytes ++ ascii ">\n" ++ ascii "Content-type: text/html; charset=gb2312\n" ++
    ascii "Author: lijianwei\n" ++ ascii "\n" ++
    (match convert with
    | some convert => cstr (convert m.content.bytes)
    | none => m.content.bytes) ++ ascii "\n"

/-- The text of the mail; `subject` and `sender` are what stands between `=?UTF-8?B?` and `?=`. -/
def message (convert : Option (List UInt8 → List UInt8)) (m : Mail) (subject sender : List UInt8) : List UInt8 :=
  m.beforeNames ++ (ascii "Subject: =?UTF-8?B?" ++ subject ++ ascii "?=\n") ++
    (ascii "From: =?UTF-8?B?" ++ sender ++ ascii "?=") ++ m.afterNames convert

end Mail

structure Encodes (text s : List UInt8) : Prop where
  oneLine : 10 ∉ text
  base64 : Base64Text text
  decodes : base64Decode text = some s

/-- The two names can be had back from what is written. -/
def NamesSurvive (convert : Option (List UInt8 → List UInt8)) (m : Mail) : Prop :=
  ∃ subject sender, send true convert m.info = .ok (0, m.message convert subject sender) ∧
    Encodes subject m.subject.bytes ∧ Encodes sender m.sender.bytes

section
variable {convert : Option (List UInt8 → List UInt8)} {m : Mail}

theorem send_message (convert : Option (List UInt8 → List UInt8)) (m : Mail) :
    send true convert m.info = .ok (0, m.message convert (base64 m.subject.bytes) (base64 m.sender.bytes)) := by
  obtain ⟨toAddr, cc, subject, content, sender, fromAddr⟩ := m
  cases cc <;> cases convert <;>
    simp [send, Mail.info, Mail.message, Mail.beforeNames, Mail.afterNames, deref, bind, Except.bind, ascii]

/-- One line ends where the other does. -/
theorem append_lf_inj {s t u v : List UInt8} (hs : 10 ∉ s) (ht : 10 ∉ t) (h : s ++ 10 :: u = t ++ 10 :: v) :
    s = t ∧ u = v := by
  induction s generalizing t with
  | nil =>
    cases t with
    | nil => exact ⟨rfl, List.tail_eq_of_cons_eq h⟩
    | cons b t =>
      rw [List.mem_cons, not_or] at ht
      exact absurd (List.head_eq_of_cons_eq h) ht.1
  | cons a s ih =>
    rw [List.mem_cons, not_or] at hs
    cases t with
    | nil => exact absurd (List.head_eq_of_cons_eq h).symm hs.1
    | cons b t =>
      rw [List.mem_cons, not_or] at ht
      obtain ⟨hst, huv⟩ := ih hs.2 ht.2 (List.tail_eq_of_cons_eq h)
      have hab : a = b := List.head_eq_of_cons_eq h
      exact ⟨by rw [hab, hst], huv⟩

/-- The encoded texts can be read off the mail. -/
theorem message_inj {s s' t t' : List UInt8} (hs : 10 ∉ s) (hs' : 10 ∉ s')
    (h : m.message convert s t = m.message convert s' t') : s = s' ∧ t = t' := by
  have hline : ∀ r : List UInt8, 10 ∉ r → 10 ∉ r ++ ascii "?=" := fun r hr => by
    rw [List.mem_append, not_or]
    exact ⟨hr, by decide⟩
  have hlf : ascii "?=\n" = ascii "?=" ++ [10] := rfl
  simp only [Mail.message, List.append_assoc, hlf] at h
  have htail := List.append_cancel_left (List.append_cancel_left h)
  simp only [← List.append_assoc _ (ascii "?="), List.singleton_append] at htail
  obtain ⟨hsubject, hrest⟩ := append_lf_inj (hline s hs) (hline s' hs') htail
  refine ⟨List.append_cancel_right hsubject, ?_⟩
  exact List.append_cancel_right (List.append_cancel_right (List.append_cancel_left hrest))

theorem encodes_base64_iff (s : List UInt8) : Encodes (base64 s) s ↔ s.length < 1610612734 := by
  constructor
  · exact fun h => (decode_encode_iff s).mp h.decodes
  · exact fun h => ⟨base64_oneLine s, base64Encode_text s _, (decode_encode_iff s).mpr h⟩

theorem encodes_of_namesSurvive (h : NamesSurvive convert m) :
    Encodes (base64 m.subject.bytes) m.subject.bytes ∧ Encodes (base64 m.sender.bytes) m.sender.bytes := by
  obtain ⟨subject, sender, hsend, hsubject, hsender⟩ := h
  rw [send_message, Except.ok.injEq, Prod.mk.injEq] at hsend
  obtain ⟨rfl, rfl⟩ := message_inj (base64_oneLine _) hsubject.oneLine hsend.2
  exact ⟨hsubject, hsender⟩

/-- Both names can be had back exactly when each is shorter than 1610612734 bytes. -/
theorem namesSurvive_iff (convert : Option (List UInt8 → List UInt8)) (m : Mail) :
    NamesSurvive convert m ↔
      m.subject.bytes.length < 1610612734 ∧ m.sender.bytes.length < 1610612734 := by
  rw [← encodes_base64_iff, ← encodes_base64_iff]
  exact ⟨encodes_of_namesSurvive, fun h => ⟨_, _, send_message convert m, h.1, h.2⟩⟩

end

/-- A mail whose subject is `2 ^ 32` times the letter a. -/
def longSubject : Mail :=
  ⟨⟨ascii "a@example.com", by decide⟩, none,
    ⟨List.replicate (2 ^ 32) 97, fun h => absurd (List.eq_of_mem_replicate h) (by decide)⟩,
    ⟨ascii "sale", by decide⟩, ⟨ascii "shop", by decide⟩, ⟨ascii "shop@example.com", by decide⟩⟩

/-- What is written for it is the code of the empty text. -/
theorem not_namesSurvive_longSubject :
    base64 longSubject.subject.bytes = [] ∧ ¬ ∀ (convert : Option (List UInt8 → List UInt8)) (m : Mail),
      NamesSurvive convert m := by
  have hlength : longSubject.subject.bytes.length = 2 ^ 32 := List.length_replicate
  constructor
  · rw [base64, hlength]
    exact congrArg base64Loop (List.take_zero)
  · intro h
    have hshort := (encodes_base64_iff _).mp (encodes_of_namesSurvive (h none longSubject)).1
    rw [hlength] at hshort
    exact absurd hshort (by decide)

end PostfixEdm.SendMail
