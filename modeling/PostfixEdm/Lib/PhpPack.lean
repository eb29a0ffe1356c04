import PostfixEdm.Lib.BigEndian
import PostfixEdm.Lib.PhpArray
import Mathlib.Data.List.DropRight

/-!
# `pack` and `unpack` of PHP

Of the formats, `N`, `n` and `A*`: a word of 32 or of 16 bits, most significant byte first, and the rest of a string.

* `Php.pack`, `Php.unpack` : the functions; `none` is FALSE, or a format or an argument that is not one of these;
* `packCodes_append` : what is packed is one argument after the other.
-/

namespace Php
open BigEndian

inductive Value
  | int (n : Int)
  | str (s : List UInt8)
  deriving DecidableEq

theorem ofInt32_natCast (n : Nat) : UInt32.ofInt (n : Int) = UInt32.ofNat n := by
  have hmod : ((n : Int) % 2 ^ 32).toNat = n % 2 ^ 32 := by omega
  apply UInt32.toNat_inj.mp
  rw [UInt32.ofInt, hmod, UInt32.toNat_ofNat', UInt32.toNat_ofNat', Nat.mod_mod]

/-- `N`, `n` and `A*` -/
inductive Code
  | long | short | string
  deriving DecidableEq

/-- Only the low bits of an integer are packed. -/
def Code.pack : Code → Value → Option (List UInt8)
  | .long, .int n => some (be32 (UInt32.ofInt n))
  | .short, .int n => some (be16 (UInt16.ofInt n))
  | .string, .str s => some s
  | _, _ => none

/-- Arguments that are too many are left alone. -/
def packCodes : List Code → List Value → Option (List UInt8)
  | [], _ => some []
  | _ :: _, [] => none
  | c :: codes, v :: values => do
    let bytes ← c.pack v
    let rest ← packCodes codes values
    some (bytes ++ rest)

def parseFormat : List UInt8 → Option (List Code)
  | [] => some []
  | b :: rest =>
    if b = 78 then (parseFormat rest).map (.long :: ·)
    else if b = 110 then (parseFormat rest).map (.short :: ·)
    else if b = 65 then
      match rest with
      | [] => none
      | c :: rest => if c = 42 then (parseFormat rest).map (.string :: ·) else none
    else none

/-- `pack(format, ...)`; the result is less than `2^31` bytes long. -/
def pack : List Value → Option (List UInt8)
  | .str format :: args => do
    let codes ← parseFormat format
    let bytes ← packCodes codes args
    if bytes.length < 2 ^ 31 then some bytes else none
  | _ => none

/-- The blanks that `A` strips from the end: a NUL, a tab, a line break, a carriage return and a space. -/
def isPadding (b : UInt8) : Bool := b = 0 || b = 9 || b = 10 || b = 13 || b = 32

/-- A value, and what is left. -/
def Code.unpack : Code → List UInt8 → Option (Value × List UInt8)
  | .long, a :: b :: c :: d :: rest => some (.int (ofBe32 a b c d).toNat, rest)
  | .short, a :: b :: rest => some (.int (ofBe16 a b).toNat, rest)
  | .string, s => some (.str (s.rdropWhile isPadding), [])
  | _, _ => none

/-- A code and the name of its value. -/
def parseSegment : List UInt8 → Option (Code × List UInt8)
  | [] => none
  | b :: rest =>
    if b = 78 then some (.long, rest)
    else if b = 110 then some (.short, rest)
    else if b = 65 then
      match rest with
      | [] => none
      | c :: name => if c = 42 then some (.string, name) else none
    else none

/-- A value without a name has the key 1. -/
def unpackCodes : List (Code × List UInt8) → List UInt8 → Option (List (Key × Value))
  | [], _ => some []
  | (c, name) :: codes, s => do
    let (v, rest) ← c.unpack s
    let entries ← unpackCodes codes rest
    some ((if name = [] then .int 1 else .str name, v) :: entries)

/-- `unpack(format, s)` -/
def unpack (format s : List UInt8) : Option (PhpArray Value) := do
  let codes ← (format.splitOn 47).mapM parseSegment
  let entries ← unpackCodes codes s
  some (.ofEntries entries)

theorem parseFormat_long (rest : List UInt8) : parseFormat (78 :: rest) = (parseFormat rest).map (.long :: ·) := by
  rw [parseFormat.eq_def]
  exact if_pos rfl

theorem parseFormat_short (rest : List UInt8) : parseFormat (110 :: rest) = (parseFormat rest).map (.short :: ·) := by
  rw [parseFormat.eq_def]
  exact (if_neg (by decide)).trans (if_pos rfl)

/-- One argument after the other. -/
theorem packCodes_append {codes codes' : List Code} {values values' : List Value} {bytes bytes' : List UInt8}
    (hlen : codes.length = values.length) (h : packCodes codes values = some bytes)
    (h' : packCodes codes' values' = some bytes') :
    packCodes (codes ++ codes') (values ++ values') = some (bytes ++ bytes') := by
  induction codes generalizing values bytes with
  | nil =>
    obtain rfl := List.length_eq_zero_iff.mp hlen.symm
    cases h
    exact h'
  | cons c codes ih =>
    cases values with
    | nil => cases hlen
    | cons v values =>
      obtain ⟨front, hfront, hbind⟩ := Option.bind_eq_some_iff.mp h
      obtain ⟨rest, hrest, heq⟩ := Option.bind_eq_some_iff.mp hbind
      cases heq
      rw [List.cons_append, List.cons_append, packCodes, hfront, ih (Nat.succ.inj hlen) hrest]
      exact congrArg some (List.append_assoc _ _ _).symm

theorem unpackCodes_cons {c : Code} {name : List UInt8} {codes : List (Code × List UInt8)} {s rest : List UInt8}
    {v : Value} {entries : List (Key × Value)} (h : c.unpack s = some (v, rest))
    (hrest : unpackCodes codes rest = some entries) :
    unpackCodes ((c, name) :: codes) s = some ((if name = [] then .int 1 else .str name, v) :: entries) := by
  rw [unpackCodes, h]
  simp only [Option.bind_eq_bind, Option.bind_some, hrest]

/-- The keys are those of the codes. -/
theorem keys_unpackCodes {codes : List (Code × List UInt8)} {s : List UInt8} {entries : List (Key × Value)}
    (h : unpackCodes codes s = some entries) :
    entries.map Prod.fst = codes.map fun c => if c.2 = [] then .int 1 else .str c.2 := by
  induction codes generalizing s entries with
  | nil =>
    cases h
    rfl
  | cons code codes ih =>
    obtain ⟨⟨v, rest⟩, -, hbind⟩ := Option.bind_eq_some_iff.mp h
    obtain ⟨tail, htail, heq⟩ := Option.bind_eq_some_iff.mp hbind
    cases heq
    exact congrArg (_ :: ·) (ih htail)

/-- What a code takes. -/
def Code.width : Code → Nat
  | .long => 4
  | .short => 2
  | .string => 0

theorem length_unpack {c : Code} {s rest : List UInt8} {v : Value} (h : c.unpack s = some (v, rest)) :
    c.width + rest.length ≤ s.length ∧ ∀ text, v = .str text → c.width + text.length ≤ s.length := by
  cases c with
  | long =>
    match s, h with
    | a :: b :: c :: d :: tail, h =>
      cases h
      exact ⟨by rw [Code.width]; simp only [List.length_cons]; omega, nofun⟩
  | short =>
    match s, h with
    | a :: b :: tail, h =>
      cases h
      exact ⟨by rw [Code.width]; simp only [List.length_cons]; omega, nofun⟩
  | string =>
    cases h
    refine ⟨Nat.zero_le _, fun text htext => ?_⟩
    cases htext
    rw [Code.width, Nat.zero_add]
    exact (List.rdropWhile_prefix isPadding s).length_le

/-- The codes have all they take. -/
theorem sum_width_le {codes : List (Code × List UInt8)} {s : List UInt8} {entries : List (Key × Value)}
    (h : unpackCodes codes s = some entries) : (codes.map fun c => c.1.width).sum ≤ s.length := by
  induction codes generalizing s entries with
  | nil => exact Nat.zero_le _
  | cons code codes ih =>
    obtain ⟨⟨v, rest⟩, hv, hbind⟩ := Option.bind_eq_some_iff.mp h
    obtain ⟨tail, htail, -⟩ := Option.bind_eq_some_iff.mp hbind
    have hwidth := (length_unpack hv).1
    have hrest := ih htail
    rw [List.map_cons, List.sum_cons]
    omega

/-- What comes in front of the last value is not in it. -/
theorem length_unpackCodes {codes : List (Code × List UInt8)} {s : List UInt8} {entries : List (Key × Value)}
    (h : unpackCodes codes s = some entries) {text : List UInt8}
    (hlast : (entries.map Prod.snd).getLast? = some (.str text)) :
    (codes.map fun c => c.1.width).sum + text.length ≤ s.length := by
  induction codes generalizing s entries with
  | nil =>
    cases h
    cases hlast
  | cons code codes ih =>
    obtain ⟨c, name⟩ := code
    obtain ⟨⟨v, rest⟩, hv, hbind⟩ := Option.bind_eq_some_iff.mp h
    obtain ⟨tail, htail, heq⟩ := Option.bind_eq_some_iff.mp hbind
    cases heq
    obtain ⟨hwidth, htext⟩ := length_unpack hv
    rw [List.map_cons, List.sum_cons]
    dsimp only
    cases tail with
    | nil =>
      have hcodes : codes = [] := by
        cases codes with
        | nil => rfl
        | cons code codes =>
          obtain ⟨_, _, hbind⟩ := Option.bind_eq_some_iff.mp htail
          obtain ⟨_, _, heq⟩ := Option.bind_eq_some_iff.mp hbind
          cases heq
      have := htext text (Option.some.inj hlast)
      rw [hcodes]
      exact this
    | cons e tail =>
      rw [List.map_cons, List.map_cons, List.getLast?_cons_cons] at hlast
      have := ih htail hlast
      omega

theorem unpack_be32 (x : UInt32) (rest : List UInt8) :
    Code.long.unpack (be32 x ++ rest) = some (.int x.toNat, rest) := by
  change some (Value.int (ofBe32 (x >>> 24).toUInt8 (x >>> 16).toUInt8 (x >>> 8).toUInt8 x.toUInt8).toNat, rest) = _
  rw [ofBe32_be32]

theorem unpack_be16 (x : UInt16) (rest : List UInt8) :
    Code.short.unpack (be16 x ++ rest) = some (.int x.toNat, rest) := by
  change some (Value.int (ofBe16 (x >>> 8).toUInt8 x.toUInt8).toNat, rest) = _
  rw [ofBe16_be16]

end Php
