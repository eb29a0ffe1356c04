import PostfixEdm.Base.CJsonTree

/-!
# `cJSON_Parse`

A pointer into the text is the rest of it, and `[]` is the NUL at its end. A step that would pass the NUL is a
fault of its own, and so is a write behind the block of a string.

* `parseNumber`, `parseString` : as in `cJSON.c`; `scanHex4` : `sscanf(p, "%4x", &uc)`;
* `parseValue`, `parseItems`, `parseMembers` : `parse_value` and the loops of `parse_array` and `parse_object`; the
  fuel bounds the depth of the calls;
* `cJsonParse` : `cJSON_Parse`.
-/

namespace PostfixEdm

variable {δ : Type}

/-- Why there is no item: an error at a pointer (`ep`), a pointer behind the NUL, a write behind the block of a string,
or calls that nest too deep. -/
inductive ParseFault
  | syntaxError (ep : List UInt8)
  | overrun
  | block
  | depth
  deriving DecidableEq, Repr

/-- `skip` -/
def skip (text : List UInt8) : List UInt8 := text.dropWhile fun b => b ≤ 32

/-! ## Numbers -/

/-- The loop over digits: the number so far, how many digits there were, and the rest. -/
def parseDigits (dbl : CDouble δ) (n : δ) : List UInt8 → δ × Nat × List UInt8
  | [] => (n, 0, [])
  | b :: text =>
    if IsDigit b then
      let (m, count, rest) := parseDigits dbl (dbl.next n b) text
      (m, count + 1, rest)
    else (n, 0, b :: text)

/-- The integer behind the sign: a zero, and digits that do not begin with one. -/
def parseInteger (dbl : CDouble δ) (text : List UInt8) : δ × List UInt8 :=
  let text := if text.head? = some 48 then text.tail else text
  if text.head?.any fun b => 49 ≤ b ∧ b ≤ 57 then
    let (n, _, rest) := parseDigits dbl (dbl.ofInt 0) text
    (n, rest)
  else (dbl.ofInt 0, text)

/-- The fraction, with `scale`. -/
def parseFraction (dbl : CDouble δ) (n : δ) (text : List UInt8) : δ × Int × List UInt8 :=
  match text with
  | 46 :: b :: rest =>
    if IsDigit b then
      let (m, count, rest) := parseDigits dbl n (b :: rest)
      (m, -(count : Int), rest)
    else (n, 0, text)
  | _ => (n, 0, text)

/-- The exponent, `subscale*signsubscale`. -/
def parseExponent (text : List UInt8) : Int × List UInt8 :=
  match text with
  | [] => (0, [])
  | e :: rest =>
    if e = 101 ∨ e = 69 then
      let (negative, rest) := match rest with
        | 43 :: rest => (false, rest)
        | 45 :: rest => (true, rest)
        | _ => (false, rest)
      let digits := rest.takeWhile fun b => IsDigit b
      let subscale : Int := digits.foldl (fun n b => n * 10 + (b.toNat - 48)) 0
      (if negative then -subscale else subscale, rest.dropWhile fun b => IsDigit b)
    else (0, e :: rest)

/-- `parse_number` -/
def parseNumber (dbl : CDouble δ) (num : List UInt8) : δ × List UInt8 :=
  let negative := decide (num.head? = some 45)
  let (n, text) := parseInteger dbl (if negative then num.tail else num)
  let (n, scale, text) := parseFraction dbl n text
  let (exponent, text) := parseExponent text
  (dbl.scale negative n (scale + exponent), text)

/-! ## Strings -/

/-- The value of a hexadecimal digit. -/
def hexValue (b : UInt8) : Option UInt32 :=
  if IsDigit b then some (b.toUInt32 - 48)
  else if 97 ≤ b ∧ b ≤ 102 then some (b.toUInt32 - 87)
  else if 65 ≤ b ∧ b ≤ 70 then some (b.toUInt32 - 55)
  else none

/-- `sscanf(text, "%4x", &uc)`: white space, and of the four characters behind it a sign, `0x` and digits. What does
not match leaves `uc` as it was. -/
def scanHex4 (uc : UInt32) (text : List UInt8) : UInt32 :=
  let field := (text.dropWhile isspace).take 4
  let (negative, field) := match field with
    | 45 :: field => (true, field)
    | 43 :: field => (false, field)
    | _ => (false, field)
  let digits := match field with
    | 48 :: 120 :: field | 48 :: 88 :: field => (field.takeWhile fun b => (hexValue b).isSome)
    | _ => field.takeWhile fun b => (hexValue b).isSome
  if digits = [] then uc
  else
    let value := digits.foldl (fun n b => n * 16 + (hexValue b).getD 0) 0
    if negative then -value else value

def firstByteMark (len : Nat) : UInt32 := [0x00, 0x00, 0xC0, 0xE0, 0xF0, 0xF8, 0xFC].getD len 0

/-- A trailing byte of the transcoding. -/
def trailing (uc : UInt32) : UInt8 := ((uc ||| 0x80) &&& 0xBF).toUInt8

/-- The transcoding of `uc` to UTF-8, last byte first in the source. -/
def transcode (uc : UInt32) : List UInt8 :=
  if uc < 0x80 then [(uc ||| firstByteMark 1).toUInt8]
  else if uc < 0x800 then [((uc >>> 6) ||| firstByteMark 2).toUInt8, trailing uc]
  else if uc < 0x10000 then [((uc >>> 12) ||| firstByteMark 3).toUInt8, trailing (uc >>> 6), trailing uc]
  else [((uc >>> 18) ||| firstByteMark 4).toUInt8, trailing (uc >>> 12), trailing (uc >>> 6), trailing uc]

/-- What is left of `uc` behind the transcoding. -/
def shifted (uc : UInt32) : UInt32 :=
  if uc < 0x80 then uc else if uc < 0x800 then uc >>> 6 else if uc < 0x10000 then uc >>> 12 else uc >>> 18

/-- The byte of an escape of one character. -/
def unescape (b : UInt8) : UInt8 :=
  if b = 98 then 8 else if b = 102 then 12 else if b = 110 then 10 else if b = 114 then 13 else if b = 116 then 9 else b

/-- A surrogate pair, as the source combines it. -/
def combine (uc uc2 : UInt32) : UInt32 :=
  (0x10000 : UInt32) ||| ((uc &&& 0x3FF) <<< (10 : UInt32)) ||| (uc2 &&& 0x3FF)

/-- The two variables of `parse_string` for code units. -/
structure CodeUnits where
  uc : UInt32
  uc2 : UInt32
  deriving DecidableEq, Repr

/-- The escape `\u`, from the character behind the `u` on: the bytes that it writes, the variables and the rest. -/
def parseUnicode (units : CodeUnits) (text : List UInt8) : Except ParseFault (List UInt8 × CodeUnits × List UInt8) :=
  if text.length < 4 then .error .overrun
  else
    let uc := scanHex4 units.uc text
    let text := text.drop 4
    if (0xDC00 ≤ uc ∧ uc ≤ 0xDFFF) ∨ uc = 0 then .ok ([], { units with uc := uc }, text)
    else if 0xD800 ≤ uc ∧ uc ≤ 0xDBFF then
      if text.take 2 ≠ [92, 117] then .ok ([], { units with uc := uc }, text)
      else if text.length < 6 then .error .overrun
      else
        let uc2 := scanHex4 units.uc2 (text.drop 2)
        let text := text.drop 6
        if uc2 < 0xDC00 ∨ 0xDFFF < uc2 then .ok ([], ⟨uc, uc2⟩, text)
        else .ok (transcode (combine uc uc2), ⟨shifted (combine uc uc2), uc2⟩, text)
    else .ok (transcode uc, { units with uc := shifted uc }, text)

/-- What the second loop of `parse_string` reads next: the end, or bytes to write. -/
def parseChar (units : CodeUnits) : List UInt8 → Except ParseFault (Option (List UInt8 × CodeUnits) × List UInt8)
  | [] => .ok (none, [])
  | [92] => .error .overrun
  | 92 :: 117 :: text => (parseUnicode units text).map fun (out, units, rest) => (some (out, units), rest)
  | 92 :: b :: text => .ok (some ([unescape b], units), text)
  | b :: text => if b = 34 then .ok (none, text) else .ok (some ([b], units), text)

/-- The second loop of `parse_string`: the bytes that it writes, and the rest behind the closing quote. -/
def parseChars : Nat → CodeUnits → List UInt8 → Except ParseFault (List UInt8 × List UInt8)
  | 0, _, _ => .error .depth
  | fuel + 1, units, text =>
    match parseChar units text with
    | .error fault => .error fault
    | .ok (none, rest) => .ok ([], rest)
    | .ok (some (out, units), rest) => (parseChars fuel units rest).map fun (more, rest) => (out ++ more, rest)

/-- The first loop of `parse_string`, `len`: an escape counts once, whatever is behind its character. -/
def stringSize : List UInt8 → Except ParseFault Nat
  | [] => .ok 0
  | [92] => .error .overrun
  | 92 :: _ :: text => (stringSize text).map (· + 1)
  | b :: text => if b = 34 then .ok 0 else (stringSize text).map (· + 1)

/-- `parse_string`: a C string, in a block of `len + 1` bytes. `units` is what the two variables hold at
first, for each pointer. -/
def parseString (units : List UInt8 → CodeUnits) (text : List UInt8) :
    Except ParseFault (CString × List UInt8) :=
  match text with
  | 34 :: str =>
    match stringSize str, parseChars (str.length + 1) (units str) str with
    | .ok len, .ok (out, rest) => if out.length ≤ len then .ok (.ofBytes out, rest) else .error .block
    | .error fault, _ => .error fault
    | _, .error fault => .error fault
  | _ => .error (.syntaxError text)

/-! ## Values -/

mutual
/-- `parse_value` -/
def parseValue (dbl : CDouble δ) (units : List UInt8 → CodeUnits) :
    Nat → List UInt8 → Except ParseFault (JsonItem δ × List UInt8)
  | 0, _ => .error .depth
  | fuel + 1, value =>
    if ascii "null" <+: value then .ok (.null, value.drop 4)
    else if ascii "false" <+: value then .ok (.false, value.drop 5)
    else if ascii "true" <+: value then .ok (.true, value.drop 4)
    else
      match value with
      | 34 :: _ => (parseString units value).map fun (valuestring, rest) => (.string valuestring, rest)
      | 91 :: text =>
        match skip text with
        | 93 :: rest => .ok (.array .nil, rest)
        | text =>
          match parseItems dbl units fuel text with
          | .error fault => .error fault
          | .ok (items, 93 :: rest) => .ok (.array items, rest)
          | .ok (_, rest) => .error (.syntaxError rest)
      | 123 :: text =>
        match skip text with
        | 125 :: rest => .ok (.object .nil, rest)
        | text =>
          match parseMembers dbl units fuel text with
          | .error fault => .error fault
          | .ok (members, 125 :: rest) => .ok (.object members, rest)
          | .ok (_, rest) => .error (.syntaxError rest)
      | b :: _ =>
        if b = 45 ∨ IsDigit b then
          let (valuedouble, rest) := parseNumber dbl value
          .ok (.number valuedouble, rest)
        else .error (.syntaxError value)
      | [] => .error (.syntaxError value)

/-- The elements of an array, from the first one on, and what comes behind the last one. -/
def parseItems (dbl : CDouble δ) (units : List UInt8 → CodeUnits) :
    Nat → List UInt8 → Except ParseFault (JsonItems δ × List UInt8)
  | 0, _ => .error .depth
  | fuel + 1, text =>
    match parseValue dbl units fuel (skip text) with
    | .error fault => .error fault
    | .ok (item, rest) =>
      match skip rest with
      | 44 :: rest =>
        match parseItems dbl units fuel rest with
        | .error fault => .error fault
        | .ok (items, rest) => .ok (.cons item items, rest)
      | rest => .ok (.cons item .nil, rest)

/-- The members of an object. -/
def parseMembers (dbl : CDouble δ) (units : List UInt8 → CodeUnits) :
    Nat → List UInt8 → Except ParseFault (JsonMembers δ × List UInt8)
  | 0, _ => .error .depth
  | fuel + 1, text =>
    match parseString units (skip text) with
    | .error fault => .error fault
    | .ok (name, rest) =>
      match skip rest with
      | 58 :: rest =>
        match parseValue dbl units fuel (skip rest) with
        | .error fault => .error fault
        | .ok (item, rest) =>
          match skip rest with
          | 44 :: rest =>
            match parseMembers dbl units fuel rest with
            | .error fault => .error fault
            | .ok (members, rest) => .ok (.cons name item members, rest)
          | rest => .ok (.cons name item .nil, rest)
      | rest => .error (.syntaxError rest)
end

/-- `cJSON_Parse`, when memory does not run out. -/
def cJsonParse (dbl : CDouble δ) (units : List UInt8 → CodeUnits) (value : List UInt8) :
    Except ParseFault (JsonItem δ) :=
  (parseValue dbl units (value.length + 1) (skip value)).map Prod.fst

end PostfixEdm
