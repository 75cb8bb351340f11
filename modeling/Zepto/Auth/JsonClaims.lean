import Zepto.Lib.Stream
import Zepto.Lib.Word

/-!
# Claims in JSON texts

The reader of token claims: it finds a top-level member of an object by its decoded name and decodes
its value. A position is given as the text from there on, and a scan that fails is `none`.
-/

namespace Zepto.Auth

open Zepto.Lib

/-- `JsonFieldStatus`, with what is written to the output when it is `Valid`. -/
inductive JsonField (α : Type)
  | Missing
  | Valid (output : α)
  | Invalid
  deriving DecidableEq

def skipWhitespace (t : List Char) : List Char := t.dropWhile isBlank

/-! ## Strings -/

def hexValue (c : Char) : Option Nat :=
  if 48 ≤ c.toNat ∧ c.toNat ≤ 57 then some (c.toNat - 48)
  else if 97 ≤ c.toNat ∧ c.toNat ≤ 102 then some (c.toNat - 97 + 10)
  else if 65 ≤ c.toNat ∧ c.toNat ≤ 70 then some (c.toNat - 65 + 10)
  else none

def readHex4 : List Char → Option (Nat × List Char)
  | a :: b :: c :: d :: t => do
    let a ← hexValue a
    let b ← hexValue b
    let c ← hexValue c
    let d ← hexValue d
    some ((((0 <<< 4 ||| a) <<< 4 ||| b) <<< 4 ||| c) <<< 4 ||| d, t)
  | _ => none

/-- `append_utf8`: the bytes appended. -/
def appendUtf8 (codepoint : Nat) : Option (List Char) :=
  if codepoint > 0x10ffff ∨ (0xd800 ≤ codepoint ∧ codepoint ≤ 0xdfff) then none
  else if codepoint ≤ 0x7f then some [.ofNat codepoint]
  else if codepoint ≤ 0x7ff then
    some [.ofNat (0xc0 ||| codepoint >>> 6), .ofNat (0x80 ||| codepoint &&& 0x3f)]
  else if codepoint ≤ 0xffff then
    some [.ofNat (0xe0 ||| codepoint >>> 12), .ofNat (0x80 ||| codepoint >>> 6 &&& 0x3f),
      .ofNat (0x80 ||| codepoint &&& 0x3f)]
  else
    some [.ofNat (0xf0 ||| codepoint >>> 18), .ofNat (0x80 ||| codepoint >>> 12 &&& 0x3f),
      .ofNat (0x80 ||| codepoint >>> 6 &&& 0x3f), .ofNat (0x80 ||| codepoint &&& 0x3f)]

/-- The second half of a surrogate pair. -/
def readLow (high : Nat) : List Char → Option (List Char × List Char)
  | '\\' :: 'u' :: t => do
    let (low, t) ← readHex4 t
    if low < 0xdc00 ∨ low > 0xdfff then none
    else
      let bytes ← appendUtf8 (0x10000 + (high - 0xd800) <<< 10 + (low - 0xdc00))
      some (bytes, t)
  | _ => none

/-- The `switch` over the character behind a backslash: the bytes and the rest. -/
def readEscape : List Char → Option (List Char × List Char)
  | '"' :: t => some (['"'], t)
  | '\\' :: t => some (['\\'], t)
  | '/' :: t => some (['/'], t)
  | 'b' :: t => some ([.ofNat 8], t)
  | 'f' :: t => some ([.ofNat 12], t)
  | 'n' :: t => some (['\n'], t)
  | 'r' :: t => some (['\r'], t)
  | 't' :: t => some (['\t'], t)
  | 'u' :: t => do
    let (codepoint, t) ← readHex4 t
    if 0xd800 ≤ codepoint ∧ codepoint ≤ 0xdbff then readLow codepoint t
    else
      let bytes ← appendUtf8 codepoint
      some (bytes, t)
  | _ => none

/-- The loop of `parse_string`; each round takes a character. -/
def parseChars : Nat → List Char → Option (List Char × List Char)
  | 0, _ | _ + 1, [] => none
  | fuel + 1, c :: t =>
    if c = '"' then some ([], t)
    else if c.toNat < 0x20 then none
    else if c ≠ '\\' then do
      let (s, rest) ← parseChars fuel t
      some (c :: s, rest)
    else do
      let (bytes, t) ← readEscape t
      let (s, rest) ← parseChars fuel t
      some (bytes ++ s, rest)

/-- `parse_string`: the decoded string and the rest. -/
def parseString : List Char → Option (List Char × List Char)
  | '"' :: t => parseChars (t.length + 1) t
  | _ => none

def skipMinus : List Char → List Char
  | '-' :: t | t => t

def skipInteger : List Char → Option (List Char)
  | [] => none
  | c :: t =>
    if c = '0' then some t
    else if 49 ≤ c.toNat ∧ c.toNat ≤ 57 then some ((c :: t).dropWhile Char.isDigit)
    else none

def skipDigits (t : List Char) : Option (List Char) :=
  if (t.takeWhile Char.isDigit).isEmpty then none else some (t.dropWhile Char.isDigit)

def skipFraction : List Char → Option (List Char)
  | '.' :: t => skipDigits t
  | t => some t

def skipSign : List Char → List Char
  | '+' :: t | '-' :: t | t => t

def skipExponent : List Char → Option (List Char)
  | 'e' :: t | 'E' :: t => skipDigits (skipSign t)
  | t => some t

def skipNumber (t : List Char) : Option (List Char) := do
  let t ← skipInteger (skipMinus t)
  let t ← skipFraction t
  skipExponent t

/-! ## Values -/

def consumeLiteral (literal t : List Char) : Option (List Char) :=
  if literal.isPrefixOf t then some (t.drop literal.length) else none

/-- The loop of `skip_array`, `skip` being `skip_value` one level down; a round takes a character.
At the end of the text the loop fails. -/
def skipElements (skip : List Char → Option (List Char)) : Nat → List Char → Option (List Char)
  | 0, _ | _ + 1, [] => none
  | fuel + 1, t => do
    let t ← skip t
    match skipWhitespace t with
    | ',' :: t => skipElements skip fuel (skipWhitespace t)
    | ']' :: t => some t
    | _ => none

/-- `skip_array` behind the bracket. -/
def skipArray (skip : List Char → Option (List Char)) (t : List Char) : Option (List Char) :=
  match skipWhitespace t with
  | ']' :: t => some t
  | t => skipElements skip (t.length + 1) t

/-- The loop of `skip_object`. -/
def skipMembers (skip : List Char → Option (List Char)) : Nat → List Char → Option (List Char)
  | 0, _ | _ + 1, [] => none
  | fuel + 1, t => do
    let (_, t) ← parseString t
    match skipWhitespace t with
    | ':' :: t =>
      let t ← skip (skipWhitespace t)
      match skipWhitespace t with
      | ',' :: t => skipMembers skip fuel (skipWhitespace t)
      | '}' :: t => some t
      | _ => none
    | _ => none

/-- `skip_object` behind the brace. -/
def skipObject (skip : List Char → Option (List Char)) (t : List Char) : Option (List Char) :=
  match skipWhitespace t with
  | '}' :: t => some t
  | t => skipMembers skip (t.length + 1) t

/-- `skip_value` with `levels` values left below each other, `65 - depth`. -/
def skipValue : Nat → List Char → Option (List Char)
  | 0, _ => none
  | levels + 1, t =>
    match skipWhitespace t with
    | [] => none
    | '"' :: t => (parseString ('"' :: t)).map Prod.snd
    | '{' :: t => skipObject (skipValue levels) t
    | '[' :: t => skipArray (skipValue levels) t
    | 't' :: t => consumeLiteral ['t', 'r', 'u', 'e'] ('t' :: t)
    | 'f' :: t => consumeLiteral ['f', 'a', 'l', 's', 'e'] ('f' :: t)
    | 'n' :: t => consumeLiteral ['n', 'u', 'l', 'l'] ('n' :: t)
    | t => skipNumber t

/-! ## Members -/

/-- The loop of `find_member`: what was found, and the text from its value on. The end of the text
is no failure. -/
def findMembers (key : List Char) :
    Nat → Option (List Char) → List Char → Option (Option (List Char) × List Char)
  | 0, _, _ => none
  | _ + 1, found, [] => some (found, [])
  | fuel + 1, found, t => do
    let (name, t) ← parseString t
    match skipWhitespace t with
    | ':' :: t =>
      let value := skipWhitespace t
      let t ← skipValue 65 value
      if name = key ∧ found.isSome then none
      else
        let found := if name = key then some value else found
        match skipWhitespace t with
        | ',' :: t => findMembers key fuel found (skipWhitespace t)
        | '}' :: t => some (found, t)
        | _ => none
    | _ => none

/-- `find_member` behind the brace. -/
def findInObject (key t : List Char) : Option (Option (List Char) × List Char) :=
  match skipWhitespace t with
  | '}' :: t => some (none, t)
  | t => findMembers key (t.length + 1) none t

/-- `find_member`: the text from the value of the member on. -/
def findMember (json key : List Char) : JsonField (List Char) :=
  match skipWhitespace json with
  | '{' :: t =>
    match findInObject key t with
    | none => .Invalid
    | some (found, rest) =>
      if skipWhitespace rest ≠ [] then .Invalid
      else
        match found with
        | none => .Missing
        | some value => .Valid value
  | _ => .Invalid

def readMember {α : Type} (decode : List Char → Option α) (json key : List Char) : JsonField α :=
  match findMember json key with
  | .Missing => .Missing
  | .Invalid => .Invalid
  | .Valid t =>
    match decode t with
    | none => .Invalid
    | some output => .Valid output

def readJsonString : List Char → List Char → JsonField (List Char) :=
  readMember fun t => (parseString t).map Prod.fst

/-- `std::from_chars` of an `int64_t`: the value and where it stops. -/
def fromChars (t : List Char) : Option (Int × List Char) :=
  let digits := skipMinus t
  let ds := digits.takeWhile Char.isDigit
  if ds.isEmpty then none
  else
    let value : Int := if t.head? = some '-' then -(numberOf ds : Int) else numberOf ds
    if int64Min ≤ value ∧ value ≤ int64Max then some (value, digits.dropWhile Char.isDigit)
    else none

/-- The decoding of `read_json_int64`. -/
def decodeInt64 (t : List Char) : Option Int := do
  let rest ← skipNumber t
  match fromChars (t.take (t.length - rest.length)) with
  | some (value, []) => some value
  | _ => none

def readJsonInt64 : List Char → List Char → JsonField Int := readMember decodeInt64

/-- The decoding of `read_json_bool`. -/
def decodeBool (t : List Char) : Option Bool :=
  if ['t', 'r', 'u', 'e'].isPrefixOf t then some true
  else if ['f', 'a', 'l', 's', 'e'].isPrefixOf t then some false
  else none

def readJsonBool : List Char → List Char → JsonField Bool := readMember decodeBool

/-- The loop of `read_json_string_array`. -/
def readStrings : Nat → List Char → Option (List (List Char))
  | 0, _ | _ + 1, [] => none
  | fuel + 1, t => do
    let (value, t) ← parseString t
    match skipWhitespace t with
    | ',' :: t => do
      let values ← readStrings fuel (skipWhitespace t)
      some (value :: values)
    | ']' :: _ => some [value]
    | _ => none

/-- The decoding of `read_json_string_array`. -/
def decodeStringArray (t : List Char) : Option (List (List Char)) :=
  match t with
  | '[' :: t =>
    match skipWhitespace t with
    | ']' :: _ => some []
    | t => readStrings (t.length + 1) t
  | _ => none

def readJsonStringArray : List Char → List Char → JsonField (List (List Char)) :=
  readMember decodeStringArray

end Zepto.Auth
