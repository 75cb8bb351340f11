import Zepto.Lib.Stream

/-!
# JSON texts

The texts of the JSON grammar as syntax trees that keep every choice the grammar leaves: white
space, escapes, the digits of a number. `text` is what a tree stands for, byte by byte (a byte is
the character of its code), `decoded` what a string denotes and `levels` how deep arrays and objects
are nested. A lone surrogate has no tree.
-/

namespace Zepto.Lib.JsonText

def isWhite (c : Char) : Bool := c = ' ' || c = '\t' || c = '\n' || c = '\r'

structure White where
  text : List Char
  white : ∀ c ∈ text, isWhite c = true

/-! ## Strings -/

def utf8 (n : Nat) : List Char :=
  (String.utf8EncodeChar (.ofNat n)).map fun b => .ofNat b.toNat

def isHex (c : Char) : Bool :=
  c.isDigit || 97 ≤ c.toNat && c.toNat ≤ 102 || 65 ≤ c.toNat && c.toNat ≤ 70

def hexDigit (c : Char) : Nat :=
  if c.isDigit then c.toNat - 48 else if 97 ≤ c.toNat then c.toNat - 87 else c.toNat - 55

structure Hex4 where
  a : Char
  b : Char
  c : Char
  d : Char
  hex : ∀ x ∈ [a, b, c, d], isHex x = true

def Hex4.text (h : Hex4) : List Char := [h.a, h.b, h.c, h.d]

def Hex4.value (h : Hex4) : Nat :=
  ((hexDigit h.a * 16 + hexDigit h.b) * 16 + hexDigit h.c) * 16 + hexDigit h.d

/-- An escape of one letter. -/
inductive Escape
  | quote | backslash | slash | backspace | formFeed | lineFeed | carriageReturn | tab
  deriving DecidableEq

def Escape.letter : Escape → Char
  | quote => '"'
  | backslash => '\\'
  | slash => '/'
  | backspace => 'b'
  | formFeed => 'f'
  | lineFeed => 'n'
  | carriageReturn => 'r'
  | tab => 't'

def Escape.meaning : Escape → Char
  | quote => '"'
  | backslash => '\\'
  | slash => '/'
  | backspace => Char.ofNat 8
  | formFeed => Char.ofNat 12
  | lineFeed => '\n'
  | carriageReturn => '\r'
  | tab => '\t'

/-- A byte, an escape, or a pair of escapes for a code point outside the basic plane. -/
inductive Part
  | plain (c : Char) (notQuote : c ≠ '"') (notBackslash : c ≠ '\\') (notControl : 32 ≤ c.toNat)
  | escape (e : Escape)
  | unicode (code : Hex4) (scalar : code.value < 0xd800 ∨ 0xdfff < code.value)
  | pair (high low : Hex4) (isHigh : 0xd800 ≤ high.value ∧ high.value ≤ 0xdbff)
      (isLow : 0xdc00 ≤ low.value ∧ low.value ≤ 0xdfff)

def Part.text : Part → List Char
  | plain c _ _ _ => [c]
  | escape e => ['\\', e.letter]
  | unicode code _ => '\\' :: 'u' :: code.text
  | pair high low _ _ => '\\' :: 'u' :: (high.text ++ '\\' :: 'u' :: low.text)

def Part.decoded : Part → List Char
  | plain c _ _ _ => [c]
  | escape e => [e.meaning]
  | unicode code _ => utf8 code.value
  | pair high low _ _ => utf8 (0x10000 + (high.value - 0xd800) * 0x400 + (low.value - 0xdc00))

abbrev Str := List Part

def Str.text (s : Str) : List Char := '"' :: (s.flatMap Part.text ++ ['"'])

def Str.decoded (s : Str) : List Char := s.flatMap Part.decoded

structure Digits where
  text : List Char
  nonempty : text ≠ []
  digits : ∀ c ∈ text, c.isDigit = true

structure Exponent where
  letter : Char
  isLetter : letter = 'e' ∨ letter = 'E'
  sign : List Char
  isSign : sign = [] ∨ sign = ['+'] ∨ sign = ['-']
  digits : Digits

def Exponent.text (e : Exponent) : List Char := e.letter :: (e.sign ++ e.digits.text)

/-- A number; its whole part starts with a zero only if it is zero. -/
structure Number where
  negative : Bool
  whole : Digits
  canonical : whole.text = ['0'] ∨ whole.text.head? ≠ some '0'
  fraction : Option Digits
  exponent : Option Exponent

namespace Number

def signText (n : Number) : List Char := if n.negative then ['-'] else []

def fractionText (n : Number) : List Char := (n.fraction.map fun f => '.' :: f.text).getD []

def exponentText (n : Number) : List Char := (n.exponent.map Exponent.text).getD []

def text (n : Number) : List Char :=
  n.signText ++ (n.whole.text ++ (n.fractionText ++ n.exponentText))

/-- The value of a number written without fraction and exponent. -/
def integer? (n : Number) : Option Int :=
  if n.fraction.isNone ∧ n.exponent.isNone then
    some (if n.negative then -(numberOf n.whole.text : Int) else numberOf n.whole.text)
  else none

end Number

/-! ## Values -/

mutual

inductive Value
  | string (s : Str)
  | number (n : Number)
  | bool (b : Bool)
  | null
  | emptyArray (w : White)
  | array (w : White) (elements : Elements)
  | emptyObject (w : White)
  | object (w : White) (members : Members)

/-- Elements, with the white space behind each and behind each comma. -/
inductive Elements
  | last (v : Value) (w : White)
  | more (v : Value) (w : White) (w' : White) (rest : Elements)

/-- Members, with the white space around colons, behind values and behind commas. -/
inductive Members
  | last (name : Str) (w1 w2 : White) (v : Value) (w : White)
  | more (name : Str) (w1 w2 : White) (v : Value) (w : White) (w' : White) (rest : Members)

end

mutual

def Value.text : Value → List Char
  | .string s => s.text
  | .number n => n.text
  | .bool true => ['t', 'r', 'u', 'e']
  | .bool false => ['f', 'a', 'l', 's', 'e']
  | .null => ['n', 'u', 'l', 'l']
  | .emptyArray w => '[' :: (w.text ++ [']'])
  | .array w es => '[' :: (w.text ++ (es.text ++ [']']))
  | .emptyObject w => '{' :: (w.text ++ ['}'])
  | .object w ms => '{' :: (w.text ++ (ms.text ++ ['}']))

def Elements.text : Elements → List Char
  | .last v w => v.text ++ w.text
  | .more v w w' rest => v.text ++ (w.text ++ ',' :: (w'.text ++ rest.text))

def Members.text : Members → List Char
  | .last name w1 w2 v w => name.text ++ (w1.text ++ ':' :: (w2.text ++ (v.text ++ w.text)))
  | .more name w1 w2 v w w' rest =>
    name.text ++ (w1.text ++ ':' :: (w2.text ++ (v.text ++ (w.text ++ ',' ::
      (w'.text ++ rest.text)))))

end

mutual

def Value.levels : Value → Nat
  | .array _ es => es.levels + 1
  | .object _ ms => ms.levels + 1
  | .emptyArray _ | .emptyObject _ => 1
  | _ => 0

def Elements.levels : Elements → Nat
  | .last v _ => v.levels
  | .more v _ _ rest => max v.levels rest.levels

def Members.levels : Members → Nat
  | .last _ _ _ v _ => v.levels
  | .more _ _ _ v _ _ rest => max v.levels rest.levels

end

def Elements.toList : Elements → List Value
  | .last v _ => [v]
  | .more v _ _ rest => v :: rest.toList

def Members.toList : Members → List (List Char × Value)
  | .last name _ _ v _ => [(name.decoded, v)]
  | .more name _ _ v _ _ rest => (name.decoded, v) :: rest.toList

/-- A text that is an object, with white space around it. -/
structure ObjectText where
  before : White
  opening : White
  members : Option Members
  after : White

namespace ObjectText

def text (o : ObjectText) : List Char :=
  o.before.text ++ '{' :: (o.opening.text ++ ((o.members.map Members.text).getD [] ++ '}' ::
    o.after.text))

def toList (o : ObjectText) : List (List Char × Value) := (o.members.map Members.toList).getD []

def levels (o : ObjectText) : Nat := (o.members.map Members.levels).getD 0

end ObjectText

end Zepto.Lib.JsonText
