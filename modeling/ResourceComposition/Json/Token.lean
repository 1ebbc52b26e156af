import ResourceComposition.Json.Shape
import ResourceComposition.Text.Bytes
import ResourceComposition.Text.Numeral

/-!
# The tokens of JSON texts

Strings, numbers and the three words. A text is read from left to right by steps that take
characters off its front. Every token can be read for what it means or merely passed over; passing
over asks less: any number will do, and any code units in a string.

A fault says what stands where it must not, and where that is: it counts the bytes that the reader
has looked at, so a fault in the character that comes next lies one byte further on than a fault in
what was read.

A number without a point and an exponent is a whole number when it fits 64 bits; every other
number, the negative zero among them, is a floating point number. Of its digits before the point
those count that fit 64 bits, and of the digits after it those that still fit when they are written
behind; the others only move the point.
-/

namespace ResourceComposition.Json

/-- What keeps a text from being read. -/
inductive Fault where
  /-- The text ends inside the thing named. -/
  | ended (inside : String)
  /-- Something else stands where the thing named must. -/
  | expected (what : String)
  /-- An escape that is none. -/
  | invalidEscape
  /-- A number that breaks off. -/
  | invalidNumber
  /-- A number beyond all floating point numbers. -/
  | numberOutOfRange
  /-- Half of a pair of code units without its other half. -/
  | loneSurrogate
  /-- The first half of a pair of code units with something else after it. -/
  | brokenPair
  /-- A control character inside a string. -/
  | controlCharacter
  /-- The name of a field is no string. -/
  | keyMustBeString
  /-- A comma before a closing bracket. -/
  | trailingComma
  /-- Something after the value. -/
  | trailingCharacters
  /-- Too many lists and objects inside one another. -/
  | tooDeep
  /-- A value that does not have the shape it should. -/
  | mismatch (cause : Mismatch)
  deriving DecidableEq

/-- The wording of a fault. -/
def Fault.message : Fault → String
  | .ended inside => "EOF while parsing " ++ inside
  | .expected what => "expected " ++ what
  | .invalidEscape => "invalid escape"
  | .invalidNumber => "invalid number"
  | .numberOutOfRange => "number out of range"
  | .loneSurrogate => "lone leading surrogate in hex escape"
  | .brokenPair => "unexpected end of hex escape"
  | .controlCharacter => "control character (\\u0000-\\u001F) found while parsing a string"
  | .keyMustBeString => "key must be a string"
  | .trailingComma => "trailing comma"
  | .trailingCharacters => "trailing characters"
  | .tooDeep => "recursion limit exceeded"
  | .mismatch cause => cause.message

/-- A fault, and where it was found: so many bytes into the text that is left. -/
structure Stop where
  /-- What is wrong. -/
  fault : Fault
  /-- What was not read yet. -/
  rest : List Char
  /-- How many bytes further on the fault lies. -/
  ahead : Nat

/-- A fault at a place in the text. -/
structure SyntaxError where
  /-- What is wrong. -/
  fault : Fault
  /-- The line, from one on. -/
  line : Nat
  /-- The bytes of the line up to the fault. -/
  column : Nat
  deriving DecidableEq

/-- The wording of an error. -/
def SyntaxError.message (e : SyntaxError) : String :=
  s!"{e.fault.message} at line {e.line} column {e.column}"

/-- The number of bytes of a list of characters. -/
def byteLength (cs : List Char) : Nat := (String.ofList cs).utf8ByteSize

/-- The error of a fault, with the place where it was found. -/
def Stop.located (text : String) (stop : Stop) : SyntaxError :=
  let bytes := Bytes.ofString text
  let before := bytes.take (bytes.length - byteLength stop.rest + stop.ahead)
  let newline := UInt8.ofNat '\n'.toNat
  { fault := stop.fault
    line := before.count newline + 1
    column := (before.reverse.takeWhile (· ≠ newline)).length }

/-- Reading steps: each takes characters off the front of the text. The number bounds how often a
loop goes round. -/
abbrev Scan (α : Type) : Type := ReaderT Nat (StateT (List Char) (Except Stop)) α

namespace Scan

variable {α σ : Type}

/-- Stop at a fault, so many bytes ahead. -/
def fail (fault : Fault) (ahead : Nat) : Scan α := fun _ rest => .error ⟨fault, rest, ahead⟩

/-- Go on with what is left of the text. -/
def goOn (rest : List Char) : Scan Unit := modify fun _ => rest

/-- Take one character. -/
def advance : Scan Unit := modify (·.drop 1)

/-- Go round a number of times at most, until a step gives a result. -/
def loopWithin (step : σ → Scan (σ ⊕ α)) : (rounds : Nat) → σ → Scan α
  | 0, _ => fail (.ended "a value") 0
  | rounds + 1, state => do
    match ← step state with
    | .inl state => loopWithin step rounds state
    | .inr result => return result

/-- Go round until a step gives a result. A step that gives none takes a character, so there are
fewer rounds than characters. -/
def loop (step : σ → Scan (σ ⊕ α)) (start : σ) : Scan α := do loopWithin step (← read) start

/-- Run a step on a text. -/
def run (step : Scan α) (text : String) : Except SyntaxError α :=
  let chars := text.toList
  match step (chars.length + 1) chars with
  | .ok (result, _) => .ok result
  | .error stop => .error (stop.located text)

/-! ### Blanks and words -/

/-- Blanks between tokens. -/
def isSpace (c : Char) : Bool := c = ' ' ∨ c = '\t' ∨ c = '\n' ∨ c = '\r'

/-- Skip blanks, and look at the character after them. -/
def spaces : Scan (Option Char) := do
  let rest := (← get).dropWhile isSpace
  goOn rest
  return rest.head?

/-- Take the letters of a word that must come next. -/
def word (letters : List Char) : Scan Unit :=
  letters.forM fun letter => do
    match ← get with
    | [] => fail (.ended "a value") 0
    | c :: rest => if c = letter then goOn rest else fail (.expected "ident") 1

/-- A word and the value it stands for. -/
def wordFor? : Char → Option (List Char × Json)
  | 'n' => some (['n', 'u', 'l', 'l'], .null)
  | 't' => some (['t', 'r', 'u', 'e'], .bool true)
  | 'f' => some (['f', 'a', 'l', 's', 'e'], .bool false)
  | _ => none

/-! ### Strings -/

/-- Whether a character stands for itself in a string. -/
def isPlain (c : Char) : Bool := c ≠ '"' ∧ c ≠ '\\' ∧ 32 ≤ c.toNat

/-- The value of four hexadecimal digits. -/
def hexUnit? (a b c d : Char) : Option Nat := do
  let w ← Bytes.hexValue? a
  let x ← Bytes.hexValue? b
  let y ← Bytes.hexValue? c
  let z ← Bytes.hexValue? d
  return 4096 * w + 256 * x + 16 * y + z

/-- The code unit that four digits give. Four bytes are taken in any case. -/
def codeUnit : Scan Nat := do
  let rest ← get
  match rest with
  | a :: b :: c :: d :: after =>
    match hexUnit? a b c d with
    | some unit =>
      goOn after
      return unit
    | none => fail .invalidEscape 4
  | _ =>
    if 4 ≤ byteLength rest then fail .invalidEscape 4
    else fail (.ended "a string") (byteLength rest)

/-- Take a character that must come next for a pair of code units to go on. -/
def pairMark (mark : Char) : Scan Unit := do
  match ← get with
  | [] => fail (.ended "a string") 0
  | c :: rest => if c = mark then goOn rest else fail .brokenPair 1

/-- The character that one code unit gives, or a pair of them. -/
def codeUnits : Scan Char := do
  let high ← codeUnit
  if 0xdc00 ≤ high ∧ high < 0xe000 then fail .loneSurrogate 0
  if high < 0xd800 ∨ 0xe000 ≤ high then return Char.ofNat high
  pairMark '\\'
  pairMark 'u'
  let low ← codeUnit
  if low < 0xdc00 ∨ 0xe000 ≤ low then fail .loneSurrogate 0
  return Char.ofNat (0x10000 + (high - 0xd800) * 0x400 + (low - 0xdc00))

/-- The character that a letter after a backslash stands for. -/
def letterEscape? : Char → Option Char
  | '"' => some '"'
  | '\\' => some '\\'
  | '/' => some '/'
  | 'b' => some '\x08'
  | 'f' => some '\x0c'
  | 'n' => some '\n'
  | 'r' => some '\r'
  | 't' => some '\t'
  | _ => none

/-- What follows a backslash: a letter, or the mark of code units. -/
def escape (units : Scan Char) : Scan Char := do
  match ← get with
  | [] => fail (.ended "a string") 0
  | c :: rest =>
    if c = 'u' then
      goOn rest
      units
    else match letterEscape? c with
      | some char =>
        goOn rest
        return char
      | none => fail .invalidEscape 1

/-- The characters up to the next one that does not stand for itself, and then that one. The
characters before are given last first. -/
def stringPart (before : List Char) : Scan (List Char ⊕ String) := do
  let rest ← get
  let before := (rest.takeWhile isPlain).reverse ++ before
  goOn (rest.dropWhile isPlain)
  match rest.dropWhile isPlain with
  | [] => fail (.ended "a string") 0
  | '"' :: after =>
    goOn after
    return .inr (String.ofList before.reverse)
  | '\\' :: after =>
    goOn after
    return .inl ((← escape codeUnits) :: before)
  | _ => fail .controlCharacter 1

/-- The rest of a string after its opening quote. -/
def string : Scan String := loop stringPart []

/-- Pass over a part of a string. -/
def skipStringPart : Unit → Scan (Unit ⊕ Unit) := fun _ => do
  let rest := (← get).dropWhile isPlain
  goOn rest
  match rest with
  | [] => fail (.ended "a string") 0
  | '"' :: after =>
    goOn after
    return .inr ()
  | '\\' :: after =>
    goOn after
    let _ ← escape ((fun _ => ' ') <$> codeUnit)
    return .inl ()
  | _ => fail .controlCharacter 0

/-- Pass over the rest of a string. -/
def skipString : Scan Unit := loop skipStringPart ()

/-! ### Numbers -/

/-- The parts of a number. -/
structure Numeral where
  /-- The digits before the point. -/
  whole : List Char
  /-- The digits after the point, if there is one. -/
  fraction : Option (List Char)
  /-- The exponent, if there is one: whether it is negative, and its digits. -/
  exponent : Option (Bool × List Char)

/-- Take digits. -/
def digits : Scan (List Char) := do
  let rest ← get
  goOn (rest.dropWhile Char.isDigit)
  return rest.takeWhile Char.isDigit

/-- The digits before the point: a zero stands alone. The fault is for a text that ends here. -/
def wholeDigits (atEnd : Fault) : Scan (List Char) := do
  match ← get with
  | [] => fail atEnd 0
  | c :: rest =>
    if c = '0' then
      goOn rest
      if rest.head?.any Char.isDigit then fail .invalidNumber 1
      return [c]
    else if c.isDigit then digits
    else fail .invalidNumber 1

/-- The digits after the point, if there is one. -/
def fractionDigits (atEnd : Fault) : Scan (Option (List Char)) := do
  match ← get with
  | '.' :: rest =>
    goOn rest
    let taken ← digits
    if taken = [] then fail (if rest = [] then atEnd else .invalidNumber) 1
    return some taken
  | _ => return none

/-- The sign of an exponent, if it has one. -/
def exponentSign : Scan Bool := do
  match ← get with
  | '-' :: rest =>
    goOn rest
    return true
  | '+' :: rest =>
    goOn rest
    return false
  | _ => return false

/-- The exponent, if there is one. -/
def exponentDigits (atEnd : Fault) : Scan (Option (Bool × List Char)) := do
  match ← get with
  | [] => return none
  | c :: rest =>
    if c ≠ 'e' ∧ c ≠ 'E' then return none
    goOn rest
    let negative ← exponentSign
    let taken ← digits
    if taken = [] then
      if (← get) = [] then fail atEnd 0 else fail .invalidNumber 1
    return some (negative, taken)

/-- The parts of a number, after its sign. -/
def numeral (atEnd : Fault) : Scan Numeral :=
  return {
    whole := ← wholeDigits atEnd
    fraction := ← fractionDigits atEnd
    exponent := ← exponentDigits atEnd }

/-- The longest beginning of a list of digits whose value, written after `before`, fits 64
bits. -/
def fittingDigits (before : Nat) : List Char → List Char
  | [] => []
  | c :: rest =>
    let value := 10 * before + Text.digitValue c
    if value ≤ Text.maxUInt64 then c :: fittingDigits value rest else []

/-- The digits that count, as a number, and the power of ten that goes with it. -/
def significant (whole fraction : List Char) : Nat × Int :=
  let fittingWhole := fittingDigits 0 whole
  let fittingFraction := fittingDigits (Text.decimalValue fittingWhole) fraction
  (Text.decimalValue (fittingWhole ++ fittingFraction),
    (whole.length : Int) - fittingWhole.length - fittingFraction.length)

/-- The greatest exponent that is computed with. -/
def maxExponent : Nat := Nat.pow 2 31 - 1

/-- How many digits of an exponent it takes for it to be greater than the greatest. -/
def exponentOverflow? (digits : List Char) : Option Nat :=
  (List.range (digits.length + 1)).find? fun n => maxExponent < Text.decimalValue (digits.take n)

/-- The floating point number of a numeral. An exponent that is too great is a fault at the digit
that makes it so, unless the number is zero or the exponent is negative. -/
def floatOf (negative : Bool) (n : Numeral) : Scan Json := do
  let (size, shift) := significant n.whole (n.fraction.getD [])
  let (small, exponent) := n.exponent.getD (false, [])
  match exponentOverflow? exponent with
  | some places =>
    if size ≠ 0 ∧ !small then
      modify (exponent.drop places ++ ·)
      fail .numberOutOfRange 0
    return .float (Binary64.zero.withSign negative)
  | none =>
    let power : Int := Text.decimalValue exponent
    match Binary64.ofScaled negative size (shift + if small then -power else power) with
    | some x => return .float x
    | none => fail .numberOutOfRange 0

/-- The number that follows, after its sign. -/
def number (negative : Bool) : Scan Json := do
  let n ← numeral (.ended "a value")
  let size := Text.decimalValue n.whole
  let fits := if negative then 0 < size ∧ size ≤ Nat.pow 2 63 else size ≤ Text.maxUInt64
  if n.fraction.isNone ∧ n.exponent.isNone ∧ fits then
    return .int (if negative then -size else size)
  floatOf negative n

/-! ### Single values -/

/-- The value that comes next, if it is neither a list nor an object. -/
def scalar : Scan Json := do
  match ← get with
  | [] => fail (.ended "a value") 0
  | '"' :: rest =>
    goOn rest
    return .string (← string)
  | '-' :: rest =>
    goOn rest
    number true
  | c :: _ =>
    if c.isDigit then number false
    else match wordFor? c with
      | some (letters, value) =>
        word letters
        return value
      | none => fail (.expected "value") 1

/-- Pass over a value that is neither a list nor an object. -/
def skipScalar : Scan Unit := do
  match ← get with
  | '"' :: rest =>
    goOn rest
    skipString
  | '-' :: rest =>
    goOn rest
    let _ ← numeral .invalidNumber
  | c :: _ =>
    if c.isDigit then
      let _ ← numeral .invalidNumber
    else match wordFor? c with
      | some (letters, _) => word letters
      | none => fail (.expected "value") 1
  | [] => fail (.ended "a value") 0

end Scan

end ResourceComposition.Json
