import ResourceComposition.Text.Bytes

/-!
# Base 64

The standard notation of bytes in base 64 with padding. Reading is strict: the padding has to be
there and the bits of the last symbol that carry no data have to be zero, so that each sequence of
bytes has one notation.

All quads but the last hold four symbols. A fault names the offset of the symbol it is about.
-/

namespace ResourceComposition.Base64

/-- Why a text is not a notation of bytes. -/
inductive Fault where
  /-- A byte that is no symbol, or padding where none may stand. -/
  | symbol (byte : UInt8) (offset : Nat)
  /-- A single symbol is left over, which holds no whole byte. -/
  | length (symbols : Nat)
  /-- The last symbol has bits that carry no data and are not zero. -/
  | lastSymbol (byte : UInt8) (offset : Nat)
  /-- The last quad is not filled up with padding. -/
  | padding
  deriving DecidableEq

/-- The wording of a fault. -/
def Fault.message : Fault → String
  | .symbol byte offset => s!"Invalid symbol {byte.toNat}, offset {offset}."
  | .length symbols => s!"Invalid input length: {symbols}"
  | .lastSymbol byte offset => s!"Invalid last symbol {byte.toNat}, offset {offset}."
  | .padding => "Invalid padding"

/-- The symbols in the order of their values. -/
def alphabet : List Char :=
  "ABCDEFGHIJKLMNOPQRSTUVWXYZabcdefghijklmnopqrstuvwxyz0123456789+/".toList

/-- The symbol of a value below 64. -/
def symbol (value : Nat) : Char := alphabet.getD value '='

/-- The value of a symbol. -/
def value? (byte : UInt8) : Option Nat := alphabet.findIdx? (·.toNat == byte.toNat)

/-- The padding character. -/
def pad : UInt8 := 61

/-- The notation of bytes, three at a time. -/
def encodeChars : Bytes → List Char
  | [] => []
  | [a] => [symbol (a.toNat / 4), symbol (a.toNat % 4 * 16), '=', '=']
  | [a, b] =>
    [symbol (a.toNat / 4), symbol (a.toNat % 4 * 16 + b.toNat / 16), symbol (b.toNat % 16 * 4), '=']
  | a :: b :: c :: rest =>
    symbol (a.toNat / 4) :: symbol (a.toNat % 4 * 16 + b.toNat / 16) ::
      symbol (b.toNat % 16 * 4 + c.toNat / 64) :: symbol (c.toNat % 64) :: encodeChars rest

/-- The notation of bytes. -/
def encode (bytes : Bytes) : String := String.ofList (encodeChars bytes)

/-- The value of the symbol at an offset. -/
def valueAt (offset : Nat) (byte : UInt8) : Except Fault Nat :=
  match value? byte with
  | some value => .ok value
  | none => .error (.symbol byte offset)

/-- The values of symbols from an offset on. -/
def valuesAt : Nat → Bytes → Except Fault (List Nat)
  | _, [] => .ok []
  | offset, byte :: rest => do
    let value ← valueAt offset byte
    return value :: (← valuesAt (offset + 1) rest)

/-- The three bytes of a full quad. -/
def quad (a b c d : Nat) : Bytes :=
  [UInt8.ofNat (a * 4 + b / 16), UInt8.ofNat (b % 16 * 16 + c / 4), UInt8.ofNat (c % 4 * 64 + d)]

/-- The bytes of the last quad, which may end in padding. -/
def decodeLast (offset : Nat) (last : Bytes) : Except Fault Bytes := do
  let symbols := last.takeWhile (· ≠ pad)
  let padding := last.dropWhile (· ≠ pad)
  let values ← valuesAt offset symbols
  if padding ≠ [] ∧ (symbols.length < 2 ∨ padding.any (· ≠ pad)) then
    throw (.symbol pad (offset + symbols.length))
  let lastByte := symbols.getLast?.getD pad
  let lastOffset := offset + symbols.length - 1
  match values with
  | [] => return []
  | [_] => throw (.length (offset + 1))
  | [a, b] =>
    if padding.length ≠ 2 then throw .padding
    if b % 16 ≠ 0 then throw (.lastSymbol lastByte lastOffset)
    return (quad a b 0 0).take 1
  | [a, b, c] =>
    if padding.length ≠ 1 then throw .padding
    if c % 4 ≠ 0 then throw (.lastSymbol lastByte lastOffset)
    return (quad a b c 0).take 2
  | a :: b :: c :: d :: _ => return quad a b c d

/-- The bytes that the text from an offset on stands for. -/
def decodeFrom : Nat → Bytes → Except Fault Bytes
  | offset, a :: b :: c :: d :: e :: rest => do
    let first ← valueAt offset a
    let second ← valueAt (offset + 1) b
    let third ← valueAt (offset + 2) c
    let fourth ← valueAt (offset + 3) d
    return quad first second third fourth ++ (← decodeFrom (offset + 4) (e :: rest))
  | offset, last => decodeLast offset last

/-- The bytes that a text stands for. A stray byte after the last quad, such as a line end, is
reported before anything else. -/
def decodeBytes (text : Bytes) : Except Fault Bytes := do
  if text.length % 4 = 1 then
    if let some stray := text.getLast? then
      if stray ≠ pad && (value? stray).isNone then throw (.symbol stray (text.length - 1))
  decodeFrom 0 text

/-- The bytes that a text stands for. -/
def decode (text : String) : Except Fault Bytes := decodeBytes (Bytes.ofString text)

end ResourceComposition.Base64
