import ResourceComposition.Binary64.Shortest
import ResourceComposition.Json.Basic
import ResourceComposition.Text.Quoted

/-!
# The text of JSON values

Values are written without blanks, the fields of an object in the order of its dictionary. In
texts the quote, the backslash and the controls are escaped and nothing else. A floating point
number is written with the fewest digits that read back, positionally while its point lies near
its digits.
-/

namespace ResourceComposition.Json

/-- Numbers are written positionally from 0.00001 up to below 10 to the sixteenth. -/
def numberLayout : Layout := ⟨-4, 16⟩

/-- The text of a floating point number. -/
def printNumber (x : Binary64) : List Char := x.render numberLayout

/-- A character as it stands in the text of a string. -/
def escapeChar (c : Char) : List Char :=
  if c = '"' ∨ c = '\\' then ['\\', c]
  else if c = '\x08' then ['\\', 'b']
  else if c = '\t' then ['\\', 't']
  else if c = '\n' then ['\\', 'n']
  else if c = '\x0c' then ['\\', 'f']
  else if c = '\r' then ['\\', 'r']
  else if c.toNat < 32 then
    ['\\', 'u', '0', '0', Nat.digitChar (c.toNat / 16), Nat.digitChar (c.toNat % 16)]
  else [c]

/-- The text of a string. -/
def printString (s : String) : List Char := '"' :: s.toList.flatMap escapeChar ++ ['"']

mutual

/-- The text of a value. -/
def print : Json → List Char
  | .null => ['n', 'u', 'l', 'l']
  | .bool true => ['t', 'r', 'u', 'e']
  | .bool false => ['f', 'a', 'l', 's', 'e']
  | .int n => (toString n).toList
  | .float x => printNumber x
  | .string s => printString s
  | .array [] => ['[', ']']
  | .array (item :: rest) => '[' :: print item ++ printItems rest ++ [']']
  | .object [] => ['\x7b', '\x7d']
  | .object ((name, value) :: rest) =>
    '\x7b' :: printString name ++ ':' :: print value ++ printFields rest ++ ['\x7d']

/-- The text of further items, a comma before each. -/
def printItems : List Json → List Char
  | [] => []
  | item :: rest => ',' :: print item ++ printItems rest

/-- The text of further fields, a comma before each. -/
def printFields : List (String × Json) → List Char
  | [] => []
  | (name, value) :: rest => ',' :: printString name ++ ':' :: print value ++ printFields rest

end

/-- The text of a value. -/
def render (value : Json) : String := String.ofList value.print

end ResourceComposition.Json
