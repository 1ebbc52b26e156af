import ResourceComposition.Text.Unprintable

/-!
# Quoted text

The form in which messages show a text or a character: between quotes, with the quote, the
backslash and the usual controls behind a backslash, and any other unprintable character as its
code point in braces. Texts stand between double quotes and characters between single ones; the
other quote needs no escape.
-/

namespace ResourceComposition.Text

/-- A number in lower-case hexadecimal digits. -/
def hexDigits (n : Nat) : List Char := Nat.toDigits 16 n

/-- A character as it stands between quotes of the given kind. -/
def escapeWithin (quote c : Char) : List Char :=
  if c = '\x00' then ['\\', '0']
  else if c = '\t' then ['\\', 't']
  else if c = '\r' then ['\\', 'r']
  else if c = '\n' then ['\\', 'n']
  else if c = '\\' ∨ c = quote then ['\\', c]
  else if isUnprintable c then '\\' :: 'u' :: '\x7b' :: hexDigits c.toNat ++ ['\x7d']
  else [c]

/-- A text between double quotes. -/
def quoted (s : String) : String :=
  String.ofList ('"' :: s.toList.flatMap (escapeWithin '"') ++ ['"'])

/-- A character between single quotes. -/
def quotedChar (c : Char) : String := String.ofList ('\'' :: escapeWithin '\'' c ++ ['\''])

end ResourceComposition.Text
