import ResourceComposition.Error

/-!
# Addresses of requests

An address is a path, perhaps with a query behind a question mark. Few characters are barred from
it, among them blanks and controls; the path is stricter than the query. What stands behind a hash
is not part of the address and is not sent.
-/

namespace ResourceComposition

namespace Address

/-- The greatest number of bytes of an address. -/
def maxLength : Nat := 65534

/-- Whether a character may stand in a query: neither a blank or a control of ASCII nor one of four
marks. -/
def allowedInQuery (c : Char) : Bool :=
  '!' ≤ c ∧ c ∉ ['"', '#', '<', '>', '\x7f']

/-- Whether a character may stand in a path. -/
def allowedInPath (c : Char) : Bool :=
  c = '"' ∨ (allowedInQuery c ∧ c ∉ ['?', '`'])

/-- The query as it is sent. -/
def sentQuery : List Char → Except AddressFault (List Char)
  | [] => .ok []
  | c :: rest =>
    if c = '#' then .ok []
    else if allowedInQuery c then (sentQuery rest).map (c :: ·)
    else .error .invalidCharacter

/-- The path, and the query after it, as they are sent. -/
def sentPath : List Char → Except AddressFault (List Char)
  | [] => .ok []
  | c :: rest =>
    if c = '?' then (sentQuery rest).map (c :: ·)
    else if c = '#' then .ok []
    else if allowedInPath c then (sentPath rest).map (c :: ·)
    else .error .invalidCharacter

/-- An address as it is sent. -/
def sent (address : String) : Except AddressFault String :=
  if maxLength < address.utf8ByteSize then .error .tooLong
  else (sentPath address.toList).map String.ofList

end Address

end ResourceComposition
