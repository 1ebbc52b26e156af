import ResourceComposition.FieldPath.Access

/-!
# Writing with lengths of 64 bits

The length of a list is a whole number of 64 bits, and so is an index. A list that is too short for an
index is given a length that is greater by one, and the sum of 64 bits may be too great for that: then it
starts again at zero, the list is cut off instead of being filled up, and its item cannot be taken. It
would not help to find that out on adding. Either way writing breaks down and ends in nothing, not even in
a fault.

`setBounded?` is `setInPlace` with such lengths. What does not fit into memory is left out of account.
-/

namespace ResourceComposition.Json

/-- The length that a list needs to have for an index, as it is added up. -/
def lengthFor (position : Nat) : Nat := (UInt64.ofNat position + 1).toNat

/-- A list of a given length, cut off or filled up with nulls. -/
def resized (items : List Json) (length : Nat) : List Json := (padded items length).take length

/-- A list that is made long enough for an index, unless it is. -/
def grown (items : List Json) (position : Nat) : List Json :=
  if items.length ≤ position then resized items (lengthFor position) else items

/-- Put a value at the end of a path in place, if that does not break down. -/
def writeBounded? (new : Json) : FieldPath → Json → Option (Except FieldPath.Fault Unit × Json)
  | [], _ => some (.ok (), new)
  | .field name :: rest, value =>
    match fieldsForWriting name value with
    | .error fault => some (.error fault, value)
    | .ok fields => do
      let entered := Dict.insertIfNew name .null fields
      let (outcome, child) ← writeBounded? new rest ((Dict.get? entered name).getD .null)
      return (outcome, .object (Dict.insert name child entered))
  | .index position :: rest, value =>
    match itemsForWriting position value with
    | .error fault => some (.error fault, value)
    | .ok items => do
      let filled := grown items position
      let (outcome, child) ← writeBounded? new rest (← filled[position]?)
      return (outcome, .array (filled.set position child))

/-- Put a value at a path given by its text in place, if that does not break down. -/
def setBounded? (value : Json) (path : String) (new : Json) :
    Option (Except FieldPath.Error Unit × Json) :=
  match FieldPath.parse path with
  | .error e => some (.error e, value)
  | .ok segments => do
    let (outcome, after) ← writeBounded? new segments value
    return (outcome.mapError fun fault => ⟨path, fault⟩, after)

end ResourceComposition.Json
