import ResourceComposition.FieldPath.Basic
import ResourceComposition.Json.Basic

/-!
# Reading and writing at a path

Reading tells two things apart: a place that is not there, which is no fault, and a path that
cannot be followed because it takes a field of something that is no object or an item of something
that is no list. A null stands for a place that is not there.

Writing makes what is missing on the way: a null on the way becomes an object or a list, as the
next segment needs it, and a list is filled up with nulls as far as the index. `set` gives the value
that comes of it, and `setInPlace` is the same done to the value itself, step by step.
-/

namespace ResourceComposition.Json

/-- The value at the end of a path, if there is one and it is not null. -/
def follow? (value : Json) : FieldPath → Except FieldPath.Fault (Option Json)
  | [] => .ok (if value.isNull then none else some value)
  | segment :: rest =>
    match segment, value with
    | _, .null => .ok none
    | .field name, .object fields =>
      match Dict.get? fields name with
      | some child => child.follow? rest
      | none => .ok none
    | .index position, .array items =>
      match items[position]? with
      | some child => child.follow? rest
      | none => .ok none
    | .field name, _ => .error (.notObject .read name)
    | .index position, _ => .error (.notArray .read position)

/-- The fields of a value that a field is to be written into; a null becomes an object. -/
def fieldsForWriting (name : String) : Json → Except FieldPath.Fault (Dict Json)
  | .null => .ok []
  | .object fields => .ok fields
  | _ => .error (.notObject .write name)

/-- The items of a value that an item is to be written into; a null becomes a list. -/
def itemsForWriting (position : Nat) : Json → Except FieldPath.Fault (List Json)
  | .null => .ok []
  | .array items => .ok items
  | _ => .error (.notArray .write position)

/-- A list filled up with nulls to at least the given length. -/
def padded (items : List Json) (length : Nat) : List Json :=
  items ++ List.replicate (length - items.length) .null

/-- Put a value at the end of a path. -/
def write (new : Json) : FieldPath → Json → Except FieldPath.Fault Json
  | [], _ => .ok new
  | .field name :: rest, value => do
    let fields ← fieldsForWriting name value
    let child ← write new rest ((Dict.get? fields name).getD .null)
    return .object (Dict.insert name child fields)
  | .index position :: rest, value => do
    let items ← itemsForWriting position value
    let child ← write new rest (items[position]?.getD .null)
    return .array ((padded items (position + 1)).set position child)

/-- Put a value at the end of a path in place: how that ended, and the value as it is then. Nulls on
the way become containers, a field gets an entry and a list is filled up before the rest of the path
is followed, and they stay that way if it cannot be followed. -/
def writeInPlace (new : Json) : FieldPath → Json → Except FieldPath.Fault Unit × Json
  | [], _ => (.ok (), new)
  | .field name :: rest, value =>
    match fieldsForWriting name value with
    | .error fault => (.error fault, value)
    | .ok fields =>
      let entered := Dict.insertIfNew name .null fields
      let (outcome, child) := writeInPlace new rest ((Dict.get? entered name).getD .null)
      (outcome, .object (Dict.insert name child entered))
  | .index position :: rest, value =>
    match itemsForWriting position value with
    | .error fault => (.error fault, value)
    | .ok items =>
      let filled := padded items (position + 1)
      let (outcome, child) := writeInPlace new rest (filled[position]?.getD .null)
      (outcome, .array (filled.set position child))

/-- The value at a path given by its text. -/
def get? (value : Json) (path : String) : Except FieldPath.Error (Option Json) := do
  let segments ← FieldPath.parse path
  (value.follow? segments).mapError fun fault => ⟨path, fault⟩

/-- The value with another put at a path given by its text. -/
def set (value : Json) (path : String) (new : Json) : Except FieldPath.Error Json := do
  let segments ← FieldPath.parse path
  (write new segments value).mapError fun fault => ⟨path, fault⟩

/-- Put a value at a path given by its text in place. -/
def setInPlace (value : Json) (path : String) (new : Json) : Except FieldPath.Error Unit × Json :=
  match FieldPath.parse path with
  | .error e => (.error e, value)
  | .ok segments =>
    let (outcome, after) := writeInPlace new segments value
    (outcome.mapError fun fault => ⟨path, fault⟩, after)

end ResourceComposition.Json
