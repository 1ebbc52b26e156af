import ResourceComposition.Instant
import ResourceComposition.Json.Printer
import ResourceComposition.Text.Base64

/-!
# Shapes of JSON values

A shape says what a value may look like. It describes records field by field, in the order in which
they are declared. `Shape.mismatch?` holds a value against a shape and says what is wrong with it
first: the fields that are there are looked at in the order in which they stand, and only when all
of them are fine is one missed that is not there.

The words that messages use for what was expected belong to the shape.
-/

namespace ResourceComposition.Json

/-- What is wrong with a value that does not have the shape it should. -/
inductive Mismatch where
  /-- A value of another kind. -/
  | invalidType (found : Json) (expected : String)
  /-- A value of the right kind that is not allowed. -/
  | invalidValue (found : Json) (expected : String)
  /-- A record lacks a field. -/
  | missingField (name : String)
  /-- A record has a field twice. -/
  | duplicateField (name : String)
  /-- A list in place of a record has too few or too many entries. -/
  | invalidLength (length : Nat) (expected : String)
  /-- A word that is not one of those allowed. -/
  | unknownVariant (found : String) (allowed : List String)
  /-- A text that is no point in time. -/
  | time (fault : Instant.Fault)
  /-- A text that is no base 64 notation. -/
  | base64 (fault : Base64.Fault)
  deriving DecidableEq

/-- The kind of a value, with the value itself where it is short. -/
def describe : Json → String
  | .null => "null"
  | .bool b => "boolean `" ++ (if b then "true" else "false") ++ "`"
  | .int n => "integer `" ++ toString n ++ "`"
  | .float x => "floating point `" ++ String.ofList (printNumber x) ++ "`"
  | .string s => "string " ++ Text.quoted s
  | .array _ => "sequence"
  | .object _ => "map"

/-- The words allowed, as a message lists them. -/
def alternatives : List String → String
  | [a] => "`" ++ a ++ "`"
  | [a, b] => "`" ++ a ++ "` or `" ++ b ++ "`"
  | words => "one of " ++ ", ".intercalate (words.map fun word => "`" ++ word ++ "`")

/-- The wording of a mismatch. -/
def Mismatch.message : Mismatch → String
  | .invalidType found expected => s!"invalid type: {describe found}, expected {expected}"
  | .invalidValue found expected => s!"invalid value: {describe found}, expected {expected}"
  | .missingField name => "missing field `" ++ name ++ "`"
  | .duplicateField name => "duplicate field `" ++ name ++ "`"
  | .invalidLength length expected => s!"invalid length {length}, expected {expected}"
  | .unknownVariant found allowed =>
    "unknown variant `" ++ found ++ "`, expected " ++ alternatives allowed
  | .time fault => fault.message
  | .base64 fault => fault.message

/-- How a record may be given. In any style, fields that the record does not know do no harm. -/
inductive RecordStyle where
  /-- As an object. Of several fields with one name the last counts. -/
  | plain
  /-- As an object that has no known field twice, or as the list of the fields in the order of
  their declaration, of which the last may be left out. -/
  | listed
  /-- As an object that has no known field twice and whose other fields are kept. -/
  | openEnded
  deriving DecidableEq

/-- What a record says of a field besides the shape of its value. -/
structure FieldRule where
  /-- The name of the field. -/
  name : String
  /-- Whether the field may be null, which counts as not being there. -/
  nullable : Bool
  /-- Whether the field has to be there. -/
  required : Bool
  deriving DecidableEq

/-- What a value may look like. -/
inductive Shape where
  /-- Any value. -/
  | anything
  /-- A text. -/
  | text
  /-- A truth value. -/
  | flag
  /-- A whole number between two bounds. -/
  | integer (low high : Int) (name : String)
  /-- A text that is a point in time. -/
  | instant
  /-- A text that is a base 64 notation, or null. -/
  | base64
  /-- One given text. -/
  | constant (allowed : String)
  /-- One of a list of words. A word may also be given as the only field of an object, with
  null. -/
  | oneOf (words : List String)
  /-- A list of values of one shape. -/
  | list (item : Shape)
  /-- An object with values of one shape. -/
  | dict (value : Shape)
  /-- A record; its name says in messages what was expected. -/
  | record (name : String) (style : RecordStyle) (fields : List (FieldRule × Shape))

namespace Shape

/-- What messages say was expected. -/
def expected : Shape → String
  | .anything => "any value"
  | .text | .constant _ => "a string"
  | .flag => "a boolean"
  | .integer _ _ name => name
  | .instant => "an RFC 3339 formatted date and time string"
  | .base64 => "a base64-encoded string"
  | .oneOf _ => "string or map"
  | .list _ => "a sequence"
  | .dict _ => "a map"
  | .record name _ _ => name

/-- What is wrong with a value that is neither a list nor an object. -/
def scalarMismatch? : Shape → Json → Option Mismatch
  | .anything, _ | .text, .string _ | .flag, .bool _ | .base64, .null => none
  | .integer low high name, .int n =>
    if low ≤ n ∧ n ≤ high then none else some (.invalidValue (.int n) name)
  | .instant, .string s =>
    match Instant.parse s with
    | .ok _ => none
    | .error fault => some (.time fault)
  | .base64, .string s =>
    match Base64.decode s with
    | .ok _ => none
    | .error fault => some (.base64 fault)
  | .constant allowed, .string s =>
    if s = allowed then none else some (.invalidValue (.string s) allowed)
  | .oneOf words, .string s => if s ∈ words then none else some (.unknownVariant s words)
  | shape, value => some (.invalidType value shape.expected)

/-- What is wrong with an object in place of a word. -/
def wordMismatch? (words : List String) : List (String × Json) → Option Mismatch
  | [(word, value)] =>
    if word ∉ words then some (.unknownVariant word words)
    else if value.isNull then none
    else some (.invalidType value "unit")
  | fields => some (.invalidValue (.object fields) "map with a single key")

/-- The field of a record that has a name. -/
def ruleFor? (fields : List (FieldRule × Shape)) (name : String) : Option (FieldRule × Shape) :=
  fields.find? fun field => field.1.name = name

/-- The first field that has to be there and has no value. -/
def missing? (fields : List (FieldRule × Shape)) (given : List String) : Option Mismatch :=
  (fields.find? fun field => field.1.required ∧ field.1.name ∉ given).map fun field =>
    .missingField field.1.name

/-- What a list lacks that gives the first fields of a record, so many of them. -/
def shortage? (name : String) (fields : List (FieldRule × Shape)) (length : Nat) :
    Option Mismatch :=
  ((fields.drop length).findIdx? fun field => field.1.required).map fun place =>
    .invalidLength (length + place) s!"{name} with {fields.length} elements"

mutual

/-- What is wrong with a value, if it does not have a shape. -/
def mismatch? (shape : Shape) : Json → Option Mismatch
  | .array items =>
    match shape with
    | .anything => none
    | .list item => itemsMismatch? item items
    | .record name .listed fields =>
      listedMismatch? fields items <|> shortage? name fields items.length <|>
        if fields.length < items.length then
          some (.invalidLength items.length "fewer elements in array")
        else none
    | _ => some (.invalidType (.array items) shape.expected)
  | .object entries =>
    match shape with
    | .anything => none
    | .dict value => valuesMismatch? value entries
    | .record _ _ fields => fieldsMismatch? fields entries <|> missing? fields (entries.map (·.1))
    | .oneOf words => wordMismatch? words entries
    | _ => some (.invalidType (.object entries) shape.expected)
  | value => shape.scalarMismatch? value

/-- What is wrong with the first wrong item. -/
def itemsMismatch? (shape : Shape) : List Json → Option Mismatch
  | [] => none
  | item :: rest => mismatch? shape item <|> itemsMismatch? shape rest

/-- What is wrong with the first wrong value. -/
def valuesMismatch? (shape : Shape) : List (String × Json) → Option Mismatch
  | [] => none
  | (_, value) :: rest => mismatch? shape value <|> valuesMismatch? shape rest

/-- What is wrong with the first wrong field of an object. -/
def fieldsMismatch? (fields : List (FieldRule × Shape)) : List (String × Json) → Option Mismatch
  | [] => none
  | (name, value) :: rest =>
    match ruleFor? fields name with
    | some (rule, shape) =>
      (if rule.nullable ∧ value.isNull then none else mismatch? shape value) <|>
        fieldsMismatch? fields rest
    | none => fieldsMismatch? fields rest

/-- What is wrong with the first wrong field in a list of fields. -/
def listedMismatch? (fields : List (FieldRule × Shape)) : List Json → Option Mismatch
  | [] => none
  | value :: rest =>
    match fields with
    | (rule, shape) :: others =>
      (if rule.nullable ∧ value.isNull then none else mismatch? shape value) <|>
        listedMismatch? others rest
    | [] => none

end

end Shape

end ResourceComposition.Json
