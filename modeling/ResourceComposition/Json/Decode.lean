import ResourceComposition.Json.Reader

/-!
# Decoding JSON values

A decoder turns values, or texts, into data of one form. It knows the shape of the values that it
takes and what a value of that shape means. The shape finds the faults, and the meaning makes the
data; each combinator below says both, and `Fields` joins the fields of a record.
-/

namespace ResourceComposition

namespace Decode

/-- Why something could not be decoded. -/
inductive Error where
  /-- A value that does not have the shape it should. -/
  | mismatch (cause : Json.Mismatch)
  /-- A text that is no JSON value of the shape it should have. -/
  | unreadable (cause : Json.SyntaxError)
  /-- An error in the field named. -/
  | inField (path : String) (cause : Error)
  /-- An error reported in words. -/
  | reported (message : String)
  deriving DecidableEq

/-- The wording of an error. -/
def Error.message : Error → String
  | .mismatch cause => cause.message
  | .unreadable cause => cause.message
  | .inField path cause => "invalid " ++ path ++ ": " ++ cause.message
  | .reported message => message

end Decode

/-- A way to turn values into data of one form. -/
structure Decoder (α : Type) where
  /-- What the values look like. -/
  shape : Json.Shape
  /-- What a value means; values of the shape have a meaning. -/
  meaning : Json → Option α

namespace Decoder

variable {α β : Type}

/-- What is wrong with a value that has no meaning. -/
def mismatch (d : Decoder α) (value : Json) : Json.Mismatch :=
  (d.shape.mismatch? value).getD (.invalidType value d.shape.expected)

/-- The data that a value stands for. -/
def decode (d : Decoder α) (value : Json) : Except Decode.Error α :=
  match d.meaning value with
  | some data => .ok data
  | none => .error (.mismatch (d.mismatch value))

instance : CoeFun (Decoder α) fun _ => Json → Except Decode.Error α := ⟨decode⟩

theorem toOption_decode (d : Decoder α) (value : Json) : (d value).toOption = d.meaning value := by
  unfold decode
  cases d.meaning value <;> rfl

/-- The data that a text stands for. -/
def read (d : Decoder α) (text : String) : Except Json.SyntaxError α := do
  let value ← d.shape.read text
  match d.meaning value with
  | some data => return data
  | none => throw ⟨.mismatch (d.mismatch value), 1, 0⟩

/-- Decode, and go on with the data. -/
def map (f : α → β) (d : Decoder α) : Decoder β :=
  { shape := d.shape, meaning := fun value => (d.meaning value).map f }

end Decoder

namespace Decode

variable {α β : Type}

/-! ### Single values -/

/-- Any value, as it is. -/
def any : Decoder Json := { shape := .anything, meaning := some }

/-- A text. -/
def string : Decoder String := { shape := .text, meaning := Json.string? }

/-- A truth value. -/
def bool : Decoder Bool := { shape := .flag, meaning := Json.bool? }

/-- A whole number between two bounds. -/
def intWithin (low high : Int) (name : String) : Decoder Int where
  shape := .integer low high name
  meaning
    | .int n => if low ≤ n ∧ n ≤ high then some n else none
    | _ => none

/-- A whole number of 64 bits with a sign. -/
def int64 : Decoder Int := intWithin Json.minInt64 Json.maxInt64 "i64"

/-- A point in time. -/
def instant : Decoder Instant where
  shape := .instant
  meaning
    | .string s => (Instant.parse s).toOption
    | _ => none

/-- Bytes in base 64; a null stands for no bytes. -/
def bytes : Decoder Bytes where
  shape := .base64
  meaning
    | .null => some []
    | .string s => (Base64.decode s).toOption
    | _ => none

/-- The one text that is allowed. -/
def exactly (allowed : String) : Decoder Unit where
  shape := .constant allowed
  meaning value := if value = .string allowed then some () else none

/-- One of a list of words, each with what it means. A word may also be given as the only field of
an object, with null. -/
def variant (words : List (String × α)) : Decoder α where
  shape := .oneOf (words.map (·.1))
  meaning
    | .string word => words.lookup word
    | .object [(word, .null)] => words.lookup word
    | _ => none

/-! ### Lists and dictionaries -/

/-- A list of values of one form. -/
def list (item : Decoder α) : Decoder (List α) where
  shape := .list item.shape
  meaning
    | .array items => items.mapM item.meaning
    | _ => none

/-- A dictionary of values of one form. -/
def dict (value : Decoder α) : Decoder (Dict α) where
  shape := .dict value.shape
  meaning
    | .object fields => fields.mapM fun (name, v) => return (name, ← value.meaning v)
    | _ => none

/-! ### Records -/

/-- Fields of a record, and what they mean together. -/
structure Fields (α : Type) where
  /-- The fields in the order of their declaration. -/
  rules : List (Json.FieldRule × Json.Shape)
  /-- What the fields mean. -/
  meaning : Dict Json → Option α

namespace Fields

/-- Change what fields mean. -/
def map (f : α → β) (x : Fields α) : Fields β :=
  { rules := x.rules, meaning := fun fields => (x.meaning fields).map f }

/-- Fields, and further fields after them. -/
def seq (f : Fields (α → β)) (x : Fields α) : Fields β where
  rules := f.rules ++ x.rules
  meaning fields := do
    let g ← f.meaning fields
    let a ← x.meaning fields
    return g a

instance : Applicative Fields where
  map := map
  pure a := { rules := [], meaning := fun _ => some a }
  seq f x := f.seq (x ())

end Fields

/-- A field that has to be there. -/
def required (name : String) (value : Decoder α) : Fields α where
  rules := [({ name, nullable := false, required := true }, value.shape)]
  meaning fields := (fields.get? name).bind value.meaning

/-- A field that may be left out. -/
def given (name : String) (value : Decoder α) : Fields (Option α) where
  rules := [({ name, nullable := false, required := false }, value.shape)]
  meaning fields :=
    match fields.get? name with
    | none => some none
    | some v => (value.meaning v).map some

/-- A field that may be left out or null. -/
def optional (name : String) (value : Decoder α) : Fields (Option α) where
  rules := [({ name, nullable := true, required := false }, value.shape)]
  meaning fields :=
    match fields.get? name with
    | none | some .null => some none
    | some v => (value.meaning v).map some

/-- A field that stands for some value if it is left out. -/
def givenOr (name : String) (default : α) (value : Decoder α) : Fields α :=
  (·.getD default) <$> given name value

/-- A field that stands for some value if it is left out or null. -/
def optionalOr (name : String) (default : α) (value : Decoder α) : Fields α :=
  (·.getD default) <$> optional name value

/-- A record; its name says what was expected of any other value. -/
def record (name : String) (style : Json.RecordStyle) (fields : Fields α) : Decoder α where
  shape := .record name style fields.rules
  meaning
    | .object entries => fields.meaning entries
    | .array items =>
      if style = .listed ∧ items.length ≤ fields.rules.length then
        fields.meaning (Dict.ofList ((fields.rules.map (·.1.name)).zip items))
      else none
    | _ => none

end Decode

end ResourceComposition
