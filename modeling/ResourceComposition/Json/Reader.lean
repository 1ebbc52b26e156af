import ResourceComposition.Json.Token

/-!
# Reading JSON texts

A text is read with a shape in hand. What the shape knows nothing of is passed over, and as soon as
a value turns out to have another shape the reading stops, whatever may stand in the text further
on. So a text has one first fault, which is either a break of the grammar or a mismatch with the
shape, and it has a place.

Of a record only the known fields are kept, as a dictionary; an open-ended record keeps all its
fields, as they stand in the text. Lists and objects nest 127 deep at most, those in what is passed
over not counted.
-/

namespace ResourceComposition.Json

namespace Scan

variable {α : Type}

/-! ### Lists and objects -/

/-- Go to the next item of a list, if there is one. -/
def nextItem (first : Bool) : Scan Bool := do
  match ← spaces with
  | none => fail (.ended "a list") 1
  | some c =>
    if c = ']' then return false
    if first then return true
    if c ≠ ',' then fail (.expected "`,` or `]`") 1
    advance
    match ← spaces with
    | none => fail (.ended "a value") 1
    | some c =>
      if c = ']' then fail .trailingComma 1
      return true

/-- Go to the next name in an object, if there is one. -/
def nextName (first : Bool) : Scan Bool := do
  match ← spaces with
  | none => fail (.ended "an object") 1
  | some c =>
    if c = '\x7d' then return false
    if first then
      if c ≠ '"' then fail .keyMustBeString 1
      return true
    if c ≠ ',' then fail (.expected "`,` or `\x7d`") 1
    advance
    match ← spaces with
    | none => fail (.ended "a value") 1
    | some c =>
      if c = '\x7d' then fail .trailingComma 1
      if c ≠ '"' then fail .keyMustBeString 1
      return true

/-- Take the name of the next field, if there is one. -/
def nextKey (first : Bool) : Scan (Option String) := do
  if ← nextName first then
    advance
    return some (← string)
  return none

/-- Take the colon between a name and a value. -/
def colon : Scan Unit := do
  match ← spaces with
  | none => fail (.ended "an object") 1
  | some c => if c = ':' then advance else fail (.expected "`:`") 1

/-- Take the bracket at the end of a list. -/
def closeList : Scan Unit := do
  match ← spaces with
  | none => fail (.ended "a list") 1
  | some c =>
    if c = ']' then advance
    else
      if c ≠ ',' then fail .trailingCharacters 1
      advance
      fail (if (← spaces) = some ']' then .trailingComma else .trailingCharacters) 1

/-- Stop at a mismatch that was found inside a list, once the next mark of the list is taken. -/
def failInList (cause : Mismatch) : Scan α := do
  let next ← spaces
  if next = some ']' then advance
  if next = some ',' then
    advance
    let _ ← spaces
  fail (.mismatch cause) 0

/-- Stop at a mismatch that was found inside an object, once the next brace is taken. -/
def failInObject (cause : Mismatch) : Scan α := do
  if (← spaces) = some '\x7d' then advance
  fail (.mismatch cause) 0

/-! ### Passing over values -/

/-- Take the closing brackets, as far as they match what is open, and then the comma. What is open
is given by its closing brackets, the innermost first. -/
def skipClosing (state : Bool × List Char) : Scan ((Bool × List Char) ⊕ List Char) := do
  match state with
  | (_, []) => return .inr []
  | (complete, close :: outer) =>
    match ← spaces with
    | none => fail (.ended (if close = ']' then "a list" else "an object")) 1
    | some c =>
      if c = close then
        advance
        return .inl (true, outer)
      if !complete then return .inr (close :: outer)
      if c = ',' then
        advance
        return .inr (close :: outer)
      fail (.expected (if close = ']' then "`,` or `]`" else "`,` or `\x7d`")) 1

/-- Pass over a name and the colon after it. -/
def skipName : Scan Unit := do
  match ← spaces with
  | none => fail (.ended "an object") 1
  | some c =>
    if c ≠ '"' then fail .keyMustBeString 1
    advance
    skipString
    colon

/-- Pass over a value up to the next value, or to the end. -/
def skipPart (enclosing : List Char) : Scan (List Char ⊕ Unit) := do
  let opened (close : Char) : Scan (Bool × List Char) := do
    advance
    return (false, close :: enclosing)
  let state ← match ← spaces with
    | some '[' => opened ']'
    | some '\x7b' => opened '\x7d'
    | _ => do
      skipScalar
      pure (true, enclosing)
  match ← loop skipClosing state with
  | [] => return .inr ()
  | close :: outer =>
    if close = '\x7d' then skipName
    return .inl (close :: outer)

/-- Pass over a value. -/
def skipValue : Scan Unit := loop skipPart []

/-! ### Values by shape -/

/-- How the values inside a list or an object are read; none where nothing may be inside. -/
abbrev Inner : Type := Option (Shape → Scan Json)

/-- Take an opening bracket and read on inside. -/
def enter (inner : Inner) (body : (Shape → Scan Json) → Scan α) : Scan α := do
  match inner with
  | none => fail .tooDeep 1
  | some read =>
    advance
    body read

/-- The items of a list. -/
def items (item : Scan Json) : Scan (List Json) :=
  loop (fun before => do
    if ← nextItem before.isEmpty then return .inl ((← item) :: before)
    advance
    return .inr before.reverse) []

/-- The fields of an object. -/
def entries (value : Scan Json) : Scan (List (String × Json)) :=
  loop (fun before : List (String × Json) => do
    match ← nextKey before.isEmpty with
    | some name =>
      colon
      return .inl ((name, ← value) :: before)
    | none =>
      advance
      return .inr before.reverse) []

/-- The value of a field of a record. -/
def fieldValue (read : Shape → Scan Json) (field : FieldRule × Shape) : Scan Json := do
  if field.1.nullable ∧ (← spaces) = some 'n' then
    word ['n', 'u', 'l', 'l']
    return .null
  read field.2

/-- The fields of a record that is given as a list. -/
def listedFields (read : Shape → Scan Json) (name : String) (fields : List (FieldRule × Shape)) :
    List (FieldRule × Shape) → Scan (List Json)
  | [] => do
    closeList
    return []
  | field :: others => do
    let place := fields.length - others.length - 1
    if ← nextItem (place = 0) then
      let value ← fieldValue read field
      return value :: (← listedFields read name fields others)
    match Shape.shortage? name fields place with
    | some cause => failInList cause
    | none =>
      closeList
      return []

/-- The fields of a record that is given as an object. -/
def recordFields (read : Shape → Scan Json) (style : RecordStyle)
    (fields : List (FieldRule × Shape)) : Scan (List (String × Json)) :=
  loop (fun (first, before) => do
    match ← nextKey first with
    | none =>
      match Shape.missing? fields (before.map (·.1)) with
      | some cause => failInObject cause
      | none =>
        advance
        return .inr before.reverse
    | some name =>
      match Shape.ruleFor? fields name with
      | some field =>
        if style ≠ .plain ∧ name ∈ before.map (·.1) then failInObject (.duplicateField name)
        colon
        return .inl (false, (name, ← fieldValue read field) :: before)
      | none =>
        colon
        if style = .openEnded then return .inl (false, (name, ← read .anything) :: before)
        skipValue
        return .inl (false, before)) (true, ([] : List (String × Json)))

/-- The null that goes with a word. -/
def unit : Scan Unit := do
  match ← spaces with
  | some '[' => fail (.mismatch (.invalidType (.array []) "unit")) 0
  | some '\x7b' => fail (.mismatch (.invalidType (.object []) "unit")) 0
  | _ =>
    let value ← scalar
    if !value.isNull then fail (.mismatch (.invalidType value "unit")) 0

/-- One of a list of words, given as the only field of an object. -/
def wordField (words : List String) : Scan Json := do
  if (← spaces) ≠ some '"' then fail (.expected "value") 1
  advance
  let word ← string
  if word ∉ words then fail (.mismatch (.unknownVariant word words)) 0
  colon
  unit
  match ← spaces with
  | none => fail (.ended "an object") 0
  | some c =>
    if c ≠ '\x7d' then fail (.expected "value") 0
    advance
    return .object [(word, .null)]

/-- The value of a shape that begins with a square bracket. -/
def listValue (inner : Inner) (shape : Shape) : Scan Json :=
  match shape with
  | .anything => enter inner fun read => return .array (← items (read .anything))
  | .list item => enter inner fun read => return .array (← items (read item))
  | .record name .listed fields =>
    enter inner fun read => return .array (← listedFields read name fields fields)
  | .record name .plain _ => enter inner fun _ => failInList (.invalidType (.array []) name)
  | .oneOf _ => fail (.expected "value") 1
  | _ => fail (.mismatch (.invalidType (.array []) shape.expected)) 0

/-- The value of a shape that begins with a brace. -/
def objectValue (inner : Inner) (shape : Shape) : Scan Json :=
  match shape with
  | .anything => enter inner fun read => return ofEntries (← entries (read .anything))
  | .dict value => enter inner fun read => return ofEntries (← entries (read value))
  | .record _ .openEnded fields =>
    enter inner fun read => return .object (← recordFields read .openEnded fields)
  | .record _ style fields =>
    enter inner fun read => return ofEntries (← recordFields read style fields)
  | .oneOf words => enter inner fun _ => wordField words
  | _ => fail (.mismatch (.invalidType (.object []) shape.expected)) 0

/-- The value of a shape that begins with any other character. -/
def scalarValue (shape : Shape) (first : Char) : Scan Json := do
  match shape with
  | .oneOf _ => if first ≠ '"' then fail (.expected "value") 1
  | _ => pure ()
  let value ← scalar
  match shape.scalarMismatch? value with
  | some cause => fail (.mismatch cause) 0
  | none => return value

/-- A value of a shape that holds others. -/
def valueAround (inner : Inner) (shape : Shape) : Scan Json := do
  match ← spaces with
  | none => fail (.ended "a value") 1
  | some c =>
    if c = '[' then listValue inner shape
    else if c = '\x7b' then objectValue inner shape
    else scalarValue shape c

/-- A value of a shape in which lists and objects nest so deep at most. -/
def value : (depth : Nat) → Shape → Scan Json
  | 0 => valueAround none
  | depth + 1 => valueAround (some (value depth))

/-- How deep lists and objects may nest. -/
def maxDepth : Nat := 127

/-- A value of a shape with nothing after it. -/
def document (shape : Shape) : Scan Json := do
  let result ← value maxDepth shape
  match ← spaces with
  | none => return result
  | some _ => fail .trailingCharacters 1

end Scan

/-- The value of a shape that a text stands for. -/
def Shape.read (shape : Shape) (text : String) : Except SyntaxError Json :=
  (Scan.document shape).run text

/-- The value that a text stands for. -/
def parse (text : String) : Except SyntaxError Json := Shape.anything.read text

end ResourceComposition.Json
