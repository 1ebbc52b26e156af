import ResourceComposition.Text.Numeral
import ResourceComposition.Text.Quoted

/-!
# Field paths

A field path names a place inside a JSON value: `spec.tags[0].key` or
`metadata.labels[example.org/owner]`. A dot comes between two fields. Brackets hold the index of a
list item, or a field whose name may then contain dots.

`parse` reads the text of a path. It goes through the characters once, collecting either a bare
field or the contents of brackets; after a closing bracket only a dot, another bracket or the end
may follow.
-/

namespace ResourceComposition

/-- One step of a field path. -/
inductive Segment where
  /-- To the field of an object. -/
  | field (name : String)
  /-- To the item of a list, counted from zero. -/
  | index (position : Nat)
  deriving DecidableEq

/-- The steps from a value to a place inside it. -/
abbrev FieldPath : Type := List Segment

namespace FieldPath

/-- What a path was followed for. -/
inductive Access where
  /-- To read the value there. -/
  | read
  /-- To write a value there. -/
  | write
  deriving DecidableEq

/-- What is wrong with a path, or with the value it was followed in. -/
inductive Fault where
  /-- A path without segments. -/
  | empty
  /-- A dot with no segment before it. -/
  | unexpectedDot
  /-- A dot with nothing after it. -/
  | trailingDot
  /-- Brackets that are not closed. -/
  | unterminatedBracket
  /-- Brackets with nothing inside. -/
  | emptyBrackets
  /-- A closing bracket without an opening one. -/
  | unexpectedBracket
  /-- A bare field right after brackets. -/
  | textAfterBracket (c : Char)
  /-- A field of something that is no object. -/
  | notObject (access : Access) (name : String)
  /-- An item of something that is no list. -/
  | notArray (access : Access) (position : Nat)
  /-- A patch does not say which field it copies. -/
  | sourceUnnamed
  /-- A field that has to be there is not. -/
  | sourceMissing
  /-- A fault reported in words. -/
  | reported (message : String)
  deriving DecidableEq

/-- The verb for an access. -/
def Access.verb : Access → String
  | .read => "read"
  | .write => "set"

/-- The wording of a fault. -/
def Fault.message : Fault → String
  | .empty => "empty field path"
  | .unexpectedDot => "unexpected '.'"
  | .trailingDot => "trailing '.'"
  | .unterminatedBracket => "unterminated '['"
  | .emptyBrackets => "empty brackets"
  | .unexpectedBracket => "unexpected ']'"
  | .textAfterBracket c => "unexpected " ++ Text.quotedChar c ++ " after ']'"
  | .notObject access name =>
    "cannot " ++ access.verb ++ " field " ++ Text.quoted name ++ ": parent is not an object"
  | .notArray access position =>
    "cannot " ++ access.verb ++ " index " ++ toString position ++ ": parent is not an array"
  | .sourceUnnamed => "fromFieldPath is required"
  | .sourceMissing => "required field is missing"
  | .reported message => message

/-- A fault together with the text of the path it is about. -/
structure Error where
  /-- The path as it was written. -/
  path : String
  /-- What is wrong. -/
  fault : Fault
  deriving DecidableEq

/-- The wording of an error. -/
def Error.message (e : Error) : String :=
  "field path error at " ++ Text.quoted e.path ++ ": " ++ e.fault.message

/-- The segment that the contents of brackets stand for: an index if they are a numeral, and a field
otherwise. -/
def bracketSegment (inner : List Char) : Segment :=
  match Text.uint64? inner with
  | some position => .index position
  | none => .field (String.ofList inner)

/-- The segment of a bare field, if any characters of one were collected. -/
def bareSegment (field : List Char) : FieldPath :=
  if field = [] then [] else [.field (String.ofList field)]

mutual

/-- Read on outside brackets: `field` was collected since the last separator, and `closed` says
that a closing bracket came just before. -/
def parseBare (field : List Char) (closed : Bool) : List Char → Except Fault FieldPath
  | [] => .ok (bareSegment field)
  | c :: rest =>
    if c = '.' then
      if field = [] ∧ !closed then .error .unexpectedDot
      else if rest = [] then .error .trailingDot
      else (parseBare [] false rest).map (bareSegment field ++ ·)
    else if c = '[' then (parseBracket [] rest).map (bareSegment field ++ ·)
    else if c = ']' then .error .unexpectedBracket
    else if closed then .error (.textAfterBracket c)
    else parseBare (field ++ [c]) false rest

/-- Read on inside brackets, of which `inner` was collected. -/
def parseBracket (inner : List Char) : List Char → Except Fault FieldPath
  | [] => .error .unterminatedBracket
  | c :: rest =>
    if c = ']' then
      if inner = [] then .error .emptyBrackets
      else (parseBare [] true rest).map (bracketSegment inner :: ·)
    else parseBracket (inner ++ [c]) rest

end

/-- The path that a list of characters stands for. -/
def parseChars (cs : List Char) : Except Fault FieldPath :=
  if cs = [] then .error .empty else parseBare [] false cs

/-- The path that a text stands for. -/
def parse (text : String) : Except Error FieldPath :=
  (parseChars text.toList).mapError fun fault => ⟨text, fault⟩

end FieldPath

end ResourceComposition
