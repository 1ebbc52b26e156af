import ResourceComposition.FieldPath.Basic
import ResourceComposition.Json.Decode

/-!
# Errors of single operations

What can go wrong with one call to the store, or with one object. Errors are causes; `message`
gives their wording. An error is worth another try when the same operation may succeed later
without a change to what was asked for.
-/

namespace Except

variable {ε ε' α : Type}

@[simp] theorem mapError_ok (f : ε → ε') (a : α) : (ok a : Except ε α).mapError f = ok a := rfl

@[simp] theorem mapError_error (f : ε → ε') (e : ε) :
    (error e : Except ε α).mapError f = error (f e) := rfl

theorem mapError_eq_ok {f : ε → ε'} {result : Except ε α} {a : α} :
    result.mapError f = .ok a ↔ result = .ok a := by
  cases result <;> simp

theorem toOption_eq_some {result : Except ε α} {a : α} :
    result.toOption = some a ↔ result = .ok a := by
  cases result <;> simp [Except.toOption]

end Except

namespace ResourceComposition

/-- A refusal by the API server. -/
structure ApiRefusal where
  /-- The state of the request, `Failure` as a rule. -/
  status : String := "Failure"
  /-- An explanation. -/
  message : String
  /-- The reason in one word. -/
  reason : String
  /-- The numeric code. -/
  code : Nat
  deriving DecidableEq

namespace ApiRefusal

/-- All parts of a refusal, as messages show them. -/
def details (r : ApiRefusal) : String :=
  "ErrorResponse \x7b status: " ++ Text.quoted r.status ++ ", message: " ++ Text.quoted r.message ++
    ", reason: " ++ Text.quoted r.reason ++ ", code: " ++ toString r.code ++ " \x7d"

/-- The wording of a refusal. -/
def text (r : ApiRefusal) : String :=
  "ApiError: " ++ r.message ++ ": " ++ r.reason ++ " (" ++ r.details ++ ")"

end ApiRefusal

/-- Why something cannot be the address of a request. -/
inductive AddressFault where
  /-- A character that no address may hold. -/
  | invalidCharacter
  /-- Too many characters. -/
  | tooLong
  deriving DecidableEq

/-- The wording of a fault. -/
def AddressFault.message : AddressFault → String
  | .invalidCharacter => "invalid uri character"
  | .tooLong => "uri too long"

/-- What is missing in an object. -/
inductive Deficiency where
  /-- The object has no type. -/
  | untyped
  /-- The object has no name. -/
  | unnamed
  /-- The references to composed resources do not have the right form. -/
  | resourceRefs (cause : Decode.Error)
  /-- A deficiency reported in words. -/
  | reported (message : String)
  deriving DecidableEq

/-- The wording of a deficiency. -/
def Deficiency.message : Deficiency → String
  | .untyped => "object has no apiVersion or kind"
  | .unnamed => "object has no name"
  | .resourceRefs cause => "invalid spec.resourceRefs: " ++ cause.message
  | .reported message => message

/-- What went wrong inside. -/
inductive Malfunction where
  /-- A dry run gave no name. -/
  | noNameAllocated
  /-- A call that gives an object gave none. -/
  | nothingReturned
  /-- A malfunction reported in words. -/
  | reported (message : String)
  deriving DecidableEq

/-- The wording of a malfunction. -/
def Malfunction.message : Malfunction → String
  | .noNameAllocated => "server did not allocate a name"
  | .nothingReturned => "store returned nothing"
  | .reported message => message

/-- An error of a single operation. -/
inductive Error where
  /-- The API server refused the request. -/
  | api (refusal : ApiRefusal)
  /-- A stream of answers broke off inside a line. -/
  | unfinishedLine
  /-- The request cannot be sent. -/
  | request (fault : AddressFault)
  /-- The server gave an answer that makes no sense. -/
  | answer (cause : Json.SyntaxError)
  /-- A value does not have the form it should; the kind of the object may be known. -/
  | serialization (cause : Decode.Error) (kind : Option String := none)
  /-- A field path could not be read or followed. -/
  | fieldPath (cause : FieldPath.Error)
  /-- An object lacks something. -/
  | validation (resource : String) (deficiency : Deficiency)
  /-- Something went wrong inside. -/
  | internal (context : String) (malfunction : Malfunction)
  deriving DecidableEq

namespace Error

/-- The word for a resource or a context that is not known. -/
def unknown : String := "unknown"

/-- The wording of an error. -/
def message : Error → String
  | .api refusal => "kubernetes error: " ++ refusal.text
  | .unfinishedLine => "kubernetes error: Error finding newline character"
  | .request fault =>
    "kubernetes error: Failed to build request: failed to build request: " ++ fault.message
  | .answer cause => "kubernetes error: Error deserializing response: " ++ cause.message
  | .serialization cause _ => "serialization error: " ++ cause.message
  | .fieldPath cause => cause.message
  | .validation resource deficiency =>
    "validation error for " ++ resource ++ ": " ++ deficiency.message
  | .internal context malfunction =>
    "internal error [" ++ context ++ "]: " ++ malfunction.message

/-- Whether the server says that the object does not exist. -/
def isNotFound : Error → Bool
  | .api refusal => refusal.code = 404
  | _ => false

/-- Whether the server refused to overwrite a newer version. -/
def isConflict : Error → Bool
  | .api refusal => refusal.code = 409
  | _ => false

/-- Whether another try may succeed: after a conflict, and after anything that is neither a
refusal of the request itself nor a fault of an object or a template. -/
def isRetryable : Error → Bool
  | .api refusal => refusal.code = 409 ∨ ¬ (400 ≤ refusal.code ∧ refusal.code < 500)
  | .unfinishedLine | .request _ | .answer _ | .internal _ _ => true
  | .serialization _ _ | .fieldPath _ | .validation _ _ => false

end Error

end ResourceComposition
