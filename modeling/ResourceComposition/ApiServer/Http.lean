import ResourceComposition.ApiServer.Address

/-!
# Requests to the API server and its answers

The server is asked over HTTP. A request has a method, an address and, unless it only reads,
content in JSON. An answer has a code and a text. A code of the four and five hundreds refuses the
request, and the text should say why; any other code grants it.
-/

namespace ResourceComposition

/-- What a request wants done. -/
inductive HttpMethod where
  /-- Read. -/
  | get
  /-- Create. -/
  | post
  /-- Replace. -/
  | put
  /-- Change. -/
  | patch
  /-- Delete. -/
  | delete
  deriving DecidableEq

/-- The word for a method. -/
def HttpMethod.word : HttpMethod → String
  | .get => "GET"
  | .post => "POST"
  | .put => "PUT"
  | .patch => "PATCH"
  | .delete => "DELETE"

/-- The content of a request. -/
structure HttpContent where
  /-- How the content is to be understood. -/
  type : String
  /-- The content. -/
  body : Json
  deriving DecidableEq

namespace HttpContent

/-- A value. -/
def json (body : Json) : HttpContent := ⟨"application/json", body⟩

/-- A merge patch. -/
def mergePatch (body : Json) : HttpContent := ⟨"application/merge-patch+json", body⟩

/-- The text that is sent. -/
def text (content : HttpContent) : String := content.body.render

end HttpContent

/-- A request. -/
structure HttpRequest where
  /-- What is to be done. -/
  method : HttpMethod
  /-- The path, and the query after it if there is one. -/
  address : String
  /-- What is sent along. -/
  content : Option HttpContent := none
  deriving DecidableEq

/-- The request as it is sent, if it can be. -/
def HttpRequest.sent (r : HttpRequest) : Except AddressFault HttpRequest :=
  return { r with address := ← Address.sent r.address }

/-- An answer. -/
structure HttpAnswer where
  /-- The code. -/
  code : Nat
  /-- The text. -/
  text : String
  deriving DecidableEq

namespace HttpAnswer

/-- The usual phrases for codes that refuse a request. -/
def phrases : List (Nat × String) := [
  (400, "Bad Request"), (401, "Unauthorized"), (402, "Payment Required"), (403, "Forbidden"),
  (404, "Not Found"), (405, "Method Not Allowed"), (406, "Not Acceptable"),
  (407, "Proxy Authentication Required"), (408, "Request Timeout"), (409, "Conflict"),
  (410, "Gone"), (411, "Length Required"), (412, "Precondition Failed"),
  (413, "Payload Too Large"), (414, "URI Too Long"), (415, "Unsupported Media Type"),
  (416, "Range Not Satisfiable"), (417, "Expectation Failed"), (418, "I'm a teapot"),
  (421, "Misdirected Request"), (422, "Unprocessable Entity"), (423, "Locked"),
  (424, "Failed Dependency"), (425, "Too Early"), (426, "Upgrade Required"),
  (428, "Precondition Required"), (429, "Too Many Requests"),
  (431, "Request Header Fields Too Large"), (451, "Unavailable For Legal Reasons"),
  (500, "Internal Server Error"), (501, "Not Implemented"), (502, "Bad Gateway"),
  (503, "Service Unavailable"), (504, "Gateway Timeout"), (505, "HTTP Version Not Supported"),
  (506, "Variant Also Negotiates"), (507, "Insufficient Storage"), (508, "Loop Detected"),
  (510, "Not Extended"), (511, "Network Authentication Required")]

/-- A code and its usual phrase. -/
def statusLine (code : Nat) : String :=
  toString code ++ " " ++ (phrases.lookup code).getD "<unknown status code>"

/-- Whether the answer refuses the request. -/
def refuses (a : HttpAnswer) : Bool := 400 ≤ a.code ∧ a.code < 600

/-- A code. -/
def decodeCode : Decoder Nat := (Decode.intWithin 0 65535 "u16").map Int.toNat

/-- The refusal that a value describes. -/
def decodeRefusal : Decoder ApiRefusal :=
  let text (name : String) := Decode.givenOr name "" Decode.string
  Decode.record "a refusal" .listed <|
    ApiRefusal.mk <$> Decode.required "status" Decode.string <*> text "message" <*>
      text "reason" <*> Decode.required "code" decodeCode

/-- The refusal that an answer stands for when its text does not describe one. -/
def plainRefusal (a : HttpAnswer) : ApiRefusal :=
  { status := statusLine a.code
    message := Text.quoted a.text
    reason := "Failed to parse error data"
    code := a.code }

/-- The refusal that an answer stands for. What its text says goes over its code. -/
def refusal (a : HttpAnswer) : ApiRefusal :=
  match decodeRefusal.read a.text with
  | .error _ => a.plainRefusal
  | .ok refusal => refusal

/-- What the text of an answer that grants a request stands for; anything else is an error. -/
def granted {α : Type} (meaning : String → Except Json.SyntaxError α) (a : HttpAnswer) :
    Except Error α :=
  if a.refuses then .error (.api a.refusal) else (meaning a.text).mapError .answer

end HttpAnswer

end ResourceComposition
