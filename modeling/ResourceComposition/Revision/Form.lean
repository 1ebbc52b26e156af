import ResourceComposition.Revision.Basic

/-!
# The JSON form of revisions

What may be left out of a revision and its parts has a default; where the default is a list or a
word it may be left out but not be null. When a revision is written, optional parts that are not
there are left out, and so are empty lists of patch sets, patches, details and checks.
-/

namespace ResourceComposition

/-- A list, or nothing if it is empty. -/
def encodeNonEmpty {α : Type} (item : α → Json) : List α → Option Json
  | [] => none
  | items => some (.array (items.map item))

namespace TypeReference

/-- The type that a value stands for. -/
def decode : Decoder TypeReference :=
  Decode.record "struct TypeReference" .listed <|
    TypeReference.mk <$> Decode.required "apiVersion" Decode.string <*>
      Decode.required "kind" Decode.string

/-- The value of a type. -/
def encode (t : TypeReference) : Json :=
  .object [("apiVersion", .string t.apiVersion), ("kind", .string t.kind)]

end TypeReference

/-- The types of patches by their words. -/
def PatchType.words : List (String × PatchType) :=
  [.fromComposite, .fromEnvironment, .toComposite, .patchSet].map fun type => (type.word, type)

/-- The policies by their words. -/
def SourcePolicy.words : List (String × SourcePolicy) :=
  [.optional, .required].map fun policy => (policy.word, policy)

namespace Patch

/-- The policy that a value stands for. -/
def decodePolicy : Decoder SourcePolicy :=
  Decode.record "struct PatchPolicy" .listed <|
    Decode.givenOr "fromFieldPath" .optional (Decode.variant SourcePolicy.words)

/-- The patch that a value stands for. -/
def decode : Decoder Patch :=
  let text (name : String) := Decode.optional name Decode.string
  Decode.record "struct Patch" .listed <|
    Patch.mk <$> Decode.givenOr "type" .fromComposite (Decode.variant PatchType.words) <*>
      text "fromFieldPath" <*> text "toFieldPath" <*> text "patchSetName" <*>
      Decode.optional "policy" decodePolicy

/-- The value of a patch. -/
def encode (p : Patch) : Json :=
  .ofPresent [
    ("fromFieldPath", p.fromFieldPath.map .string),
    ("patchSetName", p.patchSetName.map .string),
    ("policy", p.policy.map fun policy => .object [("fromFieldPath", .string policy.word)]),
    ("toFieldPath", p.toFieldPath.map .string),
    ("type", some (.string p.type.word))]

end Patch

namespace PatchSet

/-- The patch set that a value stands for. -/
def decode : Decoder PatchSet :=
  Decode.record "struct PatchSet" .listed <|
    PatchSet.mk <$> Decode.required "name" Decode.string <*>
      Decode.givenOr "patches" [] (Decode.list Patch.decode)

/-- The value of a patch set. -/
def encode (s : PatchSet) : Json :=
  .object [("name", .string s.name), ("patches", .array (s.patches.map Patch.encode))]

end PatchSet

/-- The sources of details by their words. -/
def DetailType.words : List (String × DetailType) :=
  [.fromSecretKey, .fromFieldPath, .fromValue].map fun type => (type.word, type)

namespace ConnectionDetail

/-- The connection detail that a value stands for. -/
def decode : Decoder ConnectionDetail :=
  let text (name : String) := Decode.optional name Decode.string
  Decode.record "struct ConnectionDetail" .listed <|
    ConnectionDetail.mk <$> text "name" <*>
      Decode.optional "type" (Decode.variant DetailType.words) <*>
      text "fromConnectionSecretKey" <*> text "fromFieldPath" <*> text "value"

/-- The value of a connection detail. -/
def encode (d : ConnectionDetail) : Json :=
  .ofPresent [
    ("fromConnectionSecretKey", d.fromConnectionSecretKey.map .string),
    ("fromFieldPath", d.fromFieldPath.map .string),
    ("name", d.name.map .string),
    ("type", d.type.map fun type => .string type.word),
    ("value", d.value.map .string)]

end ConnectionDetail

/-- The types of checks by their words. -/
def CheckType.words : List (String × CheckType) :=
  [.nonEmpty, .matchString, .matchInteger, .matchTrue, .matchFalse, .matchCondition, .none].map
    fun type => (type.word, type)

namespace ReadinessCheck

/-- The condition that a value stands for. -/
def decodeMatch : Decoder ConditionMatch :=
  Decode.record "struct MatchConditionReadinessCheck" .listed <|
    ConditionMatch.mk <$> Decode.required "type" Decode.string <*>
      Decode.required "status" ConditionStatus.decode

/-- The value of a condition that a check asks for. -/
def encodeMatch (c : ConditionMatch) : Json :=
  .object [("status", .string c.status.word), ("type", .string c.type)]

/-- The check that a value stands for. -/
def decode : Decoder ReadinessCheck :=
  Decode.record "struct ReadinessCheck" .listed <|
    ReadinessCheck.mk <$> Decode.givenOr "type" .nonEmpty (Decode.variant CheckType.words) <*>
      Decode.optional "fieldPath" Decode.string <*> Decode.optional "matchString" Decode.string <*>
      Decode.optional "matchInteger" Decode.int64 <*> Decode.optional "matchCondition" decodeMatch

/-- The value of a check. -/
def encode (c : ReadinessCheck) : Json :=
  .ofPresent [
    ("fieldPath", c.fieldPath.map .string),
    ("matchCondition", c.matchCondition.map encodeMatch),
    ("matchInteger", c.matchInteger.map .int),
    ("matchString", c.matchString.map .string),
    ("type", some (.string c.type.word))]

end ReadinessCheck

namespace Template

/-- The template that a value stands for. -/
def decode : Decoder Template :=
  Decode.record "struct ComposedTemplate" .listed <|
    Template.mk <$> Decode.optional "name" Decode.string <*>
      Decode.givenOr "base" .null Decode.any <*>
      Decode.givenOr "patches" [] (Decode.list Patch.decode) <*>
      Decode.givenOr "connectionDetails" [] (Decode.list ConnectionDetail.decode) <*>
      Decode.givenOr "readinessChecks" [] (Decode.list ReadinessCheck.decode)

/-- The value of a template. -/
def encode (t : Template) : Json :=
  .ofPresent [
    ("base", some t.base),
    ("connectionDetails", encodeNonEmpty ConnectionDetail.encode t.connectionDetails),
    ("name", t.name.map .string),
    ("patches", encodeNonEmpty Patch.encode t.patches),
    ("readinessChecks", encodeNonEmpty ReadinessCheck.encode t.readinessChecks)]

end Template

namespace Revision

/-- The revision that a value stands for. -/
def decode : Decoder Revision :=
  Decode.record "struct CompositionRevisionSpec" .listed <|
    Revision.mk <$> Decode.givenOr "compositeTypeRef" {} TypeReference.decode <*>
      Decode.givenOr "patchSets" [] (Decode.list PatchSet.decode) <*>
      Decode.givenOr "resources" [] (Decode.list Template.decode) <*>
      Decode.optional "writeConnectionSecretsToNamespace" Decode.string <*>
      Decode.givenOr "revision" 0 Decode.int64

/-- The value of a revision. -/
def encode (r : Revision) : Json :=
  .ofPresent [
    ("compositeTypeRef", some r.compositeTypeRef.encode),
    ("patchSets", encodeNonEmpty PatchSet.encode r.patchSets),
    ("resources", some (.array (r.templates.map Template.encode))),
    ("revision", some (.int r.number)),
    ("writeConnectionSecretsToNamespace", r.writeConnectionSecretsToNamespace.map .string)]

end Revision

end ResourceComposition
