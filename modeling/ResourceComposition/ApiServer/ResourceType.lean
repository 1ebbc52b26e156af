import ResourceComposition.Resource.Basic
import ResourceComposition.Text.Lowercase

/-!
# Types of resources

What the API server has to be told about the type of a resource. The type is known only when a
program runs, so the plural, under which the server files the resources of a type, is made from the
kind by the rules of English.
-/

namespace ResourceComposition

/-- A type of resources, as the API server knows it. -/
structure ResourceType where
  /-- The group; the core group has the empty name. -/
  group : String
  /-- The version. -/
  version : String
  /-- Group and version as objects name them. -/
  apiVersion : String
  /-- The kind. -/
  kind : String
  /-- The name under which resources of the type are filed. -/
  plural : String
  deriving DecidableEq

namespace ResourceType

/-- The group and the version in characters, parted at the first slash; without a slash there is
only a version. -/
def splitAtSlash (cs : List Char) : List Char × List Char :=
  match cs.dropWhile (· ≠ '/') with
  | [] => ([], cs)
  | _ :: version => (cs.takeWhile (· ≠ '/'), version)

/-- The group and the version. -/
def splitApiVersion (apiVersion : String) : String × String :=
  let (group, version) := splitAtSlash apiVersion.toList
  (String.ofList group, String.ofList version)

/-- Plurals that do not follow the rules, and the kinds they belong to. -/
def irregularPlurals : List (String × String) := [
  ("endpoints", "endpoints"),
  ("ingress", "ingresses"),
  ("networkpolicy", "networkpolicies")]

/-- Whether a text ends in another. -/
def endsIn (ending : String) (text : List Char) : Bool := ending.toList.isSuffixOf text

/-- The plural of a word by the rules. -/
def regularPlural (word : List Char) : List Char :=
  if endsIn "s" word ∨ endsIn "ch" word ∨ endsIn "sh" word ∨ endsIn "x" word then
    word ++ "es".toList
  else if endsIn "y" word ∧ ¬ endsIn "ay" word ∧ ¬ endsIn "ey" word then
    word.dropLast ++ "ies".toList
  else word ++ "s".toList

/-- The plural of a kind, in lower case. -/
def pluralOf (kind : String) : String :=
  let word := Text.lowercase kind
  match irregularPlurals.lookup word with
  | some plural => plural
  | none => String.ofList (regularPlural word.toList)

/-- The type with a group and version and a kind. -/
def of (apiVersion kind : String) : ResourceType :=
  let (group, version) := splitApiVersion apiVersion
  { group, version, apiVersion, kind, plural := pluralOf kind }

end ResourceType

end ResourceComposition
