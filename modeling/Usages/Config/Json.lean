/-
A configuration as JSON: an object with the same keys as in YAML, or an array of their values in
the order of the keys, of which the last may be missing.
-/
import Usages.Config.Yaml
import Usages.Json.Reader
import Usages.Json.Writer

namespace Usages.Config

def jsonTexts (items : List String) : Json :=
  .arr (items.map .text)

def jsonMember (key : String) : Option (List String) → List (String × Json)
  | some items => [(key, jsonTexts items)]
  | none => []

/-- Only lists that are set have a member. -/
def jsonMembers (config : Config) : List (String × Json) :=
  [("groupByFile", .bool config.groupByFile), ("showFullPath", .bool config.showFullPath)] ++
    jsonMember "include" config.includes ++ jsonMember "exclude" config.excludes ++
    if config.mutatingMethods.isEmpty then []
    else [("mutatingMethods", jsonTexts config.mutatingMethods)]

def toJsonValue (config : Config) : Json :=
  .object config.jsonMembers

/-- The configuration over several lines, with a newline at the end. -/
def toJson (config : Config) : String :=
  config.toJsonValue.pretty ++ "\n"

/-- A list of texts, or null. -/
def jsonOptionalTexts? : Json → Option (Option (List String))
  | .null => some none
  | value => some <$> value.texts?

/-- Set one key. -/
def addJsonMember (values : Partial) (key : String) (value : Json) : Option Partial := do
  match key with
  | "groupByFile" => return { values with groupByFile := ← setOnce values.groupByFile value.bool? }
  | "showFullPath" =>
    return { values with showFullPath := ← setOnce values.showFullPath value.bool? }
  | "include" =>
    return { values with includes := ← setOnce values.includes (jsonOptionalTexts? value) }
  | "exclude" =>
    return { values with excludes := ← setOnce values.excludes (jsonOptionalTexts? value) }
  | "mutatingMethods" =>
    return { values with mutatingMethods := ← setOnce values.mutatingMethods value.texts? }
  | _ => return values

/-- Set the keys of an object in turn; every key has to be a text. -/
def addJsonMembers (values : Partial) : List (Option String × Json) → Option Partial
  | [] => some values
  | (key, value) :: rest => do
    addJsonMembers (← addJsonMember values (← key) value) rest

/-- The keys in the order in which an array gives their values. -/
def keyOrder : List String :=
  ["groupByFile", "showFullPath", "include", "exclude", "mutatingMethods"]

def ofJsonValue? : Json → Option Config
  | .obj members => (addJsonMembers {} members).map (·.complete)
  | .arr items =>
    if keyOrder.length < items.length then none
    else (addJsonMembers {} ((keyOrder.map some).zip items)).map (·.complete)
  | _ => none

/-- Read a configuration. -/
def ofJson? (text : String) : Option Config := do
  ofJsonValue? (← Json.parse text)

end Usages.Config
