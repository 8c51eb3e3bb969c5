/-
A configuration as YAML. Written, it is a block mapping with its keys in a fixed order; a list
that is not set is left out. Read, a mapping may hold other keys besides, which do not matter, but
each known key at most once; where text is expected, every scalar is text as it stands.
-/
import Usages.Config.Basic
import Usages.Yaml.Node
import Usages.Yaml.Writer

namespace Usages.Config

open Yaml (Node)

def boolText (value : Bool) : String :=
  if value then "true" else "false"

def writeYamlFlag (key : String) (value : Bool) : List Char :=
  key.toList ++ ':' :: ' ' :: (boolText value).toList ++ ['\n']

def writeYamlOption (key : String) : Option (List String) → List Char
  | some items => Yaml.writeList key items
  | none => []

def toYaml (config : Config) : String :=
  String.ofList <|
    writeYamlFlag "groupByFile" config.groupByFile ++
    writeYamlFlag "showFullPath" config.showFullPath ++
    writeYamlOption "include" config.includes ++
    writeYamlOption "exclude" config.excludes ++
    if config.mutatingMethods.isEmpty then []
    else Yaml.writeList "mutatingMethods" config.mutatingMethods

/-- The text of a scalar, however it is written. -/
def yamlText? : Node → Option String
  | .scalar _ _ text => some text
  | _ => none

/-- The truth value of a word. -/
def yamlWordBool? (word : String) : Option Bool :=
  if Yaml.trueWords.contains word then some true
  else if Yaml.falseWords.contains word then some false
  else none

/-- A truth value has to stand plain, or as a block with the tag of truth values. -/
def yamlBool? : Node → Option Bool
  | .scalar .plain _ text => yamlWordBool? text
  | .scalar .literal (some "tag:yaml.org,2002:bool") text => yamlWordBool? text
  | _ => none

/-- A list of texts; nothing at all is the empty list. -/
def yamlTexts? : Node → Option (List String)
  | .sequence items => items.mapM yamlText?
  | .scalar .plain _ "" => some []
  | _ => none

/-- A list of texts, or nothing in one of its spellings. -/
def yamlOptionalTexts? : Node → Option (Option (List String))
  | .scalar .plain none text =>
    if text.isEmpty || Yaml.nullWords.contains text then some none else none
  | .scalar .plain (some tag) text =>
    if tag == "tag:yaml.org,2002:null" then if Yaml.nullWords.contains text then some none else none
    else some <$> yamlTexts? (.scalar .plain (some tag) text)
  | node => some <$> yamlTexts? node

/-- Values of the known keys, as far as they are set. -/
structure Partial where
  groupByFile : Option Bool := none
  showFullPath : Option Bool := none
  includes : Option (Option (List String)) := none
  excludes : Option (Option (List String)) := none
  mutatingMethods : Option (List String) := none
  deriving Repr, DecidableEq

namespace Partial

/-- The configuration with defaults for what is not set. -/
def complete (values : Partial) : Config where
  groupByFile := values.groupByFile.getD false
  showFullPath := values.showFullPath.getD false
  includes := values.includes.getD none
  excludes := values.excludes.getD none
  mutatingMethods := values.mutatingMethods.getD []

end Partial

/-- A value for a key that has none yet. -/
def setOnce {α : Type} (old : Option α) (new : Option α) : Option (Option α) :=
  if old.isSome then none else new.map some

/-- Set one key. -/
def addYamlMember (values : Partial) (key : String) (value : Node) : Option Partial := do
  match key with
  | "groupByFile" =>
    return { values with groupByFile := ← setOnce values.groupByFile (yamlBool? value) }
  | "showFullPath" =>
    return { values with showFullPath := ← setOnce values.showFullPath (yamlBool? value) }
  | "include" =>
    return { values with includes := ← setOnce values.includes (yamlOptionalTexts? value) }
  | "exclude" =>
    return { values with excludes := ← setOnce values.excludes (yamlOptionalTexts? value) }
  | "mutatingMethods" =>
    return { values with mutatingMethods := ← setOnce values.mutatingMethods (yamlTexts? value) }
  | _ => return values

/-- Set the keys of a mapping in turn. -/
def addYamlMembers (values : Partial) : List (Node × Node) → Option Partial
  | [] => some values
  | (key, value) :: rest => do
    addYamlMembers (← addYamlMember values (← yamlText? key) value) rest

def ofYamlNode? : Option Node → Option Config
  | none => some {}
  | some (.mapping members) => (addYamlMembers {} members).map (·.complete)
  | some (.scalar .plain _ "") => some {}
  | _ => none

/-- Read a configuration. -/
def ofYaml? (text : String) : Option Config := do
  ofYamlNode? (← Yaml.parse text)

end Usages.Config
