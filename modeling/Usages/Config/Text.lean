/-
Configurations as the contents of a file. The name of the file tells the format. A configuration
is checked both when it is read and before it is written: patterns have to compile and must not be
blank, methods have to be identifiers.
-/
import Usages.Config.Json
import Usages.Failure

namespace Usages.Config

/-- How a file is written. A file without extension is YAML, but may be read as JSON. -/
inductive Format where
  | yaml
  | json
  | either
  deriving Repr, DecidableEq

/-- The format of the file at this path. -/
def Format.ofPath (path : String) : Except ConfigError Format :=
  let extension := (Path.extension? path).getD ""
  if extension == "yml" || extension == "yaml" then .ok .yaml
  else if extension == "json" then .ok .json
  else if extension == "" && Path.fileName? path == some ".refgrouprc" then .ok .either
  else .error (.unsupportedFormat path)

/-- A name that a method can have. -/
def isMethodName (name : String) : Bool :=
  match name.toList with
  | [] => false
  | first :: rest =>
    (Text.isAlphabetic first || first == '_' || first == '$') &&
      rest.all fun c => Text.isAlphanumeric c || c == '_' || c == '$'

/-- What is wrong with a pattern under a key. -/
def patternFault? (key pattern : String) : Option String :=
  if Text.isBlankText pattern.toList then some ("'" ++ key ++ "' contains an empty pattern")
  else
    match Glob.compile pattern with
    | .ok _ => none
    | .error error =>
      some ("'" ++ key ++ "' pattern '" ++ pattern ++ "' is invalid: " ++ error.message)

/-- What is wrong with the name of a method. -/
def methodFault? (name : String) : Option String :=
  if isMethodName name then none
  else some ("'mutatingMethods' entry '" ++ name ++ "' is not a method name")

/-- The first thing that is wrong with a configuration. -/
def fault? (config : Config) : Option String :=
  (config.includePatterns.findSome? (patternFault? "include")).or <|
    ((config.excludes.getD []).findSome? (patternFault? "exclude")).or <|
      config.mutatingMethods.findSome? methodFault?

/-- Nothing is wrong with the configuration. -/
def validate (config : Config) (path : String) : Except ConfigError Unit :=
  match config.fault? with
  | some message => .error (.invalid path message)
  | none => .ok ()

def readYaml (path contents : String) : Except ConfigError Config :=
  match ofYaml? contents with
  | some config => .ok config
  | none => .error (.invalid path "YAML parse error")

def readJson (path contents : String) : Except ConfigError Config :=
  match ofJson? contents with
  | some config => .ok config
  | none => .error (.invalid path "JSON parse error")

/-- Read the contents in a format. -/
def readAs (format : Format) (path contents : String) : Except ConfigError Config :=
  match format with
  | .yaml => readYaml path contents
  | .json => readJson path contents
  | .either =>
    match readYaml path contents with
    | .ok config => .ok config
    | .error _ => readJson path contents

/-- The configuration in a file with these contents. A blank file sets nothing. -/
def ofContents (path contents : String) : Except ConfigError Config :=
  if Text.isBlankText contents.toList then .ok {}
  else do
    let config ← readAs (← Format.ofPath path) path contents
    config.validate path
    return config

/-- Write the configuration in a format. -/
def writeAs (config : Config) : Format → String
  | .yaml | .either => config.toYaml
  | .json => config.toJson

/-- The contents of a file with this configuration. -/
def toContents (config : Config) (path : String) : Except ConfigError String := do
  config.validate path
  return config.writeAs (← Format.ofPath path)

end Usages.Config
