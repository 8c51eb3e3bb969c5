/-
What a user can set: the two display flags, which files are searched, and names of methods that
change their receiver. Every part has a default, so that nothing has to be set.
-/
import Usages.Tree

namespace Usages

structure Config where
  groupByFile : Bool := false
  showFullPath : Bool := false
  /-- Patterns of files to search, if the search is limited. -/
  includes : Option (List String) := none
  /-- Patterns of files to leave out, in place of the default ones. -/
  excludes : Option (List String) := none
  /-- Further methods that change their receiver. -/
  mutatingMethods : List String := []
  deriving Repr, DecidableEq

namespace Config

/-- What is left out unless the configuration says otherwise. -/
def defaultExcludes : List String :=
  ["**/node_modules/**", "**/dist/**", "**/build/**", "**/.git/**"]

def displayOptions (config : Config) : DisplayOptions :=
  ⟨config.groupByFile, config.showFullPath⟩

/-- The patterns to search; an empty list does not limit the search. -/
def includePatterns (config : Config) : List String :=
  config.includes.getD []

/-- The patterns to leave out. -/
def excludePatterns (config : Config) : List String :=
  config.excludes.getD defaultExcludes

end Config

/-- One of the two display flags. -/
inductive Flag where
  | groupByFile
  | showFullPath
  deriving Repr, DecidableEq

namespace Flag

/-- The key of the flag in a configuration. -/
def name : Flag → String
  | groupByFile => "groupByFile"
  | showFullPath => "showFullPath"

def value (flag : Flag) (config : Config) : Bool :=
  match flag with
  | groupByFile => config.groupByFile
  | showFullPath => config.showFullPath

/-- The configuration with the flag flipped. -/
def toggle (flag : Flag) (config : Config) : Config :=
  match flag with
  | groupByFile => { config with groupByFile := !config.groupByFile }
  | showFullPath => { config with showFullPath := !config.showFullPath }

end Flag

end Usages
