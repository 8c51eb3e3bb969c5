/-
Everything that can stop a lookup, as causes, with one wording for each.

Three of them are no faults: there was nothing to look up, or nothing was found. A failure that
wraps another one names it in its own message, and `causes` lists what it wraps, outermost first.
-/
import Usages.Glob
import Usages.OsError

namespace Usages

/-- No text, or no such line in it. -/
inductive SourceError where
  | notFound (file : String)
  | unavailable (file : String) (message : String)
  | lineOutOfRange (file : String) (line : Nat)
  deriving Repr, DecidableEq

def SourceError.message : SourceError → String
  | notFound file => "File not found: " ++ file
  | unavailable file message => "File unavailable: " ++ file ++ ": " ++ message
  | lineOutOfRange file line => "Line " ++ toString line ++ " out of range in " ++ file

/-- A configuration that cannot be read or written. -/
inductive ConfigError where
  | io (cause : OsError)
  | invalid (path : String) (message : String)
  | unsupportedFormat (path : String)
  deriving Repr, DecidableEq

namespace ConfigError

def message : ConfigError → String
  | io cause => "IO error: " ++ cause.message
  | invalid path message => "Invalid configuration at " ++ path ++ ": " ++ message
  | unsupportedFormat path => "Unsupported config file format: " ++ path

def causes : ConfigError → List String
  | io cause => [cause.message]
  | _ => []

end ConfigError

/-- A directory that cannot be listed. -/
structure WalkError where
  path : String
  cause : OsError
  deriving Repr, DecidableEq

def WalkError.message (error : WalkError) : String :=
  "IO error for operation on " ++ error.path ++ ": " ++ error.cause.message

inductive Failure where
  | noActiveDocument
  /-- Line and column as shown, counted from one. -/
  | noSymbol (file : String) (line column : Nat)
  | noReferences
  | locate (message : String)
  | source (error : SourceError)
  | config (error : ConfigError)
  | pattern (error : GlobError)
  | classifier (message : String)
  | walk (error : WalkError)
  | io (cause : OsError)
  deriving Repr, DecidableEq

namespace Failure

def message : Failure → String
  | noActiveDocument => "No active document"
  | noSymbol file line column =>
    "No symbol at " ++ file ++ ":" ++ toString line ++ ":" ++ toString column
  | noReferences => "No references found"
  | locate message => "Reference lookup failed: " ++ message
  | source error => "Source error: " ++ error.message
  | config error => "Configuration error: " ++ error.message
  | pattern error => "Invalid glob pattern: " ++ error.message
  | classifier message => "Invalid mutating method list: " ++ message
  | walk error => "Workspace scan error: " ++ error.message
  | io cause => "IO error: " ++ cause.message

/-- Nothing to look up, or nothing found. -/
def isInformational : Failure → Bool
  | noActiveDocument | noSymbol .. | noReferences => true
  | _ => false

/-- The messages of the wrapped causes, outermost first. -/
def causes : Failure → List String
  | source error => [error.message]
  | config error => error.message :: error.causes
  | pattern error => [error.message]
  | walk error => [error.message, error.cause.message]
  | io cause => [cause.message]
  | _ => []

end Failure

end Usages
