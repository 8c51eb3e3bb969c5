/-
One lookup from end to end: take the word under the cursor, locate it, drop the occurrence under
the cursor, classify the others and attach to each the line it stands on.
-/
import Usages.Locate

namespace Usages

/-- A reference as it is shown: `preview` is its line without blanks around it, if that line can
be read and is not blank. -/
structure Entry where
  location : Location
  kind : Kind
  preview : Option String
  deriving Repr, DecidableEq

/-- What a lookup found. -/
structure Findings where
  symbolName : String
  writes : List Entry
  reads : List Entry
  deriving Repr, DecidableEq

namespace Findings

def summary (findings : Findings) : String :=
  toString findings.writes.length ++ " writes, " ++ toString findings.reads.length ++ " reads"

/-- The bare locations. -/
def partition (findings : Findings) : Partition where
  writes := findings.writes.map (·.location)
  reads := findings.reads.map (·.location)

end Findings

/-- The line as a label. -/
def previewOf (line : List Char) : Option String :=
  match Text.trim line with
  | [] => none
  | shown => some (String.ofList shown)

/-- Attach previews, in order. -/
def attachPreviews (line? : LineReader Caching) : List Reference → Caching (List Entry)
  | [] => pure []
  | reference :: rest => do
    let line ← line? reference.location.file reference.location.range.start.line
    let others ← attachPreviews line? rest
    return ⟨reference.location, reference.kind, line.bind previewOf⟩ :: others

/-- The name under the cursor. A cursor behind the last line is on no name. -/
def symbolAt (source : Source) (file : String) (position : Position) :
    Caching (Except Failure String) := do
  match ← Cache.line source file position.line with
  | .error (.lineOutOfRange ..) => return .error (.noSymbolAt file position)
  | .error error => return .error (.source error)
  | .ok line =>
    match Text.wordAt line position.column with
    | none => return .error (.noSymbolAt file position)
    | some word => return .ok word.text

/-- The lookup, reading through a cache. -/
def findThroughCache (locator : Locator) (source : Source) (classifier : Classifier)
    (file : String) (position : Position) : Caching (Except Failure Findings) := do
  match ← symbolAt source file position with
  | .error failure => return .error failure
  | .ok name =>
    match ← locator file position with
    | .error failure => return .error failure
    | .ok [] => return .error .noReferences
    | .ok locations =>
      let set : ReferenceSet := ⟨name, ⟨file, position⟩, locations⟩
      let references ← set.classify classifier (Cache.lineReader source)
      let entries ← attachPreviews (Cache.lineReader source) references
      return .ok
        { symbolName := name
          writes := entries.filter (·.kind = .write)
          reads := entries.filter (·.kind = .read) }

/-- The lookup with a cache of its own. -/
def findReferences (locator : Locator) (source : Source) (classifier : Classifier)
    (file : String) (position : Position) : Fetching (Except Failure Findings) :=
  (findThroughCache locator source classifier file position).run' {}

end Usages
