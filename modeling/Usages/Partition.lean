/-
The references of one symbol, split into writes and reads.

A lookup starts at a site and yields locations. Those that cover the site are dropped, repeated
ones are kept once, and each that is left is a write or a read by the line it starts on. Lines come
from a reader that may have effects of its own, so that reading them through a cache and reading
them from a fixed table are the same operation.
-/
import Usages.Location
import Usages.Text.Lines
import Usages.WriteRule

namespace Usages

/-- The answer to one lookup. -/
structure ReferenceSet where
  symbolName : String
  /-- Where the lookup started. -/
  definition : Site
  locations : List Location
  deriving Repr, DecidableEq

namespace ReferenceSet

/-- The first copy of each location. -/
def firstCopies : (seen : List Location) → List Location → List Location
  | _, [] => []
  | seen, location :: rest =>
    if seen.contains location then firstCopies seen rest
    else location :: firstCopies (location :: seen) rest

/-- The locations that do not cover the definition, each once, in their order. -/
def references (set : ReferenceSet) : List Location :=
  firstCopies [] (set.locations.filter fun location => !location.contains set.definition)

end ReferenceSet

/-- A location and how it uses the symbol. -/
structure Reference where
  location : Location
  kind : Kind
  deriving Repr, DecidableEq

/-- Writes and reads, each in the order of the lookup. -/
structure Partition where
  writes : List Location
  reads : List Location
  deriving Repr, DecidableEq

namespace Partition

/-- Split by kind. -/
def ofReferences (references : List Reference) : Partition where
  writes := (references.filter (·.kind = .write)).map (·.location)
  reads := (references.filter (·.kind = .read)).map (·.location)

def size (partition : Partition) : Nat :=
  partition.writes.length + partition.reads.length

def isEmpty (partition : Partition) : Bool :=
  partition.writes.isEmpty && partition.reads.isEmpty

end Partition

/-- Line `n` of a file, for readers that need effects `m`. -/
abbrev LineReader (m : Type → Type) :=
  String → Nat → m (Option (List Char))

/-- How a location uses the symbol, by the text of the line it starts on. A range that goes on to
further lines ends with its first line, and a line that cannot be read makes a read. -/
def Classifier.kindOf (classifier : Classifier) (range : Range) : Option (List Char) → Kind
  | none => .read
  | some line =>
    let stop := if range.stop.line = range.start.line then range.stop.column else line.length
    classifier.classify line range.start.column stop

section

variable {m : Type → Type} [Monad m]

/-- Classify the locations in turn. -/
def classifyAll (classifier : Classifier) (line? : LineReader m) :
    List Location → m (List Reference)
  | [] => pure []
  | location :: rest => do
    let line ← line? location.file location.range.start.line
    let others ← classifyAll classifier line? rest
    pure (⟨location, classifier.kindOf location.range line⟩ :: others)

/-- Classify every reference of the set. -/
def ReferenceSet.classify (set : ReferenceSet) (classifier : Classifier) (line? : LineReader m) :
    m (List Reference) :=
  classifyAll classifier line? set.references

/-- Split the references of the set into writes and reads. -/
def ReferenceSet.partition (set : ReferenceSet) (classifier : Classifier) (line? : LineReader m) :
    m Partition := do
  return .ofReferences (← set.classify classifier line?)

end

end Usages
