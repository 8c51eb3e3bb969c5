/-
Documents open in an editor. Their texts stand before what is on disk; each path has one text, and
the paths are kept in ascending order.
-/
import Usages.Disk

namespace Usages

structure OpenDocuments where
  texts : List (String × String) := []
  deriving Repr, DecidableEq

namespace OpenDocuments

/-- Put a text at its place in the order of paths, for the one that was there. -/
def insert (path text : String) : List (String × String) → List (String × String)
  | [] => [(path, text)]
  | (other, old) :: rest =>
    if path < other then (path, text) :: (other, old) :: rest
    else if path = other then (path, text) :: rest
    else (other, old) :: insert path text rest

/-- A document was opened or changed. -/
def update (documents : OpenDocuments) (path text : String) : OpenDocuments :=
  ⟨insert path text documents.texts⟩

/-- A document was closed. -/
def close (documents : OpenDocuments) (path : String) : OpenDocuments :=
  ⟨documents.texts.filter (·.1 != path)⟩

/-- The open paths, ascending. -/
def paths (documents : OpenDocuments) : List String :=
  documents.texts.map (·.1)

/-- The open text of a file, or the text on disk. -/
def readText (documents : OpenDocuments) (disk : Disk) (file : String) :
    Except SourceError String :=
  match documents.texts.lookup file with
  | some text => .ok text
  | none => disk.readText file

/-- Open documents over a disk, as a source of texts. -/
def source (documents : OpenDocuments) (disk : Disk) : Source :=
  .fixed (documents.readText disk)

end OpenDocuments

end Usages
