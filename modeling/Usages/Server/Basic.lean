/-
The state of a language server, and positions as its client counts them.

A client counts columns in UTF-16 units or in characters. To go from one count to the other the
text of the line is needed; where it cannot be read, columns are taken as they are.
-/
import Usages.Json.Basic
import Usages.OpenDocuments
import Usages.Project
import Usages.Text.Units
import Usages.Uri
import Usages.View

namespace Usages

/-- What a client counts columns in. -/
inductive Encoding where
  | utf16
  | utf32
  deriving Repr, DecidableEq

def Encoding.name : Encoding → String
  | utf16 => "utf-16"
  | utf32 => "utf-32"

/-- Numbers of a client have 32 bits; what is above them is lost. -/
def Position.truncated (position : Position) : Position :=
  ⟨position.line % 0x100000000, position.column % 0x100000000⟩

/-- A location as the client sees it. -/
structure ClientLocation where
  uri : Uri
  range : Range
  deriving Repr, DecidableEq

/-- How far a session has come. -/
inductive Phase where
  | created
  | running
  | shutDown
  | exited
  deriving Repr, DecidableEq

/-- The latest findings on show, and the workspace they came from. -/
structure Panel where
  view : View := {}
  workspace : Option String := none
  deriving Repr, DecidableEq

structure Server where
  phase : Phase := .created
  encoding : Encoding := .utf16
  /-- Folders the client named, by identifier, with their paths. -/
  folders : List (String × String) := []
  /-- Loaded projects, by the identifier of their folder. -/
  projects : List (String × Project) := []
  documents : OpenDocuments := {}
  panel : Panel := {}
  deriving Repr, DecidableEq

/-- Texts as a server sees them: open documents over a disk. -/
structure Texts where
  documents : OpenDocuments
  disk : Disk
  deriving Repr, DecidableEq

namespace Texts

def source (texts : Texts) : Source :=
  texts.documents.source texts.disk

/-- Line `n` of a file. -/
def line? (texts : Texts) (file : String) (n : Nat) : Option (List Char) :=
  match texts.documents.readText texts.disk file with
  | .ok text => (Document.ofText text).line? n
  | .error _ => none

end Texts

namespace Encoding

/-- A position of the client in characters. -/
def toChars (encoding : Encoding) (line? : Option (List Char)) (position : Position) : Position :=
  match encoding, line? with
  | utf16, some line => { position with column := Text.unitsToChars line position.column }
  | _, _ => position

/-- A position in characters as the client counts. -/
def ofChars (encoding : Encoding) (line? : Option (List Char)) (position : Position) : Position :=
  match encoding, line? with
  | utf16, some line => { position with column := Text.charsToUnits line position.column }
  | _, _ => position

end Encoding

namespace Server

def texts (server : Server) (disk : Disk) : Texts :=
  ⟨server.documents, disk⟩

/-- A position of the client in a file, in characters. -/
def charPosition (server : Server) (disk : Disk) (file : String) (position : Position) : Position :=
  server.encoding.toChars ((server.texts disk).line? file position.line) position

/-- A position in a file as the client counts, however large. -/
def unitPosition (server : Server) (disk : Disk) (file : String) (position : Position) : Position :=
  server.encoding.ofChars ((server.texts disk).line? file position.line) position

/-- A position in a file as the client is told. -/
def clientPosition (server : Server) (disk : Disk) (file : String) (position : Position) :
    Position :=
  (server.unitPosition disk file position).truncated

/-- The identifier of a file. A relative path has one only if the file is on disk. -/
def uriOf? (disk : Disk) (file : String) : Option Uri :=
  if Path.isAbsolute file then some (.ofAbsolutePath file)
  else
    match disk.canonical file with
    | .ok path => some (.ofAbsolutePath path)
    | .error _ => none

/-- A location as the client sees it. -/
def clientLocation? (server : Server) (disk : Disk) (location : Location) : Option ClientLocation :=
  (uriOf? disk location.file).map fun uri =>
    { uri
      range :=
        ⟨server.clientPosition disk location.file location.range.start,
          server.clientPosition disk location.file location.range.stop⟩ }

end Server

end Usages
