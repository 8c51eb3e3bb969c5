/-
A disk as a value.

Entries are kept by place, the list of names that leads to them from the root, which is always a
directory. A path text leads to a place: empty and `.` segments stay where they are, `..` goes up
from the place reached so far, and a symbolic link goes on with its target. A path that ends in a
slash has to lead to a directory. Paths and link targets are texts, so what stands under a name that
is no text can be listed and not be opened.

Whatever the system may refuse is part of the disk: files that cannot be read, directories that
cannot be listed (for want of permission, or since their path is too long), and places where a write
fails, before or after it has begun. Special files keep nothing of what is written to them. Left out
are directories that must not be gone through, links that must not be read, owners and times, and
what other programs do meanwhile.
-/
import Usages.Name
import Usages.OsError
import Usages.Source

namespace Usages

/-- What stands at a place. -/
inductive DiskEntry where
  | text (content : String)
  /-- A file whose bytes are no text. -/
  | binary
  /-- A file that must not be read. -/
  | unreadable (cause : OsError)
  /-- A special file, such as the null device: it reads the same whatever is written to it. -/
  | device (content : String)
  | directory
  | link (target : String)
  deriving Repr, DecidableEq

namespace DiskEntry

/-- A file with these bytes. -/
def ofBytes (bytes : List Nat) : DiskEntry :=
  if Text.isWellFormed bytes then .text (String.ofList (Text.decodeLossy bytes)) else .binary

/-- A regular file, whether or not it holds text and can be read. -/
def isFile : DiskEntry → Bool
  | text _ | binary | unreadable _ => true
  | device _ | directory | link _ => false

/-- What is written to it does not show when it is read again. -/
def hidesWrites : DiskEntry → Bool
  | unreadable _ | device _ => true
  | text _ | binary | directory | link _ => false

end DiskEntry

/-- How a write fails. -/
structure WriteFault where
  cause : OsError
  /-- How many bytes have been written by then, if the file could be opened, which empties it. -/
  written? : Option Nat
  deriving Repr, DecidableEq

structure Disk where
  entries : List (List Name × DiskEntry) := []
  /-- Where relative paths start. -/
  workingDirectory : List String := []
  /-- Directories that cannot be listed. -/
  unlistable : List (List Name × OsError) := []
  /-- Places where writing fails. -/
  faults : List (List String × WriteFault) := []
  deriving Repr, DecidableEq

namespace Disk

/-- What stands at a place. -/
def entryAt? (disk : Disk) (place : List Name) : Option DiskEntry :=
  if place.isEmpty then some .directory else disk.entries.lookup place

/-- What stands at a place that a path can lead to. -/
def get? (disk : Disk) (place : List String) : Option DiskEntry :=
  disk.entryAt? (place.map .text)

/-- Put an entry at a place; a new one comes last. -/
def put (place : List Name) (entry : DiskEntry) :
    List (List Name × DiskEntry) → List (List Name × DiskEntry)
  | [] => [(place, entry)]
  | (other, old) :: rest =>
    if other = place then (place, entry) :: rest else (other, old) :: put place entry rest

def set (disk : Disk) (place : List String) (entry : DiskEntry) : Disk :=
  { disk with entries := put (place.map .text) entry disk.entries }

/-- Remove a place and everything below it. -/
def erase (disk : Disk) (place : List String) : Disk :=
  { disk with entries := disk.entries.filter fun (other, _) => !(place.map .text).isPrefixOf other }

/-- A path cut at its slashes. -/
def segments (path : String) : List String :=
  (Path.splitSlashes path.toList).map String.ofList

/-- The longest name a file can have, in bytes. -/
def maxNameSize : Nat :=
  255

/-- Follow segments from a directory. `follow` goes on where a link leads. With `create`, the last
name may be missing. -/
def walk (disk : Disk) (create : Bool)
    (follow : (here : List String) → List String → Except OsError (List String)) :
    (here : List String) → List String → Except OsError (List String)
  | here, [] => .ok here
  | here, segment :: rest =>
    if Path.isIdle segment then walk disk create follow here rest
    else if segment == ".." then walk disk create follow here.dropLast rest
    else if maxNameSize < segment.utf8ByteSize then .error .nameTooLong
    else
      match disk.get? (here ++ [segment]) with
      | none => if create && rest.isEmpty then .ok (here ++ [segment]) else .error .notFound
      | some .directory => walk disk create follow (here ++ [segment]) rest
      | some (.link target) =>
        follow (if Path.isAbsolute target then [] else here) (segments target ++ rest)
      | some _ => if rest.isEmpty then .ok (here ++ [segment]) else .error .notDirectory

/-- Follow segments over at most `links` links. -/
def walkOver (disk : Disk) (create : Bool) :
    (links : Nat) → (here : List String) → List String → Except OsError (List String)
  | 0 => walk disk create fun _ _ => .error .tooManyLinks
  | links + 1 => walk disk create (walkOver disk create links)

/-- How many links a path may lead over. -/
def maxLinks : Nat :=
  40

/-- The place a path leads to. -/
def locate (disk : Disk) (create : Bool) (path : String) : Except OsError (List String) :=
  if path.toList.contains '\x00' then .error .nulInName
  else if path.isEmpty then .error .notFound
  else
    walkOver disk create maxLinks (if Path.isAbsolute path then [] else disk.workingDirectory)
      (segments path)

/-- The place of an entry that exists. -/
def resolve (disk : Disk) (path : String) : Except OsError (List String) :=
  disk.locate false path

/-- The absolute path of a place. -/
def pathOf (place : List String) : String :=
  "/" ++ Path.joinSegments place

/-- The absolute path without links of an entry that exists. -/
def canonical (disk : Disk) (path : String) : Except OsError String :=
  pathOf <$> disk.resolve path

/-- The text of a file. -/
def read (disk : Disk) (path : String) : Except OsError String := do
  match disk.get? (← disk.resolve path) with
  | some (.text content) | some (.device content) => .ok content
  | some .binary => .error .notUtf8
  | some (.unreadable cause) => .error cause
  | some .directory => .error .isDirectory
  | _ => .error .notFound

/-- The path leads to a regular file. -/
def isFile (disk : Disk) (path : String) : Bool :=
  match disk.resolve path with
  | .ok place => (disk.get? place).any DiskEntry.isFile
  | .error _ => false

/-- The path ends in a slash. -/
def endsInSlash (path : String) : Bool :=
  path.toList.getLast? == some '/'

/-- What a write leaves behind. -/
structure Written where
  disk : Disk
  outcome : Except OsError Unit

/-- Put what has been written at a place, unless what stands there does not show it. -/
def store (disk : Disk) (place : List String) (entry : DiskEntry) : Disk :=
  if (disk.get? place).any DiskEntry.hidesWrites then disk else disk.set place entry

/-- Write a text to a place. A write that fails may have changed the file. -/
def writeAt (disk : Disk) (place : List String) (content : String) : Written :=
  if disk.get? place = some .directory then ⟨disk, .error .isDirectory⟩
  else
    match disk.faults.lookup place with
    | none => ⟨disk.store place (.text content), .ok ()⟩
    | some ⟨cause, none⟩ => ⟨disk, .error cause⟩
    | some ⟨cause, some count⟩ =>
      ⟨disk.store place (.ofBytes ((Text.encode content.toList).take count)), .error cause⟩

/-- The place of a file that is to be written, which may be new in a directory that exists. -/
def target (disk : Disk) (path : String) : Except OsError (List String) :=
  if endsInSlash path then do
    let _ ← disk.resolve ((Path.parent? path).getD "" ++ "/")
    .error .isDirectory
  else disk.locate true path

/-- Try to write a file. -/
def tryWrite (disk : Disk) (path content : String) : Written :=
  match disk.target path with
  | .error cause => ⟨disk, .error cause⟩
  | .ok place => disk.writeAt place content

/-- Write a file. -/
def write (disk : Disk) (path content : String) : Except OsError Disk :=
  let written := disk.tryWrite path content
  written.outcome.map fun _ => written.disk

/-- Text by path, for lookups. -/
def readText (disk : Disk) (file : String) : Except SourceError String :=
  match disk.read file with
  | .ok content => .ok content
  | .error .notFound => .error (.notFound file)
  | .error cause => .error (.unavailable file cause.message)

/-- The disk as a source of texts. -/
def source (disk : Disk) : Source :=
  .fixed disk.readText

/-- What is left of a place below a directory. -/
def below? : (directory place : List Name) → Option (List Name)
  | [], place => some place
  | _ :: _, [] => none
  | name :: directory, other :: place => if name = other then below? directory place else none

/-- The regular files below a directory, each by the names that lead to it from there. -/
def filesBelow (disk : Disk) (directory : List String) : List (List Name) :=
  (disk.entries.filter (·.2.isFile)).filterMap fun (place, _) =>
    below? (directory.map .text) place

end Disk

end Usages
