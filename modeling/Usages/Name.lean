/-
Names as a file system keeps them.

A name is a run of bytes. Most are texts; one that is not is shown with replacement characters, and
a path with such a name in it is no text either. Whatever is only said of texts, such as that a
pattern accepts them, does not hold of it.
-/
import Usages.Path
import Usages.Text.Utf8

namespace Usages

/-- A name of a file or a directory. -/
inductive Name where
  | text (content : String)
  /-- Bytes that are no text. -/
  | raw (bytes : List Nat) (malformed : Text.isWellFormed bytes = false)
  deriving Repr, DecidableEq

instance : Coe String Name :=
  ⟨.text⟩

namespace Name

def text? : Name → Option String
  | text content => some content
  | raw .. => none

def bytes : Name → List Nat
  | text content => Text.encode content.toList
  | raw bytes _ => bytes

/-- The name with replacement characters for what is no text. -/
def shown : Name → String
  | text content => content
  | raw bytes _ => String.ofList (Text.decodeLossy bytes)

/-- What stands behind the last dot, if something stands before it. It has to be a text. -/
def extension? : Name → Option String
  | text content => Path.extension? content
  | raw bytes _ =>
    let reversed := bytes.reverse
    let tail := reversed.takeWhile (· != 0x2E)
    match reversed.drop tail.length with
    | 0x2E :: _ :: _ =>
      if Text.isWellFormed tail.reverse then some (String.ofList (Text.decodeLossy tail.reverse))
      else none
    | _ => none

/-- Names come in the order of their bytes. -/
def before (name other : Name) : Bool :=
  name.bytes.lex other.bytes Nat.blt

end Name

/-- A path as a file system has it. -/
inductive OsPath where
  | text (path : String)
  /-- Names that lead to a place, not all of which are texts. -/
  | raw (names : List Name) (malformed : names.mapM Name.text? = none)
  deriving Repr, DecidableEq

instance : Coe String OsPath :=
  ⟨.text⟩

namespace OsPath

/-- The path that names make. -/
def ofNames (names : List Name) : OsPath :=
  match h : names.mapM Name.text? with
  | some texts => .text (Path.joinSegments texts)
  | none => .raw names h

/-- What stands behind the last dot of the last name. -/
def extension? : OsPath → Option String
  | text path => Path.extension? path
  | raw names _ => names.getLast?.bind Name.extension?

end OsPath

/-- The path of what names lead to from a root, as it is shown. -/
def Path.below (root : String) (names : List Name) : String :=
  join root (joinSegments (names.map Name.shown))

end Usages
