/-
Texts by file name, and the cache in front of them.

A source may answer differently each time it is asked, so an answer depends on the requests made
before. `Fetching` is a computation that makes requests; its state is the log of them, oldest
first. The cache keeps the first answer for each file, a failure too, and answers every line from
it: within one run a file is asked for once and does not change.
-/
import Usages.Failure
import Usages.Partition

namespace Usages

/-- The answer to a request, given the requests before it. -/
structure Source where
  answer : (log : List String) → (file : String) → Except SourceError String

/-- A computation that asks for files, with the log of its requests. -/
abbrev Fetching := StateM (List String)

namespace Source

/-- A source that always gives the same answer for a file. -/
def fixed (read : String → Except SourceError String) : Source :=
  ⟨fun _ file => read file⟩

/-- A table of texts. -/
def ofTexts (texts : List (String × String)) : Source :=
  fixed fun file =>
    match texts.lookup file with
    | some text => .ok text
    | none => .error (.notFound file)

/-- Ask for a file. -/
def fetch (source : Source) (file : String) : Fetching (Except SourceError String) :=
  fun log => (source.answer log file, log ++ [file])

end Source

/-- A text with the places where its lines start. -/
structure Document where
  text : List Char
  index : LineIndex
  deriving Repr, DecidableEq

namespace Document

def ofText (text : String) : Document :=
  ⟨text.toList, .ofText text.toList⟩

/-- Line `n`, without its terminator. -/
def line? (document : Document) (n : Nat) : Option (List Char) :=
  document.index.line? document.text n

end Document

/-- The first answer for each file, in the order in which files were first asked for. -/
structure Cache where
  documents : List (String × Except SourceError Document) := []

/-- A computation that reads through a cache. -/
abbrev Caching := StateT Cache Fetching

namespace Cache

def size (cache : Cache) : Nat :=
  cache.documents.length

def isEmpty (cache : Cache) : Bool :=
  cache.documents.isEmpty

/-- The document of a file, from the cache or, once, from the source. -/
def document (source : Source) (file : String) : Caching (Except SourceError Document) := do
  match (← get).documents.lookup file with
  | some known => return known
  | none =>
    let found := (← source.fetch file).map Document.ofText
    modify fun cache => ⟨cache.documents ++ [(file, found)]⟩
    return found

/-- Line `n` of a file. -/
def line (source : Source) (file : String) (n : Nat) :
    Caching (Except SourceError (List Char)) := do
  match ← document source file with
  | .error error => return .error error
  | .ok found =>
    match found.line? n with
    | some line => return .ok line
    | none => return .error (.lineOutOfRange file n)

/-- Line `n` of a file, if it can be read. -/
def lineReader (source : Source) : LineReader Caching :=
  fun file n => return (← line source file n).toOption

end Cache

/-- Lines of a table of texts, by the lines a reader sees. -/
def linesOfTexts (texts : List (String × String)) : LineReader Id :=
  fun file n => (texts.lookup file).bind fun text => Text.line? text.toList n

end Usages
