/-
Where a name occurs. The name is the word under the cursor; it is searched as a whole word in a
list of files and in the file of the cursor. Files are visited in ascending order, each once, so
the order and repetition of the list do not show in the answer.
-/
import Usages.Source
import Usages.Text.Word

namespace Usages

/-- A way to find the locations of the symbol at a position of a file. -/
abbrev Locator :=
  (file : String) → Position → Fetching (Except Failure (List Location))

/-- Nothing to look up at this position. -/
def Failure.noSymbolAt (file : String) (position : Position) : Failure :=
  .noSymbol file (position.line + 1) (position.column + 1)

namespace Locator

/-- Put a name into an ascending list without repetitions. -/
def insertName (name : String) : List String → List String
  | [] => [name]
  | other :: rest =>
    if name < other then name :: other :: rest
    else if name = other then other :: rest
    else other :: insertName name rest

/-- The files to search, ascending, each once. -/
def candidates (files : List String) (origin : String) : List String :=
  (origin :: files).foldr insertName []

/-- Whole-word occurrences in the lines of one file, the first of which has number `n`. -/
def inLines (file : String) (name : List Char) : (n : Nat) → List (List Char) → List Location
  | _, [] => []
  | n, line :: rest =>
    (Text.occurrences line name).map
        (fun start => ⟨file, .onLine n start (start + name.length)⟩) ++
      inLines file name (n + 1) rest

/-- Whole-word occurrences in a text. -/
def inText (file : String) (name : List Char) (text : String) : List Location :=
  inLines file name 0 (Text.lines text.toList)

/-- Whole-word occurrences in the files, one after another. The text of the origin is known, and a
file that cannot be read is passed over. -/
def inFiles (source : Source) (name : List Char) (origin originText : String) :
    List String → Fetching (List Location)
  | [] => pure []
  | file :: rest => do
    let text ← if file = origin then pure (.ok originText) else source.fetch file
    let later ← inFiles source name origin originText rest
    match text with
    | .ok text => return inText file name text ++ later
    | .error _ => return later

/-- Every whole-word occurrence of the word under the cursor. -/
def words (source : Source) (files : List String) : Locator := fun file position => do
  match ← source.fetch file with
  | .error error => return .error (.source error)
  | .ok text =>
    let line := (Text.line? text.toList position.line).getD []
    match Text.wordAt line position.column with
    | none => return .error (.noSymbolAt file position)
    | some word => .ok <$> inFiles source word.text.toList file text (candidates files file)

end Locator

end Usages
