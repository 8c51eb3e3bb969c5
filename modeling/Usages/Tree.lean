/-
Findings as a tree to look at: a group of writes and a group of reads, each with its references,
either in a row or under the files they stand in.

    2 writes, 1 reads
    Writes (2)
      main.ts (2)
        counter = 1;  src/main.ts:3
        counter++;  src/main.ts:7
    Reads (1)
      util.ts (1)
        log(counter);  src/util.ts:4
-/
import Usages.Find
import Usages.Path

namespace Usages

/-- How findings are shown. -/
structure DisplayOptions where
  groupByFile : Bool := false
  showFullPath : Bool := false
  deriving Repr, DecidableEq

/-- Characters of a label to emphasise. -/
structure Highlight where
  start : Nat
  stop : Nat
  deriving Repr, DecidableEq

structure ReferenceNode where
  label : String
  description : String
  highlight : Option Highlight
  location : Location
  deriving Repr, DecidableEq

structure FileNode where
  label : String
  file : String
  references : List ReferenceNode
  deriving Repr, DecidableEq

/-- The references of a group, in a row or by file. -/
inductive GroupBody where
  | flat (references : List ReferenceNode)
  | byFile (files : List FileNode)
  deriving Repr, DecidableEq

structure GroupNode where
  label : String
  kind : Kind
  body : GroupBody
  deriving Repr, DecidableEq

structure Tree where
  summary : String
  groups : List GroupNode
  deriving Repr, DecidableEq

namespace Text

/-- Where `part` occurs first in the text. -/
def indexOf? (part : List Char) : List Char → Option Nat
  | [] => if part.isEmpty then some 0 else none
  | c :: rest =>
    if part.isPrefixOf (c :: rest) then some 0 else (indexOf? part rest).map (· + 1)

end Text

/-- The path of a file as seen from the root, if it lies below it. -/
def displayPath (root : Option String) (file : String) : String :=
  (root.bind fun root => Path.relativeTo? file root).getD file

/-- The first occurrence of the name in the label. -/
def highlightOf (name label : String) : Option Highlight :=
  if name.isEmpty then none
  else (Text.indexOf? name.toList label.toList).map fun start => ⟨start, start + name.length⟩

/-- The name of a file in a group, by the options. -/
def fileLabel (options : DisplayOptions) (root : Option String) (file : String) : String :=
  if options.showFullPath then file
  else (Path.fileName? file).getD (displayPath root file)

namespace ReferenceNode

/-- A reference is labelled by its line, or by the number of it. -/
def ofEntry (name : String) (root : Option String) (entry : Entry) : ReferenceNode :=
  let line := toString (entry.location.range.start.line + 1)
  let label := entry.preview.getD ("Line " ++ line)
  { label
    description := displayPath root entry.location.file ++ ":" ++ line
    highlight := highlightOf name label
    location := entry.location }

end ReferenceNode

/-- Add an entry to the entries of its file; a new file comes last. -/
def addToFile (entry : Entry) : List (String × List Entry) → List (String × List Entry)
  | [] => [(entry.location.file, [entry])]
  | (file, entries) :: rest =>
    if file = entry.location.file then (file, entries ++ [entry]) :: rest
    else (file, entries) :: addToFile entry rest

/-- The entries of each file, files in the order in which they first appear. -/
def entriesByFile (entries : List Entry) : List (String × List Entry) :=
  entries.foldl (fun files entry => addToFile entry files) []

namespace GroupNode

def title : Kind → String
  | .write => "Writes"
  | .read => "Reads"

/-- A title with a count. -/
def counted (title : String) (count : Nat) : String :=
  title ++ " (" ++ toString count ++ ")"

def ofEntries (kind : Kind) (name : String) (options : DisplayOptions) (root : Option String)
    (entries : List Entry) : GroupNode where
  label := counted (title kind) entries.length
  kind := kind
  body :=
    if options.groupByFile then
      .byFile <| (entriesByFile entries).map fun (file, entries) =>
        { label := counted (fileLabel options root file) entries.length
          file := file
          references := entries.map (.ofEntry name root) }
    else .flat (entries.map (.ofEntry name root))

/-- The reference nodes of the group, in the order in which they are shown. -/
def references (group : GroupNode) : List ReferenceNode :=
  match group.body with
  | .flat references => references
  | .byFile files => files.flatMap (·.references)

/-- The labels just below the group. -/
def childLabels (group : GroupNode) : List String :=
  match group.body with
  | .flat references => references.map (·.label)
  | .byFile files => files.map (·.label)

end GroupNode

namespace Tree

/-- A group for each kind that has entries. -/
def ofFindings (findings : Findings) (options : DisplayOptions) (root : Option String) : Tree where
  summary := findings.summary
  groups :=
    [(Kind.write, findings.writes), (Kind.read, findings.reads)].filterMap fun (kind, entries) =>
      if entries.isEmpty then none
      else some (.ofEntries kind findings.symbolName options root entries)

/-- Two blanks for each level. -/
def indent (depth : Nat) : String :=
  String.ofList (List.replicate (2 * depth) ' ')

def referenceLine (depth : Nat) (node : ReferenceNode) : String :=
  indent depth ++ node.label ++ "  " ++ node.description ++ "\n"

def fileText (node : FileNode) : String :=
  indent 1 ++ node.label ++ "\n" ++ String.join (node.references.map (referenceLine 2))

def groupText (node : GroupNode) : String :=
  node.label ++ "\n" ++
    match node.body with
    | .flat references => String.join (references.map (referenceLine 1))
    | .byFile files => String.join (files.map fileText)

/-- The tree as text, one node a line. -/
def text (tree : Tree) : String :=
  tree.summary ++ "\n" ++ String.join (tree.groups.map groupText)

end Tree

end Usages
