/-
What commands print: lines in colour for a reader, or JSON with its keys in order.
-/
import Usages.Cli.Arguments
import Usages.Cli.Style
import Usages.Config.Json
import Usages.Project
import Usages.Tree

namespace Usages.Cli

/-! ### Trees -/

/-- A label with its highlighted part emphasized. -/
def highlighted (palette : Palette) (label : String) : Option Highlight → String
  | none => label
  | some highlight =>
    let chars := label.toList
    let word := (chars.drop highlight.start).take (highlight.stop - highlight.start)
    String.ofList (chars.take highlight.start) ++
      palette.paint { bold := true, underlined := true } (String.ofList word) ++
      String.ofList (chars.drop highlight.stop)

def referenceLine (palette : Palette) (depth : Nat) (node : ReferenceNode) : String :=
  Tree.indent depth ++ highlighted palette node.label node.highlight ++ "  " ++
    palette.paint { dimmed := true } node.description ++ "\n"

def fileLines (palette : Palette) (depth : Nat) (node : FileNode) : String :=
  Tree.indent depth ++ palette.paint { colour := some .cyan } node.label ++ "\n" ++
    String.join (node.references.map (referenceLine palette (depth + 1)))

def kindColour : Kind → Colour
  | .write => .red
  | .read => .green

def groupLines (palette : Palette) (node : GroupNode) : String :=
  palette.paint { bold := true, colour := some (kindColour node.kind) } node.label ++ "\n" ++
    match node.body with
    | .flat references => String.join (references.map (referenceLine palette 1))
    | .byFile files => String.join (files.map (fileLines palette 1))

def treeLines (palette : Palette) (tree : Tree) : String :=
  palette.paint { bold := true } tree.summary ++ "\n" ++
    String.join (tree.groups.map (groupLines palette))

def positionJson (position : Position) : Json :=
  .object [("character", .nat position.column), ("line", .nat position.line)]

def rangeJson (range : Range) : Json :=
  .object [("end", positionJson range.stop), ("start", positionJson range.start)]

def locationJson (location : Location) : Json :=
  .object [("file", .text location.file), ("range", rangeJson location.range)]

def highlightJson (highlight : Highlight) : Json :=
  .object [("end", .nat highlight.stop), ("start", .nat highlight.start)]

def referenceJson (node : ReferenceNode) : Json :=
  .object
    [("description", .text node.description),
      ("highlight", .ofOption (node.highlight.map highlightJson)), ("label", .text node.label),
      ("location", locationJson node.location), ("type", .text "reference")]

def fileJson (node : FileNode) : Json :=
  .object
    [("children", .arr (node.references.map referenceJson)), ("file", .text node.file),
      ("label", .text node.label), ("type", .text "file")]

def groupJson (node : GroupNode) : Json :=
  let children := match node.body with
    | .flat references => references.map referenceJson
    | .byFile files => files.map fileJson
  .object
    [("children", .arr children), ("kind", .text node.kind.name), ("label", .text node.label),
      ("type", .text "group")]

def treeJson (symbolName : String) (tree : Tree) : Json :=
  .object
    [("nodes", .arr (tree.groups.map groupJson)), ("summary", .text tree.summary),
      ("symbolName", .text symbolName)]

/-- What was found. -/
def findingsReport (palette : Palette) (rendering : Rendering) (findings : Findings) (tree : Tree) :
    String :=
  match rendering with
  | .human => treeLines palette tree
  | .json => (treeJson findings.symbolName tree).pretty ++ "\n"

/-- That there is nothing to show. -/
def noticeReport (palette : Palette) (rendering : Rendering) (text : String) : String :=
  match rendering with
  | .human => palette.paint { colour := some .yellow } text ++ "\n"
  | .json => (Json.object [("info", .text text)]).compact ++ "\n"

/-! ### Classifications -/

def classificationReport (palette : Palette) (occurrence : String) : Option WriteRule → String
  | some rule =>
    palette.paint { bold := true } occurrence ++ " " ++
      palette.paint { bold := true, colour := some .red } "write" ++ " (" ++ rule.describe ++ ")\n"
  | none =>
    palette.paint { bold := true } occurrence ++ " " ++
      palette.paint { bold := true, colour := some .green } "read" ++ "\n"

/-! ### Configurations -/

/-- Texts on one line; a dash if there are none. -/
def listed (palette : Palette) (items : List String) : String :=
  if items.isEmpty then palette.paint { dimmed := true } "-" else ", ".intercalate items

def configLines (palette : Palette) (project : Project) : String :=
  let config := project.config
  let path := match project.configPath with
    | some path => path
    | none => palette.paint { dimmed := true } "none (defaults)"
  palette.paint { bold := true } "Config:" ++ " " ++ path ++ "\n" ++
    "groupByFile: " ++ toString config.groupByFile ++ "\n" ++
    "showFullPath: " ++ toString config.showFullPath ++ "\n" ++
    "include: " ++ listed palette config.includePatterns ++ "\n" ++
    "exclude: " ++ listed palette config.excludePatterns ++ "\n" ++
    "mutatingMethods: " ++ listed palette config.mutatingMethods ++ "\n"

/-- The configuration with its keys in order. -/
def configJson (config : Config) : Json :=
  .object (config.jsonMembers.mergeSort fun a b => a.1 ≤ b.1)

def configReport (palette : Palette) (rendering : Rendering) (project : Project) : String :=
  match rendering with
  | .human => configLines palette project
  | .json =>
    (Json.object
      [("config", configJson project.config),
        ("configPath", .ofOption (project.configPath.map .text))]).pretty ++ "\n"

def toggleReport (palette : Palette) (flag : Flag) (value : Bool) (configPath : Option String) :
    String :=
  let place := match configPath with
    | some path => " in " ++ path
    | none => ""
  palette.paint { colour := some .green } "✓" ++ " " ++ flag.name ++ " = " ++ toString value ++
    place ++ "\n"

end Usages.Cli
