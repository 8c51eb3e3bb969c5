/-
What a server sends, as JSON. A reference in a tree carries its location as the client sees it and
the command that opens it.
-/
import Usages.Server.Lookup

namespace Usages.Server

/-- Commands of the server. -/
inductive CommandName where
  | findAllReferences
  | openReference
  | toggle (flag : Flag)
  deriving Repr, DecidableEq

namespace CommandName

def all : List CommandName :=
  [findAllReferences, openReference, toggle .groupByFile, toggle .showFullPath]

def text : CommandName → String
  | findAllReferences => "refgroup.findAllReferences"
  | openReference => "refgroup.openReference"
  | toggle .groupByFile => "refgroup.toggleGroupByFile"
  | toggle .showFullPath => "refgroup.toggleShowFullPath"

def ofText? (name : String) : Option CommandName :=
  all.find? (·.text == name)

end CommandName

def positionJson (position : Position) : Json :=
  .object [("line", .nat position.line), ("character", .nat position.column)]

def rangeJson (range : Range) : Json :=
  .object [("start", positionJson range.start), ("end", positionJson range.stop)]

def locationJson (location : ClientLocation) : Json :=
  .object [("uri", .text location.uri.text), ("range", rangeJson location.range)]

def openCommandJson (location : ClientLocation) : Json :=
  .object
    [("title", .text "Open reference"), ("command", .text CommandName.openReference.text),
      ("arguments", .arr [locationJson location])]

def highlightJson (highlight : Highlight) : Json :=
  .object [("start", .nat highlight.start), ("end", .nat highlight.stop)]

def referenceJson (server : Server) (disk : Disk) (node : ReferenceNode) : Json :=
  let location := server.clientLocation? disk node.location
  .object
    [("type", .text "reference"), ("label", .text node.label),
      ("description", .text node.description),
      ("highlight", .ofOption (node.highlight.map highlightJson)),
      ("location", .ofOption (location.map locationJson)),
      ("command", .ofOption (location.map openCommandJson))]

def fileJson (server : Server) (disk : Disk) (node : FileNode) : Json :=
  .object
    [("type", .text "file"), ("label", .text node.label), ("file", .text node.file),
      ("children", .arr (node.references.map (server.referenceJson disk)))]

def groupJson (server : Server) (disk : Disk) (node : GroupNode) : Json :=
  let children := match node.body with
    | .flat references => references.map (server.referenceJson disk)
    | .byFile files => files.map (server.fileJson disk)
  .object
    [("type", .text "group"), ("label", .text node.label), ("kind", .text node.kind.name),
      ("children", .arr children)]

def treeJson (server : Server) (disk : Disk) (tree : Tree) : Json :=
  .object
    [("summary", .text tree.summary), ("nodes", .arr (tree.groups.map (server.groupJson disk)))]

/-- What the server can do. -/
def capabilitiesJson (encoding : Encoding) : Json :=
  .object
    [("capabilities", .object
      [("positionEncoding", .text encoding.name), ("textDocumentSync", .nat 1),
        ("referencesProvider", .bool true),
        ("executeCommandProvider", .object
          [("commands", .arr (CommandName.all.map fun command => .text command.text))])]),
     ("serverInfo", .object
      [("name", .text "Reference Grouper"), ("version", .text "0.1.0")])]

/-- How grave a message is. -/
inductive Severity where
  | error
  | info
  deriving Repr, DecidableEq

def Severity.code : Severity → Nat
  | error => 1
  | info => 3

/-- A message of the server to its client. -/
inductive ClientMessage where
  | notice (severity : Severity) (text : String)
  | logEntry (severity : Severity) (text : String)
  | showDocument (location : ClientLocation)
  deriving Repr, DecidableEq

namespace ClientMessage

def method : ClientMessage → String
  | notice .. => "window/showMessage"
  | logEntry .. => "window/logMessage"
  | showDocument _ => "window/showDocument"

def params : ClientMessage → Json
  | notice severity text | logEntry severity text =>
    .object [("type", .nat severity.code), ("message", .text text)]
  | showDocument location =>
    .object
      [("uri", .text location.uri.text), ("takeFocus", .bool true),
        ("selection", rangeJson location.range)]

end ClientMessage

end Usages.Server
