/-
Parameters of the messages a client sends. A structure comes as an object, in which further members
do not matter, or as an array of its fields in order. Lines, columns and versions are numbers of 32
bits.
-/
import Usages.Server.Lookup

namespace Usages.Server.Params

/-- The member of an object; null counts as missing. -/
def member? (json : Json) (key : String) : Option Json :=
  match json with
  | .obj members =>
    match members.find? fun (name, _) => name == some key with
    | some (_, .null) => none
    | some (_, value) => some value
    | none => none
  | _ => none

/-- The fields of a structure, all of which are needed. -/
def fields? (names : List String) : Json → Option (List Json)
  | .arr items => if items.length = names.length then some items else none
  | .obj members => names.mapM (member? (.obj members))
  | _ => none

/-- A member that may be missing but has to be right if it is there. -/
def optional? {α : Type} (json : Json) (key : String) (decode : Json → Option α) :
    Option (Option α) :=
  match member? json key with
  | some value => (decode value).map some
  | none => some none

/-- A number without sign of 32 bits. -/
def unsigned? : Json → Option Nat
  | .int value => if 0 ≤ value ∧ value < 4294967296 then some value.toNat else none
  | _ => none

/-- A number with sign of 32 bits. -/
def signed? : Json → Option Int
  | .int value => if -2147483648 ≤ value ∧ value < 2147483648 then some value else none
  | _ => none

def list? {α : Type} (decode : Json → Option α) : Json → Option (List α)
  | .arr items => items.mapM decode
  | _ => none

def uri? (json : Json) : Option Uri :=
  json.text?.bind Uri.parse?

def position? (json : Json) : Option Position :=
  match fields? ["line", "character"] json with
  | some [line, column] => do return ⟨← unsigned? line, ← unsigned? column⟩
  | _ => none

def range? (json : Json) : Option Range :=
  match fields? ["start", "end"] json with
  | some [start, stop] => do return ⟨← position? start, ← position? stop⟩
  | _ => none

def location? (json : Json) : Option ClientLocation :=
  match fields? ["uri", "range"] json with
  | some [uri, range] => do return ⟨← uri? uri, ← range? range⟩
  | _ => none

/-- The identifier of a document. -/
def document? (json : Json) : Option Uri :=
  match fields? ["uri"] json with
  | some [uri] => uri? uri
  | _ => none

def documentPosition? (json : Json) : Option DocumentPosition :=
  match fields? ["textDocument", "position"] json with
  | some [document, position] => do return ⟨← document? document, ← position? position⟩
  | _ => none

/-- A token for progress reports: a number or a text. -/
def token? (json : Json) : Option Unit :=
  match json with
  | .int _ => (signed? json).map fun _ => ()
  | .str (some _) => some ()
  | _ => none

/-- An object whose progress token is right, if it has one. -/
def withToken? (json : Json) : Option Json :=
  match json with
  | .obj _ => (optional? json "workDoneToken" token?).map fun _ => json
  | _ => none

/-- A request for references: the place, and whether the one there counts. -/
def references? (json : Json) : Option (DocumentPosition × Bool) := do
  let json ← withToken? json
  let _ ← optional? json "partialResultToken" token?
  let place ← documentPosition? json
  match fields? ["includeDeclaration"] (← member? json "context") with
  | some [flag] => return (place, ← flag.bool?)
  | _ => none

/-- A command and its arguments. -/
structure Command where
  name : String
  arguments : List Json

/-- A member that is null is not the same as one that is missing. -/
def arguments? (json : Json) : Option (List Json) :=
  match json with
  | .obj members =>
    match members.find? fun (name, _) => name == some "arguments" with
    | some (_, value) => list? some value
    | none => some []
  | _ => none

def command? (json : Json) : Option Command := do
  let json ← withToken? json
  return ⟨← (← member? json "command").text?, ← arguments? json⟩

/-- A document that was opened: its identifier and its text. -/
def opened? (json : Json) : Option (Uri × String) :=
  match fields? ["textDocument"] json with
  | some [document] =>
    match fields? ["uri", "languageId", "version", "text"] document with
    | some [uri, language, version, text] => do
      let _ ← language.text?
      let _ ← signed? version
      return (← uri? uri, ← text.text?)
    | _ => none
  | _ => none

/-- The text of a change. The range it may name is not used: every change holds the whole text. -/
def change? (json : Json) : Option String :=
  match json with
  | .arr [range, length, text] => do
    let _ ← if range == .null then some none else (range? range).map some
    let _ ← if length == .null then some none else (unsigned? length).map some
    text.text?
  | .obj _ => do
    let _ ← optional? json "range" range?
    let _ ← optional? json "rangeLength" unsigned?
    (← member? json "text").text?
  | _ => none

/-- A document that was changed: its identifier and the texts of the changes. -/
def changed? (json : Json) : Option (Uri × List String) :=
  match fields? ["textDocument", "contentChanges"] json with
  | some [document, changes] =>
    match fields? ["uri", "version"] document with
    | some [uri, version] => do
      let _ ← signed? version
      return (← uri? uri, ← list? change? changes)
    | _ => none
  | _ => none

/-- A document that was closed. -/
def closed? (json : Json) : Option Uri :=
  match fields? ["textDocument"] json with
  | some [document] => document? document
  | _ => none

/-- The start of a session: how the client counts columns, and its folders. -/
structure Start where
  encoding : Encoding
  folders : List (String × String)
  deriving Repr, DecidableEq

def folder? (json : Json) : Option Uri :=
  match fields? ["uri", "name"] json with
  | some [uri, name] => do
    let _ ← name.text?
    uri? uri
  | _ => none

def isObject : Json → Bool
  | .obj _ => true
  | _ => false

def object? (json : Json) : Option Json :=
  if isObject json then some json else none

/-- Who the client is. -/
def clientInfo? (json : Json) : Option Unit := do
  let _ ← (← member? (← object? json) "name").text?
  let _ ← optional? json "version" Json.text?
  return ()

def trace? (json : Json) : Option Unit :=
  match json.text? with
  | some level => if ["off", "messages", "verbose"].contains level then some () else none
  | none => none

/-- The ways to count columns that the client offers. -/
def offered? (json : Json) : Option (List String) := do
  let capabilities ← object? (← member? json "capabilities")
  match ← optional? capabilities "general" object? with
  | some general => return (← optional? general "positionEncodings" Json.texts?).getD []
  | none => return []

/-- Put a folder in place of one with the same identifier. -/
def insertFolder (uri path : String) : List (String × String) → List (String × String)
  | [] => [(uri, path)]
  | (other, old) :: rest =>
    if other = uri then (uri, path) :: rest else (other, old) :: insertFolder uri path rest

/-- The folders that name a path, each identifier once. -/
def folderPaths (folders : List Uri) : List (String × String) :=
  folders.foldl (fun paths uri =>
    match uri.file? with
    | some path => insertFolder uri.text path paths
    | none => paths) []

/-- Characters are counted if the client offers that. -/
def start? (json : Json) : Option Start := do
  let json ← withToken? json
  let offered ← offered? json
  let _ ← optional? json "processId" unsigned?
  let _ ← optional? json "rootPath" Json.text?
  let _ ← optional? json "rootUri" uri?
  let _ ← optional? json "trace" trace?
  let _ ← optional? json "clientInfo" clientInfo?
  let _ ← optional? json "locale" Json.text?
  let folders ← optional? json "workspaceFolders" (list? folder?)
  return ⟨if offered.contains "utf-32" then .utf32 else .utf16, folderPaths (folders.getD [])⟩

end Usages.Server.Params
