/-
Lookups of a language server. A file belongs to the loaded project with the deepest root that
contains it; a file in none has a project of its own, with the configuration that applies to its
directory. Open documents are searched with the files of the project if the project accepts them.
-/
import Usages.Server.Basic

namespace Usages.Server

/-- How deep a root lies. -/
def depth (project : Project) : Nat :=
  (Path.components project.root).length

/-- The deeper of two projects. -/
def deeper (best : Option (String × Project)) (candidate : String × Project) :
    Option (String × Project) :=
  match best with
  | some found => if depth candidate.2 < depth found.2 then some found else some candidate
  | none => some candidate

/-- The loaded project with the deepest root that contains the path. -/
def workspaceFor? (server : Server) (path : String) : Option (String × Project) :=
  (server.projects.filter fun (_, project) => Path.startsWith path project.root).foldl deeper none

/-- The loaded project of a workspace. -/
def project? (server : Server) (workspace : String) : Option Project :=
  server.projects.lookup workspace

/-- The workspace and the project of a file. -/
def projectFor (server : Server) (disk : Disk) (path : String) :
    Except Failure (Option String × Project) :=
  match server.workspaceFor? path with
  | some (workspace, project) => .ok (some workspace, project)
  | none => do
    return (none, ← Project.ofRoot disk ((Path.parent? path).getD path))

/-- Open documents that are searched with a project. -/
def openFiles (server : Server) (project : Project) : List String :=
  server.documents.paths.filter project.accepts

/-- A place in a document, as the client names it. -/
structure DocumentPosition where
  uri : Uri
  position : Position
  deriving Repr, DecidableEq

/-- A lookup with the workspace and the root it was made in. -/
structure Lookup where
  workspace : Option String := none
  root : Option String := none
  outcome : Except Failure Findings

/-- Look up the symbol at a place. -/
def lookup (server : Server) (disk : Disk) (place : Option DocumentPosition) : Lookup :=
  match place.bind fun place => place.uri.file?.map fun file => (file, place.position) with
  | none => { outcome := .error .noActiveDocument }
  | some (file, position) =>
    match server.projectFor disk file with
    | .error failure => { outcome := .error failure }
    | .ok (workspace, project) =>
      let cursor := server.charPosition disk file position
      let find :=
        project.find disk (server.texts disk).source file cursor (server.openFiles project)
      { workspace
        root := some project.root
        outcome := (find.run []).1 }

/-- The locations of the symbol at a place, with the one under the cursor or without. -/
def references? (server : Server) (disk : Disk) (place : DocumentPosition)
    (includeDeclaration : Bool) : Option (List ClientLocation) := do
  let file ← place.uri.file?
  let (_, project) ← (server.projectFor disk file).toOption
  let files ← (project.discover disk).toOption
  let cursor := server.charPosition disk file place.position
  let locator := Locator.words (server.texts disk).source (files ++ server.openFiles project)
  let locations ← ((locator file cursor).run []).1.toOption
  let kept := locations.filter fun location =>
    includeDeclaration || !location.contains ⟨file, cursor⟩
  return kept.filterMap (server.clientLocation? disk)

/-- Take a lookup into the panel. A lookup that succeeds brings its workspace, its root and the
options of its project with it. -/
def apply (server : Server) (lookup : Lookup) : Server × ViewUpdate :=
  let view :=
    if lookup.outcome.isOk then
      let options := ((lookup.workspace.bind server.project?).map (·.displayOptions)).getD
        server.panel.view.options
      (server.panel.view.setOptions options).setRoot lookup.root
    else server.panel.view
  let workspace := if lookup.outcome.isOk then lookup.workspace else server.panel.workspace
  let (view, update) := view.apply lookup.outcome
  ({ server with panel := ⟨view, workspace⟩ }, update)

/-- Look up the symbol at a place and show what is found. -/
def findAll (server : Server) (disk : Disk) (place : Option DocumentPosition) :
    Server × ViewUpdate :=
  server.apply (server.lookup disk place)

/-- Put a project in the place of the one with its key. -/
def setProject (key : String) (project : Project) :
    List (String × Project) → List (String × Project)
  | [] => []
  | (other, old) :: rest =>
    if other = key then (other, project) :: rest else (other, old) :: setProject key project rest

/-- The options with a flag flipped. -/
def flipOption (flag : Flag) (options : DisplayOptions) : DisplayOptions :=
  match flag with
  | .groupByFile => options.toggleGroupByFile
  | .showFullPath => options.toggleShowFullPath

/-- What a toggle leaves behind; it fails if the configuration cannot be saved. -/
structure ToggleResult where
  server : Server
  disk : Disk
  failure : Option Failure := none

def setOptions (server : Server) (options : DisplayOptions) : Server :=
  { server with panel := { server.panel with view := server.panel.view.setOptions options } }

/-- Flip a flag. It is saved in the project of the panel, if there is one, and the panel takes its
options from there; otherwise it is only flipped in the panel. -/
def toggle (server : Server) (disk : Disk) (flag : Flag) : ToggleResult :=
  match server.panel.workspace.bind fun key => (server.project? key).map fun p => (key, p) with
  | none => { server := server.setOptions (flipOption flag server.panel.view.options), disk }
  | some (key, project) =>
    let toggled := project.toggle disk flag
    let server := { server with projects := setProject key toggled.project server.projects }
    match toggled.outcome with
    | .ok _ => { server := server.setOptions toggled.project.displayOptions, disk := toggled.disk }
    | .error failure => { server, disk := toggled.disk, failure := some failure }

end Usages.Server
