/-
A root directory with the configuration that applies to it.

A toggle flips a display flag and saves the configuration. The flag is flipped first and stays
flipped when saving fails; so does the choice of the file, which is made when there is none yet. The
file itself may be left half written.
-/
import Usages.Config.File
import Usages.Workspace

namespace Usages

structure Project where
  root : String
  config : Config
  /-- The file the configuration is saved to. -/
  configPath : Option String
  classifier : Classifier
  filter : FileFilter
  deriving Repr, DecidableEq

namespace Project

/-- A project that no file belongs to yet. -/
def ofConfig (root : String) (config : Config) : Except Failure Project :=
  match FileFilter.ofConfig config with
  | .error error => .error (.pattern error)
  | .ok filter =>
    .ok
      { root
        config
        configPath := none
        classifier := .withExtra config.mutatingMethods
        filter }

/-- A project with the configuration in a file. -/
def ofConfigFile (disk : Disk) (root path : String) : Except Failure Project :=
  match Config.load disk path with
  | .error error => .error (.config error)
  | .ok config => do
    return { ← ofConfig root config with configPath := some path }

/-- A project with the configuration that applies to its root, or with the default one. -/
def ofRoot (disk : Disk) (root : String) : Except Failure Project :=
  match Config.find? disk root with
  | some path => ofConfigFile disk root path
  | none => ofConfig root {}

def displayOptions (project : Project) : DisplayOptions :=
  project.config.displayOptions

/-- The file is searched, if it is in the project; of other files only the language counts. -/
def accepts (project : Project) (path : String) : Bool :=
  match Path.relativeTo? path project.root with
  | some relative => project.filter.acceptsFile relative
  | none => Language.isSupported path

/-- The files of the project, by the names that lead to them from its root. -/
def files (project : Project) (disk : Disk) : Except Failure (List (List Name)) :=
  disk.discover project.root project.filter

/-- The paths of the files of the project, as they are shown. -/
def discover (project : Project) (disk : Disk) : Except Failure (List String) :=
  (project.files disk).map fun files => files.map (Path.below project.root)

/-- Look up the symbol at a position in the files of the project and in further files. -/
def find (project : Project) (disk : Disk) (source : Source) (file : String) (position : Position)
    (extra : List String) : Fetching (Except Failure Findings) :=
  match project.discover disk with
  | .error failure => return .error failure
  | .ok files =>
    findReferences (Locator.words source (files ++ extra)) source project.classifier file position

/-- The file a toggle saves to. -/
def savePath (project : Project) : String :=
  project.configPath.getD (Path.join project.root Config.defaultFileName)

/-- The project with a flag flipped and a file chosen. -/
def flip (project : Project) (flag : Flag) : Project :=
  { project with config := flag.toggle project.config, configPath := some project.savePath }

/-- What a toggle leaves behind. -/
structure Toggled where
  project : Project
  disk : Disk
  outcome : Except Failure Bool

/-- Flip a flag and save it; the outcome is its new value. -/
def toggle (project : Project) (disk : Disk) (flag : Flag) : Toggled :=
  let flipped := project.flip flag
  match flipped.config.save disk flipped.savePath with
  | .ok saved => ⟨flipped, saved, .ok (flag.value flipped.config)⟩
  | .error error =>
    ⟨flipped, flipped.config.leftBySave disk flipped.savePath, .error (.config error)⟩

end Project

end Usages
