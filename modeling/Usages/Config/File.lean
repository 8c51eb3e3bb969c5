/-
Configurations on a disk. The file that applies to a directory is the nearest one at or above it;
where a directory has several, the first name of the list counts.
-/
import Usages.Config.Text
import Usages.Disk

namespace Usages.Config

/-- Names of configuration files, the preferred first. -/
def fileNames : List String :=
  [".refgrouprc.yml", ".refgrouprc.yaml", ".refgrouprc.json", ".refgrouprc",
    "refgroup.config.yml", "refgroup.config.yaml", "refgroup.config.json"]

/-- The file that is made when a configuration is first saved. -/
def defaultFileName : String :=
  ".refgrouprc.yml"

/-- The path and the paths above it, as its text gives them. There are no more than the path has
characters. -/
def ancestors : (fuel : Nat) → String → List String
  | 0, path => [path]
  | fuel + 1, path =>
    path ::
      match Path.parent? path with
      | some parent => ancestors fuel parent
      | none => []

/-- The configuration file in a directory. -/
def fileIn? (disk : Disk) (directory : String) : Option String :=
  (fileNames.map (Path.join directory)).find? disk.isFile

/-- The configuration file that applies to a directory. -/
def find? (disk : Disk) (start : String) : Option String :=
  (ancestors (start.length + 1) start).findSome? (fileIn? disk)

/-- Load the configuration in a file. -/
def load (disk : Disk) (path : String) : Except ConfigError Config :=
  match disk.read path with
  | .error cause => .error (.io cause)
  | .ok contents => ofContents path contents

/-- Save a configuration to a file. -/
def save (config : Config) (disk : Disk) (path : String) : Except ConfigError Disk := do
  let contents ← config.toContents path
  match disk.write path contents with
  | .error cause => .error (.io cause)
  | .ok disk => .ok disk

/-- The disk after a try to save a configuration, also after one that fails. -/
def leftBySave (config : Config) (disk : Disk) (path : String) : Disk :=
  match config.toContents path with
  | .error _ => disk
  | .ok contents => (disk.tryWrite path contents).disk

end Usages.Config
