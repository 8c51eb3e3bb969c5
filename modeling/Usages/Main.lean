/-
The command line on the disk of the machine. The part of the disk that a command can look at is
read first, the command runs on that, and the file it changes is written back. A write that the
machine refuses is reported as the command would report it. Special files are not opened.
-/
import Usages.Cli.Run

namespace Usages.Machine

/-- Why the machine refuses. -/
def causeOf : IO.Error → OsError
  | .permissionDenied .. => .permissionDenied
  | .resourceExhausted .. => .storageFull
  | error => .other (toString error)

/-- Read a regular file. -/
def loadFile (path : String) : IO DiskEntry := do
  try
    match String.fromUTF8? (← IO.FS.readBinFile path) with
    | some content => return .text content
    | none => return .binary
  catch error => return .unreadable (causeOf error)

/-- Read what stands at a place, without what is below it. A link is followed. -/
partial def loadEntry (disk : Disk) (place : List String) : IO Disk := do
  if (disk.get? place).isSome then return disk
  let path := (← IO.currentDir) / Disk.pathOf place
  try
    match (← path.symlinkMetadata).type with
    | .dir => return disk.set place .directory
    | .symlink =>
      let target := (← IO.FS.realPath path).toString
      let disk := disk.set place (.link target)
      let names := (Disk.segments target).filter (!·.isEmpty)
      ((List.range names.length).map fun n => names.take (n + 1)).foldlM loadEntry disk
    | .file => return disk.set place (← loadFile path.toString)
    | .other => return disk.set place (.device "")
  catch _ => return disk

/-- Read a place and everything below it. -/
partial def loadTree (disk : Disk) (place : List String) : IO Disk := do
  let mut disk ← loadEntry disk place
  match disk.get? place with
  | some .directory =>
    try
      for entry in ← ((← IO.currentDir) / Disk.pathOf place).readDir do
        disk ← loadTree disk (place ++ [entry.fileName])
      return disk
    catch error =>
      return { disk with unlistable := (place.map .text, causeOf error) :: disk.unlistable }
  | _ => return disk

/-- The places a path leads over, from the root down. -/
def placesOver (start : List String) (path : String) : List (List String) :=
  let names := (if Path.isAbsolute path then [] else start) ++ Disk.segments path
  let step (places : List (List String)) (name : String) : List (List String) :=
    let here := places.getLast?.getD []
    if name.isEmpty || name == "." then places
    else if name == ".." then places ++ [here.dropLast]
    else places ++ [here ++ [name]]
  names.foldl step [[]]

/-- Read all that a path leads over. -/
def loadPath (disk : Disk) (path : String) : IO Disk :=
  (placesOver disk.workingDirectory path).foldlM loadEntry disk

/-- Read what a command can look at. -/
def load (invocation : Cli.Invocation) : IO Disk := do
  let start := (Disk.segments (← IO.FS.realPath (← IO.currentDir)).toString).filter (!·.isEmpty)
  let empty : Disk := { workingDirectory := start }
  let mut disk ← loadPath empty (Disk.pathOf start)
  let root := invocation.root.getD (Disk.pathOf start)
  disk ← loadPath disk root
  if let some path := invocation.configPath then disk ← loadPath disk path
  if let .ok place := disk.resolve root then
    for depth in List.range (place.length + 1) do
      for name in Config.fileNames do
        disk ← loadEntry disk (place.take depth ++ [name])
    if let .find file .. := invocation.command then
      disk ← loadPath disk file
      disk ← loadTree disk place
  return disk

/-- Write the files that a command changed, and say why one cannot be written. -/
def store (before after : Disk) : IO (Option OsError) := do
  try
    for (place, entry) in after.entries do
      if let .text content := entry then
        if before.entryAt? place != some entry then
          IO.FS.writeFile (Disk.pathOf (place.map Name.shown)) content
    return none
  catch error => return some (causeOf error)

/-- The palette that the environment asks for: colour can be forced or turned off, and is otherwise
for terminals only. -/
def palette : IO Cli.Palette := do
  let isSet (name : String) : IO (Option Bool) := return (← IO.getEnv name).map (· != "0")
  if (← isSet "CLICOLOR_FORCE") == some true then return .coloured
  if (← isSet "NO_COLOR").isSome then return .plain
  let wanted := (← isSet "CLICOLOR").getD true
  return if wanted && (← (← IO.getStdout).isTty) then .coloured else .plain

end Usages.Machine

open Usages in
/-- Run the arguments and exit with the code of the command. -/
def main (arguments : List String) : IO UInt32 := do
  let disk ← match Cli.Invocation.ofArguments arguments with
    | .ok invocation => Machine.load invocation
    | .error _ => pure {}
  let finished := Cli.run disk (← Machine.palette) arguments
  match ← Machine.store disk finished.disk with
  | some cause =>
    IO.eprint (Cli.CommandError.saveFailed (.config (.io cause))).report
    return 1
  | none =>
    IO.print finished.output
    IO.eprint finished.errors
    return finished.exitCode.toUInt32
