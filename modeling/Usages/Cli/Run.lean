/-
Running commands on a disk. A run that fails prints why on the error channel, the outermost reason
first and the causes below it, and nothing else.
-/
import Usages.Cli.Report

namespace Usages.Cli

/-- Why a command fails. -/
inductive CommandError where
  | positionNotFromOne
  | outsideLine (start stop length : Nat)
  | rootNotFound (root : String) (cause : OsError)
  | fileNotFound (file : String) (cause : OsError)
  | loadFailed (configPath : Option String) (cause : Failure)
  | findFailed (cause : Failure)
  | saveFailed (cause : Failure)
  deriving Repr, DecidableEq

namespace CommandError

def message : CommandError → String
  | positionNotFromOne => "Line and column numbers start at 1"
  | outsideLine start stop length =>
    "Range " ++ toString start ++ ".." ++ toString stop ++ " is outside the line (" ++
      toString length ++ " characters)"
  | rootNotFound root _ => "Workspace root not found: " ++ root
  | fileNotFound file _ => "File not found: " ++ file
  | loadFailed (some path) _ => "Failed to load config " ++ path
  | loadFailed none _ => "Failed to load config"
  | findFailed _ => "Find references failed"
  | saveFailed _ => "Failed to save config"

/-- The messages of the causes, outermost first. -/
def causes : CommandError → List String
  | positionNotFromOne | outsideLine .. => []
  | rootNotFound _ cause | fileNotFound _ cause => [cause.message]
  | loadFailed _ cause | findFailed cause | saveFailed cause => cause.message :: cause.causes

/-- A text whose lines but the first start with `margin`. -/
def hang (margin text : String) : String :=
  String.join ((text.splitOn "\n").intersperse ("\n" ++ margin))

/-- A cause with its number. -/
def numbered (number : Nat) (cause : String) : String :=
  let digits := toString number
  String.ofList (List.replicate (5 - digits.length) ' ') ++ digits ++ ": " ++ hang "       " cause

def causeLines : List String → List String
  | [] => []
  | [cause] => ["    " ++ hang "    " cause]
  | causes => causes.mapIdx numbered

/-- The error with its causes below it; several causes are numbered. -/
def report (error : CommandError) : String :=
  let below := match error.causes with
    | [] => ""
    | causes => "\n\nCaused by:" ++ String.join ((causeLines causes).map ("\n" ++ ·))
  "Error: " ++ error.message ++ below ++ "\n"

end CommandError

/-- The project a command works on. -/
def loadProject (disk : Disk) (invocation : Invocation) : Except CommandError Project := do
  let given := invocation.root.getD (Disk.pathOf disk.workingDirectory)
  let root ← (disk.canonical given).mapError (.rootNotFound given)
  match invocation.configPath with
  | some path => (Project.ofConfigFile disk root path).mapError (.loadFailed (some path))
  | none => (Project.ofRoot disk root).mapError (.loadFailed none)

/-- Options that are on in either. -/
def either (options others : DisplayOptions) : DisplayOptions :=
  ⟨options.groupByFile || others.groupByFile, options.showFullPath || others.showFullPath⟩

def runFind (disk : Disk) (palette : Palette) (invocation : Invocation) (file : String)
    (line column : Nat) (options : DisplayOptions) (rendering : Rendering) :
    Except CommandError String := do
  if line = 0 ∨ column = 0 then .error .positionNotFromOne
  let project ← loadProject disk invocation
  let path ← (disk.canonical file).mapError (.fileNotFound file)
  match (project.find disk disk.source path ⟨line - 1, column - 1⟩ [] |>.run []).1 with
  | .ok findings =>
    let tree := .ofFindings findings (either project.displayOptions options) (some project.root)
    return findingsReport palette rendering findings tree
  | .error failure =>
    if failure.isInformational then return noticeReport palette rendering failure.message
    else .error (.findFailed failure)

def runClassify (disk : Disk) (palette : Palette) (invocation : Invocation) (text : String)
    (start stop : Nat) : Except CommandError String := do
  let line := text.toList
  if stop < start ∨ line.length < stop then .error (.outsideLine start stop line.length)
  let project ← loadProject disk invocation
  let occurrence := (line.drop start).take (stop - start)
  return classificationReport palette (String.ofList occurrence)
    (project.classifier.writeRule line start stop)

/-- Flip a flag of the configuration and save it. -/
def runToggle (disk : Disk) (palette : Palette) (invocation : Invocation) (flag : Flag) :
    Except CommandError String × Disk :=
  match loadProject disk invocation with
  | .error error => (.error error, disk)
  | .ok project =>
    let toggled := project.toggle disk flag
    let report := toggled.outcome.map fun value =>
      toggleReport palette flag value toggled.project.configPath
    (report.mapError .saveFailed, toggled.disk)

/-- Run a command. Only a toggle changes the disk, also one that cannot be saved. -/
def Invocation.run (disk : Disk) (palette : Palette) (invocation : Invocation) :
    Except CommandError String × Disk :=
  match invocation.command with
  | .find file line column options rendering =>
    (runFind disk palette invocation file line column options rendering, disk)
  | .classify text start stop => (runClassify disk palette invocation text start stop, disk)
  | .showConfig rendering =>
    ((loadProject disk invocation).map (configReport palette rendering), disk)
  | .toggle flag => runToggle disk palette invocation flag

/-- What a run leaves behind. -/
structure Finished where
  exitCode : Nat
  output : String := ""
  errors : String := ""
  disk : Disk
  deriving Repr, DecidableEq

def versionText : String :=
  "refgroup 0.1.0\n"

def usageText : String :=
  "Find references and group them into reads and writes\n\n" ++
  "Usage: refgroup [-c FILE] [-r DIR] [-v] COMMAND\n\n" ++
  "Commands:\n" ++
  "  find FILE LINE COLUMN [--group-by-file] [--full-path] [-f human|json]\n" ++
  "  classify TEXT START END\n" ++
  "  config show [-f human|json]\n" ++
  "  config toggle group-by-file|show-full-path\n"

/-- Run a command line. -/
def run (disk : Disk) (palette : Palette) (arguments : List String) : Finished :=
  match Invocation.ofArguments arguments with
  | .error .badUsage => { exitCode := 2, errors := usageText, disk }
  | .error .help => { exitCode := 0, output := usageText, disk }
  | .error .version => { exitCode := 0, output := versionText, disk }
  | .ok invocation =>
    match invocation.run disk palette with
    | (.ok output, disk) => { exitCode := 0, output, disk }
    | (.error error, disk) => { exitCode := 1, errors := error.report, disk }

end Usages.Cli
