/-
Which files of a workspace are searched. Paths are relative to its root. A file is searched if its
language is known, some include pattern accepts it (when there are any) and no exclude pattern
does. An exclude pattern that ends in `/**` leaves out everything below some directories; what
stands before that ending recognises those directories, so that they need not be entered. Patterns
say nothing of a path that is no text: no exclude pattern rejects it.
-/
import Usages.Config.Basic
import Usages.Glob
import Usages.Language

namespace Usages

structure FileFilter where
  includes : List Glob
  excludes : List Glob
  /-- Directories that need not be entered. -/
  excludedDirectories : List Glob
  deriving Repr, DecidableEq

namespace FileFilter

/-- The pattern without `/**` at its end, if it has that. -/
def directoryPattern? (pattern : String) : Option String :=
  match pattern.toList.reverse with
  | '*' :: '*' :: '/' :: rest => some (String.ofList rest.reverse)
  | _ => none

/-- Compile the patterns of a configuration; the first that is faulty stops it. -/
def ofConfig (config : Config) : Except GlobError FileFilter := do
  let includes ← config.includePatterns.mapM Glob.compile
  let excludes ← config.excludePatterns.mapM Glob.compile
  let directories ← (config.excludePatterns.filterMap directoryPattern?).mapM Glob.compile
  return ⟨includes, excludes, directories⟩

/-- The file at this path is searched. -/
def acceptsFile (filter : FileFilter) (relative : OsPath) : Bool :=
  Language.isSupported relative &&
    (filter.includes.isEmpty || filter.includes.any (·.acceptsPath relative)) &&
    !filter.excludes.any (·.acceptsPath relative)

/-- The directory at this path is entered. -/
def acceptsDirectory (filter : FileFilter) (relative : OsPath) : Bool :=
  !filter.excludedDirectories.any (·.acceptsPath relative)

end FileFilter

end Usages
