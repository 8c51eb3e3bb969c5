/-
The files of a workspace that are searched. The walk enters only directories that the filter
accepts and does not go over links below the root. A directory that cannot be listed is passed over,
unless it is the root. Files come in the order of their paths, compared name by name.
-/
import Usages.Disk
import Usages.Filter

namespace Usages

/-- Nonempty beginnings of a list that are shorter than it. -/
def properPrefixes {α : Type} : List α → List (List α)
  | [] => []
  | [_] => []
  | a :: b :: rest => [a] :: (properPrefixes (b :: rest)).map (a :: ·)

/-- Names come before others by the first difference. -/
def namesBefore (names others : List Name) : Bool :=
  names.lex others Name.before

/-- Put names into an ascending list. -/
def insertNames (names : List Name) : List (List Name) → List (List Name)
  | [] => [names]
  | other :: rest =>
    if namesBefore names other then names :: other :: rest else other :: insertNames names rest

/-- The filter accepts the file and the directories on the way to it. -/
def FileFilter.reaches (filter : FileFilter) (names : List Name) : Bool :=
  (properPrefixes names).all (fun directory => filter.acceptsDirectory (.ofNames directory)) &&
    filter.acceptsFile (.ofNames names)

namespace Disk

/-- The directories on the way to the file can be listed. -/
def listsTo (disk : Disk) (directory : List String) (names : List Name) : Bool :=
  (properPrefixes names).all fun above =>
    (disk.unlistable.lookup (directory.map .text ++ above)).isNone

/-- The files to search, below a root, in order. -/
def discoverBelow (disk : Disk) (directory : List String) (filter : FileFilter) :
    List (List Name) :=
  ((disk.filesBelow directory).filter fun names =>
    disk.listsTo directory names && filter.reaches names).foldr insertNames []

/-- The files to search, by the names that lead to them from the root. A root that is no directory
has none. -/
def discover (disk : Disk) (root : String) (filter : FileFilter) :
    Except Failure (List (List Name)) :=
  match disk.resolve root with
  | .error cause => .error (.walk ⟨root, cause⟩)
  | .ok place =>
    if disk.get? place = some .directory then
      match disk.unlistable.lookup (place.map .text) with
      | some cause => .error (.walk ⟨root, cause⟩)
      | none => .ok (disk.discoverBelow place filter)
    else .ok []

end Disk

end Usages
