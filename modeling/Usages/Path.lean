/-
Slash-separated paths. A path is a text; what it means is its list of components, in which empty
and `.` segments do not count (a `.` in front of a relative path does). Two paths with the same
components name the same place, although their texts may differ, and operations that cut a path
keep the text of what they leave.
-/

namespace Usages

namespace Path

/-- One step of a path. -/
inductive Component where
  | root
  | here
  | up
  | name (text : String)
  deriving Repr, DecidableEq

/-- What a path starts with. -/
inductive Lead where
  | root
  | here
  | none
  deriving Repr, DecidableEq

/-- A path cut at its slashes: what it starts with, and the segments behind that. -/
structure Parts where
  lead : Lead
  segments : List String
  deriving Repr, DecidableEq

/-- The text cut at every slash. -/
def splitSlashes : List Char → List (List Char)
  | [] => [[]]
  | c :: rest =>
    if c = '/' then [] :: splitSlashes rest
    else
      match splitSlashes rest with
      | [] => [[c]]
      | piece :: others => (c :: piece) :: others

/-- Cut a path. -/
def parts (path : String) : Parts :=
  match (splitSlashes path.toList).map String.ofList with
  | "" :: segment :: others => ⟨.root, segment :: others⟩
  | "." :: others => ⟨.here, others⟩
  | segments => ⟨.none, segments⟩

/-- A segment that is no component. -/
def isIdle (segment : String) : Bool :=
  segment == "" || segment == "."

/-- Segments joined by slashes. -/
def joinSegments (segments : List String) : String :=
  "/".intercalate segments

/-- The segments without those at the end that do not count. -/
def trimRight (segments : List String) : List String :=
  (segments.reverse.dropWhile isIdle).reverse

namespace Parts

/-- The path with these parts. -/
def text (parts : Parts) : String :=
  match parts.lead, parts.segments with
  | .root, segments => "/" ++ joinSegments segments
  | .here, [] => "."
  | .here, segments => "./" ++ joinSegments segments
  | .none, segments => joinSegments segments

end Parts

/-- The components of a segment. -/
def segmentComponent (segment : String) : Option Component :=
  if isIdle segment then none else if segment == ".." then some .up else some (.name segment)

def leadComponents : Lead → List Component
  | .root => [.root]
  | .here => [.here]
  | .none => []

/-- The components of a path. -/
def components (path : String) : List Component :=
  let cut := parts path
  leadComponents cut.lead ++ cut.segments.filterMap segmentComponent

def isAbsolute (path : String) : Bool :=
  path.toList.head? == some '/'

/-- The last component, if it is a name. -/
def fileName? (path : String) : Option String :=
  match (trimRight (parts path).segments).getLast? with
  | some segment => if segment == ".." then none else some segment
  | none => none

/-- What stands behind the last dot of a file name, if something stands before it. -/
def extension? (path : String) : Option String := do
  let name ← fileName? path
  let reversed := name.toList.reverse
  let tail := reversed.takeWhile (· != '.')
  match reversed.drop tail.length with
  | '.' :: _ :: _ => some (String.ofList tail.reverse)
  | _ => none

/-- The path without its last component. A path without components, or the root, has none. -/
def parent? (path : String) : Option String :=
  let cut := parts path
  match trimRight cut.segments with
  | [] => if cut.lead = .here then some "" else none
  | segments => some (Parts.text ⟨cut.lead, trimRight segments.dropLast⟩)

/-- The path from `base` on: an absolute path stands for itself. -/
def join (base path : String) : String :=
  if isAbsolute path then path
  else if base == "" || base.toList.getLast? == some '/' then base ++ path
  else base ++ "/" ++ path

/-- The segments after the first `n` that count. -/
def dropComponents : Nat → List String → List String
  | 0, segments => segments
  | _ + 1, [] => []
  | n + 1, segment :: rest =>
    if isIdle segment then dropComponents (n + 1) rest else dropComponents n rest

/-- The components of `base` come first in those of the path. -/
def startsWith (path base : String) : Bool :=
  (components base).isPrefixOf (components path)

/-- The text that is left of the path when the components of `base` are taken away. -/
def relativeTo? (path base : String) : Option String :=
  if startsWith path base then
    let cut := parts path
    match (components base).length with
    | 0 => some (Parts.text ⟨cut.lead, trimRight cut.segments⟩)
    | count =>
      let lead := (leadComponents cut.lead).length
      let rest := dropComponents (count - lead) cut.segments
      some (joinSegments (trimRight (rest.dropWhile isIdle)))
  else none

end Path

end Usages
