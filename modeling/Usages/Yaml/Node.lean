/-
The one document of a YAML stream, as a tree.

The grammar is read by descent over the tokens, with one token of look-ahead. An alias stands for
the node that last took its name; such a node is put in its place, unless it is not finished yet
because the alias stands inside it. `fuel` bounds the descent: it is proportional to the number of
tokens, and no path uses more.
-/
import Usages.Yaml.Token

namespace Usages.Yaml

inductive Node where
  | scalar (style : Style) (tag : Option String) (text : String)
  | sequence (items : List Node)
  | mapping (members : List (Node × Node))
  /-- An alias to a node around it. -/
  | cycle
  deriving Repr, Inhabited

namespace Node

/-- What stands where nothing is written. -/
def empty : Node :=
  .scalar .plain none ""

end Node

/-- What is left to read, and what names mean so far. -/
structure Reading where
  tokens : List Token
  /-- The full form of each tag handle. -/
  handles : List (String × String) := []
  /-- Anchors with their numbers, latest first. -/
  anchors : List (String × Nat) := []
  /-- Finished nodes by the number of their anchor. -/
  nodes : List (Nat × Node) := []

namespace Reading

def peek? (reading : Reading) : Option Token :=
  reading.tokens.head?

def skip (reading : Reading) : Reading :=
  { reading with tokens := reading.tokens.drop 1 }

/-- The next token is one of these. -/
def isAt (reading : Reading) (tokens : List Token) : Bool :=
  reading.peek?.any tokens.contains

/-- The node an alias stands for. -/
def resolve? (reading : Reading) (name : String) : Option Node := do
  let number ← reading.anchors.lookup name
  return (reading.nodes.lookup number).getD .cycle

/-- The full tag. A handle has to be known. -/
def fullTag? (reading : Reading) (handle suffix : String) : Option String :=
  if handle.isEmpty then some suffix else (reading.handles.lookup handle).map (· ++ suffix)

end Reading

/-- Anchor and tag in front of a node. -/
structure Properties where
  anchor : Option String := none
  tag : Option String := none
  deriving Repr, DecidableEq

def readTagProperty (reading : Reading) : Option (Option String × Reading) :=
  match reading.peek? with
  | some (.tag handle suffix) => do
    return (some (← reading.fullTag? handle suffix), reading.skip)
  | _ => some (none, reading)

def readAnchorProperty (reading : Reading) : Option String × Reading :=
  match reading.peek? with
  | some (.anchor name) => (some name, reading.skip)
  | _ => (none, reading)

/-- Anchor and tag, in either order, each at most once. -/
def readProperties (reading : Reading) : Option (Properties × Reading) := do
  match reading.peek? with
  | some (.anchor name) =>
    let (tag, reading) ← readTagProperty reading.skip
    return (⟨some name, tag⟩, reading)
  | _ =>
    let (tag, reading) ← readTagProperty reading
    if tag.isNone then return ({}, reading)
    else
      let (anchor, reading) := readAnchorProperty reading
      return (⟨anchor, tag⟩, reading)

/-- A scalar with its tag; the tag that is only an exclamation mark says nothing. -/
def scalarNode (style : Style) (tag : Option String) (text : String) : Node :=
  .scalar style (tag.filter (· != "!")) text

/-- Where a node stands: whether a block may start there, and whether entries of a sequence may
stand no further in than the key before them. -/
structure Place where
  block : Bool
  indentless : Bool := false
  deriving Repr, DecidableEq

namespace Reading

/-- Give an anchor its number; the node follows. -/
def declare (reading : Reading) (anchor : Option String) : Reading :=
  match anchor with
  | some name => { reading with anchors := (name, reading.anchors.length) :: reading.anchors }
  | none => reading

/-- Keep the node of an anchor that got number `number`. -/
def define (reading : Reading) (anchor : Option String) (number : Nat) (node : Node) : Reading :=
  match anchor with
  | some _ => { reading with nodes := (number, node) :: reading.nodes }
  | none => reading

end Reading

mutual

/-- A node. -/
def readNode : (fuel : Nat) → Place → Reading → Option (Node × Reading)
  | 0, _, _ => none
  | fuel + 1, place, reading =>
    match reading.peek? with
    | some (.aliasTo name) => (reading.resolve? name).map fun node => (node, reading.skip)
    | _ => do
      let number := reading.anchors.length
      let (properties, reading) ← readProperties reading
      let (node, reading) ← readContent fuel place properties (reading.declare properties.anchor)
      return (node, reading.define properties.anchor number node)

/-- A node behind its properties. With properties it may be empty. -/
def readContent : (fuel : Nat) → Place → Properties → Reading → Option (Node × Reading)
  | 0, _, _, _ => none
  | fuel + 1, place, properties, reading =>
    let sequence := Option.map fun ((items, reading) : List Node × Reading) =>
      (Node.sequence items, reading)
    let mapping := Option.map fun ((members, reading) : List (Node × Node) × Reading) =>
      (Node.mapping members, reading)
    let empty :=
      if properties.anchor.isSome || properties.tag.isSome then
        some (Node.scalar .plain properties.tag "", reading)
      else none
    match reading.peek? with
    | some .blockEntry =>
      if place.indentless then sequence (readIndentlessSequence fuel reading) else empty
    | some (.scalar style text) => some (scalarNode style properties.tag text, reading.skip)
    | some .flowSequenceStart => sequence (readFlowSequence fuel true reading.skip)
    | some .flowMappingStart => mapping (readFlowMapping fuel true reading.skip)
    | some .blockSequenceStart =>
      if place.block then sequence (readBlockSequence fuel reading.skip) else empty
    | some .blockMappingStart =>
      if place.block then mapping (readBlockMapping fuel reading.skip) else empty
    | _ => empty

/-- A node, or nothing before one of the tokens. -/
def readNodeBefore (stops : List Token) : (fuel : Nat) → Place → Reading → Option (Node × Reading)
  | 0, _, _ => none
  | fuel + 1, place, reading =>
    if reading.isAt stops then some (.empty, reading) else readNode fuel place reading

/-- Entries of a block sequence up to its end. -/
def readBlockSequence : (fuel : Nat) → Reading → Option (List Node × Reading)
  | 0, _ => none
  | fuel + 1, reading =>
    match reading.peek? with
    | some .blockEntry => do
      let (item, reading) ← readNodeBefore [.blockEntry, .blockEnd] fuel ⟨true, false⟩ reading.skip
      let (items, reading) ← readBlockSequence fuel reading
      return (item :: items, reading)
    | some .blockEnd => some ([], reading.skip)
    | _ => none

/-- Entries that stand no further in than their key. -/
def readIndentlessSequence : (fuel : Nat) → Reading → Option (List Node × Reading)
  | 0, _ => none
  | fuel + 1, reading =>
    match reading.peek? with
    | some .blockEntry => do
      let (item, reading) ←
        readNodeBefore [.blockEntry, .key, .value, .blockEnd] fuel ⟨true, false⟩ reading.skip
      let (items, reading) ← readIndentlessSequence fuel reading
      return (item :: items, reading)
    | _ => some ([], reading)

/-- Members of a block mapping up to its end. -/
def readBlockMapping : (fuel : Nat) → Reading → Option (List (Node × Node) × Reading)
  | 0, _ => none
  | fuel + 1, reading =>
    match reading.peek? with
    | some .key => do
      let (key, reading) ← readNodeBefore [.key, .value, .blockEnd] fuel ⟨true, true⟩ reading.skip
      let (value, reading) ←
        if reading.isAt [.value] then
          readNodeBefore [.key, .value, .blockEnd] fuel ⟨true, true⟩ reading.skip
        else some (.empty, reading)
      let (members, reading) ← readBlockMapping fuel reading
      return ((key, value) :: members, reading)
    | some .blockEnd => some ([], reading.skip)
    | _ => none

/-- Items of a sequence in brackets up to the closing one. All but the first have a comma in
front, and a comma may stand before the bracket. -/
def readFlowSequence : (fuel : Nat) → (first : Bool) → Reading → Option (List Node × Reading)
  | 0, _, _ => none
  | fuel + 1, first, reading =>
    if reading.isAt [.flowSequenceEnd] then some ([], reading.skip)
    else if !first && !reading.isAt [.flowEntry] then none
    else do
      let reading := if first then reading else reading.skip
      if reading.isAt [.flowSequenceEnd] then return ([], reading.skip)
      else
        let (item, reading) ←
          if reading.isAt [.key] then readPair fuel reading.skip
          else readNode fuel ⟨false, false⟩ reading
        let (items, reading) ← readFlowSequence fuel false reading
        return (item :: items, reading)

/-- A single pair as an item, behind the token of its key. Where the key is missing, the token
after it is passed over. -/
def readPair : (fuel : Nat) → Reading → Option (Node × Reading)
  | 0, _ => none
  | fuel + 1, reading => do
    let (key, reading) ←
      if reading.isAt [.value, .flowEntry, .flowSequenceEnd] then some (.empty, reading.skip)
      else readNode fuel ⟨false, false⟩ reading
    let (value, reading) ←
      if reading.isAt [.value] then
        readNodeBefore [.flowEntry, .flowSequenceEnd] fuel ⟨false, false⟩ reading.skip
      else some (.empty, reading)
    return (.mapping [(key, value)], reading)

/-- Members of a mapping in braces up to the closing one. -/
def readFlowMapping :
    (fuel : Nat) → (first : Bool) → Reading → Option (List (Node × Node) × Reading)
  | 0, _, _ => none
  | fuel + 1, first, reading =>
    if reading.isAt [.flowMappingEnd] then some ([], reading.skip)
    else if !first && !reading.isAt [.flowEntry] then none
    else do
      let reading := if first then reading else reading.skip
      if reading.isAt [.flowMappingEnd] then return ([], reading.skip)
      else
        let (member, reading) ← readMember fuel reading
        let (members, reading) ← readFlowMapping fuel false reading
        return (member :: members, reading)

/-- A member of a mapping in braces. What has no mark of a key is a key without a value. -/
def readMember : (fuel : Nat) → Reading → Option ((Node × Node) × Reading)
  | 0, _ => none
  | fuel + 1, reading =>
    if reading.isAt [.key] then do
      let (key, reading) ←
        readNodeBefore [.value, .flowEntry, .flowMappingEnd] fuel ⟨false, false⟩ reading.skip
      let (value, reading) ←
        if reading.isAt [.value] then
          readNodeBefore [.flowEntry, .flowMappingEnd] fuel ⟨false, false⟩ reading.skip
        else some (.empty, reading)
      return ((key, value), reading)
    else do
      let (key, reading) ← readNode fuel ⟨false, false⟩ reading
      return ((key, .empty), reading)

end

/-- The directives before a document: one version at most, of this language, and each handle at
most once. -/
def readDirectives (versioned : Bool) (handles : List (String × String)) :
    List Token → Option (List (String × String) × List Token)
  | .version major minor :: rest =>
    if versioned || major != 1 || !(minor == 1 || minor == 2) then none
    else readDirectives true handles rest
  | .tagDirective handle uri :: rest =>
    if (handles.lookup handle).isSome then none
    else readDirectives versioned (handles ++ [(handle, uri)]) rest
  | rest => some (handles, rest)

/-- Handles that need no directive. -/
def defaultHandles : List (String × String) :=
  [("!", "!"), ("!!", "tag:yaml.org,2002:")]

/-- Nothing follows the document but marks of its end. -/
def isFinished (tokens : List Token) : Bool :=
  tokens.dropWhile (· == .documentEnd) == [.streamEnd]

def isDirective : Token → Bool
  | .version .. | .tagDirective .. => true
  | _ => false

/-- Nothing was written between the mark of the document and this token. -/
def endsContent : Token → Bool
  | .version .. | .tagDirective .. | .documentStart | .documentEnd | .streamEnd => true
  | _ => false

/-- The document of a stream: `some none` if the stream has none, `none` if the stream is no single
document. -/
def document (tokens : List Token) : Option (Option Node) := do
  let fuel := 4 * tokens.length + 4
  let finish (result : Node × Reading) : Option (Option Node) :=
    if isFinished result.2.tokens then some (some result.1) else none
  match tokens with
  | [.streamEnd] => return none
  | first :: _ =>
    if isDirective first || first == .documentStart then
      let (handles, rest) ← readDirectives false [] tokens
      match rest with
      | .documentStart :: rest =>
        let reading : Reading := { tokens := rest, handles := handles ++ defaultHandles }
        if reading.peek?.any endsContent then finish (.empty, reading)
        else finish (← readNode fuel ⟨true, false⟩ reading)
      | _ => none
    else
      finish (← readNode fuel ⟨true, false⟩ { tokens, handles := defaultHandles })
  | [] => none

/-- Read a stream. -/
def parse (text : String) : Option (Option Node) := do
  document (← tokens text.toList)

end Usages.Yaml
