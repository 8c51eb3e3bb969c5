/-
Tokens of a YAML stream.

Indentation becomes tokens: a block opens where a line stands further in than the block around it
and closes where a line stands further out. A scalar or a bracket may turn out to be a key only
when a colon follows it, so the place of each candidate is kept, one for every level of brackets,
and the token that marks a key is put in later at that place. A key has to end on its line and
within 1024 characters.

A directive, a document mark or the end of the stream closes all open blocks.
-/
import Usages.Yaml.Scalar

namespace Usages.Yaml

inductive Token where
  | streamEnd
  | version (major minor : Nat)
  | tagDirective (handle uri : String)
  | documentStart
  | documentEnd
  | blockSequenceStart
  | blockMappingStart
  | blockEnd
  | flowSequenceStart
  | flowSequenceEnd
  | flowMappingStart
  | flowMappingEnd
  | blockEntry
  | flowEntry
  | key
  | value
  | aliasTo (name : String)
  | anchor (name : String)
  | tag (handle suffix : String)
  | scalar (style : Style) (text : String)
  deriving Repr, DecidableEq

/-- A place where a key may have started. -/
structure Candidate where
  /-- Number of tokens before it. -/
  position : Nat
  index : Nat
  line : Nat
  column : Nat
  /-- Nothing but a key can stand here. -/
  required : Bool
  deriving Repr, DecidableEq

structure Scanner where
  cursor : Cursor
  tokens : List Token := []
  /-- Columns of the open blocks, innermost first. -/
  indents : List Nat := []
  /-- The candidate of each level of brackets, innermost first; the last is that of no brackets. -/
  candidates : List (Option Candidate) := [none]
  keyAllowed : Bool := true
  deriving Repr, DecidableEq

namespace Scanner

def inFlow (scanner : Scanner) : Bool :=
  1 < scanner.candidates.length

def context (scanner : Scanner) : Context :=
  ⟨scanner.indents.head?, scanner.inFlow⟩

def emit (scanner : Scanner) (token : Token) : Scanner :=
  { scanner with tokens := scanner.tokens ++ [token] }

def moveTo (scanner : Scanner) (cursor : Cursor) : Scanner :=
  { scanner with cursor }

def allowKey (scanner : Scanner) (allowed : Bool) : Scanner :=
  { scanner with keyAllowed := allowed }

/-- A candidate that a key can no longer come from. -/
def isStale (cursor : Cursor) (candidate : Candidate) : Bool :=
  candidate.line < cursor.line || candidate.index + 1024 < cursor.index

/-- Drop a stale candidate; it is an error if a key was required. -/
def refresh (cursor : Cursor) : Option Candidate → Option (Option Candidate)
  | none => some none
  | some candidate =>
    if isStale cursor candidate then if candidate.required then none else some none
    else some (some candidate)

def dropStale (scanner : Scanner) : Option Scanner := do
  return { scanner with candidates := ← scanner.candidates.mapM (refresh scanner.cursor) }

/-- Give up the innermost candidate; it is an error if a key was required. -/
def dropCandidate (scanner : Scanner) : Option Scanner :=
  match scanner.candidates with
  | some candidate :: rest =>
    if candidate.required then none else some { scanner with candidates := none :: rest }
  | _ => some scanner

/-- A key may start here. -/
def saveCandidate (scanner : Scanner) : Option Scanner :=
  if scanner.keyAllowed then do
    let scanner ← scanner.dropCandidate
    let cursor := scanner.cursor
    let candidate : Candidate :=
      { position := scanner.tokens.length
        index := cursor.index
        line := cursor.line
        column := cursor.column
        required := !scanner.inFlow && scanner.indents.head? == some cursor.column }
    return { scanner with candidates := some candidate :: scanner.candidates.drop 1 }
  else some scanner

/-- Close the blocks that stand further in than `column`; all of them, if there is none. -/
def closeBlocks (column : Option Nat) (scanner : Scanner) : Scanner :=
  if scanner.inFlow then scanner
  else
    let closed := scanner.indents.takeWhile fun indent => column.all (· < indent)
    { scanner with
      tokens := scanner.tokens ++ closed.map fun _ => .blockEnd
      indents := scanner.indents.drop closed.length }

/-- Open a block at `column` if that stands further in, with its token at `position`. -/
def openBlock (start : Token) (position column : Nat) (scanner : Scanner) : Scanner :=
  if scanner.inFlow || !scanner.indents.head?.all (· < column) then scanner
  else
    { scanner with
      tokens := scanner.tokens.insertIdx position start
      indents := column :: scanner.indents }

/-- Open a block here; an entry or a key has to be allowed. -/
def openBlockHere (start : Token) (scanner : Scanner) : Option Scanner :=
  if scanner.inFlow then some scanner
  else if scanner.keyAllowed then
    some (scanner.openBlock start scanner.tokens.length scanner.cursor.column)
  else none

/-- Blanks, comments and breaks before the next token, and whether a key may start behind them. A
tab counts as a blank only where no key may start. A byte order mark may open the stream. -/
def skipSpacing (inFlow : Bool) : (fuel : Nat) → (keyAllowed : Bool) → Cursor → Bool × Cursor
  | 0, keyAllowed, cursor => (keyAllowed, cursor)
  | fuel + 1, keyAllowed, cursor =>
    let cursor :=
      if cursor.index == 0 && cursor.peek? 0 == some '\uFEFF' then cursor.next else cursor
    let cursor := cursor.skipWhile fun c => c == ' ' || ((inFlow || !keyAllowed) && c == '\t')
    let cursor := cursor.skipComment
    if (cursor.peek? 0).any isBreak then
      skipSpacing inFlow fuel (keyAllowed || !inFlow) cursor.skipBreak
    else (keyAllowed, cursor)

/-- Go to the next token. -/
def skipToToken (scanner : Scanner) : Scanner :=
  let cursor := scanner.cursor
  let (keyAllowed, cursor) :=
    skipSpacing scanner.inFlow (cursor.rest.length + 1) scanner.keyAllowed cursor
  { scanner with cursor, keyAllowed }

/-- A token of one character. -/
def punctuation (token : Token) (scanner : Scanner) : Scanner :=
  (scanner.emit token).moveTo scanner.cursor.next

/-- An opening bracket may start a key and has a level of its own. -/
def openBracket (token : Token) (scanner : Scanner) : Option Scanner := do
  let scanner ← scanner.saveCandidate
  let scanner := scanner.punctuation token
  return { scanner with candidates := none :: scanner.candidates, keyAllowed := true }

/-- A closing bracket leaves its level, if there is one. -/
def closeBracket (token : Token) (scanner : Scanner) : Option Scanner := do
  let scanner ← scanner.dropCandidate
  let scanner := scanner.punctuation token
  let candidates := if scanner.inFlow then scanner.candidates.drop 1 else scanner.candidates
  return { scanner with candidates, keyAllowed := false }

def flowEntry (scanner : Scanner) : Option Scanner := do
  return ((← scanner.dropCandidate).punctuation .flowEntry).allowKey true

def blockEntry (scanner : Scanner) : Option Scanner := do
  let scanner ← (← scanner.openBlockHere .blockSequenceStart).dropCandidate
  return (scanner.punctuation .blockEntry).allowKey true

/-- A question mark, which announces a key. -/
def keyMark (scanner : Scanner) : Option Scanner := do
  let scanner ← (← scanner.openBlockHere .blockMappingStart).dropCandidate
  return (scanner.punctuation .key).allowKey (!scanner.inFlow)

/-- A colon. If there is a candidate, a key started there, and a block with it. -/
def valueMark (scanner : Scanner) : Option Scanner :=
  match scanner.candidates with
  | some candidate :: rest =>
    let scanner := { scanner with
      tokens := scanner.tokens.insertIdx candidate.position .key
      candidates := none :: rest }
    let scanner := scanner.openBlock .blockMappingStart candidate.position candidate.column
    some ((scanner.punctuation .value).allowKey false)
  | _ => do
    let scanner ← scanner.openBlockHere .blockMappingStart
    return (scanner.punctuation .value).allowKey (!scanner.inFlow)

/-- The name of an anchor or an alias. -/
def readName (cursor : Cursor) : Option (String × Cursor) :=
  let name := cursor.rest.takeWhile isNameChar
  let stop := cursor.skipWhile isNameChar
  if name.isEmpty then none
  else if endsWord (stop.peek? 0) ||
      (stop.peek? 0).any (['?', ':', ',', ']', '\x7d', '%', '@', '\x60'].contains ·) then
    some (String.ofList name, stop)
  else none

/-- A token that may start a key, read from the cursor on. -/
def keyPart (read : Cursor → Option (Token × Cursor)) (scanner : Scanner) : Option Scanner := do
  let scanner ← scanner.saveCandidate
  let (token, cursor) ← read scanner.cursor
  return ((scanner.emit token).moveTo cursor).allowKey false

def readAnchor (make : String → Token) (cursor : Cursor) : Option (Token × Cursor) := do
  let (name, cursor) ← readName cursor.next
  return (make name, cursor)

/-- The handle of a tag: an exclamation mark, and a name with another one behind it or without. -/
def readHandle (cursor : Cursor) : Option (String × Cursor) :=
  if cursor.peek? 0 = some '!' then
    let name := cursor.next.rest.takeWhile isNameChar
    let stop := cursor.next.skipWhile isNameChar
    if stop.peek? 0 = some '!' then some (String.ofList ('!' :: name ++ ['!']), stop.next)
    else some (String.ofList ('!' :: name), stop)
  else none

/-- Characters of a tag. Some stand only where the tag is delimited otherwise. -/
def isTagChar (delimited : Bool) (c : Char) : Bool :=
  isNameChar c ||
    [';', '/', '?', ':', '@', '&', '=', '+', '$', '.', '!', '~', '*', '\x27', '(', ')',
      '%'].contains c ||
    (delimited && [',', '[', ']'].contains c)

/-- A byte written as a percent sign and two hexadecimal digits. -/
def percentByte? : List Char → Option Nat
  | '%' :: a :: b :: _ => do return (← hexDigit? a) * 16 + (← hexDigit? b)
  | _ => none

/-- How many bytes the UTF-8 form of a character has, by its first byte, and what that byte adds. -/
def leadByte? (byte : Nat) : Option (Nat × Nat) :=
  if byte < 0x80 then some (1, byte)
  else if 0xC0 ≤ byte ∧ byte < 0xE0 then some (2, byte - 0xC0)
  else if 0xE0 ≤ byte ∧ byte < 0xF0 then some (3, byte - 0xE0)
  else if 0xF0 ≤ byte ∧ byte < 0xF8 then some (4, byte - 0xF0)
  else none

/-- The bytes that continue a character. -/
def readTrail : (count : Nat) → (value : Nat) → List Char → Option Nat
  | 0, value, _ => some value
  | count + 1, value, text => do
    let byte ← percentByte? text
    if 0x80 ≤ byte ∧ byte < 0xC0 then readTrail count (value * 64 + (byte - 0x80)) (text.drop 3)
    else none

/-- The character at the start of a text that is written in percent bytes, and its length. -/
def percentChar? (text : List Char) : Option (Char × Nat) := do
  let (count, value) ← leadByte? (← percentByte? text)
  let value ← readTrail (count - 1) value (text.drop 3)
  return (Char.ofNat value, 3 * count)

/-- The characters of a tag, with percent bytes decoded, and their length. -/
def readTagText (delimited : Bool) : (fuel : Nat) → List Char → Option (List Char × Nat)
  | 0, _ => some ([], 0)
  | _ + 1, [] => some ([], 0)
  | fuel + 1, c :: rest =>
    if c = '%' then do
      let (d, size) ← percentChar? (c :: rest)
      let (text, more) ← readTagText delimited fuel ((c :: rest).drop size)
      return (d :: text, size + more)
    else if isTagChar delimited c then do
      let (text, more) ← readTagText delimited fuel rest
      return (c :: text, more + 1)
    else some ([], 0)

/-- A tag text at the cursor. -/
def readTagAt (delimited : Bool) (cursor : Cursor) : Option (String × Cursor) := do
  let (text, size) ← readTagText delimited cursor.rest.length cursor.rest
  return (String.ofList text, cursor.drop size)

/-- The two parts of a tag: verbatim in angle brackets, behind a handle, or behind one exclamation
mark. The exclamation mark alone is a tag of its own. -/
def readTagParts (cursor : Cursor) : Option ((String × String) × Cursor) := do
  if cursor.peek? 1 = some '<' then
    let (uri, cursor) ← readTagAt true (cursor.drop 2)
    if uri.isEmpty || cursor.peek? 0 != some '>' then none
    else return (("", uri), cursor.next)
  else
    let (handle, cursor) ← readHandle cursor
    let (suffix, cursor) ← readTagAt false cursor
    if 1 < handle.length && handle.toList.getLast? == some '!' then
      if suffix.isEmpty then none else return ((handle, suffix), cursor)
    else
      let suffix := String.ofList (handle.toList.drop 1) ++ suffix
      return (if suffix.isEmpty then ("", "!") else ("!", suffix), cursor)

def readTag (inFlow : Bool) (cursor : Cursor) : Option (Token × Cursor) := do
  let ((handle, suffix), cursor) ← readTagParts cursor
  if endsWord (cursor.peek? 0) || (inFlow && cursor.peek? 0 == some ',') then
    return (.tag handle suffix, cursor)
  else none

/-- One to nine digits. -/
def readNumber (cursor : Cursor) : Option (Nat × Cursor) :=
  let digits := cursor.rest.takeWhile Char.isDigit
  if digits.isEmpty || 9 < digits.length then none
  else
    some
      (digits.foldl (fun value c => value * 10 + (c.toNat - '0'.toNat)) 0,
        cursor.skipWhile Char.isDigit)

def readVersion (cursor : Cursor) : Option (Token × Cursor) := do
  let (major, cursor) ← readNumber (cursor.skipWhile isBlank)
  if cursor.peek? 0 = some '.' then
    let (minor, cursor) ← readNumber cursor.next
    return (.version major minor, cursor)
  else none

def readTagDirective (cursor : Cursor) : Option (Token × Cursor) := do
  let (handle, cursor) ← readHandle (cursor.skipWhile isBlank)
  if (handle == "!" || handle.toList.getLast? == some '!') && (cursor.peek? 0).any isBlank then
    let (uri, cursor) ← readTagAt true (cursor.skipWhile isBlank)
    if uri.isEmpty || !endsWord (cursor.peek? 0) then none
    else return (.tagDirective handle uri, cursor)
  else none

/-- A directive; there are two. -/
def readDirective (cursor : Cursor) : Option (Token × Cursor) := do
  let name := cursor.next.rest.takeWhile isNameChar
  let cursor := cursor.next.skipWhile isNameChar
  if !endsWord (cursor.peek? 0) then none
  else
    let (token, cursor) ←
      if name == "YAML".toList then readVersion cursor
      else if name == "TAG".toList then readTagDirective cursor
      else none
    return (token, ← cursor.finishLine?)

/-- Leave all blocks. -/
def leaveBlocks (scanner : Scanner) : Option Scanner := do
  return (← (scanner.closeBlocks none).dropCandidate).allowKey false

def directive (scanner : Scanner) : Option Scanner := do
  let scanner ← scanner.leaveBlocks
  let (token, cursor) ← readDirective scanner.cursor
  return (scanner.emit token).moveTo cursor

def documentMark (token : Token) (scanner : Scanner) : Option Scanner := do
  let scanner ← scanner.leaveBlocks
  return (scanner.emit token).moveTo (scanner.cursor.drop 3)

def streamEnd (scanner : Scanner) : Option Scanner := do
  return (← scanner.leaveBlocks).emit .streamEnd

def block (style : Style) (scanner : Scanner) : Option Scanner := do
  let scanner ← scanner.dropCandidate
  let (text, cursor) ← readBlock scanner.context (style == .folded) scanner.cursor.next
  return ((scanner.emit (.scalar style (String.ofList text))).moveTo cursor).allowKey true

def readQuoted (style : Style) (cursor : Cursor) : Option (Token × Cursor) := do
  let (text, cursor) ←
    if style == .singleQuoted then readSingleQuoted [] cursor.next
    else readDoubleQuoted {} cursor.next
  return (.scalar style (String.ofList text), cursor)

def plain (scanner : Scanner) : Option Scanner := do
  let scanner ← scanner.saveCandidate
  let plain ← readPlain scanner.context [] scanner.cursor
  return ((scanner.emit (.scalar .plain (String.ofList plain.text))).moveTo plain.stop).allowKey
    plain.passedBreak

/-- Characters that do not start a plain scalar. -/
def isIndicator (c : Char) : Bool :=
  ['-', '?', ':', ',', '[', ']', '\x7b', '\x7d', '#', '&', '*', '!', '|', '>', '\x27', '"', '%',
    '@', '\x60'].contains c

/-- A plain scalar may start with `c` when `after` comes behind it. -/
def startsPlain (inFlow : Bool) (c : Char) (after : Option Char) : Bool :=
  !(isSpacing c || isIndicator c) || (c == '-' && !after.any isBlank) ||
    (!inFlow && (c == '?' || c == ':') && !endsWord after)

/-- The next token, at the cursor. -/
def token (scanner : Scanner) : Option Scanner :=
  let cursor := scanner.cursor
  match cursor.peek? 0 with
  | none => scanner.streamEnd
  | some c =>
    let after := cursor.peek? 1
    let alone := endsWord after
    if cursor.column == 0 && c == '%' then scanner.directive
    else if cursor.isAtMark '-' then scanner.documentMark .documentStart
    else if cursor.isAtMark '.' then scanner.documentMark .documentEnd
    else if c == '[' then scanner.openBracket .flowSequenceStart
    else if c == '\x7b' then scanner.openBracket .flowMappingStart
    else if c == ']' then scanner.closeBracket .flowSequenceEnd
    else if c == '\x7d' then scanner.closeBracket .flowMappingEnd
    else if c == ',' then scanner.flowEntry
    else if c == '-' && alone then scanner.blockEntry
    else if c == '?' && (scanner.inFlow || alone) then scanner.keyMark
    else if c == ':' && (scanner.inFlow || alone) then scanner.valueMark
    else if c == '*' then scanner.keyPart (readAnchor .aliasTo)
    else if c == '&' then scanner.keyPart (readAnchor .anchor)
    else if c == '!' then scanner.keyPart (readTag scanner.inFlow)
    else if c == '|' && !scanner.inFlow then scanner.block .literal
    else if c == '>' && !scanner.inFlow then scanner.block .folded
    else if c == '\x27' then scanner.keyPart (readQuoted .singleQuoted)
    else if c == '"' then scanner.keyPart (readQuoted .doubleQuoted)
    else if startsPlain scanner.inFlow c after then scanner.plain
    else none

/-- Go to the next token and take it. -/
def step (scanner : Scanner) : Option Scanner := do
  let scanner ← scanner.skipToToken.dropStale
  (scanner.closeBlocks (some scanner.cursor.column)).token

/-- Take tokens up to the end of the stream. -/
def run : (fuel : Nat) → Scanner → Option (List Token)
  | 0, _ => none
  | fuel + 1, scanner => do
    let scanner ← scanner.step
    if scanner.tokens.getLast? = some .streamEnd then return scanner.tokens
    else run fuel scanner

end Scanner

/-- The tokens of a stream. Every token but the last takes a character. -/
def tokens (text : List Char) : Option (List Token) :=
  if text.all isAllowed then Scanner.run (text.length + 1) { cursor := { rest := text } } else none

end Usages.Yaml
