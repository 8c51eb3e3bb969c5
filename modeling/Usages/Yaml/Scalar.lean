/-
Scalars of a YAML stream: plain words, quoted text, and blocks of lines. A reader starts at the
first character of the scalar and gives back its text and the place behind it; `none` is an error.

Blanks and breaks inside a scalar are collected until the next character shows what they mean, so
each reader takes one character a step.
-/
import Usages.Yaml.Cursor

namespace Usages.Yaml

/-- How a scalar is written. -/
inductive Style where
  | plain
  | singleQuoted
  | doubleQuoted
  | literal
  | folded
  deriving Repr, DecidableEq

/-- The context of a scalar: the column of the enclosing block, if there is one, and whether it
stands inside brackets. -/
structure Context where
  indent : Option Nat
  inFlow : Bool
  deriving Repr, DecidableEq

namespace Context

/-- The least column of a line that continues a scalar. -/
def minColumn (context : Context) : Nat :=
  match context.indent with
  | some column => column + 1
  | none => 0

end Context

/-- A plain scalar, and whether breaks were passed behind it. -/
structure Plain where
  text : List Char
  stop : Cursor
  passedBreak : Bool
  deriving Repr, DecidableEq

/-- The brackets and the comma, which end a plain scalar inside brackets. -/
def isFlowIndicator (c : Char) : Bool :=
  [',', '[', ']', '\x7b', '\x7d'].contains c

/-- A colon directly before one of these is an error inside brackets. -/
def isAfterColon (c : Char) : Bool :=
  isFlowIndicator c || c == '?'

/-- A plain scalar ends before the character at the cursor. -/
def endsPlain (context : Context) (cursor : Cursor) (c : Char) : Bool :=
  (c == ':' && endsWord (cursor.peek? 1)) || (context.inFlow && isFlowIndicator c)

/-- After blanks or breaks a plain scalar does not go on at this place. -/
def stopsPlain (context : Context) (cursor : Cursor) (c : Char) : Bool :=
  (!context.inFlow && cursor.column < context.minColumn) || cursor.isAtDocumentMark || c == '#'

/-- The rest of a plain scalar. `spacing` came before and counts only if the scalar goes on. A tab
may not stand in the indentation of a further line. -/
def readPlain (context : Context) (spacing : List Char) (cursor : Cursor) : Option Plain :=
  match h : cursor.rest with
  | [] => some ⟨[], cursor, spacing.any isBreak⟩
  | c :: _ =>
    have : cursor.next.rest.length < cursor.rest.length :=
      Cursor.length_next_lt (by rw [h]; exact List.cons_ne_nil _ _)
    if isSpacing c then
      if c == '\t' && spacing.any isBreak && cursor.column < context.minColumn then none
      else readPlain context (spacing ++ [c]) cursor.next
    else if !spacing.isEmpty && stopsPlain context cursor c then
      some ⟨[], cursor, spacing.any isBreak⟩
    else if context.inFlow && c == ':' && (cursor.peek? 1).any isAfterColon then none
    else if endsPlain context cursor c then some ⟨[], cursor, spacing.any isBreak⟩
    else
      (readPlain context [] cursor.next).map fun plain =>
        { plain with text := foldSpacing spacing ++ c :: plain.text }
termination_by cursor.rest.length

def hexDigit? (c : Char) : Option Nat :=
  if '0' ≤ c ∧ c ≤ '9' then some (c.toNat - '0'.toNat)
  else if 'a' ≤ c ∧ c ≤ 'f' then some (c.toNat - 'a'.toNat + 10)
  else if 'A' ≤ c ∧ c ≤ 'F' then some (c.toNat - 'A'.toNat + 10)
  else none

/-- The value of exactly `count` hexadecimal digits at the start of a text. -/
def hexValue? (count : Nat) (text : List Char) : Option Nat :=
  if text.length < count then none
  else (text.take count).foldlM (fun value c => (hexDigit? c).map (value * 16 + ·)) 0

/-- The character of a code point. -/
def charOf? (value : Nat) : Option Char :=
  if 0xD800 ≤ value ∧ value ≤ 0xDFFF ∨ 0x10FFFF < value then none else some (Char.ofNat value)

/-- The character a numbered escape stands for, and how many characters it takes behind the
backslash. -/
def numbered? (count : Nat) (digits : List Char) : Option (Char × Nat) := do
  return (← charOf? (← hexValue? count digits), count + 1)

/-- The character an escape stands for, by the text behind the backslash, and how many characters
of that text it takes. -/
def escape? : List Char → Option (Char × Nat)
  | '0' :: _ => some ('\x00', 1)
  | 'a' :: _ => some ('\x07', 1)
  | 'b' :: _ => some ('\x08', 1)
  | 't' :: _ => some ('\t', 1)
  | '\t' :: _ => some ('\t', 1)
  | 'n' :: _ => some ('\n', 1)
  | 'v' :: _ => some ('\x0b', 1)
  | 'f' :: _ => some ('\x0c', 1)
  | 'r' :: _ => some ('\r', 1)
  | 'e' :: _ => some ('\x1b', 1)
  | ' ' :: _ => some (' ', 1)
  | '"' :: _ => some ('"', 1)
  | '/' :: _ => some ('/', 1)
  | '\\' :: _ => some ('\\', 1)
  | 'N' :: _ => some ('\u0085', 1)
  | '_' :: _ => some ('\u00a0', 1)
  | 'L' :: _ => some ('\u2028', 1)
  | 'P' :: _ => some ('\u2029', 1)
  | 'x' :: digits => numbered? 2 digits
  | 'u' :: digits => numbered? 4 digits
  | 'U' :: digits => numbered? 8 digits
  | _ => none

/-- Spacing inside quotes that is not yet known to matter. -/
structure Gap where
  spacing : List Char := []
  /-- A backslash before a break comes first: it hides that break and the blanks behind it. -/
  hidden : Bool := false
  deriving Repr, DecidableEq

def Gap.text (gap : Gap) : List Char :=
  if gap.hidden then breaks gap.spacing else foldSpacing gap.spacing

theorem length_drop_lt {n : Nat} {cursor : Cursor} (h : cursor.rest ≠ []) (pos : 0 < n) :
    (cursor.drop n).rest.length < cursor.rest.length := by
  have := List.length_pos_iff.2 h
  rw [Cursor.rest_drop, List.length_drop]
  omega

/-- Text in single quotes, behind the opening one. A quote inside is written twice. -/
def readSingleQuoted (spacing : List Char) (cursor : Cursor) : Option (List Char × Cursor) :=
  match h : cursor.rest with
  | [] => none
  | c :: _ =>
    have ne : cursor.rest ≠ [] := by rw [h]; exact List.cons_ne_nil _ _
    have : cursor.next.rest.length < cursor.rest.length := Cursor.length_next_lt ne
    have : (cursor.drop 2).rest.length < cursor.rest.length := length_drop_lt ne (by omega)
    if cursor.isAtDocumentMark then none
    else if isSpacing c then readSingleQuoted (spacing ++ [c]) cursor.next
    else if c == '\x27' then
      if cursor.peek? 1 = some '\x27' then
        (readSingleQuoted [] (cursor.drop 2)).map fun (text, stop) =>
          (foldSpacing spacing ++ '\x27' :: text, stop)
      else some (foldSpacing spacing, cursor.next)
    else
      (readSingleQuoted [] cursor.next).map fun (text, stop) =>
        (foldSpacing spacing ++ c :: text, stop)
termination_by cursor.rest.length

/-- Text in double quotes, behind the opening one. -/
def readDoubleQuoted (gap : Gap) (cursor : Cursor) : Option (List Char × Cursor) :=
  match h : cursor.rest with
  | [] => none
  | c :: rest =>
    have ne : cursor.rest ≠ [] := by rw [h]; exact List.cons_ne_nil _ _
    have : cursor.next.rest.length < cursor.rest.length := Cursor.length_next_lt ne
    if cursor.isAtDocumentMark then none
    else if isSpacing c then
      readDoubleQuoted { gap with spacing := gap.spacing ++ [c] } cursor.next
    else if c == '"' then some (gap.text, cursor.next)
    else if c == '\\' then
      if rest.head?.any isBreak then
        have : (cursor.drop (1 + breakSize rest)).rest.length < cursor.rest.length :=
          length_drop_lt ne (by omega)
        (readDoubleQuoted { hidden := true } (cursor.drop (1 + breakSize rest))).map
          fun (text, stop) => (gap.text ++ text, stop)
      else
        match escape? rest with
        | none => none
        | some (d, size) =>
          have : (cursor.drop (1 + size)).rest.length < cursor.rest.length :=
            length_drop_lt ne (by omega)
          (readDoubleQuoted {} (cursor.drop (1 + size))).map fun (text, stop) =>
            (gap.text ++ d :: text, stop)
    else
      (readDoubleQuoted {} cursor.next).map fun (text, stop) => (gap.text ++ c :: text, stop)
termination_by cursor.rest.length

/-- What happens to the breaks at the end of a block. -/
inductive Chomp where
  | strip
  | clip
  | keep
  deriving Repr, DecidableEq

/-- The first line of a block: what to do with its last breaks, and how far it is indented if it
says so. -/
structure Header where
  chomp : Chomp
  increment : Option Nat
  deriving Repr, DecidableEq

def chomp? : Option Char → Option Chomp
  | some '+' => some .keep
  | some '-' => some .strip
  | _ => none

/-- An indentation of one to nine; zero is an error. -/
def readIncrement (cursor : Cursor) : Option (Option Nat × Cursor) :=
  match cursor.peek? 0 with
  | some '0' => none
  | some c =>
    if c.isDigit then some (some (c.toNat - '0'.toNat), cursor.next) else some (none, cursor)
  | none => some (none, cursor)

/-- The indicators of a block, in either order, and the rest of their line. -/
def readHeader (cursor : Cursor) : Option (Header × Cursor) := do
  match chomp? (cursor.peek? 0) with
  | some chomp =>
    let (increment, cursor) ← readIncrement cursor.next
    return (⟨chomp, increment⟩, ← cursor.finishLine?)
  | none =>
    let (increment, cursor) ← readIncrement cursor
    match increment, chomp? (cursor.peek? 0) with
    | some _, some chomp => return (⟨chomp, increment⟩, ← cursor.next.finishLine?)
    | _, _ => return (⟨.clip, increment⟩, ← cursor.finishLine?)

/-- Empty lines of a block: their breaks, the largest column they reach, and their length. -/
structure Gutter where
  breaks : List Char := []
  maxColumn : Nat := 0
  size : Nat := 0
  deriving Repr, DecidableEq

/-- Blanks belong to the indentation while it is not known or not yet reached. -/
def inIndentation (indent : Option Nat) (column : Nat) : Bool :=
  indent.all (column < ·)

/-- Empty lines before the next line of a block, from `column` on. A tab may not stand in the
indentation. -/
def readGutter (indent : Option Nat) : (column : Nat) → List Char → Option Gutter
  | column, [] => some { maxColumn := column }
  | column, '\r' :: '\n' :: rest =>
    (readGutter indent 0 rest).map fun gutter =>
      { breaks := '\n' :: gutter.breaks
        maxColumn := max column gutter.maxColumn
        size := gutter.size + 2 }
  | column, c :: rest =>
    if c == ' ' && inIndentation indent column then
      (readGutter indent (column + 1) rest).map fun gutter =>
        { gutter with size := gutter.size + 1 }
    else if c == '\t' && inIndentation indent column then none
    else if isBreak c then
      (readGutter indent 0 rest).map fun gutter =>
        { breaks := Yaml.breaks [c] ++ gutter.breaks
          maxColumn := max column gutter.maxColumn
          size := gutter.size + 1 }
    else some { maxColumn := column }

/-- Lines of a block at column `indent`. `broken` is the break that ended the line before, `empty`
the breaks of the empty lines behind it, and `wasBlank` tells that the line before started with a
blank. Folding joins two lines unless one of them starts with a blank. -/
def readLines (folding : Bool) (chomp : Chomp) (indent : Nat) (broken empty : List Char)
    (wasBlank : Bool) (cursor : Cursor) : Option (List Char × Cursor) :=
  match h : cursor.rest with
  | [] => some (tail, cursor)
  | c :: _ =>
    if cursor.column == indent then
      let line := cursor.rest.takeWhile (!isBreak ·)
      let after := cursor.rest.drop line.length
      let size := breakSize after
      let newBreak := breaks (after.take size)
      match readGutter (some indent) (if size = 0 then cursor.column + line.length else 0)
          (after.drop size) with
      | none => none
      | some gutter =>
        let total := line.length + size + gutter.size
        if ht : 0 < total then
          have : (cursor.drop total).rest.length < cursor.rest.length :=
            length_drop_lt (by rw [h]; exact List.cons_ne_nil _ _) ht
          let joint :=
            if folding && broken == ['\n'] && !wasBlank && !isBlank c then
              if empty.isEmpty then [' '] else empty
            else broken ++ empty
          let later :=
            readLines folding chomp indent newBreak gutter.breaks (isBlank c) (cursor.drop total)
          later.map fun (text, stop) => (joint ++ line ++ text, stop)
        else none
    else some (tail, cursor)
termination_by cursor.rest.length
where
  /-- The last breaks, as far as they are kept. -/
  tail : List Char :=
    match chomp with
    | .strip => []
    | .clip => broken
    | .keep => broken ++ empty

/-- A block, behind its indicator. Unless the header says so, the first line with text and the
empty lines before it give the indentation. -/
def readBlock (context : Context) (folding : Bool) (cursor : Cursor) :
    Option (List Char × Cursor) := do
  let (header, cursor) ← readHeader cursor
  let given := header.increment.map (context.indent.getD 0 + ·)
  let gutter ← readGutter given cursor.column cursor.rest
  let indent := given.getD (max (max gutter.maxColumn context.minColumn) 1)
  readLines folding header.chomp indent [] gutter.breaks false (cursor.drop gutter.size)

end Usages.Yaml
