/-
Characters of a YAML stream and a place in it.

Besides the newline and the carriage return, three further characters break a line. A carriage
return with a newline behind it is one break. When text is read, every break counts as a newline,
except the line and paragraph separators, which stand for themselves.
-/

namespace Usages.Yaml

/-- Characters a stream may hold. -/
def isAllowed (c : Char) : Bool :=
  let n := c.toNat
  n == 0x09 || n == 0x0A || n == 0x0D || (0x20 ≤ n && n ≤ 0x7E) || n == 0x85 ||
    (0xA0 ≤ n && n ≤ 0xD7FF) || (0xE000 ≤ n && n ≤ 0xFFFD) || 0x10000 ≤ n

def isBlank (c : Char) : Bool :=
  c == ' ' || c == '\t'

def isBreak (c : Char) : Bool :=
  c == '\n' || c == '\r' || c == '\u0085' || c == '\u2028' || c == '\u2029'

def isSpacing (c : Char) : Bool :=
  isBlank c || isBreak c

/-- A break, or the end of the stream. -/
def endsLine (c : Option Char) : Bool :=
  c.all isBreak

/-- A blank, a break, or the end of the stream. -/
def endsWord (c : Option Char) : Bool :=
  c.all isSpacing

/-- Characters of anchors, directives and tag handles. -/
def isNameChar (c : Char) : Bool :=
  c.isAlphanum || c == '_' || c == '-'

/-- The breaks in a text, as they are read. -/
def breaks : List Char → List Char
  | [] => []
  | '\r' :: '\n' :: rest => '\n' :: breaks rest
  | c :: rest =>
    if c == '\u2028' || c == '\u2029' then c :: breaks rest
    else if isBreak c then '\n' :: breaks rest
    else breaks rest

/-- Length of the break at the start of a text. -/
def breakSize : List Char → Nat
  | '\r' :: '\n' :: _ => 2
  | c :: _ => if isBreak c then 1 else 0
  | [] => 0

/-- What blanks and breaks between two words of a scalar mean. Blanks alone are kept. A single
newline is a blank, and of several newlines the first is dropped. Separators are never dropped. -/
def foldSpacing (spacing : List Char) : List Char :=
  match breaks spacing with
  | [] => spacing
  | ['\n'] => [' ']
  | '\n' :: more => more
  | all => all

/-- A place in a stream: what is left, and how much came before. -/
structure Cursor where
  rest : List Char
  index : Nat := 0
  line : Nat := 0
  column : Nat := 0
  deriving Repr, DecidableEq

namespace Cursor

/-- Behind the next character. A carriage return before a newline does not yet end the line. -/
def next (cursor : Cursor) : Cursor :=
  match cursor.rest with
  | [] => cursor
  | '\r' :: '\n' :: rest =>
    { cursor with rest := '\n' :: rest, index := cursor.index + 1, column := cursor.column + 1 }
  | c :: rest =>
    if isBreak c then
      { rest, index := cursor.index + 1, line := cursor.line + 1, column := 0 }
    else
      { cursor with rest, index := cursor.index + 1, column := cursor.column + 1 }

/-- Behind the next `n` characters. -/
def drop : Nat → Cursor → Cursor
  | 0, cursor => cursor
  | n + 1, cursor => drop n cursor.next

theorem rest_next (cursor : Cursor) : cursor.next.rest = cursor.rest.drop 1 := by
  unfold next
  split
  · simp_all
  · simp_all
  · split <;> simp_all

theorem rest_drop (n : Nat) (cursor : Cursor) : (cursor.drop n).rest = cursor.rest.drop n := by
  induction n generalizing cursor with
  | zero => rfl
  | succ n ih => rw [drop, ih, rest_next, List.drop_drop, Nat.add_comm]

theorem length_next_lt {cursor : Cursor} (h : cursor.rest ≠ []) :
    cursor.next.rest.length < cursor.rest.length := by
  have := List.length_pos_iff.2 h
  rw [rest_next, List.length_drop]
  omega

def peek? (cursor : Cursor) (n : Nat) : Option Char :=
  cursor.rest[n]?

/-- Behind the characters that satisfy `p`. -/
def skipWhile (p : Char → Bool) (cursor : Cursor) : Cursor :=
  cursor.drop (cursor.rest.takeWhile p).length

/-- Behind a comment, if one starts here. -/
def skipComment (cursor : Cursor) : Cursor :=
  if cursor.peek? 0 = some '#' then cursor.skipWhile (!isBreak ·) else cursor

/-- Behind a break, if one is here. -/
def skipBreak (cursor : Cursor) : Cursor :=
  cursor.drop (breakSize cursor.rest)

/-- Behind the blanks and the comment that end a line, if nothing else does. -/
def finishLine? (cursor : Cursor) : Option Cursor :=
  let stop := (cursor.skipWhile isBlank).skipComment
  if endsLine (stop.peek? 0) then some stop.skipBreak else none

/-- One of the two document marks stands at the start of this line. -/
def isAtMark (mark : Char) (cursor : Cursor) : Bool :=
  cursor.column == 0 && List.isPrefixOf [mark, mark, mark] cursor.rest && endsWord (cursor.peek? 3)

/-- Some document mark stands here. -/
def isAtDocumentMark (cursor : Cursor) : Bool :=
  cursor.isAtMark '-' || cursor.isAtMark '.'

end Cursor

end Usages.Yaml
