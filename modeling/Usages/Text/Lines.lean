/-
Lines of a text, in two views.

`pieces` cuts a text at every newline, so there is one more piece than there are newlines. `lines`
is what a reader calls the lines: each newline ends one, a carriage return before the newline
belongs to it, and nothing after the last newline is no line.

`LineIndex` records the byte offset at which each piece starts and answers "text of line `n`"
from two neighbouring offsets.
-/
import Usages.Text.Char

namespace Usages.Text

/-- The text cut at every newline. -/
def pieces : List Char → List (List Char)
  | [] => [[]]
  | c :: rest =>
    if c = '\n' then [] :: pieces rest
    else
      match pieces rest with
      | [] => [[c]]
      | piece :: others => (c :: piece) :: others

/-- The line without one carriage return at its end. -/
def dropReturn (line : List Char) : List Char :=
  if line.getLast? = some '\r' then line.dropLast else line

/-- The lines of a text: a newline, or a carriage return and a newline, ends a line. The rest
after the last newline is a line, with any carriage return it has, unless it is empty. -/
def lines (text : List Char) : List (List Char) :=
  let cut := pieces text
  cut.dropLast.map dropReturn ++
    match cut.getLast? with
    | some (c :: rest) => [c :: rest]
    | _ => []

/-- Line `n` of the text. -/
def line? (text : List Char) (n : Nat) : Option (List Char) :=
  (lines text)[n]?

/-- Length of a text in UTF-8 bytes. -/
def byteSize (text : List Char) : Nat :=
  text.foldr (fun c size => c.utf8Size + size) 0

/-- The text after its first `n` bytes, if a character ends there. -/
def dropBytes : Nat → List Char → Option (List Char)
  | 0, text => some text
  | _ + 1, [] => none
  | n + 1, c :: rest => if c.utf8Size ≤ n + 1 then dropBytes (n + 1 - c.utf8Size) rest else none
termination_by _ text => text.length

/-- The first `n` bytes of the text, if a character ends there. -/
def takeBytes : Nat → List Char → Option (List Char)
  | 0, _ => some []
  | _ + 1, [] => none
  | n + 1, c :: rest =>
    if c.utf8Size ≤ n + 1 then (takeBytes (n + 1 - c.utf8Size) rest).map (c :: ·) else none
termination_by _ text => text.length

/-- Bytes `start` up to `stop` of the text, if both fall between characters. -/
def sliceBytes (text : List Char) (start stop : Nat) : Option (List Char) :=
  if start ≤ stop then (dropBytes start text).bind (takeBytes (stop - start)) else none

/-- Byte offsets just after each newline of the text that starts at `offset`. -/
def newlineEnds (offset : Nat) : List Char → List Nat
  | [] => []
  | c :: rest =>
    let next := offset + c.utf8Size
    if c = '\n' then next :: newlineEnds next rest else newlineEnds next rest

/-- The line without one newline at its end. -/
def dropNewline (line : List Char) : List Char :=
  if line.getLast? = some '\n' then line.dropLast else line

end Usages.Text

namespace Usages

/-- Byte offsets at which the lines of one text start. -/
structure LineIndex where
  starts : List Nat
  deriving Repr, DecidableEq

namespace LineIndex

open Text

/-- The first line starts at zero and every newline starts another. -/
def ofText (text : List Char) : LineIndex :=
  ⟨0 :: newlineEnds 0 text⟩

def lineCount (index : LineIndex) : Nat :=
  index.starts.length

/-- Byte offset of the start of line `n`. -/
def lineStart? (index : LineIndex) (n : Nat) : Option Nat :=
  index.starts[n]?

/-- Text of line `n` without its terminator, for the text the index was made from. -/
def line? (index : LineIndex) (text : List Char) (n : Nat) : Option (List Char) :=
  (index.lineStart? n).bind fun start =>
    let stop := (index.lineStart? (n + 1)).getD (byteSize text)
    (sliceBytes text start stop).map fun content => dropReturn (dropNewline content)

end LineIndex

end Usages
