/-
Identifiers on a line. A word is a maximal run of identifier characters; `wordAt` picks the one a
cursor touches and `occurrences` finds a given name where it stands as a whole word.
-/
import Usages.Text.Char

namespace Usages.Text

/-- Letters and digits of any script, the low line and the dollar sign. -/
def isIdentifierChar (c : Char) : Bool :=
  c.isAlphanum || c == '_' || c == '$' || (0x80 ≤ c.toNat && isAlphanumeric c)

/-- An identifier on a line: characters `start` up to `stop`. -/
structure Word where
  start : Nat
  stop : Nat
  text : String
  deriving Repr, DecidableEq

/-- The identifier that touches `column`, from either side. A run that starts with an ASCII digit
is a number and no identifier. -/
def wordAt (line : List Char) (column : Nat) : Option Word :=
  if line.length < column then none
  else
    let left := ((line.take column).reverse.takeWhile isIdentifierChar).reverse
    let right := (line.drop column).takeWhile isIdentifierChar
    match left ++ right with
    | [] => none
    | first :: others =>
      if first.isDigit then none
      else
        some
          { start := column - left.length
            stop := column + right.length
            text := String.ofList (first :: others) }

/-- No identifier character stands on this side. -/
def isFree (neighbour : Option Char) : Bool :=
  !neighbour.any isIdentifierChar

/-- Columns at which `name` stands as a whole word, for a rest of a line that starts at `column`
and is preceded by `before`. Matches are taken from left to right and do not overlap: `skip`
characters of the last match are still to be passed. -/
def occurrencesFrom (name : List Char) :
    (skip column : Nat) → (before : Option Char) → List Char → List Nat
  | _, _, _, [] => []
  | skip + 1, column, _, c :: rest => occurrencesFrom name skip (column + 1) (some c) rest
  | 0, column, before, c :: rest =>
    if name.isPrefixOf (c :: rest) then
      let later := occurrencesFrom name (name.length - 1) (column + 1) (some c) rest
      if isFree before && isFree ((c :: rest).drop name.length).head? then column :: later
      else later
    else occurrencesFrom name 0 (column + 1) (some c) rest

/-- Columns at which `name` stands as a whole word on the line. -/
def occurrences (line name : List Char) : List Nat :=
  occurrencesFrom name 0 0 none line

end Usages.Text
