/-
Character classes. Source text is Unicode, so the classes are the Unicode properties and not the
ASCII ones: `isBlank` is `White_Space`, `isAlphabetic` is `Alphabetic`, `isWordChar` is the class a
pattern writes as `\w`. Below U+0080 they agree with core's ASCII tests, which are asked first.
-/
import Usages.Text.Alphabetic
import Usages.Text.Mark
import Usages.Text.Number

namespace Usages.Text

/-- Membership in an ascending list of closed ranges. -/
def inRanges : List (Nat × Nat) → Nat → Bool
  | [], _ => false
  | (low, high) :: rest, n => if n < low then false else n ≤ high || inRanges rest n

/-- The Unicode property `White_Space`. -/
def isBlank (c : Char) : Bool :=
  let n := c.toNat
  (9 ≤ n && n ≤ 13) || n == 0x20 || n == 0x85 || n == 0xa0 || n == 0x1680 ||
    (0x2000 ≤ n && n ≤ 0x200a) || n == 0x2028 || n == 0x2029 || n == 0x202f || n == 0x205f ||
    n == 0x3000

/-- The Unicode property `Alphabetic`. -/
def isAlphabetic (c : Char) : Bool :=
  let n := c.toNat
  if n < 0x80 then c.isAlpha
  else if n < 0x1000 then inRanges alphabeticLow n
  else if n < 0x10000 then inRanges alphabeticBasic n
  else inRanges alphabeticHigh n

/-- A mark: a character that joins the one before it. -/
def isMark (c : Char) : Bool :=
  let n := c.toNat
  if n < 0x80 then false else if n < 0x10000 then inRanges markBasic n else inRanges markHigh n

/-- A decimal digit of any script. -/
def isDecimalDigit (c : Char) : Bool :=
  let n := c.toNat
  if n < 0x80 then c.isDigit else inRanges decimalDigits n

/-- A digit, a letter number or any other number character. -/
def isNumeric (c : Char) : Bool :=
  isDecimalDigit c || (0x80 ≤ c.toNat && inRanges otherNumbers c.toNat)

/-- A letter or number of any script. -/
def isAlphanumeric (c : Char) : Bool :=
  isAlphabetic c || isNumeric c

/-- Connector punctuation: the low line and its relatives. -/
def isConnector (c : Char) : Bool :=
  let n := c.toNat
  n == 0x5f || n == 0x203f || n == 0x2040 || n == 0x2054 || n == 0xfe33 || n == 0xfe34 ||
    (0xfe4d ≤ n && n ≤ 0xfe4f) || n == 0xff3f

/-- The two joiners, which have no width and hold a word together. -/
def isJoiner (c : Char) : Bool :=
  c.toNat == 0x200c || c.toNat == 0x200d

/-- A character that counts as part of a word when word boundaries are drawn. -/
def isWordChar (c : Char) : Bool :=
  isAlphabetic c || isMark c || isDecimalDigit c || isConnector c || isJoiner c

/-- The text without the blanks at its front. -/
def trimStart (text : List Char) : List Char :=
  text.dropWhile isBlank

/-- The text without the blanks at its end. -/
def trimEnd (text : List Char) : List Char :=
  (text.reverse.dropWhile isBlank).reverse

/-- The text without the blanks at either end. -/
def trim (text : List Char) : List Char :=
  trimEnd (trimStart text)

/-- A text of blanks only, the empty one included. -/
def isBlankText (text : List Char) : Bool :=
  text.all isBlank

end Usages.Text
