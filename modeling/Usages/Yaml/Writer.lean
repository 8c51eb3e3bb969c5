/-
Writing a text as a YAML scalar, as an item of a list.

A text is written plain if it then reads as itself. It is put in single quotes if it would read as
something else than a text, such as a number, and in double quotes if it has characters that have
to be escaped. A text of several lines is written as a block.
-/
import Usages.Yaml.Scalar

namespace Usages.Yaml

/-- Words that read as nothing. -/
def nullWords : List String :=
  ["null", "Null", "NULL", "~"]

/-- Words that read as true. -/
def trueWords : List String :=
  ["true", "True", "TRUE"]

/-- Words that read as false. -/
def falseWords : List String :=
  ["false", "False", "FALSE"]

/-- Words that read as an infinite number or as none, besides a sign in front. -/
def unboundedWords : List String :=
  [".inf", ".Inf", ".INF", "+.inf", "+.Inf", "+.INF", "-.inf", "-.Inf", "-.INF", ".nan", ".NaN",
    ".NAN"]

/-- The value of digits in a base, if there are any and all are digits of it. -/
def digitsValue? (base : Nat) (digits : List Char) : Option Nat :=
  if digits.isEmpty then none
  else
    digits.foldlM (fun value c =>
      (hexDigit? c).bind fun d => if d < base then some (value * base + d) else none) 0

/-- The base named by the first two characters. -/
def baseDigits? : List Char → Option (Nat × List Char)
  | '0' :: 'x' :: digits => some (16, digits)
  | '0' :: 'o' :: digits => some (8, digits)
  | '0' :: 'b' :: digits => some (2, digits)
  | _ => none

/-- A number with a base, of at most 128 bits. -/
def isBasedNumber (text : List Char) : Bool :=
  let (negative, digits) := match text with
    | '-' :: rest => (true, rest)
    | '+' :: rest => (false, rest)
    | rest => (false, rest)
  match baseDigits? digits with
  | some (base, digits) =>
    (digitsValue? base digits).any fun value =>
      if negative then value ≤ Nat.pow 2 127 else value < Nat.pow 2 128
  | none => false

def dropSign : List Char → List Char
  | '-' :: rest => rest
  | '+' :: rest => rest
  | rest => rest

/-- Digits with a zero too many in front: some readers take them for a number. -/
def isPaddedNumber (text : List Char) : Bool :=
  match dropSign text with
  | '0' :: rest => !rest.isEmpty && rest.all Char.isDigit
  | _ => false

/-- A decimal number: all its digits, and the power of ten of the last. -/
structure Decimal where
  digits : List Char
  exponent : Int
  deriving Repr, DecidableEq

/-- An exponent up to the end of the text, or none. -/
def exponent? : List Char → Option Int
  | [] => some 0
  | c :: rest =>
    if c = 'e' ∨ c = 'E' then
      let negative := rest.head? == some '-'
      (digitsValue? 10 (dropSign rest)).map fun value => if negative then -(value : Int) else value
    else none

/-- Digits with a point before, between or behind them, and an exponent. -/
def decimal? (text : List Char) : Option Decimal :=
  let whole := text.takeWhile Char.isDigit
  let rest := text.dropWhile Char.isDigit
  let (fraction, rest) := match rest with
    | '.' :: rest => (rest.takeWhile Char.isDigit, rest.dropWhile Char.isDigit)
    | rest => ([], rest)
  if whole.isEmpty && fraction.isEmpty then none
  else (exponent? rest).map fun exponent => ⟨whole ++ fraction, exponent - fraction.length⟩

/-- The least number that rounds to infinity in double precision. -/
def doubleLimit : Nat :=
  Nat.pow 2 1024 - Nat.pow 2 970

/-- The number is finite in double precision. Only numbers of 309 places need to be compared. -/
def Decimal.isFinite (decimal : Decimal) : Bool :=
  let digits := decimal.digits.dropWhile (· == '0')
  let places := digits.length + decimal.exponent
  if digits.isEmpty || places < 309 then true
  else if 309 < places then false
  else
    let value := (digitsValue? 10 digits).getD 0
    if 0 ≤ decimal.exponent then value * Nat.pow 10 decimal.exponent.toNat < doubleLimit
    else value < doubleLimit * Nat.pow 10 (-decimal.exponent).toNat

/-- A sign and a decimal number that is finite in double precision. -/
def isFiniteNumber (text : List Char) : Bool :=
  (decimal? (dropSign text)).any (·.isFinite)

/-- Written plain, the text would not read as a text. -/
def isAmbiguous (text : String) : Bool :=
  text.isEmpty || nullWords.contains text || trueWords.contains text || falseWords.contains text ||
    unboundedWords.contains text || isBasedNumber text.toList || isPaddedNumber text.toList ||
    isFiniteNumber text.toList

/-- Characters that are written as they are. -/
def isPrintable (c : Char) : Bool :=
  let n := c.toNat
  n == 0x0A || (0x20 ≤ n && n ≤ 0x7E) || (0xA0 ≤ n && n ≤ 0xD7FF) ||
    (0xE000 ≤ n && n ≤ 0xFFFD && n != 0xFEFF) || 0x10000 ≤ n

/-- The first character, with the one behind it, makes a plain scalar something else. -/
def isLeadIndicator (c : Char) (after : Option Char) : Bool :=
  ['#', ',', '[', ']', '\x7b', '\x7d', '&', '*', '!', '|', '>', '\x27', '"', '%', '@',
      '\x60'].contains c ||
    (['?', ':', '-'].contains c && endsWord after)

/-- A later character, between its neighbours, makes a plain scalar something else. -/
def isInnerIndicator (before : Char) (c : Char) (after : Option Char) : Bool :=
  (c == ':' && endsWord after) || (c == '#' && isSpacing before)

/-- Some later character makes a plain scalar something else. -/
def hasInnerIndicator : (before : Char) → List Char → Bool
  | _, [] => false
  | before, c :: rest => isInnerIndicator before c rest.head? || hasInnerIndicator c rest

/-- The text starts like a document mark. -/
def startsWithMark (text : List Char) : Bool :=
  ['-', '-', '-'].isPrefixOf text || ['.', '.', '.'].isPrefixOf text

/-- Something in the text makes a plain scalar something else. -/
def hasIndicator (text : List Char) : Bool :=
  startsWithMark text ||
    match text with
    | [] => false
    | c :: rest => isLeadIndicator c rest.head? || hasInnerIndicator c rest

/-- Two neighbours of which the first satisfies `p` and the second `q`. -/
def hasPair (p q : Char → Bool) : List Char → Bool
  | a :: b :: rest => (p a && q b) || hasPair p q (b :: rest)
  | _ => false

def isSpaceChar (c : Char) : Bool :=
  c == ' '

/-- Only escapes can write the text: it has characters that are not printable, or a blank before
a break. -/
def needsEscapes (text : List Char) : Bool :=
  text.any (!isPrintable ·) || hasPair isSpaceChar isBreak text

/-- A plain scalar reads as this text. -/
def allowsPlain (text : List Char) : Bool :=
  !needsEscapes text && !text.any isBreak && !hasIndicator text &&
    text.head? != some ' ' && text.getLast? != some ' '

/-- Single quotes read as this text. -/
def allowsSingleQuoted (text : List Char) : Bool :=
  !needsEscapes text && !hasPair isBreak isSpaceChar text

/-- A block reads as this text. -/
def allowsLiteral (text : List Char) : Bool :=
  !needsEscapes text && text.getLast? != some ' '

/-- How a text is written. -/
def styleOf (text : String) : Style :=
  let chars := text.toList
  if chars.contains '\n' then if allowsLiteral chars then .literal else .doubleQuoted
  else if !isAmbiguous text && allowsPlain chars then .plain
  else if allowsSingleQuoted chars then .singleQuoted
  else .doubleQuoted

def upperHex (n : Nat) : Char :=
  "0123456789ABCDEF".toList.getD (n % 16) '0'

/-- The last `count` hexadecimal digits of a number. -/
def hexDigits : (count : Nat) → Nat → List Char
  | 0, _ => []
  | count + 1, n => hexDigits count (n / 16) ++ [upperHex n]

/-- A character in double quotes. -/
def escapeDouble (c : Char) : List Char :=
  if isPrintable c && !isBreak c && c != '"' && c != '\\' then [c]
  else
    '\\' ::
      match c with
      | '\x00' => ['0']
      | '\x07' => ['a']
      | '\x08' => ['b']
      | '\t' => ['t']
      | '\n' => ['n']
      | '\x0b' => ['v']
      | '\x0c' => ['f']
      | '\r' => ['r']
      | '\x1b' => ['e']
      | '"' => ['"']
      | '\\' => ['\\']
      | '\u0085' => ['N']
      | '\u2028' => ['L']
      | '\u2029' => ['P']
      | c =>
        if c.toNat ≤ 0xFF then 'x' :: hexDigits 2 c.toNat
        else if c.toNat ≤ 0xFFFF then 'u' :: hexDigits 4 c.toNat
        else 'U' :: hexDigits 8 c.toNat

def writeDouble (text : List Char) : List Char :=
  '"' :: text.flatMap escapeDouble ++ ['"']

/-- Two blanks stand before a line of an item that follows another. -/
def itemIndent : List Char :=
  [' ', ' ']

/-- The text in single quotes. `broken` tells that a break came just before. -/
def writeSingleFrom : (broken : Bool) → List Char → List Char
  | broken, [] => if broken then itemIndent else []
  | broken, c :: rest =>
    if isBreak c then c :: writeSingleFrom true rest
    else
      (if broken then itemIndent else []) ++ (if c == '\x27' then ['\x27', '\x27'] else [c]) ++
        writeSingleFrom false rest

def writeSingle (text : List Char) : List Char :=
  '\x27' :: writeSingleFrom false text ++ ['\x27']

/-- The lines of a block. `broken` tells that a line starts here. -/
def writeLiteralFrom : (broken : Bool) → List Char → List Char
  | _, [] => []
  | broken, c :: rest =>
    if isBreak c then c :: writeLiteralFrom true rest
    else (if broken then itemIndent else []) ++ c :: writeLiteralFrom false rest

/-- What the first line of a block says about its last breaks. -/
def chompHint (text : List Char) : List Char :=
  match text.reverse with
  | [] => ['-']
  | [c] => if isBreak c then ['+'] else ['-']
  | c :: d :: _ => if !isBreak c then ['-'] else if isBreak d then ['+'] else []

/-- What the first line of a block says about its indentation: it cannot be seen from a first line
that starts with a blank or is empty. -/
def indentHint (text : List Char) : List Char :=
  if text.head?.any (fun c => c == ' ' || isBreak c) then ['2'] else []

def writeLiteral (text : List Char) : List Char :=
  '|' :: indentHint text ++ chompHint text ++ '\n' :: writeLiteralFrom true text

/-- A text as an item of a list, up to the end of its last line. -/
def writeItem (text : String) : List Char :=
  let chars := text.toList
  match styleOf text with
  | .plain => chars ++ ['\n']
  | .singleQuoted => writeSingle chars ++ ['\n']
  | .doubleQuoted => writeDouble chars ++ ['\n']
  | .literal | .folded =>
    writeLiteral chars ++ if chars.getLast?.any isBreak then [] else ['\n']

/-- A list under a key. -/
def writeList (key : String) (items : List String) : List Char :=
  key.toList ++
    if items.isEmpty then ": []\n".toList
    else ':' :: '\n' :: items.flatMap fun item => '-' :: ' ' :: writeItem item

end Usages.Yaml
