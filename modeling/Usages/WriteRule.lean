/-
Reads and writes, told apart by the text around an occurrence.

Nothing is parsed. A rule looks at the trimmed text on either side of the occurrence on its line;
the rules are tried in a fixed order and the first that applies makes the occurrence a write. What
no rule recognises is a read.
-/
import Usages.Text.Char

namespace Usages

open Text

inductive Kind where
  | read
  | write
  deriving Repr, DecidableEq

def Kind.name : Kind → String
  | .read => "read"
  | .write => "write"

/-- Why an occurrence is a write. -/
inductive WriteRule where
  | assignment
  | incrementDecrement
  | destructuring
  | parameter
  | mutatingCall
  deriving Repr, DecidableEq

namespace WriteRule

def describe : WriteRule → String
  | assignment => "assignment target"
  | incrementDecrement => "increment/decrement"
  | destructuring => "destructuring declaration"
  | parameter => "function parameter"
  | mutatingCall => "mutating method call"

/-- The operators that assign and read their target in one. -/
def compoundAssignments : List (List Char) :=
  [['+', '='], ['-', '='], ['*', '='], ['/', '='], ['%', '='], ['|', '='], ['&', '='], ['^', '='],
   ['<', '<', '='], ['>', '>', '='], ['*', '*', '=']]

/-- An assignment operator follows: a compound one, or an equals sign without a second one. -/
def isAssigned (after : List Char) : Bool :=
  compoundAssignments.any (·.isPrefixOf after) ||
    match after with
    | ['='] => true
    | '=' :: next :: _ => next != '='
    | _ => false

/-- `++` or `--` stands on either side. -/
def isStepped (before after : List Char) : Bool :=
  [['+', '+'], ['-', '-']].any fun op => op.isPrefixOf after || op.isSuffixOf before

/-- The keywords that open a declaration. -/
def declarators : List (List Char) :=
  [['l', 'e', 't'], ['c', 'o', 'n', 's', 't'], ['v', 'a', 'r']]

/-- Blanks, then an opening bracket or brace before the next newline. -/
def opensPattern : List Char → Bool
  | [] => false
  | c :: rest =>
    isBlank c &&
      ((rest.dropWhile isBlank).takeWhile (· != '\n')).any fun d => d == '[' || d == '\x7b'

/-- A declaration with a bracketed pattern is open before the occurrence. -/
def isDestructured (before : List Char) : Bool :=
  declarators.any fun keyword =>
    keyword.isPrefixOf before && opensPattern (before.drop keyword.length)

/-- The keyword of a function declaration. -/
def functionKeyword : List Char :=
  ['f', 'u', 'n', 'c', 't', 'i', 'o', 'n']

/-- Blanks, an optional name, blanks and a parenthesis that stays open. -/
def opensParameters : List Char → Bool
  | [] => false
  | c :: rest =>
    isBlank c &&
      match ((rest.dropWhile isBlank).dropWhile isWordChar).dropWhile isBlank with
      | '(' :: inside => !inside.contains ')'
      | _ => false

/-- The parameter list of a function declaration is open before the occurrence. -/
def isParameter : List Char → Bool
  | [] => false
  | c :: rest =>
    (functionKeyword.isPrefixOf (c :: rest) &&
        opensParameters ((c :: rest).drop functionKeyword.length)) ||
      isParameter rest

/-- Exactly one of two neighbours is a word character. -/
def isBoundary (left right : Option Char) : Bool :=
  left.any isWordChar != right.any isWordChar

/-- A dot, one of the names and a word boundary follow. -/
def isMutated (names : List String) : List Char → Bool
  | '.' :: rest =>
    names.any fun name =>
      name.toList.isPrefixOf rest &&
        isBoundary ('.' :: name.toList).getLast? (rest.drop name.toList.length).head?
  | _ => false

end WriteRule

/-- Methods that change their receiver in place. -/
def mutatingMethods : List String :=
  ["push", "pop", "shift", "unshift", "splice", "sort", "reverse", "fill"]

/-- The rule list, with the method names that count as mutating. -/
structure Classifier where
  mutators : List String
  deriving Repr, DecidableEq

namespace Classifier

open WriteRule

/-- The classifier that knows `mutatingMethods` only. -/
protected def default : Classifier :=
  ⟨mutatingMethods⟩

/-- The classifier that also takes the `extra` methods for mutating. -/
def withExtra (extra : List String) : Classifier :=
  ⟨mutatingMethods ++ extra⟩

/-- The first rule that applies to the text before and after an occurrence. -/
def ruleBetween (classifier : Classifier) (before after : List Char) : Option WriteRule :=
  if isAssigned after then some .assignment
  else if isStepped before after then some .incrementDecrement
  else if isDestructured before then some .destructuring
  else if isParameter before then some .parameter
  else if isMutated classifier.mutators after then some .mutatingCall
  else none

/-- The first rule that applies to characters `start` up to `stop` of the line. An inverted range
or one that leaves the line has none. -/
def writeRule (classifier : Classifier) (line : List Char) (start stop : Nat) : Option WriteRule :=
  if start ≤ stop ∧ stop ≤ line.length then
    classifier.ruleBetween (trim (line.take start)) (trim (line.drop stop))
  else none

/-- A write if some rule applies. -/
def classify (classifier : Classifier) (line : List Char) (start stop : Nat) : Kind :=
  if (classifier.writeRule line start stop).isSome then .write else .read

end Classifier

end Usages
