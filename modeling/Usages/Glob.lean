/-
Glob patterns over path texts.

A pattern is compiled once into tokens. `?` stands for one character, `*` for any run of
characters, slashes included, `[a-z]` and `[!a-z]` for one character of a set or outside it, and
`**`, which has to be a whole path component, for any number of components. Every other character
stands for itself: there are no braces and no escapes. Matching is case sensitive and covers the
whole text.
-/
import Usages.Name

namespace Usages

/-- Characters from `low` to `high`. -/
structure CharRange where
  low : Char
  high : Char
  deriving Repr, DecidableEq

def CharRange.contains (range : CharRange) (c : Char) : Bool :=
  decide (range.low ≤ c) && decide (c ≤ range.high)

/-- What is wrong with a pattern. -/
inductive GlobFault where
  /-- Three stars in a row. -/
  | wildcards
  /-- Two stars that are not a component of their own. -/
  | recursiveWildcards
  /-- A bracket that is not closed. -/
  | range
  deriving Repr, DecidableEq

def GlobFault.message : GlobFault → String
  | wildcards => "wildcards are either regular `*` or recursive `**`"
  | recursiveWildcards => "recursive wildcards must form a single path component"
  | range => "invalid range pattern"

/-- A fault and the number of characters before it. -/
structure GlobError where
  position : Nat
  fault : GlobFault
  deriving Repr, DecidableEq

def GlobError.message (error : GlobError) : String :=
  "Pattern syntax error near position " ++ toString error.position ++ ": " ++ error.fault.message

namespace Glob

inductive Token where
  | char (c : Char)
  | anyChar
  | anyWithin (set : List CharRange)
  | anyExcept (set : List CharRange)
  | anySequence
  | anyComponents
  deriving Repr, DecidableEq

/-- The ranges a bracket lists: `a-z` is one, every other character one of its own. -/
def ranges : List Char → List CharRange
  | low :: '-' :: high :: rest => ⟨low, high⟩ :: ranges rest
  | c :: rest => ⟨c, c⟩ :: ranges rest
  | [] => []

/-- The text before the first closing bracket and the text behind it. -/
def splitBracket : List Char → Option (List Char × List Char)
  | [] => none
  | c :: rest =>
    if c = ']' then some ([], rest)
    else (splitBracket rest).map fun (inside, after) => (c :: inside, after)

theorem splitBracket_length {text inside after : List Char}
    (h : splitBracket text = some (inside, after)) : after.length < text.length := by
  induction text generalizing inside with
  | nil => simp [splitBracket] at h
  | cons c rest ih =>
    rw [splitBracket] at h
    split at h
    · simp only [Option.some.injEq, Prod.mk.injEq] at h
      simp [h.2]
    · obtain ⟨⟨i, a⟩, found, same⟩ := Option.map_eq_some_iff.1 h
      simp only [Prod.mk.injEq] at same
      rw [same.2] at found
      have := ih found
      simp only [List.length_cons]
      omega

/-- A component starts here: at the start of the pattern or behind a slash. -/
def startsComponent (before : Option Char) : Bool :=
  before.all (· == '/')

/-- Tokens of the pattern from `position` on, where `before` is the character in front. The first
character of a bracket belongs to it even when it is a closing bracket. -/
def tokensFrom (position : Nat) (before : Option Char) : List Char → Except GlobError (List Token)
  | [] => .ok []
  | '*' :: '*' :: '*' :: _ => .error ⟨position + 2, .wildcards⟩
  | '*' :: '*' :: rest =>
    if startsComponent before then
      match rest with
      | [] => .ok [.anyComponents]
      | '/' :: rest => (.anyComponents :: ·) <$> tokensFrom (position + 3) (some '/') rest
      | _ => .error ⟨position + 2, .recursiveWildcards⟩
    else .error ⟨position - 1, .recursiveWildcards⟩
  | '*' :: rest => (.anySequence :: ·) <$> tokensFrom (position + 1) (some '*') rest
  | '?' :: rest => (.anyChar :: ·) <$> tokensFrom (position + 1) (some '?') rest
  | '[' :: '!' :: first :: rest =>
    match h : splitBracket rest with
    | none => .error ⟨position, .range⟩
    | some (inside, after) =>
      have := splitBracket_length h
      (.anyExcept (ranges (first :: inside)) :: ·) <$>
        tokensFrom (position + inside.length + 4) (some ']') after
  | ['[', '!'] => .error ⟨position, .range⟩
  | '[' :: first :: rest =>
    match h : splitBracket rest with
    | none => .error ⟨position, .range⟩
    | some (inside, after) =>
      have := splitBracket_length h
      (.anyWithin (ranges (first :: inside)) :: ·) <$>
        tokensFrom (position + inside.length + 3) (some ']') after
  | ['['] => .error ⟨position, .range⟩
  | c :: rest => (.char c :: ·) <$> tokensFrom (position + 1) (some c) rest
termination_by text => text.length

/-- Some suffix of the text satisfies `p`. -/
def anySuffix (p : List Char → Bool) : List Char → Bool
  | [] => p []
  | c :: rest => p (c :: rest) || anySuffix p rest

/-- The text behind some slash, or the empty rest, satisfies `p`. -/
def afterSlash (p : List Char → Bool) : List Char → Bool
  | [] => p []
  | c :: rest => (c == '/' && p rest) || afterSlash p rest

/-- The tokens cover the whole text. -/
def covers : List Token → List Char → Bool
  | [], text => text.isEmpty
  | .anySequence :: tokens, text => anySuffix (covers tokens) text
  | .anyComponents :: tokens, text => covers tokens text || afterSlash (covers tokens) text
  | _, [] => false
  | .char c :: tokens, d :: text => c == d && covers tokens text
  | .anyChar :: tokens, _ :: text => covers tokens text
  | .anyWithin set :: tokens, d :: text => set.any (·.contains d) && covers tokens text
  | .anyExcept set :: tokens, d :: text => !set.any (·.contains d) && covers tokens text

end Glob

/-- A compiled pattern. -/
structure Glob where
  tokens : List Glob.Token
  deriving Repr, DecidableEq

namespace Glob

def compile (pattern : String) : Except GlobError Glob :=
  Glob.mk <$> tokensFrom 0 none pattern.toList

def accepts (glob : Glob) (path : String) : Bool :=
  covers glob.tokens path.toList

/-- Patterns are about texts and accept no other path. -/
def acceptsPath (glob : Glob) : OsPath → Bool
  | .text path => glob.accepts path
  | .raw .. => false

end Glob

end Usages
