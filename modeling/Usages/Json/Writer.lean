/-
JSON as text: over several lines with two blanks for each level, or on one line. Control
characters, the quote and the backslash are escaped, all else stands for itself.
-/
import Usages.Json.Basic

namespace Usages.Json

def hexDigit (n : Nat) : Char :=
  "0123456789abcdef".toList.getD n '0'

/-- A character inside a string. -/
def escape (c : Char) : List Char :=
  match c with
  | '"' => ['\\', '"']
  | '\\' => ['\\', '\\']
  | '\x08' => ['\\', 'b']
  | '\x0c' => ['\\', 'f']
  | '\n' => ['\\', 'n']
  | '\r' => ['\\', 'r']
  | '\t' => ['\\', 't']
  | c =>
    if c.toNat < 0x20 then
      ['\\', 'u', '0', '0', hexDigit (c.toNat / 16), hexDigit (c.toNat % 16)]
    else [c]

def quote (text : String) : List Char :=
  '"' :: text.toList.flatMap escape ++ ['"']

/-- A string; half a surrogate pair is written as the replacement character. -/
def quoteOption (text : Option String) : List Char :=
  quote (text.getD "\uFFFD")

/-- How many levels in a value stands; `none` if all is on one line. -/
abbrev Depth := Option Nat

def Depth.deeper (depth : Depth) : Depth :=
  depth.map (· + 1)

def newline : Depth → List Char
  | some depth => '\n' :: List.replicate (2 * depth) ' '
  | none => []

/-- What stands between a key and its value. -/
def colon : Depth → List Char
  | some _ => [':', ' ']
  | none => [':']

mutual

/-- A value at this depth. -/
def writeAt (depth : Depth) : Json → List Char
  | .null => "null".toList
  | .bool true => "true".toList
  | .bool false => "false".toList
  | .int value => (toString value).toList
  | .real written => written.toList
  | .str text => quoteOption text
  | .arr [] => ['[', ']']
  | .arr (item :: rest) =>
    '[' :: newline depth.deeper ++ writeAt depth.deeper item ++ writeItems depth.deeper rest ++
      newline depth ++ [']']
  | .obj [] => ['\x7b', '\x7d']
  | .obj ((key, value) :: rest) =>
    '\x7b' :: newline depth.deeper ++ quoteOption key ++ colon depth ++
      writeAt depth.deeper value ++ writeMembers depth.deeper rest ++ newline depth ++ ['\x7d']

/-- Further items of an array. -/
def writeItems (depth : Depth) : List Json → List Char
  | [] => []
  | item :: rest => ',' :: newline depth ++ writeAt depth item ++ writeItems depth rest

/-- Further members of an object. -/
def writeMembers (depth : Depth) : List (Option String × Json) → List Char
  | [] => []
  | (key, value) :: rest =>
    ',' :: newline depth ++ quoteOption key ++ colon depth ++ writeAt depth value ++
      writeMembers depth rest

end

/-- Over several lines, without a newline at the end. -/
def pretty (json : Json) : String :=
  String.ofList (writeAt (some 0) json)

/-- On one line, without blanks. -/
def compact (json : Json) : String :=
  String.ofList (writeAt none json)

end Usages.Json
