/-
Bytes as text. Where bytes are not well-formed, each longest run that could have started a
character becomes one replacement character.
-/

namespace Usages.Text

/-- The bytes of a character. -/
def utf8Bytes (c : Char) : List Nat :=
  let n := c.toNat
  if n < 0x80 then [n]
  else if n < 0x800 then [0xC0 + n / 64, 0x80 + n % 64]
  else if n < 0x10000 then [0xE0 + n / 4096, 0x80 + n / 64 % 64, 0x80 + n % 64]
  else [0xF0 + n / 262144, 0x80 + n / 4096 % 64, 0x80 + n / 64 % 64, 0x80 + n % 64]

def isContinuation (byte : Nat) : Bool :=
  0x80 ≤ byte && byte < 0xC0

/-- The second byte may follow the first in a character of three bytes. -/
def isSecondOfThree (first second : Nat) : Bool :=
  isContinuation second && (first != 0xE0 || 0xA0 ≤ second) && (first != 0xED || second < 0xA0)

/-- The second byte may follow the first in a character of four bytes. -/
def isSecondOfFour (first second : Nat) : Bool :=
  isContinuation second && (first != 0xF0 || 0x90 ≤ second) && (first != 0xF4 || second < 0x90)

/-- The first character of the bytes and how many of them it takes. -/
def decodeFirst (first : Nat) (rest : List Nat) : Char × Nat :=
  let bad (count : Nat) : Char × Nat := ('\uFFFD', count)
  if first < 0x80 then (Char.ofNat first, 1)
  else if 0xC2 ≤ first && first < 0xE0 then
    match rest with
    | b :: _ =>
      if isContinuation b then (Char.ofNat ((first - 0xC0) * 64 + (b - 0x80)), 2) else bad 1
    | [] => bad 1
  else if 0xE0 ≤ first && first < 0xF0 then
    match rest with
    | b :: c :: _ =>
      if !isSecondOfThree first b then bad 1
      else if !isContinuation c then bad 2
      else (Char.ofNat (((first - 0xE0) * 64 + (b - 0x80)) * 64 + (c - 0x80)), 3)
    | [b] => if isSecondOfThree first b then bad 2 else bad 1
    | [] => bad 1
  else if 0xF0 ≤ first && first < 0xF5 then
    match rest with
    | b :: c :: d :: _ =>
      if !isSecondOfFour first b then bad 1
      else if !isContinuation c then bad 2
      else if !isContinuation d then bad 3
      else
        (Char.ofNat ((((first - 0xF0) * 64 + (b - 0x80)) * 64 + (c - 0x80)) * 64 + (d - 0x80)), 4)
    | [b, c] =>
      if !isSecondOfFour first b then bad 1 else if isContinuation c then bad 3 else bad 2
    | [b] => if isSecondOfFour first b then bad 2 else bad 1
    | [] => bad 1
  else bad 1

/-- The text of the bytes. -/
def decodeLossy : List Nat → List Char
  | [] => []
  | first :: rest =>
    let (c, size) := decodeFirst first rest
    c :: decodeLossy (rest.drop (size - 1))
termination_by bytes => bytes.length
decreasing_by
  simp only [List.length_drop, List.length_cons]
  omega

/-- The bytes of a text. -/
def encode (text : List Char) : List Nat :=
  text.flatMap utf8Bytes

/-- The bytes are those of a text: none had to be replaced. -/
def isWellFormed (bytes : List Nat) : Bool :=
  encode (decodeLossy bytes) == bytes

end Usages.Text
