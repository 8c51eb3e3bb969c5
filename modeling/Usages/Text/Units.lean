/-
Columns in UTF-16 units. A character beyond the basic plane takes two. Columns behind the end of a
line go on one by one in both counts.
-/

namespace Usages.Text

/-- Units of one character. -/
def unitSize (c : Char) : Nat :=
  if c.toNat < 0x10000 then 1 else 2

/-- The character at a column in units; a column inside a character is that of its start. -/
def unitsToChars : List Char → (units : Nat) → Nat
  | [], units => units
  | c :: rest, units =>
    if unitSize c ≤ units then unitsToChars rest (units - unitSize c) + 1 else 0

/-- The column in units of a character. -/
def charsToUnits : List Char → (column : Nat) → Nat
  | [], column => column
  | _ :: _, 0 => 0
  | c :: rest, column + 1 => unitSize c + charsToUnits rest column

end Usages.Text
