/-
JSON values. Members of an object keep their order and may repeat a key.

A string may escape one half of a surrogate pair without the other. That is well-formed but stands
for no text; such a string, as a value or as a key, is `none`.
-/

namespace Usages

inductive Json where
  | null
  | bool (value : Bool)
  | int (value : Int)
  /-- A number with a fraction or an exponent, as it is written. -/
  | real (written : String)
  | str (text : Option String)
  | arr (items : List Json)
  | obj (members : List (Option String × Json))
  deriving Repr, BEq, Inhabited

namespace Json

def text (value : String) : Json :=
  .str (some value)

def nat (value : Nat) : Json :=
  .int value

/-- An object with these members. -/
def object (members : List (String × Json)) : Json :=
  .obj (members.map fun (key, value) => (some key, value))

def ofOption : Option Json → Json
  | some value => value
  | none => .null

def text? : Json → Option String
  | .str text => text
  | _ => none

def bool? : Json → Option Bool
  | .bool value => some value
  | _ => none

/-- The texts of an array of strings. -/
def texts? : Json → Option (List String)
  | .arr items => items.mapM text?
  | _ => none

end Json

end Usages
