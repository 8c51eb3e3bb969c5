/-
Text in colour for a terminal. A style is a sequence of codes in front of a text, and another one
ends it. A text that itself ends a style would end the one around it too, so the outer style starts
again after each such end.
-/

namespace Usages.Cli

inductive Colour where
  | red
  | green
  | yellow
  | cyan
  deriving Repr, DecidableEq

def Colour.code : Colour → String
  | red => "31"
  | green => "32"
  | yellow => "33"
  | cyan => "36"

structure Style where
  bold : Bool := false
  dimmed : Bool := false
  underlined : Bool := false
  colour : Option Colour := none
  deriving Repr, DecidableEq

namespace Style

/-- The codes of a style, the colour last. -/
def codes (style : Style) : List String :=
  (if style.bold then ["1"] else []) ++ (if style.dimmed then ["2"] else []) ++
    (if style.underlined then ["4"] else []) ++ (style.colour.map Colour.code).toList

/-- The sequence that starts a style. -/
def opening (style : Style) : List Char :=
  '\x1b' :: '[' :: (";".intercalate style.codes).toList ++ ['m']

/-- The sequence that ends every style. -/
def closing : List Char :=
  ['\x1b', '[', '0', 'm']

/-- A text in which `again` follows each end of a style. -/
def reopen (again : List Char) : List Char → List Char
  | '\x1b' :: '[' :: '0' :: 'm' :: rest => closing ++ again ++ reopen again rest
  | c :: rest => c :: reopen again rest
  | [] => []

end Style

/-- Whether output is in colour. -/
inductive Palette where
  | plain
  | coloured
  deriving Repr, DecidableEq

/-- A text in a style. An empty one is styled too. -/
def Palette.paint (palette : Palette) (style : Style) (text : String) : String :=
  match palette with
  | plain => text
  | coloured =>
    String.ofList (style.opening ++ Style.reopen style.opening text.toList ++ Style.closing)

end Usages.Cli
