/-
Places in source text. Lines and columns count from zero, columns in characters.
-/

namespace Usages

structure Position where
  line : Nat
  column : Nat
  deriving Repr, DecidableEq

namespace Position

/-- Reading order: by line, then by column. -/
def compare (p q : Position) : Ordering :=
  (Ord.compare p.line q.line).then (Ord.compare p.column q.column)

instance : Ord Position := ⟨compare⟩
instance : LE Position := leOfOrd
instance : DecidableRel (α := Position) (· ≤ ·) :=
  fun p q => inferInstanceAs (Decidable ((Ord.compare p q).isLE = true))

end Position

/-- A stretch of text from `start` up to `stop`. Nothing forces `start ≤ stop`. -/
structure Range where
  start : Position
  stop : Position
  deriving Repr, DecidableEq

namespace Range

/-- Characters `start` up to `stop` of one line. -/
def onLine (line start stop : Nat) : Range :=
  ⟨⟨line, start⟩, ⟨line, stop⟩⟩

/-- Both ends count: a cursor just behind a name is still on it. -/
def contains (range : Range) (position : Position) : Bool :=
  decide (range.start ≤ position) && decide (position ≤ range.stop)

end Range

/-- A position in a named file. -/
structure Site where
  file : String
  position : Position
  deriving Repr, DecidableEq

/-- A range in a named file. -/
structure Location where
  file : String
  range : Range
  deriving Repr, DecidableEq

/-- The location covers the site. -/
def Location.contains (location : Location) (site : Site) : Bool :=
  location.file == site.file && location.range.contains site.position

end Usages
