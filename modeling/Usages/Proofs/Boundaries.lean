/-
Columns in UTF-16 units against columns in characters.

Every column in characters is a column in units, but a client can also name a column between the two
units of a surrogate pair, where no character starts. `galoisConnection_columns` says that either
count may be used to compare: a character starts at or before a column in units exactly if it is at
or before the character of that column. So going to characters and back rounds down to a boundary
between characters, which moves a column inside a pair by one unit and no other column.
-/
import Mathlib.Order.Bounds.Defs
import Mathlib.Order.GaloisConnection.Defs
import Usages.Proofs.Units

namespace Usages.Text

/-! ## Two counts of one column -/

theorem galoisConnection_columns (line : List Char) :
    GaloisConnection (charsToUnits line) (unitsToChars line) := by
  intro column units
  induction line generalizing column units with
  | nil => exact Iff.rfl
  | cons c rest ih =>
    cases column with
    | zero => exact iff_of_true (Nat.zero_le _) (Nat.zero_le _)
    | succ column =>
      rw [charsToUnits, unitsToChars]
      by_cases hsize : unitSize c ≤ units
      · rw [if_pos hsize, Nat.add_le_add_iff_right, ← ih, Nat.add_comm,
          Nat.le_sub_iff_add_le hsize]
      · -- The column lies inside `c`, where no later character starts.
        rw [if_neg hsize]
        exact iff_of_false (fun h => hsize (Nat.le_trans (Nat.le_add_right _ _) h))
          (Nat.not_succ_le_zero column)

theorem charsToUnits_of_le {line : List Char} {column : Nat} (h : column ≤ line.length) :
    charsToUnits line column = ((line.take column).flatMap utf16).length := by
  rw [← take_flatMap_utf16, List.length_take, Nat.min_eq_left (charsToUnits_le h)]

theorem charsToUnits_length_add (line : List Char) (more : Nat) :
    charsToUnits line (line.length + more) = (line.flatMap utf16).length + more := by
  rw [charsToUnits_add, charsToUnits_of_le (Nat.le_refl _), List.take_length, List.drop_length,
    charsToUnits]

/-! ## Boundaries between characters -/

/-- A column in units with a whole number of characters before it. Behind the end of the line every
column is a boundary. -/
def IsBoundary (line : List Char) (units : Nat) : Prop :=
  (∃ front, front <+: line ∧ (front.flatMap utf16).length = units) ∨
    (line.flatMap utf16).length ≤ units

/-- The boundaries are the columns in characters. -/
theorem isBoundary_iff {line : List Char} {units : Nat} :
    IsBoundary line units ↔ ∃ column, charsToUnits line column = units := by
  constructor
  · rintro (⟨front, hfront, rfl⟩ | hend)
    · refine ⟨front.length, ?_⟩
      rw [charsToUnits_of_le hfront.length_le, ← List.prefix_iff_eq_take.1 hfront]
    · obtain ⟨more, rfl⟩ := Nat.exists_eq_add_of_le hend
      exact ⟨line.length + more, charsToUnits_length_add line more⟩
  · rintro ⟨column, rfl⟩
    rcases Nat.le_total column line.length with h | h
    · exact .inl ⟨line.take column, List.take_prefix column line, (charsToUnits_of_le h).symm⟩
    · obtain ⟨more, rfl⟩ := Nat.exists_eq_add_of_le h
      rw [charsToUnits_length_add]
      exact .inr (Nat.le_add_right _ _)

theorem isGreatest_boundary (line : List Char) (units : Nat) :
    IsGreatest {boundary | IsBoundary line boundary ∧ boundary ≤ units}
      (charsToUnits line (unitsToChars line units)) := by
  have hcolumns := galoisConnection_columns line
  constructor
  · exact ⟨isBoundary_iff.2 ⟨_, rfl⟩, hcolumns.l_u_le units⟩
  · rintro boundary ⟨hboundary, hle⟩
    obtain ⟨column, rfl⟩ := isBoundary_iff.1 hboundary
    exact hcolumns.monotone_l (hcolumns.le_u hle)

/-! ## Surrogate pairs -/

/-- A column in units with a low surrogate behind it. No character has the code of one, so the
column is between the two units of a pair. -/
def InsidePair (line : List Char) (units : Nat) : Prop :=
  ∃ unit ∈ (line.flatMap utf16)[units]?, 0xdc00 ≤ unit ∧ unit < 0xe000

instance (line : List Char) (units : Nat) : Decidable (InsidePair line units) :=
  decidable_of_iff
    ((line.flatMap utf16)[units]?.any fun unit => decide (0xdc00 ≤ unit ∧ unit < 0xe000))
    (by simp [InsidePair, Option.any_eq_true])

section

variable {c : Char} {rest : List Char} {units : Nat}

theorem insidePair_cons_of_le (h : unitSize c ≤ units) :
    InsidePair (c :: rest) units ↔ InsidePair rest (units - unitSize c) := by
  rw [← length_utf16] at h ⊢
  rw [InsidePair, InsidePair, List.flatMap_cons, List.getElem?_append_right h]

/-- Of the columns on a character only the one in the middle of a pair is inside one. -/
theorem insidePair_cons_of_lt (h : units < unitSize c) :
    InsidePair (c :: rest) units ↔ units = 1 := by
  have hvalid : c.toNat < 0xd800 ∨ 0xdfff < c.toNat ∧ c.toNat < 0x110000 := c.valid
  rw [InsidePair, List.flatMap_cons, List.getElem?_append_left (length_utf16 c ▸ h)]
  by_cases hplane : c.toNat < 0x10000
  · rw [unitSize, if_pos hplane] at h
    obtain rfl := Nat.lt_one_iff.1 h
    simp only [utf16, if_pos hplane, List.getElem?_cons_zero, Option.mem_some_iff, exists_eq_left']
    omega
  · rw [unitSize, if_neg hplane] at h
    obtain rfl | rfl : units = 0 ∨ units = 1 := by omega
    · simp only [utf16, if_neg hplane, List.getElem?_cons_zero, Option.mem_some_iff,
        exists_eq_left']
      omega
    · have hlow := Nat.mod_lt (c.toNat - 0x10000) (Nat.zero_lt_succ 0x3ff)
      rw [utf16, if_neg hplane]
      exact iff_of_true ⟨_, rfl, Nat.le_add_right _ _, Nat.add_lt_add_left hlow _⟩ rfl

end

/-- There and back a column inside a pair moves to the front of the pair, and no other moves. -/
theorem charsToUnits_unitsToChars (line : List Char) (units : Nat) :
    charsToUnits line (unitsToChars line units) + (if InsidePair line units then 1 else 0) =
      units := by
  induction line generalizing units with
  | nil => simp [InsidePair, unitsToChars, charsToUnits]
  | cons c rest ih =>
    rw [unitsToChars]
    by_cases hsize : unitSize c ≤ units
    · simp only [if_pos hsize, charsToUnits, insidePair_cons_of_le hsize]
      rw [Nat.add_assoc, ih, Nat.add_sub_cancel' hsize]
    · have hlt := Nat.lt_of_not_le hsize
      simp only [if_neg hsize, charsToUnits, insidePair_cons_of_lt hlt, Nat.zero_add]
      have htwo := unitSize_le_two c
      split <;> omega

/-- **Columns in units and in characters are adjoint.** On every line, and behind its end, the units
of a column in characters are at most a column in units exactly if the column in characters is at
most the characters of the column in units. So every column in characters comes back, neither count
changes the order of columns, and a column in units comes back as the last boundary between
characters that is not behind it: one unit before it where it lies inside a surrogate pair, and
elsewhere the column itself. -/
theorem unitsToChars_is_upper_adjoint (line : List Char) :
    GaloisConnection (charsToUnits line) (unitsToChars line) ∧
    (∀ column, unitsToChars line (charsToUnits line column) = column) ∧
    Monotone (charsToUnits line) ∧
    Monotone (unitsToChars line) ∧
    (∀ units, IsGreatest {boundary | IsBoundary line boundary ∧ boundary ≤ units}
      (charsToUnits line (unitsToChars line units))) ∧
    ∀ units,
      charsToUnits line (unitsToChars line units) + (if InsidePair line units then 1 else 0) =
        units := by
  have hcolumns := galoisConnection_columns line
  exact ⟨hcolumns, unitsToChars_charsToUnits line, hcolumns.monotone_l, hcolumns.monotone_u,
    isGreatest_boundary line, charsToUnits_unitsToChars line⟩

/-- In the middle of the pair, which is no boundary, and two columns behind the end. -/
theorem unitsToChars_is_upper_adjoint_in_pair :
    let line := ['a', '😀', 'b']
    InsidePair line 2 ∧ ¬IsBoundary line 2 ∧ charsToUnits line (unitsToChars line 2) + 1 = 2 ∧
    IsGreatest {boundary | IsBoundary line boundary ∧ boundary ≤ 2} 1 ∧
    (charsToUnits line 5 ≤ 6 ↔ 5 ≤ unitsToChars line 6) ∧ unitsToChars line 6 = 5 := by
  intro line
  obtain ⟨hcolumns, hback, -, -, hgreatest, hrounds⟩ := unitsToChars_is_upper_adjoint line
  have hinside : InsidePair line 2 := by decide
  have hlast : IsGreatest {boundary | IsBoundary line boundary ∧ boundary ≤ 2} 1 := hgreatest 2
  have hround := hrounds 2
  rw [if_pos hinside] at hround
  exact ⟨hinside, fun h => absurd (hlast.2 ⟨h, Nat.le_refl 2⟩) (by decide), hround, hlast,
    hcolumns 5 6, hback 5⟩

end Usages.Text
