/-
Lines and columns in the units of a client.

What a client sees of a line is a list of units: UTF-16 units, of which a character beyond the basic
plane takes two, or the codes of its characters. A column of the client counts units.
`Encoding.extract_units` says that cutting a line at two columns and cutting its units at the
columns of the client comes to the same, `Encoding.units_injective` that the units tell which text
they are of, and `Encoding.toChars_ofChars` that every column comes back, also one behind the end of
the line.
-/
import Mathlib.Data.List.Basic
import Usages.Server.Basic

namespace Usages

namespace Text

theorem unitSize_pos (c : Char) : 0 < unitSize c := by
  rw [unitSize]
  split <;> decide

theorem unitSize_le_two (c : Char) : unitSize c ≤ 2 := by
  rw [unitSize]
  split <;> decide

/-! ## Columns -/

theorem charsToUnits_lt (line : List Char) {column other : Nat} (h : column < other) :
    charsToUnits line column < charsToUnits line other := by
  induction line generalizing column other with
  | nil => exact h
  | cons c rest ih =>
    obtain ⟨other, rfl⟩ := Nat.exists_eq_succ_of_ne_zero (Nat.ne_of_gt (Nat.zero_lt_of_lt h))
    cases column with
    | zero => exact Nat.add_pos_left (unitSize_pos c) _
    | succ column => exact Nat.add_lt_add_left (ih (Nat.lt_of_succ_lt_succ h)) _

theorem charsToUnits_zero (line : List Char) : charsToUnits line 0 = 0 := by
  cases line <;> rfl

/-- Columns can be counted from any column on. -/
theorem charsToUnits_add (line : List Char) (column more : Nat) :
    charsToUnits line (column + more) =
      charsToUnits line column + charsToUnits (line.drop column) more := by
  induction line generalizing column with
  | nil => simp [charsToUnits]
  | cons c rest ih =>
    cases column with
    | zero => rw [charsToUnits_zero, Nat.zero_add, Nat.zero_add, List.drop_zero]
    | succ column =>
      rw [Nat.succ_add, charsToUnits, charsToUnits, ih, List.drop_succ_cons, Nat.add_assoc]

/-- What stands behind a column does not count. -/
theorem charsToUnits_append {front : List Char} {column : Nat} (h : column ≤ front.length)
    (back : List Char) : charsToUnits (front ++ back) column = charsToUnits front column := by
  induction front generalizing column with
  | nil =>
    obtain rfl := Nat.le_zero.1 h
    rw [charsToUnits_zero, charsToUnits_zero]
  | cons c front ih =>
    cases column with
    | zero => rfl
    | succ column =>
      rw [List.cons_append, charsToUnits, charsToUnits, ih (Nat.le_of_succ_le_succ h)]

theorem unitsToChars_charsToUnits (line : List Char) (column : Nat) :
    unitsToChars line (charsToUnits line column) = column := by
  induction line generalizing column with
  | nil => rfl
  | cons c rest ih =>
    cases column with
    | zero => rw [charsToUnits, unitsToChars, if_neg (Nat.not_le.2 (unitSize_pos c))]
    | succ column =>
      rw [charsToUnits, unitsToChars, if_pos (Nat.le_add_right _ _), Nat.add_sub_cancel_left, ih]

/-! ## UTF-16 -/

/-- The UTF-16 units of a character: its code or, beyond the basic plane, two surrogates. -/
def utf16 (c : Char) : List Nat :=
  if c.toNat < 0x10000 then [c.toNat]
  else [0xd800 + (c.toNat - 0x10000) / 0x400, 0xdc00 + (c.toNat - 0x10000) % 0x400]

theorem length_utf16 (c : Char) : (utf16 c).length = unitSize c := by
  rw [utf16, unitSize]
  split <;> rfl

/-- No character has the code of a surrogate, so the first character of a text is known. -/
theorem utf16_append_inj {c d : Char} {rest others : List Nat}
    (h : utf16 c ++ rest = utf16 d ++ others) : c = d ∧ rest = others := by
  have hc : c.toNat < 0xd800 ∨ 0xdfff < c.toNat ∧ c.toNat < 0x110000 := c.valid
  have hd : d.toNat < 0xd800 ∨ 0xdfff < d.toNat ∧ d.toNat < 0x110000 := d.valid
  have hcode : c.toNat = d.toNat → c = d := Char.toNat_inj.1
  unfold utf16 at h
  split at h <;> split at h <;>
    simp only [List.cons_append, List.nil_append, List.cons.injEq] at h
  · exact ⟨hcode h.1, h.2⟩
  · omega
  · omega
  · exact ⟨hcode (by omega), h.2.2⟩

/-- A column on the line stays on it. -/
theorem charsToUnits_le {line : List Char} {column : Nat} (h : column ≤ line.length) :
    charsToUnits line column ≤ (line.flatMap utf16).length := by
  induction line generalizing column with
  | nil => simpa [charsToUnits] using h
  | cons c rest ih =>
    cases column with
    | zero => exact Nat.zero_le _
    | succ column =>
      rw [charsToUnits, List.flatMap_cons, List.length_append, length_utf16]
      exact Nat.add_le_add_left (ih (Nat.le_of_succ_le_succ h)) _

theorem take_flatMap_utf16 (line : List Char) (column : Nat) :
    (line.flatMap utf16).take (charsToUnits line column) = (line.take column).flatMap utf16 := by
  induction line generalizing column with
  | nil => simp
  | cons c rest ih =>
    cases column with
    | zero => simp [charsToUnits]
    | succ column =>
      rw [charsToUnits, List.flatMap_cons, ← length_utf16, List.take_length_add_append, ih,
        List.take_succ_cons, List.flatMap_cons]

theorem drop_flatMap_utf16 (line : List Char) (column : Nat) :
    (line.flatMap utf16).drop (charsToUnits line column) = (line.drop column).flatMap utf16 := by
  induction line generalizing column with
  | nil => simp
  | cons c rest ih =>
    cases column with
    | zero => simp [charsToUnits]
    | succ column =>
      rw [charsToUnits, List.flatMap_cons, ← length_utf16, List.drop_length_add_append, ih,
        List.drop_succ_cons]

theorem extract_flatMap_utf16 (line : List Char) {start stop : Nat} (h : start ≤ stop) :
    (line.flatMap utf16).extract (charsToUnits line start) (charsToUnits line stop) =
      (line.extract start stop).flatMap utf16 := by
  obtain ⟨width, rfl⟩ := Nat.exists_eq_add_of_le h
  rw [List.extract_eq_take_drop, List.extract_eq_take_drop, charsToUnits_add,
    Nat.add_sub_cancel_left, Nat.add_sub_cancel_left, drop_flatMap_utf16, take_flatMap_utf16]

theorem flatMap_utf16_injective {text other : List Char}
    (h : text.flatMap utf16 = other.flatMap utf16) : text = other := by
  have hne : ∀ c, utf16 c ≠ [] := by
    intro c hc
    have hlength := length_utf16 c
    rw [hc, List.length_nil] at hlength
    exact absurd hlength (Nat.ne_of_lt (unitSize_pos c))
  induction text generalizing other with
  | nil =>
    cases other with
    | nil => rfl
    | cons d other => simp [hne d] at h
  | cons c text ih =>
    cases other with
    | nil => simp [hne c] at h
    | cons d other =>
      rw [List.flatMap_cons, List.flatMap_cons] at h
      obtain ⟨rfl, hrest⟩ := utf16_append_inj h
      rw [ih hrest]

end Text

namespace Encoding

@[simp] theorem line_ofChars (encoding : Encoding) (line? : Option (List Char))
    (position : Position) : (encoding.ofChars line? position).line = position.line := by
  cases encoding <;> cases line? <;> rfl

theorem column_ofChars_lt (encoding : Encoding) (line? : Option (List Char))
    {position other : Position} (h : position.column < other.column) :
    (encoding.ofChars line? position).column < (encoding.ofChars line? other).column := by
  cases encoding with
  | utf32 => exact h
  | utf16 =>
    cases line? with
    | none => exact h
    | some line => exact Text.charsToUnits_lt line h

/-- The client names a position and means the one it was told of. -/
theorem toChars_ofChars (encoding : Encoding) (line? : Option (List Char)) (position : Position) :
    encoding.toChars line? (encoding.ofChars line? position) = position := by
  cases encoding with
  | utf32 => rfl
  | utf16 =>
    cases line? with
    | none => rfl
    | some line =>
      simp only [ofChars, toChars, Text.unitsToChars_charsToUnits]

/-- A text in the units of the client. -/
def units : Encoding → List Char → List Nat
  | utf16, text => text.flatMap Text.utf16
  | utf32, text => text.map Char.toNat

theorem units_injective (encoding : Encoding) {text other : List Char}
    (h : encoding.units text = encoding.units other) : text = other := by
  cases encoding with
  | utf16 => exact Text.flatMap_utf16_injective h
  | utf32 => exact List.map_injective_iff.2 (fun _ _ hc => Char.toNat_inj.1 hc) h

/-! A line that is shown may end before the line it is shown for. Columns on it are columns on the
line. -/

section

variable (encoding : Encoding) {line shown : List Char} (hshown : shown <+: line)
include hshown

theorem column_ofChars_le {position : Position} (h : position.column ≤ shown.length) :
    (encoding.ofChars (some shown) position).column ≤ (encoding.units line).length := by
  obtain ⟨back, rfl⟩ := hshown
  have hline : position.column ≤ (shown ++ back).length := by
    rw [List.length_append]
    omega
  cases encoding with
  | utf32 => simpa [units, ofChars] using hline
  | utf16 =>
    simp only [units, ofChars]
    rw [← Text.charsToUnits_append h back]
    exact Text.charsToUnits_le hline

/-- Cutting the units of a line at the columns of the client is cutting the line. -/
theorem extract_units {start stop : Position} (h : start.column ≤ stop.column)
    (hstop : stop.column ≤ shown.length) :
    (encoding.units line).extract (encoding.ofChars (some shown) start).column
        (encoding.ofChars (some shown) stop).column =
      encoding.units (line.extract start.column stop.column) := by
  cases encoding with
  | utf32 =>
    simp only [units, ofChars, List.extract_eq_take_drop, List.map_take, List.map_drop]
  | utf16 =>
    obtain ⟨back, rfl⟩ := hshown
    simp only [units, ofChars]
    rw [← Text.charsToUnits_append hstop back,
      ← Text.charsToUnits_append (Nat.le_trans h hstop) back, Text.extract_flatMap_utf16 _ h]

end

end Encoding

/-! ## Positions that can be told -/

/-- Line and column are numbers of 32 bits. -/
def Position.Fits (position : Position) : Prop :=
  position.line < 0x100000000 ∧ position.column < 0x100000000

instance (position : Position) : Decidable position.Fits :=
  inferInstanceAs (Decidable (_ ∧ _))

theorem Position.Fits.truncated_eq {position : Position} (h : position.Fits) :
    position.truncated = position := by
  rw [truncated, Nat.mod_eq_of_lt h.1, Nat.mod_eq_of_lt h.2]

namespace Server

/-- The ends of a location are numbers of 32 bits, in the units of the client. -/
def Fits (server : Server) (disk : Disk) (location : Location) : Prop :=
  (server.unitPosition disk location.file location.range.start).Fits ∧
    (server.unitPosition disk location.file location.range.stop).Fits

instance (server : Server) (disk : Disk) (location : Location) :
    Decidable (server.Fits disk location) :=
  inferInstanceAs (Decidable (_ ∧ _))

variable {server : Server} {disk : Disk}

/-- The client is told of a position that fits as it is. -/
theorem clientPosition_of_fits {file : String} {position : Position}
    (h : (server.unitPosition disk file position).Fits) :
    server.clientPosition disk file position =
      server.encoding.ofChars ((server.texts disk).line? file position.line) position :=
  h.truncated_eq

end Server

end Usages
