/-
The word at a cursor, as the run of identifier characters that the cursor touches.

A run touches the cursor exactly if an identifier character stands next to it, and then it is the
only one: two runs never meet. `wordAt_selects_touching_run` says that this run is the answer, unless
it starts with an ASCII digit, and that the columns of the answer cut its text out of the line also
where they are counted in bytes.
-/
import Usages.Proofs.Lines

namespace Usages.Text

/-- A run touches the cursor if an identifier character stands next to it. -/
theorem exists_isRun_iff {line : List Char} {column : Nat} :
    (∃ start stop, IsRun line start stop ∧ Touches start stop column) ↔
      IdentifierNextTo line column := by
  constructor
  · rintro ⟨start, stop, hrun, htouches⟩
    exact hrun.identifierNextTo htouches
  · intro h
    obtain ⟨hrun, -⟩ := isRun_around h.le_length (around_ne_nil h)
    exact ⟨_, _, hrun, Nat.sub_le _ _, Nat.le_add_right _ _⟩

/-- Columns count characters, and the bytes before them cut the same stretch out of the line. -/
theorem sliceBytes_extract {line : List Char} {start stop : Nat} (h : start ≤ stop) :
    sliceBytes line (byteSize (line.take start)) (byteSize (line.take stop)) =
      some (line.extract start stop) := by
  have hstop : line.take stop = line.take start ++ line.extract start stop := by
    rw [List.extract_eq_take_drop, ← List.take_add, Nat.add_sub_cancel' h]
  have hline : line = line.take start ++ (line.extract start stop ++ line.drop stop) := by
    rw [← List.append_assoc, ← hstop, List.take_append_drop]
  conv => lhs; arg 1; rw [hline]
  rw [hstop, byteSize_append]
  exact sliceBytes_append _ _ _

/-- **The word at a cursor is the run it touches.** At most one run of identifier characters touches
a cursor, and one does if an identifier character stands next to it, which none does behind the end
of the line. There is a word at the cursor exactly if that run exists and does not start with an
ASCII digit, and the word then has the columns of the run and the characters, and bytes, between
them. -/
theorem wordAt_selects_touching_run (line : List Char) (column : Nat) :
    (∀ start stop start' stop', IsRun line start stop → Touches start stop column →
      IsRun line start' stop' → Touches start' stop' column → start = start' ∧ stop = stop') ∧
    ((∃ start stop, IsRun line start stop ∧ Touches start stop column) ↔
      IdentifierNextTo line column) ∧
    ((wordAt line column).isSome = true ↔
      ∃ start stop, IsRun line start stop ∧ Touches start stop column ∧
        digitAt line start = false) ∧
    ∀ word, wordAt line column = some word → ∀ start stop, IsRun line start stop →
      Touches start stop column →
        word = ⟨start, stop, String.ofList (line.extract start stop)⟩ ∧
        sliceBytes line (byteSize (line.take start)) (byteSize (line.take stop)) =
          some word.text.toList := by
  refine ⟨fun _ _ _ _ hrun ht hrun' ht' => hrun.eq_of_touches hrun' ht ht', exists_isRun_iff,
    ?_, fun word hword start stop hrun ht => ?_⟩
  · rw [Option.isSome_iff_exists]
    constructor
    · rintro ⟨word, hword⟩
      obtain ⟨hrun, ht, hdigit, -⟩ := wordAt_eq_some_iff.1 hword
      exact ⟨word.start, word.stop, hrun, ht, hdigit⟩
    · rintro ⟨start, stop, hrun, ht, hdigit⟩
      exact ⟨⟨start, stop, String.ofList (line.extract start stop)⟩,
        wordAt_eq_some_iff.2 ⟨hrun, ht, hdigit, rfl⟩⟩
  · obtain ⟨hrun', ht', -, htext⟩ := wordAt_eq_some_iff.1 hword
    obtain ⟨rfl, rfl⟩ := hrun'.eq_of_touches hrun ht' ht
    refine ⟨by rw [← htext], ?_⟩
    rw [sliceBytes_extract (Nat.le_of_lt hrun.lt), htext, String.toList_ofList]

/-- Right behind a word with a character of two bytes, and at the front of a run that is a number
and no word. -/
theorem wordAt_selects_touching_run_by_number :
    let line := "(é9,9é)".toList
    (IsRun line 1 3 ∧ Touches 1 3 3 ∧ wordAt line 3 = some ⟨1, 3, "é9"⟩ ∧
      sliceBytes line 1 4 = some ['é', '9']) ∧
    IsRun line 4 6 ∧ Touches 4 6 4 ∧ (wordAt line 4).isSome = false := by
  intro line
  have hword : wordAt line 3 = some ⟨1, 3, "é9"⟩ := by decide +kernel
  have hrun : IsRun line 1 3 := (wordAt_eq_some_iff.1 hword).1
  have hnumber : IsRun line 4 6 := by
    refine ⟨by decide, fun i hs he => ?_, fun i hi => ?_, by decide +kernel⟩
    · obtain rfl | rfl : i = 4 ∨ i = 5 := by omega
      · decide +kernel
      · decide +kernel
    · obtain rfl : i = 3 := by omega
      decide +kernel
  obtain ⟨-, -, -, hcut⟩ := wordAt_selects_touching_run line 3
  obtain ⟨hunique, -, hsome, -⟩ := wordAt_selects_touching_run line 4
  have hbytes : byteSize (line.take 1) = 1 ∧ byteSize (line.take 3) = 4 := by decide +kernel
  refine ⟨⟨hrun, ⟨by decide, by decide⟩, hword, ?_⟩, hnumber, ⟨by decide, by decide⟩, ?_⟩
  · have hslice := (hcut _ hword 1 3 hrun ⟨by decide, by decide⟩).2
    rwa [hbytes.1, hbytes.2] at hslice
  · rw [Bool.eq_false_iff, ne_eq, hsome]
    rintro ⟨start, stop, hother, htouches, hdigit⟩
    -- The only run here is the number.
    obtain ⟨rfl, -⟩ := hunique _ _ _ _ hother htouches hnumber ⟨by decide, by decide⟩
    exact absurd hdigit (by decide +kernel)

end Usages.Text
