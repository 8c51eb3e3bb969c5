/-
Blanks in front of a line and behind it.

No blank is an identifier character, so blanks in front of a line only move its words, and blanks
behind it do not even do that. The rules of the classifier see trimmed text, and so does a preview.
For each of these there is one lemma for either side: `.._blanks_append` moves columns by the number
of blanks in front, `.._append_blanks` keeps them.
-/
import Usages.Find
import Usages.Proofs.Lines
import Usages.Proofs.WriteRule

namespace Usages.Text

theorem isIdentifierChar_of_isBlank {c : Char} (h : isBlank c = true) :
    isIdentifierChar c = false := by
  have hall : ∀ n ∈ blankCodes, isIdentifierChar (Char.ofNat n) = false := by decide +kernel
  have hc := hall c.toNat (mem_blankCodes h)
  rwa [Char.ofNat_toNat] at hc

/-- A carriage return at the end of a line is a blank behind it. -/
theorem exists_eq_dropReturn_append (line : List Char) :
    ∃ blanks, line = dropReturn line ++ blanks ∧ ∀ c ∈ blanks, isBlank c = true := by
  rw [dropReturn]
  split
  next h =>
    obtain ⟨front, rfl⟩ := List.getLast?_eq_some_iff.1 h
    refine ⟨['\r'], by rw [List.dropLast_concat], fun c hc => ?_⟩
    rw [List.mem_singleton.1 hc]
    decide
  next => exact ⟨[], (List.append_nil line).symm, by simp⟩

section

variable {blanks : List Char} (hblanks : ∀ c ∈ blanks, isBlank c = true)
include hblanks

/-! ## Trimming -/

theorem trim_blanks_append (text : List Char) : trim (blanks ++ text) = trim text := by
  rw [trim, trimStart_of_blanks hblanks, trim]

theorem trim_append_blanks (text : List Char) : trim (text ++ blanks) = trim text := by
  obtain ⟨⟨left, right, htext, hleft, hright⟩, hfirst, hlast⟩ := isCore_iff.2 (Eq.refl (trim text))
  refine isCore_iff.1 ⟨⟨left, right ++ blanks, ?_, hleft, fun c hc => ?_⟩, hfirst, hlast⟩
  · conv => lhs; rw [htext]
    simp only [List.append_assoc]
  · rcases List.mem_append.1 hc with hc | hc
    · exact hright c hc
    · exact hblanks c hc

/-! ## Words -/

theorem takeWhile_append_blanks (text : List Char) :
    (text ++ blanks).takeWhile isIdentifierChar = text.takeWhile isIdentifierChar := by
  have hnone : blanks.takeWhile isIdentifierChar = [] := by
    cases blanks with
    | nil => rfl
    | cons c rest =>
      have hc := isIdentifierChar_of_isBlank (hblanks c List.mem_cons_self)
      exact List.takeWhile_cons_of_neg (by rw [hc]; decide)
  rw [List.takeWhile_append, hnone]
  split
  next hall =>
    rw [List.append_nil]
    exact (List.takeWhile_prefix _).eq_of_length hall |>.symm
  next => rfl

theorem runLeft_blanks_append (line : List Char) (column : Nat) :
    runLeft (blanks ++ line) (blanks.length + column) = runLeft line column := by
  rw [runLeft, List.take_length_add_append, List.reverse_append,
    takeWhile_append_blanks (by simpa using hblanks), runLeft]

omit hblanks in
theorem runRight_append (front line : List Char) (column : Nat) :
    runRight (front ++ line) (front.length + column) = runRight line column := by
  rw [runRight, List.drop_length_add_append, runRight]

omit hblanks in
theorem length_runLeft_le (line : List Char) (column : Nat) :
    (runLeft line column).length ≤ column := by
  rw [runLeft, List.length_reverse]
  refine Nat.le_trans (List.takeWhile_prefix _).length_le ?_
  rw [List.length_reverse, List.length_take]
  exact Nat.min_le_left _ _

/-- The word, `n` columns further on. -/
def Word.moved (word : Word) (n : Nat) : Word :=
  ⟨n + word.start, n + word.stop, word.text⟩

/-- Blanks in front of a line move the word under a cursor that moves with them. -/
theorem wordAt_blanks_append (line : List Char) (column : Nat) :
    wordAt (blanks ++ line) (blanks.length + column) =
      (wordAt line column).map (·.moved blanks.length) := by
  by_cases hc : column ≤ line.length
  · have hleft := runLeft_blanks_append hblanks line column
    have hright := runRight_append blanks line column
    cases hrun : runLeft line column ++ runRight line column with
    | nil =>
      rw [wordAt_of_nil hrun, wordAt_of_nil (by rw [hleft, hright, hrun]), Option.map_none]
    | cons first others =>
      have hlength := length_runLeft_le line column
      rw [wordAt_of_cons hc hrun, wordAt_of_cons (by simpa using hc) (by rw [hleft, hright, hrun]),
        hleft, hright]
      split
      · rfl
      · simp only [Option.map_some, Word.moved, Option.some.injEq, Word.mk.injEq, and_true]
        omega
  · have hlong : (blanks ++ line).length < blanks.length + column := by
      rw [List.length_append]
      omega
    rw [wordAt_of_lt (Nat.not_le.1 hc), wordAt_of_lt hlong, Option.map_none]

/-! ## Occurrences -/

omit hblanks in
/-- Of what stands before the place where the scan starts only matters whether it is free. -/
theorem occurrencesFrom_moved (name : List Char) (n : Nat) (before other : Option Char)
    (h : isFree other = isFree before) (skip column : Nat) (rest : List Char) :
    occurrencesFrom name skip (n + column) other rest =
      (occurrencesFrom name skip column before rest).map (n + ·) := by
  induction rest generalizing skip column before other with
  | nil => simp [occurrencesFrom]
  | cons c rest ih =>
    cases skip with
    | succ skip => rw [occurrencesFrom, occurrencesFrom, Nat.add_assoc, ih _ _ rfl]
    | zero =>
      rw [occurrencesFrom, occurrencesFrom, h, Nat.add_assoc, ih _ _ rfl, ih _ _ rfl]
      split
      · split
        · rfl
        · rfl
      · rfl

theorem occurrencesFrom_blanks_append {name : List Char} (hne : name ≠ [])
    (hid : ∀ c ∈ name, isIdentifierChar c = true) (column : Nat) (before : Option Char)
    (line : List Char) (hbefore : isFree before = true) :
    occurrencesFrom name 0 column before (blanks ++ line) =
      (occurrencesFrom name 0 column none line).map (blanks.length + ·) := by
  induction blanks generalizing column before with
  | nil =>
    have hmoved := occurrencesFrom_moved name 0 none before (by rw [hbefore]; rfl) 0 column line
    rwa [Nat.zero_add] at hmoved
  | cons blank blanks ih =>
    have hblank := isIdentifierChar_of_isBlank (hblanks blank List.mem_cons_self)
    -- The name starts with an identifier character, so no match starts at a blank.
    have hnot : ¬name.isPrefixOf (blank :: (blanks ++ line)) = true := by
      rw [List.isPrefixOf_iff_prefix]
      rintro ⟨back, hback⟩
      obtain ⟨first, others, rfl⟩ := List.exists_cons_of_ne_nil hne
      obtain ⟨rfl, -⟩ := List.cons.inj hback
      rw [hid first List.mem_cons_self] at hblank
      cases hblank
    have hmoved := occurrencesFrom_moved name 1 none none rfl 0 column line
    rw [Nat.add_comm] at hmoved
    rw [List.cons_append, occurrencesFrom, if_neg hnot,
      ih (fun c hc => hblanks c (List.mem_cons_of_mem _ hc)) _ _ (by rw [isFree_iff]; exact hblank),
      hmoved, List.map_map]
    refine List.map_congr_left fun found _ => ?_
    simp only [Function.comp_apply, List.length_cons]
    omega

/-- Blanks in front of a line move the occurrences of a name. -/
theorem occurrences_blanks_append {name : List Char} (hne : name ≠ [])
    (hid : ∀ c ∈ name, isIdentifierChar c = true) (line : List Char) :
    occurrences (blanks ++ line) name = (occurrences line name).map (blanks.length + ·) :=
  occurrencesFrom_blanks_append hblanks hne hid 0 none line rfl

end

theorem occurrences_dropReturn {name : List Char} (hne : name ≠ [])
    (hid : ∀ c ∈ name, isIdentifierChar c = true) (line : List Char) :
    occurrences (dropReturn line) name = occurrences line name := by
  have hmem : ∀ column,
      column ∈ occurrences (dropReturn line) name ↔ column ∈ occurrences line name := by
    intro column
    rw [mem_occurrences hne hid, mem_occurrences hne hid, ← isRun_dropReturn line]
    refine and_congr_right fun hrun => ?_
    rw [extract_prefix_eq (prefix_dropReturn line) hrun.le_length]
  have hshort := pairwise_occurrences (dropReturn line) name
  have hlong := pairwise_occurrences line name
  have hperm :=
    (List.perm_ext_iff_of_nodup (hshort.imp Nat.ne_of_lt) (hlong.imp Nat.ne_of_lt)).2 hmem
  exact hperm.eq_of_pairwise (fun _ _ _ _ hab hba => absurd hba (Nat.lt_asymm hab)) hshort hlong

/-! ## What trimming leaves -/

/-- Trimming stops at a stretch without blanks on both sides of it. -/
theorem trim_around {name : List Char} (hne : name ≠ []) (hname : ∀ c ∈ name, isBlank c = false)
    (front back : List Char) :
    trim (front ++ (name ++ back)) = trimStart front ++ (name ++ trimEnd back) := by
  have hstart : trimStart (front ++ (name ++ back)) = trimStart front ++ (name ++ back) := by
    obtain ⟨first, others, rfl⟩ := List.exists_cons_of_ne_nil hne
    exact dropWhile_append_cons (hname first List.mem_cons_self) front (others ++ back)
  have hend : trimEnd (trimStart front ++ (name ++ back)) =
      trimStart front ++ (name ++ trimEnd back) := by
    obtain ⟨others, last, rfl⟩ : ∃ others last, name = others ++ [last] :=
      ⟨name.dropLast, name.getLast hne, (List.dropLast_concat_getLast hne).symm⟩
    have hlast : isBlank last = false := hname last (by simp)
    have hreversed : (trimStart front ++ (others ++ [last] ++ back)).reverse =
        back.reverse ++ last :: (trimStart front ++ others).reverse := by simp
    rw [trimEnd, hreversed, dropWhile_append_cons hlast, trimEnd]
    simp
  rw [trim, hstart, hend]

/-- A word of a line is still there when the line is trimmed. -/
theorem IsRun.infix_trim {line : List Char} {start stop : Nat} (h : IsRun line start stop) :
    line.extract start stop <:+: trim line := by
  have hcut : line = line.take start ++ (line.extract start stop ++ line.drop stop) := by
    have hlt := h.lt
    rw [List.extract_eq_take_drop, show line.drop stop = (line.drop start).drop (stop - start) by
      rw [List.drop_drop, Nat.add_sub_cancel' (Nat.le_of_lt hlt)], List.take_append_drop,
      List.take_append_drop]
  have hname : ∀ c ∈ line.extract start stop, isBlank c = false := by
    intro c hc
    cases hblank : isBlank c with
    | false => rfl
    | true =>
      have hid := h.runCut.inside c hc
      rw [isIdentifierChar_of_isBlank hblank] at hid
      cases hid
  have htrim := trim_around h.runCut.ne hname (line.take start) (line.drop stop)
  rw [← hcut] at htrim
  exact ⟨_, _, by rw [htrim, List.append_assoc]⟩

end Usages.Text

namespace Usages

open Text

/-! ## Rules and previews -/

section

variable {blanks : List Char} (hblanks : ∀ c ∈ blanks, isBlank c = true)
include hblanks

theorem Classifier.writeRule_blanks_append (classifier : Classifier) (line : List Char)
    (start stop : Nat) :
    classifier.writeRule (blanks ++ line) (blanks.length + start) (blanks.length + stop) =
      classifier.writeRule line start stop := by
  simp only [writeRule, List.length_append, Nat.add_le_add_iff_left, List.take_length_add_append,
    List.drop_length_add_append, trim_blanks_append hblanks]

theorem Classifier.writeRule_append_blanks (classifier : Classifier) (line : List Char)
    {start stop : Nat} (h : stop ≤ line.length) :
    classifier.writeRule (line ++ blanks) start stop = classifier.writeRule line start stop := by
  by_cases hstart : start ≤ stop
  · have hlength : stop ≤ (line ++ blanks).length := by
      rw [List.length_append]
      omega
    rw [writeRule, if_pos ⟨hstart, hlength⟩, writeRule, if_pos ⟨hstart, h⟩,
      List.take_append_of_le_length (by omega), List.drop_append_of_le_length h,
      trim_append_blanks hblanks]
  · rw [writeRule, if_neg (fun h => hstart h.1), writeRule, if_neg (fun h => hstart h.1)]

theorem previewOf_blanks_append (line : List Char) :
    previewOf (blanks ++ line) = previewOf line := by
  rw [previewOf, trim_blanks_append hblanks, previewOf]

end

end Usages
