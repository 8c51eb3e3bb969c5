/-
The highlighted part of a label is the first place where the name stands in it.

Places are counted in characters, by the one who finds the name and by the one who cuts the label
into the text before it, the name and the text behind it. Counting in bytes finds the same place: no
byte inside a character is the first of another, so the bytes of a name occur only where its
characters do (`Text.exists_prefix_of_bytes`).
-/
import Mathlib.Data.List.Infix
import Usages.Cli.Report
import Usages.Proofs.Preview
import Usages.Proofs.Uri

namespace Usages

namespace Text

/-! ## The first occurrence -/

/-- What is found is an occurrence, and none starts before it. -/
theorem indexOf?_eq_some {part text : List Char} {i : Nat} (h : indexOf? part text = some i) :
    (∃ before after, text = before ++ (part ++ after) ∧ before.length = i) ∧
      ∀ j < i, ¬part <+: text.drop j := by
  induction text generalizing i with
  | nil =>
    rw [indexOf?, Option.ite_none_right_eq_some, List.isEmpty_iff] at h
    obtain ⟨rfl, hi⟩ := h
    cases hi
    exact ⟨⟨[], [], rfl, rfl⟩, fun j hj => absurd hj (Nat.not_lt_zero j)⟩
  | cons c rest ih =>
    rw [indexOf?] at h
    split at h
    next hhere =>
      cases h
      obtain ⟨after, hafter⟩ := List.isPrefixOf_iff_prefix.1 hhere
      exact ⟨⟨[], after, hafter.symm, rfl⟩, fun j hj => absurd hj (Nat.not_lt_zero j)⟩
    next hhere =>
      obtain ⟨j, hj, rfl⟩ := Option.map_eq_some_iff.1 h
      obtain ⟨⟨before, after, hcut, hlength⟩, hfirst⟩ := ih hj
      refine ⟨⟨c :: before, after, by rw [hcut]; rfl, by rw [List.length_cons, hlength]⟩, ?_⟩
      intro k hk
      cases k with
      | zero => exact fun hstart => hhere (List.isPrefixOf_iff_prefix.2 hstart)
      | succ k => exact hfirst k (Nat.lt_of_succ_lt_succ hk)

/-! ## Bytes -/

/-- The first byte of a character is no continuation, and all others are. -/
theorem exists_utf8Bytes_eq (c : Char) :
    ∃ lead others, utf8Bytes c = lead :: others ∧ isContinuation lead = false ∧
      ∀ byte ∈ others, isContinuation byte = true := by
  have hcontinues : ∀ n, isContinuation (0x80 + n % 64) = true :=
    fun n => isContinuation_add (Nat.mod_lt n (by decide))
  have hleads : ∀ byte, byte < 0x80 ∨ 0xC0 ≤ byte → isContinuation byte = false := by
    intro byte hbyte
    simp only [isContinuation, Bool.and_eq_false_iff, decide_eq_false_iff_not]
    omega
  simp only [utf8Bytes]
  split
  next h => exact ⟨_, _, rfl, hleads _ (.inl h), by simp⟩
  split
  next => exact ⟨_, _, rfl, hleads _ (.inr (by omega)), by simp [hcontinues]⟩
  split
  next => exact ⟨_, _, rfl, hleads _ (.inr (by omega)), by simp [hcontinues]⟩
  next => exact ⟨_, _, rfl, hleads _ (.inr (by omega)), by simp [hcontinues]⟩

theorem decodeLossy_flatMap_append (text : List Char) (rest : List Nat) :
    decodeLossy (text.flatMap utf8Bytes ++ rest) = text ++ decodeLossy rest := by
  induction text with
  | nil => rfl
  | cons c text ih =>
    rw [List.flatMap_cons, List.append_assoc, decodeLossy_utf8Bytes, ih, List.cons_append]

/-- Texts start alike if their bytes do. -/
theorem prefix_of_bytes {part text : List Char}
    (h : part.flatMap utf8Bytes <+: text.flatMap utf8Bytes) : part <+: text := by
  obtain ⟨rest, hrest⟩ := h
  have hdecoded := congrArg decodeLossy hrest
  rw [decodeLossy_flatMap_append, decodeLossy_flatMap_utf8Bytes] at hdecoded
  exact ⟨decodeLossy rest, hdecoded⟩

/-- The bytes of a text that is not empty occur among those of another only where its characters
do. -/
theorem exists_prefix_of_bytes {part text : List Char} (hne : part ≠ []) {offset : Nat}
    (h : part.flatMap utf8Bytes <+: (text.flatMap utf8Bytes).drop offset) :
    ∃ i, offset = ((text.take i).flatMap utf8Bytes).length ∧ part <+: text.drop i := by
  obtain ⟨first, more, rfl⟩ := List.exists_cons_of_ne_nil hne
  obtain ⟨lead, others, hfirst, hlead, -⟩ := exists_utf8Bytes_eq first
  induction text generalizing offset with
  | nil =>
    rw [List.flatMap_nil, List.drop_nil, List.prefix_nil, List.flatMap_cons, hfirst] at h
    cases h
  | cons c rest ih =>
    have hbytes : (c :: rest).flatMap utf8Bytes = utf8Bytes c ++ rest.flatMap utf8Bytes :=
      List.flatMap_cons
    by_cases hzero : offset = 0
    · rw [hzero] at h
      exact ⟨0, by simpa using hzero, prefix_of_bytes h⟩
    by_cases hbehind : (utf8Bytes c).length ≤ offset
    · obtain ⟨k, rfl⟩ := Nat.exists_eq_add_of_le hbehind
      rw [hbytes, ← List.drop_drop, List.drop_left] at h
      obtain ⟨i, hi, hpart⟩ := ih h
      exact ⟨i + 1, by simp [hi], hpart⟩
    · -- The byte at the offset continues a character, and the text would start with it.
      obtain ⟨lead', others', hc, -, hothers⟩ := exists_utf8Bytes_eq c
      obtain ⟨k, rfl⟩ := Nat.exists_eq_succ_of_ne_zero hzero
      have hk : k < others'.length := by
        rw [hc, List.length_cons] at hbehind
        omega
      rw [hbytes, List.drop_append_of_le_length (by omega), hc, List.drop_succ_cons,
        List.drop_eq_getElem_cons hk, List.flatMap_cons, hfirst, List.cons_append,
        List.cons_append, List.cons_prefix_cons] at h
      rw [h.1, hothers _ (List.getElem_mem hk)] at hlead
      cases hlead

end Text

/-! ## Highlights -/

theorem toList_cut (before word after : String) :
    (before ++ word ++ after).toList = before.toList ++ (word.toList ++ after.toList) := by
  rw [String.toList_append, String.toList_append, List.append_assoc]

/-- A highlight cuts the label around the first occurrence of the name. -/
theorem exists_cut_of_highlightOf {name label : String} {highlight : Highlight}
    (h : highlightOf name label = some highlight) :
    name ≠ "" ∧ ∃ before after : String, label = before ++ name ++ after ∧
      highlight = ⟨before.length, before.length + name.length⟩ ∧
      ∀ i < before.length, ¬name.toList <+: label.toList.drop i := by
  rw [highlightOf, Option.ite_none_left_eq_some, Option.map_eq_some_iff] at h
  obtain ⟨hname, start, hstart, rfl⟩ := h
  obtain ⟨⟨before, after, hcut, rfl⟩, hfirst⟩ := Text.indexOf?_eq_some hstart
  refine ⟨by simpa using hname, String.ofList before, String.ofList after, ?_, ?_, ?_⟩
  · rw [← String.toList_inj, hcut, toList_cut, String.toList_ofList, String.toList_ofList]
  · rw [String.length_ofList]
  · rwa [String.length_ofList]

theorem isSome_highlightOf_iff {name label : String} :
    (highlightOf name label).isSome = true ↔ name ≠ "" ∧ name.toList <:+: label.toList := by
  constructor
  · intro h
    obtain ⟨highlight, hhighlight⟩ := Option.isSome_iff_exists.1 h
    obtain ⟨hname, before, after, hcut, -⟩ := exists_cut_of_highlightOf hhighlight
    refine ⟨hname, before.toList, after.toList, ?_⟩
    rw [hcut, String.toList_append, String.toList_append]
  · rintro ⟨hname, hinfix⟩
    obtain ⟨highlight, hhighlight, -⟩ := highlightOf_of_infix (by simpa using hname) hinfix
    rw [hhighlight]
    rfl

/-- The label is cut where the highlight says. -/
theorem Cli.highlighted_cut (palette : Palette) (before word after : String) :
    highlighted palette (before ++ word ++ after)
        (some ⟨before.length, before.length + word.length⟩) =
      before ++ palette.paint { bold := true, underlined := true } word ++ after := by
  simp only [highlighted, toList_cut, ← String.length_toList, List.take_left, List.drop_left,
    Nat.add_sub_cancel_left, ← List.drop_drop, String.ofList_toList]

/-- **Highlights are exact.** A node has a highlight exactly if the name is not empty and occurs in
the label. The highlighted characters are then the name; no occurrence starts at a smaller
character, nor at a smaller byte; and what is shown is the text before the name, the name in its
style and the text behind it, which together are the label. -/
theorem ReferenceNode.highlight_is_first_occurrence (name : String) (root : Option String)
    (entry : Entry) :
    let node := ofEntry name root entry
    (node.highlight.isSome = true ↔ name ≠ "" ∧ name.toList <:+: node.label.toList) ∧
    ∀ highlight, node.highlight = some highlight →
      (highlight.stop = highlight.start + name.length ∧
        node.label.toList.extract highlight.start highlight.stop = name.toList) ∧
      (∀ i < highlight.start, ¬name.toList <+: node.label.toList.drop i) ∧
      (∀ offset, name.toList.flatMap Text.utf8Bytes <+:
          (node.label.toList.flatMap Text.utf8Bytes).drop offset →
        ((node.label.toList.take highlight.start).flatMap Text.utf8Bytes).length ≤ offset) ∧
      ∃ before after, node.label = before ++ name ++ after ∧ before.length = highlight.start ∧
        ∀ palette, Cli.highlighted palette node.label node.highlight =
          before ++ palette.paint { bold := true, underlined := true } name ++ after := by
  intro node
  refine ⟨isSome_highlightOf_iff, fun highlight hhighlight => ?_⟩
  have hof : highlightOf name node.label = some highlight := hhighlight
  obtain ⟨hname, before, after, hlabel, rfl, hfirst⟩ := exists_cut_of_highlightOf hof
  refine ⟨⟨rfl, ?_⟩, hfirst, fun offset hoffset => ?_, before, after, hlabel, rfl,
    fun palette => ?_⟩
  · simp only [hlabel, toList_cut, List.extract_eq_take_drop, Nat.add_sub_cancel_left,
      ← String.length_toList, List.drop_left, List.take_left]
  · -- The bytes occur where the characters do, and that is not before the first place.
    obtain ⟨i, rfl, hi⟩ := Text.exists_prefix_of_bytes (by simpa using hname) hoffset
    have hle : before.length ≤ i := Nat.le_of_not_lt fun hlt => hfirst i hlt hi
    exact ((List.take_prefix_take_left hle).flatMap Text.utf8Bytes).length_le
  · rw [hhighlight, hlabel]
    exact Cli.highlighted_cut palette before name after

/-- A name of two bytes behind characters of several bytes, of which the last one ends like it. -/
theorem ReferenceNode.highlight_is_first_occurrence_in_accents :
    let entry : Entry := ⟨⟨"/w/a.ts", .onLine 2 9 10⟩, .read, some "日本(ĩ, é + é)"⟩
    let node := ofEntry "é" (some "/w") entry
    let highlight : Highlight := ⟨6, 7⟩
    node.highlight = some highlight ∧
      node.label.toList.extract 6 7 = ['é'] ∧
      (∀ i < 6, ¬['é'] <+: node.label.toList.drop i) ∧
      (∀ offset, [0xC3, 0xA9] <+: (node.label.toList.flatMap Text.utf8Bytes).drop offset →
        11 ≤ offset) ∧
      ∃ before after, node.label = before ++ "é" ++ after ∧ before.length = 6 ∧
        Cli.highlighted .coloured node.label node.highlight =
          before ++ "\x1b[1;4mé\x1b[0m" ++ after := by
  intro entry node highlight
  have hhighlight : node.highlight = some highlight := by decide +kernel
  obtain ⟨⟨-, hspelled⟩, hfirst, hbytes, before, after, hlabel, hlength, hshown⟩ :=
    (highlight_is_first_occurrence "é" (some "/w") entry).2 highlight hhighlight
  have hpaint : Cli.Palette.coloured.paint { bold := true, underlined := true } "é" =
      "\x1b[1;4mé\x1b[0m" := by decide +kernel
  have hname : "é".toList.flatMap Text.utf8Bytes = [0xC3, 0xA9] := by decide +kernel
  have hoffset : ((node.label.toList.take 6).flatMap Text.utf8Bytes).length = 11 := by
    decide +kernel
  refine ⟨hhighlight, hspelled, hfirst, fun offset h => ?_, before, after, hlabel, hlength, ?_⟩
  · rw [← hoffset]
    exact hbytes offset (by rwa [hname])
  rw [← hpaint]
  exact hshown .coloured

end Usages
