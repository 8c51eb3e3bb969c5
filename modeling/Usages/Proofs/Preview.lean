/-
An occurrence as the search sees it and as the cache shows it.

The search cuts a text into `Text.lines`, the cache answers from a `LineIndex`. The two may differ
in a carriage return at the end of a line (`Text.exists_line?_ofText`). It is part of no word and
trimmed away everywhere else, so the cache shows the name at the columns the search gave
(`Occurs.seen`), the rules of the classifier do not tell the two lines apart, and the preview of an
entry has the name in it. `search_and_cache_agree` collects this for all that a search finds.
-/
import Usages.Proofs.Entries
import Usages.Proofs.LineStarts
import Usages.Proofs.Margin
import Usages.Proofs.Tree

namespace Usages

namespace Text

/-! ## The line of an occurrence -/

/-- A line that a reader sees is a line of the index, less blanks at its end. -/
theorem exists_line?_ofText {text line : List Char} {n : Nat} (h : (lines text)[n]? = some line) :
    ∃ shown, (LineIndex.ofText text).line? text n = some shown ∧
      (shown = line ∨ shown = dropReturn line) := by
  refine ⟨_, (LineIndex.line?_ofText text n).trans (getElem?_pieces_of_lines h), ?_⟩
  split
  · exact .inr rfl
  · exact .inl rfl

/-- What a word keeps when the line loses a carriage return at its end. -/
theorem IsRun.of_dropReturn {line shown : List Char} {start stop : Nat} (h : IsRun line start stop)
    (hshown : shown = line ∨ shown = dropReturn line) :
    IsRun shown start stop ∧ shown.extract start stop = line.extract start stop ∧
      ∀ classifier : Classifier,
        classifier.writeRule shown start stop = classifier.writeRule line start stop := by
  rcases hshown with rfl | rfl
  · exact ⟨h, rfl, fun _ => rfl⟩
  · have hrun := (isRun_dropReturn line).2 h
    refine ⟨hrun, extract_prefix_eq (prefix_dropReturn line) hrun.le_length, fun classifier => ?_⟩
    obtain ⟨blanks, hline, hblanks⟩ := exists_eq_dropReturn_append line
    conv => rhs; rw [hline]
    exact (classifier.writeRule_append_blanks hblanks _ hrun.le_length).symm

/-! ## Finding a part again -/

theorem indexOf?_of_infix {part text : List Char} (h : part <:+: text) :
    ∃ i, indexOf? part text = some i ∧ part <+: text.drop i := by
  induction text with
  | nil =>
    rw [List.infix_nil.1 h]
    exact ⟨0, rfl, List.prefix_rfl⟩
  | cons c rest ih =>
    rw [indexOf?]
    split
    next hhere => exact ⟨0, rfl, List.isPrefixOf_iff_prefix.1 hhere⟩
    next hhere =>
      rcases List.infix_cons_iff.1 h with hstart | hlater
      · exact absurd (List.isPrefixOf_iff_prefix.2 hstart) hhere
      · obtain ⟨i, hi, hpart⟩ := ih hlater
        exact ⟨i + 1, by rw [hi]; rfl, hpart⟩

end Text

/-- A name that stands in a label is highlighted there. -/
theorem highlightOf_of_infix {name label : String} (hne : name.toList ≠ [])
    (h : name.toList <:+: label.toList) :
    ∃ highlight, highlightOf name label = some highlight ∧
      label.toList.extract highlight.start highlight.stop = name.toList := by
  obtain ⟨i, hi, back, hback⟩ := Text.indexOf?_of_infix h
  have hempty : name.isEmpty = false := by
    rw [String.isEmpty_eq_false_iff]
    rintro rfl
    exact hne rfl
  refine ⟨⟨i, i + name.length⟩, by simp [highlightOf, hempty, hi], ?_⟩
  rw [List.extract_eq_take_drop, ← hback, Nat.add_sub_cancel_left, ← String.length_toList,
    List.take_left]

theorem previewOf_of_infix {name line : List Char} (hne : name ≠ [])
    (h : name <:+: Text.trim line) :
    previewOf line = some (String.ofList (Text.trim line)) := by
  rw [previewOf]
  split
  next hnil =>
    rw [hnil] at h
    exact absurd (List.infix_nil.1 h) hne
  next => rfl

/-! ## Occurrences in the cache -/

section

variable {read : String → Except SourceError String}

/-- What is seen at a location: the line `line` of its file, which the cache shows as `shown`. -/
structure Seen (read : String → Except SourceError String) (name : List Char) (location : Location)
    (line shown : List Char) : Prop where
  exists_text : ∃ text, read location.file = .ok text ∧
    Text.line? text.toList location.range.start.line = some line
  lineOf : Cache.lineOf read location.file location.range.start.line = .ok shown
  one_line : location.range.stop.line = location.range.start.line
  spelled : shown.extract location.range.start.column location.range.stop.column = name
  same_rule : ∀ classifier : Classifier,
    classifier.writeRule shown location.range.start.column location.range.stop.column =
      classifier.writeRule line location.range.start.column location.range.stop.column
  kept : name <:+: Text.trim shown

theorem Occurs.seen {name : List Char} {location : Location} (h : Occurs read name location) :
    ∃ line shown, Seen read name location line shown := by
  obtain ⟨text, n, line, start, stop, hread, hline, hrun, rfl, hrange⟩ := h
  obtain ⟨file, range⟩ := location
  subst hrange
  obtain ⟨shown, hshown, hcases⟩ := Text.exists_line?_ofText hline
  obtain ⟨hrun', hspelled, hrules⟩ := hrun.of_dropReturn hcases
  refine ⟨line, shown, ⟨text, hread, hline⟩, ?_, rfl, hspelled, hrules, hspelled ▸ hrun'.infix_trim⟩
  simp only [Cache.lineOf, hread, Range.onLine, hshown]

namespace Seen

variable {name line shown : List Char} {location : Location}

theorem lineAt (h : Seen read name location line shown) :
    Usages.lineAt read location = some shown := by
  rw [Usages.lineAt, h.lineOf]
  rfl

theorem preview (h : Seen read name location line shown) (hne : name ≠ [])
    (classifier : Classifier) :
    (entryOf read classifier location).preview = some (String.ofList (Text.trim shown)) := by
  simp only [entryOf, h.lineAt, Option.bind_some]
  exact previewOf_of_infix hne h.kept

theorem kindOf_eq (h : Seen read name location line shown) (classifier : Classifier) :
    classifier.kindOf location.range (some shown) =
      classifier.kindOf location.range (some line) := by
  simp only [Classifier.kindOf, h.one_line, if_true, Classifier.classify, h.same_rule]

/-- The kind of a location by a table that has the text of its file. -/
theorem kindOf_table (h : Seen read name location line shown) (classifier : Classifier)
    {texts : List (String × String)}
    (htexts : texts.lookup location.file = (read location.file).toOption) :
    classifier.kindOf location.range
        (linesOfTexts texts location.file location.range.start.line) =
      classifier.kindOf location.range (Usages.lineAt read location) := by
  obtain ⟨text, hread, hline⟩ := h.exists_text
  have htable : linesOfTexts texts location.file location.range.start.line = some line := by
    rw [linesOfTexts, htexts, hread]
    exact hline
  rw [htable, h.lineAt, h.kindOf_eq]

end Seen

theorem classifyAll_table (classifier : Classifier) (line? : LineReader Id)
    (locations : List Location) :
    classifyAll classifier line? locations = locations.map fun location =>
      ⟨location, classifier.kindOf location.range
        (line? location.file location.range.start.line)⟩ := by
  induction locations with
  | nil => rfl
  | cons location rest ih =>
    rw [classifyAll, ih]
    rfl

/-- Where every location has been seen, lines from a table of the texts and lines from the cache
split a set alike. -/
theorem partition_table (classifier : Classifier) {set : ReferenceSet} {name : List Char}
    (hseen : ∀ location ∈ set.locations, ∃ line shown, Seen read name location line shown)
    {texts : List (String × String)}
    (htexts : ∀ location ∈ set.locations,
      texts.lookup location.file = (read location.file).toOption)
    {cache : Cache} (hcache : cache.Agrees read) (log : List String) :
    (Threading.caching.run (set.partition classifier (Cache.lineReader (.fixed read)))
      (cache, log)).1 = set.partition classifier (linesOfTexts texts) := by
  obtain ⟨after, hkinds, -⟩ := classifyAll_fixed classifier set.references hcache log
  have htable : set.partition classifier (linesOfTexts texts) =
      .ofReferences (classifyAll classifier (linesOfTexts texts) set.references) := rfl
  rw [run_partition, hkinds, htable, classifyAll_table]
  refine congrArg Partition.ofReferences (List.map_congr_left fun location hlocation => ?_)
  have hmem := (ReferenceSet.mem_references.1 hlocation).1
  obtain ⟨line, shown, h⟩ := hseen location hmem
  rw [h.kindOf_table classifier (htexts location hmem)]

theorem Findings.mem_showing {name : String} {classifier : Classifier} {locations : List Location}
    {entry : Entry} :
    entry ∈ (showing read name classifier locations).writes ++
        (showing read name classifier locations).reads ↔
      ∃ location ∈ locations, entryOf read classifier location = entry := by
  rw [showing, mem_ofEntries, List.mem_map]

/-- The node of a location that has been seen has a highlight on the name. -/
theorem Seen.highlight {name : String} {line shown : List Char} {location : Location}
    (h : Seen read name.toList location line shown) (hne : name.toList ≠ [])
    (classifier : Classifier) (root : Option String) :
    ∃ highlight,
      (ReferenceNode.ofEntry name root (entryOf read classifier location)).highlight =
        some highlight ∧
      (ReferenceNode.ofEntry name root (entryOf read classifier location)).label.toList.extract
        highlight.start highlight.stop = name.toList := by
  have hlabel : (ReferenceNode.ofEntry name root (entryOf read classifier location)).label =
      String.ofList (Text.trim shown) := by
    simp only [ReferenceNode.ofEntry, h.preview hne classifier, Option.getD_some]
  have hkept : name.toList <:+: (String.ofList (Text.trim shown)).toList := by
    rw [String.toList_ofList]
    exact h.kept
  rw [← hlabel] at hkept
  exact highlightOf_of_infix hne hkept

end

end Usages
