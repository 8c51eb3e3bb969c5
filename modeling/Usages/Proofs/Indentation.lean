/-
A lookup does not depend on how lines are indented.

An `Indentation` chooses blanks for the front of every line of every file, and moves positions with
them. Both views of the lines of a text come from its pieces, and on pieces each part of a lookup
moves along: the word under the cursor, the occurrences on a line, the entry of a location, and
which occurrence covers the cursor. So `lookup_reindented` says of the whole lookup that it finds
what it found before, with the columns moved, and that a tree of it reads the same.
-/
import Usages.Proofs.Entries
import Usages.Proofs.Except
import Usages.Proofs.Margin
import Usages.Proofs.Tree

namespace Usages

namespace Text

/-! ## Pieces -/

/-- The text with `front n` before line `n`. -/
def reindent (front : Nat → List Char) (text : List Char) : List Char :=
  ['\n'].intercalate ((pieces text).mapIdx fun n piece => front n ++ piece)

theorem pieces_reindent {front : Nat → List Char} (hfront : ∀ n, '\n' ∉ front n)
    (text : List Char) :
    pieces (reindent front text) = (pieces text).mapIdx fun n piece => front n ++ piece := by
  rw [pieces_eq_splitOn (reindent front text)]
  refine List.splitOn_intercalate '\n' (fun line hline => ?_) (by simpa using pieces_ne_nil text)
  obtain ⟨n, hn, rfl⟩ := List.mem_mapIdx.1 hline
  rw [List.mem_append, not_or]
  exact ⟨hfront n, newline_not_mem_of_mem_pieces (List.getElem_mem hn)⟩

/-- The word under a cursor, by the pieces of the text. -/
theorem bind_wordAt_pieces (text : List Char) (n column : Nat) :
    (line? text n).bind (wordAt · column) = (pieces text)[n]?.bind (wordAt · column) := by
  rw [← bind_wordAt_line?, LineIndex.line?_ofText]
  cases (pieces text)[n]? with
  | none => rfl
  | some piece => exact wordAt_dropReturn piece column

theorem dropReturn_append {blanks : List Char} (h : '\r' ∉ blanks) (line : List Char) :
    dropReturn (blanks ++ line) = blanks ++ dropReturn line := by
  cases line with
  | nil =>
    have hlast : blanks.getLast? ≠ some '\r' := fun hlast => h (List.mem_of_getLast? hlast)
    simp [dropReturn, hlast]
  | cons c rest =>
    simp only [dropReturn, List.getLast?_append_cons]
    split
    · rw [List.dropLast_append_cons]
    · rfl

end Text

/-- The occurrences in a text, by its pieces. -/
theorem Locator.inText_eq {name : List Char} (hne : name ≠ [])
    (hid : ∀ c ∈ name, Text.isIdentifierChar c = true) (file text : String) :
    inText file name text = inLines file name 0 (Text.pieces text.toList) := by
  rw [inText]
  generalize text.toList = chars
  generalize 0 = n
  induction chars using Text.piecesInduction generalizing n with
  | last piece h =>
    rw [Text.lines_last h, Text.pieces_last h]
    split
    next hnil =>
      subst hnil
      rfl
    next => rfl
  | more piece rest h ih =>
    rw [Text.lines_more h, Text.pieces_more h, inLines, inLines, ih,
      Text.occurrences_dropReturn hne hid]

/-! ## Moving along -/

/-- Blanks for the front of each line of each file. -/
structure Indentation where
  front : (file : String) → (line : Nat) → List Char
  blank : ∀ file line, ∀ c ∈ front file line, c = ' ' ∨ c = '\t'

namespace Indentation

variable (indentation : Indentation)

/-- The files with their lines indented further. -/
def reread (read : String → Except SourceError String) : String → Except SourceError String :=
  fun file => (read file).map fun text =>
    String.ofList (Text.reindent (indentation.front file) text.toList)

def movePosition (file : String) (position : Position) : Position :=
  ⟨position.line, (indentation.front file position.line).length + position.column⟩

def moveLocation (location : Location) : Location :=
  ⟨location.file, indentation.movePosition location.file location.range.start,
    indentation.movePosition location.file location.range.stop⟩

def moveEntry (entry : Entry) : Entry :=
  { entry with location := indentation.moveLocation entry.location }

def moveFindings (findings : Findings) : Findings :=
  { findings with
    writes := findings.writes.map indentation.moveEntry
    reads := findings.reads.map indentation.moveEntry }

theorem isBlank_front (file : String) (line : Nat) :
    ∀ c ∈ indentation.front file line, Text.isBlank c = true := by
  intro c hc
  rcases indentation.blank file line c hc with rfl | rfl
  · decide
  · decide

theorem not_mem_front (file : String) (line : Nat) {c : Char} (hspace : c ≠ ' ')
    (htab : c ≠ '\t') : c ∉ indentation.front file line := by
  intro h
  rcases indentation.blank file line c h with heq | heq
  · exact hspace heq
  · exact htab heq

theorem movePosition_le_iff {file : String} {p q : Position} :
    indentation.movePosition file p ≤ indentation.movePosition file q ↔ p ≤ q := by
  simp only [Position.le_iff, movePosition]
  refine or_congr_right (and_congr_right fun hline => ?_)
  rw [hline, Nat.add_le_add_iff_left]

/-- What covers a cursor covers it when both have moved. -/
theorem contains_moveLocation (location : Location) (file : String) (position : Position) :
    (indentation.moveLocation location).contains ⟨file, indentation.movePosition file position⟩ =
      location.contains ⟨file, position⟩ := by
  by_cases hfile : location.file = file
  · subst hfile
    simp only [Location.contains, moveLocation, Range.contains, movePosition_le_iff]
  · have hfalse : (location.file == file) = false := by simpa using hfile
    simp only [Location.contains, moveLocation, hfalse, Bool.false_and]

/-! ## Parts of a lookup -/

section

variable {read : String → Except SourceError String}

theorem reread_eq_ok {file text : String} (h : read file = .ok text) :
    ∃ moved, indentation.reread read file = .ok moved ∧
      Text.pieces moved.toList = (Text.pieces text.toList).mapIdx
        fun n piece => indentation.front file n ++ piece := by
  refine ⟨_, by rw [reread, h]; rfl, ?_⟩
  rw [String.toList_ofList]
  refine Text.pieces_reindent (fun line => ?_) text.toList
  exact indentation.not_mem_front file line (by decide) (by decide)

theorem reread_eq_error {file : String} {error : SourceError} (h : read file = .error error) :
    indentation.reread read file = .error error := by
  rw [reread, h]
  rfl

/-- The name under the cursor is the same. -/
theorem toOption_symbolOf_reread (file : String) (position : Position) :
    (symbolOf (indentation.reread read) file (indentation.movePosition file position)).toOption =
      (symbolOf read file position).toOption := by
  cases hread : read file with
  | error error =>
    simp only [symbolOf, hread, indentation.reread_eq_error hread, Except.toOption]
  | ok text =>
    obtain ⟨moved, hmoved, hpieces⟩ := indentation.reread_eq_ok hread
    have hword : (Text.line? moved.toList position.line).bind
        (Text.wordAt · (indentation.movePosition file position).column) =
        ((Text.line? text.toList position.line).bind (Text.wordAt · position.column)).map
          (·.moved (indentation.front file position.line).length) := by
      rw [Text.bind_wordAt_pieces, Text.bind_wordAt_pieces, hpieces, List.getElem?_mapIdx]
      cases (Text.pieces text.toList)[position.line]? with
      | none => rfl
      | some piece =>
        exact Text.wordAt_blanks_append (indentation.isBlank_front file position.line) piece
          position.column
    simp only [symbolOf, hread, hmoved]
    rw [show (indentation.movePosition file position).line = position.line from rfl, hword]
    cases (Text.line? text.toList position.line).bind (Text.wordAt · position.column) with
    | none => rfl
    | some word => rfl

theorem inLines_moved {name : List Char} (hne : name ≠ [])
    (hid : ∀ c ∈ name, Text.isIdentifierChar c = true) (file : String) (lines : List (List Char))
    (n : Nat) :
    Locator.inLines file name n
        (lines.mapIdx fun i line => indentation.front file (n + i) ++ line) =
      (Locator.inLines file name n lines).map indentation.moveLocation := by
  induction lines generalizing n with
  | nil => rfl
  | cons line rest ih =>
    have hrest := ih (n + 1)
    simp only [Nat.add_right_comm n 1, Nat.add_assoc] at hrest
    rw [List.mapIdx_cons, Locator.inLines, Locator.inLines, List.map_append, hrest, Nat.add_zero,
      Text.occurrences_blanks_append (indentation.isBlank_front file n) hne hid, List.map_map,
      List.map_map]
    refine congrArg (· ++ _) (List.map_congr_left fun start _ => ?_)
    simp [moveLocation, movePosition, Range.onLine, Nat.add_assoc]

theorem wordsIn_reread {name : List Char} (hne : name ≠ [])
    (hid : ∀ c ∈ name, Text.isIdentifierChar c = true) (files : List String) (file : String) :
    Locator.wordsIn (indentation.reread read) files file name =
      (Locator.wordsIn read files file name).map indentation.moveLocation := by
  rw [Locator.wordsIn, Locator.wordsIn, List.map_flatMap]
  refine List.flatMap_congr fun candidate _ => ?_
  cases hread : read candidate with
  | error error =>
    simp only [Locator.inFile, hread, indentation.reread_eq_error hread, List.map_nil]
  | ok text =>
    obtain ⟨moved, hmoved, hpieces⟩ := indentation.reread_eq_ok hread
    have hlines := indentation.inLines_moved hne hid candidate (Text.pieces text.toList) 0
    simp only [Nat.zero_add] at hlines
    simp only [Locator.inFile, hread, hmoved, Locator.inText_eq hne hid, hpieces, hlines]

theorem occurrencesBut_reread {name : String} (hne : name.toList ≠ [])
    (hid : ∀ c ∈ name.toList, Text.isIdentifierChar c = true) (files : List String) (file : String)
    (position : Position) :
    occurrencesBut (indentation.reread read) files file (indentation.movePosition file position)
        name =
      (occurrencesBut read files file position name).map indentation.moveLocation := by
  rw [occurrencesBut, indentation.wordsIn_reread hne hid, List.filter_map, occurrencesBut]
  simp only [Function.comp_def, contains_moveLocation]

theorem lineAt_reread (location : Location) :
    lineAt (indentation.reread read) (indentation.moveLocation location) =
      (lineAt read location).map
        (indentation.front location.file location.range.start.line ++ ·) := by
  rw [lineAt, lineAt, Cache.lineOf, Cache.lineOf]
  cases hread : read location.file with
  | error error =>
    have hmoved := indentation.reread_eq_error hread
    simp only [moveLocation, hmoved]
    rfl
  | ok text =>
    obtain ⟨moved, hmoved, hpieces⟩ := indentation.reread_eq_ok hread
    simp only [moveLocation, movePosition, hmoved, LineIndex.line?_ofText, hpieces,
      List.getElem?_mapIdx]
    cases (Text.pieces text.toList)[location.range.start.line]? with
    | none => rfl
    | some piece =>
      simp only [Option.map_some, Except.toOption]
      rw [Text.dropReturn_append (indentation.not_mem_front _ _ (by decide) (by decide))]

theorem kindOf_moveLocation (classifier : Classifier) (location : Location)
    (line? : Option (List Char)) :
    classifier.kindOf (indentation.moveLocation location).range
        (line?.map (indentation.front location.file location.range.start.line ++ ·)) =
      classifier.kindOf location.range line? := by
  cases line? with
  | none => rfl
  | some line =>
    have hblank := indentation.isBlank_front location.file location.range.start.line
    by_cases hline : location.range.stop.line = location.range.start.line
    · simp [Classifier.kindOf, Classifier.classify, moveLocation, movePosition, hline,
        classifier.writeRule_blanks_append hblank]
    · simp [Classifier.kindOf, Classifier.classify, moveLocation, movePosition, hline,
        classifier.writeRule_blanks_append hblank]

theorem entryOf_reread (classifier : Classifier) (location : Location) :
    entryOf (indentation.reread read) classifier (indentation.moveLocation location) =
      indentation.moveEntry (entryOf read classifier location) := by
  rw [entryOf, lineAt_reread, kindOf_moveLocation, entryOf, moveEntry]
  refine congrArg (Entry.mk _ _) ?_
  cases lineAt read location with
  | none => rfl
  | some line => exact previewOf_blanks_append (indentation.isBlank_front _ _) line

end

theorem ofEntries_map_moveEntry (name : String) (entries : List Entry) :
    Findings.ofEntries name (entries.map indentation.moveEntry) =
      indentation.moveFindings (.ofEntries name entries) := by
  simp only [Findings.ofEntries, moveFindings, List.filter_map]
  rfl

/-! ## Trees -/

/-- The entries of a file, moved. -/
def moveGroup (group : String × List Entry) : String × List Entry :=
  (group.1, group.2.map indentation.moveEntry)

theorem addToFile_moveEntry (entry : Entry) (files : List (String × List Entry)) :
    addToFile (indentation.moveEntry entry) (files.map indentation.moveGroup) =
      (addToFile entry files).map indentation.moveGroup := by
  induction files with
  | nil => rfl
  | cons first rest ih =>
    obtain ⟨file, entries⟩ := first
    by_cases hfile : file = entry.location.file
    · simp [addToFile, moveGroup, moveEntry, moveLocation, hfile]
    · have hmoved : (indentation.moveEntry entry).location.file = entry.location.file := rfl
      simp [addToFile, moveGroup, hmoved, hfile, ih]

theorem entriesByFile_map_moveEntry (entries : List Entry) :
    entriesByFile (entries.map indentation.moveEntry) =
      (entriesByFile entries).map indentation.moveGroup := by
  have hfold : ∀ files : List (String × List Entry),
      (entries.map indentation.moveEntry).foldl (fun files entry => addToFile entry files)
          (files.map indentation.moveGroup) =
        (entries.foldl (fun files entry => addToFile entry files) files).map
          indentation.moveGroup := by
    induction entries with
    | nil => intro files; rfl
    | cons entry rest ih =>
      intro files
      rw [List.map_cons, List.foldl_cons, List.foldl_cons, addToFile_moveEntry, ih]
  exact hfold []

theorem groupText_map_moveEntry (kind : Kind) (name : String) (options : DisplayOptions)
    (root : Option String) (entries : List Entry) :
    Tree.groupText (.ofEntries kind name options root (entries.map indentation.moveEntry)) =
      Tree.groupText (.ofEntries kind name options root entries) := by
  -- A line shows the label and the description of a node, and neither has a column in it.
  have hlines : ∀ (depth : Nat) (entries : List Entry),
      ((entries.map indentation.moveEntry).map (ReferenceNode.ofEntry name root)).map
          (Tree.referenceLine depth) =
        (entries.map (ReferenceNode.ofEntry name root)).map (Tree.referenceLine depth) := by
    intro depth entries
    rw [List.map_map, List.map_map, List.map_map]
    rfl
  cases hgroup : options.groupByFile with
  | false => simp only [GroupNode.ofEntries, hgroup, Tree.groupText, List.length_map, hlines,
      Bool.false_eq_true, if_false]
  | true =>
    simp only [GroupNode.ofEntries, hgroup, Tree.groupText, List.length_map, if_true,
      entriesByFile_map_moveEntry, List.map_map]
    refine congrArg (_ ++ String.join ·) (List.map_congr_left fun group _ => ?_)
    simp only [Function.comp_apply, Tree.fileText, moveGroup, List.length_map, hlines]

/-- A tree shows no columns. -/
theorem text_moveFindings (findings : Findings) (options : DisplayOptions) (root : Option String) :
    (Tree.ofFindings (indentation.moveFindings findings) options root).text =
      (Tree.ofFindings findings options root).text := by
  have hsummary : (indentation.moveFindings findings).summary = findings.summary := by
    simp only [Findings.summary, moveFindings, List.length_map]
  rw [Tree.text, Tree.text, Tree.groups_ofFindings, Tree.groups_ofFindings, Tree.ofFindings,
    Tree.ofFindings, hsummary]
  simp only [moveFindings, List.isEmpty_map]
  cases findings.writes.isEmpty <;> cases findings.reads.isEmpty <;>
    simp [groupText_map_moveEntry]

/-- The outcome of a lookup moves with the lines. -/
theorem toOption_findReferences_reread (read : String → Except SourceError String)
    (files : List String) (classifier : Classifier) (file : String) (position : Position)
    (log : List String) :
    (findReferences (Locator.words (.fixed (indentation.reread read)) files)
        (.fixed (indentation.reread read)) classifier file (indentation.movePosition file position)
        log).1.toOption =
      (findReferences (Locator.words (.fixed read) files) (.fixed read) classifier file position
        log).1.toOption.map indentation.moveFindings := by
  rw [findReferences_fixed, findReferences_fixed, toOption_map, toOption_map,
    toOption_symbolOf_reread, Option.map_map]
  refine Option.map_congr fun name hname => ?_
  have hsymbol : symbolOf read file position = .ok name := toOption_eq_some.1 hname
  obtain ⟨_, _, word, -, -, hword, rfl⟩ := symbolOf_eq_ok.1 hsymbol
  obtain ⟨hne, hid⟩ := Text.wordAt_text hword
  rw [Function.comp_apply, ← ofEntries_map_moveEntry, indentation.occurrencesBut_reread hne hid,
    List.map_map, List.map_map]
  refine congrArg (Findings.ofEntries _) (List.map_congr_left fun location _ => ?_)
  exact indentation.entryOf_reread classifier location

end Indentation

/-- **A lookup does not depend on indentation.** With blanks put in front of every line and the
cursor moved with its line, a lookup succeeds if it did before. It then has the same name, and the
same writes and reads in the same order, with the same kinds and previews and each column moved with
its line. A tree of the findings reads the same under all options and from every root. -/
theorem lookup_reindented (indentation : Indentation) (read : String → Except SourceError String)
    (files : List String) (classifier : Classifier) (file : String) (position : Position)
    (log : List String) :
    let outcome := (findReferences (Locator.words (.fixed read) files) (.fixed read) classifier
      file position log).1
    let moved := (findReferences (Locator.words (.fixed (indentation.reread read)) files)
      (.fixed (indentation.reread read)) classifier file (indentation.movePosition file position)
      log).1
    ((∃ findings, moved = .ok findings) ↔ ∃ findings, outcome = .ok findings) ∧
      ∀ findings, outcome = .ok findings → moved = .ok (indentation.moveFindings findings) ∧
        ∀ options root, (Tree.ofFindings (indentation.moveFindings findings) options root).text =
          (Tree.ofFindings findings options root).text := by
  intro outcome moved
  have hmoved : moved.toOption = outcome.toOption.map indentation.moveFindings :=
    indentation.toOption_findReferences_reread read files classifier file position log
  cases houtcome : outcome with
  | error failure =>
    rw [houtcome] at hmoved
    have hnone : ∀ findings, moved ≠ .ok findings := by
      intro findings hok
      rw [hok] at hmoved
      cases hmoved
    simp [hnone]
  | ok findings =>
    rw [houtcome] at hmoved
    have hok : moved = .ok (indentation.moveFindings findings) :=
      toOption_eq_some.1 hmoved
    refine ⟨⟨fun _ => ⟨_, rfl⟩, fun _ => ⟨_, hok⟩⟩, fun other hother => ?_⟩
    obtain rfl := Except.ok.inj hother
    exact ⟨hok, indentation.text_moveFindings findings⟩

/-- Two files, in which each line is indented in its own way, by spaces and tabs. -/
theorem lookup_reindented_by_spaces_and_tabs :
    let read : String → Except SourceError String := fun file =>
      .ok (if file == "a.ts" then "let n = 1;\nn++;" else "f(n);")
    let indentation : Indentation :=
      { front := fun file line =>
          if file == "a.ts" then ' ' :: List.replicate line '\t' else ['\t', '\t', ' ']
        blank := fun file line c hc => by
          by_cases hfile : file == "a.ts"
          · simp only [hfile, if_true, List.mem_cons, List.mem_replicate] at hc
            exact hc.imp_right And.right
          · simp only [hfile, Bool.false_eq_true, if_false, List.mem_cons, List.not_mem_nil,
              or_false] at hc
            rcases hc with hc | hc | hc
            · exact .inr hc
            · exact .inr hc
            · exact .inl hc }
    indentation.reread read "a.ts" = .ok " let n = 1;\n \tn++;" ∧
      indentation.reread read "b.ts" = .ok "\t\t f(n);" ∧
      (findReferences (Locator.words (.fixed (indentation.reread read)) ["b.ts"])
        (.fixed (indentation.reread read)) .default "a.ts" ⟨0, 5⟩ []).1 =
          .ok ⟨"n", [⟨⟨"a.ts", .onLine 1 2 3⟩, .write, some "n++;"⟩],
            [⟨⟨"b.ts", .onLine 0 5 6⟩, .read, some "f(n);"⟩]⟩ := by
  intro read indentation
  have houtcome : (findReferences (Locator.words (.fixed read) ["b.ts"]) (.fixed read) .default
      "a.ts" ⟨0, 4⟩ []).1 =
        .ok ⟨"n", [⟨⟨"a.ts", .onLine 1 0 1⟩, .write, some "n++;"⟩],
          [⟨⟨"b.ts", .onLine 0 2 3⟩, .read, some "f(n);"⟩]⟩ :=
    toOption_eq_some.1 (by decide +kernel)
  obtain ⟨-, hmoved⟩ :=
    lookup_reindented indentation read ["b.ts"] .default "a.ts" ⟨0, 4⟩ []
  exact ⟨toOption_eq_some.1 (by decide +kernel), toOption_eq_some.1 (by decide +kernel),
    (hmoved _ houtcome).1⟩

end Usages
