/-
What a search for whole words finds, when every file always reads the same.

The search is then a function of the files: `words_fixed` gives its answer and the requests it
makes. `words_finds_exactly` says which locations the answer has and in which order. Both follow
the layers of the search: the columns on a line (`Text.mem_occurrences`), the lines of a text
(`mem_inLines`), the text of a file (`mem_inFile`) and the ascending list of files
(`mem_candidates`, `pairwise_candidates`).
-/
import Usages.Locate
import Usages.Proofs.Word

namespace Usages

/-- Reading order of locations: by file, then by line, then by the column they start at. -/
def Location.Before (location other : Location) : Prop :=
  location.file < other.file ∨ location.file = other.file ∧
    (location.range.start.line < other.range.start.line ∨
      location.range.start.line = other.range.start.line ∧
        location.range.start.column < other.range.start.column)

theorem Location.Before.ne {location other : Location} (h : location.Before other) :
    location ≠ other := by
  rintro rfl
  rcases h with h | ⟨-, h | ⟨-, h⟩⟩
  · exact String.lt_irrefl _ h
  · exact Nat.lt_irrefl _ h
  · exact Nat.lt_irrefl _ h

/-- The location is a run of identifier characters that spells the name, on a line of its file. -/
def Occurs (read : String → Except SourceError String) (name : List Char) (location : Location) :
    Prop :=
  ∃ text n line start stop, read location.file = .ok text ∧
    (Text.lines text.toList)[n]? = some line ∧
    Text.IsRun line start stop ∧ line.extract start stop = name ∧
    location.range = .onLine n start stop

namespace Locator

/-! ## The files to search -/

theorem mem_insertName {name other : String} {names : List String} :
    other ∈ insertName name names ↔ other = name ∨ other ∈ names := by
  induction names with
  | nil => simp [insertName]
  | cons first rest ih =>
    rw [insertName]
    split
    · simp
    split
    next heq => subst heq; simp
    next => rw [List.mem_cons, ih, List.mem_cons]; exact or_left_comm

theorem pairwise_insertName {name : String} {names : List String} (h : names.Pairwise (· < ·)) :
    (insertName name names).Pairwise (· < ·) := by
  induction names with
  | nil => simp [insertName]
  | cons first rest ih =>
    obtain ⟨hfirst, hrest⟩ := List.pairwise_cons.1 h
    rw [insertName]
    split
    next hlt =>
      refine List.pairwise_cons.2 ⟨fun other hother => ?_, h⟩
      rcases List.mem_cons.1 hother with rfl | hother
      · exact hlt
      · exact String.lt_trans hlt (hfirst other hother)
    next hnot =>
      split
      · exact h
      next hne =>
        refine List.pairwise_cons.2 ⟨fun other hother => ?_, ih hrest⟩
        rcases mem_insertName.1 hother with rfl | hother
        · exact String.not_le.1 fun hle => hne (String.le_antisymm hle (String.not_lt.1 hnot))
        · exact hfirst other hother

theorem mem_candidates {files : List String} {origin file : String} :
    file ∈ candidates files origin ↔ file ∈ origin :: files := by
  rw [candidates]
  induction origin :: files with
  | nil => simp
  | cons first rest ih => rw [List.foldr_cons, mem_insertName, ih, List.mem_cons]

theorem pairwise_candidates (files : List String) (origin : String) :
    (candidates files origin).Pairwise (· < ·) := by
  rw [candidates]
  induction origin :: files with
  | nil => exact .nil
  | cons first rest ih => exact pairwise_insertName ih

/-- An ascending list is known by its members. -/
theorem eq_of_ascending {names others : List String} (h : names.Pairwise (· < ·))
    (h' : others.Pairwise (· < ·)) (hmem : ∀ name, name ∈ names ↔ name ∈ others) :
    names = others := by
  have hperm : names.Perm others :=
    (List.perm_ext_iff_of_nodup (h.imp String.ne_of_lt) (h'.imp String.ne_of_lt)).2 hmem
  exact hperm.eq_of_pairwise (fun _ _ _ _ hab hba => absurd hba (String.lt_asymm hab)) h h'

/-- The order and the repetitions of the list of files do not show. -/
theorem candidates_congr {files others : List String} {origin : String}
    (h : ∀ file, file ∈ origin :: files ↔ file ∈ origin :: others) :
    candidates files origin = candidates others origin :=
  eq_of_ascending (pairwise_candidates files origin) (pairwise_candidates others origin)
    fun file => by rw [mem_candidates, mem_candidates, h]

/-! ## One file -/

theorem mem_inLines {file : String} {name : List Char} {location : Location}
    {lines : List (List Char)} {n : Nat} :
    location ∈ inLines file name n lines ↔
      ∃ i line start, lines[i]? = some line ∧ start ∈ Text.occurrences line name ∧
        location = ⟨file, .onLine (n + i) start (start + name.length)⟩ := by
  induction lines generalizing n with
  | nil => simp [inLines]
  | cons first rest ih =>
    rw [inLines, List.mem_append, List.mem_map, ih]
    constructor
    · rintro (⟨start, hstart, rfl⟩ | ⟨i, line, start, hline, hstart, rfl⟩)
      · exact ⟨0, first, start, rfl, hstart, rfl⟩
      · exact ⟨i + 1, line, start, by simpa using hline, hstart,
          by rw [Nat.add_assoc, Nat.add_comm 1]⟩
    · rintro ⟨i, line, start, hline, hstart, rfl⟩
      cases i with
      | zero =>
        obtain rfl : first = line := by simpa using hline
        exact .inl ⟨start, hstart, rfl⟩
      | succ i =>
        exact .inr ⟨i, line, start, by simpa using hline, hstart,
          by rw [Nat.add_assoc, Nat.add_comm 1]⟩

theorem pairwise_inLines (file : String) (name : List Char) (lines : List (List Char)) (n : Nat) :
    (inLines file name n lines).Pairwise Location.Before := by
  induction lines generalizing n with
  | nil => exact .nil
  | cons first rest ih =>
    rw [inLines]
    refine List.pairwise_append.2 ⟨?_, ih (n + 1), ?_⟩
    · refine List.pairwise_map.2 ((Text.pairwise_occurrences first name).imp fun h => ?_)
      exact .inr ⟨rfl, .inr ⟨rfl, h⟩⟩
    · intro location hlocation other hother
      obtain ⟨start, -, rfl⟩ := List.mem_map.1 hlocation
      obtain ⟨i, line, start', -, -, rfl⟩ := mem_inLines.1 hother
      refine .inr ⟨rfl, .inl ?_⟩
      simp only [Range.onLine]
      omega

/-- Whole-word occurrences in one file; there are none in a file that cannot be read. -/
def inFile (read : String → Except SourceError String) (name : List Char) (file : String) :
    List Location :=
  match read file with
  | .ok text => inText file name text
  | .error _ => []

theorem mem_inFile {read : String → Except SourceError String} {name : List Char} {file : String}
    {location : Location} (hne : name ≠ []) (hid : ∀ c ∈ name, Text.isIdentifierChar c = true) :
    location ∈ inFile read name file ↔ location.file = file ∧ Occurs read name location := by
  rw [inFile]
  constructor
  · intro h
    split at h
    next text htext =>
      obtain ⟨n, line, start, hline, hstart, rfl⟩ := mem_inLines.1 h
      obtain ⟨hrun, hname⟩ := (Text.mem_occurrences hne hid).1 hstart
      exact ⟨rfl, text, n, line, start, _, htext, hline, hrun, hname, by rw [Nat.zero_add]⟩
    · simp at h
  · rintro ⟨rfl, text, n, line, start, stop, htext, hline, hrun, hname, hrange⟩
    have hstop : stop = start + name.length := by
      have := hrun.lt
      have := hrun.le_length
      rw [← hname]
      simp only [List.extract_eq_take_drop, List.length_take, List.length_drop]
      omega
    subst hstop
    rw [htext]
    refine mem_inLines.2 ⟨n, line, start, hline, (Text.mem_occurrences hne hid).2 ⟨hrun, hname⟩, ?_⟩
    rw [Nat.zero_add, ← hrange]

theorem file_of_mem_inFile {read : String → Except SourceError String} {name : List Char}
    {file : String} {location : Location} (h : location ∈ inFile read name file) :
    location.file = file := by
  rw [inFile] at h
  split at h
  · obtain ⟨_, _, _, _, _, rfl⟩ := mem_inLines.1 h
    rfl
  · simp at h

theorem pairwise_inFile (read : String → Except SourceError String) (name : List Char)
    (file : String) : (inFile read name file).Pairwise Location.Before := by
  rw [inFile]
  split
  · exact pairwise_inLines _ _ _ _
  · exact .nil

/-! ## The search -/

@[simp] theorem fetch_fixed (read : String → Except SourceError String) (file : String)
    (log : List String) : (Source.fixed read).fetch file log = (read file, log ++ [file]) := rfl

/-- A step without a request. -/
theorem pure_fetching {α : Type} (a : α) (log : List String) :
    (pure a : Fetching α) log = (a, log) := rfl

/-- Searching files one after another: what is found in each, and a request for each but the
origin. -/
theorem inFiles_fixed {read : String → Except SourceError String} {origin originText : String}
    (horigin : read origin = .ok originText) (name : List Char) (files log : List String) :
    inFiles (.fixed read) name origin originText files log =
      (files.flatMap (inFile read name), log ++ files.filter (· ≠ origin)) := by
  induction files generalizing log with
  | nil => simp [inFiles, pure_fetching]
  | cons file rest ih =>
    by_cases hfile : file = origin
    · subst hfile
      simp [inFiles, inFile, horigin, ih, bind, StateT.bind, pure_fetching]
    · cases hread : read file with
      | ok text =>
        simp [inFiles, inFile, hfile, hread, ih, bind, StateT.bind, pure_fetching]
      | error error =>
        simp [inFiles, inFile, hfile, hread, ih, bind, StateT.bind, pure_fetching]

/-- The whole-word occurrences in a list of files and the origin, in the order of the search. -/
def wordsIn (read : String → Except SourceError String) (files : List String) (origin : String)
    (name : List Char) : List Location :=
  (candidates files origin).flatMap (inFile read name)

/-- The answer of a search and the requests it makes. -/
theorem words_fixed (read : String → Except SourceError String) (files : List String)
    (file : String) (position : Position) (log : List String) :
    words (.fixed read) files file position log =
      match read file with
      | .error error => (.error (.source error), log ++ [file])
      | .ok text =>
        match (Text.line? text.toList position.line).bind (Text.wordAt · position.column) with
        | none => (.error (.noSymbolAt file position), log ++ [file])
        | some word =>
          (.ok (wordsIn read files file word.text.toList),
            log ++ [file] ++ (candidates files file).filter (· ≠ file)) := by
  cases hread : read file with
  | error error =>
    simp [words, bind, StateT.bind, hread, pure_fetching]
  | ok text =>
    have hline : Text.wordAt ((Text.line? text.toList position.line).getD []) position.column =
        (Text.line? text.toList position.line).bind (Text.wordAt · position.column) := by
      cases Text.line? text.toList position.line with
      | none => simp
      | some line => rfl
    simp only [words, bind, StateT.bind, fetch_fixed, hread, hline]
    split
    next hnone => simp [hnone, pure_fetching]
    next word hsome =>
      simp [hsome, wordsIn, Functor.map, StateT.map, bind, inFiles_fixed hread, pure]

theorem mem_wordsIn {read : String → Except SourceError String} {files : List String}
    {origin : String} {name : List Char} {location : Location} (hne : name ≠ [])
    (hid : ∀ c ∈ name, Text.isIdentifierChar c = true) :
    location ∈ wordsIn read files origin name ↔
      location.file ∈ origin :: files ∧ Occurs read name location := by
  rw [wordsIn, List.mem_flatMap]
  constructor
  · rintro ⟨file, hfile, hlocation⟩
    obtain ⟨rfl, hoccurs⟩ := (mem_inFile hne hid).1 hlocation
    exact ⟨mem_candidates.1 hfile, hoccurs⟩
  · rintro ⟨hfile, hoccurs⟩
    exact ⟨location.file, mem_candidates.2 hfile, (mem_inFile hne hid).2 ⟨rfl, hoccurs⟩⟩

/-- Locations are found in the files that are searched. -/
theorem file_mem_of_mem_words {read : String → Except SourceError String} {files : List String}
    {file : String} {position : Position} {log : List String} {locations : List Location}
    (h : (words (.fixed read) files file position log).1 = .ok locations) {location : Location}
    (hlocation : location ∈ locations) : location.file ∈ file :: files := by
  rw [words_fixed] at h
  split at h
  · cases h
  · split at h
    · cases h
    · cases h
      obtain ⟨candidate, hcandidate, hlocation⟩ := List.mem_flatMap.1 hlocation
      rw [file_of_mem_inFile hlocation]
      exact mem_candidates.1 hcandidate

theorem pairwise_wordsIn (read : String → Except SourceError String) (files : List String)
    (origin : String) (name : List Char) :
    (wordsIn read files origin name).Pairwise Location.Before := by
  rw [wordsIn, List.pairwise_flatMap]
  refine ⟨fun file _ => pairwise_inFile read name file, ?_⟩
  refine (pairwise_candidates files origin).imp fun hlt location hlocation other hother => .inl ?_
  rw [file_of_mem_inFile hlocation, file_of_mem_inFile hother]
  exact hlt

/-- **The search for whole words is exact.** With a word under the cursor it succeeds; it finds
exactly the runs of identifier characters that spell the word, in the files that can be read; the
locations ascend by file, line and column, so that none comes twice; and of the list of files only
the members count. -/
theorem words_finds_exactly (read : String → Except SourceError String) (files : List String)
    (file : String) (position : Position) (log : List String) {text : String} {line : List Char}
    {word : Text.Word} (hread : read file = .ok text)
    (hline : (Text.lines text.toList)[position.line]? = some line)
    (hword : Text.wordAt line position.column = some word) :
    ∃ found, (words (.fixed read) files file position log).1 = .ok found ∧
      (∀ location, location ∈ found ↔
        location.file ∈ file :: files ∧ Occurs read word.text.toList location) ∧
      found.Pairwise Location.Before ∧ found.Nodup ∧
      ∀ others, (∀ other, other ∈ file :: others ↔ other ∈ file :: files) →
        (words (.fixed read) others file position log).1 = .ok found := by
  have hanswer : ∀ others, (words (.fixed read) others file position log).1 =
      .ok (wordsIn read others file word.text.toList) := by
    intro others
    rw [words_fixed]
    simp only [hread, Text.line?, hline, Option.bind_some, hword]
  obtain ⟨hne, hid⟩ := Text.wordAt_text hword
  have hsorted := pairwise_wordsIn read files file word.text.toList
  refine ⟨wordsIn read files file word.text.toList, hanswer files,
    fun location => mem_wordsIn hne hid, hsorted, hsorted.imp Location.Before.ne,
    fun others hothers => ?_⟩
  rw [hanswer, wordsIn, candidates_congr hothers, wordsIn]

/-- In `aaa aa` the match inside the first word does not count, and the second word is found. -/
theorem words_finds_exactly_behind_overlap :
    ∃ found, (words
        (.fixed fun file => if file = "a" then .ok "aaa aa" else .error (.notFound file))
        ["b", "a"] "a" ⟨0, 5⟩ []).1 = .ok found ∧
      ⟨"a", .onLine 0 4 6⟩ ∈ found ∧ ⟨"a", .onLine 0 0 2⟩ ∉ found ∧ found.Nodup := by
  have hword : Text.wordAt ['a', 'a', 'a', ' ', 'a', 'a'] 5 = some ⟨4, 6, "aa"⟩ := by decide
  obtain ⟨found, hfound, hmem, -, hnodup, -⟩ :=
    words_finds_exactly (fun file => if file = "a" then .ok "aaa aa" else .error (.notFound file))
      ["b", "a"] "a" ⟨0, 5⟩ [] rfl rfl hword
  refine ⟨found, hfound, (hmem _).2 ⟨by simp, "aaa aa", 0, _, 4, 6, rfl, rfl, ?_, rfl, rfl⟩, ?_,
    hnodup⟩
  · exact (Text.wordAt_eq_some_iff.1 hword).1
  · intro h
    obtain ⟨-, text, n, line, start, stop, htext, hline, hrun, -, hrange⟩ := (hmem _).1 h
    simp only [Range.onLine, Range.mk.injEq, Position.mk.injEq] at hrange
    obtain ⟨⟨rfl, rfl⟩, -, rfl⟩ := hrange
    obtain rfl : "aaa aa" = text := by simpa using htext
    obtain rfl : ['a', 'a', 'a', ' ', 'a', 'a'] = line := Option.some.inj hline
    exact absurd hrun.after (by decide)

end Locator

end Usages
