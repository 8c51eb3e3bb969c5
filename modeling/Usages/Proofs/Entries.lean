/-
A lookup over files that always read the same, as a function of the files.

A cache that agrees with the files answers from them, whatever was asked before. So the entry of a
location depends on its file only (`entryOf`), and the outcome of a lookup can be given without a
cache in it: `findReferences_located` does so for any locator, and `findReferences_fixed` for the
search, where it is the name under the cursor and an entry for each occurrence of the name that does
not cover the cursor. `lookup_symmetric` draws a conclusion: it does not matter which of its
occurrences a name is looked up from.
-/
import Mathlib.Data.List.Basic
import Usages.Proofs.Find

namespace Usages

section

variable {read : String → Except SourceError String}

/-! ## Entries -/

/-- The line a location starts on, if it can be read. -/
def lineAt (read : String → Except SourceError String) (location : Location) :
    Option (List Char) :=
  (Cache.lineOf read location.file location.range.start.line).toOption

/-- The entry of a location, by the line it starts on. -/
def entryOf (read : String → Except SourceError String) (classifier : Classifier)
    (location : Location) : Entry :=
  ⟨location, classifier.kindOf location.range (lineAt read location),
    (lineAt read location).bind previewOf⟩

theorem lineReader_fixed {cache : Cache} (h : cache.Agrees read) (file : String) (n : Nat)
    (log : List String) :
    ∃ after, Threading.caching.run (Cache.lineReader (.fixed read) file n) (cache, log) =
      ((Cache.lineOf read file n).toOption, after) ∧ after.1.Agrees read := by
  obtain ⟨after, hline, hafter⟩ := Cache.line_fixed h file n log
  refine ⟨after, ?_, hafter⟩
  rw [Cache.lineReader, Threading.caching.run_bind, hline, Threading.caching.run_pure]

theorem classifyAll_fixed (classifier : Classifier) (locations : List Location) {cache : Cache}
    (h : cache.Agrees read) (log : List String) :
    ∃ after, Threading.caching.run
        (classifyAll classifier (Cache.lineReader (.fixed read)) locations) (cache, log) =
      (locations.map fun location =>
        ⟨location, classifier.kindOf location.range (lineAt read location)⟩, after) ∧
      after.1.Agrees read := by
  induction locations generalizing cache log with
  | nil => exact ⟨(cache, log), Threading.caching.run_pure _ _, h⟩
  | cons location rest ih =>
    obtain ⟨next, hline, hnext⟩ := lineReader_fixed h location.file location.range.start.line log
    obtain ⟨after, hrest, hafter⟩ := ih hnext next.2
    refine ⟨after, ?_, hafter⟩
    rw [classifyAll, Threading.caching.run_bind, hline, Threading.caching.run_bind, hrest,
      Threading.caching.run_pure]
    rfl

theorem attachPreviews_fixed (references : List Reference) {cache : Cache}
    (h : cache.Agrees read) (log : List String) :
    (Threading.caching.run (attachPreviews (Cache.lineReader (.fixed read)) references)
        (cache, log)).1 =
      references.map fun reference =>
        ⟨reference.location, reference.kind, (lineAt read reference.location).bind previewOf⟩ := by
  induction references generalizing cache log with
  | nil => rfl
  | cons reference rest ih =>
    obtain ⟨next, hline, hnext⟩ :=
      lineReader_fixed h reference.location.file reference.location.range.start.line log
    rw [attachPreviews, Threading.caching.run_bind, hline, Threading.caching.run_bind,
      Threading.caching.run_pure, ih hnext next.2]
    rfl

/-! ## The lookup -/

/-- Reading a line makes the requests of reading its document, and no others. -/
theorem Cache.run_line_snd (source : Source) (file : String) (n : Nat) (s : Cache × List String) :
    (Threading.caching.run (Cache.line source file n) s).2 =
      (Threading.caching.run (Cache.document source file) s).2 := by
  rw [Cache.line, Threading.caching.run_bind]
  cases (Threading.caching.run (Cache.document source file) s).1 with
  | error error => rfl
  | ok found =>
    dsimp only
    cases found.line? n with
    | none => rfl
    | some line => rfl

theorem run_symbolAt_snd (source : Source) (file : String) (position : Position)
    (s : Cache × List String) :
    (Threading.caching.run (symbolAt source file position) s).2 =
      (Threading.caching.run (Cache.document source file) s).2 := by
  rw [symbolAt, Threading.caching.run_bind, ← Cache.run_line_snd source file position.line]
  cases (Threading.caching.run (Cache.line source file position.line) s).1 with
  | error error => cases error <;> rfl
  | ok line =>
    dsimp only
    cases Text.wordAt line position.column with
    | none => rfl
    | some word => rfl

/-- Taking the name under the cursor through a new cache asks for the file of the cursor. -/
theorem symbolAt_empty (read : String → Except SourceError String) (file : String)
    (position : Position) (log : List String) :
    ∃ cache : Cache, Threading.caching.run (symbolAt (.fixed read) file position) ({}, log) =
      (symbolOf read file position, cache, log ++ [file]) ∧ cache.Agrees read := by
  obtain ⟨⟨cache, later⟩, hsymbol, hcache⟩ :=
    symbolAt_fixed (Cache.agrees_empty read) file position log
  have hlog : later = log ++ [file] := by
    have hstate := run_symbolAt_snd (.fixed read) file position ({}, log)
    rw [hsymbol] at hstate
    exact congrArg Prod.snd hstate
  exact ⟨cache, hlog ▸ hsymbol, hcache⟩

/-- The lookup with any locator: what the locator answers is taken as it is, and shown without what
covers the cursor and without repetitions. -/
theorem findReferences_located (read : String → Except SourceError String) (locator : Locator)
    (classifier : Classifier) (file : String) (position : Position) (log : List String) :
    (findReferences locator (.fixed read) classifier file position log).1 =
      symbolOf read file position >>= fun name =>
        (locator file position (log ++ [file])).1 >>= fun locations =>
          if locations = [] then .error .noReferences
          else .ok (.ofEntries name
            ((ReferenceSet.references ⟨name, ⟨file, position⟩, locations⟩).map
              (entryOf read classifier))) := by
  obtain ⟨cache, hname, hcache⟩ := symbolAt_empty read file position log
  rw [findReferences_fst, findThroughCache, Threading.caching.run_bind, hname]
  cases symbolOf read file position with
  | error failure => rfl
  | ok name =>
    simp only [Threading.caching.run_bind, caching_run_lift]
    generalize locator file position (log ++ [file]) = located
    obtain ⟨answer, later⟩ := located
    cases answer with
    | error failure => rfl
    | ok locations =>
      cases locations with
      | nil => rfl
      | cons first rest =>
        -- The cache that took the name is warm, but it agrees with the files and so shows the same.
        simp only [Threading.caching.run_bind, Threading.caching.run_pure, ReferenceSet.classify]
        obtain ⟨after, hkinds, hafter⟩ := classifyAll_fixed classifier
          (ReferenceSet.references ⟨name, ⟨file, position⟩, first :: rest⟩) hcache later
        rw [hkinds, attachPreviews_fixed _ hafter, List.map_map]
        rfl

/-- The name under the cursor is a word of the line the cursor is on. -/
theorem symbolOf_eq_ok {file name : String} {position : Position} :
    symbolOf read file position = .ok name ↔
      ∃ text line word, read file = .ok text ∧
        (Text.lines text.toList)[position.line]? = some line ∧
        Text.wordAt line position.column = some word ∧ word.text = name := by
  constructor
  · intro h
    rw [symbolOf] at h
    split at h
    · cases h
    next text hread =>
      split at h
      · cases h
      next word hword =>
        cases h
        obtain ⟨line, hline, hat⟩ := Option.bind_eq_some_iff.1 hword
        exact ⟨text, line, word, hread, hline, hat, rfl⟩
  · rintro ⟨text, line, word, hread, hline, hword, rfl⟩
    simp only [symbolOf, hread, Text.line?, hline, Option.bind_some, hword]

theorem isIdentifierChar_of_symbolOf {file name : String} {position : Position}
    (h : symbolOf read file position = .ok name) :
    name.toList ≠ [] ∧ ∀ c ∈ name.toList, Text.isIdentifierChar c = true := by
  obtain ⟨text, line, word, -, -, hword, rfl⟩ := symbolOf_eq_ok.1 h
  exact Text.wordAt_text hword

/-- The search succeeds where there is a name, and finds its occurrences. -/
theorem words_eq_ok {files : List String} {file : String} {position : Position}
    {log : List String} {locations : List Location} :
    (Locator.words (.fixed read) files file position log).1 = .ok locations ↔
      ∃ name, symbolOf read file position = .ok name ∧
        locations = Locator.wordsIn read files file name.toList := by
  rw [Locator.words_fixed, symbolOf]
  cases read file with
  | error error => simp
  | ok text =>
    dsimp only
    cases (Text.line? text.toList position.line).bind (Text.wordAt · position.column) with
    | none => simp
    | some word => simp [eq_comm]

/-- The occurrences of a name that do not cover the cursor. -/
def occurrencesBut (read : String → Except SourceError String) (files : List String)
    (file : String) (position : Position) (name : String) : List Location :=
  (Locator.wordsIn read files file name.toList).filter
    fun location => !location.contains ⟨file, position⟩

theorem references_wordsIn (read : String → Except SourceError String) (files : List String)
    (file : String) (position : Position) (name : String) :
    ReferenceSet.references
        ⟨name, ⟨file, position⟩, Locator.wordsIn read files file name.toList⟩ =
      occurrencesBut read files file position name := by
  have hordered := Locator.pairwise_wordsIn read files file name.toList
  exact ReferenceSet.firstCopies_of_nodup ((hordered.imp Location.Before.ne).filter _) (by simp)

/-- **The lookup, computed.** It fails where there is no name under the cursor, and shows the
occurrences of the name but the one under the cursor. -/
theorem findReferences_fixed (read : String → Except SourceError String) (files : List String)
    (classifier : Classifier) (file : String) (position : Position) (log : List String) :
    (findReferences (Locator.words (.fixed read) files) (.fixed read) classifier file position
        log).1 =
      (symbolOf read file position).map fun name =>
        .ofEntries name
          ((occurrencesBut read files file position name).map (entryOf read classifier)) := by
  rw [findReferences_located]
  cases hsymbol : symbolOf read file position with
  | error failure => rfl
  | ok name =>
    obtain ⟨text, line, word, hread, hline, hword, rfl⟩ := symbolOf_eq_ok.1 hsymbol
    obtain ⟨front, back, hcut, -⟩ := exists_cut_under_cursor hread hline hword files
    have hne : Locator.wordsIn read files file word.text.toList ≠ [] := by simp [hcut]
    have hlocate : (Locator.words (.fixed read) files file position (log ++ [file])).1 =
        .ok (Locator.wordsIn read files file word.text.toList) :=
      words_eq_ok.2 ⟨_, hsymbol, rfl⟩
    rw [hlocate]
    simp only [Except.map, ← references_wordsIn]
    exact if_neg hne

/-! ## Looking up from another occurrence -/

theorem Locator.candidates_of_mem {files : List String} {file other : String} (hfile : file ∈ files)
    (hother : other ∈ files) : candidates files other = candidates files file := by
  refine eq_of_ascending (pairwise_candidates _ _) (pairwise_candidates _ _) fun candidate => ?_
  simp only [mem_candidates, List.mem_cons]
  constructor
  · rintro (rfl | h)
    · exact .inr hother
    · exact .inr h
  · rintro (rfl | h)
    · exact .inr hfile
    · exact .inr h

/-- Exactly one occurrence of the name under a cursor covers the cursor. -/
theorem exists_under_cursor {file name : String} {position : Position}
    (h : symbolOf read file position = .ok name) (files : List String) :
    ∃ under ∈ Locator.wordsIn read files file name.toList,
      under.contains ⟨file, position⟩ = true ∧
      ∀ other ∈ Locator.wordsIn read files file name.toList,
        other.contains ⟨file, position⟩ = true → other = under := by
  obtain ⟨text, line, word, hread, hline, hword, rfl⟩ := symbolOf_eq_ok.1 h
  obtain ⟨front, back, hcut, hothers⟩ := exists_cut_under_cursor hread hline hword files
  rw [hcut]
  refine ⟨word.locationIn file position.line, by simp, contains_word hword, ?_⟩
  intro other hother hcovers
  rcases List.mem_cons.1 (List.perm_middle.mem_iff.1 hother) with rfl | hother
  · rfl
  · rw [hothers other hother] at hcovers
    cases hcovers

theorem occurrencesBut_eq_filter {file name : String} {position : Position} {files : List String}
    {under : Location} (h : symbolOf read file position = .ok name)
    (hunder : under ∈ Locator.wordsIn read files file name.toList)
    (hcovers : under.contains ⟨file, position⟩ = true) :
    occurrencesBut read files file position name =
      (Locator.wordsIn read files file name.toList).filter (· ≠ under) := by
  obtain ⟨only, -, -, hunique⟩ := exists_under_cursor h files
  obtain rfl := hunique under hunder hcovers
  refine List.filter_congr fun other hother => ?_
  by_cases heq : other = under
  · simp [heq, hcovers]
  · have hnot : other.contains ⟨file, position⟩ = false :=
      Bool.eq_false_iff.2 fun hcontains => heq (hunique other hother hcontains)
    simp [heq, hnot]

/-- At every column that touches an occurrence of a name, the name is under the cursor. -/
theorem symbolOf_of_mem_wordsIn {file name : String} {position : Position} {files : List String}
    (h : symbolOf read file position = .ok name) {location : Location}
    (hlocation : location ∈ Locator.wordsIn read files file name.toList) {column : Nat}
    (hstart : location.range.start.column ≤ column) (hstop : column ≤ location.range.stop.column) :
    symbolOf read location.file ⟨location.range.start.line, column⟩ = .ok name ∧
      location.contains ⟨location.file, ⟨location.range.start.line, column⟩⟩ = true := by
  obtain ⟨text, line, word, -, -, hword, rfl⟩ := symbolOf_eq_ok.1 h
  obtain ⟨hne, hid⟩ := Text.wordAt_text hword
  obtain ⟨-, -, hdigit, htext⟩ := Text.wordAt_eq_some_iff.1 hword
  obtain ⟨-, text', n, line', start, stop, hread, hline, hrun, hname, hrange⟩ :=
    (Locator.mem_wordsIn hne hid).1 hlocation
  obtain ⟨found, range⟩ := location
  subst hrange
  refine ⟨symbolOf_eq_ok.2 ⟨text', line', ⟨start, stop, word.text⟩, hread, hline, ?_, rfl⟩,
    Location.contains_onLine.2 ⟨rfl, rfl, hstart, hstop⟩⟩
  -- The name starts with the same character here and under the first cursor.
  have hfirst : Text.digitAt line' start = false := by
    obtain ⟨first, others, hcons⟩ := List.exists_cons_of_ne_nil hne
    rw [Text.digitAt_of_extract (hname.trans hcons)]
    rw [htext, String.toList_ofList] at hcons
    rwa [Text.digitAt_of_extract hcons] at hdigit
  refine Text.wordAt_eq_some_iff.2 ⟨hrun, ⟨hstart, hstop⟩, hfirst, ?_⟩
  rw [hname, String.ofList_toList]

namespace Findings

variable (read) (name : String) (classifier : Classifier) (locations : List Location)

/-- What a lookup shows of some locations. -/
def showing : Findings :=
  .ofEntries name (locations.map (entryOf read classifier))

theorem partition_showing_perm :
    ((showing read name classifier locations).partition.writes ++
      (showing read name classifier locations).partition.reads).Perm locations := by
  have hperm := partition_ofEntries_perm name (locations.map (entryOf read classifier))
  rw [List.map_map] at hperm
  exact hperm.trans (.of_eq (List.map_id _))

theorem filter_entries (kind : Kind) (location : Location) :
    ((locations.map (entryOf read classifier)).filter (·.kind = kind)).filter
        (·.location ≠ location) =
      ((locations.filter (· ≠ location)).map (entryOf read classifier)).filter (·.kind = kind) := by
  rw [List.filter_comm, List.filter_map]
  rfl

end Findings

/-- A lookup in which a known occurrence covers the cursor. -/
theorem findReferences_under {file name : String} {position : Position} {files : List String}
    {under : Location} (h : symbolOf read file position = .ok name)
    (hunder : under ∈ Locator.wordsIn read files file name.toList)
    (hcovers : under.contains ⟨file, position⟩ = true) (classifier : Classifier)
    (log : List String) :
    (findReferences (Locator.words (.fixed read) files) (.fixed read) classifier file position
        log).1 =
      .ok (.showing read name classifier
        ((Locator.wordsIn read files file name.toList).filter (· ≠ under))) := by
  rw [findReferences_fixed, h, ← occurrencesBut_eq_filter h hunder hcovers]
  rfl

/-- **A lookup is symmetric in the occurrences of the name.** From any of them, at any column that
touches it, the search finds the same locations, and the lookup shows the same name and the same
entries, but for the occurrence under the cursor, which each leaves out. -/
theorem lookup_symmetric (classifier : Classifier) {files : List String} {file : String}
    {position : Position} {log : List String} {locations : List Location} (hfile : file ∈ files)
    (hlocate : (Locator.words (.fixed read) files file position log).1 = .ok locations) :
    ∃ under findings, under ∈ locations ∧ under.contains ⟨file, position⟩ = true ∧
      (∀ log, (findReferences (Locator.words (.fixed read) files) (.fixed read) classifier file
        position log).1 = .ok findings) ∧
      (findings.partition.writes ++ findings.partition.reads).Perm (locations.erase under) ∧
      ∀ location ∈ locations, ∀ column, location.range.start.column ≤ column →
        column ≤ location.range.stop.column → ∀ log,
          (Locator.words (.fixed read) files location.file
            ⟨location.range.start.line, column⟩ log).1 = .ok locations ∧
          ∃ other, (findReferences (Locator.words (.fixed read) files) (.fixed read) classifier
              location.file ⟨location.range.start.line, column⟩ log).1 = .ok other ∧
            other.symbolName = findings.symbolName ∧
            (other.partition.writes ++ other.partition.reads).Perm (locations.erase location) ∧
            other.writes.filter (·.location ≠ under) =
              findings.writes.filter (·.location ≠ location) ∧
            other.reads.filter (·.location ≠ under) =
              findings.reads.filter (·.location ≠ location) := by
  obtain ⟨name, hsymbol, rfl⟩ := words_eq_ok.1 hlocate
  obtain ⟨under, hunder, hcovers, -⟩ := exists_under_cursor hsymbol files
  have hnodup : (Locator.wordsIn read files file name.toList).Nodup :=
    (Locator.pairwise_wordsIn read files file name.toList).imp Location.Before.ne
  have hleft : ∀ location,
      (Locator.wordsIn read files file name.toList).erase location =
        (Locator.wordsIn read files file name.toList).filter (· ≠ location) := by
    intro location
    rw [hnodup.erase_eq_filter]
    exact List.filter_congr fun other _ => by by_cases h : other = location <;> simp [h]
  refine ⟨under, _, hunder, hcovers, findReferences_under hsymbol hunder hcovers classifier,
    hleft under ▸ Findings.partition_showing_perm read name classifier _, ?_⟩
  intro location hlocation column hstart hstop log
  obtain ⟨hsymbol', hcovers'⟩ := symbolOf_of_mem_wordsIn hsymbol hlocation hstart hstop
  have hother : location.file ∈ files := by
    rcases List.mem_cons.1 (Locator.file_mem_of_mem_words hlocate hlocation) with heq | hmem
    · exact heq ▸ hfile
    · exact hmem
  -- The same files are searched from there.
  have hsame : Locator.wordsIn read files location.file name.toList =
      Locator.wordsIn read files file name.toList := by
    rw [Locator.wordsIn, Locator.candidates_of_mem hfile hother, Locator.wordsIn]
  have hfound := findReferences_under hsymbol' (hsame ▸ hlocation) hcovers' classifier log
  rw [hsame] at hfound
  refine ⟨words_eq_ok.2 ⟨name, hsymbol', hsame.symm⟩, _, hfound, rfl,
    hleft location ▸ Findings.partition_showing_perm read name classifier _, ?_, ?_⟩
  · simp only [Findings.showing, Findings.ofEntries, Findings.filter_entries]
    rw [List.filter_comm]
  · simp only [Findings.showing, Findings.ofEntries, Findings.filter_entries]
    rw [List.filter_comm]

end

/-- From a declaration to a use in another file, with the cursor just behind the name. -/
theorem lookup_symmetric_behind_name :
    let read : String → Except SourceError String := fun file =>
      if file = "a" then .ok "let x1 = 0;\r\n" else if file = "b" then .ok "f(x, x1)"
      else .error (.notFound file)
    let locations : List Location := [⟨"a", .onLine 0 4 6⟩, ⟨"b", .onLine 0 5 7⟩]
    "a" ∈ ["c", "b", "a"] ∧
      (Locator.words (.fixed read) ["c", "b", "a"] "a" ⟨0, 4⟩ []).1 = .ok locations ∧
      (Locator.words (.fixed read) ["c", "b", "a"] "b" ⟨0, 7⟩ []).1 = .ok locations ∧
      ∃ other, (findReferences (Locator.words (.fixed read) ["c", "b", "a"]) (.fixed read) .default
          "b" ⟨0, 7⟩ []).1 = .ok other ∧
        (other.partition.writes ++ other.partition.reads).Perm [⟨"a", .onLine 0 4 6⟩] := by
  intro read locations
  have hfile : "a" ∈ ["c", "b", "a"] := by decide
  have hlocate : (Locator.words (.fixed read) ["c", "b", "a"] "a" ⟨0, 4⟩ []).1 = .ok locations := by
    decide +kernel
  obtain ⟨under, findings, -, -, -, -, hothers⟩ := lookup_symmetric .default hfile hlocate
  obtain ⟨hsame, other, hother, -, hperm, -⟩ :=
    hothers ⟨"b", .onLine 0 5 7⟩ (by decide) 7 (by decide) (by decide) []
  exact ⟨hfile, hlocate, hsame, other, hother, hperm⟩

end Usages
