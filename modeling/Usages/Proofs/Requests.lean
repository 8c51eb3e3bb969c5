/-
The files a lookup asks for, in front of a source that may change.

A lookup reads the file of the cursor, hands over to the search, and then reads the lines of what
was found. The first and the last go through its cache, so `Caching.Asks` accounts for them. The
search has no cache, but asks for each file once: whatever the source answers in one pass, a source
that does not change could have answered (`Locator.exists_read_words`). So the search may be treated
as one over fixed files, and its locations ascend. `findReferences_requests` lists the requests of
the whole lookup.
-/
import Usages.Proofs.Except
import Usages.Proofs.Snapshot

namespace Usages

/-! ## The search -/

namespace Locator

/-- Two sources that agree on each file when the pass comes to it. -/
theorem inFiles_congr {source other : Source} {name : List Char} {origin originText : String}
    {files log : List String}
    (h : ∀ before file after, files = before ++ file :: after → file ≠ origin →
      source.answer (log ++ before.filter (· ≠ origin)) file =
        other.answer (log ++ before.filter (· ≠ origin)) file) :
    inFiles source name origin originText files log =
      inFiles other name origin originText files log := by
  induction files generalizing log with
  | nil => rfl
  | cons file rest ih =>
    by_cases hfile : file = origin
    · have hrest : inFiles source name origin originText rest log =
          inFiles other name origin originText rest log := by
        refine ih fun before next after hcut hnext => ?_
        have hagree := h (file :: before) next after (by rw [hcut]; rfl) hnext
        simpa [hfile] using hagree
      simp [inFiles, hfile, hrest, bind, StateT.bind, pure_fetching]
    · have hanswer : source.answer log file = other.answer log file := by
        simpa using h [] file rest rfl hfile
      have hrest : inFiles source name origin originText rest (log ++ [file]) =
          inFiles other name origin originText rest (log ++ [file]) := by
        refine ih fun before next after hcut hnext => ?_
        have hagree := h (file :: before) next after (by rw [hcut]; rfl) hnext
        simpa [hfile] using hagree
      simp [inFiles, hfile, hanswer, hrest, Source.fetch, bind, StateT.bind, pure]

/-- A pass over files that are all different takes any source for one that does not change. -/
theorem exists_read_inFiles (source : Source) (name : List Char) (origin originText : String)
    {files : List String} (hnodup : files.Nodup) (log : List String) :
    ∃ read : String → Except SourceError String, read origin = .ok originText ∧
      inFiles source name origin originText files log =
        inFiles (.fixed read) name origin originText files log := by
  refine ⟨fun file => if file = origin then .ok originText
    else source.answer (log ++ (files.takeWhile (· ≠ file)).filter (· ≠ origin)) file, by simp, ?_⟩
  refine inFiles_congr fun before file after hcut hfile => ?_
  have hnot : file ∉ before := by
    intro hmem
    rw [hcut] at hnodup
    exact (List.nodup_append.1 hnodup).2.2 file hmem file List.mem_cons_self rfl
  have hbefore : files.takeWhile (· ≠ file) = before := by
    rw [hcut, takeWhile_ne_of_cut hnot]
  show _ = if file = origin then _ else _
  rw [if_neg hfile, hbefore]

/-- One search takes any source for one that does not change. -/
theorem exists_read_words (source : Source) (files : List String) (file : String)
    (position : Position) (log : List String) :
    ∃ read : String → Except SourceError String, read file = source.answer log file ∧
      words source files file position log = words (.fixed read) files file position log := by
  cases horigin : source.answer log file with
  | error error =>
    refine ⟨fun _ => .error error, rfl, ?_⟩
    simp [words, Source.fetch, Source.fixed, horigin, bind, StateT.bind]
  | ok text =>
    cases hword : Text.wordAt ((Text.line? text.toList position.line).getD []) position.column with
    | none =>
      refine ⟨fun _ => .ok text, rfl, ?_⟩
      simp [words, Source.fetch, Source.fixed, horigin, hword, bind, StateT.bind]
    | some word =>
      have hnodup : (candidates files file).Nodup :=
        (pairwise_candidates files file).imp String.ne_of_lt
      obtain ⟨read, hread, hpass⟩ :=
        exists_read_inFiles source word.text.toList file text hnodup (log ++ [file])
      refine ⟨read, hread, ?_⟩
      simp only [words, bind, StateT.bind, Source.fetch, horigin, hword, Functor.map, StateT.map,
        hpass, show (Source.fixed read).answer log file = .ok text from hread]

end Locator

/-! ## Reading through the cache -/

namespace Caching.Asks

theorem symbolAt (source : Source) (file : String) (position : Position) :
    Asks (Usages.symbolAt source file position) [file] := by
  rw [Usages.symbolAt, ← List.append_nil [file]]
  refine (line source file position.line).bind fun s => ?_
  cases (Threading.caching.run (Cache.line source file position.line) s).1 with
  | error error => cases error <;> exact pure _
  | ok line =>
    dsimp only
    cases Text.wordAt line position.column with
    | none => exact pure _
    | some word => exact pure _

theorem classifyAll (source : Source) (classifier : Classifier) (locations : List Location) :
    Asks (Usages.classifyAll classifier (Cache.lineReader source) locations)
      (locations.map (·.file)) := by
  induction locations with
  | nil => exact pure _
  | cons location rest ih => exact (lineReader source _ _).bind fun _ => ih.map _

theorem attachPreviews (source : Source) (references : List Reference) :
    Asks (Usages.attachPreviews (Cache.lineReader source) references)
      (references.map (·.location.file)) := by
  induction references with
  | nil => exact pure _
  | cons reference rest ih => exact (lineReader source _ _).bind fun _ => ih.map _

/-- What is asked for again is known. -/
theorem again {α : Type} {x : Caching α} {asked : List String} (h : Asks x (asked ++ asked)) :
    Asks x asked := by
  intro cache log
  have hknown : unknown (cache.files ++ unknown cache.files asked) asked = [] := by
    refine unknown_of_subset fun name hname => ?_
    by_cases hfiles : name ∈ cache.files
    · exact List.mem_append_left _ hfiles
    · exact List.mem_append_right _ (mem_unknown.2 ⟨hname, hfiles⟩)
  have hrun := h cache log
  rwa [unknown_append, hknown, List.append_nil] at hrun

/-- Making entries of the references reads each line twice, for the kind and for the preview. -/
theorem entries {α : Type} (source : Source) (classifier : Classifier) (set : ReferenceSet)
    (result : List Entry → α) :
    Asks (do
        let references ← set.classify classifier (Cache.lineReader source)
        let entries ← Usages.attachPreviews (Cache.lineReader source) references
        return result entries)
      (set.references.map (·.file)) := by
  refine again ((classifyAll source classifier set.references).bind fun s => ?_)
  have hfiles := congrArg (List.map (·.file))
    (map_location_classifyAll Threading.caching (Cache.lineReader source) classifier
      set.references s)
  rw [List.map_map] at hfiles
  rw [← hfiles]
  exact (attachPreviews source _).map result

end Caching.Asks

/-- The name under the cursor is taken from the first answer for the file. -/
theorem run_symbolAt_first (source : Source) (file : String) (position : Position)
    (log : List String) :
    ∃ cache : Cache, Threading.caching.run (symbolAt source file position) ({}, log) =
        (symbolOf (source.answer log) file position, cache, log ++ [file]) ∧
      cache.files = [file] := by
  let first : Source := .fixed (source.answer log)
  have hline : Threading.caching.run (Cache.line source file position.line) ({}, log) =
      Threading.caching.run (Cache.line first file position.line) ({}, log) :=
    Cache.run_line_congr (fun _ => rfl) position.line
  have hsame : Threading.caching.run (symbolAt source file position) ({}, log) =
      Threading.caching.run (symbolAt first file position) ({}, log) := by
    rw [symbolAt, Threading.caching.run_bind, hline, symbolAt, Threading.caching.run_bind]
  obtain ⟨cache, hrun, -⟩ := symbolAt_empty (source.answer log) file position log
  obtain ⟨hfiles, -⟩ := Caching.Asks.symbolAt source file position {} log
  rw [hsame, hrun] at hfiles
  exact ⟨cache, hsame.trans hrun, hfiles⟩

/-- With a name and some locations, a lookup asks for the files of the references among them. -/
theorem run_findThroughCache_state {locator : Locator} {source : Source} (classifier : Classifier)
    {file name : String} {position : Position} {s : Cache × List String} {cache : Cache}
    {asked later : List String} {locations : List Location}
    (hsymbol : Threading.caching.run (symbolAt source file position) s = (.ok name, cache, asked))
    (hlocate : locator file position asked = (.ok locations, later)) (hne : locations ≠ []) :
    let found := (ReferenceSet.references ⟨name, ⟨file, position⟩, locations⟩).map (·.file)
    let after :=
      (Threading.caching.run (findThroughCache locator source classifier file position) s).2
    after.1.files = cache.files ++ unknown cache.files found ∧
      after.2 = later ++ unknown cache.files found := by
  intro found after
  obtain ⟨first, rest, rfl⟩ := List.exists_cons_of_ne_nil hne
  have hentries := Caching.Asks.entries source classifier ⟨name, ⟨file, position⟩, first :: rest⟩
    (fun entries => (.ok (.ofEntries name entries) : Except Failure Findings)) cache later
  simp only [after, findThroughCache, Threading.caching.run_bind, hsymbol, caching_run_lift,
    hlocate]
  exact hentries

/-! ## The whole lookup -/

/-- The answer for the file, after these requests, is a text with a word at the position. -/
def Source.ShowsWord (source : Source) (log : List String) (file : String) (position : Position) :
    Prop :=
  ∃ text, source.answer log file = .ok text ∧ WordTouches text position

theorem exists_symbolOf_iff {read : String → Except SourceError String} {file : String}
    {position : Position} :
    (∃ name, symbolOf read file position = .ok name) ↔
      ∃ text, read file = .ok text ∧ WordTouches text position := by
  simp only [symbolOf_eq_ok, wordTouches_iff]
  constructor
  · rintro ⟨name, text, line, word, hread, hline, hword, -⟩
    exact ⟨text, hread, line, word, hline, hword⟩
  · rintro ⟨text, hread, line, word, hline, hword⟩
    exact ⟨word.text, text, line, word, hread, hline, hword, rfl⟩

theorem words_of_symbol {read : String → Except SourceError String} {file name : String}
    {position : Position} (h : symbolOf read file position = .ok name) (files log : List String) :
    Locator.words (.fixed read) files file position log =
      (.ok (Locator.wordsIn read files file name.toList),
        log ++ file :: (Locator.candidates files file).filter (· ≠ file)) := by
  obtain ⟨text, line, word, hread, hline, hword, rfl⟩ := symbolOf_eq_ok.1 h
  rw [Locator.words_fixed]
  simp [hread, Text.line?, hline, hword]

theorem words_of_no_symbol {read : String → Except SourceError String} {file : String}
    {position : Position} (h : ¬∃ name, symbolOf read file position = .ok name)
    (files log : List String) :
    ∃ failure, Locator.words (.fixed read) files file position log =
      (.error failure, log ++ [file]) := by
  rw [Locator.words_fixed]
  cases hread : read file with
  | error error => exact ⟨_, rfl⟩
  | ok text =>
    rw [exists_symbolOf_iff] at h
    have hnone := bind_wordAt_eq_none_iff.2 fun hword => h ⟨text, hread, hword⟩
    simp only [hnone]
    exact ⟨_, rfl⟩

theorem findReferences_run (locator : Locator) (source : Source) (classifier : Classifier)
    (file : String) (position : Position) (log : List String) :
    findReferences locator source classifier file position log =
      let lookup := Threading.caching.run (findThroughCache locator source classifier file position)
        ({}, log)
      (lookup.1, lookup.2.2) := rfl

/-- Names that do not descend ascend once repetitions are left out. -/
theorem pairwise_unknown {known asked : List String} (h : asked.Pairwise (· ≤ ·)) :
    (unknown known asked).Pairwise (· < ·) := by
  have hsublist : (unknown known asked).Sublist asked :=
    (eraseDups_sublist _).trans List.filter_sublist
  refine ((h.sublist hsublist).and (nodup_eraseDups _)).imp fun hboth => ?_
  exact String.not_le.1 fun hle => hboth.2 (String.le_antisymm hboth.1 hle)

/-- The references of a search stand in files that do not descend. -/
theorem pairwise_file_references {locations : List Location}
    (h : locations.Pairwise Location.Before) (name : String) (definition : Site) :
    ((ReferenceSet.references ⟨name, definition, locations⟩).map (·.file)).Pairwise (· ≤ ·) := by
  rw [List.pairwise_map]
  refine (h.sublist (ReferenceSet.references_sublist ⟨name, definition, locations⟩)).imp ?_
  intro location other hbefore
  rcases hbefore with hlt | ⟨heq, -⟩
  · exact String.not_lt.1 (String.lt_asymm hlt)
  · exact heq ▸ String.le_refl _

theorem count_requests_le {file : String} {others shown : List String}
    (hothers : (file :: others).Nodup) (hshown : (file :: shown).Nodup) (other : String) :
    ([file] ++ file :: others ++ shown).count other ≤ 2 := by
  have hperm : ([file] ++ file :: others ++ shown).Perm (file :: others ++ file :: shown) :=
    List.perm_middle.symm
  have hleft := List.nodup_iff_count_le_one.1 hothers other
  have hright := List.nodup_iff_count_le_one.1 hshown other
  rw [hperm.count_eq, List.count_append]
  omega

section

variable (source : Source) (files : List String) (classifier : Classifier) (file : String)
  (position : Position) (log : List String)

theorem findReferences_of_not_showsWord (h : ¬source.ShowsWord log file position) :
    ∃ failure, findReferences (Locator.words source files) source classifier file position log =
      (.error failure, log ++ [file]) := by
  obtain ⟨cache, hsymbol, -⟩ := run_symbolAt_first source file position log
  cases hname : symbolOf (source.answer log) file position with
  | ok name => exact absurd (exists_symbolOf_iff.1 ⟨name, hname⟩) h
  | error failure =>
    rw [hname] at hsymbol
    refine ⟨failure, ?_⟩
    rw [findReferences_run]
    simp only [findThroughCache, Threading.caching.run_bind, hsymbol, Threading.caching.run_pure]

/-- The search asks for the file of the cursor again, and may find it changed. -/
theorem findReferences_of_changed (h : source.ShowsWord log file position)
    (hagain : ¬source.ShowsWord (log ++ [file]) file position) :
    ∃ failure, findReferences (Locator.words source files) source classifier file position log =
      (.error failure, log ++ [file, file]) := by
  obtain ⟨cache, hsymbol, -⟩ := run_symbolAt_first source file position log
  obtain ⟨name, hname⟩ := exists_symbolOf_iff.2 h
  rw [hname] at hsymbol
  obtain ⟨read, hread, hwords⟩ :=
    Locator.exists_read_words source files file position (log ++ [file])
  have hnone : ¬∃ name, symbolOf read file position = .ok name := by
    rw [exists_symbolOf_iff, hread]
    exact hagain
  obtain ⟨failure, hfailure⟩ := words_of_no_symbol hnone files (log ++ [file])
  refine ⟨failure, ?_⟩
  rw [findReferences_run]
  simp only [findThroughCache, Threading.caching.run_bind, hsymbol, caching_run_lift, hwords,
    hfailure, Threading.caching.run_pure]
  rw [List.append_assoc]
  rfl

/-- A lookup that finds a word both times it reads the file of the cursor. -/
theorem findReferences_of_showsWord (h : source.ShowsWord log file position)
    (hagain : source.ShowsWord (log ++ [file]) file position) :
    let others := (Locator.candidates files file).filter (· ≠ file)
    ∃ name entries cache,
      let shown := unknown [file] (entries.map (·.location.file))
      Threading.caching.run
          (findThroughCache (Locator.words source files) source classifier file position)
          ({}, log) =
        (.ok (.ofEntries name entries), cache, log ++ [file] ++ file :: others ++ shown) ∧
      (Locator.words source files file position (log ++ [file])).2 =
        log ++ [file] ++ file :: others ∧
      cache.files = file :: shown ∧ (entries.map (·.location.file)).Pairwise (· ≤ ·) := by
  intro others
  obtain ⟨cache, hsymbol, hcache⟩ := run_symbolAt_first source file position log
  obtain ⟨name, hname⟩ := exists_symbolOf_iff.2 h
  rw [hname] at hsymbol
  obtain ⟨read, hread, hwords⟩ :=
    Locator.exists_read_words source files file position (log ++ [file])
  obtain ⟨again, hsecond⟩ : ∃ again, symbolOf read file position = .ok again := by
    rw [exists_symbolOf_iff, hread]
    exact hagain
  rw [words_of_symbol hsecond] at hwords
  obtain ⟨under, hunder, -, -⟩ := exists_under_cursor hsecond files
  have hne : Locator.wordsIn read files file again.toList ≠ [] := List.ne_nil_of_mem hunder
  obtain ⟨entries, hfindings, hentries⟩ :=
    run_findThroughCache classifier hsymbol (congrArg Prod.fst hwords) hne
  obtain ⟨hfiles, hlog⟩ := run_findThroughCache_state classifier hsymbol hwords hne
  have hordered := pairwise_file_references
    (Locator.pairwise_wordsIn read files file again.toList) name ⟨file, position⟩
  rw [← hentries, List.map_map] at hfiles hlog hordered
  rw [hcache] at hfiles hlog
  exact ⟨name, entries, _, Prod.ext hfindings (Prod.ext rfl hlog), congrArg Prod.snd hwords,
    hfiles, hordered⟩

variable {source files classifier file position log}

theorem exists_findReferences_iff :
    (∃ findings, (findReferences (Locator.words source files) source classifier file position
        log).1 = .ok findings) ↔
      source.ShowsWord log file position ∧ source.ShowsWord (log ++ [file]) file position := by
  by_cases hfirst : source.ShowsWord log file position
  · by_cases hagain : source.ShowsWord (log ++ [file]) file position
    · obtain ⟨name, entries, cache, hrun, -⟩ :=
        findReferences_of_showsWord source files classifier file position log hfirst hagain
      refine iff_of_true ⟨.ofEntries name entries, ?_⟩ ⟨hfirst, hagain⟩
      rw [findReferences_run, hrun]
    · obtain ⟨failure, hlookup⟩ :=
        findReferences_of_changed source files classifier file position log hfirst hagain
      simp [hlookup, hagain]
  · obtain ⟨failure, hlookup⟩ :=
      findReferences_of_not_showsWord source files classifier file position log hfirst
    simp [hlookup, hfirst]

/-- The entries of a lookup stand in files that do not descend. -/
theorem exists_ofEntries_of_findReferences {findings : Findings}
    (h : (findReferences (Locator.words source files) source classifier file position log).1 =
      .ok findings) :
    ∃ name entries, findings = .ofEntries name entries ∧
      (entries.map (·.location.file)).Pairwise (· ≤ ·) := by
  obtain ⟨hfirst, hagain⟩ := exists_findReferences_iff.1 ⟨findings, h⟩
  obtain ⟨name, entries, cache, hrun, -, -, hordered⟩ :=
    findReferences_of_showsWord source files classifier file position log hfirst hagain
  rw [findReferences_run, hrun] at h
  exact ⟨name, entries, (Except.ok.inj h).symm, hordered⟩

variable (source files classifier file position log)

/-- **The requests of a lookup**, in front of any source, also one that answers differently each
time. A lookup succeeds exactly if the file of the cursor has a word there both times it is read,
for the name and by the search. Then the requests are the file; from the search, the file again and
the other files to search, ascending, whether they can be read or not; and the other files that hold
a reference, ascending. Through its cache a lookup asks for no file twice, and for none more than
twice in all. Where the file cannot be read or has no word at the cursor, it is the only request, or
the only one made twice if just the search found it so. -/
theorem findReferences_requests :
    let lookup := findReferences (Locator.words source files) source classifier file position log
    ((∃ findings, lookup.1 = .ok findings) ↔
      source.ShowsWord log file position ∧ source.ShowsWord (log ++ [file]) file position) ∧
    (¬source.ShowsWord log file position → lookup.2 = log ++ [file]) ∧
    (source.ShowsWord log file position → ¬source.ShowsWord (log ++ [file]) file position →
      lookup.2 = log ++ [file, file]) ∧
    ∀ findings, lookup.1 = .ok findings →
      ∃ others shown, lookup.2 = log ++ ([file] ++ file :: others ++ shown) ∧
        (Locator.words source files file position (log ++ [file])).2 =
          log ++ [file] ++ file :: others ∧
        others.Pairwise (· < ·) ∧ (∀ other, other ∈ others ↔ other ∈ files ∧ other ≠ file) ∧
        shown.Pairwise (· < ·) ∧
        (∀ other, other ∈ shown ↔ other ≠ file ∧
          ∃ entry ∈ findings.writes ++ findings.reads, entry.location.file = other) ∧
        (Threading.caching.run (findThroughCache (Locator.words source files) source classifier
          file position) ({}, log)).2.1.files = file :: shown ∧
        (file :: shown).Nodup ∧ ∀ other, ([file] ++ file :: others ++ shown).count other ≤ 2 := by
  intro lookup
  refine ⟨exists_findReferences_iff, fun hfirst => ?_, fun hfirst hagain => ?_,
    fun findings hfindings => ?_⟩
  · obtain ⟨failure, hlookup⟩ :=
      findReferences_of_not_showsWord source files classifier file position log hfirst
    exact congrArg Prod.snd hlookup
  · obtain ⟨failure, hlookup⟩ :=
      findReferences_of_changed source files classifier file position log hfirst hagain
    exact congrArg Prod.snd hlookup
  · obtain ⟨hfirst, hagain⟩ := exists_findReferences_iff.1 ⟨findings, hfindings⟩
    obtain ⟨name, entries, cache, hrun, hsearch, hcache, hordered⟩ :=
      findReferences_of_showsWord source files classifier file position log hfirst hagain
    have hlookup : lookup = _ := findReferences_run ..
    rw [hrun] at hlookup
    obtain rfl : Findings.ofEntries name entries = findings :=
      Except.ok.inj ((congrArg Prod.fst hlookup).symm.trans hfindings)
    have hothers := (Locator.pairwise_candidates files file).filter (· ≠ file)
    have hshown : (file :: unknown [file] (entries.map (·.location.file))).Nodup :=
      List.nodup_cons.2 ⟨by simp [mem_unknown], nodup_eraseDups _⟩
    refine ⟨_, _, by simp [hlookup], hsearch, hothers, ?_, pairwise_unknown hordered, ?_,
      by rw [hrun, hcache], hshown, count_requests_le ?_ hshown⟩
    · intro other
      by_cases hother : other = file <;> simp [Locator.mem_candidates, hother]
    · intro other
      simp only [mem_unknown, List.mem_map, List.mem_singleton, Findings.mem_ofEntries]
      exact and_comm
    · exact List.nodup_cons.2 ⟨by simp, hothers.imp String.ne_of_lt⟩

end

/-- A file that is missing, and one that is gone when its lines are read again. -/
theorem findReferences_requests_from_changing :
    let source : Source := ⟨fun log file =>
      if file = "a" then .ok "let x = 0;\nx++"
      else if file = "b" ∧ "b" ∉ log then .ok "x + x" else .error (.notFound file)⟩
    let lookup := fun position => findReferences (Locator.words source ["c", "b", "b", "a"]) source
      .default "a" position []
    (∃ findings others shown, (lookup ⟨0, 4⟩).1 = .ok findings ∧
        (lookup ⟨0, 4⟩).2 = ["a"] ++ "a" :: others ++ shown ∧ "c" ∈ others ∧ "b" ∈ shown) ∧
      ¬source.ShowsWord [] "a" ⟨7, 0⟩ ∧ (lookup ⟨7, 0⟩).2 = ["a"] := by
  intro source lookup
  have hfound : (lookup ⟨0, 4⟩).1 = .ok ⟨"x", [⟨⟨"a", .onLine 1 0 1⟩, .write, some "x++"⟩],
      [⟨⟨"b", .onLine 0 0 1⟩, .read, none⟩, ⟨⟨"b", .onLine 0 4 5⟩, .read, none⟩]⟩ :=
    toOption_eq_some.1 (by decide +kernel)
  have hnone : ¬source.ShowsWord [] "a" ⟨7, 0⟩ := by
    rintro ⟨text, htext, hword⟩
    obtain ⟨line, word, hline, -⟩ := wordTouches_iff.1 hword
    obtain rfl : "let x = 0;\nx++" = text := Except.ok.inj htext
    cases hline
  obtain ⟨-, -, -, hrequests⟩ := findReferences_requests source ["c", "b", "b", "a"] .default "a"
    ⟨0, 4⟩ []
  obtain ⟨-, honly, -⟩ := findReferences_requests source ["c", "b", "b", "a"] .default "a" ⟨7, 0⟩ []
  obtain ⟨others, shown, hlog, -, -, hothers, -, hshown, -⟩ := hrequests _ hfound
  exact ⟨⟨_, others, shown, hfound, hlog, (hothers "c").2 (by simp), (hshown "b").2 (by simp)⟩,
    hnone, honly hnone⟩

end Usages
