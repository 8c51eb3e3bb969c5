/-
A lookup from end to end, with the search for whole words over files that always read the same.

The word under the cursor is taken twice, once from the cache and once by the search, which cut a
text into lines in different ways; `Text.bind_wordAt_line?` makes the two agree. So the search runs
only when there is a word, and then it finds that word at the cursor. `exists_cut_under_cursor`
says that it finds nothing else there, although a cursor between two runs of characters would count
for both: such runs would be one. What is left of the search's answer is split by kind, and
`findReferences_outcome` puts the parts together.
-/
import Usages.Find
import Usages.Proofs.Lines
import Usages.Proofs.Locate
import Usages.Proofs.Partition

namespace Usages

/-! ## Reading through a cache -/

/-- Reading through a cache threads the cache and the log of requests. -/
def Threading.caching : Threading Caching (Cache × List String) where
  run x s := ((x s.1 s.2).1.1, (x s.1 s.2).1.2, (x s.1 s.2).2)
  run_pure _ _ := rfl
  run_bind _ _ _ := rfl

theorem caching_run_lift {α : Type} (x : Fetching α) (s : Cache × List String) :
    Threading.caching.run (liftM x) s = ((x s.2).1, s.1, (x s.2).2) := rfl

theorem caching_run_get (s : Cache × List String) :
    Threading.caching.run get s = (s.1, s) := rfl

theorem caching_run_modify (f : Cache → Cache) (s : Cache × List String) :
    Threading.caching.run (modify f) s = (⟨⟩, f s.1, s.2) := rfl

namespace Cache

/-- What the cache knows is what the files read. -/
def Agrees (cache : Cache) (read : String → Except SourceError String) : Prop :=
  ∀ file known, cache.documents.lookup file = some known →
    known = (read file).map Document.ofText

theorem agrees_empty (read : String → Except SourceError String) : ({} : Cache).Agrees read := by
  intro file known h
  simp at h

theorem Agrees.add {cache : Cache} {read : String → Except SourceError String}
    (h : cache.Agrees read) (file : String) :
    Agrees ⟨cache.documents ++ [(file, (read file).map Document.ofText)]⟩ read := by
  intro other known hknown
  rw [List.lookup_append] at hknown
  cases hcache : cache.documents.lookup other with
  | some old =>
    rw [hcache, Option.some_or, Option.some.injEq] at hknown
    exact hknown ▸ h other old hcache
  | none =>
    rw [hcache, Option.none_or, List.lookup_cons] at hknown
    split at hknown
    next heq =>
      rw [eq_of_beq heq]
      exact (Option.some.inj hknown).symm
    next => simp at hknown

theorem run_document_of_known {cache : Cache} {file : String}
    {known : Except SourceError Document} (h : cache.documents.lookup file = some known)
    (source : Source) (log : List String) :
    Threading.caching.run (document source file) (cache, log) = (known, cache, log) := by
  rw [document, Threading.caching.run_bind, caching_run_get, h, Threading.caching.run_pure]

theorem run_document_of_unknown {cache : Cache} {file : String}
    (h : cache.documents.lookup file = none) (source : Source) (log : List String) :
    Threading.caching.run (document source file) (cache, log) =
      ((source.answer log file).map Document.ofText,
        ⟨cache.documents ++ [(file, (source.answer log file).map Document.ofText)]⟩,
        log ++ [file]) := by
  rw [document, Threading.caching.run_bind, caching_run_get, h, Threading.caching.run_bind,
    caching_run_lift, Threading.caching.run_bind, caching_run_modify, Threading.caching.run_pure]
  rfl

theorem document_fixed {cache : Cache} {read : String → Except SourceError String}
    (h : cache.Agrees read) (file : String) (log : List String) :
    ∃ after, Threading.caching.run (document (.fixed read) file) (cache, log) =
      ((read file).map Document.ofText, after) ∧ after.1.Agrees read := by
  cases hknown : cache.documents.lookup file with
  | some known =>
    refine ⟨(cache, log), ?_, h⟩
    rw [run_document_of_known hknown, h file known hknown]
  | none => exact ⟨_, run_document_of_unknown hknown (.fixed read) log, h.add file⟩

/-- Line `n` of a file, by the index of its text. -/
def lineOf (read : String → Except SourceError String) (file : String) (n : Nat) :
    Except SourceError (List Char) :=
  match read file with
  | .error error => .error error
  | .ok text =>
    match (LineIndex.ofText text.toList).line? text.toList n with
    | some line => .ok line
    | none => .error (.lineOutOfRange file n)

theorem line_fixed {cache : Cache} {read : String → Except SourceError String}
    (h : cache.Agrees read) (file : String) (n : Nat) (log : List String) :
    ∃ after, Threading.caching.run (line (.fixed read) file n) (cache, log) =
      (lineOf read file n, after) ∧ after.1.Agrees read := by
  obtain ⟨after, hdocument, hafter⟩ := document_fixed h file log
  refine ⟨after, ?_, hafter⟩
  rw [line, Threading.caching.run_bind, hdocument, lineOf]
  cases read file with
  | error error => exact Threading.caching.run_pure _ _
  | ok text =>
    simp only [Except.map, Document.line?, Document.ofText]
    cases (LineIndex.ofText text.toList).line? text.toList n with
    | none => exact Threading.caching.run_pure _ _
    | some line => exact Threading.caching.run_pure _ _

end Cache

/-! ## The word under the cursor -/

/-- The error is about a line, not about a file as a whole. -/
def SourceError.isLineOutOfRange : SourceError → Bool
  | .lineOutOfRange .. => true
  | _ => false

/-- The name under the cursor, for files that always read the same. -/
def symbolOf (read : String → Except SourceError String) (file : String) (position : Position) :
    Except Failure String :=
  match read file with
  | .error error =>
    .error (if error.isLineOutOfRange then .noSymbolAt file position else .source error)
  | .ok text =>
    match (Text.line? text.toList position.line).bind (Text.wordAt · position.column) with
    | none => .error (.noSymbolAt file position)
    | some word => .ok word.text

theorem symbolAt_fixed {cache : Cache} {read : String → Except SourceError String}
    (h : cache.Agrees read) (file : String) (position : Position) (log : List String) :
    ∃ after, Threading.caching.run (symbolAt (.fixed read) file position) (cache, log) =
      (symbolOf read file position, after) ∧ after.1.Agrees read := by
  obtain ⟨after, hline, hafter⟩ := Cache.line_fixed h file position.line log
  refine ⟨after, ?_, hafter⟩
  rw [symbolAt, Threading.caching.run_bind, hline, Cache.lineOf, symbolOf]
  cases read file with
  | error error => cases error <;> exact Threading.caching.run_pure _ _
  | ok text =>
    simp only [← Text.bind_wordAt_line?]
    cases (LineIndex.ofText text.toList).line? text.toList position.line with
    | none => exact Threading.caching.run_pure _ _
    | some line =>
      simp only [Option.bind_some]
      cases Text.wordAt line position.column with
      | none => exact Threading.caching.run_pure _ _
      | some word => exact Threading.caching.run_pure _ _

/-! ## From locations to entries -/

theorem map_location_classifyAll {m : Type → Type} [Monad m] {σ : Type} (effects : Threading m σ)
    (line? : LineReader m) (classifier : Classifier) (locations : List Location) (s : σ) :
    (effects.run (classifyAll classifier line? locations) s).1.map (·.location) = locations := by
  induction locations generalizing s with
  | nil => rw [classifyAll, effects.run_pure]; rfl
  | cons location rest ih =>
    rw [classifyAll, effects.run_bind, effects.run_bind, effects.run_pure, List.map_cons, ih]

theorem map_reference_attachPreviews (line? : LineReader Caching) (references : List Reference)
    (s : Cache × List String) :
    (Threading.caching.run (attachPreviews line? references) s).1.map
      (fun entry => (⟨entry.location, entry.kind⟩ : Reference)) = references := by
  induction references generalizing s with
  | nil => rw [attachPreviews, Threading.caching.run_pure]; rfl
  | cons reference rest ih =>
    rw [attachPreviews, Threading.caching.run_bind, Threading.caching.run_bind,
      Threading.caching.run_pure, List.map_cons, ih]

theorem map_location_attachPreviews (line? : LineReader Caching) (references : List Reference)
    (s : Cache × List String) :
    (Threading.caching.run (attachPreviews line? references) s).1.map (·.location) =
      references.map (·.location) := by
  conv => rhs; rw [← map_reference_attachPreviews line? references s, List.map_map]
  rfl

/-- The findings that entries amount to. -/
def Findings.ofEntries (name : String) (entries : List Entry) : Findings where
  symbolName := name
  writes := entries.filter (·.kind = .write)
  reads := entries.filter (·.kind = .read)

namespace Findings

variable (name : String) (entries : List Entry)

theorem mem_ofEntries {entry : Entry} :
    entry ∈ (ofEntries name entries).writes ++ (ofEntries name entries).reads ↔
      entry ∈ entries := by
  rw [ofEntries, List.mem_append, List.mem_filter, List.mem_filter, ← and_or_left]
  refine and_iff_left ?_
  cases entry.kind <;> simp

theorem partition_ofEntries_perm :
    ((ofEntries name entries).partition.writes ++ (ofEntries name entries).partition.reads).Perm
      (entries.map (·.location)) := by
  have hreads : entries.filter (·.kind = .read) =
      entries.filter fun entry => !decide (entry.kind = .write) := by
    simp only [Kind.eq_read_iff, decide_not]
  rw [partition, ofEntries, hreads, ← List.map_append]
  exact (List.filter_append_perm _ _).map _

theorem writes_ofEntries_sublist :
    ((ofEntries name entries).writes.map (·.location)).Sublist (entries.map (·.location)) :=
  List.filter_sublist.map _

theorem reads_ofEntries_sublist :
    ((ofEntries name entries).reads.map (·.location)).Sublist (entries.map (·.location)) :=
  List.filter_sublist.map _

end Findings

/-- A lookup that has a name and some locations succeeds, with an entry for each reference among
the locations. -/
theorem run_findThroughCache {locator : Locator} {source : Source} (classifier : Classifier)
    {file name : String} {position : Position} {s after : Cache × List String}
    {locations : List Location}
    (hsymbol : Threading.caching.run (symbolAt source file position) s = (.ok name, after))
    (hlocate : (locator file position after.2).1 = .ok locations) (hne : locations ≠ []) :
    ∃ entries,
      (Threading.caching.run (findThroughCache locator source classifier file position) s).1 =
        .ok (.ofEntries name entries) ∧
      entries.map (·.location) =
        ReferenceSet.references ⟨name, ⟨file, position⟩, locations⟩ := by
  rw [findThroughCache, Threading.caching.run_bind, hsymbol]
  simp only [Threading.caching.run_bind, caching_run_lift, hlocate]
  obtain ⟨first, rest, rfl⟩ := List.exists_cons_of_ne_nil hne
  simp only [Threading.caching.run_pure, ReferenceSet.classify]
  refine ⟨_, rfl, ?_⟩
  rw [map_location_attachPreviews, map_location_classifyAll]

/-! ## The location under the cursor -/

theorem Position.le_iff {p q : Position} :
    p ≤ q ↔ p.line < q.line ∨ p.line = q.line ∧ p.column ≤ q.column := by
  show (Position.compare p q).isLE = true ↔ _
  rw [Position.compare]
  rcases Nat.lt_trichotomy p.line q.line with h | h | h
  · simp [Nat.compare_eq_lt.2 h, h]
  · simp [h, Nat.isLE_compare]
  · simp [Nat.compare_eq_gt.2 h]
    omega

theorem Location.contains_onLine {file other : String} {n start stop : Nat} {position : Position} :
    Location.contains ⟨file, .onLine n start stop⟩ ⟨other, position⟩ = true ↔
      file = other ∧ n = position.line ∧ Text.Touches start stop position.column := by
  simp only [Location.contains, Range.contains, Range.onLine, Bool.and_eq_true, beq_iff_eq,
    decide_eq_true_eq, Position.le_iff, Text.Touches]
  refine and_congr_right fun _ => ?_
  omega

/-- A list without repetitions, cut at the only member with a property. -/
theorem exists_cut_of_unique {α : Type} {p : α → Bool} {items : List α} {item : α}
    (hnodup : items.Nodup) (hmem : item ∈ items)
    (hunique : ∀ other ∈ items, p other = true → other = item) :
    ∃ front back, items = front ++ item :: back ∧ ∀ other ∈ front ++ back, p other = false := by
  obtain ⟨front, back, rfl⟩ := List.append_of_mem hmem
  refine ⟨front, back, rfl, fun other hother => ?_⟩
  have hnot : item ∉ front ++ back := (List.nodup_cons.1 (List.perm_middle.nodup hnodup)).1
  cases hp : p other with
  | false => rfl
  | true =>
    have hitem := hunique other (List.perm_middle.mem_iff.2 (List.mem_cons_of_mem _ hother)) hp
    exact absurd (hitem ▸ hother) hnot

/-- Where the word at a position stands. -/
def Text.Word.locationIn (word : Text.Word) (file : String) (line : Nat) : Location :=
  ⟨file, .onLine line word.start word.stop⟩

theorem contains_word {file : String} {position : Position} {line : List Char} {word : Text.Word}
    (hword : Text.wordAt line position.column = some word) :
    (word.locationIn file position.line).contains ⟨file, position⟩ = true :=
  Location.contains_onLine.2 ⟨rfl, rfl, (Text.wordAt_eq_some_iff.1 hword).2.1⟩

/-- Among the occurrences of the word under a cursor exactly one covers the cursor: the word
itself. -/
theorem exists_cut_under_cursor {read : String → Except SourceError String} {file text : String}
    {position : Position} {line : List Char} {word : Text.Word} (hread : read file = .ok text)
    (hline : (Text.lines text.toList)[position.line]? = some line)
    (hword : Text.wordAt line position.column = some word) (files : List String) :
    ∃ front back,
      Locator.wordsIn read files file word.text.toList =
        front ++ word.locationIn file position.line :: back ∧
      ∀ other ∈ front ++ back, other.contains ⟨file, position⟩ = false := by
  obtain ⟨hne, hid⟩ := Text.wordAt_text hword
  obtain ⟨hrun, htouches, -, htext⟩ := Text.wordAt_eq_some_iff.1 hword
  have hunder : word.locationIn file position.line ∈
      Locator.wordsIn read files file word.text.toList := by
    refine (Locator.mem_wordsIn hne hid).2 ⟨List.mem_cons_self, text, position.line, line,
      word.start, word.stop, hread, hline, hrun, ?_, rfl⟩
    rw [htext, String.toList_ofList]
  -- An occurrence that covers the cursor is a run that touches it, and so the same run.
  have hunique : ∀ other ∈ Locator.wordsIn read files file word.text.toList,
      other.contains ⟨file, position⟩ = true → other = word.locationIn file position.line := by
    intro other hother hcontains
    obtain ⟨-, text', n, line', start, stop, hread', hline', hrun', -, hrange⟩ :=
      (Locator.mem_wordsIn hne hid).1 hother
    obtain ⟨otherFile, range⟩ := other
    subst hrange
    obtain ⟨rfl, rfl, htouches'⟩ := Location.contains_onLine.1 hcontains
    obtain rfl : text = text' := Except.ok.inj (hread.symm.trans hread')
    obtain rfl : line = line' := Option.some.inj (hline.symm.trans hline')
    obtain ⟨hstart, hstop⟩ := hrun.eq_of_touches hrun' htouches htouches'
    rw [Text.Word.locationIn, hstart, hstop]
  have hnodup : (Locator.wordsIn read files file word.text.toList).Nodup :=
    (Locator.pairwise_wordsIn read files file word.text.toList).imp Location.Before.ne
  exact exists_cut_of_unique hnodup hunder hunique

/-- Exactly one of the locations covers the definition, and it is dropped. -/
theorem filter_of_cut {definition : Site} {front back : List Location} {under : Location}
    (hunder : under.contains definition = true)
    (hothers : ∀ other ∈ front ++ back, other.contains definition = false) :
    (front ++ under :: back).filter (fun location => !location.contains definition) =
      front ++ back := by
  rw [List.filter_append, List.filter_cons_of_neg (by simp [hunder]), ← List.filter_append,
    List.filter_eq_self]
  intro other hother
  simp [hothers other hother]

theorem references_of_cut {name : String} {definition : Site} {front back : List Location}
    {under : Location} (hnodup : (front ++ under :: back).Nodup)
    (hunder : under.contains definition = true)
    (hothers : ∀ other ∈ front ++ back, other.contains definition = false) :
    ReferenceSet.references ⟨name, definition, front ++ under :: back⟩ = front ++ back := by
  rw [ReferenceSet.references]
  simp only [filter_of_cut hunder hothers]
  refine ReferenceSet.firstCopies_of_nodup ?_ (by simp)
  exact (List.nodup_cons.1 (List.perm_middle.nodup hnodup)).2

/-! ## The outcome -/

/-- A word touches the position: a run of identifier characters, of a line of the text, that does
not start with an ASCII digit. -/
def WordTouches (text : String) (position : Position) : Prop :=
  ∃ line start stop, (Text.lines text.toList)[position.line]? = some line ∧
    Text.IsRun line start stop ∧ Text.Touches start stop position.column ∧
    Text.digitAt line start = false

theorem wordTouches_iff {text : String} {position : Position} :
    WordTouches text position ↔ ∃ line word, (Text.lines text.toList)[position.line]? = some line ∧
      Text.wordAt line position.column = some word := by
  constructor
  · rintro ⟨line, start, stop, hline, hrun, htouches, hdigit⟩
    exact ⟨line, ⟨start, stop, String.ofList (line.extract start stop)⟩, hline,
      Text.wordAt_eq_some_iff.2 ⟨hrun, htouches, hdigit, rfl⟩⟩
  · rintro ⟨line, word, hline, hword⟩
    obtain ⟨hrun, htouches, hdigit, -⟩ := Text.wordAt_eq_some_iff.1 hword
    exact ⟨line, word.start, word.stop, hline, hrun, htouches, hdigit⟩

theorem bind_wordAt_eq_none_iff {text : String} {position : Position} :
    (Text.line? text.toList position.line).bind (Text.wordAt · position.column) = none ↔
      ¬WordTouches text position := by
  rw [wordTouches_iff, Text.line?]
  cases (Text.lines text.toList)[position.line]? with
  | none => simp
  | some line => simp [Option.eq_none_iff_forall_ne_some]

theorem findReferences_fst (locator : Locator) (source : Source) (classifier : Classifier)
    (file : String) (position : Position) (log : List String) :
    (findReferences locator source classifier file position log).1 =
      (Threading.caching.run (findThroughCache locator source classifier file position)
        ({}, log)).1 := rfl

theorem findReferences_of_no_symbol {read : String → Except SourceError String} {file : String}
    {position : Position} {failure : Failure} (h : symbolOf read file position = .error failure)
    (locator : Locator) (classifier : Classifier) (log : List String) :
    (findReferences locator (.fixed read) classifier file position log).1 = .error failure := by
  obtain ⟨after, hsymbol, -⟩ := symbolAt_fixed (Cache.agrees_empty read) file position log
  rw [findReferences_fst, findThroughCache, Threading.caching.run_bind, hsymbol, h]
  exact congrArg Prod.fst (Threading.caching.run_pure _ _)

/-- A lookup from a cursor on a word: it shows the occurrences of the word but the one under the
cursor, in the order of the search. -/
theorem findReferences_at_word {read : String → Except SourceError String} {file text : String}
    {position : Position} {line : List Char} {word : Text.Word} (hread : read file = .ok text)
    (hline : (Text.lines text.toList)[position.line]? = some line)
    (hword : Text.wordAt line position.column = some word) (files : List String)
    (classifier : Classifier) (log : List String) :
    ∃ entries front back,
      (findReferences (Locator.words (.fixed read) files) (.fixed read) classifier file position
        log).1 = .ok (.ofEntries word.text entries) ∧
      (∀ log, (Locator.words (.fixed read) files file position log).1 =
        .ok (front ++ word.locationIn file position.line :: back)) ∧
      (front ++ word.locationIn file position.line :: back).Pairwise Location.Before ∧
      (∀ other ∈ front ++ back, other.contains ⟨file, position⟩ = false) ∧
      entries.map (·.location) = front ++ back := by
  obtain ⟨front, back, hcut, hothers⟩ := exists_cut_under_cursor hread hline hword files
  have hlocate : ∀ log, (Locator.words (.fixed read) files file position log).1 =
      .ok (front ++ word.locationIn file position.line :: back) := by
    intro log
    rw [Locator.words_fixed]
    simp only [hread, Text.line?, hline, Option.bind_some, hword, hcut]
  obtain ⟨after, hsymbol, -⟩ := symbolAt_fixed (Cache.agrees_empty read) file position log
  have hname : symbolOf read file position = .ok word.text := by
    simp only [symbolOf, hread, Text.line?, hline, Option.bind_some, hword]
  rw [hname] at hsymbol
  obtain ⟨entries, hfindings, hentries⟩ :=
    run_findThroughCache classifier hsymbol (hlocate after.2) (by simp)
  have hordered : (front ++ word.locationIn file position.line :: back).Pairwise Location.Before :=
    hcut ▸ Locator.pairwise_wordsIn read files file word.text.toList
  rw [references_of_cut (hordered.imp Location.Before.ne) (contains_word hword) hothers] at hentries
  exact ⟨entries, front, back, hfindings, hlocate, hordered, hothers, hentries⟩

theorem findReferences_of_word {read : String → Except SourceError String} {file text : String}
    {position : Position} (hread : read file = .ok text) (hword : WordTouches text position)
    (files : List String) (classifier : Classifier) (log : List String) :
    ∃ findings front under back,
      (findReferences (Locator.words (.fixed read) files) (.fixed read) classifier file position
        log).1 = .ok findings ∧
      (∀ log, (Locator.words (.fixed read) files file position log).1 =
        .ok (front ++ under :: back)) ∧
      under.contains ⟨file, position⟩ = true ∧
      (∀ other ∈ front ++ back, other.contains ⟨file, position⟩ = false) ∧
      (findings.partition.writes ++ findings.partition.reads).Perm (front ++ back) := by
  obtain ⟨line, word, hline, hword⟩ := wordTouches_iff.1 hword
  obtain ⟨entries, front, back, hfindings, hlocate, -, hothers, hentries⟩ :=
    findReferences_at_word hread hline hword files classifier log
  exact ⟨_, front, _, back, hfindings, hlocate, contains_word hword, hothers,
    hentries ▸ Findings.partition_ofEntries_perm word.text entries⟩

/-- **The outcome of a lookup.** It fails with the error of the source exactly if the file of the
cursor cannot be read, and for want of a symbol exactly if the file can be read and no word touches
the cursor. Otherwise it succeeds: it never ends without references and never fails in the search.
It shows what the search finds without the one location that covers the cursor.

A source that reports a line out of range when it is asked for a whole file counts as having no
symbol. -/
theorem findReferences_outcome (read : String → Except SourceError String) (files : List String)
    (classifier : Classifier) (file : String) (position : Position) (log : List String) :
    ∃ outcome, (findReferences (Locator.words (.fixed read) files) (.fixed read) classifier file
        position log).1 = outcome ∧
      (∀ error, outcome = .error (.source error) ↔
        read file = .error error ∧ error.isLineOutOfRange = false) ∧
      (outcome = .error (.noSymbolAt file position) ↔
        (∃ text, read file = .ok text ∧ ¬WordTouches text position) ∨
          ∃ error, read file = .error error ∧ error.isLineOutOfRange = true) ∧
      ((∃ findings, outcome = .ok findings) ↔
        ∃ text, read file = .ok text ∧ WordTouches text position) ∧
      (∀ failure, outcome = .error failure →
        failure ≠ .noReferences ∧ ∀ message, failure ≠ .locate message) ∧
      ∀ findings, outcome = .ok findings →
        ∃ front under back, (Locator.words (.fixed read) files file position log).1 =
            .ok (front ++ under :: back) ∧
          under.contains ⟨file, position⟩ = true ∧
          (∀ other ∈ front ++ back, other.contains ⟨file, position⟩ = false) ∧
          (findings.partition.writes ++ findings.partition.reads).Perm (front ++ back) := by
  cases hread : read file with
  | error error =>
    have hsymbol : symbolOf read file position = .error
        (if error.isLineOutOfRange then .noSymbolAt file position else .source error) := by
      simp only [symbolOf, hread]
    refine ⟨_, findReferences_of_no_symbol hsymbol _ classifier log, ?_⟩
    cases hline : error.isLineOutOfRange with
    | true => simp [hline, Failure.noSymbolAt]
    | false => simp [hline, Failure.noSymbolAt]
  | ok text =>
    by_cases hword : WordTouches text position
    · obtain ⟨findings, front, under, back, houtcome, hlocate, hcut⟩ :=
        findReferences_of_word hread hword files classifier log
      refine ⟨_, houtcome, by simp, by simp [hword], by simp [hword], by simp, ?_⟩
      rintro _ ⟨⟩
      exact ⟨front, under, back, hlocate log, hcut⟩
    · have hsymbol : symbolOf read file position = .error (.noSymbolAt file position) := by
        simp only [symbolOf, hread, bind_wordAt_eq_none_iff.2 hword]
      refine ⟨_, findReferences_of_no_symbol hsymbol _ classifier log, ?_⟩
      simp [hword, Failure.noSymbolAt]

/-- A source that answers for a whole file that a line is out of range is taken to say that there is
no word, though the file cannot be read. -/
theorem findReferences_takes_line_error_for_no_symbol :
    let read : String → Except SourceError String := fun file => .error (.lineOutOfRange file 7)
    (findReferences (Locator.words (.fixed read) []) (.fixed read) .default "a.ts" ⟨0, 0⟩ []).1 =
        .error (.noSymbolAt "a.ts" ⟨0, 0⟩) ∧
      (∀ text, read "a.ts" ≠ .ok text) ∧
      ∀ error, Failure.noSymbolAt "a.ts" ⟨0, 0⟩ ≠ .source error := by
  intro read
  refine ⟨findReferences_of_no_symbol rfl _ _ _, fun text h => ?_, fun error h => ?_⟩
  · cases h
  · cases h

end Usages
