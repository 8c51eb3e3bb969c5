/-
A lookup refines the split of a reference set.

The lookup goes its own way: it takes the name under the cursor through its cache, hands over to a
locator, classifies through the cache it has warmed, reads every line again for the preview and
sorts the entries by kind. For files that always read the same none of this shows.
`findReferences_located` has removed the cache; what is left are findings in which every entry is of
the kind of its list and carries its line, and such findings are known by their name and their bare
locations (`Findings.Faithful.eq_of_partition`). `lookup_refines_partition` therefore says exactly
which findings a lookup ends with, whatever the locator answers.
-/
import Usages.Proofs.Entries
import Usages.Proofs.Except
import Usages.Proofs.WriteRule

namespace Usages

namespace Text

theorem trim_eq_nil_iff {text : List Char} : trim text = [] ↔ isBlankText text = true := by
  simp only [isBlankText, List.all_eq_true]
  constructor
  · intro h c hc
    obtain ⟨left, right, htext, hleft, hright⟩ := (isCore_iff.2 h).inside
    rw [htext, List.nil_append, List.mem_append] at hc
    rcases hc with hc | hc
    · exact hleft c hc
    · exact hright c hc
  · intro h
    rw [trim, trimStart, List.dropWhile_eq_nil_iff.2 h]
    rfl

end Text

/-- A line has a preview unless it is blank. -/
theorem previewOf_eq_some_iff {line : List Char} {shown : String} :
    previewOf line = some shown ↔
      Text.isBlankText line = false ∧ shown = String.ofList (Text.trim line) := by
  unfold previewOf
  split
  next hnil =>
    have hblank : Text.isBlankText line = true := Text.trim_eq_nil_iff.1 hnil
    simp [hblank]
  next hne =>
    have hblank : Text.isBlankText line = false := by
      rw [← Bool.not_eq_true, ← Text.trim_eq_nil_iff]
      exact hne
    simp [hblank, eq_comm]

section

variable {read : String → Except SourceError String}

/-- A new cache reads lines as the files have them. -/
theorem line_empty (read : String → Except SourceError String) (file : String) (n : Nat)
    (log : List String) :
    (Threading.caching.run (Cache.line (.fixed read) file n) ({}, log)).1 =
      Cache.lineOf read file n := by
  obtain ⟨after, hline, -⟩ := Cache.line_fixed (Cache.agrees_empty read) file n log
  rw [hline]

/-- The name under the cursor is a word of the line that the cache shows. -/
theorem symbolOf_eq_ok_lineOf {file name : String} {position : Position} :
    symbolOf read file position = .ok name ↔
      ∃ line word, Cache.lineOf read file position.line = .ok line ∧
        Text.wordAt line position.column = some word ∧ word.text = name := by
  unfold symbolOf Cache.lineOf
  cases read file with
  | error error => simp
  | ok text =>
    simp only [← Text.bind_wordAt_line?]
    cases (LineIndex.ofText text.toList).line? text.toList position.line with
    | none => simp
    | some line =>
      simp only [Option.bind_some]
      cases hword : Text.wordAt line position.column with
      | none => simp [hword]
      | some word => simp [hword]

/-! ## Findings and their partition -/

/-- Through a new cache a set is split by the kinds of its entries. -/
theorem partition_empty (set : ReferenceSet) (classifier : Classifier) (log : List String) :
    (Threading.caching.run (set.partition classifier (Cache.lineReader (.fixed read)))
        ({}, log)).1 =
      set.splitBy fun location => (entryOf read classifier location).kind := by
  obtain ⟨after, hkinds, -⟩ :=
    classifyAll_fixed classifier set.references (Cache.agrees_empty read) log
  rw [run_partition, hkinds]
  exact ReferenceSet.ofReferences_map set fun location => (entryOf read classifier location).kind

namespace Findings

/-- Every entry is of the kind of its list and carries the line it stands on. -/
structure Faithful (read : String → Except SourceError String) (findings : Findings) : Prop where
  writes : ∀ entry ∈ findings.writes, entry.kind = .write
  reads : ∀ entry ∈ findings.reads, entry.kind = .read
  previews : ∀ entry ∈ findings.writes ++ findings.reads,
    entry.preview = (lineAt read entry.location).bind previewOf

theorem faithful_ofEntries (name : String) (classifier : Classifier) (locations : List Location) :
    Faithful read (.ofEntries name (locations.map (entryOf read classifier))) := by
  refine ⟨fun entry h => ?_, fun entry h => ?_, fun entry h => ?_⟩
  · simpa using (List.mem_filter.1 h).2
  · simpa using (List.mem_filter.1 h).2
  · obtain ⟨location, -, rfl⟩ := List.mem_map.1 ((mem_ofEntries _ _).1 h)
    rfl

theorem partition_ofEntries (set : ReferenceSet) (classifier : Classifier) :
    (ofEntries set.symbolName (set.references.map (entryOf read classifier))).partition =
      set.splitBy fun location => (entryOf read classifier location).kind := by
  simp only [partition, ofEntries, ReferenceSet.splitBy, List.filter_map, List.map_map,
    Partition.mk.injEq]
  constructor <;> exact List.map_id _

/-- Entries of one kind that carry their lines are known by their locations. -/
theorem entries_eq_of_locations {kind : Kind} {entries others : List Entry}
    (h : entries.map (·.location) = others.map (·.location))
    (hkind : ∀ entry ∈ entries, entry.kind = kind) (hkind' : ∀ entry ∈ others, entry.kind = kind)
    (hpreview : ∀ entry ∈ entries, entry.preview = (lineAt read entry.location).bind previewOf)
    (hpreview' : ∀ entry ∈ others, entry.preview = (lineAt read entry.location).bind previewOf) :
    entries = others := by
  -- Each list is made of its locations by one and the same function.
  let entryAt : Location → Entry := fun location =>
    ⟨location, kind, (lineAt read location).bind previewOf⟩
  have hmade : ∀ list : List Entry, (∀ entry ∈ list, entry.kind = kind) →
      (∀ entry ∈ list, entry.preview = (lineAt read entry.location).bind previewOf) →
      (list.map (·.location)).map entryAt = list := by
    intro list hkinds hpreviews
    rw [List.map_map]
    refine (List.map_congr_left fun entry hentry => ?_).trans (List.map_id _)
    obtain ⟨location, _, _⟩ := entry
    simp only [Function.comp_apply, entryAt, id_eq, Entry.mk.injEq, true_and]
    exact ⟨(hkinds _ hentry).symm, (hpreviews _ hentry).symm⟩
  calc
    entries = (entries.map (·.location)).map entryAt := (hmade entries hkind hpreview).symm
    _ = (others.map (·.location)).map entryAt := by rw [h]
    _ = others := hmade others hkind' hpreview'

/-- Faithful findings are known by their name and their bare locations. -/
theorem Faithful.eq_of_partition {findings others : Findings} (h : Faithful read findings)
    (h' : Faithful read others) (hname : findings.symbolName = others.symbolName)
    (hpartition : findings.partition = others.partition) : findings = others := by
  simp only [partition, Partition.mk.injEq] at hpartition
  obtain ⟨hwrites, hreads⟩ := hpartition
  have hwrites := entries_eq_of_locations hwrites h.writes h'.writes
    (fun entry hentry => h.previews entry (List.mem_append_left _ hentry))
    (fun entry hentry => h'.previews entry (List.mem_append_left _ hentry))
  have hreads := entries_eq_of_locations hreads h.reads h'.reads
    (fun entry hentry => h.previews entry (List.mem_append_right _ hentry))
    (fun entry hentry => h'.previews entry (List.mem_append_right _ hentry))
  cases findings
  cases others
  simp_all

end Findings

/-- The preview of a location, by the line a new cache has there. -/
theorem preview_eq_some_iff {location : Location} {shown : String} (log : List String) :
    (lineAt read location).bind previewOf = some shown ↔
      ∃ line, (Threading.caching.run
          (Cache.line (.fixed read) location.file location.range.start.line) ({}, log)).1 =
            .ok line ∧
        Text.isBlankText line = false ∧ shown = String.ofList (Text.trim line) := by
  simp only [Option.bind_eq_some_iff, previewOf_eq_some_iff, line_empty, lineAt, toOption_eq_some]

/-- A lookup ends with findings exactly if a word touches the cursor and the locator answers some
locations, and then with the faithful findings that are split as the set is. -/
theorem findReferences_eq_ok_iff {locator : Locator} {classifier : Classifier} {file : String}
    {position : Position} {log : List String} {findings : Findings} :
    (findReferences locator (.fixed read) classifier file position log).1 = .ok findings ↔
      ∃ name locations, symbolOf read file position = .ok name ∧
        (locator file position (log ++ [file])).1 = .ok locations ∧ locations ≠ [] ∧
        findings.symbolName = name ∧ findings.Faithful read ∧
        findings.partition = ReferenceSet.splitBy ⟨name, ⟨file, position⟩, locations⟩
          fun location => (entryOf read classifier location).kind := by
  rw [findReferences_located]
  constructor
  · intro h
    obtain ⟨name, hname, h⟩ := bind_eq_ok.1 h
    obtain ⟨locations, hlocate, h⟩ := bind_eq_ok.1 h
    split at h
    · cases h
    next hne =>
      cases h
      exact ⟨name, locations, hname, hlocate, hne, rfl, Findings.faithful_ofEntries ..,
        Findings.partition_ofEntries ⟨name, ⟨file, position⟩, locations⟩ classifier⟩
  · rintro ⟨name, locations, hname, hlocate, hne, hsame, hfaithful, hpartition⟩
    refine bind_eq_ok.2 ⟨name, hname, bind_eq_ok.2 ⟨locations, hlocate, ?_⟩⟩
    rw [if_neg hne]
    refine congrArg Except.ok (Findings.Faithful.eq_of_partition
      (Findings.faithful_ofEntries ..) hfaithful hsame.symm ?_)
    rw [hpartition]
    exact Findings.partition_ofEntries ⟨name, ⟨file, position⟩, locations⟩ classifier

/-- **A lookup refines the split of a reference set**, whatever the locator answers: repetitions,
files that are missing, ranges that leave their line or go on to others. It ends with findings
exactly if a word touches the cursor and the locator has some locations. These findings are known:
their name is the word, their bare locations are the set's, split through a new cache; all writes
are writes and all reads are reads; and an entry has a preview exactly if its line can be read and
is not blank, which is then the trimmed line. -/
theorem lookup_refines_partition (read : String → Except SourceError String) (locator : Locator)
    (classifier : Classifier) (file : String) (position : Position) (log : List String)
    (findings : Findings) :
    (findReferences locator (.fixed read) classifier file position log).1 = .ok findings ↔
      ∃ line word locations,
        (Threading.caching.run (Cache.line (.fixed read) file position.line) ({}, log)).1 =
          .ok line ∧
        Text.wordAt line position.column = some word ∧
        (locator file position (log ++ [file])).1 = .ok locations ∧ locations ≠ [] ∧
        findings.symbolName = word.text ∧
        findings.partition = (Threading.caching.run
          (ReferenceSet.partition ⟨word.text, ⟨file, position⟩, locations⟩ classifier
            (Cache.lineReader (.fixed read))) ({}, log)).1 ∧
        (∀ entry ∈ findings.writes, entry.kind = .write) ∧
        (∀ entry ∈ findings.reads, entry.kind = .read) ∧
        ∀ entry ∈ findings.writes ++ findings.reads, ∀ shown, entry.preview = some shown ↔
          ∃ line, (Threading.caching.run (Cache.line (.fixed read) entry.location.file
              entry.location.range.start.line) ({}, log)).1 = .ok line ∧
            Text.isBlankText line = false ∧ shown = String.ofList (Text.trim line) := by
  simp only [findReferences_eq_ok_iff, line_empty, partition_empty, symbolOf_eq_ok_lineOf]
  constructor
  · rintro ⟨_, locations, ⟨line, word, hline, hword, rfl⟩, hlocate, hne, hname, hfaithful,
      hpartition⟩
    refine ⟨line, word, locations, hline, hword, hlocate, hne, hname, hpartition, hfaithful.writes,
      hfaithful.reads, fun entry hentry shown => ?_⟩
    rw [hfaithful.previews entry hentry, preview_eq_some_iff log, line_empty]
  · rintro ⟨line, word, locations, hline, hword, hlocate, hne, hname, hpartition, hwrites, hreads,
      hpreviews⟩
    refine ⟨word.text, locations, ⟨line, word, hline, hword, rfl⟩, hlocate, hne, hname,
      ⟨hwrites, hreads, fun entry hentry => Option.ext fun shown => ?_⟩, hpartition⟩
    rw [hpreviews entry hentry shown, preview_eq_some_iff log, line_empty]

end

end Usages
