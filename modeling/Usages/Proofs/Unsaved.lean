/-
Documents that are open count as if they were saved.

A lookup depends on which files it searches and on what can be read in them
(`findReferences_congr`), and searching further files shows exactly if the name occurs in one of
them (`findReferences_append_iff`). Open documents come into a lookup as further files whose texts
stand before those on disk. Once they are saved, the same texts are read from the disk, and the walk
finds the documents that the project accepts, unless it passes over a directory on the way: one that
cannot be listed, or one that an exclude pattern overreaches. `unsaved_as_saved` puts this together.
-/
import Usages.OpenDocuments
import Usages.Proofs.Discover
import Usages.Proofs.Entries
import Usages.Proofs.Save

namespace Usages

/-! ## What a lookup depends on -/

section

variable {read other : String → Except SourceError String}

theorem Locator.inFile_congr {file : String} (h : (read file).toOption = (other file).toOption)
    (name : List Char) : inFile read name file = inFile other name file := by
  rcases ok_or_error_of_toOption_eq h with ⟨text, hread, hother⟩ | ⟨_, _, hread, hother⟩
  · rw [inFile, inFile, hread, hother]
  · rw [inFile, inFile, hread, hother]

theorem lineAt_congr {location : Location}
    (h : (read location.file).toOption = (other location.file).toOption) :
    lineAt read location = lineAt other location := by
  rcases ok_or_error_of_toOption_eq h with ⟨text, hread, hother⟩ | ⟨_, _, hread, hother⟩
  · rw [lineAt, lineAt, Cache.lineOf, Cache.lineOf, hread, hother]
  · rw [lineAt, lineAt, Cache.lineOf, Cache.lineOf, hread, hother]
    rfl

theorem Locator.file_mem_of_mem_wordsIn {files : List String} {origin : String} {name : List Char}
    {location : Location} (h : location ∈ wordsIn read files origin name) :
    location.file ∈ candidates files origin := by
  obtain ⟨candidate, hcandidate, hlocation⟩ := List.mem_flatMap.1 h
  rwa [file_of_mem_inFile hlocation]

/-- A lookup depends on the files it searches and on what can be read in them. -/
theorem findReferences_congr {files others : List String} {file : String}
    (hfiles : ∀ candidate, candidate ∈ file :: files ↔ candidate ∈ file :: others)
    (hfile : read file = other file)
    (hread : ∀ candidate ∈ file :: files, (read candidate).toOption = (other candidate).toOption)
    (classifier : Classifier) (position : Position) (log : List String) :
    (findReferences (Locator.words (.fixed read) files) (.fixed read) classifier file position
        log).1 =
      (findReferences (Locator.words (.fixed other) others) (.fixed other) classifier file position
        log).1 := by
  have hsymbol : symbolOf read file position = symbolOf other file position := by
    rw [symbolOf, symbolOf, hfile]
  have hwords : ∀ name, Locator.wordsIn read files file name =
      Locator.wordsIn other others file name := by
    intro name
    rw [Locator.wordsIn, Locator.wordsIn, ← Locator.candidates_congr hfiles]
    refine List.flatMap_congr fun candidate hcandidate => ?_
    exact Locator.inFile_congr (hread candidate (Locator.mem_candidates.1 hcandidate)) name
  rw [findReferences_fixed, findReferences_fixed, hsymbol]
  refine congrArg (Except.map · _) (funext fun name => congrArg _ ?_)
  rw [occurrencesBut, occurrencesBut, ← hwords]
  refine List.map_congr_left fun location hlocation => ?_
  have hmem := Locator.file_mem_of_mem_wordsIn (List.mem_of_mem_filter hlocation)
  rw [entryOf, entryOf, lineAt_congr (hread _ (Locator.mem_candidates.1 hmem))]

end

/-- Further files show in a lookup if the name occurs in one of them, and only then. -/
theorem findReferences_append_iff (read : String → Except SourceError String)
    (files more : List String) (classifier : Classifier) (file : String) (position : Position)
    (log : List String) :
    (findReferences (Locator.words (.fixed read) (files ++ more)) (.fixed read) classifier file
        position log).1 =
      (findReferences (Locator.words (.fixed read) files) (.fixed read) classifier file position
        log).1 ↔
    ∀ name, symbolOf read file position = .ok name → ∀ candidate ∈ more,
      candidate ∉ file :: files → Locator.inFile read name.toList candidate = [] := by
  rw [findReferences_fixed, findReferences_fixed]
  cases hsymbol : symbolOf read file position with
  | error failure => simp [Except.map]
  | ok name =>
    constructor
    · intro h other hother candidate hcandidate hnot
      cases hother
      -- An occurrence in the candidate is shown on the left, and so it is on the right.
      refine List.eq_nil_iff_forall_not_mem.2 fun location hlocation => ?_
      have hfile := Locator.file_of_mem_inFile hlocation
      have hother : location.file ≠ file := by
        rw [hfile]
        exact fun heq => hnot (by simp [heq])
      have hshown : location ∈ occurrencesBut read (files ++ more) file position name := by
        refine List.mem_filter.2 ⟨List.mem_flatMap.2 ⟨candidate, ?_, hlocation⟩, ?_⟩
        · exact Locator.mem_candidates.2 (by simp [hcandidate])
        · simp [Location.contains, hother]
      have hfindings : Findings.showing read name classifier
            (occurrencesBut read (files ++ more) file position name) =
          .showing read name classifier (occurrencesBut read files file position name) :=
        Except.ok.inj h
      have hperm := Findings.partition_showing_perm read name classifier
        (occurrencesBut read (files ++ more) file position name)
      rw [hfindings] at hperm
      have hleft := (Findings.partition_showing_perm read name classifier _).mem_iff.1
        (hperm.mem_iff.2 hshown)
      have hmem := Locator.file_mem_of_mem_wordsIn (List.mem_of_mem_filter hleft)
      rw [hfile, Locator.mem_candidates] at hmem
      exact hnot hmem
    · intro h
      have hcandidates : Locator.candidates files file =
          (Locator.candidates (files ++ more) file).filter (· ∈ file :: files) := by
        refine Locator.eq_of_ascending (Locator.pairwise_candidates _ _)
          ((Locator.pairwise_candidates _ _).filter _) fun candidate => ?_
        rw [List.mem_filter, Locator.mem_candidates, Locator.mem_candidates, decide_eq_true_iff,
          ← List.cons_append, List.mem_append]
        exact ⟨fun hmem => ⟨.inl hmem, hmem⟩, And.right⟩
      have hwords : Locator.wordsIn read (files ++ more) file name.toList =
          Locator.wordsIn read files file name.toList := by
        rw [Locator.wordsIn, Locator.wordsIn, hcandidates, flatMap_filter_of_nil]
        intro candidate hcandidate hnot
        rw [Locator.mem_candidates, ← List.cons_append, List.mem_append] at hcandidate
        have hnot := of_decide_eq_false hnot
        exact h name rfl candidate (hcandidate.resolve_left hnot) hnot
      simp only [Except.map, occurrencesBut, hwords]

/-! ## Open documents and saved ones -/

namespace Project

/-- An accepted path that no walk comes to: a directory on the way cannot be listed, or a pattern
overreaches there. -/
def Missed (project : Project) (config : Config) (disk : Disk) (place : List String)
    (path : String) : Prop :=
  project.accepts path = true ∧
    ∃ names : List String, path = Path.join project.root (Path.joinSegments names) ∧
      (∀ name ∈ names, Path.IsName name) ∧
      (disk.Unlisted place (names.map .text) ∨ config.Overreached (names.map .text))

/-- No pattern overreaches unless it ends in `**//**`. -/
theorem Missed.exists_unlisted {project : Project} {config : Config} {disk : Disk}
    {place : List String}
    (hpatterns : ∀ pattern ∈ config.excludePatterns, FileFilter.overreaches pattern = false)
    {path : String} (h : project.Missed config disk place path) :
    ∃ names : List String, path = Path.join project.root (Path.joinSegments names) ∧
      disk.Unlisted place (names.map .text) := by
  obtain ⟨-, names, hpath, -, hskipped⟩ := h
  exact ⟨names, hpath, hskipped.resolve_right (config.not_overreached hpatterns _)⟩

/-- The paths are those that the walk comes to below a place. -/
def Lists (project : Project) (config : Config) (disk : Disk) (place : List String)
    (paths : List String) : Prop :=
  ∀ path, path ∈ paths ↔ ∃ names, path = Path.below project.root names ∧
    disk.HasFile place names ∧ project.filter.acceptsFile (.ofNames names) = true ∧
    ¬ disk.Unlisted place names ∧ ¬ config.Overreached names ∧ ¬ project.filter.PrunesRaw names

variable {project : Project} {disk saved : Disk} {place : List String} {config : Config}
  {documents : OpenDocuments}

theorem find_eq {files : List String} (h : project.discover disk = .ok files) (source : Source)
    (file : String) (position : Position) (extra : List String) :
    project.find disk source file position extra =
      findReferences (Locator.words source (files ++ extra)) source project.classifier file
        position := by
  rw [find, h]

theorem find_eq_error {failure : Failure} (h : project.discover disk = .error failure)
    (source : Source) (file : String) (position : Position) (extra log : List String) :
    (project.find disk source file position extra log).1 = .error failure := by
  rw [find, h]
  rfl

theorem exists_discover (tree : disk.IsTree)
    (hfilter : FileFilter.ofConfig config = .ok project.filter)
    (hroot : disk.resolve project.root = .ok place)
    (hplace : disk.get? place = some .directory)
    (hlists : disk.unlistable.lookup (place.map .text) = none) :
    ∃ files, project.discover disk = .ok files ∧ project.Lists config disk place files := by
  refine ⟨_, discover_eq hroot hplace hlists, fun path => ?_⟩
  simp only [List.mem_map, mem_discoverBelow_iff tree hfilter hplace]
  exact exists_congr fun names => by rw [and_comm, eq_comm]

section

variable (hroot : disk.resolve project.root = .ok place)
  (hplace : disk.get? place = some .directory)
  (hsaved : disk.Stores project.root place documents.texts saved)

include hroot hplace hsaved

/-- Open texts over a disk are what is read once they are saved. -/
theorem toOption_readText_saved {names : List String} (hplain : disk.Plain place names) :
    (documents.readText disk (Path.join project.root (Path.joinSegments names))).toOption =
      (saved.readText (Path.join project.root (Path.joinSegments names))).toOption := by
  rw [hsaved.toOption_readText hroot hplace hplain, OpenDocuments.readText]
  cases documents.texts.lookup (Path.join project.root (Path.joinSegments names)) with
  | none => rfl
  | some text => rfl

theorem readText_saved (hpaths : documents.paths.Nodup) {document : String × String}
    (h : document ∈ documents.texts) : saved.readText document.1 = .ok document.2 := by
  obtain ⟨names, hsave⟩ := hsaved.savable document.1 (List.mem_map_of_mem h)
  have hlookup : documents.texts.lookup document.1 = some document.2 :=
    (lookup_eq_some_iff_mem hpaths).2 h
  have hread := hsaved.toOption_readText hroot hplace hsave.plain
  rw [← hsave.path_eq, hlookup] at hread
  exact toOption_eq_some.1 hread

end

section

variable {files found : List String} (hfiles : project.Lists config disk place files)
  (hfound : project.Lists config saved place found)
  (hsaved : disk.Stores project.root place documents.texts saved)

include hsaved

theorem unlisted_saved_iff {names : List Name} :
    saved.Unlisted place names ↔ disk.Unlisted place names := by
  rw [Disk.Unlisted, Disk.Unlisted, hsaved.extending.unlistable_eq]

include hfiles in
/-- Every file that is searched is shown below the root, over no link. -/
theorem exists_plain_of_searched (tree : disk.IsTree) (hplace : disk.get? place = some .directory)
    (hshown : ∀ names, disk.HasFile place names → ¬ Name.AllText names →
      disk.Plain place (names.map Name.shown))
    {path : String} (h : path ∈ files ++ documents.paths.filter project.accepts) :
    ∃ names, disk.Plain place names ∧
      path = Path.join project.root (Path.joinSegments names) := by
  rcases List.mem_append.1 h with hpath | hpath
  · obtain ⟨names, rfl, hfile, -⟩ := (hfiles path).1 hpath
    by_cases hall : Name.AllText names
    · obtain ⟨texts, rfl⟩ := hall
      exact ⟨texts, tree.plain_of_hasFile hplace hfile, Path.below_texts _ _⟩
    · exact ⟨names.map Name.shown, hshown names hfile hall, rfl⟩
  · obtain ⟨names, hsave⟩ := hsaved.savable path (List.mem_of_mem_filter hpath)
    exact ⟨names, hsave.plain, hsave.path_eq⟩

include hfiles hfound in
/-- With the open documents, the same files are searched before and after saving. -/
theorem mem_searched_iff (tree : disk.IsTree) {path : String} :
    path ∈ files ++ documents.paths.filter project.accepts ↔
      path ∈ found ++ documents.paths.filter project.accepts := by
  rw [List.mem_append, List.mem_append]
  constructor
  · intro h
    rcases h with hpath | hpath
    · obtain ⟨names, rfl, hfile, haccepts, hlisted, hreach⟩ := (hfiles path).1 hpath
      refine .inl ((hfound _).2 ⟨names, rfl, ?_, haccepts,
        mt (unlisted_saved_iff hsaved).1 hlisted, hreach⟩)
      by_cases hall : Name.AllText names
      · obtain ⟨texts, rfl⟩ := hall
        obtain ⟨hne, hname⟩ := isName_of_hasFile_texts tree hfile
        exact (hsaved.hasFile_iff tree hne hname).2 (.inl hfile)
      · exact (hsaved.hasFile_raw_iff tree hall).2 hfile
    · exact .inr hpath
  · intro h
    rcases h with hpath | hpath
    · obtain ⟨names, rfl, hfile, haccepts, hlisted, hreach⟩ := (hfound path).1 hpath
      have hlisted := mt (unlisted_saved_iff hsaved).2 hlisted
      by_cases hall : Name.AllText names
      · obtain ⟨texts, rfl⟩ := hall
        obtain ⟨hne, hname⟩ := isName_of_hasFile_texts hsaved.isTree hfile
        rcases (hsaved.hasFile_iff tree hne hname).1 hfile with hold | hopen
        · exact .inl ((hfiles _).2 ⟨_, rfl, hold, haccepts, hlisted, hreach⟩)
        · rw [OsPath.ofNames_texts, ← accepts_join project hne hname] at haccepts
          rw [Path.below_texts]
          exact .inr (List.mem_filter.2 ⟨hopen, haccepts⟩)
      · have hold := (hsaved.hasFile_raw_iff tree hall).1 hfile
        exact .inl ((hfiles _).2 ⟨names, rfl, hold, haccepts, hlisted, hreach⟩)
    · exact .inr hpath

include hfiles hfound in
/-- With the open documents as further files, a lookup reads the same before and after saving. -/
theorem find_unsaved (tree : disk.IsTree) (hroot : disk.resolve project.root = .ok place)
    (hplace : disk.get? place = some .directory)
    (hshown : ∀ names, disk.HasFile place names → ¬ Name.AllText names →
      disk.Plain place (names.map Name.shown))
    (hdiscover : project.discover disk = .ok files)
    (hdiscover' : project.discover saved = .ok found) {file : String}
    (hread : documents.readText disk file = saved.readText file) (position : Position)
    (log : List String) :
    (project.find disk (documents.source disk) file position
        (documents.paths.filter project.accepts) log).1 =
      (project.find saved saved.source file position (documents.paths.filter project.accepts)
        log).1 := by
  rw [find_eq hdiscover, find_eq hdiscover']
  refine findReferences_congr (fun candidate => ?_) hread (fun candidate hcandidate => ?_) _ _ _
  · rw [List.mem_cons, List.mem_cons, mem_searched_iff hfiles hfound hsaved tree]
  · rcases List.mem_cons.1 hcandidate with rfl | hcandidate
    · rw [hread]
    · obtain ⟨others, hothers, rfl⟩ :=
        exists_plain_of_searched hfiles hsaved tree hplace hshown hcandidate
      exact toOption_readText_saved hroot hplace hsaved hothers

include hfound in
/-- The open documents that are not found once they are saved. -/
theorem missed_of_not_mem_found (tree : disk.IsTree) {path : String}
    (hopen : path ∈ documents.paths) (haccepts : project.accepts path = true)
    (hnot : path ∉ found) : project.Missed config disk place path := by
  obtain ⟨names, hsave⟩ := hsaved.savable path hopen
  obtain ⟨hne, hname, -⟩ := hsave.plain
  have hpath := hsave.path_eq
  have hfile : saved.HasFile place (names.map .text) :=
    (hsaved.hasFile_iff tree hne hname).2 (.inr (hpath ▸ hopen))
  refine ⟨haccepts, names, hpath, hname, ?_⟩
  by_contra hmissed
  rw [not_or] at hmissed
  refine hnot ((hfound path).2 ⟨names.map .text, by rw [Path.below_texts, hpath], hfile, ?_,
    mt (unlisted_saved_iff hsaved).1 hmissed.1, hmissed.2, project.filter.not_prunesRaw names⟩)
  rw [OsPath.ofNames_texts, ← accepts_join project hne hname, ← hpath]
  exact haccepts

/-- On the saved disk, the further files show exactly if the name occurs in one that is not
found. -/
theorem find_saved_iff (hroot : disk.resolve project.root = .ok place)
    (hplace : disk.get? place = some .directory) (hpaths : documents.paths.Nodup)
    (hdiscover : project.discover saved = .ok found) (file : String) (position : Position)
    (log : List String) :
    (project.find saved saved.source file position (documents.paths.filter project.accepts)
        log).1 =
      (project.find saved saved.source file position [] log).1 ↔
    ∀ name, symbolOf saved.readText file position = .ok name →
      ∀ document ∈ documents.texts, document.1 ≠ file → project.accepts document.1 = true →
        document.1 ∉ found → Locator.inText document.1 name.toList document.2 = [] := by
  have hinFile : ∀ document ∈ documents.texts, ∀ name,
      Locator.inFile saved.readText name document.1 =
        Locator.inText document.1 name document.2 := by
    intro document hdocument name
    rw [Locator.inFile, readText_saved hroot hplace hsaved hpaths hdocument]
  rw [find_eq hdiscover, find_eq hdiscover, List.append_nil, Disk.source,
    findReferences_append_iff]
  refine forall_congr' fun name => imp_congr_right fun _ => ?_
  constructor
  · intro h document hdocument hne haccepts hnot
    have hopen : document.1 ∈ documents.paths := List.mem_map_of_mem hdocument
    rw [← hinFile document hdocument]
    exact h document.1 (List.mem_filter.2 ⟨hopen, haccepts⟩) (by simp [hne, hnot])
  · intro h candidate hcandidate hnot
    obtain ⟨hopen, haccepts⟩ := List.mem_filter.1 hcandidate
    obtain ⟨document, hdocument, rfl⟩ := List.mem_map.1 hopen
    rw [List.mem_cons, not_or] at hnot
    rw [hinFile document hdocument]
    exact h document hdocument hnot.1 haccepts hnot.2

end

end Project

end Usages
