/-
Which files a workspace has. Not entering a directory leaves out no file that would be searched, as
long as no exclude pattern overreaches and all names are texts; so the files that are found are the
accepted ones in directories that can be listed, in the order of their paths.
-/
import Usages.Project
import Usages.Proofs.Disk
import Usages.Proofs.Glob

namespace Usages

/-! ## Names in order -/

theorem mem_insertNames {names other : List Name} {list : List (List Name)} :
    other ∈ insertNames names list ↔ other = names ∨ other ∈ list := by
  induction list with
  | nil => simp [insertNames]
  | cons first rest ih =>
    rw [insertNames]
    split
    · exact List.mem_cons
    · rw [List.mem_cons, ih, List.mem_cons]
      exact or_left_comm

/-- Names put into an ascending list that does not have them. -/
theorem pairwise_insertNames {names : List Name} {list : List (List Name)}
    (hnew : names ∉ list) (h : list.Pairwise NamesBefore) :
    (insertNames names list).Pairwise NamesBefore := by
  induction list with
  | nil => simp [insertNames]
  | cons first rest ih =>
    rw [List.mem_cons, not_or] at hnew
    obtain ⟨hfirst, hrest⟩ := List.pairwise_cons.1 h
    rw [insertNames]
    split
    next hbefore =>
      have hlt := namesBefore_iff.1 hbefore
      refine List.pairwise_cons.2 ⟨fun other hother => ?_, h⟩
      rcases List.mem_cons.1 hother with rfl | hother
      · exact hlt
      · exact hlt.trans (hfirst other hother)
    next hnot =>
      refine List.pairwise_cons.2 ⟨fun other hother => ?_, ih hnew.2 hrest⟩
      rcases mem_insertNames.1 hother with rfl | hother
      · exact NamesBefore.of_not (mt namesBefore_iff.2 hnot) hnew.1
      · exact hfirst other hother

theorem mem_foldr_insertNames {list : List (List Name)} {names : List Name} :
    names ∈ list.foldr insertNames [] ↔ names ∈ list := by
  induction list with
  | nil => simp
  | cons first rest ih => rw [List.foldr_cons, mem_insertNames, ih, List.mem_cons]

theorem pairwise_foldr_insertNames {list : List (List Name)} (h : list.Nodup) :
    (list.foldr insertNames []).Pairwise NamesBefore := by
  induction list with
  | nil => exact List.Pairwise.nil
  | cons first rest ih =>
    obtain ⟨hfirst, hrest⟩ := List.nodup_cons.1 h
    exact pairwise_insertNames (mt mem_foldr_insertNames.1 hfirst) (ih hrest)

/-! ## Directories on the way -/

theorem mem_properPrefixes {α : Type} {directory names : List α} :
    directory ∈ properPrefixes names ↔
      directory ≠ [] ∧ ∃ rest, rest ≠ [] ∧ names = directory ++ rest := by
  fun_induction properPrefixes names generalizing directory with
  | case1 => simp [eq_comm]
  | case2 name =>
    simp only [List.not_mem_nil, false_iff]
    intro h
    obtain ⟨hne, rest, hrest, h⟩ := h
    have hlength := congrArg List.length h
    have hdirectory := List.length_pos_iff.2 hne
    have hrest := List.length_pos_iff.2 hrest
    simp only [List.length_append, List.length_singleton] at hlength
    omega
  | case3 name next rest ih =>
    rw [List.mem_cons, List.mem_map]
    constructor
    · intro h
      rcases h with rfl | ⟨front, hfront, rfl⟩
      · exact ⟨by simp, next :: rest, by simp, rfl⟩
      · obtain ⟨-, others, hothers, hcut⟩ := ih.1 hfront
        exact ⟨by simp, others, hothers, by rw [hcut]; rfl⟩
    · intro h
      obtain ⟨hne, others, hothers, hcut⟩ := h
      obtain ⟨first, front, rfl⟩ := List.exists_cons_of_ne_nil hne
      obtain ⟨rfl, htail⟩ := List.cons.inj hcut
      by_cases hfront : front = []
      · exact .inl (by rw [hfront])
      · exact .inr ⟨front, ih.2 ⟨hfront, others, hothers, htail⟩, rfl⟩

/-- Some directory on the way to the file is not entered because a pattern overreaches. -/
def Config.Overreached (config : Config) (names : List Name) : Prop :=
  ∃ directory : List String, directory.map .text ∈ properPrefixes names ∧
    config.Overreaches (Path.joinSegments directory)

/-- The file has a name that is no text, and a directory on the way to it is not entered. The
patterns are for texts, so the file itself may be accepted. -/
def FileFilter.PrunesRaw (filter : FileFilter) (names : List Name) : Prop :=
  ¬ Name.AllText names ∧
    ∃ directory ∈ properPrefixes names, filter.acceptsDirectory (.ofNames directory) = false

/-- Some directory on the way to the file cannot be listed. -/
def Disk.Unlisted (disk : Disk) (place : List String) (names : List Name) : Prop :=
  ∃ directory ∈ properPrefixes names,
    disk.unlistable.lookup (place.map .text ++ directory) ≠ none

theorem Config.not_overreaches (config : Config)
    (h : ∀ pattern ∈ config.excludePatterns, FileFilter.overreaches pattern = false)
    (directory : String) : ¬ config.Overreaches directory := by
  intro hover
  obtain ⟨pattern, hpattern, hreach, -⟩ := hover
  rw [h pattern hpattern] at hreach
  cases hreach

theorem Config.not_overreached (config : Config)
    (h : ∀ pattern ∈ config.excludePatterns, FileFilter.overreaches pattern = false)
    (names : List Name) : ¬ config.Overreached names := by
  intro hover
  obtain ⟨directory, -, hreach⟩ := hover
  exact config.not_overreaches h _ hreach

theorem FileFilter.not_prunesRaw (filter : FileFilter) (texts : List String) :
    ¬ filter.PrunesRaw (texts.map .text) := by
  intro hpruned
  obtain ⟨hraw, -⟩ := hpruned
  exact hraw ⟨texts, rfl⟩

/-- The walk comes to exactly the accepted files that no pattern overreaches and that are not raw
below a directory that is left out. -/
theorem FileFilter.reaches_iff {config : Config} {filter : FileFilter}
    (h : FileFilter.ofConfig config = .ok filter) {names : List Name} :
    filter.reaches names = true ↔
      filter.acceptsFile (.ofNames names) = true ∧ ¬ config.Overreached names ∧
        ¬ filter.PrunesRaw names := by
  rw [reaches, Bool.and_eq_true, List.all_eq_true]
  constructor
  · intro hreached
    obtain ⟨hdirectories, hfile⟩ := hreached
    refine ⟨hfile, ?_, ?_⟩
    · intro hover
      obtain ⟨directory, hdirectory, hreach⟩ := hover
      have hentered := hdirectories _ hdirectory
      rw [OsPath.ofNames_texts, not_acceptsDirectory_of_overreaches h hreach] at hentered
      cases hentered
    · intro hpruned
      obtain ⟨-, directory, hdirectory, hnot⟩ := hpruned
      cases hnot.symm.trans (hdirectories directory hdirectory)
  · intro haccepted
    obtain ⟨hfile, hreach, hraw⟩ := haccepted
    refine ⟨fun directory hdirectory => ?_, hfile⟩
    refine Bool.of_not_eq_false fun hnot => ?_
    by_cases hall : Name.AllText names
    · -- The patterns leave out what lies below the directory, and so the file.
      obtain ⟨texts, rfl⟩ := hall
      obtain ⟨hne, rest, hrest, hcut⟩ := mem_properPrefixes.1 hdirectory
      obtain ⟨upper, lower, rfl, rfl, rfl⟩ := List.map_eq_append_iff.1 hcut
      rw [OsPath.ofNames_texts] at hfile hnot
      have hbelow := not_acceptsFile_below h hnot (fun hover => hreach ⟨upper, hdirectory, hover⟩)
        (Path.joinSegments lower)
      rw [← Path.joinSegments_append (by simpa using hne) (by simpa using hrest), hfile] at hbelow
      cases hbelow
    · exact hraw ⟨hall, directory, hdirectory, hnot⟩

/-! ## What is found -/

theorem Disk.listsTo_iff {disk : Disk} {place : List String} {names : List Name} :
    disk.listsTo place names = true ↔ ¬ disk.Unlisted place names := by
  simp only [listsTo, Unlisted, List.all_eq_true, Option.isNone_iff_eq_none, not_exists, not_and,
    ne_eq, Classical.not_not]

theorem Disk.mem_discoverBelow {disk : Disk} {place : List String} {names : List Name}
    {filter : FileFilter} :
    names ∈ disk.discoverBelow place filter ↔
      names ∈ disk.filesBelow place ∧ ¬ disk.Unlisted place names ∧
        filter.reaches names = true := by
  rw [discoverBelow, mem_foldr_insertNames, List.mem_filter, Bool.and_eq_true, listsTo_iff]

theorem Disk.IsTree.pairwise_discoverBelow {disk : Disk} (tree : disk.IsTree) (place : List String)
    (filter : FileFilter) : (disk.discoverBelow place filter).Pairwise NamesBefore :=
  pairwise_foldr_insertNames ((tree.nodup_filesBelow place).filter _)

namespace Project

variable {project : Project} {disk : Disk} {place : List String}

theorem files_eq (hroot : disk.resolve project.root = .ok place)
    (hplace : disk.get? place = some .directory)
    (hlists : disk.unlistable.lookup (place.map .text) = none) :
    project.files disk = .ok (disk.discoverBelow place project.filter) := by
  simp only [files, Disk.discover, hroot, if_pos hplace, hlists]

theorem discover_eq (hroot : disk.resolve project.root = .ok place)
    (hplace : disk.get? place = some .directory)
    (hlists : disk.unlistable.lookup (place.map .text) = none) :
    project.discover disk =
      .ok ((disk.discoverBelow place project.filter).map (Path.below project.root)) := by
  rw [discover, files_eq hroot hplace hlists]
  rfl

theorem discover_eq_error {cause : OsError} (hroot : disk.resolve project.root = .ok place)
    (hplace : disk.get? place = some .directory)
    (hlists : disk.unlistable.lookup (place.map .text) = some cause) :
    project.discover disk = .error (.walk ⟨project.root, cause⟩) := by
  simp only [discover, files, Disk.discover, hroot, if_pos hplace, hlists]
  rfl

theorem accepts_join (project : Project) {names : List String} (hne : names ≠ [])
    (h : ∀ name ∈ names, Path.IsName name) :
    project.accepts (Path.join project.root (Path.joinSegments names)) =
      project.filter.acceptsFile (Path.joinSegments names) := by
  rw [accepts, Path.relativeTo?_join project.root hne h]

/-- The names of the files that are found. -/
theorem mem_discoverBelow_iff (tree : disk.IsTree) {config : Config}
    (hfilter : FileFilter.ofConfig config = .ok project.filter)
    (hplace : disk.get? place = some .directory) {names : List Name} :
    names ∈ disk.discoverBelow place project.filter ↔
      disk.HasFile place names ∧ project.filter.acceptsFile (.ofNames names) = true ∧
        ¬ disk.Unlisted place names ∧ ¬ config.Overreached names ∧
        ¬ project.filter.PrunesRaw names := by
  rw [Disk.mem_discoverBelow, tree.mem_filesBelow_iff hplace, FileFilter.reaches_iff hfilter,
    and_left_comm (a := ¬ disk.Unlisted place names)]

theorem isName_of_hasFile_texts (tree : disk.IsTree) {texts : List String}
    (h : disk.HasFile place (texts.map .text)) :
    texts ≠ [] ∧ ∀ name ∈ texts, Path.IsName name := by
  refine ⟨by simpa using h.ne_nil, fun name hname => ?_⟩
  exact tree.isName_of_hasFile h (.text name) (List.mem_map_of_mem hname)

/-- For a file whose names are texts only its path counts. -/
theorem texts_mem_discoverBelow_iff (tree : disk.IsTree) {config : Config}
    (hfilter : FileFilter.ofConfig config = .ok project.filter)
    (hplace : disk.get? place = some .directory) {texts : List String}
    (hfile : disk.HasFile place (texts.map .text)) :
    texts.map .text ∈ disk.discoverBelow place project.filter ↔
      project.accepts (Path.join project.root (Path.joinSegments texts)) = true ∧
        ¬ disk.Unlisted place (texts.map .text) ∧ ¬ config.Overreached (texts.map .text) := by
  obtain ⟨hne, hname⟩ := isName_of_hasFile_texts tree hfile
  rw [mem_discoverBelow_iff tree hfilter hplace, accepts_join project hne hname,
    OsPath.ofNames_texts, and_iff_left (project.filter.not_prunesRaw texts), and_iff_right hfile]

/-- **The files of a project are the accepted ones**, in the order of their paths and each once,
but for those below a directory that is passed over without leaving its files out: one that cannot
be listed, one that a pattern overreaches, and, for a file with a name that is no text, one that is
left out. No pattern overreaches unless an exclude pattern ends in `**//**`. If the root itself
cannot be listed, that is the failure. -/
theorem discover_finds_accepted (tree : disk.IsTree) {config : Config}
    (hfilter : FileFilter.ofConfig config = .ok project.filter)
    (hroot : disk.resolve project.root = .ok place)
    (hplace : disk.get? place = some .directory) :
    (∀ cause, disk.unlistable.lookup (place.map .text) = some cause →
      project.discover disk = .error (.walk ⟨project.root, cause⟩)) ∧
    (disk.unlistable.lookup (place.map .text) = none →
      ∃ files, project.files disk = .ok files ∧
        project.discover disk = .ok (files.map (Path.below project.root)) ∧
        files.Pairwise NamesBefore ∧ files.Nodup ∧
        (∀ names, names ∈ files ↔
          disk.HasFile place names ∧ project.filter.acceptsFile (.ofNames names) = true ∧
            ¬ disk.Unlisted place names ∧ ¬ config.Overreached names ∧
            ¬ project.filter.PrunesRaw names) ∧
        ∀ texts : List String, disk.HasFile place (texts.map .text) →
          (texts.map .text ∈ files ↔
            project.accepts (Path.join project.root (Path.joinSegments texts)) = true ∧
              ¬ disk.Unlisted place (texts.map .text) ∧
              ¬ config.Overreached (texts.map .text))) ∧
    (∀ directory : String, project.filter.acceptsDirectory directory = false →
      ¬ config.Overreaches directory →
        ∀ rest, project.filter.acceptsFile (directory ++ "/" ++ rest : String) = false) ∧
    ((∀ pattern ∈ config.excludePatterns, FileFilter.overreaches pattern = false) →
      (∀ names, ¬ config.Overreached names) ∧ ∀ directory, ¬ config.Overreaches directory) := by
  refine ⟨fun cause hcause => discover_eq_error hroot hplace hcause, fun hlists => ?_,
    fun directory hnot hreach => FileFilter.not_acceptsFile_below hfilter hnot hreach,
    fun hpatterns => ⟨config.not_overreached hpatterns, config.not_overreaches hpatterns⟩⟩
  have hordered := tree.pairwise_discoverBelow place project.filter
  exact ⟨_, files_eq hroot hplace hlists, discover_eq hroot hplace hlists, hordered,
    hordered.imp NamesBefore.ne, fun names => mem_discoverBelow_iff tree hfilter hplace,
    fun texts hfile => texts_mem_discoverBelow_iff tree hfilter hplace hfile⟩

/-- Beside a link, a file that is found and a file in a directory that is left out. Of the accepted
files, the one in a directory that cannot be listed is not found, nor is the one with a name that is
no text. -/
theorem discover_finds_accepted_beside_link :
    let raw : Name := .raw [0x80, 0x2E, 0x74, 0x73] (by decide +kernel)
    let disk : Disk :=
      { entries := [(["w"], .directory), (["w", "src"], .directory),
          (["w", "src", "b.ts"], .text ""), (["w", "gen"], .directory),
          (["w", "gen", "a.ts"], .binary), (["w", "gen", raw], .text ""),
          (["w", "shut"], .directory), (["w", "shut", "d.ts"], .text ""),
          (["w", "c.ts"], .link "src/b.ts")]
        unlistable := [(["w", "shut"], .permissionDenied)] }
    let config : Config := { excludes := some ["**/gen/**"] }
    let directories : List Glob.Token := [.anyComponents, .char 'g', .char 'e', .char 'n']
    let project : Project := ⟨"/w", config, none, .default,
      ⟨[], [⟨directories ++ [.char '/', .anyComponents]⟩], [⟨directories⟩]⟩⟩
    disk.IsTree ∧ FileFilter.ofConfig config = .ok project.filter ∧
      disk.resolve project.root = .ok ["w"] ∧ disk.get? ["w"] = some .directory ∧
      disk.unlistable.lookup (["w"].map .text) = none ∧
      ∃ files, project.files disk = .ok files ∧ files.Nodup ∧
        ["src", "b.ts"].map .text ∈ files ∧ ["gen", "a.ts"].map .text ∉ files ∧
        project.accepts "/w/shut/d.ts" = true ∧ ["shut", "d.ts"].map .text ∉ files ∧
        project.filter.acceptsFile (.ofNames ["gen", raw]) = true ∧ [.text "gen", raw] ∉ files := by
  intro raw disk config directories project
  have tree : disk.IsTree := by decide +kernel
  have hfilter : FileFilter.ofConfig config = .ok project.filter := by decide +kernel
  have hroot : disk.resolve project.root = .ok ["w"] := by decide +kernel
  have hplace : disk.get? ["w"] = some .directory := by decide
  have hlists : disk.unlistable.lookup (["w"].map .text) = none := by decide
  obtain ⟨-, hfound, -, hreach⟩ := discover_finds_accepted tree hfilter hroot hplace
  obtain ⟨files, hfiles, -, -, hnodup, hmem, htexts⟩ := hfound hlists
  refine ⟨tree, hfilter, hroot, hplace, hlists, files, hfiles, hnodup, ?_, ?_,
    by decide +kernel, ?_, by decide +kernel, ?_⟩
  · have hfile : disk.HasFile ["w"] (["src", "b.ts"].map .text) :=
      ⟨["src"], "b.ts", rfl, .enter .start (by decide), .text "", by decide, rfl⟩
    have haccepts :
        project.accepts (Path.join "/w" (Path.joinSegments ["src", "b.ts"])) = true := by
      decide +kernel
    refine (htexts _ hfile).2 ⟨haccepts, ?_, (hreach (by decide)).1 _⟩
    intro hunlisted
    obtain ⟨directory, hdirectory, hlocked⟩ := hunlisted
    obtain rfl := List.mem_singleton.1 hdirectory
    exact hlocked (by decide)
  · intro hgen
    have hfile : disk.HasFile ["w"] (["gen", "a.ts"].map .text) := ((hmem _).1 hgen).1
    have hrejects :
        project.accepts (Path.join "/w" (Path.joinSegments ["gen", "a.ts"])) = false := by
      decide +kernel
    cases hrejects.symm.trans ((htexts _ hfile).1 hgen).1
  · intro hshut
    obtain ⟨-, -, hlisted, -⟩ := (hmem _).1 hshut
    exact hlisted ⟨["shut"], by decide, by decide⟩
  · intro hraw
    obtain ⟨-, -, -, -, hpruned⟩ := (hmem _).1 hraw
    exact hpruned ⟨Name.not_allText_of_raw rfl, ["gen"], by decide, by decide +kernel⟩

/-- With an exclude pattern that overreaches, an accepted file is not found. -/
theorem discover_misses_accepted :
    let disk : Disk := { entries := [(["w"], .directory), (["w", "a"], .directory),
      (["w", "a", "b.ts"], .text ""), (["w", "c.ts"], .text "")] }
    ∃ project, ofConfig "/w" { excludes := some ["**//**"] } = .ok project ∧
      disk.IsTree ∧ disk.HasFile ["w"] ["a", "b.ts"] ∧
      project.accepts "/w/a/b.ts" = true ∧ project.discover disk = .ok ["/w/c.ts"] := by
  intro disk
  let filter : FileFilter :=
    ⟨[], [⟨[.anyComponents, .char '/', .anyComponents]⟩], [⟨[.anyComponents]⟩]⟩
  have hfile : disk.HasFile ["w"] ["a", "b.ts"] :=
    ⟨["a"], "b.ts", rfl, .enter .start (by decide), .text "", by decide, rfl⟩
  refine ⟨⟨"/w", { excludes := some ["**//**"] }, none, .withExtra [], filter⟩, ?_, by decide,
    hfile, ?_, ?_⟩
  · decide +kernel
  · decide +kernel
  · decide +kernel

end Project

end Usages
