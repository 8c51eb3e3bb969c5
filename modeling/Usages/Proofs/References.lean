/-
Two ways to ask a server for references: as a list of locations, and as a tree in the panel.

Both choose the project of the file, list its files, add the open documents and turn the cursor into
characters. Then the list is what the search finds, and the tree is made by a lookup, which reads
the word under the cursor first, drops repetitions and splits by kind. `lookup_cases` compares the
two step by step: they fail together, and when they do not, the entries of the lookup are the
locations of the list in the same order. `references_agree_with_findAll` states the agreement as
the client sees it.
-/
import Usages.Proofs.Except
import Usages.Proofs.Find
import Usages.Proofs.Path
import Usages.Proofs.Session
import Usages.Proofs.Tree
import Usages.Proofs.Units
import Usages.Proofs.Uri
import Usages.Server.Lookup

namespace Usages

/-! ## Locations as the client sees them -/

/-- Reading order as the client sees it: by the file that is named, then by line and by column. -/
def ClientLocation.Before (location other : ClientLocation) : Prop :=
  ∃ file otherFile, location.uri.file? = some file ∧ other.uri.file? = some otherFile ∧
    (file < otherFile ∨ file = otherFile ∧
      (location.range.start.line < other.range.start.line ∨
        location.range.start.line = other.range.start.line ∧
          location.range.start.column < other.range.start.column))

namespace Server

variable (server : Server) (disk : Disk)

/-- The locations that the client can be told of, as it sees them. -/
def shown (locations : List Location) : List ClientLocation :=
  locations.filterMap (server.clientLocation? disk)

theorem shown_append (front back : List Location) :
    server.shown disk (front ++ back) = server.shown disk front ++ server.shown disk back :=
  List.filterMap_append

theorem shown_cut (front back : List Location) (under : Location) :
    server.shown disk (front ++ under :: back) =
      server.shown disk front ++ (server.clientLocation? disk under).toList ++
        server.shown disk back := by
  rw [shown_append, List.append_assoc, shown, shown, shown, List.filterMap_cons]
  cases server.clientLocation? disk under <;> rfl

/-- A file with an absolute path has an identifier, and that names the file. -/
theorem clientLocation?_of_absolute {location : Location}
    (h : Path.isAbsolute location.file = true) :
    ∃ client, server.clientLocation? disk location = some client ∧
      client.uri.file? = some location.file ∧
      client.range.start = server.clientPosition disk location.file location.range.start := by
  rw [clientLocation?, uriOf?, if_pos h]
  exact ⟨_, rfl, Uri.file?_ofAbsolutePath h, rfl⟩

variable {server disk}

theorem before_of_before {location other : Location} {client otherClient : ClientLocation}
    (hfile : Path.isAbsolute location.file = true) (hother : Path.isAbsolute other.file = true)
    (hfits : server.Fits disk location) (hotherFits : server.Fits disk other)
    (h : location.Before other) (hclient : server.clientLocation? disk location = some client)
    (hotherClient : server.clientLocation? disk other = some otherClient) :
    client.Before otherClient := by
  obtain ⟨_, hsome, huri, hstart⟩ := clientLocation?_of_absolute server disk hfile
  cases hclient.symm.trans hsome
  obtain ⟨_, hsome', huri', hstart'⟩ := clientLocation?_of_absolute server disk hother
  cases hotherClient.symm.trans hsome'
  refine ⟨_, _, huri, huri', ?_⟩
  rw [hstart, hstart', clientPosition_of_fits hfits.1, clientPosition_of_fits hotherFits.1,
    Encoding.line_ofChars, Encoding.line_ofChars]
  rcases h with h | ⟨hsame, h | ⟨hline, h⟩⟩
  · exact .inl h
  · exact .inr ⟨hsame, .inl h⟩
  · rw [hsame, hline]
    exact .inr ⟨rfl, .inr ⟨rfl, Encoding.column_ofChars_lt _ _ h⟩⟩

theorem pairwise_shown {locations : List Location} (h : locations.Pairwise Location.Before)
    (habsolute : ∀ location ∈ locations, Path.isAbsolute location.file = true)
    (hfits : ∀ location ∈ locations, server.Fits disk location) :
    (server.shown disk locations).Pairwise ClientLocation.Before := by
  refine List.pairwise_filterMap.2 (h.imp_of_mem ?_)
  intro location other hlocation hother hbefore client hclient otherClient hotherClient
  exact before_of_before (habsolute location hlocation) (habsolute other hother)
    (hfits location hlocation) (hfits other hother) hbefore hclient hotherClient

theorem length_shown {locations : List Location}
    (habsolute : ∀ location ∈ locations, Path.isAbsolute location.file = true) :
    (server.shown disk locations).length = locations.length := by
  rw [shown, List.length_filterMap_eq_countP, List.countP_eq_length]
  intro location hlocation
  obtain ⟨client, hclient, -⟩ := clientLocation?_of_absolute server disk (habsolute _ hlocation)
  rw [hclient]
  rfl

/-! ## Absolute paths -/

/-- Documents have absolute paths: those that are open, and the one that is asked about. -/
def DocumentsAbsolute (server : Server) (place : DocumentPosition) : Prop :=
  (∀ file, place.uri.file? = some file → Path.isAbsolute file = true) ∧
    ∀ file ∈ server.documents.paths, Path.isAbsolute file = true

theorem root_of_ofConfig {root : String} {config : Config} {project : Project}
    (h : Project.ofConfig root config = .ok project) : project.root = root := by
  rw [Project.ofConfig] at h
  split at h
  · cases h
  · cases h
    rfl

theorem root_of_ofRoot {root : String} {project : Project}
    (h : Project.ofRoot disk root = .ok project) : project.root = root := by
  rw [Project.ofRoot] at h
  split at h
  · rw [Project.ofConfigFile] at h
    split at h
    · cases h
    · obtain ⟨found, hfound, hproject⟩ := bind_eq_ok.1 h
      cases hproject
      change found.root = root
      exact root_of_ofConfig hfound
  · exact root_of_ofConfig h

/-- The project of a file with an absolute path has an absolute root, if it has files at all. -/
theorem isAbsolute_root {file : String} {workspace : Option String} {project : Project}
    {files : List String} (hfile : Path.isAbsolute file = true)
    (hproject : server.projectFor disk file = .ok (workspace, project))
    (hfiles : project.discover disk = .ok files) : Path.isAbsolute project.root = true := by
  rcases projectFor_cases hproject with ⟨_, -, -, hcontains⟩ | ⟨-, hroot⟩
  · have hne : project.root ≠ "" := by
      intro hempty
      have hfailed : project.discover disk = .error (.walk ⟨"", .notFound⟩) := by
        rw [Project.discover, Project.files, hempty]
        rfl
      cases hfailed.symm.trans hfiles
    exact Path.isAbsolute_of_startsWith hfile hne hcontains
  · rw [root_of_ofRoot hroot]
    cases hparent : Path.parent? file with
    | none => exact hfile
    | some parent => exact Path.isAbsolute_parent? hfile hparent

theorem isAbsolute_of_mem_discover {project : Project} {files : List String} {file : String}
    (hroot : Path.isAbsolute project.root = true) (hfiles : project.discover disk = .ok files)
    (h : file ∈ files) : Path.isAbsolute file = true := by
  obtain ⟨names, -, rfl⟩ := map_eq_ok.1 hfiles
  obtain ⟨_, -, rfl⟩ := List.mem_map.1 h
  exact Path.isAbsolute_join hroot _

/-- All files that are searched from an absolute path have one. -/
theorem DocumentsAbsolute.searched {place : DocumentPosition} {file : String}
    {workspace : Option String} {project : Project} {files : List String}
    (h : server.DocumentsAbsolute place) (hfile : place.uri.file? = some file)
    (hproject : server.projectFor disk file = .ok (workspace, project))
    (hfiles : project.discover disk = .ok files) {searched : String}
    (hsearched : searched ∈ file :: (files ++ server.openFiles project)) :
    Path.isAbsolute searched = true := by
  rcases List.mem_cons.1 hsearched with rfl | hsearched
  · exact h.1 _ hfile
  rcases List.mem_append.1 hsearched with hfound | hopen
  · have hroot := isAbsolute_root (h.1 file hfile) hproject hfiles
    exact isAbsolute_of_mem_discover hroot hfiles hfound
  · exact h.2 _ (List.mem_filter.1 hopen).1

/-! ## Where the two ways meet -/

/-- The location is that of the word under the cursor. -/
def WordUnder (server : Server) (disk : Disk) (place : DocumentPosition) (location : Location) :
    Prop :=
  ∃ file text line word, place.uri.file? = some file ∧
    server.documents.readText disk file = .ok text ∧
    (Text.lines text.toList)[(server.charPosition disk file place.position).line]? = some line ∧
    Text.wordAt line (server.charPosition disk file place.position).column = some word ∧
    location = word.locationIn file (server.charPosition disk file place.position).line

variable {place : DocumentPosition} {file : String}

/-- The search and the lookup fail together, and only for want of a word. -/
theorem search_and_lookup_cases (read : String → Except SourceError String) (files : List String)
    (classifier : Classifier) (file : String) (position : Position) :
    (∃ failure, (findReferences (Locator.words (.fixed read) files) (.fixed read) classifier file
        position []).1 = .error failure ∧
      ∃ failure, (Locator.words (.fixed read) files file position []).1 = .error failure) ∨
    ∃ text line word, read file = .ok text ∧
      (Text.lines text.toList)[position.line]? = some line ∧
      Text.wordAt line position.column = some word := by
  cases hread : read file with
  | error error =>
    have hsymbol : ∃ failure, symbolOf read file position = .error failure := by
      simp only [symbolOf, hread]
      exact ⟨_, rfl⟩
    obtain ⟨failure, hsymbol⟩ := hsymbol
    refine .inl ⟨failure, findReferences_of_no_symbol hsymbol _ classifier [], .source error, ?_⟩
    rw [Locator.words_fixed]
    simp only [hread]
  | ok text =>
    cases hword : (Text.line? text.toList position.line).bind (Text.wordAt · position.column) with
    | none =>
      have hsymbol : symbolOf read file position = .error (.noSymbolAt file position) := by
        simp only [symbolOf, hread, hword]
      refine .inl ⟨_, findReferences_of_no_symbol hsymbol _ classifier [],
        .noSymbolAt file position, ?_⟩
      rw [Locator.words_fixed]
      simp only [hread, hword]
    | some word =>
      obtain ⟨line, hline, hword⟩ := Option.bind_eq_some_iff.1 hword
      exact .inr ⟨text, line, word, rfl, hline, hword⟩

theorem references?_of_files {workspace : Option String} {project : Project} {files : List String}
    (hfile : place.uri.file? = some file)
    (hproject : server.projectFor disk file = .ok (workspace, project))
    (hfiles : project.discover disk = .ok files) (includeDeclaration : Bool) :
    server.references? disk place includeDeclaration =
      (Locator.words (.fixed (server.documents.readText disk)) (files ++ server.openFiles project)
        file (server.charPosition disk file place.position) []).1.toOption.map fun locations =>
          server.shown disk (locations.filter fun location => includeDeclaration ||
            !location.contains ⟨file, server.charPosition disk file place.position⟩) := by
  simp only [references?, hfile, hproject, hfiles, Except.toOption, Option.bind_eq_bind,
    Option.bind_some]
  rw [Option.map_eq_bind]
  rfl

theorem outcome_lookup_of_files {workspace : Option String} {project : Project}
    {files : List String} (hfile : place.uri.file? = some file)
    (hproject : server.projectFor disk file = .ok (workspace, project))
    (hfiles : project.discover disk = .ok files) :
    (server.lookup disk (some place)).outcome =
      (findReferences (Locator.words (.fixed (server.documents.readText disk))
        (files ++ server.openFiles project)) (.fixed (server.documents.readText disk))
          project.classifier file (server.charPosition disk file place.position) []).1 := by
  simp only [lookup, hfile, hproject, Option.bind_some, Option.map_some, Project.find, hfiles]
  rfl

/-- **The two ways step by step.** Either both fail, or the entries of the lookup are, in order, the
locations that the search finds without the word under the cursor. -/
theorem lookup_cases (server : Server) (disk : Disk) (place : DocumentPosition) :
    (∃ failure, (server.lookup disk (some place)).outcome = .error failure ∧
      ∀ includeDeclaration, server.references? disk place includeDeclaration = none) ∨
    ∃ name entries front under back,
      (server.lookup disk (some place)).outcome = .ok (.ofEntries name entries) ∧
      entries.map (·.location) = front ++ back ∧
      (front ++ under :: back).Pairwise Location.Before ∧ server.WordUnder disk place under ∧
      (server.DocumentsAbsolute place →
        ∀ location ∈ front ++ under :: back, Path.isAbsolute location.file = true) ∧
      server.references? disk place false = some (server.shown disk (front ++ back)) ∧
      server.references? disk place true = some (server.shown disk (front ++ under :: back)) := by
  cases hfile : place.uri.file? with
  | none =>
    refine .inl ⟨.noActiveDocument, ?_, fun includeDeclaration => ?_⟩
    · simp only [lookup, hfile, Option.bind_some, Option.map_none]
    · simp only [references?, hfile]
      rfl
  | some file =>
    cases hproject : server.projectFor disk file with
    | error failure =>
      refine .inl ⟨failure, ?_, fun includeDeclaration => ?_⟩
      · simp only [lookup, hfile, hproject, Option.bind_some, Option.map_some]
      · simp only [references?, hfile, hproject, Except.toOption, Option.bind_eq_bind,
          Option.bind_some, Option.bind_none]
    | ok found =>
      obtain ⟨workspace, project⟩ := found
      cases hfiles : project.discover disk with
      | error failure =>
        refine .inl ⟨failure, ?_, fun includeDeclaration => ?_⟩
        · simp only [lookup, hfile, hproject, Option.bind_some, Option.map_some, Project.find,
            hfiles]
          rfl
        · simp only [references?, hfile, hproject, hfiles, Except.toOption, Option.bind_eq_bind,
            Option.bind_some, Option.bind_none]
      | ok files =>
        simp only [outcome_lookup_of_files hfile hproject hfiles,
          references?_of_files hfile hproject hfiles]
        rcases search_and_lookup_cases (server.documents.readText disk)
          (files ++ server.openFiles project) project.classifier file
          (server.charPosition disk file place.position) with
          ⟨failure, hfailed, _, hsearch⟩ | ⟨text, line, word, hread, hline, hword⟩
        · refine .inl ⟨failure, hfailed, fun includeDeclaration => ?_⟩
          rw [hsearch]
          rfl
        · obtain ⟨entries, front, back, hfound, hsearch, hordered, hothers, hentries⟩ :=
            findReferences_at_word hread hline hword (files ++ server.openFiles project)
              project.classifier []
          refine .inr ⟨word.text, entries, front, _, back, hfound, hentries, hordered,
            ⟨file, text, line, word, hfile, hread, hline, hword, rfl⟩, ?_, ?_, ?_⟩
          · intro habsolute location hlocation
            exact habsolute.searched hfile hproject hfiles
              (Locator.file_mem_of_mem_words (hsearch []) hlocation)
          · have hkeep := filter_of_cut (contains_word hword) hothers
            simp only [hsearch, Except.toOption, Option.map_some, Bool.false_or, hkeep]
          · simp only [hsearch, Except.toOption, Option.map_some, Bool.true_or, List.filter_true]

/-- A tree and two lists of locations, without the word under the cursor and with it, tell the
same. -/
structure Agree (server : Server) (disk : Disk) (place : DocumentPosition)
    (options : DisplayOptions) (tree : Tree) (others all : List ClientLocation) : Prop where
  /-- The nodes of the tree stand at the locations of the list. -/
  nodes : (server.shown disk (tree.references.map (·.location))).Perm others
  /-- Nodes in a row keep the order of the list. -/
  rows : options.groupByFile = false → ∀ group ∈ tree.groups,
    (server.shown disk (group.references.map (·.location))).Sublist others
  /-- The word under the cursor comes in its place among the others. -/
  inserted : ∃ front under back, server.WordUnder disk place under ∧
    (front ++ under :: back).Pairwise Location.Before ∧
    others = server.shown disk front ++ server.shown disk back ∧
    all = server.shown disk front ++ (server.clientLocation? disk under).toList ++
      server.shown disk back ∧
    (server.DocumentsAbsolute place → ∃ client, server.clientLocation? disk under = some client ∧
      client.uri.file? = place.uri.file?)
  /-- The client is told of every node. -/
  complete : server.DocumentsAbsolute place → others.length = tree.references.length
  ordered : server.DocumentsAbsolute place →
    (∀ node ∈ tree.references, server.Fits disk node.location) →
      others.Pairwise ClientLocation.Before

/-- The tree of a lookup agrees with the lists that its entries come from. -/
theorem agree_ofEntries {name : String} {entries : List Entry} {front back : List Location}
    {under : Location} (hentries : entries.map (·.location) = front ++ back)
    (hordered : (front ++ under :: back).Pairwise Location.Before)
    (hunder : server.WordUnder disk place under)
    (habsolute : server.DocumentsAbsolute place →
      ∀ location ∈ front ++ under :: back, Path.isAbsolute location.file = true)
    (options : DisplayOptions) (root : Option String) :
    server.Agree disk place options (.ofFindings (.ofEntries name entries) options root)
      (server.shown disk (front ++ back)) (server.shown disk (front ++ under :: back)) := by
  have hsublist : (front ++ back).Sublist (front ++ under :: back) :=
    (List.sublist_cons_self under back).append_left front
  have hothers : server.DocumentsAbsolute place →
      ∀ location ∈ front ++ back, Path.isAbsolute location.file = true :=
    fun h location hlocation => habsolute h location (hsublist.subset hlocation)
  have hnodes : ((Tree.ofFindings (.ofEntries name entries) options root).references.map
      (·.location)).Perm (front ++ back) :=
    (Tree.references_ofFindings_perm _ options root).trans
      (hentries ▸ Findings.partition_ofEntries_perm name entries)
  refine
    { nodes := hnodes.filterMap _
      rows := fun hflat group hgroup => ?_
      inserted := ⟨front, under, back, hunder, hordered, shown_append .., shown_cut .., fun h => ?_⟩
      complete := fun h => ?_
      ordered := fun h hfits => ?_ }
  · obtain ⟨nodes, hbody, hrow⟩ := Tree.exists_flat_of_mem_groups _ root hflat hgroup
    have hreferences : group.references = nodes := by rw [GroupNode.references, hbody]
    refine List.Sublist.filterMap _ ?_
    rw [hreferences, ← hentries]
    rcases hrow with hrow | hrow
    · exact hrow ▸ Findings.writes_ofEntries_sublist name entries
    · exact hrow ▸ Findings.reads_ofEntries_sublist name entries
  · obtain ⟨client, hclient, huri, -⟩ := clientLocation?_of_absolute server disk
      (habsolute h under (by simp))
    obtain ⟨file, _, _, _, hfile, -, -, -, rfl⟩ := hunder
    exact ⟨client, hclient, huri.trans hfile.symm⟩
  · rw [length_shown (hothers h), ← hnodes.length_eq, List.length_map]
  · refine pairwise_shown (hordered.sublist hsublist) (hothers h) fun location hlocation => ?_
    obtain ⟨node, hnode, rfl⟩ := List.mem_map.1 (hnodes.mem_iff.2 hlocation)
    exact hfits node hnode

/-- **A list of references and a lookup in the panel agree**, at every place and in every state of
the server. They fail together, and then the panel has a message. The list is in order as the client
reads it, if no line and no column needs more than 32 bits. -/
theorem references_agree_with_findAll (server : Server) (disk : Disk)
    (place : DocumentPosition) :
    let found := server.findAll disk (some place)
    ((∃ others, server.references? disk place false = some others) ↔
      ∃ tree, found.2 = .rendered tree) ∧
    (server.references? disk place false = none →
      server.references? disk place true = none ∧ ∃ failure, found.2 = .ofFailure failure) ∧
    ∀ others tree, server.references? disk place false = some others →
      found.2 = .rendered tree → ∃ all, server.references? disk place true = some all ∧
        server.Agree disk place found.1.panel.view.options tree others all := by
  intro found
  rcases server.lookup_cases disk place with ⟨failure, hfailed, hnone⟩ |
    ⟨name, entries, front, under, back, hfound, hentries, hordered, hunder, habsolute, hothers,
      hall⟩
  · have hupdate : found.2 = .ofFailure failure :=
      congrArg Prod.snd (apply_of_error server hfailed)
    have hrendered : ∀ tree, found.2 ≠ .rendered tree := by
      intro tree
      rw [hupdate, ViewUpdate.ofFailure]
      split <;> simp
    refine ⟨?_, fun _ => ⟨hnone true, failure, hupdate⟩, fun others _ h => ?_⟩
    · simp [hnone, hrendered]
    · simp [hnone] at h
  · have happly := apply_of_ok server hfound
    have hupdate : found.2 = .rendered (.ofFindings (.ofEntries name entries)
        found.1.panel.view.options (server.lookup disk (some place)).root) := by
      simp only [found, findAll, happly]
    refine ⟨⟨fun _ => ⟨_, hupdate⟩, fun _ => ⟨_, hothers⟩⟩, fun h => ?_, ?_⟩
    · simp [hothers] at h
    · intro others tree hsome hrendered
      cases hothers.symm.trans hsome
      cases hupdate.symm.trans hrendered
      exact ⟨_, hall, agree_ofEntries hentries hordered hunder habsolute _ _⟩

/-- A document that is only open, and a file beside it. -/
theorem references_agree_in_open_document :
    let disk : Disk := { entries := [(["w"], .directory), (["w", "b.ts"], .text "n;n")] }
    let server : Server := { documents := ⟨[("/w/a.ts", "n=1")]⟩ }
    let place : DocumentPosition := ⟨.ofAbsolutePath "/w/a.ts", ⟨0, 0⟩⟩
    server.DocumentsAbsolute place ∧
      ∃ tree others all, (server.findAll disk (some place)).2 = .rendered tree ∧
        server.references? disk place false = some others ∧
        server.references? disk place true = some all ∧
        tree.references.length = 2 ∧ others.Pairwise ClientLocation.Before ∧
        ∃ front client back, others = front ++ back ∧ all = front ++ client :: back ∧
          client.uri.file? = some "/w/a.ts" := by
  intro disk server place
  have hfile : place.uri.file? = some "/w/a.ts" := Uri.file?_ofAbsolutePath rfl
  have habsolute : server.DocumentsAbsolute place := by
    refine ⟨fun file h => ?_, by decide⟩
    rw [hfile] at h
    cases h
    rfl
  have hcount : (server.references? disk place false).map (·.length) = some 2 := by decide +kernel
  obtain ⟨others, hothers, hlength⟩ := Option.map_eq_some_iff.1 hcount
  obtain ⟨hrendered, -, hagree⟩ := references_agree_with_findAll server disk place
  obtain ⟨tree, htree⟩ := hrendered.1 ⟨others, hothers⟩
  obtain ⟨all, hall, agree⟩ := hagree others tree hothers htree
  have hfits : ∀ node ∈ tree.references, server.Fits disk node.location := by
    have hnodes : (match (server.findAll disk (some place)).2 with
        | .rendered tree => tree.references.all fun node => server.Fits disk node.location
        | _ => false) = true := by decide +kernel
    rw [htree] at hnodes
    exact fun node hnode => of_decide_eq_true (List.all_eq_true.1 hnodes node hnode)
  refine ⟨habsolute, tree, others, all, htree, hothers, hall, (agree.complete habsolute).symm.trans
    hlength, agree.ordered habsolute hfits, ?_⟩
  obtain ⟨front, under, back, -, -, hcut, hwhole, hclient⟩ := agree.inserted
  obtain ⟨client, hclient, huri⟩ := hclient habsolute
  refine ⟨server.shown disk front, client, server.shown disk back, hcut, ?_, huri.trans hfile⟩
  rw [hwhole, hclient, Option.toList_some, List.append_assoc, List.singleton_append]

end Server

end Usages
