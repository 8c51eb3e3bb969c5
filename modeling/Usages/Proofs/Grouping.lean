/-
Findings grouped by file.

The entries of a group are put under their files one at a time, each into the node of its file or,
for a new file, into a new node at the end. `entriesByFile_eq` says what has come about after all of
them: the files in the order in which they first appear, each with its entries in their order. That
is a permutation of the entries, and the same list where the entries of each file stand together
(`Contiguous`), as they do in what a search finds. `Tree.grouping_keeps_entries` says so of the
whole tree.
-/
import Mathlib.Algebra.GroupWithZero.Nat
import Usages.Proofs.Lists
import Usages.Proofs.Requests
import Usages.Proofs.Tree

namespace Usages

/-! ## Entries by file -/

/-- The entries that stand in a file, in their order. -/
def entriesIn (file : String) (entries : List Entry) : List Entry :=
  entries.filter (·.location.file = file)

theorem entriesIn_concat (file : String) (entries : List Entry) (entry : Entry) :
    entriesIn file (entries ++ [entry]) =
      entriesIn file entries ++ if entry.location.file = file then [entry] else [] := by
  by_cases h : entry.location.file = file
  · simp [entriesIn, h]
  · simp [entriesIn, h]

theorem entriesIn_eq_nil {file : String} {entries : List Entry}
    (h : file ∉ entries.map (·.location.file)) : entriesIn file entries = [] := by
  rw [entriesIn, List.filter_eq_nil_iff]
  intro entry hentry hfile
  exact h (List.mem_map.2 ⟨entry, hentry, of_decide_eq_true hfile⟩)

/-- Taking one more entry: it joins the entries of its file, or its file comes last. -/
theorem addToFile_map (entry : Entry) (entries : List Entry) {files : List String}
    (hnodup : files.Nodup) :
    addToFile entry (files.map fun file => (file, entriesIn file entries)) =
      files.map (fun file => (file, entriesIn file (entries ++ [entry]))) ++
        if entry.location.file ∈ files then [] else [(entry.location.file, [entry])] := by
  induction files with
  | nil => simp [addToFile]
  | cons file rest ih =>
    obtain ⟨hfile, hrest⟩ := List.nodup_cons.1 hnodup
    rw [List.map_cons, addToFile]
    by_cases heq : file = entry.location.file
    · -- No later file is the file of the entry.
      have hlater : ∀ other ∈ rest, entriesIn other (entries ++ [entry]) =
          entriesIn other entries := by
        intro other hother
        have hne : entry.location.file ≠ other := fun h => hfile (heq.trans h ▸ hother)
        rw [entriesIn_concat, if_neg hne, List.append_nil]
      have hhere : entriesIn file (entries ++ [entry]) = entriesIn file entries ++ [entry] := by
        rw [entriesIn_concat, if_pos heq.symm]
      have hmap : rest.map (fun other => (other, entriesIn other (entries ++ [entry]))) =
          rest.map fun other => (other, entriesIn other entries) :=
        List.map_congr_left fun other hother => by rw [hlater other hother]
      rw [if_pos heq, if_pos (by simp [heq]), List.append_nil, List.map_cons, hhere, hmap]
    · have hhere : entriesIn file (entries ++ [entry]) = entriesIn file entries := by
        rw [entriesIn_concat, if_neg (Ne.symm heq), List.append_nil]
      rw [if_neg heq, ih hrest, List.map_cons, hhere]
      simp [Ne.symm heq]

/-- The entries of each file, the files in the order in which they first appear. -/
theorem entriesByFile_eq (entries : List Entry) :
    entriesByFile entries =
      (entries.map (·.location.file)).eraseDups.map fun file => (file, entriesIn file entries) := by
  induction entries using List.reverseRecOn with
  | nil => rfl
  | append_singleton entries entry ih =>
    have hstep : entriesByFile (entries ++ [entry]) = addToFile entry (entriesByFile entries) := by
      rw [entriesByFile, List.foldl_append, entriesByFile]
      rfl
    rw [hstep, ih, addToFile_map entry entries (nodup_eraseDups _), List.map_append,
      List.map_singleton, eraseDups_concat, List.map_append]
    simp only [List.mem_eraseDups]
    congr 1
    split
    · rfl
    next hnew =>
      rw [List.map_singleton, entriesIn_concat, entriesIn_eq_nil hnew, if_pos rfl, List.nil_append]

/-! ## Entries that stand together -/

/-- The entries of each file stand together: between two of them there is none of another file. -/
def Contiguous (entries : List Entry) : Prop :=
  ∀ first between last, [first, between, last].Sublist entries →
    first.location.file = last.location.file → between.location.file = first.location.file

theorem Contiguous.sublist {entries others : List Entry} (h : Contiguous entries)
    (hsublist : others.Sublist entries) : Contiguous others :=
  fun first between last hthree => h first between last (hthree.trans hsublist)

theorem contiguous_of_pairwise {entries : List Entry}
    (h : (entries.map (·.location.file)).Pairwise (· ≤ ·)) : Contiguous entries := by
  intro first between last hthree hsame
  have hordered := h.sublist (hthree.map (·.location.file))
  simp only [List.map_cons, List.map_nil, List.pairwise_cons, List.mem_cons, List.not_mem_nil,
    or_false, forall_eq_or_imp, forall_eq] at hordered
  exact String.le_antisymm (hsame ▸ hordered.2.1) hordered.1.1

/-- The entries of the first file come first, and all that follows is in other files. -/
theorem Contiguous.exists_cut {entry : Entry} {rest : List Entry}
    (h : Contiguous (entry :: rest)) :
    ∃ own others, rest = own ++ others ∧
      (∀ other ∈ own, other.location.file = entry.location.file) ∧
      ∀ other ∈ others, other.location.file ≠ entry.location.file := by
  let same : Entry → Bool := fun other => other.location.file = entry.location.file
  have hcut : rest = rest.takeWhile same ++ rest.dropWhile same :=
    List.takeWhile_append_dropWhile.symm
  have hown : ∀ other ∈ rest.takeWhile same, same other = true := fun _ => List.mem_takeWhile_imp
  refine ⟨_, _, hcut, fun other hother => of_decide_eq_true (hown other hother), ?_⟩
  intro other hother hsame
  cases hothers : rest.dropWhile same with
  | nil => simp [hothers] at hother
  | cons next later =>
    have hhead : ∀ first ∈ (rest.dropWhile same).head?, same first = false :=
      of_head?_dropWhile
    have hnext : next.location.file ≠ entry.location.file :=
      of_decide_eq_false (hhead next (by simp [hothers]))
    rw [hothers] at hother hcut
    rcases List.mem_cons.1 hother with rfl | hlater
    · exact hnext hsame
    · have hpair : [next, other].Sublist rest := by
        rw [hcut]
        exact ((List.singleton_sublist.2 hlater).cons_cons next).trans
          (List.sublist_append_right _ _)
      exact hnext (h entry next other (hpair.cons_cons entry) hsame.symm)

/-- Entries that stand together are by file what they are in a row. -/
theorem flatMap_entriesIn_of_contiguous {entries : List Entry} (h : Contiguous entries) :
    (entries.map (·.location.file)).eraseDups.flatMap (entriesIn · entries) = entries := by
  -- The rest is cut behind the entries of the first file, so the induction is on the length.
  induction hlength : entries.length using Nat.strongRecOn generalizing entries with
  | ind length ih =>
  cases entries with
  | nil => rfl
  | cons entry rest =>
    obtain ⟨own, others, rfl, hown, hothers⟩ := h.exists_cut
    have hrest : Contiguous others :=
      h.sublist ((List.sublist_append_right own others).cons entry)
    have hshorter : others.length < length := by
      rw [← hlength, List.length_cons, List.length_append]
      omega
    have hfiles : ((entry :: (own ++ others)).map (·.location.file)).eraseDups =
        entry.location.file :: (others.map (·.location.file)).eraseDups := by
      rw [List.map_cons, List.eraseDups_cons, List.map_append, List.filter_append,
        List.filter_eq_nil_iff.2 (by simpa using hown), List.nil_append,
        List.filter_eq_self.2 (by simpa using hothers)]
    have hhere : entriesIn entry.location.file (entry :: (own ++ others)) = entry :: own := by
      rw [entriesIn, List.filter_cons_of_pos (by simp), List.filter_append,
        List.filter_eq_self.2 (by simpa using hown),
        List.filter_eq_nil_iff.2 (by simpa using hothers), List.append_nil]
    have hthere : ∀ file ∈ (others.map (·.location.file)).eraseDups,
        entriesIn file (entry :: (own ++ others)) = entriesIn file others := by
      intro file hfile
      rw [List.mem_eraseDups] at hfile
      obtain ⟨other, hother, rfl⟩ := List.mem_map.1 hfile
      have hne := hothers other hother
      rw [entriesIn, List.filter_cons_of_neg (by simpa using Ne.symm hne), List.filter_append,
        List.filter_eq_nil_iff.2, List.nil_append, entriesIn]
      intro entry' hentry'
      simp [hown entry' hentry', Ne.symm hne]
    rw [hfiles, List.flatMap_cons, hhere, List.flatMap_congr hthere,
      ih others.length hshorter hrest rfl]
    rfl

/-! ## Groups -/

namespace GroupNode

/-- The nodes show the entries by file: a node for each file, in the order in which the files first
appear, with the entries of the file in their order, and labelled with their count. -/
structure ShowsByFile (name : String) (options : DisplayOptions) (root : Option String)
    (entries : List Entry) (nodes : List FileNode) : Prop where
  files : nodes.map (·.file) = (entries.map (·.location.file)).eraseDups
  distinct : (nodes.map (·.file)).Nodup
  node : ∀ node ∈ nodes, ∃ own, own = entries.filter (·.location.file = node.file) ∧ own ≠ [] ∧
    node.references = own.map (.ofEntry name root) ∧
    node.label = fileLabel options root node.file ++ " (" ++ toString own.length ++ ")"
  total : (nodes.map (·.references.length)).sum = entries.length

variable (kind : Kind) (name : String) (root : Option String) (entries : List Entry)

theorem exists_showsByFile {options : DisplayOptions} (h : options.groupByFile = true) :
    ∃ nodes, (ofEntries kind name options root entries).body = .byFile nodes ∧
      ShowsByFile name options root entries nodes := by
  have hbody : (ofEntries kind name options root entries).body =
      .byFile ((entriesByFile entries).map fun group =>
        { label := counted (fileLabel options root group.1) group.2.length
          file := group.1
          references := group.2.map (.ofEntry name root) }) := by
    simp [ofEntries, h]
  refine ⟨_, hbody, ?_, ?_, ?_, ?_⟩
  · simp [entriesByFile_eq, Function.comp_def]
  · simp [entriesByFile_eq, Function.comp_def, nodup_eraseDups]
  · intro node hnode
    simp only [entriesByFile_eq, List.map_map, List.mem_map, List.mem_eraseDups] at hnode
    obtain ⟨file, ⟨entry, hentry, rfl⟩, rfl⟩ := hnode
    refine ⟨_, rfl, ?_, rfl, rfl⟩
    exact List.ne_nil_of_mem (List.mem_filter.2 ⟨hentry, by simp⟩)
  · have hlength := (flatMap_entriesByFile_perm entries).length_eq
    rw [List.length_flatMap] at hlength
    simpa [Function.comp_def] using hlength

/-- Where entries stand together, a group has the same nodes by file as in a row. -/
theorem nodes_ofEntries_of_contiguous (options : DisplayOptions) (h : Contiguous entries) :
    (ofEntries kind name options root entries).references = entries.map (.ofEntry name root) := by
  cases hgroup : options.groupByFile with
  | false => exact nodes_ofEntries_of_flat kind name root entries hgroup
  | true =>
    have hrow : (entriesByFile entries).flatMap (·.2) = entries := by
      rw [entriesByFile_eq, List.flatMap_map]
      exact flatMap_entriesIn_of_contiguous h
    rw [nodes_ofEntries_of_byFile kind name root entries hgroup, hrow]

end GroupNode

/-! ## Trees -/

/-- The writes, or the reads. -/
def Findings.ofKind (findings : Findings) : Kind → List Entry
  | .write => findings.writes
  | .read => findings.reads

/-- In what a search finds, the entries of each file stand together. -/
theorem contiguous_of_findReferences {source : Source} {files : List String}
    {classifier : Classifier} {file : String} {position : Position} {log : List String}
    {findings : Findings}
    (h : (findReferences (Locator.words source files) source classifier file position log).1 =
      .ok findings) (kind : Kind) :
    Contiguous (findings.ofKind kind) := by
  obtain ⟨name, entries, rfl, hordered⟩ := exists_ofEntries_of_findReferences h
  have hentries := contiguous_of_pairwise hordered
  cases kind with
  | write => exact hentries.sublist List.filter_sublist
  | read => exact hentries.sublist List.filter_sublist

/-- The group without the labels of its files. -/
def GroupNode.withoutFileLabels (group : GroupNode) : GroupNode :=
  { group with
    body := match group.body with
      | .flat references => .flat references
      | .byFile files => .byFile (files.map fun node => { node with label := "" }) }

namespace Tree

/-- The tree without the labels of its files. -/
def withoutFileLabels (tree : Tree) : Tree :=
  { tree with groups := tree.groups.map (·.withoutFileLabels) }

variable (findings : Findings) (options : DisplayOptions) (root : Option String)

theorem exists_kind_of_mem_groups {group : GroupNode}
    (h : group ∈ (ofFindings findings options root).groups) :
    ∃ kind, group =
      .ofEntries kind findings.symbolName options root (findings.ofKind kind) := by
  rw [groups_ofFindings, List.mem_append] at h
  rcases h with h | h
  · split at h
    · cases h
    · exact ⟨.write, List.mem_singleton.1 h⟩
  · split at h
    · cases h
    · exact ⟨.read, List.mem_singleton.1 h⟩

/-- A tree whose groups have their entries in a row has all entries in a row. -/
theorem nodes_ofFindings_eq
    (h : ∀ kind, (GroupNode.ofEntries kind findings.symbolName options root
        (findings.ofKind kind)).references =
      (findings.ofKind kind).map (.ofEntry findings.symbolName root)) :
    (ofFindings findings options root).references =
      (findings.writes ++ findings.reads).map (.ofEntry findings.symbolName root) := by
  have hgroup : ∀ kind, (if (findings.ofKind kind).isEmpty then []
      else [GroupNode.ofEntries kind findings.symbolName options root
        (findings.ofKind kind)]).flatMap (·.references) =
      (findings.ofKind kind).map (.ofEntry findings.symbolName root) := by
    intro kind
    split
    next hempty =>
      rw [List.isEmpty_iff.1 hempty]
      rfl
    next => rw [List.flatMap_singleton, h]
  rw [references, groups_ofFindings, List.flatMap_append, List.map_append]
  exact congrArg₂ (· ++ ·) (hgroup .write) (hgroup .read)

/-- The option for full paths shows in the labels of files only. -/
theorem withoutFileLabels_of_showFullPath (full : Bool) :
    (ofFindings findings { options with showFullPath := full } root).withoutFileLabels =
      (ofFindings findings options root).withoutFileLabels := by
  have hgroup : ∀ kind entries,
      (GroupNode.ofEntries kind findings.symbolName { options with showFullPath := full } root
        entries).withoutFileLabels =
      (GroupNode.ofEntries kind findings.symbolName options root entries).withoutFileLabels := by
    intro kind entries
    cases hby : options.groupByFile with
    | false => simp [GroupNode.ofEntries, GroupNode.withoutFileLabels, hby]
    | true => simp [GroupNode.ofEntries, GroupNode.withoutFileLabels, hby]
  have hgroups : (ofFindings findings { options with showFullPath := full } root).groups.map
        (·.withoutFileLabels) =
      (ofFindings findings options root).groups.map (·.withoutFileLabels) := by
    simp only [groups_ofFindings, List.map_append]
    cases findings.writes.isEmpty <;> cases findings.reads.isEmpty <;> simp [hgroup]
  rw [withoutFileLabels, hgroups]
  rfl

/-- **Grouping loses, repeats and reorders nothing.** A tree has a group of writes if there are any,
then a group of reads if there are any, labelled with the number of entries. A group has its entries
in a row or shows them by file; by file its nodes are a permutation of those in a row, and the same
list where the entries of each file stand together, as they do in what a search finds. Showing full
paths or not changes nothing but the labels of files. -/
theorem grouping_keeps_entries :
    let tree := ofFindings findings options root
    let flat := ofFindings findings { options with groupByFile := false } root
    tree.groups.map (fun group => (group.kind, group.label)) =
        (if findings.writes = [] then []
          else [(.write, "Writes (" ++ toString findings.writes.length ++ ")")]) ++
        (if findings.reads = [] then []
          else [(.read, "Reads (" ++ toString findings.reads.length ++ ")")]) ∧
      (∀ group ∈ tree.groups,
        let entries := findings.ofKind group.kind
        let row := entries.map (.ofEntry findings.symbolName root)
        (options.groupByFile = false → group.body = .flat row) ∧
        (options.groupByFile = true → ∃ nodes, group.body = .byFile nodes ∧
          GroupNode.ShowsByFile findings.symbolName options root entries nodes) ∧
        group.references.Perm row ∧ (Contiguous entries → group.references = row)) ∧
      tree.references.Perm flat.references ∧
      (Contiguous findings.writes → Contiguous findings.reads →
        tree.references = flat.references) ∧
      (∀ source files classifier file position log,
        (findReferences (Locator.words source files) source classifier file position log).1 =
          .ok findings → Contiguous findings.writes ∧ Contiguous findings.reads) ∧
      (ofFindings findings { options with showFullPath := !options.showFullPath }
        root).withoutFileLabels = tree.withoutFileLabels := by
  intro tree flat
  have hflat : flat.references =
      (findings.writes ++ findings.reads).map (.ofEntry findings.symbolName root) :=
    nodes_ofFindings_eq findings _ root fun kind =>
      GroupNode.nodes_ofEntries_of_flat kind findings.symbolName root _ rfl
  refine ⟨?_, fun group hgroup => ?_, ?_, fun hwrites hreads => ?_,
    fun source files classifier file position log h =>
      ⟨contiguous_of_findReferences h .write, contiguous_of_findReferences h .read⟩,
    withoutFileLabels_of_showFullPath findings options root _⟩
  · simp only [tree, groups_ofFindings, List.map_append, List.isEmpty_iff]
    congr 1
    · split <;> rfl
    · split <;> rfl
  · obtain ⟨kind, rfl⟩ := exists_kind_of_mem_groups findings options root hgroup
    exact ⟨GroupNode.body_ofEntries_of_flat kind findings.symbolName root _,
      GroupNode.exists_showsByFile kind findings.symbolName root _,
      GroupNode.nodes_ofEntries_perm kind findings.symbolName options root _,
      GroupNode.nodes_ofEntries_of_contiguous kind findings.symbolName root _ options⟩
  · rw [hflat]
    exact nodes_ofFindings_perm findings options root
  · rw [hflat]
    refine nodes_ofFindings_eq findings options root fun kind => ?_
    refine GroupNode.nodes_ofEntries_of_contiguous kind findings.symbolName root _ options ?_
    cases kind with
    | write => exact hwrites
    | read => exact hreads

/-- Writes that go back and forth between two files, and reads that do not. -/
theorem grouping_keeps_entries_back_and_forth :
    let entry := fun file line kind => (⟨⟨file, .onLine line 0 1⟩, kind, none⟩ : Entry)
    let findings : Findings := ⟨"x", [entry "/w/b" 0 .write, entry "/w/a" 1 .write,
      entry "/w/b" 2 .write], [entry "/w/a" 3 .read, entry "/w/a" 4 .read, entry "/w/b" 5 .read]⟩
    let tree := ofFindings findings { groupByFile := true } (some "/w")
    (∃ group ∈ tree.groups, ∃ nodes, group.kind = .write ∧ group.body = .byFile nodes ∧
      nodes.map (·.file) = ["/w/b", "/w/a"]) ∧
    Contiguous findings.reads ∧
      ∃ group ∈ tree.groups, group.kind = .read ∧
        group.references = findings.reads.map (.ofEntry "x" (some "/w")) := by
  intro entry findings tree
  obtain ⟨-, hgroups, -⟩ := grouping_keeps_entries findings { groupByFile := true } (some "/w")
  have hwrites : GroupNode.ofEntries .write "x" { groupByFile := true } (some "/w")
      findings.writes ∈ tree.groups := List.mem_cons_self
  have hreads : GroupNode.ofEntries .read "x" { groupByFile := true } (some "/w")
      findings.reads ∈ tree.groups := List.mem_cons_of_mem _ List.mem_cons_self
  have hcontiguous : Contiguous findings.reads := contiguous_of_pairwise (by decide)
  obtain ⟨nodes, hbody, hshows⟩ := (hgroups _ hwrites).2.1 rfl
  refine ⟨⟨_, hwrites, nodes, rfl, hbody, hshows.files⟩, hcontiguous, _, hreads, rfl,
    (hgroups _ hreads).2.2.2 hcontiguous⟩

end Tree

end Usages
