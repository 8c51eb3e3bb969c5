/-
The reference nodes of a tree. However findings are shown, in a row or by file, their tree has a
node for each entry and no other, at the location of the entry.
-/
import Usages.Tree

namespace Usages

theorem flatMap_addToFile_perm (entry : Entry) (files : List (String × List Entry)) :
    ((addToFile entry files).flatMap (·.2)).Perm (files.flatMap (·.2) ++ [entry]) := by
  induction files with
  | nil => exact .refl _
  | cons first rest ih =>
    obtain ⟨file, entries⟩ := first
    rw [addToFile]
    split
    · simp only [List.flatMap_cons, List.append_assoc]
      exact (List.perm_append_comm).append_left entries
    · simp only [List.flatMap_cons, List.append_assoc]
      exact ih.append_left entries

/-- Sorting entries by file keeps each of them. -/
theorem flatMap_entriesByFile_perm (entries : List Entry) :
    ((entriesByFile entries).flatMap (·.2)).Perm entries := by
  -- The entries taken so far, with those still to come.
  have hfold : ∀ (entries : List Entry) (files : List (String × List Entry)),
      ((entries.foldl (fun files entry => addToFile entry files) files).flatMap (·.2)).Perm
        (files.flatMap (·.2) ++ entries) := by
    intro entries
    induction entries with
    | nil => intro files; rw [List.foldl_nil, List.append_nil]
    | cons entry rest ih =>
      intro files
      rw [List.foldl_cons, ← List.singleton_append, ← List.append_assoc]
      exact (ih _).trans ((flatMap_addToFile_perm entry files).append_right rest)
  exact hfold entries []

namespace GroupNode

variable (kind : Kind) (name : String) (options : DisplayOptions) (root : Option String)
  (entries : List Entry)

theorem map_location_ofEntry :
    (entries.map (ReferenceNode.ofEntry name root)).map (·.location) =
      entries.map (·.location) := by
  rw [List.map_map]
  rfl

theorem body_ofEntries_of_flat {options : DisplayOptions} (h : options.groupByFile = false) :
    (ofEntries kind name options root entries).body = .flat (entries.map (.ofEntry name root)) := by
  simp [ofEntries, h]

theorem nodes_ofEntries_of_flat {options : DisplayOptions} (h : options.groupByFile = false) :
    (ofEntries kind name options root entries).references = entries.map (.ofEntry name root) := by
  rw [references, body_ofEntries_of_flat kind name root entries h]

theorem nodes_ofEntries_of_byFile {options : DisplayOptions} (h : options.groupByFile = true) :
    (ofEntries kind name options root entries).references =
      ((entriesByFile entries).flatMap (·.2)).map (.ofEntry name root) := by
  simp [references, ofEntries, h, List.flatMap_map, List.map_flatMap]

/-- A group has a node for each of its entries. -/
theorem nodes_ofEntries_perm :
    (ofEntries kind name options root entries).references.Perm
      (entries.map (.ofEntry name root)) := by
  cases hgroup : options.groupByFile with
  | false => rw [nodes_ofEntries_of_flat kind name root entries hgroup]
  | true =>
    rw [nodes_ofEntries_of_byFile kind name root entries hgroup]
    exact (flatMap_entriesByFile_perm entries).map _

end GroupNode

namespace Tree

/-- The reference nodes of the tree, in the order in which they are shown. -/
def references (tree : Tree) : List ReferenceNode :=
  tree.groups.flatMap (·.references)

variable (findings : Findings) (options : DisplayOptions) (root : Option String)

/-- The groups of a tree: the writes if there are any, then the reads if there are any. -/
theorem groups_ofFindings :
    (ofFindings findings options root).groups =
      (if findings.writes.isEmpty then []
        else [.ofEntries .write findings.symbolName options root findings.writes]) ++
      if findings.reads.isEmpty then []
        else [.ofEntries .read findings.symbolName options root findings.reads] := by
  simp only [ofFindings, List.filterMap_cons, List.filterMap_nil]
  cases findings.writes.isEmpty <;> cases findings.reads.isEmpty <;> rfl

theorem nodes_group_perm (kind : Kind) (entries : List Entry) :
    ((if entries.isEmpty then []
      else [GroupNode.ofEntries kind findings.symbolName options root entries]).flatMap
        (·.references)).Perm (entries.map (.ofEntry findings.symbolName root)) := by
  cases entries with
  | nil => exact .refl _
  | cons entry rest =>
    rw [if_neg (by simp), List.flatMap_singleton]
    exact GroupNode.nodes_ofEntries_perm kind findings.symbolName options root (entry :: rest)

/-- A tree has a node for each write and each read. -/
theorem nodes_ofFindings_perm :
    (ofFindings findings options root).references.Perm
      ((findings.writes ++ findings.reads).map (.ofEntry findings.symbolName root)) := by
  rw [references, groups_ofFindings, List.flatMap_append, List.map_append]
  exact (nodes_group_perm findings options root .write findings.writes).append
    (nodes_group_perm findings options root .read findings.reads)

theorem references_ofFindings_perm :
    ((ofFindings findings options root).references.map (·.location)).Perm
      (findings.partition.writes ++ findings.partition.reads) := by
  have hperm := (nodes_ofFindings_perm findings options root).map (·.location)
  rwa [GroupNode.map_location_ofEntry, List.map_append] at hperm

/-- In a tree that is not by file, the nodes of a group are its entries in their order. -/
theorem exists_flat_of_mem_groups {options : DisplayOptions} (h : options.groupByFile = false)
    {group : GroupNode} (hgroup : group ∈ (ofFindings findings options root).groups) :
    ∃ nodes, group.body = .flat nodes ∧
      (nodes.map (·.location) = findings.partition.writes ∨
        nodes.map (·.location) = findings.partition.reads) := by
  rw [groups_ofFindings, List.mem_append] at hgroup
  rcases hgroup with hgroup | hgroup
  · split at hgroup
    · cases hgroup
    · rw [List.mem_singleton.1 hgroup]
      exact ⟨_, GroupNode.body_ofEntries_of_flat .write findings.symbolName root _ h,
        .inl (GroupNode.map_location_ofEntry findings.symbolName root _)⟩
  · split at hgroup
    · cases hgroup
    · rw [List.mem_singleton.1 hgroup]
      exact ⟨_, GroupNode.body_ofEntries_of_flat .read findings.symbolName root _ h,
        .inr (GroupNode.map_location_ofEntry findings.symbolName root _)⟩

end Tree

end Usages
