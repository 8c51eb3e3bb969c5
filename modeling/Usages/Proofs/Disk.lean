/-
Disks that are trees, and the files that can be reached in them from a directory without going over
links.
-/
import Usages.Proofs.Lists
import Usages.Proofs.Name

namespace Usages

namespace Disk

/-- The entries form a tree: each place has one entry, and stands in a directory under a name. -/
structure IsTree (disk : Disk) : Prop where
  nodup : (disk.entries.map Prod.fst).Nodup
  below_root : [] ∉ disk.entries.map Prod.fst
  isName : ∀ place ∈ disk.entries.map Prod.fst, ∀ name ∈ place, name.IsName
  inside : ∀ place ∈ disk.entries.map Prod.fst, disk.entryAt? place.dropLast = some .directory

instance (disk : Disk) : Decidable disk.IsTree :=
  decidable_of_iff
    ((disk.entries.map Prod.fst).Nodup ∧ [] ∉ disk.entries.map Prod.fst ∧
      (∀ place ∈ disk.entries.map Prod.fst, ∀ name ∈ place, name.IsName) ∧
      ∀ place ∈ disk.entries.map Prod.fst, disk.entryAt? place.dropLast = some .directory)
    ⟨fun ⟨nodup, below_root, isName, inside⟩ => ⟨nodup, below_root, isName, inside⟩,
      fun h => ⟨h.nodup, h.below_root, h.isName, h.inside⟩⟩

theorem entryAt?_of_ne_nil (disk : Disk) {place : List Name} (h : place ≠ []) :
    disk.entryAt? place = disk.entries.lookup place := by
  rw [entryAt?, if_neg (by simpa using h)]

theorem get?_append (disk : Disk) (place names : List String) :
    disk.get? (place ++ names) = disk.entryAt? (place.map .text ++ names.map .text) := by
  rw [get?, List.map_append]

namespace IsTree

variable {disk : Disk} (tree : disk.IsTree)
include tree

theorem ne_nil {place : List Name} {entry : DiskEntry} (h : (place, entry) ∈ disk.entries) :
    place ≠ [] := by
  rintro rfl
  exact tree.below_root (List.mem_map_of_mem h)

/-- The entries are what stands at the places that are not the root. -/
theorem mem_entries {place : List Name} {entry : DiskEntry} :
    (place, entry) ∈ disk.entries ↔ place ≠ [] ∧ disk.entryAt? place = some entry := by
  constructor
  · intro h
    have hne := tree.ne_nil h
    rw [entryAt?_of_ne_nil disk hne]
    exact ⟨hne, (lookup_eq_some_iff_mem tree.nodup).2 h⟩
  · rintro ⟨hne, h⟩
    rw [entryAt?_of_ne_nil disk hne] at h
    exact (lookup_eq_some_iff_mem tree.nodup).1 h

theorem isName_of_entryAt? {place : List Name} {entry : DiskEntry}
    (h : disk.entryAt? place = some entry) : ∀ name ∈ place, name.IsName := by
  intro name hname
  have hmem := tree.mem_entries.2 ⟨List.ne_nil_of_mem hname, h⟩
  exact tree.isName _ (List.mem_map_of_mem hmem) name hname

/-- What stands under a name stands in a directory. -/
theorem directory_of_child {place : List Name} {name : Name} {entry : DiskEntry}
    (h : disk.entryAt? (place ++ [name]) = some entry) : disk.entryAt? place = some .directory := by
  have hmem := tree.mem_entries.2 ⟨by simp, h⟩
  have hinside := tree.inside _ (List.mem_map_of_mem hmem)
  rwa [List.dropLast_concat] at hinside

end IsTree

/-! ## Files below a directory -/

/-- The names lead from a place over directories to a directory. -/
inductive Entered (disk : Disk) (place : List String) : List Name → Prop
  | start : Entered disk place []
  | enter {names : List Name} {name : Name} : Entered disk place names →
      disk.entryAt? (place.map .text ++ (names ++ [name])) = some .directory →
      Entered disk place (names ++ [name])

/-- The names lead from a place over directories to a file. -/
def HasFile (disk : Disk) (place : List String) (names : List Name) : Prop :=
  ∃ directory name, names = directory ++ [name] ∧ disk.Entered place directory ∧
    ∃ entry, disk.entryAt? (place.map .text ++ names) = some entry ∧ entry.isFile = true

theorem HasFile.ne_nil {disk : Disk} {place : List String} {names : List Name}
    (h : disk.HasFile place names) : names ≠ [] := by
  obtain ⟨directory, name, rfl, -⟩ := h
  simp

/-- In a tree, every place above an entry has been entered on the way to it. -/
theorem IsTree.entered {disk : Disk} (tree : disk.IsTree) {place : List String} :
    ∀ {names : List Name} {name : Name} {entry : DiskEntry},
      disk.entryAt? (place.map .text ++ (names ++ [name])) = some entry →
        disk.Entered place names := by
  intro names
  induction hlength : names.length generalizing names with
  | zero =>
    intro name entry _
    rw [List.length_eq_zero_iff.1 hlength]
    exact .start
  | succ n ih =>
    intro name entry h
    obtain rfl | ⟨front, last, rfl⟩ := List.eq_nil_or_concat names
    · cases hlength
    rw [List.concat_eq_append] at h hlength ⊢
    rw [← List.append_assoc] at h
    have hdirectory := tree.directory_of_child h
    exact .enter (ih (by simpa using hlength) hdirectory) hdirectory

theorem IsTree.hasFile_iff {disk : Disk} (tree : disk.IsTree) {place : List String}
    {names : List Name} (hne : names ≠ []) :
    disk.HasFile place names ↔
      ∃ entry, disk.entryAt? (place.map .text ++ names) = some entry ∧ entry.isFile = true := by
  constructor
  · rintro ⟨_, _, -, -, hentry⟩
    exact hentry
  · rintro ⟨entry, hentry, hfile⟩
    obtain ⟨directory, name, rfl⟩ := (List.eq_nil_or_concat names).resolve_left hne
    rw [List.concat_eq_append] at hentry ⊢
    exact ⟨directory, name, rfl, tree.entered hentry, entry, hentry, hfile⟩

theorem IsTree.isName_of_hasFile {disk : Disk} (tree : disk.IsTree) {place : List String}
    {names : List Name} (h : disk.HasFile place names) : ∀ name ∈ names, name.IsName := by
  obtain ⟨_, _, -, -, entry, hentry, -⟩ := h
  exact fun name hname => tree.isName_of_entryAt? hentry name (List.mem_append_right _ hname)

theorem below?_eq_some {directory place names : List Name} :
    below? directory place = some names ↔ place = directory ++ names := by
  induction directory generalizing place with
  | nil => simp [below?]
  | cons name directory ih =>
    cases place with
    | nil => simp [below?]
    | cons other place =>
      rw [below?]
      by_cases hname : name = other
      · rw [if_pos hname, ih, hname, List.cons_append, List.cons.injEq]
        simp
      · rw [if_neg hname]
        simp [Ne.symm hname]

theorem mem_filesBelow {disk : Disk} {directory : List String} {names : List Name} :
    names ∈ disk.filesBelow directory ↔
      ∃ entry, (directory.map .text ++ names, entry) ∈ disk.entries ∧ entry.isFile = true := by
  simp only [filesBelow, List.mem_filterMap, List.mem_filter, below?_eq_some]
  constructor
  · rintro ⟨⟨place, entry⟩, h, rfl⟩
    exact ⟨entry, h⟩
  · rintro ⟨entry, h⟩
    exact ⟨(directory.map .text ++ names, entry), h, rfl⟩

/-- The files below a directory are those that can be reached from it. -/
theorem IsTree.mem_filesBelow_iff {disk : Disk} (tree : disk.IsTree) {place : List String}
    {names : List Name} (hplace : disk.get? place = some .directory) :
    names ∈ disk.filesBelow place ↔ disk.HasFile place names := by
  rw [mem_filesBelow]
  by_cases hne : names = []
  · subst hne
    rw [List.append_nil]
    constructor
    · rintro ⟨entry, hmem, hfile⟩
      cases hplace.symm.trans (tree.mem_entries.1 hmem).2
      cases hfile
    · intro h
      exact absurd rfl h.ne_nil
  · have hplace : place.map .text ++ names ≠ [] := by simp [hne]
    simp only [tree.hasFile_iff hne, tree.mem_entries, ne_eq, hplace, not_false_eq_true, true_and]

theorem IsTree.nodup_filesBelow {disk : Disk} (tree : disk.IsTree) (directory : List String) :
    (disk.filesBelow directory).Nodup := by
  have hplaces : (disk.entries.filter (·.2.isFile)).Pairwise fun entry other => entry.1 ≠ other.1 :=
    (List.pairwise_map.1 tree.nodup).filter _
  refine hplaces.filterMap _ ?_
  rintro entry other hne names hnames others hothers rfl
  exact hne ((below?_eq_some.1 hnames).trans (below?_eq_some.1 hothers).symm)

end Disk

end Usages
