/-
The configuration file that applies to a directory: the nearest one, then the preferred one.

The search goes up from parent to parent. A parent has the components of its path but the last
(`Path.parent?_cases`), whether the path is absolute or relative and however it is written, so the
way up ends, at the root or at the empty path, before the bound that `Config.ancestors` puts on it
(`Path.upwards_ancestors`). `Config.find?_is_nearest_then_preferred` reads the search off that
chain, with distance before preference.
-/
import Usages.Config.File
import Usages.Proofs.Save

namespace Usages

namespace Path

open Disk (segments)

/-! ## Parents -/

theorem exists_trimRight (segments : List String) :
    ∃ idle, segments = trimRight segments ++ idle ∧ ∀ segment ∈ idle, isIdle segment = true := by
  refine ⟨(segments.reverse.takeWhile isIdle).reverse, ?_, fun segment hsegment => ?_⟩
  · rw [trimRight, ← List.reverse_append, List.takeWhile_append_dropWhile, List.reverse_reverse]
  · exact List.all_eq_true.1 List.all_takeWhile segment (List.mem_reverse.1 hsegment)

theorem prefix_trimRight (segments : List String) : trimRight segments <+: segments := by
  obtain ⟨idle, hcut, -⟩ := exists_trimRight segments
  exact ⟨idle, hcut.symm⟩

theorem filterMap_trimRight (segments : List String) :
    (trimRight segments).filterMap segmentComponent = segments.filterMap segmentComponent := by
  obtain ⟨idle, hcut, hidle⟩ := exists_trimRight segments
  conv => rhs; rw [hcut]
  rw [List.filterMap_append, filterMap_idle hidle, List.append_nil]

theorem isIdle_last_trimRight {segments front : List String} {last : String}
    (h : trimRight segments = front ++ [last]) : isIdle last = false := by
  have hreverse : segments.reverse.dropWhile isIdle = last :: front.reverse := by
    rw [← List.reverse_inj, ← trimRight, h]
    simp
  have hhead := List.head?_dropWhile_not isIdle segments.reverse
  rw [hreverse] at hhead
  simpa using hhead

theorem mem_segments_of_mem_parts {path segment : String} (h : segment ∈ (parts path).segments) :
    segment ∈ segments path := by
  rw [parts_eq] at h
  generalize segments path = all at h ⊢
  unfold Parts.ofSegments at h
  split at h
  · exact List.mem_cons_of_mem _ h
  · exact List.mem_cons_of_mem _ h
  · exact h

theorem no_slash_of_mem_parts {path segment : String} (h : segment ∈ (parts path).segments) :
    '/' ∉ segment.toList := by
  obtain ⟨piece, hpiece, rfl⟩ := List.mem_map.1 (mem_segments_of_mem_parts h)
  rw [String.toList_ofList]
  exact no_slash_of_mem_splitSlashes hpiece

/-- A path that starts with neither a slash nor a dot is empty or starts with a component. -/
theorem exists_first_of_lead_none {path : String} (h : (parts path).lead = .none) :
    path = "" ∨ ∃ first others, (parts path).segments = first :: others ∧
      isIdle first = false := by
  obtain ⟨first, others, hsegments⟩ := List.exists_cons_of_ne_nil (segments_ne_nil path)
  rw [parts_eq, hsegments] at h ⊢
  by_cases hidle : isIdle first = true
  · rw [isIdle, Bool.or_eq_true, beq_iff_eq, beq_iff_eq] at hidle
    rcases hidle with rfl | rfl
    · cases others with
      | nil => exact .inl (segments_eq_empty_iff.1 hsegments)
      | cons next others => cases h
    · cases h
  · have hcounts : isIdle first = false := Bool.eq_false_iff.2 hidle
    rw [Parts.ofSegments_counts hcounts]
    exact .inr ⟨first, others, rfl, hcounts⟩

/-- The components of a path that is put together from its parts. -/
theorem components_text {lead : Lead} {body : List String}
    (hslash : ∀ segment ∈ body, '/' ∉ segment.toList)
    (hfirst : lead = .none → ∀ first others, body = first :: others → isIdle first = false) :
    components (Parts.text ⟨lead, body⟩) =
      leadComponents lead ++ body.filterMap segmentComponent := by
  cases body with
  | nil => cases lead <;> decide
  | cons first others =>
    have hsegments := segments_joinSegments_of_no_slash (List.cons_ne_nil first others) hslash
    cases lead with
    | root =>
      have htext : Parts.text ⟨.root, first :: others⟩ =
          "" ++ "/" ++ joinSegments (first :: others) := rfl
      rw [htext, components, parts_eq, segments_append, hsegments]
      rfl
    | here =>
      have htext : Parts.text ⟨.here, first :: others⟩ =
          "." ++ "/" ++ joinSegments (first :: others) := rfl
      rw [htext, components, parts_eq, segments_append, hsegments]
      rfl
    | none =>
      have htext : Parts.text ⟨.none, first :: others⟩ = joinSegments (first :: others) := rfl
      rw [htext, components, parts_eq, hsegments,
        Parts.ofSegments_counts (hfirst rfl first others rfl)]

theorem parent?_of_nil {path : String} (h : trimRight (parts path).segments = []) :
    parent? path = if (parts path).lead = .here then some "" else none := by
  simp only [parent?, h]

theorem parent?_of_concat {path : String} {front : List String} {last : String}
    (h : trimRight (parts path).segments = front ++ [last]) :
    parent? path = some (Parts.text ⟨(parts path).lead, trimRight front⟩) := by
  simp only [parent?, h]
  split
  next hnil => simp at hnil
  next => rw [List.dropLast_concat]

theorem components_eq_trimRight (path : String) :
    components path = leadComponents (parts path).lead ++
      (trimRight (parts path).segments).filterMap segmentComponent := by
  rw [filterMap_trimRight]
  rfl

/-- The components of what is left of a path when its last segment is taken away. -/
theorem components_text_front {path : String} {front : List String} {last : String}
    (h : trimRight (parts path).segments = front ++ [last]) :
    components (Parts.text ⟨(parts path).lead, trimRight front⟩) =
      leadComponents (parts path).lead ++ front.filterMap segmentComponent := by
  have hkept : trimRight front <+: (parts path).segments :=
    (prefix_trimRight front).trans ((List.prefix_append front [last]).trans
      (h ▸ prefix_trimRight (parts path).segments))
  rw [components_text, filterMap_trimRight]
  · exact fun segment hsegment => no_slash_of_mem_parts (hkept.subset hsegment)
  · intro hlead first others hbody
    -- The first segment that is kept is the first one of the path.
    rcases exists_first_of_lead_none hlead with rfl | ⟨start, more, hsegments, hcounts⟩
    · have hempty : trimRight (parts "").segments = [] := by decide
      rw [hempty] at h
      simp at h
    · rw [hbody, hsegments, List.cons_prefix_cons] at hkept
      rw [hkept.1]
      exact hcounts

/-- Only the root and the empty path have no parent; any other has one with its components but the
last. -/
theorem parent?_cases (path : String) :
    parent? path = none ∧ (path = "" ∨ components path = [.root]) ∨
      ∃ parent last, parent? path = some parent ∧
        components path = components parent ++ [last] := by
  rcases List.eq_nil_or_concat (trimRight (parts path).segments) with hnil | ⟨front, last, hcut⟩
  · have hlead : components path = leadComponents (parts path).lead := by
      rw [components_eq_trimRight, hnil, List.filterMap_nil, List.append_nil]
    rw [parent?_of_nil hnil]
    cases hcase : (parts path).lead with
    | root => exact .inl ⟨rfl, .inr (by rw [hlead, hcase]; rfl)⟩
    | here => exact .inr ⟨"", .here, rfl, by rw [hlead, hcase]; decide⟩
    | none =>
      rw [hcase] at hlead
      exact .inl ⟨rfl, .inl (Decidable.of_not_not fun hne => components_ne_nil hne hlead)⟩
  · rw [List.concat_eq_append] at hcut
    obtain ⟨component, hcomponent⟩ := exists_segmentComponent (isIdle_last_trimRight hcut)
    refine .inr ⟨_, component, parent?_of_concat hcut, ?_⟩
    rw [components_eq_trimRight, hcut, components_text_front hcut, List.filterMap_append,
      List.filterMap_cons_some hcomponent, List.filterMap_nil, List.append_assoc]

theorem components_of_parent? {path parent : String} (h : parent? path = some parent) :
    ∃ last, components path = components parent ++ [last] := by
  rcases parent?_cases path with ⟨hnone, -⟩ | ⟨other, last, hsome, hlast⟩
  · rw [hnone] at h
    cases h
  · rw [hsome] at h
    cases h
    exact ⟨last, hlast⟩

/-! ## The way up -/

/-- The directories from a path upwards: each is the parent of the one before it, and the last one
has no parent. -/
inductive Upwards : (path : String) → (chain : List String) → Prop
  | top {path : String} : parent? path = none → Upwards path [path]
  | up {path parent : String} {rest : List String} : parent? path = some parent →
      Upwards parent rest → Upwards path (path :: rest)

theorem Upwards.unique {path : String} {chain other : List String} (h : Upwards path chain)
    (h' : Upwards path other) : other = chain := by
  induction h generalizing other with
  | top hnone =>
    cases h' with
    | top _ => rfl
    | up hsome _ =>
      rw [hnone] at hsome
      cases hsome
  | up hsome _ ih =>
    cases h' with
    | top hnone =>
      rw [hnone] at hsome
      cases hsome
    | up hsome' hrest =>
      rw [hsome] at hsome'
      cases hsome'
      rw [ih hrest]

/-- A directory further up has fewer of the components of the path. -/
theorem Upwards.components_eq {path : String} {chain : List String} (h : Upwards path chain)
    {i : Nat} {directory : String} (hi : chain[i]? = some directory) :
    components directory = (components path).take ((components path).length - i) := by
  induction h generalizing i with
  | top _ =>
    obtain ⟨rfl, rfl⟩ : i = 0 ∧ _ = directory := by simpa [List.getElem?_singleton] using hi
    simp
  | up hparent _ ih =>
    cases i with
    | zero =>
      obtain rfl : _ = directory := by simpa using hi
      simp
    | succ i =>
      obtain ⟨last, hlast⟩ := components_of_parent? hparent
      rw [List.getElem?_cons_succ] at hi
      rw [ih hi, hlast, List.length_append, List.length_singleton, Nat.add_sub_add_right,
        List.take_append_of_le_length (Nat.sub_le _ _)]

theorem Upwards.exists_last {path : String} {chain : List String} (h : Upwards path chain) :
    ∃ last, chain.getLast? = some last ∧ (last = "" ∨ components last = [.root]) := by
  induction h with
  | @top path hnone =>
    rcases parent?_cases path with ⟨-, hend⟩ | ⟨parent, last, hsome, -⟩
    · exact ⟨path, rfl, hend⟩
    · rw [hnone] at hsome
      cases hsome
  | up _ _ ih =>
    obtain ⟨last, hlast, hend⟩ := ih
    exact ⟨last, by rw [List.getLast?_cons, hlast]; rfl, hend⟩

theorem Parts.length_ofSegments_le (segments : List String) :
    (leadComponents (ofSegments segments).lead).length + (ofSegments segments).segments.length ≤
      segments.length := by
  unfold ofSegments
  split <;> simp only [leadComponents, List.length_cons, List.length_nil] <;> omega

theorem length_components_le (path : String) : (components path).length ≤ path.length + 1 := by
  have hsegments : (segments path).length ≤ path.length + 1 := by
    rw [segments, List.length_map, ← String.length_toList]
    exact length_splitSlashes_le path.toList
  have hparts := Parts.length_ofSegments_le (segments path)
  have hcounts := List.length_filterMap_le segmentComponent (parts path).segments
  rw [components, List.length_append]
  rw [← parts_eq] at hparts
  omega

/-- The bound on the number of directories is not reached before the way up ends. -/
theorem upwards_ancestors {fuel : Nat} {path : String} (h : (components path).length ≤ fuel) :
    Upwards path (Config.ancestors fuel path) := by
  -- Each step up takes away a component, so those that are left stay within the fuel.
  induction fuel generalizing path with
  | zero =>
    obtain rfl : path = "" := Decidable.of_not_not fun hne =>
      components_ne_nil hne (List.length_eq_zero_iff.1 (Nat.le_zero.1 h))
    exact .top (by decide)
  | succ fuel ih =>
    rw [Config.ancestors]
    cases hparent : parent? path with
    | none => exact .top hparent
    | some parent =>
      obtain ⟨last, hlast⟩ := components_of_parent? hparent
      rw [hlast, List.length_append] at h
      exact .up hparent (ih (Nat.le_of_succ_le_succ h))

/-- A relative path stands behind its base and a slash at most. -/
theorem exists_toList_join (base : String) {path : String} (h : isAbsolute path = false) :
    ∃ slash, (join base path).toList = base.toList ++ (slash ++ path.toList) ∧
      ∀ c ∈ slash, c = '/' := by
  rw [join, if_neg (by simp [h])]
  split
  · exact ⟨[], by simp, by simp⟩
  · exact ⟨['/'], by simp, by simp⟩

end Path

/-! ## Files in a directory -/

namespace Disk

/-- A name that can be given to a file, and by which a path can lead to it. -/
structure IsFileName (name : String) : Prop extends Path.IsName name where
  short : name.utf8ByteSize ≤ maxNameSize
  no_nul : '\x00' ∉ name.toList

theorem resolve_of_leads_join {disk : Disk} {directory name : String} {here place : List String}
    (hdirectory : disk.resolve directory = .ok here) (hname : IsFileName name)
    (h : Leads disk false maxLinks
      (if Path.isAbsolute (Path.join directory name) then [] else disk.workingDirectory)
      (segments (Path.join directory name)) place) :
    disk.resolve (Path.join directory name) = .ok place := by
  have hrelative : Path.isAbsolute name = false := by
    rw [← Path.joinSegments_singleton name]
    exact Path.not_isAbsolute_joinSegments (by simpa using hname.toIsName)
  obtain ⟨slash, htext, hslash⟩ := Path.exists_toList_join directory hrelative
  have hnul := (locate_eq_ok.1 hdirectory).1
  rw [List.contains_eq_mem, decide_eq_false_iff_not] at hnul
  refine locate_eq_ok.2 ⟨?_, ?_, h⟩
  · rw [List.contains_eq_mem, decide_eq_false_iff_not, htext, List.mem_append, List.mem_append]
    rintro (hmem | hmem | hmem)
    · exact hnul hmem
    · exact absurd (hslash _ hmem) (by decide)
    · exact hname.no_nul hmem
  · rw [Bool.eq_false_iff, ne_eq, String.isEmpty_iff]
    intro hempty
    rw [hempty] at htext
    obtain ⟨-, -, rfl⟩ : directory = "" ∧ slash = [] ∧ name = "" := by simpa using htext
    cases hname.counts

/-- In a directory, a name leads to a file if it is the name of one, or of a link that leads to
one. -/
theorem isFile_join_iff {disk : Disk} {directory name : String} {here : List String}
    (hdirectory : disk.resolve directory = .ok here) (hhere : disk.get? here = some .directory)
    (hname : IsFileName name) :
    disk.isFile (Path.join directory name) = true ↔
      (∃ entry, disk.get? (here ++ [name]) = some entry ∧ entry.isFile = true) ∨
      (∃ target, disk.get? (here ++ [name]) = some (.link target)) ∧
        ∃ place entry, disk.resolve (Path.join directory name) = .ok place ∧
          disk.get? place = some entry ∧ entry.isFile = true := by
  have hnames : ∀ other ∈ [name], Path.IsName other := by simpa using hname.toIsName
  obtain ⟨links, hjoin⟩ := exists_leads_join_iff hdirectory hhere (List.cons_ne_nil name []) hnames
  rw [Path.joinSegments_singleton] at hjoin
  rw [isFile_eq_true]
  constructor
  · rintro ⟨place, entry, hplace, hentry, hfile⟩
    cases (hjoin false place).1 (locate_eq_ok.1 hplace).2.2 with
    | stay hidle _ =>
      rw [hname.counts] at hidle
      cases hidle
    | up _ => exact absurd rfl hname.ne_up
    | enter _ hfound hrest =>
      cases hrest
      rw [hfound] at hentry
      cases hentry
      cases hfile
    | follow _ hlink _ => exact .inr ⟨⟨_, hlink⟩, place, entry, hplace, hentry, hfile⟩
    | file _ _ _ => exact .inl ⟨entry, hentry, hfile⟩
    | make hcreate _ _ => cases hcreate
  · rintro (⟨entry, hentry, hfile⟩ | ⟨-, hplace⟩)
    · have hleads := (hjoin false _).2
        (.file ⟨hname.counts, hname.ne_up, hname.short⟩ hentry (DiskEntry.isLast_of_isFile hfile))
      exact ⟨_, entry, resolve_of_leads_join hdirectory hname hleads, hentry, hfile⟩
    · exact hplace

end Disk

/-! ## The search -/

namespace Config

theorem isFileName_of_mem {name : String} (h : name ∈ fileNames) : Disk.IsFileName name := by
  have hall : ∀ name ∈ fileNames, Path.IsName name ∧
      name.utf8ByteSize ≤ Disk.maxNameSize ∧ '\x00' ∉ name.toList := by decide +kernel
  obtain ⟨hname, hshort, hnul⟩ := hall name h
  exact { hname with short := hshort, no_nul := hnul }

/-- The name leads to a file in the directory, where no name before it on the list does, and none of
the list does in a directory before this one. -/
structure Applies (disk : Disk) (chain : List String) (directory name : String) : Prop where
  nearest : ∃ nearer farther, chain = nearer ++ directory :: farther ∧
    ∀ other ∈ nearer, ∀ file ∈ fileNames, disk.isFile (Path.join other file) = false
  preferred : ∃ before after, fileNames = before ++ name :: after ∧
    ∀ file ∈ before, disk.isFile (Path.join directory file) = false
  isFile : disk.isFile (Path.join directory name) = true

section

variable {disk : Disk}

theorem fileIn?_eq_none_iff {directory : String} :
    fileIn? disk directory = none ↔
      ∀ name ∈ fileNames, disk.isFile (Path.join directory name) = false := by
  rw [fileIn?, List.find?_map, Option.map_eq_none_iff, List.find?_eq_none]
  simp only [Function.comp_apply, Bool.not_eq_true]

theorem fileIn?_eq_some_iff {directory path : String} :
    fileIn? disk directory = some path ↔ ∃ name,
      (∃ before after, fileNames = before ++ name :: after ∧
        ∀ file ∈ before, disk.isFile (Path.join directory file) = false) ∧
      disk.isFile (Path.join directory name) = true ∧ path = Path.join directory name := by
  rw [fileIn?, List.find?_map, Option.map_eq_some_iff]
  refine exists_congr fun name => ?_
  rw [List.find?_eq_some_iff_append]
  simp only [Function.comp_apply, Bool.not_eq_true']
  constructor
  · rintro ⟨⟨hfile, hfirst⟩, rfl⟩
    exact ⟨hfirst, hfile, rfl⟩
  · rintro ⟨hfirst, hfile, rfl⟩
    exact ⟨⟨hfile, hfirst⟩, rfl⟩

variable {start : String} {chain : List String} (h : Path.Upwards start chain)
include h

theorem find?_eq : find? disk start = chain.findSome? (fileIn? disk) := by
  rw [find?, h.unique (Path.upwards_ancestors (Path.length_components_le start))]

theorem find?_eq_none_iff :
    find? disk start = none ↔ ∀ directory ∈ chain, ∀ name ∈ fileNames,
      disk.isFile (Path.join directory name) = false := by
  rw [find?_eq h, List.findSome?_eq_none_iff]
  simp only [fileIn?_eq_none_iff]

theorem find?_eq_some_iff {path : String} :
    find? disk start = some path ↔ ∃ directory name, Applies disk chain directory name ∧
      path = Path.join directory name := by
  rw [find?_eq h, List.findSome?_eq_some_iff]
  simp only [fileIn?_eq_none_iff, fileIn?_eq_some_iff]
  constructor
  · rintro ⟨nearer, directory, farther, hchain, ⟨name, hfirst, hfile, rfl⟩, hnearer⟩
    exact ⟨directory, name, ⟨⟨nearer, farther, hchain, hnearer⟩, hfirst, hfile⟩, rfl⟩
  · rintro ⟨directory, name, ⟨⟨nearer, farther, hchain, hnearer⟩, hfirst, hfile⟩, rfl⟩
    exact ⟨nearer, directory, farther, hchain, ⟨name, hfirst, hfile, rfl⟩, hnearer⟩

end

end Config

end Usages
