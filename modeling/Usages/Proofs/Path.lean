/-
Paths below a base. Names put behind a base become its further components, and taking the base away
gives them back. What lies below an absolute base, and above an absolute path, is absolute.
-/
import Usages.Disk

namespace Usages

namespace Path

open Disk (segments)

/-- A name that a file or a directory can have. -/
structure IsName (name : String) : Prop where
  counts : isIdle name = false
  ne_up : name ≠ ".."
  no_slash : '/' ∉ name.toList

instance (name : String) : Decidable (IsName name) :=
  decidable_of_iff (isIdle name = false ∧ name ≠ ".." ∧ '/' ∉ name.toList)
    ⟨fun ⟨counts, ne_up, no_slash⟩ => ⟨counts, ne_up, no_slash⟩,
      fun h => ⟨h.counts, h.ne_up, h.no_slash⟩⟩

theorem exists_segmentComponent {segment : String} (h : isIdle segment = false) :
    ∃ component, segmentComponent segment = some component := by
  rw [segmentComponent, h]
  by_cases hup : segment = ".." <;> simp [hup]

theorem segmentComponent_idle {segment : String} (h : isIdle segment = true) :
    segmentComponent segment = none := by
  rw [segmentComponent, if_pos h]

theorem IsName.segmentComponent {name : String} (h : IsName name) :
    segmentComponent name = some (.name name) := by
  rw [Path.segmentComponent, h.counts]
  simp [h.ne_up]

/-! ## Slashes -/

theorem splitSlashes_ne_nil (text : List Char) : splitSlashes text ≠ [] := by
  cases text with
  | nil => simp [splitSlashes]
  | cons c rest =>
    rw [splitSlashes]
    split
    · simp
    · split <;> simp

theorem splitSlashes_cons {c : Char} (hc : c ≠ '/') (rest : List Char) :
    ∃ piece others, splitSlashes rest = piece :: others ∧
      splitSlashes (c :: rest) = (c :: piece) :: others := by
  obtain ⟨piece, others, h⟩ := List.exists_cons_of_ne_nil (splitSlashes_ne_nil rest)
  refine ⟨piece, others, h, ?_⟩
  rw [splitSlashes, if_neg hc, h]

theorem splitSlashes_append (front back : List Char) :
    splitSlashes (front ++ '/' :: back) = splitSlashes front ++ splitSlashes back := by
  induction front with
  | nil => simp [splitSlashes]
  | cons c front ih =>
    by_cases hc : c = '/'
    · rw [hc, List.cons_append, splitSlashes, if_pos rfl, ih, splitSlashes, if_pos rfl]
      rfl
    · obtain ⟨piece, others, h, hcons⟩ := splitSlashes_cons hc front
      rw [h] at ih
      rw [hcons, List.cons_append, splitSlashes, if_neg hc, ih]
      rfl

theorem splitSlashes_of_no_slash {text : List Char} (h : '/' ∉ text) :
    splitSlashes text = [text] := by
  induction text with
  | nil => rfl
  | cons c rest ih =>
    rw [List.mem_cons, not_or] at h
    rw [splitSlashes, if_neg (Ne.symm h.1), ih h.2]

theorem no_slash_of_mem_splitSlashes {text piece : List Char} (h : piece ∈ splitSlashes text) :
    '/' ∉ piece := by
  induction text generalizing piece with
  | nil =>
    rw [splitSlashes, List.mem_singleton] at h
    simp [h]
  | cons c rest ih =>
    by_cases hc : c = '/'
    · rw [splitSlashes, if_pos hc, List.mem_cons] at h
      rcases h with rfl | h
      · simp
      · exact ih h
    · obtain ⟨first, others, hrest, hcons⟩ := splitSlashes_cons hc rest
      rw [hcons, List.mem_cons] at h
      rw [hrest] at ih
      rcases h with rfl | h
      · rw [List.mem_cons, not_or]
        exact ⟨Ne.symm hc, ih List.mem_cons_self⟩
      · exact ih (List.mem_cons_of_mem _ h)

theorem length_splitSlashes_le (text : List Char) :
    (splitSlashes text).length ≤ text.length + 1 := by
  induction text with
  | nil => simp [splitSlashes]
  | cons c rest ih =>
    by_cases hc : c = '/'
    · rw [splitSlashes, if_pos hc]
      simpa using ih
    · obtain ⟨first, others, hrest, hcons⟩ := splitSlashes_cons hc rest
      rw [hrest] at ih
      rw [hcons]
      simp only [List.length_cons] at ih ⊢
      omega

theorem segments_append (front back : String) :
    segments (front ++ "/" ++ back) = segments front ++ segments back := by
  have htext : (front ++ "/" ++ back).toList = front.toList ++ '/' :: back.toList := by simp
  rw [segments, htext, splitSlashes_append, List.map_append]
  rfl

theorem segments_ne_nil (path : String) : segments path ≠ [] := by
  simp [segments, splitSlashes_ne_nil]

theorem segments_of_no_slash {text : String} (h : '/' ∉ text.toList) : segments text = [text] := by
  simp [segments, splitSlashes_of_no_slash h]

theorem IsName.segments {name : String} (h : IsName name) : segments name = [name] :=
  segments_of_no_slash h.no_slash

/-- Texts without slashes that are joined by slashes are cut into the same texts. -/
theorem segments_joinSegments_of_no_slash {texts : List String} (hne : texts ≠ [])
    (h : ∀ text ∈ texts, '/' ∉ text.toList) : segments (joinSegments texts) = texts := by
  induction texts with
  | nil => exact (hne rfl).elim
  | cons text texts ih =>
    have htext := segments_of_no_slash (h text List.mem_cons_self)
    cases texts with
    | nil => rw [joinSegments, String.intercalate_singleton, htext]
    | cons next texts =>
      rw [joinSegments, String.intercalate_cons_cons, segments_append, htext]
      rw [← joinSegments, ih (by simp) fun text hmem => h text (List.mem_cons_of_mem _ hmem)]
      rfl

theorem segments_joinSegments {names : List String} (hne : names ≠ [])
    (h : ∀ name ∈ names, IsName name) : segments (joinSegments names) = names :=
  segments_joinSegments_of_no_slash hne fun name hname => (h name hname).no_slash

theorem joinSegments_singleton (name : String) : joinSegments [name] = name :=
  String.intercalate_singleton

theorem joinSegments_append {names others : List String} (hne : names ≠ [])
    (hothers : others ≠ []) :
    joinSegments (names ++ others) = joinSegments names ++ "/" ++ joinSegments others :=
  String.intercalate_append_of_ne_nil hne hothers

theorem not_isAbsolute_joinSegments {names : List String} (h : ∀ name ∈ names, IsName name) :
    isAbsolute (joinSegments names) = false := by
  rw [isAbsolute, beq_eq_false_iff_ne]
  intro hslash
  obtain ⟨rest, htext⟩ := List.head?_eq_some_iff.1 hslash
  cases names with
  | nil => simp [joinSegments] at htext
  | cons name names =>
    have hsegments := segments_joinSegments (by simp) h
    rw [segments, htext, splitSlashes, if_pos rfl] at hsegments
    have hname : "" = name := (List.cons.inj hsegments).1
    exact absurd (h name List.mem_cons_self).counts (by rw [← hname]; decide)

theorem trimRight_of_counts {names : List String} (h : ∀ name ∈ names, IsName name) :
    trimRight names = names := by
  rcases List.eq_nil_or_concat names with rfl | ⟨front, name, rfl⟩
  · rfl
  · have hname := (h name (by simp)).counts
    simp [trimRight, hname]

/-! ## Joining -/

theorem segments_eq_empty_iff {path : String} : segments path = [""] ↔ path = "" := by
  refine ⟨fun h => ?_, fun h => by rw [h]; rfl⟩
  have hsplit : splitSlashes path.toList = [[]] := by
    have := congrArg (List.map String.toList) h
    simpa [segments, Function.comp_def] using this
  cases htext : path.toList with
  | nil => exact String.toList_eq_nil_iff.1 htext
  | cons c rest =>
    rw [htext] at hsplit
    by_cases hc : c = '/'
    · rw [splitSlashes, if_pos hc] at hsplit
      exact (splitSlashes_ne_nil rest (List.cons.inj hsplit).2).elim
    · obtain ⟨piece, others, -, hcons⟩ := splitSlashes_cons hc rest
      rw [hcons] at hsplit
      cases hsplit

theorem join_empty (path : String) : join "" path = path := by
  simp [join]

/-- The segments of a path behind a base: a slash comes between, unless the base ends in one. -/
theorem exists_segments_join {base : String} (hbase : base ≠ "") :
    ∃ front, front ≠ [] ∧
      (segments base = front ∧ front ≠ [""] ∨ segments base = front ++ [""]) ∧
      ∀ path, isAbsolute path = false → segments (join base path) = front ++ segments path := by
  by_cases hslash : base.toList.getLast? = some '/'
  · obtain ⟨front, hfront⟩ := List.getLast?_eq_some_iff.1 hslash
    have hcut : base = String.ofList front ++ "/" := by
      rw [← String.toList_inj, hfront]
      simp
    refine ⟨segments (String.ofList front), segments_ne_nil _, .inr ?_, fun path hpath => ?_⟩
    · have hempty : base = String.ofList front ++ "/" ++ "" := by rw [← hcut, String.append_empty]
      rw [hempty, segments_append]
      rfl
    · have hjoin : join base path = String.ofList front ++ "/" ++ path := by
        rw [join, hpath, hslash, hcut]
        simp
      rw [hjoin, segments_append]
  · refine ⟨segments base, segments_ne_nil base, .inl ⟨rfl, ?_⟩, fun path hpath => ?_⟩
    · exact fun h => hbase (segments_eq_empty_iff.1 h)
    · have hjoin : join base path = base ++ "/" ++ path := by
        simp [join, hpath, hbase, hslash]
      rw [hjoin, segments_append]

/-! ## Parts -/

/-- The parts of a path, from its segments. -/
def Parts.ofSegments : List String → Parts
  | "" :: segment :: others => ⟨.root, segment :: others⟩
  | "." :: others => ⟨.here, others⟩
  | segments => ⟨.none, segments⟩

theorem parts_eq (path : String) : parts path = .ofSegments (segments path) :=
  rfl

theorem Parts.ofSegments_counts {segment : String} (h : isIdle segment = false)
    (others : List String) : ofSegments (segment :: others) = ⟨.none, segment :: others⟩ := by
  rw [ofSegments.eq_3]
  · rintro _ _ ⟨rfl, -⟩
    cases h
  · rintro _ ⟨rfl, -⟩
    cases h

/-- Segments that follow do not change how a path starts, unless it is empty. -/
theorem Parts.exists_ofSegments_append {front : List String} (hne : front ≠ []) :
    ∃ lead body, (front ≠ [""] → ofSegments front = ⟨lead, body⟩) ∧
      ∀ more, more ≠ [] → ofSegments (front ++ more) = ⟨lead, body ++ more⟩ := by
  obtain ⟨segment, others, rfl⟩ := List.exists_cons_of_ne_nil hne
  by_cases hcounts : isIdle segment = false
  · exact ⟨.none, segment :: others, fun _ => ofSegments_counts hcounts others,
      fun more _ => ofSegments_counts hcounts (others ++ more)⟩
  rw [Bool.not_eq_false, isIdle, Bool.or_eq_true, beq_iff_eq, beq_iff_eq] at hcounts
  rcases hcounts with rfl | rfl
  · refine ⟨.root, others, fun h => ?_, fun more hmore => ?_⟩
    · cases others with
      | nil => exact (h rfl).elim
      | cons segment others => rfl
    · cases others with
      | nil =>
        obtain ⟨segment, others, rfl⟩ := List.exists_cons_of_ne_nil hmore
        rfl
      | cons segment others => rfl
  · exact ⟨.here, others, fun _ => rfl, fun _ _ => rfl⟩

theorem parts_joinSegments {names : List String} (hne : names ≠ [])
    (h : ∀ name ∈ names, IsName name) : parts (joinSegments names) = ⟨.none, names⟩ := by
  rw [parts_eq, segments_joinSegments hne h]
  obtain ⟨name, others, rfl⟩ := List.exists_cons_of_ne_nil hne
  exact Parts.ofSegments_counts (h name List.mem_cons_self).counts others

/-- Names put behind a base are its last segments. What they replace are segments that do not
count. -/
theorem exists_parts_join (base : String) :
    ∃ lead body idle, parts base = ⟨lead, body ++ idle⟩ ∧
      (∀ segment ∈ idle, isIdle segment = true) ∧
      ∀ names, names ≠ [] → (∀ name ∈ names, IsName name) →
        parts (join base (joinSegments names)) = ⟨lead, body ++ names⟩ := by
  by_cases hempty : base = ""
  · refine ⟨.none, [], [""], by rw [hempty]; rfl, by decide, fun names hne h => ?_⟩
    rw [hempty, join_empty, parts_joinSegments hne h]
    rfl
  obtain ⟨front, hfront, hbase, hjoin⟩ := exists_segments_join hempty
  obtain ⟨lead, body, hparts, hmore⟩ := Parts.exists_ofSegments_append hfront
  have hnames : ∀ names, names ≠ [] → (∀ name ∈ names, IsName name) →
      parts (join base (joinSegments names)) = ⟨lead, body ++ names⟩ := by
    intro names hne h
    rw [parts_eq, hjoin _ (not_isAbsolute_joinSegments h), segments_joinSegments hne h]
    exact hmore names hne
  rcases hbase with ⟨hbase, hempty⟩ | hbase
  · refine ⟨lead, body, [], ?_, by simp, hnames⟩
    rw [parts_eq, hbase, List.append_nil]
    exact hparts hempty
  · refine ⟨lead, body, [""], ?_, by decide, hnames⟩
    rw [parts_eq, hbase]
    exact hmore [""] (by simp)

/-! ## Components -/

theorem filterMap_names {names : List String} (h : ∀ name ∈ names, IsName name) :
    names.filterMap segmentComponent = names.map .name := by
  induction names with
  | nil => rfl
  | cons name names ih =>
    rw [List.filterMap_cons_some (h name List.mem_cons_self).segmentComponent, List.map_cons,
      ih fun name hname => h name (List.mem_cons_of_mem _ hname)]

theorem filterMap_idle {segments : List String} (h : ∀ segment ∈ segments, isIdle segment = true) :
    segments.filterMap segmentComponent = [] :=
  List.filterMap_eq_nil_iff.2 fun segment hsegment => segmentComponent_idle (h segment hsegment)

/-- Names put behind a base are its last components. -/
theorem components_join (base : String) {names : List String} (hne : names ≠ [])
    (h : ∀ name ∈ names, IsName name) :
    components (join base (joinSegments names)) = components base ++ names.map .name := by
  obtain ⟨lead, body, idle, hbase, hidle, hjoin⟩ := exists_parts_join base
  simp only [components, hbase, hjoin names hne h, List.filterMap_append, filterMap_names h,
    filterMap_idle hidle, List.append_nil, List.append_assoc]

theorem dropWhile_dropComponents (body rest : List String) :
    (dropComponents (body.filterMap segmentComponent).length (body ++ rest)).dropWhile isIdle =
      rest.dropWhile isIdle := by
  induction body with
  | nil => simp [dropComponents]
  | cons segment body ih =>
    by_cases hidle : isIdle segment = true
    · rw [List.filterMap_cons_none (segmentComponent_idle hidle), List.cons_append]
      cases hcount : (body.filterMap segmentComponent).length with
      | zero =>
        rw [hcount] at ih
        rw [dropComponents, List.dropWhile_cons_of_pos hidle, ← ih, dropComponents]
      | succ n =>
        rw [dropComponents, if_pos hidle, ← hcount]
        exact ih
    · obtain ⟨component, hsome⟩ := exists_segmentComponent (Bool.eq_false_iff.2 hidle)
      rw [List.filterMap_cons_some hsome, List.cons_append, List.length_cons, dropComponents,
        if_neg hidle]
      exact ih

theorem components_ne_nil {path : String} (h : path ≠ "") : components path ≠ [] := by
  obtain ⟨segment, others, hsegments⟩ := List.exists_cons_of_ne_nil (segments_ne_nil path)
  rw [components, parts_eq, hsegments]
  by_cases hidle : isIdle segment = true
  · rw [isIdle, Bool.or_eq_true, beq_iff_eq, beq_iff_eq] at hidle
    rcases hidle with rfl | rfl
    · cases others with
      | nil => exact (h (segments_eq_empty_iff.1 hsegments)).elim
      | cons next others => simp [Parts.ofSegments, leadComponents]
    · simp [Parts.ofSegments, leadComponents]
  · have hcounts : isIdle segment = false := Bool.eq_false_iff.2 hidle
    obtain ⟨component, hsome⟩ := exists_segmentComponent hcounts
    rw [Parts.ofSegments_counts hcounts, List.filterMap_cons_some hsome]
    simp

/-- Taking the base away leaves the names behind it. -/
theorem relativeTo?_join (base : String) {names : List String} (hne : names ≠ [])
    (h : ∀ name ∈ names, IsName name) :
    relativeTo? (join base (joinSegments names)) base = some (joinSegments names) := by
  have hstarts : startsWith (join base (joinSegments names)) base = true := by
    rw [startsWith, components_join base hne h, List.isPrefixOf_iff_prefix]
    exact List.prefix_append _ _
  rw [relativeTo?, if_pos hstarts]
  by_cases hempty : base = ""
  · rw [hempty, join_empty, parts_joinSegments hne h]
    exact congrArg (fun names => some (joinSegments names)) (trimRight_of_counts h)
  obtain ⟨lead, body, idle, hbase, hidle, hjoin⟩ := exists_parts_join base
  have hcount : (components base).length - (leadComponents lead).length =
      (body.filterMap segmentComponent).length := by
    simp [components, hbase, filterMap_idle hidle]
  have hdrop : (dropComponents ((components base).length - (leadComponents lead).length)
      (body ++ names)).dropWhile isIdle = names := by
    rw [hcount, dropWhile_dropComponents]
    obtain ⟨name, others, rfl⟩ := List.exists_cons_of_ne_nil hne
    exact List.dropWhile_cons_of_neg (by simp [(h name List.mem_cons_self).counts])
  rw [hjoin names hne h]
  split
  next hzero => exact (components_ne_nil hempty (List.length_eq_zero_iff.1 hzero)).elim
  next => simp only [hdrop, trimRight_of_counts h]

theorem join_injective (base : String) {names others : List String} (hne : names ≠ [])
    (h : ∀ name ∈ names, IsName name) (hne' : others ≠ []) (hothers : ∀ name ∈ others, IsName name)
    (hjoin : join base (joinSegments names) = join base (joinSegments others)) :
    names = others := by
  have hrelative := relativeTo?_join base hne h
  rw [hjoin, relativeTo?_join base hne' hothers] at hrelative
  rw [← segments_joinSegments hne h, ← Option.some.inj hrelative,
    segments_joinSegments hne' hothers]

/-! ## Absolute paths -/

theorem Parts.lead_ofSegments_eq_root {segments : List String} :
    (ofSegments segments).lead = .root ↔
      ∃ segment others, segments = "" :: segment :: others := by
  constructor
  · intro h
    unfold ofSegments at h
    split at h
    · exact ⟨_, _, rfl⟩
    · cases h
    · cases h
  · rintro ⟨segment, others, rfl⟩
    rfl

theorem isAbsolute_iff_lead {path : String} :
    isAbsolute path = true ↔ (parts path).lead = .root := by
  rw [isAbsolute, parts_eq, Parts.lead_ofSegments_eq_root, segments]
  cases path.toList with
  | nil => simp [splitSlashes]
  | cons c rest =>
    by_cases hc : c = '/'
    · obtain ⟨piece, others, hrest⟩ := List.exists_cons_of_ne_nil (splitSlashes_ne_nil rest)
      simp [splitSlashes, hc, hrest]
    · obtain ⟨piece, others, -, hfirst⟩ := splitSlashes_cons hc rest
      simp [hfirst, hc]

theorem isAbsolute_append {base : String} (h : isAbsolute base = true) (rest : String) :
    isAbsolute (base ++ rest) = true := by
  rw [isAbsolute, beq_iff_eq] at h ⊢
  rw [String.toList_append, List.head?_append, h]
  rfl

theorem isAbsolute_join {base : String} (h : isAbsolute base = true) (path : String) :
    isAbsolute (join base path) = true := by
  rw [join]
  split
  · assumption
  · split
    · exact isAbsolute_append h path
    · exact isAbsolute_append (isAbsolute_append h "/") path

theorem isAbsolute_join_eq {base path : String} (hbase : base ≠ "") (h : isAbsolute path = false) :
    isAbsolute (join base path) = isAbsolute base := by
  obtain ⟨c, rest, hbase⟩ : ∃ c rest, base.toList = c :: rest :=
    List.exists_cons_of_ne_nil (by simpa using hbase)
  rw [join, if_neg (by simp [h])]
  split
  · simp [isAbsolute, hbase]
  · simp [isAbsolute, hbase]

theorem isAbsolute_parent? {path parent : String} (h : isAbsolute path = true)
    (hparent : parent? path = some parent) : isAbsolute parent = true := by
  have hlead := isAbsolute_iff_lead.1 h
  simp only [parent?, hlead] at hparent
  split at hparent
  · cases hparent
  · cases hparent
    exact isAbsolute_append (by decide) _

/-- What an absolute path lies below is absolute. -/
theorem isAbsolute_of_startsWith {path base : String} (hpath : isAbsolute path = true)
    (hbase : base ≠ "") (h : startsWith path base = true) : isAbsolute base = true := by
  obtain ⟨more, hmore⟩ := List.isPrefixOf_iff_prefix.1 h
  obtain ⟨first, others, hfirst⟩ := List.exists_cons_of_ne_nil (components_ne_nil hbase)
  have hroot : first = .root := by
    rw [hfirst, components, isAbsolute_iff_lead.1 hpath] at hmore
    exact (List.cons.inj hmore).1
  rw [isAbsolute_iff_lead]
  rw [components, hroot] at hfirst
  cases hlead : (parts base).lead with
  | root => rfl
  | here => rw [hlead] at hfirst; cases (List.cons.inj hfirst).1
  | none =>
    -- A segment is never the root.
    have hmem : Component.root ∈ (parts base).segments.filterMap segmentComponent := by
      rw [hlead, leadComponents, List.nil_append] at hfirst
      exact hfirst ▸ List.mem_cons_self
    obtain ⟨segment, -, hsegment⟩ := List.mem_filterMap.1 hmem
    simp only [segmentComponent] at hsegment
    split at hsegment
    · cases hsegment
    · split at hsegment <;> cases hsegment

end Path

end Usages
