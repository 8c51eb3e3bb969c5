/-
What is left out by default: whatever lies below a directory of one of four names.

The pattern `**/name/**` may start at the front of a path or behind a slash, so what it covers has
the name as a whole component, and not as the last one (`Glob.accepts_below_iff`); `**/name` covers
the paths whose last component it is (`Glob.accepts_named_iff`). Components that only hold the name
count for nothing. `FileFilter.default_filter_accepts` puts that together for the filter of a
configuration that sets no patterns. All of it is about texts: a path with a name that is none is
never left out, nor is a directory whose path is written with a slash at its end.
-/
import Usages.Proofs.Glob
import Usages.Proofs.Name

namespace Usages

/-! ## Paths made of names -/

namespace Path

open Disk (segments)

theorem joinSegments_cons (name : String) {names : List String} (h : names ≠ []) :
    joinSegments (name :: names) = name ++ "/" ++ joinSegments names := by
  rw [← List.singleton_append, joinSegments_append (by simp) h, joinSegments_singleton]

/-- What is left of a path behind one of its slashes keeps its segments. -/
theorem exists_segments_behind {path : String} {front back : List Char}
    (hpath : path.toList = front ++ back) (hfront : front = [] ∨ front.getLast? = some '/') :
    ∃ earlier, segments path = earlier ++ segments (String.ofList back) := by
  rcases hfront with rfl | hslash
  · refine ⟨[], ?_⟩
    rw [List.nil_append] at hpath
    rw [← hpath, String.ofList_toList, List.nil_append]
  · obtain ⟨start, rfl⟩ := List.getLast?_eq_some_iff.1 hslash
    have hcut : path = String.ofList start ++ "/" ++ String.ofList back := by
      rw [← String.toList_inj, hpath]
      simp
    exact ⟨segments (String.ofList start), by rw [hcut, segments_append]⟩

/-- The last names of a path stand at its front or behind a slash. -/
theorem exists_joinSegments_append (earlier : List String) {later : List String}
    (hlater : later ≠ []) :
    ∃ front, (joinSegments (earlier ++ later)).toList = front ++ (joinSegments later).toList ∧
      (front = [] ∨ front.getLast? = some '/') := by
  by_cases hearlier : earlier = []
  · exact ⟨[], by rw [hearlier]; rfl, .inl rfl⟩
  · refine ⟨(joinSegments earlier).toList ++ ['/'], ?_, .inr (by simp)⟩
    rw [joinSegments_append hearlier hlater]
    simp

theorem fileName?_joinSegments {directories : List String} {name : String}
    (h : ∀ component ∈ directories ++ [name], IsName component) :
    fileName? (joinSegments (directories ++ [name])) = some name := by
  have hname : name ≠ ".." := (h name (by simp)).ne_up
  rw [fileName?, parts_joinSegments (by simp) h, trimRight_of_counts h]
  simp [hname]

/-- The name ends in a dot and the extension, and something stands before the dot. -/
def HasExtension (name extension : String) : Prop :=
  '.' ∉ extension.toList ∧ ∃ stem, stem ≠ "" ∧ name = stem ++ "." ++ extension

theorem extension?_eq_some_iff {path name extension : String} (h : fileName? path = some name) :
    extension? path = some extension ↔ HasExtension name extension := by
  have hreversed : ∀ stem extension : String, (stem ++ "." ++ extension).toList.reverse =
      extension.toList.reverse ++ '.' :: stem.toList.reverse := by
    simp
  simp only [extension?, h, Option.bind_eq_bind, Option.bind_some]
  constructor
  · intro hsome
    split at hsome
    next c more hdrop =>
      cases hsome
      have hcut := List.prefix_iff_eq_append.1
        (List.takeWhile_prefix (l := name.toList.reverse) (· != '.'))
      rw [hdrop] at hcut
      refine ⟨?_, String.ofList (c :: more).reverse, by simp, ?_⟩
      · rw [String.toList_ofList, List.mem_reverse]
        intro hdot
        have hall := List.all_eq_true.1 List.all_takeWhile _ hdot
        simp at hall
      · rw [← String.toList_inj, ← List.reverse_inj, hreversed]
        simpa using hcut.symm
    next => cases hsome
  · rintro ⟨hdot, stem, hstem, rfl⟩
    obtain ⟨c, more, hmore⟩ : ∃ c more, stem.toList.reverse = c :: more :=
      List.exists_cons_of_ne_nil (by simpa using hstem)
    have htail : (extension.toList.reverse ++ '.' :: c :: more).takeWhile (· != '.') =
        extension.toList.reverse := by
      rw [List.takeWhile_append_of_pos, List.takeWhile_cons_of_neg (by simp), List.append_nil]
      intro d hd
      exact bne_iff_ne.2 fun hc => hdot (hc ▸ List.mem_reverse.1 hd)
    rw [hreversed, hmore, htail, List.drop_left]
    simp

end Path

namespace Name

/-- The name ends in a dot and the extension, and something stands before the dot. -/
def HasExtension (name : Name) (extension : String) : Prop :=
  match name with
  | .text content => Path.HasExtension content extension
  | .raw bytes _ =>
    let ending := Text.encode extension.toList
    0x2E ∉ ending ∧ ∃ stem, stem ≠ [] ∧ bytes = stem ++ 0x2E :: ending

theorem extension?_raw_eq_some_iff {bytes : List Nat} {hraw : Text.isWellFormed bytes = false}
    {extension : String} :
    (raw bytes hraw).extension? = some extension ↔
      (raw bytes hraw).HasExtension extension := by
  simp only [extension?, HasExtension]
  constructor
  · intro hsome
    split at hsome
    next byte more hdrop =>
      split at hsome
      next hformed =>
        cases hsome
        have hcut := List.prefix_iff_eq_append.1
          (List.takeWhile_prefix (l := bytes.reverse) (· != 0x2E))
        rw [hdrop] at hcut
        rw [String.toList_ofList, Text.isWellFormed_iff.1 hformed]
        refine ⟨?_, (byte :: more).reverse, by simp, ?_⟩
        · rw [List.mem_reverse]
          intro hdot
          have hall := List.all_eq_true.1 List.all_takeWhile _ hdot
          simp at hall
        · rw [← List.reverse_inj]
          simpa using hcut.symm
      next => cases hsome
    next => cases hsome
  · intro h
    obtain ⟨hdot, stem, hstem, rfl⟩ := h
    obtain ⟨byte, more, hmore⟩ : ∃ byte more, stem.reverse = byte :: more :=
      List.exists_cons_of_ne_nil (by simpa using hstem)
    have hreversed : (stem ++ 0x2E :: Text.encode extension.toList).reverse =
        (Text.encode extension.toList).reverse ++ 0x2E :: byte :: more := by
      simp [← hmore]
    have htail : ((Text.encode extension.toList).reverse ++ 0x2E :: byte :: more).takeWhile
        (· != 0x2E) = (Text.encode extension.toList).reverse := by
      rw [List.takeWhile_append_of_pos, List.takeWhile_cons_of_neg (by simp), List.append_nil]
      intro other hother
      exact bne_iff_ne.2 fun heq => hdot (heq ▸ List.mem_reverse.1 hother)
    rw [hreversed, htail, List.drop_left]
    simp [Text.isWellFormed_encode, Text.decodeLossy_encode]

end Name

namespace Language

theorem isSupported_iff {path name : String} (h : Path.fileName? path = some name) :
    isSupported path = true ↔
      ∃ extension, Path.HasExtension name extension ∧ ofExtension? extension ≠ none := by
  rw [isSupported, ofPath?, Option.isSome_iff_exists]
  simp only [Option.bind_eq_some_iff, OsPath.extension?, Path.extension?_eq_some_iff h,
    Option.ne_none_iff_exists']
  constructor
  · rintro ⟨language, extension, hextension, hlanguage⟩
    exact ⟨extension, hextension, language, hlanguage⟩
  · rintro ⟨extension, hextension, language, hlanguage⟩
    exact ⟨language, extension, hextension, hlanguage⟩

end Language

/-! ## Patterns around a name -/

namespace Glob

/-- A name that stands for itself in a pattern. -/
structure IsLiteral (name : String) : Prop extends Path.IsName name where
  plain : ∀ c ∈ name.toList, c ≠ '*' ∧ c ≠ '?' ∧ c ≠ '['

instance (name : String) : Decidable (IsLiteral name) :=
  decidable_of_iff (Path.IsName name ∧
      name.toList.all (fun c => decide (c ≠ '*' ∧ c ≠ '?' ∧ c ≠ '[')) = true)
    ⟨fun ⟨isName, plain⟩ => ⟨isName, fun c hc => of_decide_eq_true (List.all_eq_true.1 plain c hc)⟩,
      fun h => ⟨h.toIsName, List.all_eq_true.2 fun c hc => decide_eq_true (h.plain c hc)⟩⟩

theorem IsLiteral.toList_ne_nil {name : String} (h : IsLiteral name) : name.toList ≠ [] := by
  intro hnil
  have hcounts := h.counts
  rw [String.toList_eq_nil_iff.1 hnil] at hcounts
  cases hcounts

/-- What `**/name` compiles to. -/
def named (name : String) : Glob :=
  ⟨.anyComponents :: name.toList.map .char⟩

/-- What `**/name/**` compiles to. -/
def below (name : String) : Glob :=
  ⟨.anyComponents :: (name.toList.map .char ++ [.char '/', .anyComponents])⟩

theorem tokensFrom_plain {text rest : List Char} {tokens : List Token}
    (h : ∀ c ∈ text, c ≠ '*' ∧ c ≠ '?' ∧ c ≠ '[')
    (hrest : ∀ position before, tokensFrom position before rest = .ok tokens)
    (position : Nat) (before : Option Char) :
    tokensFrom position before (text ++ rest) = .ok (text.map .char ++ tokens) := by
  induction text generalizing position before with
  | nil => exact hrest position before
  | cons c text ih =>
    obtain ⟨hstar, hmark, hopen⟩ := h c List.mem_cons_self
    rw [List.cons_append, tokensFrom_char hstar hmark hopen,
      ih fun d hd => h d (List.mem_cons_of_mem c hd)]
    rfl

theorem compile_named {name : String} (h : IsLiteral name) :
    compile ("**/" ++ name) = .ok (named name) := by
  have htext : ("**/" ++ name).toList = '*' :: '*' :: '/' :: (name.toList ++ []) := by simp
  have hend : ∀ position before, tokensFrom position before [] = .ok [] := by
    intro position before
    rw [tokensFrom]
  rw [compile, htext, tokensFrom_components rfl, tokensFrom_plain h.plain hend, List.append_nil]
  rfl

theorem compile_below {name : String} (h : IsLiteral name) :
    compile ("**/" ++ name ++ "/**") = .ok (below name) := by
  have htext : ("**/" ++ name ++ "/**").toList =
      '*' :: '*' :: '/' :: (name.toList ++ ['/', '*', '*']) := by simp
  have hend : ∀ position before,
      tokensFrom position before ['/', '*', '*'] = .ok [.char '/', .anyComponents] := by
    intro position before
    rw [tokensFrom_char (by decide) (by decide) (by decide), tokensFrom]
    rfl
  rw [compile, htext, tokensFrom_components rfl, tokensFrom_plain h.plain hend]
  rfl

/-- Tokens for characters cover the text of these characters. -/
theorem covers_chars_append {text : List Char} {tokens : List Token} {input : List Char} :
    covers (text.map .char ++ tokens) input = true ↔
      ∃ rest, input = text ++ rest ∧ covers tokens rest = true := by
  induction text generalizing input with
  | nil => simp
  | cons c text ih =>
    rw [List.map_cons, List.cons_append, covers_cons]
    constructor
    · rintro ⟨front, back, rfl, rfl, hback⟩
      obtain ⟨rest, rfl, hrest⟩ := ih.1 hback
      exact ⟨rest, rfl, hrest⟩
    · rintro ⟨rest, rfl, hrest⟩
      exact ⟨[c], text ++ rest, rfl, rfl, ih.2 ⟨rest, rfl, hrest⟩⟩

/-- A name behind `**/` is found at the front of a path or behind a slash. -/
theorem covers_components_chars {text : List Char} (hne : text ≠ []) {tokens : List Token}
    {input : List Char} :
    covers (.anyComponents :: (text.map .char ++ tokens)) input = true ↔
      ∃ front rest, input = front ++ (text ++ rest) ∧
        (front = [] ∨ front.getLast? = some '/') ∧ covers tokens rest = true := by
  rw [covers_cons]
  constructor
  · rintro ⟨front, back, rfl, htakes, hback⟩
    obtain ⟨rest, rfl, hrest⟩ := covers_chars_append.1 hback
    refine ⟨front, rest, rfl, ?_, hrest⟩
    rcases htakes with hfront | hslash | hnil
    · exact .inl hfront
    · exact .inr hslash
    · exact absurd (List.append_eq_nil_iff.1 hnil).1 hne
  · rintro ⟨front, rest, rfl, hfront, hrest⟩
    refine ⟨front, text ++ rest, rfl, ?_, covers_chars_append.2 ⟨rest, rfl, hrest⟩⟩
    exact hfront.imp_right .inl

variable {directories : List String} {last : String}
  (h : ∀ component ∈ directories ++ [last], Path.IsName component)
include h

/-- `**/name` accepts what has this very name. -/
theorem accepts_named_iff {name : String} (hname : IsLiteral name) :
    (named name).accepts (Path.joinSegments (directories ++ [last])) = true ↔ last = name := by
  have hsegments := Path.segments_joinSegments (by simp) h
  rw [accepts, named, ← List.append_nil (name.toList.map _),
    covers_components_chars hname.toList_ne_nil]
  constructor
  · rintro ⟨front, rest, hcut, hfront, hrest⟩
    rw [covers, List.isEmpty_iff] at hrest
    rw [hrest, List.append_nil] at hcut
    obtain ⟨earlier, hearlier⟩ := Path.exists_segments_behind hcut hfront
    rw [hsegments, String.ofList_toList, hname.segments] at hearlier
    exact List.singleton_inj.1 (List.append_inj' hearlier rfl).2
  · rintro rfl
    obtain ⟨front, hcut, hfront⟩ :=
      Path.exists_joinSegments_append directories (List.cons_ne_nil last [])
    refine ⟨front, [], ?_, hfront, rfl⟩
    rw [hcut, List.append_nil, Path.joinSegments_singleton]

/-- `**/name/**` accepts what has a directory of this very name above it. -/
theorem accepts_below_iff {name : String} (hname : IsLiteral name) :
    (below name).accepts (Path.joinSegments (directories ++ [last])) = true ↔
      name ∈ directories := by
  have hsegments := Path.segments_joinSegments (by simp) h
  rw [accepts, below, covers_components_chars hname.toList_ne_nil]
  constructor
  · rintro ⟨front, rest, hcut, hfront, hrest⟩
    obtain ⟨_, more, rfl, rfl, -⟩ := covers_cons.1 hrest
    obtain ⟨earlier, hearlier⟩ := Path.exists_segments_behind hcut hfront
    have hback : String.ofList (name.toList ++ (['/'] ++ more)) =
        name ++ "/" ++ String.ofList more := by
      rw [← String.toList_inj]
      simp
    rw [hsegments, hback, Path.segments_append, hname.segments] at hearlier
    -- The segments behind the slash are not none, and the last of them is the last of the path.
    obtain ⟨others, final, hothers⟩ :=
      (List.eq_nil_or_concat _).resolve_left (Path.segments_ne_nil (String.ofList more))
    rw [hothers, List.concat_eq_append, ← List.append_assoc, ← List.append_assoc] at hearlier
    rw [(List.append_inj' hearlier rfl).1]
    simp
  · intro hmem
    obtain ⟨earlier, later, rfl⟩ := List.append_of_mem hmem
    obtain ⟨front, hcut, hfront⟩ :=
      Path.exists_joinSegments_append earlier (List.cons_ne_nil name (later ++ [last]))
    refine ⟨front, '/' :: (Path.joinSegments (later ++ [last])).toList, ?_, hfront,
      covers_slash_components _⟩
    rw [List.append_assoc, List.cons_append, hcut, Path.joinSegments_cons name (by simp)]
    simp

end Glob

/-! ## Filters by name -/

namespace FileFilter

/-- The filter that leaves out what lies below directories of these names. -/
def leavingOut (names : List String) : FileFilter :=
  ⟨[], names.map Glob.below, names.map Glob.named⟩

theorem ofConfig_leavingOut {config : Config} {names : List String}
    (hnames : ∀ name ∈ names, Glob.IsLiteral name) (hincludes : config.includePatterns = [])
    (hexcludes : config.excludePatterns = names.map fun name => "**/" ++ name ++ "/**") :
    ofConfig config = .ok (leavingOut names) := by
  have hcut : ∀ name, directoryPattern? ("**/" ++ name ++ "/**") = some ("**/" ++ name) :=
    fun name => directoryPattern?_eq_some.2 (by simp)
  have hdirectories : config.excludePatterns.filterMap directoryPattern? =
      names.map fun name => "**/" ++ name := by
    rw [hexcludes, List.filterMap_map, ← List.filterMap_eq_map]
    exact congrArg (List.filterMap · names) (funext hcut)
  rw [ofConfig, hdirectories, hincludes, hexcludes,
    mapM_map_eq_ok fun name hname => Glob.compile_below (hnames name hname),
    mapM_map_eq_ok fun name hname => Glob.compile_named (hnames name hname)]
  rfl

section

variable {names directories : List String} {last : String}
  (hnames : ∀ name ∈ names, Glob.IsLiteral name)
  (h : ∀ component ∈ directories ++ [last], Path.IsName component)
include hnames h

theorem acceptsFile_leavingOut_iff :
    (leavingOut names).acceptsFile (Path.joinSegments (directories ++ [last])) = true ↔
      (∃ extension, Path.HasExtension last extension ∧ Language.ofExtension? extension ≠ none) ∧
        ∀ directory ∈ directories, directory ∉ names := by
  have hexcluded : (leavingOut names).excludes.any
      (·.acceptsPath (Path.joinSegments (directories ++ [last]) : String)) = true ↔
        ∃ name ∈ names, name ∈ directories := by
    rw [leavingOut, List.any_map, List.any_eq_true]
    exact exists_congr fun name => and_congr_right fun hname =>
      Glob.accepts_below_iff h (hnames name hname)
  have hincluded : (leavingOut names).includes.isEmpty = true := rfl
  rw [acceptsFile, hincluded, Bool.true_or, Bool.and_true, Bool.and_eq_true, Bool.not_eq_true',
    ← Bool.not_eq_true, hexcluded, Language.isSupported_iff (Path.fileName?_joinSegments h)]
  refine and_congr_right fun _ => ?_
  constructor
  · exact fun hnone directory hdirectory hname => hnone ⟨directory, hname, hdirectory⟩
  · rintro hall ⟨name, hname, hdirectory⟩
    exact hall name hdirectory hname

theorem acceptsDirectory_leavingOut_iff :
    (leavingOut names).acceptsDirectory (Path.joinSegments (directories ++ [last])) = true ↔
      last ∉ names := by
  have hexcluded : (leavingOut names).excludedDirectories.any
      (·.acceptsPath (Path.joinSegments (directories ++ [last]) : String)) = true ↔
        ∃ name ∈ names, last = name := by
    rw [leavingOut, List.any_map, List.any_eq_true]
    exact exists_congr fun name => and_congr_right fun hname =>
      Glob.accepts_named_iff h (hnames name hname)
  rw [acceptsDirectory, Bool.not_eq_true', ← Bool.not_eq_true, hexcluded, exists_eq_right']

end

theorem acceptsDirectory_raw (filter : FileFilter) {names : List Name}
    (hraw : names.mapM Name.text? = none) : filter.acceptsDirectory (.raw names hraw) = true := by
  simp [acceptsDirectory, Glob.acceptsPath]

/-- Of a path that is no text only the extension counts, unless there are include patterns. -/
theorem acceptsFile_raw_iff {filter : FileFilter} (hincludes : filter.includes = [])
    {directories : List Name} {last : Name} (hlast : last.IsName)
    (hraw : (directories ++ [last]).mapM Name.text? = none) :
    filter.acceptsFile (.raw (directories ++ [last]) hraw) = true ↔
      ∃ extension, last.HasExtension extension ∧ Language.ofExtension? extension ≠ none := by
  have hextension : ∀ extension,
      last.extension? = some extension ↔ last.HasExtension extension := by
    intro extension
    cases last with
    | text content =>
      have hsingle : ∀ component ∈ [] ++ [content], Path.IsName component :=
        fun component hcomponent => List.mem_singleton.1 hcomponent ▸ hlast
      have hname := Path.fileName?_joinSegments hsingle
      rw [List.nil_append, Path.joinSegments_singleton] at hname
      exact Path.extension?_eq_some_iff hname
    | raw bytes hbytes => exact Name.extension?_raw_eq_some_iff
  have hsupported : Language.isSupported (.raw (directories ++ [last]) hraw) = true ↔
      ∃ extension, last.HasExtension extension ∧ Language.ofExtension? extension ≠ none := by
    rw [Language.isSupported, Language.ofPath?, Option.isSome_bind, OsPath.extension?,
      List.getLast?_concat, Option.bind_some, Option.any_eq_true]
    simp only [hextension, Option.isSome_iff_ne_none]
  simp [acceptsFile, hincludes, Glob.acceptsPath, hsupported]

/-- **What is left out by default.** A configuration that sets no patterns makes a filter. Of a path
made of names, the filter takes the file if its extension is that of a known language and none of
the directories above it has one of the four names, and enters the directory if it has itself none
of them. Where one of the names is no text, the four do not count. -/
theorem default_filter_accepts {config : Config} (hincludes : config.includes = none)
    (hexcludes : config.excludes = none) :
    ∃ filter, ofConfig config = .ok filter ∧
      ∀ (directories : List Name) (last : Name),
        (∀ component ∈ directories ++ [last], component.IsName) →
        let path := OsPath.ofNames (directories ++ [last])
        let leftOut : List Name := ["node_modules", "dist", "build", ".git"]
        (filter.acceptsFile path = true ↔
          (∃ extension, last.HasExtension extension ∧ Language.ofExtension? extension ≠ none) ∧
          (Name.AllText (directories ++ [last]) →
            ∀ directory ∈ directories, directory ∉ leftOut)) ∧
        (filter.acceptsDirectory path = true ↔
          (Name.AllText (directories ++ [last]) → last ∉ leftOut)) := by
  have hliteral : ∀ name ∈ ["node_modules", "dist", "build", ".git"], Glob.IsLiteral name := by
    decide +kernel
  have hnone : config.includePatterns = [] := by rw [Config.includePatterns, hincludes]; rfl
  have hdefault : config.excludePatterns =
      ["node_modules", "dist", "build", ".git"].map fun name => "**/" ++ name ++ "/**" := by
    rw [Config.excludePatterns, hexcludes]
    rfl
  refine ⟨_, ofConfig_leavingOut hliteral hnone hdefault, ?_⟩
  intro directories last hnames path leftOut
  have hleftOut : leftOut = ["node_modules", "dist", "build", ".git"].map Name.text := rfl
  obtain ⟨texts, htexts⟩ | hraw := Name.allText_or_raw (directories ++ [last])
  · -- All names are texts, and so is the path.
    obtain ⟨upper, lower, rfl, rfl, hlower⟩ := List.append_eq_map_iff.1 htexts
    obtain ⟨final, rfl, rfl⟩ := List.map_eq_singleton_iff.1 hlower
    have hpath : path = (Path.joinSegments (upper ++ [final]) : String) := by
      rw [← OsPath.ofNames_texts, ← htexts]
    have htextNames : ∀ component ∈ upper ++ [final], Path.IsName component := by
      intro component hcomponent
      exact hnames (.text component) (htexts ▸ List.mem_map_of_mem hcomponent)
    have hall : Name.AllText (upper.map .text ++ [Name.text final]) := ⟨_, htexts⟩
    rw [hpath, acceptsFile_leavingOut_iff hliteral htextNames,
      acceptsDirectory_leavingOut_iff hliteral htextNames, hleftOut]
    simp [hall, Name.HasExtension]
  · -- No pattern accepts the path.
    have hpath : path = .raw (directories ++ [last]) hraw := OsPath.ofNames_of_raw hraw
    rw [hpath, acceptsFile_raw_iff rfl (hnames last (by simp)), acceptsDirectory_raw]
    simp [Name.not_allText_of_raw hraw]

/-- Names that only hold one of the four do not count, a real one does at any depth, and a name that
is no text lets even a real one pass. -/
theorem default_filter_accepts_near_misses :
    let config : Config := { mutatingMethods := ["set"] }
    let raw : Name := .raw [0xFF, 0x2E, 0x74, 0x73] (by decide +kernel)
    config.includes = none ∧ config.excludes = none ∧
      ∃ filter, ofConfig config = .ok filter ∧
        filter.acceptsFile "mydist/dist2/.git.d/dist.ts" = true ∧
        filter.acceptsFile "mydist/dist/dist2/main.ts" ≠ true ∧
        filter.acceptsDirectory "node_modules/dist2" = true ∧
        filter.acceptsDirectory "src/build" ≠ true ∧
        filter.acceptsFile (.ofNames ["dist", raw]) = true := by
  intro config raw
  obtain ⟨filter, hfilter, haccepts⟩ :=
    default_filter_accepts (show config.includes = none from rfl) rfl
  refine ⟨rfl, rfl, filter, hfilter, ?_, ?_, ?_, ?_, ?_⟩
  · refine (haccepts ["mydist", "dist2", ".git.d"] "dist.ts" (by decide +kernel)).1.2 ?_
    exact ⟨⟨"ts", ⟨by decide, "dist", by decide, rfl⟩, by decide⟩, fun _ => by decide⟩
  · intro hfile
    have hnames := ((haccepts ["mydist", "dist", "dist2"] "main.ts" (by decide +kernel)).1.1
      hfile).2 ⟨["mydist", "dist", "dist2", "main.ts"], rfl⟩
    exact hnames "dist" (by decide) (by decide)
  · exact (haccepts ["node_modules"] "dist2" (by decide +kernel)).2.2 fun _ => by decide
  · exact fun hdirectory =>
      (haccepts ["src"] "build" (by decide +kernel)).2.1 hdirectory ⟨["src", "build"], rfl⟩
        (by decide)
  · refine (haccepts ["dist"] raw (by decide +kernel)).1.2 ?_
    exact ⟨⟨"ts", ⟨by decide, [0xFF], by decide, rfl⟩, by decide⟩,
      fun hall => absurd hall (Name.not_allText_of_raw rfl)⟩

/-- The four names are looked for in texts, and in those as they are written. So a file below
`node_modules` passes if its name is no text, a directory passes if the name of one above it is
none, and `dist` passes with a slash behind it, though its only name is `dist`. -/
theorem default_filter_passes_left_out :
    let raw : Name := .raw [0xFF, 0x2E, 0x74, 0x73] (by decide +kernel)
    ∃ filter, ofConfig {} = .ok filter ∧
      filter.acceptsFile (.ofNames ["node_modules", raw]) = true ∧
      filter.acceptsDirectory (.ofNames [raw, "node_modules"]) = true ∧
      Path.components "dist/" = [.name "dist"] ∧ filter.acceptsDirectory "dist/" = true := by
  intro raw
  refine ⟨leavingOut ["node_modules", "dist", "build", ".git"],
    ofConfig_leavingOut (by decide +kernel) rfl rfl, ?_, ?_, ?_, ?_⟩ <;> decide +kernel

end FileFilter

end Usages
