/-
Projects that save to one file.

Each project keeps a copy of the configuration from the time it was opened, and a toggle writes the
whole copy. So the file holds the copy of the project that toggled last, with the flips made there
and none of those made elsewhere: a flip in another project is undone by the next toggle here.
-/
import Usages.Proofs.Reload

namespace Usages

namespace Config

/-- Two paths that lead to one file and tell the same format of it. -/
structure SameFile (disk : Disk) (path other : String) : Prop where
  resolve_eq : disk.resolve path = disk.resolve other
  ofPath_eq : Format.ofPath path = Format.ofPath other

theorem SameFile.refl (disk : Disk) (path : String) : SameFile disk path path :=
  ⟨rfl, rfl⟩

theorem readYaml_eq_ok {path contents : String} {config : Config} :
    readYaml path contents = .ok config ↔ ofYaml? contents = some config := by
  unfold readYaml
  split <;> simp_all

theorem readJson_eq_ok {path contents : String} {config : Config} :
    readJson path contents = .ok config ↔ ofJson? contents = some config := by
  unfold readJson
  split <;> simp_all

/-- The path has a part only in how a failure is told. -/
theorem readAs_eq_ok {format : Format} {path contents : String} {config : Config}
    (h : readAs format path contents = .ok config) (other : String) :
    readAs format other contents = .ok config := by
  cases format with
  | yaml => exact readYaml_eq_ok.2 (readYaml_eq_ok.1 h)
  | json => exact readJson_eq_ok.2 (readJson_eq_ok.1 h)
  | either =>
    simp only [readAs] at h ⊢
    cases hyaml : ofYaml? contents with
    | none =>
      simp only [readYaml, hyaml] at h ⊢
      exact readJson_eq_ok.2 (readJson_eq_ok.1 h)
    | some read =>
      simp only [readYaml, hyaml] at h ⊢
      exact h

theorem ofContents_eq_ok {path other contents : String} {config : Config}
    (hformat : Format.ofPath path = Format.ofPath other)
    (h : ofContents path contents = .ok config) : ofContents other contents = .ok config := by
  cases hblank : Text.isBlankText contents.toList with
  | true =>
    rw [ofContents, if_pos hblank] at h ⊢
    exact h
  | false =>
    rw [ofContents, if_neg (ne_true_of_eq_false hblank)] at h
    obtain ⟨format, hknown, h⟩ := bind_eq_ok.1 h
    obtain ⟨read, hread, h⟩ := bind_eq_ok.1 h
    obtain ⟨_, hvalid, h⟩ := bind_eq_ok.1 h
    cases h
    exact ofContents_of_read hblank (hformat ▸ hknown) (readAs_eq_ok hread other)
      (fault?_of_validate hvalid)

theorem load_of_sameFile {disk : Disk} {path other : String} {config : Config}
    (hsame : SameFile disk path other) (h : load disk path = .ok config) :
    load disk other = .ok config := by
  have hread : disk.read path = disk.read other := by
    rw [Disk.read, Disk.read, hsame.resolve_eq]
  unfold load at h ⊢
  rw [← hread]
  split at h
  · cases h
  next contents hcontents => exact ofContents_eq_ok hsame.ofPath_eq h

/-- Flips come in pairs. -/
theorem repeat_not_eq_iff (m n : Nat) (value : Bool) :
    Nat.repeat not (m + n) value = Nat.repeat not m value ↔ n % 2 = 0 := by
  induction n with
  | zero => simp
  | succ n ih =>
    have hflip : Nat.repeat not (m + (n + 1)) value = !Nat.repeat not (m + n) value := rfl
    rw [hflip, Bool.not_eq_eq_eq_not, Bool.eq_not, Ne, ih]
    omega

end Config

/-- Projects on one disk. -/
structure Shared (ι : Type) where
  projects : ι → Project
  disk : Disk

namespace Shared

variable {ι : Type} [DecidableEq ι]

/-- Toggle a flag in one of the projects. -/
def toggle (shared : Shared ι) (i : ι) (flag : Flag) : Shared ι :=
  let toggled := (shared.projects i).toggle shared.disk flag
  { projects := fun j => if j = i then toggled.project else shared.projects j
    disk := toggled.disk }

/-- Toggles in these projects of these flags, one after another, that all succeed. -/
inductive Toggles : Shared ι → List (ι × Flag) → Shared ι → Prop
  | done {shared : Shared ι} : Toggles shared [] shared
  | step {shared after : Shared ι} {i : ι} {flag : Flag} {later : List (ι × Flag)} {value : Bool} :
      ((shared.projects i).toggle shared.disk flag).outcome = .ok value →
      Toggles (shared.toggle i flag) later after → Toggles shared ((i, flag) :: later) after

/-- How often a flag was toggled in the project that toggled last. -/
def kept (toggles : List (ι × Flag)) (flag : Flag) : Nat :=
  toggles.getLast?.elim 0 fun last => toggles.countP fun made => made.2 == flag && made.1 == last.1

/-- How often a flag was toggled in the other projects. -/
def lost (toggles : List (ι × Flag)) (flag : Flag) : Nat :=
  toggles.getLast?.elim 0 fun last => toggles.countP fun made => made.2 == flag && made.1 != last.1

theorem kept_add_lost (toggles : List (ι × Flag)) (flag : Flag) :
    kept toggles flag + lost toggles flag = toggles.countP fun made => made.2 == flag := by
  unfold kept lost
  cases hlast : toggles.getLast? with
  | none => rw [List.getLast?_eq_none_iff.1 hlast]; rfl
  | some last =>
    rw [List.countP_eq_countP_filter_add toggles _ fun made => made.1 == last.1,
      List.countP_filter, List.countP_filter]
    rfl

/-- The projects save to one file, each by its own path. -/
structure SavesTo (shared : Shared ι) (paths : ι → String) : Prop where
  configPath_eq : ∀ i, (shared.projects i).configPath = some (paths i)
  isFile : ∀ i, shared.disk.isFile (paths i) = true
  shows : ∀ i, shared.disk.hidesWrites (paths i) = false
  sameFile : ∀ i j, Config.SameFile shared.disk (paths i) (paths j)

/-! ## One toggle -/

theorem projects_toggle (shared : Shared ι) (i j : ι) (flag : Flag) :
    (shared.toggle i flag).projects j =
      if j = i then (shared.projects j).flip flag else shared.projects j := by
  simp only [toggle, Project.project_toggle]
  split
  next heq => rw [heq]
  next => rfl

/-- What a toggle writes, and where. -/
theorem SavesTo.save {shared : Shared ι} {paths : ι → String} {i : ι} {flag : Flag} {value : Bool}
    (h : shared.SavesTo paths)
    (htoggle : ((shared.projects i).toggle shared.disk flag).outcome = .ok value) :
    (flag.toggle (shared.projects i).config).save shared.disk (paths i) =
      .ok (shared.toggle i flag).disk := by
  have hsave := Project.save_of_toggle htoggle
  rwa [Project.savePath, h.configPath_eq i, Option.getD_some] at hsave

/-- A toggle leaves every project with its path, and all paths with the one file. -/
theorem SavesTo.toggle {shared : Shared ι} {paths : ι → String} {i : ι} {flag : Flag} {value : Bool}
    (h : shared.SavesTo paths)
    (htoggle : ((shared.projects i).toggle shared.disk flag).outcome = .ok value) :
    (shared.toggle i flag).SavesTo paths := by
  obtain ⟨-, format, -, hwrite⟩ := Config.save_eq_ok.1 (h.save htoggle)
  have hshape := Disk.sameShape_write hwrite (h.isFile i)
  have hfile : ∀ j, (shared.toggle i flag).disk.isFile (paths j) = true := by
    intro j
    rw [hshape.isFile, h.isFile j]
  have hsame : ∀ j k, Config.SameFile (shared.toggle i flag).disk (paths j) (paths k) := by
    intro j k
    obtain ⟨place, _, hresolve, -, -⟩ := Disk.isFile_eq_true.1 (h.isFile j)
    have hother := (h.sameFile j k).resolve_eq.symm.trans hresolve
    exact ⟨(hshape.resolve hresolve).trans (hshape.resolve hother).symm, (h.sameFile j k).ofPath_eq⟩
  refine ⟨fun j => ?_, hfile, fun j => ?_, hsame⟩
  · rw [projects_toggle]
    split
    · simp only [Project.flip, Project.savePath, h.configPath_eq j, Option.getD_some]
    · exact h.configPath_eq j
  · exact Config.not_hidesWrites_of_load (hfile j)
      (Config.load_of_sameFile (hsame i j) (Config.load_save (h.save htoggle) (h.shows i)))

/-- After a toggle every project loads the copy that was toggled. -/
theorem SavesTo.load_toggle {shared : Shared ι} {paths : ι → String} {i : ι} {flag : Flag}
    {value : Bool} (h : shared.SavesTo paths)
    (htoggle : ((shared.projects i).toggle shared.disk flag).outcome = .ok value) (j : ι) :
    Config.load (shared.toggle i flag).disk (paths j) =
      .ok ((shared.toggle i flag).projects i).config := by
  rw [projects_toggle, if_pos rfl]
  exact Config.load_of_sameFile ((h.toggle htoggle).sameFile i j)
    (Config.load_save (h.save htoggle) (h.shows i))

/-! ## A run of toggles -/

/-- The file holds the copy of the project that toggled last. -/
theorem Toggles.load {shared after : Shared ι} {paths : ι → String} {toggles : List (ι × Flag)}
    {last : ι × Flag} (h : Toggles shared toggles after) (hsaves : shared.SavesTo paths)
    (hlast : toggles.getLast? = some last) (j : ι) :
    Config.load after.disk (paths j) = .ok (after.projects last.1).config := by
  induction h with
  | done => cases hlast
  | step htoggle hlater ih =>
    cases hlater with
    | done =>
      cases hlast
      exact hsaves.load_toggle htoggle j
    | step _ _ =>
      rw [List.getLast?_cons_cons] at hlast
      exact ih (hsaves.toggle htoggle) hlast

/-- Each copy has the flips that were made in its own project. -/
theorem Toggles.config_eq {shared after : Shared ι} {toggles : List (ι × Flag)}
    (h : Toggles shared toggles after) (i : ι) :
    (after.projects i).config = (shared.projects i).config.flipped fun flag =>
      toggles.countP fun made => made.2 == flag && made.1 == i := by
  induction h with
  | done => rfl
  | @step shared after k flag later value htoggle _ ih =>
    rw [ih, projects_toggle]
    by_cases hown : i = k
    · subst hown
      rw [if_pos rfl, Project.flip, Config.flipped_toggle]
      simp only [List.countP_cons, beq_self_eq_true, Bool.and_true]
    · rw [if_neg hown]
      have hother : (k == i) = false := beq_false_of_ne (Ne.symm hown)
      simp only [List.countP_cons, hother, Bool.and_false, Bool.false_eq_true, if_false,
        Nat.add_zero]

omit [DecidableEq ι] in
theorem savesTo_of_ofRoot {shared : Shared ι} {roots paths : ι → String}
    (hopen : ∀ i, Project.ofRoot shared.disk (roots i) = .ok (shared.projects i))
    (hfind : ∀ i, Config.find? shared.disk (roots i) = some (paths i))
    (hsame : ∀ i j, Config.SameFile shared.disk (paths i) (paths j)) : shared.SavesTo paths := by
  have hpath : ∀ i, (shared.projects i).configPath = some (paths i) := by
    intro i
    obtain ⟨base, -, hproject⟩ := Project.ofRoot_eq_ok (hopen i)
    rw [hproject, hfind i]
  exact ⟨hpath, fun i => Config.isFile_of_find? (hfind i),
    fun i => Project.not_hidesWrites_of_ofRoot (hopen i) (hpath i), hsame⟩

/-- The file that the projects share holds the flips made in the project that toggled last, and
no others: it is as all the toggles would leave it exactly where those in the other projects cancel
out. -/
theorem last_toggle_overwrites {shared after : Shared ι} {roots paths : ι → String}
    {toggles : List (ι × Flag)}
    (hopen : ∀ i, Project.ofRoot shared.disk (roots i) = .ok (shared.projects i))
    (hfind : ∀ i, Config.find? shared.disk (roots i) = some (paths i))
    (hsame : ∀ i j, Config.SameFile shared.disk (paths i) (paths j))
    (h : Toggles shared toggles after) (i : ι) :
    ∃ initial loaded, Config.load shared.disk (paths i) = .ok initial ∧
      Config.load after.disk (paths i) = .ok loaded ∧
      loaded = initial.flipped (kept toggles) ∧
      ∀ flag, flag.value loaded =
          Nat.repeat not (toggles.countP fun made => made.2 == flag) (flag.value initial) ↔
        lost toggles flag % 2 = 0 := by
  have hinitial : ∀ j, Config.load shared.disk (paths j) = .ok (shared.projects j).config :=
    fun j => Project.load_of_ofRoot (hfind j) (hopen j)
  have hcopies : ∀ j, (shared.projects j).config = (shared.projects i).config := fun j =>
    Except.ok.inj ((hinitial j).symm.trans (Config.load_of_sameFile (hsame i j) (hinitial i)))
  have hloaded : Config.load after.disk (paths i) =
      .ok ((shared.projects i).config.flipped (kept toggles)) := by
    cases hlast : toggles.getLast? with
    | none =>
      cases List.getLast?_eq_none_iff.1 hlast
      cases h
      exact hinitial i
    | some last =>
      have hkept : kept toggles = fun flag =>
          toggles.countP fun made => made.2 == flag && made.1 == last.1 := by
        funext flag
        rw [kept, hlast, Option.elim_some]
      rw [h.load (savesTo_of_ofRoot hopen hfind hsame) hlast i, h.config_eq, hcopies, hkept]
  refine ⟨_, _, hinitial i, hloaded, rfl, fun flag => ?_⟩
  rw [Config.value_flipped, ← kept_add_lost, eq_comm, Config.repeat_not_eq_iff]

/-- A folder and one inside it, with a file that applies to both. -/
def nested : Shared Bool :=
  let config : Config := { excludes := some [] }
  { projects := fun inner =>
      ⟨if inner then "/w/sub" else "/w", config, some "/w/.refgrouprc.yml", .withExtra [],
        ⟨[], [], []⟩⟩
    disk :=
      { entries := [(["w"], .directory), (["w", "sub"], .directory),
          (["w", ".refgrouprc.yml"], .text config.toYaml)] } }

theorem find?_nested (inner : Bool) :
    Config.find? nested.disk (nested.projects inner).root = some "/w/.refgrouprc.yml" := by
  cases inner <;> decide +kernel

theorem load_nested :
    Config.load nested.disk "/w/.refgrouprc.yml" = .ok { excludes := some [] } := by
  let config : Config := { excludes := some [] }
  rw [Config.load, show nested.disk.read "/w/.refgrouprc.yml" = .ok (config.writeAs .yaml) from rfl]
  exact Config.ofContents_writeAs (by decide +kernel) rfl

theorem ofRoot_nested (inner : Bool) :
    Project.ofRoot nested.disk (nested.projects inner).root = .ok (nested.projects inner) := by
  rw [Project.ofRoot_of_load (find?_nested inner) load_nested rfl]
  rfl

theorem toggles_nested :
    ∃ after, Toggles nested [(false, .groupByFile), (true, .showFullPath)] after := by
  obtain ⟨_, hfirst⟩ : ∃ value, ((nested.projects false).toggle nested.disk
      .groupByFile).outcome = .ok value := Project.exists_of_isOk (by decide +kernel)
  let second := nested.toggle false .groupByFile
  obtain ⟨_, hsecond⟩ : ∃ value, ((second.projects true).toggle second.disk
      .showFullPath).outcome = .ok value := Project.exists_of_isOk (by decide +kernel)
  exact ⟨_, .step hfirst (.step hsecond .done)⟩

theorem last_toggle_overwrites_nested :
    (∀ inner, Project.ofRoot nested.disk (nested.projects inner).root =
        .ok (nested.projects inner)) ∧
      (∀ inner, Config.find? nested.disk (nested.projects inner).root =
        some "/w/.refgrouprc.yml") ∧
      ∃ after, Toggles nested [(false, .groupByFile), (true, .showFullPath)] after ∧
        Config.load after.disk "/w/.refgrouprc.yml" =
          .ok { excludes := some [], showFullPath := true } := by
  obtain ⟨after, h⟩ := toggles_nested
  obtain ⟨initial, loaded, hinitial, hloaded, hflipped, -⟩ :=
    last_toggle_overwrites ofRoot_nested find?_nested (fun _ _ => .refl _ _) h true
  cases load_nested.symm.trans hinitial
  refine ⟨ofRoot_nested, find?_nested, after, h, ?_⟩
  rw [hloaded, hflipped]
  rfl

/-- Files are grouped in the outer folder and full paths shown in the inner one, after which the
file does not group. -/
theorem toggle_lost_between_nested :
    let toggles : List (Bool × Flag) := [(false, .groupByFile), (true, .showFullPath)]
    (∀ inner, Project.ofRoot nested.disk (nested.projects inner).root =
        .ok (nested.projects inner)) ∧
      (∀ inner, Config.find? nested.disk (nested.projects inner).root =
        some "/w/.refgrouprc.yml") ∧
      ∃ after initial loaded, Toggles nested toggles after ∧
        Config.load nested.disk "/w/.refgrouprc.yml" = .ok initial ∧
        Config.load after.disk "/w/.refgrouprc.yml" = .ok loaded ∧
        ¬ ∀ flag : Flag, flag.value loaded =
          Nat.repeat not (toggles.countP fun made => made.2 == flag) (flag.value initial) := by
  intro toggles
  obtain ⟨after, h⟩ := toggles_nested
  have hsaves := savesTo_of_ofRoot ofRoot_nested find?_nested fun _ _ => .refl _ _
  have hloaded := h.load hsaves rfl true
  rw [h.config_eq] at hloaded
  refine ⟨ofRoot_nested, find?_nested, after, _, _, h, load_nested, hloaded, fun hall => ?_⟩
  exact absurd (hall .groupByFile) (by decide)

end Shared

end Usages
