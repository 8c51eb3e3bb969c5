/-
A configuration that loads can be used and saved.

What is checked when a configuration is loaded (`Config.fault?_eq_none_iff`) is less than what a
project needs: the project also compiles the exclude patterns without the `/**` at their end, and
these were never looked at. A pattern that is faulty stays so when `/**` comes behind it
(`Glob.tokensFrom_faulty`), so they compile all the same. Toggles flip flags, which no check looks
at; hence no run of toggles, saved or not, makes a configuration faulty.
-/
import Usages.Proofs.Contents
import Usages.Proofs.Except
import Usages.Proofs.Glob
import Usages.Proofs.Toggle

namespace Usages

/-- A pattern that can be compiled can be without the `/**` at its end. -/
theorem FileFilter.exists_compile_directoryPattern {pattern shorter : String}
    (hshorter : directoryPattern? pattern = some shorter)
    (h : ∃ glob, Glob.compile pattern = .ok glob) : ∃ glob, Glob.compile shorter = .ok glob := by
  obtain ⟨glob, h⟩ := h
  unfold Glob.compile at h ⊢
  rw [directoryPattern?_eq_some.1 hshorter] at h
  cases hcut : Glob.tokensFrom 0 none shorter.toList with
  | ok tokens => exact ⟨⟨tokens⟩, rfl⟩
  | error error =>
    rw [Glob.tokensFrom_faulty hcut] at h
    cases h

namespace Config

/-! ## What is checked -/

theorem patternFault?_eq_none_iff {key pattern : String} :
    patternFault? key pattern = none ↔
      Text.isBlankText pattern.toList = false ∧ ∃ glob, Glob.compile pattern = .ok glob := by
  unfold patternFault?
  split
  next hblank => simp [hblank]
  next hblank =>
    simp only [hblank, true_and]
    cases Glob.compile pattern with
    | ok glob => simp
    | error error => simp

theorem methodFault?_eq_none_iff {name : String} :
    methodFault? name = none ↔ isMethodName name = true := by
  unfold methodFault?
  split
  next h => simp [h]
  next h => simp [h]

/-- The patterns that are set compile and are not blank, and the methods have names. -/
theorem fault?_eq_none_iff {config : Config} :
    config.fault? = none ↔
      (∀ pattern ∈ config.includePatterns ++ config.excludes.getD [],
        Text.isBlankText pattern.toList = false ∧ ∃ glob, Glob.compile pattern = .ok glob) ∧
      ∀ name ∈ config.mutatingMethods, isMethodName name = true := by
  simp only [fault?, Option.or_eq_none_iff, List.findSome?_eq_none_iff, patternFault?_eq_none_iff,
    methodFault?_eq_none_iff, List.forall_mem_append, and_assoc]

theorem fault?_of_ofContents {path contents : String} {config : Config}
    (h : ofContents path contents = .ok config) : config.fault? = none := by
  unfold ofContents at h
  split at h
  next =>
    cases h
    rfl
  next =>
    obtain ⟨format, -, h⟩ := bind_eq_ok.1 h
    obtain ⟨read, -, h⟩ := bind_eq_ok.1 h
    obtain ⟨_, hvalid, h⟩ := bind_eq_ok.1 h
    cases h
    exact fault?_of_validate hvalid

/-! ## What a project needs -/

theorem exists_compile_default {pattern : String} (h : pattern ∈ defaultExcludes) :
    ∃ glob, Glob.compile pattern = .ok glob := by
  have hall : ∀ pattern ∈ defaultExcludes, (Glob.compile pattern).isOk = true := by
    decide +kernel
  cases hglob : Glob.compile pattern with
  | ok glob => exact ⟨glob, rfl⟩
  | error error =>
    have := hall pattern h
    rw [hglob] at this
    cases this

theorem exists_compile {config : Config} (h : config.fault? = none) {pattern : String}
    (hpattern : pattern ∈ config.includePatterns ++ config.excludePatterns) :
    ∃ glob, Glob.compile pattern = .ok glob := by
  have hset := (fault?_eq_none_iff.1 h).1
  simp only [List.mem_append] at hset hpattern
  rcases hpattern with hpattern | hpattern
  · exact (hset pattern (.inl hpattern)).2
  · unfold excludePatterns at hpattern
    cases hexcludes : config.excludes with
    | none =>
      rw [hexcludes] at hpattern
      exact exists_compile_default hpattern
    | some patterns =>
      rw [hexcludes] at hpattern hset
      exact (hset pattern (.inr hpattern)).2

theorem exists_ofConfig {config : Config} (h : config.fault? = none) :
    ∃ filter, FileFilter.ofConfig config = .ok filter := by
  obtain ⟨includes, hincludes⟩ : ∃ globs, config.includePatterns.mapM Glob.compile = .ok globs :=
    exists_mapM_eq_ok fun pattern hpattern => exists_compile h (List.mem_append_left _ hpattern)
  obtain ⟨excludes, hexcludes⟩ : ∃ globs, config.excludePatterns.mapM Glob.compile = .ok globs :=
    exists_mapM_eq_ok fun pattern hpattern => exists_compile h (List.mem_append_right _ hpattern)
  obtain ⟨directories, hdirectories⟩ : ∃ globs,
      (config.excludePatterns.filterMap FileFilter.directoryPattern?).mapM Glob.compile =
        .ok globs := by
    refine exists_mapM_eq_ok fun shorter hshorter => ?_
    obtain ⟨pattern, hpattern, hcut⟩ := List.mem_filterMap.1 hshorter
    exact FileFilter.exists_compile_directoryPattern hcut
      (exists_compile h (List.mem_append_right _ hpattern))
  refine ⟨⟨includes, excludes, directories⟩, ?_⟩
  simp only [FileFilter.ofConfig, hincludes, hexcludes, hdirectories]
  rfl

/-! ## Toggles -/

theorem fault?_toggle (flag : Flag) (config : Config) :
    (flag.toggle config).fault? = config.fault? := by
  cases flag <;> rfl

/-- A configuration without a fault is not refused when it is saved. -/
theorem save_ne_invalid {config : Config} (h : config.fault? = none) (disk : Disk)
    (path refused message : String) :
    config.save disk path ≠ .error (.invalid refused message) := by
  intro hsave
  cases save_eq_error_iff.1 hsave with
  | invalid hfault =>
    rw [h] at hfault
    cases hfault

end Config

namespace Project

theorem exists_ofConfig {config : Config} (h : config.fault? = none) (root : String) :
    ∃ filter, ofConfig root config =
      .ok ⟨root, config, none, .withExtra config.mutatingMethods, filter⟩ := by
  obtain ⟨filter, hfilter⟩ := Config.exists_ofConfig h
  refine ⟨filter, ?_⟩
  unfold ofConfig
  rw [hfilter]

/-- The project after toggles, each on the disk as it is at that time, whether or not they can be
saved. -/
def afterToggles (project : Project) : List (Disk × Flag) → Project
  | [] => project
  | (disk, flag) :: steps => (project.toggle disk flag).project.afterToggles steps

/-- A toggle puts no fault into the configuration. -/
theorem fault?_project_toggle (project : Project) (disk : Disk) (flag : Flag) :
    (project.toggle disk flag).project.config.fault? = project.config.fault? := by
  rw [project_toggle]
  exact Config.fault?_toggle flag project.config

theorem fault?_afterToggles (project : Project) (steps : List (Disk × Flag)) :
    (project.afterToggles steps).config.fault? = project.config.fault? := by
  induction steps generalizing project with
  | nil => rfl
  | cons step steps ih =>
    obtain ⟨disk, flag⟩ := step
    rw [afterToggles, ih, fault?_project_toggle]

theorem toggle_ne_invalid {project : Project} (h : project.config.fault? = none) (disk : Disk)
    (flag : Flag) (refused message : String) :
    (project.toggle disk flag).outcome ≠ .error (.config (.invalid refused message)) := by
  intro houtcome
  obtain ⟨error, herror, hunsaved⟩ := outcome_toggle_eq_error_iff.1 houtcome
  cases herror
  have hsave := Config.save_eq_error_iff.2 hunsaved
  exact Config.save_ne_invalid ((Config.fault?_toggle flag project.config).trans h) _ _ _ _ hsave

/-- **A configuration that loads can always be used and saved.** All its patterns compile, also the
exclude patterns without the `/**` at their end, so that there is a project with it at every root,
which takes its methods for mutating. After any toggles, on any disks and whether or not they were
saved, neither saving the configuration nor a further toggle refuses it as invalid. -/
theorem loaded_config_usable {path contents : String} {config : Config}
    (h : Config.ofContents path contents = .ok config) (root : String) :
    (∀ pattern ∈ config.includePatterns ++ config.excludePatterns,
      ∃ glob, Glob.compile pattern = .ok glob) ∧
    (∀ pattern ∈ config.excludePatterns, ∀ shorter,
      FileFilter.directoryPattern? pattern = some shorter →
        ∃ glob, Glob.compile shorter = .ok glob) ∧
    ∃ project, ofConfig root config = .ok project ∧ project.root = root ∧
      project.config = config ∧ project.classifier = .withExtra config.mutatingMethods ∧
      ∀ (steps : List (Disk × Flag)) (disk : Disk) (refused message : String),
        (∀ target, (project.afterToggles steps).config.save disk target ≠
          .error (.invalid refused message)) ∧
        ∀ flag, ((project.afterToggles steps).toggle disk flag).outcome ≠
          .error (.config (.invalid refused message)) := by
  have hfault := Config.fault?_of_ofContents h
  obtain ⟨filter, hproject⟩ := exists_ofConfig hfault root
  refine ⟨fun pattern => Config.exists_compile hfault, fun pattern hpattern shorter hcut => ?_,
    _, hproject, rfl, rfl, rfl, fun steps disk refused message => ?_⟩
  · exact FileFilter.exists_compile_directoryPattern hcut
      (Config.exists_compile hfault (List.mem_append_right _ hpattern))
  · have hafter := (fault?_afterToggles
      ⟨root, config, none, .withExtra config.mutatingMethods, filter⟩ steps).trans hfault
    exact ⟨fun target => Config.save_ne_invalid hafter disk target refused message,
      fun flag => toggle_ne_invalid hafter disk flag refused message⟩

/-- Patterns that are empty, end in two stars or in a bracket without their ending, and a toggle
that cannot be saved before the one that can. -/
theorem loaded_config_usable_with_brackets :
    let contents := "exclude: ['/**', 'a/**/**', '[]!]/**', '[!/]/**']\nmutatingMethods: [$set]\n"
    let config : Config :=
      { excludes := some ["/**", "a/**/**", "[]!]/**", "[!/]/**"], mutatingMethods := ["$set"] }
    let blocked : Disk :=
      { entries := [(["w"], .directory), (["w", ".refgrouprc.yml"], .directory)] }
    Config.ofContents "/w/.refgrouprc.yml" contents = .ok config ∧
      ∃ project, ofConfig "/w" config = .ok project ∧
        (project.toggle blocked .groupByFile).outcome = .error (.config (.io .isDirectory)) ∧
        ∀ disk, (project.afterToggles [(blocked, .groupByFile)]).config.save disk
          "/w/.refgrouprc.yml" ≠ .error (.invalid "/w/.refgrouprc.yml" "") := by
  intro contents config blocked
  have hload : Config.ofContents "/w/.refgrouprc.yml" contents = .ok config :=
    toOption_eq_some.1 (by decide +kernel)
  obtain ⟨-, -, project, hproject, -, -, -, hsaved⟩ := loaded_config_usable hload "/w"
  refine ⟨hload, project, hproject, ?_, fun disk => ?_⟩
  · obtain ⟨filter, hmade⟩ := exists_ofConfig (Config.fault?_of_ofContents hload) "/w"
    cases hproject.symm.trans hmade
    have hpath : Path.join "/w" Config.defaultFileName = "/w/.refgrouprc.yml" := by decide
    have hwrite : ∀ text, blocked.write "/w/.refgrouprc.yml" text = .error .isDirectory :=
      fun _ => rfl
    have hformat : Config.Format.ofPath "/w/.refgrouprc.yml" = .ok .yaml := rfl
    have hfault := (Config.fault?_toggle .groupByFile config).trans
      (Config.fault?_of_ofContents hload)
    refine outcome_toggle_eq_error_iff.2 ⟨_, rfl, ?_⟩
    rw [savePath, Option.getD_none, hpath]
    exact .unwritten hfault hformat (hwrite _)
  · exact (hsaved [(blocked, .groupByFile)] disk "/w/.refgrouprc.yml" "").1 "/w/.refgrouprc.yml"

end Project

end Usages
