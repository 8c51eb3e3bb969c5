/-
Toggles that cannot be saved.

A toggle flips the flag in memory, chooses a file if the project has none, and then saves. Saving
has three ways to fail, one after another: the configuration is faulty, the name of the file says
no format, the file cannot be written (`Config.save_eq_error_iff`). The first two do not touch the
disk; a write that is cut off leaves the beginning of the text in the file. None takes the flip
back. What is left behind is `Project.flip`, so that a further toggle of the flag, when it can be
saved, saves the value from before the first one.
-/
import Usages.Project
import Usages.Proofs.Write

namespace Usages

namespace Flag

theorem toggle_toggle (flag : Flag) (config : Config) :
    flag.toggle (flag.toggle config) = config := by
  cases flag <;> simp [toggle]

theorem value_toggle (flag : Flag) (config : Config) :
    flag.value (flag.toggle config) = !flag.value config := by
  cases flag <;> rfl

theorem value_toggle_of_ne {flag other : Flag} (h : other ≠ flag) (config : Config) :
    other.value (flag.toggle config) = other.value config := by
  cases flag <;> cases other <;> first | rfl | exact absurd rfl h

end Flag

namespace Config

/-- Why a configuration cannot be saved to a file. -/
inductive Unsaved (config : Config) (disk : Disk) (path : String) : ConfigError → Prop
  | invalid {message : String} : config.fault? = some message →
      Unsaved config disk path (.invalid path message)
  | unsupported : config.fault? = none → Format.ofPath path = .error (.unsupportedFormat path) →
      Unsaved config disk path (.unsupportedFormat path)
  | unwritten {format : Format} {cause : OsError} : config.fault? = none →
      Format.ofPath path = .ok format →
      disk.write path (config.writeAs format) = .error cause →
      Unsaved config disk path (.io cause)

theorem error_of_ofPath {path : String} {error : ConfigError}
    (h : Format.ofPath path = .error error) : error = .unsupportedFormat path := by
  simp only [Format.ofPath] at h
  split at h
  · cases h
  split at h
  · cases h
  split at h
  · cases h
  exact (Except.error.inj h).symm

theorem save_eq (config : Config) (disk : Disk) (path : String) :
    config.save disk path =
      match config.fault?, Format.ofPath path with
      | some message, _ => .error (.invalid path message)
      | none, .error error => .error error
      | none, .ok format =>
        match disk.write path (config.writeAs format) with
        | .error cause => .error (.io cause)
        | .ok saved => .ok saved := by
  simp only [save, toContents, validate]
  cases config.fault? with
  | some message => rfl
  | none => cases Format.ofPath path <;> rfl

theorem save_eq_error_iff {config : Config} {disk : Disk} {path : String} {error : ConfigError} :
    config.save disk path = .error error ↔ config.Unsaved disk path error := by
  rw [save_eq]
  constructor
  · intro h
    split at h
    next message _ hfault =>
      cases h
      exact .invalid hfault
    next cause hfault hformat =>
      cases h
      obtain rfl := error_of_ofPath hformat
      exact .unsupported hfault hformat
    next format hfault hformat =>
      split at h
      next cause hwrite =>
        cases h
        exact .unwritten hfault hformat hwrite
      next => cases h
  · intro h
    cases h with
    | invalid hfault => rw [hfault]
    | unsupported hfault hformat => rw [hfault, hformat]
    | unwritten hfault hformat hwrite => rw [hfault, hformat]; simp only [hwrite]

/-- What is left on disk by a save that fails: all as it was, or the beginning of the text in the
file, if the write was cut off. -/
theorem leftBySave_of_error {config : Config} {disk : Disk} {path : String} {error : ConfigError}
    (h : config.save disk path = .error error) :
    config.leftBySave disk path = disk ∨
      ∃ contents place cause count, error = .io cause ∧
        config.toContents path = .ok contents ∧ disk.locate true path = .ok place ∧
        disk.faults.lookup place = some ⟨cause, some count⟩ ∧
        config.leftBySave disk path =
          disk.set place (.ofBytes ((Text.encode contents.toList).take count)) := by
  cases save_eq_error_iff.1 h with
  | invalid hfault =>
    left
    simp only [leftBySave, toContents, validate, hfault]
    rfl
  | unsupported hfault hformat =>
    left
    simp only [leftBySave, toContents, validate, hfault, hformat]
    rfl
  | @unwritten format cause hfault hformat hwrite =>
    have hcontents : config.toContents path = .ok (config.writeAs format) := by
      simp only [toContents, validate, hfault, hformat]
      rfl
    simp only [leftBySave, hcontents]
    rcases Disk.disk_tryWrite_of_error hwrite with hsame | ⟨place, count, hplace, hcut⟩
    · exact .inl hsame
    · exact .inr ⟨_, place, cause, count, rfl, rfl, hplace, hcut⟩

end Config

namespace Project

/-- A toggle leaves the flipped project behind, whether or not it can be saved. -/
theorem project_toggle (project : Project) (disk : Disk) (flag : Flag) :
    (project.toggle disk flag).project = project.flip flag := by
  simp only [toggle]
  split <;> rfl

theorem value_of_toggle_eq_ok {project : Project} {disk : Disk} {flag : Flag} {value : Bool}
    (h : (project.toggle disk flag).outcome = .ok value) : value = !flag.value project.config := by
  simp only [toggle] at h
  split at h
  · exact (Except.ok.inj h).symm.trans (flag.value_toggle project.config)
  · cases h

theorem outcome_toggle_eq_error_iff {project : Project} {disk : Disk} {flag : Flag}
    {failure : Failure} :
    (project.toggle disk flag).outcome = .error failure ↔
      ∃ error, failure = .config error ∧
        (flag.toggle project.config).Unsaved disk project.savePath error := by
  simp only [toggle, ← Config.save_eq_error_iff]
  constructor
  · intro h
    split at h
    · cases h
    next error hsave => exact ⟨error, (Except.error.inj h).symm, hsave⟩
  · rintro ⟨error, rfl, hsave⟩
    have hflipped : (project.flip flag).config.save disk (project.flip flag).savePath =
        .error error := hsave
    rw [hflipped]

theorem disk_toggle_eq_leftBySave {project : Project} {disk : Disk} {flag : Flag}
    {failure : Failure} (h : (project.toggle disk flag).outcome = .error failure) :
    (project.toggle disk flag).disk =
      (flag.toggle project.config).leftBySave disk project.savePath := by
  simp only [toggle] at h ⊢
  split at h
  · cases h
  · rfl

theorem disk_toggle_of_error {project : Project} {disk : Disk} {flag : Flag} {failure : Failure}
    (h : (project.toggle disk flag).outcome = .error failure) :
    (project.toggle disk flag).disk = disk ∨
      ∃ contents place cause count, failure = .config (.io cause) ∧
        (flag.toggle project.config).toContents project.savePath = .ok contents ∧
        disk.locate true project.savePath = .ok place ∧
        disk.faults.lookup place = some ⟨cause, some count⟩ ∧
        (project.toggle disk flag).disk =
          disk.set place (.ofBytes ((Text.encode contents.toList).take count)) := by
  rw [disk_toggle_eq_leftBySave h]
  obtain ⟨error, rfl, hunsaved⟩ := outcome_toggle_eq_error_iff.1 h
  rcases Config.leftBySave_of_error (Config.save_eq_error_iff.2 hunsaved) with
    hsame | ⟨contents, place, cause, count, rfl, hcut⟩
  · exact .inl hsame
  · exact .inr ⟨contents, place, cause, count, rfl, hcut⟩

/-- **A toggle that fails is not taken back.** It fails for one of the three reasons why the
configuration with the flag flipped cannot be saved. The disk stays as it was, unless a write was
cut off, which leaves the beginning of the new text at the place of the file and changes nothing
else. In memory the flag is flipped all the same and the other flag and the rest are not; the file
it would have been saved to is chosen, which is a change unless there was one. When the same toggle
is tried again and succeeds, it saves and answers the value from before both. -/
theorem toggle_failed_keeps_flip (project : Project) (disk : Disk) (flag : Flag)
    {failure : Failure} (h : (project.toggle disk flag).outcome = .error failure) :
    let after := project.toggle disk flag
    (∃ error, failure = .config error ∧
      (flag.toggle project.config).Unsaved disk project.savePath error) ∧
    (after.disk = disk ∨
      ∃ contents place cause count, failure = .config (.io cause) ∧
        (flag.toggle project.config).toContents project.savePath = .ok contents ∧
        disk.locate true project.savePath = .ok place ∧
        disk.faults.lookup place = some ⟨cause, some count⟩ ∧
        after.disk = disk.set place (.ofBytes ((Text.encode contents.toList).take count))) ∧
    after.project = { project with
      config := flag.toggle project.config
      configPath := some project.savePath } ∧
    flag.value after.project.config = !flag.value project.config ∧
    (∀ other, other ≠ flag → other.value after.project.config = other.value project.config) ∧
    (after.project.configPath = project.configPath ↔ project.configPath ≠ none) ∧
    ∀ later value, (after.project.toggle later flag).outcome = .ok value →
      value = flag.value project.config ∧
        (after.project.toggle later flag).project.config = project.config := by
  intro after
  have hproject : after.project = project.flip flag := project_toggle project disk flag
  refine ⟨outcome_toggle_eq_error_iff.1 h, disk_toggle_of_error h, hproject, ?_, ?_, ?_, ?_⟩
  · rw [hproject]
    exact flag.value_toggle project.config
  · intro other hother
    rw [hproject]
    exact Flag.value_toggle_of_ne hother project.config
  · rw [hproject]
    cases hpath : project.configPath <;> simp [flip, savePath, hpath]
  · intro later value hvalue
    rw [hproject] at hvalue ⊢
    constructor
    · rw [value_of_toggle_eq_ok hvalue, flip, flag.value_toggle, Bool.not_not]
    · rw [project_toggle, flip, flip, flag.toggle_toggle]

/-- Where a directory has the name of the file, the flag is flipped all the same and the disk stays
as it was; trying again once the directory is gone saves what the flag was at first. -/
theorem toggle_failed_keeps_flip_at_directory :
    let disk : Disk :=
      { entries := [(["ws"], .directory), (["ws", ".refgrouprc.yml"], .directory)] }
    let cleared : Disk := { entries := [(["ws"], .directory)] }
    let project : Project := ⟨"/ws", {}, none, .default, ⟨[], [], []⟩⟩
    (project.toggle disk .groupByFile).outcome = .error (.config (.io .isDirectory)) ∧
      (project.toggle disk .groupByFile).disk = disk ∧
      Flag.groupByFile.value (project.toggle disk .groupByFile).project.config = true ∧
      ((project.toggle disk .groupByFile).project.toggle cleared .groupByFile).outcome =
        .ok false := by
  intro disk cleared project
  have hpath : project.savePath = "/ws/.refgrouprc.yml" := by decide
  have hformat : Config.Format.ofPath "/ws/.refgrouprc.yml" = .ok .yaml := rfl
  have hwrite : ∀ contents, disk.write "/ws/.refgrouprc.yml" contents = .error .isDirectory :=
    fun _ => rfl
  have hfailed : (project.toggle disk .groupByFile).outcome = .error (.config (.io .isDirectory)) :=
    outcome_toggle_eq_error_iff.2 ⟨_, rfl, hpath ▸ .unwritten rfl hformat (hwrite _)⟩
  obtain ⟨-, hdisk, -, hflag, -, -, hretry⟩ :=
    toggle_failed_keeps_flip project disk .groupByFile hfailed
  have hkept : (project.toggle disk .groupByFile).disk = disk := by
    refine hdisk.resolve_right ?_
    intro hcut
    obtain ⟨_, _, _, _, -, -, -, hfault, -⟩ := hcut
    cases hfault
  refine ⟨hfailed, hkept, hflag, ?_⟩
  have hsaved : ((project.toggle disk .groupByFile).project.toggle cleared
      .groupByFile).outcome.isOk = true := by decide +kernel
  cases hagain : ((project.toggle disk .groupByFile).project.toggle cleared
      .groupByFile).outcome with
  | ok value => rw [(hretry cleared value hagain).1]; rfl
  | error failure => rw [hagain] at hsaved; cases hsaved

/-- Where no file is found, the project has the default configuration. -/
theorem exists_ofRoot_default {disk : Disk} {root : String} (h : Config.find? disk root = none) :
    ∃ filter, ofRoot disk root = .ok ⟨root, {}, none, .withExtra [], filter⟩ := by
  have hok : (FileFilter.ofConfig {}).isOk = true := by decide +kernel
  cases hfilter : FileFilter.ofConfig {} with
  | error error => rw [hfilter] at hok; cases hok
  | ok filter =>
    refine ⟨filter, ?_⟩
    rw [ofRoot, h]
    simp only [ofConfig, hfilter]

/-- A toggle that fails changes the flag and the choice of the file, and on a full disk it empties
the file. -/
theorem toggle_failed_changes_project :
    let disk : Disk :=
      { entries := [(["ws"], .directory), (["ws", ".refgrouprc.yml"], .directory)] }
    ∃ project, ofRoot disk "/ws" = .ok project ∧
      (project.toggle disk .groupByFile).outcome = .error (.config (.io .isDirectory)) ∧
      project.config.groupByFile = false ∧
      (project.toggle disk .groupByFile).project.config.groupByFile = true ∧
      project.configPath = none ∧
      (project.toggle disk .groupByFile).project.configPath = some "/ws/.refgrouprc.yml" ∧
      let full : Disk :=
        { entries := [(["ws"], .directory), (["ws", ".refgrouprc.yml"], .text "{}")]
          faults := [(["ws", ".refgrouprc.yml"], ⟨.storageFull, some 0⟩)] }
      (project.toggle full .groupByFile).outcome = .error (.config (.io .storageFull)) ∧
      full.read "/ws/.refgrouprc.yml" = .ok "{}" ∧
      (project.toggle full .groupByFile).disk.read "/ws/.refgrouprc.yml" = .ok "" := by
  intro disk
  have hnone : Config.find? disk "/ws" = none := by decide +kernel
  obtain ⟨filter, hopen⟩ := exists_ofRoot_default hnone
  have hformat : Config.Format.ofPath "/ws/.refgrouprc.yml" = .ok .yaml := rfl
  have hwrite : ∀ contents, disk.write "/ws/.refgrouprc.yml" contents = .error .isDirectory :=
    fun _ => rfl
  let project : Project := ⟨"/ws", {}, none, .withExtra [], filter⟩
  have hpath : project.savePath = "/ws/.refgrouprc.yml" := by
    simp only [project, savePath, Option.getD_none]
    decide
  have hproject := project.project_toggle disk .groupByFile
  refine ⟨project, hopen, ?_, rfl, ?_, rfl, ?_, ?_⟩
  · exact outcome_toggle_eq_error_iff.2 ⟨_, rfl, hpath ▸ .unwritten rfl hformat (hwrite _)⟩
  · rw [hproject]
    rfl
  · rw [hproject]
    exact congrArg some hpath
  · intro full
    have hwrite : ∀ contents, full.write "/ws/.refgrouprc.yml" contents = .error .storageFull :=
      fun _ => rfl
    have hfailed : (project.toggle full .groupByFile).outcome =
        .error (.config (.io .storageFull)) :=
      outcome_toggle_eq_error_iff.2 ⟨_, rfl, hpath ▸ .unwritten rfl hformat (hwrite _)⟩
    have hleft : (Config.leftBySave { groupByFile := true } full "/ws/.refgrouprc.yml").read
        "/ws/.refgrouprc.yml" = .ok "" := by decide +kernel
    refine ⟨hfailed, rfl, ?_⟩
    rw [disk_toggle_eq_leftBySave hfailed, hpath]
    exact hleft

end Project

end Usages
