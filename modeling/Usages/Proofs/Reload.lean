/-
Toggles that are saved survive a reload.

A configuration that has been saved is loaded again from the same path, if the path does not lead to
a special file. The file that applies to the root is the same as before: if there was one, it is
written again in place and nothing else moves; if there was none, the new one is the first that is
looked for. So a project that is opened after a toggle is the project that was toggled, which is
what a run of toggles keeps. A special file keeps nothing: the disk stays as it was.
-/
import Usages.Proofs.Contents
import Usages.Proofs.Write

namespace Usages

namespace Config

theorem save_eq_ok {config : Config} {disk saved : Disk} {path : String} :
    config.save disk path = .ok saved ↔ config.fault? = none ∧ ∃ format,
      Format.ofPath path = .ok format ∧
        disk.write path (config.writeAs format) = .ok saved := by
  rw [save_eq]
  constructor
  · intro h
    split at h
    · cases h
    · cases h
    next format hfault hformat =>
      split at h
      · cases h
      next saved hwrite =>
        cases h
        exact ⟨hfault, format, hformat, hwrite⟩
  · rintro ⟨hfault, format, hformat, hwrite⟩
    rw [hfault, hformat]
    simp only [hwrite]

/-- A saved configuration is loaded again. -/
theorem load_save {config : Config} {disk saved : Disk} {path : String}
    (h : config.save disk path = .ok saved) (hshows : disk.hidesWrites path = false) :
    load saved path = .ok config := by
  obtain ⟨hfault, format, hformat, hwrite⟩ := save_eq_ok.1 h
  rw [load, Disk.read_write hwrite hshows]
  exact ofContents_writeAs hfault hformat

theorem disk_eq_of_save {config : Config} {disk saved : Disk} {path : String}
    (h : config.save disk path = .ok saved) (hhides : disk.hidesWrites path = true) :
    saved = disk := by
  obtain ⟨-, format, -, hwrite⟩ := save_eq_ok.1 h
  obtain ⟨-, place, hlocate, -, -, rfl⟩ := Disk.write_eq_ok.1 hwrite
  exact Disk.store_of_hidesWrites hhides hlocate _

/-- A file that a configuration is loaded from shows what is written to it. -/
theorem not_hidesWrites_of_load {config : Config} {disk : Disk} {path : String}
    (hfile : disk.isFile path = true) (h : load disk path = .ok config) :
    disk.hidesWrites path = false := by
  unfold load at h
  split at h
  · cases h
  next contents hread => exact Disk.not_hidesWrites_of_read hfile hread

/-! ## Flags that have been flipped -/

/-- The configuration in which each flag has been flipped so many times. -/
def flipped (config : Config) (times : Flag → Nat) : Config :=
  { config with
    groupByFile := Nat.repeat not (times .groupByFile) config.groupByFile
    showFullPath := Nat.repeat not (times .showFullPath) config.showFullPath }

theorem repeat_not (n : Nat) (value : Bool) :
    Nat.repeat not n (!value) = !Nat.repeat not n value := by
  induction n with
  | zero => rfl
  | succ n ih => exact congrArg not ih

theorem value_flipped (flag : Flag) (config : Config) (times : Flag → Nat) :
    flag.value (config.flipped times) = Nat.repeat not (times flag) (flag.value config) := by
  cases flag <;> rfl

theorem flipped_toggle (flag : Flag) (config : Config) (times : Flag → Nat) :
    (flag.toggle config).flipped times =
      config.flipped fun other => times other + if flag == other then 1 else 0 := by
  cases flag with
  | groupByFile => simp [flipped, Flag.toggle, repeat_not, Nat.repeat]
  | showFullPath => simp [flipped, Flag.toggle, repeat_not, Nat.repeat]

/-! ## The file that applies -/

theorem find?_of_sameShape {disk other : Disk} (h : disk.SameShape other) (start : String) :
    find? other start = find? disk start := by
  have hfiles : other.isFile = disk.isFile := funext h.isFile
  have hin : fileIn? other = fileIn? disk := by
    funext directory
    rw [fileIn?, fileIn?, hfiles]
  rw [find?, find?, hin]

theorem isFile_of_find? {disk : Disk} {start path : String} (h : find? disk start = some path) :
    disk.isFile path = true := by
  obtain ⟨directory, -, hfile⟩ := List.exists_of_findSome?_eq_some h
  exact List.find?_some hfile

/-- The file that is made first is looked for first. -/
theorem find?_of_default {disk : Disk} {start : String}
    (h : disk.isFile (Path.join start defaultFileName) = true) :
    find? disk start = some (Path.join start defaultFileName) := by
  have hin : fileIn? disk start = some (Path.join start defaultFileName) := by
    rw [fileIn?, fileNames, List.map_cons]
    exact List.find?_cons_of_pos h
  rw [find?, ancestors, List.findSome?_cons, hin]

end Config

namespace Project

/-- The display flags have no part in what files are searched or which methods count. -/
theorem ofConfig_toggle {root : String} {config : Config} {project : Project} (flag : Flag)
    (h : ofConfig root config = .ok project) :
    ofConfig root (flag.toggle config) = .ok { project with config := flag.toggle config } := by
  have hfilter : FileFilter.ofConfig (flag.toggle config) = FileFilter.ofConfig config := by
    cases flag <;> rfl
  have hmethods : (flag.toggle config).mutatingMethods = config.mutatingMethods := by
    cases flag <;> rfl
  unfold ofConfig at h ⊢
  rw [hfilter, hmethods]
  split at h
  · cases h
  next filter hfilter =>
    cases h
    rfl

theorem ofConfig_eq_ok {root : String} {config : Config} {project : Project}
    (h : ofConfig root config = .ok project) :
    project.root = root ∧ project.config = config ∧ project.configPath = none := by
  unfold ofConfig at h
  split at h
  · cases h
  · cases h
    exact ⟨rfl, rfl, rfl⟩

/-- A project is opened with its configuration and with the file that applies to its root. -/
theorem ofRoot_eq_ok {disk : Disk} {root : String} {project : Project}
    (h : ofRoot disk root = .ok project) :
    ∃ base, ofConfig root project.config = .ok base ∧
      project = { base with configPath := Config.find? disk root } := by
  unfold ofRoot at h
  split at h
  next path hfind =>
    unfold ofConfigFile at h
    split at h
    · cases h
    next config hload =>
      obtain ⟨base, hbase, heq⟩ := bind_eq_ok.1 h
      cases heq
      obtain ⟨-, hconfig, -⟩ := ofConfig_eq_ok hbase
      exact ⟨base, hconfig.symm ▸ hbase, by rw [hfind]⟩
  next hfind =>
    obtain ⟨-, hconfig, hpath⟩ := ofConfig_eq_ok h
    refine ⟨project, hconfig.symm ▸ h, ?_⟩
    rw [hfind, ← hpath]

theorem load_of_ofRoot {disk : Disk} {root path : String} {project : Project}
    (hfind : Config.find? disk root = some path) (h : ofRoot disk root = .ok project) :
    Config.load disk path = .ok project.config := by
  rw [ofRoot, hfind] at h
  simp only [ofConfigFile] at h
  split at h
  · cases h
  next config hload =>
    obtain ⟨base, hbase, heq⟩ := bind_eq_ok.1 h
    cases heq
    rw [hload, (ofConfig_eq_ok hbase).2.1]

/-- A project is opened with the configuration that is found in the file. -/
theorem ofRoot_of_load {disk : Disk} {root path : String} {config : Config} {base : Project}
    (hfind : Config.find? disk root = some path) (hload : Config.load disk path = .ok config)
    (hbase : ofConfig root config = .ok base) :
    ofRoot disk root = .ok { base with configPath := some path } := by
  rw [ofRoot, hfind]
  simp only [ofConfigFile, hload, hbase]
  rfl

/-! ## One toggle -/

/-- What a toggle that succeeds saves. -/
theorem save_of_toggle {project : Project} {disk : Disk} {flag : Flag} {value : Bool}
    (h : (project.toggle disk flag).outcome = .ok value) :
    (flag.toggle project.config).save disk project.savePath =
      .ok (project.toggle disk flag).disk := by
  have hsaved : (project.flip flag).config.save disk (project.flip flag).savePath =
      .ok (project.toggle disk flag).disk := by
    simp only [toggle] at h ⊢
    split at h
    next hsave => exact hsave
    next => cases h
  exact hsaved

/-- The file that applies to the root after it has been written, be it new or not. -/
theorem find?_of_save {disk saved : Disk} {config : Config} {project : Project}
    (hpath : project.configPath = Config.find? disk project.root)
    (h : config.save disk project.savePath = .ok saved)
    (hshows : disk.hidesWrites project.savePath = false) :
    Config.find? saved project.root = some project.savePath := by
  obtain ⟨-, format, -, hwrite⟩ := Config.save_eq_ok.1 h
  cases hfind : Config.find? disk project.root with
  | none =>
    have hsave : project.savePath = Path.join project.root Config.defaultFileName := by
      rw [savePath, hpath, hfind]
      rfl
    rw [hsave] at hwrite hshows ⊢
    exact Config.find?_of_default (Disk.isFile_write hwrite hshows)
  | some path =>
    have hsave : project.savePath = path := by
      rw [savePath, hpath, hfind]
      rfl
    rw [hsave] at hwrite ⊢
    rw [Config.find?_of_sameShape (Disk.sameShape_write hwrite (Config.isFile_of_find? hfind)),
      hfind]

/-- A project that is opened after a toggle is the one that was toggled. -/
theorem ofRoot_toggle {disk : Disk} {root : String} {project : Project} {flag : Flag}
    {value : Bool} (hopen : ofRoot disk root = .ok project)
    (hshows : disk.hidesWrites project.savePath = false)
    (h : (project.toggle disk flag).outcome = .ok value) :
    ofRoot (project.toggle disk flag).disk root = .ok (project.toggle disk flag).project := by
  obtain ⟨base, hbase, hproject⟩ := ofRoot_eq_ok hopen
  obtain ⟨hroot, hconfig, -⟩ := ofConfig_eq_ok hbase
  have hsave := save_of_toggle h
  have hpath : project.configPath = Config.find? disk project.root := by
    rw [hproject, hroot]
  have hfind := find?_of_save hpath hsave hshows
  rw [show project.root = root by rw [hproject]; exact hroot] at hfind
  have hflip : project.flip flag = { base with
      config := flag.toggle project.config
      configPath := some project.savePath } := by
    have hrest : project.root = base.root ∧ project.classifier = base.classifier ∧
        project.filter = base.filter := by
      rw [hproject]
      exact ⟨rfl, rfl, rfl⟩
    simp only [flip, hrest]
  rw [ofRoot_of_load hfind (Config.load_save hsave hshows) (ofConfig_toggle flag hbase),
    project_toggle, hflip]

/-- The file that a project was opened with shows what is written to it. -/
theorem not_hidesWrites_of_ofRoot {disk : Disk} {root path : String} {project : Project}
    (hopen : ofRoot disk root = .ok project) (hpath : project.configPath = some path) :
    disk.hidesWrites path = false := by
  obtain ⟨base, -, hproject⟩ := ofRoot_eq_ok hopen
  have hfind : Config.find? disk root = some path := by
    rw [← hpath, hproject]
  exact Config.not_hidesWrites_of_load (Config.isFile_of_find? hfind) (load_of_ofRoot hfind hopen)

/-! ## A run of toggles -/

/-- Toggles of these flags, one after another, that all succeed. -/
inductive Toggles : Project → Disk → List Flag → Project → Disk → Prop
  | done {project : Project} {disk : Disk} : Toggles project disk [] project disk
  | step {project after : Project} {disk saved : Disk} {flag : Flag} {flags : List Flag}
      {value : Bool} : (project.toggle disk flag).outcome = .ok value →
      Toggles (project.toggle disk flag).project (project.toggle disk flag).disk flags after saved →
      Toggles project disk (flag :: flags) after saved

theorem Toggles.reopens {disk saved : Disk} {root : String} {project after : Project}
    {flags : List Flag} (h : Toggles project disk flags after saved)
    (hopen : ofRoot disk root = .ok project)
    (hshows : disk.hidesWrites project.savePath = false) : ofRoot saved root = .ok after := by
  induction h with
  | done => exact hopen
  | @step project after disk saved flag flags value htoggle _ ih =>
    have hreopen := ofRoot_toggle hopen hshows htoggle
    have hpath : (project.toggle disk flag).project.configPath = some project.savePath := by
      rw [project_toggle]
      rfl
    refine ih hreopen ?_
    rw [savePath, hpath]
    exact not_hidesWrites_of_ofRoot hreopen hpath

/-- Where nothing shows that is written, the disk stays as it is. -/
theorem Toggles.disk_eq {disk saved : Disk} {project after : Project} {flags : List Flag}
    (h : Toggles project disk flags after saved)
    (hhides : disk.hidesWrites project.savePath = true) : saved = disk := by
  induction h with
  | done => rfl
  | @step project after disk saved flag flags value htoggle _ ih =>
    have hdisk := Config.disk_eq_of_save (save_of_toggle htoggle) hhides
    have hpath : (project.toggle disk flag).project.savePath = project.savePath := by
      rw [project_toggle]
      rfl
    rw [hdisk, hpath] at ih
    exact ih hhides

/-- A run flips each flag as often as it was toggled and leaves the rest alone. -/
theorem Toggles.config_eq {disk saved : Disk} {project after : Project} {flags : List Flag}
    (h : Toggles project disk flags after saved) :
    after.config = project.config.flipped fun flag => flags.count flag := by
  induction h with
  | done => rfl
  | @step project after disk saved flag flags value htoggle _ ih =>
    rw [ih, project_toggle, flip, Config.flipped_toggle]
    simp only [List.count_cons]

theorem Toggles.configPath_eq {disk saved : Disk} {project after : Project} {flags : List Flag}
    (h : Toggles project disk flags after saved) (hne : flags ≠ []) :
    after.configPath = some project.savePath := by
  induction h with
  | done => exact absurd rfl hne
  | @step project after disk saved flag flags value htoggle hrest ih =>
    have hpath : (project.toggle disk flag).project.savePath = project.savePath := by
      rw [project_toggle]
      rfl
    cases hrest with
    | done => rw [project_toggle]; rfl
    | step _ _ => rw [ih (List.cons_ne_nil _ _), hpath]

theorem exists_of_isOk {outcome : Except Failure Bool} (h : outcome.isOk = true) :
    ∃ value, outcome = .ok value := by
  cases outcome with
  | ok value => exact ⟨value, rfl⟩
  | error failure => cases h

end Project

end Usages
