/-
A configuration that is saved is read back.

Both formats keep every valid configuration apart from every other: the writers choose how to
write each text, and the readers undo the choice. A list that is not set is left out, and is not
set when it is read back; a list that is set and empty is written as such.
-/
import Usages.Config.Text
import Usages.Proofs.Json
import Usages.Proofs.Toggle
import Usages.Proofs.Yaml.Mapping

namespace Usages.Config

open Yaml (Member)

/-! ## YAML -/

def optionMember (key : String) : Option (List String) → List Member
  | some items => [⟨key, .list items⟩]
  | none => []

/-- The members of a configuration, in the order in which they are written. -/
def yamlMembers (config : Config) : List Member :=
  [⟨"groupByFile", .word (boolText config.groupByFile)⟩,
    ⟨"showFullPath", .word (boolText config.showFullPath)⟩] ++
    optionMember "include" config.includes ++ optionMember "exclude" config.excludes ++
    if config.mutatingMethods.isEmpty then []
    else [⟨"mutatingMethods", .list config.mutatingMethods⟩]

theorem writeList_eq (key : String) (items : List String) :
    Yaml.writeList key items = (Member.mk key (.list items)).write := by
  rw [Yaml.writeList, Member.write, Yaml.Value.write]
  split <;> rfl

theorem writeYamlOption_eq (key : String) (items : Option (List String)) :
    writeYamlOption key items = (optionMember key items).flatMap Member.write := by
  cases items with
  | none => rfl
  | some items => simp [writeYamlOption, optionMember, writeList_eq]

theorem toYaml_eq (config : Config) :
    config.toYaml = String.ofList (config.yamlMembers.flatMap Member.write) := by
  have hmethods : (if config.mutatingMethods.isEmpty then []
      else Yaml.writeList "mutatingMethods" config.mutatingMethods) =
      (if config.mutatingMethods.isEmpty then []
        else [Member.mk "mutatingMethods" (.list config.mutatingMethods)]).flatMap
          Member.write := by
    split
    · rfl
    · simp [writeList_eq]
  rw [toYaml, yamlMembers, hmethods, writeYamlOption_eq, writeYamlOption_eq]
  simp [writeYamlFlag, Member.write, Yaml.Value.write]

theorem isKey_of_mem_keyOrder {key : String} (h : key ∈ keyOrder) :
    Yaml.Scanner.IsKey key.toList := by
  simp only [keyOrder, List.mem_cons, List.not_mem_nil, or_false] at h
  rcases h with rfl | rfl | rfl | rfl | rfl <;>
    exact ⟨by decide, by decide, List.all_eq_true.1 (by decide)⟩

theorem fits_boolText (value : Bool) : (Yaml.Value.word (boolText value)).Fits := by
  cases value <;> exact ⟨by decide, by decide⟩

/-- The words and keys of a configuration stand plain. -/
theorem fits_of_mem_yamlMembers {config : Config} {member : Member}
    (h : member ∈ config.yamlMembers) : member.Fits := by
  have hlist : ∀ key ∈ keyOrder, ∀ items, member ∈ optionMember key items → member.Fits := by
    intro key hkey items hmember
    cases items with
    | none => cases hmember
    | some items =>
      cases List.mem_singleton.1 hmember
      exact ⟨isKey_of_mem_keyOrder hkey, trivial⟩
  rw [yamlMembers, List.mem_append, List.mem_append, List.mem_append, List.mem_cons,
    List.mem_singleton] at h
  rcases h with (((rfl | rfl) | h) | h) | h
  · exact ⟨isKey_of_mem_keyOrder (by decide : "groupByFile" ∈ keyOrder), fits_boolText _⟩
  · exact ⟨isKey_of_mem_keyOrder (by decide : "showFullPath" ∈ keyOrder), fits_boolText _⟩
  · exact hlist _ (by decide) _ h
  · exact hlist _ (by decide) _ h
  · split at h
    · cases h
    · exact hlist "mutatingMethods" (by decide) (some config.mutatingMethods) h

/-- What is known of a configuration once all its members have been read. -/
def toPartial (config : Config) : Partial where
  groupByFile := some config.groupByFile
  showFullPath := some config.showFullPath
  includes := config.includes.map some
  excludes := config.excludes.map some
  mutatingMethods := if config.mutatingMethods.isEmpty then none else some config.mutatingMethods

theorem complete_toPartial (config : Config) : config.toPartial.complete = config := by
  obtain ⟨groupByFile, showFullPath, includes, excludes, methods⟩ := config
  cases includes <;> cases excludes <;> cases methods <;> rfl

theorem yamlTexts?_items (items : List String) :
    yamlTexts? (Yaml.Value.list items).node = some items :=
  mapM_map_eq_some fun _ _ => rfl

theorem yamlOptionalTexts?_items (items : List String) :
    yamlOptionalTexts? (Yaml.Value.list items).node = some (some items) :=
  congrArg (some <$> ·) (yamlTexts?_items items)

theorem yamlBool?_boolText (value : Bool) :
    yamlBool? (Yaml.Value.word (boolText value)).node = some value := by
  cases value <;> rfl

theorem addYamlMembers_yamlMembers (config : Config) :
    addYamlMembers {} (config.yamlMembers.map Member.node) = some config.toPartial := by
  obtain ⟨groupByFile, showFullPath, includes, excludes, methods⟩ := config
  cases includes <;> cases excludes <;> cases methods <;>
    simp [yamlMembers, optionMember, Member.node, addYamlMembers, addYamlMember, yamlText?, setOnce,
      yamlBool?_boolText, yamlTexts?_items, yamlOptionalTexts?_items, toPartial]

/-- Every configuration is read back from what is written of it. -/
theorem ofYaml?_toYaml (config : Config) : ofYaml? config.toYaml = some config := by
  rw [ofYaml?, toYaml_eq, Yaml.parse_write (by simp [yamlMembers])
    fun member hmember => fits_of_mem_yamlMembers hmember]
  simp [ofYamlNode?, addYamlMembers_yamlMembers, complete_toPartial]

/-! ## JSON -/

theorem texts?_jsonTexts (items : List String) : (jsonTexts items).texts? = some items :=
  mapM_map_eq_some fun _ _ => rfl

theorem jsonOptionalTexts?_jsonTexts (items : List String) :
    jsonOptionalTexts? (jsonTexts items) = some (some items) :=
  congrArg (some <$> ·) (texts?_jsonTexts items)

theorem addJsonMembers_jsonMembers (config : Config) :
    addJsonMembers {} (config.jsonMembers.map fun member => (some member.1, member.2)) =
      some config.toPartial := by
  obtain ⟨groupByFile, showFullPath, includes, excludes, methods⟩ := config
  cases includes <;> cases excludes <;> cases methods <;>
    simp [jsonMembers, jsonMember, addJsonMembers, addJsonMember, setOnce, Json.bool?,
      texts?_jsonTexts, jsonOptionalTexts?_jsonTexts, toPartial]

theorem readsBack_jsonTexts (depth : Json.Depth) (items : List String) :
    Json.ReadsBack depth (jsonTexts items) := by
  refine Json.ReadsBack.arr fun item hitem => ?_
  obtain ⟨text, -, rfl⟩ := List.mem_map.1 hitem
  exact Json.ReadsBack.text _ text

theorem readsBack_toJsonValue (config : Config) : Json.ReadsBack (some 0) config.toJsonValue := by
  refine Json.ReadsBack.object fun member hmember => ?_
  have hlist : ∀ key items, member ∈ jsonMember key items →
      Json.ReadsBack (Json.Depth.deeper (some 0)) member.2 := by
    intro key items hmember
    cases items with
    | none => cases hmember
    | some items =>
      cases List.mem_singleton.1 hmember
      exact readsBack_jsonTexts _ items
  rw [jsonMembers, List.mem_append, List.mem_append, List.mem_append, List.mem_cons,
    List.mem_singleton] at hmember
  rcases hmember with (((rfl | rfl) | h) | h) | h
  · exact Json.ReadsBack.bool _ _
  · exact Json.ReadsBack.bool _ _
  · exact hlist _ _ h
  · exact hlist _ _ h
  · split at h
    · cases h
    · exact hlist "mutatingMethods" (some config.mutatingMethods) h

theorem ofJson?_toJson (config : Config) : ofJson? config.toJson = some config := by
  rw [ofJson?, toJson, Json.parse_pretty config.readsBack_toJsonValue]
  simp [toJsonValue, Json.object, ofJsonValue?, addJsonMembers_jsonMembers, complete_toPartial]

/-! ## Files -/

theorem isBlankText_toYaml (config : Config) : Text.isBlankText config.toYaml.toList = false := by
  rw [toYaml, String.toList_ofList]
  rfl

theorem isBlankText_toJson (config : Config) : Text.isBlankText config.toJson.toList = false := by
  rw [toJson, String.toList_append, Json.pretty, String.toList_ofList, toJsonValue, Json.object,
    jsonMembers, List.append_assoc, List.append_assoc, List.cons_append, List.map_cons,
    Json.writeAt]
  rfl

theorem ofContents_of_read {config : Config} {path contents : String} {format : Format}
    (hblank : Text.isBlankText contents.toList = false) (hformat : Format.ofPath path = .ok format)
    (hread : readAs format path contents = .ok config) (hfault : config.fault? = none) :
    ofContents path contents = .ok config := by
  have hvalid : config.validate path = .ok () := by rw [validate, hfault]
  rw [ofContents, if_neg (ne_true_of_eq_false hblank), hformat]
  simp only [bind, Except.bind, hread, hvalid]
  rfl

/-- What is written in the format of the path is read back at the path. -/
theorem ofContents_writeAs {config : Config} {path : String} {format : Format}
    (hfault : config.fault? = none) (hformat : Format.ofPath path = .ok format) :
    ofContents path (config.writeAs format) = .ok config := by
  have hblank : Text.isBlankText (config.writeAs format).toList = false := by
    cases format with
    | yaml => exact config.isBlankText_toYaml
    | json => exact config.isBlankText_toJson
    | either => exact config.isBlankText_toYaml
  have hread : readAs format path (config.writeAs format) = .ok config := by
    cases format <;> simp [readAs, writeAs, readYaml, readJson, ofYaml?_toYaml, ofJson?_toJson]
  exact ofContents_of_read hblank hformat hread hfault

theorem save_of_valid {config : Config} {path : String} {format : Format}
    (hfault : config.fault? = none) (hformat : Format.ofPath path = .ok format) (disk : Disk) :
    config.save disk path = (disk.write path (config.writeAs format)).mapError .io := by
  rw [save_eq, hfault, hformat]
  simp only
  split
  next hwrite => rw [hwrite]; rfl
  next hwrite => rw [hwrite]; rfl

theorem fault?_of_validate {config : Config} {path : String} (h : config.validate path = .ok ()) :
    config.fault? = none := by
  unfold validate at h
  split at h
  · cases h
  next hfault => exact hfault

/-- A valid configuration that is saved as YAML is loaded again as it was. -/
theorem yaml_contents_load_back {config : Config} {path : String}
    (hvalid : config.validate path = .ok ())
    (hformat : Format.ofPath path = .ok .yaml ∨ Format.ofPath path = .ok .either) :
    (∀ disk : Disk, config.save disk path = (disk.write path config.toYaml).mapError .io) ∧
      ofContents path config.toYaml = .ok config := by
  have hfault := fault?_of_validate hvalid
  rcases hformat with hformat | hformat
  · rw [show config.toYaml = config.writeAs .yaml from rfl]
    exact ⟨save_of_valid hfault hformat, ofContents_writeAs hfault hformat⟩
  · rw [show config.toYaml = config.writeAs .either from rfl]
    exact ⟨save_of_valid hfault hformat, ofContents_writeAs hfault hformat⟩

/-- A configuration with a text for each way of writing one, and a list that is set but empty. -/
def everyStyle : Config where
  showFullPath := true
  includes := some ["a b", "*", "true", "a\n b", "\"\x07"]
  excludes := some []
  mutatingMethods := ["$push"]

theorem validate_everyStyle (path : String) : everyStyle.validate path = .ok () := by
  have hfault : everyStyle.fault? = none := by decide +kernel
  rw [validate, hfault]

theorem yaml_contents_load_back_every_style :
    everyStyle.validate "/w/.refgrouprc" = .ok () ∧ Format.ofPath "/w/.refgrouprc" = .ok .either ∧
      ofContents "/w/.refgrouprc" everyStyle.toYaml = .ok everyStyle := by
  have hvalid := validate_everyStyle "/w/.refgrouprc"
  have hformat : Format.ofPath "/w/.refgrouprc" = .ok .either := rfl
  exact ⟨hvalid, hformat, (yaml_contents_load_back hvalid (.inr hformat)).2⟩

theorem ofPath_json {path : String} (h : Path.extension? path = some "json") :
    Format.ofPath path = .ok .json := by
  rw [Format.ofPath, h]
  rfl

/-- A valid configuration that is saved as JSON is loaded again as it was. -/
theorem json_contents_load_back {config : Config} {path : String}
    (hvalid : config.validate path = .ok ()) (hextension : Path.extension? path = some "json") :
    (∀ disk : Disk, config.save disk path =
      (disk.write path (config.toJsonValue.pretty ++ "\n")).mapError .io) ∧
      ofContents path (config.toJsonValue.pretty ++ "\n") = .ok config := by
  have hfault := fault?_of_validate hvalid
  have hformat := ofPath_json hextension
  rw [show config.toJsonValue.pretty ++ "\n" = config.writeAs .json from rfl]
  exact ⟨save_of_valid hfault hformat, ofContents_writeAs hfault hformat⟩

theorem json_contents_load_back_every_style :
    everyStyle.validate "/w/.refgrouprc.json" = .ok () ∧
      Path.extension? "/w/.refgrouprc.json" = some "json" ∧
      ofContents "/w/.refgrouprc.json" (everyStyle.toJsonValue.pretty ++ "\n") =
        .ok everyStyle := by
  have hvalid := validate_everyStyle "/w/.refgrouprc.json"
  have hextension : Path.extension? "/w/.refgrouprc.json" = some "json" := by decide
  exact ⟨hvalid, hextension, (json_contents_load_back hvalid hextension).2⟩

end Usages.Config
