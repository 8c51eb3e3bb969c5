/-
Classifiers that know more methods.

Only the last rule looks at the names of methods, and it asks for each of them alone whether a call
follows: that a shorter name comes first in the list, or that a longer one does, settles nothing.
So more names can turn no answer into another one. They can only find a mutating call where there
was no answer (`WriteRule.AddsCalls`), and two lists with the same names answer the same
(`Classifier.extra_names_only_add_calls`).
-/
import Usages.Proofs.WriteRule

namespace Usages

namespace WriteRule

/-- What further names may do to an answer: a rule stays what it is, and where there was none a
mutating call may be found. -/
def AddsCalls (fewer more : Option WriteRule) : Prop :=
  (∀ rule, fewer = some rule → more = some rule) ∧
    (fewer ≠ more → fewer = none ∧ more = some mutatingCall)

theorem AddsCalls.refl (answer : Option WriteRule) : AddsCalls answer answer :=
  ⟨fun _ h => h, fun h => absurd rfl h⟩

/-- Answers that add calls to each other are the same: a call that is added was no answer before. -/
theorem AddsCalls.antisymm {answer other : Option WriteRule} (h : AddsCalls answer other)
    (hback : AddsCalls other answer) : answer = other := by
  by_cases hsame : answer = other
  · exact hsame
  · have hnone := (h.2 hsame).1
    rw [(hback.2 (Ne.symm hsame)).2] at hnone
    cases hnone

theorem addsCalls_or (answer : Option WriteRule) {call : Option WriteRule}
    (hcall : ∀ rule, call = some rule → rule = mutatingCall) :
    AddsCalls answer (answer.or call) := by
  cases answer with
  | some rule => exact AddsCalls.refl (some rule)
  | none =>
    rw [Option.none_or]
    cases call with
    | none => exact AddsCalls.refl none
    | some rule =>
      rw [hcall rule rfl]
      exact ⟨nofun, fun _ => ⟨rfl, rfl⟩⟩

theorem applies_mutatingCall_append {names more : List String} {before after : List Char} :
    mutatingCall.Applies (names ++ more) before after ↔
      mutatingCall.Applies names before after ∨ mutatingCall.Applies more before after := by
  simp only [Applies, List.mem_append, or_and_right, exists_or]

end WriteRule

namespace Classifier

open WriteRule

/-- The call that the names of the classifier find at an occurrence, whatever other rules say. -/
def callAt (classifier : Classifier) (line : List Char) (start stop : Nat) : Option WriteRule :=
  if (start ≤ stop ∧ stop ≤ line.length) ∧
      mutatingCall.Applies classifier.mutators (Text.trim (line.take start))
        (Text.trim (line.drop stop)) then
    some .mutatingCall
  else none

theorem callAt_eq_some_iff {classifier : Classifier} {line : List Char} {start stop : Nat}
    {rule : WriteRule} :
    classifier.callAt line start stop = some rule ↔
      ((start ≤ stop ∧ stop ≤ line.length) ∧
        mutatingCall.Applies classifier.mutators (Text.trim (line.take start))
          (Text.trim (line.drop stop))) ∧ rule = .mutatingCall := by
  rw [callAt, Option.ite_none_right_eq_some, Option.some.injEq]
  exact and_congr_right fun _ => eq_comm

section

variable {fewer more : Classifier} (h : fewer.mutators ⊆ more.mutators)
include h

/-- The first four rules know no names, and the last comes behind them: with more names it is asked
once more where they found nothing. -/
theorem ruleBetween_of_subset (before after : List Char) :
    more.ruleBetween before after = (fewer.ruleBetween before after).or
      (if mutatingCall.Applies more.mutators before after then some .mutatingCall else none) := by
  have hmutated : isMutated fewer.mutators after = true → isMutated more.mutators after = true := by
    intro hfewer
    obtain ⟨name, hname, hcall⟩ := isMutated_iff.1 hfewer
    exact isMutated_iff.2 ⟨name, h hname, hcall⟩
  have hcall : mutatingCall.Applies more.mutators before after ↔
      isMutated more.mutators after = true := applies_iff.symm
  simp only [ruleBetween, hcall]
  split
  · rfl
  split
  · rfl
  split
  · rfl
  split
  · rfl
  by_cases hfewer : isMutated fewer.mutators after = true
  · rw [if_pos hfewer, if_pos (hmutated hfewer)]
    rfl
  · rw [if_neg hfewer, Option.none_or]

theorem writeRule_of_subset (line : List Char) (start stop : Nat) :
    more.writeRule line start stop =
      (fewer.writeRule line start stop).or (more.callAt line start stop) := by
  unfold writeRule callAt
  by_cases hrange : start ≤ stop ∧ stop ≤ line.length
  · rw [if_pos hrange, if_pos hrange, ruleBetween_of_subset h]
    simp only [and_iff_right hrange]
  · rw [if_neg hrange, if_neg hrange, if_neg fun hcall => hrange hcall.1, Option.none_or]

theorem addsCalls_of_subset (line : List Char) (start stop : Nat) :
    AddsCalls (fewer.writeRule line start stop) (more.writeRule line start stop) := by
  rw [writeRule_of_subset h]
  exact addsCalls_or _ fun _ hcall => (callAt_eq_some_iff.1 hcall).2

end

/-- Which names are known counts, and not in which list. -/
theorem writeRule_congr {classifier other : Classifier}
    (h : ∀ name, name ∈ classifier.mutators ↔ name ∈ other.mutators) (line : List Char)
    (start stop : Nat) :
    classifier.writeRule line start stop = other.writeRule line start stop :=
  (addsCalls_of_subset (fun name => (h name).1) line start stop).antisymm
    (addsCalls_of_subset (fun name => (h name).2) line start stop)

/-- Behind an occurrence without an answer there is no call of a name that is known. -/
theorem callAt_of_none {classifier : Classifier} {line : List Char} {start stop : Nat}
    (h : classifier.writeRule line start stop = none) :
    classifier.callAt line start stop = none := by
  have hsame := writeRule_of_subset (List.Subset.refl classifier.mutators) line start stop
  rw [h, Option.none_or] at hsame
  exact hsame.symm

/-- With extra names the answer differs exactly where there was none and one of them is called. -/
theorem withExtra_ne_default_iff (extra : List String) (line : List Char) (start stop : Nat) :
    (withExtra extra).writeRule line start stop ≠ Classifier.default.writeRule line start stop ↔
      Classifier.default.writeRule line start stop = none ∧
        (start ≤ stop ∧ stop ≤ line.length) ∧
        mutatingCall.Applies extra (Text.trim (line.take start)) (Text.trim (line.drop stop)) := by
  have hsubset : Classifier.default.mutators ⊆ (withExtra extra).mutators :=
    List.subset_append_left mutatingMethods extra
  rw [writeRule_of_subset hsubset]
  cases hdefault : Classifier.default.writeRule line start stop with
  | some rule => simp
  | none =>
    have hunknown : ¬((start ≤ stop ∧ stop ≤ line.length) ∧
        mutatingCall.Applies mutatingMethods (Text.trim (line.take start))
          (Text.trim (line.drop stop))) := by
      intro hcall
      have hsome : Classifier.default.callAt line start stop = some .mutatingCall :=
        callAt_eq_some_iff.2 ⟨hcall, rfl⟩
      rw [callAt_of_none hdefault] at hsome
      cases hsome
    rw [Option.none_or, Option.ne_none_iff_exists', and_iff_right rfl]
    simp only [callAt_eq_some_iff, exists_and_left, exists_eq, and_true, withExtra,
      applies_mutatingCall_append]
    exact and_congr_right fun hrange => or_iff_right fun hcall => hunknown ⟨hrange, hcall⟩

/-- **Extra names only ever add mutating calls.** Whatever the default classifier answers stays, and
the answers differ exactly where it has none and a call of an extra name follows the occurrence; the
answer is then that call. Adding further names changes answers in no other way. The answer depends
on which names are known: not on their order, not on how often they are given, not on whether a
name is among the default ones. -/
theorem extra_names_only_add_calls (extra : List String) (line : List Char) (start stop : Nat) :
    AddsCalls (Classifier.default.writeRule line start stop)
        ((withExtra extra).writeRule line start stop) ∧
    ((withExtra extra).writeRule line start stop ≠ Classifier.default.writeRule line start stop ↔
      Classifier.default.writeRule line start stop = none ∧
        (start ≤ stop ∧ stop ≤ line.length) ∧
        mutatingCall.Applies extra (Text.trim (line.take start)) (Text.trim (line.drop stop))) ∧
    (∀ more, extra ⊆ more →
      AddsCalls ((withExtra extra).writeRule line start stop)
        ((withExtra more).writeRule line start stop)) ∧
    ∀ other, (∀ name, name ∈ mutatingMethods ++ extra ↔ name ∈ mutatingMethods ++ other) →
      (withExtra extra).writeRule line start stop =
        (withExtra other).writeRule line start stop := by
  refine ⟨?_, withExtra_ne_default_iff extra line start stop, fun more hmore => ?_, ?_⟩
  · exact addsCalls_of_subset (List.subset_append_left mutatingMethods extra) line start stop
  · have hsubset : (withExtra extra).mutators ⊆ (withExtra more).mutators := by
      intro name hname
      rcases List.mem_append.1 hname with hname | hname
      · exact List.mem_append_left more hname
      · exact List.mem_append_right mutatingMethods (hmore hname)
    exact addsCalls_of_subset hsubset line start stop
  · exact fun other hother => writeRule_congr hother line start stop

/-- `sort` is the start of `sortBy` and ends in it at no boundary, so that the default classifier
has no answer. The empty name is called wherever a word follows the dot. -/
theorem extra_names_only_add_calls_of_longer :
    let line := "rows.sortBy(key)".toList
    let answer := fun extra => (withExtra extra).writeRule line 0 4
    ["sortBy"] ⊆ ["", "sortBy"] ∧
      (∀ name, name ∈ mutatingMethods ++ ["sortBy"] ↔
        name ∈ mutatingMethods ++ ["sort", "sortBy", "sortBy"]) ∧
      Classifier.default.writeRule line 0 4 = none ∧
      answer ["sortBy"] = some .mutatingCall ∧
      answer ["sort", "sortBy", "sortBy"] = some .mutatingCall ∧
      answer ["", "sortBy"] = some .mutatingCall ∧
      answer ["sort", "so.rt", "By"] = none := by
  intro line answer
  have hmore : ["sortBy"] ⊆ ["", "sortBy"] := List.subset_cons_self _ _
  have hsame : ∀ name, name ∈ mutatingMethods ++ ["sortBy"] ↔
      name ∈ mutatingMethods ++ ["sort", "sortBy", "sortBy"] := by
    grind [mutatingMethods]
  have hdefault : Classifier.default.writeRule line 0 4 = none := by decide +kernel
  have hcalled : mutatingCall.Applies ["sortBy"] (Text.trim (line.take 0))
      (Text.trim (line.drop 4)) := by decide +kernel
  obtain ⟨hadds, hdiffers, hmonotone, hset⟩ := extra_names_only_add_calls ["sortBy"] line 0 4
  have hlonger : answer ["sortBy"] = some .mutatingCall :=
    (hadds.2 (hdiffers.2 ⟨hdefault, by decide, hcalled⟩).symm).2
  refine ⟨hmore, hsame, hdefault, hlonger, (hset _ hsame).symm.trans hlonger,
    (hmonotone _ hmore).1 .mutatingCall hlonger, ?_⟩
  have hnothing : ¬mutatingCall.Applies ["sort", "so.rt", "By"] (Text.trim (line.take 0))
      (Text.trim (line.drop 4)) := by decide +kernel
  have hstays := mt (extra_names_only_add_calls ["sort", "so.rt", "By"] line 0 4).2.1.1
    fun hcall => hnothing hcall.2.2
  exact (Decidable.not_not.1 hstays).trans hdefault

end Classifier

end Usages
