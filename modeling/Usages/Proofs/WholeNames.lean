/-
Methods with a longer name than the ones that are known.

What stands behind the dot is read as one name, as far as the characters of identifiers go. A known
name that is only the start of it should not count. The rule for mutating calls asks for a word
boundary instead, and there are boundaries inside of names: `push$` is no known method, and `push`
ends in it at one. `Classifier.writeRule_of_unknown_method` says exactly which unknown methods are
taken for mutating, and that they all hold a dollar sign or a number that is no decimal digit.
-/
import Usages.Proofs.Mutators

namespace Usages

namespace WriteRule

open Text

/-- One of the names ends inside the method, between two characters of which one is a word
character. -/
def EndsInside (names : List String) (method : List Char) : Prop :=
  ∃ name ∈ names, ∃ last ∈ name.toList.getLast?, ∃ next tail,
    method = name.toList ++ next :: tail ∧ isWordChar last ≠ isWordChar next

theorem atBoundary_cons_iff {left right : List Char} {first last next : Char}
    (hlast : last ∈ left.getLast?) :
    AtBoundary (first :: left) (next :: right) ↔ isWordChar last ≠ isWordChar next := by
  have hleft : (first :: left).getLast? = some last := by
    rw [List.getLast?_cons, Option.mem_def.1 hlast]
    rfl
  rw [← isBoundary_iff, hleft, isBoundary, bne_iff_ne]
  rfl

/-- Where none of the names is the whole method, only those that end inside it are left. -/
theorem endsInside_iff {names : List String} (hnames : ∀ name ∈ names, name.toList ≠ [])
    {method rest : List Char} (hunknown : String.ofList method ∉ names) :
    (∃ name ∈ names, ∃ tail, method = name.toList ++ tail ∧
      AtBoundary ('.' :: name.toList) (tail ++ rest)) ↔ EndsInside names method := by
  refine exists_congr fun name => and_congr_right fun hname => ?_
  have hlast := List.getLast?_eq_some_getLast (hnames name hname)
  constructor
  · rintro ⟨tail, rfl, hboundary⟩
    cases tail with
    | nil => exact absurd (by simpa using hname) hunknown
    | cons next tail =>
      exact ⟨_, hlast, next, tail, rfl, (atBoundary_cons_iff hlast).1 hboundary⟩
  · rintro ⟨last, hlast, next, tail, rfl, hdiffer⟩
    exact ⟨next :: tail, rfl, (atBoundary_cons_iff hlast).2 hdiffer⟩

/-- One of the two characters around the end of the name is no word character. -/
theorem EndsInside.exists_not_word {names : List String} {method : List Char}
    (h : EndsInside names method) : ∃ c ∈ method, isWordChar c = false := by
  obtain ⟨name, -, last, hlast, next, tail, rfl, hdiffer⟩ := h
  cases hword : isWordChar last with
  | false => exact ⟨last, List.mem_append_left _ (List.mem_of_getLast? hlast), hword⟩
  | true =>
    rw [hword] at hdiffer
    exact ⟨next, by simp, Bool.eq_false_iff.2 hdiffer.symm⟩

end WriteRule

namespace Classifier

open WriteRule

/-- The rule for mutating calls is the last one: it answers where no other rule applies. -/
theorem ruleBetween_eq_mutatingCall_iff {classifier : Classifier} {before after : List Char} :
    classifier.ruleBetween before after = some .mutatingCall ↔
      (¬∃ rule : WriteRule, rule ≠ mutatingCall ∧
        rule.Applies classifier.mutators before after) ∧
      mutatingCall.Applies classifier.mutators before after := by
  obtain ⟨others, hcut, hothers⟩ : ∃ others, inOrder = others ++ [mutatingCall] ∧
      ∀ rule, rule ∈ others ↔ rule ≠ mutatingCall := by
    refine ⟨[assignment, incrementDecrement, destructuring, parameter], rfl, fun rule => ?_⟩
    cases rule <;> decide
  have hnot : others.find? (applies classifier.mutators before after) ≠ some mutatingCall :=
    fun hfind => (hothers mutatingCall).1 (List.mem_of_find?_eq_some hfind) rfl
  rw [ruleBetween_eq_find?, hcut, List.find?_append, Option.or_eq_some_iff, or_iff_right hnot,
    List.find?_eq_none, ← applies_iff]
  simp [hothers, applies_iff]

/-- **Which methods are taken for mutating without being known.** The method is all of the
identifier behind the dot, and neither a built-in nor an extra name. For an occurrence inside the
line, the rule for mutating calls answers exactly if nothing before the occurrence makes it a write
and a known name ends at a word boundary inside the method. So the method holds a character that is
part of identifiers but not of words: a dollar sign, or a number that is no decimal digit. A method
of word characters is taken for mutating only as a whole. -/
theorem writeRule_of_unknown_method {extra : List String}
    (hextra : ∀ name ∈ extra, Config.isMethodName name = true) {line : List Char}
    {start stop : Nat} {method rest : List Char}
    (hafter : Text.trim (line.drop stop) = '.' :: method ++ rest)
    (hmethod : ∀ c ∈ method, Text.isIdentifierChar c = true)
    (hrest : ∀ c ∈ rest.head?, Text.isIdentifierChar c = false)
    (hunknown : String.ofList method ∉ mutatingMethods ++ extra) :
    ((withExtra extra).writeRule line start stop = some .mutatingCall ↔
      (start ≤ stop ∧ stop ≤ line.length) ∧ ¬WrittenBefore (Text.trim (line.take start)) ∧
        EndsInside (mutatingMethods ++ extra) method) ∧
    ((withExtra extra).writeRule line start stop = some .mutatingCall →
      ∃ c ∈ method, Text.isWordChar c = false ∧
        (c = '$' ∨ Text.isNumeric c = true ∧ Text.isDecimalDigit c = false)) := by
  have hnames : ∀ name ∈ mutatingMethods ++ extra,
      name.toList ≠ [] ∧ ∀ c ∈ name.toList, Text.isIdentifierChar c = true := fun name hname =>
    Config.isIdentifierChar_of_isMethodName (Config.isMethodName_of_mem_append hextra hname)
  have hstop : ∀ c ∈ rest.head?, ∀ name ∈ mutatingMethods ++ extra, c ∉ name.toList := by
    intro c hc name hname hmem
    have hidentifier := (hnames name hname).2 c hmem
    rw [hrest c hc] at hidentifier
    cases hidentifier
  have hrule : (withExtra extra).writeRule line start stop = some .mutatingCall ↔
      (start ≤ stop ∧ stop ≤ line.length) ∧ ¬WrittenBefore (Text.trim (line.take start)) ∧
        EndsInside (mutatingMethods ++ extra) method := by
    rw [writeRule, Option.ite_none_right_eq_some, hafter, ruleBetween_eq_mutatingCall_iff,
      List.cons_append, exists_other_applies_dot_iff, ← List.cons_append, withExtra,
      applies_mutatingCall_append_iff hstop,
      endsInside_iff (fun name hname => (hnames name hname).1) hunknown]
  refine ⟨hrule, fun hmutating => ?_⟩
  obtain ⟨c, hc, hword⟩ := (hrule.1 hmutating).2.2.exists_not_word
  exact ⟨c, hc, hword, Text.eq_dollar_or_isNumeric (hmethod c hc) hword⟩

/-- The extra name `set$` ends at a boundary inside `set$up`, and no name does inside `pushAll`. -/
theorem writeRule_of_unknown_method_with_dollar :
    let extra := ["set$"]
    let line := "x\u3000.set$up(1)".toList
    let method := "set$up".toList
    (∀ name ∈ extra, Config.isMethodName name = true) ∧
      Text.trim (line.drop 1) = '.' :: method ++ "(1)".toList ∧
      (∀ c ∈ method, Text.isIdentifierChar c = true) ∧ Text.isIdentifierChar '(' = false ∧
      String.ofList method ∉ mutatingMethods ++ extra ∧
      (withExtra extra).writeRule line 0 1 = some .mutatingCall ∧
      (withExtra extra).writeRule "x.pushAll(1)".toList 0 1 ≠ some .mutatingCall := by
  intro extra line method
  have hextra : ∀ name ∈ extra, Config.isMethodName name = true := by decide +kernel
  have hafter : Text.trim (line.drop 1) = '.' :: method ++ "(1)".toList := by decide +kernel
  have hmethod : ∀ c ∈ method, Text.isIdentifierChar c = true :=
    List.all_eq_true.1 (by decide +kernel)
  have hopen : Text.isIdentifierChar '(' = false := by decide
  have hrest : ∀ c ∈ "(1)".toList.head?, Text.isIdentifierChar c = false := by
    rintro c ⟨⟩
    exact hopen
  have hunknown : String.ofList method ∉ mutatingMethods ++ extra := by decide +kernel
  refine ⟨hextra, hafter, hmethod, hopen, hunknown, ?_, fun hmutating => ?_⟩
  · refine (writeRule_of_unknown_method hextra hafter hmethod hrest hunknown).1.2 ?_
    exact ⟨by decide, by decide, "set$", by simp [extra], '$', rfl, 'u', ['p'], rfl, by decide⟩
  · have hlonger : Text.trim ("x.pushAll(1)".toList.drop 1) =
        '.' :: "pushAll".toList ++ "(1)".toList := by decide +kernel
    have hidentifier : ∀ c ∈ "pushAll".toList, Text.isIdentifierChar c = true :=
      List.all_eq_true.1 (by decide +kernel)
    have hwords : ∀ c ∈ "pushAll".toList, Text.isWordChar c = true :=
      List.all_eq_true.1 (by decide +kernel)
    obtain ⟨c, hc, hword, -⟩ :=
      (writeRule_of_unknown_method hextra hlonger hidentifier hrest (by decide +kernel)).2 hmutating
    rw [hwords c hc] at hword
    cases hword

/-- No method `push$` is known, and `push` ends at a boundary inside it. -/
theorem longer_name_taken_for_mutating :
    let line := "x.push$(1)".toList
    let method := "push$".toList
    Text.trim (line.drop 1) = '.' :: method ++ "(1)".toList ∧
      (∀ c ∈ method, Text.isIdentifierChar c = true) ∧ Text.isIdentifierChar '(' = false ∧
      String.ofList method ∉ mutatingMethods ∧
      (withExtra []).writeRule line 0 1 = some .mutatingCall := by
  intro line method
  have hmethod : ∀ c ∈ method, Text.isIdentifierChar c = true :=
    List.all_eq_true.1 (by decide +kernel)
  exact ⟨by decide +kernel, hmethod, by decide, by decide +kernel, by decide +kernel⟩

end Classifier

end Usages
