/-
Calls of the methods that a configuration names.

A configuration may name any identifier, and dollar signs and all kinds of numbers are part of
identifiers. The rule for mutating calls asks for a word boundary behind the name, and to it these
are no word characters: between `set$` and the parenthesis of a call there is no boundary. So a
method has an effect exactly if some name that is known ends with it or inside it at a boundary
(`WriteRule.Recognised`). `Project.configured_call_is_write_iff` says so for every line, and that
the methods without effect end in a dollar sign or in a number that is no decimal digit.
-/
import Usages.Proofs.Loaded
import Usages.Proofs.Margin

namespace Usages

namespace Text

theorem toNat_lt_of_isAlphanum {c : Char} (h : c.isAlphanum = true) : c.toNat < 0x80 := by
  delta Char.isAlphanum Char.isAlpha Char.isUpper Char.isLower Char.isDigit at h
  simp only [Bool.or_eq_true, Bool.and_eq_true, decide_eq_true_eq, ge_iff_le,
    UInt32.le_iff_toNat_le] at h
  have hcode : c.toNat = c.val.toNat := rfl
  have hupper : 'Z'.val.toNat = 90 := rfl
  have hlower : 'z'.val.toNat = 122 := rfl
  have hdigit : '9'.val.toNat = 57 := rfl
  omega

/-- Identifiers are made of letters and numbers of any script, low lines and dollar signs. -/
theorem isIdentifierChar_eq (c : Char) :
    isIdentifierChar c = (isAlphanumeric c || c == '_' || c == '$') := by
  unfold isIdentifierChar
  by_cases h : c.toNat < 0x80
  · have halpha : isAlphanumeric c = c.isAlphanum := by
      simp only [isAlphanumeric, isAlphabetic, isNumeric, isDecimalDigit, if_pos h,
        Char.isAlphanum, show ¬0x80 ≤ c.toNat by omega, decide_false, Bool.false_and,
        Bool.or_false]
    simp only [halpha, show ¬0x80 ≤ c.toNat by omega, decide_false, Bool.false_and, Bool.or_false]
  · have hascii : c.isAlphanum = false :=
      Bool.eq_false_iff.2 fun hc => h (toNat_lt_of_isAlphanum hc)
    simp only [hascii, Bool.false_or, show 0x80 ≤ c.toNat by omega, decide_true, Bool.true_and]
    cases isAlphanumeric c <;> cases c == '_' <;> cases c == '$' <;> rfl

/-- A character of an identifier that is no word character. -/
theorem eq_dollar_or_isNumeric {c : Char} (h : isIdentifierChar c = true)
    (hword : isWordChar c = false) : c = '$' ∨ isNumeric c = true ∧ isDecimalDigit c = false := by
  rw [isIdentifierChar_eq, isAlphanumeric] at h
  simp only [isWordChar, Bool.or_eq_false_iff] at hword
  obtain ⟨⟨⟨⟨halpha, -⟩, hdigit⟩, hconnector⟩, -⟩ := hword
  have hline : c ≠ '_' := by
    intro hc
    rw [hc] at hconnector
    cases hconnector
  simp only [halpha, Bool.false_or, Bool.or_eq_true, beq_iff_eq, hline, or_false] at h
  rcases h with h | h
  · exact .inr ⟨h, hdigit⟩
  · exact .inl h

end Text

namespace WriteRule

open Text

/-! ## A call behind an occurrence -/

/-- A call of the method counts as mutating: one of the names ends with the method or at a word
boundary inside it. -/
def Recognised (names : List String) (method : String) : Prop :=
  ∃ name ∈ names, ∃ tail, method.toList = name.toList ++ tail ∧
    AtBoundary ('.' :: name.toList) (tail ++ ['('])

/-- What stands before an occurrence makes it a write, whatever follows. -/
def WrittenBefore (before : List Char) : Prop :=
  ∃ rule ∈ [incrementDecrement, destructuring, parameter], rule.Applies [] before []

instance (before : List Char) : Decidable (WrittenBefore before) :=
  inferInstanceAs (Decidable (∃ rule ∈ _, _))

theorem atBoundary_congr {left right other : List Char} (h : right.head? = other.head?) :
    AtBoundary left right ↔ AtBoundary left other := by
  unfold AtBoundary
  rw [h]

theorem recognised_of_mem {names : List String} {method : String} (h : method ∈ names)
    (hlast : ∃ c ∈ method.toList.getLast?, isWordChar c = true) : Recognised names method := by
  refine ⟨method, h, [], by simp, ?_⟩
  obtain ⟨c, hc, hword⟩ := hlast
  have hleft : ∃ c ∈ ('.' :: method.toList).getLast?, isWordChar c = true := by
    refine ⟨c, ?_, hword⟩
    rw [List.getLast?_cons, Option.mem_def.1 hc]
    rfl
  have hright : ¬∃ c ∈ ([] ++ ['(']).head?, isWordChar c = true := by
    have hparenthesis : isWordChar '(' = false := by decide
    simp [hparenthesis]
  unfold AtBoundary
  simp only [hleft, hright, iff_false, not_true, not_false_eq_true]

/-- A name is found in the characters behind the dot or not at all, where no name goes on with what
follows them. -/
theorem applies_mutatingCall_append_iff {names : List String} {before method rest : List Char}
    (hstop : ∀ c ∈ rest.head?, ∀ name ∈ names, c ∉ name.toList) :
    mutatingCall.Applies names before ('.' :: method ++ rest) ↔
      ∃ name ∈ names, ∃ tail, method = name.toList ++ tail ∧
        AtBoundary ('.' :: name.toList) (tail ++ rest) := by
  unfold Applies
  refine exists_congr fun name => and_congr_right fun hname => ?_
  constructor
  · rintro ⟨tail, hcut, hboundary⟩
    simp only [List.cons_append, List.cons.injEq, true_and] at hcut
    rcases List.append_eq_append_iff.1 hcut with ⟨more, hmore, htail⟩ | ⟨more, hmore, htail⟩
    · -- The name would go on with the rest.
      cases more with
      | nil => exact ⟨[], by simp [hmore], htail ▸ hboundary⟩
      | cons c more =>
        have hhead : c ∈ rest.head? := by rw [htail]; rfl
        exact absurd (by rw [hmore]; simp) (hstop c hhead name hname)
    · exact ⟨more, hmore, htail ▸ hboundary⟩
  · rintro ⟨tail, rfl, hboundary⟩
    exact ⟨tail ++ rest, by simp, hboundary⟩

theorem applies_mutatingCall_iff {names : List String}
    (hnames : ∀ name ∈ names, '(' ∉ name.toList) {method : String} {before rest : List Char} :
    mutatingCall.Applies names before ('.' :: method.toList ++ '(' :: rest) ↔
      Recognised names method := by
  rw [applies_mutatingCall_append_iff (by rintro c ⟨⟩; exact hnames), Recognised]
  refine exists_congr fun name => and_congr_right fun _ =>
    exists_congr fun tail => and_congr_right fun _ => atBoundary_congr ?_
  cases tail <;> rfl

/-- The other rules do not look behind a dot that follows the occurrence. -/
theorem exists_other_applies_dot_iff {names : List String} {before rest : List Char} :
    (∃ rule : WriteRule, rule ≠ mutatingCall ∧ rule.Applies names before ('.' :: rest)) ↔
      WrittenBefore before := by
  have hfollows : ∀ operator ∈ [['+', '+'], ['-', '-']], ¬operator <+: '.' :: rest := by simp
  have hnothing : ∀ operator ∈ [['+', '+'], ['-', '-']], ¬operator <+: ([] : List Char) := by simp
  unfold WrittenBefore
  constructor
  · intro h
    obtain ⟨rule, hrule, happlies⟩ := h
    cases rule with
    | assignment =>
      simp [Applies, compoundAssignments] at happlies
    | incrementDecrement =>
      obtain ⟨operator, hoperator, hstands⟩ := happlies
      exact ⟨incrementDecrement, by simp, operator, hoperator,
        .inr (hstands.resolve_left (hfollows operator hoperator))⟩
    | destructuring => exact ⟨destructuring, by simp, happlies⟩
    | parameter => exact ⟨parameter, by simp, happlies⟩
    | mutatingCall => exact absurd rfl hrule
  · intro h
    obtain ⟨rule, hrule, happlies⟩ := h
    refine ⟨rule, ?_⟩
    simp only [List.mem_cons, List.not_mem_nil, or_false] at hrule
    rcases hrule with rfl | rfl | rfl
    · obtain ⟨operator, hoperator, hstands⟩ := happlies
      exact ⟨by simp, operator, hoperator,
        .inr (hstands.resolve_left (hnothing operator hoperator))⟩
    · exact ⟨by simp, happlies⟩
    · exact ⟨by simp, happlies⟩

/-- Behind an occurrence that is followed by a dot only a mutating call counts. -/
theorem exists_applies_dot_iff {names : List String} {before rest : List Char} :
    (∃ rule : WriteRule, rule.Applies names before ('.' :: rest)) ↔
      mutatingCall.Applies names before ('.' :: rest) ∨ WrittenBefore before := by
  rw [← exists_other_applies_dot_iff]
  constructor
  · rintro ⟨rule, happlies⟩
    by_cases hrule : rule = mutatingCall
    · exact .inl (hrule ▸ happlies)
    · exact .inr ⟨rule, hrule, happlies⟩
  · rintro (happlies | ⟨rule, -, happlies⟩)
    · exact ⟨mutatingCall, happlies⟩
    · exact ⟨rule, happlies⟩

end WriteRule

theorem Classifier.classify_eq_write_iff {classifier : Classifier} {line : List Char}
    {start stop : Nat} :
    classifier.classify line start stop = .write ↔ (start ≤ stop ∧ stop ≤ line.length) ∧
      ∃ rule : WriteRule, rule.Applies classifier.mutators (Text.trim (line.take start))
        (Text.trim (line.drop stop)) := by
  unfold classify writeRule
  by_cases hrange : start ≤ stop ∧ stop ≤ line.length
  · rw [if_pos hrange, ite_eq_left_iff]
    simp only [hrange, true_and, Bool.not_eq_true, Option.isSome_eq_false_iff,
      Option.isNone_iff_eq_none, ruleBetween_eq_none_iff]
    simp
  · rw [if_neg hrange]
    simp [hrange]

/-- The characters of the name of a method are those of identifiers. -/
theorem Config.isIdentifierChar_of_isMethodName {name : String} (h : isMethodName name = true) :
    name.toList ≠ [] ∧ ∀ c ∈ name.toList, Text.isIdentifierChar c = true := by
  unfold isMethodName at h
  split at h
  next => cases h
  next first rest hname =>
    rw [hname]
    refine ⟨by simp, fun c hc => ?_⟩
    rw [Bool.and_eq_true, List.all_eq_true] at h
    rw [Text.isIdentifierChar_eq]
    rcases List.mem_cons.1 hc with rfl | hc
    · rw [Text.isAlphanumeric]
      cases hfirst : Text.isAlphabetic c with
      | true => simp
      | false =>
        rw [hfirst, Bool.false_or] at h
        rw [Bool.false_or, Bool.or_assoc, h.1, Bool.or_true]
    · exact h.2 c hc

/-- The methods that every project knows have names that a configuration could give, too. -/
theorem Config.isMethodName_of_mem_append {extra : List String}
    (hextra : ∀ name ∈ extra, isMethodName name = true) {name : String}
    (hname : name ∈ Usages.mutatingMethods ++ extra) : isMethodName name = true := by
  have hall : ∀ name ∈ Usages.mutatingMethods, isMethodName name = true := by decide +kernel
  rcases List.mem_append.1 hname with hname | hname
  · exact hall name hname
  · exact hextra name hname

namespace Classifier

open WriteRule

variable {classifier : Classifier}
  (hnames : ∀ name ∈ classifier.mutators, ∀ c ∈ name.toList, Text.isIdentifierChar c = true)
include hnames

/-- Whether an occurrence with a call behind it is a write. -/
theorem classify_call_iff {method : String}
    (hmethod : ∀ c ∈ method.toList, Text.isIdentifierChar c = true)
    (front occurrence rest : List Char) :
    classifier.classify (front ++ occurrence ++ ('.' :: method.toList ++ '(' :: rest))
        front.length (front.length + occurrence.length) = .write ↔
      Recognised classifier.mutators method ∨ WrittenBefore (Text.trim front) := by
  have hparenthesis : ∀ name ∈ classifier.mutators, '(' ∉ name.toList := by
    intro name hname hmem
    have := hnames name hname '(' hmem
    revert this
    decide
  have hsolid : ∀ c ∈ '.' :: method.toList ++ ['('], Text.isBlank c = false := by
    intro c hc
    cases hblank : Text.isBlank c with
    | false => rfl
    | true =>
      have hnot := Text.isIdentifierChar_of_isBlank hblank
      simp only [List.cons_append, List.mem_cons, List.mem_append, List.not_mem_nil, or_false] at hc
      rcases hc with rfl | hc | rfl
      · cases hblank
      · rw [hmethod c hc] at hnot
        cases hnot
      · cases hblank
  have hafter : Text.trim ('.' :: method.toList ++ '(' :: rest) =
      '.' :: method.toList ++ '(' :: Text.trimEnd rest := by
    have htrim := Text.trim_around (by simp) hsolid [] rest
    simpa [Text.trimStart] using htrim
  have hbefore : (front ++ occurrence ++ ('.' :: method.toList ++ '(' :: rest)).take front.length =
      front := by
    rw [List.append_assoc, List.take_left]
  have hbehind : (front ++ occurrence ++ ('.' :: method.toList ++ '(' :: rest)).drop
      (front.length + occurrence.length) = '.' :: method.toList ++ '(' :: rest := by
    rw [← List.length_append, List.drop_left]
  have hrange : front.length ≤ front.length + occurrence.length ∧
      front.length + occurrence.length ≤
        (front ++ occurrence ++ ('.' :: method.toList ++ '(' :: rest)).length := by
    simp only [List.length_append]
    omega
  rw [classify_eq_write_iff, hbefore, hbehind, hafter, and_iff_right hrange, List.cons_append,
    exists_applies_dot_iff, ← List.cons_append, applies_mutatingCall_iff hparenthesis]

end Classifier

namespace Project

open WriteRule

theorem isIdentifierChar_of_mem_mutators {config : Config} (h : config.fault? = none)
    {name : String} (hname : name ∈ mutatingMethods ++ config.mutatingMethods) :
    name.toList ≠ [] ∧ ∀ c ∈ name.toList, Text.isIdentifierChar c = true :=
  Config.isIdentifierChar_of_isMethodName
    (Config.isMethodName_of_mem_append (Config.fault?_eq_none_iff.1 h).2 hname)

/-- **Which of the configured methods have an effect.** A valid configuration makes a project. An
occurrence with a call of one of its methods behind it is a write exactly if the call is recognised,
or if what stands before the occurrence makes it one anyway; so a method makes a write of every such
occurrence exactly if its calls are recognised. The others end in a character that is part of
identifiers but not of words: a dollar sign, or a number that is no decimal digit. -/
theorem configured_call_is_write_iff {config : Config} {path : String}
    (h : config.validate path = .ok ()) (root : String) :
    ∃ project, ofConfig root config = .ok project ∧
      ∀ method ∈ config.mutatingMethods,
        let names := mutatingMethods ++ config.mutatingMethods
        let kind := fun front occurrence rest : List Char => project.classifier.classify
          (front ++ occurrence ++ ('.' :: method.toList ++ '(' :: rest))
          front.length (front.length + occurrence.length)
        (∀ front occurrence rest, kind front occurrence rest = .write ↔
          Recognised names method ∨ WrittenBefore (Text.trim front)) ∧
        ((∀ front occurrence rest, kind front occurrence rest = .write) ↔
          Recognised names method) ∧
        (¬Recognised names method → ∃ c ∈ method.toList.getLast?, Text.isWordChar c = false ∧
          (c = '$' ∨ Text.isNumeric c = true ∧ Text.isDecimalDigit c = false)) := by
  have hfault := Config.fault?_of_validate h
  obtain ⟨filter, hproject⟩ := exists_ofConfig hfault root
  refine ⟨_, hproject, fun method hmethod => ?_⟩
  intro names kind
  have hmem : method ∈ names := List.mem_append_right _ hmethod
  obtain ⟨hne, hchars⟩ := isIdentifierChar_of_mem_mutators hfault hmem
  have hkind : ∀ front occurrence rest, kind front occurrence rest = .write ↔
      Recognised names method ∨ WrittenBefore (Text.trim front) :=
    Classifier.classify_call_iff
      (fun name hname => (isIdentifierChar_of_mem_mutators hfault hname).2) hchars
  refine ⟨hkind, ⟨fun hall => ?_, fun hrecognised front occurrence rest => ?_⟩, fun hnot => ?_⟩
  · exact ((hkind [] [] []).1 (hall [] [] [])).resolve_right (by decide)
  · exact (hkind front occurrence rest).2 (.inl hrecognised)
  · obtain ⟨c, hc⟩ : ∃ c, c ∈ method.toList.getLast? :=
      ⟨_, List.getLast?_eq_some_getLast hne⟩
    have hword : Text.isWordChar c = false := by
      rw [← Bool.not_eq_true]
      exact fun hword => hnot (recognised_of_mem hmem ⟨c, hc, hword⟩)
    exact ⟨c, hc, hword,
      Text.eq_dollar_or_isNumeric (hchars c (List.mem_of_getLast? hc)) hword⟩

/-- The known name `push` ends at a boundary inside `push$`; no name does so inside `set$`. -/
theorem configured_call_is_write_iff_with_dollars :
    let config : Config := { mutatingMethods := ["push$", "set$"] }
    config.validate "/w/.refgrouprc.yml" = .ok () ∧
      ∃ project, ofConfig "/w" config = .ok project ∧
        (∀ front occurrence rest : List Char, project.classifier.classify
          (front ++ occurrence ++ ('.' :: "push$".toList ++ '(' :: rest))
          front.length (front.length + occurrence.length) = .write) ∧
        project.classifier.classify "++x.set$(1)".toList 2 3 = .write ∧
        project.classifier.classify "x.set$(1)".toList 0 1 ≠ .write := by
  intro config
  have hvalid : config.validate "/w/.refgrouprc.yml" = .ok () :=
    toOption_eq_some.1 (by decide +kernel)
  obtain ⟨project, hproject, hkind⟩ := configured_call_is_write_iff hvalid "/w"
  refine ⟨hvalid, project, hproject, ?_, ?_, ?_⟩
  · have hpush : Recognised (mutatingMethods ++ config.mutatingMethods) "push$" := by
      refine ⟨"push", by simp [mutatingMethods], ['$'], rfl, ?_⟩
      exact isBoundary_iff.1 (by decide)
    exact (hkind "push$" (by simp [config])).2.1.2 hpush
  · exact ((hkind "set$" (by simp [config])).1 ['+', '+'] ['x'] ['1', ')']).2 (.inr (by decide))
  · have hset : ¬Recognised (mutatingMethods ++ config.mutatingMethods) "set$" := by
      have hcall : ¬mutatingCall.Applies (mutatingMethods ++ ["push$", "set$"]) []
          ('.' :: "set$".toList ++ '(' :: []) := by decide +kernel
      exact fun hset => hcall ((applies_mutatingCall_iff (by decide +kernel)).2 hset)
    exact fun hwrite =>
      (((hkind "set$" (by simp [config])).1 [] ['x'] ['1', ')']).1 hwrite).elim hset (by decide)

/-- A call of a configured method is not recognised where its name ends in a dollar sign. -/
theorem configured_call_is_read :
    let config : Config := { mutatingMethods := ["set$"] }
    config.validate "/w/.refgrouprc.yml" = .ok () ∧
      ∃ project, ofConfig "/w" config = .ok project ∧
        project.classifier.classify "x.set$(1)".toList 0 1 = .read := by
  intro config
  have hvalid : config.validate "/w/.refgrouprc.yml" = .ok () :=
    toOption_eq_some.1 (by decide +kernel)
  obtain ⟨filter, hproject⟩ := exists_ofConfig (Config.fault?_of_validate hvalid) "/w"
  have hread : (Classifier.withExtra ["set$"]).classify "x.set$(1)".toList 0 1 = .read := by
    decide +kernel
  exact ⟨hvalid, _, hproject, hread⟩

end Project

end Usages
