/-
The rules of the classifier, said without a matcher.

`WriteRule.Applies` says of each rule how the text before and after an occurrence has to be cut for
the rule to apply. The matchers never try more than one cut: they take as many blanks and word
characters as there are. That loses nothing, since no blank is a word character and neither class
has a bracket or a parenthesis in it, so that a longer run only moves characters from one part of a
cut to the next. `WriteRule.applies_iff` is the agreement rule by rule, and
`Classifier.writeRule_is_first_that_applies` what the classifier answers.
-/
import Usages.Proofs.Lists
import Usages.WriteRule

namespace Usages

namespace Text

/-! ## Blanks -/

/-- The code points of blanks. -/
def blankCodes : List Nat :=
  [0x9, 0xa, 0xb, 0xc, 0xd, 0x20, 0x85, 0xa0, 0x1680, 0x2000, 0x2001, 0x2002, 0x2003, 0x2004,
    0x2005, 0x2006, 0x2007, 0x2008, 0x2009, 0x200a, 0x2028, 0x2029, 0x202f, 0x205f, 0x3000]

theorem mem_blankCodes {c : Char} (h : isBlank c = true) : c.toNat ∈ blankCodes := by
  simp only [isBlank, Bool.or_eq_true, Bool.and_eq_true, decide_eq_true_eq, beq_iff_eq] at h
  simp only [blankCodes, List.mem_cons, List.not_mem_nil]
  omega

/-- Blanks and word characters are two classes apart. -/
theorem isWordChar_of_isBlank {c : Char} (h : isBlank c = true) : isWordChar c = false := by
  have hall : ∀ n ∈ blankCodes, isWordChar (Char.ofNat n) = false := by decide +kernel
  have hc := hall c.toNat (mem_blankCodes h)
  rwa [Char.ofNat_toNat] at hc

theorem isBlank_of_isWordChar {c : Char} (h : isWordChar c = true) : isBlank c = false := by
  cases hblank : isBlank c with
  | false => rfl
  | true => rw [isWordChar_of_isBlank hblank] at h; cases h

/-- The text is the core with blanks around it, and the core has no blank at either end. -/
structure IsCore (text core : List Char) : Prop where
  inside : ∃ left right, text = left ++ (core ++ right) ∧
    (∀ c ∈ left, isBlank c = true) ∧ ∀ c ∈ right, isBlank c = true
  first : ∀ c ∈ core.head?, isBlank c = false
  last : ∀ c ∈ core.getLast?, isBlank c = false

theorem trimStart_of_blanks {left rest : List Char} (h : ∀ c ∈ left, isBlank c = true) :
    trimStart (left ++ rest) = trimStart rest :=
  List.dropWhile_append_of_pos h

theorem trimEnd_of_blanks {right rest : List Char} (h : ∀ c ∈ right, isBlank c = true) :
    trimEnd (rest ++ right) = trimEnd rest := by
  rw [trimEnd, trimEnd, List.reverse_append, List.dropWhile_append_of_pos]
  intro c hc
  exact h c (List.mem_reverse.1 hc)

theorem trimEnd_of_last {core : List Char} (h : ∀ c ∈ core.getLast?, isBlank c = false) :
    trimEnd core = core := by
  rw [trimEnd, dropWhile_of_head? (by rwa [List.head?_reverse]), List.reverse_reverse]

theorem exists_trimEnd (text : List Char) :
    ∃ right, text = trimEnd text ++ right ∧ ∀ c ∈ right, isBlank c = true := by
  refine ⟨(text.reverse.takeWhile isBlank).reverse, ?_, ?_⟩
  · rw [trimEnd, ← List.reverse_append, List.takeWhile_append_dropWhile, List.reverse_reverse]
  · intro c hc
    exact List.mem_takeWhile_imp (List.mem_reverse.1 hc)

/-- Every text has one core, and trimming finds it. -/
theorem isCore_iff {text core : List Char} : IsCore text core ↔ trim text = core := by
  constructor
  · rintro ⟨⟨left, right, rfl, hleft, hright⟩, hfirst, hlast⟩
    rw [trim, trimStart_of_blanks hleft]
    cases core with
    | nil =>
      rw [List.nil_append, ← List.append_nil right, trimStart_of_blanks hright]
      rfl
    | cons c rest =>
      have hhead : ∀ d ∈ (c :: rest ++ right).head?, isBlank d = false := hfirst
      rw [trimStart, dropWhile_of_head? hhead, trimEnd_of_blanks hright, trimEnd_of_last hlast]
  · rintro rfl
    obtain ⟨right, hright, hblank⟩ := exists_trimEnd (trimStart text)
    refine ⟨⟨text.takeWhile isBlank, right, ?_, fun _ => List.mem_takeWhile_imp, hblank⟩, ?_, ?_⟩
    · rw [trim, ← hright, trimStart, List.takeWhile_append_dropWhile]
    · -- A first character that is kept was the first one behind the blanks in front.
      intro c hc
      have hstart : c ∈ (text.dropWhile isBlank).head? := by
        rw [trim] at hc
        rw [← trimStart, hright, List.head?_append, Option.mem_def.1 hc]
        rfl
      exact of_head?_dropWhile c hstart
    · intro c hc
      rw [trim, trimEnd, List.getLast?_reverse] at hc
      exact of_head?_dropWhile c hc

end Text

namespace WriteRule

open Text

/-! ## The rules -/

/-- The rules in the order in which they are tried. -/
def inOrder : List WriteRule :=
  [assignment, incrementDecrement, destructuring, parameter, mutatingCall]

theorem mem_inOrder (rule : WriteRule) : rule ∈ inOrder := by
  cases rule <;> decide

/-- One of two neighbouring texts ends, or the other starts, with a word character, but not both. -/
def AtBoundary (left right : List Char) : Prop :=
  ¬((∃ c ∈ left.getLast?, isWordChar c = true) ↔ ∃ c ∈ right.head?, isWordChar c = true)

/-- Blanks, then anything up to a bracket or brace on the same line. -/
def OpensPattern (text : List Char) : Prop :=
  ∃ blanks middle bracket rest, text = blanks ++ (middle ++ bracket :: rest) ∧
    blanks ≠ [] ∧ (∀ c ∈ blanks, isBlank c = true) ∧ '\n' ∉ middle ∧
    (bracket = '[' ∨ bracket = '\x7b')

/-- Blanks, word characters or none, blanks or none, and a parenthesis that stays open. -/
def OpensParameters (text : List Char) : Prop :=
  ∃ blanks name others inside, text = blanks ++ (name ++ (others ++ '(' :: inside)) ∧
    blanks ≠ [] ∧ (∀ c ∈ blanks, isBlank c = true) ∧ (∀ c ∈ name, isWordChar c = true) ∧
    (∀ c ∈ others, isBlank c = true) ∧ ')' ∉ inside

/-- When a rule applies to the text before and after an occurrence, with the names of the methods
that count as mutating. -/
def Applies (names : List String) (before after : List Char) : WriteRule → Prop
  | assignment =>
    (∃ operator ∈ compoundAssignments, operator <+: after) ∨
      ∃ rest, after = '=' :: rest ∧ rest.head? ≠ some '='
  | incrementDecrement =>
    ∃ operator ∈ [['+', '+'], ['-', '-']], operator <+: after ∨ operator <:+ before
  | destructuring => ∃ keyword ∈ declarators, ∃ text, before = keyword ++ text ∧ OpensPattern text
  | parameter => ∃ front text, before = front ++ (functionKeyword ++ text) ∧ OpensParameters text
  | mutatingCall =>
    ∃ name ∈ names, ∃ rest, after = '.' :: name.toList ++ rest ∧
      AtBoundary ('.' :: name.toList) rest

theorem isAssigned_iff {after : List Char} :
    isAssigned after = true ↔ (∃ operator ∈ compoundAssignments, operator <+: after) ∨
      ∃ rest, after = '=' :: rest ∧ rest.head? ≠ some '=' := by
  rw [isAssigned.eq_def, Bool.or_eq_true, List.any_eq_true]
  refine or_congr (by simp only [List.isPrefixOf_iff_prefix]) ?_
  split
  next => exact iff_of_true rfl ⟨[], rfl, by simp⟩
  next next rest => simp
  next hnil hcons =>
    refine iff_of_false (by decide) ?_
    rintro ⟨rest, rfl, hrest⟩
    cases rest with
    | nil => exact hnil rfl
    | cons c rest => exact hcons c rest rfl

theorem isStepped_iff {before after : List Char} :
    isStepped before after = true ↔
      ∃ operator ∈ [['+', '+'], ['-', '-']], operator <+: after ∨ operator <:+ before := by
  simp only [isStepped, List.any_eq_true, Bool.or_eq_true, List.isPrefixOf_iff_prefix,
    List.isSuffixOf_iff_suffix]

/-! ### Destructuring -/

theorem opensPattern_iff {text : List Char} : opensPattern text = true ↔ OpensPattern text := by
  constructor
  · intro h
    cases text with
    | nil => cases h
    | cons c rest =>
      rw [opensPattern, Bool.and_eq_true, List.any_eq_true] at h
      obtain ⟨hc, bracket, hmem, hbracket⟩ := h
      obtain ⟨middle, tail, hcut⟩ := List.append_of_mem hmem
      have hrest : rest = rest.takeWhile isBlank ++ (middle ++ bracket :: (tail ++
          (rest.dropWhile isBlank).dropWhile (· != '\n'))) := by
        rw [← List.cons_append, ← List.append_assoc middle, ← hcut,
          List.takeWhile_append_dropWhile, List.takeWhile_append_dropWhile]
      refine ⟨c :: rest.takeWhile isBlank, middle, bracket, _, by rw [List.cons_append, ← hrest],
        by simp, ?_, ?_, by simpa using hbracket⟩
      · intro d hd
        rcases List.mem_cons.1 hd with rfl | hd
        · exact hc
        · exact List.mem_takeWhile_imp hd
      · intro hnewline
        have hkept : '\n' ∈ (rest.dropWhile isBlank).takeWhile (· != '\n') :=
          hcut ▸ List.mem_append_left _ hnewline
        exact absurd (List.mem_takeWhile_imp hkept) (by decide)
  · rintro ⟨blanks, middle, bracket, rest, rfl, hne, hblanks, hnewline, hbracket⟩
    obtain ⟨c, blanks, rfl⟩ := List.exists_cons_of_ne_nil hne
    have hopens : isBlank bracket = false ∧ (bracket != '\n') = true ∧
        (bracket == '[' || bracket == '\x7b') = true := by
      rcases hbracket with rfl | rfl <;> decide
    have hmiddle : ∀ d ∈ middle.dropWhile isBlank, (d != '\n') = true := by
      intro d hd
      refine bne_iff_ne.2 fun heq => hnewline ?_
      exact (List.dropWhile_sublist isBlank).subset (heq ▸ hd)
    rw [List.cons_append, opensPattern, hblanks c List.mem_cons_self, Bool.true_and,
      List.dropWhile_append_of_pos fun d hd => hblanks d (List.mem_cons_of_mem _ hd),
      dropWhile_append_cons hopens.1, List.takeWhile_append_of_pos hmiddle,
      List.takeWhile_cons_of_pos (p := (· != '\n')) hopens.2.1, List.any_append, List.any_cons,
      hopens.2.2, Bool.true_or, Bool.or_true]

theorem isDestructured_iff {before : List Char} :
    isDestructured before = true ↔
      ∃ keyword ∈ declarators, ∃ text, before = keyword ++ text ∧ OpensPattern text := by
  rw [isDestructured, List.any_eq_true]
  refine exists_congr fun keyword => and_congr_right fun _ => ?_
  rw [Bool.and_eq_true, List.isPrefixOf_iff_prefix, opensPattern_iff]
  constructor
  · rintro ⟨⟨text, rfl⟩, h⟩
    rw [List.drop_left] at h
    exact ⟨text, rfl, h⟩
  · rintro ⟨text, rfl, h⟩
    rw [List.drop_left]
    exact ⟨List.prefix_append _ _, h⟩

/-! ### Parameters -/

/-- Passing over blanks, a name and blanks leads to the parenthesis, wherever one part is said to
end and the next to start. -/
theorem dropWhile_to_parenthesis {blanks name others inside : List Char}
    (hblanks : ∀ c ∈ blanks, isBlank c = true) (hname : ∀ c ∈ name, isWordChar c = true)
    (hothers : ∀ c ∈ others, isBlank c = true) :
    (((blanks ++ (name ++ (others ++ '(' :: inside))).dropWhile isBlank).dropWhile
      isWordChar).dropWhile isBlank = '(' :: inside := by
  have hopen : ('(' :: inside).dropWhile isBlank = '(' :: inside := by
    exact List.dropWhile_cons_of_neg (by decide)
  rw [List.dropWhile_append_of_pos hblanks]
  cases name with
  | nil =>
    -- Without a name, the blanks of both parts are passed over at once.
    rw [List.nil_append, List.dropWhile_append_of_pos hothers, hopen,
      List.dropWhile_cons_of_neg (by decide), hopen]
  | cons c name =>
    have hfirst : ∀ d ∈ (c :: name ++ (others ++ '(' :: inside)).head?, isBlank d = false := by
      rintro d ⟨⟩
      exact isBlank_of_isWordChar (hname c List.mem_cons_self)
    have hbehind : ∀ d ∈ (others ++ '(' :: inside).head?, isWordChar d = false := by
      cases others with
      | nil => rintro d ⟨⟩; decide
      | cons blank others =>
        rintro d ⟨⟩
        exact isWordChar_of_isBlank (hothers blank List.mem_cons_self)
    rw [dropWhile_of_head? hfirst, List.dropWhile_append_of_pos hname, dropWhile_of_head? hbehind,
      List.dropWhile_append_of_pos hothers, hopen]

theorem opensParameters_iff {text : List Char} :
    opensParameters text = true ↔ OpensParameters text := by
  constructor
  · intro h
    cases text with
    | nil => cases h
    | cons c rest =>
      rw [opensParameters, Bool.and_eq_true] at h
      obtain ⟨hc, h⟩ := h
      split at h
      next inside hinside =>
        refine ⟨c :: rest.takeWhile isBlank, (rest.dropWhile isBlank).takeWhile isWordChar,
          ((rest.dropWhile isBlank).dropWhile isWordChar).takeWhile isBlank, inside, ?_, by simp,
          ?_, fun _ => List.mem_takeWhile_imp, fun _ => List.mem_takeWhile_imp, by simpa using h⟩
        · rw [← hinside, List.takeWhile_append_dropWhile, List.takeWhile_append_dropWhile,
            List.cons_append, List.takeWhile_append_dropWhile]
        · intro d hd
          rcases List.mem_cons.1 hd with rfl | hd
          · exact hc
          · exact List.mem_takeWhile_imp hd
      next => cases h
  · rintro ⟨blanks, name, others, inside, rfl, hne, hblanks, hname, hothers, hinside⟩
    obtain ⟨c, blanks, rfl⟩ := List.exists_cons_of_ne_nil hne
    rw [List.cons_append, opensParameters, hblanks c List.mem_cons_self, Bool.true_and,
      dropWhile_to_parenthesis (fun d hd => hblanks d (List.mem_cons_of_mem _ hd)) hname hothers]
    simpa using hinside

/-- The keyword may stand anywhere: the search moves on by one character at a time. -/
theorem isParameter_iff {before : List Char} :
    isParameter before = true ↔
      ∃ front text, before = front ++ (functionKeyword ++ text) ∧ OpensParameters text := by
  induction before with
  | nil => simp [isParameter, functionKeyword]
  | cons c rest ih =>
    rw [isParameter, Bool.or_eq_true, Bool.and_eq_true, List.isPrefixOf_iff_prefix,
      opensParameters_iff, ih]
    constructor
    · rintro (⟨⟨text, htext⟩, h⟩ | ⟨front, text, rfl, h⟩)
      · rw [← htext, List.drop_left] at h
        exact ⟨[], text, htext.symm, h⟩
      · exact ⟨c :: front, text, rfl, h⟩
    · rintro ⟨front, text, hcut, h⟩
      cases front with
      | nil =>
        rw [List.nil_append] at hcut
        rw [hcut, List.drop_left]
        exact .inl ⟨List.prefix_append _ _, h⟩
      | cons first front =>
        obtain ⟨rfl, rfl⟩ := List.cons.inj hcut
        exact .inr ⟨front, text, rfl, h⟩

/-! ### Calls of mutating methods -/

theorem isBoundary_iff {left right : List Char} :
    isBoundary left.getLast? right.head? = true ↔ AtBoundary left right := by
  rw [isBoundary, AtBoundary, bne_iff_ne, Ne, Bool.eq_iff_iff, Option.any_eq_true,
    Option.any_eq_true]
  exact Iff.rfl

theorem isMutated_iff {names : List String} {after : List Char} :
    isMutated names after = true ↔
      ∃ name ∈ names, ∃ rest, after = '.' :: name.toList ++ rest ∧
        AtBoundary ('.' :: name.toList) rest := by
  constructor
  · intro h
    rw [isMutated.eq_def] at h
    split at h
    next rest =>
      obtain ⟨name, hname, h⟩ := List.any_eq_true.1 h
      rw [Bool.and_eq_true, List.isPrefixOf_iff_prefix, isBoundary_iff] at h
      obtain ⟨⟨tail, rfl⟩, h⟩ := h
      rw [List.drop_left] at h
      exact ⟨name, hname, tail, rfl, h⟩
    next => cases h
  · rintro ⟨name, hname, rest, rfl, h⟩
    rw [List.cons_append, isMutated]
    refine List.any_eq_true.2 ⟨name, hname, ?_⟩
    rw [Bool.and_eq_true, List.isPrefixOf_iff_prefix, List.drop_left, isBoundary_iff]
    exact ⟨List.prefix_append _ _, h⟩

/-! ## The first rule that applies -/

/-- Whether a rule applies, by its matcher. -/
def applies (names : List String) (before after : List Char) : WriteRule → Bool
  | assignment => isAssigned after
  | incrementDecrement => isStepped before after
  | destructuring => isDestructured before
  | parameter => isParameter before
  | mutatingCall => isMutated names after

theorem applies_iff {names : List String} {before after : List Char} {rule : WriteRule} :
    rule.applies names before after = true ↔ rule.Applies names before after := by
  cases rule with
  | assignment => exact isAssigned_iff
  | incrementDecrement => exact isStepped_iff
  | destructuring => exact isDestructured_iff
  | parameter => exact isParameter_iff
  | mutatingCall => exact isMutated_iff

instance (names : List String) (before after : List Char) (rule : WriteRule) :
    Decidable (rule.Applies names before after) :=
  decidable_of_iff _ applies_iff

end WriteRule

namespace Classifier

open WriteRule

theorem ruleBetween_eq_find? (classifier : Classifier) (before after : List Char) :
    classifier.ruleBetween before after =
      inOrder.find? (applies classifier.mutators before after) := by
  simp only [ruleBetween, inOrder, List.find?_cons, List.find?_nil, applies]
  cases isAssigned after <;> cases isStepped before after <;> cases isDestructured before <;>
    cases isParameter before <;> cases isMutated classifier.mutators after <;> rfl

theorem ruleBetween_eq_some_iff {classifier : Classifier} {before after : List Char}
    {rule : WriteRule} :
    classifier.ruleBetween before after = some rule ↔
      ∃ earlier later, inOrder = earlier ++ rule :: later ∧
        rule.Applies classifier.mutators before after ∧
        ∀ other ∈ earlier, ¬other.Applies classifier.mutators before after := by
  rw [ruleBetween_eq_find?, List.find?_eq_some_iff_append, applies_iff]
  simp only [Bool.not_eq_true', ← applies_iff, Bool.not_eq_true]
  constructor
  · rintro ⟨hrule, earlier, later, hcut, hearlier⟩
    exact ⟨earlier, later, hcut, hrule, hearlier⟩
  · rintro ⟨earlier, later, hcut, hrule, hearlier⟩
    exact ⟨hrule, earlier, later, hcut, hearlier⟩

theorem ruleBetween_eq_none_iff {classifier : Classifier} {before after : List Char} :
    classifier.ruleBetween before after = none ↔
      ∀ rule : WriteRule, ¬rule.Applies classifier.mutators before after := by
  simp only [ruleBetween_eq_find?, List.find?_eq_none, ← applies_iff]
  exact forall_congr' fun rule => forall_prop_of_true (mem_inOrder rule)

/-- **The classifier answers the first rule that applies** to the trimmed text before and after an
occurrence. An inverted range, one that leaves the line and one to which no rule applies have
none. -/
theorem writeRule_is_first_that_applies (extra : List String) (line : List Char)
    (start stop : Nat) {before after : List Char} (hbefore : Text.IsCore (line.take start) before)
    (hafter : Text.IsCore (line.drop stop) after) :
    (∀ rule, (withExtra extra).writeRule line start stop = some rule ↔
      (start ≤ stop ∧ stop ≤ line.length) ∧
        ∃ earlier later, inOrder = earlier ++ rule :: later ∧
          rule.Applies (mutatingMethods ++ extra) before after ∧
          ∀ other ∈ earlier, ¬other.Applies (mutatingMethods ++ extra) before after) ∧
    ((withExtra extra).writeRule line start stop = none ↔
      ¬(start ≤ stop ∧ stop ≤ line.length) ∨
        ∀ rule : WriteRule, ¬rule.Applies (mutatingMethods ++ extra) before after) := by
  rw [writeRule, Text.isCore_iff.1 hbefore, Text.isCore_iff.1 hafter]
  by_cases hrange : start ≤ stop ∧ stop ≤ line.length
  · rw [if_pos hrange]
    refine ⟨fun rule => ?_, ?_⟩
    · rw [ruleBetween_eq_some_iff]
      exact (and_iff_right hrange).symm
    · rw [ruleBetween_eq_none_iff]
      exact (or_iff_right (not_not_intro hrange)).symm
  · rw [if_neg hrange]
    simp [hrange]

/-- A parameter of a function without a name, behind a keyword that is not the first word: the
no-break space and the space behind the keyword could be one part of blanks or two. -/
theorem writeRule_is_first_at_open_parameter :
    let line := "  run(function\u00a0 ( a,\tx , b)".toList
    let before := "run(function\u00a0 ( a,".toList
    let after := ", b)".toList
    Text.IsCore (line.take 21) before ∧ Text.IsCore (line.drop 22) after ∧
      (withExtra ["add"]).writeRule line 21 22 = some .parameter := by
  intro line before after
  have hbefore : Text.IsCore (line.take 21) before := Text.isCore_iff.2 (by decide)
  have hafter : Text.IsCore (line.drop 22) after := Text.isCore_iff.2 (by decide)
  refine ⟨hbefore, hafter, ?_⟩
  refine ((writeRule_is_first_that_applies ["add"] line 21 22 hbefore hafter).1 .parameter).2 ?_
  exact ⟨by decide, [.assignment, .incrementDecrement, .destructuring], [.mutatingCall], rfl,
    by decide, by decide⟩

end Classifier

end Usages
