/-
Words of a line as maximal runs of identifier characters.

* `wordAt_eq_some_iff`: `wordAt` answers the run that the cursor touches, if that run does not
  start with an ASCII digit. At most one run touches a cursor (`IsRun.eq_of_touches`).
* `mem_occurrences`: `occurrences` finds exactly the runs that spell the name. Matches are taken
  from left to right without overlap, and only afterwards are their neighbours looked at. A match
  that is then refused hides no whole word: every place it passes over has a character of the match
  in front.
-/
import Usages.Text.Word

namespace Usages.Text

/-- The character at index `i` is an identifier character. -/
def identifierAt (text : List Char) (i : Nat) : Bool :=
  text[i]?.any isIdentifierChar

/-- The character at index `i` is an ASCII digit. -/
def digitAt (text : List Char) (i : Nat) : Bool :=
  text[i]?.any Char.isDigit

/-- Characters `start` up to `stop` are a run of identifier characters that cannot be made longer.
-/
structure IsRun (line : List Char) (start stop : Nat) : Prop where
  lt : start < stop
  inside : ∀ i, start ≤ i → i < stop → identifierAt line i = true
  before : ∀ i, i + 1 = start → identifierAt line i = false
  after : identifierAt line stop = false

/-- The cursor is inside the stretch or at one of its ends. -/
def Touches (start stop column : Nat) : Prop :=
  start ≤ column ∧ column ≤ stop

theorem identifierAt_lt {line : List Char} {i : Nat} (h : identifierAt line i = true) :
    i < line.length := by
  refine Nat.lt_of_not_le fun hi => ?_
  rw [identifierAt, List.getElem?_eq_none hi] at h
  simp at h

theorem IsRun.le_length {line : List Char} {start stop : Nat} (h : IsRun line start stop) :
    stop ≤ line.length := by
  have hlt := h.lt
  have := identifierAt_lt (h.inside (stop - 1) (by omega) (by omega))
  omega

theorem IsRun.congr {line other : List Char} {start stop : Nat}
    (h : ∀ i, identifierAt other i = identifierAt line i) (hrun : IsRun line start stop) :
    IsRun other start stop where
  lt := hrun.lt
  inside i hs he := (h i).trans (hrun.inside i hs he)
  before i hi := (h i).trans (hrun.before i hi)
  after := (h stop).trans hrun.after

/-- Two runs that touch one cursor are the same run. -/
theorem IsRun.eq_of_touches {line : List Char} {start stop start' stop' column : Nat}
    (h : IsRun line start stop) (h' : IsRun line start' stop') (ht : Touches start stop column)
    (ht' : Touches start' stop' column) : start = start' ∧ stop = stop' := by
  have start_le : ∀ {s e s' e'}, IsRun line s e → IsRun line s' e' → Touches s e column →
      Touches s' e' column → s' ≤ s := by
    intro s e s' e' h h' ht ht'
    refine Nat.le_of_not_lt fun hlt => ?_
    have h1 := h.inside (s' - 1) (by omega) (by have := ht.2; have := ht'.1; omega)
    have h2 := h'.before (s' - 1) (by omega)
    simp [h1] at h2
  have stop_le : ∀ {s e s' e'}, IsRun line s e → IsRun line s' e' → Touches s e column →
      Touches s' e' column → e' ≤ e := by
    intro s e s' e' h h' ht ht'
    refine Nat.le_of_not_lt fun hlt => ?_
    have h1 := h'.inside e (by have := ht.2; have := ht'.1; omega) (by omega)
    simp [h.after] at h1
  exact ⟨Nat.le_antisymm (start_le h' h ht' ht) (start_le h h' ht ht'),
    Nat.le_antisymm (stop_le h' h ht' ht) (stop_le h h' ht ht')⟩

/-! ## Runs as a way to cut a line -/

theorem isFree_iff {neighbour : Option Char} :
    isFree neighbour = true ↔ neighbour.any isIdentifierChar = false := by
  simp [isFree]

/-- A line cut in three, the middle part of which is a run. -/
structure RunCut (front run back : List Char) : Prop where
  ne : run ≠ []
  inside : ∀ c ∈ run, isIdentifierChar c = true
  before : isFree front.getLast? = true
  after : isFree back.head? = true

theorem RunCut.isRun {front run back : List Char} (h : RunCut front run back) :
    IsRun (front ++ run ++ back) front.length (front.length + run.length) where
  lt := by have := List.length_pos_iff.2 h.ne; omega
  inside i hs he := by
    rw [identifierAt, List.append_assoc, List.getElem?_append_right hs,
      List.getElem?_append_left (by omega), List.getElem?_eq_getElem (by omega)]
    exact h.inside _ (List.getElem_mem _)
  before i hi := by
    have hf := isFree_iff.1 h.before
    rw [List.getLast?_eq_getElem?, show front.length - 1 = i by omega] at hf
    rw [identifierAt, List.append_assoc, List.getElem?_append_left (by omega)]
    exact hf
  after := by
    have hb := isFree_iff.1 h.after
    rw [identifierAt, List.getElem?_append_right (by simp)]
    simpa [List.head?_eq_getElem?] using hb

theorem IsRun.runCut {line : List Char} {start stop : Nat} (h : IsRun line start stop) :
    RunCut (line.take start) (line.extract start stop) (line.drop stop) where
  ne := by
    have := h.lt
    have := h.le_length
    simp only [List.extract_eq_take_drop, ne_eq, ← List.length_eq_zero_iff, List.length_take,
      List.length_drop]
    omega
  inside c hc := by
    obtain ⟨i, hi, rfl⟩ := List.mem_iff_getElem.1 hc
    simp only [List.extract_eq_take_drop, List.length_take, List.length_drop] at hi
    have hid := h.inside (start + i) (by omega) (by omega)
    rw [identifierAt, List.getElem?_eq_getElem (by omega)] at hid
    simpa using hid
  before := by
    rw [isFree_iff, List.getLast?_take]
    cases start with
    | zero => rfl
    | succ n =>
      have hlt := h.lt
      have hle := h.le_length
      have hn : n < line.length := by omega
      have hb := h.before n rfl
      rw [identifierAt, List.getElem?_eq_getElem hn] at hb
      rw [if_neg (Nat.succ_ne_zero n), Nat.add_sub_cancel, List.getElem?_eq_getElem hn]
      exact hb
  after := by
    have ha := h.after
    rw [isFree_iff, List.head?_drop]
    exact ha

/-! ## The word under the cursor -/

/-- The identifier characters that end at the cursor. -/
def runLeft (line : List Char) (column : Nat) : List Char :=
  ((line.take column).reverse.takeWhile isIdentifierChar).reverse

/-- The identifier characters that start at the cursor. -/
def runRight (line : List Char) (column : Nat) : List Char :=
  (line.drop column).takeWhile isIdentifierChar

theorem isFree_head?_dropWhile (text : List Char) :
    isFree (text.dropWhile isIdentifierChar).head? = true := by
  have h := List.head?_dropWhile_not isIdentifierChar text
  rw [isFree_iff]
  cases hd : (text.dropWhile isIdentifierChar).head? with
  | none => rfl
  | some c => simpa [hd] using h

/-- What stands around a cursor, cut where the identifier characters next to it end. -/
theorem exists_cut_around {line : List Char} {column : Nat} (hc : column ≤ line.length) :
    ∃ front back, line = front ++ (runLeft line column ++ runRight line column) ++ back ∧
      front.length + (runLeft line column).length = column ∧
      isFree front.getLast? = true ∧ isFree back.head? = true := by
  refine ⟨((line.take column).reverse.dropWhile isIdentifierChar).reverse,
    (line.drop column).dropWhile isIdentifierChar, ?_, ?_, ?_, isFree_head?_dropWhile _⟩
  · conv => lhs; rw [← List.take_append_drop column line]
    rw [runLeft, runRight, ← List.append_assoc, ← List.reverse_append,
      List.takeWhile_append_dropWhile, List.reverse_reverse, List.append_assoc,
      List.takeWhile_append_dropWhile]
  · have h := congrArg List.length
      (List.takeWhile_append_dropWhile (p := isIdentifierChar) (l := (line.take column).reverse))
    simp only [List.length_append, List.length_reverse, List.length_take] at h
    simp only [runLeft, List.length_reverse]
    omega
  · rw [List.getLast?_reverse]
    exact isFree_head?_dropWhile _

theorem identifier_of_mem_around {line : List Char} {column : Nat} {c : Char}
    (h : c ∈ runLeft line column ++ runRight line column) : isIdentifierChar c = true := by
  rcases List.mem_append.1 h with h | h
  · exact List.all_eq_true.1 List.all_takeWhile c (List.mem_reverse.1 h)
  · exact List.all_eq_true.1 List.all_takeWhile c h

/-- The identifier characters around a cursor, when there are any, are a run. -/
theorem isRun_around {line : List Char} {column : Nat} (hc : column ≤ line.length)
    (hne : runLeft line column ++ runRight line column ≠ []) :
    IsRun line (column - (runLeft line column).length) (column + (runRight line column).length) ∧
      line.extract (column - (runLeft line column).length)
        (column + (runRight line column).length) = runLeft line column ++ runRight line column := by
  obtain ⟨front, back, hline, hlen, hf, hb⟩ := exists_cut_around hc
  have hcut := RunCut.mk hne (fun _ => identifier_of_mem_around) hf hb
  have hstart : column - (runLeft line column).length = front.length := by omega
  have hstop : column + (runRight line column).length =
      front.length + (runLeft line column ++ runRight line column).length := by
    rw [List.length_append]; omega
  rw [hstart, hstop]
  generalize runLeft line column ++ runRight line column = run at hline hcut ⊢
  subst hline
  exact ⟨hcut.isRun, by simp [List.extract_eq_take_drop]⟩

theorem any_head?_of_takeWhile_eq_nil {text : List Char}
    (h : text.takeWhile isIdentifierChar = []) : text.head?.any isIdentifierChar = false := by
  cases text with
  | nil => rfl
  | cons c rest =>
    by_cases hc : isIdentifierChar c = true
    · simp [hc] at h
    · simpa using hc

/-- Next to the cursor, behind it or in front of it, stands an identifier character. -/
def IdentifierNextTo (line : List Char) (column : Nat) : Prop :=
  identifierAt line column = true ∨ ∃ i, i + 1 = column ∧ identifierAt line i = true

theorem IdentifierNextTo.le_length {line : List Char} {column : Nat}
    (h : IdentifierNextTo line column) : column ≤ line.length := by
  rcases h with h | ⟨i, rfl, h⟩
  · exact Nat.le_of_lt (identifierAt_lt h)
  · exact identifierAt_lt h

theorem IsRun.identifierNextTo {line : List Char} {start stop column : Nat}
    (h : IsRun line start stop) (ht : Touches start stop column) :
    IdentifierNextTo line column := by
  obtain ⟨hs, he⟩ := ht
  have hlt := h.lt
  by_cases hcol : column < stop
  · exact .inl (h.inside column hs hcol)
  · exact .inr ⟨column - 1, by omega, h.inside (column - 1) (by omega) (by omega)⟩

theorem around_ne_nil {line : List Char} {column : Nat} (h : IdentifierNextTo line column) :
    runLeft line column ++ runRight line column ≠ [] := by
  have hle := h.le_length
  intro hnil
  obtain ⟨hl, hr⟩ := List.append_eq_nil_iff.1 hnil
  rcases h with hid | ⟨i, rfl, hid⟩
  · have hfree := any_head?_of_takeWhile_eq_nil hr
    rw [List.head?_drop] at hfree
    simp [identifierAt, hfree] at hid
  · have hfree := any_head?_of_takeWhile_eq_nil (List.reverse_eq_nil_iff.1 hl)
    rw [List.head?_reverse, List.getLast?_eq_getElem?, List.length_take, Nat.min_eq_left hle,
      Nat.add_sub_cancel, List.getElem?_take_of_lt (Nat.lt_succ_self i)] at hfree
    simp [identifierAt, hfree] at hid

/-- The first character of a stretch is the one at its start. -/
theorem digitAt_of_extract {text others : List Char} {first : Char} {start stop : Nat}
    (h : text.extract start stop = first :: others) : digitAt text start = first.isDigit := by
  have hfirst := congrArg (·[0]?) h
  simp only [List.extract_eq_take_drop, List.getElem?_cons_zero] at hfirst
  rw [List.getElem?_take] at hfirst
  split at hfirst
  · rw [List.getElem?_drop] at hfirst
    rw [digitAt, ← Nat.add_zero start, hfirst]
    rfl
  · cases hfirst

theorem wordAt_of_lt {line : List Char} {column : Nat} (h : line.length < column) :
    wordAt line column = none := by
  rw [wordAt, if_pos h]

theorem wordAt_of_nil {line : List Char} {column : Nat}
    (h : runLeft line column ++ runRight line column = []) : wordAt line column = none := by
  rw [runLeft, runRight] at h
  simp only [wordAt, h]
  split <;> rfl

theorem wordAt_of_cons {line others : List Char} {column : Nat} {first : Char}
    (hc : column ≤ line.length)
    (h : runLeft line column ++ runRight line column = first :: others) :
    wordAt line column = if first.isDigit then none else
      some ⟨column - (runLeft line column).length, column + (runRight line column).length,
        String.ofList (first :: others)⟩ := by
  rw [runLeft, runRight] at h ⊢
  simp only [wordAt, h, if_neg (Nat.not_lt.2 hc)]

/-- **The word at a cursor.** It is the run of identifier characters that the cursor touches,
unless that run starts with an ASCII digit. -/
theorem wordAt_eq_some_iff {line : List Char} {column : Nat} {word : Word} :
    wordAt line column = some word ↔
      IsRun line word.start word.stop ∧ Touches word.start word.stop column ∧
        digitAt line word.start = false ∧
        word.text = String.ofList (line.extract word.start word.stop) := by
  constructor
  · intro h
    have hc : column ≤ line.length := by
      refine Nat.le_of_not_lt fun hlt => ?_
      rw [wordAt_of_lt hlt] at h
      cases h
    have hne : runLeft line column ++ runRight line column ≠ [] := by
      intro hnil
      rw [wordAt_of_nil hnil] at h
      cases h
    obtain ⟨first, others, hrun⟩ := List.exists_cons_of_ne_nil hne
    obtain ⟨hr, htext⟩ := isRun_around hc hne
    rw [wordAt_of_cons hc hrun] at h
    rw [hrun] at htext
    split at h
    · cases h
    next hdigit =>
    cases h
    refine ⟨hr, ⟨Nat.sub_le _ _, Nat.le_add_right _ _⟩, ?_, by rw [htext]⟩
    rw [digitAt_of_extract htext]
    exact Bool.eq_false_iff.2 hdigit
  · rintro ⟨hr, ht, hdigit, htext⟩
    have hc : column ≤ line.length := Nat.le_trans ht.2 hr.le_length
    have hne := around_ne_nil (hr.identifierNextTo ht)
    obtain ⟨first, others, hrun⟩ := List.exists_cons_of_ne_nil hne
    obtain ⟨hr', htext'⟩ := isRun_around hc hne
    obtain ⟨hstart, hstop⟩ := hr.eq_of_touches hr' ht ⟨by omega, by omega⟩
    rw [hrun, ← hstart, ← hstop] at htext'
    rw [digitAt_of_extract htext'] at hdigit
    rw [wordAt_of_cons hc hrun, if_neg (by simp [hdigit]), ← hstart, ← hstop, ← htext', ← htext]

@[simp] theorem wordAt_nil (column : Nat) : wordAt [] column = none := by
  simp [wordAt]

/-- The text of a word is not empty and has identifier characters only. -/
theorem wordAt_text {line : List Char} {column : Nat} {word : Word}
    (h : wordAt line column = some word) :
    word.text.toList ≠ [] ∧ ∀ c ∈ word.text.toList, isIdentifierChar c = true := by
  obtain ⟨hrun, -, -, htext⟩ := wordAt_eq_some_iff.1 h
  rw [htext, String.toList_ofList]
  exact ⟨hrun.runCut.ne, hrun.runCut.inside⟩

/-! ## Occurrences of a name -/

/-- The name stands at `column` with no identifier character next to it. -/
structure StandsAt (name line : List Char) (column : Nat) : Prop where
  spelled : name <+: line.drop column
  before : isFree (line.take column).getLast? = true
  after : isFree (line.drop (column + name.length)).head? = true

theorem standsAt_length_iff {name front rest : List Char} :
    StandsAt name (front ++ rest) front.length ↔
      name <+: rest ∧ isFree front.getLast? = true ∧
        isFree (rest.drop name.length).head? = true := by
  constructor
  · rintro ⟨hs, hb, ha⟩
    simp only [List.drop_left, List.take_left, List.drop_length_add_append] at hs hb ha
    exact ⟨hs, hb, ha⟩
  · rintro ⟨hs, hb, ha⟩
    exact ⟨by simpa using hs, by simpa using hb, by simpa using ha⟩

/-- The places inside a match have a character of the match in front of them. -/
theorem not_isFree_inside (front : List Char) {name rest : List Char} {i : Nat}
    (hid : ∀ c ∈ name, isIdentifierChar c = true) (hp : name <+: rest) (hi : i < name.length) :
    isFree ((front ++ rest).take (front.length + i + 1)).getLast? = false := by
  obtain ⟨back, rfl⟩ := hp
  have hat : (front ++ (name ++ back))[front.length + i]? = some name[i] := by
    rw [List.getElem?_append_right (Nat.le_add_right _ _), Nat.add_sub_cancel_left,
      List.getElem?_append_left hi, List.getElem?_eq_getElem hi]
  have hlast : ((front ++ (name ++ back)).take (front.length + i + 1)).getLast? = some name[i] := by
    rw [List.getLast?_take, if_neg (Nat.succ_ne_zero _), Nat.add_sub_cancel, hat]
    rfl
  rw [hlast]
  simp [isFree, hid _ (List.getElem_mem hi)]

/-- The scan from a place on finds the whole words that start there or later. The induction is on
the rest of the line; what carries it over a match is that no word starts where the scan still has
to `skip`. -/
theorem mem_occurrencesFrom {name : List Char} (hne : name ≠ [])
    (hid : ∀ c ∈ name, isIdentifierChar c = true) (column : Nat) (rest : List Char) :
    ∀ (front : List Char) (skip : Nat),
      (∀ i < skip, isFree ((front ++ rest).take (front.length + i)).getLast? = false) →
      (column ∈ occurrencesFrom name skip front.length front.getLast? rest ↔
        front.length ≤ column ∧ StandsAt name (front ++ rest) column) := by
  induction rest with
  | nil =>
    intro front skip _
    simp only [occurrencesFrom, List.not_mem_nil, List.append_nil, false_iff, not_and]
    intro hle hs
    have := hs.spelled
    rw [List.drop_eq_nil_of_le hle] at this
    exact hne (List.prefix_nil.1 this)
  | cons c rest ih =>
    intro front skip hskip
    have hassoc : front ++ c :: rest = (front ++ [c]) ++ rest := by simp
    have hlast : (front ++ [c]).getLast? = some c := by simp
    have hlen : (front ++ [c]).length = front.length + 1 := by simp
    have hstep := ih (front ++ [c])
    rw [hlast, hlen, ← hassoc] at hstep
    -- Places from here on are this one and the later ones.
    have hhere : front.length ≤ column ↔ column = front.length ∨ front.length + 1 ≤ column := by
      omega
    cases skip with
    | succ skip =>
      rw [occurrencesFrom, hstep skip fun i hi => by
        have := hskip (i + 1) (by omega); rwa [← Nat.add_assoc, Nat.add_right_comm] at this]
      rw [hhere, or_and_right]
      refine ⟨.inr, fun h => h.resolve_left ?_⟩
      rintro ⟨rfl, hs⟩
      have := hskip 0 (by omega)
      rw [Nat.add_zero, hs.before] at this
      exact absurd this (by simp)
    | zero =>
      have hsplit : front.length ≤ column ∧ StandsAt name (front ++ c :: rest) column ↔
          (column = front.length ∧ StandsAt name (front ++ c :: rest) front.length) ∨
            (front.length + 1 ≤ column ∧ StandsAt name (front ++ c :: rest) column) := by
        rw [hhere, or_and_right]
        exact or_congr_left (and_congr_right fun h => by rw [h])
      rw [occurrencesFrom, hsplit, standsAt_length_iff]
      split
      next hp =>
        rw [List.isPrefixOf_iff_prefix] at hp
        have hlater := hstep (name.length - 1) fun i hi => by
          have := not_isFree_inside front hid hp (i := i) (by omega)
          rwa [Nat.add_right_comm]
        dsimp only
        split
        next hfree =>
          rw [Bool.and_eq_true] at hfree
          rw [List.mem_cons, hlater]
          simp only [hp, hfree.1, hfree.2, and_self, and_true]
        next hfree =>
          rw [Bool.and_eq_true] at hfree
          simp only [hp, hfree, and_false, false_or]
          exact hlater
      next hp =>
        rw [List.isPrefixOf_iff_prefix] at hp
        simp only [hp, false_and, and_false, false_or]
        exact hstep 0 (by simp)

theorem le_of_mem_occurrencesFrom {name rest : List Char} {skip column : Nat} {before : Option Char}
    {found : Nat} (h : found ∈ occurrencesFrom name skip column before rest) : column ≤ found := by
  fun_induction occurrencesFrom name skip column before rest with
  | case1 => simp at h
  | case2 _ _ _ _ _ ih => have := ih h; omega
  | case3 column before c rest _ later _ ih =>
    rcases List.mem_cons.1 h with rfl | h
    · exact Nat.le_refl _
    · have := ih h; omega
  | case4 _ _ _ _ _ _ _ ih => have := ih h; omega
  | case5 _ _ _ _ _ ih => have := ih h; omega

theorem pairwise_occurrencesFrom (name rest : List Char) (skip column : Nat)
    (before : Option Char) : (occurrencesFrom name skip column before rest).Pairwise (· < ·) := by
  fun_induction occurrencesFrom name skip column before rest with
  | case1 => exact .nil
  | case2 _ _ _ _ _ ih => exact ih
  | case3 column before c rest _ later _ ih =>
    exact .cons (fun found h => le_of_mem_occurrencesFrom h) ih
  | case4 _ _ _ _ _ _ _ ih => exact ih
  | case5 _ _ _ _ _ ih => exact ih

theorem pairwise_occurrences (line name : List Char) :
    (occurrences line name).Pairwise (· < ·) :=
  pairwise_occurrencesFrom name line 0 0 none

theorem StandsAt.isRun {name line : List Char} {column : Nat} (hne : name ≠ [])
    (hid : ∀ c ∈ name, isIdentifierChar c = true) (h : StandsAt name line column) :
    IsRun line column (column + name.length) ∧
      line.extract column (column + name.length) = name := by
  obtain ⟨back, hback⟩ := h.spelled
  have hlen : column ≤ line.length := by
    refine Nat.le_of_not_lt fun hlt => hne ?_
    rw [List.drop_eq_nil_of_le (by omega)] at hback
    exact (List.append_eq_nil_iff.1 hback).1
  have hline : line = line.take column ++ name ++ back := by
    rw [List.append_assoc, hback, List.take_append_drop]
  have hdrop : line.drop (column + name.length) = back := by
    rw [← List.drop_drop, ← hback, List.drop_left]
  have hcut : RunCut (line.take column) name back := ⟨hne, hid, h.before, hdrop ▸ h.after⟩
  have hrun := hcut.isRun
  rw [← hline, List.length_take, Nat.min_eq_left hlen] at hrun
  refine ⟨hrun, ?_⟩
  rw [List.extract_eq_take_drop, ← hback, Nat.add_sub_cancel_left, List.take_left]

theorem IsRun.standsAt {name line : List Char} {column : Nat}
    (h : IsRun line column (column + name.length))
    (hname : line.extract column (column + name.length) = name) : StandsAt name line column := by
  refine ⟨?_, h.runCut.before, h.runCut.after⟩
  rw [List.extract_eq_take_drop] at hname
  rw [← hname]
  exact List.take_prefix _ _

/-- **Occurrences are whole words.** The columns found are exactly those at which a run of
identifier characters starts that spells the name. -/
theorem mem_occurrences {name line : List Char} (hne : name ≠ [])
    (hid : ∀ c ∈ name, isIdentifierChar c = true) {column : Nat} :
    column ∈ occurrences line name ↔
      IsRun line column (column + name.length) ∧
        line.extract column (column + name.length) = name := by
  have h := mem_occurrencesFrom hne hid column line [] 0 (by simp)
  simp only [List.length_nil, List.getLast?_nil, List.nil_append, Nat.zero_le, true_and] at h
  rw [occurrences, h]
  exact ⟨StandsAt.isRun hne hid, fun ⟨hrun, hname⟩ => hrun.standsAt hname⟩

end Usages.Text
