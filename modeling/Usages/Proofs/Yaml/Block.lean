/-
A text of several lines is read back from its block. Every text is made of breaks and of lines with
breaks behind each (`exists_lined`); the block puts two blanks before each line and nothing before
an empty one, and its first line says what the reader cannot see: how far the lines stand in when
the first is empty or starts with a blank, and how many of the last breaks belong to the text.
-/
import Usages.Proofs.Yaml.Scalar

namespace Usages.Yaml

/-! ## Lines -/

/-- Lines that are not empty, with breaks behind each; behind the last there may be none. -/
inductive Lined : List Char → Prop
  | last {line ends : List Char} : line ≠ [] → (∀ c ∈ line, isBreak c = false) →
      (∀ c ∈ ends, isBreak c = true) → Lined (line ++ ends)
  | more {line text ends : List Char} {c : Char} : line ≠ [] → (∀ c ∈ line, isBreak c = false) →
      (∀ d ∈ c :: ends, isBreak d = true) → Lined text → Lined (line ++ (c :: ends ++ text))

theorem Lined.cons {c : Char} {text : List Char} (hc : isBreak c = false) (h : Lined text) :
    Lined (c :: text) := by
  have hline : ∀ {line : List Char}, (∀ d ∈ line, isBreak d = false) →
      ∀ d ∈ c :: line, isBreak d = false := by
    intro line hall d hd
    rcases List.mem_cons.1 hd with rfl | hd
    · exact hc
    · exact hall d hd
  cases h with
  | last _ hall hends => exact .last (List.cons_ne_nil c _) (hline hall) hends
  | more _ hall hends hmore => exact .more (List.cons_ne_nil c _) (hline hall) hends hmore

/-- A text is breaks and then lines, if there are any. -/
theorem exists_lined (text : List Char) :
    ∃ front lines, text = front ++ lines ∧ (∀ c ∈ front, isBreak c = true) ∧
      (lines = [] ∨ Lined lines) := by
  induction text with
  | nil => exact ⟨[], [], rfl, (fun c hc => by cases hc), .inl rfl⟩
  | cons c text ih =>
    obtain ⟨front, lines, rfl, hfront, hlines⟩ := ih
    by_cases hc : isBreak c = true
    · refine ⟨c :: front, lines, rfl, fun d hd => ?_, hlines⟩
      rcases List.mem_cons.1 hd with rfl | hd
      · exact hc
      · exact hfront d hd
    have hc := eq_false_of_ne_true hc
    have hone : ∀ d ∈ [c], isBreak d = false := fun d hd => by rwa [List.mem_singleton.1 hd]
    refine ⟨[], c :: (front ++ lines), rfl, (fun d hd => by cases hd), .inr ?_⟩
    rcases hlines with rfl | hlines
    · rw [List.append_nil]
      exact .last (List.cons_ne_nil c []) hone hfront
    · cases front with
      | nil => exact hlines.cons hc
      | cons d front => exact .more (List.cons_ne_nil c []) hone hfront hlines

theorem Lined.exists_cons {text : List Char} (h : Lined text) :
    ∃ c rest, text = c :: rest ∧ isBreak c = false := by
  have hhead : ∀ {line : List Char}, line ≠ [] → (∀ c ∈ line, isBreak c = false) →
      ∀ rest, ∃ c more, line ++ rest = c :: more ∧ isBreak c = false := by
    intro line hne hall rest
    cases line with
    | nil => exact absurd rfl hne
    | cons c line => exact ⟨c, line ++ rest, rfl, hall c List.mem_cons_self⟩
  cases h with
  | last hne hall _ => exact hhead hne hall _
  | more hne hall _ _ => exact hhead hne hall _

/-! ## How lines are written -/

theorem writeLiteralFrom_breaks {front : List Char} (h : ∀ c ∈ front, isBreak c = true)
    (text : List Char) :
    writeLiteralFrom true (front ++ text) = front ++ writeLiteralFrom true text := by
  induction front with
  | nil => rfl
  | cons c front ih =>
    rw [List.cons_append, writeLiteralFrom, if_pos (h c List.mem_cons_self),
      ih fun d hd => h d (List.mem_cons_of_mem _ hd)]
    rfl

theorem writeLiteralFrom_line {line : List Char} (h : ∀ c ∈ line, isBreak c = false)
    (text : List Char) :
    writeLiteralFrom false (line ++ text) = line ++ writeLiteralFrom false text := by
  induction line with
  | nil => rfl
  | cons c line ih =>
    rw [List.cons_append, writeLiteralFrom, if_neg (ne_true_of_eq_false (h c List.mem_cons_self)),
      ih fun d hd => h d (List.mem_cons_of_mem _ hd)]
    rfl

theorem Lined.writeLiteralFrom {text : List Char} (h : Lined text) :
    writeLiteralFrom true text = itemIndent ++ Yaml.writeLiteralFrom false text := by
  obtain ⟨c, rest, rfl, hc⟩ := h.exists_cons
  rw [Yaml.writeLiteralFrom, if_neg (ne_true_of_eq_false hc), Yaml.writeLiteralFrom,
    if_neg (ne_true_of_eq_false hc)]
  rfl

/-! ## Empty lines -/

theorem readGutter_cons {indent : Option Nat} {column : Nat} {c : Char} (hc : c ≠ '\r')
    (rest : List Char) :
    readGutter indent column (c :: rest) =
      if c == ' ' && inIndentation indent column then
        (readGutter indent (column + 1) rest).map fun gutter =>
          { gutter with size := gutter.size + 1 }
      else if c == '\t' && inIndentation indent column then none
      else if isBreak c then
        (readGutter indent 0 rest).map fun gutter =>
          { breaks := breaks [c] ++ gutter.breaks
            maxColumn := max column gutter.maxColumn
            size := gutter.size + 1 }
      else some { maxColumn := column } := by
  rw [readGutter]
  exact fun _ h => absurd h hc

/-- Breaks at the start of a line are empty lines. -/
theorem readGutter_breaks {front : List Char}
    (h : ∀ c ∈ front, isBreak c = true ∧ isPrintable c = true) {indent : Option Nat}
    {rest : List Char} {gutter : Gutter} (hrest : readGutter indent 0 rest = some gutter) :
    readGutter indent 0 (front ++ rest) =
      some ⟨front ++ gutter.breaks, gutter.maxColumn, front.length + gutter.size⟩ := by
  induction front with
  | nil => rw [List.nil_append, hrest, List.length_nil, Nat.zero_add]; rfl
  | cons c front ih =>
    obtain ⟨hbreak, hprintable⟩ := h c List.mem_cons_self
    have hsize : front.length + gutter.size + 1 = (c :: front).length + gutter.size := by
      rw [List.length_cons]
      omega
    have hne : ∀ d, isBreak d = false ∨ isPrintable d = false → c ≠ d := by
      rintro d hd rfl
      simp [hbreak, hprintable] at hd
    have hself : breaks [c] = [c] := breaks_cons_of_printable hbreak hprintable []
    rw [List.cons_append, readGutter_cons (hne '\r' (.inr (by decide))),
      if_neg (by simp [hne ' ' (.inl (by decide))]), if_neg (by simp [hne '\t' (.inl (by decide))]),
      if_pos hbreak, ih fun d hd => h d (List.mem_cons_of_mem _ hd), hself]
    simp only [Option.map_some, hsize, Nat.zero_max]
    rfl

/-- The two blanks before a line are its indentation; they show it, unless the line starts with a
blank. -/
theorem readGutter_indent {indent : Option Nat} {c : Char} (hprintable : isPrintable c = true)
    (hbreak : isBreak c = false) (hindent : indent = some 2 ∨ indent = none ∧ c ≠ ' ')
    (rest : List Char) :
    readGutter indent 0 (itemIndent ++ c :: rest) = some ⟨[], 2, 2⟩ := by
  have hblank : ∀ column, column < 2 → inIndentation indent column = true := by
    intro column hcolumn
    rcases hindent with rfl | ⟨rfl, -⟩
    · simpa [inIndentation] using hcolumn
    · rfl
  have hreturn : c ≠ '\r' := by
    rintro rfl
    exact absurd hbreak (by decide)
  have hstop : readGutter indent 2 (c :: rest) = some ⟨[], 2, 0⟩ := by
    have hspace : (c == ' ' && inIndentation indent 2) = false := by
      rcases hindent with rfl | ⟨rfl, hspace⟩
      · simp [inIndentation]
      · simp [hspace]
    rw [readGutter_cons hreturn, if_neg (ne_true_of_eq_false hspace),
      if_neg (by simp [ne_tab_of_isPrintable hprintable]), if_neg (ne_true_of_eq_false hbreak)]
  have hsecond : readGutter indent 1 (' ' :: c :: rest) = some ⟨[], 2, 1⟩ := by
    rw [readGutter_cons (by decide), if_pos (by simp [hblank 1 (by decide)]), hstop]
    rfl
  rw [itemIndent, List.cons_append, readGutter_cons (by decide),
    if_pos (by simp [hblank 0 (by decide)]), List.cons_append, List.nil_append, hsecond]
  rfl

theorem readGutter_startsLine {rest : List Char} (h : StartsLine rest) (indent : Option Nat) :
    readGutter indent 0 rest = some ⟨[], 0, 0⟩ := by
  cases rest with
  | nil => rfl
  | cons c rest =>
    have hc := (h c rfl).1
    have hne : ∀ d, isSpacing d = true → c ≠ d := by
      rintro d hd rfl
      rw [hc] at hd
      cases hd
    rw [isSpacing, Bool.or_eq_false_iff] at hc
    rw [readGutter_cons (hne '\r' (by decide)), if_neg (by simp [hne ' ' (by decide)]),
      if_neg (by simp [hne '\t' (by decide)]), if_neg (ne_true_of_eq_false hc.2)]

/-! ## The last breaks -/

/-- What has to happen to the last breaks of a block. -/
def chompOf (text : List Char) : Chomp :=
  match text.reverse with
  | [] => .strip
  | [c] => if isBreak c then .keep else .strip
  | c :: d :: _ => if !isBreak c then .strip else if isBreak d then .keep else .clip

/-- How the first line of a block says it. -/
def Chomp.hint : Chomp → List Char
  | .strip => ['-']
  | .clip => []
  | .keep => ['+']

theorem hint_chompOf (text : List Char) : (chompOf text).hint = chompHint text := by
  rw [chompOf, chompHint]
  rcases text.reverse with _ | ⟨c, _ | ⟨d, more⟩⟩
  · rfl
  · cases hc : isBreak c <;> simp [hc, Chomp.hint]
  · cases hc : isBreak c <;> cases hd : isBreak d <;> simp [hc, hd, Chomp.hint]

/-- Only the last two characters count, and of a single one only whether it is a break. -/
theorem chompOf_append {text : List Char} (h : Lined text) (front : List Char) :
    chompOf (front ++ text) = chompOf text := by
  obtain ⟨c, rest, rfl, hc⟩ := h.exists_cons
  rw [chompOf, chompOf, List.reverse_append, List.reverse_cons]
  rcases rest.reverse with _ | ⟨d, _ | ⟨e, more⟩⟩
  · cases front.reverse <;> simp [hc]
  · rfl
  · rfl

/-- Breaks behind the last line are kept. -/
theorem tail_chompOf {line ends : List Char} {d : Char} (hne : line ≠ [])
    (hline : ∀ c ∈ line, isBreak c = false) (hends : ∀ c ∈ d :: ends, isBreak c = true) :
    readLines.tail (chompOf (line ++ d :: ends)) [d] ends = d :: ends := by
  have hd : isBreak d = true := hends d List.mem_cons_self
  have hreverse : (line ++ d :: ends).reverse = ends.reverse ++ d :: line.reverse := by simp
  rw [chompOf, hreverse]
  rcases hrev : ends.reverse with _ | ⟨e, more⟩
  · obtain rfl : ends = [] := List.reverse_eq_nil_iff.1 hrev
    rcases hlast : line.reverse with _ | ⟨l, rest⟩
    · exact absurd (List.reverse_eq_nil_iff.1 hlast) hne
    · have hl : isBreak l = false :=
        hline l (List.mem_reverse.1 (by rw [hlast]; exact List.mem_cons_self))
      simp [hd, hl, readLines.tail]
  · have hmem : ∀ c ∈ e :: more, isBreak c = true := fun c hc =>
      hends c (List.mem_cons_of_mem _ (List.mem_reverse.1 (by rwa [hrev])))
    have he : isBreak e = true := hmem e List.mem_cons_self
    rcases more with _ | ⟨f, more⟩
    · simp [he, hd, readLines.tail]
    · have hf : isBreak f = true := hmem f (List.mem_cons_of_mem _ List.mem_cons_self)
      simp [he, hf, readLines.tail]

/-- The break that only ends the block is dropped. -/
theorem tail_chompOf_line {line : List Char} (hline : ∀ c ∈ line, isBreak c = false)
    (broken empty : List Char) : readLines.tail (chompOf line) broken empty = [] := by
  rw [chompOf]
  have hmem : ∀ c ∈ line.reverse, isBreak c = false := fun c hc => hline c (List.mem_reverse.1 hc)
  rcases hrev : line.reverse with _ | ⟨c, _ | ⟨d, more⟩⟩
  · rfl
  · have hc : isBreak c = false := hmem c (by rw [hrev]; exact List.mem_cons_self)
    simp [hc, readLines.tail]
  · have hc : isBreak c = false := hmem c (by rw [hrev]; exact List.mem_cons_self)
    simp [hc, readLines.tail]

/-- Where there are only breaks, all are kept. -/
theorem tail_chompOf_breaks {text : List Char} (h : ∀ c ∈ text, isBreak c = true) :
    readLines.tail (chompOf text) [] text = text := by
  rw [chompOf]
  have hmem : ∀ c ∈ text.reverse, isBreak c = true := fun c hc => h c (List.mem_reverse.1 hc)
  rcases hrev : text.reverse with _ | ⟨c, _ | ⟨d, more⟩⟩
  · rw [List.reverse_eq_nil_iff.1 hrev]
    rfl
  · have hc : isBreak c = true := hmem c (by rw [hrev]; exact List.mem_cons_self)
    simp [hc, readLines.tail]
  · have hc : isBreak c = true := hmem c (by rw [hrev]; exact List.mem_cons_self)
    have hd : isBreak d = true :=
      hmem d (by rw [hrev]; exact List.mem_cons_of_mem _ List.mem_cons_self)
    simp [hc, hd, readLines.tail]

/-! ## Reading lines -/

theorem readLines_outside {chomp : Chomp} {broken empty : List Char} {wasBlank : Bool}
    {cursor : Cursor} (h : cursor.column = 0) :
    readLines false chomp 2 broken empty wasBlank cursor =
      some (readLines.tail chomp broken empty, cursor) := by
  rw [readLines]
  split
  · rfl
  · rw [if_neg (by rw [h]; decide)]

/-- A line is read with the break and the empty lines behind it, before what comes later. -/
theorem readLines_line (chomp : Chomp) (broken empty : List Char) (wasBlank : Bool)
    {line rest later : List Char} {cursor stop : Cursor} {d : Char} {gutter : Gutter}
    (hcolumn : cursor.column = 2) (hline : ∀ c ∈ line, isBreak c = false)
    (hbreak : isBreak d = true ∧ isPrintable d = true) (hcursor : cursor.rest = line ++ d :: rest)
    (hgutter : readGutter (some 2) 0 rest = some gutter)
    (hlater : readLines false chomp 2 [d] gutter.breaks (cursor.rest.head?.any isBlank)
      (cursor.drop (line.length + 1 + gutter.size)) = some (later, stop)) :
    readLines false chomp 2 broken empty wasBlank cursor =
      some (broken ++ empty ++ line ++ later, stop) := by
  obtain ⟨hbreak, hprintable⟩ := hbreak
  have htake : cursor.rest.takeWhile (!isBreak ·) = line := by
    rw [hcursor, List.takeWhile_append_of_pos (by simpa using hline),
      List.takeWhile_cons_of_neg (by simp [hbreak]), List.append_nil]
  have hdrop : cursor.rest.drop line.length = d :: rest := by rw [hcursor, List.drop_left]
  have hsize : breakSize (d :: rest) = 1 := by
    rcases eq_of_isBreak_of_isPrintable hbreak hprintable with rfl | rfl | rfl <;> rfl
  have hself : breaks [d] = [d] := breaks_cons_of_printable hbreak hprintable []
  have htotal : 0 < line.length + 1 + gutter.size := by omega
  rw [readLines]
  split
  next hnil =>
    rw [hcursor] at hnil
    simp at hnil
  next c more hcons =>
    have hhead : cursor.rest.head?.any isBlank = isBlank c := by rw [hcons]; rfl
    rw [hhead] at hlater
    rw [if_pos (by simpa using hcolumn)]
    simp only [htake, hdrop, hsize, List.take_succ_cons, List.take_zero, List.drop_succ_cons,
      List.drop_zero, if_neg Nat.one_ne_zero, hgutter, hself, dif_pos htotal, Bool.false_and,
      Bool.false_eq_true, if_false, hlater, Option.map_some]

/-- The break that ends a block whose text does not end in one. -/
def closing (text : List Char) : List Char :=
  if text.getLast?.any isBreak then [] else ['\n']

theorem closing_append {text : List Char} (h : Lined text) (front : List Char) :
    closing (front ++ text) = closing text := by
  obtain ⟨c, rest, rfl, -⟩ := h.exists_cons
  rw [closing, closing, List.getLast?_append, List.getLast?_cons]
  rfl

theorem closing_line {line : List Char} (hline : ∀ c ∈ line, isBreak c = false) :
    closing line = ['\n'] := by
  cases hlast : line.getLast? with
  | none => rw [closing, hlast]; rfl
  | some c => rw [closing, hlast, if_neg (by simp [hline c (List.mem_of_getLast? hlast)])]

theorem closing_breaks {ends : List Char} {d : Char} (hends : ∀ c ∈ d :: ends, isBreak c = true)
    (front : List Char) : closing (front ++ d :: ends) = [] := by
  cases hlast : (d :: ends).getLast? with
  | none => simp at hlast
  | some c =>
    rw [closing, List.getLast?_append, hlast]
    exact if_pos (hends c (List.mem_of_getLast? hlast))

theorem writeLiteralFrom_ends {line ends : List Char} {d : Char}
    (hline : ∀ c ∈ line, isBreak c = false) (hends : ∀ c ∈ d :: ends, isBreak c = true)
    (text : List Char) :
    writeLiteralFrom false (line ++ (d :: ends ++ text)) =
      line ++ d :: (ends ++ writeLiteralFrom true text) := by
  rw [writeLiteralFrom_line hline, List.cons_append, writeLiteralFrom,
    if_pos (hends d List.mem_cons_self),
    writeLiteralFrom_breaks fun c hc => hends c (List.mem_cons_of_mem _ hc)]

/-- The two blanks before a line lead to column two. -/
theorem drop_itemIndent {cursor : Cursor} {rest : List Char} (hcolumn : cursor.column = 0)
    (h : cursor.rest = itemIndent ++ rest) :
    (cursor.drop 2).rest = rest ∧ (cursor.drop 2).column = 2 := by
  have hdrop : cursor.drop 2 = _ :=
    Cursor.drop_of_no_break h fun _ => isBreak_of_mem_itemIndent
  rw [hdrop, hcolumn]
  exact ⟨rfl, rfl⟩

/-- The lines of a block, from the first character of the first on. -/
theorem readLines_lined {text rest : List Char} (h : Lined text)
    (hprintable : ∀ c ∈ text, isPrintable c = true) (hrest : StartsLine rest)
    (broken empty : List Char) (wasBlank : Bool) {cursor : Cursor} (hcolumn : cursor.column = 2)
    (hcursor : cursor.rest = writeLiteralFrom false text ++ (closing text ++ rest)) :
    ∃ stop, cursor.LineAfter rest stop ∧
      readLines false (chompOf text) 2 broken empty wasBlank cursor =
        some (broken ++ empty ++ text, stop) := by
  induction h generalizing broken empty wasBlank cursor with
  | @last line ends hne hline hends =>
    rcases ends with _ | ⟨d, ends⟩
    · -- The text ends with the line; the break behind it only closes the block.
      rw [List.append_nil] at hcursor ⊢
      have hwritten : writeLiteralFrom false line = line := by
        simpa [writeLiteralFrom] using writeLiteralFrom_line hline []
      rw [hwritten, closing_line hline] at hcursor
      have hafter := Cursor.lineAfter_drop hcursor (by decide) (by decide)
      have hread := readLines_line (chompOf line) broken empty wasBlank hcolumn hline (by decide)
        hcursor (readGutter_startsLine hrest _)
        (readLines_outside hafter.column_eq)
      rw [tail_chompOf_line hline, List.append_nil] at hread
      exact ⟨_, hafter, hread⟩
    · -- The breaks behind the line belong to the text.
      have hends' : ∀ c ∈ d :: ends, isBreak c = true ∧ isPrintable c = true :=
        fun c hc => ⟨hends c hc, hprintable c (List.mem_append_right _ hc)⟩
      have hwritten := writeLiteralFrom_ends hline hends []
      rw [List.append_nil, writeLiteralFrom, List.append_nil] at hwritten
      rw [hwritten, closing_breaks hends, List.nil_append, List.append_assoc] at hcursor
      have hafter := Cursor.lineAfter_breaks hcursor hends'
      have hgutter := readGutter_breaks
        (fun c hc => hends' c (List.mem_cons_of_mem _ hc)) (readGutter_startsLine hrest (some 2))
      rw [List.append_nil] at hgutter
      have hread := readLines_line (chompOf (line ++ d :: ends)) broken empty wasBlank hcolumn hline
        (hends' d List.mem_cons_self) hcursor hgutter
        (readLines_outside hafter.column_eq)
      rw [tail_chompOf hne hline hends, List.append_assoc] at hread
      exact ⟨_, hafter, hread⟩
  | @more line text ends d hne hline hends hmore ih =>
    have hends' : ∀ c ∈ d :: ends, isBreak c = true ∧ isPrintable c = true :=
      fun c hc => ⟨hends c hc,
        hprintable c (List.mem_append_right _ (List.mem_append_left _ hc))⟩
    have htext : ∀ c ∈ text, isPrintable c = true := fun c hc =>
      hprintable c (List.mem_append_right _ (List.mem_append_right _ hc))
    have hcursor : cursor.rest = line ++ (d :: ends ++
        (itemIndent ++ (writeLiteralFrom false text ++ (closing text ++ rest)))) := by
      rw [hcursor, writeLiteralFrom_ends hline hends, hmore.writeLiteralFrom,
        ← List.append_assoc line, closing_append hmore]
      simp
    -- Behind the breaks and the blanks stands the first character of the next line.
    have hgutter : readGutter (some 2) 0 (ends ++
        (itemIndent ++ (writeLiteralFrom false text ++ (closing text ++ rest)))) =
          some ⟨ends, 2, ends.length + 2⟩ := by
      obtain ⟨c, more, rfl, hc⟩ := hmore.exists_cons
      have hindent := readGutter_indent (htext c List.mem_cons_self) hc (.inl rfl)
        (writeLiteralFrom false more ++ (closing (c :: more) ++ rest))
      have hgutter := readGutter_breaks (fun d hd => hends' d (List.mem_cons_of_mem _ hd)) hindent
      rw [List.append_nil] at hgutter
      rw [writeLiteralFrom, if_neg (ne_true_of_eq_false hc)]
      exact hgutter
    have hafter := Cursor.lineAfter_breaks hcursor hends'
    obtain ⟨hrest', hcolumn'⟩ := drop_itemIndent hafter.column_eq hafter.rest_eq
    rw [Cursor.drop_drop] at hrest' hcolumn'
    obtain ⟨stop, hstop, hread⟩ := ih htext [d] ends (cursor.rest.head?.any isBlank) hcolumn' hrest'
    refine ⟨stop, hstop.of_drop, ?_⟩
    have hread' := readLines_line (chompOf text) broken empty wasBlank hcolumn hline
      (hends' d List.mem_cons_self) hcursor hgutter hread
    have hfront : line ++ (d :: ends ++ text) = line ++ d :: ends ++ text := by simp
    rw [hfront, chompOf_append hmore, hread']
    simp

/-! ## The first line -/

theorem finishLine?_newline {cursor : Cursor} {rest : List Char} (h : cursor.rest = '\n' :: rest) :
    cursor.finishLine? = some cursor.next := by
  have hblank : cursor.skipWhile isBlank = cursor := by
    rw [Cursor.skipWhile, h, List.takeWhile_cons_of_neg (by decide)]
    rfl
  have hcomment : cursor.skipComment = cursor := by
    rw [Cursor.skipComment, if_neg (by rw [Cursor.peek?_zero, h]; simp)]
  have hbreak : cursor.skipBreak = cursor.next := by
    rw [Cursor.skipBreak, h]
    rfl
  simp only [Cursor.finishLine?, hblank, hcomment, hbreak]
  rw [Cursor.peek?_zero, h, if_pos (by rfl)]

/-- What the first line of a block says is read back. -/
theorem readHeader_hint (indented : Bool) (chomp : Chomp) {cursor : Cursor} {rest : List Char}
    (h : cursor.rest = (if indented then ['2'] else []) ++ (chomp.hint ++ '\n' :: rest)) :
    ∃ stop, cursor.LineAfter rest stop ∧
      readHeader cursor = some (⟨chomp, if indented then some 2 else none⟩, stop) := by
  have hpeek : ∀ {cursor : Cursor} {c : Char} {rest : List Char}, cursor.rest = c :: rest →
      cursor.peek? 0 = some c := fun h => by rw [Cursor.peek?_zero, h]; rfl
  have hnext : ∀ {cursor : Cursor} {c : Char} {rest : List Char}, cursor.rest = c :: rest →
      cursor.next.rest = rest := fun h => by rw [Cursor.rest_next, h]; rfl
  cases indented with
  | false =>
    cases chomp with
    | clip =>
      refine ⟨cursor.next, Cursor.lineAfter_next h, ?_⟩
      simp [readHeader, chomp?, readIncrement, hpeek h, finishLine?_newline h]
    | strip =>
      have hline := hnext h
      refine ⟨cursor.next.next, (Cursor.lineAfter_next hline).of_drop (n := 1), ?_⟩
      simp [readHeader, chomp?, readIncrement, hpeek h, hpeek hline, finishLine?_newline hline]
    | keep =>
      have hline := hnext h
      refine ⟨cursor.next.next, (Cursor.lineAfter_next hline).of_drop (n := 1), ?_⟩
      simp [readHeader, chomp?, readIncrement, hpeek h, hpeek hline, finishLine?_newline hline]
  | true =>
    have hdigit := hnext h
    cases chomp with
    | clip =>
      refine ⟨cursor.next.next, (Cursor.lineAfter_next hdigit).of_drop (n := 1), ?_⟩
      simp [readHeader, chomp?, readIncrement, hpeek h, hpeek hdigit, finishLine?_newline hdigit]
    | strip =>
      have hline := hnext hdigit
      refine ⟨cursor.next.next.next, (Cursor.lineAfter_next hline).of_drop (n := 2), ?_⟩
      simp [readHeader, chomp?, readIncrement, hpeek h, hpeek hdigit, finishLine?_newline hline]
    | keep =>
      have hline := hnext hdigit
      refine ⟨cursor.next.next.next, (Cursor.lineAfter_next hline).of_drop (n := 2), ?_⟩
      simp [readHeader, chomp?, readIncrement, hpeek h, hpeek hdigit, finishLine?_newline hline]

theorem drop_breaks {cursor : Cursor} {front rest : List Char} (hcolumn : cursor.column = 0)
    (hfront : ∀ c ∈ front, isBreak c = true ∧ isPrintable c = true)
    (h : cursor.rest = front ++ rest) :
    (cursor.drop front.length).rest = rest ∧ (cursor.drop front.length).column = 0 := by
  cases front with
  | nil => exact ⟨h, hcolumn⟩
  | cons c ends =>
    have hafter := Cursor.lineAfter_breaks (show cursor.rest = [] ++ (c :: ends ++ rest) from h)
      hfront
    rw [List.length_nil, Nat.zero_add, Nat.add_comm] at hafter
    exact ⟨hafter.rest_eq, hafter.column_eq⟩

/-- The indentation cannot be seen from the first line: it is empty or starts with a blank. -/
def hidesIndent (text : List Char) : Bool :=
  text.head?.any fun c => c == ' ' || isBreak c

/-- The first line of a block gives the indentation if it cannot be seen. -/
def givenIndent (text : List Char) : Option Nat :=
  if hidesIndent text then some 2 else none

theorem readGutter_first {front lines : List Char} (hlines : Lined lines)
    (hfront : ∀ c ∈ front, isBreak c = true ∧ isPrintable c = true)
    (hprintable : ∀ c ∈ lines, isPrintable c = true) (rest : List Char) :
    readGutter (givenIndent (front ++ lines)) 0
      (front ++ (itemIndent ++ (writeLiteralFrom false lines ++ rest))) =
        some ⟨front, 2, front.length + 2⟩ := by
  obtain ⟨c, more, rfl, hc⟩ := hlines.exists_cons
  have hindent : givenIndent (front ++ c :: more) = some 2 ∨
      givenIndent (front ++ c :: more) = none ∧ c ≠ ' ' := by
    by_cases hhidden : hidesIndent (front ++ c :: more) = true
    · exact .inl (if_pos hhidden)
    · refine .inr ⟨if_neg hhidden, ?_⟩
      rintro rfl
      refine hhidden ?_
      cases front with
      | nil => rfl
      | cons d front =>
        have hd := (hfront d List.mem_cons_self).1
        simp [hidesIndent, hd]
  have hgutter := readGutter_breaks hfront (readGutter_indent
    (hprintable c List.mem_cons_self) hc hindent (writeLiteralFrom false more ++ rest))
  rw [List.append_nil] at hgutter
  rw [writeLiteralFrom, if_neg (ne_true_of_eq_false hc)]
  exact hgutter

/-- The indentation of a block is two, whether its first line says so or shows it. -/
theorem readBlock_of_header {cursor start : Cursor} {chomp : Chomp} {text : List Char}
    (hheader : readHeader cursor = some (⟨chomp, givenIndent text⟩, start))
    (hcolumn : start.column = 0) {gutter : Gutter}
    (hgutter : readGutter (givenIndent text) 0 start.rest = some gutter)
    (hindent : givenIndent text = some 2 ∨ gutter.maxColumn = 2) :
    readBlock ⟨some 0, false⟩ false cursor =
      readLines false chomp 2 [] gutter.breaks false (start.drop gutter.size) := by
  cases hhidden : hidesIndent text with
  | true =>
    have hgiven : givenIndent text = some 2 := if_pos hhidden
    rw [hgiven] at hheader hgutter
    simp [readBlock, hheader, hcolumn, hgutter]
  | false =>
    have hgiven : givenIndent text = none := if_neg (ne_true_of_eq_false hhidden)
    rw [hgiven] at hheader hgutter hindent
    have hmax : gutter.maxColumn = 2 := by simpa using hindent
    simp [readBlock, hheader, hcolumn, hgutter, hmax, Context.minColumn]

/-- A block reads as the text it was written from. -/
theorem readBlock_writeLiteral {text rest : List Char} (hne : text ≠ [])
    (hprintable : ∀ c ∈ text, isPrintable c = true) (hrest : StartsLine rest) {cursor : Cursor}
    (hcursor : cursor.rest = indentHint text ++ (chompHint text ++ '\n' ::
      (writeLiteralFrom true text ++ (closing text ++ rest)))) :
    ∃ stop, cursor.LineAfter rest stop ∧
      readBlock ⟨some 0, false⟩ false cursor = some (text, stop) := by
  have hhint : indentHint text = if hidesIndent text then ['2'] else [] := rfl
  rw [hhint, ← hint_chompOf] at hcursor
  obtain ⟨start, hstart, hheader⟩ := readHeader_hint _ _ hcursor
  obtain ⟨front, lines, rfl, hfront, hlines⟩ := exists_lined text
  have hfront' : ∀ c ∈ front, isBreak c = true ∧ isPrintable c = true :=
    fun c hc => ⟨hfront c hc, hprintable c (List.mem_append_left _ hc)⟩
  rcases hlines with rfl | hlines
  · -- There are only breaks: all of them are empty lines, and all are kept.
    rw [List.append_nil] at hne hheader ⊢
    obtain ⟨c, ends, rfl⟩ : ∃ c ends, front = c :: ends := List.exists_cons_of_ne_nil hne
    have hclosing : closing (c :: ends) = [] := closing_breaks hfront []
    have hwritten : start.rest = [] ++ (c :: ends ++ rest) := by
      rw [hstart.rest_eq, writeLiteralFrom_breaks hfront, writeLiteralFrom, List.append_nil,
        hclosing, List.nil_append, List.nil_append]
    have hgiven : givenIndent (c :: ends) = some 2 :=
      if_pos (by simp [hidesIndent, hfront c List.mem_cons_self])
    have hgutter := readGutter_breaks hfront' (readGutter_startsLine hrest (some 2))
    rw [List.append_nil, ← List.nil_append (c :: ends ++ rest), ← hwritten, ← hgiven] at hgutter
    have hafter := Cursor.lineAfter_breaks hwritten hfront'
    have hsize : ([] : List Char).length + 1 + ends.length = (c :: ends).length + 0 := by
      rw [List.length_nil, List.length_cons]
      omega
    rw [hsize] at hafter
    refine ⟨_, hstart.trans hafter, ?_⟩
    rw [readBlock_of_header hheader hstart.column_eq hgutter (.inl hgiven),
      readLines_outside hafter.column_eq, tail_chompOf_breaks hfront]
  · have hlines' : ∀ c ∈ lines, isPrintable c = true :=
      fun c hc => hprintable c (List.mem_append_right _ hc)
    have hwritten : start.rest = front ++
        (itemIndent ++ (writeLiteralFrom false lines ++ (closing lines ++ rest))) := by
      rw [hstart.rest_eq, writeLiteralFrom_breaks hfront, hlines.writeLiteralFrom,
        closing_append hlines]
      simp
    have hgutter := readGutter_first hlines hfront' hlines' (closing lines ++ rest)
    rw [← hwritten] at hgutter
    obtain ⟨hindent, hcolumn⟩ := drop_breaks hstart.column_eq hfront' hwritten
    obtain ⟨hfirst, hcolumn⟩ := drop_itemIndent hcolumn hindent
    rw [Cursor.drop_drop] at hfirst hcolumn
    obtain ⟨stop, hstop, hread⟩ :=
      readLines_lined hlines hlines' hrest [] front false hcolumn hfirst
    refine ⟨stop, hstart.trans hstop.of_drop, ?_⟩
    rw [readBlock_of_header hheader hstart.column_eq hgutter (.inr rfl), chompOf_append hlines]
    exact hread

end Usages.Yaml
