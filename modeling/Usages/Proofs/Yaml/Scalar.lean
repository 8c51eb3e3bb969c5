/-
Scalars on one or more lines are read back from what the writer makes of them: plain text, text in
single quotes, text in double quotes. Each reader collects spacing until the next character shows
what it means, so each statement is about text of which some blanks or separators have been passed
already.
-/
import Mathlib.Algebra.Group.Nat.Defs
import Usages.Proofs.Yaml.Cursor

namespace Usages.Yaml

/-- What may follow a scalar on the next line: nothing, or a character that starts a token. -/
def StartsLine (rest : List Char) : Prop :=
  ∀ c ∈ rest.head?, isSpacing c = false ∧ c ≠ '#' ∧ c ≠ '\uFEFF'

theorem startsLine_cons {c : Char} {rest : List Char} (hspacing : isSpacing c = false)
    (hhash : c ≠ '#') (hmark : c ≠ '\uFEFF') : StartsLine (c :: rest) := by
  rintro d hd
  cases hd
  exact ⟨hspacing, hhash, hmark⟩

/-! ## Spacing -/

theorem breaks_of_no_break {text : List Char} (h : ∀ c ∈ text, isBreak c = false) :
    breaks text = [] := by
  fun_induction breaks text with
  | case1 => rfl
  | case2 rest ih => exact absurd (h '\r' List.mem_cons_self) (by decide)
  | case3 c rest _ hseparator ih =>
    have hc := h c List.mem_cons_self
    simp only [Bool.or_eq_true, beq_iff_eq] at hseparator
    rcases hseparator with rfl | rfl
    · exact absurd hc (by decide)
    · exact absurd hc (by decide)
  | case4 c rest _ _ hbreak ih => rw [h c List.mem_cons_self] at hbreak; cases hbreak
  | case5 c rest _ _ _ ih => exact ih fun d hd => h d (List.mem_cons_of_mem _ hd)

theorem breaks_cons_of_printable {c : Char} (hbreak : isBreak c = true)
    (hprintable : isPrintable c = true) (rest : List Char) :
    breaks (c :: rest) = c :: breaks rest := by
  rcases eq_of_isBreak_of_isPrintable hbreak hprintable with rfl | rfl | rfl <;> rw [breaks]
  all_goals first | rfl | exact fun _ hreturn => absurd hreturn (by decide)

/-- Breaks that are written as they are read as they are. -/
theorem breaks_append_of_printable {text : List Char}
    (h : ∀ c ∈ text, isBreak c = true ∧ isPrintable c = true) (rest : List Char) :
    breaks (text ++ rest) = text ++ breaks rest := by
  induction text with
  | nil => rfl
  | cons c text ih =>
    obtain ⟨hbreak, hprintable⟩ := h c List.mem_cons_self
    rw [List.cons_append, breaks_cons_of_printable hbreak hprintable,
      ih fun d hd => h d (List.mem_cons_of_mem _ hd), List.cons_append]

theorem foldSpacing_spaces (n : Nat) :
    foldSpacing (List.replicate n ' ') = List.replicate n ' ' := by
  have hbreaks : breaks (List.replicate n ' ') = [] := by
    refine breaks_of_no_break fun c hc => ?_
    rw [List.eq_of_mem_replicate hc]
    decide
  rw [foldSpacing, hbreaks]

/-! ## Plain text -/

theorem readPlain_nil {context : Context} {spacing : List Char} {cursor : Cursor}
    (h : cursor.rest = []) :
    readPlain context spacing cursor = some ⟨[], cursor, spacing.any isBreak⟩ := by
  rw [readPlain]
  split
  · rfl
  next hcons => rw [hcons] at h; cases h

theorem readPlain_cons {context : Context} {spacing : List Char} {cursor : Cursor} {c : Char}
    {rest : List Char} (h : cursor.rest = c :: rest) :
    readPlain context spacing cursor =
      if isSpacing c then
        if c == '\t' && spacing.any isBreak && cursor.column < context.minColumn then none
        else readPlain context (spacing ++ [c]) cursor.next
      else if !spacing.isEmpty && stopsPlain context cursor c then
        some ⟨[], cursor, spacing.any isBreak⟩
      else if context.inFlow && c == ':' && (cursor.peek? 1).any isAfterColon then none
      else if endsPlain context cursor c then some ⟨[], cursor, spacing.any isBreak⟩
      else
        (readPlain context [] cursor.next).map fun plain =>
          { plain with text := foldSpacing spacing ++ c :: plain.text } := by
  rw [readPlain]
  split
  next hnil => rw [hnil] at h; cases h
  next hcons =>
    rw [hcons] at h
    cases h
    rfl

/-- The newline at the end of a line ends a word as the end of the text does. -/
theorem endsWord_line (text rest : List Char) :
    endsWord (text ++ '\n' :: rest).head? = endsWord text.head? := by
  cases text <;> rfl

/-- Plain text is read to the end of its line, and the cursor goes on to the next. `spaces` blanks
were passed before. -/
theorem readPlain_line {text rest : List Char} {spaces : Nat} {before : Char} {cursor : Cursor}
    (hcursor : cursor.rest = text ++ '\n' :: rest) (hcolumn : 0 < cursor.column)
    (htext : ∀ c ∈ text, isPrintable c = true ∧ isBreak c = false)
    (hinner : hasInnerIndicator before text = false) (hbefore : 0 < spaces → before = ' ')
    (hlast : (List.replicate spaces ' ' ++ text).getLast? ≠ some ' ') (hrest : StartsLine rest) :
    ∃ stop, cursor.LineAfter rest stop ∧
      readPlain ⟨some 0, false⟩ (List.replicate spaces ' ') cursor =
        some ⟨List.replicate spaces ' ' ++ text, stop, true⟩ := by
  induction text generalizing spaces before cursor with
  | nil =>
    obtain rfl : spaces = 0 := by
      cases spaces with
      | zero => rfl
      | succ n => simp [List.replicate_succ', List.getLast?_append] at hlast
    have hafter := Cursor.lineAfter_next hcursor
    refine ⟨cursor.next, hafter, ?_⟩
    rw [readPlain_cons hcursor, if_pos (by decide), if_neg (by simp)]
    cases hstart : rest with
    | nil => rw [readPlain_nil (hafter.rest_eq.trans hstart)]; rfl
    | cons c rest =>
      have hc := hrest c (by rw [hstart]; rfl)
      have hstop : stopsPlain ⟨some 0, false⟩ cursor.next c = true := by
        simp [stopsPlain, Context.minColumn, hafter.column_eq]
      rw [readPlain_cons (hafter.rest_eq.trans hstart), if_neg (by simp [hc.1]),
        if_pos (by simp [hstop])]
      rfl
  | cons c text ih =>
    obtain ⟨hprintable, hbreak⟩ := htext c List.mem_cons_self
    have htail : ∀ d ∈ text, isPrintable d = true ∧ isBreak d = false :=
      fun d hd => htext d (List.mem_cons_of_mem _ hd)
    rw [hasInnerIndicator, Bool.or_eq_false_iff] at hinner
    rw [List.cons_append] at hcursor
    have hnext := Cursor.next_of_not_break hcursor hbreak
    have hcursor' : cursor.next.rest = text ++ '\n' :: rest := by rw [hnext]
    have hcolumn' : 0 < cursor.next.column := by rw [hnext]; exact Nat.succ_pos _
    by_cases hspace : c = ' '
    · -- One more blank is pending.
      subst hspace
      have hpending : List.replicate spaces ' ' ++ ' ' :: text =
          List.replicate (spaces + 1) ' ' ++ text := by
        simp [List.replicate_succ']
      rw [hpending] at hlast ⊢
      obtain ⟨stop, hafter, hread⟩ := ih hcursor' hcolumn' htail hinner.2
        (fun _ => rfl : 0 < spaces + 1 → ' ' = ' ') hlast
      refine ⟨stop, hafter.of_drop (n := 1), ?_⟩
      rw [readPlain_cons hcursor, if_pos (by decide), if_neg (by simp), ← List.replicate_succ',
        hread]
    · -- The pending blanks belong to the text, and so does the character.
      have hspacing := isSpacing_of_isPrintable hprintable hspace hbreak
      have hstop : (!(List.replicate spaces ' ').isEmpty &&
          stopsPlain ⟨some 0, false⟩ cursor c) = false := by
        cases spaces with
        | zero => rfl
        | succ n =>
          have hhash : (c == '#') = false := by
            have hindicator := hinner.1
            rw [hbefore (Nat.succ_pos n), isInnerIndicator, Bool.or_eq_false_iff] at hindicator
            simpa [isSpacing, isBlank] using hindicator.2
          have hindent : ¬cursor.column < 1 := by omega
          simp [stopsPlain, Context.minColumn, hindent, hhash,
            Cursor.isAtDocumentMark_of_column hcolumn]
      have hend : endsPlain ⟨some 0, false⟩ cursor c = false := by
        have hindicator := hinner.1
        rw [isInnerIndicator, Bool.or_eq_false_iff] at hindicator
        rw [endsPlain, Cursor.peek?_one hcursor, endsWord_line, hindicator.1]
        rfl
      have hlast' : text.getLast? ≠ some ' ' := by
        intro htext
        refine hlast ?_
        rw [List.getLast?_append, List.getLast?_cons, htext]
        rfl
      obtain ⟨stop, hafter, hread⟩ := ih hcursor' hcolumn' htail hinner.2
        (fun h => absurd h (Nat.lt_irrefl 0)) hlast'
      refine ⟨stop, hafter.of_drop (n := 1), ?_⟩
      have hread' : readPlain ⟨some 0, false⟩ [] cursor.next = some ⟨text, stop, true⟩ := hread
      rw [readPlain_cons hcursor, if_neg (ne_true_of_eq_false hspacing),
        if_neg (ne_true_of_eq_false hstop), if_neg (by simp), if_neg (ne_true_of_eq_false hend),
        hread', foldSpacing_spaces]
      rfl

/-- A word is read up to the colon that makes it a key. -/
theorem readPlain_word {indent : Option Nat} {word rest : List Char} {cursor : Cursor}
    (hcursor : cursor.rest = word ++ ':' :: rest) (hrest : endsWord rest.head? = true)
    (hword : ∀ c ∈ word, isSpacing c = false ∧ c ≠ ':') :
    readPlain ⟨indent, false⟩ [] cursor = some ⟨word, cursor.drop word.length, false⟩ := by
  induction word generalizing cursor with
  | nil =>
    have hend : endsPlain ⟨indent, false⟩ cursor ':' = true := by
      rw [endsPlain, Cursor.peek?_one hcursor, hrest]
      rfl
    rw [readPlain_cons hcursor, if_neg (by decide), if_neg (by simp), if_neg (by simp),
      if_pos hend]
    rfl
  | cons c word ih =>
    obtain ⟨hspacing, hcolon⟩ := hword c List.mem_cons_self
    have hnext : cursor.next.rest = word ++ ':' :: rest := by rw [Cursor.rest_next, hcursor]; rfl
    have hend : endsPlain ⟨indent, false⟩ cursor c = false := by simp [endsPlain, hcolon]
    rw [readPlain_cons hcursor, if_neg (ne_true_of_eq_false hspacing), if_neg (by simp),
      if_neg (by simp), if_neg (ne_true_of_eq_false hend),
      ih hnext fun d hd => hword d (List.mem_cons_of_mem _ hd)]
    rfl

/-! ## Neighbours -/

theorem hasPair_tail {p q : Char → Bool} {c : Char} {text : List Char}
    (h : hasPair p q (c :: text) = false) : hasPair p q text = false := by
  cases text with
  | nil => rfl
  | cons d text =>
    rw [hasPair, Bool.or_eq_false_iff] at h
    exact h.2

theorem hasPair_of_append {p q : Char → Bool} {front back : List Char}
    (h : hasPair p q (front ++ back) = false) : hasPair p q back = false := by
  induction front with
  | nil => exact h
  | cons c front ih => exact ih (hasPair_tail h)

theorem not_pair_of_hasPair {p q : Char → Bool} {front back : List Char} {a b : Char}
    (h : hasPair p q (front ++ a :: b :: back) = false) (ha : p a = true) : q b = false := by
  have hpair := hasPair_of_append h
  rw [hasPair, Bool.or_eq_false_iff, ha] at hpair
  exact hpair.1

/-! ## Single quotes -/

theorem readSingleQuoted_cons {spacing : List Char} {cursor : Cursor} {c : Char}
    {rest : List Char} (h : cursor.rest = c :: rest) (hmark : cursor.isAtDocumentMark = false) :
    readSingleQuoted spacing cursor =
      if isSpacing c then readSingleQuoted (spacing ++ [c]) cursor.next
      else if c == '\x27' then
        if cursor.peek? 1 = some '\x27' then
          (readSingleQuoted [] (cursor.drop 2)).map fun (text, stop) =>
            (foldSpacing spacing ++ '\x27' :: text, stop)
        else some (foldSpacing spacing, cursor.next)
      else
        (readSingleQuoted [] cursor.next).map fun (text, stop) =>
          (foldSpacing spacing ++ c :: text, stop) := by
  rw [readSingleQuoted]
  split
  next hnil => rw [hnil] at h; cases h
  next hcons =>
    rw [hcons] at h
    cases h
    rw [if_neg (ne_true_of_eq_false hmark)]

/-- A character in single quotes, of which the quote is written twice. -/
def quoted (c : Char) : List Char :=
  if c == '\x27' then ['\x27', '\x27'] else [c]

theorem readSingleQuoted_quoted {spacing : List Char} {cursor : Cursor} {c : Char}
    {rest : List Char} (h : cursor.rest = quoted c ++ rest) (hcolumn : 0 < cursor.column)
    (hc : isSpacing c = false) :
    readSingleQuoted spacing cursor =
      (readSingleQuoted [] (cursor.drop (quoted c).length)).map fun (text, stop) =>
        (foldSpacing spacing ++ c :: text, stop) := by
  have hmark := Cursor.isAtDocumentMark_of_column hcolumn
  by_cases hquote : c = '\x27'
  · subst hquote
    have hcursor : cursor.rest = '\x27' :: '\x27' :: rest := h
    rw [readSingleQuoted_cons hcursor hmark, if_neg (by decide), if_pos (by decide),
      if_pos (by rw [Cursor.peek?_one hcursor]; rfl)]
    rfl
  · have hone : quoted c = [c] := if_neg (by simpa using hquote)
    rw [hone] at h ⊢
    rw [readSingleQuoted_cons h hmark, if_neg (ne_true_of_eq_false hc),
      if_neg (by simpa using hquote)]
    rfl

theorem readSingleQuoted_indent {spacing : List Char} {cursor : Cursor} {rest : List Char}
    (h : cursor.rest = itemIndent ++ rest) :
    readSingleQuoted spacing cursor =
      readSingleQuoted (spacing ++ itemIndent) (cursor.drop itemIndent.length) := by
  have hnext : cursor.next.rest = ' ' :: rest := by rw [Cursor.rest_next, h]; rfl
  rw [readSingleQuoted_cons h (Cursor.isAtDocumentMark_of_head h (by decide) (by decide)),
    if_pos (by decide), readSingleQuoted_cons hnext
      (Cursor.isAtDocumentMark_of_head hnext (by decide) (by decide)), if_pos (by decide),
    List.append_assoc]
  rfl

/-- Spacing passed inside single quotes: separators where a line was broken, else blanks. -/
def Pending : (broken : Bool) → List Char → Prop
  | true, spacing =>
    spacing ≠ [] ∧ ∀ c ∈ spacing, isBreak c = true ∧ isPrintable c = true ∧ c ≠ '\n'
  | false, spacing => ∀ c ∈ spacing, c = ' '

theorem Pending.fold_blanks {spacing : List Char} (h : Pending false spacing) :
    foldSpacing spacing = spacing := by
  rw [List.eq_replicate_of_mem h, foldSpacing_spaces]

/-- Separators stand for themselves, and the indentation behind them for nothing. -/
theorem Pending.fold_separators {spacing : List Char} (h : Pending true spacing) :
    foldSpacing (spacing ++ itemIndent) = spacing := by
  obtain ⟨hne, hall⟩ := h
  have hbreaks : breaks (spacing ++ itemIndent) = spacing := by
    rw [breaks_append_of_printable fun c hc => ⟨(hall c hc).1, (hall c hc).2.1⟩]
    exact List.append_nil spacing
  rw [foldSpacing, hbreaks]
  split
  next => exact absurd rfl hne
  next => exact absurd rfl (hall '\n' List.mem_cons_self).2.2
  next => exact absurd rfl (hall '\n' List.mem_cons_self).2.2
  next => rfl

/-- A break follows no blank, and separators follow each other. -/
theorem Pending.of_break {broken : Bool} {spacing text : List Char} {c : Char}
    (h : Pending broken spacing) (hbreak : isBreak c = true) (hprintable : isPrintable c = true)
    (hnewline : c ≠ '\n') (hpair : hasPair isSpaceChar isBreak (spacing ++ c :: text) = false) :
    Pending true (spacing ++ [c]) := by
  cases broken with
  | true =>
    refine ⟨by simp, fun d hd => ?_⟩
    rcases List.mem_append.1 hd with hd | hd
    · exact h.2 d hd
    · rw [List.mem_singleton.1 hd]
      exact ⟨hbreak, hprintable, hnewline⟩
  | false =>
    obtain rfl | ⟨front, last, rfl⟩ := List.eq_nil_or_concat spacing
    · exact ⟨by simp, fun d hd => by
        rw [List.mem_singleton.1 hd]; exact ⟨hbreak, hprintable, hnewline⟩⟩
    · have hlast : last = ' ' := h last (by simp)
      subst hlast
      rw [List.concat_eq_append, List.append_assoc] at hpair
      rw [not_pair_of_hasPair hpair (by decide)] at hbreak
      cases hbreak

/-- A blank follows no break. -/
theorem Pending.of_space {broken : Bool} {spacing text : List Char} (h : Pending broken spacing)
    (hpair : hasPair isBreak isSpaceChar (spacing ++ ' ' :: text) = false) :
    broken = false ∧ Pending false (spacing ++ [' ']) := by
  cases broken with
  | false =>
    refine ⟨rfl, fun d hd => ?_⟩
    rcases List.mem_append.1 hd with hd | hd
    · exact h d hd
    · exact List.mem_singleton.1 hd
  | true =>
    obtain rfl | ⟨front, last, rfl⟩ := List.eq_nil_or_concat spacing
    · exact absurd rfl h.1
    · rw [List.concat_eq_append, List.append_assoc] at hpair
      have hspace := not_pair_of_hasPair hpair (h.2 last (by simp)).1
      exact absurd hspace (by decide)

/-- Behind spacing, and the indentation if a line was broken, the text goes on. -/
theorem Pending.exists_drop {broken : Bool} {spacing : List Char} (h : Pending broken spacing)
    {cursor : Cursor} {rest : List Char}
    (hcursor : cursor.rest = (if broken then itemIndent else []) ++ rest)
    (hcolumn : broken = false → 0 < cursor.column) :
    ∃ n passed, (cursor.drop n).rest = rest ∧ 0 < (cursor.drop n).column ∧
      foldSpacing passed = spacing ∧
      readSingleQuoted spacing cursor = readSingleQuoted passed (cursor.drop n) := by
  cases broken with
  | false => exact ⟨0, spacing, hcursor, hcolumn rfl, h.fold_blanks, rfl⟩
  | true =>
    have hcursor : cursor.rest = itemIndent ++ rest := hcursor
    refine ⟨itemIndent.length, spacing ++ itemIndent, ?_, ?_, h.fold_separators,
      readSingleQuoted_indent hcursor⟩
    · rw [Cursor.rest_drop, hcursor]
      rfl
    · rw [Cursor.drop_of_no_break hcursor fun _ => isBreak_of_mem_itemIndent]
      exact Nat.lt_of_lt_of_le (by decide : 0 < itemIndent.length) (Nat.le_add_left _ _)

theorem readSingleQuoted_close {spacing : List Char} {cursor : Cursor} {rest : List Char}
    (h : cursor.rest = '\x27' :: rest) (hrest : rest.head? ≠ some '\x27') :
    readSingleQuoted spacing cursor = some (foldSpacing spacing, cursor.next) := by
  rw [readSingleQuoted_cons h (Cursor.isAtDocumentMark_of_head h (by decide) (by decide)),
    if_neg (by decide), if_pos (by decide), if_neg (by rwa [Cursor.peek?_one h])]

theorem eq_of_mem_quoted {c d : Char} (h : d ∈ quoted c) : d = c := by
  unfold quoted at h
  split at h
  next hquote =>
    rw [eq_of_beq hquote]
    simpa using h
  next => exact List.mem_singleton.1 h

theorem column_drop_quoted {cursor : Cursor} {c : Char} {rest : List Char}
    (h : cursor.rest = quoted c ++ rest) (hc : isBreak c = false) :
    0 < (cursor.drop (quoted c).length).column := by
  have hno : ∀ d ∈ quoted c, isBreak d = false := fun d hd => by rwa [eq_of_mem_quoted hd]
  have hpos : 0 < (quoted c).length := by
    rw [quoted]
    split <;> exact Nat.succ_pos _
  rw [Cursor.drop_of_no_break h hno]
  exact Nat.lt_of_lt_of_le hpos (Nat.le_add_left _ _)

/-- Text behind an opening single quote is read up to the closing one. -/
theorem readSingleQuoted_writeSingleFrom {text rest : List Char} (hrest : rest.head? ≠ some '\x27')
    {broken : Bool} {spacing : List Char} (hspacing : Pending broken spacing) {cursor : Cursor}
    (hcursor : cursor.rest = writeSingleFrom broken text ++ '\x27' :: rest)
    (hcolumn : broken = false → 0 < cursor.column)
    (htext : ∀ c ∈ text, isPrintable c = true ∧ c ≠ '\n')
    (hspaced : hasPair isSpaceChar isBreak (spacing ++ text) = false)
    (hbroken : hasPair isBreak isSpaceChar (spacing ++ text) = false) :
    ∃ n, (cursor.drop n).rest = rest ∧
      readSingleQuoted spacing cursor = some (spacing ++ text, cursor.drop n) := by
  induction text generalizing broken spacing cursor with
  | nil =>
    obtain ⟨n, passed, hdrop, -, hfold, hread⟩ := hspacing.exists_drop hcursor hcolumn
    refine ⟨n + 1, ?_, ?_⟩
    · rw [Cursor.drop_succ_next, Cursor.rest_next, hdrop]
      rfl
    · rw [hread, readSingleQuoted_close hdrop hrest, hfold, List.append_nil,
        Cursor.drop_succ_next]
  | cons c text ih =>
    obtain ⟨hprintable, hnewline⟩ := htext c List.mem_cons_self
    have htail : ∀ d ∈ text, isPrintable d = true ∧ d ≠ '\n' :=
      fun d hd => htext d (List.mem_cons_of_mem _ hd)
    rw [writeSingleFrom] at hcursor
    by_cases hbreak : isBreak c = true
    · -- A separator: it is pending, with those before it.
      rw [if_pos hbreak] at hcursor
      have hpending := hspacing.of_break hbreak hprintable hnewline hspaced
      have happend : spacing ++ [c] ++ text = spacing ++ c :: text := by simp
      have hmark : cursor.isAtDocumentMark = false := by
        refine Cursor.isAtDocumentMark_of_head hcursor ?_ ?_ <;>
          · rintro rfl
            exact absurd hbreak (by decide)
      obtain ⟨n, hn, hread⟩ := ih hpending (cursor.rest_next.trans (by rw [hcursor]; rfl))
        (fun h => by cases h) htail (by rwa [happend]) (by rwa [happend])
      refine ⟨n + 1, hn, ?_⟩
      rw [readSingleQuoted_cons hcursor hmark, if_pos (by simp [isSpacing, hbreak]), hread,
        happend]
      rfl
    rw [if_neg hbreak, List.append_assoc, List.append_assoc] at hcursor
    have hbreak := eq_false_of_ne_true hbreak
    by_cases hspace : c = ' '
    · -- A blank: only blanks are pending.
      subst hspace
      obtain ⟨rfl, hpending⟩ := hspacing.of_space hbroken
      have happend : spacing ++ [' '] ++ text = spacing ++ ' ' :: text := by simp
      have hcursor : cursor.rest = ' ' :: (writeSingleFrom false text ++ '\x27' :: rest) := hcursor
      obtain ⟨n, hn, hread⟩ := ih hpending (cursor.rest_next.trans (by rw [hcursor]; rfl))
        (fun _ => by rw [Cursor.next_of_not_break hcursor hbreak]; exact Nat.succ_pos _) htail
        (by rwa [happend]) (by rwa [happend])
      refine ⟨n + 1, hn, ?_⟩
      rw [readSingleQuoted_cons hcursor (Cursor.isAtDocumentMark_of_column (hcolumn rfl)),
        if_pos (by decide), hread, happend]
      rfl
    · -- Any other character takes what is pending into the text.
      have hc := isSpacing_of_isPrintable hprintable hspace hbreak
      obtain ⟨m, passed, hdrop, hpos, hfold, hpassed⟩ := hspacing.exists_drop hcursor hcolumn
      have hsplit : (cursor.drop m).rest =
          quoted c ++ (writeSingleFrom false text ++ '\x27' :: rest) := hdrop
      have hrest' : ((cursor.drop m).drop (quoted c).length).rest =
          writeSingleFrom false text ++ '\x27' :: rest := by
        rw [Cursor.rest_drop, hsplit, List.drop_left]
      have hnone : Pending false [] := fun d hd => by cases hd
      obtain ⟨n, hn, hread⟩ := ih hnone hrest' (fun _ => column_drop_quoted hsplit hbreak) htail
        (hasPair_tail (hasPair_of_append hspaced)) (hasPair_tail (hasPair_of_append hbroken))
      refine ⟨m + ((quoted c).length + n), ?_, ?_⟩
      · rw [← Cursor.drop_drop, ← Cursor.drop_drop]
        exact hn
      · rw [hpassed, readSingleQuoted_quoted hsplit hpos hc, hread, hfold, Cursor.drop_drop,
          Cursor.drop_drop]
        rfl

/-! ## Double quotes -/

theorem hexDigit?_upperHex (n : Nat) : hexDigit? (upperHex n) = some (n % 16) := by
  have hall : ∀ i : Fin 16, hexDigit? ("0123456789ABCDEF".toList.getD i '0') = some i.val := by
    decide
  exact hall ⟨n % 16, Nat.mod_lt n (by decide)⟩

theorem length_hexDigits (count n : Nat) : (hexDigits count n).length = count := by
  induction count generalizing n with
  | zero => rfl
  | succ count ih => rw [hexDigits, List.length_append, ih]; rfl

theorem foldlM_hexDigits (count n : Nat) :
    (hexDigits count n).foldlM (fun value c => (hexDigit? c).map (value * 16 + ·)) 0 =
      some (n % 16 ^ count) := by
  induction count generalizing n with
  | zero => rw [Nat.pow_zero, Nat.mod_one]; rfl
  | succ count ih =>
    have hvalue : n / 16 % 16 ^ count * 16 + n % 16 = n % 16 ^ (count + 1) := by
      rw [Nat.pow_succ, Nat.mul_comm (16 ^ count) 16, Nat.mod_mul]
      omega
    rw [hexDigits, List.foldlM_append, ih]
    simp [hexDigit?_upperHex, hvalue]

/-- The digits of a code point stand for its character. -/
theorem numbered?_hexDigits {count : Nat} {c : Char} (h : c.toNat < 16 ^ count)
    (rest : List Char) :
    numbered? count (hexDigits count c.toNat ++ rest) = some (c, count + 1) := by
  have hvalid : c.toNat < 0xD800 ∨ 0xDFFF < c.toNat ∧ c.toNat < 0x110000 := c.valid
  have hchar : charOf? c.toNat = some c := by
    rw [charOf?, if_neg (by omega), Char.ofNat_toNat]
  have hvalue : hexValue? count (hexDigits count c.toNat ++ rest) = some c.toNat := by
    have htake : (hexDigits count c.toNat ++ rest).take count = hexDigits count c.toNat := by
      simp [length_hexDigits]
    rw [hexValue?, if_neg (by rw [List.length_append, length_hexDigits]; omega), htake,
      foldlM_hexDigits, Nat.mod_eq_of_lt h]
  simp [numbered?, hvalue, hchar]

/-- Characters that stand on a line as they are. -/
def isInline (c : Char) : Bool :=
  isPrintable c && !isBreak c

theorem isInline_iff {c : Char} :
    isInline c = true ↔ isPrintable c = true ∧ isBreak c = false := by
  simp [isInline]

theorem isInline_of_mem_hexDigits {count n : Nat} {c : Char} (h : c ∈ hexDigits count n) :
    isInline c = true := by
  have hall : ∀ i : Fin 16, isInline ("0123456789ABCDEF".toList.getD i '0') = true := by decide
  induction count generalizing n with
  | zero => cases h
  | succ count ih =>
    rw [hexDigits, List.mem_append, List.mem_singleton] at h
    rcases h with h | rfl
    · exact ih h
    · exact hall ⟨n % 16, Nat.mod_lt n (by decide)⟩

/-- An escape stands on its line, is not empty and reads as its character. -/
structure IsEscape (c : Char) (behind : List Char) : Prop where
  ne_nil : behind ≠ []
  inline : ∀ d ∈ behind, isInline d = true
  reads : ∀ rest, escape? (behind ++ rest) = some (c, behind.length)

theorem IsEscape.not_break {c : Char} {behind : List Char} (h : IsEscape c behind) {d : Char}
    (hd : d ∈ behind) : isBreak d = false :=
  (isInline_iff.1 (h.inline d hd)).2

theorem isEscape_numbered {c lead : Char} {count : Nat} (h : c.toNat < 16 ^ count)
    (hlead : isInline lead = true)
    (hread : ∀ digits, escape? (lead :: digits) = numbered? count digits) :
    IsEscape c (lead :: hexDigits count c.toNat) where
  ne_nil := List.cons_ne_nil _ _
  inline d hd := by
    rcases List.mem_cons.1 hd with rfl | hd
    · exact hlead
    · exact isInline_of_mem_hexDigits hd
  reads rest := by
    rw [List.cons_append, hread, numbered?_hexDigits h, List.length_cons, length_hexDigits]

/-- A character is written as it is, or as an escape. -/
theorem escapeDouble_cases (c : Char) :
    (escapeDouble c = [c] ∧ isInline c = true ∧ c ≠ '"' ∧ c ≠ '\\') ∨
      ∃ behind, escapeDouble c = '\\' :: behind ∧ IsEscape c behind := by
  unfold escapeDouble
  split
  next h =>
    simp only [Bool.and_eq_true, Bool.not_eq_true', bne_iff_ne] at h
    exact .inl ⟨rfl, by simp [isInline, h], h.1.2, h.2⟩
  next =>
    refine .inr ⟨_, rfl, ?_⟩
    have hvalid : c.toNat < 0xD800 ∨ 0xDFFF < c.toNat ∧ c.toNat < 0x110000 := c.valid
    split
    case h_15 =>
      split
      next hsmall => exact isEscape_numbered (by omega) (by decide) fun _ => rfl
      split
      next hsmall => exact isEscape_numbered (by omega) (by decide) fun _ => rfl
      next => exact isEscape_numbered (by omega) (by decide) fun _ => rfl
    all_goals exact ⟨List.cons_ne_nil _ _, List.all_eq_true.1 (by decide), fun _ => rfl⟩

theorem readDoubleQuoted_cons {gap : Gap} {cursor : Cursor} {c : Char} {rest : List Char}
    (h : cursor.rest = c :: rest) (hcolumn : 0 < cursor.column) :
    readDoubleQuoted gap cursor =
      if isSpacing c then readDoubleQuoted { gap with spacing := gap.spacing ++ [c] } cursor.next
      else if c == '"' then some (gap.text, cursor.next)
      else if c == '\\' then
        if rest.head?.any isBreak then
          (readDoubleQuoted { hidden := true } (cursor.drop (1 + breakSize rest))).map
            fun (text, stop) => (gap.text ++ text, stop)
        else
          match escape? rest with
          | none => none
          | some (d, size) =>
            (readDoubleQuoted {} (cursor.drop (1 + size))).map fun (text, stop) =>
              (gap.text ++ d :: text, stop)
      else
        (readDoubleQuoted {} cursor.next).map fun (text, stop) =>
          (gap.text ++ c :: text, stop) := by
  rw [readDoubleQuoted]
  split
  next hnil => rw [hnil] at h; cases h
  next hcons =>
    rw [hcons] at h
    cases h
    have hmark := ne_true_of_eq_false (Cursor.isAtDocumentMark_of_column hcolumn)
    exact (if_neg hmark).trans (by cases escape? rest <;> rfl)

theorem text_gap (n : Nat) : Gap.text { spacing := List.replicate n ' ' } = List.replicate n ' ' :=
  foldSpacing_spaces n

theorem readDoubleQuoted_escape {gap : Gap} {cursor : Cursor} {c : Char} {behind rest : List Char}
    (h : cursor.rest = '\\' :: (behind ++ rest)) (hcolumn : 0 < cursor.column)
    (hescape : IsEscape c behind) :
    readDoubleQuoted gap cursor =
      (readDoubleQuoted {} (cursor.drop (1 + behind.length))).map fun (text, stop) =>
        (gap.text ++ c :: text, stop) := by
  have hhead : ((behind ++ rest).head?.any isBreak) = false := by
    cases hbehind : behind with
    | nil => exact absurd hbehind hescape.ne_nil
    | cons d more =>
      simpa using hescape.not_break (by rw [hbehind]; exact List.mem_cons_self : d ∈ behind)
  rw [readDoubleQuoted_cons h hcolumn, if_neg (by decide), if_neg (by decide),
    if_pos (by decide), if_neg (ne_true_of_eq_false hhead), hescape.reads]

theorem drop_escape {cursor : Cursor} {c : Char} {behind rest : List Char}
    (h : cursor.rest = '\\' :: (behind ++ rest)) (hescape : IsEscape c behind) :
    (cursor.drop (1 + behind.length)).rest = rest ∧
      0 < (cursor.drop (1 + behind.length)).column := by
  have hno : ∀ d ∈ '\\' :: behind, isBreak d = false := by
    intro d hd
    rcases List.mem_cons.1 hd with rfl | hd
    · decide
    · exact hescape.not_break hd
  have hdrop := Cursor.drop_of_no_break
    (h : cursor.rest = ('\\' :: behind) ++ rest) hno
  rw [List.length_cons, Nat.add_comm] at hdrop
  rw [hdrop]
  exact ⟨rfl, by simp only; omega⟩

/-- Text behind an opening double quote is read up to the closing one. -/
theorem readDoubleQuoted_flatMap_escapeDouble {text rest : List Char} (spaces : Nat)
    {cursor : Cursor} (hcursor : cursor.rest = text.flatMap escapeDouble ++ '"' :: rest)
    (hcolumn : 0 < cursor.column) :
    ∃ n, (cursor.drop n).rest = rest ∧
      readDoubleQuoted { spacing := List.replicate spaces ' ' } cursor =
        some (List.replicate spaces ' ' ++ text, cursor.drop n) := by
  induction text generalizing spaces cursor with
  | nil =>
    refine ⟨1, cursor.rest_next.trans (by rw [hcursor]; rfl), ?_⟩
    rw [readDoubleQuoted_cons hcursor hcolumn, if_neg (by decide), if_pos (by decide), text_gap,
      List.append_nil]
    rfl
  | cons c text ih =>
    rw [List.flatMap_cons, List.append_assoc] at hcursor
    rcases escapeDouble_cases c with ⟨hself, hinline, hquote, hslash⟩ | ⟨behind, hself, hescape⟩
    · -- The character stands for itself.
      rw [hself] at hcursor
      obtain ⟨hprintable, hbreak⟩ := isInline_iff.1 hinline
      have hnext := Cursor.next_of_not_break hcursor hbreak
      have hrest' : cursor.next.rest = text.flatMap escapeDouble ++ '"' :: rest := by
        rw [hnext]; rfl
      have hcolumn' : 0 < cursor.next.column := by rw [hnext]; exact Nat.succ_pos _
      by_cases hspace : c = ' '
      · subst hspace
        have hpending : List.replicate spaces ' ' ++ ' ' :: text =
            List.replicate (spaces + 1) ' ' ++ text := by
          simp [List.replicate_succ']
        obtain ⟨n, hn, hread⟩ := ih (spaces + 1) hrest' hcolumn'
        refine ⟨n + 1, hn, ?_⟩
        rw [readDoubleQuoted_cons hcursor hcolumn, if_pos (by decide), hpending,
          ← List.replicate_succ', hread]
        rfl
      · have hspacing := isSpacing_of_isPrintable hprintable hspace hbreak
        obtain ⟨n, hn, hread⟩ := ih 0 hrest' hcolumn'
        have hread : readDoubleQuoted {} cursor.next = some (text, cursor.next.drop n) := hread
        refine ⟨n + 1, hn, ?_⟩
        rw [readDoubleQuoted_cons hcursor hcolumn, if_neg (ne_true_of_eq_false hspacing),
          if_neg (by simpa using hquote), if_neg (by simpa using hslash), hread, text_gap]
        rfl
    · -- The character is escaped.
      rw [hself, List.cons_append] at hcursor
      obtain ⟨hrest', hcolumn'⟩ := drop_escape hcursor hescape
      obtain ⟨n, hn, hread⟩ := ih 0 hrest' hcolumn'
      have hread : readDoubleQuoted {} (cursor.drop (1 + behind.length)) =
          some (text, (cursor.drop (1 + behind.length)).drop n) := hread
      refine ⟨1 + behind.length + n, by rwa [← Cursor.drop_drop], ?_⟩
      rw [readDoubleQuoted_escape hcursor hcolumn hescape, hread, text_gap, Cursor.drop_drop]
      rfl

end Usages.Yaml
