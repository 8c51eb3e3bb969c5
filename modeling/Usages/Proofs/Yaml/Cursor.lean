/-
How a cursor moves over written text. On a line the column counts the characters; a break starts
the next line at column zero.
-/
import Usages.Yaml.Writer

namespace Usages.Yaml

/-! ## Characters -/

theorem isAllowed_of_isPrintable {c : Char} (h : isPrintable c = true) : isAllowed c = true := by
  simp only [isPrintable, isAllowed, Bool.or_eq_true, Bool.and_eq_true, beq_iff_eq, bne_iff_ne,
    decide_eq_true_eq] at h ⊢
  omega

theorem ne_tab_of_isPrintable {c : Char} (h : isPrintable c = true) : c ≠ '\t' := by
  rintro rfl
  exact absurd h (by decide)

theorem isSpacing_of_isPrintable {c : Char} (h : isPrintable c = true) (hspace : c ≠ ' ')
    (hbreak : isBreak c = false) : isSpacing c = false := by
  simp [isSpacing, isBlank, hspace, ne_tab_of_isPrintable h, hbreak]

/-- Of the breaks, only the newline and the two separators are printable. -/
theorem eq_of_isBreak_of_isPrintable {c : Char} (hbreak : isBreak c = true)
    (h : isPrintable c = true) : c = '\n' ∨ c = '\u2028' ∨ c = '\u2029' := by
  simp only [isBreak, Bool.or_eq_true, beq_iff_eq] at hbreak
  rcases hbreak with (((rfl | rfl) | rfl) | rfl) | rfl
  · exact .inl rfl
  · exact absurd h (by decide)
  · exact absurd h (by decide)
  · exact .inr (.inl rfl)
  · exact .inr (.inr rfl)

theorem isBreak_of_mem_itemIndent {c : Char} (h : c ∈ itemIndent) : isBreak c = false := by
  rw [itemIndent, List.mem_cons, List.mem_singleton, or_self] at h
  rw [h]
  decide

namespace Cursor

/-! ## One character -/

theorem next_of_not_break {cursor : Cursor} {c : Char} {rest : List Char}
    (h : cursor.rest = c :: rest) (hc : isBreak c = false) :
    cursor.next = ⟨rest, cursor.index + 1, cursor.line, cursor.column + 1⟩ := by
  unfold next
  split
  next hnil => rw [hnil] at h; cases h
  next hreturn =>
    rw [hreturn] at h
    cases h
    exact absurd hc (by decide)
  next hcons =>
    rw [hcons] at h
    cases h
    rw [if_neg (by simp [hc])]

theorem next_of_break {cursor : Cursor} {c : Char} {rest : List Char}
    (h : cursor.rest = c :: rest) (hc : isBreak c = true) (hreturn : c ≠ '\r') :
    cursor.next = ⟨rest, cursor.index + 1, cursor.line + 1, 0⟩ := by
  unfold next
  split
  next hnil => rw [hnil] at h; cases h
  next heq =>
    rw [heq] at h
    cases h
    exact absurd rfl hreturn
  next hcons =>
    rw [hcons] at h
    cases h
    rw [if_pos hc]

theorem line_le_next (cursor : Cursor) : cursor.line ≤ cursor.next.line := by
  unfold next
  split
  · exact Nat.le_refl _
  · exact Nat.le_refl _
  · split
    · exact Nat.le_succ _
    · exact Nat.le_refl _

theorem peek?_zero (cursor : Cursor) : cursor.peek? 0 = cursor.rest.head? := by
  rw [peek?, List.head?_eq_getElem?]

theorem peek?_one {cursor : Cursor} {c : Char} {rest : List Char} (h : cursor.rest = c :: rest) :
    cursor.peek? 1 = rest.head? := by
  rw [peek?, h, List.getElem?_cons_succ, List.head?_eq_getElem?]

/-! ## Several characters -/

theorem drop_drop (m n : Nat) (cursor : Cursor) : (cursor.drop m).drop n = cursor.drop (m + n) := by
  induction m generalizing cursor with
  | zero => rw [Nat.zero_add]; rfl
  | succ m ih => rw [drop, ih, Nat.succ_add]; rfl

theorem drop_succ_next (n : Nat) (cursor : Cursor) : cursor.drop (n + 1) = (cursor.drop n).next :=
  (drop_drop n 1 cursor).symm

theorem line_le_drop (n : Nat) (cursor : Cursor) : cursor.line ≤ (cursor.drop n).line := by
  induction n generalizing cursor with
  | zero => exact Nat.le_refl _
  | succ n ih => exact Nat.le_trans cursor.line_le_next (ih cursor.next)

/-- Over text without breaks the cursor stays on its line. -/
theorem drop_of_no_break {cursor : Cursor} {text rest : List Char}
    (h : cursor.rest = text ++ rest) (htext : ∀ c ∈ text, isBreak c = false) :
    cursor.drop text.length =
      ⟨rest, cursor.index + text.length, cursor.line, cursor.column + text.length⟩ := by
  induction text generalizing cursor with
  | nil => subst h; rfl
  | cons c text ih =>
    have hnext := next_of_not_break h (htext c List.mem_cons_self)
    have hrest : cursor.next.rest = text ++ rest := congrArg Cursor.rest hnext
    rw [List.length_cons, drop, ih hrest fun d hd => htext d (List.mem_cons_of_mem _ hd), hnext]
    simp only [Cursor.mk.injEq, true_and]
    omega

/-- `stop` stands at the start of a later line, where `rest` begins. -/
structure LineAfter (cursor : Cursor) (rest : List Char) (stop : Cursor) : Prop where
  rest_eq : stop.rest = rest
  column_eq : stop.column = 0
  line_lt : cursor.line < stop.line

theorem lineAfter_drop {cursor : Cursor} {front rest : List Char} {c : Char}
    (h : cursor.rest = front ++ c :: rest) (hc : isBreak c = true)
    (hprintable : isPrintable c = true) :
    cursor.LineAfter rest (cursor.drop (front.length + 1)) := by
  have hrest : (cursor.drop front.length).rest = c :: rest := by rw [rest_drop, h, List.drop_left]
  have hreturn : c ≠ '\r' := by
    rintro rfl
    exact absurd hprintable (by decide)
  rw [drop_succ_next, next_of_break hrest hc hreturn]
  exact ⟨rfl, rfl, Nat.lt_succ_of_le (cursor.line_le_drop _)⟩

theorem lineAfter_next {cursor : Cursor} {rest : List Char} (h : cursor.rest = '\n' :: rest) :
    cursor.LineAfter rest cursor.next :=
  lineAfter_drop (show cursor.rest = [] ++ '\n' :: rest from h) (by decide) (by decide)

/-- Behind several breaks, the line after the last begins. -/
theorem lineAfter_breaks {cursor : Cursor} {front ends rest : List Char} {c : Char}
    (h : cursor.rest = front ++ (c :: ends ++ rest))
    (hends : ∀ d ∈ c :: ends, isBreak d = true ∧ isPrintable d = true) :
    cursor.LineAfter rest (cursor.drop (front.length + 1 + ends.length)) := by
  induction ends generalizing front c with
  | nil =>
    obtain ⟨hbreak, hprintable⟩ := hends c List.mem_cons_self
    exact lineAfter_drop h hbreak hprintable
  | cons d ends ih =>
    have hcursor : cursor.rest = front ++ [c] ++ (d :: ends ++ rest) := by simpa using h
    have hafter := ih hcursor fun e he => hends e (List.mem_cons_of_mem _ he)
    have hlength : (front ++ [c]).length + 1 + ends.length =
        front.length + 1 + (d :: ends).length := by
      rw [List.length_append, List.length_singleton, List.length_cons]
      omega
    rwa [hlength] at hafter

theorem LineAfter.of_drop {cursor stop : Cursor} {rest : List Char} {n : Nat}
    (h : (cursor.drop n).LineAfter rest stop) : cursor.LineAfter rest stop :=
  ⟨h.rest_eq, h.column_eq, Nat.lt_of_le_of_lt (cursor.line_le_drop n) h.line_lt⟩

theorem LineAfter.trans {cursor middle stop : Cursor} {between rest : List Char}
    (h : cursor.LineAfter between middle) (hstop : middle.LineAfter rest stop) :
    cursor.LineAfter rest stop :=
  ⟨hstop.rest_eq, hstop.column_eq, Nat.lt_trans h.line_lt hstop.line_lt⟩

/-! ## Marks -/

theorem isAtDocumentMark_of_column {cursor : Cursor} (h : 0 < cursor.column) :
    cursor.isAtDocumentMark = false := by
  have hcolumn : (cursor.column == 0) = false := beq_false_of_ne (by omega)
  simp [isAtDocumentMark, isAtMark, hcolumn]

theorem isAtMark_of_head {cursor : Cursor} {mark c : Char} {rest : List Char}
    (h : cursor.rest = c :: rest) (hc : c ≠ mark) : cursor.isAtMark mark = false := by
  simp [isAtMark, h, Ne.symm hc]

theorem isAtDocumentMark_of_head {cursor : Cursor} {c : Char} {rest : List Char}
    (h : cursor.rest = c :: rest) (hdash : c ≠ '-') (hdot : c ≠ '.') :
    cursor.isAtDocumentMark = false := by
  rw [isAtDocumentMark, isAtMark_of_head h hdash, isAtMark_of_head h hdot, Bool.or_false]

end Cursor

end Usages.Yaml
