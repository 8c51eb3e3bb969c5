/-
Where the lines of a text start.

A `LineIndex` is made in one pass over a text and keeps byte offsets. A newline is one byte, and no
other character has that byte in it (`getElem?_bytes_eq_newline_iff`), so the offsets are those right
behind the newline bytes and each of them falls between two characters. `Text.lines` is compared with
the index on the shape of the text that `piecesInduction` gives: the two differ only behind the last
newline, where the index always has a line and drops a carriage return that `Text.lines` keeps.
-/
import Usages.Proofs.Lines
import Usages.Text.Utf8

namespace Usages.Text

/-! ## Newlines among the bytes -/

theorem length_utf8Bytes (c : Char) : (utf8Bytes c).length = c.utf8Size := by
  have hsize : c.utf8Size = if c.toNat < 0x80 then 1 else if c.toNat < 0x800 then 2
      else if c.toNat < 0x10000 then 3 else 4 := by
    simp only [Char.utf8Size, UInt32.le_iff_toNat_le, Char.toNat, ← Nat.lt_succ_iff]
    rfl
  simp only [hsize, utf8Bytes]
  split
  · rfl
  split
  · rfl
  split <;> rfl

@[simp] theorem length_flatMap_utf8Bytes (text : List Char) :
    (text.flatMap utf8Bytes).length = byteSize text := by
  induction text with
  | nil => rfl
  | cons c rest ih =>
    rw [List.flatMap_cons, List.length_append, length_utf8Bytes, ih, byteSize_cons]

theorem getElem?_utf8Bytes_eq_newline_iff {c : Char} {i : Nat} :
    (utf8Bytes c)[i]? = some 10 ↔ c = '\n' ∧ i = 0 := by
  constructor
  · intro h
    have hmem := List.mem_of_getElem? h
    simp only [utf8Bytes] at h hmem
    split at hmem
    next hsmall =>
      rw [if_pos hsmall, List.getElem?_singleton] at h
      split at h
      next hi =>
        exact ⟨Char.toNat_inj.1 (Option.some.inj h), hi⟩
      next => cases h
    next =>
      -- All bytes of the other characters are above the ASCII ones.
      exfalso
      split at hmem
      · simp only [List.mem_cons, List.not_mem_nil, or_false] at hmem
        omega
      split at hmem
      · simp only [List.mem_cons, List.not_mem_nil, or_false] at hmem
        omega
      · simp only [List.mem_cons, List.not_mem_nil, or_false] at hmem
        omega
  · rintro ⟨rfl, rfl⟩
    rfl

/-- A newline stands behind the first `offset` bytes. -/
def NewlineAt (text : List Char) (offset : Nat) : Prop :=
  ∃ front back, text = front ++ '\n' :: back ∧ byteSize front = offset

theorem not_newlineAt_nil (offset : Nat) : ¬NewlineAt [] offset := by
  rintro ⟨front, back, htext, -⟩
  simp at htext

theorem newlineAt_cons {c : Char} {rest : List Char} {offset : Nat} :
    NewlineAt (c :: rest) offset ↔
      c = '\n' ∧ offset = 0 ∨ ∃ later, NewlineAt rest later ∧ offset = c.utf8Size + later := by
  constructor
  · rintro ⟨front, back, htext, rfl⟩
    cases front with
    | nil => exact .inl ⟨(List.cons.inj htext).1, rfl⟩
    | cons first front =>
      obtain ⟨rfl, hrest⟩ := List.cons.inj htext
      exact .inr ⟨byteSize front, ⟨front, back, hrest, rfl⟩, rfl⟩
  · rintro (⟨rfl, rfl⟩ | ⟨later, ⟨front, back, rfl, rfl⟩, rfl⟩)
    · exact ⟨[], rest, rfl, rfl⟩
    · exact ⟨c :: front, back, rfl, rfl⟩

/-- The byte of a newline occurs only where a newline stands. -/
theorem getElem?_bytes_eq_newline_iff {text : List Char} {i : Nat} :
    (text.flatMap utf8Bytes)[i]? = some 10 ↔ NewlineAt text i := by
  induction text generalizing i with
  | nil => simp [not_newlineAt_nil]
  | cons c rest ih =>
    rw [newlineAt_cons, List.flatMap_cons]
    by_cases hi : i < c.utf8Size
    · rw [List.getElem?_append_left (by rwa [length_utf8Bytes]), getElem?_utf8Bytes_eq_newline_iff]
      refine ⟨.inl, fun h => h.resolve_right ?_⟩
      rintro ⟨later, -, rfl⟩
      omega
    · obtain ⟨later, rfl⟩ := Nat.exists_eq_add_of_le (Nat.le_of_not_lt hi)
      rw [List.getElem?_append_right (by rw [length_utf8Bytes]; omega), length_utf8Bytes,
        Nat.add_sub_cancel_left, ih]
      constructor
      · exact fun h => .inr ⟨later, h, rfl⟩
      · rintro (⟨-, hzero⟩ | ⟨other, h, hsame⟩)
        · have := c.utf8Size_pos
          omega
        · rwa [Nat.add_left_cancel hsame]

/-! ## Offsets -/

theorem mem_newlineEnds_iff {text : List Char} {offset stop : Nat} :
    stop ∈ newlineEnds offset text ↔ ∃ i, NewlineAt text i ∧ stop = offset + (i + 1) := by
  induction text generalizing offset with
  | nil => simp [newlineEnds, not_newlineAt_nil]
  | cons c rest ih =>
    have hlater : stop ∈ newlineEnds (offset + c.utf8Size) rest ↔
        ∃ i, (∃ later, NewlineAt rest later ∧ i = c.utf8Size + later) ∧
          stop = offset + (i + 1) := by
      rw [ih]
      constructor
      · rintro ⟨later, h, rfl⟩
        exact ⟨_, ⟨later, h, rfl⟩, by omega⟩
      · rintro ⟨_, ⟨later, h, rfl⟩, rfl⟩
        exact ⟨later, h, by omega⟩
    simp only [newlineAt_cons, or_and_right, exists_or, ← hlater]
    rw [newlineEnds]
    split
    next hc =>
      subst hc
      simp [show '\n'.utf8Size = 1 from rfl]
    next hc => simp [hc]

theorem pairwise_newlineEnds (text : List Char) (offset : Nat) :
    (newlineEnds offset text).Pairwise (· < ·) := by
  induction text generalizing offset with
  | nil => exact .nil
  | cons c rest ih =>
    rw [newlineEnds]
    split
    · refine .cons (fun stop hstop => ?_) (ih _)
      obtain ⟨i, -, rfl⟩ := mem_newlineEnds_iff.1 hstop
      omega
    · exact ih _

theorem length_newlineEnds (text : List Char) (offset : Nat) :
    (newlineEnds offset text).length = text.count '\n' := by
  induction text generalizing offset with
  | nil => rfl
  | cons c rest ih =>
    rw [newlineEnds]
    split
    next hc => rw [hc, List.length_cons, ih, List.count_cons_self]
    next hc => rw [ih, List.count_cons_of_ne hc]

/-! ## Behind the last newline -/

/-- Every line of the text has its newline. -/
def IsTerminated (text : List Char) : Prop :=
  text = [] ∨ text.getLast? = some '\n'

instance (text : List Char) : Decidable (IsTerminated text) :=
  inferInstanceAs (Decidable (_ ∨ _))

theorem isTerminated_last {piece : List Char} (h : '\n' ∉ piece) :
    IsTerminated piece ↔ piece = [] :=
  or_iff_left fun hlast => h (List.mem_of_getLast? hlast)

theorem isTerminated_more (piece rest : List Char) :
    IsTerminated (piece ++ '\n' :: rest) ↔ IsTerminated rest := by
  cases rest with
  | nil => simp [IsTerminated]
  | cons c rest =>
    have hlast : (piece ++ '\n' :: c :: rest).getLast? = (c :: rest).getLast? := by
      rw [List.getLast?_append, List.getLast?_cons_cons, List.getLast?_cons, Option.some_or]
    simp [IsTerminated, hlast]

theorem lines_eq_nil_iff {text : List Char} : lines text = [] ↔ text = [] := by
  induction text using piecesInduction with
  | last piece h => rw [lines_last h]; simp
  | more piece rest h _ => rw [lines_more h]; simp

theorem length_pieces_eq_count (text : List Char) :
    (pieces text).length = text.count '\n' + 1 := by
  induction text using piecesInduction with
  | last piece h => rw [pieces_last h, List.count_eq_zero.2 h, List.length_singleton]
  | more piece rest h ih =>
    rw [pieces_more h, List.length_cons, ih, List.count_append, List.count_eq_zero.2 h,
      List.count_cons_self, Nat.zero_add]

theorem length_pieces (text : List Char) :
    (pieces text).length = (lines text).length + if IsTerminated text then 1 else 0 := by
  induction text using piecesInduction with
  | last piece h =>
    simp only [pieces_last h, lines_last h, isTerminated_last h]
    split <;> rfl
  | more piece rest h ih =>
    simp only [pieces_more h, lines_more h, isTerminated_more, List.length_cons, ih]
    omega

/-- The piece behind the last newline is not among the lines if it is empty. -/
theorem getElem?_pieces_of_isTerminated {text : List Char} (h : IsTerminated text) :
    (pieces text)[(lines text).length]? = some [] := by
  induction text using piecesInduction with
  | last piece hpiece =>
    obtain rfl := (isTerminated_last hpiece).1 h
    rfl
  | more piece rest hpiece ih =>
    rw [pieces_more hpiece, lines_more hpiece, List.length_cons, List.getElem?_cons_succ]
    exact ih ((isTerminated_more piece rest).1 h)

/-- A line is its piece without a carriage return, but keeps one at the end of a text that has no
newline there. -/
theorem getElem?_pieces_of_lines {text shown : List Char} {n : Nat}
    (h : (lines text)[n]? = some shown) :
    (pieces text)[n]?.map dropReturn =
      some (if n + 1 = (lines text).length ∧ ¬IsTerminated text then dropReturn shown
        else shown) := by
  induction text using piecesInduction generalizing n with
  | last piece hpiece =>
    simp only [lines_last hpiece, pieces_last hpiece, isTerminated_last hpiece] at h ⊢
    split at h
    next => cases h
    next hne =>
      obtain ⟨rfl, rfl⟩ : n = 0 ∧ piece = shown := by simpa [List.getElem?_singleton] using h
      simp [hne]
  | more piece rest hpiece ih =>
    simp only [lines_more hpiece, pieces_more hpiece, isTerminated_more] at h ⊢
    cases n with
    | zero =>
      obtain rfl : dropReturn piece = shown := by simpa using h
      -- This is the last line only if nothing follows its newline.
      have hlast : ¬(0 + 1 = (dropReturn piece :: lines rest).length ∧ ¬IsTerminated rest) := by
        rintro ⟨hlength, hopen⟩
        refine hopen (.inl (lines_eq_nil_iff.1 (List.length_eq_zero_iff.1 ?_)))
        rw [List.length_cons] at hlength
        omega
      rw [if_neg hlast]
      rfl
    | succ n =>
      rw [List.getElem?_cons_succ] at h
      rw [List.getElem?_cons_succ, ih h]
      simp only [List.length_cons, Nat.add_right_cancel_iff]

end Usages.Text

namespace Usages.LineIndex

open Text

theorem mem_starts_iff {text : List Char} {offset : Nat} :
    offset ∈ (ofText text).starts ↔ offset = 0 ∨ ∃ i, offset = i + 1 ∧ NewlineAt text i := by
  simp only [ofText, List.mem_cons, mem_newlineEnds_iff, Nat.zero_add, and_comm]

theorem pairwise_starts (text : List Char) : (ofText text).starts.Pairwise (· < ·) := by
  refine .cons (fun stop hstop => ?_) (pairwise_newlineEnds text 0)
  obtain ⟨i, -, rfl⟩ := mem_newlineEnds_iff.1 hstop
  omega

theorem length_starts (text : List Char) :
    (ofText text).starts.length = text.count '\n' + 1 := by
  rw [← length_newlineEnds text 0]
  rfl

/-- Lines start between two characters. -/
theorem exists_cut_of_mem_starts {text : List Char} {offset : Nat}
    (h : offset ∈ (ofText text).starts) :
    ∃ front back, text = front ++ back ∧ byteSize front = offset := by
  rcases mem_starts_iff.1 h with rfl | ⟨i, rfl, front, back, rfl, rfl⟩
  · exact ⟨[], text, rfl, rfl⟩
  · exact ⟨front ++ ['\n'], back, List.append_cons front '\n' back, byteSize_append front ['\n']⟩

/-- **The offsets and lines of an index.** The offsets start with zero and increase; the others are
those right behind the newline bytes, one for each newline, and all fall between two characters of
the text. There is a line for each offset and no other, and it is the piece of the text between two
newlines, less one carriage return at its end. The lines that a reader sees are these lines, except
that a last line without a newline keeps its carriage return; and the index has one line more, which
is empty, exactly if the text is empty or ends with a newline. -/
theorem ofText_splits_at_newlines (text : List Char) :
    let index := ofText text
    let bytes := text.flatMap utf8Bytes
    (index.starts.head? = some 0 ∧ index.starts.Pairwise (· < ·) ∧
      index.starts.length = text.count '\n' + 1 ∧
      (∀ offset, offset ∈ index.starts ↔
        offset = 0 ∨ ∃ i, offset = i + 1 ∧ bytes[i]? = some 10) ∧
      ∀ offset ∈ index.starts, offset ≤ bytes.length ∧
        ∃ front back, text = front ++ back ∧ (front.flatMap utf8Bytes).length = offset) ∧
    (∀ n, ((index.line? text n).isSome = true ↔ n < index.lineCount) ∧
      index.line? text n = (text.splitOn '\n')[n]?.map dropReturn) ∧
    (∀ n shown, (lines text)[n]? = some shown →
      index.line? text n =
        some (if n + 1 = (lines text).length ∧ ¬IsTerminated text then dropReturn shown
          else shown)) ∧
    index.lineCount = (lines text).length + (if IsTerminated text then 1 else 0) ∧
    (IsTerminated text → index.line? text (lines text).length = some []) := by
  intro index bytes
  have hcount : index.lineCount = (pieces text).length := by
    rw [length_pieces_eq_count]
    exact length_starts text
  refine ⟨⟨rfl, pairwise_starts text, length_starts text, fun offset => ?_, fun offset hoffset => ?_⟩,
    fun n => ⟨?_, ?_⟩, fun n shown hshown => ?_, ?_, fun hterminated => ?_⟩
  · simp only [index, bytes, mem_starts_iff, getElem?_bytes_eq_newline_iff]
  · obtain ⟨front, back, hcut, rfl⟩ := exists_cut_of_mem_starts hoffset
    refine ⟨?_, front, back, hcut, length_flatMap_utf8Bytes front⟩
    rw [length_flatMap_utf8Bytes, hcut, byteSize_append]
    exact Nat.le_add_right _ _
  · rw [line?_ofText, Option.isSome_map, hcount, Option.isSome_iff_ne_none, ne_eq,
      List.getElem?_eq_none_iff, Nat.not_le]
  · rw [line?_ofText, pieces_eq_splitOn]
  · rw [line?_ofText]
    exact getElem?_pieces_of_lines hshown
  · rw [hcount, length_pieces]
  · rw [line?_ofText, getElem?_pieces_of_isTerminated hterminated]
    rfl

/-- A character of three bytes, an empty line and two carriage returns at the end, and the same text
with a newline behind it. -/
theorem ofText_splits_at_newlines_at_returns :
    let text := "日\r\n\nx\r\r".toList
    let longer := text ++ ['\n']
    (¬IsTerminated text ∧ lines text = [['日'], [], ['x', '\r', '\r']] ∧
      (ofText text).starts = [0, 5, 6] ∧ (∀ offset ∈ (ofText text).starts, offset ≤ 9) ∧
      (ofText text).line? text 2 = some ['x', '\r'] ∧
      ((ofText text).line? text 3).isSome = false) ∧
    IsTerminated longer ∧ lines longer = [['日'], [], ['x', '\r']] ∧
      (ofText longer).line? longer 2 = some ['x', '\r'] ∧
      (ofText longer).line? longer 3 = some [] := by
  intro text longer
  have hopen : ¬IsTerminated text := by decide +kernel
  have hclosed : IsTerminated longer := by decide +kernel
  have hlines : lines text = [['日'], [], ['x', '\r', '\r']] := by decide +kernel
  have hlonger : lines longer = [['日'], [], ['x', '\r']] := by decide +kernel
  obtain ⟨⟨-, -, -, -, hbounds⟩, hcut, hseen, hcount, -⟩ := ofText_splits_at_newlines text
  obtain ⟨-, -, hseen', -, hfurther⟩ := ofText_splits_at_newlines longer
  refine ⟨⟨hopen, hlines, by decide +kernel, fun offset hoffset => (hbounds offset hoffset).1, ?_,
    ?_⟩, hclosed, hlonger, ?_, ?_⟩
  · rw [hseen 2 ['x', '\r', '\r'] (by rw [hlines]; rfl), hlines, if_pos ⟨rfl, hopen⟩]
    rfl
  · rw [Bool.eq_false_iff, ne_eq, (hcut 3).1, hcount, hlines, if_neg hopen]
    decide
  · rw [hseen' 2 ['x', '\r'] (by rw [hlonger]; rfl), if_neg fun h => h.2 hclosed]
  · rw [← hfurther hclosed, hlonger]
    rfl

end Usages.LineIndex
