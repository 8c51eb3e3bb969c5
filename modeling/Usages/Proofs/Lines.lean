/-
The two views of the lines of a text, compared.

A text is a last piece without a newline, or a first piece, a newline and another text
(`piecesInduction`). On that shape the byte offsets of a `LineIndex` are sums of sizes of pieces,
so that cutting the text between two neighbouring ones gives a piece back
(`LineIndex.line?_ofText`). `Text.lines` yields the same pieces but keeps a carriage return at the
end of an unterminated last one and leaves that piece out when it is empty. Neither matters to a
cursor: `bind_wordAt_line?` says that both views have the same word under it.
-/
import Usages.Proofs.Word
import Usages.Text.Lines

namespace Usages.Text

/-! ## Pieces -/

/-- A text is a piece without a newline, or such a piece, a newline and a text. -/
theorem piecesInduction {motive : List Char → Prop} (last : ∀ piece, '\n' ∉ piece → motive piece)
    (more : ∀ piece rest, '\n' ∉ piece → motive rest → motive (piece ++ '\n' :: rest))
    (text : List Char) : motive text := by
  induction hn : text.length using Nat.strongRecOn generalizing text with
  | ind n ih =>
    by_cases hmem : '\n' ∈ text
    · obtain ⟨piece, rest, rfl, hpiece⟩ := List.eq_append_cons_of_mem hmem
      exact more piece rest hpiece (ih rest.length (by subst hn; simp; omega) rest rfl)
    · exact last text hmem

theorem pieces_last {piece : List Char} (h : '\n' ∉ piece) : pieces piece = [piece] := by
  induction piece with
  | nil => rfl
  | cons c rest ih =>
    simp only [List.mem_cons, not_or] at h
    rw [pieces, if_neg (Ne.symm h.1), ih h.2]

theorem pieces_more {piece : List Char} (h : '\n' ∉ piece) (rest : List Char) :
    pieces (piece ++ '\n' :: rest) = piece :: pieces rest := by
  induction piece with
  | nil => simp [pieces]
  | cons c piece ih =>
    simp only [List.mem_cons, not_or] at h
    rw [List.cons_append, pieces, if_neg (Ne.symm h.1), ih h.2]

theorem pieces_ne_nil (text : List Char) : pieces text ≠ [] := by
  induction text using piecesInduction with
  | last piece h => simp [pieces_last h]
  | more piece rest h _ => simp [pieces_more h]

theorem newline_not_mem_of_mem_pieces {text piece : List Char} (h : piece ∈ pieces text) :
    '\n' ∉ piece := by
  induction text using piecesInduction with
  | last whole hwhole =>
    rw [pieces_last hwhole, List.mem_singleton] at h
    rwa [h]
  | more first rest hfirst ih =>
    rw [pieces_more hfirst, List.mem_cons] at h
    rcases h with rfl | h
    · exact hfirst
    · exact ih h

theorem intercalate_pieces (text : List Char) : ['\n'].intercalate (pieces text) = text := by
  induction text using piecesInduction with
  | last piece h => simp [pieces_last h]
  | more piece rest h ih =>
    obtain ⟨next, others, hrest⟩ := List.exists_cons_of_ne_nil (pieces_ne_nil rest)
    rw [hrest] at ih
    rw [pieces_more h, hrest, List.intercalate_cons_cons, ih, List.append_assoc,
      List.singleton_append]

theorem pieces_eq_splitOn (text : List Char) : pieces text = text.splitOn '\n' := by
  have hsplit := List.splitOn_intercalate '\n'
    (fun _ hpiece => newline_not_mem_of_mem_pieces hpiece) (pieces_ne_nil text)
  rw [intercalate_pieces] at hsplit
  exact hsplit.symm

/-! ## Byte offsets -/

@[simp] theorem byteSize_nil : byteSize [] = 0 := rfl

@[simp] theorem byteSize_cons (c : Char) (text : List Char) :
    byteSize (c :: text) = c.utf8Size + byteSize text := rfl

@[simp] theorem byteSize_append (front back : List Char) :
    byteSize (front ++ back) = byteSize front + byteSize back := by
  induction front with
  | nil => simp
  | cons c front ih => simp [ih, Nat.add_assoc]

theorem dropBytes_append (front back : List Char) :
    dropBytes (byteSize front) (front ++ back) = some back := by
  induction front with
  | nil => simp [dropBytes]
  | cons c front ih =>
    have hpos := c.utf8Size_pos
    obtain ⟨n, hn⟩ : ∃ n, byteSize (c :: front) = n + 1 :=
      ⟨byteSize (c :: front) - 1, by simp; omega⟩
    rw [hn, List.cons_append, dropBytes, ← hn, byteSize_cons, if_pos (by omega),
      Nat.add_sub_cancel_left, ih]

theorem takeBytes_append (front back : List Char) :
    takeBytes (byteSize front) (front ++ back) = some front := by
  induction front with
  | nil => simp [takeBytes]
  | cons c front ih =>
    have hpos := c.utf8Size_pos
    obtain ⟨n, hn⟩ : ∃ n, byteSize (c :: front) = n + 1 :=
      ⟨byteSize (c :: front) - 1, by simp; omega⟩
    rw [hn, List.cons_append, takeBytes, ← hn, byteSize_cons, if_pos (by omega),
      Nat.add_sub_cancel_left, ih, Option.map_some]

theorem sliceBytes_append (front middle back : List Char) :
    sliceBytes (front ++ (middle ++ back)) (byteSize front) (byteSize front + byteSize middle) =
      some middle := by
  rw [sliceBytes, if_pos (by omega), dropBytes_append, Option.bind_some, Nat.add_sub_cancel_left,
    takeBytes_append]

theorem newlineEnds_last {piece : List Char} (h : '\n' ∉ piece) (offset : Nat) :
    newlineEnds offset piece = [] := by
  induction piece generalizing offset with
  | nil => rfl
  | cons c rest ih =>
    simp only [List.mem_cons, not_or] at h
    rw [newlineEnds, if_neg (Ne.symm h.1), ih h.2]

theorem newlineEnds_more {piece : List Char} (h : '\n' ∉ piece) (rest : List Char) (offset : Nat) :
    newlineEnds offset (piece ++ '\n' :: rest) =
      (offset + byteSize (piece ++ ['\n'])) ::
        newlineEnds (offset + byteSize (piece ++ ['\n'])) rest := by
  induction piece generalizing offset with
  | nil => simp [newlineEnds]
  | cons c piece ih =>
    simp only [List.mem_cons, not_or] at h
    rw [List.cons_append, newlineEnds, if_neg (Ne.symm h.1), ih h.2]
    simp [Nat.add_assoc]

theorem dropNewline_of_not_mem {piece : List Char} (h : '\n' ∉ piece) :
    dropNewline piece = piece := by
  rw [dropNewline, if_neg fun hlast => h (List.mem_of_getLast? hlast)]

theorem dropNewline_append (piece : List Char) : dropNewline (piece ++ ['\n']) = piece := by
  simp [dropNewline]

end Usages.Text

namespace Usages.LineIndex

open Text

/-- The line starts of a text that follows `front`, and what is cut between two of them. -/
theorem line?_behind (text : List Char) : ∀ (front : List Char) (n : Nat),
    (mk (byteSize front :: newlineEnds (byteSize front) text)).line? (front ++ text) n =
      (pieces text)[n]?.map dropReturn := by
  induction text using piecesInduction with
  | last piece h =>
    intro front n
    rw [newlineEnds_last h, pieces_last h]
    cases n with
    | zero =>
      have hcut := sliceBytes_append front piece []
      simp only [List.append_nil] at hcut
      simp [line?, lineStart?, hcut, dropNewline_of_not_mem h]
    | succ n => simp [line?, lineStart?]
  | more piece rest h ih =>
    intro front n
    rw [newlineEnds_more h, pieces_more h]
    cases n with
    | zero =>
      have hcut := sliceBytes_append front (piece ++ ['\n']) rest
      rw [List.append_assoc, List.singleton_append] at hcut
      simp only [line?, lineStart?, List.getElem?_cons_zero, List.getElem?_cons_succ,
        Option.bind_some, Option.getD_some, hcut, Option.map_some, dropNewline_append]
    | succ n =>
      have hn := ih (front ++ (piece ++ ['\n'])) n
      rw [byteSize_append, List.append_assoc, List.append_assoc, List.singleton_append] at hn
      rw [List.getElem?_cons_succ, ← hn]
      simp only [line?, lineStart?, List.getElem?_cons_succ]

/-- **Lines by the index.** Line `n` is piece `n` without one carriage return at its end. -/
theorem line?_ofText (text : List Char) (n : Nat) :
    (ofText text).line? text n = (pieces text)[n]?.map dropReturn :=
  line?_behind text [] n

end Usages.LineIndex

namespace Usages.Text

/-! ## Lines as a reader sees them -/

theorem lines_last {piece : List Char} (h : '\n' ∉ piece) :
    lines piece = if piece = [] then [] else [piece] := by
  simp only [lines, pieces_last h, List.dropLast_singleton, List.getLast?_singleton, List.map_nil,
    List.nil_append]
  cases piece <;> simp

theorem lines_more {piece : List Char} (h : '\n' ∉ piece) (rest : List Char) :
    lines (piece ++ '\n' :: rest) = dropReturn piece :: lines rest := by
  obtain ⟨last, hlast⟩ := Option.isSome_iff_exists.1 (List.getLast?_isSome.2 (pieces_ne_nil rest))
  simp only [lines, pieces_more h, List.dropLast_cons_of_ne_nil (pieces_ne_nil rest),
    List.getLast?_cons, hlast, Option.getD_some, List.map_cons, List.cons_append]

/-! ## One word under the cursor -/

/-- A carriage return at the end of a line is part of no word. -/
theorem identifierAt_dropReturn (line : List Char) (i : Nat) :
    identifierAt (dropReturn line) i = identifierAt line i := by
  rw [dropReturn]
  split
  next h =>
    obtain ⟨front, rfl⟩ := List.getLast?_eq_some_iff.1 h
    have hreturn : isIdentifierChar '\r' = false := by decide
    rw [List.dropLast_concat]
    rcases Nat.lt_trichotomy i front.length with hi | rfl | hi
    · rw [identifierAt, identifierAt, List.getElem?_append_left hi]
    · simp [identifierAt, hreturn]
    · rw [identifierAt, identifierAt, List.getElem?_eq_none (by omega),
        List.getElem?_eq_none (by simp; omega)]
  next => rfl

theorem isRun_dropReturn (line : List Char) {start stop : Nat} :
    IsRun (dropReturn line) start stop ↔ IsRun line start stop :=
  ⟨IsRun.congr fun i => (identifierAt_dropReturn line i).symm,
    IsRun.congr (identifierAt_dropReturn line)⟩

theorem prefix_dropReturn (line : List Char) : dropReturn line <+: line := by
  rw [dropReturn]
  split
  · exact List.dropLast_prefix line
  · exact List.prefix_refl line

theorem extract_prefix_eq {front line : List Char} {start stop : Nat} (h : front <+: line)
    (hle : stop ≤ front.length) : front.extract start stop = line.extract start stop := by
  obtain ⟨back, rfl⟩ := h
  simp only [List.extract_eq_take_drop]
  by_cases hs : start ≤ stop
  · rw [List.drop_append_of_le_length (by omega),
      List.take_append_of_le_length (by rw [List.length_drop]; omega)]
  · simp [show stop - start = 0 by omega]

theorem digitAt_prefix_eq {front line : List Char} {i : Nat} (h : front <+: line)
    (hi : i < front.length) : digitAt front i = digitAt line i := by
  obtain ⟨back, rfl⟩ := h
  rw [digitAt, digitAt, List.getElem?_append_left hi]

theorem wordAt_dropReturn (line : List Char) (column : Nat) :
    wordAt (dropReturn line) column = wordAt line column := by
  apply Option.ext
  intro word
  rw [wordAt_eq_some_iff, wordAt_eq_some_iff, ← isRun_dropReturn line]
  refine and_congr_right fun hrun => ?_
  have hle := hrun.le_length
  have hlt := hrun.lt
  rw [extract_prefix_eq (prefix_dropReturn line) hle,
    digitAt_prefix_eq (prefix_dropReturn line) (i := word.start) (by omega)]

/-- **One word under the cursor.** The line that the index gives and the line that a reader sees, if
there is one, have the same word at every column. -/
theorem bind_wordAt_line? (text : List Char) (n column : Nat) :
    ((LineIndex.ofText text).line? text n).bind (wordAt · column) =
      (line? text n).bind (wordAt · column) := by
  rw [LineIndex.line?_ofText, line?]
  induction text using piecesInduction generalizing n with
  | last piece h =>
    rw [pieces_last h, lines_last h]
    cases n with
    | succ n => split <;> simp
    | zero =>
      simp only [List.getElem?_cons_zero, Option.map_some, Option.bind_some, wordAt_dropReturn]
      split
      next hnil => simp [hnil]
      next => rfl
  | more piece rest h ih =>
    rw [pieces_more h, lines_more h]
    cases n with
    | zero => rfl
    | succ n => simpa only [List.getElem?_cons_succ] using ih n

end Usages.Text
