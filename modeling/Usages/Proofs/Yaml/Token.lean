/-
The scanner on written text. Every written line starts at column zero, so the scanner comes to the
start of a line with no key pending (`Ready`); from there it takes a key, an entry of a list or the
end of the stream. `Reaches` joins such passages, and counts that none of them takes more steps
than characters.
-/
import Usages.Proofs.Except
import Usages.Proofs.Yaml.Block
import Usages.Yaml.Token

namespace Usages.Yaml.Scanner

/-! ## Spacing -/

/-- Spacing ends where a token starts. -/
theorem skipSpacing_start {inFlow keyAllowed : Bool} {fuel : Nat} {cursor : Cursor}
    (h : StartsLine cursor.rest) :
    skipSpacing inFlow (fuel + 1) keyAllowed cursor = (keyAllowed, cursor) := by
  cases hrest : cursor.rest with
  | nil => simp [skipSpacing, Cursor.peek?_zero, Cursor.skipWhile, Cursor.skipComment, hrest,
      Cursor.drop]
  | cons c rest =>
    obtain ⟨hspacing, hhash, hmark⟩ := h c (by rw [hrest]; rfl)
    simp only [isSpacing, isBlank, Bool.or_eq_false_iff, beq_eq_false_iff_ne] at hspacing
    obtain ⟨⟨hspace, htab⟩, hbreak⟩ := hspacing
    simp [skipSpacing, Cursor.peek?_zero, Cursor.skipWhile, Cursor.skipComment, hrest, Cursor.drop,
      hhash, hmark, hspace, htab, hbreak]

theorem skipSpacing_space {inFlow keyAllowed : Bool} {fuel : Nat} {cursor : Cursor} {c : Char}
    {rest : List Char} (h : cursor.rest = ' ' :: c :: rest) (hspacing : isSpacing c = false)
    (hhash : c ≠ '#') :
    skipSpacing inFlow (fuel + 1) keyAllowed cursor = (keyAllowed, cursor.next) := by
  simp only [isSpacing, isBlank, Bool.or_eq_false_iff, beq_eq_false_iff_ne] at hspacing
  obtain ⟨⟨hspace, htab⟩, hbreak⟩ := hspacing
  have hnext : cursor.next.rest = c :: rest := by rw [Cursor.rest_next, h]; rfl
  have hblanks : (cursor.rest.takeWhile fun c =>
      c == ' ' || ((inFlow || !keyAllowed) && c == '\t')) = [' '] := by
    simp [h, hspace, htab]
  have hskip : (cursor.skipWhile fun c =>
      c == ' ' || ((inFlow || !keyAllowed) && c == '\t')) = cursor.next := by
    rw [Cursor.skipWhile, hblanks]
    rfl
  have hcomment : cursor.next.skipComment = cursor.next := by
    rw [Cursor.skipComment, Cursor.peek?_zero, hnext, if_neg (by simpa using hhash)]
  have hstart : (cursor.index == 0 && cursor.peek? 0 == some '\uFEFF') = false := by
    simp [Cursor.peek?_zero, h]
  have hpeek : (cursor.next.peek? 0).any isBreak = false := by
    rw [Cursor.peek?_zero, hnext]
    exact hbreak
  rw [skipSpacing]
  simp only [hstart, Bool.false_eq_true, if_false, hskip, hcomment, hpeek]

/-- Behind a newline a key may start, unless it stands inside brackets. -/
theorem skipSpacing_newline {keyAllowed : Bool} {fuel : Nat} {cursor : Cursor} {rest : List Char}
    (h : cursor.rest = '\n' :: rest) (hrest : StartsLine rest) :
    skipSpacing false (fuel + 2) keyAllowed cursor = (true, cursor.next) := by
  have hnext : cursor.next.rest = rest := by rw [Cursor.rest_next, h]; rfl
  have hskip : (cursor.skipWhile fun c =>
      c == ' ' || ((false || !keyAllowed) && c == '\t')) = cursor := by
    rw [Cursor.skipWhile, h]
    simp [Cursor.drop]
  have hcomment : cursor.skipComment = cursor := by
    rw [Cursor.skipComment, Cursor.peek?_zero, h, if_neg (by simp)]
  have hbreak : cursor.skipBreak = cursor.next := by
    rw [Cursor.skipBreak, h]
    rfl
  have hstart : (cursor.index == 0 && cursor.peek? 0 == some '\uFEFF') = false := by
    simp [Cursor.peek?_zero, h]
  have hpeek : (cursor.peek? 0).any isBreak = true := by rw [Cursor.peek?_zero, h]; rfl
  rw [skipSpacing]
  simp only [hstart, Bool.false_eq_true, if_false, hskip, hcomment, hpeek, if_true, hbreak,
    Bool.not_false, Bool.or_true]
  exact skipSpacing_start (hnext.symm ▸ hrest)

/-! ## The start of a line -/

/-- Once spacing and stale candidates are gone, the scanner stands at the start of a line, with
`rest` to read, and a key may start there. -/
structure Ready (scanner : Scanner) (tokens : List Token) (indents : List Nat)
    (rest : List Char) : Prop where
  tokens_eq : scanner.tokens = tokens
  length_le : rest.length ≤ scanner.cursor.rest.length
  settles : ∃ cursor : Cursor, cursor.rest = rest ∧ cursor.column = 0 ∧
    scanner.skipToToken.dropStale = some ⟨cursor, tokens, indents, [none], true⟩

/-- The candidate is gone by the line of `cursor`, and nothing is missed with it. -/
def Expires (cursor : Cursor) (candidate : Option Candidate) : Prop :=
  ∀ old ∈ candidate, old.line < cursor.line ∧ old.required = false

theorem expires_none {cursor : Cursor} : Expires cursor none :=
  fun _ hold => by cases hold

theorem refresh_of_expires {cursor : Cursor} {candidate : Option Candidate}
    (h : Expires cursor candidate) : refresh cursor candidate = some none := by
  cases candidate with
  | none => rfl
  | some old =>
    obtain ⟨hline, hrequired⟩ := h old rfl
    simp [refresh, isStale, hline, hrequired]

theorem Ready.of_skip {cursor stop : Cursor} {tokens : List Token} {indents : List Nat}
    {candidate : Option Candidate} {keyAllowed : Bool} {rest : List Char}
    (hskip : skipSpacing false (cursor.rest.length + 1) keyAllowed cursor = (true, stop))
    (hrest : stop.rest = rest) (hcolumn : stop.column = 0)
    (hlength : rest.length ≤ cursor.rest.length) (hcandidate : Expires stop candidate) :
    Ready ⟨cursor, tokens, indents, [candidate], keyAllowed⟩ tokens indents rest := by
  refine ⟨rfl, hlength, stop, hrest, hcolumn, ?_⟩
  have hflow : inFlow ⟨cursor, tokens, indents, [candidate], keyAllowed⟩ = false := rfl
  rw [skipToToken, hflow, hskip]
  simp [dropStale, refresh_of_expires hcandidate]

/-- The scanner has just come to the start of a line. -/
theorem Ready.of_start {cursor : Cursor} {tokens : List Token} {indents : List Nat}
    {candidate : Option Candidate} {rest : List Char} (hcursor : cursor.rest = rest)
    (hcolumn : cursor.column = 0) (hrest : StartsLine rest)
    (hcandidate : Expires cursor candidate) :
    Ready ⟨cursor, tokens, indents, [candidate], true⟩ tokens indents rest :=
  .of_skip (skipSpacing_start (hcursor.symm ▸ hrest)) hcursor hcolumn
    (Nat.le_of_eq (congrArg _ hcursor.symm)) hcandidate

/-- The scanner stands before a newline. -/
theorem Ready.of_newline {cursor : Cursor} {tokens : List Token} {indents : List Nat}
    {candidate : Option Candidate} {keyAllowed : Bool} {rest : List Char}
    (hcursor : cursor.rest = '\n' :: rest) (hrest : StartsLine rest)
    (hcandidate : Expires cursor.next candidate) :
    Ready ⟨cursor, tokens, indents, [candidate], keyAllowed⟩ tokens indents rest := by
  have hafter := Cursor.lineAfter_next hcursor
  have hlength : cursor.rest.length = rest.length + 1 := by rw [hcursor]; rfl
  refine .of_skip ?_ hafter.rest_eq hafter.column_eq (by omega) hcandidate
  rw [hlength]
  exact skipSpacing_newline hcursor hrest

/-! ## Steps -/

/-- A block that starts no further in than `column` stays open. -/
theorem closeBlocks_of_le {scanner : Scanner} {column : Nat}
    (h : ∀ indent ∈ scanner.indents.head?, indent ≤ column) :
    scanner.closeBlocks (some column) = scanner := by
  rw [closeBlocks]
  split
  · rfl
  · cases hindents : scanner.indents with
    | nil =>
      cases scanner
      cases hindents
      simp
    | cons indent indents =>
      have hle := h indent (by rw [hindents]; rfl)
      cases scanner
      cases hindents
      simp [Nat.not_lt.2 hle]

theorem step_of_settled {scanner settled : Scanner}
    (h : scanner.skipToToken.dropStale = some settled)
    (hindent : ∀ indent ∈ settled.indents.head?, indent ≤ settled.cursor.column) :
    scanner.step = settled.token := by
  rw [step, h, Option.bind_eq_bind, Option.bind_some, closeBlocks_of_le hindent]

/-- From `scanner` the scanner comes to `stop`, in no more steps than it passes characters. -/
def Reaches (scanner stop : Scanner) : Prop :=
  ∃ steps, steps + stop.cursor.rest.length ≤ scanner.cursor.rest.length ∧
    ∀ fuel, run (fuel + steps) scanner = run fuel stop

theorem Reaches.refl (scanner : Scanner) : Reaches scanner scanner :=
  ⟨0, by omega, fun _ => rfl⟩

theorem Reaches.trans {scanner middle stop : Scanner} (h : Reaches scanner middle)
    (hstop : Reaches middle stop) : Reaches scanner stop := by
  obtain ⟨m, hm, hrun⟩ := h
  obtain ⟨n, hn, hrun'⟩ := hstop
  refine ⟨n + m, by omega, fun fuel => ?_⟩
  rw [← Nat.add_assoc, hrun, hrun']

theorem Reaches.of_step {scanner stop : Scanner} (h : scanner.step = some stop)
    (hlast : stop.tokens.getLast? ≠ some .streamEnd)
    (hlength : stop.cursor.rest.length < scanner.cursor.rest.length) : Reaches scanner stop := by
  refine ⟨1, by omega, fun fuel => ?_⟩
  rw [run, h, Option.bind_eq_bind, Option.bind_some, if_neg hlast]

/-- The end of the stream closes the block. -/
theorem Ready.run_end {scanner : Scanner} {tokens : List Token}
    (h : scanner.Ready tokens [0] []) (fuel : Nat) :
    run (fuel + 1) scanner = some (tokens ++ [.blockEnd, .streamEnd]) := by
  obtain ⟨cursor, hrest, hcolumn, hsettles⟩ := h.settles
  have hstep : scanner.step =
      some ⟨cursor, tokens ++ [.blockEnd, .streamEnd], [], [none], false⟩ := by
    rw [step_of_settled hsettles (by simp), token, Cursor.peek?_zero, hrest]
    simp [streamEnd, leaveBlocks, closeBlocks, inFlow, dropCandidate, allowKey, emit]
  rw [run, hstep, Option.bind_eq_bind, Option.bind_some, if_pos (by simp)]
  rfl

/-! ## Plain scalars -/

/-- A mark that starts a plain scalar has something close behind it. -/
theorem endsWord_of_not_lead {c : Char} {after : Option Char} (h : isLeadIndicator c after = false)
    (hc : c ∈ ['?', ':', '-']) : endsWord after = false := by
  rw [isLeadIndicator, Bool.or_eq_false_iff] at h
  have hword := h.2
  rwa [List.contains_iff_mem.2 hc, Bool.true_and] at hword

theorem startsPlain_of_not_lead {c : Char} {after : Option Char} (hspacing : isSpacing c = false)
    (h : isLeadIndicator c after = false) : startsPlain false c after = true := by
  by_cases hmark : c ∈ ['?', ':', '-']
  · have halone := endsWord_of_not_lead h hmark
    have hblank : after.any isBlank = false := by
      cases after with
      | none => rfl
      | some d => exact (Bool.or_eq_false_iff.1 halone).1
    simp only [List.mem_cons, List.not_mem_nil, or_false] at hmark
    rcases hmark with rfl | rfl | rfl <;> simp [startsPlain, halone, hblank]
  · have hindicator : isIndicator c = false := by
      have hfirst := (Bool.or_eq_false_iff.1 h).1
      simp only [List.mem_cons, List.not_mem_nil, or_false, not_or] at hmark
      simp only [List.contains_cons, List.contains_nil, Bool.or_false, Bool.or_eq_false_iff,
        beq_eq_false_iff_ne] at hfirst
      simp [isIndicator, hmark, hfirst]
    simp [startsPlain, hspacing, hindicator]

/-- Where no indicator stands, a plain scalar starts. -/
theorem token_plain {scanner : Scanner} {c : Char} {rest : List Char}
    (hcursor : scanner.cursor.rest = c :: rest) (hflow : scanner.inFlow = false)
    (hspacing : isSpacing c = false) (hlead : isLeadIndicator c rest.head? = false)
    (hmark : scanner.cursor.isAtDocumentMark = false) : scanner.token = scanner.plain := by
  have hstart := startsPlain_of_not_lead hspacing hlead
  have halone : ∀ d ∈ ['?', ':', '-'], (c == d && endsWord rest.head?) = false := by
    intro d hd
    cases hc : c == d with
    | false => rfl
    | true => exact endsWord_of_not_lead hlead (eq_of_beq hc ▸ hd)
  have hfirst := (Bool.or_eq_false_iff.1 hlead).1
  simp only [List.contains_cons, List.contains_nil, Bool.or_false, Bool.or_eq_false_iff] at hfirst
  rw [Cursor.isAtDocumentMark, Bool.or_eq_false_iff] at hmark
  rw [token, Cursor.peek?_zero, hcursor, List.head?_cons]
  simp only [Cursor.peek?_one hcursor, hflow, hfirst, hmark, hstart, halone '-' (by decide),
    halone '?' (by decide), halone ':' (by decide), Bool.and_false, Bool.false_and,
    Bool.false_or, Bool.false_eq_true, if_false, if_true]

theorem plain_of_read {scanner saved : Scanner} {text : List Char} {stop : Cursor} {broken : Bool}
    (hsave : scanner.saveCandidate = some saved)
    (hread : readPlain saved.context [] saved.cursor = some ⟨text, stop, broken⟩) :
    scanner.plain = some ⟨stop, saved.tokens ++ [.scalar .plain (String.ofList text)],
      saved.indents, saved.candidates, broken⟩ := by
  rw [plain, hsave, Option.bind_eq_bind, Option.bind_some, hread, Option.bind_eq_bind,
    Option.bind_some]
  rfl

/-! ## Keys -/

/-- Words that can be keys. -/
structure IsKey (key : List Char) : Prop where
  ne_nil : key ≠ []
  /-- The colon is found in time. -/
  length_le : key.length ≤ 1024
  isAlpha : ∀ c ∈ key, c.isAlpha = true

theorem ne_of_isAlpha {c d : Char} (h : c.isAlpha = true) (hd : d.isAlpha = false) : c ≠ d := by
  rintro rfl
  rw [h] at hd
  cases hd

theorem contains_of_isAlpha {c : Char} {marks : List Char} (h : c.isAlpha = true)
    (hmarks : marks.any Char.isAlpha = false) : marks.contains c = false :=
  eq_false_of_ne_true fun hc => List.any_eq_false.1 hmarks c (List.contains_iff_mem.1 hc) h

theorem isLeadIndicator_of_isAlpha {c : Char} (h : c.isAlpha = true) (after : Option Char) :
    isLeadIndicator c after = false := by
  rw [isLeadIndicator, Bool.or_eq_false_iff, Bool.and_eq_false_iff]
  exact ⟨contains_of_isAlpha h (by decide), .inl (contains_of_isAlpha h (by decide))⟩

theorem isSpacing_of_isAlpha {c : Char} (h : c.isAlpha = true) : isSpacing c = false := by
  simp only [isSpacing, isBlank, isBreak, Bool.or_eq_false_iff, beq_eq_false_iff_ne]
  refine ⟨⟨?_, ?_⟩, ⟨⟨⟨?_, ?_⟩, ?_⟩, ?_⟩, ?_⟩ <;> exact ne_of_isAlpha h (by decide)

theorem isPrintable_of_isAlpha {c : Char} (h : c.isAlpha = true) : isPrintable c = true := by
  have hrange : (65 ≤ c.toNat ∧ c.toNat ≤ 90) ∨ (97 ≤ c.toNat ∧ c.toNat ≤ 122) := by
    delta Char.isAlpha Char.isUpper Char.isLower at h
    simpa [UInt32.le_iff_toNat_le] using h
  simp only [isPrintable, Bool.or_eq_true, Bool.and_eq_true, beq_iff_eq, bne_iff_ne,
    decide_eq_true_eq]
  omega

/-- The token of a block that opens with its first key. -/
def opening : (indents : List Nat) → List Token
  | [] => [.blockMappingStart]
  | _ => []

theorem insertIdx_length (tokens more : List Token) (token : Token) :
    (tokens ++ more).insertIdx tokens.length token = tokens ++ token :: more := by
  induction tokens with
  | nil => rfl
  | cons first tokens ih => exact congrArg (first :: ·) ih

/-- The candidate of a key at the cursor, outside brackets. -/
def candidateAt (cursor : Cursor) (tokens : List Token) (indents : List Nat) : Candidate :=
  { position := tokens.length
    index := cursor.index
    line := cursor.line
    column := cursor.column
    required := indents.head? == some cursor.column }

/-- The candidate at the cursor, if a key may start there. -/
def savedAt (keyAllowed : Bool) (cursor : Cursor) (tokens : List Token) (indents : List Nat) :
    Option Candidate :=
  if keyAllowed then some (candidateAt cursor tokens indents) else none

theorem saveCandidate_none (keyAllowed : Bool) (cursor : Cursor) (tokens : List Token)
    (indents : List Nat) :
    saveCandidate ⟨cursor, tokens, indents, [none], keyAllowed⟩ =
      some ⟨cursor, tokens, indents, [savedAt keyAllowed cursor tokens indents], keyAllowed⟩ := by
  cases keyAllowed <;> rfl

/-- The word at the start of a line is a plain scalar, and a key may have started with it. -/
theorem Ready.step_word {scanner : Scanner} {tokens : List Token} {indents : List Nat}
    {key : String} {rest : List Char}
    (h : scanner.Ready tokens indents (key.toList ++ ':' :: rest))
    (hindents : ∀ indent ∈ indents.head?, indent = 0) (hkey : IsKey key.toList)
    (hrest : endsWord rest.head? = true) :
    ∃ start : Cursor, start.rest = key.toList ++ ':' :: rest ∧ start.column = 0 ∧
      scanner.step = some ⟨start.drop key.toList.length, tokens ++ [.scalar .plain key], indents,
        [some (candidateAt start tokens indents)], false⟩ := by
  obtain ⟨start, hstart, hcolumn, hsettles⟩ := h.settles
  refine ⟨start, hstart, hcolumn, ?_⟩
  obtain ⟨first, word, hword⟩ := List.exists_cons_of_ne_nil hkey.ne_nil
  have halpha := hkey.isAlpha
  have hcons : start.rest = first :: (word ++ ':' :: rest) := by rw [hstart, hword]; rfl
  have hfirst : first.isAlpha = true := halpha first (by rw [hword]; exact List.mem_cons_self)
  have hmark : start.isAtDocumentMark = false :=
    Cursor.isAtDocumentMark_of_head hcons (ne_of_isAlpha hfirst (by decide))
      (ne_of_isAlpha hfirst (by decide))
  have hread : readPlain ⟨indents.head?, false⟩ [] start =
      some ⟨key.toList, start.drop key.toList.length, false⟩ :=
    readPlain_word hstart hrest fun c hc =>
      ⟨isSpacing_of_isAlpha (halpha c hc), ne_of_isAlpha (halpha c hc) (by decide)⟩
  rw [step_of_settled hsettles fun indent hindent => by simp [hindents indent hindent],
    token_plain hcons rfl (isSpacing_of_isAlpha hfirst) (isLeadIndicator_of_isAlpha hfirst _) hmark,
    plain_of_read (saveCandidate_none true start tokens indents) hread, String.ofList_toList]
  rfl

/-- A colon makes a key of what starts at the candidate, and opens a block if none is open. -/
theorem valueMark_key {cursor : Cursor} {tokens : List Token} {indents : List Nat} {word : Token}
    {candidate : Candidate} (hindents : indents = [] ∨ indents = [0])
    (hposition : candidate.position = tokens.length) (hcolumn : candidate.column = 0) :
    valueMark ⟨cursor, tokens ++ [word], indents, [some candidate], false⟩ =
      some ⟨cursor.next, tokens ++ (opening indents ++ [.key, word, .value]), [0], [none],
        false⟩ := by
  rcases hindents with rfl | rfl <;>
    simp [valueMark, openBlock, inFlow, hposition, hcolumn, insertIdx_length, opening, punctuation,
      emit, moveTo, allowKey]

theorem token_colon {scanner : Scanner} {rest : List Char}
    (hcursor : scanner.cursor.rest = ':' :: rest) (hrest : endsWord rest.head? = true) :
    scanner.token = scanner.valueMark := by
  rw [token, Cursor.peek?_zero, hcursor, List.head?_cons]
  simp [Cursor.peek?_one hcursor, Cursor.isAtMark_of_head hcursor, hrest]

/-- Where a token starts, spacing and fresh candidates stay as they are. -/
theorem settled_of_start (scanner : Scanner) (hstart : StartsLine scanner.cursor.rest)
    (hfresh : ∀ candidate ∈ scanner.candidates, ∀ old ∈ candidate,
      isStale scanner.cursor old = false) :
    scanner.skipToToken.dropStale = some scanner := by
  have hskip : scanner.skipToToken = scanner := by
    rw [skipToToken, skipSpacing_start hstart]
  have hkeep : ∀ candidate ∈ scanner.candidates,
      refresh scanner.cursor (id candidate) = some candidate := by
    intro candidate hcandidate
    cases candidate with
    | none => rfl
    | some old => exact if_neg (ne_true_of_eq_false (hfresh _ hcandidate old rfl))
  have hrefresh := mapM_map_eq_some hkeep
  rw [List.map_id] at hrefresh
  rw [hskip, dropStale, hrefresh]
  rfl

theorem step_colon {cursor : Cursor} {tokens : List Token} {indents : List Nat}
    {candidate : Candidate} {rest : List Char} (word : Token) (hcursor : cursor.rest = ':' :: rest)
    (hrest : endsWord rest.head? = true) (hindents : indents = [] ∨ indents = [0])
    (hposition : candidate.position = tokens.length) (hcolumn : candidate.column = 0)
    (hfresh : isStale cursor candidate = false) :
    step ⟨cursor, tokens ++ [word], indents, [some candidate], false⟩ =
      some ⟨cursor.next, tokens ++ (opening indents ++ [.key, word, .value]), [0], [none],
        false⟩ := by
  have hstart : StartsLine cursor.rest := by
    rw [hcursor]
    exact startsLine_cons (by decide) (by decide) (by decide)
  have hsettled := settled_of_start
    ⟨cursor, tokens ++ [word], indents, [some candidate], false⟩ hstart (by simpa using hfresh)
  rw [step_of_settled hsettled (by rcases hindents with rfl | rfl <;> simp),
    token_colon hcursor hrest, valueMark_key hindents hposition hcolumn]

/-- A key is taken with the colon behind it. -/
theorem Ready.reaches_key {scanner : Scanner} {tokens : List Token} {indents : List Nat}
    {key : String} {rest : List Char}
    (h : scanner.Ready tokens indents (key.toList ++ ':' :: rest))
    (hindents : indents = [] ∨ indents = [0]) (hkey : IsKey key.toList)
    (hrest : endsWord rest.head? = true) :
    ∃ cursor : Cursor, cursor.rest = rest ∧
      Reaches scanner ⟨cursor, tokens ++ (opening indents ++ [.key, .scalar .plain key, .value]),
        [0], [none], false⟩ := by
  obtain ⟨start, hstart, hcolumn, hword⟩ :=
    h.step_word (by rcases hindents with rfl | rfl <;> simp) hkey hrest
  have hstop := Cursor.drop_of_no_break hstart fun c hc =>
    (Bool.or_eq_false_iff.1 (isSpacing_of_isAlpha (hkey.isAlpha c hc))).2
  have hfresh : isStale (start.drop key.toList.length) (candidateAt start tokens indents) =
      false := by
    have hshort := hkey.length_le
    simp [hstop, isStale, candidateAt]
    omega
  have hrest' : (start.drop key.toList.length).rest = ':' :: rest := by rw [hstop]
  have hcolon := step_colon (.scalar .plain key) hrest' hrest hindents rfl hcolumn hfresh
  have hnext := Cursor.next_of_not_break hrest' (by decide)
  have hpos := List.length_pos_iff.2 hkey.ne_nil
  have hlength := h.length_le
  rw [List.length_append, List.length_cons] at hlength
  refine ⟨(start.drop key.toList.length).next, by rw [hnext],
    (Reaches.of_step hword (by simp) ?_).trans (.of_step hcolon (by simp) ?_)⟩
  · simp only [hrest', List.length_cons]
    omega
  · simp only [hnext, hrest', List.length_cons]
    omega

/-! ## Values -/

/-- What makes a text plain, by its first character. -/
structure PlainText (c : Char) (text : List Char) : Prop where
  inline : ∀ d ∈ c :: text, isPrintable d = true ∧ isBreak d = false
  not_spacing : isSpacing c = false
  not_lead : isLeadIndicator c text.head? = false
  not_inner : hasInnerIndicator c text = false
  last_ne : (c :: text).getLast? ≠ some ' '

theorem plainText_of_allowsPlain {c : Char} {text : List Char}
    (h : allowsPlain (c :: text) = true) : PlainText c text := by
  simp only [allowsPlain, needsEscapes, hasIndicator, Bool.and_eq_true, Bool.not_eq_true',
    Bool.or_eq_false_iff, bne_iff_ne, List.any_eq_false, Bool.not_eq_true, List.head?_cons] at h
  obtain ⟨⟨⟨⟨⟨hprintable, -⟩, hbreak⟩, -, hlead, hinner⟩, hhead⟩, hlast⟩ := h
  have hinline : ∀ d ∈ c :: text, isPrintable d = true ∧ isBreak d = false := fun d hd =>
    ⟨by simpa using hprintable d hd, hbreak d hd⟩
  obtain ⟨hfirst, hbreak⟩ := hinline c List.mem_cons_self
  refine ⟨hinline, ?_, hlead, hinner, hlast⟩
  have hspace : c ≠ ' ' := fun hc => hhead (congrArg some hc)
  exact isSpacing_of_isPrintable hfirst hspace hbreak

theorem PlainText.hasInnerIndicator {c : Char} {text : List Char} (h : PlainText c text) :
    hasInnerIndicator c (c :: text) = false := by
  have hcolon : (c == ':' && endsWord text.head?) = false := by
    cases hc : c == ':' with
    | false => rfl
    | true => exact endsWord_of_not_lead h.not_lead (by rw [eq_of_beq hc]; decide)
  rw [Yaml.hasInnerIndicator, isInnerIndicator, hcolon, h.not_spacing, h.not_inner, Bool.and_false]
  rfl

theorem PlainText.ne_hash {c : Char} {text : List Char} (h : PlainText c text) : c ≠ '#' := by
  rintro rfl
  exact absurd h.not_lead (by simp [isLeadIndicator])

/-- At the scanner stands this token, and behind it the line ends and `rest` starts the next. -/
def Takes (scanner : Scanner) (token : Token) (rest : List Char) : Prop :=
  ∃ stop, scanner.token = some stop ∧ stop.Ready (scanner.tokens ++ [token]) scanner.indents rest ∧
    stop.cursor.rest.length < scanner.cursor.rest.length

/-- A value that stands behind its key or dash can be no key once its line has ended. -/
theorem expires_savedAt {keyAllowed : Bool} {cursor stop : Cursor} {tokens : List Token}
    (hcolumn : 0 < cursor.column) (hline : cursor.line < stop.line) :
    Expires stop (savedAt keyAllowed cursor tokens [0]) := by
  intro old hold
  cases keyAllowed with
  | false => cases hold
  | true =>
    cases hold
    refine ⟨hline, ?_⟩
    have hne : 0 ≠ cursor.column := Nat.ne_of_lt hcolumn
    simpa [candidateAt] using hne

/-- Text that is written plain is read back plain. -/
theorem takes_plain {cursor : Cursor} {tokens : List Token} {keyAllowed : Bool} {text : String}
    {rest : List Char} (hcursor : cursor.rest = text.toList ++ '\n' :: rest)
    (hcolumn : 0 < cursor.column) (htext : allowsPlain text.toList = true) (hne : text ≠ "")
    (hrest : StartsLine rest) :
    Takes ⟨cursor, tokens, [0], [none], keyAllowed⟩ (.scalar .plain text) rest := by
  obtain ⟨c, more, hcons⟩ := List.exists_cons_of_ne_nil (mt String.toList_eq_nil_iff.1 hne)
  have hplain : PlainText c more := plainText_of_allowsPlain (hcons ▸ htext)
  rw [hcons] at hcursor
  obtain ⟨stop, hafter, hread⟩ := @readPlain_line _ _ 0 c cursor hcursor hcolumn hplain.inline
    hplain.hasInnerIndicator (fun h => absurd h (Nat.lt_irrefl 0)) hplain.last_ne hrest
  have hlead : isLeadIndicator c (more ++ '\n' :: rest).head? = false := by
    rw [isLeadIndicator, endsWord_line]
    exact hplain.not_lead
  have htoken : token ⟨cursor, tokens, [0], [none], keyAllowed⟩ =
      some ⟨stop, tokens ++ [.scalar .plain text], [0], [savedAt keyAllowed cursor tokens [0]],
        true⟩ := by
    have hsaved := plain_of_read (saveCandidate_none keyAllowed cursor tokens [0]) hread
    rw [List.replicate_zero, List.nil_append, ← hcons, String.ofList_toList] at hsaved
    rw [token_plain hcursor rfl hplain.not_spacing hlead
      (Cursor.isAtDocumentMark_of_column hcolumn), hsaved]
  refine ⟨_, htoken, .of_start hafter.rest_eq hafter.column_eq hrest
    (expires_savedAt hcolumn hafter.line_lt), ?_⟩
  simp only [hafter.rest_eq, hcursor, List.length_append, List.length_cons]
  omega

/-! ## Quoted text -/

theorem keyPart_of_read {scanner saved : Scanner} {token : Token} {stop : Cursor}
    {read : Cursor → Option (Token × Cursor)} (hsave : scanner.saveCandidate = some saved)
    (hread : read saved.cursor = some (token, stop)) :
    scanner.keyPart read =
      some ⟨stop, saved.tokens ++ [token], saved.indents, saved.candidates, false⟩ := by
  rw [keyPart, hsave, Option.bind_eq_bind, Option.bind_some, hread, Option.bind_eq_bind,
    Option.bind_some]
  rfl

theorem token_quote {scanner : Scanner} {rest : List Char}
    (hcursor : scanner.cursor.rest = '\x27' :: rest) :
    scanner.token = scanner.keyPart (readQuoted .singleQuoted) := by
  rw [token, Cursor.peek?_zero, hcursor, List.head?_cons]
  simp [Cursor.isAtMark_of_head hcursor]

theorem token_doubleQuote {scanner : Scanner} {rest : List Char}
    (hcursor : scanner.cursor.rest = '"' :: rest) :
    scanner.token = scanner.keyPart (readQuoted .doubleQuoted) := by
  rw [token, Cursor.peek?_zero, hcursor, List.head?_cons]
  simp [Cursor.isAtMark_of_head hcursor]

theorem token_bar {scanner : Scanner} {rest : List Char}
    (hcursor : scanner.cursor.rest = '|' :: rest) (hflow : scanner.inFlow = false) :
    scanner.token = scanner.block .literal := by
  rw [token, Cursor.peek?_zero, hcursor, List.head?_cons]
  simp [Cursor.isAtMark_of_head hcursor, hflow]

/-- Quoted text is taken once its reader comes to the end of the line. -/
theorem takes_quoted {cursor : Cursor} {tokens : List Token} {keyAllowed : Bool} {style : Style}
    {text : String} {rest : List Char} {n : Nat}
    (htoken : token ⟨cursor, tokens, [0], [none], keyAllowed⟩ =
      keyPart (readQuoted style) ⟨cursor, tokens, [0], [none], keyAllowed⟩)
    (hread : readQuoted style cursor = some (.scalar style text, cursor.next.drop n))
    (hstop : (cursor.next.drop n).rest = '\n' :: rest) (hcolumn : 0 < cursor.column)
    (hrest : StartsLine rest) :
    Takes ⟨cursor, tokens, [0], [none], keyAllowed⟩ (.scalar style text) rest := by
  have hafter : cursor.LineAfter rest (cursor.next.drop n).next :=
    (Cursor.lineAfter_next hstop).of_drop (n := n + 1)
  refine ⟨_, htoken.trans (keyPart_of_read (saveCandidate_none ..) hread),
    .of_newline hstop hrest (expires_savedAt hcolumn hafter.line_lt), ?_⟩
  refine length_drop_lt (n := n + 1) (fun hnil => ?_) (Nat.succ_pos n)
  rw [Cursor.rest_drop, Cursor.rest_next, show cursor.rest = [] from hnil, List.drop_nil,
    List.drop_nil] at hstop
  cases hstop

theorem takes_single {cursor : Cursor} {tokens : List Token} {keyAllowed : Bool} {text : String}
    {rest : List Char} (hcursor : cursor.rest = writeSingle text.toList ++ '\n' :: rest)
    (hcolumn : 0 < cursor.column) (hprintable : ∀ c ∈ text.toList, isPrintable c = true)
    (hspaced : hasPair isSpaceChar isBreak text.toList = false)
    (hbroken : hasPair isBreak isSpaceChar text.toList = false) (hline : '\n' ∉ text.toList)
    (hrest : StartsLine rest) :
    Takes ⟨cursor, tokens, [0], [none], keyAllowed⟩ (.scalar .singleQuoted text) rest := by
  have hcons : cursor.rest =
      '\x27' :: (writeSingleFrom false text.toList ++ '\x27' :: '\n' :: rest) := by
    rw [hcursor, writeSingle]
    simp
  have hnext := Cursor.next_of_not_break hcons (by decide)
  have hbody : cursor.next.rest =
      writeSingleFrom false text.toList ++ '\x27' :: '\n' :: rest := by
    rw [hnext]
  have hinside : 0 < cursor.next.column := by
    rw [hnext]
    exact Nat.succ_pos _
  have hpending : Pending false [] := fun c hc => absurd hc List.not_mem_nil
  obtain ⟨n, hstop, hread⟩ := readSingleQuoted_writeSingleFrom (by simp) hpending hbody
    (fun _ => hinside) (fun c hc => ⟨hprintable c hc, fun h => hline (h ▸ hc)⟩) hspaced hbroken
  refine takes_quoted (token_quote hcons) ?_ hstop hcolumn hrest
  simp [readQuoted, hread]

theorem takes_double {cursor : Cursor} {tokens : List Token} {keyAllowed : Bool} {text : String}
    {rest : List Char} (hcursor : cursor.rest = writeDouble text.toList ++ '\n' :: rest)
    (hcolumn : 0 < cursor.column) (hrest : StartsLine rest) :
    Takes ⟨cursor, tokens, [0], [none], keyAllowed⟩ (.scalar .doubleQuoted text) rest := by
  have hcons : cursor.rest = '"' :: (text.toList.flatMap escapeDouble ++ '"' :: '\n' :: rest) := by
    rw [hcursor, writeDouble]
    simp
  have hnext := Cursor.next_of_not_break hcons (by decide)
  have hbody : cursor.next.rest = text.toList.flatMap escapeDouble ++ '"' :: '\n' :: rest := by
    rw [hnext]
  have hinside : 0 < cursor.next.column := by
    rw [hnext]
    exact Nat.succ_pos _
  obtain ⟨n, hstop, hread⟩ := readDoubleQuoted_flatMap_escapeDouble 0 hbody hinside
  refine takes_quoted (token_doubleQuote hcons) ?_ hstop hcolumn hrest
  have hread' : readDoubleQuoted {} cursor.next = some (text.toList, cursor.next.drop n) := hread
  simp [readQuoted, hread']

/-! ## Blocks -/

theorem takes_literal {cursor : Cursor} {tokens : List Token} {keyAllowed : Bool} {text : String}
    {rest : List Char}
    (hcursor : cursor.rest = writeLiteral text.toList ++ (closing text.toList ++ rest))
    (hne : text.toList ≠ []) (hprintable : ∀ c ∈ text.toList, isPrintable c = true)
    (hrest : StartsLine rest) :
    Takes ⟨cursor, tokens, [0], [none], keyAllowed⟩ (.scalar .literal text) rest := by
  have hcons : cursor.rest = '|' :: (indentHint text.toList ++ (chompHint text.toList ++
      '\n' :: (writeLiteralFrom true text.toList ++ (closing text.toList ++ rest)))) := by
    rw [hcursor, writeLiteral]
    simp
  have hnext := Cursor.next_of_not_break hcons (by decide)
  have hbody : cursor.next.rest = indentHint text.toList ++ (chompHint text.toList ++
      '\n' :: (writeLiteralFrom true text.toList ++ (closing text.toList ++ rest))) := by
    rw [hnext]
  obtain ⟨stop, hafter, hread⟩ := readBlock_writeLiteral hne hprintable hrest hbody
  have htoken : token ⟨cursor, tokens, [0], [none], keyAllowed⟩ =
      some ⟨stop, tokens ++ [.scalar .literal text], [0], [none], true⟩ := by
    have hstyle : (Style.literal == .folded) = false := rfl
    have hcontext : context ⟨cursor, tokens, [0], [none], keyAllowed⟩ = ⟨some 0, false⟩ := rfl
    rw [token_bar hcons rfl]
    simp [block, dropCandidate, hstyle, hcontext, hread, emit, moveTo, allowKey]
  refine ⟨_, htoken, .of_start hafter.rest_eq hafter.column_eq hrest expires_none, ?_⟩
  simp only [hafter.rest_eq, hcons, List.length_append, List.length_cons]
  omega

/-! ## Items of a list -/

theorem styleOf_cases (text : String) :
    (styleOf text = .plain ∧ text ≠ "" ∧ allowsPlain text.toList = true) ∨
    (styleOf text = .singleQuoted ∧ '\n' ∉ text.toList ∧ allowsSingleQuoted text.toList = true) ∨
    styleOf text = .doubleQuoted ∨
    (styleOf text = .literal ∧ '\n' ∈ text.toList ∧ allowsLiteral text.toList = true) := by
  unfold styleOf
  by_cases hline : text.toList.contains '\n' = true
  · rw [if_pos hline]
    by_cases hliteral : allowsLiteral text.toList = true
    · rw [if_pos hliteral]
      exact .inr (.inr (.inr ⟨rfl, List.contains_iff_mem.1 hline, hliteral⟩))
    · rw [if_neg hliteral]
      exact .inr (.inr (.inl rfl))
  · rw [if_neg hline]
    by_cases hplain : (!isAmbiguous text && allowsPlain text.toList) = true
    · rw [if_pos hplain]
      rw [Bool.and_eq_true] at hplain
      refine .inl ⟨rfl, ?_, hplain.2⟩
      rintro rfl
      exact absurd hplain.1 (by decide)
    · rw [if_neg hplain]
      by_cases hsingle : allowsSingleQuoted text.toList = true
      · rw [if_pos hsingle]
        exact .inr (.inl ⟨rfl, fun hmem => hline (List.contains_iff_mem.2 hmem), hsingle⟩)
      · rw [if_neg hsingle]
        exact .inr (.inr (.inl rfl))

theorem isPrintable_of_not_needsEscapes {text : List Char} (h : needsEscapes text = false) :
    ∀ c ∈ text, isPrintable c = true := by
  simp only [needsEscapes, Bool.or_eq_false_iff, List.any_eq_false, Bool.not_eq_true',
    Bool.not_eq_false] at h
  exact h.1

theorem needsEscapes_of_allowsPlain {text : List Char} (h : allowsPlain text = true) :
    needsEscapes text = false := by
  simp only [allowsPlain, Bool.and_eq_true, Bool.not_eq_true'] at h
  exact h.1.1.1.1

/-- Only double quotes can hold a character that is not printable. -/
theorem isPrintable_of_styleOf {text : String} (h : styleOf text ≠ .doubleQuoted) :
    ∀ c ∈ text.toList, isPrintable c = true := by
  refine isPrintable_of_not_needsEscapes ?_
  rcases styleOf_cases text with ⟨-, -, htext⟩ | ⟨-, -, htext⟩ | hstyle | ⟨-, -, htext⟩
  · exact needsEscapes_of_allowsPlain htext
  · simp only [allowsSingleQuoted, Bool.and_eq_true, Bool.not_eq_true'] at htext
    exact htext.1
  · exact absurd hstyle h
  · simp only [allowsLiteral, Bool.and_eq_true, Bool.not_eq_true'] at htext
    exact htext.1

/-- An item is taken as the text it was written for. -/
theorem takes_item {cursor : Cursor} {tokens : List Token} {keyAllowed : Bool} {text : String}
    {rest : List Char} (hcursor : cursor.rest = writeItem text ++ rest)
    (hcolumn : 0 < cursor.column) (hrest : StartsLine rest) :
    Takes ⟨cursor, tokens, [0], [none], keyAllowed⟩ (.scalar (styleOf text) text) rest := by
  unfold writeItem at hcursor
  rcases styleOf_cases text with ⟨hstyle, hne, htext⟩ | ⟨hstyle, hline, htext⟩ | hstyle |
    ⟨hstyle, hline, htext⟩
  · rw [hstyle] at hcursor ⊢
    exact takes_plain (by simpa using hcursor) hcolumn htext hne hrest
  · have hprintable := isPrintable_of_styleOf (by rw [hstyle]; decide)
    simp only [allowsSingleQuoted, needsEscapes, Bool.and_eq_true, Bool.not_eq_true',
      Bool.or_eq_false_iff] at htext
    rw [hstyle] at hcursor ⊢
    exact takes_single (by simpa using hcursor) hcolumn hprintable htext.1.2 htext.2 hline hrest
  · rw [hstyle] at hcursor ⊢
    exact takes_double (by simpa using hcursor) hcolumn hrest
  · have hprintable := isPrintable_of_styleOf (by rw [hstyle]; decide)
    rw [hstyle] at hcursor ⊢
    exact takes_literal (by simpa [closing] using hcursor) (List.ne_nil_of_mem hline) hprintable
      hrest

/-- A written item starts with a character that no spacing starts with. -/
theorem writeItem_cons (text : String) :
    ∃ c more, writeItem text = c :: more ∧ isSpacing c = false ∧ c ≠ '#' := by
  unfold writeItem
  rcases styleOf_cases text with ⟨hstyle, hne, htext⟩ | ⟨hstyle, -, -⟩ | hstyle | ⟨hstyle, -, -⟩
  · obtain ⟨c, more, hcons⟩ := List.exists_cons_of_ne_nil (mt String.toList_eq_nil_iff.1 hne)
    have hplain : PlainText c more := plainText_of_allowsPlain (hcons ▸ htext)
    rw [hstyle]
    exact ⟨c, more ++ ['\n'], by simp [hcons], hplain.not_spacing, hplain.ne_hash⟩
  · rw [hstyle]
    exact ⟨'\x27', _, rfl, by decide, by decide⟩
  · rw [hstyle]
    exact ⟨'"', _, rfl, by decide, by decide⟩
  · rw [hstyle]
    exact ⟨'|', _, rfl, by decide, by decide⟩

/-! ## Lines -/

theorem step_space {cursor : Cursor} {tokens : List Token} {keyAllowed : Bool} {c : Char}
    {rest : List Char} (hcursor : cursor.rest = ' ' :: c :: rest) (hspacing : isSpacing c = false)
    (hhash : c ≠ '#') :
    step ⟨cursor, tokens, [0], [none], keyAllowed⟩ =
      token ⟨cursor.next, tokens, [0], [none], keyAllowed⟩ := by
  refine step_of_settled ?_ (by simp)
  rw [skipToToken, skipSpacing_space hcursor hspacing hhash]
  rfl

/-- A value is taken over the blank in front of it. -/
theorem Takes.reaches {cursor : Cursor} {tokens : List Token} {keyAllowed : Bool} {token : Token}
    {c : Char} {more rest : List Char}
    (h : Takes ⟨cursor.next, tokens, [0], [none], keyAllowed⟩ token rest)
    (hcursor : cursor.rest = ' ' :: c :: more) (hspacing : isSpacing c = false) (hhash : c ≠ '#')
    (htoken : token ≠ .streamEnd) :
    ∃ stop, Reaches ⟨cursor, tokens, [0], [none], keyAllowed⟩ stop ∧
      stop.Ready (tokens ++ [token]) [0] rest := by
  obtain ⟨stop, hstop, hready, hlength⟩ := h
  refine ⟨stop, .of_step ((step_space hcursor hspacing hhash).trans hstop) ?_ ?_, hready⟩
  · rw [hready.tokens_eq]
    simpa using htoken
  · refine Nat.lt_trans hlength ?_
    exact Cursor.length_next_lt (by rw [hcursor]; exact List.cons_ne_nil _ _)

theorem Ready.step_dash {scanner : Scanner} {tokens : List Token} {rest : List Char}
    (h : scanner.Ready tokens [0] ('-' :: ' ' :: rest)) :
    ∃ cursor : Cursor, cursor.rest = ' ' :: rest ∧
      Reaches scanner ⟨cursor, tokens ++ [.blockEntry], [0], [none], true⟩ := by
  obtain ⟨start, hstart, hcolumn, hsettles⟩ := h.settles
  have hnext := Cursor.next_of_not_break hstart (by decide)
  have hstep : scanner.step = some ⟨start.next, tokens ++ [.blockEntry], [0], [none], true⟩ := by
    rw [step_of_settled hsettles (by simp), token, Cursor.peek?_zero, hstart, List.head?_cons]
    simp [Cursor.peek?_one hstart, Cursor.isAtMark, hstart, endsWord, isSpacing, isBlank,
      blockEntry, openBlockHere, openBlock, inFlow, dropCandidate, punctuation, emit, moveTo,
      allowKey, hcolumn]
  have hlength := h.length_le
  refine ⟨start.next, by rw [hnext], .of_step hstep (by simp) ?_⟩
  simp only [hnext, List.length_cons] at hlength ⊢
  omega

/-- An entry of a list is taken with its text. -/
theorem Ready.reaches_item {scanner : Scanner} {tokens : List Token} {text : String}
    {rest : List Char} (h : scanner.Ready tokens [0] ('-' :: ' ' :: (writeItem text ++ rest)))
    (hrest : StartsLine rest) :
    ∃ stop, Reaches scanner stop ∧
      stop.Ready (tokens ++ [.blockEntry, .scalar (styleOf text) text]) [0] rest := by
  obtain ⟨cursor, hcursor, hdash⟩ := h.step_dash
  obtain ⟨c, more, hcons, hspacing, hhash⟩ := writeItem_cons text
  have hnext := Cursor.next_of_not_break hcursor (by decide)
  have htakes : Takes ⟨cursor.next, tokens ++ [.blockEntry], [0], [none], true⟩
      (.scalar (styleOf text) text) rest :=
    takes_item (by rw [hnext]) (by rw [hnext]; exact Nat.succ_pos _) hrest
  rw [hcons] at hcursor
  obtain ⟨stop, hreaches, hready⟩ := htakes.reaches hcursor hspacing hhash (by simp)
  refine ⟨stop, hdash.trans hreaches, ?_⟩
  rwa [List.append_assoc] at hready

end Usages.Yaml.Scanner
