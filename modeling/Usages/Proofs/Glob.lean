/-
What a pattern that ends in `/**` says about the pattern without that ending. It covers everything
below the directories that the shorter one accepts, unless that one itself ends in `**/`
(`tokensFrom_deepens`); and it is faulty where the shorter one is (`tokensFrom_faulty`).
-/
import Usages.Filter
import Usages.Proofs.Except

namespace Usages

namespace Glob

/-! ## Texts covered token by token -/

/-- The token can stand for `front` when `back` follows. -/
def Token.Takes : Token → (front back : List Char) → Prop
  | .char c, front, _ => front = [c]
  | .anyChar, front, _ => ∃ d, front = [d]
  | .anyWithin set, front, _ => ∃ d, front = [d] ∧ set.any (·.contains d) = true
  | .anyExcept set, front, _ => ∃ d, front = [d] ∧ set.any (·.contains d) = false
  | .anySequence, _, _ => True
  | .anyComponents, front, back => front = [] ∨ front.getLast? = some '/' ∨ back = []

theorem anySuffix_iff {p : List Char → Bool} {text : List Char} :
    anySuffix p text = true ↔ ∃ front back, text = front ++ back ∧ p back = true := by
  induction text with
  | nil =>
    simp only [anySuffix]
    exact ⟨fun h => ⟨[], [], rfl, h⟩, fun ⟨_, _, h, hp⟩ => (List.append_eq_nil_iff.1 h.symm).2 ▸ hp⟩
  | cons c rest ih =>
    simp only [anySuffix, Bool.or_eq_true, ih]
    constructor
    · rintro (h | ⟨front, back, rfl, h⟩)
      · exact ⟨[], c :: rest, rfl, h⟩
      · exact ⟨c :: front, back, rfl, h⟩
    · rintro ⟨front, back, h, hp⟩
      cases front with
      | nil => exact .inl (by rw [h]; exact hp)
      | cons d front =>
        cases h
        exact .inr ⟨front, back, rfl, hp⟩

theorem afterSlash_iff {p : List Char → Bool} {text : List Char} :
    afterSlash p text = true ↔
      ∃ front back, text = front ++ back ∧ (front.getLast? = some '/' ∨ back = []) ∧
        p back = true := by
  induction text with
  | nil =>
    simp only [afterSlash]
    refine ⟨fun h => ⟨[], [], rfl, .inr rfl, h⟩, fun ⟨front, back, h, _, hp⟩ => ?_⟩
    rw [(List.append_eq_nil_iff.1 h.symm).2] at hp
    exact hp
  | cons c rest ih =>
    simp only [afterSlash, Bool.or_eq_true, Bool.and_eq_true, beq_iff_eq, ih]
    constructor
    · rintro (⟨rfl, h⟩ | ⟨front, back, rfl, hback, h⟩)
      · exact ⟨['/'], rest, rfl, .inl rfl, h⟩
      · refine ⟨c :: front, back, rfl, hback.imp_left fun hlast => ?_, h⟩
        rw [List.getLast?_cons, hlast]
        rfl
    · rintro ⟨front, back, h, hback, hp⟩
      match front, h with
      | [], h =>
        have hnil : back = [] := hback.resolve_left (by simp)
        rw [hnil] at h
        cases h
      | [d], h =>
        cases h
        rcases hback with hslash | hnil
        · exact .inl ⟨Option.some.inj hslash, hp⟩
        · exact .inr ⟨[], back, rfl, .inr hnil, hp⟩
      | d :: e :: front, h =>
        cases h
        refine .inr ⟨e :: front, back, rfl, hback.imp_left fun hlast => ?_, hp⟩
        rwa [List.getLast?_cons_cons] at hlast

/-- The first token stands for some front of the text, and the others cover what is left. -/
theorem covers_cons {token : Token} {tokens : List Token} {text : List Char} :
    covers (token :: tokens) text = true ↔
      ∃ front back, text = front ++ back ∧ token.Takes front back ∧
        covers tokens back = true := by
  cases token with
  | anySequence =>
    rw [covers, anySuffix_iff]
    simp [Token.Takes]
  | anyComponents =>
    rw [covers, Bool.or_eq_true, afterSlash_iff]
    constructor
    · rintro (h | ⟨front, back, rfl, hback, h⟩)
      · exact ⟨[], text, rfl, .inl rfl, h⟩
      · exact ⟨front, back, rfl, .inr hback, h⟩
    · rintro ⟨front, back, rfl, rfl | hback, h⟩
      · exact .inl h
      · exact .inr ⟨front, back, rfl, hback, h⟩
  | char | anyChar | anyWithin | anyExcept =>
    cases text with
    | nil =>
      simp only [covers, Bool.false_eq_true, false_iff]
      rintro ⟨front, back, h, htakes, -⟩
      obtain ⟨rfl, -⟩ := List.append_eq_nil_iff.1 h.symm
      simp [Token.Takes] at htakes
    | cons d text =>
      simp only [covers, Bool.and_eq_true, beq_iff_eq, Bool.not_eq_true', Token.Takes]
      constructor
      · intro h
        exact ⟨[d], text, rfl, by grind⟩
      · rintro ⟨front, back, h, htakes, hback⟩
        have hone : front = [d] := by grind
        grind

theorem Token.Takes.all {token : Token} (h : token.Takes [] []) (text : List Char) :
    token.Takes text [] := by
  cases token with
  | anySequence => trivial
  | anyComponents => exact .inr (.inr rfl)
  | char | anyChar | anyWithin | anyExcept => simp [Token.Takes] at h

theorem Token.Takes.append {token : Token} {front back : List Char} (h : token.Takes front back)
    (hback : token ≠ .anyComponents ∨ back ≠ []) (rest : List Char) :
    token.Takes front (back ++ rest) := by
  cases token with
  | anyComponents =>
    rcases h with hfront | hfront | hnil
    · exact .inl hfront
    · exact .inr (.inl hfront)
    · exact (hback.resolve_left (fun h => h rfl) hnil).elim
  | char | anyChar | anyWithin | anyExcept | anySequence => exact h

/-- Tokens that cover nothing cover everything. -/
theorem covers_of_covers_nil {tokens : List Token} (hne : tokens ≠ [])
    (h : covers tokens [] = true) (text : List Char) : covers tokens text = true := by
  cases tokens with
  | nil => exact (hne rfl).elim
  | cons token tokens =>
    obtain ⟨front, back, hnil, htakes, hback⟩ := covers_cons.1 h
    obtain ⟨rfl, rfl⟩ := List.append_eq_nil_iff.1 hnil.symm
    exact covers_cons.2 ⟨text, [], by simp, htakes.all text, hback⟩

/-- If the last tokens can be replaced when the text goes on, so they can behind other tokens. -/
theorem covers_replace_last {last more : List Token} {rest : List Char} (hne : last ≠ [])
    (hlast : ∀ back, covers last back = true → covers more (back ++ rest) = true)
    (tokens : List Token) {text : List Char} (h : covers (tokens ++ last) text = true) :
    covers (tokens ++ more) (text ++ rest) = true := by
  induction tokens generalizing text with
  | nil => exact hlast text h
  | cons token tokens ih =>
    obtain ⟨front, back, rfl, htakes, hback⟩ := covers_cons.1 h
    rw [List.append_assoc]
    by_cases hnil : token = .anyComponents ∧ back = []
    · -- The components ran to the end of the text, which is now elsewhere. What follows them covers
      -- nothing, so it covers all of the text, and the components can stand for nothing.
      obtain ⟨rfl, rfl⟩ := hnil
      have hall := covers_of_covers_nil (by simp [hne]) hback front
      exact covers_cons.2 ⟨[], front ++ ([] ++ rest), rfl, .inl rfl, ih hall⟩
    · have hgoes : token ≠ .anyComponents ∨ back ≠ [] := Decidable.not_and_iff_or_not.1 hnil
      exact covers_cons.2 ⟨front, back ++ rest, rfl, htakes.append hgoes rest, ih hback⟩

theorem covers_components (text : List Char) : covers [.anyComponents] text = true :=
  covers_cons.2 ⟨text, [], by simp, .inr (.inr rfl), rfl⟩

theorem covers_slash_components (text : List Char) :
    covers [.char '/', .anyComponents] ('/' :: text) = true :=
  covers_cons.2 ⟨['/'], text, rfl, rfl, covers_components text⟩

/-! ## Patterns that go on with `/**` -/

/-- How the tokens of a pattern change to `deeper` when `/**` comes behind it. -/
def Deepens (pattern : List Char) (tokens deeper : List Token) : Prop :=
  (∃ front, tokens = front ++ [.anyComponents] ∧
    deeper = front ++ [.anyComponents, .anyComponents]) ∨
  (deeper = tokens ++ [.char '/', .anyComponents] ∧
    (tokens.getLast? = some .anyComponents → ['*', '*', '/'] <:+ pattern))

theorem Deepens.cons {pattern longer : List Char} {tokens deeper : List Token}
    (h : Deepens pattern tokens deeper) (hlonger : pattern <:+ longer) {token : Token}
    (htoken : token = .anyComponents → tokens = [] → ['*', '*', '/'] <:+ longer) :
    Deepens longer (token :: tokens) (token :: deeper) := by
  rcases h with ⟨front, rfl, rfl⟩ | ⟨rfl, hlast⟩
  · exact .inl ⟨token :: front, rfl, rfl⟩
  · refine .inr ⟨rfl, fun h => ?_⟩
    cases tokens with
    | nil => exact htoken (Option.some.inj h) rfl
    | cons next tokens =>
      rw [List.getLast?_cons_cons] at h
      exact (hlast h).trans hlonger

/-- What the pattern with `/**` behind it covers below a text that the pattern covers. -/
theorem Deepens.covers_below {pattern : List Char} {tokens deeper : List Token}
    (h : Deepens pattern tokens deeper) (hpattern : ¬ ['*', '*', '/'] <:+ pattern)
    {text : List Char} (htext : covers tokens text = true) (rest : List Char) :
    covers deeper (text ++ '/' :: rest) = true := by
  rcases h with ⟨front, rfl, rfl⟩ | ⟨rfl, hlast⟩
  · refine covers_replace_last (by simp) (fun back _ => ?_) front htext
    exact covers_cons.2 ⟨[], _, rfl, .inl rfl, covers_components _⟩
  rcases List.eq_nil_or_concat tokens with rfl | ⟨front, token, rfl⟩
  · rw [covers, List.isEmpty_iff] at htext
    rw [htext]
    exact covers_slash_components rest
  · have htoken : token ≠ .anyComponents := fun h => hpattern (hlast (by simp [h]))
    rw [List.concat_eq_append] at htext ⊢
    rw [List.append_assoc]
    refine covers_replace_last (by simp) (fun back hback => ?_) front htext
    obtain ⟨taken, left, rfl, htakes, hleft⟩ := covers_cons.1 hback
    rw [covers, List.isEmpty_iff] at hleft
    refine covers_cons.2 ⟨taken, left ++ '/' :: rest, by simp, htakes.append (.inl htoken) _, ?_⟩
    rw [hleft]
    exact covers_slash_components rest

theorem splitBracket_eq {text inside after : List Char}
    (h : splitBracket text = some (inside, after)) : text = inside ++ ']' :: after := by
  induction text generalizing inside with
  | nil => simp [splitBracket] at h
  | cons c rest ih =>
    rw [splitBracket] at h
    split at h
    next hc =>
      cases h
      rw [hc]
      rfl
    next hc =>
      obtain ⟨⟨i, a⟩, hfound, hsame⟩ := Option.map_eq_some_iff.1 h
      cases hsame
      rw [ih hfound]
      rfl

theorem splitBracket_append {text inside after : List Char}
    (h : splitBracket text = some (inside, after)) (more : List Char) :
    splitBracket (text ++ more) = some (inside, after ++ more) := by
  induction text generalizing inside with
  | nil => simp [splitBracket] at h
  | cons c rest ih =>
    rw [splitBracket] at h
    rw [List.cons_append, splitBracket]
    split at h
    next hc =>
      cases h
      exact if_pos hc
    next hc =>
      obtain ⟨⟨i, a⟩, hfound, hsame⟩ := Option.map_eq_some_iff.1 h
      cases hsame
      rw [if_neg hc, ih hfound]
      rfl

theorem splitBracket_append_of_none {text more : List Char} (h : splitBracket text = none)
    (hmore : ']' ∉ more) : splitBracket (text ++ more) = none := by
  induction text with
  | nil =>
    rw [List.nil_append]
    induction more with
    | nil => rfl
    | cons c more ih =>
      simp only [List.mem_cons, not_or] at hmore
      rw [splitBracket, if_neg (Ne.symm hmore.1), ih hmore.2]
      rfl
  | cons c rest ih =>
    rw [splitBracket] at h
    split at h
    next => cases h
    next hc =>
      rw [List.cons_append, splitBracket, if_neg hc, ih (by simpa using h)]
      rfl

/-! What is read first, by the characters in front. -/

theorem tokensFrom_components {position : Nat} {before : Option Char} {rest : List Char}
    (h : startsComponent before = true) :
    tokensFrom position before ('*' :: '*' :: '/' :: rest) =
      (.anyComponents :: ·) <$> tokensFrom (position + 3) (some '/') rest := by
  rw [tokensFrom, if_pos h]

theorem tokensFrom_star {position : Nat} {before : Option Char} {rest : List Char}
    (h : rest.head? ≠ some '*') :
    tokensFrom position before ('*' :: rest) =
      (.anySequence :: ·) <$> tokensFrom (position + 1) (some '*') rest := by
  rw [tokensFrom]
  · rintro tail rfl
    exact h rfl
  · rintro tail rfl
    exact h rfl

theorem tokensFrom_within {position : Nat} {before : Option Char} {first : Char}
    {rest inside after : List Char} (hfirst : first ≠ '!')
    (h : splitBracket rest = some (inside, after)) :
    tokensFrom position before ('[' :: first :: rest) =
      (.anyWithin (ranges (first :: inside)) :: ·) <$>
        tokensFrom (position + inside.length + 3) (some ']') after := by
  rw [tokensFrom]
  · split <;> simp_all
  · exact fun _ _ h => (hfirst h).elim
  · exact fun h => (hfirst h).elim

theorem tokensFrom_except {position : Nat} {before : Option Char} {first : Char}
    {rest inside after : List Char} (h : splitBracket rest = some (inside, after)) :
    tokensFrom position before ('[' :: '!' :: first :: rest) =
      (.anyExcept (ranges (first :: inside)) :: ·) <$>
        tokensFrom (position + inside.length + 4) (some ']') after := by
  rw [tokensFrom]
  split <;> simp_all

theorem tokensFrom_char {position : Nat} {before : Option Char} {c : Char} {rest : List Char}
    (hstar : c ≠ '*') (hmark : c ≠ '?') (hopen : c ≠ '[') :
    tokensFrom position before (c :: rest) =
      (.char c :: ·) <$> tokensFrom (position + 1) (some c) rest := by
  rw [tokensFrom] <;> simp_all

/-- Two stars with something else behind them in their component. -/
theorem tokensFrom_stars_before {position : Nat} {before : Option Char} {c : Char}
    {rest : List Char} (hbefore : startsComponent before = true) (hstar : c ≠ '*')
    (hslash : c ≠ '/') :
    tokensFrom position before ('*' :: '*' :: c :: rest) =
      .error ⟨position + 2, .recursiveWildcards⟩ := by
  rw [tokensFrom, if_pos hbefore]
  all_goals simp [hstar, hslash]

/-- Two stars with something else before them in their component. -/
theorem tokensFrom_stars_behind {position : Nat} {before : Option Char} {rest : List Char}
    (hbefore : ¬startsComponent before = true) (hstar : rest.head? ≠ some '*') :
    tokensFrom position before ('*' :: '*' :: rest) =
      .error ⟨position - 1, .recursiveWildcards⟩ := by
  cases rest with
  | nil => rw [tokensFrom, if_neg hbefore]
  | cons c rest =>
    have hc : c ≠ '*' := fun hc => hstar (by rw [hc, List.head?_cons])
    by_cases hslash : c = '/'
    · rw [hslash, tokensFrom, if_neg hbefore]
    · rw [tokensFrom, if_neg hbefore]
      all_goals simp [hc, hslash]

theorem tokensFrom_within_unclosed {position : Nat} {before : Option Char} {first : Char}
    {rest : List Char} (hfirst : first ≠ '!') (h : splitBracket rest = none) :
    tokensFrom position before ('[' :: first :: rest) = .error ⟨position, .range⟩ := by
  rw [tokensFrom]
  · split <;> simp_all
  · exact fun _ _ h => (hfirst h).elim
  · exact fun h => (hfirst h).elim

theorem tokensFrom_except_unclosed {position : Nat} {before : Option Char} {first : Char}
    {rest : List Char} (h : splitBracket rest = none) :
    tokensFrom position before ('[' :: '!' :: first :: rest) = .error ⟨position, .range⟩ := by
  rw [tokensFrom]
  split <;> simp_all

/-- A character that is read neither with what follows it nor alone at the end. -/
theorem ne_of_not_read {c special : Char} {rest : List Char}
    (hmore : ∀ next tail, c = special → rest = next :: tail → False)
    (hend : c = special → rest = [] → False) : c ≠ special := by
  intro hc
  cases rest with
  | nil => exact hend hc rfl
  | cons next tail => exact hmore next tail hc rfl

theorem head?_ne_star {rest : List Char} (h : ∀ tail, rest = '*' :: tail → False) :
    (rest ++ ['/', '*', '*']).head? ≠ some '*' := by
  cases rest with
  | nil => decide
  | cons c rest =>
    intro hc
    exact h rest (by rw [Option.some.inj hc])

theorem eq_nil_of_tokensFrom {position : Nat} {before : Option Char} {pattern : List Char}
    (h : tokensFrom position before pattern = .ok []) : pattern = [] := by
  fun_induction tokensFrom position before pattern <;> simp_all [map_eq_ok]

/-- What `/**` behind a pattern changes, from what it changes behind the first token. -/
theorem deepens_of_step {position position' : Nat} {before before' : Option Char}
    {pattern rest : List Char} {token : Token} {tokens : List Token}
    (ih : ∀ {tokens}, tokensFrom position' before' rest = .ok tokens →
      ∃ deeper, tokensFrom position' before' (rest ++ ['/', '*', '*']) = .ok deeper ∧
        Deepens rest tokens deeper)
    (h : (token :: ·) <$> tokensFrom position' before' rest = .ok tokens)
    (hstep : tokensFrom position before (pattern ++ ['/', '*', '*']) =
      (token :: ·) <$> tokensFrom position' before' (rest ++ ['/', '*', '*']))
    (hrest : rest <:+ pattern)
    (htoken : token = .anyComponents → pattern = '*' :: '*' :: '/' :: rest) :
    ∃ deeper, tokensFrom position before (pattern ++ ['/', '*', '*']) = .ok deeper ∧
      Deepens pattern tokens deeper := by
  obtain ⟨others, hothers, rfl⟩ := map_eq_ok.1 h
  obtain ⟨deeper, hdeeper, hdeepens⟩ := ih hothers
  rw [hstep, hdeeper]
  refine ⟨token :: deeper, rfl, hdeepens.cons hrest fun hcomponents hnil => ?_⟩
  rw [hnil] at hothers
  have hpattern : pattern = ['*', '*', '/'] := by
    rw [htoken hcomponents, eq_nil_of_tokensFrom hothers]
  exact hpattern ▸ List.suffix_rfl

/-- A pattern that can be compiled can be with `/**` behind it. -/
theorem tokensFrom_deepens {position : Nat} {before : Option Char} {pattern : List Char}
    {tokens : List Token} (h : tokensFrom position before pattern = .ok tokens) :
    ∃ deeper, tokensFrom position before (pattern ++ ['/', '*', '*']) = .ok deeper ∧
      Deepens pattern tokens deeper := by
  fun_induction tokensFrom position before pattern generalizing tokens with
  | case1 position before =>
    cases h
    refine ⟨[.char '/', .anyComponents], ?_, .inr ⟨rfl, fun h => by cases h⟩⟩
    rw [List.nil_append, tokensFrom_char (by decide) (by decide) (by decide), tokensFrom]
    rfl
  | case3 position before hstarts =>
    cases h
    refine ⟨[.anyComponents, .anyComponents], ?_, .inl ⟨[], rfl, rfl⟩⟩
    rw [List.cons_append, List.cons_append, List.nil_append, tokensFrom_components hstarts,
      tokensFrom]
    rfl
  | case4 position before hstarts rest _ ih =>
    exact deepens_of_step ih h (tokensFrom_components hstarts) ⟨['*', '*', '/'], rfl⟩ fun _ => rfl
  | case7 position before rest _ hstar ih =>
    exact deepens_of_step ih h (tokensFrom_star (head?_ne_star hstar)) (List.suffix_cons _ _)
      fun h => by cases h
  | case8 position before rest ih =>
    refine deepens_of_step ih h ?_ (List.suffix_cons _ _) fun h => by cases h
    rw [List.cons_append, tokensFrom]
  | case10 position before first rest inside after hsplit _ ih =>
    refine deepens_of_step ih h (tokensFrom_except (splitBracket_append hsplit _)) ?_
      fun h => by cases h
    rw [splitBracket_eq hsplit]
    exact ⟨'[' :: '!' :: first :: inside ++ [']'], by simp⟩
  | case13 position before first rest hbang hend inside after hsplit _ ih =>
    have hfirst : first ≠ '!' := ne_of_not_read hbang hend
    refine deepens_of_step ih h (tokensFrom_within hfirst (splitBracket_append hsplit _)) ?_
      fun h => by cases h
    rw [splitBracket_eq hsplit]
    exact ⟨'[' :: first :: inside ++ [']'], by simp⟩
  | case15 position before c rest _ _ hstar hmark _ _ hopen hend ih =>
    have hbracket : c ≠ '[' := ne_of_not_read hopen hend
    exact deepens_of_step ih h (tokensFrom_char hstar hmark hbracket) (List.suffix_cons _ _)
      fun h => by cases h
  | case2 | case5 | case6 | case9 | case11 | case12 | case14 => cases h

/-- The fault of a pattern, from the fault behind its first token. -/
theorem faulty_of_step {position position' : Nat} {before before' : Option Char}
    {longer rest : List Char} {token : Token} {error : GlobError}
    (ih : ∀ {error}, tokensFrom position' before' rest = .error error →
      tokensFrom position' before' (rest ++ ['/', '*', '*']) = .error error)
    (h : (token :: ·) <$> tokensFrom position' before' rest = .error error)
    (hstep : tokensFrom position before longer =
      (token :: ·) <$> tokensFrom position' before' (rest ++ ['/', '*', '*'])) :
    tokensFrom position before longer = .error error := by
  rw [hstep]
  exact map_eq_error.2 (ih (map_eq_error.1 h))

/-- A faulty pattern has the same fault with `/**` behind it: that ending has nothing in it that a
token looks ahead for, no closing bracket and no star before its slash. -/
theorem tokensFrom_faulty {position : Nat} {before : Option Char} {pattern : List Char}
    {error : GlobError} (h : tokensFrom position before pattern = .error error) :
    tokensFrom position before (pattern ++ ['/', '*', '*']) = .error error := by
  fun_induction tokensFrom position before pattern generalizing error with
  | case1 | case3 => cases h
  | case2 position before rest =>
    rw [← h, List.cons_append, List.cons_append, List.cons_append, tokensFrom]
  | case4 position before hstarts rest _ ih =>
    exact faulty_of_step ih h (tokensFrom_components hstarts)
  | case5 position before rest hstars hstarts hend hslash =>
    rw [← h]
    cases rest with
    | nil => exact (hend rfl).elim
    | cons c rest =>
      exact tokensFrom_stars_before hstarts (fun hc => hstars rest (by rw [hc]))
        (fun hc => hslash rest (by rw [hc]))
  | case6 position before rest hstars hstarts =>
    rw [← h]
    exact tokensFrom_stars_behind hstarts (head?_ne_star hstars)
  | case7 position before rest _ hstar ih =>
    exact faulty_of_step ih h (tokensFrom_star (head?_ne_star hstar))
  | case8 position before rest ih =>
    refine faulty_of_step ih h ?_
    rw [List.cons_append, tokensFrom]
  | case9 position before first rest hsplit =>
    rw [← h]
    exact tokensFrom_except_unclosed (splitBracket_append_of_none hsplit (by decide))
  | case10 position before first rest inside after hsplit _ ih =>
    exact faulty_of_step ih h (tokensFrom_except (splitBracket_append hsplit _))
  | case11 position before =>
    -- The slash becomes the first character of the set, which still is not closed.
    rw [← h]
    exact tokensFrom_except_unclosed rfl
  | case12 position before first rest hbang hend hsplit =>
    rw [← h]
    exact tokensFrom_within_unclosed (ne_of_not_read hbang hend)
      (splitBracket_append_of_none hsplit (by decide))
  | case13 position before first rest hbang hend inside after hsplit _ ih =>
    exact faulty_of_step ih h
      (tokensFrom_within (ne_of_not_read hbang hend) (splitBracket_append hsplit _))
  | case14 position before =>
    rw [← h]
    exact tokensFrom_within_unclosed (by decide) rfl
  | case15 position before c rest _ _ hstar hmark _ _ hopen hend ih =>
    exact faulty_of_step ih h (tokensFrom_char hstar hmark (ne_of_not_read hopen hend))

end Glob

namespace FileFilter

/-! ## Directories that are not entered -/

theorem directoryPattern?_eq_some {pattern directory : String} :
    directoryPattern? pattern = some directory ↔
      pattern.toList = directory.toList ++ ['/', '*', '*'] := by
  rw [directoryPattern?]
  split
  next rest h =>
    have hpattern : pattern.toList = rest.reverse ++ ['/', '*', '*'] := by
      rw [← List.reverse_reverse pattern.toList, h]
      simp
    rw [hpattern, Option.some.injEq, List.append_cancel_right_eq]
    exact ⟨fun h => h ▸ String.toList_ofList.symm, fun h => by rw [h, String.ofList_toList]⟩
  next hnone =>
    simp only [reduceCtorEq, false_iff]
    intro h
    exact hnone directory.toList.reverse (by rw [h]; simp)

/-- The pattern ends in `**//**`. What stands before its last slash accepts directories by name, as
`**/` does; the whole pattern asks for an empty name below them, which no file has. -/
def overreaches (pattern : String) : Bool :=
  ['*', '*', '/', '/', '*', '*'].isSuffixOf pattern.toList

theorem overreaches_iff {pattern directory : String}
    (h : directoryPattern? pattern = some directory) :
    overreaches pattern = true ↔ ['*', '*', '/'] <:+ directory.toList := by
  rw [overreaches, List.isSuffixOf_iff_suffix, directoryPattern?_eq_some.1 h]
  exact @List.suffix_append_self_iff _ ['*', '*', '/'] directory.toList ['/', '*', '*']

/-- A pattern leaves out whatever is below a directory that it keeps from being entered, unless it
overreaches. -/
theorem accepts_below {pattern shorter : String} {glob directories : Glob}
    (hshorter : directoryPattern? pattern = some shorter) (hreach : overreaches pattern = false)
    (hglob : Glob.compile pattern = .ok glob)
    (hdirectories : Glob.compile shorter = .ok directories)
    {directory : String} (h : directories.accepts directory = true) (rest : String) :
    glob.accepts (directory ++ "/" ++ rest) = true := by
  obtain ⟨tokens, htokens, rfl⟩ := map_eq_ok.1 hdirectories
  obtain ⟨deeper, hdeeper, hdeepens⟩ := Glob.tokensFrom_deepens htokens
  rw [Glob.compile, directoryPattern?_eq_some.1 hshorter, hdeeper] at hglob
  cases hglob
  have hends : ¬ ['*', '*', '/'] <:+ shorter.toList := by
    rw [← overreaches_iff hshorter, hreach]
    exact Bool.false_ne_true
  have hbelow := hdeepens.covers_below hends h rest.toList
  simpa [Glob.accepts] using hbelow

end FileFilter

/-- Some pattern that overreaches keeps the directory from being entered. -/
def Config.Overreaches (config : Config) (directory : String) : Prop :=
  ∃ pattern ∈ config.excludePatterns, FileFilter.overreaches pattern = true ∧
    ∃ shorter directories, FileFilter.directoryPattern? pattern = some shorter ∧
      Glob.compile shorter = .ok directories ∧ directories.accepts directory = true

namespace FileFilter

variable {config : Config} {filter : FileFilter}

theorem ofConfig_eq_ok (h : ofConfig config = .ok filter) :
    config.excludePatterns.mapM Glob.compile = .ok filter.excludes ∧
      (config.excludePatterns.filterMap directoryPattern?).mapM Glob.compile =
        .ok filter.excludedDirectories := by
  obtain ⟨includes, -, h⟩ := bind_eq_ok.1 h
  obtain ⟨excludes, hexcludes, h⟩ := bind_eq_ok.1 h
  obtain ⟨directories, hdirectories, h⟩ := bind_eq_ok.1 h
  cases h
  exact ⟨hexcludes, hdirectories⟩

theorem acceptsDirectory_eq_false_iff (h : ofConfig config = .ok filter) {directory : String} :
    filter.acceptsDirectory directory = false ↔
      ∃ pattern ∈ config.excludePatterns, ∃ shorter directories,
        directoryPattern? pattern = some shorter ∧ Glob.compile shorter = .ok directories ∧
          directories.accepts directory = true := by
  rw [acceptsDirectory, Bool.not_eq_false', List.any_eq_true]
  simp only [mem_of_mapM_eq_ok (ofConfig_eq_ok h).2, List.mem_filterMap]
  constructor
  · rintro ⟨directories, ⟨shorter, ⟨pattern, hpattern, hshorter⟩, hcompile⟩, haccepts⟩
    exact ⟨pattern, hpattern, shorter, directories, hshorter, hcompile, haccepts⟩
  · rintro ⟨pattern, hpattern, shorter, directories, hshorter, hcompile, haccepts⟩
    exact ⟨directories, ⟨shorter, ⟨pattern, hpattern, hshorter⟩, hcompile⟩, haccepts⟩

theorem not_acceptsDirectory_of_overreaches (h : ofConfig config = .ok filter) {directory : String}
    (hreach : config.Overreaches directory) : filter.acceptsDirectory directory = false := by
  obtain ⟨pattern, hpattern, -, hdirectory⟩ := hreach
  exact (acceptsDirectory_eq_false_iff h).2 ⟨pattern, hpattern, hdirectory⟩

/-- No file below a directory that is not entered is searched, unless a pattern overreaches. -/
theorem not_acceptsFile_below (h : ofConfig config = .ok filter) {directory : String}
    (hdirectory : filter.acceptsDirectory directory = false)
    (hreach : ¬ config.Overreaches directory) (rest : String) :
    filter.acceptsFile (directory ++ "/" ++ rest) = false := by
  obtain ⟨pattern, hpattern, shorter, directories, hshorter, hcompile, haccepts⟩ :=
    (acceptsDirectory_eq_false_iff h).1 hdirectory
  have hfits : overreaches pattern = false := Bool.eq_false_iff.2 fun hover =>
    hreach ⟨pattern, hpattern, hover, shorter, directories, hshorter, hcompile, haccepts⟩
  obtain ⟨glob, hglob⟩ := exists_of_mapM_eq_ok (ofConfig_eq_ok h).1 hpattern
  have hmem : glob ∈ filter.excludes :=
    (mem_of_mapM_eq_ok (ofConfig_eq_ok h).1).2 ⟨pattern, hpattern, hglob⟩
  have hany : filter.excludes.any (·.acceptsPath (directory ++ "/" ++ rest : String)) = true :=
    List.any_eq_true.2 ⟨glob, hmem, accepts_below hshorter hfits hglob hcompile haccepts rest⟩
  rw [acceptsFile, hany]
  simp

end FileFilter

end Usages
