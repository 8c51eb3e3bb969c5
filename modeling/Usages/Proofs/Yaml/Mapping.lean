/-
A written mapping is read back. Each member is a key with a word or with a list behind it; the list
stands in brackets if it is empty and has a line for each item otherwise. What is written of a
member, the tokens it makes and the nodes these make are three functions of the member; the scanner
takes the first to the second and the grammar the second to the third.
-/
import Usages.Proofs.Yaml.Token
import Usages.Yaml.Node

namespace Usages.Yaml

/-- What stands behind a key. -/
inductive Value where
  | word (text : String)
  | list (items : List String)

structure Member where
  key : String
  value : Value

namespace Value

def write : Value → List Char
  | word text => ' ' :: text.toList ++ ['\n']
  | list items =>
    if items.isEmpty then [' ', '[', ']', '\n']
    else '\n' :: items.flatMap fun item => '-' :: ' ' :: writeItem item

def itemTokens (item : String) : List Token :=
  [.blockEntry, .scalar (styleOf item) item]

theorem length_itemTokens (items : List String) :
    (items.flatMap itemTokens).length = 2 * items.length := by
  induction items with
  | nil => rfl
  | cons item items ih =>
    rw [List.flatMap_cons, List.length_append, ih, List.length_cons, itemTokens]
    simp only [List.length_cons, List.length_nil]
    omega

def tokens : Value → List Token
  | word text => [.scalar .plain text]
  | list items =>
    if items.isEmpty then [.flowSequenceStart, .flowSequenceEnd] else items.flatMap itemTokens

def itemNode (item : String) : Node :=
  .scalar (styleOf item) none item

def node : Value → Node
  | word text => .scalar .plain none text
  | list items => .sequence (items.map itemNode)

/-- A word is not empty and has to read as itself where it stands plain. -/
def Fits : Value → Prop
  | word text => text ≠ "" ∧ allowsPlain text.toList = true
  | list _ => True

end Value

namespace Member

def write (member : Member) : List Char :=
  member.key.toList ++ ':' :: member.value.write

def tokens (member : Member) : List Token :=
  .key :: .scalar .plain member.key :: .value :: member.value.tokens

def node (member : Member) : Node × Node :=
  (.scalar .plain none member.key, member.value.node)

structure Fits (member : Member) : Prop where
  key : Scanner.IsKey member.key.toList
  value : member.value.Fits

end Member

/-! ## The scanner -/

namespace Scanner

theorem startsLine_items {rest : List Char} (hrest : StartsLine rest) (items : List String) :
    StartsLine ((items.flatMap fun item => '-' :: ' ' :: writeItem item) ++ rest) := by
  cases items with
  | nil => exact hrest
  | cons item items => exact startsLine_cons (by decide) (by decide) (by decide)

theorem Ready.reaches_items {items : List String} {scanner : Scanner} {tokens : List Token}
    {rest : List Char}
    (h : scanner.Ready tokens [0]
      ((items.flatMap fun item => '-' :: ' ' :: writeItem item) ++ rest))
    (hrest : StartsLine rest) :
    ∃ stop, Reaches scanner stop ∧
      stop.Ready (tokens ++ items.flatMap Value.itemTokens) [0] rest := by
  induction items generalizing scanner tokens with
  | nil =>
    refine ⟨scanner, .refl scanner, ?_⟩
    rwa [List.flatMap_nil, List.append_nil]
  | cons item items ih =>
    rw [List.flatMap_cons, List.append_assoc] at h
    obtain ⟨middle, hitem, hmiddle⟩ := Ready.reaches_item h (startsLine_items hrest items)
    obtain ⟨stop, hitems, hstop⟩ := ih hmiddle
    refine ⟨stop, hitem.trans hitems, ?_⟩
    rwa [List.append_assoc] at hstop

/-- An empty list in brackets. -/
theorem reaches_brackets {cursor : Cursor} {tokens : List Token} {rest : List Char}
    (hcursor : cursor.rest = ' ' :: '[' :: ']' :: '\n' :: rest) (hrest : StartsLine rest) :
    ∃ stop, Reaches ⟨cursor, tokens, [0], [none], false⟩ stop ∧
      stop.Ready (tokens ++ [.flowSequenceStart, .flowSequenceEnd]) [0] rest := by
  have hblank := Cursor.next_of_not_break hcursor (by decide)
  have hblank' : cursor.next.rest = '[' :: ']' :: '\n' :: rest := by rw [hblank]
  have hopen := Cursor.next_of_not_break hblank' (by decide)
  have hopen' : cursor.next.next.rest = ']' :: '\n' :: rest := by rw [hopen]
  have hclose := Cursor.next_of_not_break hopen' (by decide)
  have hclose' : cursor.next.next.next.rest = '\n' :: rest := by rw [hclose]
  have hfirst : step ⟨cursor, tokens, [0], [none], false⟩ =
      some ⟨cursor.next.next, tokens ++ [.flowSequenceStart], [0], [none, none], true⟩ := by
    rw [step_space hcursor (by decide) (by decide), token, Cursor.peek?_zero, hblank',
      List.head?_cons]
    simp [Cursor.isAtMark_of_head hblank', openBracket, saveCandidate, punctuation, emit, moveTo]
  have hsecond : step ⟨cursor.next.next, tokens ++ [.flowSequenceStart], [0], [none, none], true⟩ =
      some ⟨cursor.next.next.next, tokens ++ [.flowSequenceStart, .flowSequenceEnd], [0], [none],
        false⟩ := by
    have hstart : StartsLine cursor.next.next.rest := by
      rw [hopen']
      exact startsLine_cons (by decide) (by decide) (by decide)
    rw [step_of_settled (settled_of_start _ hstart (by simp)) (by simp), token,
      Cursor.peek?_zero, hopen', List.head?_cons]
    simp [Cursor.isAtMark_of_head hopen', closeBracket, dropCandidate, punctuation, emit, moveTo,
      inFlow]
  refine ⟨_, (Reaches.of_step hfirst (by simp) ?_).trans (.of_step hsecond (by simp) ?_),
    .of_newline hclose' hrest expires_none⟩
  · simp [hopen', hcursor]
  · simp [hclose', hopen']

/-- A value is taken up to the end of its last line. -/
theorem reaches_value {cursor : Cursor} {tokens : List Token} {value : Value} {rest : List Char}
    (hcursor : cursor.rest = value.write ++ rest) (hvalue : value.Fits) (hrest : StartsLine rest) :
    ∃ stop, Reaches ⟨cursor, tokens, [0], [none], false⟩ stop ∧
      stop.Ready (tokens ++ value.tokens) [0] rest := by
  cases value with
  | word text =>
    obtain ⟨hne, hplain⟩ := hvalue
    obtain ⟨c, more, hcons⟩ := List.exists_cons_of_ne_nil (mt String.toList_eq_nil_iff.1 hne)
    have htext : PlainText c more := plainText_of_allowsPlain (hcons ▸ hplain)
    have hblank : cursor.rest = ' ' :: (text.toList ++ '\n' :: rest) := by
      rw [hcursor, Value.write]
      simp
    have hnext := Cursor.next_of_not_break hblank (by decide)
    have htakes : Takes ⟨cursor.next, tokens, [0], [none], false⟩ (.scalar .plain text) rest :=
      takes_plain (by rw [hnext]) (by rw [hnext]; exact Nat.succ_pos _) hplain hne hrest
    rw [hcons] at hblank
    exact htakes.reaches hblank htext.not_spacing htext.ne_hash (by simp)
  | list items =>
    rw [Value.write] at hcursor
    rw [Value.tokens]
    by_cases hempty : items.isEmpty = true
    · rw [if_pos hempty] at hcursor ⊢
      exact reaches_brackets hcursor hrest
    · rw [if_neg hempty] at hcursor ⊢
      have hready : Ready ⟨cursor, tokens, [0], [none], false⟩ tokens [0] _ :=
        .of_newline hcursor (startsLine_items hrest items) expires_none
      exact hready.reaches_items hrest

theorem Ready.reaches_member {scanner : Scanner} {tokens : List Token} {indents : List Nat}
    {member : Member} {rest : List Char} (h : scanner.Ready tokens indents (member.write ++ rest))
    (hindents : indents = [] ∨ indents = [0]) (hmember : member.Fits) (hrest : StartsLine rest) :
    ∃ stop, Reaches scanner stop ∧
      stop.Ready (tokens ++ (opening indents ++ member.tokens)) [0] rest := by
  rw [Member.write, List.append_assoc, List.cons_append] at h
  have hword : endsWord (member.value.write ++ rest).head? = true := by
    cases member.value with
    | word text => rfl
    | list items =>
      rw [Value.write]
      split <;> rfl
  obtain ⟨cursor, hcursor, hkey⟩ := h.reaches_key hindents hmember.key hword
  obtain ⟨stop, hvalue, hstop⟩ := reaches_value hcursor hmember.value hrest
  refine ⟨stop, hkey.trans hvalue, ?_⟩
  simpa [Member.tokens] using hstop

theorem startsLine_members {members : List Member} (h : ∀ member ∈ members, member.Fits) :
    StartsLine (members.flatMap Member.write) := by
  cases members with
  | nil => exact fun c hc => by cases hc
  | cons member members =>
    have hkey := (h member List.mem_cons_self).key
    obtain ⟨c, more, hcons⟩ := List.exists_cons_of_ne_nil hkey.ne_nil
    have hc : c.isAlpha = true := hkey.isAlpha c (by rw [hcons]; exact List.mem_cons_self)
    rw [List.flatMap_cons, Member.write, hcons]
    exact startsLine_cons (isSpacing_of_isAlpha hc) (ne_of_isAlpha hc (by decide))
      (ne_of_isAlpha hc (by decide))

/-- The members of an open mapping, up to the end of the stream. -/
theorem Ready.reaches_members {members : List Member} {scanner : Scanner} {tokens : List Token}
    (h : scanner.Ready tokens [0] (members.flatMap Member.write))
    (hmembers : ∀ member ∈ members, member.Fits) :
    ∃ stop, Reaches scanner stop ∧ stop.Ready (tokens ++ members.flatMap Member.tokens) [0] [] := by
  induction members generalizing scanner tokens with
  | nil =>
    refine ⟨scanner, .refl scanner, ?_⟩
    rwa [List.flatMap_nil, List.append_nil]
  | cons member members ih =>
    have htail : ∀ later ∈ members, later.Fits := fun later hlater =>
      hmembers later (List.mem_cons_of_mem _ hlater)
    rw [List.flatMap_cons] at h
    obtain ⟨middle, hmember, hmiddle⟩ := Ready.reaches_member h (.inr rfl)
      (hmembers member List.mem_cons_self) (startsLine_members htail)
    obtain ⟨stop, hreaches, hstop⟩ := ih hmiddle htail
    refine ⟨stop, hmember.trans hreaches, ?_⟩
    simpa [opening] using hstop

theorem Reaches.run_end {scanner stop : Scanner} {tokens : List Token} (h : Reaches scanner stop)
    (hstop : stop.Ready tokens [0] []) :
    run (scanner.cursor.rest.length + 1) scanner = some (tokens ++ [.blockEnd, .streamEnd]) := by
  obtain ⟨steps, hlength, hrun⟩ := h
  obtain ⟨fuel, hfuel⟩ : ∃ fuel, scanner.cursor.rest.length + 1 = fuel + 1 + steps :=
    ⟨scanner.cursor.rest.length - steps, by omega⟩
  rw [hfuel, hrun, hstop.run_end]

end Scanner

/-! ## Characters -/

theorem all_isAllowed_of_isPrintable {text : List Char} (h : ∀ c ∈ text, isPrintable c = true) :
    text.all isAllowed = true :=
  List.all_eq_true.2 fun c hc => isAllowed_of_isPrintable (h c hc)

theorem all_isAllowed_indent (broken : Bool) :
    (if broken then itemIndent else []).all isAllowed = true := by
  cases broken <;> decide

theorem all_isAllowed_writeSingleFrom {text : List Char} (h : text.all isAllowed = true)
    (broken : Bool) : (writeSingleFrom broken text).all isAllowed = true := by
  induction text generalizing broken with
  | nil => exact all_isAllowed_indent broken
  | cons c text ih =>
    rw [List.all_cons, Bool.and_eq_true] at h
    rw [writeSingleFrom]
    split
    · rw [List.all_cons, h.1, ih h.2 true]
      rfl
    · have hquoted : (if c == '\x27' then ['\x27', '\x27'] else [c]).all isAllowed = true := by
        split
        · decide
        · simpa using h.1
      rw [List.all_append, List.all_append, all_isAllowed_indent, hquoted, ih h.2 false]
      rfl

theorem all_isAllowed_writeLiteralFrom {text : List Char} (h : text.all isAllowed = true)
    (broken : Bool) : (writeLiteralFrom broken text).all isAllowed = true := by
  induction text generalizing broken with
  | nil => rfl
  | cons c text ih =>
    rw [List.all_cons, Bool.and_eq_true] at h
    rw [writeLiteralFrom]
    split
    · rw [List.all_cons, h.1, ih h.2 true]
      rfl
    · rw [List.all_append, List.all_cons, all_isAllowed_indent, h.1, ih h.2 false]
      rfl

theorem all_isAllowed_escapeDouble (c : Char) : (escapeDouble c).all isAllowed = true := by
  have hinline : ∀ {d : Char}, isInline d = true → isAllowed d = true := fun hd =>
    isAllowed_of_isPrintable (isInline_iff.1 hd).1
  rcases escapeDouble_cases c with ⟨hself, hc, -, -⟩ | ⟨behind, hbehind, hescape⟩
  · rw [hself, List.all_cons, hinline hc]
    rfl
  · rw [hbehind, List.all_cons, List.all_eq_true.2 fun d hd => hinline (hescape.inline d hd)]
    rfl

theorem all_isAllowed_writeLiteral {text : List Char} (h : text.all isAllowed = true) :
    (writeLiteral text).all isAllowed = true := by
  have hindent : (indentHint text).all isAllowed = true := by
    unfold indentHint
    split <;> decide
  have hchomp : (chompHint text).all isAllowed = true := by
    rw [← hint_chompOf]
    cases chompOf text <;> decide
  simp only [writeLiteral, List.cons_append, List.all_cons, List.all_append, hindent, hchomp,
    all_isAllowed_writeLiteralFrom h, Bool.and_true]
  decide

/-- What is written of a text may stand in a stream. -/
theorem all_isAllowed_writeItem (text : String) : (writeItem text).all isAllowed = true := by
  unfold writeItem
  by_cases hstyle : styleOf text = .doubleQuoted
  · rw [hstyle]
    simp only [writeDouble, List.cons_append, List.all_cons, List.all_append, List.all_flatMap,
      all_isAllowed_escapeDouble]
    simp [isAllowed]
  · have htext := all_isAllowed_of_isPrintable (Scanner.isPrintable_of_styleOf hstyle)
    split
    · rw [List.all_append, htext]
      decide
    · simp only [writeSingle, List.cons_append, List.all_cons, List.all_append,
        all_isAllowed_writeSingleFrom htext]
      decide
    · contradiction
    all_goals
      rw [List.all_append, all_isAllowed_writeLiteral htext]
      split <;> decide

theorem all_isAllowed_write {member : Member} (h : member.Fits) :
    member.write.all isAllowed = true := by
  have hkey : member.key.toList.all isAllowed = true :=
    all_isAllowed_of_isPrintable fun c hc => Scanner.isPrintable_of_isAlpha (h.key.isAlpha c hc)
  have hvalue : member.value.write.all isAllowed = true := by
    have hfits := h.value
    cases hvalue : member.value with
    | word text =>
      rw [hvalue] at hfits
      have htext := all_isAllowed_of_isPrintable
        (Scanner.isPrintable_of_not_needsEscapes (Scanner.needsEscapes_of_allowsPlain hfits.2))
      simp only [Value.write, List.cons_append, List.all_cons, List.all_append, htext]
      decide
    | list items =>
      rw [Value.write]
      split
      · decide
      · have hitems : (items.flatMap fun item => '-' :: ' ' :: writeItem item).all isAllowed =
            true := by
          rw [List.all_flatMap, List.all_eq_true]
          intro item _
          rw [List.all_cons, List.all_cons, all_isAllowed_writeItem]
          decide
        rw [List.all_cons, hitems]
        decide
  rw [Member.write, List.all_append, List.all_cons, hkey, hvalue]
  decide

/-- The tokens of a written mapping. -/
theorem tokens_write {members : List Member} (hne : members ≠ [])
    (h : ∀ member ∈ members, member.Fits) :
    tokens (members.flatMap Member.write) =
      some (.blockMappingStart :: members.flatMap Member.tokens ++ [.blockEnd, .streamEnd]) := by
  have hallowed : (members.flatMap Member.write).all isAllowed = true := by
    rw [List.all_flatMap, List.all_eq_true]
    exact fun member hmember => all_isAllowed_write (h member hmember)
  rw [tokens, if_pos hallowed]
  obtain ⟨first, rest, rfl⟩ := List.exists_cons_of_ne_nil hne
  have hrest : ∀ member ∈ rest, member.Fits := fun member hmember =>
    h member (List.mem_cons_of_mem _ hmember)
  have hready : Scanner.Ready ⟨{ rest := (first :: rest).flatMap Member.write }, [], [], [none],
      true⟩ [] [] ((first :: rest).flatMap Member.write) :=
    .of_start rfl rfl (Scanner.startsLine_members h) Scanner.expires_none
  obtain ⟨middle, hfirst, hmiddle⟩ := hready.reaches_member (.inl rfl)
    (h first List.mem_cons_self) (Scanner.startsLine_members hrest)
  obtain ⟨stop, hstop, hlast⟩ := hmiddle.reaches_members hrest
  simpa [Scanner.opening] using (hfirst.trans hstop).run_end hlast

/-! ## The grammar -/

section Grammar

variable {handles : List (String × String)} {anchors : List (String × Nat)}
  {nodes : List (Nat × Node)}

theorem readNode_scalar (fuel : Nat) (place : Place) (style : Style) (text : String)
    (rest : List Token) :
    readNode (fuel + 2) place ⟨.scalar style text :: rest, handles, anchors, nodes⟩ =
      some (.scalar style none text, ⟨rest, handles, anchors, nodes⟩) :=
  rfl

theorem readNodeBefore_scalar {stops : List Token} {fuel : Nat} {place : Place} {style : Style}
    {text : String} {rest : List Token} (hstops : stops.contains (.scalar style text) = false)
    (hfuel : 3 ≤ fuel) :
    readNodeBefore stops fuel place ⟨.scalar style text :: rest, handles, anchors, nodes⟩ =
      some (.scalar style none text, ⟨rest, handles, anchors, nodes⟩) := by
  obtain ⟨n, rfl⟩ : ∃ n, fuel = n + 3 := ⟨fuel - 3, by omega⟩
  rw [readNodeBefore, if_neg (by simpa [Reading.isAt, Reading.peek?] using hstops), readNode_scalar]

theorem readIndentlessSequence_items {items : List String} {rest : List Token} {fuel : Nat}
    (hrest : rest.head? ≠ some .blockEntry) (hfuel : items.length + 4 ≤ fuel) :
    readIndentlessSequence fuel
      ⟨items.flatMap Value.itemTokens ++ rest, handles, anchors, nodes⟩ =
      some (items.map Value.itemNode, ⟨rest, handles, anchors, nodes⟩) := by
  induction items generalizing fuel with
  | nil =>
    obtain ⟨n, rfl⟩ : ∃ n, fuel = n + 1 := ⟨fuel - 1, by omega⟩
    rw [readIndentlessSequence]
    split
    next hentry => exact absurd hentry hrest
    next => rfl
  | cons item items ih =>
    obtain ⟨n, rfl⟩ : ∃ n, fuel = n + 1 := ⟨fuel - 1, by omega⟩
    rw [List.length_cons] at hfuel
    have hitem : readNodeBefore [.blockEntry, .key, .value, .blockEnd] n ⟨true, false⟩
        ⟨.scalar (styleOf item) item :: (items.flatMap Value.itemTokens ++ rest), handles, anchors,
          nodes⟩ = _ :=
      readNodeBefore_scalar rfl (by omega)
    simp [readIndentlessSequence, Value.itemTokens, Value.itemNode, Reading.peek?, Reading.skip,
      hitem, ih (show items.length + 4 ≤ n by omega)]

theorem readNodeBefore_sequence {fuel : Nat} {tokens : List Token} {items : List Node}
    {stop : Reading}
    (h : readIndentlessSequence fuel ⟨.blockEntry :: tokens, handles, anchors, nodes⟩ =
      some (items, stop)) :
    readNodeBefore [.key, .value, .blockEnd] (fuel + 3) ⟨true, true⟩
      ⟨.blockEntry :: tokens, handles, anchors, nodes⟩ = some (.sequence items, stop) := by
  simp [readNodeBefore, Reading.isAt, Reading.peek?, readNode, readProperties, readTagProperty,
    Reading.declare, readContent, h, Reading.define]

/-- What stands behind a key is read as its node, if no further entry follows. -/
theorem readNodeBefore_value {value : Value} {rest : List Token} {fuel : Nat}
    (hrest : rest.head? ≠ some .blockEntry) (hfuel : value.tokens.length + 7 ≤ fuel) :
    readNodeBefore [.key, .value, .blockEnd] fuel ⟨true, true⟩
      ⟨value.tokens ++ rest, handles, anchors, nodes⟩ =
      some (value.node, ⟨rest, handles, anchors, nodes⟩) := by
  cases value with
  | word text => exact readNodeBefore_scalar rfl (by omega)
  | list items =>
    cases items with
    | nil =>
      obtain ⟨n, rfl⟩ : ∃ n, fuel = n + 4 := ⟨fuel - 4, by omega⟩
      rfl
    | cons item items =>
      obtain ⟨n, rfl⟩ : ∃ n, fuel = n + 3 := ⟨fuel - 3, by omega⟩
      have hlength : (item :: items).length + 4 ≤ n := by
        have htokens := Value.length_itemTokens (item :: items)
        rw [Value.tokens, if_neg (by simp), htokens] at hfuel
        omega
      exact readNodeBefore_sequence (readIndentlessSequence_items hrest hlength)

/-- The members of a mapping are read up to its end. -/
theorem readBlockMapping_members {members : List Member} {rest : List Token} {fuel : Nat}
    (hfuel : (members.flatMap Member.tokens).length + 8 ≤ fuel) :
    readBlockMapping fuel
      ⟨members.flatMap Member.tokens ++ .blockEnd :: rest, handles, anchors, nodes⟩ =
      some (members.map Member.node, ⟨rest, handles, anchors, nodes⟩) := by
  induction members generalizing fuel with
  | nil =>
    obtain ⟨n, rfl⟩ : ∃ n, fuel = n + 1 := ⟨fuel - 1, by omega⟩
    rfl
  | cons member members ih =>
    obtain ⟨n, rfl⟩ : ∃ n, fuel = n + 1 := ⟨fuel - 1, by omega⟩
    simp only [List.flatMap_cons, List.length_append, Member.tokens, List.length_cons] at hfuel
    have hkey : readNodeBefore [.key, .value, .blockEnd] n ⟨true, true⟩
        ⟨.scalar .plain member.key :: .value :: (member.value.tokens ++
          (members.flatMap Member.tokens ++ .blockEnd :: rest)), handles, anchors, nodes⟩ = _ :=
      readNodeBefore_scalar rfl (by omega)
    have hnext : (members.flatMap Member.tokens ++ .blockEnd :: rest).head? ≠ some .blockEntry := by
      cases members <;> simp [Member.tokens]
    have hvalue : readNodeBefore [.key, .value, .blockEnd] n ⟨true, true⟩
        ⟨member.value.tokens ++ (members.flatMap Member.tokens ++ .blockEnd :: rest), handles,
          anchors, nodes⟩ = _ :=
      readNodeBefore_value hnext (by omega)
    simp [readBlockMapping, Member.tokens, Member.node, Reading.peek?, Reading.skip, Reading.isAt,
      hkey, hvalue, ih (show (members.flatMap Member.tokens).length + 8 ≤ n by omega)]

theorem readNode_mapping {fuel : Nat} {tokens : List Token} {members : List (Node × Node)}
    {stop : Reading}
    (h : readBlockMapping fuel ⟨tokens, handles, anchors, nodes⟩ = some (members, stop)) :
    readNode (fuel + 2) ⟨true, false⟩ ⟨.blockMappingStart :: tokens, handles, anchors, nodes⟩ =
      some (.mapping members, stop) := by
  simp [readNode, Reading.peek?, readProperties, readTagProperty, Reading.declare, readContent,
    Reading.skip, h, Reading.define]

end Grammar

theorem document_mapping {fuel : Nat} {tokens : List Token} {members : List (Node × Node)}
    {stop : Reading}
    (h : readBlockMapping fuel ⟨tokens, defaultHandles, [], []⟩ = some (members, stop))
    (hstop : isFinished stop.tokens = true) (hfuel : fuel = 4 * tokens.length + 6) :
    document (.blockMappingStart :: tokens) = some (some (.mapping members)) := by
  have hlength : 4 * (Token.blockMappingStart :: tokens).length + 4 = fuel + 2 := by
    rw [List.length_cons]
    omega
  unfold document
  rw [hlength]
  simp [isDirective, readNode_mapping h, hstop]

/-- A written mapping is read back. -/
theorem parse_write {members : List Member} (hne : members ≠ [])
    (h : ∀ member ∈ members, member.Fits) :
    parse (String.ofList (members.flatMap Member.write)) =
      some (some (.mapping (members.map Member.node))) := by
  rw [parse, String.toList_ofList, tokens_write hne h, Option.bind_eq_bind, Option.bind_some,
    List.cons_append]
  refine document_mapping (readBlockMapping_members ?_) rfl rfl
  rw [List.length_append, List.length_cons, List.length_singleton]
  omega

end Usages.Yaml
