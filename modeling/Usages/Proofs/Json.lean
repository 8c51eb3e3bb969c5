/-
Written JSON reads as the value it was written from, at every depth and whatever comes behind it.

Numbers are left out, and strings that stand for no text: a value is known to read back by the way
it is put together (`ReadsBack.text`, `ReadsBack.bool`, `ReadsBack.arr`, `ReadsBack.object`). The
fuel of the reader counts twice the characters, of which each level of the grammar uses at most two
steps.
-/
import Usages.Json.Reader
import Usages.Json.Writer

namespace Usages.Json

/-! ## Strings -/

theorem hexValue?_hexDigit {n : Nat} (h : n < 16) : hexValue? (hexDigit n) = some n := by
  have hall : ∀ i : Fin 16, hexValue? (hexDigit i) = some i.val := by decide
  exact hall ⟨n, h⟩

theorem readHex4_control {n : Nat} (h : n < 0x20) (rest : List Char) :
    readHex4 ('0' :: '0' :: hexDigit (n / 16) :: hexDigit (n % 16) :: rest) = some (n, rest) := by
  have hzero : hexValue? '0' = some 0 := by decide
  have hvalue : ((0 * 16 + 0) * 16 + n / 16) * 16 + n % 16 = n := by omega
  simp only [readHex4, hzero, hexValue?_hexDigit (by omega : n / 16 < 16),
    hexValue?_hexDigit (by omega : n % 16 < 16), Option.bind_eq_bind, Option.bind_some, hvalue,
    Option.pure_def]

/-- An escape is read as the character it was made from. -/
theorem readPieces_escape (c : Char) (fuel : Nat) (rest : List Char) :
    readPieces (fuel + 1) (escape c ++ rest) =
      (readPieces fuel rest).map fun (pieces, rest) => (.char c :: pieces, rest) := by
  have hescaped : ∀ text, readEscape text = some (.char c, rest) →
      readPieces (fuel + 1) ('\\' :: text) =
        (readPieces fuel rest).map fun (pieces, rest) => (.char c :: pieces, rest) := by
    intro text h
    rw [readPieces, if_neg (by decide), if_pos rfl, h]
    simp only [Option.bind_eq_bind, Option.bind_some]
    cases readPieces fuel rest <;> rfl
  unfold escape
  split
  case h_8 _ hquote hslash _ _ _ _ _ =>
    split
    next hcontrol =>
      have hhalf : isHighHalf c.toNat = false ∧ isLowHalf c.toNat = false := by
        simp only [isHighHalf, isLowHalf, Bool.and_eq_false_iff, decide_eq_false_iff_not]
        omega
      refine hescaped _ ?_
      simp [readEscape, readHex4_control hcontrol, hhalf]
    next hcontrol =>
      rw [List.singleton_append, readPieces, if_neg hquote, if_neg hslash, if_neg hcontrol]
      cases readPieces fuel rest <;> rfl
  all_goals exact hescaped _ rfl

theorem readPieces_flatMap_escape (text : List Char) {fuel : Nat} (h : text.length < fuel)
    (rest : List Char) :
    readPieces fuel (text.flatMap escape ++ '"' :: rest) = some (text.map .char, rest) := by
  induction text generalizing fuel with
  | nil =>
    obtain ⟨fuel, rfl⟩ : ∃ n, fuel = n + 1 := ⟨fuel - 1, by simp at h; omega⟩
    rw [List.flatMap_nil, List.nil_append, readPieces, if_pos rfl]
    rfl
  | cons c text ih =>
    rw [List.length_cons] at h
    obtain ⟨fuel, rfl⟩ : ∃ n, fuel = n + 1 := ⟨fuel - 1, by omega⟩
    rw [List.flatMap_cons, List.append_assoc, readPieces_escape, ih (by omega)]
    rfl

theorem joinPieces_map_char (text : List Char) : joinPieces (text.map .char) = some text := by
  induction text with
  | nil => rfl
  | cons c text ih => rw [List.map_cons, joinPieces, ih, Option.map_some]

theorem length_pos_escape (c : Char) : 0 < (escape c).length := by
  unfold escape
  split
  case h_8 => split <;> exact Nat.succ_pos _
  all_goals exact Nat.succ_pos _

theorem length_le_flatMap_escape (text : List Char) :
    text.length ≤ (text.flatMap escape).length := by
  induction text with
  | nil => exact Nat.le_refl _
  | cons c text ih =>
    have := length_pos_escape c
    rw [List.flatMap_cons, List.length_append, List.length_cons]
    omega

/-- Behind its opening quote, a string reads as its text. -/
theorem readString_flatMap_escape (text : String) (rest : List Char) :
    readString (text.toList.flatMap escape ++ '"' :: rest) = some (some text, rest) := by
  have hfuel : text.toList.length <
      (text.toList.flatMap escape ++ '"' :: rest).length + 1 := by
    have := length_le_flatMap_escape text.toList
    rw [List.length_append]
    omega
  rw [readString, readPieces_flatMap_escape text.toList hfuel]
  simp only [Option.bind_eq_bind, Option.bind_some, joinPieces_map_char, Option.map_some,
    String.ofList_toList, Option.pure_def]

/-! ## Spaces -/

theorem skipSpaces_of_not_isSpace {c : Char} (h : isSpace c = false) (rest : List Char) :
    skipSpaces (c :: rest) = c :: rest := by
  rw [skipSpaces, List.dropWhile_cons_of_neg (by simp [h])]

theorem skipSpaces_newline (depth : Depth) (rest : List Char) :
    skipSpaces (newline depth ++ rest) = skipSpaces rest := by
  cases depth with
  | none => rfl
  | some depth =>
    have hspaces : ∀ n, skipSpaces (List.replicate n ' ' ++ rest) = skipSpaces rest := by
      intro n
      induction n with
      | zero => rfl
      | succ n ih =>
        rw [List.replicate_succ, List.cons_append, skipSpaces,
          List.dropWhile_cons_of_pos (by decide)]
        exact ih
    rw [newline, List.cons_append, skipSpaces, List.dropWhile_cons_of_pos (by decide)]
    exact hspaces (2 * depth)

theorem skipSpaces_skipSpaces (text : List Char) :
    skipSpaces (skipSpaces text) = skipSpaces text := by
  induction text with
  | nil => rfl
  | cons c text ih =>
    by_cases h : isSpace c = true
    · simpa only [skipSpaces, List.dropWhile_cons_of_pos h] using ih
    · simp only [skipSpaces, List.dropWhile_cons_of_neg h]

theorem readValue_eq_of_skipSpaces {text other : List Char}
    (h : skipSpaces text = skipSpaces other) (fuel : Nat) :
    readValue fuel text = readValue fuel other := by
  cases fuel with
  | zero => rfl
  | succ fuel => rw [readValue, readValue, h]

theorem readItems_skipSpaces (fuel : Nat) (text : List Char) :
    readItems fuel (skipSpaces text) = readItems fuel text := by
  cases fuel with
  | zero => rfl
  | succ fuel =>
    rw [readItems, readItems, readValue_eq_of_skipSpaces (skipSpaces_skipSpaces text)]

theorem readMembers_skipSpaces (fuel : Nat) (text : List Char) :
    readMembers fuel (skipSpaces text) = readMembers fuel text := by
  cases fuel with
  | zero => rfl
  | succ fuel => rw [readMembers, readMembers, skipSpaces_skipSpaces]

/-! ## Values -/

/-- A value that is read back from its written form. -/
def ReadsBack (depth : Depth) (json : Json) : Prop :=
  ∀ fuel rest, 2 * (writeAt depth json).length ≤ fuel →
    readValue fuel (writeAt depth json ++ rest) = some (json, rest)

theorem ReadsBack.text (depth : Depth) (text : String) : ReadsBack depth (.text text) := by
  intro fuel rest hfuel
  have hwritten : writeAt depth (.text text) ++ rest =
      '"' :: (text.toList.flatMap escape ++ '"' :: rest) := by
    simp [writeAt, Json.text, quoteOption, quote]
  have hlength : 0 < (writeAt depth (.text text)).length := by
    simp [writeAt, Json.text, quoteOption, quote]
  obtain ⟨fuel, rfl⟩ : ∃ n, fuel = n + 1 := ⟨fuel - 1, by omega⟩
  rw [hwritten, readValue, skipSpaces_of_not_isSpace (by decide)]
  simp only [readString_flatMap_escape, Option.map_some, Json.text]

theorem ReadsBack.bool (depth : Depth) (value : Bool) : ReadsBack depth (.bool value) := by
  intro fuel rest hfuel
  obtain ⟨fuel, rfl⟩ : ∃ n, fuel = n + 1 := by
    refine ⟨fuel - 1, ?_⟩
    cases value <;> simp [writeAt] at hfuel <;> omega
  cases value <;> rfl

/-- Items up to the closing bracket. -/
theorem readItems_writeItems {depth : Depth} {item : Json} {items : List Json}
    (hitem : ReadsBack depth item) (hitems : ∀ other ∈ items, ReadsBack depth other)
    (outer : Depth) (fuel : Nat)
    (hfuel : 2 * ((writeAt depth item).length + (writeItems depth items).length) < fuel)
    (rest : List Char) :
    readItems fuel (newline depth ++ (writeAt depth item ++ (writeItems depth items ++
      (newline outer ++ ']' :: rest)))) = some (item :: items, rest) := by
  induction items generalizing item fuel with
  | nil =>
    obtain ⟨fuel, rfl⟩ : ∃ n, fuel = n + 1 := ⟨fuel - 1, by omega⟩
    rw [readItems, readValue_eq_of_skipSpaces (skipSpaces_newline depth _),
      hitem fuel _ (by omega)]
    simp only [Option.bind_eq_bind, Option.bind_some, writeItems, List.nil_append,
      skipSpaces_newline, skipSpaces_of_not_isSpace (by decide : isSpace ']' = false),
      Option.pure_def]
  | cons next items ih =>
    obtain ⟨fuel, rfl⟩ : ∃ n, fuel = n + 1 := ⟨fuel - 1, by omega⟩
    simp only [writeItems, List.cons_append, List.length_cons, List.length_append] at hfuel
    have hnext := ih (hitems next List.mem_cons_self)
      (fun other hother => hitems other (List.mem_cons_of_mem _ hother)) fuel (by omega)
    rw [readItems, readValue_eq_of_skipSpaces (skipSpaces_newline depth _),
      hitem fuel _ (by omega)]
    simp only [Option.bind_eq_bind, Option.bind_some, writeItems, List.cons_append,
      List.append_assoc, skipSpaces_of_not_isSpace (by decide : isSpace ',' = false), hnext,
      Option.pure_def]

/-- Items do not start with the closing bracket: it starts no value. -/
theorem readItems_closing {text rest : List Char} (h : skipSpaces text = ']' :: rest)
    (fuel : Nat) : readItems fuel text = none := by
  have hvalue : ∀ fuel, readValue fuel text = none := by
    intro fuel
    cases fuel with
    | zero => rfl
    | succ fuel => rw [readValue, h]; rfl
  cases fuel with
  | zero => rfl
  | succ fuel => rw [readItems, hvalue]; rfl

theorem readValue_bracket {fuel : Nat} {text rest : List Char} {items : List Json}
    (h : readItems fuel text = some (items, rest)) :
    readValue (fuel + 1) ('[' :: text) = some (.arr items, rest) := by
  rw [readValue, skipSpaces_of_not_isSpace (by decide)]
  simp only []
  split
  next hclosing => rw [readItems_closing hclosing] at h; cases h
  next => rw [readItems_skipSpaces, h]; rfl

theorem readValue_brace {fuel : Nat} {text rest : List Char}
    {members : List (Option String × Json)} (h : readMembers fuel text = some (members, rest)) :
    readValue (fuel + 1) ('\x7b' :: text) = some (.obj members, rest) := by
  rw [readValue, skipSpaces_of_not_isSpace (by decide)]
  simp only []
  split
  next hclosing =>
    cases fuel with
    | zero => cases h
    | succ fuel => rw [readMembers, hclosing] at h; cases h
  next => rw [readMembers_skipSpaces, h]; rfl

theorem ReadsBack.arr {depth : Depth} {items : List Json}
    (h : ∀ item ∈ items, ReadsBack depth.deeper item) : ReadsBack depth (.arr items) := by
  intro fuel rest hfuel
  cases items with
  | nil =>
    obtain ⟨fuel, rfl⟩ : ∃ n, fuel = n + 1 := ⟨fuel - 1, by simp [writeAt] at hfuel; omega⟩
    rfl
  | cons item items =>
    simp only [writeAt, List.cons_append, List.length_cons, List.length_append] at hfuel
    obtain ⟨fuel, rfl⟩ : ∃ n, fuel = n + 1 := ⟨fuel - 1, by omega⟩
    have hitems := readItems_writeItems (h item List.mem_cons_self)
      (fun other hother => h other (List.mem_cons_of_mem _ hother)) depth fuel (by omega) rest
    simpa [writeAt] using readValue_bracket hitems

theorem exists_colon (depth : Depth) (text : List Char) :
    ∃ spaced, colon depth ++ text = ':' :: spaced ∧
      ∀ fuel, readValue fuel spaced = readValue fuel text := by
  cases depth with
  | none => exact ⟨text, rfl, fun _ => rfl⟩
  | some _ =>
    have hspace : skipSpaces (' ' :: text) = skipSpaces text :=
      List.dropWhile_cons_of_pos (by decide)
    exact ⟨' ' :: text, rfl, readValue_eq_of_skipSpaces hspace⟩

/-- A member is read up to the end of its value; then the object closes or goes on. -/
theorem readMembers_quote {depth : Depth} {value : Json} (h : ReadsBack depth value)
    (outer : Depth) (key : String) {fuel : Nat} (hfuel : 2 * (writeAt depth value).length ≤ fuel)
    (rest : List Char) :
    let written := newline depth ++ (quote key ++ (colon outer ++ (writeAt depth value ++ rest)))
    (∀ tail, skipSpaces rest = '\x7d' :: tail →
      readMembers (fuel + 1) written = some ([(some key, value)], tail)) ∧
    ∀ tail members stop, skipSpaces rest = ',' :: tail →
      readMembers fuel tail = some (members, stop) →
        readMembers (fuel + 1) written = some ((some key, value) :: members, stop) := by
  intro written
  obtain ⟨spaced, hcolon, hspaced⟩ := exists_colon outer (writeAt depth value ++ rest)
  have hwritten : skipSpaces written =
      '"' :: (key.toList.flatMap escape ++ '"' :: ':' :: spaced) := by
    have hquote : quote key ++ ':' :: spaced =
        '"' :: (key.toList.flatMap escape ++ '"' :: ':' :: spaced) := by
      simp [quote]
    rw [skipSpaces_newline, hcolon, hquote, skipSpaces_of_not_isSpace (by decide)]
  have hread := h fuel rest hfuel
  constructor
  · intro tail hclose
    rw [readMembers, hwritten]
    simp [readString_flatMap_escape, skipSpaces_of_not_isSpace, isSpace, hspaced, hread, hclose]
  · intro tail members stop hcomma hmembers
    rw [readMembers, hwritten]
    simp [readString_flatMap_escape, skipSpaces_of_not_isSpace, isSpace, hspaced, hread, hcomma,
      hmembers]

/-- Members up to the closing brace. -/
theorem readMembers_writeMembers (key : String) {depth : Depth} {value : Json}
    {members : List (String × Json)} (hvalue : ReadsBack depth value)
    (hmembers : ∀ member ∈ members, ReadsBack depth member.2) (first outer : Depth) (fuel : Nat)
    (hfuel : 2 * ((writeAt depth value).length +
      (writeMembers depth (members.map fun member => (some member.1, member.2))).length) < fuel)
    (rest : List Char) :
    readMembers fuel (newline depth ++ (quote key ++ (colon first ++ (writeAt depth value ++
      (writeMembers depth (members.map fun member => (some member.1, member.2)) ++
        (newline outer ++ '\x7d' :: rest)))))) =
      some ((some key, value) :: members.map fun member => (some member.1, member.2), rest) := by
  induction members generalizing key value fuel first with
  | nil =>
    obtain ⟨fuel, rfl⟩ : ∃ n, fuel = n + 1 := ⟨fuel - 1, by omega⟩
    refine (readMembers_quote hvalue first key (by omega) _).1 rest ?_
    rw [List.map_nil, writeMembers, List.nil_append, skipSpaces_newline,
      skipSpaces_of_not_isSpace (by decide)]
  | cons next members ih =>
    obtain ⟨fuel, rfl⟩ : ∃ n, fuel = n + 1 := ⟨fuel - 1, by omega⟩
    simp only [List.map_cons, writeMembers, List.cons_append, List.length_cons,
      List.length_append] at hfuel
    have hlater := ih next.1 (hmembers next List.mem_cons_self)
      (fun other hother => hmembers other (List.mem_cons_of_mem _ hother)) depth fuel (by omega)
    refine (readMembers_quote hvalue first key (by omega) _).2 _ _ rest ?_ hlater
    simp only [List.map_cons, writeMembers, quoteOption, Option.getD_some, List.cons_append,
      List.append_assoc, skipSpaces_of_not_isSpace (by decide : isSpace ',' = false)]

theorem ReadsBack.object {depth : Depth} {members : List (String × Json)}
    (h : ∀ member ∈ members, ReadsBack depth.deeper member.2) :
    ReadsBack depth (.object members) := by
  intro fuel rest hfuel
  cases members with
  | nil =>
    obtain ⟨fuel, rfl⟩ : ∃ n, fuel = n + 1 :=
      ⟨fuel - 1, by simp [Json.object, writeAt] at hfuel; omega⟩
    rfl
  | cons member members =>
    simp only [Json.object, List.map_cons, writeAt, List.cons_append, List.length_cons,
      List.length_append] at hfuel
    obtain ⟨fuel, rfl⟩ : ∃ n, fuel = n + 1 := ⟨fuel - 1, by omega⟩
    have hmembers := readMembers_writeMembers member.1 (h member List.mem_cons_self)
      (fun other hother => h other (List.mem_cons_of_mem _ hother)) depth depth fuel (by omega) rest
    simpa [Json.object, writeAt, quoteOption] using readValue_brace hmembers

/-- A value over several lines, with a newline at the end, is what its text stands for. -/
theorem parse_pretty {json : Json} (h : ReadsBack (some 0) json) :
    parse (json.pretty ++ "\n") = some json := by
  have htext : (json.pretty ++ "\n").toList = writeAt (some 0) json ++ ['\n'] := by
    rw [String.toList_append, pretty, String.toList_ofList]
    rfl
  have hread := h (2 * (writeAt (some 0) json ++ ['\n']).length + 2) ['\n']
    (by rw [List.length_append]; omega)
  have hend : skipSpaces ['\n'] = [] := rfl
  simp only [parse, htext, hread, Option.bind_eq_bind, Option.bind_some, hend, List.isEmpty_nil,
    if_true]

end Usages.Json
