/-
Names and the paths they make.

A name is known by its bytes: texts have different bytes, and bytes that are no text are those of
none (`Name.bytes_injective`). So names, and lists of names, can be put into one order. A path is a
text exactly if all its names are (`OsPath.ofNames_texts`, `OsPath.ofNames_of_raw`).
-/
import Mathlib.Data.List.Lex
import Usages.Proofs.Path
import Usages.Proofs.Uri
import Usages.Workspace

namespace Usages

namespace Text

theorem decodeLossy_encode (text : List Char) : decodeLossy (encode text) = text :=
  decodeLossy_flatMap_utf8Bytes text

theorem isWellFormed_iff {bytes : List Nat} :
    isWellFormed bytes = true ↔ encode (decodeLossy bytes) = bytes :=
  beq_iff_eq

theorem isWellFormed_encode (text : List Char) : isWellFormed (encode text) = true := by
  rw [isWellFormed_iff, decodeLossy_encode]

end Text

namespace Name

/-- A name that a file or a directory can have. -/
def IsName : Name → Prop
  | text content => Path.IsName content
  | raw bytes _ => bytes.all (fun byte => byte < 256 && byte != 0x2F) = true

instance : DecidablePred IsName
  | text content => inferInstanceAs (Decidable (Path.IsName content))
  | raw bytes _ =>
    inferInstanceAs (Decidable (bytes.all (fun byte => byte < 256 && byte != 0x2F) = true))

theorem bytes_injective {name other : Name} (h : name.bytes = other.bytes) : name = other := by
  have hapart : ∀ {content : String} {bytes : List Nat}, Text.isWellFormed bytes = false →
      Text.encode content.toList ≠ bytes := by
    rintro content _ hraw rfl
    rw [Text.isWellFormed_encode] at hraw
    cases hraw
  cases name with
  | text content =>
    cases other with
    | text content' =>
      have hdecoded := congrArg Text.decodeLossy h
      rw [bytes, bytes, Text.decodeLossy_encode, Text.decodeLossy_encode] at hdecoded
      rw [String.toList_inj.1 hdecoded]
    | raw bytes hraw => exact absurd h (hapart hraw)
  | raw bytes hraw =>
    cases other with
    | text content => exact absurd h.symm (hapart hraw)
    | raw bytes' hraw' =>
      obtain rfl : bytes = bytes' := h
      rfl

theorem text?_eq_some {name : Name} {content : String} :
    name.text? = some content ↔ name = .text content := by
  cases name <;> simp [text?]

theorem map_text_inj {texts others : List String} :
    texts.map Name.text = others.map Name.text ↔ texts = others :=
  List.map_inj_right fun _ _ h => Name.text.inj h

theorem mapM_text?_eq_some {names : List Name} {texts : List String} :
    names.mapM text? = some texts ↔ names = texts.map .text := by
  induction names generalizing texts with
  | nil => simp [eq_comm]
  | cons name names ih =>
    rw [List.mapM_cons, Option.bind_eq_bind, Option.bind_eq_some_iff]
    simp only [text?_eq_some, Option.bind_eq_bind, Option.bind_eq_some_iff, ih, Option.pure_def,
      Option.some.injEq]
    constructor
    · intro h
      obtain ⟨content, rfl, others, rfl, rfl⟩ := h
      rfl
    · intro h
      obtain ⟨content, others, rfl, hname, hothers⟩ := List.map_eq_cons_iff.1 h.symm
      exact ⟨content, hname.symm, others, hothers.symm, rfl⟩

/-- The names are all texts. -/
def AllText (names : List Name) : Prop :=
  ∃ texts : List String, names = texts.map .text

theorem allText_or_raw (names : List Name) : AllText names ∨ names.mapM text? = none := by
  cases h : names.mapM text? with
  | none => exact .inr rfl
  | some texts => exact .inl ⟨texts, mapM_text?_eq_some.1 h⟩

theorem not_allText_of_raw {names : List Name} (h : names.mapM text? = none) :
    ¬ AllText names := by
  intro hall
  obtain ⟨texts, rfl⟩ := hall
  cases h.symm.trans (mapM_text?_eq_some.2 rfl)

instance (names : List Name) : Decidable (AllText names) :=
  decidable_of_iff (names.mapM text? ≠ none)
    ⟨(allText_or_raw names).resolve_right, fun hall hraw => not_allText_of_raw hraw hall⟩

/-! ## Order -/

/-- Names in the order of their bytes. -/
def Before (name other : Name) : Prop :=
  List.Lex (· < ·) name.bytes other.bytes

theorem before_iff {name other : Name} : name.before other = true ↔ name.Before other := by
  rw [before, List.lex_eq_true_iff_lex, Before]
  simp only [Nat.blt_eq]

theorem Before.trans {name other third : Name} (h : name.Before other) (h' : other.Before third) :
    name.Before third :=
  List.lex_trans Nat.lt_trans h h'

theorem not_before_self (name : Name) : ¬ name.Before name :=
  List.lex_irrefl Nat.lt_irrefl name.bytes

instance : Std.Trichotomous Before where
  trichotomous _ _ h h' := bytes_injective (Std.Trichotomous.trichotomous _ _ h h')

end Name

/-- Names in the order of paths: the first difference counts. -/
def NamesBefore (names others : List Name) : Prop :=
  List.Lex Name.Before names others

theorem namesBefore_iff {names others : List Name} :
    namesBefore names others = true ↔ NamesBefore names others := by
  rw [namesBefore, List.lex_eq_true_iff_lex, NamesBefore]
  simp only [Name.before_iff]

theorem NamesBefore.trans {names others third : List Name} (h : NamesBefore names others)
    (h' : NamesBefore others third) : NamesBefore names third :=
  List.lex_trans Name.Before.trans h h'

theorem NamesBefore.ne {names others : List Name} (h : NamesBefore names others) :
    names ≠ others := by
  rintro rfl
  exact List.lex_irrefl Name.not_before_self names h

theorem NamesBefore.of_not {names others : List Name} (h : ¬ NamesBefore names others)
    (hne : names ≠ others) : NamesBefore others names := by
  by_contra hnot
  exact hne (Std.Trichotomous.trichotomous (r := List.Lex Name.Before) names others h hnot)

/-! ## Paths made of names -/

namespace OsPath

theorem ofNames_texts (texts : List String) :
    ofNames (texts.map .text) = .text (Path.joinSegments texts) := by
  unfold ofNames
  split
  next others h => rw [Name.map_text_inj.1 (Name.mapM_text?_eq_some.1 h)]
  next h => cases h.symm.trans (Name.mapM_text?_eq_some.2 rfl)

theorem ofNames_of_raw {names : List Name} (h : names.mapM Name.text? = none) :
    ofNames names = .raw names h := by
  unfold ofNames
  split
  next texts htexts => cases h.symm.trans htexts
  next => rfl

end OsPath

theorem Path.below_texts (root : String) (texts : List String) :
    below root (texts.map .text) = join root (joinSegments texts) := by
  have hshown : Name.shown ∘ Name.text = id := rfl
  rw [below, List.map_map, hshown, List.map_id]

end Usages
