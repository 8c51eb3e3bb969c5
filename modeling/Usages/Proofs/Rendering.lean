/-
A tree is shown in colour or without. Without, what the command line prints is the text of the tree;
in colour it is that text again once the sequences that start and end styles are erased, as long as
nothing in the tree looks like one. The two printers go through a tree alike, so what holds of the
pieces of a line (`Palette.Shows`) holds of lines, files, groups and trees.
-/
import Usages.Proofs.Highlight

namespace Usages

namespace Cli

/-! ## Style sequences -/

namespace Style

/-- A character that may stand between the bracket and the letter of a sequence. -/
def isParameter (c : Char) : Bool :=
  c.isDigit || c == ';'

/-- What follows the style sequence at the front of a text, if there is one: an escape, a bracket,
digits and semicolons, and an `m`. -/
def behindSequence? : List Char → Option (List Char)
  | '\x1b' :: '[' :: rest =>
    match rest.dropWhile isParameter with
    | 'm' :: behind => some behind
    | _ => none
  | _ => none

theorem length_of_behindSequence? {text behind : List Char}
    (h : behindSequence? text = some behind) : behind.length < text.length := by
  unfold behindSequence? at h
  split at h
  next rest =>
    split at h
    next behind' hdrop =>
      cases h
      have hle := (List.dropWhile_sublist isParameter (l := rest)).length_le
      rw [hdrop] at hle
      simp only [List.length_cons] at hle ⊢
      omega
    next => cases h
  next => cases h

/-- The text without its style sequences. -/
def erase : List Char → List Char
  | [] => []
  | c :: rest =>
    match h : behindSequence? (c :: rest) with
    | some behind =>
      have : behind.length < rest.length + 1 := length_of_behindSequence? h
      erase behind
    | none => c :: erase rest
termination_by text => text.length

theorem erase_of_behind {text behind : List Char} (h : behindSequence? text = some behind) :
    erase text = erase behind := by
  cases text with
  | nil => cases h
  | cons c rest =>
    rw [erase]
    split
    next behind' h' =>
      rw [h] at h'
      cases h'
      rfl
    next h' =>
      rw [h] at h'
      cases h'

theorem erase_cons_of_ne {c : Char} (h : c ≠ '\x1b') (rest : List Char) :
    erase (c :: rest) = c :: erase rest := by
  have hnone : behindSequence? (c :: rest) = none := by
    unfold behindSequence?
    split
    next heq => exact absurd (List.cons.inj heq).1 h
    next => rfl
  rw [erase]
  split
  next hsome =>
    rw [hnone] at hsome
    cases hsome
  next => rfl

theorem erase_append {text : List Char} (h : '\x1b' ∉ text) (rest : List Char) :
    erase (text ++ rest) = text ++ erase rest := by
  induction text with
  | nil => rfl
  | cons c text ih =>
    rw [List.mem_cons, not_or] at h
    rw [List.cons_append, erase_cons_of_ne (Ne.symm h.1), ih h.2, List.cons_append]

theorem erase_sequence {codes : List Char} (h : ∀ c ∈ codes, isParameter c = true)
    (rest : List Char) : erase ('\x1b' :: '[' :: codes ++ 'm' :: rest) = erase rest := by
  have hdrop : (codes ++ 'm' :: rest).dropWhile isParameter = 'm' :: rest := by
    rw [List.dropWhile_append_of_pos h, List.dropWhile_cons_of_neg (by decide)]
  refine erase_of_behind ?_
  simp only [List.cons_append, behindSequence?, hdrop]

theorem isParameter_of_mem_codes (style : Style) :
    ∀ c ∈ (";".intercalate style.codes).toList, isParameter c = true := by
  obtain ⟨bold, dimmed, underlined, colour⟩ := style
  refine List.all_eq_true.1 ?_
  rcases colour with _ | _ | _ | _ | _ <;> cases bold <;> cases dimmed <;> cases underlined <;>
    decide +kernel

theorem erase_opening (style : Style) (rest : List Char) :
    erase (style.opening ++ rest) = erase rest := by
  have hopening := erase_sequence (isParameter_of_mem_codes style) rest
  simpa [opening] using hopening

theorem erase_closing (rest : List Char) : erase (closing ++ rest) = erase rest :=
  @erase_sequence ['0'] (List.all_eq_true.1 (by decide)) rest

/-- A text without escapes ends no style. -/
theorem reopen_of_not_mem (again : List Char) {text : List Char} (h : '\x1b' ∉ text) :
    reopen again text = text := by
  induction text with
  | nil => rfl
  | cons c rest ih =>
    rw [List.mem_cons, not_or] at h
    rw [reopen, ih h.2]
    exact fun _ hc _ => h.1 hc.symm

end Style

/-! ## Output that shows a text -/

namespace Palette

/-- The output shows the text: it is the text or, in colour, the text once its sequences are erased,
whatever follows. -/
def Shows (palette : Palette) (output text : String) : Prop :=
  match palette with
  | plain => output = text
  | coloured => ∀ rest, Style.erase (output.toList ++ rest) = text.toList ++ Style.erase rest

/-- The text can be shown as it is: in colour, an escape in it could be taken for a sequence. -/
def Allows (palette : Palette) (text : String) : Prop :=
  palette = coloured → '\x1b' ∉ text.toList

variable {palette : Palette}

theorem Allows.of_subset {text part : String} (h : palette.Allows text)
    (hpart : part.toList ⊆ text.toList) : palette.Allows part :=
  fun hcoloured hescape => h hcoloured (hpart hescape)

theorem shows_self {text : String} (h : palette.Allows text) : palette.Shows text text := by
  cases palette with
  | plain => rfl
  | coloured => exact Style.erase_append (h rfl)

theorem shows_paint (style : Style) {text : String} (h : palette.Allows text) :
    palette.Shows (palette.paint style text) text := by
  cases palette with
  | plain => rfl
  | coloured =>
    intro rest
    rw [paint, String.toList_ofList, Style.reopen_of_not_mem _ (h rfl), List.append_assoc,
      List.append_assoc, Style.erase_opening, Style.erase_append (h rfl), Style.erase_closing]

theorem Shows.append {output text output' text' : String} (h : palette.Shows output text)
    (h' : palette.Shows output' text') : palette.Shows (output ++ output') (text ++ text') := by
  cases palette with
  | plain =>
    have hsame : output = text := h
    have hsame' : output' = text' := h'
    rw [hsame, hsame']
    rfl
  | coloured =>
    intro rest
    rw [String.toList_append, List.append_assoc, h, h', String.toList_append, List.append_assoc]

theorem Shows.join {α : Type} {output text : α → String} {items : List α}
    (h : ∀ item ∈ items, palette.Shows (output item) (text item)) :
    palette.Shows (String.join (items.map output)) (String.join (items.map text)) := by
  induction items with
  | nil => exact shows_self fun _ => List.not_mem_nil
  | cons item items ih =>
    rw [List.map_cons, List.map_cons, String.join_cons, String.join_cons]
    exact (h item List.mem_cons_self).append (ih fun other hother =>
      h other (List.mem_cons_of_mem item hother))

end Palette

/-- A highlight that does not end before it starts cuts the label into three. -/
theorem shows_highlighted {palette : Palette} {label : String} {highlight : Option Highlight}
    (hlabel : palette.Allows label)
    (hordered : ∀ part ∈ highlight, part.start ≤ part.stop) :
    palette.Shows (highlighted palette label highlight) label := by
  cases highlight with
  | none => exact Palette.shows_self hlabel
  | some part =>
    obtain ⟨start, stop⟩ := part
    have hle : start ≤ stop := hordered ⟨start, stop⟩ rfl
    have hcut : String.ofList (label.toList.take start) ++
        String.ofList ((label.toList.drop start).take (stop - start)) ++
        String.ofList (label.toList.drop stop) = label := by
      have hdrop : label.toList.drop stop = (label.toList.drop start).drop (stop - start) := by
        rw [List.drop_drop, Nat.add_sub_cancel' hle]
      rw [← String.toList_inj, toList_cut, String.toList_ofList, String.toList_ofList,
        String.toList_ofList, hdrop, List.take_append_drop, List.take_append_drop]
    have hpart : ∀ {part : List Char}, part ⊆ label.toList →
        palette.Allows (String.ofList part) :=
      fun hpart => hlabel.of_subset (by rwa [String.toList_ofList])
    have hbefore := Palette.shows_self (hpart (List.take_subset start _))
    have hword := Palette.shows_paint { bold := true, underlined := true }
      (hpart (List.Subset.trans (List.take_subset (stop - start) _) (List.drop_subset start _)))
    have hafter := Palette.shows_self (hpart (List.drop_subset stop _))
    have hshows := (hbefore.append hword).append hafter
    rwa [hcut] at hshows

end Cli

/-! ## Trees -/

/-- What a reference shows. -/
def ReferenceNode.texts (node : ReferenceNode) : List String :=
  [node.label, node.description]

/-- The labels and descriptions of a file and its references. -/
def FileNode.texts (node : FileNode) : List String :=
  node.label :: node.references.flatMap (·.texts)

/-- The labels and descriptions of a group and all below it. -/
def GroupNode.texts (node : GroupNode) : List String :=
  node.label :: match node.body with
    | .flat references => references.flatMap (·.texts)
    | .byFile files => files.flatMap (·.texts)

/-- The labels and descriptions of all nodes. -/
def Tree.texts (tree : Tree) : List String :=
  tree.groups.flatMap (·.texts)

/-- The highlight, if there is one, does not end before it starts. -/
def ReferenceNode.Ordered (node : ReferenceNode) : Prop :=
  ∀ part ∈ node.highlight, part.start ≤ part.stop

theorem ReferenceNode.ordered_ofEntry (name : String) (root : Option String) (entry : Entry) :
    (ofEntry name root entry).Ordered := by
  intro part hpart
  obtain ⟨-, before, after, -, rfl, -⟩ := exists_cut_of_highlightOf hpart
  exact Nat.le_add_right _ _

namespace Cli

variable {palette : Palette}

theorem allows_indent (depth : Nat) : palette.Allows (Tree.indent depth) := by
  intro _ hescape
  rw [Tree.indent, String.toList_ofList] at hescape
  cases List.eq_of_mem_replicate hescape

theorem allows_newline : palette.Allows "\n" :=
  fun _ => by decide

theorem shows_referenceLine (depth : Nat) {node : ReferenceNode}
    (htexts : ∀ text ∈ node.texts, palette.Allows text) (hordered : node.Ordered) :
    palette.Shows (referenceLine palette depth node) (Tree.referenceLine depth node) := by
  have hlabel := shows_highlighted (htexts node.label (by simp [ReferenceNode.texts])) hordered
  have hdescription := Palette.shows_paint { dimmed := true }
    (htexts node.description (by simp [ReferenceNode.texts]))
  have hindent := Palette.shows_self (@allows_indent palette depth)
  have hgap : palette.Shows "  " "  " := Palette.shows_self fun _ => by decide
  have hend := Palette.shows_self (@allows_newline palette)
  exact (((hindent.append hlabel).append hgap).append hdescription).append hend

theorem shows_references (depth : Nat) {nodes : List ReferenceNode}
    (htexts : ∀ text ∈ nodes.flatMap (·.texts), palette.Allows text)
    (hordered : ∀ node ∈ nodes, node.Ordered) :
    palette.Shows (String.join (nodes.map (referenceLine palette depth)))
      (String.join (nodes.map (Tree.referenceLine depth))) :=
  Palette.Shows.join fun node hnode => shows_referenceLine depth
    (fun text htext => htexts text (List.mem_flatMap.2 ⟨node, hnode, htext⟩)) (hordered node hnode)

theorem shows_fileLines {node : FileNode} (htexts : ∀ text ∈ node.texts, palette.Allows text)
    (hordered : ∀ reference ∈ node.references, reference.Ordered) :
    palette.Shows (fileLines palette 1 node) (Tree.fileText node) := by
  have hlabel := htexts node.label List.mem_cons_self
  exact (((Palette.shows_self (allows_indent 1)).append (Palette.shows_paint _ hlabel)).append
    (Palette.shows_self allows_newline)).append
    (shows_references 2 (fun text htext => htexts text (List.mem_cons_of_mem _ htext)) hordered)

theorem shows_groupLines {node : GroupNode} (htexts : ∀ text ∈ node.texts, palette.Allows text)
    (hordered : ∀ reference ∈ node.references, reference.Ordered) :
    palette.Shows (groupLines palette node) (Tree.groupText node) := by
  obtain ⟨label, kind, body⟩ := node
  have hlabel := htexts label List.mem_cons_self
  have hbelow := fun text htext => htexts text (List.mem_cons_of_mem label htext)
  refine ((Palette.shows_paint _ hlabel).append (Palette.shows_self allows_newline)).append ?_
  cases body with
  | flat references => exact shows_references 1 hbelow hordered
  | byFile files =>
    refine Palette.Shows.join fun file hfile => shows_fileLines (fun text htext => ?_) ?_
    · exact hbelow text (List.mem_flatMap.2 ⟨file, hfile, htext⟩)
    · exact fun reference hreference =>
        hordered reference (List.mem_flatMap.2 ⟨file, hfile, hreference⟩)

/-- However a tree came about: if its highlights are in order, its lines show its text. -/
theorem shows_treeLines {tree : Tree} (hsummary : palette.Allows tree.summary)
    (htexts : ∀ text ∈ tree.texts, palette.Allows text)
    (hordered : ∀ reference ∈ tree.references, reference.Ordered) :
    palette.Shows (treeLines palette tree) tree.text := by
  refine ((Palette.shows_paint _ hsummary).append (Palette.shows_self allows_newline)).append ?_
  refine Palette.Shows.join fun group hgroup => shows_groupLines (fun text htext => ?_) ?_
  · exact htexts text (List.mem_flatMap.2 ⟨group, hgroup, htext⟩)
  · exact fun reference hreference =>
      hordered reference (List.mem_flatMap.2 ⟨group, hgroup, hreference⟩)

theorem allows_summary (findings : Findings) : palette.Allows findings.summary := by
  have hnumber : ∀ n : Nat, '\x1b' ∉ (toString n).toList := by
    intro n hescape
    rw [Nat.toString_eq_repr, Nat.toList_repr] at hescape
    have hdigit := Nat.isDigit_of_mem_toDigits (by decide) (by decide) hescape
    cases hdigit
  intro _
  rw [Findings.summary]
  simp only [String.toList_append, List.mem_append, not_or]
  exact ⟨⟨⟨hnumber _, by decide⟩, hnumber _⟩, by decide⟩

theorem ordered_of_mem_ofFindings {findings : Findings} {options : DisplayOptions}
    {root : Option String} {node : ReferenceNode}
    (h : node ∈ (Tree.ofFindings findings options root).references) : node.Ordered := by
  obtain ⟨entry, -, rfl⟩ :=
    List.mem_map.1 ((Tree.nodes_ofFindings_perm findings options root).mem_iff.1 h)
  exact ReferenceNode.ordered_ofEntry findings.symbolName root entry

/-- **The two printers agree.** What is printed for findings without colours is the text of their
tree. With colours it is that text once the style sequences are erased, if no label and no
description has an escape in it. -/
theorem report_shows_tree_text (findings : Findings) (options : DisplayOptions)
    (root : Option String) :
    let tree := Tree.ofFindings findings options root
    findingsReport .plain .human findings tree = tree.text ∧
    ((∀ text ∈ tree.texts, '\x1b' ∉ text.toList) →
      Style.erase (findingsReport .coloured .human findings tree).toList = tree.text.toList) := by
  intro tree
  have hordered : ∀ reference ∈ tree.references, reference.Ordered :=
    fun _ => ordered_of_mem_ofFindings
  refine ⟨?_, fun hescape => ?_⟩
  · have hshows : Palette.plain.Shows (treeLines .plain tree) tree.text :=
      shows_treeLines (allows_summary findings) (fun _ _ => nofun) hordered
    exact hshows
  · have hshows : Palette.coloured.Shows (treeLines .coloured tree) tree.text :=
      shows_treeLines (allows_summary findings) (fun text htext _ => hescape text htext) hordered
    have hall := hshows []
    rwa [List.append_nil, Style.erase, List.append_nil] at hall

/-- A name that occurs twice in a line, by file: only its first place is underlined. -/
theorem report_shows_tree_text_by_file :
    let location : Location := ⟨"/w/src/a.ts", .onLine 2 8 9⟩
    let findings : Findings := ⟨"é", [], [⟨location, .read, some "log(é + é)"⟩]⟩
    let tree := Tree.ofFindings findings { groupByFile := true } (some "/w")
    (∀ text ∈ tree.texts, '\x1b' ∉ text.toList) ∧
      tree.text = "0 writes, 1 reads\nReads (1)\n  a.ts (1)\n    log(é + é)  src/a.ts:3\n" ∧
      findingsReport .plain .human findings tree = tree.text ∧
      findingsReport .coloured .human findings tree =
        "\x1b[1m0 writes, 1 reads\x1b[0m\n\x1b[1;32mReads (1)\x1b[0m\n" ++
          "  \x1b[36ma.ts (1)\x1b[0m\n" ++
          "    log(\x1b[1;4mé\x1b[0m + é)  \x1b[2msrc/a.ts:3\x1b[0m\n" ∧
      Style.erase (findingsReport .coloured .human findings tree).toList = tree.text.toList := by
  intro location findings tree
  have hescape : ∀ text ∈ tree.texts, '\x1b' ∉ text.toList := by decide +kernel
  obtain ⟨hplain, hcoloured⟩ :=
    report_shows_tree_text findings { groupByFile := true } (some "/w")
  exact ⟨hescape, by decide +kernel, hplain, by decide +kernel, hcoloured hescape⟩

end Cli

end Usages
