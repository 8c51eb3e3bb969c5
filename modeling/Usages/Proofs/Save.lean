/-
Files saved one after the other below a directory.

`locate_join` says where a path below a root leads if no link stands under its names: to the place
the names make. So a write changes this one place, and what could be written before can be written
still (`Extends.write`). After all writes each path has its text, and everything else is as it was
(`Extends.writeAll`); `Stores` keeps what can be said then of files and of reading.
-/
import Usages.Proofs.Except
import Usages.Proofs.Write

namespace Usages

/-- What can be read. -/
def DiskEntry.content? : DiskEntry → Option String
  | .text content | .device content => some content
  | .binary | .unreadable _ | .directory | .link _ => none

namespace Disk

/-! ## Paths below a root -/

/-- A segment that stays where it is makes no difference in front of others. -/
theorem walkOver_skip_idle (disk : Disk) (create : Bool) {idle : String} {back : List String}
    (hidle : Path.isIdle idle = true) (hback : back ≠ []) (links : Nat)
    (here front : List String) :
    walkOver disk create links here (front ++ idle :: back) =
      walkOver disk create links here (front ++ back) := by
  have hwalk : ∀ follow : List String → List String → Except OsError (List String),
      (∀ here front, follow here (front ++ idle :: back) = follow here (front ++ back)) →
      ∀ here front, walk disk create follow here (front ++ idle :: back) =
        walk disk create follow here (front ++ back) := by
    intro follow hfollow here front
    induction front generalizing here with
    | nil => rw [List.nil_append, walk, if_pos hidle, List.nil_append]
    | cons segment front ih =>
      have hempty : (front ++ idle :: back).isEmpty = (front ++ back).isEmpty := by
        cases front with
        | nil => simp [hback]
        | cons _ _ => rfl
      rw [List.cons_append, List.cons_append, walk, walk]
      simp only [ih, hempty, ← List.append_assoc, hfollow]
  induction links generalizing here front with
  | zero => exact hwalk _ (fun _ _ => rfl) here front
  | succ links ih => exact hwalk _ ih here front

/-- Behind a directory, the way goes on from there. -/
theorem Leads.walkOver_append {disk : Disk} {links : Nat} {here front middle : List String}
    (h : Leads disk false links here front middle) (hmiddle : disk.get? middle = some .directory) :
    ∃ left, ∀ create back, Disk.walkOver disk create links here (front ++ back) =
      Disk.walkOver disk create left middle back := by
  induction h with
  | @arrive links here => exact ⟨links, fun _ _ => rfl⟩
  | stay hidle _ ih =>
    obtain ⟨left, ih⟩ := ih hmiddle
    refine ⟨left, fun create back => ?_⟩
    rw [← ih, walkOver_eq, List.cons_append, walk, if_pos hidle]
  | up _ ih =>
    obtain ⟨left, ih⟩ := ih hmiddle
    refine ⟨left, fun create back => ?_⟩
    rw [← ih, walkOver_eq]
    rfl
  | enter hname hentry _ ih =>
    obtain ⟨left, ih⟩ := ih hmiddle
    refine ⟨left, fun create back => ?_⟩
    rw [← ih, walkOver_eq, List.cons_append, walk_name hname, hentry]
  | follow hname hentry _ ih =>
    obtain ⟨left, ih⟩ := ih hmiddle
    refine ⟨left, fun create back => ?_⟩
    rw [← ih, walkOver_eq, List.cons_append, walk_name hname, hentry, List.append_assoc]
    rfl
  | file _ hentry hlast =>
    rw [hmiddle] at hentry
    cases hentry
    cases hlast
  | make hcreate _ _ => cases hcreate

/-- Names under which no links stand. -/
structure Plain (disk : Disk) (place names : List String) : Prop where
  ne_nil : names ≠ []
  isName : ∀ name ∈ names, Path.IsName name
  no_link : ∀ front, front <+: names → ∀ target, disk.get? (place ++ front) ≠ some (.link target)

/-- Without links, names lead over directories to the place they make. -/
theorem Leads.eq_append {disk : Disk} {create : Bool} {links : Nat} {here names place : List String}
    (h : Leads disk create links here names place) (hhere : disk.get? here = some .directory)
    (hname : ∀ name ∈ names, Path.IsName name)
    (hlink : ∀ front, front <+: names → ∀ target, disk.get? (here ++ front) ≠ some (.link target)) :
    place = here ++ names ∧ disk.get? (here ++ names.dropLast) = some .directory := by
  induction names generalizing here with
  | nil =>
    cases h
    simpa using hhere
  | cons name rest ih =>
    have hfirst := hname name List.mem_cons_self
    cases h with
    | stay hidle _ =>
      rw [hfirst.counts] at hidle
      cases hidle
    | up _ => exact absurd rfl hfirst.ne_up
    | enter _ hentry hrest =>
      obtain ⟨rfl, hparent⟩ := ih hrest hentry (fun other hother => hname other (.tail _ hother))
        fun front hfront target => by
          rw [List.append_assoc]
          exact hlink (name :: front) (List.cons_prefix_cons.2 ⟨rfl, hfront⟩) target
      refine ⟨by simp, ?_⟩
      cases rest with
      | nil => simpa using hhere
      | cons next others =>
        rw [List.dropLast_cons_cons]
        simpa using hparent
    | follow _ hentry _ =>
      exact absurd hentry (hlink [name] (List.cons_prefix_cons.2 ⟨rfl, List.nil_prefix⟩) _)
    | file _ _ _ => simpa using hhere
    | make _ _ _ => simpa using hhere

section Below

variable {disk : Disk} {root : String} {place names : List String}

/-- A path below a root goes on from the place of the root. -/
theorem exists_leads_join_iff (hroot : disk.resolve root = .ok place)
    (hplace : disk.get? place = some .directory) (hne : names ≠ [])
    (hname : ∀ name ∈ names, Path.IsName name) :
    ∃ links, ∀ create target, Leads disk create maxLinks
        (if Path.isAbsolute (Path.join root (Path.joinSegments names)) then []
          else disk.workingDirectory)
        (segments (Path.join root (Path.joinSegments names))) target ↔
      Leads disk create links place names target := by
  obtain ⟨-, hempty, hleads⟩ := locate_eq_ok.1 hroot
  have hbase : root ≠ "" := by
    rintro rfl
    cases hempty
  obtain ⟨front, -, hfront, hsegments⟩ := Path.exists_segments_join hbase
  obtain ⟨left, happend⟩ := hleads.walkOver_append hplace
  refine ⟨left, fun create target => ?_⟩
  rw [hsegments _ (Path.not_isAbsolute_joinSegments hname), Path.segments_joinSegments hne hname,
    Path.isAbsolute_join_eq hbase (Path.not_isAbsolute_joinSegments hname), ← leads_iff,
    ← leads_iff, ← happend]
  rcases hfront with ⟨hfront, -⟩ | hfront
  · rw [hfront]
  · rw [hfront, List.append_assoc, List.singleton_append,
      walkOver_skip_idle disk create rfl hne]

/-- Where a path below a root leads, from the place of the root. -/
theorem leads_of_locate_join (hroot : disk.resolve root = .ok place)
    (hplace : disk.get? place = some .directory) (hne : names ≠ [])
    (hname : ∀ name ∈ names, Path.IsName name) {create : Bool} {target : List String}
    (h : disk.locate create (Path.join root (Path.joinSegments names)) = .ok target) :
    ∃ links, Leads disk create links place names target := by
  obtain ⟨links, hjoin⟩ := exists_leads_join_iff hroot hplace hne hname
  exact ⟨links, (hjoin create target).1 (locate_eq_ok.1 h).2.2⟩

/-- A path below a root leads to the place its names make, in a directory. -/
theorem locate_join (hroot : disk.resolve root = .ok place)
    (hplace : disk.get? place = some .directory) (hplain : disk.Plain place names) {create : Bool}
    {target : List String}
    (h : disk.locate create (Path.join root (Path.joinSegments names)) = .ok target) :
    target = place ++ names ∧ disk.get? (place ++ names.dropLast) = some .directory := by
  obtain ⟨links, hleads⟩ := leads_of_locate_join hroot hplace hplain.ne_nil hplain.isName h
  exact hleads.eq_append hplace hplain.isName hplain.no_link

end Below

/-! ## Trees with a further file -/

theorem map_fst_put (place : List Name) (entry : DiskEntry)
    (entries : List (List Name × DiskEntry)) :
    (put place entry entries).map Prod.fst =
      if place ∈ entries.map Prod.fst then entries.map Prod.fst
      else entries.map Prod.fst ++ [place] := by
  induction entries with
  | nil => simp [put]
  | cons first rest ih =>
    obtain ⟨other, old⟩ := first
    rw [put]
    by_cases hother : other = place
    · simp [hother]
    · rw [if_neg hother, List.map_cons, ih, List.map_cons]
      by_cases hmem : place ∈ rest.map Prod.fst
      · rw [if_pos hmem, if_pos (List.mem_cons_of_mem _ hmem)]
      · rw [if_neg hmem, if_neg (by simp [hmem, Ne.symm hother]), List.cons_append]

theorem mem_map_fst_put {place other : List Name} {entry : DiskEntry}
    {entries : List (List Name × DiskEntry)} :
    other ∈ (put place entry entries).map Prod.fst ↔
      other = place ∨ other ∈ entries.map Prod.fst := by
  rw [map_fst_put]
  split
  next hmem =>
    refine ⟨.inr, ?_⟩
    rintro (rfl | h)
    · exact hmem
    · exact h
  next => rw [List.mem_append, List.mem_singleton, or_comm]

/-- A disk stays a tree when a file is put into one of its directories. -/
theorem IsTree.set {disk : Disk} (tree : disk.IsTree) {directory : List String} {name : String}
    (hdirectory : disk.get? directory = some .directory) (hname : Path.IsName name)
    (hfree : ∀ entry, disk.get? (directory ++ [name]) = some entry → entry.isPlain = true)
    (entry : DiskEntry) : (disk.set (directory ++ [name]) entry).IsTree := by
  have hkept : ∀ place, disk.entryAt? place = some .directory →
      (disk.set (directory ++ [name]) entry).entryAt? place = some .directory := by
    intro place hplace
    rw [entryAt?_set_of_ne _ _ entry, hplace]
    rintro rfl
    exact absurd (hfree _ hplace) (by decide)
  refine ⟨?_, ?_, fun place hplace => ?_, fun place hplace => ?_⟩
  · rw [Disk.set, map_fst_put]
    split
    · exact tree.nodup
    next hnew =>
      refine List.nodup_append.2 ⟨tree.nodup, by simp, fun place hplace other hother => ?_⟩
      rw [List.mem_singleton.1 hother]
      rintro rfl
      exact hnew hplace
  · rw [Disk.set, mem_map_fst_put]
    rintro (hnil | hmem)
    · simp at hnil
    · exact tree.below_root hmem
  · rcases mem_map_fst_put.1 hplace with rfl | hmem
    · intro other hother
      rw [List.map_append] at hother
      rcases List.mem_append.1 hother with hother | hother
      · exact tree.isName_of_entryAt? hdirectory other hother
      · rw [List.mem_singleton.1 hother]
        exact hname
    · exact tree.isName place hmem
  · rcases mem_map_fst_put.1 hplace with rfl | hmem
    · rw [List.map_append, List.map_singleton, List.dropLast_concat]
      exact hkept _ hdirectory
    · exact hkept _ (tree.inside place hmem)

/-! ## Saving -/

/-- Whatever is written under a path below a root, over no link, can be read there. -/
structure Savable (disk : Disk) (root : String) (place : List String) (path : String)
    (names : List String) : Prop where
  path_eq : path = Path.join root (Path.joinSegments names)
  plain : disk.Plain place names
  writable : ∀ content, ∃ saved, disk.write path content = .ok saved ∧
    saved.read path = .ok content

/-- Write files one after the other. -/
def writeAll (disk : Disk) : List (String × String) → Except OsError Disk
  | [] => .ok disk
  | (path, content) :: rest => do
    (← disk.write path content).writeAll rest

/-- Where every text that is written can be read, none is hidden. -/
theorem not_hidesWrites {disk : Disk} {path : String}
    (h : ∀ content, ∃ saved, disk.write path content = .ok saved ∧
      saved.read path = .ok content) : disk.hidesWrites path = false := by
  refine Bool.eq_false_iff.2 fun hhides => ?_
  have hread : ∀ content, disk.read path = .ok content := by
    intro content
    obtain ⟨saved, hwrite, hread⟩ := h content
    obtain ⟨-, place, hlocate, -, -, rfl⟩ := write_eq_ok.1 hwrite
    rwa [store_of_hidesWrites hhides hlocate] at hread
  have hsame := Except.ok.inj ((hread "").symm.trans (hread "a"))
  exact absurd hsame (by decide)

section Saving

variable {disk : Disk} {root : String} {place : List String}
  (hroot : disk.resolve root = .ok place) (hplace : disk.get? place = some .directory)

include hroot hplace

/-- Where a file that can be written goes, and what was there before. -/
theorem Savable.locate {path : String} {names : List String}
    (h : disk.Savable root place path names) :
    endsInSlash path = false ∧ disk.locate true path = .ok (place ++ names) ∧
      disk.get? (place ++ names.dropLast) = some .directory ∧
      disk.faults.lookup (place ++ names) = none ∧
      ∀ entry, disk.get? (place ++ names) = some entry → entry.isPlain = true := by
  obtain ⟨rfl, hplain, hwritable⟩ := h
  obtain ⟨saved, hwrite, -⟩ := hwritable ""
  obtain ⟨hslash, target, hlocate, hfree, hfault, -⟩ := write_eq_ok.1 hwrite
  obtain ⟨rfl, hparent⟩ := locate_join hroot hplace hplain hlocate
  refine ⟨hslash, hlocate, hparent, hfault, fun entry hentry => ?_⟩
  have hshows := not_hidesWrites hwritable
  simp only [hidesWrites, hlocate, hentry, Option.any_some] at hshows
  cases entry with
  | text => rfl
  | binary => rfl
  | unreadable => cases hshows
  | device => cases hshows
  | directory => exact absurd hentry hfree
  | link target => exact absurd hentry (hplain.no_link names List.prefix_rfl target)

/-- One file is saved. -/
theorem Extends.write {other : Disk} (h : Extends disk other) (tree : other.IsTree) {path : String}
    {names : List String} (hsave : disk.Savable root place path names) (content : String) :
    other.write path content = .ok (other.set (place ++ names) (.text content)) ∧
      (other.set (place ++ names) (.text content)).IsTree ∧
      Extends disk (other.set (place ++ names) (.text content)) := by
  obtain ⟨hslash, hlocate, hparent, hfault, hfree⟩ := hsave.locate hroot hplace
  have hfree' : ∀ entry, other.get? (place ++ names) = some entry → entry.isPlain = true := by
    intro entry hentry
    refine Bool.of_not_eq_false fun hother => ?_
    rw [hfree entry ((h.get?_eq_some_iff hother).1 hentry)] at hother
    cases hother
  have hstore : other.store (place ++ names) (.text content) =
      other.set (place ++ names) (.text content) := by
    rw [store, if_neg]
    intro hhides
    obtain ⟨entry, hentry, hhides⟩ := (Option.any_eq_true _ _).1 hhides
    rw [(DiskEntry.isPlain_iff.1 (hfree' entry hentry)).2] at hhides
    cases hhides
  refine ⟨write_eq_ok.2 ⟨hslash, _, h.locate hlocate, fun hdirectory => ?_, h.faults_eq ▸ hfault,
    hstore.symm⟩, ?_, h.set hfree content⟩
  · exact absurd (hfree' _ hdirectory) (by decide)
  · have hcut : place ++ names =
        place ++ names.dropLast ++ [names.getLast hsave.plain.ne_nil] := by
      rw [List.append_assoc, List.dropLast_concat_getLast]
    rw [hcut] at hfree' ⊢
    exact tree.set ((h.get?_eq_some_iff rfl).2 hparent)
      (hsave.plain.isName _ (List.getLast_mem _)) hfree' _

/-- All files are saved: under each path there is its text, and otherwise what was there. -/
theorem Extends.writeAll {other : Disk} (h : Extends disk other) (tree : other.IsTree)
    {texts : List (String × String)} (hpaths : (texts.map Prod.fst).Nodup)
    (hsave : ∀ path ∈ texts.map Prod.fst, ∃ names, disk.Savable root place path names) :
    ∃ saved, other.writeAll texts = .ok saved ∧ saved.IsTree ∧ Extends disk saved ∧
      (∀ names, names ≠ [] → (∀ name ∈ names, Path.IsName name) →
        saved.get? (place ++ names) =
          ((texts.lookup (Path.join root (Path.joinSegments names))).map .text).or
            (other.get? (place ++ names))) ∧
      ∀ third : List Name, (∀ texts : List String, third ≠ texts.map .text) →
        saved.entryAt? third = other.entryAt? third := by
  induction texts generalizing other with
  | nil => exact ⟨other, rfl, tree, h, fun _ _ _ => rfl, fun _ _ => rfl⟩
  | cons first rest ih =>
    obtain ⟨path, content⟩ := first
    rw [List.map_cons, List.nodup_cons] at hpaths
    obtain ⟨written, hwritten⟩ := hsave path List.mem_cons_self
    obtain ⟨hwrite, htree, hextends⟩ := h.write hroot hplace tree hwritten content
    obtain ⟨saved, hall, hsaved, hlast, hstored, hraw⟩ := ih hextends htree hpaths.2
      fun other hother => hsave other (List.mem_cons_of_mem _ hother)
    refine ⟨saved, ?_, hsaved, hlast, fun names hne hname => ?_, fun third hthird => ?_⟩
    · rw [Disk.writeAll, hwrite]
      exact hall
    · rw [hstored names hne hname, List.lookup_cons]
      by_cases heq : names = written
      · subst heq
        have hlookup : rest.lookup path = none := by
          rw [List.lookup_eq_none_iff]
          intro document hdocument
          have hne : path ≠ document.1 := by
            rintro rfl
            exact hpaths.1 (List.mem_map.2 ⟨document, hdocument, rfl⟩)
          simpa using hne
        rw [← hwritten.path_eq, hlookup, beq_self_eq_true, get?_set_self _ (by simp [hne])]
        rfl
      · have hother : Path.join root (Path.joinSegments names) ≠ path := by
          intro hjoin
          rw [hwritten.path_eq] at hjoin
          exact heq (Path.join_injective root hne hname hwritten.plain.ne_nil
            hwritten.plain.isName hjoin)
        rw [beq_false_of_ne hother, get?_set_of_ne]
        exact fun happend => heq (List.append_cancel_left happend)
    · rw [hraw third hthird, entryAt?_set_of_ne other (hthird _)]

end Saving

/-! ## What is saved -/

/-- A tree that extends a disk by texts under paths below a root. -/
structure Stores (disk : Disk) (root : String) (place : List String)
    (texts : List (String × String)) (saved : Disk) : Prop where
  isTree : saved.IsTree
  extending : Extends disk saved
  savable : ∀ path ∈ texts.map Prod.fst, ∃ names, disk.Savable root place path names
  get?_eq : ∀ names, names ≠ [] → (∀ name ∈ names, Path.IsName name) →
    saved.get? (place ++ names) =
      ((texts.lookup (Path.join root (Path.joinSegments names))).map .text).or
        (disk.get? (place ++ names))
  /-- No path leads to a place with a name that is no text. -/
  entryAt?_eq : ∀ third : List Name, (∀ texts : List String, third ≠ texts.map .text) →
    saved.entryAt? third = disk.entryAt? third

/-- Files that can each be written can all be written, in any order. -/
theorem exists_writeAll {disk : Disk} (tree : disk.IsTree) {root : String} {place : List String}
    (hroot : disk.resolve root = .ok place) (hplace : disk.get? place = some .directory)
    {texts order : List (String × String)} (hpaths : (texts.map Prod.fst).Nodup)
    (hsave : ∀ path ∈ texts.map Prod.fst, ∃ names, disk.Savable root place path names)
    (horder : order.Perm texts) :
    ∃ saved, disk.writeAll order = .ok saved ∧ Stores disk root place texts saved := by
  have hkeys := horder.map Prod.fst
  have hlookup : ∀ path, order.lookup path = texts.lookup path := by
    refine fun path => Option.ext fun text => ?_
    rw [lookup_eq_some_iff_mem (hkeys.nodup_iff.2 hpaths), lookup_eq_some_iff_mem hpaths,
      horder.mem_iff]
  obtain ⟨saved, hall, hsaved, hextends, hget, hraw⟩ := (Extends.refl disk).writeAll hroot hplace
    tree (hkeys.nodup_iff.2 hpaths) fun path hpath => hsave path (hkeys.mem_iff.1 hpath)
  refine ⟨saved, hall, hsaved, hextends, hsave, fun names hne hname => ?_, hraw⟩
  rw [hget names hne hname, hlookup]

theorem readText_eq_ok {disk : Disk} {file text : String} :
    disk.readText file = .ok text ↔ ∃ place, disk.resolve file = .ok place ∧
      (disk.get? place).bind DiskEntry.content? = some text := by
  have hread : disk.readText file = .ok text ↔ disk.read file = .ok text := by
    unfold readText
    split <;> simp_all
  rw [hread, read, bind_eq_ok]
  refine exists_congr fun place => and_congr_right fun _ => ?_
  cases disk.get? place with
  | none => simp
  | some entry => cases entry <;> simp [DiskEntry.content?]

theorem Entered.directory {disk : Disk} {place : List String} {names front : List Name}
    (h : disk.Entered place names) (hplace : disk.get? place = some .directory)
    (hfront : front <+: names) : disk.entryAt? (place.map .text ++ front) = some .directory := by
  induction h with
  | start =>
    rw [List.prefix_nil.1 hfront, List.append_nil]
    exact hplace
  | enter _ hentry ih =>
    rcases List.prefix_concat_iff.1 hfront with rfl | hfront
    · exact hentry
    · exact ih hfront

/-- A name in a directory that is reached over directories, if no link stands there. -/
theorem Entered.plain {disk : Disk} {place directory : List String} {name : String}
    (h : disk.Entered place (directory.map .text)) (hplace : disk.get? place = some .directory)
    (hname : ∀ other ∈ directory ++ [name], Path.IsName other)
    (hlink : ∀ target, disk.get? (place ++ (directory ++ [name])) ≠ some (.link target)) :
    disk.Plain place (directory ++ [name]) := by
  refine ⟨by simp, hname, fun front hfront target hentry => ?_⟩
  rcases List.prefix_concat_iff.1 hfront with rfl | hfront
  · exact hlink target hentry
  · rw [get?_append, h.directory hplace (hfront.map Name.text)] at hentry
    cases hentry

theorem IsTree.plain_of_hasFile {disk : Disk} (tree : disk.IsTree) {place names : List String}
    (hplace : disk.get? place = some .directory) (h : disk.HasFile place (names.map .text)) :
    disk.Plain place names := by
  have hname : ∀ name ∈ names, Path.IsName name :=
    fun name hmem => tree.isName_of_hasFile h _ (List.mem_map_of_mem hmem)
  have hne : names ≠ [] := fun hnil => h.ne_nil (by rw [hnil]; rfl)
  obtain ⟨directory, name, rfl⟩ := (List.eq_nil_or_concat names).resolve_left hne
  rw [List.concat_eq_append, List.map_append, List.map_singleton] at h
  rw [List.concat_eq_append] at hname ⊢
  obtain ⟨front, last, hcut, hentered, entry, hentry, hfile⟩ := h
  obtain ⟨rfl, -⟩ := List.append_inj' hcut rfl
  rw [← List.map_singleton, ← List.map_append, ← get?_append] at hentry
  refine hentered.plain hplace hname fun target hlink => ?_
  rw [hlink] at hentry
  cases hentry
  cases hfile

namespace Stores

variable {disk saved : Disk} {root : String} {place : List String}
  {texts : List (String × String)} (h : Stores disk root place texts saved)

include h

theorem plain_iff {names : List String} : saved.Plain place names ↔ disk.Plain place names := by
  constructor
  · rintro ⟨hne, hname, hlink⟩
    exact ⟨hne, hname, fun front hfront target hentry =>
      hlink front hfront target ((h.extending.get?_eq_some_iff rfl).2 hentry)⟩
  · rintro ⟨hne, hname, hlink⟩
    exact ⟨hne, hname, fun front hfront target hentry =>
      hlink front hfront target ((h.extending.get?_eq_some_iff rfl).1 hentry)⟩

/-- The files with texts for names are those that were there and those that were saved. -/
theorem hasFile_iff (tree : disk.IsTree) {names : List String} (hne : names ≠ [])
    (hname : ∀ name ∈ names, Path.IsName name) :
    saved.HasFile place (names.map .text) ↔ disk.HasFile place (names.map .text) ∨
      Path.join root (Path.joinSegments names) ∈ texts.map Prod.fst := by
  have hmap : names.map Name.text ≠ [] := by simpa using hne
  rw [h.isTree.hasFile_iff hmap, tree.hasFile_iff hmap, ← get?_append, ← get?_append,
    h.get?_eq names hne hname, mem_map_fst_iff]
  cases texts.lookup (Path.join root (Path.joinSegments names)) with
  | none => simp
  | some text => simp [DiskEntry.isFile]

/-- Files with names that are no texts are neither saved nor lost. -/
theorem hasFile_raw_iff (tree : disk.IsTree) {names : List Name} (hraw : ¬ Name.AllText names) :
    saved.HasFile place names ↔ disk.HasFile place names := by
  have hne : names ≠ [] := by
    rintro rfl
    exact hraw ⟨[], rfl⟩
  have hplace : ∀ texts : List String, place.map .text ++ names ≠ texts.map .text := by
    intro texts htexts
    obtain ⟨_, lower, -, -, hlower⟩ := List.append_eq_map_iff.1 htexts
    exact hraw ⟨lower, hlower.symm⟩
  rw [h.isTree.hasFile_iff hne, tree.hasFile_iff hne, h.entryAt?_eq _ hplace]

variable (hroot : disk.resolve root = .ok place) (hplace : disk.get? place = some .directory)

include hroot hplace

/-- What can be read under a path that no link stands under. -/
theorem toOption_readText {names : List String} (hplain : disk.Plain place names) :
    (saved.readText (Path.join root (Path.joinSegments names))).toOption =
      (texts.lookup (Path.join root (Path.joinSegments names))).or
        (disk.readText (Path.join root (Path.joinSegments names))).toOption := by
  have hget := h.get?_eq names hplain.ne_nil hplain.isName
  cases hlookup : texts.lookup (Path.join root (Path.joinSegments names)) with
  | some text =>
    rw [hlookup] at hget
    obtain ⟨others, hsave⟩ := h.savable _ (mem_map_fst_iff.2 ⟨text, hlookup⟩)
    obtain rfl := Path.join_injective root hplain.ne_nil hplain.isName hsave.plain.ne_nil
      hsave.plain.isName hsave.path_eq
    obtain ⟨-, hlocate, -⟩ := hsave.locate hroot hplace
    have hresolve := (Extends.refl saved).resolve_back (h.extending.locate hlocate)
      (by simp [hget])
    exact toOption_eq_some.2 (readText_eq_ok.2 ⟨_, hresolve, by rw [hget]; rfl⟩)
  | none =>
    rw [hlookup] at hget
    change saved.get? (place ++ names) = disk.get? (place ++ names) at hget
    refine Option.ext fun text => ?_
    rw [Option.none_or, toOption_eq_some, toOption_eq_some, readText_eq_ok, readText_eq_ok]
    constructor
    · rintro ⟨target, hresolve, htext⟩
      obtain ⟨rfl, -⟩ := locate_join (h.extending.locate hroot)
        ((h.extending.get?_eq_some_iff rfl).2 hplace) (h.plain_iff.2 hplain) hresolve
      rw [hget] at htext
      have hold : disk.get? (place ++ names) ≠ none := by
        intro hnone
        rw [hnone] at htext
        cases htext
      exact ⟨_, h.extending.resolve_back hresolve hold, htext⟩
    · rintro ⟨target, hresolve, htext⟩
      obtain ⟨rfl, -⟩ := locate_join hroot hplace hplain hresolve
      exact ⟨_, h.extending.locate hresolve, hget ▸ htext⟩

end Stores

end Disk

end Usages
