/-
A file that is written is read back, and a file that is written again stays where it is.

`Leads` says which way a path takes to its place, one step for each segment. Writing changes the
entry at one place only, and the way to that place does not lead over it: it is no directory, and
if it is a link it cannot be reached over itself (`Leads.not_link`). So the same steps lead there
afterwards. A disk `Extends` another if it differs in files only, some of which may be new: then
paths that led to something lead there still. Where a file stood before, this goes both ways. A
write that fails changes what stands at the place where the path leads, if anything
(`disk_tryWrite_of_error`).
-/
import Usages.Proofs.Disk
import Usages.Proofs.Except

namespace Usages

/-- A path can end at it and cannot go on from it. -/
def DiskEntry.isLast : DiskEntry → Bool
  | .directory | .link _ => false
  | .text _ | .binary | .unreadable _ | .device _ => true

/-- A regular file that shows what is written to it. -/
def DiskEntry.isPlain : DiskEntry → Bool
  | .text _ | .binary => true
  | .unreadable _ | .device _ | .directory | .link _ => false

theorem DiskEntry.isPlain_iff {entry : DiskEntry} :
    entry.isPlain = true ↔ entry.isFile = true ∧ entry.hidesWrites = false := by
  cases entry <;> simp [isPlain, isFile, hidesWrites]

theorem DiskEntry.isLast_of_isFile {entry : DiskEntry} (h : entry.isFile = true) :
    entry.isLast = true := by
  cases entry <;> first | rfl | cases h

theorem DiskEntry.isLast_of_isPlain {entry : DiskEntry} (h : entry.isPlain = true) :
    entry.isLast = true :=
  isLast_of_isFile (isPlain_iff.1 h).1

namespace Disk

/-! ## Entries -/

theorem lookup_put_self (place : List Name) (entry : DiskEntry)
    (entries : List (List Name × DiskEntry)) :
    (put place entry entries).lookup place = some entry := by
  induction entries with
  | nil => simp [put]
  | cons first rest ih =>
    obtain ⟨other, old⟩ := first
    rw [put]
    split
    · simp
    next hne =>
      rw [List.lookup_cons, beq_false_of_ne (Ne.symm hne)]
      exact ih

theorem lookup_put_of_ne {place other : List Name} (h : other ≠ place) (entry : DiskEntry)
    (entries : List (List Name × DiskEntry)) :
    (put place entry entries).lookup other = entries.lookup other := by
  induction entries with
  | nil => simp [put, List.lookup_cons, beq_false_of_ne h]
  | cons first rest ih =>
    obtain ⟨third, old⟩ := first
    rw [put]
    split
    next heq =>
      subst heq
      rw [List.lookup_cons, List.lookup_cons, beq_false_of_ne h]
    next => rw [List.lookup_cons, List.lookup_cons, ih]

theorem get?_set_self (disk : Disk) {place : List String} (h : place ≠ []) (entry : DiskEntry) :
    (disk.set place entry).get? place = some entry := by
  rw [get?, entryAt?_of_ne_nil _ (by simpa using h)]
  exact lookup_put_self (place.map .text) entry disk.entries

theorem entryAt?_set_of_ne (disk : Disk) {place : List String} {other : List Name}
    (h : other ≠ place.map .text) (entry : DiskEntry) :
    (disk.set place entry).entryAt? other = disk.entryAt? other := by
  by_cases hnil : other = []
  · rw [hnil]
    rfl
  · rw [entryAt?_of_ne_nil _ hnil, entryAt?_of_ne_nil _ hnil]
    exact lookup_put_of_ne h entry disk.entries

theorem get?_set_of_ne (disk : Disk) {place other : List String} (h : other ≠ place)
    (entry : DiskEntry) : (disk.set place entry).get? other = disk.get? other :=
  entryAt?_set_of_ne disk (fun heq => h (Name.map_text_inj.1 heq)) entry

/-! ## The way to a place -/

/-- A segment that names an entry of a directory. -/
structure IsEntryName (segment : String) : Prop where
  counts : Path.isIdle segment = false
  ne_up : segment ≠ ".."
  short : segment.utf8ByteSize ≤ maxNameSize

/-- Where the target of a link starts that stands in the directory `here`. -/
def linkStart (here : List String) (target : String) : List String :=
  if Path.isAbsolute target then [] else here

theorem length_linkStart_le (here : List String) (target : String) :
    (linkStart here target).length ≤ here.length := by
  unfold linkStart
  split
  · exact Nat.zero_le _
  · exact Nat.le_refl _

/-- From `here` the segments lead to `place`, over at most `links` links. -/
inductive Leads (disk : Disk) (create : Bool) :
    (links : Nat) → (here segments place : List String) → Prop
  | arrive {links : Nat} {here : List String} : Leads disk create links here [] here
  | stay {links : Nat} {here rest place : List String} {segment : String} :
      Path.isIdle segment = true → Leads disk create links here rest place →
      Leads disk create links here (segment :: rest) place
  | up {links : Nat} {here rest place : List String} :
      Leads disk create links here.dropLast rest place →
      Leads disk create links here (".." :: rest) place
  | enter {links : Nat} {here rest place : List String} {segment : String} :
      IsEntryName segment → disk.get? (here ++ [segment]) = some .directory →
      Leads disk create links (here ++ [segment]) rest place →
      Leads disk create links here (segment :: rest) place
  | follow {links : Nat} {here rest place : List String} {segment target : String} :
      IsEntryName segment → disk.get? (here ++ [segment]) = some (.link target) →
      Leads disk create links (linkStart here target) (segments target ++ rest) place →
      Leads disk create (links + 1) here (segment :: rest) place
  | file {links : Nat} {here : List String} {segment : String} {entry : DiskEntry} :
      IsEntryName segment → disk.get? (here ++ [segment]) = some entry → entry.isLast = true →
      Leads disk create links here [segment] (here ++ [segment])
  | make {links : Nat} {here : List String} {segment : String} :
      create = true → IsEntryName segment → disk.get? (here ++ [segment]) = none →
      Leads disk create links here [segment] (here ++ [segment])

section Walk

variable {disk : Disk} {create : Bool} {place : List String}

/-- What goes on behind a link when `links` may be left. -/
def followOver (disk : Disk) (create : Bool) :
    (links : Nat) → (here : List String) → List String → Except OsError (List String)
  | 0 => fun _ _ => .error .tooManyLinks
  | links + 1 => walkOver disk create links

theorem walkOver_eq (links : Nat) :
    walkOver disk create links = walk disk create (followOver disk create links) := by
  cases links <;> rfl

theorem walk_name {follow : List String → List String → Except OsError (List String)}
    {here rest : List String} {segment : String} (h : IsEntryName segment) :
    walk disk create follow here (segment :: rest) =
      match disk.get? (here ++ [segment]) with
      | none => if create && rest.isEmpty then .ok (here ++ [segment]) else .error .notFound
      | some .directory => walk disk create follow (here ++ [segment]) rest
      | some (.link target) => follow (linkStart here target) (segments target ++ rest)
      | some _ => if rest.isEmpty then .ok (here ++ [segment]) else .error .notDirectory := by
  have hup : (segment == "..") = false := beq_false_of_ne h.ne_up
  rw [walk, if_neg (ne_true_of_eq_false h.counts), if_neg (ne_true_of_eq_false hup),
    if_neg (Nat.not_lt.2 h.short)]
  rfl

theorem Leads.walkOver {links : Nat} {here segments : List String}
    (h : Leads disk create links here segments place) :
    walkOver disk create links here segments = .ok place := by
  rw [walkOver_eq]
  induction h with
  | arrive => rfl
  | stay hidle _ ih => rw [walk, if_pos hidle]; exact ih
  | up _ ih => exact ih
  | enter hname hentry _ ih => rw [walk_name hname, hentry]; exact ih
  | follow hname hentry _ ih =>
    rw [walk_name hname, hentry]
    simp only [followOver]
    rw [walkOver_eq]
    exact ih
  | file hname hentry hlast =>
    rw [walk_name hname, hentry]
    split <;> simp_all [DiskEntry.isLast]
  | make hcreate hname hentry =>
    rw [walk_name hname, hentry, hcreate]
    rfl

theorem leads_of_walk {links : Nat}
    {follow : List String → List String → Except OsError (List String)}
    (hfollow : ∀ here segments, follow here segments = .ok place →
      ∃ fewer, links = fewer + 1 ∧ Leads disk create fewer here segments place)
    {here segments : List String} (h : walk disk create follow here segments = .ok place) :
    Leads disk create links here segments place := by
  induction segments generalizing here with
  | nil =>
    cases h
    exact .arrive
  | cons segment rest ih =>
    rw [walk] at h
    split at h
    next hidle => exact .stay hidle (ih h)
    next hcounts =>
      split at h
      next hup =>
        rw [eq_of_beq hup]
        exact .up (ih h)
      next hup =>
        split at h
        · cases h
        next hlong =>
          have hname : IsEntryName segment :=
            ⟨eq_false_of_ne_true hcounts, fun heq => hup (by simp [heq]), Nat.not_lt.1 hlong⟩
          split at h
          next hentry =>
            split at h
            next hmake =>
              rw [Bool.and_eq_true, List.isEmpty_iff] at hmake
              cases h
              rw [hmake.2]
              exact .make hmake.1 hname hentry
            next => cases h
          next hentry => exact .enter hname hentry (ih h)
          next target hentry =>
            obtain ⟨fewer, rfl, hleads⟩ := hfollow _ _ h
            exact .follow hname hentry hleads
          next entry hdirectory hlink hentry =>
            split at h
            next hempty =>
              cases h
              rw [List.isEmpty_iff.1 hempty]
              refine .file hname hentry ?_
              cases entry <;> simp_all [DiskEntry.isLast]
            next => cases h

theorem leads_of_walkOver {links : Nat} {here segments : List String}
    (h : walkOver disk create links here segments = .ok place) :
    Leads disk create links here segments place := by
  induction links generalizing here segments with
  | zero => exact leads_of_walk (fun _ _ hfollow => by cases hfollow) h
  | succ links ih => exact leads_of_walk (fun _ _ hfollow => ⟨links, rfl, ih hfollow⟩) h

theorem leads_iff {links : Nat} {here segments : List String} :
    walkOver disk create links here segments = .ok place ↔
      Leads disk create links here segments place :=
  ⟨leads_of_walkOver, Leads.walkOver⟩

end Walk

/-- A link is not reached over itself, but only from below. -/
theorem Leads.not_link {disk : Disk} {create : Bool} {links : Nat}
    {here segments place : List String} {target : String}
    (h : Leads disk create links here segments place)
    (hlink : disk.get? place = some (.link target)) : place <+: here := by
  induction h with
  | arrive => exact List.prefix_rfl
  | stay _ _ ih => exact ih hlink
  | up _ ih => exact (ih hlink).trans (List.dropLast_prefix _)
  | enter _ hentry _ ih =>
    rcases List.prefix_concat_iff.1 (ih hlink) with heq | hprefix
    · rw [heq, hentry] at hlink
      cases hlink
    · exact hprefix
  | follow _ _ _ ih =>
    have hprefix := ih hlink
    unfold linkStart at hprefix
    split at hprefix
    · rw [List.prefix_nil.1 hprefix] at hlink
      cases hlink
    · exact hprefix
  | file _ hentry hlast =>
    rw [hentry] at hlink
    cases hlink
    cases hlast
  | make _ _ hentry =>
    rw [hentry] at hlink
    cases hlink

/-- The way to a place stays open when a text is written there. -/
theorem Leads.of_set {disk : Disk} {create : Bool} {links : Nat}
    {here segments place : List String} (h : Leads disk create links here segments place)
    (hplace : disk.get? place ≠ some .directory) (content : String) :
    Leads (disk.set place (.text content)) false links here segments place := by
  induction h with
  | arrive => exact .arrive
  | stay hidle _ ih => exact .stay hidle (ih hplace)
  | up _ ih => exact .up (ih hplace)
  | @enter links here rest place segment hname hentry _ ih =>
    have hne : here ++ [segment] ≠ place := by
      rintro rfl
      exact hplace hentry
    exact .enter hname ((get?_set_of_ne disk hne _).trans hentry) (ih hplace)
  | @follow links here rest place segment target hname hentry hleads ih =>
    have hne : here ++ [segment] ≠ place := by
      rintro rfl
      have hprefix := (hleads.not_link hentry).length_le
      have hstart := length_linkStart_le here target
      rw [List.length_append, List.length_singleton] at hprefix
      omega
    exact .follow hname ((get?_set_of_ne disk hne _).trans hentry) (ih hplace)
  | file hname _ _ => exact .file hname (get?_set_self disk (by simp) _) rfl
  | make _ hname _ => exact .file hname (get?_set_self disk (by simp) _) rfl

/-- What can be reached can be reached where names may be missing as well. -/
theorem Leads.allow_create {disk : Disk} {create : Bool} {links : Nat}
    {here segments place : List String} (h : Leads disk create links here segments place) :
    Leads disk true links here segments place := by
  induction h with
  | arrive => exact .arrive
  | stay hidle _ ih => exact .stay hidle ih
  | up _ ih => exact .up ih
  | enter hname hentry _ ih => exact .enter hname hentry ih
  | follow hname hentry _ ih => exact .follow hname hentry ih
  | file hname hentry hlast => exact .file hname hentry hlast
  | make _ hname hentry => exact .make rfl hname hentry

/-- The other disk has further files, or other contents of files, and is the same otherwise. -/
structure Extends (disk other : Disk) : Prop where
  workingDirectory_eq : other.workingDirectory = disk.workingDirectory
  unlistable_eq : other.unlistable = disk.unlistable
  faults_eq : other.faults = disk.faults
  alike : ∀ place, other.entryAt? place = disk.entryAt? place ∨
    (∀ entry, disk.entryAt? place = some entry → entry.isPlain = true) ∧
      ∃ entry, other.entryAt? place = some entry ∧ entry.isPlain = true

namespace Extends

variable {disk other : Disk}

theorem refl (disk : Disk) : Extends disk disk :=
  ⟨rfl, rfl, rfl, fun _ => .inl rfl⟩

theorem set (h : Extends disk other) {place : List String}
    (hplace : ∀ entry, disk.get? place = some entry → entry.isPlain = true) (content : String) :
    Extends disk (other.set place (.text content)) := by
  refine ⟨h.workingDirectory_eq, h.unlistable_eq, h.faults_eq, fun third => ?_⟩
  by_cases hthird : third = place.map .text
  · subst hthird
    have hne : place ≠ [] := by
      rintro rfl
      exact absurd (hplace .directory rfl) (by decide)
    exact .inr ⟨hplace, .text content, get?_set_self other hne _, rfl⟩
  · rw [entryAt?_set_of_ne other hthird]
    exact h.alike third

/-- Whatever is no file that shows what is written is the same on both disks. -/
theorem get?_eq_some_iff (h : Extends disk other) {place : List String} {entry : DiskEntry}
    (hentry : entry.isPlain = false) :
    other.get? place = some entry ↔ disk.get? place = some entry := by
  rcases h.alike (place.map .text) with heq | ⟨hold, new, hnew, hplain⟩
  · rw [get?, heq, get?]
  · constructor
    · intro hother
      cases hnew.symm.trans hother
      rw [hplain] at hentry
      cases hentry
    · intro hdisk
      rw [hold entry hdisk] at hentry
      cases hentry

/-- The way to a place is the same where there are further files. -/
theorem leads (h : Extends disk other) {create : Bool} {links : Nat}
    {here segments place : List String} (hleads : Leads disk create links here segments place) :
    Leads other create links here segments place := by
  induction hleads with
  | arrive => exact .arrive
  | stay hidle _ ih => exact .stay hidle ih
  | up _ ih => exact .up ih
  | enter hname hentry _ ih => exact .enter hname ((h.get?_eq_some_iff rfl).2 hentry) ih
  | follow hname hentry _ ih => exact .follow hname ((h.get?_eq_some_iff rfl).2 hentry) ih
  | @file _ here segment entry hname hentry hlast =>
    rcases h.alike ((here ++ [segment]).map .text) with heq | ⟨-, new, hnew, hplain⟩
    · exact .file hname (heq.trans hentry) hlast
    · exact .file hname hnew (DiskEntry.isLast_of_isPlain hplain)
  | @make _ here segment hcreate hname hentry =>
    rcases h.alike ((here ++ [segment]).map .text) with heq | ⟨-, new, hnew, hplain⟩
    · exact .make hcreate hname (heq.trans hentry)
    · exact .file hname hnew (DiskEntry.isLast_of_isPlain hplain)

/-- What was there already was reached the same way. -/
theorem leads_back (h : Extends disk other) {create : Bool} {links : Nat}
    {here segments place : List String} (hleads : Leads other create links here segments place)
    (hold : disk.get? place ≠ none) : Leads disk false links here segments place := by
  induction hleads with
  | arrive => exact .arrive
  | stay hidle _ ih => exact .stay hidle (ih hold)
  | up _ ih => exact .up (ih hold)
  | enter hname hentry _ ih => exact .enter hname ((h.get?_eq_some_iff rfl).1 hentry) (ih hold)
  | follow hname hentry _ ih => exact .follow hname ((h.get?_eq_some_iff rfl).1 hentry) (ih hold)
  | @file _ here segment entry hname hentry hlast =>
    obtain ⟨old, hdisk⟩ := Option.ne_none_iff_exists'.1 hold
    rcases h.alike ((here ++ [segment]).map .text) with heq | ⟨hfiles, -⟩
    · exact .file hname (heq.symm.trans hentry) hlast
    · exact .file hname hdisk (DiskEntry.isLast_of_isPlain (hfiles old hdisk))
  | @make _ here segment _ _ hentry =>
    rcases h.alike ((here ++ [segment]).map .text) with heq | ⟨-, new, hnew, -⟩
    · exact absurd (heq.symm.trans hentry) hold
    · cases hentry.symm.trans hnew

end Extends

/-- The disks differ in the contents of files only. -/
structure SameShape (disk other : Disk) : Prop where
  workingDirectory_eq : disk.workingDirectory = other.workingDirectory
  unlistable_eq : disk.unlistable = other.unlistable
  faults_eq : disk.faults = other.faults
  alike : ∀ place, disk.entryAt? place = other.entryAt? place ∨
    (∃ entry, disk.entryAt? place = some entry ∧ entry.isPlain = true) ∧
      ∃ entry, other.entryAt? place = some entry ∧ entry.isPlain = true

theorem SameShape.refl (disk : Disk) : SameShape disk disk :=
  ⟨rfl, rfl, rfl, fun _ => .inl rfl⟩

theorem SameShape.symm {disk other : Disk} (h : SameShape disk other) : SameShape other disk :=
  ⟨h.workingDirectory_eq.symm, h.unlistable_eq.symm, h.faults_eq.symm,
    fun place => (h.alike place).imp Eq.symm And.symm⟩

theorem sameShape_set {disk : Disk} {place : List String} {entry : DiskEntry}
    (h : disk.get? place = some entry) (hplain : entry.isPlain = true) (content : String) :
    SameShape disk (disk.set place (.text content)) := by
  refine ⟨rfl, rfl, rfl, fun other => ?_⟩
  by_cases hother : other = place.map .text
  · subst hother
    have hne : place ≠ [] := by
      rintro rfl
      cases h
      cases hplain
    exact .inr ⟨⟨entry, h, hplain⟩, .text content, get?_set_self disk hne _, rfl⟩
  · exact .inl (entryAt?_set_of_ne disk hother _).symm

theorem SameShape.extending {disk other : Disk} (h : SameShape disk other) :
    Extends disk other := by
  refine ⟨h.workingDirectory_eq.symm, h.unlistable_eq.symm, h.faults_eq.symm, fun place => ?_⟩
  rcases h.alike place with heq | ⟨⟨entry, hentry, hplain⟩, hother⟩
  · exact .inl heq.symm
  · refine .inr ⟨fun other hsame => ?_, hother⟩
    cases hentry.symm.trans hsame
    exact hplain

theorem SameShape.file_of_file {disk other : Disk} (h : SameShape disk other) {place : List String}
    {entry : DiskEntry} (hentry : disk.get? place = some entry) (hfile : entry.isFile = true) :
    ∃ entry, other.get? place = some entry ∧ entry.isFile = true := by
  rcases h.alike (place.map .text) with heq | ⟨-, entry, hentry, hplain⟩
  · exact ⟨entry, heq.symm.trans hentry, hfile⟩
  · exact ⟨entry, hentry, (DiskEntry.isPlain_iff.1 hplain).1⟩

/-! ## Paths -/

/-- What a path has to be, and which way it takes, to lead to a place. -/
theorem locate_eq_ok {disk : Disk} {create : Bool} {path : String} {place : List String} :
    disk.locate create path = .ok place ↔
      path.toList.contains '\x00' = false ∧ path.isEmpty = false ∧
        Leads disk create maxLinks (if Path.isAbsolute path then [] else disk.workingDirectory)
          (segments path) place := by
  unfold locate
  cases hnul : path.toList.contains '\x00' with
  | true => simp
  | false =>
    cases hempty : path.isEmpty with
    | true => simp
    | false => simp [leads_iff]

/-- Every path leads where it led. -/
theorem Extends.locate {disk other : Disk} (h : Extends disk other) {create : Bool} {path : String}
    {place : List String} (hlocate : disk.locate create path = .ok place) :
    other.locate create path = .ok place := by
  obtain ⟨hnul, hempty, hleads⟩ := locate_eq_ok.1 hlocate
  refine locate_eq_ok.2 ⟨hnul, hempty, ?_⟩
  rw [h.workingDirectory_eq]
  exact h.leads hleads

theorem Extends.resolve_back {disk other : Disk} (h : Extends disk other) {create : Bool}
    {path : String} {place : List String} (hlocate : other.locate create path = .ok place)
    (hold : disk.get? place ≠ none) : disk.resolve path = .ok place := by
  obtain ⟨hnul, hempty, hleads⟩ := locate_eq_ok.1 hlocate
  refine locate_eq_ok.2 ⟨hnul, hempty, ?_⟩
  rw [← h.workingDirectory_eq]
  exact h.leads_back hleads hold

theorem SameShape.resolve {disk other : Disk} (h : SameShape disk other) {path : String}
    {place : List String} (hresolve : disk.resolve path = .ok place) :
    other.resolve path = .ok place :=
  h.extending.locate hresolve

theorem isFile_eq_true {disk : Disk} {path : String} :
    disk.isFile path = true ↔ ∃ place entry, disk.resolve path = .ok place ∧
      disk.get? place = some entry ∧ entry.isFile = true := by
  unfold isFile
  constructor
  · intro h
    split at h
    next place hresolve =>
      obtain ⟨entry, hentry, hfile⟩ := (Option.any_eq_true _ _).1 h
      exact ⟨place, entry, hresolve, hentry, hfile⟩
    next => cases h
  · rintro ⟨place, entry, hresolve, hentry, hfile⟩
    simp only [hresolve, hentry]
    exact hfile

theorem SameShape.isFile {disk other : Disk} (h : SameShape disk other) (path : String) :
    other.isFile path = disk.isFile path := by
  have hto : ∀ {disk other : Disk}, SameShape disk other → disk.isFile path = true →
      other.isFile path = true := by
    intro disk other h hfile
    obtain ⟨place, entry, hresolve, hentry, hfile⟩ := isFile_eq_true.1 hfile
    obtain ⟨entry, hentry, hfile⟩ := h.file_of_file hentry hfile
    exact isFile_eq_true.2 ⟨place, entry, h.resolve hresolve, hentry, hfile⟩
  exact Bool.eq_iff_iff.2 ⟨hto h.symm, hto h⟩

/-! ## Writing -/

theorem locate_of_resolve {disk : Disk} {path : String} {place : List String}
    (h : disk.resolve path = .ok place) : disk.locate true path = .ok place := by
  obtain ⟨hnul, hempty, hleads⟩ := locate_eq_ok.1 h
  exact locate_eq_ok.2 ⟨hnul, hempty, hleads.allow_create⟩

/-- What is written under the path does not show when it is read again. -/
def hidesWrites (disk : Disk) (path : String) : Bool :=
  match disk.locate true path with
  | .ok place => (disk.get? place).any DiskEntry.hidesWrites
  | .error _ => false

/-- A regular file that can be read shows what is written to it. -/
theorem not_hidesWrites_of_read {disk : Disk} {path content : String}
    (hfile : disk.isFile path = true) (h : disk.read path = .ok content) :
    disk.hidesWrites path = false := by
  obtain ⟨place, entry, hresolve, hentry, hfile⟩ := isFile_eq_true.1 hfile
  simp only [read, hresolve, bind, Except.bind, hentry] at h
  simp only [hidesWrites, locate_of_resolve hresolve, hentry, Option.any_some]
  cases entry with
  | unreadable cause => cases h
  | device content => cases hfile
  | _ => rfl

theorem store_of_hidesWrites {disk : Disk} {path : String} {place : List String}
    (hhides : disk.hidesWrites path = true) (hlocate : disk.locate true path = .ok place)
    (entry : DiskEntry) : disk.store place entry = disk := by
  simp only [hidesWrites, hlocate] at hhides
  rw [store, if_pos hhides]

theorem target_eq_ok {disk : Disk} {path : String} {place : List String} :
    disk.target path = .ok place ↔
      endsInSlash path = false ∧ disk.locate true path = .ok place := by
  rw [target]
  cases endsInSlash path with
  | true =>
    simp only [if_true, Bool.true_eq_false, false_and, iff_false]
    intro h
    obtain ⟨_, -, h⟩ := bind_eq_ok.1 h
    cases h
  | false => simp

/-- What a write to a place can do. -/
theorem writeAt_cases (disk : Disk) (place : List String) (content : String) :
    (disk.get? place ≠ some .directory ∧ disk.faults.lookup place = none ∧
      disk.writeAt place content = ⟨disk.store place (.text content), .ok ()⟩) ∨
    (∃ cause, disk.writeAt place content = ⟨disk, .error cause⟩) ∨
    ∃ cause count, disk.faults.lookup place = some ⟨cause, some count⟩ ∧
      disk.writeAt place content =
        ⟨disk.store place (.ofBytes ((Text.encode content.toList).take count)), .error cause⟩ := by
  rw [writeAt]
  by_cases hplace : disk.get? place = some .directory
  · rw [if_pos hplace]
    exact .inr (.inl ⟨_, rfl⟩)
  · rw [if_neg hplace]
    cases hfault : disk.faults.lookup place with
    | none => exact .inl ⟨hplace, rfl, rfl⟩
    | some fault =>
      obtain ⟨cause, written?⟩ := fault
      cases written? with
      | none => exact .inr (.inl ⟨cause, rfl⟩)
      | some count => exact .inr (.inr ⟨cause, count, rfl, rfl⟩)

theorem writeAt_of_no_fault {disk : Disk} {place : List String}
    (hplace : disk.get? place ≠ some .directory) (hfault : disk.faults.lookup place = none)
    (content : String) :
    disk.writeAt place content = ⟨disk.store place (.text content), .ok ()⟩ := by
  rw [writeAt, if_neg hplace, hfault]

theorem write_eq_ok {disk saved : Disk} {path content : String} :
    disk.write path content = .ok saved ↔ endsInSlash path = false ∧
      ∃ place, disk.locate true path = .ok place ∧ disk.get? place ≠ some .directory ∧
        disk.faults.lookup place = none ∧ saved = disk.store place (.text content) := by
  simp only [write, tryWrite]
  constructor
  · intro h
    cases htarget : disk.target path with
    | error cause => rw [htarget] at h; cases h
    | ok place =>
      obtain ⟨hslash, hlocate⟩ := target_eq_ok.1 htarget
      simp only [htarget] at h
      rcases disk.writeAt_cases place content with ⟨hplace, hfault, hwrite⟩ | ⟨_, hwrite⟩ |
        ⟨_, _, -, hwrite⟩
      · rw [hwrite] at h
        exact ⟨hslash, place, hlocate, hplace, hfault, (Except.ok.inj h).symm⟩
      · rw [hwrite] at h
        cases h
      · rw [hwrite] at h
        cases h
  · rintro ⟨hslash, place, hlocate, hplace, hfault, rfl⟩
    simp only [target_eq_ok.2 ⟨hslash, hlocate⟩, writeAt_of_no_fault hplace hfault]
    rfl

/-- What a write that fails leaves: the disk as it was, or the beginning of the text at the place of
the path. -/
theorem disk_tryWrite_of_error {disk : Disk} {path content : String} {cause : OsError}
    (h : disk.write path content = .error cause) :
    (disk.tryWrite path content).disk = disk ∨
      ∃ place count, disk.locate true path = .ok place ∧
        disk.faults.lookup place = some ⟨cause, some count⟩ ∧
        (disk.tryWrite path content).disk =
          disk.set place (.ofBytes ((Text.encode content.toList).take count)) := by
  simp only [write, tryWrite] at h ⊢
  cases htarget : disk.target path with
  | error cause => exact .inl rfl
  | ok place =>
    simp only [htarget] at h
    rcases disk.writeAt_cases place content with ⟨-, -, hwrite⟩ | ⟨_, hwrite⟩ |
      ⟨_, count, hfault, hwrite⟩
    · rw [hwrite] at h
      cases h
    · exact .inl (congrArg Written.disk hwrite)
    · rw [hwrite] at h
      cases h
      simp only [hwrite, store]
      split
      · exact .inl rfl
      · exact .inr ⟨place, count, (target_eq_ok.1 htarget).2, hfault, rfl⟩

/-- What is written stands at the place where the path leads from then on. -/
theorem resolve_write {disk saved : Disk} {path content : String}
    (h : disk.write path content = .ok saved) (hshows : disk.hidesWrites path = false) :
    ∃ place, saved.resolve path = .ok place ∧ saved.get? place = some (.text content) := by
  obtain ⟨-, place, hlocate, hplace, -, rfl⟩ := write_eq_ok.1 h
  obtain ⟨hnul, hempty, hleads⟩ := locate_eq_ok.1 hlocate
  have hne : place ≠ [] := by
    rintro rfl
    exact hplace rfl
  simp only [hidesWrites, hlocate] at hshows
  rw [store, if_neg (ne_true_of_eq_false hshows)]
  exact ⟨place, locate_eq_ok.2 ⟨hnul, hempty, hleads.of_set hplace content⟩,
    get?_set_self disk hne _⟩

theorem read_write {disk saved : Disk} {path content : String}
    (h : disk.write path content = .ok saved) (hshows : disk.hidesWrites path = false) :
    saved.read path = .ok content := by
  obtain ⟨place, hresolve, hentry⟩ := resolve_write h hshows
  simp only [read, hresolve, bind, Except.bind, hentry]

theorem isFile_write {disk saved : Disk} {path content : String}
    (h : disk.write path content = .ok saved) (hshows : disk.hidesWrites path = false) :
    saved.isFile path = true := by
  obtain ⟨place, hresolve, hentry⟩ := resolve_write h hshows
  exact isFile_eq_true.2 ⟨place, .text content, hresolve, hentry, rfl⟩

/-- A file that is written again stays where it is, and so does everything else. -/
theorem sameShape_write {disk saved : Disk} {path content : String}
    (h : disk.write path content = .ok saved) (hfile : disk.isFile path = true) :
    SameShape disk saved := by
  obtain ⟨-, place, hlocate, -, -, rfl⟩ := write_eq_ok.1 h
  obtain ⟨known, entry, hresolve, hentry, hfile⟩ := isFile_eq_true.1 hfile
  cases (locate_of_resolve hresolve).symm.trans hlocate
  rw [store, hentry, Option.any_some]
  cases hhides : entry.hidesWrites with
  | true => exact .refl disk
  | false => exact sameShape_set hentry (DiskEntry.isPlain_iff.2 ⟨hfile, hhides⟩) content

end Disk

end Usages
