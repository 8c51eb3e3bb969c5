/-
The split of a reference set into writes and reads.

Lines come from a reader with effects. `Threading` says what is used of these effects: they thread
a state. A reader is `Steady` when it gives an answer again once it has given it, as a table of
texts does, and as a cache does even in front of a source that changes. For such readers
`ReferenceSet.partition_splits` states the invariant of the split. The kinds are settled by the
first run: `run_classifyAll_of_settled` computes them from the answers that stand.
-/
import Usages.Partition

namespace Usages

/-! ## Effects -/

/-- Effects that thread a state: what a computation yields from a state, and the state it leaves. -/
structure Threading (m : Type → Type) [Monad m] (σ : Type) where
  run : {α : Type} → m α → σ → α × σ
  run_pure : ∀ {α : Type} (a : α) (s : σ), run (pure a) s = (a, s)
  run_bind : ∀ {α β : Type} (x : m α) (f : α → m β) (s : σ),
    run (x >>= f) s = run (f (run x s).1) (run x s).2

/-- A state monad threads its state. -/
def Threading.state (σ : Type) : Threading (StateM σ) σ where
  run x s := x s
  run_pure _ _ := rfl
  run_bind _ _ _ := rfl

section

variable {m : Type → Type} [Monad m] {σ : Type} (effects : Threading m σ) (line? : LineReader m)

/-- The states that requests for lines lead to. -/
inductive Threading.Reaches (start : σ) : σ → Prop
  | start : Reaches start start
  | request {s : σ} (file : String) (n : Nat) :
    Reaches start s → Reaches start (effects.run (line? file n) s).2

/-- The answer for the line a location starts on. -/
def Threading.answer (s : σ) (location : Location) : Option (List Char) :=
  (effects.run (line? location.file location.range.start.line) s).1

/-- From a state on, an answer that has been given is given again. -/
def Threading.Steady (start : σ) : Prop :=
  ∀ s file n, effects.Reaches line? start s →
    ∀ later, effects.Reaches line? (effects.run (line? file n) s).2 later →
      (effects.run (line? file n) later).1 = (effects.run (line? file n) s).1

variable {effects line?}

theorem Threading.Reaches.trans {s t u : σ} (h : effects.Reaches line? s t)
    (h' : effects.Reaches line? t u) : effects.Reaches line? s u := by
  induction h' with
  | start => exact h
  | request file n _ ih => exact .request file n ih

theorem Threading.Steady.of_reaches {s t : σ} (h : effects.Steady line? s)
    (hst : effects.Reaches line? s t) : effects.Steady line? t :=
  fun u file n hu => h u file n (hst.trans hu)

/-- Classifying asks for lines and does nothing else. -/
theorem reaches_classifyAll (classifier : Classifier) (locations : List Location) (s : σ) :
    effects.Reaches line? s (effects.run (classifyAll classifier line? locations) s).2 := by
  induction locations generalizing s with
  | nil => rw [classifyAll, effects.run_pure]; exact .start
  | cons location rest ih =>
    rw [classifyAll, effects.run_bind, effects.run_bind, effects.run_pure]
    exact Threading.Reaches.trans (.request _ _ .start) (ih _)

/-- A run over locations whose kinds are settled. -/
theorem run_classifyAll_of_settled (classifier : Classifier) (kind : Location → Kind)
    (locations : List Location) (s : σ)
    (h : ∀ location ∈ locations, ∀ later, effects.Reaches line? s later →
      classifier.kindOf location.range (effects.answer line? later location) = kind location) :
    (effects.run (classifyAll classifier line? locations) s).1 =
      locations.map fun location => ⟨location, kind location⟩ := by
  induction locations generalizing s with
  | nil => rw [classifyAll, effects.run_pure]; rfl
  | cons location rest ih =>
    rw [classifyAll, effects.run_bind, effects.run_bind, effects.run_pure]
    have hhere := h location List.mem_cons_self s .start
    rw [Threading.answer] at hhere
    rw [List.map_cons, hhere, ih _ fun other hother later hlater =>
      h other (List.mem_cons_of_mem _ hother) later
        (Threading.Reaches.trans (.request _ _ .start) hlater)]

/-- What a run of a steady reader says of its locations, every later answer says too. -/
theorem Threading.Steady.classifyAll {s : σ} (h : effects.Steady line? s) (classifier : Classifier)
    (locations : List Location) (later : σ)
    (hlater : effects.Reaches line?
      (effects.run (Usages.classifyAll classifier line? locations) s).2 later) :
    (effects.run (Usages.classifyAll classifier line? locations) s).1 =
      locations.map fun location =>
        ⟨location, classifier.kindOf location.range (effects.answer line? later location)⟩ := by
  induction locations generalizing s with
  | nil => rw [Usages.classifyAll, effects.run_pure]; rfl
  | cons location rest ih =>
    rw [Usages.classifyAll, effects.run_bind, effects.run_bind, effects.run_pure] at hlater ⊢
    have hstep : effects.Reaches line? s
        (effects.run (line? location.file location.range.start.line) s).2 := .request _ _ .start
    have hhere := h s location.file location.range.start.line .start later
      ((reaches_classifyAll classifier rest _).trans hlater)
    rw [List.map_cons, answer, hhere, ih (h.of_reaches hstep) hlater]

end

/-! ## Each location once -/

namespace ReferenceSet

theorem firstCopies_eq_eraseDups (seen locations : List Location) :
    firstCopies seen locations =
      (locations.filter fun other => !seen.contains other).eraseDups := by
  induction locations generalizing seen with
  | nil => rfl
  | cons location rest ih =>
    rw [firstCopies]
    split
    next h => rw [ih, List.filter_cons_of_neg (by rw [h]; decide)]
    next h =>
      rw [ih, List.filter_cons_of_pos (by rw [Bool.not_eq_true] at h; rw [h]; decide),
        List.eraseDups_cons, List.filter_filter]
      congr 3
      funext other
      by_cases hother : other = location <;> simp [hother]

theorem mem_firstCopies {seen locations : List Location} {location : Location} :
    location ∈ firstCopies seen locations ↔ location ∈ locations ∧ location ∉ seen := by
  rw [firstCopies_eq_eraseDups, List.mem_eraseDups, List.mem_filter]
  simp

theorem firstCopies_sublist (seen locations : List Location) :
    (firstCopies seen locations).Sublist locations := by
  induction locations generalizing seen with
  | nil => exact .slnil
  | cons location rest ih =>
    rw [firstCopies]
    split
    · exact (ih seen).cons location
    · exact (ih (location :: seen)).cons_cons location

theorem nodup_firstCopies (seen locations : List Location) :
    (firstCopies seen locations).Nodup := by
  induction locations generalizing seen with
  | nil => exact .nil
  | cons location rest ih =>
    rw [firstCopies]
    split
    · exact ih seen
    · refine List.nodup_cons.2 ⟨fun h => ?_, ih (location :: seen)⟩
      exact (mem_firstCopies.1 h).2 List.mem_cons_self

/-- A list without repetitions is kept as it is. -/
theorem firstCopies_of_nodup {seen locations : List Location} (h : locations.Nodup)
    (hseen : ∀ location ∈ locations, location ∉ seen) : firstCopies seen locations = locations := by
  induction locations generalizing seen with
  | nil => rfl
  | cons location rest ih =>
    obtain ⟨hnot, hrest⟩ := List.nodup_cons.1 h
    have hfirst : seen.contains location = false := by
      simpa using hseen location List.mem_cons_self
    rw [firstCopies, if_neg (by rw [hfirst]; decide), ih hrest]
    intro other hother
    simp only [List.mem_cons, not_or]
    exact ⟨fun heq => hnot (heq ▸ hother), hseen other (List.mem_cons_of_mem _ hother)⟩

theorem mem_references {set : ReferenceSet} {location : Location} :
    location ∈ set.references ↔
      location ∈ set.locations ∧ location.contains set.definition = false := by
  rw [references, mem_firstCopies, List.mem_filter]
  simp

theorem references_sublist (set : ReferenceSet) : set.references.Sublist set.locations :=
  (firstCopies_sublist _ _).trans List.filter_sublist

theorem nodup_references (set : ReferenceSet) : set.references.Nodup :=
  nodup_firstCopies _ _

theorem references_eq_eraseDups (set : ReferenceSet) :
    set.references =
      (set.locations.filter fun location => !location.contains set.definition).eraseDups := by
  rw [references, firstCopies_eq_eraseDups]
  simp

/-- Locations that are references of the set already are all the references among them. -/
theorem references_of_subset {set : ReferenceSet} {locations : List Location}
    (hnodup : locations.Nodup) (h : ∀ location ∈ locations, location ∈ set.references) :
    references { set with locations } = locations := by
  have hkeep :
      (locations.filter fun location => !location.contains set.definition) = locations := by
    rw [List.filter_eq_self]
    intro location hlocation
    simp [(mem_references.1 (h location hlocation)).2]
  rw [references]
  simp only [hkeep]
  exact firstCopies_of_nodup hnodup (by simp)

end ReferenceSet

/-! ## The split -/

theorem Kind.eq_read_iff {kind : Kind} : kind = .read ↔ kind ≠ .write := by
  cases kind <;> decide

/-- A location is a write if its line can be read and the text around it there says so. -/
theorem kindOf_eq_write_iff {classifier : Classifier} {range : Range} {line? : Option (List Char)} :
    classifier.kindOf range line? = .write ↔
      ∃ line, line? = some line ∧
        classifier.classify line range.start.column
          (if range.stop.line = range.start.line then range.stop.column else line.length) =
            .write := by
  cases line? with
  | none => simp [Classifier.kindOf]
  | some line => simp [Classifier.kindOf]

namespace ReferenceSet

/-- The references of the set, split by kinds that are known. -/
def splitBy (set : ReferenceSet) (kind : Location → Kind) : Partition :=
  ⟨set.references.filter (kind · = .write), set.references.filter (kind · = .read)⟩

theorem ofReferences_map (set : ReferenceSet) (kind : Location → Kind) :
    Partition.ofReferences (set.references.map fun location => ⟨location, kind location⟩) =
      set.splitBy kind := by
  simp only [Partition.ofReferences, splitBy, List.filter_map, List.map_map, Partition.mk.injEq]
  constructor <;> exact List.map_id _

variable (set : ReferenceSet) (kind : Location → Kind)

theorem splitBy_perm :
    ((set.splitBy kind).writes ++ (set.splitBy kind).reads).Perm set.references := by
  have hreads : (set.splitBy kind).reads =
      set.references.filter fun location => !decide (kind location = .write) := by
    simp only [splitBy, Kind.eq_read_iff, decide_not]
  rw [hreads]
  exact List.filter_append_perm _ _

theorem writes_splitBy_sublist : (set.splitBy kind).writes.Sublist set.locations :=
  List.filter_sublist.trans set.references_sublist

theorem reads_splitBy_sublist : (set.splitBy kind).reads.Sublist set.locations :=
  List.filter_sublist.trans set.references_sublist

theorem nodup_splitBy : ((set.splitBy kind).writes ++ (set.splitBy kind).reads).Nodup :=
  (set.splitBy_perm kind).symm.nodup set.nodup_references

variable {set kind} {location : Location}

theorem mem_splitBy :
    location ∈ (set.splitBy kind).writes ++ (set.splitBy kind).reads ↔
      location ∈ set.references :=
  (set.splitBy_perm kind).mem_iff

theorem mem_writes_splitBy (h : location ∈ set.references) :
    location ∈ (set.splitBy kind).writes ↔ kind location = .write := by
  simp [splitBy, h]

/-- Splitting writes and reads again gives them back. -/
theorem splitBy_again :
    splitBy { set with locations := (set.splitBy kind).writes ++ (set.splitBy kind).reads } kind =
      set.splitBy kind := by
  have hwrite : ∀ location ∈ (set.splitBy kind).writes, kind location = .write := by
    intro location h
    simpa using (List.mem_filter.1 h).2
  have hread : ∀ location ∈ (set.splitBy kind).reads, kind location = .read := by
    intro location h
    simpa using (List.mem_filter.1 h).2
  rw [splitBy, references_of_subset (set.nodup_splitBy kind) fun location => mem_splitBy.1]
  generalize set.splitBy kind = split at hwrite hread
  have hww : split.writes.filter (kind · = .write) = split.writes :=
    List.filter_eq_self.2 (by simpa using hwrite)
  have hrr : split.reads.filter (kind · = .read) = split.reads :=
    List.filter_eq_self.2 (by simpa using hread)
  have hrw : split.reads.filter (kind · = .write) = [] :=
    List.filter_eq_nil_iff.2 fun location h => by simp [hread location h]
  have hwr : split.writes.filter (kind · = .read) = [] :=
    List.filter_eq_nil_iff.2 fun location h => by simp [hwrite location h]
  rw [List.filter_append, List.filter_append, hww, hrr, hrw, hwr, List.append_nil, List.nil_append]

end ReferenceSet

section

variable {m : Type → Type} [Monad m] {σ : Type} {effects : Threading m σ} {line? : LineReader m}

theorem run_partition (set : ReferenceSet) (classifier : Classifier) (s : σ) :
    effects.run (set.partition classifier line?) s =
      (.ofReferences (effects.run (classifyAll classifier line? set.references) s).1,
        (effects.run (classifyAll classifier line? set.references) s).2) := by
  rw [ReferenceSet.partition, effects.run_bind, effects.run_pure, ReferenceSet.classify]

/-- A steady reader settles the kinds of all references in one run. -/
theorem Threading.Steady.partition {s : σ} (h : effects.Steady line? s) (set : ReferenceSet)
    (classifier : Classifier) :
    ∃ kind after, effects.run (set.partition classifier line?) s = (set.splitBy kind, after) ∧
      ∀ location ∈ set.references, ∀ later, effects.Reaches line? after later →
        classifier.kindOf location.range (effects.answer line? later location) = kind location := by
  have hkinds := h.classifyAll classifier set.references
  generalize hrun : effects.run (Usages.classifyAll classifier line? set.references) s = result
    at hkinds
  obtain ⟨found, after⟩ := result
  refine ⟨fun location => classifier.kindOf location.range (effects.answer line? after location),
    after, ?_, ?_⟩
  · rw [run_partition, hrun, ← ReferenceSet.ofReferences_map, ← hkinds after .start]
  · intro location hlocation later hlater
    have hsame := (hkinds later hlater).symm.trans (hkinds after .start)
    simpa using List.map_inj_left.1 hsame location hlocation

/-- **The partition invariant.** With a steady reader, writes and reads together are the references
of the set, which are the locations that do not cover the definition, the first copy of each. Both
keep the order of the lookup, neither repeats a location and they share none. A reference is a
write exactly if the line it starts on can be read and the text around it there says so, whenever
that line is asked for again. Splitting the two lists again changes nothing. -/
theorem ReferenceSet.partition_splits (set : ReferenceSet) (classifier : Classifier) (start : σ)
    (hsteady : effects.Steady line? start) :
    ∃ split after, effects.run (set.partition classifier line?) start = (split, after) ∧
      (split.writes ++ split.reads).Perm set.references ∧
      set.references =
        (set.locations.filter fun location => !location.contains set.definition).eraseDups ∧
      split.writes.Sublist set.locations ∧ split.reads.Sublist set.locations ∧
      split.writes.Nodup ∧ split.reads.Nodup ∧ (∀ location ∈ split.writes, location ∉ split.reads) ∧
      (∀ location, location ∈ split.writes ++ split.reads ↔
        location ∈ set.locations ∧ location.contains set.definition = false) ∧
      ∀ later, effects.Reaches line? after later →
        (∀ location ∈ split.writes ++ split.reads,
          (location ∈ split.writes ↔ ∃ line, effects.answer line? later location = some line ∧
            classifier.classify line location.range.start.column
              (if location.range.stop.line = location.range.start.line then
                location.range.stop.column else line.length) = .write)) ∧
        (effects.run (partition { set with locations := split.writes ++ split.reads } classifier
          line?) later).1 = split := by
  obtain ⟨kind, after, hrun, hsettled⟩ := hsteady.partition set classifier
  obtain ⟨hwrites, hreads, hdisjoint⟩ := List.nodup_append.1 (set.nodup_splitBy kind)
  refine ⟨set.splitBy kind, after, hrun, set.splitBy_perm kind, set.references_eq_eraseDups,
    set.writes_splitBy_sublist kind, set.reads_splitBy_sublist kind, hwrites, hreads,
    fun location hw hr => hdisjoint location hw location hr rfl,
    fun location => mem_splitBy.trans mem_references, fun later hlater => ⟨?_, ?_⟩⟩
  · intro location hlocation
    have hmem := mem_splitBy.1 hlocation
    rw [mem_writes_splitBy hmem, ← hsettled location hmem later hlater, kindOf_eq_write_iff]
  · have hagain := references_of_subset (set.nodup_splitBy kind) fun location => mem_splitBy.1
    rw [run_partition, run_classifyAll_of_settled classifier kind, ofReferences_map, splitBy_again]
    intro location hlocation next hnext
    rw [hagain] at hlocation
    exact hsettled location (mem_splitBy.1 hlocation) next (hlater.trans hnext)

end

/-- A repeated write, the definition itself and a range over several lines of a missing file, with a
reader that counts its requests. -/
theorem ReferenceSet.partition_splits_counted :
    let line? : LineReader (StateM Nat) := fun file n count =>
      (if file = "a" ∧ n = 0 then some ['x', '=', '1'] else none, count + 1)
    let set : ReferenceSet := ⟨"x", ⟨"a", ⟨1, 0⟩⟩, [⟨"a", .onLine 0 0 1⟩, ⟨"a", .onLine 1 0 1⟩,
      ⟨"a", .onLine 0 0 1⟩, ⟨"b", ⟨⟨0, 4⟩, ⟨2, 1⟩⟩⟩]⟩
    (Threading.state Nat).Steady line? 0 ∧
      ∃ split after, (Threading.state Nat).run (set.partition .default line?) 0 = (split, after) ∧
        (split.writes ++ split.reads).Perm [⟨"a", .onLine 0 0 1⟩, ⟨"b", ⟨⟨0, 4⟩, ⟨2, 1⟩⟩⟩] ∧
        ⟨"a", .onLine 0 0 1⟩ ∈ split.writes := by
  intro line? set
  have hsteady : (Threading.state Nat).Steady line? 0 := fun s file n _ later _ => rfl
  obtain ⟨split, after, hrun, hperm, -, -, -, -, -, -, -, hlater⟩ :=
    partition_splits set .default 0 hsteady
  refine ⟨hsteady, split, after, hrun, hperm, ?_⟩
  have hmem : ⟨"a", .onLine 0 0 1⟩ ∈ split.writes ++ split.reads :=
    hperm.mem_iff.2 (List.mem_of_elem_eq_true rfl)
  exact ((hlater after .start).1 _ hmem).2 ⟨['x', '=', '1'], rfl, by decide⟩

end Usages
