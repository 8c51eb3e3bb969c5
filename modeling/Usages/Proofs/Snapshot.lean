/-
A cache in front of a source that may change.

`Caching.Asks` says which files a computation asks for through its cache. Of these the cache passes
on to the source what it does not know, each file once, in the order of asking; so the requests of a
computation are known from those of its parts, whatever is answered.

What is answered stands from then on. `Cache.run_lines_congr` compares two sources: a run of lookups
cannot tell them apart if they agree on each file at the moment it is first asked for. With a source
that always gives these first answers, the run is one over files that do not change. So
`Cache.lines_from_first_answers` gives the answers and the requests of every run of lookups.
-/
import Mathlib.Data.List.Induction
import Mathlib.Data.List.Nodup
import Usages.Proofs.Entries

namespace Usages

/-! ## Each name once -/

section

variable {α : Type} [DecidableEq α]

theorem eraseDups_concat (items : List α) (item : α) :
    (items ++ [item]).eraseDups = items.eraseDups ++ if item ∈ items then [] else [item] := by
  rw [List.eraseDups_append]
  by_cases h : item ∈ items
  · simp [List.removeAll, h]
  · simp [List.removeAll, h, List.eraseDups_cons]

theorem eraseDups_sublist (items : List α) : items.eraseDups.Sublist items := by
  induction items using List.reverseRecOn with
  | nil => exact .slnil
  | append_singleton items item ih =>
    rw [eraseDups_concat]
    refine ih.append ?_
    split
    · exact List.nil_sublist _
    · exact .refl _

theorem nodup_eraseDups (items : List α) : items.eraseDups.Nodup := by
  induction items using List.reverseRecOn with
  | nil => exact .nil
  | append_singleton items item ih =>
    rw [eraseDups_concat]
    split
    · rwa [List.append_nil]
    next hnew =>
      refine List.nodup_append.2 ⟨ih, List.nodup_singleton _, ?_⟩
      intro other hother new hnew' heq
      rw [List.mem_eraseDups] at hother
      rw [heq, List.mem_singleton.1 hnew'] at hother
      exact hnew hother

/-- What comes before the first copy of a member. -/
theorem takeWhile_ne_of_cut {before : List α} {item : α} (h : item ∉ before) (after : List α) :
    (before ++ item :: after).takeWhile (· ≠ item) = before := by
  have hbefore : ∀ other ∈ before, decide (other ≠ item) = true := by
    intro other hother
    rw [decide_eq_true_eq]
    exact fun heq => h (heq ▸ hother)
  rw [List.takeWhile_append_of_pos hbefore, List.takeWhile_cons_of_neg (by simp), List.append_nil]

end

/-- The names that are asked for and not known yet, each once, in the order of asking. -/
def unknown (known asked : List String) : List String :=
  (asked.removeAll known).eraseDups

theorem mem_removeAll {known asked : List String} {name : String} :
    name ∈ asked.removeAll known ↔ name ∈ asked ∧ name ∉ known := by
  simp [List.removeAll]

theorem mem_unknown {known asked : List String} {name : String} :
    name ∈ unknown known asked ↔ name ∈ asked ∧ name ∉ known := by
  rw [unknown, List.mem_eraseDups, mem_removeAll]

theorem unknown_nil (known : List String) : unknown known [] = [] := rfl

theorem unknown_of_none_known (asked : List String) : unknown [] asked = asked.eraseDups := by
  rw [unknown, List.removeAll, List.filter_eq_self.2 (by simp)]

theorem unknown_singleton (known : List String) (name : String) :
    unknown known [name] = if name ∈ known then [] else [name] := by
  by_cases h : name ∈ known
  · simp [unknown, List.removeAll, h]
  · simp [unknown, List.removeAll, h, List.eraseDups_cons]

theorem unknown_of_subset {known asked : List String} (h : ∀ name ∈ asked, name ∈ known) :
    unknown known asked = [] := by
  rw [unknown, List.removeAll, List.filter_eq_nil_iff.2 (by simpa using h)]
  rfl

/-- Asking goes on where it stopped: what was asked for is known from then on. -/
theorem unknown_append (known asked more : List String) :
    unknown known (asked ++ more) =
      unknown known asked ++ unknown (known ++ unknown known asked) more := by
  have hmore : (more.removeAll known).removeAll (asked.removeAll known) =
      more.removeAll (known ++ unknown known asked) := by
    simp only [List.removeAll, List.filter_filter]
    refine List.filter_congr fun name _ => ?_
    by_cases hknown : name ∈ known
    · simp [hknown]
    · simp [hknown, mem_unknown]
  have hcut : (asked ++ more).removeAll known = asked.removeAll known ++ more.removeAll known :=
    List.filter_append ..
  rw [unknown, hcut, List.eraseDups_append, hmore]
  rfl

/-! ## What a computation asks for -/

namespace Cache

/-- The files that were asked for through the cache, in their order. -/
def files (cache : Cache) : List String :=
  cache.documents.map (·.1)

theorem size_eq (cache : Cache) : cache.size = cache.files.length := by
  rw [size, files, List.length_map]

theorem lookup_eq_none_iff {cache : Cache} {file : String} :
    cache.documents.lookup file = none ↔ file ∉ cache.files := by
  simp only [List.lookup_eq_none_iff, files, List.mem_map, not_exists, not_and, bne_iff_ne, ne_eq]
  exact forall₂_congr fun _ _ => not_congr eq_comm

end Cache

/-- The computation asks for these files through the cache: those that are unknown come to be known
and are requested, and nothing else is. -/
def Caching.Asks {α : Type} (x : Caching α) (asked : List String) : Prop :=
  ∀ (cache : Cache) (log : List String),
    (Threading.caching.run x (cache, log)).2.1.files = cache.files ++ unknown cache.files asked ∧
      (Threading.caching.run x (cache, log)).2.2 = log ++ unknown cache.files asked

namespace Caching.Asks

theorem pure {α : Type} (a : α) : Asks (Pure.pure a) [] := by
  intro cache log
  simp [Threading.caching.run_pure, unknown_nil]

/-- What follows may depend on what was read, but not what it asks for. -/
theorem bind {α β : Type} {x : Caching α} {f : α → Caching β} {asked more : List String}
    (hx : Asks x asked) (hf : ∀ s, Asks (f (Threading.caching.run x s).1) more) :
    Asks (x >>= f) (asked ++ more) := by
  intro cache log
  obtain ⟨hfiles, hlog⟩ := hx cache log
  have hrest := hf (cache, log)
  rw [Threading.caching.run_bind]
  generalize Threading.caching.run x (cache, log) = result at hfiles hlog hrest ⊢
  obtain ⟨a, middle, later⟩ := result
  dsimp only at hfiles hlog hrest ⊢
  subst hlog
  obtain ⟨hfiles', hlog'⟩ := hrest middle (log ++ unknown cache.files asked)
  rw [hfiles', hlog', hfiles, unknown_append]
  exact ⟨List.append_assoc .., List.append_assoc ..⟩

theorem map {α β : Type} {x : Caching α} {asked : List String} (hx : Asks x asked) (f : α → β) :
    Asks (x >>= fun a => Pure.pure (f a)) asked := by
  have h : Asks (x >>= fun a => Pure.pure (f a)) (asked ++ []) := hx.bind fun _ => Asks.pure _
  rwa [List.append_nil] at h

theorem document (source : Source) (file : String) : Asks (Cache.document source file) [file] := by
  intro cache log
  rw [unknown_singleton]
  cases h : cache.documents.lookup file with
  | some known =>
    have hmem : file ∈ cache.files := by
      rw [← Decidable.not_not (p := file ∈ cache.files), ← Cache.lookup_eq_none_iff, h]
      simp
    simp [Cache.run_document_of_known h, hmem]
  | none =>
    rw [Cache.run_document_of_unknown h, if_neg (Cache.lookup_eq_none_iff.1 h)]
    simp [Cache.files]

theorem line (source : Source) (file : String) (n : Nat) :
    Asks (Cache.line source file n) [file] := by
  rw [Cache.line, ← List.append_nil [file]]
  refine (document source file).bind fun s => ?_
  cases (Threading.caching.run (Cache.document source file) s).1 with
  | error error => exact pure _
  | ok found =>
    dsimp only
    cases found.line? n with
    | none => exact pure _
    | some line => exact pure _

theorem lineReader (source : Source) (file : String) (n : Nat) :
    Asks (Cache.lineReader source file n) [file] :=
  (line source file n).map _

end Caching.Asks

/-! ## Lookups one after another -/

namespace Cache

/-- Read lines of files, one after another. -/
def lines (source : Source) : List (String × Nat) → Caching (List (Except SourceError (List Char)))
  | [] => pure []
  | (file, n) :: rest => do
    let answer ← line source file n
    let others ← lines source rest
    return answer :: others

theorem asks_lines (source : Source) (lookups : List (String × Nat)) :
    Caching.Asks (lines source lookups) (lookups.map (·.1)) := by
  induction lookups with
  | nil => exact .pure _
  | cons lookup rest ih => exact (Caching.Asks.line source _ _).bind fun _ => ih.map _

theorem run_lines_snoc (source : Source) (lookups : List (String × Nat)) (file : String) (n : Nat)
    (s : Cache × List String) :
    let middle := Threading.caching.run (lines source lookups) s
    let last := Threading.caching.run (line source file n) middle.2
    Threading.caching.run (lines source (lookups ++ [(file, n)])) s =
      (middle.1 ++ [last.1], last.2) := by
  induction lookups generalizing s with
  | nil =>
    simp only [List.nil_append, lines, Threading.caching.run_bind, Threading.caching.run_pure]
  | cons lookup rest ih =>
    simp only [List.cons_append, lines, Threading.caching.run_bind, Threading.caching.run_pure, ih]

/-- A lookup of a file that is known asks no source, and one of a file that is not asks for the
file. -/
theorem run_line_congr {source other : Source} {file : String} {s : Cache × List String}
    (h : file ∉ s.1.files → source.answer s.2 file = other.answer s.2 file) (n : Nat) :
    Threading.caching.run (line source file n) s = Threading.caching.run (line other file n) s := by
  have hdocument : Threading.caching.run (document source file) s =
      Threading.caching.run (document other file) s := by
    obtain ⟨cache, log⟩ := s
    cases hknown : cache.documents.lookup file with
    | some known => rw [run_document_of_known hknown, run_document_of_known hknown]
    | none =>
      rw [run_document_of_unknown hknown, run_document_of_unknown hknown,
        h (lookup_eq_none_iff.1 hknown)]
  rw [line, Threading.caching.run_bind, hdocument, line, Threading.caching.run_bind]

/-- Two sources that agree on each file when it is first asked for. -/
theorem run_lines_congr {source other : Source} {lookups : List (String × Nat)}
    {s : Cache × List String}
    (h : ∀ before file after, lookups.map (·.1) = before ++ file :: after →
      file ∉ s.1.files ++ before →
      source.answer (s.2 ++ unknown s.1.files before) file =
        other.answer (s.2 ++ unknown s.1.files before) file) :
    Threading.caching.run (lines source lookups) s =
      Threading.caching.run (lines other lookups) s := by
  induction lookups generalizing s with
  | nil => rfl
  | cons lookup rest ih =>
    obtain ⟨file, n⟩ := lookup
    have hfirst : Threading.caching.run (line source file n) s =
        Threading.caching.run (line other file n) s := by
      refine run_line_congr (fun hfile => ?_) n
      have hagree := h [] file (rest.map (·.1)) rfl (by simpa using hfile)
      simpa [unknown_nil] using hagree
    obtain ⟨hfiles, hlog⟩ := Caching.Asks.line other file n s.1 s.2
    rw [lines, Threading.caching.run_bind, Threading.caching.run_bind, hfirst, lines,
      Threading.caching.run_bind, Threading.caching.run_bind]
    generalize Threading.caching.run (line other file n) s = result at hfiles hlog
    obtain ⟨answer, cache, log⟩ := result
    dsimp only at hfiles hlog ⊢
    rw [ih]
    -- What the rest finds unknown behind `before`, the whole finds unknown behind `file :: before`.
    intro before next after hcut hnext
    have hbefore := unknown_append s.1.files [file] before
    rw [hfiles, hlog, List.append_assoc, ← hbefore]
    refine h (file :: before) next after (by rw [List.map_cons, hcut]; rfl) ?_
    intro hmem
    refine hnext ?_
    rw [hfiles]
    simp only [List.mem_append, List.mem_cons, mem_unknown] at hmem ⊢
    by_cases hknown : next ∈ s.1.files
    · exact .inl (.inl hknown)
    · rcases hmem with hmem | rfl | hmem
      · exact absurd hmem hknown
      · exact .inl (.inr ⟨.inl rfl, hknown⟩)
      · exact .inr hmem

/-- What a source answers for a file when it is first asked for, in a run that looks up the files
in turn after the requests in the log. -/
def firstAnswer (source : Source) (log files : List String) (file : String) :
    Except SourceError String :=
  source.answer (log ++ (files.takeWhile (· ≠ file)).eraseDups) file

theorem firstAnswer_of_cut {before : List String} {file : String} (h : file ∉ before)
    (source : Source) (log after : List String) :
    firstAnswer source log (before ++ file :: after) file =
      source.answer (log ++ before.eraseDups) file := by
  rw [firstAnswer, takeWhile_ne_of_cut h]

/-- Lookups in files that always read the same. -/
theorem run_lines_fixed {cache : Cache} {read : String → Except SourceError String}
    (h : cache.Agrees read) (lookups : List (String × Nat)) (log : List String) :
    ∃ after, Threading.caching.run (lines (.fixed read) lookups) (cache, log) =
      (lookups.map fun lookup => lineOf read lookup.1 lookup.2, after) ∧ after.1.Agrees read := by
  induction lookups generalizing cache log with
  | nil => exact ⟨(cache, log), Threading.caching.run_pure _ _, h⟩
  | cons lookup rest ih =>
    obtain ⟨next, hline, hnext⟩ := line_fixed h lookup.1 lookup.2 log
    obtain ⟨after, hrest, hafter⟩ := ih hnext next.2
    refine ⟨after, ?_, hafter⟩
    rw [lines, Threading.caching.run_bind, hline, Threading.caching.run_bind, hrest,
      Threading.caching.run_pure]
    rfl

/-- A run through a new cache gives what the first answers give. -/
theorem run_lines_first (source : Source) (log : List String) (lookups : List (String × Nat)) :
    ∃ cache, Threading.caching.run (lines source lookups) ({}, log) =
        (lookups.map fun lookup =>
          lineOf (firstAnswer source log (lookups.map (·.1))) lookup.1 lookup.2,
        cache, log ++ (lookups.map (·.1)).eraseDups) ∧
      cache.files = (lookups.map (·.1)).eraseDups := by
  have hsame : Threading.caching.run (lines source lookups) ({}, log) =
      Threading.caching.run
        (lines (.fixed (firstAnswer source log (lookups.map (·.1)))) lookups) ({}, log) := by
    refine run_lines_congr fun before file after hcut hfile => ?_
    show _ = firstAnswer source log (lookups.map (·.1)) file
    have hbefore : file ∉ before := by
      simpa [files] using hfile
    rw [hcut, firstAnswer_of_cut hbefore]
    exact congrArg (fun asked => source.answer (log ++ asked) file) (unknown_of_none_known before)
  obtain ⟨⟨cache, later⟩, hrun, -⟩ := run_lines_fixed
    (agrees_empty (firstAnswer source log (lookups.map (·.1)))) lookups log
  obtain ⟨hfiles, hlog⟩ := asks_lines source lookups {} log
  have hempty : ({} : Cache).files = [] := rfl
  rw [hsame, hrun, hempty, unknown_of_none_known] at hfiles hlog
  dsimp only at hfiles hlog
  refine ⟨cache, ?_, hfiles⟩
  rw [hsame, hrun, hlog]

/-- **A cache is a snapshot**, also in front of a source that answers differently each time. After
any lookups through a new cache, the requests made are the files looked up, each once, in the order
in which they were first looked up, and the cache counts them; every lookup was answered from the
first answer for its file: with its error, or with the line of its text, or with the complaint that
there is no such line. A further lookup makes a request exactly if its file is a new one, and then
for this file; it is answered in the same way. -/
theorem lines_from_first_answers (source : Source) (log : List String)
    (lookups : List (String × Nat)) :
    let asked := lookups.map (·.1)
    ∃ cache, Threading.caching.run (lines source lookups) ({}, log) =
        (lookups.map fun lookup => lineOf (firstAnswer source log asked) lookup.1 lookup.2,
          cache, log ++ asked.eraseDups) ∧
      asked.eraseDups.Nodup ∧ cache.size = asked.eraseDups.length ∧
      ∀ file n, ∃ later,
        Threading.caching.run (line source file n) (cache, log ++ asked.eraseDups) =
          (lineOf (firstAnswer source log (asked ++ [file])) file n, later,
            log ++ asked.eraseDups ++ if file ∈ asked then [] else [file]) ∧
        later.size = (asked ++ [file]).eraseDups.length := by
  intro asked
  obtain ⟨cache, hrun, hfiles⟩ := run_lines_first source log lookups
  refine ⟨cache, hrun, nodup_eraseDups _, by rw [size_eq, hfiles], fun file n => ?_⟩
  obtain ⟨later, hlonger, hlater⟩ := run_lines_first source log (lookups ++ [(file, n)])
  have hasked : (lookups ++ [(file, n)]).map (·.1) = asked ++ [file] := List.map_append
  have hgrows : (asked ++ [file]).eraseDups =
      asked.eraseDups ++ if file ∈ asked then [] else [file] := eraseDups_concat asked file
  rw [hasked, run_lines_snoc, hrun, List.map_append, List.map_singleton] at hlonger
  rw [hasked] at hlater
  simp only [Prod.mk.injEq] at hlonger
  obtain ⟨hanswers, hstate⟩ := hlonger
  have hanswer := (List.append_inj' hanswers rfl).2
  refine ⟨later, Prod.ext (List.singleton_inj.1 hanswer) ?_, by rw [size_eq, hlater]⟩
  rw [hstate, hgrows, List.append_assoc]

-- A file that cannot be read the first time stays so, though the source would have it later on.
example :
    let source : Source := ⟨fun log file =>
      if log = [] then .error (.notFound file) else .ok "x\ny"⟩
    let run := Threading.caching.run (lines source [("a", 0), ("b", 1), ("a", 0)]) ({}, [])
    run.1.map Except.toOption = [none, some ['y'], none] ∧ run.2.2 = ["a", "b"] := by
  decide +kernel

end Cache

end Usages
