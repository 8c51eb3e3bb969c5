/-
Which loaded project a file belongs to.

The search keeps the root with the most components. All roots that contain one path are beginnings
of its components, so of two of them the shorter one lies above the other: the most components and
the innermost root are the same thing (`workspaceFor?_eq_some_iff`), and the order in which projects
are looked at does not show in the answer.
-/
import Usages.Proofs.Session

namespace Usages.Server

open Usages.Path (components)

/-! ## The deepest root -/

/-- Of the projects that contain a path, the one whose root lies below the roots of all others. -/
structure IsDeepest (projects : List (String × Project)) (path : String)
    (best : String × Project) : Prop where
  loaded : best ∈ projects
  contains : components best.2.root <+: components path
  below : ∀ other ∈ projects, other ≠ best → components other.2.root <+: components path →
    components other.2.root <+: components best.2.root ∧
      components other.2.root ≠ components best.2.root

theorem IsDeepest.unique {projects : List (String × Project)} {path : String}
    {best other : String × Project} (h : IsDeepest projects path best)
    (h' : IsDeepest projects path other) : other = best := by
  by_cases heq : other = best
  · exact heq
  · obtain ⟨hbelow, hne⟩ := h.below other h'.loaded heq h'.contains
    obtain ⟨habove, -⟩ := h'.below best h.loaded (Ne.symm heq) h.contains
    exact absurd (hbelow.eq_of_length_le habove.length_le) hne

theorem IsDeepest.perm {projects reordered : List (String × Project)} {path : String}
    {best : String × Project} (h : IsDeepest projects path best)
    (hperm : reordered.Perm projects) : IsDeepest reordered path best where
  loaded := hperm.mem_iff.2 h.loaded
  contains := h.contains
  below other hother := h.below other (hperm.mem_iff.1 hother)

/-! ## The search -/

/-- One comparison keeps a project that is no higher up than either. -/
theorem exists_deeper (best : Option (String × Project)) (candidate : String × Project) :
    ∃ found, deeper best candidate = some found ∧ depth candidate.2 ≤ depth found.2 ∧
      ∀ known, best = some known → depth known.2 ≤ depth found.2 := by
  cases best with
  | none => exact ⟨candidate, rfl, Nat.le_refl _, by simp⟩
  | some known =>
    by_cases hlt : depth candidate.2 < depth known.2
    · exact ⟨known, if_pos hlt, Nat.le_of_lt hlt, by simp⟩
    · exact ⟨candidate, if_neg hlt, Nat.le_refl _, by simpa using Nat.le_of_not_lt hlt⟩

/-- The search keeps a project that is no higher up than any it looked at. -/
theorem depth_le_of_foldl_deeper {candidates : List (String × Project)}
    {best : Option (String × Project)} {found : String × Project}
    (h : candidates.foldl deeper best = some found) :
    (∀ known, best = some known → depth known.2 ≤ depth found.2) ∧
      ∀ candidate ∈ candidates, depth candidate.2 ≤ depth found.2 := by
  induction candidates generalizing best with
  | nil =>
    obtain rfl : best = some found := h
    simp
  | cons candidate rest ih =>
    obtain ⟨next, hnext, hcandidate, hbest⟩ := exists_deeper best candidate
    rw [List.foldl_cons, hnext] at h
    obtain ⟨hfound, hrest⟩ := ih h
    have hle := hfound next rfl
    refine ⟨fun known hknown => Nat.le_trans (hbest known hknown) hle, fun other hother => ?_⟩
    rcases List.mem_cons.1 hother with rfl | hother
    · exact Nat.le_trans hcandidate hle
    · exact hrest other hother

theorem exists_foldl_deeper (candidates : List (String × Project)) (known : String × Project) :
    ∃ found, candidates.foldl deeper (some known) = some found := by
  induction candidates generalizing known with
  | nil => exact ⟨known, rfl⟩
  | cons candidate rest ih =>
    obtain ⟨next, hnext, -⟩ := exists_deeper (some known) candidate
    rw [List.foldl_cons, hnext]
    exact ih next

section

variable {server : Server} {path : String}

theorem workspaceFor?_eq :
    server.workspaceFor? path =
      (server.projects.filter fun entry => Path.startsWith path entry.2.root).foldl deeper none :=
  rfl

theorem workspaceFor?_eq_none_iff :
    server.workspaceFor? path = none ↔
      ∀ entry ∈ server.projects, ¬components entry.2.root <+: components path := by
  have hfilter : (server.projects.filter fun entry => Path.startsWith path entry.2.root) = [] ↔
      ∀ entry ∈ server.projects, ¬components entry.2.root <+: components path := by
    simp only [List.filter_eq_nil_iff, Path.startsWith, List.isPrefixOf_iff_prefix]
  rw [← hfilter, workspaceFor?_eq]
  cases server.projects.filter fun entry => Path.startsWith path entry.2.root with
  | nil => simp
  | cons first rest =>
    obtain ⟨found, hfound⟩ := exists_foldl_deeper rest first
    rw [List.foldl_cons, deeper, hfound]
    simp

/-- The project with the most components in its root is the one with the innermost root. -/
theorem workspaceFor?_eq_some_iff
    (hroots : ∀ entry ∈ server.projects, ∀ other ∈ server.projects,
      components entry.2.root = components other.2.root → entry = other)
    {best : String × Project} :
    server.workspaceFor? path = some best ↔ IsDeepest server.projects path best := by
  have hdeepest : ∀ {found}, server.workspaceFor? path = some found →
      IsDeepest server.projects path found := by
    intro found hfound
    rw [workspaceFor?_eq] at hfound
    have hmem := (mem_of_foldl_deeper hfound).resolve_left (by simp)
    obtain ⟨hloaded, hstarts⟩ := List.mem_filter.1 hmem
    have hcontains := List.isPrefixOf_iff_prefix.1 hstarts
    refine ⟨hloaded, hcontains, fun other hother hne hprefix => ⟨?_, ?_⟩⟩
    · exact List.prefix_of_prefix_length_le hprefix hcontains
        ((depth_le_of_foldl_deeper hfound).2 other
          (List.mem_filter.2 ⟨hother, List.isPrefixOf_iff_prefix.2 hprefix⟩))
    · exact fun hsame => hne (hroots other hother found hloaded hsame)
  refine ⟨hdeepest, fun h => ?_⟩
  cases hfound : server.workspaceFor? path with
  | none => exact absurd h.contains (workspaceFor?_eq_none_iff.1 hfound best h.loaded)
  | some found => rw [h.unique (hdeepest hfound)]

end

/-- **The deepest workspace wins.** Where the roots of the loaded projects differ and some contain a
path, the path belongs to the one project whose root lies below the roots of all others that contain
it, in whatever order the projects are kept. Where none contains it, it has no workspace, and its
project is that of the directory it is in. -/
theorem projectFor_is_deepest (server : Server) (disk : Disk) (path : String)
    (hroots : ∀ entry ∈ server.projects, ∀ other ∈ server.projects,
      components entry.2.root = components other.2.root → entry = other) :
    ((∃ entry ∈ server.projects, components entry.2.root <+: components path) →
      ∃ key project, IsDeepest server.projects path (key, project) ∧
        (∀ other, IsDeepest server.projects path other → other = (key, project)) ∧
        ∀ reordered, reordered.Perm server.projects →
          projectFor { server with projects := reordered } disk path =
            .ok (some key, project)) ∧
    ((∀ entry ∈ server.projects, ¬components entry.2.root <+: components path) →
      server.projectFor disk path =
        (Project.ofRoot disk ((Path.parent? path).getD path)).map fun project =>
          (none, project)) := by
  refine ⟨?_, fun hnone => ?_⟩
  · rintro ⟨entry, hentry, hcontains⟩
    cases hfound : server.workspaceFor? path with
    | none => exact absurd hcontains (workspaceFor?_eq_none_iff.1 hfound entry hentry)
    | some best =>
      have hbest := (workspaceFor?_eq_some_iff hroots).1 hfound
      refine ⟨best.1, best.2, hbest, fun other => hbest.unique, fun reordered hperm => ?_⟩
      have hreordered : workspaceFor? { server with projects := reordered } path = some best :=
        (workspaceFor?_eq_some_iff fun entry hentry other hother =>
          hroots entry (hperm.mem_iff.1 hentry) other (hperm.mem_iff.1 hother)).2
          (hbest.perm hperm)
      rw [projectFor, hreordered]
  · rw [projectFor, workspaceFor?_eq_none_iff.2 hnone]
    cases Project.ofRoot disk ((Path.parent? path).getD path) <;> rfl

/-- A sibling whose name the path only starts with, a root that is written with a slash at its end,
and a path that is in no folder. -/
theorem projectFor_is_deepest_beside_sibling :
    let project (root : String) : Project := ⟨root, {}, none, .withExtra [], ⟨[], [], []⟩⟩
    let projects :=
      [("a", project "/ws/app2/"), ("b", project "/ws"), ("c", project "/ws/app")]
    let server : Server := { projects }
    (∀ entry ∈ projects, ∀ other ∈ projects,
      components entry.2.root = components other.2.root → entry = other) ∧
    IsDeepest projects "/ws/app2/x.ts" ("a", project "/ws/app2/") ∧
    (∀ reordered, reordered.Perm projects →
      projectFor { server with projects := reordered } {} "/ws/app2/x.ts" =
        .ok (some "a", project "/ws/app2/")) ∧
    (∀ entry ∈ projects, ¬components entry.2.root <+: components "/ws2/x.ts") ∧
    server.projectFor {} "/ws2/x.ts" =
      (Project.ofRoot {} "/ws2").map fun project => (none, project) := by
  intro project projects server
  have hroots : ∀ entry ∈ projects, ∀ other ∈ projects,
      components entry.2.root = components other.2.root → entry = other := by decide +kernel
  have hfound : server.workspaceFor? "/ws/app2/x.ts" = some ("a", project "/ws/app2/") := by
    decide +kernel
  have hbest := (workspaceFor?_eq_some_iff hroots).1 hfound
  have hnone : ∀ entry ∈ projects, ¬components entry.2.root <+: components "/ws2/x.ts" := by
    decide +kernel
  obtain ⟨key, found, -, hunique, hall⟩ :=
    (projectFor_is_deepest server {} "/ws/app2/x.ts" hroots).1 ⟨_, hbest.loaded, hbest.contains⟩
  cases hunique _ hbest
  have houtside := (projectFor_is_deepest server {} "/ws2/x.ts" hroots).2 hnone
  exact ⟨hroots, hbest, hall, hnone, houtside⟩

end Usages.Server
