/-
Lists, whatever they are lists of: runs at the front of a list, lists of pairs as tables, and
members that add nothing.
-/
import Mathlib.Data.List.TakeWhile

namespace Usages

/-! ## Runs at the front -/

theorem dropWhile_of_head? {α : Type} {p : α → Bool} {items : List α}
    (h : ∀ a ∈ items.head?, p a = false) : items.dropWhile p = items := by
  cases items with
  | nil => rfl
  | cons a rest => exact List.dropWhile_cons_of_neg (by rw [h a rfl]; decide)

theorem of_head?_dropWhile {α : Type} {p : α → Bool} {items : List α} :
    ∀ a ∈ (items.dropWhile p).head?, p a = false := by
  intro a ha
  have h := List.head?_dropWhile_not p items
  rw [Option.mem_def.1 ha] at h
  exact h

theorem dropWhile_append_cons {α : Type} {p : α → Bool} {a : α} (ha : p a = false)
    (items rest : List α) : (items ++ a :: rest).dropWhile p = items.dropWhile p ++ a :: rest := by
  rw [List.dropWhile_append, List.dropWhile_cons_of_neg (by rw [ha]; decide)]
  split
  next h => rw [List.isEmpty_iff.1 h, List.nil_append]
  next => rfl

/-! ## Tables -/

section

variable {α β : Type} [BEq α] [LawfulBEq α] {entries : List (α × β)} {key : α}

theorem lookup_eq_some_iff_mem (h : (entries.map Prod.fst).Nodup) {value : β} :
    entries.lookup key = some value ↔ (key, value) ∈ entries := by
  induction entries with
  | nil => simp
  | cons first rest ih =>
    obtain ⟨other, old⟩ := first
    rw [List.map_cons, List.nodup_cons] at h
    rw [List.lookup_cons, List.mem_cons, Prod.mk.injEq]
    by_cases hkey : key = other
    · subst hkey
      have hnot : (key, value) ∉ rest := fun hmem =>
        h.1 (List.mem_map.2 ⟨(key, value), hmem, rfl⟩)
      simp [hnot, eq_comm]
    · rw [beq_false_of_ne hkey]
      simp [hkey, ih h.2]

theorem mem_map_fst_iff :
    key ∈ entries.map Prod.fst ↔ ∃ value, entries.lookup key = some value := by
  induction entries with
  | nil => simp
  | cons first rest ih =>
    rw [List.map_cons, List.mem_cons, ih, List.lookup_cons]
    by_cases hkey : key = first.1
    · simp [hkey]
    · simp [hkey, beq_false_of_ne hkey]

end

/-! ## Members that add nothing -/

theorem flatMap_filter_of_nil {α β : Type} {p : α → Bool} {f : α → List β} {list : List α}
    (h : ∀ a ∈ list, p a = false → f a = []) : (list.filter p).flatMap f = list.flatMap f := by
  induction list with
  | nil => rfl
  | cons a list ih =>
    have hrest := ih fun b hb => h b (List.mem_cons_of_mem _ hb)
    cases hp : p a with
    | true => rw [List.filter_cons_of_pos hp, List.flatMap_cons, List.flatMap_cons, hrest]
    | false =>
      rw [List.filter_cons_of_neg (by simp [hp]), hrest, List.flatMap_cons,
        h a List.mem_cons_self hp, List.nil_append]

end Usages
