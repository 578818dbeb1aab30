import Mathlib.Data.List.Induction
import Mathlib.Data.List.Nodup

/-!
# Counting

Totals of counts, and the distinct elements of a list in the order in which they are
first met.
-/

namespace Counting

variable {α β : Type} {items : List α}

-- Totals

def total (counts : List Nat) : Nat := counts.foldr (· + ·) 0

@[simp] theorem total_nil : total [] = 0 := rfl

@[simp] theorem total_cons (count : Nat) (rest : List Nat) : total (count :: rest) = count + total rest := rfl

theorem total_replicate (n count : Nat) : total (List.replicate n count) = n * count := by
  induction n with
  | zero => simp
  | succ n ih =>
    rw [List.replicate_succ, total_cons, ih, Nat.succ_mul, Nat.add_comm]

theorem length_flatten (lists : List (List α)) : lists.flatten.length = total (lists.map List.length) := by
  induction lists with
  | nil => rfl
  | cons first rest ih => simp [ih]

theorem count_flatMap [BEq β] (f : α → List β) (b : β) (items : List α) :
    (items.flatMap f).count b = total (items.map fun item => (f item).count b) := by
  induction items with
  | nil => rfl
  | cons item rest ih => simp [List.count_append, ih]

theorem total_le {f g : α → Nat} (h : ∀ item ∈ items, f item ≤ g item) :
    total (items.map f) ≤ total (items.map g) := by
  induction items with
  | nil => simp
  | cons item rest ih =>
    obtain ⟨hitem, hrest⟩ := List.forall_mem_cons.1 h
    simpa using Nat.add_le_add hitem (ih hrest)

/-- Counts that are nowhere greater and have the same total are the same. -/
theorem eq_of_total_eq {f g : α → Nat} (h : ∀ item ∈ items, f item ≤ g item)
    (htotal : total (items.map f) = total (items.map g)) : ∀ item ∈ items, f item = g item := by
  induction items with
  | nil => simp
  | cons item rest ih =>
    obtain ⟨hitem, hrest⟩ := List.forall_mem_cons.1 h
    have hle := total_le hrest
    simp only [List.map_cons, total_cons] at htotal
    refine List.forall_mem_cons.2 ⟨?_, ih hrest ?_⟩ <;> omega

theorem item_le_total {f : α → Nat} {item : α} (h : item ∈ items) : f item ≤ total (items.map f) := by
  induction items with
  | nil => cases h
  | cons first rest ih =>
    rw [List.map_cons, total_cons]
    rcases List.mem_cons.1 h with rfl | h
    · exact Nat.le_add_right _ _
    · exact Nat.le_trans (ih h) (Nat.le_add_left _ _)

-- Distinct elements

section

variable [BEq α] [LawfulBEq α]

theorem eraseDups_concat (items : List α) (item : α) :
    (items ++ [item]).eraseDups = if item ∈ items then items.eraseDups else items.eraseDups ++ [item] := by
  rw [List.eraseDups_append]
  split
  · next hmem => simp [List.removeAll, hmem]
  · next hmem => simp [List.removeAll, hmem, List.eraseDups_cons]

theorem nodup_eraseDups (items : List α) : items.eraseDups.Nodup := by
  induction items using List.reverseRecOn with
  | nil => exact .nil
  | append_singleton items item ih =>
    rw [eraseDups_concat]
    split
    · exact ih
    · next hnew => exact List.nodup_append.2 ⟨ih, List.nodup_singleton item, by
        simp only [List.mem_eraseDups, List.mem_singleton]
        rintro other hother _ rfl rfl
        exact hnew hother⟩

theorem eraseDups_of_nodup (h : items.Nodup) : items.eraseDups = items := by
  induction items with
  | nil => rfl
  | cons item rest ih =>
    obtain ⟨hnew, hrest⟩ := List.nodup_cons.1 h
    rw [List.eraseDups_cons, List.filter_eq_self.2, ih hrest]
    intro other hother
    have hne : other ≠ item := fun heq => hnew (heq ▸ hother)
    simpa using hne

theorem eraseDups_filterMap [BEq β] [LawfulBEq β] (f : α → Option β) (items : List α) :
    (items.eraseDups.filterMap f).eraseDups = (items.filterMap f).eraseDups := by
  induction items using List.reverseRecOn with
  | nil => rfl
  | append_singleton items item ih =>
    have hmem : ∀ b, b ∈ items.eraseDups.filterMap f ↔ b ∈ items.filterMap f := by simp
    rw [eraseDups_concat, List.filterMap_append]
    cases hitem : f item with
    | none =>
      split <;> simp [hitem, ih]
    | some b =>
      rw [List.filterMap_cons_some hitem, List.filterMap_nil, eraseDups_concat]
      split
      · next hold =>
        rw [ih, if_pos (List.mem_filterMap.2 ⟨item, hold, hitem⟩)]
      · rw [List.filterMap_append, List.filterMap_cons_some hitem, List.filterMap_nil, eraseDups_concat, ih]
        simp only [hmem]

-- `collections.Counter`

/-- Every element with its number of occurrences, in the order they are first met. -/
def counter (items : List α) : List (α × Nat) := items.eraseDups.map fun item => (item, items.count item)

theorem mem_counter {item : α} {count : Nat} :
    (item, count) ∈ counter items ↔ item ∈ items ∧ count = items.count item := by
  simp only [counter, List.mem_map, List.mem_eraseDups, Prod.mk.injEq]
  constructor
  · rintro ⟨other, hmem, rfl, rfl⟩
    exact ⟨hmem, rfl⟩
  · rintro ⟨hmem, rfl⟩
    exact ⟨item, hmem, rfl, rfl⟩

theorem counter_nodup (items : List α) : ((counter items).map Prod.fst).Nodup := by
  have hkeys : (counter items).map Prod.fst = items.eraseDups := by simp [counter, Function.comp_def]
  rw [hkeys]
  exact nodup_eraseDups items

end

end Counting
