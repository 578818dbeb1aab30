import ChainWeaver.Data.OrderedDict
import Mathlib.Data.List.Sort
import Mathlib.Data.String.Basic

/-!
# Entries in key order

Sorting the entries of a dict by key changes nothing but their order.
-/

namespace SortedEntries

/-- At most as large by key. -/
def KeyLe (a b : String × α) : Prop := a.1 ≤ b.1

instance : DecidableRel (KeyLe (α := α)) := fun a b => inferInstanceAs (Decidable (a.1 ≤ b.1))

instance : Std.Total (KeyLe (α := α)) := ⟨fun a b => le_total a.1 b.1⟩

instance : IsTrans (String × α) KeyLe := ⟨fun _ _ _ => le_trans⟩

def sort (entries : List (String × α)) : List (String × α) := entries.insertionSort KeyLe

theorem perm_sort (entries : List (String × α)) : (sort entries).Perm entries := List.perm_insertionSort _ _

@[simp] theorem mem_sort {entries : List (String × α)} : entry ∈ sort entries ↔ entry ∈ entries :=
  List.mem_insertionSort _

@[simp] theorem sort_sort (entries : List (String × α)) : sort (sort entries) = sort entries :=
  (List.pairwise_insertionSort KeyLe entries).insertionSort_eq

/-- Sorting looks at the keys only. -/
theorem sort_map (f : α → β) (entries : List (String × α)) :
    sort (entries.map fun entry => (entry.1, f entry.2)) =
      (sort entries).map fun entry => (entry.1, f entry.2) :=
  (List.map_insertionSort KeyLe KeyLe (fun entry => (entry.1, f entry.2)) entries
    fun _ _ _ _ => Iff.rfl).symm

theorem lookup_orderedInsert (entry : String × α) (entries : List (String × α)) :
    (entries.orderedInsert KeyLe entry).lookup name = (entry :: entries).lookup name := by
  induction entries with
  | nil => rfl
  | cons head rest ih =>
    by_cases hle : KeyLe entry head
    · rw [List.orderedInsert_cons_of_le _ _ hle]
    · obtain ⟨key, value⟩ := entry
      obtain ⟨k, v⟩ := head
      have hne : key ≠ k := fun h => hle (le_of_eq h)
      rw [List.orderedInsert_of_not_le _ _ hle]
      simp only [OrderedDict.lookup_cons_if] at ih ⊢
      rw [ih]
      by_cases hk : name = k
      · rw [if_pos hk, if_neg fun h => hne (h.symm.trans hk), if_pos hk]
      · rw [if_neg hk, if_neg hk]

@[simp] theorem lookup_sort (entries : List (String × α)) : (sort entries).lookup name = entries.lookup name := by
  induction entries with
  | nil => rfl
  | cons entry rest ih =>
    obtain ⟨key, value⟩ := entry
    rw [sort, List.insertionSort_cons, lookup_orderedInsert, OrderedDict.lookup_cons_if,
      OrderedDict.lookup_cons_if]
    exact congrArg _ ih

theorem lookup_map (f : α → β) (entries : List (String × α)) :
    (entries.map fun entry => (entry.1, f entry.2)).lookup name = (entries.lookup name).map f := by
  induction entries with
  | nil => rfl
  | cons entry rest ih =>
    obtain ⟨key, value⟩ := entry
    rw [List.map_cons, OrderedDict.lookup_cons_if, OrderedDict.lookup_cons_if, ih]
    split <;> rfl

end SortedEntries

namespace OrderedDict

/-- The dict with its keys in order. -/
def sorted (d : OrderedDict α) : OrderedDict α :=
  ⟨SortedEntries.sort d.entries, ((SortedEntries.perm_sort d.entries).map Prod.fst).nodup_iff.2 d.nodup⟩

@[simp] theorem get?_sorted (d : OrderedDict α) (key : String) : d.sorted.get? key = d.get? key :=
  SortedEntries.lookup_sort d.entries

@[simp] theorem sorted_sorted (d : OrderedDict α) : d.sorted.sorted = d.sorted := by
  simp [sorted]

end OrderedDict
