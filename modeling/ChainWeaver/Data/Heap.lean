import Mathlib.Data.List.Basic

/-!
# Cells at addresses

A heap that grows at its end. What was there before stays readable as long as nothing
writes to it.
-/

namespace Heap

variable {α : Type} {before after heap : List α} {cell : α}

/-- Every cell of `before` is in `after` as it was. -/
def Kept (before after : List α) : Prop :=
  ∀ (address : Nat) (cell : α), before[address]? = some cell → after[address]? = some cell

/-- Every cell but the one at `written`. -/
def KeptBut (written : Nat) (before after : List α) : Prop :=
  ∀ (address : Nat) (cell : α), address ≠ written → before[address]? = some cell → after[address]? = some cell

theorem Kept.refl (heap : List α) : Kept heap heap := fun _ _ h => h

theorem Kept.trans (h : Kept before heap) (h' : Kept heap after) : Kept before after :=
  fun address cell hcell => h' address cell (h address cell hcell)

theorem kept_concat (heap : List α) (cell : α) : Kept heap (heap ++ [cell]) := by
  intro address other h
  rwa [List.getElem?_append_left (List.getElem?_eq_some_iff.1 h).1]

theorem keptBut_set (heap : List α) (written : Nat) (cell : α) : KeptBut written heap (heap.set written cell) := by
  intro address other hne h
  rwa [List.getElem?_set_ne (Ne.symm hne)]

theorem Kept.keptBut (h : Kept before after) (written : Nat) : KeptBut written before after :=
  fun address cell _ hcell => h address cell hcell

theorem KeptBut.trans {written : Nat} (h : KeptBut written before heap) (h' : KeptBut written heap after) :
    KeptBut written before after :=
  fun address cell hne hcell => h' address cell hne (h address cell hne hcell)

/-- A write behind the cells of `before` keeps them. -/
theorem Kept.behind {written : Nat} (h : Kept before heap) (hbehind : before.length ≤ written)
    (h' : KeptBut written heap after) : Kept before after := by
  intro address cell hcell
  have hlt := (List.getElem?_eq_some_iff.1 hcell).1
  exact h' address cell (by omega) (h address cell hcell)

/-- A write to a cell that was not there before. -/
theorem KeptBut.fresh {written fresh : Nat} (h : KeptBut written before heap) (hfresh : before.length ≤ fresh)
    (h' : KeptBut fresh heap after) : KeptBut written before after := by
  intro address cell hne hcell
  have hlt := (List.getElem?_eq_some_iff.1 hcell).1
  exact h' address cell (by omega) (h address cell hne hcell)

end Heap
