import Mathlib.Data.List.Basic

/-!
# Cursors

A cursor hands out the elements of a list that match, one after the other.
-/

namespace Cursor

variable {α : Type} {p : α → Bool} {xs : List α}

/-- The first element that matches and its position, counted from `idx`. -/
def next (p : α → Bool) : List α → Nat → Option (Nat × α)
  | [], _ => none
  | x :: rest, idx => if p x then some (idx, x) else next p rest (idx + 1)

/-- The search from the cursor on. -/
def find (p : α → Bool) (xs : List α) (cursor : Nat) : Option (Nat × α) := next p (xs.drop cursor) cursor

theorem next_eq_none (h : next p xs idx = none) : xs.countP p = 0 := by
  induction xs generalizing idx with
  | nil => rfl
  | cons x rest ih =>
    unfold next at h
    split at h
    · cases h
    next hx => rw [List.countP_cons_of_neg hx, ih h]

theorem next_eq_some (h : next p xs idx = some (found, x)) :
    ∃ skipped rest, xs = skipped ++ x :: rest ∧ skipped.countP p = 0 ∧ p x = true ∧ found = idx + skipped.length := by
  induction xs generalizing idx with
  | nil => cases h
  | cons y rest ih =>
    unfold next at h
    split at h
    next hy =>
      obtain ⟨rfl, rfl⟩ := Prod.mk.inj (Option.some.inj h)
      exact ⟨[], rest, rfl, rfl, hy, rfl⟩
    next hy =>
      obtain ⟨skipped, after, rfl, hnone, hx, rfl⟩ := ih h
      exact ⟨y :: skipped, after, rfl, by rw [List.countP_cons_of_neg hy, hnone], hx, by simp; omega⟩

/-- The cursor has passed the first `n` matching elements, or all there are. -/
def At (p : α → Bool) (xs : List α) (n cursor : Nat) : Prop := (xs.take cursor).countP p = min n (xs.countP p)

theorem At.zero : At p xs 0 0 := by simp [At]

theorem countP_take_add_drop (xs : List α) (cursor : Nat) :
    (xs.take cursor).countP p + (xs.drop cursor).countP p = xs.countP p := by
  rw [← List.countP_append, List.take_append_drop]

/-- The next element is the one after those passed. -/
theorem At.find_eq (h : At p xs n cursor) : (find p xs cursor).map Prod.snd = (xs.filter p)[n]? := by
  have hcount := countP_take_add_drop (p := p) xs cursor
  have hfilter : xs.filter p = (xs.take cursor).filter p ++ (xs.drop cursor).filter p := by
    rw [← List.filter_append, List.take_append_drop]
  unfold At at h
  cases hfind : find p xs cursor with
  | none =>
    have hnone := next_eq_none hfind
    have hlength : (xs.filter p).length ≤ n := by
      rw [← List.countP_eq_length_filter]
      omega
    rw [List.getElem?_eq_none hlength]
    rfl
  | some result =>
    obtain ⟨found, x⟩ := result
    obtain ⟨skipped, rest, hdrop, hskipped, hx, -⟩ := next_eq_some hfind
    have hrest : (xs.drop cursor).filter p = x :: rest.filter p := by
      rw [hdrop, List.filter_append, List.filter_cons_of_pos hx,
        List.eq_nil_of_length_eq_zero (List.countP_eq_length_filter.symm.trans hskipped)]
      rfl
    have hlength : ((xs.take cursor).filter p).length = n := by
      rw [← List.countP_eq_length_filter]
      have hpos : 0 < (xs.drop cursor).countP p := by
        rw [List.countP_eq_length_filter, hrest]
        exact Nat.succ_pos _
      omega
    rw [hfilter, hrest, List.getElem?_append_right (Nat.le_of_eq hlength), hlength, Nat.sub_self]
    rfl

theorem At.missed (h : At p xs n cursor) (hfind : find p xs cursor = none) : At p xs (n + 1) cursor := by
  have hcount := countP_take_add_drop (p := p) xs cursor
  have hnone := next_eq_none hfind
  unfold At at h ⊢
  omega

theorem At.served (h : At p xs n cursor) (hfind : find p xs cursor = some (found, x)) :
    At p xs (n + 1) (found + 1) := by
  obtain ⟨skipped, rest, hdrop, hskipped, hx, rfl⟩ := next_eq_some hfind
  have hcount := countP_take_add_drop (p := p) xs cursor
  have htake : xs.take (cursor + skipped.length + 1) = xs.take cursor ++ (skipped ++ [x]) := by
    have hsplit : skipped ++ x :: rest = (skipped ++ [x]) ++ rest := by simp
    rw [Nat.add_assoc, List.take_add, hdrop, hsplit, List.take_left' (by simp)]
  have hpassed : (xs.take (cursor + skipped.length + 1)).countP p = (xs.take cursor).countP p + 1 := by
    rw [htake, List.countP_append, List.countP_append, hskipped, List.countP_singleton, if_pos hx]
  have hpos : 0 < (xs.drop cursor).countP p := by
    rw [hdrop, List.countP_append, List.countP_cons_of_pos hx]
    omega
  unfold At at h ⊢
  omega

end Cursor
