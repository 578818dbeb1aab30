import ChainWeaver.Data.Counting
import Mathlib.Data.List.Infix
import Mathlib.Data.List.Perm.Subperm

/-!
# Windows of a list

The places at which a pattern stands in a list, overlapping ones included. A pattern
inside another one stands wherever the other one does.
-/

namespace Windows

variable {α : Type}

/-- `items[start : start + width]`. -/
def slice (start width : Nat) (items : List α) : List α := (items.drop start).take width

/-- The places at which a window of the width may begin. -/
def starts (width : Nat) (items : List α) : List Nat := List.range (items.length + 1 - width)

theorem mem_starts {width start : Nat} {items : List α} :
    start ∈ starts width items ↔ start + width ≤ items.length := by
  rw [starts, List.mem_range]
  omega

theorem slice_length {start width : Nat} {items : List α} (h : start + width ≤ items.length) :
    (slice start width items).length = width := by
  rw [slice, List.length_take, List.length_drop]
  omega

theorem slice_map {β : Type} (f : α → β) (start width : Nat) (items : List α) :
    slice start width (items.map f) = (slice start width items).map f := by
  simp only [slice, List.map_take, List.map_drop]

/-- A window inside a window. -/
theorem slice_slice {start width inner innerWidth : Nat} (items : List α) (h : inner + innerWidth ≤ width) :
    slice inner innerWidth (slice start width items) = slice (start + inner) innerWidth items := by
  unfold slice
  rw [List.drop_take, List.drop_drop, List.take_take, Nat.min_eq_left (by omega)]

section

variable [DecidableEq α]

/-- The places at which the pattern stands. -/
def occurrences (pattern items : List α) : List Nat :=
  (starts pattern.length items).filter fun start => slice start pattern.length items = pattern

variable {pattern outer items : List α} {start : Nat}

theorem mem_occurrences (hne : pattern ≠ []) :
    start ∈ occurrences pattern items ↔ slice start pattern.length items = pattern := by
  have hpos : 0 < pattern.length := List.length_pos_iff.2 hne
  rw [occurrences, List.mem_filter, mem_starts, decide_eq_true_eq]
  refine ⟨And.right, fun h => ⟨?_, h⟩⟩
  have hlength := congrArg List.length h
  rw [slice, List.length_take, List.length_drop] at hlength
  omega

theorem fits_of_mem_occurrences (h : start ∈ occurrences pattern items) :
    start + pattern.length ≤ items.length :=
  mem_starts.1 (List.mem_filter.1 h).1

theorem occurrences_nodup (pattern items : List α) : (occurrences pattern items).Nodup :=
  List.nodup_range.filter _

/-- A non-empty pattern can be looked for from every place of the list. -/
theorem occurrences_eq (hne : pattern ≠ []) (items : List α) : occurrences pattern items =
    (List.range items.length).filter fun start => slice start pattern.length items = pattern := by
  have hpos : 0 < pattern.length := List.length_pos_iff.2 hne
  obtain ⟨rest, hrest⟩ : ∃ rest, items.length = items.length + 1 - pattern.length + rest :=
    ⟨items.length - (items.length + 1 - pattern.length), by omega⟩
  conv => rhs; rw [hrest, List.range_add, List.filter_append]
  have hnone : ((List.range rest).map (items.length + 1 - pattern.length + ·)).filter
      (fun start => decide (slice start pattern.length items = pattern)) = [] := by
    refine List.filter_eq_nil_iff.2 fun start hmem hstands => ?_
    obtain ⟨place, -, rfl⟩ := List.mem_map.1 hmem
    have hfits := fits_of_mem_occurrences ((mem_occurrences hne).2 (of_decide_eq_true hstands))
    omega
  rw [hnone, List.append_nil, occurrences, starts]

theorem occurrences_map {β : Type} [DecidableEq β] {f : α → β} (hf : Function.Injective f)
    (pattern items : List α) : occurrences (pattern.map f) (items.map f) = occurrences pattern items := by
  simp only [occurrences, starts, List.length_map, slice_map, hf.list_map.eq_iff]

/-- A pattern of one element stands wherever the element does. -/
theorem length_occurrences_singleton (item : α) (items : List α) :
    (occurrences [item] items).length = items.countP fun other => other = item := by
  rw [occurrences_eq (List.cons_ne_nil item []), ← List.countP_eq_length_filter]
  induction items with
  | nil => rfl
  | cons first rest ih =>
    have hmoved : (fun start => decide (slice start 1 (first :: rest) = [item])) ∘ (· + 1) =
        fun start => decide (slice start 1 rest = [item]) := rfl
    have hfirst : slice 0 1 (first :: rest) = [first] := rfl
    simp only [List.length_cons, List.length_nil, Nat.zero_add] at ih ⊢
    rw [List.range_succ_eq_map, List.countP_cons, List.countP_map, hmoved, ih, List.countP_cons, hfirst]
    simp

-- Patterns inside patterns

/-- `inner` stands inside `outer`, `offset` places from its beginning. -/
def InsideAt (inner outer : List α) (offset : Nat) : Prop :=
  offset + inner.length ≤ outer.length ∧ slice offset inner.length outer = inner

omit [DecidableEq α] in
theorem InsideAt.trans {inner middle outer : List α} {offset place : Nat} (h : InsideAt inner middle offset)
    (h' : InsideAt middle outer place) : InsideAt inner outer (place + offset) := by
  refine ⟨by have := h.1; have := h'.1; omega, ?_⟩
  rw [← slice_slice outer h.1, h'.2, h.2]

omit [DecidableEq α] in
theorem InsideAt.isInfix {inner outer : List α} {offset : Nat} (h : InsideAt inner outer offset) :
    inner <:+: outer := by
  rw [← h.2]
  exact (List.take_prefix _ _).isInfix.trans (List.drop_suffix _ _).isInfix

theorem InsideAt.occurs {inner outer : List α} {offset : Nat} (h : InsideAt inner outer offset) (hne : inner ≠ [])
    (hstart : start ∈ occurrences outer items) : start + offset ∈ occurrences inner items := by
  have houter : outer ≠ [] := by
    rintro rfl
    have hlength : offset + inner.length ≤ 0 := h.1
    exact hne (List.length_eq_zero_iff.1 (by omega))
  rw [mem_occurrences hne, ← slice_slice items h.1, (mem_occurrences houter).1 hstart, h.2]

/-- The places of the outer pattern, moved to where the inner one stands in it. -/
theorem InsideAt.subset {inner outer : List α} {offset : Nat} (h : InsideAt inner outer offset) (hne : inner ≠ [])
    (items : List α) : (occurrences outer items).map (· + offset) ⊆ occurrences inner items := by
  intro place hplace
  obtain ⟨start, hstart, rfl⟩ := List.mem_map.1 hplace
  exact h.occurs hne hstart

theorem InsideAt.nodup (outer items : List α) (offset : Nat) :
    ((occurrences outer items).map (· + offset)).Nodup :=
  (occurrences_nodup outer items).map fun _ _ h => Nat.add_right_cancel h

theorem InsideAt.length_le {inner outer : List α} {offset : Nat} (h : InsideAt inner outer offset) (hne : inner ≠ [])
    (items : List α) : (occurrences outer items).length ≤ (occurrences inner items).length := by
  have hsubperm := (InsideAt.nodup outer items offset).subperm (h.subset hne items)
  simpa using hsubperm.length_le

/-- If the two are equally frequent, the inner one stands nowhere else. -/
theorem InsideAt.covered {inner outer : List α} {offset : Nat} (h : InsideAt inner outer offset) (hne : inner ≠ [])
    (hcount : (occurrences outer items).length = (occurrences inner items).length)
    (hplace : start ∈ occurrences inner items) : ∃ place ∈ occurrences outer items, place + offset = start := by
  have hsubperm := (InsideAt.nodup outer items offset).subperm (h.subset hne items)
  have hperm := hsubperm.perm_of_length_le (by simp [hcount])
  exact List.mem_map.1 (hperm.mem_iff.2 hplace)

end

end Windows
