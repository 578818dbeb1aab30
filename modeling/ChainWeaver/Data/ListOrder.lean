import Mathlib.Data.List.Nodup
import Mathlib.Data.List.Perm.Subperm
import Mathlib.Order.Nat

/-!
# Lists in an order

Pairwise relations over a list, and the order in which a list holds its elements.
-/

namespace ListOrder

variable {α : Type} {xs all : List α} {x y : α}

/-- Two elements of a list stand one way or the other. -/
theorem pairwise_either {R : α → α → Prop} (h : xs.Pairwise R) (hx : x ∈ xs) (hy : y ∈ xs) (hne : x ≠ y) :
    R x y ∨ R y x := by
  induction h with
  | nil => cases hx
  | @cons z rest hfirst _ ih =>
    rcases List.mem_cons.1 hx with heqx | hmemx
    · subst heqx
      exact .inl (hfirst y ((List.mem_cons.1 hy).resolve_left hne.symm))
    · rcases List.mem_cons.1 hy with heqy | hmemy
      · subst heqy
        exact .inr (hfirst x hmemx)
      · exact ih hmemx hmemy

/-- A list in an order of its own, where ties go by rank, is in rank order exactly if
its own order never goes against the rank. -/
theorem pairwise_rank_iff {rank : α → Nat} {R : α → α → Prop} (hnodup : xs.Nodup)
    (hrank : ∀ x ∈ xs, ∀ y ∈ xs, rank x = rank y → x = y)
    (h : xs.Pairwise fun x y => R x y ∧ (R y x → rank x < rank y)) :
    xs.Pairwise (rank · < rank ·) ↔ ∀ x ∈ xs, ∀ y ∈ xs, rank x < rank y → R x y := by
  constructor
  · intro hpairwise x hx y hy hlt
    have hne : x ≠ y := fun heq => absurd hlt (heq ▸ lt_irrefl _)
    rcases pairwise_either (hpairwise.and h) hx hy hne with ⟨_, hR, _⟩ | ⟨hgt, _, _⟩
    · exact hR
    · exact absurd hlt hgt.asymm
  · intro hagrees
    refine (hnodup.and h).imp_of_mem fun {x y} hx hy hxy => ?_
    obtain ⟨hne, _, hties⟩ := hxy
    rcases Nat.lt_trichotomy (rank x) (rank y) with hlt | heq | hgt
    · exact hlt
    · exact absurd (hrank x hx y hy heq) hne
    · exact hties (hagrees y hy x hx hgt)

theorem countP_le_add {p q r : α → Bool} (h : ∀ x ∈ xs, p x → q x ∨ r x) : xs.countP p ≤ xs.countP q + xs.countP r := by
  induction xs with
  | nil => simp
  | cons x rest ih =>
    obtain ⟨hx, hrest⟩ := List.forall_mem_cons.1 h
    have ih := ih hrest
    simp only [List.countP_cons]
    cases hp : p x with
    | false => split_ifs <;> simp_all <;> omega
    | true => rcases hx hp with hq | hr <;> split_ifs <;> simp_all <;> omega

/-- A test that says more counts as many elements only where it says no more. -/
theorem countP_and_iff {p q : α → Bool} :
    xs.countP (fun x => q x && p x) = xs.countP p ↔ ∀ x ∈ xs, p x = true → q x = true := by
  induction xs with
  | nil => simp
  | cons x rest ih =>
    have hle : rest.countP (fun x => q x && p x) ≤ rest.countP p :=
      List.countP_mono_left fun y _ hy => (Bool.and_eq_true_iff.1 hy).2
    rw [List.forall_mem_cons, ← ih, List.countP_cons, List.countP_cons]
    cases hp : p x <;> cases hq : q x <;> simp
    omega

variable [BEq α] [LawfulBEq α]

theorem pairwise_idxOf (h : all.Nodup) : all.Pairwise (all.idxOf · < all.idxOf ·) := by
  refine List.pairwise_iff_getElem.2 fun i j hi hj hlt => ?_
  rw [h.idxOf_getElem i hi, h.idxOf_getElem j hj]
  exact hlt

/-- A part of a list without repetitions is a sublist if it keeps the order. -/
theorem sublist_iff_idxOf (h : all.Nodup) (hxs : ∀ x ∈ xs, x ∈ all) :
    xs.Sublist all ↔ xs.Pairwise (all.idxOf · < all.idxOf ·) := by
  refine ⟨fun hsub => (pairwise_idxOf h).sublist hsub, fun hpairwise => ?_⟩
  have hnodup : xs.Nodup := hpairwise.imp fun hlt heq => by simp [heq] at hlt
  obtain ⟨same, hperm, hsub⟩ := List.subperm_of_subset hnodup hxs
  have heq : same = xs := hperm.eq_of_pairwise (fun _ _ _ _ hlt hgt => absurd hlt hgt.asymm)
    ((pairwise_idxOf h).sublist hsub) hpairwise
  exact heq ▸ hsub

theorem idxOf_le_iff {rank : α → Nat}
    (h : xs.Pairwise (rank · < rank ·)) (hx : x ∈ xs) (hy : y ∈ xs) : xs.idxOf x ≤ xs.idxOf y ↔ rank x ≤ rank y := by
  have hnodup : xs.Nodup := h.imp fun hlt heq => by simp [heq] at hlt
  by_cases hne : x = y
  · subst hne
    simp
  · rcases pairwise_either (h.and (pairwise_idxOf hnodup)) hx hy hne with ⟨hlt, hidx⟩ | ⟨hlt, hidx⟩
    · exact iff_of_true hidx.le hlt.le
    · exact iff_of_false (by omega) (by omega)

end ListOrder
