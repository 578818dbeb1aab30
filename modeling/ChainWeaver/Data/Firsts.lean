import Mathlib.Data.List.Dedup
import Mathlib.Data.List.Induction
import Mathlib.Data.List.Perm.Lattice

/-!
# The first of each key

A pass over a list that leaves out every item whose key was there before.
-/

namespace Firsts

variable {α κ : Type} [DecidableEq κ] (key : α → κ)

/-- One more item is kept if its key is new. -/
def add (kept : List α) (item : α) : List α := if key item ∈ kept.map key then kept else kept ++ [item]

def firsts (items : List α) : List α := items.foldl (add key) []

variable {key} {kept items : List α} {item : α} {n : Nat}

theorem add_present (h : key item ∈ kept.map key) : add key kept item = kept := if_pos h

theorem add_new (h : key item ∉ kept.map key) : add key kept item = kept ++ [item] := if_neg h

theorem mem_keys_add {k : κ} : k ∈ (add key kept item).map key ↔ k ∈ kept.map key ∨ k = key item := by
  by_cases h : key item ∈ kept.map key
  · rw [add_present h]
    refine ⟨.inl, ?_⟩
    rintro (hk | rfl)
    · exact hk
    · exact h
  · rw [add_new h]
    simp

theorem nodup_add (h : (kept.map key).Nodup) : ((add key kept item).map key).Nodup := by
  by_cases hmem : key item ∈ kept.map key
  · rwa [add_present hmem]
  · rw [add_new hmem, List.map_append]
    simpa using h.concat hmem

theorem nodup_firsts (items : List α) : ((firsts key items).map key).Nodup := by
  unfold firsts
  induction items using List.reverseRecOn with
  | nil => exact List.nodup_nil
  | append_singleton items item ih =>
    rw [List.foldl_append]
    exact nodup_add ih

theorem mem_keys_firsts {k : κ} : k ∈ (firsts key items).map key ↔ k ∈ items.map key := by
  unfold firsts
  induction items using List.reverseRecOn with
  | nil => exact Iff.rfl
  | append_singleton items item ih =>
    rw [List.foldl_append, List.foldl_cons, List.foldl_nil, mem_keys_add, ih]
    simp

/-- As many are kept as there are keys. -/
theorem length_firsts (items : List α) : (firsts key items).length = (items.map key).dedup.length := by
  have hperm : ((firsts key items).map key).Perm (items.map key).dedup := by
    refine (List.perm_ext_iff_of_nodup (nodup_firsts items) (List.nodup_dedup _)).2 fun k => ?_
    rw [mem_keys_firsts, List.mem_dedup]
  rw [← hperm.length_eq, List.length_map]

/-- An item is the first of its key, after fewer than `n` other keys. -/
def IsFirst (key : α → κ) (n : Nat) (items : List α) (item : α) : Prop :=
  ∃ before after, items = before ++ item :: after ∧ key item ∉ before.map key ∧ (before.map key).dedup.length < n

theorem isFirst_concat {last : α} : IsFirst key n (items ++ [last]) item ↔ IsFirst key n items item ∨
    item = last ∧ key last ∉ items.map key ∧ (items.map key).dedup.length < n := by
  constructor
  · rintro ⟨before, after, heq, hnew, hfew⟩
    rcases List.eq_nil_or_concat after with rfl | ⟨after, other, rfl⟩
    · obtain ⟨rfl, hlast⟩ := List.append_inj' heq rfl
      obtain rfl := List.singleton_inj.1 hlast
      exact .inr ⟨rfl, hnew, hfew⟩
    · rw [List.concat_eq_append, ← List.cons_append, ← List.append_assoc] at heq
      obtain ⟨rfl, -⟩ := List.append_inj' heq rfl
      exact .inl ⟨before, after, rfl, hnew, hfew⟩
  · rintro (⟨before, after, rfl, hnew, hfew⟩ | ⟨rfl, hnew, hfew⟩)
    · exact ⟨before, after ++ [last], by simp, hnew, hfew⟩
    · exact ⟨items, [], rfl, hnew, hfew⟩

theorem mem_take_firsts : item ∈ (firsts key items).take n ↔ IsFirst key n items item := by
  induction items using List.reverseRecOn with
  | nil => exact iff_of_false (by simp [firsts]) (by simp [IsFirst])
  | append_singleton items last ih =>
    have hstep : firsts key (items ++ [last]) = add key (firsts key items) last := by simp [firsts]
    rw [isFirst_concat, hstep, ← ih]
    by_cases hmem : key last ∈ items.map key
    · rw [add_present (mem_keys_firsts.2 hmem)]
      exact (or_iff_left fun h => h.2.1 hmem).symm
    · rw [add_new (mem_keys_firsts.not.2 hmem), List.take_append, List.mem_append]
      refine or_congr_right ?_
      rw [length_firsts]
      rcases Nat.eq_zero_or_pos (n - (items.map key).dedup.length) with hnone | hsome
      · rw [hnone]
        exact iff_of_false List.not_mem_nil fun h => by omega
      · rw [List.take_of_length_le hsome, List.mem_singleton]
        exact (and_iff_left ⟨hmem, by omega⟩).symm

end Firsts
