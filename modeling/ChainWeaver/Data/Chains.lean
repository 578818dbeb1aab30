import Mathlib.Data.List.Chain
import Mathlib.Data.List.Nodup

/-!
# Chains without repetition

A depth-first search over the successors of the last element that never takes an element
twice. It ends on every graph, since the depth is bounded, and meets each chain once.
-/

namespace Chains

variable {α : Type} [DecidableEq α]

/-- The paths that extend `path` and are emitted, in the order in which they are met. -/
def explore (next : α → List α) (emits : List α → Bool) (depth : Nat) (path : List α) : List (List α) :=
  (if emits path then [path] else []) ++
    if path.length ≥ depth then []
    else ((path.getLast?.elim [] next).filter (!path.contains ·)).flatMap fun successor =>
      explore next emits depth (path ++ [successor])
termination_by depth - path.length

/-- Each element is a successor of the one before it. -/
abbrev Linked (next : α → List α) : List α → Prop := List.IsChain fun a b => b ∈ next a

variable {next : α → List α} {emits : List α → Bool} {depth : Nat} {path chain rest : List α} {last : α}

omit [DecidableEq α] in
theorem nodup_snoc : (path ++ [last]).Nodup ↔ last ∉ path ∧ path.Nodup := by
  rw [← List.concat_eq_append, List.nodup_concat]

omit [DecidableEq α] in
/-- Neighbours in a chain without repetition differ. -/
theorem isChain_ne {R : α → α → Prop} (hnodup : chain.Nodup) (h : chain.IsChain R) :
    chain.IsChain fun a b => b ≠ a ∧ R a b := by
  refine List.isChain_iff_getElem.2 fun place hplace => ⟨fun heq => ?_, h.getElem place hplace⟩
  have hsame := hnodup.getElem_inj_iff.1 heq
  omega

omit [DecidableEq α] in
theorem forall_of_isChain {R : α → α → Prop} {P : α → Prop} {first : α} (hfirst : P first)
    (hstep : ∀ a b, R a b → P b) (h : (first :: rest).IsChain R) : ∀ a ∈ first :: rest, P a := by
  induction rest generalizing first with
  | nil => simpa using hfirst
  | cons second rest ih =>
    obtain ⟨hrel, hrest⟩ := List.isChain_cons_cons.1 h
    exact List.forall_mem_cons.2 ⟨hfirst, ih (hstep first second hrel) hrest⟩

/-- The paths from one place on, by the successor taken there. -/
theorem mem_explore_step : chain ∈ explore next emits depth (path ++ [last]) ↔
    (chain = path ++ [last] ∧ emits chain = true) ∨
      (path ++ [last]).length < depth ∧ ∃ successor ∈ next last, successor ∉ path ++ [last] ∧
        chain ∈ explore next emits depth (path ++ [last] ++ [successor]) := by
  rw [explore, List.mem_append, List.getLast?_concat]
  refine or_congr ?_ ?_
  · split
    · next hemits =>
      rw [List.mem_singleton]
      refine ⟨fun h => ⟨h, h ▸ hemits⟩, And.left⟩
    · next hemits =>
      refine ⟨fun h => (List.not_mem_nil h).elim, fun h => absurd (h.1 ▸ h.2) hemits⟩
  · split
    · next hfull =>
      refine ⟨fun h => (List.not_mem_nil h).elim, fun h => absurd h.1 (Nat.not_lt.2 hfull)⟩
    · next hroom =>
      simp only [List.mem_flatMap, List.mem_filter, Bool.not_eq_true', ← Bool.not_eq_true, List.contains_iff_mem,
        Option.elim_some, and_assoc]
      exact ⟨fun h => ⟨Nat.not_le.1 hroom, h⟩, And.right⟩

/-- The search meets the extensions of its path that are linked, without repetition and
not too long. -/
theorem mem_explore (hpath : (path ++ [last]).Nodup) : chain ∈ explore next emits depth (path ++ [last]) ↔
    ∃ rest, chain = path ++ last :: rest ∧ chain.Nodup ∧ Linked next (last :: rest) ∧
      (rest = [] ∨ chain.length ≤ depth) ∧ emits chain = true := by
  -- by induction on how many elements there is room for
  induction hroom : depth - path.length using Nat.strongRecOn generalizing path last with
  | ind room ih =>
  rw [mem_explore_step]
  constructor
  · rintro (⟨rfl, hemits⟩ | ⟨hfits, successor, hnext, hnew, hmem⟩)
    · exact ⟨[], rfl, hpath, .singleton last, .inl rfl, hemits⟩
    · have hpath' := nodup_snoc.2 ⟨hnew, hpath⟩
      rw [List.length_append, List.length_singleton] at hfits
      obtain ⟨rest, rfl, hnodup, hlinked, hlength, hemits⟩ :=
        (ih _ (by rw [List.length_append, List.length_singleton]; omega) hpath' rfl).1 hmem
      refine ⟨successor :: rest, by simp, hnodup, .cons_cons hnext hlinked, .inr ?_, hemits⟩
      rcases hlength with rfl | hlength
      · rw [List.length_append, List.length_append]
        exact hfits
      · exact hlength
  · rintro ⟨rest, rfl, hnodup, hlinked, hlength, hemits⟩
    cases rest with
    | nil => exact .inl ⟨rfl, hemits⟩
    | cons successor rest =>
      have hlength : (path ++ last :: successor :: rest).length ≤ depth := by simpa using hlength
      have hsplit : path ++ last :: successor :: rest = path ++ [last] ++ successor :: rest := by simp
      have hpath' : (path ++ [last] ++ [successor]).Nodup := by
        rw [hsplit] at hnodup
        exact hnodup.sublist (List.Sublist.append_left (List.singleton_sublist.2 List.mem_cons_self) _)
      have hroom' : path.length + 1 < depth := by
        rw [List.length_append, List.length_cons, List.length_cons] at hlength
        omega
      refine .inr ⟨by simpa using hroom', successor, hlinked.rel, (nodup_snoc.1 hpath').1, ?_⟩
      refine (ih _ (by rw [List.length_append, List.length_singleton]; omega) hpath' rfl).2 ?_
      exact ⟨rest, hsplit, hnodup, hlinked.of_cons, .inr hlength, hemits⟩

/-- The search meets no path twice. -/
theorem explore_nodup (hnext : ∀ a, (next a).Nodup) (hpath : (path ++ [last]).Nodup) :
    (explore next emits depth (path ++ [last])).Nodup := by
  induction hroom : depth - path.length using Nat.strongRecOn generalizing path last with
  | ind room ih =>
  have hbranch : ∀ successor ∈ (next last).filter (!(path ++ [last]).contains ·),
      (path ++ [last] ++ [successor]).Nodup := by
    intro successor hmem
    have hnew : successor ∉ path ++ [last] := by simpa using (List.mem_filter.1 hmem).2
    exact nodup_snoc.2 ⟨hnew, hpath⟩
  rw [explore, List.getLast?_concat, Option.elim_some, List.nodup_append]
  refine ⟨?_, ?_, ?_⟩
  · split <;> simp
  · split
    · exact .nil
    · next hfits =>
      rw [List.length_append, List.length_singleton] at hfits
      refine List.nodup_flatMap.2 ⟨fun successor hmem => ?_, ((hnext last).filter _).imp_of_mem ?_⟩
      · exact ih _ (by rw [List.length_append, List.length_singleton]; omega) (hbranch successor hmem) rfl
      · intro one other hone hother hne chain hchain hchain'
        obtain ⟨rest, hrest, -⟩ := (mem_explore (hbranch one hone)).1 hchain
        obtain ⟨rest', hrest', -⟩ := (mem_explore (hbranch other hother)).1 hchain'
        exact hne (List.cons_eq_cons.1 (List.append_cancel_left (hrest.symm.trans hrest'))).1
  · rintro chain hchain other hother rfl
    split at hchain
    · split at hother
      · cases hother
      · obtain ⟨successor, hmem, hother⟩ := List.mem_flatMap.1 hother
        obtain ⟨rest, hrest, -⟩ := (mem_explore (hbranch successor hmem)).1 hother
        rw [List.mem_singleton.1 hchain] at hrest
        simpa using congrArg List.length hrest
    · cases hchain

-- All chains

theorem mem_explore_start {first : α} : chain ∈ explore next emits depth [first] ↔
    ∃ rest, chain = first :: rest ∧ chain.Nodup ∧ Linked next (first :: rest) ∧
      (rest = [] ∨ chain.length ≤ depth) ∧ emits chain = true := by
  have hpath : ([] ++ [first]).Nodup := List.nodup_singleton first
  exact mem_explore hpath

/-- A chain that the search meets from one of the places. -/
structure Chain (next : α → List α) (starts : List α) (depth : Nat) (chain : List α) : Prop where
  length_le : chain.length ≤ depth
  nodup : chain.Nodup
  linked : Linked next chain
  start : ∃ first ∈ starts, chain.head? = some first

theorem mem_flatMap_explore {starts : List α} (hdepth : 1 ≤ depth) :
    chain ∈ starts.flatMap (fun first => explore next emits depth [first]) ↔
      Chain next starts depth chain ∧ emits chain = true := by
  rw [List.mem_flatMap]
  constructor
  · rintro ⟨first, hfirst, hmem⟩
    obtain ⟨rest, rfl, hnodup, hlinked, hlength, hemits⟩ := mem_explore_start.1 hmem
    refine ⟨⟨?_, hnodup, hlinked, first, hfirst, rfl⟩, hemits⟩
    rcases hlength with rfl | hlength
    · exact hdepth
    · exact hlength
  · rintro ⟨⟨hlength, hnodup, hlinked, first, hfirst, hhead⟩, hemits⟩
    obtain ⟨rest, rfl⟩ := List.head?_eq_some_iff.1 hhead
    exact ⟨first, hfirst, mem_explore_start.2
      ⟨rest, rfl, hnodup, hlinked, .inr hlength, hemits⟩⟩

theorem flatMap_explore_nodup {starts : List α} (hstarts : starts.Nodup) (hnext : ∀ a, (next a).Nodup) :
    (starts.flatMap fun first => explore next emits depth [first]).Nodup := by
  refine List.nodup_flatMap.2 ⟨fun first _ => ?_, ?_⟩
  · have hpath : ([] ++ [first]).Nodup := List.nodup_singleton first
    exact explore_nodup hnext hpath
  refine hstarts.imp fun {one other} hne chain hchain hchain' => ?_
  obtain ⟨rest, hrest, -⟩ := mem_explore_start.1 hchain
  obtain ⟨rest', hrest', -⟩ := mem_explore_start.1 hchain'
  exact hne (List.cons_eq_cons.1 (hrest.symm.trans hrest')).1

end Chains
