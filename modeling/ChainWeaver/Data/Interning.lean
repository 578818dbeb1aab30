import Mathlib.Data.List.Basic

/-!
# Interning

A table that gives every key a name of its own, numbered in the order of first use. Actions
that name keys only ever extend the table, so that what they come to can be said with the
table that a whole run ends with.
-/

namespace Interning

variable {κ ν α β : Type} [DecidableEq κ] {fresh : Nat → ν} {table later : List (κ × ν)} {key other : κ} {name : ν}

/-- The name of `key`, which is the next one if it has none yet. -/
def intern (fresh : Nat → ν) (key : κ) : StateM (List (κ × ν)) ν := fun table =>
  match table.lookup key with
  | some name => (name, table)
  | none => (fresh (table.length + 1), table ++ [(key, fresh (table.length + 1))])

-- Numbered tables

/-- The names are numbered from one on. -/
def Numbered (fresh : Nat → ν) (table : List (κ × ν)) : Prop :=
  ∀ (i : Nat) (entry : κ × ν), table[i]? = some entry → entry.2 = fresh (i + 1)

omit [DecidableEq κ] in
theorem numbered_nil : Numbered fresh ([] : List (κ × ν)) := by
  intro i entry h
  simp at h

theorem numbered_intern (h : Numbered fresh table) : Numbered fresh (intern fresh key table).2 := by
  unfold intern
  split
  · exact h
  · intro i entry hentry
    rcases Nat.lt_trichotomy i table.length with hi | rfl | hi
    · rw [List.getElem?_append_left hi] at hentry
      exact h i entry hentry
    · simp only [List.getElem?_concat_length, Option.some.injEq] at hentry
      rw [← hentry]
    · have hlength : i < (table ++ [(key, fresh (table.length + 1))]).length := (List.getElem?_eq_some_iff.1 hentry).1
      rw [List.length_append] at hlength
      exact absurd hi (Nat.not_lt.2 (Nat.le_of_lt_succ hlength))

theorem exists_getElem?_of_lookup (h : table.lookup key = some name) : ∃ i : Nat, table[i]? = some (key, name) := by
  obtain ⟨before, after, rfl, -⟩ := List.lookup_eq_some_iff.1 h
  exact ⟨before.length, by simp⟩

/-- A name has one of the table's numbers. -/
theorem Numbered.lookup_eq_some (h : Numbered fresh table) (hname : table.lookup key = some name) :
    ∃ i < table.length, name = fresh (i + 1) := by
  obtain ⟨i, hi⟩ := exists_getElem?_of_lookup hname
  exact ⟨i, (List.getElem?_eq_some_iff.1 hi).1, h i _ hi⟩

/-- Two keys never share a name. -/
theorem Numbered.lookup_inj (hfresh : Function.Injective fresh) (h : Numbered fresh table)
    (hkey : table.lookup key = some name) (hother : table.lookup other = some name) : key = other := by
  obtain ⟨i, hi⟩ := exists_getElem?_of_lookup hkey
  obtain ⟨j, hj⟩ := exists_getElem?_of_lookup hother
  have hfreshKey : name = fresh (i + 1) := h i _ hi
  have hfreshOther : name = fresh (j + 1) := h j _ hj
  obtain rfl : i = j := Nat.succ.inj (hfresh (hfreshKey.symm.trans hfreshOther))
  exact congrArg Prod.fst (Option.some.inj (hi.symm.trans hj))

-- Actions that name keys

/-- The action only extends the table, and numbers what it adds. With every table that its own
is a part of it comes to `result`, and the `keys` have names there. -/
structure Settles (fresh : Nat → ν) (act : StateM (List (κ × ν)) α) (result : List (κ × ν) → α)
    (keys : List (κ × ν) → List κ) : Prop where
  extends_table : ∀ table, table <+: (act table).2
  numbered : ∀ table, Numbered fresh table → Numbered fresh (act table).2
  result_eq : ∀ table later, (act table).2 <+: later → (act table).1 = result later
  named : ∀ table later, (act table).2 <+: later → ∀ key ∈ keys later, ∃ name, later.lookup key = some name

namespace Settles

theorem pure (a : α) : Settles fresh (Pure.pure a : StateM (List (κ × ν)) α) (fun _ => a) (fun _ => []) where
  extends_table table := List.prefix_rfl
  numbered table h := h
  result_eq table later _ := rfl
  named table later _ key hkey := by cases hkey

theorem bind {act : StateM (List (κ × ν)) α} {next : α → StateM (List (κ × ν)) β} {result : List (κ × ν) → α}
    {results : α → List (κ × ν) → β} {keys : List (κ × ν) → List κ} {nextKeys : α → List (κ × ν) → List κ}
    (h : Settles fresh act result keys) (hnext : ∀ a, Settles fresh (next a) (results a) (nextKeys a)) :
    Settles fresh (act >>= next) (fun later => results (result later) later)
      (fun later => keys later ++ nextKeys (result later) later) where
  extends_table table := (h.extends_table table).trans ((hnext _).extends_table _)
  numbered table hnumbered := (hnext _).numbered _ (h.numbered table hnumbered)
  result_eq table later hlater := by
    have hact : (act table).1 = result later :=
      h.result_eq table later (((hnext _).extends_table _).trans hlater)
    rw [← hact]
    exact (hnext _).result_eq _ later hlater
  named table later hlater key hkey := by
    have hearlier : (act table).2 <+: later := ((hnext _).extends_table _).trans hlater
    rcases List.mem_append.1 hkey with hkey | hkey
    · exact h.named table later hearlier key hkey
    · rw [← h.result_eq table later hearlier] at hkey
      exact (hnext _).named _ later hlater key hkey

theorem map {act : StateM (List (κ × ν)) α} {result : List (κ × ν) → α} {keys : List (κ × ν) → List κ}
    (h : Settles fresh act result keys) (f : α → β) :
    Settles fresh (f <$> act) (fun later => f (result later)) keys where
  extends_table := h.extends_table
  numbered := h.numbered
  result_eq table later hlater := congrArg f (h.result_eq table later hlater)
  named := h.named

theorem intern [Inhabited ν] (key : κ) :
    Settles fresh (Interning.intern fresh key) (fun later => (later.lookup key).getD default) (fun _ => [key]) := by
  have hnamed : ∀ table : List (κ × ν),
      (Interning.intern fresh key table).2.lookup key = some (Interning.intern fresh key table).1 := by
    intro table
    unfold Interning.intern
    split
    · assumption
    · rename_i hnone
      simp [List.lookup_append, hnone]
  refine ⟨fun table => ?_, fun table h => numbered_intern h, fun table later hlater => ?_, fun table later hlater other hother => ?_⟩
  · unfold Interning.intern
    split
    · exact List.prefix_rfl
    · exact List.prefix_append _ _
  · rw [hlater.lookup_eq_some (hnamed table)]
    rfl
  · obtain rfl := List.mem_singleton.1 hother
    exact ⟨_, hlater.lookup_eq_some (hnamed table)⟩

end Settles

end Interning
