import Mathlib.Data.List.Nodup

/-!
# Dictionaries in insertion order

An update of a present key keeps its place, a new key goes to the end. That no
key occurs twice is part of the type.
-/

structure OrderedDict (α : Type) where
  entries : List (String × α)
  nodup : (entries.map Prod.fst).Nodup

namespace OrderedDict

theorem ext_entries {d e : OrderedDict α} (h : d.entries = e.entries) : d = e := by
  cases d
  cases e
  cases h
  rfl

def empty : OrderedDict α := ⟨[], .nil⟩

instance : Inhabited (OrderedDict α) := ⟨empty⟩

def keys (d : OrderedDict α) : List String := d.entries.map Prod.fst

def get? (d : OrderedDict α) (key : String) : Option α := d.entries.lookup key

def contains (d : OrderedDict α) (key : String) : Bool := d.keys.contains key

def isEmpty (d : OrderedDict α) : Bool := d.entries.isEmpty

/-- The entries with `key` bound to `value`. -/
def put (key : String) (value : α) : List (String × α) → List (String × α)
  | [] => [(key, value)]
  | (k, v) :: rest => if k = key then (key, value) :: rest else (k, v) :: put key value rest

theorem mem_put {key name : String} {value : α} {entries : List (String × α)} :
    name ∈ (put key value entries).map Prod.fst ↔ name = key ∨ name ∈ entries.map Prod.fst := by
  induction entries with
  | nil => simp [put]
  | cons entry rest ih =>
    obtain ⟨k, v⟩ := entry
    by_cases hk : k = key
    · simp [put, hk]
    · simp only [put, hk, if_false, List.map_cons, List.mem_cons, ih]
      tauto

theorem countP_put (p : String × α → Bool) (key : String) (value : α) (entries : List (String × α)) :
    (put key value entries).countP p ≤ entries.countP p + if p (key, value) then 1 else 0 := by
  induction entries with
  | nil => simp [put, List.countP_cons]
  | cons entry rest ih =>
    obtain ⟨k, v⟩ := entry
    unfold put
    split <;> simp only [List.countP_cons] <;> omega

theorem nodup_put {key : String} {value : α} {entries : List (String × α)}
    (h : (entries.map Prod.fst).Nodup) : ((put key value entries).map Prod.fst).Nodup := by
  induction entries with
  | nil => simp [put]
  | cons entry rest ih =>
    obtain ⟨k, v⟩ := entry
    rw [List.map_cons, List.nodup_cons] at h
    by_cases hk : k = key
    · subst hk
      simpa [put] using h
    · rw [put, if_neg hk, List.map_cons, List.nodup_cons, mem_put]
      exact ⟨fun hmem => hmem.elim hk h.1, ih h.2⟩

def insert (d : OrderedDict α) (key : String) (value : α) : OrderedDict α :=
  ⟨put key value d.entries, nodup_put d.nodup⟩

theorem lookup_cons_if {rest : List (String × α)} :
    ((key, value) :: rest).lookup name = if name = key then some value else rest.lookup name := by
  by_cases h : name = key
  · simp [h]
  · have hne : (name == key) = false := beq_false_of_ne h
    simp [List.lookup_cons, hne, h]

theorem lookup_put {entries : List (String × α)} :
    (put key value entries).lookup name = if name = key then some value else entries.lookup name := by
  induction entries with
  | nil => rw [put, lookup_cons_if]
  | cons entry rest ih =>
    obtain ⟨k, v⟩ := entry
    by_cases hk : k = key
    · subst hk
      rw [put, if_pos rfl, lookup_cons_if, lookup_cons_if]
      split <;> rfl
    · rw [put, if_neg hk, lookup_cons_if, lookup_cons_if, ih]
      by_cases h : name = k
      · subst h
        simp [hk]
      · simp [h]

@[simp] theorem get?_insert (d : OrderedDict α) :
    (d.insert key value).get? name = if name = key then some value else d.get? name :=
  lookup_put

@[simp] theorem get?_empty (name : String) : (empty : OrderedDict α).get? name = none := rfl

theorem get?_eq_some_iff {d : OrderedDict α} : d.get? key = some value ↔ (key, value) ∈ d.entries := by
  obtain ⟨entries, nodup⟩ := d
  unfold get?
  induction entries with
  | nil => simp
  | cons entry rest ih =>
    obtain ⟨k, v⟩ := entry
    rw [List.map_cons, List.nodup_cons] at nodup
    have ih := ih nodup.2
    simp only at ih ⊢
    rw [lookup_cons_if, List.mem_cons, ← ih, Prod.mk.injEq]
    by_cases h : key = k
    · subst h
      have hnot : rest.lookup key ≠ some value := fun hlookup =>
        nodup.1 (List.mem_map.2 ⟨_, ih.1 hlookup, rfl⟩)
      simp [hnot, eq_comm]
    · simp [h]

theorem contains_iff {d : OrderedDict α} : d.contains key = true ↔ ∃ value, d.get? key = some value := by
  simp only [contains, keys, List.contains_iff_mem, List.mem_map, get?_eq_some_iff, Prod.exists,
    exists_and_right, exists_eq_right]

def erase (d : OrderedDict α) (key : String) : OrderedDict α :=
  ⟨d.entries.filter fun entry => entry.1 ≠ key, d.nodup.sublist (List.filter_sublist.map _)⟩

@[simp] theorem get?_erase (d : OrderedDict α) :
    (d.erase key).get? name = if name = key then none else d.get? name := by
  refine Option.ext fun value => ?_
  rw [get?_eq_some_iff]
  by_cases h : name = key
  · simp [erase, h]
  · simp [erase, h, get?_eq_some_iff]

/-- The same keys, each with what `f` makes of its value. -/
def mapValues (f : α → β) (d : OrderedDict α) : OrderedDict β :=
  ⟨d.entries.map fun entry => (entry.1, f entry.2), by simpa [Function.comp_def] using d.nodup⟩

@[simp] theorem contains_mapValues (f : α → β) (d : OrderedDict α) :
    (d.mapValues f).contains key = d.contains key := by
  simp [contains, keys, mapValues, Function.comp_def]

@[simp] theorem contains_insert (d : OrderedDict α) :
    (d.insert key value).contains name = (name = key || d.contains name) := by
  rw [Bool.eq_iff_iff]
  simp only [contains, keys, insert, List.contains_iff_mem, mem_put, Bool.or_eq_true, decide_eq_true_eq]

@[simp] theorem contains_empty (name : String) : (empty : OrderedDict α).contains name = false := rfl

/-- The entries of a list of pairs in turn, a later pair overwriting an earlier. -/
def ofList (pairs : List (String × α)) : OrderedDict α :=
  pairs.foldl (fun d pair => d.insert pair.1 pair.2) empty

/-- `d.update new`: every entry of `new` put into `d` in order. -/
def update (d new : OrderedDict α) : OrderedDict α :=
  new.entries.foldl (fun acc pair => acc.insert pair.1 pair.2) d

theorem contains_foldl_insert (pairs : List (String × α)) (d : OrderedDict α) :
    (pairs.foldl (fun acc pair => acc.insert pair.1 pair.2) d).contains name =
      (d.contains name || (pairs.map Prod.fst).contains name) := by
  induction pairs generalizing d with
  | nil => simp
  | cons pair rest ih =>
    rw [List.foldl_cons, ih, contains_insert, List.map_cons, List.contains_cons, Bool.eq_iff_iff]
    simp only [Bool.or_eq_true, decide_eq_true_eq, beq_iff_eq]
    tauto

@[simp] theorem contains_update (d new : OrderedDict α) :
    (d.update new).contains name = (d.contains name || new.contains name) :=
  contains_foldl_insert _ _

@[simp] theorem contains_ofList (pairs : List (String × α)) :
    (ofList pairs).contains name = (pairs.map Prod.fst).contains name := by
  rw [ofList, contains_foldl_insert, contains_empty, Bool.false_or]

theorem put_of_not_mem {entries : List (String × α)} (h : key ∉ entries.map Prod.fst) :
    put key value entries = entries ++ [(key, value)] := by
  induction entries with
  | nil => rfl
  | cons entry rest ih =>
    obtain ⟨k, v⟩ := entry
    obtain ⟨hne, hrest⟩ := not_or.1 fun hmem => h (List.mem_cons.2 hmem)
    rw [put, if_neg (Ne.symm hne), ih hrest, List.cons_append]

theorem entries_foldl_insert {pairs : List (String × α)} {d : OrderedDict α}
    (h : (d.keys ++ pairs.map Prod.fst).Nodup) :
    (pairs.foldl (fun acc pair => acc.insert pair.1 pair.2) d).entries = d.entries ++ pairs := by
  induction pairs generalizing d with
  | nil => simp
  | cons pair rest ih =>
    obtain ⟨key, value⟩ := pair
    have hfresh : key ∉ d.keys := fun hmem => List.disjoint_of_nodup_append h hmem (by simp)
    have hinsert : (d.insert key value).entries = d.entries ++ [(key, value)] := put_of_not_mem hfresh
    rw [List.foldl_cons, ih (by simpa [keys, hinsert] using h), hinsert, List.append_assoc]
    rfl

/-- Pairs with different keys are the entries of their dict. -/
theorem entries_ofList {pairs : List (String × α)} (h : (pairs.map Prod.fst).Nodup) :
    (ofList pairs).entries = pairs := by
  rw [ofList, entries_foldl_insert (by simpa [keys, empty] using h)]
  rfl

example : ((ofList [("a", 1), ("b", 2)]).update (ofList [("c", 3), ("a", 4)])).entries =
    [("a", 4), ("b", 2), ("c", 3)] := by decide

theorem get?_foldl_insert (pairs : List (String × α)) (d : OrderedDict α) (h : (pairs.map Prod.fst).Nodup) :
    (pairs.foldl (fun d p => d.insert p.1 p.2) d).get? key = (pairs.lookup key).or (d.get? key) := by
  induction pairs generalizing d with
  | nil => rfl
  | cons pair rest ih =>
    obtain ⟨name, value⟩ := pair
    obtain ⟨hfresh, hrest⟩ := List.nodup_cons.1 h
    rw [List.foldl_cons, ih _ hrest, get?_insert, lookup_cons_if]
    by_cases hkey : key = name
    · subst hkey
      have hnone : rest.lookup key = none := by
        refine List.lookup_eq_none_iff.2 fun p hp => bne_iff_ne.2 ?_
        rintro rfl
        exact hfresh (List.mem_map.2 ⟨p, hp, rfl⟩)
      simp [hnone]
    · simp [hkey]

theorem get?_update (d new : OrderedDict α) (key : String) :
    (d.update new).get? key = (new.get? key).or (d.get? key) :=
  get?_foldl_insert new.entries d new.nodup

-- Extension

/-- Every key of `d` is bound to the same value in `e`. -/
def Extends (d e : OrderedDict α) : Prop := ∀ key value, d.get? key = some value → e.get? key = some value

theorem Extends.refl (d : OrderedDict α) : d.Extends d := fun _ _ h => h

theorem Extends.trans {d e f : OrderedDict α} (h : d.Extends e) (h' : e.Extends f) : d.Extends f :=
  fun key value hd => h' key value (h key value hd)

theorem extends_update {d new : OrderedDict α} (h : ∀ key, new.contains key = true → d.contains key = false) :
    d.Extends (d.update new) := by
  intro key value hd
  have hnew : new.get? key = none := by
    by_contra hne
    obtain ⟨other, hother⟩ := Option.ne_none_iff_exists'.1 hne
    have hfree := h key (contains_iff.2 ⟨other, hother⟩)
    rw [contains_iff.2 ⟨value, hd⟩] at hfree
    cases hfree
  rw [get?_update, hnew, Option.none_or, hd]

/-- What is laid on top is there. -/
theorem update_extends (d new : OrderedDict α) : new.Extends (d.update new) := by
  intro key value hnew
  rw [get?_update, hnew, Option.some_or]

@[simp] theorem keys_erase (d : OrderedDict α) : (d.erase key).keys = d.keys.filter (· ≠ key) := by
  simp [keys, erase, List.filter_map, Function.comp_def]

theorem keys_put {entries : List (String × α)} (h : key ∈ entries.map Prod.fst) :
    (put key value entries).map Prod.fst = entries.map Prod.fst := by
  induction entries with
  | nil => cases h
  | cons entry rest ih =>
    obtain ⟨k, v⟩ := entry
    by_cases hk : k = key
    · simp [put, hk]
    · have hrest : key ∈ rest.map Prod.fst := by
        simpa [Ne.symm hk] using h
      simp [put, hk, ih hrest]

/-- A key that is there keeps its place. -/
theorem keys_insert {d : OrderedDict α} (h : d.contains key = true) : (d.insert key value).keys = d.keys :=
  keys_put (by simpa [contains, keys] using h)

/-- A dict is known by the order of its keys and by what it has for each. -/
theorem ext_get? {d e : OrderedDict α} (hkeys : d.keys = e.keys) (hget : ∀ key, d.get? key = e.get? key) : d = e := by
  have hlength : d.entries.length = e.entries.length := by
    simpa [keys] using congrArg List.length hkeys
  refine ext_entries (List.ext_getElem hlength fun i hd he => ?_)
  have hkey : (d.entries[i]).1 = (e.entries[i]).1 := by
    simpa [keys, hd, he] using congrArg (·[i]?) hkeys
  have hfound : d.get? (d.entries[i]).1 = some (d.entries[i]).2 := get?_eq_some_iff.2 (List.getElem_mem hd)
  have hfound' : e.get? (e.entries[i]).1 = some (e.entries[i]).2 := get?_eq_some_iff.2 (List.getElem_mem he)
  rw [hget, hkey, hfound'] at hfound
  exact Prod.ext hkey (Option.some.inj hfound).symm

end OrderedDict
