import ChainWeaver.Data.SortedEntries
import ChainWeaver.Json

/-!
# Values up to key order

Python compares dicts without regard to the order of their keys, and
`sort_keys=True` writes them in key order.
-/

namespace ChainWeaver

namespace Value

mutual

/-- The value with the keys of every dict in order. -/
def sorted : Value → Value
  | .list items => .list (sortedItems items)
  | .tuple items => .tuple (sortedItems items)
  | .set items => .set (sortedItems items)
  | .dict entries => .dict (SortedEntries.sort (sortedEntries entries))
  | value => value

def sortedItems : List Value → List Value
  | [] => []
  | item :: rest => sorted item :: sortedItems rest

def sortedEntries : List (String × Value) → List (String × Value)
  | [] => []
  | (key, value) :: rest => (key, sorted value) :: sortedEntries rest

end

theorem sortedItems_eq_map (items : List Value) : sortedItems items = items.map sorted := by
  induction items with
  | nil => rfl
  | cons item rest ih => rw [sortedItems, ih, List.map_cons]

theorem sortedEntries_eq_map (entries : List (String × Value)) :
    sortedEntries entries = entries.map fun entry => (entry.1, entry.2.sorted) := by
  induction entries with
  | nil => rfl
  | cons entry rest ih => rw [sortedEntries, ih, List.map_cons]

theorem plainEntries_iff (entries : List (String × Value)) :
    plainEntries nonFinite entries = true ↔ ∀ entry ∈ entries, entry.2.plain nonFinite = true := by
  induction entries with
  | nil => simp [plainEntries]
  | cons entry rest ih => simp [plainEntries, ih]

theorem plainEntries_sort (entries : List (String × Value)) :
    plainEntries nonFinite (SortedEntries.sort entries) = plainEntries nonFinite entries := by
  rw [Bool.eq_iff_iff, plainEntries_iff, plainEntries_iff]
  simp

mutual

theorem plain_sorted (value : Value) : value.sorted.plain nonFinite = value.plain nonFinite := by
  cases value with
  | list items => exact plainItems_sorted items
  | dict entries =>
    rw [sorted, plain, plainEntries_sort, plain]
    exact plainEntries_sorted entries
  | _ => rfl

theorem plainItems_sorted (items : List Value) :
    plainItems nonFinite (sortedItems items) = plainItems nonFinite items := by
  cases items with
  | nil => rfl
  | cons item rest => rw [sortedItems, plainItems, plainItems, plain_sorted item, plainItems_sorted rest]

theorem plainEntries_sorted (entries : List (String × Value)) :
    plainEntries nonFinite (sortedEntries entries) = plainEntries nonFinite entries := by
  match entries with
  | [] => rfl
  | (key, value) :: rest =>
    rw [sortedEntries, plainEntries, plainEntries, plain_sorted value, plainEntries_sorted rest]

end

theorem sortedEntries_sort (entries : List (String × Value)) :
    sortedEntries (SortedEntries.sort entries) = SortedEntries.sort (sortedEntries entries) := by
  rw [sortedEntries_eq_map, sortedEntries_eq_map, SortedEntries.sort_map]

mutual

@[simp] theorem sorted_sorted (value : Value) : value.sorted.sorted = value.sorted := by
  cases value with
  | list items | tuple items | set items => rw [sorted, sorted, sortedItems_sortedItems]
  | dict entries =>
    rw [sorted, sorted, sortedEntries_sort, sortedEntries_sortedEntries, SortedEntries.sort_sort]
  | _ => rfl

theorem sortedItems_sortedItems (items : List Value) :
    sortedItems (sortedItems items) = sortedItems items := by
  cases items with
  | nil => rfl
  | cons item rest => rw [sortedItems, sortedItems, sorted_sorted item, sortedItems_sortedItems rest]

theorem sortedEntries_sortedEntries (entries : List (String × Value)) :
    sortedEntries (sortedEntries entries) = sortedEntries entries := by
  match entries with
  | [] => rfl
  | (key, value) :: rest =>
    rw [sortedEntries, sortedEntries, sorted_sorted value, sortedEntries_sortedEntries rest]

end

end Value

/-- The dict and the dicts in it with their keys in order. -/
def sortedDict (data : Dict) : Dict := (data.mapValues Value.sorted).sorted

@[simp] theorem get?_sortedDict (data : Dict) (key : String) :
    (sortedDict data).get? key = (data.get? key).map Value.sorted := by
  rw [sortedDict, OrderedDict.get?_sorted]
  exact SortedEntries.lookup_map Value.sorted data.entries

theorem entries_sortedDict (data : Dict) :
    (sortedDict data).entries = SortedEntries.sort (Value.sortedEntries data.entries) := by
  rw [Value.sortedEntries_eq_map]
  rfl

theorem sortedDict_eq_iff {a b : Dict} :
    sortedDict a = sortedDict b ↔ (Value.dict a.entries).sorted = (Value.dict b.entries).sorted := by
  rw [Value.sorted, Value.sorted, Value.dict.injEq, ← entries_sortedDict, ← entries_sortedDict]
  exact ⟨congrArg _, OrderedDict.ext_entries⟩

@[simp] theorem sortedDict_sortedDict (data : Dict) : sortedDict (sortedDict data) = sortedDict data := by
  rw [sortedDict_eq_iff, entries_sortedDict]
  exact Value.sorted_sorted (.dict data.entries)

namespace Json

mutual

/-- The document with the keys of every object in order. -/
def sorted : Json → Json
  | .array items => .array (sortedItems items)
  | .object entries => .object (SortedEntries.sort (sortedEntries entries))
  | json => json

def sortedItems : List Json → List Json
  | [] => []
  | item :: rest => sorted item :: sortedItems rest

def sortedEntries : List (String × Json) → List (String × Json)
  | [] => []
  | (key, json) :: rest => (key, sorted json) :: sortedEntries rest

end

theorem sortedItems_eq_map (items : List Json) : sortedItems items = items.map sorted := by
  induction items with
  | nil => rfl
  | cons item rest ih => rw [sortedItems, ih, List.map_cons]

theorem sortedEntries_eq_map (entries : List (String × Json)) :
    sortedEntries entries = entries.map fun entry => (entry.1, entry.2.sorted) := by
  induction entries with
  | nil => rfl
  | cons entry rest ih => rw [sortedEntries, ih, List.map_cons]

theorem readEntries_eq_map (entries : List (String × Json)) :
    readEntries entries = entries.map fun entry => (entry.1, entry.2.read) := by
  induction entries with
  | nil => rfl
  | cons entry rest ih => rw [readEntries, ih, List.map_cons]

mutual

theorem read_sorted (json : Json) : json.sorted.read = json.read.sorted := by
  cases json with
  | array items => rw [sorted, read, read, Value.sorted, readItems_sorted items]
  | object entries =>
    rw [sorted, read, read, Value.sorted, readEntries_eq_map, ← SortedEntries.sort_map,
      ← readEntries_eq_map, readEntries_sorted entries]
  | _ => rfl

theorem readItems_sorted (items : List Json) :
    readItems (sortedItems items) = Value.sortedItems (readItems items) := by
  cases items with
  | nil => rfl
  | cons item rest =>
    rw [sortedItems, readItems, readItems, Value.sortedItems, read_sorted item, readItems_sorted rest]

theorem readEntries_sorted (entries : List (String × Json)) :
    readEntries (sortedEntries entries) = Value.sortedEntries (readEntries entries) := by
  match entries with
  | [] => rfl
  | (key, json) :: rest =>
    rw [sortedEntries, readEntries, readEntries, Value.sortedEntries, read_sorted json,
      readEntries_sorted rest]

end

mutual

/-- No reader builds a tuple, a set or an opaque object. -/
theorem plain_read (json : Json) : json.read.plain true = true := by
  cases json with
  | float f => cases f <;> rfl
  | array items => exact plainItems_read items
  | object entries => exact plainEntries_read entries
  | _ => rfl

theorem plainItems_read (items : List Json) : Value.plainItems true (readItems items) = true := by
  cases items with
  | nil => rfl
  | cons item rest =>
    rw [readItems, Value.plainItems, plain_read item, plainItems_read rest]
    rfl

theorem plainEntries_read (entries : List (String × Json)) :
    Value.plainEntries true (readEntries entries) = true := by
  match entries with
  | [] => rfl
  | (key, json) :: rest =>
    rw [readEntries, Value.plainEntries, plain_read json, plainEntries_read rest]
    rfl

end

end Json

-- Values that survive up to key order

namespace JsonWriter

variable {writer : JsonWriter}

mutual

/-- Of values without opaque objects the writer makes documents it writes no
special float into, unless it has tokens for them. -/
theorem plain_write (value : Value) (hplain : value.plain true = true) (hwrite : writer.write value = some json) :
    json.read.plain writer.nonFinite = true := by
  cases value with
  | null | bool | int | str =>
    obtain rfl := Option.some.inj hwrite
    rfl
  | float f =>
    obtain rfl := Option.some.inj hwrite
    cases f with
    | finite => rfl
    | infinite | negInfinite | nan =>
      cases hn : writer.nonFinite with
      | true => simp [writeFloat, hn, Json.read, Value.plain]
      | false => simp [writeFloat, hn, Json.read, Value.plain]
  | list items =>
    obtain ⟨jsons, hitems, rfl⟩ := Option.map_eq_some_iff.1 hwrite
    exact plainItems_write items hplain hitems
  | dict entries =>
    obtain ⟨jsons, hentries, rfl⟩ := Option.map_eq_some_iff.1 hwrite
    exact plainEntries_write entries hplain hentries
  | tuple | set | obj => cases hplain

theorem plainItems_write (items : List Value) (hplain : Value.plainItems true items = true)
    (hwrite : writer.writeItems items = some jsons) :
    Value.plainItems writer.nonFinite (Json.readItems jsons) = true := by
  cases items with
  | nil =>
    obtain rfl := Option.some.inj hwrite
    rfl
  | cons item rest =>
    rw [Value.plainItems, Bool.and_eq_true] at hplain
    simp only [writeItems, Option.bind_eq_bind, Option.bind_eq_some_iff, Option.pure_def,
      Option.some.injEq] at hwrite
    obtain ⟨json, hitem, jsons, hrest, rfl⟩ := hwrite
    rw [Json.readItems, Value.plainItems, plain_write item hplain.1 hitem, plainItems_write rest hplain.2 hrest]
    rfl

theorem plainEntries_write (entries : List (String × Value)) (hplain : Value.plainEntries true entries = true)
    (hwrite : writer.writeEntries entries = some jsons) :
    Value.plainEntries writer.nonFinite (Json.readEntries jsons) = true := by
  match entries with
  | [] =>
    obtain rfl := Option.some.inj hwrite
    rfl
  | (key, value) :: rest =>
    rw [Value.plainEntries, Bool.and_eq_true] at hplain
    simp only [writeEntries, Option.bind_eq_bind, Option.bind_eq_some_iff, Option.pure_def,
      Option.some.injEq] at hwrite
    obtain ⟨json, hvalue, jsons, hrest, rfl⟩ := hwrite
    rw [Json.readEntries, Value.plainEntries, plain_write value hplain.1 hvalue,
      plainEntries_write rest hplain.2 hrest]
    rfl

end

/-- Written and read again, a value is the same up to key order exactly if JSON
has a form of its own for it. -/
theorem sorted_read_eq_iff (hwrite : writer.write value = some json) :
    json.read.sorted = value.sorted ↔ value.plain writer.nonFinite = true := by
  constructor
  · intro h
    have htree : value.plain true = true := by
      rw [← Value.plain_sorted, ← h, Value.plain_sorted]
      exact Json.plain_read json
    rw [← Value.plain_sorted, ← h, Value.plain_sorted]
    exact plain_write value htree hwrite
  · intro h
    obtain ⟨json', hwrite', hread⟩ := read_of_plain value h
    obtain rfl := Option.some.inj (hwrite.symm.trans hwrite')
    rw [hread]

end JsonWriter

end ChainWeaver
