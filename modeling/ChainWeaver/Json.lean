import ChainWeaver.Value

/-!
# JSON

What the two JSON writers in use, Pydantic's and the standard library's, make of
a value, and what their readers make of the text. A text stands here as its tree.
-/

namespace ChainWeaver

inductive Json
  | null
  | bool (b : Bool)
  | int (i : Int)
  | float (f : PyFloat)
  | str (s : String)
  | array (items : List Json)
  | object (entries : List (String × Json))

/-- Where JSON writers differ. -/
structure JsonWriter where
  /-- NaN and the infinities have tokens of their own; otherwise they become `null`. -/
  nonFinite : Bool
  /-- The text that stands for a set; `none` if a set becomes an array. -/
  setText : Option (List Value → String)
  /-- What is written for an object of another class; `none` if it cannot be. -/
  other : String → String → Option Json

namespace JsonWriter

variable (writer : JsonWriter)

def writeFloat : PyFloat → Json
  | .finite value => .float (.finite value)
  | special => if writer.nonFinite then .float special else .null

mutual

def write : Value → Option Json
  | .null => some .null
  | .bool b => some (.bool b)
  | .int i => some (.int i)
  | .float f => some (writer.writeFloat f)
  | .str s => some (.str s)
  | .list items => (writeItems items).map .array
  | .tuple items => (writeItems items).map .array
  | .set items =>
    match writer.setText with
    | some text => some (.str (text items))
    | none => (writeItems items).map .array
  | .dict entries => (writeEntries entries).map .object
  | .obj typeName repr => writer.other typeName repr

def writeItems : List Value → Option (List Json)
  | [] => some []
  | item :: rest => do
    let item ← write item
    let rest ← writeItems rest
    pure (item :: rest)

def writeEntries : List (String × Value) → Option (List (String × Json))
  | [] => some []
  | (key, value) :: rest => do
    let value ← write value
    let rest ← writeEntries rest
    pure ((key, value) :: rest)

end

end JsonWriter

namespace Json

mutual

/-- The value that a reader builds. -/
def read : Json → Value
  | .null => .null
  | .bool b => .bool b
  | .int i => .int i
  | .float f => .float f
  | .str s => .str s
  | .array items => .list (readItems items)
  | .object entries => .dict (readEntries entries)

def readItems : List Json → List Value
  | [] => []
  | item :: rest => read item :: readItems rest

def readEntries : List (String × Json) → List (String × Value)
  | [] => []
  | (key, json) :: rest => (key, read json) :: readEntries rest

end

end Json

-- Values that survive

namespace Value

mutual

/-- JSON has a form of its own for the value; NaN and the infinities count if
`nonFinite` says so. -/
def plain (nonFinite : Bool) : Value → Bool
  | .null | .bool _ | .int _ | .str _ => true
  | .float (.finite _) => true
  | .float _ => nonFinite
  | .list items => plainItems nonFinite items
  | .dict entries => plainEntries nonFinite entries
  | .tuple _ | .set _ | .obj _ _ => false

def plainItems (nonFinite : Bool) : List Value → Bool
  | [] => true
  | item :: rest => plain nonFinite item && plainItems nonFinite rest

def plainEntries (nonFinite : Bool) : List (String × Value) → Bool
  | [] => true
  | (_, value) :: rest => plain nonFinite value && plainEntries nonFinite rest

end

end Value

namespace JsonWriter

variable {writer : JsonWriter}

mutual

theorem plain_of_read (value : Value) (hwrite : writer.write value = some json) (hread : json.read = value) :
    value.plain writer.nonFinite = true := by
  cases value with
  | null | bool | int | str => rfl
  | float f =>
    simp only [write, Option.some.injEq] at hwrite
    subst hwrite
    cases f with
    | finite => rfl
    | infinite | negInfinite | nan =>
      cases hn : writer.nonFinite with
      | true => rfl
      | false => simp [writeFloat, hn, Json.read] at hread
  | list items =>
    simp only [write, Option.map_eq_some_iff] at hwrite
    obtain ⟨jsons, hitems, rfl⟩ := hwrite
    exact plainItems_of_read items hitems (by simpa [Json.read] using hread)
  | dict entries =>
    simp only [write, Option.map_eq_some_iff] at hwrite
    obtain ⟨jsons, hentries, rfl⟩ := hwrite
    exact plainEntries_of_read entries hentries (by simpa [Json.read] using hread)
  | tuple | set | obj => cases json <;> cases hread

theorem plainItems_of_read (items : List Value) (hwrite : writer.writeItems items = some jsons)
    (hread : Json.readItems jsons = items) : Value.plainItems writer.nonFinite items = true := by
  cases items with
  | nil => rfl
  | cons item rest =>
    simp only [writeItems, Option.bind_eq_bind, Option.bind_eq_some_iff, Option.pure_def,
      Option.some.injEq] at hwrite
    obtain ⟨json, hitem, jsons, hrest, rfl⟩ := hwrite
    obtain ⟨hitem', hrest'⟩ := List.cons.inj hread
    rw [Value.plainItems, plain_of_read item hitem hitem', plainItems_of_read rest hrest hrest']
    rfl

theorem plainEntries_of_read (entries : List (String × Value))
    (hwrite : writer.writeEntries entries = some jsons) (hread : Json.readEntries jsons = entries) :
    Value.plainEntries writer.nonFinite entries = true := by
  match entries with
  | [] => rfl
  | (key, value) :: rest =>
    simp only [writeEntries, Option.bind_eq_bind, Option.bind_eq_some_iff, Option.pure_def,
      Option.some.injEq] at hwrite
    obtain ⟨json, hvalue, jsons, hrest, rfl⟩ := hwrite
    obtain ⟨hvalue', hrest'⟩ := List.cons.inj hread
    rw [Value.plainEntries, plain_of_read value hvalue (Prod.mk.inj hvalue').2,
      plainEntries_of_read rest hrest hrest']
    rfl

end

mutual

theorem read_of_plain (value : Value) (h : value.plain writer.nonFinite = true) :
    ∃ json, writer.write value = some json ∧ json.read = value := by
  cases value with
  | null | bool | int | str => exact ⟨_, rfl, rfl⟩
  | float f =>
    cases f with
    | finite => exact ⟨_, rfl, rfl⟩
    | infinite | negInfinite | nan =>
      have hn : writer.nonFinite = true := h
      exact ⟨_, rfl, by simp [writeFloat, hn, Json.read]⟩
  | list items =>
    obtain ⟨jsons, hitems, hread⟩ := readItems_of_plain items h
    exact ⟨.array jsons, by simp [write, hitems], by rw [Json.read, hread]⟩
  | dict entries =>
    obtain ⟨jsons, hentries, hread⟩ := readEntries_of_plain entries h
    exact ⟨.object jsons, by simp [write, hentries], by rw [Json.read, hread]⟩
  | tuple | set | obj => cases h

theorem readItems_of_plain (items : List Value) (h : Value.plainItems writer.nonFinite items = true) :
    ∃ jsons, writer.writeItems items = some jsons ∧ Json.readItems jsons = items := by
  cases items with
  | nil => exact ⟨[], rfl, rfl⟩
  | cons item rest =>
    rw [Value.plainItems, Bool.and_eq_true] at h
    obtain ⟨json, hitem, hread⟩ := read_of_plain item h.1
    obtain ⟨jsons, hrest, hreads⟩ := readItems_of_plain rest h.2
    exact ⟨json :: jsons, by simp [writeItems, hitem, hrest], by rw [Json.readItems, hread, hreads]⟩

theorem readEntries_of_plain (entries : List (String × Value))
    (h : Value.plainEntries writer.nonFinite entries = true) :
    ∃ jsons, writer.writeEntries entries = some jsons ∧ Json.readEntries jsons = entries := by
  match entries with
  | [] => exact ⟨[], rfl, rfl⟩
  | (key, value) :: rest =>
    rw [Value.plainEntries, Bool.and_eq_true] at h
    obtain ⟨json, hvalue, hread⟩ := read_of_plain value h.1
    obtain ⟨jsons, hrest, hreads⟩ := readEntries_of_plain rest h.2
    exact ⟨(key, json) :: jsons, by simp [writeEntries, hvalue, hrest],
      by rw [Json.readEntries, hread, hreads]⟩

end

/-- A value written and read again. -/
def reread (writer : JsonWriter) (value : Value) : Option Value := (writer.write value).map Json.read

def rereadEntries (writer : JsonWriter) (entries : List (String × Value)) : Option (List (String × Value)) :=
  (writer.writeEntries entries).map Json.readEntries

theorem rereadEntries_eq_self : writer.rereadEntries entries = some entries ↔
    Value.plainEntries writer.nonFinite entries = true := by
  rw [rereadEntries, Option.map_eq_some_iff]
  exact ⟨fun ⟨_, hwrite, hread⟩ => plainEntries_of_read entries hwrite hread, readEntries_of_plain entries⟩

theorem rereadEntries_keys (h : writer.rereadEntries entries = some entries') :
    entries'.map Prod.fst = entries.map Prod.fst := by
  induction entries generalizing entries' with
  | nil =>
    obtain rfl := Option.some.inj h
    rfl
  | cons entry rest ih =>
    obtain ⟨key, value⟩ := entry
    simp only [rereadEntries, writeEntries, Option.bind_eq_bind, Option.map_eq_some_iff,
      Option.bind_eq_some_iff, Option.pure_def, Option.some.injEq] at h
    obtain ⟨_, ⟨json, _, jsons, hrest, rfl⟩, rfl⟩ := h
    have hkeys : (Json.readEntries jsons).map Prod.fst = rest.map Prod.fst :=
      ih (by simp [rereadEntries, hrest])
    simp [Json.readEntries, hkeys]

def rereadDict (writer : JsonWriter) (dict : Dict) : Option Dict :=
  match h : writer.rereadEntries dict.entries with
  | some entries => some ⟨entries, by rw [rereadEntries_keys h]; exact dict.nodup⟩
  | none => none

theorem rereadDict_eq_self {dict : Dict} : writer.rereadDict dict = some dict ↔
    Value.plainEntries writer.nonFinite dict.entries = true := by
  rw [← rereadEntries_eq_self]
  unfold rereadDict
  split
  · next entries h =>
    obtain ⟨own, nodup⟩ := dict
    simp [h]
  · next h => simp [h]

end JsonWriter

end ChainWeaver
