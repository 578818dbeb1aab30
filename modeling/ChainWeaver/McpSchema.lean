import ChainWeaver.Data.Attempt
import ChainWeaver.Json

/-!
# Schemas of remote tools

`mcp/_schema.py`: JSON schemas to Pydantic models. The conversion keeps to its own error, and
the model takes what the schema allows, exactly on the schemas that `Convertible` and
`ListsRequired` describe (`conversion_iff`).
-/

namespace ChainWeaver.McpSchema

open Attempt (ErrorsIn)

-- Types

inductive Primitive
  | string | integer | number | boolean | null
  deriving DecidableEq

/-- `_PRIMITIVE_TYPES`. -/
def primitiveTypes : List (String × Primitive) :=
  [("string", .string), ("integer", .integer), ("number", .number), ("boolean", .boolean), ("null", .null)]

/-- The annotations that the conversion builds; `optional` is `t | None`. -/
inductive FieldType
  | any
  | primitive (p : Primitive)
  | union (members : List Primitive)
  | list (item : FieldType)
  | dict
  | optional (inner : FieldType)

structure ModelField where
  type : FieldType
  required : Bool
  description : Option Json

inductive ExtraValue
  | allow | ignore | forbid
  deriving DecidableEq

structure ModelClass where
  name : String
  fields : List (String × ModelField)
  extra : ExtraValue

inductive ConversionError
  | mcpSchemaConversion (toolName detail : String)
  | other (typeName : String)

def ConversionError.documented : ConversionError → Prop
  | .mcpSchemaConversion .. => True
  | .other _ => False

/-- What JSON Schema means by a primitive type; an integral float is an integer. -/
def Primitive.admits : Primitive → Json → Bool
  | .string, .str _ => true
  | .integer, .int _ => true
  | .integer, .float (.finite q) => q.den = 1
  | .number, .int _ => true
  | .number, .float (.finite _) => true
  | .boolean, .bool _ => true
  | .null, .null => true
  | _, _ => false

/-- `create_model` and the validation of a primitive type. -/
structure Pydantic where
  /-- What `create_model` raises for a property that is no field name: one with a leading underscore, one
  of its own parameters, a member of `BaseModel` in a protected namespace. -/
  refusal : String → Option String
  takes : Primitive → Json → Bool
  takes_own : ∀ p value, p.admits value = true → takes p value = true

-- Conversion

/-- `re.sub(r"[^0-9A-Za-z_]", "_", raw)`, made an identifier. -/
def sanitiseModelName (raw : String) : String :=
  let cleaned := String.ofList (raw.toList.map fun c => if c.isAlphanum || c = '_' then c else '_')
  let cleaned := if cleaned = "" then "MCPModel" else cleaned
  if cleaned.toList.head?.any Char.isDigit then "_" ++ cleaned else cleaned

/-- Lists and dicts have no hash. -/
def hashable : Json → Bool
  | .array _ | .object _ => false
  | _ => true

def typeError {α : Type} : Except ConversionError α := .error (.other "TypeError")

/-- `_PRIMITIVE_TYPES` at a name. -/
def primitive? (rawType : Json) : Except ConversionError (Option Primitive) :=
  match rawType with
  | .array _ | .object _ => typeError
  | .str name => .ok (primitiveTypes.lookup name)
  | _ => .ok none

/-- The members of a union; `none` if one of them is no primitive type. -/
def unionMembers : List Json → Except ConversionError (Option (List Primitive))
  | [] => .ok (some [])
  | member :: rest => do
    match ← primitive? member with
    | none => .ok none
    | some p => do
      let members ← unionMembers rest
      pure (members.map (p :: ·))

def unionType : Option (List Primitive) → FieldType
  | none | some [] => .any
  | some [p] => .primitive p
  | some members => .union members

/-- `_field_type_from_schema`, with `frames` calls left to the interpreter. -/
def fieldTypeFromSchema : Nat → Json → Except ConversionError FieldType
  | 0, _ => .error (.other "RecursionError")
  | frames + 1, .object entries =>
    match entries.lookup "type" with
    | some (.array members) => (unionMembers members).map unionType
    | some (.object _) => typeError
    | some (.str name) =>
      match primitiveTypes.lookup name with
      | some p => .ok (.primitive p)
      | none =>
        if name = "array" then
          match entries.lookup "items" with
          | some (.object items) => (fieldTypeFromSchema frames (.object items)).map .list
          | _ => .ok (.list .any)
        else if name = "object" then .ok .dict
        else .ok .any
    | _ => .ok .any
  | _ + 1, _ => .ok .any

/-- `bool(value)`. -/
def truthy : Json → Bool
  | .null => false
  | .bool b => b
  | .int i => i ≠ 0
  | .float (.finite q) => q ≠ 0
  | .float _ => true
  | .str s => s ≠ ""
  | .array items => !items.isEmpty
  | .object entries => !entries.isEmpty

/-- The names in `set(value)`. -/
def namesIn : Json → Except ConversionError (List String)
  | .str text => .ok (text.toList.map String.singleton)
  | .array members =>
    if members.all hashable then
      .ok (members.filterMap fun member =>
        match member with
        | .str name => some name
        | _ => none)
    else typeError
  | .object entries => .ok (entries.map Prod.fst)
  | _ => typeError

/-- The names in `set(required or [])`. -/
def requiredNames (required : Option Json) : Except ConversionError (List String) :=
  match required.filter truthy with
  | none => .ok []
  | some value => namesIn value

def describe (schema : Json) : Option Json :=
  match schema with
  | .object entries => entries.lookup "description"
  | _ => none

/-- What is converted for a property; of a schema that is no dict nothing. -/
def schemaOf : Json → Json
  | .object entries => .object entries
  | _ => .object []

def convertField (frames : Nat) (required : List String) (property : String × Json) :
    Except ConversionError (String × ModelField) := do
  let fieldType ← fieldTypeFromSchema frames (schemaOf property.2)
  if required.contains property.1 then
    pure (property.1, { type := fieldType, required := true, description := describe property.2 })
  else pure (property.1, { type := .optional fieldType, required := false, description := describe property.2 })

/-- `create_model`. -/
def createModel (pydantic : Pydantic) (name : String) (extra : ExtraValue) (fields : List (String × ModelField)) :
    Except ConversionError ModelClass :=
  match fields.findSome? fun field => pydantic.refusal field.1 with
  | some typeName => .error (.other typeName)
  | none => .ok { name := sanitiseModelName name, fields, extra }

/-- The entries of `properties`, none for a falsy value, or the value that is no mapping. -/
def propertiesOf (schema : List (String × Json)) : Except Json (List (String × Json)) :=
  match (schema.lookup "properties").filter truthy with
  | none => .ok []
  | some (.object properties) => .ok properties
  | some other => .error other

/-- The schema is of an object, or of no type. -/
def ofObject (schema : List (String × Json)) : Bool :=
  match schema.lookup "type" with
  | none | some .null => true
  | some (.str name) => name = "object"
  | _ => false

/-- The model of an object schema. -/
def convertProperties (pydantic : Pydantic) (frames : Nat) (name : String) (extra : ExtraValue)
    (schema properties : List (String × Json)) : Except ConversionError ModelClass := do
  let required ← requiredNames (schema.lookup "required")
  let fields ← properties.mapM (convertField frames required)
  createModel pydantic name extra fields

def jsonschemaToPydantic (pydantic : Pydantic) (frames : Nat) (name : String) (toolName : Option String)
    (extra : ExtraValue) (schema : Json) : Except ConversionError ModelClass :=
  let fail := fun detail => Except.error (.mcpSchemaConversion ((toolName.filter (· ≠ "")).getD name) detail)
  match schema with
  | .null => createModel pydantic name extra []
  | .object schema =>
    if ofObject schema then
      match propertiesOf schema with
      | .error other => fail s!"'properties' must be a mapping, got {other.read.typeName}"
      | .ok properties => convertProperties pydantic frames name extra schema properties
    else createModel pydantic name extra []
  | other => fail s!"expected a dict-shaped JSON Schema, got {other.read.typeName}"

-- What a model takes

namespace FieldType

/-- Validation in Pydantic's lax mode. -/
def accepts (pydantic : Pydantic) : FieldType → Json → Bool
  | .any, _ => true
  | .primitive p, value => pydantic.takes p value
  | .union members, value => members.any fun p => pydantic.takes p value
  | .list item, value =>
    match value with
    | .array items => items.all fun value => accepts pydantic item value
    | _ => false
  | .dict, value =>
    match value with
    | .object _ => true
    | _ => false
  | .optional inner, value =>
    match value with
    | .null => true
    | value => accepts pydantic inner value

end FieldType

/-- The value of a field, or that it is missing. -/
def ModelField.accepts (pydantic : Pydantic) (field : ModelField) : Option Json → Bool
  | some value => field.type.accepts pydantic value
  | none => !field.required

def ModelClass.accepts (pydantic : Pydantic) (model : ModelClass) (object : List (String × Json)) : Bool :=
  (model.fields.all fun field => field.2.accepts pydantic (object.lookup field.1)) &&
  (model.extra ≠ .forbid || object.all fun entry => (model.fields.map Prod.fst).contains entry.1)

-- What a schema allows

/-- JSON Schema's types; of a name that is none nothing is asked. -/
def HasType (typeName : String) (value : Json) : Prop :=
  match primitiveTypes.lookup typeName with
  | some p => p.admits value = true
  | none =>
    match value with
    | .array _ => typeName ≠ "object"
    | .object _ => typeName ≠ "array"
    | _ => typeName ≠ "array" ∧ typeName ≠ "object"

/-- `type`: one name, or names of which one has to fit. -/
def ValidType (schema : Json) (value : Json) : Prop :=
  match schema with
  | .object entries =>
    match entries.lookup "type" with
    | some (.str typeName) => HasType typeName value
    | some (.array members) => members = [] ∨ ∃ member ∈ members, ∀ typeName, member = .str typeName → HasType typeName value
    | _ => True
  | _ => True

/-- The schema of the items, where it is an object. -/
def itemSchema : Json → Option Json
  | .object entries =>
    match entries.lookup "items" with
    | some (.object items) => some (.object items)
    | _ => none
  | _ => none

mutual

/-- The value is valid for `type` and `items`, at every level. -/
def Valid : Json → Json → Prop
  | .array items, schema => ValidType schema (.array items) ∧ ∀ inner, itemSchema schema = some inner → ValidItems items inner
  | value, schema => ValidType schema value

def ValidItems : List Json → Json → Prop
  | [], _ => True
  | item :: rest, schema => Valid item schema ∧ ValidItems rest schema

end

/-- The object has the required properties, and is valid where its properties are described. With
`forbid` it has no others. -/
structure ValidObject (schema : List (String × Json)) (extra : ExtraValue) (object : List (String × Json)) : Prop where
  required : ∀ members, schema.lookup "required" = some (.array members) → ∀ name, .str name ∈ members →
    ∃ value, object.lookup name = some value
  properties : ∀ properties, propertiesOf schema = .ok properties → ∀ property ∈ properties, ∀ value,
    object.lookup property.1 = some value → Valid value property.2
  closed : extra = .forbid → ∀ properties, propertiesOf schema = .ok properties →
    ∀ entry ∈ object, entry.1 ∈ properties.map Prod.fst

-- Where the conversion is defined

/-- Up to the first member that is no primitive type, none is a list or a dict. -/
def MembersReadable : List Json → Prop
  | [] => True
  | member :: rest => hashable member = true ∧
      ((∃ name p, member = .str name ∧ primitiveTypes.lookup name = some p) → MembersReadable rest)

/-- The type can be looked up at every level of items, and `frames` levels are enough. -/
def TypeReadable : Nat → Json → Prop
  | 0, _ => False
  | frames + 1, .object entries =>
    match entries.lookup "type" with
    | some (.array members) => MembersReadable members
    | some (.object _) => False
    | some (.str name) =>
      name = "array" → ∀ items, entries.lookup "items" = some (.object items) → TypeReadable frames (.object items)
    | _ => True
  | _ + 1, _ => True

/-- `set` takes the value of `required`. -/
def RequiredReadable (required : Option Json) : Prop :=
  match required.filter truthy with
  | none | some (.str _) | some (.object _) => True
  | some (.array members) => ∀ member ∈ members, hashable member = true
  | some _ => False

/-- Every part of the schema that is looked up or gathered in a set has a hash, and Pydantic takes
the names of the properties. -/
structure Readable (pydantic : Pydantic) (frames : Nat) (schema properties : List (String × Json)) : Prop where
  required : RequiredReadable (schema.lookup "required")
  types : ∀ property ∈ properties, TypeReadable frames (schemaOf property.2)
  names : ∀ property ∈ properties, pydantic.refusal property.1 = none

def Convertible (pydantic : Pydantic) (frames : Nat) (schema : Json) : Prop :=
  ∀ entries, schema = .object entries → ofObject entries = true → ∀ properties, propertiesOf entries = .ok properties →
    Readable pydantic frames entries properties

/-- A text or an object under `required` makes a set of names as well. -/
def Stray (required : Option Json) (name : String) : Prop :=
  (∃ text, required = some (.str text) ∧ ∃ c ∈ text.toList, name = String.singleton c) ∨
    ∃ entries, required = some (.object entries) ∧ name ∈ entries.map Prod.fst

/-- Properties are required by a list of names only. -/
def ListsRequired (schema : Json) : Prop :=
  ∀ entries, schema = .object entries → ofObject entries = true → ∀ properties, propertiesOf entries = .ok properties →
    ∀ property ∈ properties, ¬Stray (entries.lookup "required") property.1

-- Containment

/-- Errors other than the conversion's own. -/
abbrev Undocumented (x : Except ConversionError α) : Prop := ErrorsIn (fun e => ¬e.documented) x

theorem primitive_undocumented (rawType : Json) : Undocumented (primitive? rawType) := by
  cases rawType with
  | array | object => exact Attempt.errorsIn_error.2 id
  | null | bool | int | float | str => exact Attempt.errorsIn_ok

theorem primitive_ok_iff {rawType : Json} : (∃ found, primitive? rawType = .ok found) ↔ hashable rawType = true := by
  cases rawType with
  | array | object => exact iff_of_false (fun ⟨_, h⟩ => by cases h) fun h => by cases h
  | null | bool | int | float | str => exact iff_of_true ⟨_, rfl⟩ rfl

theorem unionMembers_undocumented (members : List Json) : Undocumented (unionMembers members) := by
  induction members with
  | nil => exact Attempt.errorsIn_ok
  | cons member rest ih =>
    refine Attempt.errorsIn_bind.2 ⟨primitive_undocumented member, fun found _ => ?_⟩
    cases found with
    | none => exact Attempt.errorsIn_ok
    | some p => exact Attempt.errorsIn_bind.2 ⟨ih, fun _ _ => Attempt.errorsIn_ok⟩

theorem primitive_eq_some {rawType : Json} : primitive? rawType = .ok (some p) ↔
    ∃ name, rawType = .str name ∧ primitiveTypes.lookup name = some p := by
  cases rawType with
  | str name => simp [primitive?]
  | array | object | null | bool | int | float => exact iff_of_false (fun h => by cases h) fun ⟨_, h, _⟩ => by cases h

theorem unionMembers_ok_iff {members : List Json} :
    (∃ found, unionMembers members = .ok found) ↔ MembersReadable members := by
  induction members with
  | nil => exact iff_of_true ⟨_, rfl⟩ trivial
  | cons member rest ih =>
    rw [unionMembers, Attempt.exists_bind_ok, MembersReadable, ← primitive_ok_iff]
    constructor
    · rintro ⟨found, hfound, hrest⟩
      refine ⟨⟨found, hfound⟩, fun ⟨name, p, hname, hp⟩ => ?_⟩
      obtain rfl := Except.ok.inj (hfound.symm.trans (primitive_eq_some.2 ⟨name, hname, hp⟩))
      obtain ⟨members, hmembers, _⟩ := Attempt.exists_bind_ok.1 hrest
      exact ih.1 ⟨members, hmembers⟩
    · rintro ⟨⟨found, hfound⟩, hrest⟩
      refine ⟨found, hfound, ?_⟩
      cases found with
      | none => exact ⟨none, rfl⟩
      | some p =>
        obtain ⟨name, hname, hp⟩ := primitive_eq_some.1 hfound
        obtain ⟨members, hmembers⟩ := ih.2 (hrest ⟨name, p, hname, hp⟩)
        exact Attempt.exists_bind_ok.2 ⟨members, hmembers, _, rfl⟩

theorem fieldType_undocumented (frames : Nat) (schema : Json) : Undocumented (fieldTypeFromSchema frames schema) := by
  induction frames generalizing schema with
  | zero => exact Attempt.errorsIn_error.2 id
  | succ frames ih =>
    cases schema with
    | object entries =>
      rw [fieldTypeFromSchema]
      split
      · exact Attempt.errorsIn_map.2 (unionMembers_undocumented _)
      · exact Attempt.errorsIn_error.2 id
      · split
        · exact Attempt.errorsIn_ok
        · split
          · split
            · exact Attempt.errorsIn_map.2 (ih _)
            · exact Attempt.errorsIn_ok
          · split <;> exact Attempt.errorsIn_ok
      · exact Attempt.errorsIn_ok
    | null | bool | int | float | str | array => exact Attempt.errorsIn_ok

theorem fieldType_ok_iff {frames : Nat} {schema : Json} :
    (∃ type, fieldTypeFromSchema frames schema = .ok type) ↔ TypeReadable frames schema := by
  induction frames generalizing schema with
  | zero => exact iff_of_false (fun ⟨_, h⟩ => by cases h) id
  | succ frames ih =>
    cases schema with
    | object entries =>
      rw [fieldTypeFromSchema, TypeReadable]
      cases htype : entries.lookup "type" with
      | none => exact iff_of_true ⟨_, rfl⟩ trivial
      | some rawType =>
        cases rawType with
        | array members => exact Attempt.exists_map_ok.trans unionMembers_ok_iff
        | object => exact iff_of_false (fun ⟨_, h⟩ => by cases h) id
        | null | bool | int | float => exact iff_of_true ⟨_, rfl⟩ trivial
        | str name =>
          dsimp only
          cases hprimitive : primitiveTypes.lookup name with
          | some p =>
            have hname : name ≠ "array" := by
              rintro rfl
              cases hprimitive
            exact iff_of_true ⟨_, rfl⟩ fun heq => absurd heq hname
          | none =>
            by_cases harray : name = "array"
            · dsimp only
              rw [if_pos harray]
              cases hitems : entries.lookup "items" with
              | none => exact iff_of_true ⟨_, rfl⟩ fun _ _ h => by cases h
              | some items =>
                cases items with
                | object inner =>
                  refine Attempt.exists_map_ok.trans (ih.trans ?_)
                  exact ⟨fun h _ _ heq => by cases heq; exact h, fun h => h harray inner rfl⟩
                | null | bool | int | float | str | array => exact iff_of_true ⟨_, rfl⟩ fun _ _ h => by cases h
            · dsimp only
              rw [if_neg harray]
              refine iff_of_true ?_ fun heq => absurd heq harray
              split <;> exact ⟨_, rfl⟩
    | null | bool | int | float | str | array => exact iff_of_true ⟨_, rfl⟩ trivial

theorem namesIn_undocumented (value : Json) : Undocumented (namesIn value) := by
  cases value with
  | str | object => exact Attempt.errorsIn_ok
  | null | bool | int | float => exact Attempt.errorsIn_error.2 id
  | array members =>
    rw [namesIn]
    split
    · exact Attempt.errorsIn_ok
    · exact Attempt.errorsIn_error.2 id

theorem requiredNames_undocumented (required : Option Json) : Undocumented (requiredNames required) := by
  unfold requiredNames
  split
  · exact Attempt.errorsIn_ok
  · exact namesIn_undocumented _

theorem requiredNames_ok_iff {required : Option Json} :
    (∃ names, requiredNames required = .ok names) ↔ RequiredReadable required := by
  unfold requiredNames RequiredReadable
  cases required.filter truthy with
  | none => exact iff_of_true ⟨_, rfl⟩ trivial
  | some value =>
    cases value with
    | str | object => exact iff_of_true ⟨_, rfl⟩ trivial
    | null | bool | int | float => exact iff_of_false (fun ⟨_, h⟩ => by cases h) id
    | array members =>
      dsimp only [namesIn]
      split
      · next hall => exact iff_of_true ⟨_, rfl⟩ (List.all_eq_true.1 hall)
      · next hall => exact iff_of_false (fun ⟨_, h⟩ => by cases h) fun h => hall (List.all_eq_true.2 h)

theorem convertField_undocumented (frames : Nat) (required : List String) (property : String × Json) :
    Undocumented (convertField frames required property) := by
  refine Attempt.errorsIn_bind.2 ⟨fieldType_undocumented frames _, fun _ _ => ?_⟩
  split <;> exact Attempt.errorsIn_ok

theorem convertField_ok_iff {frames : Nat} {required : List String} {property : String × Json} :
    (∃ field, convertField frames required property = .ok field) ↔ TypeReadable frames (schemaOf property.2) := by
  rw [convertField, Attempt.exists_bind_ok, ← fieldType_ok_iff]
  refine exists_congr fun type => and_iff_left ?_
  split <;> exact ⟨_, rfl⟩

/-- A field has the name of its property. -/
theorem convertField_name {frames : Nat} (h : convertField frames required property = .ok field) :
    field.1 = property.1 := by
  obtain ⟨type, _, h⟩ := Attempt.bind_eq_ok.1 h
  split at h <;> obtain rfl := Except.ok.inj h <;> rfl

theorem convertFields_names {frames : Nat} {properties : List (String × Json)}
    (h : properties.mapM (convertField frames required) = .ok fields) :
    fields.map Prod.fst = properties.map Prod.fst := by
  induction Attempt.mapM_eq_ok.1 h with
  | nil => rfl
  | @cons property field rest fields hfirst hrest ih =>
    rw [List.map_cons, List.map_cons, convertField_name hfirst, ih (Attempt.mapM_eq_ok.2 hrest)]

theorem createModel_ok_iff {pydantic : Pydantic} {fields : List (String × ModelField)} :
    (∃ model, createModel pydantic name extra fields = .ok model) ↔
      ∀ name ∈ fields.map Prod.fst, pydantic.refusal name = none := by
  unfold createModel
  cases hrefusal : fields.findSome? fun field => pydantic.refusal field.1 with
  | none =>
    have hall := List.findSome?_eq_none_iff.1 hrefusal
    exact iff_of_true ⟨_, rfl⟩ (by simpa using hall)
  | some typeName =>
    obtain ⟨field, hfield, hname⟩ := List.exists_of_findSome?_eq_some hrefusal
    refine iff_of_false (fun ⟨_, h⟩ => by cases h) fun h => ?_
    rw [h field.1 (List.mem_map_of_mem hfield)] at hname
    cases hname

theorem createModel_undocumented (pydantic : Pydantic) (fields : List (String × ModelField)) :
    Undocumented (createModel pydantic name extra fields) := by
  unfold createModel
  split
  · exact Attempt.errorsIn_error.2 id
  · exact Attempt.errorsIn_ok

theorem convertProperties_ok_iff {pydantic : Pydantic} {frames : Nat} {schema properties : List (String × Json)} :
    (∃ model, convertProperties pydantic frames name extra schema properties = .ok model) ↔
      Readable pydantic frames schema properties := by
  simp only [convertProperties, Attempt.exists_bind_ok]
  constructor
  · rintro ⟨required, hrequired, fields, hfields, hmodel⟩
    refine ⟨requiredNames_ok_iff.1 ⟨_, hrequired⟩, fun property hproperty => ?_, fun property hproperty => ?_⟩
    · exact convertField_ok_iff.1 (Attempt.exists_of_mapM hfields hproperty)
    · exact createModel_ok_iff.1 hmodel property.1 (convertFields_names hfields ▸ List.mem_map_of_mem hproperty)
  · intro h
    obtain ⟨required, hrequired⟩ := requiredNames_ok_iff.2 h.required
    have hfield : ∀ property ∈ properties, ∃ field, convertField frames required property = .ok field :=
      fun property hproperty => convertField_ok_iff.2 (h.types property hproperty)
    obtain ⟨fields, hfields⟩ := Attempt.exists_mapM_ok.2 hfield
    refine ⟨required, hrequired, fields, hfields, createModel_ok_iff.2 ?_⟩
    rw [convertFields_names hfields, List.forall_mem_map]
    exact h.names

theorem convertProperties_errorsIn {pydantic : Pydantic} {frames : Nat} {schema properties : List (String × Json)} :
    ErrorsIn ConversionError.documented (convertProperties pydantic frames name extra schema properties) ↔
      Readable pydantic frames schema properties := by
  have hundocumented : Undocumented (convertProperties pydantic frames name extra schema properties) :=
    Attempt.errorsIn_bind.2 ⟨requiredNames_undocumented _, fun _ _ =>
      Attempt.errorsIn_bind.2 ⟨Attempt.errorsIn_mapM fun _ _ => convertField_undocumented _ _ _, fun _ _ =>
        createModel_undocumented _ _⟩⟩
  exact (Attempt.errorsIn_iff_ok hundocumented).trans convertProperties_ok_iff

section

variable {pydantic : Pydantic} {frames : Nat} {name : String} {toolName : Option String} {extra : ExtraValue}

theorem jsonschemaToPydantic_errorsIn {schema : Json} :
    ErrorsIn ConversionError.documented (jsonschemaToPydantic pydantic frames name toolName extra schema) ↔
      Convertible pydantic frames schema := by
  have hempty : ErrorsIn ConversionError.documented (createModel pydantic name extra []) := Attempt.errorsIn_ok
  cases schema with
  | null => exact iff_of_true hempty fun _ h => by cases h
  | bool | int | float | str | array => exact iff_of_true (Attempt.errorsIn_error.2 trivial) fun _ h => by cases h
  | object entries =>
    simp only [jsonschemaToPydantic, Convertible, Json.object.injEq, forall_eq']
    cases hobject : ofObject entries with
    | false => exact iff_of_true hempty fun h => by cases h
    | true =>
      cases hproperties : propertiesOf entries with
      | error other => exact iff_of_true (Attempt.errorsIn_error.2 trivial) fun _ _ h => by cases h
      | ok properties =>
        have hconvert : ErrorsIn ConversionError.documented (convertProperties pydantic frames name extra entries properties) ↔
            Readable pydantic frames entries properties := convertProperties_errorsIn
        simpa using hconvert

-- Acceptance

theorem valid_type {value schema : Json} (h : Valid value schema) : ValidType schema value := by
  cases value with
  | array items => exact h.1
  | null | bool | int | float | str | object => exact h

theorem validItems_iff {items : List Json} {schema : Json} : ValidItems items schema ↔ ∀ item ∈ items, Valid item schema := by
  induction items with
  | nil => exact iff_of_true trivial (by simp)
  | cons item rest ih => rw [ValidItems, ih, List.forall_mem_cons]

theorem unionMembers_accept {members : List Json} {found : List Primitive}
    (h : unionMembers members = .ok (some found)) (hmember : member ∈ members)
    (htype : ∀ typeName, member = .str typeName → HasType typeName value) : ∃ p ∈ found, pydantic.takes p value = true := by
  induction members generalizing found with
  | nil => cases hmember
  | cons first rest ih =>
    obtain ⟨primitive, hfirst, h⟩ := Attempt.bind_eq_ok.1 h
    cases primitive with
    | none => cases h
    | some p =>
      obtain ⟨later, hlater, h⟩ := Attempt.bind_eq_ok.1 h
      obtain ⟨others, rfl, rfl⟩ := Option.map_eq_some_iff.1 (Except.ok.inj h)
      rcases List.mem_cons.1 hmember with rfl | hrest
      · obtain ⟨typeName, rfl, hlookup⟩ := primitive_eq_some.1 hfirst
        have hadmits := htype typeName rfl
        simp only [HasType, hlookup] at hadmits
        exact ⟨p, .head _, pydantic.takes_own p value hadmits⟩
      · obtain ⟨q, hq, htakes⟩ := ih hlater hrest
        exact ⟨q, .tail _ hq, htakes⟩

theorem unionType_accepts {members : List Json} {found : Option (List Primitive)}
    (h : unionMembers members = .ok found)
    (hvalid : members = [] ∨ ∃ member ∈ members, ∀ typeName, member = .str typeName → HasType typeName value) :
    (unionType found).accepts pydantic value = true := by
  match found with
  | none | some [] => rfl
  | some (p :: others) =>
    have hsome : members ≠ [] := by
      rintro rfl
      cases h
    obtain ⟨member, hmember, htype⟩ := hvalid.resolve_left hsome
    have htaken : ∃ q ∈ p :: others, pydantic.takes q value = true := unionMembers_accept h hmember htype
    obtain ⟨q, hq, htakes⟩ := htaken
    cases others with
    | nil =>
      obtain rfl := List.mem_singleton.1 hq
      exact htakes
    | cons next rest => exact List.any_eq_true.2 ⟨q, hq, htakes⟩

/-- The annotation of a schema takes the values that the schema allows. -/
theorem fieldType_accepts {frames : Nat} {schema value : Json} (h : fieldTypeFromSchema frames schema = .ok type)
    (hvalid : Valid value schema) : type.accepts pydantic value = true := by
  induction frames generalizing schema value type with
  | zero => cases h
  | succ frames ih =>
    cases schema with
    | null | bool | int | float | str | array =>
      obtain rfl := Except.ok.inj h
      rfl
    | object entries =>
      have htype := valid_type hvalid
      rw [fieldTypeFromSchema] at h
      unfold ValidType at htype
      dsimp only at htype
      cases hlookup : entries.lookup "type" with
      | none =>
        rw [hlookup] at h
        obtain rfl := Except.ok.inj h
        rfl
      | some rawType =>
        rw [hlookup] at h htype
        cases rawType with
        | null | bool | int | float =>
          obtain rfl := Except.ok.inj h
          rfl
        | object => cases h
        | array members =>
          dsimp only at h htype
          cases hmembers : unionMembers members with
          | error e =>
            rw [hmembers] at h
            cases h
          | ok found =>
            rw [hmembers] at h
            obtain rfl := Except.ok.inj h
            exact unionType_accepts hmembers htype
        | str typeName =>
          dsimp only at h htype
          unfold HasType at htype
          cases hprimitive : primitiveTypes.lookup typeName with
          | some p =>
            rw [hprimitive] at h htype
            obtain rfl := Except.ok.inj h
            exact pydantic.takes_own p value htype
          | none =>
            rw [hprimitive] at h htype
            dsimp only at h htype
            by_cases harray : typeName = "array"
            · rw [if_pos harray] at h
              cases value with
              | null | bool | int | float | str => exact absurd harray htype.1
              | object => exact absurd harray htype
              | array items =>
                cases hitems : entries.lookup "items" with
                | none =>
                  rw [hitems] at h
                  obtain rfl := Except.ok.inj h
                  exact List.all_eq_true.2 fun _ _ => rfl
                | some inner =>
                  rw [hitems] at h
                  cases inner with
                  | null | bool | int | float | str | array =>
                    obtain rfl := Except.ok.inj h
                    exact List.all_eq_true.2 fun _ _ => rfl
                  | object inner =>
                    dsimp only at h
                    have hinner : itemSchema (.object entries) = some (.object inner) := by simp [itemSchema, hitems]
                    have hall := validItems_iff.1 (hvalid.2 _ hinner)
                    cases hitem : fieldTypeFromSchema frames (.object inner) with
                    | error e =>
                      rw [hitem] at h
                      cases h
                    | ok itemType =>
                      rw [hitem] at h
                      obtain rfl := Except.ok.inj h
                      exact List.all_eq_true.2 fun item hmem => ih hitem (hall item hmem)
            · rw [if_neg harray] at h
              split at h
              · next hobject =>
                obtain rfl := Except.ok.inj h
                cases value with
                | null | bool | int | float | str => exact absurd hobject htype.2
                | array => exact absurd hobject htype
                | object => rfl
              · obtain rfl := Except.ok.inj h
                rfl

theorem valid_schemaOf {value schema : Json} (h : Valid value schema) : Valid value (schemaOf schema) := by
  cases schema with
  | object => exact h
  | null | bool | int | float | str | array =>
    cases value with
    | array => exact ⟨trivial, fun _ hinner => by cases hinner⟩
    | null | bool | int | float | str | object => exact trivial

/-- A list of names, or what makes a set of names as well. -/
def Names (value : Json) (name : String) : Prop :=
  (∃ members, value = .array members ∧ .str name ∈ members) ∨ Stray (some value) name

theorem mem_namesIn {value : Json} (h : namesIn value = .ok names) {name : String} : name ∈ names ↔ Names value name := by
  cases value with
  | null | bool | int | float => cases h
  | str text =>
    obtain rfl := Except.ok.inj h
    simp [Names, Stray, eq_comm]
  | object entries =>
    obtain rfl := Except.ok.inj h
    simp [Names, Stray]
  | array members =>
    rw [namesIn] at h
    split at h
    · obtain rfl := Except.ok.inj h
      simp only [List.mem_filterMap, Names, Stray, Json.array.injEq, Option.some.injEq, exists_eq_left', reduceCtorEq,
        false_and, exists_false, or_false]
      constructor
      · rintro ⟨member, hmember, hname⟩
        cases member with
        | str text =>
          obtain rfl := Option.some.inj hname
          exact hmember
        | null | bool | int | float | array | object => cases hname
      · intro hmember
        exact ⟨.str name, hmember, rfl⟩
    · cases h

theorem names_truthy {value : Json} (h : Names value name) : truthy value = true := by
  rcases h with ⟨members, rfl, hmember⟩ | ⟨text, hvalue, c, hc, -⟩ | ⟨entries, hvalue, hname⟩
  · cases members with
    | nil => cases hmember
    | cons => rfl
  · obtain rfl := Option.some.inj hvalue
    have hsome : text ≠ "" := by
      rintro rfl
      cases hc
    simp [truthy, hsome]
  · obtain rfl := Option.some.inj hvalue
    cases entries with
    | nil => cases hname
    | cons => rfl

theorem mem_requiredNames {required : Option Json} (h : requiredNames required = .ok names) {name : String} :
    name ∈ names ↔ ∃ value, required = some value ∧ Names value name := by
  unfold requiredNames at h
  cases required with
  | none =>
    obtain rfl := Except.ok.inj h
    exact iff_of_false (fun hmem => by cases hmem) fun ⟨_, hvalue, _⟩ => by cases hvalue
  | some value =>
    rw [Option.filter_some] at h
    by_cases htruthy : truthy value = true
    · rw [if_pos htruthy] at h
      simp only [Option.some.injEq, exists_eq_left']
      exact mem_namesIn h
    · rw [if_neg htruthy] at h
      obtain rfl := Except.ok.inj h
      refine iff_of_false (fun hmem => by cases hmem) fun ⟨found, hfound, hnames⟩ => htruthy ?_
      obtain rfl := Option.some.inj hfound
      exact names_truthy hnames

/-- A field takes what is valid for its property, and nothing if the property is not required. -/
theorem convertField_accepts {required : List String} {property : String × Json}
    (h : convertField frames required property = .ok field) {found : Option Json}
    (hvalid : ∀ value, found = some value → Valid value property.2)
    (hrequired : property.1 ∈ required → ∃ value, found = some value) : field.2.accepts pydantic found = true := by
  obtain ⟨type, htype, h⟩ := Attempt.bind_eq_ok.1 h
  have haccepts : ∀ value, found = some value → type.accepts pydantic value = true := fun value hvalue =>
    fieldType_accepts htype (valid_schemaOf (hvalid value hvalue))
  split at h
  · next hmem =>
    obtain rfl := Except.ok.inj h
    obtain ⟨value, hvalue⟩ := hrequired (List.contains_iff_mem.1 hmem)
    rw [hvalue]
    exact haccepts value hvalue
  · obtain rfl := Except.ok.inj h
    cases found with
    | none => rfl
    | some value =>
      have hinner := haccepts value rfl
      cases value with
      | null => rfl
      | bool | int | float | str | array | object => exact hinner

theorem convertField_required {required : List String} {property : String × Json}
    (h : convertField frames required property = .ok field) (hmem : property.1 ∈ required) : field.2.required = true := by
  obtain ⟨type, _, h⟩ := Attempt.bind_eq_ok.1 h
  rw [if_pos (List.contains_iff_mem.2 hmem)] at h
  obtain rfl := Except.ok.inj h
  rfl

theorem createModel_eq_ok {fields : List (String × ModelField)} (h : createModel pydantic name extra fields = .ok model) :
    model.fields = fields ∧ model.extra = extra := by
  unfold createModel at h
  split at h
  · cases h
  · obtain rfl := Except.ok.inj h
    exact ⟨rfl, rfl⟩

theorem Stray.names {required : Option Json} (h : Stray required name) :
    ∃ value, required = some value ∧ Names value name := by
  have hstray := h
  rcases h with ⟨text, rfl, _⟩ | ⟨entries, rfl, _⟩
  · exact ⟨_, rfl, .inr hstray⟩
  · exact ⟨_, rfl, .inr hstray⟩

section

variable {schema properties : List (String × Json)} {required : List String}

/-- Without properties nothing is missing but what is required. -/
theorem validObject_nil (h : ∀ members, schema.lookup "required" ≠ some (.array members)) :
    ValidObject schema extra [] where
  required members hmembers _ _ := absurd hmembers (h members)
  properties _ _ _ _ _ hvalue := by cases hvalue
  closed _ _ _ _ hentry := by cases hentry

theorem fields_refuse_nil (hrequired : requiredNames (schema.lookup "required") = .ok required)
    (hfields : properties.mapM (convertField frames required) = .ok fields) (hproperty : property ∈ properties)
    (hstray : Stray (schema.lookup "required") property.1) : ∃ field ∈ fields, field.2.required = true := by
  obtain ⟨field, hfield⟩ := Attempt.exists_of_mapM hfields hproperty
  have hmem : property.1 ∈ required := (mem_requiredNames hrequired).2 hstray.names
  exact ⟨field, (Attempt.mem_mapM hfields).2 ⟨property, hproperty, hfield⟩, convertField_required hfield hmem⟩

theorem fields_accept (hrequired : requiredNames (schema.lookup "required") = .ok required)
    (hfields : properties.mapM (convertField frames required) = .ok fields)
    (hproperties : propertiesOf schema = .ok properties)
    (hlists : ∀ property ∈ properties, ¬Stray (schema.lookup "required") property.1)
    (hvalid : ValidObject schema extra object) (hfield : field ∈ fields) :
    field.2.accepts pydantic (object.lookup field.1) = true := by
  obtain ⟨property, hproperty, hconvert⟩ := (Attempt.mem_mapM hfields).1 hfield
  rw [convertField_name hconvert]
  refine convertField_accepts hconvert (hvalid.properties properties hproperties property hproperty) fun hmem => ?_
  obtain ⟨value, hvalue, hnames⟩ := (mem_requiredNames hrequired).1 hmem
  rcases hnames with ⟨members, rfl, hmember⟩ | hstray
  · exact hvalid.required members hvalue property.1 hmember
  · exact absurd (hvalue ▸ hstray) (hlists property hproperty)

/-- The model of a schema takes every valid object exactly if its properties are required by a
list of names only. -/
theorem convertProperties_faithful (hproperties : propertiesOf schema = .ok properties)
    (h : convertProperties pydantic frames name extra schema properties = .ok model) :
    (∀ object, ValidObject schema extra object → model.accepts pydantic object = true) ↔
      ∀ property ∈ properties, ¬Stray (schema.lookup "required") property.1 := by
  obtain ⟨required, hrequired, h⟩ := Attempt.bind_eq_ok.1 h
  obtain ⟨fields, hfields, h⟩ := Attempt.bind_eq_ok.1 h
  obtain ⟨hmodelFields, hextra⟩ := createModel_eq_ok h
  constructor
  · intro haccepts property hproperty hstray
    have hvalid : ValidObject schema extra [] := by
      refine validObject_nil fun members hmembers => ?_
      rcases hstray with ⟨text, htext, -⟩ | ⟨entries, hentries, -⟩
      · cases hmembers.symm.trans htext
      · cases hmembers.symm.trans hentries
    have hempty := haccepts [] hvalid
    obtain ⟨field, hfield, hneeded⟩ := fields_refuse_nil hrequired hfields hproperty hstray
    rw [ModelClass.accepts, hmodelFields, Bool.and_eq_true, List.all_eq_true] at hempty
    have hmissing := hempty.1 field hfield
    simp [ModelField.accepts, hneeded] at hmissing
  · intro hlists object hvalid
    rw [ModelClass.accepts, hmodelFields, hextra, Bool.and_eq_true, List.all_eq_true]
    refine ⟨fun field hfield => fields_accept hrequired hfields hproperties hlists hvalid hfield, ?_⟩
    rw [convertFields_names hfields]
    by_cases hforbid : extra = .forbid
    · have hclosed := hvalid.closed hforbid properties hproperties
      simpa [hforbid] using hclosed
    · simp [hforbid]

end

/-- What the conversion promises of a schema: it gives a model or raises its own error, and the model of
an object schema takes every object that the schema allows. -/
structure Converts (pydantic : Pydantic) (frames : Nat) (name : String) (toolName : Option String) (extra : ExtraValue)
    (schema : Json) : Prop where
  contained : ErrorsIn ConversionError.documented (jsonschemaToPydantic pydantic frames name toolName extra schema)
  faithful : ∀ model, jsonschemaToPydantic pydantic frames name toolName extra schema = .ok model →
    ∀ entries, schema = .object entries → ofObject entries = true →
      ∀ object, ValidObject entries extra object → model.accepts pydantic object = true

theorem jsonschemaToPydantic_object {entries : List (String × Json)} (hobject : ofObject entries = true)
    (hproperties : propertiesOf entries = .ok properties) :
    jsonschemaToPydantic pydantic frames name toolName extra (.object entries) =
      convertProperties pydantic frames name extra entries properties := by
  simp [jsonschemaToPydantic, hobject, hproperties]

theorem faithful_iff {schema : Json} (hconvertible : Convertible pydantic frames schema) :
    (∀ model, jsonschemaToPydantic pydantic frames name toolName extra schema = .ok model →
      ∀ entries, schema = .object entries → ofObject entries = true →
        ∀ object, ValidObject entries extra object → model.accepts pydantic object = true) ↔ ListsRequired schema := by
  constructor
  · rintro h entries rfl hobject properties hproperties
    obtain ⟨model, hmodel⟩ := convertProperties_ok_iff.2 (hconvertible entries rfl hobject properties hproperties)
    have hconverted := h model ((jsonschemaToPydantic_object hobject hproperties).trans hmodel) entries rfl hobject
    exact (convertProperties_faithful hproperties hmodel).1 hconverted
  · rintro h model hmodel entries rfl hobject
    cases hproperties : propertiesOf entries with
    | error other => simp [jsonschemaToPydantic, hobject, hproperties] at hmodel
    | ok properties =>
      rw [jsonschemaToPydantic_object hobject hproperties] at hmodel
      exact (convertProperties_faithful hproperties hmodel).2 (h entries rfl hobject properties hproperties)

end

/-- The conversion keeps its promise exactly on the schemas whose parts have hashes, whose properties have
names that Pydantic takes, and whose required properties are given by a list. -/
theorem conversion_iff (pydantic : Pydantic) (frames : Nat) (name : String) (toolName : Option String) (extra : ExtraValue)
    (schema : Json) : Converts pydantic frames name toolName extra schema ↔
      Convertible pydantic frames schema ∧ ListsRequired schema := by
  constructor
  · intro h
    have hconvertible := jsonschemaToPydantic_errorsIn.1 h.contained
    exact ⟨hconvertible, (faithful_iff hconvertible).1 h.faithful⟩
  · rintro ⟨hconvertible, hlists⟩
    exact ⟨jsonschemaToPydantic_errorsIn.2 hconvertible, (faithful_iff hconvertible).2 hlists⟩

-- A schema that is not contained

/-- Types as strict as JSON Schema's, and no field with a leading underscore. -/
def strictPydantic : Pydantic where
  refusal name := if name.toList.head? = some '_' then some "NameError" else none
  takes := Primitive.admits
  takes_own _ _ h := h

/-- A property with an object for a type. -/
def oddSchema : Json :=
  .object [("type", .str "object"), ("properties", .object [("a", .object [("type", .object [])])])]

/-- A type with no hash raises `TypeError`. -/
theorem conversion_escapes : ¬∀ (pydantic : Pydantic) (frames : Nat) (name : String) (toolName : Option String)
    (extra : ExtraValue) (schema : Json), Converts pydantic frames name toolName extra schema := by
  intro h
  have hraises : jsonschemaToPydantic strictPydantic 1000 "Search_Input" none .allow oddSchema =
      .error (.other "TypeError") := by rfl
  exact (h strictPydantic 1000 "Search_Input" none .allow oddSchema).contained _ hraises

end ChainWeaver.McpSchema
