import ChainWeaver.ToolRuns

/-!
# The tool decorator

`decorators.py`: a tool made from an annotated function. Pydantic's model builder is a parameter. Every
run binds the validated values, and the decorator fails only with its own error, exactly if the function
is tame (`tool_reliable_iff`).
-/

namespace ChainWeaver

namespace ToolRuns

variable {V E A : Type} {py : Objects V E}

-- Functions

inductive ParameterKind
  | positionalOnly | positionalOrKeyword | varPositional | keywordOnly | varKeyword

structure Parameter (V : Type) where
  name : String
  kind : ParameterKind
  default? : Option V

/-- An annotation that should be a model class. -/
inductive SchemaHint (V E : Type)
  | model (schema : ModelClass V E)
  | other (text : String)

/-- `get_type_hints`. -/
structure Hints (V E A : Type) where
  return? : Option (SchemaHint V E)
  annotation? : String → Option A

inductive HintError (E : Type)
  /-- A `NameError` or a `TypeError`. -/
  | unresolved (text : String)
  | other (error : E)

structure PyFunction (V E A : Type) where
  name : String
  /-- `(fn.__doc__ or "").strip()`. -/
  doc : String
  typeHints : Except (HintError E) (Hints V E A)
  signature : List (Parameter V)
  nodup : (signature.map (·.name)).Nodup
  /-- What a call comes to with a value for every parameter. -/
  body : List V → Except E V

structure Options (V E : Type) where
  name : Option String
  description : Option String
  outputSchema : Option (SchemaHint V E)
  maxOutputSize : Option Nat

/-- A field of the input model: a parameter and its annotation. -/
structure Field (V A : Type) where
  parameter : Parameter V
  annotation : A

def Field.name (field : Field V A) : String := field.parameter.name

-- Pydantic

/-- The values that appear in a dump, by their fields. -/
def shownFields (excluded : A → Bool) (fields : List (Field V A)) (values : OrderedDict V) :
    List (Field V A × V) :=
  (fields.filter fun field => !excluded field.annotation).filterMap fun field =>
    (values.get? field.name).map (field, ·)

def dumpField (serialize : A → V → Except E V) (item : Field V A × V) : Except E (String × V) :=
  (serialize (Field.annotation item.1) item.2).map (item.1.name, ·)

/-- `model_dump` of a model with plain fields. -/
def dumpFields (excluded : A → Bool) (serialize : A → V → Except E V) (fields : List (Field V A))
    (values : OrderedDict V) : Except E (OrderedDict V) :=
  ((shownFields excluded fields values).mapM (dumpField serialize)).map .ofList

/-- `create_model`, as it is documented: the model has a field for every name that may be one, and its
dump serializes the values of the fields that are not excluded. -/
structure Pydantic (py : Objects V E) (A : Type) where
  /-- The name may be a field: it is no private attribute and no option of `create_model`. -/
  isField : String → Bool
  excluded : A → Bool
  serialize : A → V → Except E V
  createModel : String → List (Field V A) → Except E (ModelClass V E)
  keys_values : ∀ {name fields cls raw inst}, (fields.map Field.name).Nodup → createModel name fields = .ok cls →
    cls.validate raw = .ok inst → (cls.values inst).keys = (fields.map Field.name).filter isField
  dump_eq : ∀ {name fields cls raw inst}, (fields.map Field.name).Nodup → createModel name fields = .ok cls →
    cls.validate raw = .ok inst → cls.dump inst = dumpFields excluded serialize fields (cls.values inst)

-- Building the tool

inductive BuildError (E : Type)
  | toolDefinition (functionName detail : String)
  | other (error : E)

variable (f : PyFunction V E A) (options : Options V E) (pydantic : Pydantic py A)

def resolveHints : Except (BuildError E) (Hints V E A) :=
  match f.typeHints with
  | .ok hints => .ok hints
  | .error (.unresolved text) =>
    .error (.toolDefinition f.name (s!"Failed to resolve type hints: {text}. " ++
      "Ensure all annotations are importable and any forward references " ++
      "are either quoted or resolvable in the tool's module."))
  | .error (.other error) => .error (.other error)

def resolveOutputSchema (hints : Hints V E A) : Except (BuildError E) (ModelClass V E) :=
  match options.outputSchema, hints.return? with
  | some (.model schema), _ => .ok schema
  | some (.other text), _ =>
    .error (.toolDefinition f.name s!"output_schema must be a BaseModel subclass, got '{text}'.")
  | none, none =>
    .error (.toolDefinition f.name ("Missing a return type annotation. " ++
      "Either annotate the return type as a BaseModel subclass " ++
      "or pass output_schema=... to the decorator."))
  | none, some (.other text) =>
    .error (.toolDefinition f.name (s!"Return type must be a BaseModel subclass, got '{text}'. " ++
      "Pass output_schema=... explicitly if the function returns a dict."))
  | none, some (.model schema) => .ok schema

def buildField (hints : Hints V E A) (parameter : Parameter V) : Except (BuildError E) (Field V A) :=
  match parameter.kind, hints.annotation? parameter.name with
  | .positionalOnly, _ =>
    .error (.toolDefinition f.name ("Uses positional-only parameters, " ++
      "which are not supported by the @tool decorator. " ++
      "Use the explicit Tool() constructor instead."))
  | .varPositional, _ | .varKeyword, _ =>
    .error (.toolDefinition f.name ("Uses *args or **kwargs, " ++
      "which cannot be introspected into a schema. " ++
      "Use the explicit Tool() constructor instead."))
  | _, none =>
    .error (.toolDefinition f.name (s!"Parameter '{parameter.name}' is missing a type annotation. " ++
      "Use the explicit Tool() constructor for functions " ++
      "without full type hints."))
  | _, some annotation => .ok ⟨parameter, annotation⟩

def bindArgument (kwargs : OrderedDict V) (parameter : Parameter V) : Except (ToolError E) V :=
  match kwargs.get? parameter.name, parameter.default? with
  | some value, _ => .ok value
  | none, some value => .ok value
  | none, none => .error (.typeError s!"missing argument: '{parameter.name}'")

/-- How `fn(**kwargs)` binds the parameters. -/
def bindArguments (kwargs : OrderedDict V) : Except (ToolError E) (List V) :=
  if kwargs.keys.all (f.signature.map (·.name)).contains then f.signature.mapM (bindArgument kwargs)
  else .error (.typeError "unexpected keyword argument")

variable (py) in
/-- A returned model is dumped. -/
def dumpResult (result : V) : Except (ToolError E) V :=
  match py.modelDump? result with
  | some attempt => (attempt.map py.ofDict).mapError .raised
  | none => .ok result

variable (py) in
def notAwaitable (raw : V) : Except (ToolError E) V := if py.isAwaitable raw then .error .awaitable else .ok raw

variable (py) in
/-- The function of the tool, from the arguments on. -/
def invoke (arguments : List V) : Except (ToolError E) V := do
  let result ← (f.body arguments).mapError .raised
  let raw ← dumpResult py result
  notAwaitable py raw

variable (py) in
def adapter (inputSchema : ModelClass V E) (inst : V) : Except (ToolError E) V := do
  let dumped ← (inputSchema.dump inst).mapError .raised
  let arguments ← bindArguments f dumped
  invoke py f arguments

/-- The tool of the decorator. -/
structure DecoratedTool (py : Objects V E) (A : Type) where
  originalFn : PyFunction V E A
  tool : Tool py

def inputName : String := s!"{options.name.getD f.name}_input"

variable (py) in
def decorated (inputSchema outputSchema : ModelClass V E) : DecoratedTool py A where
  originalFn := f
  tool := {
    name := options.name.getD f.name
    description := options.description.getD f.doc
    inputSchema := inputSchema
    outputSchema := outputSchema
    callFn := adapter py f inputSchema
    maxOutputSize := options.maxOutputSize }

def buildTool : Except (BuildError E) (DecoratedTool py A) := do
  let hints ← resolveHints f
  let outputSchema ← resolveOutputSchema f options hints
  let fields ← f.signature.mapM (buildField f hints)
  let inputSchema ← (pydantic.createModel (inputName f options) fields).mapError .other
  return decorated py f options inputSchema outputSchema

-- Runs

/-- A run: the argument lists the function was entered with, and the outcome. -/
structure Run (V E : Type) where
  calls : List (List V)
  result : Except (ToolError E) (OrderedDict V)

namespace DecoratedTool

variable (d : DecoratedTool py A)

/-- The arguments a run makes of its inputs. -/
def bound (rawInputs : OrderedDict V) : Except (ToolError E) (List V) := do
  let validated ← (d.tool.inputSchema.validate (py.ofDict rawInputs)).mapError .raised
  let dumped ← (d.tool.inputSchema.dump validated).mapError .raised
  bindArguments d.originalFn dumped

/-- `Tool.run`, with the calls of the function. -/
def run (rawInputs : OrderedDict V) : Run V E :=
  match d.bound rawInputs with
  | .error error => ⟨[], .error error⟩
  | .ok arguments => ⟨[arguments], invoke py d.originalFn arguments >>= d.tool.validateOutput⟩

/-- `__call__`, and the result validated. -/
def callValidated (arguments : List V) : Except (ToolError E) (OrderedDict V) :=
  (d.originalFn.body arguments).mapError .raised >>= d.tool.validateOutput

/-- The function is entered once, with the validated value of every parameter, and the run returns what
calling the function with them and validating its result returns. -/
def Agrees (rawInputs : OrderedDict V) (inst : V) : Prop :=
  ∃ arguments,
    List.Forall₂ (fun parameter value => (d.tool.inputSchema.values inst).get? parameter.name = some value)
      d.originalFn.signature arguments ∧
    (d.run rawInputs).calls = [arguments] ∧
    (d.run rawInputs).result.toOption = (d.callValidated arguments).toOption

end DecoratedTool

/-- The decorator returns a tool or raises its own error, and its tool agrees with the function on all
inputs that validate. -/
def Reliable : Prop :=
  ((∃ d, buildTool f options pydantic = .ok d) ∨
      ∃ functionName detail, buildTool f options pydantic = .error (.toolDefinition functionName detail)) ∧
    ∀ d, buildTool f options pydantic = .ok d → ∀ rawInputs inst,
      d.tool.inputSchema.validate (py.ofDict rawInputs) = .ok inst → d.Agrees rawInputs inst

-- Tame functions

/-- The decorator gets as far as the model builder. -/
def Prepared (outputSchema : ModelClass V E) (fields : List (Field V A)) : Prop :=
  ∃ hints, f.typeHints = .ok hints ∧ resolveOutputSchema f options hints = .ok outputSchema ∧
    f.signature.mapM (buildField f hints) = .ok fields

/-- The dump hands the value on as it is: it serializes to itself, or the field is excluded and the value
is the parameter's default. -/
def Kept (field : Field V A) (value : V) : Prop :=
  if pydantic.excluded field.annotation then field.parameter.default? = some value
  else pydantic.serialize field.annotation value = .ok value

/-- A model and its dump validate alike, and an awaitable does not validate. -/
structure ValidatesAlike (t : Tool py) (result : V) : Prop where
  model : ∀ attempt, py.modelDump? result = some attempt →
    (attempt.mapError .raised >>= fun dumped => t.validateOutput (py.ofDict dumped)).toOption =
      (t.validateOutput result).toOption
  awaitable : py.modelDump? result = none → py.isAwaitable result = true → (t.validateOutput result).toOption = none

structure Tame : Prop where
  /-- Type hints fail to resolve only by an unknown name or a wrong type. -/
  hints : ∀ error, f.typeHints ≠ .error (.other error)
  /-- The model builder takes the parameters. -/
  builds : ∀ outputSchema fields, Prepared f options outputSchema fields →
    ∃ cls, pydantic.createModel (inputName f options) fields = .ok cls
  /-- Every parameter gets a validated value, which the dump keeps. -/
  arguments : ∀ outputSchema fields cls, Prepared f options outputSchema fields →
    pydantic.createModel (inputName f options) fields = .ok cls →
    ∀ rawInputs inst, cls.validate (py.ofDict rawInputs) = .ok inst →
      ∀ field ∈ fields, ∃ value, (cls.values inst).get? field.name = some value ∧ Kept pydantic field value
  /-- What the function returns on validated values validates as its dump does. -/
  results : ∀ outputSchema fields cls, Prepared f options outputSchema fields →
    pydantic.createModel (inputName f options) fields = .ok cls →
    ∀ rawInputs inst, cls.validate (py.ofDict rawInputs) = .ok inst →
      ∀ arguments, List.Forall₂ (fun parameter value => (cls.values inst).get? parameter.name = some value)
          f.signature arguments →
        ∀ result, f.body arguments = .ok result →
          ValidatesAlike (decorated py f options cls outputSchema).tool result

-- Dumps

section

variable {excluded : A → Bool} {serialize : A → V → Except E V} {fields : List (Field V A)} {field : Field V A}
  {values dumped : OrderedDict V} {value : V}

theorem mem_shownFields {item : Field V A × V} : item ∈ shownFields excluded fields values ↔
    item.1 ∈ fields ∧ excluded (Field.annotation item.1) = false ∧ values.get? item.1.name = some item.2 := by
  obtain ⟨field, value⟩ := item
  simp only [shownFields, List.mem_filterMap, List.mem_filter, Option.map_eq_some_iff]
  constructor
  · rintro ⟨field', ⟨hfield, hshown⟩, value', hvalue, heq⟩
    cases heq
    exact ⟨hfield, by simpa using hshown, hvalue⟩
  · rintro ⟨hfield, hshown, hvalue⟩
    exact ⟨field, ⟨hfield, by simp [hshown]⟩, value, hvalue, rfl⟩

theorem dumpField_eq_ok {item : Field V A × V} {pair : String × V} : dumpField serialize item = .ok pair ↔
    item.1.name = pair.1 ∧ serialize (Field.annotation item.1) item.2 = .ok pair.2 := by
  obtain ⟨key, value⟩ := pair
  unfold dumpField
  cases serialize (Field.annotation item.1) item.2 <;> simp [Except.map]

/-- The keys of a dump are names of fields, each once. -/
theorem nodup_shownFields (h : (fields.map Field.name).Nodup) :
    ((shownFields excluded fields values).map fun item => item.1.name).Nodup := by
  rw [List.Nodup, List.pairwise_map] at h ⊢
  refine List.Pairwise.filterMap _ ?_ (h.filter _)
  intro field field' hne item hitem item' hitem'
  obtain ⟨value, -, rfl⟩ := Option.map_eq_some_iff.1 hitem
  obtain ⟨value', -, rfl⟩ := Option.map_eq_some_iff.1 hitem'
  exact hne

/-- Entries read under the names of the items have these names as keys. -/
theorem keys_of_mapM {α : Type} {read : α → Except E (String × V)} {name : α → String}
    (hread : ∀ item pair, read item = .ok pair → name item = pair.1) {items : List α} {pairs : List (String × V)}
    (h : items.mapM read = .ok pairs) : pairs.map Prod.fst = items.map name := by
  induction Attempt.mapM_eq_ok.1 h with
  | nil => rfl
  | @cons item pair rest pairs hpair hrest ih =>
    rw [List.map_cons, List.map_cons, ih (Attempt.mapM_eq_ok.2 hrest), hread item pair hpair]

theorem keys_of_dumpField {items : List (Field V A × V)} {pairs : List (String × V)}
    (h : items.mapM (dumpField serialize) = .ok pairs) : pairs.map Prod.fst = items.map fun item => item.1.name :=
  keys_of_mapM (fun _ _ hpair => (dumpField_eq_ok.1 hpair).1) h

theorem dumpFields_eq_ok (hnodup : (fields.map Field.name).Nodup) :
    dumpFields excluded serialize fields values = .ok dumped ↔
      (shownFields excluded fields values).mapM (dumpField serialize) = .ok dumped.entries := by
  unfold dumpFields
  cases h : (shownFields excluded fields values).mapM (dumpField serialize) with
  | error e => exact iff_of_false nofun nofun
  | ok pairs =>
    have hpairs : (pairs.map Prod.fst).Nodup := keys_of_dumpField h ▸ nodup_shownFields hnodup
    have hentries := OrderedDict.entries_ofList hpairs
    constructor
    · intro heq
      rw [← Except.ok.inj heq, hentries]
    · intro heq
      exact congrArg Except.ok (OrderedDict.ext_entries (hentries.trans (Except.ok.inj heq)))

theorem get?_dumpFields (hnodup : (fields.map Field.name).Nodup)
    (h : dumpFields excluded serialize fields values = .ok dumped) {key : String} :
    dumped.get? key = some value ↔ ∃ item ∈ shownFields excluded fields values,
      item.1.name = key ∧ serialize (Field.annotation item.1) item.2 = .ok value := by
  rw [OrderedDict.get?_eq_some_iff, Attempt.mem_mapM ((dumpFields_eq_ok hnodup).1 h)]
  simp only [dumpField_eq_ok]

theorem keys_dumpFields (hnodup : (fields.map Field.name).Nodup)
    (h : dumpFields excluded serialize fields values = .ok dumped) {key : String} (hkey : key ∈ dumped.keys) :
    key ∈ fields.map Field.name := by
  rw [OrderedDict.keys, keys_of_dumpField ((dumpFields_eq_ok hnodup).1 h)] at hkey
  obtain ⟨item, hitem, rfl⟩ := List.mem_map.1 hkey
  exact List.mem_map_of_mem (mem_shownFields.1 hitem).1

end

-- Arguments

section

variable {pydantic} {fields : List (Field V A)} {field : Field V A} {values dumped : OrderedDict V} {value : V}

theorem bindArgument_eq_ok {kwargs : OrderedDict V} {parameter : Parameter V} :
    (bindArgument kwargs parameter : Except (ToolError E) V) = .ok value ↔
      kwargs.get? parameter.name = some value ∨
        kwargs.get? parameter.name = none ∧ parameter.default? = some value := by
  unfold bindArgument
  cases kwargs.get? parameter.name <;> cases parameter.default? <;> simp

/-- The parameter of a field is bound to its value exactly if the dump keeps the value. -/
theorem bindArgument_kept (hnodup : (fields.map Field.name).Nodup)
    (h : dumpFields pydantic.excluded pydantic.serialize fields values = .ok dumped) (hfield : field ∈ fields)
    (hvalue : values.get? field.name = some value) :
    (bindArgument dumped field.parameter : Except (ToolError E) V) = .ok value ↔ Kept pydantic field value := by
  have hget (w : V) : dumped.get? field.name = some w ↔
      pydantic.excluded field.annotation = false ∧ pydantic.serialize field.annotation value = .ok w := by
    rw [get?_dumpFields hnodup h]
    constructor
    · rintro ⟨item, hitem, hname, hserialize⟩
      obtain ⟨hmem, hshown, hget⟩ := mem_shownFields.1 hitem
      have heq : item.1 = field := List.inj_on_of_nodup_map hnodup hmem hfield hname
      rw [heq] at hshown hget hserialize
      cases Option.some.inj (hget.symm.trans hvalue)
      exact ⟨hshown, hserialize⟩
    · rintro ⟨hshown, hserialize⟩
      exact ⟨(field, value), mem_shownFields.2 ⟨hfield, hshown, hvalue⟩, rfl, hserialize⟩
  rw [bindArgument_eq_ok, ← Field.name, Kept]
  cases hexcluded : pydantic.excluded field.annotation with
  | true =>
    have hnone : dumped.get? field.name = none :=
      Option.eq_none_iff_forall_ne_some.2 fun w hw => by simpa [hexcluded] using ((hget w).1 hw).1
    simp [hnone]
  | false =>
    have hshown : (field, value) ∈ shownFields pydantic.excluded fields values :=
      mem_shownFields.2 ⟨hfield, hexcluded, hvalue⟩
    obtain ⟨pair, hpair⟩ := Attempt.exists_of_mapM ((dumpFields_eq_ok hnodup).1 h) hshown
    have hsome := (hget pair.2).2 ⟨hexcluded, (dumpField_eq_ok.1 hpair).2⟩
    rw [hget value, hsome]
    simp [hexcluded]

/-- The lists of two relations from the same left side meet exactly if the relations do everywhere. -/
theorem exists_forall₂_both {α β : Type} {R S : α → β → Prop} {xs : List α} :
    (∃ ys, List.Forall₂ R xs ys ∧ List.Forall₂ S xs ys) ↔ ∀ x ∈ xs, ∃ y, R x y ∧ S x y := by
  induction xs with
  | nil => simp
  | cons x xs ih =>
    rw [List.forall_mem_cons, ← ih]
    constructor
    · rintro ⟨_, hRs, hSs⟩
      cases hRs with
      | cons hR hRs =>
        cases hSs with
        | cons hS hSs => exact ⟨⟨_, hR, hS⟩, _, hRs, hSs⟩
    · rintro ⟨⟨y, hR, hS⟩, ys, hRs, hSs⟩
      exact ⟨y :: ys, .cons hR hRs, .cons hS hSs⟩

variable {f}

theorem nodup_fields (hsignature : f.signature = fields.map Field.parameter) : (fields.map Field.name).Nodup := by
  have hnodup := f.nodup
  rw [hsignature, List.map_map] at hnodup
  exact hnodup

theorem bindArguments_eq_ok (hsignature : f.signature = fields.map Field.parameter)
    (h : dumpFields pydantic.excluded pydantic.serialize fields values = .ok dumped)
    {arguments : List V} : (bindArguments f dumped : Except (ToolError E) (List V)) = .ok arguments ↔
      List.Forall₂ (fun parameter value => (bindArgument dumped parameter : Except (ToolError E) V) = .ok value)
        f.signature arguments := by
  have hknown : dumped.keys.all (f.signature.map (·.name)).contains = true := by
    rw [List.all_eq_true]
    intro key hkey
    have hmem := keys_dumpFields (nodup_fields hsignature) h hkey
    rw [hsignature, List.map_map]
    exact List.contains_iff_mem.2 hmem
  rw [bindArguments, if_pos hknown, Attempt.mapM_eq_ok]

/-- The function is entered with the validated value of every parameter exactly if the dump keeps them. -/
theorem exists_bound_iff (hsignature : f.signature = fields.map Field.parameter) :
    (∃ arguments,
      List.Forall₂ (fun parameter value => values.get? parameter.name = some value) f.signature arguments ∧
      ∃ dumped, dumpFields pydantic.excluded pydantic.serialize fields values = .ok dumped ∧
        (bindArguments f dumped : Except (ToolError E) (List V)) = .ok arguments) ↔
      ∀ field ∈ fields, ∃ value, values.get? field.name = some value ∧ Kept pydantic field value := by
  have hnodup := nodup_fields hsignature
  constructor
  · rintro ⟨arguments, hvalues, dumped, hdumped, hbound⟩ field hfield
    have hbound := (bindArguments_eq_ok hsignature hdumped).1 hbound
    have hmem : field.parameter ∈ f.signature := hsignature ▸ List.mem_map_of_mem hfield
    obtain ⟨value, hvalue, hbind⟩ := exists_forall₂_both.1 ⟨arguments, hvalues, hbound⟩ field.parameter hmem
    exact ⟨value, hvalue, (bindArgument_kept hnodup hdumped hfield hvalue).1 hbind⟩
  · intro h
    have hshown : ∀ item ∈ shownFields pydantic.excluded fields values, ∃ pair,
        dumpField pydantic.serialize item = .ok pair := by
      intro item hitem
      obtain ⟨hfield, hincluded, hvalue⟩ := mem_shownFields.1 hitem
      obtain ⟨value, hvalue', hkept⟩ := h item.1 hfield
      cases Option.some.inj (hvalue.symm.trans hvalue')
      rw [Kept, hincluded] at hkept
      exact ⟨(item.1.name, item.2), dumpField_eq_ok.2 ⟨rfl, hkept⟩⟩
    obtain ⟨pairs, hpairs⟩ := Attempt.exists_mapM_ok.2 hshown
    have hdumped : dumpFields pydantic.excluded pydantic.serialize fields values = .ok (.ofList pairs) := by
      rw [dumpFields, hpairs]
      rfl
    have hboth : ∀ parameter ∈ f.signature, ∃ value, values.get? parameter.name = some value ∧
        (bindArgument (OrderedDict.ofList pairs) parameter : Except (ToolError E) V) = .ok value := by
      rw [hsignature, List.forall_mem_map]
      intro field hfield
      obtain ⟨value, hvalue, hkept⟩ := h field hfield
      exact ⟨value, hvalue, (bindArgument_kept hnodup hdumped hfield hvalue).2 hkept⟩
    obtain ⟨arguments, hvalues, hbound⟩ := exists_forall₂_both.2 hboth
    exact ⟨arguments, hvalues, _, hdumped, (bindArguments_eq_ok hsignature hdumped).2 hbound⟩

end

-- Results

theorem settled_model {result : V} {attempt : Except E (OrderedDict V)} (h : py.modelDump? result = some attempt) :
    (dumpResult py result >>= notAwaitable py) = (attempt.map py.ofDict).mapError .raised := by
  rw [dumpResult, h]
  cases attempt with
  | error e => rfl
  | ok dumped => simp [Except.map, Except.mapError, bind, Except.bind, notAwaitable]

theorem settled_plain {result : V} (h : py.modelDump? result = none) :
    (dumpResult py result >>= notAwaitable py) = notAwaitable py result := by
  rw [dumpResult, h]
  rfl

theorem validatesAlike_iff {t : Tool py} {result : V} : ValidatesAlike t result ↔
    (dumpResult py result >>= notAwaitable py >>= t.validateOutput).toOption = (t.validateOutput result).toOption := by
  cases hmodel : py.modelDump? result with
  | some attempt =>
    have hdumped : ((attempt.map py.ofDict).mapError .raised >>= t.validateOutput) =
        (attempt.mapError .raised >>= fun dumped => t.validateOutput (py.ofDict dumped)) := by
      cases attempt <;> rfl
    rw [settled_model hmodel, hdumped]
    constructor
    · intro h
      exact h.model attempt hmodel
    · intro h
      constructor
      · intro attempt' hattempt
        cases Option.some.inj (hmodel.symm.trans hattempt)
        exact h
      · intro hnone
        cases hmodel.symm.trans hnone
  | none =>
    rw [settled_plain hmodel, notAwaitable]
    constructor
    · intro h
      split
      · next hawaitable => exact (h.awaitable hmodel hawaitable).symm
      · rfl
    · intro h
      constructor
      · intro attempt hattempt
        cases hmodel.symm.trans hattempt
      · intro _ hawaitable
        rw [if_pos hawaitable] at h
        exact h.symm

/-- From the same arguments on, the run and the direct call come to the same exactly if what the function
returns validates as its dump does. -/
theorem results_iff {t : Tool py} {arguments : List V} :
    (invoke py f arguments >>= t.validateOutput).toOption =
        ((f.body arguments).mapError .raised >>= t.validateOutput).toOption ↔
      ∀ result, f.body arguments = .ok result → ValidatesAlike t result := by
  unfold invoke
  cases h : f.body arguments with
  | error e => exact iff_of_true rfl nofun
  | ok result =>
    constructor
    · rintro heq result' hresult
      cases hresult
      exact validatesAlike_iff.2 heq
    · intro halike
      exact validatesAlike_iff.1 (halike result rfl)

-- Building

section

variable {f options pydantic} {hints : Hints V E A} {fields : List (Field V A)} {outputSchema cls : ModelClass V E}
  {d : DecoratedTool py A}

theorem buildField_parameter {parameter : Parameter V} {field : Field V A}
    (h : buildField f hints parameter = .ok field) : field.parameter = parameter := by
  unfold buildField at h
  split at h <;> cases h
  rfl

theorem signature_of_fields (h : f.signature.mapM (buildField f hints) = .ok fields) :
    f.signature = fields.map Field.parameter := by
  have hfields := Attempt.mapM_eq_ok.1 h
  clear h
  generalize f.signature = signature at hfields
  induction hfields with
  | nil => rfl
  | cons hfield _ ih => rw [List.map_cons, buildField_parameter hfield, ← ih]

theorem Prepared.signature (h : Prepared f options outputSchema fields) :
    f.signature = fields.map Field.parameter := by
  obtain ⟨hints, -, -, hfields⟩ := h
  exact signature_of_fields hfields

theorem resolveHints_eq_ok : resolveHints f = .ok hints ↔ f.typeHints = .ok hints := by
  unfold resolveHints
  split <;> simp [*]

theorem buildTool_eq_ok : buildTool f options pydantic = .ok d ↔
    ∃ outputSchema fields cls, Prepared f options outputSchema fields ∧
      pydantic.createModel (inputName f options) fields = .ok cls ∧ decorated py f options cls outputSchema = d := by
  simp only [buildTool, Attempt.bind_eq_ok, resolveHints_eq_ok, Attempt.mapError_eq_ok]
  constructor
  · rintro ⟨hints, hhints, outputSchema, houtput, fields, hfields, cls, hcls, h⟩
    exact ⟨outputSchema, fields, cls, ⟨hints, hhints, houtput, hfields⟩, hcls, Except.ok.inj h⟩
  · rintro ⟨outputSchema, fields, cls, ⟨hints, hhints, houtput, hfields⟩, hcls, rfl⟩
    exact ⟨hints, hhints, outputSchema, houtput, fields, hfields, cls, hcls, rfl⟩

/-- The decorator's own error. -/
def IsDefinitionError (e : BuildError E) : Prop := ∃ functionName detail, e = .toolDefinition functionName detail

theorem resolveHints_errors : Attempt.ErrorsIn IsDefinitionError (resolveHints f) ↔
    ∀ error, f.typeHints ≠ .error (.other error) := by
  unfold resolveHints
  split <;> simp [IsDefinitionError, *]

theorem resolveOutputSchema_errors : Attempt.ErrorsIn IsDefinitionError (resolveOutputSchema f options hints) := by
  unfold resolveOutputSchema
  split <;> simp [IsDefinitionError]

theorem buildField_errors (parameter : Parameter V) :
    Attempt.ErrorsIn IsDefinitionError (buildField f hints parameter) := by
  unfold buildField
  split <;> simp [IsDefinitionError]

theorem createModel_errors {name : String} :
    Attempt.ErrorsIn IsDefinitionError ((pydantic.createModel name fields).mapError .other) ↔
      ∃ cls, pydantic.createModel name fields = .ok cls := by
  cases pydantic.createModel name fields <;> simp [Except.mapError, IsDefinitionError]

/-- The decorator raises only its own error exactly if the hints resolve or fail as foreseen, and the model
builder takes the parameters it gets. -/
theorem buildTool_errors : Attempt.ErrorsIn IsDefinitionError (buildTool f options pydantic) ↔
    (∀ error, f.typeHints ≠ .error (.other error)) ∧
      ∀ outputSchema fields, Prepared f options outputSchema fields →
        ∃ cls, pydantic.createModel (inputName f options) fields = .ok cls := by
  simp only [buildTool, Attempt.errorsIn_bind, resolveHints_errors, resolveOutputSchema_errors, createModel_errors,
    resolveHints_eq_ok]
  refine and_congr_right fun _ => ?_
  constructor
  · rintro h outputSchema fields ⟨hints, hhints, houtput, hfields⟩
    exact (((h hints hhints).2 outputSchema houtput).2 fields hfields).1
  · intro h hints hhints
    refine ⟨trivial, fun outputSchema houtput => ⟨Attempt.errorsIn_mapM fun p _ => buildField_errors p, ?_⟩⟩
    intro fields hfields
    exact ⟨h outputSchema fields ⟨hints, hhints, houtput, hfields⟩, fun _ _ => Attempt.errorsIn_ok⟩

theorem errorsIn_definition_iff {α : Type} {x : Except (BuildError E) α} : Attempt.ErrorsIn IsDefinitionError x ↔
    (∃ a, x = .ok a) ∨ ∃ functionName detail, x = .error (.toolDefinition functionName detail) := by
  cases x <;> simp [IsDefinitionError]

end

-- Reliable tools

section

variable {f options pydantic} {fields : List (Field V A)} {outputSchema cls : ModelClass V E}
  {rawInputs : OrderedDict V} {inst : V} {arguments : List V} {d : DecoratedTool py A}

theorem run_calls : (d.run rawInputs).calls = [arguments] ↔ d.bound rawInputs = .ok arguments := by
  rw [DecoratedTool.run]
  cases d.bound rawInputs <;> simp

theorem run_result (h : d.bound rawInputs = .ok arguments) :
    (d.run rawInputs).result = (invoke py d.originalFn arguments >>= d.tool.validateOutput) := by
  rw [DecoratedTool.run, h]

/-- Once the inputs are validated, the arguments are what the dump binds. -/
theorem bound_eq_ok (hinst : d.tool.inputSchema.validate (py.ofDict rawInputs) = .ok inst) :
    d.bound rawInputs = .ok arguments ↔ ∃ dumped, d.tool.inputSchema.dump inst = .ok dumped ∧
      (bindArguments d.originalFn dumped : Except (ToolError E) (List V)) = .ok arguments := by
  simp only [DecoratedTool.bound, Attempt.bind_eq_ok, Attempt.mapError_eq_ok, hinst, Except.ok.injEq, exists_eq_left']

/-- A tool agrees with its function on validated inputs exactly if the dump keeps every value, and what the
function returns for them validates as its dump does. -/
theorem decorated_agrees_iff (hprepared : Prepared f options outputSchema fields)
    (hcls : pydantic.createModel (inputName f options) fields = .ok cls)
    (hinst : cls.validate (py.ofDict rawInputs) = .ok inst) :
    (decorated py f options cls outputSchema).Agrees rawInputs inst ↔
      (∀ field ∈ fields, ∃ value,
        (cls.values inst).get? field.name = some value ∧ Kept pydantic field value) ∧
        ∀ arguments, List.Forall₂ (fun parameter value => (cls.values inst).get? parameter.name = some value)
            f.signature arguments →
          ∀ result, f.body arguments = .ok result →
            ValidatesAlike (decorated py f options cls outputSchema).tool result := by
  have hsignature := hprepared.signature
  have hdump := pydantic.dump_eq (nodup_fields hsignature) hcls hinst
  have hbound (arguments : List V) :
      (decorated py f options cls outputSchema).bound rawInputs = .ok arguments ↔
      ∃ dumped, dumpFields pydantic.excluded pydantic.serialize fields (cls.values inst) = .ok dumped ∧
        (bindArguments f dumped : Except (ToolError E) (List V)) = .ok arguments := by
    rw [← hdump]
    exact bound_eq_ok hinst
  rw [← exists_bound_iff (E := E) hsignature]
  constructor
  · rintro ⟨arguments, hvalues, hcalls, hresult⟩
    have hargs := run_calls.1 hcalls
    refine ⟨⟨arguments, hvalues, (hbound arguments).1 hargs⟩, fun arguments' hvalues' => ?_⟩
    have hunique : Relator.RightUnique fun (parameter : Parameter V) value =>
        (cls.values inst).get? parameter.name = some value := fun _ _ _ h h' => Option.some.inj (h.symm.trans h')
    cases List.right_unique_forall₂' hunique hvalues hvalues'
    rw [run_result hargs] at hresult
    exact (results_iff f).1 hresult
  · rintro ⟨⟨arguments, hvalues, hargs⟩, hresults⟩
    have hargs := (hbound arguments).2 hargs
    refine ⟨arguments, hvalues, run_calls.2 hargs, ?_⟩
    rw [run_result hargs]
    exact (results_iff f).2 (hresults arguments hvalues)

/-- The tool of the decorator is faithful, and the decorator fails only with its own error, exactly for
tame functions. -/
theorem tool_reliable_iff : Reliable f options pydantic ↔ Tame f options pydantic := by
  rw [Reliable, ← errorsIn_definition_iff, buildTool_errors]
  constructor
  · rintro ⟨⟨hhints, hbuilds⟩, hagrees⟩
    have hboth {outputSchema fields cls} (hprepared : Prepared f options outputSchema fields)
        (hcls : pydantic.createModel (inputName f options) fields = .ok cls) {rawInputs inst}
        (hinst : cls.validate (py.ofDict rawInputs) = .ok inst) :=
      (decorated_agrees_iff hprepared hcls hinst).1
        (hagrees _ (buildTool_eq_ok.2 ⟨outputSchema, fields, cls, hprepared, hcls, rfl⟩) rawInputs inst hinst)
    exact ⟨hhints, hbuilds, fun _ _ _ hprepared hcls _ _ hinst => (hboth hprepared hcls hinst).1,
      fun _ _ _ hprepared hcls _ _ hinst => (hboth hprepared hcls hinst).2⟩
  · intro h
    refine ⟨⟨h.hints, h.builds⟩, fun d hd rawInputs inst hinst => ?_⟩
    obtain ⟨outputSchema, fields, cls, hprepared, hcls, rfl⟩ := buildTool_eq_ok.1 hd
    exact (decorated_agrees_iff hprepared hcls hinst).2
      ⟨h.arguments outputSchema fields cls hprepared hcls rawInputs inst hinst,
        h.results outputSchema fields cls hprepared hcls rawInputs inst hinst⟩

end

-- Models in dumps

/-- Values by what `model_dump` looks at. -/
inductive PyObject
  /-- A value that is dumped as it is: a number, a text, a member of an enumeration. -/
  | atom (text : String)
  | list (items : List PyObject)
  | dict (entries : List (String × PyObject))
  | model (cls : String) (attributes : List (String × PyObject))

namespace PyObject

mutual

/-- What `model_dump` puts in the place of a value. -/
def dump : PyObject → PyObject
  | atom text => atom text
  | list items => list (dumpItems items)
  | dict entries => dict (dumpEntries entries)
  | model _ attributes => dict (dumpEntries attributes)

def dumpItems : List PyObject → List PyObject
  | [] => []
  | item :: rest => dump item :: dumpItems rest

def dumpEntries : List (String × PyObject) → List (String × PyObject)
  | [] => []
  | (key, value) :: rest => (key, dump value) :: dumpEntries rest

end

end PyObject

def pyObjects : Objects PyObject String where
  ofDict d := .dict d.entries
  asDict? value :=
    match value with
    | .dict entries => some (.ofList entries)
    | _ => none
  asDict?_ofDict d := congrArg some (OrderedDict.ext_entries (OrderedDict.entries_ofList d.nodup))
  isStr := fun _ => false
  str := id
  typeName := fun _ => ""
  modelDump? value :=
    match value with
    | .model _ attributes => some (.ok (.ofList (PyObject.dumpEntries attributes)))
    | _ => none
  isAwaitable := fun _ => false
  isAwaitable_ofDict := fun _ => rfl
  jsonSize := fun _ => 0

/-- `class Item(BaseModel)`: mappings become items. -/
def readItem? : PyObject → Option PyObject
  | .dict entries => some (.model "Item" entries)
  | .model "Item" attributes => some (.model "Item" attributes)
  | _ => none

def readItemField (raw : PyObject) (field : Field PyObject Unit) : Except String (String × PyObject) :=
  match ((pyObjects.asDict? raw).bind (·.get? field.name)).bind readItem? with
  | some item => .ok (field.name, item)
  | none => .error field.name

def attributes : PyObject → OrderedDict PyObject
  | .model _ entries => .ofList entries
  | _ => .empty

/-- Models all of whose fields are items. -/
def itemModel (name : String) (fields : List (Field PyObject Unit)) : ModelClass PyObject String where
  name := name
  fields := fields.map Field.name
  validate raw := (fields.mapM (readItemField raw)).map (.model name)
  dump inst := dumpFields (fun _ => false) (fun _ value => .ok value.dump) fields (attributes inst)
  values := attributes

theorem keys_itemModel {name : String} {fields : List (Field PyObject Unit)} {raw inst : PyObject}
    (hnodup : (fields.map Field.name).Nodup) (h : (itemModel name fields).validate raw = .ok inst) :
    (attributes inst).keys = fields.map Field.name := by
  have hkeys {pairs : List (String × PyObject)} (hpairs : fields.mapM (readItemField raw) = .ok pairs) :
      pairs.map Prod.fst = fields.map Field.name := by
    refine keys_of_mapM (fun field pair hpair => ?_) hpairs
    unfold readItemField at hpair
    split at hpair <;> cases hpair
    rfl
  simp only [itemModel] at h
  cases hpairs : fields.mapM (readItemField raw) with
  | error e => simp [hpairs, Except.map] at h
  | ok pairs =>
    rw [hpairs] at h
    cases Except.ok.inj h
    rw [attributes, OrderedDict.keys, OrderedDict.entries_ofList (hkeys hpairs ▸ hnodup), hkeys hpairs]

def itemPydantic : Pydantic pyObjects Unit where
  isField := fun _ => true
  excluded := fun _ => false
  serialize := fun _ value => .ok value.dump
  createModel name fields := .ok (itemModel name fields)
  keys_values := by
    intro name fields cls raw inst hnodup hcls hinst
    cases Except.ok.inj hcls
    rw [List.filter_true]
    exact keys_itemModel hnodup hinst
  dump_eq := by
    intro name fields cls raw inst _ hcls _
    cases Except.ok.inj hcls
    rfl

def reportClass : ModelClass PyObject String where
  name := "Report"
  fields := ["n"]
  validate raw :=
    match (pyObjects.asDict? raw).bind (·.get? "n") with
    | some value => .ok (.model "Report" [("n", value)])
    | none => .error "n"
  dump inst := .ok (.ofList (PyObject.dumpEntries (attributes inst).entries))
  values := attributes

/-- `def describe(item: Item) -> Report: return Report(n=item.n)`. -/
def describe : PyFunction PyObject String Unit where
  name := "describe"
  doc := ""
  typeHints := .ok ⟨some (.model reportClass), fun _ => some ()⟩
  signature := [⟨"item", .positionalOrKeyword, none⟩]
  nodup := by decide
  body arguments :=
    match arguments with
    | [.model "Item" entries] => .ok (.model "Report" entries)
    | _ => .error "AttributeError: 'dict' object has no attribute 'n'"

/-- The function gets a mapping where it asks for an item. -/
theorem describe_unreliable : ¬Reliable describe ⟨none, none, none, none⟩ itemPydantic := by
  intro h
  obtain ⟨arguments, hvalues, hcalls, -⟩ := h.2 _ rfl (entry "item" (.dict [("n", .atom "1")])) _ rfl
  have hentered : [[.dict [("n", .atom "1")]]] = [arguments] := hcalls
  cases hentered
  cases hvalues with
  | cons hvalue _ => cases hvalue

end ToolRuns

end ChainWeaver
