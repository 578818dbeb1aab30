import ChainWeaver.Data.Attempt
import ChainWeaver.Data.OrderedDict

/-!
# Runs of a tool

`Tool.run` of `tools.py`: validated inputs, the function, validated outputs. Values of the interpreter and
model classes are parameters.
-/

namespace ChainWeaver

namespace ToolRuns

/-- The values of the interpreter, as far as tools and adapters look at them. -/
structure Objects (V E : Type) where
  ofDict : OrderedDict V → V
  asDict? : V → Option (OrderedDict V)
  asDict?_ofDict : ∀ d, asDict? (ofDict d) = some d
  isStr : V → Bool
  str : V → V
  /-- `type(value).__name__`. -/
  typeName : V → String
  /-- `model_dump()` of a value that is a model. -/
  modelDump? : V → Option (Except E (OrderedDict V))
  isAwaitable : V → Bool
  isAwaitable_ofDict : ∀ d, isAwaitable (ofDict d) = false
  /-- `len(json.dumps(value, default=str).encode("utf-8"))`. -/
  jsonSize : V → Nat

attribute [simp] Objects.asDict?_ofDict Objects.isAwaitable_ofDict

variable {V E : Type}

/-- The mapping `{key: value}`. -/
def entry (key : String) (value : V) : OrderedDict V := .insert .empty key value

@[simp] theorem entry_entries (key : String) (value : V) : (entry key value).entries = [(key, value)] := rfl

/-- A Pydantic model class: its field names, what it makes of a raw value, and of an instance the dump
and the values of its attributes. -/
structure ModelClass (V E : Type) where
  name : String
  fields : List String
  validate : V → Except E V
  dump : V → Except E (OrderedDict V)
  values : V → OrderedDict V

inductive ToolError (E : Type)
  /-- A validation error, or what the tool's function raises. -/
  | raised (error : E)
  /-- `ToolOutputSizeError`. -/
  | outputSize (toolName : String) (size limit : Nat)
  | typeError (text : String)
  /-- The assertion that a call has not returned an awaitable. -/
  | awaitable

structure Tool (py : Objects V E) where
  name : String
  description : String
  inputSchema : ModelClass V E
  outputSchema : ModelClass V E
  /-- What a call of the function with a validated input comes to, within the tool's timeout. -/
  callFn : V → Except (ToolError E) V
  maxOutputSize : Option Nat

variable {py : Objects V E}

namespace Tool

def checkSize (t : Tool py) (raw : V) : Except (ToolError E) Unit :=
  match t.maxOutputSize with
  | some limit =>
    if py.jsonSize raw > limit then .error (.outputSize t.name (py.jsonSize raw) limit) else .ok ()
  | none => .ok ()

def validateOutput (t : Tool py) (raw : V) : Except (ToolError E) (OrderedDict V) := do
  t.checkSize raw
  let validated ← (t.outputSchema.validate raw).mapError .raised
  (t.outputSchema.dump validated).mapError .raised

def run (t : Tool py) (rawInputs : OrderedDict V) : Except (ToolError E) (OrderedDict V) := do
  let validated ← (t.inputSchema.validate (py.ofDict rawInputs)).mapError .raised
  let raw ← t.callFn validated
  t.validateOutput raw

end Tool

-- What a class reads

namespace ModelClass

/-- The class takes the raw value for what dumps to `out`. -/
def Reads (schema : ModelClass V E) (raw : V) (out : OrderedDict V) : Prop :=
  ∃ inst, schema.validate raw = .ok inst ∧ schema.dump inst = .ok out

/-- `out` is a dump of an instance the class made of a raw value. -/
def Dumps (schema : ModelClass V E) (out : OrderedDict V) : Prop := ∃ raw, schema.Reads raw out

theorem Reads.unique {schema : ModelClass V E} {raw : V} {out out' : OrderedDict V} (h : schema.Reads raw out)
    (h' : schema.Reads raw out') : out = out' := by
  obtain ⟨inst, hinst, hdump⟩ := h
  obtain ⟨inst', hinst', hdump'⟩ := h'
  cases Except.ok.inj (hinst.symm.trans hinst')
  exact Except.ok.inj (hdump.symm.trans hdump')

end ModelClass

namespace Tool

variable {t : Tool py} {rawInputs out : OrderedDict V}

theorem validateOutput_eq_ok {raw : V} : t.validateOutput raw = .ok out ↔
    t.checkSize raw = .ok () ∧ t.outputSchema.Reads raw out := by
  simp only [validateOutput, Attempt.bind_eq_ok, Attempt.mapError_eq_ok]
  constructor
  · rintro ⟨_, hsize, inst, hinst, hdump⟩
    exact ⟨hsize, inst, hinst, hdump⟩
  · rintro ⟨hsize, inst, hinst, hdump⟩
    exact ⟨_, hsize, inst, hinst, hdump⟩

theorem run_eq_ok : t.run rawInputs = .ok out ↔
    ∃ inst, t.inputSchema.validate (py.ofDict rawInputs) = .ok inst ∧
      ∃ raw, t.callFn inst = .ok raw ∧ t.checkSize raw = .ok () ∧ t.outputSchema.Reads raw out := by
  simp [run, Attempt.bind_eq_ok, validateOutput_eq_ok]

/-- What the tool returns is a dump of its output schema. -/
theorem dumps_of_run (h : t.run rawInputs = .ok out) : t.outputSchema.Dumps out := by
  obtain ⟨_, _, raw, _, _, hreads⟩ := run_eq_ok.1 h
  exact ⟨raw, hreads⟩

theorem run_congr {rawInputs' : OrderedDict V}
    (h : t.inputSchema.validate (py.ofDict rawInputs) = t.inputSchema.validate (py.ofDict rawInputs')) :
    t.run rawInputs = t.run rawInputs' := by
  simp only [run, h]

end Tool

end ToolRuns

end ChainWeaver
