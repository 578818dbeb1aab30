import ChainWeaver.AgentConfig
import ChainWeaver.ToolRuns

/-!
# The LangChain adapters

`integrations/langchain.py`: a tool handed to LangChain and taken back. The round trip is faithful for
every tool with a pair of schemas exactly if the schemas read back what they dump
(`roundTrip_faithful_iff`).
-/

namespace ChainWeaver

namespace ToolRuns

variable {V E : Type} {py : Objects V E}

-- The adapters

/-- A LangChain tool: the attributes it has. -/
structure LCTool (V E : Type) where
  typeName : String
  name? : Option String
  description? : Option String
  argsSchema? : Option (ModelClass V E)
  invoke? : Option (OrderedDict V → Except (ToolError E) V)
  run? : Option (OrderedDict V → Except (ToolError E) V)

variable (py) in
/-- `StructuredTool.from_function`: arguments are validated against `args_schema`, and what the
function returns is returned. -/
def structuredTool (func : OrderedDict V → Except (ToolError E) V) (name description : String)
    (argsSchema : ModelClass V E) : LCTool V E where
  typeName := "StructuredTool"
  name? := some name
  description? := some description
  argsSchema? := some argsSchema
  invoke? := some fun input => do
    let validated ← (argsSchema.validate (py.ofDict input)).mapError .raised
    func (argsSchema.values validated)
  run? := some func

/-- The classes the adapters make themselves: `_LCResult`, and an empty model of a given name. -/
structure Models (py : Objects V E) where
  lcResult : ModelClass V E
  createModel : String → ModelClass V E
  /-- `schema is _LCResult`. -/
  isLCResult : ModelClass V E → Bool
  isLCResult_iff : ∀ schema, isLCResult schema = true ↔ schema = lcResult
  /-- `_LCResult` has the one field `result: str`. -/
  result_reads : ∀ out, lcResult.Dumps out →
    ∃ text, py.isStr text = true ∧ out = entry "result" text ∧ lcResult.Reads (py.ofDict out) out

variable (models : Models py)

def coerceInputSchema (lcTool : LCTool V E) (toolName : String) : ModelClass V E :=
  lcTool.argsSchema?.getD (models.createModel s!"{toolName}_input")

/-- What becomes of a value the LangChain tool returned. -/
def mapOutput (toolName : String) (resolvedOutput : ModelClass V E) (raw : V) : Except (ToolError E) V :=
  if models.isLCResult resolvedOutput then
    .ok (py.ofDict (entry "result" (if py.isStr raw then raw else py.str raw)))
  else
    match py.asDict? raw, py.modelDump? raw, resolvedOutput.fields with
    | some _, _, _ => .ok raw
    | none, some dumped, _ => (dumped.map py.ofDict).mapError .raised
    | none, none, [field] => .ok (py.ofDict (entry field raw))
    | none, none, _ =>
      .error (.typeError (s!"LangChain tool '{toolName}' returned {py.typeName raw}, " ++
        s!"which cannot be mapped to output schema '{resolvedOutput.name}'."))

def dispatch (lcTool : LCTool V E) (toolName : String) (payload : OrderedDict V) : Except (ToolError E) V :=
  match lcTool.invoke?, lcTool.run? with
  | some invoke, _ => invoke payload
  | none, some run => run payload
  | none, none =>
    .error (.typeError s!"LangChain tool '{toolName}' has neither 'invoke' nor '_run'; cannot dispatch.")

def fromLangchainTool (lcTool : LCTool V E) (name description : Option String)
    (outputSchema : Option (ModelClass V E)) : Except (ToolError E) (Tool py) :=
  match lcTool.name?, lcTool.description? with
  | some lcName, some lcDescription =>
    let toolName := name.getD lcName
    let inputSchema := coerceInputSchema models lcTool toolName
    let resolvedOutput := outputSchema.getD models.lcResult
    .ok {
      name := toolName
      description := description.getD lcDescription
      inputSchema := inputSchema
      outputSchema := resolvedOutput
      callFn := fun inp => do
        let payload ← (inputSchema.dump inp).mapError .raised
        let raw ← dispatch lcTool toolName payload
        mapOutput models toolName resolvedOutput raw
      maxOutputSize := none }
  | _, _ =>
    .error (.typeError (s!"from_langchain_tool requires an object with 'name' and 'description' attributes; " ++
      s!"got {lcTool.typeName}."))

variable (py) in
/-- A single value is returned bare. -/
def unwrap (out : OrderedDict V) : V :=
  match out.entries with
  | [(_, value)] => value
  | _ => py.ofDict out

def toLangchainTool (t : Tool py) : LCTool V E :=
  structuredTool py (fun kwargs => (t.run kwargs).map (unwrap py)) t.name t.description t.inputSchema

-- The round trip

def roundTrip (t : Tool py) : Except (ToolError E) (Tool py) :=
  fromLangchainTool models (toLangchainTool t) none none (some t.outputSchema)

/-- On every valid input the tool that went to LangChain and back returns what the tool returns, and
raises when it raises. -/
def RoundTrips (t : Tool py) : Prop :=
  ∀ rawInputs, (∃ inst, t.inputSchema.validate (py.ofDict rawInputs) = .ok inst) →
    (roundTrip models t >>= fun tool => tool.run rawInputs).toOption = (t.run rawInputs).toOption

variable (py) in
/-- An instance is made again of its own dump, and of the values of its attributes. -/
def Rereads (schema : ModelClass V E) : Prop :=
  ∀ (rawInputs : OrderedDict V) (inst : V), schema.validate (py.ofDict rawInputs) = .ok inst →
    ∃ dumped inst', schema.dump inst = .ok dumped ∧ schema.validate (py.ofDict dumped) = .ok inst' ∧
      schema.validate (py.ofDict (schema.values inst')) = .ok inst

variable (py) in
/-- No dump with a single key is taken for anything else once the key is gone. -/
structure Unambiguous (schema : ModelClass V E) : Prop where
  /-- A dump with no key or several is read back. -/
  several : ∀ out, schema.Dumps out → out.entries.length ≠ 1 → schema.Reads (py.ofDict out) out
  /-- A mapping under the single key reads as the whole dump. -/
  mapping : ∀ key value d, schema.Dumps (entry key value) → py.asDict? value = some d →
    schema.Reads value (entry key value)
  /-- So does the dump of a model under the single key. -/
  model : ∀ key value attempt, schema.Dumps (entry key value) → py.asDict? value = none →
    py.modelDump? value = some attempt →
    ∃ d, attempt = .ok d ∧ schema.Reads (py.ofDict d) (entry key value)
  /-- Any other value reads as the dump under the name of the only field. -/
  scalar : ∀ key value, schema.Dumps (entry key value) → py.asDict? value = none →
    py.modelDump? value = none →
    ∃ field, schema.fields = [field] ∧ schema.Reads (py.ofDict (entry field value)) (entry key value)

/-- What the adapters make of `out` on its way out and back. -/
def ReadsBack (schema : ModelClass V E) (toolName : String) (out : OrderedDict V) : Prop :=
  ∃ raw, mapOutput models toolName schema (unwrap py out) = .ok raw ∧ schema.Reads raw out

section

variable {models} {schema : ModelClass V E} {toolName key : String} {value raw : V} {out d : OrderedDict V}

theorem eq_entry (h : out.entries.length = 1) : ∃ key value, out = entry key value := by
  obtain ⟨⟨key, value⟩, h⟩ := List.length_eq_one_iff.1 h
  exact ⟨key, value, OrderedDict.ext_entries h⟩

@[simp] theorem unwrap_entry : unwrap py (entry key value) = value := rfl

theorem unwrap_of_several (h : out.entries.length ≠ 1) : unwrap py out = py.ofDict out := by
  unfold unwrap
  split
  · next heq => simp [heq] at h
  · rfl

theorem mapOutput_mapping (hnot : models.isLCResult schema = false) (h : py.asDict? raw = some d) :
    mapOutput models toolName schema raw = .ok raw := by
  simp [mapOutput, hnot, h]

theorem mapOutput_model (hnot : models.isLCResult schema = false) (hdict : py.asDict? raw = none)
    {attempt : Except E (OrderedDict V)} (h : py.modelDump? raw = some attempt) {mapped : V} :
    mapOutput models toolName schema raw = .ok mapped ↔ ∃ d, attempt = .ok d ∧ py.ofDict d = mapped := by
  simp only [mapOutput, hnot, hdict, h]
  cases attempt <;> simp [Except.map, Except.mapError]

theorem mapOutput_scalar (hnot : models.isLCResult schema = false) (hdict : py.asDict? raw = none)
    (hmodel : py.modelDump? raw = none) {mapped : V} :
    mapOutput models toolName schema raw = .ok mapped ↔
      ∃ field, schema.fields = [field] ∧ py.ofDict (entry field raw) = mapped := by
  simp only [mapOutput, hnot, hdict, hmodel]
  cases schema.fields with
  | nil => simp
  | cons field rest => cases rest <;> simp

theorem readsBack_result (h : models.isLCResult schema = true) (hout : schema.Dumps out) :
    ReadsBack models schema toolName out := by
  obtain rfl := (models.isLCResult_iff schema).1 h
  obtain ⟨text, htext, rfl, hreads⟩ := models.result_reads out hout
  refine ⟨py.ofDict (entry "result" text), ?_, hreads⟩
  simp [mapOutput, h, htext]

/-- Every dump finds its way back exactly if no dump is ambiguous. -/
theorem readsBack_iff (hnot : models.isLCResult schema = false) :
    (∀ out, schema.Dumps out → ReadsBack models schema toolName out) ↔ Unambiguous py schema := by
  constructor
  · intro h
    constructor
    case several =>
      intro out hout hlength
      obtain ⟨raw, hraw, hreads⟩ := h out hout
      rw [unwrap_of_several hlength, mapOutput_mapping hnot (py.asDict?_ofDict out)] at hraw
      exact Except.ok.inj hraw ▸ hreads
    case mapping =>
      intro key value d hout hdict
      obtain ⟨raw, hraw, hreads⟩ := h _ hout
      rw [unwrap_entry, mapOutput_mapping hnot hdict] at hraw
      exact Except.ok.inj hraw ▸ hreads
    case model =>
      intro key value attempt hout hdict hmodel
      obtain ⟨raw, hraw, hreads⟩ := h _ hout
      rw [unwrap_entry, mapOutput_model hnot hdict hmodel] at hraw
      obtain ⟨d, hattempt, rfl⟩ := hraw
      exact ⟨d, hattempt, hreads⟩
    case scalar =>
      intro key value hout hdict hmodel
      obtain ⟨raw, hraw, hreads⟩ := h _ hout
      rw [unwrap_entry, mapOutput_scalar hnot hdict hmodel] at hraw
      obtain ⟨field, hfields, rfl⟩ := hraw
      exact ⟨field, hfields, hreads⟩
  · intro h out hout
    by_cases hlength : out.entries.length = 1
    · obtain ⟨key, value, rfl⟩ := eq_entry hlength
      rw [ReadsBack, unwrap_entry]
      cases hdict : py.asDict? value with
      | some d => exact ⟨value, mapOutput_mapping hnot hdict, h.mapping key value d hout hdict⟩
      | none =>
        cases hmodel : py.modelDump? value with
        | some attempt =>
          obtain ⟨d, hattempt, hreads⟩ := h.model key value attempt hout hdict hmodel
          exact ⟨_, (mapOutput_model hnot hdict hmodel).2 ⟨d, hattempt, rfl⟩, hreads⟩
        | none =>
          obtain ⟨field, hfields, hreads⟩ := h.scalar key value hout hdict hmodel
          exact ⟨_, (mapOutput_scalar hnot hdict hmodel).2 ⟨field, hfields, rfl⟩, hreads⟩
    · rw [ReadsBack, unwrap_of_several hlength]
      exact ⟨_, mapOutput_mapping hnot (py.asDict?_ofDict out), h.several out hout hlength⟩

end

-- The tool that comes back

/-- The tool that comes back. -/
def returned (t : Tool py) : Tool py where
  name := t.name
  description := t.description
  inputSchema := t.inputSchema
  outputSchema := t.outputSchema
  callFn := fun inp => do
    let payload ← (t.inputSchema.dump inp).mapError .raised
    let raw ← dispatch (toLangchainTool t) t.name payload
    mapOutput models t.name t.outputSchema raw
  maxOutputSize := none

variable {models} {t : Tool py} {rawInputs out : OrderedDict V}

theorem roundTrip_returned : roundTrip models t = .ok (returned models t) := rfl

/-- The function of the tool sees what its input schema makes of a dumped instance, and its output is
mapped and read again. -/
theorem returned_run_eq_ok : (returned models t).run rawInputs = .ok out ↔
    ∃ inst, t.inputSchema.validate (py.ofDict rawInputs) = .ok inst ∧
      ∃ payload, t.inputSchema.dump inst = .ok payload ∧
        ∃ inst', t.inputSchema.validate (py.ofDict payload) = .ok inst' ∧
          ∃ out', t.run (t.inputSchema.values inst') = .ok out' ∧
            ∃ raw, mapOutput models t.name t.outputSchema (unwrap py out') = .ok raw ∧
              t.outputSchema.Reads raw out := by
  rw [Tool.run_eq_ok]
  refine exists_congr fun inst => and_congr_right fun _ => ?_
  simp only [returned, dispatch, toLangchainTool, structuredTool, Attempt.bind_eq_ok, Attempt.mapError_eq_ok]
  constructor
  · rintro ⟨raw, ⟨payload, hpayload, bare, ⟨inst', hinst', hbare⟩, hraw⟩, -, hreads⟩
    cases hrun : t.run (t.inputSchema.values inst') with
    | error e => simp [hrun, Except.map] at hbare
    | ok out' =>
      rw [hrun] at hbare
      cases Except.ok.inj hbare
      exact ⟨payload, hpayload, inst', hinst', out', hrun, raw, hraw, hreads⟩
  · rintro ⟨payload, hpayload, inst', hinst', out', hrun, raw, hraw, hreads⟩
    refine ⟨raw, ⟨payload, hpayload, _, ⟨inst', hinst', ?_⟩, hraw⟩, rfl, hreads⟩
    rw [hrun]
    rfl

theorem roundTrips_iff : RoundTrips models t ↔
    ∀ rawInputs, (∃ inst, t.inputSchema.validate (py.ofDict rawInputs) = .ok inst) →
      ∀ out, (returned models t).run rawInputs = .ok out ↔ t.run rawInputs = .ok out := by
  refine forall₂_congr fun rawInputs _ => ?_
  rw [roundTrip_returned, ← Attempt.toOption_eq_iff]
  rfl

/-- If the schemas read back what they dump, the tool comes back as it went. -/
theorem returned_run (hinput : Rereads py t.inputSchema)
    (houtput : ∀ out, t.outputSchema.Dumps out → ReadsBack models t.outputSchema t.name out) :
    (returned models t).run rawInputs = .ok out ↔ t.run rawInputs = .ok out := by
  rw [returned_run_eq_ok]
  constructor
  · rintro ⟨inst, hinst, payload, hpayload, inst', hinst', out', hrun, raw, hraw, hreads⟩
    obtain ⟨dumped, inst'', hdumped, hdump, hvalues⟩ := hinput rawInputs inst hinst
    cases Except.ok.inj (hpayload.symm.trans hdumped)
    cases Except.ok.inj (hinst'.symm.trans hdump)
    obtain ⟨raw', hraw', hreads'⟩ := houtput out' (Tool.dumps_of_run hrun)
    cases Except.ok.inj (hraw.symm.trans hraw')
    rw [Tool.run_congr (hinst.trans hvalues.symm), hreads.unique hreads']
    exact hrun
  · intro hrun
    obtain ⟨inst, hinst, _⟩ := Tool.run_eq_ok.1 hrun
    obtain ⟨dumped, inst', hdumped, hdump, hvalues⟩ := hinput rawInputs inst hinst
    obtain ⟨raw, hraw, hreads⟩ := houtput out (Tool.dumps_of_run hrun)
    refine ⟨inst, hinst, dumped, hdumped, inst', hdump, out, ?_, raw, hraw, hreads⟩
    rw [Tool.run_congr (hvalues.trans hinst.symm)]
    exact hrun

-- Every tool with a pair of schemas

variable (py) in
/-- A class that makes nothing of any mapping. -/
def Inert (schema : ModelClass V E) : Prop := ∀ rawInputs inst, schema.validate (py.ofDict rawInputs) ≠ .ok inst

variable (py) in
/-- A tool with the given schemas and function, and no limits. -/
def plainTool (input output : ModelClass V E) (callFn : V → Except (ToolError E) V) : Tool py :=
  ⟨"tool", "", input, output, callFn, none⟩

variable {input output : ModelClass V E}

theorem plainTool_run {callFn : V → Except (ToolError E) V} {inst raw : V}
    (hinst : input.validate (py.ofDict rawInputs) = .ok inst) (hraw : callFn inst = .ok raw)
    (hreads : output.Reads raw out) : (plainTool py input output callFn).run rawInputs = .ok out :=
  Tool.run_eq_ok.2 ⟨inst, hinst, raw, hraw, rfl, hreads⟩

/-- A function that answers to one instance only tells whether that instance arrives. -/
theorem rereads_of_roundTrips (h : ∀ callFn, RoundTrips models (plainTool py input output callFn))
    (hdumps : output.Dumps out) : Rereads py input := by
  intro rawInputs inst hinst
  obtain ⟨raw, hreads⟩ := hdumps
  classical
  let callFn : V → Except (ToolError E) V := fun inp => if inp = inst then .ok raw else .error .awaitable
  have hcall : callFn inst = .ok raw := if_pos rfl
  have hrun := (roundTrips_iff.1 (h callFn) rawInputs ⟨inst, hinst⟩ out).2 (plainTool_run hinst hcall hreads)
  obtain ⟨inst₁, hinst₁, payload, hpayload, inst', hinst', out', hrun', _⟩ := returned_run_eq_ok.1 hrun
  cases Except.ok.inj (hinst.symm.trans hinst₁)
  obtain ⟨inst₂, hinst₂, raw', hraw', _⟩ := Tool.run_eq_ok.1 hrun'
  have heq : inst₂ = inst := by
    by_contra hne
    simp [plainTool, callFn, hne] at hraw'
  exact ⟨payload, inst', hpayload, hinst', heq ▸ hinst₂⟩

/-- A function that always returns one value tells whether its dump is read back. -/
theorem readsBack_of_roundTrips (h : ∀ callFn, RoundTrips models (plainTool py input output callFn)) {inst : V}
    (hinst : input.validate (py.ofDict rawInputs) = .ok inst) (hdumps : output.Dumps out) :
    ReadsBack models output "tool" out := by
  obtain ⟨dumped, inst', hdumped, hinst', hvalues⟩ := rereads_of_roundTrips h hdumps rawInputs inst hinst
  obtain ⟨raw, hreads⟩ := hdumps
  have hrun : (plainTool py input output fun _ => .ok raw).run rawInputs = .ok out := plainTool_run hinst rfl hreads
  have hback := (roundTrips_iff.1 (h _) rawInputs ⟨inst, hinst⟩ out).2 hrun
  obtain ⟨inst₁, hinst₁, payload, hpayload, inst₂, hinst₂, out', hrun', raw', hraw', hreads'⟩ :=
    returned_run_eq_ok.1 hback
  cases Except.ok.inj (hinst.symm.trans hinst₁)
  cases Except.ok.inj (hdumped.symm.trans hpayload)
  cases Except.ok.inj (hinst'.symm.trans hinst₂)
  cases Except.ok.inj (hrun'.symm.trans (plainTool_run hvalues rfl hreads))
  exact ⟨raw', hraw', hreads'⟩

/-- Every tool with a pair of schemas comes back as it went exactly if the input schema reads back what it
dumps and no output is taken for something else once it is unwrapped, or one of the two takes nothing. -/
theorem roundTrip_faithful_iff :
    (∀ t : Tool py, t.inputSchema = input → t.outputSchema = output → RoundTrips models t) ↔
      Inert py input ∨ (∀ out, ¬output.Dumps out) ∨
        Rereads py input ∧ (models.isLCResult output = true ∨ Unambiguous py output) := by
  constructor
  · intro h
    have h : ∀ callFn, RoundTrips models (plainTool py input output callFn) := fun callFn => h _ rfl rfl
    by_cases hinert : Inert py input
    · exact .inl hinert
    by_cases hnone : ∀ out, ¬output.Dumps out
    · exact .inr (.inl hnone)
    obtain ⟨out, hdumps⟩ := not_forall_not.1 hnone
    obtain ⟨rawInputs, hrejects⟩ := not_forall.1 hinert
    obtain ⟨inst, hinst⟩ := not_forall_not.1 hrejects
    refine .inr (.inr ⟨rereads_of_roundTrips h hdumps, ?_⟩)
    cases hresult : models.isLCResult output with
    | true => exact .inl rfl
    | false => exact .inr ((readsBack_iff hresult).1 fun out hout => readsBack_of_roundTrips h hinst hout)
  · rintro h t rfl rfl
    rw [roundTrips_iff]
    rintro rawInputs ⟨inst, hinst⟩ out
    rcases h with hinert | hnone | ⟨hinput, houtput⟩
    · exact absurd hinst (hinert rawInputs inst)
    · refine iff_of_false (fun hrun => ?_) fun hrun => hnone out (Tool.dumps_of_run hrun)
      have hdumps : (returned models t).outputSchema.Dumps out := Tool.dumps_of_run hrun
      exact hnone out hdumps
    · refine returned_run hinput fun out hout => ?_
      cases hresult : models.isLCResult t.outputSchema with
      | true => exact readsBack_result hresult hout
      | false =>
        have hunambiguous := houtput.resolve_left (by simp [hresult])
        exact (readsBack_iff hresult).2 hunambiguous out hout

-- A mapping under the only field

def isText : Json → Bool
  | .str _ => true
  | _ => false

/-- JSON values; nothing here is rendered or measured. -/
def jsonObjects : Objects Json String where
  ofDict d := .object d.entries
  asDict? := Json.asObject?
  asDict?_ofDict := Json.asObject?_object
  isStr := isText
  str := id
  typeName := fun _ => ""
  modelDump? := fun _ => none
  isAwaitable := fun _ => false
  isAwaitable_ofDict := fun _ => rfl
  jsonSize := fun _ => 0

/-- A model with no field. -/
def noFields : ModelClass Json String where
  name := "Empty"
  fields := []
  validate := fun raw => if raw.asObject?.isSome then .ok (.object []) else .error "not a mapping"
  dump := fun _ => .ok .empty
  values := fun _ => .empty

/-- A model with one required field, which takes the values `accepts` makes something of. -/
def oneField (name field : String) (accepts : Json → Option Json) : ModelClass Json String where
  name := name
  fields := [field]
  validate := fun raw =>
    match (raw.asObject?.bind (·.get? field)).bind accepts with
    | some value => .ok value
    | none => .error field
  dump := fun inst => .ok (entry field inst)
  values := entry field

theorem oneField_reads {name field : String} {accepts : Json → Option Json} {raw : Json} {out : OrderedDict Json} :
    (oneField name field accepts).Reads raw out ↔
      ∃ value, (raw.asObject?.bind (·.get? field)).bind accepts = some value ∧ out = entry field value := by
  simp only [ModelClass.Reads, oneField]
  cases (raw.asObject?.bind (·.get? field)).bind accepts with
  | none => simp
  | some value => simp [eq_comm]

def asText? (value : Json) : Option Json := if isText value then some value else none

/-- `class _LCResult(BaseModel): result: str`. -/
def resultModel : ModelClass Json String := oneField "_LCResult" "result" asText?

theorem resultModel_reads (out : OrderedDict Json) (h : resultModel.Dumps out) :
    ∃ text, isText text = true ∧ out = entry "result" text ∧
      resultModel.Reads (.object out.entries) out := by
  obtain ⟨raw, hreads⟩ := h
  obtain ⟨text, htext, rfl⟩ := oneField_reads.1 hreads
  obtain ⟨value, -, hvalue⟩ := Option.bind_eq_some_iff.1 htext
  have hstr : isText value = true ∧ value = text := by simpa [asText?] using hvalue
  obtain ⟨hstr, rfl⟩ := hstr
  refine ⟨value, hstr, rfl, oneField_reads.2 ⟨value, ?_, rfl⟩⟩
  have hget : (Json.object (entry "result" value).entries).asObject?.bind (·.get? "result") = some value := rfl
  rw [hget]
  exact if_pos hstr

open scoped Classical in
noncomputable def jsonModels : Models jsonObjects where
  lcResult := resultModel
  createModel := fun _ => noFields
  isLCResult := fun schema => decide (schema = resultModel)
  isLCResult_iff := fun _ => decide_eq_true_iff
  result_reads := resultModel_reads

/-- `class Report(BaseModel): meta: dict`. -/
def reportModel : ModelClass Json String :=
  oneField "Report" "meta" fun value => value.asObject?.map fun inner => .object inner.entries

def reportTool : Tool jsonObjects where
  name := "report"
  description := "Reports."
  inputSchema := noFields
  outputSchema := reportModel
  callFn := fun _ => .ok (.object [("meta", .object [("runs", .null)])])
  maxOutputSize := none

/-- The mapping comes back bare and is taken for the whole output. -/
theorem report_lost : ¬RoundTrips jsonModels reportTool := by
  intro h
  have hrun : reportTool.run .empty = .ok (entry "meta" (.object [("runs", .null)])) := rfl
  have hback := (roundTrips_iff.1 h .empty ⟨_, rfl⟩ _).2 hrun
  obtain ⟨inst, -, payload, -, inst', -, out', hrun', raw, hraw, hreads⟩ := returned_run_eq_ok.1 hback
  cases Except.ok.inj (hrun'.symm.trans (show reportTool.run _ = _ from rfl))
  have hnot : jsonModels.isLCResult reportModel = false := by
    rw [Bool.eq_false_iff, ne_eq, jsonModels.isLCResult_iff]
    intro heq
    have hname := congrArg ModelClass.name heq
    simp [reportModel, jsonModels, resultModel, oneField] at hname
  cases Except.ok.inj (hraw.symm.trans (mapOutput_mapping hnot rfl))
  obtain ⟨value, hvalue, -⟩ := oneField_reads.1 hreads
  cases hvalue

end ToolRuns

end ChainWeaver
