import ChainWeaver.Plan

/-!
# The compiler

`compile_flow` checks a flow against the schemas of its tools before it runs. It
carries along which keys the context of each step will have, with their types.
-/

namespace ChainWeaver

structure CompilationError where
  stepIndex : Int
  toolName : String
  fieldName : Option String
  issueType : String
  detail : String

structure CompilationWarning where
  stepIndex : Int
  toolName : String
  fieldName : Option String
  issueType : String
  detail : String

structure CompilationResult where
  success : Bool
  errors : List CompilationError
  warnings : List CompilationWarning

/-- The keys of a context, with their types where these are known. -/
abbrev ContextFields := OrderedDict (Option PyClass)

/-- What `_validate_step` returns. -/
structure StepCheck where
  errors : List CompilationError := []
  warnings : List CompilationWarning := []
  contribution : ContextFields := .empty

/-- A step as it was checked, with the context it was checked against. -/
structure CheckedStep where
  step : FlowStep
  contextFields : ContextFields
  check : StepCheck

def ContextCollisionPolicy.value : ContextCollisionPolicy → String
  | .overwrite => "overwrite" | .warn => "warn" | .error => "error"

namespace Compiler

-- Types

/-- From the narrowest to the widest. -/
def numericTypes : List PyClass := ["builtins.int", "builtins.float", "builtins.complex"]

/-- `_types_compatible`. -/
def typesCompatible : Option PyClass → Option PyClass → Bool
  | some source, some target =>
    source = target || (numericTypes.contains source && numericTypes.contains target &&
      numericTypes.idxOf source ≤ numericTypes.idxOf target)
  | _, _ => true

example : typesCompatible (some "builtins.int") (some "builtins.float") = true := by decide

def typeText (type : Option PyClass) : String := (type.map PyClass.name).getD "unknown"

def boolText (b : Bool) : String := if b then "True" else "False"

/-- The fields of a schema as a part of the context. -/
def fieldTypes (fields : OrderedDict FieldInfo) : ContextFields :=
  fields.mapValues fun info => info.annotation.fieldType

-- The inputs of a step

variable (hashing : Hashing) (reflection : Reflection)

/-- The text of a Python set of strings. -/
def setText (names : List String) : String :=
  if names.isEmpty then "set()"
  else "\x7b" ++ ", ".intercalate ((hashing.setOrder names).map Value.quote) ++ "\x7d"

/-- The required fields that neither the input mapping nor the context supplies. -/
def missingInputs (step : FlowStep) (stepIndex : Nat) (toolName : String) (tool : Tool) (issueType whose : String)
    (contextFields : ContextFields) : List CompilationError :=
  (reflection.modelFields tool.inputSchema).entries.filterMap fun (name, info) =>
    if !info.isRequired || step.feeds contextFields name then none
    else some
      { stepIndex, toolName := toolName, fieldName := some name, issueType,
        detail := s!"Step {stepIndex} {whose}: required input field '{name}' is not satisfied by " ++
          "input_mapping or the accumulated context." }

/-- The errors of one entry of the input mapping, for the fallback tool. -/
def fallbackMappingErrors (stepIndex : Nat) (fallbackTool : Tool) (contextFields : ContextFields)
    (targetKey : String) (source : Value) : List CompilationError :=
  let fields := reflection.modelFields fallbackTool.inputSchema
  let who := s!"Step {stepIndex} fallback tool ('{fallbackTool.name}')"
  match fields.get? targetKey, source with
  | none, _ =>
    [{ stepIndex, toolName := fallbackTool.name, fieldName := some targetKey,
       issueType := "fallback_unknown_target_key",
       detail := s!"{who}: input key '{targetKey}' is not a declared input field {setText hashing fields.keys}." }]
  | some info, .str key =>
    match contextFields.get? key with
    | none => []
    | some sourceType =>
      let targetType := info.annotation.fieldType
      if typesCompatible sourceType targetType then []
      else
        [{ stepIndex, toolName := fallbackTool.name, fieldName := some targetKey,
           issueType := "fallback_type_mismatch",
           detail := s!"{who}: field '{targetKey}' expects {typeText targetType}, got " ++
             s!"{typeText sourceType} from '{key}'." }]
  | some _, _ => []

/-- `_validate_fallback_inputs`. -/
def validateFallbackInputs (step : FlowStep) (stepIndex : Nat) (fallbackTool : Tool)
    (contextFields : ContextFields) : List CompilationError :=
  (step.inputMapping.entries.flatMap fun (targetKey, source) =>
      fallbackMappingErrors hashing reflection stepIndex fallbackTool contextFields targetKey source) ++
    missingInputs reflection step stepIndex fallbackTool.name fallbackTool "fallback_missing_required_input"
      s!"fallback tool ('{fallbackTool.name}')" contextFields

/-- The error of a source that is a pointer: only its first token is looked up. -/
def pointerErrors (stepIndex : Nat) (toolName : String) (contextFields : ContextFields) (source : String) :
    List CompilationError :=
  let rootToken := Pointer.rootToken source
  if contextFields.contains rootToken then []
  else
    [{ stepIndex, toolName := toolName, fieldName := some source, issueType := "missing_mapping_key",
       detail := s!"Step {stepIndex} ('{toolName}'): pointer '{source}' root key '{rootToken}' not in " ++
         s!"upstream outputs {setText hashing contextFields.keys}." }]

/-- The error of a source that is a key. -/
def keyErrors (stepIndex : Nat) (toolName : String) (tool : Tool) (contextFields : ContextFields) (targetKey source : String) :
    List CompilationError :=
  match contextFields.get? source, (reflection.modelFields tool.inputSchema).get? targetKey with
  | none, _ =>
    [{ stepIndex, toolName := toolName, fieldName := some source, issueType := "missing_mapping_key",
       detail := s!"Step {stepIndex} ('{toolName}'): input key '{source}' not in upstream outputs " ++
         s!"{setText hashing contextFields.keys}." }]
  | some _, none => []
  | some sourceType, some info =>
    let targetType := info.annotation.fieldType
    if typesCompatible sourceType targetType then []
    else
      [{ stepIndex, toolName := toolName, fieldName := some targetKey, issueType := "type_mismatch",
         detail := s!"Step {stepIndex} ('{toolName}'): field '{targetKey}' expects {typeText targetType}, " ++
           s!"got {typeText sourceType} from '{source}'." }]

/-- The errors of one entry of the input mapping. -/
def mappingErrors (stepIndex : Nat) (toolName : String) (tool : Tool) (contextFields : ContextFields) (targetKey : String)
    (source : Value) : List CompilationError :=
  let fields := reflection.modelFields tool.inputSchema
  let unknown : List CompilationError :=
    if fields.contains targetKey then []
    else
      [{ stepIndex, toolName := toolName, fieldName := some targetKey, issueType := "unknown_target_key",
         detail := s!"Step {stepIndex} ('{toolName}'): mapping target '{targetKey}' is not a declared " ++
           s!"input field {setText hashing fields.keys}." }]
  unknown ++
    match source with
    | .str source =>
      if Pointer.isPointer source then pointerErrors hashing stepIndex toolName contextFields source
      else keyErrors hashing reflection stepIndex toolName tool contextFields targetKey source
    | _ => []

/-- A plain source that hides another key of the context. -/
def shadowWarnings (stepIndex : Nat) (toolName : String) (contextFields : ContextFields) (targetKey : String) :
    Value → List CompilationWarning
  | .str source =>
    if !Pointer.isPointer source && contextFields.contains targetKey && targetKey ≠ source then
      [{ stepIndex, toolName := toolName, fieldName := some targetKey, issueType := "shadowed_key",
         detail := s!"Step {stepIndex} ('{toolName}'): mapping key '{targetKey}' shadows an existing " ++
           "context value." }]
    else []
  | _ => []

-- The outputs of a step

/-- A key whose type depends on which of the two tools ran. -/
def outputTypeWarnings (stepIndex : Nat) (fallbackTool : Tool) (key : String)
    (primary fallback : Option PyClass) : List CompilationWarning :=
  if typesCompatible fallback primary then []
  else
    [{ stepIndex, toolName := fallbackTool.name, fieldName := some key,
       issueType := "fallback_output_type_mismatch",
       detail := s!"Step {stepIndex} fallback tool ('{fallbackTool.name}'): output '{key}' is " ++
         s!"{typeText fallback}, but the primary produces {typeText primary}; downstream consumers may " ++
         "see an inconsistent shape." }]

/-- `_validate_fallback_outputs`. Outputs that are not mapped may differ in shape. -/
def validateFallbackOutputs (stepIndex : Nat) (primaryTool fallbackTool : Tool)
    (outputMapping : Option (OrderedDict String)) : List CompilationError × List CompilationWarning :=
  let fallbackOutputs := reflection.modelFields fallbackTool.outputSchema
  let primaryOutputs := reflection.modelFields primaryTool.outputSchema
  let who := s!"Step {stepIndex} fallback tool ('{fallbackTool.name}')"
  match outputMapping with
  | some mapping =>
    (mapping.entries.filterMap fun (_, outputKey) =>
        if fallbackOutputs.contains outputKey then none
        else some
          { stepIndex, toolName := fallbackTool.name, fieldName := some outputKey,
            issueType := "fallback_output_missing_mapped_key",
            detail := s!"{who}: output_mapping needs output key '{outputKey}' but the fallback tool only " ++
              s!"produces {setText hashing fallbackOutputs.keys}. A fallback run would raise " ++
              "OutputMappingError." },
      mapping.entries.flatMap fun (_, outputKey) =>
        match fallbackOutputs.get? outputKey, primaryOutputs.get? outputKey with
        | some fallback, some primary =>
          outputTypeWarnings stepIndex fallbackTool outputKey primary.annotation.fieldType fallback.annotation.fieldType
        | _, _ => [])
  | none =>
    ([], primaryOutputs.entries.flatMap fun (name, primary) =>
      match fallbackOutputs.get? name with
      | none =>
        [{ stepIndex, toolName := fallbackTool.name, fieldName := some name,
           issueType := "fallback_output_shape_divergence",
           detail := s!"{who}: does not produce output '{name}' that the primary tool " ++
             s!"('{primaryTool.name}') produces; the merged context shape depends on which tool ran." }]
      | some fallback =>
        outputTypeWarnings stepIndex fallbackTool name primary.annotation.fieldType fallback.annotation.fieldType)

/-- The output keys of the mapping that the tool does not declare. -/
def unknownOutputs (step : FlowStep) (stepIndex : Nat) (toolName : String) (tool : Tool) : List CompilationError :=
  let fields := reflection.modelFields tool.outputSchema
  match step.outputMapping with
  | none => []
  | some mapping =>
    mapping.entries.filterMap fun (_, outputKey) =>
      if fields.contains outputKey then none
      else some
        { stepIndex, toolName := toolName, fieldName := some outputKey, issueType := "unknown_output_key",
          detail := s!"Step {stepIndex} ('{toolName}'): output_mapping references output key " ++
            s!"'{outputKey}' not declared by the tool {setText hashing fields.keys}." }

/-- The keys a step adds to the context. -/
def contributionOf (step : FlowStep) (tool : Tool) : ContextFields :=
  let fields := reflection.modelFields tool.outputSchema
  match step.outputMapping with
  | none => fieldTypes fields
  | some mapping =>
    .ofList (mapping.entries.filterMap fun (contextKey, outputKey) =>
      (fields.get? outputKey).map fun info => (contextKey, info.annotation.fieldType))

def collisionWarnings (stepIndex : Nat) (toolName : String) (policy : ContextCollisionPolicy)
    (contextFields contribution : ContextFields) : List CompilationWarning :=
  if policy = .overwrite then []
  else (contribution.keys.filter contextFields.contains).map fun name =>
    let consequence := if policy = .warn then "logged at runtime" else "a runtime error"
    { stepIndex, toolName := toolName, fieldName := some name, issueType := "context_collision",
      detail := s!"Step {stepIndex} ('{toolName}'): output key '{name}' overwrites an existing context " ++
        s!"key. With on_context_collision='{policy.value}' this is {consequence}." }

-- One step

def unsafeRetry (contract : ToolSafetyContract) : Bool :=
  !contract.safeToRetry || (!contract.idempotent && !contract.readOnly)

def retryWarnings (step : FlowStep) (stepIndex : Nat) (toolName : String) (tool : Tool) : List CompilationWarning :=
  if step.retry.any (0 < ·.maxRetries) && unsafeRetry tool.safety then
    [{ stepIndex, toolName := toolName, fieldName := none, issueType := "unsafe_retry",
       detail := s!"Step {stepIndex} ('{toolName}') has a RetryPolicy but the tool's safety contract " ++
         s!"declares safe_to_retry={boolText tool.safety.safeToRetry}, " ++
         s!"idempotent={boolText tool.safety.idempotent}, read_only={boolText tool.safety.readOnly} — " ++
         "retrying a failed call may duplicate a side effect." }]
  else []

variable (tools : OrderedDict Tool)

/-- The tool behind `fallback:`, or the error that there is none. -/
def findFallback (step : FlowStep) (stepIndex : Nat) : Except CompilationError (Option Tool) :=
  match step.onError with
  | .fallback name =>
    match tools.get? name with
    | some tool => .ok (some tool)
    | none => .error { stepIndex, toolName := name, fieldName := none, issueType := "missing_fallback_tool",
                       detail := s!"Fallback tool '{name}' is not registered." }
  | _ => .ok none

/-- What the fallback of a step adds to its check. -/
def fallbackCheck (step : FlowStep) (stepIndex : Nat) (tool : Tool) (contextFields : ContextFields) :
    Option Tool → List CompilationError × List CompilationWarning
  | none => ([], [])
  | some fallbackTool =>
    let outputs := validateFallbackOutputs hashing reflection stepIndex tool fallbackTool step.outputMapping
    (validateFallbackInputs hashing reflection step stepIndex fallbackTool contextFields ++ outputs.1, outputs.2)

/-- `_validate_step` for a step whose tool is registered. -/
def validateToolStep (step : FlowStep) (stepIndex : Nat) (toolName : String) (tool : Tool)
    (policy : ContextCollisionPolicy) (contextFields : ContextFields) : StepCheck :=
  let found := findFallback tools step stepIndex
  let missingFallback := match found with
    | .error e => [e]
    | .ok _ => []
  let fallback := fallbackCheck hashing reflection step stepIndex tool contextFields (found.toOption.getD none)
  let contribution := contributionOf reflection step tool
  { errors := missingFallback ++
      (step.inputMapping.entries.flatMap fun (targetKey, source) =>
        mappingErrors hashing reflection stepIndex toolName tool contextFields targetKey source) ++
      missingInputs reflection step stepIndex toolName tool "missing_required_input" s!"('{toolName}')" contextFields ++
      fallback.1 ++ unknownOutputs hashing reflection step stepIndex toolName tool
    warnings := retryWarnings step stepIndex toolName tool ++
      (step.inputMapping.entries.flatMap fun (targetKey, source) =>
        shadowWarnings stepIndex toolName contextFields targetKey source) ++
      fallback.2 ++ collisionWarnings stepIndex toolName policy contextFields contribution
    contribution }

/-- `_validate_step`. Sub-flow steps and capability steps are left alone. -/
def validateStep (step : FlowStep) (stepType : StepType) (stepIndex : Nat) (policy : ContextCollisionPolicy)
    (contextFields : ContextFields) : StepCheck :=
  match step.target, stepType with
  | .flow _, _ | .tool _, .capability => {}
  | .tool name, .tool =>
    match tools.get? name with
    | none =>
      { errors := [{ stepIndex, toolName := name, fieldName := none, issueType := "missing_tool",
                     detail := s!"Tool '{name}' is not registered." }] }
    | some tool => validateToolStep hashing reflection tools step stepIndex name tool policy contextFields

-- Flows

/-- The steps of a linear flow in turn, and the context behind them. -/
def compileSteps (policy : ContextCollisionPolicy) :
    List FlowStep → Nat → ContextFields → List CheckedStep × ContextFields
  | [], _, contextFields => ([], contextFields)
  | step :: rest, stepIndex, contextFields =>
    let check := validateStep hashing reflection tools step .tool stepIndex policy contextFields
    let (checked, final) := compileSteps policy rest (stepIndex + 1) (contextFields.update check.contribution)
    ({ step, contextFields, check } :: checked, final)

/-- The order in which the steps of a DAG are checked: a topological one, or on a cycle
that of the declarations. Of steps with one id the last is taken. -/
def compileOrder (steps : List DAGFlowStep) : List String :=
  let declared := (OrderedDict.ofList (steps.map fun step => (step.stepId, step))).entries.map Prod.snd
  if Topology.hasCycle hashing declared then steps.map (·.stepId) else Topology.topoOrder hashing declared

/-- The context of a step: that of the flow, and what its dependencies hand down. -/
def stepContext (baseFields : ContextFields) (available : OrderedDict ContextFields) (dependsOn : List String) :
    ContextFields :=
  dependsOn.foldl (fun fields dep => (available.get? dep).elim fields fields.update) baseFields

/-- `_compile_dag_steps`, from the steps in `order` on. -/
def compileDagSteps (flow : DAGFlow) (baseFields : ContextFields) :
    List String → OrderedDict ContextFields → ContextFields → List CheckedStep × ContextFields
  | [], _, final => ([], final)
  | stepId :: rest, available, final =>
    match (OrderedDict.ofList (flow.steps.zipIdx.map fun (step, index) => (step.stepId, step, index))).get? stepId with
    | none => compileDagSteps flow baseFields rest available final
    | some (step, index) =>
      let contextFields := stepContext baseFields available step.dependsOn
      let check := validateStep hashing reflection tools step.toFlowStep step.stepType index
        flow.onContextCollision contextFields
      let (checked, final) := compileDagSteps flow baseFields rest
        (available.insert stepId (contextFields.update check.contribution)) (final.update check.contribution)
      ({ step := step.toFlowStep, contextFields, check } :: checked, final)

/-- The errors of one field of the output schema. -/
def outputErrors (flow : AnyFlow) (contextFields : ContextFields) (name : String) (info : FieldInfo) :
    List CompilationError :=
  let stepIndex := flowOutputStepIndex flow.steps
  match contextFields.get? name with
  | none =>
    [{ stepIndex, toolName := flow.header.name, fieldName := some name, issueType := "output_schema_gap",
       detail := s!"Flow output schema requires field '{name}' but it is not produced by any step." }]
  | some actual =>
    let expected := info.annotation.fieldType
    if typesCompatible actual expected then []
    else
      [{ stepIndex, toolName := flow.header.name, fieldName := some name, issueType := "output_type_mismatch",
         detail := s!"Flow output schema field '{name}' expects {typeText expected}, but context provides " ++
           s!"{typeText actual}." }]

end Compiler

namespace Executor

variable (executor : Executor) (reflection : Reflection)

/-- The fields of a schema of the flow, of which there may be none. -/
def schemaFields : Option String → Except Exc (OrderedDict FieldInfo)
  | none => .ok .empty
  | some ref => do pure (reflection.modelFields (← executor.platform.resolveClassRef ref))

/-- The fields of the flow's input schema, required or not. -/
def baseFields (flow : AnyFlow) : Except Exc ContextFields := do
  pure (Compiler.fieldTypes (← executor.schemaFields reflection flow.header.inputSchemaRef))

/-- Every step with the context it is checked against, and the context behind all. -/
def checkedSteps (flow : AnyFlow) (baseFields : ContextFields) : List CheckedStep × ContextFields :=
  let hashing := executor.platform.hashing
  match flow with
  | .linear flow => Compiler.compileSteps hashing reflection executor.tools flow.onContextCollision flow.steps 0 baseFields
  | .dag flow =>
    Compiler.compileDagSteps hashing reflection executor.tools flow baseFields
      (Compiler.compileOrder hashing flow.steps) .empty baseFields

/-- `compile_flow` with the tools of the executor. -/
def compileFlow (flow : AnyFlow) : Except Exc CompilationResult := do
  let baseFields ← executor.baseFields reflection flow
  let (checked, contextFields) := executor.checkedSteps reflection flow baseFields
  let outputFields ← executor.schemaFields reflection flow.header.outputSchemaRef
  let errors := checked.flatMap (·.check.errors) ++
    outputFields.entries.flatMap fun (name, info) => Compiler.outputErrors flow contextFields name info
  pure { success := errors.isEmpty, errors, warnings := checked.flatMap (·.check.warnings) }

end Executor

end ChainWeaver
