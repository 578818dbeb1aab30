import ChainWeaver.Executor

/-!
# One step

`_execute_step` and `_execute_step_async`. The two lanes run the same stages in
the same order, so they are one definition here, with the lane as an argument
where they part.
-/

namespace ChainWeaver

inductive Lane
  | sync | async
  deriving DecidableEq

/-- The entry points a step can call back into. -/
structure Nested where
  executeFlow : String → Dict → Executor.Cancellation → Exec ExecutionResult
  executeFlowAsync : String → Dict → Executor.Cancellation → Exec ExecutionResult

def Nested.entry (nested : Nested) : Lane → String → Dict → Executor.Cancellation → Exec ExecutionResult
  | .sync => nested.executeFlow
  | .async => nested.executeFlowAsync

namespace StepRecord

def failWith (record : StepRecord) (e : Exc) : StepRecord :=
  { record with outputs := none, errorType := some e.typeName, errorMessage := some e.message,
                success := false }

def succeedWith (record : StepRecord) (outputs : Dict) : StepRecord :=
  { record with outputs := some outputs, success := true }

@[simp]
theorem failWith_stepIndex (record : StepRecord) (e : Exc) :
    (record.failWith e).stepIndex = record.stepIndex := rfl

@[simp]
theorem succeedWith_stepIndex (record : StepRecord) (outputs : Dict) :
    (record.succeedWith outputs).stepIndex = record.stepIndex := rfl

@[simp]
theorem failWith_success (record : StepRecord) (e : Exc) : (record.failWith e).success = false := rfl

@[simp]
theorem succeedWith_success (record : StepRecord) (outputs : Dict) :
    (record.succeedWith outputs).success = true := rfl

end StepRecord

namespace Executor

variable (executor : Executor)

/-- `display_name`, with the assertion in it. -/
def displayName (step : FlowStep) : Exec String :=
  match step.displayName? with
  | some name => pure name
  | none => raise .assertion

-- Running a tool

/-- `Tool._validate_output`. -/
def validateOutput (tool : Tool) (raw : Value) : Except Exc Dict := do
  match tool.maxOutputSize with
  | none => pure ()
  | some maxSize =>
    let size ← executor.platform.jsonSize raw
    if size > maxSize then throw (.toolOutputSize tool.name size maxSize)
  executor.platform.modelValidate tool.outputSchema raw

/-- `_drain`: the data of the one terminal chunk, which must come last. -/
def drain (name : String) (ending : Option Exc) : List ToolChunk → Option Value → Except Exc Value
  | [], final =>
    match ending, final with
    | some e, _ => .error e
    | none, none => .error (.toolDefinition name "streaming tool produced no terminal (is_final=True) chunk.")
    | none, some .null => .error .assertion
    | none, some data => .ok data
  | chunk :: rest, final =>
    if final.isSome then
      .error (.toolDefinition name ("streaming tool yielded a chunk after its terminal " ++
        "(is_final=True) chunk; the terminal chunk must be last."))
    else drain name ending rest (if chunk.isFinal then some chunk.data else none)

/-- `_flow_fn`: what a flow wrapped as a tool makes of the result of its flow. -/
def flowFnOutcome (toolName : String) (stepCount : Nat) (result : ExecutionResult) : Except Exc Value :=
  if !result.success then
    match result.executionLog.find? fun record => !record.success with
    | none => .error (.flowExecution toolName flowInputStepIndex
        "Flow execution failed without recording a failing step.")
    | some failed =>
      let detail := ((failed.errorMessage.filter (· ≠ "")).or (failed.errorType.filter (· ≠ ""))).getD
        "Unknown error."
      .error (.flowExecution toolName failed.stepIndex detail)
  else
    match result.finalOutput with
    | some output => .ok (.dict output.entries)
    | none => .error (.flowExecution toolName stepCount "Flow reported success but produced no final output.")

/-- `fn(validated)`. A wrapped flow is run by the synchronous entry point in
either lane. -/
def callFn (nested : Nested) (info : StepInfo) (tool : Tool) (inputs validated : Dict) :
    Exec (Except Exc Value) := do
  probe (.invoke info.traceId info.stepIndex tool inputs)
  let invocation : Invocation := { traceId := info.traceId, stepIndex := info.stepIndex, tool, validated }
  match tool.fn with
  | .callable => perform .callTool invocation
  | .flow flowName toolName stepCount =>
    let outcome ← attempt (nestedCall (.tool tool inputs) validated (nested.executeFlow flowName validated {}))
    pure (outcome.bind (flowFnOutcome toolName stepCount))
  | .stream =>
    let (chunks, ending) ← perform .stream invocation
    pure (drain tool.name ending chunks none)

/-- `Tool.run` and `Tool.run_async`. -/
def runTool (nested : Nested) (info : StepInfo) (tool : Tool) (inputs : Dict) :
    Exec (Except Exc Dict) := do
  match executor.platform.modelValidate tool.inputSchema (.dict inputs.entries) with
  | .error e => pure (.error e)
  | .ok validated =>
    let raw ← callFn nested info tool inputs validated
    pure (raw.bind (executor.validateOutput tool))

/-- `Tool.run_dry`. -/
def runDry (info : StepInfo) (tool : Tool) (inputs : Dict) : Exec (Except Exc Dict) := do
  match executor.platform.modelValidate tool.inputSchema (.dict inputs.entries) with
  | .error e => pure (.error e)
  | .ok validated =>
    let raw ← perform .runDry { traceId := info.traceId, stepIndex := info.stepIndex, tool, validated }
    pure (raw.bind (executor.validateOutput tool))

def retryDisallowedByContract (tool : Tool) : Bool :=
  !tool.safety.safeToRetry || (!tool.safety.idempotent && !tool.safety.readOnly)

/-- How the calls of one tool under a retry policy went. -/
structure Invoked where
  outcome : Except Exc Dict
  retryErrors : List String
  attempts : Nat

/-- One attempt, and up to `retries` more while it raises a retryable error. -/
def attempts (nested : Nested) (info : StepInfo) (tool : Tool) (inputs : Dict)
    (retryable : Exc → Bool) (retries : Nat) (retryErrors : List String) (made : Nat) : Exec Invoked := do
  match ← executor.runTool nested info tool inputs with
  | .ok outputs => pure ⟨.ok outputs, retryErrors, made + 1⟩
  | .error e =>
    let retryErrors := retryErrors ++ [e.message]
    match retries with
    | 0 => pure ⟨.error e, retryErrors, made + 1⟩
    | retries + 1 =>
      if retryable e then attempts nested info tool inputs retryable retries retryErrors (made + 1)
      else pure ⟨.error e, retryErrors, made + 1⟩

/-- `_invoke_tool` and `_invoke_tool_async`. The waits between attempts are not
kept. -/
def invokeTool (nested : Nested) (info : StepInfo) (tool : Tool) (inputs : Dict)
    (policy : Option RetryPolicy) : Exec Invoked := do
  match policy with
  | none => executor.attempts nested info tool inputs (fun _ => false) 0 [] 0
  | some policy =>
    if executor.strictSafety && retryDisallowedByContract tool then
      match ← executor.runTool nested info tool inputs with
      | .ok outputs => pure ⟨.ok outputs, [], 1⟩
      | .error e =>
        let text := s!"{e.message} (retry suppressed: tool '{tool.name}' safety " ++
          "contract disallows unsafe retry under strict_safety=True)"
        pure ⟨.error e, [text], 1⟩
    else
      match executor.platform.resolveErrors policy.retryableErrors with
      | .error e => pure ⟨.error e, [], 0⟩
      | .ok retryable => executor.attempts nested info tool inputs retryable policy.maxRetries [] 0

def wrapToolException (toolName : String) (stepIndex : Int) : Exc → Exc
  | .validation message => .schemaValidation toolName stepIndex message "tool"
  | .toolTimeout name seconds => .toolTimeout name seconds
  | .toolOutputSize name size maxSize => .toolOutputSize name size maxSize
  | e => .flowExecution toolName stepIndex e.message

-- Decision, dry run, error policy

/-- `_failed` inside `_resolve_decision`. -/
def decisionFailed (info : StepInfo) (defaultName : String) (e : Exc) : Exec StepRecord := do
  let blank : StepRecord := { stepIndex := info.stepIndex, toolName := defaultName, inputs := .empty }
  let record := blank.failWith e
  fire (.stepEnd info.traceId info.flowName record)
  pure record

/-- Counts a decision against the budget of the run. -/
def spendDecision (info : StepInfo) : Exec Unit := do
  modify fun state => { state with decisionCount := state.decisionCount + 1 }
  let count := (← get).decisionCount
  match executor.decisionPolicy.bind (·.maxDecisionsPerFlow) with
  | none => pure ()
  | some budget => if count > budget then raise (.decisionBudgetExceeded info.flowName budget) else pure ()

/-- `none`: the callback did not answer in time. -/
def askDecision (policy : DecisionPolicy) (ctx : DecisionContext) : Exec (Option (Except Exc String)) :=
  match policy.timeout with
  | some _ => perform .decideTimed ctx
  | none => do pure (some (← perform .decide ctx))

/-- What the answer of the callback makes of the step. -/
def chooseTool (info : StepInfo) (policy : DecisionPolicy) (step : FlowStep)
    (hc : step.decisionCandidates = some candidates) (defaultName : String) :
    Option (Except Exc String) → Except Exc (FlowStep × Option DecisionRecord)
  | none =>
    match policy.onTimeout with
    | .error => .error (.decisionTimeout defaultName info.stepIndex (policy.timeout.getD ""))
    | .default =>
      .ok (step, some { candidates, chosen := defaultName, defaultToolName := defaultName, timedOut := true })
  | some (.error raised) =>
    .error (.decisionCallback defaultName info.stepIndex
      s!"callback raised {raised.typeName}: {raised.message}")
  | some (.ok chosen) =>
    if hm : candidates.contains chosen = true then
      let decision : DecisionRecord := { candidates, chosen, defaultToolName := defaultName }
      if chosen = defaultName then .ok (step, some decision)
      else .ok (step.withTool chosen (step.candidatesValid_chosen hc hm), some decision)
    else
      .error (.decisionCallback defaultName info.stepIndex
        (s!"callback returned '{chosen}' which is not in " ++
          s!"decision_candidates={Exc.listRepr candidates}"))

/-- `_resolve_decision`: the step with the chosen tool, or the record of the
failure. -/
def resolveDecision (info : StepInfo) (step : FlowStep) (context : Dict) :
    Exec (Except StepRecord (FlowStep × Option DecisionRecord)) := do
  match hc : step.decisionCandidates with
  | none => pure (.ok (step, none))
  | some candidates =>
    if !executor.hasDecisionCallback then pure (.ok (step, none))
    else
      let defaultName ← displayName step
      executor.spendDecision info
      let policy := executor.decisionPolicy.getD {}
      let answer ← askDecision policy
        { traceId := info.traceId, flowName := info.flowName, stepIndex := info.stepIndex,
          stepId := info.stepId, defaultToolName := defaultName, candidates, context }
      match chooseTool info policy step hc defaultName answer with
      | .error e => pure (.error (← decisionFailed info defaultName e))
      | .ok resolved => pure (.ok resolved)

/-- `_dry_run_step`: how a dry run treats a side-effecting tool; `none` leaves
the tool to run. `record` holds what the record of the step has so far. -/
def dryRunStep (info : StepInfo) (toolName : String) (tool : Tool) (inputs : Dict)
    (record : StepRecord) : Exec (Option StepRecord) := do
  if !tool.safety.sideEffecting then pure none
  else if tool.supportsDryRun && tool.hasDryRunFn then
    match ← executor.runDry info tool inputs with
    | .ok outputs => pure (some (record.succeedWith outputs))
    | .error e => pure (some (record.failWith (wrapToolException toolName info.stepIndex e)))
  else
    match (← get).dryRunUnsupported with
    | .abort =>
      pure (some (record.failWith (.flowExecution toolName info.stepIndex
        "dry-run abort: side-effecting tool declares no dry_run_fn")))
    | .skip => pure (some { record.succeedWith .empty with skipped := true })

/-- The dry-run dispatch in front of a tool; only the synchronous lane has one. -/
def dryDispatch (lane : Lane) (info : StepInfo) (toolName : String) (tool : Tool) (inputs : Dict)
    (record : StepRecord) : Exec (Option StepRecord) := do
  let state ← get
  if lane = .sync && state.dryRun then executor.dryRunStep info toolName tool inputs record
  else pure none

/-- What the asynchronous lane adds to the retry errors. -/
def Lane.remark : Lane → String → List String
  | .sync, _ => []
  | .async, text => [text]

/-- The fallback branch of `_apply_on_error`. The tool is gated again, under its
own contract; the input guardrail is not asked. -/
def runFallback (lane : Lane) (nested : Nested) (info : StepInfo) (toolName fallbackName : String)
    (inputs : Dict) (record : StepRecord) (retryErrors : List String) : Exec StepRecord := do
  let record := { record with retryErrors, fallbackUsed := true, fallbackToolName := some fallbackName }
  let remarked (text : String) : StepRecord :=
    { record with retryErrors := retryErrors ++ Lane.remark lane text }
  match executor.getTool fallbackName with
  | .error missing => pure ((remarked s!"fallback '{fallbackName}' not registered").failWith missing)
  | .ok tool =>
    let (refusal, approval) ← executor.evaluateSafetyGate info tool inputs
    let approval := approval.or record.approval
    match refusal with
    | some e =>
      let text := s!"fallback '{fallbackName}' refused by safety gate: {e.message}"
      pure { (remarked text).failWith e with approval }
    | none =>
      let record := { record with approval }
      match ← executor.dryDispatch lane info toolName tool inputs record with
      | some dryRecord => pure dryRecord
      | none =>
        probe (.fallback info.traceId info.stepIndex toolName fallbackName)
        match ← executor.runTool nested info tool inputs with
        | .ok outputs => pure (record.succeedWith outputs)
        | .error e =>
          let text := s!"fallback '{fallbackName}' failed: {e.message}"
          pure { (remarked text).failWith (wrapToolException fallbackName info.stepIndex e) with approval }

/-- `_apply_on_error` and `_apply_on_error_async`. -/
def applyOnError (lane : Lane) (nested : Nested) (info : StepInfo) (step : FlowStep) (toolName : String)
    (inputs : Dict) (record : StepRecord) (retryErrors : List String) (wrapped : Exc) :
    Exec StepRecord := do
  match step.onError with
  | .fail => pure ({ record with retryErrors }.failWith wrapped)
  | .skip =>
    pure { record with
      retryErrors, outputs := some .empty, errorType := some wrapped.typeName,
      errorMessage := some wrapped.message, success := true, skipped := true }
  | .fallback fallbackName =>
    executor.runFallback lane nested info toolName fallbackName inputs record
      (retryErrors ++ [wrapped.message])

-- Tool steps

/-- What comes before `on_step_start`: the tool, the inputs and the input
contract, or the record of the failure. -/
def prepareStep (info : StepInfo) (step : FlowStep) (toolName : String) (context : Dict)
    (record : StepRecord) : Exec (Except StepRecord (Tool × Dict)) := do
  match executor.getTool toolName with
  | .error e => pure (.error (record.failWith e))
  | .ok tool =>
    match resolveInputs step context info.stepIndex with
    | .error e => pure (.error (record.failWith e))
    | .ok inputs =>
      let violation ← ofExcept
        (executor.checkStepContract toolName info.stepIndex inputs step.inputContract "step_input_contract")
      match violation with
      | some e => pure (.error ({ record with inputs }.failWith e))
      | none => pure (.ok (tool, inputs))

/-- The key of a step in the cache; `none` where caching is off or the inputs do
not validate. -/
def cacheKey (lane : Lane) (state : RunScopedState) (tool : Tool) (inputs : Dict) :
    Except Exc (Option StepCacheKey) :=
  if executor.hasStepCache && tool.cacheable && !state.inReplay && (lane = .async || !state.dryRun) then
    match executor.platform.modelValidate tool.inputSchema (.dict inputs.entries) with
    | .error (.validation _) => .ok none
    | .error e => .error e
    | .ok validated => do
      let inputValueHash ← executor.platform.inputValueHash tool.inputSchema validated
      pure (some { toolName := tool.name, schemaHash := tool.schemaHash, inputValueHash })
  else .ok none

/-- The end of a step whose tool gave `outputs`: the output contract, and then
the cache. -/
def settleOutputs (info : StepInfo) (step : FlowStep) (toolName : String) (key : Option StepCacheKey)
    (record : StepRecord) (outputs : Dict) : Exec StepRecord := do
  let violation ← ofExcept
    (executor.checkStepContract toolName info.stepIndex outputs step.outputContract "step_output_contract")
  match violation with
  | some e => pure (record.failWith e)
  | none =>
    match key with
    | some key => ofExcept (← perform .cacheSet (key, outputs))
    | none => pure ()
    pure (record.succeedWith outputs)

/-- `step_cache.get`, where the step has a key. -/
def cacheLookup : Option StepCacheKey → Exec (Option Dict)
  | none => pure none
  | some key => do ofExcept (← perform .cacheGet key)

/-- The part of `_execute_step` from the cache on. -/
def runCached (lane : Lane) (nested : Nested) (info : StepInfo) (step : FlowStep) (toolName : String)
    (tool : Tool) (inputs : Dict) (record : StepRecord) : Exec StepRecord := do
  let key ← ofExcept (executor.cacheKey lane (← get) tool inputs)
  match ← cacheLookup key with
  | some output =>
    executor.settleOutputs info step toolName none { record with cached := true } output >>= fun settled =>
      -- A contract failure on a hit is recorded without the `cached` mark.
      pure { settled with cached := settled.success }
  | none =>
    let invoked ← executor.invokeTool nested info tool inputs step.retry
    let record := { record with retryCount := invoked.attempts - 1 }
    match invoked.outcome with
    | .error e =>
      executor.applyOnError lane nested info step toolName inputs record invoked.retryErrors
        (wrapToolException toolName info.stepIndex e)
    | .ok outputs =>
      executor.settleOutputs info step toolName key { record with retryErrors := invoked.retryErrors } outputs

/-- The chunks of `run_streaming`, each announced by a hook; the data of the
terminal chunk is validated before it goes on. -/
def consume (info : StepInfo) (toolName : String) (tool : Tool) (ending : Option Exc) :
    List ToolChunk → Option Dict → Exec (Except Exc Dict)
  | [], final =>
    match ending, final with
    | some e, _ => pure (.error e)
    | none, some output => pure (.ok output)
    | none, none =>
      pure (.error (.toolDefinition tool.name "streaming tool produced no terminal (is_final=True) chunk."))
  | chunk :: rest, final => do
    if final.isSome then
      pure (.error (.toolDefinition tool.name ("streaming tool yielded a chunk after its terminal " ++
        "(is_final=True) chunk; the terminal chunk must be last.")))
    else if chunk.isFinal then
      match executor.validateOutput tool chunk.data with
      | .error e => pure (.error e)
      | .ok output =>
        fire (.stepChunk info.traceId info.flowName info.stepIndex toolName
          { data := .dict output.entries, isFinal := true })
        consume info toolName tool ending rest (some output)
    else
      fire (.stepChunk info.traceId info.flowName info.stepIndex toolName chunk)
      consume info toolName tool ending rest none

def runStreaming (info : StepInfo) (toolName : String) (tool : Tool) (inputs : Dict) :
    Exec (Except Exc Dict) := do
  match executor.platform.modelValidate tool.inputSchema (.dict inputs.entries) with
  | .error e => pure (.error e)
  | .ok validated =>
    probe (.invoke info.traceId info.stepIndex tool inputs)
    let (chunks, ending) ← perform .stream
      { traceId := info.traceId, stepIndex := info.stepIndex, tool, validated }
    executor.consume info toolName tool ending chunks none

/-- `_run_streaming_step_async`. -/
def runStreamingStep (nested : Nested) (info : StepInfo) (step : FlowStep) (toolName : String)
    (tool : Tool) (inputs : Dict) (record : StepRecord) : Exec StepRecord := do
  match ← executor.runStreaming info toolName tool inputs with
  | .error e =>
    executor.applyOnError .async nested info step toolName inputs record []
      (wrapToolException toolName info.stepIndex e)
  | .ok outputs => executor.settleOutputs info step toolName none record outputs

/-- The tool of a step behind both gates. -/
def dispatchTool (lane : Lane) (nested : Nested) (info : StepInfo) (step : FlowStep) (toolName : String)
    (tool : Tool) (inputs : Dict) (record : StepRecord) : Exec StepRecord :=
  match lane with
  | .sync => do
    match ← executor.dryDispatch .sync info toolName tool inputs record with
    | some dryRecord => pure dryRecord
    | none => executor.runCached .sync nested info step toolName tool inputs record
  | .async =>
    if tool.isStreaming then executor.runStreamingStep nested info step toolName tool inputs record
    else executor.runCached .async nested info step toolName tool inputs record

/-- What comes between `on_step_start` and `on_step_end`. -/
def runToolStep (lane : Lane) (nested : Nested) (info : StepInfo) (step : FlowStep) (toolName : String)
    (tool : Tool) (inputs : Dict) (record : StepRecord) : Exec StepRecord := do
  let (refusal, approval) ← executor.evaluateSafetyGate info tool inputs
  let record := { record with inputs, approval }
  match refusal with
  | some e => pure (record.failWith e)
  | none =>
    match ← executor.evaluateInputGuardrail info tool inputs with
    | some e => pure (record.failWith e)
    | none => executor.dispatchTool lane nested info step toolName tool inputs record

/-- A tool step whose decision is made. -/
def executeToolStep (lane : Lane) (nested : Nested) (info : StepInfo) (step : FlowStep)
    (decision : Option DecisionRecord) (context : Dict) : Exec StepRecord := do
  let toolName ← displayName step
  let blank : StepRecord :=
    { stepIndex := info.stepIndex, toolName, inputs := .empty, success := false, decision }
  match ← executor.prepareStep info step toolName context blank with
  | .error record =>
    fire (.stepEnd info.traceId info.flowName record)
    pure record
  | .ok (tool, inputs) =>
    fire (.stepStart info.traceId info.flowName info.stepIndex toolName inputs)
    let record ← executor.runToolStep lane nested info step toolName tool inputs blank
    fire (.stepEnd info.traceId info.flowName record)
    pure record

-- Sub-flow steps, and steps in general

def subflowRecord (info : StepInfo) (subName : String) (subInput : Dict) (subResult : ExecutionResult) :
    StepRecord :=
  { stepIndex := info.stepIndex, toolName := subName, flowName := some subName, inputs := subInput,
    outputs := if subResult.success then subResult.finalOutput else none,
    errorType := if subResult.success then none else some "FlowExecutionError",
    errorMessage := if subResult.success then none else some s!"Sub-flow '{subName}' failed.",
    success := subResult.success, subResult := some subResult }

/-- `_execute_subflow_step` and `_execute_subflow_step_async`. -/
def executeSubflowStep (lane : Lane) (nested : Nested) (info : StepInfo) (step : FlowStep)
    (subName : String) (context : Dict) (cancellation : Cancellation) : Exec StepRecord := do
  let blank : StepRecord :=
    { stepIndex := info.stepIndex, toolName := subName, flowName := some subName, inputs := .empty }
  probe (.subInputs info.traceId info.stepIndex step context)
  match resolveInputs step context info.stepIndex with
  | .error e => pure (blank.failWith e)
  | .ok subInput =>
    fire (.stepStart info.traceId info.flowName info.stepIndex subName subInput)
    let savedVersion := (← get).activeFlowVersion
    let outcome ← attempt
      (nestedCall (.step step context info.stepIndex) subInput (nested.entry lane subName subInput cancellation))
    modify fun state => { state with activeFlowVersion := savedVersion }
    let subResult ← rethrow outcome
    let record := subflowRecord info subName subInput subResult
    fire (.stepEnd info.traceId info.flowName record)
    pure record

def executeStepIn (lane : Lane) (nested : Nested) (info : StepInfo) (step : FlowStep) (context : Dict)
    (cancellation : Cancellation) : Exec StepRecord := do
  match step.target with
  | .flow subName => executeSubflowStep lane nested info step subName context cancellation
  | .tool _ =>
    match lane with
    | .async => executor.executeToolStep .async nested info step none context
    | .sync =>
      match ← executor.resolveDecision info step context with
      | .error record => pure record
      | .ok (step, decision) => executor.executeToolStep .sync nested info step decision context

def executeStep (nested : Nested) (info : StepInfo) (step : FlowStep) (context : Dict)
    (cancellation : Cancellation) : Exec StepRecord :=
  executor.executeStepIn .sync nested info step context cancellation

def executeStepAsync (nested : Nested) (info : StepInfo) (step : FlowStep) (context : Dict)
    (cancellation : Cancellation) : Exec StepRecord :=
  executor.executeStepIn .async nested info step context cancellation

end Executor

end ChainWeaver
