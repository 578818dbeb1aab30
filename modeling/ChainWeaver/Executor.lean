import ChainWeaver.Context
import ChainWeaver.Effects
import ChainWeaver.Topology

/-!
# The executor

The configuration of a `FlowExecutor` and the parts every lane uses: results,
snapshots, cancellation, flow-level validation, the safety gate and the
guardrail.
-/

namespace ChainWeaver

-- Configuration

/-- Pydantic, the import system and the interpreter, as far as a run depends on
them. None of them has effects a run can see. -/
structure Platform where
  hashing : Hashing
  /-- `resolve_class_ref` for a model class. -/
  resolveClassRef : String → Except Exc Schema
  /-- `resolved_retryable_errors`, and then `isinstance` with the classes. -/
  resolveErrors : List String → Except Exc (Exc → Bool)
  /-- `model_validate`, and then `model_dump`. -/
  modelValidate : Schema → Value → Except Exc Dict
  /-- `compute_input_value_hash` of a validated input. -/
  inputValueHash : Schema → Dict → Except Exc String
  /-- The size of a raw output as UTF-8 JSON. -/
  jsonSize : Value → Except Exc Nat
  /-- `ast.parse` in `eval` mode. -/
  parsePredicate : String → Except PredicateError Expr

/-- The flows of a `FlowRegistry` by name and version, and its latest-version
pointer. -/
structure Registry where
  flows : List ((String × String) × AnyFlow)
  latest : OrderedDict String

def Registry.loadFlow (registry : Registry) (name version : String) : Except Exc AnyFlow :=
  match registry.flows.lookup (name, version) with
  | some flow => .ok flow
  | none => .error (.flowNotFound name (some version))

def Registry.getFlow (registry : Registry) (name : String) (version : Option String) :
    Except Exc AnyFlow :=
  match version with
  | some version => registry.loadFlow name version
  | none =>
    match registry.latest.get? name with
    | some version => registry.loadFlow name version
    | none => .error (.flowNotFound name none)

inductive OnTimeout
  | error | default
  deriving DecidableEq

/-- `timeout` is the number of seconds as printed. -/
structure DecisionPolicy where
  timeout : Option String := none
  maxDecisionsPerFlow : Option Nat := none
  onTimeout : OnTimeout := .error

/-- What `KernelBackedExecutor` adds: a kernel, and the scope of its default
token if it has one. -/
structure Kernel where
  defaultScope : Option (List String) := none

structure Executor where
  platform : Platform
  registry : Registry
  tools : OrderedDict Tool
  redact : Option (Dict → Dict) := none
  hasStepCache : Bool := false
  hasCheckpointer : Bool := false
  deleteOnSuccess : Bool := true
  hasDecisionCallback : Bool := false
  decisionPolicy : Option DecisionPolicy := none
  hasApprovalCallback : Bool := false
  strictSafety : Bool := false
  maxSideEffectLevel : Option SideEffectLevel := none
  hasGuardrailCallback : Bool := false
  maxCompositionDepth : Nat := 10
  maxStepConcurrency : Nat := 1
  kernel : Option Kernel := none
  hasCostProfile : Bool := false
  concurrency_pos : 1 ≤ maxStepConcurrency := by decide

namespace Executor

variable (executor : Executor)

def getTool (name : String) : Except Exc Tool :=
  match executor.tools.get? name with
  | some tool => .ok tool
  | none => .error (.toolNotFound name)

/-- The inputs as a callback may see them. -/
def redacted (inputs : Dict) : Dict :=
  match executor.redact with
  | some redact => redact inputs
  | none => inputs

-- Results, snapshots, cancellation

/-- The identity of one flow run, as every record and hook of it repeats it. -/
structure RunInfo where
  flowName : String
  traceId : String
  initialInput : Dict

def deleteSnapshot (result : ExecutionResult) : Exec Unit := do
  if executor.hasCheckpointer && executor.deleteOnSuccess && result.success then
    ofExcept (← perform .delete result.traceId)
  else pure ()

mutual

/-- `_count_composed_tool_steps`. -/
def countComposedToolSteps : List StepRecord → Int
  | [] => 0
  | record :: rest => countRecord record + countComposedToolSteps rest

/-- One record of that count: what its sub-flow ran, or itself. -/
def countRecord : StepRecord → Int
  | ⟨_, _, _, _, _, _, _, _, _, _, _, _, _, _, subResult, _, _⟩ => countSubResult subResult

def countSubResult : Option ExecutionResult → Int
  | none => 1
  | some ⟨_, _, _, _, executionLog, _, _, _, _⟩ => countComposedToolSteps executionLog

end

/-- `compute_cost_report`. -/
def computeCostReport (stepsExecuted : Int) : CostReport where
  stepsExecuted
  llmCallsAvoided := max 0 (stepsExecuted - 1)

/-- What the sub-flows of a log ran, beyond the one record that the log has of each. -/
def compositionAdjustment : List StepRecord → Int
  | [] => 0
  | record :: rest =>
    match record.subResult with
    | some sub => countComposedToolSteps sub.executionLog - 1 + compositionAdjustment rest
    | none => compositionAdjustment rest

/-- The cost report of a result. -/
def costReport (executionLog : List StepRecord) (toolStepCount : Option Nat) : Option CostReport :=
  if executor.hasCostProfile then
    let baseSteps : Int := toolStepCount.getD executionLog.length
    some (computeCostReport (baseSteps + compositionAdjustment executionLog))
  else none

/-- `_make_result`. `toolStepCount` is the length of the log without the record of a
flow-level check, where there is one. -/
def makeResult (info : RunInfo) (success : Bool) (finalOutput : Option Dict)
    (executionLog : List StepRecord) (toolStepCount : Option Nat := none) : Exec ExecutionResult := do
  let state ← get
  let result : ExecutionResult :=
    { flowName := info.flowName, flowVersion := state.activeFlowVersion, success, finalOutput,
      executionLog, traceId := info.traceId, initialInput := info.initialInput,
      dryRun := state.dryRun, costReport := executor.costReport executionLog toolStepCount }
  executor.deleteSnapshot result
  fire (.flowEnd info.traceId info.flowName result)
  pure result

def snapshotVersion : String := "1"

/-- `major`: `int` of the part before the first dot, 0 where there is none. -/
def majorVersion (version : String) : Int :=
  let head := version.toList.takeWhile (· ≠ '.')
  (Pointer.parseInt (String.ofList head)).getD 0

def sameMajor (found current : String) : Bool := majorVersion found = majorVersion current

/-- The schema hashes of the steps' tools, as a snapshot keeps them. -/
def toolSchemaHashes : List FlowStep → OrderedDict String → Except Exc (OrderedDict String)
  | [], hashes => .ok hashes
  | step :: rest, hashes =>
    match step.displayName? with
    | none => .error .assertion
    | some name =>
      match executor.tools.get? name with
      | some tool => toolSchemaHashes rest (hashes.insert name tool.schemaHash)
      | none => toolSchemaHashes rest hashes

def snapshotOf (info : RunInfo) (flow : AnyFlow) (context : Dict) (log : List StepRecord) (completed : Nat)
    (hashes : OrderedDict String) : ExecutionSnapshot :=
  { snapshotVersion, traceId := info.traceId, flowName := flow.header.name,
    flowVersion := flow.header.version, initialInput := info.initialInput, context,
    executionLog := log, completedSteps := if flow.isDag then 0 else completed,
    completedDagLevels := if flow.isDag then completed else 0, toolSchemaHashes := hashes }

/-- `_save_linear_snapshot` and `_save_dag_snapshot`, which differ in the counter
they set. -/
def saveSnapshot (info : RunInfo) (flow : AnyFlow) (context : Dict) (log : List StepRecord)
    (completed : Nat) : Exec Unit := do
  let state ← get
  if executor.hasCheckpointer && !state.dryRun then
    let hashes ← ofExcept (executor.toolSchemaHashes flow.steps .empty)
    ofExcept (← perform .save (snapshotOf info flow context log completed hashes))
  else pure ()

/-- When to give up a run: a deadline on the clock, and a token that may be
cancelled. -/
structure Cancellation where
  deadline : Option Int := none
  hasToken : Bool := false

def deadlineExceeded (cancellation : Cancellation) : Exec Bool :=
  match cancellation.deadline with
  | none => pure false
  | some deadline => do pure (decide (deadline ≤ (← perform .clock ())))

def tokenCancelled (cancellation : Cancellation) : Exec Bool :=
  if cancellation.hasToken then perform .isCancelled () else pure false

def checkCancellation (info : RunInfo) (nextStepIndex : Nat) (cancellation : Cancellation)
    (log : List StepRecord) : Exec Unit := do
  let late ← deadlineExceeded cancellation
  let cancelled ← tokenCancelled cancellation
  if late || cancelled then
    probe (.cancelled info.traceId)
    let partialResult ← executor.makeResult info false none log (some log.length)
    throw (.flowCancelled info.flowName nextStepIndex partialResult late cancelled)
  else pure ()

def composedRecord (step : FlowStep) (stepIndex : Nat) (sub : ExecutionResult) (message : String) :
    StepRecord :=
  { stepIndex, toolName := step.displayName?.getD "", flowName := step.flowName?, inputs := .empty,
    errorType := some "FlowCancelledError", errorMessage := some message, success := false,
    subResult := some sub }

/-- `_reraise_subflow_cancellation`, on the step record of the composed step. -/
def reraiseSubflowCancellation (info : RunInfo) (step : FlowStep) (stepIndex : Nat)
    (priorLog : List StepRecord) (sub : ExecutionResult) (message : String)
    (deadlineExceeded tokenCancelled : Bool) : Exec α := do
  let composed := composedRecord step stepIndex sub message
  let fullLog := priorLog ++ [composed]
  let partialResult ← executor.makeResult info false none fullLog (some fullLog.length)
  throw (.flowCancelled info.flowName stepIndex partialResult deadlineExceeded tokenCancelled)

-- Schemas

/-- `schema.model_validate(payload)`: the error text when it raises
`ValidationError`. Any other exception goes through. -/
def validationError (schema : Schema) (payload : Dict) : Except Exc (Option String) :=
  match executor.platform.modelValidate schema (.dict payload.entries) with
  | .ok _ => .ok none
  | .error (.validation message) => .ok (some message)
  | .error e => .error e

/-- The record of a failed flow-level check. -/
def flowRecord (flowName : String) (payload : Dict) (stepIndex : Int) (detail contextLabel : String) :
    StepRecord :=
  let e := Exc.schemaValidation flowName stepIndex detail contextLabel
  { stepIndex, toolName := flowName, inputs := payload, errorType := some e.typeName,
    errorMessage := some e.message, success := false }

/-- The check of one flow-level schema: the record of the failure, if there is
one. -/
def validateFlowSchema (flowName : String) (payload : Dict) (schemaRef : Option String)
    (stepIndex : Int) (contextLabel : String) : Except Exc (Option StepRecord) :=
  match schemaRef with
  | none => .ok none
  | some ref => do
    let schema ← executor.platform.resolveClassRef ref
    match ← executor.validationError schema payload with
    | none => pure none
    | some detail => pure (some (flowRecord flowName payload stepIndex detail contextLabel))

/-- `_check_step_contract` with the resolution of the reference before it. -/
def checkStepContract (toolName : String) (stepIndex : Int) (payload : Dict) (contract : Option String)
    (contextLabel : String) : Except Exc (Option Exc) :=
  match contract with
  | none => .ok none
  | some ref => do
    let schema ← executor.platform.resolveClassRef ref
    match ← executor.validationError schema payload with
    | none => pure none
    | some detail => pure (some (.schemaValidation toolName stepIndex detail contextLabel))

-- Gate and guardrail

/-- Where in which run a step stands. -/
structure StepInfo where
  traceId : String
  flowName : String
  stepIndex : Int
  stepId : Option String

def denied (toolName : String) (stepIndex : Int) (detail reason : String) :
    Option Exc × Option ApprovalRecord :=
  (some (.approvalDenied toolName stepIndex detail), some { decision := .deny, reason := some reason })

/-- `_evaluate_safety_gate`: an error refuses the tool. -/
def evaluateSafetyGate (info : StepInfo) (tool : Tool) (inputs : Dict) :
    Exec (Option Exc × Option ApprovalRecord) := do
  let contract := tool.safety
  if executor.maxSideEffectLevel.any (sideEffectExceeds contract.sideEffects) then
    let ceiling := executor.maxSideEffectLevel.getD .destructive
    return (some (.safetyCeiling tool.name info.stepIndex contract.sideEffects.value ceiling.value), none)
  if !contract.requiresApproval then
    return (none, none)
  if !executor.hasApprovalCallback then
    if executor.strictSafety then
      let reason := "no approval_callback registered (strict_safety=True)"
      return denied tool.name info.stepIndex s!"step requires approval but {reason}" reason
    return (none, none)
  let reply ← perform .approve
    { traceId := info.traceId, flowName := info.flowName, stepIndex := info.stepIndex,
      stepId := info.stepId, toolName := tool.name, inputs := executor.redacted inputs,
      safety := contract }
  match reply with
  | .error e =>
    let reason := s!"approval callback raised {e.typeName}: {e.message}"
    return denied tool.name info.stepIndex reason reason
  | .ok (.other repr) =>
    let reason := s!"approval callback returned {repr}, not an ApprovalDecision"
    return denied tool.name info.stepIndex reason reason
  | .ok (.decision .deny) =>
    let reason := "approval callback returned DENY"
    return denied tool.name info.stepIndex reason reason
  | .ok (.decision .approve) => return (none, some { decision := .approve })

/-- `_evaluate_input_guardrail`: an error blocks the tool. -/
def evaluateInputGuardrail (info : StepInfo) (tool : Tool) (inputs : Dict) : Exec (Option Exc) := do
  if !executor.hasGuardrailCallback then
    return none
  let reply ← perform .check
    { traceId := info.traceId, flowName := info.flowName, stepIndex := info.stepIndex,
      stepId := info.stepId, toolName := tool.name, inputs := executor.redacted inputs }
  match reply with
  | .ok () => return none
  | .error e =>
    let reason := s!"input guardrail raised {e.typeName}: {e.message}"
    return some (.guardrailViolation tool.name info.stepIndex "input" reason)

end Executor

end ChainWeaver
