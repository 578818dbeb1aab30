import ChainWeaver.Flow
import ChainWeaver.Predicate

/-!
# Records, results and errors

What a run leaves behind: step records and execution results (each may hold the
other), snapshots, and the exceptions of `exceptions.py` with their texts.
Timestamps and durations are not kept, and of a cost report what it counts.
-/

namespace ChainWeaver

inductive ApprovalDecision
  | approve | deny
  deriving DecidableEq

structure ApprovalRecord where
  decision : ApprovalDecision
  reason : Option String := none
  deriving DecidableEq

structure DecisionRecord where
  candidates : List String
  chosen : String
  defaultToolName : String
  timedOut : Bool := false
  deriving DecidableEq

/-- What a cost report counts. Its estimates are these times the prices of a profile. -/
structure CostReport where
  stepsExecuted : Int
  llmCallsAvoided : Int
  deriving DecidableEq

mutual

structure StepRecord where
  stepIndex : Int
  toolName : String
  inputs : Dict
  outputs : Option Dict := none
  errorType : Option String := none
  errorMessage : Option String := none
  success : Bool := true
  retryCount : Nat := 0
  retryErrors : List String := []
  skipped : Bool := false
  cached : Bool := false
  fallbackUsed : Bool := false
  fallbackToolName : Option String := none
  flowName : Option String := none
  subResult : Option ExecutionResult := none
  approval : Option ApprovalRecord := none
  decision : Option DecisionRecord := none

structure ExecutionResult where
  flowName : String
  flowVersion : String
  success : Bool
  finalOutput : Option Dict
  executionLog : List StepRecord := []
  traceId : String
  initialInput : Dict := .empty
  dryRun : Bool := false
  costReport : Option CostReport := none

end

/-- `checkpoint.py`. One of the two counters is used, by the kind of the flow. -/
structure ExecutionSnapshot where
  snapshotVersion : String
  traceId : String
  flowName : String
  flowVersion : String
  initialInput : Dict
  context : Dict
  executionLog : List StepRecord
  completedSteps : Nat := 0
  completedDagLevels : Nat := 0
  toolSchemaHashes : OrderedDict String

-- Exceptions

inductive Exc
  | toolNotFound (toolName : String)
  | flowNotFound (flowName : String) (version : Option String)
  | schemaValidation (toolName : String) (stepIndex : Int) (detail : String) (context : String)
  | inputMapping (toolName : String) (stepIndex : Int) (key : String)
  | outputMapping (toolName : String) (stepIndex : Int) (outputKey : String) (available : List String)
  | flowExecution (toolName : String) (stepIndex : Int) (detail : String)
  | toolDefinition (functionName : String) (detail : String)
  | toolTimeout (toolName : String) (timeoutSeconds : String)
  | toolOutputSize (toolName : String) (size maxSize : Nat)
  | dagDefinition (flowName reason detail : String)
  | flowStatus (flowName status : String)
  | flowCancelled (flowName : String) (stepIndex : Int) (result : ExecutionResult)
      (deadlineExceeded tokenCancelled : Bool)
  | contextKeyCollision (flowName : String) (stepIndex : Int) (stepName : String) (keys : List String)
  | asyncLaneUnsupported (flowName : String) (unsupported : List String)
  | flowComposition (flowName reason detail : String)
  | checkpointDrift (traceId flowName detail : String)
  | checkpointerNotConfigured
  | checkpointNotFound (traceId : String)
  | checkpointVersion (traceId flowName snapshotVersion expectedVersion : String)
  | approvalDenied (toolName : String) (stepIndex : Int) (detail : String)
  | safetyCeiling (toolName : String) (stepIndex : Int) (level ceiling : String)
  | guardrailViolation (toolName : String) (stepIndex : Int) (stage detail : String)
  | decisionCallback (toolName : String) (stepIndex : Int) (detail : String)
  | decisionTimeout (toolName : String) (stepIndex : Int) (timeout : String)
  | decisionBudgetExceeded (flowName : String) (budget : Nat)
  | kernelInvocation (capabilityId : String) (stepIndex : Int) (detail : String)
  | predicateSyntax (predicate detail : String)
  /-- Pydantic's `ValidationError`. -/
  | validation (message : String)
  | assertion
  | recursion
  /-- An exception of any other class. -/
  | other (typeName message : String)

namespace Exc

def typeName : Exc → String
  | .toolNotFound .. => "ToolNotFoundError"
  | .flowNotFound .. => "FlowNotFoundError"
  | .schemaValidation .. => "SchemaValidationError"
  | .inputMapping .. => "InputMappingError"
  | .outputMapping .. => "OutputMappingError"
  | .flowExecution .. => "FlowExecutionError"
  | .toolDefinition .. => "ToolDefinitionError"
  | .toolTimeout .. => "ToolTimeoutError"
  | .toolOutputSize .. => "ToolOutputSizeError"
  | .dagDefinition .. => "DAGDefinitionError"
  | .flowStatus .. => "FlowStatusError"
  | .flowCancelled .. => "FlowCancelledError"
  | .contextKeyCollision .. => "ContextKeyCollisionError"
  | .asyncLaneUnsupported .. => "AsyncLaneUnsupportedError"
  | .flowComposition .. => "FlowCompositionError"
  | .checkpointDrift .. => "CheckpointDriftError"
  | .checkpointerNotConfigured => "CheckpointerNotConfiguredError"
  | .checkpointNotFound .. => "CheckpointNotFoundError"
  | .checkpointVersion .. => "CheckpointVersionError"
  | .approvalDenied .. => "ApprovalDeniedError"
  | .safetyCeiling .. => "SafetyCeilingError"
  | .guardrailViolation .. => "GuardrailViolationError"
  | .decisionCallback .. => "DecisionCallbackError"
  | .decisionTimeout .. => "DecisionTimeoutError"
  | .decisionBudgetExceeded .. => "DecisionBudgetExceededError"
  | .kernelInvocation .. => "KernelInvocationError"
  | .predicateSyntax .. => "PredicateSyntaxError"
  | .validation .. => "ValidationError"
  | .assertion => "AssertionError"
  | .recursion => "RecursionError"
  | .other name _ => name

/-- `repr` of a list of strings. -/
def listRepr (names : List String) : String :=
  "[" ++ ", ".intercalate (names.map Value.quote) ++ "]"

def stripDots (text : String) : String :=
  String.ofList (text.toList.reverse.dropWhile (· = '.')).reverse

/-- `str(exc)`. -/
def message : Exc → String
  | .toolNotFound toolName => s!"Tool '{toolName}' is not registered."
  | .flowNotFound flowName none => s!"Flow '{flowName}' is not registered."
  | .flowNotFound flowName (some version) => s!"Flow '{flowName}' version '{version}' is not registered."
  | .schemaValidation toolName stepIndex detail context =>
    s!"Schema validation failed for {context} '{toolName}' at step {stepIndex}: {detail}"
  | .inputMapping toolName stepIndex key =>
    s!"Input mapping key '{key}' not found for tool '{toolName}' at step {stepIndex}."
  | .outputMapping toolName stepIndex outputKey available =>
    s!"Output mapping references key '{outputKey}' not produced by tool '{toolName}' at step " ++
      s!"{stepIndex}. Available output keys: {listRepr (available.mergeSort (· ≤ ·))}."
  | .flowExecution toolName stepIndex detail =>
    s!"Execution error in tool '{toolName}' at step {stepIndex}: {detail}"
  | .toolDefinition functionName detail => s!"Cannot define tool from function '{functionName}': {detail}"
  | .toolTimeout toolName seconds => s!"Tool '{toolName}' exceeded timeout of {seconds}s."
  | .toolOutputSize toolName size maxSize => s!"Tool '{toolName}' output size {size} exceeds max {maxSize}."
  | .dagDefinition flowName reason detail => s!"Invalid DAG flow '{flowName}' ({reason}): {detail}"
  | .flowStatus flowName status =>
    s!"Flow '{flowName}' has status '{status}'. Use force=True to execute anyway."
  | .flowCancelled flowName stepIndex _ deadlineExceeded tokenCancelled =>
    let reason :=
      if deadlineExceeded && tokenCancelled then "wall-clock deadline exceeded and cancellation requested"
      else if deadlineExceeded then "wall-clock deadline exceeded"
      else "cancellation requested"
    s!"Flow '{flowName}' cancelled before step {stepIndex} ({reason})."
  | .contextKeyCollision flowName stepIndex stepName keys =>
    s!"Flow '{flowName}' step {stepIndex} ('{stepName}') would overwrite existing context key(s) " ++
      ", ".intercalate (keys.map Value.quote) ++
      "; on_context_collision='error' aborts rather than dropping earlier data."
  | .asyncLaneUnsupported flowName unsupported =>
    s!"Flow '{flowName}' uses features unsupported by execute_flow_async: " ++
      "; ".intercalate unsupported ++
      ". Run it via the synchronous execute_flow until the async lane reaches parity."
  | .flowComposition flowName reason detail =>
    s!"Invalid flow composition for '{flowName}' ({reason}): {detail}"
  | .checkpointDrift traceId flowName detail =>
    s!"Cannot resume trace '{traceId}' for flow '{flowName}': {detail}."
  | .checkpointerNotConfigured =>
    "FlowExecutor has no checkpointer configured. Pass checkpointer=... to FlowExecutor(...) to " ++
      "enable resume_flow."
  | .checkpointNotFound traceId => s!"No snapshot found for trace_id '{traceId}'."
  | .checkpointVersion traceId flowName snapshotVersion expectedVersion =>
    s!"Cannot resume trace '{traceId}' for flow '{flowName}': snapshot_version '{snapshotVersion}' " ++
      s!"is incompatible with this ChainWeaver (writes '{expectedVersion}'). Re-run from the start " ++
      "or resume with the matching library version."
  | .approvalDenied toolName stepIndex detail =>
    s!"Approval denied for tool '{toolName}' at step {stepIndex}: {stripDots detail}."
  | .safetyCeiling toolName stepIndex level ceiling =>
    s!"Tool '{toolName}' at step {stepIndex} has side-effect level '{level}' which exceeds the " ++
      s!"configured ceiling '{ceiling}'."
  | .guardrailViolation toolName stepIndex stage detail =>
    s!"Guardrail ({stage}) blocked tool '{toolName}' at step {stepIndex}: {stripDots detail}."
  | .decisionCallback toolName stepIndex detail =>
    s!"Decision callback for step {stepIndex} (default tool '{toolName}') failed: {detail}"
  | .decisionTimeout toolName stepIndex timeout =>
    s!"Decision callback for step {stepIndex} (default tool '{toolName}') exceeded the {timeout}s timeout."
  | .decisionBudgetExceeded flowName budget =>
    s!"Flow '{flowName}' exceeded its decision budget of {budget} decision callback(s) per execution."
  | .kernelInvocation capabilityId stepIndex detail =>
    s!"Kernel invocation for capability '{capabilityId}' at step {stepIndex} failed: {detail}"
  | .predicateSyntax predicate detail => s!"Invalid predicate '{predicate}': {detail}"
  | .validation message => message
  | .assertion => ""
  | .recursion => "maximum recursion depth exceeded"
  | .other _ message => message

def isValidation : Exc → Bool
  | .validation _ => true
  | _ => false

def ofPredicate : PredicateError → Exc
  | .predicateSyntax predicate detail => .predicateSyntax predicate detail
  | .raised name message => .other name message

end Exc

end ChainWeaver
