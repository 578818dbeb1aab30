import ChainWeaver.Value

/-!
# Flows, steps and tools

The data model of `flow/`, `contracts.py` and `tools.py`: what a flow author
writes down. The Pydantic validators of a class are a field of its structure, so
a value that Python refuses to build is not a value here either.
-/

namespace ChainWeaver

-- Safety contracts

inductive SideEffectLevel
  | none | read | write | external | destructive
  deriving DecidableEq, Repr

def SideEffectLevel.value : SideEffectLevel → String
  | .none => "none" | .read => "read" | .write => "write" | .external => "external"
  | .destructive => "destructive"

def SideEffectLevel.order : SideEffectLevel → Nat
  | .none => 0 | .read => 1 | .write => 2 | .external => 3 | .destructive => 4

def SideEffectLevel.readOnly (level : SideEffectLevel) : Bool := level = .none || level = .read

theorem SideEffectLevel.readOnly_none : SideEffectLevel.none.readOnly = true := rfl

def sideEffectExceeds (level ceiling : SideEffectLevel) : Bool := level.order > ceiling.order

inductive StabilityLevel
  | stable | bestEffort | unstable
  deriving DecidableEq, Repr

inductive DeterminismLevel
  | full | partly | none
  deriving DecidableEq, Repr

structure ToolSafetyContract where
  sideEffects : SideEffectLevel := .none
  readOnly : Bool := sideEffects.readOnly
  stability : StabilityLevel := .stable
  determinismLevel : DeterminismLevel := .full
  idempotent : Bool := true
  cacheable : Bool := true
  safeToRetry : Bool := true
  supportsDryRun : Bool := false
  requiresApproval : Bool := false
  approvalReason : Option String := none
  /-- `_validate_read_only`. -/
  readOnly_eq : readOnly = sideEffects.readOnly := by rfl
  deriving DecidableEq

/-- Not one of the levels a dry run lets through. -/
def ToolSafetyContract.sideEffecting (contract : ToolSafetyContract) : Bool :=
  !contract.sideEffects.readOnly

-- Tools

/-- A Pydantic model class, by its qualified name. -/
abbrev Schema := String

/-- What stands behind a tool: a callable the host supplies, a registered flow
(`Tool.from_flow`, with the tool name and step count its closure captured), or a
chunk stream (`StreamingTool`). -/
inductive ToolFn
  | callable
  | flow (flowName toolName : String) (stepCount : Nat)
  | stream
  deriving DecidableEq

structure Tool where
  name : String
  inputSchema : Schema
  outputSchema : Schema
  fn : ToolFn := .callable
  maxOutputSize : Option Nat := none
  cacheable : Bool := true
  safety : ToolSafetyContract := {}
  hasDryRunFn : Bool := false
  schemaHash : String := ""
  /-- The constructor reconciles the two settings and refuses a conflict. -/
  cacheable_eq : cacheable = safety.cacheable := by rfl
  dryRun_supplied : safety.supportsDryRun = true → hasDryRunFn = true := by decide
  deriving DecidableEq

def Tool.supportsDryRun (tool : Tool) : Bool := tool.safety.supportsDryRun

def Tool.isStreaming (tool : Tool) : Bool := tool.fn = .stream

-- Steps

structure RetryPolicy where
  maxRetries : Nat := 3
  retryableErrors : List String := ["builtins:Exception"]
  deriving DecidableEq

/-- `on_error`, with the name after `fallback:`. -/
inductive OnError
  | fail
  | skip
  | fallback (toolName : String)
  deriving DecidableEq

/-- `tool_name` and `flow_name`, of which exactly one is set. -/
inductive Target
  | tool (name : String)
  | flow (name : String)
  deriving DecidableEq

/-- The validators on `decision_candidates`: a non-empty list without duplicates
that holds the default tool, and none on a sub-flow step. -/
def candidatesValid : Target → Option (List String) → Bool
  | _, none => true
  | .tool name, some names => !names.isEmpty && names.Nodup && names.contains name
  | .flow _, some _ => false

structure FlowStep where
  target : Target
  inputMapping : Dict := .empty
  outputMapping : Option (OrderedDict String) := none
  retry : Option RetryPolicy := none
  onError : OnError := .fail
  decisionCandidates : Option (List String) := none
  inputContract : Option String := none
  outputContract : Option String := none
  candidates_valid : candidatesValid target decisionCandidates = true := by rfl

namespace FlowStep

def flowName? (step : FlowStep) : Option String :=
  match step.target with
  | .tool _ => none
  | .flow name => some name

/-- `tool_name or flow_name`, `none` where the assertion after it fails: an empty
tool name is falsy. -/
def displayName? (step : FlowStep) : Option String :=
  match step.target with
  | .tool name => if name = "" then none else some name
  | .flow name => some name

theorem candidatesValid_chosen (step : FlowStep) (h : step.decisionCandidates = some names)
    (hc : names.contains chosen = true) :
    candidatesValid (.tool chosen) step.decisionCandidates = true := by
  have hv := step.candidates_valid
  rw [h] at hv ⊢
  cases ht : step.target with
  | tool name =>
    simp only [ht, candidatesValid, Bool.and_eq_true] at hv ⊢
    exact ⟨hv.1, hc⟩
  | flow name => simp [ht, candidatesValid] at hv

/-- `step.model_copy(update={"tool_name": chosen})`. -/
def withTool (step : FlowStep) (chosen : String)
    (h : candidatesValid (.tool chosen) step.decisionCandidates = true) : FlowStep :=
  { step with target := .tool chosen, candidates_valid := h }

end FlowStep

structure ConditionalEdge where
  targetStepId : String
  predicate : String
  deriving DecidableEq

inductive StepType
  | tool | capability
  deriving DecidableEq

def StepType.value : StepType → String
  | .tool => "tool" | .capability => "capability"

/-- The three validators of `DAGFlowStep`. -/
def dagStepValid (stepType : StepType) (capabilityId : Option String)
    (branches : List ConditionalEdge) (defaultNext : Option String) : Bool :=
  (stepType = .capability || capabilityId.isNone) && (defaultNext.isNone || !branches.isEmpty) &&
    (stepType = .tool || branches.isEmpty)

structure DAGFlowStep extends FlowStep where
  stepId : String
  dependsOn : List String := []
  stepType : StepType := .tool
  capabilityId : Option String := none
  branches : List ConditionalEdge := []
  defaultNext : Option String := none
  dag_valid : dagStepValid stepType capabilityId branches defaultNext = true := by rfl

-- Flows

inductive FlowStatus
  | active | needsReview | disabled
  deriving DecidableEq

def FlowStatus.value : FlowStatus → String
  | .active => "active" | .needsReview => "needs_review" | .disabled => "disabled"

inductive ContextCollisionPolicy
  | overwrite | warn | error
  deriving DecidableEq

/-- The fields `Flow` and `DAGFlow` share. -/
structure FlowHeader where
  name : String
  version : String := "0.1.0"
  status : FlowStatus := .active
  inputSchemaRef : Option String := none
  outputSchemaRef : Option String := none
  contextSchemaRef : Option String := none
  onContextCollision : ContextCollisionPolicy := .warn

structure Flow extends FlowHeader where
  steps : List FlowStep

structure DAGFlow extends FlowHeader where
  steps : List DAGFlowStep

inductive AnyFlow
  | linear (flow : Flow)
  | dag (flow : DAGFlow)

namespace AnyFlow

def header : AnyFlow → FlowHeader
  | .linear flow => flow.toFlowHeader
  | .dag flow => flow.toFlowHeader

def steps : AnyFlow → List FlowStep
  | .linear flow => flow.steps
  | .dag flow => flow.steps.map DAGFlowStep.toFlowStep

def isDag : AnyFlow → Bool
  | .linear _ => false
  | .dag _ => true

end AnyFlow

/-- `step_index.py`: the index of the record of a failed flow input validation. -/
def flowInputStepIndex : Int := -1

/-- `step_index.py`: one past the last step, for a failed flow output validation. -/
def flowOutputStepIndex (steps : List α) : Int := steps.length

end ChainWeaver
