import ChainWeaver.Flow
import ChainWeaver.KeyOrder

/-!
# Flow documents

Flows with every field that their classes declare, and their JSON documents:
`model_dump(mode="json")` and `model_validate`.
-/

namespace ChainWeaver

-- Reading documents

namespace Json

def field (json : Json) (name : String) : Option Json :=
  match json with
  | .object entries => entries.lookup name
  | _ => none

@[simp] theorem field_object (entries : List (String × Json)) (name : String) :
    (Json.object entries).field name = entries.lookup name := rfl

theorem field_sorted (json : Json) (name : String) : json.sorted.field name = (json.field name).map sorted := by
  cases json with
  | object entries =>
    rw [sorted, field_object, field_object, SortedEntries.lookup_sort, sortedEntries_eq_map,
      SortedEntries.lookup_map]
  | _ => rfl

def asStr? : Json → Option String
  | .str s => some s
  | _ => none

def asBool? : Json → Option Bool
  | .bool b => some b
  | _ => none

def asNat? : Json → Option Nat
  | .int (.ofNat n) => some n
  | _ => none

def asFloat? : Json → Option PyFloat
  | .float f => some f
  | .int i => some (.finite i)
  | _ => none

def asListOf? (element : Json → Option α) : Json → Option (List α)
  | .array items => items.mapM element
  | _ => none

/-- A value or `null`. -/
def orNull (element : Json → Option α) : Json → Option (Option α)
  | .null => some none
  | json => (element json).map some

/-- A dict of any values; of two entries with one key the later wins. -/
def asDict? : Json → Option Dict
  | .object entries => some (.ofList (readEntries entries))
  | _ => none

def asStrDict? : Json → Option (OrderedDict String)
  | .object entries => do
    let pairs ← entries.mapM fun entry => (asStr? entry.2).map fun s => (entry.1, s)
    some (.ofList pairs)
  | _ => none

def required (json : Json) (name : String) (element : Json → Option α) : Option α :=
  (json.field name).bind element

def optional (json : Json) (name : String) (default : α) (element : Json → Option α) : Option α :=
  match json.field name with
  | some value => element value
  | none => some default

/-- The object without some of its keys. -/
def without (names : List String) : Json → Json
  | .object entries => .object (entries.filter fun entry => !names.contains entry.1)
  | json => json

/-- The value of an enumeration, by its text. -/
def asOneOf? (members : List α) (text : α → String) (json : Json) : Option α :=
  json.asStr?.bind fun s => members.find? fun member => text member = s

end Json

-- Retries and steps

def PyFloat.atLeast (bound : Rat) : PyFloat → Bool
  | .finite value => bound ≤ value
  | .infinite => true
  | .negInfinite | .nan => false

/-- `RetryPolicy` with the settings of its waits. -/
structure FullRetry extends RetryPolicy where
  backoffSeconds : PyFloat := .finite 1
  backoffMultiplier : PyFloat := .finite 2
  jitter : Bool := false
  backoffSeconds_valid : backoffSeconds.atLeast 0 = true := by rfl
  backoffMultiplier_valid : backoffMultiplier.atLeast 1 = true := by rfl
  /-- `_validate_retryable_errors`. -/
  retryableErrors_valid : (!retryableErrors.isEmpty && retryableErrors.all (·.toList.contains ':')) = true := by rfl

/-- `FlowStep` with the whole retry policy. -/
structure FullStep where
  target : Target
  inputMapping : Dict := .empty
  outputMapping : Option (OrderedDict String) := none
  retry : Option FullRetry := none
  onError : OnError := .fail
  decisionCandidates : Option (List String) := none
  inputContract : Option String := none
  outputContract : Option String := none
  candidates_valid : candidatesValid target decisionCandidates = true := by rfl
  /-- `_validate_on_error`. -/
  onError_valid : onError ≠ .fallback "" := by nofun

/-- What the executor reads of the step. -/
def FullStep.toFlowStep (step : FullStep) : FlowStep where
  target := step.target
  inputMapping := step.inputMapping
  outputMapping := step.outputMapping
  retry := step.retry.map (·.toRetryPolicy)
  onError := step.onError
  decisionCandidates := step.decisionCandidates
  inputContract := step.inputContract
  outputContract := step.outputContract
  candidates_valid := step.candidates_valid

structure FullDagStep extends FullStep where
  stepId : String
  dependsOn : List String := []
  stepType : StepType := .tool
  capabilityId : Option String := none
  branches : List ConditionalEdge := []
  defaultNext : Option String := none
  dag_valid : dagStepValid stepType capabilityId branches defaultNext = true := by rfl

-- Flows

inductive FlowLifecycle
  | observed | suggested | draft | reviewed | active | ignored | archived
  deriving DecidableEq

structure FlowGovernance where
  lifecycle : FlowLifecycle := .active
  owner : Option String := none
  replacesTools : List String := []
  estimatedModelCallsRemoved : Nat := 0
  estimatedTokenSavings : Option Nat := none
  reviewedBy : Option String := none
  reviewNotes : Option String := none
  deriving DecidableEq

structure FullHeader extends FlowHeader where
  description : String
  deterministic : Bool := true
  triggerConditions : Option Dict := none
  toolSchemaHashes : Option (OrderedDict String) := none
  capabilityId : Option String := none
  governance : FlowGovernance := {}
  safety : Option ToolSafetyContract := none
  dynamicParams : List String := []

/-- The steps of a `Flow` or of a `DAGFlow`. -/
inductive FullSteps
  | linear (steps : List FullStep)
  | dag (steps : List FullDagStep)

structure FullFlow extends FullHeader where
  steps : FullSteps

def FullSteps.isDag : FullSteps → Bool
  | .linear _ => false
  | .dag _ => true

-- Writing

def OnError.text : OnError → String
  | .fail => "fail"
  | .skip => "skip"
  | .fallback toolName => "fallback:" ++ toolName

def FlowLifecycle.text : FlowLifecycle → String
  | .observed => "observed" | .suggested => "suggested" | .draft => "draft" | .reviewed => "reviewed"
  | .active => "active" | .ignored => "ignored" | .archived => "archived"

def StabilityLevel.text : StabilityLevel → String
  | .stable => "stable" | .bestEffort => "best_effort" | .unstable => "unstable"

def DeterminismLevel.text : DeterminismLevel → String
  | .full => "full" | .partly => "partial" | .none => "none"

def ContextCollisionPolicy.text : ContextCollisionPolicy → String
  | .overwrite => "overwrite" | .warn => "warn" | .error => "error"

namespace Json

def ofOption (write : α → Json) : Option α → Json
  | some value => write value
  | none => .null

def ofStrings (texts : List String) : Json := .array (texts.map .str)

def ofStrDict (dict : OrderedDict String) : Json := .object (dict.entries.map fun entry => (entry.1, .str entry.2))

end Json

section
variable (writer : JsonWriter)

def FullRetry.document (retry : FullRetry) : Json :=
  .object
    [("max_retries", .int retry.maxRetries), ("backoff_seconds", writer.writeFloat retry.backoffSeconds),
     ("backoff_multiplier", writer.writeFloat retry.backoffMultiplier), ("jitter", .bool retry.jitter),
     ("retryable_errors", .ofStrings retry.retryableErrors)]

def Target.toolName? : Target → Option String
  | .tool name => some name
  | .flow _ => none

def Target.flowName? : Target → Option String
  | .tool _ => none
  | .flow name => some name

/-- The fields of the step's document, with the document of its input mapping. -/
def FullStep.fieldsWith (step : FullStep) (inputMapping : Json) : List (String × Json) :=
  [("tool_name", .ofOption .str step.target.toolName?), ("flow_name", .ofOption .str step.target.flowName?),
   ("input_mapping", inputMapping), ("output_mapping", .ofOption .ofStrDict step.outputMapping),
   ("retry", .ofOption (FullRetry.document writer) step.retry), ("on_error", .str step.onError.text),
   ("decision_candidates", .ofOption .ofStrings step.decisionCandidates),
   ("input_contract", .ofOption .str step.inputContract),
   ("output_contract", .ofOption .str step.outputContract)]

def FullStep.fields (step : FullStep) : Option (List (String × Json)) :=
  (writer.writeEntries step.inputMapping.entries).map fun entries => step.fieldsWith writer (.object entries)

def FullStep.document (step : FullStep) : Option Json := (step.fields writer).map .object

def ConditionalEdge.document (edge : ConditionalEdge) : Json :=
  .object [("target_step_id", .str edge.targetStepId), ("predicate", .str edge.predicate)]

def FullDagStep.dagFields (step : FullDagStep) : List (String × Json) :=
  [("step_id", .str step.stepId), ("depends_on", .ofStrings step.dependsOn),
   ("step_type", .str step.stepType.value), ("capability_id", .ofOption .str step.capabilityId),
   ("branches", .array (step.branches.map ConditionalEdge.document)),
   ("default_next", .ofOption .str step.defaultNext)]

def FullDagStep.document (step : FullDagStep) : Option Json :=
  (step.toFullStep.fields writer).map fun fields => .object (fields ++ step.dagFields)

def FlowGovernance.document (governance : FlowGovernance) : Json :=
  .object
    [("lifecycle", .str governance.lifecycle.text), ("owner", .ofOption .str governance.owner),
     ("replaces_tools", .ofStrings governance.replacesTools),
     ("estimated_model_calls_removed", .int governance.estimatedModelCallsRemoved),
     ("estimated_token_savings", .ofOption (fun n : Nat => .int n) governance.estimatedTokenSavings),
     ("reviewed_by", .ofOption .str governance.reviewedBy),
     ("review_notes", .ofOption .str governance.reviewNotes)]

def ToolSafetyContract.document (contract : ToolSafetyContract) : Json :=
  .object
    [("side_effects", .str contract.sideEffects.value), ("read_only", .bool contract.readOnly),
     ("stability", .str contract.stability.text), ("determinism_level", .str contract.determinismLevel.text),
     ("idempotent", .bool contract.idempotent), ("cacheable", .bool contract.cacheable),
     ("safe_to_retry", .bool contract.safeToRetry), ("supports_dry_run", .bool contract.supportsDryRun),
     ("requires_approval", .bool contract.requiresApproval),
     ("approval_reason", .ofOption .str contract.approvalReason)]

def FullSteps.documents : FullSteps → Option (List Json)
  | .linear steps => steps.mapM (FullStep.document writer)
  | .dag steps => steps.mapM (FullDagStep.document writer)

def optionalEntries : Option Dict → Option Json
  | some data => (writer.writeEntries data.entries).map .object
  | none => some .null

def FullFlow.fieldsWith (flow : FullFlow) (steps triggerConditions : Json) : List (String × Json) :=
  [("name", .str flow.name), ("version", .str flow.version), ("description", .str flow.description),
   ("steps", steps), ("deterministic", .bool flow.deterministic), ("status", .str flow.status.value),
   ("trigger_conditions", triggerConditions), ("input_schema_ref", .ofOption .str flow.inputSchemaRef),
   ("output_schema_ref", .ofOption .str flow.outputSchemaRef),
   ("context_schema_ref", .ofOption .str flow.contextSchemaRef),
   ("tool_schema_hashes", .ofOption .ofStrDict flow.toolSchemaHashes),
   ("capability_id", .ofOption .str flow.capabilityId), ("governance", flow.governance.document),
   ("safety", .ofOption ToolSafetyContract.document flow.safety),
   ("on_context_collision", .str flow.onContextCollision.text),
   ("dynamic_params", .ofStrings flow.dynamicParams)]

/-- `flow.model_dump(mode="json")`, `none` where a literal has no JSON form. -/
def FullFlow.fields (flow : FullFlow) : Option (List (String × Json)) := do
  let steps ← flow.steps.documents writer
  let triggerConditions ← optionalEntries writer flow.triggerConditions
  pure (flow.fieldsWith (.array steps) triggerConditions)

end

-- Validating

/-- The text after a prefix. -/
def afterPrefix : List Char → List Char → Option (List Char)
  | [], text => some text
  | c :: rest, d :: text => if c = d then afterPrefix rest text else none
  | _ :: _, [] => none

theorem OnError.fallback_cons (c : Char) (rest : List Char) :
    OnError.fallback (String.ofList (c :: rest)) ≠ .fallback "" := by
  intro h
  have hnil : (String.ofList (c :: rest)).toList = "".toList := congrArg String.toList (OnError.fallback.inj h)
  simp at hnil

theorem OnError.fail_ne_fallback (toolName : String) : OnError.fail ≠ .fallback toolName := nofun

/-- `_validate_on_error`. -/
def OnError.ofText (text : String) : Option { onError : OnError // onError ≠ .fallback "" } :=
  if text = "fail" then some ⟨.fail, OnError.fail_ne_fallback ""⟩
  else if text = "skip" then some ⟨.skip, nofun⟩
  else
    match afterPrefix "fallback:".toList text.toList with
    | some (c :: rest) => some ⟨.fallback (String.ofList (c :: rest)), OnError.fallback_cons c rest⟩
    | _ => none

def FullRetry.validate (json : Json) : Option FullRetry := do
  let maxRetries ← json.optional "max_retries" 3 Json.asNat?
  let backoffSeconds ← json.optional "backoff_seconds" (.finite 1) Json.asFloat?
  let backoffMultiplier ← json.optional "backoff_multiplier" (.finite 2) Json.asFloat?
  let jitter ← json.optional "jitter" false Json.asBool?
  let retryableErrors ← json.optional "retryable_errors" ["builtins:Exception"] (Json.asListOf? Json.asStr?)
  if h : backoffSeconds.atLeast 0 = true ∧ backoffMultiplier.atLeast 1 = true ∧
      (!retryableErrors.isEmpty && retryableErrors.all (·.toList.contains ':')) = true then
    some
      { maxRetries, backoffSeconds, backoffMultiplier, jitter, retryableErrors
        backoffSeconds_valid := h.1, backoffMultiplier_valid := h.2.1, retryableErrors_valid := h.2.2 }
  else none

/-- `_check_tool_or_flow`, on the two names. -/
def Target.ofNames : Option String → Option String → Option Target
  | some toolName, none => some (.tool toolName)
  | none, some flowName => some (.flow flowName)
  | _, _ => none

/-- The fields of a `FlowStep`; a missing field has its default. -/
def FullStep.validate (json : Json) : Option FullStep := do
  let toolName ← json.optional "tool_name" none (Json.orNull Json.asStr?)
  let flowName ← json.optional "flow_name" none (Json.orNull Json.asStr?)
  let target ← Target.ofNames toolName flowName
  let inputMapping ← json.optional "input_mapping" .empty Json.asDict?
  let outputMapping ← json.optional "output_mapping" none (Json.orNull Json.asStrDict?)
  let retry ← json.optional "retry" none (Json.orNull FullRetry.validate)
  let onErrorText ← json.optional "on_error" "fail" Json.asStr?
  let onError ← OnError.ofText onErrorText
  let decisionCandidates ← json.optional "decision_candidates" none (Json.orNull (Json.asListOf? Json.asStr?))
  let inputContract ← json.optional "input_contract" none (Json.orNull Json.asStr?)
  let outputContract ← json.optional "output_contract" none (Json.orNull Json.asStr?)
  if hcandidates : candidatesValid target decisionCandidates = true then
    some
      { target, inputMapping, outputMapping, retry, decisionCandidates, inputContract, outputContract
        onError := onError.val, onError_valid := onError.property, candidates_valid := hcandidates }
  else none

def ConditionalEdge.validate (json : Json) : Option ConditionalEdge := do
  let targetStepId ← json.required "target_step_id" Json.asStr?
  let predicate ← json.required "predicate" Json.asStr?
  pure { targetStepId, predicate }

def FullDagStep.validate (json : Json) : Option FullDagStep := do
  let step ← FullStep.validate json
  let stepId ← json.required "step_id" Json.asStr?
  let dependsOn ← json.optional "depends_on" [] (Json.asListOf? Json.asStr?)
  let stepType ← json.optional "step_type" .tool (Json.asOneOf? [.tool, .capability] StepType.value)
  let capabilityId ← json.optional "capability_id" none (Json.orNull Json.asStr?)
  let branches ← json.optional "branches" [] (Json.asListOf? ConditionalEdge.validate)
  let defaultNext ← json.optional "default_next" none (Json.orNull Json.asStr?)
  if hvalid : dagStepValid stepType capabilityId branches defaultNext = true then
    some
      { toFullStep := step, stepId, dependsOn, stepType, capabilityId, branches, defaultNext
        dag_valid := hvalid }
  else none

def FlowGovernance.validate (json : Json) : Option FlowGovernance := do
  let lifecycle ← json.optional "lifecycle" .active (Json.asOneOf?
    [.observed, .suggested, .draft, .reviewed, .active, .ignored, .archived] FlowLifecycle.text)
  let owner ← json.optional "owner" none (Json.orNull Json.asStr?)
  let replacesTools ← json.optional "replaces_tools" [] (Json.asListOf? Json.asStr?)
  let estimatedModelCallsRemoved ← json.optional "estimated_model_calls_removed" 0 Json.asNat?
  let estimatedTokenSavings ← json.optional "estimated_token_savings" none (Json.orNull Json.asNat?)
  let reviewedBy ← json.optional "reviewed_by" none (Json.orNull Json.asStr?)
  let reviewNotes ← json.optional "review_notes" none (Json.orNull Json.asStr?)
  pure
    { lifecycle, owner, replacesTools, estimatedModelCallsRemoved, estimatedTokenSavings, reviewedBy
      reviewNotes }

/-- `_normalise_input` supplies a missing `read_only` and takes the older name of
`requires_approval`. -/
def ToolSafetyContract.validate (json : Json) : Option ToolSafetyContract := do
  let sideEffects ← json.optional "side_effects" .none (Json.asOneOf?
    [.none, .read, .write, .external, .destructive] SideEffectLevel.value)
  let readOnly ← json.optional "read_only" sideEffects.readOnly Json.asBool?
  let stability ← json.optional "stability" .stable (Json.asOneOf? [.stable, .bestEffort, .unstable]
    StabilityLevel.text)
  let determinismLevel ← json.optional "determinism_level" .full (Json.asOneOf? [.full, .partly, .none]
    DeterminismLevel.text)
  let idempotent ← json.optional "idempotent" true Json.asBool?
  let cacheable ← json.optional "cacheable" true Json.asBool?
  let safeToRetry ← json.optional "safe_to_retry" true Json.asBool?
  let supportsDryRun ← json.optional "supports_dry_run" false Json.asBool?
  let requiresReview ← json.optional "requires_review" none fun value => (Json.asBool? value).map some
  let requiresApproval ← json.optional "requires_approval" (requiresReview.getD false) Json.asBool?
  let approvalReason ← json.optional "approval_reason" none (Json.orNull Json.asStr?)
  if hvalid : readOnly = sideEffects.readOnly ∧ requiresReview.getD requiresApproval = requiresApproval then
    some
      { sideEffects, readOnly, stability, determinismLevel, idempotent, cacheable, safeToRetry, supportsDryRun
        requiresApproval, approvalReason, readOnly_eq := hvalid.1 }
  else none

def FullSteps.validate (isDag : Bool) (json : Json) : Option FullSteps :=
  if isDag then (json.asListOf? FullDagStep.validate).map .dag else (json.asListOf? FullStep.validate).map .linear

/-- `Flow.model_validate` or `DAGFlow.model_validate`, `none` where it raises. -/
def FullFlow.validate (isDag : Bool) (json : Json) : Option FullFlow := do
  let name ← json.required "name" Json.asStr?
  let version ← if isDag then json.required "version" Json.asStr? else json.optional "version" "0.1.0" Json.asStr?
  let description ← json.required "description" Json.asStr?
  let steps ← json.required "steps" (FullSteps.validate isDag)
  let deterministic ← json.optional "deterministic" true Json.asBool?
  let status ← json.optional "status" .active (Json.asOneOf? [.active, .needsReview, .disabled] FlowStatus.value)
  let triggerConditions ← json.optional "trigger_conditions" none (Json.orNull Json.asDict?)
  let inputSchemaRef ← json.optional "input_schema_ref" none (Json.orNull Json.asStr?)
  let outputSchemaRef ← json.optional "output_schema_ref" none (Json.orNull Json.asStr?)
  let contextSchemaRef ← json.optional "context_schema_ref" none (Json.orNull Json.asStr?)
  let toolSchemaHashes ← json.optional "tool_schema_hashes" none (Json.orNull Json.asStrDict?)
  let capabilityId ← json.optional "capability_id" none (Json.orNull Json.asStr?)
  let governance ← json.optional "governance" {} FlowGovernance.validate
  let safety ← json.optional "safety" none (Json.orNull ToolSafetyContract.validate)
  let onContextCollision ← json.optional "on_context_collision" .warn (Json.asOneOf? [.overwrite, .warn, .error]
    ContextCollisionPolicy.text)
  let dynamicParams ← json.optional "dynamic_params" [] (Json.asListOf? Json.asStr?)
  pure
    { name, version, status, inputSchemaRef, outputSchemaRef, contextSchemaRef, onContextCollision, description
      deterministic, triggerConditions, toolSchemaHashes, capabilityId, governance, safety, dynamicParams, steps }

end ChainWeaver
