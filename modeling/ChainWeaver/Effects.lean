import ChainWeaver.Interaction.Prog
import ChainWeaver.Record

/-!
# What an executor asks of its surroundings

Tools, callbacks, the kernel, the cache, the checkpointer, the clock and the
middleware are all code outside the executor. Each is a kind of question here,
and so is the order in which concurrent steps are scheduled.
-/

namespace ChainWeaver

structure ToolChunk where
  data : Value
  isFinal : Bool := false

/-- One call of a tool's callable, with the step it is made for. -/
structure Invocation where
  traceId : String
  stepIndex : Int
  tool : Tool
  validated : Dict

/-- The middleware hooks, each with the context it is given. -/
inductive Hook
  | flowStart (traceId flowName flowVersion : String) (initialInput : Dict) (totalSteps : Nat)
  | stepStart (traceId flowName : String) (stepIndex : Int) (toolName : String) (inputs : Dict)
  | stepChunk (traceId flowName : String) (stepIndex : Int) (toolName : String) (chunk : ToolChunk)
  | stepEnd (traceId flowName : String) (record : StepRecord)
  | flowEnd (traceId flowName : String) (result : ExecutionResult)

structure DecisionContext where
  traceId : String
  flowName : String
  stepIndex : Int
  stepId : Option String
  defaultToolName : String
  candidates : List String
  context : Dict

structure ApprovalContext where
  traceId : String
  flowName : String
  stepIndex : Int
  stepId : Option String
  toolName : String
  inputs : Dict
  safety : ToolSafetyContract

inductive ApprovalReply
  | decision (decision : ApprovalDecision)
  /-- Something that is not an `ApprovalDecision`, by its `repr`. -/
  | other (repr : String)

/-- The guardrail context of the input stage, the only stage there is. -/
structure GuardrailContext where
  traceId : String
  flowName : String
  stepIndex : Int
  stepId : Option String
  toolName : String
  inputs : Dict

/-- The token a kernel is handed: the configured one, or a single-use token for
the capability. -/
inductive CapabilityToken
  | default
  | singleUse (capabilityId : String)
  deriving DecidableEq

structure KernelCall where
  capabilityId : String
  token : CapabilityToken
  inputs : Dict

structure StepCacheKey where
  toolName : String
  schemaHash : String
  inputValueHash : String
  deriving DecidableEq

inductive DryRunUnsupported
  | skip | abort
  deriving DecidableEq

/-- `_RunScopedState`. Run-within middleware is part of the hook question. -/
structure RunScopedState where
  activeFlowVersion : String := ""
  inReplay : Bool := false
  resumeSnapshot : Option ExecutionSnapshot := none
  dryRun : Bool := false
  dryRunUnsupported : DryRunUnsupported := .skip
  dynamicParams : Dict := .empty
  decisionCount : Nat := 0

/-- `_RunScopedState.copy`: everything but the decision count. -/
def RunScopedState.copy (state : RunScopedState) : RunScopedState :=
  { state with decisionCount := 0 }

/-- What a nested call is made for: a sub-flow step with the context it resolves its
inputs in, or a tool that wraps a flow. -/
inductive NestedOrigin
  | step (step : FlowStep) (context : Dict) (stepIndex : Int)
  | tool (tool : Tool) (inputs : Dict)

/-- Marks the executor does not make. A probe has no answer and no influence; it
records the state a run is in at one point, for statements about runs. -/
inductive Probe
  /-- An exception is about to be raised. -/
  | fault (e : Exc)
  /-- A call is about to raise before any flow has started for it. -/
  | refused (e : Exc)
  /-- The flow stops at one of its own step boundaries. -/
  | cancelled (traceId : String)
  /-- A flow starts to run. -/
  | enter (flow : AnyFlow) (state : RunScopedState)
  /-- A nested call of an entry point, from its start to its end. -/
  | nestedStart (origin : NestedOrigin) (input : Dict)
  | nestedEnd (origin : NestedOrigin) (raised : Bool)
  /-- The steps of a flow are about to start. -/
  | seed (traceId : String) (header : FlowHeader) (initialInput context : Dict) (log : List StepRecord)
      (level : Nat)
  /-- The callable of a tool is about to be entered. -/
  | invoke (traceId : String) (stepIndex : Int) (tool : Tool) (inputs : Dict)
  /-- The callable of a step's fallback tool is about to be entered. -/
  | fallback (traceId : String) (stepIndex : Int) (toolName fallbackName : String)
  /-- The inputs of a sub-flow step are about to be resolved. -/
  | subInputs (traceId : String) (stepIndex : Int) (step : FlowStep) (context : Dict)
  /-- A DAG step is about to be run or skipped. -/
  | visit (traceId : String) (step : DAGFlowStep) (skipped : List String)
  /-- A capability step is about to be dispatched. -/
  | capability (step : DAGFlowStep) (context : Dict)
  /-- The outputs of a DAG step are about to join those of its level. -/
  | place (traceId : String) (step : DAGFlowStep) (context outputs levelOutputs : Dict)
  /-- A step is refused that the asynchronous lane has no code for. -/
  | unsupported (traceId : String) (stepIndex : Nat) (step : DAGFlowStep)
  /-- Outputs are about to be merged into the context. -/
  | merge (traceId : String) (policy : ContextCollisionPolicy) (context outputs : Dict)
  /-- All steps of a flow are done. -/
  | finish (header : FlowHeader) (context : Dict)

inductive EffectKind
  | newTraceId
  | hook
  | probe
  | callTool
  | runDry
  | stream
  | decide
  | decideTimed
  | approve
  | check
  | kernelInvoke
  | cacheGet
  | cacheSet
  | save
  | load
  | delete
  | clock
  | isCancelled
  | schedule
  deriving DecidableEq

namespace EffectKind

abbrev Query : EffectKind → Type
  | .newTraceId => Unit
  | .hook => Hook
  | .probe => Probe
  | .callTool => Invocation
  | .runDry => Invocation
  | .stream => Invocation
  | .decide => DecisionContext
  | .decideTimed => DecisionContext
  | .approve => ApprovalContext
  | .check => GuardrailContext
  | .kernelInvoke => KernelCall
  | .cacheGet => StepCacheKey
  | .cacheSet => StepCacheKey × Dict
  | .save => ExecutionSnapshot
  | .load => String
  | .delete => String
  | .clock => Unit
  | .isCancelled => Unit
  | .schedule => Unit

abbrev Reply : EffectKind → Type
  | .newTraceId => String
  | .hook => Unit
  | .probe => Unit
  | .callTool => Except Exc Value
  | .runDry => Except Exc Value
  /- The chunks the stream yields, and the exception that ends it, if one does. -/
  | .stream => List ToolChunk × Option Exc
  | .decide => Except Exc String
  /- `none`: the callback did not answer in time. -/
  | .decideTimed => Option (Except Exc String)
  | .approve => Except Exc ApprovalReply
  | .check => Except Exc Unit
  | .kernelInvoke => Except Exc Value
  | .cacheGet => Except Exc (Option Dict)
  | .cacheSet => Except Exc Unit
  | .save => Except Exc Unit
  | .load => Except Exc (Option ExecutionSnapshot)
  | .delete => Except Exc Unit
  | .clock => Int
  | .isCancelled => Bool
  /- Which of the running steps moves next, as long as the list lasts. -/
  | .schedule => List Nat

end EffectKind

abbrev Effects : Interaction.Signature :=
  { Kind := EffectKind, Query := EffectKind.Query, Reply := EffectKind.Reply }

abbrev Event := Interaction.Event Effects

/-- Executor code: it may raise, and it reads and writes the run-within state. -/
abbrev Exec := Interaction.Comp Effects Exc RunScopedState

def perform (kind : EffectKind) (query : kind.Query) : Exec kind.Reply :=
  Interaction.Comp.ask (S := Effects) kind query

def fire (hook : Hook) : Exec Unit := perform .hook hook

def probe (mark : Probe) : Exec Unit := perform .probe mark

def raise (e : Exc) : Exec α := do
  probe (.fault e)
  throw e

/-- `try … except Exception`. -/
def attempt (body : Exec α) : Exec (Except Exc α) := Interaction.Comp.attempt body

/-- Raises again what `attempt` caught. -/
def rethrow : Except Exc α → Exec α
  | .ok value => pure value
  | .error e => throw e

/-- A call back into an entry point of the executor. -/
def nestedCall (origin : NestedOrigin) (input : Dict) (body : Exec α) : Exec α := do
  probe (.nestedStart origin input)
  let outcome ← attempt body
  probe (.nestedEnd origin !outcome.isOk)
  rethrow outcome

/-- What a call that may raise gave, its exception raised in turn. -/
def ofExcept : Except Exc α → Exec α
  | .ok value => pure value
  | .error e => raise e

/-- `raise` and `ofExcept` where no flow has started yet. -/
def refuse (e : Exc) : Exec α := do
  probe (.refused e)
  throw e

def orRefuse : Except Exc α → Exec α
  | .ok value => pure value
  | .error e => refuse e

/-- `with self._run_scope()`. -/
def withScope (enter : RunScopedState → RunScopedState) (body : Exec α) : Exec α :=
  Interaction.Comp.within enter body

end ChainWeaver
