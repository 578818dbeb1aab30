import ChainWeaver.Step

/-!
# Linear flows

The step loop of a linear flow exists four times in the source: fresh and
resumed, synchronous and asynchronous. `LinearMode` names the copy; the copies
differ in cancellation, in how outputs are merged and in the checks at the end.
-/

namespace ChainWeaver

/-- A part of a run either ends the run with a result or leaves a state to go on
from. -/
inductive Progress (α : Type)
  | ended (result : ExecutionResult)
  | going (state : α)

structure LinearMode where
  lane : Lane
  resumed : Bool

namespace Executor

variable (executor : Executor)

/-- The flow-level checks on the final context, and the result. The asynchronous
loops do not look at the context schema. -/
def finishFlow (info : RunInfo) (header : FlowHeader) (stepCount : Int) (checkContext : Bool)
    (context : Dict) (log : List StepRecord) : Exec ExecutionResult := do
  let outputFailure ← ofExcept
    (executor.validateFlowSchema info.flowName context header.outputSchemaRef stepCount "flow_output")
  match outputFailure with
  | some record => executor.makeResult info false none (log ++ [record]) (some log.length)
  | none =>
    probe (.finish header context)
    let contextRef := if checkContext then header.contextSchemaRef else none
    let contextFailure ← ofExcept
      (executor.validateFlowSchema info.flowName context contextRef stepCount "flow_context")
    match contextFailure with
    | some record => executor.makeResult info false none (log ++ [record]) (some log.length)
    | none => executor.makeResult info true (some context) log

/-- The end of a step inside the loop: outputs into the context. A fresh run
merges under the flow's collision policy, a resumed run overwrites. -/
def mergeOutputs (mode : LinearMode) (info : RunInfo) (policy : ContextCollisionPolicy) (step : FlowStep)
    (stepIndex : Nat) (context : Dict) (record : StepRecord) : Exec Dict := do
  match record.outputs with
  | none =>
    if mode.resumed then raise .assertion
    else
      let name ← displayName step
      raise (.other "RuntimeError" s!"Step {stepIndex} ({name}) succeeded but produced no outputs")
  | some outputs =>
    let name ← displayName step
    let mapped ← ofExcept (applyOutputMapping outputs step.outputMapping name stepIndex)
    probe (.merge info.traceId policy context mapped)
    if mode.resumed then pure (context.update mapped)
    else ofExcept (mergeMapped context mapped policy info.flowName stepIndex name)

/-- A resumed run has no deadline and no token. -/
def checkTurn (mode : LinearMode) (info : RunInfo) (stepIndex : Nat) (cancellation : Cancellation)
    (log : List StepRecord) : Exec Unit :=
  if mode.resumed then pure () else executor.checkCancellation info stepIndex cancellation log

/-- One turn of the loop. -/
def linearStep (mode : LinearMode) (nested : Nested) (info : RunInfo) (flow : Flow)
    (cancellation : Cancellation) (stepIndex : Nat) (step : FlowStep) (context : Dict)
    (log : List StepRecord) : Exec (Progress (Dict × List StepRecord)) := do
  executor.checkTurn mode info stepIndex cancellation log
  let stepInfo : StepInfo := { traceId := info.traceId, flowName := info.flowName, stepIndex, stepId := none }
  let outcome ← attempt (executor.executeStepIn mode.lane nested stepInfo step context cancellation)
  match outcome with
  | .error (.flowCancelled name index sub deadlineExceeded tokenCancelled) =>
    let e := Exc.flowCancelled name index sub deadlineExceeded tokenCancelled
    -- Only a fresh run hands its deadline and token on, and only it re-anchors.
    if mode.resumed then throw e
    else
      executor.reraiseSubflowCancellation info step stepIndex log sub e.message deadlineExceeded
        tokenCancelled
  | .error e => throw e
  | .ok record =>
    let log := log ++ [record]
    if !record.success then pure (.ended (← executor.makeResult info false none log))
    else
      let context ← mergeOutputs mode info flow.onContextCollision step stepIndex context record
      executor.saveSnapshot info (.linear flow) context log (stepIndex + 1)
      pure (.going (context, log))

def linearLoop (mode : LinearMode) (nested : Nested) (info : RunInfo) (flow : Flow)
    (cancellation : Cancellation) :
    List FlowStep → Nat → Dict → List StepRecord → Exec (Progress (Dict × List StepRecord))
  | [], _, context, log => pure (.going (context, log))
  | step :: rest, stepIndex, context, log => do
    match ← executor.linearStep mode nested info flow cancellation stepIndex step context log with
    | .ended result => pure (.ended result)
    | .going (context, log) =>
      linearLoop mode nested info flow cancellation rest (stepIndex + 1) context log

/-- The loop from `start` on and what follows it. -/
def linearFrom (mode : LinearMode) (nested : Nested) (info : RunInfo) (flow : Flow)
    (cancellation : Cancellation) (start : Nat) (context : Dict) (log : List StepRecord) :
    Exec ExecutionResult := do
  match ← executor.linearLoop mode nested info flow cancellation (flow.steps.drop start) start context log with
  | .ended result => pure result
  | .going (context, log) =>
    executor.finishFlow info flow.toFlowHeader flow.steps.length (mode.lane = .sync) context log

/-- A fresh run of a linear flow, whose initial input is checked first. -/
def executeLinear (lane : Lane) (nested : Nested) (flow : Flow) (flowName : String) (initialInput : Dict)
    (cancellation : Cancellation) : Exec ExecutionResult := do
  modify fun state => { state with activeFlowVersion := flow.version }
  let traceId ← perform .newTraceId ()
  let info : RunInfo := { flowName, traceId, initialInput }
  fire (.flowStart traceId flowName flow.version initialInput flow.steps.length)
  let inputFailure ← ofExcept
    (executor.validateFlowSchema flowName initialInput flow.inputSchemaRef flowInputStepIndex "flow_input")
  match inputFailure with
  | some record => executor.makeResult info false none [record] (some 0)
  | none =>
    let context := initialInput.update (← get).dynamicParams
    probe (.seed traceId flow.toFlowHeader initialInput context [] 0)
    executor.linearFrom ⟨lane, false⟩ nested info flow cancellation 0 context []

/-- A run of a linear flow from a snapshot. -/
def resumeLinear (lane : Lane) (nested : Nested) (flow : Flow) (snapshot : ExecutionSnapshot) :
    Exec ExecutionResult := do
  modify fun state => { state with activeFlowVersion := flow.version }
  let info : RunInfo :=
    { flowName := snapshot.flowName, traceId := snapshot.traceId, initialInput := snapshot.initialInput }
  fire (.flowStart info.traceId info.flowName flow.version info.initialInput flow.steps.length)
  probe (.seed info.traceId flow.toFlowHeader info.initialInput snapshot.context snapshot.executionLog
    snapshot.completedSteps)
  executor.linearFrom ⟨lane, true⟩ nested info flow {} snapshot.completedSteps snapshot.context
    snapshot.executionLog

def executeLinearFlow (nested : Nested) (flow : Flow) (flowName : String) (initialInput : Dict)
    (cancellation : Cancellation) : Exec ExecutionResult :=
  executor.executeLinear .sync nested flow flowName initialInput cancellation

def executeLinearFlowAsync (nested : Nested) (flow : Flow) (initialInput : Dict)
    (cancellation : Cancellation) : Exec ExecutionResult :=
  executor.executeLinear .async nested flow flow.name initialInput cancellation

def resumeLinearFlow (nested : Nested) (flow : Flow) (snapshot : ExecutionSnapshot) :
    Exec ExecutionResult :=
  executor.resumeLinear .sync nested flow snapshot

def resumeLinearFlowAsync (nested : Nested) (flow : Flow) (snapshot : ExecutionSnapshot) :
    Exec ExecutionResult :=
  executor.resumeLinear .async nested flow snapshot

end Executor

end ChainWeaver
