import ChainWeaver.Interaction.Gather
import ChainWeaver.Linear
import Mathlib.Algebra.GroupWithZero.Nat

/-!
# DAG flows

The level loops of the two lanes. The synchronous loop runs, checks and places
one step after the other; the asynchronous loop runs a whole level and then
checks and places its records.
-/

namespace ChainWeaver

/-- What the level loop carries from level to level. -/
structure DagState where
  context : Dict
  log : List StepRecord
  flatIndex : Nat
  skipped : List String := []

/-- What the synchronous loop adds to it inside a level. -/
structure LevelState where
  records : List StepRecord := []
  outputs : Dict := .empty
  flatIndex : Nat
  skipped : List String

/-- Whether branch routing has deactivated a step: it is marked itself, or all
its predecessors are. A root is only skipped when marked. -/
def skipDecision (skipped : List String) (step : DAGFlowStep) : Bool :=
  skipped.contains step.stepId ||
    (!step.dependsOn.isEmpty && step.dependsOn.all skipped.contains)

inductive BranchOutcome
  | selected (target : Option String)
  | invalid (e : Exc)

namespace Executor

variable (executor : Executor)

/-- The first edge whose predicate holds, or the default. -/
def selectEdge (step : DAGFlowStep) (context : Dict) : List ConditionalEdge → Except Exc BranchOutcome
  | [] => .ok (.selected step.defaultNext)
  | edge :: rest =>
    match Predicate.evaluate executor.platform.parsePredicate edge.predicate context with
    | .ok true => .ok (.selected (some edge.targetStepId))
    | .ok false => selectEdge step context rest
    | .error (.predicateSyntax predicate detail) => .ok (.invalid (.predicateSyntax predicate detail))
    | .error (.raised name message) => .error (.other name message)

/-- `_select_branch`. Errors other than `PredicateSyntaxError` go through. -/
def selectBranch (step : DAGFlowStep) (context levelOutputs stepOutputs : Dict) :
    Except Exc BranchOutcome :=
  executor.selectEdge step ((context.update levelOutputs).update stepOutputs) step.branches

/-- The target of a step's branches, if it has any. -/
def routeBranch (step : DAGFlowStep) (context levelOutputs stepOutputs : Dict) :
    Except Exc BranchOutcome :=
  if step.branches.isEmpty then .ok (.selected none)
  else executor.selectBranch step context levelOutputs stepOutputs

-- Capability steps

/-- The inputs of a capability step: a plain string is a context key, and no
string is a pointer. The key that is missing on failure. -/
def capabilityInputs (context : Dict) : List (String × Value) → Dict → Except String Dict
  | [], inputs => .ok inputs
  | (key, .str source) :: rest, inputs =>
    match context.get? source with
    | some value => capabilityInputs context rest (inputs.insert key value)
    | none => .error source
  | (key, literal) :: rest, inputs => capabilityInputs context rest (inputs.insert key literal)

def resolveCapabilityInputs (step : DAGFlowStep) (context : Dict) : Except String Dict :=
  if step.inputMapping.isEmpty then .ok context
  else capabilityInputs context step.inputMapping.entries .empty

/-- The configured token where its scope covers the capability. -/
def capabilityToken (kernel : Kernel) (capabilityId : String) : CapabilityToken :=
  if kernel.defaultScope.any (·.contains capabilityId) then .default else .singleUse capabilityId

/-- `_execute_capability_step` of `KernelBackedExecutor`. -/
def invokeCapability (kernel : Kernel) (stepIndex : Nat) (step : DAGFlowStep) (name : String)
    (context : Dict) : Exec StepRecord := do
  let blank : StepRecord := { stepIndex, toolName := name, inputs := .empty }
  match resolveCapabilityInputs step context with
  | .error key =>
    pure (blank.failWith (.kernelInvocation ((step.capabilityId.filter (· ≠ "")).getD "<unknown>") stepIndex
      s!"Input mapping key '{key}' not found in context for step '{step.stepId}'."))
  | .ok inputs =>
    let record := { blank with inputs }
    match step.capabilityId with
    | none =>
      pure (record.failWith (.kernelInvocation "<unknown>" stepIndex
        s!"Step '{step.stepId}' has step_type='capability' but capability_id is None."))
    | some capabilityId =>
      match ← perform .kernelInvoke { capabilityId, token := capabilityToken kernel capabilityId, inputs } with
      | .error e =>
        pure (record.failWith (.kernelInvocation capabilityId stepIndex
          s!"kernel raised {e.typeName}: {e.message}"))
      | .ok (.dict entries) => pure (record.succeedWith (.ofList entries))
      | .ok other =>
        pure (record.failWith (.kernelInvocation capabilityId stepIndex
          s!"kernel returned non-dict outputs ({other.typeName})."))

/-- `_execute_capability_step`: the base class refuses. -/
def executeCapabilityStep (stepIndex : Nat) (step : DAGFlowStep) (context : Dict) : Exec StepRecord := do
  let name ← displayName step.toFlowStep
  probe (.capability step context)
  match executor.kernel with
  | some kernel => invokeCapability kernel stepIndex step name context
  | none =>
    let blank : StepRecord := { stepIndex, toolName := name, inputs := .empty }
    pure (blank.failWith (.flowExecution name stepIndex
      (s!"Step '{step.stepId}' has step_type='{step.stepType.value}' which is not supported by " ++
        "FlowExecutor. Only step_type='tool' can be executed — use KernelBackedExecutor for " ++
        "capability-typed steps.")))

-- Placing outputs

/-- The outputs of a step as they reach the context, and the first of their keys
that a sibling produced already. -/
def placeOutputs (info : RunInfo) (step : DAGFlowStep) (context : Dict) (record : StepRecord)
    (levelOutputs : Dict) : Exec (Dict × Option String) := do
  match record.outputs with
  | none => raise .assertion
  | some outputs =>
    let name ← displayName step.toFlowStep
    let mapped ← ofExcept (applyOutputMapping outputs step.outputMapping name record.stepIndex)
    probe (.place info.traceId step context mapped levelOutputs)
    pure (mapped, mapped.keys.find? levelOutputs.contains)

/-- The record that replaces the record of a step that ran. -/
def replaced (record : StepRecord) (name : String) (e : Exc) : StepRecord :=
  StepRecord.failWith { stepIndex := record.stepIndex, toolName := name, inputs := record.inputs } e

def conflict (name key ending : String) (record : StepRecord) : StepRecord :=
  replaced record name (.flowExecution name record.stepIndex
    (s!"Key '{key}' produced by both '{name}' and a sibling step in the same DAG level" ++ ending))

-- The synchronous level loop

/-- A step dispatched through `_execute_capability_step`, and the hooks for it,
which are all fired afterwards. -/
def runCapabilityStep (info : RunInfo) (stepIndex : Nat) (step : DAGFlowStep) (context : Dict) :
    Exec StepRecord := do
  let record ← executor.executeCapabilityStep stepIndex step context
  if record.success || !record.inputs.isEmpty then
    fire (.stepStart info.traceId info.flowName record.stepIndex record.toolName record.inputs)
    fire (.stepEnd info.traceId info.flowName record)
    pure record
  else
    fire (.stepEnd info.traceId info.flowName record)
    pure record

def dagCapabilityStep (info : RunInfo) (step : DAGFlowStep) (state : DagState) (level : LevelState) :
    Exec (Progress LevelState) := do
  let record ← executor.runCapabilityStep info level.flatIndex step state.context
  let records := level.records ++ [record]
  if !record.success then
    pure (.ended (← executor.makeResult info false none (state.log ++ records)))
  else
    let (mapped, clash) ← placeOutputs info step state.context record level.outputs
    match clash with
    | some key =>
      let failed := conflict record.toolName key " — execution would be order-dependent." record
      pure (.ended (← executor.makeResult info false none (state.log ++ level.records ++ [failed])))
    | none =>
      pure (.going { level with records, outputs := level.outputs.update mapped,
                                flatIndex := level.flatIndex + 1 })

/-- The `FlowStep` view of a DAG step that `_execute_step` is given. -/
def proxy (step : DAGFlowStep) : FlowStep := { step.toFlowStep with outputMapping := none }

/-- What the branches of a step that succeeded mark as skipped. -/
def markSkipped (steps : List DAGFlowStep) (step : DAGFlowStep) (target : Option String)
    (skipped : List String) : List String :=
  match target with
  | none => skipped
  | some target => skipped ++ (Topology.dependents steps step.stepId).filter (· ≠ target)

/-- What follows a tool step that succeeded: its outputs are placed and its
branches select. -/
def placeToolRecord (info : RunInfo) (flow : DAGFlow) (step : DAGFlowStep) (state : DagState)
    (level : LevelState) (record : StepRecord) : Exec (Progress LevelState) := do
  let (mapped, clash) ← placeOutputs info step state.context record level.outputs
  let name ← displayName step.toFlowStep
  match clash with
  | some key =>
    let failed := conflict name key ". Use distinct output keys or sequential steps." record
    pure (.ended (← executor.makeResult info false none (state.log ++ level.records ++ [failed])))
  | none =>
    let records := level.records ++ [record]
    let outputs := level.outputs.update mapped
    match ← ofExcept (executor.routeBranch step state.context outputs mapped) with
    | .selected target =>
      pure (.going { records, outputs, flatIndex := level.flatIndex + 1,
                     skipped := markSkipped flow.steps step target level.skipped })
    | .invalid e =>
      pure (.ended (← executor.makeResult info false none
        (state.log ++ level.records ++ [replaced record name e])))

/-- A step dispatched through `_execute_step`. -/
def dagToolStep (nested : Nested) (info : RunInfo) (flow : DAGFlow) (cancellation : Cancellation)
    (step : DAGFlowStep) (state : DagState) (level : LevelState) : Exec (Progress LevelState) := do
  let stepInfo : StepInfo :=
    { traceId := info.traceId, flowName := info.flowName, stepIndex := level.flatIndex,
      stepId := some step.stepId }
  let outcome ← attempt (executor.executeStep nested stepInfo (proxy step) state.context cancellation)
  match outcome with
  | .error (.flowCancelled name index sub deadlineExceeded tokenCancelled) =>
    let e := Exc.flowCancelled name index sub deadlineExceeded tokenCancelled
    executor.reraiseSubflowCancellation info (proxy step) level.flatIndex (state.log ++ level.records) sub
      e.message deadlineExceeded tokenCancelled
  | .error e => throw e
  | .ok record =>
    if !record.success then
      pure (.ended (← executor.makeResult info false none (state.log ++ (level.records ++ [record]))))
    else executor.placeToolRecord info flow step state level record

/-- The record of a step that branch routing deactivated. -/
def skippedRecord (stepIndex : Nat) (name : String) : StepRecord :=
  { stepIndex, toolName := name, inputs := .empty, outputs := some .empty, skipped := true }

/-- One step of a level: skipped, or dispatched by its type. -/
def dagStep (nested : Nested) (info : RunInfo) (flow : DAGFlow) (cancellation : Cancellation)
    (step : DAGFlowStep) (state : DagState) (level : LevelState) : Exec (Progress LevelState) := do
  probe (.visit info.traceId step level.skipped)
  if skipDecision level.skipped step then
    let name ← displayName step.toFlowStep
    let skipped :=
      if level.skipped.contains step.stepId then level.skipped else level.skipped ++ [step.stepId]
    pure (.going { level with records := level.records ++ [skippedRecord level.flatIndex name],
                              flatIndex := level.flatIndex + 1, skipped })
  else
    match step.stepType with
    | .capability => executor.dagCapabilityStep info step state level
    | .tool => executor.dagToolStep nested info flow cancellation step state level

def dagLevelSteps (nested : Nested) (info : RunInfo) (flow : DAGFlow) (cancellation : Cancellation)
    (state : DagState) : List DAGFlowStep → LevelState → Exec (Progress LevelState)
  | [], level => pure (.going level)
  | step :: rest, level => do
    match ← executor.dagStep nested info flow cancellation step state level with
    | .ended result => pure (.ended result)
    | .going level => dagLevelSteps nested info flow cancellation state rest level

/-- The end of a level: its outputs into the context, and the snapshot. -/
def closeLevel (info : RunInfo) (flow : DAGFlow) (levelIndex : Nat) (context levelOutputs : Dict)
    (log : List StepRecord) : Exec Dict := do
  probe (.merge info.traceId flow.onContextCollision context levelOutputs)
  let context ← ofExcept (mergeMapped context levelOutputs flow.onContextCollision info.flowName levelIndex
    s!"DAG level {levelIndex}")
  executor.saveSnapshot info (.dag flow) context log (levelIndex + 1)
  pure context

def dagLevel (nested : Nested) (info : RunInfo) (flow : DAGFlow) (cancellation : Cancellation)
    (levelIndex : Nat) (steps : List DAGFlowStep) (state : DagState) : Exec (Progress DagState) := do
  executor.checkCancellation info state.flatIndex cancellation state.log
  let start : LevelState := { flatIndex := state.flatIndex, skipped := state.skipped }
  match ← executor.dagLevelSteps nested info flow cancellation state steps start with
  | .ended result => pure (.ended result)
  | .going level =>
    let log := state.log ++ level.records
    let context ← executor.closeLevel info flow levelIndex state.context level.outputs log
    pure (.going { context, log, flatIndex := level.flatIndex, skipped := level.skipped })

def dagLevels (nested : Nested) (info : RunInfo) (flow : DAGFlow) (cancellation : Cancellation) :
    List (List DAGFlowStep) → Nat → DagState → Exec (Progress DagState)
  | [], _, state => pure (.going state)
  | steps :: rest, levelIndex, state => do
    match ← executor.dagLevel nested info flow cancellation levelIndex steps state with
    | .ended result => pure (.ended result)
    | .going state => dagLevels nested info flow cancellation rest (levelIndex + 1) state

/-- The level loop from `startLevel` on and what follows it. -/
def dagFrom (nested : Nested) (info : RunInfo) (flow : DAGFlow) (cancellation : Cancellation)
    (levels : List (List DAGFlowStep)) (startLevel : Nat) (state : DagState) : Exec ExecutionResult := do
  match ← executor.dagLevels nested info flow cancellation (levels.drop startLevel) startLevel state with
  | .ended result => pure result
  | .going state =>
    executor.finishFlow info flow.toFlowHeader (flowOutputStepIndex flow.steps) true state.context state.log

/-- `_execute_dag_flow`. A snapshot in the run-scoped state makes it a resume:
identity, context, log and level come from the snapshot, the marks of the
branches do not. -/
def executeDagFlow (nested : Nested) (flow : DAGFlow) (initialInput : Dict) (cancellation : Cancellation) :
    Exec ExecutionResult := do
  modify fun state => { state with activeFlowVersion := flow.version }
  match (← get).resumeSnapshot with
  | some snapshot =>
    let info : RunInfo := { flowName := flow.name, traceId := snapshot.traceId, initialInput }
    fire (.flowStart info.traceId flow.name flow.version initialInput flow.steps.length)
    let levels ← ofExcept (computeDagLevels executor.platform.hashing flow)
    probe (.seed info.traceId flow.toFlowHeader initialInput snapshot.context snapshot.executionLog
      snapshot.completedDagLevels)
    executor.dagFrom nested info flow cancellation levels snapshot.completedDagLevels
      { context := snapshot.context, log := snapshot.executionLog,
        flatIndex := snapshot.executionLog.length }
  | none =>
    let traceId ← perform .newTraceId ()
    let info : RunInfo := { flowName := flow.name, traceId, initialInput }
    fire (.flowStart traceId flow.name flow.version initialInput flow.steps.length)
    let inputFailure ← ofExcept
      (executor.validateFlowSchema flow.name initialInput flow.inputSchemaRef flowInputStepIndex "flow_input")
    match inputFailure with
    | some record => executor.makeResult info false none [record] (some 0)
    | none =>
      let context := initialInput.update (← get).dynamicParams
      let levels ← ofExcept (computeDagLevels executor.platform.hashing flow)
      probe (.seed traceId flow.toFlowHeader initialInput context [] 0)
      executor.dagFrom nested info flow cancellation levels 0 { context, log := [], flatIndex := 0 }

-- The asynchronous level loop

/-- The `FlowStep` view of a DAG step that `_execute_step_async` is given; it has
no step id. -/
def proxyAsync (step : DAGFlowStep) : FlowStep :=
  { step.toFlowStep with outputMapping := none, decisionCandidates := none, candidates_valid := rfl }

def taskInfo (info : RunInfo) (flatIndex : Nat) : StepInfo :=
  { traceId := info.traceId, flowName := info.flowName, stepIndex := flatIndex, stepId := none }

/-- One step of a level. -/
def dagTask (nested : Nested) (info : RunInfo) (cancellation : Cancellation) (context : Dict)
    (flatIndex : Nat) (step : DAGFlowStep) : Exec StepRecord :=
  executor.executeStepAsync nested (taskInfo info flatIndex) (proxyAsync step) context cancellation

def dagTasksInOrder (nested : Nested) (info : RunInfo) (cancellation : Cancellation) (context : Dict) :
    List (Nat × DAGFlowStep) → Exec (List StepRecord)
  | [] => pure []
  | (flatIndex, step) :: rest => do
    let record ← executor.dagTask nested info cancellation context flatIndex step
    let records ← dagTasksInOrder nested info cancellation context rest
    pure (record :: records)

/-- `_run_dag_level_async`. -/
def runDagLevelAsync (nested : Nested) (info : RunInfo) (cancellation : Cancellation) (context : Dict)
    (indexed : List (Nat × DAGFlowStep)) : Exec (List StepRecord) := do
  if executor.maxStepConcurrency ≤ 1 || indexed.length ≤ 1 then
    executor.dagTasksInOrder nested info cancellation context indexed
  else
    let choices ← perform .schedule ()
    Interaction.Comp.gather executor.maxStepConcurrency choices
      (indexed.map fun (flatIndex, step) => executor.dagTask nested info cancellation context flatIndex step)

/-- The records of a level in declaration order: the first that failed or that
clashes with an earlier one ends the run. -/
def processRecords (info : RunInfo) (context : Dict) :
    List (DAGFlowStep × StepRecord) → List StepRecord → Dict → Exec (Progress (List StepRecord × Dict))
  | [], log, levelOutputs => pure (.going (log, levelOutputs))
  | (step, record) :: rest, log, levelOutputs => do
    if !record.success then
      pure (.ended (← executor.makeResult info false none (log ++ [record])))
    else
      let (mapped, clash) ← placeOutputs info step context record levelOutputs
      match clash with
      | some key =>
        let name ← displayName step.toFlowStep
        pure (.ended (← executor.makeResult info false none (log ++ [conflict name key "." record])))
      | none => processRecords info context rest (log ++ [record]) (levelOutputs.update mapped)

/-- The record that refuses a capability step. -/
def capabilityRefused (stepIndex : Nat) (step : DAGFlowStep) (name : String) : StepRecord :=
  StepRecord.failWith { stepIndex, toolName := name, inputs := .empty } (.flowExecution name stepIndex
    (s!"Step '{step.stepId}' has step_type='{step.stepType.value}' which is not supported by " ++
      "FlowExecutor."))

def dagLevelAsync (nested : Nested) (info : RunInfo) (flow : DAGFlow) (cancellation : Cancellation)
    (levelIndex : Nat) (steps : List DAGFlowStep) (state : DagState) : Exec (Progress DagState) := do
  executor.checkCancellation info state.flatIndex cancellation state.log
  let indexed := steps.zipIdx.map fun (step, place) => (state.flatIndex + place, step)
  match indexed.find? fun entry => entry.2.stepType ≠ .tool with
  | some (flatIndex, step) =>
    probe (.unsupported info.traceId flatIndex step)
    let name ← displayName step.toFlowStep
    pure (.ended (← executor.makeResult info false none
      (state.log ++ [capabilityRefused flatIndex step name])))
  | none =>
    let records ← executor.runDagLevelAsync nested info cancellation state.context indexed
    match ← executor.processRecords info state.context (steps.zip records) state.log .empty with
    | .ended result => pure (.ended result)
    | .going (log, levelOutputs) =>
      let context ← executor.closeLevel info flow levelIndex state.context levelOutputs log
      pure (.going { context, log, flatIndex := state.flatIndex + steps.length })

def dagLevelsAsync (nested : Nested) (info : RunInfo) (flow : DAGFlow) (cancellation : Cancellation) :
    List (List DAGFlowStep) → Nat → DagState → Exec (Progress DagState)
  | [], _, state => pure (.going state)
  | steps :: rest, levelIndex, state => do
    match ← executor.dagLevelAsync nested info flow cancellation levelIndex steps state with
    | .ended result => pure (.ended result)
    | .going state => dagLevelsAsync nested info flow cancellation rest (levelIndex + 1) state

def dagFromAsync (nested : Nested) (info : RunInfo) (flow : DAGFlow) (cancellation : Cancellation)
    (levels : List (List DAGFlowStep)) (startLevel : Nat) (state : DagState) : Exec ExecutionResult := do
  match ← executor.dagLevelsAsync nested info flow cancellation (levels.drop startLevel) startLevel state with
  | .ended result => pure result
  | .going state =>
    executor.finishFlow info flow.toFlowHeader (flowOutputStepIndex flow.steps) false state.context state.log

/-- `_execute_dag_flow_async`. -/
def executeDagFlowAsync (nested : Nested) (flow : DAGFlow) (initialInput : Dict)
    (cancellation : Cancellation) : Exec ExecutionResult := do
  modify fun state => { state with activeFlowVersion := flow.version }
  let levels ← orRefuse (computeDagLevels executor.platform.hashing flow)
  match (← get).resumeSnapshot with
  | some snapshot =>
    let info : RunInfo := { flowName := flow.name, traceId := snapshot.traceId, initialInput }
    fire (.flowStart info.traceId flow.name flow.version initialInput flow.steps.length)
    probe (.seed info.traceId flow.toFlowHeader initialInput snapshot.context snapshot.executionLog
      snapshot.completedDagLevels)
    executor.dagFromAsync nested info flow cancellation levels snapshot.completedDagLevels
      { context := snapshot.context, log := snapshot.executionLog,
        flatIndex := ((levels.take snapshot.completedDagLevels).map List.length).sum }
  | none =>
    let traceId ← perform .newTraceId ()
    let info : RunInfo := { flowName := flow.name, traceId, initialInput }
    fire (.flowStart traceId flow.name flow.version initialInput flow.steps.length)
    let inputFailure ← ofExcept
      (executor.validateFlowSchema flow.name initialInput flow.inputSchemaRef flowInputStepIndex "flow_input")
    match inputFailure with
    | some record => executor.makeResult info false none [record] (some 0)
    | none =>
      let context := initialInput.update (← get).dynamicParams
      probe (.seed traceId flow.toFlowHeader initialInput context [] 0)
      executor.dagFromAsync nested info flow cancellation levels 0 { context, log := [], flatIndex := 0 }

end Executor

end ChainWeaver
