import ChainWeaver.Entry

/-!
# Replay

`replay_flow` runs a flow again on the input of a recorded result, from its start
or from a later step, and compares the outputs of the steps.
-/

namespace ChainWeaver

/-- The other two names of the source are aliases of these. -/
inductive ReplayMode
  | verify | execute
  deriving DecidableEq

structure StepDiff where
  stepIndex : Int
  toolName : String
  field : String
  expected : Value
  actual : Value

structure ReplayResult where
  originalTraceId : String
  newResult : ExecutionResult
  mode : ReplayMode
  diffs : List StepDiff
  allStepsMatch : Bool

namespace Executor

variable (executor : Executor)

-- From a later step

/-- What one recorded step left in the context. Records that belong to no step of
the flow are merged as they are. -/
def replayRecord (steps : List FlowStep) (context : Dict) (record : StepRecord) : Except Exc Dict :=
  match record.outputs with
  | none => .ok context
  | some outputs =>
    if outputs.isEmpty then .ok context
    else
      match if 0 ≤ record.stepIndex then steps[record.stepIndex.toNat]? else none with
      | none => .ok (context.update outputs)
      | some step =>
        match step.displayName? with
        | none => .error .assertion
        | some name => do
          pure (context.update (← applyOutputMapping outputs step.outputMapping name record.stepIndex))

/-- The context as it was before the step to go on from. -/
def replayContext (steps : List FlowStep) (records : List StepRecord) (context : Dict) : Except Exc Dict :=
  records.foldlM (replayRecord steps) context

def replayLoop (nested : Nested) (info : RunInfo) (flow : Flow) :
    List FlowStep → Nat → Dict → List StepRecord → Exec (Progress (Dict × List StepRecord))
  | [], _, context, log => pure (.going (context, log))
  | step :: rest, stepIndex, context, log => do
    let stepInfo : StepInfo := { traceId := info.traceId, flowName := info.flowName, stepIndex, stepId := none }
    let record ← executor.executeStep nested stepInfo step context {}
    let log := log ++ [record]
    if !record.success then pure (.ended (← executor.makeResult info false none log))
    else
      -- Outputs overwrite what is in the context, whatever the policy of the flow.
      let context ← mergeOutputs ⟨.sync, true⟩ info flow.onContextCollision step stepIndex context record
      replayLoop nested info flow rest (stepIndex + 1) context log

/-- `_replay_linear_from`. -/
def replayLinearFrom (nested : Nested) (flow : Flow) (result : ExecutionResult) (resumeFromStep : Nat) :
    Exec ExecutionResult := do
  modify fun state => { state with activeFlowVersion := flow.version }
  if flow.steps.length < resumeFromStep then
    refuse (.other "ValueError"
      s!"resume_from_step={resumeFromStep} exceeds step count {flow.steps.length}.")
  else
    let context ← orRefuse (replayContext flow.steps (result.executionLog.take resumeFromStep) result.initialInput)
    let traceId ← perform .newTraceId ()
    let info : RunInfo := { flowName := flow.name, traceId, initialInput := result.initialInput }
    fire (.flowStart traceId flow.name flow.version result.initialInput flow.steps.length)
    probe (.seed traceId flow.toFlowHeader result.initialInput context [] resumeFromStep)
    match ← executor.replayLoop nested info flow (flow.steps.drop resumeFromStep) resumeFromStep context [] with
    | .ended result => pure result
    | .going (context, log) => executor.makeResult info true (some context) log

-- Differences

/-- `list[index]`. -/
def pyGet? (items : List α) (index : Int) : Option α :=
  if 0 ≤ index then items[index.toNat]?
  else if -index ≤ items.length then items[(items.length + index).toNat]?
  else none

/-- The fields of two outputs that differ, those of the new one first. The source
takes them in the order of a set. -/
def diffOutputs (record : StepRecord) (newOut origOut : Dict) : List StepDiff :=
  (newOut.keys ++ origOut.keys.filter fun key => !newOut.contains key).filterMap fun field =>
    let expected := (origOut.get? field).getD .null
    let actual := (newOut.get? field).getD .null
    if actual.equals expected then none
    else some { stepIndex := record.stepIndex, toolName := record.toolName, field, expected, actual }

/-- `_compute_diffs`, from the new record with index `newIndex` on. -/
def diffRecords (original : List StepRecord) (resumeFromStep : Int) :
    List StepRecord → Nat → Except Exc (List StepDiff)
  | [], _ => .ok []
  | record :: rest, newIndex =>
    let originalIndex := newIndex + resumeFromStep
    if (original.length : Int) ≤ originalIndex then .ok []
    else
      match pyGet? original originalIndex with
      | none => .error (.other "IndexError" "list index out of range")
      | some recorded => do
        let newOut := record.outputs.getD .empty
        let origOut := recorded.outputs.getD .empty
        let diffs ← diffRecords original resumeFromStep rest (newIndex + 1)
        if (Value.dict newOut.entries).equals (.dict origOut.entries) then pure diffs
        else pure (diffOutputs record newOut origOut ++ diffs)

def computeDiffs (original new : ExecutionResult) (resumeFromStep : Int) : Except Exc (List StepDiff) :=
  diffRecords original.executionLog resumeFromStep new.executionLog 0

-- The entry point

/-- The scope of a replay: the step cache is not looked at. -/
def enterReplay (state : RunScopedState) : RunScopedState := { state.copy with inReplay := true }

/-- The run that a replay makes. -/
def replayRun (stack : Nat) (result : ExecutionResult) (resumeFromStep : Int) : Exec ExecutionResult := do
  let flow ← orRefuse (executor.registry.getFlow result.flowName none)
  withScope enterReplay
    (if resumeFromStep ≤ 0 then executor.executeFlow stack result.flowName result.initialInput {}
    else
      match flow with
      | .dag _ => refuse (.other "ValueError" "resume_from_step is not supported for DAGFlow yet.")
      | .linear flow => executor.replayLinearFrom (executor.lanes stack) flow result resumeFromStep.toNat)

/-- `replay_flow`. -/
def replayFlow (stack : Nat) (result : ExecutionResult) (mode : ReplayMode) (resumeFromStep : Int) :
    Exec ReplayResult := do
  let newResult ← executor.replayRun stack result resumeFromStep
  let diffs ← orRefuse (if mode = .verify then computeDiffs result newResult resumeFromStep else .ok [])
  pure { originalTraceId := result.traceId, newResult, mode, diffs, allStepsMatch := diffs.isEmpty }

end Executor

end ChainWeaver
