import ChainWeaver.Dag

/-!
# Entry points

`execute_flow`, `execute_flow_async`, `resume_flow` and `resume_flow_async`, and
the recursion between them: a step may run another flow.
-/

namespace ChainWeaver

/-- The keyword arguments of a call. -/
structure Call where
  version : Option String := none
  force : Bool := false
  cancellation : Executor.Cancellation := {}
  dryRun : Bool := false
  dryRunUnsupported : DryRunUnsupported := .skip
  dynamicParams : Option Dict := none

namespace Executor

variable (executor : Executor)

-- Checks before a run

/-- One step of `visit` inside `_validate_composition`; `descend` goes into the
sub-flow. -/
def visitStep (root : String) (path : List String) (descend : String → Except Exc Unit)
    (step : FlowStep) : Except Exc Unit :=
  match step.flowName? with
  | none => .ok ()
  | some subName =>
    if path.contains subName then
      let chain := " -> ".intercalate (path ++ [subName])
      .error (.flowComposition root "cycle" s!"circular sub-flow reference: {chain}")
    else descend subName

/-- `visit`: a path may grow by `budget` names before it is too long. -/
def visit (root : String) : Nat → List String → List FlowStep → Except Exc Unit
  | 0, path, steps =>
    steps.forM (visitStep root path fun subName =>
      let chain := " -> ".intercalate (path ++ [subName])
      .error (.flowComposition root "max_depth_exceeded"
        s!"nesting exceeds max_composition_depth={executor.maxCompositionDepth}: {chain}"))
  | budget + 1, path, steps =>
    steps.forM (visitStep root path fun subName =>
      match executor.registry.getFlow subName none with
      | .error _ =>
        .error (.flowComposition root "unknown_flow"
          s!"step references unregistered sub-flow '{subName}'")
      | .ok subFlow => visit root budget (path ++ [subName]) subFlow.steps)

def validateComposition (flow : AnyFlow) : Except Exc Unit :=
  executor.visit flow.header.name executor.maxCompositionDepth [flow.header.name] flow.steps

def branchRouting : AnyFlow → List (List ConditionalEdge × Option String)
  | .linear flow => flow.steps.map fun _ => ([], none)
  | .dag flow => flow.steps.map fun step => (step.branches, step.defaultNext)

/-- The features of one step the asynchronous lane has no code for. -/
def unsupportedFeatures (step : FlowStep) (routing : List ConditionalEdge × Option String) :
    List String :=
  (if step.decisionCandidates.any (!·.isEmpty) then ["decision_candidates (issue #102)"] else []) ++
    (if routing.1.isEmpty then [] else ["conditional branches (issue #9)"]) ++
    (if routing.2.isSome then ["default_next routing (issue #9)"] else [])

def unsupportedTexts (flow : AnyFlow) : Except Exc (List String) := do
  let texts ← ((flow.steps.zip (branchRouting flow)).zipIdx).mapM fun ((step, routing), index) =>
    match unsupportedFeatures step routing, step.displayName? with
    | [], _ => .ok []
    | _ :: _, none => .error Exc.assertion
    | features, some name => .ok (features.map fun feature => s!"step {index} ('{name}'): {feature}")
  pure texts.flatten

/-- `_assert_async_lane_supported`. -/
def assertAsyncLaneSupported (flow : AnyFlow) : Except Exc Unit := do
  match ← unsupportedTexts flow with
  | [] => pure ()
  | texts => throw (.asyncLaneUnsupported flow.header.name texts)

/-- The lookup and the checks both lanes make before a flow may run. -/
def admitStatus (flow : AnyFlow) (flowName : String) (force : Bool) : Except Exc Unit :=
  if !force && flow.header.status ≠ .active then .error (.flowStatus flowName flow.header.status.value)
  else .ok ()

-- Running a flow

def withDynamicParams (state : RunScopedState) (params : Option Dict) : RunScopedState :=
  match params with
  | none => state
  | some params => { state with dynamicParams := state.dynamicParams.update params }

/-- `_execute_flow_impl`. -/
def executeFlowImpl (nested : Nested) (flowName : String) (initialInput : Dict) (call : Call) :
    Exec ExecutionResult := do
  let flow ← orRefuse (executor.registry.getFlow flowName call.version)
  modify fun state => { state with activeFlowVersion := flow.header.version }
  orRefuse (admitStatus flow flowName call.force)
  orRefuse (executor.validateComposition flow)
  probe (.enter flow (← get))
  match flow with
  | .dag flow => executor.executeDagFlow nested flow initialInput call.cancellation
  | .linear flow => executor.executeLinearFlow nested flow flowName initialInput call.cancellation

/-- The scope of a synchronous call: a nested call stays in the dry run of its
parent. -/
def enterSync (call : Call) (state : RunScopedState) : RunScopedState :=
  let state := state.copy
  let state :=
    { state with
      dryRun := call.dryRun || state.dryRun,
      dryRunUnsupported := if call.dryRun then call.dryRunUnsupported else state.dryRunUnsupported }
  withDynamicParams state call.dynamicParams

def executeFlowWith (nested : Nested) (flowName : String) (initialInput : Dict) (call : Call) :
    Exec ExecutionResult :=
  withScope (enterSync call) (executor.executeFlowImpl nested flowName initialInput call)

def executeFlowAsyncWith (nested : Nested) (flowName : String) (initialInput : Dict) (call : Call) :
    Exec ExecutionResult := do
  let flow ← orRefuse (executor.registry.getFlow flowName call.version)
  orRefuse (admitStatus flow flowName call.force)
  orRefuse (assertAsyncLaneSupported flow)
  orRefuse (executor.validateComposition flow)
  withScope (fun state => withDynamicParams state.copy call.dynamicParams) do
    probe (.enter flow (← get))
    match flow with
    | .dag flow => executor.executeDagFlowAsync nested flow initialInput call.cancellation
    | .linear flow => executor.executeLinearFlowAsync nested flow initialInput call.cancellation

/-- The entry points as a step sees them. `stack` is what the interpreter still
allows: a call beyond it raises `RecursionError`. -/
def lanes : Nat → Nested
  | 0 => { executeFlow := fun _ _ _ => refuse .recursion, executeFlowAsync := fun _ _ _ => refuse .recursion }
  | stack + 1 =>
    { executeFlow := fun flowName input cancellation =>
        executor.executeFlowWith (lanes stack) flowName input { cancellation },
      executeFlowAsync := fun flowName input cancellation =>
        executor.executeFlowAsyncWith (lanes stack) flowName input { cancellation } }

def executeFlow (stack : Nat) (flowName : String) (initialInput : Dict) (call : Call) :
    Exec ExecutionResult :=
  executor.executeFlowWith (executor.lanes stack) flowName initialInput call

def executeFlowAsync (stack : Nat) (flowName : String) (initialInput : Dict) (call : Call) :
    Exec ExecutionResult :=
  executor.executeFlowAsyncWith (executor.lanes stack) flowName initialInput call

-- Resuming

/-- The first tool whose schema has changed since the snapshot. -/
def hashDrift : List (String × String) → Option String
  | [] => none
  | (toolName, snapHash) :: rest =>
    match executor.tools.get? toolName with
    | none => some s!"tool '{toolName}' is no longer registered"
    | some current =>
      if current.schemaHash ≠ snapHash then
        some (s!"tool '{toolName}' schema_hash changed: snapshot='{snapHash}' " ++
          s!"current='{current.schemaHash}'")
      else hashDrift rest

/-- The guards on a snapshot. -/
def checkSnapshot (traceId : String) (snapshot : ExecutionSnapshot) : Except Exc AnyFlow := do
  if !sameMajor snapshot.snapshotVersion snapshotVersion then
    throw (.checkpointVersion traceId snapshot.flowName snapshot.snapshotVersion snapshotVersion)
  let flow ← executor.registry.getFlow snapshot.flowName none
  if flow.header.version ≠ snapshot.flowVersion then
    throw (.checkpointDrift traceId snapshot.flowName
      (s!"flow version changed: snapshot='{snapshot.flowVersion}' " ++
        s!"current='{flow.header.version}'"))
  match executor.hashDrift snapshot.toolSchemaHashes.entries with
  | some detail => throw (.checkpointDrift traceId snapshot.flowName detail)
  | none => pure flow

def loadSnapshotForResume (traceId : String) : Exec (AnyFlow × ExecutionSnapshot) := do
  if !executor.hasCheckpointer then refuse .checkpointerNotConfigured
  else
    match ← orRefuse (← perform .load traceId) with
    | none => refuse (.checkpointNotFound traceId)
    | some snapshot =>
      let flow ← orRefuse (executor.checkSnapshot traceId snapshot)
      pure (flow, snapshot)

/-- `try … finally` around the resume slot of the run-scoped state. -/
def withResume (snapshot : ExecutionSnapshot) (body : Exec α) : Exec α := do
  modify fun state => { state with resumeSnapshot := some snapshot }
  let outcome ← attempt body
  modify fun state => { state with resumeSnapshot := none }
  rethrow outcome

def resumeDagFlow (nested : Nested) (flow : DAGFlow) (snapshot : ExecutionSnapshot) :
    Exec ExecutionResult :=
  withResume snapshot (executor.executeDagFlow nested flow snapshot.initialInput {})

def resumeDagFlowAsync (nested : Nested) (flow : DAGFlow) (snapshot : ExecutionSnapshot) :
    Exec ExecutionResult :=
  withResume snapshot (executor.executeDagFlowAsync nested flow snapshot.initialInput {})

/-- `resume_flow`. It opens no scope: it works on the state of its caller. -/
def resumeFlow (stack : Nat) (traceId : String) : Exec ExecutionResult := do
  let (flow, snapshot) ← executor.loadSnapshotForResume traceId
  match flow with
  | .dag flow => executor.resumeDagFlow (executor.lanes stack) flow snapshot
  | .linear flow => executor.resumeLinearFlow (executor.lanes stack) flow snapshot

def resumeFlowAsync (stack : Nat) (traceId : String) : Exec ExecutionResult := do
  let (flow, snapshot) ← executor.loadSnapshotForResume traceId
  orRefuse (assertAsyncLaneSupported flow)
  withScope RunScopedState.copy do
    match flow with
    | .dag flow => executor.resumeDagFlowAsync (executor.lanes stack) flow snapshot
    | .linear flow => executor.resumeLinearFlowAsync (executor.lanes stack) flow snapshot

end Executor

end ChainWeaver
