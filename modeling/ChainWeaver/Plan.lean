import ChainWeaver.Executor
import ChainWeaver.Fields

/-!
# Execution plans

`explain_flow` walks over the steps of a flow without running them and keeps track
of the keys the context would have.
-/

namespace ChainWeaver

structure StepPlan where
  stepIndex : Nat
  toolName : String
  inputSources : OrderedDict String
  inputSchema : OrderedDict String := .empty
  outputSchema : OrderedDict String := .empty
  unresolvedKeys : List String := []
  warnings : List String := []

structure ExecutionPlan where
  flowName : String
  stepCount : Nat
  steps : List StepPlan
  finalContextShape : OrderedDict String
  allResolvable : Bool

namespace Pointer

/-- The first token of a pointer. -/
def rootToken (pointer : String) : String :=
  String.ofList (unescape ((pointer.toList.drop 1).takeWhile (· ≠ '/')))

example : rootToken "/a~1b/c" = "a/b" := by decide

end Pointer

/-- Where the value of one input comes from, and the source if it does not resolve. -/
def describeSource (reflection : Reflection) (projected : OrderedDict String) :
    Value → String × List String
  | .str source =>
    let lookup := if Pointer.isPointer source then Pointer.rootToken source else source
    if projected.contains lookup then (s!"context['{source}']", [])
    else (s!"context['{source}'] (UNRESOLVED)", [source])
  | literal => (s!"literal({reflection.repr literal})", [])

/-- `_describe_input_sources`: the descriptions, and the unresolved sources. -/
def describeInputSources (reflection : Reflection) (step : FlowStep) (projected : OrderedDict String) :
    OrderedDict String × List String :=
  if step.inputMapping.isEmpty then (.ofList [("<all>", "context (full)")], [])
  else
    (step.inputMapping.mapValues fun raw => (describeSource reflection projected raw).1,
      step.inputMapping.entries.flatMap fun entry => (describeSource reflection projected entry.2).2)

namespace Executor

variable (executor : Executor) (reflection : Reflection)

/-- The output shape of a sub-flow, as far as it declares one. -/
def subflowShape : Option AnyFlow → Except Exc (OrderedDict String)
  | none => .ok .empty
  | some flow =>
    match flow.header.outputSchemaRef with
    | none => .ok .empty
    | some ref => do pure (reflection.schemaFieldShape (← executor.platform.resolveClassRef ref))

/-- The plan of a sub-flow step. The fields of the sub-flow's output schema are
projected whatever the step's output mapping says. -/
def explainSubflowStep (stepIndex : Nat) (step : FlowStep) (subName : String)
    (projected : OrderedDict String) : Except Exc (StepPlan × OrderedDict String) := do
  let subFlow := (executor.registry.getFlow subName none).toOption
  let warnings := if subFlow.isNone then [s!"Sub-flow '{subName}' is not registered."] else []
  let (inputSources, unresolvedKeys) := describeInputSources reflection step projected
  let outputSchema ← executor.subflowShape reflection subFlow
  pure ({ stepIndex, toolName := subName, inputSources, outputSchema, unresolvedKeys, warnings },
    projected.update outputSchema)

/-- What a tool with this output shape adds to the projected context. -/
def projectOutputs (step : FlowStep) (outputSchema : OrderedDict String) : OrderedDict String :=
  match step.outputMapping with
  | none => outputSchema
  | some mapping => mapping.mapValues fun outputKey => (outputSchema.get? outputKey).getD "Any"

def explainToolStep (stepIndex : Nat) (step : FlowStep) (projected : OrderedDict String) :
    Except Exc (StepPlan × OrderedDict String) :=
  match step.displayName? with
  | none => .error .assertion
  | some name =>
    let (inputSources, unresolvedKeys) := describeInputSources reflection step projected
    match executor.tools.get? name with
    | none =>
      let warnings := [s!"Tool '{name}' is not registered."]
      .ok ({ stepIndex, toolName := name, inputSources, unresolvedKeys, warnings }, projected)
    | some tool =>
      let inputSchema := reflection.schemaFieldShape tool.inputSchema
      let outputSchema := reflection.schemaFieldShape tool.outputSchema
      .ok ({ stepIndex, toolName := name, inputSources, inputSchema, outputSchema, unresolvedKeys },
        projected.update (projectOutputs step outputSchema))

def explainStep (stepIndex : Nat) (step : FlowStep) (projected : OrderedDict String) :
    Except Exc (StepPlan × OrderedDict String) :=
  match step.flowName? with
  | some subName => executor.explainSubflowStep reflection stepIndex step subName projected
  | none => executor.explainToolStep reflection stepIndex step projected

/-- The plans of the steps, and the context behind them. -/
def explainSteps : List FlowStep → Nat → OrderedDict String →
    Except Exc (List StepPlan × OrderedDict String)
  | [], _, projected => .ok ([], projected)
  | step :: rest, stepIndex, projected => do
    let (plan, projected) ← executor.explainStep reflection stepIndex step projected
    let (plans, projected) ← explainSteps rest (stepIndex + 1) projected
    pure (plan :: plans, projected)

/-- The steps of a flow by the level they run in; a linear flow has one a level. -/
def stepLevels : AnyFlow → Except Exc (List (List FlowStep))
  | .linear flow => .ok (flow.steps.map fun step => [step])
  | .dag flow => do
    pure ((← computeDagLevels executor.platform.hashing flow).map (·.map DAGFlowStep.toFlowStep))

/-- The context before the first step. -/
def projectInput (initialInput : Dict) : OrderedDict String := initialInput.mapValues Value.typeName

/-- `explain_flow`. -/
def explainFlow (flowName : String) (initialInput : Dict) : Except Exc ExecutionPlan := do
  let flow ← executor.registry.getFlow flowName none
  let steps := (← executor.stepLevels flow).flatten
  let (plans, projected) ← executor.explainSteps reflection steps 0 (projectInput initialInput)
  pure
    { flowName, stepCount := steps.length, steps := plans, finalContextShape := projected,
      allResolvable := plans.all fun plan => plan.unresolvedKeys.isEmpty && plan.warnings.isEmpty }

end Executor

end ChainWeaver
