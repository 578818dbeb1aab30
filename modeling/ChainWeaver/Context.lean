import ChainWeaver.Record

/-!
# The execution context

How a step reads the context (`_resolve_inputs`) and how its outputs get back
into it (`_execution/context.py`).
-/

namespace ChainWeaver

def resolveSource (context : Dict) (label : String) (stepIndex : Int) : Value → Except Exc Value
  | .str source =>
    if Pointer.isPointer source then
      match Pointer.resolvePointer (.dict context.entries) source with
      | .ok value => .ok value
      | .error e => .error (.inputMapping label stepIndex e.failedAt)
    else
      match context.get? source with
      | some value => .ok value
      | none => .error (.inputMapping label stepIndex source)
  | literal => .ok literal

def resolveAll (context : Dict) (label : String) (stepIndex : Int) :
    List (String × Value) → Dict → Except Exc Dict
  | [], resolved => .ok resolved
  | (key, source) :: rest, resolved => do
    let value ← resolveSource context label stepIndex source
    resolveAll context label stepIndex rest (resolved.insert key value)

/-- `_resolve_inputs`. The only exception it raises is `InputMappingError`. -/
def resolveInputs (step : FlowStep) (context : Dict) (stepIndex : Int) : Except Exc Dict :=
  if step.inputMapping.isEmpty then .ok context
  else
    let label := (step.displayName?.filter (· ≠ "")).getD "<step>"
    resolveAll context label stepIndex step.inputMapping.entries .empty

/-- The inputs of a step whose sources resolve have this key. -/
def FlowStep.feeds (step : FlowStep) (context : OrderedDict α) (key : String) : Bool :=
  if step.inputMapping.isEmpty then context.contains key else step.inputMapping.contains key

def mapOutputs (outputs : Dict) (toolName : String) (stepIndex : Int) :
    List (String × String) → Dict → Except Exc Dict
  | [], mapped => .ok mapped
  | (contextKey, outputKey) :: rest, mapped =>
    match outputs.get? outputKey with
    | some value => mapOutputs outputs toolName stepIndex rest (mapped.insert contextKey value)
    | none => .error (.outputMapping toolName stepIndex outputKey outputs.keys)

def applyOutputMapping (outputs : Dict) (mapping : Option (OrderedDict String)) (toolName : String)
    (stepIndex : Int) : Except Exc Dict :=
  match mapping with
  | none => .ok outputs
  | some mapping => mapOutputs outputs toolName stepIndex mapping.entries .empty

/-- The keys of `outputs` that `context` already has, in the order of `outputs`. -/
def collisions (context outputs : Dict) : List String := outputs.keys.filter context.contains

/-- `merge_step_outputs` on outputs that are already mapped. -/
def mergeMapped (context outputs : Dict) (policy : ContextCollisionPolicy) (flowName : String)
    (stepIndex : Int) (stepName : String) : Except Exc Dict :=
  match policy, collisions context outputs with
  | .error, key :: keys => .error (.contextKeyCollision flowName stepIndex stepName (key :: keys))
  | _, _ => .ok (context.update outputs)

end ChainWeaver
