import ChainWeaver.RegistryLaws

/-!
# Schema drift

The tools of an executor beside the flows of its registry: what `register_tool` does
to the flows whose snapshot knows another schema of the tool, and what becomes of them.
-/

namespace ChainWeaver

structure DriftInfo where
  flowName : String
  toolName : String
  expectedHash : String
  actualHash : String
  deriving DecidableEq

/-- The steps of a flow, as the executor reads them. -/
def FullSteps.flowSteps (steps : FullSteps) : List FlowStep := steps.all.map (·.toFlowStep)

namespace FlowRegistry

inductive DriftError
  | registry (error : RegistryError)
  | assertion

/-- An executor and its registry. -/
structure DriftState (store : RegistryStore) where
  registered : State store
  tools : OrderedDict Tool := .empty

/-- The hashes of the registered tools among these steps. -/
def newHashes (tools : OrderedDict Tool) : List FlowStep → OrderedDict String → Except DriftError (OrderedDict String)
  | [], hashes => .ok hashes
  | step :: rest, hashes =>
    match step.displayName? with
    | none => .error .assertion
    | some name =>
      match tools.get? name with
      | some tool => newHashes tools rest (hashes.insert name tool.schemaHash)
      | none => newHashes tools rest hashes

/-- The entries of the report on one flow. -/
def driftOf (tools : OrderedDict Tool) (flow : FullFlow) : List DriftInfo :=
  match flow.toolSchemaHashes with
  | none => []
  | some hashes =>
    hashes.entries.filterMap fun entry =>
      match tools.get? entry.1 with
      | some tool =>
        if entry.2 ≠ tool.schemaHash then some ⟨flow.name, entry.1, entry.2, tool.schemaHash⟩ else none
      | none => none

/-- The snapshot of the flow knows another schema of the tool. -/
def mismatches (flow : FullFlow) (tool : Tool) : Bool :=
  flow.toolSchemaHashes.any fun hashes => (hashes.get? tool.name).any (· ≠ tool.schemaHash)

variable {V : Type} [LinearOrder V] (registry : FlowRegistry V)

def getDriftReport (state : DriftState registry.store) : Except DriftError (List DriftInfo) :=
  match registry.listFlows state.registered none [] with
  | .error error => .error (.registry error)
  | .ok flows => .ok (flows.flatMap (driftOf state.tools))

def acceptDrift (state : DriftState registry.store) (flowName : String) (version : Option String) :
    Except DriftError Unit × DriftState registry.store :=
  match registry.getFlow state.registered flowName version with
  | .error error => (.error (.registry error), state)
  | .ok flow =>
    match newHashes state.tools flow.steps.flowSteps .empty with
    | .error error => (.error error, state)
    | .ok hashes =>
      match registry.updateFlowState state.registered flowName version (some .active) (some (some hashes)) with
      | (.error error, registered) => (.error (.registry error), { state with registered })
      | (.ok _, registered) => (.ok (), { state with registered })

/-- Marks the listed flows that the new tool does not match. -/
def markDrifted (tool : Tool) (registered : State registry.store) :
    List FullFlow → Except RegistryError Unit × State registry.store
  | [] => (.ok (), registered)
  | flow :: rest =>
    if mismatches flow tool then
      match registry.setFlowStatus registered flow.name .needsReview (some flow.version) with
      | (.error error, registered) => (.error error, registered)
      | (.ok (), registered) => markDrifted tool registered rest
    else markDrifted tool registered rest

/-- `_handle_schema_drift`. -/
def handleSchemaDrift (registered : State registry.store) (tool : Tool) :
    Except RegistryError Unit × State registry.store :=
  match registry.listFlows registered none [] with
  | .error error => (.error error, registered)
  | .ok flows => registry.markDrifted tool registered flows

/-- A tool whose name is known and whose schema has changed. -/
def changed (tools : OrderedDict Tool) (tool : Tool) : Bool :=
  (tools.get? tool.name).any fun old => old.schemaHash ≠ tool.schemaHash

def registerTool (state : DriftState registry.store) (tool : Tool) :
    Except DriftError Unit × DriftState registry.store :=
  if changed state.tools tool then
    match registry.handleSchemaDrift state.registered tool with
    | (.error error, registered) => (.error (.registry error), { state with registered })
    | (.ok (), registered) => (.ok (), { registered, tools := state.tools.insert tool.name tool })
  else (.ok (), { state with tools := state.tools.insert tool.name tool })

-- Calls

inductive DriftOp
  | registerFlow (flow : FullFlow) (overwrite : Bool)
  | registerTool (tool : Tool)
  | acceptDrift (flowName : String) (version : Option String)
  | getDriftReport
  /-- A run reads the registry and the tools and changes neither. -/
  | run

inductive DriftAnswer
  | done
  | report (entries : List DriftInfo)
  | raised (error : DriftError)

def driftStep (state : DriftState registry.store) : DriftOp → DriftAnswer × DriftState registry.store
  | .registerFlow flow overwrite =>
    match registry.registerFlow state.registered flow overwrite with
    | (.error error, registered) => (.raised (.registry error), { state with registered })
    | (.ok (), registered) => (.done, { state with registered })
  | .registerTool tool =>
    match registry.registerTool state tool with
    | (.error error, state) => (.raised error, state)
    | (.ok (), state) => (.done, state)
  | .acceptDrift flowName version =>
    match registry.acceptDrift state flowName version with
    | (.error error, state) => (.raised error, state)
    | (.ok (), state) => (.done, state)
  | .getDriftReport =>
    match registry.getDriftReport state with
    | .error error => (.raised error, state)
    | .ok entries => (.report entries, state)
  | .run => (.done, state)

/-- A new executor on a registry. -/
def driftMachine (registered : State registry.store) : Machine DriftOp DriftAnswer where
  State := DriftState registry.store
  start := { registered }
  step := registry.driftStep

end FlowRegistry

end ChainWeaver
