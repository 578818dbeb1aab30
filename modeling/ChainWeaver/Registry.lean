import ChainWeaver.FlowStore
import ChainWeaver.Topology

/-!
# The flow registry

`registry.py`: flows in a store, with a pointer to the latest version of each
name. An operation that raises keeps what it did before.
-/

namespace ChainWeaver

/-- What the registry asks of its store. -/
structure RegistryStore where
  State : Type
  saveFlow : State → FullFlow → Bool → Except FlowStoreError State
  loadFlow : State → FlowKey → Except FlowStoreError FullFlow
  listKeys : State → List FlowKey

def InMemoryStore.registryStore : RegistryStore := ⟨Flows, saveFlow, loadFlow, listKeys⟩

def FileStore.registryStore (store : FileStore) : RegistryStore := ⟨Dir, store.saveFlow, store.loadFlow, listKeys⟩

/-- What the executor reads of the step. -/
def FullDagStep.toDagFlowStep (step : FullDagStep) : DAGFlowStep where
  toFlowStep := step.toFlowStep
  stepId := step.stepId
  dependsOn := step.dependsOn
  stepType := step.stepType
  capabilityId := step.capabilityId
  branches := step.branches
  defaultNext := step.defaultNext
  dag_valid := step.dag_valid

inductive RegistryError
  | invalidFlowVersion (flowName version message : String)
  | dagDefinition (error : Exc)
  | flowNotFound (name : String)
  | store (error : FlowStoreError)
  | flowSerialization (detail source : String)
  | fileNotFound (message : String)
  | notADirectory (message : String)

/-- A file of a directory, as it is read. -/
structure FlowFile where
  /-- `str(path)` -/
  path : String
  /-- `path.name` -/
  name : String
  /-- The hash of its bytes. -/
  digest : String
  text : String
  /-- Its text, for the JSON decoder. -/
  json : JsonFile

/-- What a path leads to; the files of a directory are below it at any depth, in order. -/
inductive Directory
  | missing (path : String)
  | notADirectory (path : String)
  | files (resolved : String) (files : List FlowFile)

structure ReloadReport where
  added : List String := []
  updated : List String := []
  unchanged : List String := []

def ReloadReport.sorted (report : ReloadReport) : ReloadReport where
  added := report.added.insertionSort (· ≤ ·)
  updated := report.updated.insertionSort (· ≤ ·)
  unchanged := report.unchanged.insertionSort (· ≤ ·)

abbrev FlowHashes := AList fun _ : FlowKey => String

structure FlowRegistry (V : Type) where
  store : RegistryStore
  /-- `packaging.version.Version`, or the text of its `InvalidVersion`. -/
  parse : String → Except String V
  hashing : Hashing
  serializer : Serializer

namespace FlowRegistry

structure State (store : RegistryStore) where
  stored : store.State
  latest : OrderedDict String := .empty
  dirHashes : OrderedDict FlowHashes := .empty

variable {V : Type} [LinearOrder V] (registry : FlowRegistry V)

-- Versions

def parseVersion (flowName version : String) : Except RegistryError V :=
  match registry.parse version with
  | .ok parsed => .ok parsed
  | .error message => .error (.invalidFlowVersion flowName version message)

def touchLatest (latest : OrderedDict String) (name version : String) :
    Except RegistryError (OrderedDict String) := do
  let parsedNew ← registry.parseVersion name version
  match latest.get? name with
  | none => pure (latest.insert name version)
  | some current => do
    let parsedCurrent ← registry.parseVersion name current
    if parsedNew ≥ parsedCurrent then pure (latest.insert name version) else pure latest

def touchAll (keys : List FlowKey) : Except RegistryError (OrderedDict String) :=
  keys.foldlM (fun latest key => registry.touchLatest latest key.name key.version) .empty

/-- `__init__` over a store. -/
def init (stored : registry.store.State) : Except RegistryError (State registry.store) := do
  let latest ← registry.touchAll (registry.store.listKeys stored)
  pure { stored, latest }

-- Flows

def getFlow (state : State registry.store) (name : String) (version : Option String) :
    Except RegistryError FullFlow :=
  match version.or (state.latest.get? name) with
  | none => .error (.flowNotFound name)
  | some version =>
    match registry.store.loadFlow state.stored ⟨name, version⟩ with
    | .ok flow => .ok flow
    | .error error => .error (.store error)

def loadListed (state : State registry.store) : List FlowKey → Except RegistryError (List FullFlow)
  | [] => .ok []
  | key :: rest => do
    let flow ← registry.getFlow state key.name (some key.version)
    let flows ← loadListed state rest
    pure (flow :: flows)

def listFlows (state : State registry.store) (status : Option FlowStatus) (excludeStatus : List FlowStatus) :
    Except RegistryError (List FullFlow) := do
  let flows ← registry.loadListed state (registry.store.listKeys state.stored)
  pure (flows.filter fun flow => status.all (flow.status = ·) && !excludeStatus.contains flow.status)

/-- Saves the flow and moves the pointer. -/
def saveAndTouch (state : State registry.store) (flow : FullFlow) (overwrite : Bool) :
    Except RegistryError Unit × State registry.store :=
  match registry.store.saveFlow state.stored flow overwrite with
  | .error error => (.error (.store error), state)
  | .ok stored =>
    match registry.touchLatest state.latest flow.name flow.version with
    | .error error => (.error error, { state with stored })
    | .ok latest => (.ok (), { state with stored, latest })

def checkTopology (flow : FullFlow) : Except RegistryError Unit :=
  match flow.steps with
  | .linear _ => .ok ()
  | .dag steps =>
    match validateDagTopology registry.hashing
        { toFlowHeader := flow.toFlowHeader, steps := steps.map (·.toDagFlowStep) } with
    | .ok () => .ok ()
    | .error error => .error (.dagDefinition error)

def registerFlow (state : State registry.store) (flow : FullFlow) (overwrite : Bool) :
    Except RegistryError Unit × State registry.store :=
  match registry.parseVersion flow.name flow.version, registry.checkTopology flow with
  | .error error, _ => (.error error, state)
  | .ok _, .error error => (.error error, state)
  | .ok _, .ok () => registry.saveAndTouch state flow overwrite

/-- The flow with some of its state replaced. -/
def updated (flow : FullFlow) (status : Option FlowStatus)
    (toolSchemaHashes : Option (Option (OrderedDict String))) : FullFlow :=
  { flow with
    status := status.getD flow.status
    toolSchemaHashes := toolSchemaHashes.getD flow.toolSchemaHashes }

def updateFlowState (state : State registry.store) (flowName : String) (version : Option String)
    (status : Option FlowStatus) (toolSchemaHashes : Option (Option (OrderedDict String))) :
    Except RegistryError FullFlow × State registry.store :=
  match registry.getFlow state flowName version with
  | .error error => (.error error, state)
  | .ok flow =>
    if status = none ∧ toolSchemaHashes.isNone then (.ok flow, state)
    else
      let newFlow := updated flow status toolSchemaHashes
      match registry.saveAndTouch state newFlow true with
      | (.ok (), state) => (.ok newFlow, state)
      | (.error error, state) => (.error error, state)

def setFlowStatus (state : State registry.store) (flowName : String) (status : FlowStatus)
    (version : Option String) : Except RegistryError Unit × State registry.store :=
  match registry.updateFlowState state flowName version (some status) none with
  | (.ok _, state) => (.ok (), state)
  | (.error error, state) => (.error error, state)

-- Directories

def flowFileSuffixes : List String := [".flow.yaml", ".flow.yml", ".flow.json"]

def iterFlowFiles (files : List FlowFile) : List FlowFile :=
  files.filter fun file => flowFileSuffixes.any fun suffix => file.name.toLower.endsWith suffix

def loadFlowFile (file : FlowFile) : Except RegistryError FullFlow :=
  let read :=
    if file.name.toLower.endsWith ".flow.json" then registry.serializer.flowFromJson {} file.json
    else if file.name.toLower.endsWith ".flow.yaml" || file.name.toLower.endsWith ".flow.yml" then
      registry.serializer.flowFromYaml {} file.text
    else
      .error (s!"Unrecognised flow-file extension for '{file.name}'; " ++
        "expected one of ('.flow.yaml', '.flow.yml', '.flow.json').")
  match read with
  | .ok flow => .ok flow
  | .error detail => .error (.flowSerialization detail file.path)

/-- What a scan has seen. -/
structure Scan where
  hashes : FlowHashes := ∅
  seenPaths : List (FlowKey × FlowFile) := []
  report : ReloadReport := {}

def rejectDuplicateFlowKey (scan : Scan) (key : FlowKey) (file : FlowFile) : Except RegistryError Unit :=
  match scan.seenPaths.lookup key with
  | some prior =>
    .error (.flowSerialization (s!"Duplicate flow '{key.name}' version '{key.version}' defined by both " ++
      s!"'{prior.name}' and '{file.name}' in the same directory scan.") file.path)
  | none => .ok ()

def readFlow (scan : Scan) (file : FlowFile) : Except RegistryError FullFlow := do
  let flow ← registry.loadFlowFile file
  rejectDuplicateFlowKey scan flow.key file
  pure flow

def label (flow : FullFlow) : String := s!"{flow.name}@{flow.version}"

/-- The scan behind a file. -/
def Scan.visited (scan : Scan) (file : FlowFile) (flow : FullFlow) (report : ReloadReport) : Scan where
  hashes := scan.hashes.insert flow.key file.digest
  seenPaths := (flow.key, file) :: scan.seenPaths
  report := report

/-- Registers the flow of a file, or leaves it. -/
abbrev Visit (store : RegistryStore) :=
  State store → Scan → FlowFile → FullFlow → Except RegistryError ReloadReport × State store

def scanFiles (visit : Visit registry.store) (state : State registry.store) (scan : Scan) :
    List FlowFile → Except RegistryError Scan × State registry.store
  | [] => (.ok scan, state)
  | file :: rest =>
    match registry.readFlow scan file with
    | .error error => (.error error, state)
    | .ok flow =>
      match visit state scan file flow with
      | (.error error, state) => (.error error, state)
      | (.ok report, state) => scanFiles visit state (scan.visited file flow report) rest

def scanDirectory (visit : FlowHashes → Visit registry.store) (state : State registry.store) :
    Directory → Except RegistryError ReloadReport × State registry.store
  | .missing path => (.error (.fileNotFound s!"Flow directory not found: {path}"), state)
  | .notADirectory path => (.error (.notADirectory s!"Not a directory: {path}"), state)
  | .files resolved files =>
    let previous := (state.dirHashes.get? resolved).getD ∅
    match registry.scanFiles (visit previous) state {} (iterFlowFiles files) with
    | (.error error, state) => (.error error, state)
    | (.ok scan, state) =>
      (.ok scan.report.sorted, { state with dirHashes := state.dirHashes.insert resolved scan.hashes })

def loadVisit (overwrite : Bool) : Visit registry.store := fun state scan _ flow =>
  match registry.registerFlow state flow overwrite with
  | (.ok (), state) => (.ok { scan.report with added := scan.report.added ++ [label flow] }, state)
  | (.error error, state) => (.error error, state)

def reloadVisit (previous : FlowHashes) : Visit registry.store := fun state scan file flow =>
  match previous.lookup flow.key with
  | none =>
    match registry.registerFlow state flow true with
    | (.ok (), state) => (.ok { scan.report with added := scan.report.added ++ [label flow] }, state)
    | (.error error, state) => (.error error, state)
  | some digest =>
    if digest ≠ file.digest then
      match registry.registerFlow state flow true with
      | (.ok (), state) => (.ok { scan.report with updated := scan.report.updated ++ [label flow] }, state)
      | (.error error, state) => (.error error, state)
    else (.ok { scan.report with unchanged := scan.report.unchanged ++ [label flow] }, state)

def loadFromDirectory (state : State registry.store) (directory : Directory) (overwrite : Bool) :
    Except RegistryError ReloadReport × State registry.store :=
  registry.scanDirectory (fun _ => registry.loadVisit overwrite) state directory

def reloadFromDirectory (state : State registry.store) (directory : Directory) :
    Except RegistryError ReloadReport × State registry.store :=
  registry.scanDirectory registry.reloadVisit state directory

-- Calls

inductive Op
  | registerFlow (flow : FullFlow) (overwrite : Bool)
  | getFlow (name : String) (version : Option String)
  | updateFlowState (flowName : String) (version : Option String) (status : Option FlowStatus)
      (toolSchemaHashes : Option (Option (OrderedDict String)))
  | setFlowStatus (flowName : String) (status : FlowStatus) (version : Option String)
  | loadFromDirectory (directory : Directory) (overwrite : Bool)
  | reloadFromDirectory (directory : Directory)

inductive Answer
  | done
  | flow (flow : FullFlow)
  | report (report : ReloadReport)
  | raised (error : RegistryError)

def answered (answer : α → Answer) (outcome : Except RegistryError α × σ) : Answer × σ :=
  (match outcome.1 with | .ok result => answer result | .error error => .raised error, outcome.2)

def step (state : State registry.store) : Op → Answer × State registry.store
  | .registerFlow flow overwrite => answered (fun _ => .done) (registry.registerFlow state flow overwrite)
  | .getFlow name version => answered .flow (registry.getFlow state name version, state)
  | .updateFlowState flowName version status toolSchemaHashes =>
    answered .flow (registry.updateFlowState state flowName version status toolSchemaHashes)
  | .setFlowStatus flowName status version =>
    answered (fun _ => .done) (registry.setFlowStatus state flowName status version)
  | .loadFromDirectory directory overwrite => answered .report (registry.loadFromDirectory state directory overwrite)
  | .reloadFromDirectory directory => answered .report (registry.reloadFromDirectory state directory)

/-- A registry that has been opened over a store. -/
def machine (opened : State registry.store) : Machine Op Answer where
  State := State registry.store
  start := opened
  step := registry.step

end FlowRegistry

end ChainWeaver
