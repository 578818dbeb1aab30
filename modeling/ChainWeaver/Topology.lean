import ChainWeaver.Record

/-!
# DAG topology

`validate_dag_topology` and `_compute_dag_levels`. The order inside a level
comes from `graphlib`, which walks Python sets, so the iteration order of a set
is a parameter.
-/

namespace ChainWeaver

/-- What the interpreter decides about sets and `graphlib` about cycles. -/
structure Hashing where
  /-- The order in which a set with these elements is walked. -/
  setOrder : List String → List String
  /-- The text of a `CycleError` for a graph. -/
  cycleText : List (String × List String) → String
  setOrder_perm : ∀ elements, (setOrder elements).Perm elements := by exact fun _ => .rfl

namespace Topology

/-- The first step id that occurs again. -/
def duplicateId : List DAGFlowStep → List String → Option String
  | [], _ => none
  | step :: rest, seen =>
    if seen.contains step.stepId then some step.stepId else duplicateId rest (step.stepId :: seen)

def unknownDependency (stepIds : List String) : List DAGFlowStep → Option (String × String)
  | [] => none
  | step :: rest =>
    match step.dependsOn.find? fun dep => !stepIds.contains dep with
    | some dep => some (step.stepId, dep)
    | none => unknownDependency stepIds rest

/-- The ids of the steps that list `stepId` as a dependency, in declaration order. -/
def dependents (steps : List DAGFlowStep) (stepId : String) : List String :=
  (steps.filter fun step => step.dependsOn.contains stepId).map (·.stepId)

-- graphlib.TopologicalSorter

/-- The nodes in the order the sorter meets them: each step, then its
dependencies. -/
def nodes (hashing : Hashing) (steps : List DAGFlowStep) : List String :=
  steps.foldl (fun acc step =>
    (step.stepId :: hashing.setOrder step.dependsOn.dedup).foldl
      (fun acc node => if acc.contains node then acc else acc ++ [node]) acc) []

/-- Marks `node` done and collects the steps that wait for nothing else. -/
def release (steps : List DAGFlowStep) (done ready : List String) (node : String) :
    List String × List String :=
  let done := node :: done
  let freed := steps.filter fun step =>
    step.dependsOn.contains node && step.dependsOn.all done.contains
  (done, ready ++ freed.map (·.stepId))

/-- `static_order`: ready nodes are handed out group by group. `fuel` bounds the
number of groups; each group but the last holds at least one node. -/
def staticOrder (steps : List DAGFlowStep) : Nat → List String → List String → List String
  | 0, _, _ => []
  | fuel + 1, done, group =>
    match group with
    | [] => []
    | _ :: _ =>
      let next := group.foldl (fun acc node => release steps acc.1 acc.2 node) (done, [])
      group ++ staticOrder steps fuel next.1 next.2

def topoOrder (hashing : Hashing) (steps : List DAGFlowStep) : List String :=
  let all := nodes hashing steps
  let roots := all.filter fun node => steps.all fun step => step.stepId != node || step.dependsOn.isEmpty
  staticOrder steps (all.length + 1) [] roots

/-- Nodes on or behind a cycle never become ready. -/
def hasCycle (hashing : Hashing) (steps : List DAGFlowStep) : Bool :=
  (topoOrder hashing steps).length < (nodes hashing steps).length

/-- The first branch or default target that is no direct dependent of its step. -/
def badTarget (steps : List DAGFlowStep) (stepIds : List String) (step : DAGFlowStep) :
    List (String × String) → Option String
  | [] => none
  | (target, label) :: rest =>
    if !stepIds.contains target then
      some s!"Step '{step.stepId}' {label} '{target}' is not a declared step id."
    else if !(dependents steps step.stepId).contains target then
      some (s!"Step '{step.stepId}' {label} '{target}' is not a direct dependent (target must list " ++
        s!"'{step.stepId}' in its depends_on).")
    else badTarget steps stepIds step rest

def branchTargets (step : DAGFlowStep) : List (String × String) :=
  step.branches.map (fun edge => (edge.targetStepId, "branch target")) ++
    (step.defaultNext.toList.map fun target => (target, "default_next target"))

end Topology

open ChainWeaver.Topology

def validateDagTopology (hashing : Hashing) (flow : DAGFlow) : Except Exc Unit :=
  let stepIds := flow.steps.map (·.stepId)
  match duplicateId flow.steps [] with
  | some stepId =>
    .error (.dagDefinition flow.name "duplicate_step_id" s!"Step id '{stepId}' appears more than once.")
  | none =>
    match unknownDependency stepIds flow.steps with
    | some (stepId, dep) =>
      .error (.dagDefinition flow.name "unknown_dependency"
        s!"Step '{stepId}' depends on unknown step id '{dep}'.")
    | none =>
      if hasCycle hashing flow.steps then
        let graph := flow.steps.map fun step => (step.stepId, step.dependsOn)
        .error (.dagDefinition flow.name "cycle" s!"Dependency cycle detected: {hashing.cycleText graph}.")
      else
        match flow.steps.findSome? fun step => badTarget flow.steps stepIds step (branchTargets step) with
        | some detail => .error (.dagDefinition flow.name "unknown_branch_target" detail)
        | none => .ok ()

/-- The level of each step id met so far: 0 for a root, one more than the
highest dependency otherwise. -/
def stepLevels (steps : List DAGFlowStep) : List String → List (String × Nat) → List (String × Nat)
  | [], levels => levels
  | stepId :: rest, levels =>
    let dependsOn := ((steps.find? fun step => step.stepId = stepId).map (·.dependsOn)).getD []
    let level :=
      if dependsOn.isEmpty then 0
      else (dependsOn.map fun dep => (levels.lookup dep).getD 0).foldl max 0 + 1
    stepLevels steps rest (levels ++ [(stepId, level)])

def computeDagLevels (hashing : Hashing) (flow : DAGFlow) : Except Exc (List (List DAGFlowStep)) := do
  validateDagTopology hashing flow
  let levels := stepLevels flow.steps (topoOrder hashing flow.steps) []
  let count := (levels.map fun entry => entry.2 + 1).foldl max 0
  pure ((List.range count).map fun level =>
    (levels.filter fun entry => entry.2 = level).filterMap fun entry =>
      flow.steps.find? fun step => step.stepId = entry.1)

end ChainWeaver
