import ChainWeaver.Entry

/-!
# Sample surroundings

A platform and surroundings simple enough to compute whole runs against: schemas
accept every dict, callbacks approve, and trace ids are counted.
-/

namespace ChainWeaver.Sample

open Interaction (Prog)

def platform : Platform where
  hashing := { setOrder := id, cycleText := fun _ => "" }
  resolveClassRef := fun ref => .ok ref
  resolveErrors := fun _ => .ok fun _ => true
  modelValidate := fun _ value =>
    match value with
    | .dict entries => .ok (.ofList entries)
    | _ => .error (.validation "not a dict")
  inputValueHash := fun _ _ => .ok ""
  jsonSize := fun _ => .ok 0
  -- A predicate holds if its text is `yes`; the empty text does not parse.
  parsePredicate := fun text =>
    if text = "" then .error (.predicateSyntax text "invalid syntax")
    else .ok (.constant (.bool (text = "yes")))

/-- Answers that depend on the tools, on one stored snapshot, and on the number of
trace ids given out. -/
def answer (fn : Invocation → Except Exc Value) (saved : Option ExecutionSnapshot) (drawn : Nat) :
    (kind : EffectKind) → kind.Query → kind.Reply × Nat
  | .newTraceId, _ => (toString drawn, drawn + 1)
  | .hook, _ => ((), drawn)
  | .probe, _ => ((), drawn)
  | .callTool, invocation => (fn invocation, drawn)
  | .runDry, _ => (.ok (.dict []), drawn)
  | .stream, _ => (([], none), drawn)
  | .decide, ctx => (.ok ctx.defaultToolName, drawn)
  | .decideTimed, ctx => (some (.ok ctx.defaultToolName), drawn)
  | .approve, _ => (.ok (.decision .approve), drawn)
  | .check, _ => (.ok (), drawn)
  | .kernelInvoke, _ => (.ok (.dict []), drawn)
  | .cacheGet, _ => (.ok none, drawn)
  | .cacheSet, _ => (.ok (), drawn)
  | .save, _ => (.ok (), drawn)
  | .load, _ => (.ok saved, drawn)
  | .delete, _ => (.ok (), drawn)
  | .clock, _ => (0, drawn)
  | .isCancelled, _ => (false, drawn)
  | .schedule, _ => ([], drawn)

/-- A run from a fresh state, with its trace and its outcome. -/
def run (fn : Invocation → Except Exc Value) (saved : Option ExecutionSnapshot) (drawn : Nat)
    (call : Exec ExecutionResult) : List Event × Except Exc ExecutionResult × RunScopedState :=
  let ran := Prog.exec (S := Effects) (answer fn saved) drawn (call {})
  (ran.1, ran.2.1)

theorem run_runs (fn : Invocation → Except Exc Value) (saved : Option ExecutionSnapshot) (drawn : Nat)
    (call : Exec ExecutionResult) :
    Interaction.Comp.Runs call {} (run fn saved drawn call).1 (run fn saved drawn call).2.1
      (run fn saved drawn call).2.2 :=
  Prog.exec_runs (S := Effects) (answer fn saved) drawn (call {})

theorem run_answered (h : (⟨kind, query, reply⟩ : Event) ∈ (run fn saved drawn call).1) :
    ∃ drawn, reply = (answer fn saved drawn kind query).1 :=
  Prog.exec_answered (S := Effects) (answer fn saved) drawn (call {}) h

/-- A run loads no snapshot but the stored one. -/
theorem run_load (h : (⟨.load, traceId, .ok (some snapshot)⟩ : Event) ∈ (run fn saved drawn call).1) :
    saved = some snapshot := by
  obtain ⟨_, hreply⟩ := Prog.exec_answered (S := Effects) (answer fn saved) drawn (call {}) h
  exact (Except.ok.inj hreply).symm

/-- The result of a run that returns. -/
def resultOf (ran : List Event × Except Exc ExecutionResult × RunScopedState) : Option ExecutionResult :=
  match ran.2.1 with
  | .ok result => some result
  | .error _ => none

theorem resultOf_eq (h : resultOf ran = some result) : ran.2.1 = .ok result := by
  unfold resultOf at h
  split at h
  · next hr => exact Option.some.inj h ▸ hr
  · cases h

theorem run_returns (h : resultOf (run fn saved drawn call) = some result) :
    Interaction.Comp.Runs call {} (run fn saved drawn call).1 (.ok result) (run fn saved drawn call).2.2 :=
  resultOf_eq h ▸ run_runs fn saved drawn call

def tool (name : String) : Tool := { name, inputSchema := "In", outputSchema := "Out" }

/-- A step that runs a tool on the whole context, and one that runs a flow. -/
def step (name : String) : FlowStep := { target := .tool name }

def subflow (name : String) : FlowStep := { target := .flow name }

def taking (inputs : List (String × Value)) (step : FlowStep) : FlowStep :=
  { step with inputMapping := .ofList inputs }

def giving (outputs : List (String × String)) (step : FlowStep) : FlowStep :=
  { step with outputMapping := some (.ofList outputs) }

def orElse (fallbackName : String) (step : FlowStep) : FlowStep := { step with onError := .fallback fallbackName }

/-- The step as a node of a DAG. -/
def node (stepId : String) (dependsOn : List String) (step : FlowStep) : DAGFlowStep :=
  { step with stepId, dependsOn }

/-- A tool answers with one key, its own name. -/
def named (invocation : Invocation) : Except Exc Value := .ok (.dict [(invocation.tool.name, .int 1)])

/-- The flows and the tools that the runs below are made of. -/
def executor (flows : List AnyFlow) (tools : List Tool) : Executor :=
  { platform
    registry :=
      { flows := flows.map fun flow => ((flow.header.name, flow.header.version), flow)
        latest := .ofList (flows.map fun flow => (flow.header.name, flow.header.version)) }
    tools := .ofList (tools.map fun tool => (tool.name, tool)) }

end ChainWeaver.Sample
