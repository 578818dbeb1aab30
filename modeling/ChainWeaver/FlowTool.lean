import ChainWeaver.Data.Attempt
import ChainWeaver.Exposure

/-!
# Flows as tools

`Tool.from_flow` wraps a flow, and derives the contract of the tool from the tools
that the steps name. What else a run of the flow may call is not looked at.
-/

namespace ChainWeaver.Executor

open Server (mergeSafety maxBy le_maxBy stabilityOrder determinismOrder)

-- `Tool.from_flow`

/-- The keyword arguments. -/
structure Overrides where
  name : Option String := none
  inputSchema : Option Schema := none
  outputSchema : Option Schema := none
  safety : Option ToolSafetyContract := none

/-- `_terminal_step`. -/
def terminalStep : AnyFlow → Except Exc FlowStep
  | .linear flow =>
    match flow.steps.getLast? with
    | some step => .ok step
    | none => .error (.other "IndexError" "list index out of range")
  | .dag flow =>
    let referenced := flow.steps.flatMap (·.dependsOn)
    match flow.steps.filter fun step => !referenced.contains step.stepId with
    | [step] => .ok step.toFlowStep
    | [] => .error (.toolDefinition flow.name
        "DAG has no sink node; cannot derive output schema. Pass output_schema=... explicitly.")
    | sinks =>
      let sinkIds := ", ".intercalate (sinks.map fun step => s!"'{step.stepId}'")
      .error (.toolDefinition flow.name (s!"DAG has multiple sink nodes ({sinkIds}); output schema is ambiguous. " ++
        "Pass output_schema=... explicitly."))

/-- The schema of a step's tool, `kind` being `input` or `output` and `place` the
words for the step. -/
def stepSchema (executor : Executor) (flowName kind place : String) (schema : Tool → Schema) (step : FlowStep) :
    Except Exc Schema :=
  match step.target with
  | .flow name => .error (.toolDefinition flowName
      (s!"Cannot derive {kind} schema: {place} step runs sub-flow '{name}'. Set Flow.{kind}_schema_ref or " ++
        s!"pass {kind}_schema=... explicitly."))
  | .tool name =>
    match executor.getTool name with
    | .ok tool => .ok (schema tool)
    | .error _ => .error (.toolDefinition flowName
        (s!"Cannot derive {kind} schema: {place} step's tool '{name}' is not registered on the executor. " ++
          s!"Pass {kind}_schema=... or register the tool first."))

/-- The override, or the class the flow refers to, or the schema of one of its steps. -/
def deriveSchema (executor : Executor) (flowName kind place : String) (override ref : Option String)
    (schema : Tool → Schema) (step : Except Exc FlowStep) : Except Exc Schema :=
  match override, ref with
  | some override, _ => .ok override
  | none, some ref =>
    match executor.platform.resolveClassRef ref with
    | .ok resolved => .ok resolved
    | .error e => .error (.toolDefinition flowName s!"Cannot resolve Flow.{kind}_schema_ref '{ref}': {e.message}")
  | none, none =>
    match step with
    | .ok step => stepSchema executor flowName kind place schema step
    | .error e => .error e

def firstStep (flow : AnyFlow) : Except Exc FlowStep :=
  match flow.steps with
  | first :: _ => .ok first
  | [] => .error (.other "IndexError" "list index out of range")

/-- The contracts of the steps' tools, and whether all of them are declared. -/
def constituentContracts (executor : Executor) (declared : Tool → Bool) : List FlowStep → List ToolSafetyContract × Bool
  | [] => ([], true)
  | step :: rest =>
    let (contracts, all) := constituentContracts executor declared rest
    match step.target with
    | .flow _ => (contracts, false)
    | .tool name =>
      match executor.tools.get? name with
      | none => (contracts, false)
      | some tool => (tool.safety :: contracts, declared tool && all)

def resolveSafety (executor : Executor) (declared : Tool → Bool) (steps : List FlowStep)
    (override flowSafety : Option ToolSafetyContract) : ToolSafetyContract × Bool :=
  match override, flowSafety with
  | some safety, _ => (safety, true)
  | none, some safety => (safety, true)
  | none, none =>
    let (contracts, all) := constituentContracts executor declared steps
    (mergeSafety contracts, all)

/-- `Tool.from_flow`, and whether the contract of the tool counts as declared.
`flowSafety` is `flow.safety`, which no run reads, `declared` is
`Tool.safety_declared`, and `fingerprint` the combined hash of two schemas. -/
def fromFlow (executor : Executor) (declared : Tool → Bool) (fingerprint : Schema → Schema → String) (flow : AnyFlow)
    (flowSafety : Option ToolSafetyContract) (overrides : Overrides) : Except Exc (Tool × Bool) := do
  let header := flow.header
  if flow.steps.isEmpty then
    .error (.toolDefinition header.name "Cannot wrap a flow with no steps as a tool.")
  else
    let toolName := overrides.name.getD header.name
    let inputSchema ← deriveSchema executor header.name "input" "first" overrides.inputSchema header.inputSchemaRef
      (·.inputSchema) (firstStep flow)
    let outputSchema ← deriveSchema executor header.name "output" "terminal" overrides.outputSchema
      header.outputSchemaRef (·.outputSchema) (terminalStep flow)
    let (safety, all) := resolveSafety executor declared flow.steps overrides.safety flowSafety
    if h : safety.supportsDryRun = true then
      .error (.toolDefinition toolName "safety.supports_dry_run=True requires a dry_run_fn to be supplied.")
    else
      .ok ({ name := toolName, inputSchema, outputSchema, fn := .flow header.name toolName flow.steps.length,
             cacheable := safety.cacheable, safety, schemaHash := fingerprint inputSchema outputSchema,
             dryRun_supplied := fun hsupports => absurd hsupports h }, all)

-- Restrictiveness

/-- `bound` is at least as restrictive as `contract` in every field. -/
structure Bounds (bound contract : ToolSafetyContract) : Prop where
  sideEffects : contract.sideEffects.order ≤ bound.sideEffects.order
  stability : stabilityOrder contract.stability ≤ stabilityOrder bound.stability
  determinism : determinismOrder contract.determinismLevel ≤ determinismOrder bound.determinismLevel
  idempotent : bound.idempotent = true → contract.idempotent = true
  safeToRetry : bound.safeToRetry = true → contract.safeToRetry = true
  requiresApproval : contract.requiresApproval = true → bound.requiresApproval = true

theorem mergeSafety_bounds {contract : ToolSafetyContract} {contracts : List ToolSafetyContract}
    (hmem : contract ∈ contracts) : Bounds (mergeSafety contracts) contract := by
  cases contracts with
  | nil => cases hmem
  | cons first rest =>
    have hgreatest : ∀ {β : Type} (order : β → Nat) (field : ToolSafetyContract → β),
        order (field contract) ≤ order (maxBy order (field first) (rest.map field)) := fun order field =>
      le_maxBy order _ _ (List.mem_map_of_mem (f := field) hmem)
    exact {
      sideEffects := hgreatest _ (·.sideEffects)
      stability := hgreatest _ (·.stability)
      determinism := hgreatest _ (·.determinismLevel)
      idempotent := fun hall => List.all_eq_true.1 hall contract hmem
      safeToRetry := fun hall => List.all_eq_true.1 hall contract hmem
      requiresApproval := fun happroval => List.any_eq_true.2 ⟨contract, hmem, happroval⟩ }

theorem constituentContracts_mem {executor : Executor} {declared : Tool → Bool} {steps : List FlowStep} {step : FlowStep}
    {name : String} {tool : Tool} (hstep : step ∈ steps) (htarget : step.target = .tool name)
    (htool : executor.tools.get? name = some tool) :
    tool.safety ∈ (constituentContracts executor declared steps).1 := by
  induction steps with
  | nil => cases hstep
  | cons first rest ih =>
    rw [constituentContracts]
    rcases List.mem_cons.1 hstep with rfl | hstep
    · simp [htarget, htool]
    · have hmem := ih hstep
      cases first.target with
      | flow other => exact hmem
      | tool other =>
        cases hother : executor.tools.get? other with
        | none => simpa [hother] using hmem
        | some found => simpa [hother] using .inr hmem

theorem fromFlow_safety {executor : Executor} {declared : Tool → Bool} {fingerprint : Schema → Schema → String}
    {flow : AnyFlow} {flowSafety : Option ToolSafetyContract} {overrides : Overrides} {wrapped : Tool} {all : Bool}
    (h : fromFlow executor declared fingerprint flow flowSafety overrides = .ok (wrapped, all)) :
    wrapped.safety = (resolveSafety executor declared flow.steps overrides.safety flowSafety).1 := by
  unfold fromFlow at h
  dsimp only at h
  split at h
  · cases h
  · obtain ⟨inputSchema, _, h⟩ := Attempt.bind_eq_ok.1 h
    obtain ⟨outputSchema, _, h⟩ := Attempt.bind_eq_ok.1 h
    split at h
    · cases h
    · cases h
      rfl

-- Which flows are wrapped

/-- A class that the flow refers to does not resolve. -/
def RefUnresolvable (executor : Executor) (flow : AnyFlow) : Prop :=
  ∃ ref e, (flow.header.inputSchemaRef = some ref ∨ flow.header.outputSchemaRef = some ref) ∧
    executor.platform.resolveClassRef ref = .error e

/-- The contract of the flow, or else the contracts of all registered tools of its
steps, promise a preview. -/
def PromisesPreview (executor : Executor) (flow : AnyFlow) (flowSafety : Option ToolSafetyContract) : Prop :=
  (∀ safety, flowSafety = some safety → safety.supportsDryRun = true) ∧
    (flowSafety = none → ∀ step ∈ flow.steps, ∀ name tool, step.target = .tool name →
      executor.tools.get? name = some tool → tool.safety.supportsDryRun = true)

theorem mergeSafety_supportsDryRun {contracts : List ToolSafetyContract} (h : contracts ≠ []) :
    (mergeSafety contracts).supportsDryRun = contracts.all (·.supportsDryRun) := by
  cases contracts with
  | nil => exact absurd rfl h
  | cons first rest => rfl

theorem mem_constituentContracts {executor : Executor} {declared : Tool → Bool} {steps : List FlowStep}
    {contract : ToolSafetyContract} (hmem : contract ∈ (constituentContracts executor declared steps).1) :
    ∃ step ∈ steps, ∃ name tool, step.target = .tool name ∧ executor.tools.get? name = some tool ∧
      tool.safety = contract := by
  induction steps with
  | nil => cases hmem
  | cons first rest ih =>
    have hrest : contract ∈ (constituentContracts executor declared rest).1 → ∃ step ∈ first :: rest, ∃ name tool,
        step.target = .tool name ∧ executor.tools.get? name = some tool ∧ tool.safety = contract := by
      intro hmem
      obtain ⟨step, hstep, hfound⟩ := ih hmem
      exact ⟨step, List.mem_cons_of_mem _ hstep, hfound⟩
    rw [constituentContracts] at hmem
    cases htarget : first.target with
    | flow name =>
      simp only [htarget] at hmem
      exact hrest hmem
    | tool name =>
      cases htool : executor.tools.get? name with
      | none =>
        simp only [htarget, htool] at hmem
        exact hrest hmem
      | some tool =>
        simp only [htarget, htool, List.mem_cons] at hmem
        rcases hmem with rfl | hmem
        · exact ⟨first, List.mem_cons_self, name, tool, htarget, htool, rfl⟩
        · exact hrest hmem

section Returns

variable {executor : Executor} {declared : Tool → Bool} {fingerprint : Schema → Schema → String} {flow : AnyFlow}
  {flowSafety : Option ToolSafetyContract} {first last : FlowStep} {firstName lastName : String}
  {firstTool lastTool : Tool}

/-- Without an override the merged contract promises a preview if all of its parts do. -/
theorem resolveSafety_supportsDryRun (hstep : first ∈ flow.steps) (htarget : first.target = .tool firstName)
    (htool : executor.tools.get? firstName = some firstTool) :
    (resolveSafety executor declared flow.steps none flowSafety).1.supportsDryRun = true ↔
      executor.PromisesPreview flow flowSafety := by
  cases flowSafety with
  | some safety => simp [resolveSafety, PromisesPreview]
  | none =>
    have hne : (constituentContracts executor declared flow.steps).1 ≠ [] :=
      List.ne_nil_of_mem (constituentContracts_mem hstep htarget htool)
    simp only [resolveSafety, mergeSafety_supportsDryRun hne, List.all_eq_true, PromisesPreview, reduceCtorEq,
      false_implies, implies_true, true_and, forall_const]
    constructor
    · intro hall step hstep name tool htarget htool
      exact hall _ (constituentContracts_mem hstep htarget htool)
    · intro hall contract hmem
      obtain ⟨step, hstep, name, tool, htarget, htool, rfl⟩ := mem_constituentContracts hmem
      exact hall step hstep name tool htarget htool

/-- A registered tool at the place leaves the reference as the one reason to refuse. -/
theorem deriveSchema_fails {kind place : String} {ref : Option String} {schema : Tool → Schema} {step : FlowStep}
    {name : String} {tool : Tool} (htarget : step.target = .tool name) (htool : executor.tools.get? name = some tool) :
    (∃ e, deriveSchema executor flowName kind place none ref schema (.ok step) = .error e) ↔
      ∃ text e, ref = some text ∧ executor.platform.resolveClassRef text = .error e := by
  have hget : executor.getTool name = .ok tool := by simp [getTool, htool]
  cases ref with
  | none => simp [deriveSchema, stepSchema, htarget, hget]
  | some text => cases hresolve : executor.platform.resolveClassRef text <;> simp [deriveSchema, hresolve]

/-- A flow whose first and terminal steps are registered tools is refused for what the
docstring lists, a reference that does not resolve, and no other reason, if and only
if such a reference comes first or not all of its contracts promise a preview. -/
theorem fromFlow_refuses (hfirst : firstStep flow = .ok first) (hfirstTarget : first.target = .tool firstName)
    (hfirstTool : executor.tools.get? firstName = some firstTool) (hlast : terminalStep flow = .ok last)
    (hlastTarget : last.target = .tool lastName) (hlastTool : executor.tools.get? lastName = some lastTool) :
    (∀ e, fromFlow executor declared fingerprint flow flowSafety {} = .error e → executor.RefUnresolvable flow) ↔
      executor.RefUnresolvable flow ∨ ¬executor.PromisesPreview flow flowSafety := by
  obtain ⟨rest, hsteps⟩ : ∃ rest, flow.steps = first :: rest := by
    unfold firstStep at hfirst
    split at hfirst
    · next other rest hsteps => exact ⟨rest, hsteps.trans (by rw [Except.ok.inj hfirst])⟩
    · cases hfirst
  have hmem : first ∈ flow.steps := by simp [hsteps]
  have hnonempty : flow.steps.isEmpty = false := by simp [hsteps]
  cases hinput : deriveSchema executor flow.header.name "input" "first" none flow.header.inputSchemaRef
    (·.inputSchema) (firstStep flow) with
  | error e =>
    rw [hfirst] at hinput
    obtain ⟨ref, e, href, hresolve⟩ := (deriveSchema_fails hfirstTarget hfirstTool).1 ⟨e, hinput⟩
    have hunresolvable : executor.RefUnresolvable flow := ⟨ref, e, .inl href, hresolve⟩
    exact iff_of_true (fun _ _ => hunresolvable) (.inl hunresolvable)
  | ok inputSchema =>
    cases houtput : deriveSchema executor flow.header.name "output" "terminal" none flow.header.outputSchemaRef
      (·.outputSchema) (terminalStep flow) with
    | error e =>
      rw [hlast] at houtput
      obtain ⟨ref, e, href, hresolve⟩ := (deriveSchema_fails hlastTarget hlastTool).1 ⟨e, houtput⟩
      have hunresolvable : executor.RefUnresolvable flow := ⟨ref, e, .inr href, hresolve⟩
      exact iff_of_true (fun _ _ => hunresolvable) (.inl hunresolvable)
    | ok outputSchema =>
      have hresolvable : ¬executor.RefUnresolvable flow := by
        rintro ⟨ref, e, href | href, hresolve⟩
        · obtain ⟨e, hfails⟩ := (deriveSchema_fails hfirstTarget hfirstTool).2 ⟨ref, e, href, hresolve⟩
          rw [hfirst] at hinput
          cases hfails.symm.trans hinput
        · obtain ⟨e, hfails⟩ := (deriveSchema_fails hlastTarget hlastTool).2 ⟨ref, e, href, hresolve⟩
          rw [hlast] at houtput
          cases hfails.symm.trans houtput
      have hpreview : (resolveSafety executor declared flow.steps none flowSafety).1.supportsDryRun = true ↔
          executor.PromisesPreview flow flowSafety := resolveSafety_supportsDryRun hmem hfirstTarget hfirstTool
      have hfrom : (∃ e, fromFlow executor declared fingerprint flow flowSafety {} = .error e) ↔
          executor.PromisesPreview flow flowSafety := by
        rw [← hpreview]
        simp only [fromFlow, hnonempty, hinput, houtput, Bool.false_eq_true, if_false]
        split
        · next hdry => exact iff_of_true ⟨_, rfl⟩ hdry
        · next hdry =>
          refine iff_of_false ?_ hdry
          rintro ⟨e, herror⟩
          cases herror
      rw [or_iff_right hresolvable, ← hfrom]
      constructor
      · rintro hlisted ⟨e, herror⟩
        exact hresolvable (hlisted e herror)
      · intro hreturns e herror
        exact absurd ⟨e, herror⟩ hreturns

end Returns

/-- Its one tool promises a preview. -/
def previewTool : Tool :=
  { Sample.tool "a" with
    safety := { supportsDryRun := true, readOnly_eq := SideEffectLevel.readOnly_none }
    hasDryRunFn := true, dryRun_supplied := fun _ => rfl }

def plainFlow : AnyFlow := .linear { name := "f", steps := [Sample.step "a"] }

def fromPlainFlow (tool : Tool) : Except Exc (Tool × Bool) :=
  fromFlow (Sample.executor [plainFlow] [tool]) (fun _ => true) (fun _ _ => "") plainFlow none {}

theorem plainFlow_resolves {tool : Tool} : ¬(Sample.executor [plainFlow] [tool]).RefUnresolvable plainFlow := by
  rintro ⟨ref, e, href | href, -⟩ <;> cases href

/-- A tool without a preview is wrapped. -/
theorem fromFlow_refuses_plain : ∃ wrapped, fromPlainFlow (Sample.tool "a") = .ok wrapped := by
  have hrefuses : (∀ e, fromPlainFlow (Sample.tool "a") = .error e →
      (Sample.executor [plainFlow] [Sample.tool "a"]).RefUnresolvable plainFlow) ↔ _ ∨
        ¬(Sample.executor [plainFlow] [Sample.tool "a"]).PromisesPreview plainFlow none :=
    fromFlow_refuses rfl rfl rfl rfl rfl rfl
  cases hwrapped : fromPlainFlow (Sample.tool "a") with
  | ok wrapped => exact ⟨wrapped, rfl⟩
  | error e =>
    refine absurd (hrefuses.2 (.inr fun hpreview => ?_) e hwrapped) plainFlow_resolves
    cases hpreview.2 rfl (Sample.step "a") List.mem_cons_self "a" (Sample.tool "a") rfl rfl

/-- One with a preview is refused, for the preview that the wrapper does not have. -/
theorem preview_refused : fromPlainFlow previewTool =
      .error (.toolDefinition "f" "safety.supports_dry_run=True requires a dry_run_fn to be supplied.") ∧
    ¬(Sample.executor [plainFlow] [previewTool]).RefUnresolvable plainFlow :=
  ⟨rfl, plainFlow_resolves⟩

-- The bound over runs

/-- Every tool that any run of the flow enters is within the contract. -/
def Covers (executor : Executor) (bound : ToolSafetyContract) (flow : AnyFlow) : Prop :=
  ∀ lane input call stack state events r state', executor.registry.getFlow flow.header.name call.version = .ok flow →
    (executor.enter stack (executeIn lane flow.header.name input call)).Runs state events r state' →
      ∀ e ∈ events, ∀ tool, entered e = some tool → Bounds bound tool.safety

/-- What the derivation does not look at is within the contract: the fallbacks and
candidates, the flows behind tools, and the steps' own tools where the flow brings a
contract. -/
structure Contained (executor : Executor) (bound : ToolSafetyContract) (flow : AnyFlow)
    (flowSafety : Option ToolSafetyContract) (listed : String → Prop) : Prop where
  given : flowSafety ≠ none → ∀ step ∈ flow.steps, ∀ name tool, step.target = .tool name →
    executor.tools.get? name = some tool → Bounds bound tool.safety
  wrapped : ∀ step ∈ flow.steps, ∀ name tool, step.target = .tool name → executor.tools.get? name = some tool →
    ∀ flowName toolName stepCount, tool.fn = .flow flowName toolName stepCount → listed flowName
  candidate : ∀ step ∈ flow.steps, ∀ names, step.decisionCandidates = some names →
    ∀ name ∈ names, executor.Leads (fun tool => Bounds bound tool.safety) listed name
  fallback : ∀ step ∈ flow.steps, ∀ name, step.onError = .fallback name →
    executor.Leads (fun tool => Bounds bound tool.safety) listed name
  nested : executor.Closed (fun tool => Bounds bound tool.safety) listed

section Bound

variable {executor : Executor} {declared : Tool → Bool} {fingerprint : Schema → Schema → String} {flow : AnyFlow}
  {flowSafety : Option ToolSafetyContract} {overrides : Overrides} {wrapped : Tool} {all : Bool} {listed : String → Prop}

/-- A derived contract bounds the contracts of the steps' own tools. -/
theorem derived_bounds (h : fromFlow executor declared fingerprint flow none overrides = .ok (wrapped, all))
    (hoverride : overrides.safety = none) {step : FlowStep} {name : String} {tool : Tool} (hstep : step ∈ flow.steps)
    (htarget : step.target = .tool name) (htool : executor.tools.get? name = some tool) :
    Bounds wrapped.safety tool.safety := by
  have hsafety := fromFlow_safety h
  rw [hoverride] at hsafety
  rw [hsafety]
  exact mergeSafety_bounds (constituentContracts_mem hstep htarget htool)

/-- Without an override of the contract, the tool of a flow of tool steps is at least
as restrictive as every tool a run of the flow enters, if fallbacks, candidates and
wrapped flows are within its contract. -/
theorem fromFlow_covers (h : fromFlow executor declared fingerprint flow flowSafety overrides = .ok (wrapped, all))
    (hoverride : overrides.safety = none) (hsteps : ∀ step ∈ flow.steps, ∃ name, step.target = .tool name)
    (hcontained : executor.Contained wrapped.safety flow flowSafety listed) : executor.Covers wrapped.safety flow := by
  intro lane input call stack state events r state' hflow hrun e he tool htool
  have hown : ∀ step ∈ flow.steps, ∀ name tool, step.target = .tool name → executor.tools.get? name = some tool →
      Bounds wrapped.safety tool.safety := by
    cases flowSafety with
    | some safety => exact hcontained.given (by simp)
    | none => exact fun step hstep name tool htarget htool => derived_bounds h hoverride hstep htarget htool
  have hwithin : ∀ step ∈ flow.steps,
      step.Within (executor.Leads (fun tool => Bounds wrapped.safety tool.safety) listed) listed := fun step hstep =>
    { tool := fun name hname tool htool =>
        ⟨hown step hstep name tool hname htool, hcontained.wrapped step hstep name tool hname htool⟩
      flow := by
        intro name hname
        obtain ⟨toolName, htarget⟩ := hsteps step hstep
        cases htarget.symm.trans hname
      candidate := hcontained.candidate step hstep
      fallback := hcontained.fallback step hstep }
  refine entered_good (fun found hfound => ?_) hcontained.nested hrun he htool
  obtain rfl := Except.ok.inj (hflow.symm.trans hfound)
  exact hwithin

end Bound

-- A fallback outside the contract

/-- A fallback for tool `a` of the flow, whose failure has it called. -/
def deleting : Tool :=
  { name := "b", inputSchema := "In", outputSchema := "Out",
    safety := { sideEffects := .destructive, idempotent := false, safeToRetry := false }, dryRun_supplied := nofun }

def guardedFlow : Flow := { name := "f", steps := [Sample.orElse "b" (Sample.step "a")] }

def wrappingExecutor (fallbackTool : Tool) : Executor :=
  Sample.executor [.linear guardedFlow] [Sample.tool "a", fallbackTool]

def wrappedRun (fallbackTool : Tool) : List Event × Except Exc ExecutionResult × RunScopedState :=
  Sample.run Server.FlowServer.failingFirst none 0
    ((wrappingExecutor fallbackTool).enter 1 (executeIn .sync "f" .empty { version := some "0.1.0" }))

def guardedTool (fallbackTool : Tool) : Except Exc (Tool × Bool) :=
  fromFlow (wrappingExecutor fallbackTool) (fun _ => true) (fun _ _ => "") (.linear guardedFlow) none {}

theorem fromFlow_covers_guarded : ∃ wrapped all, guardedTool (Sample.tool "b") = .ok (wrapped, all) ∧
    (wrappingExecutor (Sample.tool "b")).Covers wrapped.safety (.linear guardedFlow) := by
  obtain ⟨wrapped, all, htool, hsafety⟩ : ∃ wrapped all, guardedTool (Sample.tool "b") = .ok (wrapped, all) ∧
      wrapped.safety = (Sample.tool "b").safety := ⟨_, _, rfl, rfl⟩
  refine ⟨wrapped, all, htool, fromFlow_covers htool rfl ?_ (?_ : Contained _ _ _ _ fun _ => False)⟩
  · intro step hstep
    obtain rfl := List.mem_singleton.1 hstep
    exact ⟨"a", rfl⟩
  · have hleads : ∀ name, name = "a" ∨ name = "b" → (wrappingExecutor (Sample.tool "b")).Leads
        (fun tool => Bounds wrapped.safety tool.safety) (fun _ => False) name := by
      rintro name (rfl | rfl) tool hget
      all_goals
        obtain rfl := Option.some.inj hget
        exact ⟨by rw [hsafety]; exact ⟨le_rfl, le_rfl, le_rfl, id, id, id⟩, by simp [Sample.tool]⟩
    refine ⟨by simp, fun step hstep => ?_, fun step hstep => ?_, fun step hstep => ?_, by simp [Closed]⟩
    all_goals obtain rfl : step = Sample.orElse "b" (Sample.step "a") := List.mem_singleton.1 hstep
    · rintro name tool hname hget
      obtain rfl := Target.tool.inj hname
      exact (hleads "a" (.inl rfl) tool hget).2
    · rintro names hnames
      cases hnames
    · rintro name hname
      obtain rfl : "b" = name := by simpa [Sample.orElse] using hname
      exact hleads "b" (.inr rfl)

/-- The contract of the tool has no side effects, and a run calls the fallback. -/
theorem fallback_exceeds : ∃ wrapped all, guardedTool deleting = .ok (wrapped, all) ∧
    ¬ (wrappingExecutor deleting).Covers wrapped.safety (.linear guardedFlow) := by
  refine ⟨_, _, rfl, fun hcovers => ?_⟩
  have henters : (wrappedRun deleting).1.any (fun e => (entered e).any (·.safety.sideEffects = .destructive)) = true := by
    decide +kernel
  obtain ⟨e, he, henters⟩ := List.any_eq_true.1 henters
  obtain ⟨tool, htool, hlevel⟩ := (Option.any_eq_true ..).1 henters
  have hbound := hcovers .sync .empty { version := some "0.1.0" } 1 {} _ _ _ rfl
    (Sample.run_runs Server.FlowServer.failingFirst none 0 _) e he tool htool
  have hle := hbound.sideEffects
  rw [of_decide_eq_true hlevel] at hle
  exact absurd hle (by decide)

end ChainWeaver.Executor
