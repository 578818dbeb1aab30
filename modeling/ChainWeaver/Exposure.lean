import ChainWeaver.Document
import ChainWeaver.Reach
import ChainWeaver.Server

/-!
# Exposed flows

`FlowServer` exposes a flow by the contracts of its steps' tools. A run of the flow
can reach more tools than these: fallbacks, candidates, and what is behind a tool that
wraps a flow.
-/

namespace ChainWeaver.Server

open Executor

-- Contracts

def stabilityOrder : StabilityLevel → Nat
  | .stable => 0 | .bestEffort => 1 | .unstable => 2

def determinismOrder : DeterminismLevel → Nat
  | .full => 0 | .partly => 1 | .none => 2

/-- `max(items, key=order.__getitem__)`: the first of the greatest. -/
def maxBy (order : α → Nat) (first : α) (rest : List α) : α :=
  rest.foldl (fun best item => if order best < order item then item else best) first

def approvalReasons (contracts : List ToolSafetyContract) : List String :=
  ((contracts.filter (·.requiresApproval)).filterMap (·.approvalReason.filter (· ≠ ""))).eraseDups

def mergeSafety : List ToolSafetyContract → ToolSafetyContract
  | [] => { readOnly_eq := SideEffectLevel.readOnly_none }
  | first :: rest =>
    let contracts := first :: rest
    { sideEffects := maxBy SideEffectLevel.order first.sideEffects (rest.map (·.sideEffects))
      stability := maxBy stabilityOrder first.stability (rest.map (·.stability))
      determinismLevel := maxBy determinismOrder first.determinismLevel (rest.map (·.determinismLevel))
      idempotent := contracts.all (·.idempotent)
      cacheable := contracts.all (·.cacheable)
      safeToRetry := contracts.all (·.safeToRetry)
      supportsDryRun := contracts.all (·.supportsDryRun)
      requiresApproval := contracts.any (·.requiresApproval)
      approvalReason := some ("; ".intercalate (approvalReasons contracts)) |>.filter (· ≠ "") }

theorem maxBy_mem (order : α → Nat) (first : α) (rest : List α) : maxBy order first rest ∈ first :: rest := by
  induction rest generalizing first with
  | nil => exact List.mem_cons_self
  | cons item rest ih =>
    have h := ih (if order first < order item then item else first)
    rcases List.mem_cons.1 h with h | h
    · rw [maxBy, List.foldl_cons, ← maxBy, h]
      split <;> simp
    · exact List.mem_cons_of_mem _ (List.mem_cons_of_mem _ h)

theorem le_maxBy (order : α → Nat) (first : α) (rest : List α) (hmem : item ∈ first :: rest) :
    order item ≤ order (maxBy order first rest) := by
  induction rest generalizing first item with
  | nil =>
    obtain rfl := List.mem_singleton.1 hmem
    exact le_rfl
  | cons next rest ih =>
    have hstep : order item ≤ order (if order first < order next then next else first) ∨ item ∈ rest := by
      simp only [List.mem_cons] at hmem
      rcases hmem with rfl | rfl | hmem
      · split <;> omega
      · split <;> omega
      · exact .inr hmem
    rcases hstep with hle | hmem
    · exact hle.trans (ih _ List.mem_cons_self)
    · exact ih _ (List.mem_cons_of_mem _ hmem)

/-- The merged contract asks for approval if one of the contracts does. -/
theorem mergeSafety_requiresApproval (contracts : List ToolSafetyContract) :
    (mergeSafety contracts).requiresApproval = contracts.any (·.requiresApproval) := by
  cases contracts <;> rfl

-- The server

/-- The settings are those an explicit argument or the profile has fixed. -/
structure FlowServer where
  executor : Executor
  /-- `Tool.safety_declared`. -/
  safetyDeclared : Tool → Bool
  /-- `flow.safety` and `flow.governance`, which no run reads. -/
  flowSafety : AnyFlow → Option ToolSafetyContract
  governance : AnyFlow → FlowGovernance
  /-- `Version(version) > Version(current)`. -/
  newer : String → String → Bool
  serverPrefix : String := ""
  explicitFlowNames : Option (List String) := none
  forceExpose : Bool := false
  allowedLifecycles : List FlowLifecycle := [.active]
  allowedSideEffects : List SideEffectLevel := [.none, .read]
  owners : Option (List String) := none
  allowRequiresApproval : Bool := false

namespace FlowServer

variable (server : FlowServer)

/-- The contracts of the steps' tools, if every step has a registered tool that
declares one. -/
def stepContracts : List FlowStep → Option (List ToolSafetyContract)
  | [] => some []
  | step :: rest =>
    match step.target with
    | .flow _ => none
    | .tool toolName =>
      match server.executor.tools.get? toolName with
      | none => none
      | some tool =>
        if server.safetyDeclared tool then (stepContracts rest).map (tool.safety :: ·) else none

def resolveFlowSafety (flow : AnyFlow) : Option ToolSafetyContract :=
  match server.flowSafety flow with
  | some safety => some safety
  | none =>
    match server.stepContracts flow.steps with
    | none | some [] => none
    | some contracts => some (mergeSafety contracts)

def implicitExclusionReason (flow : AnyFlow) (safety : Option ToolSafetyContract) : Option String :=
  let governance := server.governance flow
  if governance.lifecycle ∉ server.allowedLifecycles then some s!"lifecycle is '{governance.lifecycle.text}'"
  else if server.owners.any fun owners => !(governance.owner.any (owners.contains ·)) then
    let owner := (governance.owner.map Value.quote).getD "None"
    some s!"owner {owner} is not allowed"
  else
    match safety with
    | none => some "safety metadata is missing or cannot be derived"
    | some safety =>
      if safety.sideEffects ∉ server.allowedSideEffects then some s!"side effects are '{safety.sideEffects.value}'"
      else if safety.requiresApproval && !server.allowRequiresApproval then some "human approval is required"
      else none

/-- The newest active flow of each name, in the order of the names. -/
def latestActive : List AnyFlow :=
  let active := (server.executor.registry.flows.map Prod.snd).filter (·.header.status = .active)
  let latest := active.foldl (fun latest flow =>
    match latest.get? flow.header.name with
    | none => latest.insert flow.header.name flow
    | some current =>
      if server.newer flow.header.version current.header.version then latest.insert flow.header.name flow else latest)
    (.empty : OrderedDict AnyFlow)
  latest.entries.map Prod.snd

def candidates : Except Exc (List AnyFlow) :=
  match server.explicitFlowNames with
  | none => .ok server.latestActive
  | some flowNames => flowNames.mapM fun flowName => server.executor.registry.getFlow flowName none

def mcpName (flow : AnyFlow) : String :=
  if server.serverPrefix ≠ "" then s!"{server.serverPrefix}__{flow.header.name}" else flow.header.name

/-- What `_register_flow` appends to the flows registered so far. -/
def registerFlow (exposed : List AnyFlow) (flow : AnyFlow) : Except Exc (List AnyFlow) :=
  let name := server.mcpName flow
  if name ∈ exposed.map server.mcpName then .error (.other "ValueError" s!"MCP tool name collision for '{name}'.")
  else .ok (exposed ++ [flow])

def exposeFlow (exposed : List AnyFlow) (flow : AnyFlow) : Except Exc (List AnyFlow) :=
  let forced := server.explicitFlowNames.isSome && server.forceExpose
  if !forced && (server.implicitExclusionReason flow (server.resolveFlowSafety flow)).isSome then .ok exposed
  else server.registerFlow exposed flow

/-- The flows that are exposed, unless the constructor raises. -/
def registerAllFlows : Except Exc (List AnyFlow) :=
  match server.candidates with
  | .error e => .error e
  | .ok flows => flows.foldlM server.exposeFlow []

-- What a server clears

/-- A tool with a declared contract that the settings of the server allow. -/
structure Cleared (tool : Tool) : Prop where
  declared : server.safetyDeclared tool = true
  level : tool.safety.sideEffects ∈ server.allowedSideEffects
  approval : server.allowRequiresApproval = true ∨ tool.safety.requiresApproval = false

instance (tool : Tool) : Decidable (server.Cleared tool) :=
  decidable_of_iff (server.safetyDeclared tool = true ∧ tool.safety.sideEffects ∈ server.allowedSideEffects ∧
      (server.allowRequiresApproval = true ∨ tool.safety.requiresApproval = false))
    ⟨fun ⟨hdeclared, hlevel, happroval⟩ => ⟨hdeclared, hlevel, happroval⟩, fun h => ⟨h.declared, h.level, h.approval⟩⟩

/-- No run of the flow from here enters a tool that is not cleared. -/
def Guards (flow : AnyFlow) : Prop :=
  ∀ lane input call stack state events r state', call.version = some flow.header.version →
    (server.executor.enter stack (executeIn lane flow.header.name input call)).Runs state events r state' →
      ∀ e ∈ events, ∀ tool, entered e = some tool → server.Cleared tool

variable {server}

theorem stepContracts_mem (h : server.stepContracts steps = some contracts) (hstep : step ∈ steps) :
    ∃ toolName tool, step.target = .tool toolName ∧ server.executor.tools.get? toolName = some tool ∧
      server.safetyDeclared tool = true ∧ tool.safety ∈ contracts := by
  induction steps generalizing contracts with
  | nil => cases hstep
  | cons first rest ih =>
    unfold stepContracts at h
    split at h
    · cases h
    next toolName htarget =>
    split at h
    · cases h
    next tool htool =>
    split at h
    next hdeclared =>
      obtain ⟨others, hothers, rfl⟩ := Option.map_eq_some_iff.1 h
      rcases List.mem_cons.1 hstep with rfl | hstep
      · exact ⟨toolName, tool, htarget, htool, hdeclared, List.mem_cons_self⟩
      · obtain ⟨toolName, tool, htarget, htool, hdeclared, hmem⟩ := ih hothers hstep
        exact ⟨toolName, tool, htarget, htool, hdeclared, List.mem_cons_of_mem _ hmem⟩
    · cases h

theorem resolveFlowSafety_derived (h : server.resolveFlowSafety flow = some safety)
    (hderived : server.flowSafety flow = none) :
    ∃ contracts, server.stepContracts flow.steps = some contracts ∧ safety = mergeSafety contracts := by
  unfold resolveFlowSafety at h
  rw [hderived] at h
  dsimp only at h
  split at h
  · cases h
  · cases h
  next contracts _ hcontracts => exact ⟨contracts, hcontracts, (Option.some.inj h).symm⟩

theorem exclusion_none (h : server.implicitExclusionReason flow safety = none) :
    ∃ contract, safety = some contract ∧ contract.sideEffects ∈ server.allowedSideEffects ∧
      (server.allowRequiresApproval = true ∨ contract.requiresApproval = false) := by
  unfold implicitExclusionReason at h
  dsimp only at h
  split at h
  · cases h
  split at h
  · cases h
  split at h
  · cases h
  next contract =>
  split at h
  · cases h
  next hlevel =>
  split at h
  · cases h
  next happroval =>
    refine ⟨contract, rfl, not_not.1 hlevel, ?_⟩
    simp only [Bool.and_eq_true, Bool.not_eq_true', not_and, Bool.not_eq_false] at happroval
    cases hrequires : contract.requiresApproval with
    | false => exact .inr rfl
    | true => exact .inl (happroval hrequires)

variable (server) in
/-- There is no reason to exclude the flow. -/
def Unexcluded (flow : AnyFlow) : Prop :=
  server.implicitExclusionReason flow (server.resolveFlowSafety flow) = none

theorem exposeFlow_unexcluded (hforce : server.forceExpose = false) (hexposed : ∀ flow ∈ exposed, server.Unexcluded flow)
    (h : server.exposeFlow exposed flow = .ok exposed') : ∀ flow ∈ exposed', server.Unexcluded flow := by
  unfold exposeFlow at h
  dsimp only at h
  rw [hforce, Bool.and_false, Bool.not_false, Bool.true_and] at h
  split at h
  · obtain rfl := Except.ok.inj h
    exact hexposed
  next hreason =>
    unfold registerFlow at h
    dsimp only at h
    split at h
    · cases h
    · obtain rfl := Except.ok.inj h
      intro other hother
      rcases List.mem_append.1 hother with hother | hother
      · exact hexposed other hother
      · obtain rfl := List.mem_singleton.1 hother
        simpa [Unexcluded] using hreason

theorem exposeAll_unexcluded (hforce : server.forceExpose = false) (flows : List AnyFlow)
    (hexposed : ∀ flow ∈ exposed, server.Unexcluded flow) (h : flows.foldlM server.exposeFlow exposed = .ok exposed') :
    ∀ flow ∈ exposed', server.Unexcluded flow := by
  induction flows generalizing exposed with
  | nil =>
    obtain rfl := Except.ok.inj h
    exact hexposed
  | cons flow rest ih =>
    rw [List.foldlM_cons] at h
    cases hnext : server.exposeFlow exposed flow with
    | error e =>
      rw [hnext] at h
      cases h
    | ok middle =>
      rw [hnext] at h
      exact ih (exposeFlow_unexcluded hforce hexposed hnext) h

/-- Without force, no flow is exposed that there is a reason to exclude. -/
theorem registerAllFlows_unexcluded (h : server.registerAllFlows = .ok flows) (hforce : server.forceExpose = false)
    (hflow : flow ∈ flows) : server.Unexcluded flow := by
  unfold registerAllFlows at h
  split at h
  · cases h
  · exact exposeAll_unexcluded hforce _ (by simp) h flow hflow

/-- The tool of a step of an exposed flow is cleared, if its own level is allowed. -/
theorem exposed_step (h : server.registerAllFlows = .ok flows) (hforce : server.forceExpose = false)
    (hflow : flow ∈ flows) (hderived : server.flowSafety flow = none) (hstep : step ∈ flow.steps) :
    ∃ toolName tool, step.target = .tool toolName ∧ server.executor.tools.get? toolName = some tool ∧
      (tool.safety.sideEffects ∈ server.allowedSideEffects → server.Cleared tool) := by
  obtain ⟨contract, hsafety, -, happroval⟩ := exclusion_none (registerAllFlows_unexcluded h hforce hflow)
  obtain ⟨contracts, hcontracts, rfl⟩ := resolveFlowSafety_derived hsafety hderived
  obtain ⟨toolName, tool, htarget, htool, hdeclared, hmem⟩ := stepContracts_mem hcontracts hstep
  refine ⟨toolName, tool, htarget, htool, fun hlevel => ⟨hdeclared, hlevel, happroval.imp_right fun hnone => ?_⟩⟩
  rw [mergeSafety_requiresApproval, List.any_eq_false] at hnone
  exact Bool.eq_false_iff.2 (hnone _ hmem)

-- What a run can reach

variable (server) in
/-- A name that leads to cleared tools and listed flows only. -/
def Safe (listed : String → Prop) (name : String) : Prop :=
  ∀ tool, server.executor.tools.get? name = some tool → server.Cleared tool ∧
    ∀ flowName toolName stepCount, tool.fn = .flow flowName toolName stepCount → listed flowName

variable (server) in
/-- What the exposure of a flow does not look at: the levels of the tools one by one,
the tools beside those of the steps, and the flows that tools wrap. -/
structure Contained (flow : AnyFlow) (listed : String → Prop) : Prop where
  level : ∀ step ∈ flow.steps, ∀ name tool, step.target = .tool name →
    server.executor.tools.get? name = some tool → tool.safety.sideEffects ∈ server.allowedSideEffects
  wrapped : ∀ step ∈ flow.steps, ∀ name tool, step.target = .tool name →
    server.executor.tools.get? name = some tool →
      ∀ flowName toolName stepCount, tool.fn = .flow flowName toolName stepCount → listed flowName
  candidate : ∀ step ∈ flow.steps, ∀ names, step.decisionCandidates = some names →
    ∀ name ∈ names, server.Safe listed name
  fallback : ∀ step ∈ flow.steps, ∀ name, step.onError = .fallback name → server.Safe listed name
  nested : ∀ flowName flow, listed flowName → server.executor.registry.getFlow flowName none = .ok flow →
    ∀ step ∈ flow.steps, step.Within (server.Safe listed) listed

theorem Contained.within (hcontained : server.Contained flow listed) (h : server.registerAllFlows = .ok flows)
    (hforce : server.forceExpose = false) (hflow : flow ∈ flows) (hderived : server.flowSafety flow = none)
    (hstep : step ∈ flow.steps) : step.Within (server.Safe listed) listed where
  tool name hname tool htool := by
    obtain ⟨toolName, tool', htarget, htool', hcleared⟩ := exposed_step h hforce hflow hderived hstep
    obtain rfl := Target.tool.inj (hname.symm.trans htarget)
    obtain rfl := Option.some.inj (htool.symm.trans htool')
    exact ⟨hcleared (hcontained.level step hstep name tool hname htool),
      hcontained.wrapped step hstep name tool hname htool⟩
  flow name hname := by
    obtain ⟨toolName, tool, htarget, -⟩ := exposed_step h hforce hflow hderived hstep
    cases htarget.symm.trans hname
  candidate := hcontained.candidate step hstep
  fallback := hcontained.fallback step hstep

/-- A run of an exposed flow enters cleared tools only, if what the exposure does not
look at leads to no other ones. -/
theorem exposed_guards (server : FlowServer) (h : server.registerAllFlows = .ok flows)
    (hforce : server.forceExpose = false) (hflow : flow ∈ flows) (hderived : server.flowSafety flow = none)
    (hfiled : server.executor.registry.getFlow flow.header.name (some flow.header.version) = .ok flow)
    (hcontained : server.Contained flow listed) : server.Guards flow := by
  intro lane input call stack state events r state' hversion hrun e he tool htool
  have hsteps : ∀ found, server.executor.registry.getFlow flow.header.name call.version = .ok found →
      ∀ step ∈ found.steps, step.Within (server.Safe listed) listed := by
    intro found hfound step hstep
    rw [hversion] at hfound
    obtain rfl := Except.ok.inj (hfiled.symm.trans hfound)
    exact hcontained.within h hforce hflow hderived hstep
  exact entered_good hsteps hcontained.nested hrun he htool

-- A fallback that writes

def exposedFlow (fallbackName : String) : Flow :=
  { name := "f", steps := [Sample.orElse fallbackName (Sample.step "a")] }

/-- Tools `a` and `b` are read-only, and `c` declares nothing. -/
def exposingServer (fallbackName : String) : FlowServer where
  executor := Sample.executor [.linear (exposedFlow fallbackName)] [Sample.tool "a", Sample.tool "b", Sample.tool "c"]
  safetyDeclared tool := tool.name ≠ "c"
  flowSafety _ := none
  governance _ := {}
  newer _ _ := false

/-- Tool `a` fails, any other tool answers. -/
def failingFirst (invocation : Invocation) : Except Exc Value :=
  if invocation.tool.name = "a" then .error (.flowExecution "a" 0 "boom") else Sample.named invocation

def exposedRun (fallbackName : String) : List Event × Except Exc ExecutionResult × RunScopedState :=
  Sample.run failingFirst none 0
    ((exposingServer fallbackName).executor.enter 1 (executeIn .sync "f" .empty { version := some "0.1.0" }))

theorem exposed_guards_fallback : ∃ e ∈ (exposedRun "b").1, ∃ tool, entered e = some tool ∧ tool.name = "b" ∧
    (exposingServer "b").Cleared tool := by
  have henters : (exposedRun "b").1.any (fun e => (entered e).any (·.name = "b")) = true := by decide +kernel
  obtain ⟨e, he, henters⟩ := List.any_eq_true.1 henters
  obtain ⟨tool, htool, hname⟩ := (Option.any_eq_true ..).1 henters
  have hsafe : ∀ name, name = "a" ∨ name = "b" → (exposingServer "b").Safe (fun _ => False) name := by
    rintro name (rfl | rfl) tool htool
    all_goals
      obtain rfl := Option.some.inj htool
      exact ⟨by decide, by simp [Sample.tool]⟩
  have hcontained : (exposingServer "b").Contained (.linear (exposedFlow "b")) fun _ => False := by
    refine ⟨fun step hstep => ?_, fun step hstep => ?_, fun step hstep => ?_, fun step hstep => ?_, by simp⟩
    all_goals obtain rfl : step = Sample.orElse "b" (Sample.step "a") := List.mem_singleton.1 hstep
    · rintro name tool hname htool
      obtain rfl := Target.tool.inj hname
      exact (hsafe "a" (.inl rfl) tool htool).1.level
    · rintro name tool hname htool
      obtain rfl := Target.tool.inj hname
      exact (hsafe "a" (.inl rfl) tool htool).2
    · rintro names hnames
      cases hnames
    · rintro name hname
      obtain rfl : "b" = name := by simpa [Sample.orElse] using hname
      exact hsafe "b" (.inr rfl)
  have hflows : (exposingServer "b").registerAllFlows = .ok [.linear (exposedFlow "b")] := rfl
  exact ⟨e, he, tool, htool, by simpa using hname,
    exposed_guards (exposingServer "b") hflows rfl List.mem_cons_self rfl rfl
      hcontained .sync .empty { version := some "0.1.0" } 1 {} _ _ _ rfl (Sample.run_runs failingFirst none 0 _) e he
      tool htool⟩

theorem undeclared_fallback_exposed :
    ¬∀ (server : FlowServer) (flows : List AnyFlow) (flow : AnyFlow), server.registerAllFlows = .ok flows →
      server.forceExpose = false → flow ∈ flows → server.flowSafety flow = none →
      server.executor.registry.getFlow flow.header.name (some flow.header.version) = .ok flow →
      server.Guards flow := by
  intro h
  have henters : (exposedRun "c").1.any (fun e => (entered e).any (·.name = "c")) = true := by decide +kernel
  obtain ⟨e, he, henters⟩ := List.any_eq_true.1 henters
  obtain ⟨tool, htool, hname⟩ := (Option.any_eq_true ..).1 henters
  have hcleared := h (exposingServer "c") [.linear (exposedFlow "c")] (.linear (exposedFlow "c")) rfl rfl
    List.mem_cons_self rfl rfl .sync .empty { version := some "0.1.0" } 1 {} _ _ _ rfl
    (Sample.run_runs failingFirst none 0 _) e he tool htool
  have hdeclared : decide (tool.name ≠ "c") = true := hcleared.declared
  exact absurd (by simpa using hname) (of_decide_eq_true hdeclared)

end FlowServer

end ChainWeaver.Server
