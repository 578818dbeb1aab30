import ChainWeaver.Entry
import ChainWeaver.Interaction.Lockstep

/-!
# Executors with other tools

A second executor that differs from a first one in its tools and in its safety
settings. A step runs alike on both if the tools it can reach do.
-/

namespace ChainWeaver

open Interaction (Alike Pairing)

-- Tools renamed in questions

def Invocation.rename (swap : Tool → Tool) (invocation : Invocation) : Invocation :=
  { invocation with tool := swap invocation.tool }

def NestedOrigin.rename (swap : Tool → Tool) : NestedOrigin → NestedOrigin
  | .tool wrapper inputs => .tool (swap wrapper) inputs
  | .step composed context stepIndex => .step composed context stepIndex

def Probe.rename (swap : Tool → Tool) : Probe → Probe
  | .invoke traceId stepIndex tool inputs => .invoke traceId stepIndex (swap tool) inputs
  | .nestedStart origin input => .nestedStart (origin.rename swap) input
  | .nestedEnd origin raised => .nestedEnd (origin.rename swap) raised
  | mark => mark

def renameTools (swap : Tool → Tool) : Interaction.Renaming Effects
  | .probe, mark => Probe.rename swap mark
  | .callTool, invocation => Invocation.rename swap invocation
  | .runDry, invocation => Invocation.rename swap invocation
  | .stream, invocation => Invocation.rename swap invocation
  | .newTraceId, query => query
  | .hook, query => query
  | .decide, query => query
  | .decideTimed, query => query
  | .approve, query => query
  | .check, query => query
  | .kernelInvoke, query => query
  | .cacheGet, query => query
  | .cacheSet, query => query
  | .save, query => query
  | .load, query => query
  | .delete, query => query
  | .clock, query => query
  | .isCancelled, query => query
  | .schedule, query => query

-- What a step can reach

/-- The names that a step can bring a run to: tools that are `known` and flows that
are `listed`. -/
structure FlowStep.Within (known listed : String → Prop) (step : FlowStep) : Prop where
  tool : ∀ name, step.target = .tool name → known name
  flow : ∀ name, step.target = .flow name → listed name
  candidate : ∀ names, step.decisionCandidates = some names → ∀ name ∈ names, known name
  fallback : ∀ name, step.onError = .fallback name → known name

theorem FlowStep.Within.withTool {step : FlowStep} (h : step.Within known listed) (hchosen : known chosen)
    (hv : candidatesValid (.tool chosen) step.decisionCandidates = true) :
    (step.withTool chosen hv).Within known listed where
  tool name hname := by
    obtain rfl := Target.tool.inj hname
    exact hchosen
  flow name hname := by cases hname
  candidate := h.candidate
  fallback := h.fallback

theorem FlowStep.Within.displayName {step : FlowStep} {target : String} (h : step.Within known listed)
    (htarget : step.target = .tool target) (hname : step.displayName? = some toolName) : known toolName := by
  refine h.tool _ (htarget.trans ?_)
  unfold FlowStep.displayName? at hname
  rw [htarget] at hname
  dsimp only at hname
  split at hname
  · cases hname
  · rw [Option.some.inj hname]

namespace Executor

/-- The safety settings of an executor. -/
structure Settings where
  hasApprovalCallback : Bool := false
  strictSafety : Bool := false
  maxSideEffectLevel : Option SideEffectLevel := none
  hasGuardrailCallback : Bool := false

def settings (executor : Executor) : Settings where
  hasApprovalCallback := executor.hasApprovalCallback
  strictSafety := executor.strictSafety
  maxSideEffectLevel := executor.maxSideEffectLevel
  hasGuardrailCallback := executor.hasGuardrailCallback

/-- The executor with other tools and other settings. -/
def outfit (executor : Executor) (tools : OrderedDict Tool) (settings : Settings) : Executor :=
  { executor with
    tools,
    hasApprovalCallback := settings.hasApprovalCallback,
    strictSafety := settings.strictSafety,
    maxSideEffectLevel := settings.maxSideEffectLevel,
    hasGuardrailCallback := settings.hasGuardrailCallback }

/-- Two executors, and what their runs are compared on: the tool of the second that
stands for a tool of the first, the states and the events, and the tools and flows
that a run may come to. -/
structure Twin where
  executor : Executor
  tools : OrderedDict Tool
  settings : Settings
  swap : Tool → Tool
  Inv : RunScopedState → Prop
  A : Event → Prop
  known : String → Prop
  listed : String → Prop

namespace Twin

variable (T : Twin)

def other : Executor := T.executor.outfit T.tools T.settings

abbrev pairing : Pairing Effects RunScopedState := { swap := renameTools T.swap, Inv := T.Inv, A := T.A }

/-- The same computation, up to the tools it names. -/
abbrev Same (c c' : Exec α) : Prop := T.pairing.Lockstep c c' Eq

/-- The second executor treats the tool that stands for `tool` as the first one
treats `tool`. -/
structure Matches (tool : Tool) : Prop where
  name : (T.swap tool).name = tool.name
  inputSchema : (T.swap tool).inputSchema = tool.inputSchema
  outputSchema : (T.swap tool).outputSchema = tool.outputSchema
  fn : (T.swap tool).fn = tool.fn
  maxOutputSize : (T.swap tool).maxOutputSize = tool.maxOutputSize
  cacheable : (T.swap tool).cacheable = tool.cacheable
  schemaHash : (T.swap tool).schemaHash = tool.schemaHash
  listed : ∀ flowName toolName stepCount, tool.fn = .flow flowName toolName stepCount → T.listed flowName
  gate : ∀ info inputs, T.Same (T.executor.evaluateSafetyGate info tool inputs)
    (T.other.evaluateSafetyGate info (T.swap tool) inputs)
  guardrail : ∀ info inputs, T.Same (T.executor.evaluateInputGuardrail info tool inputs)
    (T.other.evaluateInputGuardrail info (T.swap tool) inputs)
  dryDispatch : ∀ lane info toolName inputs record,
    T.Same (T.executor.dryDispatch lane info toolName tool inputs record)
      (T.other.dryDispatch lane info toolName (T.swap tool) inputs record)
  retry : (T.other.strictSafety && Executor.retryDisallowedByContract (T.swap tool)) =
    (T.executor.strictSafety && Executor.retryDisallowedByContract tool)

structure Faithful : Prop where
  /-- The states differ in the dry run mode at most. -/
  stable : ∀ state state' : RunScopedState, state'.dryRun = state.dryRun → T.Inv state → T.Inv state'
  schemaHash : ∀ name, (T.tools.get? name).map (·.schemaHash) = (T.executor.tools.get? name).map (·.schemaHash)
  tool : ∀ name tool, T.known name → T.executor.tools.get? name = some tool →
    T.tools.get? name = some (T.swap tool) ∧ T.Matches tool
  steps : ∀ flowName flow, T.listed flowName → T.executor.registry.getFlow flowName none = .ok flow →
    ∀ step ∈ flow.steps, step.Within T.known T.listed

variable {T}

-- The primitives

theorem same_perform {query query' : kind.Query} (h : query' = renameTools T.swap kind query) :
    T.Same (perform kind query) (perform kind query') :=
  .ask h

theorem same_fire {hook : Hook} : T.Same (fire hook) (fire hook) := .ask rfl

theorem same_probe {mark mark' : Probe} (h : mark' = mark.rename T.swap) : T.Same (probe mark) (probe mark') :=
  .ask h

theorem lockstep_raise {e : Exc} {V : α → β → Prop} :
    T.pairing.Lockstep (raise e : Exec α) (raise e : Exec β) V :=
  .bind (same_probe rfl) fun _ => .throw

theorem same_refuse {e : Exc} : T.Same (refuse e : Exec α) (refuse e) :=
  .bind (same_probe rfl) fun _ => .throw

theorem lockstep_ofExcept {x : Except Exc α} :
    T.pairing.Lockstep (ofExcept x) (ofExcept x) fun value value' => value' = value ∧ x = .ok value := by
  cases x with
  | ok value => exact .pure ⟨rfl, rfl⟩
  | error e => exact lockstep_raise

theorem same_ofExcept {x : Except Exc α} : T.Same (ofExcept x) (ofExcept x) :=
  lockstep_ofExcept.weaken fun _ _ h => h.1.symm

theorem lockstep_orRefuse {x : Except Exc α} :
    T.pairing.Lockstep (orRefuse x) (orRefuse x) fun value value' => value' = value ∧ x = .ok value := by
  cases x with
  | ok value => exact .pure ⟨rfl, rfl⟩
  | error e => exact .bind (same_probe rfl) fun _ => .throw

theorem same_orRefuse {x : Except Exc α} : T.Same (orRefuse x) (orRefuse x) :=
  lockstep_orRefuse.weaken fun _ _ h => h.1.symm

theorem same_rethrow {x : Except Exc α} : T.Same (rethrow x) (rethrow x) := by
  cases x with
  | ok value => exact .pure rfl
  | error e => exact .throw

theorem lockstep_displayName {step : FlowStep} :
    T.pairing.Lockstep (displayName step) (displayName step) fun name name' =>
      name' = name ∧ step.displayName? = some name := by
  unfold displayName
  split
  · next hname => exact .pure ⟨rfl, hname⟩
  · exact lockstep_raise

theorem same_displayName {step : FlowStep} : T.Same (displayName step) (displayName step) :=
  lockstep_displayName.weaken fun _ _ h => h.1.symm

theorem same_nestedCall {origin origin' : NestedOrigin} {body body' : Exec α} (h : T.Same body body')
    (horigin : origin' = origin.rename T.swap) :
    T.Same (nestedCall origin input body) (nestedCall origin' input body') := by
  subst horigin
  exact .bind (same_probe rfl) fun _ => .attempt_bind h fun _ => .bind (same_probe rfl) fun _ => same_rethrow

-- Running a tool

/-- The entry points a step can call back into run the listed flows alike. -/
def Nestled (T : Twin) (nested nested' : Nested) : Prop :=
  ∀ lane flowName input cancellation, T.listed flowName →
    T.Same (nested.entry lane flowName input cancellation) (nested'.entry lane flowName input cancellation)

variable {nested nested' : Nested} {info : StepInfo} {tool : Tool}

theorem Matches.validateOutput (h : T.Matches tool) (raw : Value) :
    T.other.validateOutput (T.swap tool) raw = T.executor.validateOutput tool raw := by
  unfold Executor.validateOutput
  rw [h.maxOutputSize, h.outputSchema, h.name]
  rfl

theorem Matches.modelValidate (h : T.Matches tool) (value : Value) :
    T.other.platform.modelValidate (T.swap tool).inputSchema value =
      T.executor.platform.modelValidate tool.inputSchema value := by
  rw [h.inputSchema]
  rfl

theorem Matches.callFn (h : T.Matches tool) (hn : T.Nestled nested nested') :
    T.Same (Executor.callFn nested info tool inputs validated)
      (Executor.callFn nested' info (T.swap tool) inputs validated) := by
  unfold Executor.callFn
  refine .bind (same_probe rfl) fun _ => ?_
  rw [h.fn, h.name]
  split
  · exact same_perform rfl
  · next flowName toolName stepCount hfn =>
    exact .attempt_bind (same_nestedCall (hn .sync _ _ _ (h.listed _ _ _ hfn)) rfl) fun _ => .pure rfl
  · exact .bind (same_perform rfl) fun _ => .pure rfl

theorem Matches.runTool (h : T.Matches tool) (hn : T.Nestled nested nested') :
    T.Same (T.executor.runTool nested info tool inputs) (T.other.runTool nested' info (T.swap tool) inputs) := by
  unfold Executor.runTool
  rw [h.modelValidate]
  split
  · exact .pure rfl
  · refine .bind (h.callFn hn) fun raw => .pure ?_
    rw [funext h.validateOutput]

theorem Matches.attempts (h : T.Matches tool) (hn : T.Nestled nested nested') (retries : Nat)
    (retryErrors : List String) (made : Nat) :
    T.Same (T.executor.attempts nested info tool inputs retryable retries retryErrors made)
      (T.other.attempts nested' info (T.swap tool) inputs retryable retries retryErrors made) := by
  induction retries generalizing retryErrors made with
  | zero =>
    unfold Executor.attempts
    refine .bind (h.runTool hn) fun outcome => ?_
    cases outcome <;> exact .pure rfl
  | succ retries ih =>
    unfold Executor.attempts
    refine .bind (h.runTool hn) fun outcome => ?_
    cases outcome with
    | ok outputs => exact .pure rfl
    | error e =>
      dsimp only
      split
      · exact ih _ _
      · exact .pure rfl

theorem Matches.invokeTool (h : T.Matches tool) (hn : T.Nestled nested nested') (policy : Option RetryPolicy) :
    T.Same (T.executor.invokeTool nested info tool inputs policy)
      (T.other.invokeTool nested' info (T.swap tool) inputs policy) := by
  unfold Executor.invokeTool
  cases policy with
  | none => exact h.attempts hn _ _ _
  | some policy =>
    dsimp only
    rw [h.retry, h.name]
    split
    · refine .bind (h.runTool hn) fun outcome => ?_
      cases outcome <;> exact .pure rfl
    · rw [show T.other.platform = T.executor.platform from rfl]
      split
      · exact .pure rfl
      · exact h.attempts hn _ _ _

-- Decision and error policy

variable {step : FlowStep} {lane : Lane}

theorem same_decisionFailed {e : Exc} :
    T.Same (Executor.decisionFailed info defaultName e) (Executor.decisionFailed info defaultName e) :=
  .bind same_fire fun _ => .pure rfl

theorem same_spendDecision (hT : T.Faithful) :
    T.Same (T.executor.spendDecision info) (T.other.spendDecision info) := by
  unfold Executor.spendDecision
  refine .modify_bind (fun _ => hT.stable _ _ rfl) (.get_bind fun state _ => ?_)
  rw [show T.other.decisionPolicy = T.executor.decisionPolicy from rfl]
  split
  · exact .pure rfl
  · dsimp only
    split
    · exact lockstep_raise
    · exact .pure rfl

theorem same_askDecision {policy : DecisionPolicy} {ctx : DecisionContext} :
    T.Same (Executor.askDecision policy ctx) (Executor.askDecision policy ctx) := by
  unfold Executor.askDecision
  split
  · exact same_perform rfl
  · exact .bind (same_perform rfl) fun _ => .pure rfl

/-- A step whose tool is chosen stays within the names. -/
theorem chooseTool_within {known listed : String → Prop} (h : step.Within known listed)
    (htarget : step.target = .tool target) {hc : step.decisionCandidates = some candidates}
    (hchoose : Executor.chooseTool info policy step hc defaultName answer = .ok (chosen, decision)) :
    chosen.Within known listed ∧ ∃ target, chosen.target = .tool target := by
  unfold Executor.chooseTool at hchoose
  split at hchoose
  · split at hchoose
    · cases hchoose
    · cases hchoose
      exact ⟨h, _, htarget⟩
  · cases hchoose
  · next name =>
    split at hchoose
    · next hm =>
      dsimp only at hchoose
      split at hchoose
      · cases hchoose
        exact ⟨h, _, htarget⟩
      · cases hchoose
        exact ⟨h.withTool (h.candidate _ hc _ (by simpa using hm)) _, _, rfl⟩
    · cases hchoose

/-- Both resolve to the same: a tool step within the names, or a record. -/
abbrev Resolves (T : Twin) (resolved resolved' : Except StepRecord (FlowStep × Option DecisionRecord)) : Prop :=
  resolved' = resolved ∧ ∀ chosen decision, resolved = .ok (chosen, decision) →
    chosen.Within T.known T.listed ∧ ∃ target, chosen.target = .tool target

theorem same_resolveDecision (hT : T.Faithful) (h : step.Within T.known T.listed)
    (htarget : step.target = .tool target) :
    T.pairing.Lockstep (T.executor.resolveDecision info step context) (T.other.resolveDecision info step context)
      T.Resolves := by
  have hkept : ∀ decision, T.Resolves (.ok (step, decision)) (.ok (step, decision)) := by
    refine fun decision => ⟨rfl, fun chosen _ heq => ?_⟩
    cases heq
    exact ⟨h, _, htarget⟩
  unfold Executor.resolveDecision
  split
  · exact .pure (hkept _)
  rw [show T.other.hasDecisionCallback = T.executor.hasDecisionCallback from rfl,
    show T.other.decisionPolicy = T.executor.decisionPolicy from rfl]
  split
  · exact .pure (hkept _)
  refine .bind same_displayName fun defaultName => .bind (same_spendDecision hT) fun _ => ?_
  refine .bind same_askDecision fun answer => ?_
  split
  · refine .bind same_decisionFailed fun record => .pure ⟨rfl, fun chosen _ heq => ?_⟩
    cases heq
  · next resolved hchoose =>
    refine .pure ⟨rfl, fun chosen decision heq => ?_⟩
    cases heq
    exact chooseTool_within h htarget hchoose

/-- The tools under a name that a run may come to. -/
theorem Faithful.getTool (hT : T.Faithful) (hname : T.known name) :
    (∃ e, T.executor.getTool name = .error e ∧ T.other.getTool name = .error e) ∨
      ∃ tool, T.executor.getTool name = .ok tool ∧ T.other.getTool name = .ok (T.swap tool) ∧ T.Matches tool := by
  unfold Executor.getTool
  rw [show T.other.tools = T.tools from rfl]
  cases hget : T.executor.tools.get? name with
  | none =>
    have hhash := hT.schemaHash name
    rw [hget, Option.map_none, Option.map_eq_none_iff] at hhash
    rw [hhash]
    exact .inl ⟨_, rfl, rfl⟩
  | some tool =>
    obtain ⟨hother, hmatches⟩ := hT.tool name tool hname hget
    rw [hother]
    exact .inr ⟨tool, rfl, rfl, hmatches⟩

theorem same_runFallback (hT : T.Faithful) (hn : T.Nestled nested nested') (hname : T.known fallbackName) :
    T.Same (T.executor.runFallback lane nested info toolName fallbackName inputs record retryErrors)
      (T.other.runFallback lane nested' info toolName fallbackName inputs record retryErrors) := by
  unfold Executor.runFallback
  dsimp only
  rcases hT.getTool hname with ⟨e, he, he'⟩ | ⟨tool, htool, htool', hmatches⟩
  · rw [he, he']
    exact .pure rfl
  · rw [htool, htool']
    refine .bind (hmatches.gate info inputs) ?_
    rintro ⟨refusal, approval⟩
    dsimp only
    split
    · exact .pure rfl
    refine .bind (hmatches.dryDispatch _ _ _ _ _) fun dryRecord => ?_
    cases dryRecord with
    | some dryRecord => exact .pure rfl
    | none =>
      refine .bind (same_probe rfl) fun _ => .bind (hmatches.runTool hn) fun outcome => ?_
      cases outcome <;> exact .pure rfl

theorem same_applyOnError (hT : T.Faithful) (hn : T.Nestled nested nested') (h : step.Within T.known T.listed) :
    T.Same (T.executor.applyOnError lane nested info step toolName inputs record retryErrors wrapped)
      (T.other.applyOnError lane nested' info step toolName inputs record retryErrors wrapped) := by
  unfold Executor.applyOnError
  split
  · exact .pure rfl
  · exact .pure rfl
  · next hfallback => exact same_runFallback hT hn (h.fallback _ hfallback)

-- Tool steps

theorem same_settleOutputs :
    T.Same (T.executor.settleOutputs info step toolName key record outputs)
      (T.other.settleOutputs info step toolName key record outputs) := by
  unfold Executor.settleOutputs
  refine .bind same_ofExcept fun violation => ?_
  cases violation with
  | some e => exact .pure rfl
  | none =>
    cases key with
    | some key => exact .bind (same_perform rfl) fun _ => .bind same_ofExcept fun _ => .pure rfl
    | none => exact .pure rfl

theorem same_cacheLookup {key : Option StepCacheKey} :
    T.Same (Executor.cacheLookup key) (Executor.cacheLookup key) := by
  cases key with
  | none => exact .pure rfl
  | some key => exact .bind (same_perform rfl) fun _ => same_ofExcept

theorem Matches.cacheKey (h : T.Matches tool) (lane : Lane) (state : RunScopedState) (inputs : Dict) :
    T.other.cacheKey lane state (T.swap tool) inputs = T.executor.cacheKey lane state tool inputs := by
  unfold Executor.cacheKey
  rw [h.cacheable, h.inputSchema, h.name, h.schemaHash]
  rfl

theorem Matches.runCached (h : T.Matches tool) (hT : T.Faithful) (hn : T.Nestled nested nested')
    (hstep : step.Within T.known T.listed) :
    T.Same (T.executor.runCached lane nested info step toolName tool inputs record)
      (T.other.runCached lane nested' info step toolName (T.swap tool) inputs record) := by
  unfold Executor.runCached
  refine .get_bind fun state _ => ?_
  rw [h.cacheKey]
  refine .bind same_ofExcept fun key => .bind same_cacheLookup fun hit => ?_
  cases hit with
  | some output => exact .bind same_settleOutputs fun _ => .pure rfl
  | none =>
    refine .bind (h.invokeTool hn _) fun invoked => ?_
    dsimp only
    split
    · exact same_applyOnError hT hn hstep
    · exact same_settleOutputs

theorem Matches.consume (h : T.Matches tool) (chunks : List ToolChunk) (final : Option Dict) :
    T.Same (T.executor.consume info toolName tool ending chunks final)
      (T.other.consume info toolName (T.swap tool) ending chunks final) := by
  induction chunks generalizing final with
  | nil =>
    unfold Executor.consume
    rw [h.name]
    split <;> exact .pure rfl
  | cons chunk rest ih =>
    unfold Executor.consume
    rw [h.name, h.validateOutput]
    split
    · exact .pure rfl
    split
    · split
      · exact .pure rfl
      · exact .bind same_fire fun _ => ih _
    · exact .bind same_fire fun _ => ih _

theorem Matches.runStreamingStep (h : T.Matches tool) (hT : T.Faithful) (hn : T.Nestled nested nested')
    (hstep : step.Within T.known T.listed) :
    T.Same (T.executor.runStreamingStep nested info step toolName tool inputs record)
      (T.other.runStreamingStep nested' info step toolName (T.swap tool) inputs record) := by
  have hstream : T.Same (T.executor.runStreaming info toolName tool inputs)
      (T.other.runStreaming info toolName (T.swap tool) inputs) := by
    unfold Executor.runStreaming
    rw [h.modelValidate]
    split
    · exact .pure rfl
    · exact .bind (same_probe rfl) fun _ => .bind (same_perform rfl) fun _ => h.consume _ _
  unfold Executor.runStreamingStep
  refine .bind hstream fun outcome => ?_
  cases outcome with
  | error e => exact same_applyOnError hT hn hstep
  | ok outputs => exact same_settleOutputs

theorem Matches.dispatchTool (h : T.Matches tool) (hT : T.Faithful) (hn : T.Nestled nested nested')
    (hstep : step.Within T.known T.listed) :
    T.Same (T.executor.dispatchTool lane nested info step toolName tool inputs record)
      (T.other.dispatchTool lane nested' info step toolName (T.swap tool) inputs record) := by
  unfold Executor.dispatchTool
  cases lane with
  | sync =>
    refine .bind (h.dryDispatch _ _ _ _ _) fun dryRecord => ?_
    cases dryRecord with
    | some dryRecord => exact .pure rfl
    | none => exact h.runCached hT hn hstep
  | async =>
    dsimp only
    rw [show (T.swap tool).isStreaming = tool.isStreaming by unfold Tool.isStreaming; rw [h.fn]]
    split
    · exact h.runStreamingStep hT hn hstep
    · exact h.runCached hT hn hstep

theorem Matches.runToolStep (h : T.Matches tool) (hT : T.Faithful) (hn : T.Nestled nested nested')
    (hstep : step.Within T.known T.listed) :
    T.Same (T.executor.runToolStep lane nested info step toolName tool inputs record)
      (T.other.runToolStep lane nested' info step toolName (T.swap tool) inputs record) := by
  unfold Executor.runToolStep
  refine .bind (h.gate info inputs) ?_
  rintro ⟨refusal, approval⟩
  dsimp only
  split
  · exact .pure rfl
  refine .bind (h.guardrail info inputs) fun violation => ?_
  cases violation with
  | some e => exact .pure rfl
  | none => exact h.dispatchTool hT hn hstep

/-- What comes before `on_step_start` is the same but for the tool it finds. -/
theorem same_prepareStep (hT : T.Faithful) (hname : T.known toolName) :
    T.pairing.Lockstep (T.executor.prepareStep info step toolName context record)
      (T.other.prepareStep info step toolName context record) fun prepared prepared' =>
        (∃ failed, prepared = .error failed ∧ prepared' = .error failed) ∨
          ∃ tool inputs, prepared = .ok (tool, inputs) ∧ prepared' = .ok (T.swap tool, inputs) ∧
            T.Matches tool := by
  unfold Executor.prepareStep
  rcases hT.getTool hname with ⟨e, he, he'⟩ | ⟨tool, htool, htool', hmatches⟩
  · rw [he, he']
    exact .pure (.inl ⟨_, rfl, rfl⟩)
  rw [htool, htool']
  dsimp only
  split
  · exact .pure (.inl ⟨_, rfl, rfl⟩)
  refine .bind same_ofExcept fun violation => ?_
  cases violation with
  | some e => exact .pure (.inl ⟨_, rfl, rfl⟩)
  | none => exact .pure (.inr ⟨tool, _, rfl, rfl, hmatches⟩)

theorem same_executeToolStep (hT : T.Faithful) (hn : T.Nestled nested nested')
    (hstep : step.Within T.known T.listed) (htarget : step.target = .tool target) :
    T.Same (T.executor.executeToolStep lane nested info step decision context)
      (T.other.executeToolStep lane nested' info step decision context) := by
  unfold Executor.executeToolStep
  refine lockstep_displayName.bind_related ?_
  rintro toolName _ ⟨rfl, hname⟩
  refine (same_prepareStep hT (hstep.displayName htarget hname)).bind_related ?_
  rintro _ _ (⟨failed, rfl, rfl⟩ | ⟨tool, inputs, rfl, rfl, hmatches⟩)
  · exact .bind same_fire fun _ => .pure rfl
  · exact .bind same_fire fun _ => .bind (hmatches.runToolStep hT hn hstep) fun _ => .bind same_fire fun _ =>
      .pure rfl

-- Steps in general

theorem same_executeSubflowStep (hT : T.Faithful) (hn : T.Nestled nested nested') (hsub : T.listed subName) :
    T.Same (Executor.executeSubflowStep lane nested info step subName context cancellation)
      (Executor.executeSubflowStep lane nested' info step subName context cancellation) := by
  unfold Executor.executeSubflowStep
  refine .bind (same_probe rfl) fun _ => ?_
  split
  · exact .pure rfl
  refine .bind same_fire fun _ => .get_bind fun state _ => ?_
  refine .attempt_bind (same_nestedCall (hn _ _ _ _ hsub) rfl) fun outcome => ?_
  refine .modify_bind (fun _ => hT.stable _ _ rfl) (.bind same_rethrow fun result => ?_)
  exact .bind same_fire fun _ => .pure rfl

theorem same_executeStepIn (hT : T.Faithful) (hn : T.Nestled nested nested') (hstep : step.Within T.known T.listed) :
    T.Same (T.executor.executeStepIn lane nested info step context cancellation)
      (T.other.executeStepIn lane nested' info step context cancellation) := by
  unfold Executor.executeStepIn
  split
  · next hflow => exact same_executeSubflowStep hT hn (hstep.flow _ hflow)
  · next htool =>
    cases lane with
    | async => exact same_executeToolStep hT hn hstep htool
    | sync =>
      refine (same_resolveDecision hT hstep htool).bind_related ?_
      rintro _ resolved ⟨rfl, hwithin⟩
      cases resolved with
      | error record => exact .pure rfl
      | ok chosen =>
        obtain ⟨hchosen, target, htarget⟩ := hwithin _ _ rfl
        exact same_executeToolStep hT hn hchosen htarget

end Twin

end Executor

end ChainWeaver
