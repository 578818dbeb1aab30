import ChainWeaver.Counterparts
import ChainWeaver.Supply

/-!
# Steps in another context

What a step looks at in the context: the keys its sources are looked up under and, where it
is handed the whole context, what its schemas do not ignore. A step that is blind to the
keys in which two contexts differ has counterpart records in them.
-/

namespace ChainWeaver.Executor

open Interaction (Concur)

variable {executor : Executor} {nested : Nested} {info info' : StepInfo} {tool : Tool} {inputs inputs' : Dict}
  {record record' : StepRecord} {lane : Lane} {step : FlowStep}

-- The cache and the stream

theorem cacheKey_alike {state state' : RunScopedState} (hstate : executor.Unlimited state state')
    (h : executor.ValidatesAlike tool.inputSchema inputs inputs') :
    executor.cacheKey lane state' tool inputs' = executor.cacheKey lane state tool inputs := by
  unfold ValidatesAlike at h
  unfold cacheKey
  rw [hstate.same]
  dsimp only
  revert h
  generalize executor.platform.modelValidate tool.inputSchema (.dict inputs.entries) = outcome
  generalize executor.platform.modelValidate tool.inputSchema (.dict inputs'.entries) = outcome'
  rintro (_ | _) <;> rfl

theorem follows_cacheLookup (key : Option StepCacheKey) :
    executor.Follows (cacheLookup key) (cacheLookup key) Eq := by
  cases key with
  | none => exact .pure rfl
  | some key => exact .bind_same (related_perform rfl) fun _ => follows_ofExcept_same _

theorem follows_runCached (hn : executor.Recurs nested) (h : executor.ValidatesAlike tool.inputSchema inputs inputs')
    (hfallback : executor.FallbackFed step inputs inputs') (hrecord : executor.Akin record record') :
    executor.Follows (executor.runCached lane nested info step toolName tool inputs record)
      (executor.runCached lane nested info' step toolName tool inputs' record') executor.Counterpart := by
  unfold runCached
  refine .get_bind fun state state' hstate => ?_
  rw [cacheKey_alike hstate h]
  refine .bind_same (follows_ofExcept_same _) fun key => .bind_same (follows_cacheLookup key) fun hit => ?_
  cases hit with
  | some output =>
    refine .bind (follows_settleOutputs ⟨hrecord.toolName, hrecord.inputs⟩) fun settled settled' hsettled => ?_
    exact .pure ⟨⟨hsettled.toolName, hsettled.inputs⟩, hsettled.outputs, hsettled.success⟩
  | none =>
    refine .bind (follows_invokeTool hn h _) ?_
    rintro ⟨outcome, errors, count⟩ ⟨outcome', errors', count'⟩ houtcome
    dsimp only at houtcome ⊢
    cases houtcome with
    | ok hv =>
      subst hv
      exact follows_settleOutputs ⟨hrecord.toolName, hrecord.inputs⟩
    | error => exact follows_applyOnError hn hfallback ⟨hrecord.toolName, hrecord.inputs⟩

theorem follows_consume (chunks : List ToolChunk) (final : Option Dict) :
    executor.Follows (executor.consume info toolName tool ending chunks final)
      (executor.consume info' toolName tool ending chunks final) Eq := by
  induction chunks generalizing final with
  | nil =>
    unfold consume
    split <;> exact .pure rfl
  | cons chunk rest ih =>
    unfold consume
    split
    · exact .pure rfl
    split
    · split
      · exact .pure rfl
      · exact .bind_same related_fire fun _ => ih _
    · exact .bind_same related_fire fun _ => ih _

theorem follows_runStreaming (h : executor.ValidatesAlike tool.inputSchema inputs inputs') :
    executor.Follows (executor.runStreaming info toolName tool inputs)
      (executor.runStreaming info' toolName tool inputs') EqualOutputs := by
  unfold ValidatesAlike at h
  unfold runStreaming
  revert h
  generalize executor.platform.modelValidate tool.inputSchema (.dict inputs.entries) = outcome
  generalize executor.platform.modelValidate tool.inputSchema (.dict inputs'.entries) = outcome'
  rintro (_ | _)
  · cases outcome with
    | error e => exact .pure (.error trivial)
    | ok validated =>
      refine .bind_same related_probe fun _ => .bind_same (related_perform ⟨rfl, rfl⟩) fun _ => ?_
      refine (follows_consume _ _).post ?_
      rintro outcome _ rfl
      exact .refl (fun _ => rfl) (fun _ => trivial) _
  · exact .pure (.error trivial)

theorem follows_runStreamingStep (hn : executor.Recurs nested)
    (h : executor.ValidatesAlike tool.inputSchema inputs inputs')
    (hfallback : executor.FallbackFed step inputs inputs') (hrecord : executor.Akin record record') :
    executor.Follows (executor.runStreamingStep nested info step toolName tool inputs record)
      (executor.runStreamingStep nested info' step toolName tool inputs' record') executor.Counterpart := by
  unfold runStreamingStep
  refine .bind (follows_runStreaming h) ?_
  rintro _ _ (rfl | _)
  · exact follows_settleOutputs hrecord
  · exact follows_applyOnError hn hfallback hrecord

-- Tool steps

theorem follows_dispatchTool (hn : executor.Recurs nested)
    (h : executor.ValidatesAlike tool.inputSchema inputs inputs')
    (hfallback : executor.FallbackFed step inputs inputs') (hrecord : executor.Akin record record') :
    executor.Follows (executor.dispatchTool lane nested info step toolName tool inputs record)
      (executor.dispatchTool lane nested info' step toolName tool inputs' record') executor.Counterpart := by
  unfold dispatchTool
  cases lane with
  | sync =>
    refine .bind (follows_dryDispatch h hrecord) ?_
    rintro _ _ (hdry | _)
    · exact .pure hdry
    · exact follows_runCached hn h hfallback hrecord
  | async =>
    dsimp only
    split
    · exact follows_runStreamingStep hn h hfallback hrecord
    · exact follows_runCached hn h hfallback hrecord

theorem follows_runToolStep (hn : executor.Recurs nested) (htool : executor.getTool toolName = .ok tool)
    (h : executor.FedAlike toolName inputs inputs') (hfallback : executor.FallbackFed step inputs inputs')
    (hname : record.toolName = toolName) (hname' : record'.toolName = toolName) :
    executor.Follows (executor.runToolStep lane nested info step toolName tool inputs record)
      (executor.runToolStep lane nested info' step toolName tool inputs' record') executor.Counterpart := by
  subst hname
  unfold runToolStep
  refine .bind follows_evaluateSafetyGate ?_
  rintro ⟨refusal, approval⟩ ⟨refusal', approval'⟩ hrefused
  have hrecord : executor.Akin { record with inputs, approval }
      { record' with inputs := inputs', approval := approval' } :=
    ⟨hname', h⟩
  cases refusal with
  | some e =>
    obtain ⟨e', rfl⟩ := Option.isSome_iff_exists.1 hrefused
    exact .pure (hrecord.failWith _ _)
  | none =>
    obtain rfl : refusal' = none := Option.not_isSome_iff_eq_none.1 (by rw [hrefused]; simp)
    refine .bind follows_evaluateInputGuardrail fun violation violation' hviolation => ?_
    cases violation with
    | some e =>
      obtain ⟨e', rfl⟩ := Option.isSome_iff_exists.1 hviolation
      exact .pure (hrecord.failWith _ _)
    | none =>
      obtain rfl : violation' = none := Option.not_isSome_iff_eq_none.1 (by rw [hviolation]; simp)
      exact follows_dispatchTool hn (h tool htool) hfallback hrecord

-- What a step looks at

variable (executor) in
/-- Validation against the schema does not look at these keys. -/
def Ignores (keys : String → Prop) (schema : Schema) : Prop :=
  ∀ inputs inputs', AgreeOff keys inputs inputs' → executor.ValidatesAlike schema inputs inputs'

variable (executor) in
/-- The step does not look at these keys of the context: no source of it is looked up under
one, and where it is handed the whole context it is a tool step whose schemas ignore them. -/
structure Blind (keys : String → Prop) (step : FlowStep) : Prop where
  sources : ∀ source ∈ step.sources, ¬keys (sourceKey source)
  tools : step.inputMapping.isEmpty = true →
    step.Within (fun name => ∀ tool, executor.getTool name = .ok tool → executor.Ignores keys tool.inputSchema)
      fun _ => False
  contract : step.inputMapping.isEmpty = true → ∀ ref schema, step.inputContract = some ref →
    executor.platform.resolveClassRef ref = .ok schema → executor.Ignores keys schema

variable (executor) in
/-- Everything in the reach of the step that is fed with the inputs sees the same in both. -/
structure StepFed (step : FlowStep) (inputs inputs' : Dict) : Prop where
  reach : step.Within (fun name => executor.FedAlike name inputs inputs') fun _ => inputs' = inputs
  contract : ∀ ref schema, step.inputContract = some ref → executor.platform.resolveClassRef ref = .ok schema →
    executor.ValidatesAlike schema inputs inputs'

theorem StepFed.refl (step : FlowStep) (inputs : Dict) : executor.StepFed step inputs inputs where
  reach :=
    { tool := fun _ _ => .refl _ _, flow := fun _ _ => rfl, candidate := fun _ _ _ _ => .refl _ _,
      fallback := fun _ _ => .refl _ _ }
  contract _ _ _ _ := .same _

variable {keys : String → Prop} {context context' : Dict}

theorem Blind.resolveInputs (h : executor.Blind keys step) (stepIndex stepIndex' : Int)
    (hagree : AgreeOff keys context context') :
    Concur (executor.StepFed step) (fun _ _ => True) (ChainWeaver.resolveInputs step context stepIndex)
      (ChainWeaver.resolveInputs step context' stepIndex') := by
  unfold ChainWeaver.resolveInputs
  by_cases hempty : step.inputMapping.isEmpty = true
  · rw [if_pos hempty, if_pos hempty]
    have htools := h.tools hempty
    refine .ok ⟨⟨?_, ?_, ?_, ?_⟩, fun ref schema href hschema => ?_⟩
    · exact fun name hname tool htool => htools.tool name hname tool htool _ _ hagree
    · exact fun name hname => (htools.flow name hname).elim
    · exact fun names hnames name hmem tool htool => htools.candidate names hnames name hmem tool htool _ _ hagree
    · exact fun name hname tool htool => htools.fallback name hname tool htool _ _ hagree
    · exact h.contract hempty ref schema href hschema _ _ hagree
  · rw [if_neg hempty, if_neg hempty]
    dsimp only
    have hpairs : ∀ pair ∈ step.inputMapping.entries, ∀ text, pair.2 = .str text → ¬keys (sourceKey text) := by
      rintro ⟨key, source⟩ hmem text htext
      dsimp only at htext
      subst htext
      exact h.sources text (List.mem_filterMap.2 ⟨_, hmem, rfl⟩)
    refine (resolveAll_agree hagree .empty hpairs).imp ?_ fun _ _ => id
    rintro inputs _ rfl
    exact .refl _ _

theorem Blind.withTool (h : executor.Blind keys step) (hc : step.decisionCandidates = some candidates)
    (hchosen : chosen ∈ candidates)
    (hv : candidatesValid (.tool chosen) step.decisionCandidates = true) :
    executor.Blind keys (step.withTool chosen hv) where
  sources := h.sources
  tools hempty := (h.tools hempty).withTool ((h.tools hempty).candidate _ hc _ hchosen) hv
  contract := h.contract

theorem follows_prepareStep (h : executor.Blind keys step) (hagree : AgreeOff keys context context')
    (hrecord : executor.Akin record record') (hreach : ∀ inputs inputs', executor.StepFed step inputs inputs' →
      executor.FedAlike record.toolName inputs inputs') :
    executor.Follows (executor.prepareStep info step toolName context record)
      (executor.prepareStep info' step toolName context' record')
      (Concur (fun prepared prepared' => prepared'.1 = prepared.1 ∧ executor.getTool toolName = .ok prepared.1 ∧
        executor.StepFed step prepared.2 prepared'.2) executor.Counterpart) := by
  unfold prepareStep
  cases htool : executor.getTool toolName with
  | error e => exact .pure (.error (hrecord.failWith _ _))
  | ok tool =>
    have hresolved := h.resolveInputs info.stepIndex info'.stepIndex hagree
    dsimp only
    generalize ChainWeaver.resolveInputs step context info.stepIndex = inputs at hresolved
    generalize ChainWeaver.resolveInputs step context' info'.stepIndex = inputs' at hresolved
    cases hresolved with
    | error => exact .pure (.error (hrecord.failWith _ _))
    | @ok inputs inputs' hfed =>
      refine .bind (follows_ofExcept (checkStepContract_agree hfed.contract)) fun violation violation' hviolation => ?_
      cases violation with
      | some e =>
        obtain ⟨e', rfl⟩ := Option.isSome_iff_exists.1 hviolation
        exact .pure (.error ⟨⟨hrecord.toolName, hreach _ _ hfed⟩, rfl, rfl⟩)
      | none =>
        obtain rfl : violation' = none := Option.not_isSome_iff_eq_none.1 (by rw [hviolation]; simp)
        exact .pure (.ok ⟨rfl, rfl, hfed⟩)

theorem follows_executeToolStep (hn : executor.Recurs nested) (h : executor.Blind keys step)
    (htarget : step.target = .tool target) (hagree : AgreeOff keys context context') :
    executor.Follows (executor.executeToolStep lane nested info step decision context)
      (executor.executeToolStep lane nested info' step decision context') executor.Counterpart := by
  unfold executeToolStep
  refine .bind follows_displayName ?_
  rintro toolName _ ⟨rfl, hname⟩
  have hblank : executor.Akin
      { stepIndex := info.stepIndex, toolName, inputs := .empty, success := false, decision }
      { stepIndex := info'.stepIndex, toolName, inputs := .empty, success := false, decision } :=
    ⟨rfl, .refl _ _⟩
  refine .bind (follows_prepareStep h hagree hblank fun _ _ hfed => hfed.reach.displayName htarget hname) ?_
  rintro _ _ (⟨hprepared⟩ | hfailed)
  · obtain ⟨htool, hget, hfed⟩ := hprepared
    dsimp only
    rw [htool]
    have hfeed := hfed.reach.displayName htarget hname
    refine .bind_same related_fire fun _ => ?_
    refine .bind (follows_runToolStep hn hget hfeed hfed.reach.fallback rfl rfl) fun record record' hrecord => ?_
    exact .bind_same related_fire fun _ => .pure hrecord
  · exact .bind_same related_fire fun _ => .pure hfailed

-- Sub-flow steps and decisions

theorem follows_executeSubflowStep (hn : executor.Recurs nested) (h : executor.Blind keys step)
    (htarget : step.target = .flow subName) (hagree : AgreeOff keys context context') :
    executor.Follows (executeSubflowStep lane nested info step subName context cancellation)
      (executeSubflowStep lane nested info' step subName context' cancellation) executor.Counterpart := by
  unfold executeSubflowStep
  refine .bind_same related_probe fun _ => ?_
  have hresolved := h.resolveInputs info.stepIndex info'.stepIndex hagree
  generalize ChainWeaver.resolveInputs step context info.stepIndex = inputs at hresolved
  generalize ChainWeaver.resolveInputs step context' info'.stepIndex = inputs' at hresolved
  cases hresolved with
  | error => exact .pure ⟨⟨rfl, .refl _ _⟩, rfl, rfl⟩
  | @ok inputs inputs' hfed =>
    obtain rfl : inputs' = inputs := hfed.reach.flow _ htarget
    refine .bind_same related_fire fun _ => .get_bind fun state state' hstate => ?_
    refine .bind_same (.attempt_same (related_nestedCall (hn _ _ _ _))) fun outcome => ?_
    refine .modify_bind (fun s s' hs => ⟨?_, fun hlimited => ?_⟩) ?_
    · rw [hs.same, hstate.same]
    · rw [hs.limited hlimited, hstate.limited hlimited]
    · refine .bind_same (related_rethrow (.refl (fun _ => rfl) (fun _ => trivial) _)) fun result => ?_
      exact .bind_same related_fire fun _ => .pure ⟨⟨rfl, .refl _ _⟩, rfl, rfl⟩

theorem follows_spendDecision : executor.Follows (executor.spendDecision info) (executor.spendDecision info') Eq := by
  unfold spendDecision
  refine .modify_bind (fun s s' hs => ⟨by rw [hs.same], fun hlimited => by rw [hs.limited hlimited]⟩)
    (.get_bind fun state state' hstate => ?_)
  cases hbudget : executor.decisionPolicy.bind (·.maxDecisionsPerFlow) with
  | none => exact .pure rfl
  | some budget =>
    rw [hstate.limited (by rw [budgetOf, hbudget]; rfl)]
    dsimp only
    split
    · exact follows_raise
    · exact .pure rfl

theorem follows_askDecision {ctx ctx' : DecisionContext} (hname : ctx'.defaultToolName = ctx.defaultToolName)
    (hcandidates : ctx'.candidates = ctx.candidates) (policy : DecisionPolicy) :
    executor.Follows (askDecision policy ctx) (askDecision policy ctx') Eq := by
  unfold askDecision
  split
  · exact related_perform ⟨hname, hcandidates⟩
  · exact .bind_same (related_perform ⟨hname, hcandidates⟩) fun _ => .pure rfl

theorem chooseTool_agree {hc : step.decisionCandidates = some candidates} (answer : Option (Except Exc String)) :
    Concur Eq (fun _ _ => True) (chooseTool info policy step hc defaultName answer)
      (chooseTool info' policy step hc defaultName answer) := by
  unfold chooseTool
  split
  · split
    · exact .error trivial
    · exact .ok rfl
  · exact .error trivial
  · split
    · exact .refl (fun _ => rfl) (fun _ => trivial) _
    · exact .error trivial

theorem chooseTool_blind (h : executor.Blind keys step) (htarget : step.target = .tool target)
    {hc : step.decisionCandidates = some candidates}
    (hchoose : chooseTool info policy step hc defaultName answer = .ok (chosen, decision)) :
    executor.Blind keys chosen ∧ ∃ target, chosen.target = .tool target := by
  unfold chooseTool at hchoose
  split at hchoose
  · split at hchoose
    · cases hchoose
    · cases hchoose
      exact ⟨h, _, htarget⟩
  · cases hchoose
  · next name =>
    split at hchoose
    · next hm =>
      dsimp only at hchoose
      split at hchoose
      · cases hchoose
        exact ⟨h, _, htarget⟩
      · cases hchoose
        exact ⟨h.withTool hc (by simpa using hm) _, _, rfl⟩
    · cases hchoose

/-- Both resolve to the same tool step, blind to the keys, or to records of the same failure. -/
abbrev ResolvesAlike (executor : Executor) (keys : String → Prop) :
    Except StepRecord (FlowStep × Option DecisionRecord) →
      Except StepRecord (FlowStep × Option DecisionRecord) → Prop :=
  Concur (fun resolved resolved' => resolved' = resolved ∧ executor.Blind keys resolved.1 ∧
    ∃ target, resolved.1.target = .tool target) executor.Counterpart

theorem follows_resolveDecision (h : executor.Blind keys step) (htarget : step.target = .tool target) :
    executor.Follows (executor.resolveDecision info step context) (executor.resolveDecision info' step context')
      (executor.ResolvesAlike keys) := by
  unfold resolveDecision
  split
  · exact .pure (.ok ⟨rfl, h, _, htarget⟩)
  split
  · exact .pure (.ok ⟨rfl, h, _, htarget⟩)
  next candidates hc _ =>
    refine .bind follows_displayName ?_
    rintro defaultName _ ⟨rfl, -⟩
    refine .bind_same follows_spendDecision fun _ => .bind_same (follows_askDecision ?_ ?_ _) fun answer => ?_
    · rfl
    · rfl
    have hagree : Concur Eq (fun _ _ => True)
        (chooseTool info (executor.decisionPolicy.getD {}) step hc defaultName answer)
        (chooseTool info' (executor.decisionPolicy.getD {}) step hc defaultName answer) := chooseTool_agree answer
    generalize hleft : chooseTool info (executor.decisionPolicy.getD {}) step hc defaultName answer = chosen at hagree
    generalize chooseTool info' (executor.decisionPolicy.getD {}) step hc defaultName answer = chosen' at hagree
    cases hagree with
    | ok hsame =>
      subst hsame
      exact .pure (.ok ⟨rfl, chooseTool_blind h htarget hleft⟩)
    | error =>
      refine .bind (V := executor.Counterpart) ?_ fun record record' hrecord => .pure (.error hrecord)
      exact .bind_same related_fire fun _ => .pure ⟨⟨rfl, .refl _ _⟩, rfl, rfl⟩

/-- A step that is blind to the keys does the same in contexts that differ in them. -/
theorem follows_executeStepIn (hn : executor.Recurs nested) (h : executor.Blind keys step)
    (hagree : AgreeOff keys context context') :
    executor.Follows (executor.executeStepIn lane nested info step context cancellation)
      (executor.executeStepIn lane nested info' step context' cancellation) executor.Counterpart := by
  unfold executeStepIn
  split
  · next hflow => exact follows_executeSubflowStep hn h hflow hagree
  · next htool =>
    cases lane with
    | async => exact follows_executeToolStep hn h htool hagree
    | sync =>
      refine .bind (follows_resolveDecision h htool) ?_
      rintro _ _ (hresolved | hfailed)
      · obtain ⟨rfl, hblind, target, htarget⟩ := hresolved
        exact follows_executeToolStep hn hblind htarget hagree
      · exact .pure hfailed

-- Nested calls

/-- A call starts to count its decisions anew. -/
theorem lanes_recurs (stack : Nat) : executor.Recurs (executor.lanes stack) := by
  have hcopy : ∀ state state', executor.Unlimited state state' → state.copy = state'.copy := by
    intro state state' hs
    rw [hs.same]
    rfl
  have hrefuse : ∀ {α : Type} {x : Except Exc α}, executor.comparison.Related (orRefuse x) (orRefuse x) Eq Eq := by
    intro α x
    cases x with
    | ok value => exact .pure rfl
    | error e => exact .bind_same related_probe fun _ => .throw rfl
  intro lane flowName input cancellation
  cases stack with
  | zero => cases lane <;> exact .bind_same related_probe fun _ => .throw rfl
  | succ stack =>
    cases lane with
    | sync =>
      refine .within_same alike_refl fun state state' hs => ?_
      unfold enterSync
      rw [hcopy _ _ hs, hs.same]
    | async =>
      refine .bind_same hrefuse fun flow => .bind_same hrefuse fun _ => .bind_same hrefuse fun _ =>
        .bind_same hrefuse fun _ => .within_same alike_refl fun state state' hs => ?_
      rw [hcopy _ _ hs]

end ChainWeaver.Executor
