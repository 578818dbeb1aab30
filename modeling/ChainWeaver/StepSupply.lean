import ChainWeaver.Supply
import ChainWeaver.Turns

/-!
# What one step takes and gives

The record of a step in either lane: the inputs it was fed from the context, and
where the outputs come from that it hands on.
-/

namespace ChainWeaver.Executor

open Interaction (Frame)

variable {executor : Executor} {reflection : Reflection} {Inv : RunScopedState → Prop} {A : Event → Prop}
variable {Fair : Exc → Prop} {nested : Nested} {info : StepInfo} {lane : Lane} {step : FlowStep}

-- The outputs of a step

/-- The tools a step may be run with. -/
def runnable (executor : Executor) (step : FlowStep) : List String :=
  let chosen := if executor.hasDecisionCallback then step.decisionCandidates.getD [] else []
  step.displayName?.toList ++ chosen

/-- Some state of the run is that of a dry run. -/
def Dryable (Inv : RunScopedState → Prop) : Prop := ∃ state, Inv state ∧ state.dryRun = true

/-- Where the outputs of a step that succeeded come from. -/
inductive Yields (executor : Executor) (reflection : Reflection) (Inv : RunScopedState → Prop)
    (step : FlowStep) (record : StepRecord) : Prop
  | skipped : record.skipped = true → step.onError = .skip ∨ Dryable Inv → Yields executor reflection Inv step record
  | tool : (∀ subName, step.target ≠ .flow subName) → name ∈ executor.runnable step →
      executor.getTool name = .ok tool → record.outputs = some outputs →
      Fits reflection tool.outputSchema outputs → Yields executor reflection Inv step record
  | fallback : record.fallbackUsed = true → step.onError = .fallback name → executor.getTool name = .ok tool →
      record.outputs = some outputs → Fits reflection tool.outputSchema outputs →
      Yields executor reflection Inv step record
  | flow : step.target = .flow subName → executor.registry.getFlow subName none = .ok flow →
      record.outputs = some outputs →
      executor.validateFlowSchema flowName outputs flow.header.outputSchemaRef stepIndex "flow_output" = .ok none →
      Yields executor reflection Inv step record

theorem Yields.congr (h : Yields executor reflection Inv step record) (hs : record'.skipped = record.skipped)
    (ho : record'.outputs = record.outputs) (hf : record'.fallbackUsed = record.fallbackUsed) :
    Yields executor reflection Inv step record' := by
  cases h with
  | skipped hskipped hwhy => exact .skipped (hs.trans hskipped) hwhy
  | tool htool hname hget hout hfits => exact .tool htool hname hget (ho.trans hout) hfits
  | fallback hused hwhy hget hout hfits => exact .fallback (hf.trans hused) hwhy hget (ho.trans hout) hfits
  | flow htarget hflow hout hvalid => exact .flow htarget hflow (ho.trans hout) hvalid

/-- The type is not that of a mapping error. -/
def Untroubled (errorType : Option String) : Prop :=
  errorType ≠ some "InputMappingError" ∧ errorType ≠ some "OutputMappingError"

/-- What has become of the record `base` of a step whose tool was about to run. -/
structure Settled (executor : Executor) (reflection : Reflection) (Inv : RunScopedState → Prop)
    (step : FlowStep) (base record : StepRecord) : Prop where
  toolName : record.toolName = base.toolName
  inputs : record.inputs = base.inputs
  untroubled : Untroubled record.errorType
  yields : record.success = true → Yields executor reflection Inv step record

variable {record base : StepRecord}

theorem wrapToolException_untroubled : Untroubled (some (wrapToolException toolName stepIndex e).typeName) := by
  unfold wrapToolException
  split <;> simp [Untroubled, Exc.typeName]

theorem Settled.failWith (he : Untroubled (some e.typeName)) (hn : record.toolName = base.toolName)
    (hi : record.inputs = base.inputs) : Settled executor reflection Inv step base (record.failWith e) where
  toolName := hn
  inputs := hi
  untroubled := he
  yields := nofun

theorem given_gate (tool : Tool) (inputs : Dict) :
    (frame Inv).Given A (executor.evaluateSafetyGate info tool inputs)
      (fun refused => ∀ e, refused.1 = some e → Untroubled (some e.typeName)) Fair := by
  unfold evaluateSafetyGate
  dsimp only
  split
  · exact .pure (by simp [Untroubled, Exc.typeName])
  split
  · exact .pure nofun
  split
  · split
    · exact .pure (by simp [Untroubled, denied, Exc.typeName])
    · exact .pure nofun
  · refine .ask_bind fun reply _ => ?_
    split <;> exact .pure (by simp [Untroubled, denied, Exc.typeName])

theorem given_guardrail (tool : Tool) (inputs : Dict) :
    (frame Inv).Given A (executor.evaluateInputGuardrail info tool inputs)
      (fun blocked => ∀ e, blocked = some e → Untroubled (some e.typeName)) Fair := by
  unfold evaluateInputGuardrail
  dsimp only
  split
  · exact .pure nofun
  · refine .ask_bind fun reply _ => ?_
    split <;> exact .pure (by simp [Untroubled, Exc.typeName])

/-- Outputs that fit settle a step, whether the output contract takes them or not. -/
theorem settleOutputs_given (ht : Trusted executor reflection A Fair)
    (hbase : Untroubled base.errorType) (hn : record.toolName = base.toolName)
    (hi : record.inputs = base.inputs) (he : record.errorType = base.errorType)
    (hy : ∀ record', record'.outputs = some outputs → Yields executor reflection Inv step record') :
    (frame Inv).Given A (executor.settleOutputs info step toolName key record outputs)
      (Settled executor reflection Inv step base) Fair := by
  unfold settleOutputs
  refine (given_ofExcept fun e => ht.checkStepContract).bind fun violation hv => ?_
  cases violation with
  | some e =>
    obtain ⟨detail, rfl⟩ := checkStepContract_violation hv
    exact .pure (.failWith (by simp [Untroubled, Exc.typeName]) hn hi)
  | none =>
    have hdone : Settled executor reflection Inv step base (record.succeedWith outputs) :=
      ⟨hn, hi, he ▸ hbase, fun _ => hy _ rfl⟩
    dsimp only
    split
    · refine .ask_bind fun reply hreply => ?_
      refine (given_ofExcept fun e h => ht.cacheSet _ e (h ▸ hreply)).bind fun _ _ => .pure hdone
    · exact .pure hdone

/-- How a dry run stands in for a tool. -/
theorem dryDispatch_given (step : FlowStep) (record : StepRecord) (ht : Trusted executor reflection A Fair)
    (hbase : Untroubled base.errorType) (hn : record.toolName = base.toolName)
    (hi : record.inputs = base.inputs) (he : record.errorType = base.errorType)
    (hy : ∀ record' outputs, record'.fallbackUsed = record.fallbackUsed → record'.outputs = some outputs →
      Fits reflection tool.outputSchema outputs → Yields executor reflection Inv step record') :
    (frame Inv).Given A (executor.dryDispatch lane info toolName tool inputs record)
      (fun dryRecord => ∀ record', dryRecord = some record' → Settled executor reflection Inv step base record') Fair := by
  unfold dryDispatch
  refine .get_bind fun state hs => ?_
  split
  · next hdry =>
    have hdry : state.dryRun = true := (Bool.and_eq_true_iff.1 hdry).2
    unfold dryRunStep
    split
    · exact .pure nofun
    split
    · refine (runDry_given ht).bind fun outcome h => ?_
      cases outcome with
      | ok outputs =>
        refine .pure fun record' heq => ?_
        obtain rfl := Option.some.inj heq
        exact ⟨hn, hi, he ▸ hbase, fun _ => hy _ outputs rfl rfl h⟩
      | error e =>
        refine .pure fun record' heq => ?_
        obtain rfl := Option.some.inj heq
        exact .failWith wrapToolException_untroubled hn hi
    · refine .get_bind fun state' _ => ?_
      split
      · refine .pure fun record' heq => ?_
        obtain rfl := Option.some.inj heq
        exact .failWith (by simp [Untroubled, Exc.typeName]) hn hi
      · refine .pure fun record' heq => ?_
        obtain rfl := Option.some.inj heq
        exact ⟨hn, hi, he ▸ hbase, fun _ => .skipped rfl (.inr ⟨state, hs, hdry⟩)⟩
  · exact .pure nofun

theorem runFallback_given (ht : Trusted executor reflection A Fair) (hn : Returns Inv A nested)
    (hbase : Untroubled record.errorType) (hstep : step.onError = .fallback fallbackName) :
    (frame Inv).Given A
      (executor.runFallback lane nested info toolName fallbackName inputs record retryErrors)
      (Settled executor reflection Inv step record) Fair := by
  unfold runFallback
  dsimp only
  split
  · next missing hmissing =>
    have hmissing : missing = .toolNotFound fallbackName := by
      unfold getTool at hmissing
      split at hmissing
      · cases hmissing
      · exact (Except.error.inj hmissing).symm
    exact .pure (.failWith (by simp [Untroubled, hmissing, Exc.typeName]) rfl rfl)
  · next tool htool =>
    refine (given_gate tool inputs).bind fun refused hrefused => ?_
    obtain ⟨refusal, approval⟩ := refused
    cases refusal with
    | some e => exact .pure ⟨rfl, rfl, hrefused e rfl, nofun⟩
    | none =>
      dsimp only
      refine .bind (dryDispatch_given step _ ht hbase rfl rfl rfl fun record' outputs hused hout hfits =>
        .fallback hused hstep htool hout hfits) fun dryRecord hdry => ?_
      cases dryRecord with
      | some dryRecord => exact .pure (hdry _ rfl)
      | none =>
        refine .ask_bind fun _ _ => (runTool_given ht hn).bind fun outcome h => ?_
        cases outcome with
        | ok outputs => exact .pure ⟨rfl, rfl, hbase, fun _ => .fallback rfl hstep htool rfl h⟩
        | error e => exact .pure ⟨rfl, rfl, wrapToolException_untroubled, nofun⟩

theorem applyOnError_given (ht : Trusted executor reflection A Fair) (hn : Returns Inv A nested)
    (hbase : Untroubled record.errorType) (hw : Untroubled (some wrapped.typeName)) :
    (frame Inv).Given A
      (executor.applyOnError lane nested info step toolName inputs record retryErrors wrapped)
      (Settled executor reflection Inv step record) Fair := by
  unfold applyOnError
  split
  · exact .pure (.failWith hw rfl rfl)
  · next hskip =>
    exact .pure ⟨rfl, rfl, hw, fun _ => .skipped rfl (.inl hskip)⟩
  · next hfallback => exact runFallback_given ht hn hbase hfallback

theorem Settled.of_base (h : Settled executor reflection Inv step base record)
    (hn : base.toolName = base'.toolName) (hi : base.inputs = base'.inputs) :
    Settled executor reflection Inv step base' record :=
  ⟨h.toolName.trans hn, h.inputs.trans hi, h.untroubled, h.yields⟩

theorem Trusted.cacheKey (ht : Trusted executor reflection A Fair)
    (h : executor.cacheKey lane state tool inputs = .error e) : Fair e := by
  unfold Executor.cacheKey at h
  split at h
  · split at h
    · cases h
    · next hv =>
      obtain rfl := Except.error.inj h
      exact ht.modelValidate _ _ _ hv
    · rcases bind_error h with hhash | ⟨_, _, h⟩
      · exact ht.inputValueHash _ _ _ hhash
      · cases h
  · cases h

/-- The key of a tool names it and its schemas. -/
theorem cacheKey_names (h : executor.cacheKey lane state tool inputs = .ok (some key)) :
    tool.name = key.toolName ∧ tool.schemaHash = key.schemaHash := by
  unfold Executor.cacheKey at h
  split at h
  · split at h
    · cases h
    · cases h
    · obtain ⟨_, _, h⟩ := bind_ok h
      obtain rfl := Option.some.inj (Except.ok.inj h)
      exact ⟨rfl, rfl⟩
  · cases h

theorem cacheLookup_given {tool : Tool} (ht : Trusted executor reflection A Fair)
    (hkey : ∀ k, key = some k → tool.name = k.toolName ∧ tool.schemaHash = k.schemaHash) :
    (frame Inv).Given A (cacheLookup key)
      (fun found => ∀ outputs, found = some outputs → Fits reflection tool.outputSchema outputs) Fair := by
  cases key with
  | none => exact .pure nofun
  | some k =>
    obtain ⟨hname, hhash⟩ := hkey k rfl
    refine .ask_bind fun reply hreply => ?_
    refine (given_ofExcept fun e h => ht.cacheGet _ e (h ▸ hreply)).post fun found hfound outputs h => ?_
    subst h hfound
    exact ht.hit k outputs hreply tool hname hhash

section

variable {tool : Tool} {name toolName : String} {inputs : Dict}

theorem runCached_given (ht : Trusted executor reflection A Fair) (hn : Returns Inv A nested)
    (hbase : Untroubled record.errorType) (htool : ∀ subName, step.target ≠ .flow subName)
    (hname : name ∈ executor.runnable step) (hget : executor.getTool name = .ok tool) :
    (frame Inv).Given A (executor.runCached lane nested info step toolName tool inputs record)
      (Settled executor reflection Inv step record) Fair := by
  have hy : ∀ {outputs}, Fits reflection tool.outputSchema outputs → ∀ record', record'.outputs = some outputs →
      Yields executor reflection Inv step record' :=
    fun hfits record' hout => .tool htool hname hget hout hfits
  unfold runCached
  refine .get_bind fun state _ => (given_ofExcept fun e => ht.cacheKey).bind fun key hkey => ?_
  refine .bind (cacheLookup_given ht fun k hk => cacheKey_names (hk ▸ hkey)) fun found hfound => ?_
  cases found with
  | some outputs =>
    have hsettled : (frame Inv).Given A
        (executor.settleOutputs info step toolName none { record with cached := true } outputs)
        (Settled executor reflection Inv step record) Fair :=
      settleOutputs_given ht hbase rfl rfl rfl (hy (hfound _ rfl))
    refine hsettled.bind fun settled h => .pure ?_
    exact ⟨h.toolName, h.inputs, h.untroubled, fun hsuccess => (h.yields hsuccess).congr rfl rfl rfl⟩
  | none =>
    refine .bind (invokeTool_given ht hn step.retry) fun invoked hinvoked => ?_
    dsimp only
    split
    · next e he =>
      refine .post (applyOnError_given ht hn hbase wrapToolException_untroubled) fun record' h => ?_
      exact h.of_base rfl rfl
    · next outputs hout =>
      rw [hout] at hinvoked
      exact settleOutputs_given ht hbase rfl rfl rfl (hy hinvoked)

/-- What is left open here is whether the chunks make outputs that fit: the terminal chunk is
validated like any other output. -/
theorem consume_given (ht : Trusted executor reflection A Fair) (chunks : List ToolChunk) (final : Option Dict)
    (hfinal : ∀ outputs, final = some outputs → Fits reflection tool.outputSchema outputs) :
    (frame Inv).Given A (executor.consume info toolName tool ending chunks final) (Returned reflection tool) Fair := by
  induction chunks generalizing final with
  | nil =>
    unfold consume
    split
    · exact .pure trivial
    · exact .pure (hfinal _ rfl)
    · exact .pure trivial
  | cons chunk rest ih =>
    unfold consume
    split
    · exact .pure trivial
    split
    · split
      · exact .pure trivial
      · next outputs hout =>
        refine .ask_bind fun _ _ => ih _ fun _ h => ?_
        obtain rfl := Option.some.inj h
        exact ht.validateOutput hout
    · exact .ask_bind fun _ _ => ih none fun _ h => by cases h

theorem dispatchTool_given (ht : Trusted executor reflection A Fair) (hn : Returns Inv A nested)
    (hbase : Untroubled record.errorType) (htool : ∀ subName, step.target ≠ .flow subName)
    (hname : name ∈ executor.runnable step) (hget : executor.getTool name = .ok tool) :
    (frame Inv).Given A (executor.dispatchTool lane nested info step toolName tool inputs record)
      (Settled executor reflection Inv step record) Fair := by
  unfold dispatchTool
  split
  · refine .bind (dryDispatch_given step record ht hbase rfl rfl rfl fun record' outputs _ hout hfits =>
      .tool htool hname hget hout hfits) fun dryRecord hdry => ?_
    cases dryRecord with
    | some dryRecord => exact .pure (hdry _ rfl)
    | none => exact runCached_given ht hn hbase htool hname hget
  · split
    · have hstream : (frame Inv).Given A (executor.runStreaming info toolName tool inputs)
          (Returned reflection tool) Fair := by
        unfold runStreaming
        split
        · exact .pure trivial
        · exact .ask_bind fun _ _ => .ask_bind fun _ _ => consume_given ht _ _ nofun
      refine hstream.bind fun outcome hout => ?_
      cases outcome with
      | error e => exact applyOnError_given ht hn hbase wrapToolException_untroubled
      | ok outputs => exact settleOutputs_given ht hbase rfl rfl rfl fun record' ho => .tool htool hname hget ho hout
    · exact runCached_given ht hn hbase htool hname hget

theorem runToolStep_given (ht : Trusted executor reflection A Fair) (hn : Returns Inv A nested)
    (hbase : Untroubled record.errorType) (htool : ∀ subName, step.target ≠ .flow subName)
    (hname : name ∈ executor.runnable step) (hget : executor.getTool name = .ok tool) :
    (frame Inv).Given A (executor.runToolStep lane nested info step toolName tool inputs record)
      (Settled executor reflection Inv step { record with inputs }) Fair := by
  unfold runToolStep
  refine (given_gate tool inputs).bind fun refused hrefused => ?_
  obtain ⟨refusal, approval⟩ := refused
  cases refusal with
  | some e => exact .pure (.failWith (hrefused e rfl) rfl rfl)
  | none =>
    refine (given_guardrail tool inputs).bind fun blocked hblocked => ?_
    cases blocked with
    | some e => exact .pure (.failWith (hblocked e rfl) rfl rfl)
    | none =>
      refine .post (dispatchTool_given ht hn hbase htool hname hget) fun settled h => ?_
      exact h.of_base rfl rfl

end

-- Whole steps

/-- The step failed at its decision, before its inputs were resolved. -/
def Undecided (record : StepRecord) : Prop :=
  record.success = false ∧
    (record.errorType = some "DecisionCallbackError" ∨ record.errorType = some "DecisionTimeoutError")

/-- What a step has taken from the context and given. The first two parts are about a
context that has all its sources. -/
structure Served (executor : Executor) (reflection : Reflection) (Inv : RunScopedState → Prop)
    (step : FlowStep) (context : Dict) (record : StepRecord) : Prop where
  resolves : step.NoPointers → (∀ source ∈ step.sources, context.contains source = true) →
    Untroubled record.errorType
  covers : step.NoPointers → (∀ source ∈ step.sources, context.contains source = true) →
    Undecided record ∨ record.toolName ∈ executor.runnable step ∧
      ∀ tool, executor.getTool record.toolName = .ok tool →
        ∀ key, step.feeds context key = true → record.inputs.contains key = true
  yields : record.success = true → Yields executor reflection Inv step record

/-- The inputs a tool is prepared with have the keys they are fed. -/
def Fed (step : FlowStep) (context inputs : Dict) : Prop :=
  step.NoPointers → (∀ source ∈ step.sources, context.contains source = true) →
    ∀ key, step.feeds context key = true → inputs.contains key = true

theorem Fed.of_resolved (hresolve : resolveInputs step context stepIndex = .ok inputs) :
    Fed step context inputs := by
  intro hp h
  obtain ⟨inputs', hinputs, hkeys⟩ := resolveInputs_ok hp h
  obtain rfl := Except.ok.inj (hinputs.symm.trans hresolve)
  exact hkeys

theorem unresolved_lacks (hresolve : resolveInputs step context stepIndex = .error e) (hp : step.NoPointers) :
    ¬∀ source ∈ step.sources, context.contains source = true := by
  intro h
  obtain ⟨inputs, hinputs, _⟩ := resolveInputs_ok hp h
  exact nomatch hinputs.symm.trans hresolve

theorem runnable_displayName (executor : Executor) (hn : step.displayName? = some name) : name ∈ executor.runnable step := by
  simp [runnable, hn]

theorem prepareStep_given (ht : Trusted executor reflection A Fair) (hname : toolName ∈ executor.runnable step)
    (hblank : blank.toolName = toolName) :
    (frame Inv).Given A (executor.prepareStep info step toolName context blank)
      (fun prepared =>
        match prepared with
        | .error record => Served executor reflection Inv step context record
        | .ok (tool, inputs) => executor.getTool toolName = .ok tool ∧ Fed step context inputs) Fair := by
  unfold prepareStep
  cases hget : executor.getTool toolName with
  | error e =>
    have he : Untroubled (some e.typeName) := by
      unfold getTool at hget
      split at hget
      · cases hget
      · simp [Untroubled, ← Except.error.inj hget, Exc.typeName]
    refine .pure ⟨fun _ _ => he, fun _ _ => .inr ⟨hblank ▸ hname, fun tool h => ?_⟩, nofun⟩
    rw [show (blank.failWith e).toolName = toolName from hblank, hget] at h
    cases h
  | ok tool =>
    dsimp only
    cases hresolve : resolveInputs step context info.stepIndex with
    | error e =>
      have hlacks := unresolved_lacks hresolve
      exact .pure ⟨fun hp h => absurd h (hlacks hp), fun hp h => absurd h (hlacks hp), nofun⟩
    | ok inputs =>
      have hfed := Fed.of_resolved hresolve
      refine (given_ofExcept fun e => ht.checkStepContract).bind fun violation hviolation => ?_
      cases violation with
      | none => exact .pure ⟨rfl, hfed⟩
      | some e =>
        obtain ⟨detail, rfl⟩ := checkStepContract_violation hviolation
        exact .pure ⟨fun _ _ => by simp [Untroubled, StepRecord.failWith, Exc.typeName],
          fun hp h => .inr ⟨hblank ▸ hname, fun _ _ => hfed hp h⟩, nofun⟩

/-- A tool step whose decision is made. -/
theorem executeToolStep_given (ht : Trusted executor reflection A Fair) (hn : Returns Inv A nested)
    (htool : ∀ subName, step.target ≠ .flow subName) :
    (frame Inv).Given A (executor.executeToolStep lane nested info step decision context)
      (Served executor reflection Inv step context) Fair := by
  unfold executeToolStep
  refine (given_displayName (ht.own _ rfl)).bind fun toolName hname => ?_
  have hrunnable := runnable_displayName executor hname
  refine (prepareStep_given ht hrunnable rfl).bind fun prepared hprepared => ?_
  match prepared, hprepared with
  | .error record, h => exact .ask_bind fun _ _ => .pure h
  | .ok (tool, inputs), ⟨hget, hfed⟩ =>
    refine .ask_bind fun _ _ => (runToolStep_given ht hn (by simp [Untroubled]) htool hrunnable hget).bind fun record h => ?_
    refine .ask_bind fun _ _ => .pure ⟨fun _ _ => h.untroubled, fun hp hs => .inr ⟨?_, fun _ _ => ?_⟩, h.yields⟩
    · rw [h.toolName]
      exact hrunnable
    · rw [h.inputs]
      exact hfed hp hs

-- Decisions

/-- A step as its decision leaves it: the same but for its tool, which is one of those
it may run with. -/
structure Decided (executor : Executor) (step step' : FlowStep) : Prop where
  inputMapping : step'.inputMapping = step.inputMapping
  onError : step'.onError = step.onError
  tool : ∀ subName, step'.target ≠ .flow subName
  runnable : ∀ name ∈ executor.runnable step', name ∈ executor.runnable step

theorem chooseTool_decided {hc : step.decisionCandidates = some candidates}
    (hcallback : executor.hasDecisionCallback = true) (htool : ∀ subName, step.target ≠ .flow subName)
    (h : chooseTool info policy step hc defaultName answer = .ok (step', decision)) :
    Decided executor step step' := by
  have hsame : Decided executor step step := ⟨rfl, rfl, htool, fun _ => id⟩
  unfold chooseTool at h
  split at h
  · split at h
    · cases h
    · cases h
      exact hsame
  · cases h
  · split at h
    · next chosen hm =>
      split at h
      · cases h
        exact hsame
      · cases h
        refine ⟨rfl, rfl, fun _ => nofun, fun name hname => ?_⟩
        have hcandidates : (step.withTool chosen (step.candidatesValid_chosen hc hm)).decisionCandidates =
            some candidates := hc
        simp only [Executor.runnable, hcallback, if_true, hcandidates, hc, Option.getD_some, List.mem_append] at hname ⊢
        rcases hname with hname | hname
        · right
          simp only [FlowStep.displayName?, FlowStep.withTool] at hname
          split at hname
          · cases hname
          · obtain rfl := List.mem_singleton.1 hname
            simpa using hm
        · exact .inr hname
    · cases h

theorem chooseTool_undecided {hc : step.decisionCandidates = some candidates}
    (h : chooseTool info policy step hc defaultName answer = .error e) (record : StepRecord) :
    Undecided (record.failWith e) := by
  unfold chooseTool at h
  split at h
  · split at h
    · cases h
      exact ⟨rfl, .inr rfl⟩
    · cases h
  · cases h
    exact ⟨rfl, .inl rfl⟩
  · split at h
    · split at h <;> cases h
    · cases h
      exact ⟨rfl, .inl rfl⟩

theorem resolveDecision_given (ht : Trusted executor reflection A Fair)
    (hcount : executor.hasDecisionCallback = true → step.decisionCandidates.isSome = true →
      ∀ state n, Inv state → Inv { state with decisionCount := n })
    (htool : ∀ subName, step.target ≠ .flow subName) :
    (frame Inv).Given A (executor.resolveDecision info step context)
      (fun resolved =>
        match resolved with
        | .error record => Undecided record
        | .ok (step', _) => Decided executor step step') Fair := by
  have hsame : Decided executor step step := ⟨rfl, rfl, htool, fun _ => id⟩
  unfold resolveDecision
  split
  · exact .pure hsame
  next candidates hc =>
  split
  · exact .pure hsame
  next hcallback =>
  refine (given_displayName (ht.own _ rfl)).bind fun defaultName _ => ?_
  have hspend : (frame Inv).Given A (executor.spendDecision info) (fun _ => True) Fair := by
    unfold spendDecision
    have hcount := hcount (by simpa using hcallback) (by rw [hc]; rfl)
    refine .modify_bind (fun _ => hcount _ _) (.get_bind fun state _ => ?_)
    split
    · exact .pure trivial
    · dsimp only
      split
      · exact given_raise (ht.own _ rfl)
      · exact .pure trivial
  refine hspend.bind fun _ _ => ?_
  have hask : ∀ policy ctx, (frame Inv).Given A (askDecision policy ctx) (fun _ => True) Fair := by
    intro policy ctx
    unfold askDecision
    split
    · exact .ask fun _ _ => trivial
    · exact .ask_bind fun _ _ => .pure trivial
  refine (hask _ _).bind fun answer _ => ?_
  split
  · next e he =>
    unfold decisionFailed
    exact .bind (.ask_bind fun _ _ => .pure (chooseTool_undecided he _)) fun record h => .pure h
  · next step' decision hchosen =>
    exact .pure (chooseTool_decided (by simpa using hcallback) htool hchosen)

theorem Served.of_decided (h : Served executor reflection Inv step' context record)
    (htool : ∀ subName, step.target ≠ .flow subName) (hd : Decided executor step step') : Served executor reflection Inv step context record := by
  have hsources : step'.sources = step.sources := by simp [FlowStep.sources, hd.inputMapping]
  have hpointers : step.NoPointers → step'.NoPointers := by simp [FlowStep.NoPointers, hsources]
  have hfeeds : ∀ key, step'.feeds context key = step.feeds context key := by simp [FlowStep.feeds, hd.inputMapping]
  refine ⟨fun hp hs => h.resolves (hpointers hp) (hsources ▸ hs), fun hp hs => ?_, fun hsuccess => ?_⟩
  · refine (h.covers (hpointers hp) (hsources ▸ hs)).imp_right fun ⟨hrunnable, hkeys⟩ => ?_
    exact ⟨hd.runnable _ hrunnable, fun tool ht key hkey => hkeys tool ht key (hfeeds key ▸ hkey)⟩
  · cases h.yields hsuccess with
    | skipped hskipped hwhy => exact .skipped hskipped (hd.onError ▸ hwhy)
    | tool _ hname hget hout hfits => exact .tool htool (hd.runnable _ hname) hget hout hfits
    | fallback hused hwhy hget hout hfits => exact .fallback hused (hd.onError ▸ hwhy) hget hout hfits
    | flow htarget => exact absurd htarget (hd.tool _)

-- Steps of either kind

/-- The final output of a flow that succeeded has passed its output schema. -/
def Succeeds (executor : Executor) (flowName : String) (result : ExecutionResult) : Prop :=
  result.success = true → ∃ flow outputs label stepIndex, executor.registry.getFlow flowName none = .ok flow ∧
    result.finalOutput = some outputs ∧
    executor.validateFlowSchema label outputs flow.header.outputSchemaRef stepIndex "flow_output" = .ok none

theorem executeSubflowStep_given (hstable : Stable Inv)
    (htarget : step.target = .flow subName)
    (hsub : ∀ input, (frame Inv).Given A (nested.entry lane subName input cancellation)
      (executor.Succeeds subName) Fair) :
    (frame Inv).Given A (executeSubflowStep lane nested info step subName context cancellation)
      (Served executor reflection Inv step context) Fair := by
  have hname : subName ∈ executor.runnable step := runnable_displayName executor (by simp [FlowStep.displayName?, htarget])
  unfold executeSubflowStep
  refine .ask_bind fun _ _ => ?_
  dsimp only
  cases hresolve : resolveInputs step context info.stepIndex with
  | error e =>
    have hlacks := unresolved_lacks hresolve
    exact .pure ⟨fun hp h => absurd h (hlacks hp), fun hp h => absurd h (hlacks hp), nofun⟩
  | ok subInput =>
    have hfed := Fed.of_resolved hresolve
    refine .ask_bind fun _ _ => .get_bind fun state _ => ?_
    refine .attempt_bind (given_nestedCall (hsub subInput)) (fun result hresult => ?_) fun e he => ?_
    · refine .modify_bind (fun _ => hstable.version) (.ask_bind fun _ _ => .pure ?_)
      refine ⟨fun _ _ => ?_, fun hp h => .inr ⟨hname, fun _ _ => hfed hp h⟩, fun hsuccess => ?_⟩
      · simp only [subflowRecord]
        split <;> simp [Untroubled]
      · obtain ⟨flow, outputs, label, stepIndex, hflow, hfinal, hvalid⟩ := hresult hsuccess
        have hsuccess : result.success = true := hsuccess
        exact .flow htarget hflow (by simp [subflowRecord, hsuccess, hfinal]) hvalid
    · exact .modify_bind (fun _ => hstable.version) (.throw he)

/-- One step, in either lane. -/
theorem executeStepIn_given (ht : Trusted executor reflection A Fair) (hstable : Stable Inv)
    (hn : Returns Inv A nested)
    (hsub : ∀ subName, step.target = .flow subName → ∀ input,
      (frame Inv).Given A (nested.entry lane subName input cancellation) (executor.Succeeds subName) Fair) :
    (frame Inv).Given A (executor.executeStepIn lane nested info step context cancellation)
      (Served executor reflection Inv step context) Fair := by
  unfold executeStepIn
  split
  · next subName htarget => exact executeSubflowStep_given hstable htarget (hsub subName htarget)
  next name htarget =>
  have htool : ∀ subName, step.target ≠ .flow subName := by simp [htarget]
  cases lane with
  | async => exact executeToolStep_given ht hn htool
  | sync =>
    refine (resolveDecision_given ht (fun _ _ _ _ => hstable.count) htool).bind fun resolved hresolved => ?_
    match resolved, hresolved with
    | .error record, hundecided =>
      refine .pure ⟨fun _ _ => ?_, fun _ _ => .inl hundecided, fun h => absurd (hundecided.1.symm.trans h) nofun⟩
      rcases hundecided.2 with h | h <;> simp [Untroubled, h]
    | .ok (step', decision), hd =>
      exact .post (executeToolStep_given ht hn hd.tool) fun record h => h.of_decided htool hd

end ChainWeaver.Executor
