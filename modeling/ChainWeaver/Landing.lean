import ChainWeaver.CompilerSound
import ChainWeaver.StepCounterparts

/-!
# Where the outputs of a step land

The outputs of a tool step are what the output schema of some tool it employs has
validated, so the context keys they land under are known before the run: those of the
output mapping or, without one, those such a schema lets out.
-/

namespace ChainWeaver.Executor

variable {executor : Executor} {A : Event → Prop} {Inv : RunScopedState → Prop} {P : Dict → Prop}
  {nested : Nested} {info : StepInfo} {tool : Tool} {inputs : Dict} {record : StepRecord} {lane : Lane}
  {step : FlowStep}

-- What a tool hands out

/-- Whatever the tool's output schema validates is in `P`, and so is what the cache has of
the tool. -/
structure Hands (executor : Executor) (A : Event → Prop) (P : Dict → Prop) (tool : Tool) : Prop where
  outputs : ∀ value outputs, executor.platform.modelValidate tool.outputSchema value = .ok outputs → P outputs
  hit : ∀ key outputs, A ⟨.cacheGet, key, .ok (some outputs)⟩ → tool.name = key.toolName →
    tool.schemaHash = key.schemaHash → P outputs

/-- Outputs, if there are any, are in `P`. -/
abbrev Emitted (P : Dict → Prop) (outcome : Except Exc Dict) : Prop :=
  ∀ outputs, outcome = .ok outputs → P outputs

/-- The outputs of a record of success are in `P`. -/
abbrev Gave (P : Dict → Prop) (record : StepRecord) : Prop :=
  record.success = true → ∀ outputs, record.outputs = some outputs → P outputs

theorem gave_of_failed (h : record.success = false) : Gave P record := by
  intro hsuccess
  cases h.symm.trans hsuccess

theorem gave_failWith (record : StepRecord) (e : Exc) : Gave P (record.failWith e) := gave_of_failed rfl

theorem gave_of_outputs (h : record.outputs = some outputs) (hp : P outputs) : Gave P record := by
  intro _ outputs' houtputs
  obtain rfl := Option.some.inj (h.symm.trans houtputs)
  exact hp

theorem gave_succeedWith (record : StepRecord) (h : P outputs) : Gave P (record.succeedWith outputs) :=
  gave_of_outputs rfl h

theorem emitted_error (e : Exc) : Emitted P (.error e) := by
  intro outputs houtputs
  cases houtputs

theorem emitted_ok (h : P outputs) : Emitted P (.ok outputs) := by
  intro outputs houtputs
  obtain rfl := Except.ok.inj houtputs
  exact h

theorem Hands.validateOutput (h : executor.Hands A P tool) (raw : Value) :
    Emitted P (executor.validateOutput tool raw) := by
  intro outputs hvalid
  unfold Executor.validateOutput at hvalid
  refine h.outputs raw _ ?_
  split at hvalid
  · exact hvalid
  · obtain ⟨size, _, hvalid⟩ := bind_ok hvalid
    split at hvalid
    · cases hvalid
    · exact hvalid

theorem Hands.bind (h : executor.Hands A P tool) (raw : Except Exc Value) :
    Emitted P (raw.bind (executor.validateOutput tool)) := by
  cases raw with
  | ok value => exact h.validateOutput value
  | error e => exact emitted_error e

/-- The computation keeps the state and, from the answers in `A`, ends in `Q`, if it returns. -/
abbrev Leaves (Inv : RunScopedState → Prop) (A : Event → Prop) (c : Exec α) (Q : α → Prop) : Prop :=
  (frame Inv).Given A c Q fun _ => True

theorem leaves_ofExcept (x : Except Exc α) : Leaves Inv A (ofExcept x) fun value => x = .ok value :=
  given_ofExcept fun _ _ => trivial

theorem Hands.runTool (h : executor.Hands A P tool) (hn : Returns Inv A nested) :
    Leaves Inv A (executor.runTool nested info tool inputs) (Emitted P) := by
  unfold Executor.runTool
  split
  · exact .pure (emitted_error _)
  · exact (callFn_given hn).bind fun raw _ => .pure (h.bind raw)

theorem Hands.runDry (h : executor.Hands A P tool) :
    Leaves Inv A (executor.runDry info tool inputs) (Emitted P) := by
  unfold Executor.runDry
  split
  · exact .pure (emitted_error _)
  · exact .ask_bind fun raw _ => .pure (h.bind raw)

theorem Hands.attempts (h : executor.Hands A P tool) (hn : Returns Inv A nested) (retries : Nat)
    (retryErrors : List String) (made : Nat) :
    Leaves Inv A (executor.attempts nested info tool inputs retryable retries retryErrors made)
      fun invoked => Emitted P invoked.outcome := by
  induction retries generalizing retryErrors made with
  | zero =>
    unfold Executor.attempts
    refine (h.runTool hn).bind fun outcome houtcome => ?_
    cases outcome <;> exact .pure houtcome
  | succ retries ih =>
    unfold Executor.attempts
    refine (h.runTool hn).bind fun outcome houtcome => ?_
    cases outcome with
    | ok outputs => exact .pure houtcome
    | error e =>
      dsimp only
      split
      · exact ih _ _
      · exact .pure houtcome

theorem Hands.invokeTool (h : executor.Hands A P tool) (hn : Returns Inv A nested) (policy : Option RetryPolicy) :
    Leaves Inv A (executor.invokeTool nested info tool inputs policy) fun invoked => Emitted P invoked.outcome := by
  unfold Executor.invokeTool
  cases policy with
  | none => exact h.attempts hn _ _ _
  | some policy =>
    dsimp only
    split
    · refine (h.runTool hn).bind fun outcome houtcome => ?_
      cases outcome <;> exact .pure houtcome
    · split
      · exact .pure (emitted_error _)
      · exact h.attempts hn _ _ _

theorem Hands.consume (h : executor.Hands A P tool) (chunks : List ToolChunk) (final : Option Dict)
    (hfinal : ∀ outputs, final = some outputs → P outputs) :
    Leaves Inv A (executor.consume info toolName tool ending chunks final) (Emitted P) := by
  induction chunks generalizing final with
  | nil =>
    unfold Executor.consume
    split
    · exact .pure (emitted_error _)
    · exact .pure (emitted_ok (hfinal _ rfl))
    · exact .pure (emitted_error _)
  | cons chunk rest ih =>
    unfold Executor.consume
    split
    · exact .pure (emitted_error _)
    split
    · split
      · exact .pure (emitted_error _)
      · next outputs houtputs =>
        refine .ask_bind fun _ _ => ih _ fun _ heq => ?_
        obtain rfl := Option.some.inj heq
        exact h.validateOutput _ _ houtputs
    · refine .ask_bind fun _ _ => ih none fun _ heq => ?_
      cases heq

theorem Hands.runStreaming (h : executor.Hands A P tool) :
    Leaves Inv A (executor.runStreaming info toolName tool inputs) (Emitted P) := by
  unfold Executor.runStreaming
  split
  · exact .pure (emitted_error _)
  · refine .ask_bind fun _ _ => .ask_bind fun _ _ => h.consume _ _ fun _ heq => ?_
    cases heq

-- What a step leaves

theorem leaves_evaluateSafetyGate :
    Leaves Inv A (executor.evaluateSafetyGate info tool inputs) fun _ => True :=
  (given_gate tool inputs).weaken (fun _ _ => trivial) fun _ => id

theorem leaves_evaluateInputGuardrail :
    Leaves Inv A (executor.evaluateInputGuardrail info tool inputs) fun _ => True :=
  (given_guardrail tool inputs).weaken (fun _ _ => trivial) fun _ => id

theorem leaves_settleOutputs (h : P outputs) :
    Leaves Inv A (executor.settleOutputs info step toolName key record outputs) (Gave P) := by
  unfold settleOutputs
  refine (leaves_ofExcept _).bind fun violation _ => ?_
  cases violation with
  | some e => exact .pure (gave_failWith _ _)
  | none =>
    cases key with
    | some key => exact .ask_bind fun _ _ => (leaves_ofExcept _).bind fun _ _ => .pure (gave_succeedWith _ h)
    | none => exact .pure (gave_succeedWith _ h)

theorem Hands.dryDispatch (h : executor.Hands A P tool) (hempty : P .empty) :
    Leaves Inv A (executor.dryDispatch lane info toolName tool inputs record)
      fun dryRecord => ∀ record', dryRecord = some record' → Gave P record' := by
  have hsome : ∀ {settled : StepRecord}, Gave P settled →
      ∀ record', some settled = some record' → Gave P record' := by
    rintro settled hgave record' heq
    obtain rfl := Option.some.inj heq
    exact hgave
  have hnone : ∀ record', (none : Option StepRecord) = some record' → Gave P record' := by
    intro record' heq
    cases heq
  unfold Executor.dryDispatch
  refine .get_bind fun state _ => ?_
  split
  · unfold dryRunStep
    split
    · exact .pure hnone
    split
    · refine h.runDry.bind fun outcome houtcome => ?_
      cases outcome with
      | ok outputs => exact .pure (hsome (gave_succeedWith _ (houtcome _ rfl)))
      | error e => exact .pure (hsome (gave_failWith _ _))
    · refine .get_bind fun state' _ => ?_
      split
      · exact .pure (hsome (gave_failWith _ _))
      · exact .pure (hsome (gave_succeedWith (P := P) record hempty))
  · exact .pure hnone

variable (executor) in
/-- Every tool of this name hands out what is in `P`. -/
abbrev HandsNamed (A : Event → Prop) (P : Dict → Prop) (name : String) : Prop :=
  ∀ tool, executor.getTool name = .ok tool → executor.Hands A P tool

theorem leaves_runFallback (hn : Returns Inv A nested) (hempty : P .empty)
    (h : executor.HandsNamed A P fallbackName) :
    Leaves Inv A (executor.runFallback lane nested info toolName fallbackName inputs record retryErrors) (Gave P) := by
  unfold runFallback
  dsimp only
  split
  · exact .pure (gave_failWith _ _)
  · next tool htool =>
    have hhands := h tool htool
    refine leaves_evaluateSafetyGate.bind fun refused _ => ?_
    obtain ⟨refusal, approval⟩ := refused
    cases refusal with
    | some e => exact .pure (gave_of_failed rfl)
    | none =>
      dsimp only
      refine .bind (hhands.dryDispatch hempty) fun dryRecord hdry => ?_
      cases dryRecord with
      | some dryRecord => exact .pure (hdry _ rfl)
      | none =>
        refine .ask_bind fun _ _ => (hhands.runTool hn).bind fun outcome houtcome => ?_
        cases outcome with
        | ok outputs => exact .pure (gave_succeedWith _ (houtcome _ rfl))
        | error e => exact .pure (gave_of_failed rfl)

theorem leaves_applyOnError (hn : Returns Inv A nested) (hempty : P .empty)
    (h : ∀ name, step.onError = .fallback name → executor.HandsNamed A P name) :
    Leaves Inv A (executor.applyOnError lane nested info step toolName inputs record retryErrors wrapped)
      (Gave P) := by
  unfold applyOnError
  split
  · exact .pure (gave_failWith _ _)
  · exact .pure (gave_of_outputs rfl hempty)
  · next hfallback => exact leaves_runFallback hn hempty (h _ hfallback)

theorem leaves_runCached (hn : Returns Inv A nested) (hempty : P .empty) (htool : executor.Hands A P tool)
    (h : ∀ name, step.onError = .fallback name → executor.HandsNamed A P name) :
    Leaves Inv A (executor.runCached lane nested info step toolName tool inputs record) (Gave P) := by
  unfold runCached
  refine .get_bind fun state _ => (leaves_ofExcept _).bind fun key hkey => ?_
  have hlookup : Leaves Inv A (cacheLookup key) fun found => ∀ outputs, found = some outputs → P outputs := by
    cases key with
    | none =>
      refine .pure fun outputs heq => ?_
      cases heq
    | some key =>
      obtain ⟨hname, hhash⟩ := cacheKey_names hkey
      refine .ask_bind fun reply hreply => (leaves_ofExcept _).post fun found hfound outputs heq => ?_
      subst heq hfound
      exact htool.hit key outputs hreply hname hhash
  refine hlookup.bind fun found hfound => ?_
  cases found with
  | some outputs => exact (leaves_settleOutputs (hfound _ rfl)).bind fun settled hsettled => .pure hsettled
  | none =>
    refine (htool.invokeTool hn _).bind fun invoked hinvoked => ?_
    dsimp only
    split
    · exact leaves_applyOnError hn hempty h
    · next outputs houtputs => exact leaves_settleOutputs (hinvoked _ houtputs)

theorem leaves_dispatchTool (hn : Returns Inv A nested) (hempty : P .empty) (htool : executor.Hands A P tool)
    (h : ∀ name, step.onError = .fallback name → executor.HandsNamed A P name) :
    Leaves Inv A (executor.dispatchTool lane nested info step toolName tool inputs record) (Gave P) := by
  unfold dispatchTool
  cases lane with
  | sync =>
    refine .bind (htool.dryDispatch hempty) fun dryRecord hdry => ?_
    cases dryRecord with
    | some dryRecord => exact .pure (hdry _ rfl)
    | none => exact leaves_runCached hn hempty htool h
  | async =>
    dsimp only
    split
    · unfold runStreamingStep
      refine htool.runStreaming.bind fun outcome houtcome => ?_
      cases outcome with
      | ok outputs => exact leaves_settleOutputs (houtcome _ rfl)
      | error e => exact leaves_applyOnError hn hempty h
    · exact leaves_runCached hn hempty htool h

theorem leaves_executeToolStep (hn : Returns Inv A nested) (hempty : P .empty)
    (hown : ∀ name, step.displayName? = some name → executor.HandsNamed A P name)
    (h : ∀ name, step.onError = .fallback name → executor.HandsNamed A P name) :
    Leaves Inv A (executor.executeToolStep lane nested info step decision context) (Gave P) := by
  unfold executeToolStep
  refine (given_displayName trivial).bind fun toolName hname => ?_
  have hprepared : ∀ record : StepRecord, Leaves Inv A (executor.prepareStep info step toolName context record)
      (Interaction.Outcome (fun ready => executor.getTool toolName = .ok ready.1)
        fun failed => failed.success = false) := by
    intro record
    unfold prepareStep
    split
    · exact .pure rfl
    · next tool htool =>
      split
      · exact .pure rfl
      · refine (leaves_ofExcept _).bind fun violation _ => ?_
        cases violation with
        | some e => exact .pure rfl
        | none => exact .pure htool
  refine (hprepared _).bind fun prepared hready => ?_
  cases prepared with
  | error failed => exact .ask_bind fun _ _ => .pure (gave_of_failed hready)
  | ok ready =>
    have hhands := hown toolName hname _ hready
    refine .ask_bind fun _ _ => .bind (Q := Gave P) ?_ fun record hgave => .ask_bind fun _ _ => .pure hgave
    unfold runToolStep
    refine leaves_evaluateSafetyGate.bind fun refused _ => ?_
    obtain ⟨refusal, approval⟩ := refused
    cases refusal with
    | some e => exact .pure (gave_failWith _ _)
    | none =>
      refine leaves_evaluateInputGuardrail.bind fun violation _ => ?_
      cases violation with
      | some e => exact .pure (gave_failWith _ _)
      | none => exact leaves_dispatchTool hn hempty hhands h

/-- Nothing is asked of the surroundings. -/
theorem trusted_anything (executor : Executor) (A : Event → Prop) :
    Trusted executor { modelFields := fun _ => .empty, repr := fun _ => "" } A fun _ => True := by
  constructor <;> intros
  all_goals first | trivial | exact fun _ hfield => absurd hfield (by simp)

/-- What a tool step gives is handed out by a tool it employs. -/
theorem leaves_executeStepIn (hn : Returns Inv A nested) (hempty : P .empty) (htarget : step.target = .tool target)
    (hcount : lane = .sync → executor.hasDecisionCallback = true → step.decisionCandidates.isSome = true →
      ∀ state n, Inv state → Inv { state with decisionCount := n })
    (h : ∀ name ∈ executor.employed step, executor.HandsNamed A P name) :
    Leaves Inv A (executor.executeStepIn lane nested info step context cancellation) (Gave P) := by
  have hfallback : ∀ name, step.onError = .fallback name → executor.HandsNamed A P name :=
    fun name hname => h name (List.mem_append_right _ (by simp [hname]))
  unfold executeStepIn
  split
  · next hflow => cases htarget.symm.trans hflow
  · cases lane with
    | async =>
      refine leaves_executeToolStep hn hempty (fun name hname => ?_) hfallback
      exact h name (List.mem_append_left _ (runnable_displayName executor hname))
    | sync =>
      have htool : ∀ subName, step.target ≠ .flow subName := by simp [htarget]
      refine (resolveDecision_given (trusted_anything executor A) (hcount rfl) htool).bind fun resolved hresolved => ?_
      cases resolved with
      | error record =>
        have hundecided : Undecided record := hresolved
        exact .pure (gave_of_failed hundecided.1)
      | ok chosen =>
        have hdecided : Decided executor step chosen.1 := hresolved
        refine leaves_executeToolStep hn hempty (fun name hname => ?_) fun name hname => ?_
        · exact h name (List.mem_append_left _ (hdecided.runnable _ (runnable_displayName executor hname)))
        · exact hfallback name (hdecided.onError ▸ hname)

end ChainWeaver.Executor
