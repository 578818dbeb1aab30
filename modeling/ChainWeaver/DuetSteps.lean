import ChainWeaver.Duet

/-!
# One step on both sides

What the two runs of a duet make of one step: the same calls of the same tools, and records that are
kin.
-/

namespace ChainWeaver.Duet

open Executor
open Interaction (Met Never)

variable {P : Duet} {nested nested' : Nested} {D : StepRecord → Prop}

/-- Where the step stands in either run; the step ids may differ. -/
structure SameSpot (info info' : StepInfo) : Prop where
  flowName : info.flowName = info'.flowName
  stepIndex : info.stepIndex = info'.stepIndex

variable {info info' : StepInfo} {step : FlowStep} {tool : Tool} {toolName : String} {inputs context : Dict}
  {record : StepRecord}

-- Gate and guardrail

theorem settles_safetyGate {D : Option Exc × Option ApprovalRecord → Prop} (h : SameSpot info info') :
    P.Settles D (P.executor.evaluateSafetyGate info tool inputs) (P.executor.evaluateSafetyGate info' tool inputs) Eq := by
  obtain ⟨traceId, flowName, stepIndex, stepId⟩ := info
  obtain ⟨traceId', _, _, stepId'⟩ := info'
  obtain ⟨rfl, rfl⟩ := h
  unfold evaluateSafetyGate
  dsimp only
  split
  · exact .pure rfl
  split
  · exact .pure rfl
  split
  · split <;> exact .pure rfl
  · refine .bind_same (settles_perform (fun _ _ => id) rfl) fun reply => ?_
    split <;> exact .pure rfl

theorem settles_inputGuardrail {D : Option Exc → Prop} (h : SameSpot info info') :
    P.Settles D (P.executor.evaluateInputGuardrail info tool inputs) (P.executor.evaluateInputGuardrail info' tool inputs)
      Eq := by
  obtain ⟨traceId, flowName, stepIndex, stepId⟩ := info
  obtain ⟨traceId', _, _, stepId'⟩ := info'
  obtain ⟨rfl, rfl⟩ := h
  unfold evaluateInputGuardrail
  split
  · exact .pure rfl
  · refine .bind_same (settles_perform (fun _ _ => id) rfl) fun reply => ?_
    split <;> exact .pure rfl

-- Calls of a tool

/-- The outcome of a call: the same value, or errors that are kin. -/
inductive SameOutcome (marks : Marks) : Except Exc α → Except Exc α → Prop
  | ok (value : α) : SameOutcome marks (.ok value) (.ok value)
  | error {e e' : Exc} : e.Kin marks e' → SameOutcome marks (.error e) (.error e')

theorem SameOutcome.refl {marks : Marks} (outcome : Except Exc α) : SameOutcome marks outcome outcome := by
  cases outcome with
  | ok value => exact .ok value
  | error e => exact .error (.same e)

theorem SameOutcome.bind {marks : Marks} {outcome outcome' : Except Exc α} (h : SameOutcome marks outcome outcome')
    (f : α → Except Exc β) : SameOutcome marks (outcome.bind f) (outcome'.bind f) := by
  cases h with
  | ok value => exact .refl _
  | error he => exact .error he

/-- A failed result tells the same to a tool that wraps its flow. -/
theorem flowFnOutcome_kin {marks : Marks} {result result' : ExecutionResult} (hlanes : marks.lanes = false)
    (h : result.Kin marks result') (toolName : String) (stepCount : Nat) :
    flowFnOutcome toolName stepCount result = flowFnOutcome toolName stepCount result' := by
  have hfind : Option.Rel (StepRecord.Kin marks) (result.executionLog.find? fun record => !record.success)
      (result'.executionLog.find? fun record => !record.success) := by
    have hlog := LogKin.iff_forall₂.1 h.executionLog
    generalize result.executionLog = log at hlog
    generalize result'.executionLog = log' at hlog
    induction hlog with
    | nil => exact .none
    | cons hrecord _ ih =>
      rw [List.find?_cons, List.find?_cons, hrecord.success]
      split
      · exact .some hrecord
      · exact ih
  unfold flowFnOutcome
  rw [h.success, h.finalOutput]
  split
  · generalize result.executionLog.find? _ = failed at hfind
    generalize result'.executionLog.find? _ = failed' at hfind
    cases hfind with
    | none => rfl
    | some hrecord => simp only [hrecord.errorMessage hlanes, hrecord.errorType, hrecord.stepIndex]
  · rfl

/-- The entry points a step can call, seen from both sides. -/
structure Partners (P : Duet) (nested nested' : Nested) (called : String → Prop) : Prop where
  sync : ∀ flowName, (P.slot = false → called flowName) → ∀ input cancellation,
    P.accord.Settles P.sync.errors Never (nested.executeFlow flowName input cancellation)
      (nested'.executeFlow flowName input cancellation) (ExecutionResult.Kin P.sync.marks)
  entry : ∀ flowName, called flowName → ∀ input cancellation,
    P.Settles (fun result => P.apart = true ∧ result.success = false)
      (nested.entry P.lane flowName input cancellation) (nested'.entry P.lane' flowName input cancellation)
      (ExecutionResult.Kin P.marks)

variable {called : String → Prop}

/-- With different resume slots, a flow that the tool wraps is among those that may be called. -/
def WrapsOnly (P : Duet) (called : String → Prop) (tool : Tool) : Prop :=
  P.slot = false → ∀ flowName toolName stepCount, tool.fn = .flow flowName toolName stepCount → called flowName

section Calls

variable (hn : Partners P nested nested' called) (hwraps : P.WrapsOnly called tool)
include hn hwraps

theorem settles_callFn {D : Except Exc Value → Prop} (validated : Dict) :
    P.Settles D (callFn nested info tool inputs validated) (callFn nested' info' tool inputs validated)
      (SameOutcome P.sync.marks) := by
  unfold callFn
  refine .bind_same settles_probe fun _ => ?_
  cases hfn : tool.fn with
  | callable =>
    dsimp only
    refine .post (V := Eq) (@settles_perform P .callTool _ _ _ (fun _ _ => id) rfl) ?_
    rintro reply _ rfl
    exact .refl reply
  | flow flowName wrapper stepCount =>
    refine .attempt_bind (settles_nestedCall (hn.sync flowName (fun hslot => hwraps hslot _ _ _ hfn) validated {})) ?_ ?_
    · intro result result' hresult
      refine .pure ?_
      change SameOutcome P.sync.marks (flowFnOutcome wrapper stepCount result) (flowFnOutcome wrapper stepCount result')
      rw [flowFnOutcome_kin rfl hresult]
      exact .refl _
    · intro e e' he
      exact .pure (.error (he rfl))
  | stream =>
    refine .bind_same (settles_perform (fun _ _ => id) rfl) fun reply => ?_
    exact .pure (.refl _)

theorem settles_runTool {D : Except Exc Dict → Prop} :
    P.Settles D (P.executor.runTool nested info tool inputs) (P.executor.runTool nested' info' tool inputs)
      (SameOutcome P.sync.marks) := by
  unfold runTool
  split
  · exact .pure (.refl _)
  · exact .bind (settles_callFn hn hwraps _) fun outcome outcome' houtcome => .pure (houtcome.bind _)

/-- The calls of one tool went alike. -/
structure SameCalls (marks : Marks) (invoked invoked' : Invoked) : Prop where
  outcome : SameOutcome marks invoked.outcome invoked'.outcome
  retryErrors : invoked.retryErrors = invoked'.retryErrors
  attempts : invoked.attempts = invoked'.attempts

theorem settles_attempts {D : Invoked → Prop} {retryable : Exc → Bool}
    (hretryable : ∀ e e', e.Kin P.sync.marks e' → retryable e = retryable e') (retries : Nat) (errors : List String)
    (made : Nat) :
    P.Settles D (P.executor.attempts nested info tool inputs retryable retries errors made)
      (P.executor.attempts nested' info' tool inputs retryable retries errors made) (SameCalls P.sync.marks) := by
  induction retries generalizing errors made with
  | zero =>
    unfold attempts
    refine .bind (settles_runTool hn hwraps) fun outcome outcome' houtcome => ?_
    cases houtcome with
    | ok outputs => exact .pure ⟨.ok _, rfl, rfl⟩
    | error he => exact .pure ⟨.error he, by rw [he.message], rfl⟩
  | succ retries ih =>
    unfold attempts
    refine .bind (settles_runTool hn hwraps) fun outcome outcome' houtcome => ?_
    cases houtcome with
    | ok outputs => exact .pure ⟨.ok _, rfl, rfl⟩
    | @error e e' he =>
      dsimp only
      rw [hretryable e e' he, he.message]
      split
      · exact ih _ _
      · exact .pure ⟨.error he, rfl, rfl⟩

theorem settles_invokeTool {D : Invoked → Prop} (hP : P.Fair) (policy : Option RetryPolicy) :
    P.Settles D (P.executor.invokeTool nested info tool inputs policy)
      (P.executor.invokeTool nested' info' tool inputs policy) (SameCalls P.sync.marks) := by
  unfold invokeTool
  cases policy with
  | none => exact settles_attempts hn hwraps (fun _ _ _ => rfl) _ _ _
  | some policy =>
    dsimp only
    split
    · refine .bind (settles_runTool hn hwraps) fun outcome outcome' houtcome => ?_
      cases houtcome with
      | ok outputs => exact .pure ⟨.ok _, rfl, rfl⟩
      | error he => exact .pure ⟨.error he, by rw [he.message], rfl⟩
    · split
      · exact .pure ⟨.refl _, rfl, rfl⟩
      · next retryable hretryable => exact settles_attempts hn hwraps (hP.retried _ _ hretryable) _ _ _

end Calls

-- Dry runs and the error policy

theorem settles_runDry {D : Except Exc Dict → Prop} :
    P.Settles D (P.executor.runDry info tool inputs) (P.executor.runDry info' tool inputs) Eq := by
  unfold runDry
  split
  · exact .pure rfl
  · exact .bind_same (settles_perform (fun _ _ => id) rfl) fun reply => .pure rfl

theorem settles_dryRunStep {D : Option StepRecord → Prop} (h : SameSpot info info') :
    P.Settles D (P.executor.dryRunStep info toolName tool inputs record)
      (P.executor.dryRunStep info' toolName tool inputs record) Eq := by
  unfold dryRunStep
  rw [h.stepIndex]
  split
  · exact .pure rfl
  split
  · refine .bind_same settles_runDry fun outcome => ?_
    cases outcome <;> exact .pure rfl
  · refine .get_bind fun state state' hstate => ?_
    rw [hstate.dryRunUnsupported]
    split <;> exact .pure rfl

variable (tool toolName inputs record) in
theorem settles_dryDispatch {D : Option StepRecord → Prop} (h : SameSpot info info') :
    P.Settles D (P.executor.dryDispatch P.lane info toolName tool inputs record)
      (P.executor.dryDispatch P.lane' info' toolName tool inputs record) Eq := by
  unfold dryDispatch
  refine .get_bind fun state state' hstate => ?_
  cases hapart : P.apart with
  | true =>
    have hdry := hstate.wet hapart
    rw [← hstate.dryRun, hdry]
    simp only [Bool.and_false]
    exact .pure rfl
  | false =>
    rw [lane_eq hapart, hstate.dryRun]
    split
    · exact settles_dryRunStep h
    · exact .pure rfl

/-- The lanes differ in the remark only. -/
theorem remark_kept (fallbackUsed : Bool) (hused : fallbackUsed = true) (errors : List String) (text : String) :
    keptErrors P.marks fallbackUsed (errors ++ Lane.remark P.lane text) =
      keptErrors P.marks fallbackUsed (errors ++ Lane.remark P.lane' text) := by
  cases hapart : P.apart with
  | true => simp [keptErrors, marks, hapart, hused]
  | false => rw [lane_eq hapart]

theorem settles_runFallback (hn : Partners P nested nested' called)
    (hwraps : ∀ name tool, P.executor.getTool name = .ok tool → P.WrapsOnly called tool) (h : SameSpot info info')
    {fallbackName : String} (errors : List String) :
    P.Settles D (P.executor.runFallback P.lane nested info toolName fallbackName inputs record errors)
      (P.executor.runFallback P.lane' nested' info' toolName fallbackName inputs record errors)
      (StepRecord.Kin P.marks) := by
  unfold runFallback
  dsimp only
  cases htool : P.executor.getTool fallbackName with
  | error missing => exact .pure (.of_errors rfl (remark_kept _ rfl _ _))
  | ok tool =>
    refine .bind_same (settles_safetyGate h) fun gate => ?_
    obtain ⟨refusal, approval⟩ := gate
    cases refusal with
    | some e => exact .pure (.of_errors rfl (remark_kept _ rfl _ _))
    | none =>
      refine .bind_same (settles_dryDispatch _ _ _ _ h) fun dry => ?_
      cases dry with
      | some dryRecord => exact .pure (.refl _)
      | none =>
        refine .bind_same settles_probe fun _ => ?_
        refine .bind (settles_runTool hn (hwraps _ _ htool)) fun outcome outcome' houtcome => ?_
        cases houtcome with
        | ok outputs => exact .pure (.refl _)
        | error he =>
          dsimp only
          rw [he.message, h.stepIndex, he.wrap]
          exact .pure (.of_errors rfl (remark_kept _ rfl _ _))

variable (step toolName inputs record) in
theorem settles_applyOnError (hn : Partners P nested nested' called)
    (hwraps : ∀ name tool, P.executor.getTool name = .ok tool → P.WrapsOnly called tool) (h : SameSpot info info')
    (errors : List String) (wrapped : Exc) :
    P.Settles D (P.executor.applyOnError P.lane nested info step toolName inputs record errors wrapped)
      (P.executor.applyOnError P.lane' nested' info' step toolName inputs record errors wrapped)
      (StepRecord.Kin P.marks) := by
  unfold applyOnError
  split
  · exact .pure (.refl _)
  · exact .pure (.refl _)
  · exact settles_runFallback hn hwraps h _

-- Outputs and the cache

theorem settles_prepareStep {D : Except StepRecord (Tool × Dict) → Prop} (h : SameSpot info info') :
    P.Settles D (P.executor.prepareStep info step toolName context record)
      (P.executor.prepareStep info' step toolName context record)
      fun prepared prepared' => prepared = prepared' ∧
        ∀ tool inputs, prepared = .ok (tool, inputs) → P.executor.getTool toolName = .ok tool := by
  unfold prepareStep
  rw [h.stepIndex]
  cases htool : P.executor.getTool toolName with
  | error e => exact .pure ⟨rfl, fun _ _ h => by cases h⟩
  | ok tool =>
    dsimp only
    split
    · exact .pure ⟨rfl, fun _ _ h => by cases h⟩
    · refine .bind_same (settles_ofExcept rfl) fun violation => ?_
      split
      · exact .pure ⟨rfl, fun _ _ h => by cases h⟩
      · exact .pure ⟨rfl, fun _ _ h => by cases h; rfl⟩

/-- `step_cache.set`, where the step has a key. -/
def cacheStore (outputs : Dict) : Option StepCacheKey → Exec Unit
  | none => pure ()
  | some key => do ofExcept (← perform .cacheSet (key, outputs))

theorem settleOutputs_eq {key : Option StepCacheKey} {outputs : Dict} (executor : Executor) :
    executor.settleOutputs info step toolName key record outputs =
      (ofExcept (executor.checkStepContract toolName info.stepIndex outputs step.outputContract "step_output_contract") >>=
        fun violation => violation.elim (cacheStore outputs key >>= fun _ => pure (record.succeedWith outputs))
          fun e => pure (record.failWith e)) := by
  unfold settleOutputs cacheStore
  refine bind_congr fun violation => ?_
  cases violation with
  | some e => rfl
  | none => cases key <;> rfl

theorem yields_cacheStore (hcached : P.cached = true) (outputs : Dict) (key : Option StepCacheKey) :
    Interaction.Comp.Yields (P.executor.Steady P.answer P.cached) (cacheStore outputs key) fun _ => True := by
  intro F
  cases key with
  | none => exact .pure trivial
  | some key =>
    refine .ask_bind fun reply hreply => ?_
    obtain rfl : reply = .ok () := by simpa [Steady, Replies, hcached] using hreply
    exact .pure trivial

theorem settles_cacheStore {D : Unit → Prop} {key key' : Option StepCacheKey} (hkeys : P.cached = false → key = key')
    (outputs : Dict) : P.Settles D (cacheStore outputs key) (cacheStore outputs key') Eq := by
  cases hcached : P.cached with
  | true =>
    have hleft := yields_cacheStore hcached outputs key
    have hright := yields_cacheStore hcached outputs key'
    intro s s' events r t events' r' t' hs hrun hrun' hsteady hsteady'
    obtain ⟨⟨_, rfl, -⟩, rfl⟩ := hleft.run hrun hsteady
    obtain ⟨⟨_, rfl, -⟩, rfl⟩ := hright.run hrun' hsteady'
    exact .ok rfl hs
  | false =>
    obtain rfl := hkeys hcached
    cases key with
    | none => exact .pure rfl
    | some key =>
      exact .bind_same (settles_perform (fun _ _ h => by simpa [Replies, hcached, blind] using h) rfl) fun reply =>
        settles_ofExcept rfl

theorem settles_settleOutputs (h : SameSpot info info') {key key' : Option StepCacheKey} {record record' : StepRecord}
    (hkeys : P.cached = false → key = key') (hrecord : record.Kin P.marks record') (outputs : Dict) :
    P.Settles D (P.executor.settleOutputs info step toolName key record outputs)
      (P.executor.settleOutputs info' step toolName key' record' outputs) (StepRecord.Kin P.marks) := by
  rw [settleOutputs_eq, settleOutputs_eq, h.stepIndex]
  refine .bind_same (settles_ofExcept rfl) fun violation => ?_
  cases violation with
  | some e => exact .pure (hrecord.failWith e)
  | none => exact .bind_same (settles_cacheStore hkeys outputs) fun _ => .pure (hrecord.succeedWith outputs)

/-- What a look into a cache that may differ gives for a key. -/
def Hit (P : Duet) (key : Option StepCacheKey) (hit : Option Dict) : Prop :=
  ∀ outputs ∈ hit, ∃ found, key = some found ∧ P.executor.Genuine P.answer found outputs

theorem yields_cacheLookup (hcached : P.cached = true) (key : Option StepCacheKey) :
    Interaction.Comp.Yields (P.executor.Steady P.answer P.cached) (cacheLookup key) (P.Hit key) := by
  intro F
  cases key with
  | none => exact .pure fun _ h => absurd h (by simp)
  | some key =>
    refine .ask_bind fun reply hreply => ?_
    obtain ⟨hit, rfl, hgenuine⟩ : ∃ hit, reply = .ok hit ∧ ∀ outputs ∈ hit, P.executor.Genuine P.answer key outputs := by
      simpa [Steady, Replies, hcached] using hreply
    exact .pure fun outputs hmem => ⟨key, rfl, hgenuine outputs hmem⟩

theorem settles_cacheLookup {D : Option Dict → Prop} (hcached : P.cached = false) (key : Option StepCacheKey) :
    P.Settles D (cacheLookup key) (cacheLookup key) Eq := by
  cases key with
  | none => exact .pure rfl
  | some key =>
    exact .bind_same (settles_perform (fun _ _ h => by simpa [Replies, hcached, blind] using h) rfl) fun reply =>
      settles_ofExcept rfl

/-- The validated inputs that a key stands for. -/
def KeyOf (P : Duet) (tool : Tool) (inputs : Dict) (key : Option StepCacheKey) : Prop :=
  ∀ found, key = some found → tool.cacheable = true ∧ ∃ validated,
    P.executor.platform.modelValidate tool.inputSchema (.dict inputs.entries) = .ok validated ∧
      P.executor.Keyed found tool validated

variable (inputs) in
theorem cacheKey_keyed (hsafe : Shareable P.executor) (htool : P.executor.getTool toolName = .ok tool)
    {executor : Executor} (hplatform : executor.platform = P.executor.platform) (lane : Lane) (state : RunScopedState) :
    ∃ key, executor.cacheKey lane state tool inputs = .ok key ∧ P.KeyOf tool inputs key := by
  unfold cacheKey
  rw [hplatform]
  split
  next hon =>
    have hcacheable : tool.cacheable = true := by simp only [Bool.and_eq_true] at hon; exact hon.1.1.2
    cases hvalidate : P.executor.platform.modelValidate tool.inputSchema (.dict inputs.entries) with
    | error e =>
      have hvalid := hsafe.refused _ _ _ _ htool hcacheable hvalidate
      cases e <;> simp [Exc.isValidation] at hvalid
      exact ⟨none, rfl, fun _ h => by cases h⟩
    | ok validated =>
      obtain ⟨hash, hhash⟩ := hsafe.hashed _ _ _ _ htool hcacheable hvalidate
      dsimp only
      rw [hhash]
      refine ⟨some _, rfl, ?_⟩
      rintro _ ⟨⟩
      refine ⟨hcacheable, validated, hvalidate, ?_, rfl, hhash⟩
      change P.executor.getTool tool.name = _
      rw [hsafe.filed _ _ htool, htool]
  next => exact ⟨none, rfl, fun _ h => by cases h⟩

theorem cacheKey_same (hcached : P.cached = false) {state state' : RunScopedState} (hstate : P.Alike state state') :
    P.other.cacheKey P.lane' state' tool inputs = P.executor.cacheKey P.lane state tool inputs := by
  have hstep : P.other.hasStepCache = P.executor.hasStepCache := by simp [other, hcached]
  have hlane : (decide (P.lane' = .async) || !state'.dryRun) = (decide (P.lane = .async) || !state.dryRun) := by
    cases hapart : P.apart with
    | true => simp [← hstate.dryRun, hstate.wet hapart]
    | false => rw [lane_eq hapart, hstate.dryRun]
  unfold cacheKey
  rw [hstep, hlane, hstate.inReplay hcached]
  rfl

-- Behind the cache

/-- A tool whose outputs for some inputs are known gives them at its first call. -/
theorem yields_invokeTool {validated outputs : Dict}
    (hvalidate : P.executor.platform.modelValidate tool.inputSchema (.dict inputs.entries) = .ok validated)
    (hdirect : P.executor.directOutcome P.answer tool validated = .ok outputs) (hcached : P.cached = true)
    (hresolves : P.Resolves step) :
    Interaction.Comp.Yields (P.executor.Steady P.answer P.cached)
      (P.executor.invokeTool nested info tool inputs step.retry) (· = ⟨.ok outputs, [], 1⟩) := by
  have hrun : Interaction.Comp.Yields (P.executor.Steady P.answer P.cached)
      (P.executor.runTool nested info tool inputs) (· = .ok outputs) := by
    intro F
    unfold runTool
    rw [hvalidate]
    unfold callFn
    unfold directOutcome at hdirect
    refine .bind (Q := fun raw => raw.bind (P.executor.validateOutput tool) = .ok outputs) (.ask_bind fun _ _ => ?_)
      fun raw hraw => ?_
    · cases hfn : tool.fn with
      | callable =>
        rw [hfn] at hdirect
        exact .ask fun reply hreply => by rw [show reply = _ from hreply]; exact hdirect
      | flow => simp [hfn] at hdirect
      | stream =>
        rw [hfn] at hdirect
        exact .ask_bind fun reply hreply => .pure (by rw [show reply = _ from hreply]; exact hdirect)
    · exact .pure hraw
  have hattempts (retryable : Exc → Bool) (retries : Nat) : Interaction.Comp.Yields (P.executor.Steady P.answer P.cached)
      (P.executor.attempts nested info tool inputs retryable retries [] 0) (· = ⟨.ok outputs, [], 1⟩) := by
    intro F
    unfold attempts
    refine .bind (hrun F) ?_
    rintro _ rfl
    exact .pure rfl
  intro F
  unfold invokeTool
  cases hpolicy : step.retry with
  | none => exact hattempts _ _ F
  | some policy =>
    dsimp only
    split
    · refine .bind (hrun F) ?_
      rintro _ rfl
      exact .pure rfl
    · obtain ⟨retryable, hretryable⟩ := hresolves hcached policy hpolicy
      rw [hretryable]
      exact hattempts _ _ F

-- What the cache and the limit do not change

theorem other_attempts (retryable : Exc → Bool) (retries : Nat) :
    P.other.attempts nested info tool inputs retryable retries =
      P.executor.attempts nested info tool inputs retryable retries := by
  have hrun : P.other.runTool nested = P.executor.runTool nested := rfl
  induction retries with
  | zero =>
    funext errors made
    unfold attempts
    rw [hrun]
  | succ retries ih =>
    funext errors made
    unfold attempts
    simp only [hrun, ih]

theorem other_invokeTool : P.other.invokeTool = P.executor.invokeTool := by
  funext nested info tool inputs policy
  unfold invokeTool
  simp only [other_attempts]
  rfl

theorem other_applyOnError : P.other.applyOnError = P.executor.applyOnError := rfl

theorem other_platform : P.other.platform = P.executor.platform := rfl

theorem other_settleOutputs : P.other.settleOutputs = P.executor.settleOutputs := rfl

theorem other_consume (chunks : List ToolChunk) (ending : Option Exc) :
    P.other.consume info toolName tool ending chunks = P.executor.consume info toolName tool ending chunks := by
  induction chunks with
  | nil => rfl
  | cons chunk rest ih =>
    funext final
    unfold consume
    rw [ih]
    rfl

-- Tool steps

/-- A record that says nothing yet about calls. -/
def Uncalled (record : StepRecord) : Prop := record.retryCount = 0 ∧ record.retryErrors = []

theorem Uncalled.eq (h : Uncalled record) : { record with retryCount := 0, retryErrors := [] } = record := by
  obtain ⟨hcount, herrors⟩ := h
  cases record
  simp_all

/-- The part of a step behind a look into the cache that found its outputs. -/
def runHit (executor : Executor) (info : StepInfo) (step : FlowStep) (toolName : String) (record : StepRecord)
    (output : Dict) : Exec StepRecord :=
  executor.settleOutputs info step toolName none { record with cached := true } output >>= fun settled =>
    pure { settled with cached := settled.success }

/-- The part of a step behind one that did not. -/
def runMissed (executor : Executor) (lane : Lane) (nested : Nested) (info : StepInfo) (step : FlowStep) (toolName : String)
    (tool : Tool) (inputs : Dict) (record : StepRecord) (key : Option StepCacheKey) : Exec StepRecord := do
  let invoked ← executor.invokeTool nested info tool inputs step.retry
  let record := { record with retryCount := invoked.attempts - 1 }
  match invoked.outcome with
  | .error e =>
    executor.applyOnError lane nested info step toolName inputs record invoked.retryErrors
      (wrapToolException toolName info.stepIndex e)
  | .ok outputs =>
    executor.settleOutputs info step toolName key { record with retryErrors := invoked.retryErrors } outputs

theorem runCached_eq (executor : Executor) (lane : Lane) :
    executor.runCached lane nested info step toolName tool inputs record =
      (get >>= fun state => ofExcept (executor.cacheKey lane state tool inputs) >>= fun key =>
        cacheLookup key >>= fun hit =>
          hit.elim (runMissed executor lane nested info step toolName tool inputs record key)
            (runHit executor info step toolName record)) := by
  unfold runCached
  refine bind_congr fun state => bind_congr fun key => bind_congr fun hit => ?_
  cases hit <;> rfl

theorem runMissed_other (lane : Lane) (key : Option StepCacheKey) :
    runMissed P.other lane nested info step toolName tool inputs record key =
      runMissed P.executor lane nested info step toolName tool inputs record key := by
  simp only [runMissed, other_invokeTool, other_applyOnError, other_settleOutputs]

section Tools

variable (hP : P.Fair) (hn : Partners P nested nested' called)
  (hwraps : ∀ name tool, P.executor.getTool name = .ok tool → P.WrapsOnly called tool) (h : SameSpot info info')
  (htool : P.executor.getTool toolName = .ok tool)

include hP hn hwraps h htool in
theorem settles_missed {key key' : Option StepCacheKey} (hkeys : P.cached = false → key = key') :
    P.Settles D (runMissed P.executor P.lane nested info step toolName tool inputs record key)
      (runMissed P.executor P.lane' nested' info' step toolName tool inputs record key') (StepRecord.Kin P.marks) := by
  unfold runMissed
  refine .bind (settles_invokeTool hn (hwraps _ _ htool) hP _) ?_
  rintro ⟨outcome, errors, attempts⟩ ⟨outcome', _, _⟩ ⟨houtcome, rfl, rfl⟩
  dsimp only at houtcome ⊢
  cases houtcome with
  | ok outputs => exact settles_settleOutputs h hkeys (.refl _) outputs
  | error he =>
    dsimp only
    rw [h.stepIndex, he.wrap]
    exact settles_applyOnError _ _ _ _ hn hwraps h _ _

include h in
theorem settles_hit (output : Dict) :
    P.Settles D (runHit P.executor info step toolName record output) (runHit P.executor info' step toolName record output)
      (StepRecord.Kin P.marks) := by
  refine .bind (settles_settleOutputs h (fun _ => rfl) (.refl _) output) fun settled settled' hsettled => ?_
  exact .pure (hsettled.withCached fun _ => hsettled.success)

/-- What was found on one side, the call on the other side gives. -/
theorem Hit.invoked {key : Option StepCacheKey} {outputs : Dict} (hcached : P.cached = true) (hresolves : P.Resolves step)
    (hkey : P.KeyOf tool inputs key) (hhit : P.Hit key (some outputs)) :
    Interaction.Comp.Yields (P.executor.Steady P.answer P.cached)
      (P.executor.invokeTool nested info tool inputs step.retry) (· = ⟨.ok outputs, [], 1⟩) := by
  obtain ⟨found, hfound, hgenuine⟩ := hhit outputs rfl
  obtain ⟨-, validated, hvalidate, hkeyed⟩ := hkey found hfound
  exact yields_invokeTool hvalidate (hgenuine _ _ hkeyed) hcached hresolves

variable (inputs) in
include hP hn hwraps h htool in
theorem settles_runCached (hresolves : P.Resolves step) (hfresh : Uncalled record) :
    P.Settles D (P.executor.runCached P.lane nested info step toolName tool inputs record)
      (P.other.runCached P.lane' nested' info' step toolName tool inputs record) (StepRecord.Kin P.marks) := by
  rw [runCached_eq, runCached_eq]
  refine .get_bind fun state state' hstate => ?_
  simp only [runMissed_other]
  cases hcached : P.cached with
  | false =>
    rw [cacheKey_same hcached hstate]
    refine .bind_same (settles_ofExcept rfl) fun key => .bind_same (settles_cacheLookup hcached key) fun hit => ?_
    cases hit with
    | none => exact settles_missed hP hn hwraps h htool fun _ => rfl
    | some output => exact settles_hit h output
  | true =>
    have hsafe := hP.shareable hcached
    obtain ⟨key, hkey, hkeyOf⟩ := cacheKey_keyed inputs hsafe htool (rfl : P.executor.platform = _) P.lane state
    obtain ⟨key', hkey', hkeyOf'⟩ := cacheKey_keyed inputs hsafe htool (rfl : P.other.platform = _) P.lane' state'
    simp only [hkey, hkey', ofExcept]
    refine .pure_left (.pure_right ?_)
    refine .yields_left (yields_cacheLookup hcached key) fun hit hhit => ?_
    refine .yields_right (yields_cacheLookup hcached key') fun hit' hhit' => ?_
    have hfree {key key' : Option StepCacheKey} : P.cached = false → key = key' := fun h => absurd h (by simp [hcached])
    have hsame : { record with retryCount := 0, retryErrors := [] } = record := hfresh.eq
    have hmark : P.marks.cached = true := hcached
    have hcall (output : Dict) : P.Settles Never
        (P.executor.settleOutputs info step toolName none { record with cached := true } output)
        (P.executor.settleOutputs info' step toolName key' record output) (StepRecord.Kin P.marks) :=
      settles_settleOutputs h hfree (StepRecord.Kin.without_cached hmark record true) output
    have hcall' (output : Dict) : P.Settles D (P.executor.settleOutputs info step toolName key record output)
        (P.executor.settleOutputs info' step toolName none { record with cached := true } output)
        (StepRecord.Kin P.marks) :=
      settles_settleOutputs h hfree (StepRecord.Kin.without_cached hmark record true).symm output
    cases hit with
    | none =>
      cases hit' with
      | none => exact settles_missed hP hn hwraps h htool hfree
      | some output =>
        refine .yields_left (hhit'.invoked hcached hresolves hkeyOf') ?_
        rintro _ rfl
        change P.Settles D (P.executor.settleOutputs info step toolName key
          { record with retryCount := 0, retryErrors := [] } output) _ _
        rw [hsame]
        exact .map_right (hcall' output) fun settled settled' hkin =>
          hkin.trans (StepRecord.Kin.without_cached hmark settled' _).symm
    | some output =>
      cases hit' with
      | none =>
        refine .yields_right (hhit.invoked hcached hresolves hkeyOf) ?_
        rintro _ rfl
        change P.Settles D _ (P.executor.settleOutputs info' step toolName key'
          { record with retryCount := 0, retryErrors := [] } output) _
        rw [hsame]
        exact .map_left (hcall output) fun settled settled' hkin =>
          (StepRecord.Kin.without_cached hmark settled _).trans hkin
      | some output' =>
        obtain ⟨found, hfound, hgenuine⟩ := hhit output rfl
        obtain ⟨found', hfound', hgenuine'⟩ := hhit' output' rfl
        obtain ⟨-, validated, hvalidate, hkeyed⟩ := hkeyOf found hfound
        obtain ⟨-, validated', hvalidate', hkeyed'⟩ := hkeyOf' found' hfound'
        obtain rfl := Except.ok.inj (hvalidate.symm.trans hvalidate')
        obtain rfl := Except.ok.inj ((hgenuine _ _ hkeyed).symm.trans (hgenuine' _ _ hkeyed'))
        exact settles_hit h output

theorem settles_consume {D : Except Exc Dict → Prop} {name : String} (chunks : List ToolChunk) (ending : Option Exc)
    (final : Option Dict) :
    P.Settles D (P.executor.consume info name tool ending chunks final)
      (P.executor.consume info' name tool ending chunks final) Eq := by
  induction chunks generalizing final with
  | nil => cases ending <;> cases final <;> exact .pure rfl
  | cons chunk rest ih =>
    unfold consume
    split
    · exact .pure rfl
    split
    · split
      · exact .pure rfl
      · exact .bind_same settles_fire fun _ => ih _
    · exact .bind_same settles_fire fun _ => ih _

include hP hn hwraps h htool

omit hP htool in
theorem settles_runStreamingStep (hlane : P.lane = .async) (hlane' : P.lane' = .async) :
    P.Settles D (P.executor.runStreamingStep nested info step toolName tool inputs record)
      (P.other.runStreamingStep nested' info' step toolName tool inputs record) (StepRecord.Kin P.marks) := by
  have hrun {D : Except Exc Dict → Prop} : P.Settles D (P.executor.runStreaming info toolName tool inputs)
      (P.other.runStreaming info' toolName tool inputs) Eq := by
    unfold runStreaming
    simp only [other_consume]
    rw [other_platform]
    split
    · exact .pure rfl
    · refine .bind_same settles_probe fun _ => .bind_same (settles_perform (fun _ _ => id) rfl) fun reply => ?_
      exact settles_consume _ _ _
  unfold runStreamingStep
  refine .bind_same hrun fun outcome => ?_
  cases outcome with
  | error e =>
    have hfail := settles_applyOnError (D := D) step toolName inputs record hn hwraps h []
      (wrapToolException toolName info'.stepIndex e)
    rw [hlane, hlane'] at hfail
    dsimp only
    rw [h.stepIndex]
    exact hfail
  | ok outputs => exact settles_settleOutputs h (fun _ => rfl) (.refl _) outputs

theorem settles_dispatchTool (hresolves : P.Resolves step) (hfresh : Uncalled record) :
    P.Settles D (P.executor.dispatchTool P.lane nested info step toolName tool inputs record)
      (P.other.dispatchTool P.lane' nested' info' step toolName tool inputs record) (StepRecord.Kin P.marks) := by
  have hrest : P.Settles D _ _ _ := settles_runCached inputs hP hn hwraps h htool hresolves hfresh
  have hdry : P.Settles Never _ _ _ :=
    settles_dryDispatch tool toolName inputs record h
  unfold dispatchTool
  cases hlanes : P.lanes with
  | both lane =>
    rw [lane_both hlanes, lane'_both hlanes] at hrest hdry ⊢
    cases lane with
    | sync =>
      refine .bind_same hdry fun dry => ?_
      cases dry with
      | some dryRecord => exact .pure (.refl _)
      | none => exact hrest
    | async =>
      dsimp only
      split
      · exact settles_runStreamingStep hn hwraps h (lane_both hlanes) (lane'_both hlanes)
      · exact hrest
  | across =>
    have hapart : P.apart = true := by simp [apart, hlanes]
    rw [lane_sync hapart, lane'_async hapart] at hrest ⊢
    dsimp only
    rw [if_neg (by simp [hP.whole hapart _ _ htool])]
    refine .bind_left (V := fun dry _ => dry = none) ?_ ?_
    · refine .get_left fun state state' hstate => ?_
      rw [if_neg (by simp [hstate.wet hapart])]
      exact .pure rfl
    · rintro _ rfl
      exact hrest

theorem settles_runToolStep (hresolves : P.Resolves step) (hfresh : Uncalled record) :
    P.Settles D (P.executor.runToolStep P.lane nested info step toolName tool inputs record)
      (P.other.runToolStep P.lane' nested' info' step toolName tool inputs record) (StepRecord.Kin P.marks) := by
  unfold runToolStep
  refine .bind_same (settles_safetyGate h) fun gate => ?_
  obtain ⟨refusal, approval⟩ := gate
  cases refusal with
  | some e => exact .pure (.refl _)
  | none =>
    refine .bind_same (settles_inputGuardrail h) fun violation => ?_
    cases violation with
    | some e => exact .pure (.refl _)
    | none => exact settles_dispatchTool hP hn hwraps h htool hresolves hfresh

variable (step context) in
omit htool in
theorem settles_executeToolStep (hresolves : P.Resolves step) (decision : Option DecisionRecord) :
    P.Settles D (P.executor.executeToolStep P.lane nested info step decision context)
      (P.other.executeToolStep P.lane' nested' info' step decision context) (StepRecord.Kin P.marks) := by
  unfold executeToolStep
  refine .bind_same (settles_displayName rfl) fun toolName => ?_
  dsimp only
  rw [h.stepIndex]
  refine .bind (settles_prepareStep h) ?_
  rintro prepared _ ⟨rfl, htool⟩
  cases prepared with
  | error record => exact .bind_same settles_fire fun _ => .pure (.refl _)
  | ok found =>
    obtain ⟨tool, inputs⟩ := found
    refine .bind_same settles_fire fun _ => .bind (settles_runToolStep hP hn hwraps h (htool _ _ rfl) hresolves ⟨rfl, rfl⟩) ?_
    intro record record' hrecord
    exact .bind_same settles_fire fun _ => .pure hrecord

end Tools

-- Decisions, sub-flows and steps in general

/-- A decision chooses the tool only. -/
theorem chooseTool_retry {policy : DecisionPolicy} {candidates : List String} {hc : step.decisionCandidates = some candidates}
    {defaultName : String} {answer : Option (Except Exc String)} {chosen : FlowStep × Option DecisionRecord}
    (h : chooseTool info policy step hc defaultName answer = .ok chosen) : chosen.1.retry = step.retry := by
  unfold chooseTool at h
  split at h
  · split at h
    · cases h
    · cases h
      rfl
  · cases h
  · split at h
    · dsimp only at h
      split at h <;> cases h <;> rfl
    · cases h

/-- Both sides go on with one step, retried like the given one. -/
abbrev SameChoice (step : FlowStep) (resolved resolved' : Except StepRecord (FlowStep × Option DecisionRecord)) : Prop :=
  resolved = resolved' ∧ ∀ chosen, resolved = .ok chosen → chosen.1.retry = step.retry

theorem settles_resolveDecision {D : Except StepRecord (FlowStep × Option DecisionRecord) → Prop}
    (h : SameSpot info info') :
    P.Settles D (P.executor.resolveDecision info step context) (P.executor.resolveDecision info' step context)
      (SameChoice step) := by
  have hsame (decision : Option DecisionRecord) : SameChoice step (.ok (step, decision)) (.ok (step, decision)) :=
    ⟨rfl, fun _ h => by cases h; rfl⟩
  obtain ⟨traceId, flowName, stepIndex, stepId⟩ := info
  obtain ⟨traceId', _, _, stepId'⟩ := info'
  obtain ⟨rfl, rfl⟩ := h
  unfold resolveDecision
  split
  · exact .pure (hsame none)
  split
  · exact .pure (hsame none)
  next candidates hc _ =>
    refine .bind_same (settles_displayName rfl) fun defaultName => ?_
    have hspend : P.Settles Never (P.executor.spendDecision ⟨traceId, flowName, stepIndex, stepId⟩)
        (P.executor.spendDecision ⟨traceId', flowName, stepIndex, stepId'⟩) Eq := by
      unfold spendDecision
      refine .modify_bind (fun s s' hs => { hs with decisionCount := by simp [hs.decisionCount] }) ?_
      refine .get_bind fun state state' hstate => ?_
      rw [hstate.decisionCount]
      split
      · exact .pure rfl
      · dsimp only
        split
        · exact settles_raise (errors_same _)
        · exact .pure rfl
    refine .bind_same hspend fun _ => .bind_same ?_ fun answer => ?_
    · unfold askDecision
      split
      · exact @settles_perform P .decideTimed _ _ _ (fun _ _ => id) rfl
      · exact .bind_same (@settles_perform P .decide _ _ _ (fun _ _ => id) rfl) fun _ => .pure rfl
    -- The choice does not look at the ids.
    have hids (policy : DecisionPolicy) : chooseTool ⟨traceId', flowName, stepIndex, stepId'⟩ policy step hc =
        chooseTool ⟨traceId, flowName, stepIndex, stepId⟩ policy step hc := rfl
    dsimp only
    rw [hids]
    cases hchosen : chooseTool ⟨traceId, flowName, stepIndex, stepId⟩ (P.executor.decisionPolicy.getD {}) step hc defaultName
        answer with
    | error e =>
      refine .bind_same (.bind_same settles_fire fun _ => .pure rfl) fun record => ?_
      exact .pure ⟨rfl, fun _ h => by cases h⟩
    | ok resolved => exact .pure ⟨rfl, fun _ h => by cases h; exact chooseTool_retry hchosen⟩

/-- A failed record makes up for a call that raises in the other lane. -/
abbrev Failed (P : Duet) (record : StepRecord) : Prop := P.apart = true ∧ record.success = false

theorem subflowRecord_kin {marks : Marks} {subName : String} {subInput : Dict} {result result' : ExecutionResult}
    (h : SameSpot info info') (hresult : result.Kin marks result') :
    (subflowRecord info subName subInput result).Kin marks (subflowRecord info' subName subInput result') := by
  have hsub : subWithout marks (some result) = subWithout marks (some result') := congrArg some hresult
  simp only [StepRecord.Kin, StepRecord.without_eq, subflowRecord, h.stepIndex, hresult.success, hresult.finalOutput, hsub]

theorem settles_executeSubflowStep (hn : Partners P nested nested' called) (h : SameSpot info info') {subName : String}
    (hcalled : called subName) {cancellation : Cancellation} :
    P.Settles P.Failed (executeSubflowStep P.lane nested info step subName context cancellation)
      (executeSubflowStep P.lane' nested' info' step subName context cancellation) (StepRecord.Kin P.marks) := by
  unfold executeSubflowStep
  refine .bind_same settles_probe fun _ => ?_
  dsimp only
  rw [h.stepIndex]
  split
  · exact .pure (.refl _)
  · next subInput _ =>
    refine .bind_same settles_fire fun _ => .get_bind fun state state' hstate => ?_
    rw [hstate.activeFlowVersion]
    have hmodify (s s' : RunScopedState) (hs : P.accord.state s s') : P.accord.state
        { s with activeFlowVersion := state'.activeFlowVersion } { s' with activeFlowVersion := state'.activeFlowVersion } :=
      { hs with activeFlowVersion := rfl }
    refine .attempt_missed (settles_nestedCall (hn.entry subName hcalled subInput cancellation)) ?_ ?_ ?_ ?_
    · intro result result' hresult
      refine .modify_bind hmodify (.pure_left (.pure_right (.bind_same settles_fire fun _ => .pure ?_)))
      exact subflowRecord_kin h hresult
    · intro e e' he
      exact .modify_bind hmodify (.bind (V := fun _ _ => False) (.throw he) fun _ _ => False.elim)
    · intro result hresult
      refine .modify_bind (fun _ _ => trivial) (.bind (Q := (· = result)) (.pure rfl) ?_)
      rintro _ rfl
      exact .ask_bind fun _ _ => .pure ⟨hresult.1, hresult.2⟩
    · intro _ _ e'
      exact .modify_bind (fun _ _ => trivial) (.bind (Q := fun _ => False) (.throw trivial) fun _ => False.elim)

variable (step context) in
theorem settles_executeStepIn (hP : P.Fair) (hn : Partners P nested nested' called)
    (hwraps : ∀ name tool, P.executor.getTool name = .ok tool → P.WrapsOnly called tool) (h : SameSpot info info')
    (hresolves : P.Resolves step) (hdecision : P.apart = true → step.decisionCandidates = none)
    (hcalled : ∀ sub, step.target = .flow sub → called sub) (cancellation : Cancellation) :
    P.Settles P.Failed (P.executor.executeStepIn P.lane nested info step context cancellation)
      (P.other.executeStepIn P.lane' nested' info' step context cancellation) (StepRecord.Kin P.marks) := by
  have htool {decision : Option DecisionRecord} (chosen : FlowStep) (hchosen : chosen.retry = step.retry) :
      P.Settles P.Failed _ _ _ :=
    settles_executeToolStep chosen context hP hn hwraps h
      (fun hcached policy hpolicy => hresolves hcached policy (hchosen.symm.trans hpolicy)) decision
  unfold executeStepIn
  cases htarget : step.target with
  | flow subName => exact settles_executeSubflowStep hn h (hcalled subName htarget)
  | tool name =>
    dsimp only
    cases hlanes : P.lanes with
    | both lane =>
      rw [lane_both hlanes, lane'_both hlanes] at htool ⊢
      cases lane with
      | sync =>
        refine .bind (settles_resolveDecision h) ?_
        rintro resolved _ ⟨rfl, hchosen⟩
        cases resolved with
        | error record => exact .pure (.refl _)
        | ok chosen => exact htool _ (hchosen _ rfl)
      | async => exact htool _ rfl
    | across =>
      have hapart : P.apart = true := by simp [apart, hlanes]
      rw [lane_sync hapart, lane'_async hapart] at htool ⊢
      dsimp only
      refine .bind_left (V := fun resolved _ => resolved = .ok (step, none)) ?_ ?_
      · unfold resolveDecision
        split
        · exact .pure rfl
        · next candidates hc => rw [hdecision hapart] at hc; cases hc
      · rintro _ rfl
        exact htool _ rfl

end ChainWeaver.Duet
