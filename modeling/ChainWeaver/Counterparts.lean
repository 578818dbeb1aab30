import ChainWeaver.Budget
import ChainWeaver.Data.JsonPointer
import ChainWeaver.Interaction.Related
import ChainWeaver.Plan
import ChainWeaver.Twin

/-!
# A step in another context

A step that reads the same values from another context does the same there, as long as it
gets the same answers: it calls the same tools with the same validated inputs and ends with
the same outputs. Its place in the flow may be another, too.
-/

namespace ChainWeaver

open Interaction (Concur AnsweredAlike Comparison Likeness)

-- Contexts that agree

/-- The same values, but for the given keys. -/
def AgreeOff (keys : String → Prop) (context context' : Dict) : Prop :=
  ∀ key, ¬keys key → context'.get? key = context.get? key

/-- The context key a source is looked up under. -/
def sourceKey (source : String) : String :=
  if Pointer.isPointer source then Pointer.rootToken source else source

section

variable {keys : String → Prop} {context context' : Dict}

theorem resolvePointer_agree {source : String} (hpointer : Pointer.isPointer source = true)
    (h : context'.get? (Pointer.rootToken source) = context.get? (Pointer.rootToken source)) :
    Pointer.resolvePointer (.dict context'.entries) source = Pointer.resolvePointer (.dict context.entries) source := by
  obtain ⟨text, htext⟩ : ∃ text, source.toList = '/' :: text := by
    cases hlist : source.toList with
    | nil => simp [Pointer.isPointer, hlist] at hpointer
    | cons c text => exact ⟨text, by simpa [Pointer.isPointer, hlist] using hpointer⟩
  obtain ⟨rest, hrest⟩ := JsonPointer.splitOn_head text
  have hroot : Pointer.rootToken source = String.ofList (Pointer.unescape (text.takeWhile (· ≠ '/'))) := by
    simp [Pointer.rootToken, htext]
  have hlookup : context'.entries.lookup (Pointer.rootToken source) =
      context.entries.lookup (Pointer.rootToken source) := h
  rw [hroot] at hlookup
  unfold Pointer.resolvePointer Pointer.parsePointer
  rw [htext]
  simp only [hrest, List.map_cons, Pointer.follow, hlookup, bind, Except.bind]

theorem resolveSource_agree {source : Value} (h : AgreeOff keys context context')
    (hsource : ∀ text, source = .str text → ¬keys (sourceKey text)) :
    Concur Eq (fun _ _ => True) (resolveSource context label stepIndex source)
      (resolveSource context' label stepIndex' source) := by
  cases source with
  | str text =>
    have hkey := h _ (hsource text rfl)
    unfold sourceKey at hkey
    simp only [resolveSource]
    by_cases hpointer : Pointer.isPointer text = true
    · rw [if_pos hpointer] at hkey ⊢
      rw [if_pos hpointer, resolvePointer_agree hpointer hkey]
      cases Pointer.resolvePointer (.dict context.entries) text with
      | ok value => exact .ok rfl
      | error e => exact .error trivial
    · rw [if_neg hpointer] at hkey ⊢
      rw [if_neg hpointer, hkey]
      cases context.get? text with
      | some value => exact .ok rfl
      | none => exact .error trivial
  | _ => exact .ok rfl

theorem resolveAll_agree {pairs : List (String × Value)} (h : AgreeOff keys context context') (resolved : Dict)
    (hpairs : ∀ pair ∈ pairs, ∀ text, pair.2 = .str text → ¬keys (sourceKey text)) :
    Concur Eq (fun _ _ => True) (resolveAll context label stepIndex pairs resolved)
      (resolveAll context' label stepIndex' pairs resolved) := by
  induction pairs generalizing resolved with
  | nil => exact .ok rfl
  | cons pair rest ih =>
    obtain ⟨key, source⟩ := pair
    have hfirst : Concur Eq (fun _ _ => True) (resolveSource context label stepIndex source)
        (resolveSource context' label stepIndex' source) :=
      resolveSource_agree h (hpairs _ List.mem_cons_self)
    have hrest := fun resolved => ih resolved fun pair hmem => hpairs pair (List.mem_cons_of_mem _ hmem)
    unfold resolveAll
    revert hfirst
    generalize resolveSource context label stepIndex source = value
    generalize resolveSource context' label stepIndex' source = value'
    rintro (rfl | _)
    · exact hrest _
    · exact .error trivial

end

-- What is compared

/-- Questions that are alike: tools are called with the same validated inputs, and the
approver, the guardrail and the decider are asked about the same tools. What they are shown
of the context is left open, as is what middleware and the checkpointer are told. -/
def alike : Likeness Effects
  | .hook, _, _ => True
  | .probe, _, _ => True
  | .save, _, _ => True
  | .callTool, call, call' => call'.tool = call.tool ∧ call'.validated = call.validated
  | .runDry, call, call' => call'.tool = call.tool ∧ call'.validated = call.validated
  | .stream, call, call' => call'.tool = call.tool ∧ call'.validated = call.validated
  | .decide, ctx, ctx' => ctx'.defaultToolName = ctx.defaultToolName ∧ ctx'.candidates = ctx.candidates
  | .decideTimed, ctx, ctx' => ctx'.defaultToolName = ctx.defaultToolName ∧ ctx'.candidates = ctx.candidates
  | .approve, ctx, ctx' => ctx'.toolName = ctx.toolName ∧ ctx'.safety = ctx.safety
  | .check, ctx, ctx' => ctx'.toolName = ctx.toolName
  | .newTraceId, _, _ => True
  | .kernelInvoke, call, call' => call' = call
  | .cacheGet, key, key' => key' = key
  | .cacheSet, entry, entry' => entry' = entry
  | .load, traceId, traceId' => traceId' = traceId
  | .delete, traceId, traceId' => traceId' = traceId
  | .clock, _, _ => True
  | .isCancelled, _, _ => True
  | .schedule, _, _ => True

theorem alike_refl (kind : EffectKind) (query : kind.Query) : alike kind query query := by
  cases kind <;> simp [alike]

namespace Executor

variable (executor : Executor)

/-- The states differ in the number of decisions at most, and that only where it is not
limited. -/
structure Unlimited (state state' : RunScopedState) : Prop where
  same : state' = { state with decisionCount := state'.decisionCount }
  limited : executor.budgetOf.isSome = true → state' = state

theorem Unlimited.refl (state : RunScopedState) : executor.Unlimited state state := ⟨rfl, fun _ => rfl⟩

abbrev comparison : Comparison Effects RunScopedState where
  like := alike
  state := executor.Unlimited

/-- The same outcome, up to the text of a validation error. -/
inductive Judged : Except Exc Dict → Except Exc Dict → Prop
  | same (outcome : Except Exc Dict) : Judged outcome outcome
  | invalid : Judged (.error (.validation message)) (.error (.validation message'))

/-- Validation sees the same in both. -/
def ValidatesAlike (schema : Schema) (inputs inputs' : Dict) : Prop :=
  Judged (executor.platform.modelValidate schema (.dict inputs.entries))
    (executor.platform.modelValidate schema (.dict inputs'.entries))

/-- The tool of this name, if there is one, gets the same declared inputs. -/
def FedAlike (toolName : String) (inputs inputs' : Dict) : Prop :=
  ∀ tool, executor.getTool toolName = .ok tool → executor.ValidatesAlike tool.inputSchema inputs inputs'

/-- Records of the same tool with the same declared inputs. -/
structure Akin (record record' : StepRecord) : Prop where
  toolName : record'.toolName = record.toolName
  inputs : executor.FedAlike record.toolName record.inputs record'.inputs

/-- Records of steps that went the same way. -/
structure Counterpart (record record' : StepRecord) : Prop extends executor.Akin record record' where
  outputs : record'.outputs = record.outputs
  success : record'.success = record.success

variable {executor}

theorem FedAlike.refl (toolName : String) (inputs : Dict) : executor.FedAlike toolName inputs inputs :=
  fun _ _ => .same _

variable {record record' : StepRecord}

theorem Akin.failWith (h : executor.Akin record record') (e e' : Exc) :
    executor.Counterpart (record.failWith e) (record'.failWith e') :=
  ⟨⟨h.toolName, h.inputs⟩, rfl, rfl⟩

theorem Akin.succeedWith (h : executor.Akin record record') (outputs : Dict) :
    executor.Counterpart (record.succeedWith outputs) (record'.succeedWith outputs) :=
  ⟨⟨h.toolName, h.inputs⟩, rfl, rfl⟩

/-- The computations do the same, up to the errors they raise. -/
abbrev Follows (executor : Executor) (c : Exec α) (c' : Exec β) (V : α → β → Prop) : Prop :=
  executor.comparison.Related c c' V fun _ _ => True

-- The primitives

section

variable {E : Exc → Exc → Prop} {V : α → β → Prop}

theorem related_perform {kind : EffectKind} {query query' : kind.Query} (h : alike kind query query') :
    executor.comparison.Related (perform kind query) (perform kind query') Eq E :=
  .ask h

theorem related_fire {hook hook' : Hook} : executor.comparison.Related (fire hook) (fire hook') Eq E :=
  .ask trivial

theorem related_probe {mark mark' : Probe} : executor.comparison.Related (probe mark) (probe mark') Eq E :=
  .ask trivial

theorem follows_raise {e e' : Exc} : executor.Follows (raise e : Exec α) (raise e' : Exec β) V :=
  .bind_same related_probe fun _ => .throw trivial

theorem follows_ofExcept {x : Except Exc α} {x' : Except Exc β} (h : Concur V (fun _ _ => True) x x') :
    executor.Follows (ofExcept x) (ofExcept x') V := by
  cases h with
  | ok hv => exact .pure hv
  | error => exact follows_raise

theorem follows_ofExcept_same (x : Except Exc α) : executor.Follows (ofExcept x) (ofExcept x) Eq :=
  follows_ofExcept (.refl (fun _ => rfl) (fun _ => trivial) x)

theorem related_rethrow {x : Except Exc α} {x' : Except Exc β} (h : Concur V E x x') :
    executor.comparison.Related (rethrow x) (rethrow x') V E := by
  cases h with
  | ok hv => exact .pure hv
  | error he => exact .throw he

theorem follows_displayName {step : FlowStep} :
    executor.Follows (displayName step) (displayName step) fun name name' =>
      name = name' ∧ step.displayName? = some name := by
  unfold displayName
  split
  · next hname => exact .pure ⟨rfl, hname⟩
  · exact follows_raise

theorem related_nestedCall {origin origin' : NestedOrigin} {body body' : Exec α}
    (h : executor.comparison.Related body body' Eq Eq) :
    executor.comparison.Related (nestedCall origin input body) (nestedCall origin' input body') Eq Eq :=
  .bind_same related_probe fun _ => .bind_same (.attempt_same h) fun _ => .bind_same related_probe fun _ =>
    related_rethrow (.refl (fun _ => rfl) (fun _ => rfl) _)

end

-- Running a tool

/-- The entry points a step can call back into do not look at the decisions made. -/
def Recurs (executor : Executor) (nested : Nested) : Prop :=
  ∀ lane flowName input cancellation, executor.comparison.Related
    (nested.entry lane flowName input cancellation) (nested.entry lane flowName input cancellation) Eq Eq

variable {nested : Nested} {info info' : StepInfo} {tool : Tool} {inputs inputs' : Dict}

theorem follows_callFn (hn : executor.Recurs nested) :
    executor.Follows (callFn nested info tool inputs validated) (callFn nested info' tool inputs' validated) Eq := by
  unfold callFn
  refine .bind_same related_probe fun _ => ?_
  split
  · exact related_perform ⟨rfl, rfl⟩
  · exact .bind_same (.attempt_same (related_nestedCall (hn .sync _ _ _))) fun _ => .pure rfl
  · exact .bind_same (related_perform ⟨rfl, rfl⟩) fun _ => .pure rfl

theorem follows_runTool_same (hn : executor.Recurs nested)
    (h : executor.platform.modelValidate tool.inputSchema (.dict inputs'.entries) =
      executor.platform.modelValidate tool.inputSchema (.dict inputs.entries)) :
    executor.Follows (executor.runTool nested info tool inputs) (executor.runTool nested info' tool inputs') Eq := by
  unfold runTool
  rw [h]
  split
  · exact .pure rfl
  · exact .bind_same (follows_callFn hn) fun _ => .pure rfl

theorem follows_runTool (hn : executor.Recurs nested) (h : executor.ValidatesAlike tool.inputSchema inputs inputs') :
    executor.Follows (executor.runTool nested info tool inputs) (executor.runTool nested info' tool inputs')
      Judged := by
  unfold ValidatesAlike at h
  generalize hleft : executor.platform.modelValidate tool.inputSchema (.dict inputs.entries) = outcome at h
  generalize hright : executor.platform.modelValidate tool.inputSchema (.dict inputs'.entries) = outcome' at h
  cases h with
  | same =>
    refine (follows_runTool_same hn (hright.trans hleft.symm)).post ?_
    rintro outcome _ rfl
    exact .same _
  | invalid =>
    unfold runTool
    rw [hleft, hright]
    exact .pure .invalid

theorem follows_runDry (h : executor.ValidatesAlike tool.inputSchema inputs inputs') :
    executor.Follows (executor.runDry info tool inputs) (executor.runDry info' tool inputs') Judged := by
  unfold ValidatesAlike at h
  generalize hleft : executor.platform.modelValidate tool.inputSchema (.dict inputs.entries) = outcome at h
  generalize hright : executor.platform.modelValidate tool.inputSchema (.dict inputs'.entries) = outcome' at h
  unfold runDry
  rw [hleft, hright]
  cases h with
  | same =>
    cases outcome with
    | error e => exact .pure (.same _)
    | ok validated => exact .bind_same (related_perform ⟨rfl, rfl⟩) fun _ => .pure (.same _)
  | invalid => exact .pure .invalid

/-- Inputs that do not validate are not retried with any question. -/
theorem attempts_refused
    (h : executor.platform.modelValidate tool.inputSchema (.dict inputs.entries) = .error e)
    (retries : Nat) (retryErrors : List String) (made : Nat) :
    ∃ errors count, executor.attempts nested info tool inputs retryable retries retryErrors made =
      pure ⟨.error e, errors, count⟩ := by
  have hrun : executor.runTool nested info tool inputs = pure (.error e) := by
    unfold runTool
    rw [h]
  induction retries generalizing retryErrors made with
  | zero =>
    unfold attempts
    rw [hrun]
    exact ⟨_, _, rfl⟩
  | succ retries ih =>
    unfold attempts
    rw [hrun]
    by_cases hretry : retryable e = true
    · obtain ⟨errors, count, heq⟩ := ih (retryErrors ++ [e.message]) (made + 1)
      refine ⟨errors, count, ?_⟩
      change (if retryable e = true then _ else _) = _
      rw [if_pos hretry, heq]
    · refine ⟨retryErrors ++ [e.message], made + 1, ?_⟩
      change (if retryable e = true then _ else _) = _
      rw [if_neg hretry]

/-- The same outputs, or an error both times. -/
abbrev EqualOutputs (outcome outcome' : Except Exc Dict) : Prop := Concur Eq (fun _ _ => True) outcome outcome'

theorem Judged.equalOutputs {outcome outcome' : Except Exc Dict} (h : Judged outcome outcome') :
    EqualOutputs outcome outcome' := by
  cases h with
  | same => exact .refl (fun _ => rfl) (fun _ => trivial) _
  | invalid => exact .error trivial

theorem follows_attempts_same (hn : executor.Recurs nested)
    (h : executor.platform.modelValidate tool.inputSchema (.dict inputs'.entries) =
      executor.platform.modelValidate tool.inputSchema (.dict inputs.entries))
    (retries : Nat) (retryErrors : List String) (made : Nat) :
    executor.Follows (executor.attempts nested info tool inputs retryable retries retryErrors made)
      (executor.attempts nested info' tool inputs' retryable retries retryErrors made) Eq := by
  induction retries generalizing retryErrors made with
  | zero =>
    unfold attempts
    refine .bind_same (follows_runTool_same hn h) fun outcome => ?_
    cases outcome <;> exact .pure rfl
  | succ retries ih =>
    unfold attempts
    refine .bind_same (follows_runTool_same hn h) fun outcome => ?_
    cases outcome with
    | ok outputs => exact .pure rfl
    | error e =>
      dsimp only
      split
      · exact ih _ _
      · exact .pure rfl

theorem follows_attempts (hn : executor.Recurs nested) (h : executor.ValidatesAlike tool.inputSchema inputs inputs')
    (retries : Nat) :
    executor.Follows (executor.attempts nested info tool inputs retryable retries retryErrors made)
      (executor.attempts nested info' tool inputs' retryable retries retryErrors made)
      fun invoked invoked' => EqualOutputs invoked.outcome invoked'.outcome := by
  unfold ValidatesAlike at h
  generalize hleft : executor.platform.modelValidate tool.inputSchema (.dict inputs.entries) = outcome at h
  generalize hright : executor.platform.modelValidate tool.inputSchema (.dict inputs'.entries) = outcome' at h
  cases h with
  | same =>
    refine (follows_attempts_same hn (hright.trans hleft.symm) _ _ _).post ?_
    rintro invoked _ rfl
    exact .refl (fun _ => rfl) (fun _ => trivial) _
  | invalid =>
    obtain ⟨errors, count, heq⟩ : ∃ errors count,
        executor.attempts nested info tool inputs retryable retries retryErrors made = pure ⟨_, errors, count⟩ :=
      attempts_refused hleft _ _ _
    obtain ⟨errors', count', heq'⟩ : ∃ errors count,
        executor.attempts nested info' tool inputs' retryable retries retryErrors made = pure ⟨_, errors, count⟩ :=
      attempts_refused hright _ _ _
    rw [heq, heq']
    exact .pure (.error trivial)

theorem follows_invokeTool (hn : executor.Recurs nested) (h : executor.ValidatesAlike tool.inputSchema inputs inputs')
    (policy : Option RetryPolicy) :
    executor.Follows (executor.invokeTool nested info tool inputs policy)
      (executor.invokeTool nested info' tool inputs' policy)
      fun invoked invoked' => EqualOutputs invoked.outcome invoked'.outcome := by
  unfold invokeTool
  cases policy with
  | none => exact follows_attempts hn h _
  | some policy =>
    dsimp only
    split
    · refine .bind (follows_runTool hn h) fun outcome outcome' houtcome => ?_
      have houtcome := houtcome.equalOutputs
      cases houtcome with
      | ok hv => exact .pure (.ok hv)
      | error => exact .pure (.error trivial)
    · split
      · exact .pure (.error trivial)
      · exact follows_attempts hn h _

-- Gate, guardrail and dry run

/-- Something both times, or nothing. -/
abbrev BothOrNeither (found : Option α) (found' : Option β) : Prop := found'.isSome = found.isSome

theorem follows_evaluateSafetyGate :
    executor.Follows (executor.evaluateSafetyGate info tool inputs) (executor.evaluateSafetyGate info' tool inputs')
      fun refused refused' => BothOrNeither refused.1 refused'.1 := by
  unfold evaluateSafetyGate
  dsimp only
  split
  · exact .pure rfl
  split
  · exact .pure rfl
  split
  · split
    · exact .pure rfl
    · exact .pure rfl
  · refine .bind_same (related_perform ⟨rfl, rfl⟩) fun reply => ?_
    split <;> exact .pure rfl

theorem follows_evaluateInputGuardrail :
    executor.Follows (executor.evaluateInputGuardrail info tool inputs)
      (executor.evaluateInputGuardrail info' tool inputs') BothOrNeither := by
  unfold evaluateInputGuardrail
  split
  · exact .pure rfl
  · refine .bind_same (related_perform rfl) fun reply => ?_
    split <;> exact .pure rfl

variable {record record' : StepRecord}

theorem follows_dryRunStep (h : executor.ValidatesAlike tool.inputSchema inputs inputs')
    (hrecord : executor.Akin record record') :
    executor.Follows (executor.dryRunStep info toolName tool inputs record)
      (executor.dryRunStep info' toolName tool inputs' record') (Option.Rel executor.Counterpart) := by
  unfold dryRunStep
  split
  · exact .pure .none
  split
  · refine .bind (follows_runDry h) fun outcome outcome' houtcome => ?_
    have houtcome := houtcome.equalOutputs
    cases houtcome with
    | ok hv =>
      subst hv
      exact .pure (.some (hrecord.succeedWith _))
    | error => exact .pure (.some (hrecord.failWith _ _))
  · refine .get_bind fun state state' hstate => ?_
    rw [hstate.same]
    dsimp only
    split
    · exact .pure (.some (hrecord.failWith _ _))
    · exact .pure (.some ⟨⟨hrecord.toolName, hrecord.inputs⟩, rfl, rfl⟩)

theorem follows_dryDispatch {lane : Lane} (h : executor.ValidatesAlike tool.inputSchema inputs inputs')
    (hrecord : executor.Akin record record') :
    executor.Follows (executor.dryDispatch lane info toolName tool inputs record)
      (executor.dryDispatch lane info' toolName tool inputs' record') (Option.Rel executor.Counterpart) := by
  unfold dryDispatch
  refine .get_bind fun state state' hstate => ?_
  rw [show state'.dryRun = state.dryRun by rw [hstate.same]]
  split
  · exact follows_dryRunStep h hrecord
  · exact .pure .none

-- Error policy and outputs

variable {lane : Lane} {step : FlowStep}

theorem follows_runFallback (hn : executor.Recurs nested) (h : executor.FedAlike fallbackName inputs inputs')
    (hrecord : executor.Akin record record') :
    executor.Follows (executor.runFallback lane nested info toolName fallbackName inputs record retryErrors)
      (executor.runFallback lane nested info' toolName fallbackName inputs' record' retryErrors')
      executor.Counterpart := by
  unfold runFallback
  dsimp only
  have hmarked : ∀ errors errors', executor.Akin
      { record with retryErrors := errors, fallbackUsed := true, fallbackToolName := some fallbackName }
      { record' with retryErrors := errors', fallbackUsed := true, fallbackToolName := some fallbackName } :=
    fun _ _ => ⟨hrecord.toolName, hrecord.inputs⟩
  split
  · exact .pure ((hmarked _ _).failWith _ _)
  · next tool htool =>
    refine .bind follows_evaluateSafetyGate ?_
    rintro ⟨refusal, approval⟩ ⟨refusal', approval'⟩ hrefused
    cases refusal with
    | some e =>
      obtain ⟨e', rfl⟩ := Option.isSome_iff_exists.1 hrefused
      exact .pure ⟨⟨hrecord.toolName, hrecord.inputs⟩, rfl, rfl⟩
    | none =>
      obtain rfl : refusal' = none := Option.not_isSome_iff_eq_none.1 (by rw [hrefused]; simp)
      dsimp only
      refine .bind (follows_dryDispatch (h tool htool) ⟨hrecord.toolName, hrecord.inputs⟩) ?_
      rintro _ _ (hdry | _)
      · exact .pure hdry
      · refine .bind_same related_probe fun _ => .bind (follows_runTool hn (h tool htool)) ?_
        intro outcome outcome' houtcome
        have houtcome := houtcome.equalOutputs
        cases houtcome with
        | ok hv =>
          subst hv
          exact .pure ⟨⟨hrecord.toolName, hrecord.inputs⟩, rfl, rfl⟩
        | error => exact .pure ⟨⟨hrecord.toolName, hrecord.inputs⟩, rfl, rfl⟩

/-- The inputs are fed alike to the step's fallback tool, if it has one. -/
abbrev FallbackFed (executor : Executor) (step : FlowStep) (inputs inputs' : Dict) : Prop :=
  ∀ name, step.onError = .fallback name → executor.FedAlike name inputs inputs'

theorem follows_applyOnError (hn : executor.Recurs nested) (h : executor.FallbackFed step inputs inputs')
    (hrecord : executor.Akin record record') :
    executor.Follows (executor.applyOnError lane nested info step toolName inputs record retryErrors wrapped)
      (executor.applyOnError lane nested info' step toolName inputs' record' retryErrors' wrapped')
      executor.Counterpart := by
  unfold applyOnError
  split
  · exact .pure ⟨⟨hrecord.toolName, hrecord.inputs⟩, rfl, rfl⟩
  · exact .pure ⟨⟨hrecord.toolName, hrecord.inputs⟩, rfl, rfl⟩
  · next hfallback => exact follows_runFallback hn (h _ hfallback) hrecord

theorem checkStepContract_agree {payload payload' : Dict}
    (h : ∀ ref schema, contract = some ref → executor.platform.resolveClassRef ref = .ok schema →
      executor.ValidatesAlike schema payload payload') :
    Concur BothOrNeither (fun _ _ => True) (executor.checkStepContract toolName stepIndex payload contract label)
      (executor.checkStepContract toolName stepIndex' payload' contract label) := by
  cases contract with
  | none => exact .ok rfl
  | some ref =>
    unfold checkStepContract
    dsimp only
    cases href : executor.platform.resolveClassRef ref with
    | error e => exact .error trivial
    | ok schema =>
      have hjudged := h ref schema rfl href
      unfold ValidatesAlike at hjudged
      simp only [bind, Except.bind, validationError]
      revert hjudged
      generalize executor.platform.modelValidate schema (.dict payload.entries) = outcome
      generalize executor.platform.modelValidate schema (.dict payload'.entries) = outcome'
      rintro (_ | _)
      · cases outcome with
        | ok value => exact .ok rfl
        | error e => cases e <;> first | exact .ok rfl | exact .error trivial
      · exact .ok rfl

theorem follows_settleOutputs (hrecord : executor.Akin record record') :
    executor.Follows (executor.settleOutputs info step toolName key record outputs)
      (executor.settleOutputs info' step toolName key record' outputs) executor.Counterpart := by
  unfold settleOutputs
  refine .bind (follows_ofExcept (checkStepContract_agree fun _ _ _ _ => .same _)) ?_
  intro violation violation' hviolation
  cases violation with
  | some e =>
    obtain ⟨e', rfl⟩ := Option.isSome_iff_exists.1 hviolation
    exact .pure (hrecord.failWith _ _)
  | none =>
    obtain rfl : violation' = none := Option.not_isSome_iff_eq_none.1 (by rw [hviolation]; simp)
    cases key with
    | some key =>
      exact .bind_same (related_perform rfl) fun _ => .bind_same (follows_ofExcept_same _) fun _ =>
        .pure (hrecord.succeedWith _)
    | none => exact .pure (hrecord.succeedWith _)

end Executor

end ChainWeaver
