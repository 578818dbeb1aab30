import ChainWeaver.Interaction.Rules
import ChainWeaver.Step

/-!
# Traces of a step

Which events the code of one step can leave, each derived once along the call
graph. A property of traces enters as the set `T` it allows; what `T` has to
admit is collected in `StepEvents` and `CallEvents`.
-/

namespace ChainWeaver

open Interaction (Closed Comp Frame)

-- The primitives

/-- What a nested call raises leaves the run that made it. A tool that wraps a flow
catches it. -/
def NestedOrigin.Leaves : NestedOrigin → Prop
  | .step .. => True
  | .tool .. => False

/-- The events behind which an exception leaves a run that has started. -/
def Disturbance : Event → Prop
  | ⟨.probe, .fault _, _⟩ => True
  | ⟨.probe, .nestedEnd origin raised, _⟩ => origin.Leaves ∧ raised = true
  | _ => False

abbrev frame (Inv : RunScopedState → Prop) : Frame Effects RunScopedState := ⟨Inv, Disturbance⟩

abbrev faultEvent (e : Exc) : Event := ⟨.probe, .fault e, ()⟩

abbrev refusedEvent (e : Exc) : Event := ⟨.probe, .refused e, ()⟩

abbrev probeEvent (mark : Probe) : Event := ⟨.probe, mark, ()⟩

abbrev hookEvent (hook : Hook) : Event := ⟨.hook, hook, ()⟩

theorem runs_probe_throw {mark : Probe} {e : Exc} : (do probe mark; throw e : Exec α).Runs state events r state' ↔
    events = [probeEvent mark] ∧ r = .error e ∧ state' = state := by
  constructor
  · intro h
    rcases Comp.runs_bind.1 h with ⟨first, value, middle, second, rfl, h₁, h₂⟩ | ⟨e', rfl, h₁⟩
    · obtain ⟨reply, rfl, -, rfl⟩ := Comp.runs_ask.1 h₁
      obtain ⟨rfl, rfl, rfl⟩ := Comp.runs_throw.1 h₂
      exact ⟨rfl, rfl, rfl⟩
    · obtain ⟨reply, -, hr, -⟩ := Comp.runs_ask.1 h₁
      cases hr
  · rintro ⟨rfl, rfl, rfl⟩
    exact Comp.runs_bind.2 (.inl ⟨_, (), _, _, rfl, Comp.runs_ask.2 ⟨(), rfl, rfl, rfl⟩, Comp.runs_throw.2 ⟨rfl, rfl, rfl⟩⟩)

theorem runs_orRefuse_ok {x : Except Exc α} (h : (orRefuse x).Runs state events (.ok value) state') :
    x = .ok value ∧ events = [] ∧ state' = state := by
  cases x with
  | ok accepted =>
    obtain ⟨rfl, hvalue, rfl⟩ := Comp.runs_pure.1 h
    exact ⟨hvalue.symm, rfl, rfl⟩
  | error e => cases (runs_probe_throw.1 h).2.1

theorem runs_orRefuse_error {x : Except Exc α} (h : (orRefuse x).Runs state events (.error e) state') :
    x = .error e ∧ events = [refusedEvent e] := by
  cases x with
  | ok accepted => cases (Comp.runs_pure.1 h).2.1
  | error e' =>
    obtain ⟨rfl, he, -⟩ := runs_probe_throw.1 h
    cases he
    exact ⟨rfl, rfl⟩

theorem runs_ofExcept_error {x : Except Exc α} (h : (ofExcept x).Runs state events (.error e) state') :
    x = .error e ∧ events = [faultEvent e] := by
  cases x with
  | ok accepted => cases (Comp.runs_pure.1 h).2.1
  | error e' =>
    obtain ⟨rfl, he, -⟩ := runs_probe_throw.1 h
    cases he
    exact ⟨rfl, rfl⟩

variable {Inv : RunScopedState → Prop} {T : List Event → Prop} {need : Prop}

theorem upholds_fire (h : T [hookEvent hook]) :
    (frame Inv).Upholds T need (fire hook) fun _ => True :=
  .ask fun _ => h

theorem upholds_probe (h : T [probeEvent mark]) :
    (frame Inv).Upholds T need (probe mark) fun _ => True :=
  .ask fun _ => h

theorem ensures_refuse {post : Except Exc α → List Event → Prop} (h : post (.error e) [refusedEvent e]) :
    (frame Inv).Ensures (refuse e) post :=
  show (frame Inv).From [] (refuse e) post from .ask_bind fun _ => .throw h

theorem ensures_raise {post : Except Exc α → List Event → Prop} (h : post (.error e) [faultEvent e]) :
    (frame Inv).Ensures (raise e) post :=
  show (frame Inv).From [] (raise e) post from .ask_bind fun _ => .throw h

theorem upholds_raise (h : T [faultEvent e]) {Q : α → Prop} :
    (frame Inv).Upholds T need (raise e : Exec α) Q :=
  ensures_raise ⟨h, fun _ => ⟨_, List.mem_singleton.2 rfl, True.intro⟩⟩

theorem upholds_ofExcept (hT : Closed T) (h : ∀ e, T [faultEvent e]) (x : Except Exc α) :
    (frame Inv).Upholds T need (ofExcept x) fun value => x = .ok value := by
  cases x with
  | ok value => exact .pure hT rfl
  | error e => exact upholds_raise (h e)

theorem upholds_displayName (hT : Closed T) (h : ∀ e, T [faultEvent e]) (step : FlowStep) :
    (frame Inv).Upholds T need (Executor.displayName step) fun name => step.displayName? = some name := by
  unfold Executor.displayName
  cases hn : step.displayName? with
  | none => exact upholds_raise (h _)
  | some name => exact .pure hT rfl

namespace Executor

variable {executor : Executor} {nested : Nested} {info : StepInfo} {lane : Lane}

-- Calling a tool

/-- `T` admits calls of the callable of one tool on one input. -/
structure CallEvents (executor : Executor) (Inv : RunScopedState → Prop) (T : List Event → Prop)
    (nested : Nested) (info : StepInfo) (tool : Tool) (inputs : Dict) : Prop where
  invoke : T [probeEvent (.invoke info.traceId info.stepIndex tool inputs)]
  callTool : ∀ validated reply, T [⟨.callTool, ⟨info.traceId, info.stepIndex, tool, validated⟩, reply⟩]
  stream : ∀ validated reply, T [⟨.stream, ⟨info.traceId, info.stepIndex, tool, validated⟩, reply⟩]
  nested : ∀ flowName toolName stepCount validated, tool.fn = .flow flowName toolName stepCount →
    executor.platform.modelValidate tool.inputSchema (.dict inputs.entries) = .ok validated →
    (frame Inv).Upholds T False
      (nestedCall (.tool tool inputs) validated (nested.executeFlow flowName validated {})) fun _ => True

theorem callFn_upholds (hT : Closed T) (h : CallEvents executor Inv T nested info tool inputs)
    (hv : executor.platform.modelValidate tool.inputSchema (.dict inputs.entries) = .ok validated) :
    (frame Inv).Upholds T True (callFn nested info tool inputs validated) fun _ => True := by
  unfold callFn
  refine .bind hT (upholds_probe h.invoke) fun _ _ => ?_
  split
  · exact .ask (h.callTool validated)
  · next hfn =>
    exact .attempt_bind hT (h.nested _ _ _ _ hfn hv) (fun _ _ => .pure hT trivial) fun _ => .pure hT trivial
  · exact .bind hT (.ask (h.stream validated)) fun _ _ => .pure hT trivial

theorem runTool_upholds (hT : Closed T) (h : CallEvents executor Inv T nested info tool inputs) :
    (frame Inv).Upholds T True (executor.runTool nested info tool inputs) fun _ => True := by
  unfold runTool
  split
  · exact .pure hT trivial
  · next hv => exact .bind hT (callFn_upholds hT h hv) fun _ _ => .pure hT trivial

theorem attempts_upholds (hT : Closed T) (h : CallEvents executor Inv T nested info tool inputs)
    (retryable : Exc → Bool) (retries : Nat) (retryErrors : List String) (made : Nat) :
    (frame Inv).Upholds T True
      (executor.attempts nested info tool inputs retryable retries retryErrors made) fun _ => True := by
  induction retries generalizing retryErrors made with
  | zero =>
    unfold attempts
    refine .bind hT (runTool_upholds hT h) fun outcome _ => ?_
    cases outcome <;> exact .pure hT trivial
  | succ retries ih =>
    unfold attempts
    refine .bind hT (runTool_upholds hT h) fun outcome _ => ?_
    cases outcome with
    | ok outputs => exact .pure hT trivial
    | error e =>
      dsimp only
      split
      · exact ih _ _
      · exact .pure hT trivial

theorem invokeTool_upholds (hT : Closed T) (h : CallEvents executor Inv T nested info tool inputs)
    (policy : Option RetryPolicy) :
    (frame Inv).Upholds T True (executor.invokeTool nested info tool inputs policy) fun _ => True := by
  unfold invokeTool
  split
  · exact attempts_upholds hT h _ _ _ _
  · split
    · refine .bind hT (runTool_upholds hT h) fun outcome _ => ?_
      cases outcome <;> exact .pure hT trivial
    · split
      · exact .pure hT trivial
      · exact attempts_upholds hT h _ _ _ _

-- The rest of a step

/-- The lane may act for real: it is the asynchronous one, which knows no dry
run, or the run need not be a dry run. -/
def Live (Inv : RunScopedState → Prop) (lane : Lane) : Prop :=
  lane = .async ∨ ∃ state, Inv state ∧ state.dryRun = false

/-- `T` admits what a step does apart from calling its tools. -/
structure StepEvents (Inv : RunScopedState → Prop) (T : List Event → Prop) (lane : Lane)
    (info : StepInfo) : Prop where
  closed : Closed T
  fault : ∀ e, T [faultEvent e]
  approve : ∀ ctx reply, ctx.traceId = info.traceId → ctx.stepIndex = info.stepIndex →
    ctx.stepId = info.stepId → T [⟨.approve, ctx, reply⟩]
  check : ∀ ctx reply, ctx.traceId = info.traceId → ctx.stepIndex = info.stepIndex →
    ctx.stepId = info.stepId → T [⟨.check, ctx, reply⟩]
  chunk : ∀ toolName chunk,
    T [hookEvent (.stepChunk info.traceId info.flowName info.stepIndex toolName chunk)]
  runDry : ∀ tool validated reply, T [⟨.runDry, ⟨info.traceId, info.stepIndex, tool, validated⟩, reply⟩]
  cacheGet : Live Inv lane → ∀ key reply, T [⟨.cacheGet, key, reply⟩]
  cacheSet : Live Inv lane → ∀ entry reply, T [⟨.cacheSet, entry, reply⟩]

theorem evaluateSafetyGate_upholds (h : StepEvents Inv T lane info) :
    (frame Inv).Upholds T True (executor.evaluateSafetyGate info tool inputs) fun _ => True := by
  have hT := h.closed
  unfold evaluateSafetyGate
  dsimp only
  split
  · exact .pure hT trivial
  split
  · exact .pure hT trivial
  split
  · split <;> exact .pure hT trivial
  refine .bind hT (.ask fun reply => h.approve _ reply rfl rfl rfl) fun reply _ => ?_
  split <;> exact .pure hT trivial

theorem evaluateInputGuardrail_upholds (h : StepEvents Inv T lane info) :
    (frame Inv).Upholds T True (executor.evaluateInputGuardrail info tool inputs) fun _ => True := by
  have hT := h.closed
  unfold evaluateInputGuardrail
  dsimp only
  split
  · exact .pure hT trivial
  refine .bind hT (.ask fun reply => h.check _ reply rfl rfl rfl) fun reply _ => ?_
  split <;> exact .pure hT trivial

/-- What a dry run makes of a tool: the record of the step, or leave to run the
tool because it is not side-effecting. -/
def DryOutcome (tool : Tool) (stepIndex : Int) : Option StepRecord → Prop
  | some record => record.stepIndex = stepIndex
  | none => tool.safety.sideEffecting = false

theorem dryRunStep_upholds (h : StepEvents Inv T lane info) :
    (frame Inv).Upholds T True (executor.dryRunStep info toolName tool inputs record)
      (DryOutcome tool record.stepIndex) := by
  have hT := h.closed
  unfold dryRunStep
  split
  · next hs => exact .pure hT (by simpa [DryOutcome] using hs)
  split
  · refine .bind hT (Q := fun _ => True) ?_ fun outcome _ => ?_
    · unfold runDry
      split
      · exact .pure hT trivial
      · exact .bind hT (.ask fun reply => h.runDry _ _ reply) fun _ _ => .pure hT trivial
    · cases outcome <;> exact .pure hT rfl
  · refine .get_bind fun state _ => ?_
    split <;> exact .pure hT rfl

theorem dryDispatch_upholds (h : StepEvents Inv T lane info) :
    (frame Inv).Upholds T True (executor.dryDispatch lane info toolName tool inputs record)
      fun dryRecord => DryOutcome tool record.stepIndex dryRecord ∨ dryRecord = none ∧ Live Inv lane := by
  unfold dryDispatch
  refine .get_bind fun state hs => ?_
  split
  · exact (dryRunStep_upholds h).post fun _ => .inl
  · next hc =>
    refine .pure h.closed (.inr ⟨rfl, ?_⟩)
    cases lane with
    | async => exact .inl rfl
    | sync => exact .inr ⟨state, hs, by simpa using hc⟩

/-- The post-condition of the code that fills in the record of a step: it is still
a record of that step. -/
abbrev Keeps (record : StepRecord) : StepRecord → Prop := fun result => result.stepIndex = record.stepIndex

theorem settleOutputs_upholds (h : StepEvents Inv T lane info) (hkey : key ≠ none → Live Inv lane) :
    (frame Inv).Upholds T True (executor.settleOutputs info step toolName key record outputs)
      (Keeps record) := by
  have hT := h.closed
  unfold settleOutputs
  refine .bind hT (upholds_ofExcept hT h.fault _) fun violation _ => ?_
  cases violation with
  | some e => exact .pure hT rfl
  | none =>
    cases key with
    | none => exact .pure hT rfl
    | some entry =>
      refine .bind hT (.ask fun reply => h.cacheSet (hkey nofun) _ reply) fun reply _ => ?_
      exact .bind hT (upholds_ofExcept hT h.fault reply) fun _ _ => .pure hT rfl

/-- A step has a cache key only where it may act for real. -/
theorem cacheKey_live (hs : Inv state) (h : executor.cacheKey lane state tool inputs = .ok (some key)) :
    Live Inv lane := by
  unfold cacheKey at h
  split at h
  · next hc =>
    simp only [Bool.and_eq_true, Bool.or_eq_true, decide_eq_true_eq, Bool.not_eq_true'] at hc
    exact hc.2.imp id fun hd => ⟨state, hs, hd⟩
  · cases h

theorem applyOnError_upholds (h : StepEvents Inv T lane info)
    (hfallback : ∀ fallbackName record retryErrors, (frame Inv).Upholds T True
      (executor.runFallback lane nested info toolName fallbackName inputs record retryErrors)
      (Keeps record)) :
    (frame Inv).Upholds T True
      (executor.applyOnError lane nested info step toolName inputs record retryErrors wrapped)
      (Keeps record) := by
  unfold applyOnError
  split
  · exact .pure h.closed rfl
  · exact .pure h.closed rfl
  · exact hfallback _ _ _

theorem cacheLookup_upholds (h : StepEvents Inv T lane info) (hkey : key ≠ none → Live Inv lane) :
    (frame Inv).Upholds T True (cacheLookup key) fun _ => True := by
  cases key with
  | none => exact .pure h.closed trivial
  | some entry =>
    refine .bind h.closed (.ask fun reply => h.cacheGet (hkey nofun) _ reply) fun reply _ => ?_
    exact (upholds_ofExcept h.closed h.fault reply).trivial

theorem runCached_upholds (h : StepEvents Inv T lane info)
    (hcall : CallEvents executor Inv T nested info tool inputs)
    (hfallback : ∀ fallbackName record retryErrors, (frame Inv).Upholds T True
      (executor.runFallback lane nested info toolName fallbackName inputs record retryErrors)
      (Keeps record)) :
    (frame Inv).Upholds T True
      (executor.runCached lane nested info step toolName tool inputs record) (Keeps record) := by
  have hT := h.closed
  unfold runCached
  refine .get_bind fun state hs => .bind hT (upholds_ofExcept hT h.fault _) fun key hkey => ?_
  have hlive : key ≠ none → Live Inv lane := fun hne => by
    obtain ⟨entry, rfl⟩ := Option.ne_none_iff_exists'.1 hne
    exact cacheKey_live hs hkey
  refine .bind hT (cacheLookup_upholds h hlive) fun hit _ => ?_
  cases hit with
  | some output =>
    exact .bind hT (settleOutputs_upholds h nofun) fun settled hsettled => .pure hT hsettled
  | none =>
    refine .bind hT (invokeTool_upholds hT hcall step.retry) fun invoked _ => ?_
    dsimp only
    split
    · exact (applyOnError_upholds h hfallback).post fun _ hr => hr
    · exact (settleOutputs_upholds h hlive).post fun _ hr => hr

theorem consume_upholds (h : StepEvents Inv T lane info) :
    (frame Inv).Upholds T True (executor.consume info toolName tool ending chunks final)
      fun _ => True := by
  have hT := h.closed
  induction chunks generalizing final with
  | nil =>
    unfold consume
    split <;> exact .pure hT trivial
  | cons chunk rest ih =>
    unfold consume
    split
    · exact .pure hT trivial
    split
    · split
      · exact .pure hT trivial
      · exact .bind hT (upholds_fire (h.chunk _ _)) fun _ _ => ih
    · exact .bind hT (upholds_fire (h.chunk _ _)) fun _ _ => ih

theorem runStreaming_upholds (h : StepEvents Inv T .async info)
    (hcall : CallEvents executor Inv T nested info tool inputs) :
    (frame Inv).Upholds T True (executor.runStreaming info toolName tool inputs) fun _ => True := by
  have hT := h.closed
  unfold runStreaming
  split
  · exact .pure hT trivial
  · refine .bind hT (upholds_probe hcall.invoke) fun _ _ => ?_
    exact .bind hT (.ask (hcall.stream _)) fun _ _ => consume_upholds h

theorem runStreamingStep_upholds (h : StepEvents Inv T .async info)
    (hcall : CallEvents executor Inv T nested info tool inputs)
    (hfallback : ∀ fallbackName record retryErrors, (frame Inv).Upholds T True
      (executor.runFallback .async nested info toolName fallbackName inputs record retryErrors)
      (Keeps record)) :
    (frame Inv).Upholds T True
      (executor.runStreamingStep nested info step toolName tool inputs record) (Keeps record) := by
  have hT := h.closed
  unfold runStreamingStep
  refine .bind hT (runStreaming_upholds h hcall) fun outcome _ => ?_
  cases outcome with
  | error e => exact applyOnError_upholds h hfallback
  | ok outputs => exact settleOutputs_upholds h nofun

/-- A fallback tool is called on the inputs of the step, in a dry run only if it
is not side-effecting. -/
theorem runFallback_upholds (h : StepEvents Inv T lane info)
    (hcall : ∀ tool, executor.getTool fallbackName = .ok tool →
      (Live Inv lane ∨ tool.safety.sideEffecting = false) → CallEvents executor Inv T nested info tool inputs)
    (hprobe : T [probeEvent (.fallback info.traceId info.stepIndex toolName fallbackName)]) :
    (frame Inv).Upholds T True
      (executor.runFallback lane nested info toolName fallbackName inputs record retryErrors)
      (Keeps record) := by
  have hT := h.closed
  unfold runFallback
  dsimp only
  split
  · exact .pure hT rfl
  next tool htool =>
  refine .bind hT (evaluateSafetyGate_upholds h) fun gate _ => ?_
  split
  · exact .pure hT rfl
  refine .bind hT (dryDispatch_upholds h) fun dryRecord hdry => ?_
  cases dryRecord with
  | some dryRecord => exact .pure hT (hdry.resolve_right nofun)
  | none =>
    have hc := hcall tool htool (hdry.symm.imp (·.2) id)
    refine .bind hT (upholds_probe hprobe) fun _ _ => .bind hT (runTool_upholds hT hc) fun outcome _ => ?_
    cases outcome <;> exact .pure hT rfl

theorem dispatchTool_upholds (h : StepEvents Inv T lane info)
    (hcall : Live Inv lane ∨ tool.safety.sideEffecting = false →
      CallEvents executor Inv T nested info tool inputs)
    (hfallback : ∀ fallbackName record retryErrors, (frame Inv).Upholds T True
      (executor.runFallback lane nested info toolName fallbackName inputs record retryErrors)
      (Keeps record)) :
    (frame Inv).Upholds T True
      (executor.dispatchTool lane nested info step toolName tool inputs record) (Keeps record) := by
  have hT := h.closed
  unfold dispatchTool
  cases lane with
  | async =>
    dsimp only
    split
    · exact runStreamingStep_upholds h (hcall (.inl (.inl rfl))) hfallback
    · exact runCached_upholds h (hcall (.inl (.inl rfl))) hfallback
  | sync =>
    refine .bind hT (dryDispatch_upholds h) fun dryRecord hdry => ?_
    cases dryRecord with
    | some dryRecord => exact .pure hT (hdry.resolve_right nofun)
    | none => exact runCached_upholds h (hcall (hdry.symm.imp (·.2) id)) hfallback

/-- A tool step, as far as `T` admits the calls of registered tools. -/
theorem runToolStep_upholds (h : StepEvents Inv T lane info) (htool : executor.getTool name = .ok tool)
    (hcall : ∀ name tool, executor.getTool name = .ok tool →
      Live Inv lane ∨ tool.safety.sideEffecting = false → CallEvents executor Inv T nested info tool inputs)
    (hprobe : ∀ fallbackName,
      T [probeEvent (.fallback info.traceId info.stepIndex toolName fallbackName)]) :
    (frame Inv).Upholds T True
      (executor.runToolStep lane nested info step toolName tool inputs record) (Keeps record) := by
  have hT := h.closed
  have hfallback : ∀ fallbackName record retryErrors, (frame Inv).Upholds T True
      (executor.runFallback lane nested info toolName fallbackName inputs record retryErrors)
      (Keeps record) :=
    fun fallbackName _ _ => runFallback_upholds h (fun tool => hcall _ tool) (hprobe fallbackName)
  unfold runToolStep
  refine .bind hT (evaluateSafetyGate_upholds h) fun gate _ => ?_
  dsimp only
  split
  · exact .pure hT rfl
  refine .bind hT (evaluateInputGuardrail_upholds h) fun violation _ => ?_
  split
  · exact .pure hT rfl
  · exact dispatchTool_upholds h (hcall name tool htool) hfallback

end Executor

end ChainWeaver
