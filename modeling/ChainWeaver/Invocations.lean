import ChainWeaver.Interaction.Brackets
import ChainWeaver.Interaction.Graded
import ChainWeaver.Isolation
import ChainWeaver.RetryLaws
import ChainWeaver.StepSupply

/-!
# How often a step calls a tool

The calls a step makes itself, without those inside nested calls, which steps of
their own make. Under strict safety a tool that is not to be retried is called once
by the step and once more where it is its own fallback.
-/

namespace ChainWeaver.Executor

open Interaction (Closed Comp Course Descends Enclosed Graded outside)

-- Nested calls

/-- Every nested call that starts ends. -/
abbrev Paired := Enclosed (S := Effects) startsNested endsNested

theorem Plain.paired (h : Plain e) : Paired [e] := by
  refine Interaction.enclosed_single ?_ ?_
  · unfold startsNested
    split
    · exact h.elim
    · rfl
  · unfold endsNested
    split
    · exact h.elim
    · rfl

theorem nestedCall_paired (h : Paired events) :
    Paired ([probeEvent (.nestedStart origin input)] ++ events ++ [probeEvent (.nestedEnd origin raised)]) :=
  h.bracket rfl rfl rfl rfl

/-- A nested call ends whatever it starts. -/
def enclosurePolicy (executor : Executor) : Policy where
  executor := executor
  Inv _ := True
  I _ _ := Paired
  W _ _ _ := Paired

theorem enclosurePolicy_admits (executor : Executor) (lane : Lane) : executor.enclosurePolicy.Admits lane Paired where
  toClosed := (Enclosed.mixable _ _).toClosed
  refused _ := Plain.paired trivial
  scene flow run start origin := by
    have hsteps : (executor.enclosurePolicy.scene lane flow run start origin).AdmitsSteps Paired :=
      ⟨(Enclosed.mixable _ _).toClosed, fun _ h => h, fun _ => Plain.paired trivial, fun _ => Plain.paired trivial,
        fun _ => Plain.paired trivial⟩
    refine ⟨hsteps, fun he => ?_, hsteps.strands (Enclosed.mixable _ _), fun he => ?_, fun _ => Plain.paired trivial,
      Plain.paired trivial, Plain.paired trivial, Interaction.enclosed_single rfl rfl, Plain.paired trivial,
      Plain.paired trivial⟩
    · cases he <;> exact Interaction.enclosed_single rfl rfl
    · cases he <;> exact Interaction.enclosed_single rfl rfl
  newTraceId _ := Plain.paired trivial
  flowStart _ _ _ := Plain.paired trivial
  enter _ _ := Plain.paired trivial
  load _ _ := Plain.paired trivial

theorem enclosurePolicy_sound (executor : Executor) : executor.enclosurePolicy.Sound where
  stable := ⟨fun _ => trivial, fun _ => trivial⟩
  enter _ := trivial
  step {nested lane info} hn := by
    have hT := (Enclosed.mixable (S := Effects) startsNested endsNested).toClosed
    refine .of_events hT (fun e he => ?_) (fun step context call reply _ => ?_) ?_
    · cases he <;> exact Plain.paired trivial
    · exact hT.cons (Plain.paired trivial) (Plain.paired trivial)
    · intro origin flowName input cancellation callee _ _
      exact nestedCall_upholds (hn callee flowName input cancellation) fun raised events hevents =>
        nestedCall_paired hevents
  whole h := (enclosurePolicy_admits _ _).called h

-- Invocations

def invokes (tool : Tool) : Event → Bool
  | ⟨.probe, .invoke _ _ invoked _, _⟩ => invoked = tool
  | _ => false

/-- The calls of a tool that a step makes itself. -/
def invocations (tool : Tool) (events : List Event) : Nat :=
  (outside startsNested endsNested 0 events).countP (invokes tool)

variable {tool : Tool} {executor : Executor} {nested : Nested} {info : StepInfo} {lane : Lane} {state : RunScopedState}

theorem invocations_append (h : Paired first) :
    invocations tool (first ++ second) = invocations tool first + invocations tool second := by
  rw [invocations, Interaction.outside_append h, List.countP_append]
  rfl

theorem invocations_single (e : Event) : invocations tool [e] ≤ if invokes tool e then 1 else 0 := by
  rw [invocations, outside, outside, List.append_nil]
  split
  · rw [List.countP_singleton]
  · exact Nat.zero_le _

/-- A part of a step with at most so many calls of the tool. -/
def invoking (tool : Tool) : Course Effects RunScopedState where
  Goes n _ events _ := Paired events ∧ invocations tool events ≤ n
  stay := ⟨.nil, Nat.zero_le _⟩
  more h hle := ⟨h.1, h.2.trans hle⟩
  append h₁ h₂ := ⟨h₁.1.append h₂.1, by
    rw [invocations_append h₁.1]
    exact Nat.add_le_add h₁.2 h₂.2⟩

theorem invoking_graded (tool : Tool) : Graded fun n (c : Exec _) => (invoking tool).Takes n c := (invoking tool).graded

/-- A question that is no mark of a nested call. -/
theorem takes_ask {kind : EffectKind} {query : kind.Query} (h : ∀ reply, Paired [⟨kind, query, reply⟩])
    (hn : ∀ reply, (if invokes tool ⟨kind, query, reply⟩ then 1 else 0) ≤ n) :
    (invoking tool).Takes n (perform kind query) := by
  intro state events r state' hrun
  obtain ⟨reply, rfl, -, -⟩ := Comp.runs_ask.1 hrun
  exact ⟨h reply, (invocations_single _).trans (hn reply)⟩

/-- Traces without a call of the tool. -/
def Uncalled (tool : Tool) (events : List Event) : Prop := Paired events ∧ invocations tool events = 0

theorem uncalled_closed (tool : Tool) : Closed (Uncalled tool) where
  nil := ⟨.nil, rfl⟩
  append h₁ h₂ := ⟨h₁.1.append h₂.1, by rw [invocations_append h₁.1, h₁.2, h₂.2]⟩

theorem Uncalled.single (h : Paired [e]) (hcall : invokes tool e = false) : Uncalled tool [e] :=
  ⟨h, Nat.le_zero.1 ((invocations_single e).trans (by simp [hcall]))⟩

/-- What a step does apart from calling its tools. -/
theorem uncalled_step (tool : Tool) (lane : Lane) (info : StepInfo) :
    StepEvents (fun _ => True) (Uncalled tool) lane info where
  closed := uncalled_closed tool
  fault _ := .single (Plain.paired trivial) rfl
  approve _ _ _ _ _ := .single (Plain.paired trivial) rfl
  check _ _ _ _ _ := .single (Plain.paired trivial) rfl
  chunk _ _ := .single (Plain.paired trivial) rfl
  runDry _ _ _ := .single (Plain.paired trivial) rfl
  cacheGet _ _ _ := .single (Plain.paired trivial) rfl
  cacheSet _ _ _ := .single (Plain.paired trivial) rfl

theorem takes_uncalled {c : Exec α} {Q : α → Prop} (h : (frame fun _ => True).Upholds (Uncalled tool) need c Q) :
    (invoking tool).Takes 0 c := by
  intro state events r state' hrun
  obtain ⟨hpaired, hnone⟩ := (h _ _ _ _ trivial hrun).2.1
  exact ⟨hpaired, hnone.le⟩

theorem takes_ofExcept (x : Except Exc α) : (invoking tool).Takes 0 (ofExcept x) := by
  have hfault : ∀ e, Uncalled tool [faultEvent e] := fun e => .single (Plain.paired trivial) rfl
  have hx : (frame fun _ => True).Upholds (Uncalled tool) True (ofExcept x) fun value => x = .ok value :=
    upholds_ofExcept (uncalled_closed tool) hfault x
  exact takes_uncalled hx

theorem takes_get_bind {f : RunScopedState → Exec α} (h : ∀ state, (invoking tool).Takes n (f state)) :
    (invoking tool).Takes n (get >>= f) :=
  fun state events r state' hrun => h state state events r state' (Comp.runs_get_bind.1 hrun)

theorem takes_modify (g : RunScopedState → RunScopedState) : (invoking tool).Takes 0 (modify g : Exec PUnit) := by
  intro state events r state' hrun
  obtain ⟨rfl, -, -⟩ := Comp.runs_modify.1 hrun
  exact ⟨.nil, Nat.le_refl 0⟩

theorem takes_rethrow (outcome : Except Exc α) : (invoking tool).Takes 0 (rethrow outcome) := by
  cases outcome with
  | ok value => exact (invoking_graded tool).pure value
  | error e => exact (invoking_graded tool).throw e

theorem takes_fire (hook : Hook) : (invoking tool).Takes 0 (fire hook) :=
  takes_ask (fun _ => Plain.paired trivial) fun _ => Nat.le_refl 0

/-- A nested call makes its own steps. -/
theorem takes_nestedCall {body : Exec α}
    (h : (frame fun _ => True).Upholds Paired False body fun _ => True) :
    (invoking tool).Takes 0 (nestedCall origin input body) := by
  refine takes_uncalled (Q := fun _ => True) (nestedCall_upholds h fun raised events hevents => ?_)
  refine ⟨nestedCall_paired hevents, ?_⟩
  rw [invocations, Interaction.outside_bracket hevents rfl rfl rfl]
  rfl

-- Tools

/-- What one run of a tool adds to the calls of `tool`. -/
def share (tool invoked : Tool) : Nat := if invoked = tool then 1 else 0

/-- The nested calls of the step are paired. -/
abbrev NestedPaired (executor : Executor) (nested : Nested) : Prop := executor.enclosurePolicy.Obeyed nested

theorem invoke_takes (invoked : Tool) (inputs : Dict) :
    (invoking tool).Takes (share tool invoked) (probe (.invoke info.traceId info.stepIndex invoked inputs)) :=
  takes_ask (fun _ => Plain.paired trivial) fun _ => by simp [invokes, share]

theorem callFn_takes (hn : executor.NestedPaired nested) (invoked : Tool) (inputs validated : Dict) :
    (invoking tool).Takes (share tool invoked) (callFn nested info invoked inputs validated) := by
  have hG := invoking_graded tool
  refine hG.behind (invoke_takes invoked inputs) fun _ => ?_
  dsimp only
  split
  · exact takes_ask (fun _ => Plain.paired trivial) fun _ => Nat.le_refl 0
  · exact hG.before (hG.attempt (takes_nestedCall (hn .sync _ _ _))) fun _ => hG.pure _
  · exact hG.before (takes_ask (fun _ => Plain.paired trivial) fun _ => Nat.le_refl 0) fun _ => hG.pure _

theorem runTool_takes (hn : executor.NestedPaired nested) (invoked : Tool) (inputs : Dict) :
    (invoking tool).Takes (share tool invoked) (executor.runTool nested info invoked inputs) := by
  have hG := invoking_graded tool
  unfold runTool
  split
  · exact hG.free (hG.pure _)
  · exact hG.behind (callFn_takes hn _ _ _) fun _ => hG.pure _

theorem attempts_takes (hn : executor.NestedPaired nested) (invoked : Tool) (inputs : Dict) (retryable : Exc → Bool)
    (retries : Nat) (h : invoked = tool → retries = 0) (retryErrors : List String) (made : Nat) :
    (invoking tool).Takes (share tool invoked)
      (executor.attempts nested info invoked inputs retryable retries retryErrors made) := by
  have hG := invoking_graded tool
  induction retries generalizing retryErrors made with
  | zero =>
    unfold attempts
    refine hG.behind (runTool_takes hn _ _) fun outcome => ?_
    cases outcome <;> exact hG.pure _
  | succ retries ih =>
    have hother : invoked ≠ tool := fun heq => Nat.succ_ne_zero _ (h heq)
    have hshare : share tool invoked = 0 := if_neg hother
    unfold attempts
    rw [hshare]
    refine hG.before (hshare ▸ runTool_takes hn _ _) fun outcome => ?_
    cases outcome with
    | ok outputs => exact hG.pure _
    | error e =>
      dsimp only
      split
      · exact hshare ▸ ih (fun heq => absurd heq hother) _ _
      · exact hG.pure _

/-- An invocation under a policy that the executor gives up for the tool. -/
theorem invokeTool_takes (hn : executor.NestedPaired nested) (hsuppresses : executor.Suppresses tool) (invoked : Tool)
    (inputs : Dict) (policy : Option RetryPolicy) :
    (invoking tool).Takes (share tool invoked) (executor.invokeTool nested info invoked inputs policy) := by
  have hG := invoking_graded tool
  unfold invokeTool
  split
  · exact attempts_takes hn _ _ _ _ (fun _ => rfl) _ _
  split
  · refine hG.behind (runTool_takes hn _ _) fun outcome => ?_
    cases outcome <;> exact hG.pure _
  next hretries =>
  split
  · exact hG.free (hG.pure _)
  · exact attempts_takes hn _ _ _ _ (fun heq => absurd (heq ▸ hsuppresses) hretries) _ _

-- Fallbacks

/-- What the fallback of a step adds to the calls of `tool`. -/
def fallbackShare (executor : Executor) (tool : Tool) (policy : OnError) : Nat :=
  match policy with
  | .fallback name => match executor.getTool name with
    | .ok invoked => share tool invoked
    | .error _ => 0
  | _ => 0

theorem runFallback_takes (hn : executor.NestedPaired nested) (toolName fallbackName : String) (inputs : Dict)
    (record : StepRecord) (retryErrors : List String) :
    (invoking tool).Takes (executor.fallbackShare tool (.fallback fallbackName))
      (executor.runFallback lane nested info toolName fallbackName inputs record retryErrors) := by
  have hG := invoking_graded tool
  unfold runFallback fallbackShare
  dsimp only
  cases executor.getTool fallbackName with
  | error missing => exact hG.pure _
  | ok invoked =>
    refine hG.before (takes_uncalled (evaluateSafetyGate_upholds (uncalled_step tool lane info))) fun gate => ?_
    obtain ⟨refusal, approval⟩ := gate
    cases refusal with
    | some e => exact hG.free (hG.pure _)
    | none =>
      refine hG.before (takes_uncalled (dryDispatch_upholds (uncalled_step tool _ info))) fun dry => ?_
      cases dry with
      | some record => exact hG.free (hG.pure _)
      | none =>
        refine hG.before (takes_ask (fun _ => Plain.paired trivial) fun _ => Nat.le_refl 0) fun _ => ?_
        refine hG.behind (runTool_takes hn _ _) fun outcome => ?_
        cases outcome <;> exact hG.pure _

theorem applyOnError_takes (hn : executor.NestedPaired nested) (step : FlowStep) (toolName : String) (inputs : Dict)
    (record : StepRecord) (retryErrors : List String) (wrapped : Exc) :
    (invoking tool).Takes (executor.fallbackShare tool step.onError)
      (executor.applyOnError lane nested info step toolName inputs record retryErrors wrapped) := by
  have hG := invoking_graded tool
  unfold applyOnError
  cases step.onError with
  | fail => exact hG.pure _
  | skip => exact hG.pure _
  | fallback name => exact runFallback_takes hn _ _ _ _ _

-- Steps

theorem settleOutputs_takes (step : FlowStep) (toolName : String) (key : Option StepCacheKey) (record : StepRecord)
    (outputs : Dict) : (invoking tool).Takes 0 (executor.settleOutputs info step toolName key record outputs) :=
  takes_uncalled (settleOutputs_upholds (uncalled_step tool .async info) fun _ => .inl rfl)

theorem runCached_takes (hn : executor.NestedPaired nested) (hsuppresses : executor.Suppresses tool) (step : FlowStep)
    (toolName : String) (invoked : Tool) (inputs : Dict) (record : StepRecord) :
    (invoking tool).Takes (share tool invoked + executor.fallbackShare tool step.onError)
      (executor.runCached lane nested info step toolName invoked inputs record) := by
  have hG := invoking_graded tool
  unfold runCached
  refine takes_get_bind fun state => hG.before (takes_ofExcept _) fun key => ?_
  refine hG.before (takes_uncalled (cacheLookup_upholds (uncalled_step tool .async info) fun _ => .inl rfl))
    fun found => ?_
  cases found with
  | some output => exact hG.free (hG.before (settleOutputs_takes _ _ _ _ _) fun _ => hG.pure _)
  | none =>
    refine hG.bind (invokeTool_takes hn hsuppresses _ _ _) fun invoked => ?_
    dsimp only
    cases invoked.outcome with
    | error e => exact applyOnError_takes hn _ _ _ _ _ _
    | ok outputs => exact hG.free (settleOutputs_takes _ _ _ _ _)

theorem runStreamingStep_takes (hn : executor.NestedPaired nested) (step : FlowStep) (toolName : String)
    (invoked : Tool) (inputs : Dict) (record : StepRecord) :
    (invoking tool).Takes (share tool invoked + executor.fallbackShare tool step.onError)
      (executor.runStreamingStep nested info step toolName invoked inputs record) := by
  have hG := invoking_graded tool
  unfold runStreamingStep
  refine hG.bind (m := share tool invoked) ?_ fun outcome => ?_
  · unfold runStreaming
    split
    · exact hG.free (hG.pure _)
    · refine hG.behind (invoke_takes _ _) fun _ => ?_
      refine hG.before (takes_ask (fun _ => Plain.paired trivial) fun _ => Nat.le_refl 0) fun streamed => ?_
      exact takes_uncalled (consume_upholds (uncalled_step tool .async info))
  · cases outcome with
    | error e => exact applyOnError_takes hn _ _ _ _ _ _
    | ok outputs => exact hG.free (settleOutputs_takes _ _ _ _ _)

theorem dispatchTool_takes (hn : executor.NestedPaired nested) (hsuppresses : executor.Suppresses tool)
    (step : FlowStep) (toolName : String) (invoked : Tool) (inputs : Dict) (record : StepRecord) :
    (invoking tool).Takes (share tool invoked + executor.fallbackShare tool step.onError)
      (executor.dispatchTool lane nested info step toolName invoked inputs record) := by
  have hG := invoking_graded tool
  unfold dispatchTool
  cases lane with
  | sync =>
    refine hG.before (takes_uncalled (dryDispatch_upholds (uncalled_step tool _ info))) fun dry => ?_
    cases dry with
    | some record => exact hG.free (hG.pure _)
    | none => exact runCached_takes hn hsuppresses _ _ _ _ _
  | async =>
    dsimp only
    split
    · exact runStreamingStep_takes hn _ _ _ _ _
    · exact runCached_takes hn hsuppresses _ _ _ _ _

theorem runToolStep_takes (hn : executor.NestedPaired nested) (hsuppresses : executor.Suppresses tool)
    (step : FlowStep) (toolName : String) (invoked : Tool) (inputs : Dict) (record : StepRecord) :
    (invoking tool).Takes (share tool invoked + executor.fallbackShare tool step.onError)
      (executor.runToolStep lane nested info step toolName invoked inputs record) := by
  have hG := invoking_graded tool
  unfold runToolStep
  refine hG.before (takes_uncalled (evaluateSafetyGate_upholds (uncalled_step tool lane info))) fun gate => ?_
  obtain ⟨refusal, approval⟩ := gate
  cases refusal with
  | some e => exact hG.free (hG.pure _)
  | none =>
    refine hG.before (takes_uncalled (evaluateInputGuardrail_upholds (uncalled_step tool lane info))) fun blocked => ?_
    cases blocked with
    | some e => exact hG.free (hG.pure _)
    | none => exact dispatchTool_takes hn hsuppresses _ _ _ _ _

/-- A part without a call of the tool, and what follows it. -/
theorem takes_bind_uncalled {c : Exec α} {f : α → Exec β} {Q : α → Prop}
    (hc : (frame fun _ => True).Upholds (Uncalled tool) need c Q)
    (hf : ∀ value, Q value → (invoking tool).Takes n (f value)) : (invoking tool).Takes n (c >>= f) := by
  intro state events r state' hrun
  rcases Comp.runs_bind.1 hrun with ⟨first, value, middle, second, rfl, hfirst, hsecond⟩ | ⟨e, rfl, herror⟩
  · obtain ⟨-, ⟨hpaired, hnone⟩, hvalue⟩ := hc _ _ _ _ trivial hfirst
    obtain ⟨hpaired', hbound⟩ := hf value hvalue _ _ _ _ hsecond
    refine ⟨hpaired.append hpaired', ?_⟩
    rw [invocations_append hpaired, hnone, Nat.zero_add]
    exact hbound
  · obtain ⟨-, ⟨hpaired, hnone⟩, -⟩ := hc _ _ _ _ trivial herror
    exact ⟨hpaired, hnone ▸ Nat.zero_le n⟩

theorem executeToolStep_takes (hn : executor.NestedPaired nested) (hsuppresses : executor.Suppresses tool)
    (step : FlowStep) (decision : Option DecisionRecord) (context : Dict)
    (h : ∀ toolName invoked, step.displayName? = some toolName → executor.getTool toolName = .ok invoked →
      share tool invoked + executor.fallbackShare tool step.onError ≤ n) :
    (invoking tool).Takes n (executor.executeToolStep lane nested info step decision context) := by
  have hG := invoking_graded tool
  have hevents := uncalled_step tool lane info
  have hname : (frame fun _ => True).Upholds (Uncalled tool) True (displayName step)
      fun name => step.displayName? = some name := upholds_displayName hevents.closed hevents.fault step
  unfold executeToolStep
  refine takes_bind_uncalled hname fun toolName hname => ?_
  refine takes_bind_uncalled (prepareStep_upholds hevents rfl) fun prepared hprepared => ?_
  cases prepared with
  | error record => exact hG.free (hG.before (takes_fire _) fun _ => hG.pure _)
  | ok ready =>
    refine hG.before (takes_fire _) fun _ => hG.weaken ?_ (h toolName ready.1 hname hprepared)
    refine hG.behind (runToolStep_takes hn hsuppresses _ _ _ _ _) fun record => ?_
    exact hG.before (takes_fire _) fun _ => hG.pure _

theorem executeSubflowStep_takes (hn : executor.NestedPaired nested) (step : FlowStep) (subName : String)
    (context : Dict) (cancellation : Cancellation) :
    (invoking tool).Takes 0 (executeSubflowStep lane nested info step subName context cancellation) := by
  have hG := invoking_graded tool
  unfold executeSubflowStep
  refine hG.before (takes_ask (fun _ => Plain.paired trivial) fun _ => Nat.le_refl 0) fun _ => ?_
  split
  · exact hG.pure _
  refine hG.before (takes_fire _) fun _ => takes_get_bind fun state => ?_
  refine hG.before (hG.attempt (takes_nestedCall (hn lane _ _ _))) fun outcome => hG.before (takes_modify _) fun _ => ?_
  exact hG.before (takes_rethrow outcome) fun result => hG.before (takes_fire _) fun _ => hG.pure _

theorem resolveDecision_uncalled (htool : ∀ subName, step.target ≠ .flow subName) :
    (frame fun _ => True).Upholds (Uncalled tool) True (executor.resolveDecision info step context)
      fun resolved => ∀ step' decision, resolved = .ok (step', decision) → Decided executor step step' := by
  have hT := uncalled_closed tool
  have hevents := uncalled_step tool .sync info
  have hsame : ∀ {decision : Option DecisionRecord} step' decision',
      (.ok (step, decision) : Except StepRecord _) = .ok (step', decision') → Decided executor step step' := by
    rintro _ _ _ ⟨⟩
    exact ⟨rfl, rfl, htool, fun _ => id⟩
  unfold resolveDecision
  split
  · exact .pure hT hsame
  split
  · exact .pure hT hsame
  next hcallback =>
  refine .bind hT (upholds_displayName hT hevents.fault step) fun defaultName _ => ?_
  refine .bind hT (spendDecision_upholds ⟨fun _ => trivial, fun _ => trivial⟩ hevents) fun _ _ => ?_
  refine .bind hT (Q := fun _ => True) ?_ fun answer _ => ?_
  · unfold askDecision
    split
    · exact .ask fun _ => .single (Plain.paired trivial) rfl
    · exact .bind hT (.ask fun _ => .single (Plain.paired trivial) rfl) fun _ _ => .pure hT trivial
  split
  · refine .bind hT (Q := fun _ => True) ?_ fun record _ => .pure hT (by rintro _ _ ⟨⟩)
    exact .bind hT (upholds_fire (.single (Plain.paired trivial) rfl)) fun _ _ => .pure hT trivial
  · next resolved hchosen =>
    refine .pure hT ?_
    rintro step' decision ⟨⟩
    exact chooseTool_decided (by simpa using hcallback) htool hchosen

-- At most once

/-- The step falls back to a tool that it may run. -/
def FallsBackToItself (executor : Executor) (tool : Tool) (step : FlowStep) : Prop :=
  ∃ fallbackName toolName, step.onError = .fallback fallbackName ∧ executor.getTool fallbackName = .ok tool ∧
    toolName ∈ executor.runnable step ∧ executor.getTool toolName = .ok tool

theorem share_le (hself : ¬executor.FallsBackToItself tool step) (hdecided : Decided executor step step')
    (hname : step'.displayName? = some toolName) (htool : executor.getTool toolName = .ok invoked) :
    share tool invoked + executor.fallbackShare tool step'.onError ≤ 1 := by
  by_cases hinvoked : invoked = tool
  · subst hinvoked
    have hfallback : executor.fallbackShare invoked step'.onError = 0 := by
      rw [hdecided.onError]
      unfold fallbackShare
      split
      · next fallbackName hpolicy =>
        cases hget : executor.getTool fallbackName with
        | error e => rfl
        | ok other =>
          refine if_neg fun (heq : other = invoked) => hself ⟨fallbackName, toolName, hpolicy, ?_, ?_, htool⟩
          · rw [← heq]
            exact hget
          · exact hdecided.runnable _ (runnable_displayName executor hname)
      · rfl
    rw [hfallback, share, if_pos rfl]
  · have hbound : executor.fallbackShare tool step'.onError ≤ 1 := by
      unfold fallbackShare share
      repeat' split
      all_goals omega
    rw [share, if_neg hinvoked, Nat.zero_add]
    exact hbound

theorem executeStepIn_takes (hn : executor.NestedPaired nested) (hsuppresses : executor.Suppresses tool)
    (hself : ¬executor.FallsBackToItself tool step) (context : Dict) (cancellation : Cancellation) :
    (invoking tool).Takes 1 (executor.executeStepIn lane nested info step context cancellation) := by
  have hG := invoking_graded tool
  have hstep : ∀ step' decision lane, Decided executor step step' →
      (invoking tool).Takes 1 (executor.executeToolStep lane nested info step' decision context) :=
    fun step' decision lane hdecided => executeToolStep_takes hn hsuppresses _ _ _ fun toolName invoked hname htool =>
      share_le hself hdecided hname htool
  unfold executeStepIn
  cases htarget : step.target with
  | flow subName => exact hG.free (executeSubflowStep_takes hn _ _ _ _)
  | tool name =>
    have htool : ∀ subName, step.target ≠ .flow subName := fun subName hflow => nomatch htarget.symm.trans hflow
    cases lane with
    | async => exact hstep step none .async ⟨rfl, rfl, htool, fun _ => id⟩
    | sync =>
      refine takes_bind_uncalled (resolveDecision_uncalled htool) fun resolved hresolved => ?_
      cases resolved with
      | error record => exact hG.free (hG.pure _)
      | ok chosen => exact hstep _ _ _ (hresolved chosen.1 chosen.2 rfl)

/-- Under strict safety an execution of a step calls a tool that is not to be retried at
most once, unless the step falls back to that very tool. -/
theorem invoked_at_most_once (hsuppresses : executor.Suppresses tool) (hself : ¬executor.FallsBackToItself tool step)
    (hrun : (executor.executeStepIn lane (executor.lanes stack) info step context cancellation).Runs state events r
      state') : invocations tool events ≤ 1 :=
  (executeStepIn_takes ((enclosurePolicy_sound executor).obeyed stack) hsuppresses hself context cancellation _ _ _ _
    hrun).2

/-- A tool that moves money and another one that makes a note of the failure. -/
def charger : Executor := { Sample.executor [] [charging, Sample.tool "note"] with strictSafety := true }

def refusing (_ : Invocation) : Except Exc Value := .error (.other "ConnectionError" "reset")

def chargeInfo : StepInfo := { traceId := "0", flowName := "shop", stepIndex := 0, stepId := none }

/-- `charge` with a retry policy and a fallback, while no call succeeds. -/
def chargeRun (fallbackName : String) : List Event × (Except Exc StepRecord × RunScopedState) × Nat :=
  Interaction.Prog.exec (S := Effects) (Sample.answer refusing none) 0
    (charger.executeStepIn .sync (charger.lanes 0) chargeInfo
      { Sample.orElse fallbackName (Sample.step "charge") with retry := some { maxRetries := 3 } } .empty {} {})

theorem chargeRun_runs (fallbackName : String) :
    (charger.executeStepIn .sync (charger.lanes 0) chargeInfo
      { Sample.orElse fallbackName (Sample.step "charge") with retry := some { maxRetries := 3 } } .empty {}).Runs {}
      (chargeRun fallbackName).1 (chargeRun fallbackName).2.1.1 (chargeRun fallbackName).2.1.2 :=
  Interaction.Prog.exec_runs (S := Effects) (Sample.answer refusing none) 0 _

theorem charger_suppresses : charger.Suppresses charging := by
  unfold Suppresses
  decide +kernel

theorem invoked_at_most_once_note :
    (chargeRun "note").1.any (invokes charging) = true ∧ invocations charging (chargeRun "note").1 ≤ 1 := by
  refine ⟨by decide +kernel, invoked_at_most_once charger_suppresses ?_ (chargeRun_runs "note")⟩
  rintro ⟨fallbackName, toolName, hpolicy, hget, -, -⟩
  obtain rfl := OnError.fallback.inj hpolicy
  have hnote : charger.getTool "note" = .ok (Sample.tool "note") := rfl
  have hsame : Sample.tool "note" = charging := Except.ok.inj (hnote.symm.trans hget)
  exact absurd (congrArg Tool.name hsame) (by decide)

/-- The charge is its own fallback. -/
theorem charged_twice :
    charger.Suppresses charging ∧ (∃ r state',
      (charger.executeStepIn .sync (charger.lanes 0) chargeInfo
        { Sample.orElse "charge" (Sample.step "charge") with retry := some { maxRetries := 3 } } .empty {}).Runs {}
        (chargeRun "charge").1 r state') ∧ ¬invocations charging (chargeRun "charge").1 ≤ 1 :=
  ⟨charger_suppresses, ⟨_, _, chargeRun_runs "charge"⟩, by decide +kernel⟩

end ChainWeaver.Executor
