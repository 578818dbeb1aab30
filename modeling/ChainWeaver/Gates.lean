import ChainWeaver.Sample
import ChainWeaver.TraceSets

/-!
# Gates in front of tools

Each call of a tool stands behind a passing safety gate and a passing input
guardrail, both asked in the same step about this tool on these inputs. The one
exception is a fallback tool: it passes the gate, but not the guardrail.
-/

namespace ChainWeaver.Executor

open Interaction (Always Closed Frame Justified Lasting Mixable Under)

variable (executor : Executor)

-- Clearance

/-- The approval callback has approved a tool for a step. -/
def Approves (traceId : String) (stepIndex : Int) (tool : Tool) (inputs : Dict) : Event → Prop
  | ⟨.approve, ctx, reply⟩ => reply = .ok (.decision .approve) ∧ ctx.traceId = traceId ∧
      ctx.stepIndex = stepIndex ∧ ctx.toolName = tool.name ∧ ctx.safety = tool.safety ∧
      ctx.inputs = executor.redacted inputs
  | _ => False

/-- The guardrail callback has let a tool through for a step. -/
def Passes (traceId : String) (stepIndex : Int) (tool : Tool) (inputs : Dict) : Event → Prop
  | ⟨.check, ctx, reply⟩ => reply = .ok () ∧ ctx.traceId = traceId ∧ ctx.stepIndex = stepIndex ∧
      ctx.toolName = tool.name ∧ ctx.inputs = executor.redacted inputs
  | _ => False

/-- The safety gate has been passed: the ceiling is kept, and a tool that needs
approval has it, as far as the executor asks for one. -/
structure Gated (before : List Event) (traceId : String) (stepIndex : Int) (tool : Tool) (inputs : Dict) :
    Prop where
  ceiling : executor.maxSideEffectLevel.any (sideEffectExceeds tool.safety.sideEffects) = false
  approved : tool.safety.requiresApproval = true → executor.hasApprovalCallback = true →
    ∃ e ∈ before, executor.Approves traceId stepIndex tool inputs e
  lenient : tool.safety.requiresApproval = true → executor.hasApprovalCallback = false →
    executor.strictSafety = false

/-- The input guardrail has been passed, if there is one. -/
def Guarded (before : List Event) (traceId : String) (stepIndex : Int) (tool : Tool) (inputs : Dict) : Prop :=
  executor.hasGuardrailCallback = true → ∃ e ∈ before, executor.Passes traceId stepIndex tool inputs e

/-- A tool is entered only behind its gates. -/
def Cleared (before : List Event) : Event → Prop
  | ⟨.probe, .invoke traceId stepIndex tool inputs, _⟩ =>
    executor.Gated before traceId stepIndex tool inputs ∧ executor.Guarded before traceId stepIndex tool inputs
  | _ => True

/-- A fallback tool is the step's own tool, or there is no guardrail. -/
def OwnFallback : Event → Prop
  | ⟨.probe, .fallback _ _ toolName fallbackName, _⟩ =>
    executor.hasGuardrailCallback = true → fallbackName = toolName
  | _ => True

/-- Neither a tool nor a fallback is entered. -/
def Calm : Event → Prop
  | ⟨.probe, .invoke .., _⟩ => False
  | ⟨.probe, .fallback .., _⟩ => False
  | _ => True

variable {executor}

theorem Gated.mono (hsub : first.Sublist second) (h : executor.Gated first traceId stepIndex tool inputs) :
    executor.Gated second traceId stepIndex tool inputs :=
  ⟨h.ceiling, fun hr hc => (h.approved hr hc).imp fun _ he => ⟨hsub.subset he.1, he.2⟩, h.lenient⟩

theorem Guarded.mono (hsub : first.Sublist second)
    (h : executor.Guarded first traceId stepIndex tool inputs) :
    executor.Guarded second traceId stepIndex tool inputs :=
  fun hg => (h hg).imp fun _ he => ⟨hsub.subset he.1, he.2⟩

theorem cleared_lasting (executor : Executor) : Lasting (S := Effects) executor.Cleared := by
  intro first second e hsub h
  unfold Cleared at h ⊢
  split
  · exact ⟨h.1.mono hsub, h.2.mono hsub⟩
  · trivial

/-- Behind `history`, every tool that is entered is cleared, as far as fallbacks
are the steps' own. -/
def Covered (executor : Executor) (history : List Event) : List Event → Prop :=
  Under executor.OwnFallback (Justified executor.Cleared history)

theorem covered_mixable (executor : Executor) (history : List Event) : Mixable (executor.Covered history) :=
  Under.mixable _ (Justified.mixable (cleared_lasting executor) history)

theorem Calm.cleared (h : Calm e) : executor.Cleared before e := by
  unfold Cleared
  split
  · exact h.elim
  · trivial

theorem Calm.single (h : Calm e) : executor.Covered history [e] :=
  fun _ => Justified.single h.cleared

theorem calm_justified (h : Always Calm events) : Justified executor.Cleared history events := by
  rintro before e after rfl
  exact (h e (by simp)).cleared

theorem Covered.behind (h : executor.Covered [] events) : executor.Covered history events :=
  fun hC => (h hC).behind (cleared_lasting executor)

theorem Covered.after (hfirst : Justified executor.Cleared history first)
    (h : executor.Covered (history ++ first) second) : executor.Covered history (first ++ second) :=
  fun hC => hfirst.append (h fun e he => hC e (List.mem_append_right _ he))

theorem calm_closed : Closed (Always Calm) := (Always.mixable Calm).toClosed

theorem Calm.always (h : Calm e) : Always Calm [e] := fun _ he => List.mem_singleton.1 he ▸ h

variable {Inv : RunScopedState → Prop} {lane : Lane} {nested : Nested} {info : StepInfo}

/-- A set that admits calm events admits a step, apart from its tools. -/
theorem calm_stepEvents (hT : Closed T) (h : ∀ e, Calm e → T [e]) : StepEvents Inv T lane info where
  closed := hT
  fault _ := h _ trivial
  approve _ _ _ _ _ := h _ trivial
  check _ _ _ _ _ := h _ trivial
  chunk _ _ := h _ trivial
  runDry _ _ _ := h _ trivial
  cacheGet _ _ _ := h _ trivial
  cacheSet _ _ _ := h _ trivial

-- Asking

/-- The gate asks calmly and does not raise; what it does not refuse is gated. -/
def GateQ (executor : Executor) (info : StepInfo) (tool : Tool) (inputs : Dict) :
    Except Exc (Option Exc × Option ApprovalRecord) → List Event → Prop
  | .ok (refusal, _), events => Always Calm events ∧
      (refusal = none → executor.Gated events info.traceId info.stepIndex tool inputs)
  | .error _, _ => False

theorem evaluateSafetyGate_gate :
    (frame Inv).From [] (executor.evaluateSafetyGate info tool inputs) (executor.GateQ info tool inputs) := by
  unfold evaluateSafetyGate
  dsimp only
  split
  · exact .pure ⟨calm_closed.nil, nofun⟩
  next hceiling =>
  rw [Bool.not_eq_true] at hceiling
  split
  · next hfree =>
    have hfree : tool.safety.requiresApproval = false := by simpa using hfree
    exact .pure ⟨calm_closed.nil, fun _ => ⟨hceiling, by simp [hfree], by simp [hfree]⟩⟩
  split
  · next hnone =>
    have hnone : executor.hasApprovalCallback = false := by simpa using hnone
    split
    · exact .pure ⟨calm_closed.nil, nofun⟩
    · next hlenient =>
      exact .pure ⟨calm_closed.nil, fun _ => ⟨hceiling, by simp [hnone], fun _ _ => by simpa using hlenient⟩⟩
  next hsome =>
  have hsome : executor.hasApprovalCallback = true := by simpa using hsome
  refine .ask_bind fun reply => ?_
  have hcalm : ∀ ctx, Always Calm [(⟨.approve, ctx, reply⟩ : Event)] := fun _ => Calm.always trivial
  split
  · exact .pure ⟨hcalm _, nofun⟩
  · exact .pure ⟨hcalm _, nofun⟩
  · exact .pure ⟨hcalm _, nofun⟩
  · exact .pure ⟨hcalm _, fun _ => ⟨hceiling, fun _ _ =>
      ⟨_, List.mem_singleton.2 rfl, rfl, rfl, rfl, rfl, rfl, rfl⟩, by simp [hsome]⟩⟩

/-- The guardrail asks calmly and does not raise; what it does not block is
guarded. -/
def GuardQ (executor : Executor) (info : StepInfo) (tool : Tool) (inputs : Dict) :
    Except Exc (Option Exc) → List Event → Prop
  | .ok violation, events => Always Calm events ∧
      (violation = none → executor.Guarded events info.traceId info.stepIndex tool inputs)
  | .error _, _ => False

theorem evaluateInputGuardrail_guard :
    (frame Inv).From [] (executor.evaluateInputGuardrail info tool inputs)
      (executor.GuardQ info tool inputs) := by
  unfold evaluateInputGuardrail
  dsimp only
  split
  · next hnone =>
    have hnone : executor.hasGuardrailCallback = false := by simpa using hnone
    exact .pure ⟨calm_closed.nil, fun _ => by simp [Guarded, hnone]⟩
  refine .ask_bind fun reply => ?_
  have hcalm : ∀ ctx, Always Calm [(⟨.check, ctx, reply⟩ : Event)] := fun _ => Calm.always trivial
  split
  · exact .pure ⟨hcalm _, fun _ _ => ⟨_, List.mem_singleton.2 rfl, rfl, rfl, rfl, rfl, rfl⟩⟩
  · exact .pure ⟨hcalm _, nofun⟩

-- Tools behind their gates

/-- Nested calls are covered themselves. -/
def NestedCovered (executor : Executor) (Inv : RunScopedState → Prop) (nested : Nested) : Prop :=
  ∀ lane flowName input cancellation, (frame Inv).Upholds (executor.Covered []) False
    (nested.entry lane flowName input cancellation) fun _ => True

theorem NestedCovered.call (hn : executor.NestedCovered Inv nested) (lane : Lane) (history : List Event) :
    (frame Inv).Upholds (executor.Covered history) origin.Leaves
      (nestedCall origin input (nested.entry lane flowName input cancellation)) fun _ => True := by
  have hT := covered_mixable executor history
  exact nestedCall_upholds (hn lane flowName input cancellation) fun raised events hevents =>
    hT.append (hT.append (Calm.single trivial) hevents.behind) (Calm.single trivial)

theorem callEvents_covered (hn : executor.NestedCovered Inv nested)
    (hgated : executor.Gated history info.traceId info.stepIndex tool inputs)
    (hguarded : executor.Guarded history info.traceId info.stepIndex tool inputs) :
    CallEvents executor Inv (executor.Covered history) nested info tool inputs where
  invoke _ := Justified.single ⟨hgated, hguarded⟩
  callTool _ _ := Calm.single trivial
  stream _ _ := Calm.single trivial
  nested _ _ _ _ _ _ := hn.call .sync history

/-- A fallback tool has its own gate. The guardrail has been asked about the tool
of the step only. -/
theorem runFallback_covered (hn : executor.NestedCovered Inv nested)
    (htool : executor.getTool toolName = .ok tool)
    (hguarded : executor.Guarded history info.traceId info.stepIndex tool inputs) :
    (frame Inv).Upholds (executor.Covered history) True
      (executor.runFallback lane nested info toolName fallbackName inputs record retryErrors)
      (Keeps record) := by
  suffices (frame Inv).From [] (executor.runFallback lane nested info toolName fallbackName inputs record
      retryErrors) fun r events =>
        executor.Covered history events ∧ (frame Inv).Settled True (Keeps record) r events from this
  have hcovered : ∀ {events}, Always Calm events → executor.Covered history events :=
    fun hcalm _ => calm_justified hcalm
  unfold runFallback
  dsimp only
  split
  · exact .pure ⟨hcovered calm_closed.nil, rfl⟩
  next fallback hfallback =>
  refine .bind evaluateSafetyGate_gate ?_ fun e _ h => h.elim
  rintro ⟨refusal, approval⟩ gate ⟨hcalm, hgated⟩
  dsimp only
  split
  · exact .pure ⟨hcovered hcalm, rfl⟩
  have hgated := hgated rfl
  refine .upholds_bind (dryDispatch_upholds (calm_stepEvents calm_closed fun _ => Calm.always))
    (fun dryRecord dry hdry hout => ?_) fun e dry hdry hm =>
      ⟨hcovered (calm_closed.append hcalm hdry), fun h => (hm h).right⟩
  have hcalm := calm_closed.append hcalm hdry
  cases dryRecord with
  | some dryRecord => exact .pure ⟨hcovered hcalm, hout.resolve_right nofun⟩
  | none =>
    refine .ask_bind fun _ => ?_
    by_cases hown : executor.OwnFallback
        (probeEvent (.fallback info.traceId info.stepIndex toolName fallbackName))
    · have hjustified : Justified executor.Cleared history (gate ++ dry ++ [probeEvent
          (.fallback info.traceId info.stepIndex toolName fallbackName)]) :=
        (calm_justified hcalm).append (.single trivial)
      have hcall : CallEvents executor Inv (executor.Covered (history ++ (gate ++ dry ++ [probeEvent
          (.fallback info.traceId info.stepIndex toolName fallbackName)]))) nested info fallback inputs := by
        refine callEvents_covered hn (hgated.mono ?_) fun hg => ?_
        · exact (((List.sublist_append_left _ _).trans (List.sublist_append_left _ _)).trans
            (List.sublist_append_right _ _))
        · obtain rfl : fallback = tool := by
            rw [hown hg, htool] at hfallback
            exact (Except.ok.inj hfallback).symm
          exact hguarded.mono (List.sublist_append_left _ _) hg
      refine .upholds_bind (runTool_upholds (covered_mixable executor _).toClosed hcall)
        (fun outcome body hbody _ => ?_) fun e body hbody hm =>
          ⟨.after hjustified hbody, fun h => (hm h).right⟩
      cases outcome <;> exact .pure ⟨.after hjustified hbody, rfl⟩
    · -- Someone else's tool, and a guardrail that is not asked about it.
      have hbad : ∀ events, executor.Covered history (gate ++ dry ++ [probeEvent
          (.fallback info.traceId info.stepIndex toolName fallbackName)] ++ events) :=
        fun _ hC => absurd (hC _ (by simp)) hown
      have hcall : CallEvents executor Inv (fun _ => True) nested info fallback inputs :=
        ⟨trivial, fun _ _ => trivial, fun _ _ => trivial, fun _ _ _ _ _ _ =>
          (hn.call .sync history).mono fun _ => trivial⟩
      refine .upholds_bind (runTool_upholds ⟨trivial, fun _ _ => trivial⟩ hcall)
        (fun outcome body hbody _ => ?_) fun e body hbody hm => ⟨hbad _, fun h => (hm h).right⟩
      cases outcome <;> exact .pure ⟨hbad _, rfl⟩

/-- A tool step, from its gate on. -/
theorem runToolStep_covered (hn : executor.NestedCovered Inv nested)
    (htool : executor.getTool toolName = .ok tool) :
    (frame Inv).Upholds (executor.Covered []) True
      (executor.runToolStep lane nested info step toolName tool inputs record) (Keeps record) := by
  suffices (frame Inv).From [] (executor.runToolStep lane nested info step toolName tool inputs record)
      fun r events => executor.Covered [] events ∧ (frame Inv).Settled True (Keeps record) r events from this
  have hcovered : ∀ {events}, Always Calm events → executor.Covered [] events :=
    fun hcalm _ => calm_justified hcalm
  unfold runToolStep
  refine .bind evaluateSafetyGate_gate ?_ fun e _ h => h.elim
  rintro ⟨refusal, approval⟩ gate ⟨hcalm, hgated⟩
  dsimp only
  split
  · exact .pure ⟨hcovered hcalm, rfl⟩
  have hgated := hgated rfl
  refine .bind evaluateInputGuardrail_guard.after ?_ ?_
  · rintro violation _ ⟨guard, rfl, hcalm', hguarded⟩
    have hcalm := calm_closed.append hcalm hcalm'
    split
    · exact .pure ⟨hcovered hcalm, rfl⟩
    -- Both gates are behind; the rest may enter the tool.
    have hgated := hgated.mono (List.sublist_append_left gate guard)
    have hguarded := (hguarded rfl).mono (List.sublist_append_right gate guard)
    have hT := (covered_mixable executor (gate ++ guard)).toClosed
    have hstep : ∀ lane, StepEvents Inv (executor.Covered (gate ++ guard)) lane info :=
      fun _ => calm_stepEvents hT fun _ => Calm.single
    have hcall := callEvents_covered hn hgated hguarded
    refine .upholds (dispatchTool_upholds (hstep lane) (fun _ => hcall) fun _ _ _ =>
      runFallback_covered hn htool hguarded) (fun _ _ hbody hk => ?_) fun _ _ hbody hm => ?_
    · exact ⟨.after (calm_justified hcalm) hbody, hk⟩
    · exact ⟨.after (calm_justified hcalm) hbody, fun h => (hm h).right⟩
  · rintro e _ ⟨guard, rfl, h⟩
    exact h.elim

-- Runs

def gatePolicy (executor : Executor) : Policy where
  executor := executor
  Inv _ := True
  I _ _ := executor.Covered []
  W _ _ _ := executor.Covered []

theorem gatePolicy_admits (executor : Executor) (lane : Lane) :
    executor.gatePolicy.Admits lane (executor.Covered []) where
  toClosed := (covered_mixable executor []).toClosed
  refused _ := Calm.single trivial
  scene flow run start origin := by
    have hT := covered_mixable executor []
    have hsteps : (executor.gatePolicy.scene lane flow run start origin).AdmitsSteps
        (executor.Covered []) :=
      { toClosed := hT.toClosed
        inside := fun _ hevents => hevents
        stepStart := fun _ => Calm.single trivial
        stepEnd := fun _ => Calm.single trivial
        unheard := fun _ => Calm.single trivial }
    refine ⟨hsteps, fun he => ?_, hsteps.strands hT, fun he => ?_, fun _ => Calm.single trivial,
      Calm.single trivial, Calm.single trivial, Calm.single trivial, Calm.single trivial, Calm.single trivial⟩
    all_goals cases he <;> exact Calm.single trivial
  newTraceId _ := Calm.single trivial
  flowStart _ _ _ := Calm.single trivial
  enter _ _ := Calm.single trivial
  load _ _ := Calm.single trivial

theorem gatePolicy_sound (executor : Executor) : executor.gatePolicy.Sound where
  stable := ⟨fun _ => trivial, fun _ => trivial⟩
  enter _ := trivial
  step {nested lane info} hn := by
    have hn : executor.NestedCovered (fun _ => True) nested := hn
    have hT := (covered_mixable executor []).toClosed
    exact
      { toStepEvents := calm_stepEvents hT fun _ => Calm.single
        decide := fun _ _ => Calm.single trivial
        decideTimed := fun _ _ => Calm.single trivial
        subInputs := fun _ _ _ _ => Calm.single trivial
        refused := fun _ _ _ => Calm.single trivial
        invoked := fun _ _ _ _ _ => hT.cons (Calm.single trivial) (Calm.single trivial)
        subFlow := fun _ _ _ _ _ _ _ => hn.call lane []
        toolStep := fun _ _ _ _ _ htool => runToolStep_covered hn htool }
  whole h := (gatePolicy_admits executor _).called h

/-- Every call of a tool's callable stands behind a passing gate and a passing
guardrail for this tool and these inputs, in every run in which the fallback tools
are the steps' own. -/
theorem enter_cleared (executor : Executor) (stack : Nat) (entry : EntryPoint)
    (hrun : (executor.enter stack entry).Runs state events r state')
    (hown : ∀ e ∈ events, executor.OwnFallback e)
    (before : List Event) (after : List Event) (tool : Tool) (inputs : Dict)
    (hevents : events = before ++ probeEvent (.invoke traceId stepIndex tool inputs) :: after) :
    executor.Gated before traceId stepIndex tool inputs ∧
      executor.Guarded before traceId stepIndex tool inputs :=
  Policy.Admits.entered (gatePolicy_admits executor)
    (enter_entered (gatePolicy_sound executor) (fun _ => trivial) hrun) hown before _ after hevents

-- A fallback that nobody checked

/-- A step whose tool fails and hands over to another one. -/
def fallbackFlow : Flow :=
  { name := "f", steps := [Sample.orElse "b" (Sample.step "a")] }

def guardedExecutor : Executor :=
  { Sample.executor [.linear fallbackFlow] [Sample.tool "a", Sample.tool "b"] with
    hasGuardrailCallback := true }

/-- Tool `a` fails, any other tool answers. -/
def failing (invocation : Invocation) : Except Exc Value :=
  if invocation.tool.name = "a" then .error (.flowExecution "a" 0 "boom") else Sample.named invocation

def guardedRun (fn : Invocation → Except Exc Value) : List Event × Except Exc ExecutionResult × RunScopedState :=
  Sample.run fn none 0 (guardedExecutor.enter 1 (.execute "f" .empty {}))

def entersTool (toolName : String) : Event → Bool
  | ⟨.probe, .invoke _ _ tool _, _⟩ => tool.name = toolName
  | _ => false

def checksTool (toolName : String) : Event → Bool
  | ⟨.check, ctx, _⟩ => ctx.toolName = toolName
  | _ => false

def fallsBack : Event → Bool
  | ⟨.probe, .fallback .., _⟩ => true
  | _ => false

theorem entersTool_iff : entersTool toolName e = true ↔
    ∃ traceId stepIndex tool inputs, e = probeEvent (.invoke traceId stepIndex tool inputs) ∧
      tool.name = toolName := by
  constructor
  · intro h
    unfold entersTool at h
    split at h
    · exact ⟨_, _, _, _, rfl, by simpa using h⟩
    · cases h
  · rintro ⟨_, _, _, _, rfl, h⟩
    simpa [entersTool] using h

/-- A check that lets a tool through is a check of that tool. -/
theorem Passes.checksTool (h : executor.Passes traceId stepIndex tool inputs e) : checksTool tool.name e = true := by
  unfold Passes at h
  split at h
  · simp [Executor.checksTool, h.2.2.2.1]
  · exact h.elim

theorem not_fallsBack (h : fallsBack e = false) : executor.OwnFallback e := by
  unfold OwnFallback
  split
  · simp [fallsBack] at h
  · trivial

theorem enter_cleared_guarded : ∃ before traceId stepIndex tool inputs after,
    (guardedRun Sample.named).1 = before ++ probeEvent (.invoke traceId stepIndex tool inputs) :: after ∧
      guardedExecutor.Gated before traceId stepIndex tool inputs ∧
        guardedExecutor.Guarded before traceId stepIndex tool inputs := by
  have henters : (guardedRun Sample.named).1.any (entersTool "a") = true := by decide +kernel
  have hcalm : (guardedRun Sample.named).1.any fallsBack = false := by decide +kernel
  obtain ⟨e, he, henters⟩ := List.any_eq_true.1 henters
  obtain ⟨traceId, stepIndex, tool, inputs, rfl, -⟩ := entersTool_iff.1 henters
  obtain ⟨before, after, heq⟩ := List.append_of_mem he
  exact ⟨before, traceId, stepIndex, tool, inputs, after, heq,
    enter_cleared guardedExecutor 1 (.execute "f" .empty {}) (Sample.run_runs Sample.named none 0 _)
      (fun e he => not_fallsBack (by simpa using List.any_eq_false.1 hcalm e he)) before after tool inputs heq⟩

theorem fallback_unguarded :
    ¬∀ (executor : Executor) (stack : Nat) (entry : EntryPoint) (events : List Event) r state',
      (executor.enter stack entry).Runs {} events r state' →
        ∀ before after traceId stepIndex tool inputs,
          events = before ++ probeEvent (.invoke traceId stepIndex tool inputs) :: after →
            executor.Gated before traceId stepIndex tool inputs ∧
              executor.Guarded before traceId stepIndex tool inputs := by
  intro h
  have henters : (guardedRun failing).1.any (entersTool "b") = true := by decide +kernel
  have hchecks : (guardedRun failing).1.any (checksTool "b") = false := by decide +kernel
  obtain ⟨e, he, henters⟩ := List.any_eq_true.1 henters
  obtain ⟨traceId, stepIndex, tool, inputs, rfl, hname⟩ := entersTool_iff.1 henters
  obtain ⟨before, after, heq⟩ := List.append_of_mem he
  obtain ⟨e, hbefore, hpasses⟩ := (h guardedExecutor 1 (.execute "f" .empty {}) _ _ _
    (Sample.run_runs failing none 0 _) before after traceId stepIndex tool inputs heq).2 rfl
  have hmem : e ∈ (guardedRun failing).1 := heq ▸ List.mem_append_left _ hbefore
  exact absurd (hname ▸ hpasses.checksTool) (by simpa using List.any_eq_false.1 hchecks e hmem)

end ChainWeaver.Executor
