import ChainWeaver.Drift
import ChainWeaver.TwinRuns

/-!
# Tools behind the test runner

`FlowTestRunner.passthrough_tool` registers a copy of a tool that logs its calls.
The copy has the schemas, the guard rails and the cacheable flag of the original,
and neither its safety contract nor its dry-run callable.
-/

namespace ChainWeaver.Executor

open Interaction (Prog)

/-- `_wrap_for_logging`: the callable of the copy logs the call and goes on to that
of the original, be it a drained stream or a wrapped flow. -/
def wrapForLogging (tool : Tool) : Tool where
  name := tool.name
  inputSchema := tool.inputSchema
  outputSchema := tool.outputSchema
  fn := .callable
  maxOutputSize := tool.maxOutputSize
  cacheable := tool.cacheable
  safety := { cacheable := tool.cacheable, readOnly_eq := SideEffectLevel.readOnly_none }
  schemaHash := tool.schemaHash
  dryRun_supplied h := by cases h

/-- `passthrough_tool`, as far as the tool table of the runner's executor goes. -/
def passthroughTool (tools : OrderedDict Tool) (tool : Tool) : OrderedDict Tool :=
  registerTool tools (wrapForLogging tool)

/-- An executor with the tools. -/
def withTools (executor : Executor) (tools : OrderedDict Tool) : Executor := { executor with tools }

/-- No gate, no retry policy and no dry run of the executor looks at what the copy
of the tool leaves out. -/
structure Unguarded (executor : Executor) (tool : Tool) : Prop where
  plain : tool.fn = .callable
  readOnly : tool.safety.sideEffecting = false
  ceiling : executor.maxSideEffectLevel.any (sideEffectExceeds tool.safety.sideEffects) = false
  approval : tool.safety.requiresApproval = true →
    executor.hasApprovalCallback = false ∧ executor.strictSafety = false
  retry : executor.strictSafety = true → retryDisallowedByContract tool = false

/-- The middleware hooks that a trace fires. -/
def hooksOf (events : List Event) : List Hook :=
  events.filterMap fun e =>
    match e with
    | ⟨.hook, hook, _⟩ => some hook
    | _ => none

theorem hooksOf_rename (swap : Tool → Tool) (events : List Event) :
    hooksOf (events.map (·.rename (renameTools swap))) = hooksOf events := by
  unfold hooksOf
  rw [List.filterMap_map]
  refine List.filterMap_congr fun e _ => ?_
  obtain ⟨kind, query, reply⟩ := e
  cases kind <;> rfl

-- Tools that the settings treat alike

namespace Twin

variable {T : Twin} {tool : Tool}

theorem same_safetyGate (hsettings : T.settings = T.executor.settings) (hname : (T.swap tool).name = tool.name)
    (hsafety : (T.swap tool).safety = tool.safety) :
    T.Same (T.executor.evaluateSafetyGate info tool inputs)
      (T.other.evaluateSafetyGate info (T.swap tool) inputs) := by
  have hlevel : T.other.maxSideEffectLevel = T.executor.maxSideEffectLevel :=
    congrArg Settings.maxSideEffectLevel hsettings
  have hcallback : T.other.hasApprovalCallback = T.executor.hasApprovalCallback :=
    congrArg Settings.hasApprovalCallback hsettings
  have hstrict : T.other.strictSafety = T.executor.strictSafety := congrArg Settings.strictSafety hsettings
  unfold evaluateSafetyGate
  rw [hname, hsafety, hlevel, hcallback, hstrict]
  dsimp only
  split
  · exact .pure rfl
  split
  · exact .pure rfl
  split
  · split <;> exact .pure rfl
  refine .bind (same_perform rfl) fun reply => ?_
  split <;> exact .pure rfl

theorem same_inputGuardrail (hguardrail : T.settings.hasGuardrailCallback = T.executor.hasGuardrailCallback)
    (hname : (T.swap tool).name = tool.name) :
    T.Same (T.executor.evaluateInputGuardrail info tool inputs)
      (T.other.evaluateInputGuardrail info (T.swap tool) inputs) := by
  unfold evaluateInputGuardrail
  rw [hname, show T.other.hasGuardrailCallback = T.settings.hasGuardrailCallback from rfl, hguardrail]
  split
  · exact .pure rfl
  refine .bind (same_perform rfl) fun reply => ?_
  split <;> exact .pure rfl

/-- A tool that is what it was is treated as it was. -/
theorem matches_of_swap (hsettings : T.settings = T.executor.settings) (hswap : T.swap tool = tool)
    (hlisted : ∀ flowName toolName stepCount, tool.fn = .flow flowName toolName stepCount → T.listed flowName) :
    T.Matches tool where
  name := by rw [hswap]
  inputSchema := by rw [hswap]
  outputSchema := by rw [hswap]
  fn := by rw [hswap]
  maxOutputSize := by rw [hswap]
  cacheable := by rw [hswap]
  schemaHash := by rw [hswap]
  listed := hlisted
  gate _ _ := same_safetyGate hsettings (by rw [hswap]) (by rw [hswap])
  guardrail _ _ := same_inputGuardrail (by rw [hsettings]; rfl) (by rw [hswap])
  dryDispatch lane info toolName inputs record := by
    unfold dryDispatch dryRunStep runDry
    rw [hswap]
    refine .get_bind fun state _ => ?_
    split
    · split
      · exact .pure rfl
      split
      · refine .bind ?_ fun outcome => ?_
        · rw [show T.other.platform = T.executor.platform from rfl]
          split
          · exact .pure rfl
          · exact .bind (same_perform (by rw [renameTools, Invocation.rename, hswap])) fun raw => .pure rfl
        · cases outcome <;> exact .pure rfl
      · refine .get_bind fun state _ => ?_
        split <;> exact .pure rfl
    · exact .pure rfl
  retry := by
    rw [hswap, show T.other.strictSafety = T.settings.strictSafety from rfl, hsettings]
    rfl

end Twin

-- Runs of the runner

/-- The copy for the tool that is passed through, and any other tool as it is. -/
def loggedAs (tool other : Tool) : Tool := if other = tool then wrapForLogging tool else other

/-- An executor with the tool, and the executor of a runner it is passed through to. -/
def passthroughTwin (executor : Executor) (others : List Tool) (tool : Tool) : Twin where
  executor := executor.withTools (toolTable (others ++ [tool]))
  tools := passthroughTool (toolTable others) tool
  settings := executor.settings
  swap := loggedAs tool
  Inv _ := True
  A _ := True
  known _ := True
  listed _ := True

variable {executor : Executor} {others : List Tool} {tool : Tool}

/-- A gate that has nothing to refuse passes without a question. -/
theorem evaluateSafetyGate_pass
    (hceiling : executor.maxSideEffectLevel.any (sideEffectExceeds tool.safety.sideEffects) = false)
    (happroval : tool.safety.requiresApproval = true →
      executor.hasApprovalCallback = false ∧ executor.strictSafety = false) :
    executor.evaluateSafetyGate info tool inputs = pure (none, none) := by
  unfold evaluateSafetyGate
  dsimp only
  rw [hceiling]
  cases happ : tool.safety.requiresApproval with
  | false => rfl
  | true =>
    obtain ⟨hcallback, hstrict⟩ := happroval happ
    rw [hcallback, hstrict]
    rfl

theorem not_exceeds_none (ceiling : Option SideEffectLevel) : ceiling.any (sideEffectExceeds .none) = false := by
  cases ceiling with
  | none => rfl
  | some ceiling => cases ceiling <;> rfl

theorem dryDispatch_readOnly (h : state.dryRun = true → tool.safety.sideEffecting = false) :
    (executor.dryDispatch lane info toolName tool inputs record) state =
      (pure none : Exec (Option StepRecord)) state := by
  unfold dryDispatch dryRunStep
  change (if lane = .sync && state.dryRun then _ else _ : Exec (Option StepRecord)) state = _
  split
  · next hdry =>
    rw [Bool.and_eq_true] at hdry
    rw [h hdry.2]
    rfl
  · rfl

/-- The copy of a tool is treated as the tool where nobody looks at what it leaves
out. -/
theorem Twin.matches_copy {T : Twin} (hswap : T.swap tool = wrapForLogging tool) (hplain : tool.fn = .callable)
    (hgate : ∀ info inputs, T.executor.evaluateSafetyGate info tool inputs = pure (none, none))
    (hguardrail : T.settings.hasGuardrailCallback = T.executor.hasGuardrailCallback)
    (hdry : ∀ state, T.Inv state → state.dryRun = true → tool.safety.sideEffecting = false)
    (hretry : (T.executor.strictSafety && retryDisallowedByContract tool) = false) : T.Matches tool where
  name := by rw [hswap]; rfl
  inputSchema := by rw [hswap]; rfl
  outputSchema := by rw [hswap]; rfl
  fn := by rw [hswap, hplain]; rfl
  maxOutputSize := by rw [hswap]; rfl
  cacheable := by rw [hswap]; rfl
  schemaHash := by rw [hswap]; rfl
  listed _ _ _ hfn := by rw [hplain] at hfn; cases hfn
  gate info inputs := by
    rw [hswap, hgate, evaluateSafetyGate_pass (not_exceeds_none _) fun h => by cases h]
    exact .pure rfl
  guardrail info inputs := Twin.same_inputGuardrail hguardrail (by rw [hswap]; rfl)
  dryDispatch lane info toolName inputs record := by
    intro state hs
    rw [hswap, dryDispatch_readOnly (hdry state hs), dryDispatch_readOnly fun _ => rfl]
    exact (Interaction.Pairing.Lockstep.pure rfl : T.Same (pure none) (pure none)) state hs
  retry := by
    rw [hswap, hretry]
    simp [retryDisallowedByContract, wrapForLogging]

theorem wrapForLogging_matches (h : executor.Unguarded tool) :
    (executor.passthroughTwin others tool).Matches tool := by
  refine Twin.matches_copy (if_pos rfl) h.plain (fun _ _ => evaluateSafetyGate_pass h.ceiling h.approval) rfl
    (fun _ _ _ => h.readOnly) ?_
  cases hstrict : executor.strictSafety with
  | false => exact Bool.and_eq_false_iff.2 (.inl hstrict)
  | true => exact Bool.and_eq_false_iff.2 (.inr (h.retry hstrict))

theorem toolTable_append_get? : (toolTable (others ++ [tool])).get? name =
    if name = tool.name then some tool else (toolTable others).get? name := by
  rw [toolTable_append]
  exact OrderedDict.get?_insert _

theorem passthroughTwin_faithful (others : List Tool) (h : executor.Unguarded tool) :
    (executor.passthroughTwin others tool).Faithful where
  stable _ _ _ _ := trivial
  schemaHash name := by
    change ((toolTable others).insert tool.name (wrapForLogging tool) |>.get? name).map _ =
      ((toolTable (others ++ [tool])).get? name).map _
    rw [toolTable_append_get?, OrderedDict.get?_insert]
    split <;> rfl
  tool name found _ hget := by
    have hget : (toolTable (others ++ [tool])).get? name = some found := hget
    change ((toolTable others).insert tool.name (wrapForLogging tool)).get? name = _ ∧ _
    rw [OrderedDict.get?_insert]
    have hname := toolTable_name hget
    rw [toolTable_append_get?] at hget
    split at hget
    · next heq =>
      obtain rfl := Option.some.inj hget
      rw [if_pos heq]
      exact ⟨congrArg some (if_pos rfl).symm, wrapForLogging_matches h⟩
    · next hne =>
      have hother : (executor.passthroughTwin others tool).swap found = found :=
        if_neg fun heq : found = tool => hne (heq ▸ hname.symm)
      rw [if_neg hne, hget, hother]
      exact ⟨rfl, Twin.matches_of_swap rfl hother fun _ _ _ _ => trivial⟩
  steps _ _ _ _ step _ := ⟨fun _ _ => trivial, fun _ _ => trivial, fun _ _ _ _ => trivial, fun _ _ => trivial⟩

/-- A runner does what an executor with the original tool does, hook for hook, if no
setting looks at what the copy leaves out. -/
theorem passthrough_transparent (h : executor.Unguarded tool) (lane : Lane) (flowName : String) (input : Dict)
    (call : Call) (stack : Nat) :
    (∀ events r, ((executor.withTools (passthroughTool (toolTable others) tool)).enter stack
        (executeIn lane flowName input call)).Runs state events r state' ↔
      ∃ original, events = original.map (·.rename (renameTools (loggedAs tool))) ∧
        ((executor.withTools (toolTable (others ++ [tool]))).enter stack
          (executeIn lane flowName input call)).Runs state original r state') ∧
      ∀ original : List Event,
        hooksOf (original.map (·.rename (renameTools (loggedAs tool)))) = hooksOf original := by
  refine ⟨fun events r => ?_, hooksOf_rename _⟩
  have hT := passthroughTwin_faithful others h
  have hsteps : (executor.passthroughTwin others tool).StartsWithin flowName call :=
    fun flow _ step _ => ⟨fun _ _ => trivial, fun _ _ => trivial, fun _ _ _ _ => trivial, fun _ _ => trivial⟩
  have hsame : (executor.passthroughTwin others tool).Same
      ((executor.withTools (toolTable (others ++ [tool]))).enter stack (executeIn lane flowName input call))
      ((executor.withTools (passthroughTool (toolTable others) tool)).enter stack
        (executeIn lane flowName input call)) := by
    cases lane with
    | sync => exact Twin.same_executeFlowWith hT (Twin.nestled_lanes hT stack) hsteps fun _ _ => trivial
    | async => exact Twin.same_executeFlowAsyncWith hT (Twin.nestled_lanes hT stack) hsteps
  exact hsame.runs_iff trivial fun _ => trivial

-- A side-effecting tool behind the runner

def passedTool (level : SideEffectLevel) : Tool :=
  { Sample.tool "a" with safety := { sideEffects := level } }

def passedFlow : Flow := { name := "f", steps := [Sample.step "a"] }

def passedExecutor (tools : OrderedDict Tool) : Executor := (Sample.executor [.linear passedFlow] []).withTools tools

def passedRun (tools : OrderedDict Tool) (call : Call) : List Event × Except Exc ExecutionResult × RunScopedState :=
  Sample.run Sample.named none 0 ((passedExecutor tools).enter 1 (executeIn .sync "f" .empty call))

theorem loggedAs_name : (loggedAs tool other).name = other.name := by
  unfold loggedAs
  split
  · next heq => rw [heq]; rfl
  · rfl

/-- Tools that answer by their names answer for the copies as well. -/
theorem answer_rename (swap : Tool → Tool) (hname : ∀ tool, (swap tool).name = tool.name)
    (saved : Option ExecutionSnapshot) (drawn : Nat) (kind : EffectKind) (query : kind.Query) :
    Sample.answer Sample.named saved drawn kind (renameTools swap kind query) =
      Sample.answer Sample.named saved drawn kind query := by
  cases kind with
  | callTool => simp [Sample.answer, renameTools, Invocation.rename, Sample.named, hname]
  | _ => rfl

theorem passthrough_transparent_plain : ∃ events result,
    ((passedExecutor (passthroughTool (toolTable []) (passedTool .none))).enter 1
        (executeIn .sync "f" .empty {})).Runs {} events (.ok result)
        (passedRun (toolTable [passedTool .none]) {}).2.2 ∧
      result.success = true := by
  have hreturns : (Sample.resultOf (passedRun (toolTable [passedTool .none]) {})).isSome := by decide +kernel
  have hsuccess : (Sample.resultOf (passedRun (toolTable [passedTool .none]) {})).map (·.success) = some true := by
    decide +kernel
  obtain ⟨result, hresult⟩ := Option.isSome_iff_exists.1 hreturns
  rw [hresult] at hsuccess
  have h : (Sample.executor [.linear passedFlow] []).Unguarded (passedTool .none) :=
    ⟨rfl, rfl, rfl, nofun, fun _ => rfl⟩
  exact ⟨_, result, ((passthrough_transparent h .sync "f" .empty {} 1).1 _ _).2 ⟨_, rfl, Sample.run_returns hresult⟩,
    Option.some.inj hsuccess⟩

theorem passthrough_ran_dry :
    ¬∀ (executor : Executor) (others : List Tool) (tool : Tool) (lane : Lane) (flowName : String) (input : Dict)
      (call : Call) (stack : Nat) (events : List Event) r state state',
      ((executor.withTools (toolTable (others ++ [tool]))).enter stack (executeIn lane flowName input call)).Runs
        state events r state' →
      ((executor.withTools (passthroughTool (toolTable others) tool)).enter stack
        (executeIn lane flowName input call)).Runs state (events.map (·.rename (renameTools (loggedAs tool)))) r
        state' := by
  intro h
  have hrun := h (passedExecutor .empty) [] (passedTool .write) .sync "f" .empty { dryRun := true } 1 _ _ {} _
    (Sample.run_runs Sample.named none 0 _)
  have hanswered := (Prog.exec_answers (S := Effects) (Sample.answer Sample.named none) 0
    ((passedExecutor (toolTable [passedTool .write])).enter 1
      (executeIn .sync "f" .empty { dryRun := true }) {})).rename (answer_rename (loggedAs (passedTool .write)) (fun _ => loggedAs_name) none)
  have heq : (passedRun (passthroughTool .empty (passedTool .write)) { dryRun := true }).2 =
      (passedRun (toolTable [passedTool .write]) { dryRun := true }).2 := hanswered.exec hrun
  have houtputs : (Sample.resultOf (passedRun (toolTable [passedTool .write]) { dryRun := true })).map
      (fun result => result.finalOutput.map (·.contains "a")) ≠
      (Sample.resultOf (passedRun (passthroughTool .empty (passedTool .write)) { dryRun := true })).map
        (fun result => result.finalOutput.map (·.contains "a")) := by decide +kernel
  refine houtputs ?_
  unfold Sample.resultOf
  rw [heq]

end ChainWeaver.Executor
