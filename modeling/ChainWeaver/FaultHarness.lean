import ChainWeaver.Data.SortedEntries
import ChainWeaver.Passthrough

/-!
# The fault harness

`FlowFuzzer` runs a flow on a clone of the executor whose tools pass their outputs
through a hook. The clone copies the settings it lists, which the safety settings
and the kernel are not among.
-/

namespace ChainWeaver.Executor

open Interaction (Prog)

/-- `with_replaced_tools`. The clone is a plain `FlowExecutor`. -/
def withReplacedTools (executor : Executor) (tools : List Tool) : Executor where
  platform := executor.platform
  registry := executor.registry
  tools := toolTable tools
  redact := executor.redact
  hasStepCache := executor.hasStepCache
  hasCheckpointer := executor.hasCheckpointer
  deleteOnSuccess := executor.deleteOnSuccess
  hasDecisionCallback := executor.hasDecisionCallback
  decisionPolicy := executor.decisionPolicy
  hasCostProfile := executor.hasCostProfile
  maxCompositionDepth := executor.maxCompositionDepth
  maxStepConcurrency := executor.maxStepConcurrency
  concurrency_pos := executor.concurrency_pos

/-- `_wrap_tool_with_fault` copies what `_wrap_for_logging` copies. -/
def wrapToolWithFault (tool : Tool) : Tool := wrapForLogging tool

/-- `registered_tools`. -/
def registeredTools (executor : Executor) : List Tool := executor.tools.entries.map Prod.snd

/-- The executor that `FlowFuzzer._execute` runs the flow on. -/
def faultExecutor (executor : Executor) : Executor :=
  executor.withReplacedTools (executor.registeredTools.map wrapToolWithFault)

/-- What the callable of the clone's tool answers when that of the tool answers
`reply`, under the identity hook: `dict(outputs)`. -/
def faultReply (dictOf : Value → Except Exc Value) (reply : Except Exc Value) : Except Exc Value :=
  reply.bind dictOf

/-- The event on the clone that stands for an event on the executor. -/
def faulted (dictOf : Value → Except Exc Value) : Event → Event
  | ⟨.callTool, invocation, reply⟩ => ⟨.callTool, invocation.rename wrapToolWithFault, faultReply dictOf reply⟩
  | e => e.rename (renameTools wrapToolWithFault)

/-- A callable that returns, returns a dict. -/
def GivesDict : Event → Prop
  | ⟨.callTool, _, .ok raw⟩ => ∃ entries, raw = .dict entries
  | _ => True

/-- No setting that the clone loses has anything to say about the tools. -/
structure Unwatched (executor : Executor) : Prop where
  kernel : executor.kernel = none
  guardrail : executor.hasGuardrailCallback = false
  plain : ∀ tool ∈ executor.registeredTools, tool.fn = .callable
  ceiling : ∀ tool ∈ executor.registeredTools,
    executor.maxSideEffectLevel.any (sideEffectExceeds tool.safety.sideEffects) = false
  approval : ∀ tool ∈ executor.registeredTools, tool.safety.requiresApproval = true →
    executor.hasApprovalCallback = false ∧ executor.strictSafety = false
  retry : ∀ tool ∈ executor.registeredTools, executor.strictSafety = true → retryDisallowedByContract tool = false

variable {executor : Executor}

theorem faulted_of_givesDict (hdict : ∀ entries, dictOf (.dict entries) = .ok (.dict entries)) (h : GivesDict e) :
    faulted dictOf e = e.rename (renameTools wrapToolWithFault) := by
  obtain ⟨kind, query, reply⟩ := e
  cases kind with
  | callTool =>
    cases reply with
    | error e => rfl
    | ok raw =>
      obtain ⟨entries, rfl⟩ := h
      simp [faulted, faultReply, Except.bind, hdict, Interaction.Event.rename, renameTools]
  | _ => rfl

/-- The executor, and its clone. Where the run is dry its tools have no effects. -/
def faultTwin (executor : Executor) : Twin where
  executor := executor
  tools := toolTable (executor.registeredTools.map wrapToolWithFault)
  settings := {}
  swap := wrapToolWithFault
  Inv state := state.dryRun = true → ∀ tool ∈ executor.registeredTools, tool.safety.sideEffecting = false
  A := GivesDict
  known _ := True
  listed _ := True

theorem faultTwin_other (h : executor.kernel = none) : executor.faultTwin.other = executor.faultExecutor := by
  cases executor
  cases h
  rfl

/-- A table whose tools are filed under their names holds the copies under the same
names. -/
theorem toolTable_copies {tools : OrderedDict Tool}
    (hnamed : ∀ name tool, tools.get? name = some tool → tool.name = name) :
    toolTable ((tools.entries.map Prod.snd).map wrapToolWithFault) = tools.mapValues wrapToolWithFault := by
  have hpairs : ∀ pairs : List (String × Tool), (∀ entry ∈ pairs, entry.2.name = entry.1) →
      toolTable ((pairs.map Prod.snd).map wrapToolWithFault) =
        .ofList (pairs.map fun entry => (entry.1, wrapToolWithFault entry.2)) := by
    intro pairs hpairs
    unfold toolTable OrderedDict.ofList
    rw [List.foldl_map, List.foldl_map, List.foldl_map]
    refine List.foldl_ext _ _ _ fun table entry hentry => ?_
    rw [← hpairs entry hentry]
    rfl
  rw [hpairs _ fun entry hentry => hnamed _ _ (OrderedDict.get?_eq_some_iff.2 hentry)]
  refine OrderedDict.ext_entries (OrderedDict.entries_ofList ?_)
  simpa [Function.comp_def] using tools.nodup

theorem get?_copies {tools : OrderedDict Tool}
    (hnamed : ∀ name tool, tools.get? name = some tool → tool.name = name) (name : String) :
    (toolTable ((tools.entries.map Prod.snd).map wrapToolWithFault)).get? name =
      (tools.get? name).map wrapToolWithFault := by
  rw [toolTable_copies hnamed]
  exact SortedEntries.lookup_map wrapToolWithFault tools.entries

theorem faultTwin_faithful (hnamed : ∀ name tool, executor.tools.get? name = some tool → tool.name = name)
    (h : executor.Unwatched) : executor.faultTwin.Faithful where
  stable state state' hdry hs := by
    intro h
    exact hs (hdry ▸ h)
  schemaHash name := by
    change ((toolTable ((executor.tools.entries.map Prod.snd).map wrapToolWithFault)).get? name).map _ = _
    rw [get?_copies hnamed, Option.map_map]
    rfl
  tool name tool _ hget := by
    refine ⟨(get?_copies hnamed name).trans (congrArg _ hget), ?_⟩
    have hmem : tool ∈ executor.registeredTools :=
      List.mem_map.2 ⟨(name, tool), OrderedDict.get?_eq_some_iff.1 hget, rfl⟩
    refine Twin.matches_copy rfl (h.plain tool hmem)
      (fun _ _ => evaluateSafetyGate_pass (h.ceiling tool hmem) (h.approval tool hmem)) h.guardrail.symm
      (fun state hs hdry => hs hdry tool hmem) ?_
    cases hstrict : executor.strictSafety with
    | false => exact Bool.and_eq_false_iff.2 (.inl hstrict)
    | true => exact Bool.and_eq_false_iff.2 (.inr (h.retry tool hmem hstrict))
  steps _ _ _ _ step _ := ⟨fun _ _ => trivial, fun _ _ => trivial, fun _ _ _ _ => trivial, fun _ _ => trivial⟩

/-- Under the identity hook the clone does what the executor does, if the settings it
loses have nothing to say about the tools. -/
theorem fault_transparent (hnamed : ∀ name tool, executor.tools.get? name = some tool → tool.name = name)
    (h : executor.Unwatched) (lane : Lane) (flowName : String) (input : Dict) (call : Call) (stack : Nat)
    (hdry : (call.dryRun || state.dryRun) = true →
      ∀ tool ∈ executor.registeredTools, tool.safety.sideEffecting = false)
    (dictOf : Value → Except Exc Value) (hdict : ∀ entries, dictOf (.dict entries) = .ok (.dict entries))
    (hrun : (executor.enter stack (executeIn lane flowName input call)).Runs state events r state')
    (hgives : ∀ e ∈ events, GivesDict e) :
    (executor.faultExecutor.enter stack (executeIn lane flowName input call)).Runs state
        (events.map (faulted dictOf)) r state' ∧ hooksOf (events.map (faulted dictOf)) = hooksOf events := by
  have hT := faultTwin_faithful hnamed h
  have hsteps : executor.faultTwin.StartsWithin flowName call :=
    fun flow _ step _ => ⟨fun _ _ => trivial, fun _ _ => trivial, fun _ _ _ _ => trivial, fun _ _ => trivial⟩
  have hs : executor.faultTwin.Inv state := fun hs => hdry (by rw [hs, Bool.or_true])
  have hsame : executor.faultTwin.Same (executor.enter stack (executeIn lane flowName input call))
      (executor.faultTwin.other.enter stack (executeIn lane flowName input call)) := by
    cases lane with
    | sync =>
      refine Twin.same_executeFlowWith hT (Twin.nestled_lanes hT stack) hsteps fun state hs => ?_
      cases hcall : call.dryRun with
      | true => exact fun _ => hdry (by rw [hcall, Bool.true_or])
      | false => exact Twin.enterSync_inv hT hcall hs
    | async => exact Twin.same_executeFlowAsyncWith hT (Twin.nestled_lanes hT stack) hsteps
  rw [List.map_congr_left fun e he => faulted_of_givesDict hdict (hgives e he)]
  refine ⟨?_, hooksOf_rename _ _⟩
  rw [← faultTwin_other h.kernel]
  exact hsame.runs_eq hs hgives hrun

-- A tool that waits for approval

/-- `dict` of a dict; of anything else it is taken to raise here. -/
def sampleDictOf : Value → Except Exc Value
  | .dict entries => .ok (.dict entries)
  | _ => .error (.other "TypeError" "object is not iterable")

def approvedTool (requiresApproval : Bool) : Tool :=
  { Sample.tool "a" with safety := { requiresApproval, readOnly_eq := SideEffectLevel.readOnly_none } }

def strictExecutor (requiresApproval : Bool) : Executor :=
  { passedExecutor (toolTable [approvedTool requiresApproval]) with strictSafety := true }

def strictRun (executor : Executor) : List Event × Except Exc ExecutionResult × RunScopedState :=
  Sample.run Sample.named none 0 (executor.enter 1 (executeIn .sync "f" .empty {}))

theorem strictRun_givesDict (h : e ∈ (strictRun executor).1) : GivesDict e := by
  obtain ⟨kind, query, reply⟩ := e
  cases kind with
  | callTool =>
    obtain ⟨_, hreply⟩ := Sample.run_answered h
    subst hreply
    exact ⟨_, rfl⟩
  | _ => trivial

theorem strictExecutor_named (h : (strictExecutor requiresApproval).tools.get? name = some tool) :
    tool.name = name := by
  have h : (toolTable [approvedTool requiresApproval]).get? name = some tool := h
  exact toolTable_name h

theorem fault_transparent_strict : ∃ events result,
    ((strictExecutor false).faultExecutor.enter 1 (executeIn .sync "f" .empty {})).Runs {} events (.ok result)
        (strictRun (strictExecutor false)).2.2 ∧ result.success = true := by
  have hreturns : (Sample.resultOf (strictRun (strictExecutor false))).isSome := by decide +kernel
  have hsuccess : (Sample.resultOf (strictRun (strictExecutor false))).map (·.success) = some true := by decide +kernel
  obtain ⟨result, hresult⟩ := Option.isSome_iff_exists.1 hreturns
  rw [hresult] at hsuccess
  have htools : ∀ tool ∈ (strictExecutor false).registeredTools, tool = approvedTool false := by
    intro tool htool
    simpa using (show tool ∈ [approvedTool false] from htool)
  have h : (strictExecutor false).Unwatched := by
    refine ⟨rfl, rfl, fun tool ht => ?_, fun tool ht => ?_, fun tool ht h => ?_, fun tool ht _ => ?_⟩
    all_goals obtain rfl := htools tool ht
    · rfl
    · rfl
    · cases h
    · rfl
  have hruns := fault_transparent (fun _ _ => strictExecutor_named) h .sync "f" .empty {} 1 (by simp)
    sampleDictOf (fun _ => rfl) (Sample.run_returns hresult) fun e he => strictRun_givesDict he
  exact ⟨_, result, hruns.1, Option.some.inj hsuccess⟩

theorem fault_skipped_approval :
    ¬∀ (executor : Executor) (lane : Lane) (flowName : String) (input : Dict) (call : Call) (stack : Nat)
      (dictOf : Value → Except Exc Value) (events : List Event) r state state',
      (∀ name tool, executor.tools.get? name = some tool → tool.name = name) →
      (∀ entries, dictOf (.dict entries) = .ok (.dict entries)) →
      (executor.enter stack (executeIn lane flowName input call)).Runs state events r state' →
      (executor.faultExecutor.enter stack (executeIn lane flowName input call)).Runs state
        (events.map (faulted dictOf)) r state' := by
  intro h
  have hrun := h (strictExecutor true) .sync "f" .empty {} 1 sampleDictOf _ _ {} _ (fun _ _ => strictExecutor_named)
    (fun _ => rfl) (Sample.run_runs Sample.named none 0 _)
  have hfaulted : (strictRun (strictExecutor true)).1.map (faulted sampleDictOf) =
      (strictRun (strictExecutor true)).1.map (·.rename (renameTools wrapToolWithFault)) :=
    List.map_congr_left fun e he => faulted_of_givesDict (fun _ => rfl) (strictRun_givesDict he)
  change Interaction.Comp.Runs _ _ ((strictRun (strictExecutor true)).1.map (faulted sampleDictOf)) _ _ at hrun
  rw [hfaulted] at hrun
  have hanswered := (Prog.exec_answers (S := Effects) (Sample.answer Sample.named none) 0
    ((strictExecutor true).enter 1 (executeIn .sync "f" .empty {}) {})).rename
    (answer_rename wrapToolWithFault (fun _ => rfl) none)
  have heq : (strictRun (strictExecutor true).faultExecutor).2 = (strictRun (strictExecutor true)).2 :=
    hanswered.exec hrun
  have houtputs : (Sample.resultOf (strictRun (strictExecutor true))).map (·.success) ≠
      (Sample.resultOf (strictRun (strictExecutor true).faultExecutor)).map (·.success) := by decide +kernel
  refine houtputs ?_
  unfold Sample.resultOf
  rw [heq]

end ChainWeaver.Executor
