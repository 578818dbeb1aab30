import ChainWeaver.Sample
import ChainWeaver.TraceSets

/-!
# Tool drift between a run and its resume

A snapshot keeps the schema hashes of its flow's step tools, and a resume checks
them. The tools a run can reach beyond these, through `on_error`, candidates and
sub-flows, nobody checks.
-/

namespace ChainWeaver.Executor

open Interaction (Always)

-- Registration

/-- `register_tool`, as far as the tool table goes. -/
def registerTool (tools : OrderedDict Tool) (tool : Tool) : OrderedDict Tool := tools.insert tool.name tool

/-- The table after the tools have been registered in turn. -/
def toolTable (registered : List Tool) : OrderedDict Tool := registered.foldl registerTool .empty

theorem toolTable_append : toolTable (before ++ after) = after.foldl registerTool (toolTable before) :=
  List.foldl_append

/-- A table knows its tools by their names. -/
theorem toolTable_name (h : (toolTable registered).get? name = some tool) : tool.name = name := by
  have hfold : ∀ (rest : List Tool) (tools : OrderedDict Tool),
      (∀ name tool, tools.get? name = some tool → tool.name = name) →
        ∀ name tool, (rest.foldl registerTool tools).get? name = some tool → tool.name = name := by
    intro rest
    induction rest with
    | nil => exact fun _ h => h
    | cons first rest ih =>
      refine fun tools htools => ih _ fun name tool hget => ?_
      rw [registerTool, OrderedDict.get?_insert] at hget
      split at hget
      · next heq =>
        obtain rfl := Option.some.inj hget
        exact heq.symm
      · exact htools _ _ hget
  exact hfold registered .empty (by simp) name tool h

-- Hashes

/-- What a snapshot keeps is the fingerprint of a registered tool. -/
theorem toolSchemaHashes_get? {executor : Executor}
    (hhashes : ∀ name fingerprint, hashes.get? name = some fingerprint →
      ∃ tool, executor.tools.get? name = some tool ∧ tool.schemaHash = fingerprint)
    (h : executor.toolSchemaHashes steps hashes = .ok saved) (hget : saved.get? name = some fingerprint) :
    ∃ tool, executor.tools.get? name = some tool ∧ tool.schemaHash = fingerprint := by
  induction steps generalizing hashes with
  | nil =>
    obtain rfl := Except.ok.inj h
    exact hhashes name fingerprint hget
  | cons step rest ih =>
    unfold toolSchemaHashes at h
    split at h
    · cases h
    next stepName _ =>
    split at h
    · next tool htool =>
      refine ih (fun name fingerprint hget => ?_) h
      rw [OrderedDict.get?_insert] at hget
      split at hget
      · next heq => exact ⟨tool, heq ▸ htool, Option.some.inj hget⟩
      · exact hhashes name fingerprint hget
    · exact ih hhashes h

theorem hashDrift_none {executor : Executor} (h : executor.hashDrift entries = none)
    (hmem : (name, fingerprint) ∈ entries) : ∃ tool, executor.tools.get? name = some tool ∧ tool.schemaHash = fingerprint := by
  induction entries with
  | nil => cases hmem
  | cons entry rest ih =>
    obtain ⟨toolName, snapHash⟩ := entry
    unfold hashDrift at h
    split at h
    · cases h
    next tool htool =>
    split at h
    · cases h
    next hsame =>
    rcases List.mem_cons.1 hmem with heq | hmem
    · obtain ⟨rfl, rfl⟩ := Prod.mk.inj heq
      exact ⟨tool, htool, by simpa using hsame⟩
    · exact ih h hmem

theorem checkSnapshot_ok {executor : Executor} (h : executor.checkSnapshot traceId snapshot = .ok flow) :
    executor.registry.getFlow snapshot.flowName none = .ok flow ∧
      executor.hashDrift snapshot.toolSchemaHashes.entries = none := by
  unfold checkSnapshot at h
  cases hflow : executor.registry.getFlow snapshot.flowName none with
  | error e =>
    simp only [hflow, bind, Except.bind, throw, throwThe, MonadExceptOf.throw] at h
    split at h <;> cases h
  | ok found =>
    simp only [hflow, bind, Except.bind, pure, Except.pure, throw, throwThe, MonadExceptOf.throw] at h
    split at h
    · cases h
    · split at h
      · cases h
      · split at h
        · cases h
        · next hdrift => exact ⟨h, hdrift⟩

theorem checkSnapshot_hashes {executor : Executor} (h : executor.checkSnapshot traceId snapshot = .ok flow)
    (hget : snapshot.toolSchemaHashes.get? name = some fingerprint) :
    ∃ tool, executor.tools.get? name = some tool ∧ tool.schemaHash = fingerprint :=
  hashDrift_none (checkSnapshot_ok h).2 (OrderedDict.get?_eq_some_iff.1 hget)

-- Runs

/-- The tool whose callable is about to be entered. -/
def entered : Event → Option Tool
  | ⟨.probe, .invoke _ _ tool _, _⟩ => some tool
  | _ => none

/-- Only registered tools are entered. -/
def FromTable (executor : Executor) (e : Event) : Prop :=
  ∀ tool, entered e = some tool → ∃ name, executor.getTool name = .ok tool

theorem FromTable.idle {executor : Executor} (h : entered e = none) : Always executor.FromTable [e] :=
  fun _ he _ ht => nomatch (List.mem_singleton.1 he ▸ h).symm.trans ht

def tablePolicy (executor : Executor) : Policy where
  executor := executor
  Inv _ := True
  I _ _ := Always executor.FromTable
  W _ _ _ := Always executor.FromTable

theorem tablePolicy_admits (executor : Executor) (lane : Lane) :
    executor.tablePolicy.Admits lane (Always executor.FromTable) where
  toClosed := (Always.mixable executor.FromTable).toClosed
  refused _ := .idle rfl
  scene flow run start origin := by
    have hT := Always.mixable executor.FromTable
    have hsteps : (executor.tablePolicy.scene lane flow run start origin).AdmitsSteps
        (Always executor.FromTable) :=
      { toClosed := hT.toClosed
        inside := fun _ hevents => hevents
        stepStart := fun _ => .idle rfl
        stepEnd := fun _ => .idle rfl
        unheard := fun _ => .idle rfl }
    refine ⟨hsteps, fun he => ?_, hsteps.strands hT, fun he => ?_, fun _ => .idle rfl, .idle rfl, .idle rfl,
      .idle rfl, .idle rfl, .idle rfl⟩
    all_goals cases he <;> exact .idle rfl
  newTraceId _ := .idle rfl
  flowStart _ _ _ := .idle rfl
  enter _ _ := .idle rfl
  load _ _ := .idle rfl

theorem tablePolicy_sound (executor : Executor) : executor.tablePolicy.Sound where
  stable := ⟨fun _ => trivial, fun _ => trivial⟩
  enter _ := trivial
  step {nested lane info} hn := by
    have hT := (Always.mixable executor.FromTable).toClosed
    refine .of_events hT (fun e he => ?_) (fun step context call reply _ => ?_) ?_
    · cases he with
      | invoke name tool inputs htool =>
        exact List.forall_mem_singleton.2 fun other hother => ⟨name, Option.some.inj hother ▸ htool⟩
      | _ => exact .idle rfl
    · exact hT.cons (.idle rfl) (.idle rfl)
    · intro origin flowName input cancellation callee _ _
      exact nestedCall_upholds (hn callee flowName input cancellation) fun raised events hevents =>
        hT.append (hT.append (.idle rfl) hevents) (.idle rfl)
  whole h := (tablePolicy_admits executor _).called h

/-- The tools of a resumed run that its snapshot knows have the schema hashes they
had when it was written, whatever has been registered since. -/
theorem resume_undrifted (written later : List Tool) (old new : Executor) (hold : old.tools = toolTable written)
    (hnew : new.tools = later.foldl registerTool old.tools)
    (hsaved : old.toolSchemaHashes steps .empty = .ok snapshot.toolSchemaHashes) (stack : Nat) (lane : Lane)
    (hrun : (new.enter stack (resumeIn lane traceId)).Runs state events r state')
    (hload : ∀ traceId loaded, (⟨.load, traceId, .ok (some loaded)⟩ : Event) ∈ events → loaded = snapshot)
    (hcovered : ∀ e ∈ events, ∀ tool, entered e = some tool → snapshot.toolSchemaHashes.contains tool.name = true)
    (he : e ∈ events) (htool : entered e = some tool) :
    ∃ before, old.tools.get? tool.name = some before ∧ before.schemaHash = tool.schemaHash := by
  have hentered : new.tablePolicy.Entered (resumeIn lane traceId) r events :=
    enter_entered (tablePolicy_sound new) (fun _ => trivial) hrun
  have hresumed : new.tablePolicy.Resumed lane r events := by
    cases lane <;> exact hentered
  obtain ⟨name, hname⟩ := (tablePolicy_admits new lane).resumed hresumed e he tool htool
  have hregistered : new.tools.get? tool.name = some tool := by
    unfold getTool at hname
    split at hname
    · next hget =>
      obtain rfl := Except.ok.inj hname
      have htable : new.tools = toolTable (written ++ later) := by rw [hnew, hold, toolTable_append]
      exact toolTable_name (htable ▸ hget) ▸ hget
    · cases hname
  obtain ⟨fingerprint, hsaved'⟩ := OrderedDict.contains_iff.1 (hcovered e he tool htool)
  have hchecked : ∃ current, new.tools.get? tool.name = some current ∧ current.schemaHash = fingerprint := by
    cases hresumed with
    | refused => exact absurd htool (by simp [List.mem_singleton.1 he, entered])
    | unfit =>
      simp only [List.mem_cons, List.not_mem_nil, or_false] at he
      rcases he with rfl | rfl <;> cases htool
    | linear hcheck => exact checkSnapshot_hashes hcheck (hload _ _ List.mem_cons_self ▸ hsaved')
    | dag hcheck => exact checkSnapshot_hashes hcheck (hload _ _ List.mem_cons_self ▸ hsaved')
  obtain ⟨current, hcurrent, hfingerprint⟩ := hchecked
  obtain rfl := Option.some.inj (hregistered.symm.trans hcurrent)
  exact hfingerprint ▸ toolSchemaHashes_get? (by simp) hsaved hsaved'

-- A fallback that has changed

/-- A step, and one whose tool fails and hands over to another. -/
def driftFlow : Flow :=
  { name := "f", steps := [Sample.step "a", Sample.orElse "b" (Sample.step "c")] }

/-- Before the tools are registered again, and after. -/
def driftExecutor (registered : List Tool) : Executor :=
  { Sample.executor [.linear driftFlow] [] with tools := toolTable registered, hasCheckpointer := true }

def driftTools : List Tool := [Sample.tool "a", Sample.tool "b", Sample.tool "c"]

def changedTool (name : String) : Tool := { Sample.tool name with schemaHash := "changed" }

/-- The flow after its first step. -/
def driftSnapshot : ExecutionSnapshot :=
  { snapshotVersion := "1", traceId := "s", flowName := "f", flowVersion := "0.1.0", initialInput := .empty,
    context := .ofList [("a", .int 1)],
    executionLog := [{ stepIndex := 0, toolName := "a", inputs := .empty, outputs := some .empty }],
    completedSteps := 1, toolSchemaHashes := .ofList [("a", ""), ("c", "")] }

/-- Tool `c` fails, any other tool answers. -/
def failingLast (invocation : Invocation) : Except Exc Value :=
  if invocation.tool.name = "c" then .error (.flowExecution "c" 1 "boom") else Sample.named invocation

def driftRun (later : List Tool) (fn : Invocation → Except Exc Value) :
    List Event × Except Exc ExecutionResult × RunScopedState :=
  Sample.run fn (some driftSnapshot) 0 ((driftExecutor (driftTools ++ later)).enter 1 (resumeIn .sync "s"))

def entersChanged (toolName : String) (e : Event) : Bool :=
  (entered e).any fun tool => tool.name = toolName && tool.schemaHash = "changed"

/-- Whether an event enters a tool that the snapshot does not know. -/
def entersUncovered (e : Event) : Bool :=
  (entered e).any fun tool => !driftSnapshot.toolSchemaHashes.contains tool.name

theorem resume_undrifted_fallback : ∃ e ∈ (driftRun [changedTool "b"] Sample.named).1, ∃ tool,
    entered e = some tool ∧ ∃ before, (driftExecutor driftTools).tools.get? tool.name = some before ∧
      before.schemaHash = tool.schemaHash := by
  have henters : (driftRun [changedTool "b"] Sample.named).1.any (fun e => (entered e).isSome) = true := by
    decide +kernel
  have hcovered : (driftRun [changedTool "b"] Sample.named).1.any entersUncovered = false := by decide +kernel
  have hsaved : (driftExecutor driftTools).toolSchemaHashes driftFlow.steps .empty =
      .ok driftSnapshot.toolSchemaHashes := rfl
  obtain ⟨e, he, henters⟩ := List.any_eq_true.1 henters
  obtain ⟨tool, htool⟩ := Option.isSome_iff_exists.1 henters
  refine ⟨e, he, tool, htool, resume_undrifted driftTools [changedTool "b"] (driftExecutor driftTools)
    (driftExecutor (driftTools ++ [changedTool "b"])) rfl rfl hsaved 1 .sync
    (Sample.run_runs Sample.named (some driftSnapshot) 0 _)
    (fun _ _ hload => (Option.some.inj (Sample.run_load hload)).symm) (fun e he tool htool => ?_) he htool⟩
  have hnot := List.any_eq_false.1 hcovered e he
  simpa [entersUncovered, htool] using hnot

theorem changed_fallback_entered :
    ¬∀ (written later : List Tool) (old new : Executor) (steps : List FlowStep) (snapshot : ExecutionSnapshot)
      (stack : Nat) (lane : Lane) (traceId : String) (events : List Event) r state' e tool,
      old.tools = toolTable written → new.tools = later.foldl registerTool old.tools →
      old.toolSchemaHashes steps .empty = .ok snapshot.toolSchemaHashes →
      (new.enter stack (resumeIn lane traceId)).Runs {} events r state' →
      (∀ traceId loaded, (⟨.load, traceId, .ok (some loaded)⟩ : Event) ∈ events → loaded = snapshot) →
      e ∈ events → entered e = some tool →
        ∃ before, old.tools.get? tool.name = some before ∧ before.schemaHash = tool.schemaHash := by
  intro h
  have henters : (driftRun [changedTool "b"] failingLast).1.any (entersChanged "b") = true := by decide +kernel
  have hsaved : (driftExecutor driftTools).toolSchemaHashes driftFlow.steps .empty =
      .ok driftSnapshot.toolSchemaHashes := rfl
  obtain ⟨e, he, henters⟩ := List.any_eq_true.1 henters
  obtain ⟨tool, htool, hchanged⟩ := (Option.any_eq_true ..).1 henters
  obtain ⟨before, hbefore, hsame⟩ := h driftTools [changedTool "b"] (driftExecutor driftTools)
    (driftExecutor (driftTools ++ [changedTool "b"])) driftFlow.steps driftSnapshot 1 .sync "s" _ _ _ e tool rfl rfl
    hsaved (Sample.run_runs failingLast (some driftSnapshot) 0 _)
    (fun _ _ hload => (Option.some.inj (Sample.run_load hload)).symm) he htool
  simp only [Bool.and_eq_true, decide_eq_true_eq] at hchanged
  have hold : (driftExecutor driftTools).tools.get? "b" = some (Sample.tool "b") := rfl
  obtain rfl := Option.some.inj (hold.symm.trans (hchanged.1 ▸ hbefore))
  exact absurd (hsame.trans hchanged.2) (by decide)

end ChainWeaver.Executor
