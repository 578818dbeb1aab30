import ChainWeaver.Sample
import ChainWeaver.Success

/-!
# Plans and runs

If a plan resolves every source of every step, and what it counts on is what the run
puts into the context, then no step of the run misses an input.
-/

namespace ChainWeaver

open Interaction (Frame)

namespace AnyFlow

/-- No step has branches. -/
def Unbranched : AnyFlow → Prop
  | .linear _ => True
  | .dag flow => ∀ step ∈ flow.steps, step.branches = []

end AnyFlow

namespace Executor

variable (executor : Executor) (reflection : Reflection)

-- What a plan may count on

/-- No dict without this key passes the schema. -/
def Guarantees (schema : Schema) (key : String) : Prop :=
  ∀ payload : Dict, executor.validationError schema payload = .ok none → payload.contains key = true

/-- What a step adds to the context when it is neither skipped nor replaced by its
fallback: the keys of its output mapping or, without one, the fields of whichever
tool it runs and the keys its sub-flow's output schema insists on. -/
def Delivers (step : FlowStep) (key : String) : Prop :=
  match step.outputMapping, step.target with
  | some mapping, _ => mapping.contains key = true
  | none, .tool _ => ∀ name ∈ executor.runnable step, ∀ tool, executor.getTool name = .ok tool →
      (reflection.modelFields tool.outputSchema).contains key = true
  | none, .flow subName => ∃ flow ref schema, executor.registry.getFlow subName none = .ok flow ∧
      flow.header.outputSchemaRef = some ref ∧ executor.platform.resolveClassRef ref = .ok schema ∧
      executor.Guarantees schema key

/-- The outputs of a kernel pass no schema. -/
def DagDelivers (step : DAGFlowStep) (key : String) : Prop :=
  (step.stepType = .capability → step.outputMapping.isSome) ∧ executor.Delivers reflection step.toFlowStep key

/-- The record is neither that of a step left out nor that of a fallback. -/
def Regular (record : StepRecord) : Prop := record.skipped = false ∧ record.fallbackUsed = false

def planTerms : Terms FlowStep where
  needs step key := key ∈ step.sources
  gives := executor.Delivers reflection
  Regular := Regular
  InOrder _ record := record.errorType ≠ some "InputMappingError"

/-- The inputs of a capability step are not resolved by `_resolve_inputs`. -/
def planTermsDag : Terms DAGFlowStep where
  needs step key := step.stepType = .tool ∧ key ∈ step.sources
  gives := executor.DagDelivers reflection
  Regular := Regular
  InOrder _ record := record.errorType ≠ some "InputMappingError"

/-- The key of a projected context that a step resolves is in the initial input, or an
earlier level delivers it. -/
def Grounded (terms : Terms α) (view : α → FlowStep) (initialInput : Dict) (levels : List (List α)) : Prop :=
  ∀ before level after, levels = before ++ level :: after → ∀ first step rest, level = first ++ step :: rest →
    ∀ plans projected,
      executor.explainSteps reflection ((before.flatten ++ first).map view) 0 (projectInput initialInput) =
        .ok (plans, projected) →
      ∀ key, terms.needs step key → projected.contains key = true →
        initialInput.contains key = true ∨ ∃ earlier ∈ before.flatten, terms.gives earlier key

/-- `Grounded` for the levels of a flow. -/
def PlanGrounded (flow : AnyFlow) (initialInput : Dict) : Prop :=
  match flow with
  | .linear flow =>
    executor.Grounded reflection (executor.planTerms reflection) id initialInput (flow.steps.map fun step => [step])
  | .dag flow => ∀ levels, computeDagLevels executor.platform.hashing flow = .ok levels →
    executor.Grounded reflection (executor.planTermsDag reflection) DAGFlowStep.toFlowStep initialInput levels

variable {executor} {reflection}

-- What a plan says

theorem describeInputSources_resolved (reflection : Reflection) {step : FlowStep} (hp : step.NoPointers)
    (h : (describeInputSources reflection step projected).2 = []) :
    ∀ source ∈ step.sources, projected.contains source = true := by
  intro source hsource
  obtain ⟨⟨key, raw⟩, hmem, hraw⟩ := List.mem_filterMap.1 hsource
  obtain rfl : raw = .str source := by cases raw <;> simp_all
  unfold describeInputSources at h
  split at h
  · next hempty => simp_all [OrderedDict.isEmpty]
  · have hnone := List.flatMap_eq_nil_iff.1 h (key, .str source) hmem
    simp only [describeSource, hp source hsource, Bool.false_eq_true, if_false] at hnone
    split at hnone
    · assumption
    · cases hnone

theorem explainStep_resolved {step : FlowStep} (hp : step.NoPointers)
    (h : executor.explainStep reflection stepIndex step projected = .ok (plan, projected'))
    (hplan : plan.unresolvedKeys = []) : ∀ source ∈ step.sources, projected.contains source = true := by
  refine describeInputSources_resolved reflection hp ?_
  unfold explainStep at h
  split at h
  · unfold explainSubflowStep at h
    obtain ⟨shape, _, h⟩ := bind_ok h
    obtain ⟨rfl, rfl⟩ := Prod.mk.inj (Except.ok.inj h)
    exact hplan
  · unfold explainToolStep at h
    split at h
    · cases h
    · dsimp only at h
      split at h <;> obtain ⟨rfl, rfl⟩ := Prod.mk.inj (Except.ok.inj h) <;> exact hplan

theorem explainSteps_append {first rest : List FlowStep}
    (h : executor.explainSteps reflection (first ++ rest) stepIndex projected = .ok (plans, final)) :
    ∃ plans₁ middle plans₂, executor.explainSteps reflection first stepIndex projected = .ok (plans₁, middle) ∧
      executor.explainSteps reflection rest (stepIndex + first.length) middle = .ok (plans₂, final) ∧
      plans = plans₁ ++ plans₂ := by
  induction first generalizing stepIndex projected plans with
  | nil => exact ⟨[], projected, plans, rfl, h, rfl⟩
  | cons step first ih =>
    obtain ⟨⟨plan, next⟩, hstep, h⟩ := bind_ok h
    obtain ⟨⟨others, last⟩, hrest, h⟩ := bind_ok h
    obtain ⟨rfl, rfl⟩ := Prod.mk.inj (Except.ok.inj h)
    obtain ⟨plans₁, middle, plans₂, hfirst, hsecond, rfl⟩ := ih hrest
    refine ⟨plan :: plans₁, middle, plans₂, ?_, ?_, rfl⟩
    · simp only [explainSteps, hstep, hfirst, bind, Except.bind, pure, Except.pure]
    · rw [List.length_cons, Nat.add_comm first.length, ← Nat.add_assoc]
      exact hsecond

/-- The sources of every step are in the context the plan has for it. -/
def Planned (executor : Executor) (reflection : Reflection) (initialInput : Dict) (steps : List FlowStep) : Prop :=
  ∀ before step after, steps = before ++ step :: after → step.NoPointers →
    ∃ plans projected, executor.explainSteps reflection before 0 (projectInput initialInput) = .ok (plans, projected) ∧
      ∀ source ∈ step.sources, projected.contains source = true

theorem explainFlow_planned (hflow : executor.registry.getFlow flowName none = .ok flow)
    (h : executor.explainFlow reflection flowName initialInput = .ok plan) (hresolvable : plan.allResolvable = true) :
    ∃ levels, executor.stepLevels flow = .ok levels ∧ Planned executor reflection initialInput levels.flatten := by
  unfold explainFlow at h
  obtain ⟨flow', hflow', h⟩ := bind_ok h
  obtain rfl := Except.ok.inj (hflow.symm.trans hflow')
  obtain ⟨levels, hlevels, h⟩ := bind_ok h
  obtain ⟨⟨plans, final⟩, hplans, h⟩ := bind_ok h
  obtain rfl := Except.ok.inj h
  refine ⟨levels, hlevels, fun before step after hsteps hp => ?_⟩
  rw [hsteps] at hplans
  obtain ⟨plans₁, middle, plans₂, hbefore, hrest, rfl⟩ := explainSteps_append hplans
  refine ⟨plans₁, middle, hbefore, ?_⟩
  obtain ⟨⟨own, next⟩, hstep, hrest⟩ := bind_ok hrest
  obtain ⟨⟨others, last⟩, _, hrest⟩ := bind_ok hrest
  obtain ⟨rfl, rfl⟩ := Prod.mk.inj (Except.ok.inj hrest)
  refine explainStep_resolved hp hstep ?_
  have hall := List.all_eq_true.1 hresolvable own (by simp)
  exact List.isEmpty_iff.1 (Bool.and_eq_true_iff.1 hall).1

theorem Planned.available {terms : Terms α} {view : α → FlowStep} {levels : List (List α)}
    (h : Planned executor reflection initialInput (levels.flatten.map view))
    (hgrounded : executor.Grounded reflection terms view initialInput levels)
    (hneeds : ∀ step key, terms.needs step key → key ∈ (view step).sources)
    (hp : ∀ step ∈ levels.flatten, (view step).NoPointers) :
    terms.Available (fun key => initialInput.contains key = true) levels := by
  intro before level after hlevels step hstep key hkey
  obtain ⟨first, rest, rfl⟩ := List.append_of_mem hstep
  have hflat : levels.flatten = (before.flatten ++ first) ++ step :: (rest ++ after.flatten) := by simp [hlevels]
  have hsteps : levels.flatten.map view =
      (before.flatten ++ first).map view ++ view step :: (rest ++ after.flatten).map view := by
    rw [hflat, List.map_append, List.map_cons]
  obtain ⟨plans, projected, hplans, hsources⟩ := h _ _ _ hsteps (hp step (by simp [hflat]))
  exact hgrounded before _ after hlevels first step rest rfl plans projected hplans key hkey
    (hsources key (hneeds step key hkey))

-- What a run delivers

theorem mapOutputs_keys {pairs : List (String × String)} {mapped : Dict}
    (h : mapOutputs outputs name stepIndex pairs mapped = .ok result) :
    ∀ key, result.contains key = (mapped.contains key || (pairs.map Prod.fst).contains key) := by
  induction pairs generalizing mapped with
  | nil =>
    obtain rfl := Except.ok.inj h
    simp
  | cons pair rest ih =>
    unfold mapOutputs at h
    split at h
    · intro key
      rw [ih h, OrderedDict.contains_insert, List.map_cons, List.contains_cons, Bool.eq_iff_iff]
      simp only [Bool.or_eq_true, decide_eq_true_eq, beq_iff_eq]
      tauto
    · cases h

theorem applyOutputMapping_keys {mapping : OrderedDict String}
    (h : applyOutputMapping outputs (some mapping) name stepIndex = .ok mapped) (key : String) :
    mapped.contains key = mapping.contains key := by
  rw [mapOutputs_keys h, OrderedDict.contains_empty, Bool.false_or]
  rfl

theorem Guarantees.of_valid {flow : AnyFlow} (hflow : flow.header.outputSchemaRef = some ref)
    (href : executor.platform.resolveClassRef ref = .ok schema) (hkey : executor.Guarantees schema key)
    (h : executor.validateFlowSchema label outputs flow.header.outputSchemaRef stepIndex context = .ok none) :
    outputs.contains key = true := by
  rw [hflow] at h
  obtain ⟨schema', href', h⟩ := bind_ok h
  obtain rfl := Except.ok.inj (href.symm.trans href')
  obtain ⟨detail, hvalid, h⟩ := bind_ok h
  cases detail with
  | none => exact hkey outputs hvalid
  | some detail => cases h

variable {Inv : RunScopedState → Prop} {A : Event → Prop}

/-- A regular record of a step that succeeded holds what the step delivers. -/
theorem Served.delivers {step : FlowStep} (h : Served executor reflection Inv step context record)
    (hregular : Regular record) (hsuccess : record.success = true) (hout : record.outputs = some outputs)
    (hmapped : applyOutputMapping outputs step.outputMapping name stepIndex = .ok mapped)
    (hkey : executor.Delivers reflection step key) : mapped.contains key = true := by
  unfold Delivers at hkey
  split at hkey
  · next mapping hmapping =>
    rw [hmapping] at hmapped
    rw [applyOutputMapping_keys hmapped]
    exact hkey
  · next tool hmapping htarget =>
    rw [hmapping] at hmapped
    obtain rfl := Except.ok.inj hmapped
    cases h.yields hsuccess with
    | skipped hskipped => exact absurd (hregular.1.symm.trans hskipped) nofun
    | fallback hused => exact absurd (hregular.2.symm.trans hused) nofun
    | flow hflow => exact absurd (htarget.symm.trans hflow) nofun
    | tool _ hrunnable hget ho hfits =>
      obtain rfl := Option.some.inj (hout.symm.trans ho)
      exact hfits key (hkey _ hrunnable _ hget)
  · next subName hmapping htarget =>
    rw [hmapping] at hmapped
    obtain rfl := Except.ok.inj hmapped
    obtain ⟨flow, ref, schema, hflow, hschema, href, hguarantees⟩ := hkey
    cases h.yields hsuccess with
    | skipped hskipped => exact absurd (hregular.1.symm.trans hskipped) nofun
    | fallback hused => exact absurd (hregular.2.symm.trans hused) nofun
    | tool htool => exact absurd htarget (htool subName)
    | flow hsub hflow' ho hvalid =>
      obtain rfl := Target.flow.inj (htarget.symm.trans hsub)
      obtain rfl := Except.ok.inj (hflow.symm.trans hflow')
      obtain rfl := Option.some.inj (hout.symm.trans ho)
      exact hguarantees.of_valid hschema href hvalid

theorem Served.planMet {step : FlowStep} (hp : step.NoPointers)
    (h : Served executor reflection Inv step context record) :
    (executor.planTerms reflection).Met anyError step step.outputMapping context record where
  inOrder hneeds := (h.resolves hp hneeds).1
  gives hregular hsuccess _ hout _ _ _ hmapped _ hkey := h.delivers hregular hsuccess hout hmapped hkey
  fair _ _ _ _ _ _ _ := trivial

theorem Served.planMetDag {step : DAGFlowStep} (hp : step.NoPointers) (htype : step.stepType = .tool)
    (h : Served executor reflection Inv (proxy step) context record) :
    (executor.planTermsDag reflection).Met anyError step step.outputMapping context record := by
  have hown : Served executor reflection Inv step.toFlowStep context record :=
    ⟨h.resolves, h.covers, fun hsuccess => by
      cases h.yields hsuccess with
      | skipped hskipped hwhy => exact .skipped hskipped hwhy
      | tool htool hname hget hout hfits => exact .tool htool hname hget hout hfits
      | fallback hused hwhy hget hout hfits => exact .fallback hused hwhy hget hout hfits
      | flow htarget hflow hout hvalid => exact .flow htarget hflow hout hvalid⟩
  refine ⟨fun hneeds => (hown.resolves hp fun key hkey => hneeds key ⟨htype, hkey⟩).1, ?_, fun _ _ _ _ _ _ _ => trivial⟩
  intro hregular hsuccess outputs hout name stepIndex mapped hmapped key hkey
  exact hown.delivers hregular hsuccess hout hmapped hkey.2

/-- The record of a capability step is never that of a missing input. -/
theorem runCapabilityStep_met {step : DAGFlowStep} (htype : step.stepType = .capability) :
    (frame Inv).Given A (executor.runCapabilityStep info stepIndex step context)
      ((executor.planTermsDag reflection).Met anyError step step.outputMapping context) anyError := by
  have hrecord : (frame Inv).Given A (executor.executeCapabilityStep stepIndex step context)
      (fun record => record.errorType ≠ some "InputMappingError") anyError := by
    unfold executeCapabilityStep
    refine (given_displayName trivial).bind fun name _ => .ask_bind fun _ _ => ?_
    split
    · unfold invokeCapability
      dsimp only
      split
      · exact .pure (by simp [StepRecord.failWith, Exc.typeName])
      split
      · exact .pure (by simp [StepRecord.failWith, Exc.typeName])
      · refine .ask_bind fun reply _ => ?_
        split <;> exact .pure (by simp [StepRecord.failWith, StepRecord.succeedWith, Exc.typeName])
    · exact .pure (by simp [StepRecord.failWith, Exc.typeName])
  have hmet : ∀ record, record.errorType ≠ some "InputMappingError" →
      (executor.planTermsDag reflection).Met anyError step step.outputMapping context record := by
    refine fun record hrecord => ⟨fun _ => hrecord, ?_, fun _ _ _ _ _ _ _ => trivial⟩
    rintro _ _ outputs _ name index mapped hmapped key ⟨hdelivers, hkey⟩
    obtain ⟨mapping, hmapping⟩ := Option.isSome_iff_exists.1 (hdelivers htype)
    rw [hmapping] at hmapped
    simp only [Delivers, hmapping] at hkey
    rw [applyOutputMapping_keys hmapped]
    exact hkey
  unfold runCapabilityStep
  refine hrecord.bind fun record h => ?_
  split
  · exact .ask_bind fun _ _ => .ask_bind fun _ _ => .pure (hmet record h)
  · exact .ask_bind fun _ _ => .pure (hmet record h)

-- Plans are sound

/-- What Pydantic and the step cache are trusted with. -/
structure Dependable (executor : Executor) (reflection : Reflection) (A : Event → Prop) : Prop where
  /-- `model_dump` of a validated model has all its fields. -/
  dumps : ∀ schema value dumped, executor.platform.modelValidate schema value = .ok dumped →
    Fits reflection schema dumped
  /-- An entry of the cache holds outputs of the tool its key names. -/
  hit : ∀ key outputs, A ⟨.cacheGet, key, .ok (some outputs)⟩ → ∀ tool : Tool, tool.name = key.toolName →
    tool.schemaHash = key.schemaHash → Fits reflection tool.outputSchema outputs

theorem Dependable.trusted (h : Dependable executor reflection A) : Trusted executor reflection A anyError := by
  constructor <;> intros
  all_goals first | trivial | exact h.dumps _ _ _ ‹_› | exact h.hit _ _ ‹_› _ ‹_› ‹_›

theorem lanes_return (stack : Nat) : Returns Inv A (executor.lanes stack) :=
  fun flowName input cancellation => (lanes_succeed stack flowName input cancellation).post fun _ _ => trivial

/-- The run-scoped states outside of a resume. -/
def Started (state : RunScopedState) : Prop := state.resumeSnapshot = none

theorem started_stable : Stable Started := ⟨id, id⟩

theorem enterSync_started (h : Started state) : Started (enterSync call state) := by
  cases hparams : call.dynamicParams <;> simpa [Started, enterSync, withDynamicParams, RunScopedState.copy, hparams] using h

theorem executeLinearFlow_resolves {flow : Flow} (ht : Trusted executor reflection A anyError)
    (hp : ∀ step ∈ flow.steps, step.NoPointers)
    (havailable : (executor.planTerms reflection).Available (fun key => input.contains key = true)
      (flow.steps.map fun step => [step])) :
    (frame Started).Given A (executor.executeLinearFlow (executor.lanes stack) flow flowName input cancellation)
      ((executor.planTerms reflection).Closed flow.steps) anyError := by
  refine executeLinear_given ht started_stable (fun step hmem info context => ?_) havailable ?_
  · exact (executeStepIn_given ht started_stable (lanes_return stack) fun subName _ subInput =>
      lanes_succeed stack subName subInput _).post fun record h => h.planMet (hp step hmem)
  · exact fun _ _ state _ key hkey => by simp [hkey]

theorem executeDagFlow_resolves {flow : DAGFlow} (ht : Trusted executor reflection A anyError)
    (hunbranched : ∀ step ∈ flow.steps, step.branches = []) (hp : ∀ step ∈ flow.steps, step.NoPointers)
    (havailable : ∀ levels, computeDagLevels executor.platform.hashing flow = .ok levels →
      (executor.planTermsDag reflection).Available (fun key => input.contains key = true) levels) :
    (frame Started).Given A (executor.executeDagFlow (executor.lanes stack) flow input cancellation)
      ((executor.planTermsDag reflection).Closed flow.steps) anyError := by
  refine executeDagFlow_given ht started_stable (fun _ => id) havailable (fun _ _ => trivial)
    (fun _ _ state _ key hkey => by simp [hkey]) fun _ _ => ?_
  refine ⟨hunbranched, fun step hmem htype info context => ?_, fun step hmem htype info stepIndex context => ?_, ?_⟩
  · exact (executeStepIn_given ht started_stable (lanes_return stack) fun subName _ subInput =>
      lanes_succeed stack subName subInput _).post fun record h => h.planMetDag (hp step hmem) htype
  · exact runCapabilityStep_met htype
  · exact fun step _ record name e _ _ _ he => he.1

theorem Terms.Closed.resolves {terms : Terms α} {steps : List α} {result : ExecutionResult}
    (h : terms.Closed steps result)
    (hin : ∀ step record, terms.InOrder step record → record.errorType ≠ some "InputMappingError")
    (hregular : ∀ record ∈ result.executionLog, terms.Regular record) :
    ∀ record ∈ result.executionLog, record.errorType ≠ some "InputMappingError" := by
  intro record hmem
  rcases h hregular record hmem with hflow | ⟨step, _, hrecord⟩
  · simp [hflow.2]
  · exact hin step record hrecord

/-- A plan without warnings keeps its word in every run on the same input whose steps are
neither skipped nor replaced by a fallback, if what it resolves is grounded. -/
theorem executeFlow_resolves (hflow : executor.registry.getFlow flowName none = .ok flow)
    (hplan : executor.explainFlow reflection flowName initialInput = .ok plan)
    (hresolvable : plan.allResolvable = true) (hunbranched : flow.Unbranched)
    (hpointers : ∀ step ∈ flow.steps, step.NoPointers)
    (hgrounded : executor.PlanGrounded reflection flow initialInput)
    (hversion : executor.registry.getFlow flowName call.version = .ok flow)
    (hfresh : state.resumeSnapshot = none) (hdependable : Dependable executor reflection (· ∈ events))
    (hrun : (executor.executeFlow stack flowName initialInput call).Runs state events (.ok result) state')
    (hregular : ∀ record ∈ result.executionLog, record.skipped = false ∧ record.fallbackUsed = false) :
    ∀ record ∈ result.executionLog, record.errorType ≠ some "InputMappingError" := by
  have ht := hdependable.trusted
  obtain ⟨levels, hlevels, hplanned⟩ := explainFlow_planned hflow hplan hresolvable
  suffices hgiven : (frame Started).Given (· ∈ events) (executor.executeFlow stack flowName initialInput call)
      (fun result => (∀ record ∈ result.executionLog, Regular record) →
        ∀ record ∈ result.executionLog, record.errorType ≠ some "InputMappingError") anyError from
    (hgiven _ _ _ _ hfresh (fun _ he => he) hrun).2 hregular
  unfold executeFlow executeFlowWith
  refine .within (fun _ => enterSync_started) ?_
  unfold executeFlowImpl
  refine (given_orRefuse fun _ _ => trivial).bind fun flow' hflow' => ?_
  obtain rfl := Except.ok.inj (hversion.symm.trans hflow')
  refine .modify_bind (fun _ => id) ?_
  refine (given_orRefuse fun _ _ => trivial).bind fun _ _ => (given_orRefuse fun _ _ => trivial).bind fun _ _ => ?_
  refine .get_bind fun _ _ => .ask_bind fun _ _ => ?_
  cases flow with
  | linear flow =>
    obtain rfl := Except.ok.inj hlevels
    have hflat : (flow.steps.map fun step => [step]).flatten = flow.steps := List.flatMap_singleton' _
    refine (executeLinearFlow_resolves ht hpointers ?_).post fun result h => h.resolves fun _ _ => id
    have hplanned : Planned executor reflection initialInput ((flow.steps.map fun step => [step]).flatten.map id) := by
      simpa using hplanned
    exact hplanned.available hgrounded (fun _ _ => id) fun step hmem => hpointers step (show step ∈ flow.steps from hflat ▸ hmem)
  | dag flow =>
    have hpointers : ∀ step ∈ flow.steps, step.NoPointers := fun step hmem =>
      hpointers step.toFlowStep (List.mem_map_of_mem hmem)
    refine (executeDagFlow_resolves ht hunbranched hpointers fun levels' hlevels' => ?_).post fun result h =>
      h.resolves fun _ _ => id
    obtain ⟨levels'', hcomputed, hlevels⟩ := bind_ok hlevels
    obtain rfl := Except.ok.inj (hlevels'.symm.trans hcomputed)
    obtain rfl := Except.ok.inj hlevels
    rw [← List.map_flatten] at hplanned
    obtain ⟨height, hlevelled⟩ := Topology.computeDagLevels_levelled hlevels'
    exact hplanned.available (hgrounded _ hlevels') (fun _ _ h => h.2) fun step hmem =>
      hpointers step (hlevelled.perm.mem_iff.1 hmem)

-- Runs

/-- A model class has one field, named like the class; its instances are the dicts that have it. -/
def fieldPlatform : Platform :=
  { Sample.platform with
    modelValidate := fun schema value =>
      match value with
      | .dict entries =>
        if (OrderedDict.ofList entries).contains schema then .ok (.ofList entries)
        else .error (.validation "Field required")
      | _ => .error (.validation "Input should be a valid dictionary") }

def fieldReflection : Reflection where
  modelFields schema := .ofList [(schema, { annotation := .other, text := "Any" })]
  repr _ := ""

theorem fieldReflection_dumps (schema : Schema) (value : Value) (dumped : Dict)
    (h : fieldPlatform.modelValidate schema value = .ok dumped) : Fits fieldReflection schema dumped := by
  intro field hfield
  obtain rfl : field = schema := by simpa [fieldReflection] using hfield
  cases value with
  | dict entries =>
    simp only [fieldPlatform] at h
    split at h
    · next hhas => exact Except.ok.inj h ▸ hhas
    · cases h
  | _ => cases h

/-- Tools that take anything and give their own name. -/
def fieldTool (name : String) : Tool :=
  { Sample.tool name with inputSchema := "in", outputSchema := name }

def fieldExecutor (flows : List AnyFlow) (tools : List String) : Executor :=
  { Sample.executor flows (tools.map fieldTool) with platform := fieldPlatform }

theorem fieldExecutor_dependable (flows : List AnyFlow) (tools : List String) (call : Exec ExecutionResult) :
    Dependable (fieldExecutor flows tools) fieldReflection (· ∈ (Sample.run Sample.named none 0 call).1) where
  dumps := fieldReflection_dumps
  hit key outputs he := by
    obtain ⟨_, hreply⟩ :=
      Interaction.Prog.exec_answered (S := Effects) (Sample.answer Sample.named none) 0 (call {}) he
    cases hreply

/-- A step with one input. -/
def feeding (name : String) (source : Value) : FlowStep :=
  Sample.taking [("in", source)] (Sample.step name)

theorem toOption_eq_some {x : Except ε α} (h : x.toOption = some value) : x = .ok value := by
  cases x with
  | ok value' => exact congrArg Except.ok (Option.some.inj h)
  | error e => cases h

/-- `b` takes what `a` gives. -/
def chained : Flow := { name := "chained", steps := [feeding "a" (.int 0), feeding "b" (.str "a")] }

def chainedExecutor : Executor := fieldExecutor [.linear chained] ["a", "b"]

def chainedRun : List Event × Except Exc ExecutionResult × RunScopedState :=
  Sample.run Sample.named none 0
    (chainedExecutor.executeFlow 0 "chained" .empty {})

theorem chained_grounded : chainedExecutor.PlanGrounded fieldReflection (.linear chained) .empty := by
  intro before level after hlevels first step rest hlevel plans projected _ key hneeds _
  have hlevels : [[feeding "a" (.int 0)], [feeding "b" (.str "a")]] = before ++ level :: after := hlevels
  rcases before with _ | ⟨level₁, _ | ⟨level₂, before⟩⟩
  · obtain ⟨rfl, -⟩ := List.cons.inj hlevels
    have hstep : step ∈ [feeding "a" (.int 0)] := by simp [hlevel]
    obtain rfl := List.mem_singleton.1 hstep
    cases hneeds
  · obtain ⟨hfirst, hlevels⟩ := List.cons.inj hlevels
    obtain ⟨rfl, -⟩ := List.cons.inj hlevels
    have hstep : step ∈ [feeding "b" (.str "a")] := by simp [hlevel]
    obtain rfl := List.mem_singleton.1 hstep
    obtain rfl : key = "a" := List.mem_singleton.1 hneeds
    refine .inr ⟨feeding "a" (.int 0), by simp [← hfirst], fun name hname tool htool => ?_⟩
    obtain rfl : name = "a" := List.mem_singleton.1 hname
    obtain rfl := Except.ok.inj (htool.symm.trans (show chainedExecutor.getTool "a" = .ok (fieldTool "a") from rfl))
    decide
  · have hlength := congrArg List.length hlevels
    simp at hlength

theorem executeFlow_resolves_chained : ∃ result, chainedRun.2.1 = .ok result ∧ result.success = true ∧
    ∀ record ∈ result.executionLog, record.errorType ≠ some "InputMappingError" := by
  have hreturns : (Sample.resultOf chainedRun).isSome := by decide +kernel
  obtain ⟨result, hresult⟩ := Option.isSome_iff_exists.1 hreturns
  have hsuccess : (Sample.resultOf chainedRun).map (·.success) = some true := by decide +kernel
  have hregular : (Sample.resultOf chainedRun).map
      (fun result => result.executionLog.all fun record => !record.skipped && !record.fallbackUsed) = some true := by
    decide +kernel
  have hexplains : (chainedExecutor.explainFlow fieldReflection "chained" .empty).toOption.map (·.allResolvable) =
      some true := by decide +kernel
  obtain ⟨plan, hplan, hresolvable⟩ := Option.map_eq_some_iff.1 hexplains
  rw [hresult, Option.map_some, Option.some_inj] at hsuccess hregular
  refine ⟨result, Sample.resultOf_eq hresult, hsuccess, ?_⟩
  have hpointers : ∀ step ∈ chained.steps, step.NoPointers := by
    intro step hmem source hsource
    simp only [chained, List.mem_cons, List.not_mem_nil, or_false] at hmem
    rcases hmem with rfl | rfl
    · cases hsource
    · obtain rfl : source = "a" := List.mem_singleton.1 hsource
      decide
  have hunbranched : (AnyFlow.linear chained).Unbranched := trivial
  exact executeFlow_resolves rfl (toOption_eq_some hplan) hresolvable hunbranched hpointers chained_grounded rfl rfl
    (fieldExecutor_dependable _ _ _) (Sample.run_returns hresult) (by simpa using hregular)

/-- A flow that hands on `a`, and one that renames it to `x` and then asks for `a`. -/
def handing : Flow := { name := "inner", outputSchemaRef := some "a", steps := [feeding "a" (.int 0)] }

def renamed : Flow :=
  { name := "renamed"
    steps := [Sample.giving [("x", "a")] (Sample.subflow "inner"), feeding "b" (.str "a")] }

def renamedExecutor : Executor := fieldExecutor [.linear handing, .linear renamed] ["a", "b"]

def renamedRun : List Event × Except Exc ExecutionResult × RunScopedState :=
  Sample.run Sample.named none 0 (renamedExecutor.executeFlow 1 "renamed" .empty {})

theorem renamed_output_unresolved :
    ¬∀ (executor : Executor) (reflection : Reflection) (flowName : String) (flow : AnyFlow) (initialInput : Dict)
      (plan : ExecutionPlan),
      executor.registry.getFlow flowName none = .ok flow →
      executor.explainFlow reflection flowName initialInput = .ok plan → plan.allResolvable = true →
      flow.Unbranched → (∀ step ∈ flow.steps, step.NoPointers) →
      ∀ stack events result state', Dependable executor reflection (· ∈ events) →
        (executor.executeFlow stack flowName initialInput {}).Runs {} events (.ok result) state' →
        (∀ record ∈ result.executionLog, record.skipped = false ∧ record.fallbackUsed = false) →
        ∀ record ∈ result.executionLog, record.errorType ≠ some "InputMappingError" := by
  intro h
  have hreturns : (Sample.resultOf renamedRun).isSome := by decide +kernel
  obtain ⟨result, hresult⟩ := Option.isSome_iff_exists.1 hreturns
  have hexplains : (renamedExecutor.explainFlow fieldReflection "renamed" .empty).toOption.map (·.allResolvable) =
      some true := by decide +kernel
  obtain ⟨plan, hplan, hresolvable⟩ := Option.map_eq_some_iff.1 hexplains
  have hpointers : ∀ step ∈ renamed.steps, step.NoPointers := by
    intro step hmem source hsource
    simp only [renamed, List.mem_cons, List.not_mem_nil, or_false] at hmem
    rcases hmem with rfl | rfl
    · cases hsource
    · obtain rfl : source = "a" := List.mem_singleton.1 hsource
      decide
  have hregular : (Sample.resultOf renamedRun).map
      (fun result => result.executionLog.all fun record => !record.skipped && !record.fallbackUsed) = some true := by
    decide +kernel
  have hunresolved : (Sample.resultOf renamedRun).map
      (fun result => result.executionLog.any fun record => record.errorType = some "InputMappingError") = some true := by
    decide +kernel
  rw [hresult, Option.map_some, Option.some_inj] at hregular hunresolved
  obtain ⟨record, hmem, herror⟩ := List.any_eq_true.1 hunresolved
  refine h renamedExecutor fieldReflection "renamed" (.linear renamed) .empty plan rfl (toOption_eq_some hplan)
    hresolvable trivial hpointers 1 _ result _ (fieldExecutor_dependable _ _ _) (Sample.run_returns hresult)
    (by simpa using hregular) record hmem (by simpa using herror)

end Executor

end ChainWeaver
