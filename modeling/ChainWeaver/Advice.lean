import ChainWeaver.Analyzer
import ChainWeaver.Supply

/-!
# Advice on flows

`suggest_optimizations` reads a linear flow and the schemas of its tools and proposes
changes to the flow: steps whose outputs nobody seems to read, and pairs of steps that seem
to be independent. It sees the input mappings and the declared fields, nothing else.
-/

namespace ChainWeaver.Advice

/-- `SUGGESTION_CODES`. -/
inductive SuggestionCode
  | wastefulPassthrough | parallelizablePair | deadStep | cacheableStep
  deriving DecidableEq

def SuggestionCode.value : SuggestionCode → String
  | .wastefulPassthrough => "CW001"
  | .parallelizablePair => "CW002"
  | .deadStep => "CW003"
  | .cacheableStep => "CW004"

structure Suggestion where
  code : SuggestionCode
  stepIndex : Option Nat
  toolName : Option String
  message : String
  deriving DecidableEq

/-- The names of `model_fields`. -/
abbrev FieldNames := Schema → List String

def toolName? (step : FlowStep) : Option String :=
  match step.target with
  | .tool name => some name
  | .flow _ => none

/-- `'{step.tool_name}'`. -/
def toolText (step : FlowStep) : String :=
  let name := (toolName? step).getD "None"
  s!"'{name}'"

/-- `tools.get(step.tool_name) if step.tool_name is not None else None`. -/
def toolOf (tools : OrderedDict Tool) (step : FlowStep) : Option Tool := (toolName? step).bind tools.get?

def isDisjoint (names others : List String) : Bool := names.all fun name => !others.contains name

theorem isDisjoint_iff {names others : List String} :
    isDisjoint names others = true ↔ ∀ name ∈ names, name ∉ others := by
  simp [isDisjoint]

-- Passthroughs

/-- `_suggest_wasteful_passthroughs`. -/
def suggestWastefulPassthroughs (flow : Flow) : List Suggestion :=
  flow.steps.zipIdx.filterMap fun entry =>
    if !entry.1.inputMapping.isEmpty then none
    else
      let tool := toolText entry.1
      some
        { code := .wastefulPassthrough, stepIndex := some entry.2, toolName := toolName? entry.1
          message := s!"Step {entry.2} ({tool}) uses an empty input_mapping. " ++
            "Consider an explicit mapping so the data flow is visible to readers." }

-- Pairs

/-- `_step_reads`. -/
def stepReads (step : FlowStep) : List String := step.sources

/-- What the consumer of a pair is taken to read. -/
def pairReads (fields : FieldNames) (tool : Tool) (step : FlowStep) : List String :=
  if step.inputMapping.isEmpty then fields tool.inputSchema else stepReads step

/-- The suggestion for one pair of neighbours, if there is one. -/
def parallelizablePair (fields : FieldNames) (tools : OrderedDict Tool) (idx : Nat) (a b : FlowStep) :
    Option Suggestion :=
  match toolOf tools a, toolOf tools b with
  | some toolA, some toolB =>
    let outputs := fields toolA.outputSchema
    let reads := pairReads fields toolB b
    if outputs.isEmpty || reads.isEmpty then none
    else if isDisjoint outputs reads then
      let first := toolText a
      let second := toolText b
      some
        { code := .parallelizablePair, stepIndex := some idx, toolName := toolName? a
          message := s!"Steps {idx} ({first}) and {idx + 1} ({second}) have disjoint output/input fields; " ++
            "they're DAG-eligible (promote to DAGFlow for parallel execution)." }
    else none
  | _, _ => none

/-- `_suggest_parallelizable_pairs`. -/
def suggestParallelizablePairs (fields : FieldNames) (flow : Flow) : Option (OrderedDict Tool) → List Suggestion
  | none => []
  | some tools =>
    (flow.steps.zip flow.steps.tail).zipIdx.filterMap fun entry =>
      parallelizablePair fields tools entry.2 entry.1.1 entry.1.2

-- Dead steps

/-- What a step adds to the reads the steps before it are held against. -/
def declaredReads (fields : FieldNames) (tools : OrderedDict Tool) (step : FlowStep) : List String :=
  if step.inputMapping.isEmpty then
    match toolOf tools step with
    | some tool => fields tool.inputSchema
    | none => []
  else stepReads step

/-- The loop from the last step to the first: `downstream_reads` and `accum`. -/
def readsFrom (fields : FieldNames) (tools : OrderedDict Tool) (steps : List FlowStep) :
    List (List String) × List String :=
  steps.foldr (fun step acc => (acc.2 :: acc.1, acc.2 ++ declaredReads fields tools step)) ([], [])

def downstreamReads (fields : FieldNames) (tools : OrderedDict Tool) (steps : List FlowStep) : List (List String) :=
  (readsFrom fields tools steps).1

/-- The suggestion for one step, if there is one. -/
def deadStep (fields : FieldNames) (tools : OrderedDict Tool) (idx : Nat) (step : FlowStep) (reads : List String) :
    Option Suggestion :=
  match toolOf tools step with
  | some tool =>
    let produced := fields tool.outputSchema
    if produced.isEmpty then none
    else if isDisjoint produced reads then
      let name := toolText step
      let listed := Exc.listRepr (produced.mergeSort (· ≤ ·))
      some
        { code := .deadStep, stepIndex := some idx, toolName := toolName? step
          message := s!"Step {idx} ({name}) outputs {listed} but no downstream step reads them. " ++
            "Remove the step or wire it into a downstream input_mapping." }
    else none
  | none => none

/-- `_suggest_dead_steps`. -/
def suggestDeadSteps (fields : FieldNames) (flow : Flow) : Option (OrderedDict Tool) → List Suggestion
  | none => []
  | some tools =>
    (flow.steps.dropLast.zip (downstreamReads fields tools flow.steps)).zipIdx.filterMap fun entry =>
      deadStep fields tools entry.2 entry.1.1 entry.1.2

-- Cacheable steps, and all families

/-- The signatures of the records at one place in all traces; `none` where one is missing
or failed. `dumps` is the canonical JSON text of outputs. -/
def signatures (dumps : Option Dict → String) (traces : List ExecutionResult) (idx : Nat) : Option (List String) :=
  traces.mapM fun trace =>
    trace.executionLog[idx]?.bind fun record => if record.success then some (dumps record.outputs) else none

/-- `_suggest_cacheable_steps`. -/
def suggestCacheableSteps (dumps : Option Dict → String) (flow : Flow) (traces : List ExecutionResult) :
    List Suggestion :=
  if traces.length < 2 then []
  else
    flow.steps.zipIdx.filterMap fun entry =>
      (signatures dumps traces entry.2).bind fun found =>
        if found.eraseDups.length = 1 then
          let tool := toolText entry.1
          some
            { code := .cacheableStep, stepIndex := some entry.2, toolName := toolName? entry.1
              message := s!"Step {entry.2} ({tool}) returned identical output across all " ++
                s!"{traces.length} observed traces — candidate for caching." }
        else none

/-- `suggest_optimizations`. -/
def suggestOptimizations (fields : FieldNames) (dumps : Option Dict → String) (tools : Option (List Tool))
    (traces : List ExecutionResult) : AnyFlow → List Suggestion
  | .dag _ => []
  | .linear flow =>
    let toolsByName := tools.map ChainAnalyzer.indexed
    suggestWastefulPassthroughs flow ++ suggestParallelizablePairs fields flow toolsByName ++
      suggestDeadSteps fields flow toolsByName ++
        if traces.isEmpty then [] else suggestCacheableSteps dumps flow traces

-- What a flag says

section

variable {fields : FieldNames} {tools : OrderedDict Tool} {flow : Flow} {suggestion : Suggestion}

theorem mem_readsFrom {steps : List FlowStep} :
    name ∈ (readsFrom fields tools steps).2 ↔ ∃ step ∈ steps, name ∈ declaredReads fields tools step := by
  induction steps with
  | nil => simp [readsFrom]
  | cons step rest ih =>
    change name ∈ (readsFrom fields tools rest).2 ++ declaredReads fields tools step ↔ _
    rw [List.mem_append, ih, List.exists_mem_cons_iff, or_comm]

theorem getElem?_downstreamReads {steps : List FlowStep} {idx : Nat} (h : idx < steps.length) :
    (downstreamReads fields tools steps)[idx]? = some (readsFrom fields tools (steps.drop (idx + 1))).2 := by
  induction steps generalizing idx with
  | nil => cases h
  | cons step rest ih =>
    cases idx with
    | zero => rfl
    | succ idx => exact ih (Nat.lt_of_succ_lt_succ h)

/-- The step is one of a tool that declares outputs, and no later step declares to read
any of them. -/
structure Flagged (fields : FieldNames) (tools : OrderedDict Tool) (step : FlowStep) (later : List FlowStep)
    (tool : Tool) : Prop where
  known : toolOf tools step = some tool
  outputs : fields tool.outputSchema ≠ []
  notLast : later ≠ []
  unread : ∀ name ∈ fields tool.outputSchema, ∀ other ∈ later, name ∉ declaredReads fields tools other

theorem deadStep_some {reads : List String} (h : deadStep fields tools idx step reads = some suggestion) :
    suggestion.stepIndex = some idx ∧ ∃ tool, toolOf tools step = some tool ∧ fields tool.outputSchema ≠ [] ∧
      ∀ name ∈ fields tool.outputSchema, name ∉ reads := by
  unfold deadStep at h
  split at h
  · next tool htool =>
    dsimp only at h
    split at h
    · cases h
    · next hempty =>
      split at h
      · next hdisjoint =>
        obtain rfl := Option.some.inj h
        exact ⟨rfl, tool, htool, by simpa using hempty, isDisjoint_iff.1 hdisjoint⟩
      · cases h
  · cases h

/-- What the suggestions say of the steps they name. -/
theorem flagged_of_mem (hmem : suggestion ∈ suggestDeadSteps fields flow (some tools))
    (hindex : suggestion.stepIndex = some idx) :
    ∃ step tool, flow.steps[idx]? = some step ∧ Flagged fields tools step (flow.steps.drop (idx + 1)) tool := by
  obtain ⟨⟨⟨step, reads⟩, place⟩, hplace, hstep⟩ := List.mem_filterMap.1 hmem
  obtain ⟨hown, tool, htool, houtputs, hunread⟩ := deadStep_some hstep
  obtain rfl : place = idx := Option.some.inj (hown.symm.trans hindex)
  obtain ⟨hstep, hreads⟩ := List.getElem?_zip_eq_some.1 (List.mem_zipIdx_iff_getElem?.1 hplace)
  have hlt : place + 1 < flow.steps.length := by
    have := (List.getElem?_eq_some_iff.1 hstep).1
    rw [List.length_dropLast] at this
    omega
  rw [getElem?_downstreamReads (Nat.lt_of_succ_lt hlt)] at hreads
  obtain rfl := Option.some.inj hreads
  refine ⟨step, tool, ?_, htool, houtputs, ?_, fun name hname other hother hread => ?_⟩
  · rwa [List.getElem?_dropLast, if_pos (by omega)] at hstep
  · refine List.ne_nil_of_length_pos ?_
    rw [List.length_drop]
    omega
  · exact hunread name hname (mem_readsFrom.2 ⟨other, hother, hread⟩)

theorem deadStep_of_flagged (h : Flagged fields tools step later tool)
    (hreads : ∀ name ∈ reads, ∃ other ∈ later, name ∈ declaredReads fields tools other) :
    ∃ suggestion, deadStep fields tools idx step reads = some suggestion ∧ suggestion.stepIndex = some idx := by
  have hdisjoint : isDisjoint (fields tool.outputSchema) reads = true := by
    refine isDisjoint_iff.2 fun name hname hread => ?_
    obtain ⟨other, hother, hdeclared⟩ := hreads name hread
    exact h.unread name hname other hother hdeclared
  unfold deadStep
  rw [h.known]
  dsimp only
  rw [if_neg (by simpa using h.outputs), if_pos hdisjoint]
  exact ⟨_, rfl, rfl⟩

/-- Every step of which that is so is named. -/
theorem exists_of_flagged (hstep : flow.steps[idx]? = some step)
    (h : Flagged fields tools step (flow.steps.drop (idx + 1)) tool) :
    ∃ suggestion ∈ suggestDeadSteps fields flow (some tools), suggestion.stepIndex = some idx := by
  have hlt : idx + 1 < flow.steps.length := by
    have := List.length_pos_iff.2 h.notLast
    rw [List.length_drop] at this
    omega
  obtain ⟨suggestion, hdead, hindex⟩ : ∃ suggestion,
      deadStep fields tools idx step (readsFrom fields tools (flow.steps.drop (idx + 1))).2 = some suggestion ∧
        suggestion.stepIndex = some idx :=
    deadStep_of_flagged h fun _ => mem_readsFrom.1
  refine ⟨suggestion, List.mem_filterMap.2 ⟨((step, _), idx), List.mem_zipIdx_iff_getElem?.2 ?_, hdead⟩, hindex⟩
  refine List.getElem?_zip_eq_some.2 ⟨?_, getElem?_downstreamReads (Nat.lt_of_succ_lt hlt)⟩
  rwa [List.getElem?_dropLast, if_pos (by omega)]

end

end ChainWeaver.Advice
