import ChainWeaver.Compiler
import ChainWeaver.StepSupply
import ChainWeaver.TopologyLaws

/-!
# What a check establishes

A step without errors has its sources and its required inputs in the context it was
checked against, and its tools give the outputs that it maps. That context holds
nothing but the fields of the flow's input and what earlier steps contribute.
-/

namespace ChainWeaver

namespace Compiler

variable {hashing : Hashing} {reflection : Reflection} {tools : OrderedDict Tool} {step : FlowStep} {tool : Tool}

-- Steps without errors

/-- The tool insists on this input. -/
def Requires (reflection : Reflection) (tool : Tool) (key : String) : Prop :=
  ∃ info : FieldInfo, (reflection.modelFields tool.inputSchema).get? key = some info ∧ info.isRequired = true

/-- The tool has the output keys that the step maps. -/
def Maps (reflection : Reflection) (step : FlowStep) (tool : Tool) : Prop :=
  ∀ mapping, step.outputMapping = some mapping → ∀ contextKey outputKey, (contextKey, outputKey) ∈ mapping.entries →
    (reflection.modelFields tool.outputSchema).contains outputKey = true

/-- What a step keeps to that was checked without errors. -/
structure Passes (reflection : Reflection) (tools : OrderedDict Tool) (step : FlowStep) (tool : Tool)
    (contextFields : ContextFields) : Prop where
  sources : ∀ source ∈ step.sources, Pointer.isPointer source = false → contextFields.contains source = true
  inputs : ∀ key, Requires reflection tool key → step.feeds contextFields key = true
  outputs : Maps reflection step tool
  fallback : ∀ name, step.onError = .fallback name → ∃ fallbackTool, tools.get? name = some fallbackTool ∧
    Maps reflection step fallbackTool

theorem missingInputs_nil
    (h : missingInputs reflection step stepIndex toolName tool issueType whose contextFields = []) :
    ∀ key, Requires reflection tool key → step.feeds contextFields key = true := by
  rintro key ⟨info, hget, hrequired⟩
  have hnone := List.filterMap_eq_nil_iff.1 h (key, info) (OrderedDict.get?_eq_some_iff.1 hget)
  by_contra hfeeds
  simp [hrequired, hfeeds] at hnone

theorem unknownOutputs_nil (h : unknownOutputs hashing reflection step stepIndex toolName tool = []) :
    Maps reflection step tool := by
  intro mapping hmapping contextKey outputKey hmem
  rw [unknownOutputs, hmapping] at h
  have hnone := List.filterMap_eq_nil_iff.1 h (contextKey, outputKey) hmem
  by_contra hlacks
  simp [hlacks] at hnone

theorem validateFallbackOutputs_nil {fallbackTool : Tool}
    (h : (validateFallbackOutputs hashing reflection stepIndex tool fallbackTool step.outputMapping).1 = []) :
    Maps reflection step fallbackTool := by
  intro mapping hmapping contextKey outputKey hmem
  simp only [validateFallbackOutputs, hmapping] at h
  have hnone := List.filterMap_eq_nil_iff.1 h (contextKey, outputKey) hmem
  by_contra hlacks
  simp [hlacks] at hnone

theorem mappingErrors_nil {contextFields : ContextFields} {source : String}
    (h : mappingErrors hashing reflection stepIndex toolName tool contextFields targetKey (.str source) = [])
    (hp : Pointer.isPointer source = false) : contextFields.contains source = true := by
  have hkey := (List.append_eq_nil_iff.1 h).2
  simp only [hp, Bool.false_eq_true, if_false, keyErrors] at hkey
  cases hget : contextFields.get? source with
  | none => simp [hget] at hkey
  | some type => exact OrderedDict.contains_iff.2 ⟨type, hget⟩

theorem validateToolStep_passes {contextFields : ContextFields}
    (h : (validateToolStep hashing reflection tools step stepIndex toolName tool policy contextFields).errors = []) :
    Passes reflection tools step tool contextFields := by
  simp only [validateToolStep, List.append_eq_nil_iff] at h
  obtain ⟨⟨⟨⟨hmissing, hmapping⟩, hinputs⟩, hfallback⟩, houtputs⟩ := h
  refine ⟨fun source hsource hp => ?_, missingInputs_nil hinputs, unknownOutputs_nil houtputs, fun name hname => ?_⟩
  · obtain ⟨⟨key, value⟩, hmem, hvalue⟩ := List.mem_filterMap.1 hsource
    obtain rfl : value = .str source := by cases value <;> simp_all
    exact mappingErrors_nil (List.flatMap_eq_nil_iff.1 hmapping _ hmem) hp
  · cases hget : tools.get? name with
    | none => simp [findFallback, hname, hget] at hmissing
    | some fallbackTool =>
      simp only [findFallback, hname, hget, Except.toOption, Option.getD_some, fallbackCheck,
        List.append_eq_nil_iff] at hfallback
      exact ⟨fallbackTool, rfl, validateFallbackOutputs_nil hfallback.2⟩

/-- A tool step that was checked without errors. -/
theorem validateStep_passes {contextFields : ContextFields} (htarget : step.target = .tool name)
    (h : (validateStep hashing reflection tools step .tool stepIndex policy contextFields).errors = []) :
    ∃ tool, tools.get? name = some tool ∧ Passes reflection tools step tool contextFields ∧
      (validateStep hashing reflection tools step .tool stepIndex policy contextFields).contribution =
        contributionOf reflection step tool := by
  unfold validateStep at h ⊢
  simp only [htarget] at h ⊢
  cases hget : tools.get? name with
  | none => simp [hget] at h
  | some tool =>
    simp only [hget] at h ⊢
    exact ⟨tool, rfl, validateToolStep_passes h, rfl⟩

-- Where the keys of a context come from

/-- The step adds the key to the context its successors are checked against. -/
def Contributes (reflection : Reflection) (tools : OrderedDict Tool) (step : FlowStep) (key : String) : Prop :=
  ∃ name tool, step.target = .tool name ∧ tools.get? name = some tool ∧
    (contributionOf reflection step tool).contains key = true

/-- The key is one of the flow's input, or one of the steps contributes it. -/
def Promised (reflection : Reflection) (tools : OrderedDict Tool) (baseFields : ContextFields)
    (before : List FlowStep) (key : String) : Prop :=
  baseFields.contains key = true ∨ ∃ earlier ∈ before, Contributes reflection tools earlier key

/-- The step passes against a context of promised keys. -/
def PassesBehind (reflection : Reflection) (tools : OrderedDict Tool) (baseFields : ContextFields)
    (before : List FlowStep) (step : FlowStep) : Prop :=
  ∃ name tool contextFields, step.target = .tool name ∧ tools.get? name = some tool ∧
    Passes reflection tools step tool contextFields ∧
    ∀ key, contextFields.contains key = true → Promised reflection tools baseFields before key

variable {baseFields : ContextFields} {before done : List FlowStep}

theorem Promised.mono (h : Promised reflection tools baseFields before key) (hsub : ∀ step ∈ before, step ∈ done) :
    Promised reflection tools baseFields done key :=
  h.imp_right fun ⟨earlier, hmem, hkey⟩ => ⟨earlier, hsub _ hmem, hkey⟩

theorem compileSteps_passes {steps : List FlowStep} {contextFields : ContextFields} (done : List FlowStep)
    (htools : ∀ step ∈ steps, ∃ name, step.target = .tool name)
    (h : ∀ c ∈ (compileSteps hashing reflection tools policy steps stepIndex contextFields).1, c.check.errors = [])
    (hfields : ∀ key, contextFields.contains key = true → Promised reflection tools baseFields done key) :
    ∀ before step after, steps = before ++ step :: after →
      PassesBehind reflection tools baseFields (done ++ before) step := by
  induction steps generalizing done stepIndex contextFields with
  | nil =>
    intro before step after hsteps
    simp at hsteps
  | cons first rest ih =>
    obtain ⟨name, htarget⟩ := htools first (by simp)
    simp only [compileSteps, List.forall_mem_cons] at h
    obtain ⟨tool, hget, hpasses, hcontribution⟩ := validateStep_passes htarget h.1
    intro before step after hsteps
    cases before with
    | nil =>
      obtain ⟨rfl, rfl⟩ := List.cons.inj hsteps
      rw [List.append_nil]
      exact ⟨name, tool, contextFields, htarget, hget, hpasses, hfields⟩
    | cons other before =>
      obtain ⟨rfl, hrest⟩ := List.cons.inj hsteps
      rw [List.append_cons]
      refine ih (done ++ [first]) (fun step hmem => htools step (by simp [hmem])) h.2 (fun key hkey => ?_) before step after hrest
      rw [OrderedDict.contains_update, Bool.or_eq_true] at hkey
      rcases hkey with hkey | hkey
      · exact (hfields key hkey).mono (by simp +contextual)
      · exact .inr ⟨first, by simp, name, tool, htarget, hget, hcontribution ▸ hkey⟩

-- DAG flows

section Dag

open ChainWeaver.Topology

variable {flow : DAGFlow} {step : DAGFlowStep} {steps : List DAGFlowStep} {height : String → Nat} {levels : List (List DAGFlowStep)}

theorem contains_stepContext {available : OrderedDict ContextFields} {dependsOn : List String}
    (h : (stepContext baseFields available dependsOn).contains key = true) :
    baseFields.contains key = true ∨
      ∃ dep ∈ dependsOn, ∃ fields, available.get? dep = some fields ∧ fields.contains key = true := by
  unfold stepContext at h
  induction dependsOn generalizing baseFields with
  | nil => exact .inl h
  | cons dep rest ih =>
    rw [List.foldl_cons] at h
    rcases ih h with hkey | ⟨other, hother, hfields⟩
    · cases hget : available.get? dep with
      | none =>
        rw [hget] at hkey
        exact .inl hkey
      | some fields =>
        rw [hget, Option.elim_some, OrderedDict.contains_update, Bool.or_eq_true] at hkey
        exact hkey.imp_right fun hkey => ⟨dep, by simp, fields, hget, hkey⟩
    · exact .inr ⟨other, by simp [hother], hfields⟩

/-- The steps below a height. -/
def stepsBelow (steps : List DAGFlowStep) (height : String → Nat) (n : Nat) : List FlowStep :=
  (steps.filter fun step => height step.stepId < n).map DAGFlowStep.toFlowStep

/-- What a step hands down comes from steps no higher than itself. -/
def HandsDown (reflection : Reflection) (tools : OrderedDict Tool) (baseFields : ContextFields) (steps : List DAGFlowStep)
    (height : String → Nat) (available : OrderedDict ContextFields) : Prop :=
  ∀ stepId fields, available.get? stepId = some fields → ∀ key, fields.contains key = true →
    Promised reflection tools baseFields
      (stepsBelow steps height (height stepId + 1)) key

theorem mem_stepsBelow {step : FlowStep} : step ∈ stepsBelow steps height n ↔
    ∃ dagStep ∈ steps, height dagStep.stepId < n ∧ dagStep.toFlowStep = step := by
  simp [stepsBelow, and_assoc]

theorem keys_zipIdx (h : (ids steps).Nodup) :
    ((steps.zipIdx.map fun (step, index) => (step.stepId, step, index)).map Prod.fst).Nodup := by
  have hkeys : (steps.zipIdx.map fun (step, index) => (step.stepId, step, index)).map Prod.fst =
      (steps.zipIdx.map Prod.fst).map (·.stepId) := by
    rw [List.map_map, List.map_map]
    rfl
  rw [hkeys, List.zipIdx_map_fst]
  exact h

/-- The step behind an id, as the compiler looks it up. -/
theorem declared_lookup (h : (ids flow.steps).Nodup) (hstep : step ∈ flow.steps) : ∃ index,
    (OrderedDict.ofList (flow.steps.zipIdx.map fun (step, index) => (step.stepId, step, index))).get? step.stepId =
      some (step, index) := by
  obtain ⟨index, hindex, rfl⟩ := List.mem_iff_getElem.1 hstep
  refine ⟨index, OrderedDict.get?_eq_some_iff.2 ?_⟩
  rw [OrderedDict.entries_ofList (keys_zipIdx h)]
  exact List.mem_map.2 ⟨(flow.steps[index], index), List.mk_mem_zipIdx_iff_getElem?.2 (by simp), rfl⟩

theorem lookup_declared (h : (ids flow.steps).Nodup)
    (hget : (OrderedDict.ofList (flow.steps.zipIdx.map fun (step, index) => (step.stepId, step, index))).get? stepId =
      some (step, index)) : step ∈ flow.steps ∧ step.stepId = stepId := by
  have hmem := OrderedDict.get?_eq_some_iff.1 hget
  rw [OrderedDict.entries_ofList (keys_zipIdx h)] at hmem
  obtain ⟨⟨other, place⟩, hother, heq⟩ := List.mem_map.1 hmem
  obtain ⟨rfl, rfl, rfl⟩ : other.stepId = stepId ∧ other = step ∧ place = index := by simpa using heq
  exact ⟨List.fst_mem_of_mem_zipIdx hother, rfl⟩

theorem compileDagSteps_passes (hlevelled : Levelled flow.steps height levels)
    (htools : ∀ step ∈ flow.steps, step.stepType = .tool ∧ ∃ name, step.target = .tool name)
    {order : List String} {available : OrderedDict ContextFields}
    (h : ∀ c ∈ (compileDagSteps hashing reflection tools flow baseFields order available final).1, c.check.errors = [])
    (havailable : HandsDown reflection tools baseFields flow.steps height available) :
    ∀ step ∈ flow.steps, step.stepId ∈ order →
      PassesBehind reflection tools baseFields (stepsBelow flow.steps height (height step.stepId)) step.toFlowStep := by
  induction order generalizing available final with
  | nil => simp
  | cons stepId rest ih =>
    unfold compileDagSteps at h
    intro step hstep horder
    cases hget : (OrderedDict.ofList (flow.steps.zipIdx.map fun (step, index) => (step.stepId, step, index))).get? stepId with
    | none =>
      rw [hget] at h
      refine ih h havailable step hstep ((List.mem_cons.1 horder).resolve_left ?_)
      rintro rfl
      obtain ⟨index, hfound⟩ := declared_lookup hlevelled.nodup hstep
      exact nomatch hget.symm.trans hfound
    | some found =>
      obtain ⟨first, index⟩ := found
      rw [hget] at h
      simp only [List.forall_mem_cons] at h
      obtain ⟨hfirst, rfl⟩ := lookup_declared hlevelled.nodup hget
      obtain ⟨htype, name, htarget⟩ := htools first hfirst
      rw [htype] at h
      obtain ⟨tool, htool, hpasses, hcontribution⟩ := validateStep_passes htarget h.1
      have hfields : ∀ key, (stepContext baseFields available first.dependsOn).contains key = true →
          Promised reflection tools baseFields (stepsBelow flow.steps height (height first.stepId)) key := by
        intro key hkey
        rcases contains_stepContext hkey with hkey | ⟨dep, hdep, fields, hfields, hkey⟩
        · exact .inl hkey
        · obtain ⟨_, _, rfl, hlt⟩ := hlevelled.dependency hfirst hdep
          refine (havailable _ fields hfields key hkey).mono fun step hmem => ?_
          obtain ⟨dagStep, hdag, hle, rfl⟩ := mem_stepsBelow.1 hmem
          exact mem_stepsBelow.2 ⟨dagStep, hdag, by omega, rfl⟩
      by_cases hsame : step.stepId = first.stepId
      · obtain rfl := hlevelled.unique hstep hfirst hsame.symm
        exact ⟨name, tool, _, htarget, htool, hpasses, hfields⟩
      · refine ih h.2 (fun stepId fields hget key hkey => ?_) step hstep ((List.mem_cons.1 horder).resolve_left hsame)
        rw [OrderedDict.get?_insert] at hget
        split at hget
        · next heq =>
          subst heq
          obtain rfl := Option.some.inj hget
          rw [OrderedDict.contains_update, Bool.or_eq_true] at hkey
          rcases hkey with hkey | hkey
          · refine (hfields key hkey).mono fun step hmem => ?_
            obtain ⟨dagStep, hdag, hlt, rfl⟩ := mem_stepsBelow.1 hmem
            exact mem_stepsBelow.2 ⟨dagStep, hdag, by omega, rfl⟩
          · exact .inr ⟨first.toFlowStep, mem_stepsBelow.2 ⟨first, hfirst, by omega, rfl⟩, name, tool, htarget, htool,
              hcontribution ▸ hkey⟩
        · exact havailable stepId fields hget key hkey

theorem mem_compileOrder (h : Sorted hashing steps) (hstep : step ∈ steps) :
    step.stepId ∈ compileOrder hashing steps := by
  have hdeclared : (OrderedDict.ofList (steps.map fun step => (step.stepId, step))).entries.map Prod.snd = steps := by
    rw [OrderedDict.entries_ofList (by simpa [Function.comp_def, ids] using h.nodup)]
    simp [Function.comp_def]
  have hid : step.stepId ∈ ids steps := List.mem_map_of_mem hstep
  unfold compileOrder
  dsimp only
  rw [hdeclared]
  split
  · exact hid
  · exact h.perm.mem_iff.2 hid

end Dag

end Compiler

end ChainWeaver
