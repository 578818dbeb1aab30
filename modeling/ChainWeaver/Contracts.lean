import ChainWeaver.Cost
import ChainWeaver.Data.Attempt

/-!
# Output contracts

What a step hands on has passed its output contract where it comes from the step's own
tool, by a call, a retry, a stream or the cache. Outputs of a fallback tool, of a
preview and of a sub-flow are not checked against it.
-/

namespace ChainWeaver.Executor

open Interaction (Frame)

section

variable (executor : Executor)

/-- The outputs are what the step promises. -/
def MeetsContract (step : FlowStep) (outputs : Dict) : Prop :=
  ∀ ref, step.outputContract = some ref → ∃ schema value,
    executor.platform.resolveClassRef ref = .ok schema ∧
      executor.platform.modelValidate schema (.dict outputs.entries) = .ok value

/-- A step at an index gets its outputs from its fallback, or from a preview of one of
its tools. -/
def Unchecked (step : FlowStep) (stepIndex : Int) : Event → Prop
  | ⟨.probe, .fallback _ index _ fallbackName, _⟩ => index = stepIndex ∧ step.onError = .fallback fallbackName
  | ⟨.runDry, invocation, _⟩ =>
    invocation.stepIndex = stepIndex ∧ ∃ toolName, executor.getTool toolName = .ok invocation.tool ∧
      (toolName ∈ executor.runnable step ∨ step.onError = .fallback toolName)
  | _ => False

/-- What the record of a step that was not skipped hands on meets the contract. -/
def Honours (step : FlowStep) (record : StepRecord) : Prop :=
  record.success = true → record.skipped = false → ∀ outputs, record.outputs = some outputs →
    executor.MeetsContract step outputs

end

variable {executor : Executor} {nested : Nested} {info : StepInfo} {lane : Lane} {step : FlowStep}

theorem checkStepContract_none
    (h : executor.checkStepContract toolName stepIndex outputs step.outputContract label = .ok none) :
    executor.MeetsContract step outputs := by
  intro ref href
  rw [href] at h
  obtain ⟨schema, hschema, h⟩ := Attempt.bind_eq_ok.1 h
  obtain ⟨detail, hvalid, h⟩ := Attempt.bind_eq_ok.1 h
  cases detail with
  | some detail => cases h
  | none =>
    unfold validationError at hvalid
    split at hvalid
    · next value hvalue => exact ⟨schema, value, hschema, hvalue⟩
    · cases hvalid
    · cases hvalid

theorem Honours.failWith {record : StepRecord} : executor.Honours step (record.failWith e) := nofun

/-- The events of runs in which a step gets all its outputs checked. -/
abbrev Checked (executor : Executor) (step : FlowStep) (stepIndex : Int) (e : Event) : Prop :=
  ¬executor.Unchecked step stepIndex e

variable {A : Event → Prop} {tool : Tool} {toolName : String} {inputs : Dict} {record : StepRecord}

/-- Nothing is asked of a part that hands on no outputs. -/
theorem given_free {c : Exec α} : anyFrame.Given A c (fun _ => True) anyError :=
  given_any.assume fun _ _ => trivial

theorem settleOutputs_honours :
    anyFrame.Given A (executor.settleOutputs info step toolName key record outputs) (executor.Honours step)
      anyError := by
  unfold settleOutputs
  refine (given_ofExcept fun _ _ => trivial).bind fun violation hviolation => ?_
  cases violation with
  | some e => exact .pure .failWith
  | none =>
    have hdone : executor.Honours step (record.succeedWith outputs) := by
      rintro - - other hother
      exact Option.some.inj hother ▸ checkStepContract_none hviolation
    dsimp only
    split
    · exact .ask_bind fun reply _ => (given_ofExcept fun _ _ => trivial).bind fun _ _ => .pure hdone
    · exact .pure hdone

/-- Without a preview a dry run leaves no outputs, or the tool to run. -/
theorem dryDispatch_honours (hname : executor.getTool name = .ok tool)
    (hrunnable : name ∈ executor.runnable step ∨ step.onError = .fallback name) :
    anyFrame.Given (executor.Checked step info.stepIndex) (executor.dryDispatch lane info toolName tool inputs record)
      (fun dryRecord => ∀ other, dryRecord = some other → executor.Honours step other) anyError := by
  unfold dryDispatch
  refine .get_bind fun state _ => ?_
  split
  · unfold dryRunStep
    split
    · exact .pure nofun
    split
    · unfold runDry
      split
      · refine Frame.Given.bind (Q := fun outcome => ∃ e, outcome = .error e) (.pure ⟨_, rfl⟩)
          fun outcome houtcome => ?_
        obtain ⟨e, rfl⟩ := houtcome
        refine .pure fun other hother => ?_
        exact Option.some.inj hother ▸ .failWith
      · refine Frame.Given.bind (Q := fun _ => False) (.ask_bind fun reply hreply => ?_) fun _ h => h.elim
        exact absurd ⟨rfl, name, hname, hrunnable⟩ hreply
    · refine .get_bind fun other _ => ?_
      split
      · refine .pure fun other hother => ?_
        exact Option.some.inj hother ▸ .failWith
      · refine .pure fun other hother => ?_
        obtain rfl := Option.some.inj hother
        intro _ hskipped
        cases hskipped
  · exact .pure nofun

theorem applyOnError_honours (inputs : Dict) (record : StepRecord) (retryErrors : List String) (wrapped : Exc) :
    anyFrame.Given (executor.Checked step info.stepIndex)
      (executor.applyOnError lane nested info step toolName inputs record retryErrors wrapped)
      (executor.Honours step) anyError := by
  unfold applyOnError
  split
  · exact .pure .failWith
  · refine .pure fun _ hskipped => ?_
    cases hskipped
  next fallbackName hfallback =>
  unfold runFallback
  dsimp only
  split
  · exact .pure .failWith
  next tool htool =>
  refine given_free.bind fun gate _ => ?_
  obtain ⟨refusal, approval⟩ := gate
  cases refusal with
  | some e => exact .pure nofun
  | none =>
    dsimp only
    refine (dryDispatch_honours htool (.inr hfallback)).bind fun dryRecord hdry => ?_
    cases dryRecord with
    | some other => exact .pure (hdry other rfl)
    | none => exact .ask_bind fun _ hprobe => absurd ⟨rfl, hfallback⟩ hprobe

theorem runCached_honours (inputs : Dict) (record : StepRecord) :
    anyFrame.Given (executor.Checked step info.stepIndex)
      (executor.runCached lane nested info step toolName tool inputs record) (executor.Honours step) anyError := by
  unfold runCached
  refine .get_bind fun state _ => given_free.bind fun key _ => given_free.bind fun found _ => ?_
  cases found with
  | some outputs =>
    refine settleOutputs_honours.bind fun settled hsettled => .pure ?_
    exact fun hsuccess hskipped => hsettled hsuccess hskipped
  | none =>
    refine given_free.bind fun invoked _ => ?_
    dsimp only
    split
    · exact applyOnError_honours _ _ _ _
    · exact settleOutputs_honours

theorem dispatchTool_honours (htool : executor.getTool name = .ok tool) (hrunnable : name ∈ executor.runnable step)
    (inputs : Dict) (record : StepRecord) :
    anyFrame.Given (executor.Checked step info.stepIndex)
      (executor.dispatchTool lane nested info step toolName tool inputs record) (executor.Honours step) anyError := by
  unfold dispatchTool
  cases lane with
  | sync =>
    refine (dryDispatch_honours htool (.inl hrunnable)).bind fun dryRecord hdry => ?_
    cases dryRecord with
    | some other => exact .pure (hdry other rfl)
    | none => exact runCached_honours _ _
  | async =>
    dsimp only
    split
    · unfold runStreamingStep
      refine given_free.bind fun streamed _ => ?_
      cases streamed with
      | error e => exact applyOnError_honours _ _ _ _
      | ok outputs => exact settleOutputs_honours
    · exact runCached_honours _ _

/-- What the checks before a tool runs hand on. -/
inductive Prepares (executor : Executor) (step : FlowStep) (toolName : String) : Except StepRecord (Tool × Dict) → Prop
  | error {record : StepRecord} (h : executor.Honours step record) : Prepares executor step toolName (.error record)
  | ok {tool : Tool} {inputs : Dict} (h : executor.getTool toolName = .ok tool) :
    Prepares executor step toolName (.ok (tool, inputs))

theorem executeToolStep_honours (decision : Option DecisionRecord) (context : Dict) :
    anyFrame.Given (executor.Checked step info.stepIndex)
      (executor.executeToolStep lane nested info step decision context) (executor.Honours step) anyError := by
  unfold executeToolStep
  refine (given_displayName trivial).bind fun toolName hname => ?_
  have hprepare : ∀ blank, anyFrame.Given (executor.Checked step info.stepIndex)
      (executor.prepareStep info step toolName context blank) (executor.Prepares step toolName) anyError := by
    intro blank
    unfold prepareStep
    split
    · exact .pure (.error .failWith)
    next tool htool =>
    split
    · exact .pure (.error .failWith)
    refine given_free.bind fun violation _ => ?_
    cases violation with
    | some e => exact .pure (.error .failWith)
    | none => exact .pure (.ok htool)
  refine (hprepare _).bind fun prepared hprepared => ?_
  cases hprepared with
  | error hrecord => exact given_free.bind fun _ _ => .pure hrecord
  | ok htool =>
    refine given_free.bind fun _ _ => Frame.Given.bind (Q := executor.Honours step) ?_ fun record hrecord =>
      given_free.bind fun _ _ => .pure hrecord
    unfold runToolStep
    refine given_free.bind fun gate _ => ?_
    obtain ⟨refusal, approval⟩ := gate
    cases refusal with
    | some e => exact .pure .failWith
    | none =>
      refine given_free.bind fun blocked _ => ?_
      cases blocked with
      | some e => exact .pure .failWith
      | none => exact dispatchTool_honours htool (runnable_displayName executor hname) _ _

theorem Unchecked.mono {e : Event} (honError : step'.onError = step.onError)
    (hrunnable : ∀ name ∈ executor.runnable step', name ∈ executor.runnable step)
    (h : executor.Unchecked step' stepIndex e) : executor.Unchecked step stepIndex e := by
  unfold Unchecked at h
  split at h
  · exact ⟨h.1, honError.symm.trans h.2⟩
  · obtain ⟨hindex, toolName, hget, hwhich⟩ := h
    exact ⟨hindex, toolName, hget, hwhich.imp (hrunnable _) honError.symm.trans⟩
  · exact h.elim

theorem chooseTool_contract {hc : step.decisionCandidates = some candidates}
    (h : chooseTool info policy step hc defaultName answer = .ok (step', decision)) :
    step'.outputContract = step.outputContract := by
  unfold chooseTool at h
  split at h
  · split at h <;> cases h
    rfl
  · cases h
  · split at h
    · split at h <;> cases h <;> rfl
    · cases h

/-- What a decision hands on to the step. -/
inductive Resolves (executor : Executor) (step : FlowStep) :
    Except StepRecord (FlowStep × Option DecisionRecord) → Prop
  | error {record : StepRecord} (h : executor.Honours step record) : Resolves executor step (.error record)
  | ok {step' : FlowStep} {decision : Option DecisionRecord} (hcontract : step'.outputContract = step.outputContract)
    (h : Decided executor step step') :
    Resolves executor step (.ok (step', decision))

/-- One step, in either lane. -/
theorem executeStepIn_honours (htool : ∀ subName, step.target ≠ .flow subName) (context : Dict)
    (cancellation : Cancellation) :
    anyFrame.Given (executor.Checked step info.stepIndex)
      (executor.executeStepIn lane nested info step context cancellation) (executor.Honours step) anyError := by
  unfold executeStepIn
  split
  · next subName htarget => exact absurd htarget (htool subName)
  cases lane with
  | async => exact executeToolStep_honours _ _
  | sync =>
    have hresolve : anyFrame.Given (executor.Checked step info.stepIndex) (executor.resolveDecision info step context)
        (executor.Resolves step) anyError := by
      unfold resolveDecision
      split
      · exact .pure (.ok rfl ⟨rfl, rfl, htool, fun _ => id⟩)
      split
      · exact .pure (.ok rfl ⟨rfl, rfl, htool, fun _ => id⟩)
      next hcallback =>
      refine given_free.bind fun defaultName _ => given_free.bind fun _ _ => given_free.bind fun answer _ => ?_
      split
      · unfold decisionFailed
        exact .bind (given_free.bind fun _ _ => .pure .failWith) fun record hrecord => .pure (.error hrecord)
      · next hchosen =>
        exact .pure (.ok (chooseTool_contract hchosen) (chooseTool_decided (by simpa using hcallback) htool hchosen))
    refine hresolve.bind fun resolved hresolved => ?_
    cases hresolved with
    | error hrecord => exact .pure hrecord
    | @ok step' decision hcontract hdecided =>
      have hchecked : ∀ e, executor.Checked step info.stepIndex e → executor.Checked step' info.stepIndex e :=
        fun e he hun => he (hun.mono hdecided.onError hdecided.runnable)
      refine ((executeToolStep_honours _ context).assume hchecked).post ?_
      intro record hrecord hsuccess hskipped outputs houtputs ref href
      exact hrecord hsuccess hskipped outputs houtputs ref (hcontract.trans href)

-- Runs

/-- The tool step, or the composed step, that runs at an index of a flow. -/
def StepAt (executor : Executor) (flow : AnyFlow) (index : Nat) (step : FlowStep) : Prop :=
  match flow with
  | .linear flow => flow.steps[index]? = some step
  | .dag flow => ∃ levels node, computeDagLevels executor.platform.hashing flow = .ok levels ∧
      levels.flatten[index]? = some node ∧ node.stepType = .tool ∧ node.toFlowStep = step

/-- The records of the steps of a flow. -/
def HonoursAll (executor : Executor) (flow : AnyFlow) (log : List StepRecord) : Prop :=
  ∀ record ∈ log, ∀ (index : Nat) step, executor.StepAt flow index step → record.stepIndex = index →
    executor.Honours step record

/-- The account of what steps hand on. -/
def promises (executor : Executor) (flow : AnyFlow) : Ledger α where
  At _ _ _ log := executor.HonoursAll flow log
  Made index _ _ record :=
    record.stepIndex = (index : Int) ∧ ∀ step, executor.StepAt flow index step → executor.Honours step record
  Over result := executor.HonoursAll flow result.executionLog

/-- No step that promises something has a sub-flow. -/
def Uncomposed (executor : Executor) (flow : AnyFlow) : Prop :=
  ∀ index step, executor.StepAt flow index step → step.outputContract.isSome → ∀ subName, step.target ≠ .flow subName

/-- The outputs of the steps that promise something are checked. -/
def CheckedAll (executor : Executor) (flow : AnyFlow) (e : Event) : Prop :=
  ∀ (index : Nat) step, executor.StepAt flow index step → step.outputContract.isSome → executor.Checked step index e

section

variable {flow : AnyFlow} {log : List StepRecord}

theorem HonoursAll.nil : executor.HonoursAll flow [] := nofun

theorem HonoursAll.concat (h : executor.HonoursAll flow log)
    (hrecord : ∀ (index : Nat) step, executor.StepAt flow index step → record.stepIndex = index →
      executor.Honours step record) : executor.HonoursAll flow (log ++ [record]) := by
  intro other hother
  rcases List.mem_append.1 hother with hother | hother
  · exact h other hother
  · exact List.mem_singleton.1 hother ▸ hrecord

theorem HonoursAll.failed (h : executor.HonoursAll flow log) (hfailed : record.success = false) :
    executor.HonoursAll flow (log ++ [record]) :=
  h.concat fun _ _ _ _ hsuccess => nomatch hfailed.symm.trans hsuccess

theorem HonoursAll.reported (h : executor.HonoursAll flow log)
    (hresult : executor.Reports success output log count result) : executor.HonoursAll flow result.executionLog :=
  hresult.executionLog ▸ h

theorem promises_sound {mapping : α → Option (OrderedDict String)} {order : List α} :
    (executor.promises flow).Sound executor mapping order False where
  placed _ h hmade _ _ _ := h.concat fun index step hstep hindex => by
    obtain rfl := Int.ofNat.inj (hindex.symm.trans hmade.1)
    exact hmade.2 step hstep
  merged h _ := h
  failed _ h _ _ hfailed hresult := (h.failed hfailed).reported hresult
  finished h hresult := h.reported hresult
  refused h hrefused hresult := (h.failed hrefused.failed).reported hresult

variable {Inv : RunScopedState → Prop} {cancellation : Cancellation}

/-- A step that promises nothing keeps what it promises. -/
theorem Honours.free {step : FlowStep} (h : step.outputContract = none) : executor.Honours step record :=
  fun _ _ _ _ _ href => nomatch h.symm.trans href

theorem executeStepIn_promises {index : Nat} (hflow : executor.Uncomposed flow) (hstable : Stable Inv)
    (hn : ∀ lane flowName input cancellation, Stays Inv (nested.entry lane flowName input cancellation))
    (hindex : info.stepIndex = index)
    (hsame : ∀ step', executor.StepAt flow index step' → step.outputContract = step'.outputContract ∧
      step.target = step'.target ∧ step.onError = step'.onError ∧
        ∀ name ∈ executor.runnable step, name ∈ executor.runnable step') :
    (frame Inv).Given (executor.CheckedAll flow)
      (executor.executeStepIn lane nested info step context cancellation)
      ((executor.promises (α := α) flow).Made index node context) anyError := by
  intro state events r state' hs hevents hrun
  obtain ⟨hs', hindexed⟩ := executeStepIn_indexed hstable hn hindex state events r state' hs (fun _ _ => trivial) hrun
  refine ⟨hs', ?_⟩
  cases r with
  | error e => trivial
  | ok record =>
    refine ⟨hindexed, fun step' hstep' => ?_⟩
    obtain ⟨hcontract, htarget, honError, hrunnable⟩ := hsame step' hstep'
    cases hpromise : step'.outputContract with
    | none => exact .free hpromise
    | some ref =>
      have hsome : step'.outputContract.isSome := by simp [hpromise]
      have htool : ∀ subName, step.target ≠ .flow subName := fun subName =>
        htarget ▸ hflow index step' hstep' hsome subName
      have hchecked : ∀ e ∈ events, executor.Checked step info.stepIndex e := fun e he hun =>
        hevents e he index step' hstep' hsome (hindex ▸ hun.mono honError hrunnable)
      intro hsuccess hskipped outputs houtputs other hother
      have hhonours := executeStepIn_honours htool context cancellation state events _ state' trivial hchecked hrun
      exact hhonours.2 hsuccess hskipped outputs houtputs other (hcontract.trans hother)

end

section

variable {Inv : RunScopedState → Prop} {cancellation : Cancellation}

theorem promises_linear {flow : Flow} {lane : Lane} (hflow : executor.Uncomposed (.linear flow)) (hstable : Stable Inv)
    (hn : ∀ lane flowName input cancellation, Stays Inv (nested.entry lane flowName input cancellation)) :
    (executor.promises (.linear flow)).Linear executor Inv (executor.CheckedAll (.linear flow)) anyError flow flow.steps
      False ⟨lane, false⟩ nested cancellation where
  sound := promises_sound
  surroundings := surroundings_any
  escapes := Ledger.escapes_any
  named _ _ _ := trivial
  merges := False.elim
  step hstep info hindex context := executeStepIn_promises hflow hstable hn hindex fun step' hstep' => by
    obtain rfl := Option.some.inj (hstep.symm.trans hstep')
    exact ⟨rfl, rfl, rfl, fun _ => id⟩

variable {flow : DAGFlow} {levels : List (List DAGFlowStep)}

theorem stepAt_node (hlevels : computeDagLevels executor.platform.hashing flow = .ok levels)
    (hnode : levels.flatten[index]? = some node) (h : executor.StepAt (.dag flow) index step) :
    node.stepType = .tool ∧ node.toFlowStep = step := by
  obtain ⟨levels', other, hlevels', hother, htool, hstep⟩ := h
  obtain rfl := Except.ok.inj (hlevels.symm.trans hlevels')
  obtain rfl := Option.some.inj (hnode.symm.trans hother)
  exact ⟨htool, hstep⟩

theorem promises_levelled (order : List DAGFlowStep) :
    (executor.promises (.dag flow)).Levelled executor (executor.CheckedAll (.dag flow)) anyError flow order False where
  sound := promises_sound
  surroundings := surroundings_any
  escapes := Ledger.escapes_any
  named _ _ _ := trivial
  merges := False.elim

theorem promises_stepped (hflow : executor.Uncomposed (.dag flow)) (hstable : Stable Inv)
    (hn : ∀ lane flowName input cancellation, Stays Inv (nested.entry lane flowName input cancellation))
    (hlevels : computeDagLevels executor.platform.hashing flow = .ok levels) :
    (executor.promises (.dag flow)).Stepped executor Inv (executor.CheckedAll (.dag flow)) anyError flow levels.flatten
      False nested cancellation where
  toLevelled := promises_levelled _
  skipped _ h name := h.concat fun _ _ _ _ _ hskipped => nomatch hskipped
  tool hnode _ info hindex context := executeStepIn_promises hflow hstable hn hindex fun step' hstep' => by
    obtain ⟨-, rfl⟩ := stepAt_node hlevels hnode hstep'
    exact ⟨rfl, rfl, rfl, fun _ => id⟩
  capability hnode htype info context := by
    refine ((runCapabilityStep_indexed hn).assume fun _ _ => trivial).post fun record hindex => ⟨hindex, ?_⟩
    intro step hstep
    cases htype.symm.trans (stepAt_node hlevels hnode hstep).1
  unrouted _ _ := trivial

theorem promises_gathered (hflow : executor.Uncomposed (.dag flow)) (hstable : Stable Inv)
    (hn : ∀ lane flowName input cancellation, Stays Inv (nested.entry lane flowName input cancellation))
    (hlevels : computeDagLevels executor.platform.hashing flow = .ok levels) :
    (executor.promises (.dag flow)).Gathered executor Inv (executor.CheckedAll (.dag flow)) anyError flow levels.flatten
      False nested cancellation where
  toLevelled := promises_levelled _
  tool hnode _ info hindex context := executeStepIn_promises hflow hstable hn hindex fun step' hstep' => by
    obtain ⟨-, rfl⟩ := stepAt_node hlevels hnode hstep'
    refine ⟨rfl, rfl, rfl, fun name hname => ?_⟩
    simp only [runnable, proxyAsync, Option.getD_none, ite_self, List.append_nil] at hname
    exact List.mem_append_left _ hname

theorem promises_turned {flow : AnyFlow} : (executor.promises flow).Turned executor levels :=
  fun _ _ _ _ _ _ _ _ _ _ h _ _ hresult => (h.failed rfl).reported hresult

/-- The states of a fresh run. -/
abbrev Unresuming (state : RunScopedState) : Prop := state.resumeSnapshot = none

theorem unresuming_stable : Stable Unresuming := ⟨id, id⟩

theorem promises_run {flow : AnyFlow} (hflow : executor.Uncomposed flow)
    (hn : ∀ lane flowName input cancellation, Stays Unresuming (nested.entry lane flowName input cancellation))
    (lane : Lane) :
    (frame Unresuming).Given (executor.CheckedAll flow)
      (executor.executeAdmitted lane nested flowName input cancellation flow)
      (fun result => executor.HonoursAll flow result.executionLog) anyError := by
  cases flow with
  | linear flow =>
    have hlinear : ∀ flowName, (frame Unresuming).Given (executor.CheckedAll (.linear flow))
        (executor.executeLinear lane nested flow flowName input cancellation)
        (fun result => executor.HonoursAll (.linear flow) result.executionLog) anyError := fun flowName =>
      executeLinear_kept unresuming_stable (promises_linear hflow unresuming_stable hn) (fun _ _ => .nil)
        fun hrefused hresult => (HonoursAll.nil.failed hrefused.failed).reported hresult
    cases lane with
    | sync => exact hlinear flowName
    | async => exact hlinear flow.name
  | dag flow =>
    have hstarts : (executor.promises (α := DAGFlowStep) (.dag flow)).Starts executor Unresuming flow input :=
      { fresh := fun _ _ _ _ _ => .nil
        resumed := fun state snapshot levels hstate hsnapshot => nomatch hstate.symm.trans hsnapshot
        unseeded := fun hrefused hresult => (HonoursAll.nil.failed hrefused.failed).reported hresult }
    cases lane with
    | sync =>
      exact executeDagFlow_kept unresuming_stable surroundings_any (fun _ _ => trivial)
        (fun levels hlevels => promises_stepped hflow unresuming_stable hn hlevels) hstarts
    | async =>
      exact executeDagFlowAsync_kept unresuming_stable surroundings_any (fun _ _ => trivial)
        (fun levels hlevels => ⟨promises_gathered hflow unresuming_stable hn hlevels, promises_turned⟩) hstarts

end

/-- Outputs that are checked meet the contract of their step: those of any one step,
and those of the steps of a run. -/
structure ContractsKept (executor : Executor) : Prop where
  step : ∀ lane stack (info : StepInfo) step context cancellation state events record state',
    (∀ subName, step.target ≠ .flow subName) → (∀ e ∈ events, ¬executor.Unchecked step info.stepIndex e) →
      (executor.executeStepIn lane (executor.lanes stack) info step context cancellation).Runs state events (.ok record)
        state' → executor.Honours step record
  run : ∀ lane stack flowName input (call : Call) state events result state' flow, state.resumeSnapshot = none →
    executor.registry.getFlow flowName call.version = .ok flow → executor.Uncomposed flow →
      (∀ e ∈ events, executor.CheckedAll flow e) →
        (executor.enter stack (executeIn lane flowName input call)).Runs state events (.ok result) state' →
          executor.HonoursAll flow result.executionLog

theorem contracts_kept (executor : Executor) : ContractsKept executor where
  step _ _ _ _ _ _ state events _ state' htool hchecked hrun :=
    (executeStepIn_honours htool _ _ state events _ state' trivial hchecked hrun).2
  run lane stack flowName input call state events result state' flow hfresh hflow hflat hchecked hrun := by
    have hscope : ∀ state, Unresuming state → Unresuming (enterLane lane call state) := by
      intro state hstate
      obtain ⟨version, force, cancellation, dryRun, unsupported, params⟩ := call
      cases lane <;> cases params <;> exact hstate
    have hgiven : (frame Unresuming).Given (executor.CheckedAll flow)
        (executor.enter stack (executeIn lane flowName input call))
        (fun result => executor.HonoursAll flow result.executionLog) anyError := by
      refine execute_given lane unresuming_stable hscope fun other hother => ?_
      obtain rfl := Except.ok.inj (hflow.symm.trans hother)
      exact promises_run hflat (fun _ => lanes_stay stack) lane
    exact (hgiven state events _ state' hfresh hchecked hrun).2

-- A fallback

/-- The outputs of `a` have to be a `Receipt`. -/
def promisingFlow : AnyFlow :=
  .linear { name := "f", steps := [{ Sample.orElse "b" (Sample.step "a") with outputContract := some "Receipt" }] }

/-- Only what has a `total` is a receipt. -/
def receiptPlatform : Platform :=
  { Sample.platform with
    modelValidate := fun schema value =>
      match value with
      | .dict entries =>
        if schema = "Receipt" && (entries.lookup "total").isNone then .error (.validation "total: field required")
        else .ok (.ofList entries)
      | _ => .error (.validation "not a dict") }

def promisingExecutor : Executor :=
  { Sample.executor [promisingFlow] [Sample.tool "a", Sample.tool "b"] with platform := receiptPlatform }

/-- Only `b` answers. -/
def onlyOther (invocation : Invocation) : Except Exc Value :=
  if invocation.tool.name = "a" then .error (.other "ConnectionError" "reset") else Sample.named invocation

def promisingRun : List Event × Except Exc ExecutionResult × RunScopedState :=
  Sample.run onlyOther none 0 (promisingExecutor.enter 1 (executeIn .sync "f" .empty {}))

/-- The first step hands on something that is no receipt. -/
def breaksPromise (result : ExecutionResult) : Bool :=
  result.executionLog.any fun record =>
    record.stepIndex = 0 && record.success && !record.skipped &&
      record.outputs.any fun outputs => !outputs.contains "total"

theorem promisingRun_breaks : (Sample.resultOf promisingRun).any breaksPromise = true := by
  decide +kernel

theorem receipt_total {step : FlowStep} (hstep : step.outputContract = some "Receipt")
    (h : promisingExecutor.MeetsContract step outputs) : outputs.contains "total" = true := by
  obtain ⟨schema, value, hschema, hvalue⟩ := h "Receipt" hstep
  obtain rfl : "Receipt" = schema := Except.ok.inj hschema
  cases htotal : outputs.entries.lookup "total" with
  | none =>
    have hrefused : promisingExecutor.platform.modelValidate "Receipt" (.dict outputs.entries) =
        .error (.validation "total: field required") := by
      simp [promisingExecutor, receiptPlatform, htotal]
    cases hrefused.symm.trans hvalue
  | some value => exact OrderedDict.contains_iff.2 ⟨value, htotal⟩

theorem fallback_unchecked :
    ¬∀ (executor : Executor) lane stack flowName input (call : Call) events result state' flow,
      executor.registry.getFlow flowName call.version = .ok flow →
        (executor.enter stack (executeIn lane flowName input call)).Runs {} events (.ok result) state' →
          executor.HonoursAll flow result.executionLog := by
  intro h
  obtain ⟨result, hresult, hbreaks⟩ := (Option.any_eq_true ..).1 promisingRun_breaks
  obtain ⟨record, hrecord, hbreaks⟩ := List.any_eq_true.1 hbreaks
  simp only [Bool.and_eq_true, decide_eq_true_eq, Bool.not_eq_true', Option.any_eq_true] at hbreaks
  obtain ⟨⟨⟨hindex, hsuccess⟩, hskipped⟩, outputs, houtputs, hmissing⟩ := hbreaks
  have hhonours := h promisingExecutor .sync 1 "f" .empty {} promisingRun.1 result _ promisingFlow rfl
    (Sample.run_returns hresult) record hrecord 0 _ rfl hindex hsuccess hskipped outputs houtputs
  cases hmissing.symm.trans (receipt_total rfl hhonours)

end ChainWeaver.Executor
