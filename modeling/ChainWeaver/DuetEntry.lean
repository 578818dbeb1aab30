import ChainWeaver.Data.Attempt
import ChainWeaver.DuetAcross

/-!
# Entry points on both sides

The level loops as a whole, the checks before a run, and the recursion between the entry points.
-/

namespace ChainWeaver.Duet

open Executor
open Interaction (Comp Frame Met Never)

variable {P : Duet} {nested nested' : Nested} {called : String → Prop} {executor : Executor}
  {info info' : RunInfo} {cancellation : Cancellation} {flow : DAGFlow} {state state' : DagState}

-- The loop over the levels

/-- The level loop of either lane. -/
def levelsLoop (level : Nat → List DAGFlowStep → DagState → Exec (Progress DagState)) :
    List (List DAGFlowStep) → Nat → DagState → Exec (Progress DagState)
  | [], _, state => pure (.going state)
  | steps :: rest, index, state => do
    match ← level index steps state with
    | .ended result => pure (.ended result)
    | .going state => levelsLoop level rest (index + 1) state

theorem dagLevels_eq (levels : List (List DAGFlowStep)) (index : Nat) (state : DagState) :
    executor.dagLevels nested info flow cancellation levels index state =
      levelsLoop (executor.dagLevel nested info flow cancellation) levels index state := by
  induction levels generalizing index state with
  | nil => rfl
  | cons steps rest ih =>
    refine bind_congr fun progress => ?_
    cases progress with
    | ended result => rfl
    | going state => exact ih (index + 1) state

theorem dagLevelsAsync_eq (levels : List (List DAGFlowStep)) (index : Nat) (state : DagState) :
    executor.dagLevelsAsync nested info flow cancellation levels index state =
      levelsLoop (executor.dagLevelAsync nested info flow cancellation) levels index state := by
  induction levels generalizing index state with
  | nil => rfl
  | cons steps rest ih =>
    refine bind_congr fun progress => ?_
    cases progress with
    | ended result => rfl
    | going state => exact ih (index + 1) state

/-- The levels of either side are in accord wherever the sides are in `R`. -/
def LevelsFit (P : Duet) (R : DagState → DagState → Prop) (levels : List (List DAGFlowStep))
    (level level' : Nat → List DAGFlowStep → DagState → Exec (Progress DagState)) : Prop :=
  ∀ steps ∈ levels, ∀ index state state', R state state' →
    P.Settles P.Doomed (level index steps state) (level' index steps state') (SameProgress P.marks R)

variable {R : DagState → DagState → Prop} {level level' : Nat → List DAGFlowStep → DagState → Exec (Progress DagState)}

theorem settles_levelsLoop (levels : List (List DAGFlowStep)) (hlevels : P.LevelsFit R levels level level') (index : Nat)
    (hstate : R state state') :
    P.Settles P.Doomed (levelsLoop level levels index state) (levelsLoop level' levels index state')
      (SameProgress P.marks R) := by
  induction levels generalizing index state state' with
  | nil => exact .pure (.going hstate)
  | cons steps rest ih =>
    obtain ⟨hlevel, hrest⟩ := List.forall_mem_cons.1 hlevels
    refine .bind_missed (hlevel index state state' hstate) ?_ ?_
    · rintro _ _ (hresult | hstate)
      · exact .pure (.ended hresult)
      · exact ih hrest _ hstate
    · rintro (result | state) hdoomed
      · exact .pure hdoomed
      · exact hdoomed.elim

/-- What follows the level loop. -/
def levelsEnd (executor : Executor) (info : RunInfo) (flow : DAGFlow) (checkContext : Bool) :
    Progress DagState → Exec ExecutionResult
  | .ended result => pure result
  | .going state =>
    executor.finishFlow info flow.toFlowHeader (flowOutputStepIndex flow.steps) checkContext state.context state.log

theorem dagFrom_eq (levels : List (List DAGFlowStep)) (start : Nat) (state : DagState) :
    executor.dagFrom nested info flow cancellation levels start state =
      (levelsLoop (executor.dagLevel nested info flow cancellation) (levels.drop start) start state >>=
        levelsEnd executor info flow true) := by
  unfold dagFrom
  rw [dagLevels_eq]
  refine bind_congr fun progress => ?_
  cases progress <;> rfl

theorem dagFromAsync_eq (levels : List (List DAGFlowStep)) (start : Nat) (state : DagState) :
    executor.dagFromAsync nested info flow cancellation levels start state =
      (levelsLoop (executor.dagLevelAsync nested info flow cancellation) (levels.drop start) start state >>=
        levelsEnd executor info flow false) := by
  unfold dagFromAsync
  rw [dagLevelsAsync_eq]
  refine bind_congr fun progress => ?_
  cases progress <;> rfl

theorem settles_levelsFrom {levels : List (List DAGFlowStep)} (hlevels : P.LevelsFit R levels level level')
    (hR : ∀ state state', R state state' → SameDag P.marks state state') (h : SameRun info info')
    {checkContext checkContext' : Bool} (hcontext : checkContext = checkContext' ∨ flow.contextSchemaRef = none)
    (start : Nat) (hstate : R state state') :
    P.Settles P.Lost (levelsLoop level (levels.drop start) start state >>= levelsEnd P.executor info flow checkContext)
      (levelsLoop level' (levels.drop start) start state' >>= levelsEnd P.other info' flow checkContext')
      (ExecutionResult.Kin P.marks) := by
  refine .bind_missed (settles_levelsLoop _ (fun steps hs => hlevels steps (List.mem_of_mem_drop hs)) start hstate) ?_ ?_
  · rintro _ _ (hresult | hstate)
    · exact .pure hresult
    · unfold levelsEnd
      dsimp only
      rw [(hR _ _ hstate).context]
      exact settles_finishFlow h (hR _ _ hstate).log _ _ hcontext
  · rintro (result | state) hdoomed
    · exact .pure hdoomed
    · exact hdoomed.elim

/-- The steps of all levels are steps of the flow. -/
theorem mem_levels {hashing : Hashing} {levels : List (List DAGFlowStep)} (h : computeDagLevels hashing flow = .ok levels)
    {steps : List DAGFlowStep} (hsteps : steps ∈ levels) {step : DAGFlowStep} (hstep : step ∈ steps) : step ∈ flow.steps := by
  obtain ⟨height, hlevelled⟩ := Topology.computeDagLevels_levelled h
  exact hlevelled.perm.mem_iff.1 (List.mem_flatten.2 ⟨steps, hsteps, hstep⟩)

section

variable {levels : List (List DAGFlowStep)} (hP : Set P nested nested' called)
  (hlevels : computeDagLevels P.executor.platform.hashing flow = .ok levels)
  (hsteps : ∀ step ∈ flow.steps, P.StepFits called step.toFlowStep) (h : SameRun info info')
include hP hlevels hsteps h

theorem settles_dagFrom (hsync : P.lanes = .both .sync) (start : Nat) (hstate : SameDag P.marks state state') :
    P.Settles P.Lost (P.executor.dagFrom nested info flow cancellation levels start state)
      (P.other.dagFrom nested' info' flow cancellation levels start state') (ExecutionResult.Kin P.marks) := by
  rw [dagFrom_eq, dagFrom_eq]
  refine settles_levelsFrom (fun steps hmem index state state' hstate => ?_) (fun _ _ => id) h (.inl rfl) start hstate
  exact settles_dagLevel hP hsync h hstate steps (fun step hstep => hsteps step (mem_levels hlevels hmem hstep)) index

theorem settles_dagFromAsync (hasync : P.lanes = .both .async) (start : Nat) (hstate : SameDag P.marks state state') :
    P.Settles P.Lost (P.executor.dagFromAsync nested info flow cancellation levels start state)
      (P.other.dagFromAsync nested' info' flow cancellation levels start state') (ExecutionResult.Kin P.marks) := by
  rw [dagFromAsync_eq, dagFromAsync_eq]
  refine settles_levelsFrom (fun steps hmem index state state' hstate => ?_) (fun _ _ => id) h (.inl rfl) start hstate
  exact settles_dagLevelAsync hP hasync h hstate steps
    (fun step hstep => hsteps step (mem_levels hlevels hmem hstep)) index

theorem settles_dagFrom_across (hapart : P.apart = true) (hplain : ∀ step ∈ flow.steps, Plain step)
    (hcontext : flow.contextSchemaRef = none) (start : Nat) (hstate : SameAcross P.marks state state') :
    P.Settles P.Lost (P.executor.dagFrom nested info flow cancellation levels start state)
      (P.other.dagFromAsync nested' info' flow cancellation levels start state') (ExecutionResult.Kin P.marks) := by
  rw [dagFrom_eq, dagFromAsync_eq]
  refine settles_levelsFrom (R := SameAcross P.marks) (fun steps hmem index state state' hstate => ?_)
    (fun _ _ => And.left) h (.inr hcontext) start hstate
  refine settles_dagLevel_across hP hapart h hstate steps (fun step hstep => ?_) index
  exact ⟨hplain step (mem_levels hlevels hmem hstep), hsteps step (mem_levels hlevels hmem hstep)⟩

end

-- A DAG flow

theorem settles_ofExcept_bind {D : β → Prop} {V : β → γ → Prop} {x : Except Exc α} {f : α → Exec β} {f' : α → Exec γ}
    (hf : ∀ value, x = .ok value → P.Settles D (f value) (f' value) V) :
    P.Settles D (ofExcept x >>= f) (ofExcept x >>= f') V := by
  cases x with
  | ok value => exact .pure_left (.pure_right (hf value rfl))
  | error e => exact .bind (settles_raise (V := fun _ _ => False) (errors_same e)) fun _ _ => False.elim

theorem settles_orRefuse_bind {D : β → Prop} {V : β → γ → Prop} {x : Except Exc α} {f : α → Exec β} {f' : α → Exec γ}
    (hf : ∀ value, x = .ok value → P.Settles D (f value) (f' value) V) :
    P.Settles D (orRefuse x >>= f) (orRefuse x >>= f') V := by
  cases x with
  | ok value => exact .pure_left (.pure_right (hf value rfl))
  | error e => exact .bind (settles_refuse (V := fun _ _ => False) (errors_same e)) fun _ _ => False.elim

theorem settles_executeDagFlow (hP : Set P nested nested' called) {state : RunScopedState → RunScopedState → Prop}
    (hstate : P.Loosened state) (hsteps : ∀ step ∈ flow.steps, P.StepFits called step.toFlowStep)
    (hsync : P.lanes = .both .sync) (hslot : P.slot = true) (input : Dict) :
    Interaction.Accord.Settles { P.accord with state } P.errors P.Lost
      (P.executor.executeDagFlow nested flow input cancellation) (P.other.executeDagFlow nested' flow input cancellation)
      (ExecutionResult.Kin P.marks) := by
  unfold executeDagFlow
  refine Interaction.Accord.Settles.modify_into (A := P.accord) (fun s s' => hstate.into s s' _) hstate.back ?_
  refine .get_bind fun now now' hnow => ?_
  rw [hnow.resumeSnapshot hslot]
  cases now'.resumeSnapshot with
  | some snapshot =>
    refine .bind_same settles_fire fun _ => settles_ofExcept_bind fun levels hlevels => .bind_same settles_probe fun _ => ?_
    exact settles_dagFrom hP hlevels hsteps ⟨rfl, rfl⟩ hsync _ ⟨rfl, .refl _, rfl, rfl⟩
  | none =>
    refine .ask_bind fun traceId traceId' _ _ => ?_
    refine .bind_same settles_fire fun _ => .bind_same (settles_ofExcept rfl) fun failure => ?_
    have hrun : SameRun ⟨flow.name, traceId, input⟩ ⟨flow.name, traceId', input⟩ := ⟨rfl, rfl⟩
    cases failure with
    | some record => exact settles_makeResult hrun (.refl _) false none _
    | none =>
      refine .get_bind fun now now' hnow => ?_
      rw [hnow.dynamicParams]
      refine settles_ofExcept_bind fun levels hlevels => .bind_same settles_probe fun _ => ?_
      exact settles_dagFrom hP hlevels hsteps hrun hsync _ ⟨rfl, .refl _, rfl, rfl⟩

theorem settles_executeDagFlowAsync (hP : Set P nested nested' called) {state : RunScopedState → RunScopedState → Prop}
    (hstate : P.Loosened state) (hsteps : ∀ step ∈ flow.steps, P.StepFits called step.toFlowStep)
    (hasync : P.lanes = .both .async) (hslot : P.slot = true) (input : Dict) :
    Interaction.Accord.Settles { P.accord with state } P.errors P.Lost
      (P.executor.executeDagFlowAsync nested flow input cancellation)
      (P.other.executeDagFlowAsync nested' flow input cancellation) (ExecutionResult.Kin P.marks) := by
  unfold executeDagFlowAsync
  refine Interaction.Accord.Settles.modify_into (A := P.accord) (fun s s' => hstate.into s s' _) hstate.back ?_
  refine settles_orRefuse_bind fun levels hlevels => .get_bind fun now now' hnow => ?_
  rw [hnow.resumeSnapshot hslot]
  cases now'.resumeSnapshot with
  | some snapshot =>
    refine .bind_same settles_fire fun _ => .bind_same settles_probe fun _ => ?_
    exact settles_dagFromAsync hP hlevels hsteps ⟨rfl, rfl⟩ hasync _ ⟨rfl, .refl _, rfl, rfl⟩
  | none =>
    refine .ask_bind fun traceId traceId' _ _ => ?_
    refine .bind_same settles_fire fun _ => .bind_same (settles_ofExcept rfl) fun failure => ?_
    have hrun : SameRun ⟨flow.name, traceId, input⟩ ⟨flow.name, traceId', input⟩ := ⟨rfl, rfl⟩
    cases failure with
    | some record => exact settles_makeResult hrun (.refl _) false none _
    | none =>
      refine .get_bind fun now now' hnow => .bind_same settles_probe fun _ => ?_
      rw [hnow.dynamicParams]
      exact settles_dagFromAsync hP hlevels hsteps hrun hasync _ ⟨rfl, .refl _, rfl, rfl⟩

/-- Only the asynchronous lane looks at the levels before the input. -/
theorem settles_executeDagFlow_across (hP : Set P nested nested' called) {state : RunScopedState → RunScopedState → Prop}
    (hstate : P.Loosened state) (hsteps : ∀ step ∈ flow.steps, P.StepFits called step.toFlowStep)
    (hapart : P.apart = true) (hplain : ∀ step ∈ flow.steps, Plain step) (hcontext : flow.contextSchemaRef = none) (input : Dict) :
    Interaction.Accord.Settles { P.accord with state } P.errors P.Lost
      (P.executor.executeDagFlow nested flow input cancellation)
      (P.other.executeDagFlowAsync nested' flow input cancellation) (ExecutionResult.Kin P.marks) := by
  unfold executeDagFlow executeDagFlowAsync
  refine Interaction.Accord.Settles.modify_into (A := P.accord) (fun s s' => hstate.into s s' _) hstate.back ?_
  refine .get_left fun now now' hnow => ?_
  rw [(hnow.fresh hapart).1]
  change P.Settles _ _ (orRefuse (computeDagLevels P.executor.platform.hashing flow) >>= _) _
  cases hlevels : computeDagLevels P.executor.platform.hashing flow with
  | error e =>
    refine .lost (hP.errors_apart hapart) (fun G => ?_) fun G => ?_
    · refine .ask_bind fun _ _ => .ask_bind fun _ _ => .bind given_ofExcept fun failure _ => ?_
      cases failure with
      | some record => exact given_makeResult.post fun _ hresult => ⟨hapart, hresult⟩
      | none => exact .get_bind fun _ _ => .bind (given_raise (Q := fun _ => False) trivial) fun _ => False.elim
    · exact .bind (.ask_bind fun _ _ => .throw trivial) fun _ => False.elim
  | ok levels =>
    refine .pure_right (.get_right fun now now' hnow => ?_)
    rw [(hnow.fresh hapart).2]
    refine .ask_bind fun traceId traceId' _ _ => ?_
    refine .bind_same settles_fire fun _ => .bind_same (settles_ofExcept rfl) fun failure => ?_
    have hrun : SameRun ⟨flow.name, traceId, input⟩ ⟨flow.name, traceId', input⟩ := ⟨rfl, rfl⟩
    cases failure with
    | some record => exact settles_makeResult hrun (.refl _) false none _
    | none =>
      refine .get_bind fun now now' hnow => .pure_left (.bind_same settles_probe fun _ => ?_)
      rw [hnow.dynamicParams]
      exact settles_dagFrom_across hP hlevels hsteps hrun hapart hplain hcontext _ ⟨⟨rfl, .refl _, rfl, rfl⟩, rfl⟩

-- Checks before a run

theorem other_validateComposition (flow : AnyFlow) :
    P.other.validateComposition flow = P.executor.validateComposition flow := by
  have hvisit (root : String) (budget : Nat) (path : List String) (steps : List FlowStep) :
      P.other.visit root budget path steps = P.executor.visit root budget path steps := by
    induction budget generalizing path steps with
    | zero => rfl
    | succ budget ih =>
      simp only [visit, ih]
      rfl
  exact hvisit ..

/-- What a flow has to be like for the sides to treat it alike. -/
structure FlowFits (P : Duet) (called : String → Prop) (flowName : String) (flow : AnyFlow) : Prop where
  calls : ∀ step ∈ flow.steps, ∀ sub, step.target = .flow sub → called sub
  resolves : ∀ step ∈ flow.steps, P.Resolves step
  /-- Only a DAG looks at the resume slot. -/
  linear : P.slot = false → flow.isDag = false
  accepted : P.apart = true → assertAsyncLaneSupported flow = .ok ()
  named : P.apart = true → flow.header.name = flowName
  context : P.apart = true → flow.header.contextSchemaRef = none
  tools : P.apart = true → ∀ dag, flow = .dag dag → ∀ step ∈ dag.steps, step.stepType = .tool

theorem accepted_features {flow : AnyFlow} (h : assertAsyncLaneSupported flow = .ok ())
    {entry : FlowStep × List ConditionalEdge × Option String} (hentry : entry ∈ flow.steps.zip (branchRouting flow)) :
    unsupportedFeatures entry.1 entry.2 = [] := by
  obtain ⟨texts, htexts, hempty⟩ := Attempt.bind_eq_ok.1 h
  obtain rfl : texts = [] := by
    cases texts with
    | nil => rfl
    | cons text rest => cases hempty
  obtain ⟨parts, hparts, hflat⟩ := Attempt.bind_eq_ok.1 htexts
  have hnone : parts.flatten = [] := Except.ok.inj hflat
  obtain ⟨place, hplace, rfl⟩ := List.mem_iff_getElem.1 hentry
  have hmem : ((flow.steps.zip (branchRouting flow))[place], place) ∈ (flow.steps.zip (branchRouting flow)).zipIdx :=
    List.mem_zipIdx_iff_getElem?.2 (List.getElem?_eq_getElem hplace)
  obtain ⟨part, hmade⟩ := Attempt.exists_of_mapM hparts hmem
  obtain rfl : part = [] := List.flatten_eq_nil_iff.1 hnone _ ((Attempt.mem_mapM hparts).2 ⟨_, hmem, hmade⟩)
  dsimp only at hmade
  split at hmade
  · assumption
  · cases hmade
  · next features name hfeatures hnot => simpa [hfeatures] using hmade

theorem features_nil {step : FlowStep} {routing : List ConditionalEdge × Option String}
    (h : unsupportedFeatures step routing = []) :
    step.decisionCandidates = none ∧ routing.1 = [] ∧ routing.2 = none := by
  have hvalid := step.candidates_valid
  obtain ⟨branches, next⟩ := routing
  unfold unsupportedFeatures at h
  cases hcandidates : step.decisionCandidates with
  | none => cases branches <;> cases next <;> simp_all
  | some candidates =>
    rw [hcandidates] at h hvalid
    cases htarget : step.target <;> cases candidates <;> simp_all [candidatesValid]

theorem accepted_step {flow : AnyFlow} (h : assertAsyncLaneSupported flow = .ok ()) {step : FlowStep}
    (hstep : step ∈ flow.steps) :
    step.decisionCandidates = none := by
  obtain ⟨place, hplace, rfl⟩ := List.mem_iff_getElem.1 hstep
  have hlength : (branchRouting flow).length = flow.steps.length := by
    cases flow <;> simp [branchRouting, AnyFlow.steps]
  have hzip : (flow.steps[place], (branchRouting flow)[place]) ∈ flow.steps.zip (branchRouting flow) :=
    List.mem_iff_getElem.2 ⟨place, by simp [hlength, hplace], List.getElem_zip⟩
  exact (features_nil (accepted_features h hzip)).1

theorem accepted_dag {dag : DAGFlow} (h : assertAsyncLaneSupported (.dag dag) = .ok ()) {step : DAGFlowStep}
    (hstep : step ∈ dag.steps) (htool : step.stepType = .tool) : Plain step := by
  have hzip : (step.toFlowStep, (step.branches, step.defaultNext)) ∈
      (AnyFlow.dag dag).steps.zip (branchRouting (.dag dag)) := by
    have hmem := List.mem_map_of_mem (f := fun step : DAGFlowStep => (step.toFlowStep, (step.branches, step.defaultNext))) hstep
    simpa [AnyFlow.steps, branchRouting, List.zip_map'] using hmem
  obtain ⟨hfixed, hbranches, hnext⟩ := features_nil (accepted_features h hzip)
  exact { tool := htool, fixed := hfixed, branches := hbranches, next := hnext }

theorem FlowFits.stepFits {flowName : String} {flow : AnyFlow} (h : P.FlowFits called flowName flow) :
    ∀ step ∈ flow.steps, P.StepFits called step :=
  fun step hstep =>
    { resolves := h.resolves step hstep
      decided := fun hapart => accepted_step (h.accepted hapart) hstep
      calls := h.calls step hstep }

theorem FlowFits.slot {flowName : String} {dag : DAGFlow} (h : P.FlowFits called flowName (.dag dag)) : P.slot = true := by
  cases hslot : P.slot with
  | true => rfl
  | false => cases h.linear hslot

theorem FlowFits.dagFits {flowName : String} {dag : DAGFlow} (h : P.FlowFits called flowName (.dag dag)) :
    ∀ step ∈ dag.steps, P.StepFits called step.toFlowStep :=
  fun _ hstep => h.stepFits _ (List.mem_map_of_mem hstep)

-- One entry point

theorem Alike.enterSync {s s' : RunScopedState} (h : P.Alike s s') (call : Call)
    (hwet : P.apart = true → call.dryRun = false) :
    P.Alike (enterSync call s) (enterSync call s') := by
  have hparams (params : Option Dict) {s s' : RunScopedState} (h : P.Alike s s') :
      P.Alike (withDynamicParams s params) (withDynamicParams s' params) := by
    cases params with
    | none => exact h
    | some params => exact { h with dynamicParams := congrArg (OrderedDict.update · params) h.dynamicParams }
  refine hparams call.dynamicParams ?_
  exact
    { h with
      dryRun := congrArg (call.dryRun || ·) h.dryRun
      dryRunUnsupported := congrArg (fun before => if call.dryRun then call.dryRunUnsupported else before) h.dryRunUnsupported
      decisionCount := rfl
      wet := fun hapart => by
        change (call.dryRun || s.dryRun) = false
        rw [hwet hapart, h.wet hapart]
        rfl }

/-- Without a dry run both lanes open the same scope. -/
theorem enterSync_wet {call : Call} (h : call.dryRun = false) (s : RunScopedState) :
    enterSync call s = withDynamicParams s.copy call.dynamicParams := by
  simp [Executor.enterSync, h, RunScopedState.copy]

theorem Alike.enterAsync {s s' : RunScopedState} (h : P.Alike s s') (params : Option Dict) :
    P.Alike (withDynamicParams s.copy params) (withDynamicParams s'.copy params) :=
  h.enterSync { dynamicParams := params } fun _ => rfl

theorem Alike.sync {s s' : RunScopedState} (h : P.Alike s s') : P.sync.Alike s s' :=
  { h with wet := nofun, fresh := nofun }

section

variable (hP : Set P nested nested' called) {flowName : String} (call : Call)
  (hfits : ∀ flow, P.executor.registry.getFlow flowName call.version = .ok flow → P.FlowFits called flowName flow)
include hP hfits

theorem settles_executeFlowImpl (hsync : P.lanes = .both .sync) (input : Dict) :
    P.Settles P.Lost (P.executor.executeFlowImpl nested flowName input call)
      (P.other.executeFlowImpl nested' flowName input call) (ExecutionResult.Kin P.marks) := by
  have happart : ¬P.apart = true := by simp [apart, hsync]
  unfold executeFlowImpl
  refine settles_orRefuse_bind fun flow hflow => .modify_bind (fun s s' hs => hs.versioned _) ?_
  have hfits := hfits flow hflow
  rw [other_validateComposition]
  refine .bind_same (settles_orRefuse rfl) fun _ => .bind_same (settles_orRefuse rfl) fun _ => ?_
  refine .get_bind fun now now' _ => .bind_same settles_probe fun _ => ?_
  cases flow with
  | dag flow =>
    exact settles_executeDagFlow hP loosened_alike hfits.dagFits hsync hfits.slot input
  | linear flow =>
    have hrun := settles_executeLinear call.cancellation hP loosened_alike hfits.stepFits
      (fun hapart => absurd hapart happart) flowName input
    rw [lane_both hsync, lane'_both hsync] at hrun
    exact hrun

theorem settles_executeFlowWith (hsync : P.lanes = .both .sync) (input : Dict) :
    P.Settles P.Lost (P.executor.executeFlowWith nested flowName input call)
      (P.other.executeFlowWith nested' flowName input call) (ExecutionResult.Kin P.marks) := by
  have happart : ¬P.apart = true := by simp [apart, hsync]
  exact Interaction.Accord.Settles.within (A := P.accord) (fun s s' hs => hs.enterSync call fun h => absurd h happart)
    (settles_executeFlowImpl hP call hfits hsync input)

theorem settles_executeFlowAsyncWith (hasync : P.lanes = .both .async) (input : Dict) :
    P.Settles P.Lost (P.executor.executeFlowAsyncWith nested flowName input call)
      (P.other.executeFlowAsyncWith nested' flowName input call) (ExecutionResult.Kin P.marks) := by
  have happart : ¬P.apart = true := by simp [apart, hasync]
  unfold executeFlowAsyncWith
  refine settles_orRefuse_bind fun flow hflow => ?_
  have hfits := hfits flow hflow
  rw [other_validateComposition]
  refine .bind_same (settles_orRefuse rfl) fun _ => .bind_same (settles_orRefuse rfl) fun _ => ?_
  refine .bind_same (settles_orRefuse rfl) fun _ => ?_
  refine Interaction.Accord.Settles.within (A := P.accord) (fun s s' hs => hs.enterAsync call.dynamicParams) ?_
  refine .get_bind fun now now' _ => .bind_same settles_probe fun _ => ?_
  cases flow with
  | dag flow =>
    exact settles_executeDagFlowAsync hP loosened_alike hfits.dagFits hasync hfits.slot input
  | linear flow =>
    have hrun := settles_executeLinear call.cancellation hP loosened_alike hfits.stepFits
      (fun hapart => absurd hapart happart) flow.name input
    rw [lane_both hasync, lane'_both hasync] at hrun
    exact hrun

/-- Alike but for the version of the flow that runs. -/
def AlikeBut (P : Duet) (s s' : RunScopedState) : Prop :=
  P.Alike { s with activeFlowVersion := "" } { s' with activeFlowVersion := "" }

omit hP hfits in
theorem loosened_but : P.Loosened P.AlikeBut :=
  { into := fun _ _ version h => Alike.versioned h version, back := fun _ _ h => h.versioned "" }

theorem settles_executeFlow_across (hapart : P.apart = true) (hwet : call.dryRun = false) (input : Dict) :
    P.Settles P.Lost (P.executor.executeFlowWith nested flowName input call)
      (P.other.executeFlowAsyncWith nested' flowName input call) (ExecutionResult.Kin P.marks) := by
  have hany := hP.errors_apart hapart
  have hrefused {β γ : Type} {e : Exc} {f : β → Exec γ} : Comp.Raises (refuse e >>= f : Exec γ) := fun F =>
    .bind (.ask_bind fun _ _ => .throw trivial) fun _ => False.elim
  have hscope {enter : RunScopedState → RunScopedState} {c : Exec ExecutionResult}
      (h : Interaction.Frame.free.Given (fun _ => True) c (fun _ => False) fun _ => True) :
      Comp.Raises (withScope enter c) :=
    fun F => .scope (G := Interaction.Frame.free) (fun _ _ => trivial) h
  unfold executeFlowWith executeFlowImpl executeFlowAsyncWith
  change P.Settles _ (withScope _ (orRefuse (P.executor.registry.getFlow flowName call.version) >>= _)) _ _
  rw [show P.other.registry = P.executor.registry from rfl]
  cases hflow : P.executor.registry.getFlow flowName call.version with
  | error e => exact .raises hany (hscope (hrefused _)) hrefused
  | ok flow =>
    have hfits := hfits flow hflow
    refine .pure_right ?_
    cases hadmitted : admitStatus flow flowName call.force with
    | error e =>
      refine .raises hany (hscope (.bind (Q := (· = flow)) (.pure rfl) ?_)) hrefused
      rintro _ rfl
      refine .modify_bind (fun _ _ => trivial) ?_
      rw [hadmitted]
      exact hrefused _
    | ok =>
      rw [hfits.accepted hapart, other_validateComposition]
      refine .pure_right (.pure_right ?_)
      cases hcomposition : P.executor.validateComposition flow with
      | error e =>
        refine .raises hany (hscope (.bind (Q := (· = flow)) (.pure rfl) ?_)) hrefused
        rintro _ rfl
        refine .modify_bind (fun _ _ => trivial) ?_
        rw [hadmitted, hcomposition]
        exact .bind (Q := fun _ => True) (.pure trivial) fun _ _ => hrefused _
      | ok =>
        refine .pure_right (Interaction.Accord.Settles.within (A := P.accord) (R := P.AlikeBut) (fun s s' hs => ?_) ?_)
        · rw [← enterSync_wet hwet]
          exact (hs.enterSync call fun _ => hwet).versioned ""
        · refine .pure_left (.modify_left (fun s s' hs => hs) ?_)
          rw [hadmitted, hcomposition]
          refine .pure_left (.pure_left (.get_bind fun now now' _ => ?_))
          refine .ask_bind fun _ _ _ _ => ?_
          cases flow with
          | dag flow =>
            refine settles_executeDagFlow_across hP loosened_but hfits.dagFits hapart (fun step hstep => ?_)
              (hfits.context hapart) input
            exact accepted_dag (hfits.accepted hapart) hstep (hfits.tools hapart flow rfl step hstep)
          | linear flow =>
            obtain rfl : flow.name = flowName := hfits.named hapart
            have hrun := settles_executeLinear call.cancellation hP loosened_but hfits.stepFits
              hfits.context flow.name input
            rw [lane_sync hapart, lane'_async hapart] at hrun
            exact hrun

end

-- Entry points calling each other

theorem restoring_lanes (executor : Executor) (stack : Nat) : Restoring (executor.lanes stack) := by
  have hscope {enter : RunScopedState → RunScopedState} {c : Exec ExecutionResult} : Comp.Restores (withScope enter c) :=
    .of_runs fun _ _ _ _ hrun => (Comp.runs_within.1 hrun).1
  have hrefuse {α : Type} {x : Except Exc α} (F : Frame Effects RunScopedState) :
      F.Given (fun _ => True) (orRefuse x) (fun _ => True) fun _ => True := by
    cases x with
    | ok value => exact .pure trivial
    | error e => exact .ask_bind fun _ _ => .throw trivial
  cases stack with
  | zero =>
    intro lane flowName input cancellation
    cases lane <;> exact fun F => .ask_bind fun _ _ => .throw trivial
  | succ stack =>
    intro lane flowName input cancellation
    cases lane with
    | sync => exact hscope
    | async =>
      intro F
      change F.Given _ (executor.executeFlowAsyncWith _ _ _ _) _ _
      unfold executeFlowAsyncWith
      exact .bind (hrefuse F) fun _ _ => .bind (hrefuse F) fun _ _ => .bind (hrefuse F) fun _ _ => .bind (hrefuse F)
        fun _ _ => hscope F

/-- The flows in `called` fit, and call no others. -/
structure Roster (P : Duet) (called : String → Prop) : Prop where
  fair : P.Fair
  fits : ∀ flowName, called flowName → ∀ flow, P.executor.registry.getFlow flowName none = .ok flow →
    P.FlowFits called flowName flow
  resolves : ∀ flowName version flow, P.executor.registry.getFlow flowName version = .ok flow →
    ∀ step ∈ flow.steps, P.Resolves step
  wraps : ∀ name tool, P.executor.getTool name = .ok tool → P.WrapsOnly called tool

/-- The flows that the synchronous lane may call: with the same resume slots, any. -/
def calledSync (P : Duet) (called : String → Prop) (flowName : String) : Prop := P.slot = false → called flowName

theorem Roster.sync (h : P.Roster called) : P.sync.Roster (P.calledSync called) where
  fair := { retried := h.fair.retried, shareable := h.fair.shareable, whole := nofun }
  fits := fun flowName hcalled flow hflow =>
    { calls := fun step hstep sub hsub hslot => (h.fits flowName (hcalled hslot) flow hflow).calls step hstep sub hsub
      resolves := h.resolves flowName none flow hflow
      linear := fun hslot => (h.fits flowName (hcalled hslot) flow hflow).linear hslot
      accepted := nofun, named := nofun, context := nofun, tools := nofun }
  resolves := h.resolves
  wraps := fun name tool htool hslot flowName toolName stepCount hfn _ =>
    h.wraps name tool htool hslot flowName toolName stepCount hfn

theorem settles_sync (h : P.Roster called) (stack : Nat) (flowName : String) (hcalled : P.calledSync called flowName)
    (input : Dict) (cancellation : Cancellation) :
    P.sync.Settles Never ((P.executor.lanes stack).executeFlow flowName input cancellation)
      ((P.other.lanes stack).executeFlow flowName input cancellation) (ExecutionResult.Kin P.sync.marks) := by
  induction stack generalizing flowName input cancellation with
  | zero => exact settles_refuse (errors_same _)
  | succ stack ih =>
    have hpartners : Partners P.sync (P.executor.lanes stack) (P.other.lanes stack) (P.calledSync called) :=
      { sync := fun flowName hcalled input cancellation => ih flowName (fun hslot => hcalled hslot hslot) input cancellation
        entry := fun flowName hcalled input cancellation => (ih flowName hcalled input cancellation).never }
    have hset : Set P.sync (P.executor.lanes stack) (P.other.lanes stack) (P.calledSync called) :=
      { fair := h.sync.fair, fine := fun _ => rfl, partners := hpartners, wraps := h.sync.wraps,
        restores := restoring_lanes _ stack, restores' := restoring_lanes _ stack }
    refine (settles_executeFlowWith hset { cancellation } (h.sync.fits flowName hcalled) rfl input).weaken
      (fun _ _ => id) (fun _ _ => id) ?_
    exact fun result hlost => absurd hlost.1 nofun

/-- A call of the synchronous lane from whichever lane. -/
theorem settles_sync_within (h : P.Roster called) (stack : Nat) {flowName : String} (hcalled : P.calledSync called flowName)
    (input : Dict) (cancellation : Cancellation) :
    P.accord.Settles P.sync.errors Never ((P.executor.lanes stack).executeFlow flowName input cancellation)
      ((P.other.lanes stack).executeFlow flowName input cancellation) (ExecutionResult.Kin P.sync.marks) :=
  .restate (fun _ _ hs => hs.sync) (restoring_lanes P.executor stack .sync flowName input cancellation)
    (restoring_lanes P.other stack .sync flowName input cancellation) (settles_sync h stack flowName hcalled input cancellation)

/-- The entry points of the two sides are in accord. -/
theorem partners (h : P.Roster called) (hfine : P.Fine) (stack : Nat) :
    Partners P (P.executor.lanes stack) (P.other.lanes stack) called := by
  induction stack with
  | zero =>
    refine { sync := fun flowName hcalled => settles_sync_within h 0 hcalled, entry := ?_ }
    intro flowName _ input cancellation
    have hrefused (executor : Executor) (lane : Lane) :
        (executor.lanes 0).entry lane flowName input cancellation = refuse .recursion := by
      cases lane <;> rfl
    rw [hrefused, hrefused]
    exact settles_refuse (errors_same _)
  | succ stack ih =>
    refine { sync := fun flowName hcalled => settles_sync_within h (stack + 1) hcalled, entry := ?_ }
    intro flowName hcalled input cancellation
    have hset : Set P (P.executor.lanes stack) (P.other.lanes stack) called :=
      { fair := h.fair, fine := hfine, partners := ih, wraps := h.wraps,
        restores := restoring_lanes _ stack, restores' := restoring_lanes _ stack }
    cases hlanes : P.lanes with
    | both lane =>
      rw [lane_both hlanes, lane'_both hlanes]
      cases lane with
      | sync => exact settles_executeFlowWith hset { cancellation } (h.fits flowName hcalled) hlanes input
      | async =>
        exact settles_executeFlowAsyncWith hset { cancellation } (h.fits flowName hcalled) hlanes input
    | across =>
      have hapart : P.apart = true := by simp [apart, hlanes]
      rw [lane_sync hapart, lane'_async hapart]
      exact settles_executeFlow_across hset { cancellation } (h.fits flowName hcalled) hapart rfl input

theorem Roster.set (h : P.Roster called) (hfine : P.Fine) (stack : Nat) :
    Set P (P.executor.lanes stack) (P.other.lanes stack) called :=
  { fair := h.fair, fine := hfine, partners := partners h hfine stack, wraps := h.wraps,
    restores := restoring_lanes _ stack, restores' := restoring_lanes _ stack }

end ChainWeaver.Duet
