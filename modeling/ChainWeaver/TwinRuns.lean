import ChainWeaver.TopologyLaws
import ChainWeaver.Twin

/-!
# Runs on both executors

The loops of the two lanes and the entry points run alike on two executors whose
tools do.
-/

namespace ChainWeaver.Executor.Twin

open Interaction (Pairing)

variable {T : Twin} {nested nested' : Nested} {info : RunInfo} {cancellation : Cancellation}

-- Results and snapshots

theorem same_makeResult : T.Same (T.executor.makeResult info success finalOutput log count)
    (T.other.makeResult info success finalOutput log count) := by
  unfold makeResult
  refine .get_bind fun state _ => .bind ?_ fun _ => .bind same_fire fun _ => .pure rfl
  unfold deleteSnapshot
  rw [show T.other.hasCheckpointer = T.executor.hasCheckpointer from rfl,
    show T.other.deleteOnSuccess = T.executor.deleteOnSuccess from rfl]
  split
  · exact .bind (same_perform rfl) fun _ => same_ofExcept
  · exact .pure rfl

theorem same_ended : T.Same (do pure (Progress.ended (α := α) (← T.executor.makeResult info false none log)))
    (do pure (Progress.ended (α := α) (← T.other.makeResult info false none log))) :=
  .bind same_makeResult fun _ => .pure rfl

theorem Faithful.toolSchemaHashes (hT : T.Faithful) (steps : List FlowStep) (hashes : OrderedDict String) :
    T.other.toolSchemaHashes steps hashes = T.executor.toolSchemaHashes steps hashes := by
  induction steps generalizing hashes with
  | nil => rfl
  | cons step rest ih =>
    unfold Executor.toolSchemaHashes
    split
    · rfl
    next name _ =>
    have hhash := hT.schemaHash name
    rw [show T.other.tools = T.tools from rfl]
    cases hget : T.executor.tools.get? name with
    | none =>
      rw [hget, Option.map_none, Option.map_eq_none_iff] at hhash
      rw [hhash]
      exact ih _
    | some tool =>
      rw [hget, Option.map_some, Option.map_eq_some_iff] at hhash
      obtain ⟨tool', htool', heq⟩ := hhash
      rw [htool']
      dsimp only
      rw [heq]
      exact ih _

theorem same_saveSnapshot (hT : T.Faithful) {flow : AnyFlow} :
    T.Same (T.executor.saveSnapshot info flow context log completed)
      (T.other.saveSnapshot info flow context log completed) := by
  unfold saveSnapshot
  refine .get_bind fun state _ => ?_
  rw [show T.other.hasCheckpointer = T.executor.hasCheckpointer from rfl, hT.toolSchemaHashes]
  split
  · exact .bind same_ofExcept fun _ => .bind (same_perform rfl) fun _ => same_ofExcept
  · exact .pure rfl

theorem same_checkCancellation : T.Same (T.executor.checkCancellation info nextStepIndex cancellation log)
    (T.other.checkCancellation info nextStepIndex cancellation log) := by
  have hlate : T.Same (deadlineExceeded cancellation) (deadlineExceeded cancellation) := by
    unfold deadlineExceeded
    split
    · exact .pure rfl
    · exact .bind (same_perform rfl) fun _ => .pure rfl
  have htoken : T.Same (tokenCancelled cancellation) (tokenCancelled cancellation) := by
    unfold tokenCancelled
    split
    · exact same_perform rfl
    · exact .pure rfl
  unfold checkCancellation
  refine .bind hlate fun late => .bind htoken fun cancelled => ?_
  split
  · exact .bind (same_probe rfl) fun _ => .bind same_makeResult fun _ => .throw
  · exact .pure rfl

theorem same_reraiseSubflowCancellation {step : FlowStep} :
    T.Same (T.executor.reraiseSubflowCancellation (α := α) info step stepIndex log sub message late cancelled)
      (T.other.reraiseSubflowCancellation info step stepIndex log sub message late cancelled) :=
  .bind same_makeResult fun _ => .throw

theorem same_finishFlow {header : FlowHeader} :
    T.Same (T.executor.finishFlow info header stepCount checkContext context log)
      (T.other.finishFlow info header stepCount checkContext context log) := by
  unfold finishFlow
  refine .bind same_ofExcept fun outputFailure => ?_
  cases outputFailure with
  | some record => exact same_makeResult
  | none =>
    refine .bind (same_probe rfl) fun _ => .bind same_ofExcept fun contextFailure => ?_
    cases contextFailure <;> exact same_makeResult

-- Linear flows

theorem same_mergeOutputs {step : FlowStep} :
    T.Same (mergeOutputs mode info policy step stepIndex context record)
      (mergeOutputs mode info policy step stepIndex context record) := by
  unfold mergeOutputs
  split
  · split
    · exact lockstep_raise
    · exact .bind same_displayName fun _ => lockstep_raise
  · refine .bind same_displayName fun _ => .bind same_ofExcept fun _ => .bind (same_probe rfl) fun _ => ?_
    split
    · exact .pure rfl
    · exact same_ofExcept

variable {flow : Flow}

theorem same_linearStep (hT : T.Faithful) (hn : T.Nestled nested nested') {step : FlowStep}
    (hstep : step.Within T.known T.listed) :
    T.Same (T.executor.linearStep mode nested info flow cancellation stepIndex step context log)
      (T.other.linearStep mode nested' info flow cancellation stepIndex step context log) := by
  unfold linearStep
  refine .bind ?_ fun _ => .attempt_bind (same_executeStepIn hT hn hstep) fun outcome => ?_
  · unfold checkTurn
    split
    · exact .pure rfl
    · exact same_checkCancellation
  · split
    · split
      · exact .throw
      · exact same_reraiseSubflowCancellation
    · exact .throw
    · dsimp only
      split
      · exact same_ended
      · exact .bind same_mergeOutputs fun _ => .bind (same_saveSnapshot hT) fun _ => .pure rfl

theorem same_linearLoop (hT : T.Faithful) (hn : T.Nestled nested nested') (rest : List FlowStep)
    (hsteps : ∀ step ∈ rest, step.Within T.known T.listed) (stepIndex : Nat) (context : Dict)
    (log : List StepRecord) :
    T.Same (T.executor.linearLoop mode nested info flow cancellation rest stepIndex context log)
      (T.other.linearLoop mode nested' info flow cancellation rest stepIndex context log) := by
  induction rest generalizing stepIndex context log with
  | nil => exact .pure rfl
  | cons step rest ih =>
    unfold linearLoop
    refine .bind (same_linearStep hT hn (hsteps _ List.mem_cons_self)) fun progress => ?_
    cases progress with
    | ended result => exact .pure rfl
    | going state => exact ih (fun step h => hsteps step (List.mem_cons_of_mem _ h)) _ _ _

theorem same_linearFrom (hT : T.Faithful) (hn : T.Nestled nested nested')
    (hsteps : ∀ step ∈ flow.steps, step.Within T.known T.listed) :
    T.Same (T.executor.linearFrom mode nested info flow cancellation start context log)
      (T.other.linearFrom mode nested' info flow cancellation start context log) := by
  unfold linearFrom
  refine .bind (same_linearLoop hT hn _ (fun step h => hsteps step (List.mem_of_mem_drop h)) _ _ _)
    fun progress => ?_
  cases progress with
  | ended result => exact .pure rfl
  | going state => exact same_finishFlow

theorem same_executeLinear (hT : T.Faithful) (hn : T.Nestled nested nested')
    (hsteps : ∀ step ∈ flow.steps, step.Within T.known T.listed) :
    T.Same (T.executor.executeLinear lane nested flow flowName input cancellation)
      (T.other.executeLinear lane nested' flow flowName input cancellation) := by
  unfold executeLinear
  refine .modify_bind (fun _ => hT.stable _ _ rfl) (.bind (same_perform rfl) fun traceId => .bind same_fire fun _ => ?_)
  refine .bind same_ofExcept fun inputFailure => ?_
  cases inputFailure with
  | some record => exact same_makeResult
  | none => exact .get_bind fun state _ => .bind (same_probe rfl) fun _ => same_linearFrom hT hn hsteps

-- DAG flows

theorem same_executeCapabilityStep {step : DAGFlowStep} :
    T.Same (T.executor.executeCapabilityStep stepIndex step context)
      (T.other.executeCapabilityStep stepIndex step context) := by
  unfold executeCapabilityStep
  refine .bind same_displayName fun name => .bind (same_probe rfl) fun _ => ?_
  rw [show T.other.kernel = T.executor.kernel from rfl]
  split
  · unfold invokeCapability
    dsimp only
    split
    · exact .pure rfl
    split
    · exact .pure rfl
    refine .bind (same_perform rfl) fun reply => ?_
    split <;> exact .pure rfl
  · exact .pure rfl

theorem same_runCapabilityStep {step : DAGFlowStep} :
    T.Same (T.executor.runCapabilityStep info stepIndex step context)
      (T.other.runCapabilityStep info stepIndex step context) := by
  unfold runCapabilityStep
  refine .bind same_executeCapabilityStep fun record => ?_
  split
  · exact .bind same_fire fun _ => .bind same_fire fun _ => .pure rfl
  · exact .bind same_fire fun _ => .pure rfl

theorem same_placeOutputs {step : DAGFlowStep} :
    T.Same (placeOutputs info step context record levelOutputs)
      (placeOutputs info step context record levelOutputs) := by
  unfold placeOutputs
  split
  · exact lockstep_raise
  · exact .bind same_displayName fun _ => .bind same_ofExcept fun _ => .bind (same_probe rfl) fun _ => .pure rfl

theorem same_dagCapabilityStep {step : DAGFlowStep} {state : DagState} {level : LevelState} :
    T.Same (T.executor.dagCapabilityStep info step state level) (T.other.dagCapabilityStep info step state level) := by
  unfold dagCapabilityStep
  refine .bind same_runCapabilityStep fun record => ?_
  dsimp only
  split
  · exact same_ended
  refine .bind same_placeOutputs ?_
  rintro ⟨mapped, clash⟩
  cases clash with
  | some key => exact same_ended
  | none => exact .pure rfl

variable {flow : DAGFlow}

theorem selectEdge_other {step : DAGFlowStep} (edges : List ConditionalEdge) :
    T.other.selectEdge step context edges = T.executor.selectEdge step context edges := by
  induction edges with
  | nil => rfl
  | cons edge rest ih =>
    unfold selectEdge
    rw [ih]
    rfl

theorem routeBranch_other {step : DAGFlowStep} :
    T.other.routeBranch step context levelOutputs outputs =
      T.executor.routeBranch step context levelOutputs outputs := by
  unfold routeBranch selectBranch
  rw [selectEdge_other]

theorem same_placeToolRecord {step : DAGFlowStep} {state : DagState} {level : LevelState} :
    T.Same (T.executor.placeToolRecord info flow step state level record)
      (T.other.placeToolRecord info flow step state level record) := by
  unfold placeToolRecord
  refine .bind same_placeOutputs ?_
  rintro ⟨mapped, clash⟩
  refine .bind same_displayName fun name => ?_
  cases clash with
  | some key => exact same_ended
  | none =>
    dsimp only
    rw [routeBranch_other]
    refine .bind same_ofExcept fun outcome => ?_
    cases outcome with
    | selected target => exact .pure rfl
    | invalid e => exact same_ended

theorem proxy_within {known listed : String → Prop} {step : DAGFlowStep} (h : step.toFlowStep.Within known listed) :
    (proxy step).Within known listed :=
  ⟨h.tool, h.flow, h.candidate, h.fallback⟩

theorem same_dagToolStep (hT : T.Faithful) (hn : T.Nestled nested nested') {step : DAGFlowStep}
    (hstep : step.toFlowStep.Within T.known T.listed) {state : DagState} {level : LevelState} :
    T.Same (T.executor.dagToolStep nested info flow cancellation step state level)
      (T.other.dagToolStep nested' info flow cancellation step state level) := by
  unfold dagToolStep
  refine .attempt_bind (same_executeStepIn hT hn (proxy_within hstep)) fun outcome => ?_
  split
  · exact same_reraiseSubflowCancellation
  · exact .throw
  · split
    · exact same_ended
    · exact same_placeToolRecord

theorem same_dagStep (hT : T.Faithful) (hn : T.Nestled nested nested') {step : DAGFlowStep}
    (hstep : step.toFlowStep.Within T.known T.listed) {state : DagState} {level : LevelState} :
    T.Same (T.executor.dagStep nested info flow cancellation step state level)
      (T.other.dagStep nested' info flow cancellation step state level) := by
  unfold dagStep
  refine .bind (same_probe rfl) fun _ => ?_
  split
  · exact .bind same_displayName fun _ => .pure rfl
  · cases step.stepType with
    | capability => exact same_dagCapabilityStep
    | tool => exact same_dagToolStep hT hn hstep

theorem same_dagLevelSteps (hT : T.Faithful) (hn : T.Nestled nested nested') (todo : List DAGFlowStep)
    (hsteps : ∀ step ∈ todo, step.toFlowStep.Within T.known T.listed) {state : DagState} (level : LevelState) :
    T.Same (T.executor.dagLevelSteps nested info flow cancellation state todo level)
      (T.other.dagLevelSteps nested' info flow cancellation state todo level) := by
  induction todo generalizing level with
  | nil => exact .pure rfl
  | cons step rest ih =>
    unfold dagLevelSteps
    refine .bind (same_dagStep hT hn (hsteps _ List.mem_cons_self)) fun progress => ?_
    cases progress with
    | ended result => exact .pure rfl
    | going level => exact ih (fun step h => hsteps step (List.mem_cons_of_mem _ h)) level

theorem same_closeLevel (hT : T.Faithful) :
    T.Same (T.executor.closeLevel info flow levelIndex context levelOutputs log)
      (T.other.closeLevel info flow levelIndex context levelOutputs log) :=
  .bind (same_probe rfl) fun _ => .bind same_ofExcept fun _ => .bind (same_saveSnapshot hT) fun _ => .pure rfl

/-- The steps of all levels stay within the names. -/
abbrev LevelsWithin (T : Twin) (levels : List (List DAGFlowStep)) : Prop :=
  ∀ level ∈ levels, ∀ step ∈ level, step.toFlowStep.Within T.known T.listed

theorem levelsWithin (h : computeDagLevels hashing flow = .ok levels)
    (hsteps : ∀ step ∈ flow.steps, step.toFlowStep.Within T.known T.listed) : T.LevelsWithin levels := by
  obtain ⟨height, hlevelled⟩ := Topology.computeDagLevels_levelled h
  intro level hlevel step hstep
  exact hsteps step (hlevelled.perm.mem_iff.1 (List.mem_flatten.2 ⟨level, hlevel, hstep⟩))

theorem same_dagLevels (hT : T.Faithful) (hn : T.Nestled nested nested') (rest : List (List DAGFlowStep))
    (hlevels : T.LevelsWithin rest) (levelIndex : Nat) (state : DagState) :
    T.Same (T.executor.dagLevels nested info flow cancellation rest levelIndex state)
      (T.other.dagLevels nested' info flow cancellation rest levelIndex state) := by
  induction rest generalizing levelIndex state with
  | nil => exact .pure rfl
  | cons todo rest ih =>
    have hlevel : T.Same (T.executor.dagLevel nested info flow cancellation levelIndex todo state)
        (T.other.dagLevel nested' info flow cancellation levelIndex todo state) := by
      unfold dagLevel
      refine .bind same_checkCancellation fun _ => ?_
      refine .bind (same_dagLevelSteps hT hn todo (hlevels _ List.mem_cons_self) _) fun progress => ?_
      cases progress with
      | ended result => exact .pure rfl
      | going level => exact .bind (same_closeLevel hT) fun _ => .pure rfl
    unfold dagLevels
    refine .bind hlevel fun progress => ?_
    cases progress with
    | ended result => exact .pure rfl
    | going state => exact ih (fun level h => hlevels level (List.mem_cons_of_mem _ h)) _ _

theorem same_dagFrom (hT : T.Faithful) (hn : T.Nestled nested nested') (hlevels : T.LevelsWithin levels)
    {state : DagState} :
    T.Same (T.executor.dagFrom nested info flow cancellation levels startLevel state)
      (T.other.dagFrom nested' info flow cancellation levels startLevel state) := by
  unfold dagFrom
  refine .bind (same_dagLevels hT hn _ (fun level h => hlevels level (List.mem_of_mem_drop h)) _ _) fun progress => ?_
  cases progress with
  | ended result => exact .pure rfl
  | going state => exact same_finishFlow

theorem same_executeDagFlow (hT : T.Faithful) (hn : T.Nestled nested nested')
    (hsteps : ∀ step ∈ flow.steps, step.toFlowStep.Within T.known T.listed) :
    T.Same (T.executor.executeDagFlow nested flow input cancellation)
      (T.other.executeDagFlow nested' flow input cancellation) := by
  have hlevelled : ∀ {c c' : List (List DAGFlowStep) → Exec ExecutionResult},
      (∀ levels, T.LevelsWithin levels → T.Same (c levels) (c' levels)) →
      T.Same (ofExcept (computeDagLevels T.executor.platform.hashing flow) >>= c)
        (ofExcept (computeDagLevels T.executor.platform.hashing flow) >>= c') := by
    intro c c' h
    refine lockstep_ofExcept.bind_related ?_
    rintro _ levels ⟨rfl, hlevels⟩
    exact h _ (levelsWithin hlevels hsteps)
  unfold executeDagFlow
  refine .modify_bind (fun _ => hT.stable _ _ rfl) (.get_bind fun state _ => ?_)
  split
  · exact .bind same_fire fun _ => hlevelled fun levels hlevels => .bind (same_probe rfl) fun _ =>
      same_dagFrom hT hn hlevels
  · refine .bind (same_perform rfl) fun traceId => .bind same_fire fun _ => .bind same_ofExcept fun inputFailure => ?_
    cases inputFailure with
    | some record => exact same_makeResult
    | none =>
      exact .get_bind fun state _ => hlevelled fun levels hlevels => .bind (same_probe rfl) fun _ =>
        same_dagFrom hT hn hlevels

-- DAG flows in the asynchronous lane

theorem proxyAsync_within {known listed : String → Prop} {step : DAGFlowStep}
    (h : step.toFlowStep.Within known listed) : (proxyAsync step).Within known listed where
  tool := h.tool
  flow := h.flow
  candidate names hnames := by cases hnames
  fallback := h.fallback

theorem same_dagTask (hT : T.Faithful) (hn : T.Nestled nested nested') {step : DAGFlowStep}
    (hstep : step.toFlowStep.Within T.known T.listed) :
    T.Same (T.executor.dagTask nested info cancellation context flatIndex step)
      (T.other.dagTask nested' info cancellation context flatIndex step) :=
  same_executeStepIn hT hn (proxyAsync_within hstep)

theorem same_dagTasksInOrder (hT : T.Faithful) (hn : T.Nestled nested nested') (indexed : List (Nat × DAGFlowStep))
    (hsteps : ∀ entry ∈ indexed, entry.2.toFlowStep.Within T.known T.listed) :
    T.Same (T.executor.dagTasksInOrder nested info cancellation context indexed)
      (T.other.dagTasksInOrder nested' info cancellation context indexed) := by
  induction indexed with
  | nil => exact .pure rfl
  | cons entry rest ih =>
    unfold dagTasksInOrder
    refine .bind (same_dagTask hT hn (hsteps _ List.mem_cons_self)) fun record => ?_
    exact .bind (ih fun entry h => hsteps entry (List.mem_cons_of_mem _ h)) fun _ => .pure rfl

theorem same_runDagLevelAsync (hT : T.Faithful) (hn : T.Nestled nested nested')
    {indexed : List (Nat × DAGFlowStep)}
    (hsteps : ∀ entry ∈ indexed, entry.2.toFlowStep.Within T.known T.listed) :
    T.Same (T.executor.runDagLevelAsync nested info cancellation context indexed)
      (T.other.runDagLevelAsync nested' info cancellation context indexed) := by
  unfold runDagLevelAsync
  rw [show T.other.maxStepConcurrency = T.executor.maxStepConcurrency from rfl]
  split
  · exact same_dagTasksInOrder hT hn indexed hsteps
  · refine .bind (same_perform rfl) fun choices => .gather ?_
    rw [List.forall₂_map_left_iff, List.forall₂_map_right_iff, List.forall₂_same]
    exact fun entry h => same_dagTask hT hn (hsteps entry h)

theorem same_processRecords (entries : List (DAGFlowStep × StepRecord)) (log : List StepRecord)
    (levelOutputs : Dict) :
    T.Same (T.executor.processRecords info context entries log levelOutputs)
      (T.other.processRecords info context entries log levelOutputs) := by
  induction entries generalizing log levelOutputs with
  | nil => exact .pure rfl
  | cons entry rest ih =>
    unfold processRecords
    dsimp only
    split
    · exact same_ended
    refine .bind same_placeOutputs ?_
    rintro ⟨mapped, clash⟩
    cases clash with
    | some key => exact .bind same_displayName fun _ => same_ended
    | none => exact ih _ _

theorem same_dagLevelsAsync (hT : T.Faithful) (hn : T.Nestled nested nested') (rest : List (List DAGFlowStep))
    (hlevels : T.LevelsWithin rest) (levelIndex : Nat) (state : DagState) :
    T.Same (T.executor.dagLevelsAsync nested info flow cancellation rest levelIndex state)
      (T.other.dagLevelsAsync nested' info flow cancellation rest levelIndex state) := by
  induction rest generalizing levelIndex state with
  | nil => exact .pure rfl
  | cons todo rest ih =>
    have hlevel : T.Same (T.executor.dagLevelAsync nested info flow cancellation levelIndex todo state)
        (T.other.dagLevelAsync nested' info flow cancellation levelIndex todo state) := by
      unfold dagLevelAsync
      refine .bind same_checkCancellation fun _ => ?_
      dsimp only
      split
      · exact .bind (same_probe rfl) fun _ => .bind same_displayName fun _ => same_ended
      · refine .bind (same_runDagLevelAsync hT hn fun entry hentry => ?_) fun records => ?_
        · obtain ⟨⟨step, place⟩, hmem, rfl⟩ := List.mem_map.1 hentry
          exact hlevels _ List.mem_cons_self _ (List.fst_mem_of_mem_zipIdx hmem)
        refine .bind (same_processRecords _ _ _) fun progress => ?_
        cases progress with
        | ended result => exact .pure rfl
        | going state => exact .bind (same_closeLevel hT) fun _ => .pure rfl
    unfold dagLevelsAsync
    refine .bind hlevel fun progress => ?_
    cases progress with
    | ended result => exact .pure rfl
    | going state => exact ih (fun level h => hlevels level (List.mem_cons_of_mem _ h)) _ _

theorem same_dagFromAsync (hT : T.Faithful) (hn : T.Nestled nested nested') (hlevels : T.LevelsWithin levels)
    {state : DagState} :
    T.Same (T.executor.dagFromAsync nested info flow cancellation levels startLevel state)
      (T.other.dagFromAsync nested' info flow cancellation levels startLevel state) := by
  unfold dagFromAsync
  refine .bind (same_dagLevelsAsync hT hn _ (fun level h => hlevels level (List.mem_of_mem_drop h)) _ _)
    fun progress => ?_
  cases progress with
  | ended result => exact .pure rfl
  | going state => exact same_finishFlow

theorem same_executeDagFlowAsync (hT : T.Faithful) (hn : T.Nestled nested nested')
    (hsteps : ∀ step ∈ flow.steps, step.toFlowStep.Within T.known T.listed) :
    T.Same (T.executor.executeDagFlowAsync nested flow input cancellation)
      (T.other.executeDagFlowAsync nested' flow input cancellation) := by
  unfold executeDagFlowAsync
  refine .modify_bind (fun _ => hT.stable _ _ rfl) (lockstep_orRefuse.bind_related ?_)
  rintro _ levels ⟨rfl, hlevels⟩
  have hlevels := levelsWithin hlevels hsteps
  refine .get_bind fun state _ => ?_
  split
  · exact .bind same_fire fun _ => .bind (same_probe rfl) fun _ => same_dagFromAsync hT hn hlevels
  · refine .bind (same_perform rfl) fun traceId => .bind same_fire fun _ => .bind same_ofExcept fun inputFailure => ?_
    cases inputFailure with
    | some record => exact same_makeResult
    | none =>
      exact .get_bind fun state _ => .bind (same_probe rfl) fun _ => same_dagFromAsync hT hn hlevels

-- Entry points

theorem visit_other (root : String) (budget : Nat) (path : List String) (steps : List FlowStep) :
    T.other.visit root budget path steps = T.executor.visit root budget path steps := by
  induction budget generalizing path steps with
  | zero => rfl
  | succ budget ih =>
    unfold visit
    simp only [ih]
    rfl

theorem validateComposition_other {flow : AnyFlow} :
    T.other.validateComposition flow = T.executor.validateComposition flow :=
  visit_other _ _ _ _

/-- The steps of a flow that a call starts stay within the names. -/
abbrev StartsWithin (T : Twin) (flowName : String) (call : Call) : Prop :=
  ∀ flow, T.executor.registry.getFlow flowName call.version = .ok flow →
    ∀ step ∈ flow.steps, step.Within T.known T.listed

theorem same_executeFlowImpl (hT : T.Faithful) (hn : T.Nestled nested nested') {call : Call}
    (hsteps : T.StartsWithin flowName call) :
    T.Same (T.executor.executeFlowImpl nested flowName input call)
      (T.other.executeFlowImpl nested' flowName input call) := by
  unfold executeFlowImpl
  refine lockstep_orRefuse.bind_related ?_
  rintro _ flow ⟨rfl, hflow⟩
  have hsteps := hsteps _ hflow
  rw [validateComposition_other]
  refine .modify_bind (fun _ => hT.stable _ _ rfl) (.bind same_orRefuse fun _ => .bind same_orRefuse fun _ => ?_)
  refine .get_bind fun state _ => .bind (same_probe rfl) fun _ => ?_
  cases flow with
  | dag flow => exact same_executeDagFlow hT hn fun step h => hsteps _ (List.mem_map_of_mem h)
  | linear flow => exact same_executeLinear hT hn hsteps

theorem same_executeFlowWith (hT : T.Faithful) (hn : T.Nestled nested nested') {call : Call}
    (hsteps : T.StartsWithin flowName call) (henter : ∀ state, T.Inv state → T.Inv (enterSync call state)) :
    T.Same (T.executor.executeFlowWith nested flowName input call)
      (T.other.executeFlowWith nested' flowName input call) :=
  .within henter (same_executeFlowImpl hT hn hsteps)

theorem withDynamicParams_dryRun : (withDynamicParams state params).dryRun = state.dryRun := by
  cases params <;> rfl

theorem same_executeFlowAsyncWith (hT : T.Faithful) (hn : T.Nestled nested nested') {call : Call}
    (hsteps : T.StartsWithin flowName call) :
    T.Same (T.executor.executeFlowAsyncWith nested flowName input call)
      (T.other.executeFlowAsyncWith nested' flowName input call) := by
  unfold executeFlowAsyncWith
  refine lockstep_orRefuse.bind_related ?_
  rintro _ flow ⟨rfl, hflow⟩
  have hsteps := hsteps _ hflow
  rw [validateComposition_other]
  refine .bind same_orRefuse fun _ => .bind same_orRefuse fun _ => .bind same_orRefuse fun _ => ?_
  refine .within (fun state => hT.stable _ _ withDynamicParams_dryRun) (.get_bind fun state _ => ?_)
  refine .bind (same_probe rfl) fun _ => ?_
  cases flow with
  | dag flow => exact same_executeDagFlowAsync hT hn fun step h => hsteps _ (List.mem_map_of_mem h)
  | linear flow => exact same_executeLinear hT hn hsteps

theorem enterSync_inv (hT : T.Faithful) {call : Call} (hdry : call.dryRun = false) (hs : T.Inv state) :
    T.Inv (enterSync call state) := by
  refine hT.stable _ _ ?_ hs
  unfold enterSync
  dsimp only
  rw [withDynamicParams_dryRun, hdry]
  rfl

theorem nestled_lanes (hT : T.Faithful) (stack : Nat) : T.Nestled (T.executor.lanes stack) (T.other.lanes stack) := by
  induction stack with
  | zero =>
    rintro (_ | _) flowName input cancellation -
    all_goals exact .bind (same_probe rfl) fun _ => .throw
  | succ stack ih =>
    rintro (_ | _) flowName input cancellation hlisted
    · exact same_executeFlowWith hT ih (fun flow hflow => hT.steps _ _ hlisted hflow) fun state =>
        enterSync_inv hT rfl
    · exact same_executeFlowAsyncWith hT ih fun flow hflow => hT.steps _ _ hlisted hflow

end ChainWeaver.Executor.Twin
