import ChainWeaver.Interaction.Graded
import ChainWeaver.Replay

/-!
# Decisions along a run

A synchronous run consults the decision callback at most once for each step that has
candidates. `Tallies` is any judgement on computations that counts the decisions,
and the loops obey it.
-/

namespace ChainWeaver

open Interaction (Graded)

/-- How often a step may consult the callback. -/
def FlowStep.points (step : FlowStep) : Nat := if step.decisionCandidates.isSome then 1 else 0

def points (steps : List FlowStep) : Nat := (steps.map FlowStep.points).sum

/-- The question is no decision, and no border of a nested call. -/
def quiet : (kind : EffectKind) → kind.Query → Bool
  | .decide, _ => false
  | .decideTimed, _ => false
  | .probe, .nestedStart .. => false
  | .probe, .nestedEnd .. => false
  | _, _ => true

namespace Executor

/-- A judgement that counts decisions, from states in `Inv`. Nothing but a decision
looks at the counter of the state. -/
structure Tallies (executor : Executor) (Inv : RunScopedState → Prop) (G : ∀ {α : Type}, Nat → Exec α → Prop) :
    Prop extends Graded G where
  get_bind {α : Type} {f : RunScopedState → Exec α} :
    (∀ state count, f { state with decisionCount := count } = f state) → (∀ state, Inv state → G n (f state)) →
      G n (get >>= f)
  version (activeFlowVersion : String) : G 0 (modify fun state => { state with activeFlowVersion } : Exec PUnit)
  ask {kind : EffectKind} {query : kind.Query} : quiet kind query = true → G 0 (perform kind query)
  decide {α : Type} (info : StepInfo) (policy : DecisionPolicy) (ctx : DecisionContext)
    {f : Option (Except Exc String) → Exec α} : (∀ answer, G 0 (f answer)) →
      G 1 (executor.spendDecision info >>= fun _ => askDecision policy ctx >>= f)

/-- A nested call counts for itself. -/
def Uncounted (G : ∀ {α : Type}, Nat → Exec α → Prop) (nested : Nested) : Prop :=
  ∀ origin input flowName flowInput cancellation,
    G 0 (nestedCall origin input (nested.executeFlow flowName flowInput cancellation))

namespace Tallies

variable {executor : Executor} {Inv : RunScopedState → Prop} {G : ∀ {α : Type}, Nat → Exec α → Prop} {nested : Nested} {info : StepInfo}

-- The primitives

theorem fire (h : executor.Tallies Inv G) (hook : Hook) : G 0 (fire hook) := h.ask rfl

theorem probe (h : executor.Tallies Inv G) {mark : Probe} (hmark : quiet .probe mark = true) : G 0 (probe mark) :=
  h.ask hmark

theorem raise (h : executor.Tallies Inv G) (e : Exc) : G 0 (raise e : Exec α) :=
  h.before (h.probe rfl) fun _ => h.throw e

theorem ofExcept (h : executor.Tallies Inv G) (x : Except Exc α) : G 0 (ofExcept x) := by
  cases x with
  | ok value => exact h.pure value
  | error e => exact h.raise e

/-- A value that is known goes on by itself. -/
theorem known {f : α → Exec β} (hf : G n (f value)) : G n (ChainWeaver.ofExcept (.ok value) >>= f) := hf

theorem rethrow (h : executor.Tallies Inv G) (x : Except Exc α) : G 0 (rethrow x) := by
  cases x with
  | ok value => exact h.pure value
  | error e => exact h.throw e

theorem refuse (h : executor.Tallies Inv G) (e : Exc) : G 0 (refuse e : Exec α) :=
  h.before (h.probe rfl) fun _ => h.throw e

theorem orRefuse (h : executor.Tallies Inv G) (x : Except Exc α) : G 0 (orRefuse x) := by
  cases x with
  | ok value => exact h.pure value
  | error e => exact h.refuse e

theorem displayName (h : executor.Tallies Inv G) (step : FlowStep) : G 0 (displayName step) := by
  unfold Executor.displayName
  split
  · exact h.pure _
  · exact h.raise _

-- Running a tool

theorem evaluateSafetyGate (h : executor.Tallies Inv G) (info : StepInfo) (tool : Tool) (inputs : Dict) :
    G 0 (executor.evaluateSafetyGate info tool inputs) := by
  unfold Executor.evaluateSafetyGate
  dsimp only
  split
  · exact h.pure _
  split
  · exact h.pure _
  split
  · split
    · exact h.pure _
    · exact h.pure _
  refine h.before (h.ask rfl) fun reply => ?_
  split <;> exact h.pure _

theorem evaluateInputGuardrail (h : executor.Tallies Inv G) (info : StepInfo) (tool : Tool) (inputs : Dict) :
    G 0 (executor.evaluateInputGuardrail info tool inputs) := by
  unfold Executor.evaluateInputGuardrail
  split
  · exact h.pure _
  refine h.before (h.ask rfl) fun reply => ?_
  split <;> exact h.pure _

theorem callFn (h : executor.Tallies Inv G) (hn : Uncounted G nested) (info : StepInfo) (tool : Tool) (inputs validated : Dict) :
    G 0 (callFn nested info tool inputs validated) := by
  refine h.before (h.probe rfl) fun _ => ?_
  split
  · exact h.ask rfl
  · exact h.before (h.attempt (hn _ _ _ _ _)) fun _ => h.pure _
  · exact h.before (h.ask rfl) fun _ => h.pure _

theorem runTool (h : executor.Tallies Inv G) (hn : Uncounted G nested) (info : StepInfo) (tool : Tool) (inputs : Dict) :
    G 0 (executor.runTool nested info tool inputs) := by
  unfold Executor.runTool
  split
  · exact h.pure _
  · exact h.before (h.callFn hn _ _ _ _) fun _ => h.pure _

theorem attempts (h : executor.Tallies Inv G) (hn : Uncounted G nested) (tool : Tool) (inputs : Dict) (retryable : Exc → Bool)
    (retries : Nat) (retryErrors : List String) (made : Nat) :
    G 0 (executor.attempts nested info tool inputs retryable retries retryErrors made) := by
  induction retries generalizing retryErrors made with
  | zero =>
    unfold Executor.attempts
    refine h.before (h.runTool hn _ _ _) fun outcome => ?_
    cases outcome <;> exact h.pure _
  | succ retries ih =>
    unfold Executor.attempts
    refine h.before (h.runTool hn _ _ _) fun outcome => ?_
    cases outcome with
    | ok outputs => exact h.pure _
    | error e =>
      dsimp only
      split
      · exact ih _ _
      · exact h.pure _

theorem invokeTool (h : executor.Tallies Inv G) (hn : Uncounted G nested) (tool : Tool) (inputs : Dict)
    (policy : Option RetryPolicy) : G 0 (executor.invokeTool nested info tool inputs policy) := by
  unfold Executor.invokeTool
  split
  · exact h.attempts hn _ _ _ _ _ _
  split
  · refine h.before (h.runTool hn _ _ _) fun outcome => ?_
    cases outcome <;> exact h.pure _
  split
  · exact h.pure _
  · exact h.attempts hn _ _ _ _ _ _

-- Decision, dry run, error policy

theorem resolveDecision (h : executor.Tallies Inv G) (info : StepInfo) (step : FlowStep) (context : Dict) :
    G step.points (executor.resolveDecision info step context) := by
  unfold Executor.resolveDecision
  split
  · exact h.free (h.pure _)
  next candidates hc =>
  split
  · exact h.free (h.pure _)
  have hpoints : step.points = 1 := by rw [FlowStep.points, hc, Option.isSome_some, if_pos rfl]
  rw [hpoints]
  refine h.before (h.displayName step) fun name => h.decide info _ _ fun answer => ?_
  split
  · exact h.before (h.before (h.fire _) fun _ => h.pure _) fun _ => h.pure _
  · exact h.pure _

theorem runDry (h : executor.Tallies Inv G) (info : StepInfo) (tool : Tool) (inputs : Dict) :
    G 0 (executor.runDry info tool inputs) := by
  unfold Executor.runDry
  split
  · exact h.pure _
  · exact h.before (h.ask rfl) fun _ => h.pure _

theorem dryRunStep (h : executor.Tallies Inv G) (info : StepInfo) (toolName : String) (tool : Tool) (inputs : Dict)
    (record : StepRecord) : G 0 (executor.dryRunStep info toolName tool inputs record) := by
  unfold Executor.dryRunStep
  split
  · exact h.pure _
  split
  · refine h.before (h.runDry _ _ _) fun outcome => ?_
    cases outcome <;> exact h.pure _
  · refine h.get_bind (fun _ _ => rfl) fun state _ => ?_
    split <;> exact h.pure _

theorem dryDispatch (h : executor.Tallies Inv G) (lane : Lane) (info : StepInfo) (toolName : String) (tool : Tool)
    (inputs : Dict) (record : StepRecord) : G 0 (executor.dryDispatch lane info toolName tool inputs record) := by
  refine h.get_bind (fun _ _ => rfl) fun state _ => ?_
  split
  · exact h.dryRunStep _ _ _ _ _
  · exact h.pure _

theorem runFallback (h : executor.Tallies Inv G) (hn : Uncounted G nested) (lane : Lane) (toolName fallbackName : String)
    (inputs : Dict) (record : StepRecord) (retryErrors : List String) :
    G 0 (executor.runFallback lane nested info toolName fallbackName inputs record retryErrors) := by
  unfold Executor.runFallback
  dsimp only
  split
  · exact h.pure _
  refine h.before (h.evaluateSafetyGate _ _ _) fun gate => ?_
  split
  · exact h.pure _
  refine h.before (h.dryDispatch _ _ _ _ _ _) fun dry => ?_
  split
  · exact h.pure _
  refine h.before (h.probe rfl) fun _ => h.before (h.runTool hn _ _ _) fun outcome => ?_
  cases outcome <;> exact h.pure _

theorem applyOnError (h : executor.Tallies Inv G) (hn : Uncounted G nested) (lane : Lane) (step : FlowStep) (toolName : String)
    (inputs : Dict) (record : StepRecord) (retryErrors : List String) (wrapped : Exc) :
    G 0 (executor.applyOnError lane nested info step toolName inputs record retryErrors wrapped) := by
  unfold Executor.applyOnError
  split
  · exact h.pure _
  · exact h.pure _
  · exact h.runFallback hn _ _ _ _ _ _

-- Steps

theorem prepareStep (h : executor.Tallies Inv G) (info : StepInfo) (step : FlowStep) (toolName : String) (context : Dict)
    (record : StepRecord) : G 0 (executor.prepareStep info step toolName context record) := by
  unfold Executor.prepareStep
  split
  · exact h.pure _
  split
  · exact h.pure _
  refine h.before (h.ofExcept _) fun violation => ?_
  split <;> exact h.pure _

theorem settleOutputs (h : executor.Tallies Inv G) (info : StepInfo) (step : FlowStep) (toolName : String)
    (key : Option StepCacheKey) (record : StepRecord) (outputs : Dict) :
    G 0 (executor.settleOutputs info step toolName key record outputs) := by
  refine h.before (h.ofExcept _) fun violation => ?_
  split
  · exact h.pure _
  split
  · exact h.before (h.ask rfl) fun _ => h.before (h.ofExcept _) fun _ => h.pure _
  · exact h.before (h.pure _) fun _ => h.pure _

theorem cacheLookup (h : executor.Tallies Inv G) (key : Option StepCacheKey) : G 0 (cacheLookup key) := by
  cases key with
  | none => exact h.pure _
  | some key => exact h.before (h.ask rfl) fun _ => h.ofExcept _

theorem runCached (h : executor.Tallies Inv G) (hn : Uncounted G nested) (lane : Lane) (step : FlowStep) (toolName : String)
    (tool : Tool) (inputs : Dict) (record : StepRecord) :
    G 0 (executor.runCached lane nested info step toolName tool inputs record) := by
  refine h.get_bind (fun _ _ => rfl) fun state _ => h.before (h.ofExcept _) fun key => ?_
  refine h.before (h.cacheLookup key) fun hit => ?_
  split
  · exact h.before (h.settleOutputs _ _ _ _ _ _) fun _ => h.pure _
  refine h.before (h.invokeTool hn _ _ _) fun invoked => ?_
  dsimp only
  split
  · exact h.applyOnError hn _ _ _ _ _ _ _
  · exact h.settleOutputs _ _ _ _ _ _

theorem runToolStep (h : executor.Tallies Inv G) (hn : Uncounted G nested) (step : FlowStep) (toolName : String) (tool : Tool)
    (inputs : Dict) (record : StepRecord) :
    G 0 (executor.runToolStep .sync nested info step toolName tool inputs record) := by
  refine h.before (h.evaluateSafetyGate _ _ _) fun gate => ?_
  split
  split
  · exact h.pure _
  refine h.before (h.evaluateInputGuardrail _ _ _) fun blocked => ?_
  split
  · exact h.pure _
  refine h.before (h.dryDispatch _ _ _ _ _ _) fun dry => ?_
  split
  · exact h.pure _
  · exact h.runCached hn _ _ _ _ _ _

theorem executeToolStep (h : executor.Tallies Inv G) (hn : Uncounted G nested) (info : StepInfo) (step : FlowStep)
    (decision : Option DecisionRecord) (context : Dict) :
    G 0 (executor.executeToolStep .sync nested info step decision context) := by
  refine h.before (h.displayName step) fun toolName => h.before (h.prepareStep _ _ _ _ _) fun prepared => ?_
  split
  · exact h.before (h.fire _) fun _ => h.pure _
  refine h.before (h.fire _) fun _ => h.before (h.runToolStep hn _ _ _ _ _) fun record => ?_
  exact h.before (h.fire _) fun _ => h.pure _

theorem executeSubflowStep (h : executor.Tallies Inv G) (hn : Uncounted G nested) (info : StepInfo) (step : FlowStep)
    (subName : String) (context : Dict) (cancellation : Cancellation) :
    G 0 (executeSubflowStep .sync nested info step subName context cancellation) := by
  refine h.before (h.probe rfl) fun _ => ?_
  split
  · exact h.pure _
  refine h.before (h.fire _) fun _ => h.get_bind (fun _ _ => rfl) fun state _ => ?_
  refine h.before (h.attempt (hn _ _ _ _ _)) fun outcome => h.before (h.version _) fun _ => ?_
  exact h.before (h.rethrow outcome) fun result => h.before (h.fire _) fun _ => h.pure _

theorem executeStep (h : executor.Tallies Inv G) (hn : Uncounted G nested) (info : StepInfo) (step : FlowStep) (context : Dict)
    (cancellation : Cancellation) : G step.points (executor.executeStep nested info step context cancellation) := by
  unfold Executor.executeStep executeStepIn
  split
  · exact h.free (h.executeSubflowStep hn _ _ _ _ _)
  refine h.behind (h.resolveDecision info step context) fun resolved => ?_
  split
  · exact h.pure _
  · exact h.executeToolStep hn _ _ _ _

-- Results and snapshots

theorem makeResult (h : executor.Tallies Inv G) (info : RunInfo) (success : Bool) (finalOutput : Option Dict)
    (log : List StepRecord) (toolStepCount : Option Nat) :
    G 0 (executor.makeResult info success finalOutput log toolStepCount) := by
  refine h.get_bind (fun _ _ => rfl) fun state _ => h.before ?_ fun _ => h.before (h.fire _) fun _ => h.pure _
  unfold deleteSnapshot
  split
  · exact h.before (h.ask rfl) fun _ => h.ofExcept _
  · exact h.pure _

theorem ended (h : executor.Tallies Inv G) (info : RunInfo) (log : List StepRecord) :
    G 0 (do pure (Progress.ended (α := α) (← executor.makeResult info false none log))) :=
  h.before (h.makeResult _ _ _ _ _) fun _ => h.pure _

theorem saveSnapshot (h : executor.Tallies Inv G) (info : RunInfo) (flow : AnyFlow) (context : Dict)
    (log : List StepRecord) (completed : Nat) : G 0 (executor.saveSnapshot info flow context log completed) := by
  refine h.get_bind (fun _ _ => rfl) fun state _ => ?_
  split
  · exact h.before (h.ofExcept _) fun _ => h.before (h.ask rfl) fun _ => h.ofExcept _
  · exact h.pure _

theorem checkCancellation (h : executor.Tallies Inv G) (info : RunInfo) (nextStepIndex : Nat) (cancellation : Cancellation)
    (log : List StepRecord) : G 0 (executor.checkCancellation info nextStepIndex cancellation log) := by
  have hlate : G 0 (deadlineExceeded cancellation) := by
    unfold deadlineExceeded
    split
    · exact h.pure _
    · exact h.before (h.ask rfl) fun _ => h.pure _
  have htoken : G 0 (tokenCancelled cancellation) := by
    unfold tokenCancelled
    split
    · exact h.ask rfl
    · exact h.pure _
  refine h.before hlate fun late => h.before htoken fun cancelled => ?_
  split
  · exact h.before (h.probe rfl) fun _ => h.before (h.makeResult _ _ _ _ _) fun _ => h.throw _
  · exact h.pure _

theorem reraise (h : executor.Tallies Inv G) (info : RunInfo) (step : FlowStep) (stepIndex : Nat)
    (priorLog : List StepRecord) (sub : ExecutionResult) (message : String) (deadline token : Bool) :
    G 0 (executor.reraiseSubflowCancellation info step stepIndex priorLog sub message deadline token : Exec α) :=
  h.before (h.makeResult _ _ _ _ _) fun _ => h.throw _

-- Linear flows

theorem finishFlow (h : executor.Tallies Inv G) (info : RunInfo) (header : FlowHeader) (stepCount : Int)
    (checkContext : Bool) (context : Dict) (log : List StepRecord) :
    G 0 (executor.finishFlow info header stepCount checkContext context log) := by
  refine h.before (h.ofExcept _) fun failure => ?_
  split
  · exact h.makeResult _ _ _ _ _
  refine h.before (h.probe rfl) fun _ => h.before (h.ofExcept _) fun failure => ?_
  split <;> exact h.makeResult _ _ _ _ _

theorem mergeOutputs (h : executor.Tallies Inv G) (mode : LinearMode) (info : RunInfo) (policy : ContextCollisionPolicy)
    (step : FlowStep) (stepIndex : Nat) (context : Dict) (record : StepRecord) :
    G 0 (mergeOutputs mode info policy step stepIndex context record) := by
  unfold Executor.mergeOutputs
  split
  · split
    · exact h.raise _
    · exact h.before (h.displayName _) fun _ => h.raise _
  refine h.before (h.displayName _) fun name => h.before (h.ofExcept _) fun mapped => ?_
  refine h.before (h.probe rfl) fun _ => ?_
  split
  · exact h.pure _
  · exact h.ofExcept _

theorem linearStep (h : executor.Tallies Inv G) (hn : Uncounted G nested) (resumed : Bool) (info : RunInfo) (flow : Flow)
    (cancellation : Cancellation) (stepIndex : Nat) (step : FlowStep) (context : Dict) (log : List StepRecord) :
    G step.points
      (executor.linearStep ⟨.sync, resumed⟩ nested info flow cancellation stepIndex step context log) := by
  have hturn : G 0 (executor.checkTurn ⟨.sync, resumed⟩ info stepIndex cancellation log) := by
    unfold checkTurn
    split
    · exact h.pure _
    · exact h.checkCancellation _ _ _ _
  refine h.before hturn fun _ => h.behind (h.attempt (h.executeStep hn _ _ _ _)) fun outcome => ?_
  split
  · split
    · exact h.throw _
    · exact h.reraise _ _ _ _ _ _ _ _
  · exact h.throw _
  dsimp only
  split
  · exact h.ended _ _
  refine h.before (h.mergeOutputs _ _ _ _ _ _ _) fun context => ?_
  exact h.before (h.saveSnapshot _ _ _ _ _) fun _ => h.pure _

theorem linearLoop (h : executor.Tallies Inv G) (hn : Uncounted G nested) (resumed : Bool) (info : RunInfo) (flow : Flow)
    (cancellation : Cancellation) (steps : List FlowStep) (stepIndex : Nat) (context : Dict) (log : List StepRecord) :
    G (points steps)
      (executor.linearLoop ⟨.sync, resumed⟩ nested info flow cancellation steps stepIndex context log) := by
  induction steps generalizing stepIndex context log with
  | nil => exact h.pure _
  | cons step rest ih =>
    unfold Executor.linearLoop
    rw [points, List.map_cons, List.sum_cons]
    refine h.bind (h.linearStep hn _ _ _ _ _ _ _ _) fun progress => ?_
    split
    · exact h.free (h.pure _)
    · exact ih _ _ _

theorem linearFrom (h : executor.Tallies Inv G) (hn : Uncounted G nested) (resumed : Bool) (info : RunInfo) (flow : Flow)
    (cancellation : Cancellation) (start : Nat) (context : Dict) (log : List StepRecord) :
    G (points (flow.steps.drop start))
      (executor.linearFrom ⟨.sync, resumed⟩ nested info flow cancellation start context log) := by
  refine h.behind (h.linearLoop hn _ _ _ _ _ _ _ _) fun progress => ?_
  split
  · exact h.pure _
  · exact h.finishFlow _ _ _ _ _ _

theorem executeLinearFlow (h : executor.Tallies Inv G) (hn : Uncounted G nested) (flow : Flow) (flowName : String)
    (initialInput : Dict) (cancellation : Cancellation) :
    G (points flow.steps) (executor.executeLinearFlow nested flow flowName initialInput cancellation) := by
  refine h.before (h.version _) fun _ => h.before (h.ask rfl) fun traceId => h.before (h.fire _) fun _ => ?_
  refine h.before (h.ofExcept _) fun failure => ?_
  split
  · exact h.free (h.makeResult _ _ _ _ _)
  · exact h.get_bind (fun _ _ => rfl) fun state _ => h.before (h.probe rfl) fun _ =>
      h.linearFrom hn false _ flow _ 0 _ _

theorem resumeLinearFlow (h : executor.Tallies Inv G) (hn : Uncounted G nested) (flow : Flow) (snapshot : ExecutionSnapshot) :
    G (points (flow.steps.drop snapshot.completedSteps)) (executor.resumeLinearFlow nested flow snapshot) :=
  h.before (h.version _) fun _ => h.before (h.fire _) fun _ => h.before (h.probe rfl) fun _ =>
    h.linearFrom hn _ _ _ _ _ _ _

theorem replayLoop (h : executor.Tallies Inv G) (hn : Uncounted G nested) (info : RunInfo) (flow : Flow)
    (steps : List FlowStep) (stepIndex : Nat) (context : Dict) (log : List StepRecord) :
    G (points steps) (executor.replayLoop nested info flow steps stepIndex context log) := by
  induction steps generalizing stepIndex context log with
  | nil => exact h.pure _
  | cons step rest ih =>
    unfold Executor.replayLoop
    rw [points, List.map_cons, List.sum_cons]
    refine h.bind (h.executeStep hn _ _ _ _) fun record => ?_
    dsimp only
    split
    · exact h.free (h.ended _ _)
    · exact h.before (h.mergeOutputs _ _ _ _ _ _ _) fun context => ih _ _ _

theorem replayLinearFrom (h : executor.Tallies Inv G) (hn : Uncounted G nested) (flow : Flow) (result : ExecutionResult)
    (resumeFromStep : Nat) :
    G (points (flow.steps.drop resumeFromStep))
      (executor.replayLinearFrom nested flow result resumeFromStep) := by
  refine h.before (h.version _) fun _ => ?_
  split
  · exact h.free (h.refuse _)
  refine h.before (h.orRefuse _) fun context => h.before (h.ask rfl) fun traceId => h.before (h.fire _) fun _ => ?_
  refine h.before (h.probe rfl) fun _ => h.behind (h.replayLoop hn _ _ _ _ _ _) fun progress => ?_
  split
  · exact h.pure _
  · exact h.makeResult _ _ _ _ _

-- DAG flows

theorem executeCapabilityStep (h : executor.Tallies Inv G) (stepIndex : Nat) (step : DAGFlowStep) (context : Dict) :
    G 0 (executor.executeCapabilityStep stepIndex step context) := by
  refine h.before (h.displayName _) fun name => h.before (h.probe rfl) fun _ => ?_
  split
  · unfold invokeCapability
    dsimp only
    split
    · exact h.pure _
    split
    · exact h.pure _
    refine h.before (h.ask rfl) fun reply => ?_
    split <;> exact h.pure _
  · exact h.pure _

theorem placeOutputs (h : executor.Tallies Inv G) (info : RunInfo) (step : DAGFlowStep) (context : Dict)
    (record : StepRecord) (levelOutputs : Dict) : G 0 (placeOutputs info step context record levelOutputs) := by
  unfold Executor.placeOutputs
  split
  · exact h.raise _
  refine h.before (h.displayName _) fun name => h.before (h.ofExcept _) fun mapped => ?_
  exact h.before (h.probe rfl) fun _ => h.pure _

theorem dagCapabilityStep (h : executor.Tallies Inv G) (info : RunInfo) (step : DAGFlowStep) (state : DagState)
    (level : LevelState) : G 0 (executor.dagCapabilityStep info step state level) := by
  have hstep : G 0 (executor.runCapabilityStep info level.flatIndex step state.context) := by
    refine h.before (h.executeCapabilityStep _ _ _) fun record => ?_
    split
    · exact h.before (h.fire _) fun _ => h.before (h.fire _) fun _ => h.pure _
    · exact h.before (h.fire _) fun _ => h.pure _
  refine h.before hstep fun record => ?_
  dsimp only
  split
  · exact h.ended _ _
  refine h.before (h.placeOutputs _ _ _ _ _) fun placed => ?_
  split
  · exact h.ended _ _
  · exact h.pure _

theorem placeToolRecord (h : executor.Tallies Inv G) (info : RunInfo) (flow : DAGFlow) (step : DAGFlowStep)
    (state : DagState) (level : LevelState) (record : StepRecord) :
    G 0 (executor.placeToolRecord info flow step state level record) := by
  refine h.before (h.placeOutputs _ _ _ _ _) fun placed => h.before (h.displayName _) fun name => ?_
  dsimp only
  split
  · exact h.ended _ _
  refine h.before (h.ofExcept _) fun outcome => ?_
  split
  · exact h.pure _
  · exact h.ended _ _

theorem dagToolStep (h : executor.Tallies Inv G) (hn : Uncounted G nested) (info : RunInfo) (flow : DAGFlow)
    (cancellation : Cancellation) (step : DAGFlowStep) (state : DagState) (level : LevelState) :
    G step.toFlowStep.points (executor.dagToolStep nested info flow cancellation step state level) := by
  refine h.behind (h.attempt (h.executeStep hn _ (proxy step) _ _)) fun outcome => ?_
  split
  · exact h.reraise _ _ _ _ _ _ _ _
  · exact h.throw _
  split
  · exact h.ended _ _
  · exact h.placeToolRecord _ _ _ _ _ _

theorem dagStep (h : executor.Tallies Inv G) (hn : Uncounted G nested) (info : RunInfo) (flow : DAGFlow)
    (cancellation : Cancellation) (step : DAGFlowStep) (state : DagState) (level : LevelState) :
    G step.toFlowStep.points (executor.dagStep nested info flow cancellation step state level) := by
  refine h.before (h.probe rfl) fun _ => ?_
  split
  · exact h.free (h.before (h.displayName _) fun _ => h.pure _)
  split
  · exact h.free (h.dagCapabilityStep _ _ _ _)
  · exact h.dagToolStep hn _ _ _ _ _ _

theorem dagLevelSteps (h : executor.Tallies Inv G) (hn : Uncounted G nested) (info : RunInfo) (flow : DAGFlow)
    (cancellation : Cancellation) (state : DagState) (steps : List DAGFlowStep) (level : LevelState) :
    G (points (steps.map (·.toFlowStep)))
      (executor.dagLevelSteps nested info flow cancellation state steps level) := by
  induction steps generalizing level with
  | nil => exact h.pure _
  | cons step rest ih =>
    unfold Executor.dagLevelSteps
    rw [points, List.map_cons, List.map_cons, List.sum_cons]
    refine h.bind (h.dagStep hn _ _ _ _ _ _) fun progress => ?_
    split
    · exact h.free (h.pure _)
    · exact ih _

theorem closeLevel (h : executor.Tallies Inv G) (info : RunInfo) (flow : DAGFlow) (levelIndex : Nat)
    (context levelOutputs : Dict) (log : List StepRecord) :
    G 0 (executor.closeLevel info flow levelIndex context levelOutputs log) :=
  h.before (h.probe rfl) fun _ => h.before (h.ofExcept _) fun _ => h.before (h.saveSnapshot _ _ _ _ _) fun _ => h.pure _

theorem dagLevel (h : executor.Tallies Inv G) (hn : Uncounted G nested) (info : RunInfo) (flow : DAGFlow)
    (cancellation : Cancellation) (levelIndex : Nat) (steps : List DAGFlowStep) (state : DagState) :
    G (points (steps.map (·.toFlowStep))) (executor.dagLevel nested info flow cancellation levelIndex steps state) := by
  refine h.before (h.checkCancellation _ _ _ _) fun _ => h.behind (h.dagLevelSteps hn _ _ _ _ _ _) fun progress => ?_
  split
  · exact h.pure _
  · exact h.before (h.closeLevel _ _ _ _ _ _) fun _ => h.pure _

/-- The decisions of the levels of a DAG. -/
def levelPoints (levels : List (List DAGFlowStep)) : Nat := points (levels.flatten.map (·.toFlowStep))

theorem dagLevels (h : executor.Tallies Inv G) (hn : Uncounted G nested) (info : RunInfo) (flow : DAGFlow)
    (cancellation : Cancellation) (levels : List (List DAGFlowStep)) (levelIndex : Nat) (state : DagState) :
    G (levelPoints levels) (executor.dagLevels nested info flow cancellation levels levelIndex state) := by
  induction levels generalizing levelIndex state with
  | nil => exact h.pure _
  | cons steps rest ih =>
    have hpoints : levelPoints (steps :: rest) = points (steps.map (·.toFlowStep)) + levelPoints rest := by
      simp [levelPoints, points]
    unfold Executor.dagLevels
    rw [hpoints]
    refine h.bind (h.dagLevel hn _ _ _ _ _ _) fun progress => ?_
    split
    · exact h.free (h.pure _)
    · exact ih _ _

theorem dagFrom (h : executor.Tallies Inv G) (hn : Uncounted G nested) (info : RunInfo) (flow : DAGFlow)
    (cancellation : Cancellation) (levels : List (List DAGFlowStep)) (startLevel : Nat) (state : DagState) :
    G (levelPoints (levels.drop startLevel))
      (executor.dagFrom nested info flow cancellation levels startLevel state) := by
  refine h.behind (h.dagLevels hn _ _ _ _ _ _) fun progress => ?_
  split
  · exact h.pure _
  · exact h.finishFlow _ _ _ _ _ _

/-- The levels that a run from this state has to do. -/
def levelsToDo (levels : List (List DAGFlowStep)) (state : RunScopedState) : List (List DAGFlowStep) :=
  levels.drop ((state.resumeSnapshot.map (·.completedDagLevels)).getD 0)

theorem executeDagFlow (h : executor.Tallies Inv G) (hn : Uncounted G nested) (flow : DAGFlow) (initialInput : Dict)
    (cancellation : Cancellation) (hpoints : ∀ levels, computeDagLevels executor.platform.hashing flow = .ok levels →
      ∀ state, Inv state → levelPoints (levelsToDo levels state) ≤ n) :
    G n (executor.executeDagFlow nested flow initialInput cancellation) := by
  refine h.before (h.version _) fun _ => h.get_bind (fun _ _ => rfl) fun state hstate => ?_
  cases hlevels : computeDagLevels executor.platform.hashing flow with
  | error e =>
    split
    · exact h.before (h.fire _) fun _ => h.free (h.raise e)
    · refine h.before (h.ask rfl) fun traceId => h.before (h.fire _) fun _ => h.before (h.ofExcept _) fun failure => ?_
      split
      · exact h.free (h.makeResult _ _ _ _ _)
      · exact h.get_bind (fun _ _ => rfl) fun _ _ => h.free (h.raise e)
  | ok levels =>
    have hle := hpoints levels hlevels state hstate
    split
    next snapshot hsnapshot =>
      rw [levelsToDo, hsnapshot] at hle
      refine h.before (h.fire _) fun _ => known (h.before (h.probe rfl) fun _ => ?_)
      exact h.weaken (h.dagFrom hn _ flow _ levels snapshot.completedDagLevels _) hle
    next hsnapshot =>
      rw [levelsToDo, hsnapshot] at hle
      refine h.before (h.ask rfl) fun traceId => h.before (h.fire _) fun _ => h.before (h.ofExcept _) fun failure => ?_
      split
      · exact h.free (h.makeResult _ _ _ _ _)
      · refine h.get_bind (fun _ _ => rfl) fun _ _ => known (h.before (h.probe rfl) fun _ => ?_)
        exact h.weaken (h.dagFrom hn _ flow _ levels 0 _) hle

end Tallies

end Executor

end ChainWeaver
