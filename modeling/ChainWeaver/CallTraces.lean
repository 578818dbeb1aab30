import ChainWeaver.DagTraces
import ChainWeaver.Replay

/-!
# Traces of a call

The trace of an entry point: a refusal, or the opening of a run and then the
run. A policy says what is allowed inside steps and of nested calls; if it is
sound, every call obeys it, however deep the flows are nested.
-/

namespace ChainWeaver.Executor

open Interaction (Closed Frame)

structure Policy where
  executor : Executor
  Inv : RunScopedState → Prop
  /-- What a step may do between its hooks. -/
  I : Lane → StepInfo → List Event → Prop
  /-- What a nested call of a flow may do from its start to its end. -/
  W : Lane → String → Dict → List Event → Prop

namespace Policy

variable (P : Policy)

def scene (lane : Lane) (flow : AnyFlow) (run : RunInfo) (start : Spot)
    (origin : Origin) : Scene :=
  { executor := P.executor, Inv := P.Inv, lane, I := P.I lane, flow, run, start, origin }

abbrev flowStartEvent (run : RunInfo) (version : String) (totalSteps : Nat) : Event :=
  hookEvent (.flowStart run.traceId run.flowName version run.initialInput totalSteps)

/-- The trace of a flow that may run. -/
inductive Opened (lane : Lane) (flow : AnyFlow) (input : Dict) :
    Except Exc ExecutionResult → List Event → Prop
  /-- The asynchronous lane computes the levels of a DAG before anything else. -/
  | unlevelled : lane = .async → Opened lane flow input (.error e) [refusedEvent e]
  | fresh : (flow.isDag = true → ∃ state, P.Inv state ∧ state.resumeSnapshot = none) →
      run.initialInput = input → (P.scene lane flow run ⟨0, []⟩ .fresh).RunQ r events →
      Opened lane flow input r
        ([⟨.newTraceId, (), run.traceId⟩, flowStartEvent run version totalSteps] ++ events)
  | resumed : flow.isDag = true → P.Inv state → state.resumeSnapshot = some snapshot →
      run.traceId = snapshot.traceId → run.initialInput = input → start.log = snapshot.executionLog →
      (P.scene lane flow run start (.resumed snapshot)).RunQ r events →
      Opened lane flow input r ([flowStartEvent run version totalSteps] ++ events)

/-- The trace of a call of an entry point. -/
inductive Called (lane : Lane) (flowName : String) (input : Dict) (call : Call) :
    Except Exc ExecutionResult → List Event → Prop
  | refused : Called lane flowName input call (.error e) [refusedEvent e]
  | entered : P.executor.registry.getFlow flowName call.version = .ok flow →
      admitStatus flow flowName call.force = .ok () → P.Inv state → P.Opened lane flow input r events →
      Called lane flowName input call r ([probeEvent (.enter flow state)] ++ events)

/-- The trace of a resume: the snapshot is loaded and checked, and the run goes on
from it. -/
inductive Resumed (lane : Lane) : Except Exc ExecutionResult → List Event → Prop
  | refused : Resumed lane (.error e) [refusedEvent e]
  | unfit : Resumed lane (.error e) [⟨.load, traceId, reply⟩, refusedEvent e]
  | linear : P.executor.checkSnapshot traceId snapshot = .ok (.linear flow) → run.traceId = snapshot.traceId →
      (P.scene lane (.linear flow) run ⟨snapshot.completedSteps, snapshot.executionLog⟩
        (.resumed snapshot)).RunQ r events →
      Resumed lane r
        ([⟨.load, traceId, .ok (some snapshot)⟩, flowStartEvent run version totalSteps] ++ events)
  | dag : P.executor.checkSnapshot traceId snapshot = .ok (.dag flow) →
      P.Opened lane (.dag flow) snapshot.initialInput r events →
      Resumed lane r ([⟨.load, traceId, .ok (some snapshot)⟩] ++ events)

/-- The trace of a replay: a call, or a run from a later step. -/
inductive Replayed (flowName : String) (resumeFromStep : Int) :
    Except Exc ExecutionResult → List Event → Prop
  | refused : Replayed flowName resumeFromStep (.error e) [refusedEvent e]
  | whole : P.Called .sync flowName input {} r events → Replayed flowName resumeFromStep r events
  | part : 0 < resumeFromStep → P.executor.registry.getFlow flowName none = .ok (.linear flow) →
      (P.scene .sync (.linear flow) run ⟨start, []⟩ .replayed).RunQ r events →
      Replayed flowName resumeFromStep r
        ([⟨.newTraceId, (), run.traceId⟩, flowStartEvent run version totalSteps] ++ events)

/-- The calls a step can make obey the policy. -/
def Obeyed (nested : Nested) : Prop :=
  ∀ lane flowName input cancellation,
    (frame P.Inv).Upholds (P.W lane flowName input) False (nested.entry lane flowName input cancellation) fun _ => True

structure Sound : Prop where
  stable : Stable P.Inv
  enter : P.Inv state → P.Inv state.copy
  step : P.Obeyed nested → Inside P.executor P.Inv (P.I lane info) lane nested info
  whole : P.Called lane flowName input { cancellation } r events → P.W lane flowName input events

end Policy

variable {P : Policy} {nested : Nested} {lane : Lane}

theorem Policy.Sound.good (hP : P.Sound) (hn : P.Obeyed nested) :
    (P.scene lane flow run start origin).Good nested :=
  ⟨hP.stable, fun _ _ => hP.step hn⟩

-- Openings

theorem fresh_opened (run : RunInfo)
    (hfresh : flow.isDag = true → ∃ state, P.Inv state ∧ state.resumeSnapshot = none)
    (hinput : run.initialInput = input)
    (h : (frame P.Inv).From [] c (P.scene lane flow run ⟨0, []⟩ .fresh).RunQ) :
    (frame P.Inv).From
      ([] ++ [⟨.newTraceId, (), run.traceId⟩] ++ [Policy.flowStartEvent run version totalSteps]) c
      (P.Opened lane flow input) :=
  (Frame.From.after h).weaken fun _ _ ⟨_, heq, hown⟩ => heq ▸ .fresh hfresh hinput hown

theorem resumed_opened (run : RunInfo) (start : Spot) (hdag : flow.isDag = true) (hs : P.Inv state)
    (hsnapshot : state.resumeSnapshot = some snapshot) (htrace : run.traceId = snapshot.traceId)
    (hinput : run.initialInput = input) (hlog : start.log = snapshot.executionLog)
    (h : (frame P.Inv).From [] c (P.scene lane flow run start (.resumed snapshot)).RunQ) :
    (frame P.Inv).From ([] ++ [Policy.flowStartEvent run version totalSteps]) c
      (P.Opened lane flow input) :=
  (Frame.From.after h).weaken fun _ _ ⟨_, heq, hown⟩ =>
    heq ▸ .resumed hdag hs hsnapshot htrace hinput hlog hown

/-- A run whose initial input is refused ends at once. -/
theorem inputRefused_run (S : Scene) :
    (frame S.Inv).From []
      (S.executor.makeResult S.run false none [flowRecord S.run.flowName payload index detail label] count)
      S.RunQ :=
  makeResult_returned .unseeded

theorem executeLinear_opened (hP : P.Sound) (hn : P.Obeyed nested) :
    (frame P.Inv).From [] (P.executor.executeLinear lane nested flow flowName input cancellation)
      (P.Opened lane (.linear flow) input) := by
  unfold executeLinear
  refine .modify_bind (fun _ => hP.stable.version) (.ask_bind fun traceId => .ask_bind fun _ => ?_)
  refine fresh_opened ⟨flowName, traceId, input⟩ nofun rfl ?_
  refine from_ofExcept_bind (fun inputFailure hinput => ?_) fun e => .unseeded
  cases inputFailure with
  | some record =>
    obtain ⟨detail, rfl⟩ := validateFlowSchema_some hinput
    exact inputRefused_run (P.scene lane (.linear flow) ⟨flowName, traceId, input⟩ ⟨0, []⟩ .fresh)
  | none =>
    refine .get_bind fun state hs => .ask_bind fun _ => ?_
    exact linearFrom_run (hP.good hn) rfl (.start (.fresh rfl hs hinput))

theorem executeDagFlow_opened (hP : P.Sound) (hn : P.Obeyed nested) :
    (frame P.Inv).From [] (P.executor.executeDagFlow nested flow input cancellation)
      (P.Opened .sync (.dag flow) input) := by
  unfold executeDagFlow
  refine .modify_bind (fun _ => hP.stable.version) (.get_bind fun state hs => ?_)
  split
  · next snapshot hsnapshot =>
    refine .ask_bind fun _ => ?_
    refine resumed_opened ⟨flow.name, snapshot.traceId, input⟩
      ⟨snapshot.executionLog.length, snapshot.executionLog⟩ rfl hs hsnapshot rfl rfl rfl ?_
    refine from_ofExcept_bind (fun levels _ => ?_) fun e => .unseeded
    exact .ask_bind fun _ =>
      dagFrom_run (hP.good hn) rfl (.start (.resumed _ rfl))
  · next hnone =>
    refine .ask_bind fun traceId => .ask_bind fun _ => ?_
    refine fresh_opened ⟨flow.name, traceId, input⟩ (fun _ => ⟨state, hs, hnone⟩) rfl ?_
    refine from_ofExcept_bind (fun inputFailure hinput => ?_) fun e => .unseeded
    cases inputFailure with
    | some record =>
      obtain ⟨detail, rfl⟩ := validateFlowSchema_some hinput
      exact inputRefused_run (P.scene .sync (.dag flow) ⟨flow.name, traceId, input⟩ ⟨0, []⟩ .fresh)
    | none =>
      refine .get_bind fun state hs => from_ofExcept_bind (fun levels _ => ?_) fun e => .unseeded
      exact .ask_bind fun _ =>
        dagFrom_run (hP.good hn) rfl (.start (.fresh rfl hs hinput))

theorem executeDagFlowAsync_opened (hP : P.Sound) (hn : P.Obeyed nested) :
    (frame P.Inv).From [] (P.executor.executeDagFlowAsync nested flow input cancellation)
      (P.Opened .async (.dag flow) input) := by
  unfold executeDagFlowAsync
  refine .modify_bind (fun _ => hP.stable.version) ?_
  refine from_orRefuse_bind (fun levels hlevels => .get_bind fun state hs => ?_) fun e => .unlevelled rfl
  split
  · next snapshot hsnapshot =>
    refine .ask_bind fun _ => ?_
    refine resumed_opened ⟨flow.name, snapshot.traceId, input⟩
      ⟨((levels.take snapshot.completedDagLevels).map List.length).sum, snapshot.executionLog⟩
      rfl hs hsnapshot rfl rfl rfl ?_
    exact .ask_bind fun _ => dagFromAsync_run (hP.good hn) rfl
      ⟨rfl, hlevels, List.length_flatten.symm, .start (.resumed _ rfl)⟩
  · next hnone =>
    refine .ask_bind fun traceId => .ask_bind fun _ => ?_
    refine fresh_opened ⟨flow.name, traceId, input⟩ (fun _ => ⟨state, hs, hnone⟩) rfl ?_
    refine from_ofExcept_bind (fun inputFailure hinput => ?_) fun e => .unseeded
    cases inputFailure with
    | some record =>
      obtain ⟨detail, rfl⟩ := validateFlowSchema_some hinput
      exact inputRefused_run (P.scene .async (.dag flow) ⟨flow.name, traceId, input⟩ ⟨0, []⟩ .fresh)
    | none =>
      refine .get_bind fun state hs => .ask_bind fun _ => ?_
      exact dagFromAsync_run (hP.good hn) rfl
        ⟨rfl, hlevels, rfl, .start (.fresh rfl hs hinput)⟩

-- Calls

theorem executeFlowImpl_called (hP : P.Sound) (hn : P.Obeyed nested) :
    (frame P.Inv).From [] (P.executor.executeFlowImpl nested flowName input call)
      (P.Called .sync flowName input call) := by
  unfold executeFlowImpl
  refine from_orRefuse_bind (fun flow hflow => ?_) fun e => .refused
  refine .modify_bind (fun _ => hP.stable.version) ?_
  refine from_orRefuse_bind (fun _ hstatus => ?_) fun e => .refused
  refine from_orRefuse_bind (fun _ _ => ?_) fun e => .refused
  refine .get_bind fun state hs => .ask_bind fun _ => ?_
  cases flow with
  | dag flow =>
    exact (Frame.From.after (executeDagFlow_opened hP hn)).weaken fun _ _ ⟨_, heq, hown⟩ =>
      heq ▸ .entered hflow hstatus hs hown
  | linear flow =>
    exact (Frame.From.after (executeLinear_opened hP hn)).weaken fun _ _ ⟨_, heq, hown⟩ =>
      heq ▸ .entered hflow hstatus hs hown

/-- What `execute_flow_async` does inside its scope. -/
theorem runAsync_called (hP : P.Sound) (hn : P.Obeyed nested)
    (hflow : P.executor.registry.getFlow flowName call.version = .ok flow)
    (hstatus : admitStatus flow flowName call.force = .ok ()) :
    (frame P.Inv).From [] (do
      probe (.enter flow (← get))
      match flow with
      | .dag flow => P.executor.executeDagFlowAsync nested flow input cancellation
      | .linear flow => P.executor.executeLinearFlowAsync nested flow input cancellation)
      (P.Called .async flowName input call) := by
  refine .get_bind fun state hs => .ask_bind fun _ => ?_
  cases flow with
  | dag flow =>
    exact (Frame.From.after (executeDagFlowAsync_opened hP hn)).weaken fun _ _ ⟨_, heq, hown⟩ =>
      heq ▸ .entered hflow hstatus hs hown
  | linear flow =>
    exact (Frame.From.after (executeLinear_opened hP hn)).weaken fun _ _ ⟨_, heq, hown⟩ =>
      heq ▸ .entered hflow hstatus hs hown

theorem executeFlowAsyncWith_called (hP : P.Sound) (hn : P.Obeyed nested)
    (henter : ∀ state, P.Inv state → P.Inv (withDynamicParams state.copy call.dynamicParams)) :
    (frame P.Inv).From [] (P.executor.executeFlowAsyncWith nested flowName input call)
      (P.Called .async flowName input call) := by
  unfold executeFlowAsyncWith
  refine from_orRefuse_bind (fun flow hflow => ?_) fun e => .refused
  refine from_orRefuse_bind (fun _ hstatus => ?_) fun e => .refused
  refine from_orRefuse_bind (fun _ _ => ?_) fun e => .refused
  refine from_orRefuse_bind (fun _ _ => ?_) fun e => .refused
  exact .within henter (runAsync_called hP hn hflow hstatus)

theorem Policy.Sound.upholds (hP : P.Sound)
    (h : (frame P.Inv).From [] c (P.Called lane flowName input { cancellation })) :
    (frame P.Inv).Upholds (P.W lane flowName input) False c fun _ => True := by
  refine Frame.Ensures.weaken h fun r events hr => ⟨hP.whole hr, ?_⟩
  cases r with
  | ok result => trivial
  | error e => exact False.elim

theorem enterSync_nested (state : RunScopedState) : enterSync { cancellation } state = state.copy := by
  simp [enterSync, withDynamicParams, RunScopedState.copy]

/-- However deep the flows are nested, the calls obey a sound policy. -/
theorem Policy.Sound.obeyed (hP : P.Sound) (stack : Nat) : P.Obeyed (P.executor.lanes stack) := by
  induction stack with
  | zero =>
    intro lane flowName input cancellation
    have hraise : (frame P.Inv).From [] (refuse .recursion)
        (P.Called lane flowName input { cancellation }) :=
      ensures_refuse .refused
    cases lane <;> exact hP.upholds hraise
  | succ stack ih =>
    intro lane flowName input cancellation
    cases lane with
    | sync =>
      refine hP.upholds (.within (fun state hs => ?_) (executeFlowImpl_called hP ih))
      rw [enterSync_nested]
      exact hP.enter hs
    | async => exact hP.upholds (executeFlowAsyncWith_called hP ih fun _ => hP.enter)

-- Runs of the entry points

theorem executeFlow_called (hP : P.Sound) (hs : P.Inv (enterSync call state))
    (hrun : (P.executor.executeFlow stack flowName input call).Runs state events r state') :
    P.Called .sync flowName input call r events := by
  obtain ⟨-, inner, hrun⟩ := Interaction.Comp.runs_within.1 hrun
  exact (executeFlowImpl_called hP (hP.obeyed stack) _ _ _ _ hs hrun).2

theorem executeFlowAsync_called (hP : P.Sound)
    (henter : ∀ state, P.Inv state → P.Inv (withDynamicParams state.copy call.dynamicParams))
    (hs : P.Inv state)
    (hrun : (P.executor.executeFlowAsync stack flowName input call).Runs state events r state') :
    P.Called .async flowName input call r events :=
  (executeFlowAsyncWith_called hP (hP.obeyed stack) henter _ _ _ _ hs hrun).2

-- Runs of the resume entry points

theorem resumeLinear_run (hP : P.Sound) (hn : P.Obeyed nested) :
    (frame P.Inv).From history (P.executor.resumeLinear lane nested flow snapshot) fun r events =>
      ∃ run own, run.traceId = snapshot.traceId ∧
        events = history ++ [Policy.flowStartEvent run flow.version flow.steps.length] ++ own ∧
        (P.scene lane (.linear flow) run ⟨snapshot.completedSteps, snapshot.executionLog⟩
          (.resumed snapshot)).RunQ r own := by
  unfold resumeLinear
  refine .modify_bind (fun _ => hP.stable.version) (.ask_bind fun _ => ?_)
  let S := P.scene lane (.linear flow) ⟨snapshot.flowName, snapshot.traceId, snapshot.initialInput⟩
    ⟨snapshot.completedSteps, snapshot.executionLog⟩ (.resumed snapshot)
  have hrun : (frame S.Inv).From [] (do
      probe (.seed S.run.traceId flow.toFlowHeader S.run.initialInput snapshot.context snapshot.executionLog
        snapshot.completedSteps)
      S.executor.linearFrom ⟨lane, true⟩ nested S.run flow {} snapshot.completedSteps snapshot.context
        snapshot.executionLog) S.RunQ :=
    .ask_bind fun _ => linearFrom_run (hP.good hn) rfl (.start (.resumed _ rfl))
  exact (Frame.From.after hrun).weaken fun _ _ ⟨own, heq, hown⟩ => ⟨S.run, own, rfl, heq, hown⟩

/-- A loaded snapshot that fits, or the failure to get one. -/
def LoadQ (P : Policy) (lane : Lane) (traceId : String) :
    Except Exc (AnyFlow × ExecutionSnapshot) → List Event → Prop
  | .ok (flow, snapshot), events => P.executor.checkSnapshot traceId snapshot = .ok flow ∧
      events = [⟨.load, traceId, .ok (some snapshot)⟩]
  | .error e, events => P.Resumed lane (.error e) events

theorem loadSnapshot_from :
    (frame P.Inv).From [] (P.executor.loadSnapshotForResume traceId) (LoadQ P lane traceId) := by
  unfold loadSnapshotForResume
  split
  · exact ensures_refuse .refused
  refine .ask_bind fun reply => from_orRefuse_bind (fun loaded hloaded => ?_) fun e => .unfit
  subst hloaded
  cases loaded with
  | none => exact ensures_refuse .unfit
  | some snapshot => exact from_orRefuse_bind (fun flow hflow => .pure ⟨hflow, rfl⟩) fun e => .unfit

theorem withResume_from {body : Exec α} {post : Except Exc α → List Event → Prop}
    (hresume : ∀ state resume, P.Inv state → P.Inv { state with resumeSnapshot := resume })
    (h : (frame P.Inv).From history body post) :
    (frame P.Inv).From history (withResume snapshot body) post := by
  refine .modify_bind (fun _ => hresume _ _) (.attempt_bind h fun outcome events hevents => ?_)
  refine .modify_bind (fun _ => hresume _ _) ?_
  cases outcome with
  | ok value => exact .pure hevents
  | error e => exact .throw hevents

theorem resumeFlow_resumed (hP : P.Sound)
    (hresume : ∀ state resume, P.Inv state → P.Inv { state with resumeSnapshot := resume }) :
    (frame P.Inv).From [] (P.executor.resumeFlow stack traceId) (P.Resumed .sync) := by
  unfold resumeFlow
  refine .bind loadSnapshot_from ?_ fun _ _ h => h
  rintro ⟨flow, snapshot⟩ _ ⟨hflow, rfl⟩
  cases flow with
  | dag flow =>
    refine withResume_from hresume ?_
    exact (Frame.From.after (executeDagFlow_opened hP (hP.obeyed stack))).weaken
      fun _ _ ⟨own, heq, hown⟩ => heq ▸ .dag hflow hown
  | linear flow =>
    refine (resumeLinear_run hP (hP.obeyed stack)).weaken ?_
    rintro r _ ⟨run, own, htrace, rfl, hown⟩
    exact .linear hflow htrace hown

theorem resumeFlowAsync_resumed (hP : P.Sound)
    (hresume : ∀ state resume, P.Inv state → P.Inv { state with resumeSnapshot := resume }) :
    (frame P.Inv).From [] (P.executor.resumeFlowAsync stack traceId) (P.Resumed .async) := by
  unfold resumeFlowAsync
  refine .bind loadSnapshot_from ?_ fun _ _ h => h
  rintro ⟨flow, snapshot⟩ _ ⟨hflow, rfl⟩
  refine from_orRefuse_bind (fun _ _ => .within (fun _ => hP.enter) ?_) fun e => .unfit
  cases flow with
  | dag flow =>
    refine withResume_from hresume ?_
    exact (Frame.From.after (executeDagFlowAsync_opened hP (hP.obeyed stack))).weaken
      fun _ _ ⟨own, heq, hown⟩ => heq ▸ .dag hflow hown
  | linear flow =>
    refine (resumeLinear_run hP (hP.obeyed stack)).weaken ?_
    rintro r _ ⟨run, own, htrace, rfl, hown⟩
    exact .linear hflow htrace hown

-- Replays

theorem replayLoop_loop {S : Scene} (hS : S.Good nested) (hlane : S.lane = .sync) (steps : List FlowStep)
    (h : S.Reached ⟨stepIndex, log⟩ history) :
    (frame S.Inv).From history (S.executor.replayLoop nested S.run flow steps stepIndex context log)
      (S.LoopQ fun state => ⟨stepIndex + steps.length, state.2⟩) := by
  induction steps generalizing stepIndex context log history with
  | nil => exact .pure h
  | cons step rest ih =>
    have hat : S.At { traceId := S.run.traceId, flowName := S.run.flowName, stepIndex, stepId := none }
        stepIndex := ⟨⟨rfl, rfl⟩, rfl⟩
    unfold replayLoop
    refine .bind (Frame.From.after (executeStepIn_turn hS.stable (hlane ▸ hS.inside _ hat.1))) ?_ ?_
    · rintro record _ ⟨own, rfl, hturn⟩
      dsimp only
      split
      · next hfail =>
        exact .bind (makeResult_returned (.failed h hat hturn (by simpa using hfail)))
          (fun result events hr => .pure hr) fun _ _ h => h
      · next hok =>
        have hnext := h.turn hat hturn (by simpa using hok)
        refine .bind (mergeOutputs_stay hnext) (fun context history h => ?_) fun _ _ h => h
        rw [List.length_cons, Nat.add_comm rest.length, ← Nat.add_assoc]
        exact ih h
    · rintro e _ ⟨own, rfl, htorn⟩
      exact .torn h hat htorn.1 htorn.2

theorem replayLinearFrom_replayed (hP : P.Sound) (hn : P.Obeyed nested) (hpos : 0 < fromStep)
    (hflow : P.executor.registry.getFlow flowName none = .ok (.linear flow)) :
    (frame P.Inv).From [] (P.executor.replayLinearFrom nested flow result resumeFromStep)
      (P.Replayed flowName fromStep) := by
  unfold replayLinearFrom
  refine .modify_bind (fun _ => hP.stable.version) ?_
  split
  · exact ensures_refuse .refused
  refine from_orRefuse_bind (fun context _ => ?_) fun e => .refused
  refine .ask_bind fun traceId => .ask_bind fun _ => ?_
  let S := P.scene .sync (.linear flow) ⟨flow.name, traceId, result.initialInput⟩ ⟨resumeFromStep, []⟩ .replayed
  refine Frame.From.weaken (Frame.From.after (?_ : (frame S.Inv).From [] _ S.RunQ)) fun _ _ h => ?_
  · refine .ask_bind fun _ => ?_
    refine .bind (replayLoop_loop (hP.good hn) rfl _ (.start (.replayed context rfl))) (fun progress history h => ?_)
      fun _ _ h => h
    cases progress with
    | ended result => exact .pure h
    | going state => exact makeResult_returned (.finished h)
  · obtain ⟨own, heq, hown⟩ := h
    exact heq ▸ .part hpos hflow hown

theorem replayRun_replayed (hP : P.Sound) (henter : ∀ state, P.Inv state → P.Inv (enterReplay state)) :
    (frame P.Inv).From [] (P.executor.replayRun stack result resumeFromStep)
      (P.Replayed result.flowName resumeFromStep) := by
  unfold replayRun
  refine from_orRefuse_bind (fun flow hflow => .within henter ?_) fun e => .refused
  split
  · refine Frame.From.weaken (.within (fun state hs => ?_) (executeFlowImpl_called hP (hP.obeyed stack)))
      fun _ _ h => .whole h
    rw [enterSync_nested]
    exact hP.enter hs
  · next hpos =>
    split
    · exact ensures_refuse .refused
    · exact replayLinearFrom_replayed hP (hP.obeyed stack) (by omega) hflow

-- Any entry point

/-- The ways into an executor. -/
inductive EntryPoint
  | execute (flowName : String) (initialInput : Dict) (call : Call)
  | executeAsync (flowName : String) (initialInput : Dict) (call : Call)
  | resume (traceId : String)
  | resumeAsync (traceId : String)
  | replay (result : ExecutionResult) (resumeFromStep : Int)

/-- The entry point that runs a flow in a lane. -/
def executeIn (lane : Lane) (flowName : String) (initialInput : Dict) (call : Call) : EntryPoint :=
  match lane with
  | .sync => .execute flowName initialInput call
  | .async => .executeAsync flowName initialInput call

/-- The entry point that resumes in a lane. -/
def resumeIn (lane : Lane) (traceId : String) : EntryPoint :=
  match lane with
  | .sync => .resume traceId
  | .async => .resumeAsync traceId

/-- What an entry point does, from the outside. -/
def enter (executor : Executor) (stack : Nat) : EntryPoint → Exec ExecutionResult
  | .execute flowName initialInput call => executor.executeFlow stack flowName initialInput call
  | .executeAsync flowName initialInput call => executor.executeFlowAsync stack flowName initialInput call
  | .resume traceId => executor.resumeFlow stack traceId
  | .resumeAsync traceId => executor.resumeFlowAsync stack traceId
  | .replay result resumeFromStep => executor.replayRun stack result resumeFromStep

def Policy.Entered (P : Policy) : EntryPoint → Except Exc ExecutionResult → List Event → Prop
  | .execute flowName input call => P.Called .sync flowName input call
  | .executeAsync flowName input call => P.Called .async flowName input call
  | .resume _ => P.Resumed .sync
  | .resumeAsync _ => P.Resumed .async
  | .replay result resumeFromStep => P.Replayed result.flowName resumeFromStep

/-- Runs from any state, under a policy that asks nothing of it. -/
theorem enter_entered (hP : P.Sound) (hall : ∀ state, P.Inv state) {entry : EntryPoint}
    (hrun : (P.executor.enter stack entry).Runs state events r state') : P.Entered entry r events := by
  cases entry with
  | execute => exact executeFlow_called hP (hall _) hrun
  | executeAsync => exact executeFlowAsync_called hP (fun _ _ => hall _) (hall _) hrun
  | resume => exact (resumeFlow_resumed hP (fun _ _ _ => hall _) _ _ _ _ (hall _) hrun).2
  | resumeAsync => exact (resumeFlowAsync_resumed hP (fun _ _ _ => hall _) _ _ _ _ (hall _) hrun).2
  | replay => exact (replayRun_replayed hP (fun _ _ => hall _) _ _ _ _ (hall _) hrun).2

end ChainWeaver.Executor
