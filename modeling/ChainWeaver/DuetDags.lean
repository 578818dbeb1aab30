import ChainWeaver.DuetRuns
import ChainWeaver.TopologyLaws
import ChainWeaver.TraceSets

/-!
# DAG runs on both sides

The level loops. The synchronous loop places one record after the other; the asynchronous loop runs the
steps of a level in whatever order, then places their records in the order of the level.
-/

namespace ChainWeaver.Duet

open Executor
open Interaction (Comp Frame Joined Met Never)

variable {P : Duet} {nested nested' : Nested} {called : String → Prop} {executor : Executor}
  {info info' : RunInfo} {cancellation : Cancellation}

-- Steps that leave the state as it is

theorem everything_closed : Interaction.Closed fun _ : List Event => True :=
  { nil := trivial, append := fun _ _ => trivial }

theorem restores_executeToolStep {lane : Lane} {stepInfo : StepInfo} {step : FlowStep} {decision : Option DecisionRecord}
    {context : Dict} (hn : Restoring nested) :
    Comp.Restores (executor.executeToolStep lane nested stepInfo step decision context) := by
  refine .of_runs fun s events r t hrun => ?_
  have hinside : Inside executor (· = s) (fun _ => True) lane nested stepInfo := by
    refine .of_events everything_closed (fun _ _ => trivial) (fun _ _ _ _ _ => trivial) ?_
    intro origin flowName input cancellation callee _ _
    refine nestedCall_upholds (W := fun _ => True) ?_ fun _ _ _ => trivial
    intro s' events' r' t' hs' hrun'
    obtain rfl := (hn callee flowName input cancellation).run hrun'
    refine ⟨hs', trivial, ?_⟩
    cases r' with
    | ok value => trivial
    | error e => exact False.elim
  exact (@executeToolStep_turn _ _ _ _ _ _ [] _ decision context hinside trivial _ _ _ _ rfl hrun).1

theorem restores_executeSubflowStep {lane : Lane} {stepInfo : StepInfo} {step : FlowStep} {subName : String} {context : Dict}
    (hn : Restoring nested) :
    Comp.Restores (executeSubflowStep lane nested stepInfo step subName context cancellation) := by
  refine .of_runs fun s events r t hrun => ?_
  suffices h : Frame.Given { Inv := (· = s), Mark := fun _ => False } (fun _ => True)
      (executeSubflowStep lane nested stepInfo step subName context cancellation) (fun _ => True) fun _ => True from
    (h _ _ _ _ rfl (fun _ _ => trivial) hrun).1
  unfold executeSubflowStep
  refine .ask_bind fun _ _ => ?_
  split
  · exact .pure trivial
  refine .ask_bind fun _ _ => .get_bind ?_
  rintro state rfl
  have hback {rest : Exec StepRecord} (h : Frame.Given { Inv := (· = state), Mark := fun _ => False } (fun _ => True)
      rest (fun _ => True) fun _ => True) :
      Frame.Given { Inv := (· = state), Mark := fun _ => False } (fun _ => True)
        (modify (fun now => { now with activeFlowVersion := state.activeFlowVersion }) >>= fun _ => rest) (fun _ => True)
        fun _ => True := by
    refine .modify_bind ?_ h
    rintro _ rfl
    rfl
  have hcall {input : Dict} : Frame.Given { Inv := (· = state), Mark := fun _ => False } (fun _ => True)
      (nestedCall (.step step context stepInfo.stepIndex) input (nested.entry lane subName input cancellation))
      (fun _ => True) fun _ => True := by
    refine .ask_bind fun _ _ => .attempt_bind (hn lane subName input cancellation _) (fun _ _ => ?_) fun _ _ => ?_
    · exact .ask_bind fun _ _ => .pure trivial
    · exact .ask_bind fun _ _ => .throw trivial
  refine .attempt_bind hcall (fun result _ => hback ?_) fun e _ => hback ?_
  · exact .bind (Q := fun _ => True) (.pure trivial) fun _ _ => .ask_bind fun _ _ => .pure trivial
  · exact .bind (Q := fun _ => False) (.throw trivial) fun _ => False.elim

theorem restores_executeStepIn {lane : Lane} {stepInfo : StepInfo} {step : FlowStep} {context : Dict} (hn : Restoring nested)
    (hdecision : lane = .sync → step.decisionCandidates = none) :
    Comp.Restores (executor.executeStepIn lane nested stepInfo step context cancellation) := by
  intro F
  unfold executeStepIn
  split
  · exact restores_executeSubflowStep hn F
  split
  · exact restores_executeToolStep hn F
  · refine .bind (Q := (· = .ok (step, none))) ?_ ?_
    · unfold resolveDecision
      split
      · exact .pure rfl
      · next candidates hc => rw [hdecision rfl] at hc; cases hc
    · rintro _ rfl
      exact restores_executeToolStep hn F

-- Where either run is

/-- The same place in the level loop, with logs that are kin. -/
structure SameDag (marks : Marks) (state state' : DagState) : Prop where
  context : state.context = state'.context
  log : LogKin marks state.log state'.log
  flatIndex : state.flatIndex = state'.flatIndex
  skipped : state.skipped = state'.skipped

/-- The same place inside a level. -/
structure SameLevel (marks : Marks) (level level' : LevelState) : Prop where
  records : LogKin marks level.records level'.records
  outputs : level.outputs = level'.outputs
  flatIndex : level.flatIndex = level'.flatIndex
  skipped : level.skipped = level'.skipped

variable {flow : DAGFlow} {step : DAGFlowStep} {context outputs : Dict} {record record' : StepRecord}
  {state state' : DagState} {level level' : LevelState}

theorem settles_placeOutputs {D : Dict × Option String → Prop} (h : record.Kin P.marks record') :
    P.Settles D (placeOutputs info step context record outputs) (placeOutputs info' step context record' outputs) Eq := by
  unfold placeOutputs
  rw [h.outputs, h.stepIndex]
  cases record'.outputs with
  | none => exact settles_raise (errors_same _)
  | some produced =>
    refine .bind_same (settles_displayName rfl) fun name => .bind_same (settles_ofExcept rfl) fun mapped => ?_
    exact .bind_same settles_probe fun _ => .pure rfl

theorem replaced_kin (h : record.Kin P.marks record') (name : String) (e : Exc) :
    replaced record name e = replaced record' name e := by
  unfold replaced
  rw [h.stepIndex, h.inputs]

theorem conflict_kin (h : record.Kin P.marks record') (name key ending : String) :
    conflict name key ending record = conflict name key ending record' := by
  unfold conflict
  rw [replaced_kin h, h.stepIndex]

theorem settles_closeLevel {D : Dict → Prop} {log log' : List StepRecord} (h : SameRun info info') (index : Nat) :
    P.Settles D (P.executor.closeLevel info flow index context outputs log)
      (P.other.closeLevel info' flow index context outputs log') Eq := by
  unfold closeLevel
  rw [h.flowName]
  refine .bind_same settles_probe fun _ => .bind_same (settles_ofExcept rfl) fun merged => ?_
  exact .bind_same (settles_saveSnapshot h _ _) fun _ => .pure rfl

/-- The way out for the error of a composed step. -/
def rethrown (executor : Executor) (info : RunInfo) (step : FlowStep) (index : Nat) (log : List StepRecord) : Exc → Exec α
  | .flowCancelled name subIndex sub late cancelled =>
    executor.reraiseSubflowCancellation info step index log sub
      (Exc.flowCancelled name subIndex sub late cancelled).message late cancelled
  | e => throw e

theorem given_rethrown {F : Frame Effects RunScopedState} {A : Event → Prop} {step : FlowStep} {index : Nat}
    {log : List StepRecord} {e : Exc} :
    F.Given A (rethrown (α := α) executor info step index log e) (fun _ => False) fun _ => True := by
  unfold rethrown
  split
  · exact given_reraise
  · exact .throw trivial

theorem settles_rethrown {D : α → Prop} {V : α → β → Prop} {e e' : Exc} (h : SameRun info info') {log log' : List StepRecord}
    (hlog : LogKin P.marks log log') (he : P.errors e e') (step : FlowStep) (index : Nat) :
    P.Settles D (rethrown (α := α) P.executor info step index log e)
      (rethrown (α := β) P.other info' step index log' e') V := by
  cases hstrict : P.strict with
  | false => exact .raises (fun _ _ h => absurd h (by simp [hstrict])) (fun F => given_rethrown) fun F => given_rethrown
  | true =>
    cases he hstrict with
    | same e =>
      unfold rethrown
      split
      · exact settles_reraise h hlog (.refl _) _ _ _ _ _
      · exact .throw (errors_same _)
    | cancelled name subIndex late cancelled hsub => exact settles_reraise h hlog hsub _ _ _ _ _

-- The synchronous loop

theorem settles_runCapabilityStep {D : StepRecord → Prop} (index : Nat) :
    P.Settles D (P.executor.runCapabilityStep info index step context) (P.other.runCapabilityStep info' index step context)
      Eq := by
  have hinvoke {kernel : Kernel} {name : String} : P.Settles Never (invokeCapability kernel index step name context)
      (invokeCapability kernel index step name context) Eq := by
    unfold invokeCapability
    split
    · exact .pure rfl
    dsimp only
    split
    · exact .pure rfl
    · refine .bind_same (@settles_perform P .kernelInvoke _ _ _ (fun _ _ => id) rfl) fun reply => ?_
      split <;> exact .pure rfl
  have hrun : P.Settles Never (P.executor.executeCapabilityStep index step context)
      (P.other.executeCapabilityStep index step context) Eq := by
    change P.Settles Never _ (P.executor.executeCapabilityStep index step context) Eq
    unfold executeCapabilityStep
    refine .bind_same (settles_displayName rfl) fun name => .bind_same settles_probe fun _ => ?_
    split
    · exact hinvoke
    · exact .pure rfl
  unfold runCapabilityStep
  refine .bind_same hrun fun record => ?_
  split
  · exact .bind_same settles_fire fun _ => .bind_same settles_fire fun _ => .pure rfl
  · exact .bind_same settles_fire fun _ => .pure rfl

theorem settles_dagCapabilityStep (h : SameRun info info') (hstate : SameDag P.marks state state')
    (hlevel : SameLevel P.marks level level') :
    P.Settles P.Doomed (P.executor.dagCapabilityStep info step state level)
      (P.other.dagCapabilityStep info' step state' level') (SameProgress P.marks (SameLevel P.marks)) := by
  unfold dagCapabilityStep
  rw [hstate.context, hlevel.flatIndex, hlevel.outputs]
  refine .bind_same (settles_runCapabilityStep _) fun record => ?_
  dsimp only
  split
  · exact settles_ended h (hstate.log.append (hlevel.records.concat (.refl _)))
  · refine .bind_same (settles_placeOutputs (.refl _)) fun placed => ?_
    obtain ⟨mapped, clash⟩ := placed
    cases clash with
    | some key => exact settles_ended h ((hstate.log.append hlevel.records).concat (.refl _))
    | none =>
      exact .pure (.going
        { records := hlevel.records.concat (.refl _), outputs := rfl, flatIndex := rfl, skipped := hlevel.skipped })

theorem other_routeBranch (produced : Dict) :
    P.other.routeBranch step context outputs produced = P.executor.routeBranch step context outputs produced := by
  have hselect (context : Dict) (edges : List ConditionalEdge) :
      P.other.selectEdge step context edges = P.executor.selectEdge step context edges := by
    induction edges with
    | nil => rfl
    | cons edge rest ih =>
      simp only [selectEdge, ih]
      rfl
  unfold routeBranch selectBranch
  rw [hselect]

theorem settles_placeToolRecord (h : SameRun info info') (hstate : SameDag P.marks state state')
    (hlevel : SameLevel P.marks level level') (hrecord : record.Kin P.marks record') :
    P.Settles P.Doomed (P.executor.placeToolRecord info flow step state level record)
      (P.other.placeToolRecord info' flow step state' level' record') (SameProgress P.marks (SameLevel P.marks)) := by
  unfold placeToolRecord
  rw [hstate.context, hlevel.outputs]
  refine .bind_same (settles_placeOutputs hrecord) fun placed => .bind_same (settles_displayName rfl) fun name => ?_
  obtain ⟨mapped, clash⟩ := placed
  cases clash with
  | some key =>
    refine settles_ended h ((hstate.log.append hlevel.records).concat (.of_eq ?_))
    exact conflict_kin hrecord _ _ _
  | none =>
    refine .bind_same (settles_ofExcept (other_routeBranch _).symm) fun routed => ?_
    cases routed with
    | selected target =>
      rw [hlevel.flatIndex, hlevel.skipped]
      exact .pure (.going
        { records := hlevel.records.concat hrecord, outputs := rfl, flatIndex := rfl, skipped := rfl })
    | invalid e =>
      refine settles_ended h ((hstate.log.append hlevel.records).concat (.of_eq ?_))
      exact replaced_kin hrecord _ _

/-- What follows a step dispatched through `_execute_step`. -/
def dagToolStepEnd (executor : Executor) (info : RunInfo) (flow : DAGFlow) (step : DAGFlowStep) (state : DagState)
    (level : LevelState) : Except Exc StepRecord → Exec (Progress LevelState)
  | .error e => rethrown executor info (proxy step) level.flatIndex (state.log ++ level.records) e
  | .ok record =>
    if !record.success then do
      pure (.ended (← executor.makeResult info false none (state.log ++ (level.records ++ [record]))))
    else executor.placeToolRecord info flow step state level record

theorem dagToolStep_eq :
    executor.dagToolStep nested info flow cancellation step state level =
      (attempt (executor.executeStep nested
        { traceId := info.traceId, flowName := info.flowName, stepIndex := level.flatIndex, stepId := some step.stepId }
        (proxy step) state.context cancellation) >>= dagToolStepEnd executor info flow step state level) := by
  unfold dagToolStep
  refine bind_congr fun outcome => ?_
  cases outcome with
  | ok record => rfl
  | error e => cases e <;> rfl

section

variable (hP : Set P nested nested' called) (hsync : P.lanes = .both .sync) (h : SameRun info info')
  (hstate : SameDag P.marks state state')
include hP hsync h hstate

theorem settles_dagToolStep (hlevel : SameLevel P.marks level level') (hstep : P.StepFits called step.toFlowStep) :
    P.Settles P.Doomed (P.executor.dagToolStep nested info flow cancellation step state level)
      (P.other.dagToolStep nested' info' flow cancellation step state' level')
      (SameProgress P.marks (SameLevel P.marks)) := by
  have hspot : SameSpot { taskInfo info level.flatIndex with stepId := some step.stepId }
      { taskInfo info' level'.flatIndex with stepId := some step.stepId } :=
    ⟨h.flowName, congrArg Int.ofNat hlevel.flatIndex⟩
  have hrun := settles_executeStepIn (proxy step) state'.context hP.fair hP.partners hP.wraps hspot hstep.resolves hstep.decided
    hstep.calls cancellation
  rw [lane_both hsync, lane'_both hsync] at hrun
  rw [dagToolStep_eq, dagToolStep_eq, hstate.context]
  refine .attempt_missed hrun ?_ ?_ ?_ ?_
  · intro record record' hrecord
    unfold dagToolStepEnd
    dsimp only
    rw [hrecord.success]
    split
    · exact settles_ended h (hstate.log.append (hlevel.records.concat hrecord))
    · exact settles_placeToolRecord h hstate hlevel hrecord
  · intro e e' he
    unfold dagToolStepEnd
    dsimp only
    rw [hlevel.flatIndex]
    exact settles_rethrown h (hstate.log.append hlevel.records) he _ _
  · intro record hrecord
    unfold dagToolStepEnd
    dsimp only
    rw [if_pos (by simp [hrecord.2])]
    exact .bind given_makeResult fun result hresult => .pure ⟨hrecord.1, hresult⟩
  · exact fun _ _ _ => given_rethrown

theorem settles_dagStep (hlevel : SameLevel P.marks level level') (hstep : P.StepFits called step.toFlowStep) :
    P.Settles P.Doomed (P.executor.dagStep nested info flow cancellation step state level)
      (P.other.dagStep nested' info' flow cancellation step state' level') (SameProgress P.marks (SameLevel P.marks)) := by
  unfold dagStep
  rw [hlevel.skipped, hlevel.flatIndex]
  refine .bind_same settles_probe fun _ => ?_
  split
  · refine .bind_same (settles_displayName rfl) fun name => .pure (.going ?_)
    exact { records := hlevel.records.concat (.refl _), outputs := hlevel.outputs, flatIndex := rfl, skipped := rfl }
  · cases step.stepType with
    | capability => exact settles_dagCapabilityStep h hstate hlevel
    | tool => exact settles_dagToolStep hP hsync h hstate hlevel hstep

theorem settles_dagLevelSteps (steps : List DAGFlowStep) (hsteps : ∀ step ∈ steps, P.StepFits called step.toFlowStep)
    (hlevel : SameLevel P.marks level level') :
    P.Settles P.Doomed (P.executor.dagLevelSteps nested info flow cancellation state steps level)
      (P.other.dagLevelSteps nested' info' flow cancellation state' steps level')
      (SameProgress P.marks (SameLevel P.marks)) := by
  induction steps generalizing level level' with
  | nil => exact .pure (.going hlevel)
  | cons step rest ih =>
    obtain ⟨hstep, hrest⟩ := List.forall_mem_cons.1 hsteps
    refine .bind_missed (settles_dagStep hP hsync h hstate hlevel hstep) ?_ ?_
    · rintro _ _ (hresult | hlevel)
      · exact .pure (.ended hresult)
      · exact ih hrest hlevel
    · rintro (result | level) hdoomed
      · exact .pure hdoomed
      · exact hdoomed.elim

theorem settles_dagLevel (steps : List DAGFlowStep) (hsteps : ∀ step ∈ steps, P.StepFits called step.toFlowStep)
    (index : Nat) :
    P.Settles P.Doomed (P.executor.dagLevel nested info flow cancellation index steps state)
      (P.other.dagLevel nested' info' flow cancellation index steps state') (SameProgress P.marks (SameDag P.marks)) := by
  unfold dagLevel
  rw [hstate.context, hstate.flatIndex, hstate.skipped]
  refine .bind_same (settles_checkCancellation h hstate.log _) fun _ => ?_
  refine .bind_missed (settles_dagLevelSteps hP hsync h hstate steps hsteps ⟨.refl _, rfl, rfl, rfl⟩) ?_ ?_
  · rintro _ _ (hresult | hlevel)
    · exact .pure (.ended hresult)
    · dsimp only
      rw [hlevel.outputs]
      refine .bind_same (settles_closeLevel h index) fun context => .pure (.going ?_)
      exact
        { context := rfl
          log := hstate.log.append hlevel.records
          flatIndex := hlevel.flatIndex
          skipped := hlevel.skipped }
  · rintro (result | level) hdoomed
    · exact .pure hdoomed
    · exact hdoomed.elim

end

-- The asynchronous loop

/-- The tasks of a level. -/
abbrev tasks (executor : Executor) (nested : Nested) (info : RunInfo) (cancellation : Cancellation) (context : Dict)
    (indexed : List (Nat × DAGFlowStep)) : List (Exec StepRecord) :=
  indexed.map fun entry => executor.dagTask nested info cancellation context entry.1 entry.2

theorem restores_dagTask (hn : Restoring nested) (index : Nat) :
    Comp.Restores (executor.dagTask nested info cancellation context index step) :=
  restores_executeStepIn hn fun hlane => by cases hlane

theorem dagTasksInOrder_joined (hn : Restoring nested) {indexed : List (Nat × DAGFlowStep)}
    (hrun : (executor.dagTasksInOrder nested info cancellation context indexed).Runs s events r t) :
    t = s ∧ Joined s events (tasks executor nested info cancellation context indexed) r := by
  induction indexed generalizing events r t with
  | nil =>
    obtain ⟨rfl, rfl, rfl⟩ := Comp.runs_pure.1 hrun
    exact ⟨rfl, .all .nil⟩
  | cons entry rest ih =>
    rcases Comp.runs_bind.1 hrun with ⟨first, record, middle, second, rfl, h₁, h₂⟩ | ⟨e, rfl, h₁⟩
    · obtain rfl := (restores_dagTask hn _).run h₁
      rcases Comp.runs_bind.1 h₂ with ⟨third, records, after, fourth, rfl, h₃, h₄⟩ | ⟨e, rfl, h₃⟩
      · obtain ⟨rfl, hjoined⟩ := ih h₃
        obtain ⟨rfl, rfl, rfl⟩ := Comp.runs_pure.1 h₄
        exact ⟨rfl, hjoined.cons h₁ (List.subset_append_left _ _) (by simp)⟩
      · obtain ⟨rfl, hjoined⟩ := ih h₃
        exact ⟨rfl, hjoined.behind (List.subset_append_right _ _)⟩
    · exact ⟨(restores_dagTask hn _).run h₁, .failed List.mem_cons_self (List.Subset.refl _) h₁⟩

/-- However the steps of a level are run, they come to their records, or one of them fails. -/
theorem runDagLevelAsync_joined (hn : Restoring nested) {indexed : List (Nat × DAGFlowStep)}
    (hrun : (executor.runDagLevelAsync nested info cancellation context indexed).Runs s events r t) :
    t = s ∧ Joined s events (tasks executor nested info cancellation context indexed) r := by
  unfold runDagLevelAsync at hrun
  split at hrun
  · exact dagTasksInOrder_joined hn hrun
  · rcases Comp.runs_bind.1 hrun with ⟨first, choices, middle, second, rfl, h₁, h₂⟩ | ⟨e, rfl, h₁⟩
    · obtain ⟨reply, rfl, hr, rfl⟩ := Comp.runs_ask.1 h₁
      obtain ⟨rfl, hjoined⟩ := Joined.gather h₂
      exact ⟨rfl, hjoined.mono (List.subset_append_right _ _)⟩
    · obtain ⟨reply, -, hr, -⟩ := Comp.runs_ask.1 h₁
      cases hr

theorem restores_runDagLevelAsync (hn : Restoring nested) {indexed : List (Nat × DAGFlowStep)} :
    Comp.Restores (executor.runDagLevelAsync nested info cancellation context indexed) :=
  .of_runs fun _ _ _ _ hrun => (runDagLevelAsync_joined hn hrun).1

/-- The view of a step that each lane has. -/
theorem proxyAsync_eq (h : step.decisionCandidates = none) : proxyAsync step = proxy step := by
  obtain ⟨⟨_, _, _, _, _, candidates, _, _, _⟩, _, _, _, _, _, _, _⟩ := step
  obtain rfl : candidates = none := h
  rfl

variable (cancellation context) in
theorem settles_executeStep_dagTask (hP : Set P nested nested' called) (hapart : P.apart = true) (h : SameRun info info')
    (hstep : P.StepFits called step.toFlowStep) (stepId : Option String) (index : Nat) :
    P.Settles P.Failed (P.executor.executeStep nested
        { traceId := info.traceId, flowName := info.flowName, stepIndex := index, stepId } (proxy step) context cancellation)
      (P.other.dagTask nested' info' cancellation context index step) (StepRecord.Kin P.marks) := by
  have hspot : SameSpot { traceId := info.traceId, flowName := info.flowName, stepIndex := index, stepId }
      (taskInfo info' index) := ⟨h.flowName, rfl⟩
  have hrun := settles_executeStepIn (proxy step) context hP.fair hP.partners hP.wraps hspot hstep.resolves hstep.decided
    hstep.calls cancellation
  rw [lane_sync hapart, lane'_async hapart] at hrun
  unfold dagTask executeStepAsync
  rw [proxyAsync_eq (hstep.decided hapart)]
  exact hrun

theorem settles_dagTask (hP : Set P nested nested' called) (hasync : P.lanes = .both .async) (h : SameRun info info')
    (hstep : P.StepFits called step.toFlowStep) (index : Nat) :
    P.Settles Never (P.executor.dagTask nested info cancellation context index step)
      (P.other.dagTask nested' info' cancellation context index step) (StepRecord.Kin P.marks) := by
  have happart : P.apart = false := by simp [apart, hasync]
  have hspot : SameSpot (taskInfo info index) (taskInfo info' index) := ⟨h.flowName, rfl⟩
  have hrun := settles_executeStepIn (proxyAsync step) context hP.fair hP.partners hP.wraps hspot hstep.resolves
    (fun _ => rfl) hstep.calls cancellation
  rw [lane_both hasync, lane'_both hasync] at hrun
  exact hrun.weaken (fun _ _ => id) (fun _ _ => id) fun _ hfailed => absurd hfailed.1 (by simp [happart])

theorem settles_runDagLevelAsync (hP : Set P nested nested' called) (hasync : P.lanes = .both .async) (h : SameRun info info')
    (indexed : List (Nat × DAGFlowStep)) (hsteps : ∀ entry ∈ indexed, P.StepFits called entry.2.toFlowStep) :
    P.Settles Never (P.executor.runDagLevelAsync nested info cancellation context indexed)
      (P.other.runDagLevelAsync nested' info' cancellation context indexed) (List.Forall₂ (StepRecord.Kin P.marks)) := by
  intro s s' events r t events' r' t' hs hrun hrun' hleft hright
  obtain ⟨rfl, hjoined⟩ := runDagLevelAsync_joined hP.restores hrun
  obtain ⟨rfl, hjoined'⟩ := runDagLevelAsync_joined hP.restores' hrun'
  refine Joined.settles (A := P.accord) (E := P.errors) ?_ hs hjoined hjoined' hs (hP.errors_async hasync) hleft hright
  rw [List.forall₂_map_left_iff, List.forall₂_map_right_iff, List.forall₂_same]
  exact fun entry hentry => settles_dagTask hP hasync h (hsteps entry hentry) entry.1

/-- The records of a level that were placed, and what they left. -/
abbrev SamePlaced (marks : Marks) (placed placed' : List StepRecord × Dict) : Prop :=
  LogKin marks placed.1 placed'.1 ∧ placed.2 = placed'.2

theorem settles_processRecords (h : SameRun info info') {todo todo' : List (DAGFlowStep × StepRecord)}
    (htodo : List.Forall₂ (fun entry entry' => entry.1 = entry'.1 ∧ entry.2.Kin P.marks entry'.2) todo todo')
    {log log' : List StepRecord} (hlog : LogKin P.marks log log') (outputs : Dict) :
    P.Settles P.Doomed (P.executor.processRecords info context todo log outputs)
      (P.other.processRecords info' context todo' log' outputs) (SameProgress P.marks (SamePlaced P.marks)) := by
  induction htodo generalizing log log' outputs with
  | nil => exact .pure (.going ⟨hlog, rfl⟩)
  | @cons entry entry' rest rest' hentry _ ih =>
    obtain ⟨step, record⟩ := entry
    obtain ⟨_, record'⟩ := entry'
    obtain ⟨rfl, hrecord⟩ := hentry
    dsimp only at hrecord
    unfold processRecords
    rw [hrecord.success]
    split
    · exact settles_ended h (hlog.concat hrecord)
    · refine .bind_same (settles_placeOutputs hrecord) fun placed => ?_
      obtain ⟨mapped, clash⟩ := placed
      cases clash with
      | some key =>
        refine .bind_same (settles_displayName rfl) fun name => settles_ended h (hlog.concat (.of_eq ?_))
        exact conflict_kin hrecord _ _ _
      | none => exact ih (hlog.concat hrecord) _

theorem forall₂_zip {R : β → γ → Prop} (items : List α) {values : List β} {values' : List γ}
    (h : List.Forall₂ R values values') :
    List.Forall₂ (fun (entry : α × β) (entry' : α × γ) => entry.1 = entry'.1 ∧ R entry.2 entry'.2) (items.zip values)
      (items.zip values') := by
  induction h generalizing items with
  | nil => simp
  | cons hvalue _ ih =>
    cases items with
    | nil => exact .nil
    | cons item rest => exact .cons ⟨rfl, hvalue⟩ (ih rest)

/-- Steps as the asynchronous loop numbers them. -/
abbrev numbered (start : Nat) (steps : List DAGFlowStep) : List (Nat × DAGFlowStep) :=
  steps.zipIdx.map fun entry => (start + entry.2, entry.1)

theorem mem_numbered {start : Nat} {steps : List DAGFlowStep} {entry : Nat × DAGFlowStep} (h : entry ∈ numbered start steps) :
    entry.2 ∈ steps := by
  obtain ⟨⟨step, place⟩, hmem, rfl⟩ := List.mem_map.1 h
  exact List.mem_of_getElem? (List.mem_zipIdx_iff_getElem?.1 hmem)

theorem settles_dagLevelAsync (hP : Set P nested nested' called) (hasync : P.lanes = .both .async) (h : SameRun info info')
    (hstate : SameDag P.marks state state') (steps : List DAGFlowStep)
    (hsteps : ∀ step ∈ steps, P.StepFits called step.toFlowStep) (index : Nat) :
    P.Settles P.Doomed (P.executor.dagLevelAsync nested info flow cancellation index steps state)
      (P.other.dagLevelAsync nested' info' flow cancellation index steps state')
      (SameProgress P.marks (SameDag P.marks)) := by
  unfold dagLevelAsync
  rw [hstate.context, hstate.flatIndex]
  refine .bind_same (settles_checkCancellation h hstate.log _) fun _ => ?_
  dsimp only
  split
  · exact .bind_same settles_probe fun _ => .bind_same (settles_displayName rfl) fun name =>
      settles_ended h (hstate.log.concat (.refl _))
  · refine .bind (settles_runDagLevelAsync hP hasync h _ fun entry hentry => hsteps _ (mem_numbered hentry))
      fun records records' hrecords => ?_
    refine .bind_missed (settles_processRecords h (forall₂_zip steps hrecords) hstate.log _) ?_ ?_
    · rintro _ _ (hresult | @⟨⟨log, placed⟩, ⟨log', _⟩, hlog, rfl⟩)
      · exact .pure (.ended hresult)
      · refine .bind_same (settles_closeLevel h index) fun context => .pure (.going ?_)
        exact { context := rfl, log := hlog, flatIndex := rfl, skipped := rfl }
    · rintro (result | level) hdoomed
      · exact .pure hdoomed
      · exact hdoomed.elim

end ChainWeaver.Duet
