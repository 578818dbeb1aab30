import ChainWeaver.DuetDags

/-!
# A level across the lanes

The synchronous lane runs and places the steps of a level one after the other, the asynchronous lane runs
them all before it places any. It may so come to an error that the synchronous lane never sees, as it has
stopped before: then its result is a failure.
-/

namespace ChainWeaver.Duet

open Executor
open Interaction (Always Comp Frame Joined Met Never)

variable {P : Duet} {nested nested' : Nested} {called : String → Prop} {executor : Executor}
  {info info' : RunInfo} {cancellation : Cancellation} {flow : DAGFlow} {step : DAGFlowStep} {context outputs : Dict}
  {record record' : StepRecord} {state state' : DagState} {level : LevelState}

/-- A step that either lane can run: a tool or a flow, chosen by nobody and with nothing to choose. -/
structure Plain (step : DAGFlowStep) : Prop where
  tool : step.stepType = .tool
  fixed : step.decisionCandidates = none
  branches : step.branches = []
  next : step.defaultNext = none

theorem numbered_cons (start : Nat) (step : DAGFlowStep) (rest : List DAGFlowStep) :
    numbered start (step :: rest) = (start, step) :: numbered (start + 1) rest := by
  simp [numbered, List.zipIdx_succ, Nat.add_comm, Nat.add_left_comm]

theorem skipDecision_nil (step : DAGFlowStep) : skipDecision [] step = false := by
  cases h : step.dependsOn with
  | nil => simp [skipDecision, h]
  | cons first rest => simp [skipDecision, h]

theorem routeBranch_plain (hstep : Plain step) (produced : Dict) :
    executor.routeBranch step context outputs produced = .ok (.selected none) := by
  simp [routeBranch, hstep.branches]

-- What a step of the synchronous lane leaves

theorem given_ofExcept {F : Frame Effects RunScopedState} {A : Event → Prop} {x : Except Exc α} :
    F.Given A (ofExcept x) (fun value => x = .ok value) fun _ => True := by
  cases x with
  | ok value => exact .pure rfl
  | error e => exact given_raise trivial

theorem given_displayName {F : Frame Effects RunScopedState} {A : Event → Prop} {step : FlowStep} :
    F.Given A (displayName step) (fun name => step.displayName? = some name) fun _ => True := by
  unfold displayName
  split
  · next name hname => exact .pure hname
  · exact given_raise trivial

theorem given_placeOutputs {F : Frame Effects RunScopedState} {A : Event → Prop} :
    F.Given A (placeOutputs info step context record outputs) (fun _ => True) fun _ => True := by
  unfold placeOutputs
  split
  · exact given_raise trivial
  · refine .bind given_displayName fun name _ => .bind given_ofExcept fun mapped _ => ?_
    exact .ask_bind fun _ _ => .pure trivial

/-- A step has failed and ended the run, or the level goes on behind it. -/
def Behind (level : LevelState) : Progress LevelState → Prop
  | .ended result => result.success = false
  | .going after => after.flatIndex = level.flatIndex + 1 ∧ after.skipped = level.skipped

theorem given_ended {F : Frame Effects RunScopedState} {A : Event → Prop} {log : List StepRecord} :
    F.Given A (do pure (Progress.ended (← executor.makeResult info false none log))) (Behind level) fun _ => True :=
  .bind given_makeResult fun _ hresult => .pure hresult

theorem given_placeToolRecord (hstep : Plain step) {F : Frame Effects RunScopedState} {A : Event → Prop} :
    F.Given A (executor.placeToolRecord info flow step state level record) (Behind level) fun _ => True := by
  unfold placeToolRecord
  refine .bind given_placeOutputs fun placed _ => .bind given_displayName fun name _ => ?_
  obtain ⟨mapped, clash⟩ := placed
  cases clash with
  | some key => exact given_ended
  | none =>
    refine .bind given_ofExcept fun routed hrouted => ?_
    rw [routeBranch_plain hstep] at hrouted
    cases hrouted
    exact .pure ⟨rfl, rfl⟩

theorem dagStep_plain (hstep : Plain step) (hskipped : level.skipped = []) :
    executor.dagStep nested info flow cancellation step state level =
      (probe (.visit info.traceId step level.skipped) >>= fun _ =>
        executor.dagToolStep nested info flow cancellation step state level) := by
  unfold dagStep
  rw [hskipped, skipDecision_nil, hstep.tool]
  rfl

theorem given_dagStep (hn : Restoring nested) (hstep : Plain step) (hskipped : level.skipped = [])
    (F : Frame Effects RunScopedState) :
    F.Given (fun _ => True) (executor.dagStep nested info flow cancellation step state level) (Behind level)
      fun _ => True := by
  rw [dagStep_plain hstep hskipped, dagToolStep_eq]
  have hrun (stepInfo : StepInfo) :
      Comp.Restores (executor.executeStep nested stepInfo (proxy step) state.context cancellation) :=
    restores_executeStepIn hn fun _ => hstep.fixed
  refine .ask_bind fun _ _ => .attempt_bind (hrun _ F) (fun record _ => ?_) fun e _ => ?_
  · unfold dagToolStepEnd
    dsimp only
    split
    · exact given_ended
    · exact given_placeToolRecord hstep
  · exact given_rethrown.weaken (fun _ => False.elim) fun _ => id

-- A level whose tasks have all come to records

/-- The conflicts of the lanes differ in their texts only. -/
theorem conflict_lanes (hapart : P.apart = true) (h : record.Kin P.marks record') (name key ending ending' : String) :
    (conflict name key ending record).Kin P.marks (conflict name key ending' record') := by
  have hlanes : P.marks.lanes = true := hapart
  simp only [StepRecord.Kin, StepRecord.without_eq, conflict, replaced, StepRecord.failWith, h.stepIndex, h.inputs,
    keptMessage, hlanes, Exc.typeName]
  rfl

theorem restores_makeResult {log : List StepRecord} {count : Option Nat} :
    Comp.Restores (executor.makeResult info false none log count) :=
  fun _ => given_makeResult.post fun _ _ => trivial

theorem restores_closeLevel {index : Nat} {log : List StepRecord} :
    Comp.Restores (executor.closeLevel info flow index context outputs log) := by
  intro F
  unfold closeLevel saveSnapshot
  refine .ask_bind fun _ _ => .bind given_ofExcept fun merged _ => .bind (Q := fun _ => True) (.get_bind fun state _ => ?_)
    fun _ _ => .pure trivial
  split
  · exact .bind given_ofExcept fun hashes _ => .ask_bind fun reply _ => given_ofExcept.post fun _ _ => trivial
  · exact .pure trivial

/-- The first error of a level, in the words of either lane. -/
theorem settles_ended_left {s' : RunScopedState} {V : LevelState → List StepRecord × Dict → Prop}
    {k : Progress LevelState → Exec (Progress LevelState)} (hk : ∀ result, k (.ended result) = pure (.ended result))
    (h : SameRun info info') {log log' : List StepRecord} (hlog : LogKin P.marks log log') :
    (P.accord.pinned s').Settles P.errors P.Doomed
      ((do pure (Progress.ended (← P.executor.makeResult info false none log))) >>= k)
      (do pure (Progress.ended (← P.other.makeResult info' false none log'))) (SameProgress P.marks V) := by
  refine .assoc_left (.bind ((settles_makeResult h hlog false none none).pin restores_makeResult s')
    fun result result' hresult => ?_)
  refine .pure_left ?_
  rw [hk]
  exact .pure (.ended hresult)

/-- What the two lanes have placed of a level. -/
structure AlikePlaced (marks : Marks) (log : List StepRecord) (level : LevelState) (placed : List StepRecord × Dict) :
    Prop where
  records : LogKin marks (log ++ level.records) placed.1
  outputs : level.outputs = placed.2
  skipped : level.skipped = []

/-- The task of a step has come to this record. -/
def Came (P : Duet) (nested' : Nested) (info' : RunInfo) (cancellation : Cancellation) (context : Dict)
    (s' : RunScopedState) (entry : Nat × DAGFlowStep) (record' : StepRecord) : Prop :=
  ∃ piece, (P.other.dagTask nested' info' cancellation context entry.1 entry.2).Runs s' piece (.ok record') s' ∧
    Always (P.executor.Steady P.answer P.cached) piece

section

variable (hP : Set P nested nested' called) (hapart : P.apart = true) (h : SameRun info info') {s' : RunScopedState}
include hP hapart h

/-- The synchronous lane goes through the steps as the asynchronous lane goes through their records. -/
theorem settles_dagLevelSteps_placed (hcontext : state.context = context) (steps : List DAGFlowStep)
    (hplain : ∀ step ∈ steps, Plain step ∧ P.StepFits called step.toFlowStep) {start : Nat} (hstart : level.flatIndex = start)
    (hcame : List.Forall₂ (Came P nested' info' cancellation context s') (numbered start steps) records)
    {log' : List StepRecord} (hplaced : AlikePlaced P.marks state.log level (log', outputs)) :
    (P.accord.pinned s').Settles P.errors P.Doomed
      (P.executor.dagLevelSteps nested info flow cancellation state steps level)
      (P.other.processRecords info' context (steps.zip records) log' outputs)
      (SameProgress P.marks fun after placed =>
        AlikePlaced P.marks state.log after placed ∧ after.flatIndex = start + steps.length) := by
  induction steps generalizing level start records log' outputs with
  | nil =>
    rw [List.zip_nil_left]
    exact .pure (.going ⟨hplaced, by simpa using hstart⟩)
  | cons step rest ih =>
    obtain ⟨⟨hstep, hfits⟩, hrest⟩ := List.forall_mem_cons.1 hplain
    rw [numbered_cons] at hcame
    obtain _ | ⟨⟨piece, hrun', hpiece⟩, hcame⟩ := hcame
    next record' records =>
    obtain ⟨hlog, rfl, hskipped⟩ := hplaced
    subst hstart hcontext
    rw [List.zip_cons_cons]
    unfold dagLevelSteps processRecords
    rw [dagStep_plain hstep hskipped, dagToolStep_eq]
    have hcall := (settles_executeStep_dagTask cancellation state.context hP hapart h hfits (some step.stepId)
      level.flatIndex).foretold hrun' hpiece
    refine .assoc_left (.yields_left (Q := fun _ => True) (fun F => .ask fun _ _ => trivial) fun _ _ => ?_)
    refine .assoc_left (.attempt_left hcall fun record hrecord => ?_)
    unfold dagToolStepEnd
    dsimp only
    rw [← hrecord.success]
    split
    · rw [← List.append_assoc]
      refine settles_ended_left ?_ h (hlog.concat hrecord)
      exact fun _ => rfl
    · unfold placeToolRecord
      cases hname : step.toFlowStep.displayName? with
      | none =>
        have hnameless {info : RunInfo} {context outputs : Dict} {record : StepRecord} {F : Frame Effects RunScopedState} :
            F.Given (fun _ => True) (placeOutputs info step context record outputs) (fun _ => False) fun _ => True := by
          unfold placeOutputs
          split
          · exact given_raise trivial
          · exact .bind given_displayName fun name hsome => by rw [hname] at hsome; cases hsome
        refine .raises (hP.errors_apart hapart) (fun F => ?_) fun F => .bind hnameless fun _ => False.elim
        exact .bind (.bind hnameless fun _ => False.elim) fun _ => False.elim
      | some name =>
        refine .assoc_left (.bind_same ((settles_placeOutputs hrecord).pin (fun F => given_placeOutputs) s') fun placed => ?_)
        obtain ⟨mapped, clash⟩ := placed
        unfold displayName
        simp only [hname]
        refine .assoc_left (.pure_left ?_)
        cases clash with
        | some key =>
          dsimp only
          refine .pure_right (settles_ended_left ?_ h (hlog.concat (conflict_lanes hapart hrecord _ _ _ _)))
          exact fun _ => rfl
        | none =>
          dsimp only
          rw [routeBranch_plain hstep]
          refine .assoc_left (.pure_left (.pure_left ?_))
          refine (ih hrest rfl hcame ?_).post ?_
          · refine { records := ?_, outputs := rfl, skipped := hskipped }
            rw [← List.append_assoc]
            exact hlog.concat hrecord
          · rintro _ _ (hresult | ⟨hplaced, hindex⟩)
            · exact .ended hresult
            · exact .going ⟨hplaced, by rw [hindex, List.length_cons, Nat.add_assoc, Nat.add_comm 1]⟩

/-- Where a task has raised, the synchronous lane raises too or has failed before. -/
theorem settles_dagLevelSteps_doomed (hcontext : state.context = context) (steps : List DAGFlowStep)
    (hplain : ∀ step ∈ steps, Plain step ∧ P.StepFits called step.toFlowStep) {start : Nat} (hstart : level.flatIndex = start)
    (hskipped : level.skipped = []) {entry : Nat × DAGFlowStep} (hentry : entry ∈ numbered start steps)
    (hrun' : (P.other.dagTask nested' info' cancellation context entry.1 entry.2).Runs s' piece (.error e') s')
    (hpiece : Always (P.executor.Steady P.answer P.cached) piece) {V : LevelState → β → Prop} :
    (P.accord.pinned s').Settles P.errors P.Doomed
      (P.executor.dagLevelSteps nested info flow cancellation state steps level)
      (throw e' : Exec (Progress β)) (SameProgress P.marks V) := by
  have hany := hP.errors_apart hapart
  induction steps generalizing level start with
  | nil => cases hentry
  | cons step rest ih =>
    obtain ⟨⟨hstep, hfits⟩, hrest⟩ := List.forall_mem_cons.1 hplain
    rw [numbered_cons] at hentry
    subst hstart hcontext
    obtain rfl | hentry := List.mem_cons.1 hentry
    · unfold dagLevelSteps
      rw [dagStep_plain hstep hskipped, dagToolStep_eq]
      have hcall := (settles_executeStep_dagTask cancellation state.context hP hapart h hfits (some step.stepId)
        level.flatIndex).foretold_error hrun' hpiece
      refine .assoc_left (.yields_left (Q := fun _ => True) (fun F => .ask fun _ _ => trivial) fun _ _ => ?_)
      refine .assoc_left (.attempt_throw hcall (fun e _ => ?_) fun record hrecord => ?_)
      · exact .raises hany (fun F => .bind given_rethrown fun _ => False.elim) fun F => .throw trivial
      · unfold dagToolStepEnd
        dsimp only
        rw [if_pos (by simp [hrecord.2])]
        refine .bind (.bind given_makeResult fun result hresult => .pure (Q := fun progress => ∃ result,
          progress = Progress.ended result ∧ result.success = false) ⟨result, rfl, hresult⟩) ?_
        rintro _ ⟨result, rfl, hresult⟩
        exact .pure ⟨hapart, hresult⟩
    · unfold dagLevelSteps
      refine .bind_throw (fun _ => hany _ _) (given_dagStep hP.restores hstep hskipped) ?_
      rintro (result | after) hbehind
      · exact .missed ⟨hapart, hbehind⟩
      · refine ih hrest (hbehind.1) (hbehind.2.trans hskipped) hentry

/-- Where a level loop across the lanes is: no branch has marked a step. -/
abbrev SameAcross (marks : Marks) (state state' : DagState) : Prop := SameDag marks state state' ∧ state.skipped = []

theorem settles_dagLevel_across (hstate : SameAcross P.marks state state')
    (steps : List DAGFlowStep) (hplain : ∀ step ∈ steps, Plain step ∧ P.StepFits called step.toFlowStep) (index : Nat) :
    P.Settles P.Doomed (P.executor.dagLevel nested info flow cancellation index steps state)
      (P.other.dagLevelAsync nested' info' flow cancellation index steps state')
      (SameProgress P.marks (SameAcross P.marks)) := by
  obtain ⟨hstate, hskipped⟩ := hstate
  unfold dagLevel dagLevelAsync
  rw [← hstate.flatIndex]
  refine .bind_same (settles_checkCancellation h hstate.log _) fun _ => ?_
  dsimp only
  have hstart :
      AlikePlaced P.marks state.log { flatIndex := state.flatIndex, skipped := state.skipped } (state'.log, .empty) :=
    { records := by simpa using hstate.log, outputs := rfl, skipped := hskipped }
  split
  · next heq =>
    have htool := (hplain _ (mem_numbered (List.mem_of_find?_eq_some heq))).1.tool
    have hother := List.find?_some heq
    exact absurd htool (by simpa using hother)
  refine .told (restores_runDagLevelAsync hP.restores') ?_ ?_
  · intro s' events' records hrun' hright
    obtain ⟨-, hjoined⟩ := runDagLevelAsync_joined hP.restores' hrun'
    cases hjoined with | all hall =>
    have hcame : List.Forall₂ (Came P nested' info' cancellation state'.context s')
        (numbered state.flatIndex steps) records := by
      refine (List.forall₂_map_left_iff.1 hall).imp fun entry record hrun => ?_
      obtain ⟨piece, t, hpiece, hrun⟩ := hrun
      obtain rfl := (restores_dagTask hP.restores' entry.1).run hrun
      exact ⟨piece, hrun, fun e he => hright e (hpiece he)⟩
    refine .bind_missed (settles_dagLevelSteps_placed hP hapart h hstate.context steps hplain rfl hcame hstart) ?_ ?_
    · rintro _ _ (hresult | @⟨level, ⟨log', _⟩, ⟨hlog, rfl, hlevel⟩, hindex⟩)
      · exact .pure (.ended hresult)
      · dsimp only
        rw [hstate.context]
        refine .bind_same ((settles_closeLevel h index).pin restores_closeLevel s') fun context => .pure (.going ⟨?_, hlevel⟩)
        exact { context := rfl, log := hlog, flatIndex := hindex, skipped := hlevel }
    · rintro (result | level) hdoomed
      · exact .pure hdoomed
      · exact hdoomed.elim
  · intro s' events' e' hrun' hright
    obtain ⟨-, hjoined⟩ := runDagLevelAsync_joined hP.restores' hrun'
    cases hjoined with | failed hmem hpiece hrun =>
    obtain ⟨entry, hentry, rfl⟩ := List.mem_map.1 hmem
    obtain rfl := (restores_dagTask hP.restores' entry.1).run hrun
    refine .throw_bind (settles_dagLevelSteps_doomed (β := List StepRecord × Dict) hP hapart h hstate.context steps
      hplain rfl hskipped hentry hrun (fun e he => hright e (hpiece he)) (V := fun _ _ => True)) ?_
    rintro (result | level) hdoomed
    · exact .pure hdoomed
    · exact hdoomed.elim

end

end ChainWeaver.Duet
