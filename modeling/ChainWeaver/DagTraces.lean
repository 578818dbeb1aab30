import ChainWeaver.RunTraces

/-!
# Traces of DAG runs

The level loops of both lanes keep to the language of run traces.
-/

namespace ChainWeaver.Executor

open Interaction (Closed Frame Prog)

/-- Where a run stands between levels. -/
def dagSpot (state : DagState) : Spot := ⟨state.flatIndex, state.log⟩

/-- Where a run stands inside a level. -/
def levelSpot (state : DagState) (level : LevelState) : Spot :=
  ⟨level.flatIndex, state.log ++ level.records⟩

def stepInfoOf (run : RunInfo) (step : DAGFlowStep) (index : Nat) : StepInfo :=
  { traceId := run.traceId, flowName := run.flowName, stepIndex := index, stepId := some step.stepId }

section

variable {S : Scene} {nested : Nested} {spot : Spot} {history : List Event}

-- Placing outputs

/-- The outputs that are placed, and whether they clash. -/
def PlaceQ (S : Scene) (step : DAGFlowStep) (context levelOutputs : Dict) (history : List Event) :
    Except Exc (Dict × Option String) → List Event → Prop
  | .ok (mapped, clash), events => clash = mapped.keys.find? levelOutputs.contains ∧
      (∃ name, step.displayName? = some name) ∧
      events = history ++ [probeEvent (.place S.run.traceId step context mapped levelOutputs)]
  | .error _, events => ∃ e, events = history ++ [faultEvent e]

theorem placeOutputs_from :
    (frame S.Inv).From history (placeOutputs S.run step context record levelOutputs)
      (PlaceQ S step context levelOutputs history) := by
  unfold placeOutputs
  split
  · exact ensures_raise ⟨_, rfl⟩
  · refine from_displayName_bind (fun name hname => ?_) fun e => ⟨_, rfl⟩
    refine from_ofExcept_bind (fun mapped _ => ?_) fun e => ⟨_, rfl⟩
    exact .ask_bind fun _ => .pure ⟨rfl, ⟨name, hname⟩, rfl⟩

/-- Outputs that do not clash are placed, where there are no branches. -/
theorem placeable {executor : Executor} {step : DAGFlowStep}
    (hclash : outputs.keys.find? levelOutputs.contains = none)
    (hroute : lane = .sync → ∀ e, executor.routeBranch step context (levelOutputs.update outputs) outputs ≠
      .ok (.invalid e)) : ¬executor.Unplaceable lane step context outputs levelOutputs := by
  rintro (hsome | ⟨hlane, e, hinvalid⟩)
  · simp [hclash] at hsome
  · exact hroute hlane e hinvalid

/-- A capability step has no branches. -/
theorem routeBranch_capability {executor : Executor} {step : DAGFlowStep} (h : step.stepType ≠ .tool) :
    executor.routeBranch step context levelOutputs outputs = .ok (.selected none) := by
  have hvalid := step.dag_valid
  have hnone : step.branches.isEmpty = true := by
    simp only [dagStepValid, Bool.and_eq_true, Bool.or_eq_true, decide_eq_true_eq] at hvalid
    exact hvalid.2.resolve_left h
  simp [routeBranch, hnone]

/-- The result that a replaced record leaves. -/
theorem replaced_loop (h : S.Reached spot history) (hat : S.At info spot.index)
    (hturn : Turn (S.I info) info record own) 
    (hun : S.executor.Unplaceable S.lane step context outputs levelOutputs)
    (hlog : log = spot.log ++ [replaced record name e]) {spotOf : α → Spot} :
    (frame S.Inv).From
      (history ++ own ++ [probeEvent (.place S.run.traceId step context outputs levelOutputs)])
      (do pure (Progress.ended (← S.executor.makeResult S.run false none log))) (S.LoopQ spotOf) := by
  subst hlog
  exact .bind (makeResult_returned (.replaced h hat hturn hun)) (fun result events hr => .pure hr)
    fun _ _ h => h

theorem failed_loop (h : S.Reached spot history) (hat : S.At info spot.index)
    (hturn : Turn (S.I info) info record own) (hfail : record.success = false)
    (hlog : log = spot.log ++ [record]) {spotOf : α → Spot} :
    (frame S.Inv).From (history ++ own)
      (do pure (Progress.ended (← S.executor.makeResult S.run false none log))) (S.LoopQ spotOf) := by
  subst hlog
  exact .bind (makeResult_returned (.failed h hat hturn hfail)) (fun result events hr => .pure hr)
    fun _ _ h => h

-- The synchronous level loop

theorem dagCapabilityStep_loop (hS : S.Good nested) (hlane : S.lane = .sync) (htype : step.stepType ≠ .tool)
    (h : S.Reached (levelSpot state level) history) :
    (frame S.Inv).From history (S.executor.dagCapabilityStep S.run step state level)
      (S.LoopQ (levelSpot state)) := by
  have hat : S.At (stepInfoOf S.run step level.flatIndex) (levelSpot state level).index :=
    ⟨⟨rfl, rfl⟩, rfl⟩
  have hin := hlane ▸ hS.inside _ hat.1
  unfold dagCapabilityStep
  refine .bind (Frame.From.after (runCapabilityStep_turn hin rfl rfl rfl)) ?_ ?_
  · rintro record _ ⟨own, rfl, hturn⟩
    dsimp only
    split
    · next hfail => exact failed_loop h hat hturn (by simpa using hfail) (List.append_assoc ..).symm
    next hok =>
    have hnext := h.turn hat hturn (by simpa using hok)
    refine .bind placeOutputs_from ?_ ?_
    · rintro ⟨mapped, clash⟩ _ ⟨hclash, _, rfl⟩
      cases clash with
      | some key => exact replaced_loop h hat hturn (.inl (by simp [← hclash])) rfl
      | none =>
        have hroute : S.lane = .sync → ∀ e, S.executor.routeBranch step state.context
            (level.outputs.update mapped) mapped ≠ .ok (.invalid e) := fun _ e => by
          rw [routeBranch_capability htype]
          nofun
        have hplaced := hnext.aside (.place (placeable hclash.symm hroute))
        exact .pure (by simpa [Scene.LoopQ, levelSpot, Spot.next] using hplaced)
    · rintro e _ ⟨e', rfl⟩
      exact .raised hnext
  · rintro e _ ⟨own, rfl, htorn⟩
    exact .torn h hat htorn.1 htorn.2

theorem placeToolRecord_loop (hlane : S.lane = .sync) (h : S.Reached (levelSpot state level) history)
    (hat : S.At info level.flatIndex) (hturn : Turn (S.I info) info record own)
    (hok : record.success = true) :
    (frame S.Inv).From (history ++ own) (S.executor.placeToolRecord S.run flow step state level record)
      (S.LoopQ (levelSpot state)) := by
  have hnext := h.turn hat hturn hok
  unfold placeToolRecord
  refine .bind placeOutputs_from ?_ ?_
  · rintro ⟨mapped, clash⟩ _ ⟨hclash, ⟨name, hname⟩, rfl⟩
    refine from_displayName_some hname ?_
    cases clash with
    | some key => exact replaced_loop h hat hturn (.inl (by simp [← hclash])) rfl
    | none =>
      dsimp only
      have hplaced (hvalid : ∀ e, S.executor.routeBranch step state.context (level.outputs.update mapped) mapped ≠
          .ok (.invalid e)) := hnext.aside (.place (placeable hclash.symm fun _ => hvalid))
      cases hroute : S.executor.routeBranch step state.context (level.outputs.update mapped) mapped with
      | error e =>
        exact from_ofExcept_bind (fun _ heq => nomatch heq) fun e => .raised (hplaced (by simp [hroute]))
      | ok outcome =>
        cases outcome with
        | selected target =>
          exact .pure (by simpa [Scene.LoopQ, levelSpot, Spot.next] using hplaced (by simp [hroute]))
        | invalid e => exact replaced_loop h hat hturn (.inr ⟨hlane, e, hroute⟩) rfl
  · rintro e _ ⟨e', rfl⟩
    exact .raised hnext

theorem dagToolStep_loop (hS : S.Good nested) (hlane : S.lane = .sync)
    (h : S.Reached (levelSpot state level) history) :
    (frame S.Inv).From history
      (S.executor.dagToolStep nested S.run flow cancellation step state level)
      (S.LoopQ (levelSpot state)) := by
  have hat : S.At (stepInfoOf S.run step level.flatIndex) (levelSpot state level).index :=
    ⟨⟨rfl, rfl⟩, rfl⟩
  have hin := hlane ▸ hS.inside _ hat.1
  unfold dagToolStep
  refine .attempt_bind (Frame.From.after (executeStepIn_turn hS.stable hin)) ?_
  rintro outcome _ ⟨own, rfl, hown⟩
  split
  · exact reraise_broken h hat hown.1 hown.2 fun _ _ => id
  · exact .throw (.torn h hat hown.1 hown.2)
  · split
    · next hfail => exact failed_loop h hat hown (by simpa using hfail) (List.append_assoc ..).symm
    · next hok => exact placeToolRecord_loop hlane h hat hown (by simpa using hok)

theorem dagStep_loop (hS : S.Good nested) (hlane : S.lane = .sync)
    (h : S.Reached (levelSpot state level) history) :
    (frame S.Inv).From history (S.executor.dagStep nested S.run flow cancellation step state level)
      (S.LoopQ (levelSpot state)) := by
  unfold dagStep
  refine .ask_bind fun _ => ?_
  have hvisit := h.aside (.visit step level.skipped)
  split
  · next hskip =>
    refine from_displayName_bind (fun name _ => ?_) fun e => .raised hvisit
    exact .pure (by simpa [Scene.LoopQ, levelSpot, Spot.next] using h.skip name hskip)
  · split
    · next htype => exact dagCapabilityStep_loop hS hlane (by simp [htype]) hvisit
    · exact dagToolStep_loop hS hlane hvisit

theorem dagLevelSteps_loop (hS : S.Good nested) (hlane : S.lane = .sync) (steps : List DAGFlowStep)
    (h : S.Reached (levelSpot state level) history) :
    (frame S.Inv).From history
      (S.executor.dagLevelSteps nested S.run flow cancellation state steps level)
      (S.LoopQ (levelSpot state)) := by
  induction steps generalizing level history with
  | nil => exact .pure h
  | cons step rest ih =>
    unfold dagLevelSteps
    refine .bind (dagStep_loop hS hlane h) (fun progress history h => ?_) fun _ _ h => h
    cases progress with
    | ended result => exact .pure h
    | going level => exact ih h

theorem closeLevel_stay (h : S.Reached spot history) :
    (frame S.Inv).From history
      (S.executor.closeLevel S.run flow levelIndex context levelOutputs log) (S.StayQ spot) := by
  unfold closeLevel
  refine .ask_bind fun _ => ?_
  have hmerge := h.aside (.merge flow.onContextCollision context levelOutputs)
  refine from_ofExcept_bind (fun merged _ => ?_) fun e => .raised hmerge
  exact .bind (saveSnapshot_stay hmerge) (fun _ history h => .pure h) fun _ _ h => h

theorem dagLevel_loop (hS : S.Good nested) (hlane : S.lane = .sync) (h : S.Reached (dagSpot state) history) :
    (frame S.Inv).From history
      (S.executor.dagLevel nested S.run flow cancellation levelIndex steps state)
      (S.LoopQ dagSpot) := by
  unfold dagLevel
  refine .bind (checkCancellation_stay h) (fun _ history h => ?_) fun _ _ h => h
  have hstart : S.Reached (levelSpot state { flatIndex := state.flatIndex, skipped := state.skipped })
      history := by simpa [Scene.StayQ, levelSpot, dagSpot] using h
  refine .bind (dagLevelSteps_loop hS hlane steps hstart) (fun progress history h => ?_) fun _ _ h => h
  cases progress with
  | ended result => exact .pure h
  | going level => exact .bind (closeLevel_stay h) (fun _ history h => .pure h) fun _ _ h => h

theorem dagLevels_loop (hS : S.Good nested) (hlane : S.lane = .sync) (levels : List (List DAGFlowStep))
    (h : S.Reached (dagSpot state) history) :
    (frame S.Inv).From history
      (S.executor.dagLevels nested S.run flow cancellation levels levelIndex state)
      (S.LoopQ dagSpot) := by
  induction levels generalizing levelIndex state history with
  | nil => exact .pure h
  | cons steps rest ih =>
    unfold dagLevels
    refine .bind (dagLevel_loop hS hlane h) (fun progress history h => ?_) fun _ _ h => h
    cases progress with
    | ended result => exact .pure h
    | going state => exact ih h

theorem dagFrom_run (hS : S.Good nested) (hlane : S.lane = .sync) (h : S.Reached (dagSpot state) history) :
    (frame S.Inv).From history
      (S.executor.dagFrom nested S.run flow cancellation levels startLevel state) S.RunQ := by
  unfold dagFrom
  refine .bind (dagLevels_loop hS hlane _ h) (fun progress history h => ?_) fun _ _ h => h
  cases progress with
  | ended result => exact .pure h
  | going state => exact finishFlow_run h

-- The asynchronous level loop

/-- The steps of a level with their records and their pieces of the trace. -/
inductive TurnsOf (S : Scene) : List (Nat × DAGFlowStep) → List StepRecord → List (List Event) → Prop
  | nil : TurnsOf S [] [] []
  | cons : Turn (S.I (taskInfo S.run entry.1)) (taskInfo S.run entry.1) record piece →
      TurnsOf S rest records pieces → TurnsOf S (entry :: rest) (record :: records) (piece :: pieces)

theorem TurnsOf.length (h : TurnsOf S indexed records pieces) : records.length = indexed.length := by
  induction h with
  | nil => rfl
  | cons _ _ ih => simp [ih]

theorem TurnsOf.passed (h : TurnsOf S indexed records pieces) (hok : ∀ record ∈ records, record.success = true) :
    ∀ piece ∈ pieces, ∃ entry ∈ indexed, S.Passed (taskInfo S.run entry.1) piece := by
  induction h with
  | nil => simp
  | @cons entry record piece rest records pieces hturn _ ih =>
    obtain ⟨hrecord, hrecords⟩ := List.forall_mem_cons.1 hok
    refine List.forall_mem_cons.2 ⟨⟨entry, by simp, record, hturn, hrecord⟩, fun piece hp => ?_⟩
    obtain ⟨entry, hmem, hpassed⟩ := ih hrecords piece hp
    exact ⟨entry, List.mem_cons_of_mem _ hmem, hpassed⟩

/-- A level run concurrently: each piece is what one of its steps did. -/
def LevelQ (S : Scene) (indexed : List (Nat × DAGFlowStep)) (r : Except Exc (List StepRecord))
    (events : List Event) : Prop :=
  ∃ pieces, Prog.Merged pieces events ∧
    (∀ piece ∈ pieces, ∃ entry ∈ indexed, S.Taken (taskInfo S.run entry.1) piece) ∧
    match r with
    | .ok records => TurnsOf S indexed records pieces
    | .error _ => Disturbed events

theorem dagTask_turn (hS : S.Good nested) (hlane : S.lane = .async) :
    (frame S.Inv).From [] (S.executor.dagTask nested S.run cancellation context flatIndex step)
      (StepQ (S.I (taskInfo S.run flatIndex)) (taskInfo S.run flatIndex)) :=
  executeStepIn_turn hS.stable (hlane ▸ hS.inside _ ⟨rfl, rfl⟩)

theorem dagTasksInOrder_level (hS : S.Good nested) (hlane : S.lane = .async)
    (indexed : List (Nat × DAGFlowStep)) :
    (frame S.Inv).From []
      (S.executor.dagTasksInOrder nested S.run cancellation context indexed)
      (LevelQ S indexed) := by
  induction indexed with
  | nil => exact .pure ⟨[], .nil, by simp, .nil⟩
  | cons entry rest ih =>
    unfold dagTasksInOrder
    refine .bind (dagTask_turn hS hlane) (fun record first hfirst => ?_) fun e events h => ?_
    · refine .bind (Frame.From.after ih) ?_ ?_
      · rintro records _ ⟨second, rfl, pieces, hmerged, hpieces, htaken⟩
        refine .pure ⟨first :: pieces, hmerged.cons, ?_, .cons hfirst htaken⟩
        exact List.forall_mem_cons.2 ⟨⟨entry, by simp, .inr ⟨record, hfirst⟩⟩, fun piece hp =>
          (hpieces piece hp).imp fun _ h => ⟨List.mem_cons_of_mem _ h.1, h.2⟩⟩
      · rintro e _ ⟨second, rfl, pieces, hmerged, hpieces, hd⟩
        refine ⟨first :: pieces, hmerged.cons, ?_, hd.right⟩
        exact List.forall_mem_cons.2 ⟨⟨entry, by simp, .inr ⟨record, hfirst⟩⟩, fun piece hp =>
          (hpieces piece hp).imp fun _ h => ⟨List.mem_cons_of_mem _ h.1, h.2⟩⟩
    · refine ⟨[events], by simpa using (Prog.Merged.flatten [events]), ?_, h.2⟩
      exact List.forall_mem_singleton.2 ⟨entry, by simp, .inl h.1⟩

/-- The tasks of a level, each run to its end from one state. -/
theorem runsAll_level (hS : S.Good nested) (hlane : S.lane = .async) (hs : S.Inv state)
    {indexed : List (Nat × DAGFlowStep)}
    (h : Prog.RunsAll (indexed.map fun entry => Prod.fst <$>
      S.executor.dagTask nested S.run cancellation context entry.1 entry.2 state) pieces outcomes) :
    (∀ piece ∈ pieces, ∃ entry ∈ indexed, S.Taken (taskInfo S.run entry.1) piece) ∧
    (∀ records : List StepRecord, outcomes = records.map .ok → TurnsOf S indexed records pieces) ∧
    ∀ e, .error e ∈ outcomes → ∃ piece ∈ pieces, Disturbed piece := by
  induction indexed generalizing pieces outcomes with
  | nil =>
    obtain _ | _ := h
    exact ⟨by simp, fun records hr => by cases records <;> simp_all [TurnsOf.nil], by simp⟩
  | cons entry rest ih =>
    obtain _ | @⟨_, piece, outcome, _, pieces, outcomes, hrun, hrest⟩ := h
    obtain ⟨_, hrun⟩ := Interaction.Comp.runs_fst hrun
    have hstep := (dagTask_turn hS hlane _ _ _ _ hs hrun).2
    obtain ⟨hpieces, htaken, herror⟩ := ih hrest
    refine ⟨List.forall_mem_cons.2 ⟨⟨entry, by simp, ?_⟩, fun piece hp =>
      (hpieces piece hp).imp fun _ h => ⟨List.mem_cons_of_mem _ h.1, h.2⟩⟩, ?_, ?_⟩
    · cases outcome with
      | ok record => exact .inr ⟨record, hstep⟩
      | error e => exact .inl hstep.1
    · intro records hr
      cases records with
      | nil => simp at hr
      | cons record records =>
        obtain ⟨rfl, htail⟩ := List.cons.inj hr
        exact .cons hstep (htaken records htail)
    · intro e he
      rcases List.mem_cons.1 he with rfl | he
      · exact ⟨_, by simp, hstep.2⟩
      · exact (herror e he).imp fun _ h => ⟨List.mem_cons_of_mem _ h.1, h.2⟩

theorem runDagLevelAsync_level (hS : S.Good nested) (hlane : S.lane = .async)
    (indexed : List (Nat × DAGFlowStep)) (h : S.Reached spot history) :
    (frame S.Inv).From history
      (S.executor.runDagLevelAsync nested S.run cancellation context indexed) fun r events =>
        ∃ before own, events = before ++ own ∧ S.Reached spot before ∧ LevelQ S indexed r own := by
  unfold runDagLevelAsync
  split
  · exact (Frame.From.after (dagTasksInOrder_level hS hlane indexed)).weaken fun r _ ⟨own, heq, hown⟩ =>
      ⟨history, own, heq, h, hown⟩
  · refine .ask_bind fun choices => ?_
    intro s events r s' hs hrun
    obtain ⟨rfl, pieces, outcomes, hall, hmerged, hg⟩ := Interaction.Comp.runs_gather hrun
    simp only [List.map_map, Function.comp_def] at hall
    obtain ⟨hpieces, htaken, herror⟩ := runsAll_level hS hlane hs hall
    refine ⟨hs, _, events, rfl, h.aside .schedule, pieces, hmerged, hpieces, ?_⟩
    cases r with
    | ok records => exact htaken records hg
    | error e =>
      obtain ⟨piece, hp, hd⟩ := herror e hg
      exact hd.imp fun _ he => ⟨(hmerged.sublist hp).subset he.1, he.2⟩

/-- The steps of a level with their indexes in the run. -/
def indexedFrom (first : Nat) (steps : List DAGFlowStep) : List (Nat × DAGFlowStep) :=
  steps.zipIdx.map fun (step, place) => (first + place, step)

theorem length_indexedFrom : (indexedFrom first steps).length = steps.length := by
  simp [indexedFrom]

/-- What the pieces of a level are, as strands of the run. -/
theorem strands_of_pieces {ends : StepInfo → List Event → Prop} (hmerged : Prog.Merged pieces events)
    (h : ∀ piece ∈ pieces, ∃ entry ∈ indexedFrom first steps, ends (taskInfo S.run entry.1) piece) :
    S.Strands first steps.length ends events := by
  refine ⟨pieces, hmerged, fun piece hp => ?_⟩
  obtain ⟨entry, hmem, hends⟩ := h piece hp
  obtain ⟨⟨step, place⟩, hplace, rfl⟩ := List.mem_map.1 hmem
  exact ⟨_, place, by simpa using List.snd_lt_of_mem_zipIdx hplace, ⟨⟨rfl, rfl⟩, rfl⟩, hends⟩

theorem LevelQ.strands (h : LevelQ S (indexedFrom first steps) r events) :
    S.Strands first steps.length S.Taken events :=
  let ⟨_, hmerged, hpieces, _⟩ := h
  strands_of_pieces hmerged hpieces

/-- The asynchronous lane ends a run after any steps of its last level. -/
theorem ended_loop (hlane : S.lane = .async) (h : S.Spent history) {spotOf : α → Spot} :
    (frame S.Inv).From history
      (do pure (Progress.ended (← S.executor.makeResult S.run false none log))) (S.LoopQ spotOf) :=
  .bind (makeResult_returned (.spent hlane h)) (fun _ _ hr => .pure hr) fun _ _ h => h

/-- Where all records are successes, the level has passed. -/
theorem processRecords_loop (hlane : S.lane = .async) (entries : List (DAGFlowStep × StepRecord))
    (h : S.Spent history) (hall : (∀ entry ∈ entries, entry.2.success = true) → S.Reached spot history) :
    (frame S.Inv).From history (S.executor.processRecords S.run context entries log levelOutputs)
      (S.LoopQ fun _ => spot) := by
  induction entries generalizing log levelOutputs history with
  | nil => exact .pure (hall (by simp))
  | cons entry rest ih =>
    unfold processRecords
    dsimp only
    split
    · exact ended_loop hlane h
    next hok =>
    refine .bind placeOutputs_from ?_ ?_
    · rintro ⟨mapped, clash⟩ _ ⟨hclash, ⟨name, hname⟩, rfl⟩
      cases clash with
      | some key =>
        have hun : S.executor.Unplaceable S.lane entry.1 context mapped levelOutputs :=
          .inl (by simp [← hclash])
        exact from_displayName_some hname (ended_loop hlane (h.place hun))
      | none =>
        have hplace : S.Aside (probeEvent (.place S.run.traceId entry.1 context mapped levelOutputs)) :=
          .place (placeable hclash.symm fun hsync => by simp [hlane] at hsync)
        refine ih (h.aside hplace) fun hrest => (hall ?_).aside hplace
        exact List.forall_mem_cons.2 ⟨by simpa using hok, hrest⟩
    · rintro e _ ⟨e', rfl⟩
      exact .spent hlane h

/-- Where the run stands between the levels of `flow`. -/
def Between (S : Scene) (flow : DAGFlow) (levels : List (List DAGFlowStep)) (levelIndex : Nat)
    (state : DagState) (events : List Event) : Prop :=
  S.flow = .dag flow ∧ computeDagLevels S.executor.platform.hashing flow = .ok levels ∧
    state.flatIndex = (levels.take levelIndex).flatten.length ∧ S.Reached (dagSpot state) events

theorem dagLevelAsync_loop (hS : S.Good nested) (hlane : S.lane = .async)
    (hsteps : levels[levelIndex]? = some steps) (h : Between S flow levels levelIndex state history) :
    (frame S.Inv).From history
      (S.executor.dagLevelAsync nested S.run flow cancellation levelIndex steps state) fun r events =>
        match r with
        | .ok (.going state) => Between S flow levels (levelIndex + 1) state events
        | .ok (.ended result) => S.Returned result events
        | .error _ => S.Broken events := by
  obtain ⟨hflow, hlevels, hflat, h⟩ := h
  have hlevel : S.Level state.flatIndex steps.length :=
    ⟨flow, levels, levelIndex, steps, hflow, hlevels, hsteps, hflat, rfl⟩
  have hflat' : state.flatIndex + steps.length = (levels.take (levelIndex + 1)).flatten.length := by
    rw [List.take_add_one, hsteps, Option.toList_some, List.flatten_append, List.length_append,
      List.flatten_singleton, hflat]
  unfold dagLevelAsync
  refine .bind (checkCancellation_stay h) (fun _ history h => ?_) fun _ _ h => h
  dsimp only
  split
  · next flatIndex step hfind =>
    obtain ⟨⟨other, place⟩, hplace, heq⟩ := List.mem_map.1 (List.mem_of_find?_eq_some hfind)
    obtain ⟨rfl, rfl⟩ := Prod.mk.inj heq
    have hspent := Scene.Spent.unsupported (S := S) other h hlevel
      (by simpa using List.snd_lt_of_mem_zipIdx hplace)
    refine .ask_bind fun _ => from_displayName_bind (fun name _ => ?_) fun e => .spent hlane hspent
    exact .bind (makeResult_returned (.spent hlane hspent)) (fun _ _ hr => .pure hr) fun _ _ h => h
  · refine .bind (runDagLevelAsync_level hS hlane (indexedFrom state.flatIndex steps) h) ?_ ?_
    · rintro records _ ⟨before, own, rfl, h, hown⟩
      have hspent : S.Spent (before ++ own) := .strands h hlevel hown.strands
      have hpassed (hall : ∀ entry ∈ steps.zip records, entry.2.success = true) :
          S.Reached ⟨state.flatIndex + steps.length, state.log⟩ (before ++ own) := by
        obtain ⟨pieces, hmerged, _, hturns⟩ := hown
        have hlength : records.length = steps.length := hturns.length.trans length_indexedFrom
        refine .strands hlane h hlevel (strands_of_pieces hmerged (hturns.passed fun record hr => ?_))
        obtain ⟨place, hplace, rfl⟩ := List.mem_iff_getElem.1 hr
        have hplace' : place < steps.length := hlength ▸ hplace
        have hmem : (steps[place], records[place]) ∈ steps.zip records :=
          List.mem_iff_getElem.2 ⟨place, by rw [List.length_zip]; omega, List.getElem_zip⟩
        exact hall _ hmem
      refine .bind (processRecords_loop hlane _ hspent hpassed) (fun progress history h => ?_) fun _ _ h => h
      cases progress with
      | ended result => exact .pure h
      | going after =>
        obtain ⟨log, levelOutputs⟩ := after
        refine .bind (closeLevel_stay h) (fun context _ h => .pure ?_) fun _ _ h => h
        exact ⟨hflow, hlevels, hflat', h.settle log hlane⟩
    · rintro e _ ⟨before, own, rfl, h, hown⟩
      exact .tornStrands hlane h hlevel hown.strands hown.choose_spec.2.2

theorem dagLevelsAsync_loop (hS : S.Good nested) (hlane : S.lane = .async)
    (rest : List (List DAGFlowStep)) (hrest : levels.drop levelIndex = rest)
    (h : Between S flow levels levelIndex state history) :
    (frame S.Inv).From history
      (S.executor.dagLevelsAsync nested S.run flow cancellation rest levelIndex state)
      (S.LoopQ dagSpot) := by
  induction rest generalizing levelIndex state history with
  | nil => exact .pure h.2.2.2
  | cons steps rest ih =>
    have hsteps : levels[levelIndex]? = some steps := by
      rw [← List.head?_drop, hrest, List.head?_cons]
    unfold dagLevelsAsync
    refine .bind (dagLevelAsync_loop hS hlane hsteps h) (fun progress history h => ?_) fun _ _ h => h
    cases progress with
    | ended result => exact .pure h
    | going state =>
      refine ih ?_ h
      rw [← List.tail_drop, hrest, List.tail_cons]

theorem dagFromAsync_run (hS : S.Good nested) (hlane : S.lane = .async)
    (h : Between S flow levels startLevel state history) :
    (frame S.Inv).From history
      (S.executor.dagFromAsync nested S.run flow cancellation levels startLevel state) S.RunQ := by
  unfold dagFromAsync
  refine .bind (dagLevelsAsync_loop hS hlane _ rfl h) (fun progress history h => ?_) fun _ _ h => h
  cases progress with
  | ended result => exact .pure h
  | going state => exact finishFlow_run h

end

end ChainWeaver.Executor
