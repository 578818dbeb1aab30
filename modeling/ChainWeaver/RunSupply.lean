import ChainWeaver.RunTraces
import ChainWeaver.StepSupply
import ChainWeaver.TopologyLaws

/-!
# What a run has in its context

The step loops, for any account of what steps need and give: a step that gets what
it needs leaves a record in order, and what the steps give is in the context once
they are done. Branches are left out.
-/

namespace ChainWeaver.Executor

open Interaction (Frame)

/-- An account of the steps of a flow: the context keys a step needs, the keys it gives if
its record is of the regular kind, and the records that are in order for it. -/
structure Terms (α : Type) where
  needs : α → String → Prop
  gives : α → String → Prop
  Regular : StepRecord → Prop
  InOrder : α → StepRecord → Prop

/-- The record of a failed check of a whole flow. -/
def FlowCheck (stepCount : Nat) (record : StepRecord) : Prop :=
  (record.stepIndex = flowInputStepIndex ∨ record.stepIndex = stepCount) ∧
    record.errorType = some "SchemaValidationError"

namespace Terms

variable {α : Type} (terms : Terms α)

/-- What the record of a step that ran in `context` is to have. -/
structure Met (Fair : Exc → Prop) (step : α) (mapping : Option (OrderedDict String)) (context : Dict)
    (record : StepRecord) : Prop where
  inOrder : (∀ key, terms.needs step key → context.contains key = true) → terms.InOrder step record
  gives : terms.Regular record → record.success = true → ∀ outputs, record.outputs = some outputs →
    ∀ name stepIndex mapped, applyOutputMapping outputs mapping name stepIndex = .ok mapped →
      ∀ key, terms.gives step key → mapped.contains key = true
  fair : record.success = true → ∀ outputs, record.outputs = some outputs →
    ∀ name stepIndex e, applyOutputMapping outputs mapping name stepIndex = .error e → Fair e

/-- Every step needs only what there is from the start or what a step of an earlier level
gives. -/
def Available (base : String → Prop) (levels : List (List α)) : Prop :=
  ∀ before level after, levels = before ++ level :: after → ∀ step ∈ level, ∀ key, terms.needs step key →
    base key ∨ ∃ earlier ∈ before.flatten, terms.gives earlier key

/-- The records of a log are in order. -/
def Orderly (steps : List α) (log : List StepRecord) : Prop :=
  ∀ record ∈ log, FlowCheck steps.length record ∨ ∃ step ∈ steps, terms.InOrder step record

/-- Behind the steps `done`, as long as all records are regular. -/
def Standing (base : String → Prop) (steps done : List α) (context : Dict) (log : List StepRecord) : Prop :=
  (∀ record ∈ log, terms.Regular record) → terms.Orderly steps log ∧
    (∀ key, base key → context.contains key = true) ∧
    ∀ step ∈ done, ∀ key, terms.gives step key → context.contains key = true

/-- The result of a run whose records are regular has an orderly log. -/
def Closed (steps : List α) (result : ExecutionResult) : Prop :=
  (∀ record ∈ result.executionLog, terms.Regular record) → terms.Orderly steps result.executionLog

variable {terms} {base : String → Prop} {steps done : List α} {step : α} {context : Dict}
variable {log : List StepRecord} {record : StepRecord}

theorem Orderly.snoc (h : terms.Orderly steps log) (hstep : step ∈ steps) (hr : terms.InOrder step record) :
    terms.Orderly steps (log ++ [record]) := by
  intro other hmem
  rcases List.mem_append.1 hmem with hmem | hmem
  · exact h other hmem
  · obtain rfl := List.mem_singleton.1 hmem
    exact .inr ⟨step, hstep, hr⟩

theorem Standing.needs (h : terms.Standing base steps done context log)
    (havailable : ∀ key, terms.needs step key → base key ∨ ∃ earlier ∈ done, terms.gives earlier key)
    (hregular : ∀ record ∈ log, terms.Regular record) :
    ∀ key, terms.needs step key → context.contains key = true := by
  intro key hneeds
  obtain ⟨_, hbase, hdone⟩ := h hregular
  rcases havailable key hneeds with hk | ⟨earlier, hmem, hk⟩
  · exact hbase key hk
  · exact hdone earlier hmem key hk

/-- A result whose log ends in the record of a step. -/
theorem Standing.closed (h : terms.Standing base steps done context log) (hstep : step ∈ steps)
    (hr : (∀ record ∈ log, terms.Regular record) → terms.InOrder step record)
    (hlog : result.executionLog = log ++ [record]) : terms.Closed steps result := by
  intro hregular
  rw [hlog] at hregular ⊢
  have hbefore : ∀ record ∈ log, terms.Regular record := fun record hmem =>
    hregular record (List.mem_append_left _ hmem)
  exact (h hbefore).1.snoc hstep (hr hbefore)

/-- A result whose log ends in a flow-level record, or with the steps. -/
theorem Standing.finished (h : terms.Standing base steps done context log)
    (hlog : result.executionLog = log ∨
      ∃ record, FlowCheck steps.length record ∧ result.executionLog = log ++ [record]) :
    terms.Closed steps result := by
  intro hregular
  rcases hlog with hlog | ⟨record, hflow, hlog⟩ <;> rw [hlog] at hregular ⊢
  · exact (h hregular).1
  · intro other hmem
    rcases List.mem_append.1 hmem with hmem | hmem
    · exact (h fun record hmem => hregular record (List.mem_append_left _ hmem)).1 other hmem
    · obtain rfl := List.mem_singleton.1 hmem
      exact .inl hflow

end Terms

-- The parts of a loop

variable {executor : Executor} {reflection : Reflection} {Inv : RunScopedState → Prop} {A : Event → Prop}
variable {Fair : Exc → Prop} {nested : Nested} {info : RunInfo} {cancellation : Cancellation}

theorem makeResult_given (ht : Trusted executor reflection A Fair) :
    (frame Inv).Given A (executor.makeResult info success output log count)
      (fun result => result.executionLog = log ∧ result.success = success ∧ result.finalOutput = output) Fair := by
  unfold makeResult
  refine .get_bind fun state _ => .bind (Q := fun _ => True) ?_ fun _ _ => .ask_bind fun _ _ => .pure ⟨rfl, rfl, rfl⟩
  unfold deleteSnapshot
  split
  · refine .ask_bind fun reply hreply => ?_
    exact (given_ofExcept fun e h => ht.delete _ e (h ▸ hreply)).post fun _ _ => trivial
  · exact .pure trivial

theorem checkCancellation_given (ht : Trusted executor reflection A Fair) :
    (frame Inv).Given A (executor.checkCancellation info index cancellation log) (fun _ => True) Fair := by
  have hlate : (frame Inv).Given A (deadlineExceeded cancellation) (fun _ => True) Fair := by
    unfold deadlineExceeded
    split
    · exact .pure trivial
    · exact .ask_bind fun _ _ => .pure trivial
  have hcancelled : (frame Inv).Given A (tokenCancelled cancellation) (fun _ => True) Fair := by
    unfold tokenCancelled
    split
    · exact .ask fun _ _ => trivial
    · exact .pure trivial
  unfold checkCancellation
  refine hlate.bind fun late _ => hcancelled.bind fun cancelled _ => ?_
  split
  · exact .ask_bind fun _ _ => (makeResult_given ht).bind fun _ _ => .throw (ht.own _ rfl)
  · exact .pure trivial

theorem reraise_given (ht : Trusted executor reflection A Fair) {Q : α → Prop} :
    (frame Inv).Given A
      (executor.reraiseSubflowCancellation info step index log sub message late cancelled : Exec α) Q Fair := by
  unfold reraiseSubflowCancellation
  exact (makeResult_given ht).bind fun _ _ => .throw (ht.own _ rfl)

theorem toolSchemaHashes_error {steps : List FlowStep} {hashes : OrderedDict String}
    (h : executor.toolSchemaHashes steps hashes = .error e) : e = .assertion := by
  induction steps generalizing hashes with
  | nil => cases h
  | cons step rest ih =>
    unfold Executor.toolSchemaHashes at h
    split at h
    · exact (Except.error.inj h).symm
    · split at h <;> exact ih h

theorem saveSnapshot_given (ht : Trusted executor reflection A Fair) :
    (frame Inv).Given A (executor.saveSnapshot info flow context log completed) (fun _ => True) Fair := by
  unfold saveSnapshot
  refine .get_bind fun state _ => ?_
  split
  · refine (given_ofExcept fun e h => toolSchemaHashes_error h ▸ ht.own _ rfl).bind fun hashes _ => ?_
    refine .ask_bind fun reply hreply => ?_
    exact (given_ofExcept fun e h => ht.save _ e (h ▸ hreply)).post fun _ _ => trivial
  · exact .pure trivial

/-- A run whose initial input is refused ends at once. -/
theorem inputRefused_given {α : Type} {terms : Terms α} {steps : List α} (ht : Trusted executor reflection A Fair)
    (hinput : executor.validateFlowSchema flowName input schemaRef flowInputStepIndex label = .ok (some record)) :
    (frame Inv).Given A (executor.makeResult info false none [record] (some 0)) (terms.Closed steps) Fair := by
  refine (makeResult_given ht).post fun result h _ => ?_
  obtain ⟨detail, rfl⟩ := validateFlowSchema_some hinput
  rw [h.1]
  intro record hmem
  obtain rfl := List.mem_singleton.1 hmem
  exact .inl ⟨.inl rfl, rfl⟩

theorem finishFlow_given (ht : Trusted executor reflection A Fair) {header : FlowHeader} {stepCount : Nat}
    {context : Dict} {log : List StepRecord} :
    (frame Inv).Given A (executor.finishFlow info header stepCount checkContext context log)
      (fun result => (result.executionLog = log ∨
        ∃ record, FlowCheck stepCount record ∧ result.executionLog = log ++ [record]) ∧
        (result.success = true → result.finalOutput = some context ∧
          executor.validateFlowSchema info.flowName context header.outputSchemaRef stepCount "flow_output" = .ok none))
      Fair := by
  have hfailed : ∀ schemaRef label record,
      executor.validateFlowSchema info.flowName context schemaRef (stepCount : Int) label = .ok (some record) →
      FlowCheck stepCount record := by
    intro schemaRef label record h
    obtain ⟨detail, rfl⟩ := validateFlowSchema_some h
    exact ⟨.inr rfl, rfl⟩
  unfold finishFlow
  refine (given_ofExcept fun e => ht.validateFlowSchema).bind fun outputFailure houtput => ?_
  cases outputFailure with
  | some record =>
    refine (makeResult_given ht).post fun result h => ⟨.inr ⟨record, hfailed _ _ _ houtput, h.1⟩, fun hs => ?_⟩
    exact nomatch hs.symm.trans h.2.1
  | none =>
    refine .ask_bind fun _ _ => ?_
    refine (given_ofExcept fun e => ht.validateFlowSchema).bind fun contextFailure hcontext => ?_
    cases contextFailure with
    | some record =>
      refine (makeResult_given ht).post fun result h => ⟨.inr ⟨record, hfailed _ _ _ hcontext, h.1⟩, fun hs => ?_⟩
      exact nomatch hs.symm.trans h.2.1
    | none => exact (makeResult_given ht).post fun result h => ⟨.inl h.1, fun _ => ⟨h.2.2, houtput⟩⟩

theorem mergeMapped_ok (h : mergeMapped context outputs policy flowName stepIndex name = .ok merged) :
    merged = context.update outputs := by
  unfold mergeMapped at h
  split at h
  · cases h
  · exact (Except.ok.inj h).symm

theorem mergeMapped_error (h : mergeMapped context outputs policy flowName stepIndex name = .error e) :
    e.isMapping = false := by
  unfold mergeMapped at h
  split at h
  · rw [← Except.error.inj h]
    rfl
  · cases h

/-- What a part of a loop leaves: a state to go on from, or a result. -/
def Stage (P : α → Prop) (R : ExecutionResult → Prop) : Progress α → Prop
  | .going state => P state
  | .ended result => R result

theorem ended_given (ht : Trusted executor reflection A Fair) {P : α → Prop} {R : ExecutionResult → Prop}
    (h : ∀ result, result.executionLog = log → R result) :
    (frame Inv).Given A (do pure (Progress.ended (← executor.makeResult info false none log))) (Stage P R) Fair :=
  (makeResult_given ht).bind fun result hlog => .pure (h result hlog.1)

-- Linear flows

section Linear

variable {terms : Terms FlowStep} {base : String → Prop} {flow : Flow} {mode : LinearMode}

theorem mergeOutputs_given (ht : Trusted executor reflection A Fair) {context : Dict} {record : StepRecord}
    (hsuccess : record.success = true) (hmet : terms.Met Fair step step.outputMapping context record) :
    (frame Inv).Given A (mergeOutputs mode info policy step stepIndex context record)
      (fun merged => ∃ mapped, merged = context.update mapped ∧
        (terms.Regular record → ∀ key, terms.gives step key → mapped.contains key = true)) Fair := by
  unfold mergeOutputs
  split
  · split
    · exact given_raise (ht.own _ rfl)
    · exact (given_displayName (ht.own _ rfl)).bind fun _ _ => given_raise (ht.own _ rfl)
  next outputs houtputs =>
  refine (given_displayName (ht.own _ rfl)).bind fun name _ => ?_
  refine (given_ofExcept fun e => hmet.fair hsuccess outputs houtputs _ _ _).bind fun mapped hmapped => ?_
  have hgives := fun hregular => hmet.gives hregular hsuccess outputs houtputs _ _ _ hmapped
  refine .ask_bind fun _ _ => ?_
  split
  · exact .pure ⟨mapped, rfl, hgives⟩
  · refine (given_ofExcept fun e h => ht.own e (mergeMapped_error h)).post fun merged hmerged => ?_
    exact ⟨mapped, mergeMapped_ok hmerged, hgives⟩

theorem checkTurn_given (ht : Trusted executor reflection A Fair) :
    (frame Inv).Given A (executor.checkTurn mode info stepIndex cancellation log) (fun _ => True) Fair := by
  unfold checkTurn
  split
  · exact .pure trivial
  · exact checkCancellation_given ht

/-- One turn of the loop. -/
theorem linearStep_given (ht : Trusted executor reflection A Fair) (hmem : step ∈ flow.steps)
    (hstep : ∀ info context, (frame Inv).Given A
      (executor.executeStepIn mode.lane nested info step context cancellation)
      (terms.Met Fair step step.outputMapping context) Fair)
    (havailable : ∀ key, terms.needs step key → base key ∨ ∃ earlier ∈ done, terms.gives earlier key)
    (h : terms.Standing base flow.steps done context log) :
    (frame Inv).Given A (executor.linearStep mode nested info flow cancellation stepIndex step context log)
      (Stage (fun state => terms.Standing base flow.steps (done ++ [step]) state.1 state.2)
        (terms.Closed flow.steps)) Fair := by
  unfold linearStep
  refine (checkTurn_given ht).bind fun _ _ => .attempt_bind (hstep _ _) (fun record hmet => ?_) fun e he => ?_
  · dsimp only
    have hinOrder := fun hregular => hmet.inOrder (h.needs havailable hregular)
    split
    · exact ended_given ht fun result hlog => h.closed hmem hinOrder hlog
    next hsuccess =>
    refine (mergeOutputs_given ht (by simpa using hsuccess) hmet).bind fun merged hmerged => ?_
    obtain ⟨mapped, rfl, hgives⟩ := hmerged
    refine (saveSnapshot_given ht).bind fun _ _ => .pure fun hregular => ?_
    have hbefore : ∀ record ∈ log, terms.Regular record := fun record hmem =>
      hregular record (List.mem_append_left _ hmem)
    obtain ⟨horderly, hbase, hdone⟩ := h hbefore
    refine ⟨horderly.snoc hmem (hinOrder hbefore), fun key hk => by simp [hbase key hk], ?_⟩
    intro other hother key hk
    rcases List.mem_append.1 hother with hother | hother
    · simp [hdone other hother key hk]
    · obtain rfl := List.mem_singleton.1 hother
      simp [hgives (hregular record (by simp)) key hk]
  · split
    · next heq =>
      split
      · exact .throw (ht.own _ rfl)
      · exact reraise_given ht
    · next heq => exact .throw (Except.error.inj heq ▸ he)
    · next heq => cases heq

theorem linearLoop_given (ht : Trusted executor reflection A Fair)
    (hstep : ∀ step ∈ flow.steps, ∀ info context, (frame Inv).Given A
      (executor.executeStepIn mode.lane nested info step context cancellation)
      (terms.Met Fair step step.outputMapping context) Fair)
    (havailable : terms.Available base (flow.steps.map fun step => [step])) (rest : List FlowStep)
    (hsteps : flow.steps = done ++ rest) (h : terms.Standing base flow.steps done context log) :
    (frame Inv).Given A (executor.linearLoop mode nested info flow cancellation rest stepIndex context log)
      (Stage (fun state => terms.Standing base flow.steps flow.steps state.1 state.2)
        (terms.Closed flow.steps)) Fair := by
  induction rest generalizing done stepIndex context log with
  | nil =>
    rw [List.append_nil] at hsteps
    exact .pure (hsteps ▸ h)
  | cons step rest ih =>
    have hmem : step ∈ flow.steps := by simp [hsteps]
    have hneeds : ∀ key, terms.needs step key → base key ∨ ∃ earlier ∈ done, terms.gives earlier key := by
      intro key hk
      have hlevels : flow.steps.map (fun step => [step]) =
          done.map (fun step => [step]) ++ [step] :: rest.map fun step => [step] := by simp [hsteps]
      have hflat : (done.map fun step => [step]).flatten = done := List.flatMap_singleton' done
      simpa [hflat] using havailable _ _ _ hlevels step (by simp) key hk
    unfold linearLoop
    refine (linearStep_given ht hmem (hstep step hmem) hneeds h).bind fun progress hprogress => ?_
    cases progress with
    | ended result => exact .pure hprogress
    | going state => exact ih (by simp [hsteps]) hprogress

theorem linearFrom_given (ht : Trusted executor reflection A Fair)
    (hstep : ∀ step ∈ flow.steps, ∀ info context, (frame Inv).Given A
      (executor.executeStepIn mode.lane nested info step context cancellation)
      (terms.Met Fair step step.outputMapping context) Fair)
    (havailable : terms.Available base (flow.steps.map fun step => [step]))
    (hbase : ∀ key, base key → context.contains key = true) :
    (frame Inv).Given A (executor.linearFrom mode nested info flow cancellation 0 context [])
      (terms.Closed flow.steps) Fair := by
  have hstart : terms.Standing base flow.steps [] context [] := fun _ => ⟨by simp [Terms.Orderly], hbase, by simp⟩
  unfold linearFrom
  refine (linearLoop_given ht hstep havailable _ rfl hstart).bind fun progress hprogress => ?_
  cases progress with
  | ended result => exact .pure hprogress
  | going state => exact (finishFlow_given ht).post fun result h => hprogress.finished h.1

/-- A fresh run of a linear flow. -/
theorem executeLinear_given {lane : Lane} (ht : Trusted executor reflection A Fair) (hstable : Stable Inv)
    (hstep : ∀ step ∈ flow.steps, ∀ info context, (frame Inv).Given A
      (executor.executeStepIn lane nested info step context cancellation)
      (terms.Met Fair step step.outputMapping context) Fair)
    (havailable : terms.Available base (flow.steps.map fun step => [step]))
    (hbase : ∀ label, executor.validateFlowSchema label input flow.inputSchemaRef flowInputStepIndex "flow_input" = .ok none →
      ∀ state, Inv state → ∀ key, base key → (input.update state.dynamicParams).contains key = true) :
    (frame Inv).Given A (executor.executeLinear lane nested flow flowName input cancellation)
      (terms.Closed flow.steps) Fair := by
  unfold executeLinear
  refine .modify_bind (fun _ => hstable.version) (.ask_bind fun traceId _ => .ask_bind fun _ _ => ?_)
  refine (given_ofExcept fun e => ht.validateFlowSchema).bind fun inputFailure hinput => ?_
  cases inputFailure with
  | some record => exact inputRefused_given ht hinput
  | none =>
    refine .get_bind fun state hstate => .ask_bind fun _ _ => ?_
    exact linearFrom_given ht hstep havailable (hbase _ hinput state hstate)

end Linear

-- DAG flows

section Dag

variable {terms : Terms DAGFlowStep} {base : String → Prop} {flow : DAGFlow} {step : DAGFlowStep}
variable {done now : List DAGFlowStep} {context outputs : Dict} {log records : List StepRecord}

/-- Inside a level, behind its steps `now`: their outputs are kept apart from the context. -/
def Terms.Within (terms : Terms DAGFlowStep) (base : String → Prop) (steps done now : List DAGFlowStep)
    (context outputs : Dict) (log : List StepRecord) : Prop :=
  (∀ record ∈ log, terms.Regular record) → terms.Orderly steps log ∧
    (∀ key, base key → context.contains key = true) ∧
    (∀ step ∈ done, ∀ key, terms.gives step key → context.contains key = true) ∧
    ∀ step ∈ now, ∀ key, terms.gives step key → outputs.contains key = true

theorem Terms.Within.standing (h : terms.Within base steps done now context outputs log) :
    terms.Standing base steps done context log := fun hregular =>
  ⟨(h hregular).1, (h hregular).2.1, (h hregular).2.2.1⟩

theorem Terms.Within.merge (h : terms.Within base steps done now context outputs log) :
    terms.Standing base steps (done ++ now) (context.update outputs) log := by
  intro hregular
  obtain ⟨horderly, hbase, hdone, hnow⟩ := h hregular
  refine ⟨horderly, fun key hk => by simp [hbase key hk], fun step hstep key hk => ?_⟩
  rcases List.mem_append.1 hstep with hstep | hstep
  · simp [hdone step hstep key hk]
  · simp [hnow step hstep key hk]

theorem Terms.Within.snoc (h : terms.Within base steps done now context outputs log) (hstep : step ∈ steps)
    (hr : (∀ record ∈ log, terms.Regular record) → terms.InOrder step record)
    (hgives : terms.Regular record → ∀ key, terms.gives step key → mapped.contains key = true) :
    terms.Within base steps done (now ++ [step]) context (outputs.update mapped) (log ++ [record]) := by
  intro hregular
  have hbefore : ∀ record ∈ log, terms.Regular record := fun record hmem =>
    hregular record (List.mem_append_left _ hmem)
  obtain ⟨horderly, hbase, hdone, hnow⟩ := h hbefore
  refine ⟨horderly.snoc hstep (hr hbefore), hbase, hdone, fun other hother key hk => ?_⟩
  rcases List.mem_append.1 hother with hother | hother
  · simp [hnow other hother key hk]
  · obtain rfl := List.mem_singleton.1 hother
    simp [hgives (hregular record (by simp)) key hk]

/-- A record that stands in for the record of a step is in order if that was. -/
def Terms.Replaces (terms : Terms DAGFlowStep) (step : DAGFlowStep) : Prop :=
  ∀ record name e, terms.InOrder step record → record.success = true →
    name = record.toolName ∨ step.displayName? = some name → Untroubled (some e.typeName) →
      terms.InOrder step (replaced record name e)

theorem placeOutputs_given {record : StepRecord} (ht : Trusted executor reflection A Fair)
    (hsuccess : record.success = true) (hmet : terms.Met Fair step step.outputMapping context record) :
    (frame Inv).Given A (placeOutputs info step context record outputs)
      (fun placed => terms.Regular record → ∀ key, terms.gives step key → placed.1.contains key = true) Fair := by
  unfold placeOutputs
  split
  · exact given_raise (ht.own _ rfl)
  next produced hproduced =>
  refine (given_displayName (ht.own _ rfl)).bind fun name _ => ?_
  refine (given_ofExcept fun e => hmet.fair hsuccess produced hproduced _ _ _).bind fun mapped hmapped => ?_
  exact .ask_bind fun _ _ => .pure fun hregular => hmet.gives hregular hsuccess produced hproduced _ _ _ hmapped

variable {state : DagState} {level : LevelState}

/-- The state inside a level, with no step marked as skipped. -/
def LevelStands (terms : Terms DAGFlowStep) (base : String → Prop) (steps done now : List DAGFlowStep)
    (state : DagState) (level : LevelState) : Prop :=
  level.skipped = [] ∧ terms.Within base steps done now state.context level.outputs (state.log ++ level.records)

theorem dagCapabilityStep_given (ht : Trusted executor reflection A Fair) (hmem : step ∈ flow.steps)
    (hstep : ∀ stepIndex context, (frame Inv).Given A (executor.runCapabilityStep info stepIndex step context)
      (terms.Met Fair step step.outputMapping context) Fair)
    (hreplaces : terms.Replaces step)
    (havailable : ∀ key, terms.needs step key → base key ∨ ∃ earlier ∈ done, terms.gives earlier key)
    (h : LevelStands terms base flow.steps done now state level) :
    (frame Inv).Given A (executor.dagCapabilityStep info step state level)
      (Stage (LevelStands terms base flow.steps done (now ++ [step]) state) (terms.Closed flow.steps)) Fair := by
  unfold dagCapabilityStep
  refine (hstep _ _).bind fun record hmet => ?_
  have hinOrder := fun hregular => hmet.inOrder (h.2.standing.needs havailable hregular)
  dsimp only
  split
  · exact ended_given ht fun result hlog => h.2.standing.closed hmem hinOrder (by simpa using hlog)
  next hsuccess =>
  have hsuccess : record.success = true := by simpa using hsuccess
  refine (placeOutputs_given ht hsuccess hmet).bind fun placed hgives => ?_
  obtain ⟨mapped, clash⟩ := placed
  cases clash with
  | some key =>
    refine ended_given ht fun result hlog => h.2.standing.closed hmem (fun hregular => ?_) hlog
    exact hreplaces _ _ _ (hinOrder hregular) hsuccess (.inl rfl) (by simp [Untroubled, Exc.typeName])
  | none => exact .pure ⟨h.1, by simpa using h.2.snoc hmem hinOrder hgives⟩

/-- A step without branches selects no target. -/
theorem routeBranch_unbranched (hb : step.branches = []) :
    executor.routeBranch step context levelOutputs stepOutputs = .ok (.selected none) := by
  simp [routeBranch, hb]

theorem placeToolRecord_given {record : StepRecord} (ht : Trusted executor reflection A Fair)
    (hmem : step ∈ flow.steps) (hb : step.branches = []) (hsuccess : record.success = true)
    (hmet : terms.Met Fair step step.outputMapping state.context record) (hreplaces : terms.Replaces step)
    (havailable : ∀ key, terms.needs step key → base key ∨ ∃ earlier ∈ done, terms.gives earlier key)
    (h : LevelStands terms base flow.steps done now state level) :
    (frame Inv).Given A (executor.placeToolRecord info flow step state level record)
      (Stage (LevelStands terms base flow.steps done (now ++ [step]) state) (terms.Closed flow.steps)) Fair := by
  have hinOrder := fun hregular => hmet.inOrder (h.2.standing.needs havailable hregular)
  unfold placeToolRecord
  refine (placeOutputs_given ht hsuccess hmet).bind fun placed hgives => ?_
  obtain ⟨mapped, clash⟩ := placed
  refine (given_displayName (ht.own _ rfl)).bind fun name hname => ?_
  cases clash with
  | some key =>
    refine ended_given ht fun result hlog => h.2.standing.closed hmem (fun hregular => ?_) hlog
    exact hreplaces _ _ _ (hinOrder hregular) hsuccess (.inr hname) (by simp [Untroubled, Exc.typeName])
  | none =>
    dsimp only
    rw [routeBranch_unbranched hb]
    exact .bind (.pure rfl) fun outcome houtcome => houtcome ▸
      .pure ⟨h.1, by simpa using h.2.snoc hmem hinOrder hgives⟩

/-- One step of a level. -/
theorem dagStep_given (ht : Trusted executor reflection A Fair) (hmem : step ∈ flow.steps)
    (hb : step.branches = [])
    (htool : step.stepType = .tool → ∀ info context, (frame Inv).Given A
      (executor.executeStep nested info (proxy step) context cancellation)
      (terms.Met Fair step step.outputMapping context) Fair)
    (hcapability : step.stepType = .capability → ∀ info stepIndex context, (frame Inv).Given A
      (executor.runCapabilityStep info stepIndex step context) (terms.Met Fair step step.outputMapping context) Fair)
    (hreplaces : terms.Replaces step)
    (havailable : ∀ key, terms.needs step key → base key ∨ ∃ earlier ∈ done, terms.gives earlier key)
    (h : LevelStands terms base flow.steps done now state level) :
    (frame Inv).Given A (executor.dagStep nested info flow cancellation step state level)
      (Stage (LevelStands terms base flow.steps done (now ++ [step]) state) (terms.Closed flow.steps)) Fair := by
  have hrun : skipDecision level.skipped step = false := by
    rw [h.1]
    cases hd : step.dependsOn <;> simp [skipDecision, hd]
  unfold dagStep
  refine .ask_bind fun _ _ => ?_
  rw [if_neg (by simp [hrun])]
  split
  · next htype => exact dagCapabilityStep_given ht hmem (hcapability htype info) hreplaces havailable h
  next htype =>
  unfold dagToolStep
  refine .attempt_bind (htool htype _ _) (fun record hmet => ?_) fun e he => ?_
  · dsimp only
    have hinOrder := fun hregular => hmet.inOrder (h.2.standing.needs havailable hregular)
    split
    · exact ended_given ht fun result hlog => h.2.standing.closed hmem hinOrder (by simpa using hlog)
    · next hsuccess => exact placeToolRecord_given ht hmem hb (by simpa using hsuccess) hmet hreplaces havailable h
  · dsimp only
    split
    · exact reraise_given ht
    · next heq => exact .throw (Except.error.inj heq ▸ he)
    · next heq => cases heq

/-- What the level loop asks of a flow. -/
structure Supplied (terms : Terms DAGFlowStep) (Inv : RunScopedState → Prop) (A : Event → Prop)
    (Fair : Exc → Prop) (executor : Executor) (nested : Nested) (cancellation : Cancellation)
    (steps : List DAGFlowStep) : Prop where
  unbranched : ∀ step ∈ steps, step.branches = []
  tool : ∀ step ∈ steps, step.stepType = .tool → ∀ info context, (frame Inv).Given A
    (executor.executeStep nested info (proxy step) context cancellation)
    (terms.Met Fair step step.outputMapping context) Fair
  capability : ∀ step ∈ steps, step.stepType = .capability → ∀ info stepIndex context, (frame Inv).Given A
    (executor.runCapabilityStep info stepIndex step context) (terms.Met Fair step step.outputMapping context) Fair
  replaces : ∀ step ∈ steps, terms.Replaces step

theorem dagLevelSteps_given (ht : Trusted executor reflection A Fair)
    (hs : Supplied terms Inv A Fair executor nested cancellation flow.steps) (todo : List DAGFlowStep)
    (hmem : ∀ step ∈ todo, step ∈ flow.steps)
    (havailable : ∀ step ∈ todo, ∀ key, terms.needs step key → base key ∨ ∃ earlier ∈ done, terms.gives earlier key)
    (h : LevelStands terms base flow.steps done now state level) :
    (frame Inv).Given A (executor.dagLevelSteps nested info flow cancellation state todo level)
      (Stage (LevelStands terms base flow.steps done (now ++ todo) state) (terms.Closed flow.steps)) Fair := by
  induction todo generalizing now level with
  | nil => exact .pure (by simpa [Stage] using h)
  | cons step rest ih =>
    have hstep := hmem step (by simp)
    unfold dagLevelSteps
    refine .bind (dagStep_given ht hstep (hs.unbranched step hstep) (hs.tool step hstep)
      (hs.capability step hstep) (hs.replaces step hstep) (havailable step (by simp)) h) fun progress hprogress => ?_
    cases progress with
    | ended result => exact .pure hprogress
    | going level =>
      rw [List.append_cons]
      exact ih (fun step hm => hmem step (by simp [hm])) (fun step hm => havailable step (by simp [hm])) hprogress

/-- Between two levels. -/
def StateStands (terms : Terms DAGFlowStep) (base : String → Prop) (steps done : List DAGFlowStep)
    (state : DagState) : Prop :=
  state.skipped = [] ∧ terms.Standing base steps done state.context state.log

theorem closeLevel_given (ht : Trusted executor reflection A Fair) :
    (frame Inv).Given A (executor.closeLevel info flow levelIndex context outputs log)
      (fun merged => merged = context.update outputs) Fair := by
  unfold closeLevel
  refine .ask_bind fun _ _ => ?_
  refine (given_ofExcept fun e h => ht.own e (mergeMapped_error h)).bind fun merged hmerged => ?_
  exact (saveSnapshot_given ht).bind fun _ _ => .pure (mergeMapped_ok hmerged)

theorem dagLevels_given (ht : Trusted executor reflection A Fair)
    (hs : Supplied terms Inv A Fair executor nested cancellation flow.steps) {all : List (List DAGFlowStep)}
    (havailable : terms.Available base all) (hmem : ∀ step ∈ all.flatten, step ∈ flow.steps)
    (before rest : List (List DAGFlowStep)) (hall : all = before ++ rest) {levelIndex : Nat}
    (h : StateStands terms base flow.steps before.flatten state) :
    (frame Inv).Given A (executor.dagLevels nested info flow cancellation rest levelIndex state)
      (Stage (StateStands terms base flow.steps all.flatten) (terms.Closed flow.steps)) Fair := by
  induction rest generalizing before levelIndex state with
  | nil =>
    rw [List.append_nil] at hall
    exact .pure (hall ▸ h)
  | cons todo rest ih =>
    have hstart : LevelStands terms base flow.steps before.flatten [] state
        { flatIndex := state.flatIndex, skipped := state.skipped } := by
      refine ⟨h.1, fun hregular => ?_⟩
      rw [List.append_nil] at hregular ⊢
      obtain ⟨horderly, hbase, hdone⟩ := h.2 hregular
      exact ⟨horderly, hbase, hdone, by simp⟩
    have hlevel : (frame Inv).Given A (executor.dagLevel nested info flow cancellation levelIndex todo state)
        (Stage (StateStands terms base flow.steps (before ++ [todo]).flatten) (terms.Closed flow.steps)) Fair := by
      unfold dagLevel
      refine (checkCancellation_given ht).bind fun _ _ => ?_
      refine .bind (dagLevelSteps_given ht hs todo (fun step hm => hmem step (by simp [hall, hm]))
        (havailable _ _ _ hall) hstart) fun progress hprogress => ?_
      cases progress with
      | ended result => exact .pure hprogress
      | going level =>
        refine (closeLevel_given ht).bind fun merged hmerged => .pure ?_
        subst hmerged
        exact ⟨hprogress.1, by simpa using hprogress.2.merge⟩
    unfold dagLevels
    refine hlevel.bind fun progress hprogress => ?_
    cases progress with
    | ended result => exact .pure hprogress
    | going state => exact ih (before ++ [todo]) (by simp [hall]) hprogress

-- DAG flows in the asynchronous lane

/-- What the asynchronous level loop asks of a flow. -/
structure SuppliedAsync (terms : Terms DAGFlowStep) (Inv : RunScopedState → Prop) (A : Event → Prop)
    (Fair : Exc → Prop) (executor : Executor) (nested : Nested) (cancellation : Cancellation)
    (steps : List DAGFlowStep) : Prop where
  tools : ∀ step ∈ steps, step.stepType = .tool
  tool : ∀ step ∈ steps, ∀ info context, (frame Inv).Given A
    (executor.executeStepAsync nested info (proxyAsync step) context cancellation)
    (terms.Met Fair step step.outputMapping context) Fair
  replaces : ∀ step ∈ steps, terms.Replaces step

section

variable {indexed : List (Nat × DAGFlowStep)} {Q : Nat × DAGFlowStep → StepRecord → Prop}

theorem dagTasksInOrder_given (h : ∀ entry ∈ indexed, (frame Inv).Given A
      (executor.dagTask nested info cancellation context entry.1 entry.2) (Q entry) Fair) :
    (frame Inv).Given A (executor.dagTasksInOrder nested info cancellation context indexed)
      (List.Forall₂ Q indexed) Fair := by
  induction indexed with
  | nil => exact .pure .nil
  | cons entry rest ih =>
    unfold dagTasksInOrder
    refine (h entry (by simp)).bind fun record hrecord => ?_
    exact (ih fun entry hmem => h entry (by simp [hmem])).bind fun records hrecords => .pure (.cons hrecord hrecords)

theorem runDagLevelAsync_given (h : ∀ entry ∈ indexed, (frame Inv).Given A
      (executor.dagTask nested info cancellation context entry.1 entry.2) (Q entry) Fair) :
    (frame Inv).Given A (executor.runDagLevelAsync nested info cancellation context indexed)
      (List.Forall₂ Q indexed) Fair := by
  unfold runDagLevelAsync
  split
  · exact dagTasksInOrder_given h
  · exact .ask_bind fun choices _ => .gather h

end

theorem processRecords_given (ht : Trusted executor reflection A Fair) {todo : List DAGFlowStep}
    (hmem : ∀ step ∈ todo, step ∈ flow.steps) (hreplaces : ∀ step ∈ flow.steps, terms.Replaces step)
    (havailable : ∀ step ∈ todo, ∀ key, terms.needs step key → base key ∨ ∃ earlier ∈ done, terms.gives earlier key)
    (hrecords : List.Forall₂ (fun step => terms.Met Fair step step.outputMapping context) todo records)
    (h : terms.Within base flow.steps done now context outputs log) :
    (frame Inv).Given A (executor.processRecords info context (todo.zip records) log outputs)
      (Stage (fun state => terms.Within base flow.steps done (now ++ todo) context state.2 state.1)
        (terms.Closed flow.steps)) Fair := by
  induction hrecords generalizing now log outputs with
  | nil => exact .pure (by simpa [Stage] using h)
  | @cons step record rest records hmet _ ih =>
    have hstep := hmem step (by simp)
    have hinOrder := fun hregular => hmet.inOrder (h.standing.needs (havailable step (by simp)) hregular)
    rw [List.zip_cons_cons]
    unfold processRecords
    split
    · exact ended_given ht fun result hlog => h.standing.closed hstep hinOrder hlog
    next hsuccess =>
    have hsuccess : record.success = true := by simpa using hsuccess
    refine (placeOutputs_given ht hsuccess hmet).bind fun placed hgives => ?_
    obtain ⟨mapped, clash⟩ := placed
    cases clash with
    | some key =>
      refine (given_displayName (ht.own _ rfl)).bind fun name hname => ?_
      refine ended_given ht fun result hlog => h.standing.closed hstep (fun hregular => ?_) hlog
      exact hreplaces step hstep _ _ _ (hinOrder hregular) hsuccess (.inr hname) (by simp [Untroubled, Exc.typeName])
    | none =>
      rw [List.append_cons now]
      exact ih (fun step hm => hmem step (by simp [hm])) (fun step hm => havailable step (by simp [hm]))
        (h.snoc hstep hinOrder hgives)

theorem dagLevelAsync_given (ht : Trusted executor reflection A Fair)
    (hs : SuppliedAsync terms Inv A Fair executor nested cancellation flow.steps) {todo : List DAGFlowStep}
    (hmem : ∀ step ∈ todo, step ∈ flow.steps) {state : DagState}
    (havailable : ∀ step ∈ todo, ∀ key, terms.needs step key → base key ∨ ∃ earlier ∈ done, terms.gives earlier key)
    (h : terms.Standing base flow.steps done state.context state.log) :
    (frame Inv).Given A (executor.dagLevelAsync nested info flow cancellation levelIndex todo state)
      (Stage (fun state => terms.Standing base flow.steps (done ++ todo) state.context state.log)
        (terms.Closed flow.steps)) Fair := by
  unfold dagLevelAsync
  refine (checkCancellation_given ht).bind fun _ _ => ?_
  dsimp only
  generalize hlevel : List.map _ todo.zipIdx = indexed
  have hindexed : indexed.map Prod.snd = todo := by
    rw [← hlevel, List.map_map]
    exact List.zipIdx_map_fst 0 todo
  have hentry : ∀ entry ∈ indexed, entry.2 ∈ flow.steps := fun entry hm =>
    hmem _ (hindexed ▸ List.mem_map_of_mem hm)
  rw [List.find?_eq_none.2 fun entry hm => by simp [hs.tools _ (hentry entry hm)]]
  refine (runDagLevelAsync_given fun entry hm => hs.tool entry.2 (hentry entry hm) _ _).bind fun records hrecords => ?_
  have hrecords : List.Forall₂ (fun step => terms.Met Fair step step.outputMapping state.context) todo records :=
    hindexed ▸ List.forall₂_map_left_iff.2 hrecords
  have hstart : terms.Within base flow.steps done [] state.context .empty state.log := fun hregular =>
    ⟨(h hregular).1, (h hregular).2.1, (h hregular).2.2, by simp⟩
  refine .bind (processRecords_given ht hmem hs.replaces havailable hrecords hstart) fun progress hprogress => ?_
  cases progress with
  | ended result => exact .pure hprogress
  | going level =>
    refine (closeLevel_given ht).bind fun merged hmerged => .pure ?_
    subst hmerged
    exact Terms.Within.merge hprogress

theorem dagLevelsAsync_given (ht : Trusted executor reflection A Fair)
    (hs : SuppliedAsync terms Inv A Fair executor nested cancellation flow.steps) {all : List (List DAGFlowStep)}
    (havailable : terms.Available base all) (hmem : ∀ step ∈ all.flatten, step ∈ flow.steps)
    (before rest : List (List DAGFlowStep)) (hall : all = before ++ rest) {levelIndex : Nat} {state : DagState}
    (h : terms.Standing base flow.steps before.flatten state.context state.log) :
    (frame Inv).Given A (executor.dagLevelsAsync nested info flow cancellation rest levelIndex state)
      (Stage (fun state => terms.Standing base flow.steps all.flatten state.context state.log)
        (terms.Closed flow.steps)) Fair := by
  induction rest generalizing before levelIndex state with
  | nil =>
    rw [List.append_nil] at hall
    exact .pure (hall ▸ h)
  | cons todo rest ih =>
    unfold dagLevelsAsync
    refine .bind (dagLevelAsync_given ht hs (fun step hm => hmem step (by simp [hall, hm]))
      (havailable _ _ _ hall) h) fun progress hprogress => ?_
    cases progress with
    | ended result => exact .pure hprogress
    | going state =>
      refine ih (before ++ [todo]) (by simp [hall]) ?_
      simpa [Stage] using hprogress

-- Fresh runs

section

variable (ht : Trusted executor reflection A Fair) (hstable : Stable Inv)
  (hfresh : ∀ state, Inv state → state.resumeSnapshot = none)
  (havailable : ∀ levels, computeDagLevels executor.platform.hashing flow = .ok levels → terms.Available base levels)
  (hlevels : ∀ e, computeDagLevels executor.platform.hashing flow = .error e → Fair e)
  (hbase : ∀ label, executor.validateFlowSchema label input flow.inputSchemaRef flowInputStepIndex "flow_input" = .ok none →
    ∀ state, Inv state → ∀ key, base key → (input.update state.dynamicParams).contains key = true)
include ht hstable hfresh havailable hlevels hbase

theorem executeDagFlow_given
    (hs : ∀ levels, computeDagLevels executor.platform.hashing flow = .ok levels →
      Supplied terms Inv A Fair executor nested cancellation flow.steps) :
    (frame Inv).Given A (executor.executeDagFlow nested flow input cancellation) (terms.Closed flow.steps) Fair := by
  unfold executeDagFlow
  refine .modify_bind (fun _ => hstable.version) (.get_bind fun state hstate => ?_)
  split
  · next snapshot hsnapshot => exact nomatch (hfresh state hstate).symm.trans hsnapshot
  refine .ask_bind fun traceId _ => .ask_bind fun _ _ => ?_
  refine (given_ofExcept fun e => ht.validateFlowSchema).bind fun inputFailure hinput => ?_
  cases inputFailure with
  | some record => exact inputRefused_given ht hinput
  | none =>
    refine .get_bind fun state hstate => (given_ofExcept hlevels).bind fun levels hcomputed => .ask_bind fun _ _ => ?_
    obtain ⟨height, hlevelled⟩ := Topology.computeDagLevels_levelled hcomputed
    have hstart : StateStands terms base flow.steps ([] : List (List DAGFlowStep)).flatten
        { context := input.update state.dynamicParams, log := [], flatIndex := 0 } :=
      ⟨rfl, fun _ => ⟨by simp [Terms.Orderly], hbase _ hinput state hstate, by simp⟩⟩
    unfold dagFrom
    refine .bind (dagLevels_given ht (hs levels hcomputed) (havailable levels hcomputed)
      (fun step hm => hlevelled.perm.mem_iff.1 hm) [] levels rfl hstart) fun progress hprogress => ?_
    cases progress with
    | ended result => exact .pure hprogress
    | going state => exact (finishFlow_given ht).post fun result h => hprogress.2.finished h.1

theorem executeDagFlowAsync_given
    (hs : ∀ levels, computeDagLevels executor.platform.hashing flow = .ok levels →
      SuppliedAsync terms Inv A Fair executor nested cancellation flow.steps) :
    (frame Inv).Given A (executor.executeDagFlowAsync nested flow input cancellation) (terms.Closed flow.steps) Fair := by
  unfold executeDagFlowAsync
  refine .modify_bind (fun _ => hstable.version) ((given_orRefuse hlevels).bind fun levels hcomputed => ?_)
  refine .get_bind fun state hstate => ?_
  split
  · next snapshot hsnapshot => exact nomatch (hfresh state hstate).symm.trans hsnapshot
  refine .ask_bind fun traceId _ => .ask_bind fun _ _ => ?_
  refine (given_ofExcept fun e => ht.validateFlowSchema).bind fun inputFailure hinput => ?_
  cases inputFailure with
  | some record => exact inputRefused_given ht hinput
  | none =>
    refine .get_bind fun state hstate => .ask_bind fun _ _ => ?_
    obtain ⟨height, hlevelled⟩ := Topology.computeDagLevels_levelled hcomputed
    have hstart : terms.Standing base flow.steps ([] : List (List DAGFlowStep)).flatten
        (input.update state.dynamicParams) [] :=
      fun _ => ⟨by simp [Terms.Orderly], hbase _ hinput state hstate, by simp⟩
    unfold dagFromAsync
    refine .bind (dagLevelsAsync_given ht (hs levels hcomputed) (havailable levels hcomputed)
      (fun step hm => hlevelled.perm.mem_iff.1 hm) [] levels rfl hstart) fun progress hprogress => ?_
    cases progress with
    | ended result => exact .pure hprogress
    | going state => exact (finishFlow_given ht).post fun result h => Terms.Standing.finished hprogress h.1

end

end Dag

end ChainWeaver.Executor
