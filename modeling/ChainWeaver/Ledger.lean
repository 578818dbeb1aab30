import ChainWeaver.Success
import ChainWeaver.TraceSets

/-!
# Accounts of a run

The step loops, for any account of where a run stands and of the results it ends in.
What the account says of one step and of one merge, it says of whole runs.
-/

namespace ChainWeaver.Executor

open Interaction (Frame)

/-- What is known of a run that stands behind `index` steps, with the context its next
step reads, the outputs of the steps of its level so far, and its log. -/
structure Ledger (α : Type) where
  At : Nat → Dict → Dict → List StepRecord → Prop
  /-- The record of the step at an index that ran in a context. -/
  Made : Nat → α → Dict → StepRecord → Prop
  Over : ExecutionResult → Prop

variable {α : Type}

/-- The record of a flow-level check that failed. -/
structure Refused (stepIndex : Int) (record : StepRecord) : Prop where
  stepIndex : record.stepIndex = stepIndex
  failed : record.success = false
  subResult : record.subResult = none

theorem flowRecord_refused {flowName : String} {payload : Dict} {detail label : String} {stepIndex : Int} :
    Refused stepIndex (flowRecord flowName payload stepIndex detail label) := ⟨rfl, rfl, rfl⟩

/-- What `_make_result` gives. -/
structure Reports (executor : Executor) (success : Bool) (output : Option Dict) (log : List StepRecord)
    (toolStepCount : Option Nat) (result : ExecutionResult) : Prop where
  success : result.success = success
  finalOutput : result.finalOutput = output
  executionLog : result.executionLog = log
  costReport : result.costReport = executor.costReport log toolStepCount

/-- The account goes on with every step and every merge. Where `unique` holds, a merge
binds no key again. -/
structure Ledger.Sound (ledger : Ledger α) (executor : Executor) (mapping : α → Option (OrderedDict String))
    (order : List α) (unique : Prop) : Prop where
  placed : ∀ {index step context outputs log record produced name stepIndex mapped}, order[index]? = some step →
    ledger.At index context outputs log → ledger.Made index step context record → record.success = true →
      record.outputs = some produced → applyOutputMapping produced (mapping step) name stepIndex = .ok mapped →
        ledger.At (index + 1) context (outputs.update mapped) (log ++ [record])
  merged : ∀ {index context outputs log}, ledger.At index context outputs log →
    (unique → collisions context outputs = []) → ledger.At index (context.update outputs) .empty log
  failed : ∀ {index step context outputs log record last result}, order[index]? = some step →
    ledger.At index context outputs log → ledger.Made index step context record →
      last.stepIndex = record.stepIndex → last.success = false →
        executor.Reports false none (log ++ [last]) none result → ledger.Over result
  finished : ∀ {context log result}, ledger.At order.length context .empty log →
    executor.Reports true (some context) log none result → ledger.Over result
  refused : ∀ {context log result record}, ledger.At order.length context .empty log →
    Refused order.length record → executor.Reports false none (log ++ [record]) (some log.length) result →
      ledger.Over result

/-- The errors that leave a run whatever its steps do. -/
structure Surroundings (executor : Executor) (A : Event → Prop) (E : Exc → Prop) (header : FlowHeader) : Prop where
  cancelled : ∀ flowName stepIndex result late cancelled, E (.flowCancelled flowName stepIndex result late cancelled)
  save : ∀ snapshot e, A ⟨.save, snapshot, .error e⟩ → E e
  delete : ∀ traceId e, A ⟨.delete, traceId, .error e⟩ → E e
  schema : ∀ {ref flowName payload stepIndex label e},
    ref ∈ [header.inputSchemaRef, header.outputSchemaRef, header.contextSchemaRef] →
      executor.validateFlowSchema flowName payload ref stepIndex label = .error e → E e
  collision : ∀ {context outputs flowName stepIndex name e},
    mergeMapped context outputs header.onContextCollision flowName stepIndex name = .error e → E e

/-- The errors that the record of a step can cause behind it. -/
structure Ledger.Escapes (ledger : Ledger α) (E : Exc → Prop) (view : α → FlowStep) (order : List α) : Prop where
  unnamed : ∀ step ∈ order, (view step).displayName? = none → E .assertion
  outputless : ∀ {index step context record}, order[index]? = some step →
    ledger.Made index step context record → record.success = true → record.outputs = none →
      E .assertion ∧ ∀ message, E (.other "RuntimeError" message)
  unmapped : ∀ {index step context record produced name stepIndex e}, order[index]? = some step →
    ledger.Made index step context record → record.success = true → record.outputs = some produced →
      applyOutputMapping produced (view step).outputMapping name stepIndex = .error e → E e

/-- Nothing is asked of the errors. -/
theorem surroundings_any : Surroundings executor A anyError header where
  cancelled _ _ _ _ _ := trivial
  save _ _ _ := trivial
  delete _ _ _ := trivial
  schema _ _ := trivial
  collision _ := trivial

theorem Ledger.escapes_any {ledger : Ledger α} {view : α → FlowStep} {order : List α} :
    ledger.Escapes anyError view order where
  unnamed _ _ _ := trivial
  outputless _ _ _ _ := ⟨trivial, fun _ => trivial⟩
  unmapped _ _ _ _ _ := trivial

-- The parts of a loop

section

variable {executor : Executor} {Inv : RunScopedState → Prop} {A : Event → Prop} {E : Exc → Prop}
variable {nested : Nested} {info : RunInfo} {cancellation : Cancellation}
variable {ledger : Ledger α} {header : FlowHeader} {view : α → FlowStep} {order : List α} {unique : Prop}
variable {mapping : α → Option (OrderedDict String)}

theorem given_name {step : FlowStep} (h : step.displayName? = none → E .assertion) :
    (frame Inv).Given A (displayName step) (fun name => step.displayName? = some name) E := by
  unfold displayName
  cases hname : step.displayName? with
  | none => exact given_raise (h hname)
  | some name => exact .pure rfl

theorem makeResult_reports (hdelete : ∀ traceId e, A ⟨.delete, traceId, .error e⟩ → E e) :
    (frame Inv).Given A (executor.makeResult info success output log count)
      (executor.Reports success output log count) E := by
  unfold makeResult
  refine .get_bind fun state _ => .bind (Q := fun _ => True) ?_ fun _ _ => .ask_bind fun _ _ => .pure ⟨rfl, rfl, rfl, rfl⟩
  unfold deleteSnapshot
  split
  · exact .ask_bind fun reply hreply => (given_ofExcept fun e h => hdelete _ e (h ▸ hreply)).post fun _ _ => trivial
  · exact .pure trivial

theorem saveSnapshot_escapes (flow : AnyFlow) (hsave : ∀ snapshot e, A ⟨.save, snapshot, .error e⟩ → E e)
    (hunnamed : ∀ step ∈ flow.steps, step.displayName? = none → E .assertion) :
    (frame Inv).Given A (executor.saveSnapshot info flow context log completed) (fun _ => True) E := by
  have hhashes : ∀ {steps : List FlowStep} {hashes e}, (∀ step ∈ steps, step.displayName? = none → E .assertion) →
      executor.toolSchemaHashes steps hashes = .error e → E e := by
    intro steps
    induction steps with
    | nil => exact fun _ h => nomatch h
    | cons step rest ih =>
      intro hashes e hnames h
      unfold Executor.toolSchemaHashes at h
      split at h
      · next hname => exact Except.error.inj h ▸ hnames step (by simp) hname
      · split at h <;> exact ih (fun step hmem => hnames step (by simp [hmem])) h
  unfold saveSnapshot
  refine .get_bind fun state _ => ?_
  split
  · refine (given_ofExcept fun e h => hhashes hunnamed h).bind fun hashes _ => ?_
    exact .ask_bind fun reply hreply => (given_ofExcept fun e h => hsave _ e (h ▸ hreply)).post fun _ _ => trivial
  · exact .pure trivial

theorem checkCancellation_escapes (hs : Surroundings executor A E header) :
    (frame Inv).Given A (executor.checkCancellation info index cancellation log) (fun _ => True) E := by
  have hlate : (frame Inv).Given A (deadlineExceeded cancellation) (fun _ => True) E := by
    unfold deadlineExceeded
    split
    · exact .pure trivial
    · exact .ask_bind fun _ _ => .pure trivial
  have hcancelled : (frame Inv).Given A (tokenCancelled cancellation) (fun _ => True) E := by
    unfold tokenCancelled
    split
    · exact .ask fun _ _ => trivial
    · exact .pure trivial
  unfold checkCancellation
  refine hlate.bind fun late _ => hcancelled.bind fun cancelled _ => ?_
  split
  · exact .ask_bind fun _ _ => (makeResult_reports hs.delete).bind fun _ _ => .throw (hs.cancelled _ _ _ _ _)
  · exact .pure trivial

theorem reraise_escapes (hs : Surroundings executor A E header) {Q : β → Prop} :
    (frame Inv).Given A
      (executor.reraiseSubflowCancellation info step index log sub message late cancelled : Exec β) Q E := by
  unfold reraiseSubflowCancellation
  exact (makeResult_reports hs.delete).bind fun _ _ => .throw (hs.cancelled _ _ _ _ _)

/-- A run that ends with the record of its last step. -/
theorem ended_over (hs : Surroundings executor A E header) {P : β → Prop}
    (h : ∀ result, executor.Reports false none log none result → ledger.Over result) :
    (frame Inv).Given A (do pure (Progress.ended (← executor.makeResult info false none log)))
      (Stage P ledger.Over) E :=
  (makeResult_reports hs.delete).bind fun result hresult => .pure (h result hresult)

/-- The checks behind the last step. -/
theorem finishFlow_over (hsound : ledger.Sound executor mapping order unique)
    (hs : Surroundings executor A E header) (hcount : stepCount = (order.length : Int))
    (h : ledger.At order.length context .empty log) :
    (frame Inv).Given A (executor.finishFlow info header stepCount checkContext context log) ledger.Over E := by
  subst hcount
  have hrefused : ∀ {ref label record}, executor.validateFlowSchema info.flowName context ref
      (order.length : Int) label = .ok (some record) → (frame Inv).Given A
        (executor.makeResult info false none (log ++ [record]) (some log.length)) ledger.Over E := by
    intro ref label record hrecord
    obtain ⟨detail, rfl⟩ := validateFlowSchema_some hrecord
    exact (makeResult_reports hs.delete).post fun result hresult =>
      hsound.refused h flowRecord_refused hresult
  unfold finishFlow
  refine (given_ofExcept fun e => hs.schema (by simp)).bind fun outputFailure houtput => ?_
  cases outputFailure with
  | some record => exact hrefused houtput
  | none =>
    refine .ask_bind fun _ _ => ?_
    have hcontext : (if checkContext = true then header.contextSchemaRef else none) = none ∨
        (if checkContext = true then header.contextSchemaRef else none) = header.contextSchemaRef := by
      split <;> simp
    refine (given_ofExcept fun e he => ?_).bind fun contextFailure hfailure => ?_
    · rcases hcontext with hcontext | hcontext <;> rw [hcontext] at he
      · cases he
      · exact hs.schema (by simp) he
    cases contextFailure with
    | some record => exact hrefused hfailure
    | none =>
      exact (makeResult_reports hs.delete).post fun result hresult =>
        hsound.finished h hresult

theorem mergeMapped_merged (h : mergeMapped context outputs policy flowName stepIndex name = .ok merged) :
    merged = context.update outputs ∧ (policy = .error → collisions context outputs = []) := by
  unfold mergeMapped at h
  split at h
  · cases h
  next hpolicy =>
  refine ⟨(Except.ok.inj h).symm, fun herror => ?_⟩
  cases hkeys : collisions context outputs with
  | nil => rfl
  | cons key keys => exact absurd hkeys (hpolicy key keys herror)

end

-- Linear flows

section

variable {executor : Executor} {Inv : RunScopedState → Prop} {A : Event → Prop} {E : Exc → Prop}
variable {nested : Nested} {info : RunInfo} {cancellation : Cancellation} {flow : Flow} {mode : LinearMode}
variable {ledger : Ledger FlowStep} {order : List FlowStep} {unique : Prop} {index : Nat} {step : FlowStep} {context : Dict}
variable {log : List StepRecord}

/-- What the loop of a linear flow asks of the account. -/
structure Ledger.Linear (ledger : Ledger FlowStep) (executor : Executor) (Inv : RunScopedState → Prop)
    (A : Event → Prop) (E : Exc → Prop) (flow : Flow) (order : List FlowStep) (unique : Prop) (mode : LinearMode)
    (nested : Nested) (cancellation : Cancellation) : Prop where
  sound : ledger.Sound executor FlowStep.outputMapping order unique
  surroundings : Surroundings executor A E flow.toFlowHeader
  escapes : ledger.Escapes E id order
  named : ∀ step ∈ flow.steps, step.displayName? = none → E .assertion
  merges : unique → mode.resumed = false ∧ flow.onContextCollision = .error
  step : ∀ {index : Nat} {step}, order[index]? = some step → ∀ info : StepInfo, info.stepIndex = index →
    ∀ context, (frame Inv).Given A
      (executor.executeStepIn mode.lane nested info step context cancellation) (ledger.Made index step context) E

theorem update_empty (d : Dict) : (OrderedDict.empty : Dict).update d = d :=
  OrderedDict.ext_entries (OrderedDict.entries_ofList d.nodup)

theorem mergeOutputs_merged (h : ledger.Linear executor Inv A E flow order unique mode nested cancellation)
    (hstep : order[index]? = some step) (hat : ledger.At index context .empty log)
    (hmade : ledger.Made index step context record) (hsuccess : record.success = true) :
    (frame Inv).Given A (mergeOutputs mode info flow.onContextCollision step index context record)
      (fun merged => ledger.At (index + 1) merged .empty (log ++ [record])) E := by
  have hmem : step ∈ order := List.mem_of_getElem? hstep
  unfold mergeOutputs
  split
  · next hnone =>
    have hnone := h.escapes.outputless hstep hmade hsuccess hnone
    split
    · exact given_raise hnone.1
    · exact (given_name (h.escapes.unnamed step hmem)).bind fun name _ =>
        given_raise (hnone.2 _)
  next produced hproduced =>
  refine (given_name (h.escapes.unnamed step hmem)).bind fun name _ => ?_
  refine (given_ofExcept fun e => h.escapes.unmapped hstep hmade hsuccess hproduced).bind fun mapped hmapped => ?_
  have hplaced := h.sound.placed hstep hat hmade hsuccess hproduced hmapped
  rw [update_empty] at hplaced
  refine .ask_bind fun _ _ => ?_
  split
  · next hresumed => exact .pure (h.sound.merged hplaced fun hunique => nomatch hresumed.symm.trans (h.merges hunique).1)
  · refine (given_ofExcept fun e => h.surroundings.collision).post fun merged hmerged => ?_
    obtain ⟨rfl, hfree⟩ := mergeMapped_merged hmerged
    exact h.sound.merged hplaced fun hunique => hfree (h.merges hunique).2

/-- One turn of the loop. -/
theorem linearStep_kept (h : ledger.Linear executor Inv A E flow order unique mode nested cancellation)
    (hstep : order[index]? = some step) (hat : ledger.At index context .empty log) :
    (frame Inv).Given A (executor.linearStep mode nested info flow cancellation index step context log)
      (Stage (fun state => ledger.At (index + 1) state.1 .empty state.2) ledger.Over) E := by
  have hturn : (frame Inv).Given A (executor.checkTurn mode info index cancellation log) (fun _ => True) E := by
    unfold checkTurn
    split
    · exact .pure trivial
    · exact checkCancellation_escapes h.surroundings
  unfold linearStep
  refine hturn.bind fun _ _ => .attempt_bind (h.step hstep _ rfl _) (fun record hmade => ?_) fun e he => ?_
  · dsimp only
    split
    · next hfailed =>
      refine ended_over h.surroundings fun result hresult => ?_
      exact h.sound.failed hstep hat hmade rfl (by simpa using hfailed) hresult
    next hsuccess =>
    refine (mergeOutputs_merged h hstep hat hmade (by simpa using hsuccess)).bind fun merged hmerged => ?_
    refine (saveSnapshot_escapes (.linear flow) h.surroundings.save h.named).bind fun _ _ => ?_
    exact .pure hmerged
  · split
    · next heq =>
      split
      · exact .throw (Except.error.inj heq ▸ he)
      · exact reraise_escapes h.surroundings
    · next heq => exact .throw (Except.error.inj heq ▸ he)
    · next heq => cases heq

theorem linearLoop_kept (info : RunInfo)
    (h : ledger.Linear executor Inv A E flow order unique mode nested cancellation) (before rest : List FlowStep) (hsteps : order = before ++ rest)
    (hat : ledger.At before.length context .empty log) :
    (frame Inv).Given A (executor.linearLoop mode nested info flow cancellation rest before.length context log)
      (Stage (fun state => ledger.At order.length state.1 .empty state.2) ledger.Over) E := by
  induction rest generalizing before context log with
  | nil =>
    rw [List.append_nil] at hsteps
    exact .pure (hsteps ▸ hat)
  | cons step rest ih =>
    unfold linearLoop
    refine (linearStep_kept h (by simp [hsteps]) hat).bind fun progress hprogress => ?_
    cases progress with
    | ended result => exact .pure hprogress
    | going state =>
      have hnext := ih (before ++ [step]) (by simp [hsteps]) (by simpa [Stage] using hprogress)
      simpa using hnext

/-- The loop from `start` on and what follows it. -/
theorem linearFrom_kept (h : ledger.Linear executor Inv A E flow flow.steps unique mode nested cancellation)
    (hstart : start ≤ flow.steps.length) (hat : ledger.At start context .empty log) :
    (frame Inv).Given A (executor.linearFrom mode nested info flow cancellation start context log) ledger.Over E := by
  have hlength : (flow.steps.take start).length = start := by simp [hstart]
  have hloop := linearLoop_kept info h (flow.steps.take start) (flow.steps.drop start)
    (List.take_append_drop start flow.steps).symm (by rwa [hlength])
  rw [hlength] at hloop
  unfold linearFrom
  refine hloop.bind fun progress hprogress => ?_
  cases progress with
  | ended result => exact .pure hprogress
  | going state => exact finishFlow_over h.sound h.surroundings rfl hprogress

/-- A fresh run of a linear flow. -/
theorem executeLinear_kept {lane : Lane} (hstable : Stable Inv)
    (h : ledger.Linear executor Inv A E flow flow.steps unique ⟨lane, false⟩ nested cancellation)
    (hseed : ∀ state, Inv state → ledger.At 0 (input.update state.dynamicParams) .empty [])
    (hunseeded : ∀ {record result}, Refused flowInputStepIndex record →
      executor.Reports false none [record] (some 0) result → ledger.Over result) :
    (frame Inv).Given A (executor.executeLinear lane nested flow flowName input cancellation) ledger.Over E := by
  unfold executeLinear
  refine .modify_bind (fun _ => hstable.version) (.ask_bind fun traceId _ => .ask_bind fun _ _ => ?_)
  refine (given_ofExcept fun e => h.surroundings.schema (by simp)).bind fun inputFailure hinput => ?_
  cases inputFailure with
  | some record =>
    obtain ⟨detail, rfl⟩ := validateFlowSchema_some hinput
    exact (makeResult_reports h.surroundings.delete).post fun result hresult =>
      hunseeded flowRecord_refused hresult
  | none => exact .get_bind fun state hstate => .ask_bind fun _ _ => linearFrom_kept h (Nat.zero_le _) (hseed state hstate)

/-- A run of a linear flow from a snapshot. -/
theorem resumeLinear_kept {lane : Lane} (hstable : Stable Inv)
    (h : ledger.Linear executor Inv A E flow flow.steps unique ⟨lane, true⟩ nested {})
    (hstart : snapshot.completedSteps ≤ flow.steps.length)
    (hat : ledger.At snapshot.completedSteps snapshot.context .empty snapshot.executionLog) :
    (frame Inv).Given A (executor.resumeLinear lane nested flow snapshot) ledger.Over E := by
  unfold resumeLinear
  exact .modify_bind (fun _ => hstable.version) (.ask_bind fun _ _ => .ask_bind fun _ _ => linearFrom_kept h hstart hat)

end

-- DAG flows

section

variable {executor : Executor} {Inv : RunScopedState → Prop} {A : Event → Prop} {E : Exc → Prop}
variable {nested : Nested} {info : RunInfo} {cancellation : Cancellation} {flow : DAGFlow}
variable {ledger : Ledger DAGFlowStep} {order : List DAGFlowStep} {unique : Prop} {index : Nat} {step : DAGFlowStep}
variable {context outputs : Dict} {log : List StepRecord} {state : DagState} {level : LevelState}

/-- What the level loop asks of the account, in either lane. -/
structure Ledger.Levelled (ledger : Ledger DAGFlowStep) (executor : Executor) (A : Event → Prop) (E : Exc → Prop)
    (flow : DAGFlow) (order : List DAGFlowStep) (unique : Prop) : Prop where
  sound : ledger.Sound executor (·.outputMapping) order unique
  surroundings : Surroundings executor A E flow.toFlowHeader
  escapes : ledger.Escapes E (·.toFlowStep) order
  named : ∀ step ∈ (AnyFlow.dag flow).steps, step.displayName? = none → E .assertion
  merges : unique → flow.onContextCollision = .error

theorem placeOutputs_placed (h : ledger.Levelled executor A E flow order unique) (hstep : order[index]? = some step)
    (hat : ledger.At index context outputs log) (hmade : ledger.Made index step context record)
    (hsuccess : record.success = true) :
    (frame Inv).Given A (placeOutputs info step context record outputs)
      (fun placed => ledger.At (index + 1) context (outputs.update placed.1) (log ++ [record])) E := by
  have hmem : step ∈ order := List.mem_of_getElem? hstep
  unfold placeOutputs
  split
  · next hnone => exact given_raise (h.escapes.outputless hstep hmade hsuccess hnone).1
  next produced hproduced =>
  refine (given_name (h.escapes.unnamed step hmem)).bind fun name _ => ?_
  refine (given_ofExcept fun e => h.escapes.unmapped hstep hmade hsuccess hproduced).bind fun mapped hmapped => ?_
  exact .ask_bind fun _ _ => .pure (h.sound.placed hstep hat hmade hsuccess hproduced hmapped)

theorem closeLevel_merged (h : ledger.Levelled executor A E flow order unique)
    (hat : ledger.At index context outputs log) :
    (frame Inv).Given A (executor.closeLevel info flow levelIndex context outputs log)
      (fun merged => ledger.At index merged .empty log) E := by
  unfold closeLevel
  refine .ask_bind fun _ _ => (given_ofExcept fun e => h.surroundings.collision).bind fun merged hmerged => ?_
  obtain ⟨rfl, hfree⟩ := mergeMapped_merged hmerged
  refine (saveSnapshot_escapes _ h.surroundings.save h.named).bind fun _ _ => .pure ?_
  exact h.sound.merged hat fun hunique => hfree (h.merges hunique)

/-- What the synchronous loop asks for besides. -/
structure Ledger.Stepped (ledger : Ledger DAGFlowStep) (executor : Executor) (Inv : RunScopedState → Prop)
    (A : Event → Prop) (E : Exc → Prop) (flow : DAGFlow) (order : List DAGFlowStep) (unique : Prop) (nested : Nested)
    (cancellation : Cancellation) : Prop extends ledger.Levelled executor A E flow order unique where
  skipped : ∀ {index step context outputs log}, order[index]? = some step → ledger.At index context outputs log →
    ∀ name, ledger.At (index + 1) context outputs (log ++ [skippedRecord index name])
  tool : ∀ {index : Nat} {step}, order[index]? = some step → step.stepType = .tool → ∀ info : StepInfo,
    info.stepIndex = index → ∀ context, (frame Inv).Given A
      (executor.executeStep nested info (proxy step) context cancellation) (ledger.Made index step context) E
  capability : ∀ {index step}, order[index]? = some step → step.stepType = .capability → ∀ info context,
    (frame Inv).Given A (executor.runCapabilityStep info index step context) (ledger.Made index step context) E
  unrouted : ∀ {step context levelOutputs stepOutputs e}, step ∈ order →
    executor.routeBranch step context levelOutputs stepOutputs = .error e → E e

/-- Where the synchronous loop stands inside a level. -/
def Ledger.Amid (ledger : Ledger DAGFlowStep) (index : Nat) (state : DagState) (level : LevelState) : Prop :=
  level.flatIndex = index ∧ ledger.At index state.context level.outputs (state.log ++ level.records)

theorem dagCapabilityStep_kept (h : ledger.Stepped executor Inv A E flow order unique nested cancellation)
    (hstep : order[index]? = some step) (htype : step.stepType = .capability) (hat : ledger.Amid index state level) :
    (frame Inv).Given A (executor.dagCapabilityStep info step state level)
      (Stage (ledger.Amid (index + 1) state) ledger.Over) E := by
  obtain ⟨rfl, hat⟩ := hat
  unfold dagCapabilityStep
  refine (h.capability hstep htype info state.context).bind fun record hmade => ?_
  dsimp only
  split
  · next hfailed =>
    refine ended_over h.surroundings fun result hresult => ?_
    exact h.sound.failed hstep hat hmade rfl (by simpa using hfailed) (by simpa using hresult)
  next hsuccess =>
  refine (placeOutputs_placed h.toLevelled hstep hat hmade (by simpa using hsuccess)).bind fun placed hplaced => ?_
  obtain ⟨mapped, clash⟩ := placed
  cases clash with
  | some key =>
    refine ended_over h.surroundings fun result hresult => ?_
    exact h.sound.failed hstep hat hmade (by rfl) (by rfl) hresult
  | none => exact .pure ⟨rfl, by simpa using hplaced⟩

theorem placeToolRecord_kept (h : ledger.Stepped executor Inv A E flow order unique nested cancellation)
    (hstep : order[index]? = some step) (hat : ledger.Amid index state level)
    (hmade : ledger.Made index step state.context record) (hsuccess : record.success = true) :
    (frame Inv).Given A (executor.placeToolRecord info flow step state level record)
      (Stage (ledger.Amid (index + 1) state) ledger.Over) E := by
  obtain ⟨rfl, hat⟩ := hat
  unfold placeToolRecord
  refine (placeOutputs_placed h.toLevelled hstep hat hmade hsuccess).bind fun placed hplaced => ?_
  obtain ⟨mapped, clash⟩ := placed
  refine (given_name (h.escapes.unnamed step (List.mem_of_getElem? hstep))).bind fun name _ => ?_
  cases clash with
  | some key =>
    refine ended_over h.surroundings fun result hresult => ?_
    exact h.sound.failed hstep hat hmade (by rfl) (by rfl) hresult
  | none =>
    refine (given_ofExcept fun e => h.unrouted (List.mem_of_getElem? hstep)).bind fun outcome _ => ?_
    cases outcome with
    | selected target => exact .pure ⟨rfl, by simpa using hplaced⟩
    | invalid e =>
      refine ended_over h.surroundings fun result hresult => ?_
      exact h.sound.failed hstep hat hmade (by rfl) (by rfl) hresult

/-- One step of a level. -/
theorem dagStep_kept (h : ledger.Stepped executor Inv A E flow order unique nested cancellation)
    (hstep : order[index]? = some step) (hat : ledger.Amid index state level) :
    (frame Inv).Given A (executor.dagStep nested info flow cancellation step state level)
      (Stage (ledger.Amid (index + 1) state) ledger.Over) E := by
  unfold dagStep
  refine .ask_bind fun _ _ => ?_
  split
  · refine (given_name (h.escapes.unnamed step (List.mem_of_getElem? hstep))).bind fun name _ => .pure ?_
    obtain ⟨rfl, hat⟩ := hat
    exact ⟨rfl, by simpa using h.skipped hstep hat name⟩
  split
  · next htype => exact dagCapabilityStep_kept h hstep htype hat
  next htype =>
  unfold dagToolStep
  refine .attempt_bind (h.tool hstep htype _ (by simp [hat.1]) _) (fun record hmade => ?_) fun e he => ?_
  · dsimp only
    split
    · next hfailed =>
      refine ended_over h.surroundings fun result hresult => ?_
      exact h.sound.failed hstep hat.2 hmade rfl (by simpa using hfailed) (by simpa using hresult)
    · next hsuccess => exact placeToolRecord_kept h hstep hat hmade (by simpa using hsuccess)
  · dsimp only
    split
    · exact reraise_escapes h.surroundings
    · next heq => exact .throw (Except.error.inj heq ▸ he)
    · next heq => cases heq

theorem dagLevelSteps_kept (h : ledger.Stepped executor Inv A E flow order unique nested cancellation)
    (before todo after : List DAGFlowStep) (horder : order = before ++ todo ++ after)
    (hat : ledger.Amid before.length state level) :
    (frame Inv).Given A (executor.dagLevelSteps nested info flow cancellation state todo level)
      (Stage (ledger.Amid (before ++ todo).length state) ledger.Over) E := by
  induction todo generalizing before level with
  | nil => exact .pure (by simpa [Stage] using hat)
  | cons step rest ih =>
    unfold dagLevelSteps
    refine (dagStep_kept h (by simp [horder]) hat).bind fun progress hprogress => ?_
    cases progress with
    | ended result => exact .pure hprogress
    | going level =>
      have hnext := ih (before ++ [step]) (by simp [horder]) (by simpa [Stage] using hprogress)
      simpa using hnext

/-- Where a level loop stands between two levels. -/
def Ledger.Between (ledger : Ledger DAGFlowStep) (index : Nat) (state : DagState) : Prop :=
  state.flatIndex = index ∧ ledger.At index state.context .empty state.log

theorem dagLevel_kept (h : ledger.Stepped executor Inv A E flow order unique nested cancellation)
    (before todo after : List DAGFlowStep) (horder : order = before ++ todo ++ after)
    (hat : ledger.Between before.length state) :
    (frame Inv).Given A (executor.dagLevel nested info flow cancellation levelIndex todo state)
      (Stage (ledger.Between (before ++ todo).length) ledger.Over) E := by
  unfold dagLevel
  refine (checkCancellation_escapes h.surroundings).bind fun _ _ => ?_
  refine .bind (dagLevelSteps_kept h before todo after horder ⟨hat.1, by simpa using hat.2⟩) fun progress hprogress => ?_
  cases progress with
  | ended result => exact .pure hprogress
  | going level => exact (closeLevel_merged h.toLevelled hprogress.2).bind fun merged hmerged => .pure ⟨hprogress.1, hmerged⟩

theorem dagLevels_kept (h : ledger.Stepped executor Inv A E flow order unique nested cancellation)
    (before : List DAGFlowStep) (rest : List (List DAGFlowStep)) (horder : order = before ++ rest.flatten)
    (hat : ledger.Between before.length state) :
    (frame Inv).Given A (executor.dagLevels nested info flow cancellation rest levelIndex state)
      (Stage (ledger.Between order.length) ledger.Over) E := by
  induction rest generalizing before levelIndex state with
  | nil =>
    obtain rfl : order = before := by simpa using horder
    exact .pure hat
  | cons todo rest ih =>
    unfold dagLevels
    refine .bind (dagLevel_kept h before todo rest.flatten (by simp [horder]) hat) fun progress hprogress => ?_
    cases progress with
    | ended result => exact .pure hprogress
    | going state => exact ih (before ++ todo) (by simp [horder]) hprogress

/-- The level loop from `startLevel` on and what follows it. -/
theorem dagFrom_kept (h : ledger.Stepped executor Inv A E flow order unique nested cancellation)
    (horder : order = levels.flatten) (hperm : order.Perm flow.steps)
    (hat : ledger.Between (levels.take startLevel).flatten.length state) :
    (frame Inv).Given A (executor.dagFrom nested info flow cancellation levels startLevel state) ledger.Over E := by
  have hsplit : order = (levels.take startLevel).flatten ++ (levels.drop startLevel).flatten := by
    rw [← List.flatten_append, List.take_append_drop, horder]
  unfold dagFrom
  refine .bind (dagLevels_kept h _ (levels.drop startLevel) hsplit hat) fun progress hprogress => ?_
  cases progress with
  | ended result => exact .pure hprogress
  | going state =>
    have hcount : flowOutputStepIndex flow.steps = (order.length : Int) := by simp [flowOutputStepIndex, hperm.length_eq]
    exact finishFlow_over h.sound h.surroundings hcount hprogress.2

/-- What the account says of the start of a run: fresh, from a snapshot, or stopped by
the schema of the input. -/
structure Ledger.Starts (ledger : Ledger DAGFlowStep) (executor : Executor) (Inv : RunScopedState → Prop)
    (flow : DAGFlow) (input : Dict) : Prop where
  fresh : ∀ state, Inv state → state.resumeSnapshot = none → ∀ state, Inv state →
    ledger.At 0 (input.update state.dynamicParams) .empty []
  resumed : ∀ state snapshot levels, Inv state → state.resumeSnapshot = some snapshot →
    computeDagLevels executor.platform.hashing flow = .ok levels →
      (levels.take snapshot.completedDagLevels).flatten.length = snapshot.executionLog.length ∧
        ledger.At snapshot.executionLog.length snapshot.context .empty snapshot.executionLog
  unseeded : ∀ {record result}, Refused flowInputStepIndex record →
    executor.Reports false none [record] (some 0) result → ledger.Over result

/-- A synchronous run of a DAG flow. -/
theorem executeDagFlow_kept (hstable : Stable Inv) (hs : Surroundings executor A E flow.toFlowHeader)
    (hlevels : ∀ e, computeDagLevels executor.platform.hashing flow = .error e → E e)
    (h : ∀ levels, computeDagLevels executor.platform.hashing flow = .ok levels →
      ledger.Stepped executor Inv A E flow levels.flatten unique nested cancellation)
    (hstarts : ledger.Starts executor Inv flow input) :
    (frame Inv).Given A (executor.executeDagFlow nested flow input cancellation) ledger.Over E := by
  unfold executeDagFlow
  refine .modify_bind (fun _ => hstable.version) (.get_bind fun state hstate => ?_)
  split
  · next snapshot hsnapshot =>
    refine .ask_bind fun _ _ => (given_ofExcept hlevels).bind fun levels hcomputed => .ask_bind fun _ _ => ?_
    obtain ⟨hlength, hat⟩ := hstarts.resumed state snapshot levels hstate hsnapshot hcomputed
    obtain ⟨height, hlevelled⟩ := Topology.computeDagLevels_levelled hcomputed
    exact dagFrom_kept (h levels hcomputed) rfl hlevelled.perm ⟨hlength.symm, hlength ▸ hat⟩
  next hnone =>
  refine .ask_bind fun traceId _ => .ask_bind fun _ _ => ?_
  refine (given_ofExcept fun e => hs.schema (by simp)).bind fun inputFailure hinput => ?_
  cases inputFailure with
  | some record =>
    obtain ⟨detail, rfl⟩ := validateFlowSchema_some hinput
    exact (makeResult_reports hs.delete).post fun result hresult =>
      hstarts.unseeded flowRecord_refused hresult
  | none =>
    refine .get_bind fun state' hstate' => (given_ofExcept hlevels).bind fun levels hcomputed => .ask_bind fun _ _ => ?_
    obtain ⟨height, hlevelled⟩ := Topology.computeDagLevels_levelled hcomputed
    exact dagFrom_kept (h levels hcomputed) rfl hlevelled.perm ⟨rfl, hstarts.fresh state hstate hnone state' hstate'⟩

-- DAG flows in the asynchronous lane

/-- What the asynchronous loop asks for besides. -/
structure Ledger.Gathered (ledger : Ledger DAGFlowStep) (executor : Executor) (Inv : RunScopedState → Prop)
    (A : Event → Prop) (E : Exc → Prop) (flow : DAGFlow) (order : List DAGFlowStep) (unique : Prop) (nested : Nested)
    (cancellation : Cancellation) : Prop extends ledger.Levelled executor A E flow order unique where
  tool : ∀ {index : Nat} {step}, order[index]? = some step → step.stepType = .tool → ∀ info : StepInfo,
    info.stepIndex = index → ∀ context, (frame Inv).Given A
      (executor.executeStepAsync nested info (proxyAsync step) context cancellation) (ledger.Made index step context) E

/-- What becomes of a level with a step the lane has no code for. -/
def Ledger.Turned (ledger : Ledger DAGFlowStep) (executor : Executor) (levels : List (List DAGFlowStep)) : Prop :=
  ∀ before first step rest after context log name result, levels = before ++ (first ++ step :: rest) :: after →
    ledger.At before.flatten.length context .empty log → (∀ other ∈ first, other.stepType = .tool) →
      step.stepType ≠ .tool → executor.Reports false none
        (log ++ [capabilityRefused (before.flatten.length + first.length) step name]) none result →
          ledger.Over result

theorem processRecords_kept (h : ledger.Levelled executor A E flow order unique)
    (before todo after : List DAGFlowStep) (horder : order = before ++ todo ++ after)
    (hat : ledger.At before.length context outputs log) (hlength : records.length = todo.length)
    (hrecords : ∀ place step record, todo[place]? = some step → records[place]? = some record →
      ledger.Made (before.length + place) step context record) :
    (frame Inv).Given A (executor.processRecords info context (todo.zip records) log outputs)
      (Stage (fun state => ledger.At (before ++ todo).length context state.2 state.1) ledger.Over) E := by
  induction todo generalizing before records log outputs with
  | nil => exact .pure (by simpa [Stage] using hat)
  | cons step rest ih =>
    cases records with
    | nil => cases hlength
    | cons record records =>
      have hstep : order[before.length]? = some step := by simp [horder]
      have hmade := hrecords 0 step record rfl rfl
      rw [List.zip_cons_cons]
      unfold processRecords
      split
      · next hfailed =>
        refine ended_over h.surroundings fun result hresult => ?_
        exact h.sound.failed hstep hat hmade rfl (by simpa using hfailed) hresult
      next hsuccess =>
      refine (placeOutputs_placed h hstep hat hmade (by simpa using hsuccess)).bind fun placed hplaced => ?_
      obtain ⟨mapped, clash⟩ := placed
      cases clash with
      | some key =>
        refine (given_name (h.escapes.unnamed step (List.mem_of_getElem? hstep))).bind fun name _ => ?_
        refine ended_over h.surroundings fun result hresult => ?_
        exact h.sound.failed hstep hat hmade (by rfl) (by rfl) hresult
      | none =>
        have hnext := ih (before ++ [step]) (by simp [horder]) (by simpa using hplaced)
          (by simpa using hlength) fun place other later hother hlater => by
            have hmade := hrecords (place + 1) other later (by simpa using hother) (by simpa using hlater)
            simpa [Nat.add_assoc, Nat.add_comm 1] using hmade
        simpa using hnext

/-- The steps of a level with their indices. -/
theorem indexed_getElem? (start : Nat) (todo : List DAGFlowStep) (place : Nat) :
    (todo.zipIdx.map fun (step, place) => (start + place, step))[place]? =
      todo[place]?.map fun step => (start + place, step) := by
  rw [List.getElem?_map, List.getElem?_zipIdx, Option.map_map]
  simp [Function.comp_def]

theorem indexed_snd (start : Nat) (todo : List DAGFlowStep) :
    (todo.zipIdx.map fun (step, place) => (start + place, step)).map Prod.snd = todo := by
  rw [List.map_map]
  exact List.zipIdx_map_fst 0 todo

theorem dagLevelAsync_kept (h : ledger.Gathered executor Inv A E flow order unique nested cancellation)
    (hturned : ledger.Turned executor levels) (before : List (List DAGFlowStep)) (todo : List DAGFlowStep)
    (after : List (List DAGFlowStep)) (hlevels : levels = before ++ todo :: after) (horder : order = levels.flatten)
    (hat : ledger.Between before.flatten.length state) :
    (frame Inv).Given A (executor.dagLevelAsync nested info flow cancellation levelIndex todo state)
      (Stage (ledger.Between (before ++ [todo]).flatten.length) ledger.Over) E := by
  obtain ⟨hindex, hat⟩ := hat
  have horder : order = before.flatten ++ todo ++ after.flatten := by simp [horder, hlevels]
  have hget := indexed_getElem? state.flatIndex todo
  have hsnd := indexed_snd state.flatIndex todo
  unfold dagLevelAsync
  refine (checkCancellation_escapes h.surroundings).bind fun _ _ => ?_
  dsimp only
  generalize List.map _ todo.zipIdx = indexed at hget hsnd ⊢
  split
  · next flatIndex step hfind =>
    obtain ⟨htype, first, rest, hsplit, hfirst⟩ := List.find?_eq_some_iff_append.1 hfind
    have hplace := hget first.length
    rw [hsplit, List.getElem?_append_right le_rfl, Nat.sub_self] at hplace
    obtain ⟨other, -, hother⟩ := Option.map_eq_some_iff.1 hplace.symm
    obtain ⟨rfl, rfl⟩ := Prod.mk.inj hother
    have htodo : todo = first.map Prod.snd ++ other :: rest.map Prod.snd := by simp [← hsnd, hsplit]
    have htools : ∀ step ∈ first.map Prod.snd, step.stepType = .tool := by
      intro step hstep
      obtain ⟨entry, hentry, rfl⟩ := List.mem_map.1 hstep
      simpa using hfirst entry hentry
    have hmem : other ∈ order := by simp [horder, htodo]
    refine .ask_bind fun _ _ => (given_name (h.escapes.unnamed other hmem)).bind fun name _ => ?_
    refine ended_over h.surroundings fun result hresult => ?_
    refine hturned before (first.map Prod.snd) other (rest.map Prod.snd) after _ _ name result (htodo ▸ hlevels) hat htools
      (by simpa using htype) ?_
    rwa [List.length_map, ← hindex]
  next hnone =>
  have htask : ∀ entry ∈ indexed, (frame Inv).Given A
      (executor.dagTask nested info cancellation state.context entry.1 entry.2)
      (ledger.Made entry.1 entry.2 state.context) E := by
    intro entry hentry
    obtain ⟨place, hplace⟩ := List.mem_iff_getElem?.1 hentry
    have htype : entry.2.stepType = .tool := by simpa using List.find?_eq_none.1 hnone entry hentry
    rw [hget] at hplace
    obtain ⟨step, hstep, rfl⟩ := Option.map_eq_some_iff.1 hplace
    refine h.tool ?_ htype _ rfl _
    rw [horder, hindex, List.append_assoc, List.getElem?_append_right (Nat.le_add_right _ _), Nat.add_sub_cancel_left,
      List.getElem?_append_left (List.getElem?_eq_some_iff.1 hstep).1, hstep]
  refine (runDagLevelAsync_given htask).bind fun records hrecords => ?_
  have hlength : records.length = todo.length := by simp [← hrecords.length_eq, ← hsnd]
  have hmade : ∀ place step record, todo[place]? = some step → records[place]? = some record →
      ledger.Made (before.flatten.length + place) step state.context record := by
    intro place step record hstep hrecord
    have hentry : indexed[place]? = some (state.flatIndex + place, step) := by simp [hget, hstep]
    obtain ⟨hlt, hentry⟩ := List.getElem?_eq_some_iff.1 hentry
    obtain ⟨hlt', hrecord⟩ := List.getElem?_eq_some_iff.1 hrecord
    have hone := (List.forall₂_iff_get.1 hrecords).2 place hlt hlt'
    rw [List.get_eq_getElem, List.get_eq_getElem, hentry, hrecord] at hone
    exact hindex ▸ hone
  refine .bind (processRecords_kept h.toLevelled before.flatten todo after.flatten horder hat hlength hmade)
    fun progress hprogress => ?_
  cases progress with
  | ended result => exact .pure hprogress
  | going level =>
    refine (closeLevel_merged h.toLevelled hprogress).bind fun merged hmerged => .pure ?_
    exact ⟨by simp [hindex], by simpa using hmerged⟩

theorem dagLevelsAsync_kept (h : ledger.Gathered executor Inv A E flow order unique nested cancellation)
    (hturned : ledger.Turned executor levels) (before rest : List (List DAGFlowStep)) (hlevels : levels = before ++ rest)
    (horder : order = levels.flatten) (hat : ledger.Between before.flatten.length state) :
    (frame Inv).Given A (executor.dagLevelsAsync nested info flow cancellation rest levelIndex state)
      (Stage (ledger.Between order.length) ledger.Over) E := by
  induction rest generalizing before levelIndex state with
  | nil =>
    obtain rfl : levels = before := by simpa using hlevels
    exact .pure (horder ▸ hat)
  | cons todo rest ih =>
    unfold dagLevelsAsync
    refine .bind (dagLevelAsync_kept h hturned before todo rest hlevels horder hat) fun progress hprogress => ?_
    cases progress with
    | ended result => exact .pure hprogress
    | going state => exact ih (before ++ [todo]) (by simp [hlevels]) hprogress

theorem dagFromAsync_kept (h : ledger.Gathered executor Inv A E flow levels.flatten unique nested cancellation)
    (hturned : ledger.Turned executor levels) (hperm : levels.flatten.Perm flow.steps)
    (hat : ledger.Between (levels.take startLevel).flatten.length state) :
    (frame Inv).Given A (executor.dagFromAsync nested info flow cancellation levels startLevel state) ledger.Over E := by
  unfold dagFromAsync
  refine .bind (dagLevelsAsync_kept h hturned (levels.take startLevel) (levels.drop startLevel)
    (List.take_append_drop startLevel levels).symm rfl hat) fun progress hprogress => ?_
  cases progress with
  | ended result => exact .pure hprogress
  | going state =>
    have hcount : flowOutputStepIndex flow.steps = (levels.flatten.length : Int) := by
      simp only [flowOutputStepIndex, hperm.length_eq]
    exact finishFlow_over h.sound h.surroundings hcount hprogress.2

/-- An asynchronous run of a DAG flow. -/
theorem executeDagFlowAsync_kept (hstable : Stable Inv) (hs : Surroundings executor A E flow.toFlowHeader)
    (hlevels : ∀ e, computeDagLevels executor.platform.hashing flow = .error e → E e)
    (h : ∀ levels, computeDagLevels executor.platform.hashing flow = .ok levels →
      ledger.Gathered executor Inv A E flow levels.flatten unique nested cancellation ∧ ledger.Turned executor levels)
    (hstarts : ledger.Starts executor Inv flow input) :
    (frame Inv).Given A (executor.executeDagFlowAsync nested flow input cancellation) ledger.Over E := by
  unfold executeDagFlowAsync
  refine .modify_bind (fun _ => hstable.version) ((given_orRefuse hlevels).bind fun levels hcomputed => ?_)
  obtain ⟨hgathered, hturned⟩ := h levels hcomputed
  obtain ⟨height, hlevelled⟩ := Topology.computeDagLevels_levelled hcomputed
  refine .get_bind fun state hstate => ?_
  split
  · next snapshot hsnapshot =>
    obtain ⟨hlength, hat⟩ := hstarts.resumed state snapshot levels hstate hsnapshot hcomputed
    exact .ask_bind fun _ _ => .ask_bind fun _ _ =>
      dagFromAsync_kept hgathered hturned hlevelled.perm ⟨List.length_flatten.symm, hlength ▸ hat⟩
  next hnone =>
  refine .ask_bind fun traceId _ => .ask_bind fun _ _ => ?_
  refine (given_ofExcept fun e => hs.schema (by simp)).bind fun inputFailure hinput => ?_
  cases inputFailure with
  | some record =>
    obtain ⟨detail, rfl⟩ := validateFlowSchema_some hinput
    exact (makeResult_reports hs.delete).post fun result hresult =>
      hstarts.unseeded flowRecord_refused hresult
  | none =>
    refine .get_bind fun state' hstate' => .ask_bind fun _ _ => ?_
    exact dagFromAsync_kept hgathered hturned hlevelled.perm ⟨rfl, hstarts.fresh state hstate hnone state' hstate'⟩

end

-- Steps leave the state

section

variable {executor : Executor} {Inv : RunScopedState → Prop} {nested : Nested} {lane : Lane} {c : Exec β}
variable {Q : β → Prop}

/-- The computation comes back to the states it starts from. -/
def Stays (Inv : RunScopedState → Prop) (c : Exec β) : Prop := (frame Inv).Upholds (fun _ => True) False c fun _ => True

theorem Stays.given (h : Stays Inv c) (hc : anyFrame.Given anyEvent c Q anyError) :
    (frame Inv).Given anyEvent c Q anyError := by
  intro state events r state' hs _ hrun
  exact ⟨(h state events r state' hs hrun).1, (hc state events r state' trivial (fun _ _ => trivial) hrun).2⟩

theorem stays_within {enter : RunScopedState → RunScopedState} : Stays Inv (withScope enter c) := by
  intro state events r state' hs hrun
  obtain ⟨rfl, -⟩ := Interaction.Comp.runs_within.1 hrun
  refine ⟨hs, trivial, ?_⟩
  cases r with
  | ok value => trivial
  | error e => exact False.elim

theorem closed_all : Interaction.Closed fun _ : List Event => True := ⟨trivial, fun _ _ => trivial⟩

theorem lanes_stay (stack : Nat) (flowName : String) (input : Dict) (cancellation : Cancellation) :
    Stays Inv ((executor.lanes stack).entry lane flowName input cancellation) := by
  have hrefuse : ∀ {γ : Type} (x : Except Exc γ), Stays Inv (orRefuse x) := by
    intro γ x
    cases x with
    | ok value => exact .pure closed_all trivial
    | error e => exact ensures_refuse ⟨trivial, False.elim⟩
  cases stack with
  | zero => cases lane <;> exact ensures_refuse ⟨trivial, False.elim⟩
  | succ stack =>
    cases lane with
    | sync => exact stays_within
    | async =>
      refine .bind closed_all (hrefuse _) fun _ _ => .bind closed_all (hrefuse _) fun _ _ => ?_
      exact .bind closed_all (hrefuse _) fun _ _ => .bind closed_all (hrefuse _) fun _ _ => stays_within

theorem inside_all (hn : ∀ lane flowName input cancellation, Stays Inv (nested.entry lane flowName input cancellation)) :
    Inside executor Inv (fun _ => True) lane nested info := by
  refine .of_events closed_all (fun _ _ => trivial) (fun _ _ _ _ _ => trivial) fun origin flowName input cancellation callee _ _ => ?_
  exact nestedCall_upholds (hn callee flowName input cancellation) fun _ _ _ => trivial

theorem Stays.of_from {post : Except Exc β → List Event → Prop} (h : (frame Inv).From [] c post) : Stays Inv c := by
  refine Frame.Ensures.weaken h fun r _ _ => ⟨trivial, ?_⟩
  cases r with
  | ok value => trivial
  | error e => exact False.elim

theorem executeStepIn_stays (hstable : Stable Inv)
    (hn : ∀ lane flowName input cancellation, Stays Inv (nested.entry lane flowName input cancellation)) :
    Stays Inv (executor.executeStepIn lane nested info step context cancellation) :=
  .of_from (executeStepIn_turn hstable (inside_all hn))

theorem runCapabilityStep_stays {run : RunInfo} {index : Nat}
    (hn : ∀ lane flowName input cancellation, Stays Inv (nested.entry lane flowName input cancellation)) :
    Stays Inv (executor.runCapabilityStep run index step context) := by
  have hinside : Inside executor Inv (fun _ => True) .sync nested
      { traceId := run.traceId, flowName := run.flowName, stepIndex := index, stepId := none } := inside_all hn
  exact .of_from (runCapabilityStep_turn hinside rfl rfl rfl)

end

-- Calls

/-- The state a call works on. -/
def enterLane (lane : Lane) (call : Call) (state : RunScopedState) : RunScopedState :=
  match lane with
  | .sync => enterSync call state
  | .async => withDynamicParams state.copy call.dynamicParams

/-- What a call comes to once its flow is admitted. -/
def executeAdmitted (executor : Executor) (lane : Lane) (nested : Nested) (flowName : String) (input : Dict)
    (cancellation : Cancellation) : AnyFlow → Exec ExecutionResult
  | .linear flow =>
    match lane with
    | .sync => executor.executeLinearFlow nested flow flowName input cancellation
    | .async => executor.executeLinearFlowAsync nested flow input cancellation
  | .dag flow =>
    match lane with
    | .sync => executor.executeDagFlow nested flow input cancellation
    | .async => executor.executeDagFlowAsync nested flow input cancellation

theorem execute_given {executor : Executor} {Inv Inv' : RunScopedState → Prop} {A : Event → Prop}
    {Q : ExecutionResult → Prop} {call : Call} (lane : Lane) (hstable : Stable Inv')
    (hscope : ∀ state, Inv state → Inv' (enterLane lane call state))
    (h : ∀ flow, executor.registry.getFlow flowName call.version = .ok flow → (frame Inv').Given A
      (executor.executeAdmitted lane (executor.lanes stack) flowName input call.cancellation flow) Q anyError) :
    (frame Inv).Given A (executor.enter stack (executeIn lane flowName input call)) Q anyError := by
  cases lane with
  | sync =>
    refine Frame.Given.scope (G := frame Inv') hscope ?_
    unfold executeFlowImpl
    refine (given_orRefuse fun _ _ => trivial).bind fun flow hflow => .modify_bind (fun _ => hstable.version) ?_
    refine (given_orRefuse fun _ _ => trivial).bind fun _ _ => (given_orRefuse fun _ _ => trivial).bind fun _ _ => ?_
    refine .get_bind fun state _ => .ask_bind fun _ _ => ?_
    cases flow <;> exact h _ hflow
  | async =>
    show (frame Inv).Given A (executor.executeFlowAsyncWith (executor.lanes stack) flowName input call) Q anyError
    unfold executeFlowAsyncWith
    refine (given_orRefuse fun _ _ => trivial).bind fun flow hflow => (given_orRefuse fun _ _ => trivial).bind fun _ _ => ?_
    refine (given_orRefuse fun _ _ => trivial).bind fun _ _ => (given_orRefuse fun _ _ => trivial).bind fun _ _ => ?_
    refine Frame.Given.scope (G := frame Inv') hscope (.get_bind fun state _ => .ask_bind fun _ _ => ?_)
    cases flow <;> exact h _ hflow

end ChainWeaver.Executor
