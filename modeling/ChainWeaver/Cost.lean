import ChainWeaver.Data.ListOrder
import ChainWeaver.LogShape

/-!
# What a cost report counts

The records that stand for a tool step, in the logs of a run and of all its sub-flows,
against the count of `_make_result`.
-/

namespace ChainWeaver.Executor

/-- The steps of a flow in the order in which they run. -/
def schedule (executor : Executor) : AnyFlow → List FlowStep
  | .linear flow => flow.steps
  | .dag flow =>
    match computeDagLevels executor.platform.hashing flow with
    | .ok levels => levels.flatten.map (·.toFlowStep)
    | .error _ => []

/-- The steps of the sub-flow that a record names. -/
def subSchedule (executor : Executor) (flowName : Option String) : List FlowStep :=
  match flowName with
  | none => []
  | some name =>
    match executor.registry.getFlow name none with
    | .ok flow => executor.schedule flow
    | .error _ => []

def runsTool (step : FlowStep) : Bool :=
  match step.target with
  | .tool _ => true
  | .flow _ => false

/-- The record at this index is that of a tool step. -/
def toolStepAt (order : List FlowStep) : Int → Bool
  | .ofNat index => order[index]?.any runsTool
  | .negSucc _ => false

section

variable (executor : Executor)

mutual

/-- The records of a log and of the logs below it, each with the steps of its flow. -/
def logTree (order : List FlowStep) : List StepRecord → List (List FlowStep × StepRecord)
  | [] => []
  | record :: rest => (order, record) :: (recordTree record ++ logTree order rest)

def recordTree : StepRecord → List (List FlowStep × StepRecord)
  | ⟨_, _, _, _, _, _, _, _, _, _, _, _, _, flowName, subResult, _, _⟩ =>
    resultTree (executor.subSchedule flowName) subResult

def resultTree (order : List FlowStep) : Option ExecutionResult → List (List FlowStep × StepRecord)
  | none => []
  | some ⟨_, _, _, _, executionLog, _, _, _, _⟩ => logTree order executionLog

end

/-- No sub-flow ran below the record. -/
def isLeaf (entry : List FlowStep × StepRecord) : Bool := entry.2.subResult.isNone

def isToolStep (entry : List FlowStep × StepRecord) : Bool := toolStepAt entry.1 entry.2.stepIndex

/-- The number of records that stand for a tool step. -/
def toolSteps (order : List FlowStep) (log : List StepRecord) : Nat :=
  (executor.logTree order log).countP fun entry => isToolStep entry && isLeaf entry

end

-- The count

section

variable {executor : Executor}

mutual

theorem countComposedToolSteps_eq (order : List FlowStep) (log : List StepRecord) :
    countComposedToolSteps log = ((executor.logTree order log).countP isLeaf : Int) := by
  cases log with
  | nil => simp [countComposedToolSteps, logTree]
  | cons record rest =>
    have hrecord := countRecord_eq order record
    have hrest := countComposedToolSteps_eq order rest
    rw [countComposedToolSteps, logTree, hrecord, hrest, List.countP_cons, List.countP_cons, List.countP_append]
    push_cast
    omega

theorem countRecord_eq (order : List FlowStep) (record : StepRecord) :
    countRecord record = (((order, record) :: executor.recordTree record).countP isLeaf : Int) := by
  obtain ⟨stepIndex, toolName, inputs, outputs, errorType, errorMessage, success, retryCount, retryErrors,
      skipped, cached, fallbackUsed, fallbackToolName, flowName, subResult, approval, decision⟩ := record
  have hsub := countSubResult_eq (executor.subSchedule flowName) subResult
  rw [countRecord, recordTree, List.countP_cons, hsub]
  cases subResult <;> simp [isLeaf]

theorem countSubResult_eq (order : List FlowStep) (subResult : Option ExecutionResult) :
    countSubResult subResult =
      ((executor.resultTree order subResult).countP isLeaf : Int) + if subResult.isNone then 1 else 0 := by
  cases subResult with
  | none => simp [countSubResult, resultTree]
  | some result =>
    obtain ⟨flowName, flowVersion, success, finalOutput, executionLog, traceId, initialInput, dryRun, costReport⟩ := result
    have hlog := countComposedToolSteps_eq order executionLog
    simpa [countSubResult, resultTree] using hlog

end

theorem countRecord_subResult (record : StepRecord) :
    countRecord record = match record.subResult with
      | some sub => countComposedToolSteps sub.executionLog
      | none => 1 := by
  obtain ⟨stepIndex, toolName, inputs, outputs, errorType, errorMessage, success, retryCount, retryErrors,
      skipped, cached, fallbackUsed, fallbackToolName, flowName, subResult, approval, decision⟩ := record
  cases subResult with
  | none => rfl
  | some result => cases result; rfl

theorem compositionAdjustment_eq (log : List StepRecord) :
    (log.length : Int) + compositionAdjustment log = countComposedToolSteps log := by
  induction log with
  | nil => rfl
  | cons record rest ih =>
    rw [compositionAdjustment, countComposedToolSteps, countRecord_subResult, List.length_cons]
    cases record.subResult with
    | none => push_cast; omega
    | some sub => push_cast; omega

theorem compositionAdjustment_concat {record : StepRecord} (log : List StepRecord) (h : record.subResult = none) :
    compositionAdjustment (log ++ [record]) = compositionAdjustment log := by
  induction log with
  | nil => simp [compositionAdjustment, h]
  | cons first rest ih => simp [compositionAdjustment, ih]

theorem logTree_append (order : List FlowStep) (log more : List StepRecord) :
    executor.logTree order (log ++ more) = executor.logTree order log ++ executor.logTree order more := by
  induction log with
  | nil => simp [logTree]
  | cons record rest ih => simp [logTree, ih]

theorem recordTree_leaf {record : StepRecord} (h : record.subResult = none) : executor.recordTree record = [] := by
  obtain ⟨stepIndex, toolName, inputs, outputs, errorType, errorMessage, success, retryCount, retryErrors,
      skipped, cached, fallbackUsed, fallbackToolName, flowName, subResult, approval, decision⟩ := record
  obtain rfl : subResult = none := h
  rfl

/-- The records of the steps themselves. -/
def stepRecords (count : Nat) (log : List StepRecord) : List StepRecord :=
  log.filter fun record => 0 ≤ record.stepIndex ∧ record.stepIndex < count

theorem stepRecords_completed {count : Nat} (h : Completed log) (hcount : log.length ≤ count) :
    stepRecords count log = log := by
  refine List.filter_eq_self.2 fun record hrecord => ?_
  obtain ⟨index, hindex⟩ := List.mem_iff_getElem?.1 hrecord
  obtain ⟨hstep, -⟩ := h index record hindex
  have hlt := (List.getElem?_eq_some_iff.1 hindex).1
  simp only [hstep, decide_eq_true_eq]
  omega

theorem stepRecords_refused {count : Nat} (h : Refused stepIndex record)
    (hindex : stepIndex = flowInputStepIndex ∨ stepIndex = count) : stepRecords count [record] = [] := by
  refine List.filter_eq_nil_iff.2 fun other hother => ?_
  obtain rfl := List.mem_singleton.1 hother
  simp only [h.stepIndex, flowInputStepIndex, decide_eq_true_eq] at hindex ⊢
  omega

/-- A record of a flow-level check stands for no tool step. -/
theorem toolSteps_refused {order : List FlowStep} (log : List StepRecord) (h : Refused stepIndex record)
    (hindex : stepIndex = flowInputStepIndex ∨ stepIndex = (count : Nat)) (hcount : order.length ≤ count) :
    executor.toolSteps order (log ++ [record]) = executor.toolSteps order log := by
  have hnone : toolStepAt order record.stepIndex = false := by
    rw [h.stepIndex]
    rcases hindex with rfl | rfl
    · rfl
    · simp [toolStepAt, hcount]
  rw [toolSteps, logTree_append, List.countP_append, logTree, recordTree_leaf h.subResult]
  simp [toolSteps, logTree, isToolStep, hnone]

/-- Every record that has no sub-flow below it, the flow-level check of the run itself
apart, is that of a tool step. -/
def Faithful (executor : Executor) (order : List FlowStep) (count : Nat) (log : List StepRecord) : Prop :=
  ∀ entry ∈ executor.logTree order (stepRecords count log), isLeaf entry = true → isToolStep entry = true

/-- The count of the report, and that of the records. -/
theorem Ended.stepsExecuted {count : Nat} {order : List FlowStep} (h : executor.Ended (· ≤ ·) count result)
    (hcount : order.length ≤ count) (hreport : result.costReport = some report) :
    report.stepsExecuted = ((executor.logTree order (stepRecords count result.executionLog)).countP isLeaf : Int) ∧
      executor.toolSteps order result.executionLog =
        executor.toolSteps order (stepRecords count result.executionLog) := by
  have hcosts : ∀ {log : List StepRecord} {toolStepCount : Option Nat},
      executor.costReport log toolStepCount = some report →
        report.stepsExecuted = (toolStepCount.getD log.length : Int) + compositionAdjustment log := by
    intro log toolStepCount hcosts
    unfold costReport at hcosts
    split at hcosts
    · exact Option.some.inj hcosts ▸ rfl
    · cases hcosts
  cases h with
  | finished hlog hlength hresult =>
    have hsteps := hcosts (hresult.costReport ▸ hreport)
    rw [hresult.executionLog, stepRecords_completed hlog hlength.le, ← countComposedToolSteps_eq,
      ← compositionAdjustment_eq]
    exact ⟨hsteps, rfl⟩
  | @failed log index last hlog hindex hgap hlt hlast hresult =>
    have hsteps := hcosts (hresult.costReport ▸ hreport)
    have hall : stepRecords count (log ++ [last]) = log ++ [last] := by
      have hdone : log.length ≤ count := le_trans hgap hlt.le
      rw [stepRecords, List.filter_append, ← stepRecords, stepRecords_completed hlog hdone]
      simp [hindex, hlt]
    rw [hresult.executionLog, hall, ← countComposedToolSteps_eq, ← compositionAdjustment_eq]
    exact ⟨hsteps, rfl⟩
  | unseeded hrefused hresult =>
    have hsteps := hcosts (hresult.costReport ▸ hreport)
    rw [hresult.executionLog, stepRecords_refused hrefused (.inl rfl)]
    refine ⟨?_, toolSteps_refused [] hrefused (.inl rfl) hcount⟩
    simpa [compositionAdjustment, hrefused.subResult, logTree] using hsteps
  | @refused log record hlog hlength hrefused hresult =>
    have hsteps := hcosts (hresult.costReport ▸ hreport)
    have hall : stepRecords count (log ++ [record]) = log := by
      rw [stepRecords, List.filter_append, ← stepRecords, ← stepRecords, stepRecords_refused hrefused (.inr rfl),
        stepRecords_completed hlog hlength.le, List.append_nil]
    rw [compositionAdjustment_concat log hrefused.subResult] at hsteps
    rw [hresult.executionLog, hall, ← countComposedToolSteps_eq, ← compositionAdjustment_eq]
    exact ⟨hsteps, toolSteps_refused log hrefused (.inr rfl) hcount⟩

/-- The report counts the tool steps exactly if every record it counts is of one. -/
theorem Ended.counted {count : Nat} {order : List FlowStep} (h : executor.Ended (· ≤ ·) count result)
    (hcount : order.length ≤ count) (hreport : result.costReport = some report) :
    report.stepsExecuted = (executor.toolSteps order result.executionLog : Int) ↔
      executor.Faithful order count result.executionLog := by
  obtain ⟨hsteps, htools⟩ := h.stepsExecuted hcount hreport
  rw [hsteps, htools, Faithful, ← ListOrder.countP_and_iff, Int.natCast_inj, eq_comm]
  rfl

theorem schedule_length (flow : AnyFlow) : (executor.schedule flow).length ≤ flow.steps.length := by
  cases flow with
  | linear flow => exact le_rfl
  | dag flow =>
    cases hlevels : computeDagLevels executor.platform.hashing flow with
    | error e => simp [schedule, hlevels]
    | ok levels =>
      obtain ⟨height, hlevelled⟩ := Topology.computeDagLevels_levelled hlevels
      have hlength := hlevelled.perm.length_eq
      simp only [schedule, hlevels, List.length_map, AnyFlow.steps]
      exact hlength.le

theorem overtakes_le {flow : AnyFlow} : executor.Overtakes (· ≤ ·) flow :=
  fun _ _ _ _ _ _ _ _ _ _ _ _ => Nat.le_add_right _ _

end

/-- The reports of runs and of resumed runs. -/
structure CountsToolSteps (executor : Executor) : Prop where
  execute : ∀ lane stack flowName input (call : Call) state events result state' flow report,
    executor.registry.getFlow flowName call.version = .ok flow → executor.Restored flow state →
      (executor.enter stack (executeIn lane flowName input call)).Runs state events (.ok result) state' →
        result.costReport = some report →
          (report.stepsExecuted = executor.toolSteps (executor.schedule flow) result.executionLog ↔
            executor.Faithful (executor.schedule flow) flow.steps.length result.executionLog)
  resume : ∀ lane stack traceId snapshot state events result state' flow report,
    executor.registry.getFlow snapshot.flowName none = .ok flow → executor.Restored flow state →
      executor.Recovered snapshot flow → (∀ e ∈ events, Loads snapshot e) →
        (executor.enter stack (resumeIn lane traceId)).Runs state events (.ok result) state' →
          result.costReport = some report →
            (report.stepsExecuted = executor.toolSteps (executor.schedule flow) result.executionLog ↔
              executor.Faithful (executor.schedule flow) flow.steps.length result.executionLog)

theorem steps_counted (executor : Executor) : CountsToolSteps executor where
  execute lane _ _ _ _ state events _ state' flow _ hflow hstate hrun hreport :=
    (execute_ended lane (fun _ => le_rfl) (fun _ => overtakes_le) hflow state events _ state' hstate (fun _ _ => trivial)
      hrun).2.counted (schedule_length flow) hreport
  resume lane _ _ _ state events _ state' flow _ hflow hstate hfits hloads hrun hreport :=
    (resumed_ended lane (fun _ => le_rfl) (fun _ => overtakes_le) hflow hfits state events _ state' hstate hloads
      hrun).2.counted (schedule_length flow) hreport

-- A sub-flow that refuses its input

def refusingInner : AnyFlow := .linear { name := "g", steps := [Sample.step "a"], inputSchemaRef := some "In" }

def refusingOuter : AnyFlow := .linear { name := "f", steps := [Sample.subflow "g"] }

/-- A platform whose schemas accept nothing. -/
def strictPlatform : Platform :=
  { Sample.platform with modelValidate := fun _ _ => .error (.validation "field required") }

def refusingExecutor : Executor :=
  { Sample.executor [refusingOuter, refusingInner] [Sample.tool "a"] with platform := strictPlatform, hasCostProfile := true }

def refusingRun : List Event × Except Exc ExecutionResult × RunScopedState :=
  Sample.run Sample.named none 0 (refusingExecutor.enter 2 (executeIn .sync "f" .empty {}))

/-- No tool is called, and one tool step is reported. -/
theorem refusingRun_counted :
    (Sample.resultOf refusingRun).map (fun result => (result.costReport.map (·.stepsExecuted),
      refusingExecutor.toolSteps (refusingExecutor.schedule refusingOuter) result.executionLog)) = some (some 1, 0) := by
  decide +kernel

theorem refused_input_counted :
    ¬∀ (executor : Executor) lane stack flowName input (call : Call) events result state' flow report,
      executor.registry.getFlow flowName call.version = .ok flow →
        (executor.enter stack (executeIn lane flowName input call)).Runs {} events (.ok result) state' →
          result.costReport = some report →
            report.stepsExecuted = executor.toolSteps (executor.schedule flow) result.executionLog := by
  intro h
  obtain ⟨result, hresult, hcounts⟩ := Option.map_eq_some_iff.1 refusingRun_counted
  obtain ⟨hreport, htools⟩ := Prod.mk.inj hcounts
  obtain ⟨report, hreport, hsteps⟩ := Option.map_eq_some_iff.1 hreport
  have hcount := h refusingExecutor .sync 2 "f" .empty {} refusingRun.1 result _ refusingOuter report rfl
    (Sample.run_returns hresult) hreport
  rw [hsteps, htools] at hcount
  cases hcount

end ChainWeaver.Executor
