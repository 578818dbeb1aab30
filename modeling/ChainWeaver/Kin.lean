import ChainWeaver.Step

/-!
# Records that say the same

Two runs of one flow differ in their trace ids. They may differ further in marks that say how a
record came about: that it was taken from the cache, or what the lane it ran in adds to the texts
of errors. Records are kin if they are equal without these.
-/

namespace ChainWeaver

/-- The marks in which kin may differ beside trace ids. -/
structure Marks where
  cached : Bool := false
  lanes : Bool := false

/-- The error text of a record. The lanes describe a key clash inside a level in different words. -/
def keptMessage (marks : Marks) (errorType errorMessage : Option String) : Option String :=
  if marks.lanes && errorType == some "FlowExecutionError" then none else errorMessage

/-- The retry errors of a record. The lanes differ in what they add for a fallback. -/
def keptErrors (marks : Marks) (fallbackUsed : Bool) (retryErrors : List String) : List String :=
  if marks.lanes && fallbackUsed then [] else retryErrors

mutual

def StepRecord.without (marks : Marks) : StepRecord → StepRecord
  | ⟨stepIndex, toolName, inputs, outputs, errorType, errorMessage, success, retryCount, retryErrors, skipped, cached,
      fallbackUsed, fallbackToolName, flowName, subResult, approval, decision⟩ =>
    ⟨stepIndex, toolName, inputs, outputs, errorType, keptMessage marks errorType errorMessage, success, retryCount,
      keptErrors marks fallbackUsed retryErrors, skipped, !marks.cached && cached, fallbackUsed, fallbackToolName, flowName,
      subWithout marks subResult, approval, decision⟩

def subWithout (marks : Marks) : Option ExecutionResult → Option ExecutionResult
  | none => none
  | some result => some (ExecutionResult.without marks result)

def ExecutionResult.without (marks : Marks) : ExecutionResult → ExecutionResult
  | ⟨flowName, flowVersion, success, finalOutput, executionLog, _, initialInput, dryRun, costReport⟩ =>
    ⟨flowName, flowVersion, success, finalOutput, logWithout marks executionLog, "", initialInput, dryRun, costReport⟩

def logWithout (marks : Marks) : List StepRecord → List StepRecord
  | [] => []
  | record :: rest => StepRecord.without marks record :: logWithout marks rest

end

def StepRecord.Kin (marks : Marks) (record record' : StepRecord) : Prop := record.without marks = record'.without marks

def ExecutionResult.Kin (marks : Marks) (result result' : ExecutionResult) : Prop :=
  result.without marks = result'.without marks

def LogKin (marks : Marks) (log log' : List StepRecord) : Prop := logWithout marks log = logWithout marks log'

variable {marks : Marks}

theorem StepRecord.without_eq (record : StepRecord) : record.without marks =
    { record with
      errorMessage := keptMessage marks record.errorType record.errorMessage,
      retryErrors := keptErrors marks record.fallbackUsed record.retryErrors,
      cached := !marks.cached && record.cached,
      subResult := subWithout marks record.subResult } := by
  cases record
  rfl

theorem ExecutionResult.without_eq (result : ExecutionResult) : result.without marks =
    { result with executionLog := logWithout marks result.executionLog, traceId := "" } := by
  cases result
  rfl

theorem logWithout_eq (log : List StepRecord) : logWithout marks log = log.map (·.without marks) := by
  induction log with
  | nil => rfl
  | cons record rest ih => rw [logWithout, ih, List.map_cons]

-- Records

namespace StepRecord.Kin

variable {record record' : StepRecord}

@[refl]
theorem refl (record : StepRecord) : record.Kin marks record := Eq.refl _

theorem of_eq (h : record = record') : record.Kin marks record' := congrArg _ h

theorem fields (h : record.Kin marks record') :
    { record with
      errorMessage := keptMessage marks record.errorType record.errorMessage,
      retryErrors := keptErrors marks record.fallbackUsed record.retryErrors,
      cached := !marks.cached && record.cached,
      subResult := subWithout marks record.subResult } =
    { record' with
      errorMessage := keptMessage marks record'.errorType record'.errorMessage,
      retryErrors := keptErrors marks record'.fallbackUsed record'.retryErrors,
      cached := !marks.cached && record'.cached,
      subResult := subWithout marks record'.subResult } := by
  rw [← without_eq, ← without_eq]
  exact h

theorem stepIndex (h : record.Kin marks record') : record.stepIndex = record'.stepIndex :=
  (congrArg StepRecord.stepIndex h.fields :)

theorem inputs (h : record.Kin marks record') : record.inputs = record'.inputs :=
  (congrArg StepRecord.inputs h.fields :)

theorem outputs (h : record.Kin marks record') : record.outputs = record'.outputs :=
  (congrArg StepRecord.outputs h.fields :)

theorem errorType (h : record.Kin marks record') : record.errorType = record'.errorType :=
  (congrArg StepRecord.errorType h.fields :)

theorem success (h : record.Kin marks record') : record.success = record'.success :=
  (congrArg StepRecord.success h.fields :)

/-- Within one lane the texts are the same too. -/
theorem errorMessage (h : record.Kin marks record') (hlanes : marks.lanes = false) :
    record.errorMessage = record'.errorMessage := by
  have h : keptMessage marks record.errorType record.errorMessage = keptMessage marks record'.errorType record'.errorMessage :=
    (congrArg StepRecord.errorMessage h.fields :)
  simpa [keptMessage, hlanes] using h

theorem failWith (h : record.Kin marks record') (e : Exc) : (record.failWith e).Kin marks (record'.failWith e) := by
  have h := h.fields
  simp only [StepRecord.mk.injEq] at h
  simp_all [StepRecord.Kin, without_eq, StepRecord.failWith]

theorem succeedWith (h : record.Kin marks record') (outputs : Dict) :
    (record.succeedWith outputs).Kin marks (record'.succeedWith outputs) := by
  have h := h.fields
  simp only [StepRecord.mk.injEq] at h
  simp_all [StepRecord.Kin, without_eq, StepRecord.succeedWith]

/-- The same but for retry errors that only the lane tells. -/
theorem of_errors (hfields : { record with retryErrors := [] } = { record' with retryErrors := [] })
    (herrors : keptErrors marks record.fallbackUsed record.retryErrors =
      keptErrors marks record'.fallbackUsed record'.retryErrors) : record.Kin marks record' := by
  simp only [StepRecord.mk.injEq] at hfields
  simp_all [StepRecord.Kin, without_eq]

theorem withCached (h : record.Kin marks record') {cached cached' : Bool} (hcached : marks.cached = false → cached = cached') :
    StepRecord.Kin marks { record with cached } { record' with cached := cached' } := by
  have h := h.fields
  have hmark : (!marks.cached && cached) = (!marks.cached && cached') := by
    cases hm : marks.cached with
    | true => rfl
    | false => rw [hcached hm]
  simp only [StepRecord.mk.injEq] at h
  rw [StepRecord.Kin, without_eq, without_eq]
  simp only [StepRecord.mk.injEq, hmark]
  tauto

/-- The mark of a record from the cache, where it does not count. -/
theorem without_cached (hcached : marks.cached = true) (record : StepRecord) (cached : Bool) :
    StepRecord.without marks { record with cached } = record.without marks := by
  simp only [without_eq, hcached, Bool.not_true, Bool.false_and]

end StepRecord.Kin

-- Logs and results

namespace LogKin

variable {log log' rest rest' : List StepRecord} {record record' : StepRecord}

@[refl]
theorem refl (log : List StepRecord) : LogKin marks log log := Eq.refl _

theorem iff_forall₂ : LogKin marks log log' ↔ List.Forall₂ (StepRecord.Kin marks) log log' := by
  unfold LogKin
  rw [logWithout_eq, logWithout_eq]
  induction log generalizing log' with
  | nil => cases log' <;> simp
  | cons record rest ih => cases log' <;> simp [ih, StepRecord.Kin]

theorem append (h : LogKin marks log log') (hrest : LogKin marks rest rest') : LogKin marks (log ++ rest) (log' ++ rest') := by
  unfold LogKin at *
  simp only [logWithout_eq, List.map_append] at *
  rw [h, hrest]

theorem single (h : record.Kin marks record') : LogKin marks [record] [record'] := by
  unfold LogKin
  rw [logWithout, logWithout, h]
  rfl

theorem concat (h : LogKin marks log log') (hrecord : record.Kin marks record') :
    LogKin marks (log ++ [record]) (log' ++ [record']) :=
  h.append (.single hrecord)

theorem length (h : LogKin marks log log') : log.length = log'.length := by
  have h := congrArg List.length h
  simpa [logWithout_eq] using h

end LogKin

namespace ExecutionResult.Kin

variable {result result' : ExecutionResult}

@[refl]
theorem refl (result : ExecutionResult) : result.Kin marks result := Eq.refl _

theorem fields (h : result.Kin marks result') :
    { result with executionLog := logWithout marks result.executionLog, traceId := "" } =
      { result' with executionLog := logWithout marks result'.executionLog, traceId := "" } := by
  rw [← without_eq, ← without_eq]
  exact h

theorem success (h : result.Kin marks result') : result.success = result'.success :=
  (congrArg ExecutionResult.success h.fields :)

theorem finalOutput (h : result.Kin marks result') : result.finalOutput = result'.finalOutput :=
  (congrArg ExecutionResult.finalOutput h.fields :)

theorem executionLog (h : result.Kin marks result') : LogKin marks result.executionLog result'.executionLog :=
  (congrArg ExecutionResult.executionLog h.fields :)

end ExecutionResult.Kin

-- What is counted

namespace Executor

mutual

theorem countRecord_without : (record : StepRecord) → countRecord (record.without marks) = countRecord record
  | ⟨_, _, _, _, _, _, _, _, _, _, _, _, _, _, subResult, _, _⟩ => countSubResult_without subResult

theorem countSubResult_without : (sub : Option ExecutionResult) → countSubResult (subWithout marks sub) = countSubResult sub
  | none => rfl
  | some ⟨_, _, _, _, executionLog, _, _, _, _⟩ => countLog_without executionLog

theorem countLog_without : (log : List StepRecord) →
    countComposedToolSteps (logWithout marks log) = countComposedToolSteps log
  | [] => rfl
  | record :: rest => by
    simp only [logWithout, countComposedToolSteps, countRecord_without record, countLog_without rest]

end

theorem compositionAdjustment_without (log : List StepRecord) :
    compositionAdjustment (logWithout marks log) = compositionAdjustment log := by
  induction log with
  | nil => rfl
  | cons record rest ih =>
    obtain ⟨_, _, _, _, _, _, _, _, _, _, _, _, _, _, subResult, _, _⟩ := record
    cases subResult with
    | none => simpa only [logWithout, StepRecord.without, subWithout, compositionAdjustment] using ih
    | some sub =>
      have hsub : countComposedToolSteps (sub.without marks).executionLog = countComposedToolSteps sub.executionLog := by
        rw [ExecutionResult.without_eq]
        exact countLog_without sub.executionLog
      simp only [logWithout, StepRecord.without, subWithout, compositionAdjustment, ih, hsub]

theorem costReport_kin {executor : Executor} {log log' : List StepRecord} (h : LogKin marks log log') (count : Option Nat) :
    executor.costReport log count = executor.costReport log' count := by
  have hadjust : compositionAdjustment log = compositionAdjustment log' := by
    rw [← compositionAdjustment_without log, h, compositionAdjustment_without]
  simp only [costReport, h.length, hadjust]

end Executor

-- Errors

/-- The same error, or two cancellations with partial results that are kin. -/
inductive Exc.Kin (marks : Marks) : Exc → Exc → Prop
  | same (e : Exc) : Exc.Kin marks e e
  | cancelled {result result' : ExecutionResult} (flowName : String) (stepIndex : Int) (late cancelled : Bool) :
      result.Kin marks result' →
      Exc.Kin marks (.flowCancelled flowName stepIndex result late cancelled)
        (.flowCancelled flowName stepIndex result' late cancelled)

namespace Exc.Kin

variable {e e' : Exc}

theorem message (h : e.Kin marks e') : e.message = e'.message := by
  cases h <;> rfl

theorem typeName (h : e.Kin marks e') : e.typeName = e'.typeName := by
  cases h <;> rfl

theorem wrap (h : e.Kin marks e') (toolName : String) (stepIndex : Int) :
    Executor.wrapToolException toolName stepIndex e = Executor.wrapToolException toolName stepIndex e' := by
  cases h <;> rfl

end Exc.Kin

end ChainWeaver
