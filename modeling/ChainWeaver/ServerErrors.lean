import ChainWeaver.Drift
import ChainWeaver.Server

/-!
# What a client learns of a failure

A failure that the executor reports reaches the client as its error type at most, if
the server is not to show messages. One that is raised reaches it as it is.
-/

namespace ChainWeaver.Server

open Interaction.Comp (runs_bind runs_ask runs_pure runs_throw)

-- Failures

/-- What a call fails with behind the gate. -/
inductive Failure
  /-- The arguments do not validate. -/
  | input (e : Exc)
  /-- `execute_flow_async` raises. -/
  | raised (e : Exc)
  /-- `execute_flow_async` reports a failure. -/
  | failed (result : ExecutionResult)
  /-- The final output does not validate. -/
  | output (e : Exc)

namespace Failure

/-- The exception of a failure that no renderer sees. -/
def uncaught : Failure → Option Exc
  | .input e | .raised e | .output e => some e
  | .failed _ => none

def recordedType (result : ExecutionResult) : Option String :=
  result.executionLog.getLast?.bind (·.errorType)

/-- Two failures that differ in the texts of messages at most, and in what these quote. -/
def Alike : Failure → Failure → Prop
  | .input e, .input e' => e.typeName = e'.typeName
  | .raised e, .raised e' => e.typeName = e'.typeName
  | .failed result, .failed result' => recordedType result = recordedType result'
  | .output e, .output e' => e.typeName = e'.typeName
  | _, _ => False

/-- The exception that reaches the client. -/
def delivered (gate : RequestGate) (served : Served) : Failure → Exc
  | .input e | .raised e | .output e => e
  | .failed result => .flowExecution served.flowName flowInputStepIndex (gate.failureDetail result)

end Failure

variable {executor : Executor} {gate : RequestGate} {served : Served} {stack : Nat}

/-- A call on `kwargs` fails behind the gate, with the trace `events`. -/
inductive FailsWith (executor : Executor) (stack : Nat) (served : Served) (kwargs : Dict)
    (state : RunScopedState) : Failure → List Event → Prop
  | input : executor.platform.modelValidate served.inputSchema (.dict kwargs.entries) = .error e →
      FailsWith executor stack served kwargs state (.input e) [refusedEvent e]
  | raised : executor.platform.modelValidate served.inputSchema (.dict kwargs.entries) = .ok data →
      (executor.executeFlowAsync stack served.flowName data served.call).Runs state events (.error e) state' →
      FailsWith executor stack served kwargs state (.raised e) events
  | failed : executor.platform.modelValidate served.inputSchema (.dict kwargs.entries) = .ok data →
      (executor.executeFlowAsync stack served.flowName data served.call).Runs state events (.ok result) state' →
      result.success = false → FailsWith executor stack served kwargs state (.failed result) events
  | output : executor.platform.modelValidate served.inputSchema (.dict kwargs.entries) = .ok data →
      (executor.executeFlowAsync stack served.flowName data served.call).Runs state events (.ok result) state' →
      result.success = true → served.outputSchema = some schema → result.finalOutput = some output →
      executor.platform.modelValidate schema (.dict output.entries) = .error e →
      FailsWith executor stack served kwargs state (.output e) (events ++ [faultEvent e])

-- Runs of a dispatcher

/-- Whatever a call behind the gate fails with, the client gets what is delivered of it. -/
theorem dispatcher_fails (hgate : gate.check served request kwargs = .ok ())
    (hrun : (dispatcher executor gate stack served request kwargs).Runs state events (.error e) state') :
    ∃ failure, FailsWith executor stack served kwargs state failure events ∧
      e = failure.delivered gate served := by
  unfold dispatcher at hrun
  rw [hgate] at hrun
  rcases runs_bind.1 hrun with ⟨_, _, _, _, rfl, hcheck, hvalidate⟩ | ⟨_, he, hcheck⟩
  rotate_left
  · cases (runs_pure.1 hcheck).2.1
  obtain ⟨-, rfl, rfl⟩ := runs_orRefuse_ok hcheck
  rcases runs_bind.1 hvalidate with ⟨_, data, _, _, rfl, hinput, hexecute⟩ | ⟨_, he, hinput⟩
  rotate_left
  · obtain ⟨hinvalid, rfl⟩ := runs_orRefuse_error hinput
    exact ⟨_, .input hinvalid, Except.error.inj he⟩
  obtain ⟨hdata, rfl, rfl⟩ := runs_orRefuse_ok hinput
  rcases runs_bind.1 hexecute with ⟨called, result, _, _, rfl, hcall, hanswer⟩ | ⟨_, he, hcall⟩
  rotate_left
  · exact ⟨_, .raised hdata hcall, Except.error.inj he⟩
  simp only [List.nil_append]
  split at hanswer
  · next hfailed =>
    obtain ⟨rfl, he, -⟩ := runs_throw.1 hanswer
    rw [List.append_nil]
    exact ⟨_, .failed hdata hcall (by simpa using hfailed), Except.error.inj he⟩
  next hsuccess =>
  split at hanswer
  · next hschema houtput =>
    obtain ⟨hvalid, rfl⟩ := runs_ofExcept_error hanswer
    exact ⟨_, .output hdata hcall (by simpa using hsuccess) hschema houtput hvalid, rfl⟩
  · cases (runs_pure.1 hanswer).2.1

/-- What `execute_flow_async` raises goes through. -/
theorem dispatcher_raises (hgate : gate.check served request kwargs = .ok ())
    (hdata : executor.platform.modelValidate served.inputSchema (.dict kwargs.entries) = .ok data)
    (hcall : (executor.executeFlowAsync stack served.flowName data served.call).Runs state events (.error e) state') :
    (dispatcher executor gate stack served request kwargs).Runs state events (.error e) state' := by
  unfold dispatcher
  rw [hgate, hdata]
  refine runs_bind.2 (.inl ⟨[], (), state, events, rfl, runs_pure.2 ⟨rfl, rfl, rfl⟩, ?_⟩)
  refine runs_bind.2 (.inl ⟨[], data, state, events, rfl, runs_pure.2 ⟨rfl, rfl, rfl⟩, ?_⟩)
  exact runs_bind.2 (.inr ⟨e, rfl, hcall⟩)

/-- What it reports is told in the words of the gate. -/
theorem dispatcher_reports (hgate : gate.check served request kwargs = .ok ())
    (hdata : executor.platform.modelValidate served.inputSchema (.dict kwargs.entries) = .ok data)
    (hcall : (executor.executeFlowAsync stack served.flowName data served.call).Runs state events (.ok result) state')
    (hfailed : result.success = false) :
    (dispatcher executor gate stack served request kwargs).Runs state events
      (.error (.flowExecution served.flowName flowInputStepIndex (gate.failureDetail result))) state' := by
  unfold dispatcher
  rw [hgate, hdata]
  refine runs_bind.2 (.inl ⟨[], (), state, events, rfl, runs_pure.2 ⟨rfl, rfl, rfl⟩, ?_⟩)
  refine runs_bind.2 (.inl ⟨[], data, state, events, rfl, runs_pure.2 ⟨rfl, rfl, rfl⟩, ?_⟩)
  refine runs_bind.2 (.inl ⟨events, result, state', [], (List.append_nil _).symm, hcall, ?_⟩)
  simp only [hfailed, Bool.not_false, if_true]
  exact runs_throw.2 ⟨rfl, rfl, rfl⟩

/-- What `execute_flow_async` gave can be told from a trace that goes on from it. -/
theorem called_unique (hdata : executor.platform.modelValidate served.inputSchema value = .ok data)
    (hdata' : executor.platform.modelValidate served.inputSchema value = .ok data')
    (hrun : (executor.executeFlowAsync stack served.flowName data served.call).Runs state events r s)
    (hrun' : (executor.executeFlowAsync stack served.flowName data' served.call).Runs state events' r' s')
    (heq : events ++ first = events' ++ second) : r = r' := by
  obtain rfl := Except.ok.inj (hdata.symm.trans hdata')
  exact (Prod.mk.inj (Interaction.Prog.Runs.unique hrun hrun' heq).2).1

theorem FailsWith.unique {failure failure' : Failure}
    (h : FailsWith executor stack served kwargs state failure events)
    (h' : FailsWith executor stack served kwargs state failure' events') (heq : events = events') :
    failure = failure' := by
  cases h with
  | input hinvalid =>
    cases h' with
    | input hinvalid' => exact congrArg Failure.input (Except.error.inj (hinvalid.symm.trans hinvalid'))
    | raised hdata | failed hdata | output hdata => cases hinvalid.symm.trans hdata
  | raised hdata hrun =>
    cases h' with
    | input hinvalid => cases hinvalid.symm.trans hdata
    | raised hdata' hrun' =>
      exact congrArg Failure.raised (Except.error.inj (called_unique hdata hdata' hrun hrun' (congrArg (· ++ []) heq)))
    | failed hdata' hrun' => cases called_unique hdata hdata' hrun hrun' (congrArg (· ++ []) heq)
    | output hdata' hrun' => cases called_unique hdata hdata' hrun hrun' ((List.append_nil _).trans heq)
  | failed hdata hrun hfailed =>
    cases h' with
    | input hinvalid => cases hinvalid.symm.trans hdata
    | raised hdata' hrun' => cases called_unique hdata hdata' hrun hrun' (congrArg (· ++ []) heq)
    | failed hdata' hrun' =>
      exact congrArg Failure.failed (Except.ok.inj (called_unique hdata hdata' hrun hrun' (congrArg (· ++ []) heq)))
    | output hdata' hrun' hsuccess =>
      obtain rfl := Except.ok.inj (called_unique hdata hdata' hrun hrun' ((List.append_nil _).trans heq))
      cases hfailed.symm.trans hsuccess
  | output hdata hrun hsuccess hschema houtput hvalid =>
    cases h' with
    | input hinvalid => cases hinvalid.symm.trans hdata
    | raised hdata' hrun' => cases called_unique hdata hdata' hrun hrun' (heq.trans (List.append_nil _).symm)
    | failed hdata' hrun' hfailed =>
      obtain rfl := Except.ok.inj (called_unique hdata hdata' hrun hrun' (heq.trans (List.append_nil _).symm))
      cases hfailed.symm.trans hsuccess
    | output hdata' hrun' hsuccess' hschema' houtput' hvalid' =>
      obtain rfl := Except.ok.inj (called_unique hdata hdata' hrun hrun' heq)
      obtain rfl := Option.some.inj (hschema.symm.trans hschema')
      obtain rfl := Option.some.inj (houtput.symm.trans houtput')
      exact congrArg Failure.output (Except.error.inj (hvalid.symm.trans hvalid'))

-- What the client learns

/-- The text that stands for a failed run whose messages are not to be shown. -/
def RequestGate.masked (gate : RequestGate) (result : ExecutionResult) : String :=
  renderErrorDetail ((Failure.recordedType result).or (some "FlowExecutionError")) none gate.errorDetail none

theorem renderErrorDetail_masked (hmode : mode ≠ .full) :
    renderErrorDetail errorType errorMessage mode redaction = renderErrorDetail errorType none mode none := by
  cases mode with
  | full => exact absurd rfl hmode
  | typeOnly | generic => rfl

theorem failureDetail_masked (hmode : gate.errorDetail ≠ .full) (result : ExecutionResult) :
    gate.failureDetail result = gate.masked result := by
  unfold RequestGate.failureDetail RequestGate.masked RequestGate.renderError Failure.recordedType
  rw [renderErrorDetail_masked hmode, renderErrorDetail_masked hmode]
  cases result.executionLog.getLast? with
  | none => rfl
  | some last =>
    cases h : last.errorType with
    | none => simp [h]
    | some errorType => simpa [h] using renderErrorDetail_masked hmode

/-- A flow that may not overwrite its context. -/
def guardedFlow : Flow := { name := "f", onContextCollision := .error, steps := [Sample.step "a"] }

def guardedExecutor : Executor := Sample.executor [.linear guardedFlow] [Sample.tool "a"]

def guardedServed : Served :=
  { mcpName := "f", flowName := "f", flowVersion := "0.1.0", inputSchema := "In", outputSchema := none, safety := none }

def discreet (errorDetail : ErrorDetail) : RequestGate := { errorDetail }

def guardedCall (fn : Invocation → Except Exc Value) (kwargs : Dict) :
    List Event × Except Exc ExecutionResult × RunScopedState :=
  Sample.run fn none 0 (guardedExecutor.executeFlowAsync 0 "f" kwargs guardedServed.call)

/-- The tool raises, and the text of its exception is a secret. -/
def raising (text : String) (_ : Invocation) : Except Exc Value := .error (.other "ValueError" text)

/-- The tool gives back what it gets. -/
def echo (invocation : Invocation) : Except Exc Value := .ok (.dict invocation.validated.entries)

def errorOf (ran : List Event × Except Exc ExecutionResult × RunScopedState) : Option Exc :=
  match ran.2.1 with
  | .ok _ => none
  | .error e => some e

theorem errorOf_eq (h : errorOf ran = some e) : ran.2.1 = .error e := by
  unfold errorOf at h
  split at h
  · cases h
  · next hr => exact Option.some.inj h ▸ hr

theorem guardedCall_raises (request : Request) (h : errorOf (guardedCall fn kwargs) = some e)
    (hdata : Sample.platform.modelValidate "In" (.dict kwargs.entries) = .ok kwargs) (mode : ErrorDetail) :
    (dispatcher guardedExecutor (discreet mode) 0 guardedServed request kwargs).Runs {} (guardedCall fn kwargs).1
        (.error e) (guardedCall fn kwargs).2.2 ∧
      FailsWith guardedExecutor 0 guardedServed kwargs {} (.raised e) (guardedCall fn kwargs).1 := by
  have hcall := Sample.run_runs fn none 0 (guardedExecutor.executeFlowAsync 0 "f" kwargs guardedServed.call)
  rw [show (Sample.run fn none 0 (guardedExecutor.executeFlowAsync 0 "f" kwargs guardedServed.call)).2.1 = .error e from
    errorOf_eq h] at hcall
  exact ⟨dispatcher_raises rfl hdata hcall, .raised hdata hcall⟩

theorem guardedCall_reports (request : Request) (h : Sample.resultOf (guardedCall fn kwargs) = some result)
    (hfailed : result.success = false)
    (hdata : Sample.platform.modelValidate "In" (.dict kwargs.entries) = .ok kwargs) (mode : ErrorDetail) :
    (dispatcher guardedExecutor (discreet mode) 0 guardedServed request kwargs).Runs {} (guardedCall fn kwargs).1
        (.error (.flowExecution "f" flowInputStepIndex ((discreet mode).failureDetail result)))
        (guardedCall fn kwargs).2.2 ∧
      FailsWith guardedExecutor 0 guardedServed kwargs {} (.failed result) (guardedCall fn kwargs).1 := by
  have hcall := Sample.run_returns h
  exact ⟨dispatcher_reports rfl hdata hcall hfailed, .failed hdata hcall hfailed⟩

end ChainWeaver.Server
