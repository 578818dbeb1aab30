import ChainWeaver.Metrics
import ChainWeaver.Success

/-!
# Recordings of a run

The hooks of a run tell its log step by step, so that both ways of recording come to the same wherever no
record gets into the log, or out of it, beside a hook.
-/

namespace ChainWeaver.Metrics

open Executor
open Interaction (Closed Frame Prog)

-- Where hooks and logs part

/-- A flow starts to run. -/
def startsFlow : Event → Bool
  | ⟨.hook, .flowStart .., _⟩ => true
  | _ => false

/-- A record enters the log without a hook, or is replaced after its hook: the inputs of a sub-flow step are
not resolved, a step is refused that the lane has no code for, the outputs of a step cannot be placed, the log
of a snapshot is taken over, or a check of the flow leaves its record. -/
inductive Astray (executor : Executor) (lane : Lane) : Event → Prop
  | unresolved : resolveInputs step context stepIndex = .error e →
      Astray executor lane (probeEvent (.subInputs traceId stepIndex step context))
  | unsupported : Astray executor lane (probeEvent (.unsupported traceId stepIndex step))
  | unplaceable : executor.Unplaceable lane step context outputs levelOutputs →
      Astray executor lane (probeEvent (.place traceId step context outputs levelOutputs))
  | logged : record ∈ log → record.skipped = false →
      Astray executor lane (probeEvent (.seed traceId header initialInput context log level))
  | checked : flowRecord checkedName payload stepIndex detail label ∈ result.executionLog →
      Astray executor lane (hookEvent (.flowEnd traceId flowName result))

structure Plain (executor : Executor) (lane : Lane) (events : List Event) : Prop where
  alone : ∀ e ∈ events, startsFlow e = false
  straight : ∀ e ∈ events, ¬Astray executor lane e

/-- A hook tells of the record. -/
def Tells (events : List Event) (record : StepRecord) : Prop :=
  ∃ traceId flowName, hookEvent (.stepEnd traceId flowName record) ∈ events

/-- A step that fails is the last that a hook tells of. -/
def FailsLast (events : List Event) : Prop :=
  ∀ record other, Tells events record → record.success = false → Tells events other →
    other.stepIndex ≤ record.stepIndex

section

variable {executor : Executor} {lane : Lane} {first second events : List Event} {δ : Type} {clock : Clock δ}

theorem Plain.left (h : Plain executor lane (first ++ second)) : Plain executor lane first :=
  ⟨fun e he => h.alone e (List.mem_append_left _ he), fun e he => h.straight e (List.mem_append_left _ he)⟩

theorem Plain.right (h : Plain executor lane (first ++ second)) : Plain executor lane second :=
  ⟨fun e he => h.alone e (List.mem_append_right _ he), fun e he => h.straight e (List.mem_append_right _ he)⟩

theorem Tells.more {record : StepRecord} (h : Tells first record) : Tells (first ++ second) record := by
  obtain ⟨traceId, flowName, hmem⟩ := h
  exact ⟨traceId, flowName, List.mem_append_left _ hmem⟩

@[simp] theorem recorded_nil : recorded clock [] = [] := rfl

@[simp] theorem recorded_append :
    recorded clock (first ++ second) = recorded clock first ++ recorded clock second := by
  simp [recorded, hooksOf]

theorem recorded_perm (h : first.Perm second) : (recorded clock first).Perm (recorded clock second) :=
  (h.filterMap _).flatMap_right _

-- Inside steps

/-- Unless a flow starts, nothing is recorded. -/
def Hushed (clock : Clock δ) (events : List Event) : Prop :=
  (∀ e ∈ events, startsFlow e = false) → recorded clock events = []

theorem closed_hushed : Closed (Hushed clock) where
  nil _ := rfl
  append hfirst hsecond halone := by
    rw [recorded_append, hfirst fun e he => halone e (List.mem_append_left _ he),
      hsecond fun e he => halone e (List.mem_append_right _ he), List.append_nil]

theorem hushed_single (h : recorded clock [e] = []) : Hushed clock [e] := fun _ => h

theorem hushed_start (h : startsFlow e = true) (hmem : e ∈ events) : Hushed clock events :=
  fun halone => absurd ((halone e hmem).symm.trans h) (by decide)

def hushedPolicy (executor : Executor) (clock : Clock δ) : Policy where
  executor := executor
  Inv _ := True
  I _ _ := Hushed clock
  W _ _ _ := Hushed clock

theorem hushedPolicy_sound (executor : Executor) (clock : Clock δ) : (hushedPolicy executor clock).Sound where
  stable := ⟨id, id⟩
  enter := id
  step hn := by
    refine .of_events closed_hushed (fun e he => hushed_single ?_) (fun _ _ _ _ _ _ => rfl) ?_
    · cases he <;> rfl
    · intro origin flowName input cancellation callee _ _
      exact nestedCall_upholds (hn callee flowName input cancellation) fun raised events hevents =>
        closed_hushed.append (closed_hushed.append (hushed_single rfl) hevents) (hushed_single rfl)
  whole hcalled := by
    cases hcalled with
    | refused => exact hushed_single rfl
    | entered _ _ _ hopened =>
      cases hopened with
      | unlevelled _ => exact fun _ => rfl
      | fresh =>
        refine hushed_start ?_
          (List.mem_append_right _ (List.mem_append_left _ (List.mem_cons_of_mem _ List.mem_cons_self)))
        rfl
      | resumed =>
        refine hushed_start ?_ (List.mem_append_right _ (List.mem_append_left _ List.mem_cons_self))
        rfl

-- The account of a run

/-- Behind whatever raises nothing more is asked. -/
def OnOk (Q : α → List Event → Prop) : Except Exc α → List Event → Prop
  | .ok value, events => Q value events
  | .error _, _ => True

/-- A run whose recordings are compared. -/
structure Account (δ : Type) where
  clock : Clock δ
  executor : Executor
  lane : Lane
  run : RunInfo

namespace Account

variable (A : Account δ)

/-- The hooks have told of the log so far. -/
def Tallies (log : List StepRecord) (events : List Event) : Prop :=
  Plain A.executor A.lane events →
    (recorded A.clock events).Perm (log.flatMap (recordStep A.clock A.run.flowName))

/-- The recordings of the run and those of its result are the same. -/
def Matches (result : ExecutionResult) (events : List Event) : Prop :=
  Plain A.executor A.lane events → FailsLast events →
    (recorded A.clock events).Perm (exportResultToOtelMetrics A.clock result)

/-- A part of the run that moves it, or ends it. -/
def Advances (logOf : α → List StepRecord) : Progress α → List Event → Prop
  | .going state, events => A.Tallies (logOf state) events
  | .ended result, events => A.Matches result events

abbrev Obeyed (nested : Nested) : Prop := (hushedPolicy A.executor A.clock).Obeyed nested

end Account

variable {A : Account δ} {log : List StepRecord} {history : List Event} {nested : Nested}

theorem Account.Tallies.quiet (h : A.Tallies log history) (he : recorded A.clock [e] = []) :
    A.Tallies log (history ++ [e]) := by
  intro hplain
  rw [recorded_append, he, List.append_nil]
  exact h hplain.left

/-- Nothing is asked of what goes astray. -/
theorem Account.Tallies.astray (he : Astray A.executor A.lane e) (hmem : e ∈ events) : A.Tallies log events :=
  fun hplain => absurd he (hplain.straight e hmem)

theorem Account.Matches.astray {result : ExecutionResult} (he : Astray A.executor A.lane e) (hmem : e ∈ events) :
    A.Matches result events :=
  fun hplain _ => absurd he (hplain.straight e hmem)

/-- The turn of a step tells of its record. -/
theorem turn_recorded {info : StepInfo} (hturn : Turn (Hushed clock) info record events)
    (hplain : Plain executor lane events) :
    recorded clock events = recordStep clock info.flowName record ∧ Tells events record := by
  cases hturn with
  | lone hbefore _ _ =>
    rw [recorded_append, hbefore hplain.left.alone]
    exact ⟨by simp [recorded, hooksOf, onHook], _, _, List.mem_append_right _ List.mem_cons_self⟩
  | bracket hbefore hbody _ =>
    have hquiet := hbefore hplain.left.left.left.alone
    have hinside := hbody hplain.left.right.alone
    simp only [recorded_append, hquiet, hinside]
    exact ⟨by simp [recorded, hooksOf, onHook], _, _, List.mem_append_right _ List.mem_cons_self⟩
  | unheard hresolve _ _ => exact absurd (.unresolved hresolve) (hplain.straight _ List.mem_cons_self)

theorem Account.Tallies.turn {info : StepInfo} (h : A.Tallies log history)
    (hturn : Turn (Hushed A.clock) info record own) (hflow : info.flowName = A.run.flowName) :
    A.Tallies (log ++ [record]) (history ++ own) := by
  intro hplain
  rw [recorded_append, List.flatMap_append, (turn_recorded hturn hplain.right).1, hflow, List.flatMap_singleton]
  exact (h hplain.left).append_right _

-- Results

theorem from_any {c : Exec α} : anyFrame.From history c fun _ _ => True := fun _ _ _ _ _ _ => ⟨trivial, trivial⟩

/-- What raises in the end. -/
theorem from_raising {c : Exec α} {e : α → Exc} {Q : β → List Event → Prop} :
    anyFrame.From history (do let value ← c; throw (e value)) (OnOk Q) :=
  .bind from_any (fun _ _ _ => .throw trivial) fun _ _ _ => trivial

theorem deleteSnapshot_recorded {result : ExecutionResult} :
    anyFrame.From history (A.executor.deleteSnapshot result) (OnOk fun _ events =>
      ∃ own, events = history ++ own ∧ recorded A.clock own = []) := by
  unfold deleteSnapshot
  split
  · exact .ask_bind fun reply => from_ofExcept (fun _ _ => ⟨_, rfl, rfl⟩) fun _ => trivial
  · exact .pure ⟨[], (List.append_nil _).symm, rfl⟩

theorem makeResult_recorded {success : Bool} {output : Option Dict} {count : Option Nat} :
    anyFrame.From history (A.executor.makeResult A.run success output log count) (OnOk fun result events =>
      result.executionLog = log ∧ result.flowName = A.run.flowName ∧
        ∃ own, events = history ++ own ∧ recorded A.clock own = recordFlow A.clock result ∧
          hookEvent (.flowEnd A.run.traceId A.run.flowName result) ∈ own) := by
  unfold makeResult
  refine .get_bind fun state _ => .bind deleteSnapshot_recorded (fun _ events hevents => ?_) fun _ _ _ => trivial
  obtain ⟨own, rfl, hown⟩ := hevents
  refine .ask_bind fun _ => .pure ⟨rfl, rfl, _, List.append_assoc .., ?_, List.mem_append_right _ List.mem_cons_self⟩
  rw [recorded_append, hown]
  rfl

theorem makeResult_matches {success : Bool} {output : Option Dict} {count : Option Nat} (h : A.Tallies log history) :
    anyFrame.From history (A.executor.makeResult A.run success output log count) (OnOk A.Matches) := by
  refine makeResult_recorded.weaken fun r events hr => ?_
  cases r with
  | error e => trivial
  | ok result =>
    obtain ⟨hlog, hname, own, rfl, hown, -⟩ := hr
    intro hplain _
    rw [recorded_append, hown, exportResultToOtelMetrics, hlog, hname]
    exact (h hplain.left).append_right _

/-- A result with the record of a check. -/
theorem makeResult_checked {flowName : String} {payload : Dict} {stepIndex : Int} {detail label : String}
    {success : Bool} {output : Option Dict} {count : Option Nat}
    (hmem : flowRecord flowName payload stepIndex detail label ∈ log) :
    anyFrame.From history (A.executor.makeResult A.run success output log count) (OnOk A.Matches) := by
  refine makeResult_recorded.weaken fun r events hr => ?_
  cases r with
  | error e => trivial
  | ok result =>
    obtain ⟨hlog, -, own, rfl, -, hend⟩ := hr
    rw [← hlog] at hmem
    exact Account.Matches.astray (.checked hmem) (List.mem_append_right _ hend)

theorem ended_matches {success : Bool} {output : Option Dict} {count : Option Nat} {logOf : α → List StepRecord}
    (h : A.Tallies log history) :
    anyFrame.From history (do
      pure (Progress.ended (← A.executor.makeResult A.run success output log count))) (OnOk (A.Advances logOf)) :=
  .bind (makeResult_matches h) (fun _ _ hresult => .pure hresult) fun _ _ _ => trivial

/-- A run that ends behind something astray. -/
theorem ended_astray {success : Bool} {output : Option Dict} {count : Option Nat} {logOf : α → List StepRecord}
    (he : Astray A.executor A.lane e) (hmem : e ∈ history) :
    anyFrame.From history (do
      pure (Progress.ended (← A.executor.makeResult A.run success output log count))) (OnOk (A.Advances logOf)) := by
  refine .bind makeResult_recorded (fun result events hresult => .pure ?_) fun _ _ _ => trivial
  obtain ⟨-, -, own, rfl, -, -⟩ := hresult
  exact Account.Matches.astray he (List.mem_append_left _ hmem)

-- Between steps

theorem checkCancellation_tallies {cancellation : Cancellation} {index : Nat} {known : List StepRecord}
    (h : A.Tallies log history) :
    anyFrame.From history (A.executor.checkCancellation A.run index cancellation known)
      (OnOk fun _ => A.Tallies log) := by
  have hlate : anyFrame.From history (deadlineExceeded cancellation) (OnOk fun _ => A.Tallies log) := by
    unfold deadlineExceeded
    split
    · exact .pure h
    · exact .ask_bind fun _ => .pure (h.quiet rfl)
  unfold checkCancellation
  refine .bind hlate (fun late history h => ?_) fun _ _ _ => trivial
  have hcancelled : anyFrame.From history (tokenCancelled cancellation) (OnOk fun _ => A.Tallies log) := by
    unfold tokenCancelled
    split
    · exact .ask fun _ => h.quiet rfl
    · exact .pure h
  refine .bind hcancelled (fun cancelled history h => ?_) fun _ _ _ => trivial
  split
  · exact .ask_bind fun _ => from_raising
  · exact .pure h

theorem saveSnapshot_tallies {flow : AnyFlow} {context : Dict} {known : List StepRecord} {completed : Nat}
    (h : A.Tallies log history) :
    anyFrame.From history (A.executor.saveSnapshot A.run flow context known completed)
      (OnOk fun _ => A.Tallies log) := by
  unfold saveSnapshot
  refine .get_bind fun state _ => ?_
  split
  · refine from_ofExcept_bind (fun hashes _ => .ask_bind fun reply => ?_) fun _ => trivial
    exact from_ofExcept (fun _ _ => h.quiet rfl) fun _ => trivial
  · exact .pure h

theorem finishFlow_matches {header : FlowHeader} {stepCount : Int} {checkContext : Bool} {context : Dict}
    (h : A.Tallies log history) :
    anyFrame.From history (A.executor.finishFlow A.run header stepCount checkContext context log)
      (OnOk A.Matches) := by
  unfold finishFlow
  refine from_ofExcept_bind (fun outputFailure houtput => ?_) fun _ => trivial
  cases outputFailure with
  | some record =>
    obtain ⟨detail, rfl⟩ := validateFlowSchema_some houtput
    exact makeResult_checked (List.mem_append_right _ List.mem_cons_self)
  | none =>
    refine .ask_bind fun _ => from_ofExcept_bind (fun contextFailure hcontext => ?_) fun _ => trivial
    cases contextFailure with
    | some record =>
      obtain ⟨detail, rfl⟩ := validateFlowSchema_some hcontext
      exact makeResult_checked (List.mem_append_right _ List.mem_cons_self)
    | none => exact makeResult_matches (h.quiet rfl)

theorem mergeOutputs_tallies {mode : LinearMode} {policy : ContextCollisionPolicy} {step : FlowStep} {index : Nat}
    {context : Dict} {record : StepRecord} (h : A.Tallies log history) :
    anyFrame.From history (mergeOutputs mode A.run policy step index context record)
      (OnOk fun _ => A.Tallies log) := by
  unfold mergeOutputs
  split
  · split
    · exact ensures_raise trivial
    · exact from_displayName_bind (fun _ _ => ensures_raise trivial) fun _ => trivial
  · refine from_displayName_bind (fun name _ => ?_) fun _ => trivial
    refine from_ofExcept_bind (fun mapped _ => ?_) fun _ => trivial
    refine .ask_bind fun _ => ?_
    split
    · exact .pure (h.quiet rfl)
    · exact from_ofExcept (fun _ _ => h.quiet rfl) fun _ => trivial

-- Linear flows

/-- What is inside a step. -/
theorem Account.Obeyed.inside (hn : A.Obeyed nested) (lane : Lane) (info : StepInfo) :
    Inside A.executor (fun _ => True) (Hushed A.clock) lane nested info :=
  (hushedPolicy_sound A.executor A.clock).step hn

theorem executeStepIn_recorded (hn : A.Obeyed nested) (lane : Lane) {info : StepInfo} {step : FlowStep}
    {context : Dict} {cancellation : Cancellation} :
    anyFrame.From [] (A.executor.executeStepIn lane nested info step context cancellation)
      (StepQ (Hushed A.clock) info) :=
  executeStepIn_turn ⟨id, id⟩ (hn.inside lane info)

theorem linearStep_tallies (hn : A.Obeyed nested) {mode : LinearMode} {flow : Flow} {cancellation : Cancellation}
    {index : Nat} {step : FlowStep} {context : Dict} (h : A.Tallies log history) :
    anyFrame.From history (A.executor.linearStep mode nested A.run flow cancellation index step context log)
      (OnOk (A.Advances fun state => state.2)) := by
  have hturn : anyFrame.From history (A.executor.checkTurn mode A.run index cancellation log)
      (OnOk fun _ => A.Tallies log) := by
    unfold checkTurn
    split
    · exact .pure h
    · exact checkCancellation_tallies h
  unfold linearStep
  refine .bind hturn (fun _ history h => ?_) fun _ _ _ => trivial
  refine .attempt_bind (Frame.From.after (executeStepIn_recorded hn _)) ?_
  rintro outcome _ ⟨own, rfl, hown⟩
  split
  · split
    · exact .throw trivial
    · exact from_raising
  · exact .throw trivial
  · next record =>
    have hnext := h.turn hown rfl
    dsimp only
    split
    · exact ended_matches hnext
    · refine .bind (mergeOutputs_tallies hnext) (fun context history h => ?_) fun _ _ _ => trivial
      exact .bind (saveSnapshot_tallies h) (fun _ history h => .pure h) fun _ _ _ => trivial

theorem linearLoop_tallies (hn : A.Obeyed nested) {mode : LinearMode} {flow : Flow} {cancellation : Cancellation}
    (steps : List FlowStep) {index : Nat} {context : Dict} (h : A.Tallies log history) :
    anyFrame.From history (A.executor.linearLoop mode nested A.run flow cancellation steps index context log)
      (OnOk (A.Advances fun state => state.2)) := by
  induction steps generalizing index context log history with
  | nil => exact .pure h
  | cons step rest ih =>
    unfold linearLoop
    refine .bind (linearStep_tallies hn h) (fun progress history h => ?_) fun _ _ _ => trivial
    cases progress with
    | ended result => exact .pure h
    | going state => exact ih h

theorem linearFrom_matches (hn : A.Obeyed nested) {mode : LinearMode} {flow : Flow} {cancellation : Cancellation}
    {start : Nat} {context : Dict} (h : A.Tallies log history) :
    anyFrame.From history (A.executor.linearFrom mode nested A.run flow cancellation start context log)
      (OnOk A.Matches) := by
  unfold linearFrom
  refine .bind (linearLoop_tallies hn _ h) (fun progress history h => ?_) fun _ _ _ => trivial
  cases progress with
  | ended result => exact .pure h
  | going state => exact finishFlow_matches h

-- DAG flows in the synchronous lane

/-- What is placed leaves a mark. -/
theorem placeOutputs_tallies {step : DAGFlowStep} {context levelOutputs : Dict} {record : StepRecord}
    (h : A.Tallies log history) :
    anyFrame.From history (placeOutputs A.run step context record levelOutputs) (OnOk fun placed events =>
      placed.2 = placed.1.keys.find? levelOutputs.contains ∧ A.Tallies log events ∧
        ∃ mark, mark = probeEvent (.place A.run.traceId step context placed.1 levelOutputs) ∧
          events = history ++ [mark] ∧ mark ∈ events) := by
  unfold placeOutputs
  split
  · exact ensures_raise trivial
  · refine from_displayName_bind (fun name _ => ?_) fun _ => trivial
    refine from_ofExcept_bind (fun mapped _ => ?_) fun _ => trivial
    refine .ask_bind fun _ => .pure ⟨rfl, h.quiet rfl, _, rfl, rfl, ?_⟩
    exact List.mem_append_right _ List.mem_cons_self

theorem dagCapabilityStep_tallies (hn : A.Obeyed nested) {step : DAGFlowStep} {state : DagState} {level : LevelState}
    (h : A.Tallies (state.log ++ level.records) history) :
    anyFrame.From history (A.executor.dagCapabilityStep A.run step state level)
      (OnOk (A.Advances fun after : LevelState => state.log ++ after.records)) := by
  have hin := hn.inside .sync (stepInfoOf A.run step level.flatIndex)
  unfold dagCapabilityStep
  refine .bind (Frame.From.after (runCapabilityStep_turn hin rfl rfl rfl)) ?_ fun _ _ _ => trivial
  rintro record _ ⟨own, rfl, hturn⟩
  have hnext := h.turn hturn rfl
  rw [List.append_assoc] at hnext
  dsimp only
  split
  · exact ended_matches hnext
  refine .bind (placeOutputs_tallies hnext) ?_ fun _ _ _ => trivial
  rintro ⟨mapped, clash⟩ _ ⟨hclash, htallies, _, rfl, rfl, hplaced⟩
  cases clash with
  | some key => exact ended_astray (.unplaceable (.inl (by simp [← hclash]))) hplaced
  | none => exact .pure htallies

theorem placeToolRecord_tallies (hlane : A.lane = .sync) {step : DAGFlowStep} {flow : DAGFlow} {state : DagState}
    {level : LevelState} {record : StepRecord} (h : A.Tallies (state.log ++ (level.records ++ [record])) history) :
    anyFrame.From history (A.executor.placeToolRecord A.run flow step state level record)
      (OnOk (A.Advances fun after : LevelState => state.log ++ after.records)) := by
  unfold placeToolRecord
  refine .bind (placeOutputs_tallies h) ?_ fun _ _ _ => trivial
  rintro ⟨mapped, clash⟩ _ ⟨hclash, htallies, _, rfl, rfl, hplaced⟩
  refine from_displayName_bind (fun name _ => ?_) fun _ => trivial
  cases clash with
  | some key => exact ended_astray (.unplaceable (.inl (by simp [← hclash]))) hplaced
  | none =>
    refine from_ofExcept_bind (fun route hroute => ?_) fun _ => trivial
    cases route with
    | selected target => exact .pure htallies
    | invalid e => exact ended_astray (.unplaceable (.inr ⟨hlane, e, hroute⟩)) hplaced

theorem dagToolStep_tallies (hn : A.Obeyed nested) (hlane : A.lane = .sync) {step : DAGFlowStep} {flow : DAGFlow}
    {cancellation : Cancellation} {state : DagState} {level : LevelState}
    (h : A.Tallies (state.log ++ level.records) history) :
    anyFrame.From history (A.executor.dagToolStep nested A.run flow cancellation step state level)
      (OnOk (A.Advances fun after : LevelState => state.log ++ after.records)) := by
  unfold dagToolStep
  refine .attempt_bind (Frame.From.after (executeStepIn_recorded hn _)) ?_
  rintro outcome _ ⟨own, rfl, hown⟩
  split
  · exact from_raising
  · exact .throw trivial
  · have hnext := h.turn hown rfl
    rw [List.append_assoc] at hnext
    split
    · exact ended_matches hnext
    · exact placeToolRecord_tallies hlane hnext

theorem dagStep_tallies (hn : A.Obeyed nested) (hlane : A.lane = .sync) {step : DAGFlowStep} {flow : DAGFlow}
    {cancellation : Cancellation} {state : DagState} {level : LevelState}
    (h : A.Tallies (state.log ++ level.records) history) :
    anyFrame.From history (A.executor.dagStep nested A.run flow cancellation step state level)
      (OnOk (A.Advances fun after : LevelState => state.log ++ after.records)) := by
  unfold dagStep
  refine .ask_bind fun _ => ?_
  have hvisit := h.quiet (e := probeEvent (.visit A.run.traceId step level.skipped)) rfl
  split
  · refine from_displayName_bind (fun name _ => .pure fun hplain => ?_) fun _ => trivial
    -- A skipped record is recorded nowhere.
    have hskipped := hvisit hplain
    simpa [recordStep, skippedRecord] using hskipped
  · split
    · exact dagCapabilityStep_tallies hn hvisit
    · exact dagToolStep_tallies hn hlane hvisit

theorem dagLevelSteps_tallies (hn : A.Obeyed nested) (hlane : A.lane = .sync) {flow : DAGFlow}
    {cancellation : Cancellation} {state : DagState} (steps : List DAGFlowStep) {level : LevelState}
    (h : A.Tallies (state.log ++ level.records) history) :
    anyFrame.From history (A.executor.dagLevelSteps nested A.run flow cancellation state steps level)
      (OnOk (A.Advances fun after : LevelState => state.log ++ after.records)) := by
  induction steps generalizing level history with
  | nil => exact .pure h
  | cons step rest ih =>
    unfold dagLevelSteps
    refine .bind (dagStep_tallies hn hlane h) (fun progress history h => ?_) fun _ _ _ => trivial
    cases progress with
    | ended result => exact .pure h
    | going level => exact ih h

theorem closeLevel_tallies {flow : DAGFlow} {index : Nat} {context levelOutputs : Dict} {known : List StepRecord}
    (h : A.Tallies log history) :
    anyFrame.From history (A.executor.closeLevel A.run flow index context levelOutputs known)
      (OnOk fun _ => A.Tallies log) := by
  unfold closeLevel
  refine .ask_bind fun _ => from_ofExcept_bind (fun merged _ => ?_) fun _ => trivial
  exact .bind (saveSnapshot_tallies (h.quiet rfl)) (fun _ history h => .pure h) fun _ _ _ => trivial

theorem dagLevel_tallies (hn : A.Obeyed nested) (hlane : A.lane = .sync) {flow : DAGFlow}
    {cancellation : Cancellation} {index : Nat} {steps : List DAGFlowStep} {state : DagState} (h : A.Tallies state.log history) :
    anyFrame.From history (A.executor.dagLevel nested A.run flow cancellation index steps state)
      (OnOk (A.Advances DagState.log)) := by
  unfold dagLevel
  refine .bind (checkCancellation_tallies h) (fun _ history h => ?_) fun _ _ _ => trivial
  have hstart : A.Tallies (state.log ++ []) history := by rwa [List.append_nil]
  refine .bind (dagLevelSteps_tallies hn hlane steps hstart) (fun progress history h => ?_) fun _ _ _ => trivial
  cases progress with
  | ended result => exact .pure h
  | going level => exact .bind (closeLevel_tallies h) (fun _ history h => .pure h) fun _ _ _ => trivial

theorem dagLevels_tallies (hn : A.Obeyed nested) (hlane : A.lane = .sync) {flow : DAGFlow}
    {cancellation : Cancellation} (levels : List (List DAGFlowStep)) {index : Nat} {state : DagState}
    (h : A.Tallies state.log history) :
    anyFrame.From history (A.executor.dagLevels nested A.run flow cancellation levels index state)
      (OnOk (A.Advances DagState.log)) := by
  induction levels generalizing index state history with
  | nil => exact .pure h
  | cons steps rest ih =>
    unfold dagLevels
    refine .bind (dagLevel_tallies hn hlane h) (fun progress history h => ?_) fun _ _ _ => trivial
    cases progress with
    | ended result => exact .pure h
    | going state => exact ih h

theorem dagFrom_matches (hn : A.Obeyed nested) (hlane : A.lane = .sync) {flow : DAGFlow} {cancellation : Cancellation}
    {levels : List (List DAGFlowStep)} {startLevel : Nat} {state : DagState} (h : A.Tallies state.log history) :
    anyFrame.From history (A.executor.dagFrom nested A.run flow cancellation levels startLevel state)
      (OnOk A.Matches) := by
  unfold dagFrom
  refine .bind (dagLevels_tallies hn hlane _ h) (fun progress history h => ?_) fun _ _ _ => trivial
  cases progress with
  | ended result => exact .pure h
  | going state => exact finishFlow_matches h

-- DAG flows in the asynchronous lane

/-- A level of the run as a scene of its own. -/
def Account.level (A : Account δ) (flow : DAGFlow) : Scene :=
  (hushedPolicy A.executor A.clock).scene .async (.dag flow) A.run ⟨0, []⟩ .fresh

theorem Account.level_good (hn : A.Obeyed nested) (flow : DAGFlow) : (A.level flow).Good nested :=
  (hushedPolicy_sound A.executor A.clock).good hn

theorem runDagLevelAsync_turns (hn : A.Obeyed nested) (flow : DAGFlow) {cancellation : Cancellation} {context : Dict}
    (indexed : List (Nat × DAGFlowStep)) :
    anyFrame.From [] (A.executor.runDagLevelAsync nested A.run cancellation context indexed)
      (OnOk fun records events => ∃ pieces before own, events = before ++ own ∧ recorded A.clock before = [] ∧
        Prog.Merged pieces own ∧ TurnsOf (A.level flow) indexed records pieces) := by
  have hgood := A.level_good hn flow
  unfold runDagLevelAsync
  split
  · refine (dagTasksInOrder_level hgood rfl indexed).weaken fun r events h => ?_
    obtain ⟨pieces, hmerged, -, hr⟩ := h
    cases r with
    | ok records => exact ⟨pieces, [], events, rfl, rfl, hmerged, hr⟩
    | error e => trivial
  · refine .ask_bind fun choices => ?_
    intro s events r s' hs hrun
    obtain ⟨rfl, pieces, outcomes, hall, hmerged, hg⟩ := Interaction.Comp.runs_gather hrun
    simp only [List.map_map, Function.comp_def] at hall
    obtain ⟨-, htaken, -⟩ := runsAll_level hgood rfl trivial hall
    refine ⟨trivial, ?_⟩
    cases r with
    | ok records => exact ⟨pieces, _, events, rfl, rfl, hmerged, htaken records hg⟩
    | error e => trivial

theorem turns_recorded {flow : DAGFlow} {indexed : List (Nat × DAGFlowStep)} {records : List StepRecord}
    {pieces : List (List Event)} (h : TurnsOf (A.level flow) indexed records pieces)
    (hplain : Plain A.executor A.lane pieces.flatten) :
    recorded A.clock pieces.flatten = records.flatMap (recordStep A.clock A.run.flowName) ∧
      ∀ record ∈ records, Tells pieces.flatten record := by
  induction h with
  | nil => exact ⟨rfl, by simp⟩
  | @cons entry record piece rest records pieces hturn hrest ih =>
    obtain ⟨hpiece, htells⟩ := turn_recorded hturn hplain.left
    obtain ⟨hpieces, hothers⟩ := ih hplain.right
    rw [List.flatten_cons, recorded_append, hpiece, hpieces, List.flatMap_cons]
    refine ⟨rfl, List.forall_mem_cons.2 ⟨?_, fun other hother => ?_⟩⟩
    · obtain ⟨traceId, flowName, hmem⟩ := htells
      exact ⟨traceId, flowName, List.mem_append_left _ hmem⟩
    · obtain ⟨traceId, flowName, hmem⟩ := hothers other hother
      exact ⟨traceId, flowName, List.mem_append_right _ hmem⟩

theorem turns_indices {S : Scene} {indexed : List (Nat × DAGFlowStep)} {records : List StepRecord}
    {pieces : List (List Event)} (h : TurnsOf S indexed records pieces) :
    records.map (·.stepIndex) = indexed.map fun entry => (entry.1 : Int) := by
  induction h with
  | nil => rfl
  | @cons entry record piece rest records pieces hturn _ ih =>
    rw [List.map_cons, List.map_cons, ih]
    have hindex : record.stepIndex = entry.1 := by
      cases hturn with
      | lone _ hindex _ => exact hindex
      | bracket _ _ hindex => exact hindex
      | unheard _ hindex _ => exact hindex
    rw [hindex]

/-- The steps of a level come in the order of their indices. -/
theorem indexedFrom_sorted (first : Nat) (steps : List DAGFlowStep) :
    ((indexedFrom first steps).map fun entry => (entry.1 : Int)).Pairwise (· < ·) := by
  have hrange : (indexedFrom first steps).map (fun entry => (entry.1 : Int)) =
      (List.range steps.length).map fun place => ((first + place : Nat) : Int) := by
    simp only [indexedFrom, List.map_map, ← List.zipIdx_map_snd 0 steps, List.range_eq_range']
    rfl
  rw [hrange, List.pairwise_map]
  exact List.pairwise_lt_range.imp fun hlt => by omega

theorem processRecords_tallies {context : Dict} (todo : List (DAGFlowStep × StepRecord)) {levelOutputs : Dict}
    (h : A.Tallies (log ++ todo.map Prod.snd) history)
    (htells : Plain A.executor A.lane history → ∀ record ∈ todo.map Prod.snd, Tells history record)
    (hsorted : ((todo.map Prod.snd).map (·.stepIndex)).Pairwise (· < ·)) :
    anyFrame.From history (A.executor.processRecords A.run context todo log levelOutputs)
      (OnOk (A.Advances fun state => state.1)) := by
  induction todo generalizing log levelOutputs history with
  | nil =>
    refine .pure ?_
    change A.Tallies log history
    simpa using h
  | cons entry rest ih =>
    obtain ⟨step, record⟩ := entry
    unfold processRecords
    split
    · next hfailed =>
      -- The steps behind the one that fails have told of their records, too.
      refine .bind makeResult_recorded (fun result events hresult => .pure ?_) fun _ _ _ => trivial
      obtain ⟨hlog, hname, own, rfl, hown, -⟩ := hresult
      intro hplain hlast
      have htold := htells hplain.left
      have hnone : rest = [] := by
        cases rest with
        | nil => rfl
        | cons other rest =>
          have hbefore := hlast record other.2 ?_ (by simpa using hfailed) ?_
          · have hlt := (List.pairwise_cons.1 hsorted).1 other.2.stepIndex (by simp)
            exact absurd hbefore (not_le_of_gt hlt)
          · exact (htold record (by simp)).more
          · exact (htold other.2 (by simp)).more
      subst hnone
      rw [recorded_append, hown, exportResultToOtelMetrics, hlog, hname]
      exact (h hplain.left).append_right _
    · have hmore : A.Tallies ((log ++ [record]) ++ rest.map Prod.snd) history := by
        rw [List.append_assoc]
        exact h
      refine .bind (placeOutputs_tallies hmore) ?_ fun _ _ _ => trivial
      rintro ⟨mapped, clash⟩ _ ⟨hclash, htallies, _, rfl, rfl, hplaced⟩
      cases clash with
      | some key =>
        refine from_displayName_bind (fun name _ => ?_) fun _ => trivial
        exact ended_astray (.unplaceable (.inl (by simp [← hclash]))) hplaced
      | none =>
        refine ih htallies (fun hplain other hother => ?_) (List.pairwise_cons.1 hsorted).2
        exact (htells hplain.left other (List.mem_cons_of_mem _ hother)).more

/-- The level is told of in some order, the records are taken in the order of the steps. -/
theorem Account.Tallies.level {flow : DAGFlow} {indexed : List (Nat × DAGFlowStep)} {records : List StepRecord}
    {pieces : List (List Event)} {before own : List Event} (h : A.Tallies log history)
    (hbefore : recorded A.clock before = []) (hmerged : Prog.Merged pieces own)
    (hturns : TurnsOf (A.level flow) indexed records pieces) :
    A.Tallies (log ++ records) (history ++ (before ++ own)) ∧
      (Plain A.executor A.lane (history ++ (before ++ own)) →
        ∀ record ∈ records, Tells (history ++ (before ++ own)) record) := by
  have hpieces (hplain : Plain A.executor A.lane (history ++ (before ++ own))) :
      Plain A.executor A.lane pieces.flatten :=
    ⟨fun e he => hplain.right.right.alone e (hmerged.perm.mem_iff.2 he),
      fun e he => hplain.right.right.straight e (hmerged.perm.mem_iff.2 he)⟩
  refine ⟨fun hplain => ?_, fun hplain record hmem => ?_⟩
  · have hlevel : (recorded A.clock own).Perm (recorded A.clock pieces.flatten) := recorded_perm hmerged.perm
    rw [(turns_recorded hturns (hpieces hplain)).1] at hlevel
    rw [recorded_append, recorded_append, hbefore, List.nil_append, List.flatMap_append]
    exact (h hplain.left).append hlevel
  · obtain ⟨traceId, flowName, hmem⟩ := (turns_recorded hturns (hpieces hplain)).2 record hmem
    exact ⟨traceId, flowName, List.mem_append_right _ (List.mem_append_right _ (hmerged.perm.mem_iff.2 hmem))⟩

theorem dagLevelAsync_tallies (hn : A.Obeyed nested) {flow : DAGFlow} {cancellation : Cancellation} {index : Nat}
    {steps : List DAGFlowStep} {state : DagState} (h : A.Tallies state.log history) :
    anyFrame.From history (A.executor.dagLevelAsync nested A.run flow cancellation index steps state)
      (OnOk (A.Advances DagState.log)) := by
  unfold dagLevelAsync
  refine .bind (checkCancellation_tallies h) (fun _ history h => ?_) fun _ _ _ => trivial
  dsimp only
  split
  · refine .ask_bind fun _ => from_displayName_bind (fun name _ => ?_) fun _ => trivial
    exact ended_astray .unsupported (List.mem_append_right _ List.mem_cons_self)
  · refine .bind (Frame.From.after (runDagLevelAsync_turns hn flow (indexedFrom state.flatIndex steps))) ?_
      fun _ _ _ => trivial
    rintro records _ ⟨own, rfl, pieces, before, told, rfl, hbefore, hmerged, hturns⟩
    obtain ⟨hlevel, htells⟩ := h.level hbefore hmerged hturns
    have hlength : records.length ≤ steps.length := (hturns.length.trans length_indexedFrom).le
    have hrecords : (steps.zip records).map Prod.snd = records := List.map_snd_zip hlength
    have hsorted : (records.map (·.stepIndex)).Pairwise (· < ·) := by
      rw [turns_indices hturns]
      exact indexedFrom_sorted state.flatIndex steps
    rw [← hrecords] at hlevel htells hsorted
    refine .bind (processRecords_tallies _ hlevel htells hsorted) (fun progress history h => ?_) fun _ _ _ => trivial
    cases progress with
    | ended result => exact .pure h
    | going after => exact .bind (closeLevel_tallies h) (fun _ history h => .pure h) fun _ _ _ => trivial

theorem dagLevelsAsync_tallies (hn : A.Obeyed nested) {flow : DAGFlow} {cancellation : Cancellation}
    (levels : List (List DAGFlowStep)) {index : Nat} {state : DagState} (h : A.Tallies state.log history) :
    anyFrame.From history (A.executor.dagLevelsAsync nested A.run flow cancellation levels index state)
      (OnOk (A.Advances DagState.log)) := by
  induction levels generalizing index state history with
  | nil => exact .pure h
  | cons steps rest ih =>
    unfold dagLevelsAsync
    refine .bind (dagLevelAsync_tallies hn h) (fun progress history h => ?_) fun _ _ _ => trivial
    cases progress with
    | ended result => exact .pure h
    | going state => exact ih h

theorem dagFromAsync_matches (hn : A.Obeyed nested) {flow : DAGFlow} {cancellation : Cancellation}
    {levels : List (List DAGFlowStep)} {startLevel : Nat} {state : DagState} (h : A.Tallies state.log history) :
    anyFrame.From history (A.executor.dagFromAsync nested A.run flow cancellation levels startLevel state)
      (OnOk A.Matches) := by
  unfold dagFromAsync
  refine .bind (dagLevelsAsync_tallies hn _ h) (fun progress history h => ?_) fun _ _ _ => trivial
  cases progress with
  | ended result => exact .pure h
  | going state => exact finishFlow_matches h

-- Replays

theorem replayLoop_tallies (hn : A.Obeyed nested) {flow : Flow} (steps : List FlowStep) {index : Nat} {context : Dict}
    (h : A.Tallies log history) :
    anyFrame.From history (A.executor.replayLoop nested A.run flow steps index context log)
      (OnOk (A.Advances fun state => state.2)) := by
  induction steps generalizing index context log history with
  | nil => exact .pure h
  | cons step rest ih =>
    unfold replayLoop
    refine .bind (Frame.From.after (executeStepIn_recorded hn .sync)) ?_ fun _ _ _ => trivial
    rintro record _ ⟨own, rfl, hturn⟩
    have hnext := h.turn hturn rfl
    dsimp only
    split
    · exact ended_matches hnext
    · exact .bind (mergeOutputs_tallies hnext) (fun context history h => ih h) fun _ _ _ => trivial

-- From the start of a flow

/-- The log that a run takes over is recorded only where it goes astray. -/
theorem seed_tallies {header : FlowHeader} {input context : Dict} {level : Nat} {traceId : String} :
    A.Tallies log [probeEvent (.seed traceId header input context log level)] := by
  intro hplain
  have hskipped : log.flatMap (recordStep A.clock A.run.flowName) = [] := by
    refine List.flatMap_eq_nil_iff.2 fun record hmem => ?_
    cases hrecord : record.skipped with
    | true => simp [recordStep, hrecord]
    | false => exact absurd (.logged hmem hrecord) (hplain.straight _ List.mem_cons_self)
  rw [hskipped]
  exact .nil

/-- A flow starts, and the recordings of its run are those of its result. -/
def Settles (executor : Executor) (lane : Lane) (clock : Clock δ) (result : ExecutionResult) (events : List Event) :
    Prop :=
  ∃ run before own, events = before ++ own ∧ recorded clock before = [] ∧ (∃ e ∈ before, startsFlow e = true) ∧
    (Account.mk clock executor lane run).Matches result own

/-- What follows the start of a flow. -/
theorem started (A : Account δ) {before : List Event} {c : Exec ExecutionResult}
    (hquiet : recorded A.clock before = []) (hstart : ∃ e ∈ before, startsFlow e = true)
    (h : anyFrame.From [] c (OnOk A.Matches)) :
    anyFrame.From before c (OnOk (Settles A.executor A.lane A.clock)) := by
  refine (Frame.From.after h).weaken fun r events hr => ?_
  obtain ⟨own, rfl, hown⟩ := hr
  cases r with
  | ok result => exact ⟨A.run, before, own, rfl, hquiet, hstart, hown⟩
  | error e => trivial

theorem Settles.behind {result : ExecutionResult} (h : Settles executor lane clock result second)
    (hfirst : recorded clock first = []) : Settles executor lane clock result (first ++ second) := by
  obtain ⟨run, before, own, rfl, hquiet, ⟨e, hmem, hstart⟩, hown⟩ := h
  refine ⟨run, first ++ before, own, (List.append_assoc ..).symm, ?_, ⟨e, List.mem_append_right _ hmem, hstart⟩, hown⟩
  rw [recorded_append, hfirst, hquiet, List.append_nil]

theorem settles_behind {before : List Event} {c : Exec ExecutionResult} (hquiet : recorded clock before = [])
    (h : anyFrame.From [] c (OnOk (Settles executor lane clock))) :
    anyFrame.From before c (OnOk (Settles executor lane clock)) := by
  refine (Frame.From.after h).weaken fun r events hr => ?_
  obtain ⟨own, rfl, hown⟩ := hr
  cases r with
  | ok result => exact hown.behind hquiet
  | error e => trivial

section

variable (hn : (hushedPolicy executor clock).Obeyed nested)
include hn

theorem executeLinear_settles {flow : Flow} {flowName : String} {input : Dict} {cancellation : Cancellation} :
    anyFrame.From [] (executor.executeLinear lane nested flow flowName input cancellation)
      (OnOk (Settles executor lane clock)) := by
  unfold executeLinear
  refine .modify_bind (fun _ _ => trivial) (.ask_bind fun traceId => .ask_bind fun _ => ?_)
  let A : Account δ := ⟨clock, executor, lane, ⟨flowName, traceId, input⟩⟩
  refine started A rfl ⟨_, List.mem_append_right _ List.mem_cons_self, rfl⟩ ?_
  refine from_ofExcept_bind (fun inputFailure hinput => ?_) fun _ => trivial
  cases inputFailure with
  | some record =>
    obtain ⟨detail, rfl⟩ := validateFlowSchema_some hinput
    exact makeResult_checked (A := A) List.mem_cons_self
  | none => exact .get_bind fun state _ => .ask_bind fun _ => linearFrom_matches (A := A) hn seed_tallies

theorem executeDagFlow_settles {flow : DAGFlow} {input : Dict} {cancellation : Cancellation} :
    anyFrame.From [] (executor.executeDagFlow nested flow input cancellation)
      (OnOk (Settles executor .sync clock)) := by
  unfold executeDagFlow
  refine .modify_bind (fun _ _ => trivial) (.get_bind fun state _ => ?_)
  split
  · next snapshot _ =>
    refine .ask_bind fun _ => ?_
    let A : Account δ := ⟨clock, executor, .sync, ⟨flow.name, snapshot.traceId, input⟩⟩
    refine started A rfl ⟨_, List.mem_append_right _ List.mem_cons_self, rfl⟩ ?_
    refine from_ofExcept_bind (fun levels _ => ?_) fun _ => trivial
    exact .ask_bind fun _ => dagFrom_matches (A := A) hn rfl seed_tallies
  · refine .ask_bind fun traceId => .ask_bind fun _ => ?_
    let A : Account δ := ⟨clock, executor, .sync, ⟨flow.name, traceId, input⟩⟩
    refine started A rfl ⟨_, List.mem_append_right _ List.mem_cons_self, rfl⟩ ?_
    refine from_ofExcept_bind (fun inputFailure hinput => ?_) fun _ => trivial
    cases inputFailure with
    | some record =>
      obtain ⟨detail, rfl⟩ := validateFlowSchema_some hinput
      exact makeResult_checked (A := A) List.mem_cons_self
    | none =>
      refine .get_bind fun state _ => from_ofExcept_bind (fun levels _ => ?_) fun _ => trivial
      exact .ask_bind fun _ => dagFrom_matches (A := A) hn rfl seed_tallies

theorem executeDagFlowAsync_settles {flow : DAGFlow} {input : Dict} {cancellation : Cancellation} :
    anyFrame.From [] (executor.executeDagFlowAsync nested flow input cancellation)
      (OnOk (Settles executor .async clock)) := by
  unfold executeDagFlowAsync
  refine .modify_bind (fun _ _ => trivial) ?_
  refine from_orRefuse_bind (fun levels _ => .get_bind fun state _ => ?_) fun _ => trivial
  split
  · next snapshot _ =>
    refine .ask_bind fun _ => ?_
    let A : Account δ := ⟨clock, executor, .async, ⟨flow.name, snapshot.traceId, input⟩⟩
    refine started A rfl ⟨_, List.mem_append_right _ List.mem_cons_self, rfl⟩ ?_
    exact .ask_bind fun _ => dagFromAsync_matches (A := A) hn seed_tallies
  · refine .ask_bind fun traceId => .ask_bind fun _ => ?_
    let A : Account δ := ⟨clock, executor, .async, ⟨flow.name, traceId, input⟩⟩
    refine started A rfl ⟨_, List.mem_append_right _ List.mem_cons_self, rfl⟩ ?_
    refine from_ofExcept_bind (fun inputFailure hinput => ?_) fun _ => trivial
    cases inputFailure with
    | some record =>
      obtain ⟨detail, rfl⟩ := validateFlowSchema_some hinput
      exact makeResult_checked (A := A) List.mem_cons_self
    | none => exact .get_bind fun state _ => .ask_bind fun _ => dagFromAsync_matches (A := A) hn seed_tallies

theorem resumeLinear_settles {flow : Flow} {snapshot : ExecutionSnapshot} :
    anyFrame.From [] (executor.resumeLinear lane nested flow snapshot) (OnOk (Settles executor lane clock)) := by
  unfold resumeLinear
  refine .modify_bind (fun _ _ => trivial) (.ask_bind fun _ => ?_)
  let A : Account δ := ⟨clock, executor, lane, ⟨snapshot.flowName, snapshot.traceId, snapshot.initialInput⟩⟩
  refine started A rfl
    ⟨_, List.mem_append_right _ List.mem_cons_self, rfl⟩ ?_
  exact .ask_bind fun _ => linearFrom_matches (A := A) hn seed_tallies

theorem replayLinearFrom_settles {flow : Flow} {result : ExecutionResult} {resumeFromStep : Nat} :
    anyFrame.From [] (executor.replayLinearFrom nested flow result resumeFromStep)
      (OnOk (Settles executor .sync clock)) := by
  unfold replayLinearFrom
  refine .modify_bind (fun _ _ => trivial) ?_
  split
  · exact ensures_refuse trivial
  refine from_orRefuse_bind (fun context _ => .ask_bind fun traceId => .ask_bind fun _ => ?_) fun _ => trivial
  let A : Account δ := ⟨clock, executor, .sync, ⟨flow.name, traceId, result.initialInput⟩⟩
  refine started A rfl ⟨_, List.mem_append_right _ List.mem_cons_self, rfl⟩ ?_
  refine .ask_bind fun _ => ?_
  refine .bind (replayLoop_tallies (A := A) hn _ seed_tallies) (fun progress history h => ?_) fun _ _ _ => trivial
  cases progress with
  | ended result => exact .pure h
  | going state => exact makeResult_matches (A := A) h

theorem executeFlowImpl_settles {flowName : String} {input : Dict} {call : Call} :
    anyFrame.From [] (executor.executeFlowImpl nested flowName input call) (OnOk (Settles executor .sync clock)) := by
  unfold executeFlowImpl
  refine from_orRefuse_bind (fun flow _ => .modify_bind (fun _ _ => trivial) ?_) fun _ => trivial
  refine from_orRefuse_bind (fun _ _ => ?_) fun _ => trivial
  refine from_orRefuse_bind (fun _ _ => ?_) fun _ => trivial
  refine .get_bind fun state _ => .ask_bind fun _ => ?_
  cases flow with
  | dag flow => exact settles_behind rfl (executeDagFlow_settles hn)
  | linear flow => exact settles_behind rfl (executeLinear_settles hn)

theorem executeFlowAsyncWith_settles {flowName : String} {input : Dict} {call : Call} :
    anyFrame.From [] (executor.executeFlowAsyncWith nested flowName input call)
      (OnOk (Settles executor .async clock)) := by
  unfold executeFlowAsyncWith
  refine from_orRefuse_bind (fun flow _ => ?_) fun _ => trivial
  refine from_orRefuse_bind (fun _ _ => ?_) fun _ => trivial
  refine from_orRefuse_bind (fun _ _ => ?_) fun _ => trivial
  refine from_orRefuse_bind (fun _ _ => ?_) fun _ => trivial
  refine .within (fun _ _ => trivial) (.get_bind fun state _ => .ask_bind fun _ => ?_)
  cases flow with
  | dag flow => exact settles_behind rfl (executeDagFlowAsync_settles hn)
  | linear flow => exact settles_behind rfl (executeLinear_settles hn)

end

end

/-- The lane that an entry point runs in. -/
def laneOf : EntryPoint → Lane
  | .execute .. | .resume _ | .replay .. => .sync
  | .executeAsync .. | .resumeAsync _ => .async

theorem enter_settles {executor : Executor} {stack : Nat} (clock : Clock δ) (entry : EntryPoint) :
    anyFrame.From [] (executor.enter stack entry) (OnOk (Settles executor (laneOf entry) clock)) := by
  have hn := (hushedPolicy_sound executor clock).obeyed stack
  have hloaded {traceId : String} :
      anyFrame.From [] (executor.loadSnapshotForResume traceId) (LoadQ (hushedPolicy executor clock) .sync traceId) :=
    loadSnapshot_from (P := hushedPolicy executor clock)
  cases entry with
  | execute flowName input call => exact .within (fun _ _ => trivial) (executeFlowImpl_settles hn)
  | executeAsync flowName input call => exact executeFlowAsyncWith_settles hn
  | resume traceId =>
    refine .bind hloaded ?_ fun _ _ _ => trivial
    rintro ⟨flow, snapshot⟩ _ ⟨-, rfl⟩
    cases flow with
    | dag flow =>
      exact settles_behind rfl (withResume_from (P := hushedPolicy executor clock) (fun _ _ _ => trivial)
        (executeDagFlow_settles hn))
    | linear flow => exact settles_behind rfl (resumeLinear_settles hn)
  | resumeAsync traceId =>
    refine .bind hloaded ?_ fun _ _ _ => trivial
    rintro ⟨flow, snapshot⟩ _ ⟨-, rfl⟩
    refine from_orRefuse_bind (fun _ _ => .within (fun _ _ => trivial) ?_) fun _ => trivial
    cases flow with
    | dag flow =>
      exact settles_behind rfl (withResume_from (P := hushedPolicy executor clock) (fun _ _ _ => trivial)
        (executeDagFlowAsync_settles hn))
    | linear flow => exact settles_behind rfl (resumeLinear_settles hn)
  | replay result resumeFromStep =>
    unfold enter replayRun
    refine from_orRefuse_bind (fun flow _ => .within (fun _ _ => trivial) ?_) fun _ => trivial
    split
    · exact .within (fun _ _ => trivial) (executeFlowImpl_settles hn)
    · split
      · exact ensures_refuse trivial
      · exact replayLinearFrom_settles hn

/-- Once a flow has started, no other does. -/
theorem alone_behind {before own : List Event} (hstart : ∃ e ∈ before, startsFlow e = true)
    (hcount : (before ++ own).countP startsFlow ≤ 1) : ∀ e ∈ own, startsFlow e = false := by
  have hbefore : 0 < before.countP startsFlow := List.countP_pos_iff.2 hstart
  rw [List.countP_append] at hcount
  have hown : own.countP startsFlow = 0 := by omega
  intro e he
  simpa using List.countP_eq_zero.1 hown e he

theorem FailsLast.right {first second : List Event} (h : FailsLast (first ++ second)) : FailsLast second := by
  rintro record other ⟨traceId, flowName, hmem⟩ hfailed ⟨otherId, otherName, hother⟩
  exact h record other ⟨traceId, flowName, List.mem_append_right _ hmem⟩ hfailed
    ⟨otherId, otherName, List.mem_append_right _ hother⟩

/-- A run that starts one flow, and in which nothing goes astray and no step is told of behind one that
fails, is recorded as its result is. -/
theorem live_metrics_agree {executor : Executor} {stack : Nat} {entry : EntryPoint} {state state' : RunScopedState}
    {events : List Event} {result : ExecutionResult} (clock : Clock δ)
    (hrun : (executor.enter stack entry).Runs state events (.ok result) state')
    (halone : events.countP startsFlow ≤ 1) (hstraight : ∀ e ∈ events, ¬Astray executor (laneOf entry) e)
    (hlast : FailsLast events) :
    (recorded clock events).Perm (exportResultToOtelMetrics clock result) := by
  obtain ⟨-, run, before, own, heq, hquiet, hstart, hown⟩ := enter_settles clock entry _ _ _ _ trivial hrun
  rw [List.nil_append] at heq
  subst heq
  have hplain : Plain executor (laneOf entry) own :=
    ⟨alone_behind hstart halone, fun e he => hstraight e (List.mem_append_right _ he)⟩
  rw [recorded_append, hquiet, List.nil_append]
  exact hown hplain hlast.right

-- Two runs

/-- What an event that goes astray looks like. -/
def mayStray : Event → Bool
  | ⟨.probe, .subInputs .., _⟩ | ⟨.probe, .unsupported .., _⟩ | ⟨.probe, .place .., _⟩ => true
  | ⟨.probe, .seed _ _ _ _ log _, _⟩ => log.any fun record => !record.skipped
  | ⟨.hook, .flowEnd _ _ result, _⟩ => result.executionLog.any fun record => !record.success
  | _ => false

theorem Astray.mayStray {executor : Executor} {lane : Lane} (h : Astray executor lane e) : mayStray e = true := by
  cases h with
  | unresolved _ => rfl
  | unsupported => rfl
  | unplaceable _ => rfl
  | logged hmem hrecord => exact List.any_eq_true.2 ⟨_, hmem, by simp [hrecord]⟩
  | checked hmem => exact List.any_eq_true.2 ⟨_, hmem, rfl⟩

def tellsFailure : Event → Bool
  | ⟨.hook, .stepEnd _ _ record, _⟩ => !record.success
  | _ => false

theorem failsLast_of_succeeds {events : List Event} (h : ∀ e ∈ events, tellsFailure e = false) :
    FailsLast events := by
  rintro record other ⟨traceId, flowName, hmem⟩ hfailed _
  have hsucceeds := h _ hmem
  rw [hookEvent, tellsFailure, hfailed] at hsucceeds
  cases hsucceeds

/-- A step lasts as long as its index says, a run as long as its log. -/
def indexClock : Clock Nat := ⟨fun record => record.stepIndex.toNat, fun result => result.executionLog.length⟩

def innerFlow : AnyFlow := .linear { name := "g", version := "0.1.0", steps := [Sample.step "a", Sample.step "b"] }

def outerFlow : AnyFlow := .linear { name := "f", version := "0.1.0", steps := [Sample.subflow "g"] }

def meteredExecutor : Executor := Sample.executor [innerFlow, outerFlow] [Sample.tool "a", Sample.tool "b"]

/-- The run of a flow by its name. -/
def meteredRun (flowName : String) : List Event × Except Exc ExecutionResult × RunScopedState :=
  Sample.run Sample.named none 0 (meteredExecutor.enter 1 (.execute flowName .empty {}))

theorem innerRun_plain :
    ((Sample.resultOf (meteredRun "g")).map fun _ => (recorded indexClock (meteredRun "g").1).length) = some 8 ∧
      (meteredRun "g").1.countP startsFlow ≤ 1 ∧
      ((meteredRun "g").1.all fun e => !mayStray e && !tellsFailure e) = true := by
  decide +kernel

/-- Both steps of a flow, and the flow. -/
theorem innerRun_agrees :
    ∃ result, Sample.resultOf (meteredRun "g") = some result ∧ (recorded indexClock (meteredRun "g").1).length = 8 ∧
      (recorded indexClock (meteredRun "g").1).Perm (exportResultToOtelMetrics indexClock result) := by
  obtain ⟨hcount, halone, hall⟩ := innerRun_plain
  obtain ⟨result, hresult, hlength⟩ := Option.map_eq_some_iff.1 hcount
  have hquiet : ∀ e ∈ (meteredRun "g").1, mayStray e = false ∧ tellsFailure e = false := by
    simpa using hall
  refine ⟨result, hresult, hlength, live_metrics_agree indexClock (Sample.run_returns hresult) halone ?_ ?_⟩
  · intro e he hstray
    exact absurd (hstray.mayStray.symm.trans (hquiet e he).1) (by decide)
  · exact failsLast_of_succeeds fun e he => (hquiet e he).2

/-- The steps of the flow inside, and the flow, are recorded during the run alone. -/
theorem outerRun_recorded :
    ((Sample.resultOf (meteredRun "f")).map fun result =>
      ((recorded indexClock (meteredRun "f").1).length, (exportResultToOtelMetrics indexClock result).length)) =
      some (13, 5) := by
  decide +kernel

theorem nested_run_unexported :
    ¬∀ (executor : Executor) stack entry (clock : Clock Nat) state events result state',
      (executor.enter stack entry).Runs state events (.ok result) state' →
        (recorded clock events).Perm (exportResultToOtelMetrics clock result) := by
  intro h
  obtain ⟨result, hresult, hlength⟩ := Option.map_eq_some_iff.1 outerRun_recorded
  obtain ⟨hlive, hexported⟩ := Prod.mk.inj hlength
  have hperm := h meteredExecutor 1 _ indexClock _ _ result _ (Sample.run_returns hresult)
  have hsame : (13 : Nat) = 5 := hlive.symm.trans (hperm.length_eq.trans hexported)
  exact absurd hsame (by decide)

end ChainWeaver.Metrics
