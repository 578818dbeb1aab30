import ChainWeaver.Entry
import ChainWeaver.RunSupply

/-!
# Runs that succeed

A run reports success at one place only: behind all its steps, when the context has
passed the schemas of the flow.
-/

namespace ChainWeaver.Executor

open Interaction (Frame)

variable {executor : Executor} {nested : Nested} {info : RunInfo} {cancellation : Cancellation}

/-- Every state, every trace. -/
abbrev anyFrame : Frame Effects RunScopedState := frame fun _ => True

abbrev anyEvent : Event → Prop := fun _ => True

abbrev anyError : Exc → Prop := fun _ => True

theorem given_any {c : Exec α} : anyFrame.Given anyEvent c (fun _ => True) anyError :=
  fun _ _ r _ _ _ _ => ⟨trivial, by cases r <;> trivial⟩

/-- A computation with a scope of its own leaves the state as it is. -/
theorem given_within {Inv : RunScopedState → Prop} {A : Event → Prop} {enter : RunScopedState → RunScopedState}
    {body : Exec α} {Q : α → Prop}
    (h : anyFrame.Given anyEvent (withScope enter body) Q anyError) :
    (frame Inv).Given A (withScope enter body) Q anyError := by
  intro s events r s' hs _ hrun
  obtain ⟨rfl, _⟩ := Interaction.Comp.runs_within.1 hrun
  exact ⟨hs, (h _ _ _ _ trivial (fun _ _ => trivial) hrun).2⟩

theorem makeResult_fails :
    anyFrame.Given anyEvent (executor.makeResult info false none log count) (fun result => result.success = false)
      anyError := by
  unfold makeResult
  exact .get_bind fun _ _ => given_any.bind fun _ _ => given_any.bind fun _ _ => .pure rfl

/-- A part of a loop leaves the run going, or ends it with a result of this kind. -/
abbrev Ends (P : ExecutionResult → Prop) : Progress α → Prop := Stage (fun _ => True) P

section

variable {P : ExecutionResult → Prop}
  (hP : ∀ log count, anyFrame.Given anyEvent (executor.makeResult info false none log count) P anyError)

include hP

theorem ended_ends :
    anyFrame.Given anyEvent (do pure (Progress.ended (α := α) (← executor.makeResult info false none log))) (Ends P)
      anyError :=
  (hP _ _).bind fun _ h => .pure h

theorem linearLoop_ends {mode : LinearMode} {flow : Flow} (rest : List FlowStep) (stepIndex : Nat)
    (context : Dict) (log : List StepRecord) :
    anyFrame.Given anyEvent (executor.linearLoop mode nested info flow cancellation rest stepIndex context log)
      (Ends P) anyError := by
  induction rest generalizing stepIndex context log with
  | nil => exact .pure trivial
  | cons step rest ih =>
    have hstep : anyFrame.Given anyEvent
        (executor.linearStep mode nested info flow cancellation stepIndex step context log) (Ends P) anyError := by
      unfold linearStep
      refine given_any.bind fun _ _ => .attempt_bind given_any (fun record _ => ?_) fun e _ => ?_
      · dsimp only
        split
        · exact ended_ends hP
        · exact given_any.bind fun _ _ => given_any.bind fun _ _ => .pure trivial
      · split
        · split
          · exact .throw trivial
          · exact ((hP _ _).bind fun _ _ => .throw trivial)
        · exact .throw trivial
        · next heq => cases heq
    unfold linearLoop
    refine hstep.bind fun progress h => ?_
    cases progress with
    | ended result => exact .pure h
    | going state => exact ih _ _ _

theorem dagStep_ends {flow : DAGFlow} {step : DAGFlowStep} {state : DagState} {level : LevelState} :
    anyFrame.Given anyEvent (executor.dagStep nested info flow cancellation step state level) (Ends P) anyError := by
  unfold dagStep
  refine given_any.bind fun _ _ => ?_
  split
  · exact given_any.bind fun _ _ => .pure trivial
  split
  · unfold dagCapabilityStep
    refine given_any.bind fun record _ => ?_
    dsimp only
    split
    · exact ended_ends hP
    · refine given_any.bind fun placed _ => ?_
      split
      · exact ended_ends hP
      · exact .pure trivial
  · unfold dagToolStep
    refine .attempt_bind given_any (fun record _ => ?_) fun e _ => ?_
    · dsimp only
      split
      · exact ended_ends hP
      · unfold placeToolRecord
        refine given_any.bind fun placed _ => given_any.bind fun _ _ => ?_
        split
        · exact ended_ends hP
        · refine given_any.bind fun outcome _ => ?_
          split
          · exact .pure trivial
          · exact ended_ends hP
    · split
      · exact ((hP _ _).bind fun _ _ => .throw trivial)
      · exact .throw trivial
      · next heq => cases heq

theorem dagLevelSteps_ends {flow : DAGFlow} {state : DagState} (todo : List DAGFlowStep) (level : LevelState) :
    anyFrame.Given anyEvent (executor.dagLevelSteps nested info flow cancellation state todo level) (Ends P)
      anyError := by
  induction todo generalizing level with
  | nil => exact .pure trivial
  | cons step rest ih =>
    unfold dagLevelSteps
    refine (dagStep_ends hP).bind fun progress h => ?_
    cases progress with
    | ended result => exact .pure h
    | going level => exact ih level

theorem dagLevels_ends {flow : DAGFlow} (rest : List (List DAGFlowStep)) (levelIndex : Nat) (state : DagState) :
    anyFrame.Given anyEvent (executor.dagLevels nested info flow cancellation rest levelIndex state) (Ends P)
      anyError := by
  induction rest generalizing levelIndex state with
  | nil => exact .pure trivial
  | cons todo rest ih =>
    have hlevel : anyFrame.Given anyEvent
        (executor.dagLevel nested info flow cancellation levelIndex todo state) (Ends P) anyError := by
      unfold dagLevel
      refine given_any.bind fun _ _ => (dagLevelSteps_ends hP todo _).bind fun progress h => ?_
      cases progress with
      | ended result => exact .pure h
      | going level => exact given_any.bind fun _ _ => .pure trivial
    unfold dagLevels
    refine hlevel.bind fun progress h => ?_
    cases progress with
    | ended result => exact .pure h
    | going state => exact ih _ _

end

/-- A result that reports success holds a context that passed the output schema. -/
def Passed (executor : Executor) (header : FlowHeader) (result : ExecutionResult) : Prop :=
  result.success = true → ∃ context label stepIndex, result.finalOutput = some context ∧
    executor.validateFlowSchema label context header.outputSchemaRef stepIndex "flow_output" = .ok none

theorem finishFlow_passed {header : FlowHeader} {stepCount : Int} :
    anyFrame.Given anyEvent (executor.finishFlow info header stepCount checkContext context log)
      (executor.Passed header) anyError := by
  have hfailed : ∀ {log count}, anyFrame.Given anyEvent (executor.makeResult info false none log count)
      (executor.Passed header) anyError :=
    makeResult_fails.post fun result h hs => nomatch hs.symm.trans h
  unfold finishFlow
  refine (given_ofExcept fun _ _ => trivial).bind fun outputFailure houtput => ?_
  cases outputFailure with
  | some record => exact hfailed
  | none =>
    refine given_any.bind fun _ _ => given_any.bind fun contextFailure _ => ?_
    cases contextFailure with
    | some record => exact hfailed
    | none =>
      unfold makeResult
      refine .get_bind fun _ _ => given_any.bind fun _ _ => given_any.bind fun _ _ => .pure fun _ => ?_
      exact ⟨context, _, _, rfl, houtput⟩

theorem executeLinear_passed {lane : Lane} {flow : Flow} :
    anyFrame.Given anyEvent (executor.executeLinear lane nested flow flowName input cancellation)
      (executor.Passed flow.toFlowHeader) anyError := by
  unfold executeLinear
  refine .modify_bind (fun _ => id) (given_any.bind fun _ _ => given_any.bind fun _ _ => ?_)
  refine given_any.bind fun inputFailure _ => ?_
  cases inputFailure with
  | some record => exact makeResult_fails.post fun result h hs => nomatch hs.symm.trans h
  | none =>
    refine .get_bind fun _ _ => given_any.bind fun _ _ => ?_
    unfold linearFrom
    refine (linearLoop_ends (fun _ _ => makeResult_fails) _ _ _ _).bind fun progress h => ?_
    cases progress with
    | ended result => exact .pure fun hs => nomatch hs.symm.trans h
    | going state => exact finishFlow_passed

theorem executeDagFlow_passed {flow : DAGFlow} :
    anyFrame.Given anyEvent (executor.executeDagFlow nested flow input cancellation)
      (executor.Passed flow.toFlowHeader) anyError := by
  have hfrom : ∀ {info levels startLevel state}, anyFrame.Given anyEvent
      (executor.dagFrom nested info flow cancellation levels startLevel state)
      (executor.Passed flow.toFlowHeader) anyError := by
    intro info levels startLevel state
    unfold dagFrom
    refine (dagLevels_ends (fun _ _ => makeResult_fails) _ _ _).bind fun progress h => ?_
    cases progress with
    | ended result => exact .pure fun hs => nomatch hs.symm.trans h
    | going state => exact finishFlow_passed
  unfold executeDagFlow
  refine .modify_bind (fun _ => id) (.get_bind fun state _ => ?_)
  split
  · exact given_any.bind fun _ _ => given_any.bind fun _ _ => given_any.bind fun _ _ => hfrom
  · refine given_any.bind fun _ _ => given_any.bind fun _ _ => given_any.bind fun inputFailure _ => ?_
    cases inputFailure with
    | some record => exact makeResult_fails.post fun result h hs => nomatch hs.symm.trans h
    | none => exact .get_bind fun _ _ => given_any.bind fun _ _ => given_any.bind fun _ _ => hfrom

theorem executeFlowWith_succeeds {call : Call} (hversion : call.version = none) :
    anyFrame.Given anyEvent (executor.executeFlowWith nested flowName input call) (executor.Succeeds flowName)
      anyError := by
  refine .within (fun _ => id) ?_
  unfold executeFlowImpl
  refine (given_orRefuse fun _ _ => trivial).bind fun flow hflow => ?_
  rw [hversion] at hflow
  have hsucceeds : ∀ result, executor.Passed flow.header result → executor.Succeeds flowName result := by
    intro result h hs
    obtain ⟨context, label, stepIndex, hfinal, hvalid⟩ := h hs
    exact ⟨flow, context, label, stepIndex, hflow, hfinal, hvalid⟩
  refine .modify_bind (fun _ => id) (given_any.bind fun _ _ => given_any.bind fun _ _ => ?_)
  refine .get_bind fun _ _ => given_any.bind fun _ _ => ?_
  cases flow with
  | dag flow => exact executeDagFlow_passed.post hsucceeds
  | linear flow => exact executeLinear_passed.post hsucceeds

/-- What a step may rely on in a nested synchronous call. -/
theorem lanes_succeed {Inv : RunScopedState → Prop} {A : Event → Prop} (stack : Nat) (flowName : String)
    (input : Dict) (cancellation : Cancellation) :
    (frame Inv).Given A ((executor.lanes stack).executeFlow flowName input cancellation)
      (executor.Succeeds flowName) anyError := by
  cases stack with
  | zero => exact given_refuse trivial
  | succ stack => exact given_within (executeFlowWith_succeeds rfl)

end ChainWeaver.Executor
