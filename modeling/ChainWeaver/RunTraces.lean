import ChainWeaver.Data.Attempt
import ChainWeaver.Turns

/-!
# Traces of a run

The trace of one run of a flow, as the steps taken so far make it up: where the
run stands, how it may end, and how it may break off.
-/

namespace ChainWeaver.Executor

open Interaction (Closed Frame)

/-- The next step index of a run and its log. -/
structure Spot where
  index : Nat
  log : List StepRecord

def Spot.next (spot : Spot) (record : StepRecord) : Spot := ⟨spot.index + 1, spot.log ++ [record]⟩

/-- The outputs of a step cannot be placed: a sibling has produced one of the
keys, or a predicate of its branches is no predicate. The asynchronous lane has no
branches. -/
def Unplaceable (executor : Executor) (lane : Lane) (step : DAGFlowStep)
    (context outputs levelOutputs : Dict) : Prop :=
  (outputs.keys.find? levelOutputs.contains).isSome ∨
    lane = .sync ∧ ∃ e, executor.routeBranch step context (levelOutputs.update outputs) outputs = .ok (.invalid e)

/-- What a run starts from: its input, a snapshot, or the records of another run. -/
inductive Origin
  | fresh
  | resumed (snapshot : ExecutionSnapshot)
  | replayed

/-- One run, and what its steps may do inside. -/
structure Scene where
  executor : Executor
  Inv : RunScopedState → Prop
  lane : Lane
  I : StepInfo → List Event → Prop
  flow : AnyFlow
  run : RunInfo
  start : Spot
  origin : Origin

namespace Scene

variable (S : Scene)

def Of (info : StepInfo) : Prop := info.traceId = S.run.traceId ∧ info.flowName = S.run.flowName

def At (info : StepInfo) (index : Nat) : Prop := S.Of info ∧ info.stepIndex = (index : Int)

structure Good (nested : Nested) : Prop where
  stable : Stable S.Inv
  inside : ∀ info, S.Of info → Inside S.executor S.Inv (S.I info) S.lane nested info

abbrev flowEndEvent (result : ExecutionResult) : Event :=
  hookEvent (.flowEnd S.run.traceId S.run.flowName result)

-- The language

/-- The mark with which the steps of a run start. -/
inductive Seed : Event → Prop
  | fresh : S.origin = .fresh → S.Inv state →
      S.executor.validateFlowSchema S.run.flowName S.run.initialInput S.flow.header.inputSchemaRef
        flowInputStepIndex "flow_input" = .ok none →
      Seed (probeEvent (.seed S.run.traceId S.flow.header S.run.initialInput
        (S.run.initialInput.update state.dynamicParams) [] 0))
  | resumed (level) : S.origin = .resumed snapshot →
      Seed (probeEvent (.seed S.run.traceId S.flow.header S.run.initialInput snapshot.context
        snapshot.executionLog level))
  | replayed (context) : S.origin = .replayed →
      Seed (probeEvent (.seed S.run.traceId S.flow.header S.run.initialInput context [] S.start.index))

/-- What the loops do between steps. -/
inductive Aside : Event → Prop
  | clock : Aside ⟨.clock, (), reply⟩
  | isCancelled : Aside ⟨.isCancelled, (), reply⟩
  | schedule : Aside ⟨.schedule, (), reply⟩
  | visit (step skipped) : Aside (probeEvent (.visit S.run.traceId step skipped))
  | place : ¬S.executor.Unplaceable S.lane step context outputs levelOutputs →
      Aside (probeEvent (.place S.run.traceId step context outputs levelOutputs))
  | merge (policy context outputs) : Aside (probeEvent (.merge S.run.traceId policy context outputs))
  | finish (header context) : Aside (probeEvent (.finish header context))
  | save (snapshot reply) : S.Inv state → state.dryRun = false → snapshot.traceId = S.run.traceId →
      Aside ⟨.save, snapshot, reply⟩

/-- The steps of a level are the `count` steps from `first` on. -/
def Level (first count : Nat) : Prop :=
  ∃ flow levels place level, S.flow = .dag flow ∧
    computeDagLevels S.executor.platform.hashing flow = .ok levels ∧ levels[place]? = some level ∧
    first = (levels.take place).flatten.length ∧ count = level.length

/-- Steps `first` to `first + count - 1` run concurrently, each as `ends` says. -/
def Strands (first count : Nat) (ends : StepInfo → List Event → Prop) (events : List Event) : Prop :=
  ∃ pieces, Interaction.Prog.Merged pieces events ∧ ∀ piece ∈ pieces, ∃ info place, place < count ∧
    S.At info (first + place) ∧ ends info piece

/-- A step to its record or its exception. -/
def Taken (info : StepInfo) (events : List Event) : Prop :=
  Torn (S.I info) info events ∨ ∃ record, Turn (S.I info) info record events

/-- A step to a record of success. -/
def Passed (info : StepInfo) (events : List Event) : Prop :=
  ∃ record, Turn (S.I info) info record events ∧ record.success = true

/-- `Reached spot events`: the run stands at `spot`, all steps so far have
succeeded, and `events` is its trace. Only the asynchronous lane runs steps
concurrently; nothing is said of its log then. -/
inductive Reached : Spot → List Event → Prop
  | start : S.Seed e → Reached S.start [e]
  | aside : Reached spot events → S.Aside e → Reached spot (events ++ [e])
  | turn : Reached spot events → S.At info spot.index → Turn (S.I info) info record own →
      record.success = true → Reached (spot.next record) (events ++ own)
  | skip (name) : Reached spot events → skipDecision skipped step = true →
      Reached (spot.next (skippedRecord spot.index name))
        (events ++ [probeEvent (.visit S.run.traceId step skipped)])
  | strands : S.lane = .async → Reached spot events → S.Level spot.index count →
      S.Strands spot.index count S.Passed own → Reached ⟨spot.index + count, spot.log⟩ (events ++ own)
  | settle (log) : S.lane = .async → Reached spot events → Reached ⟨spot.index, log⟩ events

/-- The trace of a run in the asynchronous lane whose last level has been run, and
perhaps failed. -/
inductive Spent : List Event → Prop
  | reached : S.Reached spot events → Spent events
  | strands : S.Reached spot events → S.Level spot.index count →
      S.Strands spot.index count S.Taken own → Spent (events ++ own)
  /-- The level has a step that the lane has no code for. -/
  | unsupported (step) : S.Reached spot events → S.Level spot.index count → place < count →
      Spent (events ++ [probeEvent (.unsupported S.run.traceId (spot.index + place) step)])
  | aside : Spent events → S.Aside e → Spent (events ++ [e])
  | place : Spent events → S.executor.Unplaceable S.lane step context outputs levelOutputs →
      Spent (events ++ [probeEvent (.place S.run.traceId step context outputs levelOutputs)])

/-- `Ended success log events`: the run is over but for `_make_result`. -/
inductive Ended : Bool → List StepRecord → List Event → Prop
  | finished : S.Reached spot events → Ended true spot.log events
  /-- The check of the initial input failed. -/
  | unseeded : Ended false [flowRecord S.run.flowName payload stepIndex detail label] []
  /-- A flow-level check failed. -/
  | refused : S.Reached spot events →
      Ended false (spot.log ++ [flowRecord S.run.flowName payload stepIndex detail label]) events
  | failed : S.Reached spot events → S.At info spot.index → Turn (S.I info) info record own →
      record.success = false → Ended false (spot.log ++ [record]) (events ++ own)
  /-- A step succeeded, and its record was replaced. -/
  | replaced : S.Reached spot events → S.At info spot.index → Turn (S.I info) info record own →
      S.executor.Unplaceable S.lane step context outputs levelOutputs →
      Ended false (spot.log ++ [replaced record name e])
        (events ++ own ++ [probeEvent (.place S.run.traceId step context outputs levelOutputs)])
  | spent : S.lane = .async → S.Spent events → Ended false log events

/-- The events of `_make_result`. -/
inductive Closing (result : ExecutionResult) : List Event → Prop
  | plain : Closing result [S.flowEndEvent result]
  | deleting : Closing result [⟨.delete, S.run.traceId, reply⟩, S.flowEndEvent result]

structure Returned (result : ExecutionResult) (events : List Event) : Prop where
  traceId : result.traceId = S.run.traceId
  trace : ∃ before after, S.Ended result.success result.executionLog before ∧ S.Closing result after ∧
    events = before ++ after

/-- The trace of a run that raises. -/
inductive Broken : List Event → Prop
  | unseeded : Broken [faultEvent e]
  | raised : S.Reached spot events → Broken (events ++ [faultEvent e])
  | undeleted : S.Ended success log events →
      Broken (events ++ [⟨.delete, S.run.traceId, reply⟩] ++ [faultEvent e])
  | torn : S.Reached spot events → S.At info spot.index → Torn (S.I info) info own → Disturbed own →
      Broken (events ++ own)
  | tornStrands : S.lane = .async → S.Reached spot events → S.Level spot.index count →
      S.Strands spot.index count S.Taken own → Disturbed own → Broken (events ++ own)
  | spent : S.lane = .async → S.Spent events → Broken (events ++ [faultEvent e])
  /-- A nested run was cancelled, and the flow ends with its step open. -/
  | reanchored : S.Reached spot events → S.At info spot.index → Torn (S.I info) info own → Disturbed own →
      Broken (events ++ own ++ [S.flowEndEvent result])
  /-- The run stopped at a step boundary of its own. -/
  | stopped : S.Reached spot events →
      Broken (events ++ [probeEvent (.cancelled S.run.traceId)] ++ [S.flowEndEvent result])

-- Outcomes

def RunQ : Except Exc ExecutionResult → List Event → Prop
  | .ok result, events => S.Returned result events
  | .error _, events => S.Broken events

/-- A part of the run that does not move it. -/
def StayQ (spot : Spot) : Except Exc α → List Event → Prop
  | .ok _, events => S.Reached spot events
  | .error _, events => S.Broken events

/-- A part of the run that moves it to a spot, or ends it. -/
def LoopQ (spotOf : α → Spot) : Except Exc (Progress α) → List Event → Prop
  | .ok (.going state), events => S.Reached (spotOf state) events
  | .ok (.ended result), events => S.Returned result events
  | .error _, events => S.Broken events

end Scene

-- What the loops share

section

variable {S : Scene} {nested : Nested} {spot : Spot} {history : List Event}

/-- The snapshot of a run is deleted, left alone, or an error keeps it. -/
def DeleteQ (S : Scene) (history : List Event) : Except Exc Unit → List Event → Prop
  | .ok (), events => events = history ∨ ∃ reply, events = history ++ [⟨.delete, S.run.traceId, reply⟩]
  | .error e, events => ∃ reply, events = history ++ [⟨.delete, S.run.traceId, reply⟩] ++ [faultEvent e]

theorem deleteSnapshot_from (htrace : result.traceId = S.run.traceId) :
    (frame S.Inv).From history (S.executor.deleteSnapshot result) (DeleteQ S history) := by
  unfold deleteSnapshot
  split
  · rw [htrace]
    exact .ask_bind fun reply => from_ofExcept (fun _ _ => .inr ⟨_, rfl⟩) fun e => ⟨_, rfl⟩
  · exact .pure (.inl rfl)

theorem makeResult_returned (h : S.Ended success log history) :
    (frame S.Inv).From history (S.executor.makeResult S.run success output log count) S.RunQ := by
  unfold makeResult
  refine .get_bind fun state _ => .bind (deleteSnapshot_from rfl) (fun _ events hevents => ?_) ?_
  · refine .ask_bind fun _ => .pure ⟨rfl, history, ?_⟩
    rcases hevents with rfl | ⟨reply, rfl⟩
    · exact ⟨_, h, .plain, rfl⟩
    · exact ⟨_, h, .deleting, List.append_assoc ..⟩
  · rintro e events ⟨reply, rfl⟩
    exact .undeleted h

/-- The result of a run that has not succeeded: nothing is deleted. -/
theorem makeResult_false_bind {f : ExecutionResult → Exec α} {post : Except Exc α → List Event → Prop}
    (h : ∀ result, (frame S.Inv).From (history ++ [S.flowEndEvent result]) (f result) post) :
    (frame S.Inv).From history (S.executor.makeResult S.run false output log count >>= f) post := by
  have hresult : (frame S.Inv).From history (S.executor.makeResult S.run false output log count) fun r events =>
      ∃ result, r = .ok result ∧ events = history ++ [S.flowEndEvent result] := by
    unfold makeResult
    refine .get_bind fun state _ => ?_
    simp only [deleteSnapshot, Bool.and_false, Bool.false_eq_true, if_false]
    exact .pure_bind (.ask_bind fun _ => .pure ⟨_, rfl, rfl⟩)
  refine .bind hresult (fun value events hr => ?_) fun e events hr => ?_
  · obtain ⟨result, hr, rfl⟩ := hr
    obtain rfl := Except.ok.inj hr
    exact h _
  · obtain ⟨result, hr, _⟩ := hr
    cases hr

theorem deadlineExceeded_from (h : S.Reached spot history) :
    (frame S.Inv).From history (deadlineExceeded cancellation) (S.StayQ spot) := by
  unfold deadlineExceeded
  split
  · exact .pure h
  · exact .ask_bind fun _ => .pure (h.aside .clock)

theorem tokenCancelled_from (h : S.Reached spot history) :
    (frame S.Inv).From history (tokenCancelled cancellation) (S.StayQ spot) := by
  unfold tokenCancelled
  split
  · exact .ask fun _ => h.aside .isCancelled
  · exact .pure h

theorem checkCancellation_stay (h : S.Reached spot history) :
    (frame S.Inv).From history (S.executor.checkCancellation S.run index cancellation log)
      (S.StayQ spot) := by
  unfold checkCancellation
  refine .bind (deadlineExceeded_from h) (fun late events h => ?_) fun _ _ h => h
  refine .bind (tokenCancelled_from h) (fun cancelled events h => ?_) fun _ _ h => h
  split
  · exact .ask_bind fun _ => makeResult_false_bind fun result => .throw (.stopped h)
  · exact .pure h

theorem saveSnapshot_stay (h : S.Reached spot history) :
    (frame S.Inv).From history (S.executor.saveSnapshot S.run flow context log completed)
      (S.StayQ spot) := by
  unfold saveSnapshot
  refine .get_bind fun state hs => ?_
  split
  · next hc =>
    simp only [Bool.and_eq_true, Bool.not_eq_true'] at hc
    refine from_ofExcept_bind (fun hashes _ => ?_) fun e => .raised h
    refine .ask_bind fun reply => ?_
    have hsaved := h.aside (.save (snapshotOf S.run flow context log completed hashes) reply hs hc.2 rfl)
    exact from_ofExcept (fun _ _ => hsaved) fun e => .raised hsaved
  · exact .pure h

theorem validateFlowSchema_some {executor : Executor}
    (h : executor.validateFlowSchema flowName payload schemaRef stepIndex label = .ok (some record)) :
    ∃ detail, record = flowRecord flowName payload stepIndex detail label := by
  cases schemaRef with
  | none => cases h
  | some ref =>
    obtain ⟨schema, -, h⟩ := Attempt.bind_eq_ok.1 h
    obtain ⟨detail, -, h⟩ := Attempt.bind_eq_ok.1 h
    cases detail with
    | none => cases h
    | some detail => exact ⟨detail, (Option.some.inj (Except.ok.inj h)).symm⟩

theorem finishFlow_run (h : S.Reached ⟨index, log⟩ history) :
    (frame S.Inv).From history
      (S.executor.finishFlow S.run header stepCount checkContext context log) S.RunQ := by
  unfold finishFlow
  refine from_ofExcept_bind (fun outputFailure houtput => ?_) fun e => .raised h
  cases outputFailure with
  | some record =>
    obtain ⟨detail, rfl⟩ := validateFlowSchema_some houtput
    exact makeResult_returned (.refused h)
  | none =>
    have h := h.aside (.finish header context)
    refine .ask_bind fun _ => from_ofExcept_bind (fun contextFailure hcontext => ?_) fun e => .raised h
    cases contextFailure with
    | some record =>
      obtain ⟨detail, rfl⟩ := validateFlowSchema_some hcontext
      exact makeResult_returned (.refused h)
    | none => exact makeResult_returned (.finished h)

/-- A step that raised: what it left, and how the run breaks off. -/
theorem reraise_broken (h : S.Reached spot history) (hat : S.At info spot.index)
    (htorn : Torn (S.I info) info own) (hd : Disturbed own) {Q : Except Exc α → List Event → Prop}
    (hQ : ∀ e events, S.Broken events → Q (.error e) events) :
    (frame S.Inv).From (history ++ own)
      (S.executor.reraiseSubflowCancellation S.run step index log sub message late cancelled) Q := by
  unfold reraiseSubflowCancellation
  exact makeResult_false_bind fun result => .throw (hQ _ _ (.reanchored h hat htorn hd))

-- Linear flows

theorem checkTurn_stay (h : S.Reached spot history) :
    (frame S.Inv).From history (S.executor.checkTurn mode S.run index cancellation log)
      (S.StayQ spot) := by
  unfold checkTurn
  split
  · exact .pure h
  · exact checkCancellation_stay h

theorem mergeOutputs_stay (h : S.Reached spot history) :
    (frame S.Inv).From history (mergeOutputs mode S.run policy step index context record)
      (S.StayQ spot) := by
  unfold mergeOutputs
  split
  · split
    · exact ensures_raise (.raised h)
    · exact from_displayName_bind (fun _ _ => ensures_raise (.raised h)) fun e => .raised h
  · refine from_displayName_bind (fun name _ => ?_) fun e => .raised h
    refine from_ofExcept_bind (fun mapped _ => ?_) fun e => .raised h
    refine .ask_bind fun _ => ?_
    have hmerge := h.aside (.merge policy context mapped)
    split
    · exact .pure hmerge
    · exact from_ofExcept (fun _ _ => hmerge) fun e => .raised hmerge

theorem linearStep_loop (hS : S.Good nested) (hlane : mode.lane = S.lane)
    (h : S.Reached ⟨stepIndex, log⟩ history) :
    (frame S.Inv).From history
      (S.executor.linearStep mode nested S.run flow cancellation stepIndex step context log)
      (S.LoopQ fun state => ⟨stepIndex + 1, state.2⟩) := by
  have hat : S.At { traceId := S.run.traceId, flowName := S.run.flowName, stepIndex, stepId := none }
      stepIndex := ⟨⟨rfl, rfl⟩, rfl⟩
  unfold linearStep
  refine .bind (checkTurn_stay h) (fun _ history h => ?_) fun _ _ h => h
  rw [hlane]
  refine .attempt_bind (Frame.From.after (executeStepIn_turn hS.stable (hS.inside _ hat.1))) ?_
  rintro outcome _ ⟨own, rfl, hown⟩
  split
  · split
    · exact .throw (.torn h hat hown.1 hown.2)
    · exact reraise_broken h hat hown.1 hown.2 fun _ _ => id
  · exact .throw (.torn h hat hown.1 hown.2)
  · next record =>
    dsimp only
    split
    · next hfail =>
      refine .bind (makeResult_returned (.failed h hat hown (by simpa using hfail)))
        (fun result events hr => .pure hr) fun _ _ h => h
    · next hok =>
      have hnext := h.turn hat hown (by simpa using hok)
      refine .bind (mergeOutputs_stay hnext) (fun context history h => ?_) fun _ _ h => h
      exact .bind (saveSnapshot_stay h) (fun _ history h => .pure h) fun _ _ h => h

theorem linearLoop_loop (hS : S.Good nested) (hlane : mode.lane = S.lane) (steps : List FlowStep)
    (h : S.Reached ⟨stepIndex, log⟩ history) :
    (frame S.Inv).From history
      (S.executor.linearLoop mode nested S.run flow cancellation steps stepIndex context log)
      (S.LoopQ fun state => ⟨stepIndex + steps.length, state.2⟩) := by
  induction steps generalizing stepIndex context log history with
  | nil => exact .pure h
  | cons step rest ih =>
    unfold linearLoop
    refine .bind (linearStep_loop hS hlane h) (fun progress history h => ?_) fun _ _ h => h
    cases progress with
    | ended result => exact .pure h
    | going state =>
      rw [List.length_cons, Nat.add_comm rest.length, ← Nat.add_assoc]
      exact ih h

theorem linearFrom_run (hS : S.Good nested) (hlane : mode.lane = S.lane)
    (h : S.Reached ⟨start, log⟩ history) :
    (frame S.Inv).From history
      (S.executor.linearFrom mode nested S.run flow cancellation start context log) S.RunQ := by
  unfold linearFrom
  refine .bind (linearLoop_loop hS hlane _ h) (fun progress history h => ?_) fun _ _ h => h
  cases progress with
  | ended result => exact .pure h
  | going state => exact finishFlow_run h

end

end ChainWeaver.Executor
