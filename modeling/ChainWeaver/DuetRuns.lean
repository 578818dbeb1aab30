import ChainWeaver.DuetSteps

/-!
# Whole runs on both sides

The loops over the steps of a flow, what is around them, and the entry points.
-/

namespace ChainWeaver.Duet

open Executor
open Interaction (Frame Met Never)

variable {P : Duet} {nested nested' : Nested} {called : String → Prop}

/-- One run, as its two copies name it. -/
structure SameRun (info info' : RunInfo) : Prop where
  flowName : info.flowName = info'.flowName
  initialInput : info.initialInput = info'.initialInput

variable {info info' : RunInfo} {cancellation : Cancellation} {log log' : List StepRecord} {context : Dict}

-- Results and snapshots

theorem settles_makeResult {D : ExecutionResult → Prop} (h : SameRun info info') (hlog : LogKin P.marks log log')
    (success : Bool) (output : Option Dict) (count : Option Nat) :
    P.Settles D (P.executor.makeResult info success output log count)
      (P.other.makeResult info' success output log' count) (ExecutionResult.Kin P.marks) := by
  change P.Settles D _ (P.executor.makeResult info' success output log' count) _
  unfold makeResult
  refine .get_bind fun state state' hstate => ?_
  rw [costReport_kin hlog count, hstate.activeFlowVersion, hstate.dryRun, h.flowName, h.initialInput]
  have hdelete (result result' : ExecutionResult) (hsuccess : result.success = result'.success) :
      P.Settles Never (P.executor.deleteSnapshot result) (P.executor.deleteSnapshot result') Eq := by
    unfold deleteSnapshot
    rw [hsuccess]
    split
    · exact .bind_same (settles_perform (fun _ _ => id) rfl) fun reply => settles_ofExcept rfl
    · exact .pure rfl
  refine .bind_same (hdelete _ _ rfl) fun _ => .bind_same settles_fire fun _ => .pure ?_
  have hlog : logWithout P.marks log = logWithout P.marks log' := hlog
  simp only [ExecutionResult.Kin, ExecutionResult.without_eq, hlog]

/-- A failed result is made without looking for a snapshot. -/
theorem given_makeResult {F : Frame Effects RunScopedState} {Q : Interaction.Event Effects → Prop} {E : Exc → Prop}
    {executor : Executor} {count : Option Nat} :
    F.Given Q (executor.makeResult info false none log count) (fun result => result.success = false) E := by
  unfold makeResult
  refine .get_bind fun state _ => ?_
  refine .bind (Q := fun _ => True) ?_ fun _ _ => .ask_bind fun _ _ => .pure rfl
  unfold deleteSnapshot
  rw [if_neg (by simp)]
  exact .pure trivial

theorem given_raise {F : Frame Effects RunScopedState} {A : Interaction.Event Effects → Prop} {Q : α → Prop}
    {E : Exc → Prop} {e : Exc} (h : E e) : F.Given A (raise e : Exec α) Q E :=
  .ask_bind fun _ _ => .throw h

theorem other_toolSchemaHashes (steps : List FlowStep) (hashes : OrderedDict String) :
    P.other.toolSchemaHashes steps hashes = P.executor.toolSchemaHashes steps hashes := by
  induction steps generalizing hashes with
  | nil => rfl
  | cons step rest ih =>
    simp only [toolSchemaHashes, ih]
    rfl

theorem settles_saveSnapshot {D : Unit → Prop} (h : SameRun info info') (flow : AnyFlow) (completed : Nat) :
    P.Settles D (P.executor.saveSnapshot info flow context log completed)
      (P.other.saveSnapshot info' flow context log' completed) Eq := by
  unfold saveSnapshot
  refine .get_bind fun state state' hstate => ?_
  rw [other_toolSchemaHashes, hstate.dryRun]
  change P.Settles D _ (if (P.executor.hasCheckpointer && !state'.dryRun) = true then _ else _) _
  split
  · refine .bind_same (settles_ofExcept rfl) fun hashes => .bind_same ?_ fun reply => settles_ofExcept rfl
    refine @settles_perform P .save _ _ _ (fun _ _ => id) ?_
    simp only [blind, snapshotOf, h.initialInput]
  · exact .pure rfl

theorem settles_checkCancellation {D : Unit → Prop} (h : SameRun info info') (hlog : LogKin P.marks log log') (index : Nat) :
    P.Settles D (P.executor.checkCancellation info index cancellation log)
      (P.other.checkCancellation info' index cancellation log') Eq := by
  have hlate : P.Settles Never (deadlineExceeded cancellation) (deadlineExceeded cancellation) Eq := by
    unfold deadlineExceeded
    split
    · exact .pure rfl
    · exact .bind_same (settles_perform (fun _ _ => id) rfl) fun now => .pure rfl
  have hcancelled : P.Settles Never (tokenCancelled cancellation) (tokenCancelled cancellation) Eq := by
    unfold tokenCancelled
    split
    · exact @settles_perform P .isCancelled _ _ _ (fun _ _ => id) rfl
    · exact .pure rfl
  unfold checkCancellation
  refine .bind_same hlate fun late => .bind_same hcancelled fun cancelled => ?_
  rw [hlog.length, h.flowName]
  split
  · refine .bind_same settles_probe fun _ => .bind (settles_makeResult h hlog false none _) fun result result' hresult => ?_
    exact .throw fun _ => .cancelled _ _ _ _ hresult
  · exact .pure rfl

theorem composedRecord_kin {marks : Marks} {result result' : ExecutionResult} (hresult : result.Kin marks result')
    (step : FlowStep) (index : Nat) (message : String) :
    (composedRecord step index result message).Kin marks (composedRecord step index result' message) := by
  have hsub : subWithout marks (some result) = subWithout marks (some result') := congrArg some hresult
  simp only [StepRecord.Kin, StepRecord.without_eq, composedRecord, hsub]

theorem settles_reraise {D : α → Prop} {V : α → β → Prop} (h : SameRun info info') (hlog : LogKin P.marks log log')
    {sub sub' : ExecutionResult} (hsub : sub.Kin P.marks sub') (step : FlowStep) (index : Nat) (message : String)
    (late cancelled : Bool) :
    P.Settles D (P.executor.reraiseSubflowCancellation (α := α) info step index log sub message late cancelled)
      (P.other.reraiseSubflowCancellation (α := β) info' step index log' sub' message late cancelled) V := by
  unfold reraiseSubflowCancellation
  have hfull := hlog.concat (composedRecord_kin hsub step index message)
  dsimp only
  rw [hfull.length, h.flowName]
  refine .bind (settles_makeResult h hfull false none _) fun result result' hresult => ?_
  exact .throw fun _ => .cancelled _ _ _ _ hresult

theorem given_reraise {F : Frame Effects RunScopedState} {Q : Interaction.Event Effects → Prop} {executor : Executor}
    {step : FlowStep} {index : Nat} {sub : ExecutionResult} {message : String} {late cancelled : Bool} :
    F.Given Q (executor.reraiseSubflowCancellation (α := α) info step index log sub message late cancelled) (fun _ => False)
      fun _ => True := by
  unfold reraiseSubflowCancellation
  exact .bind given_makeResult fun _ _ => .throw trivial

theorem settles_finishFlow {D : ExecutionResult → Prop} (h : SameRun info info') (hlog : LogKin P.marks log log')
    (header : FlowHeader) (stepCount : Int) {checkContext checkContext' : Bool}
    (hcontext : checkContext = checkContext' ∨ header.contextSchemaRef = none) :
    P.Settles D (P.executor.finishFlow info header stepCount checkContext context log)
      (P.other.finishFlow info' header stepCount checkContext' context log') (ExecutionResult.Kin P.marks) := by
  have hchecked : (if checkContext then header.contextSchemaRef else none) =
      if checkContext' then header.contextSchemaRef else none := by
    rcases hcontext with rfl | hnone
    · rfl
    · simp [hnone]
  unfold finishFlow
  rw [hlog.length, hchecked, h.flowName]
  refine .bind_same (settles_ofExcept rfl) fun outputFailure => ?_
  cases outputFailure with
  | some record => exact settles_makeResult h (hlog.concat (.refl _)) false none _
  | none =>
    refine .bind_same settles_probe fun _ => .bind_same (settles_ofExcept rfl) fun contextFailure => ?_
    cases contextFailure with
    | some record => exact settles_makeResult h (hlog.concat (.refl _)) false none _
    | none => exact settles_makeResult h hlog true (some context) none

-- Linear flows

/-- The copies of the loop that the sides run. A resumed copy does as a fresh one where there is nothing to
cancel and keys may be overwritten. -/
structure SameLoop (P : Duet) (mode mode' : LinearMode) (policy : ContextCollisionPolicy) (cancellation : Cancellation) :
    Prop where
  lane : mode.lane = P.lane
  lane' : mode'.lane = P.lane'
  resumed : mode.resumed = mode'.resumed ∨
    mode.resumed = false ∧ mode'.resumed = true ∧ policy ≠ .error ∧ cancellation = {} ∧ P.strict = false

theorem sameLoop (resumed : Bool) {policy : ContextCollisionPolicy} :
    P.SameLoop ⟨P.lane, resumed⟩ ⟨P.lane', resumed⟩ policy cancellation :=
  { lane := rfl, lane' := rfl, resumed := .inl rfl }

/-- Where either run is in its flow. -/
inductive SameProgress (marks : Marks) (V : α → β → Prop) : Progress α → Progress β → Prop
  | ended {result result' : ExecutionResult} : result.Kin marks result' → SameProgress marks V (.ended result) (.ended result')
  | going : V state state' → SameProgress marks V (.going state) (.going state')

/-- A run that has ended in a failure makes up for one that raises in the other lane. -/
def Doomed (P : Duet) : Progress α → Prop
  | .ended result => P.apart = true ∧ result.success = false
  | .going _ => False

/-- The same context, and logs that are kin. -/
abbrev SameLinear (marks : Marks) (state state' : Dict × List StepRecord) : Prop :=
  state.1 = state'.1 ∧ LogKin marks state.2 state'.2

variable {mode mode' : LinearMode} {policy : ContextCollisionPolicy} {step : FlowStep} {flow : Flow}

theorem settles_ended {V : α → α → Prop} (h : SameRun info info') (hlog : LogKin P.marks log log') :
    P.Settles P.Doomed (do pure (Progress.ended (α := α) (← P.executor.makeResult info false none log)))
      (do pure (Progress.ended (α := α) (← P.other.makeResult info' false none log'))) (SameProgress P.marks V) :=
  .bind (settles_makeResult h hlog false none none) fun _ _ hresult => .pure (.ended hresult)

theorem settles_mergeOutputs {D : Dict → Prop} (hmode : P.SameLoop mode mode' policy cancellation) (h : SameRun info info')
    {record record' : StepRecord} (hrecord : record.Kin P.marks record') (index : Nat) :
    P.Settles D (mergeOutputs mode info policy step index context record)
      (mergeOutputs mode' info' policy step index context record') Eq := by
  unfold mergeOutputs
  rw [hrecord.outputs]
  cases record'.outputs with
  | none =>
    rcases hmode.resumed with hsame | ⟨hfresh, hresumed, -, -, hstrict⟩
    · dsimp only
      rw [hsame]
      split
      · exact settles_raise (errors_same _)
      · exact .bind_same (settles_displayName rfl) fun name => settles_raise (errors_same _)
    · have hany (e e' : Exc) : P.errors e e' := fun h => absurd h (by simp [hstrict])
      simp only [hfresh, hresumed, Bool.false_eq_true, if_false, if_true]
      unfold displayName
      split
      · exact .pure_left (settles_raise (hany _ _))
      · refine .raises hany (fun F => ?_) fun F => given_raise trivial
        exact .bind (given_raise (Q := fun _ => False) trivial) fun _ => False.elim
  | some outputs =>
    dsimp only
    refine .bind_same (settles_displayName rfl) fun name => .bind_same (settles_ofExcept rfl) fun mapped => ?_
    refine .bind_same settles_probe fun _ => ?_
    rcases hmode.resumed with hsame | ⟨hfresh, hresumed, hpolicy, -, -⟩
    · rw [hsame, h.flowName]
      split
      · exact .pure rfl
      · exact settles_ofExcept rfl
    · simp only [hfresh, hresumed, Bool.false_eq_true, if_false, if_true]
      have hmerged : mergeMapped context mapped policy info.flowName index name = .ok (context.update mapped) := by
        unfold mergeMapped
        split
        · exact absurd rfl hpolicy
        · rfl
      rw [hmerged]
      exact .pure rfl

theorem settles_checkTurn {D : Unit → Prop} (hmode : P.SameLoop mode mode' policy cancellation) (h : SameRun info info')
    (hlog : LogKin P.marks log log') (index : Nat) :
    P.Settles D (P.executor.checkTurn mode info index cancellation log)
      (P.other.checkTurn mode' info' index cancellation log') Eq := by
  unfold checkTurn
  rcases hmode.resumed with hsame | ⟨hfresh, hresumed, -, hnothing, -⟩
  · rw [hsame]
    split
    · exact .pure rfl
    · exact settles_checkCancellation h hlog index
  · subst hnothing
    simp only [hfresh, hresumed, Bool.false_eq_true, if_false, if_true]
    exact .pure_left (.pure_left (.pure rfl))

/-- What a step has to be like for the sides to treat it alike. -/
structure StepFits (P : Duet) (called : String → Prop) (step : FlowStep) : Prop where
  resolves : P.Resolves step
  decided : P.apart = true → step.decisionCandidates = none
  calls : ∀ sub, step.target = .flow sub → called sub

/-- The entry points leave the state of their caller as it is. -/
def Restoring (nested : Nested) : Prop :=
  ∀ lane flowName input cancellation, (nested.entry lane flowName input cancellation).Restores

/-- What may be compared: errors only within the synchronous lane. -/
def Fine (P : Duet) : Prop := P.strict = true → P.lanes = .both .sync

/-- What both runs start from. -/
structure Set (P : Duet) (nested nested' : Nested) (called : String → Prop) : Prop where
  fair : P.Fair
  fine : P.Fine
  partners : Partners P nested nested' called
  wraps : ∀ name tool, P.executor.getTool name = .ok tool → P.WrapsOnly called tool
  restores : Restoring nested
  restores' : Restoring nested'

theorem Set.errors_async (hP : Set P nested nested' called) (hasync : P.lanes = .both .async) (e e' : Exc) : P.errors e e' :=
  fun h => by cases hasync.symm.trans (hP.fine h)

theorem Set.errors_apart (hP : Set P nested nested' called) (hapart : P.apart = true) (e e' : Exc) : P.errors e e' :=
  fun h => by simp [apart, hP.fine h] at hapart

theorem settles_linearStep (hP : Set P nested nested' called)
    (hmode : P.SameLoop mode mode' flow.onContextCollision cancellation) (h : SameRun info info')
    (hlog : LogKin P.marks log log') (hstep : P.StepFits called step) (index : Nat) :
    P.Settles P.Doomed (P.executor.linearStep mode nested info flow cancellation index step context log)
      (P.other.linearStep mode' nested' info' flow cancellation index step context log')
      (SameProgress P.marks (SameLinear P.marks)) := by
  unfold linearStep
  rw [hmode.lane, hmode.lane']
  refine .bind_same (settles_checkTurn hmode h hlog index) fun _ => ?_
  have hspot : SameSpot { traceId := info.traceId, flowName := info.flowName, stepIndex := index, stepId := none }
      { traceId := info'.traceId, flowName := info'.flowName, stepIndex := index, stepId := none } := ⟨h.flowName, rfl⟩
  refine .attempt_missed (settles_executeStepIn step context hP.fair hP.partners hP.wraps hspot hstep.resolves hstep.decided
    hstep.calls cancellation) ?_ ?_ ?_ ?_
  · intro record record' hrecord
    dsimp only
    rw [hrecord.success]
    split
    · exact settles_ended h (hlog.concat hrecord)
    · refine .bind_same (settles_mergeOutputs hmode h hrecord index) fun context => ?_
      exact .bind_same (settles_saveSnapshot h _ _) fun _ => .pure (.going ⟨rfl, hlog.concat hrecord⟩)
  · intro e e' he
    cases hstrict : P.strict with
    | true =>
      have hsame : mode.resumed = mode'.resumed := by
        rcases hmode.resumed with hsame | ⟨-, -, -, -, hloose⟩
        · exact hsame
        · rw [hstrict] at hloose
          cases hloose
      cases he hstrict with
      | same e =>
        dsimp only
        split
        · rw [hsame]
          split
          · exact .throw (errors_same _)
          · exact settles_reraise h hlog (.refl _) _ _ _ _ _
        · exact .throw (errors_same _)
        · next heq => cases heq
      | cancelled flowName stepIndex late cancelled hsub =>
        dsimp only
        rw [hsame]
        split
        · exact .throw fun _ => .cancelled _ _ _ _ hsub
        · exact settles_reraise h hlog hsub _ _ _ _ _
    | false =>
      refine .raises (fun _ _ h => absurd h (by simp [hstrict])) (fun F => ?_) fun F => ?_
      all_goals
        split
        · split
          · exact .throw trivial
          · exact given_reraise
        · exact .throw trivial
        · next heq => cases heq
  · intro record hrecord
    dsimp only
    rw [if_pos (by simp [hrecord.2])]
    exact .bind given_makeResult fun result hresult => .pure ⟨hrecord.1, hresult⟩
  · intro _ _ e'
    dsimp only
    split
    · split
      · exact .throw
      · exact given_reraise
    · exact .throw
    · next heq => cases heq

theorem settles_linearLoop (hP : Set P nested nested' called)
    (hmode : P.SameLoop mode mode' flow.onContextCollision cancellation) (h : SameRun info info') (steps : List FlowStep)
    (hsteps : ∀ step ∈ steps, P.StepFits called step) (index : Nat) (context : Dict) (hlog : LogKin P.marks log log') :
    P.Settles P.Doomed (P.executor.linearLoop mode nested info flow cancellation steps index context log)
      (P.other.linearLoop mode' nested' info' flow cancellation steps index context log')
      (SameProgress P.marks (SameLinear P.marks)) := by
  induction steps generalizing index context log log' with
  | nil => exact .pure (.going ⟨rfl, hlog⟩)
  | cons step rest ih =>
    obtain ⟨hstep, hrest⟩ := List.forall_mem_cons.1 hsteps
    refine .bind_missed (settles_linearStep hP hmode h hlog hstep index) ?_ ?_
    · rintro _ _ (hresult | @⟨⟨context, log⟩, ⟨_, log'⟩, rfl, hlog⟩)
      · exact .pure (.ended hresult)
      · exact ih hrest _ _ hlog
    · rintro (result | state) hdoomed
      · exact .pure hdoomed
      · exact hdoomed.elim

/-- A failed result makes up for a run that raises in the other lane. -/
abbrev Lost (P : Duet) (result : ExecutionResult) : Prop := P.apart = true ∧ result.success = false

theorem settles_linearFrom (hP : Set P nested nested' called)
    (hmode : P.SameLoop mode mode' flow.onContextCollision cancellation) (h : SameRun info info')
    (hsteps : ∀ step ∈ flow.steps, P.StepFits called step) (hcontext : P.apart = true → flow.contextSchemaRef = none)
    (start : Nat) (context : Dict) (hlog : LogKin P.marks log log') :
    P.Settles P.Lost (P.executor.linearFrom mode nested info flow cancellation start context log)
      (P.other.linearFrom mode' nested' info' flow cancellation start context log') (ExecutionResult.Kin P.marks) := by
  unfold linearFrom
  have hrest : ∀ step ∈ flow.steps.drop start, P.StepFits called step := fun step hs => hsteps step (List.mem_of_mem_drop hs)
  refine .bind_missed (settles_linearLoop hP hmode h _ hrest start context hlog) ?_ ?_
  · rintro _ _ (hresult | @⟨⟨context, log⟩, ⟨_, log'⟩, rfl, hlog⟩)
    · exact .pure hresult
    · refine settles_finishFlow h hlog _ _ ?_
      rw [hmode.lane, hmode.lane']
      cases hapart : P.apart with
      | true => exact .inr (hcontext hapart)
      | false => exact .inl (by rw [lane_eq hapart])
  · rintro (result | state) hdoomed
    · exact .pure hdoomed
    · exact hdoomed.elim

/-- States that go together but for the version of the flow, which a flow sets anew. -/
structure Loosened (P : Duet) (state : RunScopedState → RunScopedState → Prop) : Prop where
  into : ∀ s s' version, state s s' → P.Alike { s with activeFlowVersion := version } { s' with activeFlowVersion := version }
  back : ∀ t t', P.Alike t t' → state t t'

theorem Alike.versioned {s s' : RunScopedState} (h : P.Alike s s') (version : String) :
    P.Alike { s with activeFlowVersion := version } { s' with activeFlowVersion := version } :=
  { h with activeFlowVersion := rfl }

theorem loosened_alike : P.Loosened P.Alike :=
  { into := fun _ _ version h => h.versioned version, back := fun _ _ => id }

variable (cancellation) in
theorem settles_executeLinear (hP : Set P nested nested' called) {state : RunScopedState → RunScopedState → Prop}
    (hstate : P.Loosened state) (hsteps : ∀ step ∈ flow.steps, P.StepFits called step)
    (hcontext : P.apart = true → flow.contextSchemaRef = none) (flowName : String) (input : Dict) :
    Interaction.Accord.Settles { P.accord with state } P.errors P.Lost
      (P.executor.executeLinear P.lane nested flow flowName input cancellation)
      (P.other.executeLinear P.lane' nested' flow flowName input cancellation) (ExecutionResult.Kin P.marks) := by
  unfold executeLinear
  refine Interaction.Accord.Settles.modify_into (A := P.accord) (fun s s' => hstate.into s s' _) hstate.back ?_
  refine .ask_bind fun traceId traceId' _ _ => ?_
  refine .bind_same settles_fire fun _ => .bind_same (settles_ofExcept rfl) fun failure => ?_
  have hrun : SameRun { flowName, traceId, initialInput := input } { flowName, traceId := traceId', initialInput := input } :=
    ⟨rfl, rfl⟩
  cases failure with
  | some record => exact settles_makeResult hrun (.refl _) false none _
  | none =>
    refine .get_bind fun state state' hstate => .bind_same settles_probe fun _ => ?_
    rw [hstate.dynamicParams]
    exact settles_linearFrom hP (sameLoop false) hrun hsteps hcontext 0 _ (.refl _)

theorem settles_resumeLinear (hP : Set P nested nested' called) (hsteps : ∀ step ∈ flow.steps, P.StepFits called step)
    (hcontext : P.apart = true → flow.contextSchemaRef = none) (snapshot : ExecutionSnapshot) :
    P.Settles P.Lost (P.executor.resumeLinear P.lane nested flow snapshot)
      (P.other.resumeLinear P.lane' nested' flow snapshot) (ExecutionResult.Kin P.marks) := by
  unfold resumeLinear
  refine .modify_bind (fun s s' hs => hs.versioned _) ?_
  refine .bind_same settles_fire fun _ => .bind_same settles_probe fun _ => ?_
  exact settles_linearFrom hP (sameLoop true) ⟨rfl, rfl⟩ hsteps hcontext _ _ (.refl _)

end ChainWeaver.Duet
