import ChainWeaver.BranchTraces
import ChainWeaver.Containment

/-!
# Branches that cannot be decided

A predicate that is refused with the evaluator's own error ends the run with a failed
record for its step. Whatever else an evaluation raises leaves the run.
-/

namespace ChainWeaver.Executor

open Interaction (Frame)
open Predicate (Evaluable contained_evaluate)

/-- A step of the run `traceId` whose outputs are placed without a clash, and the context
that its predicates see. -/
def routed (traceId : String) : Event → Option (DAGFlowStep × Dict)
  | ⟨.probe, .place id step context outputs levelOutputs, _⟩ =>
    if id = traceId ∧ outputs.keys.find? levelOutputs.contains = none then
      some (step, (context.update (levelOutputs.update outputs)).update outputs)
    else none
  | _ => none

def routings (traceId : String) (events : List Event) : List (DAGFlowStep × Dict) :=
  events.filterMap (routed traceId)

variable {executor : Executor} {traceId : String} {nested : Nested} {info : RunInfo}
variable {first second history own events : List Event} {step : DAGFlowStep} {context : Dict}

theorem routings_append : routings traceId (first ++ second) = routings traceId first ++ routings traceId second :=
  List.filterMap_append

theorem routed_eq_some (h : routed traceId e = some entry) : Tells e ∧ outer e = some traceId := by
  unfold routed at h
  split at h
  · split at h
    · next hid => exact ⟨trivial, congrArg some hid.1⟩
    · cases h
  · cases h

theorem Untold.routings (h : Untold traceId events) : routings traceId events = [] := by
  refine List.filterMap_eq_nil_iff.2 fun e he => ?_
  cases hrouted : routed traceId e with
  | none => rfl
  | some entry =>
    obtain ⟨htells, houter⟩ := routed_eq_some hrouted
    exact absurd houter (h e he htells)

-- Edges

/-- The predicates that the routing gets to are refused as no syntax, or defined. -/
def Routable (executor : Executor) (context : Dict) : List ConditionalEdge → Prop
  | [] => True
  | edge :: rest =>
    Evaluable executor.platform.parsePredicate edge.predicate context ∧
      (Predicate.evaluate executor.platform.parsePredicate edge.predicate context = .ok false →
        Routable executor context rest)

/-- The routing raises exactly if it gets to a predicate that does. -/
theorem selectEdge_raises (step : DAGFlowStep) (edges : List ConditionalEdge) :
    (∃ e, executor.selectEdge step context edges = .error e) ↔ ¬executor.Routable context edges := by
  induction edges with
  | nil => simp [selectEdge, Routable]
  | cons edge rest ih =>
    rw [selectEdge, Routable, ← contained_evaluate]
    cases Predicate.evaluate executor.platform.parsePredicate edge.predicate context with
    | ok holds =>
      cases holds with
      | true => simp
      | false => simpa using ih
    | error e => cases e <;> simp [PredicateError.Own]

theorem selectEdge_invalid (edges : List ConditionalEdge)
    (h : executor.selectEdge step context edges = .ok (.invalid e)) : e.typeName = "PredicateSyntaxError" := by
  induction edges with
  | nil => cases h
  | cons edge rest ih =>
    rw [selectEdge] at h
    split at h
    · cases h
    · exact ih h
    · obtain rfl := BranchOutcome.invalid.inj (Except.ok.inj h)
      rfl
    · cases h

/-- The level loop asks the edges of a step, and a step without edges selects nothing. -/
theorem routeBranch_select (executor : Executor) (step : DAGFlowStep) (context levelOutputs outputs : Dict) :
    match executor.routeBranch step context levelOutputs outputs with
    | .ok (.selected _) => ∃ target, executor.selectEdge step ((context.update levelOutputs).update outputs)
        step.branches = .ok (.selected target)
    | outcome => executor.selectEdge step ((context.update levelOutputs).update outputs) step.branches = outcome := by
  cases hbranches : step.branches with
  | nil => simp [routeBranch, hbranches, selectEdge]
  | cons edge rest =>
    have hroute : executor.routeBranch step context levelOutputs outputs =
        executor.selectEdge step ((context.update levelOutputs).update outputs) (edge :: rest) := by
      simp [routeBranch, hbranches, selectBranch]
    rw [hroute]
    split
    · next target hselect => exact ⟨target, hselect⟩
    · rfl

-- Verdicts

/-- The run has a result of failure that ends with a failed record of the step. -/
def FailedAt (step : DAGFlowStep) (r : Except Exc ExecutionResult) : Prop :=
  ∃ result record, r = .ok result ∧ result.success = false ∧ result.executionLog.getLast? = some record ∧
    record.success = false ∧ step.displayName? = some record.toolName ∧
    record.errorType = some "PredicateSyntaxError"

/-- The run goes on behind the step, or has a result of failure. -/
def Accounted (executor : Executor) (r : Except Exc ExecutionResult) (entry : DAGFlowStep × Dict) : Prop :=
  (∃ target, executor.selectEdge entry.1 entry.2 entry.1.branches = .ok (.selected target)) ∨ FailedAt entry.1 r

/-- What the routing of a step leads to. -/
def Verdict (executor : Executor) (r : Except Exc ExecutionResult) (entry : DAGFlowStep × Dict) : Prop :=
  match executor.selectEdge entry.1 entry.2 entry.1.branches with
  | .ok (.selected _) => True
  | .ok (.invalid _) => FailedAt entry.1 r
  | .error e => r = .error e

theorem Verdict.accounted_iff (h : executor.Verdict r entry) :
    executor.Accounted r entry ↔ executor.Routable entry.2 entry.1.branches := by
  rw [← not_iff_not, ← selectEdge_raises entry.1]
  unfold Verdict at h
  unfold Accounted
  split at h
  · next hselect => simp [hselect]
  · next hselect => simp [hselect, h]
  · next e hselect =>
    subst h
    simp [hselect, FailedAt]

-- The level loop

/-- Every step of the run so far has selected its target. -/
def Picked (executor : Executor) (traceId : String) (events : List Event) : Prop :=
  ¬Drawn traceId events → ∀ entry ∈ routings traceId events, ∃ target,
    executor.selectEdge entry.1 entry.2 entry.1.branches = .ok (.selected target)

/-- Every routing of the run has led to what it should. -/
def Answered (executor : Executor) (traceId : String) (r : Except Exc ExecutionResult) (events : List Event) : Prop :=
  ¬Drawn traceId events → ∀ entry ∈ routings traceId events, executor.Verdict r entry

/-- A part of the loop, which decides what it routes or ends the run. -/
def VerdictQ (executor : Executor) (traceId : String) : Except Exc (Progress α) → List Event → Prop
  | .ok (.going _), events => executor.Picked traceId events
  | .ok (.ended result), events => executor.Answered traceId (.ok result) events
  | .error e, events => executor.Answered traceId (.error e) events

theorem not_drawn_append (hd : ¬Drawn traceId (first ++ second)) : ¬Drawn traceId first ∧ ¬Drawn traceId second :=
  ⟨fun h => hd (h.mono (List.sublist_append_left _ _)), fun h => hd (h.mono (List.sublist_append_right _ _))⟩

theorem Picked.answered (h : executor.Picked traceId events) : executor.Answered traceId r events := by
  intro hd entry hentry
  obtain ⟨target, hselect⟩ := h hd entry hentry
  simp [Verdict, hselect]

theorem Picked.quiet (h : executor.Picked traceId history) (hown : ¬Drawn traceId own → Untold traceId own) :
    executor.Picked traceId (history ++ own) := by
  intro hd entry hentry
  obtain ⟨hfirst, hsecond⟩ := not_drawn_append hd
  rw [routings_append, (hown hsecond).routings, List.append_nil] at hentry
  exact h hfirst entry hentry

theorem Answered.quiet (h : executor.Answered traceId r history) (hown : ¬Drawn traceId own → Untold traceId own) :
    executor.Answered traceId r (history ++ own) := by
  intro hd entry hentry
  obtain ⟨hfirst, hsecond⟩ := not_drawn_append hd
  rw [routings_append, (hown hsecond).routings, List.append_nil] at hentry
  exact h hfirst entry hentry

theorem torn_untold {info : StepInfo} (htorn : Torn (Within info) info events)
    (hd : ¬Drawn info.traceId events) : Untold info.traceId events := by
  cases htorn with
  | before hbefore => exact hbefore.untold hd
  | inside hbefore hbody =>
    obtain ⟨hfirst, hsecond⟩ := not_drawn_append hd
    obtain ⟨hfirst, -⟩ := not_drawn_append hfirst
    exact untold_closed.append (untold_closed.append (hbefore.untold hfirst) (.single id)) (hbody.untold hsecond)

section

variable {flow : DAGFlow} {level : LevelState} {state : DagState}

/-- A part of the run that routes nothing. -/
theorem Picked.upholds {c : Exec α} {R : α → Prop} {post : Except Exc α → List Event → Prop}
    (h : executor.Picked info.traceId history) (hc : ownFrame.Upholds (Untold info.traceId) False c R)
    (hok : ∀ value events, executor.Picked info.traceId events → R value → post (.ok value) events)
    (herror : ∀ e events, executor.Picked info.traceId events → post (.error e) events) :
    ownFrame.From history c post :=
  .upholds hc (fun value _ hown hvalue => hok value _ (h.quiet fun _ => hown) hvalue)
    fun e _ hown _ => herror e _ (h.quiet fun _ => hown)

theorem Picked.stays {c : Exec α} {R : α → Prop} (h : executor.Picked info.traceId history)
    (hc : ownFrame.Upholds (Untold info.traceId) False c R) :
    ownFrame.From history c fun _ events => executor.Picked info.traceId events :=
  h.upholds hc (fun _ _ h _ => h) fun _ _ h => h

/-- The run ends in the loop. -/
theorem ended_verdict (h : executor.Picked info.traceId history) :
    ownFrame.From history (do pure (Progress.ended (← executor.makeResult info false none log)) : Exec (Progress α))
      (executor.VerdictQ info.traceId) :=
  .bind (h.stays makeResult_untold) (fun _ _ h => .pure h.answered) fun _ _ h => h.answered

/-- The result of a run that has not succeeded. -/
theorem makeResult_failure :
    ownFrame.From history (executor.makeResult info false output log count) fun r events =>
      ∃ result, r = .ok result ∧ result.success = false ∧ result.executionLog = log ∧
        events = history ++ [hookEvent (.flowEnd info.traceId info.flowName result)] := by
  unfold makeResult
  refine .get_bind fun state _ => ?_
  simp only [deleteSnapshot, Bool.and_false, Bool.false_eq_true, if_false]
  exact .pure_bind (.ask_bind fun _ => .pure ⟨_, rfl, rfl, rfl, rfl⟩)

theorem mem_routings_snoc (hplaced : routed traceId e = some entry) :
    other ∈ routings traceId (history ++ [e]) ↔ other ∈ routings traceId history ∨ other = entry := by
  have hroutings : routings traceId [e] = [entry] := by simp [routings, hplaced]
  rw [routings_append, hroutings, List.mem_append, List.mem_singleton]

theorem Picked.selected (h : executor.Picked traceId history) (hplaced : routed traceId e = some entry)
    (hselect : executor.selectEdge entry.1 entry.2 entry.1.branches = .ok (.selected target)) :
    executor.Picked traceId (history ++ [e]) := by
  intro hd other hother
  rcases (mem_routings_snoc hplaced).1 hother with hother | rfl
  · exact h (not_drawn_append hd).1 other hother
  · exact ⟨target, hselect⟩

theorem Picked.routed (h : executor.Picked traceId history) (hplaced : routed traceId e = some entry)
    (hentry : executor.Verdict r entry) : executor.Answered traceId r (history ++ [e]) := by
  intro hd other hother
  rcases (mem_routings_snoc hplaced).1 hother with hother | rfl
  · exact h.answered (not_drawn_append hd).1 other hother
  · exact hentry

theorem Picked.clash (h : executor.Picked traceId history) (hplaced : Executor.routed traceId e = none) :
    executor.Picked traceId (history ++ [e]) := by
  intro hd entry hentry
  have hroutings : routings traceId [e] = [] := by simp [routings, hplaced]
  rw [routings_append, hroutings, List.append_nil] at hentry
  exact h (not_drawn_append hd).1 entry hentry

/-- The placing of outputs, and whether they clash. -/
theorem placeOutputs_routed (h : executor.Picked info.traceId history) :
    ownFrame.From history (placeOutputs info step context record levelOutputs) fun r events =>
      match r with
      | .ok (mapped, clash) => clash = mapped.keys.find? levelOutputs.contains ∧
          (∃ name, step.displayName? = some name) ∧
          events = history ++ [probeEvent (.place info.traceId step context mapped levelOutputs)]
      | .error _ => executor.Picked info.traceId events := by
  unfold placeOutputs
  split
  · exact ensures_raise (h.quiet fun _ => .single id)
  · refine from_displayName_bind (fun name hname => ?_) fun e => h.quiet fun _ => .single id
    refine from_ofExcept_bind (fun mapped _ => ?_) fun e => h.quiet fun _ => .single id
    exact .ask_bind fun _ => .pure ⟨rfl, ⟨name, hname⟩, rfl⟩

theorem routed_placed (hclash : none = outputs.keys.find? levelOutputs.contains) :
    routed traceId (probeEvent (.place traceId step context outputs levelOutputs)) =
      some (step, (context.update (levelOutputs.update outputs)).update outputs) := by
  simp [routed, ← hclash]

theorem own_inside (hn : executor.ownPolicy.Obeyed nested) (info : StepInfo) :
    Inside executor (fun state => state.resumeSnapshot = none) (Within info) .sync nested info :=
  (ownPolicy_sound executor).step hn

theorem dagCapabilityStep_verdict (hn : executor.ownPolicy.Obeyed nested) (htype : step.stepType ≠ .tool)
    (h : executor.Picked info.traceId history) :
    ownFrame.From history (executor.dagCapabilityStep info step state level)
      (executor.VerdictQ info.traceId) := by
  have hin := own_inside hn (stepInfoOf info step level.flatIndex)
  unfold dagCapabilityStep
  refine .bind (Frame.From.after (runCapabilityStep_turn hin rfl rfl rfl)) ?_ ?_
  · rintro record _ ⟨own, rfl, hturn⟩
    have h := h.quiet fun hd => turn_untold hturn hd
    dsimp only
    split
    · exact ended_verdict h
    refine .bind (placeOutputs_routed h) ?_ fun _ _ h => h.answered
    rintro ⟨mapped, clash⟩ _ ⟨hclash, -, rfl⟩
    cases clash with
    | some key => exact ended_verdict (h.clash (by simp [routed, ← hclash]))
    | none =>
      have hbranches : step.branches = [] := by
        have hvalid := step.dag_valid
        simp only [dagStepValid, Bool.and_eq_true, Bool.or_eq_true, decide_eq_true_eq] at hvalid
        simpa using hvalid.2.resolve_left htype
      have hselect := congrArg (executor.selectEdge step
        ((state.context.update (level.outputs.update mapped)).update mapped)) hbranches
      exact .pure (h.selected (routed_placed hclash) hselect)
  · rintro e _ ⟨own, rfl, htorn⟩
    exact (h.quiet fun hd => torn_untold htorn.1 hd).answered

theorem placeToolRecord_verdict (h : executor.Picked info.traceId history) :
    ownFrame.From history (executor.placeToolRecord info flow step state level record)
      (executor.VerdictQ info.traceId) := by
  unfold placeToolRecord
  refine .bind (placeOutputs_routed h) ?_ fun _ _ h => h.answered
  rintro ⟨mapped, clash⟩ _ ⟨hclash, ⟨name, hname⟩, rfl⟩
  refine from_displayName_some hname ?_
  cases clash with
  | some key => exact ended_verdict (h.clash (by simp [routed, ← hclash]))
  | none =>
    have hselect := routeBranch_select executor step state.context (level.outputs.update mapped) mapped
    dsimp only
    cases hroute : executor.routeBranch step state.context (level.outputs.update mapped) mapped with
    | error e =>
      rw [hroute] at hselect
      have hraise : ∀ before, ownFrame.From before (ofExcept (.error e) : Exec BranchOutcome)
          fun r events => r = .error e ∧ events = before ++ [faultEvent e] :=
        fun _ => ensures_raise ⟨rfl, rfl⟩
      refine .bind (hraise _) (fun _ _ h => nomatch h.1) fun e' events hraised => ?_
      obtain ⟨hraised, rfl⟩ := hraised
      obtain rfl := Except.error.inj hraised
      refine (h.routed (routed_placed hclash) ?_).quiet fun _ => .single id
      simp [Verdict, hselect]
    | ok outcome =>
      refine .pure_bind ?_
      cases outcome with
      | selected target =>
        rw [hroute] at hselect
        obtain ⟨target, hselect⟩ := hselect
        exact .pure (h.selected (routed_placed hclash) hselect)
      | invalid e =>
        rw [hroute] at hselect
        refine .bind makeResult_failure (fun result events hresult => ?_) fun e events hresult => ?_
        · obtain ⟨result, hr, hfailed, hlog, rfl⟩ := hresult
          obtain rfl := Except.ok.inj hr
          refine .pure ((h.routed (routed_placed hclash) ?_).quiet fun _ => .single id)
          have hfailedAt : FailedAt step (.ok result) :=
            ⟨_, replaced record name e, rfl, hfailed, by simp [hlog], rfl, hname,
              congrArg some (selectEdge_invalid _ hselect)⟩
          simpa [Verdict, hselect] using hfailedAt
        · obtain ⟨result, hr, -⟩ := hresult
          cases hr

theorem dagToolStep_verdict (hn : executor.ownPolicy.Obeyed nested) (h : executor.Picked info.traceId history) :
    ownFrame.From history (executor.dagToolStep nested info flow cancellation step state level)
      (executor.VerdictQ info.traceId) := by
  have hin := own_inside hn (stepInfoOf info step level.flatIndex)
  unfold dagToolStep
  refine .attempt_bind (Frame.From.after (executeStepIn_turn (ownPolicy_sound executor).stable hin)) ?_
  rintro outcome _ ⟨own, rfl, hown⟩
  split
  · have h := h.quiet fun hd => torn_untold hown.1 hd
    unfold reraiseSubflowCancellation
    exact .bind (h.stays makeResult_untold) (fun _ _ h => .throw h.answered) fun _ _ h => h.answered
  · exact .throw (h.quiet fun hd => torn_untold hown.1 hd).answered
  · have h := h.quiet fun hd => turn_untold hown hd
    split
    · exact ended_verdict h
    · exact placeToolRecord_verdict h

theorem dagStep_verdict (hn : executor.ownPolicy.Obeyed nested) (h : executor.Picked info.traceId history) :
    ownFrame.From history (executor.dagStep nested info flow cancellation step state level)
      (executor.VerdictQ info.traceId) := by
  unfold dagStep
  refine .ask_bind fun _ => ?_
  have h := h.clash (e := probeEvent (.visit info.traceId step level.skipped)) rfl
  split
  · exact from_displayName_bind (fun name _ => .pure h) fun e => (h.quiet fun _ => .single id).answered
  · split
    · next htype => exact dagCapabilityStep_verdict hn (by simp [htype]) h
    · exact dagToolStep_verdict hn h

theorem dagLevelSteps_verdict (hn : executor.ownPolicy.Obeyed nested) (todo : List DAGFlowStep)
    (h : executor.Picked info.traceId history) :
    ownFrame.From history (executor.dagLevelSteps nested info flow cancellation state todo level)
      (executor.VerdictQ info.traceId) := by
  induction todo generalizing level history with
  | nil => exact .pure h
  | cons step rest ih =>
    unfold dagLevelSteps
    refine .bind (dagStep_verdict hn h) (fun progress events hq => ?_) fun _ _ hq => hq
    cases progress with
    | ended result => exact .pure hq
    | going level => exact ih hq

theorem dagLevel_verdict (hn : executor.ownPolicy.Obeyed nested) (todo : List DAGFlowStep)
    (h : executor.Picked info.traceId history) :
    ownFrame.From history (executor.dagLevel nested info flow cancellation levelIndex todo state)
      (executor.VerdictQ info.traceId) := by
  unfold dagLevel
  refine .upholds_bind checkCancellation_untold (fun _ own hown _ => ?_)
    fun _ own hown _ => (h.quiet fun _ => hown).answered
  have h := h.quiet fun _ => hown
  refine .bind (dagLevelSteps_verdict hn todo h) (fun progress events hq => ?_) fun _ _ hq => hq
  cases progress with
  | ended result => exact .pure hq
  | going level =>
    refine .upholds_bind closeLevel_untold (fun context own hown _ => .pure (Picked.quiet hq fun _ => hown))
      fun _ own hown _ => (Picked.quiet hq fun _ => hown).answered

theorem dagLevels_verdict (hn : executor.ownPolicy.Obeyed nested) (levels : List (List DAGFlowStep))
    (h : executor.Picked info.traceId history) :
    ownFrame.From history (executor.dagLevels nested info flow cancellation levels levelIndex state)
      (executor.VerdictQ info.traceId) := by
  induction levels generalizing levelIndex state history with
  | nil => exact .pure h
  | cons todo rest ih =>
    unfold dagLevels
    refine .bind (dagLevel_verdict hn todo h) (fun progress events hq => ?_) fun _ _ hq => hq
    cases progress with
    | ended result => exact .pure hq
    | going state => exact ih hq

theorem dagFrom_verdict (hn : executor.ownPolicy.Obeyed nested) (h : executor.Picked info.traceId history) :
    ownFrame.From history (executor.dagFrom nested info flow cancellation levels 0 state)
      (executor.Answered info.traceId) := by
  unfold dagFrom
  refine .bind (dagLevels_verdict hn _ h) (fun progress events hq => ?_) fun _ _ hq => hq
  cases progress with
  | ended result => exact .pure hq
  | going state =>
    exact .upholds finishFlow_untold (fun _ own hown _ => (Picked.quiet hq fun _ => hown).answered)
      fun _ own hown _ => (Picked.quiet hq fun _ => hown).answered

-- Runs

/-- Every routing of the run whose trace id is the first that is drawn has led to what it
should. -/
def CallQ (executor : Executor) (r : Except Exc ExecutionResult) (events : List Event) : Prop :=
  ∀ traceId, (drawn events).head? = some traceId → (drawn events).Nodup →
    ∀ entry ∈ routings traceId events, executor.Verdict r entry

theorem executeDagFlow_verdict (hn : executor.ownPolicy.Obeyed nested) :
    ownFrame.From [] (executor.executeDagFlow nested flow input cancellation) executor.CallQ := by
  unfold executeDagFlow
  refine .modify_bind (fun _ h => h) (.get_bind fun state hs => ?_)
  split
  · next snapshot hsnapshot => exact nomatch hs.symm.trans hsnapshot
  refine .ask_bind fun traceId => .ask_bind fun _ => ?_
  -- Behind the draw of its id the run is on its own.
  suffices hown : ownFrame.From [] _ fun r own => executor.Answered traceId r own by
    refine (Frame.From.after hown).weaken ?_
    rintro r _ ⟨own, rfl, h⟩ id hid hids entry hentry
    obtain rfl := Option.some.inj hid
    have hids : (traceId :: drawn own).Nodup := hids
    exact h (fun hd => (List.nodup_cons.1 hids).1 (mem_drawn.2 hd)) entry hentry
  have hstart : ∀ info : RunInfo, executor.Picked info.traceId [] := fun _ _ _ h => nomatch h
  refine from_ofExcept_bind (fun inputFailure _ => ?_) fun e =>
    ((hstart ⟨flow.name, traceId, input⟩).quiet fun _ => .single id).answered
  cases inputFailure with
  | some record =>
    exact (hstart ⟨flow.name, traceId, input⟩).upholds makeResult_untold (fun _ _ h _ => h.answered)
      fun _ _ h => h.answered
  | none =>
    refine .get_bind fun state _ => from_ofExcept_bind (fun levels _ => ?_)
      fun e => ((hstart ⟨flow.name, traceId, input⟩).quiet fun _ => .single id).answered
    refine .ask_bind fun _ => ?_
    exact dagFrom_verdict hn ((hstart ⟨flow.name, traceId, input⟩).quiet fun _ => .single id)

theorem executeFlowImpl_verdict (hn : executor.ownPolicy.Obeyed nested)
    (hflow : executor.registry.getFlow flowName call.version = .ok (.dag flow)) :
    ownFrame.From [] (executor.executeFlowImpl nested flowName input call) executor.CallQ := by
  unfold executeFlowImpl
  refine from_orRefuse_bind (fun registered hregistered => ?_) fun _ _ hid => nomatch hid
  obtain rfl := Except.ok.inj (hflow.symm.trans hregistered)
  refine .modify_bind (fun _ h => h) ?_
  refine from_orRefuse_bind (fun _ _ => ?_) fun _ _ hid => nomatch hid
  refine from_orRefuse_bind (fun _ _ => ?_) fun _ _ hid => nomatch hid
  refine .get_bind fun state _ => .ask_bind fun _ => ?_
  refine (Frame.From.after (executeDagFlow_verdict hn)).weaken ?_
  rintro r _ ⟨own, rfl, h⟩
  exact h

theorem executeFlow_verdict {state : RunScopedState} (hs : state.resumeSnapshot = none)
    (hflow : executor.registry.getFlow flowName call.version = .ok (.dag flow))
    (hrun : (executor.executeFlow stack flowName input call).Runs state events r state') :
    executor.CallQ r events := by
  have hs : (enterSync call state).resumeSnapshot = none := by
    cases hp : call.dynamicParams <;> simpa [enterSync, withDynamicParams, RunScopedState.copy, hp] using hs
  obtain ⟨-, inner, hrun⟩ := Interaction.Comp.runs_within.1 hrun
  exact (executeFlowImpl_verdict ((ownPolicy_sound executor).obeyed stack) hflow _ _ _ _ hs hrun).2

end

-- Containment

/-- A call of `execute_flow` that runs a DAG flow, outside of any resume. `traceId` is the
id of the run, and the ids drawn in it are all different. -/
def RunsDag (executor : Executor) (traceId : String) (events : List Event) (r : Except Exc ExecutionResult) : Prop :=
  ∃ stack flowName flow input call state state', state.resumeSnapshot = none ∧
    executor.registry.getFlow flowName call.version = .ok (.dag flow) ∧
    (executor.executeFlow stack flowName input call).Runs state events r state' ∧
    (drawn events).head? = some traceId ∧ (drawn events).Nodup

/-- The evaluator gives a truth value or raises its own error exactly if the predicate can be
evaluated; and a run accounts for every step whose branches it has decided or failed to
decide, without an exception, exactly if this is so of every predicate its routing got to. -/
theorem predicates_contained (executor : Executor) :
    (∀ predicate context, Predicate.Contained (Predicate.evaluate executor.platform.parsePredicate predicate context) ↔
      Evaluable executor.platform.parsePredicate predicate context) ∧
    ∀ traceId events r, executor.RunsDag traceId events r →
      ((∀ entry ∈ routings traceId events, executor.Accounted r entry) ↔
        ∀ entry ∈ routings traceId events, executor.Routable entry.2 entry.1.branches) := by
  refine ⟨contained_evaluate _, ?_⟩
  rintro traceId events r ⟨stack, flowName, flow, input, call, state, state', hs, hflow, hrun, hid, hids⟩
  have hverdict := executeFlow_verdict hs hflow hrun traceId hid hids
  exact forall₂_congr fun entry hentry => (hverdict entry hentry).accounted_iff

/-- `a` routes to `b`, if the text `choice` holds of its outputs. -/
def choosing (choice : String) : DAGFlow :=
  { name := "choosing"
    steps :=
      [{ Sample.step "a" with stepId := "a", branches := [⟨"b", choice⟩] },
       Sample.node "b" ["a"] (Sample.step "b")] }

def choosingExecutor (choice : String) : Executor :=
  Sample.executor [.dag (choosing choice)] [Sample.tool "a", Sample.tool "b"]

def runChoosing (executor : Executor) : List Event × Except Exc ExecutionResult × RunScopedState :=
  Sample.run Sample.named none 0 (executor.executeFlow 0 "choosing" .empty {})

theorem runsDag_choosing (executor : Executor) (choice : String)
    (hflow : executor.registry.getFlow "choosing" none = .ok (.dag (choosing choice)))
    (hid : (drawn (runChoosing executor).1).head? = some "0") (hids : (drawn (runChoosing executor).1).Nodup) :
    executor.RunsDag "0" (runChoosing executor).1 (runChoosing executor).2.1 :=
  ⟨0, "choosing", choosing choice, .empty, {}, {}, _, rfl, hflow, Sample.run_runs _ _ _ _, hid, hids⟩

/-- The sample parser admits constants only. -/
theorem evaluable_sample (predicate : String) (context : Dict) :
    Evaluable Sample.platform.parsePredicate predicate context := by
  by_cases htext : predicate = ""
  · refine ⟨by simp [Sample.platform, htext, PredicateError.Own], fun tree hparse => ?_⟩
    simp [Sample.platform, htext] at hparse
  · refine ⟨by simp [Sample.platform, htext], fun tree hparse => ?_⟩
    simp only [Sample.platform, htext, if_false, Except.ok.injEq] at hparse
    subst hparse
    simp [Predicate.Defined]

theorem routable_sample {flows : List AnyFlow} {tools : List Tool} (context : Dict) (edges : List ConditionalEdge) :
    (Sample.executor flows tools).Routable context edges := by
  induction edges with
  | nil => trivial
  | cons edge rest ih => exact ⟨evaluable_sample _ _, fun _ => ih⟩

/-- A predicate that does not parse. -/
theorem predicates_contained_choosing :
    (routings "0" (runChoosing (choosingExecutor "")).1).map (·.1.stepId) = ["a"] ∧
    ∀ entry ∈ routings "0" (runChoosing (choosingExecutor "")).1,
      (choosingExecutor "").Accounted (runChoosing (choosingExecutor "")).2.1 entry := by
  have hruns := runsDag_choosing (choosingExecutor "") "" rfl (by decide +kernel)
    (by decide +kernel)
  refine ⟨by decide +kernel, ?_⟩
  exact ((predicates_contained (choosingExecutor "")).2 _ _ _ hruns).2 fun entry _ => routable_sample _ _

/-- The predicate `a < 'x'`, parsed. -/
def comparing : Executor :=
  { choosingExecutor "a < 'x'" with
    platform :=
      { Sample.platform with
        parsePredicate := fun _ => .ok (.compare (.name "a") [(.lt, .constant (.str "x"))]) } }

def raisesTypeError (r : Except Exc ExecutionResult) : Bool :=
  match r with
  | .error (.other typeName _) => typeName = "TypeError"
  | _ => false

/-- A number is compared with a string: `TypeError` leaves the evaluator and the run. -/
theorem type_error_escapes :
    ¬Predicate.Contained (Predicate.evaluate comparing.platform.parsePredicate "a < 'x'" (.ofList [("a", .int 1)])) ∧
    comparing.RunsDag "0" (runChoosing comparing).1 (runChoosing comparing).2.1 ∧
    raisesTypeError (runChoosing comparing).2.1 = true ∧
    ¬∀ entry ∈ routings "0" (runChoosing comparing).1, comparing.Accounted (runChoosing comparing).2.1 entry := by
  have hraises : raisesTypeError (runChoosing comparing).2.1 = true := by decide +kernel
  have hselects : (routings "0" (runChoosing comparing).1).map (fun entry =>
      (comparing.selectEdge entry.1 entry.2 entry.1.branches).isOk) = [false] := by decide +kernel
  refine ⟨?_, runsDag_choosing comparing "a < 'x'" rfl (by decide +kernel) (by decide +kernel), hraises, fun h => ?_⟩
  · exact Predicate.not_contained_raised
  · obtain ⟨entry, hentry, hselect⟩ := List.map_eq_singleton_iff.1 hselects
    rcases h entry (by simp [hentry]) with ⟨target, hselected⟩ | ⟨result, _, hr, _⟩
    · simp [hselected, Except.isOk, Except.toBool] at hselect
    · simp [hr, raisesTypeError] at hraises

end ChainWeaver.Executor
