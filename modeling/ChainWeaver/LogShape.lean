import ChainWeaver.Drift
import ChainWeaver.Ledger

/-!
# The shape of an execution log

A log holds one record a step, in the order in which the steps run. It ends with the
record of the step, or of the flow-level check, that ended the run.
-/

namespace ChainWeaver.Executor

open Interaction (Frame)

/-- The records of the first steps of a flow, each a success. -/
def Completed (log : List StepRecord) : Prop :=
  ∀ (index : Nat) (record : StepRecord), log[index]? = some record → record.stepIndex = index ∧ record.success = true

theorem Completed.nil : Completed [] := by simp [Completed]

theorem Completed.concat {record : StepRecord} (h : Completed log) (hindex : record.stepIndex = log.length)
    (hsuccess : record.success = true) :
    Completed (log ++ [record]) := by
  intro index other hother
  rw [List.getElem?_append] at hother
  split at hother
  · exact h index other hother
  · obtain ⟨hlt, rfl⟩ := List.getElem?_eq_some_iff.1 hother
    simp only [List.length_singleton] at hlt
    obtain rfl : index = log.length := by omega
    simpa using ⟨hindex, hsuccess⟩

/-- How the result of a run of `count` steps comes about. `gap` relates the number of
steps that were completed and the index of the step that failed. -/
inductive Ended (executor : Executor) (gap : Nat → Nat → Prop) (count : Nat) (result : ExecutionResult) : Prop
  | finished : Completed log → log.length = count → executor.Reports true output log none result →
      Ended executor gap count result
  | failed {index : Nat} {last : StepRecord} : Completed log → last.stepIndex = index → gap log.length index → index < count →
      last.success = false → executor.Reports false none (log ++ [last]) none result → Ended executor gap count result
  | unseeded : Refused flowInputStepIndex record → executor.Reports false none [record] (some 0) result →
      Ended executor gap count result
  | refused : Completed log → log.length = count → Refused count record →
      executor.Reports false none (log ++ [record]) (some log.length) result → Ended executor gap count result

/-- The account of the records. -/
def records (executor : Executor) (gap : Nat → Nat → Prop) (count : Nat) : Ledger α where
  At index _ _ log := log.length = index ∧ Completed log
  Made index _ _ record := record.stepIndex = (index : Int)
  Over := executor.Ended gap count

/-- What a snapshot has to hold for the log to go on behind it. -/
def Recovered (executor : Executor) (snapshot : ExecutionSnapshot) : AnyFlow → Prop
  | .linear flow => Completed snapshot.executionLog ∧ snapshot.executionLog.length = snapshot.completedSteps ∧
      snapshot.completedSteps ≤ flow.steps.length
  | .dag flow => Completed snapshot.executionLog ∧ ∀ levels,
      computeDagLevels executor.platform.hashing flow = .ok levels →
        snapshot.executionLog.length = (levels.take snapshot.completedDagLevels).flatten.length

theorem turn_index (h : Turn I info record events) : record.stepIndex = info.stepIndex := by
  cases h with
  | lone _ hindex _ => exact hindex
  | bracket _ _ hindex => exact hindex
  | unheard _ hindex _ => exact hindex

section

variable {executor : Executor} {Inv : RunScopedState → Prop} {nested : Nested} {cancellation : Cancellation}
variable {gap : Nat → Nat → Prop}

theorem records_sound {mapping : α → Option (OrderedDict String)} {order : List α} (hgap : ∀ n, gap n n) :
    (records executor gap order.length).Sound executor mapping order False where
  placed _ h hmade hsuccess _ _ := ⟨by simp [h.1], h.2.concat (hmade.trans (by rw [h.1])) hsuccess⟩
  merged h _ := h
  failed hstep h hmade hindex hfailed hresult :=
    .failed h.2 (hindex.trans hmade) (h.1 ▸ hgap _) (List.getElem?_eq_some_iff.1 hstep).1 hfailed hresult
  finished h hresult := .finished h.2 h.1 hresult
  refused h hrefused hresult := .refused h.2 h.1 hrefused hresult

theorem executeStepIn_indexed {lane : Lane} {info : StepInfo} {index : Nat} (hstable : Stable Inv)
    (hn : ∀ lane flowName input cancellation, Stays Inv (nested.entry lane flowName input cancellation))
    (hindex : info.stepIndex = index) :
    (frame Inv).Given anyEvent (executor.executeStepIn lane nested info step context cancellation)
      (fun record => record.stepIndex = (index : Int)) anyError := by
  intro state events r state' hs _ hrun
  obtain ⟨hs', hq⟩ := executeStepIn_turn hstable (inside_all hn) state events r state' hs hrun
  refine ⟨hs', ?_⟩
  cases r with
  | error e => trivial
  | ok record => exact (turn_index hq).trans hindex

theorem runCapabilityStep_indexed {info : RunInfo} {index : Nat}
    (hn : ∀ lane flowName input cancellation, Stays Inv (nested.entry lane flowName input cancellation)) :
    (frame Inv).Given anyEvent (executor.runCapabilityStep info index step context)
      (fun record => record.stepIndex = (index : Int)) anyError := by
  have hinside : Inside executor Inv (fun _ => True) .sync nested
      { traceId := info.traceId, flowName := info.flowName, stepIndex := index, stepId := none } := inside_all hn
  intro state events r state' hs _ hrun
  obtain ⟨hs', hq⟩ := runCapabilityStep_turn hinside rfl rfl rfl state events r state' hs hrun
  refine ⟨hs', ?_⟩
  cases r with
  | error e => trivial
  | ok record => exact turn_index hq

theorem records_linear {flow : Flow} {mode : LinearMode} (hgap : ∀ n, gap n n) (hstable : Stable Inv)
    (hn : ∀ lane flowName input cancellation, Stays Inv (nested.entry lane flowName input cancellation)) :
    (records executor gap flow.steps.length).Linear executor Inv anyEvent anyError flow flow.steps False mode nested
      cancellation where
  sound := records_sound hgap
  surroundings := surroundings_any
  escapes := Ledger.escapes_any
  named _ _ _ := trivial
  merges := False.elim
  step _ _ hindex _ := executeStepIn_indexed hstable hn hindex

theorem records_levelled {flow : DAGFlow} {order : List DAGFlowStep} (hgap : ∀ n, gap n n) :
    (records executor gap order.length).Levelled executor anyEvent anyError flow order False where
  sound := records_sound hgap
  surroundings := surroundings_any
  escapes := Ledger.escapes_any
  named _ _ _ := trivial
  merges := False.elim

theorem records_stepped {flow : DAGFlow} {order : List DAGFlowStep} (hgap : ∀ n, gap n n) (hstable : Stable Inv)
    (hn : ∀ lane flowName input cancellation, Stays Inv (nested.entry lane flowName input cancellation)) :
    (records executor gap order.length).Stepped executor Inv anyEvent anyError flow order False nested cancellation where
  toLevelled := records_levelled hgap
  skipped _ h name := ⟨by simp [h.1], h.2.concat (by simp [skippedRecord, h.1]) rfl⟩
  tool _ _ _ hindex _ := executeStepIn_indexed hstable hn hindex
  capability _ _ _ _ := runCapabilityStep_indexed hn
  unrouted _ _ := trivial

theorem records_gathered {flow : DAGFlow} {order : List DAGFlowStep} (hgap : ∀ n, gap n n) (hstable : Stable Inv)
    (hn : ∀ lane flowName input cancellation, Stays Inv (nested.entry lane flowName input cancellation)) :
    (records executor gap order.length).Gathered executor Inv anyEvent anyError flow order False nested
      cancellation where
  toLevelled := records_levelled hgap
  tool _ _ _ hindex _ := executeStepIn_indexed hstable hn hindex

/-- The steps of a level that the asynchronous lane turns away have not run. -/
theorem records_turned {levels : List (List DAGFlowStep)}
    (hgap : ∀ before first step rest after, levels = before ++ (first ++ step :: rest) :: after →
      (∀ other ∈ first, other.stepType = .tool) → step.stepType ≠ .tool →
        gap before.flatten.length (before.flatten.length + first.length)) :
    (records executor gap levels.flatten.length).Turned executor levels := by
  intro before first step rest after context log name result hlevels hat hfirst hstep hresult
  have hindex : gap log.length (before.flatten.length + first.length) :=
    hat.1 ▸ hgap before first step rest after hlevels hfirst hstep
  refine .failed hat.2 rfl hindex ?_ rfl hresult
  simp only [hlevels, List.flatten_append, List.flatten_cons, List.length_append, List.length_cons]
  omega

/-- The runs that start as `start` says, and from a snapshot that fits where there is one. -/
def Restored (executor : Executor) (flow : AnyFlow) (state : RunScopedState) : Prop :=
  ∀ snapshot, state.resumeSnapshot = some snapshot → executor.Recovered snapshot flow

theorem restored_stable {flow : AnyFlow} : Stable (executor.Restored flow) := ⟨id, id⟩

/-- How far the asynchronous lane can look past the steps it has completed. -/
def Overtakes (executor : Executor) (gap : Nat → Nat → Prop) (flow : AnyFlow) : Prop :=
  ∀ dag levels, flow = .dag dag → computeDagLevels executor.platform.hashing dag = .ok levels →
    ∀ before first step rest after, levels = before ++ (first ++ step :: rest) :: after →
      (∀ other ∈ first, other.stepType = .tool) → step.stepType ≠ .tool →
        gap before.flatten.length (before.flatten.length + first.length)

theorem admitted_ended {flow : AnyFlow} {lane : Lane} (hgap : ∀ n, gap n n)
    (hovertakes : lane = .async → executor.Overtakes gap flow)
    (hn : ∀ lane flowName input cancellation,
      Stays (executor.Restored flow) (nested.entry lane flowName input cancellation)) :
    (frame (executor.Restored flow)).Given anyEvent
      (executor.executeAdmitted lane nested flowName input cancellation flow)
      (executor.Ended gap flow.steps.length) anyError := by
  cases flow with
  | linear flow =>
    have hlinear : ∀ flowName, (frame (executor.Restored (.linear flow))).Given anyEvent
        (executor.executeLinear lane nested flow flowName input cancellation)
        (executor.Ended gap flow.steps.length) anyError := fun flowName =>
      executeLinear_kept restored_stable (records_linear hgap restored_stable hn) (fun _ _ => ⟨rfl, .nil⟩) .unseeded
    cases lane with
    | sync => exact hlinear flowName
    | async => exact hlinear flow.name
  | dag flow =>
    have hcount : ∀ levels, computeDagLevels executor.platform.hashing flow = .ok levels →
        levels.flatten.length = flow.steps.length := fun levels hlevels =>
      let ⟨_, h⟩ := Topology.computeDagLevels_levelled hlevels
      h.perm.length_eq
    have hstarts : (records (α := DAGFlowStep) executor gap flow.steps.length).Starts executor
        (executor.Restored (.dag flow)) flow input :=
      { fresh := fun _ _ _ _ _ => ⟨rfl, .nil⟩
        resumed := fun state snapshot levels hstate hsnapshot hlevels =>
          have hfits := hstate snapshot hsnapshot
          ⟨(hfits.2 levels hlevels).symm, rfl, hfits.1⟩
        unseeded := .unseeded }
    show (frame (executor.Restored (.dag flow))).Given anyEvent _ (executor.Ended gap (flow.steps.map _).length) _
    rw [List.length_map]
    cases lane with
    | sync =>
      exact executeDagFlow_kept restored_stable surroundings_any (fun _ _ => trivial)
        (fun levels hlevels => hcount levels hlevels ▸ records_stepped hgap restored_stable hn) hstarts
    | async =>
      have hgathered : ∀ levels, computeDagLevels executor.platform.hashing flow = .ok levels →
          (records executor gap flow.steps.length).Gathered executor (executor.Restored (.dag flow)) anyEvent anyError
            flow levels.flatten False nested cancellation ∧
          (records executor gap flow.steps.length).Turned executor levels := by
        intro levels hlevels
        rw [← hcount levels hlevels]
        exact ⟨records_gathered hgap restored_stable hn, records_turned (hovertakes rfl flow levels rfl hlevels)⟩
      exact executeDagFlowAsync_kept restored_stable surroundings_any (fun _ _ => trivial) hgathered hstarts

/-- The store answers with this snapshot only. -/
def Loads (snapshot : ExecutionSnapshot) : Event → Prop
  | ⟨.load, _, .ok (some loaded)⟩ => loaded = snapshot
  | _ => True

theorem loadSnapshot_given :
    (frame Inv).Given (Loads snapshot) (executor.loadSnapshotForResume traceId)
      (fun loaded => executor.registry.getFlow snapshot.flowName none = .ok loaded.1 ∧ loaded.2 = snapshot) anyError := by
  unfold loadSnapshotForResume
  split
  · exact given_refuse trivial
  refine .ask_bind fun reply hreply => (given_orRefuse fun _ _ => trivial).bind fun loaded hloaded => ?_
  cases loaded with
  | none => exact given_refuse trivial
  | some loaded =>
    rw [hloaded] at hreply
    obtain rfl : loaded = snapshot := hreply
    exact (given_orRefuse fun _ _ => trivial).bind fun flow hflow => .pure ⟨(checkSnapshot_ok hflow).1, rfl⟩

theorem withResume_given {flow : AnyFlow} {body : Exec α} {Q : α → Prop} (hfits : executor.Recovered snapshot flow)
    (h : (frame (executor.Restored flow)).Given A body Q anyError) :
    (frame (executor.Restored flow)).Given A (withResume snapshot body) Q anyError := by
  unfold withResume
  refine .modify_bind (fun state _ => ?_) (.attempt_bind h (fun value hvalue => ?_) fun e _ => ?_)
  · intro other hother
    exact Option.some.inj hother ▸ hfits
  · exact .modify_bind (fun _ _ _ hother => nomatch hother) (.pure hvalue)
  · exact .modify_bind (fun _ _ _ hother => nomatch hother) (.throw trivial)

theorem resumed_ended {flow : AnyFlow} (lane : Lane) (hgap : ∀ n, gap n n)
    (hovertakes : lane = .async → executor.Overtakes gap flow)
    (hflow : executor.registry.getFlow snapshot.flowName none = .ok flow) (hfits : executor.Recovered snapshot flow) :
    (frame (executor.Restored flow)).Given (Loads snapshot) (executor.enter stack (resumeIn lane traceId))
      (executor.Ended gap flow.steps.length) anyError := by
  have hn : ∀ lane flowName input cancellation,
      Stays (executor.Restored flow) ((executor.lanes stack).entry lane flowName input cancellation) :=
    fun _ => lanes_stay stack
  have hlinear : ∀ {lane : Lane} {linear : Flow}, flow = .linear linear → (frame (executor.Restored flow)).Given
      (Loads snapshot) (executor.resumeLinear lane (executor.lanes stack) linear snapshot)
        (executor.Ended gap flow.steps.length) anyError := by
    rintro lane linear rfl
    refine (resumeLinear_kept restored_stable (records_linear hgap restored_stable hn) hfits.2.2 ?_).assume fun _ _ => trivial
    exact ⟨hfits.2.1, hfits.1⟩
  have hdag : ∀ {dag : DAGFlow}, flow = .dag dag → (frame (executor.Restored flow)).Given (Loads snapshot)
      (withResume snapshot (executor.executeAdmitted lane (executor.lanes stack) "" snapshot.initialInput {} flow))
        (executor.Ended gap flow.steps.length) anyError := by
    rintro dag rfl
    exact withResume_given hfits ((admitted_ended hgap hovertakes hn).assume fun _ _ => trivial)
  cases lane with
  | sync =>
    show Frame.Given _ _ (executor.resumeFlow stack traceId) _ _
    unfold resumeFlow
    refine loadSnapshot_given.bind fun loaded hloaded => ?_
    obtain ⟨other, loaded⟩ := loaded
    obtain ⟨hother, rfl⟩ := hloaded
    obtain rfl := Except.ok.inj (hflow.symm.trans hother)
    cases flow with
    | linear linear => exact hlinear rfl
    | dag dag => exact hdag rfl
  | async =>
    show Frame.Given _ _ (executor.resumeFlowAsync stack traceId) _ _
    unfold resumeFlowAsync
    refine loadSnapshot_given.bind fun loaded hloaded => ?_
    obtain ⟨other, loaded⟩ := loaded
    obtain ⟨hother, rfl⟩ := hloaded
    obtain rfl := Except.ok.inj (hflow.symm.trans hother)
    refine (given_orRefuse fun _ _ => trivial).bind fun _ _ => .within (fun _ hstate => hstate) ?_
    cases flow with
    | linear linear => exact hlinear rfl
    | dag dag => exact hdag rfl

theorem execute_ended {flow : AnyFlow} {call : Call} (lane : Lane) (hgap : ∀ n, gap n n)
    (hovertakes : lane = .async → executor.Overtakes gap flow)
    (hflow : executor.registry.getFlow flowName call.version = .ok flow) :
    (frame (executor.Restored flow)).Given anyEvent (executor.enter stack (executeIn lane flowName input call))
      (executor.Ended gap flow.steps.length) anyError := by
  have hscope : ∀ state, executor.Restored flow state → executor.Restored flow (enterLane lane call state) := by
    intro state hstate
    obtain ⟨version, force, cancellation, dryRun, unsupported, params⟩ := call
    cases lane <;> cases params <;> exact hstate
  refine execute_given lane restored_stable hscope fun other hother => ?_
  obtain rfl := Except.ok.inj (hflow.symm.trans hother)
  exact admitted_ended hgap hovertakes fun _ => lanes_stay stack

/-- No level of the flow has a step that the asynchronous lane has no code for behind
one that it could run. -/
def Runnable (executor : Executor) (flow : AnyFlow) : Prop :=
  ∀ dag levels, flow = .dag dag → computeDagLevels executor.platform.hashing dag = .ok levels →
    ∀ level ∈ levels, ∀ first rest, level = first :: rest → first.stepType = .tool → ∀ step ∈ rest, step.stepType = .tool

theorem Runnable.overtakes {flow : AnyFlow} (h : executor.Runnable flow) : executor.Overtakes (· = ·) flow := by
  intro dag levels hdag hlevels before first step rest after heq hfirst hstep
  cases first with
  | nil => rfl
  | cons other first =>
    have hlevel := h dag levels hdag hlevels _ (heq ▸ by simp) other (first ++ step :: rest) rfl (hfirst other (by simp))
    exact absurd (hlevel step (by simp)) hstep

/-- The execution log of a run of `count` steps. -/
structure Orderly (count : Nat) (result : ExecutionResult) : Prop where
  succeeded : result.success = true → result.executionLog.length = count ∧ Completed result.executionLog
  /-- The last record is that of a step, or of a check before the first or behind the last. -/
  failed : result.success = false → ∃ (log : List StepRecord) (last : StepRecord),
    result.executionLog = log ++ [last] ∧ Completed log ∧ last.success = false ∧ (last.stepIndex = log.length ∧ log.length < count ∨
      last.stepIndex = flowInputStepIndex ∧ log = [] ∨ last.stepIndex = count ∧ log.length = count)

theorem Ended.orderly {count : Nat} {result : ExecutionResult} (h : executor.Ended (· = ·) count result) :
    Orderly count result := by
  cases h with
  | finished hlog hcount hresult =>
    refine ⟨fun _ => ?_, fun hfailed => nomatch hresult.success.symm.trans hfailed⟩
    rw [hresult.executionLog]
    exact ⟨hcount, hlog⟩
  | @failed log index last hlog hindex hgap hlt hlast hresult =>
    refine ⟨fun hs => absurd (hresult.success.symm.trans hs) nofun, fun _ => ?_⟩
    obtain rfl : log.length = index := hgap
    exact ⟨log, last, hresult.executionLog, hlog, hlast, .inl ⟨hindex, hlt⟩⟩
  | unseeded hrefused hresult =>
    refine ⟨fun hs => absurd (hresult.success.symm.trans hs) nofun, fun _ => ?_⟩
    exact ⟨[], _, hresult.executionLog, .nil, hrefused.failed, .inr (.inl ⟨hrefused.stepIndex, rfl⟩)⟩
  | refused hlog hcount hrefused hresult =>
    refine ⟨fun hs => absurd (hresult.success.symm.trans hs) nofun, fun _ => ?_⟩
    exact ⟨_, _, hresult.executionLog, hlog, hrefused.failed, .inr (.inr ⟨hrefused.stepIndex, hcount⟩)⟩

end

/-- The logs of runs and of resumed runs. -/
structure LogShape (executor : Executor) : Prop where
  execute : ∀ lane stack flowName input (call : Call) state events result state' flow,
    executor.registry.getFlow flowName call.version = .ok flow → executor.Restored flow state →
      (lane = .async → executor.Runnable flow) →
        (executor.enter stack (executeIn lane flowName input call)).Runs state events (.ok result) state' →
          Orderly flow.steps.length result
  resume : ∀ lane stack traceId snapshot state events result state' flow,
    executor.registry.getFlow snapshot.flowName none = .ok flow → executor.Restored flow state →
      executor.Recovered snapshot flow → (∀ e ∈ events, Loads snapshot e) → (lane = .async → executor.Runnable flow) →
        (executor.enter stack (resumeIn lane traceId)).Runs state events (.ok result) state' →
          Orderly flow.steps.length result

theorem logged_in_order (executor : Executor) : LogShape executor where
  execute lane _ _ _ _ state events _ state' _ hflow hstate hrunnable hrun :=
    (execute_ended lane (fun _ => rfl) (fun hlane => (hrunnable hlane).overtakes) hflow state events _ state' hstate
      (fun _ _ => trivial) hrun).2.orderly
  resume lane _ _ _ state events _ state' _ hflow hstate hfits hloads hrunnable hrun :=
    (resumed_ended lane (fun _ => rfl) (fun hlane => (hrunnable hlane).overtakes) hflow hfits state events _ state'
      hstate hloads hrun).2.orderly

-- A step the asynchronous lane has no code for

/-- A level of a tool step and a capability step. -/
def mixedFlow : AnyFlow :=
  .dag
    { name := "f"
      steps :=
        [Sample.node "a" [] (Sample.step "a"),
          { Sample.step "b" with stepId := "b", stepType := .capability, capabilityId := some "c" }] }

def mixedExecutor : Executor := Sample.executor [mixedFlow] [Sample.tool "a"]

def mixedRun : List Event × Except Exc ExecutionResult × RunScopedState :=
  Sample.run Sample.named none 0 (mixedExecutor.enter 1 (executeIn .async "f" .empty {}))

/-- The record of the second step is the whole log. -/
theorem mixedRun_log :
    ((Sample.resultOf mixedRun).map fun result => (result.success, result.executionLog.map (·.stepIndex))) =
      some (false, [1]) := by
  decide +kernel

theorem completed_siblings_unlogged :
    ¬∀ (executor : Executor) lane stack flowName input (call : Call) events result state' flow,
      executor.registry.getFlow flowName call.version = .ok flow →
        (executor.enter stack (executeIn lane flowName input call)).Runs {} events (.ok result) state' →
          Orderly flow.steps.length result := by
  intro h
  obtain ⟨result, hresult, hlog⟩ := Option.map_eq_some_iff.1 mixedRun_log
  obtain ⟨hfailed, hlog⟩ := Prod.mk.inj hlog
  have horderly := h mixedExecutor .async 1 "f" .empty {} mixedRun.1 result _ mixedFlow rfl (Sample.run_returns hresult)
  obtain ⟨log, last, heq, -, -, hlast⟩ := horderly.failed hfailed
  rw [heq, List.map_append] at hlog
  obtain rfl : log = [] := by
    have hlength := congrArg List.length hlog
    simpa using hlength
  simp only [List.map_nil, List.nil_append, List.map_cons, List.cons.injEq, and_true] at hlog
  rw [hlog] at hlast
  rcases hlast with ⟨hindex, -⟩ | ⟨hindex, -⟩ | ⟨-, hcount⟩
  · cases hindex
  · cases hindex
  · cases hcount

end ChainWeaver.Executor
