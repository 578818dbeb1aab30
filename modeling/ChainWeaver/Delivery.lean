import ChainWeaver.Ownership

/-!
# Records and hooks

The records of a run reach the middleware through `on_step_end` and the caller
through the execution log. The two agree as long as no record is made, or
replaced, behind the back of the hooks.
-/

namespace ChainWeaver.Executor

open Interaction (Justified)

/-- The record that an event delivers under a trace id. -/
def deliveredRecord (traceId : String) : Event → Option StepRecord
  | ⟨.hook, .stepEnd id _ record, _⟩ => if id = traceId then some record else none
  | _ => none

/-- The records delivered under a trace id, in order. -/
def delivered (traceId : String) (events : List Event) : List StepRecord :=
  events.filterMap (deliveredRecord traceId)

/-- A record that no hook tells of: the step is skipped by a branch, its sub-flow
inputs do not resolve, or its record is replaced because its outputs clash with
those of a sibling or a predicate of its branches does not parse. -/
def Silent (executor : Executor) (traceId : String) : Event → Prop
  | ⟨.probe, .visit id step skipped, _⟩ => id = traceId ∧ skipDecision skipped step = true
  | ⟨.probe, .subInputs id stepIndex step context, _⟩ =>
    id = traceId ∧ (resolveInputs step context stepIndex).isOk = false
  | ⟨.probe, .place id step context outputs levelOutputs, _⟩ =>
    id = traceId ∧ executor.Unplaceable .sync step context outputs levelOutputs
  | _ => False

/-- The records at the end of a log that stand for no step: that of a failed
flow-level schema check, or none. -/
def FlowLevel (tail : List StepRecord) : Prop :=
  tail = [] ∨ ∃ flowName payload stepIndex detail label,
    tail = [flowRecord flowName payload stepIndex detail label]

theorem delivered_append : delivered traceId (first ++ second) =
    delivered traceId first ++ delivered traceId second :=
  List.filterMap_append

theorem deliveredRecord_outer (h : deliveredRecord traceId e = some record) : outer e = some traceId := by
  unfold deliveredRecord at h
  split at h
  · split at h
    · next hid => exact congrArg some hid
    · cases h
  · cases h

/-- What a step leaves between its hooks delivers no record under its trace id. -/
theorem Within.delivered (h : Within info events) (hd : ¬Drawn info.traceId events) :
    delivered info.traceId events = [] := by
  refine List.filterMap_eq_nil_iff.2 fun e he => ?_
  cases hrecord : deliveredRecord info.traceId e with
  | none => rfl
  | some record => exact absurd (deliveredRecord_outer hrecord) (h.foreign hd he).1

-- Runs

section

variable {executor : Executor} {S : Scene} {run : RunInfo} {flow : AnyFlow}

theorem delivered_stepEnd {info : StepInfo} (h : info.traceId = traceId) :
    delivered traceId [stepEndEvent info record] = [record] := by
  simp [delivered, deliveredRecord, h]

/-- A step delivers its record, unless it is silent. -/
theorem turn_delivered (hturn : Turn (Within info) info record events) (hd : ¬Drawn info.traceId events)
    (hheard : ∀ e ∈ events, ¬executor.Silent info.traceId e) : delivered info.traceId events = [record] := by
  have hsub : ∀ {piece}, piece.Sublist events → ¬Drawn info.traceId piece :=
    fun hsub hdrawn => hd (hdrawn.mono hsub)
  cases hturn with
  | lone hbefore _ _ =>
    rw [delivered_append, hbefore.delivered (hsub (List.sublist_append_left _ _)), delivered_stepEnd rfl]
    rfl
  | @bracket before body _ toolName inputs hbefore hbody _ =>
    rw [delivered_append, delivered_append, delivered_append, delivered_stepEnd rfl]
    rw [hbefore.delivered (hsub (by simp)), hbody.delivered (hsub ?_)]
    · rfl
    · exact ((List.sublist_append_right _ body).trans (List.sublist_append_left _ _))
  | unheard he _ _ =>
    exact absurd ⟨rfl, by simp [he, Except.isOk, Except.toBool]⟩ (hheard _ (List.mem_singleton.2 rfl))

theorem aside_delivered (h : S.Aside e) : delivered traceId [e] = [] := by
  cases h <;> rfl

/-- While the run goes on, its log is what has been delivered. -/
theorem reached_delivered
    (h : (executor.ownPolicy.scene .sync flow run ⟨0, []⟩ .fresh).Reached spot events)
    (hd : ¬Drawn run.traceId events) (hheard : ∀ e ∈ events, ¬executor.Silent run.traceId e) :
    delivered run.traceId events = spot.log := by
  induction h with
  | start he => cases he <;> rfl
  | aside _ he ih =>
    rw [delivered_append, aside_delivered he, List.append_nil]
    exact ih (fun h => hd (h.mono (List.sublist_append_left _ _))) fun e he => hheard e (by simp [he])
  | @turn _ _ info _ _ _ hat hturn _ ih =>
    have htrace : info.traceId = run.traceId := hat.1.1
    rw [delivered_append, ih (fun h => hd (h.mono (List.sublist_append_left _ _))) fun e he => hheard e (by simp [he])]
    rw [← htrace] at hd hheard ⊢
    rw [turn_delivered hturn (fun h => hd (h.mono (List.sublist_append_right _ _))) fun e he => hheard e (by simp [he])]
    rfl
  | skip name _ hskip _ => exact absurd ⟨rfl, hskip⟩ (hheard _ (List.mem_append_right _ (List.mem_singleton.2 rfl)))
  | strands hlane | settle _ hlane => cases hlane

theorem ended_delivered
    (h : (executor.ownPolicy.scene .sync flow run ⟨0, []⟩ .fresh).Ended success log events)
    (hd : ¬Drawn run.traceId events) (hheard : ∀ e ∈ events, ¬executor.Silent run.traceId e) :
    ∃ tail, FlowLevel tail ∧ log = delivered run.traceId events ++ tail := by
  cases h with
  | finished hr => exact ⟨[], .inl rfl, by rw [reached_delivered hr hd hheard, List.append_nil]⟩
  | unseeded => exact ⟨_, .inr ⟨_, _, _, _, _, rfl⟩, rfl⟩
  | refused hr => exact ⟨_, .inr ⟨_, _, _, _, _, rfl⟩, by rw [reached_delivered hr hd hheard]⟩
  | @failed _ _ info _ _ hr hat hturn _ =>
    have htrace : info.traceId = run.traceId := hat.1.1
    refine ⟨[], .inl rfl, ?_⟩
    rw [delivered_append, reached_delivered hr (fun h => hd (h.mono (List.sublist_append_left _ _)))
      fun e he => hheard e (by simp [he])]
    rw [← htrace] at hd hheard ⊢
    rw [turn_delivered hturn (fun h => hd (h.mono (List.sublist_append_right _ _)))
      fun e he => hheard e (by simp [he]), List.append_nil]
  | replaced _ _ _ hun =>
    exact absurd ⟨rfl, hun⟩ (hheard _ (List.mem_append_right _ (List.mem_singleton.2 rfl)))
  | spent hlane => cases hlane

end

/-- The records delivered under the trace id of a run are the step records of its
log, in order, as long as the run makes no silent record. -/
theorem executeFlow_delivered (executor : Executor) (stack : Nat) (flowName : String) (initialInput : Dict)
    (call : Call) (hs : state.resumeSnapshot = none)
    (hrun : (executor.executeFlow stack flowName initialInput call).Runs state events (.ok result) state')
    (hids : (drawn events).Nodup) (hheard : ∀ e ∈ events, ¬executor.Silent result.traceId e) :
    ∃ tail, FlowLevel tail ∧ result.executionLog = delivered result.traceId events ++ tail := by
  rcases executeFlow_begun hs hrun hids with ⟨_, hr, _⟩ | ⟨flow, entered, run, version, steps, own, _, rfl, hd, hown⟩
  · cases hr
  obtain ⟨htrace, before, after, hended, hclosing, rfl⟩ := hown
  have htrace : result.traceId = run.traceId := htrace
  rw [htrace] at hheard ⊢
  have hopening : delivered run.traceId [probeEvent (.enter flow entered), ⟨.newTraceId, (), run.traceId⟩,
    Policy.flowStartEvent run version steps] = [] := rfl
  have hafter : delivered run.traceId after = [] := by cases hclosing <;> rfl
  rw [delivered_append, delivered_append, hopening, hafter, List.nil_append, List.append_nil]
  exact ended_delivered hended (fun h => hd (h.mono (List.sublist_append_left _ _))) fun e he =>
    hheard e (by simp [he])

-- A record that no hook tells of

def deliveryExecutor : Executor :=
  Sample.executor
    [.linear { name := "f", steps := [Sample.step "a"] },
     .linear { name := "g", steps := [Sample.taking [("x", .str "missing")] (Sample.subflow "f")] }]
    [Sample.tool "a"]

def deliveryRun (flowName : String) : List Event × Except Exc ExecutionResult × RunScopedState :=
  Sample.run Sample.named none 0 (deliveryExecutor.executeFlow 2 flowName .empty {})

/-- The marks that may stand for a silent record. -/
def suspects : Event → Bool
  | ⟨.probe, .visit .., _⟩ => true
  | ⟨.probe, .subInputs .., _⟩ => true
  | ⟨.probe, .place .., _⟩ => true
  | _ => false

theorem not_suspects {executor : Executor} (h : suspects e = false) : ¬executor.Silent traceId e := by
  unfold Silent
  split <;> simp_all [suspects]

theorem executeFlow_delivered_tool : ∃ result tail, Sample.resultOf (deliveryRun "f") = some result ∧
    FlowLevel tail ∧ result.executionLog = delivered result.traceId (deliveryRun "f").1 ++ tail := by
  have hsome : (Sample.resultOf (deliveryRun "f")).isSome = true := by decide +kernel
  have hids : (drawn (deliveryRun "f").1).Nodup := by decide +kernel
  have hplain : (deliveryRun "f").1.any suspects = false := by decide +kernel
  obtain ⟨result, hresult⟩ := Option.isSome_iff_exists.1 hsome
  obtain ⟨tail, htail, hlog⟩ := executeFlow_delivered deliveryExecutor 2 "f" .empty {} rfl
    (Sample.run_returns hresult) hids fun e he => not_suspects (by simpa using List.any_eq_false.1 hplain e he)
  exact ⟨result, tail, hresult, htail, hlog⟩

/-- The log of a run and what it delivered, by the types of the errors. -/
def errorTypes (ran : List Event × Except Exc ExecutionResult × RunScopedState) :
    Option (List (Option String) × List (Option String)) :=
  (Sample.resultOf ran).map fun result =>
    (result.executionLog.map (·.errorType), (delivered result.traceId ran.1).map (·.errorType))

theorem unresolved_input_undelivered :
    ¬∀ (executor : Executor) (stack : Nat) (flowName : String) (initialInput : Dict) (call : Call)
      (events : List Event) result state',
      (executor.executeFlow stack flowName initialInput call).Runs {} events (.ok result) state' →
        (drawn events).Nodup → ∃ tail, FlowLevel tail ∧
          result.executionLog = delivered result.traceId events ++ tail := by
  intro h
  have htypes : errorTypes (deliveryRun "g") = some ([some "InputMappingError"], []) := by decide +kernel
  have hids : (drawn (deliveryRun "g").1).Nodup := by decide +kernel
  obtain ⟨result, hresult, htypes⟩ := Option.map_eq_some_iff.1 htypes
  obtain ⟨hlog, hnone⟩ := Prod.mk.inj htypes
  obtain ⟨tail, htail, heq⟩ := h deliveryExecutor 2 "g" .empty {} (deliveryRun "g").1 result _
    (Sample.run_returns hresult) hids
  rw [List.map_eq_nil_iff.1 hnone, List.nil_append] at heq
  rw [heq] at hlog
  rcases htail with rfl | ⟨_, _, _, _, _, rfl⟩
  · cases hlog
  · exact absurd hlog (by simp [flowRecord, Exc.typeName])

end ChainWeaver.Executor
