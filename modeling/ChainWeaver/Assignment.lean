import ChainWeaver.Ledger
import ChainWeaver.Sample

/-!
# Single assignment

Where collisions are errors, no key of the context is bound twice: the context of a
run only grows.
-/

namespace ChainWeaver.Executor

open Interaction (Frame)

/-- `merge_step_outputs` as it works in place: what it raises, and the context it
leaves. -/
def mergeStepOutputs (context outputs : Dict) (policy : ContextCollisionPolicy) (flowName : String) (stepIndex : Int)
    (stepName : String) (outputMapping : Option (OrderedDict String)) : Except Exc Unit × Dict :=
  match applyOutputMapping outputs outputMapping stepName stepIndex with
  | .error e => (.error e, context)
  | .ok mapped =>
    match policy, collisions context mapped with
    | .error, key :: keys => (.error (.contextKeyCollision flowName stepIndex stepName (key :: keys)), context)
    | _, _ => (.ok (), context.update mapped)

/-- A merge that passes the context on, done in place. -/
def inPlace (context : Dict) : Except Exc Dict → Except Exc Unit × Dict
  | .ok merged => (.ok (), merged)
  | .error e => (.error e, context)

/-- The loops pass the context on. -/
theorem mergeStepOutputs_eq : mergeStepOutputs context outputs policy flowName stepIndex name mapping =
    inPlace context (applyOutputMapping outputs mapping name stepIndex >>= fun mapped =>
      mergeMapped context mapped policy flowName stepIndex name) := by
  unfold mergeStepOutputs
  cases applyOutputMapping outputs mapping name stepIndex with
  | error e => rfl
  | ok mapped =>
    show _ = inPlace context (mergeMapped context mapped policy flowName stepIndex name)
    cases policy <;> cases hkeys : collisions context mapped <;> simp [mergeMapped, hkeys, inPlace]

theorem mergeStepOutputs_refused
    (h : (mergeStepOutputs context outputs policy flowName stepIndex name mapping).1 = .error e) :
    (mergeStepOutputs context outputs policy flowName stepIndex name mapping).2 = context := by
  rw [mergeStepOutputs_eq] at h ⊢
  unfold inPlace at h ⊢
  split at h
  · cases h
  · rfl

theorem free_of_collisions (h : collisions context outputs = []) (key : String) (hkey : outputs.contains key = true) :
    context.contains key = false := by
  have hnot := List.filter_eq_nil_iff.1 h key (by simpa [OrderedDict.contains] using hkey)
  simpa using hnot

/-- The context has all of `seed`, and so does what a run that succeeds gives. -/
def growing (seed : Dict) : Ledger α where
  At _ context _ _ := seed.Extends context
  Made _ _ _ _ := True
  Over result := result.success = true → ∃ output, result.finalOutput = some output ∧ seed.Extends output

theorem growing_sound {executor : Executor} {seed : Dict} {mapping : α → Option (OrderedDict String)} {order : List α} :
    (growing seed).Sound executor mapping order True where
  placed _ h _ _ _ _ := h
  merged h hfree := h.trans (OrderedDict.extends_update (free_of_collisions (hfree trivial)))
  failed _ _ _ _ _ hresult h := nomatch h.symm.trans hresult.success
  finished h hresult _ := ⟨_, hresult.finalOutput, h⟩
  refused _ _ hresult h := nomatch h.symm.trans hresult.success

section

variable {executor : Executor} {Inv : RunScopedState → Prop} {nested : Nested} {cancellation : Cancellation}
variable {seed : Dict}

theorem growing_linear {flow : Flow} {lane : Lane} (hpolicy : flow.onContextCollision = .error)
    (hstable : Stable Inv) (hn : ∀ lane flowName input cancellation, Stays Inv (nested.entry lane flowName input cancellation))
    (order : List FlowStep) :
    (growing seed).Linear executor Inv anyEvent anyError flow order True ⟨lane, false⟩ nested cancellation where
  sound := growing_sound
  surroundings := surroundings_any
  escapes := Ledger.escapes_any
  named _ _ _ := trivial
  merges _ := ⟨rfl, hpolicy⟩
  step _ _ _ _ := (executeStepIn_stays hstable hn).given given_any

theorem growing_levelled {flow : DAGFlow} (hpolicy : flow.onContextCollision = .error) (order : List DAGFlowStep) :
    (growing seed).Levelled executor anyEvent anyError flow order True where
  sound := growing_sound
  surroundings := surroundings_any
  escapes := Ledger.escapes_any
  named _ _ _ := trivial
  merges _ := hpolicy

theorem growing_stepped {flow : DAGFlow} (hpolicy : flow.onContextCollision = .error) (hstable : Stable Inv)
    (hn : ∀ lane flowName input cancellation, Stays Inv (nested.entry lane flowName input cancellation))
    (order : List DAGFlowStep) :
    (growing seed).Stepped executor Inv anyEvent anyError flow order True nested cancellation where
  toLevelled := growing_levelled hpolicy order
  skipped _ h _ := h
  tool _ _ _ _ _ := (executeStepIn_stays hstable hn).given given_any
  capability _ _ _ _ := (runCapabilityStep_stays hn).given given_any
  unrouted _ _ := trivial

theorem growing_gathered {flow : DAGFlow} (hpolicy : flow.onContextCollision = .error) (hstable : Stable Inv)
    (hn : ∀ lane flowName input cancellation, Stays Inv (nested.entry lane flowName input cancellation))
    (order : List DAGFlowStep) :
    (growing seed).Gathered executor Inv anyEvent anyError flow order True nested cancellation where
  toLevelled := growing_levelled hpolicy order
  tool _ _ _ _ _ := (executeStepIn_stays hstable hn).given given_any

theorem growing_turned {levels : List (List DAGFlowStep)} : (growing seed).Turned executor levels := by
  intro before first step rest after context log name result _ _ _ _ hresult hsuccess
  exact nomatch hsuccess.symm.trans hresult.success

/-- The states of a fresh run with these parameters. -/
def Unresumed (params : Dict) (state : RunScopedState) : Prop := state.resumeSnapshot = none ∧ state.dynamicParams = params

theorem unresumed_stable {params : Dict} : Stable (Unresumed params) := ⟨id, id⟩

theorem growing_run {flow : AnyFlow} {params : Dict} (hpolicy : flow.header.onContextCollision = .error)
    (hn : ∀ lane flowName input cancellation, Stays (Unresumed params) (nested.entry lane flowName input cancellation))
    (lane : Lane) :
    (frame (Unresumed params)).Given anyEvent (executor.executeAdmitted lane nested flowName input cancellation flow)
      (growing (α := FlowStep) (input.update params)).Over anyError := by
  have hseed : ∀ state, Unresumed params state → (input.update params).Extends (input.update state.dynamicParams) :=
    fun state hstate => hstate.2 ▸ .refl _
  cases flow with
  | linear flow =>
    have hlinear : ∀ flowName, (frame (Unresumed params)).Given anyEvent
        (executor.executeLinear lane nested flow flowName input cancellation)
        (growing (α := FlowStep) (input.update params)).Over anyError := fun flowName =>
      executeLinear_kept unresumed_stable (growing_linear hpolicy unresumed_stable hn flow.steps) hseed
        fun _ hresult hsuccess => nomatch hsuccess.symm.trans hresult.success
    cases lane with
    | sync => exact hlinear flowName
    | async => exact hlinear flow.name
  | dag flow =>
    have hstarts : (growing (input.update params)).Starts executor (Unresumed params) flow input :=
      { fresh := fun _ _ _ state hstate => hseed state hstate
        resumed := fun state snapshot levels hstate hsnapshot => nomatch hstate.1.symm.trans hsnapshot
        unseeded := fun _ hresult hsuccess => nomatch hsuccess.symm.trans hresult.success }
    cases lane with
    | sync =>
      exact executeDagFlow_kept unresumed_stable surroundings_any (fun _ _ => trivial)
        (fun levels _ => growing_stepped hpolicy unresumed_stable hn levels.flatten) hstarts
    | async =>
      exact executeDagFlowAsync_kept unresumed_stable surroundings_any (fun _ _ => trivial)
        (fun levels _ => ⟨growing_gathered hpolicy unresumed_stable hn levels.flatten, growing_turned⟩) hstarts

end

/-- Where collisions are errors, the context only grows from any point of a run to any
later one, and what it starts from is in what the run gives. -/
structure SingleAssignment (executor : Executor) : Prop where
  steps : ∀ (flow : Flow), flow.onContextCollision = .error → ∀ before middle after,
    flow.steps = before ++ middle ++ after → ∀ lane stack info cancellation context log state events context' log' state',
      (executor.linearLoop ⟨lane, false⟩ (executor.lanes stack) info flow cancellation middle before.length context
        log).Runs state events (.ok (.going (context', log'))) state' → context.Extends context'
  levels : ∀ (flow : DAGFlow), flow.onContextCollision = .error → ∀ before middle after,
    computeDagLevels executor.platform.hashing flow = .ok (before ++ middle ++ after) →
      ∀ stack info cancellation levelIndex (earlier later : DagState) state events state',
        earlier.flatIndex = before.flatten.length →
          (executor.dagLevels (executor.lanes stack) info flow cancellation middle levelIndex earlier).Runs state events
              (.ok (.going later)) state' ∨
            (executor.dagLevelsAsync (executor.lanes stack) info flow cancellation middle levelIndex earlier).Runs state
              events (.ok (.going later)) state' →
          earlier.context.Extends later.context
  output : ∀ lane stack flowName input (call : Call) state events result state' flow, state.resumeSnapshot = none →
    executor.registry.getFlow flowName call.version = .ok flow → flow.header.onContextCollision = .error →
      (executor.enter stack (executeIn lane flowName input call)).Runs state events (.ok result) state' →
        result.success = true → ∃ output, result.finalOutput = some output ∧
          (withDynamicParams state call.dynamicParams).dynamicParams.Extends output ∧
            ∀ key value, input.get? key = some value →
              (withDynamicParams state call.dynamicParams).dynamicParams.contains key = false →
                output.get? key = some value
  refused : ∀ context outputs policy flowName stepIndex name mapping e,
    (mergeStepOutputs context outputs policy flowName stepIndex name mapping).1 = .error e →
      (mergeStepOutputs context outputs policy flowName stepIndex name mapping).2 = context

theorem enterLane_fresh (lane : Lane) (hfresh : state.resumeSnapshot = none) :
    Unresumed (withDynamicParams state call.dynamicParams).dynamicParams (enterLane lane call state) := by
  obtain ⟨version, force, cancellation, dryRun, unsupported, params⟩ := call
  cases lane <;> cases params <;>
    simp [Unresumed, enterLane, enterSync, withDynamicParams, RunScopedState.copy, hfresh]

theorem linearLoop_extends {executor : Executor} {flow : Flow} {lane : Lane} {before middle : List FlowStep}
    (hpolicy : flow.onContextCollision = .error)
    (hrun : (executor.linearLoop ⟨lane, false⟩ (executor.lanes stack) info flow cancellation middle before.length context
      log).Runs state events (.ok (.going (context', log'))) state') : context.Extends context' := by
  have hlinear : (growing context).Linear executor (fun _ => True) anyEvent anyError flow (before ++ middle) True
      ⟨lane, false⟩ (executor.lanes stack) cancellation :=
    growing_linear hpolicy ⟨id, id⟩ (fun _ => lanes_stay stack) (before ++ middle)
  exact (linearLoop_kept _ hlinear before middle rfl (.refl context) _ _ _ _ trivial (fun _ _ => trivial) hrun).2

section

variable {executor : Executor} {flow : DAGFlow} {before middle : List (List DAGFlowStep)} {earlier later : DagState}

theorem dagLevels_extends (hpolicy : flow.onContextCollision = .error)
    (hindex : earlier.flatIndex = before.flatten.length)
    (hrun : (executor.dagLevels (executor.lanes stack) info flow cancellation middle levelIndex earlier).Runs state
      events (.ok (.going later)) state') : earlier.context.Extends later.context := by
  have hstepped : (growing earlier.context).Stepped executor (fun _ => True) anyEvent anyError flow
      (before.flatten ++ middle.flatten) True (executor.lanes stack) cancellation :=
    growing_stepped hpolicy ⟨id, id⟩ (fun _ => lanes_stay stack) _
  exact (dagLevels_kept hstepped before.flatten middle rfl ⟨hindex, .refl _⟩ _ _ _ _ trivial (fun _ _ => trivial) hrun).2.2

theorem dagLevelsAsync_extends (hpolicy : flow.onContextCollision = .error)
    (hindex : earlier.flatIndex = before.flatten.length)
    (hrun : (executor.dagLevelsAsync (executor.lanes stack) info flow cancellation middle levelIndex earlier).Runs state
      events (.ok (.going later)) state') : earlier.context.Extends later.context := by
  have hgathered : (growing earlier.context).Gathered executor (fun _ => True) anyEvent anyError flow
      (before ++ middle).flatten True (executor.lanes stack) cancellation :=
    growing_gathered hpolicy ⟨id, id⟩ (fun _ => lanes_stay stack) _
  exact (dagLevelsAsync_kept hgathered growing_turned before middle rfl rfl ⟨hindex, .refl _⟩ _ _ _ _ trivial
    (fun _ _ => trivial) hrun).2.2

end

theorem update_free {d new : Dict} (h : new.contains key = false) : (d.update new).get? key = d.get? key := by
  have hnone : new.get? key = none := by
    cases hget : new.get? key with
    | none => rfl
    | some value => exact nomatch h.symm.trans (OrderedDict.contains_iff.2 ⟨value, hget⟩)
  rw [OrderedDict.get?_update, hnone, Option.none_or]

theorem output_extends {executor : Executor} {call : Call} (lane : Lane) (hfresh : state.resumeSnapshot = none)
    (hflow : executor.registry.getFlow flowName call.version = .ok flow)
    (hpolicy : flow.header.onContextCollision = .error)
    (hrun : (executor.enter stack (executeIn lane flowName input call)).Runs state events (.ok result) state')
    (hsuccess : result.success = true) : ∃ output, result.finalOutput = some output ∧
      (input.update (withDynamicParams state call.dynamicParams).dynamicParams).Extends output := by
  have hstart : ∀ other, other = state → Unresumed (withDynamicParams state call.dynamicParams).dynamicParams
      (enterLane lane call other) := by
    rintro other rfl
    exact enterLane_fresh lane hfresh
  have hgiven : (frame (· = state)).Given anyEvent (executor.enter stack (executeIn lane flowName input call))
      (growing (α := FlowStep) (input.update (withDynamicParams state call.dynamicParams).dynamicParams)).Over anyError := by
    refine execute_given lane unresumed_stable hstart fun other hother => ?_
    obtain rfl := Except.ok.inj (hflow.symm.trans hother)
    exact growing_run hpolicy (fun _ => lanes_stay stack) lane
  exact (hgiven _ _ _ _ rfl (fun _ _ => trivial) hrun).2 hsuccess

def overlaidExecutor : Executor :=
  Sample.executor [.linear { name := "f", steps := [Sample.step "a"], onContextCollision := .error }] [Sample.tool "a"]

/-- A run whose `dynamic_params` bind a key of the input. -/
def overlaidRun : List Event × Except Exc ExecutionResult × RunScopedState :=
  Sample.run Sample.named none 0 (overlaidExecutor.enter 1 (executeIn .sync "f" (.ofList [("k", .int 1)])
    { dynamicParams := some (.ofList [("k", .int 2)]) }))

def isInt (number : Int) : Value → Bool
  | .int other => other = number
  | _ => false

/-- The run ends with `number` under the key. -/
def overlaidGives (number : Int) : Bool :=
  (Sample.resultOf overlaidRun).any fun result =>
    result.success && result.finalOutput.any fun output => (output.get? "k").any (isInt number)

end ChainWeaver.Executor
