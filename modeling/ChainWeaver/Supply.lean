import ChainWeaver.Interaction.Given
import ChainWeaver.Plan
import ChainWeaver.StepTraces

/-!
# What a step takes and gives

A step that runs needs keys of the context, and one that succeeds supplies keys to
it. Both follow from the flow and the schemas of its tools, as far as Pydantic and
the cache can be trusted.
-/

namespace ChainWeaver

open Interaction (Frame Outcome)

/-- The errors of the two mappings of a step. -/
def Exc.isMapping : Exc → Bool
  | .inputMapping .. | .outputMapping .. => true
  | _ => false

namespace FlowStep

/-- The plain strings among the sources of the input mapping, which are context keys. -/
def sources (step : FlowStep) : List String :=
  step.inputMapping.entries.filterMap fun entry =>
    match entry.2 with
    | .str source => some source
    | _ => none

/-- No input comes from a JSON pointer. -/
def NoPointers (step : FlowStep) : Prop := ∀ source ∈ step.sources, Pointer.isPointer source = false

end FlowStep

theorem resolveAll_ok (label : String) (stepIndex : Int) {pairs : List (String × Value)} (resolved : Dict)
    (hp : ∀ key source, (key, .str source) ∈ pairs → Pointer.isPointer source = false)
    (h : ∀ key source, (key, .str source) ∈ pairs → context.contains source = true) :
    ∃ inputs, resolveAll context label stepIndex pairs resolved = .ok inputs ∧
      ∀ name, inputs.contains name = (resolved.contains name || (pairs.map Prod.fst).contains name) := by
  induction pairs generalizing resolved with
  | nil => exact ⟨resolved, rfl, by simp⟩
  | cons pair rest ih =>
    obtain ⟨key, raw⟩ := pair
    have hvalue : ∃ value, resolveSource context label stepIndex raw = .ok value := by
      cases raw with
      | str source =>
        obtain ⟨value, hv⟩ := OrderedDict.contains_iff.1 (h key source (by simp))
        exact ⟨value, by simp [resolveSource, hp key source (by simp), hv]⟩
      | _ => exact ⟨_, rfl⟩
    obtain ⟨value, hvalue⟩ := hvalue
    obtain ⟨inputs, hinputs, hkeys⟩ := ih (resolved.insert key value)
      (fun key source hmem => hp key source (List.mem_cons_of_mem _ hmem))
      (fun key source hmem => h key source (List.mem_cons_of_mem _ hmem))
    refine ⟨inputs, ?_, fun name => ?_⟩
    · rw [resolveAll, hvalue]
      exact hinputs
    · rw [hkeys, OrderedDict.contains_insert, List.map_cons, List.contains_cons, Bool.eq_iff_iff]
      simp only [Bool.or_eq_true, decide_eq_true_eq, beq_iff_eq]
      tauto

theorem resolveInputs_ok {step : FlowStep} (hp : step.NoPointers)
    (h : ∀ source ∈ step.sources, context.contains source = true) :
    ∃ inputs, resolveInputs step context stepIndex = .ok inputs ∧
      ∀ key, step.feeds context key = true → inputs.contains key = true := by
  have hmem : ∀ {key source}, (key, Value.str source) ∈ step.inputMapping.entries → source ∈ step.sources :=
    fun hmem => List.mem_filterMap.2 ⟨_, hmem, rfl⟩
  unfold resolveInputs FlowStep.feeds
  split
  · exact ⟨context, rfl, fun _ => id⟩
  · obtain ⟨inputs, hinputs, hkeys⟩ := resolveAll_ok ((step.displayName?.filter (· ≠ "")).getD "<step>") stepIndex .empty
      (fun _ _ hpair => hp _ (hmem hpair)) (fun _ _ hpair => h _ (hmem hpair))
    refine ⟨inputs, hinputs, fun key hkey => ?_⟩
    rw [hkeys, OrderedDict.contains_empty, Bool.false_or]
    exact hkey

namespace Executor

-- What is trusted

/-- The outputs have every field of the schema. -/
def Fits (reflection : Reflection) (schema : Schema) (outputs : Dict) : Prop :=
  ∀ field, (reflection.modelFields schema).contains field = true → outputs.contains field = true

/-- What is relied on outside of the executor: a validated model is dumped with all its
fields, the cache answers with outputs of the tool it is asked for, and the errors
raised there are `Fair`, as are the executor's own but for mapping errors. -/
structure Trusted (executor : Executor) (reflection : Reflection) (A : Event → Prop) (Fair : Exc → Prop) :
    Prop where
  own : ∀ e : Exc, e.isMapping = false → Fair e
  dumps : ∀ schema value dumped, executor.platform.modelValidate schema value = .ok dumped →
    Fits reflection schema dumped
  hit : ∀ key outputs, A ⟨.cacheGet, key, .ok (some outputs)⟩ → ∀ tool : Tool, tool.name = key.toolName →
    tool.schemaHash = key.schemaHash → Fits reflection tool.outputSchema outputs
  resolveClassRef : ∀ ref e, executor.platform.resolveClassRef ref = .error e → Fair e
  modelValidate : ∀ schema value e, executor.platform.modelValidate schema value = .error e → Fair e
  inputValueHash : ∀ schema inputs e, executor.platform.inputValueHash schema inputs = .error e → Fair e
  cacheGet : ∀ key e, A ⟨.cacheGet, key, .error e⟩ → Fair e
  cacheSet : ∀ entry e, A ⟨.cacheSet, entry, .error e⟩ → Fair e
  save : ∀ snapshot e, A ⟨.save, snapshot, .error e⟩ → Fair e
  delete : ∀ traceId e, A ⟨.delete, traceId, .error e⟩ → Fair e

-- The primitives

section

variable {Inv : RunScopedState → Prop} {A : Event → Prop} {Fair : Exc → Prop} {Q : α → Prop}

theorem given_raise {e : Exc} (h : Fair e) : (frame Inv).Given A (raise e : Exec α) Q Fair :=
  .ask_bind fun _ _ => .throw h

theorem given_refuse {e : Exc} (h : Fair e) : (frame Inv).Given A (refuse e : Exec α) Q Fair :=
  .ask_bind fun _ _ => .throw h

theorem given_ofExcept {x : Except Exc α} (h : ∀ e, x = .error e → Fair e) :
    (frame Inv).Given A (ofExcept x) (fun value => x = .ok value) Fair := by
  cases x with
  | ok value => exact .pure rfl
  | error e => exact given_raise (h e rfl)

theorem given_orRefuse {x : Except Exc α} (h : ∀ e, x = .error e → Fair e) :
    (frame Inv).Given A (orRefuse x) (fun value => x = .ok value) Fair := by
  cases x with
  | ok value => exact .pure rfl
  | error e => exact given_refuse (h e rfl)

theorem given_displayName {step : FlowStep} (h : Fair .assertion) :
    (frame Inv).Given A (displayName step) (fun name => step.displayName? = some name) Fair := by
  unfold displayName
  cases hn : step.displayName? with
  | none => exact given_raise h
  | some name => exact .pure rfl

end

-- Calling a tool

variable {executor : Executor} {reflection : Reflection} {Inv : RunScopedState → Prop} {A : Event → Prop}
variable {Fair : Exc → Prop} {nested : Nested} {info : StepInfo} {lane : Lane} {step : FlowStep}

theorem bind_ok {x : Except ε α} {f : α → Except ε β} (h : x >>= f = .ok value) :
    ∃ a, x = .ok a ∧ f a = .ok value := by
  cases x with
  | ok a => exact ⟨a, rfl, h⟩
  | error e => cases h

theorem bind_error {x : Except ε α} {f : α → Except ε β} (h : x >>= f = .error e) :
    x = .error e ∨ ∃ a, x = .ok a ∧ f a = .error e := by
  cases x with
  | ok a => exact .inr ⟨a, rfl, h⟩
  | error e' =>
    cases h
    exact .inl rfl

/-- A nested synchronous call comes back to a good state. -/
def Returns (Inv : RunScopedState → Prop) (A : Event → Prop) (nested : Nested) : Prop :=
  ∀ flowName input cancellation, (frame Inv).Given A (nested.executeFlow flowName input cancellation)
    (fun _ => True) fun _ => True

theorem Trusted.validationError (ht : Trusted executor reflection A Fair)
    (h : executor.validationError schema payload = .error e) : Fair e := by
  unfold Executor.validationError at h
  split at h
  · cases h
  · cases h
  · next hv =>
    obtain rfl := Except.error.inj h
    exact ht.modelValidate _ _ _ hv

theorem Trusted.validateFlowSchema (ht : Trusted executor reflection A Fair)
    (h : executor.validateFlowSchema flowName payload schemaRef stepIndex label = .error e) : Fair e := by
  cases schemaRef with
  | none => cases h
  | some ref =>
    rcases bind_error h with href | ⟨schema, _, h⟩
    · exact ht.resolveClassRef _ _ href
    rcases bind_error h with hv | ⟨detail, _, h⟩
    · exact ht.validationError hv
    · cases detail <;> cases h

theorem Trusted.checkStepContract (ht : Trusted executor reflection A Fair)
    (h : executor.checkStepContract toolName stepIndex payload contract label = .error e) : Fair e := by
  cases contract with
  | none => cases h
  | some ref =>
    rcases bind_error h with href | ⟨schema, _, h⟩
    · exact ht.resolveClassRef _ _ href
    rcases bind_error h with hv | ⟨detail, _, h⟩
    · exact ht.validationError hv
    · cases detail <;> cases h

theorem checkStepContract_violation
    (h : executor.checkStepContract toolName stepIndex payload contract label = .ok (some e)) :
    ∃ detail, e = .schemaValidation toolName stepIndex detail label := by
  cases contract with
  | none => cases h
  | some ref =>
    obtain ⟨schema, _, h⟩ := bind_ok h
    obtain ⟨detail, _, h⟩ := bind_ok h
    cases detail with
    | none => cases h
    | some detail => exact ⟨detail, (Option.some.inj (Except.ok.inj h)).symm⟩

theorem Trusted.validateOutput (ht : Trusted executor reflection A Fair)
    (h : executor.validateOutput tool raw = .ok outputs) : Fits reflection tool.outputSchema outputs := by
  unfold Executor.validateOutput at h
  refine ht.dumps _ raw _ ?_
  split at h
  · exact h
  · obtain ⟨size, _, h⟩ := bind_ok h
    split at h
    · cases h
    · exact h

/-- What a tool returned fits its output schema. -/
def Returned (reflection : Reflection) (tool : Tool) : Except Exc Dict → Prop
  | .ok outputs => Fits reflection tool.outputSchema outputs
  | .error _ => True

theorem Trusted.returned (ht : Trusted executor reflection A Fair) {raw : Except Exc Value} :
    Returned reflection tool (raw.bind (executor.validateOutput tool)) := by
  cases raw with
  | error e => trivial
  | ok value =>
    change Returned reflection tool (executor.validateOutput tool value)
    cases h : executor.validateOutput tool value with
    | error e => trivial
    | ok outputs => exact ht.validateOutput h

theorem given_nestedCall {body : Exec α} {Q : α → Prop} {E : Exc → Prop} (h : (frame Inv).Given A body Q E) :
    (frame Inv).Given A (nestedCall origin input body) Q E := by
  unfold nestedCall
  refine .ask_bind fun _ _ => .attempt_bind h (fun value hv => ?_) fun e he => ?_
  · exact .ask_bind fun _ _ => .pure hv
  · exact .ask_bind fun _ _ => .throw he

theorem callFn_given (hn : Returns Inv A nested) :
    (frame Inv).Given A (callFn nested info tool inputs validated) (fun _ => True) Fair := by
  unfold callFn
  refine .ask_bind fun _ _ => ?_
  split
  · exact .ask fun _ _ => trivial
  · exact .attempt_bind (given_nestedCall (hn _ _ _)) (fun _ _ => .pure trivial) fun _ _ => .pure trivial
  · exact .ask_bind fun _ _ => .pure trivial

theorem runTool_given (ht : Trusted executor reflection A Fair) (hn : Returns Inv A nested) :
    (frame Inv).Given A (executor.runTool nested info tool inputs) (Returned reflection tool) Fair := by
  unfold runTool
  split
  · exact .pure trivial
  · exact (callFn_given hn).bind fun raw _ => .pure ht.returned

theorem runDry_given (ht : Trusted executor reflection A Fair) :
    (frame Inv).Given A (executor.runDry info tool inputs) (Returned reflection tool) Fair := by
  unfold runDry
  split
  · exact .pure trivial
  · exact .ask_bind fun raw _ => .pure ht.returned

theorem attempts_given (ht : Trusted executor reflection A Fair) (hn : Returns Inv A nested)
    (retryable : Exc → Bool) (retries : Nat) (retryErrors : List String) (made : Nat) :
    (frame Inv).Given A (executor.attempts nested info tool inputs retryable retries retryErrors made)
      (fun invoked => Returned reflection tool invoked.outcome) Fair := by
  induction retries generalizing retryErrors made with
  | zero =>
    unfold attempts
    refine (runTool_given ht hn).bind fun outcome h => ?_
    cases outcome <;> exact .pure h
  | succ retries ih =>
    unfold attempts
    refine (runTool_given ht hn).bind fun outcome h => ?_
    cases outcome with
    | ok outputs => exact .pure h
    | error e =>
      dsimp only
      split
      · exact ih _ _
      · exact .pure h

theorem invokeTool_given (ht : Trusted executor reflection A Fair) (hn : Returns Inv A nested)
    (policy : Option RetryPolicy) :
    (frame Inv).Given A (executor.invokeTool nested info tool inputs policy)
      (fun invoked => Returned reflection tool invoked.outcome) Fair := by
  unfold invokeTool
  split
  · exact attempts_given ht hn _ _ _ _
  · split
    · refine (runTool_given ht hn).bind fun outcome h => ?_
      cases outcome <;> exact .pure h
    · split
      · exact .pure trivial
      · exact attempts_given ht hn _ _ _ _

end Executor

end ChainWeaver
