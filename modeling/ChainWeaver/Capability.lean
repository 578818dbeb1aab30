import ChainWeaver.Dag

/-!
# Capability steps against tool steps

`KernelBackedExecutor` reads an input mapping by a loop of its own, which knows no
pointers. Both loops read entry after entry, so they differ where an entry does.
-/

namespace ChainWeaver.Executor

-- Reading a mapping entry by entry

/-- The inputs that `reading` gives for the sources, `none` from the first source
without a value. -/
def readAll (reading : Value → Option Value) : List (String × Value) → Dict → Option Dict
  | [], inputs => some inputs
  | (key, source) :: rest, inputs => (reading source).bind fun value => readAll reading rest (inputs.insert key value)

section ReadAll

variable {reading other : Value → Option Value} {pairs : List (String × Value)} {inputs result : Dict}

theorem readAll_eq_none : readAll reading pairs inputs = none ↔ ∃ pair ∈ pairs, reading pair.2 = none := by
  induction pairs generalizing inputs with
  | nil => simp [readAll]
  | cons pair rest ih =>
    cases hvalue : reading pair.2 with
    | none => simp [readAll, hvalue]
    | some value => simp [readAll, hvalue, ih]

theorem readAll_congr (h : ∀ pair ∈ pairs, reading pair.2 = other pair.2) :
    readAll reading pairs inputs = readAll other pairs inputs := by
  induction pairs generalizing inputs with
  | nil => rfl
  | cons pair rest ih =>
    have hrest : ∀ value, readAll reading rest (inputs.insert pair.1 value) =
        readAll other rest (inputs.insert pair.1 value) :=
      fun value => ih fun p hp => h p (List.mem_cons_of_mem _ hp)
    simp only [readAll, h pair List.mem_cons_self, hrest]

theorem readAll_other_key (h : readAll reading pairs inputs = some result) (hkey : key ∉ pairs.map Prod.fst) :
    result.get? key = inputs.get? key := by
  induction pairs generalizing inputs with
  | nil =>
    cases h
    rfl
  | cons pair rest ih =>
    obtain ⟨value, _, hrest⟩ := Option.bind_eq_some_iff.1 h
    rw [List.map_cons, List.mem_cons, not_or] at hkey
    rw [ih hrest hkey.2, OrderedDict.get?_insert, if_neg hkey.1]

/-- Each key gets the value of its own source. -/
theorem readAll_get? (hnodup : (pairs.map Prod.fst).Nodup) (h : readAll reading pairs inputs = some result)
    (hmem : (key, source) ∈ pairs) : result.get? key = reading source := by
  induction pairs generalizing inputs with
  | nil => cases hmem
  | cons pair rest ih =>
    obtain ⟨value, hvalue, hrest⟩ := Option.bind_eq_some_iff.1 h
    rw [List.map_cons, List.nodup_cons] at hnodup
    rcases List.mem_cons.1 hmem with rfl | hmem
    · rw [readAll_other_key hrest hnodup.1, OrderedDict.get?_insert, if_pos rfl, hvalue]
    · exact ih hnodup.2 hrest hmem

/-- Two readings give the same inputs exactly if they agree on every source, or
each finds no value for some source. -/
theorem readAll_eq_iff (hnodup : (pairs.map Prod.fst).Nodup) :
    readAll reading pairs inputs = readAll other pairs inputs ↔
      (∀ pair ∈ pairs, reading pair.2 = other pair.2) ∨
        (∃ pair ∈ pairs, reading pair.2 = none) ∧ ∃ pair ∈ pairs, other pair.2 = none := by
  constructor
  · intro heq
    cases hresult : readAll reading pairs inputs with
    | none => exact .inr ⟨readAll_eq_none.1 hresult, readAll_eq_none.1 (heq ▸ hresult)⟩
    | some result =>
      refine .inl fun pair hpair => ?_
      obtain ⟨key, source⟩ := pair
      exact (readAll_get? hnodup hresult hpair).symm.trans (readAll_get? hnodup (heq ▸ hresult) hpair)
  · rintro (hall | ⟨hfirst, hsecond⟩)
    · exact readAll_congr hall
    · rw [readAll_eq_none.2 hfirst, readAll_eq_none.2 hsecond]

end ReadAll

-- The two readings

/-- What a source stands for in a tool step. -/
def toolReading (context : Dict) : Value → Option Value
  | .str source =>
    if Pointer.isPointer source then (Pointer.resolvePointer (.dict context.entries) source).toOption
    else context.get? source
  | literal => some literal

/-- What a source stands for in a capability step. -/
def capabilityReading (context : Dict) : Value → Option Value
  | .str source => context.get? source
  | literal => some literal

theorem resolveSource_reading (context : Dict) (label : String) (stepIndex : Int) (source : Value) :
    (resolveSource context label stepIndex source).toOption = toolReading context source := by
  cases source with
  | str source =>
    rw [resolveSource, toolReading]
    by_cases hpointer : Pointer.isPointer source = true
    · rw [if_pos hpointer, if_pos hpointer]
      cases Pointer.resolvePointer (.dict context.entries) source <;> rfl
    · rw [if_neg hpointer, if_neg hpointer]
      cases context.get? source <;> rfl
  | _ => rfl

theorem resolveAll_readAll {context : Dict} {label : String} {stepIndex : Int} (pairs : List (String × Value))
    (inputs : Dict) :
    (resolveAll context label stepIndex pairs inputs).toOption = readAll (toolReading context) pairs inputs := by
  induction pairs generalizing inputs with
  | nil => rfl
  | cons pair rest ih =>
    rw [resolveAll, readAll, ← resolveSource_reading context label stepIndex pair.2]
    cases resolveSource context label stepIndex pair.2 with
    | error e => rfl
    | ok value => exact ih _

theorem capabilityInputs_readAll {context : Dict} (pairs : List (String × Value)) (inputs : Dict) :
    (capabilityInputs context pairs inputs).toOption = readAll (capabilityReading context) pairs inputs := by
  induction pairs generalizing inputs with
  | nil => rfl
  | cons pair rest ih =>
    obtain ⟨key, source⟩ := pair
    cases source with
    | str source =>
      rw [capabilityInputs, readAll, capabilityReading]
      cases context.get? source with
      | none => rfl
      | some value => exact ih _
    | _ => exact ih _

/-- The inputs of a tool step with the mapping, where it has any. -/
def toolInputs (step : FlowStep) (context : Dict) : Option Dict :=
  if step.inputMapping.isEmpty then some context else readAll (toolReading context) step.inputMapping.entries .empty

theorem resolveInputs_toolInputs (step : FlowStep) (context : Dict) (stepIndex : Int) :
    (resolveInputs step context stepIndex).toOption = toolInputs step context := by
  unfold resolveInputs toolInputs
  split
  · rfl
  · exact resolveAll_readAll _ _

theorem resolveCapabilityInputs_readAll (step : DAGFlowStep) (context : Dict) :
    (resolveCapabilityInputs step context).toOption = if step.inputMapping.isEmpty then some context
      else readAll (capabilityReading context) step.inputMapping.entries .empty := by
  unfold resolveCapabilityInputs
  split
  · rfl
  · exact capabilityInputs_readAll _ _

-- The comparison

/-- On every path the capability is invoked once with the inputs a tool step would
get, and the step fails only by the kernel's answer; or the mapping fails for a
tool step, and the capability step fails without a call. -/
def Agrees (kernel : Kernel) (stepIndex : Nat) (step : DAGFlowStep) (name : String) (context : Dict) : Prop :=
  ∀ state events result state', (invokeCapability kernel stepIndex step name context).Runs state events result state' →
    match (resolveInputs step.toFlowStep context stepIndex).toOption with
    | some inputs => ∃ capabilityId reply record, step.capabilityId = some capabilityId ∧
        events = [⟨.kernelInvoke, { capabilityId, token := capabilityToken kernel capabilityId, inputs }, reply⟩] ∧
        result = .ok record ∧ (record.success = true ↔ ∃ entries, reply = .ok (.dict entries))
    | none => events = [] ∧ ∃ record, result = .ok record ∧ record.success = false

/-- Some source of the mapping stands for nothing in a tool step. -/
def Unresolved (step : DAGFlowStep) (context : Dict) : Prop :=
  ∃ key source, (key, .str source) ∈ step.inputMapping.entries ∧ toolReading context (.str source) = none

/-- Every pointer stands for the same value, or for none, whether it is followed or
looked up as a key; or some source fails in either reading. -/
def Alike (step : DAGFlowStep) (context : Dict) : Prop :=
  (∀ key source, (key, .str source) ∈ step.inputMapping.entries → Pointer.isPointer source = true →
      (Pointer.resolvePointer (.dict context.entries) source).toOption = context.get? source) ∨
    Unresolved step context ∧
      ∃ key source, (key, .str source) ∈ step.inputMapping.entries ∧ context.get? source = none

theorem reading_none {source : Value} (h : toolReading context source = none) : ∃ text, source = .str text := by
  cases source with
  | str text => exact ⟨text, rfl⟩
  | _ => cases h

theorem capabilityReading_none {source : Value} (h : capabilityReading context source = none) :
    ∃ text, source = .str text ∧ context.get? text = none := by
  cases source with
  | str text => exact ⟨text, rfl, h⟩
  | _ => cases h

theorem readings_eq {source : Value} : toolReading context source = capabilityReading context source ↔
    ∀ text, source = .str text → Pointer.isPointer text = true →
      (Pointer.resolvePointer (.dict context.entries) text).toOption = context.get? text := by
  cases source with
  | str text =>
    rw [toolReading, capabilityReading]
    by_cases hpointer : Pointer.isPointer text = true <;> simp [hpointer]
  | _ => simp [toolReading, capabilityReading]

theorem alike_iff {step : DAGFlowStep} {context : Dict} :
    Alike step context ↔ toolInputs step.toFlowStep context = (resolveCapabilityInputs step context).toOption := by
  rw [resolveCapabilityInputs_readAll, toolInputs]
  by_cases hempty : step.inputMapping.isEmpty = true
  · have hnil : step.inputMapping.entries = [] := List.isEmpty_iff.1 hempty
    simp [hempty, Alike, hnil]
  · rw [if_neg hempty, if_neg hempty, readAll_eq_iff step.inputMapping.nodup]
    constructor
    · rintro (hpointers | ⟨⟨key, source, hmem, hnone⟩, key', source', hmem', hnone'⟩)
      · refine .inl fun pair hpair => readings_eq.2 fun text htext => ?_
        exact hpointers pair.1 text (by rw [← htext]; exact hpair)
      · exact .inr ⟨⟨(key, .str source), hmem, hnone⟩, (key', .str source'), hmem', hnone'⟩
    · rintro (hall | ⟨⟨⟨key, source⟩, hmem, hnone⟩, ⟨key', source'⟩, hmem', hnone'⟩)
      · exact .inl fun key source hmem => readings_eq.1 (hall _ hmem) source rfl
      · obtain ⟨text, rfl⟩ := reading_none hnone
        obtain ⟨text', rfl, hget⟩ := capabilityReading_none hnone'
        exact .inr ⟨⟨key, text, hmem, hnone⟩, key', text', hmem', hget⟩

theorem unresolved_iff {step : DAGFlowStep} {context : Dict} :
    Unresolved step context ↔ toolInputs step.toFlowStep context = none := by
  rw [toolInputs]
  by_cases hempty : step.inputMapping.isEmpty = true
  · have hnil : step.inputMapping.entries = [] := List.isEmpty_iff.1 hempty
    simp [hempty, Unresolved, hnil]
  · rw [if_neg hempty, readAll_eq_none]
    constructor
    · rintro ⟨key, source, hmem, hnone⟩
      exact ⟨(key, .str source), hmem, hnone⟩
    · rintro ⟨⟨key, source⟩, hmem, hnone⟩
      obtain ⟨text, rfl⟩ := reading_none hnone
      exact ⟨key, text, hmem, hnone⟩

section Invoke

variable {kernel : Kernel} {stepIndex : Nat} {step : DAGFlowStep} {name : String} {context : Dict}
  {state state' : RunScopedState} {events : List Event} {result : Except Exc StepRecord}

theorem invokeCapability_unresolved (hin : (resolveCapabilityInputs step context).toOption = none)
    (h : (invokeCapability kernel stepIndex step name context).Runs state events result state') :
    events = [] ∧ ∃ record, result = .ok record ∧ record.success = false := by
  unfold invokeCapability at h
  cases hresolve : resolveCapabilityInputs step context with
  | ok inputs =>
    rw [hresolve] at hin
    cases hin
  | error key =>
    rw [hresolve] at h
    obtain ⟨rfl, rfl, rfl⟩ := Interaction.Comp.runs_pure.1 h
    exact ⟨rfl, _, rfl, rfl⟩

theorem invokeCapability_unnamed (hid : step.capabilityId = none)
    (h : (invokeCapability kernel stepIndex step name context).Runs state events result state') :
    events = [] ∧ ∃ record, result = .ok record ∧ record.success = false := by
  unfold invokeCapability at h
  cases hresolve : resolveCapabilityInputs step context <;> simp only [hresolve, hid] at h
  all_goals
    obtain ⟨rfl, rfl, rfl⟩ := Interaction.Comp.runs_pure.1 h
    exact ⟨rfl, _, rfl, rfl⟩

theorem invokeCapability_invokes {inputs : Dict} {capabilityId : String}
    (hin : (resolveCapabilityInputs step context).toOption = some inputs) (hid : step.capabilityId = some capabilityId)
    (h : (invokeCapability kernel stepIndex step name context).Runs state events result state') :
    ∃ reply record,
      events = [⟨.kernelInvoke, { capabilityId, token := capabilityToken kernel capabilityId, inputs }, reply⟩] ∧
      result = .ok record ∧ (record.success = true ↔ ∃ entries, reply = .ok (.dict entries)) := by
  unfold invokeCapability at h
  cases hresolve : resolveCapabilityInputs step context with
  | error key =>
    rw [hresolve] at hin
    cases hin
  | ok inputs' =>
    rw [hresolve] at hin
    cases hin
    simp only [hresolve, hid] at h
    rcases Interaction.Comp.runs_bind.1 h with ⟨first, reply, middle, second, rfl, hask, hrest⟩ | ⟨e, rfl, hask⟩
    · obtain ⟨reply, rfl, heq, rfl⟩ := Interaction.Comp.runs_ask.1 hask
      cases heq
      refine ⟨reply, ?_⟩
      split at hrest
      all_goals
        obtain ⟨rfl, rfl, rfl⟩ := Interaction.Comp.runs_pure.1 hrest
        refine ⟨_, rfl, rfl, ?_⟩
        simp_all [StepRecord.failWith, StepRecord.succeedWith]
    · obtain ⟨reply, _, heq, _⟩ := Interaction.Comp.runs_ask.1 hask
      cases heq

theorem ask_ends {α : Type} {kind : EffectKind} {query : kind.Query} {f : kind.Reply → Exec α} (reply : kind.Reply)
    (h : ∃ events result, (f reply).Runs state events result state') :
    ∃ events result, (perform kind query >>= f).Runs state events result state' := by
  obtain ⟨events, result, hrun⟩ := h
  exact ⟨⟨kind, query, reply⟩ :: events, result, Interaction.Prog.Runs.ask hrun⟩

theorem invokeCapability_ends (kernel : Kernel) (stepIndex : Nat) (step : DAGFlowStep) (name : String) (context : Dict)
    (state : RunScopedState) :
    ∃ events result, (invokeCapability kernel stepIndex step name context).Runs state events result state := by
  unfold invokeCapability
  cases hresolve : resolveCapabilityInputs step context with
  | error key => exact ⟨_, _, Interaction.Comp.runs_pure.2 ⟨rfl, rfl, rfl⟩⟩
  | ok inputs =>
    cases hid : step.capabilityId with
    | none => exact ⟨_, _, Interaction.Comp.runs_pure.2 ⟨rfl, rfl, rfl⟩⟩
    | some capabilityId =>
      exact ask_ends (.ok (.dict [])) ⟨_, _, Interaction.Comp.runs_pure.2 ⟨rfl, rfl, rfl⟩⟩

end Invoke

/-- A capability step agrees with a tool step of its mapping exactly if the step has a
capability and the two readings of its pointers come to the same, or it has none and
its mapping fails. -/
theorem agrees_iff (kernel : Kernel) (stepIndex : Nat) (step : DAGFlowStep) (name : String) (context : Dict) :
    Agrees kernel stepIndex step name context ↔
      if step.capabilityId.isSome then Alike step context else Unresolved step context := by
  cases hid : step.capabilityId with
  | none =>
    rw [if_neg (by simp), unresolved_iff, Agrees, resolveInputs_toolInputs]
    constructor
    · intro h
      obtain ⟨events, result, hrun⟩ := invokeCapability_ends kernel stepIndex step name context {}
      cases htool : toolInputs step.toFlowStep context with
      | none => rfl
      | some inputs =>
        have hinvoked := h _ _ _ _ hrun
        rw [htool] at hinvoked
        obtain ⟨capabilityId, _, _, hsome, _⟩ := hinvoked
        rw [hid] at hsome
        cases hsome
    · intro htool state events result state' hrun
      rw [htool]
      exact invokeCapability_unnamed hid hrun
  | some capabilityId =>
    rw [Option.isSome_some, if_pos rfl, alike_iff, Agrees, resolveInputs_toolInputs]
    constructor
    · intro h
      obtain ⟨events, result, hrun⟩ := invokeCapability_ends kernel stepIndex step name context {}
      have hagree := h _ _ _ _ hrun
      cases hcapability : (resolveCapabilityInputs step context).toOption with
      | none =>
        obtain ⟨rfl, _⟩ := invokeCapability_unresolved hcapability hrun
        cases htool : toolInputs step.toFlowStep context with
        | none => rfl
        | some inputs =>
          rw [htool] at hagree
          obtain ⟨_, _, _, _, hevents, _⟩ := hagree
          cases hevents
      | some inputs =>
        obtain ⟨_, _, rfl, _⟩ := invokeCapability_invokes hcapability hid hrun
        cases htool : toolInputs step.toFlowStep context with
        | none =>
          rw [htool] at hagree
          cases hagree.1
        | some inputs' =>
          rw [htool] at hagree
          obtain ⟨_, _, _, _, hevents, _⟩ := hagree
          cases hevents
          rfl
    · intro heq state events result state' hrun
      rw [heq]
      cases hcapability : (resolveCapabilityInputs step context).toOption with
      | none => exact invokeCapability_unresolved hcapability hrun
      | some inputs =>
        obtain ⟨reply, record, hevents, hresult, hsuccess⟩ := invokeCapability_invokes hcapability hid hrun
        exact ⟨capabilityId, reply, record, hid, hevents, hresult, hsuccess⟩

/-- A capability step that reads the pointer `/a/b`. -/
def nestedStep : DAGFlowStep :=
  { target := .tool "ingest", stepId := "ingest", stepType := .capability, capabilityId := some "data.ingest",
    inputMapping := .ofList [("x", .str "/a/b")] }

def nestedContext : Dict := .ofList [("a", .dict [("b", .int 1)])]

/-- The pointer resolves for a tool step; a capability step looks it up as a key. -/
theorem pointer_as_key : ¬ Agrees {} 0 nestedStep "ingest" nestedContext := by
  intro h
  obtain ⟨events, result, hrun⟩ := invokeCapability_ends {} 0 nestedStep "ingest" nestedContext {}
  have hagree := h _ _ _ _ hrun
  have hcapability : (resolveCapabilityInputs nestedStep nestedContext).toOption = none :=
    Option.isNone_iff_eq_none.1 (by decide +kernel)
  obtain ⟨rfl, _⟩ := invokeCapability_unresolved hcapability hrun
  have htool : (resolveInputs nestedStep.toFlowStep nestedContext (0 : Nat)).toOption.isSome = true := by decide +kernel
  obtain ⟨inputs, hinputs⟩ := Option.isSome_iff_exists.1 htool
  rw [hinputs] at hagree
  obtain ⟨_, _, _, _, hevents, _⟩ := hagree
  cases hevents

end ChainWeaver.Executor
