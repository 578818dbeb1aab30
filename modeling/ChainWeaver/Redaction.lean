import ChainWeaver.Record
import Mathlib.Logic.Relation

/-!
# Redaction

`RedactionPolicy` of `log_utils.py`, and which parts of a result it masks.
-/

namespace ChainWeaver

def defaultRedactKeys : List String := ["password", "token", "api_key", "apikey", "secret", "authorization"]

structure RedactionPolicy where
  redactKeys : List String := defaultRedactKeys
  /-- The pattern's `sub(replacement, text)`. -/
  redactPattern : Option (String → String → String) := none
  maxValueLength : Option Int := none
  redactReplacement : String := "***REDACTED***"

namespace RedactionPolicy

-- `lower` is `str.lower`, whatever the version of Unicode behind it.
variable (lower : String → String) (policy : RedactionPolicy)

def normalizedKeys : List String := policy.redactKeys.map lower

/-- The policy's keys match `key`. -/
def matchesKey (key : String) : Bool := (policy.normalizedKeys lower).contains (lower key)

/-- `value[:length]` -/
def upTo (length : Int) (value : String) : String :=
  String.ofList (value.toList.take (if length < 0 then length + value.length else length).toNat)

def applyString (value : String) : String :=
  let result :=
    match policy.redactPattern with
    | some sub => sub policy.redactReplacement value
    | none => value
  match policy.maxValueLength with
  | some length => if result.length > length then upTo length result ++ "…(truncated)" else result
  | none => result

mutual

def apply : Value → Value
  | .dict entries => .dict (applyEntries entries)
  | .list items => .list (applyItems items)
  | .tuple items => .tuple (applyItems items)
  | .str s => .str (policy.applyString s)
  | value => value

def applyItems : List Value → List Value
  | [] => []
  | item :: rest => apply item :: applyItems rest

def applyEntries : List (String × Value) → List (String × Value)
  | [] => []
  | (key, value) :: rest =>
    (key, if policy.matchesKey lower key then .str policy.redactReplacement else apply value) ::
      applyEntries rest

end

theorem applyEntries_keys (entries : List (String × Value)) :
    (policy.applyEntries lower entries).map Prod.fst = entries.map Prod.fst := by
  induction entries with
  | nil => rfl
  | cons entry rest ih => rw [applyEntries, List.map_cons, List.map_cons, ih]

def redact (data : Dict) : Dict :=
  ⟨policy.applyEntries lower data.entries, by rw [applyEntries_keys]; exact data.nodup⟩

def redactText (text : String) : String := policy.applyString text

def redactStepRecord (step : StepRecord) : StepRecord :=
  { step with
    inputs := policy.redact lower step.inputs
    outputs := step.outputs.map (policy.redact lower) }

def redactExecutionResult (result : ExecutionResult) : ExecutionResult :=
  { result with
    executionLog := result.executionLog.map (policy.redactStepRecord lower)
    initialInput := policy.redact lower result.initialInput
    finalOutput := result.finalOutput.map (policy.redact lower) }

-- Masked values

mutual

/-- Under every matching key, at any depth of dicts, lists and tuples, stands the
replacement. -/
def Masked : Value → Prop
  | .dict entries => MaskedEntries entries
  | .list items => MaskedItems items
  | .tuple items => MaskedItems items
  | _ => True

def MaskedItems : List Value → Prop
  | [] => True
  | item :: rest => Masked item ∧ MaskedItems rest

def MaskedEntries : List (String × Value) → Prop
  | [] => True
  | (key, value) :: rest =>
    (if policy.matchesKey lower key then value = .str policy.redactReplacement else Masked value) ∧
      MaskedEntries rest

end

def MaskedDict (data : Dict) : Prop := policy.MaskedEntries lower data.entries

variable {lower policy}

mutual

theorem masked_apply (value : Value) : policy.Masked lower (policy.apply lower value) := by
  cases value with
  | dict entries => exact maskedEntries_apply entries
  | list items | tuple items => exact maskedItems_apply items
  | _ => exact trivial

theorem maskedItems_apply (items : List Value) : policy.MaskedItems lower (policy.applyItems lower items) := by
  cases items with
  | nil => exact trivial
  | cons item rest => exact ⟨masked_apply item, maskedItems_apply rest⟩

theorem maskedEntries_apply (entries : List (String × Value)) :
    policy.MaskedEntries lower (policy.applyEntries lower entries) := by
  match entries with
  | [] => exact trivial
  | (key, value) :: rest =>
    refine ⟨?_, maskedEntries_apply rest⟩
    split
    · rfl
    · exact masked_apply value

end

theorem maskedDict_redact (data : Dict) : policy.MaskedDict lower (policy.redact lower data) :=
  maskedEntries_apply data.entries

-- Masked results

/-- `sub_result` of a step of `result` is `sub`. -/
def SubResult (result sub : ExecutionResult) : Prop :=
  ∃ step ∈ result.executionLog, step.subResult = some sub

/-- A result with the results nested in it, to any depth. -/
abbrev Nested : ExecutionResult → ExecutionResult → Prop := Relation.ReflTransGen SubResult

/-- The result's own dicts are masked; nested results aside. -/
structure MaskedHere (lower : String → String) (policy : RedactionPolicy) (result : ExecutionResult) : Prop where
  initialInput : policy.MaskedDict lower result.initialInput
  finalOutput : ∀ output ∈ result.finalOutput, policy.MaskedDict lower output
  inputs : ∀ step ∈ result.executionLog, policy.MaskedDict lower step.inputs
  outputs : ∀ step ∈ result.executionLog, ∀ outputs ∈ step.outputs, policy.MaskedDict lower outputs

/-- The result is masked, and so is every result nested in it. -/
def MaskedResult (lower : String → String) (policy : RedactionPolicy) (result : ExecutionResult) : Prop :=
  ∀ nested, Nested result nested → policy.MaskedHere lower nested

theorem maskedHere_redact (result : ExecutionResult) :
    policy.MaskedHere lower (policy.redactExecutionResult lower result) where
  initialInput := maskedDict_redact result.initialInput
  finalOutput := by
    intro output h
    obtain ⟨raw, -, rfl⟩ := Option.map_eq_some_iff.1 h
    exact maskedDict_redact raw
  inputs := by
    intro step h
    obtain ⟨raw, -, rfl⟩ := List.mem_map.1 h
    exact maskedDict_redact raw.inputs
  outputs := by
    intro step h outputs houtputs
    obtain ⟨raw, -, rfl⟩ := List.mem_map.1 h
    obtain ⟨own, -, rfl⟩ := Option.map_eq_some_iff.1 houtputs
    exact maskedDict_redact own

@[simp] theorem subResult_redact :
    SubResult (policy.redactExecutionResult lower result) sub ↔ SubResult result sub := by
  simp [SubResult, redactExecutionResult, redactStepRecord]

/-- Redaction leaves nested results as they are, so they must have been masked before. -/
theorem maskedResult_redact (result : ExecutionResult) :
    policy.MaskedResult lower (policy.redactExecutionResult lower result) ↔
      ∀ sub, SubResult result sub → policy.MaskedResult lower sub := by
  constructor
  · intro h sub hsub nested hnested
    exact h nested (.head (subResult_redact.2 hsub) hnested)
  · intro h nested hnested
    obtain rfl | ⟨sub, hsub, hnested⟩ := Relation.ReflTransGen.cases_head hnested
    · exact maskedHere_redact result
    · exact h sub (subResult_redact.1 hsub) nested hnested

end RedactionPolicy

end ChainWeaver
