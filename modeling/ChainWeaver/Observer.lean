import ChainWeaver.Data.Windows
import ChainWeaver.Topology
import Mathlib.Data.List.Sort

/-!
# The observer

`ChainObserver` mines the tool sequences of recorded traces for repeated patterns and
proposes flows for them. A pattern that stands inside another one of the same frequency
is left out; it stands nowhere else.
-/

namespace ChainWeaver.Observer

open Counting (counter mem_counter total)
open Windows (slice occurrences InsideAt)

-- Recorded traces

structure ObservedStep where
  toolName : String
  inputs : Dict
  outputs : Option Dict := none

structure ObservedTrace where
  traceId : String
  source : String
  steps : List ObservedStep

def ObservedTrace.toolNames (trace : ObservedTrace) : List String := trace.steps.map (·.toolName)

structure ChainObserver where
  maxTraces : Option Nat := none
  completed : List ObservedTrace := []

/-- The last `maxTraces` traces. -/
def retained (maxTraces : Option Nat) (traces : List ObservedTrace) : List ObservedTrace :=
  match maxTraces with
  | none => traces
  | some maxTraces => traces.drop (traces.length - maxTraces)

def fromTraces (traces : List ObservedTrace) (maxTraces : Option Int) : Except String ChainObserver :=
  match maxTraces with
  | none => .ok { completed := traces.filter (!·.steps.isEmpty) }
  | some cap =>
    if cap < 1 then .error s!"max_traces must be >= 1 or None, got {cap}."
    else .ok
      { maxTraces := some cap.toNat
        completed := retained (some cap.toNat) (traces.filter (!·.steps.isEmpty)) }

-- Mining

/-- The patterns that begin at a place of a sequence, shorter ones first. -/
def patternsAt (minLength cap : Nat) (seq : List String) (start : Nat) : List (List String) :=
  let upper := min cap (seq.length - start)
  (List.range' minLength (upper + 1 - minLength)).map fun length => slice start length seq

def capOf (maxLength : Option Nat) (seq : List String) : Nat :=
  match maxLength with
  | none => seq.length
  | some maxLength => min maxLength seq.length

/-- What the two inner loops count for one trace. -/
def patterns (minLength : Nat) (maxLength : Option Nat) (seq : List String) : List (List String) :=
  (List.range seq.length).flatMap (patternsAt minLength (capOf maxLength seq) seq)

/-- Every counted pattern with the trace and the place it was seen at. -/
def sightings (minLength : Nat) (maxLength : Option Nat) (traces : List ObservedTrace) :
    List (List String × (ObservedTrace × Nat)) :=
  traces.flatMap fun trace => (List.range trace.toolNames.length).flatMap fun start =>
    (patternsAt minLength (capOf maxLength trace.toolNames) trace.toolNames start).map fun pattern =>
      (pattern, (trace, start))

/-- `_is_contiguous_subsequence`. -/
def isContiguousSubsequence (short long : List String) : Bool :=
  if short.length ≥ long.length then false
  else (List.range (long.length - short.length + 1)).any fun i => slice i short.length long = short

/-- `_collapse_subsumed`. -/
def collapseSubsumed (qualifying : List (List String × Nat)) : List (List String × Nat) :=
  qualifying.filter fun entry => !qualifying.any fun other =>
    other.1 ≠ entry.1 && other.2 = entry.2 && isContiguousSubsequence entry.1 other.1

-- Proposals

section

variable (hashing : Hashing)

/-- The steps of the flow, `upstream` being the keys put out so far. The first step
takes all its inputs from the initial context. -/
def buildSteps (first : Bool) (upstream : List String) : List ObservedStep → List FlowStep
  | [] => []
  | observed :: rest =>
    let inputKeys := hashing.setOrder observed.inputs.keys
    let mapped := if first then inputKeys else inputKeys.filter (upstream.contains ·)
    let produced := (observed.outputs.map OrderedDict.keys).getD []
    { target := .tool observed.toolName, inputMapping := .ofList (mapped.map fun key => (key, .str key)) } ::
      buildSteps false (upstream ++ produced) rest

/-- `_build_flow`. -/
def buildFlow (pattern : List String) (steps : List ObservedStep) (startPos : Nat) : Flow :=
  { name := "suggested__" ++ "__".intercalate pattern, version := "0.0.0"
    steps := buildSteps hashing true [] (slice startPos pattern.length steps) }

end

structure FlowSuggestion (R : Type) where
  flow : Flow
  tools : List String
  occurrences : Nat
  tracesWithPattern : Nat
  confidence : R
  exampleTrace : ObservedTrace

section

variable {R : Type}

/-- The order of the sort key. -/
def FlowSuggestion.Before (a b : FlowSuggestion R) : Prop :=
  b.occurrences < a.occurrences ∨ a.occurrences = b.occurrences ∧
    (b.tools.length < a.tools.length ∨ a.tools.length = b.tools.length ∧ a.flow.name ≤ b.flow.name)

instance : DecidableRel (FlowSuggestion.Before (R := R)) := fun _ _ => inferInstanceAs (Decidable (_ ∨ _))

/- The rounded quotient of two counts. -/
variable (hashing : Hashing) (ratio : Nat → Nat → R)

/-- The number of traces whose mined patterns, or tools, hold the item. -/
def tracesWith [BEq α] (item : α) (seqs : List (List α)) : Nat :=
  (seqs.flatMap List.eraseDups).count item

def suggestion (minLength : Nat) (maxLength : Option Nat) (traces : List ObservedTrace)
    (entry : List String × Nat) : Option (FlowSuggestion R) := do
  let (pattern, count) := entry
  let (example', startPos) ← (sightings minLength maxLength traces).lookup pattern
  let startTotal := match pattern with
    | [] => 0
    | startTool :: _ => tracesWith startTool (traces.map ObservedTrace.toolNames)
  let withPattern := tracesWith pattern (traces.map fun trace => patterns minLength maxLength trace.toolNames)
  pure
    { flow := buildFlow hashing pattern example'.steps startPos, tools := pattern, occurrences := count
      tracesWithPattern := withPattern, confidence := ratio withPattern startTotal, exampleTrace := example' }

/-- What a call reports after its checks. -/
def report (minOccurrences minLength : Nat) (maxLength : Option Nat) (collapse : Bool)
    (traces : List ObservedTrace) : List (FlowSuggestion R) :=
  let mined := counter (traces.flatMap fun trace => patterns minLength maxLength trace.toolNames)
  let qualifying := mined.filter fun entry => minOccurrences ≤ entry.2
  let kept := if collapse then collapseSubsumed qualifying else qualifying
  (kept.filterMap (suggestion hashing ratio minLength maxLength traces)).insertionSort FlowSuggestion.Before

def ChainObserver.suggestFlows (observer : ChainObserver) (minOccurrences minLength : Int) (maxLength : Option Int)
    (collapse : Bool) : Except String (List (FlowSuggestion R)) :=
  if minOccurrences < 1 then .error s!"min_occurrences must be >= 1, got {minOccurrences}."
  else if minLength < 1 then .error s!"min_length must be >= 1, got {minLength}."
  else
    match maxLength with
    | none => .ok (report hashing ratio minOccurrences.toNat minLength.toNat none collapse observer.completed)
    | some cap =>
      if cap < minLength then .error s!"max_length must be >= min_length ({minLength}), got {cap}."
      else .ok
        (report hashing ratio minOccurrences.toNat minLength.toNat (some cap.toNat) collapse observer.completed)

end

end ChainWeaver.Observer
