import ChainWeaver.Data.Windows
import ChainWeaver.Flow
import Mathlib.Data.Finset.Dedup

/-!
# Coding-agent traces

Scoring, drafting and backtesting of candidate sequences (`traces.py`). Each function
looks for the windows of a sequence in the sessions anew.
-/

namespace ChainWeaver.AgentTraces

open Counting (counter total)
open Windows (slice starts occurrences)

-- Events

inductive TraceEventKind
  | toolCall | modelCall
  deriving DecidableEq

structure AgentTraceEvent where
  sessionId : String
  event : TraceEventKind
  tool : Option String := none
  args : Dict := .empty
  resultStatus : Option String := none
  outputKeys : List String := []
  inputTokens : Option Int := none
  outputTokens : Option Int := none

/-- The tool name of an event, if it has one that is not empty. -/
def AgentTraceEvent.named (event : AgentTraceEvent) : Option String := event.tool.filter (· ≠ "")

def AgentTraceEvent.isToolCall (event : AgentTraceEvent) : Bool := event.event = .toolCall && event.named.isSome

/-- `_group_tool_events`: the events of each session, in order. -/
def groupToolEvents (events : List AgentTraceEvent) : OrderedDict (List AgentTraceEvent) :=
  events.foldl (fun grouped event =>
    grouped.insert event.sessionId ((grouped.get? event.sessionId).getD [] ++ [event])) .empty

/-- The sessions with their ids. -/
abbrev sessions (events : List AgentTraceEvent) : List (String × List AgentTraceEvent) :=
  (groupToolEvents events).entries

-- Windows

/-- `_find_windows`: the number of matches in each sequence of names. -/
def findWindows (sequences : List (List String)) (sequence : List String) : List Nat :=
  sequences.map fun seq => (occurrences sequence seq).length

/-- The tool calls of a session. -/
def toolEvents (session : List AgentTraceEvent) : List AgentTraceEvent := session.filter (·.isToolCall)

/-- `_iter_windows`. -/
def iterWindows (session : List AgentTraceEvent) (sequence : List String) : List (List AgentTraceEvent) :=
  ((starts sequence.length (toolEvents session)).map (slice · sequence.length (toolEvents session))).filter
    fun window => window.map (·.tool) = sequence.map some

-- Scores

/-- The windows that `_success_rate` goes over, and those without an error. -/
def successTally (perSession : List (List AgentTraceEvent)) (sequence : List String) : Nat × Nat :=
  let windows := perSession.flatMap (iterWindows · sequence)
  (windows.length, windows.countP fun window => window.all (·.resultStatus ≠ some "error"))

def successRate (perSession : List (List AgentTraceEvent)) (sequence : List String) : Float :=
  let (total, ok) := successTally perSession sequence
  if total = 0 then 1.0 else ok.toFloat / total.toFloat

/-- The windows that `_schema_stability` goes over, by the argument names at each place. -/
def stabilityShapes (perSession : List (List AgentTraceEvent)) (sequence : List String) : List (List (Finset String)) :=
  (perSession.flatMap (iterWindows · sequence)).map fun window => window.map (·.args.keys.toFinset)

def schemaStability (perSession : List (List AgentTraceEvent)) (sequence : List String) : Float :=
  let shapes := stabilityShapes perSession sequence
  if shapes.length ≤ 1 then 1.0
  else
    let positionScores := (List.range sequence.length).map fun position =>
      let mostCommon := ((counter (shapes.filterMap (·[position]?))).map Prod.snd).foldl max 0
      mostCommon.toFloat / shapes.length.toFloat
    positionScores.foldl (· + ·) 0.0 / positionScores.length.toFloat

/-- `_determinism`. -/
def determinism (nameSequences : List (List String)) (sequence : List String) : Float :=
  if sequence.length < 2 then 1.0
  else
    let followers := (sequence.zip sequence.tail).flatMap fun (current, expectedNext) =>
      nameSequences.flatMap fun seq =>
        ((seq.zip seq.tail).filter fun pair => pair.1 = current).map fun pair => decide (pair.2 = expectedNext)
    if followers.length = 0 then 1.0 else (followers.countP id).toFloat / followers.length.toFloat

/-- `round(median(samples))`: halves go to the even neighbour. -/
def roundedMedian (samples : List Int) : Int :=
  let sorted := samples.mergeSort (· ≤ ·)
  let half := sorted.length / 2
  if sorted.length = 0 then 0
  else if sorted.length % 2 = 1 then sorted.getD half 0
  else
    let sum := sorted.getD (half - 1) 0 + sorted.getD half 0
    if sum % 2 = 0 then sum / 2 else if sum / 2 % 2 = 0 then sum / 2 else sum / 2 + 1

/-- The model calls inside the span of each window of a session. -/
def tokenSamples (session : List AgentTraceEvent) (sequence : List String) : List (List AgentTraceEvent) :=
  let positions := session.zipIdx.filterMap fun (event, index) => if event.isToolCall then some index else none
  let toolNames := positions.map fun index => (session[index]?).bind (·.tool)
  ((starts sequence.length positions).filter fun start =>
    slice start sequence.length toolNames = sequence.map some).map fun start =>
      let first := positions.getD start 0
      let last := positions.getD (start + sequence.length - 1) 0
      (slice first (last + 1 - first) session).filter fun event => event.event = .modelCall

def tokenSavings (perSession : List (List AgentTraceEvent)) (sequence : List String) : Int × Int :=
  let samples := perSession.flatMap (tokenSamples · sequence)
  let sums (tokens : AgentTraceEvent → Option Int) :=
    samples.map fun modelCalls => (modelCalls.filterMap tokens).foldl (· + ·) 0
  (roundedMedian (sums (·.inputTokens)), roundedMedian (sums (·.outputTokens)))

inductive SafetyLevel
  | readOnly | sideEffecting | unknown
  deriving DecidableEq

def readOnlyVerbs : List String :=
  ["search", "read", "get", "list", "inspect", "fetch", "show", "find", "summarize", "diff"]

def sideEffectVerbs : List String :=
  ["write", "edit", "delete", "create", "comment", "run", "post", "apply", "update", "push"]

/-- The first word of the part after the last dot. -/
def leafVerb (name : String) : String :=
  let chars := name.toList.map fun c => if c = '-' then '_' else c
  let leaf := (chars.reverse.takeWhile (· ≠ '.')).reverse
  String.ofList (leaf.takeWhile (· ≠ '_'))

inductive Recommendation
  | safeToDraft | reviewNeeded | doNotCompile
  deriving DecidableEq

def Recommendation.value : Recommendation → String
  | .safeToDraft => "safe_to_draft" | .reviewNeeded => "review_needed" | .doNotCompile => "do_not_compile"

structure CandidateScore where
  sequence : List String
  support : Nat
  sessions : Nat
  successRate : Float
  modelCallsRemovedPerRun : Nat
  estimatedInputTokensSaved : Int
  estimatedOutputTokensSaved : Int
  schemaStability : Float
  determinism : Float
  safetyLevel : SafetyLevel
  recommendation : Recommendation
  score : Float
  warnings : List String

/-- What scoring takes from Python's strings and floats. -/
structure Texts where
  lower : String → String
  /-- `round(x, 4)`. -/
  round4 : Float → Float
  /-- `format(x, ".0%")`. -/
  percent : Float → String

def classifySafety (texts : Texts) (sequence : List String) : SafetyLevel :=
  let leaves := sequence.map fun name => texts.lower (leafVerb name)
  if leaves.any (sideEffectVerbs.contains ·) then .sideEffecting
  else if !leaves.isEmpty && leaves.all (readOnlyVerbs.contains ·) then .readOnly
  else .unknown

def candidateWarnings (texts : Texts) (support : Nat) (successRate stability determinism : Float)
    (safety : SafetyLevel) : List String :=
  (if support < 3 then [s!"Low support: seen only {support} time(s)."] else []) ++
    (if successRate < 0.9 then [s!"Success rate {texts.percent successRate} below 90%."] else []) ++
    (if stability < 0.8 then [s!"Unstable argument shapes (stability {texts.percent stability})."] else []) ++
    (if determinism < 0.8 then [s!"Path is not consistently deterministic ({texts.percent determinism})."] else []) ++
    match safety with
    | .sideEffecting => ["Sequence includes side-effecting tools; compile only with guards."]
    | .unknown => ["Side-effect safety is unknown; classify tools before promotion."]
    | .readOnly => []

def combineScore (support : Nat) (successRate stability determinism : Float) (safety : SafetyLevel) : Float :=
  let supportFactor := (min support 10).toFloat / 10.0
  let safetyFactor := match safety with
    | .readOnly => 1.0 | .unknown => 0.6 | .sideEffecting => 0.3
  let raw := 0.25 * supportFactor + 0.25 * successRate + 0.20 * stability + 0.20 * determinism + 0.10 * safetyFactor
  let capped := if raw < 1.0 then raw else 1.0
  if capped > 0.0 then capped else 0.0

def recommend (score : Float) (safety : SafetyLevel) (warnings : List String) : Recommendation :=
  if safety = .sideEffecting then .doNotCompile
  else if score ≥ 0.75 && warnings.isEmpty then .safeToDraft
  else .reviewNeeded

def scoreCandidate (texts : Texts) (events : List AgentTraceEvent) (sequence : List String) :
    Except String CandidateScore :=
  if sequence.isEmpty then .error "sequence must contain at least one tool."
  else
    let perSession := (sessions events).map Prod.snd
    let nameSequences := perSession.map (·.filterMap (·.named))
    let matchCounts := findWindows nameSequences sequence
    let support := total matchCounts
    let successRate := successRate perSession sequence
    let stability := schemaStability perSession sequence
    let determinism := determinism nameSequences sequence
    let (inTokens, outTokens) := tokenSavings perSession sequence
    let safety := classifySafety texts sequence
    let warnings := candidateWarnings texts support successRate stability determinism safety
    let score := combineScore support successRate stability determinism safety
    .ok
      { sequence, support, sessions := matchCounts.countP (0 < ·), successRate := texts.round4 successRate
        modelCallsRemovedPerRun := sequence.length, estimatedInputTokensSaved := inTokens
        estimatedOutputTokensSaved := outTokens, schemaStability := texts.round4 stability
        determinism := texts.round4 determinism, safetyLevel := safety
        recommendation := recommend score safety warnings, score := texts.round4 score, warnings }

-- Drafts

/-- `_representative_window`. -/
def representativeWindow (events : List AgentTraceEvent) (sequence : List String) : List AgentTraceEvent :=
  match (sessions events).findSome? fun session => (iterWindows session.2 sequence).head? with
  | some window => window
  | none => sequence.map fun tool => { sessionId := "__synthetic__", event := .toolCall, tool := some tool }

/-- The keys in the order of `sorted`. -/
def sortedKeys (keys : List String) : List String := keys.mergeSort (· ≤ ·)

/-- The steps of a draft with their warnings. -/
def draftSteps (position : Nat) (upstream : List String) : List AgentTraceEvent → List FlowStep × List String
  | [] => ([], [])
  | observed :: rest =>
    let inputKeys := sortedKeys observed.args.keys
    let mapped := if position = 0 then inputKeys else inputKeys.filter (upstream.contains ·)
    let missing := if position = 0 then [] else inputKeys.filter (!upstream.contains ·)
    let toolText := observed.tool.getD "None"
    let warnings := missing.map fun key =>
      s!"Step {position} ('{toolText}') argument '{key}' has no upstream " ++
        "producer; map it manually before promotion."
    let (steps, later) := draftSteps (position + 1) (upstream ++ observed.outputKeys) rest
    ({ target := .tool (observed.named.getD ""), inputMapping := .ofList (mapped.map fun key => (key, .str key)) } ::
      steps, warnings ++ later)

def candidateFlowName (sequence : List String) : String :=
  let cleaned := sequence.map fun name =>
    String.ofList (name.toList.map fun c => if c = '.' || c = '-' then '_' else c)
  "draft__" ++ "__".intercalate cleaned

structure FlowGovernance where
  replacesTools : List String
  estimatedModelCallsRemoved : Nat
  estimatedTokenSavings : Int
  reviewNotes : String

structure DraftFlow where
  flow : Flow
  governance : FlowGovernance
  score : CandidateScore
  warnings : List String

/-- `draft_flow_from_candidate`. The governance model refuses negative savings. -/
def draftFlowFromCandidate (events : List AgentTraceEvent) (score : CandidateScore) (name : Option String) :
    Except String DraftFlow :=
  let (steps, warnings) := draftSteps 0 [] (representativeWindow events score.sequence)
  let savings := (score.estimatedInputTokensSaved + score.estimatedOutputTokensSaved) * score.support
  if savings < 0 then .error "estimated_token_savings: Input should be greater than or equal to 0"
  else .ok
    { flow := { name := (name.filter (· ≠ "")).getD (candidateFlowName score.sequence), version := "0.0.0", steps }
      governance :=
        { replacesTools := score.sequence, estimatedModelCallsRemoved := score.modelCallsRemovedPerRun * score.support
          estimatedTokenSavings := savings, reviewNotes := s!"recommendation={score.recommendation.value}" }
      score, warnings := score.warnings ++ warnings }

-- Backtests

structure BacktestMismatch where
  sessionId : String
  stepIndex : Nat
  toolName : String
  reason : String

structure BacktestReport where
  flowName : String
  examplesTested : Nat
  passedInputShape : Nat
  producedExpectedOutput : Nat
  mismatches : List BacktestMismatch

/-- `step.tool_name or step.flow_name or ""`. -/
def stepName (step : FlowStep) : String :=
  match step.target with
  | .tool name => name
  | .flow name => name

/-- The mapped fields that a call did not supply. -/
def missingFields (step : FlowStep) (event : AgentTraceEvent) : List String :=
  step.inputMapping.keys.filter (!event.args.contains ·)

def stepMismatches (sessionId : String) (stepIndex : Nat) (step : FlowStep) (event : AgentTraceEvent) :
    List BacktestMismatch :=
  let missing := missingFields step event
  let listed := ", ".intercalate (sortedKeys missing)
  (if missing.isEmpty then [] else
    [{ sessionId, stepIndex, toolName := stepName step, reason := s!"missing input field(s): {listed}" }]) ++
    (if event.resultStatus = some "error" then
      [{ sessionId, stepIndex, toolName := stepName step, reason := "step reported an error status" }]
    else [])

def shapeOk (flow : Flow) (window : List AgentTraceEvent) : Bool :=
  (flow.steps.zip window).all fun (step, event) => (missingFields step event).isEmpty

def statusOk (flow : Flow) (window : List AgentTraceEvent) : Bool :=
  (flow.steps.zip window).all fun (_, event) => event.resultStatus ≠ some "error"

def backtestFlow (flow : Flow) (events : List AgentTraceEvent) : BacktestReport :=
  let sequence := flow.steps.map stepName
  let examples := (sessions events).flatMap fun (sessionId, session) =>
    (iterWindows session sequence).map fun window => (sessionId, window)
  { flowName := flow.name, examplesTested := examples.length
    passedInputShape := examples.countP fun (_, window) => shapeOk flow window
    producedExpectedOutput := examples.countP fun (_, window) => shapeOk flow window && statusOk flow window
    mismatches := examples.flatMap fun (sessionId, window) =>
      (flow.steps.zip window).zipIdx.flatMap fun ((step, event), stepIndex) =>
        stepMismatches sessionId stepIndex step event }

end ChainWeaver.AgentTraces
