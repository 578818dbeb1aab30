import ChainWeaver.AgentTraces
import ChainWeaver.Data.Passes
import ChainWeaver.JsonReader
import ChainWeaver.Observer
import ChainWeaver.SerializationLaws
import Mathlib.Logic.Function.Basic

/-!
# Candidate files

`traces draft-flows` and `record` write the candidates they mine to files named after the tools. The one
overwrites what it finds and names its files by the tools as they are, the other keeps what it finds and
maps the names into the output directory; names that are mapped alike share a file. `Meets` says when a
run keeps its promise.
-/

namespace ChainWeaver

-- Governance

def lifecycleTransitions : FlowLifecycle → List FlowLifecycle
  | .observed => [.suggested, .ignored]
  | .suggested => [.draft, .ignored]
  | .draft => [.reviewed, .ignored]
  | .reviewed => [.draft, .active, .archived]
  | .active => [.archived]
  | .ignored => [.suggested]
  | .archived => [.reviewed]

/-- `transition_to`; the reviewer's name and notes replace those there are. -/
def FlowGovernance.transitionTo (governance : FlowGovernance) (target : FlowLifecycle)
    (reviewedBy reviewNotes : Option String) : Except String FlowGovernance :=
  if target ∈ lifecycleTransitions governance.lifecycle then
    .ok { governance with
      lifecycle := target
      reviewedBy := reviewedBy.or governance.reviewedBy
      reviewNotes := reviewNotes.or governance.reviewNotes }
  else
    .error s!"Flow lifecycle cannot transition from '{governance.lifecycle.text}' to '{target.text}'."

namespace CandidateFiles

open AgentTraces (AgentTraceEvent CandidateScore DraftFlow Texts)
open Passes (pass)

-- Mining

/-- `agent_trace_to_traces`. -/
def agentTraceToTraces (events : List AgentTraceEvent) : List Observer.ObservedTrace :=
  let grouped : OrderedDict (List Observer.ObservedStep) := events.foldl (fun grouped event =>
    match event.event, event.tool with
    | .toolCall, some tool =>
      let outputs : Option Dict :=
        if event.outputKeys.isEmpty then none else some (.ofList (event.outputKeys.map fun key => (key, .null)))
      grouped.insert event.sessionId
        ((grouped.get? event.sessionId).getD [] ++ [{ toolName := tool, inputs := event.args, outputs }])
    | _, _ => grouped) .empty
  grouped.entries.map fun (sessionId, steps) => { traceId := sessionId, source := "agent-trace", steps }

/-- A line of a tool trace. -/
structure ToolCall where
  traceId : String
  tool : String
  inputs : Dict
  outputs : Option Dict

/-- `_load_tool_trace`, after parsing. -/
def loadToolTrace (calls : List ToolCall) : Observer.ChainObserver :=
  let grouped : OrderedDict (List Observer.ObservedStep) := calls.foldl (fun grouped call =>
    grouped.insert call.traceId ((grouped.get? call.traceId).getD [] ++
      [{ toolName := call.tool, inputs := call.inputs, outputs := call.outputs }])) .empty
  { completed := grouped.entries.map fun (traceId, steps) => { traceId, source := "observer", steps } }

structure Options where
  minOccurrences : Int
  minLength : Int
  maxLength : Option Int

/-- The ranks of `_mine_scored_candidates`. -/
def ScoredBefore (a b : CandidateScore) : Prop :=
  b.score < a.score ∨ (a.score == b.score) = true ∧
    (b.support < a.support ∨ a.support = b.support ∧ a.sequence ≤ b.sequence)

instance : DecidableRel ScoredBefore := fun _ _ => inferInstanceAs (Decidable (_ ∨ _))

def estimatedLlmCallsAvoided (s : Observer.FlowSuggestion R) : Nat := s.tools.length * s.occurrences

/-- The ranks of `record_command`. -/
def RankedBefore (a b : Observer.FlowSuggestion R) : Prop :=
  estimatedLlmCallsAvoided b < estimatedLlmCallsAvoided a ∨
    estimatedLlmCallsAvoided a = estimatedLlmCallsAvoided b ∧
      (b.occurrences < a.occurrences ∨ a.occurrences = b.occurrences ∧ a.flow.name ≤ b.flow.name)

instance : DecidableRel (RankedBefore (R := R)) := fun _ _ => inferInstanceAs (Decidable (_ ∨ _))

-- Paths

/-- Where relative paths lead from an output directory. -/
structure OutputDir where
  Folder : Type
  decidableEq : DecidableEq Folder
  here : Folder
  /-- The folder that the part of a path up to its last slash leads to. -/
  enter : String → Option Folder
  enter_here : enter "" = some here
  /-- Whether a file of the name can be opened in the folder. -/
  opens : Folder → String → Bool
  opens_shorter : ∀ folder name, opens folder (name ++ ".flow.yaml") = true → opens folder (name ++ ".json") = true

instance (dir : OutputDir) : DecidableEq dir.Folder := dir.decidableEq

/-- A file, by its folder and its name. -/
abbrev OutputDir.Place (dir : OutputDir) := dir.Folder × String

/-- The path up to its last slash. -/
def folderPart (path : String) : String := String.ofList (path.toList.reverse.dropWhile (· ≠ '/')).reverse

def fileName (path : String) : String := String.ofList (path.toList.reverse.takeWhile (· ≠ '/')).reverse

def OutputDir.place (dir : OutputDir) (path : String) : Option dir.Place :=
  (dir.enter (folderPart path)).bind fun folder =>
    if dir.opens folder (fileName path) = true then some (folder, fileName path) else none

/-- The texts of the files there are. -/
abbrev OutputDir.Files (dir : OutputDir) := dir.Place → Option String

def safePathChar (c : Char) : Bool := c.isAlphanum || c = '.' || c = '_' || c = '-'

/-- `sanitize_path_component`. -/
def sanitizePathComponent (component : String) : String :=
  let cleaned := String.ofList (component.toList.map fun c => if safePathChar c then c else '_')
  if cleaned.isEmpty then "_" else cleaned

-- Flows of candidates

/-- The steps of candidates have a tool and an input mapping. -/
def fullStep (step : FlowStep) : FullStep := { target := step.target, inputMapping := step.inputMapping }

def fullFlow (flow : Flow) (description : String) (governance : FlowGovernance) : FullFlow :=
  { toFlowHeader := flow.toFlowHeader, description, governance, steps := .linear (flow.steps.map fullStep) }

def draftGovernance (governance : AgentTraces.FlowGovernance) : FlowGovernance :=
  { lifecycle := .draft, replacesTools := governance.replacesTools
    estimatedModelCallsRemoved := governance.estimatedModelCallsRemoved
    estimatedTokenSavings := some governance.estimatedTokenSavings.toNat
    reviewNotes := some governance.reviewNotes }

def suggestedGovernance (s : Observer.FlowSuggestion R) : FlowGovernance :=
  { lifecycle := .suggested, replacesTools := s.tools, estimatedModelCallsRemoved := s.tools.length * s.occurrences }

/-- What the commands take from their surroundings. -/
structure Surroundings (R : Type) where
  dir : OutputDir
  serializer : Serializer
  /-- YAML keeps documents whose keys are different, and sorts the keys. -/
  load_dump : ∀ document : Json, document.Distinct →
    serializer.safeLoad (serializer.safeDump document) = .ok document.sorted
  limits : FlowParseLimits
  texts : Texts
  hashing : Hashing
  ratio : Nat → Nat → R
  describeDraft : CandidateScore → String
  describeSuggestion : Observer.FlowSuggestion R → String
  sidecarText : DraftFlow → String

namespace Surroundings

variable (s : Surroundings R)

def drafted (draft : DraftFlow) : FullFlow :=
  fullFlow draft.flow (s.describeDraft draft.score) (draftGovernance draft.governance)

/-- A suggestion that became a draft. -/
def accepted (suggestion : Observer.FlowSuggestion R) : Except String FullFlow :=
  ((suggestedGovernance suggestion).transitionTo .draft none none).map
    (fullFlow suggestion.flow (s.describeSuggestion suggestion))

/-- What a text is read as. -/
def decode (text : String) : Except String FullFlow := s.serializer.flowFromYaml s.limits text

-- Commands

def mineScoredCandidates (events : List AgentTraceEvent) (options : Options) :
    Except String (List CandidateScore) := do
  let observer ← Observer.fromTraces (agentTraceToTraces events) none
  let suggestions ← observer.suggestFlows s.hashing s.ratio options.minOccurrences options.minLength
    options.maxLength true
  let scores ← suggestions.mapM fun suggestion => AgentTraces.scoreCandidate s.texts events suggestion.tools
  pure (scores.insertionSort ScoredBefore)

/-- One turn of the loop of `traces_draft_flows_command`. -/
def writeDraft (draft : DraftFlow) (files : s.dir.Files) : s.dir.Files × Bool :=
  match s.serializer.flowToYaml (s.drafted draft), s.dir.place (draft.flow.name ++ ".flow.yaml") with
  | some text, some dest =>
    let files := Function.update files dest (some text)
    match s.dir.place (draft.flow.name ++ ".json") with
    | some sidecar => (Function.update files sidecar (some (s.sidecarText draft)), true)
    | none => (files, false)
  | _, _ => (files, false)

/-- `traces_draft_flows_command` with an output directory; `false` if the command fails. -/
def draftFlows (events : List AgentTraceEvent) (options : Options) (files : s.dir.Files) : s.dir.Files × Bool :=
  match s.mineScoredCandidates events options with
  | .error _ => (files, false)
  | .ok scores =>
    match scores.mapM fun score => AgentTraces.draftFlowFromCandidate events score none with
    | .error _ => (files, false)
    | .ok drafts => pass s.writeDraft drafts files

/-- One turn of the loop of `record_command`. -/
def recordCandidate (suggestion : Observer.FlowSuggestion R) (files : s.dir.Files) : s.dir.Files × Bool :=
  match s.dir.place (sanitizePathComponent suggestion.flow.name ++ ".flow.yaml") with
  | none => (files, false)
  | some dest =>
    match files dest with
    | some existing =>
      match s.decode existing with
      | .ok _ => (files, true)
      | .error _ => (files, false)
    | none =>
      match s.accepted suggestion with
      | .error _ => (files, false)
      | .ok draft =>
        match s.serializer.flowToYaml draft with
        | none => (files, false)
        | some text => (Function.update files dest (some text), true)

/-- `record_command` with an output directory. -/
def record (calls : List ToolCall) (options : Options) (files : s.dir.Files) : s.dir.Files × Bool :=
  match (loadToolTrace calls).suggestFlows s.hashing s.ratio options.minOccurrences options.minLength
      options.maxLength true with
  | .error _ => (files, false)
  | .ok suggestions => pass s.recordCandidate (suggestions.insertionSort RankedBefore) files

end Surroundings

inductive Command
  | draftFlows (events : List AgentTraceEvent) (options : Options)
  | record (calls : List ToolCall) (options : Options)

/-- What happens to the files: a command runs, or somebody writes or deletes a file. -/
inductive Action (dir : OutputDir)
  | run (command : Command)
  | edit (place : dir.Place) (text : Option String)

namespace Surroundings

variable (s : Surroundings R)

-- What a command promises

/-- The suggestions that a command starts from. -/
def suggestions : Command → Except String (List (Observer.FlowSuggestion R))
  | .draftFlows events options => do
    let observer ← Observer.fromTraces (agentTraceToTraces events) none
    observer.suggestFlows s.hashing s.ratio options.minOccurrences options.minLength options.maxLength true
  | .record calls options =>
    (loadToolTrace calls).suggestFlows s.hashing s.ratio options.minOccurrences options.minLength options.maxLength true

/-- The mined candidate sequences. -/
def sequences (command : Command) : List (List String) :=
  match s.suggestions command with
  | .ok suggestions => suggestions.map (·.tools)
  | .error _ => []

def run (command : Command) (files : s.dir.Files) : s.dir.Files :=
  match command with
  | .draftFlows events options => (s.draftFlows events options files).1
  | .record calls options => (s.record calls options files).1

end Surroundings

/-- The path of a candidate's file. -/
def path : Command → List String → String
  | .draftFlows _ _, sequence => AgentTraces.candidateFlowName sequence ++ ".flow.yaml"
  | .record _ _, sequence => sanitizePathComponent ("suggested__" ++ "__".intercalate sequence) ++ ".flow.yaml"

/-- The steps of a linear flow call the tools of the sequence. -/
def Calls (flow : FullFlow) (sequence : List String) : Prop :=
  flow.steps.isDag = false ∧ flow.steps.all.map (·.target) = sequence.map .tool

def movedOn : List FlowLifecycle := [.reviewed, .active, .ignored]

namespace Surroundings

variable (s : Surroundings R) (command : Command) (files : s.dir.Files)

/-- The candidate's file is in the output directory and its flow calls the sequence. -/
def Holds (sequence : List String) : Prop :=
  ∃ name text flow, s.dir.place (path command sequence) = some (s.dir.here, name) ∧
    files (s.dir.here, name) = some text ∧ s.decode text = .ok flow ∧ Calls flow sequence

/-- A candidate file with a flow that a reviewer has moved on. -/
def Reviewed (place : s.dir.Place) : Prop :=
  ".flow.yaml".toList <:+ place.2.toList ∧ ∃ text flow, files place = some text ∧ s.decode text = .ok flow ∧
    flow.governance.lifecycle ∈ movedOn

/-- What a run promises. -/
structure Lossless : Prop where
  own : ∀ sequence ∈ s.sequences command, s.Holds command (s.run command files) sequence
  apart : ∀ sequence ∈ s.sequences command, ∀ other ∈ s.sequences command,
    s.dir.place (path command sequence) = s.dir.place (path command other) → sequence = other
  kept : ∀ place, s.Reviewed files place → s.run command files place = files place

/-- Every candidate has a place of its own. -/
structure Placed : Prop where
  opened : ∀ sequence ∈ s.sequences command, ∃ place, s.dir.place (path command sequence) = some place
  apart : ∀ sequence ∈ s.sequences command, ∀ other ∈ s.sequences command,
    s.dir.place (path command sequence) = s.dir.place (path command other) → sequence = other

/-- The reader takes the text of the flow. -/
def Readable (flow : FullFlow) : Prop := flow.Survives s.serializer s.limits s.serializer.yamlSize

/-- No candidate has negative savings. -/
def Draftable (events : List AgentTraceEvent) (options : Options) : Prop :=
  ∀ sequence ∈ s.sequences (.draftFlows events options), ∃ score,
    AgentTraces.scoreCandidate s.texts events sequence = .ok score ∧
      0 ≤ (score.estimatedInputTokensSaved + score.estimatedOutputTokensSaved) * score.support

/-- When a run keeps its promise. -/
def Meets : Command → s.dir.Files → Prop
  | .draftFlows events options, files =>
    s.Draftable events options ∧ s.Placed (.draftFlows events options) ∧
        (∀ sequence ∈ s.sequences (.draftFlows events options), ∀ score draft,
          AgentTraces.scoreCandidate s.texts events sequence = .ok score →
            AgentTraces.draftFlowFromCandidate events score none = .ok draft → s.Readable (s.drafted draft)) ∧
        (∀ sequence ∈ s.sequences (.draftFlows events options), ∀ place,
          s.dir.place (path (.draftFlows events options) sequence) = some place →
            place.1 = s.dir.here ∧ ¬s.Reviewed files place) ∨
      ¬s.Draftable events options ∧
        ∀ sequence ∈ s.sequences (.draftFlows events options), s.Holds (.draftFlows events options) files sequence
  | .record calls options, files =>
    s.Placed (.record calls options) ∧
      ∀ suggestions, s.suggestions (.record calls options) = .ok suggestions → ∀ suggestion ∈ suggestions, ∀ place,
        s.dir.place (path (.record calls options) suggestion.tools) = some place →
          (∀ text, files place = some text → ∃ flow, s.decode text = .ok flow ∧ Calls flow suggestion.tools) ∧
          (files place = none → ∀ draft, s.accepted suggestion = .ok draft → s.Readable draft)

/-- A property of each command of a history on the files it finds. -/
def Throughout (P : Command → s.dir.Files → Prop) : List (Action s.dir) → s.dir.Files → Prop
  | [], _ => True
  | .run command :: rest, files => P command files ∧ Throughout P rest (s.run command files)
  | .edit place text :: rest, files => Throughout P rest (Function.update files place text)

end Surroundings

end CandidateFiles

end ChainWeaver
