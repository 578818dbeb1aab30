import ChainWeaver.Interaction.Shared
import ChainWeaver.Registry

/-!
# The analysis service

`service.py`: tools and traces are mined for flows, each proposed flow waits for
approval, and approved flows are registered. What happens under the lock is one
question to the state; events and callbacks run between the questions.
-/

namespace ChainWeaver

open Interaction

inductive ServiceEvent
  | toolRegistered | traceRecorded | analysisCompleted | proposalCreated | flowPromoted | proposalRejected

inductive ProposalStatus
  | pending | approved | rejected
  deriving DecidableEq

def ProposalStatus.value : ProposalStatus → String
  | .pending => "pending" | .approved => "approved" | .rejected => "rejected"

structure ServiceConfig where
  analyzeOnToolChange : Bool := true
  minTraceOccurrences : Nat := 3
  minPatternLength : Nat := 2
  minDeterminismScore : Rat := 4 / 5
  enableLlmProposals : Bool := false
  maxLlmProposals : Nat := 5
  autoApproveDeterministic : Bool := false
  maxPendingProposals : Nat := 50

structure ServiceMetrics where
  toolsMonitored : Nat := 0
  tracesRecorded : Nat := 0
  patternsDetected : Nat := 0
  flowsProposed : Nat := 0
  flowsPromoted : Nat := 0
  totalLlmCallsAvoided : Nat := 0

/-- What a pass finds. -/
structure Candidate where
  flow : FullFlow
  source : String
  occurrences : Nat
  confidence : Rat
  estimatedLlmCallsAvoided : Nat

structure ServiceProposal extends Candidate where
  id : String
  status : ProposalStatus := .pending

inductive ServiceError
  | key (message : String)
  | value (message : String)
  | registry (error : RegistryError)
  | offlineLlm (message : String)
  /-- Raised by a callback. -/
  | callback (message : String)

-- The observer

structure ObservedStep where
  toolName : String
  inputs : Dict
  outputs : Option Dict

abbrev ObservedTrace := List ObservedStep

structure ChainObserver where
  current : Option ObservedTrace := none
  completed : List ObservedTrace := []
  maxTraces : Option Nat := none

namespace ChainObserver

def record (observer : ChainObserver) (step : ObservedStep) : ChainObserver :=
  { observer with current := some (observer.current.getD [] ++ [step]) }

def endTrace (observer : ChainObserver) : Except ServiceError ChainObserver :=
  match observer.current with
  | none => .error (.value "No open trace to end; call record() before end_trace().")
  | some [] => .ok { observer with current := none }
  | some steps =>
    let completed := observer.completed ++ [steps]
    let kept := observer.maxTraces.elim completed fun limit => completed.drop (completed.length - limit)
    .ok { observer with current := none, completed := kept }

end ChainObserver

-- The state under the lock

structure Service (V : Type) where
  registry : FlowRegistry V
  config : ServiceConfig := {}
  hasLlm : Bool := false
  /-- `ChainObserver.from_traces(traces).suggest_flows(..)`, as candidates. -/
  observed : List ObservedTrace → List Candidate
  /-- `ChainAnalyzer(tools).suggest_flows(..)` -/
  analyzed : List Tool → List FullFlow

structure ServiceState (V : Type) (service : Service V) where
  tools : OrderedDict Tool := .empty
  observer : ChainObserver := {}
  proposals : OrderedDict ServiceProposal := .empty
  metrics : ServiceMetrics := {}
  flows : FlowRegistry.State service.registry.store

/-- What happens under the lock; the calls on the registry are from elsewhere. -/
inductive ServiceKind
  | setTool | record | endTrace | traces | tools | propose | queue | approve | reject | registry

abbrev serviceSignature : Signature where
  Kind := ServiceKind
  Query
    | .setTool => Tool
    | .record => ObservedStep
    | .endTrace | .traces | .tools => Unit
    | .propose => List Tool
    | .queue => Candidate
    | .approve | .reject => String
    | .registry => FlowRegistry.Op
  Reply
    | .setTool | .record => Unit
    | .endTrace => Except ServiceError Nat
    | .traces => List ObservedTrace
    | .tools => List Tool
    | .propose => Except ServiceError (List Candidate)
    | .queue => Except ServiceError (Option ServiceProposal)
    | .approve | .reject => Except ServiceError ServiceProposal
    | .registry => FlowRegistry.Answer

namespace Service

variable {V : Type} [LinearOrder V] (service : Service V)

def isKnownLocked (state : ServiceState V service) (flowName : String) : Except RegistryError Bool :=
  if state.proposals.entries.any fun entry => entry.2.flow.name = flowName && entry.2.status ≠ .rejected then .ok true
  else do
    let flows ← service.registry.listFlows state.flows none []
    pure (flows.any fun flow => flow.name = flowName)

/-- How many proposals are pending. -/
def pending (proposals : OrderedDict ServiceProposal) : Nat :=
  proposals.entries.countP fun entry => entry.2.status = .pending

/-- `_queue_proposal` under the lock; the id is a new UUID. -/
def queueLocked (state : ServiceState V service) (id : String) (candidate : Candidate) :
    Except ServiceError (Option ServiceProposal) × ServiceState V service :=
  let state := { state with metrics.patternsDetected := state.metrics.patternsDetected + 1 }
  if candidate.confidence < service.config.minDeterminismScore then (.ok none, state)
  else
    match service.isKnownLocked state candidate.flow.name with
    | .error error => (.error (.registry error), state)
    | .ok true => (.ok none, state)
    | .ok false =>
      if pending state.proposals ≥ service.config.maxPendingProposals then (.ok none, state)
      else
        let proposal : ServiceProposal := { candidate with id }
        (.ok (some proposal),
          { state with
            proposals := state.proposals.insert id proposal
            metrics.flowsProposed := state.metrics.flowsProposed + 1 })

/-- The pending proposal with this id. -/
def requirePending (state : ServiceState V service) (id : String) : Except ServiceError ServiceProposal :=
  match state.proposals.get? id with
  | none => .error (.key s!"Unknown proposal id '{id}'.")
  | some proposal =>
    if proposal.status ≠ .pending then .error (.value s!"Proposal '{id}' is {proposal.status.value}, not pending.")
    else .ok proposal

/-- The state with the proposal decided. -/
def decided (state : ServiceState V service) (id : String) (proposal : ServiceProposal) (status : ProposalStatus) :
    ServiceState V service :=
  { state with proposals := state.proposals.insert id { proposal with status } }

def approveLocked (state : ServiceState V service) (id : String) :
    Except ServiceError ServiceProposal × ServiceState V service :=
  match service.requirePending state id with
  | .error error => (.error error, state)
  | .ok proposal =>
    match service.registry.registerFlow state.flows proposal.flow false with
    | (.ok (), flows) =>
      let state := service.decided { state with flows } id proposal .approved
      (.ok { proposal with status := .approved },
        { state with
          metrics.flowsPromoted := state.metrics.flowsPromoted + 1
          metrics.totalLlmCallsAvoided := state.metrics.totalLlmCallsAvoided + proposal.estimatedLlmCallsAvoided })
    | (.error (.store (.flowAlreadyExists _)), flows) =>
      (.ok { proposal with status := .approved }, service.decided { state with flows } id proposal .approved)
    | (.error error, flows) => (.error (.registry error), { state with flows })

def rejectLocked (state : ServiceState V service) (id : String) :
    Except ServiceError ServiceProposal × ServiceState V service :=
  match service.requirePending state id with
  | .error error => (.error error, state)
  | .ok proposal => (.ok { proposal with status := .rejected }, service.decided state id proposal .rejected)

/-- What comes from outside: the next UUID, and what the offline LLM proposes. -/
structure Outside where
  uuid : String
  proposed : Except ServiceError (List Candidate)

def act (outside : Outside) (state : ServiceState V service) (kind : ServiceKind) (query : serviceSignature.Query kind) :
    serviceSignature.Reply kind × ServiceState V service :=
  match kind with
  | .setTool =>
    let tools := state.tools.insert (Tool.name query) query
    ((), { state with tools, metrics.toolsMonitored := tools.entries.length })
  | .record => ((), { state with observer := state.observer.record query })
  | .endTrace =>
    match state.observer.endTrace with
    | .error error => (.error error, state)
    | .ok observer =>
      let recorded := state.metrics.tracesRecorded + 1
      (.ok recorded, { state with observer, metrics.tracesRecorded := recorded })
  | .traces => (state.observer.completed, state)
  | .tools => (state.tools.entries.map Prod.snd, state)
  | .propose => (outside.proposed, state)
  | .queue => service.queueLocked state outside.uuid query
  | .approve => service.approveLocked state query
  | .reject => service.rejectLocked state query
  | .registry =>
    let (answer, flows) := service.registry.step state.flows query
    (answer, { state with flows })

def Step (state : ServiceState V service) (e : Interaction.Event serviceSignature) (state' : ServiceState V service) : Prop :=
  ∃ outside, service.act outside state e.kind e.query = (e.reply, state')

-- Calls

/-- A call on the service: its questions, and how it ends. -/
abbrev Run := ExceptT ServiceError (Prog serviceSignature)

inductive EventData
  | tool (name : String)
  | traces (recorded : Nat)
  | analysis (proposalCount : Nat)
  | created (proposalId source : String)
  | promoted (proposalId flow : String)
  | rejected (proposalId : String)

abbrev Callback := EventData → Run Unit

abbrev Callbacks := ServiceEvent → List Callback

def ask (kind : ServiceKind) (query : serviceSignature.Query kind) : Run (serviceSignature.Reply kind) :=
  ExceptT.mk (.ask kind query fun reply => .done (.ok reply))

def emit (callbacks : Callbacks) (event : ServiceEvent) (data : EventData) : Run Unit :=
  (callbacks event).forM fun callback => callback data

def approve (callbacks : Callbacks) (id : String) : Run ServiceProposal := do
  let proposal ← (ExceptT.mk (.ask .approve id fun reply => .done reply) : Run ServiceProposal)
  emit callbacks .flowPromoted (.promoted id proposal.flow.name)
  pure proposal

def reject (callbacks : Callbacks) (id : String) : Run ServiceProposal := do
  let proposal ← (ExceptT.mk (.ask .reject id fun reply => .done reply) : Run ServiceProposal)
  emit callbacks .proposalRejected (.rejected id)
  pure proposal

/-- Whether the new proposal is promoted without a review. -/
def autoApproves (proposal : ServiceProposal) : Bool :=
  service.config.autoApproveDeterministic && decide (1 ≤ proposal.confidence)

def queueProposal (callbacks : Callbacks) (candidate : Candidate) : Run (Option ServiceProposal) := do
  let queued ← (ExceptT.mk (.ask .queue candidate fun reply => .done reply) : Run (Option ServiceProposal))
  match queued with
  | none => pure none
  | some proposal => do
    emit callbacks .proposalCreated (.created proposal.id proposal.source)
    if service.autoApproves proposal then
      let _ ← approve callbacks proposal.id
      pure (some proposal)
    else pure (some proposal)

def queueAll (callbacks : Callbacks) : List Candidate → Run (List ServiceProposal)
  | [] => pure []
  | candidate :: rest => do
    let queued ← service.queueProposal callbacks candidate
    let others ← queueAll callbacks rest
    pure (queued.toList ++ others)

def observerPass (callbacks : Callbacks) : Run (List ServiceProposal) := do
  let traces ← ask .traces ()
  service.queueAll callbacks (service.observed traces)

def analyzerCandidate (flow : FullFlow) (steps : Nat) : Candidate where
  flow := flow
  source := "analyzer"
  occurrences := 0
  confidence := 1
  estimatedLlmCallsAvoided := steps

def FullSteps.length : FullSteps → Nat
  | .linear steps => steps.length
  | .dag steps => steps.length

def analyzerPass (callbacks : Callbacks) : Run (List ServiceProposal) := do
  let tools ← ask .tools ()
  if List.length tools < service.config.minPatternLength then pure []
  else
    service.queueAll callbacks
      ((service.analyzed tools).map fun flow => analyzerCandidate flow (FullSteps.length flow.steps))

def llmPass (callbacks : Callbacks) : Run (List ServiceProposal) := do
  let tools ← ask .tools ()
  if List.isEmpty tools || !service.hasLlm then pure []
  else do
    let candidates ← (ExceptT.mk (.ask .propose tools fun reply => .done reply) : Run (List Candidate))
    service.queueAll callbacks candidates

def triggerAnalysis (callbacks : Callbacks) : Run (List ServiceProposal) := do
  let observed ← service.observerPass callbacks
  let analyzed ← service.analyzerPass callbacks
  let proposed ← if service.config.enableLlmProposals && service.hasLlm then service.llmPass callbacks else pure []
  let created := observed ++ analyzed ++ proposed
  emit callbacks .analysisCompleted (.analysis created.length)
  pure created

def registerTool (callbacks : Callbacks) (tool : Tool) : Run Unit := do
  let _ ← ask .setTool tool
  emit callbacks .toolRegistered (.tool tool.name)
  if service.config.analyzeOnToolChange then
    let _ ← service.triggerAnalysis callbacks
    pure ()
  else pure ()

def record (step : ObservedStep) : Run Unit := do
  let _ ← ask .record step
  pure ()

def endTrace (callbacks : Callbacks) : Run Unit := do
  let recorded ← (ExceptT.mk (.ask .endTrace () fun reply => .done reply) : Run Nat)
  emit callbacks .traceRecorded (.traces recorded)

end Service

end ChainWeaver
