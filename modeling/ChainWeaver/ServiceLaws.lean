import ChainWeaver.RegistryLaws
import ChainWeaver.Service

/-!
# The governance gate

Whatever the threads do, the queue stays within its bound, a flow name has one
live proposal and only approvals register flows. An analysis returns exactly if
every decision in it finds its proposal pending.
-/

namespace ChainWeaver

open Interaction

namespace Service

variable {V : Type} {service : Service V} {state : ServiceState V service} {id : String}
variable {proposal : ServiceProposal} {proposals : OrderedDict ServiceProposal}

-- Steps

/-- The queue is within its bound, and a flow name has one proposal that is not rejected. -/
structure Gated (service : Service V) (proposals : OrderedDict ServiceProposal) : Prop where
  bounded : pending proposals ≤ service.config.maxPendingProposals
  single : proposals.get? a = some p → proposals.get? b = some q → p.status ≠ .rejected → q.status ≠ .rejected →
    p.flow.name = q.flow.name → a = b

theorem Gated.empty : service.Gated .empty where
  bounded := Nat.zero_le _
  single h := by cases h

theorem pending_insert (proposals : OrderedDict ServiceProposal) (id : String) (proposal : ServiceProposal) :
    pending (proposals.insert id proposal) ≤ pending proposals + if proposal.status = .pending then 1 else 0 := by
  simpa [pending, OrderedDict.insert] using
    OrderedDict.countP_put (fun entry => decide (entry.2.status = .pending)) id proposal proposals.entries

/-- No live proposal of this name, so a new one may be queued. -/
theorem unknown_of_isKnownLocked (h : service.isKnownLocked state flowName = .ok false)
    (hget : state.proposals.get? id = some proposal) (hlive : proposal.status ≠ .rejected) :
    proposal.flow.name ≠ flowName := by
  unfold isKnownLocked at h
  split at h
  · cases h
  next hnone =>
    intro hname
    refine hnone (List.any_eq_true.2 ⟨(id, proposal), OrderedDict.get?_eq_some_iff.1 hget, ?_⟩)
    simp [hname, hlive]

theorem Gated.queue (h : service.Gated state.proposals) (hfree : pending state.proposals < service.config.maxPendingProposals)
    (hknown : service.isKnownLocked state proposal.flow.name = .ok false) :
    service.Gated (state.proposals.insert id proposal) where
  bounded := by
    have hcount := pending_insert state.proposals id proposal
    split at hcount <;> omega
  single {a p b q} ha hb hp hq hname := by
    rw [OrderedDict.get?_insert] at ha hb
    split at ha <;> split at hb
    next heq heq' => exact heq.trans heq'.symm
    next =>
      obtain rfl := Option.some.inj ha
      exact absurd hname.symm (unknown_of_isKnownLocked hknown hb hq)
    next =>
      obtain rfl := Option.some.inj hb
      exact absurd hname (unknown_of_isKnownLocked hknown ha hp)
    next => exact h.single ha hb hp hq hname

theorem Gated.decide (h : service.Gated proposals) (hget : proposals.get? id = some proposal)
    (hpending : proposal.status = .pending) (hstatus : status ≠ .pending) :
    service.Gated (proposals.insert id { proposal with status }) where
  bounded := by
    have hcount := pending_insert proposals id { proposal with status }
    rw [if_neg hstatus] at hcount
    exact hcount.trans h.bounded
  single {a p b q} ha hb hp hq hname := by
    have hlive : proposal.status ≠ .rejected := by simp [hpending]
    rw [OrderedDict.get?_insert] at ha hb
    split at ha <;> split at hb
    next heq heq' => exact heq.trans heq'.symm
    next heq _ =>
      obtain rfl := Option.some.inj ha
      exact heq.trans (h.single hget hb hlive hq hname)
    next heq =>
      obtain rfl := Option.some.inj hb
      exact (h.single ha hget hp hlive hname).trans heq.symm
    next => exact h.single ha hb hp hq hname

theorem requirePending_ok (h : service.requirePending state id = .ok proposal) :
    state.proposals.get? id = some proposal ∧ proposal.status = .pending := by
  unfold requirePending at h
  split at h
  · cases h
  next found hfound =>
    split at h
    · cases h
    next hpending =>
      obtain rfl := Except.ok.inj h
      exact ⟨hfound, not_not.1 hpending⟩

/-- The moment queues a proposal. -/
def creates (m : Moment serviceSignature (ServiceState V service)) : Bool :=
  match m.2 with
  | ⟨.queue, _, .ok (some _)⟩ => true
  | _ => false

variable [LinearOrder V]

/-- The moment registers a flow, by approving its proposal. -/
def registers (m : Moment serviceSignature (ServiceState V service)) : Bool :=
  match m.2 with
  | ⟨.approve, id, _⟩ =>
    match service.requirePending m.1 id with
    | .ok proposal => (service.registry.registerFlow m.1.flows proposal.flow false).1.isOk
    | .error _ => false
  | _ => false

/-- What a step does to the proposals, the counters and the registry. -/
structure Governs (service : Service V) (state : ServiceState V service) (e : Interaction.Event serviceSignature)
    (state' : ServiceState V service) : Prop where
  gated : service.Gated state.proposals → service.Gated state'.proposals
  proposed : state'.metrics.flowsProposed = state.metrics.flowsProposed + if creates (state, e) then 1 else 0
  promoted : state'.metrics.flowsPromoted = state.metrics.flowsPromoted + if registers (state, e) then 1 else 0
  /-- The registry changes through an approval, or is called from elsewhere. -/
  registry : state'.flows = state.flows ∨ e.kind = .registry ∨ ∃ id reply proposal, e = ⟨.approve, id, reply⟩ ∧
    service.requirePending state id = .ok proposal ∧
    state'.flows = (service.registry.registerFlow state.flows proposal.flow false).2

theorem queue_governs (h : service.queueLocked state id candidate = (reply, state')) :
    service.Governs state ⟨.queue, candidate, reply⟩ state' := by
  unfold queueLocked at h
  dsimp only at h
  split at h
  · obtain ⟨rfl, rfl⟩ := Prod.mk.inj h
    exact ⟨fun hgated => hgated, rfl, rfl, .inl rfl⟩
  split at h
  · obtain ⟨rfl, rfl⟩ := Prod.mk.inj h
    exact ⟨fun hgated => hgated, rfl, rfl, .inl rfl⟩
  · obtain ⟨rfl, rfl⟩ := Prod.mk.inj h
    exact ⟨fun hgated => hgated, rfl, rfl, .inl rfl⟩
  next hknown =>
    split at h
    · obtain ⟨rfl, rfl⟩ := Prod.mk.inj h
      exact ⟨fun hgated => hgated, rfl, rfl, .inl rfl⟩
    next hfree =>
      obtain ⟨rfl, rfl⟩ := Prod.mk.inj h
      exact ⟨fun hgated => Gated.queue hgated (not_le.1 hfree) hknown, rfl, rfl, .inl rfl⟩

theorem approve_governs (h : service.approveLocked state id = (reply, state')) :
    service.Governs state ⟨.approve, id, reply⟩ state' := by
  unfold approveLocked at h
  split at h
  next error hrequired =>
    obtain ⟨rfl, rfl⟩ := Prod.mk.inj h
    exact ⟨fun hgated => hgated, rfl, by simp [registers, hrequired], .inl rfl⟩
  next proposal hrequired =>
    obtain ⟨hget, hpending⟩ := requirePending_ok hrequired
    have hregistry : ∀ outcome flows, service.registry.registerFlow state.flows proposal.flow false = (outcome, flows) →
        ∃ id' reply' proposal', (⟨.approve, id, reply⟩ : Interaction.Event serviceSignature) = ⟨.approve, id', reply'⟩ ∧
          service.requirePending state id' = .ok proposal' ∧
          flows = (service.registry.registerFlow state.flows proposal'.flow false).2 := by
      intro outcome flows hregister
      exact ⟨id, reply, proposal, rfl, hrequired, by rw [hregister]⟩
    split at h
    next flows hregister =>
      obtain ⟨rfl, rfl⟩ := Prod.mk.inj h
      refine ⟨fun hgated => hgated.decide hget hpending (by decide), rfl, ?_, .inr (.inr (hregistry _ _ hregister))⟩
      simp [registers, hrequired, hregister, Except.isOk, Except.toBool, decided]
    next flows hregister =>
      obtain ⟨rfl, rfl⟩ := Prod.mk.inj h
      refine ⟨fun hgated => hgated.decide hget hpending (by decide), rfl, ?_, .inr (.inr (hregistry _ _ hregister))⟩
      simp [registers, hrequired, hregister, Except.isOk, Except.toBool, decided]
    next flows _ hregister =>
      obtain ⟨rfl, rfl⟩ := Prod.mk.inj h
      refine ⟨fun hgated => hgated, rfl, ?_, .inr (.inr (hregistry _ _ hregister))⟩
      simp [registers, hrequired, hregister, Except.isOk, Except.toBool]

theorem reject_governs (h : service.rejectLocked state id = (reply, state')) :
    service.Governs state ⟨.reject, id, reply⟩ state' := by
  unfold rejectLocked at h
  split at h
  · obtain ⟨rfl, rfl⟩ := Prod.mk.inj h
    exact ⟨fun hgated => hgated, rfl, rfl, .inl rfl⟩
  next hrequired =>
    obtain ⟨hget, hpending⟩ := requirePending_ok hrequired
    obtain ⟨rfl, rfl⟩ := Prod.mk.inj h
    exact ⟨fun hgated => hgated.decide hget hpending (by decide), rfl, rfl, .inl rfl⟩

theorem act_steps (service : Service V) (outside : Outside) (state : ServiceState V service) (kind : ServiceKind)
    (query : serviceSignature.Query kind) :
    service.Step state ⟨kind, query, (service.act outside state kind query).1⟩
      (service.act outside state kind query).2 :=
  ⟨outside, rfl⟩

theorem step_governs (h : service.Step state e state') : service.Governs state e state' := by
  obtain ⟨kind, query, reply⟩ := e
  obtain ⟨outside, hact⟩ := h
  cases kind with
  | queue => exact queue_governs hact
  | approve => exact approve_governs hact
  | reject => exact reject_governs hact
  | setTool | record | traces | tools | propose =>
    obtain ⟨rfl, rfl⟩ := Prod.mk.inj hact
    exact ⟨fun hgated => hgated, rfl, rfl, .inl rfl⟩
  | registry =>
    obtain ⟨-, rfl⟩ := Prod.mk.inj hact
    exact ⟨fun hgated => hgated, rfl, rfl, .inr (.inl rfl)⟩
  | endTrace =>
    simp only [act] at hact
    split at hact
    · obtain ⟨rfl, rfl⟩ := Prod.mk.inj hact
      exact ⟨fun hgated => hgated, rfl, rfl, .inl rfl⟩
    · obtain ⟨rfl, rfl⟩ := Prod.mk.inj hact
      exact ⟨fun hgated => hgated, rfl, rfl, .inl rfl⟩

-- Runs of all threads

/-- A service to which nothing has happened yet. -/
structure Fresh (state : ServiceState V service) : Prop where
  proposals : state.proposals = .empty
  proposed : state.metrics.flowsProposed = 0
  promoted : state.metrics.flowsPromoted = 0

theorem reaches_gated {start : ServiceState V service} (hfresh : service.Fresh start)
    (h : Reaches service.Step start moments state) : service.Gated state.proposals := by
  induction h with
  | refl =>
    rw [hfresh.proposals]
    exact .empty
  | tail _ hstep ih => exact (step_governs hstep).gated ih

theorem reaches_proposed {start : ServiceState V service} (hfresh : service.Fresh start)
    (h : Reaches service.Step start moments state) : state.metrics.flowsProposed = moments.countP creates := by
  induction h with
  | refl => exact hfresh.proposed
  | tail _ hstep ih => rw [(step_governs hstep).proposed, ih, List.countP_append, List.countP_singleton]

theorem reaches_promoted {start : ServiceState V service} (hfresh : service.Fresh start)
    (h : Reaches service.Step start moments state) : state.metrics.flowsPromoted = moments.countP registers := by
  induction h with
  | refl => exact hfresh.promoted
  | tail _ hstep ih => rw [(step_governs hstep).promoted, ih, List.countP_append, List.countP_singleton]

-- Analyses

/-- The registry takes the flow, or has it already. -/
def Takes (service : Service V) (state : ServiceState V service) (flow : FullFlow) : Prop :=
  (service.registry.registerFlow state.flows flow false).1 = .ok () ∨
    ∃ name, (service.registry.registerFlow state.flows flow false).1 = .error (.store (.flowAlreadyExists name))

/-- What an analysis asks of the state: that a decision finds its proposal pending and
the registry takes its flow, that the flows can be listed where they have to be, and
that the LLM pass proposes something. -/
def Fine (m : Moment serviceSignature (ServiceState V service)) : Prop :=
  match m.2 with
  | ⟨.approve, id, _⟩ => ∃ proposal, service.requirePending m.1 id = .ok proposal ∧ service.Takes m.1 proposal.flow
  | ⟨.reject, id, _⟩ => ∃ proposal, service.requirePending m.1 id = .ok proposal
  | ⟨.queue, candidate, _⟩ =>
    candidate.confidence < service.config.minDeterminismScore ∨
      ∃ known, service.isKnownLocked m.1 candidate.flow.name = .ok known
  | ⟨.propose, _, reply⟩ => ∃ candidates, reply = .ok candidates
  | _ => True

inductive Decision
  | leave | approve | reject

/-- A callback that only approves or rejects the proposal it is told about. -/
def decide (others : Callbacks) (choice : String → Decision) : Callback
  | .created proposalId _ =>
    match choice proposalId with
    | .leave => pure ()
    | .approve => do
      let _ ← Service.approve others proposalId
      pure ()
    | .reject => do
      let _ ← Service.reject others proposalId
      pure ()
  | _ => pure ()

/-- Callbacks that decide new proposals, beside those of the other events. -/
def deciding (others : Callbacks) (choices : List (String → Decision)) : Callbacks
  | .proposalCreated => choices.map (decide others)
  | event => others event

/-- The callback raises nothing and decides nothing. -/
def Quiet (service : Service V) (callback : Callback) : Prop :=
  ∀ data state own result state', Shared service.Step state (callback data).run own result state' →
    result = .ok () ∧ ∀ m ∈ own, Fine m

theorem Quiet.returnsIff (h : service.Quiet callback) (data : EventData) :
    ReturnsIff service.Step Fine (callback data) := by
  intro state own result state' hrun
  obtain ⟨rfl, hfine⟩ := h data state own result state' hrun
  exact iff_of_true ⟨(), rfl⟩ hfine

theorem ask_returnsIff {kind : ServiceKind} {query : serviceSignature.Query kind}
    (hfine : ∀ (state : ServiceState V service) reply, Fine (state, ⟨kind, query, reply⟩)) :
    ReturnsIff service.Step Fine (ask kind query) :=
  .ask _ fun _ _ _ _ => iff_of_true ⟨_, rfl⟩ (hfine _ _)

theorem emit_returnsIff {callbacks : Callbacks} (h : ∀ callback ∈ callbacks event, ∀ data,
    ReturnsIff service.Step Fine (callback data)) (data : EventData) :
    ReturnsIff service.Step Fine (emit callbacks event data) :=
  .forM _ fun callback hmem => h callback hmem data

theorem approveLocked_ok : (∃ approved, (service.approveLocked state id).1 = .ok approved) ↔
    ∃ proposal, service.requirePending state id = .ok proposal ∧ service.Takes state proposal.flow := by
  unfold approveLocked Takes
  split
  next error hrequired => simp [hrequired]
  next proposal hrequired =>
    rw [hrequired]
    split
    next hregister => simp [hregister]
    next hregister => simp [hregister]
    next error flows hne hregister =>
      refine iff_of_false (by simp) ?_
      rintro ⟨_, hproposal, htakes⟩
      obtain rfl := Except.ok.inj hproposal
      rw [hregister] at htakes
      obtain hok | ⟨name, hexists⟩ := htakes
      · cases hok
      · exact hne name (Except.error.inj hexists)

omit [LinearOrder V] in
theorem rejectLocked_ok : (∃ rejected, (service.rejectLocked state id).1 = .ok rejected) ↔
    ∃ proposal, service.requirePending state id = .ok proposal := by
  unfold rejectLocked
  split
  next error hrequired => simp [hrequired]
  next proposal hrequired => simp [hrequired]

omit [LinearOrder V] in
theorem queueLocked_ok : (∃ queued, (service.queueLocked state id candidate).1 = .ok queued) ↔
    candidate.confidence < service.config.minDeterminismScore ∨
      ∃ known, service.isKnownLocked state candidate.flow.name = .ok known := by
  have hknown : service.isKnownLocked { state with metrics.patternsDetected := state.metrics.patternsDetected + 1 }
      candidate.flow.name = service.isKnownLocked state candidate.flow.name := rfl
  unfold queueLocked
  dsimp only
  rw [hknown]
  split
  next hlow => simp [hlow]
  next hhigh =>
    cases hresult : service.isKnownLocked state candidate.flow.name with
    | error error => simp [hhigh]
    | ok known =>
      cases known with
      | true => simp
      | false =>
        dsimp only
        split <;> simp

theorem approve_returnsIff {callbacks : Callbacks} (h : ∀ callback ∈ callbacks .flowPromoted, ∀ data,
    ReturnsIff service.Step Fine (callback data)) (id : String) :
    ReturnsIff service.Step Fine (Service.approve callbacks id) := by
  refine .bind (.ask _ ?_) fun proposal => .bind (emit_returnsIff h _) fun _ => .pure _
  rintro state reply state' ⟨outside, hact⟩
  have hreply : (service.approveLocked state id).1 = reply := congrArg Prod.fst hact
  rw [← hreply]
  exact approveLocked_ok

theorem reject_returnsIff {callbacks : Callbacks} (h : ∀ callback ∈ callbacks .proposalRejected, ∀ data,
    ReturnsIff service.Step Fine (callback data)) (id : String) :
    ReturnsIff service.Step Fine (Service.reject callbacks id) := by
  refine .bind (.ask _ ?_) fun proposal => .bind (emit_returnsIff h _) fun _ => .pure _
  rintro state reply state' ⟨outside, hact⟩
  have hreply : (service.rejectLocked state id).1 = reply := congrArg Prod.fst hact
  rw [← hreply]
  exact rejectLocked_ok

section

variable {callbacks : Callbacks} (h : ∀ event, ∀ callback ∈ callbacks event, ∀ data,
  ReturnsIff service.Step Fine (callback data))
include h

theorem queueProposal_returnsIff (candidate : Candidate) :
    ReturnsIff service.Step Fine (service.queueProposal callbacks candidate) := by
  refine .bind (.ask _ ?_) fun queued => ?_
  · rintro state reply state' ⟨outside, hact⟩
    have hreply : (service.queueLocked state outside.uuid candidate).1 = reply := congrArg Prod.fst hact
    rw [← hreply]
    exact queueLocked_ok
  cases queued with
  | none => exact .pure _
  | some proposal =>
    refine .bind (emit_returnsIff (h .proposalCreated) _) fun _ => ?_
    split
    · exact .bind (approve_returnsIff (h .flowPromoted) _) fun _ => .pure _
    · exact .pure _

theorem queueAll_returnsIff (candidates : List Candidate) :
    ReturnsIff service.Step Fine (service.queueAll callbacks candidates) := by
  induction candidates with
  | nil => exact .pure _
  | cons candidate rest ih =>
    exact .bind (queueProposal_returnsIff h candidate) fun _ => .bind ih fun _ => .pure _

theorem llmPass_returnsIff : ReturnsIff service.Step Fine (service.llmPass callbacks) := by
  refine .bind (ask_returnsIff fun _ _ => trivial) fun tools => ?_
  split
  · exact .pure _
  · exact .bind (.ask _ fun _ _ _ _ => Iff.rfl) fun candidates => queueAll_returnsIff h candidates

theorem triggerAnalysis_returnsIff : ReturnsIff service.Step Fine (service.triggerAnalysis callbacks) := by
  refine .bind (.bind (ask_returnsIff fun _ _ => trivial) fun _ => queueAll_returnsIff h _) fun _ => ?_
  refine .bind (.bind (ask_returnsIff fun _ _ => trivial) fun _ => ?_) fun _ => ?_
  · split
    · exact .pure _
    · exact queueAll_returnsIff h _
  · dsimp only
    split
    · exact .bind (llmPass_returnsIff h) fun _ => .bind (emit_returnsIff (h .analysisCompleted) _) fun _ => .pure _
    · exact .bind (.pure _) fun _ => .bind (emit_returnsIff (h .analysisCompleted) _) fun _ => .pure _

end

theorem deciding_returnsIff {others : Callbacks} (hquiet : ∀ event, ∀ callback ∈ others event, service.Quiet callback)
    (choices : List (String → Decision)) (event : ServiceEvent) (callback : Callback)
    (hmem : callback ∈ deciding others choices event) (data : EventData) :
    ReturnsIff service.Step Fine (callback data) := by
  have hothers : ∀ event, ∀ callback ∈ others event, ∀ data, ReturnsIff service.Step Fine (callback data) :=
    fun event callback hmem data => (hquiet event callback hmem).returnsIff data
  cases event with
  | proposalCreated =>
    obtain ⟨choice, -, rfl⟩ := List.mem_map.1 hmem
    cases data with
    | created proposalId source =>
      cases hchoice : choice proposalId with
      | leave =>
        simp only [Service.decide, hchoice]
        exact .pure _
      | approve =>
        simp only [Service.decide, hchoice]
        exact .bind (approve_returnsIff (hothers .flowPromoted) _) fun _ => .pure _
      | reject =>
        simp only [Service.decide, hchoice]
        exact .bind (reject_returnsIff (hothers .proposalRejected) _) fun _ => .pure _
    | _ => exact .pure _
  | _ => exact hothers _ callback hmem data

/-- Whatever the threads do, in every state the queue is bounded, a flow name has at
most one live proposal, the counters are right and only approvals of pending proposals
have registered flows. An analysis whose callbacks decide the new proposals returns
exactly if each decision, the automatic ones too, finds its proposal pending. -/
theorem service_governed (service : Service V) {others : Callbacks}
    (hquiet : ∀ event, ∀ callback ∈ others event, service.Quiet callback) (choices : List (String → Decision)) :
    (∀ start moments state, service.Fresh start → Reaches service.Step start moments state →
      service.Gated state.proposals ∧ state.metrics.flowsProposed = moments.countP creates ∧
      state.metrics.flowsPromoted = moments.countP registers ∧
      ∀ m ∈ moments, ∀ after, service.Step m.1 m.2 after → service.Governs m.1 m.2 after) ∧
    ∀ state own result state',
      Shared service.Step state (service.triggerAnalysis (deciding others choices)).run own result state' →
        ((∃ created, result = .ok created) ↔ ∀ m ∈ own, Fine m) := by
  refine ⟨fun start moments state hfresh h => ?_, ?_⟩
  · exact ⟨reaches_gated hfresh h, reaches_proposed hfresh h, reaches_promoted hfresh h,
      fun m _ after hstep => step_governs hstep⟩
  · exact triggerAnalysis_returnsIff (deciding_returnsIff hquiet choices)

-- A proposal approved twice

/-- Two tools make a flow, which is approved automatically. -/
def hastyService : Service (List Nat) where
  registry := FlowRegistry.releaseRegistry
  config := { autoApproveDeterministic := true, minPatternLength := 0 }
  observed _ := []
  analyzed _ := [FlowRegistry.releasedFlow "0.0.0"]

def hastyStart : ServiceState (List Nat) hastyService := { flows := FlowRegistry.emptyRegistry }

def hastyOutside : Outside := { uuid := "p", proposed := .ok [] }

def noCallbacks : Callbacks := fun _ => []

def leaving : Run (List ServiceProposal) := hastyService.triggerAnalysis (deciding noCallbacks [fun _ => .leave])

/-- A proposal that is left to the service is approved by it. -/
theorem service_governed_left : ∃ own, Shared hastyService.Step hastyStart leaving.run own
    (leaving.run.exec (hastyService.act hastyOutside) hastyStart).2.1
    (leaving.run.exec (hastyService.act hastyOutside) hastyStart).2.2 ∧ ∀ m ∈ own, Fine m := by
  obtain ⟨own, hrun⟩ := exec_shared (hastyService.act hastyOutside) (act_steps hastyService hastyOutside) hastyStart leaving.run
  have hquiet : ∀ event, ∀ callback ∈ noCallbacks event, hastyService.Quiet callback := fun _ _ hmem => by cases hmem
  have hok : (leaving.run.exec (hastyService.act hastyOutside) hastyStart).2.1.isOk = true := by decide +kernel
  refine ⟨own, hrun, ((service_governed hastyService hquiet [fun _ => .leave]).2 _ _ _ _ hrun).1 ?_⟩
  cases hresult : (leaving.run.exec (hastyService.act hastyOutside) hastyStart).2.1 with
  | ok created => exact ⟨created, rfl⟩
  | error error =>
    rw [hresult] at hok
    cases hok

def approving : Callbacks := deciding noCallbacks [fun _ => .approve]

/-- A callback approves the new proposal, and then the service does. -/
theorem approved_twice : ¬ ∀ (service : Service (List Nat)) (choices : List (String → Decision)) state own result state',
    Shared service.Step state (service.triggerAnalysis (deciding noCallbacks choices)).run own result state' →
      ∃ created, result = .ok created := by
  intro h
  obtain ⟨own, hrun⟩ := exec_shared (hastyService.act hastyOutside) (act_steps hastyService hastyOutside)
    hastyStart (hastyService.triggerAnalysis approving).run
  obtain ⟨created, hok⟩ := h hastyService [fun _ => .approve] _ _ _ _ hrun
  have hraised : ((hastyService.triggerAnalysis approving).run.exec (hastyService.act hastyOutside)
      hastyStart).2.1.isOk = false := by decide +kernel
  rw [hok] at hraised
  cases hraised

end Service

end ChainWeaver
