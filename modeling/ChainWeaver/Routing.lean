import ChainWeaver.RegistryLaws

/-!
# Routing

`integrations/weaver_spec.py`: a flow is offered to a router as an item, and the router's
decision leads back to a flow. It leads to the version that the server exposes exactly if the
registry lists this one first (`resolve_iff`).
-/

namespace ChainWeaver

-- Contracts

structure SelectableItem where
  id : String
  label : String
  description : String
  capabilityId : Option String

structure ChoiceCard where
  id : String
  items : List SelectableItem

structure RoutingDecision where
  id : String
  choiceCards : List ChoiceCard
  selectedItemId : Option String
  selectedCardId : Option String
  contextSummary : Option String := none

/-- What `ValueError` and `LookupError` are raised about. -/
inductive RoutingError
  | noSteps (flowName : String)
  | noCandidates
  | notACandidate (selected : String) (candidates : List String)
  | noSelectedItem (decisionId : String)
  | unknownItem (decisionId selectedItemId : String)
  | noFlow (capability : String)
  | registry (error : RegistryError)

def FullSteps.isEmpty : FullSteps → Bool
  | .linear steps => steps.isEmpty
  | .dag steps => steps.isEmpty

/-- `flow.capability_id or flow.name` -/
def FullFlow.advertisedId (flow : FullFlow) : String := (flow.capabilityId.filter (· ≠ "")).getD flow.name

def flowToSelectableItem (flow : FullFlow) (capabilityId : Option String) : Except RoutingError SelectableItem :=
  if flow.steps.isEmpty then .error (.noSteps flow.name)
  else
    let resolvedId := (capabilityId.filter (· ≠ "")).getD flow.advertisedId
    .ok { id := resolvedId, label := flow.name, description := flow.description, capabilityId := some resolvedId }

def makeRoutingDecision (decisionId selected : String) (candidates : List String)
    (cardId : String := "chainweaver-candidates") (contextSummary : Option String := none) :
    Except RoutingError RoutingDecision :=
  if candidates.isEmpty then .error .noCandidates
  else if selected ∉ candidates then .error (.notACandidate selected candidates)
  else
    let items := candidates.map fun cap => { id := cap, label := cap, description := cap, capabilityId := some cap }
    .ok { id := decisionId, choiceCards := [{ id := cardId, items }], selectedItemId := some selected,
          selectedCardId := some cardId, contextSummary }

def selectedCapabilityId (decision : RoutingDecision) : Except RoutingError String :=
  match decision.selectedItemId with
  | none => .error (.noSelectedItem decision.id)
  | some selected =>
    match (decision.choiceCards.flatMap (·.items)).find? (·.id = selected) with
    | some item => .ok ((item.capabilityId.filter (· ≠ "")).getD item.id)
    | none => .error (.unknownItem decision.id selected)

/-- A decision for a candidate selects that candidate. -/
theorem selectedCapabilityId_made (h : makeRoutingDecision decisionId selected candidates cardId summary = .ok decision) :
    selectedCapabilityId decision = .ok selected := by
  unfold makeRoutingDecision at h
  split at h
  · cases h
  split at h
  · cases h
  next hmem =>
    obtain rfl := Except.ok.inj h
    have hfind : (candidates.map fun cap => ({ id := cap, label := cap, description := cap, capabilityId := some cap } : SelectableItem)).find?
        (·.id = selected) = some { id := selected, label := selected, description := selected, capabilityId := some selected } := by
      rw [List.find?_map]
      cases hfound : candidates.find? (· = selected) with
      | none => exact absurd (List.find?_eq_none.1 hfound selected (not_not.1 hmem)) (by simp)
      | some found =>
        obtain rfl : found = selected := by simpa using List.find?_some hfound
        simp [hfound]
    simp only [selectedCapabilityId, List.flatMap_cons, List.flatMap_nil, List.append_nil, hfind]
    by_cases hempty : selected = "" <;> simp [Option.filter, hempty]

namespace FlowRegistry

variable {V : Type} [LinearOrder V] (registry : FlowRegistry V)

-- Resolution

def getActiveFlows (state : State registry.store) : Except RegistryError (List FullFlow) :=
  registry.listFlows state (some .active) []

def resolveFlowFromRoutingDecision (state : State registry.store) (decision : RoutingDecision) :
    Except RoutingError FullFlow := do
  let capability ← selectedCapabilityId decision
  let flows ← (registry.getActiveFlows state).mapError .registry
  match flows.find? (·.capabilityId = some capability) with
  | some flow => pure flow
  | none =>
    match flows.find? (·.name = capability) with
    | some flow => pure flow
    | none => throw (.noFlow capability)

-- What the server exposes

/-- `Version(flow.version) > Version(current.version)` -/
def isNewer (flow current : FullFlow) : Except String Bool := do
  let version ← registry.parse flow.version
  let currentVersion ← registry.parse current.version
  pure (decide (currentVersion < version))

def keepLatest (latest : OrderedDict FullFlow) (flow : FullFlow) : Except String (OrderedDict FullFlow) :=
  match latest.get? flow.name with
  | none => .ok (latest.insert flow.name flow)
  | some current => do
    let newer ← registry.isNewer flow current
    pure (if newer then latest.insert flow.name flow else latest)

/-- The loop of `_register_all_flows` over the active flows. -/
def latestActive (flows : List FullFlow) : Except String (OrderedDict FullFlow) :=
  flows.foldlM registry.keepLatest .empty

/-- Each name has a version of its own among the flows, and none of them is newer. -/
structure Newest (flows : List FullFlow) (latest : OrderedDict FullFlow) : Prop where
  absent : latest.get? name = none → ∀ flow ∈ flows, flow.name ≠ name
  newest : latest.get? name = some flow → flow ∈ flows ∧ flow.name = name ∧
    ∀ other ∈ flows, other.name = name → registry.AtMost other.version flow.version

variable {registry}

theorem AtMost.refl (h : registry.parse version = .ok parsed) : registry.AtMost version version :=
  ⟨parsed, parsed, h, h, le_rfl⟩

theorem Newest.nil : registry.Newest [] .empty where
  absent _ _ hflow := by cases hflow
  newest h := by cases h

/-- A flow that is not older than the newest of its name takes its place. -/
theorem Newest.insert {flow : FullFlow} (h : registry.Newest done latest) (hparse : registry.parse flow.version = .ok parsed)
    (hage : ∀ current, latest.get? flow.name = some current → registry.AtMost current.version flow.version) :
    registry.Newest (done ++ [flow]) (latest.insert flow.name flow) := by
  refine ⟨fun {name} hget other hother => ?_, fun {name found} hget => ?_⟩
  · rw [OrderedDict.get?_insert] at hget
    split at hget
    · cases hget
    next hname =>
      rcases List.mem_append.1 hother with hother | hother
      · exact h.absent hget other hother
      · obtain rfl := List.mem_singleton.1 hother
        exact fun heq => hname heq.symm
  · rw [OrderedDict.get?_insert] at hget
    split at hget
    next hname =>
      obtain rfl := Option.some.inj hget
      refine ⟨by simp, hname.symm, fun other hother heq => ?_⟩
      rcases List.mem_append.1 hother with hother | hother
      · cases hcurrent : latest.get? flow.name with
        | none => exact absurd (heq.trans hname) (h.absent hcurrent other hother)
        | some current => exact ((h.newest hcurrent).2.2 other hother (heq.trans hname)).trans (hage current hcurrent)
      · obtain rfl := List.mem_singleton.1 hother
        exact .refl hparse
    next hname =>
      obtain ⟨hmem, hfound, hmax⟩ := h.newest hget
      refine ⟨List.mem_append_left _ hmem, hfound, fun other hother heq => ?_⟩
      rcases List.mem_append.1 hother with hother | hother
      · exact hmax other hother heq
      · obtain rfl := List.mem_singleton.1 hother
        exact absurd heq.symm hname

theorem Newest.keep {flow : FullFlow} (h : registry.Newest done latest) (hget : latest.get? flow.name = some current)
    (hage : registry.AtMost flow.version current.version) : registry.Newest (done ++ [flow]) latest := by
  refine ⟨fun {name} hnone other hother => ?_, fun {name found} hfound => ?_⟩
  · rcases List.mem_append.1 hother with hother | hother
    · exact h.absent hnone other hother
    · obtain rfl := List.mem_singleton.1 hother
      rintro rfl
      rw [hget] at hnone
      cases hnone
  · obtain ⟨hmem, hname, hmax⟩ := h.newest hfound
    refine ⟨List.mem_append_left _ hmem, hname, fun other hother heq => ?_⟩
    rcases List.mem_append.1 hother with hother | hother
    · exact hmax other hother heq
    · obtain rfl := List.mem_singleton.1 hother
      rw [heq, hfound] at hget
      exact Option.some.inj hget ▸ hage

theorem keepLatest_newest {flow : FullFlow} (h : registry.Newest done latest)
    (hvalid : ∀ other ∈ done, ∃ parsed, registry.parse other.version = .ok parsed)
    (hparse : registry.parse flow.version = .ok parsed) :
    ∃ latest', registry.keepLatest latest flow = .ok latest' ∧ registry.Newest (done ++ [flow]) latest' := by
  unfold keepLatest
  cases hget : latest.get? flow.name with
  | none => exact ⟨_, rfl, h.insert hparse fun current hcurrent => by rw [hget] at hcurrent; cases hcurrent⟩
  | some current =>
    obtain ⟨currentVersion, hcurrent⟩ := hvalid current (h.newest hget).1
    have hnewer : registry.isNewer flow current = .ok (decide (currentVersion < parsed)) := by
      rw [isNewer, hparse, hcurrent]
      rfl
    simp only [hnewer]
    refine ⟨_, rfl, ?_⟩
    by_cases hlt : currentVersion < parsed
    · rw [if_pos (decide_eq_true hlt)]
      refine h.insert hparse fun other hother => ?_
      obtain rfl := Option.some.inj (hget.symm.trans hother)
      exact ⟨currentVersion, parsed, hcurrent, hparse, hlt.le⟩
    · rw [if_neg (by simpa using hlt)]
      exact h.keep hget ⟨parsed, currentVersion, hparse, hcurrent, not_lt.1 hlt⟩

theorem foldlM_keepLatest {flows : List FullFlow} (h : registry.Newest done latest)
    (hvalid : ∀ flow ∈ done ++ flows, ∃ parsed, registry.parse flow.version = .ok parsed) :
    ∃ latest', flows.foldlM registry.keepLatest latest = .ok latest' ∧ registry.Newest (done ++ flows) latest' := by
  induction flows generalizing done latest with
  | nil => exact ⟨latest, rfl, by rwa [List.append_nil]⟩
  | cons flow rest ih =>
    obtain ⟨parsed, hparse⟩ := hvalid flow (by simp)
    obtain ⟨latest', hkeep, hnewest⟩ :=
      keepLatest_newest h (fun other hother => hvalid other (List.mem_append_left _ hother)) hparse
    have hassoc : done ++ flow :: rest = done ++ [flow] ++ rest := by simp
    rw [hassoc] at hvalid ⊢
    obtain ⟨latest'', hrest, hall⟩ := ih hnewest hvalid
    exact ⟨latest'', by rw [List.foldlM_cons, hkeep]; exact hrest, hall⟩

theorem latestActive_newest {flows : List FullFlow}
    (hvalid : ∀ flow ∈ flows, ∃ parsed, registry.parse flow.version = .ok parsed) :
    ∃ latest, registry.latestActive flows = .ok latest ∧ registry.Newest flows latest :=
  foldlM_keepLatest .nil hvalid

-- Active flows

variable {state : State registry.store}

omit [LinearOrder V] in
theorem loadListed_mem {keys : List FlowKey} {flows : List FullFlow} (h : registry.loadListed state keys = .ok flows)
    (hflow : flow ∈ flows) : ∃ name version, registry.getFlow state name version = .ok flow := by
  induction keys generalizing flows with
  | nil =>
    obtain rfl := Except.ok.inj h
    cases hflow
  | cons key rest ih =>
    obtain ⟨first, hfirst, h⟩ := Attempt.bind_eq_ok.1 h
    obtain ⟨others, hothers, h⟩ := Attempt.bind_eq_ok.1 h
    obtain rfl := Except.ok.inj h
    rcases List.mem_cons.1 hflow with rfl | hflow
    · exact ⟨_, _, hfirst⟩
    · exact ih hothers hflow

omit [LinearOrder V] in
theorem getActiveFlows_mem {flows : List FullFlow} (h : registry.getActiveFlows state = .ok flows) (hflow : flow ∈ flows) :
    flow.status = .active ∧ ∃ name version, registry.getFlow state name version = .ok flow := by
  obtain ⟨loaded, hloaded, h⟩ := Attempt.bind_eq_ok.1 h
  obtain rfl := Except.ok.inj h
  rw [List.mem_filter] at hflow
  exact ⟨by simpa using hflow.2, loadListed_mem hloaded hflow.1⟩

theorem getActiveFlows_valid {flows : List FullFlow} (hsound : registry.Sound state)
    (h : registry.getActiveFlows state = .ok flows) (hflow : flow ∈ flows) :
    ∃ parsed, registry.parse flow.version = .ok parsed := by
  obtain ⟨-, name, version, hget⟩ := getActiveFlows_mem h hflow
  exact hsound.points.valid (getFlow_key hsound hget)

-- Where decisions lead

/-- The flows that a decision for `id` chooses from: those that declare it, or else those
that bear it. -/
def choices (flows : List FullFlow) (id : String) : List FullFlow :=
  if flows.any (·.capabilityId = some id) then flows.filter (·.capabilityId = some id) else flows.filter (·.name = id)

/-- The flow is one of the choices, and no choice is listed before it. -/
def ListedFirst (flows : List FullFlow) (flow : FullFlow) (id : String) : Prop :=
  flow ∈ choices flows id ∧ ∃ before after, flows = before ++ flow :: after ∧ ∀ other ∈ before, other ∉ choices flows id

theorem find?_eq_some_iff_first {p : FullFlow → Bool} {flows : List FullFlow} :
    flows.find? p = some flow ↔ flow ∈ flows.filter p ∧
      ∃ before after, flows = before ++ flow :: after ∧ ∀ other ∈ before, other ∉ flows.filter p := by
  rw [List.find?_eq_some_iff_append]
  constructor
  · rintro ⟨hp, before, after, rfl, hbefore⟩
    refine ⟨by simp [hp], before, after, rfl, fun other hother hmem => ?_⟩
    exact absurd (List.mem_filter.1 hmem).2 (by simpa using hbefore other hother)
  · rintro ⟨hmem, before, after, rfl, hbefore⟩
    refine ⟨(List.mem_filter.1 hmem).2, before, after, rfl, fun other hother => ?_⟩
    have hnot := hbefore other hother
    rw [List.mem_filter, not_and] at hnot
    simpa using hnot (List.mem_append_left _ hother)

omit [LinearOrder V] in
/-- A decision leads to the choice that is listed first. -/
theorem resolve_eq_ok_iff {decision : RoutingDecision} {flows : List FullFlow} {id : String} (hid : selectedCapabilityId decision = .ok id)
    (hflows : registry.getActiveFlows state = .ok flows) :
    registry.resolveFlowFromRoutingDecision state decision = .ok flow ↔ ListedFirst flows flow id := by
  have hresolve : registry.resolveFlowFromRoutingDecision state decision =
      match flows.find? (·.capabilityId = some id) with
      | some flow => .ok flow
      | none =>
        match flows.find? (·.name = id) with
        | some flow => .ok flow
        | none => .error (.noFlow id) := by
    rw [resolveFlowFromRoutingDecision, hid, hflows]
    rfl
  rw [hresolve]
  unfold ListedFirst choices
  cases hdeclared : flows.find? (·.capabilityId = some id) with
  | some declared =>
    have hany : flows.any (·.capabilityId = some id) = true := by
      rw [List.any_eq_true, ← List.find?_isSome, hdeclared]
      rfl
    rw [if_pos hany, ← find?_eq_some_iff_first, hdeclared]
    simp only [Except.ok.injEq, Option.some.injEq]
  | none =>
    have hany : ¬ flows.any (·.capabilityId = some id) = true := by
      rw [List.any_eq_true, ← List.find?_isSome, hdeclared]
      simp
    rw [if_neg hany, ← find?_eq_some_iff_first]
    cases flows.find? (·.name = id) <;> simp

omit [LinearOrder V] in
/-- Whatever a decision leads to is active. -/
theorem resolve_active {decision : RoutingDecision}
    (h : registry.resolveFlowFromRoutingDecision state decision = .ok flow) :
    flow.status = .active ∧ ∃ name version, registry.getFlow state name version = .ok flow := by
  unfold resolveFlowFromRoutingDecision at h
  cases hid : selectedCapabilityId decision with
  | error error => rw [hid] at h; cases h
  | ok id =>
    cases hflows : registry.getActiveFlows state with
    | error error => rw [hid, hflows] at h; cases h
    | ok flows =>
      obtain ⟨-, before, after, hsplit, -⟩ := (resolve_eq_ok_iff hid hflows).1 h
      exact getActiveFlows_mem hflows (by simp [hsplit])

/-- The item of an active flow, and what the other active flows must leave to it. -/
structure Offered (registry : FlowRegistry V) (state : State registry.store) (flows : List FullFlow) (flow : FullFlow)
    (item : SelectableItem) : Prop where
  sound : registry.Sound state
  listed : registry.getActiveFlows state = .ok flows
  active : flow ∈ flows
  item_eq : flowToSelectableItem flow none = .ok item
  /-- All active versions advertise the same id, -/
  versions : ∀ other ∈ flows, other.name = flow.name → other.advertisedId = item.id
  /-- and no active flow of another name advertises it or bears it. -/
  others : ∀ other ∈ flows, other.name ≠ flow.name → other.advertisedId ≠ item.id ∧ other.name ≠ item.id

/-- A decision for an offered flow leads to the highest active version, the one that the server
exposes, exactly if no choice is listed before it. No decision leads to a flow that is not
active. -/
theorem resolve_iff (registry : FlowRegistry V) {state : State registry.store} {flows : List FullFlow} {flow : FullFlow}
    (hoffered : registry.Offered state flows flow item)
    (hdecision : makeRoutingDecision decisionId item.id candidates cardId summary = .ok decision) :
    (∃ latest newest, registry.latestActive flows = .ok latest ∧ latest.get? flow.name = some newest ∧
      newest ∈ flows ∧ newest.name = flow.name ∧
      (∀ other ∈ flows, other.name = flow.name → registry.AtMost other.version newest.version) ∧
      (registry.resolveFlowFromRoutingDecision state decision = .ok newest ↔ ListedFirst flows newest item.id)) ∧
    ∀ decision found, registry.resolveFlowFromRoutingDecision state decision = .ok found → found.status = .active := by
  refine ⟨?_, fun decision found h => (resolve_active h).1⟩
  obtain ⟨latest, hlatest, hnewest⟩ :=
    latestActive_newest fun other hother => getActiveFlows_valid hoffered.sound hoffered.listed hother
  cases hget : latest.get? flow.name with
  | none => exact absurd rfl (hnewest.absent hget flow hoffered.active)
  | some newest =>
    obtain ⟨hmem, hname, hmax⟩ := hnewest.newest hget
    exact ⟨latest, newest, hlatest, hget, hmem, hname, hmax,
      resolve_eq_ok_iff (selectedCapabilityId_made hdecision) hoffered.listed⟩

/-- A registry with releases of one flow. -/
def released (versions : List String) : State InMemoryStore.registryStore :=
  (releaseRegistry.machine emptyRegistry).after (versions.map fun version => .registerFlow (releasedFlow version) false)

theorem released_fit (versions : List String) (state : State InMemoryStore.registryStore) :
    (releaseRegistry.machine emptyRegistry).Admitted (releaseRegistry.Fits fun _ => True) state
      (versions.map fun version => .registerFlow (releasedFlow version) false) := by
  induction versions generalizing state with
  | nil => trivial
  | cons version rest ih => exact ⟨trivial, ih _⟩

theorem released_sound (versions : List String) : releaseRegistry.Sound (released versions) :=
  Machine.stateFrom_admitted_keeps (m := releaseRegistry.machine emptyRegistry)
    (fun _ _ h hok => step_sound InMemoryStore.registryStore_keeps h hok)
    (init_sound emptyRegistry_loads emptyRegistry_opened) (released_fit versions emptyRegistry)

def greetItem : SelectableItem := { id := "greet", label := "greet", description := "", capabilityId := some "greet" }

def greetDecision : RoutingDecision where
  id := "rd"
  choiceCards := [{ id := "cards", items := [{ greetItem with description := "greet" }] }]
  selectedItemId := some "greet"
  selectedCardId := some "cards"

theorem greetDecision_made : makeRoutingDecision "rd" "greet" ["greet"] "cards" = .ok greetDecision := rfl

theorem released_offered {first second : String}
    (hlisted : releaseRegistry.getActiveFlows (released [first, second]) = .ok [releasedFlow first, releasedFlow second]) :
    releaseRegistry.Offered (released [first, second]) [releasedFlow first, releasedFlow second] (releasedFlow first) greetItem where
  sound := released_sound _
  listed := hlisted
  active := .head _
  item_eq := rfl
  versions other hother _ := by
    simp only [List.mem_cons, List.not_mem_nil, or_false] at hother
    rcases hother with rfl | rfl <;> rfl
  others other hother hname := by
    simp only [List.mem_cons, List.not_mem_nil, or_false] at hother
    rcases hother with rfl | rfl <;> exact absurd rfl hname

theorem resolve_iff_released : ∃ newest, newest.version = "1.10" ∧
    releaseRegistry.resolveFlowFromRoutingDecision (released ["1.10", "1.9"]) greetDecision = .ok newest := by
  obtain ⟨⟨latest, newest, hlatest, hnewest, -, -, -, hiff⟩, -⟩ :=
    resolve_iff releaseRegistry (@released_offered "1.10" "1.9" rfl) greetDecision_made
  have hcomputed : releaseRegistry.latestActive [releasedFlow "1.10", releasedFlow "1.9"] =
      .ok (OrderedDict.empty.insert "greet" (releasedFlow "1.10")) := rfl
  obtain rfl := Except.ok.inj (hlatest.symm.trans hcomputed)
  obtain rfl : releasedFlow "1.10" = newest := Option.some.inj hnewest
  exact ⟨_, rfl, hiff.2 ⟨List.mem_filter.2 ⟨.head _, by decide⟩, [], _, rfl, fun other hother => by cases hother⟩⟩

/-- The version that is listed first is resolved, and a higher one is exposed. -/
theorem lower_version_resolved :
    releaseRegistry.Offered (released ["1.9", "2.0"]) [releasedFlow "1.9", releasedFlow "2.0"] (releasedFlow "1.9") greetItem ∧
      releaseRegistry.latestActive [releasedFlow "1.9", releasedFlow "2.0"] =
        .ok (OrderedDict.empty.insert "greet" (releasedFlow "2.0")) ∧
      releaseRegistry.resolveFlowFromRoutingDecision (released ["1.9", "2.0"]) greetDecision = .ok (releasedFlow "1.9") ∧
      releasedFlow "1.9" ≠ releasedFlow "2.0" :=
  ⟨released_offered rfl, rfl, rfl, fun h => absurd (congrArg (·.version) h) (by decide)⟩

end FlowRegistry

end ChainWeaver
