import ChainWeaver.ToolDrift

/-!
# Drift that nothing has marked

An active flow whose snapshot knows another schema of a registered tool: only a flow
that is registered so, or a tool whose name is new, can bring that about.
-/

namespace ChainWeaver

-- Stores

theorem FullFlow.status_of_normal {flow read : FullFlow} (h : read.normal = flow.normal) : read.status = flow.status := by
  show read.normal.status = flow.normal.status
  rw [h]

theorem FullFlow.hashes_of_normal {flow read : FullFlow} {hashes : OrderedDict String}
    (h : read.normal = flow.normal) (hread : read.toolSchemaHashes = some hashes) :
    ∃ saved, flow.toolSchemaHashes = some saved ∧ ∀ name, hashes.get? name = saved.get? name := by
  have hsorted : read.toolSchemaHashes.map OrderedDict.sorted = flow.toolSchemaHashes.map OrderedDict.sorted := by
    show read.normal.toolSchemaHashes = flow.normal.toolSchemaHashes
    rw [h]
  rw [hread, Option.map_some, eq_comm, Option.map_eq_some_iff] at hsorted
  obtain ⟨saved, hsaved, heq⟩ := hsorted
  refine ⟨saved, hsaved, fun name => ?_⟩
  rw [← OrderedDict.get?_sorted hashes, ← heq, OrderedDict.get?_sorted]

namespace FlowRegistry

theorem normal_updated (flow : FullFlow) (status : Option FlowStatus) (hashes : Option (Option (OrderedDict String))) :
    (updated flow status hashes).normal =
      { flow.normal with
        status := status.getD flow.normal.status
        toolSchemaHashes := (hashes.map (Option.map OrderedDict.sorted)).getD flow.normal.toolSchemaHashes } := by
  cases hashes <;> rfl

theorem updated_updated (flow : FullFlow) (status status' : Option FlowStatus)
    (hashes hashes' : Option (Option (OrderedDict String))) :
    updated (updated flow status hashes) status' hashes' = updated flow (status'.or status) (hashes'.or hashes) := by
  cases status' <;> cases hashes' <;> rfl

end FlowRegistry

/-- A flow that fits is read back as it was saved, and so are the others. Its status
and its snapshot do not matter. -/
structure RegistryStore.Durable (store : RegistryStore) (Fit : FullFlow → Prop) : Prop extends store.Keeps Fit where
  saved : store.Loads stored → Fit flow → store.saveFlow stored flow overwrite = .ok stored' →
    ∃ read, store.loadFlow stored' flow.key = .ok read ∧ read.normal = flow.normal
  others : store.saveFlow stored flow overwrite = .ok stored' → ∀ (key : FlowKey) (read : FullFlow), key ≠ flow.key →
    (store.loadFlow stored' key = .ok read ↔ store.loadFlow stored key = .ok read)
  updated : ∀ {flow read : FullFlow} {status hashes}, Fit flow → read.normal = (FlowRegistry.updated flow status hashes).normal → Fit read

theorem InMemoryStore.registryStore_durable : InMemoryStore.registryStore.Durable fun _ => True where
  toKeeps := registryStore_keeps
  saved {stored flow overwrite stored'} _ _ hsave := by
    obtain rfl := saveFlow_eq hsave
    exact ⟨flow, loadFlow_insert_self stored, rfl⟩
  others {stored flow overwrite stored'} hsave key read hne := by
    obtain rfl := saveFlow_eq hsave
    rw [show InMemoryStore.registryStore.loadFlow = InMemoryStore.loadFlow from rfl, loadFlow_insert_ne stored hne]
  updated _ _ := trivial

/-- The file of the flow is read back, whatever its status and its snapshot. -/
def FileStore.Lasting (store : FileStore) (flow : FullFlow) : Prop :=
  ∀ read status hashes, read.normal = (FlowRegistry.updated flow status hashes).normal → store.Fits read

theorem FileStore.registryStore_durable (store : FileStore) : store.registryStore.Durable store.Lasting where
  loads hloads hfit := store.registryStore_keeps.loads hloads (hfit _ none none rfl)
  keys hloads hfit := store.registryStore_keeps.keys hloads (hfit _ none none rfl)
  saved _ hfit hsave := loadFlow_saved (hfit _ none none rfl) hsave
  others {stored flow overwrite stored'} hsave key read hne := by
    constructor
    · exact fun hread => (loadFlow_other hsave (loadFlow_allowed hread) hne).symm.trans hread
    · exact fun hread => (loadFlow_other hsave (loadFlow_allowed hread) hne).trans hread
  updated {flow read status hashes} hfit hread other status' hashes' hother := by
    rw [FlowRegistry.normal_updated, hread, ← FlowRegistry.normal_updated, FlowRegistry.updated_updated] at hother
    exact hfit other _ _ hother

-- What the registry holds behind a call

namespace FlowRegistry

section

variable {V : Type} {registry : FlowRegistry V} {Fit : FullFlow → Prop}
variable {state state' state'' : State registry.store} {flow read : FullFlow}

/-- What can be loaded was there before, or has been saved. -/
def Changes (registry : FlowRegistry V) (Saved : FullFlow → Prop) (state state' : State registry.store) : Prop :=
  ∀ key read, registry.store.loadFlow state'.stored key = .ok read →
    registry.store.loadFlow state.stored key = .ok read ∨
      ∃ flow, Saved flow ∧ flow.key = key ∧ read.normal = flow.normal

theorem Changes.refl {Saved : FullFlow → Prop} : registry.Changes Saved state state := fun _ _ h => .inl h

theorem Changes.trans {Saved : FullFlow → Prop} (h : registry.Changes Saved state state')
    (h' : registry.Changes Saved state' state'') : registry.Changes Saved state state'' := by
  intro key read hread
  rcases h' key read hread with hread | hsaved
  · exact h key read hread
  · exact .inr hsaved

theorem Changes.imp {Saved Saved' : FullFlow → Prop} (h : registry.Changes Saved state state')
    (hsaved : ∀ flow, Saved flow → Saved' flow) : registry.Changes Saved' state state' := by
  intro key read hread
  exact (h key read hread).imp_right fun ⟨flow, hflow, hkey⟩ => ⟨flow, hsaved flow hflow, hkey⟩

theorem save_changes (hd : registry.store.Durable Fit) (hloads : registry.store.Loads state.stored) (hfit : Fit flow)
    {overwrite : Bool}
    (hsave : registry.store.saveFlow state.stored flow overwrite = .ok state'.stored) :
    registry.Changes (· = flow) state state' := by
  intro key read hread
  by_cases hkey : key = flow.key
  · obtain ⟨own, hown, hnormal⟩ := hd.saved hloads hfit hsave
    obtain rfl := Except.ok.inj (hown.symm.trans (hkey ▸ hread))
    exact .inr ⟨flow, rfl, hkey.symm, hnormal⟩
  · exact .inl ((hd.others hsave key read hkey).1 hread)

theorem getFlow_loaded {flowName : String} {version : Option String}
    (hget : registry.getFlow state flowName version = .ok flow) :
    ∃ key, registry.store.loadFlow state.stored key = .ok flow := by
  unfold getFlow at hget
  split at hget
  · cases hget
  · split at hget
    next found hfound => exact Except.ok.inj hget ▸ ⟨_, hfound⟩
    next => cases hget

theorem getFlow_at {flowName version : String} (hget : registry.getFlow state flowName (some version) = .ok flow) :
    registry.store.loadFlow state.stored ⟨flowName, version⟩ = .ok flow := by
  unfold getFlow at hget
  rw [Option.some_or] at hget
  dsimp only at hget
  split at hget
  next found hfound => exact Except.ok.inj hget ▸ hfound
  next => cases hget

theorem mem_loadListed {flows : List FullFlow} (keys : List FlowKey) (hlist : registry.loadListed state keys = .ok flows) :
    flow ∈ flows ↔ ∃ key ∈ keys, registry.store.loadFlow state.stored key = .ok flow := by
  induction keys generalizing flows with
  | nil =>
    obtain rfl := Except.ok.inj hlist
    simp
  | cons key rest ih =>
    obtain ⟨first, hfirst, hlist⟩ := Attempt.bind_eq_ok.1 hlist
    obtain ⟨others, hothers, hlist⟩ := Attempt.bind_eq_ok.1 hlist
    obtain rfl := Except.ok.inj hlist
    have hloaded : registry.store.loadFlow state.stored key = .ok first := getFlow_at hfirst
    rw [List.mem_cons, ih hothers, List.exists_mem_cons_iff, hloaded, Except.ok.injEq, eq_comm]

variable [LinearOrder V]

structure Stocked (registry : FlowRegistry V) (Fit : FullFlow → Prop) (state : State registry.store) : Prop where
  sound : registry.Sound state
  fits : ∀ key flow, registry.store.loadFlow state.stored key = .ok flow → Fit flow

theorem Stocked.changed {Saved : FullFlow → Prop} (hd : registry.store.Durable Fit) (h : registry.Stocked Fit state)
    (hsound : registry.Sound state') (hchanges : registry.Changes Saved state state')
    (hsaved : ∀ flow, Saved flow → Fit flow) : registry.Stocked Fit state' := by
  refine ⟨hsound, fun key read hread => ?_⟩
  rcases hchanges key read hread with hread | ⟨flow, hflow, -, hnormal⟩
  · exact h.fits key read hread
  · have hnormal : read.normal = (updated flow none none).normal := hnormal
    exact hd.updated (hsaved flow hflow) hnormal

section

variable {overwrite : Bool}

theorem saveAndTouch_changes (hd : registry.store.Durable Fit) (hloads : registry.store.Loads state.stored) (hfit : Fit flow) :
    registry.Changes (· = flow) state (registry.saveAndTouch state flow overwrite).2 := by
  unfold saveAndTouch
  split
  · exact .refl
  next stored hsave => split <;> exact save_changes hd hloads hfit hsave

theorem registerFlow_changes (hd : registry.store.Durable Fit) (hloads : registry.store.Loads state.stored) (hfit : Fit flow) :
    registry.Changes (· = flow) state (registry.registerFlow state flow overwrite).2 := by
  unfold registerFlow
  split
  · exact .refl
  · exact .refl
  · exact saveAndTouch_changes hd hloads hfit

end

section

variable {flowName : String} {version : Option String} {status : Option FlowStatus} {newStatus : FlowStatus} {new : FullFlow}
variable {hashes : Option (Option (OrderedDict String))}

theorem Stocked.updated_fits (hd : registry.store.Durable Fit) (h : registry.Stocked Fit state)
    (hget : registry.getFlow state flowName version = .ok flow) : Fit (updated flow status hashes) := by
  obtain ⟨key, hload⟩ := getFlow_loaded hget
  exact hd.updated (h.fits key flow hload) rfl

theorem updateFlowState_changes (hd : registry.store.Durable Fit) (h : registry.Stocked Fit state) :
    registry.Changes (fun new => ∃ old, registry.getFlow state flowName version = .ok old ∧
      new = updated old status hashes) state (registry.updateFlowState state flowName version status hashes).2 := by
  unfold updateFlowState
  split
  · exact .refl
  next flow hget =>
  split
  · exact .refl
  have hfit : Fit (updated flow status hashes) := h.updated_fits hd hget
  have hchanges : registry.Changes (fun new => ∃ old, registry.getFlow state flowName version = .ok old ∧
      new = updated old status hashes) state (registry.saveAndTouch state (updated flow status hashes) true).2 :=
    (saveAndTouch_changes hd h.sound.loads hfit).imp fun new hnew => ⟨flow, hget, hnew⟩
  dsimp only
  split
  next heq =>
    rw [heq] at hchanges
    exact hchanges
  next heq =>
    rw [heq] at hchanges
    exact hchanges

theorem updateFlowState_stocked (hd : registry.store.Durable Fit) (h : registry.Stocked Fit state) :
    registry.Stocked Fit (registry.updateFlowState state flowName version status hashes).2 := by
  have hsound : registry.Sound (registry.updateFlowState state flowName version status hashes).2 :=
    updateFlowState_sound flowName hd.toKeeps h.sound fun old hget => h.updated_fits hd hget
  refine h.changed hd hsound (updateFlowState_changes hd h) fun new hnew => ?_
  obtain ⟨old, hget, rfl⟩ := hnew
  exact h.updated_fits hd hget

/-- A state that has been updated is the one that is read. -/
theorem updateFlowState_saved (hd : registry.store.Durable Fit) (h : registry.Stocked Fit state)
    (hupdate : registry.updateFlowState state flowName version (some newStatus) hashes = (.ok new, state')) :
    ∃ old read, registry.getFlow state flowName version = .ok old ∧ registry.store.loadFlow state'.stored old.key = .ok read ∧
      read.normal = (updated old (some newStatus) hashes).normal := by
  unfold updateFlowState at hupdate
  split at hupdate
  · cases hupdate
  next flow hget =>
  rw [if_neg (by simp)] at hupdate
  dsimp only at hupdate
  split at hupdate
  next heq =>
    obtain ⟨-, rfl⟩ := Prod.mk.inj hupdate
    unfold saveAndTouch at heq
    split at heq
    · cases heq
    next stored hsave =>
    split at heq
    · cases heq
    next latest _ =>
    obtain ⟨-, rfl⟩ := Prod.mk.inj heq
    obtain ⟨read, hread, hnormal⟩ := hd.saved h.sound.loads (h.updated_fits hd hget) hsave
    exact ⟨flow, read, hget, hread, hnormal⟩
  next => cases hupdate

end

-- Marking

section

variable {tool : Tool} {tools : OrderedDict Tool} {name : String}

theorem setFlowStatus_eq {flowName : String} {status : FlowStatus} {version : Option String} :
    registry.setFlowStatus state flowName status version =
      ((registry.updateFlowState state flowName version (some status) none).1.map fun _ => (),
        (registry.updateFlowState state flowName version (some status) none).2) := by
  unfold setFlowStatus
  split
  next heq => rw [heq]; rfl
  next heq => rw [heq]; rfl

theorem setFlowStatus_changes {flowName : String} {status : FlowStatus} {version : Option String}
    (hd : registry.store.Durable Fit) (h : registry.Stocked Fit state)
    (hset : registry.setFlowStatus state flowName status version = (outcome, state')) :
    registry.Stocked Fit state' ∧ registry.Changes (fun new => new.status = status) state state' := by
  rw [setFlowStatus_eq] at hset
  obtain ⟨-, rfl⟩ := Prod.mk.inj hset
  refine ⟨updateFlowState_stocked hd h, (updateFlowState_changes hd h).imp fun new hnew => ?_⟩
  obtain ⟨old, -, rfl⟩ := hnew
  rfl

/-- What has been marked is read with the mark. -/
theorem setFlowStatus_read {flowName version : String} {status : FlowStatus}
    (hd : registry.store.Durable Fit) (h : registry.Stocked Fit state)
    (hset : registry.setFlowStatus state flowName status (some version) = (.ok (), state'))
    (hread : registry.store.loadFlow state'.stored ⟨flowName, version⟩ = .ok read) : read.status = status := by
  rw [setFlowStatus_eq] at hset
  cases hupdate : registry.updateFlowState state flowName (some version) (some status) none with
  | mk result after =>
    rw [hupdate] at hset
    obtain ⟨hok, rfl⟩ := Prod.mk.inj hset
    cases result with
    | error error => cases hok
    | ok new =>
      obtain ⟨old, own, hget, hown, hnormal⟩ := updateFlowState_saved hd h hupdate
      have hkey : old.key = ⟨flowName, version⟩ := (h.sound.loads.listed (getFlow_at hget)).2
      obtain rfl := Except.ok.inj ((hkey ▸ hown).symm.trans hread)
      exact FullFlow.status_of_normal hnormal

/-- Marking saves nothing but flows that need a review. -/
theorem markDrifted_changes (hd : registry.store.Durable Fit) (flows : List FullFlow) (h : registry.Stocked Fit state) :
    registry.Stocked Fit (registry.markDrifted tool state flows).2 ∧
      registry.Changes (fun new => new.status = .needsReview) state (registry.markDrifted tool state flows).2 := by
  induction flows generalizing state with
  | nil => exact ⟨h, .refl⟩
  | cons flow rest ih =>
    unfold markDrifted
    split
    · split
      next heq => exact setFlowStatus_changes hd h heq
      next heq =>
        obtain ⟨hstocked, hchanges⟩ := setFlowStatus_changes hd h heq
        exact ⟨(ih hstocked).1, hchanges.trans (ih hstocked).2⟩
    · exact ih h

theorem markDrifted_marks (hd : registry.store.Durable Fit) (flows : List FullFlow) (h : registry.Stocked Fit state)
    (hmark : registry.markDrifted tool state flows = (.ok (), state')) (hflow : flow ∈ flows)
    (hmismatch : mismatches flow tool = true) (hread : registry.store.loadFlow state'.stored flow.key = .ok read) :
    read.status = .needsReview := by
  induction flows generalizing state with
  | nil => cases hflow
  | cons first rest ih =>
    unfold markDrifted at hmark
    rcases List.mem_cons.1 hflow with rfl | hflow
    · rw [if_pos hmismatch] at hmark
      split at hmark
      · cases hmark
      next middle hset =>
      have hstocked := (setFlowStatus_changes hd h hset).1
      have hchanges : registry.Changes (fun new => new.status = .needsReview) middle
          (registry.markDrifted tool middle rest).2 := (markDrifted_changes hd rest hstocked).2
      rw [hmark] at hchanges
      rcases hchanges _ _ hread with hread | ⟨new, hstatus, -, hnormal⟩
      · exact setFlowStatus_read hd h hset hread
      · exact (FullFlow.status_of_normal hnormal).trans hstatus
    · split at hmark
      · split at hmark
        · cases hmark
        next middle hset => exact ih (setFlowStatus_changes hd h hset).1 hmark hflow
      · exact ih h hmark hflow

/-- The list has every flow that can be loaded. -/
theorem mem_listFlows (h : registry.Sound state) (hlist : registry.listFlows state none [] = .ok flows) :
    flow ∈ flows ↔ ∃ key, registry.store.loadFlow state.stored key = .ok flow := by
  obtain ⟨loaded, hloaded, hlist⟩ := Attempt.bind_eq_ok.1 hlist
  obtain rfl := Except.ok.inj hlist
  rw [show (loaded.filter _) = loaded from List.filter_eq_self.2 fun _ _ => by simp, mem_loadListed _ hloaded]
  constructor
  · exact fun ⟨key, _, hkey⟩ => ⟨key, hkey⟩
  · exact fun ⟨key, hkey⟩ => ⟨key, (h.loads.listed hkey).1, hkey⟩

end

-- Drift

/-- The flow is active, and its snapshot knows another schema of a registered tool. -/
def Stale (tools : OrderedDict Tool) (flow : FullFlow) (name : String) : Prop :=
  flow.status = .active ∧ ∃ hashes expected tool, flow.toolSchemaHashes = some hashes ∧
    hashes.get? name = some expected ∧ tools.get? name = some tool ∧ expected ≠ tool.schemaHash

/-- A version of a flow that runs, with a schema of a tool it does not know. -/
def Drifted (state : DriftState registry.store) (key : FlowKey) (name : String) : Prop :=
  ∃ flow, registry.store.loadFlow state.registered.stored key = .ok flow ∧ Stale state.tools flow name

section

variable {tools : OrderedDict Tool} {name : String} {tool : Tool} {start : DriftState registry.store}

theorem mem_driftOf {info : DriftInfo} : info ∈ driftOf tools flow ↔ info.flowName = flow.name ∧ ∃ hashes tool,
    flow.toolSchemaHashes = some hashes ∧ hashes.get? info.toolName = some info.expectedHash ∧
      tools.get? info.toolName = some tool ∧ tool.schemaHash = info.actualHash ∧ info.expectedHash ≠ info.actualHash := by
  unfold driftOf
  cases hhashes : flow.toolSchemaHashes with
  | none => simp
  | some hashes =>
    simp only [List.mem_filterMap, ← OrderedDict.get?_eq_some_iff, Prod.exists, Option.some.injEq, exists_and_left,
      exists_eq_left']
    constructor
    · rintro ⟨name, expected, hexpected, hentry⟩
      split at hentry
      next tool htool =>
        split at hentry
        next hne =>
          obtain rfl := Option.some.inj hentry
          exact ⟨rfl, hexpected, tool, htool, rfl, hne⟩
        next => cases hentry
      next => cases hentry
    · rintro ⟨hname, hexpected, tool, htool, hactual, hne⟩
      refine ⟨info.toolName, info.expectedHash, hexpected, ?_⟩
      rw [htool]
      simp only [hactual, hne, ne_eq, not_false_eq_true, if_true, ← hname]

theorem stale_of_mem {info : DriftInfo} (hactive : flow.status = .active) (h : info ∈ driftOf tools flow) :
    Stale tools flow info.toolName := by
  obtain ⟨-, hashes, tool, hhashes, hexpected, htool, hactual, hne⟩ := mem_driftOf.1 h
  exact ⟨hactive, hashes, info.expectedHash, tool, hhashes, hexpected, htool, hactual ▸ hne⟩

theorem mismatches_of_stale (h : Stale (tools.insert tool.name tool) flow tool.name) : mismatches flow tool = true := by
  obtain ⟨-, hashes, expected, found, hhashes, hexpected, htool, hne⟩ := h
  rw [OrderedDict.get?_insert, if_pos rfl] at htool
  obtain rfl := Option.some.inj htool
  simpa [mismatches, hhashes, hexpected] using hne

theorem stale_insert_ne (h : Stale (tools.insert tool.name tool) flow name) (hne : name ≠ tool.name) :
    Stale tools flow name := by
  obtain ⟨hactive, hashes, expected, found, hhashes, hexpected, htool, hne'⟩ := h
  rw [OrderedDict.get?_insert, if_neg hne] at htool
  exact ⟨hactive, hashes, expected, found, hhashes, hexpected, htool, hne'⟩

/-- A tool under a known name and with the schema of old changes nothing. -/
theorem stale_insert_same (h : Stale (tools.insert tool.name tool) flow tool.name) (hold : tools.get? tool.name = some old)
    (hsame : old.schemaHash = tool.schemaHash) : Stale tools flow tool.name := by
  obtain ⟨hactive, hashes, expected, found, hhashes, hexpected, htool, hne⟩ := h
  rw [OrderedDict.get?_insert, if_pos rfl] at htool
  obtain rfl := Option.some.inj htool
  exact ⟨hactive, hashes, expected, old, hhashes, hexpected, hold, hsame ▸ hne⟩

omit [LinearOrder V] in
/-- Drift that the saved flows do not show was there before. -/
theorem Drifted.before {state' : State registry.store} (h : registry.Drifted ⟨state', start.tools⟩ key name)
    (hchanges : registry.Changes Saved start.registered state')
    (hsaved : ∀ new, Saved new → ∀ read : FullFlow, read.normal = new.normal → new.key = key → ¬Stale start.tools read name) :
    registry.Drifted start key name := by
  obtain ⟨read, hread, hstale⟩ := h
  rcases hchanges key read hread with hread | ⟨new, hnew, hkey, hnormal⟩
  · exact ⟨read, hread, hstale⟩
  · exact absurd hstale (hsaved new hnew read hnormal hkey)

theorem not_stale_of_review {read new : FullFlow} (hnew : new.status = .needsReview) (hnormal : read.normal = new.normal) :
    ¬Stale tools read name := by
  rintro ⟨hactive, -⟩
  rw [FullFlow.status_of_normal hnormal, hnew] at hactive
  cases hactive

theorem handleSchemaDrift_stocked (hd : registry.store.Durable Fit) (h : registry.Stocked Fit state)
    (hhandle : registry.handleSchemaDrift state tool = (outcome, state')) :
    registry.Stocked Fit state' ∧ registry.Changes (fun new => new.status = .needsReview) state state' := by
  unfold handleSchemaDrift at hhandle
  split at hhandle
  · obtain ⟨-, rfl⟩ := Prod.mk.inj hhandle
    exact ⟨h, .refl⟩
  next flows _ =>
    rw [← show (registry.markDrifted tool state flows).2 = state' from congrArg Prod.snd hhandle]
    exact markDrifted_changes hd flows h

/-- Every flow that the tool does not match is marked. -/
theorem handleSchemaDrift_marks (hd : registry.store.Durable Fit) (h : registry.Stocked Fit state)
    (hhandle : registry.handleSchemaDrift state tool = (.ok (), state'))
    (hread : registry.store.loadFlow state'.stored key = .ok read) (hactive : read.status = .active) :
    mismatches read tool = false := by
  have hchanges := (handleSchemaDrift_stocked hd h hhandle).2
  unfold handleSchemaDrift at hhandle
  split at hhandle
  · cases hhandle
  next flows hlist =>
  rcases hchanges key read hread with hbefore | ⟨new, hnew, -, hnormal⟩
  · have hkey := (h.sound.loads.listed hbefore).2
    cases hmismatch : mismatches read tool with
    | false => rfl
    | true =>
      have hmarked := markDrifted_marks hd flows h hhandle ((mem_listFlows h.sound hlist).2 ⟨key, hbefore⟩) hmismatch
        (hkey ▸ hread)
      exact nomatch hactive.symm.trans hmarked
  · rw [FullFlow.status_of_normal hnormal, hnew] at hactive
    cases hactive

/-- The operation may bring about drift: it registers the flow, or a tool whose name
is new. -/
def Introduces (state : DriftState registry.store) (op : DriftOp) (key : FlowKey) (name : String) : Prop :=
  match op with
  | .registerFlow flow _ => flow.key = key
  | .registerTool tool => tool.name = name ∧ state.tools.get? name = none
  | _ => False

/-- The flow that is registered is read back. -/
def DriftFits (Fit : FullFlow → Prop) : DriftOp → Prop
  | .registerFlow flow _ => Fit flow
  | _ => True

theorem registerTool_step (hd : registry.store.Durable Fit) (h : registry.Stocked Fit start.registered)
    (htool : registry.registerTool start tool = (outcome, after)) :
    registry.Stocked Fit after.registered ∧
      (registry.Drifted after key name → registry.Drifted start key name ∨ tool.name = name ∧ start.tools.get? name = none) := by
  unfold registerTool at htool
  split at htool
  next hchanged =>
    split at htool
    next error registered hhandle =>
      obtain ⟨-, rfl⟩ := Prod.mk.inj htool
      obtain ⟨hstocked, hchanges⟩ := handleSchemaDrift_stocked hd h hhandle
      refine ⟨hstocked, fun hdrifted => .inl (hdrifted.before hchanges fun new hnew read hnormal _ => ?_)⟩
      exact not_stale_of_review hnew hnormal
    next registered hhandle =>
      obtain ⟨-, rfl⟩ := Prod.mk.inj htool
      obtain ⟨hstocked, hchanges⟩ := handleSchemaDrift_stocked hd h hhandle
      refine ⟨hstocked, fun hdrifted => .inl ?_⟩
      obtain ⟨read, hread, hstale⟩ := hdrifted
      have hne : name ≠ tool.name := by
        rintro rfl
        have hmatches := handleSchemaDrift_marks hd h hhandle hread hstale.1
        exact nomatch hmatches.symm.trans (mismatches_of_stale hstale)
      have hdrifted : registry.Drifted ⟨registered, start.tools⟩ key name := ⟨read, hread, stale_insert_ne hstale hne⟩
      exact hdrifted.before hchanges fun new hnew read hnormal _ => not_stale_of_review hnew hnormal
  next hchanged =>
    obtain ⟨-, rfl⟩ := Prod.mk.inj htool
    refine ⟨h, fun hdrifted => ?_⟩
    obtain ⟨read, hread, hstale⟩ := hdrifted
    by_cases hname : name = tool.name
    · subst hname
      cases hold : start.tools.get? tool.name with
      | none => exact .inr ⟨rfl, rfl⟩
      | some old =>
        have hsame : old.schemaHash = tool.schemaHash := by simpa [changed, hold] using hchanged
        exact .inl ⟨read, hread, stale_insert_same hstale hold hsame⟩
    · exact .inl ⟨read, hread, stale_insert_ne hstale hname⟩

theorem newHashes_current (steps : List FlowStep)
    (hhashes : ∀ name expected, hashes.get? name = some expected → ∃ tool, tools.get? name = some tool ∧ expected = tool.schemaHash)
    (h : newHashes tools steps hashes = .ok saved) (hget : saved.get? name = some expected) :
    ∃ tool, tools.get? name = some tool ∧ expected = tool.schemaHash := by
  induction steps generalizing hashes with
  | nil => exact hhashes name expected (Except.ok.inj h ▸ hget)
  | cons step rest ih =>
    unfold newHashes at h
    split at h
    · cases h
    next stepName _ =>
    split at h
    · next tool htool =>
      refine ih (fun name expected hget => ?_) h
      rw [OrderedDict.get?_insert] at hget
      split at hget
      · next heq => exact ⟨tool, heq ▸ htool, (Option.some.inj hget).symm⟩
      · exact hhashes name expected hget
    · exact ih hhashes h

/-- The flow that has been accepted has drifted from none of the tools. -/
theorem driftOf_accepted {old read : FullFlow} (hhashes : newHashes tools steps .empty = .ok hashes)
    (hnormal : read.normal = (updated old (some .active) (some (some hashes))).normal) : driftOf tools read = [] := by
  refine List.eq_nil_iff_forall_not_mem.2 fun info hinfo => ?_
  obtain ⟨-, found, tool, hfound, hexpected, htool, hactual, hne⟩ := mem_driftOf.1 hinfo
  obtain ⟨saved, hsaved, hsame⟩ := FullFlow.hashes_of_normal hnormal hfound
  obtain rfl : hashes = saved := Option.some.inj hsaved
  obtain ⟨current, hcurrent, hcurrently⟩ := newHashes_current steps (by simp) hhashes ((hsame _).symm.trans hexpected)
  obtain rfl := Option.some.inj (htool.symm.trans hcurrent)
  exact hne (hcurrently.trans hactual)

theorem not_stale_of_drift (h : driftOf tools flow = []) : ¬Stale tools flow name := by
  rintro ⟨-, hashes, expected, tool, hhashes, hexpected, htool, hne⟩
  have hmem : (⟨flow.name, name, expected, tool.schemaHash⟩ : DriftInfo) ∈ driftOf tools flow :=
    mem_driftOf.2 ⟨rfl, hashes, tool, hhashes, hexpected, htool, rfl, hne⟩
  rw [h] at hmem
  cases hmem

theorem acceptDrift_step {flowName : String} {version : Option String} (hd : registry.store.Durable Fit)
    (h : registry.Stocked Fit start.registered) (haccept : registry.acceptDrift start flowName version = (outcome, after)) :
    after.tools = start.tools ∧ registry.Stocked Fit after.registered ∧
      (registry.Drifted after key name → registry.Drifted start key name) := by
  unfold acceptDrift at haccept
  split at haccept
  · obtain ⟨-, rfl⟩ := Prod.mk.inj haccept
    exact ⟨rfl, h, id⟩
  next flow hget =>
  split at haccept
  · obtain ⟨-, rfl⟩ := Prod.mk.inj haccept
    exact ⟨rfl, h, id⟩
  next hashes hhashes =>
  let Saved (new : FullFlow) : Prop := ∃ old, registry.getFlow start.registered flowName version = .ok old ∧
    new = updated old (some .active) (some (some hashes))
  have hsaved : ∀ new, Saved new → ∀ read : FullFlow, read.normal = new.normal → new.key = key →
      ¬Stale start.tools read name := by
    rintro _ ⟨old, -, rfl⟩ read hnormal -
    exact not_stale_of_drift (driftOf_accepted hhashes hnormal)
  have hstocked : registry.Stocked Fit (registry.updateFlowState start.registered flowName version (some .active)
      (some (some hashes))).2 := updateFlowState_stocked hd h
  have hchanges : registry.Changes Saved start.registered (registry.updateFlowState start.registered flowName version
      (some .active) (some (some hashes))).2 := updateFlowState_changes hd h
  split at haccept
  next heq =>
    obtain ⟨-, rfl⟩ := Prod.mk.inj haccept
    rw [heq] at hstocked hchanges
    exact ⟨rfl, hstocked, fun hdrifted => hdrifted.before hchanges hsaved⟩
  next heq =>
    obtain ⟨-, rfl⟩ := Prod.mk.inj haccept
    rw [heq] at hstocked hchanges
    exact ⟨rfl, hstocked, fun hdrifted => hdrifted.before hchanges hsaved⟩

/-- `accept_drift` leaves no entry of the version it is called for. -/
theorem acceptDrift_accepted {flowName : String} {version : Option String} (hd : registry.store.Durable Fit)
    (h : registry.Stocked Fit start.registered) (haccept : registry.acceptDrift start flowName version = (.ok (), after)) :
    ∃ flow read, registry.getFlow start.registered flowName version = .ok flow ∧
      registry.store.loadFlow after.registered.stored flow.key = .ok read ∧ read.status = .active ∧
        driftOf after.tools read = [] := by
  unfold acceptDrift at haccept
  split at haccept
  · cases haccept
  split at haccept
  · cases haccept
  next hashes hhashes =>
  split at haccept
  · cases haccept
  next new registered hupdate =>
  obtain ⟨-, rfl⟩ := Prod.mk.inj haccept
  obtain ⟨old, read, hget, hread, hnormal⟩ := updateFlowState_saved hd h hupdate
  exact ⟨old, read, hget, hread, FullFlow.status_of_normal hnormal, driftOf_accepted hhashes hnormal⟩

/-- One operation: drift that was not there before is of what it registers. -/
theorem driftStep_step (key : FlowKey) (name : String) (hd : registry.store.Durable Fit) (h : registry.Stocked Fit start.registered)
    (hfits : DriftFits Fit op) : registry.Stocked Fit (registry.driftStep start op).2.registered ∧
      (registry.Drifted (registry.driftStep start op).2 key name →
        registry.Drifted start key name ∨ registry.Introduces start op key name) := by
  cases op with
  | registerFlow flow overwrite =>
    have hchanges : registry.Changes (· = flow) start.registered
        (registry.registerFlow start.registered flow overwrite).2 := registerFlow_changes hd h.sound.loads hfits
    have hstocked := h.changed hd (registerFlow_sound overwrite hd.toKeeps h.sound hfits) hchanges fun _ hnew => hnew ▸ hfits
    have hstep : (registry.driftStep start (.registerFlow flow overwrite)).2 =
        { start with registered := (registry.registerFlow start.registered flow overwrite).2 } := by
      unfold driftStep
      dsimp only
      split <;> next heq => rw [heq]
    rw [hstep]
    refine ⟨hstocked, fun hdrifted => ?_⟩
    by_cases hkey : flow.key = key
    · exact .inr hkey
    · refine .inl (hdrifted.before hchanges fun new hnew read _ hread => ?_)
      exact absurd (hnew ▸ hread) hkey
  | registerTool tool =>
    rcases hresult : registry.registerTool start tool with ⟨outcome, after⟩
    have hstep : (registry.driftStep start (.registerTool tool)).2 = after := by
      simp only [driftStep, hresult]
      cases outcome <;> rfl
    rw [hstep]
    exact registerTool_step hd h hresult
  | acceptDrift flowName version =>
    rcases hresult : registry.acceptDrift start flowName version with ⟨outcome, after⟩
    have hstep : (registry.driftStep start (.acceptDrift flowName version)).2 = after := by
      simp only [driftStep, hresult]
      cases outcome <;> rfl
    rw [hstep]
    obtain ⟨-, hstocked, hdrifted⟩ := acceptDrift_step hd h hresult
    exact ⟨hstocked, fun h => .inl (hdrifted h)⟩
  | getDriftReport =>
    have hstep : (registry.driftStep start .getDriftReport).2 = start := by
      unfold driftStep
      dsimp only
      split <;> rfl
    rw [hstep]
    exact ⟨h, .inl⟩
  | run => exact ⟨h, .inl⟩

/-- Every drift in a run was brought about by a registration, and has been there since. -/
theorem drift_introduced (hd : registry.store.Durable Fit) {registered : State registry.store}
    (h : registry.Stocked Fit registered) (ops : List DriftOp) (hfits : ∀ op ∈ ops, DriftFits Fit op) :
    registry.Stocked Fit ((registry.driftMachine registered).after ops).registered ∧
      ∀ key name, registry.Drifted ((registry.driftMachine registered).after ops) key name →
        ∃ before op rest, ops = before ++ op :: rest ∧
          registry.Introduces ((registry.driftMachine registered).after before) op key name ∧
          registry.Drifted ((registry.driftMachine registered).after (before ++ [op])) key name := by
  induction ops using List.reverseRecOn with
  | nil =>
    refine ⟨h, fun key name hdrifted => ?_⟩
    obtain ⟨flow, -, -, hashes, expected, tool, -, -, htool, -⟩ := hdrifted
    cases htool
  | append_singleton ops op ih =>
    rw [List.forall_mem_append, List.forall_mem_singleton] at hfits
    obtain ⟨hstocked, hblame⟩ := ih hfits.1
    rw [Machine.after_concat]
    have hstep := fun key name => driftStep_step key name hd hstocked hfits.2
    refine ⟨(hstep ⟨"", ""⟩ "").1, fun key name hdrifted => ?_⟩
    rcases (hstep key name).2 hdrifted with hbefore | hintroduces
    · obtain ⟨before, other, rest, rfl, hother, hthen⟩ := hblame key name hbefore
      exact ⟨before, other, rest ++ [op], by simp, hother, hthen⟩
    · exact ⟨ops, op, [], rfl, hintroduces, by rwa [Machine.after_concat]⟩

/-- The report lists the drift of every version. -/
theorem mem_getDriftReport (h : registry.Sound start.registered) (hreport : registry.getDriftReport start = .ok entries) :
    info ∈ entries ↔ ∃ key flow, registry.store.loadFlow start.registered.stored key = .ok flow ∧
      info ∈ driftOf start.tools flow := by
  unfold getDriftReport at hreport
  split at hreport
  · cases hreport
  next flows hlist =>
  obtain rfl := Except.ok.inj hreport
  simp only [List.mem_flatMap, mem_listFlows h hlist]
  constructor
  · exact fun ⟨flow, ⟨key, hkey⟩, hinfo⟩ => ⟨key, flow, hkey, hinfo⟩
  · exact fun ⟨key, flow, hkey, hinfo⟩ => ⟨flow, ⟨key, hkey⟩, hinfo⟩

/-- What is known of drift behind any run of a new executor. -/
structure DriftKnown (registry : FlowRegistry V) (registered : State registry.store) (ops : List DriftOp) : Prop where
  introduced : ∀ key name, registry.Drifted ((registry.driftMachine registered).after ops) key name →
    ∃ before op rest, ops = before ++ op :: rest ∧
      registry.Introduces ((registry.driftMachine registered).after before) op key name ∧
      registry.Drifted ((registry.driftMachine registered).after (before ++ [op])) key name
  reported : ∀ entries, registry.getDriftReport ((registry.driftMachine registered).after ops) = .ok entries →
    ∀ info, info ∈ entries → ∃ key flow, registry.store.loadFlow
      ((registry.driftMachine registered).after ops : DriftState registry.store).registered.stored key = .ok flow ∧
        info.flowName = flow.name ∧ (flow.status = .active →
          registry.Drifted ((registry.driftMachine registered).after ops) key info.toolName)
  accepted : ∀ flowName version after, registry.acceptDrift ((registry.driftMachine registered).after ops) flowName version =
    (.ok (), after) → ∃ flow read, registry.getFlow
      ((registry.driftMachine registered).after ops : DriftState registry.store).registered flowName version = .ok flow ∧
        registry.store.loadFlow after.registered.stored flow.key = .ok read ∧ read.status = .active ∧
          driftOf after.tools read = []

theorem drift_known (registry : FlowRegistry V) {registered : State registry.store} (hd : registry.store.Durable Fit)
    (h : registry.Stocked Fit registered) (ops : List DriftOp) (hfits : ∀ op ∈ ops, DriftFits Fit op) :
    registry.DriftKnown registered ops := by
  obtain ⟨hstocked, hintroduced⟩ := drift_introduced hd h ops hfits
  refine ⟨hintroduced, fun entries hreport info hinfo => ?_, fun flowName version after haccept => ?_⟩
  · obtain ⟨key, flow, hflow, hmem⟩ := (mem_getDriftReport hstocked.sound hreport).1 hinfo
    exact ⟨key, flow, hflow, (mem_driftOf.1 hmem).1, fun hactive => ⟨flow, hflow, stale_of_mem hactive hmem⟩⟩
  · exact acceptDrift_accepted hd hstocked haccept

end

end

-- A tool that is new

/-- A flow that was accepted over another schema of its tool. -/
def acceptedFlow : FullFlow := { releasedFlow "1.0" with toolSchemaHashes := some (.ofList [("a", "old")]) }

def driftOps : List DriftOp := [.registerFlow acceptedFlow false, .registerTool (Sample.tool "a")]

theorem emptyRegistry_stocked : releaseRegistry.Stocked (fun _ => True) emptyRegistry where
  sound := init_sound emptyRegistry_loads emptyRegistry_opened
  fits _ _ _ := trivial

theorem driftOps_fit : ∀ op ∈ driftOps, DriftFits (fun _ => True) op := by simp [driftOps, DriftFits]

theorem driftOps_known : releaseRegistry.DriftKnown emptyRegistry driftOps :=
  drift_known releaseRegistry InMemoryStore.registryStore_durable emptyRegistry_stocked driftOps driftOps_fit

/-- The version stays active. -/
theorem new_tool_unmarked : ¬∀ (ops : List DriftOp) (key : FlowKey) (name : String),
    ¬releaseRegistry.Drifted ((releaseRegistry.driftMachine emptyRegistry).after ops) key name := by
  intro h
  let state : DriftState InMemoryStore.registryStore := (releaseRegistry.driftMachine emptyRegistry).after driftOps
  have hloaded : ((InMemoryStore.loadFlow state.registered.stored ⟨"greet", "1.0"⟩).toOption.any fun flow =>
      flow.status = .active && (driftOf state.tools flow).any (·.toolName = "a")) = true := by decide +kernel
  obtain ⟨flow, hflow, hstale⟩ := (Option.any_eq_true ..).1 hloaded
  obtain ⟨hactive, hdrift⟩ := Bool.and_eq_true_iff.1 hstale
  obtain ⟨info, hinfo, htool⟩ := List.any_eq_true.1 hdrift
  have hload : InMemoryStore.loadFlow state.registered.stored ⟨"greet", "1.0"⟩ = .ok flow := by
    cases hload : InMemoryStore.loadFlow state.registered.stored ⟨"greet", "1.0"⟩ with
    | ok found => rw [hload, Except.toOption, Option.some.injEq] at hflow; rw [hflow]
    | error => rw [hload] at hflow; cases hflow
  refine h driftOps ⟨"greet", "1.0"⟩ "a" ⟨flow, hload, ?_⟩
  have hname : info.toolName = "a" := by simpa using htool
  exact hname ▸ stale_of_mem (by simpa using hactive) hinfo

end FlowRegistry

end ChainWeaver
