import ChainWeaver.RegistryLaws
import Mathlib.Logic.Relation

/-!
# Serving a directory

`chainweaver serve` on a directory of flow files: the files are registered one after
another, and the flows with an exposable lifecycle are then looked up by name.
-/

namespace ChainWeaver.Serve

open FlowRegistry (State iterFlowFiles)

/-- Flow lifecycles that may be exposed: `exposable_flow_lifecycle`. -/
def exposableFlowLifecycle : List FlowLifecycle := [.active, .reviewed]

def exposable (flow : FullFlow) : Bool := exposableFlowLifecycle.contains flow.governance.lifecycle

/-- What a tool of the server is bound to. -/
structure ServedFlow where
  mcpName : String
  flowName : String
  flowVersion : String

inductive ServeError
  | registry (error : RegistryError)
  | schemaRef (message : String)
  | valueError (message : String)

structure FlowServer (store : RegistryStore) where
  registered : State store
  tools : List ServedFlow

def mcpName (serverPrefix : String) (flow : FullFlow) : String :=
  if serverPrefix ≠ "" then s!"{serverPrefix}__{flow.name}" else flow.name

section

variable {V : Type} [LinearOrder V] (registry : FlowRegistry V)
/- What resolving the schema refs of a flow raises. -/
variable (schemas : FullFlow → Except String Unit)

/-- The loop of `_load_flows_from_dir`. -/
def loadFlows (registered : State registry.store) (names : List String) :
    List FlowFile → Except RegistryError (List String) × State registry.store
  | [] => (.ok names, registered)
  | file :: rest =>
    match registry.loadFlowFile file with
    -- a malformed file is skipped
    | .error _ => loadFlows registered names rest
    | .ok flow =>
      match registry.registerFlow registered flow true with
      | (.error error, registered) => (.error error, registered)
      | (.ok (), registered) => loadFlows registered (if exposable flow then names ++ [flow.name] else names) rest

def getFlows (registered : State registry.store) : List String → Except RegistryError (List FullFlow)
  | [] => .ok []
  | name :: rest => do
    let flow ← registry.getFlow registered name none
    let flows ← getFlows registered rest
    pure (flow :: flows)

/-- `_register_flow`. -/
def registerFlow (serverPrefix : String) (tools : List ServedFlow) (flow : FullFlow) :
    Except ServeError (List ServedFlow) :=
  match schemas flow with
  | .error message => .error (.schemaRef message)
  | .ok () =>
    let name := mcpName serverPrefix flow
    if name ∈ tools.map (·.mcpName) then .error (.valueError s!"MCP tool name collision for '{name}'.")
    else .ok (tools ++ [⟨name, flow.name, flow.version⟩])

/-- The flows of `_register_all_flows`, all of which are forced. -/
def registerFlows (serverPrefix : String) (tools : List ServedFlow) : List FullFlow → Except ServeError (List ServedFlow)
  | [] => .ok tools
  | flow :: rest => do
    let tools ← registerFlow schemas serverPrefix tools flow
    registerFlows serverPrefix tools rest

/-- `_build_flow_server` on a directory, over a registry that is still empty. -/
def buildFlowServer (opened : State registry.store) (serverPrefix : String) (files : List FlowFile) :
    Except ServeError (FlowServer registry.store) :=
  match loadFlows registry opened [] (iterFlowFiles files) with
  | (.error error, _) => .error (.registry error)
  | (.ok names, registered) =>
    match getFlows registry registered names with
    | .error error => .error (.registry error)
    | .ok flows =>
      match registerFlows schemas serverPrefix [] flows with
      | .error error => .error error
      | .ok tools => .ok { registered, tools }

/-- The flows of these files, without the files that are skipped. -/
def loaded (files : List FlowFile) : List FullFlow :=
  files.filterMap fun file => (registry.loadFlowFile file).toOption

end

def exposableNames (flows : List FullFlow) : List String := (flows.filter exposable).map (·.name)

-- The latest version of a name

section

variable {V : Type} [LinearOrder V] {registry : FlowRegistry V} {flows : List FullFlow} {flow last : FullFlow}

/-- No flow of the name has a greater version, and none behind it an equal one. -/
def Latest (registry : FlowRegistry V) (flows : List FullFlow) (flow : FullFlow) : Prop :=
  ∃ before rest, flows = before ++ flow :: rest ∧
    (∀ other ∈ before, other.name = flow.name → registry.AtMost other.version flow.version) ∧
      ∀ other ∈ rest, other.name = flow.name → ¬registry.AtMost flow.version other.version

theorem Latest.mem (h : Latest registry flows flow) : flow ∈ flows := by
  obtain ⟨before, rest, rfl, -⟩ := h
  simp

theorem latest_concat : Latest registry (flows ++ [last]) flow ↔
    (flow = last ∧ ∀ other ∈ flows, other.name = last.name → registry.AtMost other.version last.version) ∨
      (Latest registry flows flow ∧ (last.name = flow.name → ¬registry.AtMost flow.version last.version)) := by
  constructor
  · rintro ⟨before, rest, heq, hbefore, hrest⟩
    rcases List.eq_nil_or_concat rest with rfl | ⟨front, final, rfl⟩
    · obtain ⟨rfl, hlast⟩ := List.append_inj' heq rfl
      obtain rfl := List.singleton_inj.1 hlast
      exact .inl ⟨rfl, hbefore⟩
    · rw [List.concat_eq_append] at heq hrest
      rw [← List.cons_append, ← List.append_assoc] at heq
      obtain ⟨rfl, hlast⟩ := List.append_inj' heq rfl
      obtain rfl := List.singleton_inj.1 hlast
      refine .inr ⟨⟨before, front, rfl, hbefore, fun other hother => hrest other (by simp [hother])⟩, ?_⟩
      exact hrest last (by simp)
  · rintro (⟨rfl, hall⟩ | ⟨⟨before, rest, rfl, hbefore, hrest⟩, hlast⟩)
    · exact ⟨flows, [], rfl, hall, by simp⟩
    · refine ⟨before, rest ++ [last], by simp, hbefore, fun other hother => ?_⟩
      rcases List.mem_append.1 hother with hother | hother
      · exact hrest other hother
      · obtain rfl := List.mem_singleton.1 hother
        exact hlast

/-- A store that takes every flow and gives it back. -/
structure Exact (store : RegistryStore) : Prop where
  keeps : store.Keeps fun _ => True
  saves : ∀ stored flow, ∃ stored', store.saveFlow stored flow true = .ok stored'
  saved : ∀ {stored stored'} {flow : FullFlow}, store.saveFlow stored flow true = .ok stored' →
    store.loadFlow stored' flow.key = .ok flow
  others : ∀ {stored stored'} {flow : FullFlow}, store.saveFlow stored flow true = .ok stored' →
    ∀ key : FlowKey, key ≠ flow.key → store.loadFlow stored' key = store.loadFlow stored key

theorem inMemory_exact : Exact InMemoryStore.registryStore where
  keeps := InMemoryStore.registryStore_keeps
  saves stored flow := ⟨_, if_neg (by simp)⟩
  saved {stored stored' flow} hsave := by
    obtain rfl := InMemoryStore.saveFlow_eq hsave
    exact InMemoryStore.loadFlow_insert_self stored
  others {stored stored' flow} hsave key hne := by
    obtain rfl := InMemoryStore.saveFlow_eq hsave
    exact InMemoryStore.loadFlow_insert_ne stored hne

variable {registered registered' : State registry.store}

/-- The registry behind the registration of these flows, one after another. -/
structure Shows (registry : FlowRegistry V) (flows : List FullFlow) (registered : State registry.store) : Prop where
  sound : registry.Sound registered
  listed : ∀ key, key ∈ registry.store.listKeys registered.stored ↔ ∃ flow ∈ flows, flow.key = key
  latest : ∀ name flow, registry.getFlow registered name none = .ok flow ↔ Latest registry flows flow ∧ flow.name = name

/-- What a registration asks of a flow. -/
structure Registrable (registry : FlowRegistry V) (flow : FullFlow) : Prop where
  version : ∃ parsed, registry.parse flow.version = .ok parsed
  topology : registry.checkTopology flow = .ok ()

omit [LinearOrder V] in
theorem getFlow_touched {name version : String} (hget : registered.latest.get? name = some version) :
    registry.getFlow registered name none = .ok flow ↔
      registry.store.loadFlow registered.stored ⟨name, version⟩ = .ok flow := by
  simp only [FlowRegistry.getFlow, Option.none_or, hget]
  split <;> simp [*]

omit [LinearOrder V] in
theorem getFlow_congr {name : String} (hlatest : registered'.latest.get? name = registered.latest.get? name)
    (hload : ∀ version, registered.latest.get? name = some version →
      registry.store.loadFlow registered'.stored ⟨name, version⟩ = registry.store.loadFlow registered.stored ⟨name, version⟩) :
    registry.getFlow registered' name none = registry.getFlow registered name none := by
  simp only [FlowRegistry.getFlow, Option.none_or, hlatest]
  cases hget : registered.latest.get? name with
  | none => rfl
  | some version => simp only [hload version hget]

theorem latest_other {name : String} (h : Shows registry flows registered) (hne : name ≠ last.name) :
    registry.getFlow registered name none = .ok flow ↔ Latest registry (flows ++ [last]) flow ∧ flow.name = name := by
  rw [h.latest, latest_concat]
  constructor
  · rintro ⟨hlatest, rfl⟩
    exact ⟨.inr ⟨hlatest, fun hname => absurd hname.symm hne⟩, rfl⟩
  · rintro ⟨⟨rfl, -⟩ | ⟨hlatest, -⟩, rfl⟩
    · exact absurd rfl hne
    · exact ⟨hlatest, rfl⟩

theorem registerFlow_shows (hexact : Exact registry.store) (h : Shows registry flows registered)
    (hregistrable : Registrable registry last) :
    ∃ registered', registry.registerFlow registered last true = (.ok (), registered') ∧
      Shows registry (flows ++ [last]) registered' := by
  obtain ⟨parsed, hparsed⟩ := hregistrable.version
  obtain ⟨stored, hsave⟩ := hexact.saves registered.stored last
  have hregister : ∀ latest, registry.touchLatest registered.latest last.name last.version = .ok latest →
      registry.registerFlow registered last true = (.ok (), { registered with stored, latest }) := by
    intro latest htouch
    simp only [FlowRegistry.registerFlow, FlowRegistry.parseVersion_of_ok hparsed, hregistrable.topology,
      FlowRegistry.saveAndTouch, hsave, htouch]
  have hsound : registry.Sound (registry.registerFlow registered last true).2 :=
    FlowRegistry.registerFlow_sound true hexact.keeps h.sound trivial
  have hlisted : ∀ key, key ∈ registry.store.listKeys stored ↔ ∃ flow ∈ flows ++ [last], flow.key = key := by
    intro key
    rw [hexact.keeps.keys h.sound.loads trivial hsave, h.listed]
    simp [or_comm, eq_comm]
  have hload : registry.store.loadFlow stored last.key = .ok last := hexact.saved hsave
  rcases FlowRegistry.touchLatest_cases last.name h.sound.points hparsed with ⟨htouch, hmax⟩ | ⟨current, htouch, hget, hle, hnot⟩
  · rw [hregister _ htouch] at hsound ⊢
    refine ⟨_, rfl, hsound, hlisted, fun name flow => ?_⟩
    have hmost : ∀ other ∈ flows, other.name = last.name → registry.AtMost other.version last.version :=
      fun other hother hname => hmax other.key ((h.listed other.key).2 ⟨other, hother, rfl⟩) hname
    by_cases hname : name = last.name
    · subst hname
      have htouched : (registered.latest.insert last.name last.version).get? last.name = some last.version := by simp
      rw [getFlow_touched htouched, show (⟨last.name, last.version⟩ : FlowKey) = last.key from rfl, hload, latest_concat]
      constructor
      · rintro heq
        obtain rfl := Except.ok.inj heq
        exact ⟨.inl ⟨rfl, hmost⟩, rfl⟩
      · rintro ⟨⟨rfl, -⟩ | ⟨hlatest, hnot⟩, hname⟩
        · rfl
        · exact absurd (hmost flow hlatest.mem hname) (hnot hname.symm)
    · rw [← latest_other h hname]
      refine Eq.congr_left (getFlow_congr ?_ ?_)
      · simp [hname]
      · exact fun version _ => hexact.others hsave _ (by simp [FullFlow.key, hname])
  · rw [hregister _ htouch] at hsound ⊢
    refine ⟨_, rfl, hsound, hlisted, fun name flow => ?_⟩
    have hne : current ≠ last.version := by
      rintro rfl
      exact hnot hle
    have hsame : registry.getFlow { registered with stored } name none = registry.getFlow registered name none := by
      refine getFlow_congr rfl fun version hversion => hexact.others hsave _ fun heq => ?_
      obtain ⟨rfl, rfl⟩ := FlowKey.mk.inj heq
      exact hne (Option.some.inj (hget.symm.trans hversion))
    rw [show registry.getFlow { registered with stored, latest := registered.latest } name none =
      registry.getFlow registered name none from hsame]
    by_cases hname : name = last.name
    · subst hname
      have hversion : ∀ flow, registry.getFlow registered last.name none = .ok flow → flow.version = current := by
        intro flow hflow
        obtain ⟨-, hkey⟩ := h.sound.loads.listed ((getFlow_touched hget).1 hflow)
        exact congrArg FlowKey.version hkey
      rw [latest_concat]
      constructor
      · intro hflow
        obtain ⟨hlatest, hname⟩ := (h.latest last.name flow).1 hflow
        exact ⟨.inr ⟨hlatest, fun _ => hversion flow hflow ▸ hnot⟩, hname⟩
      · rintro ⟨⟨rfl, hall⟩ | ⟨hlatest, -⟩, hname⟩
        · obtain ⟨hlisted, -⟩ := h.sound.points.pointed hget
          obtain ⟨other, hother, hkey⟩ := (h.listed ⟨flow.name, current⟩).1 hlisted
          obtain ⟨hothername, rfl⟩ := FlowKey.mk.inj hkey
          exact absurd (hall other hother hothername) hnot
        · exact (h.latest last.name flow).2 ⟨hlatest, hname⟩
    · exact latest_other h hname

theorem registrable_of_registerFlow (h : registry.registerFlow registered flow true = (.ok (), registered')) :
    Registrable registry flow := by
  unfold FlowRegistry.registerFlow at h
  split at h
  · cases h
  · cases h
  next parsed hparse htopology => exact ⟨⟨parsed, FlowRegistry.parse_of_ok hparse⟩, htopology⟩

-- What a server serves

theorem exposableNames_cons (flow : FullFlow) (flows : List FullFlow) (names : List String) :
    (if exposable flow then names ++ [flow.name] else names) ++ exposableNames flows =
      names ++ exposableNames (flow :: flows) := by
  by_cases h : exposable flow = true <;> simp [exposableNames, h]

theorem loadFlows_ok (hexact : Exact registry.store) (files : List FlowFile) (names : List String)
    (h : Shows registry flows registered) (hregistrable : ∀ flow ∈ loaded registry files, Registrable registry flow) :
    ∃ registered', loadFlows registry registered names files =
        (.ok (names ++ exposableNames (loaded registry files)), registered') ∧
      Shows registry (flows ++ loaded registry files) registered' := by
  induction files generalizing registered flows names with
  | nil => exact ⟨registered, by simp [loadFlows, loaded, exposableNames], by simpa [loaded] using h⟩
  | cons file rest ih =>
    cases hload : registry.loadFlowFile file with
    | error error =>
      have hloaded : loaded registry (file :: rest) = loaded registry rest := by simp [loaded, hload, Except.toOption]
      rw [hloaded] at hregistrable ⊢
      simp only [loadFlows, hload]
      exact ih names h hregistrable
    | ok flow =>
      have hloaded : loaded registry (file :: rest) = flow :: loaded registry rest := by
        simp [loaded, hload, Except.toOption]
      rw [hloaded, List.forall_mem_cons] at hregistrable
      obtain ⟨registered₁, hregister, hshows⟩ := registerFlow_shows hexact h hregistrable.1
      obtain ⟨registered', hrest, hshows'⟩ := ih (if exposable flow then names ++ [flow.name] else names) hshows
        hregistrable.2
      refine ⟨registered', ?_, ?_⟩
      · simp only [loadFlows, hload, hregister]
        rw [hrest, hloaded, exposableNames_cons]
      · rw [hloaded]
        simpa using hshows'

theorem registrable_of_loadFlows (files : List FlowFile) {names result : List String}
    (h : loadFlows registry registered names files = (.ok result, registered')) :
    ∀ flow ∈ loaded registry files, Registrable registry flow := by
  induction files generalizing registered names with
  | nil => simp [loaded]
  | cons file rest ih =>
    unfold loadFlows at h
    split at h
    next error hload =>
      have hloaded : loaded registry (file :: rest) = loaded registry rest := by simp [loaded, hload, Except.toOption]
      exact hloaded ▸ ih h
    next flow hload =>
      have hloaded : loaded registry (file :: rest) = flow :: loaded registry rest := by
        simp [loaded, hload, Except.toOption]
      rw [hloaded, List.forall_mem_cons]
      split at h
      · cases h
      next registered₁ hregister => exact ⟨registrable_of_registerFlow hregister, ih h⟩

omit [LinearOrder V] in
theorem getFlows_ok_iff {names : List String} {served : List FullFlow} : getFlows registry registered names = .ok served ↔
    List.Forall₂ (fun name flow => registry.getFlow registered name none = .ok flow) names served := by
  induction names generalizing served with
  | nil => simp [getFlows, eq_comm]
  | cons name rest ih =>
    rw [getFlows, Attempt.bind_eq_ok, List.forall₂_cons_left_iff]
    constructor
    · rintro ⟨flow, hflow, hrest⟩
      obtain ⟨flows, hflows, hserved⟩ := Attempt.bind_eq_ok.1 hrest
      exact ⟨flow, flows, hflow, ih.1 hflows, (Except.ok.inj hserved).symm⟩
    · rintro ⟨flow, flows, hflow, hflows, rfl⟩
      exact ⟨flow, hflow, Attempt.bind_eq_ok.2 ⟨flows, ih.2 hflows, rfl⟩⟩

/-- Every name with a registered flow has a latest version. -/
theorem Shows.exists_latest (h : Shows registry flows registered) (hflow : flow ∈ flows) :
    ∃ latest, registry.getFlow registered flow.name none = .ok latest := by
  have hlisted : (⟨flow.name, flow.version⟩ : FlowKey) ∈ registry.store.listKeys registered.stored :=
    (h.listed _).2 ⟨flow, hflow, rfl⟩
  obtain ⟨latest, hlatest, -⟩ := FlowRegistry.getFlow_latest h.sound hlisted
  exact ⟨latest, hlatest⟩

theorem Shows.getFlows (h : Shows registry flows registered) (names : List String)
    (hnames : ∀ name ∈ names, ∃ flow ∈ flows, flow.name = name) :
    ∃ served, Serve.getFlows registry registered names = .ok served := by
  induction names with
  | nil => exact ⟨[], rfl⟩
  | cons name rest ih =>
    rw [List.forall_mem_cons] at hnames
    obtain ⟨⟨flow, hflow, rfl⟩, hrest⟩ := hnames
    obtain ⟨latest, hlatest⟩ := h.exists_latest hflow
    obtain ⟨served, hserved⟩ := ih hrest
    rw [getFlows_ok_iff] at hserved
    exact ⟨latest :: served, getFlows_ok_iff.2 (.cons hlatest hserved)⟩

end

section

variable {V : Type} [LinearOrder V] {registry : FlowRegistry V} {schemas : FullFlow → Except String Unit}
variable {serverPrefix : String} {flows : List FullFlow} {tools tools' : List ServedFlow}

def tool (serverPrefix : String) (flow : FullFlow) : ServedFlow := ⟨mcpName serverPrefix flow, flow.name, flow.version⟩

theorem mcpName_inj {first second : FullFlow} : mcpName serverPrefix first = mcpName serverPrefix second ↔
    first.name = second.name := by
  unfold mcpName
  split
  · simp [toString]
  · exact .rfl

theorem registerFlow_ok_iff {flow : FullFlow} : registerFlow schemas serverPrefix tools flow = .ok tools' ↔
    schemas flow = .ok () ∧ mcpName serverPrefix flow ∉ tools.map (·.mcpName) ∧ tools' = tools ++ [tool serverPrefix flow] := by
  unfold registerFlow
  cases hschemas : schemas flow with
  | error message => simp
  | ok =>
    dsimp only
    split
    · simp [*]
    · simp [*, tool, eq_comm]

theorem registerFlows_ok_iff (hnew : (tools.map (·.mcpName)).Nodup) :
    registerFlows schemas serverPrefix tools flows = .ok tools' ↔ (∀ flow ∈ flows, schemas flow = .ok ()) ∧
      (tools.map (·.mcpName) ++ flows.map (mcpName serverPrefix)).Nodup ∧ tools' = tools ++ flows.map (tool serverPrefix) := by
  induction flows generalizing tools with
  | nil => simp [registerFlows, hnew, eq_comm]
  | cons flow rest ih =>
    have hnames : tools.map (·.mcpName) ++ (flow :: rest).map (mcpName serverPrefix) =
        (tools ++ [tool serverPrefix flow]).map (·.mcpName) ++ rest.map (mcpName serverPrefix) := by simp [tool]
    have htools : tools ++ (flow :: rest).map (tool serverPrefix) =
        tools ++ [tool serverPrefix flow] ++ rest.map (tool serverPrefix) := by simp
    rw [registerFlows, Attempt.bind_eq_ok, List.forall_mem_cons, hnames, htools]
    constructor
    · rintro ⟨registered, hregister, hrest⟩
      obtain ⟨hschemas, hfresh, rfl⟩ := registerFlow_ok_iff.1 hregister
      have hnodup : ((tools ++ [tool serverPrefix flow]).map (·.mcpName)).Nodup := by
        rw [List.map_append, List.map_singleton]
        refine List.nodup_append.2 ⟨hnew, List.nodup_singleton _, fun name hname other hother heq => ?_⟩
        obtain rfl := List.mem_singleton.1 hother
        exact hfresh (heq.subst (motive := (· ∈ tools.map (·.mcpName))) hname)
      obtain ⟨hothers, hdistinct, htools'⟩ := (ih hnodup).1 hrest
      exact ⟨⟨hschemas, hothers⟩, hdistinct, htools'⟩
    · rintro ⟨⟨hschemas, hothers⟩, hdistinct, htools'⟩
      have hnodup : ((tools ++ [tool serverPrefix flow]).map (·.mcpName)).Nodup := hdistinct.of_append_left
      have hfresh : mcpName serverPrefix flow ∉ tools.map (·.mcpName) := by
        rw [List.map_append, List.map_singleton, List.nodup_append] at hnodup
        exact fun hmem => hnodup.2.2 _ hmem _ (List.mem_singleton_self _) rfl
      exact ⟨_, registerFlow_ok_iff.2 ⟨hschemas, hfresh, rfl⟩, (ih hnodup).2 ⟨hothers, hdistinct, htools'⟩⟩

variable {opened registered : State registry.store} {files : List FlowFile}

/-- What a directory must be for a server to start on it. -/
structure Servable (registry : FlowRegistry V) (schemas : FullFlow → Except String Unit) (flows : List FullFlow) : Prop where
  registrable : ∀ flow ∈ flows, Registrable registry flow
  distinct : (exposableNames flows).Nodup
  schemas : ∀ flow, Latest registry flows flow → flow.name ∈ exposableNames flows → schemas flow = .ok ()

/-- What it serves then: of each name with an exposable version the latest one. -/
structure Serves (registry : FlowRegistry V) (serverPrefix : String) (flows : List FullFlow)
    (server : FlowServer registry.store) : Prop where
  shows : Shows registry flows server.registered
  tools : ∃ served : List FullFlow, server.tools = served.map (tool serverPrefix) ∧ served.map (·.name) = exposableNames flows ∧
    ∀ flow ∈ served, Latest registry flows flow

theorem Shows.latest_unique {first second : FullFlow} (h : Shows registry flows registered)
    (hfirst : Latest registry flows first) (hsecond : Latest registry flows second) (hname : first.name = second.name) :
    first = second :=
  Except.ok.inj (((h.latest second.name first).2 ⟨hfirst, hname⟩).symm.trans ((h.latest _ _).2 ⟨hsecond, rfl⟩))

theorem getFlows_names {names : List String} {served : List FullFlow} (h : Shows registry flows registered)
    (hserved : getFlows registry registered names = .ok served) :
    served.map (·.name) = names ∧ ∀ flow ∈ served, Latest registry flows flow := by
  rw [getFlows_ok_iff] at hserved
  induction hserved with
  | nil => simp
  | @cons name flow names served hflow _ ih =>
    obtain ⟨hlatest, hname⟩ := (h.latest name flow).1 hflow
    rw [List.map_cons, hname, ih.1, List.forall_mem_cons]
    exact ⟨rfl, hlatest, ih.2⟩

theorem nodup_mcpNames {served : List FullFlow} : (served.map (mcpName serverPrefix)).Nodup ↔ (served.map (·.name)).Nodup := by
  simp only [List.Nodup, List.pairwise_map, ne_eq, mcpName_inj]

theorem buildFlowServer_ok (hexact : Exact registry.store) (hopened : Shows registry [] opened) :
    (∀ server, buildFlowServer registry schemas opened serverPrefix files = .ok server →
      Servable registry schemas (loaded registry (iterFlowFiles files)) ∧
        Serves registry serverPrefix (loaded registry (iterFlowFiles files)) server) ∧
    (Servable registry schemas (loaded registry (iterFlowFiles files)) →
      ∃ server, buildFlowServer registry schemas opened serverPrefix files = .ok server) := by
  constructor
  · intro server hserver
    unfold buildFlowServer at hserver
    split at hserver
    · cases hserver
    next names registered hload =>
    split at hserver
    · cases hserver
    next served hserved =>
    split at hserver
    · cases hserver
    next tools htools =>
    obtain rfl := Except.ok.inj hserver
    have hregistrable := registrable_of_loadFlows _ hload
    obtain ⟨registered', hload', hshows⟩ := loadFlows_ok hexact (iterFlowFiles files) [] hopened hregistrable
    rw [List.nil_append] at hload'
    obtain ⟨hnames, rfl⟩ := Prod.mk.inj (hload'.symm.trans hload)
    obtain rfl := Except.ok.inj hnames
    obtain ⟨hserved, hlatest⟩ := getFlows_names hshows hserved
    obtain ⟨hschemas, hdistinct, rfl⟩ := (registerFlows_ok_iff (by simp)).1 htools
    rw [List.map_nil, List.nil_append, nodup_mcpNames, hserved] at hdistinct
    refine ⟨⟨hregistrable, hdistinct, fun flow hflow hname => ?_⟩, hshows, served, rfl, hserved, hlatest⟩
    obtain ⟨other, hother, hsame⟩ := List.mem_map.1 (hserved ▸ hname)
    exact hshows.latest_unique (hlatest other hother) hflow hsame ▸ hschemas other hother
  · rintro ⟨hregistrable, hdistinct, hschemas⟩
    obtain ⟨registered, hload, hshows⟩ := loadFlows_ok hexact (iterFlowFiles files) [] hopened hregistrable
    obtain ⟨served, hserved⟩ := hshows.getFlows (exposableNames (loaded registry (iterFlowFiles files))) (by
      intro name hname
      obtain ⟨flow, hflow, rfl⟩ := List.mem_map.1 hname
      exact ⟨flow, List.mem_of_mem_filter hflow, rfl⟩)
    obtain ⟨hnames, hlatest⟩ := getFlows_names hshows hserved
    have htools : registerFlows schemas serverPrefix [] served = .ok (served.map (tool serverPrefix)) := by
      refine (registerFlows_ok_iff (by simp)).2 ⟨fun flow hflow => ?_, ?_, rfl⟩
      · exact hschemas flow (hlatest flow hflow) (hnames ▸ List.mem_map_of_mem hflow)
      · simpa [nodup_mcpNames, hnames] using hdistinct
    rw [List.nil_append] at hload
    refine ⟨{ registered, tools := served.map (tool serverPrefix) }, ?_⟩
    simp only [buildFlowServer, hload, hserved, htools]

-- Approval

/-- A step of the flow runs the other as its sub-flow. -/
def Calls (resolves : String → FullFlow → Prop) (flow other : FullFlow) : Prop :=
  ∃ step ∈ flow.steps.all, ∃ name, step.target = .flow name ∧ resolves name other

/-- Every flow that the flow runs is exposable, and the flow is. -/
def Approved (resolves : String → FullFlow → Prop) (flow : FullFlow) : Prop :=
  ∀ other, Relation.ReflTransGen (Calls resolves) flow other → exposable other = true

/-- The tools run approved versions only, and each name with an exposable version has one tool. -/
structure Withholds (registry : FlowRegistry V) (flows : List FullFlow) (server : FlowServer registry.store) : Prop where
  approved : ∀ tool ∈ server.tools, ∃ flow,
    registry.getFlow server.registered tool.flowName (some tool.flowVersion) = .ok flow ∧
      Approved (fun name other => registry.getFlow server.registered name none = .ok other) flow
  once : ∀ flow ∈ flows, exposable flow = true → (server.tools.map (·.flowName)).count flow.name = 1

/-- The flows of a directory that can be served. -/
structure Curated (registry : FlowRegistry V) (flows : List FullFlow) : Prop where
  versions : ∀ flow ∈ flows, ∃ parsed, registry.parse flow.version = .ok parsed
  distinct : (exposableNames flows).Nodup
  approved : ∀ flow, Latest registry flows flow → flow.name ∈ exposableNames flows →
    Approved (fun name other => Latest registry flows other ∧ other.name = name) flow

theorem getFlow_own {name : String} {flow : FullFlow} (h : registry.Sound registered)
    (hget : registry.getFlow registered name none = .ok flow) :
    registry.getFlow registered flow.name (some flow.version) = .ok flow := by
  cases hlatest : registered.latest.get? name with
  | none =>
    rw [FlowRegistry.getFlow_unpointed hlatest] at hget
    cases hget
  | some version =>
    have hload := (getFlow_touched hlatest).1 hget
    obtain ⟨-, hkey⟩ := h.loads.listed hload
    rw [← hkey] at hload
    have hload : registry.store.loadFlow registered.stored ⟨flow.name, flow.version⟩ = .ok flow := hload
    simp only [FlowRegistry.getFlow, Option.some_or, hload]

theorem Serves.withholds {server : FlowServer registry.store} (h : Serves registry serverPrefix flows server) :
    Withholds registry flows server ↔ (exposableNames flows).Nodup ∧ ∀ flow, Latest registry flows flow →
      flow.name ∈ exposableNames flows → Approved (fun name other => Latest registry flows other ∧ other.name = name) flow := by
  obtain ⟨hshows, served, htools, hserved, hlatest⟩ := h
  have hresolves : (fun name other => registry.getFlow server.registered name none = .ok other) =
      fun name other => Latest registry flows other ∧ other.name = name :=
    funext fun name => funext fun other => propext (hshows.latest name other)
  have hnames : server.tools.map (·.flowName) = exposableNames flows := by
    rw [htools, ← hserved, List.map_map]
    rfl
  have hown : ∀ flow, Latest registry flows flow →
      registry.getFlow server.registered flow.name (some flow.version) = .ok flow :=
    fun flow hflow => getFlow_own hshows.sound ((hshows.latest flow.name flow).2 ⟨hflow, rfl⟩)
  constructor
  · rintro ⟨happroved, honce⟩
    rw [hresolves] at happroved
    refine ⟨List.nodup_iff_count_eq_one.2 fun name hname => ?_, fun flow hflow hname => ?_⟩
    · obtain ⟨flow, hflow, rfl⟩ := List.mem_map.1 hname
      obtain ⟨hmem, hexposable⟩ := List.mem_filter.1 hflow
      exact hnames ▸ honce flow hmem hexposable
    · obtain ⟨other, hother, hsame⟩ := List.mem_map.1 (hserved ▸ hname)
      obtain rfl := hshows.latest_unique (hlatest other hother) hflow hsame
      obtain ⟨found, hfound, hruns⟩ := happroved (tool serverPrefix other) (htools ▸ List.mem_map_of_mem hother)
      obtain rfl := Except.ok.inj ((hown other hflow).symm.trans hfound)
      exact hruns
  · rintro ⟨hdistinct, happroved⟩
    refine ⟨fun bound hbound => ?_, fun flow hflow hexposable => ?_⟩
    · rw [htools] at hbound
      obtain ⟨flow, hflow, rfl⟩ := List.mem_map.1 hbound
      refine ⟨flow, hown flow (hlatest flow hflow), ?_⟩
      rw [hresolves]
      exact happroved flow (hlatest flow hflow) (hserved ▸ List.mem_map_of_mem hflow)
    · rw [hnames]
      exact List.count_eq_one_of_mem hdistinct (List.mem_map_of_mem (List.mem_filter.2 ⟨hflow, hexposable⟩))

theorem withholds_iff (hexact : Exact registry.store) (hopened : Shows registry [] opened)
    (htopology : ∀ flow ∈ loaded registry (iterFlowFiles files), registry.checkTopology flow = .ok ())
    (hschemas : ∀ flow ∈ loaded registry (iterFlowFiles files), schemas flow = .ok ()) :
    (∃ server, buildFlowServer registry schemas opened serverPrefix files = .ok server ∧
      Withholds registry (loaded registry (iterFlowFiles files)) server) ↔
        Curated registry (loaded registry (iterFlowFiles files)) := by
  obtain ⟨hserves, hstarts⟩ := @buildFlowServer_ok V _ registry schemas serverPrefix opened files hexact hopened
  constructor
  · rintro ⟨server, hserver, hwithholds⟩
    obtain ⟨hservable, hserved⟩ := hserves server hserver
    obtain ⟨hdistinct, happroved⟩ := hserved.withholds.1 hwithholds
    exact ⟨fun flow hflow => (hservable.registrable flow hflow).version, hdistinct, happroved⟩
  · rintro ⟨hversions, hdistinct, happroved⟩
    obtain ⟨server, hserver⟩ := hstarts ⟨fun flow hflow => ⟨hversions flow hflow, htopology flow hflow⟩, hdistinct,
      fun flow hflow _ => hschemas flow hflow.mem⟩
    exact ⟨server, hserver, (hserves server hserver).2.withholds.2 ⟨hdistinct, happroved⟩⟩

end

-- The registry of the command

open FlowRegistry (emptyRegistry releaseRegistry releasedFlow readRelease)

section

variable {V : Type} [LinearOrder V] (parse : String → Except String V) (hashing : Hashing) (serializer : Serializer)

/-- `FlowRegistry()`. -/
def flowRegistry : FlowRegistry V := { store := InMemoryStore.registryStore, parse, hashing, serializer }

theorem shows_empty : Shows (flowRegistry parse hashing serializer) [] emptyRegistry where
  sound := FlowRegistry.init_sound FlowRegistry.emptyRegistry_loads rfl
  listed key := by
    constructor
    · intro hkey
      cases hkey
    · rintro ⟨flow, hflow, -⟩
      cases hflow
  latest name flow := by
    constructor
    · intro hget
      cases hget
    · rintro ⟨hlatest, -⟩
      cases hlatest.mem

theorem served_withheld_iff (schemas : FullFlow → Except String Unit) (serverPrefix : String) (files : List FlowFile)
    (htopology : ∀ flow ∈ loaded (flowRegistry parse hashing serializer) (iterFlowFiles files),
      (flowRegistry parse hashing serializer).checkTopology flow = .ok ())
    (hschemas : ∀ flow ∈ loaded (flowRegistry parse hashing serializer) (iterFlowFiles files), schemas flow = .ok ()) :
    (∃ server, buildFlowServer (flowRegistry parse hashing serializer) schemas emptyRegistry serverPrefix files = .ok server ∧
      Withholds (flowRegistry parse hashing serializer) (loaded (flowRegistry parse hashing serializer) (iterFlowFiles files))
        server) ↔ Curated (flowRegistry parse hashing serializer)
          (loaded (flowRegistry parse hashing serializer) (iterFlowFiles files)) :=
  withholds_iff inMemory_exact (shows_empty parse hashing serializer) htopology hschemas

end

-- A draft of an active flow

/-- The registry of a release. -/
abbrev release : FlowRegistry (List Nat) := flowRegistry readRelease Sample.platform.hashing Serializer.greetSerializer

def flowFile (version : String) (lifecycle : FlowLifecycle) : Option FlowFile :=
  (Serializer.greetSerializer.flowToJson none { releasedFlow version with governance := { lifecycle } }).map fun json =>
    { path := version ++ ".flow.json", name := version ++ ".flow.json", digest := version, text := "", json }

def activeFiles : List FlowFile := [flowFile "1.0" .active].reduceOption

def callsNoFlow (flow : FullFlow) : Bool := flow.steps.all.all fun step => match step.target with
  | .tool _ => true
  | .flow _ => false

theorem approved_self {resolves : String → FullFlow → Prop} {flow : FullFlow} (hcalls : callsNoFlow flow = true)
    (h : exposable flow = true) : Approved resolves flow := by
  intro other hruns
  rcases hruns.cases_head with rfl | ⟨next, ⟨step, hstep, name, htarget, -⟩, -⟩
  · exact h
  · have htool := List.all_eq_true.1 hcalls step hstep
    rw [htarget] at htool
    cases htool

def justOne (good : FullFlow → Bool) : List FullFlow → Bool
  | [flow] => good flow
  | _ => false

/-- A linear flow `greet` with this lifecycle, which calls no other. -/
def greets (lifecycle : FlowLifecycle) (flow : FullFlow) : Bool :=
  flow.name = "greet" && (flow.governance.lifecycle = lifecycle && (!flow.steps.isDag &&
    ((readRelease flow.version).toOption.isSome && callsNoFlow flow)))

theorem activeFiles_loaded : justOne (greets .active) (loaded release (iterFlowFiles activeFiles)) = true := by
  decide +kernel

theorem justOne_eq_true {good : FullFlow → Bool} {flows : List FullFlow} (h : justOne good flows = true) :
    ∃ flow, flows = [flow] ∧ good flow = true := by
  cases flows with
  | nil => cases h
  | cons flow rest =>
    cases rest with
    | nil => exact ⟨flow, rfl, h⟩
    | cons => cases h

theorem release_registrable {flow : FullFlow} (hlinear : flow.steps.isDag = false)
    (hversion : (readRelease flow.version).toOption.isSome = true) : Registrable release flow where
  version := by
    cases hread : readRelease flow.version with
    | ok parsed => exact ⟨parsed, hread⟩
    | error => rw [hread] at hversion; cases hversion
  topology := FlowRegistry.checkTopology_linear hlinear

theorem served_withheld_active : ∃ server,
    buildFlowServer release (fun _ => .ok ()) emptyRegistry "cw" activeFiles = .ok server ∧
      Withholds release (loaded release (iterFlowFiles activeFiles)) server := by
  obtain ⟨flow, hloaded, hgood⟩ := justOne_eq_true activeFiles_loaded
  simp only [greets, Bool.and_eq_true, Bool.not_eq_true', decide_eq_true_eq] at hgood
  obtain ⟨-, hactive, hlinear, hversion, hcalls⟩ := hgood
  have hexposable : exposable flow = true := by simp [exposable, exposableFlowLifecycle, hactive]
  refine (served_withheld_iff readRelease Sample.platform.hashing Serializer.greetSerializer (fun _ => .ok ()) "cw" activeFiles
    (fun other hother => ?_) fun _ _ => rfl).2 ?_
  · obtain rfl := List.mem_singleton.1 (hloaded ▸ hother)
    exact FlowRegistry.checkTopology_linear hlinear
  · show Curated release (loaded release (iterFlowFiles activeFiles))
    rw [hloaded]
    refine ⟨fun other hother => ?_, by simp [exposableNames, hexposable], fun other hlatest _ => ?_⟩
    · obtain rfl := List.mem_singleton.1 hother
      exact (release_registrable hlinear hversion).version
    · obtain rfl := List.mem_singleton.1 hlatest.mem
      exact approved_self hcalls hexposable

def draftFiles : List FlowFile := [flowFile "1.0" .active, flowFile "1.1" .draft].reduceOption

theorem draftFiles_linear : ∀ flow ∈ loaded release (iterFlowFiles draftFiles), flow.steps.isDag = false := by
  have hlinear : ((loaded release (iterFlowFiles draftFiles)).all fun flow => !flow.steps.isDag) = true := by
    decide +kernel
  simpa using hlinear

theorem draft_served : ¬∀ (files : List FlowFile),
    (∀ flow ∈ loaded release (iterFlowFiles files), release.checkTopology flow = .ok ()) →
      ∃ server, buildFlowServer release (fun _ => .ok ()) emptyRegistry "" files = .ok server ∧
        Withholds release (loaded release (iterFlowFiles files)) server := by
  intro h
  obtain ⟨server, hserver, hwithholds⟩ := h draftFiles fun flow hflow =>
    FlowRegistry.checkTopology_linear (draftFiles_linear flow hflow)
  have hdraft : ((buildFlowServer release (fun _ => .ok ()) emptyRegistry "" draftFiles).toOption.any fun server =>
      server.tools.any fun tool => (release.getFlow server.registered tool.flowName (some tool.flowVersion)).toOption.any
        fun flow => !exposable flow) = true := by decide +kernel
  rw [hserver] at hdraft
  obtain ⟨tool, htool, hfound⟩ := List.any_eq_true.1 (show server.tools.any _ = true from hdraft)
  obtain ⟨flow, hget, happroved⟩ := hwithholds.approved tool htool
  rw [hget] at hfound
  have hhidden : exposable flow = false := by simpa [Except.toOption] using hfound
  exact absurd ((happroved flow .refl).symm.trans hhidden) (by decide)

end ChainWeaver.Serve
