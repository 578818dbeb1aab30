import ChainWeaver.Serve
import Mathlib.Data.List.Dedup

/-!
# Setting up a server

`claude setup --flows` and `vscode setup --flows`: a report of the tools that will be
exposed and of the flows that will not, and the entry that starts the server.
-/

namespace ChainWeaver.Serve

open FlowRegistry (State iterFlowFiles emptyRegistry readRelease)

def activeOnly : List FlowLifecycle := [.active]

def activeOrReviewed : List FlowLifecycle := [.active, .reviewed]

inductive SetupError
  /-- `OpenCodeAdapterError` -/
  | adapter (message : String)
  /-- `ChainWeaverError` -/
  | chainWeaver (message : String)

/-- `sorted(set(names))`. -/
def sortedSet (names : List String) : List String := names.dedup.insertionSort (· ≤ ·)

/-- `prefix.rstrip("_")`. -/
def rstripUnderscores (text : String) : String := .ofList (text.toList.reverse.dropWhile (· = '_')).reverse

def safeMacroToolName (flowName toolPrefix : String) : Except String String :=
  if flowName = "" then .error "flow name is empty"
  else
    let base := if toolPrefix ≠ "" then rstripUnderscores toolPrefix else ""
    .ok (if base ≠ "" then s!"{base}__{flowName}" else flowName)

def reservedOpencodeToolNames : List String :=
  ["bash", "edit", "glob", "grep", "list", "patch", "read", "run", "search", "task", "test", "todoread", "todowrite",
    "webfetch", "write"]

/-- The loop of `detect_tool_name_collisions`; no tool names are known beforehand. -/
def collisionsFrom (toolPrefix : String) (seen collisions : OrderedDict String) : List String → OrderedDict String
  | [] => collisions
  | flowName :: rest =>
    match safeMacroToolName flowName toolPrefix with
    | .error message => collisionsFrom toolPrefix seen (collisions.insert flowName message) rest
    | .ok toolName =>
      if toolName ∈ reservedOpencodeToolNames then
        let reason := s!"'{toolName}' is a reserved OpenCode built-in tool name"
        collisionsFrom toolPrefix seen (collisions.insert flowName reason) rest
      else
        match seen.get? toolName with
        | some other =>
          let reason := s!"'{toolName}' also generated by flow '{other}'"
          collisionsFrom toolPrefix seen (collisions.insert flowName reason) rest
        | none => collisionsFrom toolPrefix (seen.insert toolName flowName) collisions rest

def detectToolNameCollisions (flowNames : List String) (toolPrefix : String) : OrderedDict String :=
  collisionsFrom toolPrefix .empty .empty flowNames

/-- The arguments behind `chainweaver serve`. -/
structure McpEntry where
  flowsDir : String
  toolsModule : Option String
  /-- `--prefix` -/
  serverPrefix : Option String

def buildFlowMcpEntry (flowsDir : String) (toolsModule : Option String) (toolPrefix : String) : McpEntry where
  flowsDir := flowsDir
  toolsModule := toolsModule.filter (· ≠ "")
  serverPrefix := if toolPrefix ≠ "" then some (rstripUnderscores toolPrefix) else none

structure SetupReport where
  entry : McpEntry
  exposedTools : List (String × String)
  withheldFlows : List String
  withheldReason : String
  collisions : OrderedDict String

section

variable {V : Type} [LinearOrder V] (registry : FlowRegistry V)

def setupSet (includeReviewed : Bool) : List FlowLifecycle := if includeReviewed then activeOrReviewed else activeOnly

def activeFlowNames (includeReviewed : Bool) (files : List FlowFile) : List String × List String :=
  let flows := loaded registry (iterFlowFiles files)
  let exposes (flow : FullFlow) : Bool := (setupSet includeReviewed).contains flow.governance.lifecycle
  (sortedSet ((flows.filter exposes).map (·.name)), sortedSet ((flows.filter (!exposes ·)).map (·.name)))

def namedTools (toolPrefix : String) : List String → Except String (List (String × String))
  | [] => .ok []
  | flowName :: rest => do
    let toolName ← safeMacroToolName flowName toolPrefix
    let tools ← namedTools toolPrefix rest
    pure ((flowName, toolName) :: tools)

def setupFlows (flowsDir : String) (toolsModule : Option String) (toolPrefix : String)
    (allowCollisions includeReviewed : Bool) (files : List FlowFile) : Except SetupError SetupReport :=
  let names := activeFlowNames registry includeReviewed files
  let collisions := detectToolNameCollisions names.1 toolPrefix
  if !collisions.entries.isEmpty && !allowCollisions then
    let detail := "; ".intercalate (collisions.sorted.entries.map fun entry => s!"{entry.1}: {entry.2}")
    .error (.chainWeaver (s!"refusing to expose colliding macro-tool name(s): {detail}. " ++
      "Rename the flow(s), change --prefix, or pass --allow-collisions."))
  else
    match namedTools toolPrefix names.1 with
    | .error message => .error (.adapter message)
    | .ok exposedTools =>
      .ok
        { entry := buildFlowMcpEntry flowsDir toolsModule toolPrefix
          exposedTools
          withheldFlows := names.2
          withheldReason := if includeReviewed then "not active or reviewed" else "not active"
          collisions }

end

-- What is reported

section

variable {V : Type} [LinearOrder V] {registry : FlowRegistry V} {schemas : FullFlow → Except String Unit}
variable {flowsDir toolPrefix : String} {toolsModule : Option String} {allowCollisions includeReviewed : Bool}
variable {files : List FlowFile} {flows : List FullFlow} {report : SetupReport} {flow : FullFlow}

/-- The flow is among those that the report exposes. -/
def exposes (includeReviewed : Bool) (flow : FullFlow) : Bool :=
  (setupSet includeReviewed).contains flow.governance.lifecycle

/-- The prefix that the server is started with. -/
def McpEntry.started (entry : McpEntry) : String := entry.serverPrefix.getD ""

theorem mem_sortedSet {names : List String} {name : String} : name ∈ sortedSet names ↔ name ∈ names := by
  rw [sortedSet, List.mem_insertionSort, List.mem_dedup]

theorem safeMacroToolName_ok (h : safeMacroToolName flow.name toolPrefix = .ok toolName) :
    toolName = mcpName (buildFlowMcpEntry flowsDir toolsModule toolPrefix).started flow := by
  unfold safeMacroToolName at h
  split at h
  · cases h
  obtain rfl := Except.ok.inj h
  unfold mcpName McpEntry.started buildFlowMcpEntry
  by_cases hempty : toolPrefix = "" <;> simp [hempty]

theorem mem_namedTools {names : List String} {tools : List (String × String)} {toolName : String}
    (h : namedTools toolPrefix names = .ok tools) :
    toolName ∈ tools.map Prod.snd ↔ ∃ name ∈ names, safeMacroToolName name toolPrefix = .ok toolName := by
  induction names generalizing tools with
  | nil =>
    obtain rfl := Except.ok.inj h
    simp
  | cons name rest ih =>
    obtain ⟨first, hfirst, h⟩ := Attempt.bind_eq_ok.1 h
    obtain ⟨others, hothers, h⟩ := Attempt.bind_eq_ok.1 h
    obtain rfl := Except.ok.inj h
    rw [List.map_cons, List.mem_cons, ih hothers, List.exists_mem_cons_iff, hfirst, Except.ok.injEq, eq_comm]

theorem safe_of_namedTools {names : List String} {tools : List (String × String)} (h : namedTools toolPrefix names = .ok tools) :
    ∀ name ∈ names, ∃ toolName, safeMacroToolName name toolPrefix = .ok toolName := by
  induction names generalizing tools with
  | nil => simp
  | cons name rest ih =>
    obtain ⟨first, hfirst, h⟩ := Attempt.bind_eq_ok.1 h
    obtain ⟨others, hothers, h⟩ := Attempt.bind_eq_ok.1 h
    exact List.forall_mem_cons.2 ⟨⟨first, hfirst⟩, ih hothers⟩

/-- What the report says of the flows that were loaded. -/
structure Reports (registry : FlowRegistry V) (includeReviewed : Bool) (flows : List FullFlow) (report : SetupReport) :
    Prop where
  exposed : ∀ toolName, toolName ∈ report.exposedTools.map Prod.snd ↔
    ∃ flow ∈ flows, exposes includeReviewed flow = true ∧ mcpName report.entry.started flow = toolName
  withheld : ∀ name, name ∈ report.withheldFlows ↔ ∃ flow ∈ flows, exposes includeReviewed flow = false ∧ flow.name = name

omit [LinearOrder V] in
theorem setupFlows_reports
    (h : setupFlows registry flowsDir toolsModule toolPrefix allowCollisions includeReviewed files = .ok report) :
    Reports registry includeReviewed (loaded registry (iterFlowFiles files)) report := by
  unfold setupFlows at h
  dsimp only at h
  split at h
  · cases h
  split at h
  · cases h
  next tools htools =>
  obtain rfl := Except.ok.inj h
  refine ⟨fun toolName => ?_, fun name => ?_⟩
  · have hname : ∀ name, name ∈ (activeFlowNames registry includeReviewed files).1 ↔
        ∃ flow ∈ loaded registry (iterFlowFiles files), exposes includeReviewed flow = true ∧ flow.name = name := by
      intro name
      rw [activeFlowNames, mem_sortedSet]
      simp [exposes, and_assoc]
    rw [mem_namedTools htools]
    constructor
    · rintro ⟨name, hmem, hsafe⟩
      obtain ⟨flow, hflow, hexposes, rfl⟩ := (hname name).1 hmem
      exact ⟨flow, hflow, hexposes, (safeMacroToolName_ok hsafe).symm⟩
    · rintro ⟨flow, hflow, hexposes, rfl⟩
      have hmem := (hname flow.name).2 ⟨flow, hflow, hexposes, rfl⟩
      obtain ⟨toolName, hsafe⟩ := safe_of_namedTools htools flow.name hmem
      exact ⟨flow.name, hmem, hsafe.trans (congrArg Except.ok (safeMacroToolName_ok hsafe))⟩
  · rw [activeFlowNames, mem_sortedSet]
    simp [exposes, and_assoc]

-- What is served

variable {opened : State registry.store} {serverPrefix : String}

/-- The server has the reported tools, and none for a withheld flow. -/
structure Agrees (report : SetupReport) (server : FlowServer registry.store) : Prop where
  tools : ∀ toolName, toolName ∈ server.tools.map (·.mcpName) ↔ toolName ∈ report.exposedTools.map Prod.snd
  withheld : ∀ tool ∈ server.tools, tool.flowName ∉ report.withheldFlows

/-- A directory that is served as it is reported. -/
structure Reportable (registry : FlowRegistry V) (schemas : FullFlow → Except String Unit) (includeReviewed : Bool)
    (flows : List FullFlow) : Prop where
  registrable : ∀ flow ∈ flows, Registrable registry flow
  schemas : ∀ flow ∈ flows, exposable flow = true → schemas flow = .ok ()
  reviewed : includeReviewed = true ∨ ∀ flow ∈ flows, flow.governance.lifecycle ≠ .reviewed

theorem mem_exposableNames {name : String} : name ∈ exposableNames flows ↔
    ∃ flow ∈ flows, exposable flow = true ∧ flow.name = name := by
  simp [exposableNames, and_assoc]

theorem Serves.flowNames {server : FlowServer registry.store} (h : Serves registry serverPrefix flows server) :
    server.tools.map (·.flowName) = exposableNames flows := by
  obtain ⟨-, served, htools, hserved, -⟩ := h
  rw [htools, ← hserved, List.map_map]
  rfl

theorem Serves.mem_tools {server : FlowServer registry.store} (h : Serves registry serverPrefix flows server)
    {toolName : String} : toolName ∈ server.tools.map (·.mcpName) ↔
      ∃ flow ∈ flows, exposable flow = true ∧ mcpName serverPrefix flow = toolName := by
  obtain ⟨-, served, htools, hserved, -⟩ := h
  have hnames : server.tools.map (·.mcpName) = served.map (mcpName serverPrefix) := by
    rw [htools, List.map_map]
    rfl
  rw [hnames, List.mem_map]
  constructor
  · rintro ⟨flow, hflow, rfl⟩
    obtain ⟨other, hother, hexposable, hname⟩ := mem_exposableNames.1 (hserved ▸ List.mem_map_of_mem hflow)
    exact ⟨other, hother, hexposable, mcpName_inj.2 hname⟩
  · rintro ⟨flow, hflow, hexposable, rfl⟩
    have hmem : flow.name ∈ served.map (·.name) := hserved ▸ mem_exposableNames.2 ⟨flow, hflow, hexposable, rfl⟩
    obtain ⟨other, hother, hname⟩ := List.mem_map.1 hmem
    exact ⟨other, hother, mcpName_inj.2 hname⟩

theorem exposable_of_exposes (h : exposes includeReviewed flow = true) : exposable flow = true := by
  cases includeReviewed
  · have hactive : flow.governance.lifecycle = .active := by simpa [exposes, setupSet, activeOnly] using h
    simp [exposable, exposableFlowLifecycle, hactive]
  · exact h

theorem exposes_iff : (∀ flow ∈ flows, exposable flow = true → exposes includeReviewed flow = true) ↔
    includeReviewed = true ∨ ∀ flow ∈ flows, flow.governance.lifecycle ≠ .reviewed := by
  cases includeReviewed
  · simp only [Bool.false_eq_true, false_or]
    refine forall₂_congr fun flow _ => ?_
    cases hlifecycle : flow.governance.lifecycle <;>
      simp [exposable, exposableFlowLifecycle, exposes, setupSet, activeOnly, hlifecycle]
  · simp [exposes, setupSet, activeOrReviewed, exposable, exposableFlowLifecycle]

theorem latest_of_mem (hone : (flows.map (·.name)).Nodup) (hflow : flow ∈ flows) : Latest registry flows flow := by
  obtain ⟨before, rest, rfl⟩ := List.append_of_mem hflow
  rw [List.map_append, List.map_cons, List.nodup_append, List.nodup_cons] at hone
  obtain ⟨-, ⟨hrest, -⟩, hbefore⟩ := hone
  refine ⟨before, rest, rfl, fun other hother hname => ?_, fun other hother hname => ?_⟩
  · exact absurd hname (hbefore other.name (List.mem_map_of_mem hother) flow.name List.mem_cons_self)
  · exact absurd (hname ▸ List.mem_map_of_mem hother) hrest

theorem setup_served_iff (hexact : Exact registry.store) (hopened : Shows registry [] opened)
    (hreport : setupFlows registry flowsDir toolsModule toolPrefix allowCollisions includeReviewed files = .ok report)
    (hone : ((loaded registry (iterFlowFiles files)).map (·.name)).Nodup) :
    (∃ server, buildFlowServer registry schemas opened report.entry.started files = .ok server ∧ Agrees report server) ↔
      Reportable registry schemas includeReviewed (loaded registry (iterFlowFiles files)) := by
  obtain ⟨hexposed, hwithheld⟩ := setupFlows_reports hreport
  obtain ⟨hserves, hstarts⟩ :=
    @buildFlowServer_ok V _ registry schemas report.entry.started opened files hexact hopened
  constructor
  · rintro ⟨server, hserver, hagrees⟩
    obtain ⟨hservable, hserved⟩ := hserves server hserver
    refine ⟨hservable.registrable, fun flow hflow hexposable => ?_, exposes_iff.1 fun flow hflow hexposable => ?_⟩
    · exact hservable.schemas flow (latest_of_mem hone hflow) (mem_exposableNames.2 ⟨flow, hflow, hexposable, rfl⟩)
    · by_contra hhidden
      have hmem : flow.name ∈ server.tools.map (·.flowName) :=
        hserved.flowNames ▸ mem_exposableNames.2 ⟨flow, hflow, hexposable, rfl⟩
      obtain ⟨tool, htool, hname⟩ := List.mem_map.1 hmem
      refine hagrees.withheld tool htool ((hwithheld tool.flowName).2 ⟨flow, hflow, ?_, hname.symm⟩)
      simpa using hhidden
  · rintro ⟨hregistrable, hschemas, hreviewed⟩
    have hsame := exposes_iff.2 hreviewed
    obtain ⟨server, hserver⟩ := hstarts ⟨hregistrable, hone.sublist (List.filter_sublist.map _), fun flow hflow hname => by
      obtain ⟨other, hother, hexposable, heq⟩ := mem_exposableNames.1 hname
      obtain rfl := List.inj_on_of_nodup_map hone hother hflow.mem heq
      exact hschemas other hother hexposable⟩
    obtain ⟨-, hserved⟩ := hserves server hserver
    refine ⟨server, hserver, fun toolName => ?_, fun tool htool hmem => ?_⟩
    · rw [hserved.mem_tools, hexposed]
      refine exists_congr fun flow => and_congr_right fun hflow => and_congr_left fun _ => ?_
      exact ⟨hsame flow hflow, exposable_of_exposes⟩
    · obtain ⟨flow, hflow, hhidden, hname⟩ := (hwithheld tool.flowName).1 hmem
      obtain ⟨other, hother, hexposable, heq⟩ :=
        mem_exposableNames.1 (hserved.flowNames ▸ List.mem_map_of_mem htool)
      obtain rfl := List.inj_on_of_nodup_map hone hother hflow (heq.trans hname.symm)
      exact absurd ((hsame other hother hexposable).symm.trans hhidden) (by decide)

end

-- The registry of the command

section

variable {V : Type} [LinearOrder V] (parse : String → Except String V) (hashing : Hashing) (serializer : Serializer)

theorem reported_served_iff (schemas : FullFlow → Except String Unit) (flowsDir : String) (toolsModule : Option String)
    (toolPrefix : String) (allowCollisions includeReviewed : Bool) (files : List FlowFile) (report : SetupReport)
    (hreport : setupFlows (flowRegistry parse hashing serializer) flowsDir toolsModule toolPrefix allowCollisions
      includeReviewed files = .ok report)
    (hone : ((loaded (flowRegistry parse hashing serializer) (iterFlowFiles files)).map (·.name)).Nodup) :
    (∃ server, buildFlowServer (flowRegistry parse hashing serializer) schemas emptyRegistry report.entry.started files =
        .ok server ∧ Agrees report server) ↔
      Reportable (flowRegistry parse hashing serializer) schemas includeReviewed
        (loaded (flowRegistry parse hashing serializer) (iterFlowFiles files)) :=
  setup_served_iff inMemory_exact (shows_empty parse hashing serializer) hreport hone

end

theorem reported_served_active : ∃ report server,
    setupFlows release "flows" none "cw_" true false activeFiles = .ok report ∧
      buildFlowServer release (fun _ => .ok ()) emptyRegistry report.entry.started activeFiles = .ok server ∧
        Agrees report server := by
  obtain ⟨flow, hloaded, hgood⟩ := justOne_eq_true activeFiles_loaded
  simp only [greets, Bool.and_eq_true, Bool.not_eq_true', decide_eq_true_eq] at hgood
  obtain ⟨hname, hactive, hlinear, hversion, -⟩ := hgood
  have hnames : (activeFlowNames release false activeFiles).1 = ["greet"] := by
    simp [activeFlowNames, hloaded, setupSet, activeOnly, hactive, hname, sortedSet]
  have hnamed : namedTools "cw_" ["greet"] = .ok [("greet", "cw__greet")] := by rfl
  have hreport : ∃ report, setupFlows release "flows" none "cw_" true false activeFiles = .ok report := by
    simp [setupFlows, hnames, hnamed]
  obtain ⟨report, hreport⟩ := hreport
  have hone : ((loaded release (iterFlowFiles activeFiles)).map (·.name)).Nodup := by simp [hloaded]
  have hgood : Reportable release (fun _ => .ok ()) false (loaded release (iterFlowFiles activeFiles)) := by
    rw [hloaded]
    refine ⟨by simpa using release_registrable hlinear hversion, by simp, .inr (by simp [hactive])⟩
  obtain ⟨server, hserver, hagrees⟩ := (reported_served_iff readRelease Sample.platform.hashing Serializer.greetSerializer
    (fun _ => .ok ()) "flows" none "cw_" true false activeFiles report hreport hone).2 hgood
  exact ⟨report, server, hreport, hserver, hagrees⟩

-- A flow that has been reviewed

def reviewedFiles : List FlowFile := [flowFile "1.0" .reviewed].reduceOption

theorem reviewedFiles_loaded : justOne (greets .reviewed) (loaded release (iterFlowFiles reviewedFiles)) = true := by
  decide +kernel

/-- It is reported as withheld, and served. -/
theorem reviewed_served : ¬∀ (files : List FlowFile) (report : SetupReport),
    setupFlows release "flows" none "cw_" false false files = .ok report →
      ((loaded release (iterFlowFiles files)).map (·.name)).Nodup →
        ∃ server, buildFlowServer release (fun _ => .ok ()) emptyRegistry report.entry.started files = .ok server ∧
          Agrees report server := by
  intro h
  obtain ⟨flow, hloaded, hgood⟩ := justOne_eq_true reviewedFiles_loaded
  simp only [greets, Bool.and_eq_true, Bool.not_eq_true', decide_eq_true_eq] at hgood
  obtain ⟨-, hreviewed, -⟩ := hgood
  have hnames : (activeFlowNames release false reviewedFiles).1 = [] := by
    simp [activeFlowNames, hloaded, setupSet, activeOnly, hreviewed, sortedSet]
  have hreport : ∃ report, setupFlows release "flows" none "cw_" false false reviewedFiles = .ok report := by
    simp [setupFlows, hnames, namedTools, detectToolNameCollisions, collisionsFrom, OrderedDict.empty]
  obtain ⟨report, hreport⟩ := hreport
  have hone : ((loaded release (iterFlowFiles reviewedFiles)).map (·.name)).Nodup := by simp [hloaded]
  have hreportable : Reportable release (fun _ => .ok ()) false (loaded release (iterFlowFiles reviewedFiles)) :=
    (setup_served_iff inMemory_exact (shows_empty readRelease Sample.platform.hashing Serializer.greetSerializer) hreport
      hone).1 (h reviewedFiles report hreport hone)
  rcases hreportable.reviewed with hno | hnone
  · cases hno
  · exact hnone flow (hloaded ▸ List.mem_cons_self) hreviewed

end ChainWeaver.Serve
