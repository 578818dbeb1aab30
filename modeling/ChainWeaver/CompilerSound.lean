import ChainWeaver.CallTraces
import ChainWeaver.CompilerLaws
import ChainWeaver.PlanSound

/-!
# Compiled flows and runs

A flow that compiles finds, in every run, each key that the compiler has promised to
its steps, as far as the promises are kept: the compiler counts on optional fields of
the flow's input and on what the default tool of a step gives.
-/

namespace ChainWeaver

open Interaction (Frame)
open Compiler (Contributes Maps Passes PassesBehind Promised Requires)

namespace AnyFlow

/-- Tool steps only, that take plain keys, do not branch and are not skipped over. -/
def Plain (flow : AnyFlow) : Prop :=
  (∀ step ∈ flow.steps, (∃ name, step.target = .tool name) ∧ step.NoPointers ∧ step.onError ≠ .skip) ∧
    flow.Unbranched ∧
    match flow with
    | .linear _ => True
    | .dag flow => ∀ step ∈ flow.steps, step.stepType = .tool

end AnyFlow

namespace Executor

variable (executor : Executor) (reflection : Reflection)

-- What the compiler leaves open

/-- The tools a step may get its outputs from. -/
def employed (step : FlowStep) : List String :=
  executor.runnable step ++
    match step.onError with
    | .fallback name => [name]
    | _ => []

/-- The context keys a step needs: its sources or, without an input mapping, what a tool
it may run insists on. -/
def Takes (step : FlowStep) (key : String) : Prop :=
  key ∈ step.sources ∨ step.inputMapping.isEmpty = true ∧
    ∃ name ∈ executor.runnable step, ∃ tool, executor.getTool name = .ok tool ∧ Requires reflection tool key

/-- The step adds the key to the context, whichever tool its outputs are from. -/
def Gives (step : FlowStep) (key : String) : Prop :=
  match step.outputMapping with
  | some mapping => mapping.contains key = true
  | none => ∀ name ∈ executor.employed step, ∀ tool, executor.getTool name = .ok tool →
      (reflection.modelFields tool.outputSchema).contains key = true

/-- The compiler would have accepted the step with this tool, too. -/
def Suits (baseFields : ContextFields) (before : List FlowStep) (step : FlowStep) (tool : Tool) : Prop :=
  Maps reflection step tool ∧ ∀ key, Requires reflection tool key →
    if step.inputMapping.isEmpty then Promised reflection executor.tools baseFields before key
    else step.inputMapping.contains key = true

/-- Whatever the compiler does not look at is as it takes it to be: the other tools of a
decision point suit the step, and the promised keys that the step takes are there. -/
structure Kept (baseFields : ContextFields) (base : String → Prop) (before : List FlowStep) (step : FlowStep) :
    Prop where
  candidates : ∀ name ∈ executor.runnable step, step.target ≠ .tool name →
    ∃ tool, executor.getTool name = .ok tool ∧ executor.Suits reflection baseFields before step tool
  promises : ∀ key, executor.Takes reflection step key →
    Promised reflection executor.tools baseFields before key →
      base key ∨ ∃ earlier ∈ before, executor.Gives reflection earlier key

/-- The keys a run starts with: those of its input and of its dynamic parameters, and
those without which no input passes the schema of the flow. -/
def Seeded (flow : AnyFlow) (seed : Dict) (key : String) : Prop :=
  seed.contains key = true ∨ ∃ ref schema, flow.header.inputSchemaRef = some ref ∧
    executor.platform.resolveClassRef ref = .ok schema ∧ executor.Guarantees schema key

/-- `Kept` for every step of a flow, behind the steps of earlier levels. -/
def FlowKept (flow : AnyFlow) (seed : Dict) : Prop :=
  ∀ baseFields levels, executor.baseFields reflection flow = .ok baseFields → executor.stepLevels flow = .ok levels →
    ∀ before level after, levels = before ++ level :: after → ∀ step ∈ level,
      executor.Kept reflection baseFields (executor.Seeded flow seed) before.flatten step

/-- What is relied on outside of the executor: besides `Dependable`, code there raises no
mapping errors. -/
structure Reliable (A : Event → Prop) : Prop extends Dependable executor reflection A where
  resolveClassRef : ∀ ref e, executor.platform.resolveClassRef ref = .error e → e.isMapping = false
  modelValidate : ∀ schema value e, executor.platform.modelValidate schema value = .error e → e.isMapping = false
  inputValueHash : ∀ schema inputs e, executor.platform.inputValueHash schema inputs = .error e → e.isMapping = false
  cacheGet : ∀ key e, A ⟨.cacheGet, key, .error e⟩ → e.isMapping = false
  cacheSet : ∀ entry e, A ⟨.cacheSet, entry, .error e⟩ → e.isMapping = false
  save : ∀ snapshot e, A ⟨.save, snapshot, .error e⟩ → e.isMapping = false
  delete : ∀ traceId e, A ⟨.delete, traceId, .error e⟩ → e.isMapping = false

variable {executor} {reflection} {A : Event → Prop}

abbrev Unmapped (e : Exc) : Prop := e.isMapping = false

theorem Reliable.trusted (h : Reliable executor reflection A) : Trusted executor reflection A Unmapped where
  own _ := id
  dumps := h.dumps
  hit := h.hit
  resolveClassRef := h.resolveClassRef
  modelValidate := h.modelValidate
  inputValueHash := h.inputValueHash
  cacheGet := h.cacheGet
  cacheSet := h.cacheSet
  save := h.save
  delete := h.delete

-- What compiled steps have

/-- What is settled of a step without regard to its place. -/
structure Sound (executor : Executor) (reflection : Reflection) (step : FlowStep) : Prop where
  registered : ∀ name ∈ executor.runnable step, ∃ tool, executor.getTool name = .ok tool
  inputs : ∀ name ∈ executor.runnable step, ∀ tool, executor.getTool name = .ok tool →
    ∀ key, Requires reflection tool key → step.inputMapping.isEmpty = true ∨ step.inputMapping.contains key = true
  outputs : ∀ name ∈ executor.employed step, ∀ tool, executor.getTool name = .ok tool → Maps reflection step tool

variable {baseFields : ContextFields} {base : String → Prop} {before : List FlowStep} {step : FlowStep}

theorem getTool_iff : executor.getTool name = .ok tool ↔ executor.tools.get? name = some tool := by
  unfold getTool
  cases executor.tools.get? name with
  | none => simp
  | some other => simp

theorem runnable_tool (htarget : step.target = .tool name) (other : String) :
    other = name ∨ step.target ≠ .tool other := by
  by_cases h : other = name
  · exact .inl h
  · exact .inr fun heq => h (Target.tool.inj (heq.symm.trans htarget))

theorem Kept.sound (h : Kept executor reflection baseFields base before step)
    (hpasses : PassesBehind reflection executor.tools baseFields before step) : Sound executor reflection step := by
  obtain ⟨name, tool, contextFields, htarget, hget, hpasses, _⟩ := hpasses
  have hrunnable : ∀ other ∈ executor.runnable step, ∃ tool', executor.getTool other = .ok tool' ∧
      Maps reflection step tool' ∧ ∀ key, Requires reflection tool' key →
        step.inputMapping.isEmpty = true ∨ step.inputMapping.contains key = true := by
    intro other hmem
    rcases runnable_tool htarget other with rfl | hother
    · refine ⟨tool, getTool_iff.2 hget, hpasses.outputs, fun key hkey => ?_⟩
      have hfeeds := hpasses.inputs key hkey
      unfold FlowStep.feeds at hfeeds
      split at hfeeds
      · next hempty => exact .inl hempty
      · exact .inr hfeeds
    · obtain ⟨tool', hget', hmaps, hinputs⟩ := h.candidates other hmem hother
      refine ⟨tool', hget', hmaps, fun key hkey => ?_⟩
      have hsuits := hinputs key hkey
      split at hsuits
      · next hempty => exact .inl hempty
      · exact .inr hsuits
  refine ⟨fun other hmem => ?_, fun other hmem tool' hget' key hkey => ?_, fun other hmem tool' hget' => ?_⟩
  · obtain ⟨tool', hget', _⟩ := hrunnable other hmem
    exact ⟨tool', hget'⟩
  · obtain ⟨tool'', hget'', _, hinputs⟩ := hrunnable other hmem
    obtain rfl := Except.ok.inj (hget'.symm.trans hget'')
    exact hinputs key hkey
  · rcases List.mem_append.1 hmem with hmem | hmem
    · obtain ⟨tool'', hget'', hmaps, _⟩ := hrunnable other hmem
      obtain rfl := Except.ok.inj (hget'.symm.trans hget'')
      exact hmaps
    · split at hmem
      · next fallback hfallback =>
        obtain rfl := List.mem_singleton.1 hmem
        obtain ⟨fallbackTool, hfound, hmaps⟩ := hpasses.fallback _ hfallback
        obtain rfl := Option.some.inj (hfound.symm.trans (getTool_iff.1 hget'))
        exact hmaps
      · cases hmem

/-- Whatever a compiled step takes has been promised to it. -/
theorem Kept.promised (h : Kept executor reflection baseFields base before step) (hp : step.NoPointers)
    (hpasses : PassesBehind reflection executor.tools baseFields before step)
    (htakes : executor.Takes reflection step key) : Promised reflection executor.tools baseFields before key := by
  obtain ⟨name, tool, contextFields, htarget, hget, hpasses, hpromised⟩ := hpasses
  rcases htakes with hsource | ⟨hempty, other, hmem, tool', hget', hrequires⟩
  · exact hpromised key (hpasses.sources key hsource (hp key hsource))
  · rcases runnable_tool htarget other with rfl | hother
    · obtain rfl := Option.some.inj (hget.symm.trans (getTool_iff.1 hget'))
      have hfeeds := hpasses.inputs key hrequires
      rw [FlowStep.feeds, if_pos hempty] at hfeeds
      exact hpromised key hfeeds
    · obtain ⟨tool'', hget'', _, hinputs⟩ := h.candidates other hmem hother
      obtain rfl := Except.ok.inj (hget'.symm.trans hget'')
      simpa [hempty] using hinputs key hrequires

-- What their records have

/-- The record is not that of a mapping error, and its inputs have what the tools of the
step insist on. -/
def InOrder (executor : Executor) (reflection : Reflection) (step : FlowStep) (record : StepRecord) : Prop :=
  Untroubled record.errorType ∧ (Undecided record ∨ record.toolName ∈ executor.runnable step ∧
    ∀ name ∈ executor.runnable step, ∀ tool, executor.getTool name = .ok tool →
      ∀ key, Requires reflection tool key → record.inputs.contains key = true)

def compiledTerms (executor : Executor) (reflection : Reflection) (view : α → FlowStep) : Terms α where
  needs step := executor.Takes reflection (view step)
  gives step := executor.Gives reflection (view step)
  Regular _ := True
  InOrder step := executor.InOrder reflection (view step)

theorem mapOutputs_total {pairs : List (String × String)} {mapped : Dict}
    (h : ∀ contextKey outputKey, (contextKey, outputKey) ∈ pairs → outputs.contains outputKey = true) :
    ∃ result, mapOutputs outputs name stepIndex pairs mapped = .ok result := by
  induction pairs generalizing mapped with
  | nil => exact ⟨mapped, rfl⟩
  | cons pair rest ih =>
    obtain ⟨contextKey, outputKey⟩ := pair
    obtain ⟨value, hvalue⟩ := OrderedDict.contains_iff.1 (h contextKey outputKey (by simp))
    simp only [mapOutputs, hvalue]
    exact ih fun contextKey outputKey hmem => h contextKey outputKey (List.mem_cons_of_mem _ hmem)

theorem applyOutputMapping_total {tool : Tool} (hmaps : Maps reflection step tool)
    (hfits : Fits reflection tool.outputSchema outputs) (name : String) (stepIndex : Int) :
    ∃ mapped, applyOutputMapping outputs step.outputMapping name stepIndex = .ok mapped := by
  cases hmapping : step.outputMapping with
  | none => exact ⟨outputs, rfl⟩
  | some mapping =>
    exact mapOutputs_total fun contextKey outputKey hmem => hfits _ (hmaps mapping hmapping contextKey outputKey hmem)

variable {Inv : RunScopedState → Prop} {record : StepRecord}

/-- The outputs of a plain step are those of a tool it employs. -/
theorem Served.employed (h : Served executor reflection Inv step context record) (htarget : step.target = .tool name)
    (hskip : step.onError ≠ .skip) (hdry : ¬Dryable Inv) (hsuccess : record.success = true) :
    ∃ other ∈ executor.employed step, ∃ tool outputs, executor.getTool other = .ok tool ∧
      record.outputs = some outputs ∧ Fits reflection tool.outputSchema outputs := by
  cases h.yields hsuccess with
  | skipped _ hwhy => exact absurd hwhy (not_or.2 ⟨hskip, hdry⟩)
  | tool _ hmem hget ho hfits => exact ⟨_, List.mem_append_left _ hmem, _, _, hget, ho, hfits⟩
  | fallback _ hwhy hget ho hfits =>
    exact ⟨_, List.mem_append_right _ (by simp [hwhy]), _, _, hget, ho, hfits⟩
  | flow hflow => exact nomatch htarget.symm.trans hflow

theorem Served.compiledMet (view : α → FlowStep) {item : α}
    (h : Served executor reflection Inv (view item) context record) (htarget : (view item).target = .tool name)
    (hp : (view item).NoPointers) (hskip : (view item).onError ≠ .skip) (hdry : ¬Dryable Inv)
    (hsound : Sound executor reflection (view item)) :
    (compiledTerms executor reflection view).Met Unmapped item (view item).outputMapping context record where
  inOrder hneeds := by
    have hsources : ∀ source ∈ (view item).sources, context.contains source = true :=
      fun source hsource => hneeds source (.inl hsource)
    refine ⟨h.resolves hp hsources, (h.covers hp hsources).imp_right fun ⟨hrunnable, hkeys⟩ => ⟨hrunnable, ?_⟩⟩
    intro other hmem tool hget key hrequires
    obtain ⟨own, hown⟩ := hsound.registered _ hrunnable
    refine hkeys own hown key ?_
    unfold FlowStep.feeds
    split
    · next hempty => exact hneeds key (.inr ⟨hempty, other, hmem, tool, hget, hrequires⟩)
    · next hmapped => exact (hsound.inputs other hmem tool hget key hrequires).resolve_left hmapped
  gives _ hsuccess outputs hout toolName stepIndex mapped hmapped key hkey := by
    obtain ⟨other, hmem, tool, outputs', hget, ho, hfits⟩ := h.employed htarget hskip hdry hsuccess
    obtain rfl := Option.some.inj (hout.symm.trans ho)
    change executor.Gives reflection (view item) key at hkey
    unfold Gives at hkey
    split at hkey
    · next mapping hmapping =>
      rw [hmapping] at hmapped
      rw [applyOutputMapping_keys hmapped]
      exact hkey
    · next hmapping =>
      rw [hmapping] at hmapped
      obtain rfl := Except.ok.inj hmapped
      exact hfits key (hkey other hmem tool hget)
  fair hsuccess outputs hout toolName stepIndex e he := by
    obtain ⟨other, hmem, tool, outputs', hget, ho, hfits⟩ := h.employed htarget hskip hdry hsuccess
    obtain rfl := Option.some.inj (hout.symm.trans ho)
    obtain ⟨mapped, hmapped⟩ := applyOutputMapping_total (hsound.outputs other hmem tool hget) hfits toolName
      stepIndex
    exact nomatch hmapped.symm.trans he

-- Compiled flows

theorem compileFlow_checked (h : executor.compileFlow reflection flow = .ok compiled) (hsuccess : compiled.success = true) :
    ∃ baseFields, executor.baseFields reflection flow = .ok baseFields ∧
      ∀ c ∈ (executor.checkedSteps reflection flow baseFields).1, c.check.errors = [] := by
  obtain ⟨baseFields, hbase, h⟩ := bind_ok h
  obtain ⟨outputs, _, h⟩ := bind_ok h
  obtain rfl := Except.ok.inj h
  have herrors := (List.append_eq_nil_iff.1 (List.isEmpty_iff.1 hsuccess)).1
  exact ⟨baseFields, hbase, List.flatMap_eq_nil_iff.1 herrors⟩

theorem compiled_linear {flow : Flow} (hplain : (AnyFlow.linear flow).Plain)
    (h : ∀ c ∈ (executor.checkedSteps reflection (.linear flow) baseFields).1, c.check.errors = []) :
    ∀ before step after, flow.steps = before ++ step :: after →
      PassesBehind reflection executor.tools baseFields before step := by
  intro before step after hsteps
  have hpasses := Compiler.compileSteps_passes [] (fun step hmem => (hplain.1 step hmem).1) h
    (fun key hkey => .inl hkey) before step after hsteps
  simpa using hpasses

open ChainWeaver.Topology in
theorem compiled_dag {flow : DAGFlow} (hplain : (AnyFlow.dag flow).Plain)
    (h : ∀ c ∈ (executor.checkedSteps reflection (.dag flow) baseFields).1, c.check.errors = [])
    (hlevels : computeDagLevels executor.platform.hashing flow = .ok levels) :
    ∀ before level after, levels = before ++ level :: after → ∀ step ∈ level,
      PassesBehind reflection executor.tools baseFields (before.flatten.map DAGFlowStep.toFlowStep) step.toFlowStep := by
  obtain ⟨height, hlevelled⟩ := computeDagLevels_levelled hlevels
  obtain ⟨_, hvalid, _⟩ := bind_ok hlevels
  intro before level after hsplit step hmem
  have hlevel : levels[before.length]? = some level := by simp [hsplit]
  obtain ⟨hstep, hheight⟩ := (hlevelled.mem_level _ _ step hlevel).1 hmem
  have hpasses := Compiler.compileDagSteps_passes hlevelled
    (fun step hmem => ⟨hplain.2.2 step hmem, (hplain.1 step.toFlowStep (List.mem_map_of_mem hmem)).1⟩) h
    (fun _ _ hget => nomatch hget) step hstep (Compiler.mem_compileOrder (validateDagTopology_sorted hvalid) hstep)
  obtain ⟨name, tool, contextFields, htarget, hget, hpasses, hpromised⟩ := hpasses
  refine ⟨name, tool, contextFields, htarget, hget, hpasses, fun key hkey => ?_⟩
  refine (hpromised key hkey).mono fun earlier hearlier => ?_
  obtain ⟨dagStep, hdag, hlt, rfl⟩ := Compiler.mem_stepsBelow.1 hearlier
  have htake : levels.take before.length = before := by simp [hsplit]
  have hbelow := (hlevelled.mem_take (n := before.length) (by simp [hsplit])).2 ⟨hdag, hheight ▸ hlt⟩
  rw [htake] at hbelow
  exact List.mem_map_of_mem hbelow

/-- What is settled of every step of a compiled flow. -/
structure Settles (executor : Executor) (reflection : Reflection) (view : α → FlowStep) (base : String → Prop)
    (levels : List (List α)) : Prop where
  sound : ∀ step ∈ levels.flatten, Sound executor reflection (view step)
  available : (compiledTerms executor reflection view).Available base levels

theorem settles_of_kept {view : α → FlowStep} {levels : List (List α)}
    (hpointers : ∀ step ∈ levels.flatten, (view step).NoPointers)
    (hpasses : ∀ before level after, levels = before ++ level :: after → ∀ step ∈ level,
      PassesBehind reflection executor.tools baseFields (before.flatten.map view) (view step))
    (hkept : ∀ before level after, levels = before ++ level :: after → ∀ step ∈ level,
      executor.Kept reflection baseFields base (before.flatten.map view) (view step)) :
    Settles executor reflection view base levels := by
  constructor
  · intro step hmem
    obtain ⟨level, hlevel, hmem⟩ := List.mem_flatten.1 hmem
    obtain ⟨before, after, hsplit⟩ := List.append_of_mem hlevel
    exact (hkept before level after hsplit step hmem).sound (hpasses before level after hsplit step hmem)
  · intro before level after hsplit step hmem key hneeds
    have hkept := hkept before level after hsplit step hmem
    have hp := hpointers step (by simp only [hsplit, List.mem_flatten]; exact ⟨level, by simp, hmem⟩)
    rcases hkept.promises key hneeds (hkept.promised hp (hpasses before level after hsplit step hmem) hneeds) with
      hkey | ⟨earlier, hearlier, hkey⟩
    · exact .inl hkey
    · obtain ⟨item, hitem, rfl⟩ := List.mem_map.1 hearlier
      exact .inr ⟨item, hitem, hkey⟩

theorem settles_linear {flow : Flow} (hplain : (AnyFlow.linear flow).Plain)
    (hbase : executor.baseFields reflection (.linear flow) = .ok baseFields)
    (h : ∀ c ∈ (executor.checkedSteps reflection (.linear flow) baseFields).1, c.check.errors = [])
    (hkept : executor.FlowKept reflection (.linear flow) seed) :
    Settles executor reflection id (executor.Seeded (.linear flow) seed) (flow.steps.map fun step => [step]) := by
  have hflat : ∀ steps : List FlowStep, (steps.map fun step => [step]).flatten = steps := List.flatMap_singleton'
  have hkept := hkept _ _ hbase rfl
  refine settles_of_kept (fun step hmem => ?_) (fun before level after hsplit step hmem => ?_)
    fun before level after hsplit step hmem => List.map_id before.flatten ▸ hkept before level after hsplit step hmem
  · rw [hflat] at hmem
    exact (hplain.1 step hmem).2.1
  · obtain ⟨first, rest, hsteps, hfirst, hrest⟩ := List.map_eq_append_iff.1 hsplit
    obtain ⟨own, after, rfl, rfl, _⟩ := List.map_eq_cons_iff.1 hrest
    obtain rfl := List.mem_singleton.1 hmem
    rw [List.map_id, ← hfirst, hflat]
    exact compiled_linear hplain h first _ after hsteps

theorem settles_dag {flow : DAGFlow} (hplain : (AnyFlow.dag flow).Plain)
    (hbase : executor.baseFields reflection (.dag flow) = .ok baseFields)
    (h : ∀ c ∈ (executor.checkedSteps reflection (.dag flow) baseFields).1, c.check.errors = [])
    (hkept : executor.FlowKept reflection (.dag flow) seed)
    (hlevels : computeDagLevels executor.platform.hashing flow = .ok levels) :
    Settles executor reflection DAGFlowStep.toFlowStep (executor.Seeded (.dag flow) seed) levels := by
  obtain ⟨height, hlevelled⟩ := Topology.computeDagLevels_levelled hlevels
  refine settles_of_kept (fun step hmem => ?_) (compiled_dag hplain h hlevels) fun before level after hsplit step hmem => ?_
  · exact (hplain.1 _ (List.mem_map_of_mem (hlevelled.perm.mem_iff.1 hmem))).2.1
  · have hstepLevels : executor.stepLevels (.dag flow) = .ok (levels.map (·.map DAGFlowStep.toFlowStep)) := by
      simp only [stepLevels, hlevels, bind, Except.bind, pure, Except.pure]
    rw [List.map_flatten]
    refine hkept _ _ hbase hstepLevels (before.map (·.map DAGFlowStep.toFlowStep)) (level.map DAGFlowStep.toFlowStep)
      (after.map (·.map DAGFlowStep.toFlowStep)) (by simp [hsplit]) _ (List.mem_map_of_mem hmem)

-- Runs of compiled flows

/-- The states of a run that is neither dry nor resumed. -/
def Ordinary (params : Dict) (state : RunScopedState) : Prop :=
  state.resumeSnapshot = none ∧ state.dryRun = false ∧ state.dynamicParams = params

theorem ordinary_stable : Stable (Ordinary params) := ⟨id, id⟩

theorem ordinary_undryable : ¬Dryable (Ordinary params) := fun ⟨_, h, hdry⟩ => nomatch h.2.1.symm.trans hdry

theorem Seeded.seed (flow : AnyFlow)
    (hvalid : executor.validateFlowSchema label input flow.header.inputSchemaRef stepIndex "flow_input" = .ok none)
    (hstate : Ordinary params state) :
    ∀ key, executor.Seeded flow (input.update params) key → (input.update state.dynamicParams).contains key = true := by
  rintro key (hkey | ⟨ref, schema, hflow, href, hguarantees⟩)
  · rw [hstate.2.2]
    exact hkey
  · rw [hflow] at hvalid
    obtain ⟨schema', href', hvalid⟩ := bind_ok hvalid
    obtain rfl := Except.ok.inj (href.symm.trans href')
    obtain ⟨detail, herror, hvalid⟩ := bind_ok hvalid
    cases detail with
    | none => simp [hguarantees input herror]
    | some detail => cases hvalid

theorem compiled_replaces {step : DAGFlowStep} :
    (compiledTerms executor reflection DAGFlowStep.toFlowStep).Replaces step := by
  rintro record name e ⟨_, hundecided | ⟨hrunnable, hinputs⟩⟩ hsuccess hname he
  · exact nomatch hundecided.1.symm.trans hsuccess
  · refine ⟨he, .inr ⟨?_, hinputs⟩⟩
    rcases hname with rfl | hname
    · exact hrunnable
    · exact runnable_displayName executor hname

/-- A view of a step that differs only in its output mapping and its decision candidates. -/
theorem Served.of_view {view own : FlowStep} (h : Served executor reflection Inv view context record)
    (htarget : own.target = .tool name) (hsame : view.target = own.target)
    (hinput : view.inputMapping = own.inputMapping) (herror : view.onError = own.onError)
    (hrunnable : ∀ other ∈ executor.runnable view, other ∈ executor.runnable own) :
    Served executor reflection Inv own context record :=
  h.of_decided (by simp [htarget]) ⟨hinput, herror, by simp [hsame, htarget], hrunnable⟩

variable {nested : Nested}

theorem executeLinear_compiled {flow : Flow} {lane : Lane} (ht : Trusted executor reflection A Unmapped)
    (hn : Returns (Ordinary params) A nested) (hplain : (AnyFlow.linear flow).Plain)
    (hsettles : Settles executor reflection id (executor.Seeded (.linear flow) (input.update params))
      (flow.steps.map fun step => [step])) :
    (frame (Ordinary params)).Given A (executor.executeLinear lane nested flow flowName input cancellation)
      ((compiledTerms executor reflection id).Closed flow.steps) Unmapped := by
  have hflat : (flow.steps.map fun step => [step]).flatten = flow.steps := List.flatMap_singleton' _
  refine executeLinear_given ht ordinary_stable (fun step hmem info context => ?_) hsettles.available
    fun _ hvalid state hstate => Seeded.seed (.linear flow) hvalid hstate
  obtain ⟨⟨name, htarget⟩, hp, hskip⟩ := hplain.1 step hmem
  have hsound : Sound executor reflection step := hsettles.sound step (by rwa [hflat])
  refine (executeStepIn_given ht ordinary_stable hn fun subName hsub => ?_).post fun record h => ?_
  · exact nomatch htarget.symm.trans hsub
  · exact h.compiledMet id htarget hp hskip ordinary_undryable hsound

theorem computeDagLevels_error (h : computeDagLevels hashing flow = .error e) : Unmapped e := by
  rcases bind_error h with hvalid | ⟨_, _, h⟩
  · unfold validateDagTopology at hvalid
    dsimp only at hvalid
    split at hvalid
    · exact Except.error.inj hvalid ▸ rfl
    split at hvalid
    · exact Except.error.inj hvalid ▸ rfl
    split at hvalid
    · exact Except.error.inj hvalid ▸ rfl
    split at hvalid
    · exact Except.error.inj hvalid ▸ rfl
    · cases hvalid
  · cases h

theorem executeDagFlow_compiled {flow : DAGFlow} (cancellation : Cancellation) (ht : Trusted executor reflection A Unmapped)
    (hn : Returns (Ordinary params) A nested) (hplain : (AnyFlow.dag flow).Plain)
    (hsettles : ∀ levels, computeDagLevels executor.platform.hashing flow = .ok levels →
      Settles executor reflection DAGFlowStep.toFlowStep (executor.Seeded (.dag flow) (input.update params)) levels) :
    (frame (Ordinary params)).Given A (executor.executeDagFlow nested flow input cancellation)
        ((compiledTerms executor reflection DAGFlowStep.toFlowStep).Closed flow.steps) Unmapped ∧
      (frame (Ordinary params)).Given A (executor.executeDagFlowAsync nested flow input cancellation)
        ((compiledTerms executor reflection DAGFlowStep.toFlowStep).Closed flow.steps) Unmapped := by
  have hstep : ∀ levels, computeDagLevels executor.platform.hashing flow = .ok levels → ∀ step ∈ flow.steps,
      ∀ (lane : Lane) (view : FlowStep), view.target = step.target → view.inputMapping = step.inputMapping →
        view.onError = step.onError → (∀ other ∈ executor.runnable view, other ∈ executor.runnable step.toFlowStep) →
        ∀ info context, (frame (Ordinary params)).Given A
          (executor.executeStepIn lane nested info view context cancellation)
          ((compiledTerms executor reflection DAGFlowStep.toFlowStep).Met Unmapped step step.outputMapping context)
          Unmapped := by
    intro levels hlevels step hmem lane view hsame hinput herror hrunnable info context
    obtain ⟨height, hlevelled⟩ := Topology.computeDagLevels_levelled hlevels
    obtain ⟨⟨name, htarget⟩, hp, hskip⟩ := hplain.1 step.toFlowStep (List.mem_map_of_mem hmem)
    have hsound := (hsettles levels hlevels).sound step (hlevelled.perm.mem_iff.2 hmem)
    refine (executeStepIn_given ht ordinary_stable hn fun subName hsub => ?_).post fun record h => ?_
    · exact nomatch (hsame.trans htarget).symm.trans hsub
    · exact (h.of_view htarget hsame hinput herror hrunnable).compiledMet DAGFlowStep.toFlowStep htarget hp
        hskip ordinary_undryable hsound
  have havailable := fun levels hlevels => (hsettles levels hlevels).available
  have hseed : ∀ label, executor.validateFlowSchema label input flow.inputSchemaRef flowInputStepIndex "flow_input" =
      .ok none → ∀ state, Ordinary params state → ∀ key, executor.Seeded (.dag flow) (input.update params) key →
        (input.update state.dynamicParams).contains key = true :=
    fun _ hvalid state hstate => Seeded.seed (.dag flow) hvalid hstate
  constructor
  · refine executeDagFlow_given ht ordinary_stable (fun _ h => h.1) havailable (fun _ => computeDagLevels_error) hseed
      fun levels hlevels => ?_
    refine ⟨hplain.2.1, fun step hmem _ info context => ?_, fun step hmem htype => ?_, fun _ _ => compiled_replaces⟩
    · exact hstep levels hlevels step hmem .sync (proxy step) rfl rfl rfl (fun _ => id) info context
    · exact nomatch (hplain.2.2 step hmem).symm.trans htype
  · refine executeDagFlowAsync_given ht ordinary_stable (fun _ h => h.1) havailable (fun _ => computeDagLevels_error) hseed
      fun levels hlevels => ?_
    refine ⟨hplain.2.2, fun step hmem info context => ?_, fun _ _ => compiled_replaces⟩
    refine hstep levels hlevels step hmem .async (proxyAsync step) rfl rfl rfl (fun other hother => ?_) info context
    simp only [runnable, proxyAsync, Option.getD_none, ite_self, List.append_nil] at hother
    exact List.mem_append_left _ hother

-- The checks before a run

theorem visit_plain {steps : List FlowStep} (h : ∀ step ∈ steps, ∃ name, step.target = .tool name) :
    executor.visit root budget path steps = .ok () := by
  have hforM : ∀ descend, steps.forM (visitStep root path descend) = .ok () := by
    intro descend
    induction steps with
    | nil => rfl
    | cons step rest ih =>
      obtain ⟨name, htarget⟩ := h step (by simp)
      have hstep : visitStep root path descend step = .ok () := by simp [visitStep, FlowStep.flowName?, htarget]
      change (visitStep root path descend step >>= fun _ => rest.forM (visitStep root path descend)) = .ok ()
      rw [hstep]
      exact ih fun step hmem => h step (by simp [hmem])
  cases budget <;> exact hforM _

theorem mapM_error {f : α → Except ε β} {items : List α} (h : items.mapM f = .error e) :
    ∃ item ∈ items, f item = .error e := by
  induction items with
  | nil => cases h
  | cons item rest ih =>
    rw [List.mapM_cons] at h
    rcases bind_error h with hitem | ⟨value, _, h⟩
    · exact ⟨item, by simp, hitem⟩
    rcases bind_error h with hrest | ⟨values, _, h⟩
    · obtain ⟨other, hmem, hother⟩ := ih hrest
      exact ⟨other, by simp [hmem], hother⟩
    · cases h

theorem assertAsyncLaneSupported_error (h : assertAsyncLaneSupported flow = .error e) : Unmapped e := by
  rcases bind_error h with htexts | ⟨texts, _, h⟩
  · rcases bind_error htexts with hmap | ⟨_, _, h⟩
    · obtain ⟨⟨⟨step, routing⟩, index⟩, _, hitem⟩ := mapM_error hmap
      dsimp only at hitem
      split at hitem
      · cases hitem
      · exact Except.error.inj hitem ▸ rfl
      · cases hitem
    · cases h
  · split at h
    · cases h
    · exact Except.error.inj h ▸ rfl

theorem admitStatus_error (h : admitStatus flow flowName force = .error e) : Unmapped e := by
  unfold admitStatus at h
  split at h
  · exact Except.error.inj h ▸ rfl
  · cases h

-- The compiler is sound

/-- What a run of a compiled flow ends with. -/
def Wired (executor : Executor) (reflection : Reflection) (stepCount : Nat) (result : ExecutionResult) : Prop :=
  ∀ record ∈ result.executionLog, Untroubled record.errorType ∧
    (FlowCheck stepCount record ∨ Undecided record ∨ ∀ tool, executor.getTool record.toolName = .ok tool →
      ∀ key, Requires reflection tool key → record.inputs.contains key = true)

theorem Terms.Closed.wired {view : α → FlowStep} {steps : List α}
    (h : (compiledTerms executor reflection view).Closed steps result) : Wired executor reflection steps.length result := by
  intro record hmem
  rcases h (fun _ _ => trivial) record hmem with hflow | ⟨step, _, huntroubled, hinputs⟩
  · exact ⟨by simp [Untroubled, hflow.2], .inl hflow⟩
  · refine ⟨huntroubled, .inr (hinputs.imp_right fun h tool hget => ?_)⟩
    obtain ⟨hrunnable, hkeys⟩ := h
    exact hkeys _ hrunnable tool hget

theorem enterSync_ordinary (hfresh : state.resumeSnapshot = none) (hdry : state.dryRun = false)
    (hcall : call.dryRun = false) :
    Ordinary (withDynamicParams state call.dynamicParams).dynamicParams (enterSync call state) := by
  cases hparams : call.dynamicParams <;>
    simp [Ordinary, enterSync, withDynamicParams, RunScopedState.copy, hparams, hfresh, hdry, hcall]

theorem enterAsync_ordinary (hfresh : state.resumeSnapshot = none) (hdry : state.dryRun = false)
    (params : Option Dict) :
    Ordinary (withDynamicParams state params).dynamicParams (withDynamicParams state.copy params) := by
  cases params <;> simp [Ordinary, withDynamicParams, RunScopedState.copy, hfresh, hdry]

/-- A call of a settled flow ends without mapping errors and feeds every step that runs. -/
theorem enter_settled {stack : Nat} {lane : Lane} {initialInput : Dict} {call : Call} {state : RunScopedState}
    (hflow : executor.registry.getFlow flowName call.version = .ok flow) (hplain : flow.Plain)
    (hparams : (withDynamicParams state call.dynamicParams).dynamicParams = params)
    (hlinear : ∀ own, flow = .linear own → Settles executor reflection id
      (executor.Seeded (.linear own) (initialInput.update params)) (own.steps.map fun step => [step]))
    (hdag : ∀ own, flow = .dag own → ∀ levels, computeDagLevels executor.platform.hashing own = .ok levels →
      Settles executor reflection DAGFlowStep.toFlowStep (executor.Seeded (.dag own) (initialInput.update params)) levels)
    (hfresh : state.resumeSnapshot = none) (hdry : state.dryRun = false) (hcall : call.dryRun = false)
    (hreliable : Reliable executor reflection (· ∈ events))
    (hrun : (executor.enter stack (executeIn lane flowName initialInput call)).Runs state events r state') :
    Interaction.Outcome (Wired executor reflection flow.steps.length) Unmapped r := by
  have ht := hreliable.trusted
  have hcomposition : executor.validateComposition flow = .ok () := visit_plain fun step hmem => (hplain.1 step hmem).1
  -- What either lane runs once the flow is admitted.
  have hlinear : ∀ own, flow = .linear own → ∀ lane flowName, (frame (Ordinary params)).Given (· ∈ events)
      (executor.executeLinear lane (executor.lanes stack) own flowName initialInput call.cancellation)
      (Wired executor reflection flow.steps.length) Unmapped := by
    rintro own rfl lane flowName
    exact (executeLinear_compiled ht (lanes_return stack) hplain (hlinear own rfl)).post fun result h => h.wired
  have hdag : ∀ own, flow = .dag own →
      (frame (Ordinary params)).Given (· ∈ events)
          (executor.executeDagFlow (executor.lanes stack) own initialInput call.cancellation)
          (Wired executor reflection flow.steps.length) Unmapped ∧
        (frame (Ordinary params)).Given (· ∈ events)
          (executor.executeDagFlowAsync (executor.lanes stack) own initialInput call.cancellation)
          (Wired executor reflection flow.steps.length) Unmapped := by
    rintro own rfl
    have hlength : (AnyFlow.dag own).steps.length = own.steps.length := List.length_map _
    obtain ⟨hsync, hasync⟩ := executeDagFlow_compiled call.cancellation ht (lanes_return stack) hplain (hdag own rfl)
    rw [hlength]
    exact ⟨hsync.post fun result h => h.wired, hasync.post fun result h => h.wired⟩
  have hwired : (frame fun s => s = state).Given (· ∈ events)
      (executor.enter stack (executeIn lane flowName initialInput call))
      (Wired executor reflection flow.steps.length) Unmapped := by
    cases lane with
    | sync =>
      refine .scope (G := frame (Ordinary params)) (fun s hs => ?_) ?_
      · rw [hs, ← hparams]
        exact enterSync_ordinary hfresh hdry hcall
      unfold executeFlowImpl
      refine (given_orRefuse fun e h => nomatch hflow.symm.trans h).bind fun flow' hflow' => ?_
      obtain rfl := Except.ok.inj (hflow.symm.trans hflow')
      refine .modify_bind (fun _ => ordinary_stable.version) ?_
      refine (given_orRefuse fun e => admitStatus_error).bind fun _ _ => ?_
      refine (given_orRefuse fun e h => nomatch hcomposition.symm.trans h).bind fun _ _ => ?_
      refine .get_bind fun _ _ => .ask_bind fun _ _ => ?_
      cases flow with
      | linear own => exact hlinear own rfl .sync flowName
      | dag own => exact (hdag own rfl).1
    | async =>
      refine (given_orRefuse fun e h => nomatch hflow.symm.trans h).bind fun flow' hflow' => ?_
      obtain rfl := Except.ok.inj (hflow.symm.trans hflow')
      refine (given_orRefuse fun e => admitStatus_error).bind fun _ _ => ?_
      refine (given_orRefuse fun e => assertAsyncLaneSupported_error).bind fun _ _ => ?_
      refine (given_orRefuse fun e h => nomatch hcomposition.symm.trans h).bind fun _ _ => ?_
      refine .scope (G := frame (Ordinary params)) (fun s hs => ?_) ?_
      · rw [hs, ← hparams]
        exact enterAsync_ordinary hfresh hdry _
      refine .get_bind fun _ _ => .ask_bind fun _ _ => ?_
      cases flow with
      | linear own => exact hlinear own rfl .async own.name
      | dag own => exact (hdag own rfl).2
  exact (hwired _ _ _ _ rfl (fun _ he => he) hrun).2

/-- No step of a compiled flow fails with a mapping error or misses a required input, in
either lane, where the compiler's promises to it are kept. -/
theorem enter_compiled (executor : Executor) (reflection : Reflection) (stack : Nat) (lane : Lane) (flowName : String)
    (initialInput : Dict) (call : Call) (state : RunScopedState)
    (hflow : executor.registry.getFlow flowName call.version = .ok flow) (hplain : flow.Plain)
    (hcompile : executor.compileFlow reflection flow = .ok compiled) (hsuccess : compiled.success = true)
    (hkept : executor.FlowKept reflection flow
      (initialInput.update (withDynamicParams state call.dynamicParams).dynamicParams))
    (hfresh : state.resumeSnapshot = none) (hdry : state.dryRun = false) (hcall : call.dryRun = false)
    (hreliable : Reliable executor reflection (· ∈ events))
    (hrun : (executor.enter stack (executeIn lane flowName initialInput call)).Runs state events r state') :
    Interaction.Outcome (Wired executor reflection flow.steps.length) Unmapped r := by
  obtain ⟨baseFields, hbase, hchecked⟩ := compileFlow_checked hcompile hsuccess
  refine enter_settled hflow hplain rfl ?_ ?_ hfresh hdry hcall hreliable hrun
  · rintro own rfl
    exact settles_linear hplain hbase hchecked hkept
  · rintro own rfl levels hlevels
    exact settles_dag hplain hbase hchecked hkept hlevels

-- Runs

/-- The class `maybe` has one field, `a`, with a default; any other its own. -/
def defaultFields (schema : Schema) : OrderedDict FieldInfo :=
  if schema = "maybe" then .ofList [("a", { annotation := .other, text := "Any", isRequired := false })]
  else fieldReflection.modelFields schema

def defaultValidate (schema : Schema) (value : Value) : Except Exc Dict :=
  if schema = "maybe" then
    match value with
    | .dict entries => .ok ((OrderedDict.ofList [("a", .null)]).update (.ofList entries))
    | _ => .error (.validation "Input should be a valid dictionary")
  else fieldPlatform.modelValidate schema value

def defaultReflection : Reflection := { modelFields := defaultFields, repr := fun _ => "" }

/-- `b` takes `a` from the input of the flow. -/
def defaulted : Flow := { name := "defaulted", inputSchemaRef := some "maybe", steps := [feeding "b" (.str "a")] }

def defaultExecutor : Executor := { fieldExecutor [.linear defaulted] ["b"] with platform := { fieldPlatform with modelValidate := defaultValidate } }

def defaultRun (input : Dict) : List Event × Except Exc ExecutionResult × RunScopedState :=
  Sample.run Sample.named none 0 (defaultExecutor.executeFlow 0 "defaulted" input {})

theorem defaultValidate_dumps (h : defaultValidate schema value = .ok dumped) :
    Fits defaultReflection schema dumped := by
  intro field hfield
  change (defaultFields schema).contains field = true at hfield
  unfold defaultValidate at h
  unfold defaultFields at hfield
  split at h
  · next hschema =>
    obtain rfl : field = "a" := by simpa [hschema] using hfield
    cases value with
    | dict entries =>
      obtain rfl := Except.ok.inj h
      simp
    | _ => cases h
  · next hschema =>
    rw [if_neg hschema] at hfield
    exact fieldReflection_dumps schema value dumped h field hfield

theorem defaultValidate_error (h : defaultValidate schema value = .error e) : Unmapped e := by
  unfold defaultValidate fieldPlatform at h
  split at h
  · cases value with
    | dict entries => cases h
    | _ => exact Except.error.inj h ▸ rfl
  · cases value with
    | dict entries =>
      dsimp only at h
      split at h
      · cases h
      · exact Except.error.inj h ▸ rfl
    | _ => exact Except.error.inj h ▸ rfl

/-- The platform of `defaultExecutor`. -/
def defaultPlatform : Platform := { fieldPlatform with modelValidate := defaultValidate }

theorem defaultPlatform_reliable {executor : Executor} (hplatform : executor.platform = defaultPlatform)
    (call : Exec ExecutionResult) :
    Reliable executor defaultReflection (· ∈ (Sample.run Sample.named none 0 call).1) where
  dumps _ _ _ h := defaultValidate_dumps (hplatform ▸ h)
  hit _ _ h := by
    obtain ⟨_, hreply⟩ := Sample.run_answered h
    cases hreply
  resolveClassRef _ _ h := by
    rw [hplatform] at h
    cases h
  modelValidate _ _ _ h := defaultValidate_error (hplatform ▸ h)
  inputValueHash _ _ _ h := by
    rw [hplatform] at h
    cases h
  cacheGet _ _ h := by
    obtain ⟨_, hreply⟩ := Sample.run_answered h
    cases hreply
  cacheSet _ _ h := by
    obtain ⟨_, hreply⟩ := Sample.run_answered h
    cases hreply
  save _ _ h := by
    obtain ⟨_, hreply⟩ := Sample.run_answered h
    cases hreply
  delete _ _ h := by
    obtain ⟨_, hreply⟩ := Sample.run_answered h
    cases hreply

theorem defaultExecutor_reliable (input : Dict) :
    Reliable defaultExecutor defaultReflection (· ∈ (defaultRun input).1) := defaultPlatform_reliable rfl _

theorem defaulted_plain : (AnyFlow.linear defaulted).Plain := by
  refine ⟨fun step hmem => ?_, trivial, trivial⟩
  obtain rfl := List.mem_singleton.1 hmem
  refine ⟨⟨"b", rfl⟩, fun source hsource => ?_, nofun⟩
  obtain rfl : source = "a" := List.mem_singleton.1 hsource
  decide

/-- The compiler's promise is kept for an input that has `a`. -/
theorem defaulted_kept : defaultExecutor.FlowKept defaultReflection (.linear defaulted) (.ofList [("a", .int 1)]) := by
  intro baseFields levels _ hlevels before level after hsplit step hmem
  obtain rfl := Except.ok.inj hlevels
  have hstep : step ∈ [feeding "b" (.str "a")] := by
    have hflat : step ∈ ([[feeding "b" (.str "a")]] : List (List FlowStep)).flatten := by
      rw [show [[feeding "b" (.str "a")]] = before ++ level :: after from hsplit]
      simp [hmem]
    simpa using hflat
  obtain rfl := List.mem_singleton.1 hstep
  refine ⟨fun name hname hother => ?_, fun key htakes _ => ?_⟩
  · obtain rfl : name = "b" := List.mem_singleton.1 hname
    exact absurd rfl hother
  · rcases htakes with hsource | ⟨hempty, _⟩
    · obtain rfl : key = "a" := List.mem_singleton.1 hsource
      exact .inl (.inl (by decide))
    · cases hempty

theorem enter_compiled_defaulted : ∃ result, (defaultRun (.ofList [("a", .int 1)])).2.1 = .ok result ∧
    result.success = true ∧ Wired defaultExecutor defaultReflection 1 result := by
  have hreturns : (Sample.resultOf (defaultRun (.ofList [("a", .int 1)]))).isSome := by decide +kernel
  obtain ⟨result, hresult⟩ := Option.isSome_iff_exists.1 hreturns
  have hsuccess : (Sample.resultOf (defaultRun (.ofList [("a", .int 1)]))).map (·.success) = some true := by
    decide +kernel
  have hcompiles : (defaultExecutor.compileFlow defaultReflection (.linear defaulted)).toOption.map (·.success) =
      some true := by decide +kernel
  obtain ⟨compiled, hcompile, hcompiled⟩ := Option.map_eq_some_iff.1 hcompiles
  rw [hresult, Option.map_some, Option.some_inj] at hsuccess
  refine ⟨result, Sample.resultOf_eq hresult, hsuccess, ?_⟩
  exact enter_compiled defaultExecutor defaultReflection 0 .sync "defaulted" (.ofList [("a", .int 1)]) {} {} rfl
    defaulted_plain (toOption_eq_some hcompile) hcompiled defaulted_kept rfl rfl rfl (defaultExecutor_reliable _)
    (Sample.run_returns hresult)

/-- Without `a` the flow's schema still takes the input, but step `b` finds nothing. -/
theorem optional_input_missing :
    ¬∀ (executor : Executor) (reflection : Reflection) (flowName : String) (flow : AnyFlow) (schema : Schema)
      (initialInput : Dict) (compiled : CompilationResult),
      executor.registry.getFlow flowName none = .ok flow → flow.Plain →
      executor.compileFlow reflection flow = .ok compiled → compiled.success = true →
      flow.header.inputSchemaRef = some schema → executor.validationError schema initialInput = .ok none →
      ∀ stack events r state', Reliable executor reflection (· ∈ events) →
        (executor.executeFlow stack flowName initialInput {}).Runs {} events r state' →
        Interaction.Outcome (Wired executor reflection flow.steps.length) Unmapped r := by
  intro h
  have hreturns : (Sample.resultOf (defaultRun .empty)).isSome := by decide +kernel
  obtain ⟨result, hresult⟩ := Option.isSome_iff_exists.1 hreturns
  have hcompiles : (defaultExecutor.compileFlow defaultReflection (.linear defaulted)).toOption.map (·.success) =
      some true := by decide +kernel
  obtain ⟨compiled, hcompile, hcompiled⟩ := Option.map_eq_some_iff.1 hcompiles
  have hmissing : (Sample.resultOf (defaultRun .empty)).map
      (fun result => result.executionLog.any fun record => record.errorType = some "InputMappingError") = some true := by
    decide +kernel
  rw [hresult, Option.map_some, Option.some_inj] at hmissing
  obtain ⟨record, hmem, herror⟩ := List.any_eq_true.1 hmissing
  have hwired := h defaultExecutor defaultReflection "defaulted" (.linear defaulted) "maybe" .empty compiled rfl
    defaulted_plain (toOption_eq_some hcompile) hcompiled rfl rfl 0 _ _ _ (defaultExecutor_reliable .empty)
    (Sample.run_returns hresult)
  exact (hwired record hmem).1.1 (by simpa using herror)

end Executor

end ChainWeaver
