import ChainWeaver.AnalyzerLaws
import ChainWeaver.CompilerSound

/-!
# Runs of suggested flows

The first step of a suggested flow takes every field of its tool from the initial input,
the others what the tool before them gives. With an initial input that names all fields
of the first tool no step of a run fails with a mapping error (`suggestFlows_run`); an
input that leaves out an optional field is accepted by the tool but not by the mapping.
-/

namespace ChainWeaver.ChainAnalyzer

open Attempt (bind_eq_ok)
open Compiler (Requires)
open Executor

variable {τ : Type} [DecidableEq τ] {analyzer : ChainAnalyzer τ} {fields : ModelFields τ} {steps : List FlowStep}
  {step : FlowStep} {producer consumer : Tool} {previous : Option Tool} {key : String}

/-- The fields as the executor's side sees them. -/
def reflection (fields : ModelFields τ) : Reflection where
  modelFields schema := (fields schema).mapValues fun field =>
    { annotation := .other, text := "", isRequired := field.isRequired }
  repr _ := ""

-- Compatible tools

omit [DecidableEq τ] in
theorem reflection_contains (schema : Schema) :
    ((reflection fields).modelFields schema).contains key = (fields schema).contains key := by
  simp [reflection]

omit [DecidableEq τ] in
theorem requires_iff {tool : Tool} : Requires (reflection fields) tool key ↔
    ∃ field, (key, field) ∈ (fields tool.inputSchema).entries ∧ field.isRequired = true := by
  simp [Requires, reflection, OrderedDict.get?_eq_some_iff, OrderedDict.mapValues]

/-- Whatever the consumer requires is a field of what the producer gives. -/
theorem isCompatible_required (h : isCompatible fields producer consumer = true)
    (hkey : Requires (reflection fields) consumer key) : (fields producer.outputSchema).contains key = true := by
  obtain ⟨field, hmem, hrequired⟩ := requires_iff.1 hkey
  have hfits := List.all_eq_true.1 h (key, field.annotation) (List.mem_map.2 ⟨_, hmem, rfl⟩)
  have hlisted : (schemaRequiredFields fields consumer.inputSchema).contains key = true :=
    List.contains_iff_mem.2 (List.mem_map.2 ⟨_, List.mem_filter.2 ⟨hmem, hrequired⟩, rfl⟩)
  dsimp only at hfits
  split at hfits
  · rw [hlisted] at hfits
    cases hfits
  · next outType hget =>
    rw [← OrderedDict.contains_mapValues SchemaField.annotation]
    exact OrderedDict.contains_iff.2 ⟨outType, hget⟩

-- The steps of a suggested flow

/-- The step that is suggested for a tool. -/
def suggestedStep (fields : ModelFields τ) (previous : Option Tool) (tool : Tool) : FlowStep :=
  { target := .tool tool.name, inputMapping := autoInputMapping fields previous tool }

/-- Suggested steps behind a tool, or from the beginning. -/
inductive Suggested (analyzer : ChainAnalyzer τ) : Option Tool → List FlowStep → Prop
  | nil {previous : Option Tool} : Suggested analyzer previous []
  | cons {previous : Option Tool} {tool : Tool} {rest : List FlowStep}
      (known : analyzer.tools.get? tool.name = some tool)
      (compatible : ∀ producer, previous = some producer → isCompatible analyzer.modelFields producer tool = true)
      (later : Suggested analyzer (some tool) rest) :
      Suggested analyzer previous (suggestedStep analyzer.modelFields previous tool :: rest)

theorem suggestedSteps_suggested {chain : ToolChain} (hknown : ∀ name ∈ chain, analyzer.tools.contains name = true)
    (hlinked : chain.IsChain analyzer.Follows)
    (hprevious : ∀ producer name, previous = some producer → chain.head? = some name →
      ∃ consumer, analyzer.tools.get? name = some consumer ∧
        isCompatible analyzer.modelFields producer consumer = true) :
    Suggested analyzer previous (analyzer.suggestedSteps previous chain) := by
  induction chain generalizing previous with
  | nil => exact .nil
  | cons name rest ih =>
    obtain ⟨tool, hget⟩ := OrderedDict.contains_iff.1 (hknown name List.mem_cons_self)
    obtain rfl : name = tool.name := analyzer.named (name, tool) (OrderedDict.get?_eq_some_iff.1 hget)
    simp only [suggestedSteps, hget]
    refine .cons hget (fun producer hproducer => ?_) (ih (fun other hmem => hknown other (List.mem_cons_of_mem _ hmem))
      hlinked.of_cons fun producer other hproducer hhead => ?_)
    · obtain ⟨consumer, hconsumer, hcompatible⟩ := hprevious producer _ hproducer rfl
      obtain rfl := Option.some.inj (hget.symm.trans hconsumer)
      exact hcompatible
    · obtain rfl := Option.some.inj hproducer
      obtain ⟨rest', rfl⟩ := List.head?_eq_some_iff.1 hhead
      obtain ⟨own, consumer, hown, hconsumer, hcompatible⟩ := hlinked.rel
      obtain rfl := Option.some.inj (hget.symm.trans hown)
      exact ⟨consumer, hconsumer, hcompatible⟩

/-- What a step of a suggested flow is, and what stands right before it. -/
theorem Suggested.at {before after : List FlowStep} (h : Suggested analyzer previous steps)
    (hsplit : steps = before ++ step :: after) : ∃ own tool, analyzer.tools.get? tool.name = some tool ∧
      step = suggestedStep analyzer.modelFields own tool ∧
      (∀ producer, own = some producer → isCompatible analyzer.modelFields producer tool = true) ∧
      ((before = [] ∧ own = previous) ∨ ∃ last ∈ before, ∃ producer other, own = some producer ∧
        analyzer.tools.get? producer.name = some producer ∧
          last = suggestedStep analyzer.modelFields other producer) := by
  induction h generalizing before with
  | nil => exact absurd hsplit.symm (by simp)
  | @cons previous tool rest known compatible later ih =>
    cases before with
    | nil =>
      obtain ⟨rfl, rfl⟩ := List.cons_eq_cons.1 hsplit
      exact ⟨previous, tool, known, rfl, compatible, .inl ⟨rfl, rfl⟩⟩
    | cons first before =>
      obtain ⟨rfl, hrest⟩ := List.cons_eq_cons.1 hsplit
      obtain ⟨own, tool', hget, hstep, hcompatible, hbefore⟩ := ih hrest
      refine ⟨own, tool', hget, hstep, hcompatible, .inr ?_⟩
      rcases hbefore with ⟨rfl, rfl⟩ | ⟨last, hlast, producer, other, hown, hproducer, heq⟩
      · exact ⟨_, List.mem_cons_self, tool, previous, rfl, known, rfl⟩
      · exact ⟨last, List.mem_cons_of_mem _ hlast, producer, other, hown, hproducer, heq⟩

-- Mappings

/-- The fields that a suggested step maps. -/
def mapped (fields : ModelFields τ) (previous : Option Tool) (tool : Tool) : List String :=
  (fields tool.inputSchema).keys.filter fun name =>
    previous.all fun producer => (fields producer.outputSchema).contains name

omit [DecidableEq τ] in
theorem autoInputMapping_entries (previous : Option Tool) (tool : Tool) :
    (autoInputMapping fields previous tool).entries =
      (mapped fields previous tool).map fun name => (name, .str name) := by
  have hnodup : (mapped fields previous tool).Nodup := (fields tool.inputSchema).nodup.filter _
  have hmapping : autoInputMapping fields previous tool =
      .ofList ((mapped fields previous tool).map fun name => (name, .str name)) := by
    cases previous with
    | none =>
      have hall : mapped fields none tool = (fields tool.inputSchema).keys := List.filter_eq_self.2 fun _ _ => rfl
      rw [hall]
      rfl
    | some producer => rfl
  rw [hmapping, OrderedDict.entries_ofList]
  simpa [Function.comp_def] using hnodup

omit [DecidableEq τ] in
theorem sources_suggestedStep (previous : Option Tool) (tool : Tool) :
    (suggestedStep fields previous tool).sources = mapped fields previous tool := by
  rw [FlowStep.sources, suggestedStep, autoInputMapping_entries, List.filterMap_map]
  exact List.filterMap_some

omit [DecidableEq τ] in
theorem contains_suggestedStep {tool : Tool} : (suggestedStep fields previous tool).inputMapping.contains key = true ↔
    key ∈ mapped fields previous tool := by
  rw [OrderedDict.contains, List.contains_iff_mem, OrderedDict.keys, suggestedStep, autoInputMapping_entries]
  simp

/-- Behind a compatible tool everything required is mapped. -/
theorem mem_mapped_of_requires {tool : Tool}
    (h : ∀ producer, previous = some producer → isCompatible fields producer tool = true)
    (hkey : Requires (reflection fields) tool key) : key ∈ mapped fields previous tool := by
  obtain ⟨field, hmem, _⟩ := requires_iff.1 hkey
  refine List.mem_filter.2 ⟨List.mem_map.2 ⟨_, hmem, rfl⟩, ?_⟩
  cases previous with
  | none => rfl
  | some producer => exact isCompatible_required (h producer rfl) hkey

-- Settled flows

section

variable {executor : Executor} {base : String → Prop} {flow : Flow}

/-- The executor has the tools of the analyzer. -/
def RegisteredIn (analyzer : ChainAnalyzer τ) (executor : Executor) : Prop :=
  ∀ name tool, analyzer.tools.get? name = some tool → executor.getTool name = .ok tool

/-- No input field has the name of a JSON pointer. -/
def PlainFields (fields : ModelFields τ) (tool : Tool) : Prop :=
  ∀ name, (fields tool.inputSchema).contains name = true → Pointer.isPointer name = false

omit [DecidableEq τ] in
theorem runnable_suggestedStep {tool : Tool} {name : String}
    (h : name ∈ executor.runnable (suggestedStep fields previous tool)) : name = tool.name := by
  rcases List.mem_append.1 h with h | h
  · rw [Option.mem_toList, FlowStep.displayName?, suggestedStep] at h
    dsimp only at h
    split at h
    · cases h
    · exact (Option.some.inj h).symm
  · split at h
    · cases h
    · cases h

omit [DecidableEq τ] in
theorem employed_suggestedStep {tool : Tool} {name : String}
    (h : name ∈ executor.employed (suggestedStep fields previous tool)) : name = tool.name := by
  rcases List.mem_append.1 h with h | h
  · exact runnable_suggestedStep h
  · cases h

theorem sound_suggestedStep {tool : Tool} (hregistered : executor.getTool tool.name = .ok tool)
    (h : ∀ producer, previous = some producer → isCompatible fields producer tool = true) :
    Sound executor (reflection fields) (suggestedStep fields previous tool) := by
  refine ⟨fun name hmem => ?_, fun name hmem other hget key hkey => ?_, fun _ _ _ _ mapping hmapping => ?_⟩
  · rw [runnable_suggestedStep hmem]
    exact ⟨tool, hregistered⟩
  · rw [runnable_suggestedStep hmem] at hget
    obtain rfl := Except.ok.inj (hregistered.symm.trans hget)
    exact .inr (contains_suggestedStep.2 (mem_mapped_of_requires h hkey))
  · cases hmapping

omit [DecidableEq τ] in
/-- A suggested step gives the fields of its tool's output. -/
theorem gives_suggestedStep {tool : Tool} (hregistered : executor.getTool tool.name = .ok tool)
    (hkey : (fields tool.outputSchema).contains key = true) :
    executor.Gives (reflection fields) (suggestedStep fields previous tool) key := by
  intro name hmem other hget
  rw [employed_suggestedStep hmem] at hget
  obtain rfl := Except.ok.inj (hregistered.symm.trans hget)
  rwa [reflection_contains]

/-- A suggested step takes only what it maps. -/
theorem takes_suggestedStep {tool : Tool} (hregistered : executor.getTool tool.name = .ok tool)
    (h : ∀ producer, previous = some producer → isCompatible fields producer tool = true)
    (htakes : executor.Takes (reflection fields) (suggestedStep fields previous tool) key) :
    key ∈ mapped fields previous tool := by
  rcases htakes with hsource | ⟨-, name, hmem, other, hget, hkey⟩
  · rwa [sources_suggestedStep] at hsource
  · rw [runnable_suggestedStep hmem] at hget
    obtain rfl := Except.ok.inj (hregistered.symm.trans hget)
    exact mem_mapped_of_requires h hkey

theorem settles_suggested (h : Suggested analyzer none flow.steps) (hregistered : analyzer.RegisteredIn executor)
    (hbase : ∀ tool rest, analyzer.tools.get? tool.name = some tool →
      flow.steps = suggestedStep analyzer.modelFields none tool :: rest →
        ∀ name, (analyzer.modelFields tool.inputSchema).contains name = true → base name) :
    Settles executor (reflection analyzer.modelFields) id base (flow.steps.map fun step => [step]) := by
  have hflat : ∀ steps : List FlowStep, (steps.map fun step => [step]).flatten = steps := List.flatMap_singleton'
  constructor
  · intro step hmem
    rw [hflat] at hmem
    obtain ⟨before, after, hsplit⟩ := List.append_of_mem hmem
    obtain ⟨own, tool, hget, rfl, hcompatible, -⟩ := h.at hsplit
    exact sound_suggestedStep (hregistered _ _ hget) hcompatible
  · intro before level after hsplit step hmem key htakes
    obtain ⟨first, rest, hsteps, rfl, hrest⟩ := List.map_eq_append_iff.1 hsplit
    obtain ⟨own, after', rfl, rfl, -⟩ := List.map_eq_cons_iff.1 hrest
    obtain rfl := List.mem_singleton.1 hmem
    obtain ⟨previous, tool, hget, rfl, hcompatible, hbefore⟩ := h.at hsteps
    obtain ⟨hfield, hsupplied⟩ := List.mem_filter.1 (takes_suggestedStep (hregistered _ _ hget) hcompatible htakes)
    rcases hbefore with ⟨rfl, rfl⟩ | ⟨last, hlast, producer, other, rfl, hproducer, rfl⟩
    · exact .inl (hbase tool after' hget hsteps key (List.contains_iff_mem.2 hfield))
    · rw [hflat]
      exact .inr ⟨_, hlast, gives_suggestedStep (hregistered _ _ hproducer) hsupplied⟩

theorem plain_suggested (h : Suggested analyzer none flow.steps) 
    (hplain : ∀ name tool, analyzer.tools.get? name = some tool → PlainFields analyzer.modelFields tool) :
    (AnyFlow.linear flow).Plain := by
  refine ⟨fun step hmem => ?_, trivial, trivial⟩
  obtain ⟨before, after, hsplit⟩ := List.append_of_mem hmem
  obtain ⟨own, tool, hget, rfl, -⟩ := h.at hsplit
  refine ⟨⟨tool.name, rfl⟩, fun source hsource => ?_, by rintro ⟨⟩⟩
  rw [sources_suggestedStep] at hsource
  exact hplain _ tool hget _ (List.contains_iff_mem.2 (List.mem_filter.1 hsource).1)

end

theorem mem_suggestFlows {maxDepth minDepth : Int} {start stop : Option String} {flows : List Flow} {flow : Flow}
    (h : analyzer.suggestFlows maxDepth start stop minDepth = .ok flows) (hmem : flow ∈ flows) :
    Suggested analyzer none flow.steps := by
  rw [suggestFlows] at h
  split at h
  · cases h
  · obtain ⟨chains, hchains, h⟩ := bind_eq_ok.1 h
    obtain rfl := Except.ok.inj h
    obtain ⟨chain, hchain, rfl⟩ := List.mem_map.1 hmem
    obtain ⟨hknown, hfollows⟩ := findChains_follows hchains (List.mem_filter.1 hchain).1
    exact suggestedSteps_suggested hknown hfollows fun _ _ hnone => by cases hnone

/-- Suggested flows run: with an initial input that names every field of the first tool,
no step fails with a mapping error or lacks a field that its tool requires. -/
theorem suggestFlows_run (fields : ModelFields τ) (tools : List Tool) (maxDepth minDepth : Int)
    (start stop : Option String) (executor : Executor) (stack : Nat) (lane : Lane) (flowName : String)
    (initialInput : Dict) (call : Call) (state : RunScopedState) (hcreate : create fields tools = .ok analyzer)
    (hsuggest : analyzer.suggestFlows maxDepth start stop minDepth = .ok flows) (hmem : flow ∈ flows)
    (hplain : ∀ tool ∈ tools, PlainFields fields tool)
    (hregistered : ∀ tool ∈ tools, executor.getTool tool.name = .ok tool)
    (hflow : executor.registry.getFlow flowName call.version = .ok (.linear flow))
    (hinput : ∀ first ∈ tools, flow.steps.head?.map (·.target) = some (.tool first.name) →
      ∀ name, (fields first.inputSchema).contains name = true →
        (initialInput.update (withDynamicParams state call.dynamicParams).dynamicParams).contains name = true)
    (hfresh : state.resumeSnapshot = none) (hdry : state.dryRun = false) (hcall : call.dryRun = false)
    (hreliable : Reliable executor (reflection fields) (· ∈ events))
    (hrun : (executor.enter stack (executeIn lane flowName initialInput call)).Runs state events r state') :
    Interaction.Outcome (Wired executor (reflection fields) flow.steps.length) Unmapped r := by
  rw [create] at hcreate
  split at hcreate
  · next hnames =>
    obtain rfl := Except.ok.inj hcreate
    have hsuggested := mem_suggestFlows hsuggest hmem
    have htools : ∀ name tool, (indexed tools).get? name = some tool → tool ∈ tools ∧ tool.name = name :=
      fun _ _ => (get?_indexed hnames).1
    have hflowPlain := plain_suggested hsuggested fun name tool hget => hplain tool (htools name tool hget).1
    refine enter_settled hflow hflowPlain rfl (fun own hown => ?_) (fun own hown => by cases hown) hfresh hdry hcall
      hreliable hrun
    obtain rfl := AnyFlow.linear.inj hown
    refine settles_suggested hsuggested (fun name tool hget => ?_) fun tool rest hget hsteps name hname => ?_
    · obtain ⟨hmem, rfl⟩ := htools name tool hget
      exact hregistered tool hmem
    · exact .inl (hinput tool (htools _ tool hget).1 (by rw [hsteps]; rfl) name hname)
  · cases hcreate

-- Runs

/-- The classes of `defaultReflection`, all fields of one type. -/
def maybeFields : ModelFields Empty := fun schema =>
  (defaultReflection.modelFields schema).mapValues fun info => { annotation := .str, isRequired := info.isRequired }

/-- `b` takes `a` if it is there, `c` takes what `b` gives. -/
def maybeTools : List Tool :=
  [{ fieldTool "b" with inputSchema := "maybe" }, { fieldTool "c" with inputSchema := "b" }]

def maybeFlow : Flow :=
  { name := "suggested__b__c", version := "0.0.0"
    steps :=
      [Sample.taking [("a", .str "a")] (Sample.step "b"), Sample.taking [("b", .str "b")] (Sample.step "c")] }

def maybeExecutor : Executor := { Sample.executor [.linear maybeFlow] maybeTools with platform := defaultPlatform }

def maybeRun (input : Dict) : List Event × Except Exc ExecutionResult × RunScopedState :=
  Sample.run Sample.named none 0 (maybeExecutor.executeFlow 0 "suggested__b__c" input {})

theorem maybe_fits (h : Fits defaultReflection schema outputs) : Fits (reflection maybeFields) schema outputs := by
  intro field hfield
  rw [reflection_contains, maybeFields, OrderedDict.contains_mapValues] at hfield
  exact h field hfield

theorem maybe_reliable (input : Dict) :
    Reliable maybeExecutor (reflection maybeFields) (· ∈ (maybeRun input).1) := by
  have h : Reliable maybeExecutor defaultReflection (· ∈ (maybeRun input).1) := defaultPlatform_reliable rfl _
  exact { h with
    dumps := fun schema value dumped hvalid => maybe_fits (h.dumps schema value dumped hvalid)
    hit := fun key outputs he tool hname hhash => maybe_fits (h.hit key outputs he tool hname hhash) }

theorem maybe_named : (maybeTools.map (·.name)).Nodup := by decide

def maybeAnalyzer : ChainAnalyzer Empty :=
  { modelFields := maybeFields, tools := indexed maybeTools, named := indexed_named maybe_named }

/-- The analyzer of the two tools suggests the flow from `b` to `c`. -/
theorem maybe_suggested : ∃ flows, maybeAnalyzer.suggestFlows 3 none none 2 = .ok flows ∧ maybeFlow ∈ flows := by
  obtain ⟨chains, hchains⟩ : ∃ chains, maybeAnalyzer.findChains 3 none none = .ok chains :=
    ⟨_, findChains_eq_ok.2 ⟨⟨by decide, by rintro _ ⟨⟩, by rintro _ ⟨⟩⟩, rfl⟩⟩
  have hchain : ["b", "c"] ∈ chains := by
    refine (mem_findChains hchains).2 ⟨⟨by decide, by decide, ?_, "b", by decide, rfl⟩, rfl⟩
    exact List.isChain_pair.2 (by decide +kernel)
  refine ⟨_, bind_eq_ok.2 ⟨chains, hchains, rfl⟩, List.mem_map.2 ⟨["b", "c"], ?_, rfl⟩⟩
  exact List.mem_filter.2 ⟨hchain, by decide⟩

theorem maybe_plain : ∀ tool ∈ maybeTools, PlainFields maybeFields tool := by
  have hfields : ∀ tool ∈ maybeTools, ∀ name ∈ (maybeFields tool.inputSchema).keys,
      Pointer.isPointer name = false := by
    decide
  exact fun tool hmem name hname => hfields tool hmem name (List.contains_iff_mem.1 hname)

theorem maybe_registered : ∀ tool ∈ maybeTools, maybeExecutor.getTool tool.name = .ok tool :=
  List.forall_mem_cons.2 ⟨rfl, List.forall_mem_cons.2 ⟨rfl, by simp⟩⟩

theorem suggestFlows_run_maybe : ∃ result, (maybeRun (.ofList [("a", .int 1)])).2.1 = .ok result ∧
    result.success = true ∧ Wired maybeExecutor (reflection maybeFields) 2 result := by
  have hreturns : (Sample.resultOf (maybeRun (.ofList [("a", .int 1)]))).isSome := by decide +kernel
  obtain ⟨result, hresult⟩ := Option.isSome_iff_exists.1 hreturns
  have hsuccess : (Sample.resultOf (maybeRun (.ofList [("a", .int 1)]))).map (·.success) = some true := by
    decide +kernel
  rw [hresult, Option.map_some, Option.some_inj] at hsuccess
  obtain ⟨flows, hflows, hmem⟩ := maybe_suggested
  refine ⟨result, Sample.resultOf_eq hresult, hsuccess, ?_⟩
  refine suggestFlows_run maybeFields maybeTools 3 2 none none maybeExecutor 0 .sync "suggested__b__c"
    (.ofList [("a", .int 1)]) {} {} (dif_pos maybe_named) hflows hmem maybe_plain maybe_registered rfl ?_ rfl rfl rfl
    (maybe_reliable _) (Sample.run_returns hresult)
  · intro first hfirst htarget name hname
    have hfields : ∀ tool ∈ maybeTools, tool.name = "b" → (maybeFields tool.inputSchema).keys = ["a"] := by decide
    have hfirstName : first.name = "b" := (Target.tool.inj (Option.some.inj htarget)).symm
    rw [OrderedDict.contains, List.contains_iff_mem, hfields first hfirst hfirstName, List.mem_singleton] at hname
    subst hname
    decide

/-- `b` accepts an input without `a`, but the suggested mapping does not. -/
theorem optional_field_mapped :
    ¬∀ (fields : ModelFields Empty) (tools : List Tool) (analyzer : ChainAnalyzer Empty) (flows : List Flow)
      (flow : Flow) (executor : Executor) (flowName : String) (first : Tool) (initialInput : Dict),
      create fields tools = .ok analyzer → analyzer.suggestFlows 3 none none 2 = .ok flows → flow ∈ flows →
      (∀ tool ∈ tools, PlainFields fields tool) → (∀ tool ∈ tools, executor.getTool tool.name = .ok tool) →
      executor.registry.getFlow flowName none = .ok (.linear flow) → first ∈ tools →
      flow.steps.head?.map (·.target) = some (.tool first.name) →
      executor.validationError first.inputSchema initialInput = .ok none →
      ∀ events r state', Reliable executor (reflection fields) (· ∈ events) →
        (executor.executeFlow 0 flowName initialInput {}).Runs {} events r state' →
        Interaction.Outcome (Wired executor (reflection fields) flow.steps.length) Unmapped r := by
  intro h
  have hreturns : (Sample.resultOf (maybeRun .empty)).isSome := by decide +kernel
  obtain ⟨result, hresult⟩ := Option.isSome_iff_exists.1 hreturns
  have hmissing : (Sample.resultOf (maybeRun .empty)).map
      (fun result => result.executionLog.any fun record => record.errorType = some "InputMappingError") =
        some true := by decide +kernel
  rw [hresult, Option.map_some, Option.some_inj] at hmissing
  obtain ⟨record, hrecord, herror⟩ := List.any_eq_true.1 hmissing
  obtain ⟨flows, hflows, hmem⟩ := maybe_suggested
  have hwired := h maybeFields maybeTools maybeAnalyzer flows maybeFlow maybeExecutor "suggested__b__c"
    { fieldTool "b" with inputSchema := "maybe" } .empty (dif_pos maybe_named) hflows hmem maybe_plain
    maybe_registered rfl List.mem_cons_self rfl rfl _ _ _ (maybe_reliable .empty) (Sample.run_returns hresult)
  exact (hwired record hrecord).1.1 (by simpa using herror)

end ChainWeaver.ChainAnalyzer
