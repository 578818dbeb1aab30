import ChainWeaver.Analyzer
import ChainWeaver.Data.Attempt
import ChainWeaver.Sample

/-!
# Chains of compatible tools

`find_chains` gives the chains of distinct tools in which each can follow the one before
it, up to the depth, once each (`findChains_chains`); it refuses a depth below one and
names that are not tools.
-/

namespace ChainWeaver.ChainAnalyzer

open Attempt (bind_eq_ok)

variable {τ : Type} [DecidableEq τ] {analyzer : ChainAnalyzer τ} {tools : List Tool} {fields : ModelFields τ}
  {maxDepth : Int} {start stop : Option String} {name other : String} {chain : ToolChain}

-- Tools

theorem get?_indexed (h : (tools.map (·.name)).Nodup) {tool : Tool} :
    (indexed tools).get? name = some tool ↔ tool ∈ tools ∧ tool.name = name := by
  rw [OrderedDict.get?_eq_some_iff, entries_indexed h]
  simp only [List.mem_map, Prod.mk.injEq]
  constructor
  · rintro ⟨other, hmem, rfl, rfl⟩
    exact ⟨hmem, rfl⟩
  · rintro ⟨hmem, rfl⟩
    exact ⟨tool, hmem, rfl, rfl⟩

theorem keys_indexed (h : (tools.map (·.name)).Nodup) : (indexed tools).keys = tools.map (·.name) := by
  simp [OrderedDict.keys, entries_indexed h]

-- The matrix

theorem entries_matrix (analyzer : ChainAnalyzer τ) : analyzer.compatibilityMatrix.entries =
    analyzer.tools.entries.map fun entry => (entry.1, analyzer.successors entry.1 entry.2) := by
  refine OrderedDict.entries_ofList ?_
  rw [List.map_map]
  exact analyzer.tools.nodup

theorem mem_successors {producerName : String} {producer : Tool} :
    other ∈ analyzer.successors producerName producer ↔
      other ≠ producerName ∧ ∃ consumer, analyzer.tools.get? other = some consumer ∧
      isCompatible analyzer.modelFields producer consumer = true := by
  simp only [successors, List.mem_map, List.mem_filter, Bool.and_eq_true, decide_eq_true_eq, Prod.exists,
    OrderedDict.get?_eq_some_iff]
  constructor
  · rintro ⟨_, consumer, ⟨hmem, hne, hcompatible⟩, rfl⟩
    exact ⟨hne, consumer, hmem, hcompatible⟩
  · rintro ⟨hne, consumer, hmem, hcompatible⟩
    exact ⟨other, consumer, ⟨hmem, hne, hcompatible⟩, rfl⟩

theorem successors_nodup (producerName : String) (producer : Tool) :
    (analyzer.successors producerName producer).Nodup :=
  analyzer.tools.nodup.sublist (List.filter_sublist.map _)

/-- The row of a tool in the matrix. -/
def row (analyzer : ChainAnalyzer τ) (name : String) : List String := (analyzer.compatibilityMatrix.get? name).getD []

theorem row_eq (analyzer : ChainAnalyzer τ) (name : String) :
    analyzer.row name = ((analyzer.tools.get? name).map (analyzer.successors name)).getD [] := by
  rw [row, OrderedDict.get?, entries_matrix, OrderedDict.get?]
  induction analyzer.tools.entries with
  | nil => rfl
  | cons entry rest ih =>
    rw [List.map_cons, OrderedDict.lookup_cons_if, OrderedDict.lookup_cons_if]
    split
    · next hname => simp [hname]
    · exact ih

/-- `other` can follow `name` in a chain. -/
def Follows (analyzer : ChainAnalyzer τ) (name other : String) : Prop :=
  ∃ producer consumer, analyzer.tools.get? name = some producer ∧ analyzer.tools.get? other = some consumer ∧
    isCompatible analyzer.modelFields producer consumer = true

theorem mem_row : other ∈ analyzer.row name ↔ other ≠ name ∧ analyzer.Follows name other := by
  rw [row_eq, Follows]
  cases analyzer.tools.get? name with
  | none => simp
  | some producer => simp [mem_successors]

theorem row_nodup (name : String) : (analyzer.row name).Nodup := by
  rw [row_eq]
  cases analyzer.tools.get? name with
  | none => exact .nil
  | some producer => exact successors_nodup name producer

-- Chains

/-- The arguments that `find_chains` takes. -/
structure Accepted (tools : List Tool) (maxDepth : Int) (start stop : Option String) : Prop where
  depth : 1 ≤ maxDepth
  start : ∀ name, start = some name → name ∈ tools.map (·.name)
  stop : ∀ name, stop = some name → name ∈ tools.map (·.name)

/-- A sequence of distinct tools in which each can follow the one before it. -/
structure Valid (fields : ModelFields τ) (tools : List Tool) (maxDepth : Int) (start stop : Option String)
    (chain : ToolChain) : Prop where
  ne_nil : chain ≠ []
  length_le : chain.length ≤ maxDepth
  nodup : chain.Nodup
  known : ∀ name ∈ chain, name ∈ tools.map (·.name)
  compatible : chain.IsChain fun name other => ∃ producer ∈ tools, ∃ consumer ∈ tools,
    producer.name = name ∧ consumer.name = other ∧ isCompatible fields producer consumer = true
  start : ∀ name, start = some name → chain.head? = some name
  stop : ∀ name, stop = some name → chain.getLast? = some name

omit [DecidableEq τ] in
theorem checkTool_eq_ok (role : String) {name : Option String} : analyzer.checkTool role name = .ok () ↔
    ∀ tool, name = some tool → analyzer.tools.contains tool = true := by
  cases name with
  | none => simp [checkTool]
  | some tool => simp [checkTool]

theorem findChains_eq_ok {chains : List ToolChain} : analyzer.findChains maxDepth start stop = .ok chains ↔
    (1 ≤ maxDepth ∧ (∀ name, start = some name → analyzer.tools.contains name = true) ∧
      ∀ name, stop = some name → analyzer.tools.contains name = true) ∧
      (analyzer.startingNames start).flatMap (fun startingName =>
        dfs analyzer.compatibilityMatrix maxDepth.toNat stop [startingName]) = chains := by
  rw [findChains]
  split
  · next hdepth => simp [Int.not_le.2 hdepth]
  · next hdepth =>
    rw [bind_eq_ok, ← checkTool_eq_ok "start", ← checkTool_eq_ok "end"]
    constructor
    · rintro ⟨_, hstart, h⟩
      obtain ⟨_, hstop, h⟩ := bind_eq_ok.1 h
      exact ⟨⟨Int.not_lt.1 hdepth, hstart, hstop⟩, Except.ok.inj h⟩
    · rintro ⟨⟨_, hstart, hstop⟩, rfl⟩
      exact ⟨(), hstart, bind_eq_ok.2 ⟨(), hstop, rfl⟩⟩

/-- The tools of an analyzer, for the names of its chains. -/
theorem follows_iff {analyzer : ChainAnalyzer τ} (h : (tools.map (·.name)).Nodup)
    (htools : analyzer.tools = indexed tools) :
    analyzer.Follows name other ↔ ∃ producer ∈ tools, ∃ consumer ∈ tools,
      producer.name = name ∧ consumer.name = other ∧
        isCompatible analyzer.modelFields producer consumer = true := by
  simp only [Follows, htools, get?_indexed h]
  constructor
  · rintro ⟨producer, consumer, ⟨hproducer, hname⟩, ⟨hconsumer, hother⟩, hcompatible⟩
    exact ⟨producer, hproducer, consumer, hconsumer, hname, hother, hcompatible⟩
  · rintro ⟨producer, hproducer, consumer, hconsumer, hname, hother, hcompatible⟩
    exact ⟨producer, consumer, ⟨hproducer, hname⟩, ⟨hconsumer, hother⟩, hcompatible⟩

theorem mem_findChains {chains : List ToolChain} (h : analyzer.findChains maxDepth start stop = .ok chains) :
    chain ∈ chains ↔ Chains.Chain analyzer.row (analyzer.startingNames start) maxDepth.toNat chain ∧
      (stop.isNone || chain.getLast? = stop) = true := by
  obtain ⟨⟨hdepth, -⟩, rfl⟩ := findChains_eq_ok.1 h
  exact Chains.mem_flatMap_explore (by omega)

/-- The tools of a chain follow one another. -/
theorem findChains_follows {chains : List ToolChain} (h : analyzer.findChains maxDepth start stop = .ok chains)
    (hmem : chain ∈ chains) :
    (∀ name ∈ chain, analyzer.tools.contains name = true) ∧ chain.IsChain analyzer.Follows := by
  obtain ⟨⟨-, -, hlinked, first, hfirst, hhead⟩, -⟩ := (mem_findChains h).1 hmem
  obtain ⟨⟨-, hstart, -⟩, -⟩ := findChains_eq_ok.1 h
  obtain ⟨rest, rfl⟩ := List.head?_eq_some_iff.1 hhead
  have hfollows : (first :: rest).IsChain analyzer.Follows := hlinked.imp fun _ _ hmem => (mem_row.1 hmem).2
  refine ⟨Chains.forall_of_isChain ?_ (fun name other hfollows => ?_) hfollows, hfollows⟩
  · unfold startingNames at hfirst
    split at hfirst
    · obtain rfl := List.mem_singleton.1 hfirst
      exact hstart first rfl
    · exact List.contains_iff_mem.2 hfirst
  · obtain ⟨_, consumer, _, hconsumer, _⟩ := hfollows
    exact OrderedDict.contains_iff.2 ⟨consumer, hconsumer⟩

theorem contains_indexed (h : (tools.map (·.name)).Nodup) :
    (indexed tools).contains name = true ↔ name ∈ tools.map (·.name) := by
  rw [OrderedDict.contains, keys_indexed h, List.contains_iff_mem]

/-- What the search finds, in terms of the tools. -/
theorem valid_iff {chains : List ToolChain} (h : (tools.map (·.name)).Nodup) (htools : analyzer.tools = indexed tools)
    (hfound : analyzer.findChains maxDepth start stop = .ok chains) :
    chain ∈ chains ↔ Valid analyzer.modelFields tools maxDepth start stop chain := by
  have hdepth := (findChains_eq_ok.1 hfound).1.1
  have hcontains : ∀ name, analyzer.tools.contains name = true ↔ name ∈ tools.map (·.name) := by
    simp [htools, contains_indexed h]
  constructor
  · intro hmem
    obtain ⟨hknown, hfollows⟩ := findChains_follows hfound hmem
    obtain ⟨⟨hlength, hnodup, -, first, hfirst, hhead⟩, hstop⟩ := (mem_findChains hfound).1 hmem
    refine ⟨?_, by omega, hnodup, fun name hname => (hcontains name).1 (hknown name hname),
      hfollows.imp fun _ _ => (follows_iff h htools).1, ?_, ?_⟩
    · rintro rfl
      cases hhead
    · rintro name rfl
      rwa [List.mem_singleton.1 hfirst] at hhead
    · rintro name rfl
      simpa using hstop
  · rintro ⟨hne, hlength, hnodup, hknown, hcompatible, hstart, hstop⟩
    obtain ⟨first, rest, rfl⟩ := List.exists_cons_of_ne_nil hne
    have hfollows := hcompatible.imp fun _ _ => (follows_iff h htools).2
    refine (mem_findChains hfound).2 ⟨⟨by omega, hnodup, ?_, first, ?_, rfl⟩, ?_⟩
    · exact (Chains.isChain_ne hnodup hfollows).imp fun _ _ => mem_row.2
    · unfold startingNames
      split
      · next name =>
        obtain rfl := Option.some.inj (hstart name rfl)
        exact List.mem_singleton_self _
      · exact List.contains_iff_mem.1 ((hcontains first).2 (hknown first List.mem_cons_self))
    · cases stop with
      | none => rfl
      | some name => simpa using hstop name rfl

/-- For every list of distinctly named tools, `find_chains` gives exactly the chains of
compatible tools, each once, and refuses only what is not a depth or not a tool. -/
theorem findChains_chains (fields : ModelFields τ) (tools : List Tool) (maxDepth : Int) (start stop : Option String)
    (h : (tools.map (·.name)).Nodup) : ∃ analyzer, create fields tools = .ok analyzer ∧
      (Accepted tools maxDepth start stop → ∃ chains, analyzer.findChains maxDepth start stop = .ok chains ∧
        chains.Nodup ∧ ∀ chain, chain ∈ chains ↔ Valid fields tools maxDepth start stop chain) ∧
      (¬Accepted tools maxDepth start stop →
        ∃ message, analyzer.findChains maxDepth start stop = .error message) := by
  have hknown : ∀ name : Option String, (∀ tool, name = some tool → tool ∈ tools.map (·.name)) ↔
      ∀ tool, name = some tool → (indexed tools).contains tool = true := by
    simp only [contains_indexed h, implies_true]
  refine ⟨{ modelFields := fields, tools := indexed tools, named := indexed_named h }, dif_pos h, ?_, ?_⟩
  · intro haccepted
    have haccepts :=
      And.intro haccepted.depth (And.intro ((hknown start).1 haccepted.start) ((hknown stop).1 haccepted.stop))
    refine ⟨_, findChains_eq_ok.2 ⟨haccepts, rfl⟩, ?_, ?_⟩
    · refine Chains.flatMap_explore_nodup ?_ row_nodup
      unfold startingNames
      split
      · exact List.nodup_singleton _
      · exact OrderedDict.nodup _
    · exact fun chain => valid_iff h rfl (findChains_eq_ok.2 ⟨haccepts, rfl⟩)
  · intro hrefused
    cases hfound : findChains ⟨fields, indexed tools, indexed_named h⟩ maxDepth start stop with
    | error message => exact ⟨message, rfl⟩
    | ok chains =>
      obtain ⟨⟨hdepth, hstart, hstop⟩, -⟩ := findChains_eq_ok.1 hfound
      exact absurd ⟨hdepth, (hknown start).2 hstart, (hknown stop).2 hstop⟩ hrefused

/-- `double` gives the number that `add_ten` takes. -/
def numberFields : ModelFields Empty := fun schema =>
  if schema = "Text" then .ofList [("text", { annotation := .str, isRequired := true })]
  else .ofList [("value", { annotation := .int, isRequired := true })]

def numberTools : List Tool :=
  [{ Sample.tool "double" with inputSchema := "Number", outputSchema := "Number" },
   { Sample.tool "format" with inputSchema := "Number", outputSchema := "Text" }]

theorem findChains_chains_number : ∃ analyzer, create numberFields numberTools = .ok analyzer ∧
    ∃ chains, analyzer.findChains 3 none (some "format") = .ok chains ∧ chains.Nodup ∧
      ["double", "format"] ∈ chains ∧ ["format", "double", "format"] ∉ chains := by
  obtain ⟨analyzer, hcreate, haccepted, -⟩ :=
    findChains_chains numberFields numberTools 3 none (some "format") (by decide)
  obtain ⟨chains, hchains, hnodup, hmem⟩ := haccepted
    { depth := by decide, start := by rintro _ ⟨⟩, stop := fun name h => Option.some.inj h ▸ by decide }
  refine ⟨analyzer, hcreate, chains, hchains, hnodup, (hmem _).2 ?_, fun h => ?_⟩
  · refine ⟨by decide, by decide, by decide, by decide, ?_, by rintro _ ⟨⟩, fun name h => h⟩
    refine List.isChain_pair.2 ⟨_, List.mem_cons_self, _, List.mem_cons_of_mem _ List.mem_cons_self, rfl, rfl, ?_⟩
    decide +kernel
  · exact absurd ((hmem _).1 h).nodup (by decide)

end ChainWeaver.ChainAnalyzer
