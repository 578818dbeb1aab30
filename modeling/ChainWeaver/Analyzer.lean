import ChainWeaver.Data.Chains
import ChainWeaver.Topology

/-!
# The chain analyzer

Which tools may follow each other, by the fields of their schemas (`analyzer.py`): the
chains, the flows suggested for them, and mappings for the pairs that do not fit.
-/

namespace ChainWeaver

-- Schemas

/-- An annotation, as equality and `_TYPE_CATEGORIES` tell them apart. -/
inductive FieldType (τ : Type)
  | str | int | float | bool
  | other (type : τ)
  deriving DecidableEq

/-- `_TYPE_CATEGORIES`. -/
def FieldType.category : FieldType τ → Option String
  | .str => some "string"
  | .int => some "number"
  | .float => some "number"
  | .bool => some "boolean"
  | .other _ => none

structure SchemaField (τ : Type) where
  annotation : FieldType τ
  isRequired : Bool

/-- `model_fields`. -/
abbrev ModelFields (τ : Type) := Schema → OrderedDict (SchemaField τ)

inductive TypeRelation
  | exact | compatible
  deriving DecidableEq

def TypeRelation.value : TypeRelation → String
  | .exact => "exact"
  | .compatible => "compatible"

variable {τ : Type} [DecidableEq τ]

/-- `_type_relation`. -/
def typeRelation (producerType consumerType : FieldType τ) : Option TypeRelation :=
  if producerType = consumerType then some .exact
  else match producerType.category with
    | some category => if consumerType.category = some category then some .compatible else none
    | none => none

/-- `_normalize_field_name`. -/
def normalizeFieldName (lower : String → String) (name : String) : String :=
  lower (String.ofList (name.toList.filter fun c => c ≠ '_' && c ≠ '-'))

/-- The analyzer's tools by name. -/
structure ChainAnalyzer (τ : Type) where
  modelFields : ModelFields τ
  tools : OrderedDict Tool
  named : ∀ entry ∈ tools.entries, entry.1 = entry.2.name

abbrev ToolChain := List String

namespace ChainAnalyzer

/-- `_schema_field_types`. -/
def schemaFieldTypes (fields : ModelFields τ) (schema : Schema) : OrderedDict (FieldType τ) :=
  (fields schema).mapValues SchemaField.annotation

/-- `_schema_required_fields`. -/
def schemaRequiredFields (fields : ModelFields τ) (schema : Schema) : List String :=
  ((fields schema).entries.filter (·.2.isRequired)).map Prod.fst

/-- `_is_compatible`. -/
def isCompatible (fields : ModelFields τ) (producer consumer : Tool) : Bool :=
  let outTypes := schemaFieldTypes fields producer.outputSchema
  let requiredInputs := schemaRequiredFields fields consumer.inputSchema
  (schemaFieldTypes fields consumer.inputSchema).entries.all fun entry =>
    match outTypes.get? entry.1 with
    | none => !requiredInputs.contains entry.1
    | some outType => outType = entry.2

/-- `_auto_input_mapping`. -/
def autoInputMapping (fields : ModelFields τ) (producer : Option Tool) (consumer : Tool) : Dict :=
  let names := (fields consumer.inputSchema).keys
  match producer with
  | none => .ofList (names.map fun name => (name, .str name))
  | some producer =>
    let outFields := (fields producer.outputSchema).keys
    .ofList ((names.filter outFields.contains).map fun name => (name, .str name))

-- Chains

def duplicatesMessage (names : List String) : String :=
  let duplicates := (names.eraseDups.filter fun name => names.count name > 1).mergeSort (· ≤ ·)
  let listed := ", ".intercalate (duplicates.map Value.quote)
  s!"Duplicate tool names supplied to ChainAnalyzer: [{listed}]."

/-- `{t.name: t for t in tools_list}`. -/
def indexed (tools : List Tool) : OrderedDict Tool := .ofList (tools.map fun tool => (tool.name, tool))

theorem entries_indexed {tools : List Tool} (h : (tools.map (·.name)).Nodup) :
    (indexed tools).entries = tools.map fun tool => (tool.name, tool) :=
  OrderedDict.entries_ofList (by simpa [Function.comp_def] using h)

theorem indexed_named {tools : List Tool} (h : (tools.map (·.name)).Nodup) :
    ∀ entry ∈ (indexed tools).entries, entry.1 = entry.2.name := by
  simp [entries_indexed h]

/-- `ChainAnalyzer.__init__`. -/
def create (fields : ModelFields τ) (tools : List Tool) : Except String (ChainAnalyzer τ) :=
  if h : (tools.map (·.name)).Nodup then
    .ok { modelFields := fields, tools := indexed tools, named := indexed_named h }
  else .error (duplicatesMessage (tools.map (·.name)))

variable (analyzer : ChainAnalyzer τ)

def toolNames : List String := analyzer.tools.keys

/-- The tools that can follow a tool, in insertion order. -/
def successors (producerName : String) (producer : Tool) : List String :=
  (analyzer.tools.entries.filter fun entry =>
    entry.1 ≠ producerName && isCompatible analyzer.modelFields producer entry.2).map Prod.fst

/-- `compatibility_matrix`. -/
def compatibilityMatrix : OrderedDict (List String) :=
  .ofList (analyzer.tools.entries.map fun entry => (entry.1, analyzer.successors entry.1 entry.2))

/-- `_dfs`. -/
def dfs (matrix : OrderedDict (List String)) (maxDepth : Nat) (stop : Option String) (path : ToolChain) :
    List ToolChain :=
  Chains.explore (fun name => (matrix.get? name).getD []) (fun path => stop.isNone || path.getLast? = stop)
    maxDepth path

/-- The refusal of a `start` or `end` that is not a tool. -/
def checkTool (role : String) : Option String → Except String Unit
  | some name => if analyzer.tools.contains name then .ok () else .error s!"Unknown {role} tool: '{name}'."
  | none => .ok ()

def startingNames (start : Option String) : List String :=
  match start with
  | some name => [name]
  | none => analyzer.tools.keys

/-- `find_chains`; `stop` is its `end`. -/
def findChains (maxDepth : Int) (start stop : Option String) : Except String (List ToolChain) :=
  if maxDepth < 1 then .error s!"max_depth must be >= 1, got {maxDepth}."
  else do
    analyzer.checkTool "start" start
    analyzer.checkTool "end" stop
    return (analyzer.startingNames start).flatMap fun startingName =>
      dfs analyzer.compatibilityMatrix maxDepth.toNat stop [startingName]

-- Suggested flows

theorem candidatesValid_suggested (toolName : String) : candidatesValid (.tool toolName) none = true := rfl

/-- The steps of a suggested flow; `previous` is the tool before them. -/
def suggestedSteps (previous : Option Tool) : ToolChain → List FlowStep
  | [] => []
  | toolName :: rest =>
    match analyzer.tools.get? toolName with
    | none => []
    | some tool =>
      { target := .tool toolName, inputMapping := autoInputMapping analyzer.modelFields previous tool
        candidates_valid := candidatesValid_suggested toolName } :: suggestedSteps (some tool) rest

/-- `suggest_flows`. -/
def suggestFlows (maxDepth : Int) (start stop : Option String) (minDepth : Int) : Except String (List Flow) :=
  if minDepth < 1 then .error s!"min_depth must be >= 1, got {minDepth}."
  else do
    let chains ← analyzer.findChains maxDepth start stop
    return (chains.filter fun chain => ¬(chain.length : Int) < minDepth).map fun chain =>
      { name := "suggested__" ++ "__".intercalate chain, version := "0.0.0"
        steps := analyzer.suggestedSteps none chain }

end ChainAnalyzer

end ChainWeaver
