import ChainWeaver.Data.Firsts
import ChainWeaver.LoaderErrors
import ChainWeaver.PromptBudget
import ChainWeaver.TraceImport
import ChainWeaver.Twin

/-!
# Proposals of a language model

`llm_propose_flows` of `compiler_llm.py` asks a model for flows, batch by batch, and lets it repair what is
refused. The answers are texts of any kind. What comes of them is confined to the tools of the prompt exactly
under the conditions of `Confinable`: the check of the names looks at the tools of the steps and at nothing
else that a step can name.
-/

namespace ChainWeaver

def ParsedObject.map (f : ι → κ) : ParsedObject ι → ParsedObject κ
  | .null => .null
  | .str text => .str text
  | .scalar typeName => .scalar typeName
  | .mapping entries => .mapping (entries.map fun (key, value) => (key, f value))
  | .list items => .list (items.map f)
  | .tuple items => .tuple (items.map f)
  | .set members => .set (members.map f)

/-- The steps of a linear flow. -/
def FullSteps.linearSteps : FullSteps → List FullStep
  | .linear steps => steps
  | .dag _ => []

-- Texts

namespace PyText

def isSpace (codePoint : Nat) : Bool := Pointer.isSpace (Char.ofNat codePoint)

/-- `str.strip`. -/
def strip (text : PyText) : PyText := ((text.dropWhile isSpace).reverse.dropWhile isSpace).reverse

/-- Where `str.splitlines` splits. -/
def endsLine (codePoint : Nat) : Bool :=
  [0xa, 0xb, 0xc, 0xd, 0x1c, 0x1d, 0x1e, 0x85, 0x2028, 0x2029].contains codePoint

def splitlinesFrom (line : PyText) : PyText → List PyText
  | [] => if line.isEmpty then [] else [line.reverse]
  | 0xd :: 0xa :: rest => line.reverse :: splitlinesFrom [] rest
  | c :: rest => if endsLine c then line.reverse :: splitlinesFrom [] rest else splitlinesFrom (c :: line) rest

/-- `str.splitlines`. -/
def splitlines (text : PyText) : List PyText := splitlinesFrom [] text

def ofString (text : String) : PyText := text.toList.map Char.toNat

end PyText

namespace Proposals

open Attempt (ErrorsIn)
open PyText (ofString)

def fence : PyText := ofString "```"

/-- `_strip_code_fence`. -/
def stripCodeFence (raw : PyText) : PyText :=
  let stripped := PyText.strip raw
  if !fence.isPrefixOf stripped then raw
  else
    let lines := (PyText.splitlines stripped).tail
    let lines := if lines.getLast?.map PyText.strip = some fence then lines.dropLast else lines
    (ofString "\n").intercalate lines

-- Parsers

inductive ProposeError
  | offlineLLM (detail : String)
  | budget (e : BudgetError)
  | valueError (text : String)
  | other (typeName : String)

/-- `OfflineLLMError`s and `PromptBudgetExceededError`s. -/
def ProposeError.documented : ProposeError → Prop
  | .offlineLLM _ => True
  | .budget (.exceeded _ _) => True
  | _ => False

structure LLMProposal where
  proposedFlow : FullFlow
  rationale : String
  confidence : Rat

/-- The objects that a payload is made of: parsed ones, the default of its discriminator, and the payload. -/
inductive Part (ι : Type)
  | parsed (identity : ι)
  | flowText
  | payload (flowData : ι)

inductive PyNumber
  | int (i : Int)
  | float (f : PyFloat)

/-- The parsers, with the objects that they make, and the flow models. -/
structure Parsers (ι : Type) where
  /-- `json.loads`; every `ValueError` counts as a syntax error. -/
  loads : PyText → ParseOutcome ι
  safeLoad : PyText → ParseOutcome ι
  yamlInstalled : Bool
  objects : ι → ParsedObject ι
  /-- The integers and floats among the objects, `bool`s apart. -/
  number? : ι → Option PyNumber
  /-- The rounding of integers within the doubles. -/
  toDouble : Int → PyFloat
  strOther : Part ι → Except String String
  repr : Part ι → Except String String
  modelValidate : Bool → Part ι → Except String FullFlow
  reprNames : List String → String

namespace Parsers

variable (parsers : Parsers ι)

abbrev Entries (ι : Type) := List (Option String × ι)

/-- `{"type": "Flow", **flow_data}`. -/
def payloadEntries (flowData : Entries ι) : Entries (Part ι) :=
  (some "type", ((flowData.lookup (some "type")).map Part.parsed).getD .flowText) ::
    (flowData.filter fun entry => entry.1 ≠ some "type").map fun entry => (entry.1, .parsed entry.2)

def partObjects : Part ι → ParsedObject (Part ι)
  | .parsed identity => (parsers.objects identity).map .parsed
  | .flowText => .str "Flow"
  | .payload flowData =>
    match parsers.objects flowData with
    | .mapping entries => .mapping (payloadEntries entries)
    | other => other.map .parsed

def loader : FlowLoader (Part ι) FullFlow where
  loads _ := .syntaxError ""
  safeLoad _ := .syntaxError ""
  objects := parsers.partObjects
  strOther := parsers.strOther
  repr := parsers.repr
  modelValidate := parsers.modelValidate

def parseLlmYaml (raw : PyText) : Except ProposeError ι :=
  if !parsers.yamlInstalled then
    .error (.offlineLLM ("Offline LLM proposers parse YAML completions and require 'pyyaml'. " ++
      "Install it via 'pip install chainweaver[yaml]'."))
  else if (PyText.strip (stripCodeFence raw)).isEmpty then
    .error (.offlineLLM "LLM returned an empty completion; expected YAML.")
  else
    match parsers.safeLoad (stripCodeFence raw) with
    | .value root => .ok root
    | .syntaxError detail => .error (.offlineLLM s!"LLM completion is not valid YAML: {detail}")
    | .raised typeName => .error (.other typeName)

def parseLlmPayload (raw : PyText) : Except ProposeError ι :=
  if (PyText.strip (stripCodeFence raw)).isEmpty then
    .error (.offlineLLM "LLM returned an empty completion; expected JSON or YAML.")
  else
    match parsers.loads (stripCodeFence raw) with
    | .value root => .ok root
    | .syntaxError _ => parsers.parseLlmYaml raw
    | .raised typeName => .error (.other typeName)

/-- What is to be the list of proposals; `none` for the empty list by default. -/
def proposalsOf (root : ι) : Option ι :=
  match parsers.objects root with
  | .mapping entries => entries.lookup (some "proposals")
  | _ => some root

def entryOf (item : ι) : Except ProposeError (Entries ι) :=
  match parsers.objects item with
  | .mapping entries => .ok entries
  | other => .error (.offlineLLM s!"Each proposal must be a mapping; got {FlowLoader.typeName other}.")

def coerceProposalList (root : ι) : Except ProposeError (List (Entries ι)) :=
  match parsers.proposalsOf root with
  | none => .ok []
  | some listed =>
    match parsers.objects listed with
    | .list items => items.mapM parsers.entryOf
    | other =>
      .error (.offlineLLM ("Expected a YAML list of proposals (or a mapping with a 'proposals' " ++
        s!"key); got {FlowLoader.typeName other}."))

-- Proposals

/-- `max(0.0, min(1.0, x))`; comparisons with NaN are false. -/
def clamp : PyFloat → Rat
  | .finite q => if q < 1 then if 0 < q then q else 0 else 1
  | .negInfinite => 0
  | .infinite | .nan => 1

/-- `flow_from_dict`, whose walk over the structure ends within the limit on the nodes. -/
def flowFromPayload (flowData : ι) : Except ProposeError FullFlow :=
  match parsers.loader.flowFromDict {} (.payload flowData) (100000 + 1) with
  | some (.ok flow) => .ok flow
  | some (.error (.flowSerialization detail)) =>
    .error (.offlineLLM s!"Proposed flow is invalid: Flow serialization failed: {detail}.")
  | some (.error (.other typeName)) => .error (.other typeName)
  | none => .error (.other "")

/-- `float(raw_confidence)`. -/
def toFloat : PyNumber → Except ProposeError PyFloat
  | .int i => if i.natAbs < TraceImport.doubleLimit then .ok (parsers.toDouble i) else .error (.other "OverflowError")
  | .float f => .ok f

/-- The mapping under a key, with its identity. -/
def mappingAt (entry : Entries ι) (key : String) : Option ι :=
  (entry.lookup (some key)).filter fun identity =>
    match parsers.objects identity with
    | .mapping _ => true
    | _ => false

def unknownTools (knownNames : List String) (flow : FullFlow) : List String :=
  (flow.steps.linearSteps.filterMap (·.target.toolName?)).filter fun name => name ∉ knownNames

def rationaleOf (entry : Entries ι) : Except ProposeError String :=
  match (entry.lookup (some "rationale")).map parsers.objects with
  | none => .ok ""
  | some (.str text) => .ok text
  | some _ => .error (.offlineLLM "Proposal 'rationale' must be a string.")

def confidenceOf (entry : Entries ι) : Except ProposeError Rat :=
  match (entry.lookup (some "confidence")).bind parsers.number? with
  | none => .error (.offlineLLM "Proposal 'confidence' must be a number in [0, 1].")
  | some number => (parsers.toFloat number).map clamp

/-- The checks of the flow in `_build_proposal`. -/
def checkFlow (knownNames : List String) (flow : FullFlow) : Except ProposeError Unit :=
  if flow.steps.isDag then
    .error (.offlineLLM (s!"Proposed flow '{flow.name}' is not a linear Flow; the LLM compiler " ++
      "only proposes Flow objects."))
  else if unknownTools knownNames flow ≠ [] then
    .error (.offlineLLM
      s!"Proposed flow '{flow.name}' references unknown tools: {parsers.reprNames (unknownTools knownNames flow)}.")
  else .ok ()

/-- `_build_proposal`. -/
def buildProposal (knownNames : List String) (entry : Entries ι) : Except ProposeError LLMProposal :=
  match parsers.mappingAt entry "flow" with
  | none => .error (.offlineLLM "Proposal is missing a 'flow' mapping.")
  | some flowData => do
    let proposedFlow ← parsers.flowFromPayload flowData
    parsers.checkFlow knownNames proposedFlow
    let rationale ← parsers.rationaleOf entry
    let confidence ← parsers.confidenceOf entry
    pure { proposedFlow, rationale, confidence }

/-- `make_parse(batch_names)`. -/
def parse (batchNames : List String) (raw : PyText) : Except ProposeError (List LLMProposal) := do
  let root ← parsers.parseLlmPayload raw
  let entries ← parsers.coerceProposalList root
  entries.mapM (parsers.buildProposal batchNames)

end Parsers

-- Repairs

/-- The loop of `run_with_repair` on the completions of the calls, with repairs behind it and some left: what
is parsed, with the repairs that it took, and the number of calls. -/
def repairLoop (parse : PyText → Except ProposeError α) (completions : Nat → PyText) (repairs : Nat) :
    Nat → Except ProposeError (α × Nat) × Nat
  | 0 => ((parse (completions repairs)).map (·, repairs), repairs + 1)
  | left + 1 =>
    match parse (completions repairs) with
    | .ok parsed => (.ok (parsed, repairs), repairs + 1)
    | .error (.offlineLLM _) => repairLoop parse completions (repairs + 1) left
    | .error e => (.error e, repairs + 1)

def runWithRepair (parse : PyText → Except ProposeError α) (maxRepairAttempts : Int) (completions : Nat → PyText) :
    Except ProposeError (α × Nat) × Nat :=
  if maxRepairAttempts < 0 then
    (.error (.valueError s!"max_repair_attempts must be >= 0, got {maxRepairAttempts}."), 0)
  else repairLoop parse completions 0 maxRepairAttempts.toNat

-- Batches

/-- What a call of `llm_propose_flows` comes to, each proposal with the batch that it came from, and the
number of model calls for each batch. -/
structure Outcome (τ : Type) where
  result : Except ProposeError (List (List τ × LLMProposal))
  calls : List Nat

def flowName (proposal : List τ × LLMProposal) : String := proposal.2.proposedFlow.name

section

variable (parsers : Parsers ι) (toolName : τ → String) (maxRepairAttempts : Int) (completions : Nat → Nat → PyText)

/-- The loop over the batches; the completions are those of the batch and the attempt. -/
def proposeBatches (index : Nat) (proposals : List (List τ × LLMProposal)) : List (List τ) → Outcome τ
  | [] => { result := .ok proposals, calls := [] }
  | batch :: rest =>
    match runWithRepair (parsers.parse (batch.map toolName)) maxRepairAttempts (completions index) with
    | (.error e, calls) => { result := .error e, calls := [calls] }
    | (.ok (parsed, _), calls) =>
      let later := proposeBatches (index + 1) ((parsed.map (batch, ·)).foldl (Firsts.add flowName) proposals) rest
      { later with calls := calls :: later.calls }

/-- `llm_propose_flows`. -/
def llmProposeFlows (tools : List τ) (maxProposals : Int) (budget : Option (PromptBudget τ))
    (tokenCounter : Option (String → Int)) (buildPrompt : List τ → Option Nat → String) : Outcome τ :=
  if maxProposals < 1 then
    { result := .error (.valueError s!"max_proposals must be >= 1, got {maxProposals}."), calls := [] }
  else if tools.isEmpty then { result := .ok [], calls := [] }
  else
    match applyBudget tools budget tokenCounter buildPrompt with
    | .error e => { result := .error (.budget e), calls := [] }
    | .ok plan =>
      let outcome := proposeBatches parsers toolName maxRepairAttempts completions 0 [] plan.batches
      { outcome with result := outcome.result.map (List.take maxProposals.toNat) }

end

end Proposals

end ChainWeaver
