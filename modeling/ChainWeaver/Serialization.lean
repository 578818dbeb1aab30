import Mathlib
import ChainWeaver.Document
import ChainWeaver.JsonText

/-!
# Serialization

`serialization.py`: flows to JSON and YAML texts and back, within limits. A JSON
text stands here as its document and its size.
-/

namespace ChainWeaver

-- Limits

structure FlowParseLimits where
  maxBytes : Option Nat := some (5 * 1024 * 1024)
  maxNodes : Option Nat := some 100000
  maxDepth : Option Nat := some 64
  maxStringLength : Option Nat := some 100000
  maxSteps : Option Nat := some 1000

def exceeds (limit : Option Nat) (n : Nat) : Bool :=
  match limit with
  | some m => n > m
  | none => false

namespace Json

/-- The strings of the node itself. -/
def ownStrings : Json → List String
  | .str s => [s]
  | .object entries => entries.map Prod.fst
  | _ => []

def children : Json → List Json
  | .array items => items
  | .object entries => entries.map Prod.snd
  | _ => []

mutual

def nodes : Json → Nat
  | .array items => 1 + nodesItems items
  | .object entries => 1 + nodesEntries entries
  | _ => 1

def nodesItems : List Json → Nat
  | [] => 0
  | item :: rest => nodes item + nodesItems rest

def nodesEntries : List (String × Json) → Nat
  | [] => 0
  | (_, json) :: rest => nodes json + nodesEntries rest

end

/-- The nodes of all the documents on a stack. -/
def stackNodes (stack : List (Json × Nat)) : Nat := (stack.map (·.1.nodes)).sum

theorem stackNodes_cons (json : Json) (depth : Nat) (stack : List (Json × Nat)) :
    stackNodes ((json, depth) :: stack) = json.nodes + stackNodes stack := List.sum_cons

theorem stackNodes_append (pushed stack : List (Json × Nat)) :
    stackNodes (pushed ++ stack) = stackNodes pushed + stackNodes stack := by
  rw [stackNodes, List.map_append, List.sum_append]
  rfl

theorem nodesItems_eq_sum (items : List Json) : nodesItems items = (items.map nodes).sum := by
  induction items with
  | nil => rfl
  | cons item rest ih => rw [nodesItems, ih, List.map_cons, List.sum_cons]

theorem nodesEntries_eq_sum (entries : List (String × Json)) :
    nodesEntries entries = ((entries.map Prod.snd).map nodes).sum := by
  induction entries with
  | nil => rfl
  | cons entry rest ih => rw [nodesEntries, ih, List.map_cons, List.map_cons, List.sum_cons]

theorem stackNodes_pushed (jsons : List Json) (depth : Nat) :
    stackNodes (jsons.reverse.map (·, depth)) = (jsons.map nodes).sum := by
  rw [stackNodes, List.map_map, List.map_reverse, List.sum_reverse]
  rfl

theorem nodes_children (json : Json) (depth : Nat) :
    stackNodes (json.children.reverse.map (·, depth)) + 1 = json.nodes := by
  rw [stackNodes_pushed]
  cases json with
  | array items => rw [children, nodes, nodesItems_eq_sum, Nat.add_comm]
  | object entries => rw [children, nodes, nodesEntries_eq_sum, Nat.add_comm]
  | _ => rfl

end Json

namespace FlowParseLimits

variable (limits : FlowParseLimits)

def stringTooLong? (node : Json) : Option String :=
  (node.ownStrings.find? fun text => exceeds limits.maxStringLength text.length).map fun text =>
    s!"Flow contains a string of length {text.length}, exceeding the max_string_length limit " ++
      s!"({limits.maxStringLength.getD 0})"

/-- `_enforce_structure` with `stack` left to walk, top first. -/
def enforceFrom (visited : Nat) : List (Json × Nat) → Except String Unit
  | [] => .ok ()
  | (node, depth) :: stack =>
    if exceeds limits.maxNodes (visited + 1) then
      .error s!"Flow structure exceeds the max_nodes limit ({limits.maxNodes.getD 0})"
    else if exceeds limits.maxDepth depth then
      .error s!"Flow structure is nested deeper than the max_depth limit ({limits.maxDepth.getD 0})"
    else
      match limits.stringTooLong? node with
      | some detail => .error detail
      | none => enforceFrom (visited + 1) (node.children.reverse.map (·, depth + 1) ++ stack)
termination_by stack => Json.stackNodes stack
decreasing_by
  have hnodes := Json.nodes_children node (depth + 1)
  rw [Json.stackNodes_append, Json.stackNodes_cons]
  omega

def enforceStructure (document : Json) : Except String Unit := limits.enforceFrom 0 [(document, 1)]

def checkByteSize (size : Nat) : Except String Unit :=
  if exceeds limits.maxBytes size then
    .error (s!"Flow file is {size} bytes, exceeding the max_bytes limit ({limits.maxBytes.getD 0}); " ++
      "refusing to parse")
  else .ok ()

def checkStepCount (document : Json) : Except String Unit :=
  match document.field "steps" with
  | some (.array steps) =>
    if exceeds limits.maxSteps steps.length then
      .error s!"Flow declares {steps.length} steps, exceeding the max_steps limit ({limits.maxSteps.getD 0})"
    else .ok ()
  | _ => .ok ()

end FlowParseLimits

-- JSON texts

/-- `json.dumps` escapes with `ensure_ascii`: a character beyond ASCII by its code
units in UTF-16. -/
def escapeAscii (c : Char) : Text :=
  match shortEscapes.lookup c with
  | some letter => ['\\', letter]
  | none =>
    if Visible c then [c]
    else if c.toNat < 0x10000 then unit c.toNat
    else unit (0xd800 + (c.toNat - 0x10000) / 0x400) ++ unit (0xdc00 + (c.toNat - 0x10000) % 0x400)
where
  unit (n : Nat) : Text :=
    ['\\', 'u', (n / 0x1000).digitChar, (n / 0x100 % 16).digitChar, (n / 16 % 16).digitChar, (n % 16).digitChar]

/-- The line break and the indentation before an item. -/
def breakLine (indent : Option Nat) (level : Nat) : Text :=
  match indent with
  | some n => '\n' :: List.replicate (n * level) ' '
  | none => []

def itemSeparator (indent : Option Nat) (level : Nat) : Text :=
  match indent with
  | some _ => ',' :: breakLine indent level
  | none => [',', ' ']

namespace Json

variable (floats : FloatText) (indent : Option Nat)

def asciiQuoted (s : String) : Text := '"' :: s.toList.flatMap escapeAscii ++ ['"']

mutual

/-- `json.dumps(…, indent=indent)`. -/
def dumps (level : Nat) : Json → Text
  | .str s => asciiQuoted s
  | .array [] => ['[', ']']
  | .array items =>
    '[' :: breakLine indent (level + 1) ++
      (itemSeparator indent (level + 1)).intercalate (dumpsItems (level + 1) items) ++
      breakLine indent level ++ [']']
  | .object [] => ['{', '}']
  | .object entries =>
    '{' :: breakLine indent (level + 1) ++
      (itemSeparator indent (level + 1)).intercalate (dumpsEntries (level + 1) entries) ++
      breakLine indent level ++ ['}']
  | scalar => scalar.text floats

def dumpsItems (level : Nat) : List Json → List Text
  | [] => []
  | item :: rest => dumps level item :: dumpsItems level rest

def dumpsEntries (level : Nat) : List (String × Json) → List Text
  | [] => []
  | (key, json) :: rest => (asciiQuoted key ++ ':' :: ' ' :: dumps level json) :: dumpsEntries level rest

end

end Json

/-- A text given to the JSON parser: the document it holds or the parser's error,
and its size in UTF-8. -/
structure JsonFile where
  loads : Except String Json
  bytes : Nat

-- Versions

def flowFormatVersion : String := "1"

/-- `major`. -/
def majorVersion (version : String) : Int :=
  (Pointer.parseInt (String.ofList (((strip version.toList).splitOn '.').headD []))).getD 0

/-- `str(file_format_version)`, up to texts that start with no digit. -/
def formatVersionText (floats : FloatText) : Json → String
  | .str s => s
  | .int i => toString i
  | .float (.finite value) => String.ofList (floats.write value)
  | _ => ""

-- Flows

/-- The surroundings of the encoder and the decoder. -/
structure Serializer where
  /-- Pydantic's JSON mode for untyped values. -/
  writer : JsonWriter
  floats : FloatText
  /-- What Pydantic says of a document it refuses. -/
  validationText : Json → String
  repr : Value → String
  safeDump : Json → String
  /-- The document of a YAML text, or the parser's error. -/
  safeLoad : String → Except String Json

namespace Serializer

variable (serializer : Serializer)

def discriminator (isDag : Bool) : String := if isDag then "DAGFlow" else "Flow"

def flowToDict (flow : FullFlow) : Option Json :=
  (flow.fields serializer.writer).map fun fields =>
    .object (fields ++ [("format_version", .str flowFormatVersion), ("type", .str (discriminator flow.steps.isDag))])

/-- Whether the document is of a `DAGFlow`. -/
def readType (document : Json) : Except String Bool :=
  match document.field "type" with
  | some (.str "Flow") => .ok false
  | some (.str "DAGFlow") => .ok true
  | other =>
    .error (s!"Missing or invalid 'type' discriminator (got {serializer.repr (other.elim .null Json.read)}); " ++
      "expected 'Flow' or 'DAGFlow'")

def checkFormatVersion (document : Json) : Except String Unit :=
  match document.field "format_version" with
  | none | some .null => .ok ()
  | some version =>
    if majorVersion (formatVersionText serializer.floats version) = majorVersion flowFormatVersion then .ok ()
    else
      .error (s!"Unsupported flow file format_version {serializer.repr version.read}; this ChainWeaver writes " ++
        s!"format_version '{flowFormatVersion}'. Use a compatible ChainWeaver version to read this file")

def validateFlow (isDag : Bool) (document : Json) : Except String FullFlow :=
  match FullFlow.validate isDag (document.without ["type", "format_version"]) with
  | some flow => .ok flow
  | none =>
    .error s!"Validation failed while reconstructing {discriminator isDag}: {serializer.validationText document}"

def flowFromDict (limits : FlowParseLimits) (document : Json) : Except String FullFlow :=
  match document with
  | .object _ => do
    limits.enforceStructure document
    limits.checkStepCount document
    let isDag ← serializer.readType document
    serializer.checkFormatVersion document
    serializer.validateFlow isDag document
  | other => .error s!"Expected a mapping at the top level, got {other.read.typeName}"

/-- `flow_to_json`; the keys are written in order. -/
def flowToJson (indent : Option Nat) (flow : FullFlow) : Option JsonFile :=
  (serializer.flowToDict flow).map fun document =>
    { loads := .ok document.sorted, bytes := (document.sorted.dumps serializer.floats indent 0).length }

def flowFromJson (limits : FlowParseLimits) (file : JsonFile) : Except String FullFlow := do
  limits.checkByteSize file.bytes
  match file.loads with
  | .ok document => serializer.flowFromDict limits document
  | .error text => .error s!"Invalid JSON: {text}"

def flowToYaml (flow : FullFlow) : Option String := (serializer.flowToDict flow).map serializer.safeDump

def flowFromYaml (limits : FlowParseLimits) (text : String) : Except String FullFlow := do
  limits.checkByteSize text.utf8ByteSize
  match serializer.safeLoad text with
  | .ok .null => .error "YAML payload is empty"
  | .ok document => serializer.flowFromDict limits document
  | .error message => .error s!"Invalid YAML: {message}"

end Serializer

end ChainWeaver
