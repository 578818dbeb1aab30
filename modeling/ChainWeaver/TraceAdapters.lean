import ChainWeaver.Redaction
import ChainWeaver.TraceImport

/-!
# The trace adapters of coding agents

`normalize_opencode_event`, `normalize_claude_hook_event` and `normalize_vscode_event`: a payload of an
agent becomes an event of a trace, or nothing if it names no tool. The adapters tolerate a payload
exactly if it is tame (`normalize_tolerant_iff`).
-/

namespace ChainWeaver

namespace RedactionPolicy

variable (lower : String → String) (policy : RedactionPolicy)

mutual

/-- `_apply` of a JSON value. -/
def applyJson : Json → Json
  | .object entries => .object (applyJsonEntries entries)
  | .array items => .array (applyJsonItems items)
  | .str s => .str (policy.applyString s)
  | value => value

def applyJsonItems : List Json → List Json
  | [] => []
  | item :: rest => applyJson item :: applyJsonItems rest

def applyJsonEntries : List (String × Json) → List (String × Json)
  | [] => []
  | (key, value) :: rest =>
    (key, if policy.matchesKey lower key then .str policy.redactReplacement else applyJson value) ::
      applyJsonEntries rest

end

/-- What the policy leaves of a value under a key. -/
def redacted (key : String) (value : Json) : Json :=
  if policy.matchesKey lower key then .str policy.redactReplacement else policy.applyJson lower value

variable {lower policy}

mutual

theorem read_applyJson (value : Json) : (policy.applyJson lower value).read = policy.apply lower value.read := by
  cases value with
  | object entries => exact congrArg Value.dict (readEntries_applyJson entries)
  | array items => exact congrArg Value.list (readItems_applyJson items)
  | _ => rfl

theorem readItems_applyJson (items : List Json) :
    Json.readItems (policy.applyJsonItems lower items) = policy.applyItems lower (Json.readItems items) := by
  cases items with
  | nil => rfl
  | cons item rest => exact congrArg₂ List.cons (read_applyJson item) (readItems_applyJson rest)

theorem readEntries_applyJson (entries : List (String × Json)) :
    Json.readEntries (policy.applyJsonEntries lower entries) =
      policy.applyEntries lower (Json.readEntries entries) := by
  match entries with
  | [] => rfl
  | (key, value) :: rest =>
    simp only [applyJsonEntries, Json.readEntries, applyEntries, readEntries_applyJson rest]
    split
    · rfl
    · rw [read_applyJson value]

end

theorem lookup_applyJsonEntries (entries : List (String × Json)) (key : String) :
    (policy.applyJsonEntries lower entries).lookup key = (entries.lookup key).map (policy.redacted lower key) := by
  induction entries with
  | nil => rfl
  | cons entry rest ih =>
    rw [applyJsonEntries, OrderedDict.lookup_cons_if, OrderedDict.lookup_cons_if, ih]
    split
    · next h => rw [Option.map_some, redacted, h]
    · rfl

/-- Redacted entries hold nothing under a matching key, at any depth. -/
theorem masked_applyJsonEntries (entries : List (String × Json)) :
    policy.MaskedEntries lower (Json.readEntries (policy.applyJsonEntries lower entries)) := by
  rw [readEntries_applyJson]
  exact maskedEntries_apply _

end RedactionPolicy

namespace TraceImport

-- Payloads

/-- What the adapters take from their surroundings. -/
structure Surroundings (τ : Type) where
  lower : String → String
  /-- `str` of a value that is no string. -/
  repr : Json → Except String String
  toDouble : Int → PyFloat
  minus : PyFloat → PyFloat → PyFloat
  /-- `datetime.fromisoformat`. -/
  fromIsoFormat : String → Option τ
  /-- Pydantic's reading of a string as a timestamp. -/
  parseDatetime : String → Option τ
  validText : String → Bool

abbrev Payload := List (String × Json)

namespace Surroundings

variable (s : Surroundings τ)

/-- The coercions are those of the import. -/
def decoder : Decoder String Json Json τ Unit where
  ofString := id
  view := viewJson
  loads := .value
  repr := s.repr
  toDouble := s.toDouble
  fromIsoFormat := s.fromIsoFormat
  validText := s.validText
  redact state entries := .ok (entries, state)

/-- `_first`. -/
def first (payload : Payload) (keys : List String) : Option Json :=
  keys.findSome? fun key => (payload.lookup key).filter s.decoder.given

/-- `_coerce_args`. -/
def coerceArgs : Option Json → Payload
  | none => []
  | some (.object entries) => entries
  | some raw => [("value", raw)]

/-- `value not in (None, "", False)`. -/
def marksError : Option Json → Bool
  | none | some .null | some (.bool false) => false
  | some (.str text) => text ≠ ""
  | some (.int i) => i ≠ 0
  | some (.float (.finite q)) => q ≠ 0
  | some _ => true

def isTrue : Option Json → Bool
  | some (.bool true) => true
  | _ => false

/-- `_output_keys`. -/
def outputKeys : Option Json → List String
  | some (.object entries) => entries.map Prod.fst
  | _ => []

def isNumber : Json → Bool
  | .int _ | .float _ => true
  | _ => false

def float : Json → Except (ImportError String) PyFloat
  | .int i => if i.natAbs < doubleLimit then .ok (s.toDouble i) else .error (.other "OverflowError")
  | .float f => .ok f
  | _ => .error (.other "TypeError")

/-- The entries of an object. -/
def object? : Json → Option Payload
  | .object entries => some entries
  | _ => none

/-- The ends of the `time` of a payload, if both are numbers. -/
def timeSpan (payload : Payload) : Option (Json × Json) := do
  let time ← (payload.lookup "time").bind object?
  let start ← (time.lookup "start").filter isNumber
  let stop ← (time.lookup "end").filter isNumber
  return (start, stop)

/-- `_latency_ms`. -/
def latencyMs (payload : Payload) : Except (ImportError String) (Option PyFloat) :=
  match (s.first payload ["latency_ms", "duration_ms", "durationMs"]).filter isNumber, timeSpan payload with
  | some explicit, _ => (s.float explicit).map some
  | none, some (start, stop) => do
    let stop ← s.float stop
    let start ← s.float start
    return some (s.minus stop start)
  | none, none => .ok none

def text? : Json → Option String
  | .str text => some text
  | _ => none

end Surroundings

-- Adapters

/-- What an adapter does about timestamps. -/
inductive TimestampRule
  | none
  /-- A string that is no ISO time is dropped. -/
  | parsed (keys : List String)
  /-- Pydantic parses the string. -/
  | passed (keys : List String)

/-- The keys of an adapter, and where it is not like the others. -/
structure Adapter where
  known : List String
  toolKeys : List String
  /-- Keys of the tool name in `attributes`. -/
  attributeKeys : List String
  argsKeys : List String
  resultKeys : List String
  sessionKeys : List String
  turnKeys : List String
  latency : Bool
  timestamp : TimestampRule
  /-- Tools of MCP servers are known by their names, and results may be marked with `is_error`. -/
  claude : Bool

/-- `normalize_opencode_event`. -/
def opencode : Adapter where
  known := ["type", "event", "tool", "toolName", "tool_name", "sessionID", "sessionId", "session_id", "session",
    "messageID", "messageId", "message_id", "callID", "callId", "turn_id", "args", "arguments", "input", "inputs",
    "result", "output", "outputs", "result_status", "status", "error", "source", "tool_source", "latency_ms",
    "duration_ms", "durationMs", "time", "timestamp"]
  toolKeys := ["tool", "toolName", "tool_name"]
  attributeKeys := []
  argsKeys := ["args", "arguments", "input", "inputs"]
  resultKeys := ["result", "output", "outputs"]
  sessionKeys := ["sessionID", "sessionId", "session_id", "session"]
  turnKeys := ["messageID", "messageId", "message_id", "callID", "callId", "turn_id"]
  latency := true
  timestamp := .passed ["timestamp", "time"]
  claude := false

/-- `normalize_claude_hook_event`. -/
def claudeCode : Adapter where
  known := ["hook_event_name", "session_id", "prompt_id", "tool_name", "tool_input", "tool_output", "tool_response",
    "result", "result_status", "status", "error", "tool_source", "source"]
  toolKeys := ["tool_name"]
  attributeKeys := []
  argsKeys := ["tool_input"]
  resultKeys := ["tool_output", "tool_response", "result"]
  sessionKeys := ["session_id"]
  turnKeys := ["prompt_id"]
  latency := false
  timestamp := .none
  claude := true

/-- `normalize_vscode_event`. -/
def vscode : Adapter where
  known := ["type", "event", "name", "tool", "toolName", "tool_name", "sessionId", "sessionID", "session_id", "session",
    "traceId", "trace_id", "messageId", "message_id", "turn_id", "spanId", "span_id", "args", "arguments", "input",
    "inputs", "params", "result", "output", "outputs", "response", "result_status", "status", "error", "source",
    "tool_source", "latency_ms", "duration_ms", "durationMs", "time", "timestamp", "attributes"]
  toolKeys := ["tool", "toolName", "tool_name", "name"]
  attributeKeys := ["mcp.tool.name", "tool.name", "gen_ai.tool.name"]
  argsKeys := ["args", "arguments", "input", "inputs", "params"]
  resultKeys := ["result", "output", "outputs", "response"]
  sessionKeys := ["sessionId", "sessionID", "session_id", "session", "traceId", "trace_id"]
  turnKeys := ["messageId", "message_id", "turn_id", "spanId", "span_id"]
  latency := true
  timestamp := .parsed ["timestamp"]
  claude := false

def adapters : List Adapter := [opencode, claudeCode, vscode]

/-- `_mcp_provenance`. -/
def mcpProvenance (tool : String) : Payload :=
  if tool.startsWith "mcp__" then
    match tool.splitOn "__" with
    | _ :: server :: leaf :: rest =>
      if server = "" then []
      else [("mcp_server", .str server), ("mcp_tool", .str ("__".intercalate (leaf :: rest)))]
    | _ => []
  else []

namespace Adapter

variable (a : Adapter) (s : Surroundings τ) (policy : RedactionPolicy)

def toolName (payload : Payload) : Option String :=
  ((s.first payload a.toolKeys).bind Surroundings.text?).or <|
    ((payload.lookup "attributes").bind Surroundings.object?).bind fun attributes =>
      a.attributeKeys.findSome? fun key => ((attributes.lookup key).bind Surroundings.text?).filter (· ≠ "")

def resultStatus (payload : Payload) (result : Option Json) : Option String :=
  let marks := fun entries : Payload => Surroundings.marksError (entries.lookup "error") ||
    a.claude && Surroundings.isTrue (entries.lookup "is_error")
  match (s.first payload ["result_status", "status"]).bind Surroundings.text? with
  | some explicit => some explicit
  | none =>
    if Surroundings.marksError (payload.lookup "error") || (result.bind Surroundings.object?).any marks then
      some "error"
    else result.map fun _ => "ok"

def toolSource (tool : String) (payload : Payload) : Except (ImportError String) (Option String) :=
  let explicit := s.first payload ["tool_source", "source"]
  if a.claude then
    .ok (some ((explicit.bind Surroundings.text?).getD (if tool.startsWith "mcp__" then "mcp" else "builtin")))
  else s.decoder.optStr explicit

def timestampOf (payload : Payload) : Except (ImportError String) (Option τ) :=
  match a.timestamp with
  | .none => .ok none
  | .parsed keys => .ok (((s.first payload keys).bind Surroundings.text?).bind s.fromIsoFormat)
  | .passed keys =>
    match (s.first payload keys).bind Surroundings.text? with
    | none => .ok none
    | some text =>
      match s.parseDatetime text with
      | some timestamp => .ok (some timestamp)
      | none => .error (.other "ValidationError")

def provenance (tool : String) : Payload := if a.claude then mcpProvenance tool else []

/-- The keys that are not known, with the provenance of the tool. -/
def metadataOf (tool : String) (payload : Payload) : Payload :=
  (a.provenance tool).foldl (fun metadata entry => OrderedDict.put entry.1 entry.2 metadata)
    (payload.filter fun entry => entry.1 ∉ a.known)

/-- The arguments of `AgentTraceEvent(…)`. -/
def assemble (tool : String) (payload : Payload) :
    Except (ImportError String) (AgentTraceEvent String Json τ) := do
  let result := s.first payload a.resultKeys
  let session ← s.decoder.optStr (s.first payload a.sessionKeys)
  let turnId ← s.decoder.optStr (s.first payload a.turnKeys)
  let latencyMs ← (if a.latency then s.latencyMs payload else .ok none)
  let toolSource ← a.toolSource s tool payload
  let timestamp ← a.timestampOf s payload
  return {
    sessionId := session.getD "__default__"
    turnId := turnId
    event := .toolCall
    tool := some tool
    args := policy.applyJsonEntries s.lower (Surroundings.coerceArgs (s.first payload a.argsKeys))
    resultStatus := a.resultStatus s payload result
    outputKeys := Surroundings.outputKeys result
    inputTokens := none
    outputTokens := none
    latencyMs := latencyMs
    toolSource := toolSource
    timestamp := timestamp
    metadata := policy.applyJsonEntries s.lower (a.metadataOf tool payload) }

def normalize (payload : Payload) : Except (ImportError String) (Option (AgentTraceEvent String Json τ)) :=
  match a.toolName s payload with
  | none => .ok none
  | some tool => do
    let event ← a.assemble s policy tool payload
    let event ← s.decoder.validated event
    return some event

end Adapter

-- Tolerance

namespace Adapter

variable (a : Adapter) (s : Surroundings τ) (policy : RedactionPolicy)

/-- A string that is not empty stands under one of the names of the tool. -/
def Named (payload : Payload) : Prop :=
  (∃ key ∈ a.toolKeys, ∃ text, text ≠ "" ∧ payload.lookup key = some (.str text)) ∨
    ∃ attributes, payload.lookup "attributes" = some (.object attributes) ∧
      ∃ key ∈ a.attributeKeys, ∃ text, text ≠ "" ∧ attributes.lookup key = some (.str text)

/-- The adapter raises nothing, skips exactly the payloads without a tool, keeps every unknown key, and
lets nothing through under a redacted key. -/
structure Tolerant (payload : Payload) : Prop where
  total : ∃ outcome, a.normalize s policy payload = .ok outcome
  none_iff : a.normalize s policy payload = .ok none ↔ ¬a.Named payload
  kept : ∀ event, a.normalize s policy payload = .ok (some event) →
    ∀ key value, payload.lookup key = some value → key ∉ a.known →
      event.metadata.lookup key = some (policy.redacted s.lower key value)
  masked : ∀ event, a.normalize s policy payload = .ok (some event) →
    policy.MaskedEntries s.lower (Json.readEntries event.args) ∧
      policy.MaskedEntries s.lower (Json.readEntries event.metadata)

/-- The numbers a latency is made of. -/
def latencyNumbers (payload : Payload) : List Json :=
  match (s.first payload ["latency_ms", "duration_ms", "durationMs"]).filter Surroundings.isNumber,
    Surroundings.timeSpan payload with
  | some explicit, _ => [explicit]
  | none, some (start, stop) => [start, stop]
  | none, none => []

/-- Every field of the event can be made, and the provenance of the tool overwrites nothing. -/
structure Readable (tool : String) (payload : Payload) : Prop where
  session : s.decoder.OptWritable (s.first payload a.sessionKeys)
  turn : s.decoder.OptWritable (s.first payload a.turnKeys)
  /-- No integer is beyond the doubles. -/
  latency : a.latency = true → ∀ i, .int i ∈ latencyNumbers s payload → i.natAbs < doubleLimit
  source : a.claude = false → s.decoder.OptWritable (s.first payload ["tool_source", "source"])
  /-- Pydantic can parse a timestamp that it is passed. -/
  timestamp : ∀ keys, a.timestamp = .passed keys → ∀ text, s.first payload keys = some (.str text) →
    ∃ timestamp, s.parseDatetime text = some timestamp
  texts : ∀ event, a.assemble s policy tool payload = .ok event → ∀ text ∈ event.texts, s.validText text = true
  own : ∀ entry ∈ a.provenance tool, entry.1 ∉ a.known → ∀ value, payload.lookup entry.1 = some value →
    policy.redacted s.lower entry.1 value = policy.redacted s.lower entry.1 entry.2

/-- Only strings stand before the name of the tool, and its call can be read. -/
structure Tame (payload : Payload) : Prop where
  named : a.Named payload → ∃ tool, a.toolName s payload = some tool
  readable : ∀ tool, a.toolName s payload = some tool → a.Readable s policy tool payload

-- The name of the tool

variable {a s policy} {payload : Payload} {tool : String}

theorem text?_eq_some {value : Json} {text : String} : Surroundings.text? value = some text ↔ value = .str text := by
  cases value <;> simp [Surroundings.text?]

theorem object?_eq_some {value : Json} {entries : Payload} :
    Surroundings.object? value = some entries ↔ value = .object entries := by
  cases value <;> simp [Surroundings.object?]

theorem given_str {text : String} : s.decoder.given (.str text) = true ↔ text ≠ "" := decide_eq_true_iff

theorem first_eq_some {keys : List String} {value : Json} (h : s.first payload keys = some value) :
    ∃ key ∈ keys, payload.lookup key = some value ∧ s.decoder.given value = true := by
  obtain ⟨key, hkey, hvalue⟩ := List.exists_of_findSome?_eq_some h
  obtain ⟨hlookup, hgiven⟩ := Option.filter_eq_some_iff.1 hvalue
  exact ⟨key, hkey, hlookup, hgiven⟩

/-- Only payloads that name a tool get a name. -/
theorem named_of_toolName (h : a.toolName s payload = some tool) : a.Named payload := by
  rcases Option.or_eq_some_iff.1 h with hflat | ⟨-, hattributes⟩
  · obtain ⟨value, hfirst, htext⟩ := Option.bind_eq_some_iff.1 hflat
    obtain rfl := text?_eq_some.1 htext
    obtain ⟨key, hkey, hlookup, hgiven⟩ := first_eq_some hfirst
    exact .inl ⟨key, hkey, tool, given_str.1 hgiven, hlookup⟩
  · obtain ⟨attributes, hobject, hname⟩ := Option.bind_eq_some_iff.1 hattributes
    obtain ⟨value, hlookup, hvalue⟩ := Option.bind_eq_some_iff.1 hobject
    obtain rfl := object?_eq_some.1 hvalue
    obtain ⟨key, hkey, hfound⟩ := List.exists_of_findSome?_eq_some hname
    obtain ⟨htext, hne⟩ := Option.filter_eq_some_iff.1 hfound
    obtain ⟨value, hvalue, htext⟩ := Option.bind_eq_some_iff.1 htext
    obtain rfl := text?_eq_some.1 htext
    exact .inr ⟨attributes, hlookup, key, hkey, tool, by simpa using hne, hvalue⟩

-- The fields

theorem float_ok_iff {value : Json} (h : Surroundings.isNumber value = true) :
    (∃ x, s.float value = .ok x) ↔ ∀ i, value = .int i → i.natAbs < doubleLimit := by
  cases value with
  | int i =>
    simp only [Surroundings.float]
    by_cases hi : i.natAbs < doubleLimit
    · rw [if_pos hi]
      exact iff_of_true ⟨_, rfl⟩ fun _ heq => by cases heq; exact hi
    · rw [if_neg hi]
      exact iff_of_false (fun ⟨_, h⟩ => by cases h) fun h => hi (h i rfl)
  | float f => exact iff_of_true ⟨f, rfl⟩ nofun
  | _ => cases h

theorem timeSpan_numbers {start stop : Json} (h : Surroundings.timeSpan payload = some (start, stop)) :
    Surroundings.isNumber start = true ∧ Surroundings.isNumber stop = true := by
  obtain ⟨time, -, h⟩ := Option.bind_eq_some_iff.1 h
  obtain ⟨start', hstart, h⟩ := Option.bind_eq_some_iff.1 h
  obtain ⟨stop', hstop, h⟩ := Option.bind_eq_some_iff.1 h
  cases Option.some.inj h
  exact ⟨(Option.filter_eq_some_iff.1 hstart).2, (Option.filter_eq_some_iff.1 hstop).2⟩

theorem latencyMs_ok_iff : (∃ x, s.latencyMs payload = .ok x) ↔
    ∀ i, .int i ∈ latencyNumbers s payload → i.natAbs < doubleLimit := by
  unfold Surroundings.latencyMs latencyNumbers
  cases hexplicit : (s.first payload ["latency_ms", "duration_ms", "durationMs"]).filter Surroundings.isNumber with
  | some explicit =>
    have hnumber := (Option.filter_eq_some_iff.1 hexplicit).2
    simp only [Attempt.exists_map_ok, float_ok_iff hnumber, List.mem_singleton]
    exact forall_congr' fun i => ⟨fun h heq => h heq.symm, fun h heq => h heq.symm⟩
  | none =>
    cases hspan : Surroundings.timeSpan payload with
    | none => exact iff_of_true ⟨none, rfl⟩ fun _ h => by cases h
    | some span =>
      obtain ⟨start, stop⟩ := span
      obtain ⟨hstart, hstop⟩ := timeSpan_numbers hspan
      simp only [Attempt.exists_bind_ok, List.mem_cons, List.not_mem_nil, or_false]
      constructor
      · rintro ⟨x, hx, y, hy, -⟩ i (hi | hi)
        · exact (float_ok_iff hstart).1 ⟨y, hy⟩ i hi.symm
        · exact (float_ok_iff hstop).1 ⟨x, hx⟩ i hi.symm
      · intro h
        obtain ⟨x, hx⟩ := (float_ok_iff hstop).2 fun i hi => h i (.inr hi.symm)
        obtain ⟨y, hy⟩ := (float_ok_iff hstart).2 fun i hi => h i (.inl hi.symm)
        exact ⟨x, hx, y, hy, _, rfl⟩

theorem toolSource_ok_iff : (∃ source, a.toolSource s tool payload = .ok source) ↔
    (a.claude = false → s.decoder.OptWritable (s.first payload ["tool_source", "source"])) := by
  unfold toolSource
  cases a.claude with
  | true => exact iff_of_true ⟨_, rfl⟩ nofun
  | false => simpa using Decoder.optStr_ok_iff

theorem timestampOf_ok_iff : (∃ timestamp, a.timestampOf s payload = .ok timestamp) ↔
    ∀ keys, a.timestamp = .passed keys → ∀ text, s.first payload keys = some (.str text) →
      ∃ timestamp, s.parseDatetime text = some timestamp := by
  unfold timestampOf
  cases a.timestamp with
  | none => exact iff_of_true ⟨_, rfl⟩ nofun
  | parsed keys => exact iff_of_true ⟨_, rfl⟩ nofun
  | passed keys =>
    have htext (text : String) : (s.first payload keys).bind Surroundings.text? = some text ↔
        s.first payload keys = some (.str text) := by
      rw [Option.bind_eq_some_iff]
      simp only [text?_eq_some]
      exact ⟨fun ⟨_, h, heq⟩ => heq ▸ h, fun h => ⟨_, h, rfl⟩⟩
    dsimp only
    split
    · next hfound =>
      refine iff_of_true ⟨_, rfl⟩ fun keys' hkeys text hfirst => ?_
      cases hkeys
      cases hfound.symm.trans ((htext text).2 hfirst)
    · next text hfound =>
      have hfirst := (htext text).1 hfound
      split
      · next timestamp hparsed =>
        refine iff_of_true ⟨_, rfl⟩ fun keys' hkeys text' hfirst' => ?_
        cases hkeys
        cases hfirst.symm.trans hfirst'
        exact ⟨timestamp, hparsed⟩
      · next hparsed =>
        refine iff_of_false (fun ⟨_, h⟩ => by cases h) fun h => ?_
        obtain ⟨timestamp, htimestamp⟩ := h keys rfl text hfirst
        cases hparsed.symm.trans htimestamp

/-- The call of a tool can be read exactly if each field can, and Pydantic takes the strings. -/
theorem assemble_ok_iff : (∃ event, a.assemble s policy tool payload = .ok event) ↔
    s.decoder.OptWritable (s.first payload a.sessionKeys) ∧ s.decoder.OptWritable (s.first payload a.turnKeys) ∧
      (a.latency = true → ∀ i, .int i ∈ latencyNumbers s payload → i.natAbs < doubleLimit) ∧
      (a.claude = false → s.decoder.OptWritable (s.first payload ["tool_source", "source"])) ∧
      ∀ keys, a.timestamp = .passed keys → ∀ text, s.first payload keys = some (.str text) →
        ∃ timestamp, s.parseDatetime text = some timestamp := by
  have hlatency : (∃ x, (if a.latency = true then s.latencyMs payload else .ok none) = .ok x) ↔
      (a.latency = true → ∀ i, .int i ∈ latencyNumbers s payload → i.natAbs < doubleLimit) := by
    cases a.latency with
    | true => simpa using latencyMs_ok_iff
    | false => simp
  have hsource : (∃ source, a.toolSource s tool payload = .ok source) ↔
      (a.claude = false → s.decoder.OptWritable (s.first payload ["tool_source", "source"])) := toolSource_ok_iff
  rw [← Decoder.optStr_ok_iff, ← Decoder.optStr_ok_iff, ← hlatency, ← hsource, ← timestampOf_ok_iff]
  unfold assemble
  simp only [Attempt.exists_bind_ok]
  constructor
  · rintro ⟨_, h₁, _, h₂, _, h₃, _, h₄, _, h₅, -⟩
    exact ⟨⟨_, h₁⟩, ⟨_, h₂⟩, ⟨_, h₃⟩, ⟨_, h₄⟩, ⟨_, h₅⟩⟩
  · rintro ⟨⟨_, h₁⟩, ⟨_, h₂⟩, ⟨_, h₃⟩, ⟨_, h₄⟩, ⟨_, h₅⟩⟩
    exact ⟨_, h₁, _, h₂, _, h₃, _, h₄, _, h₅, _, rfl⟩

theorem normalize_skipped (h : a.toolName s payload = none) : a.normalize s policy payload = .ok none := by
  rw [normalize, h]

theorem normalize_event (h : a.toolName s payload = some tool) {event : AgentTraceEvent String Json τ} :
    a.normalize s policy payload = .ok (some event) ↔
      a.assemble s policy tool payload = .ok event ∧ ∀ text ∈ event.texts, s.validText text = true := by
  rw [normalize, h]
  simp only [Attempt.bind_eq_ok]
  constructor
  · rintro ⟨made, hmade, checked, hchecked, heq⟩
    cases Option.some.inj (Except.ok.inj heq)
    have htexts := Decoder.validated_ok_iff.1 ⟨_, hchecked⟩
    unfold Decoder.validated at hchecked
    split at hchecked <;> cases hchecked
    exact ⟨hmade, htexts⟩
  · rintro ⟨hmade, htexts⟩
    exact ⟨event, hmade, event, if_pos (List.all_eq_true.2 htexts), rfl⟩

theorem normalize_ne_none (h : a.toolName s payload = some tool) : a.normalize s policy payload ≠ .ok none := by
  rw [normalize, h]
  intro hnone
  obtain ⟨_, -, hnone⟩ := Attempt.bind_eq_ok.1 hnone
  obtain ⟨_, -, hnone⟩ := Attempt.bind_eq_ok.1 hnone
  cases hnone

theorem assembled {event : AgentTraceEvent String Json τ} (h : a.assemble s policy tool payload = .ok event) :
    event.args = policy.applyJsonEntries s.lower (Surroundings.coerceArgs (s.first payload a.argsKeys)) ∧
      event.metadata = policy.applyJsonEntries s.lower (a.metadataOf tool payload) := by
  unfold assemble at h
  obtain ⟨_, -, h⟩ := Attempt.bind_eq_ok.1 h
  obtain ⟨_, -, h⟩ := Attempt.bind_eq_ok.1 h
  obtain ⟨_, -, h⟩ := Attempt.bind_eq_ok.1 h
  obtain ⟨_, -, h⟩ := Attempt.bind_eq_ok.1 h
  obtain ⟨_, -, h⟩ := Attempt.bind_eq_ok.1 h
  cases Except.ok.inj h
  exact ⟨rfl, rfl⟩

-- Metadata

/-- The provenance of a tool names a server and a leaf, or nothing. -/
theorem nodup_provenance : ((a.provenance tool).map Prod.fst).Nodup := by
  unfold provenance mcpProvenance
  split
  · split
    · split
      · split
        · exact .nil
        · exact (by decide : ["mcp_server", "mcp_tool"].Nodup)
      · exact .nil
    · exact .nil
  · exact .nil

theorem lookup_foldl_put {more : Payload} (h : (more.map Prod.fst).Nodup) (entries : Payload) (key : String) :
    (more.foldl (fun metadata entry => OrderedDict.put entry.1 entry.2 metadata) entries).lookup key =
      (more.lookup key).or (entries.lookup key) := by
  induction more generalizing entries with
  | nil => rfl
  | cons entry rest ih =>
    obtain ⟨name, value⟩ := entry
    obtain ⟨hfresh, hrest⟩ := List.nodup_cons.1 h
    rw [List.foldl_cons, ih hrest, OrderedDict.lookup_put, OrderedDict.lookup_cons_if]
    by_cases hkey : key = name
    · subst hkey
      have hnone : rest.lookup key = none := by
        refine List.lookup_eq_none_iff.2 fun p hp => bne_iff_ne.2 ?_
        rintro rfl
        exact hfresh (List.mem_map.2 ⟨p, hp, rfl⟩)
      simp [hnone]
    · simp [hkey]

theorem lookup_filter_unknown {known : List String} {key : String} (h : key ∉ known) (entries : Payload) :
    (entries.filter fun entry => entry.1 ∉ known).lookup key = entries.lookup key := by
  induction entries with
  | nil => rfl
  | cons entry rest ih =>
    obtain ⟨name, value⟩ := entry
    rw [OrderedDict.lookup_cons_if, List.filter_cons]
    by_cases hname : key = name
    · subst hname
      simp [h]
    · rw [if_neg hname, ← ih]
      split
      · rw [OrderedDict.lookup_cons_if, if_neg hname]
      · rfl

theorem lookup_metadataOf {key : String} (h : key ∉ a.known) :
    (a.metadataOf tool payload).lookup key = ((a.provenance tool).lookup key).or (payload.lookup key) := by
  rw [metadataOf, lookup_foldl_put nodup_provenance, lookup_filter_unknown h]

/-- The unknown keys survive exactly if the provenance of the tool overwrites nothing of them. -/
theorem kept_iff : (∀ key value, payload.lookup key = some value → key ∉ a.known →
      (policy.applyJsonEntries s.lower (a.metadataOf tool payload)).lookup key =
        some (policy.redacted s.lower key value)) ↔
    ∀ entry ∈ a.provenance tool, entry.1 ∉ a.known → ∀ value, payload.lookup entry.1 = some value →
      policy.redacted s.lower entry.1 value = policy.redacted s.lower entry.1 entry.2 := by
  have hlookup (entry : String × Json) (hentry : entry ∈ a.provenance tool) :
      (a.provenance tool).lookup entry.1 = some entry.2 :=
    (OrderedDict.get?_eq_some_iff (d := ⟨a.provenance tool, nodup_provenance⟩)).2 hentry
  constructor
  · intro h entry hentry hknown value hvalue
    have hkept := h entry.1 value hvalue hknown
    rw [RedactionPolicy.lookup_applyJsonEntries, lookup_metadataOf hknown, hlookup entry hentry] at hkept
    exact (Option.some.inj hkept).symm
  · intro h key value hvalue hknown
    rw [RedactionPolicy.lookup_applyJsonEntries, lookup_metadataOf hknown, hvalue]
    cases hprovenance : (a.provenance tool).lookup key with
    | none => rfl
    | some other =>
      have hentry : (key, other) ∈ a.provenance tool :=
        (OrderedDict.get?_eq_some_iff (d := ⟨a.provenance tool, nodup_provenance⟩)).1 hprovenance
      exact congrArg some (h (key, other) hentry hknown value hvalue).symm

-- Tame payloads

/-- A call that can be read becomes an event. -/
theorem exists_event_iff (h : a.toolName s payload = some tool) :
    (∃ event, a.normalize s policy payload = .ok (some event)) ↔
      (∃ event, a.assemble s policy tool payload = .ok event) ∧
        ∀ event, a.assemble s policy tool payload = .ok event →
          ∀ text ∈ event.texts, s.validText text = true := by
  simp only [normalize_event h]
  constructor
  · rintro ⟨event, hevent, htexts⟩
    refine ⟨⟨event, hevent⟩, fun event' hevent' => ?_⟩
    cases Except.ok.inj (hevent.symm.trans hevent')
    exact htexts
  · rintro ⟨⟨event, hevent⟩, htexts⟩
    exact ⟨event, hevent, htexts event hevent⟩

/-- An adapter tolerates exactly the tame payloads: `opencode`, `claudeCode`, `vscode` and any like them. -/
theorem normalize_tolerant_iff (a : Adapter) (s : Surroundings τ) (policy : RedactionPolicy) (payload : Payload) :
    a.Tolerant s policy payload ↔ a.Tame s policy payload := by
  cases htool : a.toolName s payload with
  | none =>
    have hskipped : a.normalize s policy payload = .ok none := normalize_skipped htool
    constructor
    · intro h
      refine ⟨fun hnamed => absurd hnamed (h.none_iff.1 hskipped), fun tool htool' => ?_⟩
      cases htool.symm.trans htool'
    · intro h
      refine ⟨⟨none, hskipped⟩, iff_of_true hskipped fun hnamed => ?_, fun event hevent => ?_,
        fun event hevent => ?_⟩
      · obtain ⟨tool, htool'⟩ := h.named hnamed
        cases htool.symm.trans htool'
      · cases hskipped.symm.trans hevent
      · cases hskipped.symm.trans hevent
  | some tool =>
    have hnamed := named_of_toolName htool
    have hne : a.normalize s policy payload ≠ .ok none := normalize_ne_none htool
    constructor
    · intro h
      refine ⟨fun _ => ⟨tool, htool⟩, fun tool' htool' => ?_⟩
      cases Option.some.inj (htool.symm.trans htool')
      obtain ⟨outcome, houtcome⟩ := h.total
      cases outcome with
      | none => exact absurd houtcome hne
      | some event =>
        obtain ⟨hmade, htexts⟩ := (exists_event_iff htool).1 ⟨event, houtcome⟩
        obtain ⟨hsession, hturn, hlatency, hsource, htimestamp⟩ := assemble_ok_iff.1 hmade
        refine ⟨hsession, hturn, hlatency, hsource, htimestamp, htexts,
          kept_iff.1 fun key value hvalue hknown => ?_⟩
        rw [← (assembled ((normalize_event htool).1 houtcome).1).2]
        exact h.kept event houtcome key value hvalue hknown
    · intro h
      have hread := h.readable tool htool
      obtain ⟨event, hevent⟩ : ∃ event, a.normalize s policy payload = .ok (some event) :=
        (exists_event_iff htool).2 ⟨assemble_ok_iff.2
          ⟨hread.session, hread.turn, hread.latency, hread.source, hread.timestamp⟩, hread.texts⟩
      have hparts {event} (hevent : a.normalize s policy payload = .ok (some event)) :=
        assembled ((normalize_event htool).1 hevent).1
      refine ⟨⟨some event, hevent⟩, iff_of_false hne (not_not_intro hnamed), fun event hevent => ?_,
        fun event hevent => ?_⟩
      · rw [(hparts hevent).2]
        exact kept_iff.2 hread.own
      · rw [(hparts hevent).1, (hparts hevent).2]
        exact ⟨RedactionPolicy.masked_applyJsonEntries _, RedactionPolicy.masked_applyJsonEntries _⟩

end Adapter

-- A timestamp that is none

/-- Surroundings in which no text is a time. -/
def timeless : Surroundings Unit where
  lower := id
  repr _ := .ok ""
  toDouble i := .finite i
  minus _ _ := .nan
  fromIsoFormat _ := none
  parseDatetime _ := none
  validText _ := true

def undated : Payload := [("tool", .str "bash"), ("timestamp", .str "yesterday")]

/-- The adapter of OpenCode passes Pydantic a string that is no timestamp. -/
theorem undated_raises : ¬opencode.Tolerant timeless {} undated := by
  intro h
  obtain ⟨outcome, houtcome⟩ := h.total
  have hraises : opencode.normalize timeless {} undated = .error (.other "ValidationError") := rfl
  cases hraises.symm.trans houtcome

end TraceImport

end ChainWeaver
