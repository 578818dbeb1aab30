import ChainWeaver.LoadScopedRedactionLaws
import ChainWeaver.TraceAdapters
import ChainWeaver.TraceLines

/-!
# Captured traces

The capture commands of the coding agents append normalized events to a sink, one JSON object a line.
The import takes the `metadata` of such a line for a key of the agent's own and wraps it once more: what
is captured reads back exactly if nothing is (`capture_roundTrips_iff`).
-/

namespace ChainWeaver

namespace Json

mutual

/-- `model_dump(mode="json")` of a JSON value: NaN and the infinities become null, unless `nonFinite` says
that they stay. -/
def modelDump (nonFinite : Bool) : Json → Json
  | .array items => .array (modelDumpItems nonFinite items)
  | .object entries => .object (modelDumpEntries nonFinite entries)
  | .float (.finite q) => .float (.finite q)
  | .float special => if nonFinite then .float special else .null
  | value => value

def modelDumpItems (nonFinite : Bool) : List Json → List Json
  | [] => []
  | item :: rest => modelDump nonFinite item :: modelDumpItems nonFinite rest

def modelDumpEntries (nonFinite : Bool) : List (String × Json) → List (String × Json)
  | [] => []
  | (key, value) :: rest => (key, modelDump nonFinite value) :: modelDumpEntries nonFinite rest

end

end Json

namespace TraceImport

open AgentTraces (TraceEventKind)

-- Captures

/-- A decoded JSON object: its keys, and those of the objects in it, are different. -/
structure JsonObject where
  entries : Payload
  distinct : (Json.object entries).Distinct

/-- What capture and import take from their surroundings. -/
structure Recorder (τ : Type) where
  surroundings : Surroundings τ
  reader : LineReader τ
  isoFormat : τ → String
  nonFinite : Bool

def optionalEntry (key : String) : Option Json → Payload
  | some value => [(key, value)]
  | none => []

def kindText : TraceEventKind → String
  | .toolCall => "tool_call"
  | .modelCall => "model_call"

namespace Recorder

variable (r : Recorder τ)

/-- The entries of `event.model_dump(mode="json", exclude_none=True)` before the last. -/
def fields (event : AgentTraceEvent String Json τ) : Payload :=
  ("session_id", .str event.sessionId) :: optionalEntry "turn_id" (event.turnId.map .str) ++
    ("event", .str (kindText event.event)) :: optionalEntry "tool" (event.tool.map .str) ++
    ("args", .object (Json.modelDumpEntries r.nonFinite event.args)) ::
      optionalEntry "result_status" (event.resultStatus.map .str) ++
    ("output_keys", .array (event.outputKeys.map .str)) :: optionalEntry "input_tokens" (event.inputTokens.map .int) ++
    optionalEntry "output_tokens" (event.outputTokens.map .int) ++
    optionalEntry "latency_ms" (event.latencyMs.map fun ms => (Json.float ms).modelDump r.nonFinite) ++
    optionalEntry "tool_source" (event.toolSource.map .str) ++
    optionalEntry "timestamp" (event.timestamp.map fun timestamp => .str (r.isoFormat timestamp))

def record (event : AgentTraceEvent String Json τ) : Payload :=
  r.fields event ++ [("metadata", .object (Json.modelDumpEntries r.nonFinite event.metadata))]

/-- `json.dumps(…, sort_keys=True)`. -/
def line (event : AgentTraceEvent String Json τ) : Text :=
  (Json.object (r.record event)).sorted.dumped r.reader.floats.toFloatText {}

/-- What is appended to the sink. -/
def appended (events : List (AgentTraceEvent String Json τ)) : Text :=
  if events.isEmpty then [] else ['\n'].intercalate (events.map r.line) ++ ['\n']

def normalizeAll (a : Adapter) (policy : RedactionPolicy) (payloads : List JsonObject) :
    Except (ImportError String) (List (AgentTraceEvent String Json τ)) :=
  (payloads.mapM fun payload => a.normalize r.surroundings policy payload.entries).map List.reduceOption

/-- A run of a capture command that could normalize all its payloads. -/
structure Capture where
  adapter : Adapter
  policy : RedactionPolicy
  payloads : List JsonObject
  events : List (AgentTraceEvent String Json τ)
  normalized : r.normalizeAll adapter policy payloads = .ok events

variable {r}

/-- The sink after some captures, none of which had a sink to start with. -/
def sink (captures : List r.Capture) : Text := captures.flatMap fun capture => r.appended capture.events

/-- The sink reads back as the events of all captures in order. -/
def RoundTrips (captures : List r.Capture) : Prop :=
  r.reader.parse (sink captures) = .ok (captures.flatMap Capture.events)

end Recorder

end TraceImport

-- Nodes

namespace Json

variable {nonFinite : Bool}

mutual

theorem nodes_modelDump (json : Json) : (json.modelDump nonFinite).nodes = json.nodes := by
  cases json with
  | array items => simp only [modelDump, nodes, nodesItems_modelDump items]
  | object entries => simp only [modelDump, nodes, nodesEntries_modelDump entries]
  | float f => cases f <;> cases nonFinite <;> rfl
  | _ => rfl

theorem nodesItems_modelDump (items : List Json) :
    nodesItems (modelDumpItems nonFinite items) = nodesItems items := by
  cases items with
  | nil => rfl
  | cons item rest => simp only [modelDumpItems, nodesItems, nodes_modelDump item, nodesItems_modelDump rest]

theorem nodesEntries_modelDump (entries : List (String × Json)) :
    nodesEntries (modelDumpEntries nonFinite entries) = nodesEntries entries := by
  match entries with
  | [] => rfl
  | (_, value) :: rest =>
    simp only [modelDumpEntries, nodesEntries, nodes_modelDump value, nodesEntries_modelDump rest]

end

theorem nodesEntries_perm {entries entries' : List (String × Json)} (h : entries.Perm entries') :
    nodesEntries entries = nodesEntries entries' := by
  induction h with
  | nil => rfl
  | cons entry _ ih => simp only [nodesEntries, ih]
  | swap entry entry' rest =>
    simp only [nodesEntries]
    omega
  | trans _ _ ih ih' => exact ih.trans ih'

mutual

theorem nodes_sorted (json : Json) : json.sorted.nodes = json.nodes := by
  cases json with
  | array items => simp only [sorted, nodes, nodesItems_sorted items]
  | object entries =>
    simp only [sorted, nodes]
    rw [nodesEntries_perm (SortedEntries.perm_sort _), nodesEntries_sorted entries]
  | _ => rfl

theorem nodesItems_sorted (items : List Json) : nodesItems (sortedItems items) = nodesItems items := by
  cases items with
  | nil => rfl
  | cons item rest => simp only [sortedItems, nodesItems, nodes_sorted item, nodesItems_sorted rest]

theorem nodesEntries_sorted (entries : List (String × Json)) :
    nodesEntries (sortedEntries entries) = nodesEntries entries := by
  match entries with
  | [] => rfl
  | (_, value) :: rest => simp only [sortedEntries, nodesEntries, nodes_sorted value, nodesEntries_sorted rest]

end

-- Different keys

theorem keys_modelDumpEntries (entries : List (String × Json)) :
    (modelDumpEntries nonFinite entries).map Prod.fst = entries.map Prod.fst := by
  induction entries with
  | nil => rfl
  | cons entry rest ih => rw [modelDumpEntries, List.map_cons, List.map_cons, ih]

mutual

theorem Distinct.modelDump (json : Json) (h : json.Distinct) : (json.modelDump nonFinite).Distinct := by
  cases json with
  | array items => exact DistinctItems.modelDump items h
  | object entries => exact ⟨keys_modelDumpEntries entries ▸ h.1, DistinctEntries.modelDump entries h.2⟩
  | float f => cases f <;> cases nonFinite <;> trivial
  | _ => trivial

theorem DistinctItems.modelDump (items : List Json) (h : DistinctItems items) :
    DistinctItems (modelDumpItems nonFinite items) := by
  cases items with
  | nil => trivial
  | cons item rest => exact ⟨Distinct.modelDump item h.1, DistinctItems.modelDump rest h.2⟩

theorem DistinctEntries.modelDump (entries : List (String × Json)) (h : DistinctEntries entries) :
    DistinctEntries (modelDumpEntries nonFinite entries) := by
  match entries with
  | [] => trivial
  | (_, value) :: rest => exact ⟨Distinct.modelDump value h.1, DistinctEntries.modelDump rest h.2⟩

end

variable {lower : String → String} {policy : RedactionPolicy}

theorem keys_applyJsonEntries (entries : List (String × Json)) :
    (policy.applyJsonEntries lower entries).map Prod.fst = entries.map Prod.fst := by
  induction entries with
  | nil => rfl
  | cons entry rest ih => rw [RedactionPolicy.applyJsonEntries, List.map_cons, List.map_cons, ih]

mutual

theorem Distinct.applyJson (json : Json) (h : json.Distinct) : (policy.applyJson lower json).Distinct := by
  cases json with
  | array items => exact DistinctItems.applyJson items h
  | object entries => exact ⟨keys_applyJsonEntries entries ▸ h.1, DistinctEntries.applyJson entries h.2⟩
  | _ => trivial

theorem DistinctItems.applyJson (items : List Json) (h : DistinctItems items) :
    DistinctItems (policy.applyJsonItems lower items) := by
  cases items with
  | nil => trivial
  | cons item rest => exact ⟨Distinct.applyJson item h.1, DistinctItems.applyJson rest h.2⟩

theorem DistinctEntries.applyJson (entries : List (String × Json)) (h : DistinctEntries entries) :
    DistinctEntries (policy.applyJsonEntries lower entries) := by
  match entries with
  | [] => trivial
  | (_, value) :: rest =>
    refine ⟨?_, DistinctEntries.applyJson rest h.2⟩
    split
    · trivial
    · exact Distinct.applyJson value h.1

end

end Json

namespace TraceImport

-- Events of decoded objects

theorem distinct_of_lookup {entries : Payload} (h : (Json.object entries).Distinct) {key : String} {value : Json}
    (hvalue : entries.lookup key = some value) : value.Distinct :=
  Json.distinctEntries_iff.1 h.2 (key, value) (mem_of_lookup hvalue)

theorem distinct_put {entries : Payload} (h : (Json.object entries).Distinct) {key : String} {value : Json}
    (hvalue : value.Distinct) : (Json.object (OrderedDict.put key value entries)).Distinct := by
  refine ⟨OrderedDict.nodup_put h.1, ?_⟩
  replace h := h.2
  induction entries with
  | nil => exact ⟨hvalue, trivial⟩
  | cons entry rest ih =>
    unfold OrderedDict.put
    split
    · exact ⟨hvalue, h.2⟩
    · exact ⟨h.1, ih h.2⟩

namespace Adapter

variable {a : Adapter} {s : Surroundings τ} {policy : RedactionPolicy} {payload : Payload} {tool : String}
  {event : AgentTraceEvent String Json τ}

theorem coerceArgs_distinct (h : (Json.object payload).Distinct) (keys : List String) :
    (Json.object (Surroundings.coerceArgs (s.first payload keys))).Distinct := by
  cases hfirst : s.first payload keys with
  | none => exact ⟨.nil, trivial⟩
  | some value =>
    obtain ⟨key, -, hlookup, -⟩ := first_eq_some hfirst
    have hvalue := distinct_of_lookup h hlookup
    cases value with
    | object entries => exact hvalue
    | _ => exact ⟨List.nodup_singleton _, hvalue, trivial⟩

theorem provenance_distinct {t : String} : ∀ entry ∈ a.provenance t, entry.2.Distinct := by
  intro entry hentry
  unfold provenance mcpProvenance at hentry
  split at hentry
  · split at hentry
    · split at hentry
      · split at hentry
        · cases hentry
        · simp only [List.mem_cons, List.not_mem_nil, or_false] at hentry
          rcases hentry with rfl | rfl <;> trivial
      · cases hentry
    · cases hentry
  · cases hentry

theorem metadataOf_distinct (h : (Json.object payload).Distinct) :
    (Json.object (a.metadataOf tool payload)).Distinct := by
  have hunknown : (Json.object (payload.filter fun entry => entry.1 ∉ a.known)).Distinct := by
    refine ⟨h.1.sublist (List.filter_sublist.map _), Json.distinctEntries_iff.2 fun entry hentry => ?_⟩
    exact Json.distinctEntries_iff.1 h.2 entry (List.mem_filter.1 hentry).1
  have hscalar := provenance_distinct (a := a) (t := tool)
  unfold metadataOf
  generalize a.provenance tool = more at hscalar
  generalize (payload.filter fun entry => entry.1 ∉ a.known) = metadata at hunknown
  induction more generalizing metadata with
  | nil => exact hunknown
  | cons entry rest ih =>
    obtain ⟨hentry, hrest⟩ := List.forall_mem_cons.1 hscalar
    exact ih hrest _ (distinct_put hunknown hentry)

theorem event_distinct (h : (Json.object payload).Distinct) (hevent : a.normalize s policy payload = .ok (some event)) :
    (Json.object event.args).Distinct ∧ (Json.object event.metadata).Distinct := by
  cases htool : a.toolName s payload with
  | none => cases (normalize_skipped htool).symm.trans hevent
  | some tool =>
    obtain ⟨hargs, hmetadata⟩ := assembled ((normalize_event htool).1 hevent).1
    rw [hargs, hmetadata]
    exact ⟨Json.Distinct.applyJson (.object _) (coerceArgs_distinct h _),
      Json.Distinct.applyJson (.object _) (metadataOf_distinct h)⟩

end Adapter

-- One line

namespace Recorder

variable {r : Recorder τ} {event : AgentTraceEvent String Json τ}

theorem keys_optionalEntry (key : String) (value : Option Json) :
    ((optionalEntry key value).map Prod.fst).Sublist [key] := by
  cases value with
  | none => exact List.nil_sublist _
  | some value => exact List.Sublist.refl _

def fieldKeys : List String :=
  ["session_id", "turn_id"] ++ ["event", "tool"] ++ ["args", "result_status"] ++ ["output_keys", "input_tokens"] ++
    ["output_tokens"] ++ ["latency_ms"] ++ ["tool_source"] ++ ["timestamp"]

theorem keys_fields : ((r.fields event).map Prod.fst).Sublist fieldKeys := by
  simp only [fields, List.map_append, List.map_cons]
  have hfirst (name key : String) (value : Option Json) :
      (name :: (optionalEntry key value).map Prod.fst).Sublist [name, key] :=
    (keys_optionalEntry key value).cons_cons name
  refine ((((((((hfirst _ _ _).append (hfirst _ _ _)).append (hfirst _ _ _)).append (hfirst _ _ _)).append ?_).append
    ?_).append ?_).append ?_) <;> exact keys_optionalEntry _ _

/-- All fields but the last are known to the import. -/
theorem fields_known {entry : String × Json} (h : entry ∈ r.fields event) : entry.1 ∈ knownEventKeys := by
  have hkey := keys_fields.subset (List.mem_map_of_mem h)
  exact (by decide : fieldKeys ⊆ knownEventKeys) hkey

theorem nodup_record : ((r.record event).map Prod.fst).Nodup := by
  rw [record, List.map_append]
  exact List.Nodup.sublist (keys_fields.append (List.Sublist.refl ["metadata"])) (by decide)

theorem distinctEntries_append {entries entries' : Payload} (h : Json.DistinctEntries entries)
    (h' : Json.DistinctEntries entries') : Json.DistinctEntries (entries ++ entries') := by
  rw [Json.distinctEntries_iff] at h h' ⊢
  exact List.forall_mem_append.2 ⟨h, h'⟩

theorem distinctEntries_optional {α : Type} {key : String} {value : Option α} {f : α → Json}
    (h : ∀ x, (f x).Distinct) :
    Json.DistinctEntries (optionalEntry key (value.map f)) := by
  cases value with
  | none => trivial
  | some x => exact ⟨h x, trivial⟩

theorem distinct_strs (texts : List String) : (Json.array (texts.map .str)).Distinct := by
  refine Json.distinctItems_iff.2 fun item hitem => ?_
  obtain ⟨text, -, rfl⟩ := List.mem_map.1 hitem
  trivial

theorem record_distinct (hargs : (Json.object event.args).Distinct)
    (hmetadata : (Json.object event.metadata).Distinct) :
    (Json.object (r.record event)).Distinct := by
  have hstr (key : String) (value : Option String) : Json.DistinctEntries (optionalEntry key (value.map .str)) :=
    distinctEntries_optional fun _ => trivial
  have hint (key : String) (value : Option Int) : Json.DistinctEntries (optionalEntry key (value.map .int)) :=
    distinctEntries_optional fun _ => trivial
  refine ⟨nodup_record, distinctEntries_append ?_ ⟨Json.Distinct.modelDump (.object _) hmetadata, trivial⟩⟩
  have htext (name text : String) (key : String) (value : Option String) :
      Json.DistinctEntries ((name, .str text) :: optionalEntry key (value.map .str)) := ⟨trivial, hstr key value⟩
  refine distinctEntries_append (distinctEntries_append (distinctEntries_append (distinctEntries_append
    (distinctEntries_append (distinctEntries_append (distinctEntries_append (htext _ _ _ _) (htext _ _ _ _))
      ⟨?_, hstr _ _⟩) ⟨distinct_strs _, hint _ _⟩) (hint _ _)) ?_) (hstr _ _)) ?_
  · exact Json.Distinct.modelDump (.object _) hargs
  · exact distinctEntries_optional fun ms => Json.Distinct.modelDump (.float ms) trivial
  · exact distinctEntries_optional fun _ => trivial

/-- The metadata that the import reads from a line: what was the metadata stands under a key of its own. -/
def wrapped (r : Recorder τ) (event : AgentTraceEvent String Json τ) : Payload :=
  [("metadata", (Json.object (Json.modelDumpEntries r.nonFinite event.metadata)).sorted)]

theorem metadataOf_record : r.reader.decoder.metadataOf (SortedEntries.sort (Json.sortedEntries (r.record event))) =
    r.wrapped event := by
  have hfields : ((r.fields event).map fun entry => (entry.1, entry.2.sorted)).filter
      (fun entry => entry.1 ∉ knownEventKeys) = [] := by
    refine List.filter_eq_nil_iff.2 fun entry hentry => ?_
    obtain ⟨field, hfield, rfl⟩ := List.mem_map.1 hentry
    simpa using fields_known hfield
  have hunsorted : (Json.sortedEntries (r.record event)).filter (fun entry => entry.1 ∉ knownEventKeys) =
      r.wrapped event := by
    rw [Json.sortedEntries_eq_map, record, List.map_append, List.filter_append, hfields]
    rfl
  have hperm := (SortedEntries.perm_sort (Json.sortedEntries (r.record event))).filter
    (fun entry => entry.1 ∉ knownEventKeys)
  rw [hunsorted] at hperm
  have hkeys : knownEventKeys.map r.reader.decoder.ofString = knownEventKeys := List.map_id _
  rw [Decoder.metadataOf, hkeys]
  exact List.perm_singleton.1 hperm

/-- Nothing is its own metadata. -/
theorem wrapped_ne : r.wrapped event ≠ event.metadata := by
  intro h
  have hnodes := congrArg Json.nodesEntries h
  simp only [wrapped, Json.nodesEntries, Json.nodes_sorted, Json.nodes, Json.nodesEntries_modelDump] at hnodes
  omega

theorem makeEvent_metadata {kind : AgentTraces.TraceEventKind} {session : Option String} {outputKeys : List String}
    {args metadata entries : Payload} (h : r.reader.decoder.makeEvent kind session outputKeys args metadata entries =
      .ok event) : event.metadata = metadata := by
  unfold Decoder.makeEvent at h
  obtain ⟨_, -, h⟩ := Attempt.bind_eq_ok.1 h
  obtain ⟨_, -, h⟩ := Attempt.bind_eq_ok.1 h
  obtain ⟨_, -, h⟩ := Attempt.bind_eq_ok.1 h
  obtain ⟨_, -, h⟩ := Attempt.bind_eq_ok.1 h
  obtain ⟨_, -, h⟩ := Attempt.bind_eq_ok.1 h
  obtain ⟨_, -, h⟩ := Attempt.bind_eq_ok.1 h
  unfold Decoder.validated at h
  split at h
  · obtain rfl := Except.ok.inj h
    rfl
  · cases h

theorem coerceEntries_metadata {entries : Payload} {line : Nat}
    (h : r.reader.decoder.coerceEntries () line entries = .ok (event, ())) :
    event.metadata = r.reader.decoder.metadataOf entries := by
  obtain ⟨kind, -, h⟩ := Attempt.bind_eq_ok.1 h
  obtain ⟨session, -, h⟩ := Attempt.bind_eq_ok.1 h
  by_cases htool : kind = .toolCall ∧ r.reader.decoder.toolOf entries = none
  · simp only [if_pos htool] at h
    obtain ⟨_, hthrow, _⟩ := Attempt.bind_eq_ok.1 h
    cases hthrow
  · simp only [if_neg htool] at h
    cases hargs : r.reader.decoder.argsOf entries with
    | none =>
      rw [hargs] at h
      cases h
    | some args =>
      have hredact : r.reader.decoder.redactPayloads () args (r.reader.decoder.metadataOf entries) =
          .ok ((args, r.reader.decoder.metadataOf entries), ()) := rfl
      rw [hargs] at h
      obtain ⟨keys, -, h⟩ := Attempt.bind_eq_ok.1 h
      obtain ⟨payloads, hpayloads, h⟩ := Attempt.bind_eq_ok.1 h
      obtain rfl := Except.ok.inj (hredact.symm.trans hpayloads)
      obtain ⟨made, hmade, h⟩ := Attempt.bind_eq_ok.1 h
      obtain ⟨rfl, -⟩ := Prod.mk.inj (Except.ok.inj h)
      exact makeEvent_metadata hmade

/-- A line ends where it is written to end. -/
theorem strippedLines_line (event : AgentTraceEvent String Json τ) (more : Text) :
    strippedLines (r.line event ++ '\n' :: more) = some (r.line event) :: strippedLines more := by
  have hone : ∀ c ∈ r.line event, endsLine c = false := by
    intro c hc
    rcases Json.mem_dumped _ hc with hvisible | ⟨hascii, -⟩
    · exact hvisible.not_endsLine
    · cases hascii
  have hstrip : strip (r.line event) = r.line event := strip_eq_self '\x7b' '\x7d' _ (by decide) (by decide)
  have hsome : (r.line event).isEmpty = false := rfl
  rw [strippedLines, splitlines_line hone, List.map_cons, hstrip, hsome]
  rfl

/-- The first event of a sink reads back with wrapped metadata. -/
theorem head_of_parse (hargs : (Json.object event.args).Distinct) (hmetadata : (Json.object event.metadata).Distinct)
    {more : Text} {events : List (AgentTraceEvent String Json τ)}
    (h : r.reader.parse (r.line event ++ '\n' :: more) = .ok events) :
    ∃ read rest, events = read :: rest ∧ read.metadata = r.wrapped event := by
  have hloads : r.reader.decoder.loads (r.line event) = .value (Json.object (r.record event)).sorted := by
    have hdistinct : (Json.object (r.record event)).sorted.Distinct :=
      Json.Distinct.sorted _ (record_distinct hargs hmetadata)
    simp only [LineReader.decoder, line, loads_dumped _ hdistinct]
  rw [LineReader.parse, Decoder.parseAgentTrace, strippedLines_line, Decoder.parseLines, hloads] at h
  obtain ⟨⟨read, state⟩, hcoerced, h⟩ := Attempt.bind_eq_ok.1 h
  obtain ⟨rest, -, h⟩ := Attempt.bind_eq_ok.1 h
  refine ⟨read, rest, (Except.ok.inj h).symm, ?_⟩
  rw [← metadataOf_record]
  exact coerceEntries_metadata hcoerced

-- The sink

theorem appended_eq (events : List (AgentTraceEvent String Json τ)) :
    r.appended events = events.flatMap fun event => r.line event ++ ['\n'] := by
  cases events with
  | nil => rfl
  | cons event rest =>
    simp only [appended, List.isEmpty_cons, Bool.false_eq_true, if_false, List.flatMap_cons]
    induction rest generalizing event with
    | nil => simp
    | cons next rest ih =>
      rw [List.map_cons, List.map_cons, List.intercalate_cons_cons, ← List.map_cons, List.append_assoc, ih next,
        List.flatMap_cons, List.append_assoc]

theorem sink_eq (captures : List r.Capture) :
    sink captures = (captures.flatMap Capture.events).flatMap fun event => r.line event ++ ['\n'] := by
  rw [sink, List.flatMap_assoc]
  exact congrArg captures.flatMap (funext fun capture => appended_eq capture.events)

theorem Capture.outcomes (capture : r.Capture) : ∃ outcomes, (capture.payloads.mapM fun payload =>
    capture.adapter.normalize r.surroundings capture.policy payload.entries) = .ok outcomes ∧
      outcomes.reduceOption = capture.events := by
  have hnormalized := capture.normalized
  unfold normalizeAll at hnormalized
  cases houtcomes : capture.payloads.mapM fun payload =>
      capture.adapter.normalize r.surroundings capture.policy payload.entries with
  | error e =>
    rw [houtcomes] at hnormalized
    cases hnormalized
  | ok outcomes =>
    rw [houtcomes] at hnormalized
    exact ⟨outcomes, rfl, Except.ok.inj hnormalized⟩

theorem Capture.mem_events (capture : r.Capture) : event ∈ capture.events ↔ ∃ payload ∈ capture.payloads,
    capture.adapter.normalize r.surroundings capture.policy payload.entries = .ok (some event) := by
  obtain ⟨outcomes, houtcomes, hevents⟩ := capture.outcomes
  rw [← hevents, List.reduceOption_mem_iff]
  exact Attempt.mem_mapM houtcomes

theorem Capture.normalizes (capture : r.Capture) {payload : JsonObject} (h : payload ∈ capture.payloads) :
    ∃ outcome, capture.adapter.normalize r.surroundings capture.policy payload.entries = .ok outcome := by
  obtain ⟨outcomes, houtcomes, -⟩ := capture.outcomes
  let f (payload : JsonObject) := capture.adapter.normalize r.surroundings capture.policy payload.entries
  have hone : ∃ outcome, f payload = .ok outcome := Attempt.exists_of_mapM houtcomes h
  exact hone

/-- Captured events come from decoded objects. -/
theorem captured_distinct (capture : r.Capture) (h : event ∈ capture.events) :
    (Json.object event.args).Distinct ∧ (Json.object event.metadata).Distinct := by
  obtain ⟨payload, -, hpayload⟩ := capture.mem_events.1 h
  exact Adapter.event_distinct payload.distinct hpayload

theorem events_eq_nil_iff (capture : r.Capture) : capture.events = [] ↔
    ∀ payload ∈ capture.payloads, capture.adapter.toolName r.surroundings payload.entries = none := by
  rw [List.eq_nil_iff_forall_not_mem]
  constructor
  · intro h payload hpayload
    obtain ⟨outcome, houtcome⟩ := capture.normalizes hpayload
    cases htool : capture.adapter.toolName r.surroundings payload.entries with
    | none => rfl
    | some tool =>
      cases outcome with
      | none => exact absurd houtcome (Adapter.normalize_ne_none htool)
      | some event => exact absurd (capture.mem_events.2 ⟨payload, hpayload, houtcome⟩) (h event)
  · intro h event hevent
    obtain ⟨payload, hpayload, hnormalize⟩ := capture.mem_events.1 hevent
    rw [Adapter.normalize_skipped (h payload hpayload)] at hnormalize
    cases hnormalize

theorem roundTrips_iff_nil (captures : List r.Capture) :
    RoundTrips captures ↔ captures.flatMap Capture.events = [] := by
  unfold RoundTrips
  rw [sink_eq]
  have hdistinct : ∀ event ∈ captures.flatMap Capture.events,
      (Json.object event.args).Distinct ∧ (Json.object event.metadata).Distinct := by
    intro event hevent
    obtain ⟨capture, -, hevent⟩ := List.mem_flatMap.1 hevent
    exact captured_distinct capture hevent
  cases hevents : captures.flatMap Capture.events with
  | nil => exact iff_of_true rfl rfl
  | cons event rest =>
    refine iff_of_false (fun h => ?_) nofun
    obtain ⟨hargs, hmetadata⟩ := hdistinct event (hevents ▸ List.mem_cons_self)
    rw [List.flatMap_cons, List.append_assoc] at h
    obtain ⟨read, later, heq, hread⟩ := head_of_parse hargs hmetadata h
    obtain ⟨rfl, -⟩ := List.cons.inj heq
    exact wrapped_ne hread.symm

/-- What some captures append reads back as the events they normalized exactly if no payload of theirs
names a tool. -/
theorem capture_roundTrips_iff (r : Recorder τ) (captures : List r.Capture) : RoundTrips captures ↔
    ∀ capture ∈ captures, ∀ payload ∈ capture.payloads,
      capture.adapter.toolName r.surroundings payload.entries = none := by
  rw [roundTrips_iff_nil, List.flatMap_eq_nil_iff]
  exact forall₂_congr fun capture _ => events_eq_nil_iff capture

-- A wrapped capture

def bashCall : JsonObject where
  entries := [("tool", .str "bash")]
  distinct := ⟨List.nodup_singleton _, trivial, trivial⟩

def plainRecorder : Recorder Unit where
  surroundings := timeless
  reader := LineReader.plainReader
  isoFormat _ := ""
  nonFinite := false

theorem bashCall_normalized : ∃ event, plainRecorder.normalizeAll opencode {} [bashCall] = .ok [event] := ⟨_, rfl⟩

/-- The event of a single call does not read back. -/
theorem capture_wraps : ¬∀ (r : Recorder Unit) (captures : List r.Capture), RoundTrips captures := by
  intro h
  obtain ⟨event, hevent⟩ := bashCall_normalized
  have hnil := (roundTrips_iff_nil [⟨opencode, {}, [bashCall], [event], hevent⟩]).1 (h plainRecorder _)
  cases hnil

end Recorder

end TraceImport

end ChainWeaver
