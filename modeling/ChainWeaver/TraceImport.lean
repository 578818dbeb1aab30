import ChainWeaver.AgentTraces
import ChainWeaver.Data.Attempt
import ChainWeaver.Json

/-!
# Importing a trace

`parse_agent_trace`: one JSON object a line, each coerced into an event field by field. It
keeps to its own error exactly if every coercion that it gets to is defined on its value
(`import_contained`).
-/

namespace ChainWeaver.TraceImport

open AgentTraces (TraceEventKind)
open Attempt (ErrorsIn)

-- Values

/-- One level of a decoded JSON value: strings in `σ`, the parts as values of their own. -/
inductive JsonView (σ ν : Type)
  | null
  | bool (b : Bool)
  | int (i : Int)
  | float (f : PyFloat)
  | str (text : σ)
  | array (items : List ν)
  | object (entries : List (σ × ν))

/-- What becomes of a line in the JSON decoder. -/
inductive Decoded (ν : Type)
  | value (value : ν)
  | jsonDecodeError (msg : String)
  | raised (typeName : String)

/-- What an import takes from its surroundings: strings `σ`, JSON values `ν`, lines `ℓ`,
timestamps `τ`, and a redactor with its state `ρ`. -/
structure Decoder (σ ν ℓ τ ρ : Type) where
  ofString : String → σ
  view : ν → JsonView σ ν
  loads : ℓ → Decoded ν
  /-- `str` of a value that is no string; a nesting may be too deep for it. -/
  repr : ν → Except String σ
  toDouble : Int → PyFloat
  fromIsoFormat : σ → Option τ
  /-- Pydantic takes no string with a lone surrogate. -/
  validText : σ → Bool := fun _ => true
  redact : ρ → List (σ × ν) → Except String (List (σ × ν) × ρ)

/-- The parts of an error text. -/
inductive ImportDetail (σ : Type)
  | expectedObject
  | unknownKind (rawKind : σ)
  | missingTool
  | argsNotObject
  | invalidJson (msg : String)

inductive ImportError (σ : Type)
  | agentTraceImport (detail : ImportDetail σ) (line : Nat)
  | other (typeName : String)

def ImportError.documented : ImportError σ → Prop
  | .agentTraceImport .. => True
  | .other _ => False

/-- What raises nothing but undocumented errors keeps to the documented ones by not raising. -/
def Foreign (x : Except (ImportError σ) α) : Prop := ∀ e, x = .error e → ∃ typeName, e = .other typeName

theorem Foreign.errorsIn {x : Except (ImportError σ) α} (h : Foreign x) :
    ErrorsIn ImportError.documented x ↔ ∃ value, x = .ok value := by
  cases x with
  | ok value => exact iff_of_true nofun ⟨value, rfl⟩
  | error e =>
    obtain ⟨typeName, rfl⟩ := h e rfl
    exact iff_of_false (fun hdocumented => hdocumented _ rfl) nofun

theorem Foreign.bind {x : Except (ImportError σ) α} {f : α → Except (ImportError σ) β} (hx : Foreign x)
    (hf : ∀ a, x = .ok a → Foreign (f a)) : Foreign (x >>= f) := by
  cases x with
  | ok a => exact hf a rfl
  | error e =>
    intro e' he
    obtain rfl : e = e' := Except.error.inj he
    exact hx e rfl

theorem foreign_pure {value : α} : Foreign (pure value : Except (ImportError σ) α) := nofun

theorem foreign_mapError {x : Except String α} : Foreign (x.mapError ImportError.other : Except (ImportError σ) α) := by
  intro e he
  cases x with
  | ok value => cases he
  | error typeName => exact ⟨typeName, (Except.error.inj he).symm⟩

theorem foreign_map {x : Except (ImportError σ) α} {f : α → β} (h : Foreign x) : Foreign (x.map f) := by
  intro e he
  cases x with
  | ok value => cases he
  | error e' => exact h e (Except.error.inj he ▸ rfl)

theorem mapM_foreign {f : α → Except (ImportError σ) β} (h : ∀ a, Foreign (f a)) (items : List α) :
    Foreign (items.mapM f) := by
  induction items with
  | nil => exact nofun
  | cons item rest ih =>
    rw [List.mapM_cons]
    exact (h item).bind fun _ _ => ih.bind fun _ _ => foreign_pure

structure AgentTraceEvent (σ ν τ : Type) where
  sessionId : σ
  turnId : Option σ
  event : TraceEventKind
  tool : Option σ
  args : List (σ × ν)
  resultStatus : Option σ
  outputKeys : List σ
  inputTokens : Option Int
  outputTokens : Option Int
  latencyMs : Option PyFloat
  toolSource : Option σ
  timestamp : Option τ
  metadata : List (σ × ν)

namespace AgentTraceEvent

/-- The strings that the event model checks. -/
def texts (event : AgentTraceEvent σ ν τ) : List σ :=
  event.sessionId :: event.turnId.toList ++ event.tool.toList ++ event.args.map Prod.fst ++
    event.resultStatus.toList ++ event.outputKeys ++ event.toolSource.toList ++ event.metadata.map Prod.fst

end AgentTraceEvent

/-- The record keys of the normalized schema. -/
def knownEventKeys : List String :=
  ["session_id", "turn_id", "event", "tool", "tool_name", "args", "inputs", "result_status", "status",
   "output_keys", "outputs", "input_tokens", "output_tokens", "latency_ms", "tool_source", "timestamp"]

-- Coercions

/-- From here on `float` of an integer overflows. -/
def doubleLimit : Nat := Nat.pow 2 1024 - Nat.pow 2 970

namespace Decoder

variable [DecidableEq σ] (decoder : Decoder σ ν ℓ τ ρ)

def get (entries : List (σ × ν)) (key : String) : Option ν := entries.lookup (decoder.ofString key)

def str (value : ν) : Except (ImportError σ) σ :=
  match decoder.view value with
  | .str text => .ok text
  | _ => (decoder.repr value).mapError .other

/-- `value not in (None, "")`. -/
def given (value : ν) : Bool :=
  match decoder.view value with
  | .null => false
  | .str text => text ≠ decoder.ofString ""
  | _ => true

def optStr (value : Option ν) : Except (ImportError σ) (Option σ) :=
  match value.filter decoder.given with
  | none => .ok none
  | some value => (decoder.str value).map some

def optInt (value : Option ν) : Except (ImportError σ) (Option Int) :=
  match value.map decoder.view with
  | some (.int i) => .ok (some i)
  | some (.float (.finite q)) => .ok (some (q.num.tdiv q.den))
  | some (.float .nan) => .error (.other "ValueError")
  | some (.float _) => .error (.other "OverflowError")
  | _ => .ok none

def optFloat (value : Option ν) : Except (ImportError σ) (Option PyFloat) :=
  match value.map decoder.view with
  | some (.int i) => if i.natAbs < doubleLimit then .ok (some (decoder.toDouble i)) else .error (.other "OverflowError")
  | some (.float f) => .ok (some f)
  | _ => .ok none

/-- `_opt_dt`; `fromisoformat` raises `ValueError` at most, which is caught. -/
def optDt (value : Option ν) : Option τ :=
  match value.map decoder.view with
  | some (.str text) => if text = decoder.ofString "" then none else decoder.fromIsoFormat text
  | _ => none

/-- The kind, or the raw kind that is none. -/
def kindOf (entries : List (σ × ν)) : TraceEventKind ⊕ ν :=
  match decoder.get entries "event" with
  | none => .inl .toolCall
  | some rawKind =>
    match decoder.view rawKind with
    | .str text =>
      if text = decoder.ofString "tool_call" then .inl .toolCall
      else if text = decoder.ofString "model_call" then .inl .modelCall
      else .inr rawKind
    | _ => .inr rawKind

def readKind (line : Nat) (entries : List (σ × ν)) : Except (ImportError σ) TraceEventKind :=
  match decoder.kindOf entries with
  | .inl kind => .ok kind
  | .inr rawKind => do throw (.agentTraceImport (.unknownKind (← decoder.str rawKind)) line)

/-- The name under `tool`, or where that key is missing, under `tool_name`. -/
def toolOf (entries : List (σ × ν)) : Option σ :=
  match ((decoder.get entries "tool").or (decoder.get entries "tool_name")).map decoder.view with
  | some (.str text) => if text = decoder.ofString "" then none else some text
  | _ => none

/-- The entries of `args`, or `none` where that is no object. -/
def argsOf (entries : List (σ × ν)) : Option (List (σ × ν)) :=
  match ((decoder.get entries "args").or (decoder.get entries "inputs")).map decoder.view with
  | none => some []
  | some (.object args) => some args
  | some _ => none

/-- The values whose texts are the output keys, or the keys of the outputs. -/
def outputKeysOf (entries : List (σ × ν)) : List ν ⊕ List σ :=
  match (decoder.get entries "output_keys").map decoder.view with
  | none | some .null =>
    match (decoder.get entries "outputs").map decoder.view with
    | some (.object outputs) => .inr (outputs.map Prod.fst)
    | _ => .inr []
  | some (.array items) => .inl items
  | some _ => .inr []

def readOutputKeys (entries : List (σ × ν)) : Except (ImportError σ) (List σ) :=
  match decoder.outputKeysOf entries with
  | .inl items => items.mapM decoder.str
  | .inr keys => .ok keys

def metadataOf (entries : List (σ × ν)) : List (σ × ν) :=
  entries.filter fun entry => entry.1 ∉ knownEventKeys.map decoder.ofString

/-- The payloads, first the arguments and then the metadata, each redacted. -/
def redactPayloads (state : ρ) (args metadata : List (σ × ν)) :
    Except (ImportError σ) ((List (σ × ν) × List (σ × ν)) × ρ) := do
  let (safeArgs, state) ← (decoder.redact state args).mapError .other
  let (safeMetadata, state) ← (decoder.redact state metadata).mapError .other
  pure ((safeArgs, safeMetadata), state)

/-- Pydantic's check of the strings of an event. -/
def validated (event : AgentTraceEvent σ ν τ) : Except (ImportError σ) (AgentTraceEvent σ ν τ) :=
  if event.texts.all decoder.validText then .ok event else .error (.other "ValidationError")

/-- The arguments of `AgentTraceEvent(…)`, in order. -/
def makeEvent (kind : TraceEventKind) (session : Option σ) (outputKeys : List σ) (safeArgs safeMetadata : List (σ × ν))
    (entries : List (σ × ν)) : Except (ImportError σ) (AgentTraceEvent σ ν τ) := do
  let turnId ← decoder.optStr (decoder.get entries "turn_id")
  let resultStatus ← decoder.optStr ((decoder.get entries "result_status").or (decoder.get entries "status"))
  let inputTokens ← decoder.optInt (decoder.get entries "input_tokens")
  let outputTokens ← decoder.optInt (decoder.get entries "output_tokens")
  let latencyMs ← decoder.optFloat (decoder.get entries "latency_ms")
  let toolSource ← decoder.optStr (decoder.get entries "tool_source")
  decoder.validated
    { sessionId := session.getD (decoder.ofString "__default__"), turnId, event := kind, tool := decoder.toolOf entries,
      args := safeArgs, resultStatus, outputKeys, inputTokens, outputTokens, latencyMs, toolSource,
      timestamp := decoder.optDt (decoder.get entries "timestamp"), metadata := safeMetadata }

/-- The rest of `_coerce_event` for an accepted record. -/
def coerceAccepted (state : ρ) (kind : TraceEventKind) (session : Option σ) (args entries : List (σ × ν)) :
    Except (ImportError σ) (AgentTraceEvent σ ν τ × ρ) := do
  let outputKeys ← decoder.readOutputKeys entries
  let ((safeArgs, safeMetadata), state) ← decoder.redactPayloads state args (decoder.metadataOf entries)
  let event ← decoder.makeEvent kind session outputKeys safeArgs safeMetadata entries
  pure (event, state)

def coerceEntries (state : ρ) (line : Nat) (entries : List (σ × ν)) :
    Except (ImportError σ) (AgentTraceEvent σ ν τ × ρ) := do
  let kind ← decoder.readKind line entries
  let session ← decoder.optStr (decoder.get entries "session_id")
  if kind = .toolCall ∧ decoder.toolOf entries = none then throw (.agentTraceImport .missingTool line)
  match decoder.argsOf entries with
  | some args => decoder.coerceAccepted state kind session args entries
  | none => throw (.agentTraceImport .argsNotObject line)

/-- `_coerce_event`. -/
def coerceEvent (state : ρ) (line : Nat) (value : ν) : Except (ImportError σ) (AgentTraceEvent σ ν τ × ρ) :=
  match decoder.view value with
  | .object entries => decoder.coerceEntries state line entries
  | _ => .error (.agentTraceImport .expectedObject line)

/-- The loop of `parse_agent_trace` over the stripped lines; a blank line is `none`. -/
def parseLines (state : ρ) (line : Nat) : List (Option ℓ) → Except (ImportError σ) (List (AgentTraceEvent σ ν τ))
  | [] => .ok []
  | none :: rest => parseLines state (line + 1) rest
  | some text :: rest =>
    match decoder.loads text with
    | .raised typeName => .error (.other typeName)
    | .jsonDecodeError msg => .error (.agentTraceImport (.invalidJson msg) line)
    | .value value => do
      let (event, state) ← decoder.coerceEvent state line value
      let events ← parseLines state (line + 1) rest
      pure (event :: events)

/-- `parse_agent_trace` with what `splitlines` and `strip` make of the text. -/
def parseAgentTrace (strippedLines : α → List (Option ℓ)) (state : ρ) (text : α) :
    Except (ImportError σ) (List (AgentTraceEvent σ ν τ)) :=
  decoder.parseLines state 1 (strippedLines text)

-- Where the coercions are defined

def Writable (value : ν) : Prop := ∃ text, decoder.str value = .ok text

def OptWritable (value : Option ν) : Prop :=
  ∀ present, value.filter decoder.given = some present → decoder.Writable present

/-- No NaN and no infinity. -/
def IntConvertible (value : Option ν) : Prop :=
  ∀ f, value.map decoder.view = some (.float f) → ∃ q, f = .finite q

/-- No integer beyond the doubles. -/
def FloatConvertible (value : Option ν) : Prop :=
  ∀ i, value.map decoder.view = some (.int i) → i.natAbs < doubleLimit

def optTexts (value : Option ν) : List σ :=
  ((value.filter decoder.given).bind fun present => (decoder.str present).toOption).toList

def outputKeyTexts (entries : List (σ × ν)) : List σ :=
  match decoder.outputKeysOf entries with
  | .inl items => items.filterMap fun item => (decoder.str item).toOption
  | .inr keys => keys

/-- The strings that go into an event. -/
def eventTexts (entries safeArgs safeMetadata : List (σ × ν)) : List σ :=
  ((decoder.optTexts (decoder.get entries "session_id")).headD (decoder.ofString "__default__")) ::
    decoder.optTexts (decoder.get entries "turn_id") ++ (decoder.toolOf entries).toList ++ safeArgs.map Prod.fst ++
    decoder.optTexts ((decoder.get entries "result_status").or (decoder.get entries "status")) ++
    decoder.outputKeyTexts entries ++ decoder.optTexts (decoder.get entries "tool_source") ++ safeMetadata.map Prod.fst

structure FieldsConvertible (entries : List (σ × ν)) : Prop where
  turnId : decoder.OptWritable (decoder.get entries "turn_id")
  resultStatus : decoder.OptWritable ((decoder.get entries "result_status").or (decoder.get entries "status"))
  inputTokens : decoder.IntConvertible (decoder.get entries "input_tokens")
  outputTokens : decoder.IntConvertible (decoder.get entries "output_tokens")
  latencyMs : decoder.FloatConvertible (decoder.get entries "latency_ms")
  toolSource : decoder.OptWritable (decoder.get entries "tool_source")

/-- What an accepted record needs beyond being accepted. -/
structure Coercible (state : ρ) (entries args : List (σ × ν)) : Prop where
  outputKeys : ∀ items, decoder.outputKeysOf entries = .inl items → ∀ item ∈ items, decoder.Writable item
  redactable : ∃ redacted, decoder.redactPayloads state args (decoder.metadataOf entries) = .ok redacted
  fields : decoder.FieldsConvertible entries
  texts : ∀ safeArgs safeMetadata state',
    decoder.redactPayloads state args (decoder.metadataOf entries) = .ok ((safeArgs, safeMetadata), state') →
      ∀ text ∈ decoder.eventTexts entries safeArgs safeMetadata, decoder.validText text = true

/-- The record is of a known kind, names its tool and has an object for arguments. -/
def Accepted (entries args : List (σ × ν)) : Prop :=
  ∃ kind, decoder.kindOf entries = .inl kind ∧ ¬(kind = .toolCall ∧ decoder.toolOf entries = none) ∧
    decoder.argsOf entries = some args

/-- An unknown kind can be written, and so can the session of a known one; an accepted
record can be coerced. -/
structure Importable (state : ρ) (entries : List (σ × ν)) : Prop where
  rawKind : ∀ rawKind, decoder.kindOf entries = .inr rawKind → decoder.Writable rawKind
  session : ∀ kind, decoder.kindOf entries = .inl kind → decoder.OptWritable (decoder.get entries "session_id")
  accepted : ∀ args, decoder.Accepted entries args → decoder.Coercible state entries args

/-- Up to the first record that is refused every line can be imported. -/
def LinesImportable (state : ρ) : List (Option ℓ) → Prop
  | [] => True
  | none :: rest => LinesImportable state rest
  | some text :: rest =>
    match decoder.loads text with
    | .raised _ => False
    | .jsonDecodeError _ => True
    | .value value =>
      match decoder.view value with
      | .object entries =>
        decoder.Importable state entries ∧ ∀ args, decoder.Accepted entries args → ∀ payloads state',
          decoder.redactPayloads state args (decoder.metadataOf entries) = .ok (payloads, state') →
            LinesImportable state' rest
      | _ => True

variable {decoder}

omit [DecidableEq σ] in
theorem str_foreign (value : ν) : Foreign (decoder.str value) := by
  unfold str
  split
  · exact nofun
  · exact foreign_mapError

theorem optStr_foreign (value : Option ν) : Foreign (decoder.optStr value) := by
  unfold optStr
  split
  · exact nofun
  · exact foreign_map (str_foreign _)

omit [DecidableEq σ] in
theorem optInt_foreign (value : Option ν) : Foreign (decoder.optInt value) := by
  unfold optInt
  split
  · exact nofun
  · exact nofun
  · exact fun e he => ⟨_, (Except.error.inj he).symm⟩
  · exact fun e he => ⟨_, (Except.error.inj he).symm⟩
  · exact nofun

omit [DecidableEq σ] in
theorem optFloat_foreign (value : Option ν) : Foreign (decoder.optFloat value) := by
  unfold optFloat
  split
  · split
    · exact nofun
    · exact fun e he => ⟨_, (Except.error.inj he).symm⟩
  · exact nofun
  · exact nofun

theorem readOutputKeys_foreign (entries : List (σ × ν)) : Foreign (decoder.readOutputKeys entries) := by
  unfold readOutputKeys
  split
  · exact mapM_foreign str_foreign _
  · exact nofun

omit [DecidableEq σ] in
theorem redactPayloads_foreign (state : ρ) (args metadata : List (σ × ν)) :
    Foreign (decoder.redactPayloads state args metadata) :=
  foreign_mapError.bind fun _ _ => foreign_mapError.bind fun _ _ => foreign_pure

theorem makeEvent_foreign {kind : TraceEventKind} {session : Option σ} {outputKeys : List σ}
    {safeArgs safeMetadata entries : List (σ × ν)} :
    Foreign (decoder.makeEvent kind session outputKeys safeArgs safeMetadata entries) := by
  unfold makeEvent
  refine (optStr_foreign _).bind fun _ _ => (optStr_foreign _).bind fun _ _ => ?_
  refine (optInt_foreign _).bind fun _ _ => (optInt_foreign _).bind fun _ _ => ?_
  refine (optFloat_foreign _).bind fun _ _ => (optStr_foreign _).bind fun _ _ => ?_
  unfold validated
  split
  · exact foreign_pure
  · exact fun e he => ⟨_, (Except.error.inj he).symm⟩

-- Each coercion is defined where it should be

theorem optStr_ok_iff {value : Option ν} : (∃ text, decoder.optStr value = .ok text) ↔ decoder.OptWritable value := by
  unfold optStr OptWritable
  cases hvalue : value.filter decoder.given with
  | none => exact iff_of_true ⟨none, rfl⟩ nofun
  | some present =>
    constructor
    · rintro ⟨text, htext⟩ _ ⟨⟩
      obtain ⟨found, hfound, _⟩ := Attempt.bind_eq_ok.1 ((map_eq_pure_bind _ _).symm.trans htext)
      exact ⟨found, hfound⟩
    · intro h
      obtain ⟨text, htext⟩ := h present rfl
      exact ⟨some text, by simp [htext, Except.map]⟩

omit [DecidableEq σ] in
theorem optInt_ok_iff {value : Option ν} : (∃ n, decoder.optInt value = .ok n) ↔ decoder.IntConvertible value := by
  unfold optInt IntConvertible
  rcases value.map decoder.view with _ | view
  · exact iff_of_true ⟨none, rfl⟩ nofun
  cases view with
  | float f =>
    cases f with
    | finite q => exact iff_of_true ⟨_, rfl⟩ fun _ hf => by cases hf; exact ⟨q, rfl⟩
    | infinite | negInfinite | nan =>
      refine iff_of_false (fun ⟨_, h⟩ => by cases h) fun h => ?_
      obtain ⟨q, hq⟩ := h _ rfl
      cases hq
  | null | bool | int | str | array | object => exact iff_of_true ⟨_, rfl⟩ nofun

omit [DecidableEq σ] in
theorem optFloat_ok_iff {value : Option ν} :
    (∃ x, decoder.optFloat value = .ok x) ↔ decoder.FloatConvertible value := by
  unfold optFloat FloatConvertible
  rcases value.map decoder.view with _ | view
  · exact iff_of_true ⟨none, rfl⟩ nofun
  cases view with
  | int i =>
    by_cases hi : i.natAbs < doubleLimit
    · exact iff_of_true ⟨_, if_pos hi⟩ fun _ h => by cases h; exact hi
    · refine iff_of_false (fun ⟨_, h⟩ => ?_) fun h => hi (h i rfl)
      simp only [if_neg hi] at h
      cases h
  | null | bool | float | str | array | object => exact iff_of_true ⟨_, rfl⟩ nofun

theorem readOutputKeys_ok_iff {entries : List (σ × ν)} : (∃ keys, decoder.readOutputKeys entries = .ok keys) ↔
    ∀ items, decoder.outputKeysOf entries = .inl items → ∀ item ∈ items, decoder.Writable item := by
  unfold readOutputKeys
  cases houtput : decoder.outputKeysOf entries with
  | inl items => exact Attempt.exists_mapM_ok.trans ⟨fun h _ heq => by cases heq; exact h, fun h => h items rfl⟩
  | inr keys => exact iff_of_true ⟨keys, rfl⟩ nofun

theorem optTexts_eq {value : Option ν} (h : decoder.optStr value = .ok text) :
    decoder.optTexts value = text.toList := by
  unfold optStr at h
  unfold optTexts
  split at h
  · next hnone =>
    cases h
    simp [hnone]
  · next present hsome =>
    cases hstr : decoder.str present with
    | ok found =>
      rw [hstr] at h
      obtain rfl := Except.ok.inj h
      simp [hsome, hstr, Except.toOption]
    | error e =>
      rw [hstr] at h
      cases h

theorem outputKeyTexts_eq {entries : List (σ × ν)} (h : decoder.readOutputKeys entries = .ok keys) :
    decoder.outputKeyTexts entries = keys := by
  unfold readOutputKeys at h
  unfold outputKeyTexts
  cases houtput : decoder.outputKeysOf entries with
  | inl items =>
    simp only [houtput] at h ⊢
    have hall := Attempt.mapM_eq_ok.1 h
    clear h houtput
    induction hall with
    | nil => rfl
    | cons hfirst _ ih => rw [List.filterMap_cons, hfirst, ← ih]; rfl
  | inr keys' =>
    rw [houtput] at h
    exact Except.ok.inj h

omit [DecidableEq σ] in
theorem validated_ok_iff {event : AgentTraceEvent σ ν τ} :
    (∃ checked, decoder.validated event = .ok checked) ↔ ∀ text ∈ event.texts, decoder.validText text = true := by
  unfold validated
  split
  · next hall => exact iff_of_true ⟨_, rfl⟩ (List.all_eq_true.1 hall)
  · next hall => exact iff_of_false (fun ⟨_, h⟩ => by cases h) fun h => hall (List.all_eq_true.2 h)

theorem makeEvent_ok_iff {kind : TraceEventKind} {entries safeArgs safeMetadata : List (σ × ν)}
    (hsession : decoder.optStr (decoder.get entries "session_id") = .ok session)
    (hkeys : decoder.readOutputKeys entries = .ok outputKeys) :
    (∃ event, decoder.makeEvent kind session outputKeys safeArgs safeMetadata entries = .ok event) ↔
      decoder.FieldsConvertible entries ∧
        ∀ text ∈ decoder.eventTexts entries safeArgs safeMetadata, decoder.validText text = true := by
  have hsessionText : (decoder.optTexts (decoder.get entries "session_id")).headD (decoder.ofString "__default__") =
      session.getD (decoder.ofString "__default__") := by
    rw [optTexts_eq hsession]
    cases session <;> rfl
  unfold makeEvent
  simp only [Attempt.exists_bind_ok]
  constructor
  · rintro ⟨turnId, hturn, resultStatus, hstatus, inputTokens, hinput, outputTokens, houtput, latencyMs, hlatency,
      toolSource, hsource, hevent⟩
    refine ⟨⟨optStr_ok_iff.1 ⟨_, hturn⟩, optStr_ok_iff.1 ⟨_, hstatus⟩, optInt_ok_iff.1 ⟨_, hinput⟩,
      optInt_ok_iff.1 ⟨_, houtput⟩, optFloat_ok_iff.1 ⟨_, hlatency⟩, optStr_ok_iff.1 ⟨_, hsource⟩⟩, ?_⟩
    rw [eventTexts, hsessionText, optTexts_eq hturn, optTexts_eq hstatus, optTexts_eq hsource, outputKeyTexts_eq hkeys]
    exact validated_ok_iff.1 hevent
  · rintro ⟨h, htexts⟩
    obtain ⟨turnId, hturn⟩ := optStr_ok_iff.2 h.turnId
    obtain ⟨resultStatus, hstatus⟩ := optStr_ok_iff.2 h.resultStatus
    obtain ⟨inputTokens, hinput⟩ := optInt_ok_iff.2 h.inputTokens
    obtain ⟨outputTokens, houtput⟩ := optInt_ok_iff.2 h.outputTokens
    obtain ⟨latencyMs, hlatency⟩ := optFloat_ok_iff.2 h.latencyMs
    obtain ⟨toolSource, hsource⟩ := optStr_ok_iff.2 h.toolSource
    rw [eventTexts, hsessionText, optTexts_eq hturn, optTexts_eq hstatus, optTexts_eq hsource, outputKeyTexts_eq hkeys]
      at htexts
    exact ⟨turnId, hturn, resultStatus, hstatus, inputTokens, hinput, outputTokens, houtput, latencyMs, hlatency,
      toolSource, hsource, validated_ok_iff.2 htexts⟩

-- Containment

theorem readKind_errorsIn {entries : List (σ × ν)} {line : Nat} :
    ErrorsIn ImportError.documented (decoder.readKind line entries) ↔
      ∀ rawKind, decoder.kindOf entries = .inr rawKind → decoder.Writable rawKind := by
  unfold readKind
  cases hkind : decoder.kindOf entries with
  | inl kind => exact iff_of_true nofun nofun
  | inr rawKind =>
    rw [Attempt.errorsIn_bind, (str_foreign rawKind).errorsIn]
    refine ⟨fun h _ heq => by cases heq; exact h.1, fun h => ⟨h rawKind rfl, fun text _ => ?_⟩⟩
    exact Attempt.errorsIn_error.2 trivial

/-- From the arguments on only undocumented errors are raised. -/
theorem coerceAccepted_errorsIn {kind : TraceEventKind} {state : ρ} {entries args : List (σ × ν)}
    (hsession : decoder.optStr (decoder.get entries "session_id") = .ok session) :
    ErrorsIn ImportError.documented (decoder.coerceAccepted state kind session args entries) ↔
      decoder.Coercible state entries args := by
  have hforeign : Foreign (decoder.coerceAccepted state kind session args entries) :=
    (readOutputKeys_foreign _).bind fun _ _ => (redactPayloads_foreign _ _ _).bind fun _ _ =>
      makeEvent_foreign.bind fun _ _ => foreign_pure
  rw [hforeign.errorsIn]
  unfold coerceAccepted
  simp only [Attempt.exists_bind_ok]
  constructor
  · rintro ⟨keys, hkeys, ⟨⟨safeArgs, safeMetadata⟩, state'⟩, hredact, event, hevent, -⟩
    obtain ⟨hfields, htexts⟩ := (makeEvent_ok_iff hsession hkeys).1 ⟨event, hevent⟩
    refine ⟨readOutputKeys_ok_iff.1 ⟨keys, hkeys⟩, ⟨_, hredact⟩, hfields, fun sa sm s' hsame => ?_⟩
    cases hredact.symm.trans hsame
    exact htexts
  · intro h
    obtain ⟨keys, hkeys⟩ := readOutputKeys_ok_iff.2 h.outputKeys
    obtain ⟨⟨⟨safeArgs, safeMetadata⟩, state'⟩, hredact⟩ := h.redactable
    obtain ⟨event, hevent⟩ := (makeEvent_ok_iff hsession hkeys).2 ⟨h.fields, h.texts _ _ _ hredact⟩
    exact ⟨keys, hkeys, _, hredact, event, hevent, _, rfl⟩

theorem coerceEntries_errorsIn {state : ρ} {line : Nat} {entries : List (σ × ν)} :
    ErrorsIn ImportError.documented (decoder.coerceEntries state line entries) ↔ decoder.Importable state entries := by
  unfold coerceEntries
  rw [Attempt.errorsIn_bind, readKind_errorsIn]
  cases hkind : decoder.kindOf entries with
  | inr rawKind =>
    constructor
    · rintro ⟨hraw, -⟩
      refine ⟨fun _ heq => hraw _ (hkind ▸ heq), fun kind heq => ?_, fun args haccepted => ?_⟩
      · cases hkind.symm.trans heq
      · obtain ⟨kind, heq, _⟩ := haccepted
        cases hkind.symm.trans heq
    · intro h
      refine ⟨fun _ heq => h.rawKind _ (hkind.trans heq), fun kind hread => ?_⟩
      simp only [readKind, hkind] at hread
      obtain ⟨_, _, hthrow⟩ := Attempt.bind_eq_ok.1 hread
      cases hthrow
  | inl kind =>
    have hread : decoder.readKind line entries = .ok kind := by simp only [readKind, hkind]
    have haccepted : ∀ {args}, decoder.Accepted entries args →
        ¬(kind = .toolCall ∧ decoder.toolOf entries = none) ∧ decoder.argsOf entries = some args := by
      rintro args ⟨found, hfound, hrest⟩
      cases hkind.symm.trans hfound
      exact hrest
    rw [hread]
    simp only [Except.ok.injEq, forall_eq']
    rw [Attempt.errorsIn_bind, (optStr_foreign _).errorsIn, optStr_ok_iff]
    constructor
    · rintro ⟨-, hsession, hlater⟩
      refine ⟨fun rawKind heq => ?_, fun _ _ => hsession, fun args h => ?_⟩
      · cases hkind.symm.trans heq
      · obtain ⟨htool, hargs⟩ := haccepted h
        obtain ⟨session, hstr⟩ := optStr_ok_iff.2 hsession
        have hcoerced := hlater session hstr
        simp only [if_neg htool, hargs] at hcoerced
        exact (coerceAccepted_errorsIn hstr).1 hcoerced
    · intro h
      refine ⟨fun _ heq => (by cases heq), h.session kind hkind, fun session hstr => ?_⟩
      split
      · exact Attempt.errorsIn_error.2 (trivial : ImportError.documented (.agentTraceImport _ _))
      · next htool =>
        cases hargs : decoder.argsOf entries with
        | some args => exact (coerceAccepted_errorsIn hstr).2 (h.accepted args ⟨kind, hkind, htool, hargs⟩)
        | none => exact Attempt.errorsIn_error.2 (trivial : ImportError.documented (.agentTraceImport _ _))

/-- A record that is coerced was accepted, and its payloads were redacted. -/
theorem coerceEntries_ok {state state' : ρ} {line : Nat} {entries : List (σ × ν)} {event : AgentTraceEvent σ ν τ}
    (h : decoder.coerceEntries state line entries = .ok (event, state')) :
    ∃ args payloads, decoder.Accepted entries args ∧
      decoder.redactPayloads state args (decoder.metadataOf entries) = .ok (payloads, state') := by
  obtain ⟨kind, hkind, h⟩ := Attempt.bind_eq_ok.1 h
  obtain ⟨session, hsession, h⟩ := Attempt.bind_eq_ok.1 h
  have hkindOf : decoder.kindOf entries = .inl kind := by
    unfold readKind at hkind
    split at hkind
    · next heq => exact heq.trans (congrArg Sum.inl (Except.ok.inj hkind))
    · obtain ⟨_, _, hthrow⟩ := Attempt.bind_eq_ok.1 hkind
      cases hthrow
  by_cases htool : kind = .toolCall ∧ decoder.toolOf entries = none
  · simp only [if_pos htool] at h
    obtain ⟨_, hthrow, _⟩ := Attempt.bind_eq_ok.1 h
    cases hthrow
  · simp only [if_neg htool] at h
    cases hargs : decoder.argsOf entries with
    | none =>
      rw [hargs] at h
      cases h
    | some args =>
      rw [hargs] at h
      obtain ⟨keys, _, h⟩ := Attempt.bind_eq_ok.1 h
      obtain ⟨⟨payloads, state''⟩, hredact, h⟩ := Attempt.bind_eq_ok.1 h
      obtain ⟨_, _, h⟩ := Attempt.bind_eq_ok.1 h
      cases h
      exact ⟨args, payloads, ⟨kind, hkindOf, htool, hargs⟩, hredact⟩

/-- An accepted record that can be imported is coerced. -/
theorem coerceEntries_of_importable {state state' : ρ} {line : Nat} {entries args : List (σ × ν)}
    {payloads : List (σ × ν) × List (σ × ν)} (h : decoder.Importable state entries)
    (haccepted : decoder.Accepted entries args)
    (hredact : decoder.redactPayloads state args (decoder.metadataOf entries) = .ok (payloads, state')) :
    ∃ event, decoder.coerceEntries state line entries = .ok (event, state') := by
  obtain ⟨kind, hkind, htool, hargs⟩ := haccepted
  have hcoercible := h.accepted args ⟨kind, hkind, htool, hargs⟩
  obtain ⟨session, hsession⟩ := optStr_ok_iff.2 (h.session kind hkind)
  obtain ⟨keys, hkeys⟩ := readOutputKeys_ok_iff.2 hcoercible.outputKeys
  obtain ⟨event, hevent⟩ := (makeEvent_ok_iff hsession hkeys).2 ⟨hcoercible.fields, hcoercible.texts _ _ _ hredact⟩
  refine ⟨event, Attempt.bind_eq_ok.2 ⟨kind, by simp only [readKind, hkind], ?_⟩⟩
  refine Attempt.bind_eq_ok.2 ⟨session, hsession, ?_⟩
  simp only [if_neg htool, hargs]
  exact Attempt.bind_eq_ok.2 ⟨keys, hkeys, Attempt.bind_eq_ok.2 ⟨_, hredact,
    Attempt.bind_eq_ok.2 ⟨event, hevent, rfl⟩⟩⟩

theorem parseLines_errorsIn (lines : List (Option ℓ)) (state : ρ) (line : Nat) :
    ErrorsIn ImportError.documented (decoder.parseLines state line lines) ↔ decoder.LinesImportable state lines := by
  induction lines generalizing state line with
  | nil => exact iff_of_true nofun trivial
  | cons stripped rest ih =>
    cases stripped with
    | none => exact ih state (line + 1)
    | some text =>
      rw [parseLines, LinesImportable]
      cases hloads : decoder.loads text with
      | raised typeName => exact iff_of_false (fun h => Attempt.errorsIn_error.1 h) id
      | jsonDecodeError msg => exact iff_of_true (Attempt.errorsIn_error.2 trivial) trivial
      | value value =>
        have hrest : ∀ {event : AgentTraceEvent σ ν τ} {state' : ρ},
            ErrorsIn ImportError.documented (do
              let events ← decoder.parseLines state' (line + 1) rest
              pure (event :: events)) ↔ decoder.LinesImportable state' rest := by
          intro event state'
          rw [Attempt.errorsIn_bind, ih]
          exact and_iff_left fun _ _ => nofun
        dsimp only
        rw [Attempt.errorsIn_bind, coerceEvent]
        cases hview : decoder.view value with
        | object entries =>
          dsimp only
          rw [coerceEntries_errorsIn]
          refine and_congr_right fun himportable => ?_
          constructor
          · intro h args haccepted payloads state' hredact
            obtain ⟨event, hevent⟩ := coerceEntries_of_importable himportable haccepted hredact
            exact hrest.1 (h (event, state') hevent)
          · intro h coerced hcoerced
            obtain ⟨event, state'⟩ := coerced
            obtain ⟨args, payloads, haccepted, hredact⟩ := coerceEntries_ok hcoerced
            exact hrest.2 (h args haccepted payloads state' hredact)
        | null | bool | int | float | str | array =>
          refine iff_of_true ⟨Attempt.errorsIn_error.2 trivial, fun coerced hcoerced => ?_⟩ trivial
          cases hcoerced

/-- The import gives events or raises its own error, exactly if every line can be imported
up to the first that is refused. -/
theorem import_contained (decoder : Decoder σ ν ℓ τ ρ) (strippedLines : α → List (Option ℓ)) (state : ρ) (text : α) :
    ErrorsIn ImportError.documented (decoder.parseAgentTrace strippedLines state text) ↔
      decoder.LinesImportable state (strippedLines text) :=
  parseLines_errorsIn _ _ _

end Decoder

-- A line that escapes

def viewJson : Json → JsonView String Json
  | .null => .null
  | .bool b => .bool b
  | .int i => .int i
  | .float f => .float f
  | .str s => .str s
  | .array items => .array items
  | .object entries => .object entries

def nanLine : String := "\x7b\"tool\": \"search\", \"input_tokens\": NaN\x7d"

/-- A decoder of the one line. -/
def nanDecoder : Decoder String Json String Unit Unit where
  ofString := id
  view := viewJson
  loads line :=
    if line = nanLine then .value (.object [("tool", .str "search"), ("input_tokens", .float .nan)])
    else .jsonDecodeError "Expecting value"
  repr _ := .ok "nan"
  toDouble i := .finite i
  fromIsoFormat _ := none
  redact state entries := .ok (entries, state)

/-- The JSON decoder takes NaN, and `int` of it raises. -/
theorem import_escapes :
    ¬∀ (decoder : Decoder String Json String Unit Unit) (text : String),
      ErrorsIn ImportError.documented (decoder.parseAgentTrace (fun line => [some line]) () text) := by
  intro h
  have hraises : nanDecoder.parseAgentTrace (fun line => [some line]) () nanLine = .error (.other "ValueError") := by
    rfl
  exact h nanDecoder nanLine _ hraises

end ChainWeaver.TraceImport
