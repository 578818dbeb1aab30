import ChainWeaver.Data.Cursor
import ChainWeaver.Data.Machine
import ChainWeaver.KeyOrder
import ChainWeaver.Redaction
import Mathlib.Logic.Function.Basic

/-!
# Recorded tool calls

`testing/replay.py`: the calls of a recording session are saved to a fixture,
and a replay session serves them again.
-/

namespace ChainWeaver

-- Values as JSON has them

/-- `str` of the values that JSON has no form for. -/
structure StrText where
  set : List Value → String
  object : String → String → String

namespace Value

mutual

/-- `json.loads(json.dumps(value, default=str))` -/
def jsonSafe (text : StrText) : Value → Value
  | .list items => .list (jsonSafeItems text items)
  | .tuple items => .list (jsonSafeItems text items)
  | .set items => .str (text.set items)
  | .obj typeName repr => .str (text.object typeName repr)
  | .dict entries => .dict (jsonSafeEntries text entries)
  | value => value

def jsonSafeItems (text : StrText) : List Value → List Value
  | [] => []
  | item :: rest => jsonSafe text item :: jsonSafeItems text rest

def jsonSafeEntries (text : StrText) : List (String × Value) → List (String × Value)
  | [] => []
  | (key, value) :: rest => (key, jsonSafe text value) :: jsonSafeEntries text rest

end

mutual

/-- Numbers by their exact value: `True == 1 == 1.0`. -/
def numeric : Value → Value
  | .bool b => .int b.toNat
  | .float (.finite value) => if value.den = 1 then .int value.num else .float (.finite value)
  | .list items => .list (numericItems items)
  | .tuple items => .tuple (numericItems items)
  | .set items => .set (numericItems items)
  | .dict entries => .dict (numericEntries entries)
  | value => value

def numericItems : List Value → List Value
  | [] => []
  | item :: rest => numeric item :: numericItems rest

def numericEntries : List (String × Value) → List (String × Value)
  | [] => []
  | (key, value) :: rest => (key, numeric value) :: numericEntries rest

end

mutual

def beq : Value → Value → Bool
  | .null, .null => true
  | .bool a, .bool b => a = b
  | .int a, .int b => a = b
  | .float a, .float b => a = b
  | .str a, .str b => a = b
  | .list a, .list b => beqItems a b
  | .tuple a, .tuple b => beqItems a b
  | .set a, .set b => beqItems a b
  | .dict a, .dict b => beqEntries a b
  | .obj a s, .obj b t => a = b && s = t
  | _, _ => false

def beqItems : List Value → List Value → Bool
  | [], [] => true
  | a :: as, b :: bs => beq a b && beqItems as bs
  | _, _ => false

def beqEntries : List (String × Value) → List (String × Value) → Bool
  | [], [] => true
  | (key, a) :: as, (name, b) :: bs => key = name && beq a b && beqEntries as bs
  | _, _ => false

end

mutual

theorem beq_iff (a b : Value) : beq a b = true ↔ a = b := by
  cases a with
  | list items | tuple items | set items => cases b <;> simp [beq, beqItems_iff items]
  | dict entries => cases b <;> simp [beq, beqEntries_iff entries]
  | _ => cases b <;> simp [beq]

theorem beqItems_iff (as bs : List Value) : beqItems as bs = true ↔ as = bs := by
  match as, bs with
  | [], [] | [], _ :: _ | _ :: _, [] => simp [beqItems]
  | a :: as, b :: bs => simp [beqItems, beq_iff a b, beqItems_iff as bs]

theorem beqEntries_iff (as bs : List (String × Value)) : beqEntries as bs = true ↔ as = bs := by
  match as, bs with
  | [], [] | [], _ :: _ | _ :: _, [] => simp [beqEntries]
  | (key, a) :: as, (name, b) :: bs => simp [beqEntries, beq_iff a b, beqEntries_iff as bs]

end

instance : DecidableEq Value := fun a b => decidable_of_iff _ (beq_iff a b)

/-- `a == b` of values that a JSON decoder built. All its NaNs are one object, and
containers compare their elements by identity first. -/
def equal (a b : Value) : Bool := a.numeric.sorted = b.numeric.sorted

end Value

def jsonSafe (text : StrText) (data : Dict) : Dict := .ofList (Value.jsonSafeEntries text data.entries)

-- Recording

structure ToolCall where
  toolName : String
  /-- `validated_input.model_dump()` -/
  input : Dict

/-- The calls of a recording session, each with what its tool returned, if it did. -/
abbrev Recorded := List (ToolCall × Option Dict)

structure RecordReplay where
  /-- `str` in the recording process. -/
  recording : StrText
  /-- `str` in the replaying process. -/
  replaying : StrText
  /-- `str.lower` -/
  lower : String → String
  redaction : RedactionPolicy := {}
  fixturePath : String
  repr : Value → String

structure FixtureStaleError where
  toolName : String
  fixturePath : String
  attemptedInput : Dict
  detail : String

namespace RecordReplay

structure Interaction where
  toolName : String
  input : Dict
  output : Dict

variable (session : RecordReplay)

/-- A call that raises is not recorded. -/
def record (interactions : List Interaction) (call : ToolCall × Option Dict) : List Interaction :=
  match call.2 with
  | some output =>
    interactions ++ [⟨call.1.toolName, jsonSafe session.recording call.1.input, jsonSafe session.recording output⟩]
  | none => interactions

def recordAll (calls : Recorded) : List Interaction := calls.foldl session.record []

-- The fixture

def fixtureFormatVersion : Int := 1

def Interaction.payload (item : Interaction) : Value :=
  .dict [("tool_name", .str item.toolName), ("input", .dict item.input.entries), ("output", .dict item.output.entries)]

def redacted (item : Interaction) : Interaction where
  toolName := item.toolName
  input := session.redaction.redact session.lower item.input
  output := session.redaction.redact session.lower item.output

/-- The writer of `json.dumps(payload, default=str)`. -/
def writer : JsonWriter where
  nonFinite := true
  setText := some session.recording.set
  other := fun typeName repr => some (.str (session.recording.object typeName repr))

def saveFixture (interactions : List Interaction) : Option Json :=
  let payload := Value.dict [("version", .int fixtureFormatVersion),
    ("interactions", .list (interactions.map fun item => Interaction.payload (session.redacted item)))]
  (session.writer.write payload).map Json.sorted

def listRepr (names : List String) : String :=
  "[" ++ ", ".intercalate (names.map fun name => "'" ++ name ++ "'") ++ "]"

def validateInteraction (idx : Nat) (item : Value) : Except String Interaction :=
  let malformed := s!"Replay fixture '{session.fixturePath}' is malformed: interaction {idx} "
  match item with
  | .dict entries =>
    let missing := ["input", "output", "tool_name"].filter fun key => (entries.lookup key).isNone
    if missing ≠ [] then .error (malformed ++ s!"is missing key(s) {listRepr missing}.")
    else
      match entries.lookup "tool_name", entries.lookup "input", entries.lookup "output" with
      | some (.str toolName), some (.dict input), some (.dict output) =>
        .ok ⟨toolName, .ofList input, .ofList output⟩
      | some (.str _), _, _ => .error (malformed ++ "'input' and 'output' must be objects.")
      | _, _, _ => .error (malformed ++ "'tool_name' must be a string.")
  | other => .error (malformed ++ s!"must be an object, got '{other.typeName}'.")

def validateInteractions (idx : Nat) : List Value → Except String (List Interaction)
  | [] => .ok []
  | item :: rest => do
    let item ← session.validateInteraction idx item
    let rest ← validateInteractions (idx + 1) rest
    pure (item :: rest)

/-- `_load_fixture` on the text of a file. -/
def loadFixture (document : Json) : Except String (List Interaction) :=
  match document.read with
  | .dict entries =>
    let version := (entries.lookup "version").getD .null
    if !version.equal (.int fixtureFormatVersion) then
      .error (s!"Replay fixture '{session.fixturePath}' has unsupported version {session.repr version} " ++
        s!"(expected {fixtureFormatVersion}).")
    else
      match (entries.lookup "interactions").getD (.list []) with
      | .list items => session.validateInteractions 0 items
      | _ => .error s!"Replay fixture '{session.fixturePath}' is malformed: 'interactions' must be a list."
  | _ => .error s!"Replay fixture '{session.fixturePath}' is malformed: expected an object."

-- Replaying

/-- The tool's name and the input's text, by its tree with the keys in order. -/
abbrev CanonicalKey := String × Value

def canonicalKey (toolName : String) (input : Dict) : CanonicalKey := (toolName, (Value.dict input.entries).sorted)

abbrev Cursors := CanonicalKey → Nat

/-- `candidate["tool_name"] == tool_name and candidate["input"] == attempted_input` -/
def isMatch (toolName : String) (attemptedInput : Dict) (candidate : Interaction) : Bool :=
  candidate.toolName = toolName && (Value.dict candidate.input.entries).equal (.dict attemptedInput.entries)

def consumeRecording (interactions : List Interaction) (cursors : Cursors) (toolName : String)
    (attemptedInput : Dict) : Except FixtureStaleError Dict × Cursors :=
  let key := canonicalKey toolName attemptedInput
  match Cursor.find (isMatch toolName attemptedInput) interactions (cursors key) with
  | some (idx, candidate) => (.ok candidate.output, Function.update cursors key (idx + 1))
  | none =>
    let detail :=
      if interactions.any (isMatch toolName attemptedInput) then "no more recordings for this (tool, input) pair."
      else "this (tool, input) pair was not in the recording."
    (.error { toolName, fixturePath := session.fixturePath, attemptedInput, detail }, cursors)

def attempted (call : ToolCall) : Dict := jsonSafe session.replaying call.input

/-- A replay session with the recordings of a fixture. -/
def replayer (interactions : List Interaction) : Machine ToolCall (Except FixtureStaleError Dict) where
  State := Cursors
  start _ := 0
  step cursors call := session.consumeRecording interactions cursors call.toolName (session.attempted call)

end RecordReplay

end ChainWeaver
