import ChainWeaver.Data.Machine
import ChainWeaver.JsonText
import ChainWeaver.Redaction

/-!
# Trace stores

`trace_store.py`: the store in memory and the store in a JSONL file, as machines
that answer the operations of the protocol.
-/

namespace ChainWeaver

-- The JSON document of a result

namespace ApprovalRecord

def tree (record : ApprovalRecord) : Json :=
  .object
    [("decision", .str (match record.decision with | .approve => "approve" | .deny => "deny")),
     ("reason", record.reason.elim .null .str)]

end ApprovalRecord

namespace DecisionRecord

def tree (record : DecisionRecord) : Json :=
  .object
    [("candidates", .array (record.candidates.map .str)),
     ("chosen", .str record.chosen),
     ("default_tool_name", .str record.defaultToolName),
     ("timed_out", .bool record.timedOut)]

end DecisionRecord

section
variable (writer : JsonWriter)

def dictTree (data : Dict) : Option Json := (writer.writeEntries data.entries).map .object

def optionalDictTree : Option Dict → Option Json
  | some data => dictTree writer data
  | none => some .null

mutual

def StepRecord.tree : StepRecord → Option Json
  | ⟨stepIndex, toolName, inputs, outputs, errorType, errorMessage, success, retryCount, retryErrors, skipped,
      cached, fallbackUsed, fallbackToolName, flowName, subResult, approval, decision⟩ => do
    let inputs ← dictTree writer inputs
    let outputs ← optionalDictTree writer outputs
    let subResult ← subResultTree subResult
    pure (.object
      [("step_index", .int stepIndex), ("tool_name", .str toolName), ("inputs", inputs), ("outputs", outputs),
       ("error_type", errorType.elim .null .str), ("error_message", errorMessage.elim .null .str),
       ("success", .bool success), ("retry_count", .int retryCount),
       ("retry_errors", .array (retryErrors.map .str)), ("skipped", .bool skipped), ("cached", .bool cached),
       ("fallback_used", .bool fallbackUsed), ("fallback_tool_name", fallbackToolName.elim .null .str),
       ("flow_name", flowName.elim .null .str), ("sub_result", subResult),
       ("approval", approval.elim .null ApprovalRecord.tree),
       ("decision", decision.elim .null DecisionRecord.tree)])

def logTrees : List StepRecord → Option (List Json)
  | [] => some []
  | step :: rest => do
    let step ← StepRecord.tree step
    let rest ← logTrees rest
    pure (step :: rest)

def subResultTree : Option ExecutionResult → Option Json
  | some result => ExecutionResult.tree result
  | none => some .null

def ExecutionResult.tree : ExecutionResult → Option Json
  | ⟨flowName, flowVersion, success, finalOutput, executionLog, traceId, initialInput, dryRun, _⟩ => do
    let finalOutput ← optionalDictTree writer finalOutput
    let executionLog ← logTrees executionLog
    let initialInput ← dictTree writer initialInput
    pure (.object
      [("flow_name", .str flowName), ("flow_version", .str flowVersion), ("success", .bool success),
       ("final_output", finalOutput), ("execution_log", .array executionLog), ("trace_id", .str traceId),
       ("initial_input", initialInput), ("dry_run", .bool dryRun)])

end

end

-- Operations

inductive TraceOp
  | save (result : ExecutionResult)
  | load (traceId : String)
  | listTraceIds
  | delete (traceId : String)
  | len

inductive TraceAnswer
  | done
  /-- Pydantic cannot serialize a value. -/
  | unserializable
  | trace (result : Option ExecutionResult)
  | traceIds (ids : List String)
  | count (n : Nat)

namespace InMemoryTraceStore

abbrev Traces := OrderedDict ExecutionResult

def save (result : ExecutionResult) (traces : Traces) : Traces :=
  (traces.erase result.traceId).insert result.traceId result

def step (traces : Traces) : TraceOp → TraceAnswer × Traces
  | .save result => (.done, save result traces)
  | .load traceId => (.trace (traces.get? traceId), traces)
  | .listTraceIds => (.traceIds traces.keys, traces)
  | .delete traceId => (.done, traces.erase traceId)
  | .len => (.count traces.entries.length, traces)

def machine : Machine TraceOp TraceAnswer where
  State := Traces
  start := .empty
  step := step

end InMemoryTraceStore

structure FileTraceStore where
  /-- `model_dump_json` of an untyped value. -/
  writer : JsonWriter
  floats : FloatText
  /-- `ExecutionResult.model_validate_json`, `none` where it raises `ValueError`. -/
  validate : Text → Option ExecutionResult
  lower : String → String := id
  redactionPolicy : Option RedactionPolicy := none
  maxTraces : Option Nat := none
  positive : ∀ m ∈ maxTraces, 0 < m := by simp

namespace FileTraceStore

variable (store : FileTraceStore)

def dumpJson (result : ExecutionResult) : Option Text :=
  (result.tree store.writer).map (Json.text store.floats)

/-- The content of the file, `none` if there is no file. -/
abbrev File := Option Text

def readAll : File → List ExecutionResult
  | none => []
  | some text => (((splitlines text).map strip).filter fun line => !line.isEmpty).filterMap store.validate

def payload : List ExecutionResult → Option Text
  | [] => some []
  | result :: rest => do
    let line ← store.dumpJson result
    let rest ← payload rest
    pure (line ++ '\n' :: rest)

def writeAll (results : List ExecutionResult) (file : File) : TraceAnswer × File :=
  match store.payload results with
  | some text => (.done, some text)
  | none => (.unserializable, file)

def redacted (result : ExecutionResult) : ExecutionResult :=
  match store.redactionPolicy with
  | some policy => policy.redactExecutionResult store.lower result
  | none => result

/-- `results[-n:]` -/
def newest (n : Nat) (results : List α) : List α := results.drop (results.length - n)

def rotated (results : List ExecutionResult) : List ExecutionResult :=
  match store.maxTraces with
  | some m => if results.length > m then newest m results else results
  | none => results

def without (traceId : String) (results : List ExecutionResult) : List ExecutionResult :=
  results.filter fun result => result.traceId ≠ traceId

def save (result : ExecutionResult) (file : File) : TraceAnswer × File :=
  let result := store.redacted result
  store.writeAll (store.rotated (without result.traceId (store.readAll file) ++ [result])) file

def step (file : File) : TraceOp → TraceAnswer × File
  | .save result => store.save result file
  | .load traceId => (.trace ((store.readAll file).find? fun result => result.traceId = traceId), file)
  | .listTraceIds => (.traceIds ((store.readAll file).map (·.traceId)), file)
  | .delete traceId => store.writeAll (without traceId (store.readAll file)) file
  | .len => (.count (store.readAll file).length, file)

/-- A store over a directory without a file. -/
def machine : Machine TraceOp TraceAnswer where
  State := File
  start := none
  step := store.step

end FileTraceStore

end ChainWeaver
