import ChainWeaver.Json
import ChainWeaver.Sample

/-!
# Checkpointers

The two snapshot stores of `checkpoint.py`. The file-backed one writes a snapshot
as JSON and validates what it reads.
-/

namespace ChainWeaver

-- A snapshot through JSON

def rereadOutputs (writer : JsonWriter) : Option Dict → Option (Option Dict)
  | none => some none
  | some outputs => (writer.rereadDict outputs).map some

mutual

/-- A record written and read again. Typed fields come back as they were; the fields
of type `Any` go through the writer. -/
def StepRecord.reread (writer : JsonWriter) : StepRecord → Option StepRecord
  | ⟨stepIndex, toolName, inputs, outputs, errorType, errorMessage, success, retryCount, retryErrors,
      skipped, cached, fallbackUsed, fallbackToolName, flowName, subResult, approval, decision⟩ => do
    let inputs ← writer.rereadDict inputs
    let outputs ← rereadOutputs writer outputs
    let subResult ← rereadSub writer subResult
    pure ⟨stepIndex, toolName, inputs, outputs, errorType, errorMessage, success, retryCount, retryErrors,
      skipped, cached, fallbackUsed, fallbackToolName, flowName, subResult, approval, decision⟩

def rereadSub (writer : JsonWriter) : Option ExecutionResult → Option (Option ExecutionResult)
  | none => some none
  | some result => (ExecutionResult.reread writer result).map some

def ExecutionResult.reread (writer : JsonWriter) : ExecutionResult → Option ExecutionResult
  | ⟨flowName, flowVersion, success, finalOutput, executionLog, traceId, initialInput, dryRun, costReport⟩ => do
    let finalOutput ← rereadOutputs writer finalOutput
    let executionLog ← rereadLog writer executionLog
    let initialInput ← writer.rereadDict initialInput
    pure ⟨flowName, flowVersion, success, finalOutput, executionLog, traceId, initialInput, dryRun, costReport⟩

def rereadLog (writer : JsonWriter) : List StepRecord → Option (List StepRecord)
  | [] => some []
  | record :: rest => do
    let record ← StepRecord.reread writer record
    let rest ← rereadLog writer rest
    pure (record :: rest)

end

/-- `model_validate_json` of `model_dump_json`; `none` where a value cannot be
serialized. -/
def ExecutionSnapshot.reread (writer : JsonWriter) (snapshot : ExecutionSnapshot) : Option ExecutionSnapshot := do
  let initialInput ← writer.rereadDict snapshot.initialInput
  let context ← writer.rereadDict snapshot.context
  let executionLog ← rereadLog writer snapshot.executionLog
  pure { snapshot with initialInput, context, executionLog }

def Dict.plain (dict : Dict) : Bool := Value.plainEntries false dict.entries

mutual

/-- JSON has forms for all values of the record. -/
def StepRecord.plain : StepRecord → Bool
  | ⟨_, _, inputs, outputs, _, _, _, _, _, _, _, _, _, _, subResult, _, _⟩ =>
    Dict.plain inputs && outputs.all Dict.plain && plainSub subResult

def plainSub : Option ExecutionResult → Bool
  | none => true
  | some result => ExecutionResult.plain result

def ExecutionResult.plain : ExecutionResult → Bool
  | ⟨_, _, _, finalOutput, executionLog, _, initialInput, _, _⟩ =>
    finalOutput.all Dict.plain && plainLog executionLog && Dict.plain initialInput

def plainLog : List StepRecord → Bool
  | [] => true
  | record :: rest => StepRecord.plain record && plainLog rest

end

def ExecutionSnapshot.plain (snapshot : ExecutionSnapshot) : Bool :=
  Dict.plain snapshot.initialInput && Dict.plain snapshot.context && plainLog snapshot.executionLog

section

variable {writer : JsonWriter}

theorem rereadDict_self (hw : writer.nonFinite = false) (dict : Dict) :
    writer.rereadDict dict = some dict ↔ Dict.plain dict = true := by
  rw [JsonWriter.rereadDict_eq_self, hw, Dict.plain]

theorem rereadOutputs_self (hw : writer.nonFinite = false) (outputs : Option Dict) :
    rereadOutputs writer outputs = some outputs ↔ outputs.all Dict.plain = true := by
  cases outputs <;> simp [rereadOutputs, rereadDict_self hw]

mutual

theorem StepRecord.reread_self (hw : writer.nonFinite = false) (record : StepRecord) :
    record.reread writer = some record ↔ record.plain = true := by
  obtain ⟨stepIndex, toolName, inputs, outputs, errorType, errorMessage, success, retryCount, retryErrors,
      skipped, cached, fallbackUsed, fallbackToolName, flowName, subResult, approval, decision⟩ := record
  have hinputs := rereadDict_self hw inputs
  have houtputs := rereadOutputs_self hw outputs
  have hsub := rereadSub_self hw subResult
  simp only [StepRecord.reread, StepRecord.plain, Option.bind_eq_bind, Option.bind_eq_some_iff, Option.pure_def,
    Option.some.injEq, StepRecord.mk.injEq, Bool.and_eq_true, ← hinputs, ← houtputs, ← hsub]
  constructor
  · rintro ⟨_, h₁, _, h₂, _, h₃, _, _, rfl, rfl, _, _, _, _, _, _, _, _, _, _, rfl, _⟩
    exact ⟨⟨h₁, h₂⟩, h₃⟩
  · rintro ⟨⟨h₁, h₂⟩, h₃⟩
    exact ⟨_, h₁, _, h₂, _, h₃, by simp⟩

theorem rereadSub_self (hw : writer.nonFinite = false) (subResult : Option ExecutionResult) :
    rereadSub writer subResult = some subResult ↔ plainSub subResult = true := by
  cases subResult with
  | none => simp [rereadSub, plainSub]
  | some result => simp [rereadSub, plainSub, ← ExecutionResult.reread_self hw result]

theorem ExecutionResult.reread_self (hw : writer.nonFinite = false) (result : ExecutionResult) :
    result.reread writer = some result ↔ result.plain = true := by
  obtain ⟨flowName, flowVersion, success, finalOutput, executionLog, traceId, initialInput, dryRun, costReport⟩ := result
  have hfinal := rereadOutputs_self hw finalOutput
  have hlog := rereadLog_self hw executionLog
  have hinitial := rereadDict_self hw initialInput
  simp only [ExecutionResult.reread, ExecutionResult.plain, Option.bind_eq_bind, Option.bind_eq_some_iff,
    Option.pure_def, Option.some.injEq, ExecutionResult.mk.injEq, Bool.and_eq_true, ← hfinal, ← hlog, ← hinitial]
  constructor
  · rintro ⟨_, h₁, _, h₂, _, h₃, _, _, _, rfl, rfl, _, rfl, _⟩
    exact ⟨⟨h₁, h₂⟩, h₃⟩
  · rintro ⟨⟨h₁, h₂⟩, h₃⟩
    exact ⟨_, h₁, _, h₂, _, h₃, by simp⟩

theorem rereadLog_self (hw : writer.nonFinite = false) (log : List StepRecord) :
    rereadLog writer log = some log ↔ plainLog log = true := by
  cases log with
  | nil => simp [rereadLog, plainLog]
  | cons record rest =>
    have hrecord := StepRecord.reread_self hw record
    have hrest := rereadLog_self hw rest
    simp only [rereadLog, plainLog, Option.bind_eq_bind, Option.bind_eq_some_iff, Option.pure_def,
      Option.some.injEq, List.cons.injEq, Bool.and_eq_true, ← hrecord, ← hrest]
    constructor
    · rintro ⟨_, h₁, _, h₂, rfl, rfl⟩
      exact ⟨h₁, h₂⟩
    · rintro ⟨h₁, h₂⟩
      exact ⟨_, h₁, _, h₂, rfl, rfl⟩

end

theorem ExecutionSnapshot.reread_self (hw : writer.nonFinite = false) (snapshot : ExecutionSnapshot) :
    snapshot.reread writer = some snapshot ↔ snapshot.plain = true := by
  obtain ⟨snapshotVersion, traceId, flowName, flowVersion, initialInput, context, executionLog, completedSteps,
    completedDagLevels, toolSchemaHashes⟩ := snapshot
  simp only [ExecutionSnapshot.reread, ExecutionSnapshot.plain, Option.bind_eq_bind, Option.bind_eq_some_iff,
    Option.pure_def, Option.some.injEq, ExecutionSnapshot.mk.injEq, Bool.and_eq_true,
    ← rereadDict_self hw, ← rereadLog_self hw]
  constructor
  · rintro ⟨_, h₁, _, h₂, _, h₃, _, _, _, _, rfl, rfl, rfl, _⟩
    exact ⟨⟨h₁, h₂⟩, h₃⟩
  · rintro ⟨⟨h₁, h₂⟩, h₃⟩
    exact ⟨_, h₁, _, h₂, _, h₃, by simp⟩

end

-- The stores

inductive StoreOp
  | save (snapshot : ExecutionSnapshot)
  | load (traceId : String)
  | delete (traceId : String)
  | listTraceIds

inductive StoreReply
  | done
  | snapshot (found : Option ExecutionSnapshot)
  | traceIds (ids : List String)
  | raised (e : Exc)

namespace InMemoryCheckpointer

def apply (store : OrderedDict ExecutionSnapshot) : StoreOp → StoreReply × OrderedDict ExecutionSnapshot
  | .save snapshot => (.done, store.insert snapshot.traceId snapshot)
  | .load traceId => (.snapshot (store.get? traceId), store)
  | .delete traceId => (.done, store.erase traceId)
  | .listTraceIds => (.traceIds store.keys, store)

end InMemoryCheckpointer

namespace FileCheckpointer

def snapshotSuffix : String := ".snapshot.json"

def pathSafe (c : Char) : Bool := c.isAlphanum || c = '.' || c = '_' || c = '-'

/-- `_TRACE_ID_RE.match`: the dollar sign also matches in front of a final newline. -/
def traceIdValid (traceId : String) : Bool :=
  let chars := traceId.toList
  let body := if chars.getLast? = some '\n' then chars.dropLast else chars
  !body.isEmpty && body.all pathSafe

/-- `_path`, the name of the file in the root directory. -/
def path (traceId : String) : Except Exc String :=
  if traceIdValid traceId then .ok (traceId ++ snapshotSuffix)
  else .error (.other "ValueError" s!"trace_id must match '^[A-Za-z0-9._-]+$', got '{traceId}'.")

/-- The trace id of a file of the glob. -/
def traceIdOf (name : String) : Option String :=
  if snapshotSuffix.toList.isSuffixOf name.toList then
    some (String.ofList (name.toList.take (name.length - snapshotSuffix.length)))
  else none

/-- Pydantic writes no tokens for NaN and the infinities, and arrays for tuples and
sets. What becomes of an object depends on its class. -/
def pydantic (objects : String → String → Option Json) : JsonWriter :=
  { nonFinite := false, setText := none, other := objects }

theorem pydantic_finite (objects : String → String → Option Json) : (pydantic objects).nonFinite = false := rfl

/-- `files` holds the files of the root directory by name, each by what is read from it. -/
def apply (objects : String → String → Option Json) (files : OrderedDict ExecutionSnapshot) :
    StoreOp → StoreReply × OrderedDict ExecutionSnapshot
  | .save snapshot =>
    match path snapshot.traceId, snapshot.reread (pydantic objects) with
    | .error e, _ => (.raised e, files)
    | .ok _, none => (.raised (.other "PydanticSerializationError" ""), files)
    | .ok name, some written => (.done, files.insert name written)
  | .load traceId =>
    match path traceId with
    | .error e => (.raised e, files)
    | .ok name => (.snapshot (files.get? name), files)
  | .delete traceId =>
    match path traceId with
    | .error e => (.raised e, files)
    | .ok name => (.done, files.erase name)
  | .listTraceIds => (.traceIds ((files.keys.filterMap traceIdOf).mergeSort (· ≤ ·)), files)

end FileCheckpointer

/-- The replies of a store to operations in turn. -/
def replies (apply : σ → StoreOp → StoreReply × σ) (store : σ) : List StoreOp → List StoreReply
  | [] => []
  | op :: rest => (apply store op).1 :: replies apply (apply store op).2 rest

-- Refinement

/-- The same reply, lists of trace ids as sets. -/
inductive SameReply : StoreReply → StoreReply → Prop
  | done : SameReply .done .done
  | snapshot (found) : SameReply (.snapshot found) (.snapshot found)
  | traceIds : (∀ traceId, traceId ∈ ids ↔ traceId ∈ ids') → SameReply (.traceIds ids) (.traceIds ids')

/-- The trace ids are fit for file names, and JSON has forms for all values of a
snapshot that is saved. -/
def StoreOp.Portable : StoreOp → Prop
  | .save snapshot => FileCheckpointer.traceIdValid snapshot.traceId = true ∧ snapshot.plain = true
  | .load traceId | .delete traceId => FileCheckpointer.traceIdValid traceId = true
  | .listTraceIds => True

namespace FileCheckpointer

/-- The files are the snapshots of the other store under their file names. -/
def Mirrors (files store : OrderedDict ExecutionSnapshot) : Prop :=
  files.entries = store.entries.map fun entry => (entry.1 ++ snapshotSuffix, entry.2)

theorem traceIdOf_path (traceId : String) : traceIdOf (traceId ++ snapshotSuffix) = some traceId := by
  have hsuffix : snapshotSuffix.toList.isSuffixOf (traceId ++ snapshotSuffix).toList = true := by
    rw [List.isSuffixOf_iff_suffix, String.toList_append]
    exact List.suffix_append ..
  have hlength : (traceId ++ snapshotSuffix).length - snapshotSuffix.length = traceId.toList.length := by
    rw [String.length_append, String.length_toList]
    omega
  rw [traceIdOf, if_pos hsuffix, hlength, String.toList_append, List.take_left, String.ofList_toList]

theorem put_suffix (entries : List (String × ExecutionSnapshot)) :
    OrderedDict.put (traceId ++ snapshotSuffix) snapshot
      (entries.map fun entry => (entry.1 ++ snapshotSuffix, entry.2)) =
    (OrderedDict.put traceId snapshot entries).map fun entry => (entry.1 ++ snapshotSuffix, entry.2) := by
  induction entries with
  | nil => rfl
  | cons entry rest ih =>
    obtain ⟨key, value⟩ := entry
    by_cases h : key = traceId
    · simp [OrderedDict.put, h]
    · have hne : key ++ snapshotSuffix ≠ traceId ++ snapshotSuffix := fun heq => h ((String.append_left_inj _).1 heq)
      simp only [List.map_cons, OrderedDict.put, h, hne, if_false, ih]

theorem lookup_suffix (entries : List (String × ExecutionSnapshot)) :
    (entries.map fun entry => (entry.1 ++ snapshotSuffix, entry.2)).lookup (traceId ++ snapshotSuffix) =
      entries.lookup traceId := by
  induction entries with
  | nil => rfl
  | cons entry rest ih =>
    obtain ⟨key, value⟩ := entry
    rw [List.map_cons, OrderedDict.lookup_cons_if, OrderedDict.lookup_cons_if, ih]
    simp only [String.append_left_inj]

section

variable {files store : OrderedDict ExecutionSnapshot} {objects : String → String → Option Json}

theorem Mirrors.insert (h : Mirrors files store) :
    Mirrors (files.insert (traceId ++ snapshotSuffix) snapshot) (store.insert traceId snapshot) := by
  show OrderedDict.put _ _ files.entries = _
  rw [h, put_suffix]
  rfl

theorem Mirrors.erase (h : Mirrors files store) :
    Mirrors (files.erase (traceId ++ snapshotSuffix)) (store.erase traceId) := by
  show files.entries.filter _ = _
  rw [h, List.filter_map]
  refine congrArg _ (List.filter_congr fun entry _ => ?_)
  simp [String.append_left_inj]

theorem Mirrors.get? (h : Mirrors files store) : files.get? (traceId ++ snapshotSuffix) = store.get? traceId := by
  unfold OrderedDict.get?
  rw [h, lookup_suffix]

theorem Mirrors.traceIds (h : Mirrors files store) : files.keys.filterMap traceIdOf = store.keys := by
  unfold OrderedDict.keys
  rw [h, List.map_map, List.filterMap_map]
  calc store.entries.filterMap (traceIdOf ∘ Prod.fst ∘ fun entry => (entry.1 ++ snapshotSuffix, entry.2))
      = store.entries.filterMap (some ∘ Prod.fst) :=
        List.filterMap_congr fun entry _ => traceIdOf_path entry.1
    _ = store.entries.map Prod.fst := congrFun List.filterMap_eq_map _

theorem path_of_valid (h : traceIdValid traceId = true) : path traceId = .ok (traceId ++ snapshotSuffix) := by
  simp [path, h]

/-- One operation. -/
theorem Mirrors.apply (h : Mirrors files store) {op : StoreOp} (hop : op.Portable) :
    SameReply (FileCheckpointer.apply objects files op).1 (InMemoryCheckpointer.apply store op).1 ∧
      Mirrors (FileCheckpointer.apply objects files op).2 (InMemoryCheckpointer.apply store op).2 := by
  cases op with
  | save snapshot =>
    have hreread := (snapshot.reread_self (pydantic_finite objects)).2 hop.2
    simp only [FileCheckpointer.apply, path_of_valid hop.1, hreread]
    exact ⟨.done, h.insert⟩
  | load traceId =>
    simp only [FileCheckpointer.apply, path_of_valid hop, h.get?]
    exact ⟨.snapshot _, h⟩
  | delete traceId =>
    simp only [FileCheckpointer.apply, path_of_valid hop]
    exact ⟨.done, h.erase⟩
  | listTraceIds =>
    refine ⟨.traceIds fun traceId => ?_, h⟩
    rw [List.mem_mergeSort, h.traceIds]

/-- A sequence of operations. -/
theorem Mirrors.replies (h : Mirrors files store) {ops : List StoreOp} (hops : ∀ op ∈ ops, op.Portable) :
    List.Forall₂ SameReply (ChainWeaver.replies (FileCheckpointer.apply objects) files ops)
      (ChainWeaver.replies InMemoryCheckpointer.apply store ops) := by
  induction ops generalizing files store with
  | nil => exact .nil
  | cons op rest ih =>
    obtain ⟨hop, hrest⟩ := List.forall_mem_cons.1 hops
    exact .cons (h.apply hop).1 (ih (h.apply hop).2 hrest)

theorem mirrors_empty : Mirrors .empty .empty := rfl

/-- A snapshot that is saved and loaded. -/
def saveAndLoad (snapshot : ExecutionSnapshot) : List StoreOp := [.save snapshot, .load snapshot.traceId]

theorem saveAndLoad_memory (snapshot : ExecutionSnapshot) :
    ChainWeaver.replies InMemoryCheckpointer.apply .empty (saveAndLoad snapshot) = [.done, .snapshot (some snapshot)] := by
  simp [ChainWeaver.replies, saveAndLoad, InMemoryCheckpointer.apply]

theorem plain_of_saveAndLoad (hvalid : traceIdValid snapshot.traceId = true)
    (h : List.Forall₂ SameReply (ChainWeaver.replies (FileCheckpointer.apply objects) .empty (saveAndLoad snapshot))
      (ChainWeaver.replies InMemoryCheckpointer.apply .empty (saveAndLoad snapshot))) :
    snapshot.plain = true := by
  rw [saveAndLoad_memory] at h
  cases hreread : snapshot.reread (pydantic objects) with
  | none =>
    simp only [saveAndLoad, ChainWeaver.replies, FileCheckpointer.apply, path_of_valid hvalid, hreread] at h
    obtain _ | ⟨hsave, _⟩ := h
    cases hsave
  | some written =>
    simp only [saveAndLoad, ChainWeaver.replies, FileCheckpointer.apply, path_of_valid hvalid, hreread,
      OrderedDict.get?_insert, if_true] at h
    obtain _ | ⟨_, _ | ⟨hload, _⟩⟩ := h
    obtain _ | _ | _ := hload
    exact (snapshot.reread_self (pydantic_finite objects)).1 hreread

end

/-- A run of `execute_flow` saves the snapshot. -/
def Written (snapshot : ExecutionSnapshot) : Prop :=
  ∃ (executor : Executor) (stack : Nat) (flowName : String) (input : Dict) (call : Call)
    (events : List Event) (r : Except Exc ExecutionResult) (state : RunScopedState) (reply : Except Exc Unit),
    (executor.executeFlow stack flowName input call).Runs {} events r state ∧
      (⟨.save, snapshot, reply⟩ : Event) ∈ events

def savedIn (events : List Event) : List ExecutionSnapshot :=
  events.filterMap fun
    | ⟨.save, snapshot, _⟩ => some snapshot
    | _ => none

theorem mem_savedIn (h : snapshot ∈ savedIn events) :
    ∃ reply, (⟨.save, snapshot, reply⟩ : Event) ∈ events := by
  obtain ⟨e, he, heq⟩ := List.mem_filterMap.1 h
  split at heq
  · obtain rfl := Option.some.inj heq
    exact ⟨_, he⟩
  · cases heq

/-- A flow of one step whose tool answers with `value`. -/
def pointRun (value : Value) : List Event × Except Exc ExecutionResult × RunScopedState :=
  let flow : Flow := { name := "locate", steps := [{ target := .tool "p" }] }
  let executor := { Sample.executor [.linear flow] [Sample.tool "p"] with hasCheckpointer := true }
  Sample.run (fun _ => .ok (.dict [("point", value)])) none 0 (executor.executeFlow 0 "locate" .empty {})

theorem written_pointRun (h : snapshot ∈ savedIn (pointRun value).1) : Written snapshot := by
  obtain ⟨reply, hsave⟩ := mem_savedIn h
  exact ⟨_, 0, "locate", .empty, {}, _, _, _, reply, Sample.run_runs .., hsave⟩

end FileCheckpointer

end ChainWeaver
