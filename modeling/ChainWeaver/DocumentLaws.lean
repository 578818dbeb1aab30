import ChainWeaver.Document

/-!
# Documents read back

Which flows come back the same, up to key order, from the document that was
written of them.
-/

namespace ChainWeaver

namespace Json

@[simp] theorem sorted_str (s : String) : (Json.str s).sorted = .str s := rfl
@[simp] theorem sorted_int (i : Int) : (Json.int i).sorted = .int i := rfl
@[simp] theorem sorted_bool (b : Bool) : (Json.bool b).sorted = .bool b := rfl
@[simp] theorem sorted_null : Json.null.sorted = .null := rfl

section
variable {rest : List (String × Json)} {element : Json → Option α}

theorem field_sorted_cons (name : String) : (Json.object ((key, value) :: rest)).sorted.field name =
    if name = key then some value.sorted else (Json.object rest).sorted.field name := by
  rw [field_sorted, field_object, OrderedDict.lookup_cons_if, field_sorted, field_object]
  split <;> rfl

@[simp] theorem optional_sorted_cons (name : String) (fallback : α) :
    (Json.object ((key, value) :: rest)).sorted.optional name fallback element =
      if name = key then element value.sorted else (Json.object rest).sorted.optional name fallback element := by
  rw [optional, field_sorted_cons]
  by_cases h : name = key
  · rw [if_pos h, if_pos h]
  · rw [if_neg h, if_neg h, optional]

@[simp] theorem optional_sorted_nil (name : String) (fallback : α) :
    (Json.object []).sorted.optional name fallback element = some fallback := rfl

@[simp] theorem required_sorted_cons (name : String) :
    (Json.object ((key, value) :: rest)).sorted.required name element =
      if name = key then element value.sorted else (Json.object rest).sorted.required name element := by
  rw [required, field_sorted_cons]
  by_cases h : name = key
  · rw [if_pos h, if_pos h, Option.bind_some]
  · rw [if_neg h, if_neg h, required]

@[simp] theorem field_without {names : List String} (json : Json) (h : name ∉ names) :
    (json.without names).field name = json.field name := by
  cases json with
  | object entries =>
    rw [without, field_object, field_object]
    induction entries with
    | nil => rfl
    | cons entry rest ih =>
      obtain ⟨key, value⟩ := entry
      rw [OrderedDict.lookup_cons_if, ← ih]
      by_cases hkey : key ∈ names
      · have hne : name ≠ key := fun heq => h (heq ▸ hkey)
        rw [List.filter_cons_of_neg (by simpa using hkey), if_neg hne]
      · rw [List.filter_cons_of_pos (by simpa using hkey), OrderedDict.lookup_cons_if]
  | _ => rfl

theorem optional_without {names : List String} (json : Json) (fallback : α) (h : name ∉ names) :
    (json.without names).optional name fallback element = json.optional name fallback element := by
  rw [optional, field_without json h, optional]

theorem required_without {names : List String} (json : Json) (h : name ∉ names) :
    (json.without names).required name element = json.required name element := by
  rw [required, field_without json h, required]

end

/-- `element` reads back what `write` wrote, in whatever key order. -/
def Reads (element : Json → Option α) (write : α → Json) : Prop := ∀ value, element (write value).sorted = some value

@[simp] theorem asStr_str (s : String) : asStr? (.str s) = some s := rfl
@[simp] theorem asBool_bool (b : Bool) : asBool? (.bool b) = some b := rfl
@[simp] theorem asNat_int (n : Nat) : asNat? (.int n) = some n := rfl

theorem Reads.str : Reads asStr? .str := fun _ => rfl
theorem Reads.nat : Reads asNat? fun n : Nat => .int n := fun _ => rfl

theorem Reads.orNull {element : Json → Option α} {write : α → Json} (h : Reads element write)
    (hnull : ∀ value, (write value).sorted ≠ .null) : Reads (orNull element) (ofOption write) := by
  intro value
  cases value with
  | none => rfl
  | some value =>
    have hvalue := h value
    rw [ofOption, Json.orNull.eq_def]
    split
    · next hsorted => exact absurd hsorted (hnull value)
    · rw [hvalue, Option.map_some]

theorem mapM_sortedItems {element : Json → Option α} {write : α → Json} (h : Reads element write) (values : List α) :
    (sortedItems (values.map write)).mapM element = some values := by
  induction values with
  | nil => rfl
  | cons value rest ih => simp [sortedItems, h value, ih]

theorem Reads.list {element : Json → Option α} {write : α → Json} (h : Reads element write) :
    Reads (asListOf? element) fun values => .array (values.map write) :=
  fun values => mapM_sortedItems h values

theorem Reads.strings : Reads (asListOf? asStr?) ofStrings := Reads.str.list

@[simp] theorem asStrings_sorted (texts : List String) : asListOf? asStr? (ofStrings texts).sorted = some texts :=
  Reads.strings texts

@[simp] theorem orNull_str (text : Option String) : orNull asStr? (ofOption .str text).sorted = some text :=
  Reads.str.orNull (fun _ => nofun) text

@[simp] theorem orNull_strings (texts : Option (List String)) :
    orNull (asListOf? asStr?) (ofOption ofStrings texts).sorted = some texts :=
  Reads.strings.orNull (fun _ => nofun) texts

theorem asStrDict_sorted (dict : OrderedDict String) : asStrDict? (ofStrDict dict).sorted = some dict.sorted := by
  have hsorted : (ofStrDict dict).sorted =
      .object (dict.sorted.entries.map fun entry => (entry.1, .str entry.2)) := by
    rw [ofStrDict, sorted, sortedEntries_eq_map, List.map_map]
    exact congrArg Json.object (SortedEntries.sort_map (fun s => Json.str s) dict.entries)
  have hpairs : (dict.sorted.entries.map fun entry => (entry.1, Json.str entry.2)).mapM
      (fun entry => (asStr? entry.2).map fun s => (entry.1, s)) = some dict.sorted.entries := by
    induction dict.sorted.entries with
    | nil => rfl
    | cons entry rest ih =>
      rw [List.map_cons, List.mapM_cons, ih]
      rfl
  rw [hsorted, asStrDict?, hpairs]
  exact congrArg some (OrderedDict.ext_entries (OrderedDict.entries_ofList dict.sorted.nodup))

@[simp] theorem orNull_strDict (dict : Option (OrderedDict String)) :
    orNull asStrDict? (ofOption ofStrDict dict).sorted = some (dict.map OrderedDict.sorted) := by
  cases dict with
  | none => rfl
  | some dict => exact congrArg (Option.map some) (asStrDict_sorted dict)

end Json

/-- What is read of a written dict. -/
theorem asDict_sorted {writer : JsonWriter} {data : Dict} (h : writer.writeEntries data.entries = some entries) :
    ∃ read, Json.asDict? (Json.object entries).sorted = some read ∧
      (sortedDict read = sortedDict data ↔ Value.plainEntries writer.nonFinite data.entries = true) := by
  have hwrite : writer.write (.dict data.entries) = some (.object entries) := by
    rw [JsonWriter.write, h]
    rfl
  have hkeys : (Json.readEntries entries).map Prod.fst = data.entries.map Prod.fst :=
    by
    have hreread : writer.rereadEntries data.entries = some (Json.readEntries entries) := by
      rw [JsonWriter.rereadEntries, h]
      rfl
    exact JsonWriter.rereadEntries_keys hreread
  let raw : Dict := ⟨Json.readEntries entries, hkeys ▸ data.nodup⟩
  have hread : Json.readEntries (SortedEntries.sort (Json.sortedEntries entries)) = (sortedDict raw).entries := by
    have hsorted := Json.read_sorted (.object entries)
    rw [Json.sorted, Json.read, Json.read, Value.sorted, Value.dict.injEq] at hsorted
    rw [hsorted, entries_sortedDict]
  refine ⟨sortedDict raw, ?_, ?_⟩
  · rw [Json.sorted, Json.asDict?, hread]
    exact congrArg some (OrderedDict.ext_entries (OrderedDict.entries_ofList (sortedDict raw).nodup))
  · rw [sortedDict_sortedDict, sortedDict_eq_iff]
    exact JsonWriter.sorted_read_eq_iff hwrite

-- Retries

section
variable {writer : JsonWriter}

/-- JSON has a form for the float. -/
def PyFloat.Plain (writer : JsonWriter) (f : PyFloat) : Prop := (Value.float f).plain writer.nonFinite = true

theorem asFloat_writeFloat (f : PyFloat) :
    (f.Plain writer → Json.asFloat? (writer.writeFloat f).sorted = some f) ∧
      (¬ f.Plain writer → Json.asFloat? (writer.writeFloat f).sorted = none) := by
  cases f with
  | finite value => exact ⟨fun _ => rfl, fun h => absurd rfl h⟩
  | infinite | negInfinite | nan =>
    cases hn : writer.nonFinite with
    | true => simp [PyFloat.Plain, Value.plain, hn, JsonWriter.writeFloat, Json.sorted, Json.asFloat?]
    | false => simp [PyFloat.Plain, Value.plain, hn, JsonWriter.writeFloat, Json.asFloat?]

namespace FullRetry

/-- JSON has a form for the waits. -/
def Plain (writer : JsonWriter) (retry : FullRetry) : Prop :=
  retry.backoffSeconds.Plain writer ∧ retry.backoffMultiplier.Plain writer

theorem validate_document (retry : FullRetry) :
    (∃ read, FullRetry.validate (retry.document writer).sorted = some read ∧ read = retry) ↔ retry.Plain writer := by
  constructor
  · rintro ⟨read, hread, -⟩
    simp only [validate, document, Option.bind_eq_bind, Option.bind_eq_some_iff] at hread
    obtain ⟨_, -, seconds, hseconds, multiplier, hmultiplier, -⟩ := hread
    constructor
    · by_contra hplain
      simp [(asFloat_writeFloat _).2 hplain] at hseconds
    · by_contra hplain
      simp [(asFloat_writeFloat _).2 hplain] at hmultiplier
  · rintro ⟨hseconds, hmultiplier⟩
    have herrors := retry.retryableErrors_valid
    simp only [Bool.and_eq_true, Bool.not_eq_true', List.isEmpty_eq_false_iff, ne_eq, List.all_eq_true,
      List.contains_iff_mem] at herrors
    refine ⟨retry, ?_, rfl⟩
    simp [validate, document, (asFloat_writeFloat _).1 hseconds, (asFloat_writeFloat _).1 hmultiplier,
      Json.Reads.strings retry.retryableErrors, retry.backoffSeconds_valid, retry.backoffMultiplier_valid, herrors]
    exact herrors.2

theorem sorted_document_ne_null (retry : FullRetry) : (retry.document writer).sorted ≠ .null := nofun

end FullRetry

theorem orNull_of_ne_null {element : Json → Option α} {json : Json} (h : json ≠ .null) :
    json.orNull element = (element json).map some := by
  unfold Json.orNull
  split
  · exact absurd rfl h
  · rfl

theorem validate_retry (retry : Option FullRetry) :
    (∃ read, Json.orNull FullRetry.validate (Json.ofOption (FullRetry.document writer) retry).sorted = some read ∧
      read = retry) ↔ ∀ r ∈ retry, r.Plain writer := by
  cases retry with
  | none => exact ⟨fun _ => nofun, fun _ => ⟨none, rfl, rfl⟩⟩
  | some retry =>
    rw [Json.ofOption, orNull_of_ne_null retry.sorted_document_ne_null]
    simp only [Option.mem_some_iff, forall_eq', ← retry.validate_document, Option.map_eq_some_iff]
    constructor
    · rintro ⟨_, ⟨read, hread, rfl⟩, heq⟩
      exact ⟨read, hread, Option.some.inj heq⟩
    · rintro ⟨read, hread, rfl⟩
      exact ⟨_, ⟨read, hread, rfl⟩, rfl⟩

-- Steps

theorem afterPrefix_append (text rest : List Char) : afterPrefix text (text ++ rest) = some rest := by
  induction text with
  | nil => rfl
  | cons c text ih => rw [List.cons_append, afterPrefix, if_pos rfl, ih]

theorem ofText_text (onError : OnError) (hvalid : onError ≠ .fallback "") :
    OnError.ofText onError.text = some ⟨onError, hvalid⟩ := by
  cases onError with
  | fail | skip => rfl
  | fallback toolName =>
    have hlist : (OnError.fallback toolName).text.toList = "fallback:".toList ++ toolName.toList :=
      String.toList_append
    have hfail : (OnError.fallback toolName).text ≠ "fail" := fun h => by
      have := congrArg String.toList h
      simp [hlist] at this
    have hskip : (OnError.fallback toolName).text ≠ "skip" := fun h => by
      have := congrArg String.toList h
      simp [hlist] at this
    rw [OnError.ofText, if_neg hfail, if_neg hskip, hlist, afterPrefix_append]
    cases hname : toolName.toList with
    | nil => exact absurd (congrArg OnError.fallback (String.toList_eq_nil_iff.1 hname)) hvalid
    | cons c rest =>
      have hback : String.ofList (c :: rest) = toolName := by rw [← hname, String.ofList_toList]
      simp [hback]

namespace FullStep

/-- The step with its dicts in key order. -/
def normal (step : FullStep) : FullStep :=
  { step with
    inputMapping := sortedDict step.inputMapping
    outputMapping := step.outputMapping.map OrderedDict.sorted }

/-- JSON has a form of its own for every literal and every wait of the step. -/
def Plain (writer : JsonWriter) (step : FullStep) : Prop :=
  Value.plainEntries writer.nonFinite step.inputMapping.entries = true ∧ ∀ retry ∈ step.retry, retry.Plain writer

@[simp] theorem ofNames_names (target : Target) : Target.ofNames target.toolName? target.flowName? = some target := by
  cases target <;> rfl

theorem validate_fieldsWith {document : Json} (step : FullStep) (more : List (String × Json))
    (hmapping : document.sorted.asDict? = some mapping) :
    FullStep.validate (Json.object (step.fieldsWith writer document ++ more)).sorted =
      (Json.orNull FullRetry.validate (Json.ofOption (FullRetry.document writer) step.retry).sorted).map
        fun retry => { step with inputMapping := mapping, outputMapping := step.outputMapping.map .sorted, retry } := by
  simp [FullStep.validate, fieldsWith, hmapping, ofText_text step.onError step.onError_valid, step.candidates_valid]
  cases Json.orNull FullRetry.validate (Json.ofOption (FullRetry.document writer) step.retry).sorted <;> rfl

theorem normal_eq_iff {retry : Option FullRetry} (step : FullStep) (hretry : retry = step.retry) :
    normal { step with inputMapping := mapping, outputMapping := step.outputMapping.map .sorted, retry } =
      step.normal ↔ sortedDict mapping = sortedDict step.inputMapping := by
  subst hretry
  obtain ⟨target, inputMapping, outputMapping, retry, onError, decisionCandidates, inputContract, outputContract,
    _, _⟩ := step
  have houtput : (outputMapping.map OrderedDict.sorted).map OrderedDict.sorted =
      outputMapping.map OrderedDict.sorted := by
    cases outputMapping <;> simp
  simp [normal, houtput]

theorem validate_fields {step : FullStep} {fields : List (String × Json)} (h : step.fields writer = some fields)
    (more : List (String × Json)) :
    (∃ read, FullStep.validate (Json.object (fields ++ more)).sorted = some read ∧ read.normal = step.normal) ↔
      step.Plain writer := by
  obtain ⟨entries, hentries, rfl⟩ := Option.map_eq_some_iff.1 h
  obtain ⟨mapping, hmapping, hiff⟩ := asDict_sorted hentries
  rw [validate_fieldsWith step more hmapping, Plain, ← hiff, ← validate_retry]
  simp only [Option.map_eq_some_iff]
  constructor
  · rintro ⟨_, ⟨retry, hretry, rfl⟩, hnormal⟩
    have hsame : retry = step.retry := congrArg FullStep.retry hnormal
    exact ⟨(normal_eq_iff step hsame).1 hnormal, retry, hretry, hsame⟩
  · rintro ⟨hsorted, retry, hretry, hsame⟩
    exact ⟨_, ⟨retry, hretry, rfl⟩, (normal_eq_iff step hsame).2 hsorted⟩

theorem validate_document {step : FullStep} {document : Json} (h : step.document writer = some document) :
    (∃ read, FullStep.validate document.sorted = some read ∧ read.normal = step.normal) ↔ step.Plain writer := by
  obtain ⟨fields, hfields, rfl⟩ := Option.map_eq_some_iff.1 h
  rw [← validate_fields hfields [], List.append_nil]

end FullStep

@[simp] theorem edges_sorted (edges : List ConditionalEdge) :
    Json.asListOf? ConditionalEdge.validate (Json.array (edges.map ConditionalEdge.document)).sorted = some edges := by
  refine Json.Reads.list (fun edge => ?_) edges
  simp [ConditionalEdge.validate, ConditionalEdge.document]

@[simp] theorem asOneOf_stepType (stepType : StepType) :
    Json.asOneOf? [.tool, .capability] StepType.value (.str stepType.value) = some stepType := by
  cases stepType <;> rfl

namespace FullDagStep

def normal (step : FullDagStep) : FullDagStep := { step with toFullStep := step.toFullStep.normal }

theorem validate_dag {document : Json} (step : FullDagStep) :
    FullDagStep.validate (Json.object (step.toFullStep.fieldsWith writer document ++ step.dagFields)).sorted =
      (FullStep.validate (Json.object (step.toFullStep.fieldsWith writer document ++ step.dagFields)).sorted).map
        fun own => { step with toFullStep := own } := by
  generalize hown : FullStep.validate _ = own
  rw [FullDagStep.validate, hown]
  cases own with
  | none => rfl
  | some own =>
    simp [FullStep.fieldsWith, dagFields, step.dag_valid]

theorem validate_document {step : FullDagStep} {document : Json} (h : step.document writer = some document) :
    (∃ read, FullDagStep.validate document.sorted = some read ∧ read.normal = step.normal) ↔
      step.toFullStep.Plain writer := by
  obtain ⟨fields, hfields, rfl⟩ := Option.map_eq_some_iff.1 h
  rw [← FullStep.validate_fields hfields step.dagFields]
  obtain ⟨entries, hentries, rfl⟩ := Option.map_eq_some_iff.1 hfields
  rw [validate_dag]
  simp only [Option.map_eq_some_iff]
  constructor
  · rintro ⟨_, ⟨own, hown, rfl⟩, hnormal⟩
    exact ⟨own, hown, congrArg FullDagStep.toFullStep hnormal⟩
  · rintro ⟨own, hown, hnormal⟩
    refine ⟨_, ⟨own, hown, rfl⟩, ?_⟩
    rw [normal, normal]
    simp [hnormal]

end FullDagStep

-- Flows

theorem mapM_documents {read : Json → Option α} {write : α → Option Json} {normal : α → α} {Plain : α → Prop}
    (h : ∀ value document, write value = some document →
      ((∃ value', read document.sorted = some value' ∧ normal value' = normal value) ↔ Plain value))
    (values : List α) (hwrite : values.mapM write = some documents) :
    (∃ values', (Json.sortedItems documents).mapM read = some values' ∧ values'.map normal = values.map normal) ↔
      ∀ value ∈ values, Plain value := by
  induction values generalizing documents with
  | nil =>
    obtain rfl := Option.some.inj hwrite
    exact ⟨fun _ => by simp, fun _ => ⟨[], rfl, rfl⟩⟩
  | cons value rest ih =>
    simp only [List.mapM_cons, Option.bind_eq_bind, Option.bind_eq_some_iff, Option.pure_def,
      Option.some.injEq] at hwrite
    obtain ⟨document, hdocument, documents, hdocuments, rfl⟩ := hwrite
    rw [List.forall_mem_cons, ← h value document hdocument, ← ih hdocuments]
    simp only [Json.sortedItems, List.mapM_cons, Option.bind_eq_bind, Option.bind_eq_some_iff, Option.pure_def,
      Option.some.injEq]
    constructor
    · rintro ⟨_, ⟨first, hfirst, others, hothers, rfl⟩, hnormal⟩
      obtain ⟨hhead, htail⟩ := List.cons.inj hnormal
      exact ⟨⟨first, hfirst, hhead⟩, others, hothers, htail⟩
    · rintro ⟨⟨first, hfirst, hhead⟩, others, hothers, htail⟩
      exact ⟨_, ⟨first, hfirst, others, hothers, rfl⟩, by rw [List.map_cons, List.map_cons, hhead, htail]⟩

@[simp] theorem asOneOf_lifecycle (lifecycle : FlowLifecycle) : Json.asOneOf?
    [.observed, .suggested, .draft, .reviewed, .active, .ignored, .archived] FlowLifecycle.text
      (.str lifecycle.text) = some lifecycle := by
  cases lifecycle <;> rfl

@[simp] theorem asOneOf_sideEffects (level : SideEffectLevel) : Json.asOneOf?
    [.none, .read, .write, .external, .destructive] SideEffectLevel.value (.str level.value) = some level := by
  cases level <;> rfl

@[simp] theorem asOneOf_stability (level : StabilityLevel) : Json.asOneOf?
    [.stable, .bestEffort, .unstable] StabilityLevel.text (.str level.text) = some level := by
  cases level <;> rfl

@[simp] theorem asOneOf_determinism (level : DeterminismLevel) : Json.asOneOf?
    [.full, .partly, .none] DeterminismLevel.text (.str level.text) = some level := by
  cases level <;> rfl

@[simp] theorem asOneOf_status (status : FlowStatus) : Json.asOneOf?
    [.active, .needsReview, .disabled] FlowStatus.value (.str status.value) = some status := by
  cases status <;> rfl

@[simp] theorem asOneOf_collision (policy : ContextCollisionPolicy) : Json.asOneOf?
    [.overwrite, .warn, .error] ContextCollisionPolicy.text (.str policy.text) = some policy := by
  cases policy <;> rfl

@[simp] theorem validate_governance (governance : FlowGovernance) :
    FlowGovernance.validate governance.document.sorted = some governance := by
  have hsavings : Json.orNull Json.asNat?
      (Json.ofOption (fun n : Nat => .int n) governance.estimatedTokenSavings).sorted =
        some governance.estimatedTokenSavings := Json.Reads.nat.orNull (fun _ => nofun) _
  simp [FlowGovernance.validate, FlowGovernance.document, hsavings]

theorem validate_safety (contract : ToolSafetyContract) :
    ToolSafetyContract.validate contract.document.sorted = some contract := by
  obtain ⟨sideEffects, readOnly, stability, determinismLevel, idempotent, cacheable, safeToRetry, supportsDryRun,
    requiresApproval, approvalReason, rfl⟩ := contract
  simp [ToolSafetyContract.validate, ToolSafetyContract.document]

@[simp] theorem orNull_safety (contract : Option ToolSafetyContract) : Json.orNull ToolSafetyContract.validate
    (Json.ofOption ToolSafetyContract.document contract).sorted = some contract :=
  Json.Reads.orNull validate_safety (fun _ => nofun) contract

namespace FullSteps

def normal : FullSteps → FullSteps
  | .linear steps => .linear (steps.map FullStep.normal)
  | .dag steps => .dag (steps.map FullDagStep.normal)

def all : FullSteps → List FullStep
  | .linear steps => steps
  | .dag steps => steps.map FullDagStep.toFullStep

theorem validate_documents {steps : FullSteps} {documents : List Json}
    (h : steps.documents writer = some documents) :
    (∃ read, FullSteps.validate steps.isDag (Json.array documents).sorted = some read ∧ read.normal = steps.normal) ↔
      ∀ step ∈ steps.all, step.Plain writer := by
  cases steps with
  | linear steps =>
    rw [all, ← mapM_documents (fun _ _ hdocument => FullStep.validate_document hdocument) steps h]
    constructor
    · rintro ⟨_, hread, hnormal⟩
      obtain ⟨reads, hreads, rfl⟩ := Option.map_eq_some_iff.1 hread
      exact ⟨reads, hreads, FullSteps.linear.inj hnormal⟩
    · rintro ⟨reads, hreads, hnormal⟩
      exact ⟨.linear reads, Option.map_eq_some_iff.2 ⟨reads, hreads, rfl⟩, congrArg FullSteps.linear hnormal⟩
  | dag steps =>
    rw [all, List.forall_mem_map,
      ← mapM_documents (fun _ _ hdocument => FullDagStep.validate_document hdocument) steps h]
    constructor
    · rintro ⟨_, hread, hnormal⟩
      obtain ⟨reads, hreads, rfl⟩ := Option.map_eq_some_iff.1 hread
      exact ⟨reads, hreads, FullSteps.dag.inj hnormal⟩
    · rintro ⟨reads, hreads, hnormal⟩
      exact ⟨.dag reads, Option.map_eq_some_iff.2 ⟨reads, hreads, rfl⟩, congrArg FullSteps.dag hnormal⟩

end FullSteps

namespace FullFlow

def normal (flow : FullFlow) : FullFlow :=
  { flow with
    steps := flow.steps.normal
    triggerConditions := flow.triggerConditions.map sortedDict
    toolSchemaHashes := flow.toolSchemaHashes.map OrderedDict.sorted }

/-- JSON has a form of its own for every literal of the flow. -/
structure Plain (writer : JsonWriter) (flow : FullFlow) : Prop where
  steps : ∀ step ∈ flow.steps.all, step.Plain writer
  triggerConditions : ∀ conditions ∈ flow.triggerConditions,
    Value.plainEntries writer.nonFinite conditions.entries = true

theorem validate_conditions {conditions : Option Dict} (h : optionalEntries writer conditions = some document) :
    (∃ read, Json.orNull Json.asDict? document.sorted = some read ∧
      read.map sortedDict = conditions.map sortedDict) ↔
        ∀ data ∈ conditions, Value.plainEntries writer.nonFinite data.entries = true := by
  cases conditions with
  | none =>
    obtain rfl := Option.some.inj h
    exact ⟨fun _ => nofun, fun _ => ⟨none, rfl, rfl⟩⟩
  | some data =>
    obtain ⟨entries, hentries, rfl⟩ := Option.map_eq_some_iff.1 h
    obtain ⟨own, hown, hiff⟩ := asDict_sorted hentries
    have hread : Json.orNull Json.asDict? (Json.object entries).sorted = some (some own) := by
      rw [orNull_of_ne_null (by simp [Json.sorted]), hown, Option.map_some]
    simp [hread, ← hiff]

theorem validate_fieldsWith {steps triggerConditions : Json} (flow : FullFlow) (isDag : Bool) (names : List String)
    (more : List (String × Json)) (hnames : ∀ entry ∈ flow.fieldsWith steps triggerConditions, entry.1 ∉ names) :
    FullFlow.validate isDag ((Json.object (flow.fieldsWith steps triggerConditions ++ more)).sorted.without names) =
      (FullSteps.validate isDag steps.sorted).bind fun steps =>
        (Json.orNull Json.asDict? triggerConditions.sorted).map fun triggerConditions =>
          { flow with steps, triggerConditions, toolSchemaHashes := flow.toolSchemaHashes.map .sorted } := by
  simp only [fieldsWith, List.forall_mem_cons] at hnames
  simp [FullFlow.validate, fieldsWith, Json.optional_without, Json.required_without, hnames]
  cases FullSteps.validate isDag steps.sorted with
  | none => rfl
  | some steps => cases Json.orNull Json.asDict? triggerConditions.sorted <;> rfl

theorem normal_eq_iff (flow : FullFlow) (steps : FullSteps) (triggerConditions : Option Dict) :
    normal { flow with steps, triggerConditions, toolSchemaHashes := flow.toolSchemaHashes.map .sorted } =
      flow.normal ↔ steps.normal = flow.steps.normal ∧
        triggerConditions.map sortedDict = flow.triggerConditions.map sortedDict := by
  have hhashes : (flow.toolSchemaHashes.map OrderedDict.sorted).map OrderedDict.sorted =
      flow.toolSchemaHashes.map OrderedDict.sorted := by
    cases flow.toolSchemaHashes <;> simp
  simp only [normal, hhashes, FullFlow.mk.injEq, FullHeader.mk.injEq, true_and, and_true]
  exact and_comm

/-- A flow comes back the same from its document exactly if it is plain. -/
theorem validate_document {flow : FullFlow} {fields : List (String × Json)} (h : flow.fields writer = some fields)
    (more : List (String × Json)) (names : List String) (hnames : ∀ entry ∈ fields, entry.1 ∉ names) :
    (∃ read, FullFlow.validate flow.steps.isDag ((Json.object (fields ++ more)).sorted.without names) = some read ∧
      read.normal = flow.normal) ↔ flow.Plain writer := by
  simp only [FullFlow.fields, Option.bind_eq_bind, Option.bind_eq_some_iff, Option.pure_def,
    Option.some.injEq] at h
  obtain ⟨documents, hdocuments, conditions, hconditions, rfl⟩ := h
  rw [validate_fieldsWith flow _ names more hnames]
  have hplain : flow.Plain writer ↔ (∀ step ∈ flow.steps.all, step.Plain writer) ∧
      ∀ data ∈ flow.triggerConditions, Value.plainEntries writer.nonFinite data.entries = true :=
    ⟨fun h => ⟨h.steps, h.triggerConditions⟩, fun h => ⟨h.1, h.2⟩⟩
  rw [hplain, ← FullSteps.validate_documents hdocuments, ← validate_conditions hconditions]
  simp only [Option.bind_eq_some_iff, Option.map_eq_some_iff]
  constructor
  · rintro ⟨_, ⟨steps, hsteps, triggers, htriggers, rfl⟩, hnormal⟩
    obtain ⟨hsame, htrigger⟩ := (normal_eq_iff flow steps triggers).1 hnormal
    exact ⟨⟨steps, hsteps, hsame⟩, triggers, htriggers, htrigger⟩
  · rintro ⟨⟨steps, hsteps, hsame⟩, triggers, htriggers, htrigger⟩
    exact ⟨_, ⟨steps, hsteps, triggers, htriggers, rfl⟩, (normal_eq_iff flow steps triggers).2 ⟨hsame, htrigger⟩⟩

end FullFlow

end

end ChainWeaver
