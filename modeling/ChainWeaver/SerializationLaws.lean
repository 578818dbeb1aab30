import ChainWeaver.Context
import ChainWeaver.DocumentLaws
import ChainWeaver.Serialization

/-!
# Serialization is faithful

Which flows survive their JSON and their YAML text.
-/

namespace ChainWeaver

-- Limits

theorem exceeds_eq_false {limit : Option Nat} : exceeds limit n = false ↔ ∀ m ∈ limit, n ≤ m := by
  cases limit <;> simp [exceeds]

namespace FlowParseLimits

variable (limits : FlowParseLimits)

mutual

/-- Nothing from `depth` on is nested too deep, and no string is too long. -/
def fits (depth : Nat) : Json → Bool
  | .str s => !exceeds limits.maxDepth depth && !exceeds limits.maxStringLength s.length
  | .array items => !exceeds limits.maxDepth depth && fitsItems (depth + 1) items
  | .object entries => !exceeds limits.maxDepth depth && fitsEntries (depth + 1) entries
  | _ => !exceeds limits.maxDepth depth

def fitsItems (depth : Nat) : List Json → Bool
  | [] => true
  | item :: rest => fits depth item && fitsItems depth rest

def fitsEntries (depth : Nat) : List (String × Json) → Bool
  | [] => true
  | (key, json) :: rest => !exceeds limits.maxStringLength key.length && fits depth json && fitsEntries depth rest

end

variable {limits}

theorem fitsItems_iff (items : List Json) :
    limits.fitsItems depth items = true ↔ ∀ item ∈ items, limits.fits depth item = true := by
  induction items with
  | nil => simp [fitsItems]
  | cons item rest ih => simp [fitsItems, ih]

theorem fitsEntries_iff (entries : List (String × Json)) : limits.fitsEntries depth entries = true ↔
    (∀ key ∈ entries.map Prod.fst, exceeds limits.maxStringLength key.length = false) ∧
      ∀ json ∈ entries.map Prod.snd, limits.fits depth json = true := by
  induction entries with
  | nil => simp [fitsEntries]
  | cons entry rest ih =>
    rw [fitsEntries, Bool.and_eq_true, Bool.and_eq_true, ih, List.map_cons, List.map_cons,
      List.forall_mem_cons, List.forall_mem_cons, Bool.not_eq_true']
    tauto

theorem stringTooLong_eq_none (node : Json) : limits.stringTooLong? node = none ↔
    ∀ text ∈ node.ownStrings, exceeds limits.maxStringLength text.length = false := by
  simp [stringTooLong?, List.find?_eq_none]

/-- One step of the walk. -/
theorem fits_iff (depth : Nat) (node : Json) : limits.fits depth node = true ↔
    exceeds limits.maxDepth depth = false ∧ limits.stringTooLong? node = none ∧
      ∀ child ∈ node.children, limits.fits (depth + 1) child = true := by
  rw [stringTooLong_eq_none]
  cases node with
  | array items => simp [fits, Json.ownStrings, Json.children, fitsItems_iff]
  | object entries =>
    rw [fits, Bool.and_eq_true, fitsEntries_iff, Bool.not_eq_true']
    rfl
  | _ => simp [fits, Json.ownStrings, Json.children]

theorem enforceFrom_ok (visited : Nat) (stack : List (Json × Nat))
    (hvisited : ∀ m ∈ limits.maxNodes, visited ≤ m) :
    limits.enforceFrom visited stack = .ok () ↔
      (∀ m ∈ limits.maxNodes, visited + Json.stackNodes stack ≤ m) ∧
        ∀ entry ∈ stack, limits.fits entry.2 entry.1 = true := by
  fun_induction enforceFrom limits visited stack with
  | case1 visited => simpa [Json.stackNodes] using hvisited
  | case2 visited node depth stack hnodes =>
    have hone := Json.nodes_children node depth
    constructor
    · intro h
      cases h
    rintro ⟨hfew, -⟩
    rw [exceeds_eq_false.2 fun m hm => ?_] at hnodes
    · cases hnodes
    · have hm' := hfew m hm
      rw [Json.stackNodes_cons] at hm'
      omega
  | case3 visited node depth stack hnodes hdepth =>
    constructor
    · intro h
      cases h
    rintro ⟨-, hfits⟩
    have hnode := (fits_iff depth node).1 (hfits _ List.mem_cons_self)
    exact absurd hdepth (by simp [hnode.1])
  | case4 visited node depth stack hnodes hdepth detail hstring =>
    constructor
    · intro h
      cases h
    rintro ⟨-, hfits⟩
    have hnode := (fits_iff depth node).1 (hfits _ List.mem_cons_self)
    exact absurd hstring (by simp [hnode.2.1])
  | case5 visited node depth stack hnodes hdepth hstring ih =>
    have hchildren := Json.nodes_children node (depth + 1)
    rw [ih (exceeds_eq_false.1 (Bool.eq_false_iff.2 hnodes)), Json.stackNodes_append, Json.stackNodes_cons,
      List.forall_mem_append, List.forall_mem_cons, fits_iff depth node]
    refine and_congr (forall₂_congr fun m _ => by omega) (and_congr ?_ Iff.rfl)
    simp [hdepth, hstring]

theorem enforceStructure_ok (document : Json) : limits.enforceStructure document = .ok () ↔
    (∀ m ∈ limits.maxNodes, document.nodes ≤ m) ∧ limits.fits 1 document = true := by
  rw [enforceStructure, enforceFrom_ok 0 _ fun _ _ => Nat.zero_le _, Json.stackNodes_cons]
  simp [Json.stackNodes]

end FlowParseLimits

-- Documents of flows

theorem length_mapM {f : α → Option β} (values : List α) (h : values.mapM f = some results) :
    results.length = values.length := by
  induction values generalizing results with
  | nil =>
    obtain rfl := Option.some.inj h
    rfl
  | cons value rest ih =>
    simp only [List.mapM_cons, Option.bind_eq_bind, Option.bind_eq_some_iff, Option.pure_def,
      Option.some.injEq] at h
    obtain ⟨_, -, results, hrest, rfl⟩ := h
    rw [List.length_cons, List.length_cons, ih hrest]

theorem length_sortedItems (items : List Json) : (Json.sortedItems items).length = items.length := by
  rw [Json.sortedItems_eq_map, List.length_map]

theorem FullSteps.length_documents {steps : FullSteps} {written : List Json} (h : steps.documents writer = some written) :
    written.length = steps.all.length := by
  cases steps with
  | linear steps => exact length_mapM steps h
  | dag steps => rw [FullSteps.all, List.length_map, length_mapM steps h]

theorem seq_ok {first : Except String Unit} {rest : Except String α} {result : α} :
    (first >>= fun _ => rest) = .ok result ↔ first = .ok () ∧ rest = .ok result := by
  cases first with
  | error e => exact ⟨nofun, fun h => nomatch h.1⟩
  | ok u => exact ⟨fun h => ⟨rfl, h⟩, fun h => h.2⟩

/-- The flow and its document, of this size, are within the limits. -/
structure FlowParseLimits.Admits (limits : FlowParseLimits) (flow : FullFlow) (document : Json) (bytes : Nat) :
    Prop where
  bytes : ∀ m ∈ limits.maxBytes, bytes ≤ m
  nodes : ∀ m ∈ limits.maxNodes, document.nodes ≤ m
  fits : limits.fits 1 document = true
  steps : ∀ m ∈ limits.maxSteps, flow.steps.all.length ≤ m

namespace Serializer

variable {serializer : Serializer} {limits : FlowParseLimits} {flow : FullFlow} {document : Json}

theorem flowToDict_eq (h : serializer.flowToDict flow = some document) :
    ∃ documents conditions, flow.steps.documents serializer.writer = some documents ∧
      flow.fields serializer.writer = some (flow.fieldsWith (.array documents) conditions) ∧
      document = .object (flow.fieldsWith (.array documents) conditions ++
        [("format_version", .str flowFormatVersion), ("type", .str (discriminator flow.steps.isDag))]) := by
  obtain ⟨fields, hfields, rfl⟩ := Option.map_eq_some_iff.1 h
  have hown := hfields
  simp only [FullFlow.fields, Option.bind_eq_bind, Option.bind_eq_some_iff, Option.pure_def,
    Option.some.injEq] at hown
  obtain ⟨documents, hdocuments, conditions, -, rfl⟩ := hown
  exact ⟨documents, conditions, hdocuments, hfields, rfl⟩

theorem checkByteSize_ok : limits.checkByteSize bytes = .ok () ↔ ∀ m ∈ limits.maxBytes, bytes ≤ m := by
  rw [FlowParseLimits.checkByteSize, ← exceeds_eq_false]
  cases exceeds limits.maxBytes bytes <;> simp

theorem checkStepCount_ok (h : serializer.flowToDict flow = some document) :
    limits.checkStepCount document.sorted = .ok () ↔ ∀ m ∈ limits.maxSteps, flow.steps.all.length ≤ m := by
  obtain ⟨documents, conditions, hdocuments, -, rfl⟩ := flowToDict_eq h
  have hfield : (Json.object (flow.fieldsWith (.array documents) conditions ++
      [("format_version", .str flowFormatVersion), ("type", .str (discriminator flow.steps.isDag))])).sorted.field
        "steps" = some (.array (Json.sortedItems documents)) := by
    rw [Json.field_sorted]
    rfl
  rw [FlowParseLimits.checkStepCount, hfield, ← FullSteps.length_documents hdocuments,
    ← length_sortedItems documents, ← exceeds_eq_false]
  change (if exceeds limits.maxSteps (Json.sortedItems documents).length = true then Except.error _ else .ok ()) =
    .ok () ↔ _
  cases exceeds limits.maxSteps (Json.sortedItems documents).length <;> simp

theorem readType_document (h : serializer.flowToDict flow = some document) :
    serializer.readType document.sorted = .ok flow.steps.isDag := by
  obtain ⟨documents, conditions, -, -, rfl⟩ := flowToDict_eq h
  cases hdag : flow.steps.isDag <;> simp [readType, Json.field_sorted, FullFlow.fieldsWith, discriminator, List.lookup_cons]

theorem checkFormatVersion_document (h : serializer.flowToDict flow = some document) :
    serializer.checkFormatVersion document.sorted = .ok () := by
  obtain ⟨documents, conditions, -, -, rfl⟩ := flowToDict_eq h
  have hfield : (Json.object (flow.fieldsWith (.array documents) conditions ++
      [("format_version", .str flowFormatVersion), ("type", .str (discriminator flow.steps.isDag))])).sorted.field
        "format_version" = some (.str flowFormatVersion) := by
    rw [Json.field_sorted]
    rfl
  rw [checkFormatVersion, hfield]
  exact if_pos rfl

/-- A flow comes back the same from its document exactly if it is plain and the
document within the limits. -/
theorem flowFromDict_document (h : serializer.flowToDict flow = some document) :
    (∃ read, serializer.flowFromDict limits document.sorted = .ok read ∧ read.normal = flow.normal) ↔
      ((∀ m ∈ limits.maxNodes, document.sorted.nodes ≤ m) ∧ limits.fits 1 document.sorted = true) ∧
        (∀ m ∈ limits.maxSteps, flow.steps.all.length ≤ m) ∧ flow.Plain serializer.writer := by
  obtain ⟨documents, conditions, hdocuments, hfields, hdocument⟩ := flowToDict_eq h
  have hvalid := FullFlow.validate_document hfields
    [("format_version", .str flowFormatVersion), ("type", .str (discriminator flow.steps.isDag))]
    ["type", "format_version"] (by simp [FullFlow.fieldsWith])
  rw [← hdocument] at hvalid
  have hvalidate : (∃ read, serializer.validateFlow flow.steps.isDag document.sorted = .ok read ∧
      read.normal = flow.normal) ↔ flow.Plain serializer.writer := by
    rw [← hvalid, validateFlow]
    cases FullFlow.validate flow.steps.isDag (document.sorted.without ["type", "format_version"]) with
    | none => simp
    | some read => simp
  have hobject : ∃ entries, document.sorted = .object entries := ⟨_, by rw [hdocument, Json.sorted]⟩
  obtain ⟨entries, hobject⟩ := hobject
  have hread : ∀ read, serializer.flowFromDict limits document.sorted = .ok read ↔
      limits.enforceStructure document.sorted = .ok () ∧ limits.checkStepCount document.sorted = .ok () ∧
        serializer.validateFlow flow.steps.isDag document.sorted = .ok read := by
    intro read
    have htype := readType_document h
    have hversion := checkFormatVersion_document h
    rw [hobject] at htype hversion ⊢
    rw [flowFromDict, seq_ok, seq_ok, htype]
    change _ ∧ _ ∧ (serializer.checkFormatVersion (.object entries) >>= fun _ => _) = _ ↔ _
    rw [seq_ok, hversion]
    simp only [true_and]
  simp only [hread, ← FlowParseLimits.enforceStructure_ok, ← checkStepCount_ok h, ← hvalidate]
  constructor
  · rintro ⟨read, ⟨hstructure, hsteps, hok⟩, hnormal⟩
    exact ⟨hstructure, hsteps, read, hok, hnormal⟩
  · rintro ⟨hstructure, hsteps, read, hok, hnormal⟩
    exact ⟨read, ⟨hstructure, hsteps, hok⟩, hnormal⟩

end Serializer

-- Resolution

theorem Value.sorted_eq_str {value : Value} : value.sorted = .str s ↔ value = .str s := by
  cases value <;> simp [Value.sorted]

theorem resolveSource_literal (h : ∀ s, value ≠ .str s) : resolveSource context label stepIndex value = .ok value := by
  cases value with
  | str s => exact absurd rfl (h s)
  | _ => rfl

/-- A source resolves whatever the step is called. -/
theorem resolveSource_str (context : Dict) (label label' : String) (stepIndex stepIndex' : Int) (s : String) :
    (resolveSource context label stepIndex (.str s)).toOption =
      (resolveSource context label' stepIndex' (.str s)).toOption := by
  rw [resolveSource, resolveSource]
  cases Pointer.isPointer s with
  | true =>
    rw [if_pos rfl, if_pos rfl]
    cases Pointer.resolvePointer (.dict context.entries) s <;> rfl
  | false =>
    rw [if_neg Bool.false_ne_true, if_neg Bool.false_ne_true]
    cases context.get? s <;> rfl

theorem resolveSource_alike (context : Dict) (label label' : String) (stepIndex stepIndex' : Int) {a b : Value}
    (h : a.sorted = b.sorted) :
    (resolveSource context label stepIndex a).toOption.map Value.sorted =
      (resolveSource context label' stepIndex' b).toOption.map Value.sorted := by
  by_cases hstr : ∃ s, a = .str s
  · obtain ⟨s, rfl⟩ := hstr
    obtain rfl : b = .str s := Value.sorted_eq_str.1 h.symm
    rw [resolveSource_str]
  · have ha : ∀ s, a ≠ .str s := fun s hs => hstr ⟨s, hs⟩
    have hb : ∀ s, b ≠ .str s := fun s hs => ha s (Value.sorted_eq_str.1 (by rw [h, hs]; rfl))
    rw [resolveSource_literal ha, resolveSource_literal hb]
    exact congrArg some h

theorem resolveAll_get? (entries : List (String × Value)) (hnodup : (entries.map Prod.fst).Nodup)
    (h : resolveAll context label stepIndex entries resolved = .ok result) (key : String) :
    result.get? key = match entries.lookup key with
      | some source => (resolveSource context label stepIndex source).toOption
      | none => resolved.get? key := by
  induction entries generalizing resolved with
  | nil =>
    obtain rfl := Except.ok.inj h
    rfl
  | cons entry rest ih =>
    obtain ⟨name, source⟩ := entry
    rw [List.map_cons, List.nodup_cons] at hnodup
    rw [resolveAll] at h
    cases hsource : resolveSource context label stepIndex source with
    | error e =>
      rw [hsource] at h
      cases h
    | ok value =>
      rw [hsource] at h
      rw [ih hnodup.2 h, OrderedDict.lookup_cons_if]
      by_cases hkey : key = name
      · subst hkey
        have hnone : rest.lookup key = none := by
          rw [List.lookup_eq_none_iff]
          intro entry hentry
          have hne : key ≠ entry.1 := fun heq => hnodup.1 (List.mem_map.2 ⟨entry, hentry, heq.symm⟩)
          simpa using hne
        rw [hnone, if_pos rfl, OrderedDict.get?_insert, if_pos rfl]
        change some value = (resolveSource context label stepIndex source).toOption
        rw [hsource]
        rfl
      · rw [if_neg hkey, OrderedDict.get?_insert, if_neg hkey]

theorem resolveAll_error (entries : List (String × Value))
    (h : resolveAll context label stepIndex entries resolved = .error e) :
    ∃ entry ∈ entries, (resolveSource context label stepIndex entry.2).toOption = none := by
  induction entries generalizing resolved with
  | nil => cases h
  | cons entry rest ih =>
    rw [resolveAll] at h
    cases hsource : resolveSource context label stepIndex entry.2 with
    | error e' => exact ⟨entry, List.mem_cons_self, by rw [hsource]; rfl⟩
    | ok value =>
      rw [hsource] at h
      obtain ⟨other, hother, hnone⟩ := ih h
      exact ⟨other, List.mem_cons_of_mem _ hother, hnone⟩

/-- Both fail, or both give the same keys with the same values up to key order. -/
def ResolveAlike : Except Exc Dict → Except Exc Dict → Prop
  | .ok a, .ok b => ∀ key, (a.get? key).map Value.sorted = (b.get? key).map Value.sorted
  | .error _, .error _ => True
  | _, _ => False

theorem resolveAll_sources (entries : List (String × Value))
    (h : resolveAll context label stepIndex entries resolved = .ok result) :
    ∀ entry ∈ entries, (resolveSource context label stepIndex entry.2).toOption ≠ none := by
  induction entries generalizing resolved with
  | nil => nofun
  | cons entry rest ih =>
    rw [resolveAll] at h
    cases hsource : resolveSource context label stepIndex entry.2 with
    | error e =>
      rw [hsource] at h
      cases h
    | ok value =>
      rw [hsource] at h
      rw [List.forall_mem_cons, hsource]
      exact ⟨nofun, ih h⟩

section
variable {a b : Dict}

theorem lookup_alike (h : sortedDict a = sortedDict b) (key : String) :
    (a.entries.lookup key).map Value.sorted = (b.entries.lookup key).map Value.sorted := by
  have hget := congrArg (OrderedDict.get? · key) h
  rwa [get?_sortedDict, get?_sortedDict] at hget

theorem isEmpty_alike (h : sortedDict a = sortedDict b) : a.isEmpty = b.isEmpty := by
  have hlength : ∀ d : Dict, (sortedDict d).entries.length = d.entries.length := by
    intro d
    rw [entries_sortedDict, (SortedEntries.perm_sort _).length_eq, Value.sortedEntries_eq_map, List.length_map]
  have heq : a.entries.length = b.entries.length := by rw [← hlength a, ← hlength b, h]
  rw [OrderedDict.isEmpty, OrderedDict.isEmpty, Bool.eq_iff_iff, List.isEmpty_iff_length_eq_zero,
    List.isEmpty_iff_length_eq_zero, heq]

/-- A source that does not resolve has a counterpart that does not either. -/
theorem unresolved_alike (h : sortedDict a = sortedDict b) (hentry : entry ∈ a.entries)
    (hnone : (resolveSource context label stepIndex entry.2).toOption = none) :
    ∃ other ∈ b.entries, (resolveSource context label' stepIndex' other.2).toOption = none := by
  have hlookup : a.entries.lookup entry.1 = some entry.2 := OrderedDict.get?_eq_some_iff.2 hentry
  have halike := lookup_alike h entry.1
  rw [hlookup, Option.map_some] at halike
  obtain ⟨source, hsource, hsorted⟩ := Option.map_eq_some_iff.1 halike.symm
  refine ⟨(entry.1, source), OrderedDict.get?_eq_some_iff.1 hsource, ?_⟩
  have hmap := resolveSource_alike context label label' stepIndex stepIndex' hsorted.symm
  rw [hnone] at hmap
  exact Option.map_eq_none_iff.1 hmap.symm

end

/-- Steps with the same mapping up to key order resolve alike in every context. -/
theorem resolveInputs_alike {s t : FlowStep} (h : sortedDict s.inputMapping = sortedDict t.inputMapping)
    (context : Dict) (stepIndex : Int) :
    ResolveAlike (resolveInputs s context stepIndex) (resolveInputs t context stepIndex) := by
  rw [resolveInputs, resolveInputs, isEmpty_alike h]
  cases t.inputMapping.isEmpty with
  | true => exact fun _ => rfl
  | false =>
    rw [if_neg Bool.false_ne_true, if_neg Bool.false_ne_true]
    cases hs : resolveAll context _ stepIndex s.inputMapping.entries .empty with
    | error e =>
      cases ht : resolveAll context _ stepIndex t.inputMapping.entries .empty with
      | error e' => exact trivial
      | ok result =>
        obtain ⟨entry, hentry, hnone⟩ := resolveAll_error _ hs
        obtain ⟨other, hother, hnone'⟩ := unresolved_alike h hentry hnone
        exact resolveAll_sources _ ht other hother hnone'
    | ok result =>
      cases ht : resolveAll context _ stepIndex t.inputMapping.entries .empty with
      | error e' =>
        obtain ⟨entry, hentry, hnone⟩ := resolveAll_error _ ht
        obtain ⟨other, hother, hnone'⟩ := unresolved_alike h.symm hentry hnone
        exact resolveAll_sources _ hs other hother hnone'
      | ok result' =>
        intro key
        rw [resolveAll_get? _ s.inputMapping.nodup hs, resolveAll_get? _ t.inputMapping.nodup ht]
        have halike := lookup_alike h key
        cases ha : s.inputMapping.entries.lookup key with
        | none =>
          rw [ha] at halike
          rw [Option.map_eq_none_iff.1 halike.symm]
        | some source =>
          rw [ha] at halike
          obtain ⟨other, hother, hsorted⟩ := Option.map_eq_some_iff.1 halike.symm
          rw [hother]
          exact resolveSource_alike _ _ _ _ _ hsorted.symm

-- Round trips

theorem FullSteps.all_normal (steps : FullSteps) : steps.normal.all = steps.all.map FullStep.normal := by
  cases steps with
  | linear steps => rfl
  | dag steps => simp [FullSteps.normal, FullSteps.all, FullDagStep.normal, Function.comp_def]

namespace FullFlow

/-- The flows are equal, as Python compares them, and their steps resolve their
inputs alike in every context. -/
structure Same (flow read : FullFlow) : Prop where
  normal : read.normal = flow.normal
  resolve : List.Forall₂ (fun step own => ∀ context stepIndex,
    ResolveAlike (resolveInputs step.toFlowStep context stepIndex) (resolveInputs own.toFlowStep context stepIndex))
      read.steps.all flow.steps.all

theorem same_iff {flow read : FullFlow} : flow.Same read ↔ read.normal = flow.normal := by
  refine ⟨Same.normal, fun h => ⟨h, ?_⟩⟩
  have hsteps : read.steps.all.map FullStep.normal = flow.steps.all.map FullStep.normal := by
    rw [← FullSteps.all_normal, ← FullSteps.all_normal]
    exact congrArg (fun flow : FullFlow => flow.steps.all) h
  have hmaps : List.Forall₂ (· = ·) (read.steps.all.map FullStep.normal) (flow.steps.all.map FullStep.normal) := by
    rw [hsteps, List.forall₂_eq_eq_eq]
  refine (List.forall₂_map_right_iff.1 (List.forall₂_map_left_iff.1 hmaps)).imp ?_
  intro step own hnormal context stepIndex
  have hmapping : sortedDict step.toFlowStep.inputMapping = sortedDict own.toFlowStep.inputMapping :=
    congrArg FullStep.inputMapping hnormal
  exact resolveInputs_alike hmapping context stepIndex

/-- Every literal has a JSON form of its own, and the text of the flow's document
is within the limits. -/
structure Survives (serializer : Serializer) (limits : FlowParseLimits) (size : Json → Nat) (flow : FullFlow) :
    Prop where
  plain : flow.Plain serializer.writer
  admitted : ∀ document, serializer.flowToDict flow = some document →
    limits.Admits flow document.sorted (size document)

theorem mapM_some {f : α → Option β} (values : List α) (h : ∀ value ∈ values, ∃ result, f value = some result) :
    ∃ results, values.mapM f = some results := by
  induction values with
  | nil => exact ⟨[], rfl⟩
  | cons value rest ih =>
    rw [List.forall_mem_cons] at h
    obtain ⟨result, hresult⟩ := h.1
    obtain ⟨results, hresults⟩ := ih h.2
    exact ⟨result :: results, by simp [hresult, hresults]⟩

theorem stepFields {step : FullStep} (h : step.Plain writer) :
    ∃ fields, step.fields writer = some fields := by
  obtain ⟨entries, hentries, -⟩ := JsonWriter.readEntries_of_plain _ h.1
  exact ⟨_, by rw [FullStep.fields, hentries, Option.map_some]⟩

theorem Plain.flowToDict {serializer : Serializer} {flow : FullFlow} (h : flow.Plain serializer.writer) :
    ∃ document, serializer.flowToDict flow = some document := by
  have hsteps : ∃ documents, flow.steps.documents serializer.writer = some documents := by
    cases hkind : flow.steps with
    | linear steps =>
      refine mapM_some steps fun step hstep => ?_
      obtain ⟨fields, hfields⟩ := stepFields (h.steps step (by rw [hkind]; exact hstep))
      exact ⟨_, by rw [FullStep.document, hfields, Option.map_some]⟩
    | dag steps =>
      refine mapM_some steps fun step hstep => ?_
      have hmem : step.toFullStep ∈ flow.steps.all := by
        rw [hkind]
        exact List.mem_map_of_mem hstep
      obtain ⟨fields, hfields⟩ := stepFields (h.steps step.toFullStep hmem)
      exact ⟨_, by rw [FullDagStep.document, hfields, Option.map_some]⟩
  have hconditions : ∃ document, optionalEntries serializer.writer flow.triggerConditions = some document := by
    cases hconditions : flow.triggerConditions with
    | none => exact ⟨.null, rfl⟩
    | some conditions =>
      obtain ⟨entries, hentries, -⟩ := JsonWriter.readEntries_of_plain _ (h.triggerConditions conditions hconditions)
      exact ⟨_, by rw [optionalEntries, hentries, Option.map_some]⟩
  obtain ⟨documents, hdocuments⟩ := hsteps
  obtain ⟨document, hdocument⟩ := hconditions
  rw [Serializer.flowToDict, FullFlow.fields, hdocuments, hdocument]
  exact ⟨_, rfl⟩

end FullFlow

namespace Serializer

variable (serializer : Serializer)

def yamlSize (document : Json) : Nat := (serializer.safeDump document).utf8ByteSize

def jsonSize (indent : Option Nat) (document : Json) : Nat := (document.sorted.dumps serializer.floats indent 0).length

theorem flowFromJson_ok {document : Json} {read : FullFlow} : serializer.flowFromJson limits ⟨.ok document, bytes⟩ = .ok read ↔
    (∀ m ∈ limits.maxBytes, bytes ≤ m) ∧ serializer.flowFromDict limits document = .ok read := by
  rw [flowFromJson, seq_ok, checkByteSize_ok]

theorem flowFromYaml_ok {document : Json} {read : FullFlow} (hload : serializer.safeLoad text = .ok document)
    (hobject : document ≠ .null) : serializer.flowFromYaml limits text = .ok read ↔
      (∀ m ∈ limits.maxBytes, text.utf8ByteSize ≤ m) ∧ serializer.flowFromDict limits document = .ok read := by
  rw [flowFromYaml, seq_ok, checkByteSize_ok, hload]
  cases document with
  | null => exact absurd rfl hobject
  | _ => rfl

variable {serializer}

/-- What a text of the flow is read as, within a size. -/
theorem survives_iff {document : Json} {size : Json → Nat} (h : serializer.flowToDict flow = some document)
    (limits : FlowParseLimits) :
    (∃ read, ((∀ m ∈ limits.maxBytes, size document ≤ m) ∧
      serializer.flowFromDict limits document.sorted = .ok read) ∧ flow.Same read) ↔
        flow.Survives serializer limits size := by
  have hread := @flowFromDict_document serializer limits flow document h
  simp only [FullFlow.same_iff]
  constructor
  · rintro ⟨read, ⟨hbytes, hok⟩, hnormal⟩
    obtain ⟨⟨hnodes, hfits⟩, hsteps, hplain⟩ := hread.1 ⟨read, hok, hnormal⟩
    refine ⟨hplain, fun document' h' => ?_⟩
    obtain rfl := Option.some.inj (h.symm.trans h')
    exact ⟨hbytes, hnodes, hfits, hsteps⟩
  · rintro ⟨hplain, hadmitted⟩
    obtain ⟨hbytes, hnodes, hfits, hsteps⟩ := hadmitted document h
    obtain ⟨read, hok, hnormal⟩ := hread.2 ⟨⟨hnodes, hfits⟩, hsteps, hplain⟩
    exact ⟨read, ⟨hbytes, hok⟩, hnormal⟩

theorem flowFromJson_same_iff {file : JsonFile} (h : serializer.flowToJson indent flow = some file)
    (limits : FlowParseLimits) : (∃ read, serializer.flowFromJson limits file = .ok read ∧ flow.Same read) ↔
      flow.Survives serializer limits (serializer.jsonSize indent) := by
  obtain ⟨document, hdocument, rfl⟩ := Option.map_eq_some_iff.1 h
  rw [← survives_iff hdocument limits]
  constructor
  · rintro ⟨read, hok, hsame⟩
    exact ⟨read, (serializer.flowFromJson_ok).1 hok, hsame⟩
  · rintro ⟨read, hok, hsame⟩
    exact ⟨read, (serializer.flowFromJson_ok).2 hok, hsame⟩

theorem not_survives (h : serializer.flowToDict flow = none) : ¬ flow.Survives serializer limits size := by
  intro hsurvives
  obtain ⟨document, hdocument⟩ := hsurvives.plain.flowToDict
  rw [h] at hdocument
  cases hdocument

/-- A flow survives its JSON text, and its YAML text, exactly if its literals are
plain and the text is within the limits. -/
theorem serialization_faithful (serializer : Serializer) (limits : FlowParseLimits) (flow : FullFlow)
    (hyaml : ∀ document, serializer.flowToDict flow = some document →
      serializer.safeLoad (serializer.safeDump document) = .ok document.sorted) :
    (∀ indent, (∃ file read, serializer.flowToJson indent flow = some file ∧
      serializer.flowFromJson limits file = .ok read ∧ flow.Same read) ↔
        flow.Survives serializer limits (serializer.jsonSize indent)) ∧
      ((∃ text read, serializer.flowToYaml flow = some text ∧
        serializer.flowFromYaml limits text = .ok read ∧ flow.Same read) ↔
          flow.Survives serializer limits serializer.yamlSize) := by
  cases hdocument : serializer.flowToDict flow with
  | none =>
    have hjson : ∀ indent, serializer.flowToJson indent flow = none := fun indent => by
      rw [flowToJson, hdocument, Option.map_none]
    have hyaml' : serializer.flowToYaml flow = none := by rw [flowToYaml, hdocument, Option.map_none]
    exact ⟨fun indent => iff_of_false (by simp [hjson]) (not_survives hdocument),
      iff_of_false (by simp [hyaml']) (not_survives hdocument)⟩
  | some document =>
    constructor
    · intro indent
      have hfile : ∃ file, serializer.flowToJson indent flow = some file := by
        rw [flowToJson, hdocument]
        exact ⟨_, rfl⟩
      obtain ⟨file, hfile⟩ := hfile
      rw [← flowFromJson_same_iff hfile limits, hfile]
      constructor
      · rintro ⟨_, read, ⟨⟩, hread⟩
        exact ⟨read, hread⟩
      · rintro ⟨read, hread⟩
        exact ⟨file, read, rfl, hread⟩
    · rw [← survives_iff hdocument limits, flowToYaml, hdocument]
      have hobject : document.sorted ≠ .null := by
        obtain ⟨_, _, -, -, rfl⟩ := flowToDict_eq hdocument
        nofun
      have hload := hyaml document hdocument
      constructor
      · rintro ⟨_, read, ⟨⟩, hok, hsame⟩
        exact ⟨read, (serializer.flowFromYaml_ok hload hobject).1 hok, hsame⟩
      · rintro ⟨read, hok, hsame⟩
        exact ⟨_, read, rfl, (serializer.flowFromYaml_ok hload hobject).2 hok, hsame⟩

section

def greetStep (literal : Value) : FullStep where
  target := .tool "greet"
  inputMapping := .ofList [("times", literal)]
  onError_valid := OnError.fail_ne_fallback ""

def greetFlow (literal : Value) : FullFlow where
  name := "greet"
  description := ""
  steps := .linear [greetStep literal]

def greetDocument (literal : Json) : Json :=
  .object ((greetFlow .null).fieldsWith
    (.array [.object ((greetStep .null).fieldsWith { nonFinite := false, setText := none, other := fun _ _ => none }
      (.object [("times", literal)]))]) .null ++
    [("format_version", .str "1"), ("type", .str "Flow")])

def greetYaml : String :=
  "capability_id: null\ncontext_schema_ref: null\ndescription: ''\ndeterministic: true\ndynamic_params: []\n" ++
  "format_version: '1'\ngovernance:\n  estimated_model_calls_removed: 0\n  estimated_token_savings: null\n" ++
  "  lifecycle: active\n  owner: null\n  replaces_tools: []\n  review_notes: null\n  reviewed_by: null\n" ++
  "input_schema_ref: null\nname: greet\non_context_collision: warn\noutput_schema_ref: null\nsafety: null\n" ++
  "status: active\nsteps:\n- decision_candidates: null\n  flow_name: null\n  input_contract: null\n" ++
  "  input_mapping:\n    times: 2\n  on_error: fail\n  output_contract: null\n  output_mapping: null\n" ++
  "  retry: null\n  tool_name: greet\ntool_schema_hashes: null\ntrigger_conditions: null\ntype: Flow\n" ++
  "version: 0.1.0\n"

/-- Paths become their texts; the YAML library knows one text. -/
def greetSerializer : Serializer where
  writer := { nonFinite := false, setText := none, other := fun _ repr => some (.str repr) }
  floats := .half
  validationText _ := ""
  repr _ := ""
  safeDump _ := greetYaml
  safeLoad text := if text = greetYaml then .ok (greetDocument (.int 2)).sorted else .error ""

theorem greetFlow_document :
    greetSerializer.flowToDict (greetFlow (.int 2)) = some (greetDocument (.int 2)) := rfl

theorem greetFlow_survives :
    (greetFlow (.int 2)).Survives greetSerializer {} (greetSerializer.jsonSize (some 2)) where
  plain := by
    refine ⟨fun step hstep => ?_, nofun⟩
    obtain rfl := List.mem_singleton.1 hstep
    exact ⟨rfl, nofun⟩
  admitted document h := by
    obtain rfl := Option.some.inj (greetFlow_document.symm.trans h)
    have hbytes : ∀ m ∈ ({} : FlowParseLimits).maxBytes,
        greetSerializer.jsonSize (some 2) (greetDocument (.int 2)) ≤ m := by decide +kernel
    have hnodes : ∀ m ∈ ({} : FlowParseLimits).maxNodes, (greetDocument (.int 2)).sorted.nodes ≤ m := by
      decide +kernel
    have hfits : ({} : FlowParseLimits).fits 1 (greetDocument (.int 2)).sorted = true := by decide +kernel
    have hsteps : ∀ m ∈ ({} : FlowParseLimits).maxSteps, (greetFlow (.int 2)).steps.all.length ≤ m := by
      decide +kernel
    exact ⟨hbytes, hnodes, hfits, hsteps⟩

theorem serialization_faithful_greet : ∃ file read, greetSerializer.flowToJson (some 2) (greetFlow (.int 2)) =
    some file ∧ greetSerializer.flowFromJson {} file = .ok read ∧ (greetFlow (.int 2)).Same read := by
  refine ((serialization_faithful greetSerializer {} (greetFlow (.int 2)) ?_).1 (some 2)).2 greetFlow_survives
  intro document h
  obtain rfl := Option.some.inj (greetFlow_document.symm.trans h)
  simp only [greetSerializer, if_true]

/-- A path as a literal comes back as a context lookup. -/
theorem serialization_drifts : ¬ ∀ (serializer : Serializer) (limits : FlowParseLimits) (flow : FullFlow),
    ∃ file read, serializer.flowToJson (some 2) flow = some file ∧
      serializer.flowFromJson limits file = .ok read ∧ flow.Same read := by
  intro h
  obtain ⟨file, read, hfile, hok, hsame⟩ := h greetSerializer {} (greetFlow (.obj "PosixPath" "data"))
  have hdocument : greetSerializer.flowToDict (greetFlow (.obj "PosixPath" "data")) =
      some (greetDocument (.str "data")) := rfl
  rw [flowToJson, hdocument] at hfile
  obtain rfl := Option.some.inj hfile
  have hread := (greetSerializer.flowFromJson_ok).1 hok
  have hplain := ((flowFromDict_document hdocument).1 ⟨read, hread.2, FullFlow.same_iff.1 hsame⟩).2.2
  have hstep := (hplain.steps (greetStep (.obj "PosixPath" "data")) List.mem_cons_self).1
  exact absurd hstep (by decide)

end

end Serializer

end ChainWeaver
