import ChainWeaver.AgentTracesLaws
import ChainWeaver.CandidateFiles
import ChainWeaver.LoadScopedRedactionLaws
import ChainWeaver.ObserverLaws

/-!
# Laws of the candidate files

Each run of a history loses nothing exactly if it meets its condition on the files it finds
(`lossless_iff_meets`). `record` changes no file that is there (`record_keeps`).
-/

namespace ChainWeaver.CandidateFiles

open AgentTraces (AgentTraceEvent CandidateScore DraftFlow Texts)
open Passes (pass)

-- Flows as they are read back

/-- All that is mapped are keys. -/
def KeyMapped (steps : List FlowStep) : Prop :=
  ∀ step ∈ steps, ∀ entry ∈ step.inputMapping.entries, ∃ key, entry.2 = .str key

theorem mem_ofList {pairs : List (String × α)} {entry : String × α}
    (h : entry ∈ (OrderedDict.ofList pairs).entries) : entry ∈ pairs := by
  have hput (key : String) (value : α) (entries : List (String × α)) :
      ∀ entry ∈ OrderedDict.put key value entries, entry = (key, value) ∨ entry ∈ entries := by
    intro entry hentry
    induction entries with
    | nil => exact .inl (List.mem_singleton.1 hentry)
    | cons first rest ih =>
      unfold OrderedDict.put at hentry
      split at hentry
      · exact (List.mem_cons.1 hentry).imp_right (List.mem_cons_of_mem _)
      · rcases List.mem_cons.1 hentry with rfl | hentry
        · exact .inr List.mem_cons_self
        · exact (ih hentry).imp_right (List.mem_cons_of_mem _)
  have hfold (d : OrderedDict α) : entry ∈ (pairs.foldl (fun d p => d.insert p.1 p.2) d).entries →
      entry ∈ pairs ∨ entry ∈ d.entries := by
    clear h
    induction pairs generalizing d with
    | nil => exact .inr
    | cons pair rest ih =>
      intro hentry
      rcases ih _ hentry with hrest | hentry
      · exact .inl (List.mem_cons_of_mem _ hrest)
      · refine (hput pair.1 pair.2 d.entries entry hentry).imp_left ?_
        rintro rfl
        exact List.mem_cons_self
  exact (hfold .empty h).resolve_right List.not_mem_nil

theorem mapped_keys {keys : List String} {entry : String × Value}
    (h : entry ∈ (OrderedDict.ofList (keys.map fun key => (key, Value.str key))).entries) :
    ∃ key, entry.2 = .str key := by
  obtain ⟨key, -, rfl⟩ := List.mem_map.1 (mem_ofList h)
  exact ⟨key, rfl⟩

section

variable {flow : Flow} {description : String} {governance : FlowGovernance} {writer : JsonWriter}

theorem plain_of_keys {entries : List (String × Value)} (h : ∀ entry ∈ entries, ∃ key, entry.2 = .str key)
    (nonFinite : Bool) : Value.plainEntries nonFinite entries = true := by
  induction entries with
  | nil => rfl
  | cons entry rest ih =>
    obtain ⟨⟨key, hkey⟩, hrest⟩ := List.forall_mem_cons.1 h
    obtain ⟨name, value⟩ := entry
    obtain rfl : value = .str key := hkey
    simp [Value.plainEntries, Value.plain, ih hrest]

theorem writeEntries_keys {entries : List (String × Value)} (h : ∀ entry ∈ entries, ∃ key, entry.2 = .str key) :
    ∃ written, writer.writeEntries entries = some written ∧ written.map Prod.fst = entries.map Prod.fst ∧
      Json.DistinctEntries written := by
  induction entries with
  | nil => exact ⟨[], rfl, rfl, trivial⟩
  | cons entry rest ih =>
    obtain ⟨⟨key, hkey⟩, hrest⟩ := List.forall_mem_cons.1 h
    obtain ⟨name, value⟩ := entry
    obtain rfl : value = .str key := hkey
    obtain ⟨written, hwritten, hkeys, hdistinct⟩ := ih hrest
    refine ⟨(name, .str key) :: written, ?_, by rw [List.map_cons, hkeys, List.map_cons], trivial, hdistinct⟩
    simp [JsonWriter.writeEntries, JsonWriter.write, hwritten]

theorem fullFlow_plain (h : KeyMapped flow.steps) : (fullFlow flow description governance).Plain writer := by
  refine ⟨fun step hstep => ?_, nofun⟩
  obtain ⟨own, hown, rfl⟩ := List.mem_map.1 hstep
  exact ⟨plain_of_keys (h own hown) _, nofun⟩

theorem distinct_ofStrings (texts : List String) : (Json.ofStrings texts).Distinct := by
  refine Json.distinctItems_iff.2 fun item hitem => ?_
  obtain ⟨text, -, rfl⟩ := List.mem_map.1 hitem
  trivial

theorem distinct_name (name : Option String) : (Json.ofOption .str name).Distinct := by
  cases name <;> trivial

theorem fullStep_document {step : FlowStep} (h : ∀ entry ∈ step.inputMapping.entries, ∃ key, entry.2 = .str key) :
    ∃ document, (fullStep step).document writer = some document ∧ document.Distinct := by
  obtain ⟨written, hwritten, hkeys, hdistinct⟩ : ∃ written, writer.writeEntries step.inputMapping.entries =
      some written ∧ _ := writeEntries_keys h
  have hfields : (fullStep step).fields writer = some ((fullStep step).fieldsWith writer (.object written)) := by
    rw [FullStep.fields, fullStep, hwritten]
    rfl
  refine ⟨_, by rw [FullStep.document, hfields, Option.map_some], ?_⟩
  have hmapping : (Json.object written).Distinct := ⟨hkeys ▸ step.inputMapping.nodup, hdistinct⟩
  simp only [FullStep.fieldsWith, Json.Distinct, Json.DistinctEntries, fullStep, Json.ofOption, and_true]
  exact ⟨by simp, distinct_name _, distinct_name _, hmapping⟩

theorem governance_distinct : governance.document.Distinct := by
  have hcount (count : Option Nat) : (Json.ofOption (fun n : Nat => .int n) count).Distinct := by
    cases count <;> trivial
  simp only [FlowGovernance.document, Json.Distinct, Json.DistinctEntries, true_and, and_true]
  exact ⟨by simp, distinct_name _, distinct_ofStrings _, hcount _, distinct_name _, distinct_name _⟩

/-- The keys in the document of a candidate's flow are different. -/
theorem fullFlow_document {serializer : Serializer} (h : KeyMapped flow.steps) :
    ∃ document, serializer.flowToDict (fullFlow flow description governance) = some document ∧ document.Distinct := by
  obtain ⟨documents, hdocuments, hdistinct⟩ : ∃ documents,
      (flow.steps.map fullStep).mapM (FullStep.document serializer.writer) = some documents ∧
        Json.DistinctItems documents := by
    generalize flow.steps = steps at h
    induction steps with
    | nil => exact ⟨[], rfl, trivial⟩
    | cons step rest ih =>
      obtain ⟨hstep, hrest⟩ := List.forall_mem_cons.1 h
      obtain ⟨document, hdocument, hfirst⟩ : ∃ document, (fullStep step).document serializer.writer = some document ∧
          document.Distinct := fullStep_document hstep
      obtain ⟨documents, hdocuments, hdistinct⟩ := ih hrest
      exact ⟨document :: documents, by simp [hdocument, hdocuments], hfirst, hdistinct⟩
  have hfields : (fullFlow flow description governance).fields serializer.writer =
      some ((fullFlow flow description governance).fieldsWith (.array documents) .null) := by
    simp [FullFlow.fields, fullFlow, FullSteps.documents, hdocuments, optionalEntries]
  refine ⟨_, by rw [Serializer.flowToDict, hfields, Option.map_some], ?_⟩
  simp only [FullFlow.fieldsWith, List.cons_append, List.nil_append, Json.Distinct, Json.DistinctEntries, true_and,
    and_true, fullFlow, Json.ofOption]
  exact ⟨by simp, hdistinct, distinct_name _, distinct_name _, distinct_name _, governance_distinct,
    distinct_ofStrings _⟩

end

theorem flowFromDict_limits {serializer : Serializer} {limits : FlowParseLimits} {flow read : FullFlow}
    {document : Json} (hdocument : serializer.flowToDict flow = some document)
    (h : serializer.flowFromDict limits document.sorted = .ok read) :
    limits.enforceStructure document.sorted = .ok () ∧ limits.checkStepCount document.sorted = .ok () := by
  obtain ⟨documents, conditions, -, -, rfl⟩ := Serializer.flowToDict_eq hdocument
  rw [Json.sorted, Serializer.flowFromDict, seq_ok, seq_ok] at h
  exact ⟨h.1, h.2.1⟩

namespace Surroundings

variable {s : Surroundings R} {flow : Flow} {description : String} {governance : FlowGovernance}

/-- What is written for a flow reads back as the flow, within the limits. -/
theorem decode_written (h : KeyMapped flow.steps) :
    ∃ text, s.serializer.flowToYaml (fullFlow flow description governance) = some text ∧
      (∀ read, s.decode text = .ok read → s.Readable (fullFlow flow description governance) ∧
        read.normal = (fullFlow flow description governance).normal) ∧
      (s.Readable (fullFlow flow description governance) → ∃ read, s.decode text = .ok read) := by
  obtain ⟨document, hdocument, hdistinct⟩ : ∃ document, s.serializer.flowToDict
      (fullFlow flow description governance) = some document ∧ document.Distinct := fullFlow_document h
  have hobject : document.sorted ≠ .null := by
    obtain ⟨_, _, -, -, rfl⟩ := Serializer.flowToDict_eq hdocument
    nofun
  have hread (read : FullFlow) : s.decode (s.serializer.safeDump document) = .ok read ↔
      (∀ m ∈ s.limits.maxBytes, s.serializer.yamlSize document ≤ m) ∧
        s.serializer.flowFromDict s.limits document.sorted = .ok read :=
    s.serializer.flowFromYaml_ok (s.load_dump document hdistinct) hobject
  have hsurvives : _ ↔ s.Readable (fullFlow flow description governance) :=
    Serializer.survives_iff hdocument s.limits
  refine ⟨_, by rw [Serializer.flowToYaml, hdocument, Option.map_some], fun read hdecode => ?_, fun hreadable => ?_⟩
  · obtain ⟨hbytes, hok⟩ := (hread read).1 hdecode
    have hreadable : s.Readable (fullFlow flow description governance) := by
      refine ⟨fullFlow_plain h, fun other hother => ?_⟩
      obtain rfl := Option.some.inj (hdocument.symm.trans hother)
      obtain ⟨hstructure, hsteps⟩ := flowFromDict_limits hdocument hok
      obtain ⟨hnodes, hfits⟩ := (s.limits.enforceStructure_ok _).1 hstructure
      exact ⟨hbytes, hnodes, hfits, (Serializer.checkStepCount_ok hdocument).1 hsteps⟩
    obtain ⟨same, ⟨-, hsame⟩, hnormal⟩ := hsurvives.2 hreadable
    obtain rfl := Except.ok.inj (hok.symm.trans hsame)
    exact ⟨hreadable, hnormal.normal⟩
  · obtain ⟨read, hok, -⟩ := hsurvives.2 hreadable
    exact ⟨read, (hread read).2 hok⟩

end Surroundings


theorem calls_of_normal {flow : Flow} {read : FullFlow} {sequence : List String}
    (hsteps : flow.steps.map (·.target) = sequence.map .tool)
    (h : read.normal = (fullFlow flow description governance).normal) :
    Calls read sequence ∧ read.governance = governance := by
  have hnormal : read.steps.normal = .linear ((flow.steps.map fullStep).map FullStep.normal) :=
    congrArg FullFlow.steps h
  refine ⟨⟨?_, ?_⟩, congrArg (fun flow : FullFlow => flow.governance) h⟩
  · cases hread : read.steps with
    | linear steps => rfl
    | dag steps =>
      rw [hread] at hnormal
      cases hnormal
  · cases hread : read.steps with
    | linear steps =>
      rw [hread] at hnormal
      have htargets : (steps.map FullStep.normal).map (·.target) =
          ((flow.steps.map fullStep).map FullStep.normal).map (·.target) :=
        congrArg (List.map (·.target)) (FullSteps.linear.inj hnormal)
      simp only [List.map_map, Function.comp_def, FullStep.normal, fullStep] at htargets
      rw [← hsteps, ← htargets]
      rfl
    | dag steps =>
      rw [hread] at hnormal
      cases hnormal

-- Mined flows

section

variable {hashing : Hashing} {ratio : Nat → Nat → R}

theorem buildSteps_spec (first : Bool) (upstream : List String) (steps : List Observer.ObservedStep) :
    (Observer.buildSteps hashing first upstream steps).map (·.target) = steps.map (fun step => .tool step.toolName) ∧
      KeyMapped (Observer.buildSteps hashing first upstream steps) := by
  induction steps generalizing first upstream with
  | nil => exact ⟨rfl, fun step hstep => absurd hstep List.not_mem_nil⟩
  | cons observed rest ih =>
    obtain ⟨htargets, hmapped⟩ := ih false (upstream ++ (observed.outputs.map OrderedDict.keys).getD [])
    refine ⟨by rw [Observer.buildSteps, List.map_cons, htargets, List.map_cons], ?_⟩
    exact List.forall_mem_cons.2 ⟨fun entry => mapped_keys, hmapped⟩

/-- The flow of a suggestion is named after its tools and calls them. -/
theorem suggestion_flow {minLength : Nat} {maxLength : Option Nat} {traces : List Observer.ObservedTrace}
    {entry : List String × Nat} {proposal : Observer.FlowSuggestion R}
    (h : Observer.suggestion hashing ratio minLength maxLength traces entry = some proposal) :
    proposal.flow.name = "suggested__" ++ "__".intercalate proposal.tools ∧
      proposal.flow.steps.map (·.target) = proposal.tools.map .tool ∧ KeyMapped proposal.flow.steps := by
  obtain ⟨pattern, count⟩ := entry
  obtain ⟨⟨trace, start⟩, hseen, hproposal⟩ := Option.bind_eq_some_iff.1 h
  obtain rfl := Option.some.inj hproposal
  obtain ⟨other, -, hmem⟩ := List.mem_flatMap.1 (mem_of_lookup hseen)
  obtain ⟨place, hplace, hmem⟩ := List.mem_flatMap.1 hmem
  obtain ⟨seen, hpattern, heq⟩ := List.mem_map.1 hmem
  obtain ⟨rfl, hsighting⟩ := Prod.mk.inj heq
  obtain ⟨rfl, rfl⟩ := Prod.mk.inj hsighting
  obtain ⟨length, hlength, rfl⟩ := List.mem_map.1 hpattern
  have hnames : (Windows.slice place (Windows.slice place length other.toolNames).length other.steps).map (·.toolName) =
      Windows.slice place length other.toolNames := by
    simp [Windows.slice, Observer.ObservedTrace.toolNames, List.map_take, List.map_drop]
  refine ⟨rfl, ?_, (buildSteps_spec true [] _).2⟩
  refine (buildSteps_spec true [] _).1.trans ?_
  have htargets := congrArg (List.map Target.tool) hnames
  rw [List.map_map] at htargets
  exact htargets

/-- The suggestions of a call are for different sequences, each with a flow that calls it. -/
structure Sound (suggestions : List (Observer.FlowSuggestion R)) : Prop where
  different : (suggestions.map (·.tools)).Nodup
  named : ∀ suggestion ∈ suggestions,
    suggestion.flow.name = "suggested__" ++ "__".intercalate suggestion.tools
  calls : ∀ suggestion ∈ suggestions, suggestion.flow.steps.map (·.target) = suggestion.tools.map .tool
  keyMapped : ∀ suggestion ∈ suggestions, KeyMapped suggestion.flow.steps

theorem report_sound {minOccurrences minLength : Nat} {maxLength : Option Nat} {traces : List Observer.ObservedTrace}
    (hoccurs : 0 < minOccurrences) (hlength : 0 < minLength) :
    Sound (Observer.report hashing ratio minOccurrences minLength maxLength true traces) := by
  have hflow : ∀ suggestion ∈ Observer.report hashing ratio minOccurrences minLength maxLength true traces,
      suggestion.flow.name = "suggested__" ++ "__".intercalate suggestion.tools ∧
        suggestion.flow.steps.map (·.target) = suggestion.tools.map .tool ∧ KeyMapped suggestion.flow.steps := by
    intro suggestion hmem
    obtain ⟨entry, -, hentry⟩ := List.mem_filterMap.1 ((List.mem_insertionSort _).1 hmem)
    exact suggestion_flow hentry
  exact ⟨(Observer.report_mined hlength hoccurs).onceCollapsed, fun suggestion h => (hflow suggestion h).1,
    fun suggestion h => (hflow suggestion h).2.1, fun suggestion h => (hflow suggestion h).2.2⟩

theorem suggestFlows_sound {observer : Observer.ChainObserver} {options : Options} {suggestions : List (Observer.FlowSuggestion R)}
    (h : observer.suggestFlows hashing ratio options.minOccurrences options.minLength options.maxLength true =
      .ok suggestions) : Sound suggestions := by
  unfold Observer.ChainObserver.suggestFlows at h
  by_cases hoccurs : options.minOccurrences < 1
  · rw [if_pos hoccurs] at h
    cases h
  by_cases hlength : options.minLength < 1
  · rw [if_neg hoccurs, if_pos hlength] at h
    cases h
  rw [if_neg hoccurs, if_neg hlength] at h
  cases hmax : options.maxLength with
  | none =>
    rw [hmax] at h
    obtain rfl := Except.ok.inj h
    exact report_sound (by omega) (by omega)
  | some cap =>
    rw [hmax] at h
    by_cases hcap : cap < options.minLength
    · simp only [if_pos hcap] at h
      cases h
    · simp only [if_neg hcap] at h
      obtain rfl := Except.ok.inj h
      exact report_sound (by omega) (by omega)

end

theorem draftSteps_spec (window : List AgentTraceEvent) (position : Nat) (upstream : List String) :
    (∀ step ∈ (AgentTraces.draftSteps position upstream window).1, step.target = .tool (AgentTraces.stepName step)) ∧
      KeyMapped (AgentTraces.draftSteps position upstream window).1 := by
  induction window generalizing position upstream with
  | nil =>
    exact ⟨fun step hstep => absurd hstep List.not_mem_nil, fun step hstep => absurd hstep List.not_mem_nil⟩
  | cons observed rest ih =>
    obtain ⟨htargets, hmapped⟩ := ih (position + 1) (upstream ++ observed.outputKeys)
    exact ⟨List.forall_mem_cons.2 ⟨rfl, htargets⟩, List.forall_mem_cons.2 ⟨fun entry => mapped_keys, hmapped⟩⟩

section

variable {events : List AgentTraceEvent} {score : CandidateScore} {draft : DraftFlow}

/-- A draft is named after its sequence and calls it. -/
theorem draft_flow (h : AgentTraces.draftFlowFromCandidate events score none = .ok draft) :
    draft.score = score ∧ draft.flow.name = AgentTraces.candidateFlowName score.sequence ∧
      draft.flow.steps.map (·.target) = score.sequence.map .tool ∧ KeyMapped draft.flow.steps := by
  have hsteps := AgentTraces.draftFlow_steps h
  obtain ⟨htargets, hmapped⟩ := draftSteps_spec (AgentTraces.representativeWindow events score.sequence) 0 []
  rw [← hsteps] at htargets hmapped
  have hnames : draft.flow.steps.map (·.target) = draft.flow.steps.map fun step => .tool (AgentTraces.stepName step) :=
    List.map_congr_left htargets
  have hcalls : draft.flow.steps.map (·.target) = score.sequence.map .tool := by
    rw [hnames, ← AgentTraces.draftFlow_sequence h, List.map_map]
    rfl
  rw [AgentTraces.draftFlowFromCandidate] at h
  dsimp only at h
  split at h
  · cases h
  · obtain rfl := Except.ok.inj h
    exact ⟨rfl, rfl, hcalls, hmapped⟩

theorem exists_draft_iff : (∃ draft, AgentTraces.draftFlowFromCandidate events score none = .ok draft) ↔
    0 ≤ (score.estimatedInputTokensSaved + score.estimatedOutputTokensSaved) * score.support := by
  rw [AgentTraces.draftFlowFromCandidate]
  dsimp only
  rw [← Int.not_lt]
  split
  · next h =>
    refine iff_of_false ?_ (not_not_intro h)
    rintro ⟨draft, hdraft⟩
    cases hdraft
  · next h => exact iff_of_true ⟨_, rfl⟩ h

end

-- Places

theorem fileName_append {name suffix : String} (h : ∀ c ∈ suffix.toList, c ≠ '/') :
    fileName (name ++ suffix) = fileName name ++ suffix := by
  have hall : ∀ c ∈ suffix.toList.reverse, (decide (c ≠ '/')) = true := by simpa using h
  simp only [fileName, String.toList_append, List.reverse_append, List.takeWhile_append_of_pos hall,
    List.reverse_reverse]
  rw [← String.ofList_toList (s := suffix), String.ofList_append, String.ofList_toList]

theorem folderPart_append {name suffix : String} (h : ∀ c ∈ suffix.toList, c ≠ '/') :
    folderPart (name ++ suffix) = folderPart name := by
  have hall : ∀ c ∈ suffix.toList.reverse, (decide (c ≠ '/')) = true := by simpa using h
  simp only [folderPart, String.toList_append, List.reverse_append, List.dropWhile_append_of_pos hall]

namespace OutputDir

variable {dir : OutputDir} {name : String} {place : dir.Place}

theorem place_eq_some {path : String} : dir.place path = some place ↔
    dir.enter (folderPart path) = some place.1 ∧ dir.opens place.1 place.2 = true ∧ place.2 = fileName path := by
  obtain ⟨folder, file⟩ := place
  simp only [OutputDir.place, Option.bind_eq_some_iff, Option.ite_none_right_eq_some, Option.some.injEq, Prod.mk.injEq]
  constructor
  · rintro ⟨_, henter, hopens, rfl, rfl⟩
    exact ⟨henter, hopens, rfl⟩
  · rintro ⟨henter, hopens, rfl⟩
    exact ⟨folder, henter, hopens, rfl, rfl⟩

theorem place_flow : dir.place (name ++ ".flow.yaml") = some place ↔
    dir.enter (folderPart name) = some place.1 ∧ dir.opens place.1 place.2 = true ∧
      place.2 = fileName name ++ ".flow.yaml" := by
  rw [place_eq_some, folderPart_append (by simp), fileName_append (by simp)]

theorem flow_suffix (h : dir.place (name ++ ".flow.yaml") = some place) : ".flow.yaml".toList <:+ place.2.toList := by
  rw [(place_flow.1 h).2.2, String.toList_append]
  exact List.suffix_append _ _

/-- Where the flow is written there is room for its sidecar, which is no candidate file. -/
theorem exists_sidecar (h : dir.place (name ++ ".flow.yaml") = some place) :
    ∃ sidecar, dir.place (name ++ ".json") = some sidecar ∧ ¬".flow.yaml".toList <:+ sidecar.2.toList := by
  obtain ⟨henter, hopens, hname⟩ := place_flow.1 h
  refine ⟨(place.1, fileName name ++ ".json"), ?_, ?_⟩
  · rw [place_eq_some, folderPart_append (by simp), fileName_append (by simp)]
    exact ⟨henter, dir.opens_shorter place.1 _ (hname ▸ hopens), rfl⟩
  · rintro ⟨front, hfront⟩
    have hlast := congrArg List.getLast? hfront
    simp at hlast

end OutputDir

theorem sanitizePathComponent_safe (component : String) :
    ∀ c ∈ (sanitizePathComponent component).toList, c ≠ '/' := by
  have hchar (c : Char) : (if safePathChar c = true then c else '_') ≠ '/' := by
    split
    · rintro rfl
      contradiction
    · decide
  unfold sanitizePathComponent
  dsimp only
  split
  · simp
  · intro c hc
    rw [String.toList_ofList] at hc
    obtain ⟨own, -, rfl⟩ := List.mem_map.1 hc
    exact hchar own

/-- No file of `record` is outside of the output directory. -/
theorem record_here {dir : OutputDir} {place : dir.Place} {calls : List ToolCall} {options : Options}
    {sequence : List String} (h : dir.place (path (.record calls options) sequence) = some place) :
    place.1 = dir.here := by
  have hsafe := sanitizePathComponent_safe ("suggested__" ++ "__".intercalate sequence)
  obtain ⟨henter, -, -⟩ := OutputDir.place_flow.1 h
  have hpart : folderPart (sanitizePathComponent ("suggested__" ++ "__".intercalate sequence)) = "" := by
    have hall : ∀ c ∈ (sanitizePathComponent ("suggested__" ++ "__".intercalate sequence)).toList.reverse,
        (decide (c ≠ '/')) = true := by simpa using hsafe
    rw [folderPart, List.dropWhile_eq_nil_iff.2 hall]
    rfl
  rw [hpart, dir.enter_here] at henter
  exact (Option.some.inj henter).symm

namespace Surroundings

variable {s : Surroundings R} {files : s.dir.Files}

-- Drafts in files

section

variable {draft : DraftFlow} {text : String} {dest : s.dir.Place}

theorem writeDraft_frame {place : s.dir.Place} (hfile : ".flow.yaml".toList <:+ place.2.toList)
    (hother : s.dir.place (draft.flow.name ++ ".flow.yaml") ≠ some place) :
    (s.writeDraft draft files).1 place = files place := by
  unfold writeDraft
  split
  · next text dest htext hdest =>
    have hdest' : place ≠ dest := fun heq => hother (heq ▸ hdest)
    obtain ⟨sidecar, hsidecar, hname⟩ := OutputDir.exists_sidecar hdest
    have hsidecar' : place ≠ sidecar := fun heq => hname (heq ▸ hfile)
    simp only [hsidecar, Function.update_of_ne hsidecar', Function.update_of_ne hdest']
  · rfl

theorem writeDraft_done (htext : s.serializer.flowToYaml (s.drafted draft) = some text)
    (hdest : s.dir.place (draft.flow.name ++ ".flow.yaml") = some dest) (files : s.dir.Files) :
    (s.writeDraft draft files).2 = true ∧ (s.writeDraft draft files).1 dest = some text := by
  obtain ⟨sidecar, hsidecar, hname⟩ := OutputDir.exists_sidecar hdest
  have hsidecar' : dest ≠ sidecar := fun heq => hname (heq ▸ OutputDir.flow_suffix hdest)
  simp only [writeDraft, htext, hdest, hsidecar, Function.update_of_ne hsidecar', Function.update_self, true_and]

end

/-- Drafts with places of their own are all written. -/
theorem drafts_written {drafts : List DraftFlow} {text : DraftFlow → String}
    (htext : ∀ draft ∈ drafts, s.serializer.flowToYaml (s.drafted draft) = some (text draft))
    (hopened : ∀ draft ∈ drafts, ∃ place, s.dir.place (draft.flow.name ++ ".flow.yaml") = some place)
    (hdifferent : drafts.Pairwise fun draft other =>
      s.dir.place (draft.flow.name ++ ".flow.yaml") ≠ s.dir.place (other.flow.name ++ ".flow.yaml"))
    (files : s.dir.Files) : ∀ draft ∈ drafts, ∀ place, s.dir.place (draft.flow.name ++ ".flow.yaml") = some place →
      (pass s.writeDraft drafts files).1 place = some (text draft) := by
  intro draft hdraft place hplace
  have hall := Passes.pass_slots s.writeDraft (fun draft => s.dir.place (draft.flow.name ++ ".flow.yaml"))
    (fun place files => place.bind files) (fun draft _ => some (text draft)) files hdifferent
    (fun draft hdraft other hother hne files => ?_) (fun draft hdraft files _ => ?_) draft hdraft
  · rwa [hplace] at hall
  · obtain ⟨place, hplace⟩ := hopened other hother
    rw [hplace] at hne ⊢
    exact writeDraft_frame (OutputDir.flow_suffix hplace) hne.symm
  · obtain ⟨place, hplace⟩ := hopened draft hdraft
    rw [hplace]
    exact writeDraft_done (htext draft hdraft) hplace files

-- Recorded candidates in files

section

variable {suggestion : Observer.FlowSuggestion R} {dest : s.dir.Place}

theorem recordCandidate_frame {place : s.dir.Place}
    (hother : s.dir.place (sanitizePathComponent suggestion.flow.name ++ ".flow.yaml") ≠ some place) :
    (s.recordCandidate suggestion files).1 place = files place := by
  unfold recordCandidate
  split
  · rfl
  · next dest hdest =>
    have hdest' : place ≠ dest := fun heq => hother (heq ▸ hdest)
    split
    · split <;> rfl
    · split
      · rfl
      · split
        · rfl
        · exact Function.update_of_ne hdest' _ _

/-- A file that is there stays. -/
theorem recordCandidate_keeps {place : s.dir.Place} {text : String} (h : files place = some text) :
    (s.recordCandidate suggestion files).1 place = some text := by
  by_cases hdest : s.dir.place (sanitizePathComponent suggestion.flow.name ++ ".flow.yaml") = some place
  · simp only [recordCandidate, hdest, h]
    split <;> exact h
  · rw [recordCandidate_frame hdest, h]

theorem recordCandidate_done {draft : FullFlow} {text : String} (haccepted : s.accepted suggestion = .ok draft)
    (htext : s.serializer.flowToYaml draft = some text)
    (hdest : s.dir.place (sanitizePathComponent suggestion.flow.name ++ ".flow.yaml") = some dest)
    (hreadable : ∀ existing, files dest = some existing → ∃ flow, s.decode existing = .ok flow) :
    (s.recordCandidate suggestion files).2 = true ∧
      (s.recordCandidate suggestion files).1 dest = some ((files dest).getD text) := by
  cases hexisting : files dest with
  | none =>
    simp only [recordCandidate, hdest, hexisting, haccepted, htext, Function.update_self, true_and]
    rfl
  | some existing =>
    obtain ⟨flow, hflow⟩ := hreadable existing hexisting
    simp only [recordCandidate, hdest, hexisting, hflow, true_and]
    rfl

end

theorem suggestions_recorded {suggestions : List (Observer.FlowSuggestion R)} {text : Observer.FlowSuggestion R → String}
    (htext : ∀ suggestion ∈ suggestions, ∃ draft, s.accepted suggestion = .ok draft ∧
      s.serializer.flowToYaml draft = some (text suggestion))
    (hopened : ∀ suggestion ∈ suggestions, ∃ place,
      s.dir.place (sanitizePathComponent suggestion.flow.name ++ ".flow.yaml") = some place)
    (hreadable : ∀ suggestion ∈ suggestions, ∀ place,
      s.dir.place (sanitizePathComponent suggestion.flow.name ++ ".flow.yaml") = some place →
        ∀ existing, files place = some existing → ∃ flow, s.decode existing = .ok flow)
    (hdifferent : suggestions.Pairwise fun suggestion other =>
      s.dir.place (sanitizePathComponent suggestion.flow.name ++ ".flow.yaml") ≠
        s.dir.place (sanitizePathComponent other.flow.name ++ ".flow.yaml")) :
    ∀ suggestion ∈ suggestions, ∀ place,
      s.dir.place (sanitizePathComponent suggestion.flow.name ++ ".flow.yaml") = some place →
        (pass s.recordCandidate suggestions files).1 place = some ((files place).getD (text suggestion)) := by
  intro suggestion hmem place hplace
  have hall := Passes.pass_slots s.recordCandidate
    (fun suggestion => s.dir.place (sanitizePathComponent suggestion.flow.name ++ ".flow.yaml"))
    (fun place files => place.bind files) (fun suggestion old => some (old.getD (text suggestion))) files
    hdifferent
    (fun suggestion hmem other hother hne files => ?_) (fun suggestion hmem files' hsame => ?_) suggestion hmem
  · rwa [hplace] at hall
  · obtain ⟨place, hplace⟩ := hopened other hother
    rw [hplace] at hne ⊢
    exact recordCandidate_frame hne.symm
  · obtain ⟨place, hplace⟩ := hopened suggestion hmem
    obtain ⟨draft, haccepted, hdraft⟩ := htext suggestion hmem
    rw [hplace] at hsame ⊢
    replace hsame : files' place = files place := hsame
    have hdone : (s.recordCandidate suggestion files').2 = true ∧
        (s.recordCandidate suggestion files').1 place = some ((files' place).getD (text suggestion)) :=
      recordCandidate_done haccepted hdraft hplace (hsame ▸ hreadable suggestion hmem place hplace)
    rw [hsame] at hdone
    exact hdone

-- Commands

theorem suggestions_sound {command : Command} {suggestions : List (Observer.FlowSuggestion R)}
    (h : s.suggestions command = .ok suggestions) : Sound suggestions := by
  cases command with
  | draftFlows events options =>
    obtain ⟨observer, -, h⟩ := Attempt.bind_eq_ok.1 h
    exact suggestFlows_sound h
  | record calls options => exact suggestFlows_sound h

theorem sequences_eq {command : Command} {suggestions : List (Observer.FlowSuggestion R)}
    (h : s.suggestions command = .ok suggestions) : s.sequences command = suggestions.map (·.tools) := by
  rw [sequences, h]

theorem sequences_error {command : Command} {e : String} (h : s.suggestions command = .error e) :
    s.sequences command = [] := by
  rw [sequences, h]

theorem sequences_nodup (command : Command) : (s.sequences command).Nodup := by
  cases h : s.suggestions command with
  | error e =>
    rw [sequences_error h]
    exact .nil
  | ok suggestions =>
    rw [sequences_eq h]
    exact (suggestions_sound h).different

/-- Candidates with different sequences have different places. -/
theorem pairwise_places {command : Command} {items : List α} {sequence : α → List String}
    (hperm : (items.map sequence).Perm (s.sequences command)) (hplaced : s.Placed command) :
    items.Pairwise fun item other =>
      s.dir.place (path command (sequence item)) ≠ s.dir.place (path command (sequence other)) := by
  have hnodup := List.pairwise_map.1 (hperm.nodup_iff.2 (sequences_nodup command))
  refine hnodup.imp_of_mem fun hitem hother hne heq => hne ?_
  exact hplaced.apart _ (hperm.subset (List.mem_map_of_mem hitem)) _ (hperm.subset (List.mem_map_of_mem hother)) heq

theorem mineScoredCandidates_eq (events : List AgentTraceEvent) (options : Options) :
    s.mineScoredCandidates events options = s.suggestions (.draftFlows events options) >>= fun suggestions =>
      suggestions.mapM (fun suggestion => AgentTraces.scoreCandidate s.texts events suggestion.tools) >>= fun scores =>
        pure (scores.insertionSort ScoredBefore) := by
  cases hobserver : Observer.fromTraces (agentTraceToTraces events) none <;>
    simp only [mineScoredCandidates, suggestions, hobserver] <;> rfl

/-- The drafts of a run for each of its sequences. -/
structure Drawn (s : Surroundings R) (events : List AgentTraceEvent) (options : Options) (files : s.dir.Files)
    (drafts : List DraftFlow) : Prop where
  run : (s.draftFlows events options files).1 = (pass s.writeDraft drafts files).1
  perm : (drafts.map (·.score.sequence)).Perm (s.sequences (.draftFlows events options))
  drawn : ∀ draft ∈ drafts, ∃ score, AgentTraces.scoreCandidate s.texts events draft.score.sequence = .ok score ∧
    AgentTraces.draftFlowFromCandidate events score none = .ok draft

/-- What `draft-flows` writes: a draft for each sequence, or nothing. -/
theorem draftFlows_cases (events : List AgentTraceEvent) (options : Options) (files : s.dir.Files) :
    (s.Draftable events options ∧ ∃ drafts, Drawn s events options files drafts) ∨
      ¬s.Draftable events options ∧ (s.draftFlows events options files).1 = files := by
  have hmined := s.mineScoredCandidates_eq events options
  cases hsuggestions : s.suggestions (.draftFlows events options) with
  | error e =>
    have hnil := sequences_error hsuggestions
    refine .inl ⟨fun sequence hmem => ?_, [], ⟨?_, ?_, fun draft hdraft => absurd hdraft List.not_mem_nil⟩⟩
    · rw [hnil] at hmem
      cases hmem
    · rw [hsuggestions] at hmined
      simp only [draftFlows, hmined]
      rfl
    · rw [hnil]
      exact .refl _
  | ok suggestions =>
    rw [hsuggestions] at hmined
    let sorted (attempt : Except String (List CandidateScore)) : Except String (List CandidateScore) :=
      attempt >>= fun scores => pure (scores.insertionSort ScoredBefore)
    have hsequences := sequences_eq hsuggestions
    have hdraftable : s.Draftable events options ↔ ∀ suggestion ∈ suggestions, ∃ score,
        AgentTraces.scoreCandidate s.texts events suggestion.tools = .ok score ∧
          ∃ draft, AgentTraces.draftFlowFromCandidate events score none = .ok draft := by
      simp only [Draftable, hsequences, List.forall_mem_map, exists_draft_iff]
    cases hscores : suggestions.mapM fun suggestion =>
        AgentTraces.scoreCandidate s.texts events suggestion.tools with
    | error e =>
      refine .inr ⟨fun h => ?_, ?_⟩
      · obtain ⟨scores, hok⟩ := Attempt.exists_mapM_ok.2 fun suggestion hmem =>
          let ⟨score, hscore, _⟩ := hdraftable.1 h suggestion hmem
          ⟨score, hscore⟩
        cases hscores.symm.trans hok
      · have herror : s.mineScoredCandidates events options = .error e := hmined.trans (congrArg sorted hscores)
        simp only [draftFlows, herror]
    | ok scores =>
      have hok : s.mineScoredCandidates events options = .ok (scores.insertionSort ScoredBefore) :=
        hmined.trans (congrArg sorted hscores)
      have hsorted := List.perm_insertionSort ScoredBefore scores
      have hmem {score} : score ∈ scores.insertionSort ScoredBefore ↔ ∃ suggestion ∈ suggestions,
          AgentTraces.scoreCandidate s.texts events suggestion.tools = .ok score :=
        hsorted.mem_iff.trans (Attempt.mem_mapM hscores)
      have hscored : scores.map (·.sequence) = suggestions.map (·.tools) := by
        clear hok hsorted hmem hdraftable hsequences hmined hsuggestions
        induction Attempt.mapM_eq_ok.1 hscores with
        | nil => rfl
        | @cons suggestion score rest scores hscore hrest ih =>
          rw [List.map_cons, List.map_cons, (AgentTraces.scoreCandidate_sound hscore).1,
            ih (Attempt.mapM_eq_ok.2 hrest)]
      cases hdrafts : (scores.insertionSort ScoredBefore).mapM fun score =>
          AgentTraces.draftFlowFromCandidate events score none with
      | error e =>
        refine .inr ⟨fun h => ?_, by simp only [draftFlows, hok, hdrafts]⟩
        obtain ⟨drafts, hdrafts'⟩ : ∃ drafts, ((scores.insertionSort ScoredBefore).mapM fun score =>
            AgentTraces.draftFlowFromCandidate events score none) = .ok drafts := by
          refine Attempt.exists_mapM_ok.2 fun score hscore => ?_
          obtain ⟨suggestion, hsuggestion, hown⟩ := hmem.1 hscore
          obtain ⟨score', hscore', hdraft⟩ := hdraftable.1 h suggestion hsuggestion
          obtain rfl := Except.ok.inj (hown.symm.trans hscore')
          exact hdraft
        cases hdrafts.symm.trans hdrafts'
      | ok drafts =>
        have hdrawn := Attempt.mapM_eq_ok.1 hdrafts
        have hdrafted : drafts.map (·.score.sequence) = (scores.insertionSort ScoredBefore).map (·.sequence) := by
          clear hmem hsorted hdrafts hok
          generalize scores.insertionSort ScoredBefore = scores at hdrawn
          induction hdrawn with
          | nil => rfl
          | cons hdraft _ ih => rw [List.map_cons, List.map_cons, (draft_flow hdraft).1, ih]
        refine .inl ⟨hdraftable.2 fun suggestion hsuggestion => ?_, drafts,
          ⟨by simp only [draftFlows, hok, hdrafts], ?_, fun draft hdraft => ?_⟩⟩
        · obtain ⟨score, hscore⟩ := Attempt.exists_of_mapM hscores hsuggestion
          exact ⟨score, hscore, Attempt.exists_mapM_ok.1 ⟨drafts, hdrafts⟩ score
            (hmem.2 ⟨suggestion, hsuggestion, hscore⟩)⟩
        · rw [hdrafted, hsequences, ← hscored]
          exact hsorted.map _
        · obtain ⟨score, hscore, hown⟩ := (Attempt.mem_mapM hdrafts).1 hdraft
          obtain ⟨suggestion, -, hscored⟩ := hmem.1 hscore
          refine ⟨score, ?_, hown⟩
          rw [(draft_flow hown).1, (AgentTraces.scoreCandidate_sound hscored).1]
          exact hscored

-- Promises kept

theorem Calls.inj {flow : FullFlow} {sequence other : List String} (h : Calls flow sequence) (h' : Calls flow other) :
    sequence = other :=
  List.map_injective_iff.2 (fun _ _ => Target.tool.inj) (h.2.symm.trans h'.2)

/-- Sequences whose files are the same file are the same. -/
theorem holds_apart {command : Command} {sequence other : List String} (h : s.Holds command files sequence)
    (h' : s.Holds command files other)
    (heq : s.dir.place (path command sequence) = s.dir.place (path command other)) : sequence = other := by
  obtain ⟨name, text, flow, hplace, htext, hflow, hcalls⟩ := h
  obtain ⟨name', text', flow', hplace', htext', hflow', hcalls'⟩ := h'
  rw [hplace, hplace'] at heq
  obtain rfl := (Prod.mk.inj (Option.some.inj heq)).2
  obtain rfl := Option.some.inj (htext.symm.trans htext')
  obtain rfl := Except.ok.inj (hflow.symm.trans hflow')
  exact Calls.inj hcalls hcalls'

theorem Lossless.placed {command : Command} (h : s.Lossless command files) : s.Placed command where
  opened sequence hmem := by
    obtain ⟨name, _, _, hplace, -⟩ := h.own sequence hmem
    exact ⟨_, hplace⟩
  apart := h.apart

section

variable {events : List AgentTraceEvent} {options : Options} {drafts : List DraftFlow}

namespace Drawn

theorem exists_draft (h : Drawn s events options files drafts) {sequence : List String}
    (hmem : sequence ∈ s.sequences (.draftFlows events options)) : ∃ draft ∈ drafts, draft.score.sequence = sequence :=
  List.mem_map.1 (h.perm.mem_iff.2 hmem)

theorem mem_sequences (h : Drawn s events options files drafts) {draft : DraftFlow} (hmem : draft ∈ drafts) :
    draft.score.sequence ∈ s.sequences (.draftFlows events options) :=
  h.perm.subset (List.mem_map_of_mem hmem)

theorem path_eq (h : Drawn s events options files drafts) {draft : DraftFlow} (hmem : draft ∈ drafts) :
    path (.draftFlows events options) draft.score.sequence = draft.flow.name ++ ".flow.yaml" := by
  obtain ⟨score, -, hown⟩ := h.drawn draft hmem
  obtain ⟨rfl, hname, -⟩ := draft_flow hown
  rw [hname]
  rfl

/-- In a place of its own stands in the end the text of the draft. -/
theorem written (h : Drawn s events options files drafts) (hplaced : s.Placed (.draftFlows events options))
    {draft : DraftFlow} (hmem : draft ∈ drafts) {place : s.dir.Place}
    (hplace : s.dir.place (path (.draftFlows events options) draft.score.sequence) = some place) :
    ∃ text, s.run (.draftFlows events options) files place = some text ∧
      (∀ read, s.decode text = .ok read → s.Readable (s.drafted draft) ∧ Calls read draft.score.sequence ∧
        read.governance.lifecycle = .draft) ∧
      (s.Readable (s.drafted draft) → ∃ read, s.decode text = .ok read) := by
  have hmapped : ∀ draft ∈ drafts, KeyMapped draft.flow.steps := by
    intro draft hmem
    obtain ⟨score, -, hown⟩ := h.drawn draft hmem
    exact (draft_flow hown).2.2.2
  have htext : ∀ draft ∈ drafts, s.serializer.flowToYaml (s.drafted draft) =
      some ((s.serializer.flowToYaml (s.drafted draft)).getD "") := by
    intro draft hmem
    obtain ⟨text, htext, -⟩ : ∃ text, s.serializer.flowToYaml (s.drafted draft) = some text ∧ _ :=
      decode_written (hmapped draft hmem)
    rw [htext]
    rfl
  have hopened : ∀ draft ∈ drafts, ∃ place, s.dir.place (draft.flow.name ++ ".flow.yaml") = some place :=
    fun draft hmem => h.path_eq hmem ▸ hplaced.opened _ (h.mem_sequences hmem)
  have hdifferent := (pairwise_places h.perm hplaced).imp_of_mem (S := fun draft other : DraftFlow =>
    s.dir.place (draft.flow.name ++ ".flow.yaml") ≠ s.dir.place (other.flow.name ++ ".flow.yaml"))
    fun hdraft hother hne => by rwa [h.path_eq hdraft, h.path_eq hother] at hne
  obtain ⟨score, -, hown⟩ := h.drawn draft hmem
  obtain ⟨rfl, -, hcalls, -⟩ := draft_flow hown
  obtain ⟨text, hdraft, hread, hreadable⟩ : ∃ text, s.serializer.flowToYaml (s.drafted draft) = some text ∧ _ :=
    decode_written (hmapped draft hmem)
  refine ⟨text, ?_, fun read hdecode => ?_, hreadable⟩
  · refine (congrFun h.run place).trans ?_
    rw [drafts_written htext hopened hdifferent files draft hmem place (h.path_eq hmem ▸ hplace), hdraft]
    rfl
  · obtain ⟨hown, hnormal⟩ := hread read hdecode
    obtain ⟨hread, hgovernance⟩ := calls_of_normal hcalls hnormal
    exact ⟨hown, hread, hgovernance ▸ rfl⟩

end Drawn

/-- A run of `draft-flows` that can draft its candidates loses nothing if they have readable files of their
own that nobody has reviewed. -/
theorem drawn_iff (h : Drawn s events options files drafts) : s.Lossless (.draftFlows events options) files ↔
    s.Placed (.draftFlows events options) ∧
      (∀ sequence ∈ s.sequences (.draftFlows events options), ∀ score draft,
        AgentTraces.scoreCandidate s.texts events sequence = .ok score →
          AgentTraces.draftFlowFromCandidate events score none = .ok draft → s.Readable (s.drafted draft)) ∧
      (∀ sequence ∈ s.sequences (.draftFlows events options), ∀ place,
        s.dir.place (path (.draftFlows events options) sequence) = some place →
          place.1 = s.dir.here ∧ ¬s.Reviewed files place) := by
  constructor
  · intro hlossless
    have hplaced := hlossless.placed
    refine ⟨hplaced, fun sequence hmem score draft hscore hdraft => ?_, fun sequence hmem place hplace => ?_⟩
    · obtain ⟨own, hown, rfl⟩ := h.exists_draft hmem
      obtain ⟨score', hscore', hown'⟩ := h.drawn own hown
      obtain rfl := Except.ok.inj (hscore.symm.trans hscore')
      obtain rfl := Except.ok.inj (hdraft.symm.trans hown')
      obtain ⟨name, text, flow, hplace, htext, hflow, -⟩ := hlossless.own _ hmem
      obtain ⟨text', htext', hread, -⟩ := h.written hplaced hown hplace
      obtain rfl := Option.some.inj (htext.symm.trans htext')
      exact (hread flow hflow).1
    · obtain ⟨name, -, -, hplace', -⟩ := hlossless.own sequence hmem
      obtain rfl := Option.some.inj (hplace'.symm.trans hplace)
      refine ⟨rfl, fun hreviewed => ?_⟩
      obtain ⟨own, hown, rfl⟩ := h.exists_draft hmem
      obtain ⟨text, htext, hread, -⟩ := h.written hplaced hown hplace
      have hkept := hlossless.kept _ hreviewed
      obtain ⟨-, text', flow, htext', hflow, hlifecycle⟩ := hreviewed
      obtain rfl := Option.some.inj (htext'.symm.trans (hkept.symm.trans htext))
      rw [(hread flow hflow).2.2] at hlifecycle
      exact absurd hlifecycle (by decide)
  · rintro ⟨hplaced, hreadable, hfree⟩
    refine ⟨fun sequence hmem => ?_, hplaced.apart, fun place hreviewed => ?_⟩
    · obtain ⟨draft, hdraft, rfl⟩ := h.exists_draft hmem
      obtain ⟨place, hplace⟩ := hplaced.opened _ hmem
      obtain ⟨text, htext, hread, hok⟩ := h.written hplaced hdraft hplace
      obtain ⟨score, hscore, hown⟩ := h.drawn draft hdraft
      obtain ⟨read, hdecode⟩ := hok (hreadable _ hmem score draft hscore hown)
      obtain ⟨folder, name⟩ := place
      obtain rfl : folder = s.dir.here := (hfree _ hmem _ hplace).1
      exact ⟨name, text, read, hplace, htext, hdecode, (hread read hdecode).2.1⟩
    · refine (congrFun h.run place).trans (Passes.pass_keeps (f := fun files : s.dir.Files => files place)
        (fun draft hdraft files => writeDraft_frame hreviewed.1 fun hplace => ?_) files)
      exact (hfree _ (h.mem_sequences hdraft) place (h.path_eq hdraft ▸ hplace)).2 hreviewed

theorem draftFlows_lossless_iff (events : List AgentTraceEvent) (options : Options) (files : s.dir.Files) :
    s.Lossless (.draftFlows events options) files ↔ s.Meets (.draftFlows events options) files := by
  rcases s.draftFlows_cases events options files with ⟨hdraftable, drafts, hdrawn⟩ | ⟨hdraftable, hrun⟩
  · rw [drawn_iff hdrawn]
    exact ⟨fun h => .inl ⟨hdraftable, h⟩, fun h => (h.resolve_right fun hnot => hnot.1 hdraftable).2⟩
  · replace hrun : s.run (.draftFlows events options) files = files := hrun
    constructor
    · intro h
      exact .inr ⟨hdraftable, fun sequence hmem => hrun ▸ h.own sequence hmem⟩
    · rintro (⟨hdraftable', -⟩ | ⟨-, hholds⟩)
      · exact absurd hdraftable' hdraftable
      · exact ⟨fun sequence hmem => hrun.symm ▸ hholds sequence hmem,
          fun sequence hmem other hother => holds_apart (hholds sequence hmem) (hholds other hother),
          fun place _ => congrFun hrun place⟩

end

-- Records

def acceptedFlow (s : Surroundings R) (suggestion : Observer.FlowSuggestion R) : FullFlow :=
  fullFlow suggestion.flow (s.describeSuggestion suggestion) { suggestedGovernance suggestion with lifecycle := .draft }

/-- A suggestion may become a draft. -/
theorem accepted_eq (suggestion : Observer.FlowSuggestion R) : s.accepted suggestion = .ok (s.acceptedFlow suggestion) := rfl

section

variable {calls : List ToolCall} {options : Options} {suggestions : List (Observer.FlowSuggestion R)}

theorem record_path (hsound : Sound suggestions) {suggestion : Observer.FlowSuggestion R} (hmem : suggestion ∈ suggestions) :
    path (.record calls options) suggestion.tools = sanitizePathComponent suggestion.flow.name ++ ".flow.yaml" := by
  rw [path, hsound.named suggestion hmem]

theorem run_record (h : s.suggestions (.record calls options) = .ok suggestions) (files : s.dir.Files) :
    s.run (.record calls options) files =
      (pass s.recordCandidate (suggestions.insertionSort RankedBefore) files).1 := by
  have hmined : (loadToolTrace calls).suggestFlows s.hashing s.ratio options.minOccurrences options.minLength
      options.maxLength true = .ok suggestions := h
  simp only [run, record, hmined]

/-- No file that is there changes. -/
theorem record_keeps {place : s.dir.Place} {text : String} (htext : files place = some text) :
    s.run (.record calls options) files place = some text := by
  cases hsuggestions : s.suggestions (.record calls options) with
  | error e =>
    have hmined : (loadToolTrace calls).suggestFlows s.hashing s.ratio options.minOccurrences options.minLength
        options.maxLength true = .error e := hsuggestions
    simpa only [run, record, hmined] using htext
  | ok suggestions =>
    rw [run_record hsuggestions]
    exact Passes.pass_invariant (P := fun files : s.dir.Files => files place = some text)
      (fun suggestion _ files => recordCandidate_keeps) htext

/-- In a place of its own stands in the end what was there, or else the text of the candidate. -/
theorem record_written (h : s.suggestions (.record calls options) = .ok suggestions)
    (hplaced : s.Placed (.record calls options))
    (hreadable : ∀ suggestion ∈ suggestions, ∀ place,
      s.dir.place (path (.record calls options) suggestion.tools) = some place →
        ∀ existing, files place = some existing → ∃ flow, s.decode existing = .ok flow)
    {suggestion : Observer.FlowSuggestion R} (hmem : suggestion ∈ suggestions) {place : s.dir.Place}
    (hplace : s.dir.place (path (.record calls options) suggestion.tools) = some place) :
    ∃ text draft, s.run (.record calls options) files place = some ((files place).getD text) ∧
      s.accepted suggestion = .ok draft ∧
      (∀ read, s.decode text = .ok read → s.Readable draft ∧ Calls read suggestion.tools) ∧
      (s.Readable draft → ∃ read, s.decode text = .ok read) := by
  have hsound := suggestions_sound h
  have hsorted := List.perm_insertionSort RankedBefore suggestions
  have hpath {suggestion} (hmem : suggestion ∈ suggestions.insertionSort RankedBefore) :
      path (.record calls options) suggestion.tools = sanitizePathComponent suggestion.flow.name ++ ".flow.yaml" :=
    record_path hsound (hsorted.mem_iff.1 hmem)
  have hperm : ((suggestions.insertionSort RankedBefore).map (·.tools)).Perm (s.sequences (.record calls options)) := by
    rw [sequences_eq h]
    exact hsorted.map _
  have htext : ∀ suggestion ∈ suggestions.insertionSort RankedBefore, ∃ accepted,
      s.accepted suggestion = .ok accepted ∧ s.serializer.flowToYaml accepted =
        some ((s.serializer.flowToYaml (s.acceptedFlow suggestion)).getD "") := by
    intro suggestion hmem
    obtain ⟨text, htext, -⟩ : ∃ text, s.serializer.flowToYaml (s.acceptedFlow suggestion) = some text ∧ _ :=
      decode_written (hsound.keyMapped suggestion (hsorted.mem_iff.1 hmem))
    refine ⟨s.acceptedFlow suggestion, accepted_eq suggestion, ?_⟩
    rw [htext]
    rfl
  have hopened : ∀ suggestion ∈ suggestions.insertionSort RankedBefore, ∃ place,
      s.dir.place (sanitizePathComponent suggestion.flow.name ++ ".flow.yaml") = some place := by
    intro suggestion hmem
    rw [← hpath hmem]
    exact hplaced.opened _ (hperm.subset (List.mem_map_of_mem hmem))
  have hdifferent := (pairwise_places hperm hplaced).imp_of_mem (S := fun suggestion other : Observer.FlowSuggestion R =>
    s.dir.place (sanitizePathComponent suggestion.flow.name ++ ".flow.yaml") ≠
      s.dir.place (sanitizePathComponent other.flow.name ++ ".flow.yaml"))
    fun hmem hother hne => by rwa [hpath hmem, hpath hother] at hne
  have hmem' := hsorted.mem_iff.2 hmem
  obtain ⟨text, hwritten, hread, hok⟩ : ∃ text, s.serializer.flowToYaml (s.acceptedFlow suggestion) = some text ∧ _ :=
    decode_written (hsound.keyMapped suggestion hmem)
  have hcalls (read : FullFlow) (hdecode : s.decode text = .ok read) :
      s.Readable (s.acceptedFlow suggestion) ∧ Calls read suggestion.tools := by
    obtain ⟨hown, hnormal⟩ := hread read hdecode
    exact ⟨hown, (calls_of_normal (hsound.calls suggestion hmem) hnormal).1⟩
  refine ⟨text, s.acceptedFlow suggestion, ?_, accepted_eq suggestion, hcalls, hok⟩
  · rw [run_record h, suggestions_recorded htext hopened (fun suggestion hmem place hplace =>
      hreadable suggestion (hsorted.mem_iff.1 hmem) place (hpath hmem ▸ hplace)) hdifferent suggestion hmem' place
        (hpath hmem' ▸ hplace), hwritten]
    rfl

theorem record_lossless_iff (calls : List ToolCall) (options : Options) (files : s.dir.Files) :
    s.Lossless (.record calls options) files ↔ s.Meets (.record calls options) files := by
  constructor
  · intro hlossless
    have hplaced := hlossless.placed
    refine ⟨hplaced, fun suggestions hsuggestions suggestion hmem place hplace => ?_⟩
    have hexisting {suggestion} (hmem : suggestion ∈ suggestions) {place} (hplace : s.dir.place
        (path (.record calls options) suggestion.tools) = some place) {text} (htext : files place = some text) :
        ∃ flow, s.decode text = .ok flow ∧ Calls flow suggestion.tools := by
      have hsequence : suggestion.tools ∈ s.sequences (.record calls options) :=
        sequences_eq hsuggestions ▸ List.mem_map_of_mem hmem
      obtain ⟨name, text', flow, hplace', htext', hflow, hcalls⟩ := hlossless.own _ hsequence
      obtain rfl := Option.some.inj (hplace'.symm.trans hplace)
      obtain rfl := Option.some.inj (htext'.symm.trans (record_keeps htext))
      exact ⟨flow, hflow, hcalls⟩
    refine ⟨fun text htext => hexisting hmem hplace htext, fun hnone draft hdraft => ?_⟩
    obtain ⟨text, draft', htext, hdraft', hread, -⟩ := record_written hsuggestions hplaced
      (fun suggestion hmem place hplace existing htext =>
        let ⟨flow, hflow, _⟩ := hexisting hmem hplace htext
        ⟨flow, hflow⟩) hmem hplace
    obtain rfl := Except.ok.inj (hdraft.symm.trans hdraft')
    have hsequence : suggestion.tools ∈ s.sequences (.record calls options) :=
      sequences_eq hsuggestions ▸ List.mem_map_of_mem hmem
    obtain ⟨name, text', flow, hplace', htext', hflow, -⟩ := hlossless.own _ hsequence
    obtain rfl := Option.some.inj (hplace'.symm.trans hplace)
    rw [hnone] at htext
    obtain rfl : text = text' := Option.some.inj (htext.symm.trans htext')
    exact (hread flow hflow).1
  · rintro ⟨hplaced, hcandidates⟩
    refine ⟨fun sequence hmem => ?_, hplaced.apart, fun place hreviewed => ?_⟩
    · cases hsuggestions : s.suggestions (.record calls options) with
      | error e =>
        rw [sequences_error hsuggestions] at hmem
        cases hmem
      | ok suggestions =>
        obtain ⟨place, hplace⟩ := hplaced.opened _ hmem
        rw [sequences_eq hsuggestions] at hmem
        obtain ⟨suggestion, hmined, rfl⟩ := List.mem_map.1 hmem
        have hfree := hcandidates suggestions hsuggestions
        obtain ⟨text, draft, htext, hdraft, hread, hok⟩ := record_written hsuggestions hplaced
          (fun suggestion hmem place hplace existing htext =>
            let ⟨flow, hflow, _⟩ := (hfree suggestion hmem place hplace).1 existing htext
            ⟨flow, hflow⟩) hmined hplace
        obtain ⟨folder, name⟩ := place
        obtain rfl : folder = s.dir.here := record_here hplace
        cases hfile : files (s.dir.here, name) with
        | some existing =>
          obtain ⟨flow, hflow, hcalls⟩ := (hfree suggestion hmined _ hplace).1 existing hfile
          exact ⟨name, existing, flow, hplace, record_keeps hfile, hflow, hcalls⟩
        | none =>
          rw [hfile] at htext
          obtain ⟨read, hdecode⟩ := hok ((hfree suggestion hmined _ hplace).2 hfile draft hdraft)
          exact ⟨name, text, read, hplace, htext, hdecode, (hread read hdecode).2⟩
    · obtain ⟨-, text, flow, htext, -⟩ := hreviewed
      rw [record_keeps htext, htext]

end

-- Histories

theorem throughout_congr {P Q : Command → s.dir.Files → Prop} (h : ∀ command files, P command files ↔ Q command files)
    (actions : List (Action s.dir)) (files : s.dir.Files) :
    s.Throughout P actions files ↔ s.Throughout Q actions files := by
  induction actions generalizing files with
  | nil => exact Iff.rfl
  | cons action rest ih =>
    cases action with
    | run command => exact and_congr (h command files) (ih _)
    | edit place text => exact ih _

/-- In every history of runs, reviews and other changes, all runs lose nothing exactly if each of them
meets its condition on the files that it finds. -/
theorem lossless_iff_meets (s : Surroundings R) (actions : List (Action s.dir)) (files : s.dir.Files) :
    s.Throughout s.Lossless actions files ↔ s.Throughout s.Meets actions files := by
  refine throughout_congr (fun command files => ?_) actions files
  cases command with
  | draftFlows events options => exact draftFlows_lossless_iff events options files
  | record calls options => exact record_lossless_iff calls options files

-- A shared file

/-- A directory without folders. -/
def flatDir : OutputDir where
  Folder := Unit
  decidableEq := inferInstance
  here := ()
  enter folder := if folder = "" then some () else none
  enter_here := rfl
  opens _ _ := true
  opens_shorter _ _ _ := rfl

/-- YAML texts that are JSON texts. -/
def jsonSerializer : Serializer where
  writer := { nonFinite := false, setText := none, other := fun _ _ => none }
  floats := FloatFormat.fraction.toFloatText
  validationText _ := ""
  repr _ := ""
  safeDump document := String.ofList (document.sorted.dumped FloatFormat.fraction.toFloatText {})
  safeLoad text :=
    match loads FloatFormat.fraction text.toList with
    | some document => .ok document
    | none => .error "no document"

theorem jsonSerializer_load_dump (document : Json) (h : document.Distinct) :
    jsonSerializer.safeLoad (jsonSerializer.safeDump document) = .ok document.sorted := by
  simp only [jsonSerializer, String.toList_ofList, loads_dumped _ (Json.Distinct.sorted document h)]

def flatSurroundings : Surroundings Nat where
  dir := flatDir
  serializer := jsonSerializer
  load_dump := jsonSerializer_load_dump
  limits := {}
  texts := { lower := id, round4 := id, percent := fun _ => "" }
  hashing := { setOrder := id, cycleText := fun _ => "", setOrder_perm := List.Perm.refl }
  ratio part _ := part
  describeDraft _ := ""
  describeSuggestion _ := ""
  sidecarText _ := ""

def dottedAndDashed : List AgentTraceEvent :=
  [{ sessionId := "s", event := .toolCall, tool := some "a.b" },
    { sessionId := "t", event := .toolCall, tool := some "a-b" }]

def everyCall : Options := { minOccurrences := 1, minLength := 1, maxLength := none }

/-- The drafts for two tools share a file. -/
theorem drafts_share : ¬∀ (s : Surroundings Nat) (actions : List (Action s.dir)) (files : s.dir.Files),
    s.Throughout s.Lossless actions files := by
  intro h
  obtain ⟨hlossless, -⟩ := h flatSurroundings [.run (.draftFlows dottedAndDashed everyCall)] fun _ => none
  have hsequences : flatSurroundings.sequences (.draftFlows dottedAndDashed everyCall) = [["a-b"], ["a.b"]] := by
    decide +kernel
  have hdot : ["a.b"] ∈ flatSurroundings.sequences (.draftFlows dottedAndDashed everyCall) := by simp [hsequences]
  have hdash : ["a-b"] ∈ flatSurroundings.sequences (.draftFlows dottedAndDashed everyCall) := by simp [hsequences]
  have hpath : path (.draftFlows dottedAndDashed everyCall) ["a.b"] =
      path (.draftFlows dottedAndDashed everyCall) ["a-b"] := by decide +kernel
  exact absurd (hlossless.apart _ hdot _ hdash (congrArg flatSurroundings.dir.place hpath)) (by decide)

end Surroundings

end ChainWeaver.CandidateFiles
