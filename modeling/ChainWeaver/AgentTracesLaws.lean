import ChainWeaver.AgentTraces

/-!
# Scores, drafts and backtests of one history

The tests of a draft are the windows that its rates and savings are taken over
(`examplesTested_eq`), and the window it was drawn from passes (`passed_pos`). The support
is their number exactly when no model call carries the name of a tool: the support alone
is counted without looking at the kind of an event (`agrees_iff_unnamed`).
-/

namespace ChainWeaver.AgentTraces

open Counting (total)
open Windows (slice starts occurrences mem_starts occurrences_map length_occurrences_singleton)

variable {events session window : List AgentTraceEvent} {event : AgentTraceEvent} {sequence : List String}

-- Sessions

theorem get?_groupToolEvents (events : List AgentTraceEvent) (sessionId : String) :
    (groupToolEvents events).get? sessionId =
      if events.any (·.sessionId = sessionId) then some (events.filter (·.sessionId = sessionId)) else none := by
  induction events using List.reverseRecOn with
  | nil => rfl
  | append_singleton events event ih =>
    rw [groupToolEvents, List.foldl_append, List.foldl_cons, List.foldl_nil, ← groupToolEvents,
      OrderedDict.get?_insert]
    by_cases hid : event.sessionId = sessionId
    · subst hid
      have hold : ((groupToolEvents events).get? event.sessionId).getD [] =
          events.filter (·.sessionId = event.sessionId) := by
        rw [ih]
        split
        · rfl
        · next hnone => exact (List.filter_eq_nil_iff.2 fun other hother hsame =>
            hnone (List.any_eq_true.2 ⟨other, hother, hsame⟩)).symm
      simp [hold]
    · simp [hid, Ne.symm hid, ih]

theorem mem_sessions {entry : String × List AgentTraceEvent} :
    entry ∈ sessions events ↔
      (∃ event ∈ events, event.sessionId = entry.1) ∧ entry.2 = events.filter (·.sessionId = entry.1) := by
  obtain ⟨sessionId, session⟩ := entry
  rw [sessions, ← OrderedDict.get?_eq_some_iff, get?_groupToolEvents, Option.ite_none_right_eq_some,
    List.any_eq_true, Option.some.injEq]
  simp only [decide_eq_true_eq]
  exact and_congr_right fun _ => eq_comm

theorem mem_of_mem_session {entry : String × List AgentTraceEvent} (h : entry ∈ sessions events)
    (hevent : event ∈ entry.2) : event ∈ events := by
  rw [(mem_sessions.1 h).2] at hevent
  exact (List.mem_filter.1 hevent).1

theorem exists_session (h : event ∈ events) : ∃ entry ∈ sessions events, event ∈ entry.2 := by
  refine ⟨(event.sessionId, events.filter (·.sessionId = event.sessionId)), ?_, ?_⟩
  · exact mem_sessions.2 ⟨⟨event, h, rfl⟩, rfl⟩
  · simp [h]

-- Windows of a session

theorem AgentTraceEvent.named_eq_some_iff {name : String} :
    event.named = some name ↔ event.tool = some name ∧ name ≠ "" := by
  simp [named, Option.filter_eq_some_iff]

theorem length_iterWindows (session : List AgentTraceEvent) (sequence : List String) :
    (iterWindows session sequence).length =
      (occurrences (sequence.map some) ((toolEvents session).map (·.tool))).length := by
  rw [iterWindows, List.filter_map, List.length_map, occurrences, starts, starts, List.length_map, List.length_map]
  simp only [Function.comp_def, Windows.slice_map]

theorem positions_tools (session : List AgentTraceEvent) :
    (session.zipIdx.filterMap fun (event, index) => if event.isToolCall then some index else none).map
      (fun index => (session[index]?).bind (·.tool)) = (toolEvents session).map (·.tool) := by
  have hread : ∀ place ∈ session.zipIdx,
      ((if place.1.isToolCall then some place.2 else none).map fun index => (session[index]?).bind (·.tool)) =
        if place.1.isToolCall then some place.1.tool else none := by
    rintro ⟨event, index⟩ hplace
    rw [List.mem_zipIdx_iff_getElem?] at hplace
    split
    · simp [hplace]
    · rfl
  rw [List.map_filterMap, List.filterMap_congr hread, toolEvents]
  conv => rhs; rw [← List.zipIdx_map_fst 0 session]
  rw [List.filter_map, List.map_map, ← List.filterMap_eq_map, List.filterMap_filter]
  simp [Function.comp_def]

theorem length_tokenSamples (session : List AgentTraceEvent) (sequence : List String) :
    (tokenSamples session sequence).length = (iterWindows session sequence).length := by
  rw [length_iterWindows, ← positions_tools, tokenSamples, List.length_map, occurrences, starts, starts,
    List.length_map, List.length_map]

-- Support

/-- The windows of tool calls in all sessions. -/
def toolWindows (events : List AgentTraceEvent) (sequence : List String) : List (List AgentTraceEvent) :=
  ((sessions events).map Prod.snd).flatMap (iterWindows · sequence)

/-- The matches that the support counts in a session. -/
def nameMatches (session : List AgentTraceEvent) (sequence : List String) : Nat :=
  (occurrences sequence (session.filterMap (·.named))).length

theorem length_toolWindows (events : List AgentTraceEvent) (sequence : List String) :
    (toolWindows events sequence).length =
      total ((sessions events).map fun entry => (iterWindows entry.2 sequence).length) := by
  rw [toolWindows, List.flatMap, Counting.length_flatten, List.map_map, List.map_map]
  rfl

theorem toolEvents_tools (h : ∀ event ∈ session, event.event = .modelCall → event.named = none) :
    (toolEvents session).map (·.tool) = (session.filterMap (·.named)).map some := by
  induction session with
  | nil => rfl
  | cons event rest ih =>
    obtain ⟨hevent, hrest⟩ := List.forall_mem_cons.1 h
    rw [toolEvents] at ih ⊢
    cases hnamed : event.named with
    | none =>
      have hcall : ¬event.isToolCall = true := by simp [AgentTraceEvent.isToolCall, hnamed]
      rw [List.filter_cons_of_neg hcall, List.filterMap_cons_none hnamed, ih hrest]
    | some name =>
      have hkind : event.event = .toolCall := by
        cases hkind : event.event with
        | toolCall => rfl
        | modelCall => simp [hevent hkind] at hnamed
      have hcall : event.isToolCall = true := by simp [AgentTraceEvent.isToolCall, hnamed, hkind]
      rw [List.filter_cons_of_pos hcall, List.filterMap_cons_some hnamed, List.map_cons, List.map_cons, ih hrest,
        (AgentTraceEvent.named_eq_some_iff.1 hnamed).1]

theorem nameMatches_eq (h : ∀ event ∈ session, event.event = .modelCall → event.named = none)
    (sequence : List String) :
    nameMatches session sequence = (iterWindows session sequence).length := by
  rw [length_iterWindows, toolEvents_tools h, occurrences_map (Option.some_injective _), nameMatches]

theorem scoreCandidate_sound {texts : Texts} {score : CandidateScore}
    (h : scoreCandidate texts events sequence = .ok score) :
    score.sequence = sequence ∧
      score.support = total ((sessions events).map fun entry => nameMatches entry.2 sequence) := by
  rw [scoreCandidate] at h
  split at h
  · cases h
  · cases h
    refine ⟨rfl, ?_⟩
    simp only [findWindows, List.map_map]
    rfl

theorem scoreCandidate_ok (texts : Texts) (events : List AgentTraceEvent) (hne : sequence ≠ []) :
    ∃ score, scoreCandidate texts events sequence = .ok score :=
  ⟨_, if_neg (by simpa using hne)⟩

/-- A model call under the name of a tool is a match of that tool alone. -/
theorem nameMatches_singleton (session : List AgentTraceEvent) (name : String) :
    nameMatches session [name] = (iterWindows session [name]).length +
      session.countP fun event => event.event = .modelCall && event.named = some name := by
  rw [length_iterWindows, nameMatches, length_occurrences_singleton, List.map_cons, List.map_nil,
    length_occurrences_singleton, toolEvents, List.countP_map, List.countP_filter, List.countP_filterMap]
  induction session with
  | nil => rfl
  | cons event rest ih =>
    simp only [List.countP_cons, ih]
    cases hnamed : event.named with
    | none => simp [AgentTraceEvent.isToolCall, hnamed]
    | some tool =>
      have htool := (AgentTraceEvent.named_eq_some_iff.1 hnamed).1
      cases hkind : event.event <;> simp [AgentTraceEvent.isToolCall, hnamed, hkind, htool] <;> omega

-- Drafts

theorem iterWindows_tools (h : window ∈ iterWindows session sequence) : window.map (·.tool) = sequence.map some :=
  of_decide_eq_true (List.mem_filter.1 h).2

theorem representativeWindow_tools (events : List AgentTraceEvent) (sequence : List String) :
    (representativeWindow events sequence).map (·.tool) = sequence.map some := by
  rw [representativeWindow]
  split
  · next window hfound =>
    obtain ⟨entry, -, hhead⟩ := List.exists_of_findSome?_eq_some hfound
    exact iterWindows_tools (List.mem_of_mem_head? hhead)
  · simp [Function.comp_def]

theorem representativeWindow_mem (h : toolWindows events sequence ≠ []) :
    ∃ entry ∈ sessions events, representativeWindow events sequence ∈ iterWindows entry.2 sequence := by
  rw [representativeWindow]
  split
  · next window hfound =>
    obtain ⟨entry, hentry, hhead⟩ := List.exists_of_findSome?_eq_some hfound
    exact ⟨entry, hentry, List.mem_of_mem_head? hhead⟩
  · next hnone =>
    refine absurd ?_ h
    rw [List.findSome?_eq_none_iff] at hnone
    rw [toolWindows, List.flatMap_map, List.flatMap_eq_nil_iff]
    exact fun entry hentry => List.head?_eq_none_iff.1 (hnone entry hentry)

/-- Every step of a draft maps only fields that the call it was drawn from supplied. -/
theorem draftSteps_missing (window : List AgentTraceEvent) : ∀ (position : Nat) (upstream : List String),
    ((draftSteps position upstream window).1.zip window).all
      fun (step, event) => (missingFields step event).isEmpty := by
  induction window with
  | nil => intro _ _; rfl
  | cons observed rest ih =>
    intro position upstream
    rw [draftSteps, List.zip_cons_cons, List.all_cons, ih, Bool.and_true]
    simp only [missingFields, List.isEmpty_iff, List.filter_eq_nil_iff]
    intro key hkey
    have hmapped : key ∈ (if position = 0 then sortedKeys observed.args.keys
        else (sortedKeys observed.args.keys).filter (upstream.contains ·)) := by
      have hcontains := List.contains_iff_mem.2 hkey
      rw [← OrderedDict.contains, OrderedDict.contains_ofList, List.contains_iff_mem] at hcontains
      simpa [Function.comp_def] using hcontains
    have hargs : key ∈ sortedKeys observed.args.keys := by
      split at hmapped
      · exact hmapped
      · exact List.mem_of_mem_filter hmapped
    simpa [OrderedDict.contains, sortedKeys] using hargs

theorem draftSteps_names {window : List AgentTraceEvent} :
    ∀ {sequence : List String} {position : Nat} {upstream : List String},
      window.map (·.tool) = sequence.map some → (draftSteps position upstream window).1.map stepName = sequence := by
  induction window with
  | nil =>
    intro sequence position upstream h
    rw [List.map_nil, eq_comm, List.map_eq_nil_iff] at h
    rw [h]
    rfl
  | cons observed rest ih =>
    intro sequence position upstream h
    cases sequence with
    | nil => cases h
    | cons name names =>
      obtain ⟨hhead, hrest⟩ := List.cons_eq_cons.1 h
      have htool : observed.tool = some name := hhead
      rw [draftSteps, List.map_cons, ih hrest]
      have hname : observed.named.getD "" = name := by
        rw [AgentTraceEvent.named, htool]
        by_cases hempty : name = "" <;> simp [hempty, Option.filter]
      rw [stepName, hname]

theorem draftFlow_steps {score : CandidateScore} {name : Option String} {draft : DraftFlow}
    (h : draftFlowFromCandidate events score name = .ok draft) :
    draft.flow.steps = (draftSteps 0 [] (representativeWindow events score.sequence)).1 := by
  rw [draftFlowFromCandidate] at h
  dsimp only at h
  split at h
  · cases h
  · cases h
    rfl

/-- Only negative savings keep a candidate from being drafted. -/
theorem draftFlow_ok {score : CandidateScore} (name : Option String)
    (h : 0 ≤ score.estimatedInputTokensSaved + score.estimatedOutputTokensSaved) :
    ∃ draft, draftFlowFromCandidate events score name = .ok draft := by
  have hsavings := Int.mul_nonneg h (Int.natCast_nonneg score.support)
  exact ⟨_, if_neg (Int.not_lt.2 hsavings)⟩

-- Backtests

section

variable {score : CandidateScore} {name : Option String} {draft : DraftFlow}

theorem draftFlow_sequence (h : draftFlowFromCandidate events score name = .ok draft) :
    draft.flow.steps.map stepName = score.sequence := by
  rw [draftFlow_steps h, draftSteps_names (representativeWindow_tools events score.sequence)]

/-- A draft is tested on all windows of tool calls. -/
theorem examplesTested_eq (h : draftFlowFromCandidate events score name = .ok draft) :
    (backtestFlow draft.flow events).examplesTested = (toolWindows events score.sequence).length := by
  rw [backtestFlow, draftFlow_sequence h, toolWindows]
  simp [List.length_flatMap, Function.comp_def]

theorem produced_le (flow : Flow) (events : List AgentTraceEvent) :
    (backtestFlow flow events).producedExpectedOutput ≤ (backtestFlow flow events).passedInputShape := by
  simp only [backtestFlow]
  refine List.countP_mono_left fun entry _ hproduced => ?_
  exact (Bool.and_eq_true_iff.1 hproduced).1

theorem passed_le (flow : Flow) (events : List AgentTraceEvent) :
    (backtestFlow flow events).passedInputShape ≤ (backtestFlow flow events).examplesTested := by
  simp only [backtestFlow]
  exact List.countP_le_length

/-- The window that a draft was drawn from passes. -/
theorem passed_pos (h : draftFlowFromCandidate events score name = .ok draft)
    (hwindows : toolWindows events score.sequence ≠ []) : 0 < (backtestFlow draft.flow events).passedInputShape := by
  obtain ⟨⟨sessionId, session⟩, hsession, hwindow⟩ := representativeWindow_mem hwindows
  simp only [backtestFlow, draftFlow_sequence h]
  refine List.countP_pos_iff.2 ⟨(sessionId, representativeWindow events score.sequence), ?_, ?_⟩
  · exact List.mem_flatMap.2 ⟨_, hsession, List.mem_map.2 ⟨_, hwindow, rfl⟩⟩
  · rw [shapeOk, draftFlow_steps h]
    exact draftSteps_missing _ 0 []

end

/-- The counts of a backtest beside the support of the candidate. -/
structure Backtested (report : BacktestReport) (support : Nat) : Prop where
  tested : report.examplesTested = support
  passed : 0 < support → 0 < report.passedInputShape
  produced_le : report.producedExpectedOutput ≤ report.passedInputShape
  passed_le : report.passedInputShape ≤ report.examplesTested

/-- The support of a sequence is the number of windows that its rates, its savings and
the tests of its draft are taken over. -/
structure Agrees (events : List AgentTraceEvent) (sequence : List String) (score : CandidateScore) : Prop where
  rate : (successTally ((sessions events).map Prod.snd) sequence).1 = score.support
  stability : (stabilityShapes ((sessions events).map Prod.snd) sequence).length = score.support
  savings : (((sessions events).map Prod.snd).flatMap (tokenSamples · sequence)).length = score.support
  drafted : 0 ≤ score.estimatedInputTokensSaved + score.estimatedOutputTokensSaved →
    ∀ name, ∃ draft, draftFlowFromCandidate events score name = .ok draft
  tested : ∀ name draft, draftFlowFromCandidate events score name = .ok draft →
    Backtested (backtestFlow draft.flow events) score.support

theorem agrees_of_length {score : CandidateScore} (hsequence : score.sequence = sequence)
    (hsupport : score.support = (toolWindows events sequence).length) : Agrees events sequence score where
  rate := hsupport.symm
  stability := by
    rw [stabilityShapes, List.length_map]
    exact hsupport.symm
  savings := by
    rw [hsupport, length_toolWindows, List.flatMap, Counting.length_flatten, List.map_map, List.map_map]
    simp only [Function.comp_def, length_tokenSamples]
  drafted := fun hsavings name => draftFlow_ok name hsavings
  tested := by
    subst hsequence
    intro name draft hdraft
    have htested := (examplesTested_eq hdraft).trans hsupport.symm
    refine ⟨htested, fun hpos => passed_pos hdraft ?_, produced_le _ _, passed_le _ _⟩
    rw [hsupport] at hpos
    exact List.ne_nil_of_length_pos hpos

/-- Scores, drafts and backtests of a history agree on every sequence exactly when no
model call of it carries the name of a tool. -/
theorem agrees_iff_unnamed (texts : Texts) (events : List AgentTraceEvent) :
    (∀ sequence, sequence ≠ [] →
      ∃ score, scoreCandidate texts events sequence = .ok score ∧ Agrees events sequence score) ↔
      ∀ event ∈ events, event.event = .modelCall → event.named = none := by
  constructor
  · intro h event hevent hkind
    cases hnamed : event.named with
    | none => rfl
    | some name =>
      obtain ⟨score, hscore, hagrees⟩ := h [name] (List.cons_ne_nil name [])
      have hsupport := (scoreCandidate_sound hscore).2
      have htotal : total ((sessions events).map fun entry => (iterWindows entry.2 [name]).length) =
          total ((sessions events).map fun entry => nameMatches entry.2 [name]) := by
        rw [← hsupport, ← length_toolWindows]
        exact hagrees.rate
      have hle : ∀ entry ∈ sessions events, (iterWindows entry.2 [name]).length ≤ nameMatches entry.2 [name] := by
        intro entry _
        rw [nameMatches_singleton]
        exact Nat.le_add_right _ _
      obtain ⟨entry, hentry, hmem⟩ := exists_session hevent
      have hequal := Counting.eq_of_total_eq hle htotal entry hentry
      have hnone : entry.2.countP (fun event => event.event = .modelCall && event.named = some name) = 0 := by
        rw [nameMatches_singleton] at hequal
        omega
      exact absurd (by simp [hkind, hnamed]) (List.countP_eq_zero.1 hnone event hmem)
  · intro h sequence hne
    obtain ⟨score, hscore⟩ := scoreCandidate_ok texts events hne
    obtain ⟨hsequence, hsupport⟩ := scoreCandidate_sound hscore
    refine ⟨score, hscore, agrees_of_length hsequence ?_⟩
    rw [hsupport, length_toolWindows]
    congr 1
    refine List.map_congr_left fun entry hentry => nameMatches_eq (fun event hevent => ?_) sequence
    exact h event (mem_of_mem_session hentry hevent)

/-- A model call recorded under the name of a tool is support that no window shows. -/
theorem modelCall_counts :
    ¬∀ (texts : Texts) (events : List AgentTraceEvent) (sequence : List String), sequence ≠ [] →
      ∃ score, scoreCandidate texts events sequence = .ok score ∧ Agrees events sequence score := by
  intro h
  obtain ⟨score, hscore, hagrees⟩ := h ⟨id, id, fun _ => ""⟩
    [{ sessionId := "s", event := .modelCall, tool := some "search" }] ["search"] (by decide)
  have hsupport := (scoreCandidate_sound hscore).2
  have hone : total ((sessions [{ sessionId := "s", event := .modelCall, tool := some "search" }]).map
      fun entry => nameMatches entry.2 ["search"]) = 1 := by decide +kernel
  have hzero : (successTally ((sessions [{ sessionId := "s", event := .modelCall, tool := some "search" }]).map
      Prod.snd) ["search"]).1 = 0 := by decide +kernel
  have hrate := hagrees.rate
  rw [hsupport, hone, hzero] at hrate
  cases hrate

end ChainWeaver.AgentTraces
