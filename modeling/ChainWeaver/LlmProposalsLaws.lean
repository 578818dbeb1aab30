import ChainWeaver.JsonReaderLaws
import ChainWeaver.LlmProposals

/-!
# What the proposals are confined to

What a completion can raise and what an accepted one can name, and from these the outcome of all the batches.
-/

namespace ChainWeaver

open Attempt (ErrorsIn)

-- The loader on payloads

namespace FlowLoader

variable {loader : FlowLoader ι φ} {root : ι}

theorem flowFromDict_unique {result other : Except LoadError φ} {fuel fuel' : Nat}
    (h : loader.flowFromDict {} root fuel = some result) (hother : loader.flowFromDict {} root fuel' = some other) :
    result = other := by
  unfold flowFromDict at h hother
  cases hroot : loader.objects root with
  | mapping entries =>
    simp only [hroot] at h hother
    cases hwalk : ({} : FlowParseLimits).enforceObjects loader.objects fuel 0 [(root, 1)] with
    | none => simp [hwalk] at h
    | some ended =>
      cases hwalk' : ({} : FlowParseLimits).enforceObjects loader.objects fuel' 0 [(root, 1)] with
      | none => simp [hwalk'] at hother
      | some ended' =>
        obtain rfl := Unfolding.walk_unique hwalk hwalk'
        simp only [hwalk] at h
        simp only [hwalk'] at hother
        rw [h] at hother
        exact Option.some.inj hother
  | null | str | scalar | list | tuple | set =>
    simp only [hroot] at h hother
    rw [h] at hother
    exact Option.some.inj hother

theorem flowFromDict_ends (loader : FlowLoader ι φ) (root : ι) :
    ∃ result, loader.flowFromDict {} root (100000 + 1) = some result := by
  have hends : ({} : FlowParseLimits).EndsWithin loader.objects (100000 + 1) root :=
    FlowParseLimits.endsWithin_nodes rfl root
  obtain ⟨ended, hended⟩ := Option.isSome_iff_exists.1 hends
  unfold flowFromDict
  cases hroot : loader.objects root with
  | mapping entries =>
    simp only [hended]
    rcases ended with detail | _
    · exact ⟨_, rfl⟩
    · exact ⟨_, rfl⟩
  | null | str | scalar | list | tuple | set => exact ⟨_, rfl⟩

end FlowLoader

namespace Proposals

variable {ι τ α β : Type}

-- Completions

namespace Parsers

/-- What the messages about a proposal quote can be written, and a confidence that is looked at is a double. -/
structure EntryReadable (parsers : Parsers ι) (names : List String) (entry : Entries ι) : Prop where
  payload : ∀ flowData, parsers.mappingAt entry "flow" = some flowData →
    parsers.loader.RootQuotable (.payload flowData)
  confidence : ∀ flowData flow rationale, parsers.mappingAt entry "flow" = some flowData →
    parsers.flowFromPayload flowData = .ok flow → parsers.checkFlow names flow = .ok () →
    parsers.rationaleOf entry = .ok rationale →
    ∀ i, (entry.lookup (some "confidence")).bind parsers.number? = some (.int i) →
      i.natAbs < TraceImport.doubleLimit

/-- The proposals up to the first that is refused are readable. -/
def RootReadable (parsers : Parsers ι) (names : List String) (root : ι) : Prop :=
  ∀ before entry after, parsers.coerceProposalList root = .ok (before ++ entry :: after) →
    (∀ earlier ∈ before, ∃ proposal, parsers.buildProposal names earlier = .ok proposal) →
    parsers.EntryReadable names entry

/-- The parser raises its syntax error at most, and then the other one is asked, if there is one. -/
def Understood (readable : ι → Prop) (orElse : Prop) : ParseOutcome ι → Prop
  | .value root => readable root
  | .syntaxError _ => orElse
  | .raised _ => False

/-- What a completion holds raises no exception besides `OfflineLLMError`s. -/
def Parsable (parsers : Parsers ι) (names : List String) (raw : PyText) : Prop :=
  (PyText.strip (stripCodeFence raw)).isEmpty = false →
    Understood (parsers.RootReadable names)
      (parsers.yamlInstalled = true →
        Understood (parsers.RootReadable names) True (parsers.safeLoad (stripCodeFence raw)))
      (parsers.loads (stripCodeFence raw))

variable {parsers : Parsers ι} {names : List String} {entry : Entries ι}

theorem flowFromPayload_errorsIn {flowData : ι} : ErrorsIn ProposeError.documented (parsers.flowFromPayload flowData) ↔
    parsers.loader.RootQuotable (.payload flowData) := by
  rw [← FlowLoader.flowFromDict_contained]
  obtain ⟨result, hresult⟩ := parsers.loader.flowFromDict_ends (.payload flowData)
  have hcontained : FlowLoader.Contained (parsers.loader.flowFromDict {} (.payload flowData)) ↔
      ErrorsIn LoadError.documented result := by
    constructor
    · rintro ⟨fuel, other, hother, hdocumented⟩
      rwa [FlowLoader.flowFromDict_unique hresult hother]
    · exact fun h => ⟨_, result, hresult, h⟩
  rw [hcontained]
  unfold flowFromPayload
  rw [hresult]
  rcases result with (detail | typeName) | flow
  · exact iff_of_true (Attempt.errorsIn_error.2 trivial) (Attempt.errorsIn_error.2 trivial)
  · simp [ProposeError.documented, LoadError.documented]
  · exact iff_of_true Attempt.errorsIn_ok Attempt.errorsIn_ok

theorem checkFlow_documented {flow : FullFlow} : ErrorsIn ProposeError.documented (parsers.checkFlow names flow) := by
  unfold checkFlow
  split
  · exact Attempt.errorsIn_error.2 trivial
  split
  · exact Attempt.errorsIn_error.2 trivial
  · exact Attempt.errorsIn_ok

theorem rationaleOf_documented : ErrorsIn ProposeError.documented (parsers.rationaleOf entry) := by
  unfold rationaleOf
  split
  · exact Attempt.errorsIn_ok
  · exact Attempt.errorsIn_ok
  · exact Attempt.errorsIn_error.2 trivial

theorem confidenceOf_errorsIn : ErrorsIn ProposeError.documented (parsers.confidenceOf entry) ↔
    ∀ i, (entry.lookup (some "confidence")).bind parsers.number? = some (.int i) →
      i.natAbs < TraceImport.doubleLimit := by
  unfold confidenceOf
  cases hnumber : (entry.lookup (some "confidence")).bind parsers.number? with
  | none => exact iff_of_true (Attempt.errorsIn_error.2 trivial) nofun
  | some number =>
    dsimp only
    rw [Attempt.errorsIn_map]
    cases number with
    | float f => exact iff_of_true Attempt.errorsIn_ok nofun
    | int i =>
      simp only [toFloat]
      split
      · next hfits =>
        refine iff_of_true Attempt.errorsIn_ok ?_
        rintro _ ⟨⟩
        exact hfits
      · next hlarge =>
        refine iff_of_false (fun h => ?_) fun h => hlarge (h i rfl)
        exact Attempt.errorsIn_error.1 h

theorem buildProposal_errorsIn : ErrorsIn ProposeError.documented (parsers.buildProposal names entry) ↔
    parsers.EntryReadable names entry := by
  unfold buildProposal
  cases hflow : parsers.mappingAt entry "flow" with
  | none =>
    refine iff_of_true (Attempt.errorsIn_error.2 trivial) ⟨fun flowData h => ?_, fun flowData _ _ h => ?_⟩
    · cases hflow.symm.trans h
    · cases hflow.symm.trans h
  | some flowData =>
    dsimp only
    simp only [Attempt.errorsIn_bind, flowFromPayload_errorsIn, confidenceOf_errorsIn]
    constructor
    · rintro ⟨hpayload, hlater⟩
      refine ⟨fun other h => ?_, fun other flow rationale h hread hcheck hrationale => ?_⟩
      · obtain rfl := Option.some.inj (hflow.symm.trans h)
        exact hpayload
      · obtain rfl := Option.some.inj (hflow.symm.trans h)
        exact (((hlater flow hread).2 () hcheck).2 rationale hrationale).1
    · rintro ⟨hpayload, hconfidence⟩
      refine ⟨hpayload flowData hflow, fun flow hread => ⟨checkFlow_documented, fun _ hcheck => ?_⟩⟩
      refine ⟨rationaleOf_documented, fun rationale hrationale => ⟨?_, fun _ _ => Attempt.errorsIn_ok⟩⟩
      exact hconfidence flowData flow rationale hflow hread hcheck hrationale

theorem coerceProposalList_documented {root : ι} :
    ErrorsIn ProposeError.documented (parsers.coerceProposalList root) := by
  unfold coerceProposalList
  split
  · exact Attempt.errorsIn_ok
  split
  · refine Attempt.errorsIn_mapM fun item _ => ?_
    unfold entryOf
    split
    · exact Attempt.errorsIn_ok
    · exact Attempt.errorsIn_error.2 trivial
  · exact Attempt.errorsIn_error.2 trivial

/-- What is made of a parsed payload. -/
theorem entries_errorsIn {root : ι} :
    ErrorsIn ProposeError.documented (do
      let entries ← parsers.coerceProposalList root
      entries.mapM (parsers.buildProposal names)) ↔ parsers.RootReadable names root := by
  rw [Attempt.errorsIn_bind, and_iff_right coerceProposalList_documented]
  simp only [Attempt.errorsIn_mapM_iff, buildProposal_errorsIn]
  constructor
  · exact fun h before entry after hentries hbefore => h _ hentries before entry after rfl hbefore
  · rintro h _ hentries before entry after rfl hbefore
    exact h before entry after hentries hbefore

theorem parseLlmYaml_errorsIn {raw : PyText} {rest : ι → Except ProposeError β} {readable : ι → Prop}
    (hrest : ∀ root, ErrorsIn ProposeError.documented (rest root) ↔ readable root)
    (hsome : (PyText.strip (stripCodeFence raw)).isEmpty = false) :
    ErrorsIn ProposeError.documented (parsers.parseLlmYaml raw >>= rest) ↔
      (parsers.yamlInstalled = true → Understood readable True (parsers.safeLoad (stripCodeFence raw))) := by
  unfold parseLlmYaml
  cases hyaml : parsers.yamlInstalled with
  | false => exact iff_of_true (Attempt.errorsIn_error.2 trivial) nofun
  | true =>
    simp only [hsome, Bool.not_true, Bool.false_eq_true, if_false, true_imp_iff]
    cases parsers.safeLoad (stripCodeFence raw) with
    | value root => exact hrest root
    | syntaxError detail => exact iff_of_true (Attempt.errorsIn_error.2 trivial) trivial
    | raised typeName => exact iff_of_false (fun h => Attempt.errorsIn_error.1 h) id

theorem parse_errorsIn {raw : PyText} : ErrorsIn ProposeError.documented (parsers.parse names raw) ↔
    parsers.Parsable names raw := by
  unfold parse Parsable parseLlmPayload
  cases hempty : (PyText.strip (stripCodeFence raw)).isEmpty with
  | true => exact iff_of_true (Attempt.errorsIn_error.2 trivial) nofun
  | false =>
    simp only [Bool.false_eq_true, if_false, true_imp_iff]
    cases parsers.loads (stripCodeFence raw) with
    | value root => exact entries_errorsIn
    | syntaxError detail => exact parseLlmYaml_errorsIn (fun _ => entries_errorsIn) hempty
    | raised typeName => exact iff_of_false (fun h => Attempt.errorsIn_error.1 h) id

/-- The tools that the check of the names looks at. -/
def ToolsKnown (names : List String) (flow : FullFlow) : Prop :=
  ∀ step ∈ flow.steps.linearSteps, ∀ name, step.target = .tool name → name ∈ names

theorem checkFlow_ok {flow : FullFlow} (h : parsers.checkFlow names flow = .ok ()) :
    flow.steps.isDag = false ∧ ToolsKnown names flow := by
  unfold checkFlow at h
  split at h
  · cases h
  · next hlinear =>
    split at h
    · cases h
    · next hknown =>
      refine ⟨Bool.eq_false_iff.2 hlinear, fun step hstep name htarget => ?_⟩
      by_contra hname
      have hmem : name ∈ unknownTools names flow := by
        refine List.mem_filter.2 ⟨List.mem_filterMap.2 ⟨step, hstep, ?_⟩, by simpa using hname⟩
        rw [htarget]
        rfl
      rw [not_not.1 hknown] at hmem
      exact List.not_mem_nil hmem

theorem clamp_bounded (x : PyFloat) : 0 ≤ clamp x ∧ clamp x ≤ 1 := by
  cases x with
  | finite q =>
    simp only [clamp]
    split
    · next hbelow =>
      split
      · next hpositive => exact ⟨le_of_lt hpositive, le_of_lt hbelow⟩
      · exact ⟨le_refl _, zero_le_one⟩
    · exact ⟨zero_le_one, le_refl _⟩
  | negInfinite => exact ⟨le_refl _, zero_le_one⟩
  | infinite | nan => exact ⟨zero_le_one, le_refl _⟩

/-- What holds of every proposal that is accepted for the tools. -/
structure Checked (names : List String) (proposal : LLMProposal) : Prop where
  linear : proposal.proposedFlow.steps.isDag = false
  tools : ToolsKnown names proposal.proposedFlow
  confidence : 0 ≤ proposal.confidence ∧ proposal.confidence ≤ 1

theorem buildProposal_checked {proposal : LLMProposal} (h : parsers.buildProposal names entry = .ok proposal) :
    Checked names proposal := by
  unfold buildProposal at h
  split at h
  · cases h
  · obtain ⟨flow, -, h⟩ := Attempt.bind_eq_ok.1 h
    obtain ⟨_, hcheck, h⟩ := Attempt.bind_eq_ok.1 h
    obtain ⟨rationale, -, h⟩ := Attempt.bind_eq_ok.1 h
    obtain ⟨confidence, hconfidence, h⟩ := Attempt.bind_eq_ok.1 h
    obtain rfl := Except.ok.inj h
    obtain ⟨hlinear, htools⟩ := checkFlow_ok hcheck
    refine ⟨hlinear, htools, ?_⟩
    unfold confidenceOf at hconfidence
    split at hconfidence
    · cases hconfidence
    · next number _ =>
      cases hfloat : parsers.toFloat number with
      | error e => simp [hfloat, Except.map] at hconfidence
      | ok x =>
        simp only [hfloat, Except.map, Except.ok.injEq] at hconfidence
        rw [← hconfidence]
        exact clamp_bounded x

theorem parse_checked {raw : PyText} {parsed : List LLMProposal} (h : parsers.parse names raw = .ok parsed)
    {proposal : LLMProposal} (hmem : proposal ∈ parsed) : Checked names proposal := by
  obtain ⟨root, -, h⟩ := Attempt.bind_eq_ok.1 h
  obtain ⟨entries, -, h⟩ := Attempt.bind_eq_ok.1 h
  obtain ⟨entry, -, hentry⟩ := (Attempt.mem_mapM h).1 hmem
  exact buildProposal_checked hentry

end Parsers

-- Repairs

section

variable (parse : PyText → Except ProposeError α) (completions : Nat → PyText)

def Refused (raw : PyText) : Prop := ∃ detail, parse raw = .error (.offlineLLM detail)

/-- The loop that begins with the one attempt and may go on to the other comes to `n`: those before are refused. -/
def Asked (first last n : Nat) : Prop :=
  first ≤ n ∧ n ≤ last ∧ ∀ m, first ≤ m → m < n → Refused parse (completions m)

/-- The completions that are asked for come to no other exceptions. -/
def Repairable (readable : PyText → Prop) (repairs : Nat) : Prop :=
  ∀ n, Asked parse completions 0 repairs n → readable (completions n)

/-- One of the completions that are asked for is accepted. -/
def Accepted (repairs : Nat) (parsed : α) : Prop :=
  ∃ n, Asked parse completions 0 repairs n ∧ parse (completions n) = .ok parsed

variable {parse completions} {repairs left n : Nat}

theorem asked_self : Asked parse completions repairs repairs n ↔ n = repairs := by
  constructor
  · rintro ⟨hfrom, hto, -⟩
    exact Nat.le_antisymm hto hfrom
  · rintro rfl
    exact ⟨le_refl _, le_refl _, fun _ hfrom hbefore => absurd hfrom (Nat.not_le.2 hbefore)⟩

theorem asked_first (last : Nat) (h : repairs ≤ last) : Asked parse completions repairs last repairs :=
  ⟨le_refl _, h, fun _ hfrom hbefore => absurd hfrom (Nat.not_le.2 hbefore)⟩

/-- The loop goes on where the first attempt is refused. -/
theorem asked_succ {last : Nat} (h : repairs ≤ last) : Asked parse completions repairs last n ↔
    n = repairs ∨ Refused parse (completions repairs) ∧ Asked parse completions (repairs + 1) last n := by
  constructor
  · rintro ⟨hfrom, hto, hrefused⟩
    rcases Nat.eq_or_lt_of_le hfrom with rfl | hlater
    · exact .inl rfl
    · exact .inr ⟨hrefused repairs (le_refl _) hlater, hlater, hto, fun m hm => hrefused m (Nat.le_of_succ_le hm)⟩
  · rintro (rfl | ⟨hfirst, hfrom, hto, hrefused⟩)
    · exact asked_first last h
    · refine ⟨Nat.le_of_succ_le hfrom, hto, fun m hm hbefore => ?_⟩
      rcases Nat.eq_or_lt_of_le hm with rfl | hlater
      · exact hfirst
      · exact hrefused m hlater hbefore

variable (parse completions) in
theorem repairLoop_calls (repairs left : Nat) : (repairLoop parse completions repairs left).2 ≤ repairs + left + 1 := by
  induction left generalizing repairs with
  | zero => exact le_refl _
  | succ left ih =>
    unfold repairLoop
    split
    · simp only
      omega
    · have hlater := ih (repairs + 1)
      omega
    · simp only
      omega

theorem not_refused {e : ProposeError} (h : parse (completions repairs) = .error e)
    (hother : ∀ detail, e ≠ .offlineLLM detail) : ¬Refused parse (completions repairs) := by
  rintro ⟨detail, hrefused⟩
  exact hother detail (Except.error.inj (h.symm.trans hrefused))

variable (parse completions) in
theorem repairLoop_errorsIn (repairs left : Nat) :
    ErrorsIn ProposeError.documented (repairLoop parse completions repairs left).1 ↔
      ∀ n, Asked parse completions repairs (repairs + left) n →
        ErrorsIn ProposeError.documented (parse (completions n)) := by
  induction left generalizing repairs with
  | zero =>
    rw [repairLoop, Attempt.errorsIn_map]
    simp only [Nat.add_zero, asked_self, forall_eq]
  | succ left ih =>
    have hrange : repairs ≤ repairs + (left + 1) := Nat.le_add_right _ _
    simp only [asked_succ hrange, or_imp, forall_and, forall_eq]
    unfold repairLoop
    split
    · next parsed hparsed =>
      rw [hparsed]
      refine iff_of_true Attempt.errorsIn_ok ⟨Attempt.errorsIn_ok, ?_⟩
      rintro n ⟨⟨detail, hrefused⟩, -⟩
      cases hparsed.symm.trans hrefused
    · next detail hrefused =>
      have hend : repairs + 1 + left = repairs + (left + 1) := by omega
      rw [ih (repairs + 1), hend]
      refine ⟨fun h => ⟨?_, fun n hasked => h n hasked.2⟩, fun h n hasked => h.2 n ⟨⟨detail, hrefused⟩, hasked⟩⟩
      rw [hrefused]
      exact Attempt.errorsIn_error.2 trivial
    · next e hother hraised =>
      rw [hraised]
      rw [Attempt.errorsIn_error, Attempt.errorsIn_error]
      exact ⟨fun h => ⟨h, fun n hasked => absurd hasked.1 (not_refused hraised hother)⟩, And.left⟩

theorem repairLoop_ok {parsed : α} (repairs left : Nat) :
    (repairLoop parse completions repairs left).1 = .ok (parsed, n) ↔
      Asked parse completions repairs (repairs + left) n ∧ parse (completions n) = .ok parsed := by
  induction left generalizing repairs with
  | zero =>
    simp only [repairLoop, Nat.add_zero, asked_self]
    constructor
    · intro h
      cases hparse : parse (completions repairs) with
      | error e => simp [hparse, Except.map] at h
      | ok found =>
        simp only [hparse, Except.map, Except.ok.injEq, Prod.mk.injEq] at h
        obtain ⟨rfl, rfl⟩ := h
        exact ⟨rfl, hparse⟩
    · rintro ⟨rfl, hparse⟩
      simp [hparse, Except.map]
  | succ left ih =>
    have hrange : repairs ≤ repairs + (left + 1) := Nat.le_add_right _ _
    rw [asked_succ hrange]
    unfold repairLoop
    split
    · next found hparsed =>
      constructor
      · rintro ⟨⟩
        exact ⟨.inl rfl, hparsed⟩
      · rintro ⟨rfl | ⟨⟨detail, hrefused⟩, -⟩, hparse⟩
        · obtain rfl := Except.ok.inj (hparsed.symm.trans hparse)
          rfl
        · cases hparsed.symm.trans hrefused
    · next detail hrefused =>
      rw [ih (repairs + 1)]
      have hend : repairs + 1 + left = repairs + (left + 1) := by omega
      rw [hend]
      constructor
      · rintro ⟨hasked, hparse⟩
        exact ⟨.inr ⟨⟨detail, hrefused⟩, hasked⟩, hparse⟩
      · rintro ⟨rfl | ⟨-, hasked⟩, hparse⟩
        · cases hrefused.symm.trans hparse
        · exact ⟨hasked, hparse⟩
    · next e hother hraised =>
      refine iff_of_false nofun ?_
      rintro ⟨rfl | ⟨hrefused, -⟩, hparse⟩
      · cases hraised.symm.trans hparse
      · exact not_refused hraised hother hrefused

end

-- Batches

section

variable (parsers : Parsers ι) (toolName : τ → String) (repairs : Nat) (completions : Nat → Nat → PyText)

/-- The batches are parsable, up to the first for which no completion is accepted. -/
def BatchesParsable (index : Nat) : List (List τ) → Prop
  | [] => True
  | batch :: rest =>
    let names := batch.map toolName
    Repairable (parsers.parse names) (completions index) (parsers.Parsable names) repairs ∧
      ((∃ parsed, Accepted (parsers.parse names) (completions index) repairs parsed) → BatchesParsable (index + 1) rest)

/-- The proposals of the completions that are accepted, each with its batch. -/
inductive Answered : Nat → List (List τ) → List (List τ × LLMProposal) → Prop
  | done : Answered index [] []
  | batch : Accepted (parsers.parse (batch.map toolName)) (completions index) repairs parsed →
      Answered (index + 1) rest later → Answered index (batch :: rest) (parsed.map (batch, ·) ++ later)

variable {parsers toolName repairs completions}

/-- The proposal is one of those parsed from a completion for its batch. -/
def CameFrom (parsers : Parsers ι) (toolName : τ → String) (completions : Nat → Nat → PyText) (batches : List (List τ))
    (proposal : List τ × LLMProposal) : Prop :=
  ∃ index attempt parsed, batches[index]? = some proposal.1 ∧
    parsers.parse (proposal.1.map toolName) (completions index attempt) = .ok parsed ∧ proposal.2 ∈ parsed

theorem Answered.cameFrom {index : Nat} {batches : List (List τ)} {accepted : List (List τ × LLMProposal)}
    (h : Answered parsers toolName repairs completions index batches accepted) {proposal : List τ × LLMProposal}
    (hmem : proposal ∈ accepted) :
    CameFrom parsers toolName (fun later => completions (index + later)) batches proposal := by
  induction h with
  | done => cases hmem
  | @batch index parsed rest later batch haccepted hrest ih =>
    rcases List.mem_append.1 hmem with hmem | hmem
    · obtain ⟨built, hbuilt, rfl⟩ := List.mem_map.1 hmem
      obtain ⟨n, -, hparse⟩ := haccepted
      exact ⟨0, n, parsed, rfl, hparse, hbuilt⟩
    · obtain ⟨offset, attempt, found, hbatch, hparse, hfound⟩ := ih hmem
      refine ⟨offset + 1, attempt, found, hbatch, ?_, hfound⟩
      have hindex : index + (offset + 1) = index + 1 + offset := by omega
      simp only [hindex]
      exact hparse

theorem CameFrom.checked {batches : List (List τ)} {proposal : List τ × LLMProposal}
    (h : CameFrom parsers toolName completions batches proposal) :
    Parsers.Checked (proposal.1.map toolName) proposal.2 := by
  obtain ⟨_, _, _, -, hparse, hmem⟩ := h
  exact Parsers.parse_checked hparse hmem

variable {maxRepairAttempts : Int}

theorem runWithRepair_nonneg (parse : PyText → Except ProposeError α) (completions : Nat → PyText)
    (h : 0 ≤ maxRepairAttempts) :
    runWithRepair parse maxRepairAttempts completions = repairLoop parse completions 0 maxRepairAttempts.toNat :=
  if_neg (Int.not_lt.2 h)

theorem runWithRepair_calls (parse : PyText → Except ProposeError α) (completions : Nat → PyText)
    (h : 0 ≤ maxRepairAttempts) :
    ((runWithRepair parse maxRepairAttempts completions).2 : Int) ≤ maxRepairAttempts + 1 := by
  rw [runWithRepair_nonneg parse completions h]
  have hcalls := repairLoop_calls parse completions 0 maxRepairAttempts.toNat
  omega

theorem proposeBatches_calls (h : 0 ≤ maxRepairAttempts) (batches : List (List τ)) (index : Nat)
    (proposals : List (List τ × LLMProposal)) {n : Nat}
    (hmem : n ∈ (proposeBatches parsers toolName maxRepairAttempts completions index proposals batches).calls) :
    (n : Int) ≤ maxRepairAttempts + 1 := by
  induction batches generalizing index proposals with
  | nil => cases hmem
  | cons batch rest ih =>
    have hcalls := runWithRepair_calls (parsers.parse (batch.map toolName)) (completions index) h
    unfold proposeBatches at hmem
    split at hmem
    · next heq =>
      rw [heq] at hcalls
      obtain rfl := List.mem_singleton.1 hmem
      exact hcalls
    · next heq =>
      rw [heq] at hcalls
      rcases List.mem_cons.1 hmem with rfl | hmem
      · exact hcalls
      · exact ih _ _ hmem

theorem proposeBatches_errorsIn (h : 0 ≤ maxRepairAttempts) (batches : List (List τ)) (index : Nat)
    (proposals : List (List τ × LLMProposal)) :
    ErrorsIn ProposeError.documented
        (proposeBatches parsers toolName maxRepairAttempts completions index proposals batches).result ↔
      BatchesParsable parsers toolName maxRepairAttempts.toNat completions index batches := by
  induction batches generalizing index proposals with
  | nil => exact iff_of_true Attempt.errorsIn_ok trivial
  | cons batch rest ih =>
    have hrepairs := repairLoop_errorsIn (parsers.parse (batch.map toolName)) (completions index) 0
      maxRepairAttempts.toNat
    simp only [Nat.zero_add, Parsers.parse_errorsIn] at hrepairs
    unfold proposeBatches BatchesParsable Repairable
    rw [runWithRepair_nonneg _ _ h]
    dsimp only
    split
    · next e calls heq =>
      rw [heq, Attempt.errorsIn_error] at hrepairs
      rw [Attempt.errorsIn_error]
      refine ⟨fun h => ⟨hrepairs.1 h, ?_⟩, fun h => hrepairs.2 h.1⟩
      rintro ⟨parsed, n, hasked, hparse⟩
      have hok := (repairLoop_ok 0 maxRepairAttempts.toNat).2 ⟨by rwa [Nat.zero_add], hparse⟩
      rw [heq] at hok
      cases hok
    · next parsed n calls heq =>
      have hok : (repairLoop (parsers.parse (batch.map toolName)) (completions index) 0 maxRepairAttempts.toNat).1 =
          .ok (parsed, n) := by rw [heq]
      obtain ⟨hasked, hparse⟩ := (repairLoop_ok 0 maxRepairAttempts.toNat).1 hok
      rw [Nat.zero_add] at hasked
      rw [heq] at hrepairs
      refine (ih _ _).trans ?_
      refine (and_iff_right (hrepairs.1 Attempt.errorsIn_ok)).symm.trans (and_congr_right fun _ => ?_)
      exact ⟨fun hrest _ => hrest, fun hrest => hrest ⟨parsed, n, hasked, hparse⟩⟩

theorem proposeBatches_ok (h : 0 ≤ maxRepairAttempts) (batches : List (List τ)) (index : Nat)
    (proposals final : List (List τ × LLMProposal)) :
    (proposeBatches parsers toolName maxRepairAttempts completions index proposals batches).result = .ok final ↔
      ∃ accepted, Answered parsers toolName maxRepairAttempts.toNat completions index batches accepted ∧
        final = accepted.foldl (Firsts.add flowName) proposals := by
  induction batches generalizing index proposals with
  | nil =>
    constructor
    · rintro ⟨⟩
      exact ⟨[], .done, rfl⟩
    · rintro ⟨accepted, hanswered, rfl⟩
      cases hanswered
      rfl
  | cons batch rest ih =>
    have hrepairs : ∀ {parsed n}, (repairLoop (parsers.parse (batch.map toolName)) (completions index) 0
        maxRepairAttempts.toNat).1 = .ok (parsed, n) ↔ _ := repairLoop_ok 0 maxRepairAttempts.toNat
    simp only [Nat.zero_add] at hrepairs
    unfold proposeBatches
    rw [runWithRepair_nonneg _ _ h]
    split
    · next e calls heq =>
      refine iff_of_false nofun ?_
      rintro ⟨_, ⟨⟩ | ⟨⟨n, hasked, hparse⟩, -⟩, -⟩
      have hok := hrepairs.2 ⟨hasked, hparse⟩
      rw [heq] at hok
      cases hok
    · next parsed n calls heq =>
      refine (ih _ _).trans ⟨?_, ?_⟩
      · rintro ⟨later, hlater, rfl⟩
        refine ⟨_, .batch ⟨n, hrepairs.1 (by rw [heq])⟩ hlater, ?_⟩
        rw [List.foldl_append]
      · rintro ⟨_, ⟨⟩ | ⟨⟨n', hasked, hparse⟩, hlater⟩, rfl⟩
        have hok := hrepairs.2 ⟨hasked, hparse⟩
        rw [heq] at hok
        cases hok
        refine ⟨_, hlater, ?_⟩
        rw [List.foldl_append]

end

-- Confinement

/-- All that the steps of the proposal can come to by name is a tool of its batch. -/
def WithinBatch (toolName : τ → String) (proposal : List τ × LLMProposal) : Prop :=
  ∀ step ∈ proposal.2.proposedFlow.steps.linearSteps,
    step.toFlowStep.Within (· ∈ proposal.1.map toolName) fun _ => False

/-- What the check of the names does not look at: a sub-flow, the candidates of a decision, a fallback. -/
structure RestListed (names : List String) (flow : FullFlow) : Prop where
  tool : ∀ step ∈ flow.steps.linearSteps, ∀ name, step.target ≠ .flow name
  candidates : ∀ step ∈ flow.steps.linearSteps, ∀ candidates, step.decisionCandidates = some candidates →
    ∀ candidate ∈ candidates, candidate ∈ names
  fallback : ∀ step ∈ flow.steps.linearSteps, ∀ name, step.onError = .fallback name → name ∈ names

theorem withinBatch_iff {toolName : τ → String} {proposal : List τ × LLMProposal} : WithinBatch toolName proposal ↔
    Parsers.ToolsKnown (proposal.1.map toolName) proposal.2.proposedFlow ∧
      RestListed (proposal.1.map toolName) proposal.2.proposedFlow := by
  constructor
  · intro h
    exact ⟨fun step hstep => (h step hstep).tool, fun step hstep => (h step hstep).flow,
      fun step hstep => (h step hstep).candidate, fun step hstep => (h step hstep).fallback⟩
  · rintro ⟨htools, hflow, hcandidates, hfallback⟩ step hstep
    exact ⟨htools step hstep, hflow step hstep, hcandidates step hstep, hfallback step hstep⟩

section

variable (parsers : Parsers ι) (toolName : τ → String) (maxRepairAttempts : Int) (completions : Nat → Nat → PyText)
  (tools : List τ) (maxProposals : Int) (budget : Option (PromptBudget τ)) (tokenCounter : Option (String → Int))
  (buildPrompt : List τ → Option Nat → String)

/-- The batches that the prompts are made of. -/
def promptBatches : List (List τ) :=
  if tools.isEmpty then []
  else
    match applyBudget tools budget tokenCounter buildPrompt with
    | .ok plan => plan.batches
    | .error _ => []

/-- No batch has more calls than it has attempts, the errors are the documented ones, and proposals are few,
named apart, and made from the tools of their batches. -/
structure Outcome.Confined (outcome : Outcome τ) (batches : List (List τ)) : Prop where
  calls : ∀ n ∈ outcome.calls, (n : Int) ≤ maxRepairAttempts + 1
  error : ErrorsIn ProposeError.documented outcome.result
  few : ∀ proposals, outcome.result = .ok proposals → (proposals.length : Int) ≤ maxProposals
  distinct : ∀ proposals, outcome.result = .ok proposals → (proposals.map flowName).Nodup
  cameFrom : ∀ proposals, outcome.result = .ok proposals → ∀ proposal ∈ proposals,
    CameFrom parsers toolName completions batches proposal
  linear : ∀ proposals, outcome.result = .ok proposals → ∀ proposal ∈ proposals,
    proposal.2.proposedFlow.steps.isDag = false
  confidence : ∀ proposals, outcome.result = .ok proposals → ∀ proposal ∈ proposals,
    0 ≤ proposal.2.confidence ∧ proposal.2.confidence ≤ 1
  within : ∀ proposals, outcome.result = .ok proposals → ∀ proposal ∈ proposals, WithinBatch toolName proposal

/-- The arguments are valid, no completion that is asked for makes a parser or a message raise something else,
and the first proposals of their names have nothing but tools of their batches where the check does not look. -/
structure Confinable (batches : List (List τ)) : Prop where
  proposals : 1 ≤ maxProposals
  budget : tools ≠ [] → ∀ limit, budget = some limit → limit.Valid
  repairs : batches ≠ [] → 0 ≤ maxRepairAttempts
  parsable : BatchesParsable parsers toolName maxRepairAttempts.toNat completions 0 batches
  names : ∀ accepted proposal, Answered parsers toolName maxRepairAttempts.toNat completions 0 batches accepted →
    Firsts.IsFirst flowName maxProposals.toNat accepted proposal →
      RestListed (proposal.1.map toolName) proposal.2.proposedFlow

variable {parsers toolName maxRepairAttempts completions tools maxProposals budget tokenCounter buildPrompt}

theorem planWithin_documented {maxTokens rendered total : Nat} {estimate : Int} {batches : List (List τ)}
    {cap : Option Nat} : ErrorsIn (fun e => (ProposeError.budget e).documented)
      (planWithin maxTokens total estimate batches cap rendered) := by
  intro e h
  obtain ⟨rfl, -⟩ := planWithin_error h
  trivial

variable (tools budget tokenCounter buildPrompt) in
/-- A plan is refused only for the size of its prompts exactly if the budget is valid. -/
theorem applyBudget_documented : ErrorsIn (fun e => (ProposeError.budget e).documented)
    (applyBudget tools budget tokenCounter buildPrompt) ↔ ∀ limit, budget = some limit → limit.Valid := by
  cases budget with
  | none => exact iff_of_true Attempt.errorsIn_ok nofun
  | some limit =>
    simp only [Option.some.injEq, forall_eq']
    unfold applyBudget
    dsimp only
    split
    · next hunknown => exact iff_of_false Attempt.errorsIn_error.1 fun hvalid => hunknown hvalid.1
    next hknown =>
    unfold selectTools
    by_cases hselect : limit.overflow = "select"
    · rw [if_pos hselect]
      cases hselector : limit.selector with
      | none => exact iff_of_false Attempt.errorsIn_error.1 fun hvalid => hvalid.2 hselect hselector
      | some selector =>
        dsimp only
        rw [if_pos (.inr hselect)]
        refine iff_of_true planWithin_documented ⟨not_not.1 hknown, fun _ hnone => ?_⟩
        cases hselector.symm.trans hnone
    · rw [if_neg hselect]
      dsimp only
      refine iff_of_true ?_ ⟨not_not.1 hknown, fun hmode => absurd hmode hselect⟩
      split
      · exact planWithin_documented
      split
      · exact planWithin_documented
      · exact planWithin_documented

variable (parsers toolName maxRepairAttempts completions) in
/-- The loop over the batches is confined under the conditions on the completions. -/
theorem proposeBatches_confined (batches : List (List τ)) (hmax : 1 ≤ maxProposals)
    (hbudget : tools ≠ [] → ∀ limit, budget = some limit → limit.Valid) :
    let outcome := proposeBatches parsers toolName maxRepairAttempts completions 0 [] batches
    Outcome.Confined parsers toolName maxRepairAttempts completions maxProposals
        { outcome with result := outcome.result.map (List.take maxProposals.toNat) } batches ↔
      Confinable parsers toolName maxRepairAttempts completions tools maxProposals budget batches := by
  intro outcome
  rcases lt_or_ge maxRepairAttempts 0 with hnegative | hrepairs
  · cases batches with
    | nil =>
      have houtcome : outcome = { result := .ok [], calls := [] } := rfl
      refine iff_of_true ?_ ⟨hmax, hbudget, fun h => absurd rfl h, trivial, ?_⟩
      · rw [houtcome]
        refine ⟨nofun, nofun, ?_, ?_, ?_, ?_, ?_, ?_⟩ <;> rintro _ ⟨⟩ <;> simp
        omega
      · rintro accepted proposal ⟨⟩ ⟨before, after, hempty, -⟩
        simp at hempty
    | cons batch rest =>
      refine iff_of_false (fun h => ?_) fun h => ?_
      · have herror := h.error
        simp only [outcome, proposeBatches, runWithRepair, if_pos hnegative, Except.map, Attempt.errorsIn_error]
          at herror
        exact herror
      · exact absurd (h.repairs (List.cons_ne_nil _ _)) (Int.not_le.2 hnegative)
  · have hok : ∀ {proposals}, outcome.result.map (List.take maxProposals.toNat) = .ok proposals ↔
        ∃ accepted, Answered parsers toolName maxRepairAttempts.toNat completions 0 batches accepted ∧
          proposals = (Firsts.firsts flowName accepted).take maxProposals.toNat := by
      intro proposals
      constructor
      · intro h
        cases hresult : outcome.result with
        | error e => simp [hresult, Except.map] at h
        | ok final =>
          simp only [hresult, Except.map, Except.ok.injEq] at h
          obtain ⟨accepted, hanswered, rfl⟩ := (proposeBatches_ok hrepairs batches 0 [] final).1 hresult
          exact ⟨accepted, hanswered, h.symm⟩
      · rintro ⟨accepted, hanswered, rfl⟩
        rw [(proposeBatches_ok hrepairs batches 0 [] _).2 ⟨accepted, hanswered, rfl⟩]
        rfl
    have hcame : ∀ {accepted}, Answered parsers toolName maxRepairAttempts.toNat completions 0 batches accepted →
        ∀ {proposal}, proposal ∈ (Firsts.firsts flowName accepted).take maxProposals.toNat →
          CameFrom parsers toolName completions batches proposal := by
      intro accepted hanswered proposal hmem
      obtain ⟨before, after, rfl, -, -⟩ := Firsts.mem_take_firsts.1 hmem
      have hcame := hanswered.cameFrom (List.mem_append_right _ List.mem_cons_self)
      simpa only [Nat.zero_add] using hcame
    constructor
    · intro h
      have herror := h.error
      rw [Attempt.errorsIn_map] at herror
      refine ⟨hmax, hbudget, fun _ => hrepairs, (proposeBatches_errorsIn hrepairs batches 0 []).1 herror, ?_⟩
      intro accepted proposal hanswered hfirst
      have hmem := Firsts.mem_take_firsts.2 hfirst
      exact (withinBatch_iff.1 (h.within _ (hok.2 ⟨accepted, hanswered, rfl⟩) proposal hmem)).2
    · intro h
      refine ⟨fun n hn => proposeBatches_calls hrepairs batches 0 [] hn, ?_, ?_, ?_, ?_, ?_, ?_, ?_⟩
      · exact Attempt.errorsIn_map.2 ((proposeBatches_errorsIn hrepairs batches 0 []).2 h.parsable)
      · intro proposals hproposals
        obtain ⟨accepted, -, rfl⟩ := hok.1 hproposals
        have hlength := List.length_take_le maxProposals.toNat (Firsts.firsts flowName accepted)
        omega
      · intro proposals hproposals
        obtain ⟨accepted, -, rfl⟩ := hok.1 hproposals
        rw [List.map_take]
        exact (Firsts.nodup_firsts accepted).sublist (List.take_sublist _ _)
      all_goals
        intro proposals hproposals proposal hmem
        obtain ⟨accepted, hanswered, rfl⟩ := hok.1 hproposals
        have hcameFrom := hcame hanswered hmem
      · exact hcameFrom
      · exact hcameFrom.checked.linear
      · exact hcameFrom.checked.confidence
      · exact withinBatch_iff.2
          ⟨hcameFrom.checked.tools, h.names accepted proposal hanswered (Firsts.mem_take_firsts.1 hmem)⟩

/-- `llm_propose_flows` raises the documented errors and keeps to the tools of the prompts exactly under the
conditions on its arguments and on the completions. -/
theorem llmProposeFlows_confined_iff (parsers : Parsers ι) (toolName : τ → String) (maxRepairAttempts : Int)
    (completions : Nat → Nat → PyText) (tools : List τ) (maxProposals : Int) (budget : Option (PromptBudget τ))
    (tokenCounter : Option (String → Int)) (buildPrompt : List τ → Option Nat → String) :
    Outcome.Confined parsers toolName maxRepairAttempts completions maxProposals
        (llmProposeFlows parsers toolName maxRepairAttempts completions tools maxProposals budget tokenCounter
          buildPrompt)
        (promptBatches tools budget tokenCounter buildPrompt) ↔
      Confinable parsers toolName maxRepairAttempts completions tools maxProposals budget
        (promptBatches tools budget tokenCounter buildPrompt) := by
  unfold llmProposeFlows promptBatches
  by_cases hmax : maxProposals < 1
  · rw [if_pos hmax]
    exact iff_of_false (fun h => Attempt.errorsIn_error.1 h.error) fun h => absurd h.proposals (Int.not_le.2 hmax)
  rw [if_neg hmax]
  have hmax := Int.not_lt.1 hmax
  have hdocumented := applyBudget_documented tools budget tokenCounter buildPrompt
  cases tools with
  | nil =>
    simp only [List.isEmpty_nil, if_true]
    have hconfined := proposeBatches_confined parsers toolName maxRepairAttempts completions [] hmax
      fun (h : [] ≠ []) limit (_ : budget = some limit) => absurd rfl h
    simpa only [proposeBatches, Except.map, List.take_nil] using hconfined
  | cons tool rest =>
    simp only [List.isEmpty_cons, Bool.false_eq_true, if_false]
    cases hplan : applyBudget (tool :: rest) budget tokenCounter buildPrompt with
    | ok plan =>
      rw [hplan] at hdocumented
      exact proposeBatches_confined parsers toolName maxRepairAttempts completions plan.batches hmax
        fun _ => hdocumented.1 Attempt.errorsIn_ok
    | error e =>
      rw [hplan, Attempt.errorsIn_error] at hdocumented
      constructor
      · intro h
        refine ⟨hmax, fun _ => hdocumented.1 (Attempt.errorsIn_error.1 h.error), fun h => absurd rfl h, trivial, ?_⟩
        rintro accepted proposal ⟨⟩ ⟨before, after, hempty, -⟩
        simp at hempty
      · intro h
        have herror := hdocumented.2 (h.budget (List.cons_ne_nil _ _))
        refine ⟨nofun, Attempt.errorsIn_error.2 herror, ?_, ?_, ?_, ?_, ?_, ?_⟩ <;> exact nofun

end

-- A fallback that no prompt shows

def partJson : Part Json → Json
  | .parsed json => json
  | .flowText => .str "Flow"
  | .payload (.object fields) =>
    .object (("type", (fields.lookup "type").getD (.str "Flow")) :: fields.filter fun field => field.1 ≠ "type")
  | .payload other => other

def validatePart (isDag : Bool) (part : Part Json) : Except String FullFlow :=
  match FullFlow.validate isDag ((partJson part).without ["type", "format_version"]) with
  | some flow => .ok flow
  | none => .error "the fields are not valid"

def readJson (raw : PyText) : ParseOutcome Json :=
  match loads FloatFormat.fraction (raw.map Char.ofNat) with
  | some root => .value root
  | none => .syntaxError "no document"

def jsonNumber : Json → Option PyNumber
  | .int i => some (.int i)
  | .float f => some (.float f)
  | _ => none

/-- Parsers of JSON texts, which YAML is only more of. -/
def jsonParsers : Parsers Json where
  loads := readJson
  safeLoad := readJson
  yamlInstalled := true
  objects := FlowParseLimits.ofJson
  number? := jsonNumber
  toDouble i := .finite i
  strOther _ := .ok ""
  repr _ := .ok ""
  modelValidate := validatePart
  reprNames := ", ".intercalate

def ghostCompletion : PyText := PyText.ofString
  ("[\x7b\"flow\": \x7b\"name\": \"f\", \"version\": \"1.0.0\", \"description\": \"\", " ++
    "\"steps\": [\x7b\"tool_name\": \"add\", \"on_error\": \"fallback:ghost\"\x7d]\x7d, \"confidence\": 1\x7d]")

/-- The only tool is `add`, and the proposal falls back to `ghost`. -/
theorem proposal_strays : ¬∀ (parsers : Parsers Json) (toolName : String → String) (maxRepairAttempts : Int)
    (completions : Nat → Nat → PyText) (tools : List String) (maxProposals : Int)
    (budget : Option (PromptBudget String)) (tokenCounter : Option (String → Int))
    (buildPrompt : List String → Option Nat → String),
    Outcome.Confined parsers toolName maxRepairAttempts completions maxProposals
      (llmProposeFlows parsers toolName maxRepairAttempts completions tools maxProposals budget tokenCounter
        buildPrompt)
      (promptBatches tools budget tokenCounter buildPrompt) := by
  intro h
  have hconfined := h jsonParsers id 0 (fun _ _ => ghostCompletion) ["add"] 1 none none fun _ _ => ""
  have hrun : (llmProposeFlows jsonParsers id 0 (fun _ _ => ghostCompletion) ["add"] 1 none none
      fun _ _ => "").result.toOption.map (·.map fun proposal =>
        (proposal.1, proposal.2.proposedFlow.steps.linearSteps.map (·.onError))) =
      some [(["add"], [.fallback "ghost"])] := by
    decide +kernel
  obtain ⟨proposals, hproposals, hshape⟩ := Option.map_eq_some_iff.1 hrun
  obtain ⟨proposal, hproposal, heq⟩ := List.map_eq_singleton_iff.1 hshape
  have hresult := (Attempt.toOption_eq_iff (y := .ok proposals)).1 hproposals proposals
  have hwithin := hconfined.within proposals (hresult.2 rfl) proposal (hproposal ▸ List.mem_singleton_self _)
  obtain ⟨hbatch, hsteps⟩ := Prod.mk.inj heq
  obtain ⟨step, hstep, hfallback⟩ := List.map_eq_singleton_iff.1 hsteps
  have hghost := (hwithin step (hstep ▸ List.mem_singleton_self _)).fallback "ghost" hfallback
  rw [hbatch] at hghost
  exact absurd hghost (by decide)

end Proposals

end ChainWeaver
