import ChainWeaver.Observer
import Mathlib.Data.List.Infix

/-!
# What the observer reports

Every pattern of an allowed length with its number of places, and of traces that hold
it. With `collapse_subsumed`, what is left out is inside something that is reported, at
each of its places.
-/

namespace ChainWeaver.Observer

open Counting
open Windows

variable {minLength start cap : Nat} {maxLength : Option Nat} {seq pattern : List String} {traces : List ObservedTrace}

-- Counting the windows of one sequence

theorem count_patternsAt (hpos : 0 < minLength) (pattern : List String) : (patternsAt minLength cap seq start).count pattern =
    if (minLength ≤ pattern.length ∧ pattern.length ≤ min cap (seq.length - start)) ∧ slice start pattern.length seq = pattern
    then 1 else 0 := by
  have hslice : ∀ length ∈ List.range' minLength (min cap (seq.length - start) + 1 - minLength),
      (slice start length seq == pattern) = true ↔
        length = pattern.length ∧ slice start pattern.length seq = pattern := by
    intro length hmem
    obtain ⟨hmin, hlength⟩ := List.mem_range'_1.1 hmem
    rw [beq_iff_eq]
    constructor
    · rintro rfl
      have hwidth : (slice start length seq).length = length := slice_length (by omega)
      rw [hwidth]
      exact ⟨rfl, rfl⟩
    · rintro ⟨rfl, hstands⟩
      exact hstands
  have hnodup : (List.range' minLength (min cap (seq.length - start) + 1 - minLength)).Nodup := List.nodup_range'
  unfold patternsAt
  dsimp only
  rw [List.count, List.countP_map]
  by_cases hstands : slice start pattern.length seq = pattern
  · have hcount : List.countP ((· == pattern) ∘ fun length => slice start length seq)
        (List.range' minLength (min cap (seq.length - start) + 1 - minLength)) =
        (List.range' minLength (min cap (seq.length - start) + 1 - minLength)).count pattern.length := by
      refine List.countP_congr fun length hmem => ?_
      rw [Function.comp_apply, hslice length hmem, beq_iff_eq, and_iff_left hstands]
    rw [hcount, hnodup.count]
    simp only [List.mem_range'_1, hstands, and_true]
    refine if_congr ?_ rfl rfl
    omega
  · rw [if_neg fun h => hstands h.2]
    refine List.countP_eq_zero.2 fun length hmem hmatch => hstands ?_
    exact ((hslice length hmem).1 hmatch).2

theorem total_ite (p : Nat → Prop) [DecidablePred p] (items : List Nat) :
    total (items.map fun item => if p item then 1 else 0) = (items.filter fun item => decide (p item)).length := by
  induction items with
  | nil => rfl
  | cons item rest ih => by_cases h : p item <;> simp [h, ih, Nat.add_comm]

/-- The length is within the bounds. -/
def Allowed (minLength : Nat) (maxLength : Option Nat) (pattern : List String) : Prop :=
  minLength ≤ pattern.length ∧ ∀ cap, maxLength = some cap → pattern.length ≤ cap

theorem length_le_capOf (h : Allowed minLength maxLength pattern) (hfits : pattern.length ≤ seq.length) :
    pattern.length ≤ capOf maxLength seq := by
  cases maxLength with
  | none => exact hfits
  | some cap => exact Nat.le_min.2 ⟨h.2 cap rfl, hfits⟩

theorem allowed_of_length_le (hmin : minLength ≤ pattern.length) (hcap : pattern.length ≤ capOf maxLength seq) :
    Allowed minLength maxLength pattern := by
  refine ⟨hmin, ?_⟩
  rintro cap rfl
  exact hcap.trans (Nat.min_le_left _ _)

/-- The loops meet a pattern once at each of its places. -/
theorem count_patterns (hpos : 0 < minLength) (h : Allowed minLength maxLength pattern) (seq : List String) :
    (patterns minLength maxLength seq).count pattern = (occurrences pattern seq).length := by
  have hne : pattern ≠ [] := List.length_pos_iff.1 (Nat.lt_of_lt_of_le hpos h.1)
  unfold patterns
  simp only [count_flatMap, count_patternsAt hpos]
  rw [total_ite, occurrences_eq hne]
  congr 1
  refine List.filter_congr fun start _ => decide_eq_decide.2 ⟨And.right, fun hstands => ⟨⟨h.1, ?_⟩, hstands⟩⟩
  have hfits := fits_of_mem_occurrences ((mem_occurrences hne).2 hstands)
  exact Nat.le_min.2 ⟨length_le_capOf h (by omega), by omega⟩

theorem allowed_of_mem (hpos : 0 < minLength) (h : pattern ∈ patterns minLength maxLength seq) : Allowed minLength maxLength pattern := by
  obtain ⟨start, hstart, hmem⟩ := List.mem_flatMap.1 h
  have hcount := List.count_pos_iff.2 hmem
  rw [count_patternsAt hpos] at hcount
  split at hcount
  · next hfound => exact allowed_of_length_le hfound.1.1 (hfound.1.2.trans (Nat.min_le_left _ _))
  · exact absurd hcount (Nat.lt_irrefl 0)

-- Counting over all traces

/-- The number of places of a pattern in the traces. -/
def frequency (pattern : List String) (traces : List ObservedTrace) : Nat :=
  total (traces.map fun trace => (occurrences pattern trace.toolNames).length)

/-- The number of traces in which the pattern has a place. -/
def holding (pattern : List String) (traces : List ObservedTrace) : Nat :=
  traces.countP fun trace => occurrences pattern trace.toolNames ≠ []

/-- All that the loops count. -/
abbrev allPatterns (minLength : Nat) (maxLength : Option Nat) (traces : List ObservedTrace) : List (List String) :=
  traces.flatMap fun trace => patterns minLength maxLength trace.toolNames

theorem count_allPatterns (hpos : 0 < minLength) (h : Allowed minLength maxLength pattern) :
    (allPatterns minLength maxLength traces).count pattern = frequency pattern traces := by
  rw [allPatterns, count_flatMap, frequency]
  simp only [count_patterns hpos h]

theorem tracesWith_eq (item : List String) (seqs : List (List (List String))) :
    tracesWith item seqs = seqs.countP fun seq => seq.contains item := by
  unfold tracesWith
  induction seqs with
  | nil => rfl
  | cons seq rest ih =>
    rw [List.flatMap_cons, List.count_append, ih, (nodup_eraseDups seq).count, List.countP_cons, Nat.add_comm]
    simp

theorem tracesWith_patterns (hpos : 0 < minLength) (h : Allowed minLength maxLength pattern) :
    tracesWith pattern (traces.map fun trace => patterns minLength maxLength trace.toolNames) =
      holding pattern traces := by
  rw [tracesWith_eq, List.countP_map, holding]
  refine List.countP_congr fun trace _ => ?_
  rw [Function.comp_apply, List.contains_iff_mem, ← List.count_pos_iff, count_patterns hpos h, decide_eq_true_eq,
    List.length_pos_iff]

-- Collapsing

theorem isContiguousSubsequence_iff {short long : List String} : isContiguousSubsequence short long = true ↔
    short.length < long.length ∧ ∃ offset, InsideAt short long offset := by
  unfold isContiguousSubsequence
  split
  · next hge => exact iff_of_false (by simp) fun h => absurd h.1 (Nat.not_lt.2 hge)
  · next hlt =>
    have hlt := Nat.lt_of_not_le hlt
    rw [and_iff_right hlt, List.any_eq_true]
    refine exists_congr fun offset => ?_
    rw [List.mem_range, decide_eq_true_eq, InsideAt]
    exact and_congr_left fun _ => by omega

/-- A pattern, and one that takes its part: as frequent, and around it. -/
structure Covers (entry other : List String × Nat) : Prop where
  count : other.2 = entry.2
  inside : ∃ offset, InsideAt entry.1 other.1 offset

theorem Covers.refl (entry : List String × Nat) : Covers entry entry :=
  ⟨rfl, 0, by simp [InsideAt, slice]⟩

theorem Covers.trans {entry middle other : List String × Nat} (h : Covers entry middle) (h' : Covers middle other) :
    Covers entry other := by
  obtain ⟨offset, hinside⟩ := h.inside
  obtain ⟨place, hplace⟩ := h'.inside
  exact ⟨h'.count.trans h.count, _, hinside.trans hplace⟩

/-- Every pattern is covered by one that stays, by induction on how much longer
patterns can get. -/
theorem collapse_covered {qualifying : List (List String × Nat)} {bound : Nat}
    (hbound : ∀ entry ∈ qualifying, entry.1.length ≤ bound) {entry : List String × Nat} (hmem : entry ∈ qualifying) :
    ∃ kept ∈ collapseSubsumed qualifying, Covers entry kept := by
  obtain ⟨room, hroom⟩ : ∃ room, bound - entry.1.length = room := ⟨_, rfl⟩
  induction room using Nat.strong_induction_on generalizing entry with
  | _ room ih =>
    by_cases hkept : entry ∈ collapseSubsumed qualifying
    · exact ⟨entry, hkept, .refl entry⟩
    · obtain ⟨outer, houter, -, hcontiguous⟩ : ∃ outer, (outer, entry.2) ∈ qualifying ∧ outer ≠ entry.1 ∧
          isContiguousSubsequence entry.1 outer = true := by
        simpa [collapseSubsumed, hmem] using hkept
      obtain ⟨hlonger, hinside⟩ := isContiguousSubsequence_iff.1 hcontiguous
      have hle := hbound _ houter
      dsimp only at hle
      obtain ⟨kept, hkept, hcovers⟩ := ih (bound - outer.length) (by omega) houter rfl
      have houter : Covers entry (outer, entry.2) := ⟨rfl, hinside⟩
      exact ⟨kept, hkept, houter.trans hcovers⟩

theorem mem_of_collapsed {qualifying : List (List String × Nat)} {entry : List String × Nat}
    (h : entry ∈ collapseSubsumed qualifying) : entry ∈ qualifying :=
  (List.mem_filter.1 h).1

/-- Where a pattern stands, a covering one of the same frequency stands around it. -/
theorem covered_places {inner outer : List String} {offset : Nat} (h : InsideAt inner outer offset) (hne : inner ≠ [])
    (hcount : frequency outer traces = frequency inner traces) {trace : ObservedTrace} (htrace : trace ∈ traces)
    (hstart : start ∈ occurrences inner trace.toolNames) :
    ∃ place ∈ occurrences outer trace.toolNames, place ≤ start ∧ start + inner.length ≤ place + outer.length := by
  have hlength := eq_of_total_eq (fun trace _ => h.length_le hne trace.toolNames) hcount trace htrace
  obtain ⟨place, hplace, rfl⟩ := h.covered hne hlength hstart
  exact ⟨place, hplace, Nat.le_add_right _ _, by have := h.1; omega⟩

-- Reports

section

variable {R : Type} (hashing : Hashing) (ratio : Nat → Nat → R)

theorem sightings_fst (minLength : Nat) (maxLength : Option Nat) (traces : List ObservedTrace) :
    (sightings minLength maxLength traces).map Prod.fst = allPatterns minLength maxLength traces := by
  simp [sightings, allPatterns, patterns, List.map_flatMap, Function.comp_def]

/-- A counted pattern has been seen somewhere. -/
theorem suggestion_isSome {entry : List String × Nat} (h : entry.1 ∈ allPatterns minLength maxLength traces) :
    ∃ proposal, suggestion hashing ratio minLength maxLength traces entry = some proposal ∧
      proposal.tools = entry.1 ∧ proposal.occurrences = entry.2 ∧ proposal.tracesWithPattern =
        tracesWith entry.1 (traces.map fun trace => patterns minLength maxLength trace.toolNames) := by
  obtain ⟨pattern, count⟩ := entry
  rw [← sightings_fst] at h
  cases hseen : (sightings minLength maxLength traces).lookup pattern with
  | none =>
    obtain ⟨sighting, hmem, rfl⟩ := List.mem_map.1 h
    have hnone := List.lookup_eq_none_iff.1 hseen sighting hmem
    simp at hnone
  | some seen =>
    obtain ⟨trace, place⟩ := seen
    simp only [suggestion, hseen]
    exact ⟨_, rfl, rfl, rfl, rfl⟩

/-- The patterns that are frequent enough. -/
abbrev qualifying (minOccurrences minLength : Nat) (maxLength : Option Nat) (traces : List ObservedTrace) :
    List (List String × Nat) :=
  (counter (allPatterns minLength maxLength traces)).filter fun entry => minOccurrences ≤ entry.2

theorem mem_qualifying {minOccurrences count : Nat} (hpos : 0 < minLength) (hoccurs : 0 < minOccurrences) :
    (pattern, count) ∈ qualifying minOccurrences minLength maxLength traces ↔
      Allowed minLength maxLength pattern ∧ minOccurrences ≤ count ∧ count = frequency pattern traces := by
  rw [List.mem_filter, mem_counter, decide_eq_true_eq]
  constructor
  · rintro ⟨⟨hmem, rfl⟩, hmin⟩
    obtain ⟨trace, -, hpattern⟩ := List.mem_flatMap.1 hmem
    have hallowed := allowed_of_mem hpos hpattern
    exact ⟨hallowed, hmin, count_allPatterns hpos hallowed⟩
  · rintro ⟨hallowed, hmin, rfl⟩
    have hcount : (allPatterns minLength maxLength traces).count pattern = _ := count_allPatterns hpos hallowed
    refine ⟨⟨List.count_pos_iff.1 ?_, hcount.symm⟩, hmin⟩
    omega

/-- The proposals for some of the counted patterns. -/
abbrev proposals (minLength : Nat) (maxLength : Option Nat) (traces : List ObservedTrace)
    (kept : List (List String × Nat)) : List (FlowSuggestion R) :=
  (kept.filterMap (suggestion hashing ratio minLength maxLength traces)).insertionSort FlowSuggestion.Before

variable {kept : List (List String × Nat)} {minOccurrences : Nat} {hashing ratio}

theorem mem_proposals {proposal : FlowSuggestion R} : proposal ∈ proposals hashing ratio minLength maxLength traces kept ↔
    ∃ entry ∈ kept, suggestion hashing ratio minLength maxLength traces entry = some proposal := by
  rw [List.mem_insertionSort, List.mem_filterMap]

/-- The proposals for counted patterns are for all of them, one for each. -/
theorem proposals_tools (hkept : ∀ entry ∈ kept, entry.1 ∈ allPatterns minLength maxLength traces) :
    ((proposals hashing ratio minLength maxLength traces kept).map (·.tools)).Perm (kept.map Prod.fst) := by
  refine ((List.perm_insertionSort _ _).map _).trans (.of_eq ?_)
  induction kept with
  | nil => rfl
  | cons entry rest ih =>
    obtain ⟨hentry, hrest⟩ := List.forall_mem_cons.1 hkept
    obtain ⟨proposal, hsome, htools, -⟩ := suggestion_isSome hashing ratio hentry
    rw [List.filterMap_cons_some hsome, List.map_cons, List.map_cons, htools, ih hrest]

theorem qualifying_counted {entry : List String × Nat}
    (h : entry ∈ qualifying minOccurrences minLength maxLength traces) :
    entry.1 ∈ allPatterns minLength maxLength traces :=
  (mem_counter.1 (List.mem_filter.1 h).1).1

theorem qualifying_nodup : ((qualifying minOccurrences minLength maxLength traces).map Prod.fst).Nodup :=
  (counter_nodup _).sublist (List.filter_sublist.map _)

/-- What the two modes report: `off` without and `on` with `collapse_subsumed`. -/
structure Mined (minOccurrences minLength : Nat) (maxLength : Option Nat) (traces : List ObservedTrace)
    (off on : List (FlowSuggestion R)) : Prop where
  once : (off.map (·.tools)).Nodup
  complete : ∀ pattern, (∃ proposal ∈ off, proposal.tools = pattern) ↔
    Allowed minLength maxLength pattern ∧ minOccurrences ≤ frequency pattern traces
  counts : ∀ proposal ∈ off, proposal.occurrences = frequency proposal.tools traces ∧
    proposal.tracesWithPattern = holding proposal.tools traces
  onceCollapsed : (on.map (·.tools)).Nodup
  collapsed : ∀ proposal ∈ on, proposal ∈ off
  lossless : ∀ proposal ∈ off, proposal ∉ on → ∃ other ∈ on, proposal.tools <:+: other.tools ∧
    other.occurrences = proposal.occurrences ∧ ∀ trace ∈ traces, ∀ start ∈ occurrences proposal.tools trace.toolNames,
      ∃ place ∈ occurrences other.tools trace.toolNames,
        place ≤ start ∧ start + proposal.tools.length ≤ place + other.tools.length

theorem report_mined (hpos : 0 < minLength) (hoccurs : 0 < minOccurrences) :
    Mined minOccurrences minLength maxLength traces
      (report hashing ratio minOccurrences minLength maxLength false traces)
      (report hashing ratio minOccurrences minLength maxLength true traces) := by
  change Mined _ _ _ _
    (proposals hashing ratio minLength maxLength traces (qualifying minOccurrences minLength maxLength traces))
    (proposals hashing ratio minLength maxLength traces
      (collapseSubsumed (qualifying minOccurrences minLength maxLength traces)))
  have hcounted : ∀ entry ∈ qualifying minOccurrences minLength maxLength traces,
      entry.1 ∈ allPatterns minLength maxLength traces := fun entry => qualifying_counted
  have hcollapsed : ∀ entry ∈ collapseSubsumed (qualifying minOccurrences minLength maxLength traces),
      entry.1 ∈ allPatterns minLength maxLength traces := fun entry hmem => hcounted entry (mem_of_collapsed hmem)
  constructor
  · exact (proposals_tools hcounted).nodup_iff.2 qualifying_nodup
  · intro pattern
    constructor
    · rintro ⟨proposal, hproposal, rfl⟩
      obtain ⟨⟨outer, count⟩, hmem, hsome⟩ := mem_proposals.1 hproposal
      obtain ⟨other, hother, htools, -⟩ := suggestion_isSome hashing ratio (hcounted _ hmem)
      obtain rfl := Option.some.inj (hsome.symm.trans hother)
      obtain ⟨hallowed, hmin, rfl⟩ := (mem_qualifying hpos hoccurs).1 hmem
      rw [htools]
      exact ⟨hallowed, hmin⟩
    · rintro ⟨hallowed, hmin⟩
      have hmem := (mem_qualifying hpos hoccurs).2 ⟨hallowed, hmin, rfl⟩
      obtain ⟨proposal, hsome, htools, -⟩ := suggestion_isSome hashing ratio (hcounted _ hmem)
      exact ⟨proposal, mem_proposals.2 ⟨_, hmem, hsome⟩, htools⟩
  · intro proposal hproposal
    obtain ⟨⟨pattern, count⟩, hmem, hsome⟩ := mem_proposals.1 hproposal
    obtain ⟨other, hother, htools, hcount, hwith⟩ := suggestion_isSome hashing ratio (hcounted _ hmem)
    obtain rfl := Option.some.inj (hsome.symm.trans hother)
    obtain ⟨hallowed, -, rfl⟩ := (mem_qualifying hpos hoccurs).1 hmem
    rw [htools, hcount, hwith]
    exact ⟨rfl, tracesWith_patterns hpos hallowed⟩
  · have hsublist : (collapseSubsumed (qualifying minOccurrences minLength maxLength traces)).Sublist
        (qualifying minOccurrences minLength maxLength traces) := List.filter_sublist
    exact (proposals_tools hcollapsed).nodup_iff.2 (qualifying_nodup.sublist (hsublist.map _))
  · intro proposal hproposal
    obtain ⟨entry, hmem, hsome⟩ := mem_proposals.1 hproposal
    exact mem_proposals.2 ⟨entry, mem_of_collapsed hmem, hsome⟩
  · intro proposal hproposal _
    obtain ⟨⟨pattern, count⟩, hmem, hsome⟩ := mem_proposals.1 hproposal
    obtain ⟨first, hfirst, htools, hcount, -⟩ := suggestion_isSome hashing ratio (hcounted _ hmem)
    obtain rfl := Option.some.inj (hsome.symm.trans hfirst)
    obtain ⟨⟨outer, outerCount⟩, hkept, hcovers⟩ := collapse_covered (fun _ hentry => item_le_total (f := (·.1.length)) hentry) hmem
    obtain ⟨other, hother, htools', hcount', -⟩ := suggestion_isSome hashing ratio (hcollapsed _ hkept)
    obtain ⟨hallowed, -, rfl⟩ := (mem_qualifying hpos hoccurs).1 hmem
    obtain ⟨-, -, rfl⟩ := (mem_qualifying hpos hoccurs).1 (mem_of_collapsed hkept)
    obtain ⟨offset, hinside⟩ := hcovers.inside
    have hne : pattern ≠ [] := List.length_pos_iff.1 (Nat.lt_of_lt_of_le hpos hallowed.1)
    refine ⟨other, mem_proposals.2 ⟨_, hkept, hother⟩, ?_, ?_, fun trace htrace start hstart => ?_⟩
    · rw [htools, htools']
      exact hinside.isInfix
    · rw [hcount, hcount']
      exact hcovers.count
    · rw [htools] at hstart
      rw [htools, htools']
      exact covered_places hinside hne hcovers.count htrace hstart

/-- `suggest_flows` refuses bounds that make no sense, and else reports the patterns with
exact counts, collapsed without a loss. -/
theorem suggestFlows_mined (hashing : Hashing) (ratio : Nat → Nat → R) (observer : ChainObserver)
    (minOccurrences minLength : Int) (maxLength : Option Int) :
    ((minOccurrences < 1 ∨ minLength < 1 ∨ ∃ cap, maxLength = some cap ∧ cap < minLength) ∧ ∀ collapse, ∃ message,
      observer.suggestFlows hashing ratio minOccurrences minLength maxLength collapse = .error message) ∨
    ∃ off on, observer.suggestFlows hashing ratio minOccurrences minLength maxLength false = .ok off ∧
      observer.suggestFlows hashing ratio minOccurrences minLength maxLength true = .ok on ∧
      Mined minOccurrences.toNat minLength.toNat (maxLength.map Int.toNat) observer.completed off on := by
  unfold ChainObserver.suggestFlows
  by_cases hoccurs : minOccurrences < 1
  · simp [hoccurs]
  by_cases hlength : minLength < 1
  · simp only [if_neg hoccurs, if_pos hlength]
    exact .inl ⟨.inr (.inl hlength), fun collapse => ⟨_, rfl⟩⟩
  simp only [if_neg hoccurs, if_neg hlength]
  have hmined : ∀ maxLength, Mined minOccurrences.toNat minLength.toNat maxLength observer.completed
      (report hashing ratio minOccurrences.toNat minLength.toNat maxLength false observer.completed)
      (report hashing ratio minOccurrences.toNat minLength.toNat maxLength true observer.completed) :=
    fun maxLength => report_mined (by omega) (by omega)
  cases maxLength with
  | none => exact .inr ⟨_, _, rfl, rfl, hmined none⟩
  | some cap =>
    by_cases hcap : cap < minLength
    · exact .inl ⟨.inr (.inr ⟨cap, rfl, hcap⟩), fun collapse => ⟨_, if_pos hcap⟩⟩
    · simp only [if_neg hcap]
      exact .inr ⟨_, _, rfl, rfl, hmined (some cap.toNat)⟩

end

end ChainWeaver.Observer
