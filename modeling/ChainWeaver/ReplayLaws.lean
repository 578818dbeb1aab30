import ChainWeaver.Replay
import ChainWeaver.StepTraces
import Mathlib.Data.List.Perm.Subperm
import Mathlib.Tactic.Lift

/-!
# What a verifying replay sees

`_compute_diffs` compares the outputs that stand at the same place, key by key, with
`None` for a key that is missing and no keys for an output that is absent. The end
of the shorter log and the success flags are not looked at.
-/

namespace ChainWeaver.Executor

open Interaction (Comp)
open Value (equals agrees)

-- One pair of records

/-- The value of a key as the comparison reads it. -/
def shownValue (record : StepRecord) (field : String) : Value :=
  ((record.outputs.getD .empty).get? field).getD .null

/-- The comparison sees the key differ. -/
def Shows (pair : StepRecord × StepRecord) (field : String) : Prop :=
  (shownValue pair.1 field).equals (shownValue pair.2 field) = false

/-- What `_compute_diffs` reports of a new record and the recorded one. -/
def diffPair (pair : StepRecord × StepRecord) : List StepDiff :=
  let newOut := pair.1.outputs.getD .empty
  let origOut := pair.2.outputs.getD .empty
  if (Value.dict newOut.entries).equals (.dict origOut.entries) then [] else diffOutputs pair.1 newOut origOut

/-- Outputs as Python compares them, an absent one apart from an empty one. -/
def SameOutputs : Option Dict → Option Dict → Prop
  | some a, some b => (Value.dict a.entries).equals (.dict b.entries) = true
  | none, none => True
  | _, _ => False

/-- A value as Python compares it, a missing one apart from `None`. -/
def SameValue : Option Value → Option Value → Prop
  | some a, some b => a.equals b = true
  | none, none => True
  | _, _ => False

/-- The outputs of the two records differ at the key. -/
def DiffersAt (pair : StepRecord × StepRecord) (field : String) : Prop :=
  ¬ SameValue (pair.1.outputs.bind (·.get? field)) (pair.2.outputs.bind (·.get? field))

theorem getD_equals : {actual expected : Option Value} → SameValue actual expected →
    (actual.getD .null).equals (expected.getD .null) = true
  | some _, some _, hsame => hsame
  | none, none, _ => by simp [equals]

theorem not_shows_of_same {pair : StepRecord × StepRecord} {field : String}
    (hsame : SameValue ((pair.1.outputs.getD .empty).get? field) ((pair.2.outputs.getD .empty).get? field)) :
    ¬ Shows pair field := by
  intro hshows
  have hequals := getD_equals hsame
  rw [Shows, shownValue, shownValue, hequals] at hshows
  cases hshows

theorem Shows.differsAt {pair : StepRecord × StepRecord} {field : String} (h : Shows pair field) :
    DiffersAt pair field := by
  intro hsame
  have hread : ∀ record : StepRecord, shownValue record field = (record.outputs.bind (·.get? field)).getD .null := by
    intro record
    unfold shownValue
    cases record.outputs <;> rfl
  rw [Shows, hread, hread, getD_equals hsame] at h
  cases h

theorem agrees_iff_lookup {xs ys : List (String × Value)} :
    agrees xs ys = true ↔ ∀ entry ∈ xs, ∃ y, ys.lookup entry.1 = some y ∧ entry.2.equals y = true := by
  induction xs with
  | nil => simp [agrees]
  | cons entry rest ih =>
    obtain ⟨key, x⟩ := entry
    rw [agrees, Bool.and_eq_true, ih, List.forall_mem_cons]
    cases ys.lookup key <;> simp

/-- Equal dicts have the same keys, and equal values there. -/
theorem equals_dict {a b : Dict} (h : (Value.dict a.entries).equals (.dict b.entries) = true) (field : String) :
    SameValue (a.get? field) (b.get? field) := by
  rw [equals, Bool.and_eq_true, decide_eq_true_eq, agrees_iff_lookup] at h
  obtain ⟨hlength, hagrees⟩ := h
  cases ha : a.get? field with
  | some x =>
    obtain ⟨y, hy, heq⟩ := hagrees (field, x) (OrderedDict.get?_eq_some_iff.1 ha)
    have hb : b.get? field = some y := hy
    rw [hb]
    exact heq
  | none =>
    cases hb : b.get? field with
    | none => trivial
    | some y =>
      exfalso
      have hsub : a.keys ⊆ b.keys := by
        intro key hkey
        obtain ⟨⟨name, x⟩, hentry, rfl⟩ := List.mem_map.1 hkey
        obtain ⟨y, hy, _⟩ := hagrees _ hentry
        exact List.mem_map.2 ⟨(name, y), OrderedDict.get?_eq_some_iff.1 hy, rfl⟩
      have hperm : a.keys.Perm b.keys :=
        (List.subperm_of_subset a.nodup hsub).perm_of_length_le (by simp [OrderedDict.keys, hlength])
      have hkey : field ∈ b.keys := List.mem_map.2 ⟨(field, y), OrderedDict.get?_eq_some_iff.1 hb, rfl⟩
      obtain ⟨⟨name, x⟩, hentry, rfl⟩ := List.mem_map.1 (hperm.mem_iff.2 hkey)
      rw [OrderedDict.get?_eq_some_iff.2 hentry] at ha
      cases ha

theorem mem_diffOutputs {record : StepRecord} {newOut origOut : Dict} {diff : StepDiff} :
    diff ∈ diffOutputs record newOut origOut ↔
      (newOut.contains diff.field = true ∨ origOut.contains diff.field = true) ∧
        ((newOut.get? diff.field).getD .null).equals ((origOut.get? diff.field).getD .null) = false ∧
        diff = ⟨record.stepIndex, record.toolName, diff.field, (origOut.get? diff.field).getD .null,
          (newOut.get? diff.field).getD .null⟩ := by
  have hkeys : ∀ d : Dict, ∀ key, key ∈ d.keys ↔ d.contains key = true := fun d key => by
    simp [OrderedDict.contains]
  simp only [diffOutputs, List.mem_filterMap, List.mem_append, List.mem_filter, hkeys]
  constructor
  · rintro ⟨field, hfield, hdiff⟩
    split at hdiff
    · cases hdiff
    · next hequals =>
      cases hdiff
      exact ⟨hfield.imp_right And.left, by simpa using hequals, rfl⟩
  · rintro ⟨hfield, hequals, hdiff⟩
    refine ⟨diff.field, ?_, ?_⟩
    · cases hnew : newOut.contains diff.field with
      | true => exact .inl rfl
      | false => exact .inr ⟨hfield.resolve_left (by simp [hnew]), rfl⟩
    · rw [if_neg (by simp [hequals])]
      exact congrArg some hdiff.symm

theorem mem_diffPair {pair : StepRecord × StepRecord} {diff : StepDiff} : diff ∈ diffPair pair ↔
    Shows pair diff.field ∧ diff = ⟨pair.1.stepIndex, pair.1.toolName, diff.field, shownValue pair.2 diff.field,
      shownValue pair.1 diff.field⟩ := by
  have hpresent : Shows pair diff.field → (pair.1.outputs.getD .empty).contains diff.field = true ∨
      (pair.2.outputs.getD .empty).contains diff.field = true := by
    intro hshows
    by_contra habsent
    simp only [not_or, OrderedDict.contains_iff, not_exists] at habsent
    have hnone := fun record : StepRecord => @Option.eq_none_iff_forall_ne_some _
      ((record.outputs.getD .empty).get? diff.field)
    rw [Shows, shownValue, shownValue, (hnone pair.1).2 fun x => habsent.1 x,
      (hnone pair.2).2 fun x => habsent.2 x] at hshows
    simp [equals] at hshows
  unfold diffPair
  dsimp only
  split
  · next hequals =>
    refine iff_of_false (by simp) ?_
    rintro ⟨hshows, -⟩
    have hsame := equals_dict hequals diff.field
    exact not_shows_of_same hsame hshows
  · rw [mem_diffOutputs]
    exact ⟨fun h => h.2, fun h => ⟨hpresent h.1, h⟩⟩

theorem diffPair_eq_nil {pair : StepRecord × StepRecord} : diffPair pair = [] ↔ ∀ field, ¬ Shows pair field := by
  rw [List.eq_nil_iff_forall_not_mem]
  constructor
  · intro h field hshows
    exact h ⟨pair.1.stepIndex, pair.1.toolName, field, shownValue pair.2 field, shownValue pair.1 field⟩
      (mem_diffPair.2 ⟨hshows, rfl⟩)
  · intro h diff hdiff
    exact h diff.field (mem_diffPair.1 hdiff).1

-- The pairs

/-- The records that the comparison pairs, from the new record with index `newIndex`
on; `none` where a negative index runs out of the original log. -/
def compared (original : List StepRecord) (resumeFromStep : Int) :
    List StepRecord → Nat → Option (List (StepRecord × StepRecord))
  | [], _ => some []
  | record :: rest, newIndex =>
    if (original.length : Int) ≤ newIndex + resumeFromStep then some []
    else (pyGet? original (newIndex + resumeFromStep)).bind fun recorded =>
      (compared original resumeFromStep rest (newIndex + 1)).map ((record, recorded) :: ·)

theorem diffRecords_compared (original : List StepRecord) (resumeFromStep : Int) (records : List StepRecord) (newIndex : Nat) :
    (diffRecords original resumeFromStep records newIndex).toOption =
      (compared original resumeFromStep records newIndex).map (·.flatMap diffPair) := by
  induction records generalizing newIndex with
  | nil => rfl
  | cons record rest ih =>
    rw [diffRecords, compared]
    dsimp only
    split
    · rfl
    · cases pyGet? original (newIndex + resumeFromStep) with
      | none => rfl
      | some recorded =>
        have hrest := ih (newIndex + 1)
        cases hdiffs : diffRecords original resumeFromStep rest (newIndex + 1) with
        | error e =>
          rw [hdiffs] at hrest
          have hnone : compared original resumeFromStep rest (newIndex + 1) = none := Option.map_eq_none_iff.1 hrest.symm
          rw [Option.bind_some, hnone]
          rfl
        | ok diffs =>
          rw [hdiffs] at hrest
          obtain ⟨pairs, hpairs, rfl⟩ := Option.map_eq_some_iff.1 hrest.symm
          rw [Option.bind_some, hpairs, Option.map_some, Option.map_some, List.flatMap_cons, diffPair]
          simp only [bind, Except.bind]
          split <;> rfl

/-- For an offset that is no negative number the records stand at the same place
behind it. -/
theorem compared_zip (original : List StepRecord) (resumeFromStep : Nat) (records : List StepRecord) (newIndex : Nat) :
    compared original resumeFromStep records newIndex =
      some (records.zip (original.drop (newIndex + resumeFromStep))) := by
  induction records generalizing newIndex with
  | nil => rfl
  | cons record rest ih =>
    rw [compared]
    by_cases hend : original.length ≤ newIndex + resumeFromStep
    · rw [if_pos (by omega), List.drop_eq_nil_of_le hend]
      rfl
    · have hlt : newIndex + resumeFromStep < original.length := by omega
      have hget : pyGet? original (newIndex + resumeFromStep) = some original[newIndex + resumeFromStep] := by
        rw [pyGet?, if_pos (by omega)]
        exact List.getElem?_eq_getElem hlt
      rw [if_neg (by omega), hget, Option.bind_some, ih, List.drop_eq_getElem_cons hlt, List.zip_cons_cons,
        Nat.add_right_comm newIndex 1 resumeFromStep]
      rfl

/-- A negative offset counts from the end of the original log, which is then paired
from its start again. -/
theorem compared_wrap {original : List StepRecord} {back : Nat} (hback : 0 < back) (hle : back ≤ original.length)
    (records : List StepRecord) (newIndex : Nat) (hindex : newIndex ≤ back) :
    compared original (-back) records newIndex =
      some (records.zip (original.drop (original.length - back + newIndex) ++ original)) := by
  induction records generalizing newIndex with
  | nil => rfl
  | cons record rest ih =>
    by_cases hend : newIndex = back
    · subst hend
      have hzip : ∀ later index, compared original (-newIndex) later (newIndex + index) =
          compared original (0 : Nat) later index := by
        intro later
        induction later with
        | nil => intro index; rfl
        | cons next later ihlater =>
          intro index
          have hshift : ((newIndex + index : Nat) : Int) + -newIndex = index + (0 : Nat) := by omega
          rw [compared, compared, hshift, Nat.add_assoc newIndex index 1, ihlater (index + 1)]
      have hfrom := hzip (record :: rest) 0
      rw [Nat.add_zero] at hfrom
      have hdrop : original.drop (original.length - newIndex + newIndex) = [] := List.drop_eq_nil_of_le (by omega)
      rw [hfrom, compared_zip, hdrop, List.nil_append]
      rfl
    · have hlt : original.length - back + newIndex < original.length := by omega
      have hget : pyGet? original (newIndex + -back) = some original[original.length - back + newIndex] := by
        rw [pyGet?, if_neg (by omega), if_pos (by omega), List.getElem?_eq_some_iff]
        exact ⟨by omega, by congr 1; omega⟩
      rw [compared, if_neg (by omega), hget, Option.bind_some, ih (newIndex + 1) (by omega),
        List.drop_eq_getElem_cons hlt, List.cons_append, List.zip_cons_cons, Nat.add_assoc _ newIndex 1]
      rfl

/-- Before the start of the original log there is no record to compare with. -/
theorem compared_none {original : List StepRecord} {back : Nat} (hlt : original.length < back) (record : StepRecord)
    (rest : List StepRecord) : compared original (-back) (record :: rest) 0 = none := by
  rw [compared, if_neg (by omega), pyGet?, if_neg (by omega), if_neg (by omega)]
  rfl

-- Exactness

/-- The same number of records, with equal success flags and equal outputs. -/
def SameRecords (new old : List StepRecord) : Prop :=
  List.Forall₂ (fun record recorded => record.success = recorded.success ∧ SameOutputs record.outputs recorded.outputs) new old

/-- The difference is one of two records that stand at the same place. -/
def Names (new old : List StepRecord) (diff : StepDiff) : Prop :=
  ∃ pair ∈ new.zip old, pair.1.stepIndex = diff.stepIndex ∧ pair.1.toolName = diff.toolName ∧ DiffersAt pair diff.field

/-- The comparison of two results finds no difference exactly if the new log is the
rest of the original one, and reports real differences only. -/
def ExactDiffs (original new : ExecutionResult) (resumeFromStep : Int) : Prop :=
  ∃ diffs, computeDiffs original new resumeFromStep = .ok diffs ∧
    (diffs.isEmpty = true ↔ SameRecords new.executionLog (original.executionLog.drop resumeFromStep.toNat)) ∧
    ∀ diff ∈ diffs, Names new.executionLog (original.executionLog.drop resumeFromStep.toNat) diff

/-- The comparison sees a difference in one of the pairs. -/
def Visible (pairs : List (StepRecord × StepRecord)) : Prop :=
  ∃ pair ∈ pairs, ∃ field, Shows pair field

theorem flatMap_diffPair_isEmpty {pairs : List (StepRecord × StepRecord)} :
    (pairs.flatMap diffPair).isEmpty = true ↔ ¬ Visible pairs := by
  rw [List.isEmpty_iff, List.flatMap_eq_nil_iff]
  simp only [diffPair_eq_nil, Visible]
  push Not
  rfl

theorem not_visible_zip {new old : List StepRecord} (h : SameRecords new old) : ¬ Visible (new.zip old) := by
  rintro ⟨pair, hpair, field, hshows⟩
  refine hshows.differsAt ?_
  have houtputs : SameOutputs pair.1.outputs pair.2.outputs := by
    induction h with
    | nil => cases hpair
    | cons hhead _ ih =>
      rcases List.mem_cons.1 hpair with rfl | hpair
      · exact hhead.2
      · exact ih hpair
  revert houtputs
  cases pair.1.outputs <;> cases pair.2.outputs
  case some.some a b => exact fun houtputs => equals_dict houtputs field
  all_goals simp [SameOutputs, SameValue]

theorem computeDiffs_eq_ok {original new : ExecutionResult} {resumeFromStep : Int} {diffs : List StepDiff} :
    computeDiffs original new resumeFromStep = .ok diffs ↔
      ∃ pairs, compared original.executionLog resumeFromStep new.executionLog 0 = some pairs ∧
        pairs.flatMap diffPair = diffs := by
  rw [← Option.map_eq_some_iff, ← diffRecords_compared, computeDiffs]
  cases diffRecords original.executionLog resumeFromStep new.executionLog 0 <;> simp [Except.toOption]

theorem exactDiffs_of_compared {original new : ExecutionResult} {resumeFromStep : Int}
    {pairs : List (StepRecord × StepRecord)}
    (hpairs : compared original.executionLog resumeFromStep new.executionLog 0 = some pairs) :
    ExactDiffs original new resumeFromStep ↔
      (Visible pairs ↔ ¬ SameRecords new.executionLog (original.executionLog.drop resumeFromStep.toNat)) ∧
        ∀ pair ∈ pairs, ∀ field, Shows pair field →
          ∃ aligned ∈ new.executionLog.zip (original.executionLog.drop resumeFromStep.toNat),
            aligned.1.stepIndex = pair.1.stepIndex ∧ aligned.1.toolName = pair.1.toolName ∧ DiffersAt aligned field := by
  have hdiffs : ∀ diffs, computeDiffs original new resumeFromStep = .ok diffs ↔ pairs.flatMap diffPair = diffs := by
    intro diffs
    rw [computeDiffs_eq_ok, hpairs]
    simp
  simp only [ExactDiffs, hdiffs, exists_eq_left', flatMap_diffPair_isEmpty]
  refine and_congr (by tauto) ?_
  constructor
  · intro hnames pair hpair field hshows
    have hdiff : ⟨pair.1.stepIndex, pair.1.toolName, field, shownValue pair.2 field, shownValue pair.1 field⟩ ∈
        diffPair pair := mem_diffPair.2 ⟨hshows, rfl⟩
    exact hnames _ (List.mem_flatMap.2 ⟨pair, hpair, hdiff⟩)
  · intro hnamed diff hdiff
    obtain ⟨pair, hpair, hdiff⟩ := List.mem_flatMap.1 hdiff
    obtain ⟨hshows, heq⟩ := mem_diffPair.1 hdiff
    obtain ⟨aligned, haligned, hindex, htool, hdiffers⟩ := hnamed pair hpair diff.field hshows
    refine ⟨aligned, haligned, ?_, ?_, hdiffers⟩
    · rw [hindex, heq]
    · rw [htool, heq]

/-- A negative offset shifts the pairs: what they show has to tell of the records at
the same place all the same. -/
def ShiftedExact (original new : List StepRecord) (resumeFromStep : Int) : Prop :=
  let pairs := new.zip (original.drop (original.length + resumeFromStep).toNat ++ original)
  0 ≤ original.length + resumeFromStep ∧ (Visible pairs ↔ ¬ SameRecords new original) ∧
    ∀ pair ∈ pairs, ∀ field, Shows pair field → ∃ aligned ∈ new.zip original,
      aligned.1.stepIndex = pair.1.stepIndex ∧ aligned.1.toolName = pair.1.toolName ∧ DiffersAt aligned field

theorem exactDiffs_natural (original new : ExecutionResult) (resumeFromStep : Nat) :
    ExactDiffs original new resumeFromStep ↔
      SameRecords new.executionLog (original.executionLog.drop resumeFromStep) ∨
        Visible (new.executionLog.zip (original.executionLog.drop resumeFromStep)) := by
  have hpairs := compared_zip original.executionLog resumeFromStep new.executionLog 0
  rw [Nat.zero_add] at hpairs
  rw [exactDiffs_of_compared hpairs, Int.toNat_natCast]
  constructor
  · rintro ⟨hvisible, -⟩
    by_cases hsame : SameRecords new.executionLog (original.executionLog.drop resumeFromStep)
    · exact .inl hsame
    · exact .inr (hvisible.2 hsame)
  · intro hcase
    refine ⟨⟨fun hvisible hsame => not_visible_zip hsame hvisible, hcase.resolve_left⟩, ?_⟩
    intro pair hpair field hshows
    exact ⟨pair, hpair, rfl, rfl, hshows.differsAt⟩

theorem exactDiffs_negative (original new : ExecutionResult) {back : Nat} (hback : 0 < back) :
    ExactDiffs original new (-back) ↔
      (new.executionLog = [] ∧ original.executionLog = []) ∨
        ShiftedExact original.executionLog new.executionLog (-back) := by
  have hstart : (-(back : Int)).toNat = 0 := by omega
  by_cases hle : back ≤ original.executionLog.length
  · have hpairs := compared_wrap hback hle new.executionLog 0 (Nat.zero_le _)
    have hshift : ((original.executionLog.length : Int) + -back).toNat = original.executionLog.length - back := by omega
    have hnonempty : original.executionLog ≠ [] := List.ne_nil_of_length_pos (by omega)
    rw [Nat.add_zero] at hpairs
    rw [exactDiffs_of_compared hpairs, hstart, List.drop_zero, ShiftedExact, hshift]
    simp only [hnonempty, and_false, false_or, iff_and_self]
    exact fun _ => by omega
  · have hshifted : ¬ ShiftedExact original.executionLog new.executionLog (-back) := fun h => by
      have := h.1
      omega
    rw [or_iff_left hshifted]
    cases hnew : new.executionLog with
    | nil =>
      have hpairs : compared original.executionLog (-back) new.executionLog 0 = some [] := by
        rw [hnew]
        rfl
      rw [exactDiffs_of_compared hpairs, hstart, List.drop_zero, hnew]
      simp [Visible, SameRecords]
    | cons record rest =>
      have hnone : compared original.executionLog (-back) new.executionLog 0 = none := by
        rw [hnew]
        exact compared_none (by omega) record rest
      simp [ExactDiffs, computeDiffs_eq_ok, hnone]

/-- The comparison is exact if the new log repeats the rest of the original one, or
differs from it in a value that both logs have a place for. -/
theorem exactDiffs_iff (original new : ExecutionResult) (resumeFromStep : Int) :
    ExactDiffs original new resumeFromStep ↔
      if 0 ≤ resumeFromStep then
        SameRecords new.executionLog (original.executionLog.drop resumeFromStep.toNat) ∨
          Visible (new.executionLog.zip (original.executionLog.drop resumeFromStep.toNat))
      else
        (new.executionLog = [] ∧ original.executionLog = []) ∨
          ShiftedExact original.executionLog new.executionLog resumeFromStep := by
  split
  · next hnatural =>
    lift resumeFromStep to Nat using hnatural
    exact exactDiffs_natural original new resumeFromStep
  · next hnegative =>
    have hback : resumeFromStep = -((-resumeFromStep).toNat : Int) := by omega
    rw [hback]
    exact exactDiffs_negative original new (by omega)

/-- A run whose only step answered with `None`. -/
def answeredRun : ExecutionResult :=
  { flowName := "f", flowVersion := "1.0.0", success := true, finalOutput := some .empty, traceId := "a",
    executionLog := [
      { stepIndex := 0, toolName := "lookup", inputs := .empty,
        outputs := some (OrderedDict.empty.insert "value" .null) }] }

/-- Its replay, in which the step fails. -/
def failedRun : ExecutionResult :=
  { flowName := "f", flowVersion := "1.0.0", success := false, finalOutput := none, traceId := "b",
    executionLog := [
      { stepIndex := 0, toolName := "lookup", inputs := .empty, outputs := none, success := false,
        errorType := some "ValueError", errorMessage := some "boom" }] }

/-- No difference is reported of the failure. -/
theorem failure_unseen : ¬ ExactDiffs answeredRun failedRun 0 := by
  have hnone : (computeDiffs answeredRun failedRun 0).toOption.any (·.isEmpty) = true := by decide +kernel
  rintro ⟨diffs, hdiffs, hexact, -⟩
  rw [hdiffs] at hnone
  obtain ⟨hsuccess, -⟩ := (List.forall₂_cons.1 (hexact.1 hnone)).1
  cases hsuccess

end ChainWeaver.Executor
