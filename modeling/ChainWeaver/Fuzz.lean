import ChainWeaver.Data.Shrinking
import ChainWeaver.Sample
import ChainWeaver.Success
import Mathlib.Data.List.Sort
import Mathlib.Data.String.Basic

/-!
# Minimising a failure

`minimize_failure` (`fuzz.py`): delta debugging of an input that violates a property.
-/

namespace ChainWeaver

open Interaction (Prog)
open Shrinking (Phase)

structure FlowProperty where
  name : String
  check : ExecutionResult → Except Exc Bool

namespace FlowProperty

def holds (prop : FlowProperty) (result : ExecutionResult) : Except Exc Bool := prop.check result

end FlowProperty

/-- A flow that can be run again: what `execute_flow` gives for an input depends on the
input alone, and the result keeps that input. -/
structure Replay where
  execute : Dict → Except Exc ExecutionResult
  initialInput : ∀ {input result}, execute input = .ok result → result.initialInput = input

/-- Candidate simpler replacements for a value, in order of preference. -/
def simplerValues : Value → List Value
  | .bool b => if b then [.bool false] else []
  | .int i => if i = 0 then [] else [.int 0]
  | .float f => if f = .finite 0 then [] else [.float (.finite 0)]
  | .str s => if s = "" then [] else [.str ""]
  | .list items => if items.isEmpty then [] else [.list []]
  | .dict entries => if entries.isEmpty then [] else [.dict []]
  | _ => []

namespace Replay

def violates (replay : Replay) (prop : FlowProperty) (candidate : Dict) : Except Exc Bool := do
  let result ← replay.execute candidate
  match prop.holds result with
  | .ok holds => pure (!holds)
  | .error _ => pure true

end Replay

def sortedNames (input : Dict) : List String := input.keys.insertionSort (· ≤ ·)

theorem mem_sortedNames {input : Dict} : key ∈ sortedNames input ↔ input.contains key = true := by
  simp [sortedNames, OrderedDict.contains]

theorem nodup_sortedNames (input : Dict) : (sortedNames input).Nodup :=
  (List.perm_insertionSort _ _).nodup_iff.2 input.nodup

/-- Try removing each key. -/
def removal : Phase Dict String where
  keys := sortedNames
  candidates key current := [current.erase key]
  nodup := nodup_sortedNames
  keeps h hne hother := by
    obtain rfl := List.mem_singleton.1 h
    obtain ⟨value, hvalue⟩ := OrderedDict.contains_iff.1 (mem_sortedNames.1 hother)
    exact mem_sortedNames.2 (OrderedDict.contains_iff.2 ⟨value, by rw [OrderedDict.get?_erase, if_neg hne, hvalue]⟩)

/-- Try simplifying each remaining value. -/
def simplification : Phase Dict String where
  keys := sortedNames
  candidates key current :=
    match current.get? key with
    | some value => (simplerValues value).map (current.insert key ·)
    | none => []
  nodup := nodup_sortedNames
  keeps h hne hother := by
    split at h
    · obtain ⟨simpler, _, rfl⟩ := List.mem_map.1 h
      rw [mem_sortedNames] at hother ⊢
      simp [hother]
    · cases h

def minimizeFailure (replay : Replay) (failingInput : Dict) (prop : FlowProperty) (maxRounds : Int := 50) :
    Except Exc Dict := do
  if ← replay.violates prop failingInput then
    Shrinking.rounds (replay.violates prop) [removal, simplification] maxRounds.toNat failingInput
  else
    throw (.other "FuzzConfigError"
      s!"failing_input does not violate property '{prop.name}'; nothing to minimize")

-- Reductions

/-- A simpler value is as simple as can be. -/
theorem simplerValues_simpler (h : simpler ∈ simplerValues value) :
    simplerValues simpler = [] ∧ simplerValues value = [simpler] := by
  cases value with
  | bool b => cases b <;> simp_all [simplerValues]
  | int i => by_cases hi : i = 0 <;> simp_all [simplerValues]
  | float f => by_cases hf : f = .finite 0 <;> simp_all [simplerValues]
  | str s => by_cases hs : s = "" <;> simp_all [simplerValues]
  | list items => cases items <;> simp_all [simplerValues]
  | dict entries => cases entries <;> simp_all [simplerValues]
  | null | tuple | set | obj => cases h

/-- What removing keys and simplifying values can make of an input. -/
structure Reduces (large small : Dict) : Prop where
  keys : small.keys.Sublist large.keys
  values : ∀ key value, small.get? key = some value →
    ∃ whole, large.get? key = some whole ∧ (value = whole ∨ value ∈ simplerValues whole)

namespace Reduces

theorem refl (input : Dict) : Reduces input input := ⟨.refl _, fun _ value h => ⟨value, h, .inl rfl⟩⟩

theorem trans (h : Reduces large mid) (h' : Reduces mid small) : Reduces large small := by
  refine ⟨h'.keys.trans h.keys, fun key value hvalue => ?_⟩
  obtain ⟨between, hbetween, hsmall⟩ := h'.values key value hvalue
  obtain ⟨whole, hwhole, hmid⟩ := h.values key between hbetween
  refine ⟨whole, hwhole, ?_⟩
  rcases hsmall with rfl | hsimpler
  · exact hmid
  rcases hmid with rfl | hmid
  · exact .inr hsimpler
  · rw [(simplerValues_simpler hmid).1] at hsimpler
    cases hsimpler

theorem contains (h : Reduces large small) (hkey : small.contains key = true) : large.contains key = true := by
  obtain ⟨value, hvalue⟩ := OrderedDict.contains_iff.1 hkey
  obtain ⟨whole, hwhole, _⟩ := h.values key value hvalue
  exact OrderedDict.contains_iff.2 ⟨whole, hwhole⟩

theorem erase (input : Dict) (key : String) : Reduces input (input.erase key) := by
  refine ⟨by simp, fun name value h => ⟨value, ?_, .inl rfl⟩⟩
  rw [OrderedDict.get?_erase] at h
  split at h
  · cases h
  · exact h

theorem insert {input : Dict} (hvalue : input.get? key = some value) (hsimpler : simpler ∈ simplerValues value) :
    Reduces input (input.insert key simpler) := by
  have hkey : input.contains key = true := OrderedDict.contains_iff.2 ⟨value, hvalue⟩
  refine ⟨by rw [OrderedDict.keys_insert hkey], fun name found h => ?_⟩
  rw [OrderedDict.get?_insert] at h
  split at h
  · next hname =>
    subst hname
    obtain rfl := Option.some.inj h
    exact ⟨value, hvalue, .inr hsimpler⟩
  · exact ⟨found, h, .inl rfl⟩

/-- A key that the smaller input lacks can go. -/
theorem erase_left (h : Reduces large small) (hkey : small.get? key = none) : Reduces (large.erase key) small := by
  have hlacks : key ∉ small.keys := fun hmem => by
    obtain ⟨value, hvalue⟩ := OrderedDict.contains_iff.1 (List.contains_iff_mem.2 hmem)
    rw [hkey] at hvalue
    cases hvalue
  constructor
  · have hsame : small.keys.filter (· ≠ key) = small.keys := by
      refine List.filter_eq_self.2 fun name hname => decide_eq_true fun heq => hlacks (heq ▸ hname)
    rw [OrderedDict.keys_erase, ← hsame]
    exact h.keys.filter _
  · intro name value hvalue
    have hne : name ≠ key := by
      rintro rfl
      rw [hkey] at hvalue
      cases hvalue
    simpa [hne] using h.values name value hvalue

/-- A value can be what it is in the smaller input. -/
theorem insert_left (h : Reduces large small) (hkey : small.get? key = some value) :
    Reduces (large.insert key value) small := by
  have hcontains : large.contains key = true := h.contains (OrderedDict.contains_iff.2 ⟨value, hkey⟩)
  refine ⟨by rw [OrderedDict.keys_insert hcontains]; exact h.keys, fun name found hfound => ?_⟩
  rw [OrderedDict.get?_insert]
  split
  · next hname =>
    subst hname
    exact ⟨value, rfl, .inl (Option.some.inj (hfound.symm.trans hkey))⟩
  · exact h.values name found hfound

end Reduces

abbrev phases : List (Phase Dict String) := [removal, simplification]

theorem offers_cases (h : Shrinking.Offers phases current candidate) :
    (∃ key, current.contains key = true ∧ candidate = current.erase key) ∨
      ∃ key value, current.get? key = some value ∧ ∃ simpler ∈ simplerValues value,
        candidate = current.insert key simpler := by
  obtain ⟨phase, hphase, key, hkey, hoffered⟩ := h
  simp only [phases, List.mem_cons, List.not_mem_nil, or_false] at hphase
  rcases hphase with rfl | rfl
  · exact .inl ⟨key, mem_sortedNames.1 hkey, List.mem_singleton.1 hoffered⟩
  · simp only [simplification] at hoffered
    split at hoffered
    · next value hvalue =>
      obtain ⟨simpler, hsimpler, rfl⟩ := List.mem_map.1 hoffered
      exact .inr ⟨key, value, hvalue, simpler, hsimpler, rfl⟩
    · cases hoffered

theorem offers_reduces (h : Shrinking.Offers phases current candidate) : Reduces current candidate := by
  rcases offers_cases h with ⟨key, _, rfl⟩ | ⟨key, value, hvalue, simpler, hsimpler, rfl⟩
  · exact .erase _ _
  · exact .insert hvalue hsimpler

-- The measure

def simplifiable (entry : String × Value) : Bool := !(simplerValues entry.2).isEmpty

/-- The keys, and once more those whose value can be simplified. -/
def inputSize (input : Dict) : Nat := input.entries.length + input.entries.countP simplifiable

theorem inputSize_le (input : Dict) : inputSize input ≤ 2 * input.keys.length := by
  have hcount := List.countP_le_length (p := simplifiable) (l := input.entries)
  simp only [inputSize, OrderedDict.keys, List.length_map]
  omega

theorem countP_put_of_lookup (p : String × Value → Bool) (value : Value) {entries : List (String × Value)}
    (h : entries.lookup key = some old) :
    (OrderedDict.put key value entries).countP p + (if p (key, old) then 1 else 0) =
      entries.countP p + if p (key, value) then 1 else 0 := by
  induction entries with
  | nil => cases h
  | cons entry rest ih =>
    obtain ⟨k, v⟩ := entry
    rw [OrderedDict.lookup_cons_if] at h
    by_cases hk : k = key
    · subst hk
      rw [if_pos rfl] at h
      obtain rfl := Option.some.inj h
      simp only [OrderedDict.put, if_true, List.countP_cons]
      omega
    · rw [if_neg (Ne.symm hk)] at h
      have hrest := ih h
      simp only [OrderedDict.put, hk, if_false, List.countP_cons]
      omega

theorem inputSize_offers (h : Shrinking.Offers phases current candidate) : inputSize candidate < inputSize current := by
  rcases offers_cases h with ⟨key, hkey, rfl⟩ | ⟨key, value, hvalue, simpler, hsimpler, rfl⟩
  · obtain ⟨value, hvalue⟩ := OrderedDict.contains_iff.1 hkey
    have hmem := OrderedDict.get?_eq_some_iff.1 hvalue
    have hlength : (current.erase key).entries.length < current.entries.length :=
      List.length_filter_lt_length_iff_exists.2 ⟨(key, value), hmem, by simp⟩
    have hcount : (current.erase key).entries.countP simplifiable ≤ current.entries.countP simplifiable :=
      List.filter_sublist.countP_le
    unfold inputSize
    omega
  · have hkey : current.contains key = true := OrderedDict.contains_iff.2 ⟨value, hvalue⟩
    have hkeys : (current.insert key simpler).keys = current.keys := OrderedDict.keys_insert hkey
    have hlength : (current.insert key simpler).entries.length = current.entries.length := by
      simpa [OrderedDict.keys] using congrArg List.length hkeys
    have hcount := countP_put_of_lookup simplifiable simpler hvalue
    have hold : simplifiable (key, value) = true := by simp [simplifiable, (simplerValues_simpler hsimpler).2]
    have hnew : simplifiable (key, simpler) = false := by simp [simplifiable, (simplerValues_simpler hsimpler).1]
    rw [hold, hnew] at hcount
    unfold inputSize
    rw [hlength]
    simp only [OrderedDict.insert, if_true, Bool.false_eq_true, if_false] at hcount ⊢
    omega

-- What minimising promises

namespace Replay

def Returns (replay : Replay) (input : Dict) : Prop := ∃ result, replay.execute input = .ok result

/-- No single removal and no single simplification violates the property. -/
structure OneMinimal (replay : Replay) (prop : FlowProperty) (input : Dict) : Prop where
  removed : ∀ key, input.contains key = true → replay.violates prop (input.erase key) = .ok false
  simplified : ∀ key value, input.get? key = some value → ∀ simpler ∈ simplerValues value,
    replay.violates prop (input.insert key simpler) = .ok false

def Minimizes (replay : Replay) (failingInput : Dict) (prop : FlowProperty) (maxRounds : Int) : Prop :=
  replay.violates prop failingInput = .ok true →
    ∃ minimized, minimizeFailure replay failingInput prop maxRounds = .ok minimized ∧
      replay.violates prop minimized = .ok true ∧
      (2 * (failingInput.keys.length : Int) < maxRounds → replay.OneMinimal prop minimized) ∧
      ∀ key, minimized.contains key = true → failingInput.contains key = true

variable {replay : Replay}

theorem violates_ok (h : replay.Returns input) : ∃ violated, replay.violates prop input = .ok violated := by
  obtain ⟨result, hresult⟩ := h
  cases hholds : prop.holds result with
  | ok holds => exact ⟨!holds, by simp [violates, hresult, hholds, bind, Except.bind, pure, Except.pure]⟩
  | error e => exact ⟨true, by simp [violates, hresult, hholds, bind, Except.bind, pure, Except.pure]⟩

theorem returns_of_violates (h : replay.violates prop input = .ok violated) : replay.Returns input := by
  obtain ⟨result, hresult, _⟩ := Attempt.bind_eq_ok.1 h
  exact ⟨result, hresult⟩

theorem minimizeFailure_eq (h : replay.violates prop failingInput = .ok true) :
    minimizeFailure replay failingInput prop maxRounds =
      Shrinking.rounds (replay.violates prop) phases maxRounds.toNat failingInput := by
  simp [minimizeFailure, h, bind, Except.bind]

theorem oneMinimal_of_settled (h : Shrinking.Settled (replay.violates prop) phases input) :
    replay.OneMinimal prop input := by
  constructor
  · intro key hkey
    exact h _ ⟨removal, .head _, key, mem_sortedNames.2 hkey, .head _⟩
  · intro key value hvalue simpler hsimpler
    have hkey : input.contains key = true := OrderedDict.contains_iff.2 ⟨value, hvalue⟩
    refine h _ ⟨simplification, .tail _ (.head _), key, mem_sortedNames.2 hkey, ?_⟩
    simp only [simplification, hvalue]
    exact List.mem_map_of_mem hsimpler

theorem minimizes_of_returns (h : ∀ reduced, Reduces failingInput reduced → replay.Returns reduced)
    (prop : FlowProperty) (maxRounds : Int) : replay.Minimizes failingInput prop maxRounds := by
  intro hviolates
  have hoffers : ∀ {s c}, Reduces failingInput s → Shrinking.Offers phases s c →
      Reduces failingInput c ∧ ∃ passes, replay.violates prop c = .ok passes := fun hs hoffered =>
    have hreduced := hs.trans (offers_reduces hoffered)
    ⟨hreduced, violates_ok (h _ hreduced)⟩
  have hreturns := Shrinking.rounds_returns hoffers maxRounds.toNat (.refl failingInput)
  obtain ⟨minimized, hrounds⟩ := hreturns
  have hreaches := Shrinking.rounds_reaches hrounds
  have hreduces : Reduces failingInput minimized := by
    clear hrounds
    induction hreaches with
    | refl => exact .refl _
    | tail _ hstep ih => exact ih.trans (offers_reduces hstep.1)
  refine ⟨minimized, (minimizeFailure_eq hviolates).trans hrounds,
    Shrinking.passes_of_reaches hviolates hreaches, fun hmany => ?_, fun key => hreduces.contains⟩
  have hsize := inputSize_le failingInput
  exact oneMinimal_of_settled (Shrinking.rounds_settled inputSize_offers (by omega) hrounds)

-- Every reduction is tried for some property

open Classical in
/-- The property that exactly the inputs between two violate. -/
noncomputable def between (large small : Dict) : FlowProperty where
  name := "between"
  check result := .ok (decide ¬(Reduces large result.initialInput ∧ Reduces result.initialInput small))

theorem violates_between (h : replay.execute input = .ok result) :
    replay.violates (between large small) input = .ok true ↔ Reduces large input ∧ Reduces input small := by
  simp [violates, h, FlowProperty.holds, between, replay.initialInput h, bind, Except.bind, pure, Except.pure]

/-- An input between the two that is tried passes, or it raises. -/
theorem between_passes (h : replay.violates (between large small) input = .ok violated) (hlarge : Reduces large input)
    (hsmall : Reduces input small) : violated = true := by
  obtain ⟨result, hresult⟩ := returns_of_violates h
  have hviolates := (violates_between hresult).2 ⟨hlarge, hsmall⟩
  exact Except.ok.inj (h.symm.trans hviolates)

theorem between_of_passes (h : replay.violates (between large small) input = .ok true) :
    Reduces large input ∧ Reduces input small := by
  obtain ⟨result, hresult⟩ := returns_of_violates h
  exact (violates_between hresult).1 h

/-- Removing gets to the keys of the smaller input. -/
theorem removal_follows {mid : Dict × Bool} (hreduces : Reduces large small) (hlarge : replay.Returns large)
    (h : Shrinking.sweep (replay.violates (between large small)) removal.candidates (sortedNames large) large false =
      .ok mid) :
    Reduces large mid.1 ∧ Reduces mid.1 small ∧ replay.Returns mid.1 ∧ mid.1.keys = small.keys := by
  let Ahead (todo : List String) (current : Dict) : Prop :=
    Reduces large current ∧ Reduces current small ∧ replay.Returns current ∧
      ∀ key, current.contains key = true → small.get? key = none → key ∈ todo
  have hstart : Ahead (sortedNames large) large :=
    ⟨.refl _, hreduces, hlarge, fun key hkey _ => mem_sortedNames.2 hkey⟩
  have hend : Ahead [] mid.1 := by
    refine Shrinking.sweep_holds Ahead (fun key rest current hahead hnone => ?_)
      (fun key rest current candidate hahead hsome => ?_) hstart h
    · obtain ⟨hl, hs, hreturns, htodo⟩ := hahead
      refine ⟨hl, hs, hreturns, fun name hname hlacks => ?_⟩
      have hrefused := Shrinking.firstPassing_none hnone _ (List.mem_singleton.2 rfl)
      refine (List.mem_cons.1 (htodo name hname hlacks)).resolve_left fun heq => ?_
      subst heq
      cases between_passes hrefused (hl.trans (.erase _ _)) (hs.erase_left hlacks)
    · obtain ⟨hl, hs, hreturns, htodo⟩ := hahead
      obtain ⟨hoffered, htest⟩ := Shrinking.firstPassing_some hsome
      obtain rfl := List.mem_singleton.1 hoffered
      obtain ⟨hl', hs'⟩ := between_of_passes htest
      refine ⟨hl', hs', returns_of_violates htest, fun name hname hlacks => ?_⟩
      obtain ⟨value, hvalue⟩ := OrderedDict.contains_iff.1 hname
      rw [OrderedDict.get?_erase] at hvalue
      split at hvalue
      · cases hvalue
      · next hne =>
        exact (List.mem_cons.1 (htodo name (OrderedDict.contains_iff.2 ⟨value, hvalue⟩) hlacks)).resolve_left hne
  obtain ⟨hl, hs, hreturns, hnone⟩ := hend
  refine ⟨hl, hs, hreturns, (hs.keys.eq_of_length_le ?_).symm⟩
  refine (List.subperm_of_subset mid.1.nodup fun key hkey => ?_).length_le
  have hcontains : mid.1.contains key = true := List.contains_iff_mem.2 hkey
  cases hsmall : small.get? key with
  | some value => exact List.contains_iff_mem.1 (OrderedDict.contains_iff.2 ⟨value, hsmall⟩)
  | none => cases hnone key hcontains hsmall

/-- Simplifying gets to the values of the smaller input. -/
theorem simplification_follows {mid : Dict} {last : Dict × Bool} (hl : Reduces large mid) (hs : Reduces mid small)
    (hreturns : replay.Returns mid) (hkeys : mid.keys = small.keys)
    (h : Shrinking.sweep (replay.violates (between large small)) simplification.candidates (sortedNames mid) mid
      changed = .ok last) : last.1 = small ∧ replay.Returns last.1 := by
  let Ahead (todo : List String) (current : Dict) : Prop :=
    Reduces large current ∧ Reduces current small ∧ replay.Returns current ∧ current.keys = small.keys ∧
      ∀ key, key ∉ todo → current.get? key = small.get? key
  have hnone : ∀ {current : Dict} {key}, current.keys = small.keys → current.get? key = none →
      small.get? key = none := by
    intro current key hsame hlacks
    cases hsmall : small.get? key with
    | none => rfl
    | some value =>
      have hkey : small.contains key = true := OrderedDict.contains_iff.2 ⟨value, hsmall⟩
      rw [OrderedDict.contains, ← hsame] at hkey
      obtain ⟨found, hfound⟩ := OrderedDict.contains_iff.1 hkey
      rw [hlacks] at hfound
      cases hfound
  have hsome : ∀ {current : Dict} {key value}, Reduces current small → current.keys = small.keys →
      current.get? key = some value →
        small.get? key = some value ∨ ∃ simpler ∈ simplerValues value, small.get? key = some simpler := by
    intro current key value hreduces hsame hvalue
    have hkey : current.contains key = true := OrderedDict.contains_iff.2 ⟨value, hvalue⟩
    rw [OrderedDict.contains, hsame] at hkey
    obtain ⟨found, hfound⟩ := OrderedDict.contains_iff.1 hkey
    obtain ⟨whole, hwhole, hcases⟩ := hreduces.values key found hfound
    obtain rfl := Option.some.inj (hvalue.symm.trans hwhole)
    rcases hcases with rfl | hsimpler
    · exact .inl hfound
    · exact .inr ⟨found, hsimpler, hfound⟩
  have hstart : Ahead (sortedNames mid) mid := by
    refine ⟨hl, hs, hreturns, hkeys, fun key hkey => ?_⟩
    cases hmid : mid.get? key with
    | none => exact (hnone hkeys hmid).symm
    | some value => exact absurd (mem_sortedNames.2 (OrderedDict.contains_iff.2 ⟨value, hmid⟩)) hkey
  have hend : Ahead [] last.1 := by
    refine Shrinking.sweep_holds Ahead (fun key rest current hahead hkept => ?_)
      (fun key rest current candidate hahead hmoved => ?_) hstart h
    · obtain ⟨hl, hs, hreturns, hsame, hdone⟩ := hahead
      refine ⟨hl, hs, hreturns, hsame, fun name hname => ?_⟩
      by_cases heq : name = key
      · subst heq
        cases hvalue : current.get? name with
        | none => exact (hnone hsame hvalue).symm
        | some value =>
          rcases hsome hs hsame hvalue with hsmall | ⟨simpler, hsimpler, hsmall⟩
          · exact hsmall.symm
          · have hrefused := Shrinking.firstPassing_none hkept (current.insert name simpler) (by
              simp only [simplification, hvalue]
              exact List.mem_map_of_mem hsimpler)
            cases between_passes hrefused (hl.trans (.insert hvalue hsimpler)) (hs.insert_left hsmall)
      · exact hdone name (List.not_mem_cons_of_ne_of_not_mem heq hname)
    · obtain ⟨hl, hs, hreturns, hsame, hdone⟩ := hahead
      obtain ⟨hoffered, htest⟩ := Shrinking.firstPassing_some hmoved
      obtain ⟨hl', hs'⟩ := between_of_passes htest
      simp only [simplification] at hoffered
      split at hoffered
      · next value hvalue =>
        obtain ⟨simpler, hsimpler, rfl⟩ := List.mem_map.1 hoffered
        have hsame' : (current.insert key simpler).keys = small.keys := by
          rw [OrderedDict.keys_insert (OrderedDict.contains_iff.2 ⟨value, hvalue⟩), hsame]
        refine ⟨hl', hs', returns_of_violates htest, hsame', fun name hname => ?_⟩
        by_cases heq : name = key
        · subst heq
          have hnow : (current.insert name simpler).get? name = some simpler := by simp
          rcases hsome hs' hsame' hnow with hsmall | ⟨other, hother, _⟩
          · rw [hnow, hsmall]
          · rw [(simplerValues_simpler hsimpler).1] at hother
            cases hother
        · rw [OrderedDict.get?_insert, if_neg heq]
          exact hdone name (List.not_mem_cons_of_ne_of_not_mem heq hname)
      · cases hoffered
  obtain ⟨_, _, hreturns, hsame, hvalues⟩ := hend
  exact ⟨OrderedDict.ext_get? hsame fun key => hvalues key List.not_mem_nil, hreturns⟩

/-- Minimising the property between an input and one of its reductions runs the reduction. -/
theorem returns_of_minimizes (h : ∀ prop maxRounds, replay.Minimizes failingInput prop maxRounds)
    (hreturns : replay.Returns failingInput) (hreduces : Reduces failingInput reduced) : replay.Returns reduced := by
  obtain ⟨result, hresult⟩ := hreturns
  have hviolates := (violates_between hresult).2 ⟨.refl failingInput, hreduces⟩
  obtain ⟨minimized, hminimized, _⟩ := h (between failingInput reduced) 1 hviolates
  rw [minimizeFailure_eq hviolates] at hminimized
  obtain ⟨last, hround, _⟩ := Attempt.bind_eq_ok.1 hminimized
  obtain ⟨mid, hremoval, hround⟩ := Attempt.bind_eq_ok.1 hround
  obtain ⟨hl, hs, hmid, hkeys⟩ := removal_follows hreduces ⟨result, hresult⟩ hremoval
  obtain ⟨simplified, hsimplification, _⟩ := Attempt.bind_eq_ok.1 hround
  obtain ⟨hsame, hlast⟩ := simplification_follows hl hs hmid hkeys hsimplification
  exact hsame ▸ hlast

theorem minimizes_iff_returns :
    (∀ prop maxRounds, replay.Minimizes failingInput prop maxRounds) ↔
      (replay.Returns failingInput → ∀ reduced, Reduces failingInput reduced → replay.Returns reduced) := by
  constructor
  · exact fun h hreturns reduced => returns_of_minimizes h hreturns
  · intro h prop maxRounds hviolates
    exact minimizes_of_returns (h (returns_of_violates hviolates)) prop maxRounds hviolates

end Replay

-- Flows run by an executor

namespace Executor

open Interaction (Frame)

variable {executor : Executor} {nested : Nested} {info : RunInfo} {cancellation : Cancellation}

/-- The result is one of a run on this input. -/
def RunOn (input : Dict) (result : ExecutionResult) : Prop := result.initialInput = input

theorem makeResult_runOn :
    anyFrame.Given anyEvent (executor.makeResult info success output log count) (RunOn info.initialInput) anyError := by
  unfold makeResult
  exact .get_bind fun _ _ => given_any.bind fun _ _ => given_any.bind fun _ _ => .pure rfl

theorem finishFlow_runOn {header : FlowHeader} {stepCount : Int} :
    anyFrame.Given anyEvent (executor.finishFlow info header stepCount checkContext context log)
      (RunOn info.initialInput) anyError := by
  unfold finishFlow
  refine given_any.bind fun outputFailure _ => ?_
  cases outputFailure with
  | some record => exact makeResult_runOn
  | none =>
    refine given_any.bind fun _ _ => given_any.bind fun contextFailure _ => ?_
    cases contextFailure with
    | some record => exact makeResult_runOn
    | none => exact makeResult_runOn

theorem executeLinear_runOn {lane : Lane} {flow : Flow} :
    anyFrame.Given anyEvent (executor.executeLinear lane nested flow flowName input cancellation) (RunOn input)
      anyError := by
  unfold executeLinear
  refine .modify_bind (fun _ => id) (given_any.bind fun _ _ => given_any.bind fun _ _ => ?_)
  refine given_any.bind fun inputFailure _ => ?_
  cases inputFailure with
  | some record => exact makeResult_runOn
  | none =>
    refine .get_bind fun _ _ => given_any.bind fun _ _ => ?_
    unfold linearFrom
    refine (linearLoop_ends (fun _ _ => makeResult_runOn) _ _ _ _).bind fun progress h => ?_
    cases progress with
    | ended result => exact .pure h
    | going state => exact finishFlow_runOn

theorem executeDagFlow_runOn {flow : DAGFlow} :
    anyFrame.Given anyEvent (executor.executeDagFlow nested flow input cancellation) (RunOn input) anyError := by
  have hfrom : ∀ {info levels startLevel state}, anyFrame.Given anyEvent
      (executor.dagFrom nested info flow cancellation levels startLevel state) (RunOn info.initialInput) anyError := by
    intro info levels startLevel state
    unfold dagFrom
    refine (dagLevels_ends (fun _ _ => makeResult_runOn) _ _ _).bind fun progress h => ?_
    cases progress with
    | ended result => exact .pure h
    | going state => exact finishFlow_runOn
  unfold executeDagFlow
  refine .modify_bind (fun _ => id) (.get_bind fun state _ => ?_)
  split
  · exact given_any.bind fun _ _ => given_any.bind fun _ _ => given_any.bind fun _ _ => hfrom
  · refine given_any.bind fun _ _ => given_any.bind fun _ _ => given_any.bind fun inputFailure _ => ?_
    cases inputFailure with
    | some record => exact makeResult_runOn
    | none => exact .get_bind fun _ _ => given_any.bind fun _ _ => given_any.bind fun _ _ => hfrom

theorem executeFlow_runOn (stack : Nat) {call : Call} :
    anyFrame.Given anyEvent (executor.executeFlow stack flowName input call) (RunOn input) anyError := by
  unfold executeFlow executeFlowWith
  refine .within (fun _ => id) ?_
  unfold executeFlowImpl
  refine given_any.bind fun flow _ => .modify_bind (fun _ => id) ?_
  refine given_any.bind fun _ _ => given_any.bind fun _ _ => ?_
  refine .get_bind fun _ _ => given_any.bind fun _ _ => ?_
  cases flow with
  | dag flow => exact executeDagFlow_runOn
  | linear flow => exact executeLinear_runOn

/-- The runs of a flow with deterministic tools: the surroundings answer by a function of
their state, and every run finds them in the same one. -/
def replaying (executor : Executor) (stack : Nat) (flowName : String)
    (answer : ω → (kind : EffectKind) → kind.Query → kind.Reply × ω) (start : ω) : Replay where
  execute input := (Prog.exec (S := Effects) answer start (executor.executeFlow stack flowName input {} {})).2.1.1
  initialInput {input result} h := by
    have hrun := Prog.exec_runs (S := Effects) answer start (executor.executeFlow stack flowName input {} {})
    have hresult := (executeFlow_runOn stack _ _ _ _ trivial (fun _ _ => trivial) hrun).2
    rw [h] at hresult
    exact hresult

/-- Minimising does what it promises, for every property and every bound, exactly if the
flow runs on every reduction of the failing input without raising. -/
theorem minimizes_iff (executor : Executor) (stack : Nat) (flowName : String)
    (answer : ω → (kind : EffectKind) → kind.Query → kind.Reply × ω) (start : ω) (failingInput : Dict) :
    (∀ prop maxRounds, (executor.replaying stack flowName answer start).Minimizes failingInput prop maxRounds) ↔
      ((executor.replaying stack flowName answer start).Returns failingInput →
        ∀ reduced, Reduces failingInput reduced →
          (executor.replaying stack flowName answer start).Returns reduced) :=
  Replay.minimizes_iff_returns

/-- A tool that cannot do without a name. -/
def greets (invocation : Invocation) : Except Exc Value :=
  if invocation.validated.contains "name" then .ok (.dict [("text", .str "hello")])
  else .error (.other "KeyError" "'name'")

/-- The step's failures are skipped. -/
def skipping (step : FlowStep) : FlowStep := { step with onError := .skip }

/-- A skipped step leaves no outputs to map: with the only key removed, the flow raises. -/
theorem minimize_raises :
    ¬∀ (executor : Executor) (stack : Nat) (flowName : String)
      (answer : Nat → (kind : EffectKind) → kind.Query → kind.Reply × Nat) (start : Nat) (failingInput : Dict)
      (prop : FlowProperty) (maxRounds : Int),
      (executor.replaying stack flowName answer start).Minimizes failingInput prop maxRounds := by
  intro h
  let flow : AnyFlow := .linear
    { name := "greet", version := "1.0.0", steps := [skipping (Sample.giving [("reply", "text")] (Sample.step "a"))] }
  let replay := (Sample.executor [flow] [Sample.tool "a"]).replaying 0 "greet" (Sample.answer greets none) 0
  let never : FlowProperty := { name := "never", check := fun _ => .ok false }
  let input : Dict := .ofList [("name", .str "Ada")]
  have hfound : (replay.violates never input).toOption = some true := by decide +kernel
  have hviolates : replay.violates never input = .ok true := by
    cases hcase : replay.violates never input with
    | ok violated =>
      rw [hcase] at hfound
      exact congrArg Except.ok (Option.some.inj hfound)
    | error e =>
      rw [hcase] at hfound
      cases hfound
  obtain ⟨minimized, hminimized, _⟩ := h _ 0 "greet" (Sample.answer greets none) 0 input never 1 hviolates
  have hraises : (minimizeFailure replay input never 1).toOption.isNone = true := by decide +kernel
  rw [hminimized] at hraises
  cases hraises

end Executor

end ChainWeaver
