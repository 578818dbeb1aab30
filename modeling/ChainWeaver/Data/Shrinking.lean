import ChainWeaver.Data.Attempt
import Mathlib.Logic.Relation

/-!
# Shrinking by rounds

A greedy search for a smaller value that still passes a test. A phase offers
candidates for the value at hand, one key after the other, and the first that passes
takes its place. A round runs the phases in order; rounds follow on each other until
one of them changes nothing.

`rounds_reaches` says where the search can end, `rounds_settled` that with rounds
enough nothing that is offered there passes, and `rounds_returns` when it raises nothing.
-/

namespace Shrinking

/-- The keys of a value are fixed when a phase begins: what the phase puts in its
place for one key has to keep the others. -/
structure Phase (σ κ : Type) where
  keys : σ → List κ
  candidates : κ → σ → List σ
  nodup : ∀ s, (keys s).Nodup
  keeps : ∀ {s c : σ} {key other : κ}, c ∈ candidates key s → other ≠ key → other ∈ keys s → other ∈ keys c

variable {σ κ ε : Type} (test : σ → Except ε Bool)

/-- The first candidate that passes. -/
def firstPassing : List σ → Except ε (Option σ)
  | [] => .ok none
  | candidate :: rest => do
    if ← test candidate then pure (some candidate) else firstPassing rest

/-- What a phase makes of a value, and whether it changed it or it was changed before. -/
def sweep (candidates : κ → σ → List σ) : List κ → σ → Bool → Except ε (σ × Bool)
  | [], current, changed => .ok (current, changed)
  | key :: rest, current, changed => do
    match ← firstPassing test (candidates key current) with
    | some candidate => sweep candidates rest candidate true
    | none => sweep candidates rest current changed

def round : List (Phase σ κ) → σ → Bool → Except ε (σ × Bool)
  | [], current, changed => .ok (current, changed)
  | phase :: rest, current, changed => do
    let (current, changed) ← sweep test phase.candidates (phase.keys current) current changed
    round rest current changed

def rounds (phases : List (Phase σ κ)) : Nat → σ → Except ε σ
  | 0, current => .ok current
  | n + 1, current => do
    let (current, changed) ← round test phases current false
    if changed then rounds phases n current else pure current

/-- A value offers another one in its place. -/
def Offers (phases : List (Phase σ κ)) (current candidate : σ) : Prop :=
  ∃ phase ∈ phases, ∃ key ∈ phase.keys current, candidate ∈ phase.candidates key current

/-- One replacement of the search. -/
def Replaces (phases : List (Phase σ κ)) (current candidate : σ) : Prop :=
  Offers phases current candidate ∧ test candidate = .ok true

/-- Nothing that is offered passes. -/
def Settled (phases : List (Phase σ κ)) (current : σ) : Prop :=
  ∀ candidate, Offers phases current candidate → test candidate = .ok false

variable {test} {phases : List (Phase σ κ)} {phase : Phase σ κ}

theorem firstPassing_some {candidates : List σ} (h : firstPassing test candidates = .ok (some found)) :
    found ∈ candidates ∧ test found = .ok true := by
  induction candidates with
  | nil => cases h
  | cons candidate rest ih =>
    obtain ⟨passes, htest, h⟩ := Attempt.bind_eq_ok.1 h
    cases passes with
    | true =>
      cases h
      exact ⟨.head _, htest⟩
    | false => exact ⟨.tail _ (ih h).1, (ih h).2⟩

theorem firstPassing_none {candidates : List σ} (h : firstPassing test candidates = .ok none) :
    ∀ candidate ∈ candidates, test candidate = .ok false := by
  induction candidates with
  | nil => nofun
  | cons candidate rest ih =>
    obtain ⟨passes, htest, h⟩ := Attempt.bind_eq_ok.1 h
    cases passes with
    | true => cases h
    | false => simpa [htest] using ih h

theorem firstPassing_returns {candidates : List σ}
    (h : ∀ candidate ∈ candidates, ∃ passes, test candidate = .ok passes) :
    ∃ found, firstPassing test candidates = .ok found := by
  induction candidates with
  | nil => exact ⟨none, rfl⟩
  | cons candidate rest ih =>
    obtain ⟨⟨passes, htest⟩, hrest⟩ := List.forall_mem_cons.1 h
    cases passes with
    | true => exact ⟨some candidate, Attempt.bind_eq_ok.2 ⟨true, htest, rfl⟩⟩
    | false =>
      obtain ⟨found, hfound⟩ := ih hrest
      exact ⟨found, Attempt.bind_eq_ok.2 ⟨false, htest, hfound⟩⟩

/-- The loop rule of a phase: what holds of the keys ahead and the value at hand before
every key holds when no key is ahead. -/
theorem sweep_holds {candidates : κ → σ → List σ} (I : List κ → σ → Prop)
    (hkeep : ∀ key rest s, I (key :: rest) s → firstPassing test (candidates key s) = .ok none → I rest s)
    (hmove : ∀ key rest s c, I (key :: rest) s → firstPassing test (candidates key s) = .ok (some c) → I rest c)
    {keys : List κ} {s : σ} (h : I keys s) (hsweep : sweep test candidates keys s changed = .ok (s', changed')) :
    I [] s' := by
  induction keys generalizing s changed with
  | nil =>
    cases hsweep
    exact h
  | cons key rest ih =>
    obtain ⟨found, hfound, hsweep⟩ := Attempt.bind_eq_ok.1 hsweep
    cases found with
    | some c => exact ih (hmove key rest s c h hfound) hsweep
    | none => exact ih (hkeep key rest s h hfound) hsweep

-- Where a search can end

theorem sweep_outcome (hphase : phase ∈ phases) {todo : List κ} {s : σ} (hnodup : todo.Nodup)
    (hkeys : ∀ key ∈ todo, key ∈ phase.keys s) (h : sweep test phase.candidates todo s changed = .ok (s', changed')) :
    (s' = s ∧ changed' = changed ∧ ∀ key ∈ todo, ∀ c ∈ phase.candidates key s, test c = .ok false) ∨
      (changed' = true ∧ Relation.TransGen (Replaces test phases) s s') := by
  induction todo generalizing s changed with
  | nil =>
    cases h
    exact .inl ⟨rfl, rfl, nofun⟩
  | cons key rest ih =>
    obtain ⟨hnew, hrest⟩ := List.nodup_cons.1 hnodup
    obtain ⟨found, hfound, h⟩ := Attempt.bind_eq_ok.1 h
    cases found with
    | some c =>
      obtain ⟨hoffered, htest⟩ := firstPassing_some hfound
      have hstep : Replaces test phases s c := ⟨⟨phase, hphase, key, hkeys key (.head _), hoffered⟩, htest⟩
      have hkept : ∀ other ∈ rest, other ∈ phase.keys c := fun other hother =>
        phase.keeps hoffered (fun heq => hnew (heq ▸ hother)) (hkeys other (.tail _ hother))
      rcases ih hrest hkept h with ⟨rfl, rfl, _⟩ | ⟨rfl, hsteps⟩
      · exact .inr ⟨rfl, .single hstep⟩
      · exact .inr ⟨rfl, .head hstep hsteps⟩
    | none =>
      have hrefused := firstPassing_none hfound
      rcases ih hrest (fun other hother => hkeys other (.tail _ hother)) h with ⟨rfl, rfl, hall⟩ | hmoved
      · exact .inl ⟨rfl, rfl, List.forall_mem_cons.2 ⟨hrefused, hall⟩⟩
      · exact .inr hmoved

theorem round_outcome {todo : List (Phase σ κ)} {s : σ} (hsub : ∀ phase ∈ todo, phase ∈ phases)
    (h : round test todo s changed = .ok (s', changed')) :
    (s' = s ∧ changed' = changed ∧ Settled test todo s) ∨
      (changed' = true ∧ Relation.TransGen (Replaces test phases) s s') := by
  induction todo generalizing s changed with
  | nil =>
    cases h
    exact .inl ⟨rfl, rfl, fun _ ⟨_, hphase, _⟩ => by cases hphase⟩
  | cons phase rest ih =>
    obtain ⟨hphase, hrest⟩ := List.forall_mem_cons.1 hsub
    obtain ⟨⟨mid, midChanged⟩, hsweep, hlater⟩ := Attempt.bind_eq_ok.1 h
    rcases sweep_outcome hphase (phase.nodup s) (fun _ => id) hsweep with ⟨rfl, rfl, hrefused⟩ | ⟨rfl, hsteps⟩
    · rcases ih hrest hlater with ⟨rfl, rfl, hsettled⟩ | hmoved
      · refine .inl ⟨rfl, rfl, ?_⟩
        rintro candidate ⟨other, hother, key, hkey, hoffered⟩
        rcases List.mem_cons.1 hother with rfl | hother
        · exact hrefused key hkey candidate hoffered
        · exact hsettled candidate ⟨other, hother, key, hkey, hoffered⟩
      · exact .inr hmoved
    · rcases ih hrest hlater with ⟨rfl, rfl, _⟩ | ⟨rfl, hmore⟩
      · exact .inr ⟨rfl, hsteps⟩
      · exact .inr ⟨rfl, hsteps.trans hmore⟩

theorem rounds_reaches {n : Nat} {s : σ} (h : rounds test phases n s = .ok s') :
    Relation.ReflTransGen (Replaces test phases) s s' := by
  induction n generalizing s with
  | zero =>
    cases h
    exact .refl
  | succ n ih =>
    obtain ⟨⟨mid, changed⟩, hround, h⟩ := Attempt.bind_eq_ok.1 h
    have hmid : Relation.ReflTransGen (Replaces test phases) s mid := by
      rcases round_outcome (fun _ => id) hround with ⟨rfl, _⟩ | ⟨_, hsteps⟩
      · exact .refl
      · exact hsteps.to_reflTransGen
    cases changed with
    | true => exact hmid.trans (ih h)
    | false =>
      cases h
      exact hmid

/-- What the search ends with is the value it began with, or it passes. -/
theorem passes_of_reaches {s : σ} (hpasses : test s = .ok true)
    (h : Relation.ReflTransGen (Replaces test phases) s s') :
    test s' = .ok true := by
  rcases Relation.ReflTransGen.cases_tail h with rfl | ⟨_, _, _, htest⟩
  · exact hpasses
  · exact htest

/-- Every round that changes something makes the value smaller, so that one of more rounds
than its size changes nothing. -/
theorem rounds_settled {size : σ → Nat} (hsize : ∀ {s c}, Offers phases s c → size c < size s) {n : Nat} {s : σ}
    (hn : size s < n) (h : rounds test phases n s = .ok s') : Settled test phases s' := by
  induction n generalizing s with
  | zero => omega
  | succ n ih =>
    obtain ⟨⟨mid, changed⟩, hround, h⟩ := Attempt.bind_eq_ok.1 h
    have hsmaller : ∀ {mid}, Relation.TransGen (Replaces test phases) s mid → size mid < size s := by
      intro mid hsteps
      induction hsteps with
      | single hstep => exact hsize hstep.1
      | tail _ hstep ih => exact Nat.lt_trans (hsize hstep.1) ih
    rcases round_outcome (fun _ => id) hround with ⟨rfl, rfl, hsettled⟩ | ⟨rfl, hsteps⟩
    · cases h
      exact hsettled
    · have hless := hsmaller hsteps
      exact ih (by omega) h

-- When a search returns

section

variable {P : σ → Prop} (hP : ∀ {s c}, P s → Offers phases s c → P c ∧ ∃ passes, test c = .ok passes)

include hP

theorem sweep_returns (changed : Bool) (hphase : phase ∈ phases) {todo : List κ} {s : σ} (hs : P s) (hnodup : todo.Nodup)
    (hkeys : ∀ key ∈ todo, key ∈ phase.keys s) :
    ∃ s' changed', sweep test phase.candidates todo s changed = .ok (s', changed') ∧ P s' := by
  induction todo generalizing s changed with
  | nil => exact ⟨s, changed, rfl, hs⟩
  | cons key rest ih =>
    obtain ⟨hnew, hrest⟩ := List.nodup_cons.1 hnodup
    have hoffers : ∀ c ∈ phase.candidates key s, Offers phases s c := fun c hc =>
      ⟨phase, hphase, key, hkeys key (.head _), hc⟩
    obtain ⟨found, hfound⟩ := firstPassing_returns fun c hc => (hP hs (hoffers c hc)).2
    cases found with
    | some c =>
      obtain ⟨hoffered, _⟩ := firstPassing_some hfound
      have hkept : ∀ other ∈ rest, other ∈ phase.keys c := fun other hother =>
        phase.keeps hoffered (fun heq => hnew (heq ▸ hother)) (hkeys other (.tail _ hother))
      obtain ⟨s', changed', hsweep, hs'⟩ := ih true (hP hs (hoffers c hoffered)).1 hrest hkept
      exact ⟨s', changed', Attempt.bind_eq_ok.2 ⟨_, hfound, hsweep⟩, hs'⟩
    | none =>
      obtain ⟨s', changed', hsweep, hs'⟩ := ih changed hs hrest fun other hother =>
        hkeys other (.tail _ hother)
      exact ⟨s', changed', Attempt.bind_eq_ok.2 ⟨_, hfound, hsweep⟩, hs'⟩

theorem round_returns (changed : Bool) {todo : List (Phase σ κ)} {s : σ} (hsub : ∀ phase ∈ todo, phase ∈ phases) (hs : P s) :
    ∃ s' changed', round test todo s changed = .ok (s', changed') ∧ P s' := by
  induction todo generalizing s changed with
  | nil => exact ⟨s, changed, rfl, hs⟩
  | cons phase rest ih =>
    obtain ⟨hphase, hrest⟩ := List.forall_mem_cons.1 hsub
    obtain ⟨mid, midChanged, hsweep, hmid⟩ :=
      sweep_returns hP changed hphase hs (phase.nodup s) fun _ => id
    obtain ⟨s', changed', hround, hs'⟩ := ih midChanged hrest hmid
    exact ⟨s', changed', Attempt.bind_eq_ok.2 ⟨_, hsweep, hround⟩, hs'⟩

/-- The search raises nothing if the test raises nothing on what can be offered. -/
theorem rounds_returns (n : Nat) {s : σ} (hs : P s) : ∃ s', rounds test phases n s = .ok s' := by
  induction n generalizing s with
  | zero => exact ⟨s, rfl⟩
  | succ n ih =>
    obtain ⟨mid, changed, hround, hmid⟩ := round_returns hP false (fun _ => id) hs
    cases changed with
    | true =>
      obtain ⟨s', hrounds⟩ := ih hmid
      exact ⟨s', Attempt.bind_eq_ok.2 ⟨_, hround, hrounds⟩⟩
    | false => exact ⟨mid, Attempt.bind_eq_ok.2 ⟨_, hround, rfl⟩⟩

end

end Shrinking
