import ChainWeaver.Decisions
import ChainWeaver.Drift

/-!
# The decision budget

No flow execution consults the decision callback more often than its policy allows.
The counter is part of the state, and `resume_flow` counts on from what is there.
-/

namespace ChainWeaver.Executor

open Interaction (Comp Course Graded)

-- Tallies

/-- One more decision of the innermost flow. -/
def decided : List Nat → List Nat
  | [] => []
  | count :: rest => (count + 1) :: rest

/-- The decisions of the flows under way, the innermost first, after an event. -/
def spent (counts : List Nat) (e : Event) : List Nat :=
  match e with
  | ⟨.decide, _, _⟩ => decided counts
  | ⟨.decideTimed, _, _⟩ => decided counts
  | ⟨.probe, .nestedStart .., _⟩ => 0 :: counts
  | ⟨.probe, .nestedEnd .., _⟩ => counts.tail
  | _ => counts

def tally (counts : List Nat) (events : List Event) : List Nat := events.foldl spent counts

/-- At no time has a flow under way decided more than `budget` times. -/
def Budgeted (budget : Nat) (events : List Event) : Prop :=
  ∀ before after, events = before ++ after → ∀ count ∈ tally [0] before, count ≤ budget

theorem tally_append : tally counts (first ++ second) = tally (tally counts first) second := List.foldl_append

theorem spent_quiet {kind : EffectKind} {query : kind.Query} {reply : kind.Reply} (h : quiet kind query = true) :
    spent counts ⟨kind, query, reply⟩ = counts := by
  cases kind with
  | decide | decideTimed => cases h
  | probe =>
    cases query with
    | nestedStart | nestedEnd => cases h
    | _ => rfl
  | _ => rfl

/-- A piece of a trace with `used` decisions of the innermost flow, in which the
flows that come and go keep to the budget. -/
structure Spends (budget used : Nat) (events : List Event) : Prop where
  whole : ∀ count rest, tally (count :: rest) events = (count + used) :: rest
  along : ∀ count rest before after, events = before ++ after → ∃ inner so, tally (count :: rest) before =
    inner ++ so :: rest ∧ so ≤ count + used ∧ ∀ other ∈ inner, other ≤ budget

theorem Spends.nil : Spends budget 0 [] where
  whole _ _ := rfl
  along count rest before after h := by
    obtain ⟨rfl, -⟩ := List.append_eq_nil_iff.1 h.symm
    exact ⟨[], count, rfl, le_rfl, by simp⟩

theorem Spends.append (hfirst : Spends budget used first) (hsecond : Spends budget more second) :
    Spends budget (used + more) (first ++ second) where
  whole count rest := by rw [tally_append, hfirst.whole, hsecond.whole, Nat.add_assoc]
  along count rest before after heq := by
    rcases List.append_eq_append_iff.1 heq with ⟨middle, rfl, hmiddle⟩ | ⟨middle, rfl, -⟩
    · obtain ⟨inner, so, htally, hso, hinner⟩ := hsecond.along (count + used) rest middle after hmiddle
      refine ⟨inner, so, ?_, by omega, hinner⟩
      rw [tally_append, hfirst.whole, htally]
    · obtain ⟨inner, so, htally, hso, hinner⟩ := hfirst.along count rest before middle rfl
      exact ⟨inner, so, htally, by omega, hinner⟩

/-- A single event that leaves the other flows alone. -/
theorem Spends.single (h : ∀ count rest, spent (count :: rest) e = (count + used) :: rest) :
    Spends budget used [e] where
  whole := h
  along count rest before after heq := by
    cases before with
    | nil => exact ⟨[], count, rfl, Nat.le_add_right count used, by simp⟩
    | cons first before =>
      obtain ⟨rfl, hrest⟩ := List.cons.inj heq
      obtain ⟨rfl, -⟩ := List.append_eq_nil_iff.1 hrest.symm
      exact ⟨[], count + used, h count rest, le_rfl, by simp⟩

/-- A nested call counts for itself. -/
theorem Spends.nested (h : Spends budget used events) (hle : used ≤ budget) :
    Spends budget 0 (⟨.probe, .nestedStart origin input, ()⟩ :: (events ++ [⟨.probe, .nestedEnd origin raised, ()⟩])) where
  whole count rest := by
    change tally (0 :: count :: rest) (events ++ [_]) = _
    rw [tally_append, h.whole]
    rfl
  along count rest before after heq := by
    cases before with
    | nil => exact ⟨[], count, rfl, le_rfl, by simp⟩
    | cons first before =>
      rw [List.cons_append] at heq
      obtain ⟨rfl, hbody⟩ := List.cons.inj heq
      change ∃ inner so, tally (0 :: count :: rest) before = _ ∧ _
      rcases List.append_eq_append_iff.1 hbody with ⟨middle, rfl, hmiddle⟩ | ⟨middle, rfl, -⟩
      · cases middle with
        | nil =>
          refine ⟨[0 + used], count, ?_, le_rfl, by simpa using hle⟩
          rw [List.append_nil, h.whole]
          rfl
        | cons last middle =>
          obtain ⟨rfl, hnil⟩ := List.cons.inj hmiddle
          obtain ⟨rfl, -⟩ := List.append_eq_nil_iff.1 hnil.symm
          refine ⟨[], count, ?_, le_rfl, by simp⟩
          rw [tally_append, h.whole]
          rfl
      · obtain ⟨inner, so, htally, hso, hinner⟩ := h.along 0 (count :: rest) before middle rfl
        refine ⟨inner ++ [so], count, by rw [htally, List.append_assoc]; rfl, le_rfl, fun other hother => ?_⟩
        rcases List.mem_append.1 hother with hother | hother
        · exact hinner other hother
        · obtain rfl := List.mem_singleton.1 hother
          omega

theorem Spends.budgeted (h : Spends budget used events) (hle : used ≤ budget) : Budgeted budget events := by
  intro before after heq count hcount
  obtain ⟨inner, so, htally, hso, hinner⟩ := h.along 0 [] before after heq
  rw [htally] at hcount
  rcases List.mem_append.1 hcount with hcount | hcount
  · exact hinner count hcount
  · obtain rfl := List.mem_singleton.1 hcount
    omega

-- The counter

variable {executor : Executor} {budget : Nat}

def budgetOf (executor : Executor) : Option Nat := executor.decisionPolicy.bind (·.maxDecisionsPerFlow)

/-- One more decision on the counter. -/
def RunScopedState.spend (state : RunScopedState) : RunScopedState :=
  { state with decisionCount := state.decisionCount + 1 }

theorem spendDecision_runs (hbudget : executor.budgetOf = some budget)
    (h : (executor.spendDecision info).Runs state events r state') :
    state' = RunScopedState.spend state ∧ (state.decisionCount < budget ∧ events = [] ∧ r = .ok () ∨
      budget ≤ state.decisionCount ∧ ∃ e, r = .error e ∧ events = [faultEvent e]) := by
  unfold spendDecision at h
  rcases Comp.runs_bind.1 h with ⟨first, value, middle, second, rfl, hfirst, h⟩ | ⟨e, -, herror⟩
  · obtain ⟨rfl, -, rfl⟩ := Comp.runs_modify.1 hfirst
    replace h := Comp.runs_get_bind.1 h
    unfold budgetOf at hbudget
    rw [hbudget] at h
    dsimp only at h
    split at h
    next hover =>
      obtain ⟨rfl, rfl, rfl⟩ := runs_probe_throw.1 h
      exact ⟨rfl, .inr ⟨Nat.le_of_lt_succ hover, _, rfl, rfl⟩⟩
    next hunder =>
      obtain ⟨rfl, rfl, rfl⟩ := Comp.runs_pure.1 h
      exact ⟨rfl, .inl ⟨Nat.lt_of_succ_le (not_lt.1 hunder), rfl, rfl⟩⟩
  · obtain ⟨-, herror, -⟩ := Comp.runs_modify.1 herror
    cases herror

theorem askDecision_runs (h : (askDecision policy ctx).Runs state events r state') :
    state' = state ∧ (∃ answer, r = .ok answer) ∧ ∃ e, events = [e] ∧ ∀ counts, spent counts e = decided counts := by
  unfold askDecision at h
  split at h
  · obtain ⟨reply, rfl, rfl, rfl⟩ := Comp.runs_ask.1 h
    exact ⟨rfl, ⟨_, rfl⟩, _, rfl, fun _ => rfl⟩
  · rcases Comp.runs_bind.1 h with ⟨first, value, middle, second, rfl, hfirst, hsecond⟩ | ⟨e, -, herror⟩
    · obtain ⟨reply, rfl, -, rfl⟩ := Comp.runs_ask.1 hfirst
      obtain ⟨rfl, rfl, rfl⟩ := Comp.runs_pure.1 hsecond
      exact ⟨rfl, ⟨_, rfl⟩, _, rfl, fun _ => rfl⟩
    · obtain ⟨_, -, hreply, -⟩ := Comp.runs_ask.1 herror
      cases hreply

-- The budget of a run

/-- The decisions of a path are those by which the counter comes closer to the
budget. -/
def spending (budget : Nat) : Course Effects RunScopedState where
  Goes _ state events state' := ∃ used, min state.decisionCount budget + used = min state'.decisionCount budget ∧
    Spends budget used events
  stay := ⟨0, rfl, .nil⟩
  more h _ := h
  append := by
    rintro m s first middle n second s' ⟨used, hused, hfirst⟩ ⟨more, hmore, hsecond⟩
    exact ⟨used + more, by omega, hfirst.append hsecond⟩

theorem spending_idle (h : state'.decisionCount = state.decisionCount) (hevents : Spends budget 0 events) :
    (spending budget).Goes n state events state' :=
  ⟨0, by rw [h, Nat.add_zero], hevents⟩

theorem spending_ask {kind : EffectKind} {query : kind.Query} (h : quiet kind query = true) :
    (spending budget).Takes n (perform kind query) := by
  intro state events r state' hrun
  obtain ⟨reply, rfl, -, rfl⟩ := Comp.runs_ask.1 hrun
  exact spending_idle rfl (.single fun _ _ => spent_quiet h)

theorem spending_tallies (hbudget : executor.budgetOf = some budget) :
    executor.Tallies (fun _ => True) fun n (c : Exec _) => (spending budget).Takes n c where
  toGraded := (spending budget).graded
  get_bind _ hf state events r state' hrun := hf state trivial state events r state' (Comp.runs_get_bind.1 hrun)
  version activeFlowVersion state events r state' hrun := by
    obtain ⟨rfl, -, rfl⟩ := Comp.runs_modify.1 hrun
    exact spending_idle rfl .nil
  ask := spending_ask
  decide info policy ctx f hf state events r state' hrun := by
    rcases Comp.runs_bind.1 hrun with ⟨first, value, middle, second, rfl, hfirst, hasking⟩ | ⟨e, rfl, herror⟩
    · obtain ⟨rfl, ⟨hunder, rfl, -⟩ | ⟨-, e, he, -⟩⟩ := spendDecision_runs hbudget hfirst
      · have hstep : min state.decisionCount budget + 1 = min (state.decisionCount + 1) budget := by omega
        rcases Comp.runs_bind.1 hasking with ⟨asked, answer, middle, rest, rfl, hasked, hrest⟩ | ⟨e, rfl, hraised⟩
        · obtain ⟨rfl, -, e, rfl, hspent⟩ := askDecision_runs hasked
          obtain ⟨used, hused, hevents⟩ := hf answer _ _ _ _ hrest
          exact ⟨1 + used, by rw [← Nat.add_assoc, hstep]; exact hused,
            (Spends.single fun _ _ => hspent _).append hevents⟩
        · obtain ⟨-, ⟨answer, hanswer⟩, -⟩ := askDecision_runs hraised
          cases hanswer
      · cases he
    · obtain ⟨rfl, ⟨-, -, hok⟩ | ⟨hover, e, -, rfl⟩⟩ := spendDecision_runs hbudget herror
      · cases hok
      · refine ⟨0, ?_, .single fun _ _ => rfl⟩
        change min state.decisionCount budget + 0 = min (state.decisionCount + 1) budget
        omega

/-- A call in a scope of its own: it leaves the state as it is and keeps to the
budget. -/
def Whole (budget : Nat) (c : Exec α) : Prop :=
  ∀ state events r state', c.Runs state events r state' →
    state' = state ∧ ∃ used ≤ budget, Spends budget used events

theorem whole_within {enter : RunScopedState → RunScopedState} (hcopy : ∀ state, (enter state).decisionCount = 0)
    (h : (spending budget).Takes n c) : Whole budget (withScope enter c) := by
  intro state events r state' hrun
  obtain ⟨rfl, inner, hrun⟩ := Comp.runs_within.1 hrun
  obtain ⟨used, hused, hevents⟩ := h _ _ _ _ hrun
  rw [hcopy] at hused
  exact ⟨rfl, used, by omega, hevents⟩

theorem whole_refuse : Whole budget (refuse e : Exec α) := by
  intro state events r state' hrun
  obtain ⟨rfl, -, rfl⟩ := runs_probe_throw.1 hrun
  exact ⟨rfl, 0, Nat.zero_le _, .single fun _ _ => rfl⟩

theorem runs_nestedCall {body : Exec α} : (nestedCall origin input body).Runs state events r state' ↔
    ∃ inner, body.Runs state inner r state' ∧
      events = probeEvent (.nestedStart origin input) :: (inner ++ [probeEvent (.nestedEnd origin !r.isOk)]) := by
  constructor
  · intro hrun
    rcases Comp.runs_bind.1 hrun with ⟨first, _, middle, second, rfl, hfirst, hsecond⟩ | ⟨e, -, herror⟩
    · obtain ⟨_, rfl, -, rfl⟩ := Comp.runs_ask.1 hfirst
      rcases Comp.runs_bind.1 hsecond with ⟨inner, value, middle, rest, rfl, hinner, hrest⟩ | ⟨e, -, herror⟩
      · obtain ⟨outcome, hvalue, hbody⟩ := Comp.runs_attempt.1 hinner
        obtain rfl := Except.ok.inj hvalue
        rcases Comp.runs_bind.1 hrest with ⟨last, _, middle, none, rfl, hlast, hnone⟩ | ⟨e, -, herror⟩
        · obtain ⟨_, rfl, -, rfl⟩ := Comp.runs_ask.1 hlast
          cases value with
          | ok value =>
            obtain ⟨rfl, rfl, rfl⟩ := Comp.runs_pure.1 hnone
            exact ⟨inner, hbody, rfl⟩
          | error e =>
            obtain ⟨rfl, rfl, rfl⟩ := Comp.runs_throw.1 hnone
            exact ⟨inner, hbody, rfl⟩
        · obtain ⟨_, -, hreply, -⟩ := Comp.runs_ask.1 herror
          cases hreply
      · obtain ⟨_, houtcome, -⟩ := Comp.runs_attempt.1 herror
        cases houtcome
    · obtain ⟨_, -, hreply, -⟩ := Comp.runs_ask.1 herror
      cases hreply
  · rintro ⟨inner, hbody, rfl⟩
    refine Comp.runs_bind.2 (.inl ⟨[_], (), state, _, rfl, Comp.runs_ask.2 ⟨(), rfl, rfl, rfl⟩, ?_⟩)
    refine Comp.runs_bind.2 (.inl ⟨inner, r, state', [_], rfl, Comp.runs_attempt.2 ⟨r, rfl, hbody⟩, ?_⟩)
    refine Comp.runs_bind.2 (.inl ⟨[_], (), state', [], rfl, Comp.runs_ask.2 ⟨(), rfl, rfl, rfl⟩, ?_⟩)
    cases r with
    | ok value => exact Comp.runs_pure.2 ⟨rfl, rfl, rfl⟩
    | error e => exact Comp.runs_throw.2 ⟨rfl, rfl, rfl⟩

theorem apart_whole {nested : Nested} (h : ∀ flowName input cancellation,
    Whole budget (nested.executeFlow flowName input cancellation)) :
    Uncounted (fun n (c : Exec _) => (spending budget).Takes n c) nested := by
  intro origin input flowName flowInput cancellation state events r state' hrun
  obtain ⟨inner, hbody, rfl⟩ := runs_nestedCall.1 hrun
  obtain ⟨rfl, used, hle, hinner⟩ := h _ _ _ _ _ _ _ hbody
  exact spending_idle rfl (hinner.nested hle)

theorem levelPoints_drop (levels : List (List DAGFlowStep)) (count : Nat) :
    Tallies.levelPoints (levels.drop count) ≤ Tallies.levelPoints levels := by
  have happend : ∀ first second : List (List DAGFlowStep),
      Tallies.levelPoints (first ++ second) = Tallies.levelPoints first + Tallies.levelPoints second := by
    simp [Tallies.levelPoints, points]
  calc Tallies.levelPoints (levels.drop count)
    _ ≤ Tallies.levelPoints (levels.take count) + Tallies.levelPoints (levels.drop count) := Nat.le_add_left _ _
    _ = Tallies.levelPoints levels := by rw [← happend, List.take_append_drop]

theorem executeDagFlow_spends (hbudget : executor.budgetOf = some budget) {nested : Nested}
    (hn : Uncounted (fun n (c : Exec _) => (spending budget).Takes n c) nested) (flow : DAGFlow) (initialInput : Dict)
    (cancellation : Cancellation) :
    ∃ n, (spending budget).Takes n (executor.executeDagFlow nested flow initialInput cancellation) := by
  cases hlevels : computeDagLevels executor.platform.hashing flow with
  | error e =>
    refine ⟨0, (spending_tallies hbudget).executeDagFlow hn flow _ _ fun levels heq => ?_⟩
    cases hlevels.symm.trans heq
  | ok levels =>
    refine ⟨Tallies.levelPoints levels, (spending_tallies hbudget).executeDagFlow hn flow _ _ fun found heq _ _ => ?_⟩
    obtain rfl := Except.ok.inj (hlevels.symm.trans heq)
    exact levelPoints_drop _ _

theorem enterSync_decisionCount (call : Call) (state : RunScopedState) : (enterSync call state).decisionCount = 0 := by
  have hparams : ∀ state : RunScopedState,
      (withDynamicParams state call.dynamicParams).decisionCount = state.decisionCount := by
    intro state
    cases call.dynamicParams <;> rfl
  exact hparams _

theorem executeFlowWith_whole (hbudget : executor.budgetOf = some budget) {nested : Nested}
    (hn : Uncounted (fun n (c : Exec _) => (spending budget).Takes n c) nested) (flowName : String) (initialInput : Dict)
    (call : Call) : Whole budget (executor.executeFlowWith nested flowName initialInput call) := by
  have h := spending_tallies hbudget
  have hcopy := enterSync_decisionCount call
  refine whole_within hcopy (show (spending budget).Takes 0 _ from ?_)
  refine h.before (h.orRefuse _) fun flow => h.before (h.version _) fun _ => h.before (h.orRefuse _) fun _ => ?_
  refine h.before (h.orRefuse _) fun _ state events r state' hrun => ?_
  replace hrun := Comp.runs_get_bind.1 hrun
  refine h.before (h.probe rfl) (fun _ => ?_) _ _ _ _ hrun
  cases flow with
  | dag flow =>
    obtain ⟨n, hflow⟩ := executeDagFlow_spends hbudget hn flow initialInput call.cancellation
    exact hflow
  | linear flow => exact h.executeLinearFlow hn flow flowName initialInput call.cancellation

theorem lanes_apart (hbudget : executor.budgetOf = some budget) (stack : Nat) :
    Uncounted (fun n (c : Exec _) => (spending budget).Takes n c) (executor.lanes stack) := by
  induction stack with
  | zero => exact apart_whole fun _ _ _ => whole_refuse
  | succ stack ih => exact apart_whole fun _ _ _ => executeFlowWith_whole hbudget ih _ _ _

-- Runs again

/-- With the decisions counted from elsewhere. -/
def RunScopedState.counting (state : RunScopedState) (decisionCount : Nat) : RunScopedState :=
  { state with decisionCount }

/-- A path that stays within the budget can be taken with another count that leaves
room for it. -/
def Reruns (Inv : RunScopedState → Prop) (budget n : Nat) (c : Exec α) : Prop :=
  ∀ state events r state' count, Inv state → c.Runs state events r state' → state.decisionCount + n ≤ budget →
    count + n ≤ budget → Inv state' ∧ ∃ used ≤ n, state'.decisionCount = state.decisionCount + used ∧
      c.Runs (RunScopedState.counting state count) events r (RunScopedState.counting state' (count + used))

variable {Inv : RunScopedState → Prop}

theorem reruns_idle {c : Exec α} (h : ∀ state events r state', Inv state → c.Runs state events r state' →
    Inv state' ∧ state'.decisionCount = state.decisionCount ∧ ∀ count,
      c.Runs (RunScopedState.counting state count) events r (RunScopedState.counting state' count)) :
    Reruns Inv budget n c := by
  intro state events r state' count hs hrun _ _
  obtain ⟨hs', hcount, hagain⟩ := h state events r state' hs hrun
  exact ⟨hs', 0, Nat.zero_le n, hcount, hagain count⟩

theorem reruns_graded (Inv : RunScopedState → Prop) (budget : Nat) :
    Graded fun n (c : Exec _) => Reruns Inv budget n c where
  weaken h hle state events r state' count hs hrun hroom hroom' := by
    obtain ⟨hs', used, hused, hcount, hagain⟩ := h state events r state' count hs hrun (by omega) (by omega)
    exact ⟨hs', used, hused.trans hle, hcount, hagain⟩
  pure value := reruns_idle fun state events r state' hs hrun => by
    obtain ⟨rfl, rfl, rfl⟩ := Comp.runs_pure.1 hrun
    exact ⟨hs, rfl, fun count => Comp.runs_pure.2 ⟨rfl, rfl, rfl⟩⟩
  throw e := reruns_idle fun state events r state' hs hrun => by
    obtain ⟨rfl, rfl, rfl⟩ := Comp.runs_throw.1 hrun
    exact ⟨hs, rfl, fun count => Comp.runs_throw.2 ⟨rfl, rfl, rfl⟩⟩
  bind {m n _ _ _ _} hc hf state events r state' count hs hrun hroom hroom' := by
    rcases Comp.runs_bind.1 hrun with ⟨first, value, middle, second, rfl, hfirst, hsecond⟩ | ⟨e, rfl, herror⟩
    · obtain ⟨hm, used, hused, hmiddle, hagain⟩ := hc _ _ _ _ count hs hfirst (by omega) (by omega)
      obtain ⟨hs', more, hmore, hcount, hrest⟩ := hf value _ _ _ _ (count + used) hm hsecond (by omega) (by omega)
      refine ⟨hs', used + more, by omega, by omega, ?_⟩
      rw [← Nat.add_assoc]
      exact Comp.runs_bind.2 (.inl ⟨_, _, _, _, rfl, hagain, hrest⟩)
    · obtain ⟨hs', used, hused, hcount, hagain⟩ := hc _ _ _ _ count hs herror (by omega) (by omega)
      exact ⟨hs', used, by omega, hcount, Comp.runs_bind.2 (.inr ⟨e, rfl, hagain⟩)⟩
  attempt hc state events r state' count hs hrun hroom hroom' := by
    obtain ⟨outcome, rfl, hbody⟩ := Comp.runs_attempt.1 hrun
    obtain ⟨hs', used, hused, hcount, hagain⟩ := hc _ _ _ _ count hs hbody hroom hroom'
    exact ⟨hs', used, hused, hcount, Comp.runs_attempt.2 ⟨outcome, rfl, hagain⟩⟩

theorem reruns_modify {g : RunScopedState → RunScopedState} (hcount : ∀ state count,
    g (RunScopedState.counting state count) = RunScopedState.counting (g state) count)
    (hkeep : ∀ state, (g state).decisionCount = state.decisionCount) (hInv : ∀ state, Inv state → Inv (g state)) :
    Reruns Inv budget n (modify g : Exec PUnit) :=
  reruns_idle fun state events r state' hs hrun => by
    obtain ⟨rfl, rfl, rfl⟩ := Comp.runs_modify.1 hrun
    exact ⟨hInv state hs, hkeep state, fun count => Comp.runs_modify.2 ⟨rfl, rfl, (hcount state count).symm⟩⟩

theorem reruns_ask {kind : EffectKind} {query : kind.Query} : Reruns Inv budget n (perform kind query) :=
  reruns_idle fun state events r state' hs hrun => by
    obtain ⟨reply, rfl, rfl, rfl⟩ := Comp.runs_ask.1 hrun
    exact ⟨hs, rfl, fun count => Comp.runs_ask.2 ⟨reply, rfl, rfl, rfl⟩⟩

theorem reruns_spendDecision (hbudget : executor.budgetOf = some budget)
    (hInv : ∀ state activeFlowVersion decisionCount, Inv state →
      Inv { state with activeFlowVersion, decisionCount }) (info : StepInfo) :
    Reruns Inv budget 1 (executor.spendDecision info) := by
  intro state events r state' count hs hrun hroom hroom'
  obtain ⟨rfl, ⟨-, rfl, rfl⟩ | ⟨hover, -⟩⟩ := spendDecision_runs hbudget hrun
  · refine ⟨hInv state state.activeFlowVersion _ hs, 1, le_rfl, rfl, ?_⟩
    refine Comp.runs_bind.2 (.inl ⟨[], ⟨⟩, _, [], rfl, Comp.runs_modify.2 ⟨rfl, rfl, rfl⟩, ?_⟩)
    refine Comp.runs_get_bind.2 ?_
    unfold budgetOf at hbudget
    rw [hbudget]
    dsimp only
    rw [if_neg (by change ¬ budget < count + 1; omega)]
    exact Comp.runs_pure.2 ⟨rfl, rfl, rfl⟩
  · omega

theorem reruns_tallies (Inv : RunScopedState → Prop) (hbudget : executor.budgetOf = some budget)
    (hInv : ∀ state activeFlowVersion decisionCount, Inv state →
      Inv { state with activeFlowVersion, decisionCount }) :
    executor.Tallies Inv fun n (c : Exec _) => Reruns Inv budget n c where
  toGraded := reruns_graded Inv budget
  get_bind hblind hf state events r state' count hs hrun hroom hroom' := by
    replace hrun := Comp.runs_get_bind.1 hrun
    obtain ⟨hs', used, hused, hcount, hagain⟩ := hf state hs state events r state' count hs hrun hroom hroom'
    refine ⟨hs', used, hused, hcount, Comp.runs_get_bind.2 ?_⟩
    rw [show RunScopedState.counting state count = { state with decisionCount := count } from rfl, hblind]
    exact hagain
  version activeFlowVersion := reruns_modify (fun _ _ => rfl) (fun _ => rfl)
    fun state hs => hInv state activeFlowVersion state.decisionCount hs
  ask _ := reruns_ask
  decide info policy ctx f hf := by
    have h := reruns_graded Inv budget
    refine h.behind (reruns_spendDecision hbudget hInv info) fun _ => h.before ?_ hf
    unfold askDecision
    split
    · exact reruns_ask
    · exact h.before reruns_ask fun _ => h.pure _

/-- A call that neither looks at the counter nor moves it. -/
def Unmoved (c : Exec α) : Prop :=
  ∀ state events r state', c.Runs state events r state' → state' = state ∧
    ∀ count, c.Runs (RunScopedState.counting state count) events r (RunScopedState.counting state count)

theorem unmoved_within {enter : RunScopedState → RunScopedState} {body : Exec α}
    (hcopy : ∀ state count, enter (RunScopedState.counting state count) = enter state) :
    Unmoved (withScope enter body) := by
  intro state events r state' hrun
  obtain ⟨rfl, inner, hbody⟩ := Comp.runs_within.1 hrun
  exact ⟨rfl, fun count => Comp.runs_within.2 ⟨rfl, inner, (hcopy state' count).symm ▸ hbody⟩⟩

theorem unmoved_refuse : Unmoved (refuse e : Exec α) := by
  intro state events r state' hrun
  obtain ⟨rfl, rfl, rfl⟩ := runs_probe_throw.1 hrun
  exact ⟨rfl, fun count => runs_probe_throw.2 ⟨rfl, rfl, rfl⟩⟩

theorem unmoved_bind {c : Exec α} {f : α → Exec β} (hc : Unmoved c) (hf : ∀ value, Unmoved (f value)) :
    Unmoved (c >>= f) := by
  intro state events r state' hrun
  rcases Comp.runs_bind.1 hrun with ⟨first, value, middle, second, rfl, hfirst, hsecond⟩ | ⟨e, rfl, herror⟩
  · obtain ⟨rfl, hagain⟩ := hc _ _ _ _ hfirst
    obtain ⟨rfl, hrest⟩ := hf value _ _ _ _ hsecond
    exact ⟨rfl, fun count => Comp.runs_bind.2 (.inl ⟨_, _, _, _, rfl, hagain count, hrest count⟩)⟩
  · obtain ⟨rfl, hagain⟩ := hc _ _ _ _ herror
    exact ⟨rfl, fun count => Comp.runs_bind.2 (.inr ⟨e, rfl, hagain count⟩)⟩

theorem unmoved_orRefuse (x : Except Exc α) : Unmoved (orRefuse x) := by
  cases x with
  | ok value =>
    intro state events r state' hrun
    obtain ⟨rfl, rfl, rfl⟩ := Comp.runs_pure.1 hrun
    exact ⟨rfl, fun count => Comp.runs_pure.2 ⟨rfl, rfl, rfl⟩⟩
  | error e => exact unmoved_refuse

theorem unmoved_ask {kind : EffectKind} {query : kind.Query} : Unmoved (perform kind query) := by
  intro state events r state' hrun
  obtain ⟨reply, rfl, rfl, rfl⟩ := Comp.runs_ask.1 hrun
  exact ⟨rfl, fun count => Comp.runs_ask.2 ⟨reply, rfl, rfl, rfl⟩⟩

theorem executeFlowWith_unmoved (nested : Nested) (flowName : String) (initialInput : Dict) (call : Call) :
    Unmoved (executor.executeFlowWith nested flowName initialInput call) :=
  unmoved_within fun _ _ => rfl

theorem lanes_reruns (stack : Nat) : Uncounted (fun n (c : Exec _) => Reruns Inv budget n c) (executor.lanes stack) := by
  have hwhole : ∀ flowName input cancellation,
      Unmoved ((executor.lanes stack).executeFlow flowName input cancellation) := by
    cases stack with
    | zero => exact fun _ _ _ => unmoved_refuse
    | succ stack => exact fun _ _ _ => executeFlowWith_unmoved _ _ _ _
  intro origin input flowName flowInput cancellation
  refine reruns_idle fun state events r state' hs hrun => ?_
  obtain ⟨inner, hbody, rfl⟩ := runs_nestedCall.1 hrun
  obtain ⟨rfl, hagain⟩ := hwhole _ _ _ _ _ _ _ hbody
  exact ⟨hs, rfl, fun count => runs_nestedCall.2 ⟨inner, hagain count, rfl⟩⟩

-- Resumed runs

/-- The steps that a resumed run has to do and that may consult the callback. -/
def decisionsLeft (executor : Executor) (snapshot : ExecutionSnapshot) : AnyFlow → Nat
  | .linear flow => points (flow.steps.drop snapshot.completedSteps)
  | .dag flow =>
    match computeDagLevels executor.platform.hashing flow with
    | .ok levels => Tallies.levelPoints (levels.drop snapshot.completedDagLevels)
    | .error _ => 0

theorem runs_withResume {body : Exec α} : (withResume snapshot body).Runs state events r state' ↔
    ∃ inner, body.Runs { state with resumeSnapshot := some snapshot } events r inner ∧
      state' = { inner with resumeSnapshot := none } := by
  constructor
  · intro hrun
    rcases Comp.runs_bind.1 hrun with ⟨first, _, middle, second, rfl, hfirst, hsecond⟩ | ⟨e, -, herror⟩
    · obtain ⟨rfl, -, rfl⟩ := Comp.runs_modify.1 hfirst
      rcases Comp.runs_bind.1 hsecond with ⟨events, value, middle, rest, rfl, hinner, hrest⟩ | ⟨e, -, herror⟩
      · obtain ⟨outcome, hvalue, hbody⟩ := Comp.runs_attempt.1 hinner
        obtain rfl := Except.ok.inj hvalue
        rcases Comp.runs_bind.1 hrest with ⟨last, _, final, none, rfl, hlast, hnone⟩ | ⟨e, -, herror⟩
        · obtain ⟨rfl, -, rfl⟩ := Comp.runs_modify.1 hlast
          cases value with
          | ok value =>
            obtain ⟨rfl, rfl, rfl⟩ := Comp.runs_pure.1 hnone
            exact ⟨middle, by simpa using hbody, rfl⟩
          | error e =>
            obtain ⟨rfl, rfl, rfl⟩ := Comp.runs_throw.1 hnone
            exact ⟨middle, by simpa using hbody, rfl⟩
        · cases (Comp.runs_modify.1 herror).2.1
      · obtain ⟨_, houtcome, -⟩ := Comp.runs_attempt.1 herror
        cases houtcome
    · cases (Comp.runs_modify.1 herror).2.1
  · rintro ⟨inner, hbody, rfl⟩
    refine Comp.runs_bind.2 (.inl ⟨[], ⟨⟩, _, events, rfl, Comp.runs_modify.2 ⟨rfl, rfl, rfl⟩, ?_⟩)
    refine Comp.runs_bind.2 (.inl ⟨events, r, inner, [], by simp, Comp.runs_attempt.2 ⟨r, rfl, hbody⟩, ?_⟩)
    refine Comp.runs_bind.2 (.inl ⟨[], ⟨⟩, _, [], rfl, Comp.runs_modify.2 ⟨rfl, rfl, rfl⟩, ?_⟩)
    cases r with
    | ok value => exact Comp.runs_pure.2 ⟨rfl, rfl, rfl⟩
    | error e => exact Comp.runs_throw.2 ⟨rfl, rfl, rfl⟩

theorem loadSnapshot_unmoved (traceId : String) : Unmoved (executor.loadSnapshotForResume traceId) := by
  unfold loadSnapshotForResume
  split
  · exact unmoved_refuse
  refine unmoved_bind unmoved_ask fun reply => unmoved_bind (unmoved_orRefuse reply) fun loaded => ?_
  cases loaded with
  | none => exact unmoved_refuse
  | some snapshot => exact unmoved_bind (unmoved_orRefuse _) fun flow => unmoved_orRefuse (.ok (flow, snapshot))

/-- What is resumed has been loaded, and its flow is registered. -/
theorem loadSnapshot_loaded
    (h : (executor.loadSnapshotForResume traceId).Runs state events (.ok (flow, snapshot)) state') :
    (⟨.load, traceId, .ok (some snapshot)⟩ : Event) ∈ events ∧
      executor.registry.getFlow snapshot.flowName none = .ok flow := by
  unfold loadSnapshotForResume at h
  split at h
  · cases (runs_probe_throw.1 h).2.1
  rcases Comp.runs_bind.1 h with ⟨first, reply, middle, second, rfl, hfirst, hsecond⟩ | ⟨e, he, -⟩
  · obtain ⟨_, rfl, hreply, rfl⟩ := Comp.runs_ask.1 hfirst
    obtain rfl := Except.ok.inj hreply
    rcases Comp.runs_bind.1 hsecond with ⟨second, loaded, state', third, rfl, hloaded, hthird⟩ | ⟨e, he, -⟩
    · obtain ⟨rfl, rfl, rfl⟩ := runs_orRefuse_ok hloaded
      cases loaded with
      | none => cases (runs_probe_throw.1 hthird).2.1
      | some loaded =>
        rcases Comp.runs_bind.1 hthird with ⟨third, found, state', last, rfl, hfound, hlast⟩ | ⟨e, he, -⟩
        · obtain ⟨hchecked, rfl, rfl⟩ := runs_orRefuse_ok hfound
          obtain ⟨rfl, hvalue, rfl⟩ := Comp.runs_pure.1 hlast
          obtain ⟨rfl, rfl⟩ := Prod.mk.inj (Except.ok.inj hvalue)
          exact ⟨by simp, (checkSnapshot_ok hchecked).1⟩
        · cases he
    · cases he
  · cases he

theorem resumeFlow_spends (hbudget : executor.budgetOf = some budget) (stack : Nat) (traceId : String) :
    (spending budget).Takes 0 (executor.resumeFlow stack traceId) := by
  have h := spending_tallies hbudget
  have hn := lanes_apart hbudget stack
  have hload : (spending budget).Takes 0 (executor.loadSnapshotForResume traceId) := by
    unfold loadSnapshotForResume
    split
    · exact h.refuse _
    refine h.before (h.ask rfl) fun reply => h.before (h.orRefuse _) fun loaded => ?_
    cases loaded with
    | none => exact h.refuse _
    | some snapshot => exact h.before (h.orRefuse _) fun _ => h.pure _
  refine h.before hload fun loaded => ?_
  obtain ⟨flow, snapshot⟩ := loaded
  cases flow with
  | linear flow => exact h.resumeLinearFlow hn flow snapshot
  | dag flow =>
    intro state events r state' hrun
    obtain ⟨n, hflow⟩ := executeDagFlow_spends hbudget hn flow snapshot.initialInput {}
    obtain ⟨inner, hbody, rfl⟩ := runs_withResume.1 hrun
    have hgoes := hflow _ _ _ _ hbody
    exact hgoes

/-- A resumed run fares the same from another count, where both leave room for its
decisions. -/
theorem resumed_reruns (hbudget : executor.budgetOf = some budget) (stack : Nat) (flow : AnyFlow)
    (snapshot : ExecutionSnapshot) :
    Reruns (fun _ => True) budget (executor.decisionsLeft snapshot flow) (match flow with
      | .dag flow => executor.resumeDagFlow (executor.lanes stack) flow snapshot
      | .linear flow => executor.resumeLinearFlow (executor.lanes stack) flow snapshot) := by
  cases flow with
  | linear flow =>
    have h := reruns_tallies (fun _ => True) hbudget fun _ _ _ _ => trivial
    exact h.resumeLinearFlow (lanes_reruns stack) flow snapshot
  | dag flow =>
    have h := reruns_tallies (fun state => state.resumeSnapshot = some snapshot) hbudget fun _ _ _ h => h
    intro state events r state' count _ hrun hroom hroom'
    obtain ⟨inner, hbody, rfl⟩ := runs_withResume.1 hrun
    have hflow : Reruns (fun state => state.resumeSnapshot = some snapshot) budget
        (executor.decisionsLeft snapshot (.dag flow))
        (executor.executeDagFlow (executor.lanes stack) flow snapshot.initialInput {}) := by
      refine h.executeDagFlow (lanes_reruns stack) flow snapshot.initialInput {} fun levels hlevels state hstate => ?_
      simp only [decisionsLeft, hlevels, Tallies.levelsToDo, hstate]
      exact le_rfl
    obtain ⟨-, used, hused, hcount, hagain⟩ := hflow _ _ _ _ count rfl hbody hroom hroom'
    exact ⟨trivial, used, hused, hcount, runs_withResume.2 ⟨_, hagain, rfl⟩⟩

-- Sessions

structure PublicCall where
  stack : Nat
  entry : EntryPoint
  events : List Event
  outcome : Except Exc ExecutionResult

/-- Calls on an executor from one thread, each with the state it starts from. -/
inductive Session (executor : Executor) :
    RunScopedState → List (RunScopedState × PublicCall) → RunScopedState → Prop
  | nil : Session executor state [] state
  | call : (executor.enter call.stack call.entry).Runs state call.events call.outcome middle →
      Session executor middle rest state' → Session executor state ((state, call) :: rest) state'

/-- `execute_flow`, `resume_flow` and `replay_flow`. -/
def EntryPoint.Synchronous : EntryPoint → Prop
  | .execute .. => True
  | .resume .. => True
  | .replay .. => True
  | .executeAsync .. => False
  | .resumeAsync .. => False

/-- A resume finds no decisions counted, or room for those that are left to it. -/
def Room (executor : Executor) (budget : Nat) (state : RunScopedState) (call : PublicCall) : Prop :=
  match call.entry with
  | .resume _ => ∀ traceId snapshot flow, (⟨.load, traceId, .ok (some snapshot)⟩ : Event) ∈ call.events →
    executor.registry.getFlow snapshot.flowName none = .ok flow →
      state.decisionCount = 0 ∨ state.decisionCount + executor.decisionsLeft snapshot flow ≤ budget
  | _ => True

/-- The call fares as it does where no decision has been made before. -/
def Independent (executor : Executor) (state : RunScopedState) (call : PublicCall) : Prop :=
  ∃ state', (executor.enter call.stack call.entry).Runs (RunScopedState.counting state 0) call.events call.outcome state'

theorem Session.runs (h : executor.Session state calls state') (hmem : entry ∈ calls) :
    ∃ after, (executor.enter entry.2.stack entry.2.entry).Runs entry.1 entry.2.events entry.2.outcome after := by
  induction h with
  | nil => cases hmem
  | call hrun _ ih =>
    rcases List.mem_cons.1 hmem with rfl | hmem
    · exact ⟨_, hrun⟩
    · exact ih hmem

theorem Whole.after_orRefuse {x : Except Exc α} {f : α → Exec β} (h : ∀ value, Whole budget (f value)) :
    Whole budget (orRefuse x >>= f) := by
  cases x with
  | ok value => exact h value
  | error e => exact whole_refuse

theorem whole_within_whole {enter : RunScopedState → RunScopedState} (h : Whole budget c) :
    Whole budget (withScope enter c) := by
  intro state events r state' hrun
  obtain ⟨rfl, inner, hbody⟩ := Comp.runs_within.1 hrun
  exact ⟨rfl, (h _ _ _ _ hbody).2⟩

theorem replayRun_whole (hbudget : executor.budgetOf = some budget) (stack : Nat) (result : ExecutionResult)
    (resumeFromStep : Int) : Whole budget (executor.replayRun stack result resumeFromStep) := by
  have h := spending_tallies hbudget
  have hn := lanes_apart hbudget stack
  refine Whole.after_orRefuse fun flow => ?_
  split
  · exact whole_within_whole (executeFlowWith_whole hbudget hn _ _ _)
  split
  · exact whole_within_whole whole_refuse
  · exact whole_within (fun _ => rfl) (h.replayLinearFrom hn _ _ _)

theorem enter_budgeted (hbudget : executor.budgetOf = some budget) {entry : EntryPoint} (hsync : entry.Synchronous)
    (hrun : (executor.enter stack entry).Runs state events r state') : Budgeted budget events := by
  have hspends : ∃ used ≤ budget, Spends budget used events := by
    cases entry with
    | execute flowName input call =>
      exact (executeFlowWith_whole hbudget (lanes_apart hbudget stack) flowName input call _ _ _ _ hrun).2
    | resume traceId =>
      obtain ⟨used, hused, hevents⟩ := resumeFlow_spends hbudget stack traceId _ _ _ _ hrun
      exact ⟨used, by omega, hevents⟩
    | replay result resumeFromStep => exact (replayRun_whole hbudget stack result resumeFromStep _ _ _ _ hrun).2
    | executeAsync | resumeAsync => exact hsync.elim
  obtain ⟨used, hle, hevents⟩ := hspends
  exact hevents.budgeted hle

theorem replayRun_unmoved (stack : Nat) (result : ExecutionResult) (resumeFromStep : Int) :
    Unmoved (executor.replayRun stack result resumeFromStep) :=
  unmoved_bind (unmoved_orRefuse _) fun _ => unmoved_within fun _ _ => rfl

/-- A resume fares the same from another count, if both leave it room. -/
theorem resumeFlow_again (hbudget : executor.budgetOf = some budget)
    (hrun : (executor.resumeFlow stack traceId).Runs state events r state')
    (hroom : ∀ traceId snapshot flow, (⟨.load, traceId, .ok (some snapshot)⟩ : Event) ∈ events →
      executor.registry.getFlow snapshot.flowName none = .ok flow →
        state.decisionCount + executor.decisionsLeft snapshot flow ≤ budget ∧
          count + executor.decisionsLeft snapshot flow ≤ budget) :
    ∃ again, (executor.resumeFlow stack traceId).Runs (RunScopedState.counting state count) events r again := by
  rcases Comp.runs_bind.1 hrun with ⟨first, ⟨flow, snapshot⟩, middle, second, rfl, hload, hresume⟩ | ⟨e, rfl, herror⟩
  · obtain ⟨hmem, hflow⟩ := loadSnapshot_loaded hload
    obtain ⟨hleft, hright⟩ := hroom traceId snapshot flow (List.mem_append_left _ hmem) hflow
    obtain ⟨rfl, hagain⟩ := loadSnapshot_unmoved traceId _ _ _ _ hload
    obtain ⟨-, used, -, -, hrest⟩ := resumed_reruns hbudget stack flow snapshot _ _ _ _ count trivial hresume hleft hright
    exact ⟨_, Comp.runs_bind.2 (.inl ⟨_, _, _, _, rfl, hagain count, hrest⟩)⟩
  · obtain ⟨rfl, hagain⟩ := loadSnapshot_unmoved traceId _ _ _ _ herror
    exact ⟨_, Comp.runs_bind.2 (.inr ⟨e, rfl, hagain count⟩)⟩

theorem counting_self (state : RunScopedState) : RunScopedState.counting state state.decisionCount = state := rfl

theorem enter_independent (hbudget : executor.budgetOf = some budget) (hsync : call.entry.Synchronous)
    (hrun : (executor.enter call.stack call.entry).Runs state call.events call.outcome state')
    (hroom : executor.Room budget state call) : executor.Independent state call := by
  obtain ⟨stack, entry, events, outcome⟩ := call
  cases entry with
  | execute flowName input call =>
    exact ⟨_, (executeFlowWith_unmoved _ flowName input call _ _ _ _ hrun).2 0⟩
  | replay result resumeFromStep => exact ⟨_, (replayRun_unmoved stack result resumeFromStep _ _ _ _ hrun).2 0⟩
  | resume traceId =>
    by_cases hzero : state.decisionCount = 0
    · refine ⟨state', ?_⟩
      rw [← hzero, counting_self]
      exact hrun
    · refine resumeFlow_again hbudget hrun fun traceId snapshot flow hload hflow => ?_
      have hleft := (hroom traceId snapshot flow hload hflow).resolve_left hzero
      exact ⟨hleft, by omega⟩
  | executeAsync | resumeAsync => exact hsync.elim

/-- Each flow execution keeps to the budget, and a call does not depend on how many
decisions earlier calls have made, if the resumes among them find room. -/
theorem session_budgeted (executor : Executor) (hbudget : executor.budgetOf = some budget)
    (hsession : executor.Session {} calls state') (hsync : ∀ call ∈ calls, call.2.entry.Synchronous)
    (hroom : ∀ call ∈ calls, executor.Room budget call.1 call.2) :
    ∀ call ∈ calls, Budgeted budget call.2.events ∧ executor.Independent call.1 call.2 := by
  intro call hmem
  obtain ⟨after, hrun⟩ := hsession.runs hmem
  exact ⟨enter_budgeted hbudget (hsync call hmem) hrun, enter_independent hbudget (hsync call hmem) hrun (hroom call hmem)⟩

-- Two resumes on one thread

/-- A flow of one step whose tool the callback chooses. -/
def guidedFlow : Flow :=
  { name := "f", steps := [{ target := .tool "a", decisionCandidates := some ["a"], candidates_valid := by decide }] }

def guidedExecutor (budget : Nat) : Executor :=
  { Sample.executor [.linear guidedFlow] [Sample.tool "a"] with
    hasCheckpointer := true, deleteOnSuccess := false, hasDecisionCallback := true,
    decisionPolicy := some { maxDecisionsPerFlow := some budget } }

/-- The flow before its first step. -/
def guidedSnapshot : ExecutionSnapshot :=
  { snapshotVersion := "1", traceId := "s", flowName := "f", flowVersion := "0.1.0", initialInput := .empty,
    context := .empty, executionLog := [], completedSteps := 0, toolSchemaHashes := .ofList [("a", "")] }

/-- A resume of the snapshot, and the state it leaves. -/
def guidedResume (budget : Nat) (state : RunScopedState) : PublicCall × RunScopedState :=
  let ran := Interaction.Prog.exec (S := Effects) (Sample.answer Sample.named (some guidedSnapshot)) 0
    ((guidedExecutor budget).enter 1 (.resume "s") state)
  (⟨1, .resume "s", ran.1, ran.2.1.1⟩, ran.2.1.2)

theorem guidedResume_runs (budget : Nat) (state : RunScopedState) :
    ((guidedExecutor budget).enter 1 (.resume "s")).Runs state (guidedResume budget state).1.events
      (guidedResume budget state).1.outcome (guidedResume budget state).2 :=
  Interaction.Prog.exec_runs (S := Effects) (Sample.answer Sample.named (some guidedSnapshot)) 0 _

/-- The snapshot is resumed twice. -/
def guidedCalls (budget : Nat) : List (RunScopedState × PublicCall) :=
  [({}, (guidedResume budget {}).1), ((guidedResume budget {}).2, (guidedResume budget (guidedResume budget {}).2).1)]

theorem guidedSession (budget : Nat) : ∃ state', (guidedExecutor budget).Session {} (guidedCalls budget) state' :=
  ⟨_, .call (guidedResume_runs budget {}) (.call (guidedResume_runs budget (guidedResume budget {}).2) .nil)⟩

theorem guidedResume_load (h : (⟨.load, traceId, .ok (some snapshot)⟩ : Event) ∈ (guidedResume budget state).1.events) :
    snapshot = guidedSnapshot := by
  obtain ⟨_, hreply⟩ := Interaction.Prog.exec_answered (S := Effects) _ 0 _ h
  exact Option.some.inj (Except.ok.inj hreply)

theorem session_budgeted_twice :
    (Budgeted 2 (guidedResume 2 {}).1.events ∧ (guidedExecutor 2).Independent {} (guidedResume 2 {}).1) ∧
      Budgeted 2 (guidedResume 2 (guidedResume 2 {}).2).1.events ∧
        (guidedExecutor 2).Independent (guidedResume 2 {}).2 (guidedResume 2 (guidedResume 2 {}).2).1 := by
  have hcount : (guidedResume 2 {}).2.decisionCount = 1 := by decide +kernel
  have hroom : ∀ state : RunScopedState, state.decisionCount ≤ 1 →
      (guidedExecutor 2).Room 2 state (guidedResume 2 state).1 := by
    intro state hle traceId snapshot flow hload hflow
    obtain rfl := guidedResume_load hload
    obtain rfl : AnyFlow.linear guidedFlow = flow := Except.ok.inj hflow
    have hleft : (guidedExecutor 2).decisionsLeft guidedSnapshot (.linear guidedFlow) = 1 := rfl
    exact .inr (by omega)
  have hsync : ∀ call ∈ guidedCalls 2, call.2.entry.Synchronous := by
    rintro call hcall
    simp only [guidedCalls, List.mem_cons, List.not_mem_nil, or_false] at hcall
    obtain rfl | rfl := hcall <;> trivial
  have hrooms : ∀ call ∈ guidedCalls 2, (guidedExecutor 2).Room 2 call.1 call.2 := by
    rintro call hcall
    simp only [guidedCalls, List.mem_cons, List.not_mem_nil, or_false] at hcall
    obtain rfl | rfl := hcall
    · exact hroom _ (Nat.zero_le 1)
    · exact hroom _ hcount.le
  obtain ⟨state', hsession⟩ := guidedSession 2
  have h := session_budgeted (guidedExecutor 2) rfl hsession hsync hrooms
  exact ⟨h _ List.mem_cons_self, h _ (List.mem_cons_of_mem _ List.mem_cons_self)⟩

theorem second_resume_refused :
    ¬∀ (executor : Executor) (budget : Nat) (calls : List (RunScopedState × PublicCall)) (state' : RunScopedState),
      executor.budgetOf = some budget → executor.Session {} calls state' →
      (∀ call ∈ calls, call.2.entry.Synchronous) →
        ∀ call ∈ calls, Budgeted budget call.2.events ∧ executor.Independent call.1 call.2 := by
  intro h
  obtain ⟨state', hsession⟩ := guidedSession 1
  have hsync : ∀ call ∈ guidedCalls 1, call.2.entry.Synchronous := by
    rintro call hcall
    simp only [guidedCalls, List.mem_cons, List.not_mem_nil, or_false] at hcall
    obtain rfl | rfl := hcall <;> trivial
  obtain ⟨-, state'', hagain⟩ := h (guidedExecutor 1) 1 (guidedCalls 1) state' rfl hsession hsync
    ((guidedResume 1 {}).2, (guidedResume 1 (guidedResume 1 {}).2).1) (by simp [guidedCalls])
  have hanswered := Interaction.Prog.exec_answers (S := Effects) (Sample.answer Sample.named (some guidedSnapshot)) 0
    ((guidedExecutor 1).enter 1 (.resume "s") (guidedResume 1 {}).2)
  have heq := congrArg Prod.fst (hanswered.exec hagain)
  have hfresh : (guidedResume 1 (RunScopedState.counting (guidedResume 1 {}).2 0)).1.outcome.isOk = true := by
    decide +kernel
  have hspent : (guidedResume 1 (guidedResume 1 {}).2).1.outcome.isOk = false := by decide +kernel
  rw [← show (guidedResume 1 (RunScopedState.counting (guidedResume 1 {}).2 0)).1.outcome =
    (guidedResume 1 (guidedResume 1 {}).2).1.outcome from heq, hfresh] at hspent
  cases hspent

end ChainWeaver.Executor
