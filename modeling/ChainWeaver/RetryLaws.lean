import ChainWeaver.Retry
import ChainWeaver.StepTraces
import ChainWeaver.Sample

/-!
# What retries come to

Both loops call the tool until it settles or the retries are used up. The executor's
own model of them, which keeps no waits, makes the same calls, and the record of the
step counts them.
-/

namespace ChainWeaver

open Interaction (Comp)
open Retrying (calls settles)

-- Both loops

section Spent

variable (outcomes : Nat → Except Exc Dict) (shown : δ → Bool) (delay : Nat → δ)

/-- The calls one after the other, and the delay with number `i` between call `i` and
the next one, where it is one that is waited for. -/
def actsOf (n : Nat) : List (Act δ) :=
  (List.range n).flatMap fun i => if 0 < i ∧ shown (delay i) = true then [.wait (delay i), .call] else [.call]

/-- What the first `n` calls leave. -/
def spent (n : Nat) : Tally δ :=
  { attempts := n, retryErrors := (List.range n).filterMap fun i => errorText (outcomes i),
    acts := actsOf shown delay n }

/-- What stands in front of a call: the earlier ones and the wait behind them. -/
def waited : Nat → Tally δ
  | 0 => {}
  | i + 1 =>
    if shown (delay (i + 1)) then (spent outcomes shown delay (i + 1)).slept (delay (i + 1))
    else spent outcomes shown delay (i + 1)

theorem waited_attempts (i : Nat) : (waited outcomes shown delay i).attempts = i := by
  cases i with
  | zero => rfl
  | succ i =>
    rw [waited]
    by_cases hshown : shown (delay (i + 1)) = true
    · rw [if_pos hshown]
      rfl
    · rw [if_neg hshown]
      rfl

theorem called_waited (i : Nat) :
    (waited outcomes shown delay i).called (outcomes i) = spent outcomes shown delay (i + 1) := by
  have htexts : (List.range (i + 1)).filterMap (fun i => errorText (outcomes i)) =
      ((List.range i).filterMap fun i => errorText (outcomes i)) ++ (errorText (outcomes i)).toList := by
    rw [List.range_succ, List.filterMap_append]
    cases h : errorText (outcomes i) <;> simp [h]
  rw [spent, htexts, actsOf, List.range_succ, List.flatMap_append]
  cases i with
  | zero => rfl
  | succ i =>
    rw [waited]
    by_cases hshown : shown (delay (i + 1)) = true
    · simp [hshown, Tally.called, Tally.slept, spent, actsOf]
    · simp [hshown, Tally.called, spent, actsOf]

theorem callOnce_waited (i : Nat) :
    Executor.callOnce outcomes (waited outcomes shown delay i) = (outcomes i, spent outcomes shown delay (i + 1)) := by
  rw [Executor.callOnce, waited_attempts, called_waited]

end Spent

namespace Executor

variable (executor : Executor) {δ : Type} {retryer : Retryer δ} {backoff : Backoff δ}
  {outcomes : Nat → Except Exc Dict}

/-- Where the delays of a policy can be computed, here they are. -/
def Delays (backoff : Backoff δ) (maxRetries : Nat) (delay : Nat → δ) : Prop :=
  ∀ i, 0 < i → i ≤ maxRetries + 1 → backoff.computeDelay i = .ok (delay i)

/-- What an invocation comes to: the outcome of its last call, and what the calls leave. -/
def counted (outcomes : Nat → Except Exc Dict) (shown : δ → Bool) (delay : Nat → δ) (retryable : Exc → Bool)
    (maxRetries : Nat) : Except Exc Dict × Tally δ :=
  (outcomes (calls (fun i => settles retryable (outcomes i)) maxRetries - 1),
    spent outcomes shown delay (calls (fun i => settles retryable (outcomes i)) maxRetries))

theorem counted_eq {shown : δ → Bool} {delay : Nat → δ} {retryable : Exc → Bool} {maxRetries i : Nat}
    (hle : i ≤ maxRetries) (hbefore : ∀ j < i, settles retryable (outcomes j) = false)
    (hend : settles retryable (outcomes i) = true ∨ i = maxRetries) :
    counted outcomes shown delay retryable maxRetries = (outcomes i, spent outcomes shown delay (i + 1)) := by
  rw [counted, ← Retrying.eq_calls hle hbefore hend]
  rfl

/-- The loop, from any call on that it reaches. -/
theorem asyncLoop_counted {retryable : Exc → Bool} {maxRetries : Nat} {delay : Nat → δ}
    (hdelays : Delays backoff maxRetries delay) (left i : Nat) (hleft : i + left = maxRetries)
    (hbefore : ∀ j < i, settles retryable (outcomes j) = false) (lastExc : Option Exc) :
    asyncLoop backoff outcomes retryable maxRetries (left + 1) (i + 1) lastExc
        (waited outcomes backoff.positive delay i) =
      counted outcomes backoff.positive delay retryable maxRetries := by
  induction left generalizing i lastExc with
  | zero =>
    rw [asyncLoop, callOnce_waited, counted_eq (by omega) hbefore (.inr hleft)]
    cases outcomes i with
    | ok outputs => rfl
    | error e =>
      dsimp only
      rw [if_pos (show maxRetries + 1 ≤ i + 1 by omega), ite_self]
  | succ left ih =>
    rw [asyncLoop, callOnce_waited]
    cases houtcome : outcomes i with
    | ok outputs =>
      have hend : settles retryable (outcomes i) = true := by rw [houtcome]; rfl
      rw [counted_eq (by omega) hbefore (.inl hend), houtcome]
    | error e =>
      dsimp only
      cases hretry : retryable e with
      | false =>
        have hend : settles retryable (outcomes i) = true := by rw [houtcome]; simp [settles, hretry]
        rw [counted_eq (by omega) hbefore (.inl hend), houtcome]
        rfl
      | true =>
        have hgoes : settles retryable (outcomes i) = false := by rw [houtcome]; simp [settles, hretry]
        have hnext : waited outcomes backoff.positive delay (i + 1) =
            if backoff.positive (delay (i + 1)) then (spent outcomes backoff.positive delay (i + 1)).slept (delay (i + 1))
            else spent outcomes backoff.positive delay (i + 1) := rfl
        rw [if_neg (by simp), if_neg (by omega), hdelays (i + 1) (by omega) (by omega)]
        dsimp only
        rw [← hnext]
        refine ih (i + 1) (by omega) ?_ _
        intro j hj
        rcases Nat.lt_succ_iff_lt_or_eq.1 hj with hj | rfl
        · exact hbefore j hj
        · exact hgoes

theorem invokeToolSync_counted (hdocumented : Documented retryer) {tool : Tool} {policy : RetryPolicy}
    {retryable : Exc → Bool} {delay : Nat → δ}
    (hretries : (executor.strictSafety && retryDisallowedByContract tool) = false)
    (hresolves : executor.platform.resolveErrors policy.retryableErrors = .ok retryable)
    (hdelays : Delays backoff policy.maxRetries delay) :
    executor.invokeToolSync retryer backoff outcomes tool (some policy) =
      counted outcomes (fun _ => true) delay retryable policy.maxRetries := by
  unfold invokeToolSync
  dsimp only
  rw [hretries, if_neg Bool.false_ne_true, hresolves]
  dsimp only
  have hends := hdocumented.ends
    { attempts := policy.maxRetries + 1
      wait := if 0 < policy.maxRetries then backoff.computeDelay else fun _ => .ok backoff.noDelay
      retry := retryable } (callOnce outcomes) {} (Nat.succ_pos _) ?_
  · have hcalls := hends.eq_calls outcomes (waited outcomes (fun _ => true) delay) (fun i => delay (i + 1)) rfl
      (fun i => by rw [callOnce_waited]) ?_ (fun i => by rw [callOnce_waited]; rfl) (Nat.zero_le _) (by simp)
    · rw [hcalls, callOnce_waited, Nat.sub_add_cancel Retrying.calls_pos]
      rfl
    · intro i hi
      dsimp only
      rw [if_pos (by omega)]
      exact hdelays (i + 1) (by omega) (by omega)
  · intro n hpos hle
    dsimp only at hle ⊢
    split
    · exact ⟨_, hdelays n hpos hle⟩
    · exact ⟨_, rfl⟩

theorem invokeToolAsync_counted {tool : Tool} {policy : RetryPolicy} {retryable : Exc → Bool} {delay : Nat → δ}
    (hretries : (executor.strictSafety && retryDisallowedByContract tool) = false)
    (hresolves : executor.platform.resolveErrors policy.retryableErrors = .ok retryable)
    (hdelays : Delays backoff policy.maxRetries delay) :
    executor.invokeToolAsync backoff outcomes tool (some policy) =
      counted outcomes backoff.positive delay retryable policy.maxRetries := by
  unfold invokeToolAsync
  dsimp only
  rw [hretries, if_neg Bool.false_ne_true, hresolves]
  exact asyncLoop_counted hdelays policy.maxRetries 0 (Nat.zero_add _) (by simp) none

-- The executor's invocation

variable {nested : Nested} {info : StepInfo} {step : FlowStep} {toolName : String} {tool : Tool} {inputs : Dict}
  {record : StepRecord} {state state' : RunScopedState} {events : List Event}

/-- Runs of a tool one after the other, with their outcomes. -/
inductive ToolRuns (nested : Nested) (info : StepInfo) (tool : Tool) (inputs : Dict) :
    RunScopedState → List Event → List (Except Exc Dict) → RunScopedState → Prop
  | nil {start : RunScopedState} : ToolRuns nested info tool inputs start [] [] start
  | cons {start middle final : RunScopedState} {first rest : List Event} {outcome : Except Exc Dict}
      {outcomes : List (Except Exc Dict)} :
      (executor.runTool nested info tool inputs).Runs start first (.ok outcome) middle →
      ToolRuns nested info tool inputs middle rest outcomes final →
      ToolRuns nested info tool inputs start (first ++ rest) (outcome :: outcomes) final

/-- An invocation made of these calls: the last one settles or uses up the retries, the
earlier ones do neither. -/
structure Counts (retryable : Exc → Bool) (maxRetries : Nat) (outs : List (Except Exc Dict)) (invoked : Invoked) :
    Prop where
  outcome : outs.getLast? = some invoked.outcome
  attempts : invoked.attempts = outs.length
  retryErrors : invoked.retryErrors = outs.filterMap errorText
  bounded : outs.length ≤ maxRetries + 1
  earlier : ∀ out ∈ outs.dropLast, settles retryable out = false
  last : settles retryable invoked.outcome = true ∨ outs.length = maxRetries + 1

theorem attempts_counts {retryable : Exc → Bool} {retries : Nat} {retryErrors : List String} {made : Nat}
    {invoked : Invoked}
    (h : (executor.attempts nested info tool inputs retryable retries retryErrors made).Runs state events (.ok invoked)
      state') :
    ∃ outs invoked', executor.ToolRuns nested info tool inputs state events outs state' ∧
      Counts retryable retries outs invoked' ∧
      invoked = ⟨invoked'.outcome, retryErrors ++ invoked'.retryErrors, made + invoked'.attempts⟩ := by
  have hlast : ∀ {retries outcome}, settles retryable outcome = true ∨ 1 = retries + 1 →
      Counts retryable retries [outcome] ⟨outcome, (errorText outcome).toList, 1⟩ := by
    intro retries outcome hend
    refine ⟨rfl, rfl, ?_, Nat.succ_le_succ (Nat.zero_le _), by simp, hend⟩
    cases h : errorText outcome <;> simp [h]
  induction retries generalizing retryErrors made events state with
  | zero =>
    unfold Executor.attempts at h
    rcases Comp.runs_bind.1 h with ⟨first, outcome, middle, second, rfl, hrun, hrest⟩ | ⟨_, hr, _⟩
    · cases outcome with
      | ok outputs =>
        obtain ⟨rfl, hinvoked, rfl⟩ := Comp.runs_pure.1 hrest
        cases hinvoked
        exact ⟨_, _, .cons hrun .nil, hlast (.inr rfl), by rw [errorText, Option.toList_none, List.append_nil]⟩
      | error e =>
        obtain ⟨rfl, hinvoked, rfl⟩ := Comp.runs_pure.1 hrest
        cases hinvoked
        exact ⟨_, _, .cons hrun .nil, hlast (.inr rfl), rfl⟩
    · cases hr
  | succ retries ih =>
    unfold Executor.attempts at h
    rcases Comp.runs_bind.1 h with ⟨first, outcome, middle, second, rfl, hrun, hrest⟩ | ⟨_, hr, _⟩
    · cases outcome with
      | ok outputs =>
        obtain ⟨rfl, hinvoked, rfl⟩ := Comp.runs_pure.1 hrest
        cases hinvoked
        exact ⟨_, _, .cons hrun .nil, hlast (.inl rfl), by rw [errorText, Option.toList_none, List.append_nil]⟩
      | error e =>
        dsimp only at hrest
        split at hrest
        · next hretry =>
          obtain ⟨outs, invoked', hruns, hcounts, rfl⟩ := ih hrest
          refine ⟨.error e :: outs, ⟨invoked'.outcome, e.message :: invoked'.retryErrors, invoked'.attempts + 1⟩,
            .cons hrun hruns, ?_, ?_⟩
          · have hne : outs ≠ [] := by
              rintro rfl
              cases hcounts.outcome
            refine ⟨?_, ?_, ?_, ?_, ?_, ?_⟩
            · rw [List.getLast?_cons_of_ne_nil hne]
              exact hcounts.outcome
            · rw [hcounts.attempts]
              rfl
            · rw [hcounts.retryErrors]
              rfl
            · exact Nat.succ_le_succ hcounts.bounded
            · rw [List.dropLast_cons_of_ne_nil hne]
              exact List.forall_mem_cons.2 ⟨by simp [settles, hretry], hcounts.earlier⟩
            · exact hcounts.last.imp_right fun h => by rw [List.length_cons, h]
          · rw [List.append_assoc, Nat.add_right_comm, Nat.add_assoc made]
            rfl
        · next hretry =>
          obtain ⟨rfl, hinvoked, rfl⟩ := Comp.runs_pure.1 hrest
          cases hinvoked
          exact ⟨_, _, .cons hrun .nil, hlast (.inl (by simp [settles, hretry])), rfl⟩
    · cases hr

/-- Where the policy is honoured, the executor's invocation counts. -/
theorem invokeTool_counts {policy : RetryPolicy} {retryable : Exc → Bool} {invoked : Invoked}
    (hretries : (executor.strictSafety && retryDisallowedByContract tool) = false)
    (hresolves : executor.platform.resolveErrors policy.retryableErrors = .ok retryable)
    (h : (executor.invokeTool nested info tool inputs (some policy)).Runs state events (.ok invoked) state') :
    ∃ outs, executor.ToolRuns nested info tool inputs state events outs state' ∧
      Counts retryable policy.maxRetries outs invoked := by
  unfold invokeTool at h
  dsimp only at h
  rw [hretries, if_neg Bool.false_ne_true, hresolves] at h
  obtain ⟨outs, ⟨outcome, texts, attempts⟩, hruns, hcounts, rfl⟩ := executor.attempts_counts h
  rw [List.nil_append, Nat.zero_add]
  exact ⟨outs, hruns, hcounts⟩

-- The record

/-- Whatever value a computation returns is in `Q`. -/
abbrev ReturnsIn (c : Exec α) (Q : α → Prop) : Prop :=
  (frame fun _ => True).Upholds (fun _ => True) False c Q

theorem anyTrace : Interaction.Closed fun _ : List Event => True := ⟨trivial, fun _ _ => trivial⟩

theorem returns_anything (c : Exec α) : ReturnsIn c fun _ => True :=
  fun _ _ r _ _ _ => ⟨trivial, trivial, by cases r <;> simp [Interaction.Frame.Settled]⟩

/-- The retries of a record. -/
def Retried (retryCount : Nat) (retryErrors : List String) (settled : StepRecord) : Prop :=
  settled.retryCount = retryCount ∧ settled.retryErrors = retryErrors

/-- The retries of a record, with remarks behind the errors. -/
def Remarked (retryCount : Nat) (retryErrors : List String) (settled : StepRecord) : Prop :=
  settled.retryCount = retryCount ∧ retryErrors <+: settled.retryErrors

theorem Retried.remarked {retryCount : Nat} {retryErrors : List String} {settled : StepRecord}
    (h : Retried retryCount retryErrors settled) : Remarked retryCount retryErrors settled :=
  ⟨h.1, by rw [h.2]⟩

theorem dryDispatch_retries {lane : Lane} : ReturnsIn (executor.dryDispatch lane info toolName tool inputs record)
    fun dry => ∀ settled, dry = some settled → Retried record.retryCount record.retryErrors settled := by
  unfold dryDispatch dryRunStep
  refine .get_bind fun current _ => ?_
  split
  · split
    · exact .pure anyTrace (by simp)
    · split
      · refine .bind anyTrace (returns_anything _) fun outcome _ => ?_
        cases outcome <;> exact .pure anyTrace (by rintro _ ⟨⟩; exact ⟨rfl, rfl⟩)
      · refine .get_bind fun current _ => ?_
        split <;> exact .pure anyTrace (by rintro _ ⟨⟩; exact ⟨rfl, rfl⟩)
  · exact .pure anyTrace (by simp)

theorem runFallback_retries {lane : Lane} {fallbackName : String} {retryErrors : List String} :
    ReturnsIn (executor.runFallback lane nested info toolName fallbackName inputs record retryErrors)
      (Remarked record.retryCount retryErrors) := by
  have hremarks : ∀ remarks, retryErrors <+: retryErrors ++ remarks := List.prefix_append retryErrors
  unfold runFallback
  dsimp only
  split
  · exact .pure anyTrace ⟨rfl, hremarks _⟩
  · refine .bind anyTrace (returns_anything _) fun gate _ => ?_
    split
    · exact .pure anyTrace ⟨rfl, hremarks _⟩
    · refine .bind anyTrace executor.dryDispatch_retries fun dry hdry => ?_
      cases dry with
      | some settled => exact .pure anyTrace (hdry settled rfl).remarked
      | none =>
        refine .bind anyTrace (returns_anything _) fun _ _ => .bind anyTrace (returns_anything _) fun outcome _ => ?_
        cases outcome with
        | ok outputs => exact .pure anyTrace ⟨rfl, List.prefix_refl _⟩
        | error e => exact .pure anyTrace ⟨rfl, hremarks _⟩

theorem applyOnError_retries {lane : Lane} {retryErrors : List String} {wrapped : Exc} :
    ReturnsIn (executor.applyOnError lane nested info step toolName inputs record retryErrors wrapped) fun settled =>
      Remarked record.retryCount retryErrors settled ∧
        ((∀ name, step.onError ≠ .fallback name) → settled.retryErrors = retryErrors) := by
  unfold applyOnError
  cases hpolicy : step.onError with
  | fail => exact .pure anyTrace ⟨⟨rfl, List.prefix_refl _⟩, fun _ => rfl⟩
  | skip => exact .pure anyTrace ⟨⟨rfl, List.prefix_refl _⟩, fun _ => rfl⟩
  | fallback name =>
    refine executor.runFallback_retries.post fun settled hsettled => ⟨⟨hsettled.1, ?_⟩, fun hnone => ?_⟩
    · exact (List.prefix_append _ _).trans hsettled.2
    · exact absurd rfl (hnone name)

theorem settleOutputs_retries {key : Option StepCacheKey} {outputs : Dict} :
    ReturnsIn (executor.settleOutputs info step toolName key record outputs)
      (Retried record.retryCount record.retryErrors) := by
  unfold settleOutputs
  refine .bind anyTrace (returns_anything _) fun violation _ => ?_
  cases violation with
  | some e => exact .pure anyTrace ⟨rfl, rfl⟩
  | none =>
    cases key with
    | none => exact .pure anyTrace ⟨rfl, rfl⟩
    | some key =>
      exact .bind anyTrace (returns_anything _) fun _ _ =>
        .bind anyTrace (returns_anything _) fun _ _ => .pure anyTrace ⟨rfl, rfl⟩

/-- The record of a step counts the calls of its tool and keeps their errors. A hit in
the cache calls no tool, and a fallback adds remarks of its own. -/
theorem runCached_retries {lane : Lane} {settled : StepRecord}
    (h : (executor.runCached lane nested info step toolName tool inputs record).Runs state events (.ok settled) state') :
    (∃ key output, (⟨.cacheGet, key, .ok (some output)⟩ : Event) ∈ events) ∨
      ∃ before called later start middle invoked, events = before ++ called ++ later ∧
        (executor.invokeTool nested info tool inputs step.retry).Runs start called (.ok invoked) middle ∧
        Remarked (invoked.attempts - 1) invoked.retryErrors settled ∧
        ((∀ name, step.onError ≠ .fallback name) ∨ invoked.outcome.toOption.isSome →
          settled.retryErrors = invoked.retryErrors) := by
  unfold runCached at h
  replace h := Comp.runs_get_bind.1 h
  rcases Comp.runs_bind.1 h with ⟨first, key, middle, second, rfl, hkey, hrest⟩ | ⟨_, hr, _⟩
  · rcases Comp.runs_bind.1 hrest with ⟨looked, found, start, rest, rfl, hlookup, hgo⟩ | ⟨_, hr, _⟩
    · cases found with
      | some output =>
        left
        cases key with
        | none => cases (Comp.runs_pure.1 hlookup).2.1
        | some key =>
          rcases Comp.runs_bind.1 hlookup with ⟨_, reply, _, _, rfl, hask, hraise⟩ | ⟨_, hr, _⟩
          · obtain ⟨_, rfl, hreply, -⟩ := Comp.runs_ask.1 hask
            cases hreply
            refine ⟨key, output, ?_⟩
            cases reply with
            | error e => cases (runs_probe_throw.1 hraise).2.1
            | ok found =>
              cases (Comp.runs_pure.1 hraise).2.1
              simp
          · cases hr
      | none =>
        right
        rcases Comp.runs_bind.1 hgo with ⟨called, invoked, ended, later, rfl, hinvoke, hend⟩ | ⟨_, hr, _⟩
        · refine ⟨first ++ looked, called, later, start, ended, invoked, by simp, hinvoke, ?_⟩
          dsimp only at hend
          cases houtcome : invoked.outcome with
          | error e =>
            rw [houtcome] at hend
            have hsettled := (executor.applyOnError_retries _ _ _ _ trivial hend).2.2
            exact ⟨hsettled.1, fun hnone => hsettled.2 (hnone.resolve_right (by simp [Except.toOption]))⟩
          | ok outputs =>
            rw [houtcome] at hend
            have hsettled := (executor.settleOutputs_retries _ _ _ _ trivial hend).2.2
            exact ⟨hsettled.remarked, fun _ => hsettled.2⟩
        · cases hr
    · cases hr
  · cases hr

/-- The executor gives up the retries of a tool that its contract forbids to retry. -/
def Suppresses (tool : Tool) : Prop := (executor.strictSafety && retryDisallowedByContract tool) = true

theorem callUnretried_eq (outcomes : Nat → Except Exc Dict) (tool : Tool) (policy : Option RetryPolicy) :
    ∃ texts : List String, callUnretried (δ := δ) outcomes tool policy =
        (outcomes 0, { attempts := 1, retryErrors := texts, acts := [.call] }) ∧
      ∀ e, outcomes 0 = .error e → ∃ remark, texts = [e.message ++ remark] := by
  unfold callUnretried
  cases houtcome : outcomes 0 with
  | ok outputs => exact ⟨[], rfl, by simp⟩
  | error e =>
    refine ⟨_, rfl, ?_⟩
    rintro _ ⟨⟩
    split
    · exact ⟨_, by simp [String.append_assoc, toString]; rfl⟩
    · exact ⟨"", by simp⟩

/-- What one invocation of the executor does, whatever becomes of the policy. -/
theorem invokeTool_cases {policy : RetryPolicy} {invoked : Invoked}
    (h : (executor.invokeTool nested info tool inputs (some policy)).Runs state events (.ok invoked) state') :
    ∃ outs, executor.ToolRuns nested info tool inputs state events outs state' ∧ invoked.attempts = outs.length ∧
      (executor.Suppresses tool → outs.length = 1) ∧
      (¬ executor.Suppresses tool → ∀ retryable, executor.platform.resolveErrors policy.retryableErrors = .ok retryable →
        Counts retryable policy.maxRetries outs invoked) := by
  by_cases hsuppresses : executor.Suppresses tool
  · unfold invokeTool at h
    dsimp only at h
    have hretries : (executor.strictSafety && retryDisallowedByContract tool) = true := hsuppresses
    rw [if_pos hretries] at h
    rcases Comp.runs_bind.1 h with ⟨first, outcome, middle, second, rfl, hrun, hrest⟩ | ⟨_, hr, _⟩
    · refine ⟨[outcome], ?_, ?_, fun _ => rfl, absurd hsuppresses⟩
      · cases outcome <;> obtain ⟨rfl, -, rfl⟩ := Comp.runs_pure.1 hrest <;> exact .cons hrun .nil
      · cases outcome <;> cases (Comp.runs_pure.1 hrest).2.1 <;> rfl
    · cases hr
  · have hretries := Bool.eq_false_iff.2 hsuppresses
    cases hresolves : executor.platform.resolveErrors policy.retryableErrors with
    | error e =>
      unfold invokeTool at h
      dsimp only at h
      rw [hretries, if_neg Bool.false_ne_true, hresolves] at h
      obtain ⟨rfl, hinvoked, rfl⟩ := Comp.runs_pure.1 h
      cases hinvoked
      exact ⟨[], .nil, rfl, fun h => absurd h hsuppresses, by simp⟩
    | ok retryable =>
      obtain ⟨outs, hruns, hcounts⟩ := executor.invokeTool_counts hretries hresolves h
      refine ⟨outs, hruns, hcounts.attempts, fun h => absurd h hsuppresses, ?_⟩
      rintro _ _ ⟨⟩
      exact hcounts

/-- The loop of a retryer, with the attempts that are left behind this one. -/
def retryLoop (config : Retrying.Config Exc δ) (call : Tally δ → Except Exc Dict × Tally δ) :
    Nat → Nat → Tally δ → Except Exc Dict × Tally δ
  | 0, _, tally => call tally
  | left + 1, n, tally =>
    if settles config.retry (call tally).1 then call tally
    else
      match config.wait n with
      | .error e => (.error e, (call tally).2)
      | .ok delay => retryLoop config call left (n + 1) ((call tally).2.slept delay)

def plainRetryer : Retryer δ := fun config call tally => retryLoop config call (config.attempts - 1) 1 tally

theorem plainRetryer_documented : Documented (plainRetryer (δ := δ)) := by
  refine ⟨fun config call tally hpos hwait => ?_⟩
  have hloop : ∀ left n, n + left = config.attempts → 0 < n → ∀ tally,
      Retrying.Ends config call Tally.slept n tally (retryLoop config call left n tally) := by
    intro left
    induction left with
    | zero => exact fun n hn _ tally => .stopped (by omega)
    | succ left ih =>
      intro n hn hpos tally
      rw [retryLoop]
      split
      · next hsettles => exact .settled hsettles
      · next hgoes =>
        obtain ⟨delay, hdelay⟩ := hwait n hpos (by omega)
        rw [hdelay]
        exact .again (Bool.eq_false_iff.2 hgoes) (by omega) hdelay (ih (n + 1) (by omega) (by omega) _)
  exact hloop _ 1 (by omega) Nat.one_pos tally

/-- Whole seconds, doubled from attempt to attempt. -/
def doubling : Backoff Nat :=
  { computeDelay := fun n => .ok (2 ^ (n - 1)), positive := fun delay => decide (0 < delay), noDelay := 0 }

/-- A tool that fails once. -/
def failingOnce : Nat → Except Exc Dict
  | 0 => .error (.other "ConnectionError" "reset")
  | _ + 1 => .ok .empty

def strictSample : Executor := { Sample.executor [] [] with strictSafety := true }

def charging : Tool :=
  { Sample.tool "charge" with safety := { safeToRetry := false, readOnly_eq := SideEffectLevel.readOnly_none } }

end Executor

end ChainWeaver
