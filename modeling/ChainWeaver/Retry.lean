import ChainWeaver.Data.Retrying
import ChainWeaver.Step

/-!
# Retries

`_invoke_tool` hands its calls to the retryer of a library, `_invoke_tool_async` has
a loop of its own. What the calls of a tool come to is given beforehand, as is
what the library does and how long the waits are.
-/

namespace ChainWeaver

/-- What one invocation does, in its order. -/
inductive Act (δ : Type)
  | call
  | wait (delay : δ)

/-- The two holders of an invocation, and what it did so far. -/
structure Tally (δ : Type) where
  attempts : Nat := 0
  retryErrors : List String := []
  acts : List (Act δ) := []

/-- The text of a failed call. -/
def errorText : Except Exc Dict → Option String
  | .ok _ => none
  | .error e => some e.message

namespace Tally

def called (tally : Tally δ) (outcome : Except Exc Dict) : Tally δ :=
  { attempts := tally.attempts + 1, retryErrors := tally.retryErrors ++ (errorText outcome).toList,
    acts := tally.acts ++ [.call] }

def slept (delay : δ) (tally : Tally δ) : Tally δ := { tally with acts := tally.acts ++ [.wait delay] }

end Tally

/-- The delays of a retry policy: `compute_delay` of an attempt, which floating point
numbers may refuse to have, and `delay > 0`. -/
structure Backoff (δ : Type) where
  computeDelay : Nat → Except Exc δ
  positive : δ → Bool
  noDelay : δ

/-- `Retrying(...)(fn)` with `reraise`. -/
abbrev Retryer (δ : Type) :=
  Retrying.Config Exc δ → (Tally δ → Except Exc Dict × Tally δ) → Tally δ → Except Exc Dict × Tally δ

/-- What the library promises, for waits that it can make. -/
structure Documented (retryer : Retryer δ) : Prop where
  ends : ∀ (config : Retrying.Config Exc δ) call tally, 0 < config.attempts →
    (∀ n, 0 < n → n ≤ config.attempts → ∃ delay, config.wait n = .ok delay) →
      Retrying.Ends config call Tally.slept 1 tally (retryer config call tally)

namespace Executor

variable (executor : Executor) (retryer : Retryer δ) (backoff : Backoff δ) (outcomes : Nat → Except Exc Dict)

/-- `_wrapped`, and the body of the asynchronous loop: the next call of the tool. -/
def callOnce (tally : Tally δ) : Except Exc Dict × Tally δ :=
  (outcomes tally.attempts, tally.called (outcomes tally.attempts))

/-- The branch without retries. Its error is recorded with a remark where it gives
up a policy. -/
def callUnretried (tool : Tool) (policy : Option RetryPolicy) : Except Exc Dict × Tally δ :=
  match outcomes 0 with
  | .ok outputs => (.ok outputs, { attempts := 1, acts := [.call] })
  | .error e =>
    let text :=
      if policy.isSome then s!"{e.message} (retry suppressed: tool '{tool.name}' safety " ++
        "contract disallows unsafe retry under strict_safety=True)"
      else e.message
    (.error e, { attempts := 1, retryErrors := [text], acts := [.call] })

/-- `_invoke_tool`. -/
def invokeToolSync (tool : Tool) (policy : Option RetryPolicy) : Except Exc Dict × Tally δ :=
  match policy with
  | none => callUnretried outcomes tool policy
  | some settings =>
    if executor.strictSafety && retryDisallowedByContract tool then callUnretried outcomes tool policy
    else
      match executor.platform.resolveErrors settings.retryableErrors with
      | .error e => (.error e, {})
      | .ok retryable =>
        retryer
          { attempts := settings.maxRetries + 1
            wait := if 0 < settings.maxRetries then backoff.computeDelay else fun _ => .ok backoff.noDelay
            retry := retryable }
          (callOnce outcomes) {}

/-- The loop of `_invoke_tool_async`, with the attempts that are left. -/
def asyncLoop (retryable : Exc → Bool) (maxRetries : Nat) :
    Nat → Nat → Option Exc → Tally δ → Except Exc Dict × Tally δ
  | 0, _, lastExc, tally => (.error (lastExc.getD .assertion), tally)
  | left + 1, attemptNumber, _, tally =>
    match callOnce outcomes tally with
    | (.ok outputs, tally) => (.ok outputs, tally)
    | (.error e, tally) =>
      if !retryable e then (.error e, tally)
      else if maxRetries + 1 ≤ attemptNumber then (.error e, tally)
      else
        match backoff.computeDelay attemptNumber with
        | .error raised => (.error raised, tally)
        | .ok delay =>
          asyncLoop retryable maxRetries left (attemptNumber + 1) (some e)
            (if backoff.positive delay then tally.slept delay else tally)

/-- `_invoke_tool_async`. -/
def invokeToolAsync (tool : Tool) (policy : Option RetryPolicy) : Except Exc Dict × Tally δ :=
  match policy with
  | none => callUnretried outcomes tool policy
  | some settings =>
    if executor.strictSafety && retryDisallowedByContract tool then callUnretried outcomes tool policy
    else
      match executor.platform.resolveErrors settings.retryableErrors with
      | .error e => (.error e, {})
      | .ok retryable =>
        asyncLoop backoff outcomes retryable settings.maxRetries (settings.maxRetries + 1) 1 none {}

end Executor

end ChainWeaver
