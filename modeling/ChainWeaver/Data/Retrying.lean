import Mathlib.Data.List.Basic

/-!
# Retrying

A call that is made again while it fails with an error worth another try, with a
wait between two calls, until a number of attempts is used up.
-/

namespace Retrying

/-- The settings of a retryer: the number of attempts, the wait behind each of them,
and the errors that are tried again. -/
structure Config (ε δ : Type) where
  attempts : Nat
  wait : Nat → Except ε δ
  retry : ε → Bool

/-- An outcome that is not tried again. -/
def settles (retry : ε → Bool) : Except ε α → Bool
  | .ok _ => true
  | .error e => !retry e

/-- How the attempts can end from attempt `n` on: with what the last call made. -/
inductive Ends (config : Config ε δ) (call : σ → Except ε α × σ) (sleep : δ → σ → σ) :
    Nat → σ → Except ε α × σ → Prop
  | settled {n s} : settles config.retry (call s).1 = true → Ends config call sleep n s (call s)
  | stopped {n s} : config.attempts ≤ n → Ends config call sleep n s (call s)
  | again {n s delay r} : settles config.retry (call s).1 = false → n < config.attempts →
      config.wait n = .ok delay → Ends config call sleep (n + 1) (sleep delay (call s).2) r →
      Ends config call sleep n s r

/-- The number of calls: up to the first outcome that settles, and no more than one
behind the retries. -/
def calls (settled : Nat → Bool) (retries : Nat) : Nat := (List.range retries).findIdx settled + 1

section Calls

variable {settled : Nat → Bool} {retries : Nat}

theorem calls_pos : 0 < calls settled retries := Nat.succ_pos _

theorem calls_le : calls settled retries ≤ retries + 1 := by
  have hle : (List.range retries).findIdx settled ≤ (List.range retries).length := List.findIdx_le_length
  rw [List.length_range] at hle
  exact Nat.succ_le_succ hle

theorem not_settled_of_lt_calls {i : Nat} (h : i + 1 < calls settled retries) : settled i = false := by
  have hlt : i < (List.range retries).findIdx settled := Nat.lt_of_succ_lt_succ h
  simpa using List.not_of_lt_findIdx hlt

theorem settled_calls (h : calls settled retries < retries + 1) : settled (calls settled retries - 1) = true := by
  have hlt : (List.range retries).findIdx settled < (List.range retries).length := by
    rw [List.length_range]
    exact Nat.lt_of_succ_lt_succ h
  simpa [calls] using List.findIdx_getElem (w := hlt)

/-- No other number is the first to settle. -/
theorem eq_calls {n : Nat} (hle : n ≤ retries) (hbefore : ∀ i < n, settled i = false)
    (hend : settled n = true ∨ n = retries) : n + 1 = calls settled retries := by
  rcases Nat.lt_trichotomy (n + 1) (calls settled retries) with hlt | heq | hlt
  · have hnot := not_settled_of_lt_calls hlt
    rcases hend with hsettled | rfl
    · rw [hnot] at hsettled
      cases hsettled
    · exact absurd calls_le (Nat.not_le.2 hlt)
  · exact heq
  · have hpos : 0 < calls settled retries := calls_pos
    have hsettled := settled_calls (Nat.lt_of_lt_of_le hlt (Nat.succ_le_succ hle))
    rw [hbefore _ (by omega)] at hsettled
    cases hsettled

end Calls

/-- A retryer against calls whose outcomes are known beforehand: `before i` is the
state in front of call `i`. -/
theorem Ends.eq_calls {config : Config ε δ} {call : σ → Except ε α × σ} {sleep : δ → σ → σ} {retries : Nat}
    (outcomes : Nat → Except ε α) (before : Nat → σ) (delay : Nat → δ) {i : Nat} {r : Except ε α × σ}
    (h : Ends config call sleep (i + 1) (before i) r) (hattempts : config.attempts = retries + 1)
    (houtcomes : ∀ i, (call (before i)).1 = outcomes i)
    (hwait : ∀ i < retries, config.wait (i + 1) = .ok (delay i))
    (hnext : ∀ i, sleep (delay i) (call (before i)).2 = before (i + 1))
    (hle : i ≤ retries) (hbefore : ∀ j < i, settles config.retry (outcomes j) = false) :
    r = call (before (calls (fun j => settles config.retry (outcomes j)) retries - 1)) := by
  generalize hn : i + 1 = n at h
  generalize hs : before i = s at h
  induction h generalizing i with
  | settled hsettles =>
    subst hs
    rw [houtcomes] at hsettles
    rw [← Retrying.eq_calls hle hbefore (.inl hsettles)]
    rfl
  | stopped hstop =>
    subst hs hn
    have hlast : i = retries := by omega
    rw [← Retrying.eq_calls hle hbefore (.inr hlast)]
    rfl
  | again hretry hlt hdelay _ ih =>
    subst hs hn
    have hi : i < retries := by omega
    rw [hwait i hi] at hdelay
    cases hdelay
    refine ih hi ?_ rfl (hnext i).symm
    intro j hj
    rcases Nat.lt_succ_iff_lt_or_eq.1 hj with hj | rfl
    · exact hbefore j hj
    · rw [← houtcomes]
      exact hretry

end Retrying
