import ChainWeaver.Data.ListOrder
import Mathlib.Data.List.AList
import Mathlib.Data.List.Count
import Mathlib.Order.Lattice
import Mathlib.Data.Int.Order.Basic
import Mathlib.Logic.Function.Basic

/-!
# The rate limiter

`FixedWindowRateLimiter` counts the calls of a key in windows that open at its first
call. Entries of elapsed windows are evicted while other keys are served; a limiter
that keeps everything decides the same.
-/

namespace ChainWeaver.RateLimiter

/-- Readings of a clock, and the time between two of them as the subtraction of the
code has it: rounded perhaps, but never out of order. -/
structure Clock (Time Span : Type) [LinearOrder Time] [LinearOrder Span] where
  /-- `now - start`. -/
  elapsed : Time → Time → Span
  mono : ∀ {now later start}, now ≤ later → elapsed now start ≤ elapsed later start
  anti : ∀ {now start later}, start ≤ later → elapsed now later ≤ elapsed now start

variable {Time Span : Type} [LinearOrder Time] [LinearOrder Span] {clock : Clock Time Span}

/-- No rounding: a later start leaves less time. -/
def Clock.Exact (clock : Clock Time Span) : Prop :=
  ∀ {now start later}, start < later → clock.elapsed now later < clock.elapsed now start

/-- The settings, as far as `__init__` accepts them. -/
structure FixedWindowRateLimiter (clock : Clock Time Span) where
  maxCalls : Nat
  windowSeconds : Span
  perFlow : Bool := false
  maxTracked : Nat := 10000
  maxCalls_pos : 1 ≤ maxCalls
  window_pos : ∀ now, clock.elapsed now now < windowSeconds
  maxTracked_pos : 1 ≤ maxTracked

/-- One call of `acquire`, with what the clock says then. -/
structure Acquire (Time : Type) where
  caller : Option String
  flowName : String
  now : Time

abbrev Key := String × String

/-- `_hits`: when the window of a key opened, and the calls in it. -/
abbrev Hits (Time : Type) := AList fun _ : Key => Time × Nat

theorem lookup_foldl_erase {α β : Type} [DecidableEq α] (keys : List α) (entries : AList fun _ : α => β) (key : α) :
    (keys.foldl (fun entries key => entries.erase key) entries).lookup key =
      if key ∈ keys then none else entries.lookup key := by
  induction keys generalizing entries with
  | nil => simp
  | cons other rest ih =>
    rw [List.foldl_cons, ih]
    by_cases hkey : key = other
    · subst hkey
      simp
    · simp [hkey, AList.lookup_erase_ne hkey]

namespace FixedWindowRateLimiter

variable (limiter : FixedWindowRateLimiter clock)

def key (call : Acquire Time) : Key := (call.caller.getD "anonymous", if limiter.perFlow then call.flowName else "")

/-- `now - start >= self.window_seconds`. -/
def Elapsed (now start : Time) : Prop := limiter.windowSeconds ≤ clock.elapsed now start

instance (now start : Time) : Decidable (limiter.Elapsed now start) :=
  inferInstanceAs (Decidable (limiter.windowSeconds ≤ clock.elapsed now start))

def evictExpired (hits : Hits Time) (now : Time) : Hits Time :=
  let expired := (hits.entries.filter fun entry => limiter.Elapsed now entry.2.1).map Sigma.fst
  expired.foldl (fun hits key => hits.erase key) hits

/-- The window and the count a call at `now` finds. -/
def current (entry : Option (Time × Nat)) (now : Time) : Time × Nat :=
  let entry := entry.getD (now, 0)
  if limiter.Elapsed now entry.1 then (now, 0) else entry

def acquire (hits : Hits Time) (call : Acquire Time) : Bool × Hits Time :=
  let key := limiter.key call
  let entry := limiter.current (hits.lookup key) call.now
  if limiter.maxCalls ≤ entry.2 then (false, hits.insert key entry)
  else
    let hits := if key ∉ hits ∧ limiter.maxTracked ≤ hits.entries.length then limiter.evictExpired hits call.now else hits
    (true, hits.insert key (entry.1, entry.2 + 1))

/-- What a call was answered, and when the window it fell into was opened. -/
structure Verdict (Time : Type) where
  call : Acquire Time
  granted : Bool
  opened : Option Time

/-- A sequence of calls on one limiter. -/
def run (hits : Hits Time) : List (Acquire Time) → List (Verdict Time)
  | [] => []
  | call :: rest =>
    let next := limiter.acquire hits call
    ⟨call, next.1, (next.2.lookup (limiter.key call)).map Prod.fst⟩ :: run next.2 rest

-- Without eviction

/-- The limiter as it is meant: a window and a count for every key ever seen. -/
def acquireKeeping (kept : Key → Option (Time × Nat)) (call : Acquire Time) :
    Bool × (Key → Option (Time × Nat)) :=
  let key := limiter.key call
  let entry := limiter.current (kept key) call.now
  if limiter.maxCalls ≤ entry.2 then (false, Function.update kept key (some entry))
  else (true, Function.update kept key (some (entry.1, entry.2 + 1)))

def runKeeping (kept : Key → Option (Time × Nat)) : List (Acquire Time) → List (Verdict Time)
  | [] => []
  | call :: rest =>
    let next := limiter.acquireKeeping kept call
    ⟨call, next.1, (next.2 (limiter.key call)).map Prod.fst⟩ :: runKeeping next.2 rest

variable {limiter} {hits : Hits Time} {kept : Key → Option (Time × Nat)} {call : Acquire Time}
  {calls : List (Acquire Time)} {now later start : Time} {key : Key}

/-- What is stored is what a limiter without eviction stores, short of windows that
have elapsed. -/
def Evicting (limiter : FixedWindowRateLimiter clock) (hits : Hits Time) (kept : Key → Option (Time × Nat))
    (now : Time) : Prop :=
  ∀ key, hits.lookup key = kept key ∨
    hits.lookup key = none ∧ ∃ entry, kept key = some entry ∧ limiter.Elapsed now entry.1

theorem Elapsed.wait (h : limiter.Elapsed now start) (hle : now ≤ later) : limiter.Elapsed later start :=
  le_trans h (clock.mono hle)

theorem Evicting.wait (h : limiter.Evicting hits kept now) (hle : now ≤ later) : limiter.Evicting hits kept later := by
  intro key
  refine (h key).imp_right fun hgone => ?_
  obtain ⟨hnone, entry, hentry, helapsed⟩ := hgone
  exact ⟨hnone, entry, hentry, helapsed.wait hle⟩

/-- Eviction removes an entry only if its window has elapsed. -/
theorem lookup_evictExpired : (limiter.evictExpired hits now).lookup key =
    (hits.lookup key).filter fun entry => ¬limiter.Elapsed now entry.1 := by
  rw [evictExpired, lookup_foldl_erase]
  cases hlookup : hits.lookup key with
  | none => simp
  | some entry =>
    have hmem : ⟨key, entry⟩ ∈ hits.entries := AList.mem_lookup_iff.1 hlookup
    by_cases helapsed : limiter.Elapsed now entry.1
    · have hexpired : key ∈ (hits.entries.filter fun entry => limiter.Elapsed now entry.2.1).map Sigma.fst :=
        List.mem_map.2 ⟨⟨key, entry⟩, List.mem_filter.2 ⟨hmem, by simpa using helapsed⟩, rfl⟩
      rw [if_pos hexpired]
      simp [Option.filter, helapsed]
    · have hkept : key ∉ (hits.entries.filter fun entry => limiter.Elapsed now entry.2.1).map Sigma.fst := by
        intro hexpired
        obtain ⟨⟨key, other⟩, hother, rfl⟩ := List.mem_map.1 hexpired
        obtain ⟨hother, helapsed'⟩ := List.mem_filter.1 hother
        have hlookup' := AList.mem_lookup_iff.2 hother
        rw [hlookup] at hlookup'
        cases hlookup'
        exact helapsed (by simpa using helapsed')
      rw [if_neg hkept]
      simp [Option.filter, helapsed]

theorem Evicting.evict (h : limiter.Evicting hits kept now) :
    limiter.Evicting (limiter.evictExpired hits now) kept now := by
  intro key
  rw [lookup_evictExpired]
  rcases h key with hsame | ⟨hnone, hgone⟩
  · rw [hsame]
    cases hkept : kept key with
    | none => exact .inl rfl
    | some entry =>
      by_cases helapsed : limiter.Elapsed now entry.1
      · exact .inr ⟨by simp [Option.filter, helapsed], entry, rfl, helapsed⟩
      · exact .inl (by simp [Option.filter, helapsed])
  · exact .inr ⟨by simp [hnone], hgone⟩

theorem Evicting.insert (h : limiter.Evicting hits kept now) (key : Key) (entry : Time × Nat) :
    limiter.Evicting (hits.insert key entry) (Function.update kept key (some entry)) now := by
  intro other
  by_cases hkey : other = key
  · subst hkey
    simp
  · rw [AList.lookup_insert_ne hkey, Function.update_of_ne hkey]
    exact h other

theorem not_elapsed_self : ¬limiter.Elapsed now now := not_le.2 (limiter.window_pos now)

/-- An elapsed window and no window are the same to a call. -/
theorem Evicting.current (h : limiter.Evicting hits kept now) (key : Key) :
    limiter.current (hits.lookup key) now = limiter.current (kept key) now := by
  rcases h key with hsame | ⟨hnone, entry, hentry, helapsed⟩
  · rw [hsame]
  · simp [FixedWindowRateLimiter.current, hnone, hentry, helapsed, not_elapsed_self]

theorem acquire_evicting (h : limiter.Evicting hits kept call.now) :
    (limiter.acquire hits call).1 = (limiter.acquireKeeping kept call).1 ∧
      limiter.Evicting (limiter.acquire hits call).2 (limiter.acquireKeeping kept call).2 call.now ∧
      (limiter.acquire hits call).2.lookup (limiter.key call) = (limiter.acquireKeeping kept call).2 (limiter.key call) := by
  unfold acquire acquireKeeping
  simp only [h.current]
  split
  · exact ⟨rfl, h.insert _ _, by simp⟩
  · refine ⟨rfl, ?_, by simp⟩
    split
    · exact h.evict.insert _ _
    · exact h.insert _ _

theorem run_keeping (hclock : calls.Pairwise (·.now ≤ ·.now))
    (h : ∀ call ∈ calls, limiter.Evicting hits kept call.now) :
    limiter.run hits calls = limiter.runKeeping kept calls := by
  induction calls generalizing hits kept with
  | nil => rfl
  | cons call rest ih =>
    obtain ⟨hfirst, hrest⟩ := List.pairwise_cons.1 hclock
    obtain ⟨hgranted, hevicting, hlookup⟩ := acquire_evicting (h call (by simp))
    rw [run, runKeeping, hgranted, hlookup, ih hrest fun later hlater => hevicting.wait (hfirst later hlater)]

-- How much is granted

/-- A call of a key that was granted. -/
def Verdict.GrantedTo (limiter : FixedWindowRateLimiter clock) (key : Key) (verdict : Verdict Time) : Prop :=
  verdict.granted = true ∧ limiter.key verdict.call = key

instance (key : Key) (verdict : Verdict Time) : Decidable (verdict.GrantedTo limiter key) :=
  inferInstanceAs (Decidable (_ ∧ _))

theorem acquireKeeping_other (h : limiter.key call ≠ key) : (limiter.acquireKeeping kept call).2 key = kept key := by
  unfold acquireKeeping
  dsimp only
  split <;> exact Function.update_of_ne (Ne.symm h) ..

theorem Elapsed.lt (h : limiter.Elapsed now start) : start < now := by
  by_contra hle
  exact not_elapsed_self (h.wait (not_lt.1 hle))

/-- What a key can still be granted in the window that opens at `start`. -/
def left (limiter : FixedWindowRateLimiter clock) (entry : Option (Time × Nat)) (start : Time) : Nat :=
  match entry with
  | some (opened, count) =>
    if opened = start then limiter.maxCalls - count else if start < opened then 0 else limiter.maxCalls
  | none => limiter.maxCalls

/-- A call is refused in a full window, granted in one with room, or it opens one. -/
theorem acquireKeeping_cases (limiter : FixedWindowRateLimiter clock) (kept : Key → Option (Time × Nat))
    (call : Acquire Time) :
    (∃ opened count, kept (limiter.key call) = some (opened, count) ∧ ¬limiter.Elapsed call.now opened ∧
      limiter.maxCalls ≤ count ∧
      limiter.acquireKeeping kept call =
        (false, Function.update kept (limiter.key call) (some (opened, count)))) ∨
    (∃ opened count, kept (limiter.key call) = some (opened, count) ∧ ¬limiter.Elapsed call.now opened ∧
      count < limiter.maxCalls ∧
      limiter.acquireKeeping kept call =
        (true, Function.update kept (limiter.key call) (some (opened, count + 1)))) ∨
    (∀ opened count, kept (limiter.key call) = some (opened, count) → limiter.Elapsed call.now opened) ∧
      limiter.acquireKeeping kept call =
        (true, Function.update kept (limiter.key call) (some (call.now, 1))) := by
  have hpos := limiter.maxCalls_pos
  have hfull : ¬limiter.maxCalls ≤ 0 := by omega
  unfold acquireKeeping
  dsimp only
  cases hentry : kept (limiter.key call) with
  | none => exact .inr (.inr ⟨by simp, by simp [current, hfull]⟩)
  | some entry =>
    obtain ⟨opened, count⟩ := entry
    by_cases helapsed : limiter.Elapsed call.now opened
    · refine .inr (.inr ⟨fun _ _ heq => ?_, by simp [current, helapsed, hfull]⟩)
      cases heq
      exact helapsed
    · by_cases hcount : limiter.maxCalls ≤ count
      · exact .inl ⟨opened, count, rfl, helapsed, hcount, by simp [current, helapsed, hcount]⟩
      · exact .inr (.inl ⟨opened, count, rfl, helapsed, not_le.1 hcount, by simp [current, helapsed, hcount]⟩)

theorem left_acquire (limiter : FixedWindowRateLimiter clock) (call : Acquire Time)
    (kept : Key → Option (Time × Nat)) (start : Time) :
    (if (limiter.acquireKeeping kept call).1 = true ∧
        ((limiter.acquireKeeping kept call).2 (limiter.key call)).map Prod.fst = some start then 1 else 0) +
      limiter.left ((limiter.acquireKeeping kept call).2 (limiter.key call)) start ≤
      limiter.left (kept (limiter.key call)) start := by
  rcases limiter.acquireKeeping_cases kept call with
    ⟨opened, count, hentry, _, _, hnext⟩ | ⟨opened, count, hentry, _, hcount, hnext⟩ | ⟨helapsed, hnext⟩
  · simp [hnext, hentry]
  · simp only [hnext, hentry, Function.update_self, Option.map_some, Option.some.injEq, true_and, left]
    by_cases hstart : opened = start
    · simp only [hstart, if_true]
      omega
    · simp [hstart]
  · have hpos := limiter.maxCalls_pos
    simp only [hnext, Function.update_self, Option.map_some, Option.some.injEq, true_and, left]
    cases hentry : kept (limiter.key call) with
    | none =>
      dsimp only
      split_ifs <;> omega
    | some entry =>
      -- An elapsed window was opened earlier, and is never come back to.
      have hlt := (helapsed entry.1 entry.2 hentry).lt
      dsimp only
      rcases lt_trichotomy call.now start with hnow | hnow | hnow
      · simp [hnow.ne, hnow.not_gt, (hlt.trans hnow).ne, (hlt.trans hnow).not_gt]
      · subst hnow
        simp only [hlt.ne, hlt.not_gt, if_true, if_false]
        omega
      · simp [hnow.ne', hnow]

/-- In a window that a key has opened no more than `max_calls` are granted. -/
theorem runKeeping_window (limiter : FixedWindowRateLimiter clock) (kept : Key → Option (Time × Nat)) (calls : List (Acquire Time)) (key : Key) (start : Time) :
    (limiter.runKeeping kept calls).countP (fun verdict =>
      verdict.GrantedTo limiter key ∧ verdict.opened = some start) ≤
      limiter.left (kept key) start := by
  induction calls generalizing kept with
  | nil => simp [runKeeping]
  | cons call rest ih =>
    rw [runKeeping, List.countP_cons]
    have hrest := ih (limiter.acquireKeeping kept call).2
    by_cases hkey : limiter.key call = key
    · subst hkey
      have hstep := limiter.left_acquire call kept start
      have hhead : ∀ (granted : Bool) opened, (Verdict.GrantedTo limiter (limiter.key call) ⟨call, granted, opened⟩ ∧
          opened = some start) ↔ granted = true ∧ opened = some start := by simp [Verdict.GrantedTo]
      simp only [hhead, decide_eq_true_eq]
      omega
    · rw [acquireKeeping_other hkey] at hrest
      simpa [Verdict.GrantedTo, hkey] using hrest

/-- A verdict falls into a window that has not elapsed. -/
def Verdict.Inside (limiter : FixedWindowRateLimiter clock) (verdict : Verdict Time) : Prop :=
  ∃ start, verdict.opened = some start ∧ start ≤ verdict.call.now ∧ ¬limiter.Elapsed verdict.call.now start

/-- Of two verdicts for a key the later one is in the same window, or in one opened
after that had elapsed. -/
def Verdict.Follows (limiter : FixedWindowRateLimiter clock) (verdict other : Verdict Time) : Prop :=
  limiter.key verdict.call = limiter.key other.call →
    ∀ start later, verdict.opened = some start → other.opened = some later →
      start = later ∨ limiter.Elapsed later start

/-- Windows were opened before now. -/
def Opened (kept : Key → Option (Time × Nat)) (now : Time) : Prop :=
  ∀ key opened count, kept key = some (opened, count) → opened ≤ now

theorem Opened.acquire (h : Opened kept call.now) : Opened (limiter.acquireKeeping kept call).2 call.now := by
  intro key opened count hentry
  by_cases hkey : limiter.key call = key
  · subst hkey
    rcases limiter.acquireKeeping_cases kept call with
      ⟨start, _, hold, _, _, hnext⟩ | ⟨start, _, hold, _, _, hnext⟩ | ⟨_, hnext⟩
    · simp only [hnext, Function.update_self] at hentry
      cases hentry
      exact h _ _ _ hold
    · simp only [hnext, Function.update_self] at hentry
      cases hentry
      exact h _ _ _ hold
    · simp only [hnext, Function.update_self] at hentry
      cases hentry
      exact le_rfl
  · rw [acquireKeeping_other hkey] at hentry
    exact h key opened count hentry

theorem Opened.wait (h : Opened kept now) (hle : now ≤ later) : Opened kept later :=
  fun key opened count hentry => (h key opened count hentry).trans hle

theorem acquireKeeping_inside (limiter : FixedWindowRateLimiter clock) (h : Opened kept call.now) : ∃ start count,
    (limiter.acquireKeeping kept call).2 (limiter.key call) = some (start, count) ∧ start ≤ call.now ∧
      ¬limiter.Elapsed call.now start ∧
      ∀ opened count, kept (limiter.key call) = some (opened, count) → opened = start ∨ limiter.Elapsed start opened := by
  rcases limiter.acquireKeeping_cases kept call with
    ⟨start, count, hold, hinside, _, hnext⟩ | ⟨start, count, hold, hinside, _, hnext⟩ | ⟨helapsed, hnext⟩
  · exact ⟨start, count, by simp [hnext], h _ _ _ hold, hinside, fun _ _ heq => by simp_all⟩
  · exact ⟨start, count + 1, by simp [hnext], h _ _ _ hold, hinside, fun _ _ heq => by simp_all⟩
  · exact ⟨call.now, 1, by simp [hnext], le_rfl, not_elapsed_self, fun opened count heq => .inr (helapsed opened count heq)⟩

/-- What was opened stays open, or its successors open after it has elapsed. -/
theorem runKeeping_follows (hclock : calls.Pairwise (·.now ≤ ·.now)) (h : ∀ call ∈ calls, Opened kept call.now)
    (hentry : kept key = some (start, count)) :
    ∀ verdict ∈ limiter.runKeeping kept calls, limiter.key verdict.call = key →
      ∀ later, verdict.opened = some later → start = later ∨ limiter.Elapsed later start := by
  induction calls generalizing kept start count with
  | nil => simp [runKeeping]
  | cons call rest ih =>
    obtain ⟨hfirst, hrest⟩ := List.pairwise_cons.1 hclock
    have hopened := h call (by simp)
    have hnow : ∀ later ∈ rest, Opened (limiter.acquireKeeping kept call).2 later.now :=
      fun later hlater => hopened.acquire.wait (hfirst later hlater)
    rw [runKeeping]
    refine List.forall_mem_cons.2 ⟨fun hkey later hopen => ?_, fun verdict hmem hkey later hopen => ?_⟩
    · subst hkey
      obtain ⟨opened, _, hnext, _, _, hfollows⟩ := limiter.acquireKeeping_inside hopened
      simp only [hnext, Option.map_some, Option.some.injEq] at hopen
      exact hopen ▸ hfollows _ _ hentry
    · by_cases hcall : limiter.key call = key
      · subst hcall
        obtain ⟨opened, _, hnext, hle, _, hfollows⟩ := limiter.acquireKeeping_inside hopened
        have hold := hfollows _ _ hentry
        have hnew := ih hrest hnow hnext verdict hmem hkey later hopen
        rcases hold with rfl | hold
        · exact hnew
        · rcases hnew with rfl | hnew
          · exact .inr hold
          · exact .inr (le_trans hnew (clock.anti hold.lt.le))
      · have hsame : (limiter.acquireKeeping kept call).2 key = kept key := acquireKeeping_other hcall
        rw [← hsame] at hentry
        exact ih hrest hnow hentry verdict hmem hkey later hopen

theorem runKeeping_spec (limiter : FixedWindowRateLimiter clock) (hclock : calls.Pairwise (·.now ≤ ·.now)) (h : ∀ call ∈ calls, Opened kept call.now) :
    (limiter.runKeeping kept calls).Pairwise (·.Follows limiter ·) ∧
      ∀ verdict ∈ limiter.runKeeping kept calls, verdict.Inside limiter := by
  induction calls generalizing kept with
  | nil => simp [runKeeping]
  | cons call rest ih =>
    obtain ⟨hfirst, hrest⟩ := List.pairwise_cons.1 hclock
    have hopened := h call (by simp)
    have hnow : ∀ later ∈ rest, Opened (limiter.acquireKeeping kept call).2 later.now :=
      fun later hlater => hopened.acquire.wait (hfirst later hlater)
    obtain ⟨hpairwise, hinside⟩ := ih hrest hnow
    obtain ⟨opened, count, hnext, hle, hnew, _⟩ := limiter.acquireKeeping_inside hopened
    rw [runKeeping]
    refine ⟨List.pairwise_cons.2 ⟨fun verdict hmem hkey start later hstart hlater => ?_, hpairwise⟩,
      List.forall_mem_cons.2 ⟨⟨opened, by simp [hnext], hle, hnew⟩, hinside⟩⟩
    simp only [hnext, Option.map_some, Option.some.injEq] at hstart
    subst hstart
    exact runKeeping_follows hrest hnow hnext verdict hmem hkey.symm later hlater

section

variable {verdicts : List (Verdict Time)} {within : Time → Bool}

/-- No whole window fits between two calls that are both within. -/
def Close (limiter : FixedWindowRateLimiter clock) (within : Time → Bool) : Prop :=
  ∀ first now start later, within first = true → within now = true → first < start → later ≤ now →
    ¬limiter.Elapsed later start

/-- Three windows in a row would put a whole window between the first call and the last. -/
theorem Close.not_elapsed (hclose : limiter.Close within) {first last : Verdict Time} (hfirst : first.Inside limiter)
    (hlast : last.Inside limiter) (hwithin : within first.call.now = true) (hwithin' : within last.call.now = true)
    (hstart : first.opened = some start) (hstop : last.opened = some stop) (helapsed : limiter.Elapsed middle start) :
    ¬limiter.Elapsed stop middle := by
  obtain ⟨_, hopen, _, hnew⟩ := hfirst
  obtain ⟨_, hopen', hle, _⟩ := hlast
  cases hstart.symm.trans hopen
  cases hstop.symm.trans hopen'
  refine hclose _ _ middle stop hwithin hwithin' ?_ hle
  by_contra hlt
  exact hnew (helapsed.wait (not_lt.1 hlt))

theorem windows_related (h : verdicts.Pairwise (·.Follows limiter ·)) (hverdict : verdict ∈ verdicts)
    (hother : other ∈ verdicts) (hkey : verdict.GrantedTo limiter key) (hkey' : other.GrantedTo limiter key)
    (hstart : verdict.opened = some start) (hlater : other.opened = some later) (hne : start ≠ later) :
    limiter.Elapsed later start ∨ limiter.Elapsed start later := by
  have hdiffer : verdict ≠ other := by
    rintro rfl
    exact hne (Option.some.inj (hstart.symm.trans hlater))
  rcases ListOrder.pairwise_either h hverdict hother hdiffer with hbefore | hafter
  · exact .inl ((hbefore (hkey.2.trans hkey'.2.symm) _ _ hstart hlater).resolve_left hne)
  · exact .inr ((hafter (hkey'.2.trans hkey.2.symm) _ _ hlater hstart).resolve_left hne.symm)

/-- Calls that lie close together fall into two windows at most. -/
theorem two_windows (hfollows : verdicts.Pairwise (·.Follows limiter ·))
    (hinside : ∀ verdict ∈ verdicts, verdict.Inside limiter) (hclose : limiter.Close within)
    (hfirst : first ∈ verdicts) (hgranted : first.GrantedTo limiter key) (hwithin : within first.call.now = true)
    (hstart : first.opened = some start) :
    ∃ stop, ∀ verdict ∈ verdicts, verdict.GrantedTo limiter key → within verdict.call.now = true →
      verdict.opened = some start ∨ verdict.opened = some stop := by
  by_contra hno
  push Not at hno
  obtain ⟨second, hsecond, hgranted', hwithin', hne, _⟩ := hno start
  obtain ⟨stop, hstop, _, _⟩ := hinside second hsecond
  obtain ⟨third, hthird, hgranted'', hwithin'', hne', hne''⟩ := hno stop
  obtain ⟨other, hother, _, _⟩ := hinside third hthird
  rw [hstop, Ne, Option.some.injEq] at hne
  rw [hother, Ne, Option.some.injEq] at hne' hne''
  have h₁ := windows_related hfollows hfirst hsecond hgranted hgranted' hstart hstop (Ne.symm hne)
  have h₂ := windows_related hfollows hsecond hthird hgranted' hgranted'' hstop hother (Ne.symm hne'')
  have h₃ := windows_related hfollows hfirst hthird hgranted hgranted'' hstart hother (Ne.symm hne')
  -- However the three windows follow each other, there is a first and a last.
  have hin := hinside first hfirst
  have hin' := hinside second hsecond
  have hin'' := hinside third hthird
  rcases h₁ with h₁ | h₁ <;> rcases h₂ with h₂ | h₂
  · exact hclose.not_elapsed hin hin'' hwithin hwithin'' hstart hother h₁ h₂
  · rcases h₃ with h₃ | h₃
    · exact hclose.not_elapsed hin hin' hwithin hwithin' hstart hstop h₃ h₂
    · exact hclose.not_elapsed hin'' hin' hwithin'' hwithin' hother hstop h₃ h₁
  · rcases h₃ with h₃ | h₃
    · exact hclose.not_elapsed hin' hin'' hwithin' hwithin'' hstop hother h₁ h₃
    · exact hclose.not_elapsed hin' hin hwithin' hwithin hstop hstart h₂ h₃
  · exact hclose.not_elapsed hin'' hin hwithin'' hwithin hother hstart h₂ h₁

theorem granted_within (limiter : FixedWindowRateLimiter clock) (hclock : calls.Pairwise (·.now ≤ ·.now))
    (hclose : limiter.Close within) (key : Key) :
    (limiter.runKeeping (fun _ => none) calls).countP (fun verdict =>
      verdict.GrantedTo limiter key ∧ within verdict.call.now) ≤ 2 * limiter.maxCalls := by
  have hnew : ∀ call ∈ calls, Opened (fun _ => none) call.now := fun _ _ _ _ _ hentry => by cases hentry
  obtain ⟨hfollows, hinside⟩ := limiter.runKeeping_spec hclock hnew
  have hwindow := limiter.runKeeping_window (fun _ => none) calls key
  generalize limiter.runKeeping (fun _ => none) calls = verdicts at *
  by_cases hsome : ∃ verdict ∈ verdicts, verdict.GrantedTo limiter key ∧ within verdict.call.now = true
  · obtain ⟨first, hfirst, hgranted, hwithin⟩ := hsome
    obtain ⟨start, hstart, _, _⟩ := hinside first hfirst
    obtain ⟨stop, htwo⟩ := two_windows hfollows hinside hclose hfirst hgranted hwithin hstart
    calc verdicts.countP (fun verdict => verdict.GrantedTo limiter key ∧ within verdict.call.now)
        ≤ verdicts.countP (fun verdict => verdict.GrantedTo limiter key ∧ verdict.opened = some start) +
          verdicts.countP (fun verdict => verdict.GrantedTo limiter key ∧ verdict.opened = some stop) := by
          refine ListOrder.countP_le_add fun verdict hverdict hboth => ?_
          obtain ⟨hgranted, hwithin⟩ := of_decide_eq_true hboth
          simpa [hgranted] using htwo verdict hverdict hgranted hwithin
      _ ≤ limiter.maxCalls + limiter.maxCalls := Nat.add_le_add (hwindow start) (hwindow stop)
      _ = 2 * limiter.maxCalls := by omega
  · have hzero : verdicts.countP (fun verdict => verdict.GrantedTo limiter key ∧ within verdict.call.now) = 0 := by
      rw [List.countP_eq_zero]
      intro verdict hverdict
      simpa using fun hgranted hwithin => hsome ⟨verdict, hverdict, hgranted, hwithin⟩
    rw [hzero]
    exact Nat.zero_le _

end

/-- Over any calls the limiter answers as one that never evicts, grants `max_calls` in
a window that a key opens, and twice that between two times a window apart. -/
theorem rate_limited (limiter : FixedWindowRateLimiter clock) (calls : List (Acquire Time))
    (hclock : calls.Pairwise (·.now ≤ ·.now)) :
    (limiter.run ∅ calls).map (·.granted) = (limiter.runKeeping (fun _ => none) calls).map (·.granted) ∧
      (∀ key start, (limiter.run ∅ calls).countP (fun verdict =>
        verdict.GrantedTo limiter key ∧ verdict.opened = some start) ≤ limiter.maxCalls) ∧
      (∀ key first, (limiter.run ∅ calls).countP (fun verdict => verdict.GrantedTo limiter key ∧
        first ≤ verdict.call.now ∧ clock.elapsed verdict.call.now first < limiter.windowSeconds) ≤
          2 * limiter.maxCalls) ∧
      (clock.Exact → ∀ key first, (limiter.run ∅ calls).countP (fun verdict => verdict.GrantedTo limiter key ∧
        first ≤ verdict.call.now ∧ clock.elapsed verdict.call.now first ≤ limiter.windowSeconds) ≤
          2 * limiter.maxCalls) := by
  have hrun : limiter.run ∅ calls = limiter.runKeeping (fun _ => none) calls :=
    run_keeping hclock fun _ _ _ => .inl (AList.lookup_empty _)
  rw [hrun]
  refine ⟨rfl, limiter.runKeeping_window _ calls, fun key first => ?_, fun hexact key first => ?_⟩
  · have hclose : limiter.Close fun now => first ≤ now ∧ clock.elapsed now first < limiter.windowSeconds := by
      intro one now start later hone hnow hlt hle helapsed
      obtain ⟨hone, _⟩ := of_decide_eq_true hone
      obtain ⟨_, hshort⟩ := of_decide_eq_true hnow
      exact absurd hshort (not_lt.2 ((helapsed.wait hle).trans (clock.anti (hone.trans hlt.le))))
    simpa using limiter.granted_within hclock hclose key
  · have hclose : limiter.Close fun now => first ≤ now ∧ clock.elapsed now first ≤ limiter.windowSeconds := by
      intro one now start later hone hnow hlt hle helapsed
      obtain ⟨hone, _⟩ := of_decide_eq_true hone
      obtain ⟨_, hshort⟩ := of_decide_eq_true hnow
      exact absurd hshort (not_le.2 ((helapsed.wait hle).trans_lt (hexact (hone.trans_lt hlt))))
    simpa using limiter.granted_within hclock hclose key

/-- A clock that counts seconds. -/
def seconds : Clock Int Int where
  elapsed now start := now - start
  mono h := by omega
  anti h := by omega

theorem seconds_exact : seconds.Exact := fun h => by
  simp only [seconds]
  omega

theorem minute_pos (now : Int) : seconds.elapsed now now < 60 := by simp [seconds]

theorem tracked_pos : 1 ≤ 10000 := by decide

def onceAMinute : FixedWindowRateLimiter seconds where
  maxCalls := 1
  windowSeconds := 60
  maxCalls_pos := le_rfl
  window_pos := minute_pos
  maxTracked_pos := tracked_pos

/-- The second call comes in the window of the first, the third after it. -/
def threeCalls : List (Acquire Int) := [⟨none, "f", 0⟩, ⟨none, "f", 59⟩, ⟨none, "f", 61⟩]

theorem threeCalls_limited :
    (onceAMinute.run ∅ threeCalls).map (·.granted) =
      (onceAMinute.runKeeping (fun _ => none) threeCalls).map (·.granted) ∧
    (onceAMinute.run ∅ threeCalls).countP (fun verdict => verdict.GrantedTo onceAMinute ("anonymous", "") ∧
      0 ≤ verdict.call.now ∧ seconds.elapsed verdict.call.now 0 ≤ onceAMinute.windowSeconds) ≤ 2 * 1 :=
  have hlimited := rate_limited onceAMinute threeCalls (by decide)
  ⟨hlimited.1, hlimited.2.2.2 seconds_exact ("anonymous", "") 0⟩

example : (onceAMinute.run ∅ threeCalls).map (·.granted) = [true, false, true] := by decide

end FixedWindowRateLimiter

end ChainWeaver.RateLimiter
