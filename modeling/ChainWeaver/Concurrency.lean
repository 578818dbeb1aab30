import ChainWeaver.DuetCalls

/-!
# The order of concurrent steps

The steps of a level run concurrently in the asynchronous lane. Neither how many of them may be under way
at a time nor which of them moves next can be told from the result, and it does not matter which trace
ids are drawn, as long as the surroundings answer the same question alike whenever it comes.
-/

namespace ChainWeaver.Executor

def limited (executor : Executor) (limit : Nat) (h : 1 ≤ limit) : Executor :=
  { executor with maxStepConcurrency := limit, concurrency_pos := h }

/-- Runs under two limits, in the lane of the entry point. -/
def limits (executor : Executor) (answer : Answers) (limit : Nat) (h : 1 ≤ limit) (lane : Lane) : Duet :=
  { executor, answer, lanes := .both lane, limit, limit_pos := h }

/-- A run under one limit and any schedule, and one under another limit and another schedule: both raise, or
both return the same but for trace ids. -/
theorem concurrency_unobservable (executor : Executor) (limit : Nat) (h : 1 ≤ limit) (stack : Nat) (entry : EntryPoint)
    (answer : Answers) (hretries : RetriesByClass executor.platform) {s t t' : RunScopedState}
    {events events' : List Event} {r r' : Except Exc ExecutionResult}
    (hrun : (executor.enter stack entry).Runs s events r t)
    (hrun' : ((executor.limited limit h).enter stack entry).Runs s events' r' t')
    (hsteady : ∀ e ∈ events, executor.Steady answer false e) (hsteady' : ∀ e ∈ events', executor.Steady answer false e) :
    Duet.SameEnd {} r r' ∧ t = t' := by
  have hfair : (executor.limits answer limit h (Duet.laneOf entry)).Fair :=
    { retried := fun names retryable hok e e' he => hretries names retryable hok e e' he.typeName
      shareable := nofun
      whole := nofun }
  obtain ⟨hend, halike⟩ := Duet.enter_sameEnd hfair (fun _ _ _ _ _ _ hcached => absurd hcached nofun) rfl rfl rfl
    hrun hrun' hsteady hsteady'
  refine ⟨hend, ?_⟩
  obtain ⟨hversion, hdry, hunsupported, hparams, hcount, hreplay, hslot, -, -⟩ := halike
  have hreplay := hreplay rfl
  have hslot := hslot rfl
  cases t
  cases t'
  simp_all

/-- Three steps side by side, one of them a flow of its own. -/
def fanFlow : AnyFlow := .dag
  { name := "fan",
    steps := [Sample.node "a" [] (Sample.step "left"), Sample.node "b" [] (Sample.subflow "inner"),
      Sample.node "c" [] (Sample.step "right")] }

def fanExecutor : Executor :=
  Sample.executor [fanFlow, .linear { name := "inner", steps := [Sample.step "middle"] }]
    [Sample.tool "left", Sample.tool "middle", Sample.tool "right"]

/-- The sample surroundings with a schedule. -/
def scheduled (choices : List Nat) (drawn : Nat) : (kind : EffectKind) → kind.Query → kind.Reply × Nat
  | .schedule, _ => (choices, drawn)
  | kind, query => Sample.answer Sample.named none drawn kind query

/-- A run whose steps move in the given order and whose trace ids are counted from `drawn` on. -/
def fanRun (executor : Executor) (entry : EntryPoint) (choices : List Nat) (drawn : Nat) :
    List Event × (Except Exc ExecutionResult × RunScopedState) × Nat :=
  Interaction.Prog.exec (S := Effects) (scheduled choices) drawn (executor.enter 3 entry {})

theorem fanRun_runs (executor : Executor) (entry : EntryPoint) (choices : List Nat) (drawn : Nat) :
    (executor.enter 3 entry).Runs {} (fanRun executor entry choices drawn).1 (fanRun executor entry choices drawn).2.1.1
      (fanRun executor entry choices drawn).2.1.2 :=
  Interaction.Prog.exec_runs (S := Effects) _ drawn _

/-- What the sample surroundings answer at any time. -/
def sampleAnswers : Answers := fun kind query => (Sample.answer Sample.named none 0 kind query).1

theorem fanRun_steady (executor : Executor) (entry : EntryPoint) (choices : List Nat) (drawn : Nat) :
    ∀ e ∈ (fanRun executor entry choices drawn).1, fanExecutor.Steady sampleAnswers false e := by
  intro e he
  obtain ⟨now, hreply⟩ := Interaction.Prog.exec_answered (S := Effects) _ drawn _ he
  obtain ⟨kind, query, reply⟩ := e
  change reply = (scheduled choices now kind query).1 at hreply
  cases kind <;> trivial

/-- The entry point that runs the flow. -/
def fanCall : EntryPoint := .executeAsync "fan" .empty {}

/-- One run takes its steps in turn, one runs all three at once and lets the last move first. -/
theorem fan_order_unobservable :
    (fanRun fanExecutor fanCall [] 0).2.1.1.isOk = true ∧
      (fanRun fanExecutor fanCall [] 0).1.length ≠
        (fanRun (fanExecutor.limited 3 (by decide)) fanCall [2, 1, 2, 0, 1, 2] 7).1.length ∧
      Duet.SameEnd {} (fanRun fanExecutor fanCall [] 0).2.1.1
        (fanRun (fanExecutor.limited 3 (by decide)) fanCall [2, 1, 2, 0, 1, 2] 7).2.1.1 := by
  refine ⟨by decide +kernel, by decide +kernel, ?_⟩
  exact (concurrency_unobservable fanExecutor 3 (by decide) 3 fanCall sampleAnswers
    (fun names retryable h e e' _ => by cases h; rfl)
    (fanRun_runs fanExecutor fanCall [] 0) (fanRun_runs _ fanCall [2, 1, 2, 0, 1, 2] 7) (fanRun_steady _ fanCall [] 0)
    (fanRun_steady _ fanCall [2, 1, 2, 0, 1, 2] 7)).1

end ChainWeaver.Executor
