import ChainWeaver.Concurrency
import ChainWeaver.CompilerSound

/-!
# Step caches

A step cache is not seen in what a run comes to but for the flags of its records, as long as a hit is what
the tool would give for any inputs with that key.
-/

namespace ChainWeaver.Executor

open Duet

def caching (executor : Executor) (cache : Bool) : Executor := { executor with hasStepCache := cache }

/-- Runs with caches that may differ, in the lane of the entry point. -/
def caches (executor : Executor) (answer : Answers) (cache : Bool) (lane : Lane) : Duet :=
  { executor, answer, lanes := .both lane, cached := true, cache, limit_pos := executor.concurrency_pos }

/-- Which errors a step retries can be found out before it runs. -/
def RetriesResolve (executor : Executor) : Prop :=
  ∀ flowName version flow, executor.registry.getFlow flowName version = .ok flow → ∀ step ∈ flow.steps,
    ∀ policy, step.retry = some policy → ∃ retryable, executor.platform.resolveErrors policy.retryableErrors = .ok retryable

/-- A run with one cache and one with another, or with none. -/
theorem cache_transparent (executor : Executor) (cache : Bool) (stack : Nat) (entry : EntryPoint) (answer : Answers)
    (hshare : Shareable executor) (hretries : RetriesByClass executor.platform) (hresolve : executor.RetriesResolve)
    {s t t' : RunScopedState} {events events' : List Event} {r r' : Except Exc ExecutionResult}
    (hrun : (executor.enter stack entry).Runs s events r t)
    (hrun' : ((executor.caching cache).enter stack entry).Runs s events' r' t')
    (hsteady : ∀ e ∈ events, executor.Steady answer true e) (hsteady' : ∀ e ∈ events', executor.Steady answer true e) :
    SameEnd { cached := true } r r' := by
  have hfair : (executor.caches answer cache (laneOf entry)).Fair :=
    { retried := fun names retryable hok e e' he => hretries names retryable hok e e' he.typeName
      shareable := fun _ => hshare
      whole := nofun }
  exact (enter_sameEnd hfair (fun _ _ flow hflow step hstep _ => hresolve _ _ flow hflow step hstep) rfl rfl rfl
    hrun hrun' hsteady hsteady').1

def cachedExecutor : Executor :=
  { Sample.executor [.linear { name := "f", steps := [Sample.step "a"] }] [Sample.tool "a"] with hasStepCache := true }

/-- The sample surroundings with a store that has the outputs of each tool. -/
def hitting (drawn : Nat) : (kind : EffectKind) → kind.Query → kind.Reply × Nat
  | .cacheGet, key => (.ok (some (.ofList [(key.toolName, .int 1)])), drawn)
  | kind, query => Sample.answer Sample.named none drawn kind query

def hitRun (executor : Executor) : List Event × (Except Exc ExecutionResult × RunScopedState) × Nat :=
  Interaction.Prog.exec (S := Effects) hitting 0 (executor.enter 0 (.execute "f" .empty {}) {})

theorem cachedExecutor_tool {name : String} {tool : Tool} (h : cachedExecutor.getTool name = .ok tool) :
    name = "a" ∧ tool = Sample.tool "a" := by
  have hmem : (name, tool) ∈ [("a", Sample.tool "a")] := OrderedDict.get?_eq_some_iff.1 (getTool_iff.1 h)
  simpa using hmem

theorem hitRun_steady (executor : Executor) : ∀ e ∈ (hitRun executor).1, cachedExecutor.Steady sampleAnswers true e := by
  intro e he
  obtain ⟨now, hreply⟩ := Interaction.Prog.exec_answered (S := Effects) _ 0 _ he
  obtain ⟨kind, query, reply⟩ := e
  change reply = (hitting now kind query).1 at hreply
  subst hreply
  cases kind with
  | cacheGet =>
    refine ⟨_, rfl, fun outputs houtputs tool validated hkeyed => ?_⟩
    obtain rfl := Option.some.inj houtputs
    obtain ⟨hname, rfl⟩ := cachedExecutor_tool hkeyed.1
    change _ = Except.ok (OrderedDict.ofList [(query.toolName, Value.int 1)])
    rw [hname]
    rfl
  | _ => trivial

theorem cachedExecutor_shareable : Shareable cachedExecutor where
  filed := fun name tool h => by obtain ⟨rfl, rfl⟩ := cachedExecutor_tool h; rfl
  direct := fun name tool h _ flowName toolName stepCount heq => by obtain ⟨rfl, rfl⟩ := cachedExecutor_tool h; cases heq
  refused := fun name tool inputs e _ _ herror => by cases inputs <;> cases herror <;> rfl
  hashed := fun _ _ _ _ _ _ _ => ⟨"", rfl⟩

/-- The run with the store calls no tool, and comes to what the run without it comes to. -/
theorem hit_transparent :
    (hitRun cachedExecutor).1.length < (hitRun (cachedExecutor.caching false)).1.length ∧
      (hitRun cachedExecutor).2.1.1.isOk = true ∧
      SameEnd { cached := true } (hitRun cachedExecutor).2.1.1 (hitRun (cachedExecutor.caching false)).2.1.1 := by
  refine ⟨by decide +kernel, by decide +kernel, ?_⟩
  exact cache_transparent cachedExecutor false 0 (.execute "f" .empty {}) sampleAnswers cachedExecutor_shareable
    (fun names retryable h e e' _ => by cases h; rfl) (fun _ _ _ _ _ _ policy _ => ⟨_, rfl⟩)
    (Interaction.Prog.exec_runs (S := Effects) hitting 0 _) (Interaction.Prog.exec_runs (S := Effects) hitting 0 _)
    (hitRun_steady _) (hitRun_steady _)

end ChainWeaver.Executor
