import ChainWeaver.Entry
import ChainWeaver.Interaction.Accord
import ChainWeaver.Kin

/-!
# Two runs side by side

One executor, and the same with another cache or another concurrency limit, each in a lane of its
own. Both ask surroundings that give one answer to one question whenever and in whatever run it
comes; only trace ids are drawn afresh, and a cache may hold what the tools would give anyway.
-/

namespace ChainWeaver.Executor

open Interaction (Accord Always Comp Met Never)

-- Surroundings

/-- The part of a question that its answer may depend on: no trace id, no step id, and not where in a
flow a tool is called. -/
def blind : (kind : EffectKind) → kind.Query → kind.Query
  | .callTool, invocation => { invocation with traceId := "", stepIndex := 0 }
  | .runDry, invocation => { invocation with traceId := "", stepIndex := 0 }
  | .stream, invocation => { invocation with traceId := "", stepIndex := 0 }
  | .decide, ctx => { ctx with traceId := "", stepId := none }
  | .decideTimed, ctx => { ctx with traceId := "", stepId := none }
  | .approve, ctx => { ctx with traceId := "", stepId := none }
  | .check, ctx => { ctx with traceId := "", stepId := none }
  | .save, snapshot => { snapshot with traceId := "", executionLog := [] }
  | .delete, _ => ""
  | _, query => query

abbrev Answers := (kind : EffectKind) → kind.Query → kind.Reply

variable (executor : Executor) (answer : Answers)

/-- What a tool gives for validated inputs, its outputs validated; a tool that wraps a flow has no
answer of its own. -/
def directOutcome (tool : Tool) (validated : Dict) : Except Exc Dict :=
  let invocation : Invocation := { traceId := "", stepIndex := 0, tool, validated }
  match tool.fn with
  | .callable => (answer .callTool invocation).bind (executor.validateOutput tool)
  | .stream =>
    (drain tool.name (answer .stream invocation).2 (answer .stream invocation).1 none).bind (executor.validateOutput tool)
  | .flow _ _ _ => .error .assertion

/-- The key under which a tool's outputs for validated inputs are stored. -/
def Keyed (key : StepCacheKey) (tool : Tool) (validated : Dict) : Prop :=
  executor.getTool key.toolName = .ok tool ∧ tool.schemaHash = key.schemaHash ∧
    executor.platform.inputValueHash tool.inputSchema validated = .ok key.inputValueHash

/-- Whichever tool and inputs have the key, their outputs are these. -/
def Genuine (key : StepCacheKey) (outputs : Dict) : Prop :=
  ∀ tool validated, executor.Keyed key tool validated → executor.directOutcome answer tool validated = .ok outputs

/-- What the surroundings reply. With caches that may differ, a hit is genuine and storing works. -/
def Replies (cached : Bool) : (kind : EffectKind) → kind.Query → kind.Reply → Prop
  | .newTraceId, _, _ => True
  | .schedule, _, _ => True
  | .cacheGet, key, reply =>
    if cached then ∃ hit, reply = .ok hit ∧ ∀ outputs ∈ hit, executor.Genuine answer key outputs
    else reply = answer .cacheGet key
  | .cacheSet, query, reply => if cached then reply = .ok () else reply = answer .cacheSet query
  | kind, query, reply => reply = answer kind (blind kind query)

def Steady (cached : Bool) (e : Event) : Prop := executor.Replies answer cached e.kind e.query e.reply

end ChainWeaver.Executor

namespace ChainWeaver

open Interaction (Accord Comp Never)

-- Duets

/-- One lane for both sides, or the synchronous lane and the asynchronous one. -/
inductive Lanes
  | both (lane : Lane)
  | across
  deriving DecidableEq

/-- What the two sides are, and by what they are compared. -/
structure Duet where
  executor : Executor
  answer : Executor.Answers
  lanes : Lanes
  /-- Caches may differ, and whether they are looked at. -/
  cached : Bool := false
  cache : Bool := false
  limit : Nat := executor.maxStepConcurrency
  limit_pos : 1 ≤ limit
  /-- The resume slots are the same. -/
  slot : Bool := true
  /-- Errors are compared too. -/
  strict : Bool := false

namespace Duet

variable (P : Duet)

/-- The executor of the second side. -/
def other : Executor :=
  { P.executor with
    hasStepCache := if P.cached then P.cache else P.executor.hasStepCache,
    maxStepConcurrency := P.limit, concurrency_pos := P.limit_pos }

def lane : Lane :=
  match P.lanes with
  | .both lane => lane
  | .across => .sync

def lane' : Lane :=
  match P.lanes with
  | .both lane => lane
  | .across => .async

def apart : Bool := P.lanes = .across

def marks : Marks := { cached := P.cached, lanes := P.apart }

def errors (e e' : Exc) : Prop := P.strict = true → e.Kin P.marks e'

structure Alike (state state' : RunScopedState) : Prop where
  activeFlowVersion : state.activeFlowVersion = state'.activeFlowVersion
  dryRun : state.dryRun = state'.dryRun
  dryRunUnsupported : state.dryRunUnsupported = state'.dryRunUnsupported
  dynamicParams : state.dynamicParams = state'.dynamicParams
  decisionCount : state.decisionCount = state'.decisionCount
  inReplay : P.cached = false → state.inReplay = state'.inReplay
  resumeSnapshot : P.slot = true → state.resumeSnapshot = state'.resumeSnapshot
  /-- Only the synchronous lane knows dry runs. -/
  wet : P.apart = true → state.dryRun = false
  /-- The lanes count the steps of a resumed run in different ways. -/
  fresh : P.apart = true → state.resumeSnapshot = none ∧ state'.resumeSnapshot = none

def accord : Accord Effects RunScopedState where
  left := P.executor.Steady P.answer P.cached
  right := P.executor.Steady P.answer P.cached
  state := P.Alike

abbrev Settles (D : α → Prop) (c : Exec α) (c' : Exec β) (V : α → β → Prop) : Prop :=
  P.accord.Settles P.errors D c c' V

/-- The synchronous lane on both sides, as the tools that wrap flows call it. -/
def sync : Duet := { P with lanes := .both .sync, strict := true }

/-- What makes it safe to share outputs of tools. -/
structure Shareable (executor : Executor) : Prop where
  filed : ∀ name tool, executor.getTool name = .ok tool → tool.name = name
  direct : ∀ name tool, executor.getTool name = .ok tool → tool.cacheable = true →
    ∀ flowName toolName stepCount, tool.fn ≠ .flow flowName toolName stepCount
  refused : ∀ name tool inputs e, executor.getTool name = .ok tool → tool.cacheable = true →
    executor.platform.modelValidate tool.inputSchema inputs = .error e → e.isValidation = true
  hashed : ∀ name tool inputs validated, executor.getTool name = .ok tool → tool.cacheable = true →
    executor.platform.modelValidate tool.inputSchema inputs = .ok validated →
    ∃ hash, executor.platform.inputValueHash tool.inputSchema validated = .ok hash

/-- A step whose outputs may come from a cache has a retry policy that resolves. -/
def Resolves (step : FlowStep) : Prop :=
  P.cached = true → ∀ policy, step.retry = some policy →
    ∃ retryable, P.executor.platform.resolveErrors policy.retryableErrors = .ok retryable

/-- What a duet takes from its executor. -/
structure Fair : Prop where
  /-- Which errors are retried goes by their class. -/
  retried : ∀ names retryable, P.executor.platform.resolveErrors names = .ok retryable →
    ∀ e e', e.Kin P.sync.marks e' → retryable e = retryable e'
  shareable : P.cached = true → Shareable P.executor
  /-- The asynchronous lane handles the chunks of a stream one by one. -/
  whole : P.apart = true → ∀ name tool, P.executor.getTool name = .ok tool → tool.isStreaming = false

variable {P} {D : α → Prop}

theorem lane_eq (h : P.apart = false) : P.lane' = P.lane := by
  unfold apart at h
  unfold lane lane'
  split <;> simp_all

theorem lane_sync (h : P.apart = true) : P.lane = .sync := by
  simp [apart] at h
  simp [lane, h]

theorem lane'_async (h : P.apart = true) : P.lane' = .async := by
  simp [apart] at h
  simp [lane', h]

theorem lane_both {lane : Lane} (h : P.lanes = .both lane) : P.lane = lane := by simp [Duet.lane, h]

theorem lane'_both {lane : Lane} (h : P.lanes = .both lane) : P.lane' = lane := by simp [Duet.lane', h]

theorem errors_same (e : Exc) : P.errors e e := fun _ => .same e

-- Questions

theorem settles_perform {kind : EffectKind} {query query' : kind.Query} {D : kind.Reply → Prop}
    (hreply : ∀ query reply, P.executor.Replies P.answer P.cached kind query reply →
      reply = P.answer kind (Executor.blind kind query))
    (h : Executor.blind kind query = Executor.blind kind query') :
    P.Settles D (perform kind query) (perform kind query') Eq := by
  refine Accord.Settles.ask (S := Effects) (V := Eq) fun reply reply' hleft hright => ?_
  rw [hreply query reply hleft, hreply query' reply' hright, h]

/-- Questions whose replies are not compared. -/
theorem settles_ask {kind : EffectKind} {query query' : kind.Query} {V : kind.Reply → kind.Reply → Prop}
    {D : kind.Reply → Prop} (h : ∀ reply reply', V reply reply') :
    P.Settles D (perform kind query) (perform kind query') V := by
  refine Accord.Settles.ask (S := Effects) (V := V) fun reply reply' _ _ => ?_
  exact h reply reply'

theorem settles_fire {hook hook' : Hook} {D : Unit → Prop} : P.Settles D (fire hook) (fire hook') Eq :=
  @settles_ask P .hook hook hook' Eq D fun _ _ => rfl

theorem settles_probe {mark mark' : Probe} {D : Unit → Prop} : P.Settles D (probe mark) (probe mark') Eq :=
  @settles_ask P .probe mark mark' Eq D fun _ _ => rfl

theorem settles_raise {e e' : Exc} {V : α → β → Prop} (h : P.errors e e') :
    P.Settles D (raise e : Exec α) (raise e' : Exec β) V :=
  settles_probe.bind fun _ _ _ => .throw h

theorem settles_refuse {e e' : Exc} {V : α → β → Prop} (h : P.errors e e') :
    P.Settles D (refuse e : Exec α) (refuse e' : Exec β) V :=
  settles_probe.bind fun _ _ _ => .throw h

theorem settles_ofExcept {x x' : Except Exc α} (h : x = x') : P.Settles D (ofExcept x) (ofExcept x') Eq := by
  subst h
  cases x with
  | ok value => exact .pure rfl
  | error e => exact settles_raise (errors_same e)

theorem settles_orRefuse {x x' : Except Exc α} (h : x = x') : P.Settles D (orRefuse x) (orRefuse x') Eq := by
  subst h
  cases x with
  | ok value => exact .pure rfl
  | error e => exact settles_refuse (errors_same e)

theorem settles_displayName {step step' : FlowStep} {D : String → Prop} (h : step.displayName? = step'.displayName?) :
    P.Settles D (Executor.displayName step) (Executor.displayName step') Eq := by
  unfold Executor.displayName
  rw [h]
  split
  · exact .pure rfl
  · exact settles_raise (errors_same _)

/-- A call back into an entry point. -/
theorem settles_nestedCall {E : Exc → Exc → Prop} {origin origin' : NestedOrigin} {input input' : Dict}
    {body : Exec α} {body' : Exec β} {V : α → β → Prop} {D : α → Prop} (h : P.accord.Settles E D body body' V) :
    P.accord.Settles E D (nestedCall origin input body) (nestedCall origin' input' body') V := by
  unfold nestedCall
  refine .ask_bind fun _ _ _ _ => .attempt_missed h (fun value value' hv => ?_) (fun e e' he => ?_) (fun value hd => ?_)
    fun _ _ e' => ?_
  · exact .ask_bind fun _ _ _ _ => .pure hv
  · exact .ask_bind fun _ _ _ _ => .throw he
  · exact .ask_bind fun _ _ => .pure hd
  · exact Comp.Fails.bind fun _ => .throw

end Duet

end ChainWeaver
