import ChainWeaver.StepTraces
import ChainWeaver.Sample

/-!
# Two ways to read a stream

`_drain` collects the stream of a tool and validates the terminal chunk when the
stream is over. `run_streaming` validates it as it comes and hands it on before it
knows how the stream ends.
-/

namespace ChainWeaver

open Interaction (Comp)

/-- A tool whose callable is a stream. -/
structure StreamingTool extends Tool where
  streams : toTool.fn = .stream

namespace Executor

variable (executor : Executor)

variable {state state' : RunScopedState} {events : List Event}

theorem runs_fire_bind {hook : Hook} {f : Unit → Exec α} {r : Except Exc α} :
    (fire hook >>= f).Runs state events r state' ↔
      ∃ rest, events = hookEvent hook :: rest ∧ (f ()).Runs state rest r state' := by
  refine (Interaction.Prog.runs_ask (S := Effects)).trans ?_
  exact ⟨fun ⟨_, rest, h⟩ => ⟨rest, h⟩, fun ⟨rest, h⟩ => ⟨(), rest, h⟩⟩

theorem runs_probe_bind {mark : Probe} {f : Unit → Exec α} {r : Except Exc α} :
    (probe mark >>= f).Runs state events r state' ↔
      ∃ rest, events = probeEvent mark :: rest ∧ (f ()).Runs state rest r state' := by
  refine (Interaction.Prog.runs_ask (S := Effects)).trans ?_
  exact ⟨fun ⟨_, rest, h⟩ => ⟨rest, h⟩, fun ⟨rest, h⟩ => ⟨(), rest, h⟩⟩

theorem runs_perform_bind {kind : EffectKind} {query : kind.Query} {f : kind.Reply → Exec α} {r : Except Exc α} :
    (perform kind query >>= f).Runs state events r state' ↔
      ∃ reply rest, events = ⟨kind, query, reply⟩ :: rest ∧ (f reply).Runs state rest r state' :=
  Interaction.Prog.runs_ask (S := Effects)

-- The two readers as functions of the stream

/-- The outcome of the tool when its stream is drained. -/
def drained (tool : Tool) (chunks : List ToolChunk) (ending : Option Exc) : Except Exc Dict :=
  (drain tool.name ending chunks none).bind (executor.validateOutput tool)

/-- The outcome of the tool when its stream is handed on, and the chunks that were. -/
def streamed (tool : Tool) (ending : Option Exc) :
    List ToolChunk → Option Dict → Except Exc Dict × List ToolChunk
  | [], final =>
    match ending, final with
    | some e, _ => (.error e, [])
    | none, some output => (.ok output, [])
    | none, none =>
      (.error (.toolDefinition tool.name "streaming tool produced no terminal (is_final=True) chunk."), [])
  | chunk :: rest, final =>
    if final.isSome then
      (.error (.toolDefinition tool.name ("streaming tool yielded a chunk after its terminal " ++
        "(is_final=True) chunk; the terminal chunk must be last.")), [])
    else if chunk.isFinal then
      match executor.validateOutput tool chunk.data with
      | .error e => (.error e, [])
      | .ok output =>
        let later := streamed tool ending rest (some output)
        (later.1, { data := .dict output.entries, isFinal := true } :: later.2)
    else
      let later := streamed tool ending rest none
      (later.1, chunk :: later.2)

/-- The hook that announces a chunk of the step. -/
abbrev chunkEvent (info : StepInfo) (toolName : String) (chunk : ToolChunk) : Event :=
  hookEvent (.stepChunk info.traceId info.flowName info.stepIndex toolName chunk)

theorem runs_consume {info : StepInfo} {toolName : String} {tool : Tool} {ending : Option Exc}
    {chunks : List ToolChunk} {final : Option Dict} {r : Except Exc (Except Exc Dict)} :
    (executor.consume info toolName tool ending chunks final).Runs state events r state' ↔
      events = (executor.streamed tool ending chunks final).2.map (chunkEvent info toolName) ∧
        r = .ok (executor.streamed tool ending chunks final).1 ∧ state' = state := by
  induction chunks generalizing final events with
  | nil =>
    unfold consume streamed
    cases ending <;> cases final <;> exact Comp.runs_pure
  | cons chunk rest ih =>
    unfold consume streamed
    split
    · exact Comp.runs_pure
    · split
      · cases executor.validateOutput tool chunk.data with
        | error e => exact Comp.runs_pure
        | ok output =>
          rw [runs_fire_bind]
          simp only [ih, List.map_cons]
          constructor
          · rintro ⟨_, rfl, rfl, hrest⟩
            exact ⟨rfl, hrest⟩
          · rintro ⟨rfl, hrest⟩
            exact ⟨_, rfl, rfl, hrest⟩
      · rw [runs_fire_bind]
        simp only [ih, List.map_cons]
        constructor
        · rintro ⟨_, rfl, rfl, hrest⟩
          exact ⟨rfl, hrest⟩
        · rintro ⟨rfl, hrest⟩
          exact ⟨_, rfl, rfl, hrest⟩

/-- The events of a stream that is read: the mark of the call, and the answer. -/
def opened (info : StepInfo) (tool : Tool) (inputs validated : Dict) (yielded : List ToolChunk × Option Exc) :
    List Event :=
  [probeEvent (.invoke info.traceId info.stepIndex tool inputs),
    ⟨.stream, { traceId := info.traceId, stepIndex := info.stepIndex, tool, validated }, yielded⟩]

theorem runs_runTool_stream {nested : Nested} {info : StepInfo} {tool : StreamingTool} {inputs validated : Dict}
    (hvalid : executor.platform.modelValidate tool.inputSchema (.dict inputs.entries) = .ok validated)
    {r : Except Exc (Except Exc Dict)} :
    (executor.runTool nested info tool.toTool inputs).Runs state events r state' ↔
      ∃ yielded, events = opened info tool.toTool inputs validated yielded ∧
        r = .ok (executor.drained tool.toTool yielded.1 yielded.2) ∧ state' = state := by
  have hcall : ∀ {events r}, (callFn nested info tool.toTool inputs validated).Runs state events r state' ↔
      ∃ yielded, events = opened info tool.toTool inputs validated yielded ∧
        r = .ok (drain tool.name yielded.2 yielded.1 none) ∧ state' = state := by
    intro events r
    simp only [callFn, tool.streams]
    constructor
    · intro h
      obtain ⟨_, rfl, hopen⟩ := runs_probe_bind.1 h
      obtain ⟨yielded, _, rfl, hread⟩ := runs_perform_bind.1 hopen
      obtain ⟨rfl, hrest⟩ := Comp.runs_pure.1 hread
      exact ⟨yielded, rfl, hrest⟩
    · rintro ⟨yielded, rfl, hrest⟩
      exact runs_probe_bind.2 ⟨_, rfl, runs_perform_bind.2 ⟨yielded, _, rfl, Comp.runs_pure.2 ⟨rfl, hrest⟩⟩⟩
  simp only [runTool, hvalid]
  constructor
  · intro h
    rcases Comp.runs_bind.1 h with ⟨first, raw, middle, second, rfl, hfirst, hrest⟩ | ⟨e, rfl, hraised⟩
    · obtain ⟨rfl, rfl, rfl⟩ := Comp.runs_pure.1 hrest
      obtain ⟨yielded, rfl, hraw, rfl⟩ := hcall.1 hfirst
      cases hraw
      exact ⟨yielded, List.append_nil _, rfl, rfl⟩
    · obtain ⟨_, _, hr, _⟩ := hcall.1 hraised
      cases hr
  · rintro ⟨yielded, rfl, rfl, rfl⟩
    exact Comp.runs_bind.2 (.inl ⟨_, _, _, [], (List.append_nil _).symm, hcall.2 ⟨yielded, rfl, rfl, rfl⟩,
      Comp.runs_pure.2 ⟨rfl, rfl, rfl⟩⟩)

theorem runs_runStreaming {info : StepInfo} {toolName : String} {tool : Tool} {inputs validated : Dict}
    (hvalid : executor.platform.modelValidate tool.inputSchema (.dict inputs.entries) = .ok validated)
    {r : Except Exc (Except Exc Dict)} :
    (executor.runStreaming info toolName tool inputs).Runs state events r state' ↔
      ∃ yielded, events = opened info tool inputs validated yielded ++
          (executor.streamed tool yielded.2 yielded.1 none).2.map (chunkEvent info toolName) ∧
        r = .ok (executor.streamed tool yielded.2 yielded.1 none).1 ∧ state' = state := by
  simp only [runStreaming, hvalid]
  constructor
  · intro h
    obtain ⟨_, rfl, hopen⟩ := runs_probe_bind.1 h
    obtain ⟨yielded, _, rfl, hread⟩ := runs_perform_bind.1 hopen
    obtain ⟨rfl, hrest⟩ := executor.runs_consume.1 hread
    exact ⟨yielded, rfl, hrest⟩
  · rintro ⟨yielded, rfl, hrest⟩
    exact runs_probe_bind.2 ⟨_, rfl, runs_perform_bind.2 ⟨yielded, _, rfl, executor.runs_consume.2 ⟨rfl, hrest⟩⟩⟩

-- Behind the terminal chunk

/-- What goes wrong behind the first terminal chunk. -/
def flaw (tool : Tool) (ending : Option Exc) : List ToolChunk → Option Exc
  | [] => ending
  | _ :: _ => some (.toolDefinition tool.name ("streaming tool yielded a chunk after its terminal " ++
      "(is_final=True) chunk; the terminal chunk must be last."))

theorem drain_flawed {tool : Tool} {ending : Option Exc} {after : List ToolChunk} {raised : Exc}
    (hflaw : flaw tool ending after = some raised) (data : Value) :
    drain tool.name ending after (some data) = .error raised := by
  cases after with
  | nil =>
    cases hflaw
    cases data <;> rfl
  | cons chunk rest =>
    cases hflaw
    rfl

theorem drain_null {tool : Tool} {ending : Option Exc} {after : List ToolChunk}
    (hflaw : flaw tool ending after = none) : drain tool.name ending after (some .null) = .error .assertion := by
  cases after with
  | nil =>
    cases hflaw
    rfl
  | cons chunk rest => cases hflaw

theorem drain_data {tool : Tool} {ending : Option Exc} {after : List ToolChunk} {data : Value}
    (hflaw : flaw tool ending after = none) (hdata : data ≠ .null) :
    drain tool.name ending after (some data) = .ok data := by
  cases after with
  | nil =>
    cases hflaw
    cases data <;> first | rfl | exact absurd rfl hdata
  | cons chunk rest => cases hflaw

theorem streamed_some (tool : Tool) (ending : Option Exc) (after : List ToolChunk) (output : Dict) :
    executor.streamed tool ending after (some output) =
      match flaw tool ending after with
      | some e => (.error e, [])
      | none => (.ok output, []) := by
  cases after with
  | nil => cases ending <;> rfl
  | cons chunk rest => rfl

theorem drain_before (tool : Tool) (ending : Option Exc) {before : List ToolChunk}
    (hbefore : ∀ chunk ∈ before, chunk.isFinal = false) (rest : List ToolChunk) :
    drain tool.name ending (before ++ rest) none = drain tool.name ending rest none := by
  induction before with
  | nil => rfl
  | cons chunk before ih =>
    obtain ⟨hchunk, hbefore⟩ := List.forall_mem_cons.1 hbefore
    simp [drain, hchunk, ih hbefore]

theorem streamed_before (tool : Tool) (ending : Option Exc) {before : List ToolChunk}
    (hbefore : ∀ chunk ∈ before, chunk.isFinal = false) (rest : List ToolChunk) :
    executor.streamed tool ending (before ++ rest) none =
      ((executor.streamed tool ending rest none).1, before ++ (executor.streamed tool ending rest none).2) := by
  induction before with
  | nil => rfl
  | cons chunk before ih =>
    obtain ⟨hchunk, hbefore⟩ := List.forall_mem_cons.1 hbefore
    simp [streamed, hchunk, ih hbefore]

/-- A stream has a first terminal chunk, or none. -/
theorem terminal_cases (chunks : List ToolChunk) : (∀ chunk ∈ chunks, chunk.isFinal = false) ∨
    ∃ before terminal after, chunks = before ++ terminal :: after ∧
      (∀ chunk ∈ before, chunk.isFinal = false) ∧ terminal.isFinal = true := by
  induction chunks with
  | nil => exact .inl (by simp)
  | cons chunk rest ih =>
    cases hchunk : chunk.isFinal with
    | true => exact .inr ⟨[], chunk, rest, rfl, by simp, hchunk⟩
    | false =>
      refine ih.imp (fun hrest => List.forall_mem_cons.2 ⟨hchunk, hrest⟩) ?_
      rintro ⟨before, terminal, after, rfl, hbefore, hterminal⟩
      exact ⟨chunk :: before, terminal, after, rfl, List.forall_mem_cons.2 ⟨hchunk, hbefore⟩, hterminal⟩

theorem terminal_unique {before before' after after' : List ToolChunk} {terminal terminal' : ToolChunk}
    (heq : before ++ terminal :: after = before' ++ terminal' :: after')
    (hbefore : ∀ chunk ∈ before, chunk.isFinal = false) (hterminal : terminal.isFinal = true)
    (hbefore' : ∀ chunk ∈ before', chunk.isFinal = false) (hterminal' : terminal'.isFinal = true) :
    before = before' ∧ terminal = terminal' ∧ after = after' := by
  induction before generalizing before' with
  | nil =>
    cases before' with
    | nil =>
      obtain ⟨rfl, rfl⟩ := List.cons.inj heq
      exact ⟨rfl, rfl, rfl⟩
    | cons chunk rest =>
      obtain ⟨rfl, -⟩ := List.cons.inj heq
      rw [(List.forall_mem_cons.1 hbefore').1] at hterminal
      cases hterminal
  | cons chunk rest ih =>
    obtain ⟨hchunk, hrest⟩ := List.forall_mem_cons.1 hbefore
    cases before' with
    | nil =>
      obtain ⟨rfl, -⟩ := List.cons.inj heq
      rw [hchunk] at hterminal'
      cases hterminal'
    | cons chunk' rest' =>
      obtain ⟨rfl, htail⟩ := List.cons.inj heq
      obtain ⟨rfl, hsame⟩ := ih htail hrest (List.forall_mem_cons.1 hbefore').2
      exact ⟨rfl, hsame⟩

section Cases

variable {tool : Tool} {ending : Option Exc} {before after : List ToolChunk} {terminal : ToolChunk}

theorem drained_noTerminal (hbefore : ∀ chunk ∈ before, chunk.isFinal = false) :
    executor.drained tool before ending = (executor.streamed tool ending before none).1 ∧
      (executor.streamed tool ending before none).2 = before := by
  have hdrain := drain_before tool ending hbefore []
  have hstream := executor.streamed_before tool ending hbefore []
  rw [List.append_nil] at hdrain hstream
  rw [drained, hdrain, hstream]
  constructor
  · cases ending <;> rfl
  · cases ending <;> simp [streamed]

theorem drained_terminal (hbefore : ∀ chunk ∈ before, chunk.isFinal = false) (hterminal : terminal.isFinal = true) :
    executor.drained tool (before ++ terminal :: after) ending =
      (drain tool.name ending after (some terminal.data)).bind (executor.validateOutput tool) := by
  rw [drained, drain_before _ _ hbefore]
  simp [drain, hterminal]

theorem streamed_invalid (hbefore : ∀ chunk ∈ before, chunk.isFinal = false) (hterminal : terminal.isFinal = true)
    (hinvalid : executor.validateOutput tool terminal.data = .error e) :
    executor.streamed tool ending (before ++ terminal :: after) none = (.error e, before) := by
  rw [streamed_before _ _ _ hbefore]
  simp [streamed, hterminal, hinvalid]

theorem streamed_valid (hbefore : ∀ chunk ∈ before, chunk.isFinal = false) (hterminal : terminal.isFinal = true)
    (hvalid : executor.validateOutput tool terminal.data = .ok output) :
    executor.streamed tool ending (before ++ terminal :: after) none =
      ((match flaw tool ending after with
        | some e => .error e
        | none => .ok output), before ++ [{ data := .dict output.entries, isFinal := true }]) := by
  rw [streamed_before _ _ _ hbefore]
  simp only [streamed, hterminal, hvalid, streamed_some]
  cases flaw tool ending after <;> rfl

end Cases

-- Agreement

/-- The stream answers with these chunks, and ends like this. -/
def StreamYields (yielded : List ToolChunk × Option Exc) (events : List Event) : Prop :=
  ∀ invocation reply, (⟨.stream, invocation, reply⟩ : Event) ∈ events → reply = yielded

/-- The same output, or exceptions of the same class. -/
def SameOutcome : Except Exc Dict → Except Exc Dict → Prop
  | .ok output, .ok output' => output = output'
  | .error e, .error e' => e.typeName = e'.typeName
  | _, _ => False

/-- What the two readers and the hooks say of one stream fits together. -/
structure StreamsAgree (nested : Nested) (info : StepInfo) (step : FlowStep) (toolName : String) (tool : StreamingTool)
    (inputs : Dict) (record : StepRecord) (yielded : List ToolChunk × Option Exc) : Prop where
  /-- Drained or handed on, the tool has the same outcome. -/
  outcomes : ∀ {state final drain drained state' final' stream streamed},
    (executor.runTool nested info tool.toTool inputs).Runs state drain (.ok drained) final → StreamYields yielded drain →
      (executor.runStreaming info toolName tool.toTool inputs).Runs state' stream (.ok streamed) final' →
        StreamYields yielded stream → SameOutcome drained streamed
  /-- A terminal chunk is handed on only by a tool that succeeds with it. -/
  delivered : ∀ {state stream outcome state' chunk},
    (executor.runStreaming info toolName tool.toTool inputs).Runs state stream (.ok outcome) state' →
      StreamYields yielded stream → chunkEvent info toolName chunk ∈ stream → chunk.isFinal = true →
        ∃ output, outcome = .ok output ∧ chunk.data = .dict output.entries
  /-- The step records it. -/
  recorded : ∀ {state stream outcome middle later r state' chunk},
    (executor.runStreaming info toolName tool.toTool inputs).Runs state stream (.ok outcome) middle →
      StreamYields yielded stream →
        (executor.runStreamingStep nested info step toolName tool.toTool inputs record).Runs state (stream ++ later) r
            state' →
          chunkEvent info toolName chunk ∈ stream → chunk.isFinal = true →
            ∃ settled output, r = .ok settled ∧ settled.success = true ∧ settled.outputs = some output ∧
              chunk.data = .dict output.entries

/-- A valid terminal chunk comes last, is no `None`, and the step accepts it. Behind an
invalid one nothing goes wrong, or only with an exception of the same class. -/
def StreamHeld (info : StepInfo) (step : FlowStep) (toolName : String) (tool : Tool) (inputs : Dict)
    (yielded : List ToolChunk × Option Exc) : Prop :=
  ∀ validated, executor.platform.modelValidate tool.inputSchema (.dict inputs.entries) = .ok validated →
    ∀ before terminal after, yielded.1 = before ++ terminal :: after → (∀ chunk ∈ before, chunk.isFinal = false) →
      terminal.isFinal = true →
        match executor.validateOutput tool terminal.data with
        | .ok output => flaw tool yielded.2 after = none ∧ terminal.data ≠ .null ∧
            executor.checkStepContract toolName info.stepIndex output step.outputContract "step_output_contract" = .ok none
        | .error e => ∀ raised, (flaw tool yielded.2 after = some raised ∨
            flaw tool yielded.2 after = none ∧ terminal.data = .null ∧ raised = .assertion) → raised.typeName = e.typeName

theorem runs_settleOutputs {info : StepInfo} {step : FlowStep} {toolName : String} {record : StepRecord}
    {outputs : Dict} {r : Except Exc StepRecord}
    (h : (executor.settleOutputs info step toolName none record outputs).Runs state events r state') :
    (∃ settled, r = .ok settled ∧ settled.success = true) →
      executor.checkStepContract toolName info.stepIndex outputs step.outputContract "step_output_contract" = .ok none := by
  rintro ⟨settled, rfl, hsuccess⟩
  unfold settleOutputs at h
  cases hcontract :
    executor.checkStepContract toolName info.stepIndex outputs step.outputContract "step_output_contract" with
  | error e =>
    rw [hcontract] at h
    rcases Comp.runs_bind.1 h with ⟨_, _, _, _, _, hraise, _⟩ | ⟨_, hr, _⟩
    · cases (runs_probe_throw.1 hraise).2.1
    · cases hr
  | ok violation =>
    cases violation with
    | none => rfl
    | some e =>
      rw [hcontract] at h
      obtain ⟨_, hr, _⟩ := Comp.runs_pure.1 h
      cases hr
      cases hsuccess

theorem runs_settleOutputs_iff {info : StepInfo} {step : FlowStep} {toolName : String} {record : StepRecord}
    {outputs : Dict} {r : Except Exc StepRecord}
    (hcontract : executor.checkStepContract toolName info.stepIndex outputs step.outputContract "step_output_contract" =
      .ok none) :
    (executor.settleOutputs info step toolName none record outputs).Runs state events r state' ↔
      events = [] ∧ r = .ok (record.succeedWith outputs) ∧ state' = state := by
  unfold settleOutputs
  rw [hcontract]
  exact Comp.runs_pure

theorem settleOutputs_runs (info : StepInfo) (step : FlowStep) (toolName : String) (record : StepRecord)
    (outputs : Dict) (state : RunScopedState) : ∃ events r state',
      (executor.settleOutputs info step toolName none record outputs).Runs state events r state' := by
  unfold settleOutputs
  cases executor.checkStepContract toolName info.stepIndex outputs step.outputContract "step_output_contract" with
  | error e => exact ⟨_, _, _, Comp.runs_bind.2 (.inr ⟨e, rfl, runs_probe_throw.2 ⟨rfl, rfl, rfl⟩⟩)⟩
  | ok violation => cases violation <;> exact ⟨_, _, _, Comp.runs_pure.2 ⟨rfl, rfl, rfl⟩⟩

/-- What is left of a run behind its first part. -/
theorem runs_rest {c : Exec α} {f : α → Exec β} {first later : List Event} {value : α} {middle : RunScopedState}
    {r : Except Exc β} (hfirst : c.Runs state first (.ok value) middle)
    (h : (c >>= f).Runs state (first ++ later) r state') : (f value).Runs middle later r state' := by
  rcases Comp.runs_bind.1 h with ⟨first', value', middle', second, heq, hfirst', hrest⟩ | ⟨e, rfl, hraised⟩
  · obtain ⟨rfl, hvalue⟩ := Interaction.Prog.Runs.unique hfirst hfirst' heq
    cases hvalue
    rwa [List.append_cancel_left heq]
  · cases (Interaction.Prog.Runs.unique hfirst hraised (List.append_nil (first ++ later)).symm).2

section Exactness

variable {nested : Nested} {info : StepInfo} {step : FlowStep} {toolName : String} {tool : StreamingTool}
  {inputs validated : Dict} {record : StepRecord} {yielded : List ToolChunk × Option Exc}

theorem opened_streamYields : StreamYields yielded (opened info tool.toTool inputs validated yielded) := by
  intro invocation reply h
  rcases List.mem_cons.1 h with heq | h
  · cases heq
  · cases List.mem_singleton.1 h
    rfl

theorem opened_chunks_yields (chunks : List ToolChunk) :
    StreamYields yielded (opened info tool.toTool inputs validated yielded ++ chunks.map (chunkEvent info toolName)) := by
  intro invocation reply h
  rcases List.mem_append.1 h with h | h
  · exact opened_streamYields _ _ h
  · obtain ⟨_, _, heq⟩ := List.mem_map.1 h
    cases heq

theorem StreamYields.eq {reply : List ToolChunk × Option Exc} {later : List Event}
    (h : StreamYields yielded (opened info tool.toTool inputs validated reply ++ later)) : reply = yielded :=
  h _ _ (List.mem_append_left _ (List.mem_cons_of_mem _ (List.mem_singleton.2 rfl)))

theorem mem_opened_chunks {chunks : List ToolChunk} {chunk : ToolChunk} :
    chunkEvent info toolName chunk ∈
        opened info tool.toTool inputs validated yielded ++ chunks.map (chunkEvent info toolName) ↔ chunk ∈ chunks := by
  constructor
  · intro h
    rcases List.mem_append.1 h with h | h
    · rcases List.mem_cons.1 h with heq | h
      · cases heq
      · cases List.mem_singleton.1 h
    · obtain ⟨_, hmem, heq⟩ := List.mem_map.1 h
      cases heq
      exact hmem
  · exact fun h => List.mem_append_right _ (List.mem_map_of_mem h)

/-- The agreement in terms of the two readers. -/
theorem streamsAgree_iff
    (hvalid : executor.platform.modelValidate tool.inputSchema (.dict inputs.entries) = .ok validated) :
    executor.StreamsAgree nested info step toolName tool inputs record yielded ↔
      SameOutcome (executor.drained tool.toTool yielded.1 yielded.2)
          (executor.streamed tool.toTool yielded.2 yielded.1 none).1 ∧
        ∀ chunk ∈ (executor.streamed tool.toTool yielded.2 yielded.1 none).2, chunk.isFinal = true →
          ∃ output, (executor.streamed tool.toTool yielded.2 yielded.1 none).1 = .ok output ∧
            chunk.data = .dict output.entries ∧
            executor.checkStepContract toolName info.stepIndex output step.outputContract "step_output_contract" =
              .ok none := by
  have hread : ∀ {state stream outcome state'},
      (executor.runStreaming info toolName tool.toTool inputs).Runs state stream (.ok outcome) state' →
        StreamYields yielded stream → stream = opened info tool.toTool inputs validated yielded ++
            (executor.streamed tool.toTool yielded.2 yielded.1 none).2.map (chunkEvent info toolName) ∧
          outcome = (executor.streamed tool.toTool yielded.2 yielded.1 none).1 ∧ state' = state := by
    intro state stream outcome state' hrun hyields
    obtain ⟨reply, rfl, houtcome, rfl⟩ := (executor.runs_runStreaming hvalid).1 hrun
    cases hyields.eq
    cases houtcome
    exact ⟨rfl, rfl, rfl⟩
  have hstream : (executor.runStreaming info toolName tool.toTool inputs).Runs {}
      (opened info tool.toTool inputs validated yielded ++
        (executor.streamed tool.toTool yielded.2 yielded.1 none).2.map (chunkEvent info toolName))
      (.ok (executor.streamed tool.toTool yielded.2 yielded.1 none).1) {} :=
    (executor.runs_runStreaming hvalid).2 ⟨yielded, rfl, rfl, rfl⟩
  have hdrain : (executor.runTool nested info tool.toTool inputs).Runs {}
      (opened info tool.toTool inputs validated yielded) (.ok (executor.drained tool.toTool yielded.1 yielded.2)) {} :=
    (executor.runs_runTool_stream hvalid).2 ⟨yielded, rfl, rfl, rfl⟩
  constructor
  · intro h
    refine ⟨h.outcomes hdrain opened_streamYields hstream (opened_chunks_yields _), ?_⟩
    intro chunk hchunk hfinal
    obtain ⟨output, houtput, hdata⟩ :=
      h.delivered hstream (opened_chunks_yields _) (mem_opened_chunks.2 hchunk) hfinal
    obtain ⟨later, r, state', hsettle⟩ := executor.settleOutputs_runs info step toolName record output {}
    have hrun : (executor.runStreamingStep nested info step toolName tool.toTool inputs record).Runs {}
        ((opened info tool.toTool inputs validated yielded ++
          (executor.streamed tool.toTool yielded.2 yielded.1 none).2.map (chunkEvent info toolName)) ++ later) r state' :=
      Comp.runs_bind.2 (.inl ⟨_, _, _, _, rfl, hstream, by rw [houtput]; exact hsettle⟩)
    obtain ⟨settled, _, hr, hsuccess, _⟩ :=
      h.recorded hstream (opened_chunks_yields _) hrun (mem_opened_chunks.2 hchunk) hfinal
    exact ⟨output, houtput, hdata, executor.runs_settleOutputs hsettle ⟨settled, hr, hsuccess⟩⟩
  · rintro ⟨hsame, hfinals⟩
    refine ⟨?_, ?_, ?_⟩
    · intro _ _ _ _ _ _ _ _ hdrain hyields hrun hyields'
      obtain ⟨reply, rfl, hdrained, -⟩ := (executor.runs_runTool_stream hvalid).1 hdrain
      have hreply : reply = yielded := hyields _ _ (List.mem_cons_of_mem _ (List.mem_singleton.2 rfl))
      obtain ⟨-, rfl, -⟩ := hread hrun hyields'
      cases hdrained
      rwa [hreply]
    · intro _ _ _ _ chunk hrun hyields hmem hfinal
      obtain ⟨rfl, rfl, -⟩ := hread hrun hyields
      obtain ⟨output, houtput, hdata, -⟩ := hfinals chunk (mem_opened_chunks.1 hmem) hfinal
      exact ⟨output, houtput, hdata⟩
    · intro _ _ _ _ _ _ _ chunk hrun hyields hstep hmem hfinal
      obtain ⟨rfl, rfl, rfl⟩ := hread hrun hyields
      obtain ⟨output, houtput, hdata, hcontract⟩ := hfinals chunk (mem_opened_chunks.1 hmem) hfinal
      have hsettle := runs_rest hrun hstep
      rw [houtput] at hsettle
      obtain ⟨-, rfl, -⟩ := (executor.runs_settleOutputs_iff hcontract).1 hsettle
      exact ⟨_, output, rfl, rfl, rfl, hdata⟩

theorem SameOutcome.refl (outcome : Except Exc Dict) : SameOutcome outcome outcome := by
  cases outcome <;> rfl

/-- Inputs that do not validate stop both readers before the stream is asked for. -/
theorem streamsAgree_invalid
    (hinvalid : executor.platform.modelValidate tool.inputSchema (.dict inputs.entries) = .error e) :
    executor.StreamsAgree nested info step toolName tool inputs record yielded := by
  have hread : ∀ {state stream outcome state'},
      (executor.runStreaming info toolName tool.toTool inputs).Runs state stream (.ok outcome) state' →
        stream = [] ∧ outcome = .error e := by
    intro state stream outcome state' hrun
    unfold runStreaming at hrun
    rw [hinvalid] at hrun
    obtain ⟨rfl, houtcome, -⟩ := Comp.runs_pure.1 hrun
    cases houtcome
    exact ⟨rfl, rfl⟩
  refine ⟨?_, ?_, ?_⟩
  · intro _ _ _ _ _ _ _ _ hdrain _ hrun _
    obtain ⟨-, rfl⟩ := hread hrun
    unfold runTool at hdrain
    rw [hinvalid] at hdrain
    obtain ⟨-, hdrained, -⟩ := Comp.runs_pure.1 hdrain
    cases hdrained
    rfl
  · intro _ _ _ _ _ hrun _ hmem _
    rw [(hread hrun).1] at hmem
    cases hmem
  · intro _ _ _ _ _ _ _ _ hrun _ _ hmem _
    rw [(hread hrun).1] at hmem
    cases hmem

theorem streamHeld_terminal {before after : List ToolChunk} {terminal : ToolChunk} {ending : Option Exc}
    (hvalid : executor.platform.modelValidate tool.inputSchema (.dict inputs.entries) = .ok validated)
    (hbefore : ∀ chunk ∈ before, chunk.isFinal = false) (hterminal : terminal.isFinal = true) :
    executor.StreamHeld info step toolName tool.toTool inputs (before ++ terminal :: after, ending) ↔
      match executor.validateOutput tool.toTool terminal.data with
      | .ok output => flaw tool.toTool ending after = none ∧ terminal.data ≠ .null ∧
          executor.checkStepContract toolName info.stepIndex output step.outputContract "step_output_contract" = .ok none
      | .error e => ∀ raised, (flaw tool.toTool ending after = some raised ∨
          flaw tool.toTool ending after = none ∧ terminal.data = .null ∧ raised = .assertion) →
            raised.typeName = e.typeName := by
  constructor
  · exact fun h => h validated hvalid before terminal after rfl hbefore hterminal
  · intro h validated' _ before' terminal' after' heq hbefore' hterminal'
    obtain ⟨rfl, rfl, rfl⟩ := terminal_unique heq hbefore hterminal hbefore' hterminal'
    exact h

/-- Both readers agree on a stream exactly if it ends at its terminal chunk. -/
theorem streamsAgree_iff_held (nested : Nested) (info : StepInfo) (step : FlowStep) (toolName : String)
    (tool : StreamingTool) (inputs : Dict) (record : StepRecord) (yielded : List ToolChunk × Option Exc) :
    executor.StreamsAgree nested info step toolName tool inputs record yielded ↔
      executor.StreamHeld info step toolName tool.toTool inputs yielded := by
  cases hvalid : executor.platform.modelValidate tool.inputSchema (.dict inputs.entries) with
  | error e =>
    refine iff_of_true (executor.streamsAgree_invalid hvalid) ?_
    intro validated hvalid'
    rw [hvalid] at hvalid'
    cases hvalid'
  | ok validated =>
    rw [executor.streamsAgree_iff hvalid]
    obtain ⟨chunks, ending⟩ := yielded
    dsimp only
    rcases terminal_cases chunks with hnone | ⟨before, terminal, after, rfl, hbefore, hterminal⟩
    · obtain ⟨hsame, hchunks⟩ : executor.drained tool.toTool chunks ending =
          (executor.streamed tool.toTool ending chunks none).1 ∧ _ := executor.drained_noTerminal hnone
      rw [hsame, hchunks]
      refine iff_of_true ⟨.refl _, fun chunk hchunk hfinal => ?_⟩ ?_
      · rw [hnone chunk hchunk] at hfinal
        cases hfinal
      · rintro _ _ before terminal after rfl _ hterminal
        rw [hnone terminal (by simp)] at hterminal
        cases hterminal
    · rw [executor.streamHeld_terminal hvalid hbefore hterminal, executor.drained_terminal hbefore hterminal]
      cases hdata : executor.validateOutput tool.toTool terminal.data with
      | error e =>
        rw [executor.streamed_invalid hbefore hterminal hdata]
        refine (and_iff_left ?_).trans ?_
        · intro chunk hchunk hfinal
          rw [hbefore chunk hchunk] at hfinal
          cases hfinal
        · cases hflaw : flaw tool.toTool ending after with
          | some raised => simp [drain_flawed hflaw, SameOutcome, Except.bind]
          | none =>
            by_cases hnull : terminal.data = .null
            · rw [hnull, drain_null hflaw]
              simp [SameOutcome, Except.bind]
            · rw [drain_data hflaw hnull]
              simp [SameOutcome, Except.bind, hdata, hnull]
      | ok output =>
        rw [executor.streamed_valid hbefore hterminal hdata]
        cases hflaw : flaw tool.toTool ending after with
        | some raised =>
          -- The terminal chunk has gone out before the stream failed.
          refine iff_of_false ?_ (by simp)
          rintro ⟨-, hfinals⟩
          obtain ⟨_, hok, -⟩ := hfinals { data := .dict output.entries, isFinal := true } (by simp) rfl
          cases hok
        | none =>
          by_cases hnull : terminal.data = .null
          · rw [hnull, drain_null hflaw]
            simp [SameOutcome, Except.bind]
          · rw [drain_data hflaw hnull]
            have hbind : (Except.ok terminal.data).bind (executor.validateOutput tool.toTool) = .ok output := hdata
            rw [hbind]
            constructor
            · rintro ⟨-, hfinals⟩
              obtain ⟨_, hok, -, hcontract⟩ :=
                hfinals { data := .dict output.entries, isFinal := true } (by simp) rfl
              cases hok
              exact ⟨rfl, hnull, hcontract⟩
            · rintro ⟨-, -, hcontract⟩
              refine ⟨rfl, fun chunk hchunk hfinal => ?_⟩
              rcases List.mem_append.1 hchunk with hchunk | hchunk
              · rw [hbefore chunk hchunk] at hfinal
                cases hfinal
              · cases List.mem_singleton.1 hchunk
                exact ⟨output, rfl, rfl, hcontract⟩

end Exactness

/-- A stream that goes on behind its terminal chunk. -/
def overrun : List ToolChunk × Option Exc :=
  ([{ data := .dict [("text", .str "hello")], isFinal := true }, { data := .dict [("delta", .str "!")] }], none)

def generate : StreamingTool := ⟨{ Sample.tool "generate" with fn := .stream }, rfl⟩

/-- The terminal chunk is handed on, and then the step fails. -/
theorem overrun_delivered :
    ¬ (Sample.executor [] []).StreamsAgree ⟨fun _ _ _ => refuse .recursion, fun _ _ _ => refuse .recursion⟩
      ⟨"t", "f", 0, none⟩ (Sample.step "generate") "generate" generate .empty
      { stepIndex := 0, toolName := "generate", inputs := .empty } overrun := by
  intro h
  have hvalid : (Sample.executor [] []).platform.modelValidate generate.inputSchema (.dict []) = .ok .empty := rfl
  obtain ⟨-, hfinals⟩ := (Executor.streamsAgree_iff _ hvalid).1 h
  obtain ⟨_, hok, -⟩ := hfinals { data := .dict [("text", .str "hello")], isFinal := true } (List.mem_singleton.2 rfl) rfl
  cases hok

end Executor

end ChainWeaver
