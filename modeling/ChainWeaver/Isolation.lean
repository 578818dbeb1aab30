import ChainWeaver.Sample
import ChainWeaver.TraceSets

/-!
# Sub-flows of a resumed run

A sub-flow starts from its own inputs and touches no snapshot but its own. After
a resume this holds of linear sub-flows only: the snapshot stays in the state
that a nested call copies, and a nested DAG takes it for its own.
-/

namespace ChainWeaver.Executor

open Interaction (Justified Lasting Mixable Under)

-- Nesting

def startsNested : Event → Bool
  | ⟨.probe, .nestedStart .., _⟩ => true
  | _ => false

def endsNested : Event → Bool
  | ⟨.probe, .nestedEnd .., _⟩ => true
  | _ => false

/-- Some nested call has started and has not ended. -/
def Nesting (before : List Event) : Prop := before.countP endsNested < before.countP startsNested

instance : Decidable (Nesting before) := inferInstanceAs (Decidable (_ < _))

/-- The trace id has been given out since the trace began. -/
def Drawn (traceId : String) (before : List Event) : Prop :=
  (⟨.newTraceId, (), traceId⟩ : Event) ∈ before

abbrev nestedStartEvent (origin : NestedOrigin) (input : Dict) : Event :=
  probeEvent (.nestedStart origin input)

variable (executor : Executor)

/-- The initial state of a sub-flow: the input its caller has resolved, checked
against its own schema, an empty log, the first level and a trace id of its own. -/
structure Fresh (before : List Event) (traceId : String) (header : FlowHeader) (input context : Dict)
    (log : List StepRecord) (level : Nat) : Prop where
  ownContext : context = input
  emptyLog : log = []
  firstLevel : level = 0
  ownId : Drawn traceId before
  checked : ∃ flowName, executor.validateFlowSchema flowName input header.inputSchemaRef
    flowInputStepIndex "flow_input" = .ok none
  called : ∃ origin flowName flow, nestedStartEvent origin input ∈ before ∧
    executor.OriginOf origin flowName input ∧ executor.registry.getFlow flowName none = .ok flow ∧
    flow.header = header

/-- What a sub-flow may do: start afresh, and save or delete under a trace id of
its own. -/
def Isolated (before : List Event) : Event → Prop
  | ⟨.probe, .seed traceId header input context log level, _⟩ =>
    executor.Fresh before traceId header input context log level
  | ⟨.save, snapshot, _⟩ => Drawn snapshot.traceId before
  | ⟨.delete, traceId, _⟩ => Drawn traceId before
  | _ => True

/-- No DAG is entered through an entry point. -/
def NoDag : Event → Prop
  | ⟨.probe, .enter flow _, _⟩ => flow.isDag = false
  | _ => True

/-- Events that are none of the above. -/
def Plain : Event → Prop
  | ⟨.probe, .seed .., _⟩ => False
  | ⟨.probe, .nestedStart .., _⟩ => False
  | ⟨.probe, .nestedEnd .., _⟩ => False
  | ⟨.save, _, _⟩ => False
  | ⟨.delete, _, _⟩ => False
  | _ => True

variable {executor}

theorem Drawn.mono (hsub : first.Sublist second) (h : Drawn traceId first) : Drawn traceId second :=
  hsub.subset h

theorem Fresh.mono (hsub : first.Sublist second)
    (h : executor.Fresh first traceId header input context log level) :
    executor.Fresh second traceId header input context log level where
  ownContext := h.ownContext
  emptyLog := h.emptyLog
  firstLevel := h.firstLevel
  ownId := h.ownId.mono hsub
  checked := h.checked
  called := by
    obtain ⟨origin, flowName, flow, hstart, hrest⟩ := h.called
    exact ⟨origin, flowName, flow, hsub.subset hstart, hrest⟩

theorem isolated_lasting (executor : Executor) : Lasting (S := Effects) executor.Isolated := by
  intro first second e hsub h
  unfold Isolated at h ⊢
  split
  · exact h.mono hsub
  · exact h.mono hsub
  · exact h.mono hsub
  · trivial

/-- Inside steps and nested calls: every sub-flow is isolated, and every nested
call that starts ends. -/
def Apart (executor : Executor) (history : List Event) : List Event → Prop :=
  Under NoDag fun events => Interaction.Balanced startsNested endsNested events ∧
    Justified executor.Isolated history events

theorem apart_mixable (executor : Executor) (history : List Event) : Mixable (executor.Apart history) :=
  Under.mixable _ ((Interaction.Balanced.mixable _ _).and (Justified.mixable (isolated_lasting executor) history))

theorem Plain.balanced (h : Plain e) : Interaction.Balanced startsNested endsNested [e] := by
  have hs : startsNested e = false := by
    unfold startsNested
    split
    · exact h.elim
    · rfl
  have he : endsNested e = false := by
    unfold endsNested
    split
    · exact h.elim
    · rfl
  simp [Interaction.Balanced, hs, he]

theorem Plain.isolated (h : Plain e) : executor.Isolated before e := by
  unfold Isolated
  split <;> first | exact h.elim | trivial

theorem Plain.apart (h : Plain e) : executor.Apart history [e] :=
  fun _ => ⟨h.balanced, .single h.isolated⟩

theorem Apart.behind (h : executor.Apart [] events) : executor.Apart history events :=
  fun hC => ⟨(h hC).1, (h hC).2.behind (isolated_lasting executor)⟩

/-- A nested call, together with its marks. -/
theorem Apart.call (h : executor.Apart [nestedStartEvent origin input] events) :
    executor.Apart [] ([nestedStartEvent origin input] ++ events ++ [probeEvent (.nestedEnd origin raised)]) := by
  intro hC
  obtain ⟨hbalanced, hjustified⟩ := h fun e he => hC e (by simp [he])
  refine ⟨?_, ?_⟩
  · simp only [Interaction.Balanced, List.countP_append] at hbalanced ⊢
    rw [hbalanced]
    simp [startsNested, endsNested, Nat.add_comm]
  · have hstart : Justified executor.Isolated [] [nestedStartEvent origin input] := .single trivial
    exact (hstart.append hjustified).append (.single trivial)

-- Runs of sub-flows

/-- The calls a step makes are isolated, whatever the resume slot holds. -/
def isolationPolicy (executor : Executor) : Policy where
  executor := executor
  Inv state := state.dynamicParams = .empty
  I _ _ := executor.Apart []
  W _ flowName input events := ∀ origin, executor.OriginOf origin flowName input →
    executor.Apart [nestedStartEvent origin input] events

theorem isolationPolicy_steps :
    (executor.isolationPolicy.scene lane flow run start origin).AdmitsSteps (executor.Apart history) where
  toClosed := (apart_mixable executor history).toClosed
  inside _ hevents := Apart.behind hevents
  stepStart _ := Plain.apart trivial
  stepEnd _ := Plain.apart trivial
  unheard _ := Plain.apart trivial

/-- A fresh run, behind the events that gave it its trace id and its input. -/
theorem isolationPolicy_fresh (history : List Event) (hdrawn : Drawn run.traceId history)
    (hcalled : nestedStartEvent origin run.initialInput ∈ history)
    (horigin : executor.OriginOf origin flowName run.initialInput) {flow : AnyFlow}
    (hflow : executor.registry.getFlow flowName none = .ok flow) :
    (executor.isolationPolicy.scene lane flow run start .fresh).Admits (executor.Apart history) := by
  refine ⟨isolationPolicy_steps, fun he => ?_, isolationPolicy_steps.strands (apart_mixable executor history),
    fun he => ?_, fun _ => Plain.apart trivial, Plain.apart trivial, Plain.apart trivial, fun _ => ?_, Plain.apart trivial,
    Plain.apart trivial⟩
  · cases he with
    | @fresh state _ hs hchecked =>
      have hs : state.dynamicParams = .empty := hs
      refine fun _ => ⟨rfl, .single ⟨?_, rfl, rfl, hdrawn, ⟨_, hchecked⟩, ?_⟩⟩
      · rw [hs]
        rfl
      · exact ⟨origin, flowName, flow, hcalled, horigin, hflow, rfl⟩
    | resumed _ horigin => cases horigin
    | replayed _ horigin => cases horigin
  · cases he with
    | save snapshot reply _ _ htrace =>
      refine fun _ => ⟨rfl, .single ?_⟩
      have hdrawn : Drawn snapshot.traceId history := htrace ▸ hdrawn
      exact hdrawn
    | _ => exact Plain.apart trivial
  · exact ⟨rfl, .single hdrawn⟩

theorem isolationPolicy_sound (executor : Executor) : executor.isolationPolicy.Sound where
  stable := ⟨fun h => h, fun h => h⟩
  enter h := h
  step {nested lane info} hn := by
    have hT := (apart_mixable executor []).toClosed
    refine .of_events hT (fun e he => ?_) (fun step context call reply _ => ?_) ?_
    · cases he <;> exact Plain.apart trivial
    · exact hT.cons (Plain.apart trivial) (Plain.apart trivial)
    · intro origin flowName input cancellation callee horigin _
      exact nestedCall_upholds (hn callee flowName input cancellation) fun raised events hevents =>
        (hevents origin horigin).call
  whole {lane flowName input cancellation r events} h := by
    intro origin horigin
    have hT := (apart_mixable executor [nestedStartEvent origin input]).toClosed
    cases h with
    | refused => exact Plain.apart trivial
    | @entered flow state _ events hflow _ _ hopened =>
      intro hC
      have hlinear : flow.isDag = false := hC (probeEvent (.enter flow state)) (by simp)
      suffices executor.Apart [nestedStartEvent origin input] ([probeEvent (.enter flow state)] ++ events)
        from this hC
      cases hopened with
      | unlevelled _ => exact hT.cons (Plain.apart trivial) (Plain.apart trivial)
      | resumed hdag => exact absurd (hlinear.symm.trans hdag) (by decide)
      | @fresh run r body version totalSteps _ hinput hrun =>
        subst hinput
        intro hC
        have hbody := (isolationPolicy_fresh
          ([nestedStartEvent origin run.initialInput] ++ ([probeEvent (.enter flow state)] ++
            [⟨.newTraceId, (), run.traceId⟩, Policy.flowStartEvent run version totalSteps]))
          (by simp [Drawn]) (by simp) horigin hflow).run hrun fun e he => hC e (by simp [he])
        have hopening : executor.Apart [nestedStartEvent origin run.initialInput]
            ([probeEvent (.enter flow state)] ++
              [⟨.newTraceId, (), run.traceId⟩, Policy.flowStartEvent run version totalSteps]) :=
          hT.append (Plain.apart trivial) (hT.cons (Plain.apart trivial) (Plain.apart trivial))
        have hopening := hopening fun e he => hC e (by simp at he ⊢; tauto)
        rw [← List.append_assoc]
        refine ⟨?_, hopening.2.append hbody.2⟩
        simpa [Interaction.Balanced, startsNested, endsNested] using hbody.1

-- The resumed run itself

/-- While a nested call is open, sub-flows are isolated. The run itself is not one:
it starts from its snapshot and saves under its trace id. -/
def Sheltered (executor : Executor) (events : List Event) : Prop :=
  ∀ before e after, events = before ++ e :: after → Nesting before → executor.Isolated before e

theorem Sheltered.single : executor.Sheltered [e] := by
  intro before e' after heq hnesting
  cases before with
  | nil => simp [Nesting] at hnesting
  | cons b before => simp at heq

theorem Sheltered.append (h₁ : executor.Sheltered first) (hbalanced : Interaction.Balanced startsNested endsNested first)
    (h₂ : executor.Sheltered second) : executor.Sheltered (first ++ second) := by
  intro before e after heq hnesting
  rcases List.append_eq_append_iff.1 heq with ⟨rest, rfl, h⟩ | ⟨rest, rfl, h⟩
  · have hnesting : Nesting rest := by
      unfold Interaction.Balanced Nesting at *
      simp only [List.countP_append] at hnesting
      omega
    exact isolated_lasting executor _ _ _ (List.sublist_append_right first rest) (h₂ rest e after h hnesting)
  · cases rest with
    | nil =>
      unfold Interaction.Balanced Nesting at *
      simp only [List.append_nil] at hbalanced hnesting
      omega
    | cons b rest =>
      obtain ⟨rfl, -⟩ := List.cons.inj h
      exact h₁ before e rest rfl hnesting

def Resuming (executor : Executor) : List Event → Prop :=
  Under NoDag fun events => Interaction.Balanced startsNested endsNested events ∧ executor.Sheltered events

theorem resuming_closed (executor : Executor) : Interaction.Closed executor.Resuming where
  nil _ := ⟨rfl, fun before e after heq => by simp at heq⟩
  append h₁ h₂ hC := by
    obtain ⟨hb₁, hs₁⟩ := h₁ fun e he => hC e (by simp [he])
    obtain ⟨hb₂, hs₂⟩ := h₂ fun e he => hC e (by simp [he])
    exact ⟨(Interaction.Balanced.mixable _ _).append hb₁ hb₂, hs₁.append hb₁ hs₂⟩

theorem Apart.resuming (h : executor.Apart [] events) : executor.Resuming events := by
  intro hC
  obtain ⟨hbalanced, hjustified⟩ := h hC
  exact ⟨hbalanced, fun before e after heq _ => by simpa using hjustified before e after heq⟩

theorem resuming_single (hs : startsNested e = false) (he : endsNested e = false) : executor.Resuming [e] :=
  fun _ => ⟨by simp [Interaction.Balanced, hs, he], Sheltered.single⟩

theorem isolationPolicy_admits (executor : Executor) (lane : Lane) :
    executor.isolationPolicy.Admits lane executor.Resuming where
  toClosed := resuming_closed executor
  refused _ := resuming_single rfl rfl
  scene flow run start origin := by
    refine ⟨⟨resuming_closed executor, fun _ hevents => Apart.resuming hevents, fun _ => resuming_single rfl rfl,
      fun _ => resuming_single rfl rfl, fun _ => resuming_single rfl rfl⟩, fun he => ?_, fun hstrands => ?_, fun he => ?_,
      fun _ => resuming_single rfl rfl, resuming_single rfl rfl, resuming_single rfl rfl, resuming_single rfl rfl, resuming_single rfl rfl, resuming_single rfl rfl⟩
    · cases he <;> exact resuming_single rfl rfl
    · exact (isolationPolicy_steps.strands (apart_mixable executor []) hstrands).resuming
    · cases he <;> exact resuming_single rfl rfl
  newTraceId _ := resuming_single rfl rfl
  flowStart _ _ _ := resuming_single rfl rfl
  enter _ _ := resuming_single rfl rfl
  load _ _ := resuming_single rfl rfl

/-- An event that saves or deletes the snapshot of a trace id. -/
def Touches (traceId : String) : Event → Prop
  | ⟨.save, snapshot, _⟩ => snapshot.traceId = traceId
  | ⟨.delete, deleted, _⟩ => deleted = traceId
  | _ => False

theorem Isolated.touches (h : executor.Isolated before e) (ht : Touches traceId e) : Drawn traceId before := by
  unfold Touches at ht
  split at ht
  · exact ht ▸ h
  · exact ht ▸ h
  · exact ht.elim

/-- In a resumed run that enters no DAG, every sub-flow is isolated, and no
snapshot is touched inside one but under a trace id given out since. -/
theorem resume_isolated (executor : Executor) (stack : Nat) (lane : Lane) (traceId : String)
    (hs : state.dynamicParams = .empty)
    (hrun : (executor.enter stack (resumeIn lane traceId)).Runs state events r state')
    (hlinear : ∀ e ∈ events, NoDag e) (before : List Event) (e : Event) (after : List Event)
    (hevents : events = before ++ e :: after) (hnesting : Nesting before) :
    executor.Isolated before e ∧ ∀ parent, ¬Drawn parent before → ¬Touches parent e := by
  have hresumed : executor.isolationPolicy.Resumed lane r events := by
    cases lane with
    | sync => exact (resumeFlow_resumed (isolationPolicy_sound executor) (fun _ _ h => h) _ _ _ _ hs hrun).2
    | async =>
      exact (resumeFlowAsync_resumed (isolationPolicy_sound executor) (fun _ _ h => h) _ _ _ _ hs hrun).2
  have hisolated : executor.Isolated before e :=
    ((isolationPolicy_admits executor lane).resumed hresumed hlinear).2 before e after hevents hnesting
  exact ⟨hisolated, fun parent hfresh ht => hfresh (hisolated.touches ht)⟩

-- A nested DAG

/-- A tool step, and after it a sub-flow. -/
def composedFlow : DAGFlow :=
  { name := "f"
    steps := [Sample.node "a" [] (Sample.step "a"), Sample.node "g" ["a"] (Sample.subflow "g")] }

def innerDag : AnyFlow := .dag { name := "g", steps := [Sample.node "b" [] (Sample.step "b")] }

def innerLinear : AnyFlow := .linear { name := "g", steps := [Sample.step "b"] }

def composedExecutor (inner : AnyFlow) : Executor :=
  { Sample.executor [.dag composedFlow, inner] [Sample.tool "a", Sample.tool "b"] with
    hasCheckpointer := true, deleteOnSuccess := true }

/-- The flow after its first level. -/
def composedSnapshot : ExecutionSnapshot :=
  { snapshotVersion := "1", traceId := "s", flowName := "f", flowVersion := "0.1.0", initialInput := .empty,
    context := .ofList [("a", .int 1)],
    executionLog := [{ stepIndex := 0, toolName := "a", inputs := .empty, outputs := some .empty }],
    completedDagLevels := 1, toolSchemaHashes := .ofList [("a", "")] }

def composedRun (inner : AnyFlow) : List Event × Except Exc ExecutionResult × RunScopedState :=
  Sample.run Sample.named (some composedSnapshot) 0
    ((composedExecutor inner).enter 2 (resumeIn .sync "s"))

/-- Whether an event starts a run with a log already. -/
def startsLogged : Event → Bool
  | ⟨.probe, .seed _ _ _ _ log _, _⟩ => !log.isEmpty
  | _ => false

def entersDag : Event → Bool
  | ⟨.probe, .enter flow _, _⟩ => flow.isDag
  | _ => false

/-- Whether some event inside a nested call is of a kind. -/
def meetsNested (p : Event → Bool) (events : List Event) : Bool :=
  (List.range events.length).any fun i =>
    decide (Nesting (events.take i)) && (events[i]?.any p)

theorem meetsNested_iff {p : Event → Bool} (h : meetsNested p events = true) :
    ∃ before e after, events = before ++ e :: after ∧ Nesting before ∧ p e = true := by
  obtain ⟨i, -, h⟩ := List.any_eq_true.1 h
  simp only [Bool.and_eq_true, decide_eq_true_eq, Option.any_eq_true] at h
  obtain ⟨hnesting, e, he, hp⟩ := h
  obtain ⟨hlen, rfl⟩ := List.getElem?_eq_some_iff.1 he
  exact ⟨events.take i, events[i], events.drop (i + 1), by simp, hnesting, hp⟩

theorem Isolated.not_logged (h : executor.Isolated before e) : startsLogged e = false := by
  unfold startsLogged
  split
  · have hfresh : executor.Fresh before _ _ _ _ _ _ := h
    simp [hfresh.emptyLog]
  · rfl

theorem not_entersDag (h : entersDag e = false) : NoDag e := by
  unfold NoDag
  split
  · exact h
  · trivial

def seeds : Event → Bool
  | ⟨.probe, .seed .., _⟩ => true
  | _ => false

theorem resume_isolated_linear : ∃ before e after,
    (composedRun innerLinear).1 = before ++ e :: after ∧ seeds e = true ∧
      (composedExecutor innerLinear).Isolated before e ∧ ∀ parent, ¬Drawn parent before → ¬Touches parent e := by
  have hmeets : meetsNested seeds (composedRun innerLinear).1 = true := by decide +kernel
  have hlinear : (composedRun innerLinear).1.any entersDag = false := by decide +kernel
  obtain ⟨before, e, after, heq, hnesting, hseeds⟩ := meetsNested_iff hmeets
  exact ⟨before, e, after, heq, hseeds, resume_isolated (composedExecutor innerLinear) 2 .sync "s" rfl
    (Sample.run_runs Sample.named (some composedSnapshot) 0 _)
    (fun e he => not_entersDag (by simpa using List.any_eq_false.1 hlinear e he)) before e after heq hnesting⟩

theorem nested_dag_resumed :
    ¬∀ (executor : Executor) (stack : Nat) (lane : Lane) (traceId : String) (events : List Event) r state',
      (executor.enter stack (resumeIn lane traceId)).Runs {} events r state' →
        ∀ before e after, events = before ++ e :: after → Nesting before → executor.Isolated before e := by
  intro h
  have hmeets : meetsNested startsLogged (composedRun innerDag).1 = true := by decide +kernel
  obtain ⟨before, e, after, heq, hnesting, hlogged⟩ := meetsNested_iff hmeets
  have hisolated := h (composedExecutor innerDag) 2 .sync "s" _ _ _
    (Sample.run_runs Sample.named (some composedSnapshot) 0 _) before e after heq hnesting
  exact absurd hlogged (by simp [hisolated.not_logged])

end ChainWeaver.Executor
