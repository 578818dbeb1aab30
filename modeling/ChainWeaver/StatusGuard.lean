import ChainWeaver.Drift

/-!
# The status guard

The tools of a flow version are called on behalf of runs of that version, and a
run marks the version before its first step. Fresh runs, nested ones included,
are kept to active versions; a resume and a replay from a later step are not.
-/

namespace ChainWeaver.Executor

open Interaction (Justified Lasting)

/-- The run on behalf of which a tool is called. -/
def callsTool : Event → Option String
  | ⟨.callTool, invocation, _⟩ => some invocation.traceId
  | ⟨.runDry, invocation, _⟩ => some invocation.traceId
  | ⟨.stream, invocation, _⟩ => some invocation.traceId
  | ⟨.probe, .invoke traceId .., _⟩ => some traceId
  | _ => none

/-- The flow version that a run takes its steps from. -/
def marks : Event → Option (String × FlowHeader)
  | ⟨.probe, .seed traceId header .., _⟩ => some (traceId, header)
  | _ => none

/-- The run is one of the flow version. -/
def RunOf (header : FlowHeader) (traceId : String) (events : List Event) : Prop :=
  ∃ e ∈ events, marks e = some (traceId, header)

/-- Runs are of active versions, and call tools behind their mark. The mark of the
run `own` may still be missing. -/
structure Sanctioned (own : Option String) (before : List Event) (e : Event) : Prop where
  active : ∀ traceId header, marks e = some (traceId, header) → header.status = .active
  seeded : ∀ traceId, callsTool e = some traceId →
    (∃ header, RunOf header traceId before) ∨ own = some traceId

theorem sanctioned_lasting (own : Option String) : Lasting (S := Effects) (Sanctioned own) :=
  fun _ _ _ hsub h => ⟨h.active, fun _ hc => (h.seeded _ hc).imp_left fun ⟨header, e, he, hs⟩ =>
    ⟨header, e, hsub.subset he, hs⟩⟩

/-- An event that neither marks a version nor calls a tool. -/
theorem Sanctioned.idle (hs : marks e = none) (hc : callsTool e = none) : Sanctioned own before e :=
  ⟨fun _ _ h => (nomatch hs.symm.trans h), fun _ h => (nomatch hc.symm.trans h)⟩

/-- A call of a tool by the run itself. -/
theorem Sanctioned.call (hs : marks e = none) (hc : callsTool e = own) : Sanctioned own before e :=
  ⟨fun _ _ h => (nomatch hs.symm.trans h), fun _ h => .inr (hc.symm.trans h)⟩

/-- The runs of nobody, seen from inside a run. -/
theorem Sanctioned.of_none (h : Sanctioned none before e) : Sanctioned own before e :=
  ⟨h.active, fun _ hc => .inl ((h.seeded _ hc).resolve_right nofun)⟩

-- The first event of a run

section

variable {S : Scene}

/-- A trace that starts with the mark of the run. -/
def Scene.Headed (S : Scene) (events : List Event) : Prop := ∃ e rest, S.Seed e ∧ events = e :: rest

theorem Scene.Headed.append (h : S.Headed first) : S.Headed (first ++ second) := by
  obtain ⟨e, rest, he, rfl⟩ := h
  exact ⟨e, rest ++ second, he, rfl⟩

theorem Scene.Reached.headed (h : S.Reached spot events) : S.Headed events := by
  induction h with
  | start he => exact ⟨_, [], he, rfl⟩
  | aside _ _ ih | turn _ _ _ _ ih | skip _ _ _ ih | strands _ _ _ _ ih => exact ih.append
  | settle _ _ _ ih => exact ih

theorem Scene.Spent.headed (h : S.Spent events) : S.Headed events := by
  induction h with
  | reached hr => exact hr.headed
  | strands hr | unsupported _ hr => exact hr.headed.append
  | aside _ _ ih | place _ _ ih => exact ih.append

theorem Scene.Ended.headed (h : S.Ended success log events) : S.Headed events ∨ events = [] := by
  cases h with
  | unseeded => exact .inr rfl
  | finished hr | refused hr => exact .inl hr.headed
  | failed hr => exact .inl hr.headed.append
  | replaced hr => exact .inl hr.headed.append.append
  | spent _ hs => exact .inl hs.headed

/-- Before its mark a run calls no tool. -/
theorem Scene.RunQ.headed (h : S.RunQ r events) : S.Headed events ∨ ∀ e ∈ events, callsTool e = none := by
  cases r with
  | ok result =>
    obtain ⟨-, before, after, hended, hclosing, rfl⟩ := h
    rcases hended.headed with hheaded | rfl
    · exact .inl hheaded.append
    · refine .inr ?_
      cases hclosing <;> simp [callsTool]
  | error e =>
    cases h with
    | unseeded => exact .inr (by simp [callsTool])
    | raised hr | torn hr | tornStrands _ hr => exact .inl hr.headed.append
    | undeleted hended =>
      rcases hended.headed with hheaded | rfl
      · exact .inl hheaded.append.append
      · exact .inr (by simp [callsTool])
    | spent _ hs => exact .inl hs.headed.append
    | reanchored hr | stopped hr => exact .inl hr.headed.append.append

end

-- Runs

def statusPolicy (executor : Executor) : Policy where
  executor := executor
  Inv _ := True
  I _ info := Justified (Sanctioned (some info.traceId)) []
  W _ _ _ := Justified (Sanctioned none) []

section

variable {executor : Executor}

theorem statusPolicy_admits (hactive : flow.header.status = .active) :
    (executor.statusPolicy.scene lane flow run start origin).Admits
      (Justified (Sanctioned (some run.traceId)) []) := by
  have hT := Justified.mixable (sanctioned_lasting (some run.traceId)) []
  have hsteps : (executor.statusPolicy.scene lane flow run start origin).AdmitsSteps
      (Justified (Sanctioned (some run.traceId)) []) :=
    { toClosed := hT.toClosed
      inside := fun hof hevents => by
        have htrace : _ = run.traceId := hof.1
        rw [← htrace]
        exact hevents
      stepStart := fun _ => .single (.idle rfl rfl)
      stepEnd := fun _ => .single (.idle rfl rfl)
      unheard := fun _ => .single (.idle rfl rfl) }
  refine ⟨hsteps, fun he => ?_, hsteps.strands hT, fun he => ?_, fun _ => .single (.idle rfl rfl),
    .single (.idle rfl rfl), .single (.idle rfl rfl), .single (.idle rfl rfl), .single (.idle rfl rfl),
    .single (.idle rfl rfl)⟩
  · cases he <;>
      exact .single ⟨fun _ _ h => (Prod.mk.inj (Option.some.inj h)).2 ▸ hactive, fun _ h => nomatch h⟩
  · cases he <;> exact .single (.idle rfl rfl)

/-- A run of an active version keeps to the guard, whatever it starts from. -/
theorem statusPolicy_run (hactive : flow.header.status = .active)
    (hrun : (executor.statusPolicy.scene lane flow run start origin).RunQ r events) :
    Justified (Sanctioned none) [] events := by
  have hown := (statusPolicy_admits hactive).run hrun
  intro before e after heq
  have hsanctioned := hown before e after heq
  refine ⟨hsanctioned.active, fun traceId hcall => .inl ?_⟩
  rcases hsanctioned.seeded traceId hcall with hseeded | hself
  · exact hseeded
  obtain rfl := Option.some.inj hself
  rcases Scene.RunQ.headed hrun with ⟨seed, rest, hseed, rfl⟩ | hnone
  · have hmark : ∃ header, marks seed = some (run.traceId, header) := by cases hseed <;> exact ⟨_, rfl⟩
    cases before with
    | nil =>
      obtain ⟨rfl, -⟩ := List.cons.inj heq
      cases hseed <;> cases hcall
    | cons head before =>
      obtain ⟨rfl, -⟩ := List.cons.inj heq
      obtain ⟨header, hmark⟩ := hmark
      exact ⟨header, _, by simp, hmark⟩
  · exact absurd (hnone e (heq ▸ by simp)) (by simp [hcall])

theorem statusPolicy_opened (hactive : flow.header.status = .active)
    (hopened : executor.statusPolicy.Opened lane flow input r events) :
    Justified (Sanctioned none) [] events := by
  have hT := (Justified.mixable (sanctioned_lasting none) []).toClosed
  cases hopened with
  | unlevelled => exact .single (.idle rfl rfl)
  | fresh _ _ hrun =>
    exact hT.append (hT.cons (.single (.idle rfl rfl)) (.single (.idle rfl rfl))) (statusPolicy_run hactive hrun)
  | resumed _ _ _ _ _ _ hrun => exact hT.append (.single (.idle rfl rfl)) (statusPolicy_run hactive hrun)

theorem admitStatus_active (h : admitStatus flow flowName false = .ok ()) : flow.header.status = .active := by
  by_contra hne
  simp [admitStatus, hne] at h

/-- Calls that are not forced run active versions only. -/
theorem statusPolicy_called (hforce : call.force = false)
    (hcalled : executor.statusPolicy.Called lane flowName input call r events) :
    Justified (Sanctioned none) [] events := by
  have hT := (Justified.mixable (sanctioned_lasting none) []).toClosed
  cases hcalled with
  | refused => exact .single (.idle rfl rfl)
  | entered _ hstatus _ hopened =>
    rw [hforce] at hstatus
    exact hT.append (.single (.idle rfl rfl)) (statusPolicy_opened (admitStatus_active hstatus) hopened)

theorem statusPolicy_sound (executor : Executor) : executor.statusPolicy.Sound where
  stable := ⟨fun _ => trivial, fun _ => trivial⟩
  enter _ := trivial
  step {nested lane info} hn := by
    have hT := (Justified.mixable (sanctioned_lasting (some info.traceId)) []).toClosed
    refine .of_events hT (fun e he => ?_) (fun step context call reply _ => ?_) ?_
    · cases he with
      | runDry | invoke | callTool | stream => exact .single (.call rfl rfl)
      | _ => exact .single (.idle rfl rfl)
    · exact hT.cons (.single (.idle rfl rfl)) (.single (.idle rfl rfl))
    · intro origin flowName input cancellation callee _ _
      refine nestedCall_upholds (hn callee flowName input cancellation) fun raised events hevents => ?_
      refine hT.append (hT.append (.single (.idle rfl rfl)) ?_) (.single (.idle rfl rfl))
      exact fun before e after heq => (hevents before e after heq).of_none
  whole h := statusPolicy_called rfl h

end

/-- The call is not forced, and what a resume or a replay goes on with is active. -/
def Admissible (executor : Executor) (events : List Event) : EntryPoint → Prop
  | .execute _ _ call => call.force = false
  | .executeAsync _ _ call => call.force = false
  | .resume _ => ∀ traceId snapshot flow, (⟨.load, traceId, .ok (some snapshot)⟩ : Event) ∈ events →
    executor.registry.getFlow snapshot.flowName none = .ok flow → flow.header.status = .active
  | .resumeAsync _ => ∀ traceId snapshot flow, (⟨.load, traceId, .ok (some snapshot)⟩ : Event) ∈ events →
    executor.registry.getFlow snapshot.flowName none = .ok flow → flow.header.status = .active
  | .replay result resumeFromStep => 0 < resumeFromStep → ∀ flow,
    executor.registry.getFlow result.flowName none = .ok flow → flow.header.status = .active

theorem statusPolicy_resumed {executor : Executor} (hresumed : executor.statusPolicy.Resumed lane r events)
    (hactive : ∀ traceId snapshot flow, (⟨.load, traceId, .ok (some snapshot)⟩ : Event) ∈ events →
      executor.registry.getFlow snapshot.flowName none = .ok flow → flow.header.status = .active) :
    Justified (Sanctioned none) [] events := by
  have hT := (Justified.mixable (sanctioned_lasting none) []).toClosed
  cases hresumed with
  | refused => exact .single (.idle rfl rfl)
  | unfit => exact hT.cons (.single (.idle rfl rfl)) (.single (.idle rfl rfl))
  | linear hcheck _ hrun =>
    have hactive := hactive _ _ _ List.mem_cons_self (checkSnapshot_ok hcheck).1
    exact hT.append (hT.cons (.single (.idle rfl rfl)) (.single (.idle rfl rfl))) (statusPolicy_run hactive hrun)
  | dag hcheck hopened =>
    have hactive := hactive _ _ _ List.mem_cons_self (checkSnapshot_ok hcheck).1
    exact hT.append (.single (.idle rfl rfl)) (statusPolicy_opened hactive hopened)

/-- A tool is called for runs of active versions only, unless a resume or a replay
from a later step goes on with a version that is not. -/
theorem enter_admitted (executor : Executor) (stack : Nat) (entry : EntryPoint)
    (hrun : (executor.enter stack entry).Runs state events r state') (hentry : executor.Admissible events entry)
    (before : List Event) (e : Event) (after : List Event) (hevents : events = before ++ e :: after)
    (hcall : callsTool e = some traceId) :
    (∃ header, RunOf header traceId before) ∧
      ∀ header, RunOf header traceId events → header.status = .active := by
  have hentered := enter_entered (statusPolicy_sound executor) (fun _ => trivial) hrun
  have hall : Justified (Sanctioned none) [] events := by
    cases entry with
    | execute | executeAsync => exact statusPolicy_called hentry hentered
    | resume | resumeAsync => exact statusPolicy_resumed hentered hentry
    | replay =>
      have hT := (Justified.mixable (sanctioned_lasting none) []).toClosed
      cases hentered with
      | refused => exact .single (.idle rfl rfl)
      | whole hcalled => exact statusPolicy_called rfl hcalled
      | part hpos hflow hown =>
        exact hT.append (hT.cons (.single (.idle rfl rfl)) (.single (.idle rfl rfl)))
          (statusPolicy_run (hentry hpos _ hflow) hown)
  refine ⟨by simpa using ((hall before e after hevents).seeded traceId hcall).resolve_right nofun, ?_⟩
  rintro header ⟨mark, hmem, hmark⟩
  obtain ⟨first, last, heq⟩ := List.append_of_mem hmem
  exact (hall first mark last heq).active traceId header hmark

-- A disabled flow that is resumed

def shelvedExecutor (status : FlowStatus) : Executor :=
  { Sample.executor [.linear { name := "f", status, steps := [Sample.step "a"] }] [Sample.tool "a"] with
    hasCheckpointer := true }

/-- The flow before its first step. -/
def shelvedSnapshot : ExecutionSnapshot :=
  { snapshotVersion := "1", traceId := "s", flowName := "f", flowVersion := "0.1.0", initialInput := .empty,
    context := .empty, executionLog := [], toolSchemaHashes := .ofList [("a", "")] }

def shelvedRun (status : FlowStatus) : List Event × Except Exc ExecutionResult × RunScopedState :=
  Sample.run Sample.named (some shelvedSnapshot) 0 ((shelvedExecutor status).enter 1 (.resume "s"))

def callsFor (traceId : String) (e : Event) : Bool := callsTool e = some traceId

def marksDisabled (traceId : String) (e : Event) : Bool :=
  (marks e).any fun mark => mark.1 = traceId && mark.2.status = .disabled

theorem getFlow_mem {registry : Registry} (h : registry.getFlow name version = .ok flow) :
    flow ∈ registry.flows.map Prod.snd := by
  have hload : ∀ version, registry.loadFlow name version = .ok flow → flow ∈ registry.flows.map Prod.snd := by
    intro version hload
    unfold Registry.loadFlow at hload
    split at hload
    · next found hfound =>
      obtain rfl := Except.ok.inj hload
      obtain ⟨first, last, hflows, -⟩ := List.lookup_eq_some_iff.1 hfound
      simp [hflows]
    · cases hload
  unfold Registry.getFlow at h
  split at h
  · exact hload _ h
  · split at h
    · exact hload _ h
    · cases h

theorem enter_admitted_resume : ∃ before e after, (shelvedRun .active).1 = before ++ e :: after ∧
    callsTool e = some "s" ∧ (∃ header, RunOf header "s" before) ∧
      ∀ header, RunOf header "s" (shelvedRun .active).1 → header.status = .active := by
  have hcalls : (shelvedRun .active).1.any (callsFor "s") = true := by decide +kernel
  obtain ⟨e, he, hcall⟩ := List.any_eq_true.1 hcalls
  obtain ⟨before, after, heq⟩ := List.append_of_mem he
  have hcall : callsTool e = some "s" := by simpa [callsFor] using hcall
  have hentry : (shelvedExecutor .active).Admissible (shelvedRun .active).1 (.resume "s") := by
    intro traceId snapshot flow _ hflow
    have hmem := getFlow_mem hflow
    simp only [shelvedExecutor, Sample.executor, List.map_cons, List.map_nil, List.mem_singleton] at hmem
    exact hmem ▸ rfl
  exact ⟨before, e, after, heq, hcall, enter_admitted (shelvedExecutor .active) 1 (.resume "s")
    (Sample.run_runs Sample.named (some shelvedSnapshot) 0 _) hentry before e after heq hcall⟩

theorem disabled_flow_resumed :
    ¬∀ (executor : Executor) (stack : Nat) (entry : EntryPoint) (events : List Event) r state' before e after traceId,
      (∀ flowName input call, entry = .execute flowName input call ∨ entry = .executeAsync flowName input call →
        call.force = false) →
      (executor.enter stack entry).Runs {} events r state' → events = before ++ e :: after →
        callsTool e = some traceId → ∀ header, RunOf header traceId events → header.status = .active := by
  intro h
  have hcalls : (shelvedRun .disabled).1.any (callsFor "s") = true := by decide +kernel
  have hmarks : (shelvedRun .disabled).1.any (marksDisabled "s") = true := by decide +kernel
  obtain ⟨e, he, hcall⟩ := List.any_eq_true.1 hcalls
  obtain ⟨mark, hmem, hmark⟩ := List.any_eq_true.1 hmarks
  obtain ⟨before, after, heq⟩ := List.append_of_mem he
  obtain ⟨⟨traceId, header⟩, hmark, hheader⟩ := (Option.any_eq_true ..).1 hmark
  simp only [Bool.and_eq_true, decide_eq_true_eq] at hheader
  obtain ⟨rfl, hdisabled⟩ := hheader
  have hactive := h (shelvedExecutor .disabled) 1 (.resume "s") _ _ _ before e after "s" nofun
    (Sample.run_runs Sample.named (some shelvedSnapshot) 0 _) heq (by simpa [callsFor] using hcall) header
    ⟨mark, hmem, hmark⟩
  exact absurd (hdisabled.symm.trans hactive) (by decide)

end ChainWeaver.Executor
