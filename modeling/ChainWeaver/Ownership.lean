import ChainWeaver.Isolation

/-!
# Whose event is it

Every event that carries a trace id belongs to the run that was given the id.
What a step leaves between its hooks belongs to the step or to runs nested in it,
and these draw their ids first.
-/

namespace ChainWeaver.Executor

open Interaction (Closed Justified Lasting Mixable)

/-- The run that makes an event outside its steps: its hooks, its marks and its
snapshots. Inputs that do not resolve are among the marks. -/
def outer : Event → Option String
  | ⟨.hook, .flowStart traceId .., _⟩ => some traceId
  | ⟨.hook, .stepStart traceId .., _⟩ => some traceId
  | ⟨.hook, .stepEnd traceId .., _⟩ => some traceId
  | ⟨.hook, .flowEnd traceId .., _⟩ => some traceId
  | ⟨.probe, .seed traceId .., _⟩ => some traceId
  | ⟨.probe, .visit traceId .., _⟩ => some traceId
  | ⟨.probe, .place traceId .., _⟩ => some traceId
  | ⟨.probe, .unsupported traceId .., _⟩ => some traceId
  | ⟨.probe, .merge traceId .., _⟩ => some traceId
  | ⟨.probe, .cancelled traceId, _⟩ => some traceId
  | ⟨.probe, .subInputs traceId stepIndex step context, _⟩ =>
    if (resolveInputs step context stepIndex).isOk then none else some traceId
  | ⟨.save, snapshot, _⟩ => some snapshot.traceId
  | ⟨.delete, traceId, _⟩ => some traceId
  | _ => none

/-- The run and the step that make an event inside the step. -/
def inner : Event → Option (String × Int)
  | ⟨.hook, .stepChunk traceId _ stepIndex .., _⟩ => some (traceId, stepIndex)
  | ⟨.approve, ctx, _⟩ => some (ctx.traceId, ctx.stepIndex)
  | ⟨.check, ctx, _⟩ => some (ctx.traceId, ctx.stepIndex)
  | ⟨.callTool, invocation, _⟩ => some (invocation.traceId, invocation.stepIndex)
  | ⟨.runDry, invocation, _⟩ => some (invocation.traceId, invocation.stepIndex)
  | ⟨.stream, invocation, _⟩ => some (invocation.traceId, invocation.stepIndex)
  | ⟨.probe, .invoke traceId stepIndex .., _⟩ => some (traceId, stepIndex)
  | ⟨.probe, .fallback traceId stepIndex .., _⟩ => some (traceId, stepIndex)
  | _ => none

/-- The trace ids given out in a trace. -/
def drawn (events : List Event) : List String :=
  events.filterMap fun
    | ⟨.newTraceId, _, traceId⟩ => some traceId
    | _ => none

theorem drawn_append : drawn (first ++ second) = drawn first ++ drawn second := List.filterMap_append

theorem mem_drawn : traceId ∈ drawn events ↔ Drawn traceId events := by
  unfold drawn Drawn
  rw [List.mem_filterMap]
  constructor
  · rintro ⟨e, he, h⟩
    split at h
    · obtain rfl := Option.some.inj h
      exact he
    · cases h
  · exact fun h => ⟨_, h, rfl⟩

/-- An event belongs to a run that has drawn its id, or to the step `own`. -/
structure Owned (own : Option (String × Int)) (before : List Event) (e : Event) : Prop where
  outer : ∀ traceId, outer e = some traceId → Drawn traceId before
  inner : ∀ traceId stepIndex, inner e = some (traceId, stepIndex) →
    Drawn traceId before ∨ own = some (traceId, stepIndex)

theorem owned_lasting (own : Option (String × Int)) : Lasting (S := Effects) (Owned own) :=
  fun _ _ _ hsub h => ⟨fun _ ho => (h.outer _ ho).mono hsub,
    fun _ _ hi => (h.inner _ _ hi).imp_left fun hd => hd.mono hsub⟩

/-- An event that belongs to nobody. -/
theorem Owned.nobody (ho : Executor.outer e = none) (hi : Executor.inner e = none) : Owned own before e :=
  ⟨fun _ h => (nomatch ho.symm.trans h), fun _ _ h => (nomatch hi.symm.trans h)⟩

/-- An event of the step itself. -/
theorem Owned.inside (ho : Executor.outer e = none) (hi : Executor.inner e = own) : Owned own before e :=
  ⟨fun _ h => (nomatch ho.symm.trans h), fun _ _ h => .inr (hi.symm.trans h)⟩

/-- An event that a run makes outside its steps. -/
theorem Owned.outside (hd : Drawn traceId before) (ho : Executor.outer e = some traceId)
    (hi : Executor.inner e = none) : Owned own before e :=
  ⟨fun _ h => Option.some.inj (ho.symm.trans h) ▸ hd, fun _ _ h => (nomatch hi.symm.trans h)⟩

/-- What a step leaves between its hooks. -/
def Within (info : StepInfo) : List Event → Prop :=
  Justified (Owned (some (info.traceId, info.stepIndex))) []

theorem within_closed (info : StepInfo) : Closed (Within info) :=
  (Justified.mixable (owned_lasting _) []).toClosed

/-- Runs that start afresh. -/
def ownPolicy (executor : Executor) : Policy where
  executor := executor
  Inv state := state.resumeSnapshot = none
  I _ := Within
  W _ _ _ := Justified (Owned none) []

variable {executor : Executor}

/-- Behind the draw of the run's id its steps belong to it. -/
theorem Within.behind (h : Within info events) (hd : Drawn info.traceId history) :
    Justified (Owned none) history events := by
  intro before e after heq
  have howned : Owned _ (history ++ before) e := owned_lasting _ _ _ _
    (List.sublist_append_right history before) (by simpa using h before e after heq)
  refine ⟨howned.outer, fun traceId stepIndex hi => .inl ?_⟩
  rcases howned.inner _ _ hi with hdrawn | hown
  · exact hdrawn
  · obtain ⟨rfl, -⟩ := Prod.mk.inj (Option.some.inj hown)
    exact hd.mono (List.sublist_append_left _ _)

theorem ownPolicy_admits (hd : Drawn run.traceId history) :
    (executor.ownPolicy.scene lane flow run start .fresh).Admits (Justified (Owned none) history) := by
  have hT := Justified.mixable (owned_lasting none) history
  have hsteps : (executor.ownPolicy.scene lane flow run start .fresh).AdmitsSteps
      (Justified (Owned none) history) :=
    { toClosed := hT.toClosed
      inside := fun hof hevents => Within.behind hevents (hof.1 ▸ hd)
      stepStart := fun hof => .single (.outside hd (congrArg some hof.1) rfl)
      stepEnd := fun hof => .single (.outside hd (congrArg some hof.1) rfl)
      unheard := fun {info step context} hof => .single
        ⟨fun traceId ho => ?_, fun _ _ hi => (nomatch hi)⟩ }
  · refine ⟨hsteps, fun he => ?_, hsteps.strands hT, fun he => ?_, fun _ => .single (.outside hd rfl rfl),
      .single (.outside hd rfl rfl), .single (.nobody rfl rfl), .single (.outside hd rfl rfl), .single (.outside hd rfl rfl), .single (.outside hd rfl rfl)⟩
    · cases he <;> exact .single (.outside hd rfl rfl)
    · cases he with
      | clock | isCancelled | schedule | finish => exact .single (.nobody rfl rfl)
      | save snapshot reply _ _ htrace => exact .single (.outside hd (congrArg some htrace) rfl)
      | _ => exact .single (.outside hd rfl rfl)
  · simp only [Executor.outer] at ho
    split at ho
    · cases ho
    · exact Option.some.inj ho ▸ hof.1.symm ▸ hd

theorem ownPolicy_sound (executor : Executor) : executor.ownPolicy.Sound where
  stable := ⟨fun h => h, fun h => h⟩
  enter h := h
  step {nested lane info} hn := by
    have hT := within_closed info
    refine .of_events hT (fun e he => ?_) (fun step context call reply _ => ?_) ?_
    · cases he with
      | subInputs step context input hinput => exact .single (.nobody (by simp [outer, hinput, Except.isOk, Except.toBool]) rfl)
      | approve ctx reply htrace hindex | check ctx reply htrace hindex =>
        exact .single (.inside rfl (by simp [inner, htrace, hindex]))
      | fault | cacheGet | cacheSet | decide | decideTimed | refused => exact .single (.nobody rfl rfl)
      | _ => exact .single (.inside rfl rfl)
    · exact hT.cons (.single (.nobody rfl rfl)) (.single (.nobody rfl rfl))
    · intro origin flowName input cancellation callee _ _
      refine nestedCall_upholds (hn callee flowName input cancellation) fun raised events hevents => ?_
      refine hT.append (hT.append (.single (.nobody rfl rfl)) ?_) (.single (.nobody rfl rfl))
      intro before e after heq
      have howned := hevents before e after heq
      refine ⟨howned.outer, fun _ _ hi => (howned.inner _ _ hi).imp_right fun h => ?_⟩
      cases h
  whole {lane flowName input cancellation r events} h := by
    have hT := (Justified.mixable (owned_lasting none) []).toClosed
    cases h with
    | refused => exact .single (.nobody rfl rfl)
    | @entered flow state _ events hflow _ hs hopened =>
      refine hT.append (.single (.nobody rfl rfl)) ?_
      cases hopened with
      | unlevelled _ => exact .single (.nobody rfl rfl)
      | resumed _ hs hsnapshot =>
        have hs : _ = none := hs
        cases hs.symm.trans hsnapshot
      | @fresh run r body version totalSteps _ hinput hrun =>
        have hopening : Justified (Owned none) []
            ([(⟨.newTraceId, (), run.traceId⟩ : Event)] ++ [Policy.flowStartEvent run version totalSteps]) :=
          (Justified.single (.nobody rfl rfl)).append (.single (.outside (List.mem_singleton.2 rfl) rfl rfl))
        exact hopening.append ((ownPolicy_admits (by simp [Drawn])).run hrun)

/-- How a call goes that starts afresh: it is refused, or a run begins, whose
trace id is not drawn again. -/
def Begun (executor : Executor) (lane : Lane) (flowName : String) (version : Option String)
    (r : Except Exc ExecutionResult) (events : List Event) : Prop :=
  (∃ e, r = .error e ∧ drawn events = []) ∨
    ∃ (flow : AnyFlow) (state : RunScopedState) (run : RunInfo) (flowVersion : String) (totalSteps : Nat)
      (own : List Event), executor.registry.getFlow flowName version = .ok flow ∧
      events = [probeEvent (.enter flow state), ⟨.newTraceId, (), run.traceId⟩,
        Policy.flowStartEvent run flowVersion totalSteps] ++ own ∧ ¬Drawn run.traceId own ∧
      (executor.ownPolicy.scene lane flow run ⟨0, []⟩ .fresh).RunQ r own

theorem Policy.Called.begun (h : executor.ownPolicy.Called lane flowName input call r events)
    (hids : (drawn events).Nodup) : executor.Begun lane flowName call.version r events := by
  cases h with
  | refused => exact .inl ⟨_, rfl, rfl⟩
  | @entered flow state _ events hflow _ _ hopened =>
    cases hopened with
    | unlevelled => exact .inl ⟨_, rfl, rfl⟩
    | resumed _ hs hsnapshot =>
      have hs : _ = none := hs
      exact nomatch hs.symm.trans hsnapshot
    | @fresh run r own version totalSteps _ _ hown =>
      have hids : (run.traceId :: drawn own).Nodup := hids
      exact .inr ⟨flow, state, run, version, totalSteps, own, hflow, rfl,
        fun hd => (List.nodup_cons.1 hids).1 (mem_drawn.2 hd), hown⟩

/-- A call of `execute_flow` outside of any resume. -/
theorem executeFlow_begun (hs : state.resumeSnapshot = none)
    (hrun : (executor.executeFlow stack flowName initialInput call).Runs state events r state')
    (hids : (drawn events).Nodup) : executor.Begun .sync flowName call.version r events := by
  have hs : (enterSync call state).resumeSnapshot = none := by
    cases hp : call.dynamicParams <;> simpa [enterSync, withDynamicParams, RunScopedState.copy, hp] using hs
  exact (executeFlow_called (ownPolicy_sound executor) hs hrun).begun hids

theorem executeFlowAsync_begun (hs : state.resumeSnapshot = none)
    (hrun : (executor.executeFlowAsync stack flowName initialInput call).Runs state events r state')
    (hids : (drawn events).Nodup) : executor.Begun .async flowName call.version r events := by
  refine (executeFlowAsync_called (ownPolicy_sound executor) (fun state hs => ?_) hs hrun).begun hids
  have hs : state.resumeSnapshot = none := hs
  show (withDynamicParams state.copy call.dynamicParams).resumeSnapshot = none
  cases hp : call.dynamicParams <;> simpa [withDynamicParams, RunScopedState.copy, hp] using hs

/-- Between the hooks of a step, nothing is made by its run outside its steps, and
nothing inside another of them. -/
theorem Within.foreign (h : Within info events) (hd : ¬Drawn info.traceId events) (he : e ∈ events) :
    outer e ≠ some info.traceId ∧
      ∀ stepIndex, inner e = some (info.traceId, stepIndex) → stepIndex = info.stepIndex := by
  obtain ⟨before, after, rfl⟩ := List.append_of_mem he
  have howned : Owned (some (info.traceId, info.stepIndex)) before e := by simpa using h before e after rfl
  have hbefore : ¬Drawn info.traceId before := fun hdrawn => hd (hdrawn.mono (List.sublist_append_left _ _))
  refine ⟨fun ho => hbefore (howned.outer _ ho), fun stepIndex hi => ?_⟩
  rcases howned.inner _ _ hi with hdrawn | hown
  · exact absurd hdrawn hbefore
  · exact ((Prod.mk.inj (Option.some.inj hown)).2).symm

end ChainWeaver.Executor
