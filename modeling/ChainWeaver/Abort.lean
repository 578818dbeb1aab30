import ChainWeaver.Ownership

/-!
# Abort on failure

Behind a step that fails the run does nothing for later steps. In the synchronous
lane these are all steps behind the failed one, in the asynchronous lane the steps
of later levels: the steps of one level are dispatched together.
-/

namespace ChainWeaver.Executor

/-- The step that a step hook is about. -/
def hookStep : Event → Option (String × Int)
  | ⟨.hook, .stepStart traceId _ stepIndex .., _⟩ => some (traceId, stepIndex)
  | ⟨.hook, .stepEnd traceId _ record, _⟩ => some (traceId, record.stepIndex)
  | _ => none

/-- The event is a hook of the step, or is made while its tool is invoked. -/
def StepOf (traceId : String) (e : Event) (index : Int) : Prop :=
  hookStep e = some (traceId, index) ∨ inner e = some (traceId, index)

/-- The step fails: its record is one of failure, its sub-flow inputs do not
resolve, or the lane has no code for it. A step whose outputs cannot be placed is
the last one that has run, and counts as any step. -/
def FailsAt (executor : Executor) (lane : Lane) (traceId : String) (e : Event) (index : Int) : Prop :=
  match e with
  | ⟨.hook, .stepEnd id _ record, _⟩ => id = traceId ∧ record.success = false ∧ record.stepIndex = index
  | ⟨.probe, .subInputs id stepIndex step context, _⟩ =>
    id = traceId ∧ (resolveInputs step context stepIndex).isOk = false ∧ stepIndex = index
  | ⟨.probe, .unsupported id stepIndex _, _⟩ => id = traceId ∧ (stepIndex : Int) = index
  | ⟨.probe, .place id step context outputs levelOutputs, _⟩ =>
    id = traceId ∧ executor.Unplaceable lane step context outputs levelOutputs
  | _ => False

/-- Once a step fails, nothing is done for a step that comes `later`. -/
def Aborts (executor : Executor) (lane : Lane) (later : Int → Int → Prop) (traceId : String)
    (events : List Event) : Prop :=
  ∀ before e after index, events = before ++ e :: after → executor.FailsAt lane traceId e index →
    ∀ e' ∈ after, ∀ index', StepOf traceId e' index' → ¬later index index'

/-- `index'` is in a later level than `index`. -/
def LaterLevel (levels : List (List DAGFlowStep)) (index index' : Int) : Prop :=
  ∃ count, index < (levels.take count).flatten.length ∧ ((levels.take count).flatten.length : Int) ≤ index'

/-- The steps of a DAG that a lane keeps from running when one fails. -/
def later (hashing : Hashing) (dag : DAGFlow) : Lane → Int → Int → Prop
  | .sync => fun index index' => index < index'
  | .async => fun index index' => ∃ levels, computeDagLevels hashing dag = .ok levels ∧
    LaterLevel levels index index'

/-- The steps of one level are not later than each other. -/
theorem not_laterLevel {levels : List (List DAGFlowStep)} {first : Nat} {index index' : Int}
    (hlevel : levels[place]? = some level) (hfirst : first = (levels.take place).flatten.length)
    (hindex : first ≤ index) (hindex' : index' < (first + level.length : Nat)) :
    ¬LaterLevel levels index index' := by
  rintro ⟨count, hlt, hle⟩
  have hmono : ∀ {count count'}, count ≤ count' →
      (levels.take count).flatten.length ≤ (levels.take count').flatten.length := by
    intro count count' h
    obtain ⟨rest, hrest⟩ : levels.take count <+: levels.take count' := List.take_prefix_take_left h
    rw [← hrest, List.flatten_append, List.length_append]
    exact Nat.le_add_right _ _
  have hend : (levels.take (place + 1)).flatten.length = first + level.length := by
    rw [List.take_add_one, hlevel, Option.toList_some, List.flatten_append, List.length_append,
      List.flatten_singleton, hfirst]
  rcases Nat.lt_or_ge place count with hgt | hge
  · have := hmono (show place + 1 ≤ count from hgt)
    omega
  · have := hmono hge
    omega

-- Steps

section

variable {executor : Executor} {lane : Lane} {info : StepInfo}

theorem FailsAt.outer (h : executor.FailsAt lane traceId e index) : Executor.outer e = some traceId := by
  unfold FailsAt at h
  split at h
  · exact congrArg some h.1
  · simp [Executor.outer, h.1, h.2.1]
  · exact congrArg some h.1
  · exact congrArg some h.1
  · exact h.elim

theorem hookStep_outer (h : hookStep e = some (traceId, index)) : outer e = some traceId := by
  unfold hookStep at h
  split at h
  · exact congrArg some (Prod.mk.inj (Option.some.inj h)).1
  · exact congrArg some (Prod.mk.inj (Option.some.inj h)).1
  · cases h

/-- The event is about one step, which fails there only if `failing`. -/
structure About (executor : Executor) (lane : Lane) (info : StepInfo) (failing : Prop) (e : Event) : Prop where
  fails : ∀ index, executor.FailsAt lane info.traceId e index → failing ∧ index = info.stepIndex
  step : ∀ index, StepOf info.traceId e index → index = info.stepIndex

theorem About.mono {failing failing' : Prop} (h : executor.About lane info failing e) (himp : failing → failing') :
    executor.About lane info failing' e :=
  ⟨fun index hfail => (h.fails index hfail).imp_left himp, h.step⟩

/-- Between the hooks of a step. -/
theorem Within.about {failing : Prop} (h : Within info events) (hd : ¬Drawn info.traceId events) (he : e ∈ events) :
    executor.About lane info failing e := by
  obtain ⟨houter, hinner⟩ := h.foreign hd he
  refine ⟨fun _ hfail => absurd hfail.outer houter, fun index hstep => ?_⟩
  rcases hstep with hhook | hin
  · exact absurd (hookStep_outer hhook) houter
  · exact hinner index hin

theorem about_stepStart {failing : Prop} : executor.About lane info failing (stepStartEvent info toolName inputs) where
  fails _ hfail := hfail.elim
  step index hstep := by
    rcases hstep with h | h
    · exact (Prod.mk.inj (Option.some.inj h)).2.symm
    · cases h

theorem about_stepEnd (hindex : record.stepIndex = info.stepIndex) :
    executor.About lane info (record.success = false) (stepEndEvent info record) where
  fails _ hfail := ⟨hfail.2.1, hfail.2.2.symm.trans hindex⟩
  step index hstep := by
    rcases hstep with h | h
    · exact (Prod.mk.inj (Option.some.inj h)).2.symm.trans hindex
    · cases h

/-- A step fails with its record. -/
theorem turn_about (hturn : Turn (Within info) info record own) (hd : ¬Drawn info.traceId own) :
    ∀ e ∈ own, executor.About lane info (record.success = false) e := by
  have hwithin {piece : List Event} (hpiece : Within info piece) (hsub : piece.Sublist own) :
      ∀ e ∈ piece, executor.About lane info (record.success = false) e :=
    fun e he => hpiece.about (fun hdrawn => hd (hdrawn.mono hsub)) he
  cases hturn with
  | lone hbefore hindex _ =>
    exact List.forall_mem_append.2 ⟨hwithin hbefore (List.sublist_append_left _ _),
      List.forall_mem_singleton.2 (about_stepEnd hindex)⟩
  | bracket hbefore hbody hindex =>
    have hbefore := hwithin hbefore (by simp)
    have hbody := hwithin hbody ((List.sublist_append_right _ _).trans (List.sublist_append_left _ _))
    exact List.forall_mem_append.2 ⟨List.forall_mem_append.2 ⟨List.forall_mem_append.2 ⟨hbefore,
      List.forall_mem_singleton.2 about_stepStart⟩, hbody⟩, List.forall_mem_singleton.2 (about_stepEnd hindex)⟩
  | unheard _ hindex hfail =>
    refine List.forall_mem_singleton.2 ⟨fun index hf => ⟨hfail, hf.2.2.symm⟩, fun index hstep => ?_⟩
    rcases hstep with h | h <;> cases h

/-- A step that raises has not failed. -/
theorem torn_about {failing : Prop} (htorn : Torn (Within info) info own) (hd : ¬Drawn info.traceId own) :
    ∀ e ∈ own, executor.About lane info failing e := by
  have hwithin {piece : List Event} (hpiece : Within info piece) (hsub : piece.Sublist own) :
      ∀ e ∈ piece, executor.About lane info failing e :=
    fun e he => hpiece.about (fun hdrawn => hd (hdrawn.mono hsub)) he
  cases htorn with
  | before hbefore => exact hwithin hbefore (List.Sublist.refl _)
  | inside hbefore hbody =>
    have hbefore := hwithin hbefore (by simp)
    have hbody := hwithin hbody (List.sublist_append_right _ _)
    exact List.forall_mem_append.2 ⟨List.forall_mem_append.2 ⟨hbefore,
      List.forall_mem_singleton.2 about_stepStart⟩, hbody⟩

end

-- Runs

section

variable {executor : Executor} {lane : Lane} {after : Int → Int → Prop}

/-- No step has failed. -/
def Quiet (executor : Executor) (lane : Lane) (traceId : String) (events : List Event) : Prop :=
  ∀ e ∈ events, ∀ index, ¬executor.FailsAt lane traceId e index

/-- The events are about no step. -/
def Idle (traceId : String) (events : List Event) : Prop := ∀ e ∈ events, ∀ index, ¬StepOf traceId e index

theorem Quiet.append (h₁ : executor.Quiet lane traceId first) (h₂ : executor.Quiet lane traceId second) :
    executor.Quiet lane traceId (first ++ second) :=
  List.forall_mem_append.2 ⟨h₁, h₂⟩

theorem Quiet.aborts (h : executor.Quiet lane traceId events) : executor.Aborts lane after traceId events := by
  rintro before e rest index rfl hfail
  exact absurd hfail (h e (by simp) index)

theorem Aborts.behind_quiet (hquiet : executor.Quiet lane traceId first)
    (h : executor.Aborts lane after traceId second) : executor.Aborts lane after traceId (first ++ second) := by
  intro before e rest index heq hfail
  rcases List.append_eq_append_iff.1 heq with ⟨middle, rfl, hsecond⟩ | ⟨middle, hfirst, hrest⟩
  · exact h middle e rest index hsecond hfail
  · cases middle with
    | nil => exact h [] e rest index hrest.symm hfail
    | cons head middle =>
      obtain ⟨rfl, rfl⟩ := List.cons.inj hrest
      exact absurd hfail (hquiet e (by simp [hfirst]) index)

theorem Aborts.before_idle (h : executor.Aborts lane after traceId first) (hidle : Idle traceId second) :
    executor.Aborts lane after traceId (first ++ second) := by
  intro before e rest index heq hfail e' he' index' hstep
  rcases List.append_eq_append_iff.1 heq with ⟨middle, rfl, hsecond⟩ | ⟨middle, hfirst, hrest⟩
  · exact absurd hstep (hidle e' (by simp [hsecond, he']) index')
  · cases middle with
    | nil =>
      have hmem : e' ∈ second := by simp [← (show e :: rest = second from hrest), he']
      exact absurd hstep (hidle e' hmem index')
    | cons head middle =>
      obtain ⟨rfl, rfl⟩ := List.cons.inj hrest
      rcases List.mem_append.1 he' with he' | he'
      · exact h before e middle index hfirst hfail e' he' index' hstep
      · exact absurd hstep (hidle e' he' index')

/-- How `after` relates to the steps of a scene. -/
structure Orders (S : Scene) (after : Int → Int → Prop) : Prop where
  irrefl : ∀ index, ¬after index index
  level : S.lane = .async → S.Level first count → ∀ place < count, ∀ place' < count,
    ¬after (first + place : Nat) (first + place' : Nat)

variable {flow : AnyFlow} {run : RunInfo} {spot : Spot}

abbrev freshScene (executor : Executor) (lane : Lane) (flow : AnyFlow) (run : RunInfo) : Scene :=
  executor.ownPolicy.scene lane flow run ⟨0, []⟩ .fresh

theorem aside_calm (h : (executor.freshScene lane flow run).Aside e) :
    executor.Quiet lane run.traceId [e] ∧ Idle run.traceId [e] := by
  refine ⟨List.forall_mem_singleton.2 fun index hfail => ?_, List.forall_mem_singleton.2 fun index hstep => ?_⟩
  · cases h with
    | place hplaceable => exact hplaceable hfail.2
    | _ => exact hfail.elim
  · cases h <;> rcases hstep with hstep | hstep <;> cases hstep

/-- A step that has been taken does not outlive its failure. -/
theorem aborts_about {own : List Event} (hirrefl : ∀ index, ¬after index index)
    (h : ∀ e ∈ own, executor.About lane info True e) : executor.Aborts lane after info.traceId own := by
  rintro before e rest index rfl hfail e' he' index' hstep
  have hindex := ((h e (by simp)).fails index hfail).2
  have hindex' := (h e' (by simp [he'])).step index' hstep
  rw [hindex, hindex']
  exact hirrefl _

theorem taken_about (htaken : (executor.freshScene lane flow run).Taken info own) (hd : ¬Drawn info.traceId own) :
    ∀ e ∈ own, executor.About lane info True e := by
  obtain htorn | ⟨record, hturn⟩ := htaken
  · exact torn_about htorn hd
  · exact fun e he => (turn_about hturn hd e he).mono fun _ => trivial

theorem aborts_strands (horders : Orders (executor.freshScene lane flow run) after) (hlane : lane = .async)
    (hlevel : (executor.freshScene lane flow run).Level first count)
    (hstrands : (executor.freshScene lane flow run).Strands first count
      (executor.freshScene lane flow run).Taken own) (hd : ¬Drawn run.traceId own) :
    executor.Aborts lane after run.traceId own := by
  obtain ⟨pieces, hmerged, hpieces⟩ := hstrands
  have habout : ∀ e ∈ own, ∃ info place, place < count ∧ (executor.freshScene lane flow run).At info (first + place) ∧
      executor.About lane info True e := by
    intro e he
    obtain ⟨piece, hp, he⟩ := hmerged.mem he
    obtain ⟨info, place, hplace, hat, htaken⟩ := hpieces piece hp
    have hd : ¬Drawn info.traceId piece := fun hdrawn => hd (hat.1.1 ▸ hdrawn.mono (hmerged.sublist hp))
    exact ⟨info, place, hplace, hat, taken_about htaken hd e he⟩
  rintro before e rest index rfl hfail e' he' index' hstep
  obtain ⟨info, place, hplace, ⟨⟨htrace, -⟩, hindex⟩, hfails⟩ := habout e (by simp)
  obtain ⟨info', place', hplace', ⟨⟨htrace', -⟩, hindex'⟩, hsteps⟩ := habout e' (by simp [he'])
  have htrace : info.traceId = run.traceId := htrace
  have htrace' : info'.traceId = run.traceId := htrace'
  obtain rfl := (hfails.fails index (htrace ▸ hfail)).2
  obtain rfl := hsteps.step index' (htrace' ▸ hstep)
  rw [hindex, hindex']
  exact horders.level hlane hlevel place hplace place' hplace'

/-- While the run goes on, no step has failed. -/
theorem reached_quiet (h : (executor.freshScene lane flow run).Reached spot events)
    (hd : ¬Drawn run.traceId events) : executor.Quiet lane run.traceId events := by
  induction h with
  | start he => cases he <;> exact List.forall_mem_singleton.2 fun _ hfail => hfail.elim
  | aside _ he ih =>
    exact (ih fun h => hd (h.mono (List.sublist_append_left _ _))).append (aside_calm he).1
  | @turn _ events info record own _ hat hturn hok ih =>
    refine (ih fun h => hd (h.mono (List.sublist_append_left _ _))).append fun e he index hfail => ?_
    have htrace : info.traceId = run.traceId := hat.1.1
    have hd : ¬Drawn info.traceId own := fun h => hd (htrace ▸ h.mono (List.sublist_append_right _ _))
    exact absurd hok (by simp [((turn_about hturn hd e he).fails index (htrace ▸ hfail)).1])
  | skip name _ _ ih =>
    exact (ih fun h => hd (h.mono (List.sublist_append_left _ _))).append
      (List.forall_mem_singleton.2 fun _ hfail => hfail.elim)
  | @strands _ _ _ own _ _ _ hown ih =>
    refine (ih fun h => hd (h.mono (List.sublist_append_left _ _))).append fun e he index hfail => ?_
    obtain ⟨pieces, hmerged, hpieces⟩ := hown
    obtain ⟨piece, hp, he⟩ := hmerged.mem he
    obtain ⟨info, _, _, hat, record, hturn, hok⟩ := hpieces piece hp
    have htrace : info.traceId = run.traceId := hat.1.1
    have hd : ¬Drawn info.traceId piece := fun h =>
      hd (htrace ▸ (h.mono (hmerged.sublist hp)).mono (List.sublist_append_right _ _))
    exact absurd hok (by simp [((turn_about hturn hd e he).fails index (htrace ▸ hfail)).1])
  | settle _ _ _ ih => exact ih hd

theorem undrawn_left {first second : List Event} (hd : ¬Drawn traceId (first ++ second)) : ¬Drawn traceId first :=
  fun h => hd (h.mono (List.sublist_append_left _ _))

theorem idle_other {e : Event} (hhook : hookStep e = none) (hin : inner e = none) : Idle traceId [e] :=
  List.forall_mem_singleton.2 fun _ hstep => by simp [StepOf, hhook, hin] at hstep

theorem spent_aborts (horders : Orders (executor.freshScene lane flow run) after) (hlane : lane = .async)
    (h : (executor.freshScene lane flow run).Spent events) (hd : ¬Drawn run.traceId events) :
    executor.Aborts lane after run.traceId events := by
  induction h with
  | reached hr => exact (reached_quiet hr hd).aborts
  | strands hr hlevel hown =>
    exact .behind_quiet (reached_quiet hr (undrawn_left hd))
      (aborts_strands horders hlane hlevel hown fun h => hd (h.mono (List.sublist_append_right _ _)))
  | unsupported _ hr => exact (reached_quiet hr (undrawn_left hd)).aborts.before_idle (idle_other rfl rfl)
  | aside _ he ih => exact (ih (undrawn_left hd)).before_idle (aside_calm he).2
  | place _ _ ih => exact (ih (undrawn_left hd)).before_idle (idle_other rfl rfl)

theorem ended_aborts (horders : Orders (executor.freshScene lane flow run) after)
    (h : (executor.freshScene lane flow run).Ended success log events) (hd : ¬Drawn run.traceId events) :
    executor.Aborts lane after run.traceId events := by
  have hturned {first own : List Event} {info : StepInfo} {spot : Spot} {record : StepRecord}
      (hr : (executor.freshScene lane flow run).Reached spot first) (hd : ¬Drawn run.traceId (first ++ own))
      (hat : (executor.freshScene lane flow run).At info spot.index)
      (hturn : Turn ((executor.freshScene lane flow run).I info) info record own) :
      executor.Aborts lane after run.traceId (first ++ own) := by
    have htrace : info.traceId = run.traceId := hat.1.1
    refine .behind_quiet (reached_quiet hr (undrawn_left hd)) (htrace ▸ aborts_about horders.irrefl ?_)
    exact taken_about (.inr ⟨_, hturn⟩) fun h => hd (htrace ▸ h.mono (List.sublist_append_right _ _))
  cases h with
  | finished hr => exact (reached_quiet hr hd).aborts
  | unseeded => exact fun _ _ _ _ heq => by simp at heq
  | refused hr => exact (reached_quiet hr hd).aborts
  | failed hr hat hturn _ => exact hturned hr hd hat hturn
  | replaced hr hat hturn _ =>
    refine (hturned hr (undrawn_left hd) hat hturn).before_idle (List.forall_mem_singleton.2 fun _ hstep => ?_)
    rcases hstep with hstep | hstep <;> cases hstep
  | spent hlane hs => exact spent_aborts horders hlane hs hd

theorem run_aborts (horders : Orders (executor.freshScene lane flow run) after)
    (h : (executor.freshScene lane flow run).RunQ r events) (hd : ¬Drawn run.traceId events) :
    executor.Aborts lane after run.traceId events := by
  have htorn {first own : List Event} {info : StepInfo} {spot : Spot}
      (hr : (executor.freshScene lane flow run).Reached spot first) (hd : ¬Drawn run.traceId (first ++ own))
      (hat : (executor.freshScene lane flow run).At info spot.index)
      (htorn : Torn ((executor.freshScene lane flow run).I info) info own) :
      executor.Aborts lane after run.traceId (first ++ own) := by
    have htrace : info.traceId = run.traceId := hat.1.1
    refine .behind_quiet (reached_quiet hr (undrawn_left hd)) (htrace ▸ aborts_about horders.irrefl ?_)
    exact taken_about (.inl htorn) fun h => hd (htrace ▸ h.mono (List.sublist_append_right _ _))
  cases r with
  | ok result =>
    obtain ⟨-, before, closing, hended, hclosing, rfl⟩ := h
    refine (ended_aborts horders hended (undrawn_left hd)).before_idle ?_
    cases hclosing with
    | plain => exact idle_other rfl rfl
    | deleting => exact List.forall_mem_cons.2 ⟨idle_other rfl rfl _ (List.mem_singleton.2 rfl), idle_other rfl rfl⟩
  | error e =>
    cases h with
    | unseeded =>
      have hempty : executor.Quiet lane run.traceId [] := fun _ he => nomatch he
      exact hempty.aborts.before_idle (idle_other rfl rfl)
    | raised hr => exact (reached_quiet hr (undrawn_left hd)).aborts.before_idle (idle_other rfl rfl)
    | undeleted hended =>
      exact ((ended_aborts horders hended (undrawn_left (undrawn_left hd))).before_idle (idle_other rfl rfl)).before_idle
        (idle_other rfl rfl)
    | torn hr hat hown _ => exact htorn hr hd hat hown
    | tornStrands hlane hr hlevel hown _ =>
      exact .behind_quiet (reached_quiet hr (undrawn_left hd))
        (aborts_strands horders hlane hlevel hown fun h => hd (h.mono (List.sublist_append_right _ _)))
    | spent hlane hs => exact (spent_aborts horders hlane hs (undrawn_left hd)).before_idle (idle_other rfl rfl)
    | reanchored hr hat hown _ => exact (htorn hr (undrawn_left hd) hat hown).before_idle (idle_other rfl rfl)
    | stopped hr =>
      exact ((reached_quiet hr (undrawn_left (undrawn_left hd))).aborts.before_idle (idle_other rfl rfl)).before_idle
        (idle_other rfl rfl)

end

theorem orders_later (executor : Executor) (lane : Lane) (dag : DAGFlow) (run : RunInfo) :
    Orders (executor.freshScene lane (.dag dag) run) (later executor.platform.hashing dag lane) where
  irrefl index := by
    cases lane with
    | sync => exact Int.lt_irrefl index
    | async =>
      rintro ⟨levels, -, count, hlt, hle⟩
      omega
  level {first count} hasync hlevel place hplace place' hplace' := by
    obtain rfl : lane = .async := hasync
    obtain ⟨_, levels, _, level, hflow, hlevels, hlevel, hfirst, rfl⟩ := hlevel
    obtain rfl := AnyFlow.dag.inj hflow
    rintro ⟨levels', hlevels', hlater⟩
    obtain rfl := Except.ok.inj (hlevels.symm.trans hlevels')
    exact not_laterLevel hlevel hfirst (by omega) (by omega) hlater

/-- Once a step of a DAG fails, no later step is run: none at all in the synchronous
lane, none of a later level in the asynchronous one. -/
theorem enter_aborts (executor : Executor) (lane : Lane) (stack : Nat) (flowName : String) (initialInput : Dict)
    (call : Call) (hs : state.resumeSnapshot = none)
    (hflow : executor.registry.getFlow flowName call.version = .ok (.dag dag))
    (hrun : (executor.enter stack (executeIn lane flowName initialInput call)).Runs state events r state')
    (hids : (drawn events).Nodup) (htrace : (drawn events).head? = some traceId) :
    executor.Aborts lane (later executor.platform.hashing dag lane) traceId events := by
  have hbegun : executor.Begun lane flowName call.version r events := by
    cases lane with
    | sync => exact executeFlow_begun hs hrun hids
    | async => exact executeFlowAsync_begun hs hrun hids
  obtain ⟨_, _, hnone⟩ | ⟨flow, entered, run, version, steps, own, hflow', rfl, hd, hown⟩ := hbegun
  · rw [hnone] at htrace
    cases htrace
  · obtain rfl := Except.ok.inj (hflow.symm.trans hflow')
    obtain rfl : run.traceId = traceId := Option.some.inj htrace
    refine .behind_quiet (fun e he index hfail => ?_) (run_aborts (orders_later ..) hown hd)
    simp only [List.mem_cons, List.not_mem_nil, or_false] at he
    rcases he with rfl | rfl | rfl <;> exact hfail.elim

-- Siblings of a failed step

/-- Two steps, of one level or of two. -/
def pairFlow (name : String) (dependsOn : List String) : DAGFlow :=
  { name, steps := [Sample.node "a" [] (Sample.step "a"), Sample.node "b" dependsOn (Sample.step "b")] }

def pairExecutor : Executor :=
  { Sample.executor [.dag (pairFlow "chain" ["a"]), .dag (pairFlow "pair" [])]
      [Sample.tool "a", Sample.tool "b"] with
    maxStepConcurrency := 2, concurrency_pos := by decide }

/-- Tool `a` fails, any other tool answers. -/
def breaking (invocation : Invocation) : Except Exc Value :=
  if invocation.tool.name = "a" then .error (.flowExecution "a" 0 "boom") else Sample.named invocation

def pairRun (flowName : String) : List Event × Except Exc ExecutionResult × RunScopedState :=
  Sample.run breaking none 0 (pairExecutor.enter 1 (executeIn .async flowName .empty {}))

def failsFirst : Event → Bool
  | ⟨.hook, .stepEnd traceId _ record, _⟩ => decide (traceId = "0" ∧ record.success = false ∧ record.stepIndex = 0)
  | _ => false

def startsSecond : Event → Bool
  | ⟨.hook, .stepStart traceId _ stepIndex .., _⟩ => decide (traceId = "0" ∧ stepIndex = 1)
  | _ => false

/-- The events behind the failure of the first step. -/
def behindFailure (events : List Event) : List Event := (events.dropWhile fun e => !failsFirst e).tail

theorem enter_aborts_chain : pairExecutor.Aborts .async
    (later pairExecutor.platform.hashing (pairFlow "chain" ["a"]) .async) "0" (pairRun "chain").1 := by
  have hids : (drawn (pairRun "chain").1).Nodup := by decide +kernel
  have htrace : (drawn (pairRun "chain").1).head? = some "0" := by decide +kernel
  exact enter_aborts pairExecutor .async 1 "chain" .empty {} rfl rfl (Sample.run_runs breaking none 0 _) hids htrace

theorem sibling_runs_on :
    ¬∀ (executor : Executor) (lane : Lane) (stack : Nat) (flowName : String) (initialInput : Dict) (call : Call)
      (dag : DAGFlow) (events : List Event) r state' traceId,
      executor.registry.getFlow flowName call.version = .ok (.dag dag) →
      (executor.enter stack (executeIn lane flowName initialInput call)).Runs {} events r state' →
      (drawn events).Nodup → (drawn events).head? = some traceId →
        executor.Aborts lane (fun index index' => index < index') traceId events := by
  intro h
  have hids : (drawn (pairRun "pair").1).Nodup := by decide +kernel
  have htrace : (drawn (pairRun "pair").1).head? = some "0" := by decide +kernel
  have hbehind : (behindFailure (pairRun "pair").1).any startsSecond = true := by decide +kernel
  obtain ⟨e', he', hstarts⟩ := List.any_eq_true.1 hbehind
  have haborts := h pairExecutor .async 1 "pair" .empty {} (pairFlow "pair" []) _ _ _ "0" rfl
    (Sample.run_runs breaking none 0 _) hids htrace
  cases hdrop : (pairRun "pair").1.dropWhile (fun e => !failsFirst e) with
  | nil => simp [behindFailure, hdrop] at he'
  | cons e after =>
    have heq := (List.takeWhile_append_dropWhile (p := fun e => !failsFirst e) (l := (pairRun "pair").1)).symm
    rw [hdrop] at heq
    have hfails : failsFirst e = true := by
      have hhead := List.head?_dropWhile_not (fun e => !failsFirst e) (pairRun "pair").1
      simpa [hdrop] using hhead
    refine haborts _ e after 0 heq ?_ e' (by simpa [behindFailure, hdrop] using he') 1 ?_ (by decide)
    · unfold failsFirst at hfails
      split at hfails
      · obtain ⟨hid, hfail, hindex⟩ := of_decide_eq_true hfails
        exact ⟨hid, hfail, hindex⟩
      · cases hfails
    · unfold startsSecond at hstarts
      split at hstarts
      · obtain ⟨rfl, rfl⟩ := of_decide_eq_true hstarts
        exact .inl rfl
      · cases hstarts

end ChainWeaver.Executor
