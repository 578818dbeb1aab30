import ChainWeaver.Branching
import ChainWeaver.Ownership

/-!
# Branches in a run

The fates of the steps are read off the trace of a run: a skipped step is visited
under a mark, a step that ran has its outputs placed.
-/

namespace ChainWeaver.Executor

open Interaction (Closed Frame)
open ChainWeaver.Topology (ids dependenciesOf Levelled computeDagLevels_levelled)

/-- What an event tells of a step of the run `traceId`. -/
def fate (executor : Executor) (traceId : String) : Event → Option (DAGFlowStep × Fate)
  | ⟨.probe, .visit id step skipped, _⟩ =>
    if id = traceId ∧ skipDecision skipped step = true then some (step, .skipped) else none
  | ⟨.probe, .place id step context outputs levelOutputs, _⟩ =>
    if id = traceId then
      match executor.routeBranch step context (levelOutputs.update outputs) outputs with
      | .ok (.selected target) => some (step, .ran target)
      | _ => none
    else none
  | _ => none

def fates (executor : Executor) (traceId : String) (events : List Event) : Fates :=
  events.filterMap (executor.fate traceId)

variable {executor : Executor} {traceId : String} {nested : Nested} {info : RunInfo}

theorem fates_append : executor.fates traceId (first ++ second) =
    executor.fates traceId first ++ executor.fates traceId second :=
  List.filterMap_append

theorem fate_outer (h : executor.fate traceId e = some entry) : outer e = some traceId := by
  unfold fate at h
  split at h
  · split at h
    · next hvisit => exact congrArg some hvisit.1
    · cases h
  · split at h
    · next hid => exact congrArg some hid
    · cases h
  · cases h

-- What tells nothing

/-- Visits and placings tell of the steps of a run. -/
def Tells : Event → Prop
  | ⟨.probe, .visit .., _⟩ => True
  | ⟨.probe, .place .., _⟩ => True
  | _ => False

theorem fate_tells (h : executor.fate traceId e = some entry) : Tells e := by
  unfold fate at h
  split at h
  · trivial
  · trivial
  · cases h

/-- Traces that tell nothing of the steps of a run. -/
def Untold (traceId : String) (events : List Event) : Prop :=
  ∀ e ∈ events, Tells e → outer e ≠ some traceId

theorem untold_closed : Closed (Untold traceId) where
  nil := by simp [Untold]
  append h₁ h₂ := List.forall_mem_append.2 ⟨h₁, h₂⟩

theorem Untold.single (h : ¬Tells e) : Untold traceId [e] :=
  List.forall_mem_singleton.2 fun htells => absurd htells h

theorem Untold.fates (h : Untold traceId events) : executor.fates traceId events = [] := by
  refine List.filterMap_eq_nil_iff.2 fun e he => ?_
  cases hfate : executor.fate traceId e with
  | none => rfl
  | some entry => exact absurd (fate_outer hfate) (h e he (fate_tells hfate))

/-- A step tells nothing of the steps of its own run. -/
theorem Within.untold {info : StepInfo} (h : Within info events) (hd : ¬Drawn info.traceId events) :
    Untold info.traceId events :=
  fun _ he _ => (h.foreign hd he).1

theorem turn_untold {info : StepInfo} (hturn : Turn (Within info) info record events)
    (hd : ¬Drawn info.traceId events) : Untold info.traceId events := by
  have hsub : ∀ {piece : List Event}, piece.Sublist events → ¬Drawn info.traceId piece :=
    fun hsub hdrawn => hd (hdrawn.mono hsub)
  cases hturn with
  | lone hbefore _ _ =>
    exact untold_closed.append (hbefore.untold (hsub (List.sublist_append_left _ _))) (.single id)
  | @bracket before body _ toolName inputs hbefore hbody _ =>
    have hbody := hbody.untold (hsub ((List.sublist_append_right _ body).trans (List.sublist_append_left _ _)))
    refine untold_closed.append (untold_closed.append (untold_closed.append ?_ (.single id)) hbody) (.single id)
    exact hbefore.untold (hsub (by simp))
  | unheard _ _ _ => exact .single id

abbrev ownFrame := frame fun state => state.resumeSnapshot = none

theorem deleteSnapshot_untold :
    ownFrame.Upholds (Untold traceId) False (executor.deleteSnapshot result) fun _ => True := by
  unfold deleteSnapshot
  split
  · refine .bind untold_closed (.ask fun _ => .single id) fun reply _ => ?_
    exact (upholds_ofExcept untold_closed (fun _ => .single id) _).trivial
  · exact .pure untold_closed trivial

theorem makeResult_untold :
    ownFrame.Upholds (Untold traceId) False (executor.makeResult info success output log count)
      fun result => result.traceId = info.traceId ∧ result.success = success ∧ result.executionLog = log := by
  unfold makeResult
  refine .get_bind fun state _ => .bind untold_closed deleteSnapshot_untold fun _ _ => ?_
  exact .bind untold_closed (upholds_fire (.single id)) fun _ _ => .pure untold_closed ⟨rfl, rfl, rfl⟩

theorem checkCancellation_untold :
    ownFrame.Upholds (Untold traceId) False (executor.checkCancellation info index cancellation log)
      fun _ => True := by
  have hlate : ownFrame.Upholds (Untold traceId) False (deadlineExceeded cancellation) fun _ => True := by
    unfold deadlineExceeded
    split
    · exact .pure untold_closed trivial
    · exact .bind untold_closed (.ask fun _ => .single id) fun _ _ => .pure untold_closed trivial
  have hcancelled : ownFrame.Upholds (Untold traceId) False (tokenCancelled cancellation) fun _ => True := by
    unfold tokenCancelled
    split
    · exact .ask fun _ => .single id
    · exact .pure untold_closed trivial
  unfold checkCancellation
  refine .bind untold_closed hlate fun late _ => .bind untold_closed hcancelled fun cancelled _ => ?_
  split
  · refine .bind untold_closed (upholds_probe (.single id)) fun _ _ => ?_
    refine .bind untold_closed makeResult_untold fun _ _ => ?_
    exact .throw untold_closed id
  · exact .pure untold_closed trivial

theorem closeLevel_untold :
    ownFrame.Upholds (Untold traceId) False
      (executor.closeLevel info flow levelIndex context levelOutputs log) fun _ => True := by
  have hsave : ∀ context, ownFrame.Upholds (Untold traceId) False
      (executor.saveSnapshot info (.dag flow) context log (levelIndex + 1)) fun _ => True := by
    intro context
    unfold saveSnapshot
    refine .get_bind fun state _ => ?_
    split
    · refine .bind untold_closed (upholds_ofExcept untold_closed (fun _ => .single id) _) fun hashes _ => ?_
      refine .bind untold_closed (.ask fun _ => .single id) fun reply _ => ?_
      exact (upholds_ofExcept untold_closed (fun _ => .single id) _).trivial
    · exact .pure untold_closed trivial
  unfold closeLevel
  refine .bind untold_closed (upholds_probe (.single id)) fun _ _ => ?_
  refine .bind untold_closed (upholds_ofExcept untold_closed (fun _ => .single id) _) fun context _ => ?_
  exact .bind untold_closed (hsave context) fun _ _ => .pure untold_closed trivial

theorem finishFlow_untold :
    ownFrame.Upholds (Untold traceId) False
      (executor.finishFlow info header stepCount checkContext context log)
      fun result => result.traceId = info.traceId := by
  unfold finishFlow
  refine .bind untold_closed (upholds_ofExcept untold_closed (fun _ => .single id) _) fun outputFailure _ => ?_
  cases outputFailure with
  | some record => exact makeResult_untold.post fun _ h => h.1
  | none =>
    refine .bind untold_closed (upholds_probe (.single id)) fun _ _ => ?_
    refine .bind untold_closed (upholds_ofExcept untold_closed (fun _ => .single id) _) fun contextFailure _ => ?_
    cases contextFailure <;> exact makeResult_untold.post fun _ h => h.1

-- The level loop

/-- Between two steps: the walk so far with its marks, as the trace tells it. -/
structure Along (executor : Executor) (traceId : String) (steps : List DAGFlowStep) (walk : Fates)
    (marks : List String) (events : List Event) : Prop where
  walked : Walked steps walk marks
  told : ¬Drawn traceId events → executor.fates traceId events = walk

/-- The loop stands behind the steps `visited`, or has ended the run without success. -/
def WalkQ (executor : Executor) (traceId : String) (steps visited : List DAGFlowStep)
    (marksOf : α → List String) : Except Exc (Progress α) → List Event → Prop
  | .ok (.going state), events => ∃ walk, stepsOf walk = visited ∧
      executor.Along traceId steps walk (marksOf state) events
  | .ok (.ended result), _ => result.success = false
  | .error _, _ => True

section

variable {flow : DAGFlow} {steps visited : List DAGFlowStep} {step : DAGFlowStep} {walk : Fates}
variable {levels : List (List DAGFlowStep)} {level : LevelState} {state : DagState} {history : List Event}

theorem Along.quiet (h : executor.Along traceId steps walk marks history)
    (hown : ¬Drawn traceId own → executor.fates traceId own = []) :
    executor.Along traceId steps walk marks (history ++ own) := by
  refine ⟨h.walked, fun hd => ?_⟩
  rw [fates_append, h.told fun hdrawn => hd (hdrawn.mono (List.sublist_append_left _ _)),
    hown fun hdrawn => hd (hdrawn.mono (List.sublist_append_right _ _)), List.append_nil]

theorem Along.snoc (h : executor.Along traceId steps walk marks history)
    (hwalked : Walked steps (walk ++ [entry]) marks') (he : executor.fate traceId e = some entry) :
    executor.Along traceId steps (walk ++ [entry]) marks' (history ++ [e]) := by
  refine ⟨hwalked, fun hd => ?_⟩
  rw [fates_append, h.told fun hdrawn => hd (hdrawn.mono (List.sublist_append_left _ _))]
  simp [fates, he]

theorem stepsOf_concat {fate : Fate} : stepsOf (walk ++ [(step, fate)]) = stepsOf walk ++ [step] := by simp [stepsOf]

theorem ended_walk {marksOf : α → List String} :
    ownFrame.From history (do pure (Progress.ended (← executor.makeResult info false none log)))
      (executor.WalkQ traceId steps visited marksOf) :=
  .upholds_bind (T := Untold traceId) makeResult_untold (fun _ _ _ h => .pure h.2.1) fun _ _ _ _ => trivial

theorem own_good (executor : Executor) (info : RunInfo) (hn : executor.ownPolicy.Obeyed nested) (flow : AnyFlow) :
    (executor.ownPolicy.scene .sync flow info ⟨0, []⟩ .fresh).Good nested :=
  (ownPolicy_sound executor).good hn

/-- The outputs of a step that ran are placed. -/
theorem placeOutputs_own :
    ownFrame.From history (placeOutputs info step context record levelOutputs) fun r events =>
      match r with
      | .ok (mapped, _) => events = history ++ [probeEvent (.place info.traceId step context mapped levelOutputs)]
      | .error _ => True := by
  unfold placeOutputs
  split
  · exact ensures_raise trivial
  · refine from_displayName_bind (fun name _ => ?_) fun _ => trivial
    refine from_ofExcept_bind (fun mapped _ => ?_) fun _ => trivial
    exact .ask_bind fun _ => .pure rfl

theorem dagCapabilityStep_walk (hn : executor.ownPolicy.Obeyed nested) (htype : step.stepType ≠ .tool)
    (h : executor.Along info.traceId flow.steps walk level.skipped history)
    (hnot : skipDecision level.skipped step = false) :
    ownFrame.From history (executor.dagCapabilityStep info step state level)
      (executor.WalkQ info.traceId flow.steps (stepsOf walk ++ [step]) LevelState.skipped) := by
  have hin := (own_good executor info hn (.dag flow)).inside
    (stepInfoOf info step level.flatIndex) ⟨rfl, rfl⟩
  unfold dagCapabilityStep
  refine .bind (Frame.From.after (runCapabilityStep_turn hin rfl rfl rfl)) ?_ fun _ _ _ => trivial
  rintro record _ ⟨own, rfl, hturn⟩
  have h := h.quiet fun hd => (turn_untold hturn hd).fates
  dsimp only
  split
  · exact ended_walk
  refine .bind (placeOutputs_own) ?_ fun _ _ _ => trivial
  rintro ⟨mapped, clash⟩ _ rfl
  cases clash with
  | some key => exact ended_walk
  | none =>
    have hroute : executor.routeBranch step state.context (level.outputs.update mapped) mapped =
        .ok (.selected none) := routeBranch_capability htype
    refine .pure ⟨walk ++ [(step, .ran none)], stepsOf_concat, h.snoc (.run none h.walked hnot) ?_⟩
    simp [fate, hroute]

theorem placeToolRecord_walk (h : executor.Along info.traceId flow.steps walk level.skipped history)
    (hnot : skipDecision level.skipped step = false) :
    ownFrame.From history (executor.placeToolRecord info flow step state level record)
      (executor.WalkQ info.traceId flow.steps (stepsOf walk ++ [step]) LevelState.skipped) := by
  unfold placeToolRecord
  refine .bind (placeOutputs_own) ?_ fun _ _ _ => trivial
  rintro ⟨mapped, clash⟩ _ rfl
  refine from_displayName_bind (fun name _ => ?_) fun _ => trivial
  cases clash with
  | some key => exact ended_walk
  | none =>
    refine from_ofExcept_bind (fun outcome hroute => ?_) fun _ => trivial
    cases outcome with
    | invalid e => exact ended_walk
    | selected target =>
      refine .pure ⟨walk ++ [(step, .ran target)], stepsOf_concat, h.snoc (.run target h.walked hnot) ?_⟩
      simp [fate, hroute]

theorem dagToolStep_walk (hn : executor.ownPolicy.Obeyed nested)
    (h : executor.Along info.traceId flow.steps walk level.skipped history)
    (hnot : skipDecision level.skipped step = false) :
    ownFrame.From history (executor.dagToolStep nested info flow cancellation step state level)
      (executor.WalkQ info.traceId flow.steps (stepsOf walk ++ [step]) LevelState.skipped) := by
  have hin := (own_good executor info hn (.dag flow)).inside
    (stepInfoOf info step level.flatIndex) ⟨rfl, rfl⟩
  unfold dagToolStep
  refine .attempt_bind (Frame.From.after (executeStepIn_turn (ownPolicy_sound executor).stable hin)) ?_
  rintro outcome _ ⟨own, rfl, hown⟩
  split
  · unfold reraiseSubflowCancellation
    exact .upholds_bind (T := Untold info.traceId) makeResult_untold (fun _ _ _ _ => .throw trivial)
      fun _ _ _ _ => trivial
  · exact .throw trivial
  · split
    · exact ended_walk
    · exact placeToolRecord_walk (h.quiet fun hd => (turn_untold hown hd).fates) hnot

theorem dagStep_walk (hn : executor.ownPolicy.Obeyed nested)
    (h : executor.Along info.traceId flow.steps walk level.skipped history) :
    ownFrame.From history (executor.dagStep nested info flow cancellation step state level)
      (executor.WalkQ info.traceId flow.steps (stepsOf walk ++ [step]) LevelState.skipped) := by
  unfold dagStep
  refine .ask_bind fun _ => ?_
  split
  · next hskip =>
    refine from_displayName_bind (fun name _ => ?_) fun _ => trivial
    refine .pure ⟨walk ++ [(step, .skipped)], stepsOf_concat, h.snoc (.skip h.walked hskip) ?_⟩
    simp [fate, hskip]
  · next hnot =>
    have hnot : skipDecision level.skipped step = false := by simpa using hnot
    have hvisit : executor.fates info.traceId [probeEvent (.visit info.traceId step level.skipped)] = [] := by
      simp [fates, fate, hnot]
    have h := h.quiet fun _ => hvisit
    split
    · next htype => exact dagCapabilityStep_walk hn (by simp [htype]) h hnot
    · exact dagToolStep_walk hn h hnot

theorem dagLevelSteps_walk (hn : executor.ownPolicy.Obeyed nested) (todo : List DAGFlowStep)
    (h : executor.Along info.traceId flow.steps walk level.skipped history) :
    ownFrame.From history (executor.dagLevelSteps nested info flow cancellation state todo level)
      (executor.WalkQ info.traceId flow.steps (stepsOf walk ++ todo) LevelState.skipped) := by
  induction todo generalizing walk level history with
  | nil => exact .pure ⟨walk, (List.append_nil _).symm, h⟩
  | cons step rest ih =>
    unfold dagLevelSteps
    refine .bind (dagStep_walk hn h) (fun progress events hq => ?_) fun _ _ _ => trivial
    cases progress with
    | ended result => exact .pure hq
    | going level =>
      obtain ⟨walk', hsteps, h⟩ := hq
      rw [List.append_cons, ← hsteps]
      exact ih h

theorem dagLevel_walk (hn : executor.ownPolicy.Obeyed nested) (todo : List DAGFlowStep)
    (h : executor.Along info.traceId flow.steps walk state.skipped history) :
    ownFrame.From history (executor.dagLevel nested info flow cancellation levelIndex todo state)
      (executor.WalkQ info.traceId flow.steps (stepsOf walk ++ todo) DagState.skipped) := by
  unfold dagLevel
  refine .upholds_bind (T := Untold info.traceId) checkCancellation_untold (fun _ own hown _ => ?_)
    fun _ _ _ _ => trivial
  refine .bind (dagLevelSteps_walk hn todo (h.quiet fun _ => hown.fates)) (fun progress events hq => ?_)
    fun _ _ _ => trivial
  cases progress with
  | ended result => exact .pure hq
  | going level =>
    obtain ⟨walk', hsteps, h⟩ := hq
    refine .upholds_bind (T := Untold info.traceId) closeLevel_untold (fun context own hown _ => ?_)
      fun _ _ _ _ => trivial
    exact .pure ⟨walk', hsteps, h.quiet fun _ => hown.fates⟩

theorem dagLevels_walk (hn : executor.ownPolicy.Obeyed nested) (levels : List (List DAGFlowStep))
    (h : executor.Along info.traceId flow.steps walk state.skipped history) :
    ownFrame.From history (executor.dagLevels nested info flow cancellation levels levelIndex state)
      (executor.WalkQ info.traceId flow.steps (stepsOf walk ++ levels.flatten) DagState.skipped) := by
  induction levels generalizing walk levelIndex state history with
  | nil => exact .pure ⟨walk, (List.append_nil _).symm, h⟩
  | cons todo rest ih =>
    unfold dagLevels
    refine .bind (dagLevel_walk hn todo h) (fun progress events hq => ?_) fun _ _ _ => trivial
    cases progress with
    | ended result => exact .pure hq
    | going state =>
      obtain ⟨walk', hsteps, h⟩ := hq
      rw [List.flatten_cons, ← List.append_assoc, ← hsteps]
      exact ih h

-- Runs

/-- A run that succeeded has walked over all steps, as its trace tells. -/
def RunWalkQ (executor : Executor) (flow : DAGFlow) (events : List Event) (result : ExecutionResult) : Prop :=
  ∃ walk marks, Complete flow.steps walk ∧ Walked flow.steps walk marks ∧
    executor.fates result.traceId events = walk

theorem complete_of_levelled (h : Levelled flow.steps height levels) (hsteps : stepsOf walk = levels.flatten) :
    Complete flow.steps walk :=
  ⟨h.toDeclared, hsteps ▸ h.perm, hsteps ▸ h.order⟩

theorem dagFrom_walk (hn : executor.ownPolicy.Obeyed nested)
    (hlevels : computeDagLevels executor.platform.hashing flow = .ok levels)
    (hskipped : state.skipped = []) (hhistory : executor.fates info.traceId history = []) :
    ownFrame.From history (executor.dagFrom nested info flow cancellation levels 0 state) fun r events =>
      ∀ result, r = .ok result → result.success = true → result.traceId = info.traceId ∧
        (¬Drawn info.traceId events → executor.RunWalkQ flow events result) := by
  obtain ⟨height, hlevelled⟩ := computeDagLevels_levelled hlevels
  have h : executor.Along info.traceId flow.steps [] state.skipped history :=
    ⟨hskipped ▸ .start, fun _ => hhistory⟩
  unfold dagFrom
  refine .bind (dagLevels_walk hn _ h) (fun progress events hq => ?_) fun _ _ _ => nofun
  cases progress with
  | ended result =>
    refine .pure fun result' hr hsuccess => ?_
    obtain rfl := Except.ok.inj hr
    exact absurd (hsuccess.symm.trans hq) nofun
  | going state =>
    obtain ⟨walk, hsteps, h⟩ := hq
    refine .upholds (T := Untold info.traceId) finishFlow_untold (fun result own hown htrace => ?_)
      fun _ _ _ _ => nofun
    intro result' hr _
    obtain rfl := Except.ok.inj hr
    refine ⟨htrace, fun hd => ⟨walk, state.skipped, complete_of_levelled hlevelled hsteps, h.walked, ?_⟩⟩
    rw [htrace]
    exact (h.quiet fun _ => hown.fates).told hd

theorem executeDagFlow_walk (hn : executor.ownPolicy.Obeyed nested) :
    ownFrame.From [] (executor.executeDagFlow nested flow input cancellation) fun r events =>
      ∀ result, r = .ok result → result.success = true → (drawn events).Nodup →
        executor.RunWalkQ flow events result := by
  unfold executeDagFlow
  refine .modify_bind (fun _ h => h) (.get_bind fun state hs => ?_)
  split
  · next snapshot hsnapshot => exact nomatch hs.symm.trans hsnapshot
  refine .ask_bind fun traceId => .ask_bind fun _ => ?_
  -- Behind the draw of its id the run is on its own.
  suffices hown : ownFrame.From [] _ fun r own => ∀ result, r = .ok result → result.success = true →
      result.traceId = traceId ∧ (¬Drawn traceId own → executor.RunWalkQ flow own result) by
    refine (Frame.From.after hown).weaken ?_
    rintro r _ ⟨own, rfl, h⟩ result hr hsuccess hids
    have hids : (traceId :: drawn own).Nodup := hids
    obtain ⟨walk, marks, hcomplete, hwalked, hfates⟩ := (h result hr hsuccess).2 fun hd =>
      (List.nodup_cons.1 hids).1 (mem_drawn.2 hd)
    exact ⟨walk, marks, hcomplete, hwalked, hfates⟩
  refine from_ofExcept_bind (fun inputFailure _ => ?_) fun _ => nofun
  cases inputFailure with
  | some record =>
    refine .upholds (T := Untold traceId) makeResult_untold (fun result own _ h => ?_) fun _ _ _ _ => nofun
    intro result' hr hsuccess
    obtain rfl := Except.ok.inj hr
    exact absurd (hsuccess.symm.trans h.2.1) nofun
  | none =>
    refine .get_bind fun state _ => from_ofExcept_bind (fun levels hlevels => ?_) fun _ => nofun
    exact .ask_bind fun _ => dagFrom_walk hn hlevels rfl rfl

end

-- The rule in every run

/-- A run of `_execute_dag_flow` that does not resume and succeeds. The trace ids
drawn in it are all different. -/
def Succeeded (executor : Executor) (flow : DAGFlow) (events : List Event) (result : ExecutionResult) : Prop :=
  ∃ stack input cancellation state state', state.resumeSnapshot = none ∧
    (executor.executeDagFlow (executor.lanes stack) flow input cancellation).Runs state events (.ok result) state' ∧
    (drawn events).Nodup ∧ result.success = true

theorem Succeeded.walk (h : executor.Succeeded flow events result) :
    executor.RunWalkQ flow events result := by
  obtain ⟨stack, input, cancellation, state, state', hs, hrun, hids, hsuccess⟩ := h
  have hn := (ownPolicy_sound executor).obeyed stack
  exact (executeDagFlow_walk hn _ _ _ _ hs hrun).2 result rfl hsuccess hids

/-- Branch routing skips the steps the rule names, and the other steps run once,
behind their dependencies. The order in which the flow declares its steps has no part in it. -/
theorem branches_skip (h : executor.Succeeded flow events result) :
    BranchRule flow.steps (executor.fates result.traceId events) ∧
    ∀ (other : Executor) (flow' : DAGFlow) events' result', other.Succeeded flow' events' result' →
      flow'.steps.Perm flow.steps →
      Agree (executor.fates result.traceId events) (other.fates result'.traceId events') →
      ∀ step, (step, .skipped) ∈ executor.fates result.traceId events ↔
        (step, .skipped) ∈ other.fates result'.traceId events' := by
  obtain ⟨_, marks, hcomplete, hwalked, rfl⟩ := h.walk
  refine ⟨hcomplete.branchRule hwalked, fun other flow' events' result' h' hsteps hagree => ?_⟩
  obtain ⟨_, marks', hcomplete', hwalked', rfl⟩ := h'.walk
  exact hcomplete.skipped_iff hwalked hcomplete' hwalked' hsteps hagree

/-- `a` routes to `b`; `c` is left aside, and with it `d`, which only waits for `c`. -/
def routing : DAGFlow :=
  { name := "routing"
    steps :=
      [Sample.node "d" ["c"] (Sample.step "d"),
       { Sample.step "a" with stepId := "a", branches := [⟨"b", "yes"⟩], defaultNext := some "c" },
       Sample.node "b" ["a"] (Sample.step "b"), Sample.node "c" ["a"] (Sample.step "c")] }

def routingExecutor : Executor :=
  Sample.executor [.dag routing] [Sample.tool "a", Sample.tool "b", Sample.tool "c", Sample.tool "d"]

def routingRun : List Event × Except Exc ExecutionResult × RunScopedState :=
  Sample.run Sample.named none 0 (routingExecutor.executeDagFlow (routingExecutor.lanes 0) routing .empty {})

theorem branches_skip_routing : ∃ result, routingRun.2.1 = .ok result ∧
    BranchRule routing.steps (routingExecutor.fates result.traceId routingRun.1) ∧
    (routingExecutor.fates result.traceId routingRun.1).map (fun entry => (entry.1.stepId, entry.2)) =
      [("a", .ran (some "b")), ("b", .ran none), ("c", .skipped), ("d", .skipped)] := by
  have hids : (drawn routingRun.1).Nodup := by decide +kernel
  have hreturns : (Sample.resultOf routingRun).isSome := by decide +kernel
  obtain ⟨result, hresult⟩ := Option.isSome_iff_exists.1 hreturns
  have hsuccess : (Sample.resultOf routingRun).map (·.success) = some true := by decide +kernel
  have htrace : (Sample.resultOf routingRun).map (·.traceId) = some "0" := by decide +kernel
  rw [hresult, Option.map_some, Option.some_inj] at hsuccess htrace
  refine ⟨result, Sample.resultOf_eq hresult, ?_, ?_⟩
  · exact (branches_skip ⟨0, .empty, {}, {}, _, rfl, Sample.run_returns hresult, hids, hsuccess⟩).1
  · rw [htrace]
    decide +kernel

end ChainWeaver.Executor
