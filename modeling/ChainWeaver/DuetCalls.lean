import ChainWeaver.Drift
import ChainWeaver.DuetEntry

/-!
# Calls from outside on both sides

Runs, resumed runs and replayed runs of one lane: whatever entry point is called, the two sides stay in
accord.
-/

namespace ChainWeaver.Duet

open Executor
open Interaction (Comp Frame Met Never)

variable {P : Duet} {nested nested' : Nested} {called : String → Prop}

-- Resumed runs

/-- Both sides load one snapshot of a registered flow. -/
abbrev SameLoaded (P : Duet) (loaded loaded' : AnyFlow × ExecutionSnapshot) : Prop :=
  loaded = loaded' ∧ P.executor.registry.getFlow loaded.2.flowName none = .ok loaded.1

theorem settles_loadSnapshot {D : AnyFlow × ExecutionSnapshot → Prop} (traceId : String) :
    P.Settles D (P.executor.loadSnapshotForResume traceId) (P.other.loadSnapshotForResume traceId) P.SameLoaded := by
  have hdrift (hashes : List (String × String)) : P.other.hashDrift hashes = P.executor.hashDrift hashes := by
    induction hashes with
    | nil => rfl
    | cons entry rest ih =>
      obtain ⟨toolName, snapHash⟩ := entry
      simp only [hashDrift, ih]
      rfl
  have hcheck (snapshot : ExecutionSnapshot) :
      P.other.checkSnapshot traceId snapshot = P.executor.checkSnapshot traceId snapshot := by
    simp only [checkSnapshot, hdrift]
    rfl
  unfold loadSnapshotForResume
  change P.Settles D (if (!P.executor.hasCheckpointer) = true then _ else _)
    (if (!P.executor.hasCheckpointer) = true then _ else _) _
  split
  · exact settles_refuse (errors_same _)
  · refine .bind_same (@settles_perform P .load _ _ _ (fun _ _ => id) rfl) fun reply => ?_
    refine .bind_same (settles_orRefuse rfl) fun loaded => ?_
    cases loaded with
    | none => exact settles_refuse (errors_same _)
    | some snapshot =>
      simp only [hcheck]
      exact settles_orRefuse_bind fun flow hflow => .pure ⟨rfl, (checkSnapshot_ok hflow).1⟩

theorem settles_withResume {body body' : Exec ExecutionResult} (snapshot : ExecutionSnapshot) (hapart : P.apart = false)
    (h : P.Settles P.Lost body body' (ExecutionResult.Kin P.marks)) :
    P.Settles P.Lost (withResume snapshot body) (withResume snapshot body') (ExecutionResult.Kin P.marks) := by
  have hnever : P.Settles Never body body' (ExecutionResult.Kin P.marks) :=
    h.weaken (fun _ _ => id) (fun _ _ => id) fun _ hlost => absurd hlost.1 (by simp [hapart])
  have hslot (slot : Option ExecutionSnapshot) (s s' : RunScopedState) (hs : P.accord.state s s') :
      P.accord.state { s with resumeSnapshot := slot } { s' with resumeSnapshot := slot } :=
    { hs with resumeSnapshot := fun _ => rfl, fresh := fun h => absurd h (by simp [hapart]) }
  unfold withResume
  refine .modify_bind (hslot _) (.attempt_bind hnever (fun result result' hresult => ?_) fun e e' he => ?_)
  · exact .modify_bind (hslot _) (.pure hresult)
  · exact .modify_bind (hslot _) (.throw he)

/-- Both sides may call any flow. -/
abbrev Everywhere (P : Duet) : Prop := P.Roster fun _ => True

/-- Where the lanes are the same, any flow fits. -/
theorem FlowFits.any (hapart : P.apart = false) (hslot : P.slot = true) {flow : AnyFlow}
    (hresolves : ∀ step ∈ flow.steps, P.Resolves step) (name : String) : P.FlowFits (fun _ => True) name flow where
  calls := fun _ _ _ _ => trivial
  resolves := hresolves
  linear := fun hfalse => absurd hslot (by simp [hfalse])
  accepted := fun h => absurd h (by simp [hapart])
  named := fun h => absurd h (by simp [hapart])
  context := fun h => absurd h (by simp [hapart])
  tools := fun h => absurd h (by simp [hapart])

section

variable (h : P.Everywhere) (hslot : P.slot = true) (stack : Nat)
include h hslot

theorem Roster.fits_any (hapart : P.apart = false) {flowName : String} {version : Option String} {flow : AnyFlow}
    (hflow : P.executor.registry.getFlow flowName version = .ok flow) (name : String) :
    P.FlowFits (fun _ => True) name flow :=
  .any hapart hslot (h.resolves flowName version flow hflow) name

theorem settles_resumeFlow (hsync : P.lanes = .both .sync) (traceId : String) :
    P.Settles P.Lost (P.executor.resumeFlow stack traceId) (P.other.resumeFlow stack traceId)
      (ExecutionResult.Kin P.marks) := by
  have hapart : P.apart = false := by simp [apart, hsync]
  have hset := h.set (fun _ => hsync) stack
  unfold resumeFlow
  refine .bind (settles_loadSnapshot traceId) ?_
  rintro ⟨flow, snapshot⟩ _ ⟨rfl, hflow⟩
  have hfits := h.fits_any hslot hapart hflow flow.header.name
  cases flow with
  | dag flow =>
    exact settles_withResume snapshot hapart
      (settles_executeDagFlow hset loosened_alike hfits.dagFits hsync hslot snapshot.initialInput)
  | linear flow =>
    have hrun := settles_resumeLinear hset hfits.stepFits hfits.context snapshot
    rw [lane_both hsync, lane'_both hsync] at hrun
    exact hrun

theorem settles_resumeFlowAsync (hasync : P.lanes = .both .async) (hstrict : P.strict = false) (traceId : String) :
    P.Settles P.Lost (P.executor.resumeFlowAsync stack traceId) (P.other.resumeFlowAsync stack traceId)
      (ExecutionResult.Kin P.marks) := by
  have hapart : P.apart = false := by simp [apart, hasync]
  have hset := h.set (fun hs => absurd hs (by simp [hstrict])) stack
  unfold resumeFlowAsync
  refine .bind (settles_loadSnapshot traceId) ?_
  rintro ⟨flow, snapshot⟩ _ ⟨rfl, hflow⟩
  have hfits := h.fits_any hslot hapart hflow flow.header.name
  refine .bind_same (settles_orRefuse rfl) fun _ => ?_
  refine Interaction.Accord.Settles.within (A := P.accord) (fun s s' hs => hs.enterAsync none) ?_
  cases flow with
  | dag flow =>
    exact settles_withResume snapshot hapart
      (settles_executeDagFlowAsync hset loosened_alike hfits.dagFits hasync hslot snapshot.initialInput)
  | linear flow =>
    have hrun := settles_resumeLinear hset hfits.stepFits hfits.context snapshot
    rw [lane_both hasync, lane'_both hasync] at hrun
    exact hrun

end

-- Replayed runs

variable {info info' : RunInfo} {log log' : List StepRecord}

theorem settles_replayLoop (hP : Set P nested nested' called) (hsync : P.lanes = .both .sync) (h : SameRun info info')
    (flow : Flow) (steps : List FlowStep) (hsteps : ∀ step ∈ steps, P.StepFits called step) (index : Nat) (context : Dict)
    (hlog : LogKin P.marks log log') :
    P.Settles P.Doomed (P.executor.replayLoop nested info flow steps index context log)
      (P.other.replayLoop nested' info' flow steps index context log') (SameProgress P.marks (SameLinear P.marks)) := by
  have hapart : P.apart = false := by simp [apart, hsync]
  induction steps generalizing index context log log' with
  | nil => exact .pure (.going ⟨rfl, hlog⟩)
  | cons step rest ih =>
    obtain ⟨hstep, hrest⟩ := List.forall_mem_cons.1 hsteps
    have hspot : SameSpot { traceId := info.traceId, flowName := info.flowName, stepIndex := index, stepId := none }
        { traceId := info'.traceId, flowName := info'.flowName, stepIndex := index, stepId := none } := ⟨h.flowName, rfl⟩
    have hrun := settles_executeStepIn step context hP.fair hP.partners hP.wraps hspot hstep.resolves hstep.decided
      hstep.calls {}
    have hnever : P.Settles Never _ _ _ :=
      hrun.weaken (fun _ _ => id) (fun _ _ => id) fun _ hfailed => absurd hfailed.1 (by simp [hapart])
    rw [lane_both hsync, lane'_both hsync] at hnever
    unfold replayLoop
    refine .bind hnever fun record record' hrecord => ?_
    dsimp only
    rw [hrecord.success]
    split
    · exact settles_ended h (hlog.concat hrecord)
    · have hmode : P.SameLoop ⟨.sync, true⟩ ⟨.sync, true⟩ flow.onContextCollision {} :=
        { lane := (lane_both hsync).symm, lane' := (lane'_both hsync).symm, resumed := .inl rfl }
      exact .bind_same (settles_mergeOutputs hmode h hrecord index) fun context => ih hrest _ _ (hlog.concat hrecord)

theorem settles_replayRun (h : P.Everywhere) (hslot : P.slot = true) (hsync : P.lanes = .both .sync) (stack : Nat)
    (result : ExecutionResult) (start : Int) :
    P.Settles P.Lost (P.executor.replayRun stack result start) (P.other.replayRun stack result start)
      (ExecutionResult.Kin P.marks) := by
  have hapart : P.apart = false := by simp [apart, hsync]
  have hset := h.set (fun _ => hsync) stack
  unfold replayRun
  refine settles_orRefuse_bind fun flow hflow => ?_
  have hfits := h.fits_any hslot hapart hflow flow.header.name
  refine Interaction.Accord.Settles.within (A := P.accord) (R := P.Alike) (fun s s' hs => ?_) ?_
  · exact { hs.enterAsync none with inReplay := fun _ => rfl }
  split
  · exact settles_executeFlowWith hset _ (fun flow hflow => h.fits_any hslot hapart hflow _) hsync _
  cases flow with
  | dag flow => exact settles_refuse (errors_same _)
  | linear flow =>
    refine .modify_bind (fun s s' hs => hs.versioned _) ?_
    split
    · exact settles_refuse (errors_same _)
    refine .bind_same (settles_orRefuse rfl) fun context => .ask_bind fun traceId traceId' _ _ => ?_
    refine .bind_same settles_fire fun _ => .bind_same settles_probe fun _ => ?_
    have hrun : SameRun { flowName := flow.name, traceId, initialInput := result.initialInput }
        { flowName := flow.name, traceId := traceId', initialInput := result.initialInput } := ⟨rfl, rfl⟩
    refine .bind_missed (settles_replayLoop hset hsync hrun flow _
      (fun step hstep => hfits.stepFits step (List.mem_of_mem_drop hstep)) _ context (.refl _)) ?_ ?_
    · rintro _ _ (hresult | @⟨⟨context, log⟩, ⟨_, log'⟩, rfl, hlog⟩)
      · exact .pure hresult
      · exact settles_makeResult hrun hlog true _ none
    · rintro (result | state) hdoomed
      · exact .pure hdoomed
      · exact hdoomed.elim

-- Any entry point

/-- The lane an entry point runs in. -/
def laneOf : EntryPoint → Lane
  | .execute _ _ _ | .resume _ | .replay _ _ => .sync
  | .executeAsync _ _ _ | .resumeAsync _ => .async

/-- Whichever entry point is called. -/
theorem settles_enter (h : P.Everywhere) (hslot : P.slot = true) (hstrict : P.strict = false) (stack : Nat)
    (entry : EntryPoint) (hlanes : P.lanes = .both (laneOf entry)) :
    P.Settles P.Lost (P.executor.enter stack entry) (P.other.enter stack entry) (ExecutionResult.Kin P.marks) := by
  have hapart : P.apart = false := by simp [apart, hlanes]
  have hset := h.set (fun hs => absurd hs (by simp [hstrict])) stack
  cases entry with
  | execute flowName input call =>
    exact settles_executeFlowWith hset _ (fun flow hflow => h.fits_any hslot hapart hflow _) hlanes input
  | executeAsync flowName input call =>
    exact settles_executeFlowAsyncWith hset _ (fun flow hflow => h.fits_any hslot hapart hflow _) hlanes input
  | resume traceId => exact settles_resumeFlow h hslot stack hlanes traceId
  | resumeAsync traceId => exact settles_resumeFlowAsync h hslot stack hlanes hstrict traceId
  | replay result start => exact settles_replayRun h hslot hlanes stack result start

/-- Both runs raise, or both return and their results are kin. -/
def SameEnd (marks : Marks) (r r' : Except Exc ExecutionResult) : Prop :=
  Option.Rel (ExecutionResult.Kin marks) r.toOption r'.toOption

/-- Runs of one entry point from one state. -/
theorem enter_sameEnd (hfair : P.Fair) (hresolves : ∀ flowName version flow,
      P.executor.registry.getFlow flowName version = .ok flow → ∀ step ∈ flow.steps, P.Resolves step)
    (hslot : P.slot = true) (hstrict : P.strict = false) (hlanes : P.lanes = .both (laneOf entry))
    (hrun : (P.executor.enter stack entry).Runs s events r t) (hrun' : (P.other.enter stack entry).Runs s events' r' t')
    (hsteady : ∀ e ∈ events, P.executor.Steady P.answer P.cached e)
    (hsteady' : ∀ e ∈ events', P.executor.Steady P.answer P.cached e) : SameEnd P.marks r r' ∧ P.Alike t t' := by
  have hapart : P.apart = false := by simp [apart, hlanes]
  have heverywhere : P.Everywhere :=
    { fair := hfair
      fits := fun name _ flow hflow => .any hapart hslot (hresolves _ _ flow hflow) name
      resolves := hresolves
      wraps := fun _ _ _ hfalse => absurd hslot (by simp [hfalse]) }
  have hsame : P.Alike s s :=
    { activeFlowVersion := rfl, dryRun := rfl, dryRunUnsupported := rfl, dynamicParams := rfl, decisionCount := rfl
      inReplay := fun _ => rfl, resumeSnapshot := fun _ => rfl, wet := fun h => absurd h (by simp [hapart])
      fresh := fun h => absurd h (by simp [hapart]) }
  have hsettles := settles_enter heverywhere hslot hstrict stack entry hlanes
  cases hsettles _ _ _ _ _ _ _ _ hsame hrun hrun' hsteady hsteady' with
  | ok hresult ht => exact ⟨.some hresult, ht⟩
  | error _ ht => exact ⟨.none, ht⟩
  | missed hlost => exact absurd hlost.1 (by simp [hapart])

end ChainWeaver.Duet

namespace ChainWeaver.Executor

/-- Whether an error is retried goes by its class. -/
def RetriesByClass (platform : Platform) : Prop :=
  ∀ names retryable, platform.resolveErrors names = .ok retryable →
    ∀ e e' : Exc, e.typeName = e'.typeName → retryable e = retryable e'

end ChainWeaver.Executor
