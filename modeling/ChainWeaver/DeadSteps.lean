import ChainWeaver.Advice
import ChainWeaver.Landing

/-!
# Removing a step

A step can be taken out of a linear flow without a change to the later steps if they look
at none of the context keys its outputs land under. `_suggest_dead_steps` compares declared
fields with plain sources and declared fields, and overlooks the rest: pointers, renamed
outputs, steps that hand the whole context on. Where it overlooks nothing its advice is
sound (`flagged_removable`); a pointer is enough to make it wrong (`pointer_overlooked`).
-/

namespace ChainWeaver

/-- The flow without the step at the index. -/
def Flow.without (flow : Flow) (index : Nat) : Flow := { flow with steps := flow.steps.eraseIdx index }

namespace Executor

open Interaction (AnsweredAlike Comparison Comp)

variable {executor : Executor} {nested : Nested} {mode : LinearMode} {info : RunInfo} {flow flow' : Flow} {lane : Lane}
  {cancellation : Cancellation} {step : FlowStep} {context context' : Dict} {log log' : List StepRecord}
  {keys : String → Prop}

-- Runs of the loop


theorem runs_linearLoop_cons {stepIndex : Nat} {rest : List FlowStep} :
    (executor.linearLoop mode nested info flow cancellation (step :: rest) stepIndex context log).Runs s events
        (.ok progress) t ↔
      (∃ result, progress = .ended result ∧
        (executor.linearStep mode nested info flow cancellation stepIndex step context log).Runs s events
          (.ok (.ended result)) t) ∨
      ∃ first state middle second, events = first ++ second ∧
        (executor.linearStep mode nested info flow cancellation stepIndex step context log).Runs s first
          (.ok (.going state)) middle ∧
        (executor.linearLoop mode nested info flow cancellation rest (stepIndex + 1) state.1 state.2).Runs middle
          second (.ok progress) t := by
  rw [linearLoop, Comp.runs_bind_ok]
  constructor
  · rintro ⟨first, turn, middle, second, rfl, hturn, hrest⟩
    cases turn with
    | ended result =>
      obtain ⟨rfl, hprogress, rfl⟩ := Comp.runs_pure.1 hrest
      exact .inl ⟨result, Except.ok.inj hprogress, by simpa using hturn⟩
    | going state => exact .inr ⟨first, state, middle, second, rfl, hturn, hrest⟩
  · rintro (⟨result, rfl, hturn⟩ | ⟨first, state, middle, second, rfl, hturn, hrest⟩)
    · exact ⟨events, _, t, [], by simp, hturn, Comp.runs_pure.2 ⟨rfl, rfl, rfl⟩⟩
    · exact ⟨first, _, middle, second, rfl, hturn, hrest⟩

/-- A run of the loop over two lists is one over the first, and if that does not end the
flow one over the second. -/
theorem runs_linearLoop_append {stepIndex : Nat} {steps rest : List FlowStep} :
    (executor.linearLoop mode nested info flow cancellation (steps ++ rest) stepIndex context log).Runs s events
        (.ok progress) t ↔
      (∃ result, progress = .ended result ∧
        (executor.linearLoop mode nested info flow cancellation steps stepIndex context log).Runs s events
          (.ok (.ended result)) t) ∨
      ∃ first state middle second, events = first ++ second ∧
        (executor.linearLoop mode nested info flow cancellation steps stepIndex context log).Runs s first
          (.ok (.going state)) middle ∧
        (executor.linearLoop mode nested info flow cancellation rest (stepIndex + steps.length) state.1 state.2).Runs
          middle second (.ok progress) t := by
  induction steps generalizing stepIndex context log s events with
  | nil =>
    constructor
    · exact fun hrun => .inr ⟨[], (context, log), s, events, rfl, Comp.runs_pure.2 ⟨rfl, rfl, rfl⟩, hrun⟩
    · rintro (⟨result, _, hended⟩ | ⟨first, state, middle, second, rfl, hgoing, hrest⟩)
      · obtain ⟨_, hended, _⟩ := Comp.runs_pure.1 hended
        cases hended
      · obtain ⟨rfl, hstate, rfl⟩ := Comp.runs_pure.1 hgoing
        cases hstate
        exact hrest
  | cons step steps ih =>
    rw [List.cons_append, runs_linearLoop_cons]
    simp only [ih, runs_linearLoop_cons, List.length_cons]
    constructor
    · rintro (⟨result, rfl, hturn⟩ | ⟨first, state, middle, second, rfl, hturn, hloop⟩)
      · exact .inl ⟨result, rfl, .inl ⟨result, rfl, hturn⟩⟩
      · rcases hloop with ⟨result, rfl, hended⟩ | ⟨first', state', middle', second', rfl, hgoing, hrest⟩
        · exact .inl ⟨result, rfl, .inr ⟨first, state, middle, second, rfl, hturn, hended⟩⟩
        · refine .inr ⟨first ++ first', state', middle', second', by simp, .inr ?_, ?_⟩
          · exact ⟨first, state, middle, first', rfl, hturn, hgoing⟩
          · rwa [Nat.add_assoc, Nat.add_comm 1] at hrest
    · rintro (⟨result, rfl, hsteps⟩ | ⟨first, state, middle, second, rfl, hsteps, hrest⟩)
      · rcases hsteps with ⟨result', hresult, hturn⟩ | ⟨first, state, middle, second, rfl, hturn, hended⟩
        · exact .inl ⟨result, rfl, by cases hresult; exact hturn⟩
        · exact .inr ⟨first, state, middle, second, rfl, hturn, .inl ⟨result, rfl, hended⟩⟩
      · rcases hsteps with ⟨result, hresult, _⟩ | ⟨first', state', middle', second', rfl, hturn, hgoing⟩
        · cases hresult
        · refine .inr ⟨first', state', middle', second' ++ second, by simp, hturn, .inr ?_⟩
          refine ⟨second', state, middle, second, rfl, hgoing, ?_⟩
          rwa [Nat.add_assoc, Nat.add_comm 1]

-- The parts of a turn

/-- The context has lost keys at most, and agrees off the given ones. -/
structure Shrunk (keys : String → Prop) (context context' : Dict) : Prop where
  agree : AgreeOff keys context context'
  kept : ∀ key, context'.contains key = true → context.contains key = true

theorem Shrunk.update (h : Shrunk keys context context') (mapped : Dict) :
    Shrunk keys (context.update mapped) (context'.update mapped) where
  agree key hkey := by rw [OrderedDict.get?_update, OrderedDict.get?_update, h.agree key hkey]
  kept key hkey := by
    rw [OrderedDict.contains_update, Bool.or_eq_true] at hkey ⊢
    exact hkey.imp_left (h.kept key)

/-- What a step has added is lost without it. -/
theorem Shrunk.of_update {mapped : Dict} (h : ∀ key, mapped.contains key = true → keys key) (context : Dict) :
    Shrunk keys (context.update mapped) context where
  agree key hkey := by
    have hnone : mapped.get? key = none := by
      by_contra hsome
      obtain ⟨value, hvalue⟩ := Option.ne_none_iff_exists'.1 hsome
      exact hkey (h key (OrderedDict.contains_iff.2 ⟨value, hvalue⟩))
    rw [OrderedDict.get?_update, hnone, Option.none_or]
  kept key hkey := by rw [OrderedDict.contains_update, hkey, Bool.true_or]

theorem collisions_shrunk {mapped : Dict} (h : Shrunk keys context context') (hnone : collisions context mapped = []) :
    collisions context' mapped = [] := by
  unfold collisions at *
  rw [List.filter_eq_nil_iff] at hnone ⊢
  exact fun key hkey hcontains => hnone key hkey (h.kept key hcontains)

/-- Outputs that the larger context takes in, the smaller one takes in too. -/
theorem mergeMapped_shrunk {mapped : Dict} (h : Shrunk keys context context')
    (hmerge : mergeMapped context mapped policy flowName stepIndex stepName = .ok merged) :
    merged = context.update mapped ∧
      mergeMapped context' mapped policy flowName stepIndex' stepName = .ok (context'.update mapped) := by
  unfold mergeMapped at hmerge ⊢
  cases policy with
  | error =>
    cases hcollisions : collisions context mapped with
    | nil =>
      rw [hcollisions] at hmerge
      rw [collisions_shrunk h hcollisions]
      exact ⟨(Except.ok.inj hmerge).symm, rfl⟩
    | cons key rest =>
      rw [hcollisions] at hmerge
      cases hmerge
  | overwrite => exact ⟨(Except.ok.inj hmerge).symm, rfl⟩
  | warn => exact ⟨(Except.ok.inj hmerge).symm, rfl⟩

theorem mapOutputs_index {pairs : List (String × String)} {mapped result outputs : Dict}
    (h : mapOutputs outputs toolName stepIndex pairs mapped = .ok result) :
    mapOutputs outputs toolName stepIndex' pairs mapped = .ok result := by
  induction pairs generalizing mapped with
  | nil => exact h
  | cons pair rest ih =>
    obtain ⟨contextKey, outputKey⟩ := pair
    unfold mapOutputs at h ⊢
    cases hget : outputs.get? outputKey with
    | none =>
      rw [hget] at h
      cases h
    | some value =>
      rw [hget] at h
      exact ih h

theorem applyOutputMapping_index {outputs : Dict}
    (h : applyOutputMapping outputs mapping toolName stepIndex = .ok mapped) :
    applyOutputMapping outputs mapping toolName stepIndex' = .ok mapped := by
  cases mapping with
  | none => exact h
  | some mapping => exact mapOutputs_index h

theorem follows_makeResult {output output' : Option Dict} :
    executor.Follows (executor.makeResult info success output log count)
      (executor.makeResult info success output' log' count') fun result result' =>
        (result.executionLog = log ∧ result'.executionLog = log') ∧
          result.finalOutput = output ∧ result'.finalOutput = output' := by
  unfold makeResult
  refine .get_bind fun state state' hstate => ?_
  refine .bind_same ?_ fun _ => .bind_same related_fire fun _ => .pure ⟨⟨rfl, rfl⟩, rfl, rfl⟩
  unfold deleteSnapshot
  dsimp only
  split
  · exact .bind_same (related_perform rfl) fun _ => follows_ofExcept_same _
  · exact .pure rfl

theorem follows_checkCancellation {stepIndex stepIndex' : Nat} :
    executor.Follows (executor.checkCancellation info stepIndex cancellation log)
      (executor.checkCancellation info stepIndex' cancellation log') Eq := by
  have hlate : executor.Follows (deadlineExceeded cancellation) (deadlineExceeded cancellation) Eq := by
    unfold deadlineExceeded
    split
    · exact .pure rfl
    · exact .bind_same (related_perform trivial) fun _ => .pure rfl
  have hcancelled : executor.Follows (tokenCancelled cancellation) (tokenCancelled cancellation) Eq := by
    unfold tokenCancelled
    split
    · exact related_perform trivial
    · exact .pure rfl
  unfold checkCancellation
  refine .bind_same hlate fun late => .bind_same hcancelled fun cancelled => ?_
  split
  · exact .bind_same related_probe fun _ => .bind follows_makeResult fun _ _ _ => .throw trivial
  · exact .pure rfl

/-- The hashes of the tools of either flow can be taken, or of neither. -/
abbrev HashedAlike (executor : Executor) (flow flow' : AnyFlow) : Prop :=
  (executor.toolSchemaHashes flow'.steps .empty).isOk = (executor.toolSchemaHashes flow.steps .empty).isOk

theorem follows_saveSnapshot {flow flow' : AnyFlow} (h : executor.HashedAlike flow flow') :
    executor.Follows (executor.saveSnapshot info flow context log completed)
      (executor.saveSnapshot info flow' context' log' completed') Eq := by
  unfold saveSnapshot
  refine .get_bind fun state state' hstate => ?_
  rw [show state'.dryRun = state.dryRun by rw [hstate.same]]
  split
  · refine .bind (V := fun _ _ => True) (follows_ofExcept ?_) fun _ _ _ => ?_
    · unfold HashedAlike at h
      revert h
      generalize executor.toolSchemaHashes flow.steps .empty = hashes
      generalize executor.toolSchemaHashes flow'.steps .empty = hashes'
      intro h
      cases hashes <;> cases hashes' <;> first | exact .ok trivial | exact .error trivial | cases h
    · exact .bind_same (related_perform trivial) fun _ => follows_ofExcept_same _
  · exact .pure rfl

theorem raise_never {e : Exc} : ¬(raise e : Exec α).Runs s events (.ok value) t := by
  intro hrun
  obtain ⟨_, _, _, _, _, _, hthrow⟩ := Comp.runs_bind_ok.1 hrun
  obtain ⟨_, hthrow, _⟩ := Comp.runs_throw.1 hthrow
  cases hthrow

theorem ofExcept_simulates {C : Comparison Effects RunScopedState} {V : α → β → Prop} {x : Except Exc α}
    {x' : Except Exc β} (h : ∀ value, x = .ok value → ∃ value', x' = .ok value' ∧ V value value') :
    C.Simulates (ofExcept x) (ofExcept x') V := by
  cases x with
  | ok value =>
    obtain ⟨value', rfl, hv⟩ := h value rfl
    exact .pure hv
  | error e => exact .of_never fun _ _ _ _ => raise_never

theorem probe_simulates {mark mark' : Probe} : executor.comparison.Simulates (probe mark) (probe mark') Eq :=
  .ask trivial

theorem mergeOutputs_simulates (hmode : mode.resumed = false) (hshrunk : Shrunk keys context context')
    (hrecord : executor.Counterpart record record') :
    executor.comparison.Simulates (mergeOutputs mode info policy step stepIndex context record)
      (mergeOutputs mode info policy step stepIndex' context' record') (Shrunk keys) := by
  unfold mergeOutputs
  rw [hrecord.outputs]
  cases record.outputs with
  | none =>
    rw [if_neg (by simp [hmode]), if_neg (by simp [hmode])]
    exact (follows_displayName.bind fun _ _ _ => follows_raise).simulates
  | some outputs =>
    refine follows_displayName.simulates.bind ?_
    rintro name _ ⟨rfl, -⟩
    have hmapped : executor.comparison.Simulates
        (ofExcept (applyOutputMapping outputs step.outputMapping name stepIndex))
        (ofExcept (applyOutputMapping outputs step.outputMapping name stepIndex')) Eq :=
      ofExcept_simulates fun mapped h => ⟨mapped, applyOutputMapping_index h, rfl⟩
    refine hmapped.bind_same fun mapped => .bind_same probe_simulates fun _ => ?_
    rw [if_neg (by simp [hmode]), if_neg (by simp [hmode])]
    refine ofExcept_simulates fun merged hmerge => ?_
    obtain ⟨rfl, hmerge'⟩ := mergeMapped_shrunk hshrunk hmerge
    exact ⟨_, hmerge', hshrunk.update mapped⟩

-- A turn, and the turns after it

/-- The turns log counterparts, and go on with contexts that agree. -/
inductive TurnAlike (executor : Executor) (keys : String → Prop) (log log' : List StepRecord) :
    Progress (Dict × List StepRecord) → Progress (Dict × List StepRecord) → Prop
  | ended : executor.Counterpart record record' → result.executionLog = log ++ [record] →
      result'.executionLog = log' ++ [record'] → TurnAlike executor keys log log' (.ended result) (.ended result')
  | going {merged merged' : Dict} : executor.Counterpart record record' → Shrunk keys merged merged' →
      TurnAlike executor keys log log' (.going (merged, log ++ [record])) (.going (merged', log' ++ [record']))

theorem reraise_never : ¬(executor.reraiseSubflowCancellation info step index log sub message late cancelled :
    Exec α).Runs s events (.ok value) t := by
  intro hrun
  have hnever : (frame fun _ => True).Given (fun _ => True)
      (executor.reraiseSubflowCancellation info step index log sub message late cancelled : Exec α)
      (fun _ => False) fun _ => True :=
    reraise_given (trusted_anything executor _)
  exact (hnever _ _ _ _ trivial (fun _ _ => trivial) hrun).2

theorem linearStep_simulates (hn : executor.Recurs nested) (hmode : mode.resumed = false)
    (hpolicy : flow'.onContextCollision = flow.onContextCollision)
    (hhashed : executor.HashedAlike (.linear flow) (.linear flow')) (hblind : executor.Blind keys step)
    (hshrunk : Shrunk keys context context') :
    executor.comparison.Simulates
      (executor.linearStep mode nested info flow cancellation stepIndex step context log)
      (executor.linearStep mode nested info flow' cancellation stepIndex' step context' log')
      (executor.TurnAlike keys log log') := by
  have hturn : executor.Follows (executor.checkTurn mode info stepIndex cancellation log)
      (executor.checkTurn mode info stepIndex' cancellation log') Eq := by
    unfold checkTurn
    rw [if_neg (by simp [hmode]), if_neg (by simp [hmode])]
    exact follows_checkCancellation
  unfold linearStep
  refine hturn.simulates.bind_same fun _ => ?_
  refine (follows_executeStepIn hn hblind hshrunk.agree).attempt_simulates.bind ?_
  rintro _ _ (hrecord | _)
  · next record record' =>
    dsimp only
    rw [hrecord.success]
    split
    · refine follows_makeResult.simulates.bind ?_
      rintro result result' ⟨⟨hlog, hlog'⟩, -⟩
      exact .pure (.ended hrecord hlog hlog')
    · rw [hpolicy]
      refine (mergeOutputs_simulates hmode hshrunk hrecord).bind fun merged merged' hmerged => ?_
      exact (follows_saveSnapshot hhashed).simulates.bind_same fun _ => .pure (.going hrecord hmerged)
  · refine .of_never fun s events value t hrun => ?_
    dsimp only at hrun
    split at hrun
    · split at hrun
      · obtain ⟨_, hthrow, _⟩ := Comp.runs_throw.1 hrun
        cases hthrow
      · exact reraise_never hrun
    · obtain ⟨_, hthrow, _⟩ := Comp.runs_throw.1 hrun
      cases hthrow
    · next heq => cases heq

/-- The log a part of a run leaves. -/
def logged : Progress (Dict × List StepRecord) → List StepRecord
  | .ended result => result.executionLog
  | .going state => state.2

/-- The turns after a step go on alike without it. -/
theorem linearLoop_simulates (hn : executor.Recurs nested) (hmode : mode.resumed = false)
    (hpolicy : flow'.onContextCollision = flow.onContextCollision)
    (hhashed : executor.HashedAlike (.linear flow) (.linear flow')) {steps : List FlowStep}
    (hblind : ∀ step ∈ steps, executor.Blind keys step) (hshrunk : Shrunk keys context context') :
    executor.comparison.Simulates
      (executor.linearLoop mode nested info flow cancellation steps stepIndex context log)
      (executor.linearLoop mode nested info flow' cancellation steps stepIndex' context' log')
      fun progress progress' => ∃ later later', logged progress = log ++ later ∧
        logged progress' = log' ++ later' ∧ List.Forall₂ executor.Counterpart later later' := by
  induction steps generalizing stepIndex stepIndex' context context' log log' with
  | nil => exact .pure ⟨[], [], by simp [logged], by simp [logged], .nil⟩
  | cons step rest ih =>
    rw [linearLoop, linearLoop]
    refine (linearStep_simulates hn hmode hpolicy hhashed (hblind step List.mem_cons_self) hshrunk).bind ?_
    intro turn turn' halike
    cases halike with
    | ended hrecord hlog hlog' => exact .pure ⟨_, _, hlog, hlog', .cons hrecord .nil⟩
    | @going record record' merged merged' hrecord hshrunk =>
      refine (ih (fun step hmem => hblind step (List.mem_cons_of_mem _ hmem)) hshrunk).post ?_
      rintro progress progress' ⟨later, later', hlater, hlater', halike⟩
      exact ⟨record :: later, record' :: later', by simp [hlater], by simp [hlater'], .cons hrecord halike⟩

-- The turns before a step

/-- Computations that start in the same state. -/
abbrev exactly : Comparison Effects RunScopedState where
  like := alike
  state := Eq

theorem exactly_refl {c : Exec α} : exactly.Simulates c c Eq := .refl alike_refl fun _ _ => Iff.rfl

theorem saveSnapshot_exactly {flow flow' : AnyFlow} (h : executor.HashedAlike flow flow') :
    exactly.Simulates (executor.saveSnapshot info flow context log completed)
      (executor.saveSnapshot info flow' context log completed) Eq := by
  unfold saveSnapshot
  refine .get_bind fun state state' hstate => ?_
  obtain rfl : state = state' := hstate
  split
  · have hhashes : exactly.Simulates (ofExcept (executor.toolSchemaHashes flow.steps .empty))
        (ofExcept (executor.toolSchemaHashes flow'.steps .empty)) fun _ _ => True := by
      refine ofExcept_simulates fun hashes hok => ?_
      unfold HashedAlike at h
      rw [hok] at h
      cases hother : executor.toolSchemaHashes flow'.steps .empty with
      | ok hashes' => exact ⟨hashes', rfl, trivial⟩
      | error e =>
        rw [hother] at h
        cases h
    refine hhashes.bind fun _ _ _ => .bind_same ?_ fun _ => exactly_refl
    exact .ask trivial
  · exact exactly_refl

/-- The turns of other steps of the flow are the same but for the snapshots. -/
theorem linearLoop_exactly (hpolicy : flow'.onContextCollision = flow.onContextCollision)
    (hhashed : executor.HashedAlike (.linear flow) (.linear flow')) {steps : List FlowStep} :
    exactly.Simulates (executor.linearLoop mode nested info flow cancellation steps stepIndex context log)
      (executor.linearLoop mode nested info flow' cancellation steps stepIndex context log) Eq := by
  induction steps generalizing stepIndex context log with
  | nil => exact exactly_refl
  | cons step rest ih =>
    rw [linearLoop, linearLoop]
    refine .bind_same ?_ fun turn => ?_
    · unfold linearStep
      rw [hpolicy]
      refine exactly_refl.bind_same fun _ => exactly_refl.bind_same fun outcome => ?_
      cases outcome with
      | error e => cases e <;> exact exactly_refl
      | ok record =>
        dsimp only
        split
        · exact exactly_refl
        · exact exactly_refl.bind_same fun _ => (saveSnapshot_exactly hhashed).bind_same fun _ => exactly_refl
    · cases turn with
      | ended result => exact exactly_refl
      | going state => exact ih

-- What a turn leaves

section

variable {Inv : RunScopedState → Prop} {A : Event → Prop} {Q : StepRecord → Prop}

/-- The outputs of the record are in the context, under the keys of the step. -/
structure Merged (step : FlowStep) (context : Dict) (record : StepRecord) (merged : Dict) : Prop where
  named : step.displayName?.isSome = true
  mapped : ∃ outputs name stepIndex mapped, record.outputs = some outputs ∧
    applyOutputMapping outputs step.outputMapping name stepIndex = .ok mapped ∧ merged = context.update mapped

theorem leaves_mergeOutputs :
    Leaves Inv A (mergeOutputs mode info policy step stepIndex context record) (Merged step context record) := by
  unfold mergeOutputs
  split
  · split
    · exact given_raise trivial
    · exact (given_displayName trivial).bind fun _ _ => given_raise trivial
  next outputs houtputs =>
  refine (given_displayName trivial).bind fun name hname => (leaves_ofExcept _).bind fun mapped hmapped => ?_
  have hnamed : step.displayName?.isSome = true := by rw [hname]; rfl
  refine .ask_bind fun _ _ => ?_
  split
  · exact .pure ⟨hnamed, outputs, name, _, mapped, houtputs, hmapped, rfl⟩
  · refine (leaves_ofExcept _).post fun merged hmerged => ?_
    exact ⟨hnamed, outputs, name, _, mapped, houtputs, hmapped, mergeMapped_ok hmerged⟩

/-- A turn logs one record, and goes on where that is one of success. -/
theorem leaves_linearStep (hstep : ∀ stepInfo, Leaves Inv A
    (executor.executeStepIn mode.lane nested stepInfo step context cancellation) Q) :
    Leaves Inv A (executor.linearStep mode nested info flow cancellation stepIndex step context log)
      (Stage (fun state => ∃ record, Q record ∧ record.success = true ∧ Merged step context record state.1 ∧
        state.2 = log ++ [record]) fun result => ∃ record, Q record ∧ result.executionLog = log ++ [record]) := by
  have htrusted := trusted_anything executor A
  unfold linearStep
  refine (checkTurn_given htrusted).bind fun _ _ => .attempt_bind (hstep _) (fun record hrecord => ?_) fun e _ => ?_
  · dsimp only
    split
    · exact ended_given htrusted fun result hlog => ⟨record, hrecord, hlog⟩
    next hsuccess =>
    refine leaves_mergeOutputs.bind fun merged hmerged => (saveSnapshot_given htrusted).bind fun _ _ => ?_
    exact .pure ⟨record, hrecord, by simpa using hsuccess, hmerged, rfl⟩
  · split
    · split
      · exact .throw trivial
      · exact reraise_given htrusted
    · exact .throw trivial
    · next heq => cases heq

/-- The loop logs one record a turn. -/
theorem linearLoop_logged {steps : List FlowStep} :
    anyFrame.Given anyEvent (executor.linearLoop mode nested info flow cancellation steps stepIndex context log)
      (Stage (fun state => state.2.length = log.length + steps.length)
        fun result => result.executionLog.length ≤ log.length + steps.length) anyError := by
  induction steps generalizing stepIndex context log with
  | nil => exact .pure rfl
  | cons step rest ih =>
    unfold linearLoop
    refine (leaves_linearStep (Q := fun _ => True) fun _ => given_any).bind fun turn hturn => ?_
    cases turn with
    | ended result =>
      obtain ⟨record, -, hlog⟩ := hturn
      refine .pure ?_
      simp only [Stage, hlog, List.length_append, List.length_cons, List.length_nil]
      omega
    | going state =>
      obtain ⟨record, -, -, -, hlog⟩ := hturn
      refine ih.post fun progress hprogress => ?_
      have hlength : state.2.length + rest.length = log.length + (step :: rest).length := by
        rw [hlog, List.length_append, List.length_cons, List.length_nil, List.length_cons]
        omega
      rw [hlength] at hprogress
      exact hprogress

end

-- The flow without the step

variable {A : Event → Prop} {index : Nat}

theorem toolSchemaHashes_isOk {steps : List FlowStep} {hashes : OrderedDict String} :
    (executor.toolSchemaHashes steps hashes).isOk = steps.all fun step => step.displayName?.isSome := by
  induction steps generalizing hashes with
  | nil => rfl
  | cons step rest ih =>
    unfold toolSchemaHashes
    cases hname : step.displayName? with
    | none => simp [hname, Except.isOk, Except.toBool]
    | some name =>
      rw [List.all_cons, hname]
      dsimp only
      split
      · rw [ih, Option.isSome_some, Bool.true_and]
      · rw [ih, Option.isSome_some, Bool.true_and]

theorem eraseIdx_at {before after : List FlowStep} (hsteps : flow.steps = before ++ step :: after) :
    (flow.without before.length).steps = before ++ after := by
  simp [Flow.without, hsteps, List.eraseIdx_append_of_length_le]

theorem hashedAlike_without {before after : List FlowStep} (hsteps : flow.steps = before ++ step :: after)
    (hname : step.displayName?.isSome = true) :
    executor.HashedAlike (.linear flow) (.linear (flow.without before.length)) := by
  unfold HashedAlike
  rw [toolSchemaHashes_isOk, toolSchemaHashes_isOk]
  simp [AnyFlow.steps, hsteps, eraseIdx_at hsteps, hname]

/-- The context keys the outputs of the step may land under: those of its output mapping
or, without one, those that a tool it employs lets out. -/
inductive Lands (executor : Executor) (A : Event → Prop) (step : FlowStep) (key : String) : Prop
  | mapped : step.outputMapping = some mapping → mapping.contains key = true → Lands executor A step key
  | validated : step.outputMapping = none → name ∈ executor.employed step → executor.getTool name = .ok tool →
      executor.platform.modelValidate tool.outputSchema value = .ok outputs → outputs.contains key = true →
      Lands executor A step key
  | cached : step.outputMapping = none → name ∈ executor.employed step → executor.getTool name = .ok tool →
      A ⟨.cacheGet, entry, .ok (some outputs)⟩ → tool.name = entry.toolName →
      tool.schemaHash = entry.schemaHash → outputs.contains key = true → Lands executor A step key

/-- Outputs a tool step gives land under its keys. -/
abbrev LandsWithin (executor : Executor) (A : Event → Prop) (step : FlowStep) (outputs : Dict) : Prop :=
  step.outputMapping = none → ∀ key, outputs.contains key = true → executor.Lands A step key

theorem landsWithin_employed :
    ∀ name ∈ executor.employed step, executor.HandsNamed A (executor.LandsWithin A step) name := by
  intro name hname tool htool
  refine ⟨fun value outputs hvalid hnone key hkey => ?_, fun entry outputs hhit hown hhash hnone key hkey => ?_⟩
  · exact .validated hnone hname htool hvalid hkey
  · exact .cached hnone hname htool hhit hown hhash hkey

theorem Merged.shrunk (h : Merged step context record merged)
    (hrecord : ∀ outputs, record.outputs = some outputs → executor.LandsWithin A step outputs) :
    Shrunk (executor.Lands A step) merged context := by
  obtain ⟨outputs, name, stepIndex, mapped, houtputs, hmapped, rfl⟩ := h.mapped
  refine .of_update (fun key hkey => ?_) context
  cases hmapping : step.outputMapping with
  | none =>
    rw [hmapping] at hmapped
    obtain rfl : outputs = mapped := Except.ok.inj hmapped
    exact hrecord outputs houtputs hmapping key hkey
  | some mapping =>
    rw [hmapping] at hmapped
    exact .mapped hmapping ((applyOutputMapping_keys hmapped key).symm.trans hkey)

/-- The analysis takes the later step to read the key, which the step declares to output. -/
def Seen (fields : Advice.FieldNames) (tools : OrderedDict Tool) (step other : FlowStep) (key : String) : Prop :=
  ∃ tool, Advice.toolOf tools step = some tool ∧ key ∈ fields tool.outputSchema ∧
    key ∈ Advice.declaredReads fields tools other

variable (executor) in
/-- The analysis sees all that the later steps look at of the step's outputs, and the step
makes no decision that counts. -/
structure InSight (fields : Advice.FieldNames) (tools : OrderedDict Tool) (A : Event → Prop) (step : FlowStep)
    (later : List FlowStep) : Prop where
  reads : ∀ other ∈ later,
    executor.Blind (fun key => executor.Lands A step key ∧ ¬Seen fields tools step other key) other
  decisions : executor.hasDecisionCallback = true → step.decisionCandidates.isSome = true → executor.budgetOf = none

theorem InSight.blind {fields : Advice.FieldNames} {tools : OrderedDict Tool} {later : List FlowStep}
    (h : executor.InSight fields tools A step later) (hflagged : Advice.Flagged fields tools step later tool) :
    ∀ other ∈ later, executor.Blind (executor.Lands A step) other := by
  intro other hother
  have hunseen : (fun key => executor.Lands A step key ∧ ¬Seen fields tools step other key) =
      executor.Lands A step := by
    funext key
    refine propext ⟨And.left, fun hlands => ⟨hlands, ?_⟩⟩
    rintro ⟨tool', htool', houtput, hread⟩
    obtain rfl := Option.some.inj (hflagged.known.symm.trans htool')
    exact hflagged.unread key houtput other hother hread
  rw [← hunseen]
  exact h.reads other hother

/-- The turn of a step of which the later ones see nothing. -/
theorem landed_turn {target : String} (htarget : step.target = .tool target)
    (hdecisions : executor.hasDecisionCallback = true → step.decisionCandidates.isSome = true →
      executor.budgetOf = none)
    (hallowed : ∀ e ∈ events, A e)
    (hturn : (executor.linearStep mode (executor.lanes stack) info flow cancellation stepIndex step context log).Runs s
      events (.ok (.going state)) t) :
    executor.Unlimited t s ∧ step.displayName?.isSome = true ∧ Shrunk (executor.Lands A step) state.1 context ∧
      ∃ record, state.2 = log ++ [record] := by
  have hcount : mode.lane = .sync → executor.hasDecisionCallback = true → step.decisionCandidates.isSome = true →
      ∀ state n, executor.Unlimited state s → executor.Unlimited { state with decisionCount := n } s := by
    intro _ hcallback hcandidates state n hstate
    refine ⟨?_, fun hlimited => ?_⟩
    · rw [hstate.same]
    · rw [hdecisions hcallback hcandidates] at hlimited
      cases hlimited
  have hstep : ∀ stepInfo, Leaves (fun state => executor.Unlimited state s) A
      (executor.executeStepIn mode.lane (executor.lanes stack) stepInfo step context cancellation)
      (Gave (executor.LandsWithin A step)) := by
    intro stepInfo
    refine leaves_executeStepIn (lanes_return stack) (fun _ key hkey => ?_) htarget hcount landsWithin_employed
    simp at hkey
  obtain ⟨hstate, record, hgave, hsuccess, hmerged, hlog⟩ :=
    leaves_linearStep hstep _ _ _ _ (.refl _ s) hallowed hturn
  exact ⟨hstate, hmerged.named, hmerged.shrunk (hgave hsuccess), record, hlog⟩

/-- A run that gets past the step has its like without it: with the same answers, but for
those the step got, the later steps are fed the same declared inputs and go the same way. -/
def Removable (executor : Executor) (A : Event → Prop) (flow : Flow) (index : Nat) : Prop :=
  ∀ (lane : Lane) (stack : Nat) (info : RunInfo) (cancellation : Cancellation) (context : Dict)
    (s t : RunScopedState) (events : List Event) (progress : Progress (Dict × List StepRecord)),
    (∀ e ∈ events, A e) →
    (executor.linearLoop ⟨lane, false⟩ (executor.lanes stack) info flow cancellation flow.steps 0 context []).Runs s
      events (.ok progress) t →
    index + 1 < (logged progress).length →
    ∃ before turn after events' progress' t', events = before ++ turn ++ after ∧
      AnsweredAlike alike (before ++ after) events' ∧
      (executor.linearLoop ⟨lane, false⟩ (executor.lanes stack) info (flow.without index) cancellation
        (flow.without index).steps 0 context []).Runs s events' (.ok progress') t' ∧
      ∃ done record later later', done.length = index ∧ logged progress = done ++ record :: later ∧
        logged progress' = done ++ later' ∧ List.Forall₂ executor.Counterpart later later'

theorem removable_of_blind {before after : List FlowStep} {target : String}
    (hsteps : flow.steps = before ++ step :: after) (htarget : step.target = .tool target)
    (hdecisions : executor.hasDecisionCallback = true → step.decisionCandidates.isSome = true →
      executor.budgetOf = none)
    (hblind : ∀ other ∈ after, executor.Blind (executor.Lands A step) other) :
    executor.Removable A flow before.length := by
  intro lane stack info cancellation context s t events progress hallowed hrun hlength
  rw [hsteps, runs_linearLoop_append] at hrun
  rcases hrun with ⟨result, rfl, hended⟩ | ⟨first, ⟨middle, log⟩, u, rest, rfl, hbefore, hrest⟩
  · have hlog : result.executionLog.length ≤ 0 + before.length :=
      (linearLoop_logged _ _ _ _ trivial (fun _ _ => trivial) hended).2
    rw [logged] at hlength
    omega
  have hdone : log.length = 0 + before.length := (linearLoop_logged _ _ _ _ trivial (fun _ _ => trivial) hbefore).2
  rw [runs_linearLoop_cons] at hrest
  rcases hrest with ⟨result, rfl, hended⟩ | ⟨turn, ⟨merged, _⟩, v, last, rfl, hturn, hlast⟩
  · obtain ⟨record, -, hlog⟩ :=
      (leaves_linearStep (Q := fun _ => True) (fun _ => given_any) _ _ _ _ trivial (fun _ _ => trivial) hended).2
    rw [logged, hlog, List.length_append, hdone, List.length_singleton] at hlength
    omega
  have hallowedTurn : ∀ e ∈ turn, A e := fun e he => hallowed e (by simp [he])
  obtain ⟨hstate, hnamed, hshrunk, record, rfl⟩ := landed_turn htarget hdecisions hallowedTurn hturn
  have hhashed : executor.HashedAlike (.linear flow) (.linear (flow.without before.length)) :=
    hashedAlike_without hsteps hnamed
  have hpolicy : (flow.without before.length).onContextCollision = flow.onContextCollision := rfl
  obtain ⟨first', _, u', hbefore', hfirst, rfl, hu⟩ := linearLoop_exactly hpolicy hhashed _ _ _ _ _ rfl hbefore
  obtain rfl : u = u' := hu
  obtain ⟨last', progress', t', hlast', hlater, ⟨later, later', hlog, hlog', halike⟩, -⟩ :=
    linearLoop_simulates (lanes_recurs stack) rfl hpolicy hhashed hblind hshrunk _ _ _ _ _ hstate hlast
  refine ⟨first, turn, last, first' ++ last', progress', t', by simp, List.rel_append hfirst hlater, ?_, ?_⟩
  · rw [eraseIdx_at hsteps]
    exact runs_linearLoop_append.2 (.inr ⟨first', _, u, last', rfl, hbefore', hlast'⟩)
  · exact ⟨log, record, later, later', by simpa using hdone, by simpa using hlog, hlog', halike⟩

/-- Advice to remove a step is sound where the analysis has the step in sight. -/
theorem flagged_removable {fields : Advice.FieldNames} {tools : OrderedDict Tool} {suggestion : Advice.Suggestion}
    (hmem : suggestion ∈ Advice.suggestDeadSteps fields flow (some tools))
    (hindex : suggestion.stepIndex = some index) (hstep : flow.steps[index]? = some step)
    (hsight : executor.InSight fields tools A step (flow.steps.drop (index + 1))) :
    executor.Removable A flow index := by
  obtain ⟨flagged, tool, hflagged, hflag⟩ := Advice.flagged_of_mem hmem hindex
  obtain rfl := Option.some.inj (hflagged.symm.trans hstep)
  obtain ⟨hlt, hget⟩ := List.getElem?_eq_some_iff.1 hstep
  have hsteps : flow.steps = flow.steps.take index ++ flagged :: flow.steps.drop (index + 1) := by
    rw [← hget, List.cons_getElem_drop_succ, List.take_append_drop]
  have hplace : (flow.steps.take index).length = index := List.length_take_of_le hlt.le
  obtain ⟨target, htarget⟩ : ∃ target, flagged.target = .tool target := by
    have hknown := hflag.known
    unfold Advice.toolOf Advice.toolName? at hknown
    split at hknown
    · next target htarget => exact ⟨target, htarget⟩
    · cases hknown
  have hremovable := removable_of_blind hsteps htarget hsight.decisions (hsight.blind hflag)
  rwa [hplace] at hremovable

-- A pointer

/-- A step whose tool makes what it is named after, and one that reads the source. -/
def makeAndUse (make : FlowStep) (source : String) : Flow :=
  { name := "f", steps := [make, Sample.taking [("x", .str source)] (Sample.step "use")] }

def makers : List Tool := [Sample.tool "make", Sample.tool "use"]

/-- The tools declare one output, `make`, and no input. -/
def makersFields : Advice.FieldNames := fun schema => if schema = "Out" then ["make"] else []

theorem makeAndUse_flagged (make : FlowStep) (source : String) (hmake : make.target = .tool "make")
    (hsource : source ≠ "make") :
    ∃ suggestion ∈ Advice.suggestDeadSteps makersFields (makeAndUse make source)
      (some (ChainAnalyzer.indexed makers)), suggestion.stepIndex = some 0 := by
  have hflagged : Advice.Flagged makersFields (ChainAnalyzer.indexed makers) make
      [Sample.taking [("x", .str source)] (Sample.step "use")] (Sample.tool "make") := by
    refine ⟨?_, by decide, List.cons_ne_nil _ _, ?_⟩
    · unfold Advice.toolOf Advice.toolName?
      rw [hmake]
      rfl
    · intro name hname other hother
      obtain rfl : name = "make" := List.mem_singleton.1 hname
      obtain rfl : other = Sample.taking [("x", .str source)] (Sample.step "use") := List.mem_singleton.1 hother
      exact fun hread => hsource (List.mem_singleton.1 hread).symm
  exact Advice.exists_of_flagged rfl hflagged

theorem flagged_removable_unread :
    (Sample.executor [] makers).Removable anyEvent
      (makeAndUse (Sample.giving [("kept", "make")] (Sample.step "make")) "seed") 0 := by
  obtain ⟨suggestion, hmem, hindex⟩ :=
    makeAndUse_flagged (Sample.giving [("kept", "make")] (Sample.step "make")) "seed" rfl (by decide)
  refine flagged_removable hmem hindex rfl ⟨?_, fun h => ?_⟩
  · intro other hother
    obtain rfl : other = Sample.taking [("x", .str "seed")] (Sample.step "use") := List.mem_singleton.1 hother
    refine ⟨fun source hsource hlands => ?_, fun hempty => ?_, fun hempty => ?_⟩
    · obtain rfl : source = "seed" := List.mem_singleton.1 hsource
      rcases hlands.1 with ⟨hmapping, hkey⟩ | ⟨hnone, _⟩ | ⟨hnone, _⟩
      · cases hmapping
        cases hkey
      · cases hnone
      · cases hnone
    · cases hempty
    · cases hempty
  · cases h

/-- Inputs that cannot be resolved fail the step. -/
theorem leaves_unresolved {Inv : RunScopedState → Prop} (htarget : step.target = .tool target)
    (hcandidates : step.decisionCandidates = none)
    (h : ∀ stepIndex, ∃ e, ChainWeaver.resolveInputs step context stepIndex = .error e) :
    Leaves Inv A (executor.executeStepIn lane nested stepInfo step context cancellation)
      fun record => record.success = false := by
  have hprepare : ∀ (toolName : String) (record : StepRecord),
      Leaves Inv A (executor.prepareStep stepInfo step toolName context record)
        fun prepared => ∃ failed : StepRecord, prepared = .error failed ∧ failed.success = false := by
    intro toolName record
    unfold prepareStep
    split
    · exact .pure ⟨_, rfl, rfl⟩
    · obtain ⟨e, he⟩ := h stepInfo.stepIndex
      rw [he]
      exact .pure ⟨_, rfl, rfl⟩
  have htool : ∀ lane decision, Leaves Inv A (executor.executeToolStep lane nested stepInfo step decision context)
      fun record => record.success = false := by
    intro lane decision
    unfold executeToolStep
    refine (given_displayName trivial).bind fun toolName _ => (hprepare toolName _).bind fun prepared hprepared => ?_
    obtain ⟨failed, rfl, hfailed⟩ := hprepared
    exact .ask_bind fun _ _ => .pure hfailed
  unfold executeStepIn
  rw [htarget]
  cases lane with
  | async => exact htool _ _
  | sync =>
    refine .bind (Q := fun resolved => resolved = .ok (step, none)) ?_ fun resolved hresolved => ?_
    · unfold resolveDecision
      split
      · exact .pure rfl
      · next hsome => cases hcandidates.symm.trans hsome
    · subst hresolved
      exact htool _ _

/-- Where the inputs of its one step cannot be resolved, no step of the flow succeeds. -/
theorem leaves_alone (htarget : step.target = .tool target) (hcandidates : step.decisionCandidates = none)
    (h : ∀ stepIndex, ∃ e, ChainWeaver.resolveInputs step context stepIndex = .error e) :
    Leaves (fun _ => True) A (executor.linearLoop mode nested info flow cancellation [step] stepIndex context [])
      fun progress => ∀ record ∈ logged progress, record.success = false := by
  unfold linearLoop
  refine (leaves_linearStep fun _ => leaves_unresolved htarget hcandidates h).bind fun turn hturn => ?_
  cases turn with
  | ended result =>
    obtain ⟨record, hfailed, hlog⟩ := hturn
    refine .pure fun other hother => ?_
    rw [logged, hlog] at hother
    obtain rfl : other = record := List.mem_singleton.1 hother
    exact hfailed
  | going state =>
    obtain ⟨record, hfailed, hsuccess, _⟩ := hturn
    cases hfailed.symm.trans hsuccess

/-- The later step reads the output through a pointer, and fails without it. -/
theorem pointer_overlooked :
    (∃ suggestion ∈ Advice.suggestDeadSteps makersFields (makeAndUse (Sample.step "make") "/make")
        (some (ChainAnalyzer.indexed makers)), suggestion.stepIndex = some 0) ∧
      ¬(Sample.executor [] makers).Removable anyEvent (makeAndUse (Sample.step "make") "/make") 0 := by
  refine ⟨makeAndUse_flagged (Sample.step "make") "/make" rfl (by decide), fun hremovable => ?_⟩
  let flow : Flow := makeAndUse (Sample.step "make") "/make"
  let executor : Executor := Sample.executor [] makers
  let info : RunInfo := { flowName := "f", traceId := "0", initialInput := .empty }
  let loop : Exec (Progress (Dict × List StepRecord)) :=
    executor.linearLoop ⟨.sync, false⟩ (executor.lanes 0) info flow {} flow.steps 0 .empty []
  let ran := Interaction.Prog.exec (S := Effects) (Sample.answer Sample.named none) 0 (loop {})
  have hran : (ran.2.1.1.map fun progress => (logged progress).map (·.success)).toOption = some [true, true] := by
    decide +kernel
  obtain ⟨progress, hok, hsuccess⟩ : ∃ progress, ran.2.1.1 = .ok progress ∧
      (logged progress).map (·.success) = [true, true] := by
    generalize ran.2.1.1 = outcome at hran
    cases outcome with
    | ok progress => exact ⟨progress, rfl, Option.some.inj hran⟩
    | error e => cases hran
  have hrun : loop.Runs {} ran.1 (.ok progress) ran.2.1.2 := hok ▸ Interaction.Prog.exec_runs (S := Effects) _ _ _
  have hlength : 0 + 1 < (logged progress).length := by
    rw [← List.length_map (f := (·.success)), hsuccess]
    exact Nat.lt_add_one 1
  obtain ⟨_, _, _, _, progress', _, _, _, hrun', done, record, later, later', hdone, hlog, hlog', halike⟩ :=
    hremovable .sync 0 info {} .empty {} _ _ _ (fun _ _ => trivial) hrun hlength
  obtain rfl := List.length_eq_zero_iff.1 hdone
  have hfailed : ∀ record ∈ logged progress', record.success = false :=
    (leaves_alone (A := fun _ => True) rfl rfl (fun _ => ⟨_, rfl⟩) _ _ _ _ trivial (fun _ _ => trivial) hrun').2
  rw [hlog] at hsuccess
  have hsecond : later.map (·.success) = [true] := (List.cons.inj hsuccess).2
  cases halike with
  | nil => cases hsecond
  | @cons second second' _ _ hcounterpart _ =>
    have hgood : second'.success = true := hcounterpart.success.trans (List.cons.inj hsecond).1
    have hbad : second'.success = false := hfailed second' (by rw [hlog']; exact List.mem_cons_self)
    cases hgood.symm.trans hbad

end Executor

end ChainWeaver
