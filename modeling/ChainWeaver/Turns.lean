import ChainWeaver.Dag
import ChainWeaver.StepTraces

/-!
# Turns

The trace of one step as a whole: what it does before its hooks, between them,
and the hooks themselves. Everything inside is a set of traces `I`.
-/

namespace ChainWeaver.Executor

open Interaction (Closed Frame)

abbrev stepStartEvent (info : StepInfo) (toolName : String) (inputs : Dict) : Event :=
  hookEvent (.stepStart info.traceId info.flowName info.stepIndex toolName inputs)

abbrev stepEndEvent (info : StepInfo) (record : StepRecord) : Event :=
  hookEvent (.stepEnd info.traceId info.flowName record)

/-- The trace of a step that gives a record. -/
inductive Turn (I : List Event → Prop) (info : StepInfo) : StepRecord → List Event → Prop
  /-- The step failed before it started: it only ends. -/
  | lone : I before → record.stepIndex = info.stepIndex → record.success = false →
      Turn I info record (before ++ [stepEndEvent info record])
  | bracket : I before → I body → record.stepIndex = info.stepIndex →
      Turn I info record
        (before ++ [stepStartEvent info toolName inputs] ++ body ++ [stepEndEvent info record])
  /-- The inputs of a sub-flow step cannot be resolved: no hook tells of its record. -/
  | unheard : resolveInputs step context info.stepIndex = .error e →
      record.stepIndex = info.stepIndex → record.success = false →
      Turn I info record [probeEvent (.subInputs info.traceId info.stepIndex step context)]

/-- The trace of a step that raises. -/
inductive Torn (I : List Event → Prop) (info : StepInfo) : List Event → Prop
  | before : I before → Torn I info before
  | inside : I before → I body → Torn I info (before ++ [stepStartEvent info toolName inputs] ++ body)

/-- Some event announces that an exception leaves the code that made it. -/
def Disturbed (events : List Event) : Prop := ∃ e ∈ events, Disturbance e

theorem Disturbed.right (h : Disturbed second) : Disturbed (first ++ second) :=
  h.imp fun _ he => ⟨List.mem_append_right _ he.1, he.2⟩

/-- How a step ends: with its record, or with an exception that left a mark. -/
def StepQ (I : List Event → Prop) (info : StepInfo) : Except Exc StepRecord → List Event → Prop
  | .ok record, events => Turn I info record events
  | .error _, events => Torn I info events ∧ Disturbed events

/-- The invariant says nothing of the fields a run changes. -/
structure Stable (Inv : RunScopedState → Prop) : Prop where
  version : Inv state → Inv { state with activeFlowVersion := v }
  count : Inv state → Inv { state with decisionCount := n }

/-- A kernel is configured and the step gets as far as calling it. -/
def InvokesCapability (executor : Executor) (step : DAGFlowStep) (context : Dict) : Prop :=
  executor.kernel.isSome ∧ step.capabilityId.isSome ∧ (resolveCapabilityInputs step context).isOk

instance : Decidable (InvokesCapability executor step context) :=
  inferInstanceAs (Decidable (_ ∧ _ ∧ _))

/-- `I` admits what the code of a step does apart from its hooks. -/
structure Inside (executor : Executor) (Inv : RunScopedState → Prop) (I : List Event → Prop) (lane : Lane)
    (nested : Nested) (info : StepInfo) : Prop extends StepEvents Inv I lane info where
  decide : ∀ ctx reply, I [⟨.decide, ctx, reply⟩]
  decideTimed : ∀ ctx reply, I [⟨.decideTimed, ctx, reply⟩]
  subInputs : ∀ step context input, resolveInputs step context info.stepIndex = .ok input →
    I [probeEvent (.subInputs info.traceId info.stepIndex step context)]
  refused : ∀ step context, ¬executor.InvokesCapability step context →
    I [probeEvent (.capability step context)]
  invoked : ∀ step context call reply, executor.InvokesCapability step context →
    I [probeEvent (.capability step context), ⟨.kernelInvoke, call, reply⟩]
  subFlow : ∀ step context subName input cancellation, step.target = .flow subName →
    resolveInputs step context info.stepIndex = .ok input → (frame Inv).Upholds I True
      (nestedCall (.step step context info.stepIndex) input
        (nested.entry lane subName input cancellation)) fun _ => True
  toolStep : ∀ step toolName tool inputs record, executor.getTool toolName = .ok tool →
    (frame Inv).Upholds I True
      (executor.runToolStep lane nested info step toolName tool inputs record) (Keeps record)

variable {Inv : RunScopedState → Prop} {I W : List Event → Prop}
variable {executor : Executor} {nested : Nested} {info : StepInfo} {lane : Lane}

/-- A nested call is a piece of the trace around it, between its two marks. -/
theorem nestedCall_upholds {body : Exec α} (h : (frame Inv).Upholds W False body fun _ => True)
    (hW : ∀ raised events, W events →
      I ([probeEvent (.nestedStart origin input)] ++ events ++ [probeEvent (.nestedEnd origin raised)])) :
    (frame Inv).Upholds I origin.Leaves (nestedCall origin input body) fun _ => True := by
  suffices (frame Inv).From [] (nestedCall origin input body) fun r events =>
      I events ∧ (frame Inv).Settled origin.Leaves (fun _ => True) r events from this
  refine .ask_bind fun _ => .upholds_attempt_bind h fun outcome events hevents hsettled =>
    .ask_bind fun _ => ?_
  cases outcome with
  | ok value => exact .pure ⟨hW _ events hevents, trivial⟩
  | error e =>
    refine .throw ⟨hW _ events hevents, fun hleaves => ?_⟩
    exact ⟨probeEvent (.nestedEnd origin true), by simp [Except.isOk, Except.toBool], hleaves, rfl⟩

theorem from_ofExcept {x : Except Exc α} {post : Except Exc α → List Event → Prop}
    (hok : ∀ value, x = .ok value → post (.ok value) history)
    (herror : ∀ e, post (.error e) (history ++ [faultEvent e])) :
    (frame Inv).From history (ofExcept x) post := by
  cases x with
  | ok value => exact .pure (hok value rfl)
  | error e => exact ensures_raise (herror e)

/-- What may raise is followed by the rest of the run, or breaks it off. -/
theorem from_ofExcept_bind {x : Except Exc α} {f : α → Exec β} {post : Except Exc β → List Event → Prop}
    (hok : ∀ value, x = .ok value → (frame Inv).From history (f value) post)
    (herror : ∀ e, post (.error e) (history ++ [faultEvent e])) :
    (frame Inv).From history (ofExcept x >>= f) post := by
  have hx : (frame Inv).From history (ofExcept x) fun r events =>
      (∃ value, x = .ok value ∧ r = .ok value ∧ events = history) ∨
        ∃ e, r = .error e ∧ events = history ++ [faultEvent e] :=
    from_ofExcept (fun value hv => .inl ⟨value, hv, rfl, rfl⟩) fun e => .inr ⟨e, rfl, rfl⟩
  refine .bind hx (fun value events h => ?_) fun e events h => ?_
  · rcases h with ⟨value, hv, hr, rfl⟩ | ⟨e, hr, _⟩
    · obtain rfl := Except.ok.inj hr
      exact hok _ hv
    · cases hr
  · rcases h with ⟨value, _, hr, _⟩ | ⟨e, hr, rfl⟩
    · cases hr
    · obtain rfl := Except.error.inj hr
      exact herror _

/-- A call that may be refused. -/
theorem from_orRefuse_bind {x : Except Exc α} {f : α → Exec β} {post : Except Exc β → List Event → Prop}
    (hok : ∀ value, x = .ok value → (frame Inv).From history (f value) post)
    (herror : ∀ e, post (.error e) (history ++ [refusedEvent e])) :
    (frame Inv).From history (orRefuse x >>= f) post := by
  cases x with
  | ok value => exact hok value rfl
  | error e =>
    have hrefused : (frame Inv).From history (orRefuse (.error e) : Exec α) fun r events =>
        r = .error e ∧ events = history ++ [refusedEvent e] :=
      ensures_refuse ⟨rfl, rfl⟩
    refine .bind hrefused (fun _ _ h => nomatch h.1) fun e' events h => ?_
    obtain ⟨rfl, rfl⟩ := Except.error.inj h.1, h.2
    exact herror _

theorem from_displayName_bind {f : String → Exec β} {post : Except Exc β → List Event → Prop}
    (hok : ∀ name, step.displayName? = some name → (frame Inv).From history (f name) post)
    (herror : ∀ e, post (.error e) (history ++ [faultEvent e])) :
    (frame Inv).From history (displayName step >>= f) post := by
  cases hname : step.displayName? with
  | some name =>
    have heq : displayName step = ofExcept (.ok name) := by simp [displayName, hname, ofExcept]
    rw [heq]
    exact from_ofExcept_bind (fun value hv => hok value (hname.trans (congrArg some (Except.ok.inj hv)))) herror
  | none =>
    have heq : displayName step = ofExcept (.error .assertion) := by simp [displayName, hname, ofExcept]
    rw [heq]
    exact from_ofExcept_bind (fun _ h => nomatch h) herror

theorem from_displayName_some {f : String → Exec β} {post : Except Exc β → List Event → Prop}
    (hname : step.displayName? = some name) (h : (frame Inv).From history (f name) post) :
    (frame Inv).From history (displayName step >>= f) post := by
  have heq : displayName step = pure name := by simp [displayName, hname]
  rw [heq]
  exact .pure_bind h

theorem from_rethrow_bind {outcome : Except Exc α} {f : α → Exec β}
    {post : Except Exc β → List Event → Prop}
    (hok : ∀ value, outcome = .ok value → (frame Inv).From history (f value) post)
    (herror : ∀ e, outcome = .error e → post (.error e) history) :
    (frame Inv).From history (rethrow outcome >>= f) post := by
  cases outcome with
  | ok value => exact hok value rfl
  | error e =>
    have hthrow : (frame Inv).From history (rethrow (.error e) : Exec α) fun r events =>
        r = .error e ∧ events = history := .throw ⟨rfl, rfl⟩
    refine .bind hthrow (fun _ _ h => nomatch h.1) fun e' events h => ?_
    obtain ⟨rfl, rfl⟩ := Except.error.inj h.1, h.2
    exact herror _ rfl

theorem spendDecision_upholds (hs : Stable Inv) (h : StepEvents Inv I lane info) :
    (frame Inv).Upholds I True (executor.spendDecision info) fun _ => True := by
  have hT := h.closed
  unfold spendDecision
  refine .bind hT (.modify hT fun _ => hs.count) fun _ _ => .get_bind fun state _ => ?_
  dsimp only
  split
  · exact .pure hT trivial
  · split
    · exact upholds_raise (h.fault _)
    · exact .pure hT trivial

theorem askDecision_upholds (h : Inside executor Inv I lane nested info) :
    (frame Inv).Upholds I True (askDecision policy ctx) fun _ => True := by
  unfold askDecision
  split
  · exact .ask (h.decideTimed _)
  · exact .bind h.closed (.ask (h.decide _)) fun _ _ => .pure h.closed trivial

/-- A decision that fails is the record of its step. -/
def DecisionQ (I : List Event → Prop) (info : StepInfo) :
    Except Exc (Except StepRecord (FlowStep × Option DecisionRecord)) → List Event → Prop
  | .ok (.ok _), events => I events
  | .ok (.error record), events => Turn I info record events
  | .error _, events => I events ∧ Disturbed events

theorem resolveDecision_turn (hs : Stable Inv) (h : Inside executor Inv I lane nested info) :
    (frame Inv).From [] (executor.resolveDecision info step context) (DecisionQ I info) := by
  have hT := h.closed
  unfold resolveDecision
  split
  · exact .pure hT.nil
  split
  · exact .pure hT.nil
  refine .upholds_bind (upholds_displayName hT h.fault step) (fun defaultName first h₁ _ => ?_)
    fun e events hI hm => ⟨hI, hm trivial⟩
  refine .upholds_bind (spendDecision_upholds hs h.toStepEvents) (fun _ second h₂ _ => ?_)
    fun e events hI hm => ⟨hT.append h₁ hI, (hm trivial).right⟩
  refine .upholds_bind (askDecision_upholds h) (fun answer third h₃ _ => ?_)
    fun e events hI hm => ⟨hT.append (hT.append h₁ h₂) hI, (hm trivial).right⟩
  have hI := hT.append (hT.append h₁ h₂) h₃
  split
  · exact .ask_bind fun _ => .pure (.lone hI rfl rfl)
  · exact .pure hI

-- Tool steps and sub-flow steps

/-- What comes before the hooks of a tool step: a record that failed already, or
the tool. -/
def Prepared (executor : Executor) (info : StepInfo) (toolName : String) :
    Except StepRecord (Tool × Dict) → Prop
  | .error record => record.stepIndex = info.stepIndex ∧ record.success = false
  | .ok (tool, _) => executor.getTool toolName = .ok tool

theorem prepareStep_upholds (h : StepEvents Inv I lane info) (hr : record.stepIndex = info.stepIndex) :
    (frame Inv).Upholds I True (executor.prepareStep info step toolName context record)
      (executor.Prepared info toolName) := by
  have hT := h.closed
  unfold prepareStep
  split
  · exact .pure hT ⟨hr, rfl⟩
  next tool htool =>
  split
  · exact .pure hT ⟨hr, rfl⟩
  refine .bind hT (upholds_ofExcept hT h.fault _) fun violation _ => ?_
  cases violation with
  | some e => exact .pure hT ⟨hr, rfl⟩
  | none => exact .pure hT htool

theorem executeToolStep_turn (h : Inside executor Inv I lane nested info) (hhistory : I history) :
    (frame Inv).From history (executor.executeToolStep lane nested info step decision context)
      (StepQ I info) := by
  have hT := h.closed
  have hraised : ∀ (_ : Exc) events, I events → (True → (frame Inv).Marked events) →
      StepQ I info (.error (α := StepRecord) ‹Exc›) (history ++ events) :=
    fun _ events hI hm => ⟨.before (hT.append hhistory hI), (hm trivial).right⟩
  unfold executeToolStep
  refine .upholds_bind (upholds_displayName hT h.fault step) (fun toolName first h₁ _ => ?_) hraised
  have hI := hT.append hhistory h₁
  refine .upholds_bind (prepareStep_upholds h.toStepEvents rfl) (fun prepared second h₂ hp => ?_)
    fun e events he hm => ⟨.before (hT.append hI he), (hm trivial).right⟩
  have hI := hT.append hI h₂
  cases prepared with
  | error record => exact .ask_bind fun _ => .pure (.lone hI hp.1 hp.2)
  | ok ready =>
    refine .ask_bind fun _ => .upholds_bind (h.toolStep _ _ _ _ _ hp) (fun record body hbody hk => ?_)
      fun e body hbody hm => ⟨.inside hI hbody, (hm trivial).right⟩
    exact .ask_bind fun _ => .pure (.bracket hI hbody hk)

theorem executeSubflowStep_turn (hs : Stable Inv) (h : Inside executor Inv I lane nested info)
    (htarget : step.target = .flow subName) :
    (frame Inv).From [] (executeSubflowStep lane nested info step subName context cancellation)
      (StepQ I info) := by
  unfold executeSubflowStep
  refine .ask_bind fun _ => ?_
  split
  · next e he => exact .pure (.unheard he rfl rfl)
  next subInput hinput =>
  have hI := h.subInputs step context subInput hinput
  refine .ask_bind fun _ => .get_bind fun state _ => ?_
  refine .upholds_attempt_bind (h.subFlow _ _ _ _ _ htarget hinput) fun outcome body hbody hsettled => ?_
  refine .modify_bind (fun _ => hs.version) ?_
  refine from_rethrow_bind (fun result hr => ?_) fun e he => ⟨.inside hI hbody, ?_⟩
  · exact .ask_bind fun _ => .pure (.bracket hI hbody rfl)
  · subst he
    exact (hsettled trivial).right

theorem executeStepIn_turn (hs : Stable Inv) (h : Inside executor Inv I lane nested info) :
    (frame Inv).From [] (executor.executeStepIn lane nested info step context cancellation)
      (StepQ I info) := by
  unfold executeStepIn
  split
  · next htarget => exact executeSubflowStep_turn hs h htarget
  split
  · exact executeToolStep_turn h h.closed.nil
  refine .bind (resolveDecision_turn hs h) (fun resolved events hresolved => ?_)
    fun e events he => ⟨.before he.1, he.2⟩
  cases resolved with
  | error record => exact .pure hresolved
  | ok chosen => exact executeToolStep_turn h hresolved

-- Capability steps

theorem invokeCapability_upholds (h : Inside executor Inv I .sync nested info)
    {kernel : Kernel} (hkernel : executor.kernel = some kernel) (hindex : info.stepIndex = (stepIndex : Nat)) :
    (frame Inv).Upholds I True (do
      probe (.capability step context)
      invokeCapability kernel stepIndex step name context)
      fun record => record.stepIndex = info.stepIndex := by
  have hk : executor.kernel.isSome := by simp [hkernel]
  unfold invokeCapability
  dsimp only
  split
  · next hin =>
    refine .bind h.closed (upholds_probe (h.refused _ _ ?_)) fun _ _ => .pure h.closed hindex.symm
    simp [InvokesCapability, hin, Except.isOk, Except.toBool]
  next inputs hin =>
  split
  · next hid =>
    refine .bind h.closed (upholds_probe (h.refused _ _ ?_)) fun _ _ => .pure h.closed hindex.symm
    simp [InvokesCapability, hid]
  next capabilityId hid =>
  have hinvokes : executor.InvokesCapability step context := by
    simp [InvokesCapability, hk, hid, hin, Except.isOk, Except.toBool]
  suffices (frame Inv).From [] _ fun r events =>
      I events ∧ (frame Inv).Settled True (fun record : StepRecord => record.stepIndex = info.stepIndex) r
        events from this
  refine .ask_bind fun _ => .ask_bind fun reply => ?_
  have hI := fun call => h.invoked step context call reply hinvokes
  split <;> exact .pure ⟨hI _, hindex.symm⟩

theorem executeCapabilityStep_upholds (h : Inside executor Inv I .sync nested info)
    (hindex : info.stepIndex = (stepIndex : Nat)) :
    (frame Inv).Upholds I True (executor.executeCapabilityStep stepIndex step context)
      fun record => record.stepIndex = info.stepIndex := by
  unfold executeCapabilityStep
  refine .bind h.closed (upholds_displayName h.closed h.fault _) fun name _ => ?_
  split
  · next kernel hkernel => exact invokeCapability_upholds h hkernel hindex
  · next hkernel =>
    refine .bind h.closed (upholds_probe (h.refused _ _ ?_)) fun _ _ => .pure h.closed hindex.symm
    simp [InvokesCapability, hkernel]

theorem runCapabilityStep_turn (h : Inside executor Inv I .sync nested info)
    (hindex : info.stepIndex = (stepIndex : Nat)) {run : RunInfo} (htrace : run.traceId = info.traceId)
    (hflow : run.flowName = info.flowName) :
    (frame Inv).From [] (executor.runCapabilityStep run stepIndex step context) (StepQ I info) := by
  unfold runCapabilityStep
  rw [htrace, hflow]
  refine .upholds_bind (executeCapabilityStep_upholds h hindex) (fun record before hbefore hrecord => ?_)
    fun e before hbefore hm => ⟨.before hbefore, (hm trivial).right⟩
  split
  · rw [hrecord]
    refine .ask_bind fun _ => .ask_bind fun _ => .pure ?_
    simpa [StepQ] using Turn.bracket hbefore h.closed.nil hrecord
  · next hc => exact .ask_bind fun _ => .pure (.lone hbefore hrecord (by simp at hc; exact hc.1))

end ChainWeaver.Executor
