import ChainWeaver.Data.Attempt
import ChainWeaver.Reach

/-!
# Composition

`_validate_composition` walks the references between flows before a run. It accepts a flow if every chain of
references behind it is sound, and of a flow that it has accepted no run ever gets behind such a chain: no
sub-flow starts inside itself, and none starts too deep.
-/

namespace ChainWeaver.Executor

-- Chains of references

/-- Names of flows, each named by a step of the flow before it. The last of them need not be registered. -/
inductive ReferenceChain (executor : Executor) : List FlowStep → List String → Prop
  | nil : ReferenceChain executor steps []
  | last : step ∈ steps → step.flowName? = some subName → ReferenceChain executor steps [subName]
  | cons : step ∈ steps → step.flowName? = some subName →
      executor.registry.getFlow subName none = .ok subFlow →
      ReferenceChain executor subFlow.steps names → ReferenceChain executor steps (subName :: names)

variable {executor : Executor} {steps : List FlowStep} {subFlow : AnyFlow} {chain names path : List String}

/-- The chain goes on behind its last name. -/
theorem ReferenceChain.append (h : executor.ReferenceChain steps (chain ++ [name]))
    (hflow : executor.registry.getFlow name none = .ok subFlow) (hrest : executor.ReferenceChain subFlow.steps names) :
    executor.ReferenceChain steps (chain ++ name :: names) := by
  induction chain generalizing steps with
  | nil =>
    cases h with
    | last hstep hname => exact .cons hstep hname hflow hrest
    | cons hstep hname _ _ => exact .cons hstep hname hflow hrest
  | cons first chain ih =>
    rw [List.cons_append] at h
    cases hend : chain ++ [name] with
    | nil => simp at hend
    | cons second rest =>
      rw [hend] at h ih
      cases h with
      | cons hstep hname hsub h => exact .cons hstep hname hsub (ih h)

/-- What `_validate_composition` asks of a chain behind the names `path`. -/
structure SoundChain (executor : Executor) (path : List String) (budget : Nat) (names : List String) : Prop where
  registered : ∀ name ∈ names, ∃ subFlow, executor.registry.getFlow name none = .ok subFlow
  nodup : names.Nodup
  fresh : ∀ name ∈ names, name ∉ path
  short : names.length ≤ budget

theorem SoundChain.nil : executor.SoundChain path budget [] := ⟨by simp, by simp, by simp, by simp⟩

theorem SoundChain.cons_iff : executor.SoundChain path (budget + 1) (name :: names) ↔
    name ∉ path ∧ (∃ subFlow, executor.registry.getFlow name none = .ok subFlow) ∧
      executor.SoundChain (path ++ [name]) budget names := by
  constructor
  · rintro ⟨hregistered, hnodup, hfresh, hshort⟩
    obtain ⟨hfirst, hregistered⟩ := List.forall_mem_cons.1 hregistered
    obtain ⟨hout, hfresh⟩ := List.forall_mem_cons.1 hfresh
    obtain ⟨hnew, hnodup⟩ := List.nodup_cons.1 hnodup
    refine ⟨hout, hfirst, hregistered, hnodup, fun other hother => ?_, by simpa using hshort⟩
    rw [List.mem_append, List.mem_singleton, not_or]
    exact ⟨hfresh other hother, fun heq => hnew (heq ▸ hother)⟩
  · rintro ⟨hout, hfirst, hregistered, hnodup, hfresh, hshort⟩
    have hold : ∀ other ∈ names, other ∉ path ∧ other ≠ name := fun other hother => by
      simpa [not_or] using hfresh other hother
    exact
      { registered := List.forall_mem_cons.2 ⟨hfirst, hregistered⟩
        nodup := List.nodup_cons.2 ⟨fun hmem => (hold name hmem).2 rfl, hnodup⟩
        fresh := List.forall_mem_cons.2 ⟨hout, fun other hother => (hold other hother).1⟩
        short := by simpa using hshort }

-- The walk

theorem visitStep_ok {descend : String → Except Exc Unit} {step : FlowStep} :
    visitStep root path descend step = .ok () ↔
      ∀ subName, step.flowName? = some subName → subName ∉ path ∧ descend subName = .ok () := by
  unfold visitStep
  cases hname : step.flowName? with
  | none => simp
  | some subName =>
    by_cases hmem : subName ∈ path <;> simp [hmem]

theorem visit_zero_ok : executor.visit root 0 path steps = .ok () ↔ ∀ step ∈ steps, step.flowName? = none := by
  rw [visit, Attempt.forM_eq_ok]
  refine forall₂_congr fun step _ => ?_
  rw [visitStep_ok]
  cases step.flowName? <;> simp

theorem visit_succ_ok : executor.visit root (budget + 1) path steps = .ok () ↔
    ∀ step ∈ steps, ∀ subName, step.flowName? = some subName → subName ∉ path ∧
      ∃ subFlow, executor.registry.getFlow subName none = .ok subFlow ∧
        executor.visit root budget (path ++ [subName]) subFlow.steps = .ok () := by
  rw [visit, Attempt.forM_eq_ok]
  refine forall₂_congr fun step _ => ?_
  rw [visitStep_ok]
  refine forall₂_congr fun subName _ => and_congr_right fun _ => ?_
  split
  · next hget => simp [hget]
  · next subFlow hget => simp [hget]

theorem visit_ok_iff : executor.visit root budget path steps = .ok () ↔
    ∀ names, executor.ReferenceChain steps names → executor.SoundChain path budget names := by
  induction budget generalizing path steps with
  | zero =>
    rw [visit_zero_ok]
    constructor
    · intro hnone names hchain
      cases hchain with
      | nil => exact .nil
      | last hstep hname => rw [hnone _ hstep] at hname; cases hname
      | cons hstep hname _ _ => rw [hnone _ hstep] at hname; cases hname
    · intro hsound step hstep
      cases hname : step.flowName? with
      | none => rfl
      | some subName => exact absurd (hsound _ (.last hstep hname)).short (by simp)
  | succ budget ih =>
    rw [visit_succ_ok]
    constructor
    · intro hvisit names hchain
      cases hchain with
      | nil => exact .nil
      | last hstep hname =>
        obtain ⟨hout, subFlow, hget, -⟩ := hvisit _ hstep _ hname
        exact SoundChain.cons_iff.2 ⟨hout, ⟨subFlow, hget⟩, .nil⟩
      | cons hstep hname hget hrest =>
        obtain ⟨hout, subFlow, hget', hvisit⟩ := hvisit _ hstep _ hname
        obtain rfl := Except.ok.inj (hget.symm.trans hget')
        exact SoundChain.cons_iff.2 ⟨hout, ⟨_, hget⟩, ih.1 hvisit _ hrest⟩
    · intro hsound step hstep subName hname
      obtain ⟨hout, ⟨subFlow, hget⟩, -⟩ := SoundChain.cons_iff.1 (hsound _ (.last hstep hname))
      refine ⟨hout, subFlow, hget, ih.2 fun names hrest => ?_⟩
      exact (SoundChain.cons_iff.1 (hsound _ (.cons hstep hname hget hrest))).2.2

/-- The names as an error lists them. -/
def chainText (names : List String) : String := " -> ".intercalate names

/-- Why the walk stops, in the words of its error: the last name of a chain is met again, nested too deep, or
not registered. Before it nothing is wrong. -/
inductive Refusal (executor : Executor) (root : String) (path : List String) (budget : Nat) (names : List String)
    (subName : String) : Exc → Prop
  | cycle : subName ∈ path ++ names →
      Refusal executor root path budget names subName (.flowComposition root "cycle"
        s!"circular sub-flow reference: {chainText (path ++ names ++ [subName])}")
  | tooDeep : subName ∉ path ++ names → names.length = budget →
      Refusal executor root path budget names subName (.flowComposition root "max_depth_exceeded"
        (s!"nesting exceeds max_composition_depth={executor.maxCompositionDepth}: " ++
          chainText (path ++ names ++ [subName])))
  | unknown : subName ∉ path ++ names → names.length < budget →
      (∀ subFlow, executor.registry.getFlow subName none ≠ .ok subFlow) →
      Refusal executor root path budget names subName (.flowComposition root "unknown_flow"
        s!"step references unregistered sub-flow '{subName}'")

theorem Refusal.after (h : Refusal executor root (path ++ [first]) budget names subName e) :
    Refusal executor root path (budget + 1) (first :: names) subName e := by
  have hpath : path ++ [first] ++ names = path ++ first :: names := by simp
  have htext : path ++ [first] ++ names ++ [subName] = path ++ (first :: names) ++ [subName] := by simp
  cases h with
  | cycle hmem => rw [htext]; exact .cycle (hpath ▸ hmem)
  | tooDeep hout hlength => rw [htext]; exact .tooDeep (hpath ▸ hout) (by simp [hlength])
  | unknown hout hlength hget => exact .unknown (hpath ▸ hout) (by simpa using hlength) hget

theorem Refusal.again (h : subName ∈ path) :
    Refusal executor root path budget [] subName (.flowComposition root "cycle"
      s!"circular sub-flow reference: {chainText (path ++ [subName])}") := by
  have hcycle : Refusal executor root path budget [] subName _ := .cycle (List.mem_append_left [] h)
  rwa [List.append_nil] at hcycle

theorem visitStep_error {descend : String → Except Exc Unit} {step : FlowStep}
    (h : visitStep root path descend step = .error e) :
    ∃ subName, step.flowName? = some subName ∧
      (subName ∈ path ∧ e = .flowComposition root "cycle"
          s!"circular sub-flow reference: {chainText (path ++ [subName])}" ∨
        subName ∉ path ∧ descend subName = .error e) := by
  unfold visitStep at h
  cases hname : step.flowName? with
  | none => simp [hname] at h
  | some subName =>
    simp only [hname] at h
    refine ⟨subName, rfl, ?_⟩
    split at h
    · next hmem => exact .inl ⟨by simpa using hmem, (Except.error.inj h).symm⟩
    · next hmem => exact .inr ⟨by simpa using hmem, h⟩

theorem visit_error (h : executor.visit root budget path steps = .error e) :
    ∃ names subName, executor.ReferenceChain steps (names ++ [subName]) ∧
      Refusal executor root path budget names subName e := by
  induction budget generalizing path steps with
  | zero =>
    obtain ⟨step, hstep, h⟩ := Attempt.forM_eq_error h
    obtain ⟨subName, hname, ⟨hmem, rfl⟩ | ⟨hout, h⟩⟩ := visitStep_error h
    · exact ⟨[], subName, .last hstep hname, .again hmem⟩
    · obtain rfl := Except.error.inj h
      have hout : subName ∉ path ++ [] := by simpa using hout
      have hdeep : Refusal executor root path 0 [] subName _ := .tooDeep hout rfl
      rw [List.append_nil] at hdeep
      exact ⟨[], subName, .last hstep hname, hdeep⟩
  | succ budget ih =>
    obtain ⟨step, hstep, h⟩ := Attempt.forM_eq_error h
    obtain ⟨subName, hname, ⟨hmem, rfl⟩ | ⟨hout, h⟩⟩ := visitStep_error h
    · exact ⟨[], subName, .last hstep hname, .again hmem⟩
    · split at h
      · next hget =>
        obtain rfl := Except.error.inj h
        exact ⟨[], subName, .last hstep hname, .unknown (by simpa using hout) (by simp) fun subFlow hfound => by
          rw [hfound] at hget; cases hget⟩
      · next subFlow hget =>
        obtain ⟨names, last, hchain, hrefusal⟩ := ih h
        exact ⟨subName :: names, last, .cons hstep hname hget hchain, hrefusal.after⟩

/-- The call of a flow fits behind the flows that are running: it is not one of them, and they are not too
many. -/
def FitsBehind (executor : Executor) (chain : List String) (flowName : String) : Prop :=
  flowName ∉ chain ∧ chain.length ≤ executor.maxCompositionDepth

instance : Decidable (FitsBehind executor chain flowName) := inferInstanceAs (Decidable (_ ∧ _))

/-- The entry points as the steps of a flow see them behind the running flows `chain`. A call that does not fit
does anything. -/
def guarded (executor : Executor) (anything : Nested) : Nat → List String → Nested
  | 0, _ => executor.lanes 0
  | stack + 1, chain =>
    { executeFlow := fun flowName input cancellation =>
        if executor.FitsBehind chain flowName then
          executor.executeFlowWith (guarded executor anything stack (chain ++ [flowName])) flowName input { cancellation }
        else anything.executeFlow flowName input cancellation
      executeFlowAsync := fun flowName input cancellation =>
        if executor.FitsBehind chain flowName then
          executor.executeFlowAsyncWith (guarded executor anything stack (chain ++ [flowName])) flowName input
            { cancellation }
        else anything.executeFlowAsync flowName input cancellation }

/-- No tool runs a flow. -/
def Unwrapped (executor : Executor) : Prop :=
  ∀ name tool, executor.tools.get? name = some tool →
    ∀ flowName toolName stepCount, tool.fn ≠ .flow flowName toolName stepCount

/-- A name that some chain of references ends with. -/
def Behind (executor : Executor) (steps : List FlowStep) (name : String) : Prop :=
  ∃ names, executor.ReferenceChain steps (names ++ [name])

/-- The executor beside itself, on the flows behind some steps. -/
def selfTwin (executor : Executor) (steps : List FlowStep) : Twin where
  executor := executor
  tools := executor.tools
  settings := executor.settings
  swap := id
  Inv _ := True
  A _ := True
  known _ := True
  listed := executor.Behind steps

theorem behind_within {step : FlowStep} (h : ∀ name, step.flowName? = some name → executor.Behind steps name) :
    step.Within (fun _ => True) (executor.Behind steps) where
  tool _ _ := trivial
  flow name hname := h name (by simp [FlowStep.flowName?, hname])
  candidate _ _ _ _ := trivial
  fallback _ _ := trivial

theorem selfTwin_faithful (hunwrapped : executor.Unwrapped) : (executor.selfTwin steps).Faithful where
  stable _ _ _ _ := trivial
  schemaHash _ := rfl
  tool name tool _ hget := by
    refine ⟨hget, Twin.matches_of_swap rfl rfl fun flowName toolName stepCount hfn => ?_⟩
    exact absurd hfn (hunwrapped name tool hget _ _ _)
  steps := by
    rintro name subFlow ⟨names, hchain⟩ hget step hstep
    exact behind_within fun subName hname => ⟨names ++ [name], by simpa using hchain.append hget (.last hstep hname)⟩

theorem behind_steps (hmem : step ∈ steps) : step.Within (fun _ => True) (executor.Behind steps) :=
  behind_within fun _ hname => ⟨[], .last hmem hname⟩

/-- The steps of a flow that is called by name, if there is one. -/
def calledSteps (executor : Executor) (flowName : String) : List FlowStep :=
  match executor.registry.getFlow flowName none with
  | .ok flow => flow.steps
  | .error _ => []

theorem startsWithin_called {cancellation : Cancellation} :
    (executor.selfTwin (executor.calledSteps flowName)).StartsWithin flowName { cancellation } := by
  intro flow hget step hstep
  have hget : executor.registry.getFlow flowName none = .ok flow := hget
  have hsteps : executor.calledSteps flowName = flow.steps := by rw [calledSteps, hget]
  rw [hsteps]
  exact behind_steps hstep

/-- Behind the steps of a flow, one that is named there. -/
theorem chain_called (hchain : executor.ReferenceChain steps (chain ++ [name]))
    (hrest : executor.ReferenceChain (executor.calledSteps name) names) :
    executor.ReferenceChain steps (chain ++ name :: names) := by
  unfold calledSteps at hrest
  split at hrest
  · next subFlow hget => exact hchain.append hget hrest
  · cases hrest with
    | nil => exact hchain
    | last hstep _ => cases hstep
    | cons hstep _ _ _ => cases hstep

/-- Every chain of references from the steps fits behind the running flows. -/
def Roomy (executor : Executor) (chain : List String) (steps : List FlowStep) : Prop :=
  ∀ names, executor.ReferenceChain steps names → names.Nodup ∧ (∀ name ∈ names, name ∉ chain) ∧
    chain.length + names.length ≤ executor.maxCompositionDepth + 1

theorem Roomy.fits (h : executor.Roomy chain steps) (hname : executor.Behind steps name) :
    executor.FitsBehind chain name ∧ executor.Roomy (chain ++ [name]) (executor.calledSteps name) := by
  obtain ⟨before, hbefore⟩ := hname
  obtain ⟨-, hfresh, hshort⟩ := h _ hbefore
  rw [List.length_append, List.length_singleton] at hshort
  refine ⟨⟨hfresh name (by simp), by omega⟩, fun names hnames => ?_⟩
  obtain ⟨hnodup, hfresh, hshort⟩ := h _ (chain_called hbefore hnames)
  obtain ⟨-, hnodup, -⟩ := List.nodup_append.1 hnodup
  obtain ⟨hname, hnodup⟩ := List.nodup_cons.1 hnodup
  rw [List.length_append, List.length_cons] at hshort
  refine ⟨hnodup, fun other hother => ?_, by rw [List.length_append, List.length_singleton]; omega⟩
  rw [List.mem_append, List.mem_singleton, not_or]
  exact ⟨hfresh other (by simp [hother]), fun heq => hname (heq ▸ hother)⟩

theorem nestled_guarded (hunwrapped : executor.Unwrapped) (anything : Nested) (stack : Nat)
    (hroomy : executor.Roomy chain steps) :
    (executor.selfTwin steps).Nestled (executor.lanes stack) (executor.guarded anything stack chain) := by
  induction stack generalizing chain steps with
  | zero =>
    rintro (_ | _) flowName input cancellation -
    all_goals exact Twin.same_refuse
  | succ stack ih =>
    intro lane flowName input cancellation hlisted
    obtain ⟨hfits, hroomy⟩ := hroomy.fits hlisted
    have hT : (executor.selfTwin (executor.calledSteps flowName)).Faithful := selfTwin_faithful hunwrapped
    cases lane with
    | sync =>
      simp only [Nested.entry, guarded, if_pos hfits]
      exact Twin.same_executeFlowWith hT (ih hroomy) startsWithin_called fun _ _ => trivial
    | async =>
      simp only [Nested.entry, guarded, if_pos hfits]
      exact Twin.same_executeFlowAsyncWith hT (ih hroomy) startsWithin_called

/-- Chains of references from the steps are no longer than `limit`. -/
def Shallow (executor : Executor) (limit : Nat) (steps : List FlowStep) : Prop :=
  ∀ names, executor.ReferenceChain steps names → names.length ≤ limit

theorem nestled_shallow (hunwrapped : executor.Unwrapped) {limit stack stack' : Nat} (hstack : limit ≤ stack)
    (hstack' : limit ≤ stack') (hshallow : executor.Shallow limit steps) :
    (executor.selfTwin steps).Nestled (executor.lanes stack) (executor.lanes stack') := by
  induction limit generalizing stack stack' steps with
  | zero =>
    rintro lane flowName input cancellation ⟨names, hchain⟩
    exact absurd (hshallow _ hchain) (by simp)
  | succ limit ih =>
    intro lane flowName input cancellation hlisted
    have hT : (executor.selfTwin (executor.calledSteps flowName)).Faithful := selfTwin_faithful hunwrapped
    have hinner : executor.Shallow limit (executor.calledSteps flowName) := fun names hnames => by
      obtain ⟨before, hbefore⟩ := hlisted
      have hlength := hshallow _ (chain_called hbefore hnames)
      rw [List.length_append, List.length_cons] at hlength
      omega
    obtain ⟨stack, rfl⟩ : ∃ smaller, stack = smaller + 1 := ⟨stack - 1, by omega⟩
    obtain ⟨stack', rfl⟩ : ∃ smaller, stack' = smaller + 1 := ⟨stack' - 1, by omega⟩
    have hn := ih (Nat.le_of_succ_le_succ hstack) (Nat.le_of_succ_le_succ hstack') hinner
    cases lane with
    | sync => exact Twin.same_executeFlowWith hT hn startsWithin_called fun _ _ => trivial
    | async => exact Twin.same_executeFlowAsyncWith hT hn startsWithin_called

-- Whole runs

/-- A call of an entry point with these entry points behind it. -/
def runWith (executor : Executor) (nested : Nested) (lane : Lane) (flowName : String) (input : Dict) (call : Call) :
    Exec ExecutionResult :=
  match lane with
  | .sync => executor.executeFlowWith nested flowName input call
  | .async => executor.executeFlowAsyncWith nested flowName input call

theorem enter_runWith {stack : Nat} {lane : Lane} {flowName : String} {input : Dict} {call : Call} :
    executor.enter stack (executeIn lane flowName input call) =
      executor.runWith (executor.lanes stack) lane flowName input call := by
  cases lane <;> rfl

theorem same_runs {c c' : Exec α} (h : (executor.selfTwin steps).Same c c') :
    c.Runs s events r t ↔ c'.Runs s events r t := by
  have hmap (events : List Event) : events.map (·.rename (executor.selfTwin steps).pairing.swap) = events :=
    (List.map_congr_left fun e _ => rename_id e).trans (List.map_id events)
  rw [h.runs_iff trivial fun _ => trivial]
  simp only [hmap, exists_eq_left']

theorem orRefuse_ok_bind {value : α} {f : α → Exec β} : (orRefuse (.ok value) >>= f) = f value := rfl

theorem orRefuse_error_bind {f : α → Exec β} : (orRefuse (.error e) >>= f) = refuse e := rfl

/-- Of a flow that is refused nothing runs. -/
theorem runWith_refused {nested nested' : Nested} {lane : Lane} {flowName : String} {input : Dict} {call : Call}
    (hget : executor.registry.getFlow flowName call.version = .ok flow)
    (hrefused : executor.validateComposition flow = .error e) :
    executor.runWith nested lane flowName input call = executor.runWith nested' lane flowName input call := by
  cases lane with
  | sync =>
    simp only [runWith, executeFlowWith, executeFlowImpl, hget, orRefuse_ok_bind, hrefused, orRefuse_error_bind]
  | async =>
    simp only [runWith, executeFlowAsyncWith, hget, orRefuse_ok_bind, hrefused, orRefuse_error_bind]

theorem same_runWith {nested nested' : Nested} {lane : Lane} {flowName : String} {input : Dict} {call : Call}
    (hunwrapped : executor.Unwrapped) (hget : executor.registry.getFlow flowName call.version = .ok flow)
    (hn : executor.validateComposition flow = .ok () → (executor.selfTwin flow.steps).Nestled nested nested') :
    (executor.runWith nested lane flowName input call).Runs s events r t ↔
      (executor.runWith nested' lane flowName input call).Runs s events r t := by
  cases haccepted : executor.validateComposition flow with
  | error e => rw [runWith_refused hget haccepted]
  | ok accepted =>
    have hT : (executor.selfTwin flow.steps).Faithful := selfTwin_faithful hunwrapped
    have hstarts : (executor.selfTwin flow.steps).StartsWithin flowName call := by
      intro found hfound step hstep
      obtain rfl := Except.ok.inj (hget.symm.trans hfound)
      exact behind_steps hstep
    cases lane with
    | sync => exact same_runs (Twin.same_executeFlowWith hT (hn haccepted) hstarts fun _ _ => trivial)
    | async => exact same_runs (Twin.same_executeFlowAsyncWith hT (hn haccepted) hstarts)

theorem roomy_of_accepted (h : executor.validateComposition flow = .ok ()) :
    executor.Roomy [flow.header.name] flow.steps := by
  intro names hchain
  obtain ⟨-, hnodup, hfresh, hshort⟩ := visit_ok_iff.1 h names hchain
  exact ⟨hnodup, hfresh, by simp only [List.length_singleton]; omega⟩

/-- Sub-flow steps never call a flow that is running already, and never nest deeper than the limit: whatever
such a call did instead, no run would tell. So the limit bounds the stack that runs need. -/
theorem nesting_bounded (executor : Executor) (hunwrapped : executor.Unwrapped) (anything : Nested) (stack : Nat)
    (lane : Lane) (flowName : String) (input : Dict) (call : Call)
    (hget : executor.registry.getFlow flowName call.version = .ok flow) :
    (∀ s events r t, (executor.enter stack (executeIn lane flowName input call)).Runs s events r t ↔
      (executor.runWith (executor.guarded anything stack [flow.header.name]) lane flowName input call).Runs s events r t) ∧
    (executor.maxCompositionDepth ≤ stack →
      ∀ s events r t, (executor.enter stack (executeIn lane flowName input call)).Runs s events r t ↔
        (executor.enter executor.maxCompositionDepth (executeIn lane flowName input call)).Runs s events r t) := by
  simp only [enter_runWith]
  refine ⟨fun s events r t => same_runWith hunwrapped hget fun haccepted => ?_, fun hstack s events r t =>
    same_runWith hunwrapped hget fun haccepted => ?_⟩
  · exact nestled_guarded hunwrapped anything stack (roomy_of_accepted haccepted)
  · exact nestled_shallow hunwrapped hstack (le_refl _) fun names hchain => (visit_ok_iff.1 haccepted names hchain).short

/-- A flow with a flow with a flow in it. -/
def nestFlows : List AnyFlow :=
  [.linear { name := "outer", steps := [Sample.subflow "middle"] },
    .dag { name := "middle", steps := [Sample.node "a" [] (Sample.subflow "inner")] },
    .linear { name := "inner", steps := [Sample.step "work"] }]

def nestExecutor : Executor := Sample.executor nestFlows [Sample.tool "work"]

theorem nestExecutor_unwrapped : nestExecutor.Unwrapped := by
  intro name tool hget flowName toolName stepCount
  have hmem : (name, tool) ∈ [("work", Sample.tool "work")] := OrderedDict.get?_eq_some_iff.1 hget
  obtain ⟨rfl, rfl⟩ := Prod.mk.inj (List.mem_singleton.1 hmem)
  exact ToolFn.noConfusion

/-- The nested runs of `outer` go through where every other call would be refused, and need no more stack than
the limit. -/
theorem nest_bounded :
    let ran := Sample.run Sample.named none 0 (nestExecutor.enter 12 (executeIn .async "outer" .empty {}))
    (Sample.resultOf ran).isSome = true ∧
      (nestExecutor.runWith (nestExecutor.guarded (nestExecutor.lanes 0) 12 ["outer"]) .async "outer" .empty {}).Runs {}
        ran.1 ran.2.1 ran.2.2 ∧
      (nestExecutor.enter 10 (executeIn .async "outer" .empty {})).Runs {} ran.1 ran.2.1 ran.2.2 := by
  have hget : nestExecutor.registry.getFlow "outer" none = .ok nestFlows[0] := rfl
  have hbounded := nesting_bounded nestExecutor nestExecutor_unwrapped (nestExecutor.lanes 0) 12 .async "outer" .empty {} hget
  exact ⟨by decide +kernel, (hbounded.1 ..).1 (Sample.run_runs ..),
    (hbounded.2 (by decide) ..).1 (Sample.run_runs ..)⟩

end ChainWeaver.Executor
