import ChainWeaver.Ownership

/-!
# Lifecycle hooks

The hooks of a call are brackets: flows around their steps, steps around the
flows they call. They are well nested, and each is closed once, in every run that
no exception leaves half way.
-/

namespace ChainWeaver.Executor

open Interaction (Closed)

-- Brackets

/-- What a start hook opens. -/
inductive Bracket
  | flow (traceId : String)
  | step (traceId : String) (stepIndex : Int)
  deriving DecidableEq

/-- The open brackets behind an event, innermost first. A step that fails before it
starts only ends. -/
def track (stack : List Bracket) : Event → Option (List Bracket)
  | ⟨.hook, .flowStart traceId .., _⟩ => some (.flow traceId :: stack)
  | ⟨.hook, .stepStart traceId _ stepIndex .., _⟩ =>
    if stack.head? = some (.flow traceId) then some (.step traceId stepIndex :: stack) else none
  | ⟨.hook, .stepEnd traceId _ record, _⟩ =>
    if stack.head? = some (.step traceId record.stepIndex) then some stack.tail
    else if stack.head? = some (.flow traceId) then some stack
    else none
  | ⟨.hook, .flowEnd traceId .., _⟩ =>
    if stack.head? = some (.flow traceId) then some stack.tail else none
  | _ => some stack

def trackAll (stack : List Bracket) (events : List Event) : Option (List Bracket) := events.foldlM track stack

/-- The bracket that an event opens. -/
def opens : Event → Option Bracket
  | ⟨.hook, .flowStart traceId .., _⟩ => some (.flow traceId)
  | ⟨.hook, .stepStart traceId _ stepIndex .., _⟩ => some (.step traceId stepIndex)
  | _ => none

/-- The bracket that an event closes. -/
def closes : Event → Option Bracket
  | ⟨.hook, .flowEnd traceId .., _⟩ => some (.flow traceId)
  | ⟨.hook, .stepEnd traceId _ record, _⟩ => some (.step traceId record.stepIndex)
  | _ => none

/-- How often a bracket is closed. -/
def closings (bracket : Bracket) (events : List Event) : Nat :=
  events.countP fun e => closes e = some bracket

/-- Hooks that are well nested, and each start of which has exactly one end. -/
structure Bracketed (events : List Event) : Prop where
  nested : trackAll [] events = some []
  once : ∀ before e after bracket, events = before ++ e :: after → opens e = some bracket →
    closings bracket after = 1

theorem trackAll_append : trackAll stack (first ++ second) =
    (trackAll stack first).bind fun stack => trackAll stack second :=
  List.foldlM_append

theorem closings_append : closings bracket (first ++ second) =
    closings bracket first + closings bracket second :=
  List.countP_append

/-- An event takes at most the innermost bracket away, by closing it. -/
theorem track_count (bracket : Bracket) (h : track stack e = some stack') :
    stack.count bracket ≤ stack'.count bracket + if closes e = some bracket then 1 else 0 := by
  have htail : ∀ other, stack.head? = some other →
      stack.count bracket ≤ stack.tail.count bracket + if some other = some bracket then 1 else 0 := by
    intro other hother
    obtain ⟨rest, rfl⟩ : ∃ rest, stack = other :: rest := by
      cases stack with
      | nil => cases hother
      | cons head rest => exact ⟨rest, by rw [Option.some.inj hother]⟩
    simp only [List.tail_cons, List.count_cons, beq_iff_eq, Option.some.injEq]
    exact Nat.le_refl _
  unfold track at h
  split at h
  · obtain rfl := Option.some.inj h
    rw [List.count_cons]
    omega
  · split at h
    · obtain rfl := Option.some.inj h
      rw [List.count_cons]
      omega
    · cases h
  · split at h
    · next hhead => exact Option.some.inj h ▸ htail _ hhead
    · split at h
      · exact Option.some.inj h ▸ Nat.le_add_right _ _
      · cases h
  · split at h
    · next hhead => exact Option.some.inj h ▸ htail _ hhead
    · cases h
  · exact Option.some.inj h ▸ Nat.le_add_right _ _

/-- What is open at first and not at last has been closed. -/
theorem trackAll_count (bracket : Bracket) (h : trackAll stack events = some stack') :
    stack.count bracket ≤ stack'.count bracket + closings bracket events := by
  induction events generalizing stack with
  | nil =>
    obtain rfl := Option.some.inj h
    exact Nat.le_add_right _ _
  | cons e events ih =>
    obtain ⟨middle, hfirst, hrest⟩ := Option.bind_eq_some_iff.1 h
    have hcount := track_count bracket hfirst
    have hrest := ih hrest
    simp only [closings, List.countP_cons, decide_eq_true_eq] at hrest ⊢
    omega

theorem opens_track (h : track stack e = some stack') (ho : opens e = some bracket) :
    0 < stack'.count bracket := by
  unfold opens at ho
  split at ho
  · obtain rfl := Option.some.inj ho
    obtain rfl := Option.some.inj h
    simp
  · obtain rfl := Option.some.inj ho
    simp only [track] at h
    split at h
    · obtain rfl := Option.some.inj h
      simp
    · cases h
  · cases ho

/-- Well nested hooks whose brackets are closed at most once. -/
theorem Bracketed.of_closings (hnested : trackAll [] events = some [])
    (hbound : ∀ bracket, closings bracket events ≤ 1) : Bracketed events := by
  refine ⟨hnested, ?_⟩
  rintro before e after bracket rfl ho
  obtain ⟨middle, -, hrest⟩ := Option.bind_eq_some_iff.1 (trackAll_append ▸ hnested)
  obtain ⟨opened, hopen, hrest⟩ := Option.bind_eq_some_iff.1 hrest
  have hcount := trackAll_count bracket hrest
  have hpos := opens_track hopen ho
  have hall := hbound bracket
  simp only [closings, List.countP_append, List.countP_cons, List.count_nil] at hcount hall ⊢
  omega

-- Inside steps

/-- No exception leaves a run that has started. -/
def Calmly (events : List Event) : Prop := ∀ e ∈ events, ¬Disturbance e

theorem Calmly.left (h : Calmly (first ++ second)) : Calmly first := fun e he => h e (by simp [he])

theorem Calmly.right (h : Calmly (first ++ second)) : Calmly second := fun e he => h e (by simp [he])

theorem Calmly.not_disturbed (h : Calmly events) : ¬Disturbed events := fun ⟨e, he, hd⟩ => h e he hd

/-- The trace ids of brackets. -/
def Bracket.run : Bracket → String
  | .flow traceId => traceId
  | .step traceId _ => traceId

/-- Calls leave the brackets around them alone, and close no bracket of a run twice. -/
structure Tidy (events : List Event) : Prop where
  neutral : Calmly events → ∀ stack, trackAll stack events = some stack
  bounded : ∀ bracket, closings bracket events ≤ (drawn events).count bracket.run

theorem tidy_closed : Closed Tidy where
  nil := ⟨fun _ _ => rfl, fun _ => Nat.zero_le _⟩
  append h₁ h₂ := by
    refine ⟨fun hcalm stack => ?_, fun bracket => ?_⟩
    · rw [trackAll_append, h₁.neutral hcalm.left stack]
      exact h₂.neutral hcalm.right stack
    · rw [closings_append, drawn_append, List.count_append]
      exact Nat.add_le_add (h₁.bounded bracket) (h₂.bounded bracket)

/-- An event that is no lifecycle hook. -/
theorem Tidy.idle (ht : ∀ stack, track stack e = some stack) (hc : closes e = none) : Tidy [e] where
  neutral _ stack := by simp [trackAll, ht stack]
  bounded bracket := by simp [closings, hc]

def lifecyclePolicy (executor : Executor) : Policy where
  executor := executor
  Inv state := state.resumeSnapshot = none
  I lane _ events := lane = .sync → Tidy events
  W lane _ _ events := lane = .sync → Tidy events

-- Runs

section

variable {executor : Executor} {flow : AnyFlow} {run : RunInfo}

/-- The brackets of a run that it may have closed before its step `index`. -/
def Bracket.past (traceId : String) (index : Nat) : Bracket → Bool
  | .flow _ => false
  | .step id stepIndex => id = traceId && decide (stepIndex < index)

/-- A run between two steps: it is the innermost bracket, and has closed none of its
own but those of its past steps. -/
structure Poised (traceId : String) (index : Nat) (events : List Event) : Prop where
  level : Calmly events → ∀ stack, trackAll (.flow traceId :: stack) events = some (.flow traceId :: stack)
  bounded : ∀ bracket, closings bracket events ≤
    (drawn events).count bracket.run + if bracket.past traceId index then 1 else 0

theorem Poised.tidy (h : Poised traceId index events) (ht : Tidy own) : Poised traceId index (events ++ own) where
  level hcalm stack := by
    rw [trackAll_append, h.level hcalm.left stack]
    exact ht.neutral hcalm.right _
  bounded bracket := by
    have h₁ := h.bounded bracket
    have h₂ := ht.bounded bracket
    rw [closings_append, drawn_append, List.count_append]
    omega

/-- A step of the run, behind which one more bracket may be closed. -/
theorem Poised.step (h : Poised traceId index events)
    (hlevel : Calmly own → ∀ stack, trackAll (.flow traceId :: stack) own = some (.flow traceId :: stack))
    (hbound : ∀ bracket, closings bracket own ≤
      (drawn own).count bracket.run + if bracket = .step traceId index then 1 else 0) :
    Poised traceId (index + 1) (events ++ own) where
  level hcalm stack := by
    rw [trackAll_append, h.level hcalm.left stack]
    exact hlevel hcalm.right stack
  bounded bracket := by
    have h₁ := h.bounded bracket
    have h₂ := hbound bracket
    have hpast : (if bracket.past traceId index then 1 else 0) +
        (if bracket = .step traceId index then 1 else 0) ≤ if bracket.past traceId (index + 1) then 1 else 0 := by
      cases bracket with
      | flow id => simp [Bracket.past]
      | step id stepIndex =>
        by_cases hid : id = traceId
        · simp only [Bracket.past, Bracket.step.injEq, hid, decide_true, Bool.true_and, decide_eq_true_eq,
            true_and]
          split <;> split <;> split <;> omega
        · simp [Bracket.past, hid]
    rw [closings_append, drawn_append, List.count_append]
    omega

theorem closings_stepEnd {info : StepInfo} : closings bracket [stepEndEvent info record] =
    if bracket = .step info.traceId record.stepIndex then 1 else 0 := by
  simp [closings, closes, eq_comm (a := bracket)]

theorem closings_stepStart {info : StepInfo} : closings bracket [stepStartEvent info toolName inputs] = 0 := by
  simp [closings, closes]

theorem lifecyclePolicy_turn (hat : (executor.lifecyclePolicy.scene .sync flow run start origin).At info index)
    (hturn : Turn (executor.lifecyclePolicy.I .sync info) info record own) :
    (Calmly own → ∀ stack, trackAll (.flow run.traceId :: stack) own = some (.flow run.traceId :: stack)) ∧
      ∀ bracket, closings bracket own ≤
        (drawn own).count bracket.run + if bracket = .step run.traceId index then 1 else 0 := by
  have htrace : info.traceId = run.traceId := hat.1.1
  have hindex : info.stepIndex = (index : Int) := hat.2
  cases hturn with
  | @lone before _ hbefore hrecord _ =>
    have hbefore : Tidy before := hbefore rfl
    refine ⟨fun hcalm stack => ?_, fun bracket => ?_⟩
    · rw [trackAll_append, hbefore.neutral hcalm.left]
      simp [trackAll, track, htrace]
    · have h := hbefore.bounded bracket
      have hdrawn : drawn (before ++ [stepEndEvent info record]) = drawn before := by simp [drawn]
      rw [closings_append, hdrawn, closings_stepEnd, hrecord, hindex, htrace]
      omega
  | @bracket before body _ toolName inputs hbefore hbody hrecord =>
    have hbefore : Tidy before := hbefore rfl
    have hbody : Tidy body := hbody rfl
    refine ⟨fun hcalm stack => ?_, fun bracket => ?_⟩
    · rw [trackAll_append, trackAll_append, trackAll_append, hbefore.neutral hcalm.left.left.left]
      have hstart : trackAll (.flow run.traceId :: stack) [stepStartEvent info toolName inputs] =
          some (.step run.traceId index :: .flow run.traceId :: stack) := by
        simp [trackAll, track, htrace, hindex]
      simp only [Option.bind_some, hstart, hbody.neutral hcalm.left.right]
      simp [trackAll, track, htrace, hindex, hrecord]
    · have h₁ := hbefore.bounded bracket
      have h₂ := hbody.bounded bracket
      have hdrawn : drawn (before ++ [stepStartEvent info toolName inputs] ++ body ++ [stepEndEvent info record]) =
          drawn before ++ drawn body := by simp [drawn]
      rw [closings_append, closings_append, closings_append, hdrawn, List.count_append, closings_stepStart,
        closings_stepEnd, hrecord, hindex, htrace]
      omega
  | unheard _ _ _ =>
    exact ⟨fun _ stack => by simp [trackAll, track], fun bracket => by simp [closings, closes]⟩

theorem lifecyclePolicy_aside (he : (executor.lifecyclePolicy.scene .sync flow run start origin).Aside e) :
    Tidy [e] := by
  cases he <;> exact .idle (fun _ => rfl) rfl

theorem lifecyclePolicy_reached
    (h : (executor.lifecyclePolicy.scene .sync flow run ⟨0, []⟩ .fresh).Reached spot events) :
    Poised run.traceId spot.index events := by
  induction h with
  | start he => cases he <;> exact ⟨fun _ _ => rfl, fun _ => Nat.zero_le _⟩
  | aside _ he ih => exact ih.tidy (lifecyclePolicy_aside he)
  | turn _ hat hturn _ ih =>
    have hown := lifecyclePolicy_turn hat hturn
    exact ih.step hown.1 hown.2
  | skip _ _ _ ih =>
    exact ih.step (fun _ stack => by simp [trackAll, track]) fun bracket => by simp [closings, closes]
  | strands hlane | settle _ hlane => cases hlane

theorem lifecyclePolicy_ended
    (h : (executor.lifecyclePolicy.scene .sync flow run ⟨0, []⟩ .fresh).Ended success log events) :
    ∃ index, Poised run.traceId index events := by
  cases h with
  | finished hr => exact ⟨_, lifecyclePolicy_reached hr⟩
  | unseeded => exact ⟨0, fun _ _ => rfl, fun _ => Nat.zero_le _⟩
  | refused hr => exact ⟨_, lifecyclePolicy_reached hr⟩
  | failed hr hat hturn _ =>
    have hown := lifecyclePolicy_turn hat hturn
    exact ⟨_, (lifecyclePolicy_reached hr).step hown.1 hown.2⟩
  | replaced hr hat hturn _ =>
    have hown := lifecyclePolicy_turn hat hturn
    exact ⟨_, ((lifecyclePolicy_reached hr).step hown.1 hown.2).tidy (.idle (fun _ => rfl) rfl)⟩
  | spent hlane => cases hlane

/-- A run that is over: its bracket is closed, each of its own at most once. -/
structure Shut (traceId : String) (events : List Event) : Prop where
  level : Calmly events → ∀ stack, trackAll (.flow traceId :: stack) events = some stack
  bounded : ∀ bracket, closings bracket events ≤
    (drawn events).count bracket.run + if bracket.run = traceId then 1 else 0

theorem Bracket.past_run {bracket : Bracket} :
    (if bracket.past traceId index then 1 else 0) ≤ if bracket.run = traceId then 1 else 0 := by
  cases bracket with
  | flow id => simp [Bracket.past]
  | step id stepIndex =>
    by_cases hid : id = traceId
    · simp only [Bracket.past, Bracket.run, hid, if_true]
      split <;> omega
    · simp [Bracket.past, hid]

theorem closings_flowEnd : closings bracket [hookEvent (.flowEnd traceId flowName result)] =
    if bracket = .flow traceId then 1 else 0 := by
  simp [closings, closes, eq_comm (a := bracket)]

theorem Poised.shut (h : Poised traceId index events) :
    Shut traceId (events ++ [hookEvent (.flowEnd traceId flowName result)]) where
  level hcalm stack := by
    rw [trackAll_append, h.level hcalm.left stack]
    simp [trackAll, track]
  bounded bracket := by
    have hevents := h.bounded bracket
    have hdrawn : drawn (events ++ [hookEvent (.flowEnd traceId flowName result)]) = drawn events := by
      simp [drawn]
    rw [closings_append, hdrawn, closings_flowEnd]
    cases bracket with
    | flow id =>
      by_cases hid : id = traceId
      · simpa [Bracket.past, Bracket.run, hid] using hevents
      · simpa [Bracket.past, Bracket.run, hid] using hevents
    | step id stepIndex =>
      have hpast : (if (Bracket.step id stepIndex).past traceId index then 1 else 0) ≤
          if (Bracket.step id stepIndex).run = traceId then 1 else 0 := Bracket.past_run
      simp only [reduceCtorEq, if_false] at hevents ⊢
      omega

/-- A run that an exception leaves half way. -/
theorem Poised.left (h : Poised traceId index events)
    (hbound : ∀ bracket, closings bracket own ≤ (drawn own).count bracket.run) (hd : Disturbed own) :
    Poised traceId index (events ++ own) where
  level hcalm := absurd hd hcalm.right.not_disturbed
  bounded bracket := by
    have h₁ := h.bounded bracket
    have h₂ := hbound bracket
    rw [closings_append, drawn_append, List.count_append]
    omega

theorem Poised.open (h : Poised traceId index events) (hd : Disturbed events) : Shut traceId events where
  level hcalm := absurd hd hcalm.not_disturbed
  bounded bracket := (h.bounded bracket).trans (Nat.add_le_add_left Bracket.past_run _)

theorem lifecyclePolicy_torn (executor : Executor) (h : Torn (executor.lifecyclePolicy.I .sync info) info own) (bracket : Bracket) :
    closings bracket own ≤ (drawn own).count bracket.run := by
  cases h with
  | before hbefore => exact (hbefore rfl : Tidy own).bounded bracket
  | @inside before body toolName inputs hbefore hbody =>
    have h₁ := (hbefore rfl : Tidy before).bounded bracket
    have h₂ := (hbody rfl : Tidy body).bounded bracket
    have hdrawn : drawn (before ++ [stepStartEvent info toolName inputs] ++ body) = drawn before ++ drawn body := by
      simp [drawn]
    rw [closings_append, closings_append, hdrawn, List.count_append, closings_stepStart]
    omega

theorem fault_disturbed (e : Exc) : Disturbed [faultEvent e] := ⟨_, List.mem_singleton.2 rfl, trivial⟩

theorem lifecyclePolicy_run
    (h : (executor.lifecyclePolicy.scene .sync flow run ⟨0, []⟩ .fresh).RunQ r events) :
    Shut run.traceId events := by
  cases r with
  | ok result =>
    obtain ⟨-, before, after, hended, hclosing, rfl⟩ := h
    obtain ⟨index, hpoised⟩ := lifecyclePolicy_ended hended
    cases hclosing with
    | plain => exact hpoised.shut
    | deleting =>
      rw [← List.singleton_append, ← List.append_assoc]
      exact (hpoised.tidy (.idle (fun _ => rfl) rfl)).shut
  | error e =>
    have hfault : ∀ e bracket, closings bracket [faultEvent e] ≤ (drawn [faultEvent e]).count bracket.run :=
      fun e bracket => by simp [closings, closes]
    cases h with
    | unseeded =>
      have hstart : Poised run.traceId 0 [] := ⟨fun _ _ => rfl, fun _ => Nat.zero_le _⟩
      exact (hstart.left (hfault _) (fault_disturbed _)).open (fault_disturbed _)
    | raised hr =>
      exact ((lifecyclePolicy_reached hr).left (hfault _) (fault_disturbed _)).open (fault_disturbed _).right
    | undeleted hended =>
      obtain ⟨index, hpoised⟩ := lifecyclePolicy_ended hended
      have hdeleted : ∀ reply, Tidy [⟨.delete, run.traceId, reply⟩] := fun reply => .idle (fun _ => rfl) rfl
      exact ((hpoised.tidy (hdeleted _)).left (hfault _) (fault_disturbed _)).open (fault_disturbed _).right
    | torn hr _ htorn hd =>
      exact ((lifecyclePolicy_reached hr).left (lifecyclePolicy_torn executor htorn) hd).open hd.right
    | tornStrands hlane | spent hlane => cases hlane
    | reanchored hr _ htorn hd =>
      exact ((lifecyclePolicy_reached hr).left (lifecyclePolicy_torn executor htorn) hd).shut
    | stopped hr =>
      exact ((lifecyclePolicy_reached hr).tidy (.idle (fun _ => rfl) rfl)).shut

/-- A flow that starts, runs and ends is a bracket of its own. -/
theorem Shut.tidy (h : Shut traceId events) :
    Tidy ([⟨.newTraceId, (), traceId⟩, hookEvent (.flowStart traceId flowName version input totalSteps)] ++
      events) where
  neutral hcalm stack := h.level hcalm.right stack
  bounded bracket := by
    have hbound := h.bounded bracket
    have hdrawn : drawn ([⟨.newTraceId, (), traceId⟩,
      hookEvent (.flowStart traceId flowName version input totalSteps)] ++ events) = traceId :: drawn events := rfl
    rw [closings_append, hdrawn, List.count_cons]
    simp only [closings, List.countP_cons, List.countP_nil, closes, beq_iff_eq, eq_comm (a := traceId)] at hbound ⊢
    simpa using hbound

theorem lifecyclePolicy_called (executor : Executor)
    (h : executor.lifecyclePolicy.Called .sync flowName input call r events) : Tidy events := by
  cases h with
  | refused => exact .idle (fun _ => rfl) rfl
  | entered _ _ _ hopened =>
    refine tidy_closed.append (.idle (fun _ => rfl) rfl) ?_
    cases hopened with
    | unlevelled hlane => cases hlane
    | fresh _ _ hrun => exact (lifecyclePolicy_run hrun).tidy
    | resumed _ hs hsnapshot =>
      have hs : _ = none := hs
      exact nomatch hs.symm.trans hsnapshot

end

theorem lifecyclePolicy_sound (executor : Executor) : executor.lifecyclePolicy.Sound where
  stable := ⟨fun h => h, fun h => h⟩
  enter h := h
  step {nested lane info} hn := by
    have hT : Closed fun events => lane = .sync → Tidy events :=
      ⟨fun _ => tidy_closed.nil, fun h₁ h₂ hlane => tidy_closed.append (h₁ hlane) (h₂ hlane)⟩
    refine .of_events hT (fun e he _ => ?_) (fun step context call reply _ _ => ?_) ?_
    · cases he <;> exact .idle (fun _ => rfl) rfl
    · exact tidy_closed.cons (.idle (fun _ => rfl) rfl) (.idle (fun _ => rfl) rfl)
    · intro origin flowName input cancellation callee _ hcallee
      refine nestedCall_upholds (hn callee flowName input cancellation) fun raised events hevents hlane => ?_
      have htidy : Tidy events := hevents (hcallee.elim (·.trans hlane) id)
      exact tidy_closed.append (tidy_closed.append (.idle (fun _ => rfl) rfl) htidy) (.idle (fun _ => rfl) rfl)
  whole {lane flowName input cancellation r events} h hlane := by
    subst hlane
    exact lifecyclePolicy_called executor h

/-- The hooks of a call are well nested, and each start has exactly one end, as
long as no exception leaves a run that has started. -/
theorem executeFlow_bracketed (executor : Executor) (stack : Nat) (flowName : String) (initialInput : Dict)
    (call : Call) (hs : state.resumeSnapshot = none)
    (hrun : (executor.executeFlow stack flowName initialInput call).Runs state events r state')
    (hids : (drawn events).Nodup) (hcalm : ∀ e ∈ events, ¬Disturbance e) : Bracketed events := by
  have hs : (enterSync call state).resumeSnapshot = none := by
    cases hp : call.dynamicParams <;> simpa [enterSync, withDynamicParams, RunScopedState.copy, hp] using hs
  have htidy := lifecyclePolicy_called executor (executeFlow_called (lifecyclePolicy_sound executor) hs hrun)
  refine .of_closings (htidy.neutral hcalm []) fun bracket => ?_
  exact (htidy.bounded bracket).trans (List.nodup_iff_count_le_one.1 hids _)

-- A flow that never ends

/-- A flow whose step asks for an output key its tool does not give, and a flow that
calls a sub-flow. -/
def unmappedExecutor : Executor :=
  Sample.executor
    [.linear { name := "f", steps := [Sample.step "a"] },
     .linear { name := "g", steps := [Sample.subflow "f", Sample.step "a"] },
     .linear { name := "h", steps := [Sample.giving [("x", "y")] (Sample.step "a")] }]
    [Sample.tool "a"]

def unmappedRun (flowName : String) : List Event × Except Exc ExecutionResult × RunScopedState :=
  Sample.run Sample.named none 0 (unmappedExecutor.executeFlow 2 flowName .empty {})

def disturbs : Event → Bool
  | ⟨.probe, .fault _, _⟩ => true
  | ⟨.probe, .nestedEnd _ raised, _⟩ => raised
  | _ => false

theorem not_disturbs (h : disturbs e = false) : ¬Disturbance e := by
  unfold Disturbance
  split
  · simp [disturbs] at h
  · rintro ⟨-, rfl⟩
    simp [disturbs] at h
  · exact id

theorem executeFlow_bracketed_nested : Bracketed (unmappedRun "g").1 := by
  have hids : (drawn (unmappedRun "g").1).Nodup := by decide +kernel
  have hcalm : (unmappedRun "g").1.any disturbs = false := by decide +kernel
  exact executeFlow_bracketed unmappedExecutor 2 "g" .empty {} rfl (Sample.run_runs Sample.named none 0 _) hids
    fun e he => not_disturbs (by simpa using List.any_eq_false.1 hcalm e he)

theorem unmapped_output_unbracketed :
    ¬∀ (executor : Executor) (stack : Nat) (flowName : String) (initialInput : Dict) (call : Call)
      (events : List Event) r state',
      (executor.executeFlow stack flowName initialInput call).Runs {} events r state' →
        (drawn events).Nodup → Bracketed events := by
  intro h
  have hids : (drawn (unmappedRun "h").1).Nodup := by decide +kernel
  have hopen : trackAll [] (unmappedRun "h").1 = some [.flow "0"] := by decide +kernel
  have hnested := (h unmappedExecutor 2 "h" .empty {} _ _ _ (Sample.run_runs Sample.named none 0 _) hids).nested
  exact absurd (hopen.symm.trans hnested) (by decide)

end ChainWeaver.Executor
