import ChainWeaver.Sample
import ChainWeaver.TraceSets

/-!
# Dry runs

A dry run must leave the world as it is. It does, apart from capability steps:
they are dispatched to the kernel whether the run is dry or not.
-/

namespace ChainWeaver.Executor

open Interaction (Mixable Frame)

/-- What a dry run must not do: enter the callable of a side-effecting tool,
invoke a capability, write to the step cache, save a snapshot. -/
def acts : Event → Bool
  | ⟨.probe, .invoke _ _ tool _, _⟩ => tool.safety.sideEffecting
  | ⟨.callTool, invocation, _⟩ => invocation.tool.safety.sideEffecting
  | ⟨.stream, invocation, _⟩ => invocation.tool.safety.sideEffecting
  | ⟨.kernelInvoke, _, _⟩ => true
  | ⟨.cacheSet, _, _⟩ => true
  | ⟨.save, _, _⟩ => true
  | _ => false

/-- A capability step is dispatched and will call the kernel. -/
def dispatches (executor : Executor) : Event → Bool
  | ⟨.probe, .capability step context, _⟩ => decide (executor.InvokesCapability step context)
  | _ => false

/-- Nothing acts but the kernel, and it does where a capability is dispatched. -/
def Dry (executor : Executor) (events : List Event) : Prop :=
  (∀ e ∈ events, acts e = true → e.kind = .kernelInvoke) ∧
    ((∃ e ∈ events, acts e = true) ↔ ∃ e ∈ events, executor.dispatches e = true)

theorem Dry.mixable (executor : Executor) : Mixable executor.Dry where
  nil := by simp [Dry]
  append h₁ h₂ := by
    refine ⟨fun e he => (List.mem_append.1 he).elim (h₁.1 e) (h₂.1 e), ?_⟩
    simp only [List.mem_append, or_and_right, exists_or]
    exact or_congr h₁.2 h₂.2
  merged hm hpieces := by
    refine ⟨fun e he => ?_, ?_, ?_⟩
    · obtain ⟨piece, hp, he⟩ := hm.mem he
      exact (hpieces piece hp).1 e he
    · rintro ⟨e, he, ha⟩
      obtain ⟨piece, hp, he⟩ := hm.mem he
      obtain ⟨e', he', hd⟩ := (hpieces piece hp).2.1 ⟨e, he, ha⟩
      exact ⟨e', (hm.sublist hp).subset he', hd⟩
    · rintro ⟨e, he, hd⟩
      obtain ⟨piece, hp, he⟩ := hm.mem he
      obtain ⟨e', he', ha⟩ := (hpieces piece hp).2.2 ⟨e, he, hd⟩
      exact ⟨e', (hm.sublist hp).subset he', ha⟩

/-- An event that is of neither kind. -/
theorem Dry.idle {executor : Executor} (ha : acts e = false) (hd : executor.dispatches e = false) :
    executor.Dry [e] := by
  simp [Dry, ha, hd]

/-- Only the synchronous lane knows dry runs. -/
def dryPolicy (executor : Executor) : Policy where
  executor := executor
  Inv state := state.dryRun = true
  I lane _ events := lane = .sync → executor.Dry events
  W lane _ _ events := lane = .sync → executor.Dry events

theorem dryPolicy_step {executor : Executor} {info : StepInfo}
    (h : StepEvent executor (fun state => state.dryRun = true) .sync info e) : executor.Dry [e] := by
  have hlive : ¬Live (fun state => state.dryRun = true) .sync := by
    rintro (h | ⟨state, hdry, hwet⟩)
    · cases h
    · simp [hdry] at hwet
  cases h with
  | cacheGet _ _ hl | cacheSet _ _ hl => exact absurd hl hlive
  | refused step context hr => exact .idle rfl (by simpa [dispatches] using hr)
  | invoke _ tool _ _ ht | callTool tool _ _ ht | stream tool _ _ ht =>
    exact .idle (ht.resolve_left hlive) rfl
  | _ => exact .idle rfl rfl

theorem dryPolicy_admits {executor : Executor} : executor.dryPolicy.Admits .sync executor.Dry where
  toClosed := (Dry.mixable executor).toClosed
  refused _ := .idle rfl rfl
  scene flow run start origin := by
    have hsteps : (executor.dryPolicy.scene .sync flow run start origin).AdmitsSteps executor.Dry :=
      { toClosed := (Dry.mixable executor).toClosed
        inside := fun _ hevents => hevents rfl
        stepStart := fun _ => .idle rfl rfl
        stepEnd := fun _ => .idle rfl rfl
        unheard := fun _ => .idle rfl rfl }
    refine ⟨hsteps, fun he => ?_, hsteps.strands (Dry.mixable executor), fun he => ?_,
      fun _ => .idle rfl rfl, .idle rfl rfl, .idle rfl rfl, .idle rfl rfl, .idle rfl rfl, .idle rfl rfl⟩
    · cases he <;> exact .idle rfl rfl
    · cases he with
      | @save state snapshot reply hdry hwet => exact absurd (hdry.symm.trans hwet) (by decide)
      | _ => exact .idle rfl rfl
  newTraceId _ := .idle rfl rfl
  flowStart _ _ _ := .idle rfl rfl
  enter _ _ := .idle rfl rfl
  load _ _ := .idle rfl rfl

theorem dryPolicy_sound (executor : Executor) : executor.dryPolicy.Sound where
  stable := ⟨fun h => h, fun h => h⟩
  enter h := h
  step {nested lane info} hn := by
    have hT := (Dry.mixable executor).given (lane = .sync)
    refine .of_events hT.toClosed ?_ ?_ ?_
    · rintro e he rfl
      exact dryPolicy_step he
    · rintro step context call reply hinvokes rfl
      have hinvokes : executor.InvokesCapability step context := hinvokes
      simp [Dry, acts, dispatches, hinvokes]
    · intro origin flowName input cancellation callee _ hcallee
      refine nestedCall_upholds (hn callee flowName input cancellation) fun raised events hevents hlane => ?_
      have hdry : executor.Dry events := hevents (hcallee.elim (·.trans hlane) id)
      exact (Dry.mixable executor).append ((Dry.mixable executor).append (.idle rfl rfl) hdry) (.idle rfl rfl)
  whole {lane flowName input cancellation r events} h hlane := by
    subst hlane
    exact dryPolicy_admits.called h

/-- A flow of one capability step, and an executor with a kernel. -/
def capabilityFlow : DAGFlow :=
  { name := "f"
    steps := [{ Sample.step "notify" with
                stepId := "notify", stepType := .capability, capabilityId := some "notify" }] }

def kernelExecutor : Executor := { Sample.executor [.dag capabilityFlow] [] with kernel := some {} }

/-- Its dry run. -/
def capabilityRun : List Event × Except Exc ExecutionResult × RunScopedState :=
  Sample.run Sample.named none 0 (kernelExecutor.executeFlow 1 "f" .empty { dryRun := true })

end ChainWeaver.Executor
