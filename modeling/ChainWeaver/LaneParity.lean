import ChainWeaver.CompilerSound
import ChainWeaver.Concurrency

/-!
# The two lanes

A flow that the asynchronous lane accepts comes to the same there as in the synchronous lane. Where the
asynchronous lane runs a whole level before it looks at the records, it may come to an exception that the
synchronous lane never sees: then the synchronous lane has returned a failed result.
-/

namespace ChainWeaver.Executor

open Duet

/-- A flow that both lanes run alike, with the flows it may call. -/
structure Ported (called : String → Prop) (flowName : String) (flow : AnyFlow) : Prop where
  calls : ∀ step ∈ flow.steps, ∀ sub, step.target = .flow sub → called sub
  accepted : assertAsyncLaneSupported flow = .ok ()
  named : flow.header.name = flowName
  /-- Only the synchronous loops look at the context schema. -/
  context : flow.header.contextSchemaRef = none
  tools : ∀ dag, flow = .dag dag → ∀ step ∈ dag.steps, step.stepType = .tool

/-- What makes the lanes of an executor comparable. -/
structure Portable (executor : Executor) (called : String → Prop) : Prop where
  retries : RetriesByClass executor.platform
  whole : ∀ name tool, executor.getTool name = .ok tool → tool.isStreaming = false
  ported : ∀ flowName, called flowName → ∀ flow, executor.registry.getFlow flowName none = .ok flow →
    Ported called flowName flow

/-- One executor in both lanes. -/
def twoLanes (executor : Executor) (answer : Answers) : Duet :=
  { executor, answer, lanes := .across, limit_pos := executor.concurrency_pos }

variable {executor : Executor} {answer : Answers} {called : String → Prop}

theorem Ported.fits {flowName : String} {flow : AnyFlow} (h : Ported called flowName flow) :
    (executor.twoLanes answer).FlowFits called flowName flow :=
  { calls := h.calls
    resolves := fun _ _ hcached => absurd hcached nofun
    linear := nofun
    accepted := fun _ => h.accepted
    named := fun _ => h.named
    context := fun _ => h.context
    tools := fun _ => h.tools }

theorem Portable.roster (h : executor.Portable called) : (executor.twoLanes answer).Roster called where
  fair :=
    { retried := fun names retryable hok e e' he => h.retries names retryable hok e e' he.typeName
      shareable := nofun
      whole := fun _ => h.whole }
  fits := fun flowName hcalled flow hflow => (h.ported flowName hcalled flow hflow).fits
  resolves := fun _ _ _ _ _ _ hcached => absurd hcached nofun
  wraps := fun _ _ _ hslot => absurd hslot nofun

theorem fan_portable : fanExecutor.Portable (· = "inner") where
  retries := fun names retryable h e e' _ => by
    cases h
    rfl
  whole := fun name tool h => by
    have hmem := OrderedDict.get?_eq_some_iff.1 (getTool_iff.1 h)
    have htools : fanExecutor.tools.entries =
        [("left", Sample.tool "left"), ("middle", Sample.tool "middle"), ("right", Sample.tool "right")] := rfl
    simp only [htools, List.mem_cons, Prod.mk.injEq, List.not_mem_nil, or_false] at hmem
    obtain ⟨-, rfl⟩ | ⟨-, rfl⟩ | ⟨-, rfl⟩ := hmem <;> rfl
  ported := by
    rintro _ rfl flow h
    cases h
    refine { calls := fun step hstep sub hsub => ?_, accepted := rfl, named := rfl, context := rfl
             tools := fun dag hdag => by cases hdag }
    obtain rfl := List.mem_singleton.1 hstep
    cases hsub

theorem fan_ported {flow : AnyFlow} (h : fanExecutor.registry.getFlow "fan" none = .ok flow) :
    Ported (· = "inner") "fan" flow := by
  cases h
  refine { calls := fun step hstep sub hsub => ?_, accepted := rfl, named := rfl, context := rfl, tools := ?_ }
  · simp only [fanFlow, AnyFlow.steps, List.map_cons, List.map_nil, List.mem_cons, List.not_mem_nil, or_false] at hstep
    obtain rfl | rfl | rfl := hstep <;> cases hsub
    rfl
  · intro dag hdag step hstep
    cases hdag
    simp only [List.mem_cons, List.not_mem_nil, or_false] at hstep
    obtain rfl | rfl | rfl := hstep <;> rfl

end ChainWeaver.Executor
