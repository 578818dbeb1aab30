import ChainWeaver.CallTraces
import ChainWeaver.Interaction.Justified

/-!
# Sets of traces

What a set of traces has to admit so that all steps, and all runs, keep to it.
-/

namespace ChainWeaver.Executor

open Interaction (Closed Mixable Frame)

-- Inside a step

/-- The flow and the input of a nested call come from where the call was made. -/
def OriginOf (executor : Executor) : NestedOrigin → String → Dict → Prop
  | .step step context stepIndex, flowName, input =>
    step.target = .flow flowName ∧ resolveInputs step context stepIndex = .ok input
  | .tool tool inputs, flowName, input => (∃ toolName stepCount, tool.fn = .flow flowName toolName stepCount) ∧
    executor.platform.modelValidate tool.inputSchema (.dict inputs.entries) = .ok input

/-- The single events a step makes apart from its hooks and its nested calls. -/
inductive StepEvent (executor : Executor) (Inv : RunScopedState → Prop) (lane : Lane) (info : StepInfo) :
    Event → Prop
  | fault (e) : StepEvent executor Inv lane info (faultEvent e)
  | approve (ctx reply) : ctx.traceId = info.traceId → ctx.stepIndex = info.stepIndex →
      StepEvent executor Inv lane info ⟨.approve, ctx, reply⟩
  | check (ctx reply) : ctx.traceId = info.traceId → ctx.stepIndex = info.stepIndex →
      StepEvent executor Inv lane info ⟨.check, ctx, reply⟩
  | chunk (toolName chunk) : StepEvent executor Inv lane info
      (hookEvent (.stepChunk info.traceId info.flowName info.stepIndex toolName chunk))
  | runDry (tool validated reply) : StepEvent executor Inv lane info
      ⟨.runDry, ⟨info.traceId, info.stepIndex, tool, validated⟩, reply⟩
  | cacheGet (key reply) : Live Inv lane → StepEvent executor Inv lane info ⟨.cacheGet, key, reply⟩
  | cacheSet (entry reply) : Live Inv lane → StepEvent executor Inv lane info ⟨.cacheSet, entry, reply⟩
  | decide (ctx reply) : StepEvent executor Inv lane info ⟨.decide, ctx, reply⟩
  | decideTimed (ctx reply) : StepEvent executor Inv lane info ⟨.decideTimed, ctx, reply⟩
  | subInputs (step context input) : resolveInputs step context info.stepIndex = .ok input →
      StepEvent executor Inv lane info (probeEvent (.subInputs info.traceId info.stepIndex step context))
  | refused (step context) : ¬executor.InvokesCapability step context →
      StepEvent executor Inv lane info (probeEvent (.capability step context))
  | fallback (toolName fallbackName) : StepEvent executor Inv lane info
      (probeEvent (.fallback info.traceId info.stepIndex toolName fallbackName))
  | invoke (name tool inputs) : executor.getTool name = .ok tool → Live Inv lane ∨ tool.safety.sideEffecting = false →
      StepEvent executor Inv lane info (probeEvent (.invoke info.traceId info.stepIndex tool inputs))
  | callTool (tool validated reply) : Live Inv lane ∨ tool.safety.sideEffecting = false →
      StepEvent executor Inv lane info ⟨.callTool, ⟨info.traceId, info.stepIndex, tool, validated⟩, reply⟩
  | stream (tool validated reply) : Live Inv lane ∨ tool.safety.sideEffecting = false →
      StepEvent executor Inv lane info ⟨.stream, ⟨info.traceId, info.stepIndex, tool, validated⟩, reply⟩

section

variable {executor : Executor} {Inv : RunScopedState → Prop} {lane : Lane} {nested : Nested}
variable {info : StepInfo} {T : List Event → Prop}

theorem StepEvents.of_events (hT : Closed T) (h : ∀ e, StepEvent executor Inv lane info e → T [e]) :
    StepEvents Inv T lane info where
  closed := hT
  fault e := h _ (.fault e)
  approve ctx reply htrace hindex _ := h _ (.approve ctx reply htrace hindex)
  check ctx reply htrace hindex _ := h _ (.check ctx reply htrace hindex)
  chunk toolName chunk := h _ (.chunk toolName chunk)
  runDry tool validated reply := h _ (.runDry tool validated reply)
  cacheGet hl key reply := h _ (.cacheGet key reply hl)
  cacheSet hl entry reply := h _ (.cacheSet entry reply hl)

/-- A set that admits the events of a step one by one admits the step. -/
theorem Inside.of_events (hT : Closed T) (h : ∀ e, StepEvent executor Inv lane info e → T [e])
    (hinvoked : ∀ step context call reply, executor.InvokesCapability step context →
      T [probeEvent (.capability step context), ⟨.kernelInvoke, call, reply⟩])
    (hnested : ∀ origin flowName input cancellation callee, OriginOf executor origin flowName input →
      callee = lane ∨ callee = .sync → (frame Inv).Upholds T origin.Leaves
        (nestedCall origin input (nested.entry callee flowName input cancellation)) fun _ => True) :
    Inside executor Inv T lane nested info where
  toStepEvents := .of_events hT h
  decide ctx reply := h _ (.decide ctx reply)
  decideTimed ctx reply := h _ (.decideTimed ctx reply)
  subInputs step context input hinput := h _ (.subInputs step context input hinput)
  refused step context hr := h _ (.refused step context hr)
  invoked := hinvoked
  subFlow step context subName input cancellation htarget hinput :=
    hnested (.step step context info.stepIndex) subName input cancellation lane ⟨htarget, hinput⟩ (.inl rfl)
  toolStep step toolName tool inputs record htool := by
    refine runToolStep_upholds (.of_events hT h) htool (fun name tool htool hlive => ?_) fun _ => h _ (.fallback ..)
    exact
      { invoke := h _ (.invoke name tool inputs htool hlive)
        callTool := fun validated reply => h _ (.callTool tool validated reply hlive)
        stream := fun validated reply => h _ (.stream tool validated reply hlive)
        nested := fun flowName toolName stepCount validated hfn hv =>
          hnested (.tool tool inputs) flowName validated {} .sync ⟨⟨toolName, stepCount, hfn⟩, hv⟩ (.inr rfl) }

end

-- Steps and runs

namespace Scene

variable {S : Scene} {T : List Event → Prop}

/-- `T` admits what steps leave. -/
structure AdmitsSteps (S : Scene) (T : List Event → Prop) : Prop extends Closed T where
  inside : S.Of info → S.I info events → T events
  stepStart : S.Of info → T [stepStartEvent info toolName inputs]
  stepEnd : S.Of info → T [stepEndEvent info record]
  unheard : S.Of info → T [probeEvent (.subInputs info.traceId info.stepIndex step context)]

theorem AdmitsSteps.turn (h : S.AdmitsSteps T) (hinfo : S.Of info)
    (hturn : Turn (S.I info) info record events) : T events := by
  cases hturn with
  | lone hbefore _ _ => exact h.append (h.inside hinfo hbefore) (h.stepEnd hinfo)
  | bracket hbefore hbody _ =>
    exact h.append (h.append (h.append (h.inside hinfo hbefore) (h.stepStart hinfo))
      (h.inside hinfo hbody)) (h.stepEnd hinfo)
  | unheard _ _ _ => exact h.unheard hinfo

theorem AdmitsSteps.torn (h : S.AdmitsSteps T) (hinfo : S.Of info) (htorn : Torn (S.I info) info events) :
    T events := by
  cases htorn with
  | before hbefore => exact h.inside hinfo hbefore
  | inside hbefore hbody =>
    exact h.append (h.append (h.inside hinfo hbefore) (h.stepStart hinfo)) (h.inside hinfo hbody)

theorem Strands.imp (hstrands : S.Strands first count ends events)
    (h : ∀ info piece, S.Of info → ends info piece → ends' info piece) :
    S.Strands first count ends' events := by
  obtain ⟨pieces, hmerged, hpieces⟩ := hstrands
  refine ⟨pieces, hmerged, fun piece hp => ?_⟩
  obtain ⟨info, place, hplace, hat, hends⟩ := hpieces piece hp
  exact ⟨info, place, hplace, hat, h info piece hat.1 hends⟩

theorem Passed.taken (h : S.Passed info events) : S.Taken info events :=
  .inr (h.imp fun _ => And.left)

theorem AdmitsSteps.taken (h : S.AdmitsSteps T) (hinfo : S.Of info) (htaken : S.Taken info events) :
    T events := by
  obtain htorn | ⟨record, hturn⟩ := htaken
  · exact h.torn hinfo htorn
  · exact h.turn hinfo hturn

theorem AdmitsSteps.strands (h : S.AdmitsSteps T) (hT : Mixable T)
    (hstrands : S.Strands first count S.Taken events) : T events := by
  obtain ⟨pieces, hmerged, hpieces⟩ := hstrands
  refine hT.merged hmerged fun piece hp => ?_
  obtain ⟨info, _, _, hat, htaken⟩ := hpieces piece hp
  exact h.taken hat.1 htaken

/-- `T` admits what runs leave. -/
structure Admits (S : Scene) (T : List Event → Prop) : Prop extends S.AdmitsSteps T where
  seed : S.Seed e → T [e]
  strands : S.Strands first count S.Taken events → T events
  aside : S.Aside e → T [e]
  unplaced : S.executor.Unplaceable S.lane step context outputs levelOutputs →
    T [probeEvent (.place S.run.traceId step context outputs levelOutputs)]
  unsupported : T [probeEvent (.unsupported S.run.traceId stepIndex step)]
  fault : T [faultEvent e]
  delete : T [⟨.delete, S.run.traceId, reply⟩]
  cancelled : T [probeEvent (.cancelled S.run.traceId)]
  flowEnd : T [S.flowEndEvent result]

theorem Admits.reached (h : S.Admits T) (hreached : S.Reached spot events) : T events := by
  induction hreached with
  | start he => exact h.seed he
  | aside _ he ih => exact h.append ih (h.aside he)
  | turn _ hat hturn _ ih => exact h.append ih (h.turn hat.1 hturn)
  | skip _ _ _ ih => exact h.append ih (h.aside (.visit ..))
  | strands _ _ _ hown ih => exact h.append ih (h.strands (hown.imp fun _ _ _ => Passed.taken))
  | settle _ _ _ ih => exact ih

theorem Admits.spent (h : S.Admits T) (hspent : S.Spent events) : T events := by
  induction hspent with
  | reached hr => exact h.reached hr
  | strands hr _ hown => exact h.append (h.reached hr) (h.strands hown)
  | unsupported _ hr => exact h.append (h.reached hr) h.unsupported
  | aside _ he ih => exact h.append ih (h.aside he)
  | place _ hun ih => exact h.append ih (h.unplaced hun)

theorem Admits.ended (h : S.Admits T) (hended : S.Ended success log events) : T events := by
  cases hended with
  | finished hr => exact h.reached hr
  | unseeded => exact h.nil
  | refused hr => exact h.reached hr
  | failed hr hat hturn _ => exact h.append (h.reached hr) (h.turn hat.1 hturn)
  | replaced hr hat hturn hun =>
    exact h.append (h.append (h.reached hr) (h.turn hat.1 hturn)) (h.unplaced hun)
  | spent _ hs => exact h.spent hs

theorem Admits.run (h : S.Admits T) (hrun : S.RunQ r events) : T events := by
  cases r with
  | ok result =>
    obtain ⟨_, before, after, hended, hclosing, rfl⟩ := hrun
    refine h.append (h.ended hended) ?_
    cases hclosing with
    | plain => exact h.flowEnd
    | deleting => exact h.toClosed.cons h.delete h.flowEnd
  | error e =>
    cases hrun with
    | unseeded => exact h.fault
    | raised hr => exact h.append (h.reached hr) h.fault
    | undeleted he => exact h.append (h.append (h.ended he) h.delete) h.fault
    | torn hr hat htorn _ => exact h.append (h.reached hr) (h.torn hat.1 htorn)
    | tornStrands _ hr _ hown _ => exact h.append (h.reached hr) (h.strands hown)
    | spent _ hs => exact h.append (h.spent hs) h.fault
    | reanchored hr hat htorn _ =>
      exact h.append (h.append (h.reached hr) (h.torn hat.1 htorn)) h.flowEnd
    | stopped hr => exact h.append (h.append (h.reached hr) h.cancelled) h.flowEnd

end Scene

-- Calls

namespace Policy

variable {P : Policy} {lane : Lane} {T : List Event → Prop}

/-- `T` admits what calls in a lane leave. -/
structure Admits (P : Policy) (lane : Lane) (T : List Event → Prop) : Prop extends Closed T where
  refused : ∀ e, T [refusedEvent e]
  scene : ∀ flow run start origin, (P.scene lane flow run start origin).Admits T
  newTraceId : ∀ traceId, T [⟨.newTraceId, (), traceId⟩]
  flowStart : ∀ run version totalSteps, T [flowStartEvent run version totalSteps]
  enter : ∀ flow state, T [probeEvent (.enter flow state)]
  load : ∀ traceId reply, T [⟨.load, traceId, reply⟩]

theorem Admits.opened (h : P.Admits lane T) (hopened : P.Opened lane flow input r events) : T events := by
  cases hopened with
  | unlevelled => exact h.refused _
  | fresh _ _ hrun =>
    refine h.append ?_ ((h.scene ..).run hrun)
    exact h.toClosed.cons (h.newTraceId _) (h.flowStart ..)
  | resumed _ _ _ _ _ _ hrun => exact h.append (h.flowStart ..) ((h.scene ..).run hrun)

theorem Admits.called (h : P.Admits lane T) (hcalled : P.Called lane flowName input call r events) :
    T events := by
  cases hcalled with
  | refused => exact h.refused _
  | entered _ _ _ hopened => exact h.append (h.enter ..) (h.opened hopened)

theorem Admits.resumed (h : P.Admits lane T) (hresumed : P.Resumed lane r events) : T events := by
  cases hresumed with
  | refused => exact h.refused _
  | unfit => exact h.toClosed.cons (h.load ..) (h.refused _)
  | linear _ _ hrun =>
    refine h.append ?_ ((h.scene ..).run hrun)
    exact h.toClosed.cons (h.load ..) (h.flowStart ..)
  | dag _ hopened => exact h.append (h.load ..) (h.opened hopened)

theorem Admits.replayed (h : P.Admits .sync T)
    (hreplayed : P.Replayed flowName resumeFromStep r events) : T events := by
  cases hreplayed with
  | refused => exact h.refused _
  | whole hcalled => exact h.called hcalled
  | part _ _ hrun =>
    refine h.append ?_ ((h.scene ..).run hrun)
    exact h.toClosed.cons (h.newTraceId _) (h.flowStart ..)

theorem Admits.entered (h : ∀ lane, P.Admits lane T) {entry : EntryPoint}
    (hentered : P.Entered entry r events) : T events := by
  cases entry with
  | execute | executeAsync => exact (h _).called hentered
  | resume | resumeAsync => exact (h _).resumed hentered
  | replay => exact (h _).replayed hentered

end Policy

end ChainWeaver.Executor
