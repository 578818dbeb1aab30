import ChainWeaver.Data.Machine
import ChainWeaver.Effects

/-!
# Spans

`OTelTraceExporter` opens a span where a flow or a step starts and ends it where that
ends. Of the open step spans it keeps one a trace, under the id of the trace, so spans are
ended as they should be exactly if no two steps of a trace are open at once
(`paired_iff_oneAtATime`).
-/

namespace ChainWeaver

-- The exporter

/-- What a span covers, with the attributes that it starts with. -/
inductive SpanSubject
  | flow (flowName flowVersion : String) (totalSteps : Nat)
  | step (flowName : String) (stepIndex : Int) (toolName : String) (inputKeys : Option (List String))

/-- What a span takes the attributes from that it ends with. -/
inductive SpanEnding
  | flow (result : ExecutionResult)
  | step (record : StepRecord)

structure Span where
  name : String
  traceId : String
  subject : SpanSubject
  /-- The calls of `end`. -/
  endings : List SpanEnding := []

/-- The exporter, with the spans its tracer has started. An open span is known by its place
among them. -/
structure OTelTraceExporter where
  spans : List Span := []
  flowSpans : OrderedDict Nat := .empty
  stepSpans : OrderedDict Nat := .empty

namespace OTelTraceExporter

def flowSpan (traceId flowName flowVersion : String) (totalSteps : Nat) : Span :=
  { name := s!"chainweaver.flow.{flowName}", traceId, subject := .flow flowName flowVersion totalSteps }

def stepSpan (traceId flowName : String) (stepIndex : Int) (toolName : String)
    (inputKeys : Option (List String)) : Span :=
  { name := s!"chainweaver.tool.{toolName}", traceId, subject := .step flowName stepIndex toolName inputKeys }

def startSpan (exporter : OTelTraceExporter) (span : Span) : OTelTraceExporter :=
  { exporter with spans := exporter.spans ++ [span] }

def endSpan (exporter : OTelTraceExporter) (place : Nat) (ending : SpanEnding) : OTelTraceExporter :=
  { exporter with
    spans := exporter.spans.modify place fun span => { span with endings := span.endings ++ [ending] } }

def onFlowStart (exporter : OTelTraceExporter) (traceId flowName flowVersion : String) (totalSteps : Nat) :
    OTelTraceExporter :=
  { exporter.startSpan (flowSpan traceId flowName flowVersion totalSteps) with
    flowSpans := exporter.flowSpans.insert traceId exporter.spans.length }

def onStepStart (exporter : OTelTraceExporter) (traceId flowName : String) (stepIndex : Int) (toolName : String)
    (inputs : Dict) : OTelTraceExporter :=
  { exporter.startSpan (stepSpan traceId flowName stepIndex toolName (some (inputs.keys.mergeSort (· ≤ ·)))) with
    stepSpans := exporter.stepSpans.insert traceId exporter.spans.length }

/-- A step that failed before it started gets a span of its own. -/
def onStepEnd (exporter : OTelTraceExporter) (traceId flowName : String) (record : StepRecord) :
    OTelTraceExporter :=
  match exporter.stepSpans.get? traceId with
  | some place =>
    { exporter.endSpan place (.step record) with stepSpans := exporter.stepSpans.erase traceId }
  | none =>
    (exporter.startSpan (stepSpan traceId flowName record.stepIndex record.toolName none)).endSpan
      exporter.spans.length (.step record)

def onFlowEnd (exporter : OTelTraceExporter) (traceId : String) (result : ExecutionResult) : OTelTraceExporter :=
  match exporter.flowSpans.get? traceId with
  | some place =>
    { exporter.endSpan place (.flow result) with flowSpans := exporter.flowSpans.erase traceId }
  | none => exporter

def onHook (exporter : OTelTraceExporter) : Hook → OTelTraceExporter
  | .flowStart traceId flowName flowVersion _ totalSteps =>
    exporter.onFlowStart traceId flowName flowVersion totalSteps
  | .stepStart traceId flowName stepIndex toolName inputs =>
    exporter.onStepStart traceId flowName stepIndex toolName inputs
  | .stepChunk _ _ _ _ _ => exporter
  | .stepEnd traceId flowName record => exporter.onStepEnd traceId flowName record
  | .flowEnd traceId _ result => exporter.onFlowEnd traceId result

/-- The exporter as a machine that is given hook calls. -/
def machine : Machine Hook Unit where
  State := OTelTraceExporter
  start := {}
  step exporter hook := ((), exporter.onHook hook)

end OTelTraceExporter

/-- The ending is one of what the span covers. -/
def Span.EndsWith (span : Span) : SpanEnding → Prop
  | .flow _ => ∃ flowName flowVersion totalSteps, span.subject = .flow flowName flowVersion totalSteps
  | .step record => ∃ flowName inputKeys, span.subject = .step flowName record.stepIndex record.toolName inputKeys

/-- The span has ended once, with what it covers. -/
def Span.Closed (span : Span) : Prop := ∃ ending, span.endings = [ending] ∧ span.EndsWith ending

/-- Every span has ended as it should, and none is kept. -/
structure OTelTraceExporter.Paired (exporter : OTelTraceExporter) : Prop where
  closed : ∀ span ∈ exporter.spans, span.Closed
  flows : ∀ traceId, exporter.flowSpans.get? traceId = none
  steps : ∀ traceId, exporter.stepSpans.get? traceId = none

-- Hook calls that are bracketed

structure OpenStep where
  traceId : String
  stepIndex : Int
  toolName : String
  deriving DecidableEq

/-- The flows and the steps that have started and not ended. -/
structure Brackets where
  flows : List String := []
  steps : List OpenStep := []

namespace Brackets

/-- A flow of a trace, and a step at an index of it, starts again only when it has ended. A
step may end without a start; one that has started ends with a record of its tool. -/
def Fits (brackets : Brackets) : Hook → Prop
  | .flowStart traceId _ _ _ _ => traceId ∉ brackets.flows
  | .stepStart traceId _ stepIndex _ _ =>
    ∀ step ∈ brackets.steps, ¬(step.traceId = traceId ∧ step.stepIndex = stepIndex)
  | .stepChunk _ _ _ _ _ => True
  | .stepEnd traceId _ record =>
    ∀ step ∈ brackets.steps, step.traceId = traceId → step.stepIndex = record.stepIndex →
      step.toolName = record.toolName
  | .flowEnd traceId _ _ => traceId ∈ brackets.flows

def next (brackets : Brackets) : Hook → Brackets
  | .flowStart traceId _ _ _ _ => { brackets with flows := traceId :: brackets.flows }
  | .stepStart traceId _ stepIndex toolName _ =>
    { brackets with steps := ⟨traceId, stepIndex, toolName⟩ :: brackets.steps }
  | .stepChunk _ _ _ _ _ => brackets
  | .stepEnd traceId _ record =>
    { brackets with
      steps := brackets.steps.filter fun step => !(step.traceId = traceId && step.stepIndex = record.stepIndex) }
  | .flowEnd traceId _ _ => { brackets with flows := brackets.flows.filter (· ≠ traceId) }

/-- The call meets no other step of its trace that is open. -/
def InTurn (brackets : Brackets) : Hook → Prop
  | .stepStart traceId _ _ _ _ => ∀ step ∈ brackets.steps, step.traceId ≠ traceId
  | .stepEnd traceId _ record =>
    ∀ step ∈ brackets.steps, step.traceId = traceId → step.stepIndex = record.stepIndex
  | _ => True

def machine : Machine Hook Unit where
  State := Brackets
  start := {}
  step brackets hook := ((), brackets.next hook)

end Brackets

/-- Everything that starts ends, before it starts again. -/
def Bracketed (hooks : List Hook) : Prop :=
  Brackets.machine.Admitted Brackets.Fits {} hooks ∧ Brackets.machine.after hooks = {}

/-- No two steps of a trace are open at once. -/
def OneAtATime (hooks : List Hook) : Prop := Brackets.machine.Admitted Brackets.InTurn {} hooks

namespace OTelTraceExporter

variable {exporter : OTelTraceExporter} {brackets : Brackets} {hook : Hook} {hooks : List Hook} {place : Nat}

-- Calls in turn

/-- The span at this place has not ended, and covers this. -/
def Pending (exporter : OTelTraceExporter) (place : Nat) (traceId : String) (P : SpanSubject → Prop) : Prop :=
  ∃ span, exporter.spans[place]? = some span ∧ span.endings = [] ∧ span.traceId = traceId ∧ P span.subject

def IsFlow (subject : SpanSubject) : Prop :=
  ∃ flowName flowVersion totalSteps, subject = .flow flowName flowVersion totalSteps

def IsStep (step : OpenStep) (subject : SpanSubject) : Prop :=
  ∃ flowName inputKeys, subject = .step flowName step.stepIndex step.toolName inputKeys

/-- The maps hold the spans of what is open, and the other spans have ended. -/
structure Tracks (exporter : OTelTraceExporter) (brackets : Brackets) : Prop where
  flow : ∀ traceId place, exporter.flowSpans.get? traceId = some place →
    traceId ∈ brackets.flows ∧ exporter.Pending place traceId IsFlow
  step : ∀ traceId place, exporter.stepSpans.get? traceId = some place →
    ∃ step ∈ brackets.steps, step.traceId = traceId ∧ exporter.Pending place traceId (IsStep step)
  known : ∀ step ∈ brackets.steps, ∃ place, exporter.stepSpans.get? step.traceId = some place ∧
    exporter.Pending place step.traceId (IsStep step)
  settled : ∀ place span, exporter.spans[place]? = some span → span.Closed ∨
    exporter.flowSpans.get? span.traceId = some place ∨ exporter.stepSpans.get? span.traceId = some place

theorem tracks_start : ({} : OTelTraceExporter).Tracks {} := by
  constructor <;> simp

theorem Pending.startSpan {P : SpanSubject → Prop} (h : exporter.Pending place traceId P) (span : Span) :
    (exporter.startSpan span).Pending place traceId P := by
  obtain ⟨old, hold, hrest⟩ := h
  refine ⟨old, ?_, hrest⟩
  rw [OTelTraceExporter.startSpan, List.getElem?_append_left (List.getElem?_eq_some_iff.1 hold).1]
  exact hold

theorem pending_startSpan {P : SpanSubject → Prop} {span : Span} (hopen : span.endings = [])
    (hsubject : P span.subject) :
    (exporter.startSpan span).Pending exporter.spans.length span.traceId P :=
  ⟨span, by simp [OTelTraceExporter.startSpan], hopen, rfl, hsubject⟩

theorem getElem?_endSpan (place other : Nat) (ending : SpanEnding) :
    (exporter.endSpan place ending).spans[other]? =
      if place = other then exporter.spans[other]?.map fun span => { span with endings := span.endings ++ [ending] }
      else exporter.spans[other]? := by
  rw [endSpan, List.getElem?_modify]
  split <;> simp [*]

theorem Pending.endSpan {P : SpanSubject → Prop} (h : exporter.Pending other traceId P) (hne : place ≠ other)
    (ending : SpanEnding) : (exporter.endSpan place ending).Pending other traceId P := by
  obtain ⟨span, hspan, hrest⟩ := h
  exact ⟨span, by rw [getElem?_endSpan, if_neg hne, hspan], hrest⟩

theorem Pending.lt {P : SpanSubject → Prop} (h : exporter.Pending place traceId P) :
    place < exporter.spans.length := by
  obtain ⟨span, hspan, -⟩ := h
  exact (List.getElem?_eq_some_iff.1 hspan).1

/-- Different traces have different spans. -/
theorem Pending.trace_unique {P Q : SpanSubject → Prop} (h : exporter.Pending place traceId P)
    (h' : exporter.Pending place traceId' Q) : traceId = traceId' := by
  obtain ⟨span, hspan, -, rfl, -⟩ := h
  obtain ⟨span', hspan', -, rfl, -⟩ := h'
  rw [Option.some.inj (hspan.symm.trans hspan')]

theorem Pending.not_both (h : exporter.Pending place traceId IsFlow) :
    ¬exporter.Pending place traceId' (IsStep step) := by
  rintro ⟨span', hspan', -, -, hstep⟩
  obtain ⟨span, hspan, -, -, hflow⟩ := h
  obtain rfl := Option.some.inj (hspan.symm.trans hspan')
  obtain ⟨_, _, _, hflow⟩ := hflow
  obtain ⟨_, _, hstep⟩ := hstep
  cases hflow.symm.trans hstep

/-- Ending a pending span closes it. -/
theorem Pending.closed {P : SpanSubject → Prop} (h : exporter.Pending place traceId P)
    (hending : ∀ span : Span, P span.subject → span.EndsWith ending)
    (hspan : span ∈ (exporter.endSpan place ending).spans[place]?) : span.Closed := by
  obtain ⟨old, hold, hopen, -, hsubject⟩ := h
  rw [getElem?_endSpan, if_pos rfl, hold] at hspan
  obtain rfl := Option.some.inj hspan
  exact ⟨ending, by simp [hopen], hending _ hsubject⟩

theorem getElem?_startSpan {span started : Span} (h : (exporter.startSpan started).spans[place]? = some span) :
    exporter.spans[place]? = some span ∨ place = exporter.spans.length ∧ span = started := by
  rw [startSpan, List.getElem?_append] at h
  split at h
  · exact .inl h
  · rw [List.getElem?_singleton] at h
    split at h
    · exact .inr ⟨by omega, (Option.some.inj h).symm⟩
    · cases h

theorem Tracks.onFlowStart (h : exporter.Tracks brackets) (hfresh : traceId ∉ brackets.flows) :
    (exporter.onFlowStart traceId flowName flowVersion totalSteps).Tracks
      { brackets with flows := traceId :: brackets.flows } := by
  refine ⟨fun other place hplace => ?_, fun other place hplace => ?_, fun step hstep => ?_,
    fun place span hspan => ?_⟩
  · simp only [OTelTraceExporter.onFlowStart, OrderedDict.get?_insert] at hplace
    split at hplace
    · next heq =>
      obtain rfl := Option.some.inj hplace
      subst heq
      exact ⟨List.mem_cons_self, pending_startSpan rfl ⟨_, _, _, rfl⟩⟩
    · obtain ⟨hmem, hpending⟩ := h.flow _ _ hplace
      exact ⟨List.mem_cons_of_mem _ hmem, hpending.startSpan _⟩
  · obtain ⟨step, hstep, htrace, hpending⟩ := h.step _ _ hplace
    exact ⟨step, hstep, htrace, hpending.startSpan _⟩
  · obtain ⟨place, hplace, hpending⟩ := h.known step hstep
    exact ⟨place, hplace, hpending.startSpan _⟩
  · simp only [OTelTraceExporter.onFlowStart, OrderedDict.get?_insert]
    rcases getElem?_startSpan hspan with hold | ⟨rfl, rfl⟩
    · refine (h.settled place span hold).imp_right (Or.imp_left fun hflow => ?_)
      rw [if_neg]
      · exact hflow
      · rintro rfl
        exact hfresh (h.flow _ _ hflow).1
    · exact .inr (.inl (if_pos rfl))

theorem Tracks.onStepStart (h : exporter.Tracks brackets)
    (halone : ∀ step ∈ brackets.steps, step.traceId ≠ traceId) :
    (exporter.onStepStart traceId flowName stepIndex toolName inputs).Tracks
      { brackets with steps := ⟨traceId, stepIndex, toolName⟩ :: brackets.steps } := by
  refine ⟨fun other place hplace => ?_, fun other place hplace => ?_, fun step hstep => ?_,
    fun place span hspan => ?_⟩
  · obtain ⟨hmem, hpending⟩ := h.flow _ _ hplace
    exact ⟨hmem, hpending.startSpan _⟩
  · simp only [OTelTraceExporter.onStepStart, OrderedDict.get?_insert] at hplace
    split at hplace
    · next heq =>
      obtain rfl := Option.some.inj hplace
      subst heq
      exact ⟨_, List.mem_cons_self, rfl, pending_startSpan rfl ⟨_, _, rfl⟩⟩
    · obtain ⟨step, hstep, htrace, hpending⟩ := h.step _ _ hplace
      exact ⟨step, List.mem_cons_of_mem _ hstep, htrace, hpending.startSpan _⟩
  · simp only [OTelTraceExporter.onStepStart, OrderedDict.get?_insert]
    rcases List.mem_cons.1 hstep with rfl | hstep
    · exact ⟨_, if_pos rfl, pending_startSpan rfl ⟨_, _, rfl⟩⟩
    · obtain ⟨place, hplace, hpending⟩ := h.known step hstep
      exact ⟨place, by rw [if_neg (halone step hstep), hplace], hpending.startSpan _⟩
  · simp only [OTelTraceExporter.onStepStart, OrderedDict.get?_insert]
    rcases getElem?_startSpan hspan with hold | ⟨rfl, rfl⟩
    · refine (h.settled place span hold).imp_right (Or.imp_right fun hstep => ?_)
      rw [if_neg]
      · exact hstep
      · intro heq
        obtain ⟨step, hmem, htrace, -⟩ := h.step _ _ hstep
        exact halone step hmem (htrace.trans heq)
    · exact .inr (.inr (if_pos rfl))

/-- The span that ends is closed, and the others are as they were. -/
theorem settled_endSpan {P : SpanSubject → Prop} (hpending : exporter.Pending place traceId P)
    (hending : ∀ span : Span, P span.subject → span.EndsWith ending)
    (hspan : (exporter.endSpan place ending).spans[other]? = some span) :
    span.Closed ∨ exporter.spans[other]? = some span ∧ place ≠ other := by
  by_cases heq : place = other
  · subst heq
    exact .inl (hpending.closed hending hspan)
  · rw [getElem?_endSpan, if_neg heq] at hspan
    exact .inr ⟨hspan, heq⟩

theorem Tracks.onFlowEnd (h : exporter.Tracks brackets) :
    (exporter.onFlowEnd traceId result).Tracks
      { brackets with flows := brackets.flows.filter (· ≠ traceId) } := by
  unfold OTelTraceExporter.onFlowEnd
  split
  · next place hplace =>
    obtain ⟨-, hpending⟩ := h.flow _ _ hplace
    refine ⟨fun other place' hplace' => ?_, fun other place' hplace' => ?_, fun step hstep => ?_,
      fun place' span hspan => ?_⟩
    · simp only [OrderedDict.get?_erase] at hplace'
      split at hplace'
      · cases hplace'
      · next hne =>
        obtain ⟨hmem, hpending'⟩ := h.flow _ _ hplace'
        refine ⟨by simp [hmem, hne], hpending'.endSpan ?_ _⟩
        rintro rfl
        exact hne (hpending'.trace_unique hpending)
    · obtain ⟨step, hstep, htrace, hpending'⟩ := h.step _ _ hplace'
      refine ⟨step, hstep, htrace, hpending'.endSpan ?_ _⟩
      rintro rfl
      exact hpending.not_both hpending'
    · obtain ⟨place', hplace', hpending'⟩ := h.known step hstep
      refine ⟨place', hplace', hpending'.endSpan ?_ _⟩
      rintro rfl
      exact hpending.not_both hpending'
    · have hends : ∀ span : Span, IsFlow span.subject → span.EndsWith (.flow result) := fun _ h => h
      rcases settled_endSpan hpending hends hspan with hclosed | ⟨hold, hne⟩
      · exact .inl hclosed
      · refine (h.settled place' span hold).imp_right (Or.imp_left fun hflow => ?_)
        simp only [OrderedDict.get?_erase]
        rw [if_neg]
        · exact hflow
        · rintro rfl
          exact hne (Option.some.inj (hplace.symm.trans hflow))
  · next hnone =>
    refine ⟨fun other place hplace => ?_, h.step, h.known, h.settled⟩
    obtain ⟨hmem, hpending⟩ := h.flow _ _ hplace
    refine ⟨?_, hpending⟩
    have hne : other ≠ traceId := by
      rintro rfl
      cases hnone.symm.trans hplace
    simp [hmem, hne]

theorem mem_steps_filter {record : StepRecord} (hmem : step ∈ brackets.steps) (hne : step.traceId ≠ traceId) :
    step ∈ brackets.steps.filter fun step => !(step.traceId = traceId && step.stepIndex = record.stepIndex) :=
  List.mem_filter.2 ⟨hmem, by simp [hne]⟩

theorem Tracks.onStepEnd (h : exporter.Tracks brackets) (hfits : brackets.Fits (.stepEnd traceId flowName record))
    (hturn : brackets.InTurn (.stepEnd traceId flowName record)) :
    (exporter.onStepEnd traceId flowName record).Tracks (brackets.next (.stepEnd traceId flowName record)) := by
  have hgone : ∀ step ∈ (brackets.next (.stepEnd traceId flowName record)).steps,
      step ∈ brackets.steps ∧ step.traceId ≠ traceId := by
    intro step hstep
    obtain ⟨hmem, hother⟩ := List.mem_filter.1 hstep
    refine ⟨hmem, fun htrace => ?_⟩
    simp [htrace, hturn step hmem htrace] at hother
  unfold OTelTraceExporter.onStepEnd
  split
  · next place hplace =>
    obtain ⟨step, hstep, htrace, hpending⟩ := h.step _ _ hplace
    have hends : ∀ span : Span, IsStep step span.subject → span.EndsWith (.step record) := by
      rintro span ⟨flowName, inputKeys, hsubject⟩
      refine ⟨flowName, inputKeys, ?_⟩
      rw [hsubject, hturn step hstep htrace, hfits step hstep htrace (hturn step hstep htrace)]
    have hother : ∀ {other place' P}, exporter.Pending place' other P → other ≠ traceId → place ≠ place' := by
      rintro other _ P hpending' hne rfl
      exact hne (hpending'.trace_unique hpending)
    refine ⟨fun other place' hplace' => ?_, fun other place' hplace' => ?_, fun step' hstep' => ?_,
      fun place' span hspan => ?_⟩
    · obtain ⟨hmem, hpending'⟩ := h.flow _ _ hplace'
      refine ⟨hmem, hpending'.endSpan ?_ _⟩
      rintro rfl
      exact hpending'.not_both hpending
    · simp only [OrderedDict.get?_erase] at hplace'
      split at hplace'
      · cases hplace'
      · next hne =>
        obtain ⟨step', hstep', htrace', hpending'⟩ := h.step _ _ hplace'
        refine ⟨step', mem_steps_filter hstep' (htrace' ▸ hne), htrace', ?_⟩
        exact hpending'.endSpan (hother hpending' hne) _
    · obtain ⟨hmem, hne⟩ := hgone step' hstep'
      obtain ⟨place', hplace', hpending'⟩ := h.known step' hmem
      refine ⟨place', ?_, hpending'.endSpan (hother hpending' hne) _⟩
      simp only [OrderedDict.get?_erase]
      rw [if_neg hne, hplace']
    · rcases settled_endSpan hpending hends hspan with hclosed | ⟨hold, hne⟩
      · exact .inl hclosed
      · refine (h.settled place' span hold).imp_right (Or.imp_right fun hstep' => ?_)
        simp only [OrderedDict.get?_erase]
        rw [if_neg]
        · exact hstep'
        · intro heq
          rw [heq, hplace] at hstep'
          exact hne (Option.some.inj hstep')
  · next hnone =>
    have hne : ∀ step ∈ brackets.steps, step.traceId ≠ traceId := by
      rintro step hstep rfl
      obtain ⟨place, hplace, -⟩ := h.known step hstep
      cases hnone.symm.trans hplace
    have hkept : ∀ {place other P}, exporter.Pending place other P →
        ((exporter.startSpan (stepSpan traceId flowName record.stepIndex record.toolName none)).endSpan
          exporter.spans.length (.step record)).Pending place other P :=
      fun hpending => (hpending.startSpan _).endSpan hpending.lt.ne' _
    refine ⟨fun other place hplace => ?_, fun other place hplace => ?_, fun step hstep => ?_,
    fun place span hspan => ?_⟩
    · obtain ⟨hmem, hpending⟩ := h.flow _ _ hplace
      exact ⟨hmem, hkept hpending⟩
    · obtain ⟨step, hstep, htrace, hpending⟩ := h.step _ _ hplace
      exact ⟨step, mem_steps_filter hstep (hne step hstep), htrace, hkept hpending⟩
    · obtain ⟨hmem, -⟩ := hgone step hstep
      obtain ⟨place, hplace, hpending⟩ := h.known step hmem
      exact ⟨place, hplace, hkept hpending⟩
    · have hends : ∀ span : Span, IsStep ⟨traceId, record.stepIndex, record.toolName⟩ span.subject →
          span.EndsWith (.step record) := fun _ hstep => hstep
      rcases settled_endSpan (pending_startSpan rfl ⟨_, _, rfl⟩) hends hspan with hclosed | ⟨hstarted, hother⟩
      · exact .inl hclosed
      · rcases getElem?_startSpan hstarted with hold | ⟨rfl, -⟩
        · exact h.settled place span hold
        · exact absurd rfl hother

theorem Tracks.onHook (h : exporter.Tracks brackets) (hfits : brackets.Fits hook) (hturn : brackets.InTurn hook) :
    (exporter.onHook hook).Tracks (brackets.next hook) := by
  cases hook with
  | flowStart => exact h.onFlowStart hfits
  | stepStart => exact h.onStepStart hturn
  | stepChunk => exact h
  | stepEnd => exact h.onStepEnd hfits hturn
  | flowEnd => exact h.onFlowEnd

/-- Where nothing is open every span has ended as it should. -/
theorem Tracks.paired (h : exporter.Tracks {}) : exporter.Paired := by
  have hflows : ∀ traceId, exporter.flowSpans.get? traceId = none := by
    intro traceId
    by_contra hsome
    obtain ⟨place, hplace⟩ := Option.ne_none_iff_exists'.1 hsome
    exact List.not_mem_nil (h.flow _ _ hplace).1
  have hsteps : ∀ traceId, exporter.stepSpans.get? traceId = none := by
    intro traceId
    by_contra hsome
    obtain ⟨place, hplace⟩ := Option.ne_none_iff_exists'.1 hsome
    obtain ⟨step, hstep, -⟩ := h.step _ _ hplace
    exact List.not_mem_nil hstep
  refine ⟨fun span hspan => ?_, hflows, hsteps⟩
  obtain ⟨place, hplace⟩ := List.getElem?_of_mem hspan
  rcases h.settled place span hplace with hclosed | hflow | hstep
  · exact hclosed
  · cases (hflows _).symm.trans hflow
  · cases (hsteps _).symm.trans hstep

-- Calls out of turn

/-- A span that has not ended is no longer kept. -/
def Lost (exporter : OTelTraceExporter) (place : Nat) : Prop :=
  (∃ span, exporter.spans[place]? = some span ∧ span.endings = []) ∧
    (∀ traceId, exporter.flowSpans.get? traceId ≠ some place) ∧
      ∀ traceId, exporter.stepSpans.get? traceId ≠ some place

/-- A span has ended with something that it does not cover. -/
def Mismatched (exporter : OTelTraceExporter) (place : Nat) : Prop :=
  ∃ span ending, exporter.spans[place]? = some span ∧ ending ∈ span.endings ∧ ¬span.EndsWith ending

/-- There is a span that will not have ended as it should. -/
def Spoilt (exporter : OTelTraceExporter) : Prop := ∃ place, exporter.Lost place ∨ exporter.Mismatched place

theorem Spoilt.not_paired (h : exporter.Spoilt) : ¬exporter.Paired := by
  intro hpaired
  obtain ⟨place, ⟨⟨span, hspan, hopen⟩, -⟩ | ⟨span, wrong, hspan, hmem, hwrong⟩⟩ := h
  · obtain ⟨ending, hending, -⟩ := hpaired.closed span (List.mem_of_getElem? hspan)
    rw [hopen] at hending
    cases hending
  · obtain ⟨ending, hending, hends⟩ := hpaired.closed span (List.mem_of_getElem? hspan)
    rw [hending, List.mem_singleton] at hmem
    exact hwrong (hmem ▸ hends)

theorem spans_startSpan (hspan : exporter.spans[place]? = some span) (started : Span) :
    (exporter.startSpan started).spans[place]? = some span := by
  rw [startSpan, List.getElem?_append_left (List.getElem?_eq_some_iff.1 hspan).1]
  exact hspan

theorem Lost.onHook (h : exporter.Lost place) (hook : Hook) : (exporter.onHook hook).Lost place := by
  obtain ⟨⟨span, hspan, hopen⟩, hflows, hsteps⟩ := h
  have hlt : exporter.spans.length ≠ place := (List.getElem?_eq_some_iff.1 hspan).1.ne'
  cases hook with
  | flowStart =>
    refine ⟨⟨span, spans_startSpan hspan _, hopen⟩, fun traceId => ?_, hsteps⟩
    simp only [OTelTraceExporter.onHook, onFlowStart, OrderedDict.get?_insert]
    split
    · simpa using hlt
    · exact hflows traceId
  | stepStart =>
    refine ⟨⟨span, spans_startSpan hspan _, hopen⟩, hflows, fun traceId => ?_⟩
    simp only [OTelTraceExporter.onHook, onStepStart, OrderedDict.get?_insert]
    split
    · simpa using hlt
    · exact hsteps traceId
  | stepChunk => exact ⟨⟨span, hspan, hopen⟩, hflows, hsteps⟩
  | stepEnd traceId flowName record =>
    unfold OTelTraceExporter.onHook onStepEnd
    dsimp only
    split
    · next other hother =>
      have hne : other ≠ place := by
        rintro rfl
        exact hsteps _ hother
      refine ⟨⟨span, ?_, hopen⟩, hflows, fun traceId' => ?_⟩
      · exact (getElem?_endSpan ..).trans ((if_neg hne).trans hspan)
      · simp only [OrderedDict.get?_erase]
        split
        · simp
        · exact hsteps traceId'
    · refine ⟨⟨span, ?_, hopen⟩, hflows, hsteps⟩
      rw [getElem?_endSpan, if_neg hlt, spans_startSpan hspan]
  | flowEnd traceId flowName result =>
    unfold OTelTraceExporter.onHook onFlowEnd
    dsimp only
    split
    · next other hother =>
      have hne : other ≠ place := by
        rintro rfl
        exact hflows _ hother
      refine ⟨⟨span, ?_, hopen⟩, fun traceId' => ?_, hsteps⟩
      · exact (getElem?_endSpan ..).trans ((if_neg hne).trans hspan)
      · simp only [OrderedDict.get?_erase]
        split
        · simp
        · exact hflows traceId'
    · exact ⟨⟨span, hspan, hopen⟩, hflows, hsteps⟩

theorem Mismatched.startSpan (h : exporter.Mismatched place) (started : Span) :
    (exporter.startSpan started).Mismatched place := by
  obtain ⟨span, ending, hspan, hrest⟩ := h
  exact ⟨span, ending, spans_startSpan hspan _, hrest⟩

theorem Mismatched.endSpan (h : exporter.Mismatched place) (other : Nat) (last : SpanEnding) :
    (exporter.endSpan other last).Mismatched place := by
  obtain ⟨span, ending, hspan, hmem, hwrong⟩ := h
  by_cases heq : other = place
  · refine ⟨{ span with endings := span.endings ++ [last] }, ending, ?_, List.mem_append_left _ hmem, hwrong⟩
    rw [getElem?_endSpan, if_pos heq, hspan]
    rfl
  · exact ⟨span, ending, by rw [getElem?_endSpan, if_neg heq, hspan], hmem, hwrong⟩

theorem Mismatched.onHook (h : exporter.Mismatched place) (hook : Hook) :
    (exporter.onHook hook).Mismatched place := by
  cases hook with
  | flowStart => exact h.startSpan _
  | stepStart => exact h.startSpan _
  | stepChunk => exact h
  | stepEnd =>
    unfold OTelTraceExporter.onHook onStepEnd
    dsimp only
    split
    · exact h.endSpan _ _
    · exact (h.startSpan _).endSpan _ _
  | flowEnd =>
    unfold OTelTraceExporter.onHook onFlowEnd
    dsimp only
    split
    · exact h.endSpan _ _
    · exact h

theorem Spoilt.onHook (h : exporter.Spoilt) (hook : Hook) : (exporter.onHook hook).Spoilt := by
  obtain ⟨place, hlost | hwrong⟩ := h
  · exact ⟨place, .inl (hlost.onHook hook)⟩
  · exact ⟨place, .inr (hwrong.onHook hook)⟩

/-- A call out of turn loses the span of the other step, or ends it with a record that is
not its own. -/
theorem Tracks.spoilt (h : exporter.Tracks brackets) (hturn : ¬brackets.InTurn hook) :
    (exporter.onHook hook).Spoilt := by
  cases hook with
  | flowStart => exact absurd trivial hturn
  | stepChunk => exact absurd trivial hturn
  | flowEnd => exact absurd trivial hturn
  | stepStart traceId flowName stepIndex toolName inputs =>
    obtain ⟨step, hstep, hsame⟩ : ∃ step ∈ brackets.steps, step.traceId = traceId := by
      simpa [Brackets.InTurn] using hturn
    obtain ⟨place, hplace, hpending⟩ := h.known step hstep
    refine ⟨place, .inl ⟨?_, fun other hother => ?_, fun other hother => ?_⟩⟩
    · obtain ⟨span, hspan, hopen, -⟩ := hpending.startSpan
        (stepSpan traceId flowName stepIndex toolName (some (inputs.keys.mergeSort (· ≤ ·))))
      exact ⟨span, hspan, hopen⟩
    · exact (h.flow _ _ hother).2.not_both hpending
    · simp only [OTelTraceExporter.onHook, OTelTraceExporter.onStepStart, OrderedDict.get?_insert] at hother
      split at hother
      · exact hpending.lt.ne' (Option.some.inj hother)
      · next hne =>
        obtain ⟨_, _, _, hpending'⟩ := h.step _ _ hother
        exact hne ((hpending'.trace_unique hpending).trans hsame)
  | stepEnd traceId flowName record =>
    obtain ⟨step, hstep, rfl, hindex⟩ : ∃ step ∈ brackets.steps, step.traceId = traceId ∧
        step.stepIndex ≠ record.stepIndex := by
      simpa [Brackets.InTurn] using hturn
    obtain ⟨place, hplace, span, hspan, -, -, flowName', inputKeys, hsubject⟩ := h.known step hstep
    refine ⟨place, .inr
      ⟨{ span with endings := span.endings ++ [.step record] }, .step record, ?_, by simp, ?_⟩⟩
    · simp only [OTelTraceExporter.onHook, OTelTraceExporter.onStepEnd, hplace]
      exact (getElem?_endSpan ..).trans ((if_pos rfl).trans (by rw [hspan]; rfl))
    · rintro ⟨_, _, hends⟩
      exact hindex (SpanSubject.step.inj (hsubject.symm.trans hends)).2.1

theorem spoilt_stateFrom (h : exporter.Spoilt) : Spoilt (machine.stateFrom exporter hooks) := by
  have hkeeps : ∀ state hook, Spoilt state → True → Spoilt (machine.step state hook).2 :=
    fun _ hook h _ => h.onHook hook
  exact Machine.stateFrom_keeps hkeeps h fun _ _ => trivial

theorem paired_stateFrom_iff (h : exporter.Tracks brackets)
    (hfits : Brackets.machine.Admitted Brackets.Fits brackets hooks)
    (hclosed : Brackets.machine.stateFrom brackets hooks = {}) :
    Paired (machine.stateFrom exporter hooks) ↔ Brackets.machine.Admitted Brackets.InTurn brackets hooks := by
  induction hooks generalizing exporter brackets with
  | nil =>
    obtain rfl : brackets = {} := hclosed
    exact iff_of_true h.paired trivial
  | cons hook rest ih =>
    by_cases hturn : brackets.InTurn hook
    · exact (ih (h.onHook hfits.1 hturn) hfits.2 hclosed).trans ⟨fun hrest => ⟨hturn, hrest⟩, And.right⟩
    · exact iff_of_false (spoilt_stateFrom (h.spoilt hturn)).not_paired fun hadmitted => hturn hadmitted.1

/-- The spans of hook calls that are bracketed pair up exactly if no step of a trace is
open while another one starts or ends. -/
theorem paired_iff_oneAtATime (h : Bracketed hooks) : Paired (machine.after hooks) ↔ OneAtATime hooks :=
  paired_stateFrom_iff tracks_start h.1 h.2

-- A level of two steps

/-- The calls during a run, between those for the flow. -/
def duringFlow (calls : List Hook) : List Hook :=
  .flowStart "t" "f" "0.1.0" .empty 2 :: calls ++
    [.flowEnd "t" "f"
      { flowName := "f", flowVersion := "0.1.0", success := true, finalOutput := none, traceId := "t" }]

def starts (stepIndex : Int) : Hook := .stepStart "t" "f" stepIndex "a" .empty

def ends (stepIndex : Int) : Hook := .stepEnd "t" "f" { stepIndex, toolName := "a", inputs := .empty }

theorem paired_iff_oneAtATime_chain :
    Paired (machine.after (duringFlow [starts 0, ends 0, starts 1, ends 1])) ↔
      OneAtATime (duringFlow [starts 0, ends 0, starts 1, ends 1]) := by
  refine paired_iff_oneAtATime ⟨?_, rfl⟩
  simp [duringFlow, starts, ends, Machine.Admitted, Brackets.machine, Brackets.Fits, Brackets.next]

/-- Two steps of a DAG level that run at the same time: the span of the first one is never
ended, and that of the second one ends with the record of the first one. -/
theorem level_unpaired :
    Bracketed (duringFlow [starts 0, starts 1, ends 0, ends 1]) ∧
      ¬Paired (machine.after (duringFlow [starts 0, starts 1, ends 0, ends 1])) := by
  refine ⟨⟨?_, rfl⟩, fun hpaired => ?_⟩
  · simp [duringFlow, starts, ends, Machine.Admitted, Brackets.machine, Brackets.Fits, Brackets.next]
  · obtain ⟨ending, hending, -⟩ := hpaired.closed
      (stepSpan "t" "f" 0 "a" (some ((OrderedDict.empty : Dict).keys.mergeSort (· ≤ ·))))
      (List.mem_of_getElem? (i := 1) rfl)
    cases hending

end OTelTraceExporter

end ChainWeaver
