import ChainWeaver.Passthrough

/-!
# Metrics

The two ways to the same instruments: `OTelMetricsMiddleware` records what the hooks of an executor tell,
and `export_result_to_otel_metrics` what stands in the log of a result.
-/

namespace ChainWeaver.Metrics

/-- The instruments of `_OTelMetrics`. -/
inductive Instrument
  | flowExecutions
  | flowDuration
  | stepExecutions
  | stepDuration
  | stepCache
  | stepRetries
  deriving DecidableEq

def Instrument.name : Instrument → String
  | .flowExecutions => "chainweaver.flow.executions"
  | .flowDuration => "chainweaver.flow.duration"
  | .stepExecutions => "chainweaver.step.executions"
  | .stepDuration => "chainweaver.step.duration"
  | .stepCache => "chainweaver.step.cache"
  | .stepRetries => "chainweaver.step.retries"

inductive Attribute
  | text (value : String)
  | flag (value : Bool)
  deriving DecidableEq

/-- What is added to a counter, or a duration for a histogram. -/
inductive Amount (δ : Type)
  | count (n : Nat)
  | ms (duration : δ)
  deriving DecidableEq

structure Recording (δ : Type) where
  instrument : Instrument
  amount : Amount δ
  attributes : List (String × Attribute)
  deriving DecidableEq

def flowMetricAttrs (flowName : String) (success : Bool) : List (String × Attribute) :=
  [("chainweaver.flow_name", .text flowName), ("chainweaver.success", .flag success)]

def stepMetricAttrs (flowName toolName : String) (success : Bool) : List (String × Attribute) :=
  [("chainweaver.flow_name", .text flowName), ("chainweaver.tool_name", .text toolName),
   ("chainweaver.success", .flag success)]

/-- `duration_ms` of a record, and `total_duration_ms` of a result. -/
structure Clock (δ : Type) where
  durationMs : StepRecord → δ
  totalDurationMs : ExecutionResult → δ

section

variable {δ : Type} (clock : Clock δ)

def recordStep (flowName : String) (record : StepRecord) : List (Recording δ) :=
  if record.skipped then []
  else
    let attrs := stepMetricAttrs flowName record.toolName record.success
    [⟨.stepExecutions, .count 1, attrs⟩, ⟨.stepDuration, .ms (clock.durationMs record), attrs⟩,
     ⟨.stepCache, .count 1,
      [("chainweaver.flow_name", .text flowName), ("chainweaver.tool_name", .text record.toolName),
       ("chainweaver.cache_hit", .flag record.cached)]⟩] ++
      if record.retryCount = 0 then []
      else
        [⟨.stepRetries, .count record.retryCount,
          [("chainweaver.flow_name", .text flowName), ("chainweaver.tool_name", .text record.toolName)]⟩]

/-- `record_flow` with the fields of a result. -/
def recordFlow (result : ExecutionResult) : List (Recording δ) :=
  [⟨.flowExecutions, .count 1, flowMetricAttrs result.flowName result.success⟩,
   ⟨.flowDuration, .ms (clock.totalDurationMs result), [("chainweaver.flow_name", .text result.flowName)]⟩]

/-- The hooks of `OTelMetricsMiddleware`. -/
def onHook : Hook → List (Recording δ)
  | .stepEnd _ flowName record => recordStep clock flowName record
  | .flowEnd _ _ result => recordFlow clock result
  | _ => []

/-- What the middleware records during a run. -/
def recorded (events : List Event) : List (Recording δ) := (Executor.hooksOf events).flatMap (onHook clock)

def exportResultToOtelMetrics (result : ExecutionResult) : List (Recording δ) :=
  result.executionLog.flatMap (recordStep clock result.flowName) ++ recordFlow clock result

end

end ChainWeaver.Metrics
