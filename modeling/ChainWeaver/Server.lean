import ChainWeaver.Entry
import ChainWeaver.Redaction

/-!
# Serving flows

The trust boundary of `mcp/security.py` and the dispatcher of `mcp/server.py`: the
gate in front of a flow, its run, and what a client is told of its failure.
-/

namespace ChainWeaver.Server

-- Error texts

inductive ErrorDetail
  | full | typeOnly | generic
  deriving DecidableEq

def genericErrorMessage : String := "The flow failed; contact the server operator for details."

def renderErrorDetail (errorType errorMessage : Option String) (mode : ErrorDetail)
    (redaction : Option RedactionPolicy) : String :=
  let etype := (errorType.filter (· ≠ "")).getD "FlowExecutionError"
  match mode with
  | .generic => genericErrorMessage
  | .typeOnly => etype
  | .full =>
    let message := errorMessage.getD ""
    let message := (redaction.map (·.redactText message)).getD message
    if message = "" then etype else s!"{etype}: {message}"

-- The gate

structure CallerIdentity where
  id : String
  scopes : List String := []
  metadata : Dict := .empty

structure MCPRequestContext where
  flowName : String
  flowVersion : String
  mcpToolName : String
  httpHeaders : OrderedDict String
  requestId : String

structure AuthorizationContext where
  requestId : String
  flowName : String
  flowVersion : String
  mcpToolName : String
  caller : Option CallerIdentity
  inputSummary : Dict
  safety : Option ToolSafetyContract

/-- Without the detail, which only the audit hook is shown. -/
structure AuthorizationDecision where
  allowed : Bool
  reasonCode : String := "forbidden"

/-- The hooks of a `_RequestGate`. They may keep a state of their own; every request
has an id of its own, and what a hook answers may depend on it. -/
structure RequestGate where
  authenticator : Option (MCPRequestContext → Except Exc (Option CallerIdentity)) := none
  rateLimiter : Option (String → Option CallerIdentity → String → Except Exc Bool) := none
  authorizer : Option (AuthorizationContext → Except Exc AuthorizationDecision) := none
  errorDetail : ErrorDetail := .full
  errorRedaction : Option RedactionPolicy := none
  /-- `str.lower`, as the default redaction of the input summary uses it. -/
  lower : String → String := id

/-- What `_register_flow` closes a dispatcher over. -/
structure Served where
  mcpName : String
  flowName : String
  flowVersion : String
  inputSchema : Schema
  outputSchema : Option Schema
  safety : Option ToolSafetyContract

structure Request where
  requestId : String
  httpHeaders : OrderedDict String

/-- The errors of the three gates, which are told apart by their class. -/
def authenticationError (flowName : String) : Exc :=
  .other "FlowAuthenticationError" s!"Authentication failed for flow '{flowName}': unauthenticated."

def rateLimitError (flowName : String) : Exc :=
  .other "RateLimitExceededError" s!"Rate limit exceeded for flow '{flowName}': rate_limited."

def authorizationError (flowName reasonCode : String) : Exc :=
  .other "FlowAuthorizationError" s!"Authorization denied for flow '{flowName}': {reasonCode}."

/-- `_DEFAULT_SUMMARY_REDACTION`. -/
def summaryRedaction : RedactionPolicy := { maxValueLength := some 200 }

namespace RequestGate

variable (gate : RequestGate) (served : Served) (request : Request)

def authenticate : Except Exc (Option CallerIdentity) :=
  match gate.authenticator with
  | none => .ok none
  | some authenticator =>
    let ctx : MCPRequestContext :=
      { flowName := served.flowName, flowVersion := served.flowVersion, mcpToolName := served.mcpName,
        httpHeaders := request.httpHeaders, requestId := request.requestId }
    match authenticator ctx with
    | .ok (some caller) => .ok (some caller)
    | .ok none => .error (authenticationError served.flowName)
    | .error e =>
      .error (if e.typeName = "FlowAuthenticationError" then e else authenticationError served.flowName)

def rateLimit (caller : Option CallerIdentity) : Except Exc Unit :=
  match gate.rateLimiter with
  | none => .ok ()
  | some acquire => do
    if ← acquire request.requestId caller served.flowName then pure ()
    else throw (rateLimitError served.flowName)

def authorize (caller : Option CallerIdentity) (rawInputs : Dict) : Except Exc Unit :=
  match gate.authorizer with
  | none => .ok ()
  | some authorizer =>
    let ctx : AuthorizationContext :=
      { requestId := request.requestId, flowName := served.flowName, flowVersion := served.flowVersion,
        mcpToolName := served.mcpName, caller, inputSummary := summaryRedaction.redact gate.lower rawInputs,
        safety := served.safety }
    match authorizer ctx with
    | .error e =>
      .error (if e.typeName = "FlowAuthorizationError" then e
        else authorizationError served.flowName "forbidden")
    | .ok decision =>
      if decision.allowed then .ok ()
      else .error (authorizationError served.flowName decision.reasonCode)

def check (rawInputs : Dict) : Except Exc Unit := do
  let caller ← gate.authenticate served request
  gate.rateLimit served request caller
  gate.authorize served request caller rawInputs

def renderError (errorType errorMessage : Option String) : String :=
  renderErrorDetail errorType errorMessage gate.errorDetail gate.errorRedaction

/-- What the client is told of a run that failed. -/
def failureDetail (result : ExecutionResult) : String :=
  match result.executionLog.getLast?.bind fun last => last.errorType.map (·, last.errorMessage) with
  | some (errorType, errorMessage) => gate.renderError (some errorType) errorMessage
  | none =>
    gate.renderError (some "FlowExecutionError") (some "flow execution failed without a recorded step error")

end RequestGate

-- The dispatcher

/-- The keyword arguments of the dispatcher's call of `execute_flow_async`. -/
def Served.call (served : Served) : Call := { version := some served.flowVersion }

/-- `_dispatcher`. -/
def dispatcher (executor : Executor) (gate : RequestGate) (stack : Nat) (served : Served) (request : Request)
    (kwargs : Dict) : Exec Dict := do
  orRefuse (gate.check served request kwargs)
  let data ← orRefuse (executor.platform.modelValidate served.inputSchema (.dict kwargs.entries))
  let result ← executor.executeFlowAsync stack served.flowName data served.call
  if !result.success then
    throw (.flowExecution served.flowName flowInputStepIndex (gate.failureDetail result))
  else
    match served.outputSchema, result.finalOutput with
    | some schema, some output => ofExcept (executor.platform.modelValidate schema (.dict output.entries))
    | _, output => pure (output.getD .empty)

end ChainWeaver.Server
