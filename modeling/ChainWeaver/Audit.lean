import ChainWeaver.Server

/-!
# The audited gate

`_RequestGate` with its audit events, in front of hooks that may return and raise
anything.
-/

namespace ChainWeaver.Server

-- What hooks do

/-- The error classes of the gates, as `isinstance` sees them. -/
inductive ErrorClass
  | authentication | rateLimit | authorization | other
  deriving DecidableEq

/-- What the gate does with a value that it does not know: test it, and put it into a
field of type `str | None`. -/
structure Attribute where
  truth : Except Exc Bool
  text : Except Exc (Option String)

/-- An exception. `reasonCode` is what reading `exc.reason_code` gives. -/
structure Raised where
  exc : Exc
  errorClass : ErrorClass := .other
  reasonCode : Except Exc Attribute

/-- An object, by its truth value, its attributes, and the `CallerIdentity` that the
validation of a context makes of it. -/
structure Object where
  truth : Except Exc Bool
  getattr : String → Except Exc Attribute
  identity : Except Exc CallerIdentity

inductive HookValue
  | none
  | bool (value : Bool)
  | object (value : Object)

def textAttribute (text : Option String) : Attribute where
  truth := .ok (text.any (· ≠ ""))
  text := .ok text

def attributeError (typeName name : String) : Exc :=
  .other "AttributeError" s!"'{typeName}' object has no attribute '{name}'"

namespace HookValue

def truth : HookValue → Except Exc Bool
  | .none => .ok false
  | .bool value => .ok value
  | .object value => value.truth

def getattr (name : String) : HookValue → Except Exc Attribute
  | .none => .error (attributeError "NoneType" name)
  | .bool _ => .error (attributeError "bool" name)
  | .object value => value.getattr name

/-- The value as an optional caller of a context. -/
def identity : HookValue → Except Exc (Option CallerIdentity)
  | .none => .ok Option.none
  | .bool _ => .error (.validation "Input should be a valid dictionary or instance of CallerIdentity")
  | .object value => value.identity.map some

end HookValue

/-- An exception of the gate itself, or one that escapes from it. -/
def Raised.ofExc (exc : Exc) : Raised := { exc, reasonCode := .error (attributeError exc.typeName "reason_code") }

def refusal (errorClass : ErrorClass) (exc : Exc) (reasonCode : String) : Raised :=
  { exc, errorClass, reasonCode := .ok (textAttribute (some reasonCode)) }

-- Audit events

inductive Action
  | authenticate | rateLimit | authorize
  deriving DecidableEq

inductive Decision
  | allow | deny
  deriving DecidableEq

structure AuditEvent where
  action : Action
  decision : Decision
  flowName : String
  mcpToolName : String
  requestId : String
  callerId : Option String := none
  reasonCode : Option String := none
  detail : Option String := none

/-- `_RequestGate` with its audit hook. -/
structure AuditedGate where
  authenticator : Option (MCPRequestContext → Except Raised HookValue) := none
  rateLimiter : Option (HookValue → String → Except Raised HookValue) := none
  authorizer : Option (AuthorizationContext → Except Raised HookValue) := none
  auditHook : Option (AuditEvent → Except Raised Unit) := none
  /-- `str.lower`, as the default redaction of the input summary uses it. -/
  lower : String → String := id

/-- A gate's code: it emits events, and may raise. -/
structure Gated (α : Type) where
  events : List AuditEvent
  result : Except Raised α

instance : Monad Gated where
  pure value := ⟨[], .ok value⟩
  bind first rest :=
    match first.result with
    | .ok value => ⟨first.events ++ (rest value).events, (rest value).result⟩
    | .error raised => ⟨first.events, .error raised⟩

instance : MonadExceptOf Raised Gated where
  throw raised := ⟨[], .error raised⟩
  tryCatch body handler :=
    match body.result with
    | .ok _ => body
    | .error raised => ⟨body.events ++ (handler raised).events, (handler raised).result⟩

namespace AuditedGate

variable (gate : AuditedGate) (served : Served) (request : Request)

/-- What the audit hook raises is swallowed. -/
def deliver (event : AuditEvent) : Gated Unit where
  events := [event]
  result :=
    match gate.auditHook with
    | none => .ok ()
    | some hook =>
      match hook event with
      | .ok () => .ok ()
      | .error _ => .ok ()

/-- A value that is evaluated before it is used, or validated. -/
def orEscape : Except Exc α → Gated α
  | .ok value => pure value
  | .error exc => throw (.ofExc exc)

/-- A field of an event: what comes from a hook is validated. -/
def field : Option Attribute → Gated (Option String)
  | none => pure none
  | some value => orEscape value.text

/-- `_emit`. -/
def emit (action : Action) (decision : Decision) (callerId reasonCode detail : Option Attribute) : Gated Unit := do
  let callerId ← field callerId
  let reasonCode ← field reasonCode
  let detail ← field detail
  gate.deliver
    { action, decision, flowName := served.flowName, mcpToolName := served.mcpName, requestId := request.requestId,
      callerId, reasonCode, detail }

def text (value : String) : Option Attribute := some (textAttribute (some value))

def authenticate : Gated HookValue := do
  match gate.authenticator with
  | none => pure .none
  | some authenticator =>
    let ctx : MCPRequestContext :=
      { flowName := served.flowName, flowVersion := served.flowVersion, mcpToolName := served.mcpName,
        httpHeaders := request.httpHeaders, requestId := request.requestId }
    let refused := refusal .authentication (authenticationError served.flowName) "unauthenticated"
    match authenticator ctx with
    | .error raised =>
      if raised.errorClass = .authentication then
        let reasonCode ← orEscape raised.reasonCode
        gate.emit served request .authenticate .deny none (some reasonCode) none
        throw raised
      else
        gate.emit served request .authenticate .deny none (text "unauthenticated")
          (text s!"authenticator raised: {raised.exc.typeName}")
        throw refused
    | .ok .none =>
      gate.emit served request .authenticate .deny none (text "unauthenticated") none
      throw refused
    | .ok caller =>
      let callerId ← orEscape (caller.getattr "id")
      gate.emit served request .authenticate .allow (some callerId) none none
      pure caller

/-- `caller.id if caller is not None else None`. -/
def callerId : HookValue → Gated (Option Attribute)
  | .none => pure none
  | caller => do pure (some (← orEscape (caller.getattr "id")))

def rateLimit (caller : HookValue) : Gated Unit := do
  match gate.rateLimiter with
  | none => pure ()
  | some acquire =>
    let callerId ← callerId caller
    match acquire caller served.flowName with
    | .error raised => throw raised
    | .ok answer =>
      if ← orEscape answer.truth then gate.emit served request .rateLimit .allow callerId none none
      else
        gate.emit served request .rateLimit .deny callerId (text "rate_limited") none
        throw (refusal .rateLimit (rateLimitError served.flowName) "rate_limited")

def authorize (caller : HookValue) (rawInputs : Dict) : Gated Unit := do
  match gate.authorizer with
  | none => pure ()
  | some authorizer =>
    let callerId ← callerId caller
    let identity ← orEscape caller.identity
    let ctx : AuthorizationContext :=
      { requestId := request.requestId, flowName := served.flowName, flowVersion := served.flowVersion,
        mcpToolName := served.mcpName, caller := identity, inputSummary := summaryRedaction.redact gate.lower rawInputs,
        safety := served.safety }
    let forbidden (reasonCode : String) :=
      refusal .authorization (authorizationError served.flowName reasonCode) reasonCode
    match authorizer ctx with
    | .error raised =>
      if raised.errorClass = .authorization then
        let reasonCode ← orEscape raised.reasonCode
        gate.emit served request .authorize .deny callerId (some reasonCode) none
        throw raised
      else
        gate.emit served request .authorize .deny callerId (text "forbidden")
          (text s!"authorizer raised: {raised.exc.typeName}")
        throw (forbidden "forbidden")
    | .ok (.bool true) => gate.emit served request .authorize .allow callerId none none
    | .ok (.bool false) =>
      gate.emit served request .authorize .deny callerId (text "forbidden") none
      throw (forbidden "forbidden")
    | .ok decision =>
      let allowed ← orEscape (decision.getattr "allowed")
      if ← orEscape allowed.truth then gate.emit served request .authorize .allow callerId none none
      else
        let reasonCode ← orEscape (decision.getattr "reason_code")
        let detail ← orEscape (decision.getattr "detail")
        gate.emit served request .authorize .deny callerId (some reasonCode) (some detail)
        throw (forbidden ((← orEscape reasonCode.text).getD "None"))

def check (rawInputs : Dict) : Gated Unit := do
  let caller ← gate.authenticate served request
  gate.rateLimit served request caller
  gate.authorize served request caller rawInputs

end AuditedGate

end ChainWeaver.Server
