import ChainWeaver.Audit

/-!
# Fail-closed and audited

A gate whose hooks answer as they promise lets a call pass only where all of them
allow it, and audits every refusal once. Anything else escapes without an event.
-/

namespace ChainWeaver.Server

@[simp] theorem Gated.pure_eq (value : α) : (pure value : Gated α) = ⟨[], .ok value⟩ := rfl

@[simp] theorem Gated.throw_eq (raised : Raised) : (throw raised : Gated α) = ⟨[], .error raised⟩ := rfl

@[simp] theorem Gated.bind_ok (events : List AuditEvent) (value : α) (rest : α → Gated β) :
    (⟨events, .ok value⟩ >>= rest : Gated β) = ⟨events ++ (rest value).events, (rest value).result⟩ := rfl

@[simp] theorem Gated.bind_error (events : List AuditEvent) (raised : Raised) (rest : α → Gated β) :
    (⟨events, .error raised⟩ >>= rest : Gated β) = ⟨events, .error raised⟩ := rfl

/-- What emits nothing and returns is passed over. -/
theorem Gated.bind_quiet (value : α) (rest : α → Gated β) : (⟨[], .ok value⟩ >>= rest : Gated β) = rest value := rfl

def AuditEvent.verdict (event : AuditEvent) : Action × Decision := (event.action, event.decision)

/-- The error with which a gate refuses. -/
def Action.errorClass : Action → ErrorClass
  | .authenticate => .authentication
  | .rateLimit => .rateLimit
  | .authorize => .authorization

/-- The gate lets the call pass, and says so. -/
def Allows (action : Action) (ran : Gated α) (value : α) : Prop :=
  ∃ event, ran = ⟨[event], .ok value⟩ ∧ event.verdict = (action, .allow)

/-- The gate refuses, and says so. -/
def Denies (action : Action) (ran : Gated α) : Prop :=
  ∃ event raised, ran = ⟨[event], .error raised⟩ ∧ event.verdict = (action, .deny) ∧
    raised.errorClass = action.errorClass

/-- An exception leaves the gate, and nothing is audited. -/
def Escapes (ran : Gated α) : Prop := ∃ raised, ran = ⟨[], .error raised⟩

/-- The value can be put into an event. -/
def Attribute.Readable (value : Attribute) : Prop := ∃ text, value.text = .ok text

def Readable (read : Except Exc Attribute) : Prop := ∃ value, read = .ok value ∧ value.Readable

namespace AuditedGate

variable {gate : AuditedGate} {served : Served} {request : Request} {rawInputs : Dict}

@[simp] theorem orEscape_ok (value : α) : orEscape (.ok value) = ⟨[], .ok value⟩ := rfl

@[simp] theorem orEscape_error (exc : Exc) : (orEscape (.error exc) : Gated α) = ⟨[], .error (.ofExc exc)⟩ := rfl

theorem deliver_eq (event : AuditEvent) : gate.deliver event = ⟨[event], .ok ()⟩ := by
  unfold deliver
  congr 1
  split
  · rfl
  · split <;> rfl

theorem field_cases (value : Option Attribute) :
    (∃ text, field value = ⟨[], .ok text⟩ ∧ ∀ read ∈ value, read.Readable) ∨
      Escapes (field value) ∧ ∃ read ∈ value, ¬read.Readable := by
  cases value with
  | none => exact .inl ⟨none, rfl, by simp⟩
  | some read =>
    cases hread : read.text with
    | ok text => exact .inl ⟨text, by simp [field, hread], by simpa using ⟨text, hread⟩⟩
    | error exc =>
      refine .inr ⟨⟨.ofExc exc, by simp [field, hread]⟩, read, rfl, fun ⟨text, htext⟩ => ?_⟩
      rw [hread] at htext
      cases htext

def AllReadable (callerId reasonCode detail : Option Attribute) : Prop :=
  ∀ read, read ∈ callerId ∨ read ∈ reasonCode ∨ read ∈ detail → read.Readable

/-- An event is delivered if all its fields are valid, and none is built otherwise. -/
theorem emit_cases (gate : AuditedGate) (served : Served) (request : Request) (action : Action) (decision : Decision)
    (callerId reasonCode detail : Option Attribute) :
    (∃ event, gate.emit served request action decision callerId reasonCode detail = ⟨[event], .ok ()⟩ ∧
      event.verdict = (action, decision) ∧ AllReadable callerId reasonCode detail) ∨
    Escapes (gate.emit served request action decision callerId reasonCode detail) ∧
      ¬AllReadable callerId reasonCode detail := by
  unfold emit
  rcases field_cases callerId with ⟨id, hid, hreadId⟩ | ⟨⟨raised, hid⟩, read, hread, hbad⟩
  · rcases field_cases reasonCode with ⟨reason, hreason, hreadReason⟩ | ⟨⟨raised, hreason⟩, read, hread, hbad⟩
    · rcases field_cases detail with ⟨text, hdetail, hreadDetail⟩ | ⟨⟨raised, hdetail⟩, read, hread, hbad⟩
      · let event : AuditEvent :=
          { action, decision, flowName := served.flowName, mcpToolName := served.mcpName,
            requestId := request.requestId, callerId := id, reasonCode := reason, detail := text }
        refine .inl ⟨event, by simp [hid, hreason, hdetail, deliver_eq, event], rfl, fun read hread => ?_⟩
        rcases hread with hread | hread | hread
        · exact hreadId read hread
        · exact hreadReason read hread
        · exact hreadDetail read hread
      · exact .inr ⟨⟨raised, by simp [hid, hreason, hdetail]⟩, fun hall => hbad (hall read (.inr (.inr hread)))⟩
    · exact .inr ⟨⟨raised, by simp [hid, hreason]⟩, fun hall => hbad (hall read (.inr (.inl hread)))⟩
  · exact .inr ⟨⟨raised, by simp [hid]⟩, fun hall => hbad (hall read (.inl hread))⟩

theorem text_readable (value : String) : ∀ read ∈ text value, read.Readable := by
  simp [text, textAttribute, Attribute.Readable]

/-- A refusal: an event and then the error. -/
theorem deny_cases (gate : AuditedGate) (served : Served) (request : Request) (action : Action)
    (callerId reasonCode detail : Option Attribute) (hclass : raised.errorClass = action.errorClass) :
    let ran : Gated α := do
      gate.emit served request action .deny callerId reasonCode detail
      throw raised
    Denies action ran ∧ AllReadable callerId reasonCode detail ∨
      Escapes ran ∧ ¬AllReadable callerId reasonCode detail := by
  rcases gate.emit_cases served request action .deny callerId reasonCode detail with
    ⟨event, hemit, hverdict, hall⟩ | ⟨⟨escaped, hemit⟩, hbad⟩
  · exact .inl ⟨⟨event, raised, by simp [hemit], hverdict, hclass⟩, hall⟩
  · exact .inr ⟨⟨escaped, by simp [hemit]⟩, hbad⟩

theorem allow_cases (gate : AuditedGate) (served : Served) (request : Request) (action : Action)
    (callerId : Option Attribute) (value : α) :
    let ran : Gated α := do
      gate.emit served request action .allow callerId none none
      pure value
    Allows action ran value ∧ AllReadable callerId none none ∨ Escapes ran ∧ ¬AllReadable callerId none none := by
  rcases gate.emit_cases served request action .allow callerId none none with
    ⟨event, hemit, hverdict, hall⟩ | ⟨⟨escaped, hemit⟩, hbad⟩
  · exact .inl ⟨⟨event, by simp [hemit], hverdict⟩, hall⟩
  · exact .inr ⟨⟨escaped, by simp [hemit]⟩, hbad⟩

/-- A value is read first: without it nothing is emitted. -/
theorem read_cases (read : Except Exc Attribute) (rest : Attribute → Gated α) :
    (∃ value, read = .ok value ∧ (orEscape read >>= rest) = rest value) ∨
      Escapes (orEscape read >>= rest) ∧ ∃ exc, read = .error exc := by
  cases read with
  | ok value => exact .inl ⟨value, rfl, by simp⟩
  | error exc => exact .inr ⟨⟨.ofExc exc, by simp⟩, exc, rfl⟩

theorem not_readable_error {exc : Exc} : ¬Readable (.error exc) := fun ⟨_, hvalue, _⟩ => by cases hvalue

theorem readable_iff {value : Attribute} : Readable (.ok value) ↔ value.Readable := by
  simp [Readable]

/-- With readable fields a refusal is a refusal. -/
theorem denies (gate : AuditedGate) (served : Served) (request : Request) {action : Action}
    {callerId reasonCode detail : Option Attribute} (hclass : raised.errorClass = action.errorClass)
    (hid : ∀ read ∈ callerId, read.Readable) (hreason : ∀ read ∈ reasonCode, read.Readable)
    (hdetail : ∀ read ∈ detail, read.Readable) :
    Denies action (do gate.emit served request action .deny callerId reasonCode detail; throw raised : Gated α) := by
  rcases gate.deny_cases (α := α) served request action callerId reasonCode detail hclass with
    ⟨hdenies, _⟩ | ⟨_, hbad⟩
  · exact hdenies
  · refine absurd (fun read hread => ?_) hbad
    rcases hread with hread | hread | hread
    · exact hid read hread
    · exact hreason read hread
    · exact hdetail read hread

theorem allows (gate : AuditedGate) (served : Served) (request : Request) {action : Action}
    {callerId : Option Attribute} (hid : ∀ read ∈ callerId, read.Readable) :
    Allows action (gate.emit served request action .allow callerId none none) () := by
  rcases gate.emit_cases served request action .allow callerId none none with ⟨event, hemit, hverdict, _⟩ | ⟨_, hbad⟩
  · exact ⟨event, hemit, hverdict⟩
  · exact absurd (fun read hread => hid read (by simpa using hread)) hbad

/-- A hook that raises: its own error is passed on if it has a reason code, any other
becomes one. -/
theorem raised_cases (gate : AuditedGate) (served : Served) (request : Request) {action : Action} (raised : Raised)
    {callerId : Option Attribute} (hid : ∀ read ∈ callerId, read.Readable)
    (hclass : refused.errorClass = action.errorClass) (reason detail : String) :
    let ran : Gated α :=
      if raised.errorClass = action.errorClass then do
        let reasonCode ← orEscape raised.reasonCode
        gate.emit served request action .deny callerId (some reasonCode) none
        throw raised
      else do
        gate.emit served request action .deny callerId (text reason) (text detail)
        throw refused
    Denies action ran ∧ (raised.errorClass = action.errorClass → Readable raised.reasonCode) ∨
      Escapes ran ∧ ¬(raised.errorClass = action.errorClass → Readable raised.reasonCode) := by
  dsimp only
  by_cases hown : raised.errorClass = action.errorClass
  · rw [if_pos hown]
    rcases read_cases raised.reasonCode _ with ⟨reason, hread, heq⟩ | ⟨hescapes, exc, hread⟩
    · rw [heq]
      rcases gate.deny_cases (α := α) served request action callerId (some reason) none hown with
        ⟨hdenies, hall⟩ | ⟨hescapes, hbad⟩
      · exact .inl ⟨hdenies, fun _ => ⟨reason, hread, hall reason (by simp)⟩⟩
      · refine .inr ⟨hescapes, fun hanswered => hbad fun read hmem => ?_⟩
        obtain ⟨value, hvalue, hreadable⟩ := hanswered hown
        rcases hmem with hmem | hmem | hmem
        · exact hid read hmem
        · cases hread.symm.trans hvalue
          exact Option.some.inj hmem ▸ hreadable
        · cases hmem
    · exact .inr ⟨hescapes, fun hanswered => not_readable_error (hread ▸ hanswered hown)⟩
  · rw [if_neg hown]
    exact .inl ⟨gate.denies served request hclass hid (text_readable _) (text_readable _), fun h => absurd h hown⟩

-- Authentication

def requestContext (served : Served) (request : Request) : MCPRequestContext :=
  { flowName := served.flowName, flowVersion := served.flowVersion, mcpToolName := served.mcpName,
    httpHeaders := request.httpHeaders, requestId := request.requestId }

/-- What the authenticator promises: no caller, or one with an id; an error of its own
class has a reason code. -/
def Answered : Except Raised HookValue → Prop
  | .error raised => raised.errorClass = .authentication → Readable raised.reasonCode
  | .ok .none => True
  | .ok caller => Readable (caller.getattr "id")

/-- The caller with whom the call goes on. -/
def Admits (gate : AuditedGate) (served : Served) (request : Request) (caller : HookValue) : Prop :=
  match gate.authenticator with
  | none => caller = .none
  | some authenticator => authenticator (requestContext served request) = .ok caller ∧ caller ≠ .none

theorem authenticate_none (h : gate.authenticator = none) : gate.authenticate served request = ⟨[], .ok .none⟩ := by
  simp [authenticate, h]

theorem authenticate_some (served : Served) (request : Request) {authenticator : MCPRequestContext → Except Raised HookValue}
    (h : gate.authenticator = some authenticator) :
    (∃ caller, Allows .authenticate (gate.authenticate served request) caller ∧
      authenticator (requestContext served request) = .ok caller ∧ caller ≠ .none ∧
      Answered (authenticator (requestContext served request))) ∨
    Denies .authenticate (gate.authenticate served request) ∧
      (∀ caller, authenticator (requestContext served request) = .ok caller → caller = .none) ∧
      Answered (authenticator (requestContext served request)) ∨
    Escapes (gate.authenticate served request) ∧ ¬Answered (authenticator (requestContext served request)) := by
  unfold authenticate
  rw [h]
  dsimp only
  rw [← requestContext]
  have hrefused : (refusal .authentication (authenticationError served.flowName) "unauthenticated").errorClass =
      Action.authenticate.errorClass := rfl
  cases hanswer : authenticator (requestContext served request) with
  | error raised =>
    have hno : ∀ read ∈ (none : Option Attribute), read.Readable := by simp
    rcases gate.raised_cases (α := HookValue) served request raised hno hrefused "unauthenticated"
      s!"authenticator raised: {raised.exc.typeName}" with ⟨hdenies, hread⟩ | ⟨hescapes, hread⟩
    · exact .inr (.inl ⟨hdenies, by simp, hread⟩)
    · exact .inr (.inr ⟨hescapes, hread⟩)
  | ok caller =>
    cases caller with
    | none => exact .inr (.inl ⟨gate.denies served request hrefused (by simp) (text_readable _) (by simp), by simp, trivial⟩)
    | bool value =>
      refine .inr (.inr ⟨⟨.ofExc _, rfl⟩, fun hanswered => ?_⟩)
      obtain ⟨_, hread, _⟩ := hanswered
      cases hread
    | object caller =>
      dsimp only
      rcases read_cases ((HookValue.object caller).getattr "id") _ with ⟨id, hread, heq⟩ | ⟨hescapes, exc, hread⟩
      · rw [heq]
        rcases gate.allow_cases served request .authenticate (some id) (HookValue.object caller) with
          ⟨hallows, hall⟩ | ⟨hescapes, hbad⟩
        · exact .inl ⟨_, hallows, rfl, by simp, id, hread, hall id (by simp)⟩
        · refine .inr (.inr ⟨hescapes, fun ⟨value, hvalue, hreadable⟩ => hbad fun read hmem => ?_⟩)
          simp_all
      · exact .inr (.inr ⟨hescapes, fun hanswered => not_readable_error (hread ▸ (show Readable _ from hanswered))⟩)

-- Rate limit

/-- The id of an admitted caller can be read. -/
def Known (caller : HookValue) : Prop := caller = .none ∨ Readable (caller.getattr "id")

theorem callerId_known (h : Known caller) :
    ∃ callerId, AuditedGate.callerId caller = ⟨[], .ok callerId⟩ ∧ ∀ read ∈ callerId, read.Readable := by
  rcases h with rfl | ⟨id, hread, hreadable⟩
  · exact ⟨none, rfl, by simp⟩
  · cases caller with
    | none => exact ⟨none, rfl, by simp⟩
    | bool value => cases hread
    | object caller => exact ⟨some id, by simp [AuditedGate.callerId, hread], by simpa using hreadable⟩

/-- The limiter answers, with something that is true or false. -/
def Acquired (answer : Except Raised HookValue) (passed : Bool) : Prop :=
  ∃ value, answer = .ok value ∧ value.truth = .ok passed

theorem rateLimit_none (h : gate.rateLimiter = none) (caller : HookValue) :
    gate.rateLimit served request caller = ⟨[], .ok ()⟩ := by
  simp [rateLimit, h]

theorem rateLimit_some (served : Served) (request : Request) {acquire : HookValue → String → Except Raised HookValue} (h : gate.rateLimiter = some acquire)
    (hcaller : Known caller) :
    Allows .rateLimit (gate.rateLimit served request caller) () ∧ Acquired (acquire caller served.flowName) true ∨
    Denies .rateLimit (gate.rateLimit served request caller) ∧ Acquired (acquire caller served.flowName) false ∨
    Escapes (gate.rateLimit served request caller) ∧ ∀ passed, ¬Acquired (acquire caller served.flowName) passed := by
  obtain ⟨callerId, hid, hreadable⟩ := callerId_known hcaller
  unfold rateLimit
  rw [h]
  dsimp only
  rw [hid, Gated.bind_quiet]
  cases hanswer : acquire caller served.flowName with
  | error raised => exact .inr (.inr ⟨⟨raised, rfl⟩, fun _ ⟨_, hvalue, _⟩ => by cases hvalue⟩)
  | ok answer =>
    dsimp only
    cases htruth : answer.truth with
    | error exc =>
      refine .inr (.inr ⟨⟨.ofExc exc, rfl⟩, fun passed ⟨value, hvalue, hpassed⟩ => ?_⟩)
      cases hvalue
      rw [htruth] at hpassed
      cases hpassed
    | ok passed =>
      rw [orEscape_ok, Gated.bind_quiet]
      cases passed with
      | true => exact .inl ⟨gate.allows served request hreadable, answer, rfl, htruth⟩
      | false =>
        exact .inr (.inl ⟨gate.denies served request rfl hreadable (text_readable _) (by simp), answer, rfl, htruth⟩)

-- Authorization

def authorizationContext (gate : AuditedGate) (served : Served) (request : Request) (caller : Option CallerIdentity)
    (rawInputs : Dict) : AuthorizationContext :=
  { requestId := request.requestId, flowName := served.flowName, flowVersion := served.flowVersion,
    mcpToolName := served.mcpName, caller, inputSummary := summaryRedaction.redact gate.lower rawInputs,
    safety := served.safety }

/-- What the `allowed` of a decision says. -/
def Decided (decision : HookValue) (allowed : Bool) : Prop :=
  ∃ read, decision.getattr "allowed" = .ok read ∧ read.truth = .ok allowed

/-- What the authorizer promises: a bool, a decision with `allowed` and, where it denies,
with a reason and a detail; an error of its own class has a reason code. -/
def Authorized (allowed : Bool) : Except Raised HookValue → Prop
  | .error raised => allowed = false ∧ (raised.errorClass = .authorization → Readable raised.reasonCode)
  | .ok (.bool value) => value = allowed
  | .ok decision => Decided decision allowed ∧
    (allowed = false → Readable (decision.getattr "reason_code") ∧ Readable (decision.getattr "detail"))

/-- A decision that denies is passed on if its reason and detail can be read. -/
theorem decision_denies (gate : AuditedGate) (served : Served) (request : Request) {callerId : Option Attribute}
    (hid : ∀ read ∈ callerId, read.Readable) (decision : HookValue) :
    let ran : Gated Unit := do
      let reasonCode ← orEscape (decision.getattr "reason_code")
      let detail ← orEscape (decision.getattr "detail")
      gate.emit served request .authorize .deny callerId (some reasonCode) (some detail)
      let reasonCode := (← orEscape reasonCode.text).getD "None"
      throw (refusal .authorization (authorizationError served.flowName reasonCode) reasonCode)
    Denies .authorize ran ∧ (Readable (decision.getattr "reason_code") ∧ Readable (decision.getattr "detail")) ∨
      Escapes ran ∧ ¬(Readable (decision.getattr "reason_code") ∧ Readable (decision.getattr "detail")) := by
  dsimp only
  rcases read_cases (decision.getattr "reason_code") _ with ⟨reason, hreason, heq⟩ | ⟨hescapes, exc, hreason⟩
  · rw [heq]
    rcases read_cases (decision.getattr "detail") _ with ⟨detail, hdetail, heq⟩ | ⟨hescapes, exc, hdetail⟩
    · rw [heq, hreason, hdetail]
      cases htext : reason.text with
      | error exc =>
        have hbad : ¬reason.Readable := fun ⟨_, hvalue⟩ => by cases htext.symm.trans hvalue
        refine .inr ⟨?_, fun hboth => hbad (readable_iff.1 hboth.1)⟩
        rcases gate.emit_cases served request .authorize .deny callerId (some reason) (some detail) with
          ⟨_, _, _, hall⟩ | ⟨⟨raised, hemit⟩, _⟩
        · exact absurd (hall reason (by simp)) hbad
        · exact ⟨raised, by simp [hemit]⟩
      | ok reasonCode =>
        simp only [orEscape_ok, Gated.bind_quiet]
        rcases gate.deny_cases (α := Unit) served request .authorize callerId (some reason) (some detail)
          (show (refusal .authorization _ _).errorClass = Action.authorize.errorClass from rfl) with ⟨hdenies, hall⟩ | ⟨hescapes, hbad⟩
        · exact .inl ⟨hdenies, ⟨reason, rfl, hall reason (by simp)⟩, detail, rfl, hall detail (by simp)⟩
        · refine .inr ⟨hescapes, fun ⟨hreason, hdetail⟩ => hbad fun read hmem => ?_⟩
          rcases hmem with hmem | hmem | hmem
          · exact hid read hmem
          · exact Option.some.inj hmem ▸ readable_iff.1 hreason
          · exact Option.some.inj hmem ▸ readable_iff.1 hdetail
    · exact .inr ⟨hescapes, fun hboth => not_readable_error (hdetail ▸ hboth.2)⟩
  · exact .inr ⟨hescapes, fun hboth => not_readable_error (hreason ▸ hboth.1)⟩

theorem authorize_none (h : gate.authorizer = none) (caller : HookValue) :
    gate.authorize served request caller rawInputs = ⟨[], .ok ()⟩ := by
  simp [authorize, h]

/-- The answer of the authorizer, for a caller that its context accepts. -/
def AuthorizedFor (authorizer : AuthorizationContext → Except Raised HookValue) (gate : AuditedGate) (served : Served)
    (request : Request) (rawInputs : Dict) (caller : HookValue) (allowed : Bool) : Prop :=
  ∃ identity, caller.identity = .ok identity ∧
    Authorized allowed (authorizer (gate.authorizationContext served request identity rawInputs))

theorem authorize_some (served : Served) (request : Request) (rawInputs : Dict)
    {authorizer : AuthorizationContext → Except Raised HookValue} (h : gate.authorizer = some authorizer)
    (hcaller : Known caller) :
    Allows .authorize (gate.authorize served request caller rawInputs) () ∧
      AuthorizedFor authorizer gate served request rawInputs caller true ∨
    Denies .authorize (gate.authorize served request caller rawInputs) ∧
      AuthorizedFor authorizer gate served request rawInputs caller false ∨
    Escapes (gate.authorize served request caller rawInputs) ∧
      ∀ allowed, ¬AuthorizedFor authorizer gate served request rawInputs caller allowed := by
  obtain ⟨callerId, hid, hreadable⟩ := callerId_known hcaller
  unfold authorize
  rw [h]
  dsimp only
  rw [hid, Gated.bind_quiet]
  cases hidentity : caller.identity with
  | error exc =>
    refine .inr (.inr ⟨⟨.ofExc exc, rfl⟩, fun allowed ⟨identity, hvalue, _⟩ => ?_⟩)
    rw [hidentity] at hvalue
    cases hvalue
  | ok identity =>
    rw [orEscape_ok, Gated.bind_quiet, ← authorizationContext]
    have hiff : ∀ allowed, AuthorizedFor authorizer gate served request rawInputs caller allowed ↔
        Authorized allowed (authorizer (gate.authorizationContext served request identity rawInputs)) := by
      simp [AuthorizedFor, hidentity]
    simp only [hiff]
    cases authorizer (gate.authorizationContext served request identity rawInputs) with
    | error raised =>
      rcases gate.raised_cases (α := Unit) served request raised hreadable
        (show (refusal .authorization (authorizationError served.flowName "forbidden") "forbidden").errorClass =
          Action.authorize.errorClass from rfl)
        "forbidden" s!"authorizer raised: {raised.exc.typeName}" with ⟨hdenies, hread⟩ | ⟨hescapes, hread⟩
      · exact .inr (.inl ⟨hdenies, rfl, hread⟩)
      · exact .inr (.inr ⟨hescapes, fun allowed hauthorized => hread hauthorized.2⟩)
    | ok decision =>
      cases decision with
      | none => exact .inr (.inr ⟨⟨.ofExc _, rfl⟩, fun allowed ⟨⟨_, hread, _⟩, _⟩ => by cases hread⟩)
      | bool value =>
        cases value with
        | true => exact .inl ⟨gate.allows served request hreadable, rfl⟩
        | false => exact .inr (.inl ⟨gate.denies served request rfl hreadable (text_readable _) (by simp), rfl⟩)
      | object decision =>
        dsimp only
        rcases read_cases ((HookValue.object decision).getattr "allowed") _ with
          ⟨allowed, hread, heq⟩ | ⟨hescapes, exc, hread⟩
        · rw [heq]
          cases htruth : allowed.truth with
          | error exc =>
            refine .inr (.inr ⟨⟨.ofExc exc, rfl⟩, fun passed ⟨⟨read, hvalue, hpassed⟩, _⟩ => ?_⟩)
            cases hread.symm.trans hvalue
            rw [htruth] at hpassed
            cases hpassed
          | ok passed =>
            rw [orEscape_ok, Gated.bind_quiet]
            have hdecided : Decided (.object decision) passed := ⟨allowed, hread, htruth⟩
            cases passed with
            | true => exact .inl ⟨gate.allows served request hreadable, hdecided, by simp⟩
            | false =>
              have hnot : ¬Decided (.object decision) true := fun ⟨read, hvalue, htrue⟩ => by
                cases hread.symm.trans hvalue
                rw [htruth] at htrue
                cases htrue
              rcases gate.decision_denies served request hreadable (.object decision) with ⟨hdenies, hboth⟩ | ⟨hescapes, hbad⟩
              · exact .inr (.inl ⟨hdenies, hdecided, fun _ => hboth⟩)
              · refine .inr (.inr ⟨hescapes, fun passed hauthorized => ?_⟩)
                cases passed with
                | true => exact hnot hauthorized.1
                | false => exact hbad (hauthorized.2 rfl)
        · exact .inr (.inr ⟨hescapes, fun passed ⟨⟨read, hvalue, _⟩, _⟩ => by cases hread.symm.trans hvalue⟩)

-- The whole gate

def actionOf (action : Action) (hook : Option α) : List Action := if hook.isSome then [action] else []

/-- The gates that are set up, in their order. -/
def configured (gate : AuditedGate) : List Action :=
  actionOf .authenticate gate.authenticator ++ actionOf .rateLimit gate.rateLimiter ++
    actionOf .authorize gate.authorizer

def LimiterPasses (gate : AuditedGate) (served : Served) (caller : HookValue) : Prop :=
  ∀ acquire ∈ gate.rateLimiter, Acquired (acquire caller served.flowName) true

/-- Every configured gate lets the call of this caller pass. -/
def LetsPass (gate : AuditedGate) (served : Served) (request : Request) (rawInputs : Dict) (caller : HookValue) : Prop :=
  gate.Admits served request caller ∧ gate.LimiterPasses served caller ∧
    ∀ authorizer ∈ gate.authorizer, AuthorizedFor authorizer gate served request rawInputs caller true

/-- The call passes only if every gate allows it, and every refusal is a typed error
after one deny event, behind the allow events of the gates before. -/
structure FailClosed (gate : AuditedGate) (served : Served) (request : Request) (rawInputs : Dict) : Prop where
  passes : (gate.check served request rawInputs).result = .ok () →
    (∃ caller, gate.LetsPass served request rawInputs caller) ∧
      (gate.check served request rawInputs).events.map (·.verdict) = gate.configured.map (·, .allow)
  refuses : ∀ raised, (gate.check served request rawInputs).result = .error raised →
    ∃ before action after, gate.configured = before ++ action :: after ∧
      (gate.check served request rawInputs).events.map (·.verdict) = before.map (·, .allow) ++ [(action, .deny)] ∧
      raised.errorClass = action.errorClass

/-- The hooks answer as they promise, as far as they are asked. -/
def Behaved (gate : AuditedGate) (served : Served) (request : Request) (rawInputs : Dict) : Prop :=
  (∀ authenticator ∈ gate.authenticator, Answered (authenticator (requestContext served request))) ∧
    ∀ caller, gate.Admits served request caller →
      (∀ acquire ∈ gate.rateLimiter, ∃ passed, Acquired (acquire caller served.flowName) passed) ∧
        (gate.LimiterPasses served caller → ∀ authorizer ∈ gate.authorizer, ∃ allowed,
          AuthorizedFor authorizer gate served request rawInputs caller allowed)

/-- What a gate emits where it lets the call pass. -/
def Passes (action : Action) (hook : Option α) (ran : Gated β) (value : β) : Prop :=
  ∃ events, ran = ⟨events, .ok value⟩ ∧ events.map (·.verdict) = (actionOf action hook).map (·, Decision.allow)

theorem Allows.passes (h : Allows action ran value) (hook : α) : Passes action (some hook) ran value := by
  obtain ⟨event, hran, hverdict⟩ := h
  exact ⟨[event], hran, by simp [actionOf, hverdict]⟩

theorem Admits.unique (h : gate.Admits served request caller) (h' : gate.Admits served request other) : caller = other := by
  unfold Admits at h h'
  cases hauth : gate.authenticator with
  | none =>
    rw [hauth] at h h'
    exact h.trans h'.symm
  | some authenticator =>
    rw [hauth] at h h'
    exact Except.ok.inj (h.1.symm.trans h'.1)

theorem authenticate_cases (gate : AuditedGate) (served : Served) (request : Request) :
    (∃ caller, Passes .authenticate gate.authenticator (gate.authenticate served request) caller ∧
      gate.Admits served request caller ∧ Known caller ∧
      ∀ authenticator ∈ gate.authenticator, Answered (authenticator (requestContext served request))) ∨
    gate.authenticator.isSome ∧ Denies .authenticate (gate.authenticate served request) ∧
      (∀ caller, ¬gate.Admits served request caller) ∧
      (∀ authenticator ∈ gate.authenticator, Answered (authenticator (requestContext served request))) ∨
    Escapes (gate.authenticate served request) ∧
      ¬∀ authenticator ∈ gate.authenticator, Answered (authenticator (requestContext served request)) := by
  cases hauth : gate.authenticator with
  | none => exact .inl ⟨.none, ⟨[], authenticate_none hauth, rfl⟩, by simp [Admits, hauth], .inl rfl, by simp⟩
  | some authenticator =>
    rcases authenticate_some served request hauth with
      ⟨caller, hallows, hanswer, hne, hanswered⟩ | ⟨hdenies, hnone, hanswered⟩ | ⟨hescapes, hanswered⟩
    · have hknown : Known caller := .inr (by
        rw [hanswer] at hanswered
        cases caller with
        | none => exact absurd rfl hne
        | bool value => exact hanswered
        | object value => exact hanswered)
      exact .inl ⟨caller, Allows.passes hallows _, by simp [Admits, hauth, hanswer, hne], hknown, by simpa using hanswered⟩
    · refine .inr (.inl ⟨rfl, hdenies, fun caller hadmits => ?_, by simpa using hanswered⟩)
      simp only [Admits, hauth] at hadmits
      exact hadmits.2 (hnone caller hadmits.1)
    · exact .inr (.inr ⟨hescapes, by simpa using hanswered⟩)

theorem Acquired.unique (h : Acquired answer passed) (h' : Acquired answer other) : passed = other := by
  obtain ⟨value, hvalue, htruth⟩ := h
  obtain ⟨value', hvalue', htruth'⟩ := h'
  cases hvalue.symm.trans hvalue'
  exact Except.ok.inj (htruth.symm.trans htruth')

theorem rateLimit_cases (gate : AuditedGate) (served : Served) (request : Request) (hcaller : Known caller) :
    Passes .rateLimit gate.rateLimiter (gate.rateLimit served request caller) () ∧ gate.LimiterPasses served caller ∧
      (∀ acquire ∈ gate.rateLimiter, ∃ passed, Acquired (acquire caller served.flowName) passed) ∨
    gate.rateLimiter.isSome ∧ Denies .rateLimit (gate.rateLimit served request caller) ∧
      ¬gate.LimiterPasses served caller ∧
      (∀ acquire ∈ gate.rateLimiter, ∃ passed, Acquired (acquire caller served.flowName) passed) ∨
    Escapes (gate.rateLimit served request caller) ∧
      ¬∀ acquire ∈ gate.rateLimiter, ∃ passed, Acquired (acquire caller served.flowName) passed := by
  cases hlimiter : gate.rateLimiter with
  | none => exact .inl ⟨⟨[], rateLimit_none hlimiter caller, rfl⟩, by simp [LimiterPasses, hlimiter], by simp⟩
  | some acquire =>
    simp only [LimiterPasses, hlimiter, Option.mem_some_iff, forall_eq']
    rcases rateLimit_some served request hlimiter hcaller with
      ⟨hallows, hpassed⟩ | ⟨hdenies, hrefused⟩ | ⟨hescapes, hnone⟩
    · exact .inl ⟨Allows.passes hallows _, hpassed, true, hpassed⟩
    · have hnot : ¬Acquired (acquire caller served.flowName) true := fun hpassed => by cases Acquired.unique hrefused hpassed
      exact .inr (.inl ⟨rfl, hdenies, hnot, false, hrefused⟩)
    · refine .inr (.inr ⟨hescapes, ?_⟩)
      rintro ⟨passed, hpassed⟩
      exact hnone passed hpassed

theorem authorize_cases (gate : AuditedGate) (served : Served) (request : Request) (rawInputs : Dict)
    (hcaller : Known caller) :
    Passes .authorize gate.authorizer (gate.authorize served request caller rawInputs) () ∧
      (∀ authorizer ∈ gate.authorizer, AuthorizedFor authorizer gate served request rawInputs caller true) ∨
    gate.authorizer.isSome ∧ Denies .authorize (gate.authorize served request caller rawInputs) ∧
      (∀ authorizer ∈ gate.authorizer, AuthorizedFor authorizer gate served request rawInputs caller false) ∨
    Escapes (gate.authorize served request caller rawInputs) ∧
      ¬∀ authorizer ∈ gate.authorizer, ∃ allowed, AuthorizedFor authorizer gate served request rawInputs caller allowed := by
  cases hauthorizer : gate.authorizer with
  | none => exact .inl ⟨⟨[], authorize_none hauthorizer caller, rfl⟩, by simp⟩
  | some authorizer =>
    simp only [Option.mem_some_iff, forall_eq']
    rcases authorize_some served request rawInputs hauthorizer hcaller with
      ⟨hallows, hallowed⟩ | ⟨hdenies, hdenied⟩ | ⟨hescapes, hnone⟩
    · exact .inl ⟨Allows.passes hallows _, hallowed⟩
    · exact .inr (.inl ⟨rfl, hdenies, hdenied⟩)
    · refine .inr (.inr ⟨hescapes, ?_⟩)
      rintro ⟨allowed, hallowed⟩
      exact hnone allowed hallowed

section

variable {events : List AuditEvent} {raised : Raised} {action : Action}

theorem failClosed_refused (before after : List Action)
    (h : gate.check served request rawInputs = ⟨events, .error raised⟩)
    (hconfigured : gate.configured = before ++ action :: after)
    (hevents : events.map (·.verdict) = before.map (·, .allow) ++ [(action, .deny)])
    (hclass : raised.errorClass = action.errorClass) : gate.FailClosed served request rawInputs := by
  refine ⟨fun hok => ?_, fun other herror => ?_⟩
  · rw [h] at hok
    cases hok
  · rw [h] at herror ⊢
    cases herror
    exact ⟨before, action, after, hconfigured, hevents, hclass⟩

/-- What ends with an error and without a deny event is not fail-closed. -/
theorem not_failClosed (before : List Action) (h : gate.check served request rawInputs = ⟨events, .error raised⟩)
    (hevents : events.map (·.verdict) = before.map (·, .allow)) : ¬gate.FailClosed served request rawInputs := by
  intro hfail
  obtain ⟨allowed, action, after, _, hverdicts, _⟩ := hfail.refuses raised (by rw [h])
  rw [h, hevents] at hverdicts
  have hdeny : (action, Decision.deny) ∈ before.map (·, Decision.allow) := by simp [hverdicts]
  simp at hdeny

end

theorem check_behaved (gate : AuditedGate) (served : Served) (request : Request) (rawInputs : Dict) :
    gate.FailClosed served request rawInputs ↔ gate.Behaved served request rawInputs := by
  rcases gate.authenticate_cases served request with
    ⟨caller, ⟨events, hran, hevents⟩, hadmits, hknown, hanswered⟩ |
    ⟨hsome, ⟨event, raised, hran, hverdict, hclass⟩, hnone, hanswered⟩ | ⟨⟨raised, hran⟩, hbad⟩
  · have hunique : ∀ other, gate.Admits served request other → other = caller := fun other hother =>
      Admits.unique hother hadmits
    rcases gate.rateLimit_cases served request hknown with
      ⟨⟨events', hran', hevents'⟩, hpasses, hacquired⟩ |
      ⟨hsome, ⟨event, raised, hran', hverdict, hclass⟩, hrefused, hacquired⟩ | ⟨⟨raised, hran'⟩, hbad⟩
    · rcases gate.authorize_cases served request rawInputs hknown with
        ⟨⟨events'', hran'', hevents''⟩, hallowed⟩ |
        ⟨hsome, ⟨event, raised, hran'', hverdict, hclass⟩, hdenied⟩ | ⟨⟨raised, hran''⟩, hbad⟩
      · have hcheck : gate.check served request rawInputs = ⟨events ++ (events' ++ events''), .ok ()⟩ := by
          simp [check, hran, hran', hran'']
        refine iff_of_true ⟨fun _ => ⟨⟨caller, hadmits, hpasses, hallowed⟩, ?_⟩, fun raised herror => ?_⟩ ⟨hanswered, ?_⟩
        · simp [hcheck, hevents, hevents', hevents'', configured]
        · rw [hcheck] at herror
          cases herror
        · rintro other hother
          cases hunique other hother
          exact ⟨hacquired, fun _ authorizer hmem => ⟨true, hallowed authorizer hmem⟩⟩
      · have hcheck : gate.check served request rawInputs = ⟨events ++ (events' ++ [event]), .error raised⟩ := by
          simp [check, hran, hran', hran'']
        refine iff_of_true (failClosed_refused (actionOf .authenticate gate.authenticator ++
          actionOf .rateLimit gate.rateLimiter) [] hcheck ?_ ?_ hclass) ⟨hanswered, ?_⟩
        · rw [configured]
          exact congrArg _ (if_pos hsome)
        · simp [hevents, hevents', hverdict]
        · rintro other hother
          cases hunique other hother
          exact ⟨hacquired, fun _ authorizer hmem => ⟨false, hdenied authorizer hmem⟩⟩
      · have hcheck : gate.check served request rawInputs = ⟨events ++ events', .error raised⟩ := by
          simp [check, hran, hran', hran'']
        refine iff_of_false (not_failClosed (actionOf .authenticate gate.authenticator ++
          actionOf .rateLimit gate.rateLimiter) hcheck (by simp [hevents, hevents'])) fun hbehaved => ?_
        exact hbad ((hbehaved.2 caller hadmits).2 hpasses)
    · have hcheck : gate.check served request rawInputs = ⟨events ++ [event], .error raised⟩ := by
        simp [check, hran, hran']
      refine iff_of_true (failClosed_refused (actionOf .authenticate gate.authenticator)
        (actionOf .authorize gate.authorizer) hcheck ?_ ?_ hclass) ⟨hanswered, ?_⟩
      · simp [configured, actionOf, hsome]
      · simp [hevents, hverdict]
      · rintro other hother
        cases hunique other hother
        exact ⟨hacquired, fun hpasses => absurd hpasses hrefused⟩
    · have hcheck : gate.check served request rawInputs = ⟨events, .error raised⟩ := by simp [check, hran, hran']
      refine iff_of_false (not_failClosed _ hcheck hevents) fun hbehaved => ?_
      exact hbad (hbehaved.2 caller hadmits).1
  · have hcheck : gate.check served request rawInputs = ⟨[event], .error raised⟩ := by simp [check, hran]
    refine iff_of_true (failClosed_refused [] (actionOf .rateLimit gate.rateLimiter ++ actionOf .authorize gate.authorizer)
      hcheck ?_ (by simp [hverdict]) hclass) ⟨hanswered, fun caller hadmits => absurd hadmits (hnone caller)⟩
    simp [configured, actionOf, hsome]
  · have hcheck : gate.check served request rawInputs = ⟨[], .error raised⟩ := by simp [check, hran]
    exact iff_of_false (not_failClosed [] hcheck rfl) fun hbehaved => hbad hbehaved.1

/-- A limiter whose store cannot be reached. -/
def unreachableLimiter : AuditedGate where
  rateLimiter := some fun _ _ => .error (.ofExc (.other "ConnectionError" "connection refused"))

theorem limiter_error_escapes : ¬∀ (gate : AuditedGate) (served : Served) (request : Request) (rawInputs : Dict),
    gate.FailClosed served request rawInputs := by
  intro h
  let served : Served :=
    { mcpName := "chainweaver_f", flowName := "f", flowVersion := "0.1.0", inputSchema := "In", outputSchema := none,
      safety := none }
  exact not_failClosed [] rfl rfl (h unreachableLimiter served ⟨"r", .empty⟩ .empty)

end AuditedGate

end ChainWeaver.Server
