import ChainWeaver.Data.Attempt
import ChainWeaver.Data.Counting
import ChainWeaver.ParseLimits

/-!
# What the loaders raise

`flow_from_json` and `flow_from_yaml` promise one class of error. They keep to it exactly
on the texts that can be encoded, that their parser refuses with its syntax error at most,
and whose discriminator and format version can be quoted (`loaders_contained`).
-/

namespace ChainWeaver

open Attempt (ErrorsIn)

-- Texts

/-- A Python string: code points, lone surrogates among them. -/
abbrev PyText := List Nat

namespace PyText

def isSurrogate (codePoint : Nat) : Bool := 0xd800 ≤ codePoint && codePoint ≤ 0xdfff

def utf8Width (codePoint : Nat) : Nat :=
  if codePoint < 0x80 then 1 else if codePoint < 0x800 then 2 else if codePoint < 0x10000 then 3 else 4

/-- `len(data.encode("utf-8"))`. -/
def encodedSize (data : PyText) : Except String Nat :=
  if data.any isSurrogate then .error "UnicodeEncodeError" else .ok (Counting.total (data.map utf8Width))

end PyText

/-- What becomes of a text in a parser: an object, the parser's own syntax error, or
another exception. -/
inductive ParseOutcome (ι : Type)
  | value (root : ι)
  | syntaxError (detail : String)
  | raised (typeName : String)

inductive LoadError
  | flowSerialization (detail : String)
  | other (typeName : String)

def LoadError.documented : LoadError → Prop
  | .flowSerialization _ => True
  | .other _ => False

-- The loaders

/-- The parsers, with the objects that they make, and the flow models. -/
structure FlowLoader (ι φ : Type) where
  loads : PyText → ParseOutcome ι
  safeLoad : PyText → ParseOutcome ι
  yamlInstalled : Bool := true
  objects : ι → ParsedObject ι
  /-- `str` of an object that is no string, and `repr`; an integer may have too many digits
  to be written. -/
  strOther : ι → Except String String
  repr : ι → Except String String
  /-- A flow, or the text of whatever validation raises. -/
  modelValidate : Bool → ι → Except String φ

namespace FlowLoader

variable (loader : FlowLoader ι φ)

def str (identity : ι) : Except LoadError String :=
  match loader.objects identity with
  | .str text => .ok text
  | _ => (loader.strOther identity).mapError .other

/-- `repr` of what `get` gives. -/
def reprOf : Option ι → Except LoadError String
  | some identity => (loader.repr identity).mapError .other
  | none => .ok "None"

def typeName : ParsedObject ι → String
  | .null => "NoneType"
  | .str _ => "str"
  | .scalar name => name
  | .mapping _ => "dict"
  | .list _ => "list"
  | .tuple _ => "tuple"
  | .set _ => "set"

def checkByteSize (limits : FlowParseLimits) (data : PyText) : Except LoadError Unit :=
  match limits.maxBytes with
  | none => .ok ()
  | some maxBytes => do
    let size ← data.encodedSize.mapError .other
    if size > maxBytes then
      throw (.flowSerialization
        s!"Flow file is {size} bytes, exceeding the max_bytes limit ({maxBytes}); refusing to parse")

abbrev Entries (ι : Type) := List (Option String × ι)

def checkStepCount (limits : FlowParseLimits) (entries : Entries ι) : Except LoadError Unit :=
  match (entries.lookup (some "steps")).map loader.objects with
  | some (.list steps) =>
    if exceeds limits.maxSteps steps.length then
      .error (.flowSerialization
        s!"Flow declares {steps.length} steps, exceeding the max_steps limit ({limits.maxSteps.getD 0})")
    else .ok ()
  | _ => .ok ()

/-- Whether the discriminator is there, and of a `DAGFlow`. -/
def discriminated? (entries : Entries ι) : Option Bool :=
  match (entries.lookup (some "type")).map loader.objects with
  | some (.str "Flow") => some false
  | some (.str "DAGFlow") => some true
  | _ => none

def readType (entries : Entries ι) : Except LoadError Bool :=
  match loader.discriminated? entries with
  | some isDag => .ok isDag
  | none => do
    let quoted ← loader.reprOf (entries.lookup (some "type"))
    throw (.flowSerialization
      (s!"Missing or invalid 'type' discriminator (got {quoted}); " ++ "expected 'Flow' or 'DAGFlow'"))

/-- The format version, if there is one. -/
def formatVersion? (entries : Entries ι) : Option ι :=
  (entries.lookup (some "format_version")).filter fun identity =>
    match loader.objects identity with
    | .null => false
    | _ => true

def checkFormatVersion (entries : Entries ι) : Except LoadError Unit :=
  match loader.formatVersion? entries with
  | none => .ok ()
  | some version => do
    let text ← loader.str version
    if majorVersion text ≠ majorVersion flowFormatVersion then
      let quoted ← loader.reprOf (some version)
      throw (.flowSerialization (s!"Unsupported flow file format_version {quoted}; " ++
        s!"this ChainWeaver writes format_version '{flowFormatVersion}'. " ++
        "Use a compatible ChainWeaver version to read this file"))

def readFlow (limits : FlowParseLimits) (entries : Entries ι) (root : ι) : Except LoadError φ := do
  loader.checkStepCount limits entries
  let isDag ← loader.readType entries
  loader.checkFormatVersion entries
  (loader.modelValidate isDag root).mapError fun text =>
    .flowSerialization s!"Validation failed while reconstructing {Serializer.discriminator isDag}: {text}"

/-- `flow_from_dict`; `none` where the structural walk has not ended. -/
def flowFromDict (limits : FlowParseLimits) (root : ι) (fuel : Nat) : Option (Except LoadError φ) :=
  match loader.objects root with
  | .mapping entries =>
    match limits.enforceObjects loader.objects fuel 0 [(root, 1)] with
    | none => none
    | some (.error detail) => some (.error (.flowSerialization detail))
    | some (.ok ()) => some (loader.readFlow limits entries root)
  | other => some (.error (.flowSerialization s!"Expected a mapping at the top level, got {typeName other}"))

def flowFromJson (limits : FlowParseLimits) (data : PyText) (fuel : Nat) : Option (Except LoadError φ) :=
  match checkByteSize limits data with
  | .error e => some (.error e)
  | .ok () =>
    match loader.loads data with
    | .raised typeName => some (.error (.other typeName))
    | .syntaxError detail => some (.error (.flowSerialization s!"Invalid JSON: {detail}"))
    | .value root => loader.flowFromDict limits root fuel

def flowFromYaml (limits : FlowParseLimits) (data : PyText) (fuel : Nat) : Option (Except LoadError φ) :=
  if loader.yamlInstalled then
    match checkByteSize limits data with
    | .error e => some (.error e)
    | .ok () =>
      match loader.safeLoad data with
      | .raised typeName => some (.error (.other typeName))
      | .syntaxError detail => some (.error (.flowSerialization s!"Invalid YAML: {detail}"))
      | .value root =>
        match loader.objects root with
        | .null => some (.error (.flowSerialization "YAML payload is empty"))
        | _ => loader.flowFromDict limits root fuel
  else
    some (.error (.flowSerialization
      "YAML support requires 'pyyaml' to be installed. Install it via 'pip install chainweaver[yaml]'"))

-- Containment

/-- The loader ends, with a flow or with the documented error. -/
def Contained (run : Nat → Option (Except LoadError φ)) : Prop :=
  ∃ fuel result, run fuel = some result ∧ ErrorsIn LoadError.documented result

/-- What the messages quote can be written: an invalid discriminator, the format version,
and once more a format version that is not supported. -/
structure Quotable (entries : Entries ι) : Prop where
  type : loader.discriminated? entries = none → ∃ quoted, loader.reprOf (entries.lookup (some "type")) = .ok quoted
  version : loader.discriminated? entries ≠ none → ∀ version, loader.formatVersion? entries = some version →
    ∃ text, loader.str version = .ok text ∧ (majorVersion text ≠ majorVersion flowFormatVersion →
      ∃ quoted, loader.reprOf (some version) = .ok quoted)

/-- A mapping that keeps the limits can be quoted. -/
def RootQuotable (root : ι) : Prop :=
  ∀ entries, loader.objects root = .mapping entries → ({} : FlowParseLimits).EnforcesNormally loader.objects root →
    loader.checkStepCount {} entries = .ok () → loader.Quotable entries

/-- The parser raises its syntax error at most, and what it gives can be quoted. -/
def Readable : ParseOutcome ι → Prop
  | .value root => loader.RootQuotable root
  | .syntaxError _ => True
  | .raised _ => False

variable {loader}

theorem errorsIn_mapError_other {x : Except String α} :
    ErrorsIn LoadError.documented (x.mapError LoadError.other) ↔ ∃ value, x = .ok value := by
  cases x with
  | ok value => exact iff_of_true nofun ⟨value, rfl⟩
  | error e => exact iff_of_false (fun h => h _ rfl) nofun

theorem mapError_other_ok {x : Except String α} :
    (∃ value, x.mapError LoadError.other = .ok value) ↔ ∃ value, x = .ok value := by
  cases x with
  | ok value => exact iff_of_true ⟨value, rfl⟩ ⟨value, rfl⟩
  | error e => exact iff_of_false nofun nofun

theorem reprOf_errorsIn {identity : Option ι} :
    ErrorsIn LoadError.documented (loader.reprOf identity) ↔ ∃ quoted, loader.reprOf identity = .ok quoted := by
  cases identity with
  | none => exact iff_of_true nofun ⟨_, rfl⟩
  | some identity => exact errorsIn_mapError_other.trans mapError_other_ok.symm

theorem str_errorsIn {identity : ι} :
    ErrorsIn LoadError.documented (loader.str identity) ↔ ∃ text, loader.str identity = .ok text := by
  unfold str
  split
  · exact iff_of_true nofun ⟨_, rfl⟩
  · exact errorsIn_mapError_other.trans mapError_other_ok.symm

theorem errorsIn_quoting {x : Except LoadError String} {message : String → String}
    (h : ErrorsIn LoadError.documented x ↔ ∃ quoted, x = .ok quoted) :
    ErrorsIn LoadError.documented (do throw (.flowSerialization (message (← x))) : Except LoadError α) ↔
      ∃ quoted, x = .ok quoted := by
  rw [Attempt.errorsIn_bind, h]
  exact and_iff_left fun quoted _ e he => (Except.error.inj he) ▸ trivial

theorem readType_errorsIn {entries : Entries ι} : ErrorsIn LoadError.documented (loader.readType entries) ↔
    (loader.discriminated? entries = none → ∃ quoted, loader.reprOf (entries.lookup (some "type")) = .ok quoted) := by
  unfold readType
  cases hknown : loader.discriminated? entries with
  | some isDag => exact iff_of_true nofun nofun
  | none => exact (errorsIn_quoting reprOf_errorsIn).trans ⟨fun h _ => h, fun h => h rfl⟩

theorem checkFormatVersion_errorsIn {entries : Entries ι} :
    ErrorsIn LoadError.documented (loader.checkFormatVersion entries) ↔
      ∀ version, loader.formatVersion? entries = some version →
        ∃ text, loader.str version = .ok text ∧ (majorVersion text ≠ majorVersion flowFormatVersion →
          ∃ quoted, loader.reprOf (some version) = .ok quoted) := by
  unfold checkFormatVersion
  cases hversion : loader.formatVersion? entries with
  | none => exact iff_of_true nofun nofun
  | some version =>
    dsimp only
    rw [Attempt.errorsIn_bind, str_errorsIn]
    constructor
    · rintro ⟨⟨text, htext⟩, hrest⟩ _ ⟨⟩
      refine ⟨text, htext, fun hmajor => ?_⟩
      have hquoting := hrest text htext
      rw [if_pos hmajor] at hquoting
      exact (errorsIn_quoting reprOf_errorsIn).1 hquoting
    · intro h
      obtain ⟨text, htext, hquoted⟩ := h version rfl
      refine ⟨⟨text, htext⟩, fun found hfound => ?_⟩
      obtain rfl := Except.ok.inj (htext.symm.trans hfound)
      split
      · next hmajor => exact (errorsIn_quoting reprOf_errorsIn).2 (hquoted hmajor)
      · exact nofun

theorem checkStepCount_documented {limits : FlowParseLimits} {entries : Entries ι} :
    ErrorsIn LoadError.documented (loader.checkStepCount limits entries) := by
  unfold checkStepCount
  split
  · split
    · exact Attempt.errorsIn_error.2 trivial
    · exact nofun
  · exact nofun

theorem readFlow_errorsIn {limits : FlowParseLimits} {entries : Entries ι} {root : ι} :
    ErrorsIn LoadError.documented (loader.readFlow limits entries root) ↔
      (loader.checkStepCount limits entries = .ok () → loader.Quotable entries) := by
  have hvalidate : ∀ isDag, ErrorsIn LoadError.documented ((loader.modelValidate isDag root).mapError fun text =>
      .flowSerialization s!"Validation failed while reconstructing {Serializer.discriminator isDag}: {text}") := by
    intro isDag e he
    cases hmodel : loader.modelValidate isDag root with
    | ok flow => simp [hmodel, Except.mapError] at he
    | error text =>
      simp only [hmodel, Except.mapError, Except.error.injEq] at he
      exact he ▸ trivial
  unfold readFlow
  rw [Attempt.errorsIn_bind]
  refine (and_iff_right checkStepCount_documented).trans ?_
  have hrest : ErrorsIn LoadError.documented (do
      let isDag ← loader.readType entries
      loader.checkFormatVersion entries
      (loader.modelValidate isDag root).mapError fun text =>
        .flowSerialization s!"Validation failed while reconstructing {Serializer.discriminator isDag}: {text}") ↔
      loader.Quotable entries := by
    rw [Attempt.errorsIn_bind, readType_errorsIn]
    constructor
    · rintro ⟨htype, hlater⟩
      refine ⟨htype, fun hknown => ?_⟩
      obtain ⟨isDag, hisDag⟩ := Option.ne_none_iff_exists'.1 hknown
      have hread : loader.readType entries = .ok isDag := by simp [readType, hisDag]
      exact checkFormatVersion_errorsIn.1 (Attempt.errorsIn_bind.1 (hlater isDag hread)).1
    · rintro ⟨htype, hversion⟩
      refine ⟨htype, fun isDag hread => Attempt.errorsIn_bind.2 ⟨?_, fun _ _ => hvalidate isDag⟩⟩
      refine checkFormatVersion_errorsIn.2 (hversion fun hunknown => ?_)
      simp only [readType, hunknown] at hread
      obtain ⟨_, _, hthrow⟩ := Attempt.bind_eq_ok.1 hread
      cases hthrow
  exact ⟨fun h hsteps => hrest.1 (h () hsteps), fun h _ hsteps => hrest.2 (h hsteps)⟩

theorem flowFromDict_contained {root : ι} :
    Contained (loader.flowFromDict {} root) ↔ loader.RootQuotable root := by
  cases hroot : loader.objects root with
  | mapping entries =>
    have hrun : ∀ fuel, loader.flowFromDict {} root fuel =
        (({} : FlowParseLimits).enforceObjects loader.objects fuel 0 [(root, 1)]).map fun
          | .error detail => .error (.flowSerialization detail)
          | .ok () => loader.readFlow {} entries root := by
      intro fuel
      simp only [flowFromDict, hroot]
      rcases ({} : FlowParseLimits).enforceObjects loader.objects fuel 0 [(root, 1)] with _ | _ | _ <;> rfl
    constructor
    · rintro ⟨fuel, result, hresult, hdocumented⟩ other hother ⟨enough, hwalk⟩ hsteps
      obtain rfl := ParsedObject.mapping.inj (hroot.symm.trans hother)
      rw [hrun] at hresult
      obtain ⟨ended, hended, rfl⟩ := Option.map_eq_some_iff.1 hresult
      obtain rfl := Unfolding.walk_unique hended hwalk
      exact readFlow_errorsIn.1 hdocumented hsteps
    · intro h
      have hends : ({} : FlowParseLimits).EndsWithin loader.objects (100000 + 1) root :=
        FlowParseLimits.endsWithin_nodes rfl root
      obtain ⟨ended, hended⟩ := Option.isSome_iff_exists.1 hends
      refine ⟨_, _, (hrun _).trans (Option.map_eq_some_iff.2 ⟨ended, hended, rfl⟩), ?_⟩
      cases ended with
      | error detail => exact Attempt.errorsIn_error.2 trivial
      | ok _ => exact readFlow_errorsIn.2 (h entries hroot ⟨_, hended⟩)
  | null | str | scalar | list | tuple | set =>
    refine iff_of_true ⟨0, _, by simp only [flowFromDict, hroot]; rfl, ?_⟩ fun entries hmapping => ?_
    · exact Attempt.errorsIn_error.2 (trivial : LoadError.documented (.flowSerialization _))
    · cases hroot.symm.trans hmapping

/-- The default limit on the size. -/
abbrev maxBytes : Nat := 5 * 1024 * 1024

/-- What happens before the parser: the text is encoded and measured. -/
inductive Measured (data : PyText) : Prop
  | unencodable : data.any PyText.isSurrogate = true →
      checkByteSize {} data = .error (.other "UnicodeEncodeError") → Measured data
  | tooLarge : data.encodedSize = .ok size → maxBytes < size →
      (∃ detail, checkByteSize {} data = .error (.flowSerialization detail)) → Measured data
  | fits : data.encodedSize = .ok size → size ≤ maxBytes → checkByteSize {} data = .ok () → Measured data

theorem measured (data : PyText) : Measured data := by
  by_cases hsurrogate : data.any PyText.isSurrogate = true
  · refine .unencodable hsurrogate ?_
    simp only [checkByteSize, PyText.encodedSize, hsurrogate, if_true]
    rfl
  · have hsize : data.encodedSize = .ok (Counting.total (data.map PyText.utf8Width)) := by
      simp only [PyText.encodedSize, hsurrogate, Bool.false_eq_true, if_false]
    by_cases hlarge : Counting.total (data.map PyText.utf8Width) > maxBytes
    · refine .tooLarge hsize hlarge ?_
      simp only [checkByteSize, hsize, Except.mapError, bind, Except.bind, hlarge, if_true]
      exact ⟨_, rfl⟩
    · refine .fits hsize (Nat.le_of_not_lt hlarge) ?_
      simp only [checkByteSize, hsize, Except.mapError, bind, Except.bind, hlarge, if_false]
      rfl

/-- The text can be encoded, and if it is not too large, the parser can read it. -/
def TextReadable (parse : PyText → ParseOutcome ι) (data : PyText) : Prop :=
  ∃ size, data.encodedSize = .ok size ∧ (size ≤ maxBytes → loader.Readable (parse data))

theorem encodedSize_ok {data : PyText} (h : data.encodedSize = .ok size) : data.any PyText.isSurrogate = false := by
  unfold PyText.encodedSize at h
  split at h
  · cases h
  · next hsurrogate => exact Bool.eq_false_iff.2 hsurrogate

/-- A loader that measures the text, parses it and reads what comes of it keeps to its
error exactly on the readable texts. -/
theorem contained_of_stages {parse : PyText → ParseOutcome ι} {data : PyText} {run : Nat → Option (Except LoadError φ)}
    (hfailed : ∀ e, checkByteSize {} data = .error e → ∀ fuel, run fuel = some (.error e))
    (hparsed : checkByteSize {} data = .ok () → (Contained run ↔ loader.Readable (parse data))) :
    Contained run ↔ loader.TextReadable parse data := by
  cases measured data with
  | unencodable hsurrogate hcheck =>
    refine iff_of_false ?_ ?_
    · rintro ⟨fuel, result, hresult, hdocumented⟩
      rw [hfailed _ hcheck] at hresult
      obtain rfl := Option.some.inj hresult
      exact Attempt.errorsIn_error.1 hdocumented
    · rintro ⟨size, hsize, _⟩
      rw [encodedSize_ok hsize] at hsurrogate
      cases hsurrogate
  | tooLarge hsize hlarge hcheck =>
    obtain ⟨detail, hcheck⟩ := hcheck
    refine iff_of_true ⟨0, _, hfailed _ hcheck 0, Attempt.errorsIn_error.2 trivial⟩ ⟨_, hsize, fun hsmall => ?_⟩
    exact absurd hsmall (Nat.not_le_of_gt hlarge)
  | fits hsize hsmall hcheck =>
    refine (hparsed hcheck).trans ⟨fun h => ⟨_, hsize, fun _ => h⟩, fun ⟨size, hsame, h⟩ => h ?_⟩
    obtain rfl := Except.ok.inj (hsize.symm.trans hsame)
    exact hsmall

theorem contained_error {e : LoadError} {run : Nat → Option (Except LoadError φ)}
    (h : ∀ fuel, run fuel = some (.error e)) : Contained run ↔ e.documented := by
  constructor
  · rintro ⟨fuel, result, hresult, hdocumented⟩
    obtain rfl := Option.some.inj ((h fuel).symm.trans hresult)
    exact Attempt.errorsIn_error.1 hdocumented
  · exact fun he => ⟨0, _, h 0, Attempt.errorsIn_error.2 he⟩

/-- The loaders return a flow or raise their own error, exactly on readable texts. -/
theorem loaders_contained (loader : FlowLoader ι φ) (data : PyText) :
    (Contained (loader.flowFromJson {} data) ↔ loader.TextReadable loader.loads data) ∧
      (Contained (loader.flowFromYaml {} data) ↔
        (loader.yamlInstalled = true → loader.TextReadable loader.safeLoad data)) := by
  constructor
  · refine contained_of_stages (fun e he fuel => ?_) fun hcheck => ?_
    · simp only [flowFromJson, he]
    · cases hloads : loader.loads data with
      | value root =>
        have hrun : loader.flowFromJson {} data = loader.flowFromDict {} root := by
          funext fuel
          simp only [flowFromJson, hcheck, hloads]
        rw [hrun]
        exact flowFromDict_contained
      | syntaxError detail =>
        have hrun : ∀ fuel, loader.flowFromJson {} data fuel =
            some (.error (.flowSerialization s!"Invalid JSON: {detail}")) := by
          intro fuel
          simp only [flowFromJson, hcheck, hloads]
        exact contained_error hrun
      | raised typeName =>
        have hrun : ∀ fuel, loader.flowFromJson {} data fuel = some (.error (.other typeName)) := by
          intro fuel
          simp only [flowFromJson, hcheck, hloads]
        exact contained_error hrun
  · by_cases hinstalled : loader.yamlInstalled = true
    · rw [forall_prop_of_true hinstalled]
      refine contained_of_stages (fun e he fuel => ?_) fun hcheck => ?_
      · simp only [flowFromYaml, hinstalled, he, if_true]
      · cases hloads : loader.safeLoad data with
        | value root =>
          cases hroot : loader.objects root with
          | null =>
            have hrun : ∀ fuel, loader.flowFromYaml {} data fuel =
                some (.error (.flowSerialization "YAML payload is empty")) := by
              intro fuel
              simp only [flowFromYaml, hinstalled, hcheck, hloads, hroot, if_true]
            refine (contained_error hrun).trans (iff_of_true trivial fun entries hmapping => ?_)
            cases hroot.symm.trans hmapping
          | str | scalar | mapping | list | tuple | set =>
            have hrun : loader.flowFromYaml {} data = loader.flowFromDict {} root := by
              funext fuel
              simp only [flowFromYaml, hinstalled, hcheck, hloads, hroot, if_true]
            rw [hrun]
            exact flowFromDict_contained
        | syntaxError detail =>
          have hrun : ∀ fuel, loader.flowFromYaml {} data fuel =
              some (.error (.flowSerialization s!"Invalid YAML: {detail}")) := by
            intro fuel
            simp only [flowFromYaml, hinstalled, hcheck, hloads, if_true]
          exact contained_error hrun
        | raised typeName =>
          have hrun : ∀ fuel, loader.flowFromYaml {} data fuel = some (.error (.other typeName)) := by
            intro fuel
            simp only [flowFromYaml, hinstalled, hcheck, hloads, if_true]
          exact contained_error hrun
    · refine iff_of_true ⟨0, _, by simp only [flowFromYaml, hinstalled]; rfl, ?_⟩ fun h => absurd h hinstalled
      exact Attempt.errorsIn_error.2 (trivial : LoadError.documented (.flowSerialization _))

/-- `int` reads decimal texts of at most so many digits. -/
def maxDigits : Nat := 4300

def isDigit (codePoint : Nat) : Bool := 0x30 ≤ codePoint && codePoint ≤ 0x39

/-- Parsers of integers: a JSON text of digits, and a YAML scalar tagged as an integer. -/
def integerLoader : FlowLoader Unit Unit where
  loads data :=
    if !data.isEmpty && data.all isDigit then
      if data.length > maxDigits then .raised "ValueError" else .value ()
    else .syntaxError "Expecting value"
  safeLoad data :=
    if data.take 6 = "!!int ".toList.map Char.toNat then
      if (data.drop 6).all isDigit then .value () else .raised "ValueError"
    else .syntaxError "could not find expected ':'"
  objects _ := .scalar "int"
  strOther _ := .ok "0"
  repr _ := .ok "0"
  modelValidate _ _ := .error "not a mapping"

theorem digits_raise (hmany : maxDigits < n) (hfits : n ≤ maxBytes) (fuel : Nat) :
    integerLoader.flowFromJson {} (List.replicate n 0x39) fuel = some (.error (.other "ValueError")) := by
  have hsize : PyText.encodedSize (List.replicate n 0x39) = .ok n := by
    simp [PyText.encodedSize, PyText.isSurrogate, Counting.total_replicate, PyText.utf8Width]
  have hcheck : checkByteSize {} (List.replicate n 0x39) = .ok () := by
    simp [checkByteSize, hsize, Except.mapError, bind, Except.bind, Nat.not_lt.2 hfits]
    rfl
  have hsome : n ≠ 0 := Nat.ne_zero_of_lt hmany
  simp [flowFromJson, hcheck, integerLoader, isDigit, hmany, hsome]

/-- An integer with too many digits is a `ValueError` and no `JSONDecodeError`, and so is a
scalar that cannot be constructed no `YAMLError`. -/
theorem loaders_escape :
    (¬∀ (loader : FlowLoader Unit Unit) (data : PyText), Contained (loader.flowFromJson {} data)) ∧
      ¬∀ (loader : FlowLoader Unit Unit) (data : PyText), Contained (loader.flowFromYaml {} data) := by
  constructor
  · intro h
    obtain ⟨fuel, result, hresult, hdocumented⟩ := h integerLoader (List.replicate 4301 0x39)
    have hescape := digits_raise (n := 4301) (by decide) (by decide) fuel
    obtain rfl := Option.some.inj (hescape.symm.trans hresult)
    exact Attempt.errorsIn_error.1 hdocumented
  · intro h
    obtain ⟨fuel, result, hresult, hdocumented⟩ := h integerLoader ("!!int abc".toList.map Char.toNat)
    have hescape : integerLoader.flowFromYaml {} ("!!int abc".toList.map Char.toNat) fuel =
        some (.error (.other "ValueError")) := by
      rfl
    obtain rfl := Option.some.inj (hescape.symm.trans hresult)
    exact Attempt.errorsIn_error.1 hdocumented

end FlowLoader

end ChainWeaver
