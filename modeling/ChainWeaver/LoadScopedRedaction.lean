import ChainWeaver.Data.Interning
import ChainWeaver.Data.Substitution
import ChainWeaver.JsonReader
import ChainWeaver.Redaction
import ChainWeaver.TraceImport

/-!
# Redaction of imported traces

The redactor of `trace_redaction.py`, which gives every sensitive value of a load a placeholder
of its own, and what it promises of the payloads that it redacts.
-/

namespace ChainWeaver

open Substitution

-- Labeled secrets

/-- A hit of the pattern for labeled secrets, by its groups. -/
structure LabeledSecret where
  label : Text
  separator : Text
  value : Text
  deriving DecidableEq

def LabeledSecret.text (secret : LabeledSecret) : Text := secret.label ++ secret.separator ++ secret.value

/-- The character classes of `re`. -/
structure CharClasses where
  isSpace : Char → Bool
  isWord : Char → Bool
  /-- The characters are the same letter, whatever its case. -/
  sameLetter : Char → Char → Bool

namespace CharClasses

variable (classes : CharClasses)

/-- `\b` -/
def boundary (previous next : Option Char) : Bool := previous.any classes.isWord != next.any classes.isWord

/-- Splits off what spells the same as `word`. -/
def takeWord : Text → Text → Option (Text × Text)
  | [], text => some ([], text)
  | _ :: _, [] => none
  | letter :: word, c :: rest =>
    if classes.sameLetter letter c then (takeWord word rest).map fun taken => (c :: taken.1, taken.2) else none

/-- `[^\s,;]` -/
def isSecretChar (c : Char) : Bool := !classes.isSpace c && c != ',' && c != ';'

/-- `[^\s,;]+` -/
def takeSecret (text : Text) : Option Text :=
  if (text.takeWhile classes.isSecretChar).isEmpty then none else some (text.takeWhile classes.isSecretChar)

/-- `bearer\s+[^\s,;]+` -/
def takeBearer (text : Text) : Option Text := do
  let (bearer, rest) ← classes.takeWord "bearer".toList text
  let spaces := rest.takeWhile classes.isSpace
  if spaces.isEmpty then none
  let secret ← classes.takeSecret (rest.dropWhile classes.isSpace)
  pure (bearer ++ spaces ++ secret)

/-- `(?P<label>…)(?P<separator>\s*[:=]\s*)(?P<value>bearer\s+[^\s,;]+|[^\s,;]+)` with one label.
A separator takes all the blanks that it can, as neither a sign nor a value begins with one. -/
def takeLabeled (label text : Text) : Option LabeledSecret := do
  let (label, rest) ← classes.takeWord label text
  let before := rest.takeWhile classes.isSpace
  match rest.dropWhile classes.isSpace with
  | [] => none
  | sign :: rest =>
    if sign = ':' ∨ sign = '=' then
      let after := rest.takeWhile classes.isSpace
      let value ← (classes.takeBearer (rest.dropWhile classes.isSpace)).or (classes.takeSecret (rest.dropWhile classes.isSpace))
      pure { label, separator := before ++ sign :: after, value }
    else none

/-- A match at a position: of the labels the first one that leads to one. -/
def matchLabeled (labels : List Text) (previous : Option Char) (text : Text) : Option LabeledSecret :=
  if classes.boundary previous text.head? then labels.findSome? fun label => classes.takeLabeled label text else none

end CharClasses

-- The redactor

/-- What a placeholder is looked up by. -/
structure Identity where
  typeName : String
  encoded : Text
  deriving DecidableEq

/-- The placeholders of a load, in the order in which they were given. -/
abbrev Placeholders := List (Identity × Text)

def placeholderText (n : Nat) : Text := "<redacted:".toList ++ Nat.toDigits 10 n ++ ['>']

/-- `type(value).__name__` -/
def Json.typeName : Json → String
  | .null => "NoneType"
  | .bool _ => "bool"
  | .int _ => "int"
  | .float _ => "float"
  | .str _ => "str"
  | .array _ => "list"
  | .object _ => "dict"

structure LoadScopedTraceRedactor where
  policy : RedactionPolicy
  lower : String → String
  classes : CharClasses
  floats : FloatFormat
  /-- The policy's `redact_pattern`, by how it cuts texts. -/
  redactPattern : Option (Pattern (@id Text))
  policy_pattern : policy.redactPattern = redactPattern.map fun pattern replacement text =>
    String.ofList (joined (fun _ => replacement.toList) (pattern.cut text.toList))

namespace LoadScopedTraceRedactor

variable (redactor : LoadScopedTraceRedactor)

/-- The keys, longer ones first. Of keys of one length at most one is at a position. -/
def labels : List Text :=
  ((redactor.policy.normalizedKeys redactor.lower).map String.toList).insertionSort fun a b => b.length ≤ a.length

def stableIdentity (value : Json) : Text :=
  value.sorted.dumped redactor.floats.toFloatText { ensureAscii := false, compact := true }

def identity (value : Json) : Identity := { typeName := value.typeName, encoded := redactor.stableIdentity value }

/-- `_placeholder`. -/
def placeholder (value : Json) : StateM Placeholders Text := Interning.intern placeholderText (redactor.identity value)

def redactValue (value : Json) : StateM Placeholders Json := do
  let placeholder ← redactor.placeholder value
  pure (.str (String.ofList placeholder))

def replaceLabeledSecret (secret : LabeledSecret) : StateM Placeholders Text := do
  let placeholder ← redactor.placeholder (.str (String.ofList secret.value))
  pure (secret.label ++ secret.separator ++ placeholder)

end LoadScopedTraceRedactor

-- The label, the separator and the value stand there as they were found.
namespace CharClasses

variable {classes : CharClasses}

theorem takeWord_append {word text taken rest : Text} (h : classes.takeWord word text = some (taken, rest)) :
    text = taken ++ rest := by
  induction word generalizing text taken rest with
  | nil =>
    obtain ⟨rfl, rfl⟩ := Prod.mk.inj (Option.some.inj h)
    rfl
  | cons letter word ih =>
    cases text with
    | nil => cases h
    | cons c text =>
      rw [takeWord] at h
      split at h
      · obtain ⟨⟨taken', rest'⟩, htaken, heq⟩ := Option.map_eq_some_iff.1 h
        obtain ⟨rfl, rfl⟩ := Prod.mk.inj heq
        rw [ih htaken, List.cons_append]
      · cases h

theorem takeSecret_prefix {text secret : Text} (h : classes.takeSecret text = some secret) : secret <+: text := by
  unfold takeSecret at h
  split at h
  · cases h
  · obtain rfl := Option.some.inj h
    exact List.takeWhile_prefix _

theorem takeBearer_prefix {text secret : Text} (h : classes.takeBearer text = some secret) : secret <+: text := by
  simp only [takeBearer, Option.bind_eq_bind, Option.bind_eq_some_iff, Prod.exists] at h
  obtain ⟨bearer, rest, hbearer, h⟩ := h
  split at h
  · cases h
  · obtain ⟨token, htoken, h⟩ := Option.bind_eq_some_iff.1 h
    obtain rfl := Option.some.inj h
    obtain ⟨more, hmore⟩ := takeSecret_prefix htoken
    refine ⟨more, ?_⟩
    rw [takeWord_append hbearer, List.append_assoc, List.append_assoc, hmore, List.takeWhile_append_dropWhile]

theorem takeLabeled_prefix {label text : Text} {secret : LabeledSecret} (h : classes.takeLabeled label text = some secret) :
    secret.text <+: text ∧ secret.text ≠ [] := by
  simp only [takeLabeled, Option.bind_eq_bind, Option.bind_eq_some_iff, Prod.exists] at h
  obtain ⟨label', rest, hlabel, h⟩ := h
  split at h
  · cases h
  · next sign rest' hsign =>
    split at h
    · simp only [Option.bind_eq_some_iff, Option.or_eq_some_iff, Option.pure_def, Option.some.injEq] at h
      obtain ⟨value, hvalue, rfl⟩ := h
      have hfront : value <+: rest'.dropWhile classes.isSpace := by
        rcases hvalue with hvalue | ⟨-, hvalue⟩
        · exact takeBearer_prefix hvalue
        · exact takeSecret_prefix hvalue
      obtain ⟨more, hmore⟩ := hfront
      refine ⟨⟨more, ?_⟩, by simp [LabeledSecret.text]⟩
      calc label' ++ (rest.takeWhile classes.isSpace ++ sign :: rest'.takeWhile classes.isSpace) ++ value ++ more
        _ = label' ++ (rest.takeWhile classes.isSpace ++
              (sign :: (rest'.takeWhile classes.isSpace ++ (value ++ more)))) := by simp
        _ = label' ++ (rest.takeWhile classes.isSpace ++ (sign :: rest')) := by
          rw [hmore, List.takeWhile_append_dropWhile]
        _ = text := by rw [← hsign, List.takeWhile_append_dropWhile, takeWord_append hlabel]
    · cases h

theorem matchLabeled_sound (labels : List Text) : Sound (classes.matchLabeled labels) LabeledSecret.text := by
  intro previous text secret h
  unfold matchLabeled at h
  split at h
  · obtain ⟨label, -, hlabel⟩ := List.exists_of_findSome?_eq_some h
    exact takeLabeled_prefix hlabel
  · cases h

end CharClasses

namespace LoadScopedTraceRedactor

variable (redactor : LoadScopedTraceRedactor)

/-- `_labeled_secret_pattern`. -/
def labeledSecretPattern : Option (Pattern LabeledSecret.text) :=
  if redactor.labels.all (·.isEmpty) then none
  else some (.ofMatchAt (redactor.classes.matchLabeled_sound redactor.labels))

/-- `_apply_string`. -/
def applyString (value : Text) : StateM Placeholders Text := do
  let result ← subOf redactor.labeledSecretPattern redactor.replaceLabeledSecret value
  subOf redactor.redactPattern (fun hit => redactor.placeholder (.str (String.ofList hit))) result

mutual

/-- `_apply`. -/
def apply : Json → StateM Placeholders Json
  | .object entries => do
    let entries ← applyEntries entries
    pure (.object entries)
  | .array items => do
    let items ← applyItems items
    pure (.array items)
  | .str s => do
    let text ← redactor.applyString s.toList
    pure (.str (String.ofList text))
  | value => pure value

def applyItems : List Json → StateM Placeholders (List Json)
  | [] => pure []
  | item :: rest => do
    let item ← apply item
    let rest ← applyItems rest
    pure (item :: rest)

def applyEntries : List (String × Json) → StateM Placeholders (List (String × Json))
  | [] => pure []
  | (key, value) :: rest => do
    let value ← (if redactor.policy.matchesKey redactor.lower key then redactor.redactValue value else apply value)
    let rest ← applyEntries rest
    pure ((key, value) :: rest)

end

def redactPayload (value : Json) : StateM Placeholders Json := redactor.apply value

def redactMapping (state : Placeholders) (entries : List (String × Json)) :
    Except String (List (String × Json) × Placeholders) :=
  match redactor.apply (.object entries) state with
  | (.object entries, state) => .ok (entries, state)
  | _ => .error "TypeError"

/-- The payloads of a load, one after the other. -/
def redactPayloads : List Json → StateM Placeholders (List Json)
  | [] => pure []
  | payload :: rest => do
    let payload ← redactor.redactPayload payload
    let rest ← redactPayloads rest
    pure (payload :: rest)

end LoadScopedTraceRedactor


-- What a load promises

/-- A step from a value to one of its parts. -/
inductive JsonStep
  | key (name : String)
  | item (index : Nat)

namespace Json

def at? : Json → List JsonStep → Option Json
  | json, [] => some json
  | .object entries, .key name :: path => (entries.lookup name).bind fun json => json.at? path
  | .array items, .item index :: path => items[index]?.bind fun json => json.at? path
  | _, _ :: _ => none

/-- Equal values, up to the order of keys. -/
def Same (value other : Json) : Prop := value.sorted = other.sorted

end Json

namespace LoadScopedTraceRedactor

variable (redactor : LoadScopedTraceRedactor)

/-- No step of the path goes through a redact key. -/
def Clean (path : List JsonStep) : Prop :=
  ∀ name, .key name ∈ path → redactor.policy.matchesKey redactor.lower name = false

/-- The path goes to what is stored under a redact key, and not through another one. -/
def Keyed (path : List JsonStep) : Prop :=
  ∃ front name, path = front ++ [.key name] ∧ redactor.Clean front ∧ redactor.policy.matchesKey redactor.lower name = true

def labeledPieces (text : Text) : List (Piece Char LabeledSecret) := piecesOf redactor.labeledSecretPattern text

def redactPieces (text : Text) : List (Piece Char Text) := piecesOf redactor.redactPattern text

mutual

/-- No redact key and no pattern finds anything in the value. -/
def Untouched : Json → Prop
  | .object entries => UntouchedEntries entries
  | .array items => UntouchedItems items
  | .str s => hits (redactor.labeledPieces s.toList) = [] ∧ hits (redactor.redactPieces s.toList) = []
  | _ => True

def UntouchedItems : List Json → Prop
  | [] => True
  | item :: rest => Untouched item ∧ UntouchedItems rest

def UntouchedEntries : List (String × Json) → Prop
  | [] => True
  | (key, value) :: rest =>
    redactor.policy.matchesKey redactor.lower key = false ∧ Untouched value ∧ UntouchedEntries rest

end

section

variable (names : Placeholders)

def nameOf (value : Json) : Text := (names.lookup (redactor.identity value)).getD default

def hitName (hit : Text) : Text := redactor.nameOf names (.str (String.ofList hit))

def labeledName (secret : LabeledSecret) : Text := secret.label ++ secret.separator ++ redactor.hitName names secret.value

/-- The text between the two passes. -/
def firstPass (text : Text) : Text := joined (redactor.labeledName names) (redactor.labeledPieces text)

def secondPass (text : Text) : Text := joined (redactor.hitName names) (redactor.redactPieces text)

/-- The first pass inserts the placeholder, with what then stands to its left and to its right. -/
def Inserts (text left placeholder right : Text) : Prop :=
  ∃ before secret after, redactor.labeledPieces text = before ++ .hit secret :: after ∧
    left = joined (redactor.labeledName names) before ++ secret.label ++ secret.separator ∧
      placeholder = redactor.hitName names secret.value ∧ right = joined (redactor.labeledName names) after

/-- The second pass makes of every inserted placeholder that same placeholder. -/
def Intact (text : Text) : Prop :=
  ∀ left placeholder right, redactor.Inserts names text left placeholder right →
    ∃ before middle after, redactor.redactPieces (redactor.firstPass names text) = before ++ middle ++ after ∧
      joined id before = left ∧ joined id middle = placeholder ∧ joined id after = right ∧
        joined (redactor.hitName names) middle = placeholder

/-- A hit of the policy's pattern reaches into an inserted placeholder only if it is this
placeholder, and has it for its own. -/
def Spared (text : Text) : Prop :=
  ∀ left placeholder right, redactor.Inserts names text left placeholder right →
    ∀ before hit after, redactor.redactPieces (redactor.firstPass names text) = before ++ .hit hit :: after →
      Reaches id left placeholder before hit →
        joined id before = left ∧ id hit = placeholder ∧ redactor.hitName names hit = placeholder

/-- Every hit of both passes has a name. -/
def Named (text : Text) : Prop :=
  (∀ secret ∈ hits (redactor.labeledPieces text),
    ∃ name, names.lookup (redactor.identity (.str (String.ofList secret.value))) = some name) ∧
  ∀ hit ∈ hits (redactor.redactPieces (redactor.firstPass names text)),
    ∃ name, names.lookup (redactor.identity (.str (String.ofList hit))) = some name

/-- What the redaction of a load promises: of the payloads, which are taken together as one
array, of what became of them and of the placeholders at the end. -/
structure Faithful (payload output : Json) : Prop where
  /-- A placeholder stands where a value was stored under a redact key, -/
  keyed : ∀ path value, redactor.Keyed path → payload.at? path = some value →
    ∃ n, 0 < n ∧ n ≤ names.length ∧ names.lookup (redactor.identity value) = some (placeholderText n) ∧
      output.at? path = some (.str (String.ofList (placeholderText n)))
  /-- and nothing of that value. -/
  gone : ∀ path step more, redactor.Keyed path → output.at? (path ++ step :: more) = none
  /-- Two such values have the same placeholder exactly if they are equal. -/
  same : ∀ path path' value value', redactor.Keyed path → redactor.Keyed path' → payload.at? path = some value →
    payload.at? path' = some value' → (output.at? path = output.at? path' ↔ value.Same value')
  /-- Different values share no placeholder, wherever they were found. -/
  distinct : ∀ value value' : Json, value.Distinct → value'.Distinct → ∀ name,
    names.lookup (redactor.identity value) = some name → names.lookup (redactor.identity value') = some name →
      value.Same value'
  /-- In a string the hits become placeholders, and those of the first pass stay as they are. -/
  strings : ∀ path s, redactor.Clean path → payload.at? path = some (.str s) → redactor.Named names s.toList ∧
    output.at? path = some (.str (String.ofList (redactor.secondPass names (redactor.firstPass names s.toList)))) ∧
      redactor.Intact names s.toList
  unchanged : ∀ path value, redactor.Clean path → payload.at? path = some value → redactor.Untouched value →
    output.at? path = some value

end

end LoadScopedTraceRedactor

end ChainWeaver
