import ChainWeaver.JsonReaderLaws
import ChainWeaver.TraceImport

/-!
# Traces as lines of JSON

Events written one object a line and imported again. None is lost exactly if no text that is
written as it is has a character at which `splitlines` ends a line (`lossless_iff`).
-/

namespace ChainWeaver.TraceImport

open AgentTraces (TraceEventKind)

/-- The lines that the import goes through, stripped; `none` for a blank one. -/
def strippedLines (text : Text) : List (Option Text) :=
  (splitlines text).map fun line => if (strip line).isEmpty then none else some (strip line)

/-- What the import of lines takes from its surroundings; nothing is redacted. -/
structure LineReader (τ : Type) where
  floats : FloatFormat
  decodeMessage : Text → String
  repr : Json → Except String String
  toDouble : Int → PyFloat
  fromIsoFormat : String → Option τ

/-- Where a line of its own ends that JSON does not escape. -/
def rawLineEnds : List Char := ['\u0085', '\u2028', '\u2029']

namespace LineReader

variable (reader : LineReader τ) (format : DumpFormat)

def decoder : Decoder String Json Text τ Unit where
  ofString := id
  view := viewJson
  loads text :=
    match ChainWeaver.loads reader.floats text with
    | some value => .value value
    | none => .jsonDecodeError (reader.decodeMessage text)
  repr := reader.repr
  toDouble := reader.toDouble
  fromIsoFormat := reader.fromIsoFormat
  redact state entries := .ok (entries, state)

def parse (text : Text) : Except (ImportError String) (List (AgentTraceEvent String Json τ)) :=
  reader.decoder.parseAgentTrace strippedLines () text

/-- A JSON object that is an event: the reader accepts it and can convert its fields. -/
structure EventObject where
  entries : List (String × Json)
  distinct : (Json.object entries).Distinct
  accepted : ∃ args, reader.decoder.Accepted entries args
  importable : reader.decoder.Importable () entries

variable {reader}

namespace EventObject

variable (object : reader.EventObject)

def json : Json := .object object.entries

def line : Text := object.json.dumped reader.floats.toFloatText format

/-- The event has the session, the tool, the arguments and the metadata of the object. -/
structure Describes (object : reader.EventObject) (event : AgentTraceEvent String Json τ) : Prop where
  session : event.sessionId =
    (reader.decoder.optTexts (reader.decoder.get object.entries "session_id")).headD "__default__"
  tool : event.tool = reader.decoder.toolOf object.entries
  args : reader.decoder.argsOf object.entries = some event.args
  metadata : event.metadata = reader.decoder.metadataOf object.entries

/-- Nothing that is written as it is ends a line. -/
def OneLine : Prop := format.ensureAscii = true ∨ ∀ s ∈ object.json.strings, ∀ c ∈ s.toList, c ∉ rawLineEnds

end EventObject

/-- Each object on a line of its own. -/
def jsonl (objects : List reader.EventObject) : Text := objects.flatMap fun object => object.line format ++ ['\n']

/-- One event for each object, in order, as the object has it. -/
def Lossless (objects : List reader.EventObject) : Prop :=
  ∃ events, reader.parse (jsonl format objects) = .ok events ∧ List.Forall₂ EventObject.Describes objects events

variable {format}

-- One record

theorem makeEvent_describes {object : reader.EventObject} {kind : TraceEventKind} {session : Option String}
    {args : List (String × Json)} (hsession : reader.decoder.optStr (reader.decoder.get object.entries "session_id") = .ok session)
    (hargs : reader.decoder.argsOf object.entries = some args)
    (h : reader.decoder.makeEvent kind session outputKeys args (reader.decoder.metadataOf object.entries) object.entries =
      .ok event) : object.Describes event := by
  unfold Decoder.makeEvent at h
  obtain ⟨turnId, -, h⟩ := Attempt.bind_eq_ok.1 h
  obtain ⟨resultStatus, -, h⟩ := Attempt.bind_eq_ok.1 h
  obtain ⟨inputTokens, -, h⟩ := Attempt.bind_eq_ok.1 h
  obtain ⟨outputTokens, -, h⟩ := Attempt.bind_eq_ok.1 h
  obtain ⟨latencyMs, -, h⟩ := Attempt.bind_eq_ok.1 h
  obtain ⟨toolSource, -, h⟩ := Attempt.bind_eq_ok.1 h
  unfold Decoder.validated at h
  split at h
  · obtain rfl := Except.ok.inj h
    refine ⟨?_, rfl, hargs, rfl⟩
    rw [Decoder.optTexts_eq hsession]
    cases session <;> rfl
  · cases h

/-- The object is coerced into an event that describes it. -/
theorem coerceEntries_object (object : reader.EventObject) (line : Nat) :
    ∃ event, reader.decoder.coerceEntries () line object.entries = .ok (event, ()) ∧ object.Describes event := by
  obtain ⟨args, haccepted⟩ := object.accepted
  have hredact : reader.decoder.redactPayloads () args (reader.decoder.metadataOf object.entries) =
      .ok ((args, reader.decoder.metadataOf object.entries), ()) := rfl
  have hcoerced : ∃ event, reader.decoder.coerceEntries () line object.entries = .ok (event, ()) :=
    Decoder.coerceEntries_of_importable object.importable haccepted hredact
  obtain ⟨event, hevent⟩ := hcoerced
  refine ⟨event, hevent, ?_⟩
  obtain ⟨kind, -, h⟩ := Attempt.bind_eq_ok.1 hevent
  obtain ⟨session, hsession, h⟩ := Attempt.bind_eq_ok.1 h
  obtain ⟨-, -, -, hargs⟩ := haccepted
  by_cases htool : kind = .toolCall ∧ reader.decoder.toolOf object.entries = none
  · simp only [if_pos htool] at h
    obtain ⟨_, hthrow, _⟩ := Attempt.bind_eq_ok.1 h
    cases hthrow
  · simp only [if_neg htool, hargs] at h
    obtain ⟨keys, _, h⟩ := Attempt.bind_eq_ok.1 h
    obtain ⟨payloads, hpayloads, h⟩ := Attempt.bind_eq_ok.1 h
    obtain rfl := Except.ok.inj (hredact.symm.trans hpayloads)
    obtain ⟨made, hmade, h⟩ := Attempt.bind_eq_ok.1 h
    obtain ⟨rfl, -⟩ := Prod.mk.inj (Except.ok.inj h)
    exact makeEvent_describes hsession hargs hmade

theorem strip_line (format : DumpFormat) (object : reader.EventObject) : strip (object.line format) = object.line format :=
  strip_eq_self '\x7b' '\x7d' _ (by decide) (by decide)

/-- The line of an object gives its event. -/
theorem parseLines_object (object : reader.EventObject) (line : Nat) (rest : List (Option Text)) :
    ∃ event, object.Describes event ∧ reader.decoder.parseLines () line (some (object.line format) :: rest) =
      (reader.decoder.parseLines () (line + 1) rest).map (event :: ·) := by
  obtain ⟨event, hevent, hdescribes⟩ := coerceEntries_object object line
  refine ⟨event, hdescribes, ?_⟩
  have hloads : reader.decoder.loads (object.line format) = .value object.json := by
    simp only [decoder, EventObject.line, loads_dumped object.json object.distinct]
  have hcoerce : reader.decoder.coerceEvent () line object.json = .ok (event, ()) := hevent
  rw [Decoder.parseLines, hloads]
  dsimp only
  rw [hcoerce]
  change (reader.decoder.parseLines () (line + 1) rest >>= fun events => pure (event :: events)) = _
  cases reader.decoder.parseLines () (line + 1) rest <;> rfl

-- Lines

theorem endsLine_raw (h : c ∈ rawLineEnds) : endsLine c = true ∧ c ≠ '\r' ∧ 0x7f ≤ c.toNat := by
  simp only [rawLineEnds, List.mem_cons, List.not_mem_nil, or_false] at h
  rcases h with rfl | rfl | rfl <;> simp [endsLine]

theorem raw_of_endsLine (hends : endsLine c = true) (hlow : 0x20 ≤ c.toNat) : c ∈ rawLineEnds := by
  have hcode : c.toNat = 0x85 ∨ c.toNat = 0x2028 ∨ c.toNat = 0x2029 := by
    simp only [endsLine, List.contains_iff_mem, List.mem_cons, List.not_mem_nil, or_false] at hends
    omega
  have hchar : ∀ d : Char, c.toNat = d.toNat → c = d := fun d hd => Char.toNat_inj.1 hd
  simp only [rawLineEnds, List.mem_cons, List.not_mem_nil, or_false]
  exact hcode.imp (hchar _) (Or.imp (hchar _) (hchar _))

/-- The text of an object has a line end in it exactly if one of its strings has one that is not escaped. -/
theorem oneLine_iff (object : reader.EventObject) :
    object.OneLine format ↔ ∀ c ∈ object.line format, endsLine c = false := by
  constructor
  · intro h c hc
    by_contra hends
    have hends : endsLine c = true := by simpa using hends
    rcases Json.mem_dumped object.json hc with hvisible | ⟨hascii, hlow, s, hs, hmem⟩
    · rw [hvisible.not_endsLine] at hends
      cases hends
    · rcases h with hescaped | hraw
      · rw [hascii] at hescaped
        cases hescaped
      · exact hraw s hs c hmem (raw_of_endsLine hends hlow)
  · intro h
    cases hascii : format.ensureAscii with
    | true => exact .inl hascii
    | false =>
      refine .inr fun s hs c hc hraw => ?_
      obtain ⟨hends, -, hhigh⟩ := endsLine_raw hraw
      rw [h c (Json.mem_dumped_of_mem hascii hhigh object.json hs hc)] at hends
      cases hends

theorem strippedLines_oneLine {object : reader.EventObject} (h : object.OneLine format) (rest : Text) :
    strippedLines (object.line format ++ '\n' :: rest) = some (object.line format) :: strippedLines rest := by
  have hstrip := strip_line format object
  have hsome : (object.line format).isEmpty = false := rfl
  rw [strippedLines, splitlines_line (oneLine_iff object |>.1 h), List.map_cons, hstrip, hsome]
  rfl

theorem strip_append (hc : Pointer.isSpace c = false) (text : Text) :
    ∃ trailing, c :: text = strip (c :: text) ++ trailing ∧ strip (c :: text) ≠ [] := by
  have hleft : (c :: text).dropWhile Pointer.isSpace = c :: text := List.dropWhile_cons_of_neg (by simp [hc])
  have hsplit := List.takeWhile_append_dropWhile (p := Pointer.isSpace) (l := (c :: text).reverse)
  have hwhole := congrArg List.reverse hsplit
  rw [List.reverse_append, List.reverse_reverse] at hwhole
  refine ⟨((c :: text).reverse.takeWhile Pointer.isSpace).reverse, ?_, ?_⟩
  · rw [strip, hleft]
    exact hwhole.symm
  · rw [strip, hleft]
    intro hempty
    have hall : ∀ d ∈ (c :: text).reverse, Pointer.isSpace d = true := by
      rw [← hsplit, List.reverse_eq_nil_iff.1 hempty, List.append_nil]
      exact fun d hd => List.mem_takeWhile_imp hd
    have hspace := hall c (by simp)
    rw [hc] at hspace
    cases hspace

/-- Where a line end in the text of an object is not escaped, the first line is no JSON. -/
theorem strippedLines_broken {object : reader.EventObject} (h : ¬object.OneLine format) (rest : Text) :
    ∃ piece lines, strippedLines (object.line format ++ '\n' :: rest) = some piece :: lines ∧
      ChainWeaver.loads reader.floats piece = none := by
  rw [oneLine_iff] at h
  have hsplit : ∃ piece c after, object.line format = piece ++ c :: after ∧ (∀ d ∈ piece, endsLine d = false) ∧
      endsLine c = true := by
    obtain ⟨c, hc, hends⟩ : ∃ c ∈ object.line format, endsLine c = true := by simpa using h
    obtain ⟨d, hd⟩ : ∃ d, (object.line format).find? endsLine = some d :=
      Option.isSome_iff_exists.1 (List.find?_isSome.2 ⟨c, hc, hends⟩)
    obtain ⟨hfound, piece, after, hline, hnone⟩ := List.find?_eq_some_iff_append.1 hd
    exact ⟨piece, d, after, hline, fun e he => by simpa using hnone e he, hfound⟩
  obtain ⟨piece, c, after, hline, hpiece, hends⟩ := hsplit
  have hreturn : c ≠ '\r' := by
    rintro rfl
    have hmem : '\r' ∈ object.line format := by simp [hline]
    rcases Json.mem_dumped object.json hmem with hvisible | ⟨-, hlow, -⟩
    · exact absurd hvisible (by decide)
    · exact absurd hlow (by decide)
  obtain ⟨first, rfl⟩ : ∃ first, piece = '\x7b' :: first := by
    cases piece with
    | nil =>
      obtain rfl : '\x7b' = c := (List.cons.inj hline).1
      cases hends
    | cons d first =>
      obtain rfl : '\x7b' = d := (List.cons.inj hline).1
      exact ⟨first, rfl⟩
  have hbrace : Pointer.isSpace '\x7b' = false := by decide
  obtain ⟨trailing, hstrip, hsome⟩ := strip_append hbrace first
  have hmore : object.line format = strip ('\x7b' :: first) ++ (trailing ++ c :: after) := by
    rw [hline, ← List.append_assoc, ← hstrip]
  have hlines : strippedLines (object.line format ++ '\n' :: rest) =
      some (strip ('\x7b' :: first)) :: strippedLines (after ++ '\n' :: rest) := by
    have hsplitlines : splitlines (object.line format ++ '\n' :: rest) =
        ('\x7b' :: first) :: splitlines (after ++ '\n' :: rest) := by
      rw [hline, List.append_assoc]
      exact splitlines_end hpiece hends hreturn
    rw [strippedLines, hsplitlines, List.map_cons, if_neg (by simpa using hsome)]
    rfl
  exact ⟨_, _, hlines, loads_eq_none object.distinct hmore hsome (by simp)⟩

-- Lossless traces

theorem parseLines_jsonl (objects : List reader.EventObject) (line : Nat) :
    (∃ events, reader.decoder.parseLines () line (strippedLines (jsonl format objects)) = .ok events ∧
      List.Forall₂ EventObject.Describes objects events) ↔ ∀ object ∈ objects, object.OneLine format := by
  induction objects generalizing line with
  | nil => exact iff_of_true ⟨[], rfl, .nil⟩ (by simp)
  | cons object rest ih =>
    have hjsonl : jsonl format (object :: rest) = object.line format ++ '\n' :: jsonl format rest := by
      simp [jsonl]
    rw [List.forall_mem_cons, hjsonl, ← ih (line + 1)]
    by_cases hone : object.OneLine format
    · obtain ⟨event, hdescribes, hparse⟩ := parseLines_object object line (strippedLines (jsonl format rest))
      rw [strippedLines_oneLine hone, hparse, and_iff_right hone]
      constructor
      · rintro ⟨events, hevents, hall⟩
        cases hlater : reader.decoder.parseLines () (line + 1) (strippedLines (jsonl format rest)) with
        | error e =>
          rw [hlater] at hevents
          cases hevents
        | ok later =>
          rw [hlater] at hevents
          obtain rfl := Except.ok.inj hevents
          obtain ⟨-, hrest⟩ := List.forall₂_cons.1 hall
          exact ⟨later, rfl, hrest⟩
      · rintro ⟨later, hlater, hrest⟩
        rw [hlater]
        exact ⟨event :: later, rfl, .cons hdescribes hrest⟩
    · obtain ⟨piece, lines, hlines, hnone⟩ := strippedLines_broken hone (jsonl format rest)
      refine iff_of_false ?_ fun hall => hone hall.1
      rintro ⟨events, hevents, -⟩
      simp only [hlines, Decoder.parseLines, decoder, hnone] at hevents
      cases hevents

/-- The events come back exactly if non-ASCII text is escaped, or no string of an object has a
character in it that ends a line and is written as it is. -/
theorem lossless_iff (reader : LineReader τ) (format : DumpFormat) (objects : List reader.EventObject) :
    Lossless format objects ↔ format.ensureAscii = true ∨
      ∀ object ∈ objects, ∀ s ∈ object.json.strings, ∀ c ∈ s.toList, c ∉ rawLineEnds := by
  refine (parseLines_jsonl objects 1).trans ?_
  unfold EventObject.OneLine
  cases format.ensureAscii with
  | true => simp
  | false => simp

-- A lost event

def plainReader : LineReader Unit where
  floats := .fraction
  decodeMessage _ := "Expecting value"
  repr _ := .ok ""
  toDouble i := .finite i
  fromIsoFormat _ := none

/-- A search for a text with a line separator in it. -/
def searchEntries : List (String × Json) := [("tool", .str "search"), ("args", .object [("q", .str "a\u2028b")])]

theorem searchEntries_importable : plainReader.decoder.Importable () searchEntries where
  rawKind rawKind h := by cases h
  session kind h present hpresent := by cases hpresent
  accepted args haccepted := by
    refine ⟨fun items h => (by cases h), ⟨_, rfl⟩, ?_, fun _ _ _ _ _ _ => rfl⟩
    exact ⟨fun _ h => (by cases h), fun _ h => (by cases h), fun _ h => (by cases h), fun _ h => (by cases h),
      fun _ h => (by cases h), fun _ h => (by cases h)⟩

def searchObject : plainReader.EventObject where
  entries := searchEntries
  distinct := by simp [searchEntries, Json.Distinct, Json.DistinctEntries]
  accepted := ⟨[("q", .str "a\u2028b")], .toolCall, rfl, by decide, rfl⟩
  importable := searchEntries_importable

/-- The line separator is not escaped, and the import ends the line there. -/
theorem jsonl_loses : ¬∀ (reader : LineReader Unit) (format : DumpFormat) (objects : List reader.EventObject),
    Lossless format objects := by
  intro h
  have hone := (parseLines_jsonl [searchObject] 1).1 (h plainReader { ensureAscii := false } [searchObject])
  rcases hone searchObject (.head _) with hascii | hraw
  · cases hascii
  · have hstring : "a\u2028b" ∈ searchObject.json.strings := by
      simp [searchObject, EventObject.json, searchEntries, Json.strings, Json.stringsEntries]
    exact hraw _ hstring '\u2028' (by decide) (by decide)

end LineReader

end ChainWeaver.TraceImport
