import ChainWeaver.Fixture

/-!
# What a replay serves

A call is served the recording whose rank, among the recordings equal to its
input, is the number of earlier calls with the same text. A replay is faithful
exactly if this is always the recording of the call itself.
-/

namespace ChainWeaver

namespace Value

theorem numericEntries_eq_map (entries : List (String × Value)) :
    numericEntries entries = entries.map fun entry => (entry.1, entry.2.numeric) := by
  induction entries with
  | nil => rfl
  | cons entry rest ih => rw [numericEntries, ih, List.map_cons]

mutual

theorem numeric_sorted (value : Value) : value.sorted.numeric = value.numeric.sorted := by
  cases value with
  | float f =>
    cases f with
    | finite value =>
      simp only [sorted, numeric]
      split <;> rfl
    | _ => rfl
  | list items | tuple items | set items => rw [sorted, numeric, numeric, sorted, numericItems_sorted items]
  | dict entries =>
    rw [sorted, numeric, numeric, sorted, numericEntries_eq_map, ← SortedEntries.sort_map,
      ← numericEntries_eq_map, numericEntries_sorted entries]
  | _ => rfl

theorem numericItems_sorted (items : List Value) :
    numericItems (sortedItems items) = sortedItems (numericItems items) := by
  cases items with
  | nil => rfl
  | cons item rest =>
    rw [sortedItems, numericItems, numericItems, sortedItems, numeric_sorted item, numericItems_sorted rest]

theorem numericEntries_sorted (entries : List (String × Value)) :
    numericEntries (sortedEntries entries) = sortedEntries (numericEntries entries) := by
  match entries with
  | [] => rfl
  | (key, value) :: rest =>
    rw [sortedEntries, numericEntries, numericEntries, sortedEntries, numeric_sorted value,
      numericEntries_sorted rest]

end

@[simp] theorem equal_sorted_left (a b : Value) : a.sorted.equal b = a.equal b := by
  simp only [equal, numeric_sorted, sorted_sorted]

@[simp] theorem equal_sorted_right (a b : Value) : a.equal b.sorted = a.equal b := by
  simp only [equal, numeric_sorted, sorted_sorted]

mutual

theorem plain_jsonSafe (text : StrText) (value : Value) : (value.jsonSafe text).plain true = true := by
  cases value with
  | list items | tuple items => exact plainItems_jsonSafe text items
  | dict entries => exact plainEntries_jsonSafe text entries
  | float f => cases f <;> rfl
  | _ => rfl

theorem plainItems_jsonSafe (text : StrText) (items : List Value) :
    plainItems true (jsonSafeItems text items) = true := by
  cases items with
  | nil => rfl
  | cons item rest =>
    rw [jsonSafeItems, plainItems, plain_jsonSafe text item, plainItems_jsonSafe text rest]
    rfl

theorem plainEntries_jsonSafe (text : StrText) (entries : List (String × Value)) :
    plainEntries true (jsonSafeEntries text entries) = true := by
  match entries with
  | [] => rfl
  | (key, value) :: rest =>
    rw [jsonSafeEntries, plainEntries, plain_jsonSafe text value, plainEntries_jsonSafe text rest]
    rfl

end

theorem jsonSafeEntries_keys (text : StrText) (entries : List (String × Value)) :
    (jsonSafeEntries text entries).map Prod.fst = entries.map Prod.fst := by
  induction entries with
  | nil => rfl
  | cons entry rest ih => rw [jsonSafeEntries, List.map_cons, List.map_cons, ih]

end Value

theorem entries_jsonSafe (text : StrText) (data : Dict) :
    (jsonSafe text data).entries = Value.jsonSafeEntries text data.entries := by
  refine OrderedDict.entries_ofList ?_
  rw [Value.jsonSafeEntries_keys]
  exact data.nodup

namespace RedactionPolicy

variable {lower : String → String} {policy : RedactionPolicy}

mutual

theorem plain_apply (value : Value) (h : value.plain true = true) : (policy.apply lower value).plain true = true := by
  cases value with
  | list items => exact plainItems_apply items h
  | dict entries => exact plainEntries_apply entries h
  | tuple | set | obj => cases h
  | _ => exact h

theorem plainItems_apply (items : List Value) (h : Value.plainItems true items = true) :
    Value.plainItems true (policy.applyItems lower items) = true := by
  cases items with
  | nil => rfl
  | cons item rest =>
    rw [Value.plainItems, Bool.and_eq_true] at h
    rw [applyItems, Value.plainItems, plain_apply item h.1, plainItems_apply rest h.2]
    rfl

theorem plainEntries_apply (entries : List (String × Value)) (h : Value.plainEntries true entries = true) :
    Value.plainEntries true (policy.applyEntries lower entries) = true := by
  match entries with
  | [] => rfl
  | (key, value) :: rest =>
    rw [Value.plainEntries, Bool.and_eq_true] at h
    rw [applyEntries, Value.plainEntries, plainEntries_apply rest h.2, Bool.and_true]
    split
    · rfl
    · exact plain_apply value h.1

end

end RedactionPolicy

-- Saved and loaded

namespace RecordReplay

variable {session : RecordReplay} {interactions : List Interaction}

/-- What a reader makes of an interaction. -/
def Interaction.reread (item : Interaction) : Interaction := ⟨item.toolName, sortedDict item.input, sortedDict item.output⟩

/-- The recording of a call in the fixture. -/
def stored (session : RecordReplay) (call : ToolCall) (output : Dict) : Interaction :=
  Interaction.reread (session.redacted
    ⟨call.toolName, jsonSafe session.recording call.input, jsonSafe session.recording output⟩)

/-- The interactions hold nothing that JSON has no form for. -/
def Plain (item : Interaction) : Prop :=
  Value.plainEntries true item.input.entries = true ∧ Value.plainEntries true item.output.entries = true

theorem plain_redacted (h : Plain item) : Plain (session.redacted item) :=
  ⟨RedactionPolicy.plainEntries_apply _ h.1, RedactionPolicy.plainEntries_apply _ h.2⟩

theorem plain_payload (h : Plain item) : (Interaction.payload item).plain true = true := by
  simp [Interaction.payload, Value.plain, Value.plainEntries, h.1, h.2]

theorem plainItems_payload (h : ∀ item ∈ interactions, Plain item) :
    Value.plainItems true (interactions.map fun item => Interaction.payload (session.redacted item)) = true := by
  induction interactions with
  | nil => rfl
  | cons item rest ih =>
    rw [List.forall_mem_cons] at h
    rw [List.map_cons, Value.plainItems, plain_payload (plain_redacted h.1), ih h.2]
    rfl

theorem sorted_dict (data : Dict) : (Value.dict data.entries).sorted = .dict (sortedDict data).entries := by
  rw [Value.sorted, entries_sortedDict]

theorem ofList_entries (data : Dict) : OrderedDict.ofList data.entries = data :=
  OrderedDict.ext_entries (OrderedDict.entries_ofList data.nodup)

theorem validateInteraction_payload (session : RecordReplay) (idx : Nat) (item : Interaction) :
    session.validateInteraction idx (Interaction.payload item).sorted = .ok (Interaction.reread item) := by
  have hname : (SortedEntries.sort (Value.sortedEntries [("tool_name", .str item.toolName),
      ("input", .dict item.input.entries), ("output", .dict item.output.entries)])).lookup "tool_name" =
      some (.str item.toolName) := by
    rw [SortedEntries.lookup_sort]
    rfl
  have hinput : (SortedEntries.sort (Value.sortedEntries [("tool_name", .str item.toolName),
      ("input", .dict item.input.entries), ("output", .dict item.output.entries)])).lookup "input" =
      some (.dict (sortedDict item.input).entries) := by
    rw [SortedEntries.lookup_sort, ← sorted_dict]
    rfl
  have houtput : (SortedEntries.sort (Value.sortedEntries [("tool_name", .str item.toolName),
      ("input", .dict item.input.entries), ("output", .dict item.output.entries)])).lookup "output" =
      some (.dict (sortedDict item.output).entries) := by
    rw [SortedEntries.lookup_sort, ← sorted_dict]
    rfl
  rw [Interaction.payload, Value.sorted]
  simp only [validateInteraction, List.filter_cons, List.filter_nil, hname, hinput, houtput, Option.isNone_some,
    Bool.false_eq_true, if_false, ne_eq, not_true_eq_false, ofList_entries]
  rfl

theorem validateInteractions_payloads (session : RecordReplay) (idx : Nat) (interactions : List Interaction) :
    session.validateInteractions idx (interactions.map fun item => (Interaction.payload item).sorted) =
      .ok (interactions.map Interaction.reread) := by
  induction interactions generalizing idx with
  | nil => rfl
  | cons item rest ih =>
    rw [List.map_cons, validateInteractions, validateInteraction_payload, ih]
    rfl

/-- A fixture is loaded as it was saved, redacted and up to key order. -/
theorem load_saved (session : RecordReplay) (h : ∀ item ∈ interactions, Plain item) :
    ∃ document, session.saveFixture interactions = some document ∧
      session.loadFixture document = .ok (interactions.map fun item => Interaction.reread (session.redacted item)) := by
  let items := interactions.map fun item => Interaction.payload (session.redacted item)
  have hplain : (Value.dict [("version", .int fixtureFormatVersion), ("interactions", .list items)]).plain
      session.writer.nonFinite = true := by
    simp only [Value.plain, Value.plainEntries, Bool.true_and, Bool.and_true]
    exact plainItems_payload h
  obtain ⟨json, hwrite, hread⟩ := JsonWriter.read_of_plain _ hplain
  refine ⟨json.sorted, by rw [saveFixture, hwrite]; rfl, ?_⟩
  have hversion : (SortedEntries.sort (Value.sortedEntries [("version", .int fixtureFormatVersion),
      ("interactions", .list items)])).lookup "version" = some (.int fixtureFormatVersion) := by
    rw [SortedEntries.lookup_sort]
    rfl
  have hitems : (SortedEntries.sort (Value.sortedEntries [("version", .int fixtureFormatVersion),
      ("interactions", .list items)])).lookup "interactions" = some (.list (items.map Value.sorted)) := by
    rw [SortedEntries.lookup_sort, ← Value.sortedItems_eq_map]
    rfl
  rw [loadFixture, Json.read_sorted, hread, Value.sorted]
  simp only [hversion, hitems, Option.getD_some]
  rw [if_neg (by decide), List.map_map]
  simpa [Function.comp_def] using validateInteractions_payloads session 0 (interactions.map session.redacted)

-- The recordings of a session

/-- The recordings in the fixture of a session. -/
def loaded (session : RecordReplay) (calls : Recorded) : List Interaction :=
  calls.filterMap fun call => call.2.map (session.stored call.1)

theorem plain_recorded (interactions : List Interaction) (calls : Recorded) (h : ∀ item ∈ interactions, Plain item) :
    ∀ item ∈ calls.foldl session.record interactions, Plain item := by
  induction calls generalizing interactions with
  | nil => exact h
  | cons call rest ih =>
    refine ih _ ?_
    unfold record
    cases call.2 with
    | none => exact h
    | some output =>
      simp only [List.forall_mem_append, List.forall_mem_singleton]
      refine ⟨h, ?_⟩
      simp only [Plain, entries_jsonSafe]
      exact ⟨Value.plainEntries_jsonSafe _ _, Value.plainEntries_jsonSafe _ _⟩

theorem reread_recorded (interactions : List Interaction) (calls : Recorded) :
    (calls.foldl session.record interactions).map (fun item => Interaction.reread (session.redacted item)) =
      interactions.map (fun item => Interaction.reread (session.redacted item)) ++ session.loaded calls := by
  induction calls generalizing interactions with
  | nil => simp [loaded]
  | cons call rest ih =>
    rw [List.foldl_cons, ih]
    unfold record
    cases houtput : call.2 with
    | none => simp [loaded, houtput]
    | some output => simp [loaded, houtput, stored]

theorem load_recorded (session : RecordReplay) (calls : Recorded) :
    ∃ document, session.saveFixture (session.recordAll calls) = some document ∧
      session.loadFixture document = .ok (session.loaded calls) := by
  obtain ⟨document, hsave, hload⟩ := load_saved session (plain_recorded [] calls (List.forall_mem_nil _))
  refine ⟨document, hsave, ?_⟩
  rw [hload, reread_recorded]
  rfl

-- Cursors

/-- The interaction is one that a call with this key is served. -/
def keyMatches (key : CanonicalKey) (item : Interaction) : Bool :=
  item.toolName = key.1 && (Value.dict item.input.entries).equal key.2

theorem isMatch_eq (toolName : String) (attemptedInput : Dict) :
    isMatch toolName attemptedInput = keyMatches (canonicalKey toolName attemptedInput) := by
  funext item
  rw [isMatch, keyMatches, canonicalKey, Value.equal_sorted_right]

/-- The key of a call that is replayed. -/
def replayKey (session : RecordReplay) (call : ToolCall) : CanonicalKey :=
  canonicalKey call.toolName (session.attempted call)

/-- How many of the calls have the key. -/
def asked (session : RecordReplay) (key : CanonicalKey) (calls : List ToolCall) : Nat :=
  calls.countP fun call => session.replayKey call = key

theorem consumeRecording_cases (session : RecordReplay) (interactions : List Interaction) (cursors : Cursors)
    (call : ToolCall) :
    (∃ idx item, Cursor.find (keyMatches (session.replayKey call)) interactions (cursors (session.replayKey call)) =
        some (idx, item) ∧
      session.consumeRecording interactions cursors call.toolName (session.attempted call) =
        (.ok item.output, Function.update cursors (session.replayKey call) (idx + 1))) ∨
    Cursor.find (keyMatches (session.replayKey call)) interactions (cursors (session.replayKey call)) = none ∧
      ∃ error, session.consumeRecording interactions cursors call.toolName (session.attempted call) =
        (.error error, cursors) := by
  unfold consumeRecording
  rw [isMatch_eq]
  cases hfind : Cursor.find (keyMatches (session.replayKey call)) interactions (cursors (session.replayKey call)) with
  | none => exact .inr ⟨rfl, _, by rw [replayKey] at hfind; simp only [hfind]; rfl⟩
  | some result =>
    obtain ⟨idx, item⟩ := result
    exact .inl ⟨idx, item, rfl, by rw [replayKey] at hfind; simp only [hfind]; rfl⟩

/-- Each cursor is behind as many matching recordings as its key has been asked for. -/
def Behind (session : RecordReplay) (interactions : List Interaction) (calls : List ToolCall) (cursors : Cursors) :
    Prop :=
  ∀ key, Cursor.At (keyMatches key) interactions (session.asked key calls) (cursors key)

theorem asked_concat (calls : List ToolCall) (call : ToolCall) : session.asked key (calls ++ [call]) =
    session.asked key calls + if session.replayKey call = key then 1 else 0 := by
  simp [asked, List.countP_append, List.countP_singleton]

theorem Behind.step (h : session.Behind interactions calls cursors) (call : ToolCall) :
    session.Behind interactions (calls ++ [call])
      (session.consumeRecording interactions cursors call.toolName (session.attempted call)).2 := by
  intro key
  rw [asked_concat]
  by_cases hkey : session.replayKey call = key
  · subst hkey
    rw [if_pos rfl]
    obtain ⟨idx, item, hfind, hconsume⟩ | ⟨hfind, error, hconsume⟩ :=
      consumeRecording_cases session interactions cursors call
    · rw [hconsume]
      dsimp only
      rw [Function.update_self]
      exact (h _).served hfind
    · rw [hconsume]
      exact (h _).missed hfind
  · rw [if_neg hkey]
    obtain ⟨idx, item, -, hconsume⟩ | ⟨-, error, hconsume⟩ :=
      consumeRecording_cases session interactions cursors call
    · rw [hconsume]
      dsimp only
      rw [Function.update_of_ne (Ne.symm hkey)]
      exact h key
    · rw [hconsume]
      exact h key

theorem replayer_behind (session : RecordReplay) (interactions : List Interaction) (calls : List ToolCall) :
    session.Behind interactions calls ((session.replayer interactions).after calls) := by
  induction calls using List.reverseRecOn with
  | nil => exact fun key => .zero
  | append_singleton calls call ih =>
    rw [Machine.after_concat]
    exact ih.step call

/-- A call is served the recording of its rank. -/
theorem served_iff (before : List ToolCall) (call : ToolCall) (after : List ToolCall) :
    ((session.replayer interactions).answers (before ++ call :: after))[before.length]? = some (.ok served) ↔
      ∃ item, (interactions.filter (keyMatches (session.replayKey call)))[session.asked (session.replayKey call) before]? =
        some item ∧ item.output = served := by
  have hat := replayer_behind session interactions before (session.replayKey call)
  rw [Machine.answers_getElem?, ← hat.find_eq, Option.some.injEq]
  change (session.consumeRecording interactions _ call.toolName (session.attempted call)).1 = _ ↔ _
  obtain ⟨idx, item, hfind, hconsume⟩ | ⟨hfind, error, hconsume⟩ := consumeRecording_cases session interactions
    ((session.replayer interactions).after before) call
  · rw [hconsume]
    simp [hfind]
  · rw [hconsume]
    simp [hfind]

-- Faithful replays

/-- The fixture of the recording session is loaded, and each call that was recorded is
served its own output, redacted. -/
def Faithful (session : RecordReplay) (calls : Recorded) : Prop :=
  ∃ document interactions, session.saveFixture (session.recordAll calls) = some document ∧
    session.loadFixture document = .ok interactions ∧
    ∀ before call output after, calls = before ++ (call, some output) :: after →
      ∃ served, ((session.replayer interactions).answers (calls.map Prod.fst))[before.length]? = some (.ok served) ∧
        sortedDict served = sortedDict (session.redaction.redact session.lower (jsonSafe session.recording output))

/-- The input of a call in the fixture. -/
def storedInput (session : RecordReplay) (call : ToolCall) : Dict :=
  session.redaction.redact session.lower (jsonSafe session.recording call.input)

/-- The recording of the one call matches the other call. -/
def Serves (session : RecordReplay) (recorded call : ToolCall) : Bool :=
  recorded.toolName = call.toolName &&
    (Value.dict (session.storedInput recorded).entries).equal (.dict (session.attempted call).entries)

theorem keyMatches_stored (recorded call : ToolCall) (output : Dict) :
    keyMatches (session.replayKey call) (session.stored recorded output) = session.Serves recorded call := by
  rw [keyMatches, replayKey, canonicalKey, Value.equal_sorted_right, Serves]
  change (_ && (Value.dict (sortedDict (session.storedInput recorded)).entries).equal _) = _
  rw [← sorted_dict, Value.equal_sorted_left]
  rfl

/-- Calls and whether they return. -/
abbrev Calls := List (ToolCall × Bool)

/-- Each call that returns is matched by its own recording, and as many earlier calls
have its text as there are earlier recordings that match it. -/
def Aligned (session : RecordReplay) (calls : Calls) : Prop :=
  ∀ before call after, calls = before ++ (call, true) :: after →
    session.Serves call call = true ∧
      session.asked (session.replayKey call) (before.map Prod.fst) =
        before.countP fun earlier => earlier.2 && session.Serves earlier.1 call

/-- What returned, without the outputs. -/
def shape (calls : Recorded) : Calls := calls.map fun call => (call.1, call.2.isSome)

theorem count_loaded (calls : Recorded) (call : ToolCall) :
    ((session.loaded calls).filter (keyMatches (session.replayKey call))).length =
      (shape calls).countP fun earlier => earlier.2 && session.Serves earlier.1 call := by
  induction calls with
  | nil => rfl
  | cons first rest ih =>
    obtain ⟨recorded, outcome⟩ := first
    cases outcome with
    | none => simpa [loaded, shape] using ih
    | some output =>
      simp only [loaded, shape, List.filterMap_cons, Option.map_some, List.filter_cons, keyMatches_stored,
        List.map_cons, Option.isSome_some] at ih ⊢
      rw [List.countP_cons]
      split <;> simp_all

theorem loaded_split (before after : Recorded) (call : ToolCall) (output : Dict) :
    session.loaded (before ++ (call, some output) :: after) =
      session.loaded before ++ session.stored call output :: session.loaded after := by
  simp [loaded]

/-- A call that is aligned is served its own recording. -/
theorem Aligned.faithful (h : session.Aligned (shape calls)) : session.Faithful calls := by
  obtain ⟨document, hsave, hload⟩ := load_recorded session calls
  refine ⟨document, _, hsave, hload, ?_⟩
  rintro before call output after rfl
  obtain ⟨hown, hcount⟩ := h (shape before) call (shape after) (by simp [shape])
  refine ⟨(session.stored call output).output, ?_, by simp [stored, Interaction.reread, redacted]⟩
  have hlength : before.length = (before.map Prod.fst).length := (List.length_map _).symm
  rw [List.map_append, List.map_cons, hlength, served_iff]
  refine ⟨_, ?_, rfl⟩
  have hcalls : (shape before).map Prod.fst = before.map Prod.fst := by simp [shape]
  rw [hcalls, ← count_loaded] at hcount
  rw [loaded_split, List.filter_append, List.filter_cons_of_pos (by rw [keyMatches_stored, hown]), hcount,
    List.getElem?_append_right (Nat.le_refl _), Nat.sub_self]
  rfl

-- Outputs that tell the calls apart: redaction leaves keys as they are.
def tagName (idx : Nat) : String := String.ofList (List.replicate idx 'a')

def tag (idx : Nat) : Dict := .ofList [(tagName idx, .null)]

/-- A session with these calls, each output marked by its position. -/
def tagged (idx : Nat) : Calls → Recorded
  | [] => []
  | (call, succeeded) :: rest => (call, if succeeded then some (tag idx) else none) :: tagged (idx + 1) rest

theorem shape_tagged (idx : Nat) (calls : Calls) : shape (tagged idx calls) = calls := by
  induction calls generalizing idx with
  | nil => rfl
  | cons call rest ih =>
    obtain ⟨call, succeeded⟩ := call
    have ih := ih (idx + 1)
    simp only [shape, tagged, List.map_cons] at ih ⊢
    rw [ih]
    cases succeeded <;> rfl

theorem tagged_append (idx : Nat) (first second : Calls) :
    tagged idx (first ++ second) = tagged idx first ++ tagged (idx + first.length) second := by
  induction first generalizing idx with
  | nil => rfl
  | cons call rest ih =>
    obtain ⟨call, succeeded⟩ := call
    simp only [List.cons_append, tagged, ih, List.length_cons]
    congr 3
    omega

theorem keys_output_tag (call : ToolCall) (idx : Nat) :
    (session.stored call (tag idx)).output.keys = [tagName idx] := by
  obtain ⟨value, hentries⟩ : ∃ value, (session.redaction.redact session.lower
      (jsonSafe session.recording (tag idx))).entries = [(tagName idx, value)] := by
    refine ⟨if session.redaction.matchesKey session.lower (tagName idx) then .str session.redaction.redactReplacement
      else .null, ?_⟩
    change session.redaction.applyEntries session.lower (jsonSafe session.recording (tag idx)).entries = _
    rw [entries_jsonSafe]
    rfl
  change (sortedDict (session.redaction.redact session.lower _)).entries.map Prod.fst = _
  rw [entries_sortedDict, hentries]
  rfl

theorem tagName_injective (h : tagName i = tagName j) : i = j := by
  have hlength := congrArg (fun name : String => name.toList.length) h
  simpa [tagName] using hlength

/-- The recordings of a part of the session carry the positions of its calls. -/
theorem tags_loaded (idx : Nat) (calls : Calls) (h : item ∈ session.loaded (tagged idx calls)) :
    ∃ call position, idx ≤ position ∧ position < idx + calls.length ∧ item = session.stored call (tag position) := by
  induction calls generalizing idx with
  | nil => cases h
  | cons first rest ih =>
    obtain ⟨own, succeeded⟩ := first
    have hrest : item ∈ session.loaded (tagged (idx + 1) rest) → ∃ call position, idx ≤ position ∧
        position < idx + (rest.length + 1) ∧ item = session.stored call (tag position) := by
      intro hmem
      obtain ⟨call, position, hle, hlt, hitem⟩ := ih (idx + 1) hmem
      exact ⟨call, position, by omega, by omega, hitem⟩
    cases succeeded with
    | false => exact hrest (by simpa [loaded, tagged] using h)
    | true =>
      simp only [loaded, tagged, if_true, List.filterMap_cons, Option.map_some, List.mem_cons] at h
      obtain rfl | h := h
      · exact ⟨own, idx, Nat.le_refl _, by simp, rfl⟩
      · exact hrest h

/-- A recording whose output is marked with a position is at this position. -/
theorem position_of_output (hserved : sortedDict (session.stored other (tag position)).output =
    sortedDict (session.redaction.redact session.lower (jsonSafe session.recording (tag idx)))) : position = idx := by
  have hkeys := congrArg OrderedDict.keys hserved
  have hother : sortedDict (session.stored other (tag position)).output = (session.stored other (tag position)).output :=
    sortedDict_sortedDict _
  have hown : sortedDict (session.redaction.redact session.lower (jsonSafe session.recording (tag idx))) =
      (session.stored other (tag idx)).output := rfl
  rw [hother, hown, keys_output_tag, keys_output_tag, List.cons.injEq] at hkeys
  exact tagName_injective hkeys.1

/-- Where the marked outputs are served to their calls, the calls are aligned. -/
theorem Faithful.aligned (h : session.Faithful (tagged 0 calls)) : session.Aligned calls := by
  obtain ⟨document, interactions, hsave, hload, hserved⟩ := h
  obtain ⟨document', hsave', hload'⟩ := load_recorded session (tagged 0 calls)
  obtain rfl := Option.some.inj (hsave.symm.trans hsave')
  obtain rfl := Except.ok.inj (hload.symm.trans hload')
  rintro before call after rfl
  have hsplit : tagged 0 (before ++ (call, true) :: after) =
      tagged 0 before ++ (call, some (tag before.length)) :: tagged (before.length + 1) after := by
    rw [tagged_append, tagged, if_pos rfl, Nat.zero_add]
  have hshape := shape_tagged 0 before
  have hlength : (tagged 0 before).length = before.length := by
    rw [← congrArg List.length hshape, shape, List.length_map]
  have hcalls : before.map Prod.fst = (tagged 0 before).map Prod.fst := by
    rw [← congrArg (List.map Prod.fst) hshape, shape, List.map_map]
    rfl
  obtain ⟨served, hanswer, hout⟩ := hserved _ _ _ _ hsplit
  have hown : (tagged 0 before).length = ((tagged 0 before).map Prod.fst).length := (List.length_map _).symm
  rw [hsplit, List.map_append, List.map_cons, hown, served_iff, ← hcalls] at hanswer
  dsimp only at hanswer
  obtain ⟨item, hitem, rfl⟩ := hanswer
  have hposition : ∀ other position, item = session.stored other (tag position) → position = before.length := by
    rintro other position rfl
    exact position_of_output hout
  rw [← congrArg (List.countP _) hshape, ← count_loaded]
  rw [loaded_split, List.filter_append, List.getElem?_append] at hitem
  split at hitem
  next hlt =>
    obtain ⟨other, position, -, hbefore, hstored⟩ :=
      tags_loaded 0 before (List.mem_filter.1 (List.mem_of_getElem? hitem)).1
    have := hposition other position hstored
    omega
  next hge =>
    have hafter : item ∉ session.loaded (tagged (before.length + 1) after) := by
      intro hmem
      obtain ⟨other, position, hlater, -, hstored⟩ := tags_loaded _ after hmem
      have := hposition other position hstored
      omega
    rw [List.filter_cons, keyMatches_stored] at hitem
    split at hitem
    next hown =>
      refine ⟨hown, ?_⟩
      cases hk : session.asked (session.replayKey call) (before.map Prod.fst) -
          ((session.loaded (tagged 0 before)).filter (keyMatches (session.replayKey call))).length with
      | zero => omega
      | succ k =>
        rw [hk, List.getElem?_cons_succ] at hitem
        exact absurd (List.mem_filter.1 (List.mem_of_getElem? hitem)).1 hafter
    next => exact absurd (List.mem_filter.1 (List.mem_of_getElem? hitem)).1 hafter

/-- Whatever the outputs, each recorded call is served its own exactly if the calls
are aligned. -/
theorem replay_faithful (session : RecordReplay) (calls : Calls) :
    (∀ recorded : Recorded, shape recorded = calls → session.Faithful recorded) ↔ session.Aligned calls := by
  constructor
  · intro h
    exact (h _ (shape_tagged 0 calls)).aligned
  · rintro h recorded rfl
    exact Aligned.faithful h

-- A masked input

def maskedSession : RecordReplay where
  recording := ⟨fun _ => "", fun _ _ => ""⟩
  replaying := ⟨fun _ => "", fun _ _ => ""⟩
  lower := id
  fixturePath := "f"
  repr _ := ""

def loginCall : ToolCall := ⟨"login", .ofList [("password", .str "x")]⟩

def loginOutput : Dict := .ofList [("ok", .bool true)]

/-- An input with a masked key does not match its recording. -/
theorem masked_input_stale : ¬ ∀ (session : RecordReplay) (calls : Recorded), session.Faithful calls := by
  intro h
  obtain ⟨document, interactions, hsave, hload, hserved⟩ := h maskedSession [(loginCall, some loginOutput)]
  obtain ⟨document', hsave', hload'⟩ := load_recorded maskedSession [(loginCall, some loginOutput)]
  obtain rfl := Option.some.inj (hsave.symm.trans hsave')
  obtain rfl := Except.ok.inj (hload.symm.trans hload')
  obtain ⟨served, hanswer, -⟩ := hserved [] loginCall loginOutput [] rfl
  have hstale : (((maskedSession.replayer (maskedSession.loaded [(loginCall, some loginOutput)])).answers
      [loginCall]).map fun answer => answer.toOption.isSome) = [false] := by decide +kernel
  have hfirst : (((maskedSession.replayer (maskedSession.loaded [(loginCall, some loginOutput)])).answers
      [loginCall]).map fun answer => answer.toOption.isSome)[0]? = some true := by
    rw [List.getElem?_map]
    exact congrArg (Option.map fun answer : Except FixtureStaleError Dict => answer.toOption.isSome) hanswer
  rw [hstale] at hfirst
  cases hfirst

end RecordReplay

end ChainWeaver
