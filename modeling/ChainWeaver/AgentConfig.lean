import ChainWeaver.Json
import Mathlib.Data.List.Flatten
import Mathlib.Data.List.Infix

/-!
# Configuration of coding agents

`_agent_config.py` and the observe hook of `claude.py`: what setting up and reverting make of the
settings of an editor. Every edit keeps what the user wrote, for every sequence of edits, exactly if
the settings are tame (`faithful_iff_tame`).
-/

namespace OrderedDict

theorem put_put (key : String) (value value' : α) (entries : List (String × α)) :
    put key value' (put key value entries) = put key value' entries := by
  induction entries with
  | nil => simp [put]
  | cons entry rest ih =>
    by_cases h : entry.1 = key
    · simp [put, h]
    · simp [put, h, ih]

theorem insert_insert (d : OrderedDict α) (key : String) (value value' : α) :
    (d.insert key value).insert key value' = d.insert key value' :=
  ext_entries (put_put key value value' d.entries)

end OrderedDict

namespace ChainWeaver

namespace Json

/-- A mapping. -/
def asObject? : Json → Option (OrderedDict Json)
  | .object entries => some (.ofList entries)
  | _ => none

def asArray? : Json → Option (List Json)
  | .array items => some items
  | _ => none

@[simp] theorem asObject?_object (d : OrderedDict Json) : (Json.object d.entries).asObject? = some d :=
  congrArg some (OrderedDict.ext_entries (OrderedDict.entries_ofList d.nodup))

@[simp] theorem asArray?_array (items : List Json) : (Json.array items).asArray? = some items := rfl

theorem asArray?_eq_some {value : Json} (h : value.asArray? = some items) : value = .array items := by
  cases value with
  | array items' => rw [Option.some.inj h]
  | _ => cases h

end Json

namespace AgentConfig

-- The flow server

inductive Editor
  | opencode | claudeCode | vscode

def Editor.serversKey : Editor → String
  | .opencode => "mcp"
  | .claudeCode => "mcpServers"
  | .vscode => "servers"

/-- `_FLOW_SERVER_NAME`. -/
def flowServerName : String := "chainweaver"

/-- What stands under a key, if it is a mapping. -/
def mapping? (config : OrderedDict Json) (key : String) : Option (OrderedDict Json) :=
  (config.get? key).bind Json.asObject?

def addFlowServer (config entry : OrderedDict Json) (serversKey name : String) : OrderedDict Json :=
  let servers := (mapping? config serversKey).getD .empty
  config.insert serversKey (.object (servers.insert name (.object entry.entries)).entries)

def removeFlowServer (config : OrderedDict Json) (serversKey name : String) : OrderedDict Json × Bool :=
  match mapping? config serversKey with
  | none => (config, false)
  | some serversObj =>
    if serversObj.contains name then
      let servers := serversObj.erase name
      (if servers.isEmpty then config.erase serversKey else config.insert serversKey (.object servers.entries), true)
    else (config, false)

-- The observe hook

/-- `_CLAUDE_CAPTURE_MARKER`. -/
def claudeCaptureMarker : String := "chainweaver claude capture"

def isShellSafe (c : Char) : Bool := c.isAlphanum || "_@%+=:,./-".toList.contains c

/-- `shlex.quote`. -/
def shellQuote (s : String) : String :=
  if s = "" then "''"
  else if s.toList.all isShellSafe then s
  else "'" ++ String.ofList (s.toList.flatMap fun c => if c = '\'' then "'\"'\"'".toList else [c]) ++ "'"

def buildObserveHookCommand (sink : String) (redact : Bool) : String :=
  let sink := String.ofList (sink.toList.map fun c => if c = '\\' then '/' else c)
  claudeCaptureMarker ++ " --sink " ++ shellQuote sink ++ (if redact then "" else " --no-redact")

def renderPosttooluseHook (sink : String) (redact : Bool) (matcher : String) : OrderedDict Json :=
  let command := buildObserveHookCommand sink redact
  let entry := OrderedDict.empty.insert "hooks" (.array [.object [("type", .str "command"), ("command", .str command)]])
  if matcher = "" then entry else entry.insert "matcher" (.str matcher)

/-- The command of a hook, if it has one. -/
def hookCommand? (hook : Json) : Option String :=
  match hook.asObject?.bind (·.get? "command") with
  | some (.str command) => some command
  | _ => none

/-- `_is_chainweaver_hook`. -/
def isChainweaverHook (entry : Json) : Bool :=
  match (entry.asObject?.bind (·.get? "hooks")).bind Json.asArray? with
  | none => false
  | some inner =>
    inner.any fun hook => (hookCommand? hook).any fun command => decide (claudeCaptureMarker.toList <:+: command.toList)

def addObserveHookToSettings (settings hookEntry : OrderedDict Json) : OrderedDict Json :=
  let hooks := (mapping? settings "hooks").getD .empty
  let events := ((hooks.get? "PostToolUse").bind Json.asArray?).getD []
  let kept := events.filter (!isChainweaverHook ·)
  settings.insert "hooks" (.object (hooks.insert "PostToolUse" (.array (kept ++ [.object hookEntry.entries]))).entries)

def removeObserveHookFromSettings (settings : OrderedDict Json) : OrderedDict Json × Bool :=
  match mapping? settings "hooks" with
  | none => (settings, false)
  | some hooksObj =>
    match (hooksObj.get? "PostToolUse").bind Json.asArray? with
    | none => (settings, false)
    | some eventsObj =>
      let kept := eventsObj.filter (!isChainweaverHook ·)
      if kept.length = eventsObj.length then (settings, false)
      else
        let hooks := hooksObj.erase "PostToolUse"
        let hooks := if kept.isEmpty then hooks else hooks.insert "PostToolUse" (.array kept)
        (if hooks.isEmpty then settings.erase "hooks" else settings.insert "hooks" (.object hooks.entries), true)

-- Edits

inductive Edit
  | addHook (sink : String) (redact : Bool) (matcher : String)
  | removeHook
  | addServer (entry : OrderedDict Json)
  | removeServer

variable (editor : Editor)

def apply (config : OrderedDict Json) : Edit → OrderedDict Json
  | .addHook sink redact matcher => addObserveHookToSettings config (renderPosttooluseHook sink redact matcher)
  | .removeHook => (removeObserveHookFromSettings config).1
  | .addServer entry => addFlowServer config entry editor.serversKey flowServerName
  | .removeServer => (removeFlowServer config editor.serversKey flowServerName).1

def run (config : OrderedDict Json) (edits : List Edit) : OrderedDict Json := edits.foldl (apply editor) config

-- What belongs to the user

/-- Which commands are ChainWeaver's own: at least those that it builds. -/
structure Ownership where
  owns : String → Prop
  built : ∀ sink redact, owns (buildObserveHookCommand sink redact)

def member? (config : OrderedDict Json) (key name : String) : Option Json :=
  (mapping? config key).bind (·.get? name)

/-- The groups of hooks of the event that ChainWeaver observes. -/
def groups (config : OrderedDict Json) : List Json :=
  ((member? config "hooks" "PostToolUse").bind Json.asArray?).getD []

def Ownership.OwnHook (own : Ownership) (hook : Json) : Prop := ∃ command, hookCommand? hook = some command ∧ own.owns command

open Classical in
/-- The hooks of a group that are the user's, each with the rest of the group. -/
noncomputable def Ownership.userHooks (own : Ownership) (group : Json) : List (OrderedDict Json × Json) :=
  match (group.asObject?.bind (·.get? "hooks")).bind Json.asArray? with
  | none => [(.empty, group)]
  | some inner =>
    (inner.filter fun hook => ¬ own.OwnHook hook).map fun hook => ((group.asObject?.getD .empty).erase "hooks", hook)

variable (own : Ownership)

/-- What the user wrote before is there unchanged. -/
structure Kept (before after : OrderedDict Json) : Prop where
  key : ∀ key, key ≠ "hooks" → key ≠ editor.serversKey → after.get? key = before.get? key
  event : ∀ name, name ≠ "PostToolUse" → member? after "hooks" name = member? before "hooks" name
  hooks : (groups after).flatMap own.userHooks = (groups before).flatMap own.userHooks
  server : ∀ name, name ≠ flowServerName → member? after editor.serversKey name = member? before editor.serversKey name
  /-- Nothing of another shape is replaced. -/
  hooks_shape : ∀ value, before.get? "hooks" = some value → value.asObject? = none → after.get? "hooks" = some value
  event_shape : ∀ value, member? before "hooks" "PostToolUse" = some value → value.asArray? = none →
    member? after "hooks" "PostToolUse" = some value
  server_shape : ∀ value, before.get? editor.serversKey = some value → value.asObject? = none →
    after.get? editor.serversKey = some value

/-- The same stands under the key, mappings up to the order of their keys. -/
def SameAt (key : String) (config other : OrderedDict Json) : Prop :=
  config.get? key = other.get? key ∨
    ∃ d e, mapping? config key = some d ∧ mapping? other key = some e ∧ ∀ name, d.get? name = e.get? name

/-- Equal up to the order of keys. -/
def SameConfig (config other : OrderedDict Json) : Prop := ∀ key, SameAt key config other

/-- What is promised of every sequence of edits of a configuration. -/
structure Faithful (config : OrderedDict Json) : Prop where
  kept : ∀ edits, Kept editor own config (run editor config edits)
  add_hook_twice : ∀ edits sink redact matcher,
    run editor config (edits ++ [.addHook sink redact matcher, .addHook sink redact matcher]) =
      run editor config (edits ++ [.addHook sink redact matcher])
  add_server_twice : ∀ edits entry,
    run editor config (edits ++ [.addServer entry, .addServer entry]) = run editor config (edits ++ [.addServer entry])
  remove_hook : ∀ edits sink redact matcher,
    SameConfig (run editor config (edits ++ [.addHook sink redact matcher, .removeHook]))
      (run editor config (edits ++ [.removeHook]))
  remove_server : ∀ edits entry,
    SameConfig (run editor config (edits ++ [.addServer entry, .removeServer]))
      (run editor config (edits ++ [.removeServer]))

/-- The settings have the documented shape, without empty structures, and a group with one marked
command has no hook of the user. -/
structure Tame (config : OrderedDict Json) : Prop where
  hooks : ∀ value, config.get? "hooks" = some value → ∃ d, value.asObject? = some d ∧ d.isEmpty = false
  event : ∀ value, member? config "hooks" "PostToolUse" = some value → ∃ items, value.asArray? = some items ∧ items ≠ []
  group : ∀ group ∈ groups config, isChainweaverHook group = true → own.userHooks group = []
  server : ∀ value, config.get? editor.serversKey = some value → ∃ d, value.asObject? = some d ∧ d.isEmpty = false

-- Mappings

section

variable {config : OrderedDict Json} {key name other : String} {value : Json} {d e : OrderedDict Json}

theorem isEmpty_iff : d.isEmpty = true ↔ ∀ name, d.get? name = none := by
  constructor
  · intro h name
    rw [OrderedDict.get?, List.isEmpty_iff.1 h]
    rfl
  · intro h
    refine List.isEmpty_iff.2 (List.eq_nil_iff_forall_not_mem.2 fun entry hentry => ?_)
    have hget : d.get? entry.1 = some entry.2 := OrderedDict.get?_eq_some_iff.2 hentry
    rw [h entry.1] at hget
    cases hget

theorem mapping?_congr {config' : OrderedDict Json} (h : config.get? key = config'.get? key) :
    mapping? config key = mapping? config' key := by
  rw [mapping?, mapping?, h]

theorem member?_congr {config' : OrderedDict Json} (h : config.get? key = config'.get? key) :
    member? config key name = member? config' key name := by
  rw [member?, member?, mapping?_congr h]

theorem get?_mapping : ((mapping? config key).getD .empty).get? name = member? config key name := by
  rw [member?]
  cases mapping? config key <;> rfl

/-- The configuration with a member of a mapping set. -/
def setMember (config : OrderedDict Json) (key name : String) (value : Json) : OrderedDict Json :=
  config.insert key (.object (((mapping? config key).getD .empty).insert name value).entries)

theorem mapping?_setMember :
    mapping? (setMember config key name value) key = some (((mapping? config key).getD .empty).insert name value) := by
  simp [mapping?, setMember]

theorem get?_setMember (h : other ≠ key) : (setMember config key name value).get? other = config.get? other := by
  simp [setMember, h]

theorem member?_setMember :
    member? (setMember config key name value) key other = if other = name then some value else member? config key other := by
  rw [member?, mapping?_setMember, Option.bind_some, OrderedDict.get?_insert, get?_mapping]

/-- The configuration with a mapping stored, or dropped if it is empty. -/
def storeMapping (config : OrderedDict Json) (key : String) (d : OrderedDict Json) : OrderedDict Json :=
  if d.isEmpty then config.erase key else config.insert key (.object d.entries)

theorem get?_storeMapping (h : other ≠ key) : (storeMapping config key d).get? other = config.get? other := by
  unfold storeMapping
  split <;> simp [h]

theorem mapping?_storeMapping : mapping? (storeMapping config key d) key = if d.isEmpty then none else some d := by
  unfold storeMapping
  split <;> simp [mapping?]

theorem member?_storeMapping : member? (storeMapping config key d) key name = d.get? name := by
  rw [member?, mapping?_storeMapping]
  split
  next h => exact (isEmpty_iff.1 h name).symm
  next => rfl

/-- Mappings with the same members are stored alike. -/
theorem storeMapping_same {config' : OrderedDict Json} (h : ∀ name, d.get? name = e.get? name) :
    SameAt key (storeMapping config key d) (storeMapping config' key e) := by
  have hempty : d.isEmpty = e.isEmpty := by
    rw [Bool.eq_iff_iff, isEmpty_iff, isEmpty_iff]
    simp only [h]
  cases he : e.isEmpty with
  | true =>
    left
    simp [storeMapping, hempty, he]
  | false =>
    right
    exact ⟨d, e, by rw [mapping?_storeMapping, hempty, he]; rfl, by rw [mapping?_storeMapping, he]; rfl, h⟩

/-- A mapping that is not empty is stored as it was. -/
theorem storeMapping_kept {config' : OrderedDict Json} (hmapping : mapping? config' key = some e) (he : e.isEmpty = false)
    (h : ∀ name, d.get? name = e.get? name) : SameAt key (storeMapping config key d) config' := by
  have hempty : d.isEmpty = false := by
    rw [← he, Bool.eq_iff_iff, isEmpty_iff, isEmpty_iff]
    simp only [h]
  exact .inr ⟨d, e, by rw [mapping?_storeMapping, hempty]; rfl, hmapping, h⟩

theorem storeMapping_none {config' : OrderedDict Json} (hnone : config'.get? key = none) (h : ∀ name, d.get? name = none) :
    SameAt key (storeMapping config key d) config' := by
  left
  rw [hnone, storeMapping, if_pos (isEmpty_iff.2 h)]
  simp

theorem SameConfig.member? {other : OrderedDict Json} (h : SameConfig config other) :
    member? config key name = member? other key name := by
  rcases h key with h | ⟨d, e, hd, he, h⟩
  · exact member?_congr h
  · rw [AgentConfig.member?, AgentConfig.member?, hd, he]
    exact h name

end

-- What an edit does

section

variable {config entry hookEntry : OrderedDict Json} {serversKey name : String}

theorem addFlowServer_eq :
    addFlowServer config entry serversKey name = setMember config serversKey name (.object entry.entries) := rfl

theorem addObserveHook_eq : addObserveHookToSettings config hookEntry =
    setMember config "hooks" "PostToolUse"
      (.array ((groups config).filter (!isChainweaverHook ·) ++ [.object hookEntry.entries])) := by
  rw [addObserveHookToSettings, setMember, get?_mapping]
  rfl

theorem removeFlowServer_cases :
    (removeFlowServer config serversKey name).1 = config ∧ member? config serversKey name = none ∨
      ∃ servers, mapping? config serversKey = some servers ∧ servers.contains name = true ∧
        (removeFlowServer config serversKey name).1 = storeMapping config serversKey (servers.erase name) := by
  unfold removeFlowServer member?
  cases mapping? config serversKey with
  | none => exact .inl ⟨rfl, rfl⟩
  | some servers =>
    dsimp only
    split
    next h => exact .inr ⟨servers, rfl, h, rfl⟩
    next h =>
      refine .inl ⟨rfl, ?_⟩
      rw [OrderedDict.contains_iff, not_exists] at h
      exact Option.eq_none_iff_forall_not_mem.2 h

/-- The hooks without those of ChainWeaver. -/
def unhooked (hooks : OrderedDict Json) (kept : List Json) : OrderedDict Json :=
  if kept.isEmpty then hooks.erase "PostToolUse" else (hooks.erase "PostToolUse").insert "PostToolUse" (.array kept)

theorem get?_unhooked {hooks : OrderedDict Json} {kept : List Json} :
    (unhooked hooks kept).get? name =
      if name = "PostToolUse" then (if kept.isEmpty then none else some (.array kept)) else hooks.get? name := by
  unfold unhooked
  split
  next h => simp
  next h =>
    rw [OrderedDict.get?_insert, OrderedDict.get?_erase]
    split <;> rfl

theorem removeObserveHook_cases :
    (removeObserveHookFromSettings config).1 = config ∧ (∀ group ∈ groups config, isChainweaverHook group = false) ∨
      ∃ hooks, mapping? config "hooks" = some hooks ∧ (∃ group ∈ groups config, isChainweaverHook group = true) ∧
        (removeObserveHookFromSettings config).1 =
          storeMapping config "hooks" (unhooked hooks ((groups config).filter (!isChainweaverHook ·))) := by
  unfold removeObserveHookFromSettings groups member?
  cases mapping? config "hooks" with
  | none => exact .inl ⟨rfl, fun group hgroup => by cases hgroup⟩
  | some hooks =>
    dsimp only [Option.bind_some]
    cases (hooks.get? "PostToolUse").bind Json.asArray? with
    | none => exact .inl ⟨rfl, fun group hgroup => by cases hgroup⟩
    | some events =>
      dsimp only [Option.getD_some]
      split
      next h =>
        refine .inl ⟨rfl, fun group hgroup => ?_⟩
        simpa using List.filter_eq_self.1 (List.filter_sublist.eq_of_length h) group hgroup
      next h =>
        refine .inr ⟨hooks, rfl, ?_, rfl⟩
        by_contra hnone
        refine h (congrArg List.length (List.filter_eq_self.2 fun group hgroup => ?_))
        cases hmarked : isChainweaverHook group with
        | false => rfl
        | true => exact absurd ⟨group, hgroup, hmarked⟩ hnone

/-- What is left of the groups. -/
theorem groups_removeObserveHook :
    groups (removeObserveHookFromSettings config).1 = (groups config).filter (!isChainweaverHook ·) := by
  rcases @removeObserveHook_cases config with ⟨h, hnone⟩ | ⟨hooks, -, -, h⟩
  · rw [h, List.filter_eq_self.2]
    intro group hgroup
    rw [hnone group hgroup]
    rfl
  · rw [h]
    generalize (groups config).filter (!isChainweaverHook ·) = kept
    rw [groups, member?_storeMapping, get?_unhooked, if_pos rfl]
    cases kept <;> rfl

theorem member?_removeObserveHook (hname : name ≠ "PostToolUse") :
    member? (removeObserveHookFromSettings config).1 "hooks" name = member? config "hooks" name := by
  rcases @removeObserveHook_cases config with ⟨h, -⟩ | ⟨hooks, hhooks, -, h⟩
  · rw [h]
  · rw [h, member?_storeMapping, get?_unhooked, if_neg hname, member?, hhooks]
    rfl

theorem get?_removeObserveHook (hname : name ≠ "hooks") :
    (removeObserveHookFromSettings config).1.get? name = config.get? name := by
  rcases @removeObserveHook_cases config with ⟨h, -⟩ | ⟨hooks, -, -, h⟩
  · rw [h]
  · rw [h, get?_storeMapping hname]

theorem groups_addObserveHook : groups (addObserveHookToSettings config hookEntry) =
    (groups config).filter (!isChainweaverHook ·) ++ [.object hookEntry.entries] := by
  rw [addObserveHook_eq, groups, member?_setMember, if_pos rfl]
  rfl

theorem member?_removeFlowServer {other : String} (hother : other ≠ name) :
    member? (removeFlowServer config serversKey name).1 serversKey other = member? config serversKey other := by
  rcases @removeFlowServer_cases config serversKey name with ⟨h, -⟩ | ⟨servers, hservers, -, h⟩
  · rw [h]
  · rw [h, member?_storeMapping, OrderedDict.get?_erase, if_neg hother, member?, hservers]
    rfl

theorem get?_removeFlowServer {key : String} (hkey : key ≠ serversKey) :
    (removeFlowServer config serversKey name).1.get? key = config.get? key := by
  rcases @removeFlowServer_cases config serversKey name with ⟨h, -⟩ | ⟨servers, -, -, h⟩
  · rw [h]
  · rw [h, get?_storeMapping hkey]

end

-- The rendered hook

theorem marker_infix_built (sink : String) (redact : Bool) :
    claudeCaptureMarker.toList <:+: (buildObserveHookCommand sink redact).toList := by
  refine List.IsPrefix.isInfix ?_
  simp only [buildObserveHookCommand, String.toList_append, List.append_assoc]
  exact List.prefix_append _ _

theorem rendered_hooks (sink : String) (redact : Bool) (matcher : String) :
    (renderPosttooluseHook sink redact matcher).get? "hooks" = some (.array [.object
      [("type", .str "command"), ("command", .str (buildObserveHookCommand sink redact))]]) := by
  unfold renderPosttooluseHook
  dsimp only
  split
  · simp
  · simp

theorem rendered_command (command : String) :
    hookCommand? (.object [("type", .str "command"), ("command", .str command)]) = some command := rfl

theorem isChainweaverHook_rendered (sink : String) (redact : Bool) (matcher : String) :
    isChainweaverHook (.object (renderPosttooluseHook sink redact matcher).entries) = true := by
  rw [isChainweaverHook, Json.asObject?_object, Option.bind_some, rendered_hooks]
  simp only [Option.bind_some, Json.asArray?_array, List.any_cons, List.any_nil, Bool.or_false, rendered_command,
    Option.any_some, decide_eq_true_eq]
  exact marker_infix_built sink redact

theorem userHooks_rendered (sink : String) (redact : Bool) (matcher : String) :
    own.userHooks (.object (renderPosttooluseHook sink redact matcher).entries) = [] := by
  rw [Ownership.userHooks, Json.asObject?_object, Option.bind_some, rendered_hooks]
  have hown : own.OwnHook (.object [("type", .str "command"), ("command", .str (buildObserveHookCommand sink redact))]) :=
    ⟨_, rendered_command _, own.built sink redact⟩
  simp [hown]

-- Tame configurations

section

variable {editor own} {config before middle after : OrderedDict Json} {key name : String} {value : Json} {d : OrderedDict Json}

theorem serversKey_ne_hooks (editor : Editor) : editor.serversKey ≠ "hooks" := by
  cases editor <;> decide

/-- A mapping with something in it. -/
def Filled (value : Json) : Prop := ∃ d, value.asObject? = some d ∧ d.isEmpty = false

theorem filled_setMember {stored : Json} (h : (setMember config key name value).get? key = some stored) : Filled stored := by
  rw [setMember, OrderedDict.get?_insert, if_pos rfl] at h
  obtain rfl := Option.some.inj h
  refine ⟨_, Json.asObject?_object _, Bool.eq_false_iff.2 fun hempty => ?_⟩
  have hget := isEmpty_iff.1 hempty name
  simp at hget

theorem filled_storeMapping {stored : Json} (h : (storeMapping config key d).get? key = some stored) : Filled stored := by
  unfold storeMapping at h
  split at h
  next hempty => simp at h
  next hempty =>
    rw [OrderedDict.get?_insert, if_pos rfl] at h
    obtain rfl := Option.some.inj h
    exact ⟨_, Json.asObject?_object _, by simpa using hempty⟩

theorem Kept.refl (config : OrderedDict Json) : Kept editor own config config :=
  ⟨fun _ _ _ => rfl, fun _ _ => rfl, rfl, fun _ _ => rfl, fun _ h _ => h, fun _ h _ => h, fun _ h _ => h⟩

theorem Kept.trans (h : Kept editor own before middle) (h' : Kept editor own middle after) : Kept editor own before after where
  key key hhooks hservers := (h'.key key hhooks hservers).trans (h.key key hhooks hservers)
  event name hname := (h'.event name hname).trans (h.event name hname)
  hooks := h'.hooks.trans h.hooks
  server name hname := (h'.server name hname).trans (h.server name hname)
  hooks_shape value hvalue hshape := h'.hooks_shape value (h.hooks_shape value hvalue hshape) hshape
  event_shape value hvalue hshape := h'.event_shape value (h.event_shape value hvalue hshape) hshape
  server_shape value hvalue hshape := h'.server_shape value (h.server_shape value hvalue hshape) hshape

theorem flatMap_filter_of_nil {p : Json → Bool} {f : Json → List β} {items : List Json}
    (h : ∀ item ∈ items, p item = false → f item = []) : (items.filter p).flatMap f = items.flatMap f := by
  induction items with
  | nil => rfl
  | cons item rest ih =>
    rw [List.forall_mem_cons] at h
    rw [List.filter_cons, List.flatMap_cons, ← ih h.2]
    cases hp : p item with
    | true => simp
    | false => simp [h.1 hp]

/-- Filtering changes nothing only where nothing is made of what it drops. -/
theorem nil_of_flatMap_filter {p : Json → Bool} {f : Json → List β} {items : List Json}
    (h : (items.filter p).flatMap f = items.flatMap f) : ∀ item ∈ items, p item = false → f item = [] := by
  induction items with
  | nil => simp
  | cons item rest ih =>
    rw [List.filter_cons, List.flatMap_cons] at h
    have hlength : ((rest.filter p).flatMap f).length ≤ (rest.flatMap f).length :=
      (List.filter_sublist.flatMap f).length_le
    cases hp : p item with
    | true =>
      rw [hp, if_pos rfl, List.flatMap_cons] at h
      simp only [List.forall_mem_cons]
      exact ⟨fun hfalse => absurd (hp.symm.trans hfalse) (by decide), ih (List.append_cancel_left h)⟩
    | false =>
      rw [hp, if_neg (by decide)] at h
      have hnil : f item = [] := by
        have htotal := congrArg List.length h
        rw [List.length_append] at htotal
        exact List.length_eq_zero_iff.1 (by omega)
      rw [hnil, List.nil_append] at h
      simp only [List.forall_mem_cons]
      exact ⟨fun _ => hnil, ih h⟩

theorem Tame.kept_groups (h : Tame editor own config) :
    ((groups config).filter (!isChainweaverHook ·)).flatMap own.userHooks = (groups config).flatMap own.userHooks :=
  flatMap_filter_of_nil fun group hgroup hmarked => h.group group hgroup (by simpa using hmarked)

/-- An edit of a mapping leaves the other one alone. -/
theorem Kept.of_server (hkey : ∀ key, key ≠ editor.serversKey → after.get? key = before.get? key)
    (hserver : ∀ name, name ≠ flowServerName → member? after editor.serversKey name = member? before editor.serversKey name)
    (hfilled : ∀ value, before.get? editor.serversKey = some value → Filled value) : Kept editor own before after where
  key key _ hservers := hkey key hservers
  event name _ := member?_congr (hkey "hooks" (serversKey_ne_hooks editor).symm)
  hooks := by
    rw [groups, groups, member?_congr (hkey "hooks" (serversKey_ne_hooks editor).symm)]
  server := hserver
  hooks_shape value hvalue _ := (hkey "hooks" (serversKey_ne_hooks editor).symm).trans hvalue
  event_shape value hvalue _ := (member?_congr (hkey "hooks" (serversKey_ne_hooks editor).symm)).trans hvalue
  server_shape value hvalue hshape := by
    obtain ⟨d, hd, -⟩ := hfilled value hvalue
    rw [hshape] at hd
    cases hd

theorem Kept.of_hooks (hkey : ∀ key, key ≠ "hooks" → after.get? key = before.get? key)
    (hevent : ∀ name, name ≠ "PostToolUse" → member? after "hooks" name = member? before "hooks" name)
    (hhooks : (groups after).flatMap own.userHooks = (groups before).flatMap own.userHooks)
    (h : Tame editor own before) : Kept editor own before after where
  key key hhooks _ := hkey key hhooks
  event := hevent
  hooks := hhooks
  server name _ := member?_congr (hkey _ (serversKey_ne_hooks editor))
  hooks_shape value hvalue hshape := by
    obtain ⟨d, hd, -⟩ := h.hooks value hvalue
    rw [hshape] at hd
    cases hd
  event_shape value hvalue hshape := by
    obtain ⟨items, hitems, -⟩ := h.event value hvalue
    rw [hshape] at hitems
    cases hitems
  server_shape value hvalue _ := (hkey _ (serversKey_ne_hooks editor)).trans hvalue

theorem Tame.apply_kept (h : Tame editor own config) (edit : Edit) : Kept editor own config (apply editor config edit) := by
  cases edit with
  | addHook sink redact matcher =>
    refine .of_hooks (fun key hkey => get?_setMember hkey) (fun name hname => ?_) ?_ h
    · rw [apply, addObserveHook_eq, member?_setMember, if_neg hname]
    · rw [apply, groups_addObserveHook, List.flatMap_append, h.kept_groups, List.flatMap_cons, List.flatMap_nil,
        userHooks_rendered, List.append_nil, List.append_nil]
  | removeHook =>
    refine .of_hooks (fun key hkey => get?_removeObserveHook hkey) (fun name hname => member?_removeObserveHook hname) ?_ h
    rw [apply, groups_removeObserveHook, h.kept_groups]
  | addServer entry =>
    refine .of_server (fun key hkey => get?_setMember hkey) (fun name hname => ?_) h.server
    rw [apply, addFlowServer_eq, member?_setMember, if_neg hname]
  | removeServer =>
    exact .of_server (fun key hkey => get?_removeFlowServer hkey) (fun name hname => member?_removeFlowServer hname) h.server

theorem Tame.of_server (h : Tame editor own before) (hhooks : after.get? "hooks" = before.get? "hooks")
    (hserver : ∀ value, after.get? editor.serversKey = some value → Filled value) : Tame editor own after where
  hooks value hvalue := h.hooks value (hhooks.symm.trans hvalue)
  event value hvalue := h.event value ((member?_congr hhooks).symm.trans hvalue)
  group group hgroup := h.group group (by rwa [groups, member?_congr hhooks] at hgroup)
  server := hserver

theorem Tame.apply (h : Tame editor own config) (edit : Edit) : Tame editor own (apply editor config edit) := by
  have hkept := h.apply_kept edit
  cases edit with
  | addHook sink redact matcher =>
    refine ⟨fun value hvalue => filled_setMember hvalue, fun value hvalue => ?_, fun group hgroup hmarked => ?_, fun value hvalue => ?_⟩
    · rw [AgentConfig.apply, addObserveHook_eq, member?_setMember, if_pos rfl] at hvalue
      obtain rfl := Option.some.inj hvalue
      exact ⟨_, rfl, by simp⟩
    · rw [AgentConfig.apply, groups_addObserveHook, List.mem_append, List.mem_filter, List.mem_singleton] at hgroup
      rcases hgroup with ⟨-, hunmarked⟩ | rfl
      · rw [hmarked] at hunmarked
        cases hunmarked
      · exact userHooks_rendered own sink redact matcher
    · exact h.server value ((get?_setMember (serversKey_ne_hooks editor)).symm.trans hvalue)
  | removeHook =>
    refine ⟨fun value hvalue => ?_, fun value hvalue => ?_, fun group hgroup hmarked => ?_, fun value hvalue => ?_⟩
    · rcases @removeObserveHook_cases config with ⟨hsame, -⟩ | ⟨hooks, -, -, hstored⟩
      · exact h.hooks value (hsame ▸ hvalue)
      · rw [AgentConfig.apply, hstored] at hvalue
        exact filled_storeMapping hvalue
    · rcases @removeObserveHook_cases config with ⟨hsame, -⟩ | ⟨hooks, -, -, hstored⟩
      · exact h.event value (hsame ▸ hvalue)
      · rw [AgentConfig.apply, hstored, member?_storeMapping, get?_unhooked, if_pos rfl] at hvalue
        split at hvalue
        · cases hvalue
        next hsome =>
          obtain rfl := Option.some.inj hvalue
          exact ⟨_, rfl, by simpa using hsome⟩
    · rw [AgentConfig.apply, groups_removeObserveHook, List.mem_filter, hmarked] at hgroup
      cases hgroup.2
    · exact h.server value ((get?_removeObserveHook (serversKey_ne_hooks editor)).symm.trans hvalue)
  | addServer entry =>
    have hhooks : (AgentConfig.apply editor config (.addServer entry)).get? "hooks" = config.get? "hooks" :=
      get?_setMember (serversKey_ne_hooks editor).symm
    exact h.of_server hhooks fun value hvalue => filled_setMember hvalue
  | removeServer =>
    have hhooks : (AgentConfig.apply editor config .removeServer).get? "hooks" = config.get? "hooks" :=
      get?_removeFlowServer (serversKey_ne_hooks editor).symm
    refine h.of_server hhooks fun value hvalue => ?_
    rcases @removeFlowServer_cases config editor.serversKey flowServerName with ⟨hsame, -⟩ | ⟨servers, -, -, hstored⟩
    · exact h.server value (hsame ▸ hvalue)
    · rw [AgentConfig.apply, hstored] at hvalue
      exact filled_storeMapping hvalue

/-- Every sequence of edits keeps what the user wrote, and leaves a tame configuration. -/
theorem Tame.run (h : Tame editor own config) (edits : List Edit) :
    Kept editor own config (run editor config edits) ∧ Tame editor own (run editor config edits) := by
  induction edits generalizing config with
  | nil => exact ⟨.refl config, h⟩
  | cons edit rest ih =>
    obtain ⟨hkept, htame⟩ := ih (h.apply edit)
    exact ⟨(h.apply_kept edit).trans hkept, htame⟩

-- Adding twice, and removing what was added

theorem run_append (edits more : List Edit) :
    AgentConfig.run editor config (edits ++ more) = AgentConfig.run editor (AgentConfig.run editor config edits) more := by
  rw [AgentConfig.run, List.foldl_append]
  rfl

theorem setMember_setMember (value' : Json) :
    setMember (setMember config key name value) key name value' = setMember config key name value' := by
  rw [setMember, mapping?_setMember, Option.getD_some, OrderedDict.insert_insert, setMember, OrderedDict.insert_insert]
  rfl

theorem addFlowServer_twice (entry : OrderedDict Json) :
    addFlowServer (addFlowServer config entry key name) entry key name = addFlowServer config entry key name :=
  setMember_setMember (.object entry.entries)

/-- The groups that stay when ChainWeaver's hook is added are those that stayed before. -/
theorem filter_addObserveHook (sink : String) (redact : Bool) (matcher : String) :
    (groups (addObserveHookToSettings config (renderPosttooluseHook sink redact matcher))).filter (!isChainweaverHook ·) =
      (groups config).filter (!isChainweaverHook ·) := by
  rw [groups_addObserveHook, List.filter_append, List.filter_filter]
  simp [isChainweaverHook_rendered]

theorem addObserveHook_twice (sink : String) (redact : Bool) (matcher : String) :
    addObserveHookToSettings (addObserveHookToSettings config (renderPosttooluseHook sink redact matcher))
        (renderPosttooluseHook sink redact matcher) =
      addObserveHookToSettings config (renderPosttooluseHook sink redact matcher) := by
  rw [addObserveHook_eq, filter_addObserveHook, addObserveHook_eq, setMember_setMember]

theorem remove_addFlowServer (h : ∀ value, config.get? key = some value → Filled value) (entry : OrderedDict Json) :
    SameConfig (removeFlowServer (addFlowServer config entry key name) key name).1 (removeFlowServer config key name).1 := by
  intro other
  by_cases hother : other = key
  · subst hother
    have hstored : (removeFlowServer (addFlowServer config entry other name) other name).1 =
        storeMapping (addFlowServer config entry other name) other
          ((((mapping? config other).getD .empty).insert name (.object entry.entries)).erase name) := by
      rw [addFlowServer_eq, removeFlowServer, mapping?_setMember]
      simp [storeMapping]
    have hget : ∀ name', ((((mapping? config other).getD .empty).insert name (.object entry.entries)).erase name).get? name' =
        if name' = name then none else member? config other name' := by
      intro name'
      rw [OrderedDict.get?_erase, OrderedDict.get?_insert, get?_mapping]
      split <;> rfl
    rw [hstored]
    rcases @removeFlowServer_cases config other name with ⟨hsame, hnone⟩ | ⟨servers, hservers, -, hremoved⟩
    · rw [hsame]
      have hmember : ∀ name', ((((mapping? config other).getD .empty).insert name (.object entry.entries)).erase name).get? name' =
          member? config other name' := by
        intro name'
        rw [hget]
        split
        next heq => rw [heq, hnone]
        next => rfl
      cases hvalue : config.get? other with
      | none => exact storeMapping_none hvalue fun name' => by rw [hmember, member?, mapping?, hvalue]; rfl
      | some value =>
        obtain ⟨d, hd, hempty⟩ := h value hvalue
        have hmapping : mapping? config other = some d := by rw [mapping?, hvalue]; exact hd
        exact storeMapping_kept hmapping hempty fun name' => by rw [hmember, member?, hmapping]; rfl
    · rw [hremoved]
      refine storeMapping_same fun name' => ?_
      rw [hget, OrderedDict.get?_erase, member?, hservers]
      rfl
  · left
    rw [get?_removeFlowServer hother, get?_removeFlowServer hother, addFlowServer_eq, get?_setMember hother]

/-- The hooks that are left once the added hook is removed. -/
theorem removeObserveHook_added (sink : String) (redact : Bool) (matcher : String) :
    ∃ hooks, (removeObserveHookFromSettings (addObserveHookToSettings config (renderPosttooluseHook sink redact matcher))).1 =
        storeMapping (addObserveHookToSettings config (renderPosttooluseHook sink redact matcher)) "hooks"
          (unhooked hooks ((groups config).filter (!isChainweaverHook ·))) ∧
      ∀ name, name ≠ "PostToolUse" → hooks.get? name = member? config "hooks" name := by
  rcases @removeObserveHook_cases (addObserveHookToSettings config (renderPosttooluseHook sink redact matcher)) with
    ⟨-, hnone⟩ | ⟨hooks, hhooks, -, hremoved⟩
  · have hmem := hnone (.object (renderPosttooluseHook sink redact matcher).entries) (by rw [groups_addObserveHook]; simp)
    rw [isChainweaverHook_rendered] at hmem
    cases hmem
  · rw [filter_addObserveHook] at hremoved
    refine ⟨hooks, hremoved, fun name hname => ?_⟩
    have hget : member? (addObserveHookToSettings config (renderPosttooluseHook sink redact matcher)) "hooks" name =
        hooks.get? name := by rw [member?, hhooks]; rfl
    rw [← hget, addObserveHook_eq, member?_setMember, if_neg hname]

theorem Tame.remove_addObserveHook (h : Tame editor own config) (sink : String) (redact : Bool) (matcher : String) :
    SameConfig (removeObserveHookFromSettings (addObserveHookToSettings config (renderPosttooluseHook sink redact matcher))).1
      (removeObserveHookFromSettings config).1 := by
  intro other
  by_cases hother : other = "hooks"
  · subst hother
    obtain ⟨hooks, hadded, hnames⟩ := @removeObserveHook_added config sink redact matcher
    rw [hadded]
    rcases @removeObserveHook_cases config with ⟨hsame, hunmarked⟩ | ⟨hooks', hhooks, -, hremoved⟩
    · rw [hsame]
      have hkept : (groups config).filter (!isChainweaverHook ·) = groups config :=
        List.filter_eq_self.2 fun group hgroup => by rw [hunmarked group hgroup]; rfl
      have hmember : ∀ name, (unhooked hooks ((groups config).filter (!isChainweaverHook ·))).get? name =
          member? config "hooks" name := by
        intro name
        rw [get?_unhooked, hkept]
        split
        next hname =>
          rw [hname, groups]
          cases hevent : member? config "hooks" "PostToolUse" with
          | none => rfl
          | some value =>
            obtain ⟨items, hitems, hpos⟩ := h.event value hevent
            rw [Option.bind_some, hitems, Option.getD_some, if_neg (by simpa using hpos), Json.asArray?_eq_some hitems]
        next hname => exact hnames name hname
      cases hvalue : config.get? "hooks" with
      | none => exact storeMapping_none hvalue fun name => by rw [hmember, member?, mapping?, hvalue]; rfl
      | some value =>
        obtain ⟨d, hd, hempty⟩ := h.hooks value hvalue
        have hmapping : mapping? config "hooks" = some d := by rw [mapping?, hvalue]; exact hd
        exact storeMapping_kept hmapping hempty fun name => by rw [hmember, member?, hmapping]; rfl
    · rw [hremoved]
      refine storeMapping_same fun name => ?_
      rw [get?_unhooked, get?_unhooked]
      split
      next => rfl
      next hname => rw [hnames name hname, member?, hhooks]; rfl
  · left
    rw [get?_removeObserveHook hother, get?_removeObserveHook hother, addObserveHook_eq, get?_setMember hother]

-- The promise

theorem Tame.faithful (h : Tame editor own config) : Faithful editor own config where
  kept edits := (h.run edits).1
  add_hook_twice edits sink redact matcher := by
    rw [run_append, run_append]
    exact addObserveHook_twice sink redact matcher
  add_server_twice edits entry := by
    rw [run_append, run_append]
    exact addFlowServer_twice entry
  remove_hook edits sink redact matcher := by
    rw [run_append, run_append]
    exact (h.run edits).2.remove_addObserveHook sink redact matcher
  remove_server edits entry := by
    rw [run_append, run_append]
    exact remove_addFlowServer (h.run edits).2.server entry

theorem not_sameAt_storeMapping {config' : OrderedDict Json} (hempty : ∀ name, d.get? name = none)
    (hvalue : config'.get? key = some value) : ¬ SameAt key (storeMapping config key d) config' := by
  rintro (h | ⟨d', e, hd, -⟩)
  · rw [storeMapping, if_pos (isEmpty_iff.2 hempty), OrderedDict.get?_erase, if_pos rfl, hvalue] at h
    cases h
  · rw [mapping?_storeMapping, if_pos (isEmpty_iff.2 hempty)] at hd
    cases hd

theorem removeObserveHook_of_groups (h : groups config = []) : (removeObserveHookFromSettings config).1 = config := by
  rcases @removeObserveHook_cases config with ⟨hsame, -⟩ | ⟨hooks, -, ⟨group, hgroup, -⟩, -⟩
  · exact hsame
  · rw [h] at hgroup
    cases hgroup

theorem Faithful.remove_hook_now (h : Faithful editor own config) (hgroups : groups config = []) :
    ∃ hooks, (∀ name, name ≠ "PostToolUse" → hooks.get? name = member? config "hooks" name) ∧
      SameConfig (storeMapping (addObserveHookToSettings config (renderPosttooluseHook "" true "")) "hooks" (unhooked hooks []))
        config := by
  obtain ⟨hooks, hadded, hnames⟩ := @removeObserveHook_added config "" true ""
  have hsame : SameConfig
      (removeObserveHookFromSettings (addObserveHookToSettings config (renderPosttooluseHook "" true ""))).1
      (removeObserveHookFromSettings config).1 := h.remove_hook [] "" true ""
  rw [removeObserveHook_of_groups hgroups, hadded, hgroups] at hsame
  exact ⟨hooks, hnames, hsame⟩

/-- A mapping that an edit replaces or drops was none that the user filled. -/
theorem Faithful.hooks (h : Faithful editor own config) (hvalue : config.get? "hooks" = some value) : Filled value := by
  cases hobject : value.asObject? with
  | none =>
    have hshape := (h.kept [.addHook "" true ""]).hooks_shape value hvalue hobject
    obtain ⟨d, hd, -⟩ := filled_setMember hshape
    rw [hobject] at hd
    cases hd
  | some d =>
    refine ⟨d, hobject, Bool.eq_false_iff.2 fun hempty => ?_⟩
    have hmember : ∀ name, member? config "hooks" name = none := by
      intro name
      rw [member?, mapping?, hvalue, Option.bind_some, hobject]
      exact isEmpty_iff.1 hempty name
    obtain ⟨hooks, hnames, hsame⟩ := h.remove_hook_now (by rw [groups, hmember]; rfl)
    refine not_sameAt_storeMapping (fun name => ?_) hvalue (hsame "hooks")
    rw [get?_unhooked]
    split
    next => rfl
    next hname => rw [hnames name hname, hmember]

theorem Faithful.event (h : Faithful editor own config) (hvalue : member? config "hooks" "PostToolUse" = some value) :
    ∃ items, value.asArray? = some items ∧ items ≠ [] := by
  cases harray : value.asArray? with
  | none =>
    have hshape : member? (addObserveHookToSettings config (renderPosttooluseHook "" true "")) "hooks" "PostToolUse" = some value :=
      (h.kept [.addHook "" true ""]).event_shape value hvalue harray
    rw [addObserveHook_eq, member?_setMember, if_pos rfl] at hshape
    rw [← Option.some.inj hshape] at harray
    cases harray
  | some items =>
    refine ⟨items, rfl, ?_⟩
    rintro rfl
    obtain ⟨hooks, -, hsame⟩ := h.remove_hook_now (by rw [groups, hvalue, Option.bind_some, harray]; rfl)
    have hmember : (unhooked hooks []).get? "PostToolUse" = member? config "hooks" "PostToolUse" :=
      member?_storeMapping.symm.trans hsame.member?
    rw [get?_unhooked, hvalue] at hmember
    cases hmember

theorem Faithful.server (h : Faithful editor own config) (hvalue : config.get? editor.serversKey = some value) :
    Filled value := by
  cases hobject : value.asObject? with
  | none =>
    have hshape := (h.kept [.addServer .empty]).server_shape value hvalue hobject
    obtain ⟨d, hd, -⟩ := filled_setMember hshape
    rw [hobject] at hd
    cases hd
  | some d =>
    refine ⟨d, hobject, Bool.eq_false_iff.2 fun hempty => ?_⟩
    have hmapping : mapping? config editor.serversKey = some d := by rw [mapping?, hvalue]; exact hobject
    have hsame : SameConfig
        (removeFlowServer (addFlowServer config .empty editor.serversKey flowServerName) editor.serversKey flowServerName).1
        (removeFlowServer config editor.serversKey flowServerName).1 := h.remove_server [] .empty
    have hnot : d.contains flowServerName = false := by
      refine Bool.eq_false_iff.2 fun hcontains => ?_
      obtain ⟨value, hget⟩ := OrderedDict.contains_iff.1 hcontains
      rw [isEmpty_iff.1 hempty] at hget
      cases hget
    have halone : (removeFlowServer config editor.serversKey flowServerName).1 = config := by
      simp [removeFlowServer, hmapping, hnot]
    have hadded : (removeFlowServer (addFlowServer config .empty editor.serversKey flowServerName) editor.serversKey
        flowServerName).1 = storeMapping (addFlowServer config .empty editor.serversKey flowServerName) editor.serversKey
          ((d.insert flowServerName (.object (.empty : OrderedDict Json).entries)).erase flowServerName) := by
      rw [addFlowServer_eq, removeFlowServer, mapping?_setMember, hmapping]
      simp [storeMapping]
    rw [halone, hadded] at hsame
    refine not_sameAt_storeMapping (fun name => ?_) hvalue (hsame editor.serversKey)
    rw [OrderedDict.get?_erase, OrderedDict.get?_insert, isEmpty_iff.1 hempty]
    split <;> rfl

theorem Faithful.tame (h : Faithful editor own config) : Tame editor own config where
  hooks _ := h.hooks
  event _ := h.event
  group group hgroup hmarked := by
    have hkept := (h.kept [.removeHook]).hooks
    rw [AgentConfig.run, List.foldl_cons, List.foldl_nil, AgentConfig.apply, groups_removeObserveHook] at hkept
    exact nil_of_flatMap_filter hkept group hgroup (by rw [hmarked]; rfl)
  server _ := h.server

/-- Every edit of a configuration keeps what the user wrote, adding is idempotent and removing undoes
it, exactly if the configuration is tame. -/
theorem faithful_iff_tame (editor : Editor) (own : Ownership) (config : OrderedDict Json) :
    Faithful editor own config ↔ Tame editor own config :=
  ⟨Faithful.tame, Tame.faithful⟩

end

-- A group that is shared

/-- Only the commands that are built belong to ChainWeaver. -/
def builtOnly : Ownership := ⟨fun command => ∃ sink redact, command = buildObserveHookCommand sink redact, fun sink redact => ⟨sink, redact, rfl⟩⟩

/-- A group with a command of the user and ChainWeaver's own. -/
def sharedGroup : Json :=
  .object [("hooks", .array [.object [("command", .str "lint")],
    .object [("command", .str "chainweaver claude capture --sink traces.jsonl")]])]

def sharedSettings : OrderedDict Json :=
  OrderedDict.empty.insert "hooks" (.object [("PostToolUse", .array [sharedGroup])])

/-- The user's command goes with ChainWeaver's. -/
theorem shared_command_removed :
    (removeObserveHookFromSettings sharedSettings).1 = .empty ∧ ¬ Faithful .claudeCode builtOnly sharedSettings := by
  refine ⟨OrderedDict.ext_entries rfl, fun h => ?_⟩
  have hnil : builtOnly.userHooks sharedGroup = [] := h.tame.group sharedGroup (.head _) (by decide +kernel)
  have hlint : ¬ builtOnly.OwnHook (.object [("command", .str "lint")]) := by
    rintro ⟨command, hcommand, sink, redact, rfl⟩
    obtain hlint : "lint" = buildObserveHookCommand sink redact := Option.some.inj hcommand
    exact absurd (hlint ▸ marker_infix_built sink redact) (by decide)
  have hmem : (OrderedDict.empty, Json.object [("command", .str "lint")]) ∈ builtOnly.userHooks sharedGroup := by
    refine List.mem_map.2 ⟨_, List.mem_filter.2 ⟨.head _, by simpa using hlint⟩, ?_⟩
    exact Prod.ext (OrderedDict.ext_entries rfl) rfl
  rw [hnil] at hmem
  cases hmem

end AgentConfig

end ChainWeaver
