import ChainWeaver.FlowStoreLaws
import ChainWeaver.Registry
import ChainWeaver.Sample
import Mathlib.Data.List.Lex

/-!
# Latest versions

The pointer names a maximal version of each name, whatever the calls. A registry
built again over the store points to the last of the equal versions in the order
of the store.
-/

namespace ChainWeaver

-- Stores

namespace RegistryStore

/-- The flows that can be loaded are the listed ones, each under its own name and version. -/
structure Loads (store : RegistryStore) (stored : store.State) : Prop where
  loaded : ∀ key ∈ store.listKeys stored, ∃ flow, store.loadFlow stored key = .ok flow
  listed : store.loadFlow stored key = .ok flow → key ∈ store.listKeys stored ∧ flow.key = key

/-- A flow that fits is listed once it is saved, with what was listed before. -/
structure Keeps (store : RegistryStore) (Fit : FullFlow → Prop) : Prop where
  loads : store.Loads stored → Fit flow → store.saveFlow stored flow overwrite = .ok stored' → store.Loads stored'
  keys : store.Loads stored → Fit flow → store.saveFlow stored flow overwrite = .ok stored' →
    ∀ key, key ∈ store.listKeys stored' ↔ key = flow.key ∨ key ∈ store.listKeys stored

end RegistryStore

namespace InMemoryStore

theorem mem_listKeys {flows : Flows} : key ∈ listKeys flows ↔ key ∈ flows := by
  rw [listKeys, List.mem_insertionSort, AList.mem_keys]

theorem loadFlow_eq_ok {flows : Flows} : loadFlow flows key = .ok flow ↔ flows.lookup key = some flow := by
  unfold loadFlow
  split
  next found hfound => rw [hfound, Except.ok.injEq, Option.some.injEq]
  next hnone => simp [hnone]

theorem saveFlow_eq {flows flows' : Flows} (h : saveFlow flows flow overwrite = .ok flows') :
    flows' = flows.insert flow.key flow := by
  unfold saveFlow at h
  split at h
  · cases h
  · exact (Except.ok.inj h).symm

theorem loadFlow_insert_self (flows : Flows) : loadFlow (flows.insert flow.key flow) flow.key = .ok flow := by
  rw [loadFlow_eq_ok, lookup_insert, if_pos rfl]

theorem loadFlow_insert_ne (flows : Flows) (h : key ≠ flow.key) :
    loadFlow (flows.insert flow.key flow) key = loadFlow flows key := by
  unfold loadFlow
  rw [lookup_insert, if_neg h]

theorem mem_listKeys_insert (flows : Flows) :
    key ∈ listKeys (flows.insert flow.key flow) ↔ key = flow.key ∨ key ∈ listKeys flows := by
  rw [mem_listKeys, mem_listKeys, AList.mem_insert]

theorem listed_of_loadFlow {flows : Flows} (h : loadFlow flows key = .ok flow) : key ∈ listKeys flows := by
  rw [mem_listKeys, ← AList.lookup_isSome, loadFlow_eq_ok.1 h]
  rfl

theorem loaded_of_listed {flows : Flows} (h : key ∈ listKeys flows) : ∃ flow, loadFlow flows key = .ok flow := by
  obtain ⟨flow, hflow⟩ := Option.isSome_iff_exists.1 (AList.lookup_isSome.2 (mem_listKeys.1 h))
  exact ⟨flow, loadFlow_eq_ok.2 hflow⟩

theorem registryStore_keeps : registryStore.Keeps fun _ => True where
  loads {flows flow overwrite flows'} hloads _ hsave := by
    obtain rfl := saveFlow_eq hsave
    refine ⟨fun key hkey => loaded_of_listed hkey, fun {key read} hread => ⟨listed_of_loadFlow hread, ?_⟩⟩
    by_cases heq : key = flow.key
    · subst heq
      obtain rfl := Except.ok.inj ((loadFlow_insert_self flows).symm.trans hread)
      rfl
    · exact (hloads.listed ((loadFlow_insert_ne flows heq).symm.trans hread)).2
  keys {flows flow overwrite flows'} _ _ hsave key := by
    obtain rfl := saveFlow_eq hsave
    exact mem_listKeys_insert flows

end InMemoryStore

theorem FullFlow.key_of_normal {flow read : FullFlow} (h : read.normal = flow.normal) : read.key = flow.key := by
  show read.normal.key = flow.normal.key
  rw [h]

namespace FileStore

variable {store : FileStore} {dir dir' : Dir} {key : FlowKey}

/-- A flow whose file is listed and read back. -/
def Fits (store : FileStore) (flow : FullFlow) : Prop := flow.version ≠ "" ∧ store.Survives flow

theorem pathFor_allowed (h : key.pathFor = .ok file) : key.Allowed := by
  obtain ⟨_, hname, h⟩ := Attempt.bind_eq_ok.1 h
  obtain ⟨_, hversion, -⟩ := Attempt.bind_eq_ok.1 h
  exact ⟨hname, hversion⟩

theorem saveFlow_allowed (h : store.saveFlow dir flow overwrite = .ok dir') : flow.key.Allowed := by
  obtain ⟨file, hfile, -⟩ := Attempt.bind_eq_ok.1 h
  exact pathFor_allowed hfile

theorem loadFlow_allowed (h : store.loadFlow dir key = .ok flow) : key.Allowed := by
  obtain ⟨found, hfound, -⟩ := Attempt.bind_eq_ok.1 h
  obtain ⟨file, hfile, -⟩ := Attempt.bind_eq_ok.1 hfound
  exact pathFor_allowed hfile

/-- Another file does not change what is loaded. -/
theorem loadFlow_insert (hkey : key.Allowed) (hne : key.fileName ≠ file) :
    store.loadFlow (dir.insert file text) key = store.loadFlow dir key := by
  have hget : (dir.insert file text).get? key.fileName = dir.get? key.fileName := by
    rw [OrderedDict.get?_insert, if_neg hne]
  have hcontains : (dir.insert file text).contains key.fileName = dir.contains key.fileName := by
    rw [OrderedDict.contains_insert, decide_eq_false hne, Bool.false_or]
  unfold loadFlow lookup
  rw [hkey.pathFor]
  change (do let found ← (do let present ← store.pathExists _ _; _); _) =
    (do let found ← (do let present ← store.pathExists _ _; _); _)
  rw [pathExists, pathExists, hcontains, hget]

theorem mem_listKeys : key ∈ listKeys dir ↔ ∃ file, dir.contains file = true ∧ FlowKey.parse file = some key := by
  simp only [listKeys, List.mem_filterMap, List.mem_insertionSort, OrderedDict.contains, List.contains_iff_mem]

theorem mem_listKeys_insert (hkey : FlowKey.parse file = some key) :
    other ∈ listKeys (dir.insert file text) ↔ other = key ∨ other ∈ listKeys dir := by
  simp only [mem_listKeys, OrderedDict.contains_insert, Bool.or_eq_true, decide_eq_true_eq, or_and_right,
    exists_or, exists_eq_left, hkey, Option.some.injEq, eq_comm (a := key)]

section
variable {flow : FullFlow}

theorem loadFlow_saved (hfits : store.Fits flow) (hsave : store.saveFlow dir flow overwrite = .ok dir') :
    ∃ read, store.loadFlow dir' flow.key = .ok read ∧ read.normal = flow.normal := by
  have hkey := saveFlow_allowed hsave
  obtain ⟨-, htakes, -, text, htext, rfl⟩ := (saveFlow_eq_ok hkey).1 hsave
  obtain ⟨read, hread, hsame⟩ := (Serializer.flowFromJson_same_iff htext {}).2 hfits.2
  have hget : (dir.insert flow.key.fileName text).get? flow.key.fileName = some text := by
    rw [OrderedDict.get?_insert, if_pos rfl]
  exact ⟨read, (loadFlow_stored hkey htakes hget read).2 hread, hsame.normal⟩

theorem loadFlow_other (hsave : store.saveFlow dir flow overwrite = .ok dir') (hkey : key.Allowed)
    (hne : key ≠ flow.key) : store.loadFlow dir' key = store.loadFlow dir key := by
  have hown := saveFlow_allowed hsave
  obtain ⟨-, -, -, text, -, rfl⟩ := (saveFlow_eq_ok hown).1 hsave
  exact loadFlow_insert hkey fun hfile => hne (hkey.eq_of_fileName hown hfile)

theorem mem_listKeys_saved (hfits : store.Fits flow) (hsave : store.saveFlow dir flow overwrite = .ok dir') :
    key ∈ listKeys dir' ↔ key = flow.key ∨ key ∈ listKeys dir := by
  have hkey := saveFlow_allowed hsave
  obtain ⟨-, -, -, text, -, rfl⟩ := (saveFlow_eq_ok hkey).1 hsave
  exact mem_listKeys_insert (hkey.parse_fileName.trans (if_neg hfits.1))

theorem registryStore_keeps (store : FileStore) : store.registryStore.Keeps store.Fits where
  loads {dir flow overwrite dir'} hloads hfits hsave := by
    constructor
    · intro key hmem
      by_cases heq : key = flow.key
      · obtain ⟨read, hread, -⟩ := loadFlow_saved hfits hsave
        exact ⟨read, heq ▸ hread⟩
      · obtain ⟨read, hread⟩ := hloads.loaded key (((mem_listKeys_saved hfits hsave).1 hmem).resolve_left heq)
        exact ⟨read, (loadFlow_other hsave (loadFlow_allowed hread) heq).trans hread⟩
    · intro key read hread
      by_cases heq : key = flow.key
      · obtain ⟨own, hown, hkey⟩ := loadFlow_saved hfits hsave
        obtain rfl := Except.ok.inj (hown.symm.trans (heq ▸ hread))
        exact ⟨(mem_listKeys_saved hfits hsave).2 (.inl heq), (FullFlow.key_of_normal hkey).trans heq.symm⟩
      · have hbefore := (loadFlow_other hsave (loadFlow_allowed hread) heq).symm.trans hread
        obtain ⟨hlisted, hkey⟩ := hloads.listed hbefore
        exact ⟨(mem_listKeys_saved hfits hsave).2 (.inr hlisted), hkey⟩
  keys _ hfits hsave _ := mem_listKeys_saved hfits hsave

end

end FileStore

-- The pointer

namespace FlowRegistry

variable {V : Type} {registry : FlowRegistry V}

theorem parseVersion_of_ok (h : registry.parse version = .ok parsed) :
    registry.parseVersion name version = .ok parsed := by
  rw [parseVersion, h]

theorem parse_of_ok (h : registry.parseVersion name version = .ok parsed) :
    registry.parse version = .ok parsed := by
  unfold parseVersion at h
  split at h
  next hparse => rw [hparse, Except.ok.inj h]
  next => cases h

variable [LinearOrder V] {latest : OrderedDict String} {Registered : FlowKey → Prop}

/-- Both versions are valid, and the first is at most the second. -/
def AtMost (registry : FlowRegistry V) (first second : String) : Prop :=
  ∃ a b, registry.parse first = .ok a ∧ registry.parse second = .ok b ∧ a ≤ b

theorem AtMost.trans (h₁ : registry.AtMost first second) (h₂ : registry.AtMost second third) :
    registry.AtMost first third := by
  obtain ⟨a, b, ha, hb, hab⟩ := h₁
  obtain ⟨b', c, hb', hc, hbc⟩ := h₂
  obtain rfl := Except.ok.inj (hb.symm.trans hb')
  exact ⟨a, c, ha, hc, hab.trans hbc⟩

/-- The pointer names a version of each registered name, and one that is maximal. -/
structure Points (registry : FlowRegistry V) (Registered : FlowKey → Prop) (latest : OrderedDict String) : Prop where
  unpointed : latest.get? name = none → ∀ key, Registered key → key.name ≠ name
  pointed : latest.get? name = some version →
    Registered ⟨name, version⟩ ∧ ∀ key, Registered key → key.name = name → registry.AtMost key.version version

theorem Points.empty : registry.Points (fun _ => False) .empty where
  unpointed _ _ h := h.elim
  pointed h := by cases h

theorem Points.congr {Other : FlowKey → Prop} (h : registry.Points Registered latest)
    (hiff : ∀ key, Registered key ↔ Other key) : registry.Points Other latest := by
  obtain rfl : Registered = Other := funext fun key => propext (hiff key)
  exact h

theorem Points.valid (h : registry.Points Registered latest) (hkey : Registered key) :
    ∃ parsed, registry.parse key.version = .ok parsed := by
  cases hget : latest.get? key.name with
  | none => exact absurd rfl (h.unpointed hget key hkey)
  | some current =>
    obtain ⟨parsed, _, hparsed, -⟩ := (h.pointed hget).2 key hkey rfl
    exact ⟨parsed, hparsed⟩

/-- A touched version becomes the latest unless the latest is newer. -/
theorem touchLatest_cases (name : String) (h : registry.Points Registered latest) (hparse : registry.parse version = .ok parsed) :
    (registry.touchLatest latest name version = .ok (latest.insert name version) ∧
      ∀ key, Registered key → key.name = name → registry.AtMost key.version version) ∨
    ∃ current, registry.touchLatest latest name version = .ok latest ∧ latest.get? name = some current ∧
      registry.AtMost version current ∧ ¬ registry.AtMost current version := by
  have hnew : registry.parseVersion name version = .ok parsed := parseVersion_of_ok hparse
  cases hget : latest.get? name with
  | none =>
    refine .inl ⟨?_, fun key hkey hname => absurd hname (h.unpointed hget key hkey)⟩
    simp only [touchLatest, hnew, hget]
    rfl
  | some current =>
    obtain ⟨hcurrent, hmax⟩ := h.pointed hget
    obtain ⟨other, hother⟩ := h.valid hcurrent
    have hold : registry.parseVersion name current = .ok other := parseVersion_of_ok hother
    by_cases hle : other ≤ parsed
    · refine .inl ⟨?_, fun key hkey hname => (hmax key hkey hname).trans ⟨other, parsed, hother, hparse, hle⟩⟩
      simp only [touchLatest, hnew, hget]
      change (do let parsedCurrent ← registry.parseVersion name current; _) = _
      rw [hold]
      exact if_pos hle
    · refine .inr ⟨current, ?_, rfl, ⟨parsed, other, hparse, hother, (not_le.1 hle).le⟩, ?_⟩
      · simp only [touchLatest, hnew, hget]
        change (do let parsedCurrent ← registry.parseVersion name current; _) = _
        rw [hold]
        exact if_neg hle
      · rintro ⟨a, b, ha, hb, hab⟩
        obtain rfl := Except.ok.inj (hother.symm.trans ha)
        obtain rfl := Except.ok.inj (hparse.symm.trans hb)
        exact hle hab

theorem Points.insert (h : registry.Points Registered latest) (hparse : registry.parse version = .ok parsed)
    (hmax : ∀ key, Registered key → key.name = name → registry.AtMost key.version version) :
    registry.Points (fun key => key = ⟨name, version⟩ ∨ Registered key) (latest.insert name version) where
  unpointed {other} hget key hkey := by
    rw [OrderedDict.get?_insert] at hget
    split at hget
    · cases hget
    next hne =>
      obtain rfl | hkey := hkey
      · exact Ne.symm hne
      · exact h.unpointed hget key hkey
  pointed {other current} hget := by
    rw [OrderedDict.get?_insert] at hget
    split at hget
    next heq =>
      obtain rfl := Option.some.inj hget
      subst heq
      refine ⟨.inl rfl, ?_⟩
      rintro key (rfl | hkey) hname
      · exact ⟨parsed, parsed, hparse, hparse, le_rfl⟩
      · exact hmax key hkey hname
    next hne =>
      obtain ⟨hown, hothers⟩ := h.pointed hget
      refine ⟨.inr hown, ?_⟩
      rintro key (rfl | hkey) hname
      · exact absurd hname.symm hne
      · exact hothers key hkey hname

theorem Points.keep (h : registry.Points Registered latest) (hget : latest.get? name = some current)
    (hle : registry.AtMost version current) :
    registry.Points (fun key => key = ⟨name, version⟩ ∨ Registered key) latest where
  unpointed {other} hother key hkey := by
    obtain rfl | hkey := hkey
    · rintro rfl
      exact nomatch hother.symm.trans hget
    · exact h.unpointed hother key hkey
  pointed {other latestVersion} hother := by
    obtain ⟨hown, hothers⟩ := h.pointed hother
    refine ⟨.inr hown, ?_⟩
    rintro key (rfl | hkey) rfl
    · obtain rfl := Option.some.inj (hget.symm.trans hother)
      exact hle
    · exact hothers key hkey rfl

theorem Points.touch (name : String) (h : registry.Points Registered latest) (hparse : registry.parse version = .ok parsed) :
    ∃ latest', registry.touchLatest latest name version = .ok latest' ∧
      registry.Points (fun key => key = ⟨name, version⟩ ∨ Registered key) latest' := by
  obtain ⟨htouch, hmax⟩ | ⟨current, htouch, hget, hle, -⟩ := touchLatest_cases name h hparse
  · exact ⟨_, htouch, h.insert hparse hmax⟩
  · exact ⟨_, htouch, h.keep hget hle⟩

-- Opening a registry

/-- The listed versions of the name that are equal to this one. -/
def equals (registry : FlowRegistry V) (keys : List FlowKey) (name version : String) : List FlowKey :=
  keys.filter fun key => key.name = name ∧
    (registry.parse key.version).toOption = (registry.parse version).toOption

/-- Of equal versions the pointer names the last. -/
def Lasts (registry : FlowRegistry V) (keys : List FlowKey) (latest : OrderedDict String) : Prop :=
  ∀ name version, latest.get? name = some version → (registry.equals keys name version).getLast? = some ⟨name, version⟩

theorem equals_concat_self (keys : List FlowKey) (name version : String) :
    (registry.equals (keys ++ [⟨name, version⟩]) name version).getLast? = some ⟨name, version⟩ := by
  simp [equals, List.filter_append]

theorem equals_concat_ne (h : key.name = name →
    (registry.parse key.version).toOption ≠ (registry.parse version).toOption) :
    registry.equals (keys ++ [key]) name version = registry.equals keys name version := by
  have hnot : ¬ (key.name = name ∧ (registry.parse key.version).toOption = (registry.parse version).toOption) :=
    fun ⟨hname, heq⟩ => h hname heq
  simp [equals, List.filter_append, hnot]

theorem Lasts.touch (hpoints : registry.Points Registered latest) (h : registry.Lasts done latest)
    (hparse : registry.parse key.version = .ok parsed)
    (htouch : registry.touchLatest latest key.name key.version = .ok latest') :
    registry.Lasts (done ++ [key]) latest' := by
  intro name version hget
  obtain ⟨hmoved, -⟩ | ⟨current, hkept, hcurrent, -, hnewer⟩ :=
    touchLatest_cases key.name hpoints hparse
  · obtain rfl := Except.ok.inj (hmoved.symm.trans htouch)
    rw [OrderedDict.get?_insert] at hget
    split at hget
    next heq =>
      obtain rfl := Option.some.inj hget
      subst heq
      exact equals_concat_self done key.name key.version
    next hne =>
      rw [equals_concat_ne fun heq => absurd heq.symm hne]
      exact h name version hget
  · obtain rfl := Except.ok.inj (hkept.symm.trans htouch)
    rw [equals_concat_ne, h name version hget]
    rintro rfl heq
    obtain rfl := Option.some.inj (hcurrent.symm.trans hget)
    obtain ⟨other, hother⟩ := hpoints.valid (hpoints.pointed hget).1
    rw [hparse, hother] at heq
    obtain rfl := Option.some.inj heq
    exact hnewer ⟨parsed, parsed, hother, hparse, le_rfl⟩

theorem touchFrom_points (keys : List FlowKey) (hvalid : ∀ key ∈ keys, ∃ parsed, registry.parse key.version = .ok parsed)
    (hpoints : registry.Points (· ∈ done) latest) (hlasts : registry.Lasts done latest) :
    ∃ latest', keys.foldlM (fun latest key => registry.touchLatest latest key.name key.version) latest = .ok latest' ∧
      registry.Points (· ∈ done ++ keys) latest' ∧ registry.Lasts (done ++ keys) latest' := by
  induction keys generalizing done latest with
  | nil => exact ⟨latest, rfl, by simpa using hpoints, by simpa using hlasts⟩
  | cons key rest ih =>
    rw [List.forall_mem_cons] at hvalid
    obtain ⟨parsed, hparse⟩ := hvalid.1
    obtain ⟨middle, htouch, hmiddle⟩ := hpoints.touch key.name hparse
    have hmiddle : registry.Points (fun other => other = key ∨ other ∈ done) middle := hmiddle
    have hmiddle : registry.Points (· ∈ done ++ [key]) middle := hmiddle.congr fun other => by simp [or_comm]
    obtain ⟨latest', hrest, hall⟩ := ih hvalid.2 hmiddle (hlasts.touch hpoints hparse htouch)
    refine ⟨latest', ?_, by simpa using hall⟩
    rw [List.foldlM_cons, htouch]
    exact hrest

theorem touchAll_points (hvalid : ∀ key ∈ keys, ∃ parsed, registry.parse key.version = .ok parsed) :
    ∃ latest, registry.touchAll keys = .ok latest ∧ registry.Points (· ∈ keys) latest ∧ registry.Lasts keys latest :=
  have hpoints : registry.Points (· ∈ []) .empty := Points.empty.congr fun _ => by simp
  touchFrom_points keys hvalid hpoints fun name version h => by cases h

/-- A registry opens only over valid versions. -/
theorem touchFrom_valid (keys : List FlowKey)
    (h : keys.foldlM (fun latest key => registry.touchLatest latest key.name key.version) latest = .ok latest') :
    ∀ key ∈ keys, ∃ parsed, registry.parse key.version = .ok parsed := by
  induction keys generalizing latest with
  | nil => exact List.forall_mem_nil _
  | cons key rest ih =>
    rw [List.foldlM_cons] at h
    obtain ⟨middle, htouch, hrest⟩ := Attempt.bind_eq_ok.1 h
    obtain ⟨parsed, hparsed, -⟩ := Attempt.bind_eq_ok.1 htouch
    exact List.forall_mem_cons.2 ⟨⟨parsed, parse_of_ok hparsed⟩, ih hrest⟩

-- Calls

variable {Fit : FullFlow → Prop} {state : State registry.store}

structure Sound (registry : FlowRegistry V) (state : State registry.store) : Prop where
  loads : registry.store.Loads state.stored
  points : registry.Points (· ∈ registry.store.listKeys state.stored) state.latest

theorem init_sound (hloads : registry.store.Loads stored) (h : registry.init stored = .ok opened) :
    registry.Sound opened := by
  obtain ⟨latest, htouch, h⟩ := Attempt.bind_eq_ok.1 h
  obtain rfl := Except.ok.inj h
  obtain ⟨latest', htouch', hpoints, -⟩ := touchAll_points (touchFrom_valid _ htouch)
  obtain rfl := Except.ok.inj (htouch.symm.trans htouch')
  exact ⟨hloads, hpoints⟩

omit [LinearOrder V] in
theorem checkTopology_linear {flow : FullFlow} (h : flow.steps.isDag = false) : registry.checkTopology flow = .ok () := by
  rw [checkTopology]
  cases hsteps : flow.steps with
  | linear => rfl
  | dag => rw [hsteps] at h; cases h

theorem getFlow_key (h : registry.Sound state) (hget : registry.getFlow state name version = .ok flow) :
    flow.key ∈ registry.store.listKeys state.stored := by
  unfold getFlow at hget
  split at hget
  · cases hget
  · split at hget
    next found hfound =>
      obtain rfl := Except.ok.inj hget
      obtain ⟨hlisted, hkey⟩ := h.loads.listed hfound
      exact hkey ▸ hlisted
    next => cases hget

theorem saveAndTouch_sound (overwrite : Bool) (hkeeps : registry.store.Keeps Fit) (h : registry.Sound state) (hfit : Fit flow)
    (hparse : registry.parse flow.version = .ok parsed) :
    registry.Sound (registry.saveAndTouch state flow overwrite).2 := by
  unfold saveAndTouch
  split
  · exact h
  next stored hsave =>
    obtain ⟨latest, htouch, hpoints⟩ := h.points.touch flow.name hparse
    rw [htouch]
    refine ⟨hkeeps.loads h.loads hfit hsave, hpoints.congr fun key => ?_⟩
    exact (hkeeps.keys h.loads hfit hsave key).symm

theorem registerFlow_sound (overwrite : Bool) (hkeeps : registry.store.Keeps Fit) (h : registry.Sound state) (hfit : Fit flow) :
    registry.Sound (registry.registerFlow state flow overwrite).2 := by
  unfold registerFlow
  split
  · exact h
  · exact h
  next hparse _ => exact saveAndTouch_sound overwrite hkeeps h hfit (parse_of_ok hparse)

theorem updateFlowState_sound (flowName : String) (hkeeps : registry.store.Keeps Fit) (h : registry.Sound state)
    (hfit : ∀ flow, registry.getFlow state flowName version = .ok flow → Fit (updated flow status toolSchemaHashes)) :
    registry.Sound (registry.updateFlowState state flowName version status toolSchemaHashes).2 := by
  unfold updateFlowState
  split
  · exact h
  next flow hget =>
    split
    · exact h
    · obtain ⟨parsed, hparse⟩ := h.points.valid (getFlow_key h hget)
      have hsaved := saveAndTouch_sound true hkeeps h (hfit flow hget) hparse
      dsimp only
      split
      next heq =>
        rw [heq] at hsaved
        exact hsaved
      next heq =>
        rw [heq] at hsaved
        exact hsaved

theorem setFlowStatus_sound (hkeeps : registry.store.Keeps Fit) (h : registry.Sound state)
    (hfit : ∀ flow, registry.getFlow state flowName version = .ok flow → Fit (updated flow (some status) none)) :
    registry.Sound (registry.setFlowStatus state flowName status version).2 := by
  have hupdated := updateFlowState_sound flowName hkeeps h hfit
  unfold setFlowStatus
  split
  next heq =>
    rw [heq] at hupdated
    exact hupdated
  next heq =>
    rw [heq] at hupdated
    exact hupdated

omit [LinearOrder V] in
/-- A scan keeps what visiting a file keeps. -/
theorem scanFiles_keeps {Inv : State registry.store → Prop} {visit : Visit registry.store}
    (scan : Scan) (files : List FlowFile) (hfit : ∀ file ∈ files, ∀ flow, registry.loadFlowFile file = .ok flow → Fit flow)
    (hvisit : ∀ state scan file flow, Inv state → Fit flow → Inv (visit state scan file flow).2) (h : Inv state) :
    Inv (registry.scanFiles visit state scan files).2 := by
  induction files generalizing state scan with
  | nil => exact h
  | cons file rest ih =>
    rw [List.forall_mem_cons] at hfit
    unfold scanFiles
    split
    · exact h
    next flow hread =>
      obtain ⟨loaded, hloaded, hread⟩ := Attempt.bind_eq_ok.1 hread
      obtain ⟨_, -, hread⟩ := Attempt.bind_eq_ok.1 hread
      obtain rfl := Except.ok.inj hread
      have hvisited := hvisit state scan file loaded h (hfit.1 loaded hloaded)
      split
      next heq =>
        rw [heq] at hvisited
        exact hvisited
      next heq =>
        rw [heq] at hvisited
        exact ih _ hfit.2 hvisited

/-- The flows in the files of a directory. -/
def Directory.All (registry : FlowRegistry V) (Fit : FullFlow → Prop) : Directory → Prop
  | .files _ files => ∀ file ∈ files, ∀ flow, registry.loadFlowFile file = .ok flow → Fit flow
  | _ => True

theorem scanDirectory_sound {visit : FlowHashes → Visit registry.store} {directory : Directory}
    (hfit : Directory.All registry Fit directory)
    (hvisit : ∀ previous state scan file flow, registry.Sound state → Fit flow →
      registry.Sound (visit previous state scan file flow).2) (h : registry.Sound state) :
    registry.Sound (registry.scanDirectory visit state directory).2 := by
  cases directory with
  | missing | notADirectory => exact h
  | files resolved files =>
    have hscanned := scanFiles_keeps {} (iterFlowFiles files)
      (fun file hfile => hfit file (List.mem_of_mem_filter hfile)) (hvisit ((state.dirHashes.get? resolved).getD ∅)) h
    unfold scanDirectory
    dsimp only
    split
    next heq =>
      rw [heq] at hscanned
      exact hscanned
    next heq =>
      rw [heq] at hscanned
      exact ⟨hscanned.loads, hscanned.points⟩

theorem loadVisit_sound (hkeeps : registry.store.Keeps Fit) (h : registry.Sound state) (hfit : Fit flow) :
    registry.Sound (registry.loadVisit overwrite state scan file flow).2 := by
  have hregistered := registerFlow_sound overwrite hkeeps h hfit
  unfold loadVisit
  split
  next heq =>
    rw [heq] at hregistered
    exact hregistered
  next heq =>
    rw [heq] at hregistered
    exact hregistered

theorem reloadVisit_sound (hkeeps : registry.store.Keeps Fit) (h : registry.Sound state) (hfit : Fit flow) :
    registry.Sound (registry.reloadVisit previous state scan file flow).2 := by
  have hregistered := registerFlow_sound true hkeeps h hfit
  unfold reloadVisit
  split
  · split
    next heq =>
      rw [heq] at hregistered
      exact hregistered
    next heq =>
      rw [heq] at hregistered
      exact hregistered
  · split
    · split
      next heq =>
        rw [heq] at hregistered
        exact hregistered
      next heq =>
        rw [heq] at hregistered
        exact hregistered
    · exact h

/-- The store keeps every flow that the call saves. -/
def Fits (registry : FlowRegistry V) (Fit : FullFlow → Prop) (state : State registry.store) : Op → Prop
  | .registerFlow flow _ => Fit flow
  | .getFlow .. => True
  | .updateFlowState flowName version status toolSchemaHashes =>
    ∀ flow, registry.getFlow state flowName version = .ok flow → Fit (updated flow status toolSchemaHashes)
  | .setFlowStatus flowName status version =>
    ∀ flow, registry.getFlow state flowName version = .ok flow → Fit (updated flow (some status) none)
  | .loadFromDirectory directory _ | .reloadFromDirectory directory => Directory.All registry Fit directory

theorem step_sound (hkeeps : registry.store.Keeps Fit) (h : registry.Sound state)
    (hfits : registry.Fits Fit state op) : registry.Sound (registry.step state op).2 := by
  cases op with
  | registerFlow flow overwrite => exact registerFlow_sound overwrite hkeeps h hfits
  | getFlow name version => exact h
  | updateFlowState flowName version status toolSchemaHashes => exact updateFlowState_sound flowName hkeeps h hfits
  | setFlowStatus flowName status version => exact setFlowStatus_sound hkeeps h hfits
  | loadFromDirectory directory overwrite =>
    exact scanDirectory_sound hfits (fun _ _ _ _ _ hs hfit => loadVisit_sound hkeeps hs hfit) h
  | reloadFromDirectory directory =>
    exact scanDirectory_sound hfits (fun _ _ _ _ _ hs hfit => reloadVisit_sound hkeeps hs hfit) h

-- Opening it again

/-- What `get_flow` finds under a name. -/
def answers (registry : FlowRegistry V) (state : State registry.store) (name : String) : Option FlowKey :=
  (registry.getFlow state name none).toOption.map FullFlow.key

omit [LinearOrder V] in
theorem getFlow_unpointed (hget : state.latest.get? name = none) :
    registry.getFlow state name none = .error (.flowNotFound name) := by
  simp only [getFlow, Option.none_or, hget]

theorem getFlow_pointed (h : registry.Sound state) (hget : state.latest.get? name = some version) :
    ∃ flow, registry.getFlow state name none = .ok flow ∧ flow.key = ⟨name, version⟩ := by
  obtain ⟨flow, hflow⟩ := h.loads.loaded _ (h.points.pointed hget).1
  refine ⟨flow, ?_, (h.loads.listed hflow).2⟩
  simp only [getFlow, Option.none_or, hget, hflow]

theorem answers_eq (h : registry.Sound state) (name : String) :
    registry.answers state name = (state.latest.get? name).map fun version => ⟨name, version⟩ := by
  unfold answers
  cases hget : state.latest.get? name with
  | none =>
    rw [getFlow_unpointed hget]
    rfl
  | some version =>
    obtain ⟨flow, hflow, hkey⟩ := getFlow_pointed h hget
    rw [hflow]
    exact congrArg some hkey

/-- The listed version of `get_flow` is maximal. -/
theorem getFlow_latest (h : registry.Sound state) (hlisted : ⟨name, version⟩ ∈ registry.store.listKeys state.stored) :
    ∃ flow, registry.getFlow state name none = .ok flow ∧ flow.name = name ∧
      flow.key ∈ registry.store.listKeys state.stored ∧
      ∀ key ∈ registry.store.listKeys state.stored, key.name = name → registry.AtMost key.version flow.version := by
  cases hget : state.latest.get? name with
  | none => exact absurd rfl (h.points.unpointed hget _ hlisted)
  | some current =>
    obtain ⟨flow, hflow, hkey⟩ := getFlow_pointed h hget
    obtain ⟨hown, hmax⟩ := h.points.pointed hget
    refine ⟨flow, hflow, congrArg FlowKey.name hkey, hkey ▸ hown, fun key hmem hname => ?_⟩
    have hversion : flow.version = current := congrArg FlowKey.version hkey
    exact hversion ▸ hmax key hmem hname

/-- The last of the equal versions is where a registry that is opened again points. -/
theorem reopened_iff (h : registry.Sound state)
    (hpoints : registry.Points (· ∈ registry.store.listKeys state.stored) latest)
    (hlasts : registry.Lasts (registry.store.listKeys state.stored) latest) :
    (∀ name, latest.get? name = state.latest.get? name) ↔
      registry.Lasts (registry.store.listKeys state.stored) state.latest := by
  constructor
  · intro hsame name version hget
    exact hlasts name version ((hsame name).trans hget)
  · intro hown name
    cases hget : state.latest.get? name with
    | none =>
      cases hother : latest.get? name with
      | none => rfl
      | some version => exact absurd rfl (h.points.unpointed hget _ (hpoints.pointed hother).1)
    | some version =>
      obtain ⟨hlisted, hmax⟩ := h.points.pointed hget
      cases hother : latest.get? name with
      | none => exact absurd rfl (hpoints.unpointed hother _ hlisted)
      | some other =>
        obtain ⟨hlisted', hmax'⟩ := hpoints.pointed hother
        obtain ⟨a, b, ha, hb, hab⟩ := hmax _ hlisted' rfl
        obtain ⟨b', a', hb', ha', hba⟩ := hmax' _ hlisted rfl
        obtain rfl := Except.ok.inj (ha.symm.trans ha')
        obtain rfl := Except.ok.inj (hb.symm.trans hb')
        obtain rfl := le_antisymm hab hba
        have hequals : registry.equals (registry.store.listKeys state.stored) name other =
            registry.equals (registry.store.listKeys state.stored) name version := by
          simp only [equals, ha, hb]
        have hlast := hlasts name other hother
        rw [hequals, hown name version hget, Option.some.injEq, FlowKey.mk.injEq] at hlast
        rw [hlast.2]

/-- No two listed versions of a name are equal. -/
def Distinct (registry : FlowRegistry V) (keys : List FlowKey) : Prop :=
  ∀ a ∈ keys, ∀ b ∈ keys, a.name = b.name → registry.parse a.version = registry.parse b.version →
    a.version = b.version

theorem Distinct.lasts (hpoints : registry.Points (· ∈ keys) latest) (h : registry.Distinct keys) :
    registry.Lasts keys latest := by
  intro name version hget
  obtain ⟨hown, -⟩ := hpoints.pointed hget
  obtain ⟨parsed, hparse⟩ := hpoints.valid hown
  have hmem : ⟨name, version⟩ ∈ registry.equals keys name version := by simp [equals, hown]
  obtain ⟨last, hlast⟩ := Option.ne_none_iff_exists'.1 fun hnone =>
    List.ne_nil_of_mem hmem (List.getLast?_eq_none_iff.1 hnone)
  have hequal := List.mem_of_getLast? hlast
  simp only [equals, List.mem_filter, decide_eq_true_eq] at hequal
  obtain ⟨hlisted, hname, hsame⟩ := hequal
  obtain ⟨other, hother⟩ := hpoints.valid hlisted
  rw [hparse, hother] at hsame
  have hversion : last.version = version := by
    refine h last hlisted ⟨name, version⟩ hown hname ?_
    rw [hparse, hother, Option.some.inj hsame]
  rw [hlast, ← hversion, ← hname]

/-- In every run `get_flow` answers with a maximal version. A registry opened again
answers the same exactly if the pointer names the last of the equal versions. -/
theorem latest_reopened (registry : FlowRegistry V) {stored : registry.store.State} {opened : State registry.store}
    (hkeeps : registry.store.Keeps Fit) (hloads : registry.store.Loads stored) (hopen : registry.init stored = .ok opened) (ops : List Op)
    (hfits : (registry.machine opened).Admitted (registry.Fits Fit) opened ops) :
    let state : State registry.store := (registry.machine opened).after ops
    let keys := registry.store.listKeys state.stored
    (∀ name version, ⟨name, version⟩ ∈ keys → ∃ flow, registry.getFlow state name none = .ok flow ∧
      flow.name = name ∧ flow.key ∈ keys ∧ ∀ key ∈ keys, key.name = name → registry.AtMost key.version flow.version) ∧
    ∃ reopened, registry.init state.stored = .ok reopened ∧
      ((∀ name, registry.answers reopened name = registry.answers state name) ↔ registry.Lasts keys state.latest) ∧
      (registry.Distinct keys → ∀ name, registry.answers reopened name = registry.answers state name) := by
  intro state keys
  have hsound : registry.Sound state :=
    Machine.stateFrom_admitted_keeps (m := registry.machine opened) (fun _ _ h hok => step_sound hkeeps h hok)
      (init_sound hloads hopen) hfits
  obtain ⟨latest, htouch, hpoints, hlasts⟩ := touchAll_points fun key hkey => hsound.points.valid hkey
  have hreopened : registry.Sound ⟨state.stored, latest, .empty⟩ := ⟨hsound.loads, hpoints⟩
  have hiff : (∀ name, registry.answers ⟨state.stored, latest, .empty⟩ name = registry.answers state name) ↔
      registry.Lasts keys state.latest := by
    rw [← reopened_iff hsound hpoints hlasts]
    refine forall_congr' fun name => ?_
    rw [answers_eq hreopened, answers_eq hsound]
    exact (Option.map_injective fun a b h => congrArg FlowKey.version h).eq_iff
  refine ⟨fun name version hlisted => getFlow_latest hsound hlisted, _, ?_, hiff, fun hdistinct => ?_⟩
  · unfold init
    rw [htouch]
    rfl
  · exact hiff.2 (hdistinct.lasts hsound.points)

-- Equal versions

def readNumber? (digits : Text) : Option Nat :=
  if digits.isEmpty then none
  else
    digits.foldlM (fun number c =>
      if c.isDigit then some (10 * number + (c.toNat - '0'.toNat)) else none) 0

/-- The numbers of a release, without the zeros at its end. -/
def readRelease (version : String) : Except String (List Nat) :=
  match (version.toList.splitOn '.').mapM readNumber? with
  | some numbers => .ok (numbers.reverse.dropWhile (· = 0)).reverse
  | none => .error s!"Invalid version: '{version}'"

def releaseRegistry : FlowRegistry (List Nat) where
  store := InMemoryStore.registryStore
  parse := readRelease
  hashing := Sample.platform.hashing
  serializer := Serializer.greetSerializer

def releasedFlow (version : String) : FullFlow := { Serializer.greetFlow (.int 2) with version }

def emptyRegistry : State InMemoryStore.registryStore := { stored := (∅ : InMemoryStore.Flows) }

theorem emptyRegistry_opened : releaseRegistry.init (∅ : InMemoryStore.Flows) = .ok emptyRegistry := rfl

theorem emptyRegistry_loads : InMemoryStore.registryStore.Loads (∅ : InMemoryStore.Flows) where
  loaded key hkey := absurd (InMemoryStore.mem_listKeys.1 hkey) (AList.notMem_empty key)
  listed h := by cases h

def releaseOps : List Op :=
  [.registerFlow (releasedFlow "1.10") false, .registerFlow (releasedFlow "1.9") false,
    .setFlowStatus "greet" .disabled (some "1.9")]

theorem releaseOps_fit : (releaseRegistry.machine emptyRegistry).Admitted
    (releaseRegistry.Fits fun _ => True) emptyRegistry releaseOps :=
  ⟨trivial, trivial, fun _ _ => trivial, trivial⟩

theorem latest_reopened_releases : ∃ reopened,
    releaseRegistry.init ((releaseRegistry.machine emptyRegistry).after releaseOps).stored = .ok reopened ∧
      ∀ name, releaseRegistry.answers reopened name =
        releaseRegistry.answers ((releaseRegistry.machine emptyRegistry).after releaseOps) name := by
  obtain ⟨-, reopened, hopen, -, hsame⟩ := latest_reopened releaseRegistry InMemoryStore.registryStore_keeps
    emptyRegistry_loads emptyRegistry_opened releaseOps releaseOps_fit
  refine ⟨reopened, hopen, hsame ?_⟩
  have hkeys : InMemoryStore.listKeys ((releaseRegistry.machine emptyRegistry).after releaseOps).stored =
      [⟨"greet", "1.10"⟩, ⟨"greet", "1.9"⟩] := by decide +kernel
  have hne : (readRelease "1.10").toOption ≠ (readRelease "1.9").toOption := by decide +kernel
  intro a ha b hb _ heq
  replace ha : a ∈ InMemoryStore.listKeys _ := ha
  replace hb : b ∈ InMemoryStore.listKeys _ := hb
  have heq : (readRelease a.version).toOption = (readRelease b.version).toOption := congrArg Except.toOption heq
  simp only [hkeys, List.mem_cons, List.not_mem_nil, or_false] at ha hb
  obtain rfl | rfl := ha <;> obtain rfl | rfl := hb
  · rfl
  · exact absurd heq hne
  · exact absurd heq.symm hne
  · rfl

def equalOps : List Op := [.registerFlow (releasedFlow "1.0.0") false, .registerFlow (releasedFlow "1.0") false]

/-- The version registered last is served, and after a restart the one sorted last. -/
theorem equal_versions_swapped : ¬ ∀ (ops : List Op) (state reopened : State InMemoryStore.registryStore),
    (releaseRegistry.machine emptyRegistry).after ops = state → releaseRegistry.init state.stored = .ok reopened →
      ∀ name, releaseRegistry.answers reopened name = releaseRegistry.answers state name := by
  intro h
  have hserved : releaseRegistry.answers ((releaseRegistry.machine emptyRegistry).after equalOps) "greet" =
      some ⟨"greet", "1.0"⟩ := by decide +kernel
  have hrestart : (releaseRegistry.init ((releaseRegistry.machine emptyRegistry).after equalOps).stored).toOption.bind
      (releaseRegistry.answers · "greet") = some ⟨"greet", "1.0.0"⟩ := by decide +kernel
  obtain ⟨reopened, hopen, hanswer⟩ := Option.bind_eq_some_iff.1 hrestart
  have hopen : releaseRegistry.init ((releaseRegistry.machine emptyRegistry).after equalOps).stored = .ok reopened := by
    cases hinit : releaseRegistry.init ((releaseRegistry.machine emptyRegistry).after equalOps).stored with
    | ok found => rw [hinit, Except.toOption, Option.some.injEq] at hopen; rw [hopen]
    | error => rw [hinit] at hopen; cases hopen
  have hsame := h equalOps _ reopened rfl hopen "greet"
  rw [hanswer, hserved] at hsame
  exact absurd hsame (by decide)

end FlowRegistry

end ChainWeaver
