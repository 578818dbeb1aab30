import ChainWeaver.ToolDriftLaws

/-!
# Watching a directory

`watch`: a thread that reloads a directory again and again. A file may change or go
between the listing and either of its reads.
-/

namespace ChainWeaver

inductive ReadError
  | os (message : String)
  | unicodeDecode (message : String)

/-- A listed file, and what its two reads meet: `read_bytes`, then `read_text`. -/
structure PolledFile where
  path : String
  name : String
  /-- The hash of the bytes. -/
  digest : Except ReadError String
  text : Except ReadError (String × JsonFile)

/-- What the watched path leads to at a pass. -/
inductive PolledDirectory
  | missing (path : String)
  | notADirectory (path : String)
  | files (resolved : String) (files : List PolledFile)

inductive PollError
  | read (error : ReadError)
  | registry (error : RegistryError)

def PolledFile.read (file : PolledFile) : Except ReadError FlowFile := do
  let digest ← file.digest
  let (text, json) ← file.text
  pure { path := file.path, name := file.name, digest, text, json }

def ReloadReport.changed (report : ReloadReport) : Bool := !(report.added.isEmpty && report.updated.isEmpty)

namespace FlowRegistry

def iterPolledFiles (files : List PolledFile) : List PolledFile :=
  files.filter fun file => flowFileSuffixes.any fun suffix => file.name.toLower.endsWith suffix

/-- The state of the thread and of its registry. -/
structure Poller (store : RegistryStore) where
  registered : State store
  alive : Bool := true

inductive PollAnswer
  | reloaded (report : ReloadReport)
  /-- A malformed file, or a duplicate. -/
  | skipped
  | died (error : PollError)
  /-- The thread has ended before. -/
  | ended

variable {V : Type} [LinearOrder V] (registry : FlowRegistry V)

def pollFiles (previous : FlowHashes) (state : State registry.store) (scan : Scan) :
    List PolledFile → Except PollError Scan × State registry.store
  | [] => (.ok scan, state)
  | file :: rest =>
    match file.read with
    | .error error => (.error (.read error), state)
    | .ok read =>
      match registry.readFlow scan read with
      | .error error => (.error (.registry error), state)
      | .ok flow =>
        match registry.reloadVisit previous state scan read flow with
        | (.error error, state) => (.error (.registry error), state)
        | (.ok report, state) => pollFiles previous state (scan.visited read flow report) rest

/-- The hashes of the last complete pass. -/
def recorded (state : State registry.store) (resolved : String) : FlowHashes :=
  (state.dirHashes.get? resolved).getD ∅

/-- `reload_from_directory` on files that need not be there any more. -/
def pollDirectory (state : State registry.store) :
    PolledDirectory → Except PollError ReloadReport × State registry.store
  | .missing path => (.error (.registry (.fileNotFound s!"Flow directory not found: {path}")), state)
  | .notADirectory path => (.error (.registry (.notADirectory s!"Not a directory: {path}")), state)
  | .files resolved files =>
    match registry.pollFiles (registry.recorded state resolved) state {} (iterPolledFiles files) with
    | (.error error, state) => (.error error, state)
    | (.ok scan, state) =>
      (.ok scan.report.sorted, { state with dirHashes := state.dirHashes.insert resolved scan.hashes })

/-- One turn of `_poll`. -/
def pollStep (poller : Poller registry.store) (directory : PolledDirectory) : PollAnswer × Poller registry.store :=
  if poller.alive then
    match registry.pollDirectory poller.registered directory with
    | (.ok report, registered) => (.reloaded report, { poller with registered })
    | (.error (.registry (.flowSerialization ..)), registered) => (.skipped, { poller with registered })
    | (.error error, registered) => (.died error, { registered, alive := false })
  else (.ended, poller)

def watch (registered : State registry.store) : Machine PolledDirectory PollAnswer where
  State := Poller registry.store
  start := { registered }
  step := registry.pollStep

-- Files that can be read

variable {registry}

-- Passes

/-- The flow of a file, and the hash of the file. -/
structure Entry where
  digest : String
  flow : FullFlow

def Entry.key (entry : Entry) : FlowKey := entry.flow.key

structure Defines (registry : FlowRegistry V) (file : PolledFile) (read : FlowFile) (entry : Entry) : Prop where
  reads : file.read = .ok read
  digest : read.digest = entry.digest
  loads : registry.loadFlowFile read = .ok entry.flow

/-- The registry takes the flow. -/
structure Accepts (registry : FlowRegistry V) (Fit : FullFlow → Prop) (flow : FullFlow) : Prop where
  fit : Fit flow
  version : ∃ parsed, registry.parse flow.version = .ok parsed
  topology : registry.checkTopology flow = .ok ()
  saves : ∀ stored, ∃ stored', registry.store.saveFlow stored flow true = .ok stored'

/-- Every file defines a flow of its own that the registry takes. -/
structure Whole (registry : FlowRegistry V) (Fit : FullFlow → Prop) (files : List PolledFile) (entries : List Entry) :
    Prop where
  defines : List.Forall₂ (fun file entry => ∃ read, registry.Defines file read entry) files entries
  accepts : ∀ entry ∈ entries, registry.Accepts Fit entry.flow
  distinct : (entries.map Entry.key).Nodup

/-- The registry has the flow under its name and version. -/
def Holds (registry : FlowRegistry V) (state : State registry.store) (flow : FullFlow) : Prop :=
  ∃ read, registry.store.loadFlow state.stored flow.key = .ok read ∧ read.normal = flow.normal

section

variable {Fit : FullFlow → Prop} {state state' state'' : State registry.store} {flow : FullFlow} {entry : Entry}
variable {entries : List Entry} {previous : FlowHashes} {scan scan' scan'' : Scan}

/-- What can be loaded under the key is the same. -/
def Unmoved (registry : FlowRegistry V) (key : FlowKey) (state state' : State registry.store) : Prop :=
  ∀ read, registry.store.loadFlow state'.stored key = .ok read ↔ registry.store.loadFlow state.stored key = .ok read

omit [LinearOrder V] in
theorem Unmoved.holds (h : registry.Unmoved flow.key state state') :
    registry.Holds state' flow ↔ registry.Holds state flow :=
  exists_congr fun read => and_congr_left fun _ => h read

theorem registerFlow_accepted (hd : registry.store.Durable Fit) (h : registry.Stocked Fit state)
    (haccepts : registry.Accepts Fit flow) :
    ∃ state', registry.registerFlow state flow true = (.ok (), state') ∧ registry.Stocked Fit state' ∧
      state'.dirHashes = state.dirHashes ∧ registry.Holds state' flow ∧
        ∀ key, key ≠ flow.key → registry.Unmoved key state state' := by
  obtain ⟨parsed, hparsed⟩ := haccepts.version
  obtain ⟨stored, hsave⟩ := haccepts.saves state.stored
  obtain ⟨latest, htouch, -⟩ := h.sound.points.touch flow.name hparsed
  have hregister : registry.registerFlow state flow true = (.ok (), { state with stored, latest }) := by
    simp only [registerFlow, parseVersion_of_ok hparsed, haccepts.topology, saveAndTouch, hsave, htouch]
  have hsound := registerFlow_sound true hd.toKeeps h.sound haccepts.fit
  have hchanges : registry.Changes (· = flow) state (registry.registerFlow state flow true).2 :=
    registerFlow_changes hd h.sound.loads haccepts.fit
  rw [hregister] at hsound hchanges
  refine ⟨_, hregister, h.changed hd hsound hchanges fun _ hnew => hnew ▸ haccepts.fit, rfl, ?_, ?_⟩
  · exact hd.saved h.sound.loads haccepts.fit hsave
  · exact fun key hne read => hd.others hsave key read hne

/-- What a pass over files with these entries has done to the registry. -/
structure Swept (registry : FlowRegistry V) (Fit : FullFlow → Prop) (previous : FlowHashes) (entries : List Entry)
    (state state' : State registry.store) : Prop where
  stocked : registry.Stocked Fit state'
  dirHashes : state'.dirHashes = state.dirHashes
  holds : ∀ entry ∈ entries, previous.lookup entry.key ≠ some entry.digest → registry.Holds state' entry.flow
  unmoved : ∀ key, (∀ entry ∈ entries, entry.key = key → previous.lookup key = some entry.digest) →
    registry.Unmoved key state state'

/-- What it has seen. -/
structure Scanned (previous : FlowHashes) (entries : List Entry) (scan scan' : Scan) : Prop where
  seen : ∀ key, key ∈ scan'.seenPaths.map Prod.fst ↔ key ∈ entries.map Entry.key ∨ key ∈ scan.seenPaths.map Prod.fst
  hashes : ∀ entry ∈ entries, scan'.hashes.lookup entry.key = some entry.digest
  others : ∀ key, key ∉ entries.map Entry.key → scan'.hashes.lookup key = scan.hashes.lookup key
  unchanged : (∀ entry ∈ entries, previous.lookup entry.key = some entry.digest) →
    scan'.report.changed = scan.report.changed

omit [LinearOrder V] in
theorem Unmoved.trans {key : FlowKey} (h : registry.Unmoved key state state') (h' : registry.Unmoved key state' state'') :
    registry.Unmoved key state state'' := fun read => (h' read).trans (h read)

theorem Swept.cons (hnew : entry.key ∉ entries.map Entry.key) (hfirst : registry.Swept Fit previous [entry] state state')
    (hrest : registry.Swept Fit previous entries state' state'') :
    registry.Swept Fit previous (entry :: entries) state state'' where
  stocked := hrest.stocked
  dirHashes := hrest.dirHashes.trans hfirst.dirHashes
  holds := by
    rw [List.forall_mem_cons]
    refine ⟨fun hchanged => ?_, hrest.holds⟩
    have hholds : registry.Holds state' entry.flow := hfirst.holds entry (List.mem_singleton_self entry) hchanged
    have hunmoved : registry.Unmoved entry.flow.key state' state'' := by
      refine hrest.unmoved entry.key fun other hother heq => absurd ?_ hnew
      exact heq ▸ List.mem_map_of_mem hother
    exact hunmoved.holds.2 hholds
  unmoved key hkey := by
    rw [List.forall_mem_cons] at hkey
    exact (hfirst.unmoved key (List.forall_mem_singleton.2 hkey.1)).trans (hrest.unmoved key hkey.2)

theorem Scanned.cons {read : FlowFile} {report : ReloadReport} (hdigest : read.digest = entry.digest)
    (hnew : entry.key ∉ entries.map Entry.key)
    (hreport : previous.lookup entry.key = some entry.digest → report.changed = scan.report.changed)
    (h : Scanned previous entries (scan.visited read entry.flow report) scan') :
    Scanned previous (entry :: entries) scan scan' where
  seen key := by
    rw [h.seen, Scan.visited, List.map_cons, List.map_cons, List.mem_cons, List.mem_cons, or_left_comm, or_assoc]
    rfl
  hashes := by
    rw [List.forall_mem_cons]
    refine ⟨?_, h.hashes⟩
    rw [h.others entry.key hnew]
    exact (AList.lookup_insert _).trans (congrArg some hdigest)
  others key hkey := by
    rw [List.map_cons, List.mem_cons, not_or] at hkey
    rw [h.others key hkey.2]
    exact AList.lookup_insert_ne hkey.1
  unchanged hsame := by
    rw [List.forall_mem_cons] at hsame
    exact (h.unchanged hsame.2).trans (hreport hsame.1)

theorem reloadVisit_swept (previous : FlowHashes) (scan : Scan) (hd : registry.store.Durable Fit) (h : registry.Stocked Fit state)
    (haccepts : registry.Accepts Fit entry.flow) {read : FlowFile} (hdigest : read.digest = entry.digest) :
    ∃ report state', registry.reloadVisit previous state scan read entry.flow = (.ok report, state') ∧
      registry.Swept Fit previous [entry] state state' ∧
        (previous.lookup entry.key = some entry.digest → report.changed = scan.report.changed) := by
  by_cases hsame : previous.lookup entry.key = some entry.digest
  · refine ⟨{ scan.report with unchanged := scan.report.unchanged ++ [label entry.flow] }, state, ?_, ?_, fun _ => rfl⟩
    · have hlookup : previous.lookup entry.flow.key = some entry.digest := hsame
      simp [reloadVisit, hlookup, hdigest]
    · exact ⟨h, rfl, by simp [hsame], fun _ _ _ => .rfl⟩
  · obtain ⟨state', hregister, hstocked, hhashes, hholds, hothers⟩ := registerFlow_accepted hd h haccepts
    have hswept : registry.Swept Fit previous [entry] state state' := by
      refine ⟨hstocked, hhashes, fun other hother _ => ?_, fun key hkey => hothers key ?_⟩
      · obtain rfl := List.mem_singleton.1 hother
        exact hholds
      · rintro rfl
        exact hsame (hkey entry (List.mem_singleton_self entry) rfl)
    cases hlookup : previous.lookup entry.flow.key with
    | none =>
      refine ⟨{ scan.report with added := scan.report.added ++ [label entry.flow] }, state', ?_, hswept,
        fun h => absurd h hsame⟩
      simp only [reloadVisit, hlookup, hregister]
    | some digest =>
      have hne : digest ≠ read.digest := by
        rintro rfl
        exact hsame (hlookup.trans (congrArg some hdigest))
      refine ⟨{ scan.report with updated := scan.report.updated ++ [label entry.flow] }, state', ?_, hswept,
        fun h => absurd h hsame⟩
      simp only [reloadVisit, hlookup, if_pos hne, hregister]

theorem rejectDuplicateFlowKey_fresh {key : FlowKey} {file : FlowFile} (h : key ∉ scan.seenPaths.map Prod.fst) :
    rejectDuplicateFlowKey scan key file = .ok () := by
  have hlookup : scan.seenPaths.lookup key = none := by
    rw [List.lookup_eq_none_iff]
    intro seen hseen
    simpa using fun heq : key = seen.1 => h (heq ▸ List.mem_map_of_mem hseen)
  rw [rejectDuplicateFlowKey, hlookup]

omit [LinearOrder V] in
theorem readFlow_fresh {read : FlowFile} (hloads : registry.loadFlowFile read = .ok flow)
    (hfresh : flow.key ∉ scan.seenPaths.map Prod.fst) : registry.readFlow scan read = .ok flow := by
  simp only [readFlow, hloads, bind, Except.bind, rejectDuplicateFlowKey_fresh hfresh]
  rfl

theorem rejectDuplicateFlowKey_seen {key : FlowKey} (file : FlowFile) (h : key ∈ scan.seenPaths.map Prod.fst) :
    ∃ detail source, rejectDuplicateFlowKey scan key file = .error (.flowSerialization detail source) := by
  cases hlookup : scan.seenPaths.lookup key with
  | some prior => exact ⟨_, file.path, by simp only [rejectDuplicateFlowKey, hlookup]; rfl⟩
  | none =>
    obtain ⟨seen, hseen, rfl⟩ := List.mem_map.1 h
    simpa using List.lookup_eq_none_iff.1 hlookup seen hseen

/-- A pass goes over files that are whole, whatever comes behind them. -/
theorem pollFiles_whole (previous : FlowHashes) (scan : Scan) (hd : registry.store.Durable Fit) {files : List PolledFile}
    (rest : List PolledFile) (h : registry.Stocked Fit state) (hwhole : registry.Whole Fit files entries)
    (hfresh : ∀ entry ∈ entries, entry.key ∉ scan.seenPaths.map Prod.fst) :
    ∃ scan' state', registry.pollFiles previous state scan (files ++ rest) =
        registry.pollFiles previous state' scan' rest ∧
      registry.Swept Fit previous entries state state' ∧ Scanned previous entries scan scan' := by
  obtain ⟨hdefines, haccepts, hdistinct⟩ := hwhole
  induction hdefines generalizing state scan with
  | nil =>
    refine ⟨scan, state, rfl, ⟨h, rfl, ?_, fun _ _ _ => .rfl⟩, ⟨?_, ?_, fun _ _ => rfl, fun _ => rfl⟩⟩ <;> simp
  | @cons file entry files entries hfile _ ih =>
    obtain ⟨read, hreads, hdigest, hloads⟩ := hfile
    rw [List.forall_mem_cons] at haccepts hfresh
    rw [List.map_cons, List.nodup_cons] at hdistinct
    have hread : registry.readFlow scan read = .ok entry.flow := readFlow_fresh hloads hfresh.1
    obtain ⟨report, state₁, hvisit, hswept, hreport⟩ := reloadVisit_swept previous scan hd h haccepts.1 hdigest
    have hfresh' : ∀ other ∈ entries, other.key ∉ (scan.visited read entry.flow report).seenPaths.map Prod.fst := by
      intro other hother hmem
      rcases List.mem_cons.1 hmem with heq | hmem
      · exact hdistinct.1 (List.mem_map.2 ⟨other, hother, heq⟩)
      · exact hfresh.2 other hother hmem
    obtain ⟨scan', state', hpoll, hrest, hscan⟩ := ih (scan.visited read entry.flow report) hswept.stocked hfresh' haccepts.2 hdistinct.2
    refine ⟨scan', state', ?_, ?_, ?_⟩
    · simp only [List.cons_append, pollFiles, hreads, hread, hvisit]
      exact hpoll
    · exact hswept.cons hdistinct.1 hrest
    · exact hscan.cons hdigest hdistinct.1 hreport

theorem changed_sorted (report : ReloadReport) : report.sorted.changed = report.changed := by
  have hsorted : ∀ labels : List String, (labels.insertionSort (· ≤ ·)).isEmpty = labels.isEmpty := by
    intro labels
    rw [Bool.eq_iff_iff, List.isEmpty_iff, List.isEmpty_iff, ← List.length_eq_zero_iff, List.length_insertionSort,
      List.length_eq_zero_iff]
  simp only [ReloadReport.changed, ReloadReport.sorted, hsorted]

variable {root : String}

/-- A complete pass over files with these entries. -/
structure Reloaded (registry : FlowRegistry V) (Fit : FullFlow → Prop) (root : String) (entries : List Entry)
    (state : State registry.store) (report : ReloadReport) (state' : State registry.store) : Prop where
  stocked : registry.Stocked Fit state'
  hashes : ∀ key digest, (registry.recorded state' root).lookup key = some digest ↔
    ∃ entry ∈ entries, entry.key = key ∧ entry.digest = digest
  holds : ∀ entry ∈ entries, (registry.recorded state root).lookup entry.key ≠ some entry.digest →
    registry.Holds state' entry.flow
  unmoved : ∀ entry ∈ entries, (registry.recorded state root).lookup entry.key = some entry.digest →
    registry.Unmoved entry.key state state'
  unchanged : (∀ entry ∈ entries, (registry.recorded state root).lookup entry.key = some entry.digest) →
    report.changed = false

theorem pollDirectory_whole (root : String) (hd : registry.store.Durable Fit) {files : List PolledFile} (h : registry.Stocked Fit state)
    (hwhole : registry.Whole Fit (iterPolledFiles files) entries) :
    ∃ report state', registry.pollDirectory state (.files root files) = (.ok report, state') ∧
      registry.Reloaded Fit root entries state report state' := by
  obtain ⟨scan, swept, hpoll, hswept, hscan⟩ := pollFiles_whole (registry.recorded state root) {} hd [] h hwhole
    fun _ _ => List.not_mem_nil
  rw [List.append_nil] at hpoll
  refine ⟨scan.report.sorted, { swept with dirHashes := swept.dirHashes.insert root scan.hashes }, ?_, ?_⟩
  · simp only [pollDirectory, hpoll, pollFiles]
  have hrecorded : registry.recorded { swept with dirHashes := swept.dirHashes.insert root scan.hashes } root =
      scan.hashes := by
    simp [recorded]
  refine ⟨⟨⟨hswept.stocked.sound.loads, hswept.stocked.sound.points⟩, hswept.stocked.fits⟩, ?_, hswept.holds, ?_, ?_⟩
  · intro key digest
    rw [hrecorded]
    constructor
    · intro hlookup
      have hmem : key ∈ entries.map Entry.key := by
        by_contra hmem
        rw [hscan.others key hmem] at hlookup
        cases hlookup
      obtain ⟨entry, hentry, rfl⟩ := List.mem_map.1 hmem
      exact ⟨entry, hentry, rfl, Option.some.inj ((hscan.hashes entry hentry).symm.trans hlookup)⟩
    · rintro ⟨entry, hentry, rfl, rfl⟩
      exact hscan.hashes entry hentry
  · intro entry hentry hsame
    refine hswept.unmoved entry.key fun other hother heq => ?_
    obtain rfl := List.inj_on_of_nodup_map hwhole.distinct hother hentry heq
    exact hsame
  · intro hsame
    rw [changed_sorted, hscan.unchanged hsame]
    rfl

/-- A malformed file, or one that defines a flow again. -/
def Stops (registry : FlowRegistry V) (entries : List Entry) (file : PolledFile) : Prop :=
  ∃ read, file.read = .ok read ∧ ∀ flow, registry.loadFlowFile read = .ok flow → flow.key ∈ entries.map Entry.key

omit [LinearOrder V] in
theorem loadFlowFile_error {read : FlowFile} (h : registry.loadFlowFile read = .error error) :
    ∃ detail source, error = .flowSerialization detail source := by
  simp only [loadFlowFile] at h
  split at h
  · cases h
  · exact ⟨_, _, (Except.error.inj h).symm⟩

theorem pollDirectory_halted (root : String) (hd : registry.store.Durable Fit) {files before rest : List PolledFile}
    {file : PolledFile} (h : registry.Stocked Fit state) (hfiles : iterPolledFiles files = before ++ file :: rest)
    (hwhole : registry.Whole Fit before entries) (hstops : registry.Stops entries file) :
    ∃ detail source state', registry.pollDirectory state (.files root files) =
        (.error (.registry (.flowSerialization detail source)), state') ∧
      registry.Swept Fit (registry.recorded state root) entries state state' := by
  obtain ⟨scan, swept, hpoll, hswept, hscan⟩ := pollFiles_whole (registry.recorded state root) {} hd (file :: rest) h
    hwhole fun _ _ => List.not_mem_nil
  obtain ⟨read, hread, hload⟩ := hstops
  have hrefused : ∃ detail source, registry.readFlow scan read = .error (.flowSerialization detail source) := by
    cases hloaded : registry.loadFlowFile read with
    | error error =>
      obtain ⟨detail, source, rfl⟩ := loadFlowFile_error hloaded
      exact ⟨detail, source, by simp only [readFlow, hloaded]; rfl⟩
    | ok flow =>
      have hseen : flow.key ∈ scan.seenPaths.map Prod.fst := (hscan.seen flow.key).2 (.inl (hload flow hloaded))
      obtain ⟨detail, source, hduplicate⟩ := rejectDuplicateFlowKey_seen read hseen
      exact ⟨detail, source, by simp only [readFlow, hloaded, bind, Except.bind, hduplicate]⟩
  obtain ⟨detail, source, hrefused⟩ := hrefused
  refine ⟨detail, source, swept, ?_, hswept⟩
  simp only [pollDirectory, hfiles, hpoll, pollFiles, hread, hrefused]

-- Runs

variable {Seen : Entry → Prop} {poller : Poller registry.store}

/-- Files with one hash that define one version of a flow define it alike. -/
def Faithful (Seen : Entry → Prop) : Prop :=
  ∀ first second, Seen first → Seen second → first.key = second.key → first.digest = second.digest →
    first.flow.normal = second.flow.normal

/-- The hashes of the last complete pass are of what the registry has. -/
structure Current (registry : FlowRegistry V) (Fit : FullFlow → Prop) (Seen : Entry → Prop) (root : String)
    (state : State registry.store) : Prop where
  stocked : registry.Stocked Fit state
  holds : ∀ key digest, (registry.recorded state root).lookup key = some digest →
    ∃ entry, Seen entry ∧ entry.key = key ∧ entry.digest = digest ∧ registry.Holds state entry.flow

theorem Current.opened (h : registry.Stocked Fit state) (hnone : state.dirHashes.get? root = none) :
    registry.Current Fit Seen root state := by
  refine ⟨h, fun key digest hlookup => ?_⟩
  rw [recorded, hnone] at hlookup
  cases hlookup

/-- A pass that is complete, or that a malformed file or a duplicate stops before it has
replaced a flow of the last complete one. -/
inductive Calm (registry : FlowRegistry V) (Fit : FullFlow → Prop) (Seen : Entry → Prop) (root : String)
    (poller : Poller registry.store) : PolledDirectory → Prop
  | whole {files : List PolledFile} {entries : List Entry} : registry.Whole Fit (iterPolledFiles files) entries →
      (∀ entry ∈ entries, Seen entry) → Calm registry Fit Seen root poller (.files root files)
  | halted {files before rest : List PolledFile} {file : PolledFile} {entries : List Entry} :
      iterPolledFiles files = before ++ file :: rest → registry.Whole Fit before entries → registry.Stops entries file →
        (∀ entry ∈ entries, ∀ digest, (registry.recorded poller.registered root).lookup entry.key = some digest →
          digest = entry.digest) → Calm registry Fit Seen root poller (.files root files)

omit [LinearOrder V] in
theorem Holds.congr {first second : Entry} (hkey : first.key = second.key)
    (hnormal : first.flow.normal = second.flow.normal) (h : registry.Holds state first.flow) :
    registry.Holds state second.flow := by
  obtain ⟨read, hload, hread⟩ := h
  exact ⟨read, (congrArg (registry.store.loadFlow state.stored) hkey).symm.trans hload, hread.trans hnormal⟩

/-- What a complete pass leaves behind: nothing is new to the next one. -/
structure Settled (registry : FlowRegistry V) (root : String) (entries : List Entry) (state : State registry.store) :
    Prop where
  hashes : ∀ entry ∈ entries, (registry.recorded state root).lookup entry.key = some entry.digest
  holds : ∀ entry ∈ entries, registry.Holds state entry.flow

theorem Reloaded.current {report : ReloadReport} (h : registry.Reloaded Fit root entries state report state')
    (hcurrent : registry.Current Fit Seen root state) (hseen : ∀ entry ∈ entries, Seen entry) :
    registry.Current Fit Seen root state' := by
  refine ⟨h.stocked, fun key digest hlookup => ?_⟩
  obtain ⟨entry, hentry, rfl, rfl⟩ := (h.hashes key digest).1 hlookup
  by_cases hsame : (registry.recorded state root).lookup entry.key = some entry.digest
  · obtain ⟨old, hold, hkey, hdigest, hholds⟩ := hcurrent.holds entry.key entry.digest hsame
    have hunmoved : registry.Unmoved old.key state state' := hkey ▸ h.unmoved entry hentry hsame
    exact ⟨old, hold, hkey, hdigest, hunmoved.holds.2 hholds⟩
  · exact ⟨entry, hseen entry hentry, rfl, rfl, h.holds entry hentry hsame⟩

theorem Reloaded.settled {report : ReloadReport} (h : registry.Reloaded Fit root entries state report state')
    (hcurrent : registry.Current Fit Seen root state) (hfaithful : Faithful Seen) (hseen : ∀ entry ∈ entries, Seen entry) :
    registry.Settled root entries state' where
  hashes entry hentry := (h.hashes entry.key entry.digest).2 ⟨entry, hentry, rfl, rfl⟩
  holds entry hentry := by
    have hafter : registry.Current Fit Seen root state' := h.current hcurrent hseen
    have hlookup := (h.hashes entry.key entry.digest).2 ⟨entry, hentry, rfl, rfl⟩
    obtain ⟨old, hold, hkey, hdigest, hholds⟩ := hafter.holds entry.key entry.digest hlookup
    exact hholds.congr hkey (hfaithful old entry hold (hseen entry hentry) hkey hdigest)

theorem Swept.current (h : registry.Swept Fit (registry.recorded state root) entries state state')
    (hcurrent : registry.Current Fit Seen root state)
    (hsame : ∀ entry ∈ entries, ∀ digest, (registry.recorded state root).lookup entry.key = some digest →
      digest = entry.digest) : registry.Current Fit Seen root state' := by
  have hrecorded : registry.recorded state' root = registry.recorded state root := by rw [recorded, h.dirHashes]; rfl
  refine ⟨h.stocked, fun key digest hlookup => ?_⟩
  rw [hrecorded] at hlookup
  obtain ⟨old, hold, rfl, rfl, hholds⟩ := hcurrent.holds key digest hlookup
  have hunmoved : registry.Unmoved old.key state state' := by
    refine h.unmoved old.key fun entry hentry hkey => ?_
    rw [hlookup, hsame entry hentry old.digest (hkey ▸ hlookup)]
  exact ⟨old, hold, rfl, rfl, hunmoved.holds.2 hholds⟩

theorem pollStep_whole (hd : registry.store.Durable Fit) {files : List PolledFile} (halive : poller.alive = true)
    (h : registry.Stocked Fit poller.registered) (hwhole : registry.Whole Fit (iterPolledFiles files) entries) :
    ∃ report registered, registry.pollStep poller (.files root files) = (.reloaded report, ⟨registered, true⟩) ∧
      registry.Reloaded Fit root entries poller.registered report registered := by
  obtain ⟨report, registered, hpoll, hreloaded⟩ := pollDirectory_whole root hd h hwhole
  exact ⟨report, registered, by simp only [pollStep, halive, if_true, hpoll], hreloaded⟩

/-- One calm turn. -/
theorem pollStep_calm (hd : registry.store.Durable Fit) {directory : PolledDirectory} (halive : poller.alive = true)
    (h : registry.Current Fit Seen root poller.registered) (hcalm : registry.Calm Fit Seen root poller directory) :
    (registry.pollStep poller directory).2.alive = true ∧
      registry.Current Fit Seen root (registry.pollStep poller directory).2.registered := by
  cases hcalm with
  | whole hwhole hseen =>
    obtain ⟨report, registered, hstep, hreloaded⟩ := pollStep_whole hd halive h.stocked hwhole
    rw [hstep]
    exact ⟨rfl, hreloaded.current h hseen⟩
  | @halted files before rest file entries hfiles hwhole hstops hsame =>
    obtain ⟨detail, source, registered, hpoll, hswept⟩ := pollDirectory_halted root hd h.stocked hfiles hwhole hstops
    have hstep : registry.pollStep poller (.files root files) = (.skipped, { poller with registered }) := by
      simp only [pollStep, halive, if_true, hpoll]
    rw [hstep]
    exact ⟨halive, hswept.current h hsame⟩

/-- The registry refuses the flow. -/
def Refuses (registry : FlowRegistry V) (flow : FullFlow) : Prop :=
  (∃ message, registry.parse flow.version = .error message) ∨ (∃ error, registry.checkTopology flow = .error error) ∨
    ∀ stored, ∃ error, registry.store.saveFlow stored flow true = .error error

/-- What no turn outlives. -/
inductive Broken (registry : FlowRegistry V) (Fit : FullFlow → Prop) (poller : Poller registry.store) :
    PolledDirectory → Prop
  | missing (path : String) : Broken registry Fit poller (.missing path)
  | notADirectory (path : String) : Broken registry Fit poller (.notADirectory path)
  | unreadable {resolved : String} {files before rest : List PolledFile} {file : PolledFile} {entries : List Entry}
      {error : ReadError} : iterPolledFiles files = before ++ file :: rest → registry.Whole Fit before entries →
        file.read = .error error → Broken registry Fit poller (.files resolved files)
  | refused {resolved : String} {files before rest : List PolledFile} {file : PolledFile} {entries : List Entry}
      {read : FlowFile} {entry : Entry} : iterPolledFiles files = before ++ file :: rest →
        registry.Whole Fit before entries → registry.Defines file read entry → entry.key ∉ entries.map Entry.key →
          (registry.recorded poller.registered resolved).lookup entry.key ≠ some entry.digest →
            registry.Refuses entry.flow → Broken registry Fit poller (.files resolved files)

theorem registerFlow_refused (state : State registry.store) (h : registry.Refuses flow) :
    ∃ error, registry.registerFlow state flow true = (.error error, state) ∧
      ∀ detail source, error ≠ .flowSerialization detail source := by
  cases hparse : registry.parse flow.version with
  | error message =>
    refine ⟨.invalidFlowVersion flow.name flow.version message, ?_, by simp⟩
    simp only [registerFlow, parseVersion, hparse]
  | ok parsed =>
    cases htopology : registry.checkTopology flow with
    | error error =>
      refine ⟨error, by simp only [registerFlow, parseVersion, hparse, htopology], fun detail source heq => ?_⟩
      unfold checkTopology at htopology
      split at htopology
      · cases htopology
      split at htopology
      · cases htopology
      · rw [heq] at htopology
        cases htopology
    | ok =>
      rcases h with ⟨message, h⟩ | ⟨error, h⟩ | hsaves
      · rw [hparse] at h
        cases h
      · rw [htopology] at h
        cases h
      · obtain ⟨error, hsave⟩ := hsaves state.stored
        refine ⟨.store error, ?_, by simp⟩
        simp only [registerFlow, parseVersion, hparse, htopology, saveAndTouch, hsave]

theorem reloadVisit_refused (state : State registry.store) (scan : Scan) {read : FlowFile} (h : registry.Refuses entry.flow) (hdigest : read.digest = entry.digest)
    (hchanged : previous.lookup entry.key ≠ some entry.digest) :
    ∃ error, registry.reloadVisit previous state scan read entry.flow = (.error error, state) ∧
      ∀ detail source, error ≠ .flowSerialization detail source := by
  obtain ⟨error, hregister, hne⟩ := registerFlow_refused state h
  refine ⟨error, ?_, hne⟩
  cases hlookup : previous.lookup entry.flow.key with
  | none => simp only [reloadVisit, hlookup, hregister]
  | some digest =>
    have hdiffers : digest ≠ read.digest := by
      rintro rfl
      exact hchanged (hlookup.trans (congrArg some hdigest))
    simp only [reloadVisit, hlookup, if_pos hdiffers, hregister]

theorem pollStep_died {directory : PolledDirectory} {registered : State registry.store} {error : PollError}
    (halive : poller.alive = true) (hpoll : registry.pollDirectory poller.registered directory = (.error error, registered))
    (hne : ∀ detail source, error ≠ .registry (.flowSerialization detail source)) :
    (registry.pollStep poller directory).2.alive = false := by
  simp only [pollStep, halive, if_true, hpoll]

theorem pollStep_broken (hd : registry.store.Durable Fit) {directory : PolledDirectory} (halive : poller.alive = true)
    (h : registry.Stocked Fit poller.registered) (hbroken : registry.Broken Fit poller directory) :
    (registry.pollStep poller directory).2.alive = false := by
  cases hbroken with
  | missing path => exact pollStep_died halive rfl (by simp)
  | notADirectory path => exact pollStep_died halive rfl (by simp)
  | @unreadable resolved files before rest file entries error hfiles hwhole hread =>
    obtain ⟨scan, swept, hpoll, -, -⟩ := pollFiles_whole (registry.recorded poller.registered resolved) {} hd
      (file :: rest) h hwhole fun _ _ => List.not_mem_nil
    have hdied : registry.pollDirectory poller.registered (.files resolved files) = (.error (.read error), swept) := by
      simp only [pollDirectory, hfiles, hpoll, pollFiles, hread]
    exact pollStep_died halive hdied (by simp)
  | @refused resolved files before rest file entries read entry hfiles hwhole hdefines hnew hchanged hrefuses =>
    obtain ⟨scan, swept, hpoll, -, hscan⟩ := pollFiles_whole (registry.recorded poller.registered resolved) {} hd
      (file :: rest) h hwhole fun _ _ => List.not_mem_nil
    obtain ⟨error, hvisit, hne⟩ := reloadVisit_refused swept scan hrefuses hdefines.digest hchanged
    have hfresh : entry.key ∉ scan.seenPaths.map Prod.fst := by
      simpa [hscan.seen] using hnew
    have hread : registry.readFlow scan read = .ok entry.flow := readFlow_fresh hdefines.loads hfresh
    have hdied : registry.pollDirectory poller.registered (.files resolved files) =
        (.error (.registry error), swept) := by
      simp only [pollDirectory, hfiles, hpoll, pollFiles, hdefines.reads, hread, hvisit]
    exact pollStep_died halive hdied fun detail source heq => hne detail source (PollError.registry.inj heq)

structure Converges (registry : FlowRegistry V) (Fit : FullFlow → Prop) (Seen : Entry → Prop) (root : String)
    (opened : State registry.store) : Prop where
  alive : ∀ polls, (registry.watch opened).Admitted (registry.Calm Fit Seen root) { registered := opened } polls →
    ((registry.watch opened).after polls : Poller registry.store).alive = true
  settles : ∀ polls files entries count,
    (registry.watch opened).Admitted (registry.Calm Fit Seen root) { registered := opened } polls →
      registry.Whole Fit (iterPolledFiles files) entries → (∀ entry ∈ entries, Seen entry) →
        ∀ poller : Poller registry.store,
          (registry.watch opened).after (polls ++ List.replicate (count + 1) (.files root files)) = poller →
            poller.alive = true ∧ (∀ entry ∈ entries, registry.Holds poller.registered entry.flow) ∧
              ∃ report, (registry.pollStep poller (.files root files)).1 = .reloaded report ∧ report.changed = false
  /-- One pass from any state: what has the hash of the last complete pass must be held already. -/
  exact : ∀ (poller : Poller registry.store) files entries, poller.alive = true →
    registry.Stocked Fit poller.registered → registry.Whole Fit (iterPolledFiles files) entries →
      ((∀ entry ∈ entries, registry.Holds (registry.pollStep poller (.files root files)).2.registered entry.flow) ↔
        ∀ entry ∈ entries, (registry.recorded poller.registered root).lookup entry.key = some entry.digest →
          registry.Holds poller.registered entry.flow)
  dies : ∀ (poller : Poller registry.store) directory, poller.alive = true → registry.Stocked Fit poller.registered →
    registry.Broken Fit poller directory → (registry.pollStep poller directory).2.alive = false

theorem watch_calm (hd : registry.store.Durable Fit) {opened : State registry.store}
    (h : registry.Current Fit Seen root opened) {polls : List PolledDirectory}
    (hcalm : (registry.watch opened).Admitted (registry.Calm Fit Seen root) { registered := opened } polls) :
    ((registry.watch opened).after polls : Poller registry.store).alive = true ∧
      registry.Current Fit Seen root ((registry.watch opened).after polls : Poller registry.store).registered := by
  have hstep : ∀ (poller : Poller registry.store) (directory : PolledDirectory),
      poller.alive = true ∧ registry.Current Fit Seen root poller.registered →
        registry.Calm Fit Seen root poller directory → (registry.pollStep poller directory).2.alive = true ∧
          registry.Current Fit Seen root (registry.pollStep poller directory).2.registered :=
    fun _ _ hrunning hok => pollStep_calm hd hrunning.1 hrunning.2 hok
  exact Machine.stateFrom_admitted_keeps hstep ⟨rfl, h⟩ hcalm

/-- However often the same directory is polled after a calm run. -/
theorem watch_settled (hd : registry.store.Durable Fit) (hfaithful : Faithful Seen) {opened : State registry.store}
    (h : registry.Current Fit Seen root opened) {polls : List PolledDirectory}
    (hcalm : (registry.watch opened).Admitted (registry.Calm Fit Seen root) { registered := opened } polls)
    {files : List PolledFile} (hwhole : registry.Whole Fit (iterPolledFiles files) entries)
    (hseen : ∀ entry ∈ entries, Seen entry) (count : Nat) (poller : Poller registry.store)
    (hpoller : (registry.watch opened).after (polls ++ List.replicate (count + 1) (.files root files)) = poller) :
    poller.alive = true ∧ registry.Current Fit Seen root poller.registered ∧
      registry.Settled root entries poller.registered := by
  induction count generalizing poller with
  | zero =>
    rw [List.replicate_one, Machine.after_concat] at hpoller
    obtain ⟨halive, hcurrent⟩ := watch_calm hd h hcalm
    obtain ⟨report, registered, hstep, hreloaded⟩ := pollStep_whole hd halive hcurrent.stocked hwhole
    obtain rfl := (congrArg Prod.snd hstep).symm.trans hpoller
    exact ⟨rfl, hreloaded.current hcurrent hseen, hreloaded.settled hcurrent hfaithful hseen⟩
  | succ count ih =>
    rw [List.replicate_succ', ← List.append_assoc, Machine.after_concat] at hpoller
    obtain ⟨halive, hcurrent, -⟩ := ih _ rfl
    obtain ⟨report, registered, hstep, hreloaded⟩ := pollStep_whole hd halive hcurrent.stocked hwhole
    obtain rfl := (congrArg Prod.snd hstep).symm.trans hpoller
    exact ⟨rfl, hreloaded.current hcurrent hseen, hreloaded.settled hcurrent hfaithful hseen⟩

end

-- One file

theorem releaseRegistry_accepts {flow : FullFlow} (hparsed : (readRelease flow.version).toOption.isSome = true)
    (hlinear : flow.steps.isDag = false) : releaseRegistry.Accepts (fun _ => True) flow where
  fit := trivial
  version := by
    cases hread : readRelease flow.version with
    | ok parsed => exact ⟨parsed, hread⟩
    | error => rw [hread] at hparsed; cases hparsed
  topology := checkTopology_linear hlinear
  saves stored := ⟨_, if_neg (by simp)⟩

def greetFile (json : JsonFile) : PolledFile where
  path := "flows/greet.flow.json"
  name := "greet.flow.json"
  digest := .ok "9f86d081"
  text := .ok ("", json)

theorem greetFile_reads : ((Serializer.greetSerializer.flowToJson (some 2) (releasedFlow "1.0")).any fun json =>
    (Serializer.greetSerializer.flowFromJson {} json).toOption.any fun flow =>
      (readRelease flow.version).toOption.isSome && !flow.steps.isDag) = true := by decide +kernel

/-- A file that was deleted between the listing and the reading. -/
def goneFile : PolledFile where
  path := "flows/greet.flow.json"
  name := "greet.flow.json"
  digest := .error (.os "[Errno 2] No such file or directory: 'flows/greet.flow.json'")
  text := .error (.os "[Errno 2] No such file or directory: 'flows/greet.flow.json'")

end FlowRegistry

end ChainWeaver
