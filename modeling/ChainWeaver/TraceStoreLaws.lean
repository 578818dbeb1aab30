import ChainWeaver.TraceStore
import Mathlib.Data.List.Infix

/-!
# Trace stores agree

The file, read back, holds what the store in memory holds, as long as every line
that was written is read as one line. What a redacting store puts into its file
is redacted.
-/

namespace ChainWeaver

namespace FileTraceStore

variable {store : FileTraceStore}

-- Lines of results

/-- JSON has a form for the values of the result, and its reader finds the result again. -/
def Representable (store : FileTraceStore) (result : ExecutionResult) : Prop :=
  ∃ line, store.dumpJson result = some line ∧ store.validate line = some result

/-- No string of the result's document has a character that ends a line and that
JSON leaves as it is. -/
def Unbroken (store : FileTraceStore) (result : ExecutionResult) : Prop :=
  ∀ tree, result.tree store.writer = some tree →
    ∀ s ∈ tree.strings, ∀ c ∈ s.toList, c ∉ ['\u0085', '\u2028', '\u2029']

theorem tree_object {writer : JsonWriter} {result : ExecutionResult} (h : result.tree writer = some tree) : ∃ entries, tree = .object entries := by
  cases result
  simp only [ExecutionResult.tree, Option.bind_eq_bind, Option.bind_eq_some_iff, Option.pure_def,
    Option.some.injEq] at h
  obtain ⟨_, _, _, _, _, _, rfl⟩ := h
  exact ⟨_, rfl⟩

theorem dumpJson_braces (h : store.dumpJson result = some line) : ∃ inner, line = '{' :: inner ++ ['}'] := by
  obtain ⟨tree, htree, rfl⟩ := Option.map_eq_some_iff.1 h
  obtain ⟨entries, hentries⟩ := tree_object htree
  rw [hentries, Json.text]
  exact ⟨_, rfl⟩

theorem strip_dumpJson (h : store.dumpJson result = some line) : strip line = line := by
  obtain ⟨inner, rfl⟩ := dumpJson_braces h
  exact strip_eq_self '{' '}' inner rfl rfl

theorem endsLine_dumpJson (hunbroken : store.Unbroken result) (h : store.dumpJson result = some line) :
    ∀ c ∈ line, endsLine c = false := by
  intro c hc
  obtain ⟨tree, htree, rfl⟩ := Option.map_eq_some_iff.1 h
  by_contra hends
  obtain ⟨hthree, s, hs, hcs⟩ := Json.endsLine_text hc (Bool.not_eq_false _ ▸ hends)
  exact hunbroken tree htree s hs c hcs hthree

/-- The result survives the file. -/
structure Storable (store : FileTraceStore) (result : ExecutionResult) : Prop where
  representable : store.Representable result
  unbroken : store.Unbroken result

theorem readAll_payload (results : List ExecutionResult) (h : ∀ result ∈ results, store.Storable result) :
    ∃ text, store.payload results = some text ∧ store.readAll (some text) = results := by
  induction results with
  | nil => exact ⟨[], rfl, rfl⟩
  | cons result rest ih =>
    rw [List.forall_mem_cons] at h
    obtain ⟨⟨⟨line, hline, hvalidate⟩, hunbroken⟩, hrest⟩ := h
    obtain ⟨text, htext, hread⟩ := ih hrest
    refine ⟨line ++ '\n' :: text, by simp [payload, hline, htext], ?_⟩
    have hstrip : strip line = line := strip_dumpJson hline
    have hnonempty : line.isEmpty = false := by
      obtain ⟨inner, rfl⟩ := dumpJson_braces hline
      rfl
    rw [readAll] at hread ⊢
    rw [splitlines_line (endsLine_dumpJson hunbroken hline), List.map_cons, hstrip,
      List.filter_cons_of_pos (by simp [hnonempty]), List.filterMap_cons_some hvalidate, hread]

/-- What the file holds: results that survive, each under an id of its own. -/
structure Holds (store : FileTraceStore) (file : File) (results : List ExecutionResult) : Prop where
  readAll : store.readAll file = results
  storable : ∀ result ∈ results, store.Storable result

theorem Holds.empty : store.Holds none [] := ⟨rfl, by simp⟩

theorem Holds.writeAll (h : ∀ result ∈ results, store.Storable result) (file : File) :
    (store.writeAll results file).1 = .done ∧ store.Holds (store.writeAll results file).2 results := by
  obtain ⟨text, htext, hread⟩ := readAll_payload results h
  rw [FileTraceStore.writeAll, htext]
  exact ⟨rfl, hread, h⟩

theorem mem_rotated (h : result ∈ store.rotated results) : result ∈ results := by
  unfold rotated newest at h
  split at h
  · split at h
    · exact List.mem_of_mem_drop h
    · exact h
  · exact h

theorem Holds.save (h : store.Holds file results) (hresult : store.Storable (store.redacted result)) :
    (store.save result file).1 = .done ∧ store.Holds (store.save result file).2
      (store.rotated (without (store.redacted result).traceId results ++ [store.redacted result])) := by
  rw [FileTraceStore.save, h.readAll]
  refine Holds.writeAll (fun r hr => ?_) file
  obtain hr | hr := List.mem_append.1 (mem_rotated hr)
  · exact h.storable r (List.mem_of_mem_filter hr)
  · rw [List.mem_singleton.1 hr]
    exact hresult

theorem Holds.delete (h : store.Holds file results) (traceId : String) :
    (store.writeAll (without traceId (store.readAll file)) file).1 = .done ∧
      store.Holds (store.writeAll (without traceId (store.readAll file)) file).2 (without traceId results) := by
  rw [h.readAll]
  exact Holds.writeAll (fun result hresult => h.storable result (List.mem_of_mem_filter hresult)) file

end FileTraceStore

-- The store in memory

namespace InMemoryTraceStore

def values (traces : Traces) : List ExecutionResult := traces.entries.map Prod.snd

/-- Every trace is stored under its own id. -/
def Keyed (traces : Traces) : Prop := ∀ entry ∈ traces.entries, entry.2.traceId = entry.1

theorem values_erase (h : Keyed traces) (traceId : String) :
    values (traces.erase traceId) = FileTraceStore.without traceId (values traces) := by
  unfold values FileTraceStore.without OrderedDict.erase
  rw [List.filter_map]
  congr 1
  refine List.filter_congr fun entry hentry => ?_
  simp [h entry hentry]

theorem keyed_erase (h : Keyed traces) (traceId : String) : Keyed (traces.erase traceId) :=
  fun entry hentry => h entry (List.mem_of_mem_filter hentry)

theorem entries_save (result : ExecutionResult) (traces : Traces) :
    (save result traces).entries = (traces.erase result.traceId).entries ++ [(result.traceId, result)] := by
  refine OrderedDict.put_of_not_mem ?_
  simp [OrderedDict.erase]

theorem values_save (h : Keyed traces) (result : ExecutionResult) :
    values (save result traces) = FileTraceStore.without result.traceId (values traces) ++ [result] := by
  rw [← values_erase h, values, entries_save, List.map_append]
  rfl

theorem keyed_save (h : Keyed traces) (result : ExecutionResult) : Keyed (save result traces) := by
  intro entry hentry
  rw [entries_save, List.mem_append, List.mem_singleton] at hentry
  obtain hentry | rfl := hentry
  · exact keyed_erase h _ entry hentry
  · rfl

theorem keys_eq (h : Keyed traces) : traces.keys = (values traces).map (·.traceId) := by
  rw [OrderedDict.keys, values, List.map_map]
  exact List.map_congr_left fun entry hentry => (h entry hentry).symm

theorem lookup_eq_find? (entries : List (String × ExecutionResult)) (traceId : String)
    (h : ∀ entry ∈ entries, entry.2.traceId = entry.1) :
    entries.lookup traceId = (entries.map Prod.snd).find? fun result => result.traceId = traceId := by
  induction entries with
  | nil => rfl
  | cons entry rest ih =>
    obtain ⟨key, result⟩ := entry
    rw [List.forall_mem_cons] at h
    have hkey : result.traceId = key := h.1
    rw [OrderedDict.lookup_cons_if, List.map_cons, List.find?_cons, hkey, ih h.2]
    by_cases htrace : traceId = key
    · simp [htrace]
    · simp [htrace, Ne.symm htrace]

theorem get?_eq_find? (h : Keyed traces) (traceId : String) :
    traces.get? traceId = (values traces).find? fun result => result.traceId = traceId :=
  lookup_eq_find? traces.entries traceId h

end InMemoryTraceStore

-- The file against the memory

namespace FileTraceStore

open InMemoryTraceStore

variable {store : FileTraceStore}

/-- An operation that saves nothing the file would lose. -/
def Admits (store : FileTraceStore) (op : TraceOp) : Prop := ∀ result, op = .save result → store.Storable result

/-- The file holds what the store in memory holds. -/
def Mirrors (store : FileTraceStore) (file : File) (traces : Traces) : Prop :=
  Keyed traces ∧ store.Holds file (values traces)

theorem step_mirrors (hpolicy : store.redactionPolicy = none) (hmax : store.maxTraces = none)
    (h : store.Mirrors file traces) (hop : store.Admits op) :
    (store.step file op).1 = (InMemoryTraceStore.step traces op).1 ∧
      store.Mirrors (store.step file op).2 (InMemoryTraceStore.step traces op).2 := by
  obtain ⟨hkeyed, hholds⟩ := h
  have hread := hholds.readAll
  cases op with
  | save result =>
    have hsame : store.redacted result = result := by rw [redacted, hpolicy]
    obtain ⟨hdone, hsaved⟩ := hholds.save (hsame.symm ▸ hop result rfl)
    rw [hsame, rotated, hmax, ← values_save hkeyed] at hsaved
    exact ⟨hdone, keyed_save hkeyed result, hsaved⟩
  | load traceId =>
    refine ⟨?_, hkeyed, hholds⟩
    rw [FileTraceStore.step, InMemoryTraceStore.step, hread, get?_eq_find? hkeyed]
  | listTraceIds =>
    refine ⟨?_, hkeyed, hholds⟩
    rw [FileTraceStore.step, InMemoryTraceStore.step, hread, keys_eq hkeyed]
  | delete traceId =>
    obtain ⟨hdone, hdeleted⟩ := hholds.delete traceId
    rw [← values_erase hkeyed] at hdeleted
    exact ⟨hdone, keyed_erase hkeyed traceId, hdeleted⟩
  | len =>
    refine ⟨?_, hkeyed, hholds⟩
    rw [FileTraceStore.step, InMemoryTraceStore.step, hread, values, List.length_map]

theorem agree (hpolicy : store.redactionPolicy = none) (hmax : store.maxTraces = none) :
    Machine.Agree (m := store.machine) (n := InMemoryTraceStore.machine) store.Mirrors (fun _ => store.Admits)
      (· = ·) where
  answer _ _ _ h hop := (step_mirrors hpolicy hmax h hop).1
  tracks _ _ _ h hop := (step_mirrors hpolicy hmax h hop).2

-- Retention

theorem rotated_eq (hmax : store.maxTraces = some m) (results : List ExecutionResult) :
    store.rotated results = newest m results := by
  rw [rotated, hmax]
  change (if results.length > m then newest m results else results) = newest m results
  by_cases h : results.length > m
  · exact if_pos h
  · have hzero : results.length - m = 0 := by omega
    rw [if_neg h, newest, hzero, List.drop_zero]

theorem newest_suffix (m : Nat) (results : List α) : newest m results <:+ results := List.drop_suffix _ _

theorem length_newest (m : Nat) (results : List α) : (newest m results).length = min m results.length := by
  rw [newest, List.length_drop]
  omega

theorem newest_of_suffix {held results : List α} (h : held <:+ results)
    (hlength : min m results.length ≤ held.length) : newest m held = newest m results := by
  obtain ⟨older, rfl⟩ := h
  unfold newest
  rw [List.length_append] at hlength ⊢
  rcases Nat.lt_or_ge held.length m with hm | hm
  · have hnone : older = [] := List.eq_nil_of_length_eq_zero (by omega)
    subst hnone
    simp
  · have hdrop : older.length + held.length - m = older.length + (held.length - m) := by omega
    rw [hdrop, List.drop_length_add_append]

theorem length_without (traceId : String) (results : List ExecutionResult) (h : (results.map (·.traceId)).Nodup) :
    results.length ≤ (without traceId results).length + 1 := by
  induction results with
  | nil => exact Nat.zero_le _
  | cons result rest ih =>
    rw [List.map_cons, List.nodup_cons] at h
    by_cases hid : result.traceId = traceId
    · have hall : without traceId (result :: rest) = rest := by
        rw [without, List.filter_cons_of_neg (by simp [hid]), List.filter_eq_self]
        intro other hother
        have hne : other.traceId ≠ traceId := fun heq =>
          h.1 (List.mem_map.2 ⟨other, hother, heq.trans hid.symm⟩)
        simpa using hne
      rw [hall, List.length_cons]
    · rw [without, List.filter_cons_of_pos (by simpa using hid), List.length_cons, List.length_cons]
      exact Nat.succ_le_succ (ih h.2)

theorem nodup_traceIds (h : Keyed traces) : ((values traces).map (·.traceId)).Nodup := by
  rw [← keys_eq h]
  exact traces.nodup

/-- The file holds the newest of the traces in memory, at most `m`. -/
structure Retains (store : FileTraceStore) (m : Nat) (file : File) (traces : Traces) : Prop where
  keyed : Keyed traces
  holds : ∃ held, store.Holds file held ∧ held <:+ values traces ∧ held.length ≤ m

theorem without_append_suffix (h : held <:+ results) (traceId : String) (result : ExecutionResult) :
    without traceId held ++ [result] <:+ without traceId results ++ [result] := by
  obtain ⟨older, rfl⟩ := h
  exact ⟨without traceId older, by simp [without]⟩

theorem Retains.save (hpolicy : store.redactionPolicy = none) (hmax : store.maxTraces = some m)
    (h : store.Retains m file traces) (hop : store.Storable result) :
    store.Retains m (store.save result file).2 (InMemoryTraceStore.save result traces) := by
  obtain ⟨hkeyed, held, hholds, hsuffix, -⟩ := h
  have hsame : store.redacted result = result := by rw [redacted, hpolicy]
  obtain ⟨-, hsaved⟩ := hholds.save (hsame.symm ▸ hop)
  rw [hsame, rotated_eq hmax] at hsaved
  refine ⟨keyed_save hkeyed result, _, hsaved, ?_, ?_⟩
  · rw [values_save hkeyed]
    exact (newest_suffix m _).trans (without_append_suffix hsuffix _ _)
  · rw [length_newest]
    exact Nat.min_le_left _ _

theorem Retains.delete (h : store.Retains m file traces) : store.Retains m
    (store.writeAll (without traceId (store.readAll file)) file).2 (traces.erase traceId) := by
  obtain ⟨hkeyed, held, hholds, hsuffix, hlength⟩ := h
  refine ⟨keyed_erase hkeyed traceId, _, (hholds.delete traceId).2, ?_, ?_⟩
  · rw [values_erase hkeyed]
    exact hsuffix.filter _
  · exact (List.length_filter_le _ _).trans hlength

theorem retains_tracks (store : FileTraceStore) (hpolicy : store.redactionPolicy = none) (hmax : store.maxTraces = some m) :
    Machine.Tracks (m := store.machine) (n := InMemoryTraceStore.machine) (store.Retains m)
      fun _ => store.Admits := by
  intro file traces op h hop
  cases op with
  | save result => exact h.save hpolicy hmax (hop result rfl)
  | delete traceId => exact h.delete
  | load | listTraceIds | len => exact h

/-- The file holds the newest `m` of the traces in memory. -/
def HoldsNewest (store : FileTraceStore) (m : Nat) (file : File) (traces : Traces) : Prop :=
  Keyed traces ∧ store.Holds file (newest m (values traces))

/-- A save takes at most one of the newest away and puts one in its place. -/
theorem newest_save (hkeyed : Keyed traces) (result : ExecutionResult) :
    newest m (without result.traceId (newest m (values traces)) ++ [result]) =
      newest m (values (InMemoryTraceStore.save result traces)) := by
  have hsuffix : newest m (values traces) <:+ values traces := newest_suffix m _
  rw [values_save hkeyed]
  refine newest_of_suffix (without_append_suffix hsuffix _ _) ?_
  have hnodup : ((newest m (values traces)).map (·.traceId)).Nodup :=
    (nodup_traceIds hkeyed).sublist (hsuffix.sublist.map _)
  have hone := length_without result.traceId _ hnodup
  rw [length_newest] at hone
  rw [List.length_append, List.length_append, List.length_singleton]
  rcases Nat.le_total m (values traces).length with hm | hm
  · omega
  · have hall : newest m (values traces) = values traces := by
      rw [newest, Nat.sub_eq_zero_of_le hm, List.drop_zero]
    rw [hall]
    exact Nat.min_le_right _ _

theorem holdsNewest_tracks (store : FileTraceStore) (hpolicy : store.redactionPolicy = none) (hmax : store.maxTraces = some m) :
    Machine.Tracks (m := store.machine) (n := InMemoryTraceStore.machine) (store.HoldsNewest m)
      fun _ op => store.Admits op ∧ ∀ traceId, op ≠ .delete traceId := by
  rintro file traces op ⟨hkeyed, hholds⟩ ⟨hop, hdelete⟩
  cases op with
  | save result =>
    have hsame : store.redacted result = result := by rw [redacted, hpolicy]
    obtain ⟨-, hsaved⟩ := hholds.save (hsame.symm ▸ hop result rfl)
    rw [hsame, rotated_eq hmax, newest_save hkeyed] at hsaved
    exact ⟨keyed_save hkeyed result, hsaved⟩
  | delete traceId => exact absurd rfl (hdelete traceId)
  | load | listTraceIds | len => exact ⟨hkeyed, hholds⟩

end FileTraceStore

-- What a trace id stands for

namespace TraceOp

/-- What `traceId` stands for after the operation, `current` before. -/
def effect (traceId : String) (current : Option ExecutionResult) : TraceOp → Option ExecutionResult
  | .save result => if result.traceId = traceId then some result else current
  | .delete deleted => if deleted = traceId then none else current
  | _ => current

/-- The result last saved under `traceId`, unless deleted since. -/
def lastSaved (traceId : String) (ops : List TraceOp) : Option ExecutionResult :=
  ops.foldl (effect traceId) none

end TraceOp

namespace InMemoryTraceStore

theorem get?_step (traces : Traces) (op : TraceOp) :
    (step traces op).2.get? traceId = op.effect traceId (traces.get? traceId) := by
  cases op with
  | save result =>
    rw [step, save, OrderedDict.get?_insert, OrderedDict.get?_erase, TraceOp.effect]
    by_cases h : result.traceId = traceId
    · simp [h]
    · simp [h, Ne.symm h]
  | delete deleted =>
    rw [step, OrderedDict.get?_erase, TraceOp.effect]
    simp [eq_comm]
  | load | listTraceIds | len => rfl

theorem get?_after (ops : List TraceOp) (traceId : String) :
    OrderedDict.get? (machine.after ops) traceId = TraceOp.lastSaved traceId ops := by
  have hfrom : ∀ (ops : List TraceOp) (traces : Traces),
      OrderedDict.get? (machine.stateFrom traces ops) traceId =
        ops.foldl (TraceOp.effect traceId) (traces.get? traceId) := by
    intro ops
    induction ops with
    | nil => exact fun _ => rfl
    | cons op rest ih =>
      intro traces
      rw [List.foldl_cons, ← get?_step]
      exact ih _
  exact hfrom ops .empty

end InMemoryTraceStore

-- Refinement

namespace FileTraceStore

open InMemoryTraceStore

/-- The same file with a retention cap. -/
def capped (store : FileTraceStore) (m : Nat) (hm : 0 < m) : FileTraceStore :=
  { store with maxTraces := some m, positive := by simpa using hm }

/-- What the file holds after `ops`. -/
def held (store : FileTraceStore) (ops : List TraceOp) : List ExecutionResult :=
  store.readAll (store.machine.after ops)

/-- As long as no saved result has a character that splits its line, the file
answers as the memory does, and an id stands for what was last saved under it.
With a cap the file holds the newest traces, all `m` of them while nothing was
deleted. -/
theorem refines (store : FileTraceStore) (hpolicy : store.redactionPolicy = none)
    (hmax : store.maxTraces = none) (ops : List TraceOp)
    (hrepresentable : ∀ result, .save result ∈ ops → store.Representable result)
    (hunbroken : ∀ result, .save result ∈ ops → store.Unbroken result) :
    store.machine.answers ops = InMemoryTraceStore.machine.answers ops ∧
      store.held ops = values (InMemoryTraceStore.machine.after ops) ∧
      ((store.held ops).map (·.traceId)).Nodup ∧
      (∀ traceId, ((store.held ops).find? fun result => result.traceId = traceId) =
        TraceOp.lastSaved traceId ops) ∧
      ∀ m hm, (store.capped m hm).held ops <:+ store.held ops ∧ ((store.capped m hm).held ops).length ≤ m ∧
        ((∀ traceId, .delete traceId ∉ ops) → (store.capped m hm).held ops = newest m (store.held ops)) := by
  have hops : ∀ op ∈ ops, store.Admits op := by
    rintro op hop result rfl
    exact ⟨hrepresentable result hop, hunbroken result hop⟩
  have hempty : Keyed .empty := nofun
  have hagree := agree hpolicy hmax
  have hadmitted := InMemoryTraceStore.machine.admitted_of_forall .empty hops
  obtain ⟨hkeyed, hholds⟩ := Machine.after_tracks hagree.tracks ⟨hempty, Holds.empty⟩ hadmitted
  have hread : store.held ops = values (InMemoryTraceStore.machine.after ops) := hholds.readAll
  have hanswers := Machine.answers_agree hagree ⟨hempty, Holds.empty⟩ hadmitted
  rw [List.forall₂_eq_eq_eq] at hanswers
  refine ⟨hanswers, hread, ?_, ?_, ?_⟩
  · rw [hread]
    exact nodup_traceIds hkeyed
  · intro traceId
    rw [hread, ← get?_eq_find? hkeyed, get?_after]
  · intro m hm
    have hcapped : ∀ op ∈ ops, (store.capped m hm).Admits op := by
      intro op hop result heq
      obtain ⟨hrep, hunb⟩ := hops op hop result heq
      exact ⟨hrep, hunb⟩
    obtain ⟨-, held, hheld, hsuffix, hlength⟩ := Machine.after_tracks
      (retains_tracks (store.capped m hm) hpolicy rfl)
      ⟨hempty, [], Holds.empty, List.nil_suffix, Nat.zero_le m⟩
      (InMemoryTraceStore.machine.admitted_of_forall .empty hcapped)
    have hreadCapped : (store.capped m hm).held ops = held := hheld.readAll
    rw [hreadCapped, hread]
    refine ⟨hsuffix, hlength, fun hdelete => ?_⟩
    have hnone : newest m (values .empty) = [] := List.drop_nil
    have hnewest := Machine.after_tracks (holdsNewest_tracks (store.capped m hm) hpolicy rfl)
      ⟨hempty, hnone ▸ Holds.empty⟩ (InMemoryTraceStore.machine.admitted_of_forall .empty
        fun op hop => ⟨hcapped op hop, fun traceId heq => hdelete traceId (heq ▸ hop)⟩)
    exact hheld.readAll.symm.trans hnewest.2.readAll

section
-- A JSON reader that knows two texts: those of the results below.

def digits : FloatText := .half

def jsonMode : JsonWriter := { nonFinite := false, setText := none, other := fun _ _ => none }

def sampleResult (traceId text : String) : ExecutionResult where
  flowName := "greet"
  flowVersion := "1.0"
  success := true
  finalOutput := some (.ofList [("text", .str text)])
  traceId := traceId

def sampleText (result : ExecutionResult) : Text := ((result.tree jsonMode).map (Json.text digits)).getD []

/-- Whether the strings of a document have none of the three characters. -/
def unbrokenTree (tree : Json) : Bool :=
  tree.strings.all fun s => s.toList.all fun c => !(['\u0085', '\u2028', '\u2029'].contains c)

theorem unbroken_of_tree {store : FileTraceStore}
    (h : (result.tree store.writer).all unbrokenTree = true) : store.Unbroken result := by
  intro tree htree s hs c hc
  rw [htree, Option.all_some] at h
  have hchar := List.all_eq_true.1 (List.all_eq_true.1 h s hs) c hc
  simpa using hchar

/-- A store of two results, one of which may have any text in it. -/
def sampleStore (text : String) : FileTraceStore where
  writer := jsonMode
  floats := digits
  validate line :=
    if line = sampleText (sampleResult "a" text) then some (sampleResult "a" text)
    else if line = sampleText (sampleResult "b" "hi") then some (sampleResult "b" "hi")
    else none

theorem sampleStore_representable : (sampleStore text).Representable (sampleResult "a" text) :=
  ⟨sampleText (sampleResult "a" text), rfl, if_pos rfl⟩

def sampleOps : List TraceOp := [.save (sampleResult "a" "é"), .save (sampleResult "b" "hi"), .delete "a"]

theorem sampleOps_saves (h : .save result ∈ sampleOps) :
    result = sampleResult "a" "é" ∨ result = sampleResult "b" "hi" := by
  simpa [sampleOps] using h

theorem refines_sample : (sampleStore "é").held sampleOps =
    InMemoryTraceStore.values (InMemoryTraceStore.machine.after sampleOps) := by
  refine (refines (sampleStore "é") rfl rfl sampleOps ?_ ?_).2.1
  · intro result h
    obtain rfl | rfl := sampleOps_saves h
    · exact sampleStore_representable
    · refine ⟨sampleText (sampleResult "b" "hi"), rfl, ?_⟩
      have hne : sampleText (sampleResult "b" "hi") ≠ sampleText (sampleResult "a" "é") := by decide +kernel
      simp only [sampleStore, if_neg hne, if_true]
  · intro result h
    obtain rfl | rfl := sampleOps_saves h
    · exact unbroken_of_tree (by decide +kernel)
    · exact unbroken_of_tree (by decide +kernel)

def brokenResult : ExecutionResult := sampleResult "a" "line\u2028separator"

/-- A line separator (U+2028) in a string splits the line, and the trace is gone. -/
theorem refines_lost : ¬ ∀ (store : FileTraceStore) (ops : List TraceOp), store.redactionPolicy = none →
    store.maxTraces = none → (∀ result, .save result ∈ ops → store.Representable result) →
    store.machine.answers ops = InMemoryTraceStore.machine.answers ops := by
  intro h
  have hfile : (sampleStore "line\u2028separator").machine.after [.save brokenResult] =
      some (sampleText brokenResult ++ ['\n']) := rfl
  have hlines : ∀ line ∈ (splitlines (sampleText brokenResult ++ ['\n'])).map strip,
      line ≠ sampleText brokenResult ∧ line ≠ sampleText (sampleResult "b" "hi") := by decide +kernel
  have hlost : (sampleStore "line\u2028separator").held [.save brokenResult] = [] := by
    rw [held, hfile, readAll, List.filterMap_eq_nil_iff]
    intro line hline
    obtain ⟨hfirst, hsecond⟩ := hlines line (List.mem_of_mem_filter hline)
    exact (if_neg hfirst).trans (if_neg hsecond)
  have hanswers := h (sampleStore "line\u2028separator") [.save brokenResult, .len] rfl rfl (by
    intro result hmem
    simp only [List.mem_cons, TraceOp.save.injEq, List.not_mem_nil, or_false, reduceCtorEq] at hmem
    rw [hmem]
    exact sampleStore_representable)
  have hcount : TraceAnswer.count ((sampleStore "line\u2028separator").held [.save brokenResult]).length =
      .count 1 := (List.cons.inj (List.cons.inj hanswers).2).1
  rw [hlost] at hcount
  cases hcount

end

end FileTraceStore

end ChainWeaver
