import ChainWeaver.Data.Attempt
import ChainWeaver.FlowStore
import ChainWeaver.SerializationLaws

/-!
# Flow stores agree

A key gives a file name of its own and is read back from it. The directory
mirrors the store in memory, and the two answer alike exactly if what is loaded
survives its file and the file names are ordered as the keys are.
-/

namespace ChainWeaver

-- File names

theorem mem_withoutNewline {text : Text} (h : c ∈ text) : c ∈ withoutNewline text ∨ c = '\n' := by
  unfold withoutNewline
  split
  next hlast =>
    rw [← List.dropLast_append_getLast? '\n' hlast, List.mem_append, List.mem_singleton] at h
    exact h
  next => exact .inl h

namespace FlowKey

theorem validateName_ok {name : String} : validateName name = .ok () ↔
    withoutNewline name.toList ≠ [] ∧ (withoutNewline name.toList).all isNameChar = true := by
  simp only [validateName]
  split
  next h => exact iff_of_true rfl h
  next h => exact iff_of_false nofun h

theorem validateVersion_ok {version : String} : validateVersion version = .ok () ↔
    ∀ c ∈ version.toList, isSeparator c = false ∧ c ≠ '@' := by
  unfold validateVersion
  split
  next h =>
    refine iff_of_false nofun fun hall => ?_
    obtain ⟨c, hc, hany⟩ := List.any_eq_true.1 h
    simp [hall c hc] at hany
  next h =>
    refine iff_of_true rfl fun c hc => ?_
    have hchar : ¬ (isSeparator c || decide (c = '@')) = true := fun hany =>
      h (List.any_eq_true.2 ⟨c, hc, hany⟩)
    simpa using hchar

/-- The store takes the name and the version. -/
structure Allowed (key : FlowKey) : Prop where
  name : validateName key.name = .ok ()
  version : validateVersion key.version = .ok ()

variable {key : FlowKey}

theorem Allowed.pathFor (h : key.Allowed) : key.pathFor = .ok key.fileName := by
  rw [FlowKey.pathFor, h.name, h.version]
  rfl

theorem Allowed.name_ne_nil (h : key.Allowed) : key.name.toList ≠ [] := by
  intro hnil
  apply (validateName_ok.1 h.name).1
  rw [hnil]
  rfl

theorem Allowed.name_chars (h : key.Allowed) (hc : c ∈ key.name.toList) : c ≠ '@' ∧ isSeparator c = false := by
  obtain hmem | rfl := mem_withoutNewline hc
  · have hchar : isNameChar c = true := List.all_eq_true.1 (validateName_ok.1 h.name).2 c hmem
    constructor
    · rintro rfl
      simp [isNameChar] at hchar
    · by_contra hseparator
      simp only [isSeparator, Bool.not_eq_false, decide_eq_true_eq, List.mem_cons, List.not_mem_nil, or_false]
        at hseparator
      obtain rfl | rfl := hseparator <;> simp [isNameChar] at hchar
  · exact ⟨by decide, by decide⟩

theorem Allowed.version_chars (h : key.Allowed) (hc : c ∈ key.version.toList) : isSeparator c = false :=
  (validateVersion_ok.1 h.version c hc).1

theorem toList_fileName (key : FlowKey) :
    key.fileName.toList = key.name.toList ++ '@' :: key.version.toList ++ fileSuffix.toList := by
  simp [fileName]

/-- The text before the suffix falls into the name and the version at the first `@`. -/
theorem Allowed.span (h : key.Allowed) (rest : Text) :
    (key.name.toList ++ '@' :: rest).takeWhile (· ≠ '@') = key.name.toList ∧
      (key.name.toList ++ '@' :: rest).dropWhile (· ≠ '@') = '@' :: rest := by
  have hname : ∀ c ∈ key.name.toList, decide (c ≠ '@') = true := fun c hc =>
    decide_eq_true (h.name_chars hc).1
  constructor
  · rw [List.takeWhile_append_of_pos hname]
    simp
  · rw [List.dropWhile_append_of_pos hname]
    simp

/-- Distinct keys have distinct files. -/
theorem Allowed.eq_of_fileName {a b : FlowKey} (ha : a.Allowed) (hb : b.Allowed) (h : a.fileName = b.fileName) :
    a = b := by
  have htext : a.name.toList ++ '@' :: a.version.toList = b.name.toList ++ '@' :: b.version.toList := by
    have hlist := congrArg String.toList h
    rw [toList_fileName, toList_fileName] at hlist
    exact List.append_cancel_right hlist
  have hname : a.name.toList = b.name.toList := by
    rw [← (ha.span a.version.toList).1, htext, (hb.span b.version.toList).1]
  have hversion : '@' :: a.version.toList = '@' :: b.version.toList := by
    rw [← (ha.span a.version.toList).2, htext, (hb.span b.version.toList).2]
  cases a
  cases b
  rw [FlowKey.mk.injEq]
  exact ⟨String.toList_inj.1 hname, String.toList_inj.1 (List.cons.inj hversion).2⟩

/-- A file is listed under its key, unless the version is empty. -/
theorem Allowed.parse_fileName (h : key.Allowed) :
    parse key.fileName = if key.version = "" then none else some key := by
  have hlast : withoutNewline key.fileName.toList = key.fileName.toList := by
    rw [withoutNewline, toList_fileName, List.getLast?_append, if_neg (by simp [fileSuffix])]
  have hstem : afterPrefix fileSuffix.toList.reverse (withoutNewline key.fileName.toList).reverse =
      some (key.name.toList ++ '@' :: key.version.toList).reverse := by
    rw [hlast, toList_fileName, List.reverse_append]
    exact afterPrefix_append _ _
  obtain ⟨hname, hversion⟩ := h.span key.version.toList
  have hseparators : ¬ (key.name.toList.any isSeparator ∨ key.version.toList.any isSeparator) := by
    simp only [List.any_eq_true, not_or, not_exists, not_and, Bool.not_eq_true]
    exact ⟨fun c hc => (h.name_chars hc).2, fun c hc => h.version_chars hc⟩
  simp only [parse, hstem, Option.bind_eq_bind, Option.bind_some, List.reverse_reverse, hname, hversion]
  by_cases hempty : key.version = ""
  · simp [hempty]
  · have hne : key.version.toList ≠ [] := fun hnil => hempty (String.toList_inj.1 hnil)
    rw [if_neg hempty, if_pos ⟨h.name_ne_nil, hne, hseparators⟩]
    simp

end FlowKey

-- The order of the keys

namespace FlowKey

instance : Std.Total Le where
  total a b := by
    rcases lt_trichotomy a.name b.name with h | h | h
    · exact .inl (.inl h)
    · exact (le_total a.version b.version).imp (fun hle => .inr ⟨h, hle⟩) fun hle => .inr ⟨h.symm, hle⟩
    · exact .inr (.inl h)

instance : IsTrans FlowKey Le where
  trans a b c := by
    rintro (hab | ⟨hab, hab'⟩) (hbc | ⟨hbc, hbc'⟩)
    · exact .inl (hab.trans hbc)
    · exact .inl (hbc ▸ hab)
    · exact .inl (hab ▸ hbc)
    · exact .inr ⟨hab.trans hbc, hab'.trans hbc'⟩

theorem Le.refl (key : FlowKey) : key.Le key := .inr ⟨rfl, le_rfl⟩

theorem Le.antisymm {a b : FlowKey} (hab : a.Le b) (hba : b.Le a) : a = b := by
  obtain hlt | ⟨hname, hversion⟩ := hab
  · obtain hlt' | ⟨heq, -⟩ := hba
    · exact absurd hlt hlt'.asymm
    · exact absurd heq hlt.ne'
  · obtain hlt' | ⟨-, hversion'⟩ := hba
    · exact absurd hname hlt'.ne'
    · cases a
      cases b
      exact FlowKey.mk.injEq .. ▸ ⟨hname, hversion.antisymm hversion'⟩

/-- The file names are ordered as the keys are. -/
def FilesOrdered (keys : List FlowKey) : Prop := ∀ a ∈ keys, ∀ b ∈ keys, a.Le b ↔ a.fileName ≤ b.fileName

theorem filesOrdered_of_sorted {keys : List FlowKey} (hallowed : ∀ key ∈ keys, key.Allowed)
    (h : ((keys.insertionSort Le).map fileName).Pairwise (· ≤ ·)) : FilesOrdered keys := by
  have hboth : (keys.insertionSort Le).Pairwise fun a b => a.Le b ∧ a.fileName ≤ b.fileName :=
    List.pairwise_and_iff.2 ⟨List.pairwise_insertionSort Le keys, List.pairwise_map.1 h⟩
  have hsame : (keys.insertionSort Le).Pairwise fun a b => a.Le b ↔ a.fileName ≤ b.fileName :=
    hboth.imp fun h => iff_of_true h.1 h.2
  have hflip : (keys.insertionSort Le).Pairwise (flip fun a b => a.Le b ↔ a.fileName ≤ b.fileName) := by
    refine hboth.imp_of_mem fun {a b} ha hb h => ?_
    rw [List.mem_insertionSort] at ha hb
    constructor
    · intro hle
      rw [hle.antisymm h.1]
    · intro hle
      rw [(hallowed b hb).eq_of_fileName (hallowed a ha) (hle.antisymm h.2)]
      exact Le.refl a
  have hrefl : ∀ key ∈ keys.insertionSort Le, key.Le key ↔ key.fileName ≤ key.fileName :=
    fun key _ => iff_of_true (Le.refl key) le_rfl
  intro a ha b hb
  exact List.Pairwise.forall_of_forall_of_flip hrefl hsame hflip
    ((List.mem_insertionSort Le).2 ha) ((List.mem_insertionSort Le).2 hb)

/-- What the directory lists: the keys in the order of their files, without those
of an empty version. -/
theorem listed_iff {keys : List FlowKey} {files : List String} (hallowed : ∀ key ∈ keys, key.Allowed)
    (hfiles : files.Perm (keys.map fileName)) :
    (files.insertionSort (· ≤ ·)).filterMap parse = keys.insertionSort Le ↔
      FilesOrdered keys ∧ ∀ key ∈ keys, key.version ≠ "" := by
  have hsorted : files.insertionSort (· ≤ ·) = (keys.map fileName).insertionSort (· ≤ ·) :=
    List.Perm.eq_of_pairwise' (List.pairwise_insertionSort _ _) (List.pairwise_insertionSort _ _)
      ((List.perm_insertionSort _ _).trans (hfiles.trans (List.perm_insertionSort _ _).symm))
  have hmem : ∀ key ∈ keys, key.fileName ∈ files.insertionSort (· ≤ ·) := fun key hkey =>
    (List.mem_insertionSort _).2 (hfiles.mem_iff.2 (List.mem_map_of_mem hkey))
  have hparse : ∀ file ∈ files.insertionSort (· ≤ ·), ∃ key ∈ keys, key.fileName = file := fun file hfile =>
    List.mem_map.1 (hfiles.mem_iff.1 ((List.mem_insertionSort _).1 hfile))
  constructor
  · intro h
    -- No file is passed over, so each one listed is the file of its key.
    have hall : ∀ file ∈ files.insertionSort (· ≤ ·), (parse file).isSome := by
      refine List.filterMap_length_eq_length.1 ?_
      rw [h, List.length_insertionSort, List.length_insertionSort, hfiles.length_eq, List.length_map]
    have hversions : ∀ key ∈ keys, key.version ≠ "" := by
      intro key hkey hempty
      have hsome := hall _ (hmem key hkey)
      rw [(hallowed key hkey).parse_fileName, if_pos hempty] at hsome
      cases hsome
    have hback : ∀ file ∈ files.insertionSort (· ≤ ·), (parse file).map fileName = some file := by
      intro file hfile
      obtain ⟨key, hkey, rfl⟩ := hparse file hfile
      rw [(hallowed key hkey).parse_fileName, if_neg (hversions key hkey), Option.map_some]
    have hmap : (keys.insertionSort Le).map fileName = files.insertionSort (· ≤ ·) := by
      rw [← h, List.map_filterMap, List.filterMap_congr hback, List.filterMap_some]
    exact ⟨filesOrdered_of_sorted hallowed (hmap ▸ List.pairwise_insertionSort _ _), hversions⟩
  · rintro ⟨hordered, hversions⟩
    have hback : ∀ key ∈ keys.insertionSort Le, (parse ∘ fileName) key = some key := by
      intro key hkey
      rw [List.mem_insertionSort] at hkey
      rw [Function.comp_apply, (hallowed key hkey).parse_fileName, if_neg (hversions key hkey)]
    rw [hsorted, ← List.map_insertionSort Le (· ≤ ·) fileName keys hordered, List.filterMap_map,
      List.filterMap_congr hback, List.filterMap_some]

end FlowKey

-- The directory against the memory

namespace FlowStoreAnswer

/-- Flows are loaded as they were saved, as Python compares them. -/
inductive Alike : FlowStoreAnswer → FlowStoreAnswer → Prop
  | same (answer : FlowStoreAnswer) : Alike answer answer
  | flow {saved read : FullFlow} (h : saved.Same read) : Alike (.flow read) (.flow saved)

theorem alike_flow {saved read : FullFlow} : Alike (.flow read) (.flow saved) ↔ saved.Same read := by
  constructor
  · rintro (_ | h)
    · exact FullFlow.same_iff.2 rfl
    · assumption
  · exact .flow

theorem alike_done {answer : FlowStoreAnswer} : answer.Alike .done ↔ answer = .done := by
  constructor
  · rintro ⟨⟩
    rfl
  · rintro rfl
    exact .same _

theorem alike_raised : Alike (.raised error) (.raised error') ↔ error = error' := by
  constructor
  · rintro ⟨⟩
    rfl
  · rintro rfl
    exact .same _

theorem alike_keys : Alike (.keys listed) (.keys listed') ↔ listed = listed' := by
  constructor
  · rintro ⟨⟩
    rfl
  · rintro rfl
    exact .same _

theorem changed_done {before : σ} {result : Except FlowStoreError σ} :
    (changed before result).1 = .done ↔ ∃ after, result = .ok after := by
  cases result <;> simp [changed]

end FlowStoreAnswer

def FlowStoreOp.Allowed : FlowStoreOp → Prop
  | .saveFlow flow _ => flow.key.Allowed
  | .loadFlow key | .hasFlow key | .deleteFlow key => key.Allowed
  | .listKeys => True

open InMemoryStore (Flows)

theorem InMemoryStore.step_saveFlow {flow : FullFlow} (h : flow.key ∉ flows) :
    (InMemoryStore.step flows (.saveFlow flow overwrite)).2 = flows.insert flow.key flow := by
  rw [InMemoryStore.step, InMemoryStore.saveFlow, if_neg fun hrefused => h hrefused.1]
  rfl

theorem InMemoryStore.lookup_insert (flows : Flows) (flow : FullFlow) (key other : FlowKey) :
    (flows.insert key flow).lookup other = if other = key then some flow else flows.lookup other := by
  by_cases h : other = key
  · rw [h, if_pos rfl]
    exact AList.lookup_insert flows
  · rw [if_neg h]
    exact AList.lookup_insert_ne h

theorem InMemoryStore.lookup_erase (flows : Flows) (key other : FlowKey) :
    (flows.erase key).lookup other = if other = key then none else flows.lookup other := by
  by_cases h : other = key
  · rw [h, if_pos rfl]
    exact AList.lookup_erase key flows
  · rw [if_neg h]
    exact AList.lookup_erase_ne h

namespace FileStore

variable {store : FileStore} {dir : Dir} {flows : Flows} {key : FlowKey}

/-- The file system can be asked for the file. -/
def Asks (store : FileStore) (key : FlowKey) : Prop :=
  store.takes key.fileName = true ∨ store.raises key.fileName = false

/-- The flow can be written to its file. -/
structure Writes (store : FileStore) (flow : FullFlow) : Prop where
  takes : store.takes flow.key.fileName = true
  takesBeside : store.takes (flow.key.fileName ++ ".tmp") = true
  encodes : ∃ text, store.serializer.flowToJson (some 2) flow = some text

/-- The flow is loaded from its file as it was saved. -/
abbrev Survives (store : FileStore) (flow : FullFlow) : Prop :=
  flow.Survives store.serializer {} (store.serializer.jsonSize (some 2))

/-- What the operation needs of the files, `flows` in memory. -/
def Admits (store : FileStore) (flows : Flows) : FlowStoreOp → Prop
  | .saveFlow flow overwrite => (flow.key ∈ flows ∧ overwrite = false) ∨ store.Writes flow
  | .loadFlow key => store.Asks key ∧ ∀ flow ∈ flows.lookup key, store.Survives flow
  | .hasFlow key | .deleteFlow key => store.Asks key
  | .listKeys => FlowKey.FilesOrdered flows.keys ∧ ∀ key ∈ flows.keys, key.version ≠ ""

/-- Every flow in memory is in its file, and there are no other files. -/
structure Mirrors (store : FileStore) (dir : Dir) (flows : Flows) : Prop where
  allowed : ∀ key ∈ flows, key.Allowed
  taken : ∀ key ∈ flows, store.takes key.fileName = true
  stored : ∀ key flow, flows.lookup key = some flow →
    ∃ text, store.serializer.flowToJson (some 2) flow = some text ∧ dir.get? key.fileName = some text
  owned : ∀ file text, dir.get? file = some text → ∃ key ∈ flows, key.fileName = file

theorem Mirrors.empty : store.Mirrors .empty ∅ where
  allowed := by simp
  taken := by simp
  stored := by simp
  owned := by simp

namespace Mirrors

theorem get?_of_not_mem (h : store.Mirrors dir flows) (hkey : key.Allowed) (hmem : key ∉ flows) :
    dir.get? key.fileName = none := by
  by_contra hne
  obtain ⟨text, htext⟩ := Option.ne_none_iff_exists'.1 hne
  obtain ⟨other, hother, hfile⟩ := h.owned _ _ htext
  exact hmem ((h.allowed other hother).eq_of_fileName hkey hfile ▸ hother)

theorem get?_of_mem (h : store.Mirrors dir flows) (hmem : key ∈ flows) :
    ∃ flow text, flows.lookup key = some flow ∧ store.serializer.flowToJson (some 2) flow = some text ∧
      dir.get? key.fileName = some text := by
  obtain ⟨flow, hflow⟩ := Option.isSome_iff_exists.1 (AList.lookup_isSome.2 hmem)
  obtain ⟨text, htext⟩ := h.stored key flow hflow
  exact ⟨flow, text, hflow, htext⟩

theorem contains_iff (h : store.Mirrors dir flows) (hkey : key.Allowed) :
    dir.contains key.fileName = true ↔ key ∈ flows := by
  rw [OrderedDict.contains_iff]
  constructor
  · rintro ⟨text, htext⟩
    by_contra hmem
    rw [h.get?_of_not_mem hkey hmem] at htext
    cases htext
  · intro hmem
    obtain ⟨flow, text, -, -, htext⟩ := h.get?_of_mem hmem
    exact ⟨text, htext⟩

end Mirrors

theorem pathExists_of_takes (h : store.takes file = true) :
    store.pathExists dir file = .ok (dir.contains file) := if_pos h

theorem pathExists_missing (h : dir.contains file = false) : store.pathExists dir file =
    if store.takes file = true ∨ store.raises file = false then .ok false else .error .os := by
  unfold pathExists
  cases store.takes file <;> cases store.raises file <;> simp [h]

-- Each operation

theorem writeText_eq_ok : store.writeText dir file text = .ok dir' ↔
    (store.takes (file ++ ".tmp") = true ∧ store.takes file = true) ∧ dir.insert file text = dir' := by
  unfold writeText
  split
  next h => simp [h]
  next h => simp [h]

theorem saveFlow_eq_ok {flow : FullFlow} (hkey : flow.key.Allowed) :
    store.saveFlow dir flow overwrite = .ok dir' ↔
      ¬ (dir.contains flow.key.fileName = true ∧ overwrite = false) ∧ store.takes flow.key.fileName = true ∧
        store.takes (flow.key.fileName ++ ".tmp") = true ∧
        ∃ text, store.serializer.flowToJson (some 2) flow = some text ∧
          dir.insert flow.key.fileName text = dir' := by
  unfold saveFlow
  constructor
  · intro h
    obtain ⟨file, hfile, h⟩ := Attempt.bind_eq_ok.1 h
    obtain rfl := Except.ok.inj (hkey.pathFor.symm.trans hfile)
    obtain ⟨present, hexists, h⟩ := Attempt.bind_eq_ok.1 h
    split at h
    next => cases h
    next hfree =>
      cases htext : store.serializer.flowToJson (some 2) flow with
      | none =>
        rw [htext] at h
        cases h
      | some text =>
        rw [htext] at h
        obtain ⟨⟨hbeside, htakes⟩, hinsert⟩ := writeText_eq_ok.1 h
        rw [pathExists_of_takes htakes, Except.ok.injEq] at hexists
        rw [hexists]
        exact ⟨hfree, htakes, hbeside, text, rfl, hinsert⟩
  · rintro ⟨hfree, htakes, hbeside, text, htext, hinsert⟩
    refine Attempt.bind_eq_ok.2 ⟨_, hkey.pathFor, Attempt.bind_eq_ok.2 ⟨_, pathExists_of_takes htakes, ?_⟩⟩
    rw [if_neg hfree, htext]
    exact writeText_eq_ok.2 ⟨⟨hbeside, htakes⟩, hinsert⟩

theorem saveFlow_refused {flow : FullFlow} (hkey : flow.key.Allowed)
    (htakes : store.takes flow.key.fileName = true) (hcontains : dir.contains flow.key.fileName = true) :
    store.saveFlow dir flow false = .error (.flowAlreadyExists flow.name) := by
  unfold saveFlow
  rw [hkey.pathFor]
  change (store.pathExists dir flow.key.fileName >>= _) = _
  rw [pathExists_of_takes htakes, hcontains]
  rfl

theorem lookup_stored (hkey : key.Allowed) (htakes : store.takes key.fileName = true)
    (htext : dir.get? key.fileName = some text) : store.lookup dir key = .ok (key.fileName, text) := by
  unfold lookup
  rw [hkey.pathFor]
  change (store.pathExists dir key.fileName >>= _) = _
  rw [pathExists_of_takes htakes, OrderedDict.contains_iff.2 ⟨text, htext⟩, htext]
  rfl

/-- How the file system meets a file that is not there. -/
def missing (store : FileStore) (key : FlowKey) : FlowStoreError :=
  if store.takes key.fileName = true ∨ store.raises key.fileName = false then
    .flowNotFound key.name key.version
  else .os

theorem missing_iff : store.missing key = .flowNotFound key.name key.version ↔ store.Asks key := by
  unfold missing
  split
  next h => exact iff_of_true rfl h
  next h => exact iff_of_false nofun h

theorem lookup_missing (hkey : key.Allowed) (hnone : dir.get? key.fileName = none) :
    store.lookup dir key = .error (store.missing key) := by
  have hcontains : dir.contains key.fileName = false := by
    rw [← Bool.not_eq_true, OrderedDict.contains_iff, hnone]
    simp
  unfold lookup missing
  rw [hkey.pathFor]
  change (store.pathExists dir key.fileName >>= _) = _
  rw [pathExists_missing hcontains]
  split <;> rfl

open FlowStoreAnswer

theorem answer_saveFlow {flow : FullFlow} (h : store.Mirrors dir flows) (hkey : flow.key.Allowed) :
    (store.step dir (.saveFlow flow overwrite)).1.Alike (InMemoryStore.step flows (.saveFlow flow overwrite)).1 ↔
      store.Admits flows (.saveFlow flow overwrite) := by
  simp only [step, InMemoryStore.step, InMemoryStore.saveFlow]
  by_cases hrefused : flow.key ∈ flows ∧ overwrite = false
  · obtain ⟨hmem, rfl⟩ := hrefused
    rw [if_pos ⟨hmem, rfl⟩, saveFlow_refused hkey (h.taken _ hmem) ((h.contains_iff hkey).2 hmem)]
    exact iff_of_true (.same _) (.inl ⟨hmem, rfl⟩)
  · rw [if_neg hrefused]
    change (changed dir (store.saveFlow dir flow overwrite)).1.Alike .done ↔ _
    rw [alike_done, changed_done]
    simp only [saveFlow_eq_ok hkey, h.contains_iff hkey, hrefused, not_false_eq_true, true_and]
    constructor
    · rintro ⟨_, htakes, hbeside, text, htext, -⟩
      exact .inr ⟨htakes, hbeside, text, htext⟩
    · rintro (hrefused' | ⟨htakes, hbeside, text, htext⟩)
      · exact absurd hrefused' hrefused
      · exact ⟨_, htakes, hbeside, text, htext, rfl⟩

theorem loadFlow_stored (hkey : key.Allowed) (htakes : store.takes key.fileName = true)
    (htext : dir.get? key.fileName = some text) (read : FullFlow) :
    store.loadFlow dir key = .ok read ↔ store.serializer.flowFromJson {} text = .ok read := by
  unfold loadFlow
  rw [lookup_stored hkey htakes htext]
  constructor
  · intro h
    obtain ⟨_, ⟨⟩, h⟩ := Attempt.bind_eq_ok.1 h
    split at h
    next flow hread =>
      rw [hread, Except.ok.inj h]
    next => cases h
  · intro hread
    exact Attempt.bind_eq_ok.2 ⟨_, rfl, by rw [hread]⟩

theorem alike_ofExcept_flow {saved : FullFlow} {result : Except FlowStoreError FullFlow} :
    (FlowStoreAnswer.ofExcept .flow result).Alike (.flow saved) ↔ ∃ read, result = .ok read ∧ saved.Same read := by
  cases result with
  | error error =>
    constructor
    · rintro ⟨⟩
    · rintro ⟨_, ⟨⟩, _⟩
  | ok read =>
    change Alike (.flow read) (.flow saved) ↔ _
    rw [alike_flow]
    exact ⟨fun h => ⟨read, rfl, h⟩, fun ⟨_, hread, h⟩ => Except.ok.inj hread ▸ h⟩

theorem answer_loadFlow (h : store.Mirrors dir flows) (hkey : key.Allowed) :
    (store.step dir (.loadFlow key)).1.Alike (InMemoryStore.step flows (.loadFlow key)).1 ↔
      store.Admits flows (.loadFlow key) := by
  simp only [step, InMemoryStore.step, InMemoryStore.loadFlow, Admits]
  by_cases hmem : key ∈ flows
  · obtain ⟨flow, text, hflow, hjson, htext⟩ := h.get?_of_mem hmem
    have htakes := h.taken key hmem
    have hasks : store.Asks key := .inl htakes
    simp only [hflow, Option.mem_some_iff, forall_eq', hasks, true_and]
    change (FlowStoreAnswer.ofExcept .flow (store.loadFlow dir key)).Alike (.flow flow) ↔ _
    rw [alike_ofExcept_flow, Survives, ← Serializer.flowFromJson_same_iff hjson {}]
    simp only [loadFlow_stored hkey htakes htext]
  · rw [AList.lookup_eq_none.2 hmem, loadFlow, lookup_missing hkey (h.get?_of_not_mem hkey hmem)]
    change Alike (.raised (store.missing key)) (.raised _) ↔ _
    rw [alike_raised, missing_iff]
    simp

theorem answer_hasFlow (h : store.Mirrors dir flows) (hkey : key.Allowed) :
    (store.step dir (.hasFlow key)).1.Alike (InMemoryStore.step flows (.hasFlow key)).1 ↔
      store.Admits flows (.hasFlow key) := by
  have hhas : store.hasFlow dir key = store.pathExists dir key.fileName := by rw [hasFlow, hkey.pathFor]
  simp only [step, InMemoryStore.step, Admits, hhas]
  by_cases hmem : key ∈ flows
  · have htakes := h.taken key hmem
    rw [pathExists_of_takes htakes, (h.contains_iff hkey).2 hmem, decide_eq_true hmem]
    exact iff_of_true (.same _) (.inl htakes)
  · have hcontains : dir.contains key.fileName = false := by
      rw [← Bool.not_eq_true, h.contains_iff hkey]
      exact hmem
    rw [pathExists_missing hcontains, decide_eq_false hmem]
    split
    next hasks => exact iff_of_true (.same _) hasks
    next hasks => exact iff_of_false nofun hasks

theorem answer_deleteFlow (h : store.Mirrors dir flows) (hkey : key.Allowed) :
    (store.step dir (.deleteFlow key)).1.Alike (InMemoryStore.step flows (.deleteFlow key)).1 ↔
      store.Admits flows (.deleteFlow key) := by
  simp only [step, InMemoryStore.step, InMemoryStore.deleteFlow, Admits]
  by_cases hmem : key ∈ flows
  · obtain ⟨flow, text, -, -, htext⟩ := h.get?_of_mem hmem
    have htakes := h.taken key hmem
    rw [if_pos hmem, deleteFlow, lookup_stored hkey htakes htext]
    exact iff_of_true (.same _) (.inl htakes)
  · rw [if_neg hmem, deleteFlow, lookup_missing hkey (h.get?_of_not_mem hkey hmem)]
    change Alike (.raised (store.missing key)) (.raised _) ↔ _
    rw [alike_raised, missing_iff]

theorem Mirrors.perm_keys (h : store.Mirrors dir flows) : dir.keys.Perm (flows.keys.map FlowKey.fileName) := by
  have hnodup : (flows.keys.map FlowKey.fileName).Nodup := by
    refine flows.keys_nodup.map_on fun a ha b hb hfile => ?_
    exact (h.allowed a (AList.mem_keys.2 ha)).eq_of_fileName (h.allowed b (AList.mem_keys.2 hb)) hfile
  refine (List.perm_ext_iff_of_nodup dir.nodup hnodup).2 fun file => ?_
  constructor
  · intro hfile
    obtain ⟨text, htext⟩ := OrderedDict.contains_iff.1 (List.contains_iff_mem.2 hfile)
    obtain ⟨key, hkey, rfl⟩ := h.owned file text htext
    exact List.mem_map_of_mem (AList.mem_keys.1 hkey)
  · intro hfile
    obtain ⟨key, hkey, rfl⟩ := List.mem_map.1 hfile
    have hmem := AList.mem_keys.2 hkey
    exact List.contains_iff_mem.1 ((h.contains_iff (h.allowed key hmem)).2 hmem)

theorem answer_listKeys (h : store.Mirrors dir flows) :
    (store.step dir .listKeys).1.Alike (InMemoryStore.step flows .listKeys).1 ↔ store.Admits flows .listKeys := by
  simp only [step, InMemoryStore.step, Admits, listKeys, InMemoryStore.listKeys]
  rw [alike_keys]
  exact FlowKey.listed_iff (fun key hkey => h.allowed key (AList.mem_keys.2 hkey)) h.perm_keys

theorem answer_iff (h : store.Mirrors dir flows) (hop : op.Allowed) :
    (store.step dir op).1.Alike (InMemoryStore.step flows op).1 ↔ store.Admits flows op := by
  cases op with
  | saveFlow flow overwrite => exact answer_saveFlow h hop
  | loadFlow key => exact answer_loadFlow h hop
  | hasFlow key => exact answer_hasFlow h hop
  | listKeys => exact answer_listKeys h
  | deleteFlow key => exact answer_deleteFlow h hop

theorem Mirrors.insert {flow : FullFlow} (h : store.Mirrors dir flows) (hkey : flow.key.Allowed)
    (htakes : store.takes flow.key.fileName = true)
    (htext : store.serializer.flowToJson (some 2) flow = some text) :
    store.Mirrors (dir.insert flow.key.fileName text) (flows.insert flow.key flow) where
  allowed key hmem := by
    obtain rfl | hmem := (AList.mem_insert flows).1 hmem
    · exact hkey
    · exact h.allowed key hmem
  taken key hmem := by
    obtain rfl | hmem := (AList.mem_insert flows).1 hmem
    · exact htakes
    · exact h.taken key hmem
  stored key other hother := by
    rw [InMemoryStore.lookup_insert] at hother
    rw [OrderedDict.get?_insert]
    split at hother
    next heq =>
      obtain rfl := Option.some.inj hother
      exact ⟨text, htext, by rw [heq, if_pos rfl]⟩
    next hne =>
      obtain ⟨text', hjson, htext'⟩ := h.stored key other hother
      have hallowed := h.allowed key (AList.lookup_isSome.1 (by rw [hother]; rfl))
      rw [if_neg fun hfile => hne (hallowed.eq_of_fileName hkey hfile)]
      exact ⟨text', hjson, htext'⟩
  owned file text' htext' := by
    rw [OrderedDict.get?_insert] at htext'
    split at htext'
    next heq => exact ⟨flow.key, (AList.mem_insert flows).2 (.inl rfl), heq.symm⟩
    next =>
      obtain ⟨key, hmem, hfile⟩ := h.owned file text' htext'
      exact ⟨key, (AList.mem_insert flows).2 (.inr hmem), hfile⟩

theorem Mirrors.erase (h : store.Mirrors dir flows) (hkey : key.Allowed) :
    store.Mirrors (dir.erase key.fileName) (flows.erase key) where
  allowed other hmem := h.allowed other (AList.mem_erase.1 hmem).2
  taken other hmem := h.taken other (AList.mem_erase.1 hmem).2
  stored other flow hflow := by
    rw [InMemoryStore.lookup_erase] at hflow
    rw [OrderedDict.get?_erase]
    split at hflow
    next => cases hflow
    next hne =>
      obtain ⟨text, hjson, htext⟩ := h.stored other flow hflow
      have hallowed := h.allowed other (AList.lookup_isSome.1 (by rw [hflow]; rfl))
      rw [if_neg fun hfile => hne (hallowed.eq_of_fileName hkey hfile)]
      exact ⟨text, hjson, htext⟩
  owned file text htext := by
    rw [OrderedDict.get?_erase] at htext
    split at htext
    next => cases htext
    next hne =>
      obtain ⟨other, hmem, hfile⟩ := h.owned file text htext
      refine ⟨other, AList.mem_erase.2 ⟨?_, hmem⟩, hfile⟩
      rintro rfl
      exact hne hfile.symm

theorem step_mirrors (h : store.Mirrors dir flows) (hop : op.Allowed) (hadmits : store.Admits flows op) :
    store.Mirrors (store.step dir op).2 (InMemoryStore.step flows op).2 := by
  cases op with
  | saveFlow flow overwrite =>
    have hkey : flow.key.Allowed := hop
    simp only [step, InMemoryStore.step, InMemoryStore.saveFlow]
    by_cases hrefused : flow.key ∈ flows ∧ overwrite = false
    · obtain ⟨hmem, rfl⟩ := hrefused
      rw [if_pos ⟨hmem, rfl⟩, saveFlow_refused hkey (h.taken _ hmem) ((h.contains_iff hkey).2 hmem)]
      exact h
    · obtain ⟨htakes, hbeside, text, htext⟩ := hadmits.resolve_left hrefused
      have hsaved : store.saveFlow dir flow overwrite = .ok (dir.insert flow.key.fileName text) := by
        refine (saveFlow_eq_ok hkey).2 ⟨?_, htakes, hbeside, text, htext, rfl⟩
        rw [h.contains_iff hkey]
        exact hrefused
      rw [if_neg hrefused, hsaved]
      exact h.insert hkey htakes htext
  | deleteFlow key =>
    have hkey : key.Allowed := hop
    simp only [step, InMemoryStore.step, InMemoryStore.deleteFlow]
    by_cases hmem : key ∈ flows
    · obtain ⟨flow, text, -, -, htext⟩ := h.get?_of_mem hmem
      rw [if_pos hmem, deleteFlow, lookup_stored hkey (h.taken key hmem) htext]
      exact h.erase hkey
    · rw [if_neg hmem, deleteFlow, lookup_missing hkey (h.get?_of_not_mem hkey hmem)]
      exact h
  | loadFlow | hasFlow | listKeys => exact h

theorem answers_iff (store : FileStore) {ops : List FlowStoreOp} (hops : ∀ op ∈ ops, op.Allowed) :
    List.Forall₂ Alike (store.machine.answers ops) (InMemoryStore.machine.answers ops) ↔
      InMemoryStore.machine.Admitted store.Admits InMemoryStore.machine.start ops :=
  Machine.answersFrom_agree_iff (fun _ _ _ h hop => answer_iff h hop)
    (fun _ _ _ h hop hadmits => step_mirrors h hop hadmits) Mirrors.empty hops

/-- The stores answer alike exactly if every operation is admitted, distinct keys have
distinct files, and a flow that was saved is loaded the same exactly if it survives. -/
theorem flowStores_agree (store : FileStore) :
    (∀ ops : List FlowStoreOp, (∀ op ∈ ops, op.Allowed) →
      (List.Forall₂ Alike (store.machine.answers ops) (InMemoryStore.machine.answers ops) ↔
        InMemoryStore.machine.Admitted store.Admits InMemoryStore.machine.start ops)) ∧
      (∀ a b : FlowKey, a.Allowed → b.Allowed → a.fileName = b.fileName → a = b) ∧
      ∀ (dir dir' : Dir) (flow : FullFlow) (overwrite : Bool), flow.key.Allowed →
        store.saveFlow dir flow overwrite = .ok dir' →
          ((∃ read, store.loadFlow dir' flow.key = .ok read ∧ flow.Same read) ↔ store.Survives flow) := by
  refine ⟨fun ops hops => answers_iff store hops, fun a b ha hb => ha.eq_of_fileName hb, ?_⟩
  intro dir dir' flow overwrite hkey hsave
  obtain ⟨-, htakes, -, text, htext, rfl⟩ := (saveFlow_eq_ok hkey).1 hsave
  have hget : (dir.insert flow.key.fileName text).get? flow.key.fileName = some text := by
    rw [OrderedDict.get?_insert, if_pos rfl]
  simp only [loadFlow_stored hkey htakes hget]
  exact Serializer.flowFromJson_same_iff htext {}

section

open Serializer

/-- A file system that takes every name. -/
def greetStore : FileStore := ⟨greetSerializer, id, fun _ => true, fun _ => false⟩

def namedFlow (name : String) : FullFlow := { greetFlow (.int 2) with name }

theorem namedFlow_allowed {name : String} (hne : withoutNewline name.toList ≠ [])
    (hname : (withoutNewline name.toList).all isNameChar = true) : (namedFlow name).key.Allowed where
  name := FlowKey.validateName_ok.2 ⟨hne, hname⟩
  version := by
    have hchars : ("0.1.0".toList.all fun c => !isSeparator c && c != '@') = true := by decide +kernel
    refine FlowKey.validateVersion_ok.2 fun c hc => ?_
    simpa using List.all_eq_true.1 hchars c hc

theorem namedFlow_greet : namedFlow "greet" = greetFlow (.int 2) := rfl

theorem greetFlow_writes : greetStore.Writes (namedFlow "greet") := by
  refine ⟨rfl, rfl, ?_⟩
  rw [namedFlow_greet, flowToJson]
  change ∃ text, Option.map _ (greetSerializer.flowToDict (greetFlow (.int 2))) = some text
  rw [greetFlow_document]
  exact ⟨_, rfl⟩

def greetOps : List FlowStoreOp := [.saveFlow (namedFlow "greet") false, .loadFlow (namedFlow "greet").key]

theorem flowStores_agree_greet :
    List.Forall₂ Alike (greetStore.machine.answers greetOps) (InMemoryStore.machine.answers greetOps) := by
  have hallowed : (namedFlow "greet").key.Allowed := namedFlow_allowed (by decide +kernel) (by decide +kernel)
  have hstate : (InMemoryStore.step ∅ (.saveFlow (namedFlow "greet") false)).2 =
      AList.insert (namedFlow "greet").key (namedFlow "greet") ∅ := InMemoryStore.step_saveFlow (by simp)
  have hsave : greetStore.Admits ∅ (.saveFlow (namedFlow "greet") false) := .inr greetFlow_writes
  have hload : greetStore.Admits (AList.insert (namedFlow "greet").key (namedFlow "greet") ∅)
      (.loadFlow (namedFlow "greet").key) := by
    refine ⟨.inl rfl, fun flow hflow => ?_⟩
    rw [AList.lookup_insert, Option.mem_some_iff, namedFlow_greet] at hflow
    rw [← hflow]
    exact greetFlow_survives
  refine ((flowStores_agree greetStore).1 greetOps ?_).2 ?_
  · simp only [greetOps, List.forall_mem_cons]
    exact ⟨hallowed, hallowed, List.forall_mem_nil _⟩
  · rw [← hstate] at hload
    exact ⟨hsave, hload, trivial⟩

def pairFlows : Flows :=
  AList.insert (namedFlow "a-b").key (namedFlow "a-b") (AList.insert (namedFlow "a").key (namedFlow "a") ∅)

/-- A flow `a-b` is listed after the flow `a`, its file before. -/
theorem flowStores_disagree : ¬ ∀ (store : FileStore) (ops : List FlowStoreOp), (∀ op ∈ ops, op.Allowed) →
    List.Forall₂ Alike (store.machine.answers ops) (InMemoryStore.machine.answers ops) := by
  intro hall
  let ops : List FlowStoreOp := [.saveFlow (namedFlow "a") false, .saveFlow (namedFlow "a-b") false, .listKeys]
  have hops : ∀ op ∈ ops, op.Allowed := by
    simp only [ops, List.forall_mem_cons]
    exact ⟨namedFlow_allowed (by decide +kernel) (by decide +kernel),
      namedFlow_allowed (by decide +kernel) (by decide +kernel), trivial, List.forall_mem_nil _⟩
  have hadmitted := (answers_iff greetStore hops).1 (hall greetStore ops hops)
  have hfirst : (InMemoryStore.step ∅ (.saveFlow (namedFlow "a") false)).2 =
      AList.insert (namedFlow "a").key (namedFlow "a") ∅ := InMemoryStore.step_saveFlow (by simp)
  have hsecond : (InMemoryStore.step (AList.insert (namedFlow "a").key (namedFlow "a") ∅)
      (.saveFlow (namedFlow "a-b") false)).2 = AList.insert (namedFlow "a-b").key (namedFlow "a-b")
        (AList.insert (namedFlow "a").key (namedFlow "a") ∅) := by
    refine InMemoryStore.step_saveFlow ?_
    rw [AList.mem_insert]
    simp [namedFlow, FullFlow.key]
  have hlist : greetStore.Admits pairFlows .listKeys := by
    rw [pairFlows, ← hsecond, ← hfirst]
    exact hadmitted.2.2.1
  have ha : (namedFlow "a").key ∈ pairFlows.keys :=
    AList.mem_keys.1 ((AList.mem_insert _).2 (.inr ((AList.mem_insert _).2 (.inl rfl))))
  have hab : (namedFlow "a-b").key ∈ pairFlows.keys := AList.mem_keys.1 ((AList.mem_insert _).2 (.inl rfl))
  have hle := (hlist.1 _ ha _ hab).1 (.inl (by decide +kernel))
  exact absurd hle (by decide +kernel)

end

end FileStore

end ChainWeaver
