import ChainWeaver.JsonReaderLaws
import ChainWeaver.LoadScopedRedaction

/-!
# What redaction keeps apart

The placeholders of a load name equal values, and those only. What the redactor promises holds
exactly of the loads in which no hit of the policy's pattern reaches into a placeholder
(`redactLoad_faithful_iff`).
-/

namespace ChainWeaver

open Substitution Interning

-- Identities

namespace Json

theorem distinctItems_iff {items : List Json} : DistinctItems items ↔ ∀ item ∈ items, item.Distinct := by
  induction items with
  | nil => simp [DistinctItems]
  | cons item rest ih => simp [DistinctItems, ih]

theorem distinctEntries_iff {entries : List (String × Json)} :
    DistinctEntries entries ↔ ∀ entry ∈ entries, entry.2.Distinct := by
  induction entries with
  | nil => simp [DistinctEntries]
  | cons entry rest ih => simp [DistinctEntries, ih]

mutual

theorem Distinct.sorted (json : Json) (h : json.Distinct) : json.sorted.Distinct := by
  cases json with
  | array items => exact distinctItems_iff.2 (distinctItems_sorted items h)
  | object entries =>
    have hperm := SortedEntries.perm_sort (sortedEntries entries)
    have hkeys : (sortedEntries entries).map Prod.fst = entries.map Prod.fst := by
      simp [sortedEntries_eq_map, Function.comp_def]
    refine ⟨(hperm.map Prod.fst).nodup_iff.2 (hkeys ▸ h.1), distinctEntries_iff.2 fun entry hentry => ?_⟩
    exact distinctEntries_sorted entries h.2 entry (SortedEntries.mem_sort.1 hentry)
  | _ => trivial

theorem distinctItems_sorted (items : List Json) (h : DistinctItems items) :
    ∀ item ∈ sortedItems items, item.Distinct := by
  cases items with
  | nil => simp [sortedItems]
  | cons item rest =>
    intro json hjson
    rcases List.mem_cons.1 hjson with rfl | hjson
    · exact Distinct.sorted item h.1
    · exact distinctItems_sorted rest h.2 json hjson

theorem distinctEntries_sorted (entries : List (String × Json)) (h : DistinctEntries entries) :
    ∀ entry ∈ sortedEntries entries, entry.2.Distinct := by
  match entries with
  | [] => simp [sortedEntries]
  | (key, json) :: rest =>
    intro entry hentry
    rcases List.mem_cons.1 hentry with rfl | hentry
    · exact Distinct.sorted json h.1
    · exact distinctEntries_sorted rest h.2 entry hentry

end

theorem typeName_sorted (json : Json) : json.sorted.typeName = json.typeName := by
  cases json <;> rfl

theorem Same.typeName {value other : Json} (h : value.Same other) : value.typeName = other.typeName := by
  rw [← typeName_sorted value, h, typeName_sorted]

/-- The parts of a value with different keys have different keys. -/
theorem Distinct.at? {json part : Json} {path : List JsonStep} (h : json.Distinct) (hpart : json.at? path = some part) :
    part.Distinct := by
  induction path generalizing json with
  | nil =>
    obtain rfl : json = part := by cases json <;> exact Option.some.inj hpart
    exact h
  | cons step path ih =>
    cases json with
    | object entries =>
      cases step with
      | item => cases hpart
      | key name =>
        obtain ⟨json, hjson, hpart⟩ := Option.bind_eq_some_iff.1 hpart
        exact ih (distinctEntries_iff.1 h.2 _ (mem_of_lookup hjson)) hpart
    | array items =>
      cases step with
      | key => cases hpart
      | item index =>
        obtain ⟨json, hjson, hpart⟩ := Option.bind_eq_some_iff.1 hpart
        exact ih (distinctItems_iff.1 h _ (List.mem_of_getElem? hjson)) hpart
    | _ => cases step <;> cases hpart

end Json

namespace LoadScopedTraceRedactor

variable {redactor : LoadScopedTraceRedactor} {names : Placeholders}

/-- Values have one identity exactly if they are equal. -/
theorem identity_eq_iff {value other : Json} (hvalue : value.Distinct) (hother : other.Distinct) :
    redactor.identity value = redactor.identity other ↔ value.Same other := by
  constructor
  · intro h
    have hencoded : redactor.stableIdentity value = redactor.stableIdentity other := congrArg Identity.encoded h
    have hloads : loads redactor.floats (redactor.stableIdentity value) = some value.sorted :=
      loads_dumped _ (Json.Distinct.sorted value hvalue)
    have hloads' : loads redactor.floats (redactor.stableIdentity other) = some other.sorted :=
      loads_dumped _ (Json.Distinct.sorted other hother)
    rw [hencoded, hloads'] at hloads
    exact (Option.some.inj hloads).symm
  · intro h
    rw [identity, identity, stableIdentity, stableIdentity, h.typeName, h]

-- Redaction with names that are there already

section

variable (redactor names)

mutual

/-- What becomes of a value once every value that is masked has its name. -/
def masked : Json → Json
  | .object entries => .object (maskedEntries entries)
  | .array items => .array (maskedItems items)
  | .str s => .str (String.ofList (redactor.secondPass names (redactor.firstPass names s.toList)))
  | value => value

def maskedItems : List Json → List Json
  | [] => []
  | item :: rest => masked item :: maskedItems rest

def maskedEntries : List (String × Json) → List (String × Json)
  | [] => []
  | (key, value) :: rest =>
    (key, if redactor.policy.matchesKey redactor.lower key then .str (String.ofList (redactor.nameOf names value))
      else masked value) :: maskedEntries rest

end

/-- The identities that the redaction of a string asks names for. -/
def textIdentities (text : Text) : List Identity :=
  (hits (redactor.labeledPieces text)).map (fun secret => redactor.identity (.str (String.ofList secret.value))) ++
    (hits (redactor.redactPieces (redactor.firstPass names text))).map fun hit =>
      redactor.identity (.str (String.ofList hit))

mutual

def identities : Json → List Identity
  | .object entries => entryIdentities entries
  | .array items => itemIdentities items
  | .str s => redactor.textIdentities names s.toList
  | _ => []

def itemIdentities : List Json → List Identity
  | [] => []
  | item :: rest => identities item ++ itemIdentities rest

def entryIdentities : List (String × Json) → List Identity
  | [] => []
  | (key, value) :: rest =>
    (if redactor.policy.matchesKey redactor.lower key then [redactor.identity value] else identities value) ++
      entryIdentities rest

end

end

/-- An action of the redactor, by what it comes to with the placeholders at the end of the
load and by the identities that have one then. -/
abbrev Comes (act : StateM Placeholders α) (result : Placeholders → α) (keys : Placeholders → List Identity) : Prop :=
  Settles placeholderText act result keys

theorem comes_sub {replace : μ → StateM Placeholders Text} {text : Placeholders → μ → Text} {keys : μ → Identity}
    (h : ∀ found, Comes (replace found) (fun names => text names found) fun _ => [keys found]) (pieces : List (Piece Char μ)) :
    Comes (sub replace pieces) (fun names => joined (text names) pieces) fun _ => (hits pieces).map keys := by
  induction pieces with
  | nil => exact .pure []
  | cons piece rest ih =>
    cases piece with
    | plain c => exact ih.map (c :: ·)
    | hit found => exact (h found).bind fun new => ih.map (new ++ ·)

theorem comes_subOf {textOf : μ → Text} {replace : μ → StateM Placeholders Text} {text : Placeholders → μ → Text}
    {keys : μ → Identity} (h : ∀ found, Comes (replace found) (fun names => text names found) fun _ => [keys found])
    (pattern : Option (Pattern textOf)) (value : Text) :
    Comes (subOf pattern replace value) (fun names => joined (text names) (piecesOf pattern value))
      fun _ => (hits (piecesOf pattern value)).map keys := by
  cases pattern with
  | some pattern => exact comes_sub h (pattern.cut value)
  | none =>
    have hpure : Comes (pure value) (fun _ => value) fun _ => [] := .pure value
    simpa [piecesOf, subOf] using hpure

theorem comes_placeholder (value : Json) :
    Comes (redactor.placeholder value) (fun names => redactor.nameOf names value) fun _ => [redactor.identity value] :=
  .intern (redactor.identity value)

theorem comes_replaceLabeledSecret (secret : LabeledSecret) :
    Comes (redactor.replaceLabeledSecret secret) (fun names => redactor.labeledName names secret)
      fun _ => [redactor.identity (.str (String.ofList secret.value))] :=
  (comes_placeholder _).map (secret.label ++ secret.separator ++ ·)

theorem comes_applyString (text : Text) :
    Comes (redactor.applyString text) (fun names => redactor.secondPass names (redactor.firstPass names text))
      fun names => redactor.textIdentities names text :=
  (comes_subOf comes_replaceLabeledSecret redactor.labeledSecretPattern text).bind fun result =>
    comes_subOf (fun hit => comes_placeholder (.str (String.ofList hit))) redactor.redactPattern result

mutual

theorem comes_apply (value : Json) :
    Comes (redactor.apply value) (fun names => redactor.masked names value) fun names => redactor.identities names value := by
  cases value with
  | object entries => exact (comes_applyEntries entries).map Json.object
  | array items => exact (comes_applyItems items).map Json.array
  | str s => exact (comes_applyString s.toList).map fun text => Json.str (String.ofList text)
  | _ => exact .pure _

theorem comes_applyItems (items : List Json) :
    Comes (redactor.applyItems items) (fun names => redactor.maskedItems names items)
      fun names => redactor.itemIdentities names items := by
  cases items with
  | nil => exact .pure []
  | cons item rest => exact (comes_apply item).bind fun item => (comes_applyItems rest).map (item :: ·)

theorem comes_applyEntries (entries : List (String × Json)) :
    Comes (redactor.applyEntries entries) (fun names => redactor.maskedEntries names entries)
      fun names => redactor.entryIdentities names entries := by
  match entries with
  | [] => exact .pure []
  | (key, value) :: rest =>
    have hvalue : Comes
        (if redactor.policy.matchesKey redactor.lower key then redactor.redactValue value else redactor.apply value)
        (fun names =>
          if redactor.policy.matchesKey redactor.lower key then .str (String.ofList (redactor.nameOf names value))
          else redactor.masked names value)
        fun names =>
          if redactor.policy.matchesKey redactor.lower key then [redactor.identity value]
          else redactor.identities names value := by
      split
      · exact (comes_placeholder value).map fun placeholder => Json.str (String.ofList placeholder)
      · exact comes_apply value
    exact hvalue.bind fun value => (comes_applyEntries rest).map ((key, value) :: ·)

end

theorem redactPayloads_eq (payloads : List Json) : redactor.redactPayloads payloads = redactor.applyItems payloads := by
  induction payloads with
  | nil => rfl
  | cons payload rest ih =>
    rw [redactPayloads, ih]
    rfl

-- The parts of a redacted value

theorem lookup_maskedEntries (entries : List (String × Json)) (name : String) :
    (redactor.maskedEntries names entries).lookup name = (entries.lookup name).map fun value =>
      if redactor.policy.matchesKey redactor.lower name then .str (String.ofList (redactor.nameOf names value))
      else redactor.masked names value := by
  induction entries with
  | nil => rfl
  | cons entry rest ih =>
    obtain ⟨key, value⟩ := entry
    rw [maskedEntries, OrderedDict.lookup_cons_if, OrderedDict.lookup_cons_if, ih]
    split
    · next h => rw [h, Option.map_some]
    · rfl

theorem getElem?_maskedItems (items : List Json) (index : Nat) :
    (redactor.maskedItems names items)[index]? = items[index]?.map (redactor.masked names) := by
  induction items generalizing index with
  | nil => rfl
  | cons item rest ih => cases index <;> simp [maskedItems, ih]

theorem at?_append (json : Json) (path more : List JsonStep) :
    json.at? (path ++ more) = (json.at? path).bind fun part => part.at? more := by
  induction path generalizing json with
  | nil => cases json <;> rfl
  | cons step path ih => cases json <;> cases step <;> simp [Json.at?, ih, Option.bind_assoc]

/-- On a clean path stands the redacted part. -/
theorem at?_masked {json : Json} {path : List JsonStep} (h : redactor.Clean path) :
    (redactor.masked names json).at? path = (json.at? path).map (redactor.masked names) := by
  induction path generalizing json with
  | nil => cases json <;> rfl
  | cons step path ih =>
    have hrest : redactor.Clean path := fun name hname => h name (.tail _ hname)
    cases json with
    | object entries =>
      cases step with
      | item => rfl
      | key name =>
        have hclean : redactor.policy.matchesKey redactor.lower name = false := h name (.head _)
        simp only [masked, Json.at?, lookup_maskedEntries, hclean, Bool.false_eq_true, if_false]
        cases entries.lookup name with
        | none => rfl
        | some json => exact ih hrest
    | array items =>
      cases step with
      | key => rfl
      | item index =>
        simp only [masked, Json.at?, getElem?_maskedItems]
        cases items[index]? with
        | none => rfl
        | some json => exact ih hrest
    | _ => cases step <;> rfl

/-- Where a value was stored under a redact key stands its name. -/
theorem at?_masked_keyed {json : Json} {path : List JsonStep} (h : redactor.Keyed path) :
    (redactor.masked names json).at? path =
      (json.at? path).map fun value => .str (String.ofList (redactor.nameOf names value)) := by
  obtain ⟨front, name, rfl, hclean, hkey⟩ := h
  rw [at?_append, at?_append, at?_masked hclean]
  cases json.at? front with
  | none => rfl
  | some part =>
    cases part with
    | object entries =>
      simp only [masked, Json.at?, lookup_maskedEntries, hkey, if_true, Option.map_some, Option.bind_some]
      cases entries.lookup name <;> rfl
    | _ => rfl

theorem mem_itemIdentities {items : List Json} {item : Json} (hitem : item ∈ items)
    (h : key ∈ redactor.identities names item) : key ∈ redactor.itemIdentities names items := by
  induction hitem with
  | head => exact List.mem_append_left _ h
  | tail _ _ ih => exact List.mem_append_right _ ih

theorem mem_entryIdentities {entries : List (String × Json)} {entry : String × Json} (hentry : entry ∈ entries)
    (h : key ∈ (if redactor.policy.matchesKey redactor.lower entry.1 then [redactor.identity entry.2]
      else redactor.identities names entry.2)) : key ∈ redactor.entryIdentities names entries := by
  induction hentry with
  | head => exact List.mem_append_left _ h
  | tail _ _ ih => exact List.mem_append_right _ ih

theorem identities_at? {json part : Json} {path : List JsonStep} (hclean : redactor.Clean path)
    (hpart : json.at? path = some part) (h : key ∈ redactor.identities names part) :
    key ∈ redactor.identities names json := by
  induction path generalizing json with
  | nil =>
    obtain rfl : json = part := by cases json <;> exact Option.some.inj hpart
    exact h
  | cons step path ih =>
    have hrest : redactor.Clean path := fun name hname => hclean name (.tail _ hname)
    cases json with
    | object entries =>
      cases step with
      | item => cases hpart
      | key name =>
        obtain ⟨json, hjson, hpart⟩ := Option.bind_eq_some_iff.1 hpart
        have hname : redactor.policy.matchesKey redactor.lower name = false := hclean name (.head _)
        exact mem_entryIdentities (mem_of_lookup hjson) (by simpa [hname] using ih hrest hpart)
    | array items =>
      cases step with
      | key => cases hpart
      | item index =>
        obtain ⟨json, hjson, hpart⟩ := Option.bind_eq_some_iff.1 hpart
        exact mem_itemIdentities (List.mem_of_getElem? hjson) (ih hrest hpart)
    | _ => cases step <;> cases hpart

theorem identity_mem_identities {json value : Json} {path : List JsonStep} (hkeyed : redactor.Keyed path)
    (hvalue : json.at? path = some value) : redactor.identity value ∈ redactor.identities names json := by
  obtain ⟨front, name, rfl, hclean, hkey⟩ := hkeyed
  rw [at?_append] at hvalue
  obtain ⟨part, hpart, hvalue⟩ := Option.bind_eq_some_iff.1 hvalue
  cases part with
  | object entries =>
    obtain ⟨value', hvalue', hsome⟩ := Option.bind_eq_some_iff.1 hvalue
    obtain rfl : value' = value := by cases value' <;> exact Option.some.inj hsome
    exact identities_at? hclean hpart (mem_entryIdentities (mem_of_lookup hvalue') (by simp [hkey]))
  | _ => cases hvalue

mutual

theorem masked_untouched (json : Json) (h : redactor.Untouched json) : redactor.masked names json = json := by
  cases json with
  | object entries => exact congrArg Json.object (maskedEntries_untouched entries h)
  | array items => exact congrArg Json.array (maskedItems_untouched items h)
  | str s =>
    have hfirst : redactor.firstPass names s.toList = s.toList :=
      (joined_of_hits_eq_nil h.1).trans (joined_piecesOf _ _)
    have hsecond : redactor.secondPass names s.toList = s.toList :=
      (joined_of_hits_eq_nil h.2).trans (joined_piecesOf _ _)
    rw [masked, hfirst, hsecond, String.ofList_toList]
  | _ => rfl

theorem maskedItems_untouched (items : List Json) (h : redactor.UntouchedItems items) :
    redactor.maskedItems names items = items := by
  cases items with
  | nil => rfl
  | cons item rest => rw [maskedItems, masked_untouched item h.1, maskedItems_untouched rest h.2]

theorem maskedEntries_untouched (entries : List (String × Json)) (h : redactor.UntouchedEntries entries) :
    redactor.maskedEntries names entries = entries := by
  match entries with
  | [] => rfl
  | (key, value) :: rest =>
    rw [maskedEntries, h.1, masked_untouched value h.2.1, maskedEntries_untouched rest h.2.2]
    rfl

end

-- Placeholders

theorem placeholderText_cons (n : Nat) :
    placeholderText n = '<' :: ("redacted:".toList ++ Nat.toDigits 10 n ++ ['>']) := rfl

theorem placeholderText_concat (n : Nat) :
    placeholderText n = "<redacted:".toList ++ Nat.toDigits 10 n ++ ['>'] := rfl

theorem placeholderText_ne_nil (n : Nat) : placeholderText n ≠ [] := by
  rw [placeholderText_cons]
  exact List.cons_ne_nil _ _

theorem placeholderText_injective : Function.Injective placeholderText := by
  intro n m h
  have hdigits : Nat.toDigits 10 n = Nat.toDigits 10 m := List.append_cancel_left (List.append_cancel_right h)
  rw [← @Nat.ofDigitChars_ten_toDigits n, hdigits, Nat.ofDigitChars_ten_toDigits]

theorem angle_not_mem_digits (n : Nat) : '<' ∉ Nat.toDigits 10 n ∧ '>' ∉ Nat.toDigits 10 n :=
  ⟨fun h => absurd (toDigits_isDigit n _ h) (by decide), fun h => absurd (toDigits_isDigit n _ h) (by decide)⟩

/-- A placeholder is no proper part of another one. -/
theorem placeholderText_alone {n m : Nat} {left right : Text} (h : left ++ placeholderText n ++ right = placeholderText m) :
    left = [] ∧ right = [] := by
  have hdigits := angle_not_mem_digits m
  constructor
  · cases left with
    | nil => rfl
    | cons c left =>
      -- The only `<` is in front.
      have hmem : '<' ∈ left ++ placeholderText n ++ right := by
        rw [placeholderText_cons]
        exact List.mem_append_left _ (List.mem_append_right _ (.head _))
      have htail : left ++ placeholderText n ++ right = "redacted:".toList ++ Nat.toDigits 10 m ++ ['>'] :=
        (List.cons.inj h).2
      rw [htail, List.mem_append, List.mem_append] at hmem
      rcases hmem with (hmem | hmem) | hmem
      · exact absurd hmem (by decide)
      · exact absurd hmem hdigits.1
      · exact absurd hmem (by decide)
  · rcases List.eq_nil_or_concat right with rfl | ⟨right, c, rfl⟩
    · rfl
    · -- The only `>` is at the end.
      have hmem : '>' ∈ left ++ placeholderText n ++ right := by
        rw [placeholderText_concat]
        exact List.mem_append_left _ (List.mem_append_right _ (List.mem_append_right _ (.head _)))
      rw [placeholderText_concat m, List.concat_eq_append, ← List.append_assoc] at h
      rw [List.append_inj_left' h rfl, List.mem_append] at hmem
      rcases hmem with hmem | hmem
      · exact absurd hmem (by decide)
      · exact absurd hmem hdigits.2

theorem hitName_named (hnumbered : Numbered placeholderText names)
    (h : ∃ name, names.lookup (redactor.identity (.str (String.ofList hit))) = some name) :
    ∃ n, redactor.hitName names hit = placeholderText n := by
  obtain ⟨name, hname⟩ := h
  obtain ⟨i, -, rfl⟩ := hnumbered.lookup_eq_some hname
  exact ⟨i + 1, by rw [hitName, nameOf, hname, Option.getD_some]⟩

/-- Inserted placeholders stay as they are exactly if hits leave them alone. -/
theorem intact_iff {text : Text} (hnumbered : Numbered placeholderText names) (hnamed : redactor.Named names text) :
    redactor.Intact names text ↔ redactor.Spared names text := by
  constructor
  · intro h left placeholder right hinserts before hit after hpieces ⟨hbegins, hends⟩
    obtain ⟨head, middle, tail, hsplit, hhead, hmiddle, htail, hplace⟩ := h left placeholder right hinserts
    rw [← hhead, ← hmiddle] at hbegins
    rw [← hhead] at hends
    rcases split_cases (hpieces.symm.trans hsplit) with ⟨more, rfl⟩ | ⟨front, back, rfl, rfl⟩ | ⟨front, rfl⟩
    · -- The hit ends before the placeholder begins.
      simp only [joined_append, joined, List.length_append] at hends
      omega
    · rw [joined_append, joined, ← List.append_assoc] at hplace
      obtain ⟨_, secret, _, hlabeled, -, rfl, -⟩ := hinserts
      obtain ⟨m, hm⟩ := hitName_named hnumbered (hnamed.1 secret (by simp [hlabeled, hits]))
      have hall : ∀ other ∈ hits front ++ hit :: hits back, ∃ n, redactor.hitName names other = placeholderText n := by
        intro other hother
        refine hitName_named hnumbered (hnamed.2 other ?_)
        rw [hsplit, hits_append, hits_append, hits_append]
        exact List.mem_append_left _ (List.mem_append_right _ hother)
      have hpos : ∀ other ∈ hits front ++ hit :: hits back, redactor.hitName names other ≠ [] := by
        intro other hother
        obtain ⟨n, hn⟩ := hall other hother
        exact hn ▸ placeholderText_ne_nil n
      -- It makes a placeholder, so that the middle has nothing else in it.
      obtain ⟨n, hn⟩ := hall hit (List.mem_append_right _ (.head _))
      have halone := placeholderText_alone ((hn ▸ hplace).trans hm)
      obtain rfl : front = [] := eq_nil_of_joined (fun other hother => hpos other (List.mem_append_left _ hother)) halone.1
      obtain rfl : back = [] :=
        eq_nil_of_joined (fun other hother => hpos other (List.mem_append_right _ (.tail _ hother))) halone.2
      exact ⟨by rw [List.append_nil, hhead], by simpa [joined] using hmiddle, by simpa [joined] using hplace⟩
    · -- It begins behind the end of the placeholder.
      simp only [joined_append, List.length_append] at hbegins
      omega
  · intro h left placeholder right hinserts
    obtain ⟨before, secret, after, hlabeled, rfl, rfl, rfl⟩ := hinserts
    have hsecret : secret ∈ hits (redactor.labeledPieces text) := by simp [hlabeled, hits]
    obtain ⟨n, hn⟩ := hitName_named hnumbered (hnamed.1 secret hsecret)
    have htext : joined id (redactor.redactPieces (redactor.firstPass names text)) =
        joined (redactor.labeledName names) before ++ secret.label ++ secret.separator ++
          redactor.hitName names secret.value ++ joined (redactor.labeledName names) after := by
      rw [redactPieces, joined_piecesOf, firstPass, hlabeled, joined_append, joined, labeledName]
      simp only [List.append_assoc]
    obtain ⟨head, middle, tail, hpieces, hhead, htail, hmiddle⟩ :=
      exists_split (by rw [hn]; exact placeholderText_ne_nil n) htext
        fun head hit tail hpieces hreaches => h _ _ _ ⟨before, secret, after, hlabeled, rfl, rfl, rfl⟩ head hit tail hpieces hreaches
    refine ⟨head, middle, tail, hpieces, hhead, ?_, htail, ?_⟩
    · rcases hmiddle with rfl | ⟨hit, rfl, hhit, -⟩
      · exact joined_map_plain _ _
      · simpa [joined] using hhit
    · rcases hmiddle with rfl | ⟨hit, rfl, -, hname⟩
      · exact joined_map_plain _ _
      · simpa [joined] using hname

-- Loads

/-- A JSON value as a reader builds it. -/
structure Payload where
  json : Json
  distinct : json.Distinct

section

variable (redactor) (payloads : List Payload)

/-- The payloads of a load, as one array. -/
def loaded : Json := .array (payloads.map Payload.json)

def redactLoad : List Json × Placeholders := redactor.redactPayloads (payloads.map Payload.json) []

end

theorem distinct_loaded (payloads : List Payload) : (loaded payloads).Distinct :=
  Json.distinctItems_iff.2 fun json hjson => by
    obtain ⟨payload, -, rfl⟩ := List.mem_map.1 hjson
    exact payload.distinct

section

variable {payloads : List Payload}

theorem numbered_redactLoad : Numbered placeholderText (redactor.redactLoad payloads).2 := by
  rw [redactLoad, redactPayloads_eq]
  exact (comes_applyItems _).numbered [] numbered_nil

/-- Every payload is redacted with the placeholders of the whole load. -/
theorem redactLoad_masked :
    Json.array (redactor.redactLoad payloads).1 = redactor.masked (redactor.redactLoad payloads).2 (loaded payloads) := by
  have hresult := (@comes_applyItems redactor (payloads.map Payload.json)).result_eq [] _ List.prefix_rfl
  rw [← redactPayloads_eq] at hresult
  exact congrArg Json.array hresult

theorem redactLoad_named (h : key ∈ redactor.identities (redactor.redactLoad payloads).2 (loaded payloads)) :
    ∃ name, (redactor.redactLoad payloads).2.lookup key = some name := by
  have hnamed := (@comes_applyItems redactor (payloads.map Payload.json)).named [] _ List.prefix_rfl
  rw [← redactPayloads_eq] at hnamed
  exact hnamed key h

/-- Values share a name exactly if they are equal. -/
theorem redactLoad_distinct {value other : Json} (hvalue : value.Distinct) (hother : other.Distinct)
    (h : (redactor.redactLoad payloads).2.lookup (redactor.identity value) = some name)
    (h' : (redactor.redactLoad payloads).2.lookup (redactor.identity other) = some name) : value.Same other :=
  (identity_eq_iff hvalue hother).1 (numbered_redactLoad.lookup_inj placeholderText_injective h h')

theorem redactLoad_keyed {path : List JsonStep} {value : Json} (hkeyed : redactor.Keyed path)
    (hvalue : (loaded payloads).at? path = some value) :
    ∃ n, 0 < n ∧ n ≤ (redactor.redactLoad payloads).2.length ∧
      (redactor.redactLoad payloads).2.lookup (redactor.identity value) = some (placeholderText n) ∧
        (Json.array (redactor.redactLoad payloads).1).at? path = some (.str (String.ofList (placeholderText n))) := by
  obtain ⟨name, hname⟩ := redactLoad_named (identity_mem_identities hkeyed hvalue)
  obtain ⟨i, hi, rfl⟩ := numbered_redactLoad.lookup_eq_some hname
  refine ⟨i + 1, Nat.succ_pos i, hi, hname, ?_⟩
  rw [redactLoad_masked, at?_masked_keyed hkeyed, hvalue, Option.map_some, nameOf, hname, Option.getD_some]

theorem redactLoad_text {path : List JsonStep} {s : String} (hclean : redactor.Clean path)
    (hs : (loaded payloads).at? path = some (.str s)) : redactor.Named (redactor.redactLoad payloads).2 s.toList := by
  have hmem : ∀ key ∈ redactor.textIdentities (redactor.redactLoad payloads).2 s.toList,
      ∃ name, (redactor.redactLoad payloads).2.lookup key = some name :=
    fun key hkey => redactLoad_named (identities_at? hclean hs hkey)
  exact ⟨fun secret hsecret => hmem _ (List.mem_append_left _ (List.mem_map_of_mem hsecret)),
    fun hit hhit => hmem _ (List.mem_append_right _ (List.mem_map_of_mem hhit))⟩

end

/-- A load keeps its promises exactly if, in every string outside of the redact keys, hits of the
policy's pattern leave the placeholders of labeled secrets alone. -/
theorem redactLoad_faithful_iff (redactor : LoadScopedTraceRedactor) (payloads : List Payload) :
    redactor.Faithful (redactor.redactLoad payloads).2 (loaded payloads) (.array (redactor.redactLoad payloads).1) ↔
      ∀ path s, redactor.Clean path → (loaded payloads).at? path = some (.str s) →
        redactor.Spared (redactor.redactLoad payloads).2 s.toList := by
  constructor
  · intro h path s hclean hs
    exact (intact_iff numbered_redactLoad (redactLoad_text hclean hs)).1 (h.strings path s hclean hs).2.2
  · intro h
    refine ⟨fun path value => redactLoad_keyed, fun path step more hkeyed => ?_, ?_, ?_, ?_, ?_⟩
    · rw [redactLoad_masked, at?_append, at?_masked_keyed hkeyed]
      cases (loaded payloads).at? path with
      | none => rfl
      | some value => cases step <;> rfl
    · intro path path' value value' hkeyed hkeyed' hvalue hvalue'
      have hdistinct := (distinct_loaded payloads).at? hvalue
      have hdistinct' := (distinct_loaded payloads).at? hvalue'
      obtain ⟨n, -, -, hname, hout⟩ := redactLoad_keyed hkeyed hvalue
      obtain ⟨m, -, -, hname', hout'⟩ := redactLoad_keyed hkeyed' hvalue'
      rw [hout, hout']
      constructor
      · intro heq
        have htext : placeholderText n = placeholderText m :=
          String.ofList_injective (Json.str.inj (Option.some.inj heq))
        exact redactLoad_distinct hdistinct hdistinct' hname (htext ▸ hname')
      · intro hsame
        rw [(identity_eq_iff hdistinct hdistinct').2 hsame, hname'] at hname
        rw [Option.some.inj hname]
    · intro value value' hvalue hvalue' name
      exact redactLoad_distinct hvalue hvalue'
    · intro path s hclean hs
      have hnamed := redactLoad_text hclean hs
      refine ⟨hnamed, ?_, (intact_iff numbered_redactLoad hnamed).2 (h path s hclean hs)⟩
      rw [redactLoad_masked, at?_masked hclean, hs]
      rfl
    · intro path value hclean hvalue huntouched
      rw [redactLoad_masked, at?_masked hclean, hvalue, Option.map_some, masked_untouched value huntouched]

/-- A run of digits. -/
def matchDigits (_ : Option Char) (text : Text) : Option Text :=
  if (text.takeWhile Char.isDigit).isEmpty then none else some (text.takeWhile Char.isDigit)

theorem matchDigits_sound : Sound matchDigits id := by
  intro previous text hit h
  unfold matchDigits at h
  split at h
  · cases h
  · next hpos =>
    obtain rfl := Option.some.inj h
    exact ⟨List.takeWhile_prefix _, by simpa using hpos⟩

/-- Redacts passwords and numbers. -/
def numberRedactor : LoadScopedTraceRedactor where
  policy :=
    { redactKeys := ["password"]
      redactPattern := some fun replacement text =>
        String.ofList (joined (fun _ => replacement.toList) ((Pattern.ofMatchAt matchDigits_sound).cut text.toList)) }
  lower := id
  classes := { isSpace := (· = ' '), isWord := Char.isAlpha, sameLetter := (· = ·) }
  floats := .fraction
  redactPattern := some (.ofMatchAt matchDigits_sound)
  policy_pattern := rfl

def passwordPayload : Payload := ⟨.str "password=abc", trivial⟩

/-- The pattern for numbers finds the number of the placeholder that a label has just got. -/
theorem numberRedactor_alters :
    (numberRedactor.redactLoad [passwordPayload]).1.map Json.asStr? = [some "password=<redacted:<redacted:2>>"] ∧
      ¬ numberRedactor.Faithful (numberRedactor.redactLoad [passwordPayload]).2 (loaded [passwordPayload])
        (.array (numberRedactor.redactLoad [passwordPayload]).1) := by
  refine ⟨by decide +kernel, fun h => ?_⟩
  have hclean : numberRedactor.Clean [.item 0] := by
    intro name hname
    cases hname with
    | tail _ hname => cases hname
  have hs : (loaded [passwordPayload]).at? [.item 0] = some (.str "password=abc") := rfl
  have hspared := (intact_iff numbered_redactLoad (redactLoad_text hclean hs)).1 (h.strings _ _ hclean hs).2.2
  have hinserts : numberRedactor.Inserts (numberRedactor.redactLoad [passwordPayload]).2 "password=abc".toList
      "password=".toList "<redacted:1>".toList [] :=
    ⟨[], ⟨"password".toList, "=".toList, "abc".toList⟩, [], by decide +kernel, by decide +kernel, by decide +kernel, rfl⟩
  have hwhole := hspared _ _ _ hinserts ("password=<redacted:".toList.map .plain) "1".toList [.plain '>'] (by decide +kernel)
    ⟨by decide, by decide⟩
  exact absurd hwhole.2.1 (by decide)

end LoadScopedTraceRedactor

end ChainWeaver
