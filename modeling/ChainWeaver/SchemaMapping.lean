import ChainWeaver.AnalyzerLaws

/-!
# Suggested schema mappings

For a pair of tools that does not fit, `suggest_schema_mappings` looks for output fields
of the producer by name, by normal form and by synonym. Of the fields with one normal form
it looks at the last only, so a field that fits can be out of its sight; where none is
that matters, a suggestion is made exactly when one is possible (`suggestions_iff`).
-/

namespace ChainWeaver.ChainAnalyzer

variable {τ : Type} [DecidableEq τ]

/-- What the matching takes from Python's strings and sets. -/
structure Naming where
  lower : String → String
  hashing : Hashing

def Naming.norm (naming : Naming) (name : String) : String := normalizeFieldName naming.lower name

/-- `{"id": {"account_id", "customer_id"}}`: the aliases of consumer fields. -/
abbrev Synonyms := OrderedDict (List String)

inductive NameRelation
  | exactName | normalizedName | synonym
  deriving DecidableEq

def NameRelation.value : NameRelation → String
  | .exactName => "exact-name"
  | .normalizedName => "normalized-name"
  | .synonym => "synonym"

structure FieldMatch where
  producerField : String
  relation : TypeRelation
  how : NameRelation

def FieldMatch.isExact (found : FieldMatch) : Bool := found.how = .exactName && found.relation = .exact

structure MappingSuggestion where
  producer : String
  consumer : String
  fieldMappings : OrderedDict String
  warnings : List String

/-- The mappings and warnings of the fields gone through so far. -/
structure Mapped where
  fieldMappings : OrderedDict String := .empty
  warnings : List String := []
  usedNonExact : Bool := false

-- Fields

/-- `out_by_norm`: of the names with one normal form, the last. -/
def outByNorm (naming : Naming) (names : List String) : OrderedDict String :=
  .ofList (names.map fun name => (naming.norm name, name))

/-- `norm_synonyms`. -/
def normSynonyms (naming : Naming) (synonyms : Synonyms) : OrderedDict (List String) :=
  synonyms.entries.foldl (fun norms entry =>
    let key := naming.norm entry.1
    norms.insert key ((norms.get? key).getD [] ++ entry.2.map naming.norm)) .empty

/-- The producer fields that are tried, the strongest first. -/
def candidates (naming : Naming) (outTypes : OrderedDict (FieldType τ)) (byNorm : OrderedDict String)
    (synonyms : OrderedDict (List String)) (fieldName : String) : List (String × NameRelation) :=
  let norm := naming.norm fieldName
  let exact := if outTypes.contains fieldName then [(fieldName, .exactName)] else []
  let normalized := match byNorm.get? norm with
    | some name => if name ≠ fieldName then [(name, .normalizedName)] else []
    | none => []
  let aliases := naming.hashing.setOrder ((synonyms.get? norm).getD []).eraseDups
  exact ++ normalized ++ aliases.filterMap fun aliasNorm => (byNorm.get? aliasNorm).map (·, .synonym)

/-- `_match_field`. -/
def matchField (naming : Naming) (outTypes : OrderedDict (FieldType τ)) (byNorm : OrderedDict String)
    (synonyms : OrderedDict (List String)) (fieldName : String) (inType : FieldType τ) : Option FieldMatch :=
  (candidates naming outTypes byNorm synonyms fieldName).findSome? fun candidate =>
    (outTypes.get? candidate.1).bind fun outType =>
      (typeRelation outType inType).map fun relation =>
        { producerField := candidate.1, relation, how := candidate.2 }

-- Suggestions

def Mapped.add (mapped : Mapped) (producerName consumerName fieldName : String) (found : FieldMatch) : Mapped :=
  let fieldMappings := mapped.fieldMappings.insert fieldName found.producerField
  if found.isExact then { mapped with fieldMappings }
  else
    { fieldMappings, usedNonExact := true
      warnings := mapped.warnings ++
        [s!"'{consumerName}.{fieldName}' ← '{producerName}.{found.producerField}' " ++
          s!"(name: {found.how.value}, type: {found.relation.value})"] }

/-- The loop over the consumer's fields; `none` where a required one has no match. -/
def mapFields (find : String → FieldType τ → Option FieldMatch) (required : List String)
    (producerName consumerName : String) : List (String × FieldType τ) → Mapped → Option Mapped
  | [], mapped => some mapped
  | (fieldName, inType) :: rest, mapped =>
    match find fieldName inType with
    | none =>
      if required.contains fieldName then none else mapFields find required producerName consumerName rest mapped
    | some found =>
      mapFields find required producerName consumerName rest (mapped.add producerName consumerName fieldName found)

/-- The suggestion for one pair, if there is one. -/
def suggestMapping (fields : ModelFields τ) (naming : Naming) (synonyms : OrderedDict (List String))
    (producerName : String) (producer : Tool) (consumerName : String) (consumer : Tool) : Option MappingSuggestion :=
  let outTypes := schemaFieldTypes fields producer.outputSchema
  let byNorm := outByNorm naming outTypes.keys
  if consumerName = producerName then none
  else if isCompatible fields producer consumer then none
  else
    match mapFields (matchField naming outTypes byNorm synonyms) (schemaRequiredFields fields consumer.inputSchema)
        producerName consumerName (schemaFieldTypes fields consumer.inputSchema).entries {} with
    | none => none
    | some mapped =>
      if mapped.usedNonExact && !mapped.fieldMappings.isEmpty then
        some
          { producer := producerName, consumer := consumerName
            fieldMappings := mapped.fieldMappings, warnings := mapped.warnings }
      else none

/-- `suggest_schema_mappings`. -/
def suggestSchemaMappings (analyzer : ChainAnalyzer τ) (naming : Naming) (synonyms : Synonyms) :
    List MappingSuggestion :=
  let norms := normSynonyms naming synonyms
  analyzer.tools.entries.flatMap fun producer => analyzer.tools.entries.filterMap fun consumer =>
    suggestMapping analyzer.modelFields naming norms producer.1 producer.2 consumer.1 consumer.2

-- Normal forms

section

variable {naming : Naming} {names : List String} {synonyms : Synonyms} {key name other : String}

theorem get?_outByNorm (names : List String) (key : String) :
    (outByNorm naming names).get? key = (names.filter fun name => naming.norm name = key).getLast? := by
  induction names using List.reverseRecOn with
  | nil => rfl
  | append_singleton names name ih =>
    rw [outByNorm, OrderedDict.ofList, List.map_append, List.foldl_append, ← OrderedDict.ofList, ← outByNorm,
      List.map_singleton, List.foldl_cons, List.foldl_nil, OrderedDict.get?_insert, List.filter_append]
    by_cases hkey : naming.norm name = key
    · simp [hkey]
    · simp [hkey, Ne.symm hkey, ih]

/-- The elements of `norm_synonyms` under a key. -/
theorem mem_normSynonyms : other ∈ ((normSynonyms naming synonyms).get? key).getD [] ↔
    ∃ entry ∈ synonyms.entries, naming.norm entry.1 = key ∧ other ∈ entry.2.map naming.norm := by
  unfold normSynonyms
  induction synonyms.entries using List.reverseRecOn with
  | nil => simp
  | append_singleton entries entry ih =>
    rw [List.foldl_append, List.foldl_cons, List.foldl_nil, OrderedDict.get?_insert]
    by_cases hkey : naming.norm entry.1 = key
    · subst hkey
      rw [if_pos rfl, Option.getD_some, List.mem_append, ih]
      simp [or_and_right, exists_or, List.mem_append]
    · rw [if_neg (Ne.symm hkey), ih]
      simp [or_and_right, exists_or, hkey]

/-- The name of a producer's field matches that of a consumer's. -/
def Related (naming : Naming) (synonyms : Synonyms) (fieldName producerField : String) : Prop :=
  producerField = fieldName ∨ naming.norm producerField = naming.norm fieldName ∨
    ∃ entry ∈ synonyms.entries, naming.norm entry.1 = naming.norm fieldName ∧
      naming.norm producerField ∈ entry.2.map naming.norm

/-- The field has the consumer's own name, or is the last with its normal form. -/
def InSight (naming : Naming) (names : List String) (fieldName producerField : String) : Prop :=
  producerField = fieldName ∨
    (names.filter fun name => naming.norm name = naming.norm producerField).getLast? = some producerField

theorem get?_outByNorm_some (h : (outByNorm naming names).get? key = some name) :
    name ∈ names ∧ naming.norm name = key ∧ ∀ fieldName, InSight naming names fieldName name := by
  rw [get?_outByNorm] at h
  obtain ⟨hmem, hkey⟩ := List.mem_filter.1 (List.mem_of_getLast? h)
  have hnorm : naming.norm name = key := of_decide_eq_true hkey
  subst hnorm
  exact ⟨hmem, rfl, fun _ => .inr h⟩

end

-- Matches

section

variable {naming : Naming} {synonyms : Synonyms} {outTypes : OrderedDict (FieldType τ)}
  {fieldName producerField : String} {inType : FieldType τ}

/-- A field of the producer that the consumer's field can be taken from. -/
def FitsField (naming : Naming) (synonyms : Synonyms) (outTypes : OrderedDict (FieldType τ)) (fieldName : String)
    (inType : FieldType τ) (producerField : String) : Prop :=
  Related naming synonyms fieldName producerField ∧
    ∃ outType, outTypes.get? producerField = some outType ∧ (typeRelation outType inType).isSome = true

/-- What `suggest_schema_mappings` finds for a field. -/
abbrev found (naming : Naming) (synonyms : Synonyms) (outTypes : OrderedDict (FieldType τ)) (fieldName : String)
    (inType : FieldType τ) : Option FieldMatch :=
  matchField naming outTypes (outByNorm naming outTypes.keys) (normSynonyms naming synonyms) fieldName inType

omit [DecidableEq τ] in
/-- The candidates are the producer's related fields that are in sight. -/
theorem mem_candidates : (∃ how, (producerField, how) ∈ candidates naming outTypes (outByNorm naming outTypes.keys)
      (normSynonyms naming synonyms) fieldName) ↔
    producerField ∈ outTypes.keys ∧ Related naming synonyms fieldName producerField ∧
      InSight naming outTypes.keys fieldName producerField := by
  constructor
  · rintro ⟨how, hmem⟩
    rcases List.mem_append.1 hmem with hmem | hmem
    · rcases List.mem_append.1 hmem with hmem | hmem
      · split at hmem
        · next hcontains =>
          obtain ⟨rfl, rfl⟩ := Prod.mk.inj (List.mem_singleton.1 hmem)
          exact ⟨List.contains_iff_mem.1 hcontains, .inl rfl, .inl rfl⟩
        · cases hmem
      · split at hmem
        · next last hlast =>
          split at hmem
          · obtain ⟨rfl, rfl⟩ := Prod.mk.inj (List.mem_singleton.1 hmem)
            obtain ⟨hmem, hnorm, hsight⟩ := get?_outByNorm_some hlast
            exact ⟨hmem, .inr (.inl hnorm), hsight fieldName⟩
          · cases hmem
        · cases hmem
    · obtain ⟨aliasNorm, halias, hname⟩ := List.mem_filterMap.1 hmem
      obtain ⟨name, hlast, hpair⟩ := Option.map_eq_some_iff.1 hname
      obtain ⟨rfl, rfl⟩ := Prod.mk.inj hpair
      rw [(naming.hashing.setOrder_perm _).mem_iff, List.mem_eraseDups] at halias
      obtain ⟨hmem, rfl, hsight⟩ := get?_outByNorm_some hlast
      exact ⟨hmem, .inr (.inr (mem_normSynonyms.1 halias)), hsight fieldName⟩
  · rintro ⟨hmem, hrelated, hsight⟩
    by_cases hown : producerField = fieldName
    · subst hown
      have hcontains : outTypes.contains producerField = true := List.contains_iff_mem.2 hmem
      exact ⟨.exactName, by simp [candidates, hcontains]⟩
    · have hlast : (outByNorm naming outTypes.keys).get? (naming.norm producerField) = some producerField := by
        rw [get?_outByNorm]
        exact hsight.resolve_left hown
      rcases hrelated.resolve_left hown with hnorm | hsynonym
      · refine ⟨.normalizedName, List.mem_append_left _ (List.mem_append_right _ ?_)⟩
        simp [← hnorm, hlast, hown]
      · refine ⟨.synonym, List.mem_append_right _ (List.mem_filterMap.2 ⟨naming.norm producerField, ?_, ?_⟩)⟩
        · rw [(naming.hashing.setOrder_perm _).mem_iff, List.mem_eraseDups]
          exact mem_normSynonyms.2 hsynonym
        · rw [hlast]
          rfl

theorem matchField_some {found : FieldMatch}
    (h : matchField naming outTypes (outByNorm naming outTypes.keys) (normSynonyms naming synonyms) fieldName inType =
      some found) :
    FitsField naming synonyms outTypes fieldName inType found.producerField ∧
      ∃ outType, outTypes.get? found.producerField = some outType ∧
        typeRelation outType inType = some found.relation := by
  obtain ⟨⟨name, how⟩, hmem, hfound⟩ := List.exists_of_findSome?_eq_some h
  obtain ⟨outType, hget, hfound⟩ := Option.bind_eq_some_iff.1 hfound
  obtain ⟨relation, hrelation, rfl⟩ := Option.map_eq_some_iff.1 hfound
  have hrelated := (mem_candidates.1 ⟨how, hmem⟩).2.1
  exact ⟨⟨hrelated, outType, hget, by simp [hrelation]⟩, outType, hget, hrelation⟩

/-- A match is found when a field that fits is in sight. -/
theorem found_isSome : (found naming synonyms outTypes fieldName inType).isSome = true ↔
    ∃ producerField, FitsField naming synonyms outTypes fieldName inType producerField ∧
      InSight naming outTypes.keys fieldName producerField := by
  rw [found, matchField, List.findSome?_isSome_iff]
  constructor
  · rintro ⟨⟨name, how⟩, hmem, hfound⟩
    obtain ⟨-, hrelated, hsight⟩ := mem_candidates.1 ⟨how, hmem⟩
    cases hget : outTypes.get? name with
    | none => simp [hget] at hfound
    | some outType => exact ⟨name, ⟨hrelated, outType, hget, by simpa [hget] using hfound⟩, hsight⟩
  · rintro ⟨name, ⟨hrelated, outType, hget, hrelation⟩, hsight⟩
    have hkey : name ∈ outTypes.keys := List.mem_map.2 ⟨_, OrderedDict.get?_eq_some_iff.1 hget, rfl⟩
    obtain ⟨how, hmem⟩ := mem_candidates.2 ⟨hkey, hrelated, hsight⟩
    exact ⟨(name, how), hmem, by simpa [hget] using hrelation⟩

theorem typeRelation_exact {outType : FieldType τ} :
    typeRelation outType inType = some .exact ↔ outType = inType := by
  unfold typeRelation
  split
  · next hsame => exact iff_of_true rfl hsame
  · next hother =>
    refine iff_of_false (fun h => ?_) hother
    split at h
    · split at h
      · cases h
      · cases h
    · cases h

omit [DecidableEq τ] in
theorem mem_candidates_exact (h : (producerField, .exactName) ∈ candidates naming outTypes
    (outByNorm naming outTypes.keys) (normSynonyms naming synonyms) fieldName) : producerField = fieldName := by
  rcases List.mem_append.1 h with h | h
  · rcases List.mem_append.1 h with h | h
    · split at h
      · exact (Prod.mk.inj (List.mem_singleton.1 h)).1
      · cases h
    · split at h
      · split at h
        · cases List.mem_singleton.1 h
        · cases h
      · cases h
  · obtain ⟨_, _, hname⟩ := List.mem_filterMap.1 h
    obtain ⟨_, _, hpair⟩ := Option.map_eq_some_iff.1 hname
    cases hpair

/-- A match is exact when the producer has the very field. -/
theorem found_exact :
    (∃ best, found naming synonyms outTypes fieldName inType = some best ∧ best.isExact = true) ↔
      outTypes.get? fieldName = some inType := by
  constructor
  · rintro ⟨best, hbest, hexact⟩
    obtain ⟨⟨name, how⟩, hmem, hfound⟩ := List.exists_of_findSome?_eq_some hbest
    obtain ⟨outType, hget, hfound⟩ := Option.bind_eq_some_iff.1 hfound
    obtain ⟨relation, hrelation, rfl⟩ := Option.map_eq_some_iff.1 hfound
    simp only [FieldMatch.isExact, Bool.and_eq_true, decide_eq_true_eq] at hexact
    obtain ⟨rfl, rfl⟩ := hexact
    rw [← mem_candidates_exact hmem, ← typeRelation_exact.1 hrelation]
    exact hget
  · intro hget
    have hcontains : outTypes.contains fieldName = true := OrderedDict.contains_iff.2 ⟨inType, hget⟩
    refine ⟨⟨fieldName, .exact, .exactName⟩, ?_, rfl⟩
    simp [found, matchField, candidates, hcontains, hget, typeRelation_exact.2]

/-- A match is found, but not exact. -/
theorem found_inexact :
    (∃ best, found naming synonyms outTypes fieldName inType = some best ∧ best.isExact = false) ↔
    (∃ producerField, FitsField naming synonyms outTypes fieldName inType producerField ∧
      InSight naming outTypes.keys fieldName producerField) ∧ outTypes.get? fieldName ≠ some inType := by
  rw [← found_isSome, Ne, ← found_exact]
  cases found naming synonyms outTypes fieldName inType with
  | none => simp
  | some best => simp

end

-- The loop over the fields

section

variable {find : String → FieldType τ → Option FieldMatch} {required : List String}
  {producerName consumerName : String} {entries : List (String × FieldType τ)} {mapped result : Mapped}

omit [DecidableEq τ] in
theorem mapFields_none : mapFields find required producerName consumerName entries mapped = none ↔
    ∃ entry ∈ entries, required.contains entry.1 = true ∧ find entry.1 entry.2 = none := by
  induction entries generalizing mapped with
  | nil => simp [mapFields]
  | cons entry rest ih =>
    obtain ⟨fieldName, inType⟩ := entry
    rw [mapFields, List.exists_mem_cons_iff]
    cases hfound : find fieldName inType with
    | none =>
      dsimp only
      split
      · next hrequired => exact iff_of_true rfl (.inl ⟨hrequired, rfl⟩)
      · next hoptional =>
        rw [ih]
        exact ⟨.inr, fun h => h.resolve_left fun hrequired => hoptional hrequired.1⟩
    | some best => simp [ih]

/-- What the loop has come to behind the fields it has gone through. -/
structure Reads (find : String → FieldType τ → Option FieldMatch) (entries : List (String × FieldType τ))
    (mapped result : Mapped) : Prop where
  kept : ∀ key, mapped.fieldMappings.contains key = true → result.fieldMappings.contains key = true
  covers : ∀ entry ∈ entries, ∀ best, find entry.1 entry.2 = some best →
    result.fieldMappings.contains entry.1 = true
  sound : ∀ key name, result.fieldMappings.get? key = some name → mapped.fieldMappings.get? key = some name ∨
    ∃ inType best, (key, inType) ∈ entries ∧ find key inType = some best ∧ best.producerField = name
  nonExact : result.usedNonExact = true ↔ mapped.usedNonExact = true ∨
    ∃ entry ∈ entries, ∃ best, find entry.1 entry.2 = some best ∧ best.isExact = false

theorem Mapped.add_fieldMappings (mapped : Mapped) (fieldName : String) (best : FieldMatch) :
    (mapped.add producerName consumerName fieldName best).fieldMappings =
      mapped.fieldMappings.insert fieldName best.producerField := by
  unfold Mapped.add
  dsimp only
  split <;> rfl

theorem Mapped.add_usedNonExact (mapped : Mapped) (fieldName : String) (best : FieldMatch) :
    (mapped.add producerName consumerName fieldName best).usedNonExact = true ↔
      mapped.usedNonExact = true ∨ best.isExact = false := by
  unfold Mapped.add
  dsimp only
  split
  · next hexact => simp [hexact]
  · next hexact => simp [hexact]

omit [DecidableEq τ] in
theorem mapFields_reads (h : mapFields find required producerName consumerName entries mapped = some result) :
    Reads find entries mapped result := by
  induction entries generalizing mapped with
  | nil =>
    obtain rfl := Option.some.inj h
    exact ⟨fun _ hkey => hkey, by simp, fun _ _ hget => .inl hget, by simp⟩
  | cons entry rest ih =>
    obtain ⟨fieldName, inType⟩ := entry
    rw [mapFields] at h
    cases hfound : find fieldName inType with
    | none =>
      rw [hfound] at h
      dsimp only at h
      split at h
      · cases h
      · have hrest := ih h
        refine ⟨hrest.kept, List.forall_mem_cons.2 ⟨fun best hbest => ?_, hrest.covers⟩,
          fun key name hget => ?_, ?_⟩
        · cases hfound.symm.trans hbest
        · rcases hrest.sound key name hget with hget | ⟨inType', best, hmem, hbest⟩
          · exact .inl hget
          · exact .inr ⟨inType', best, List.mem_cons_of_mem _ hmem, hbest⟩
        · simp [hrest.nonExact, hfound]
    | some best =>
      rw [hfound] at h
      have hrest := ih h
      refine ⟨fun key hkey => hrest.kept key ?_, List.forall_mem_cons.2 ⟨fun best' hbest => ?_, hrest.covers⟩,
        fun key name hget => ?_, ?_⟩
      · simp [Mapped.add_fieldMappings, hkey]
      · exact hrest.kept fieldName (by simp [Mapped.add_fieldMappings])
      · rcases hrest.sound key name hget with hget | ⟨inType', best', hmem, hbest⟩
        · rw [Mapped.add_fieldMappings, OrderedDict.get?_insert] at hget
          split at hget
          · next hkey =>
            subst hkey
            exact .inr ⟨inType, best, List.mem_cons_self, hfound, Option.some.inj hget⟩
          · exact .inl hget
        · exact .inr ⟨inType', best', List.mem_cons_of_mem _ hmem, hbest⟩
      · rw [hrest.nonExact, Mapped.add_usedNonExact, List.exists_mem_cons_iff, or_assoc]
        simp [hfound]

end

-- Suggestions

section

variable {fields : ModelFields τ} {naming : Naming} {synonyms : Synonyms} {producer consumer : Tool}
  {producerName consumerName : String}

/-- Every required field of the consumer fits a field of the producer, and some field
fits one without being the very same. -/
def Satisfiable (fields : ModelFields τ) (producer consumer : Tool)
    (Fit : String → FieldType τ → String → Prop) : Prop :=
  (∀ entry ∈ (schemaFieldTypes fields consumer.inputSchema).entries,
      (schemaRequiredFields fields consumer.inputSchema).contains entry.1 = true →
        ∃ name, Fit entry.1 entry.2 name) ∧
    ∃ entry ∈ (schemaFieldTypes fields consumer.inputSchema).entries, (∃ name, Fit entry.1 entry.2 name) ∧
      (schemaFieldTypes fields producer.outputSchema).get? entry.1 ≠ some entry.2

/-- The fits between the fields of two tools. -/
def PairFits (fields : ModelFields τ) (naming : Naming) (synonyms : Synonyms) (producer : Tool) :
    String → FieldType τ → String → Prop :=
  FitsField naming synonyms (schemaFieldTypes fields producer.outputSchema)

/-- The fits with fields in sight. -/
def SeenFits (fields : ModelFields τ) (naming : Naming) (synonyms : Synonyms) (producer : Tool)
    (fieldName : String) (inType : FieldType τ) (producerField : String) : Prop :=
  PairFits fields naming synonyms producer fieldName inType producerField ∧
    InSight naming (schemaFieldTypes fields producer.outputSchema).keys fieldName producerField

theorem Satisfiable.of_seen (h : Satisfiable fields producer consumer (SeenFits fields naming synonyms producer)) :
    Satisfiable fields producer consumer (PairFits fields naming synonyms producer) := by
  obtain ⟨hrequired, entry, hmem, ⟨name, hfits, -⟩, hother⟩ := h
  refine ⟨fun entry hmem hentry => ?_, entry, hmem, ⟨name, hfits⟩, hother⟩
  obtain ⟨name, hfits, -⟩ := hrequired entry hmem hentry
  exact ⟨name, hfits⟩

/-- The search of one pair. -/
theorem suggestMapping_isSome (hne : consumerName ≠ producerName)
    (hrejected : isCompatible fields producer consumer = false) :
    (suggestMapping fields naming (normSynonyms naming synonyms) producerName producer consumerName consumer).isSome =
        true ↔ Satisfiable fields producer consumer (SeenFits fields naming synonyms producer) := by
  rw [suggestMapping, if_neg hne, if_neg (by simp [hrejected])]
  split
  · next hnone =>
    obtain ⟨entry, hmem, hrequired, hfound⟩ := mapFields_none.1 hnone
    refine iff_of_false (by simp) fun h => ?_
    have hsome := found_isSome.2 (h.1 entry hmem hrequired)
    rw [found, hfound] at hsome
    cases hsome
  · next mapped hmapped =>
    have hreads := mapFields_reads hmapped
    have hrequired : ∀ entry ∈ (schemaFieldTypes fields consumer.inputSchema).entries,
        (schemaRequiredFields fields consumer.inputSchema).contains entry.1 = true →
          ∃ name, SeenFits fields naming synonyms producer entry.1 entry.2 name := by
      intro entry hmem hentry
      refine found_isSome.1 (Option.isSome_iff_ne_none.2 fun hnone => ?_)
      cases (mapFields_none.2 ⟨entry, hmem, hentry, hnone⟩).symm.trans hmapped
    have hnonExact : mapped.usedNonExact = true ↔
        ∃ entry ∈ (schemaFieldTypes fields consumer.inputSchema).entries,
          (∃ name, SeenFits fields naming synonyms producer entry.1 entry.2 name) ∧
          (schemaFieldTypes fields producer.outputSchema).get? entry.1 ≠ some entry.2 := by
      rw [hreads.nonExact]
      constructor
      · intro h
        obtain ⟨entry, hmem, hinexact⟩ := h.resolve_left (by simp)
        exact ⟨entry, hmem, found_inexact.1 hinexact⟩
      · rintro ⟨entry, hmem, hinexact⟩
        exact .inr ⟨entry, hmem, found_inexact.2 hinexact⟩
    have hfilled : mapped.usedNonExact = true → mapped.fieldMappings.isEmpty = false := by
      intro hused
      obtain ⟨entry, hmem, hfits, -⟩ := hnonExact.1 hused
      obtain ⟨best, hbest⟩ := Option.isSome_iff_exists.1 (found_isSome.2 hfits)
      obtain ⟨value, hvalue⟩ := OrderedDict.contains_iff.1 (hreads.covers entry hmem best hbest)
      rw [OrderedDict.isEmpty, List.isEmpty_eq_false_iff]
      exact List.ne_nil_of_mem (OrderedDict.get?_eq_some_iff.1 hvalue)
    rw [Satisfiable, ← hnonExact]
    split
    · next hboth => exact iff_of_true rfl ⟨hrequired, (Bool.and_eq_true_iff.1 hboth).1⟩
    · next hboth =>
      refine iff_of_false (by simp) fun h => hboth ?_
      rw [h.2, hfilled h.2]
      rfl

/-- What every suggestion has. -/
structure WellTyped (fields : ModelFields τ) (producer consumer : Tool) (suggestion : MappingSuggestion) : Prop where
  existing : ∀ key name, suggestion.fieldMappings.get? key = some name → ∃ inType outType,
    (schemaFieldTypes fields consumer.inputSchema).get? key = some inType ∧
      (schemaFieldTypes fields producer.outputSchema).get? name = some outType ∧
        (typeRelation outType inType).isSome = true
  covers : ∀ key ∈ schemaRequiredFields fields consumer.inputSchema, suggestion.fieldMappings.contains key = true

theorem suggestMapping_some {suggestion : MappingSuggestion}
    (h : suggestMapping fields naming (normSynonyms naming synonyms) producerName producer consumerName consumer =
      some suggestion) :
    suggestion.producer = producerName ∧ suggestion.consumer = consumerName ∧ consumerName ≠ producerName ∧
      isCompatible fields producer consumer = false ∧ WellTyped fields producer consumer suggestion := by
  unfold suggestMapping at h
  dsimp only at h
  split at h
  · cases h
  · next hne =>
    split at h
    · cases h
    · next hrejected =>
      split at h
      · cases h
      · next mapped hmapped =>
        split at h
        · have hreads := mapFields_reads hmapped
          obtain rfl := Option.some.inj h
          refine ⟨rfl, rfl, hne, Bool.not_eq_true _ ▸ hrejected, fun key name hget => ?_, fun key hkey => ?_⟩
          · obtain ⟨inType, best, hmem, hbest, rfl⟩ := (hreads.sound key name hget).resolve_left (by simp)
            obtain ⟨-, outType, hout, hrelation⟩ := matchField_some hbest
            exact ⟨inType, outType, OrderedDict.get?_eq_some_iff.2 hmem, hout, by simp [hrelation]⟩
          · obtain ⟨⟨name, field⟩, hmem, rfl⟩ := List.mem_map.1 hkey
            have hentry : (name, field.annotation) ∈ (schemaFieldTypes fields consumer.inputSchema).entries :=
              List.mem_map.2 ⟨_, (List.mem_filter.1 hmem).1, rfl⟩
            cases hbest : found naming synonyms (schemaFieldTypes fields producer.outputSchema) name
              field.annotation with
            | some best => exact hreads.covers _ hentry best hbest
            | none =>
              cases (mapFields_none.2 ⟨_, hentry, List.contains_iff_mem.2 hkey, hbest⟩).symm.trans hmapped
        · cases h

end

-- All pairs

theorem mem_suggestSchemaMappings {analyzer : ChainAnalyzer τ} {naming : Naming} {synonyms : Synonyms}
    {suggestion : MappingSuggestion} : suggestion ∈ analyzer.suggestSchemaMappings naming synonyms ↔
      ∃ producer consumer, analyzer.tools.get? producer.name = some producer ∧
        analyzer.tools.get? consumer.name = some consumer ∧
        suggestMapping analyzer.modelFields naming (normSynonyms naming synonyms) producer.name producer consumer.name
          consumer = some suggestion := by
  simp only [suggestSchemaMappings, List.mem_flatMap, List.mem_filterMap]
  constructor
  · rintro ⟨⟨name, producer⟩, hproducer, ⟨other, consumer⟩, hconsumer, hsuggestion⟩
    obtain rfl : name = producer.name := analyzer.named _ hproducer
    obtain rfl : other = consumer.name := analyzer.named _ hconsumer
    exact ⟨producer, consumer, OrderedDict.get?_eq_some_iff.2 hproducer, OrderedDict.get?_eq_some_iff.2 hconsumer,
      hsuggestion⟩
  · rintro ⟨producer, consumer, hproducer, hconsumer, hsuggestion⟩
    exact ⟨_, OrderedDict.get?_eq_some_iff.1 hproducer, _, OrderedDict.get?_eq_some_iff.1 hconsumer, hsuggestion⟩

/-- The pairs that `suggest_schema_mappings` goes over. -/
structure Rejected (analyzer : ChainAnalyzer τ) (producer consumer : Tool) : Prop where
  knownProducer : analyzer.tools.get? producer.name = some producer
  knownConsumer : analyzer.tools.get? consumer.name = some consumer
  other : consumer.name ≠ producer.name
  rejected : isCompatible analyzer.modelFields producer consumer = false

/-- The suggestions are complete and well typed. -/
structure Complete (analyzer : ChainAnalyzer τ) (naming : Naming) (synonyms : Synonyms) : Prop where
  suggested : ∀ producer consumer, analyzer.Rejected producer consumer →
    ((∃ suggestion ∈ analyzer.suggestSchemaMappings naming synonyms,
        suggestion.producer = producer.name ∧ suggestion.consumer = consumer.name) ↔
      Satisfiable analyzer.modelFields producer consumer (PairFits analyzer.modelFields naming synonyms producer))
  wellTyped : ∀ suggestion ∈ analyzer.suggestSchemaMappings naming synonyms, ∃ producer consumer,
    analyzer.Rejected producer consumer ∧ suggestion.producer = producer.name ∧
      suggestion.consumer = consumer.name ∧ WellTyped analyzer.modelFields producer consumer suggestion

/-- The suggestions are complete exactly when no pair needs a field that is out of sight
behind a later one of the same normal form. -/
theorem suggestions_iff (analyzer : ChainAnalyzer τ) (naming : Naming) (synonyms : Synonyms) :
    analyzer.Complete naming synonyms ↔ ∀ producer consumer, analyzer.Rejected producer consumer →
      Satisfiable analyzer.modelFields producer consumer (PairFits analyzer.modelFields naming synonyms producer) →
        Satisfiable analyzer.modelFields producer consumer
          (SeenFits analyzer.modelFields naming synonyms producer) := by
  have hsuggested : ∀ producer consumer, analyzer.Rejected producer consumer →
      ((∃ suggestion ∈ analyzer.suggestSchemaMappings naming synonyms,
          suggestion.producer = producer.name ∧ suggestion.consumer = consumer.name) ↔
        Satisfiable analyzer.modelFields producer consumer
          (SeenFits analyzer.modelFields naming synonyms producer)) := by
    intro producer consumer hpair
    rw [← suggestMapping_isSome hpair.other hpair.rejected, Option.isSome_iff_exists]
    constructor
    · rintro ⟨suggestion, hmem, hproducer, hconsumer⟩
      obtain ⟨own, taker, hown, htaker, hsuggestion⟩ := mem_suggestSchemaMappings.1 hmem
      obtain ⟨hproducer', hconsumer', -⟩ := suggestMapping_some hsuggestion
      rw [← hproducer', hproducer, hpair.knownProducer] at hown
      rw [← hconsumer', hconsumer, hpair.knownConsumer] at htaker
      obtain rfl := Option.some.inj hown
      obtain rfl := Option.some.inj htaker
      exact ⟨suggestion, hsuggestion⟩
    · rintro ⟨suggestion, hsuggestion⟩
      obtain ⟨hproducer, hconsumer, -⟩ := suggestMapping_some hsuggestion
      refine ⟨suggestion, mem_suggestSchemaMappings.2 ⟨producer, consumer, ?_⟩, hproducer, hconsumer⟩
      exact ⟨hpair.knownProducer, hpair.knownConsumer, hsuggestion⟩
  constructor
  · intro hcomplete producer consumer hpair hsatisfiable
    exact (hsuggested producer consumer hpair).1 ((hcomplete.suggested producer consumer hpair).2 hsatisfiable)
  · intro hseen
    refine ⟨fun producer consumer hpair => ?_, fun suggestion hmem => ?_⟩
    · exact (hsuggested producer consumer hpair).trans ⟨.of_seen, hseen producer consumer hpair⟩
    · obtain ⟨producer, consumer, hproducer, hconsumer, hsuggestion⟩ := mem_suggestSchemaMappings.1 hmem
      obtain ⟨hname, hname', hne, hrejected, htyped⟩ := suggestMapping_some hsuggestion
      exact ⟨producer, consumer, ⟨hproducer, hconsumer, hne, hrejected⟩, hname, hname', htyped⟩

/-- `lookup` gives an account twice, as text and as a number; `notify` takes the text. -/
def accountFields : ModelFields Empty := fun schema =>
  if schema = "Account" then
    .ofList [("account_id", { annotation := .str, isRequired := true }),
      ("accountId", { annotation := .int, isRequired := true })]
  else .ofList [("accountid", { annotation := .str, isRequired := true })]

def accountTools : List Tool :=
  [{ Sample.tool "lookup" with outputSchema := "Account" }, { Sample.tool "notify" with outputSchema := "Text" }]

def asciiNaming : Naming where
  lower name := String.ofList (name.toList.map Char.toLower)
  hashing := Sample.platform.hashing

theorem account_named : (accountTools.map (·.name)).Nodup := by decide

def accountAnalyzer : ChainAnalyzer Empty :=
  { modelFields := accountFields, tools := indexed accountTools, named := indexed_named account_named }

/-- The text has the normal form that `notify` asks for, but the number has it too. -/
theorem field_displaced :
    ¬∀ (fields : ModelFields Empty) (tools : List Tool) (analyzer : ChainAnalyzer Empty) (naming : Naming)
      (synonyms : Synonyms), create fields tools = .ok analyzer → analyzer.Complete naming synonyms := by
  intro h
  have hcomplete := h accountFields accountTools accountAnalyzer asciiNaming .empty (dif_pos account_named)
  have hpair : Rejected accountAnalyzer { Sample.tool "lookup" with outputSchema := "Account" }
      { Sample.tool "notify" with outputSchema := "Text" } := ⟨rfl, rfl, by decide, by decide +kernel⟩
  have hfits : PairFits accountFields asciiNaming .empty { Sample.tool "lookup" with outputSchema := "Account" }
      "accountid" .str "account_id" := ⟨.inr (.inl (by decide +kernel)), .str, rfl, by decide⟩
  have hsatisfiable : Satisfiable accountFields { Sample.tool "lookup" with outputSchema := "Account" }
      { Sample.tool "notify" with outputSchema := "Text" }
      (PairFits accountFields asciiNaming .empty { Sample.tool "lookup" with outputSchema := "Account" }) := by
    refine ⟨fun entry hmem _ => ?_, ("accountid", .str), List.mem_singleton_self _, ⟨_, hfits⟩, ?_⟩
    · rw [List.mem_singleton.1 hmem]
      exact ⟨_, hfits⟩
    · decide +kernel
  obtain ⟨suggestion, hmem, -⟩ := (hcomplete.suggested _ _ hpair).2 hsatisfiable
  have hnone : (accountAnalyzer.suggestSchemaMappings asciiNaming .empty).length = 0 := by decide +kernel
  rw [List.length_eq_zero_iff.1 hnone] at hmem
  cases hmem

end ChainWeaver.ChainAnalyzer
