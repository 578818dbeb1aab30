import ChainWeaver.Value
import ChainWeaver.Data.JsonPointer

/-!
# Pointers against RFC 6901

`resolve_pointer` follows every pointer the RFC resolves. It goes further in two
places: `int()` takes numerals that are no array index, and an unknown escape
stands for itself. Its error names the decoded tokens.
-/

namespace ChainWeaver

namespace Pointer

open JsonPointer (Node Key ShortestFailing)

def node : Value → Node Value
  | .dict entries => .object (entries.lookup ·)
  | .list items => .array items
  | _ => .leaf

/-- The child of `current` that the walk goes on with at a decoded token. -/
def enter (current : Value) (token : String) : Option Value :=
  match current with
  | .dict entries => entries.lookup token
  | .list items => (parseInt token).bind fun position => if position < 0 then none else items[position.toNat]?
  | _ => none

-- The walk

theorem follow_enter {pointer token : String} {before rest : List String} {current value : Value}
    (h : enter current token = some value) :
    follow pointer before current (token :: rest) = follow pointer (before ++ [token]) value rest := by
  unfold enter at h
  split at h
  · simp [follow, h]
  · obtain ⟨position, hparse, hposition⟩ := Option.bind_eq_some_iff.1 h
    split at hposition
    · cases hposition
    · next hneg => simp [follow, hparse, hneg, hposition]
  · cases h

theorem follow_stuck (pointer : String) {token : String} (before rest : List String) {current : Value}
    (h : enter current token = none) :
    ∃ error, follow pointer before current (token :: rest) = .error error ∧
      error.failedAt = pathOf (before ++ [token]) := by
  unfold enter at h
  split at h
  · simp [follow, h]
  · next items =>
    cases hparse : parseInt token with
    | none => simp [follow, hparse]
    | some position =>
      rw [hparse, Option.bind_some] at h
      by_cases hneg : position < 0
      · simp [follow, hparse, hneg]
      · rw [if_neg hneg] at h
        simp [follow, hparse, hneg, h]
  · next hdict hlist =>
    unfold follow
    split
    · exact absurd rfl (hdict _)
    · exact absurd rfl (hlist _)
    · exact ⟨_, rfl, rfl⟩

theorem follow_ok {pointer : String} {before tokens : List String} {current value : Value} :
    follow pointer before current tokens = .ok value ↔ tokens.foldlM enter current = some value := by
  induction tokens generalizing before current with
  | nil => simp [follow]
  | cons token rest ih =>
    rw [List.foldlM_cons]
    cases henter : enter current token with
    | none =>
      obtain ⟨error, herror, _⟩ := follow_stuck pointer before rest henter
      simp [herror]
    | some next =>
      rw [follow_enter henter, ih]
      simp

theorem follow_walked {pointer : String} {before walked rest : List String} {current value : Value}
    (h : walked.foldlM enter current = some value) :
    follow pointer before current (walked ++ rest) = follow pointer (before ++ walked) value rest := by
  induction walked generalizing before current with
  | nil =>
    cases h
    simp
  | cons token walked ih =>
    rw [List.foldlM_cons] at h
    obtain ⟨next, henter, hrest⟩ := Option.bind_eq_some_iff.1 h
    rw [List.cons_append, follow_enter henter, ih hrest]
    simp

theorem follow_error {pointer : String} {before tokens : List String} {current : Value}
    {error : PointerResolutionError} (h : follow pointer before current tokens = .error error) :
    ∃ walked token after value, tokens = walked ++ token :: after ∧ walked.foldlM enter current = some value ∧
      enter value token = none ∧ error.failedAt = pathOf (before ++ walked ++ [token]) := by
  induction tokens generalizing before current with
  | nil => cases h
  | cons token rest ih =>
    cases henter : enter current token with
    | none =>
      obtain ⟨_, herror, hpath⟩ := follow_stuck pointer before rest henter
      rw [herror] at h
      cases h
      exact ⟨[], token, rest, current, rfl, rfl, henter, by simpa using hpath⟩
    | some next =>
      rw [follow_enter henter] at h
      obtain ⟨walked, last, after, value, htokens, hwalked, hstuck, hpath⟩ := ih h
      exact ⟨token :: walked, last, after, value, by simp [htokens], by simp [henter, hwalked], hstuck, by simpa using hpath⟩

-- Numerals

theorem isDigit_range {c : Char} (h : c.isDigit = true) : 48 ≤ c.toNat ∧ c.toNat ≤ 57 := by
  simpa [Char.isDigit, UInt32.le_iff_toNat_le] using h

theorem isSpace_digit {c : Char} (h : c.isDigit = true) : isSpace c = false := by
  have hrange := isDigit_range h
  simp only [isSpace, List.contains_eq_mem, decide_eq_false_iff_not, List.mem_cons, List.not_mem_nil, or_false]
  omega

theorem digit?_digit {c : Char} (h : c.isDigit = true) : digit? c = some (c.toNat - 48) := by
  have hrange := isDigit_range h
  have hzeros : decimalZeros = 0x30 :: decimalZeros.tail := rfl
  rw [digit?, hzeros, List.find?_cons_of_pos (by simpa using hrange)]
  rfl

theorem digits_isDigit {text : List Char} (h : ∀ c ∈ text, c.isDigit = true) (acc : Nat) :
    digits acc true text = some (Nat.ofDigitChars 10 text acc) := by
  induction text generalizing acc with
  | nil => rfl
  | cons c rest ih =>
    have hc : c.isDigit = true := h c (by simp)
    have hne : c ≠ '_' := fun heq => absurd hc (by simp [heq])
    rw [digits, if_neg hne, digit?_digit hc, Option.bind_some, ih fun d hd => h d (by simp [hd]),
      Nat.ofDigitChars_cons]
    rfl

theorem parseInt_index {token : List Char} {position : Nat} (h : JsonPointer.index? token = some position) :
    parseInt (String.ofList token) = some (position : Int) := by
  unfold JsonPointer.index? at h
  split at h
  · next hindex =>
    cases h
    obtain ⟨hne, hdigits⟩ := JsonPointer.isIndex_digits hindex
    have hstart : ∀ text : List Char, (∀ c ∈ text, c.isDigit = true) → text.dropWhile isSpace = text := by
      intro text htext
      cases text with
      | nil => rfl
      | cons c rest => exact List.dropWhile_cons_of_neg (by simp [isSpace_digit (htext c (by simp))])
    have htrimmed : ((token.dropWhile isSpace).reverse.dropWhile isSpace).reverse = token := by
      rw [hstart token hdigits, hstart token.reverse (by simpa using hdigits), List.reverse_reverse]
    cases token with
    | nil => exact absurd rfl hne
    | cons c rest =>
      have hc : c.isDigit = true := hdigits c (by simp)
      have hminus : c ≠ '-' := fun heq => absurd hc (by simp [heq])
      have hplus : c ≠ '+' := fun heq => absurd hc (by simp [heq])
      have hunderscore : c ≠ '_' := fun heq => absurd hc (by simp [heq])
      have hvalue : digits 0 false (c :: rest) = some (Nat.ofDigitChars 10 (c :: rest) 0) := by
        rw [← digits_isDigit hdigits 0, digits, digits, if_neg hunderscore, if_neg hunderscore]
      unfold parseInt
      rw [String.toList_ofList, htrimmed]
      dsimp only
      split
      · next heq => exact absurd (List.cons.inj heq).1 hminus
      · next heq => exact absurd (List.cons.inj heq).1 hplus
      · rw [hvalue]
        rfl
  · cases h

-- Escapes

theorem replace_cons {code into c : Char} {rest : List Char} (h : c ≠ '~') :
    unescape.replace code into (c :: rest) = c :: unescape.replace code into rest := by
  rw [unescape.replace.eq_def]
  split
  · next heq => exact absurd (List.cons.inj heq).1 h
  · next heq => cases heq; rfl
  · next heq => cases heq

theorem replace_same {code into : Char} {rest : List Char} :
    unescape.replace code into ('~' :: code :: rest) = into :: unescape.replace code into rest := by
  simp [unescape.replace]

theorem replace_other {code into c : Char} {rest : List Char} (h : c ≠ code) :
    unescape.replace code into ('~' :: c :: rest) = '~' :: unescape.replace code into (c :: rest) := by
  simp [unescape.replace, h]

theorem replace_shorter (code into : Char) (text : List Char) :
    unescape.replace code into text = text ∨ (unescape.replace code into text).length < text.length := by
  fun_induction unescape.replace code into text with
  | case1 rest ih =>
    right
    rcases ih with heq | hlt
    · rw [heq]
      simp
    · simp only [List.length_cons]
      omega
  | case2 c rest hne ih =>
    rcases ih with heq | hlt
    · rw [heq]
      simp
    · right
      simpa using hlt
  | case3 c rest _ ih =>
    rcases ih with heq | hlt
    · rw [heq]
      simp
    · right
      simpa using hlt
  | case4 => simp

/-- Only a token that reads differently gets shorter. -/
theorem unescape_shorter (text : List Char) : unescape text = text ∨ (unescape text).length < text.length := by
  rcases replace_shorter '1' '/' text with hfirst | hfirst
  · simpa [unescape, hfirst] using replace_shorter '0' '~' text
  · right
    rcases replace_shorter '0' '~' (unescape.replace '1' '/' text) with hsecond | hsecond
    · simpa [unescape, hsecond] using hfirst
    · exact lt_trans hsecond hfirst

theorem unescape_decode {token text : List Char} (h : JsonPointer.decode token = some text) : unescape token = text := by
  fun_induction JsonPointer.decode token generalizing text with
  | case1 => cases h; rfl
  | case2 tail ih =>
    obtain ⟨inner, hinner, rfl⟩ := Option.map_eq_some_iff.1 h
    rw [← ih hinner, unescape, replace_other (c := '0') (by decide), replace_cons (c := '0') (by decide), replace_same]
    rfl
  | case3 tail ih =>
    obtain ⟨inner, hinner, rfl⟩ := Option.map_eq_some_iff.1 h
    rw [← ih hinner, unescape, replace_same, replace_cons (by decide)]
    rfl
  | case4 => cases h
  | case5 c rest hne ih =>
    obtain ⟨inner, hinner, rfl⟩ := Option.map_eq_some_iff.1 h
    rw [← ih hinner, unescape, replace_cons hne, replace_cons hne]
    rfl

-- Both walks

def decoded (token : List Char) : String := String.ofList (unescape token)

/-- Where the RFC goes on, so does the code. -/
theorem enter_step {current value : Value} {token : List Char} (h : JsonPointer.step node current token = some value) :
    enter current (decoded token) = some value := by
  obtain ⟨text, htext, hnode⟩ := Option.bind_eq_some_iff.1 h
  rw [decoded, unescape_decode htext]
  cases current with
  | dict entries => exact hnode
  | list items =>
    obtain ⟨position, hindex, hitem⟩ := Option.bind_eq_some_iff.1 hnode
    rw [enter, parseInt_index hindex, Option.bind_some, if_neg (by omega)]
    exact hitem
  | _ => cases hnode

theorem enter_walk {current value : Value} {tokens : List (List Char)}
    (h : JsonPointer.walk node current tokens = some value) : (tokens.map decoded).foldlM enter current = some value := by
  induction tokens generalizing current with
  | nil => exact h
  | cons token rest ih =>
    obtain ⟨next, hstep, hrest⟩ := Option.bind_eq_some_iff.1 h
    rw [List.map_cons, List.foldlM_cons, enter_step hstep]
    exact ih hrest

theorem parsePointer_tokens {pointer : String} {tokens : List (List Char)}
    (h : JsonPointer.tokens? pointer.toList = some tokens) : parsePointer pointer = .ok (tokens.map decoded) := by
  unfold JsonPointer.tokens? at h
  unfold parsePointer
  split at h
  · cases h
    simp_all
  · split at h
    · next hslash =>
      cases h
      simp_all [decoded]
    · cases h

theorem parsePointer_malformed {pointer : String} (h : JsonPointer.tokens? pointer.toList = none) :
    ∃ error, parsePointer pointer = .error error ∧ error.failedAt = pointer := by
  unfold parsePointer
  split
  · next hnil => simp [hnil, JsonPointer.tokens?] at h
  · next rest hslash => simp [hslash, JsonPointer.tokens?] at h
  · exact ⟨_, rfl, rfl⟩

theorem pathOf_decoded {tokens : List (List Char)} (h : tokens ≠ []) :
    pathOf (tokens.map decoded) = String.ofList (JsonPointer.join (tokens.map unescape)) := by
  apply String.toList_inj.1
  rw [pathOf, String.toList_append, String.toList_intercalate, String.toList_ofList]
  induction tokens with
  | nil => exact absurd rfl h
  | cons token rest ih =>
    cases rest with
    | nil => simp [decoded]
    | cons next rest =>
      have hrest := ih (by simp)
      simp only [List.map_cons, List.intercalate_cons_cons, JsonPointer.join_cons] at hrest ⊢
      simp_all [decoded]

-- The text of a failure

theorem length_join_unescape (tokens : List (List Char)) :
    (JsonPointer.join (tokens.map unescape)).length ≤ (JsonPointer.join tokens).length ∧
      ((JsonPointer.join (tokens.map unescape)).length = (JsonPointer.join tokens).length →
        ∀ t ∈ tokens, unescape t = t) := by
  induction tokens with
  | nil => simp
  | cons token rest ih =>
    obtain ⟨hle, heq⟩ := ih
    simp only [List.map_cons, JsonPointer.join_cons, List.length_cons, List.length_append]
    rcases unescape_shorter token with hsame | hshorter
    · rw [hsame]
      refine ⟨by omega, fun hlength => ?_⟩
      simpa [hsame] using heq (by omega)
    · exact ⟨by omega, fun hlength => by omega⟩

theorem count_join (tokens : List (List Char)) : tokens.length ≤ (JsonPointer.join tokens).count '/' := by
  induction tokens with
  | nil => simp
  | cons token rest ih =>
    simp only [JsonPointer.join_cons, List.length_cons, List.count_cons_self, List.count_append]
    omega

theorem count_join_tokens {tokens : List (List Char)} (h : ∀ t ∈ tokens, '/' ∉ t) :
    (JsonPointer.join tokens).count '/' = tokens.length := by
  induction tokens with
  | nil => rfl
  | cons token rest ih =>
    have htoken : token.count '/' = 0 := List.count_eq_zero.2 (h token (by simp))
    simp only [JsonPointer.join_cons, List.length_cons, List.count_cons_self, List.count_append, htoken,
      ih fun t ht => h t (by simp [ht])]
    omega

theorem length_join_take (tokens : List (List Char)) {first second : Nat} (h : first ≤ second) :
    (JsonPointer.join (tokens.take first)).length ≤ (JsonPointer.join (tokens.take second)).length := by
  obtain ⟨more, rfl⟩ := Nat.exists_eq_add_of_le h
  rw [List.take_add, JsonPointer.join_append, List.length_append]
  omega

-- The comparison

/-- `resolve_pointer` gives what the RFC gives, and its error names the shortest
pointer above that refers to nothing. -/
def Faithful (document : Value) (pointer : String) : Prop :=
  match resolvePointer document pointer with
  | .ok value => JsonPointer.resolve node document pointer = some value
  | .error error =>
    JsonPointer.resolve node document pointer = none ∧ ShortestFailing node document pointer error.failedAt

/-- The pointer refers to a value, or is no sequence of tokens, or the first token
that refers to nothing has no child in the code's reading either and no token up
to it has an escape. -/
def Plain (document : Value) (pointer : String) : Prop :=
  JsonPointer.resolve node document pointer ≠ none ∨ JsonPointer.tokens? pointer.toList = none ∨
    ∃ before token after current, JsonPointer.tokens? pointer.toList = some (before ++ token :: after) ∧
      JsonPointer.walk node document before = some current ∧ enter current (decoded token) = none ∧
      ∀ t ∈ before ++ [token], unescape t = t

theorem resolvePointer_resolve {document value : Value} {pointer : String}
    (h : JsonPointer.resolve node document pointer = some value) : resolvePointer document pointer = .ok value := by
  obtain ⟨tokens, htokens, hwalk⟩ := Option.bind_eq_some_iff.1 h
  rw [resolvePointer, parsePointer_tokens htokens]
  exact follow_ok.2 (enter_walk hwalk)

theorem faithful_malformed {document : Value} {pointer : String} (h : JsonPointer.tokens? pointer.toList = none) :
    Faithful document pointer := by
  obtain ⟨error, herror, hfailed⟩ := parsePointer_malformed h
  have hresolve : JsonPointer.resolve node document pointer = none := by rw [JsonPointer.resolve, h]; rfl
  have hresult : resolvePointer document pointer = .error error := by rw [resolvePointer, herror]; rfl
  simp only [Faithful, hresult, hfailed]
  refine ⟨hresolve, .inl rfl, hresolve, ?_⟩
  rintro other (rfl | ⟨tokens, htokens, _⟩) hlt
  · exact absurd hlt (lt_irrefl _)
  · rw [h] at htokens
    cases htokens

section Failing

variable {document current : Value} {pointer : String} {before after : List (List Char)} {token : List Char}

/-- The code stops at a token: its error in terms of the tokens. -/
theorem resolvePointer_stuck (htokens : JsonPointer.tokens? pointer.toList = some (before ++ token :: after))
    (hbefore : (before.map decoded).foldlM enter document = some current) (hstuck : enter current (decoded token) = none) :
    ∃ error, resolvePointer document pointer = .error error ∧
      error.failedAt = String.ofList (JsonPointer.join ((before ++ [token]).map unescape)) := by
  obtain ⟨error, herror, hfailed⟩ := follow_stuck pointer (before.map decoded) (after.map decoded) hstuck
  refine ⟨error, ?_, ?_⟩
  · rw [resolvePointer, parsePointer_tokens htokens, List.map_append, List.map_cons]
    exact (follow_walked hbefore).trans herror
  · rw [hfailed, ← pathOf_decoded (by simp)]
    simp

/-- Every error of a pointer with tokens is of this kind. -/
theorem resolvePointer_error {tokens : List (List Char)} {error : PointerResolutionError}
    (htokens : JsonPointer.tokens? pointer.toList = some tokens) (h : resolvePointer document pointer = .error error) :
    ∃ before token after current, tokens = before ++ token :: after ∧
      (before.map decoded).foldlM enter document = some current ∧ enter current (decoded token) = none := by
  rw [resolvePointer, parsePointer_tokens htokens] at h
  have hfollow : follow pointer [] document (tokens.map decoded) = .error error := h
  obtain ⟨walked, last, rest, current, hsplit, hwalked, hlast, _⟩ := follow_error hfollow
  obtain ⟨before, more, rfl, rfl, hmore⟩ := List.map_eq_append_iff.1 hsplit
  obtain ⟨token, after, rfl, rfl, rfl⟩ := List.map_eq_cons_iff.1 hmore
  exact ⟨before, token, after, current, rfl, hwalked, hlast⟩

/-- Where the code stops, the RFC refers to nothing. -/
theorem walk_stuck (hbefore : (before.map decoded).foldlM enter document = some current)
    (hstuck : enter current (decoded token) = none) :
    JsonPointer.walk node document (before ++ token :: after) = none := by
  cases hwalk : JsonPointer.walk node document (before ++ token :: after) with
  | none => rfl
  | some value =>
    have henter := enter_walk hwalk
    simp [List.foldlM_append, hbefore, hstuck] at henter

/-- The pointers above one with tokens. -/
theorem above_iff {tokens : List (List Char)} {other : String} (htokens : JsonPointer.tokens? pointer.toList = some tokens) :
    JsonPointer.Above other pointer ↔ ∃ count, other = String.ofList (JsonPointer.join (tokens.take count)) := by
  constructor
  · rintro (rfl | ⟨tokens', htokens', count, rfl⟩)
    · refine ⟨tokens.length, ?_⟩
      rw [List.take_length, (JsonPointer.join_tokens? htokens).1, String.ofList_toList]
    · rw [htokens] at htokens'
      cases htokens'
      exact ⟨count, rfl⟩
  · rintro ⟨count, rfl⟩
    exact .inr ⟨tokens, htokens, count, rfl⟩

theorem shortestFailing_of_plain (htokens : JsonPointer.tokens? pointer.toList = some (before ++ token :: after))
    (hbefore : JsonPointer.walk node document before = some current) (hstuck : enter current (decoded token) = none) :
    ShortestFailing node document pointer (String.ofList (JsonPointer.join (before ++ [token]))) := by
  have hslash := (JsonPointer.join_tokens? htokens).2
  have hresolve : ∀ count, JsonPointer.resolve node document
      (String.ofList (JsonPointer.join ((before ++ token :: after).take count))) =
        JsonPointer.walk node document ((before ++ token :: after).take count) := fun count =>
    JsonPointer.resolve_join fun t ht => hslash t (List.mem_of_mem_take ht)
  have htake : (before ++ token :: after).take (before.length + 1) = before ++ [token] := by
    rw [List.take_length_add_append]
    rfl
  refine ⟨(above_iff htokens).2 ⟨before.length + 1, by rw [htake]⟩, ?_, ?_⟩
  · rw [← htake, hresolve, htake]
    exact walk_stuck (enter_walk hbefore) hstuck
  · rintro other habove hlt
    obtain ⟨count, rfl⟩ := (above_iff htokens).1 habove
    rw [hresolve]
    have hcount : count ≤ before.length := by
      by_contra hgt
      have hle := length_join_take (before ++ token :: after) (Nat.succ_le_of_lt (not_le.1 hgt))
      rw [Nat.succ_eq_add_one, htake] at hle
      simp only [String.length_ofList] at hlt
      omega
    rw [List.take_append_of_le_length hcount]
    exact JsonPointer.walk_take (by simp [hbefore])

/-- The text of the decoded tokens is that of a pointer above only if no token has
an escape, and the pointer above is the one the code stopped at. -/
theorem plain_of_shortestFailing (htokens : JsonPointer.tokens? pointer.toList = some (before ++ token :: after))
    (hbefore : (before.map decoded).foldlM enter document = some current)
    (h : ShortestFailing node document pointer (String.ofList (JsonPointer.join ((before ++ [token]).map unescape)))) :
    JsonPointer.walk node document before = some current ∧ ∀ t ∈ before ++ [token], unescape t = t := by
  have hslash := (JsonPointer.join_tokens? htokens).2
  obtain ⟨habove, _, hshortest⟩ := h
  obtain ⟨count, htext⟩ := (above_iff htokens).1 habove
  rw [String.ofList_inj] at htext
  have htake : (before ++ token :: after).take (before.length + 1) = before ++ [token] := by
    rw [List.take_length_add_append]
    rfl
  have hcount : before.length + 1 ≤ count := by
    have hslashes := count_join ((before ++ [token]).map unescape)
    rw [htext, count_join_tokens fun t ht => hslash t (List.mem_of_mem_take ht)] at hslashes
    simp only [List.length_map, List.length_append, List.length_singleton, List.length_take] at hslashes
    omega
  have hsame : ∀ t ∈ before ++ [token], unescape t = t := by
    have hle := length_join_take (before ++ token :: after) hcount
    rw [htake, ← htext] at hle
    obtain ⟨hge, heq⟩ := length_join_unescape (before ++ [token])
    exact heq (le_antisymm hge hle)
  refine ⟨?_, hsame⟩
  have hreached := hshortest (String.ofList (JsonPointer.join before))
    ((above_iff htokens).2 ⟨before.length, by simp⟩)
    (by
      rw [List.map_congr_left hsame, List.map_id', String.length_ofList, String.length_ofList, JsonPointer.join_append,
        JsonPointer.join_cons, List.length_append, List.length_cons]
      omega)
  rw [JsonPointer.resolve_join fun t ht => hslash t (by simp [ht])] at hreached
  obtain ⟨value, hvalue⟩ := Option.ne_none_iff_exists'.1 hreached
  rw [hvalue, ← hbefore, enter_walk hvalue]

end Failing

theorem faithful_iff (document : Value) (pointer : String) : Faithful document pointer ↔ Plain document pointer := by
  constructor
  · intro hfaithful
    by_cases hmalformed : JsonPointer.tokens? pointer.toList = none
    · exact .inr (.inl hmalformed)
    obtain ⟨tokens, htokens⟩ := Option.ne_none_iff_exists'.1 hmalformed
    unfold Faithful at hfaithful
    split at hfaithful
    · next value _ => exact .inl (by simp [hfaithful])
    · next error herror =>
      obtain ⟨before, token, after, current, rfl, hbefore, hstuck⟩ := resolvePointer_error htokens herror
      obtain ⟨_, herror', hfailed⟩ := resolvePointer_stuck htokens hbefore hstuck
      rw [herror] at herror'
      cases herror'
      have hshortest := hfaithful.2
      rw [hfailed] at hshortest
      obtain ⟨hwalk, hsame⟩ := plain_of_shortestFailing htokens hbefore hshortest
      exact .inr (.inr ⟨before, token, after, current, htokens, hwalk, hstuck, hsame⟩)
  · rintro (hresolved | hmalformed | ⟨before, token, after, current, htokens, hbefore, hstuck, hsame⟩)
    · obtain ⟨value, hvalue⟩ := Option.ne_none_iff_exists'.1 hresolved
      simp only [Faithful, resolvePointer_resolve hvalue, hvalue]
    · exact faithful_malformed hmalformed
    · obtain ⟨error, herror, hfailed⟩ := resolvePointer_stuck htokens (enter_walk hbefore) hstuck
      simp only [Faithful, herror, hfailed, List.map_congr_left hsame, List.map_id']
      refine ⟨?_, shortestFailing_of_plain htokens hbefore hstuck⟩
      rw [JsonPointer.resolve, htokens]
      exact walk_stuck (enter_walk hbefore) hstuck

end Pointer

end ChainWeaver
