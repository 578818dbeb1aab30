import Mathlib.Data.List.Basic

/-!
# JSON pointers

What RFC 6901 gives for a pointer in a document: the syntax of reference tokens,
their escapes, and the walk through objects and arrays. A document is any type
with a view of its objects and arrays.
-/

namespace JsonPointer

/-- What a document shows at its root. -/
inductive Node (α : Type)
  | object (member : String → Option α)
  | array (elements : List α)
  | leaf

-- Reference tokens

/-- The text a reference token stands for: a `~` has a `0` or a `1` after it. -/
def decode : List Char → Option (List Char)
  | [] => some []
  | c :: rest =>
    if c = '~' then
      match rest with
      | '0' :: tail => (decode tail).map ('~' :: ·)
      | '1' :: tail => (decode tail).map ('/' :: ·)
      | _ => none
    else (decode rest).map (c :: ·)

def escape (c : Char) : List Char :=
  if c = '~' then ['~', '0'] else if c = '/' then ['~', '1'] else [c]

def encode (text : List Char) : List Char := text.flatMap escape

theorem decode_cons {c : Char} {rest : List Char} (h : c ≠ '~') : decode (c :: rest) = (decode rest).map (c :: ·) := by
  rw [decode.eq_def]
  simp only [if_neg h]

theorem decode_encode (text : List Char) : decode (encode text) = some text := by
  induction text with
  | nil => rfl
  | cons c rest ih =>
    have hrest : decode (rest.flatMap escape) = some rest := ih
    rw [encode, List.flatMap_cons, escape]
    split
    · next h => simp [decode, hrest, h]
    · next hne =>
      split
      · next h => simp [decode, hrest, h]
      · simp [decode_cons hne, hrest]

theorem slash_not_mem_encode (text : List Char) : '/' ∉ encode text := by
  simp only [encode, List.mem_flatMap, not_exists, not_and]
  intro c _
  unfold escape
  split
  · decide
  · split
    · decide
    · next h => simp [Ne.symm h]

/-- `0`, or digits that do not start with `0`. -/
def isIndex : List Char → Bool
  | [] => false
  | ['0'] => true
  | c :: rest => c != '0' && (c :: rest).all Char.isDigit

def index? (token : List Char) : Option Nat :=
  if isIndex token then some (Nat.ofDigitChars 10 token 0) else none

theorem isIndex_digits {token : List Char} (h : isIndex token = true) :
    token ≠ [] ∧ ∀ c ∈ token, c.isDigit = true := by
  unfold isIndex at h
  split at h
  · cases h
  · simp
  · simp only [Bool.and_eq_true, List.all_eq_true] at h
    exact ⟨by simp, h.2⟩

theorem head?_toDigits {n : Nat} (h : 0 < n) : (Nat.toDigits 10 n).head? ≠ some '0' := by
  induction n using Nat.base_induction 10 (by decide) with
  | single m hm =>
    rw [Nat.toDigits_of_lt_base hm]
    have hne : m ≠ 0 := Nat.pos_iff_ne_zero.1 h
    simpa using hne
  | digit m k hk hm ih =>
    rw [← Nat.toDigits_append_toDigits (by decide) hm hk, List.head?_append_of_ne_nil _ Nat.toDigits_ne_nil]
    exact ih hm

theorem isIndex_toDigits (n : Nat) : isIndex (Nat.toDigits 10 n) = true := by
  rcases Nat.eq_zero_or_pos n with hzero | hpos
  · subst hzero
    decide
  · have hdigits : ∀ c ∈ Nat.toDigits 10 n, c.isDigit = true := fun c hc =>
      Nat.isDigit_of_mem_toDigits (by decide) (by decide) hc
    have hhead := head?_toDigits hpos
    have hne : Nat.toDigits 10 n ≠ [] := Nat.toDigits_ne_nil
    generalize Nat.toDigits 10 n = token at *
    unfold isIndex
    split
    · exact absurd rfl hne
    · rfl
    · simp_all

theorem index?_toDigits (n : Nat) : index? (Nat.toDigits 10 n) = some n := by
  simp [index?, isIndex_toDigits, Nat.ofDigitChars_ten_toDigits]

-- Pointers and the walk

/-- The reference tokens of a pointer, still escaped. -/
def tokens? : List Char → Option (List (List Char))
  | [] => some []
  | c :: rest => if c = '/' then some (rest.splitOn '/') else none

def join (tokens : List (List Char)) : List Char := tokens.flatMap ('/' :: ·)

@[simp] theorem join_nil : join [] = [] := rfl

@[simp] theorem join_cons (token : List Char) (rest : List (List Char)) :
    join (token :: rest) = '/' :: (token ++ join rest) := rfl

@[simp] theorem join_append (first second : List (List Char)) : join (first ++ second) = join first ++ join second := by
  simp [join]

theorem splitOn_join {token : List Char} {rest : List (List Char)} (htoken : '/' ∉ token) (hrest : ∀ t ∈ rest, '/' ∉ t) :
    (token ++ join rest).splitOn '/' = token :: rest := by
  induction rest generalizing token with
  | nil => simpa using List.splitOn_eq_singleton htoken
  | cons next rest ih =>
    rw [join_cons, List.splitOn_append_cons_self_of_not_mem htoken,
      ih (hrest next (by simp)) fun t ht => hrest t (by simp [ht])]

theorem tokens?_join {tokens : List (List Char)} (h : ∀ t ∈ tokens, '/' ∉ t) : tokens? (join tokens) = some tokens := by
  cases tokens with
  | nil => rfl
  | cons token rest =>
    rw [join_cons, tokens?, if_pos rfl, splitOn_join (h token (by simp)) fun t ht => h t (by simp [ht])]

theorem splitOn_head (text : List Char) : ∃ rest, text.splitOn '/' = text.takeWhile (· ≠ '/') :: rest := by
  induction text with
  | nil => exact ⟨[], by simp⟩
  | cons c text ih =>
    obtain ⟨rest, hrest⟩ := ih
    rw [List.splitOn_cons_eq_if_modifyHead]
    by_cases hc : c = '/'
    · exact ⟨_, by simp [hc]; rfl⟩
    · exact ⟨rest, by simp [hc, hrest]⟩

theorem splitOn_spec (text : List Char) :
    join (text.splitOn '/') = '/' :: text ∧ ∀ t ∈ text.splitOn '/', '/' ∉ t := by
  induction text with
  | nil => simp
  | cons c rest ih =>
    obtain ⟨hjoin, hmem⟩ := ih
    rw [List.splitOn_cons_eq_if_modifyHead]
    split
    · next h => simp_all
    · next h =>
      have hne : '/' ≠ c := fun heq => h (by simp [← heq])
      generalize hparts : rest.splitOn '/' = parts at *
      cases parts with
      | nil => simp at hjoin
      | cons token tail =>
        simp only [join_cons, List.cons.injEq, true_and] at hjoin
        simp_all

theorem join_tokens? {pointer : List Char} {tokens : List (List Char)} (h : tokens? pointer = some tokens) :
    join tokens = pointer ∧ ∀ t ∈ tokens, '/' ∉ t := by
  unfold tokens? at h
  split at h
  · cases h
    simp
  · split at h
    · next hslash =>
      cases h
      rw [hslash]
      exact splitOn_spec _
    · cases h

section Walk

variable {α : Type} (node : α → Node α)

/-- The part of `current` that a reference token, still escaped, refers to. -/
def step (current : α) (token : List Char) : Option α :=
  (decode token).bind fun text =>
    match node current with
    | .object member => member (String.ofList text)
    | .array elements => (index? text).bind (elements[·]?)
    | .leaf => none

def walk : α → List (List Char) → Option α
  | current, [] => some current
  | current, token :: rest => (step node current token).bind (walk · rest)

/-- What the pointer refers to in the document. -/
def resolve (document : α) (pointer : String) : Option α :=
  (tokens? pointer.toList).bind (walk node document)

/-- `short` is made of the first reference tokens of `pointer`. -/
def Above (short pointer : String) : Prop :=
  short = pointer ∨
    ∃ tokens, tokens? pointer.toList = some tokens ∧ ∃ count, short = String.ofList (join (tokens.take count))

/-- The shortest of the pointers above `pointer` that refer to nothing. -/
structure ShortestFailing (document : α) (pointer failed : String) : Prop where
  above : Above failed pointer
  fails : resolve node document failed = none
  shortest : ∀ other, Above other pointer → other.length < failed.length → resolve node document other ≠ none

variable {node} {document current : α} {pointer : String}

theorem walk_append (before after : List (List Char)) :
    walk node document (before ++ after) = (walk node document before).bind (walk node · after) := by
  induction before generalizing document with
  | nil => rfl
  | cons token rest ih =>
    cases hstep : step node document token with
    | none => simp [walk, hstep]
    | some next => simpa [walk, hstep] using ih

theorem resolve_join {tokens : List (List Char)} (h : ∀ t ∈ tokens, '/' ∉ t) :
    resolve node document (String.ofList (join tokens)) = walk node document tokens := by
  rw [resolve, String.toList_ofList, tokens?_join h]
  rfl

/-- A walk that comes to an end passes every place before it. -/
theorem walk_take {tokens : List (List Char)} {count : Nat} (h : walk node document tokens ≠ none) :
    walk node document (tokens.take count) ≠ none := by
  intro hnone
  rw [← List.take_append_drop count tokens, walk_append, hnone] at h
  exact h rfl

-- Paths

inductive Key
  | member (name : String)
  | element (position : Nat)

def Key.token : Key → List Char
  | .member name => encode name.toList
  | .element position => Nat.toDigits 10 position

/-- The pointer with the keys escaped. -/
def pointerTo (path : List Key) : String := String.ofList (join (path.map Key.token))

variable (node) in
/-- The value at a path of keys and positions. -/
def at? : α → List Key → Option α
  | current, [] => some current
  | current, key :: rest =>
    match node current, key with
    | .object member, .member name => (member name).bind (at? · rest)
    | .array elements, .element position => (elements[position]?).bind (at? · rest)
    | _, _ => none

theorem Key.slash_not_mem_token (key : Key) : '/' ∉ key.token := by
  cases key with
  | member name => exact slash_not_mem_encode _
  | element position => exact fun h => absurd (Nat.isDigit_of_mem_toDigits (by decide) (by decide) h) (by decide)

theorem decode_of_isDigit {token : List Char} (h : ∀ c ∈ token, c.isDigit = true) : decode token = some token := by
  induction token with
  | nil => rfl
  | cons c rest ih =>
    have hne : c ≠ '~' := fun heq => absurd (h c (by simp)) (by simp [heq])
    rw [decode_cons hne, ih fun d hd => h d (by simp [hd])]
    rfl

theorem decode_toDigits (n : Nat) : decode (Nat.toDigits 10 n) = some (Nat.toDigits 10 n) :=
  decode_of_isDigit fun _ hc => Nat.isDigit_of_mem_toDigits (by decide) (by decide) hc

/-- The pointer to a path refers to the value at the path. -/
theorem resolve_pointerTo {path : List Key} {value : α} (h : at? node document path = some value) :
    resolve node document (pointerTo path) = some value := by
  rw [pointerTo, resolve_join (by simpa using fun key _ => Key.slash_not_mem_token key)]
  induction path generalizing document with
  | nil => exact h
  | cons key rest ih =>
    unfold at? at h
    split at h
    · next member name hnode =>
      obtain ⟨next, hmember, hrest⟩ := Option.bind_eq_some_iff.1 h
      simp [walk, step, Key.token, decode_encode, hnode, hmember, ih hrest]
    · next elements position hnode =>
      obtain ⟨next, helement, hrest⟩ := Option.bind_eq_some_iff.1 h
      simp [walk, step, Key.token, decode_toDigits, index?_toDigits, hnode, helement, ih hrest]
    · cases h

end Walk

end JsonPointer
