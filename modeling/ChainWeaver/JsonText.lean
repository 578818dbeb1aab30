import ChainWeaver.Json

/-!
# JSON texts

The compact text that Pydantic writes for a JSON tree, and how Python takes a
text apart into lines.
-/

namespace ChainWeaver

abbrev Text := List Char

-- Lines

/-- Where `str.splitlines` splits. -/
def endsLine (c : Char) : Bool :=
  [0xa, 0xb, 0xc, 0xd, 0x1c, 0x1d, 0x1e, 0x85, 0x2028, 0x2029].contains c.toNat

/-- `str.splitlines`; `line` is the unfinished line, last character first. -/
def splitlinesFrom (line : Text) : Text → List Text
  | [] => if line.isEmpty then [] else [line.reverse]
  | '\r' :: '\n' :: rest => line.reverse :: splitlinesFrom [] rest
  | c :: rest => if endsLine c then line.reverse :: splitlinesFrom [] rest else splitlinesFrom (c :: line) rest

def splitlines (text : Text) : List Text := splitlinesFrom [] text

/-- `str.strip`. -/
def strip (text : Text) : Text :=
  ((text.dropWhile Pointer.isSpace).reverse.dropWhile Pointer.isSpace).reverse

theorem splitlinesFrom_end (text rest line : Text) (h : ∀ d ∈ text, endsLine d = false) (hc : endsLine c = true)
    (hreturn : c ≠ '\r') : splitlinesFrom line (text ++ c :: rest) = (line.reverse ++ text) :: splitlines rest := by
  induction text generalizing line with
  | nil =>
    rw [List.nil_append, splitlinesFrom, if_pos hc, List.append_nil]
    · rfl
    · intro _ hcr
      exact absurd hcr hreturn
  | cons d text ih =>
    rw [List.forall_mem_cons] at h
    have hr : d ≠ '\r' := by
      rintro rfl
      simp [endsLine] at h
    rw [List.cons_append, splitlinesFrom]
    · rw [if_neg (by simp [h.1]), ih _ h.2]
      simp
    · intro _ hcr
      exact absurd hcr hr

theorem splitlines_end (h : ∀ d ∈ text, endsLine d = false) (hc : endsLine c = true) (hreturn : c ≠ '\r') :
    splitlines (text ++ c :: rest) = text :: splitlines rest :=
  splitlinesFrom_end text rest [] h hc hreturn

theorem splitlines_line (h : ∀ c ∈ text, endsLine c = false) :
    splitlines (text ++ '\n' :: rest) = text :: splitlines rest :=
  splitlines_end h (by decide) (by decide)

theorem strip_eq_self (first last : Char) (inner : Text) (hfirst : Pointer.isSpace first = false)
    (hlast : Pointer.isSpace last = false) : strip (first :: inner ++ [last]) = first :: inner ++ [last] := by
  simp [strip, hfirst, hlast]

-- Writing

/-- How a float is written: in visible ASCII characters. -/
structure FloatText where
  write : Rat → Text
  visible : ∀ value, ∀ c ∈ write value, 0x20 ≤ c.toNat ∧ c.toNat < 0x7f

/-- The characters with an escape of their own, each with the letter that stands for it. -/
def shortEscapes : List (Char × Char) :=
  [('"', '"'), ('\\', '\\'), ('\x08', 'b'), ('\t', 't'), ('\n', 'n'), ('\x0c', 'f'), ('\r', 'r')]

def escape (c : Char) : Text :=
  match shortEscapes.lookup c with
  | some letter => ['\\', letter]
  | none =>
    if c.toNat < 0x20 then ['\\', 'u', '0', '0', (c.toNat / 16).digitChar, (c.toNat % 16).digitChar]
    else [c]

def quoted (s : String) : Text := '"' :: s.toList.flatMap escape ++ ['"']

/-- The texts with commas between them. -/
def commaSeparated : List Text → Text
  | [] => []
  | [text] => text
  | text :: rest => text ++ ',' :: commaSeparated rest

namespace Json

variable (floats : FloatText)

def floatText : PyFloat → Text
  | .finite value => floats.write value
  | .infinite => "Infinity".toList
  | .negInfinite => "-Infinity".toList
  | .nan => "NaN".toList

mutual

def text : Json → Text
  | .null => "null".toList
  | .bool true => "true".toList
  | .bool false => "false".toList
  | .int i => (toString i).toList
  | .float f => floatText floats f
  | .str s => quoted s
  | .array items => '[' :: commaSeparated (textItems items) ++ [']']
  | .object entries => '{' :: commaSeparated (textEntries entries) ++ ['}']

def textItems : List Json → List Text
  | [] => []
  | item :: rest => text item :: textItems rest

def textEntries : List (String × Json) → List Text
  | [] => []
  | (key, json) :: rest => (quoted key ++ ':' :: text json) :: textEntries rest

end

mutual

/-- The strings of the tree, keys included. -/
def strings : Json → List String
  | .str s => [s]
  | .array items => stringsItems items
  | .object entries => stringsEntries entries
  | _ => []

def stringsItems : List Json → List String
  | [] => []
  | item :: rest => strings item ++ stringsItems rest

def stringsEntries : List (String × Json) → List String
  | [] => []
  | (key, json) :: rest => key :: strings json ++ stringsEntries rest

end

end Json

-- The characters of a text

/-- A visible ASCII character. -/
def Visible (c : Char) : Prop := 0x20 ≤ c.toNat ∧ c.toNat < 0x7f

instance : DecidablePred Visible := fun _ => inferInstanceAs (Decidable (_ ∧ _))

theorem visible_of_all (text : Text) (h : text.all (fun c => decide (Visible c)) = true)
    (hc : c ∈ text) : Visible c :=
  of_decide_eq_true (List.all_eq_true.1 h c hc)

theorem Visible.not_endsLine (h : Visible c) : endsLine c = false := by
  obtain ⟨hlow, hhigh⟩ := h
  have hne : ∀ n ∈ [0xa, 0xb, 0xc, 0xd, 0x1c, 0x1d, 0x1e, 0x85, 0x2028, 0x2029], n ≠ c.toNat := by
    simp only [List.forall_mem_cons, List.not_mem_nil, false_imp_iff, implies_true, and_true]
    omega
  rw [endsLine, List.contains_eq_any_beq, List.any_eq_false]
  intro n hn
  simpa using (hne n hn).symm

theorem digitChar_visible (h : n < 16) : Visible n.digitChar := by
  have hall : ∀ m : Fin 16, Visible m.val.digitChar := by decide
  exact hall ⟨n, h⟩

theorem shortEscapes_visible (h : shortEscapes.lookup c = some letter) : Visible letter := by
  have hall : ∀ entry ∈ shortEscapes, Visible entry.2 := by decide
  obtain ⟨before, after, hentries, -⟩ := List.lookup_eq_some_iff.1 h
  exact hall (c, letter) (by simp [hentries])

theorem mem_escape (h : d ∈ escape c) : Visible d ∨ (d = c ∧ 0x20 ≤ c.toNat) := by
  unfold escape at h
  split at h
  · next letter hletter =>
    have hslash : Visible '\\' := by decide
    obtain rfl | hd := List.mem_cons.1 h
    · exact .inl hslash
    · rw [List.mem_singleton.1 hd]
      exact .inl (shortEscapes_visible hletter)
  · by_cases hc : c.toNat < 0x20
    · rw [if_pos hc] at h
      have hhigh : Visible (c.toNat / 16).digitChar := digitChar_visible (by omega)
      have hlow : Visible (c.toNat % 16).digitChar := digitChar_visible (by omega)
      have hfixed : ∀ e ∈ ['\\', 'u', '0', '0'], Visible e := fun _ => visible_of_all _ (by decide)
      have hall : ∀ e ∈ ['\\', 'u', '0', '0'] ++ [(c.toNat / 16).digitChar, (c.toNat % 16).digitChar],
          Visible e := by
        simp only [List.forall_mem_append, List.forall_mem_cons, List.not_mem_nil, false_imp_iff,
          implies_true, and_true]
        exact ⟨by simpa using hfixed, hhigh, hlow⟩
      exact .inl (hall d h)
    · rw [if_neg hc] at h
      exact .inr ⟨List.mem_singleton.1 h, not_lt.1 hc⟩

/-- A character that JSON leaves as it is in a string of `names`. -/
def Verbatim (names : List String) (c : Char) : Prop := 0x20 ≤ c.toNat ∧ ∃ s ∈ names, c ∈ s.toList

theorem Verbatim.mono (h : Verbatim names c) (hsub : names ⊆ names') : Verbatim names' c :=
  ⟨h.1, h.2.imp fun _ hs => ⟨hsub hs.1, hs.2⟩⟩

theorem mem_quoted (h : c ∈ quoted s) : Visible c ∨ Verbatim [s] c := by
  have hquote : Visible '"' := by decide
  simp only [quoted, List.cons_append, List.mem_cons, List.mem_append, List.mem_flatMap,
    List.not_mem_nil, or_false] at h
  obtain rfl | ⟨d, hd, hc⟩ | rfl := h
  · exact .inl hquote
  · rcases mem_escape hc with hvisible | ⟨rfl, hlow⟩
    · exact .inl hvisible
    · exact .inr ⟨hlow, s, List.mem_singleton.2 rfl, hd⟩
  · exact .inl hquote

theorem mem_commaSeparated (texts : List Text) (h : c ∈ commaSeparated texts) :
    c = ',' ∨ ∃ text ∈ texts, c ∈ text := by
  induction texts with
  | nil => simp [commaSeparated] at h
  | cons text rest ih =>
    cases rest with
    | nil => exact .inr ⟨text, List.mem_singleton.2 rfl, h⟩
    | cons next rest =>
      rw [commaSeparated, List.mem_append, List.mem_cons] at h
      · obtain h | rfl | h := h
        · exact .inr ⟨text, List.mem_cons_self, h⟩
        · exact .inl rfl
        · exact (ih h).imp_right fun ⟨t, ht, hc⟩ => ⟨t, List.mem_cons_of_mem _ ht, hc⟩
      · exact List.cons_ne_nil _ _

theorem repr_visible (n : Nat) (h : c ∈ n.repr.toList) : Visible c := by
  rw [Nat.toList_repr] at h
  have hdigit := Nat.isDigit_of_mem_toDigits (by decide) (by decide) h
  simp only [Char.isDigit, Bool.and_eq_true, decide_eq_true_eq] at hdigit
  have hlow : (48 : UInt32).toNat ≤ c.val.toNat := hdigit.1
  have hhigh : c.val.toNat ≤ (57 : UInt32).toNat := hdigit.2
  change (48 : Nat) ≤ c.toNat at hlow
  change c.toNat ≤ (57 : Nat) at hhigh
  exact ⟨by omega, by omega⟩

theorem toString_visible (i : Int) (h : c ∈ (toString i).toList) : Visible c := by
  cases i with
  | ofNat n => exact repr_visible n h
  | negSucc n =>
    have hminus : Visible '-' := by decide
    have htext : (toString (Int.negSucc n)).toList = '-' :: (n + 1).repr.toList := by
      change ("-" ++ (n + 1).repr).toList = _
      rw [String.toList_append]
      rfl
    rw [htext, List.mem_cons] at h
    obtain rfl | h := h
    · exact hminus
    · exact repr_visible (n + 1) h

namespace Json

variable {floats : FloatText}

theorem floatText_visible (f : PyFloat) (h : c ∈ floatText floats f) : Visible c := by
  cases f with
  | finite value => exact floats.visible value c h
  | infinite => exact visible_of_all "Infinity".toList (by decide) h
  | negInfinite => exact visible_of_all "-Infinity".toList (by decide) h
  | nan => exact visible_of_all "NaN".toList (by decide) h

mutual

theorem mem_text (json : Json) (h : c ∈ json.text floats) : Visible c ∨ Verbatim json.strings c := by
  match json with
  | .null => exact .inl (visible_of_all "null".toList (by decide) h)
  | .bool true => exact .inl (visible_of_all "true".toList (by decide) h)
  | .bool false => exact .inl (visible_of_all "false".toList (by decide) h)
  | .int i => exact .inl (toString_visible i h)
  | .float f => exact .inl (floatText_visible f h)
  | .str s => exact mem_quoted h
  | .array items =>
    have hbrackets : ∀ c ∈ ['[', ',', ']'], Visible c := fun _ => visible_of_all _ (by decide)
    simp only [text, List.cons_append, List.mem_cons, List.mem_append, List.not_mem_nil, or_false] at h
    obtain rfl | h | rfl := h
    · exact .inl (hbrackets _ (by simp))
    · obtain rfl | ⟨t, ht, hc⟩ := mem_commaSeparated _ h
      · exact .inl (hbrackets _ (by simp))
      · exact mem_textItems items ht hc
    · exact .inl (hbrackets _ (by simp))
  | .object entries =>
    have hbraces : ∀ c ∈ ['{', ',', '}'], Visible c := fun _ => visible_of_all _ (by decide)
    simp only [text, List.cons_append, List.mem_cons, List.mem_append, List.not_mem_nil, or_false] at h
    obtain rfl | h | rfl := h
    · exact .inl (hbraces _ (by simp))
    · obtain rfl | ⟨t, ht, hc⟩ := mem_commaSeparated _ h
      · exact .inl (hbraces _ (by simp))
      · exact mem_textEntries entries ht hc
    · exact .inl (hbraces _ (by simp))

theorem mem_textItems (items : List Json) (ht : t ∈ textItems floats items) (h : c ∈ t) :
    Visible c ∨ Verbatim (stringsItems items) c := by
  match items with
  | item :: rest =>
    obtain rfl | ht := List.mem_cons.1 ht
    · exact (mem_text item h).imp_right (·.mono (List.subset_append_left _ _))
    · exact (mem_textItems rest ht h).imp_right (·.mono (List.subset_append_right _ _))

theorem mem_textEntries (entries : List (String × Json)) (ht : t ∈ textEntries floats entries)
    (h : c ∈ t) : Visible c ∨ Verbatim (stringsEntries entries) c := by
  match entries with
  | (key, json) :: rest =>
    have hcolon : Visible ':' := by decide
    rw [stringsEntries]
    obtain rfl | ht := List.mem_cons.1 ht
    · simp only [List.mem_append, List.mem_cons] at h
      obtain h | rfl | h := h
      · exact (mem_quoted h).imp_right (·.mono (by simp))
      · exact .inl hcolon
      · exact (mem_text json h).imp_right (·.mono (by simp))
    · exact (mem_textEntries rest ht h).imp_right (·.mono (by simp))

end

/-- Of the characters that end a line, JSON escapes all but three. -/
theorem endsLine_text {json : Json} (h : c ∈ json.text floats) (hends : endsLine c = true) :
    c ∈ ['\u0085', '\u2028', '\u2029'] ∧ ∃ s ∈ json.strings, c ∈ s.toList := by
  rcases mem_text json h with hvisible | ⟨hlow, hs⟩
  · rw [hvisible.not_endsLine] at hends
    cases hends
  · refine ⟨?_, hs⟩
    have hcode : c.toNat = 0x85 ∨ c.toNat = 0x2028 ∨ c.toNat = 0x2029 := by
      simp only [endsLine, List.contains_iff_mem, List.mem_cons, List.not_mem_nil, or_false] at hends
      omega
    have hchar : ∀ d : Char, c.toNat = d.toNat → c = d := fun d hd => Char.toNat_inj.1 hd
    simp only [List.mem_cons, List.not_mem_nil, or_false]
    exact hcode.imp (hchar _) (Or.imp (hchar _) (hchar _))

end Json

/-- Floats that all print alike. -/
def FloatText.half : FloatText where
  write _ := "0.5".toList
  visible _ _ := visible_of_all _ (by decide)

end ChainWeaver
