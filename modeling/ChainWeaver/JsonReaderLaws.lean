import ChainWeaver.Data.JsonPointer
import ChainWeaver.JsonReader

/-!
# JSON texts read back

A text that was dumped is read back, and the text of an object is not read before its end.
-/

namespace ChainWeaver

open Scanning

-- Strings

theorem hexDigit_digitChar (h : n < 16) : hexDigit n.digitChar = some n := by
  have hall : ∀ m : Fin 16, hexDigit m.val.digitChar = some m.val := by decide
  exact hall ⟨n, h⟩

theorem hexUnit_digitChars (h : n < 0x10000) :
    hexUnit (n / 0x1000).digitChar (n / 0x100 % 16).digitChar (n / 16 % 16).digitChar (n % 16).digitChar = some n := by
  have hvalue : n / 0x1000 * 0x1000 + n / 0x100 % 16 * 0x100 + n / 16 % 16 * 0x10 + n % 16 = n := by omega
  have hhigh : hexDigit (n / 0x1000).digitChar = some (n / 0x1000) := hexDigit_digitChar (by omega)
  have hothers : ∀ m, hexDigit (m % 16).digitChar = some (m % 16) := fun m =>
    hexDigit_digitChar (Nat.mod_lt m (by decide))
  simp [hexUnit, hhigh, hothers, hvalue]

/-- The code units of a character in UTF-16. -/
def utf16 (c : Char) : List Nat :=
  if c.toNat < 0x10000 then [c.toNat]
  else [0xd800 + (c.toNat - 0x10000) / 0x400, 0xdc00 + (c.toNat - 0x10000) % 0x400]

theorem toNat_valid (c : Char) : c.toNat < 0xd800 ∨ 0xdfff < c.toNat ∧ c.toNat < 0x110000 := c.valid

theorem scanUnits_quote (rest : Text) : scanUnits ('"' :: rest) = some ([], rest) := by
  rw [scanUnits.eq_def]
  simp

theorem scanUnits_raw (hquote : c ≠ '"') (hslash : c ≠ '\\') (rest : Text) : scanUnits (c :: rest) =
    if c.toNat < 0x20 then none else (scanUnits rest).map fun taken => (c.toNat :: taken.1, taken.2) := by
  rw [scanUnits.eq_def]
  simp [hquote, hslash]

theorem scanUnits_unit (h : n < 0x10000) (rest : Text) : scanUnits (escapeAscii.unit n ++ rest) =
    (scanUnits rest).map fun taken => (n :: taken.1, taken.2) := by
  simp [escapeAscii.unit, scanUnits, hexUnit_digitChars h]

theorem scanUnits_letter (h : (c, letter) ∈ shortEscapes) (rest : Text) : scanUnits ('\\' :: letter :: rest) =
    (scanUnits rest).map fun taken => (c.toNat :: taken.1, taken.2) := by
  simp only [shortEscapes, List.mem_cons, Prod.mk.injEq, List.not_mem_nil, or_false] at h
  rcases h with ⟨rfl, rfl⟩ | ⟨rfl, rfl⟩ | ⟨rfl, rfl⟩ | ⟨rfl, rfl⟩ | ⟨rfl, rfl⟩ | ⟨rfl, rfl⟩ | ⟨rfl, rfl⟩ <;>
    simp [scanUnits, escapeLetters, List.lookup]

theorem mem_of_lookup [BEq κ] [LawfulBEq κ] {key : κ} {entries : List (κ × ν)} (h : entries.lookup key = some value) :
    (key, value) ∈ entries := by
  obtain ⟨before, after, rfl, -⟩ := List.lookup_eq_some_iff.1 h
  simp

theorem scanUnits_plain (h : shortEscapes.lookup c = none) (hlow : 0x20 ≤ c.toNat) (rest : Text) :
    scanUnits (c :: rest) = (scanUnits rest).map fun taken => (c.toNat :: taken.1, taken.2) := by
  have hquote : c ≠ '"' := by
    rintro rfl
    cases h
  have hslash : c ≠ '\\' := by
    rintro rfl
    cases h
  rw [scanUnits_raw hquote hslash, if_neg (Nat.not_lt.2 hlow)]

theorem scanUnits_escape (c : Char) (rest : Text) : scanUnits (escape c ++ rest) =
    (scanUnits rest).map fun taken => (c.toNat :: taken.1, taken.2) := by
  unfold escape
  split
  · next letter hletter => exact scanUnits_letter (mem_of_lookup hletter) rest
  · next hnone =>
    split
    · next hlow =>
      have hunit : hexUnit '0' '0' (c.toNat / 16).digitChar (c.toNat % 16).digitChar = some c.toNat := by
        have hdigits : hexDigit (c.toNat / 16).digitChar = some (c.toNat / 16) ∧
            hexDigit (c.toNat % 16).digitChar = some (c.toNat % 16) :=
          ⟨hexDigit_digitChar (by omega), hexDigit_digitChar (by omega)⟩
        have hzero : hexDigit '0' = some 0 := by decide
        have hvalue : c.toNat / 16 * 16 + c.toNat % 16 = c.toNat := by omega
        simp [hexUnit, hdigits, hzero, hvalue]
      simp [scanUnits, hunit]
    · next hlow => exact scanUnits_plain hnone (not_lt.1 hlow) rest

theorem scanUnits_escapeAscii (c : Char) (rest : Text) : scanUnits (escapeAscii c ++ rest) =
    (scanUnits rest).map fun taken => (utf16 c ++ taken.1, taken.2) := by
  unfold escapeAscii
  split
  · next letter hletter =>
    have hsmall : ∀ entry ∈ shortEscapes, entry.1.toNat < 0x10000 := by decide
    have hmem := mem_of_lookup hletter
    rw [utf16, if_pos (hsmall _ hmem)]
    exact scanUnits_letter hmem rest
  · next hnone =>
    split
    · next hvisible =>
      obtain ⟨hlow, hhigh⟩ := hvisible
      rw [utf16, if_pos (by omega)]
      exact scanUnits_plain hnone hlow rest
    · split
      · next hsmall =>
        rw [utf16, if_pos hsmall]
        exact scanUnits_unit hsmall rest
      · next hlarge =>
        have hvalid := toNat_valid c
        rw [List.append_assoc, scanUnits_unit (by omega), scanUnits_unit (by omega), utf16, if_neg hlarge, Option.map_map]
        rfl

theorem joinUnits_toNat (c : Char) (units : List Nat) : joinUnits (c.toNat :: units) = (joinUnits units).map (c :: ·) := by
  have hvalid := toNat_valid c
  have hhigh : isHighSurrogate c.toNat = false := by
    simp only [isHighSurrogate, Bool.and_eq_false_iff, decide_eq_false_iff_not]
    omega
  have hlow : isLowSurrogate c.toNat = false := by
    simp only [isLowSurrogate, Bool.and_eq_false_iff, decide_eq_false_iff_not]
    omega
  rw [joinUnits.eq_def]
  simp only [hhigh, hlow, Bool.false_eq_true, if_false, Char.ofNat_toNat]

theorem joinUnits_utf16 (c : Char) (units : List Nat) : joinUnits (utf16 c ++ units) = (joinUnits units).map (c :: ·) := by
  unfold utf16
  split
  · exact joinUnits_toNat c units
  · next hlarge =>
    have hvalid := toNat_valid c
    have hhigh : isHighSurrogate (0xd800 + (c.toNat - 0x10000) / 0x400) = true := by
      simp only [isHighSurrogate, Bool.and_eq_true, decide_eq_true_eq]
      omega
    have hlow : isLowSurrogate (0xdc00 + (c.toNat - 0x10000) % 0x400) = true := by
      simp only [isLowSurrogate, Bool.and_eq_true, decide_eq_true_eq]
      omega
    have hcode : 0x10000 + (0xd800 + (c.toNat - 0x10000) / 0x400 - 0xd800) * 0x400 +
        (0xdc00 + (c.toNat - 0x10000) % 0x400 - 0xdc00) = c.toNat := by omega
    rw [joinUnits.eq_def]
    simp only [List.cons_append, List.nil_append, hhigh, hlow, if_true, hcode, Char.ofNat_toNat]

namespace DumpFormat

variable {format : DumpFormat}

def units (format : DumpFormat) (c : Char) : List Nat := if format.ensureAscii then utf16 c else [c.toNat]

theorem scanUnits_escaped (c : Char) (rest : Text) : scanUnits (format.escaped c ++ rest) =
    (scanUnits rest).map fun taken => (format.units c ++ taken.1, taken.2) := by
  unfold escaped units
  split
  · exact scanUnits_escapeAscii c rest
  · exact scanUnits_escape c rest

theorem joinUnits_units (c : Char) (units : List Nat) :
    joinUnits (format.units c ++ units) = (joinUnits units).map (c :: ·) := by
  unfold DumpFormat.units
  split
  · exact joinUnits_utf16 c units
  · exact joinUnits_toNat c units

/-- A quoted string is read back. -/
theorem readString_quotes (s : String) (rest : Text) :
    readString (s.toList.flatMap format.escaped ++ '"' :: rest) = some (s, rest) := by
  have hscan : ∀ text : Text, scanUnits (text.flatMap format.escaped ++ '"' :: rest) =
      some (text.flatMap format.units, rest) := by
    intro text
    induction text with
    | nil => exact scanUnits_quote rest
    | cons c text ih => rw [List.flatMap_cons, List.append_assoc, scanUnits_escaped, ih, List.flatMap_cons]; rfl
  have hjoin : ∀ text : Text, joinUnits (text.flatMap format.units) = some text := by
    intro text
    induction text with
    | nil => rfl
    | cons c text ih => rw [List.flatMap_cons, joinUnits_units, ih]; rfl
  simp [readString, hscan, hjoin]

end DumpFormat

theorem scanUnits_closed : Closed scanUnits := by
  intro text units rest h more
  fun_induction scanUnits text generalizing units rest with
  | case1 | case5 | case6 => cases h
  | case2 text =>
    obtain ⟨rfl, rfl⟩ := Prod.mk.inj (Option.some.inj h)
    exact scanUnits_quote _
  | case3 a b c d text _ ih =>
    obtain ⟨unit, hunit, h⟩ := Option.bind_eq_some_iff.1 h
    obtain ⟨later, hlater, rfl⟩ := map_cons_eq_some.1 h
    rw [List.cons_append, List.cons_append, List.cons_append, List.cons_append, List.cons_append, List.cons_append,
      scanUnits.eq_2]
    simp [hunit, ih _ _ hlater]
  | case4 letter text hnot _ ih =>
    obtain ⟨c, hc, h⟩ := Option.bind_eq_some_iff.1 h
    obtain ⟨later, hlater, rfl⟩ := map_cons_eq_some.1 h
    have hletter : letter ≠ 'u' := by
      rintro rfl
      cases hc
    rw [List.cons_append, List.cons_append, scanUnits.eq_3 _ _ _ fun _ _ _ _ _ hu => absurd hu hletter]
    simp [hc, ih _ _ hlater]
  | case7 c text hquote hslash hlow ih =>
    obtain ⟨later, hlater, rfl⟩ := map_cons_eq_some.1 h
    rw [List.cons_append, scanUnits_raw hquote hslash, if_neg hlow, ih _ _ hlater]
    rfl

theorem scanUnits_consuming : Consuming scanUnits := by
  intro text units rest h
  fun_induction scanUnits text generalizing units rest with
  | case1 | case5 | case6 => cases h
  | case2 text =>
    obtain ⟨rfl, rfl⟩ := Prod.mk.inj (Option.some.inj h)
    exact Nat.lt_succ_self _
  | case3 a b c d text _ ih =>
    obtain ⟨unit, -, h⟩ := Option.bind_eq_some_iff.1 h
    obtain ⟨later, hlater, rfl⟩ := map_cons_eq_some.1 h
    have hlength := ih _ _ hlater
    simp only [List.length_cons]
    omega
  | case4 letter text _ _ ih =>
    obtain ⟨c, -, h⟩ := Option.bind_eq_some_iff.1 h
    obtain ⟨later, hlater, rfl⟩ := map_cons_eq_some.1 h
    have hlength := ih _ _ hlater
    simp only [List.length_cons]
    omega
  | case7 c text _ _ _ ih =>
    obtain ⟨later, hlater, rfl⟩ := map_cons_eq_some.1 h
    have hlength := ih _ _ hlater
    rw [List.length_cons]
    omega

theorem readString_eq_some : readString text = some (s, rest) ↔
    ∃ units characters, scanUnits text = some (units, rest) ∧ joinUnits units = some characters ∧
      s = String.ofList characters := by
  simp only [readString, Option.bind_eq_bind, Option.bind_eq_some_iff, Option.pure_def, Option.some.injEq, Prod.mk.injEq,
    Prod.exists]
  constructor
  · rintro ⟨units, after, hscan, characters, hjoin, rfl, rfl⟩
    exact ⟨units, characters, hscan, hjoin, rfl⟩
  · rintro ⟨units, characters, hscan, hjoin, rfl⟩
    exact ⟨units, rest, hscan, characters, hjoin, rfl, rfl⟩

theorem readString_closed : Closed readString := by
  intro text s rest h more
  obtain ⟨units, characters, hscan, hjoin, rfl⟩ := readString_eq_some.1 h
  exact readString_eq_some.2 ⟨units, characters, scanUnits_closed _ _ _ hscan more, hjoin, rfl⟩

theorem readString_consuming : Consuming readString := by
  intro text s rest h
  obtain ⟨units, _, hscan, _⟩ := readString_eq_some.1 h
  exact scanUnits_consuming _ _ _ hscan

-- Tokens

def endsToken (c : Char) : Bool := !isTokenChar c

theorem json_punctuation {close : Char} (h : close = ']' ∨ close = '}') :
    Punctuation isJsonSpace endsToken ',' close := by
  refine ⟨fun c hc => ?_, by decide, ?_, by decide, ?_, ?_⟩
  · simp only [isJsonSpace, Bool.or_eq_true, decide_eq_true_eq] at hc
    rcases hc with ((rfl | rfl) | rfl) | rfl <;> decide
  · rcases h with rfl | rfl <;> decide
  · rcases h with rfl | rfl <;> decide
  · rcases h with rfl | rfl <;> decide

section

variable {floats : FloatFormat}

theorem readToken_eq_some : readToken floats text = some (value, rest) ↔
    tokenValue floats (text.takeWhile isTokenChar) = some value ∧ text.dropWhile isTokenChar = rest := by
  simp [readToken]

theorem readToken_steady : Steady endsToken (readToken floats) := by
  rintro text value rest h ⟨c, after, rfl, -⟩ more
  obtain ⟨hvalue, hdrop⟩ := readToken_eq_some.1 h
  have htake : (text ++ more).takeWhile isTokenChar = text.takeWhile isTokenChar := by
    have hshort : (text.takeWhile isTokenChar).length ≠ text.length := by
      intro hlength
      have hwhole := congrArg List.length (List.takeWhile_append_dropWhile (p := isTokenChar) (l := text))
      rw [hdrop, List.length_append, List.length_cons] at hwhole
      omega
    rw [List.takeWhile_append, if_neg hshort]
  exact readToken_eq_some.2 ⟨htake ▸ hvalue, dropWhile_append_cons hdrop more⟩

theorem tokenValue_nil : tokenValue floats [] = none := rfl

theorem readToken_consuming : Consuming (readToken floats) := by
  intro text value rest h
  obtain ⟨hvalue, rfl⟩ := readToken_eq_some.1 h
  cases text with
  | nil => cases hvalue
  | cons c text =>
    by_cases hc : isTokenChar c = true
    · rw [List.dropWhile_cons_of_pos hc]
      exact Nat.lt_succ_of_le (dropWhile_length_le _ text)
    · rw [List.takeWhile_cons_of_neg hc, tokenValue_nil] at hvalue
      cases hvalue

/-- The token of a scalar is read back. -/
theorem readToken_reads {token : Text} (hchars : ∀ c ∈ token, isTokenChar c = true)
    (hvalue : tokenValue floats token = some value) : Reads endsToken (readToken floats) value token := by
  intro rest hrest
  have hnone : rest.takeWhile isTokenChar = [] ∧ rest.dropWhile isTokenChar = rest := by
    rcases hrest with rfl | ⟨c, after, rfl, hc⟩
    · exact ⟨rfl, rfl⟩
    · have hnot : ¬isTokenChar c = true := by simpa [endsToken] using hc
      exact ⟨List.takeWhile_cons_of_neg hnot, List.dropWhile_cons_of_neg hnot⟩
  refine readToken_eq_some.2 ⟨?_, ?_⟩
  · rw [List.takeWhile_append_of_pos hchars, hnone.1, List.append_nil]
    exact hvalue
  · rw [List.dropWhile_append_of_pos hchars, hnone.2]

theorem isTokenChar_of_isDigit (h : c.isDigit = true) : isTokenChar c = true := by
  simp [isTokenChar, Char.isAlphanum, h]

theorem isWhole_toDigits (n : Nat) : isWhole (Nat.toDigits 10 n) = true := by
  have hdigits : ∀ c ∈ Nat.toDigits 10 n, c.isDigit = true := fun c hc =>
    Nat.isDigit_of_mem_toDigits (by decide) (by decide) hc
  rcases Nat.eq_zero_or_pos n with rfl | hpos
  · decide
  · have hhead := JsonPointer.head?_toDigits hpos
    have hsome : Nat.toDigits 10 n ≠ [] := Nat.toDigits_ne_nil
    simp only [isWhole, isDigits, Bool.and_eq_true, Bool.not_eq_true', List.isEmpty_eq_false_iff, List.all_eq_true,
      Bool.or_eq_true, decide_eq_true_eq]
    exact ⟨⟨hsome, hdigits⟩, .inr hhead⟩

theorem unsigned_toDigits (n : Nat) : unsigned (Nat.toDigits 10 n) = Nat.toDigits 10 n := by
  have hnot : (Nat.toDigits 10 n).head? ≠ some '-' := by
    intro hhead
    have hminus : '-' ∈ Nat.toDigits 10 n := List.mem_of_mem_head? hhead
    have hdigit := Nat.isDigit_of_mem_toDigits (by decide) (by decide) hminus
    exact absurd hdigit (by decide)
  rw [unsigned, if_neg hnot]

theorem toString_negSucc (n : Nat) : (toString (Int.negSucc n)).toList = '-' :: Nat.toDigits 10 (n + 1) := by
  change ("-" ++ (n + 1).repr).toList = _
  rw [String.toList_append, Nat.toList_repr]
  rfl

theorem tokenValue_int (i : Int) : tokenValue floats (toString i).toList = some (.int i) := by
  cases i with
  | ofNat n =>
    have htext : (toString (Int.ofNat n)).toList = Nat.toDigits 10 n := Nat.toList_repr
    have hhead : (Nat.toDigits 10 n).head? ≠ some '-' := by
      intro hhead
      have hdigit := Nat.isDigit_of_mem_toDigits (by decide) (by decide) (List.mem_of_mem_head? hhead)
      exact absurd hdigit (by decide)
    rw [htext, tokenValue, isIntegerToken, unsigned_toDigits, if_pos (isWhole_toDigits n)]
    simp [hhead]
  | negSucc n =>
    have hunsigned : unsigned ('-' :: Nat.toDigits 10 (n + 1)) = Nat.toDigits 10 (n + 1) := rfl
    rw [toString_negSucc, tokenValue, isIntegerToken, hunsigned, if_pos (isWhole_toDigits (n + 1))]
    simp [Int.negSucc_eq]

theorem toString_tokenChars (i : Int) (h : c ∈ (toString i).toList) : isTokenChar c = true := by
  have hdigits : ∀ n, c ∈ Nat.toDigits 10 n → isTokenChar c = true := fun n hc =>
    isTokenChar_of_isDigit (Nat.isDigit_of_mem_toDigits (by decide) (by decide) hc)
  cases i with
  | ofNat n =>
    have htext : (toString (Int.ofNat n)).toList = Nat.toDigits 10 n := Nat.toList_repr
    rw [htext] at h
    exact hdigits n h
  | negSucc n =>
    rw [toString_negSucc, List.mem_cons] at h
    rcases h with rfl | h
    · decide
    · exact hdigits (n + 1) h

theorem tokenValue_name (h : (name, value) ∈ jsonNames) : tokenValue floats name.toList = some value := by
  have hnumber : ∀ entry ∈ jsonNames, isIntegerToken entry.1.toList = false ∧ isFloatToken entry.1.toList = false := by
    simp only [jsonNames, List.forall_mem_cons, List.not_mem_nil, false_imp_iff, implies_true, and_true]
    decide
  have hlookup : jsonNames.lookup name = some value := by
    simp only [jsonNames, List.mem_cons, Prod.mk.injEq, List.not_mem_nil, or_false] at h
    rcases h with ⟨rfl, rfl⟩ | ⟨rfl, rfl⟩ | ⟨rfl, rfl⟩ | ⟨rfl, rfl⟩ | ⟨rfl, rfl⟩ | ⟨rfl, rfl⟩ <;> rfl
  obtain ⟨hinteger, hfloat⟩ := hnumber _ h
  rw [tokenValue, if_neg (Bool.eq_false_iff.1 hinteger), if_neg (Bool.eq_false_iff.1 hfloat), String.ofList_toList,
    hlookup]

theorem floatText_tokenChars (f : PyFloat) (h : c ∈ Json.floatText floats.toFloatText f) : isTokenChar c = true := by
  cases f with
  | finite value => exact List.all_eq_true.1 (floats.token value).1 c h
  | infinite =>
    have hall : "Infinity".toList.all isTokenChar = true := by decide
    exact List.all_eq_true.1 hall c h
  | negInfinite =>
    have hall : "-Infinity".toList.all isTokenChar = true := by decide
    exact List.all_eq_true.1 hall c h
  | nan =>
    have hall : "NaN".toList.all isTokenChar = true := by decide
    exact List.all_eq_true.1 hall c h

theorem tokenValue_finite (value : Rat) : tokenValue floats (floats.write value) = some (.float (.finite value)) := by
  have hfloat := (floats.token value).2
  have hinteger : isIntegerToken (floats.write value) = false := by
    simp only [isFloatToken, Bool.and_eq_true, Bool.not_eq_true'] at hfloat
    exact hfloat.1.1
  simp only [tokenValue, hinteger, hfloat, floats.read_write, Bool.false_eq_true, if_false, if_true]

theorem tokenValue_float (f : PyFloat) : tokenValue floats (Json.floatText floats.toFloatText f) = some (.float f) := by
  have hnames : ("NaN", .float .nan) ∈ jsonNames ∧ ("Infinity", .float .infinite) ∈ jsonNames ∧
      ("-Infinity", .float .negInfinite) ∈ jsonNames := by simp [jsonNames]
  obtain ⟨hnan, hinfinite, hnegInfinite⟩ := hnames
  cases f with
  | finite value => exact tokenValue_finite value
  | infinite => exact tokenValue_name hinfinite
  | negInfinite => exact tokenValue_name hnegInfinite
  | nan => exact tokenValue_name hnan

-- Values

theorem readMember_eq_some {scan : Scanner Char Json} {entry : String × Json} :
    readMember scan text = some (entry, rest) ↔ ∃ quoted left after, text = '"' :: quoted ∧
      readString quoted = some (entry.1, left) ∧ skipSpace left = ':' :: after ∧
      scan (skipSpace after) = some (entry.2, rest) := by
  constructor
  · intro h
    unfold readMember at h
    split at h
    · cases h
    next c quoted =>
      split at h
      · next hquote =>
        obtain ⟨⟨key, left⟩, hkey, h⟩ := Option.bind_eq_some_iff.1 h
        dsimp only at h
        split at h
        · cases h
        next d after hcolon =>
          split at h
          · next heq =>
            obtain ⟨⟨value, later⟩, hvalue, htaken⟩ := Option.map_eq_some_iff.1 h
            obtain ⟨rfl, rfl⟩ := Prod.mk.inj htaken
            exact ⟨quoted, left, after, by rw [hquote], hkey, by rw [hcolon, heq], hvalue⟩
          · cases h
      · cases h
  · rintro ⟨quoted, left, after, rfl, hkey, hcolon, hvalue⟩
    simp [readMember, hkey, hcolon, hvalue]

theorem skipSpace_length_le (text : Text) : (skipSpace text).length ≤ text.length := dropWhile_length_le _ text

theorem readMember_consuming {scan : Scanner Char Json} (h : Consuming scan) : Consuming (readMember scan) := by
  intro text entry rest hmember
  obtain ⟨quoted, left, after, rfl, hkey, hcolon, hvalue⟩ := readMember_eq_some.1 hmember
  have hleft := readString_consuming _ _ _ hkey
  have hafter := skipSpace_length_le left
  have hskipped := skipSpace_length_le after
  have hrest := h _ _ _ hvalue
  rw [hcolon] at hafter
  simp only [List.length_cons] at hafter ⊢
  omega

theorem readMember_steady {scan : Scanner Char Json} (hconsuming : Consuming scan) (h : Steady endsToken scan) :
    Steady endsToken (readMember scan) := by
  intro text entry rest hmember hended more
  obtain ⟨quoted, left, after, rfl, hkey, hcolon, hvalue⟩ := readMember_eq_some.1 hmember
  refine readMember_eq_some.2 ⟨quoted ++ more, left ++ more, after ++ more, rfl, readString_closed _ _ _ hkey more,
    dropWhile_append_cons hcolon more, ?_⟩
  cases hskip : skipSpace after with
  | nil =>
    rw [hskip, hconsuming.nil] at hvalue
    cases hvalue
  | cons c later =>
    have happend : skipSpace (after ++ more) = skipSpace after ++ more := by
      rw [hskip]
      exact dropWhile_append_cons hskip more
    rw [happend]
    exact h _ _ _ hvalue hended more

theorem readMember_congr {scan scan' : Scanner Char Json} {n : Nat}
    (h : ∀ text, text.length ≤ n → scan text = scan' text) (htext : text.length ≤ n) :
    readMember scan text = readMember scan' text := by
  unfold readMember
  split
  · rfl
  next c quoted =>
    split
    · cases hkey : readString quoted with
      | none => rfl
      | some key =>
        have hleft := readString_consuming _ key.1 key.2 hkey
        dsimp only [Option.bind_some]
        split
        · rfl
        next d after hcolon =>
          have hafter := skipSpace_length_le key.2
          have hskipped := skipSpace_length_le after
          rw [hcolon] at hafter
          simp only [List.length_cons] at hafter htext
          rw [h (skipSpace after) (by omega)]
    · rfl

theorem readValue_consuming (fuel : Nat) : Consuming (readValue floats fuel) := by
  induction fuel with
  | zero => exact fun _ _ _ h => by cases h
  | succ fuel ih =>
    intro text value rest h
    cases text with
    | nil => cases h
    | cons c text =>
      rw [readValue] at h
      split at h
      · obtain ⟨taken, htaken, heq⟩ := Option.map_eq_some_iff.1 h
        obtain ⟨rfl, rfl⟩ := Prod.mk.inj heq
        exact Nat.lt_succ_of_lt (readString_consuming _ _ _ htaken)
      · split at h
        · obtain ⟨taken, htaken, heq⟩ := Option.map_eq_some_iff.1 h
          obtain ⟨rfl, rfl⟩ := Prod.mk.inj heq
          exact Nat.lt_succ_of_lt (listed_consuming ih fuel _ _ _ htaken)
        · split at h
          · obtain ⟨taken, htaken, heq⟩ := Option.map_eq_some_iff.1 h
            obtain ⟨rfl, rfl⟩ := Prod.mk.inj heq
            exact Nat.lt_succ_of_lt (listed_consuming (readMember_consuming ih) fuel _ _ _ htaken)
          · exact readToken_consuming _ _ _ h

/-- A string, an array or an object has an end of its own; other values end where their token does. -/
theorem readValue_append {fuel : Nat} {text rest : Text} (h : readValue floats fuel text = some (value, rest))
    (hended : Ended endsToken rest ∨ text.head? = some '"' ∨ text.head? = some '[' ∨ text.head? = some '\x7b')
    (more : Text) : readValue floats fuel (text ++ more) = some (value, rest ++ more) := by
  induction fuel generalizing text value rest more with
  | zero => cases h
  | succ fuel ih =>
    have hsteady : Steady endsToken (readValue floats fuel) := fun _ _ _ hscan hended' more => ih hscan (.inl hended') more
    cases text with
    | nil => cases h
    | cons c text =>
      rw [readValue] at h
      rw [List.cons_append, readValue]
      by_cases hquote : c = '"'
      · rw [if_pos hquote] at h ⊢
        obtain ⟨taken, htaken, heq⟩ := Option.map_eq_some_iff.1 h
        obtain ⟨rfl, rfl⟩ := Prod.mk.inj heq
        rw [readString_closed _ _ _ htaken more]
        rfl
      by_cases hbracket : c = '['
      · rw [if_neg hquote, if_pos hbracket] at h ⊢
        obtain ⟨taken, htaken, heq⟩ := Option.map_eq_some_iff.1 h
        obtain ⟨rfl, rfl⟩ := Prod.mk.inj heq
        rw [listed_closed (json_punctuation (.inl rfl)) (readValue_consuming fuel) hsteady fuel _ _ _ htaken more]
        rfl
      by_cases hbrace : c = '\x7b'
      · rw [if_neg hquote, if_neg hbracket, if_pos hbrace] at h ⊢
        obtain ⟨taken, htaken, heq⟩ := Option.map_eq_some_iff.1 h
        obtain ⟨rfl, rfl⟩ := Prod.mk.inj heq
        rw [listed_closed (json_punctuation (.inr rfl)) (readMember_consuming (readValue_consuming fuel))
          (readMember_steady (readValue_consuming fuel) hsteady) fuel _ _ _ htaken more]
        rfl
      · rw [if_neg hquote, if_neg hbracket, if_neg hbrace] at h ⊢
        have hended : Ended endsToken rest := by simpa [hquote, hbracket, hbrace] using hended
        exact readToken_steady _ _ _ h hended more

/-- Fuel for every character is enough. -/
theorem readValue_fuel {fuel fuel' : Nat} {text : Text} (hfuel : text.length ≤ fuel) (hfuel' : text.length ≤ fuel') :
    readValue floats fuel text = readValue floats fuel' text := by
  induction fuel generalizing fuel' text with
  | zero =>
    obtain rfl : text = [] := List.eq_nil_of_length_eq_zero (by omega)
    cases fuel' <;> rfl
  | succ fuel ih =>
    cases text with
    | nil => cases fuel' <;> rfl
    | cons c text =>
      cases fuel' with
      | zero => cases hfuel'
      | succ fuel' =>
        rw [List.length_cons, Nat.add_le_add_iff_right] at hfuel hfuel'
        have hsame : ∀ shorter : Text, shorter.length ≤ text.length →
            readValue floats fuel shorter = readValue floats fuel' shorter := fun shorter hshorter =>
          ih (Nat.le_trans hshorter hfuel) (Nat.le_trans hshorter hfuel')
        have hmember : ∀ shorter : Text, shorter.length ≤ text.length →
            readMember (readValue floats fuel) shorter = readMember (readValue floats fuel') shorter :=
          fun shorter hshorter => readMember_congr hsame hshorter
        rw [readValue, readValue, listed_congr (readValue_consuming fuel) hsame (Nat.le_refl _) hfuel hfuel',
          listed_congr (readMember_consuming (readValue_consuming fuel)) hmember (Nat.le_refl _) hfuel hfuel']

-- Dumped values

variable {format : DumpFormat}

theorem isJsonSpace_pad (format : DumpFormat) (c : Char) (h : c ∈ format.pad) : isJsonSpace c = true := by
  unfold DumpFormat.pad at h
  split at h
  · cases h
  · obtain rfl := List.mem_singleton.1 h
    rfl

/-- The text of a value begins with no blank and with no closing bracket. -/
def StartsValue (text : Text) : Prop := ∃ c rest, text = c :: rest ∧ isJsonSpace c = false ∧ c ≠ ']' ∧ c ≠ '\x7d'

theorem StartsValue.starts (h : StartsValue text) (hclose : close = ']' ∨ close = '\x7d') :
    Starts isJsonSpace close text := by
  obtain ⟨c, rest, htext, hspace, hbracket, hbrace⟩ := h
  refine ⟨c, rest, htext, hspace, ?_⟩
  rcases hclose with rfl | rfl
  · exact hbracket
  · exact hbrace

theorem startsValue_token (h : isTokenChar c = true) : StartsValue (c :: rest) := by
  have hne : ∀ d, isTokenChar d = false → c ≠ d := by
    rintro d hd rfl
    rw [h] at hd
    cases hd
  refine ⟨c, rest, rfl, ?_, hne _ (by decide), hne _ (by decide)⟩
  simp [isJsonSpace, hne ' ' (by decide), hne '\t' (by decide), hne '\n' (by decide), hne '\r' (by decide)]

/-- A number or a name. -/
structure IsToken (floats : FloatFormat) (json : Json) (token : Text) : Prop where
  chars : ∀ c ∈ token, isTokenChar c = true
  value : tokenValue floats token = some json

namespace IsToken

theorem cons (h : IsToken floats json token) : ∃ c rest, token = c :: rest ∧ isTokenChar c = true := by
  cases token with
  | nil => cases h.value
  | cons c rest => exact ⟨c, rest, rfl, h.chars c (.head _)⟩

theorem starts (h : IsToken floats json token) : StartsValue token := by
  obtain ⟨c, rest, rfl, hc⟩ := h.cons
  exact startsValue_token hc

theorem reads (h : IsToken floats json token) (fuel : Nat) :
    Reads endsToken (readValue floats (fuel + 1)) json token := by
  intro rest hrest
  obtain ⟨c, later, rfl, hc⟩ := h.cons
  have hne : ∀ d, isTokenChar d = false → c ≠ d := by
    rintro d hd rfl
    rw [hc] at hd
    cases hd
  have hread := readToken_reads h.chars h.value rest hrest
  rw [List.cons_append] at hread ⊢
  rw [readValue, if_neg (hne _ (by decide)), if_neg (hne _ (by decide)), if_neg (hne _ (by decide)), hread]

end IsToken

theorem isToken_name (h : (name, json) ∈ jsonNames) : IsToken floats json name.toList := by
  have hchars : ∀ entry ∈ jsonNames, entry.1.toList.all isTokenChar = true := by
    simp only [jsonNames, List.forall_mem_cons, List.not_mem_nil, false_imp_iff, implies_true, and_true]
    decide
  exact ⟨List.all_eq_true.1 (hchars _ h), tokenValue_name h⟩

def Json.isScalar : Json → Bool
  | .null | .bool _ | .int _ | .float _ => true
  | .str _ | .array _ | .object _ => false

theorem isToken_dumped (json : Json) (h : json.isScalar = true) :
    IsToken floats json (json.dumped floats.toFloatText format) := by
  have hnames : ("null", .null) ∈ jsonNames ∧ ("true", .bool true) ∈ jsonNames ∧ ("false", .bool false) ∈ jsonNames := by
    simp [jsonNames]
  obtain ⟨hnull, htrue, hfalse⟩ := hnames
  cases json with
  | null => exact isToken_name hnull
  | bool b =>
    cases b with
    | true => exact isToken_name htrue
    | false => exact isToken_name hfalse
  | int i => exact ⟨fun c hc => toString_tokenChars i hc, tokenValue_int i⟩
  | float f => exact ⟨fun c hc => floatText_tokenChars f hc, tokenValue_float f⟩
  | str | array | object => cases h

theorem one_le_nodes (json : Json) : 1 ≤ json.nodes := by
  cases json <;> simp [Json.nodes]

theorem length_le_nodesItems (items : List Json) : items.length ≤ Json.nodesItems items := by
  induction items with
  | nil => exact Nat.zero_le _
  | cons item rest ih =>
    have hitem := one_le_nodes item
    rw [Json.nodesItems, List.length_cons]
    omega

theorem length_le_nodesEntries (entries : List (String × Json)) : entries.length ≤ Json.nodesEntries entries := by
  induction entries with
  | nil => exact Nat.zero_le _
  | cons entry rest ih =>
    have hjson := one_le_nodes entry.2
    rw [Json.nodesEntries, List.length_cons]
    omega

variable (floats format) in
theorem startsValue_dumped (json : Json) : StartsValue (json.dumped floats.toFloatText format) := by
  cases json with
  | str s => exact ⟨'"', _, rfl, by decide⟩
  | array items => exact ⟨'[', _, rfl, by decide⟩
  | object entries => exact ⟨'\x7b', _, rfl, by decide⟩
  | null | bool | int | float => exact (isToken_dumped _ rfl).starts

mutual

/-- A dumped value is read back. -/
theorem reads_dumped (json : Json) (hdistinct : json.Distinct) {fuel : Nat} (hfuel : json.nodes ≤ fuel) :
    Reads endsToken (readValue floats fuel) json (json.dumped floats.toFloatText format) := by
  obtain ⟨fuel, rfl⟩ : ∃ n, fuel = n + 1 := Nat.exists_eq_succ_of_ne_zero (by have := one_le_nodes json; omega)
  cases json with
  | null | bool | int | float => exact (isToken_dumped _ rfl).reads fuel
  | str s =>
    intro rest _
    have hread := format.readString_quotes s rest
    simp only [Json.dumped, DumpFormat.quotes, List.cons_append, List.append_assoc, List.nil_append]
    rw [readValue, if_pos rfl, hread]
    rfl
  | array items =>
    intro rest _
    rw [Json.nodes] at hfuel
    have hitems := reads_dumpedItems items hdistinct (show Json.nodesItems items ≤ fuel by omega)
    have hlength := length_le_nodesItems items
    have hread := listed_written (json_punctuation (.inl rfl)) (isJsonSpace_pad format) hitems
      (show items.length ≤ fuel by omega) rest
    simp only [Json.dumped, List.cons_append, List.append_assoc, List.nil_append]
    rw [readValue, if_neg (by decide), if_pos rfl]
    simpa using hread
  | object entries =>
    intro rest _
    rw [Json.nodes] at hfuel
    have hentries := reads_dumpedEntries entries hdistinct.2 (show Json.nodesEntries entries ≤ fuel by omega)
    have hlength := length_le_nodesEntries entries
    have hread := listed_written (json_punctuation (.inr rfl)) (isJsonSpace_pad format) hentries
      (show entries.length ≤ fuel by omega) rest
    simp only [Json.dumped, List.cons_append, List.append_assoc, List.nil_append]
    rw [readValue, if_neg (by decide), if_neg (by decide), if_pos rfl]
    have hentriesOf := OrderedDict.entries_ofList hdistinct.1
    simp [hread, hentriesOf]

theorem reads_dumpedItems (items : List Json) (hdistinct : Json.DistinctItems items) {fuel : Nat}
    (hfuel : Json.nodesItems items ≤ fuel) :
    List.Forall₂ (fun item text => Reads endsToken (readValue floats fuel) item text ∧ Starts isJsonSpace ']' text) items
      (Json.dumpedItems floats.toFloatText format items) := by
  match items with
  | [] => exact .nil
  | item :: rest =>
    rw [Json.nodesItems] at hfuel
    exact .cons ⟨reads_dumped item hdistinct.1 (by omega), (startsValue_dumped floats format item).starts (.inl rfl)⟩
      (reads_dumpedItems rest hdistinct.2 (by omega))

theorem reads_dumpedEntries (entries : List (String × Json)) (hdistinct : Json.DistinctEntries entries) {fuel : Nat}
    (hfuel : Json.nodesEntries entries ≤ fuel) :
    List.Forall₂ (fun entry text => Reads endsToken (readMember (readValue floats fuel)) entry text ∧
      Starts isJsonSpace '\x7d' text) entries (Json.dumpedEntries floats.toFloatText format entries) := by
  match entries with
  | [] => exact .nil
  | (key, json) :: others =>
    rw [Json.nodesEntries] at hfuel
    have hjson := reads_dumped json hdistinct.1 (show json.nodes ≤ fuel by omega)
    refine .cons ⟨fun rest hrest => ?_, '"', _, rfl, by decide⟩ (reads_dumpedEntries others hdistinct.2 (by omega))
    have hkey := format.readString_quotes key (':' :: (format.pad ++ (json.dumped floats.toFloatText format ++ rest)))
    have hskip : skipSpace (format.pad ++ (json.dumped floats.toFloatText format ++ rest)) =
        json.dumped floats.toFloatText format ++ rest := by
      rw [skipSpace, List.dropWhile_append_of_pos (isJsonSpace_pad format)]
      exact ((startsValue_dumped floats format json).starts (.inl rfl)).dropWhile rest
    have hvalue := hjson rest hrest
    rw [← hskip] at hvalue
    refine readMember_eq_some.2 ⟨_, _, _, ?_, hkey, rfl, hvalue⟩
    simp [DumpFormat.quotes]

end

theorem skipSpace_dumped (json : Json) :
    skipSpace (json.dumped floats.toFloatText format) = json.dumped floats.toFloatText format := by
  obtain ⟨c, rest, htext, hspace, -⟩ := startsValue_dumped floats format json
  rw [htext]
  exact List.dropWhile_cons_of_neg (by simp [hspace])

variable (floats format) in
theorem readValue_dumped (json : Json) (hdistinct : json.Distinct) {fuel : Nat} (hfuel : json.nodes ≤ fuel) :
    readValue floats fuel (json.dumped floats.toFloatText format) = some (json, []) := by
  have hread : readValue floats fuel (json.dumped floats.toFloatText format ++ []) = some (json, []) :=
    reads_dumped json hdistinct hfuel [] (.inl rfl)
  rwa [List.append_nil] at hread

/-- `json.loads` undoes `json.dumps`. -/
theorem loads_dumped (json : Json) (hdistinct : json.Distinct) :
    loads floats (json.dumped floats.toFloatText format) = some json := by
  have hread := readValue_dumped floats format json hdistinct
    (Nat.le_max_left json.nodes (json.dumped floats.toFloatText format).length)
  rw [loads, skipSpace_dumped, readValue_fuel (Nat.le_refl _) (Nat.le_max_right _ _), hread]
  rfl

theorem head?_append_left {text : Text} (htext : text ≠ []) (more : Text) : (text ++ more).head? = text.head? := by
  cases text with
  | nil => exact absurd rfl htext
  | cons c text => rfl

/-- The text of an object is not read before its end. -/
theorem loads_eq_none {entries : List (String × Json)} (hdistinct : (Json.object entries).Distinct) {text more : Text}
    (hdump : (Json.object entries).dumped floats.toFloatText format = text ++ more) (htext : text ≠ [])
    (hmore : more ≠ []) : loads floats text = none := by
  have hhead : text.head? = some '\x7b' := by
    rw [← head?_append_left htext more, ← hdump]
    rfl
  have hskip : skipSpace text = text := by
    cases text with
    | nil => rfl
    | cons c text =>
      obtain rfl := Option.some.inj hhead
      rfl
  unfold loads
  rw [hskip]
  cases hread : readValue floats text.length text with
  | none => rfl
  | some taken =>
    obtain ⟨value, rest⟩ := taken
    have hlength : text.length ≤ (text ++ more).length := by simp
    have hfuel : text.length ≤ max (Json.object entries).nodes (text ++ more).length :=
      Nat.le_trans hlength (Nat.le_max_right _ _)
    rw [readValue_fuel (Nat.le_refl _) hfuel] at hread
    have hlonger := readValue_append hread (.inr (.inr (.inr hhead))) more
    have hwhole := readValue_dumped floats format (Json.object entries) hdistinct
      (Nat.le_max_left (Json.object entries).nodes (text ++ more).length)
    rw [hdump, hlonger] at hwhole
    obtain ⟨-, hrest⟩ := Prod.mk.inj (Option.some.inj hwhole)
    exact absurd (List.append_eq_nil_iff.1 hrest).2 hmore

end

-- The characters of a dumped text

theorem mem_intercalate {separator : Text} {texts : List Text} (h : c ∈ separator.intercalate texts) :
    c ∈ separator ∨ ∃ text ∈ texts, c ∈ text := by
  induction texts with
  | nil => cases h
  | cons text rest ih =>
    cases rest with
    | nil =>
      rw [List.intercalate_singleton] at h
      exact .inr ⟨text, .head _, h⟩
    | cons next others =>
      rw [List.intercalate_cons_cons, List.mem_append, List.mem_append] at h
      rcases h with (h | h) | h
      · exact .inr ⟨text, .head _, h⟩
      · exact .inl h
      · exact (ih h).imp_right fun ⟨other, hother, hc⟩ => ⟨other, .tail _ hother, hc⟩

theorem mem_intercalate_of_mem {separator : Text} {texts : List Text} (htext : text ∈ texts) (h : c ∈ text) :
    c ∈ separator.intercalate texts := by
  induction texts with
  | nil => cases htext
  | cons first rest ih =>
    cases rest with
    | nil =>
      rw [List.mem_singleton] at htext
      rwa [List.intercalate_singleton, ← htext]
    | cons next others =>
      rw [List.intercalate_cons_cons, List.mem_append, List.mem_append]
      rcases List.mem_cons.1 htext with rfl | hrest
      · exact .inl (.inl h)
      · exact .inr (ih hrest)

theorem mem_unit (hn : n < 0x10000) (h : d ∈ escapeAscii.unit n) : Visible d := by
  have hfixed : Visible '\\' ∧ Visible 'u' := by decide
  simp only [escapeAscii.unit, List.mem_cons, List.not_mem_nil, or_false] at h
  rcases h with rfl | rfl | rfl | rfl | rfl | rfl
  · exact hfixed.1
  · exact hfixed.2
  · exact digitChar_visible (by omega)
  · exact digitChar_visible (Nat.mod_lt _ (by decide))
  · exact digitChar_visible (Nat.mod_lt _ (by decide))
  · exact digitChar_visible (Nat.mod_lt _ (by decide))

theorem mem_escapeAscii (h : d ∈ escapeAscii c) : Visible d := by
  unfold escapeAscii at h
  split at h
  · next letter hletter =>
    rcases List.mem_cons.1 h with rfl | h
    · decide
    · rw [List.mem_singleton.1 h]
      exact shortEscapes_visible hletter
  · split at h
    · next hvisible => rwa [List.mem_singleton.1 h]
    · split at h
      · next hsmall => exact mem_unit hsmall h
      · next hlarge =>
        have hvalid := toNat_valid c
        rcases List.mem_append.1 h with h | h
        · exact mem_unit (by omega) h
        · exact mem_unit (by omega) h

namespace DumpFormat

/-- A character that a text in the format has from a string of `names` as it is. -/
def Raw (format : DumpFormat) (names : List String) (c : Char) : Prop :=
  format.ensureAscii = false ∧ Verbatim names c

theorem Raw.mono {format : DumpFormat} (h : format.Raw names c) (hsub : names ⊆ names') : format.Raw names' c :=
  ⟨h.1, h.2.mono hsub⟩

variable {format : DumpFormat}

theorem mem_quotes (h : c ∈ format.quotes s) : Visible c ∨ format.Raw [s] c := by
  have hquote : Visible '"' := by decide
  simp only [quotes, List.cons_append, List.mem_cons, List.mem_append, List.mem_flatMap, List.not_mem_nil,
    or_false] at h
  rcases h with rfl | ⟨d, hd, hc⟩ | rfl
  · exact .inl hquote
  · unfold escaped at hc
    split at hc
    · exact .inl (mem_escapeAscii hc)
    · next hascii =>
      rcases mem_escape hc with hvisible | ⟨rfl, hlow⟩
      · exact .inl hvisible
      · exact .inr ⟨Bool.eq_false_iff.2 hascii, hlow, s, List.mem_singleton.2 rfl, hd⟩
  · exact .inl hquote

theorem mem_separator (h : c ∈ ',' :: format.pad) : Visible c := by
  unfold pad at h
  split at h <;> simp only [List.mem_cons, List.not_mem_nil, or_false] at h
  · subst h
    decide
  · rcases h with rfl | rfl <;> decide

theorem mem_pad (h : c ∈ format.pad) : Visible c := mem_separator (.tail _ h)

/-- A character beyond ASCII stands in the quoted string as it is. -/
theorem mem_quotes_of_mem (hascii : format.ensureAscii = false) (hc : c ∈ s.toList) (hhigh : 0x7f ≤ c.toNat) :
    c ∈ format.quotes s := by
  have hnone : shortEscapes.lookup c = none := by
    cases hlookup : shortEscapes.lookup c with
    | none => rfl
    | some letter =>
      have hall : ∀ entry ∈ shortEscapes, entry.1.toNat < 0x7f := by decide
      exact absurd (hall _ (mem_of_lookup hlookup)) (Nat.not_lt.2 hhigh)
  have hescape : format.escaped c = [c] := by
    simp only [escaped, hascii, escape, hnone, Bool.false_eq_true, if_false]
    rw [if_neg (by omega)]
  simp only [quotes, List.cons_append, List.mem_cons, List.mem_append, List.mem_flatMap]
  exact .inr (.inl ⟨c, hc, by simp [hescape]⟩)

end DumpFormat

namespace Json

variable {floats : FloatText} {format : DumpFormat}

mutual

theorem mem_dumped (json : Json) (h : c ∈ json.dumped floats format) : Visible c ∨ format.Raw json.strings c := by
  match json with
  | .null => exact .inl (visible_of_all "null".toList (by decide) h)
  | .bool true => exact .inl (visible_of_all "true".toList (by decide) h)
  | .bool false => exact .inl (visible_of_all "false".toList (by decide) h)
  | .int i => exact .inl (toString_visible i h)
  | .float f => exact .inl (floatText_visible f h)
  | .str s => exact DumpFormat.mem_quotes h
  | .array items =>
    simp only [dumped, List.cons_append, List.mem_cons, List.mem_append, List.not_mem_nil, or_false] at h
    rcases h with rfl | h | rfl
    · exact .inl (by decide)
    · rcases mem_intercalate h with h | ⟨text, htext, hc⟩
      · exact .inl (DumpFormat.mem_separator h)
      · exact mem_dumpedItems items htext hc
    · exact .inl (by decide)
  | .object entries =>
    simp only [dumped, List.cons_append, List.mem_cons, List.mem_append, List.not_mem_nil, or_false] at h
    rcases h with rfl | h | rfl
    · exact .inl (by decide)
    · rcases mem_intercalate h with h | ⟨text, htext, hc⟩
      · exact .inl (DumpFormat.mem_separator h)
      · exact mem_dumpedEntries entries htext hc
    · exact .inl (by decide)

theorem mem_dumpedItems (items : List Json) (ht : t ∈ dumpedItems floats format items) (h : c ∈ t) :
    Visible c ∨ format.Raw (stringsItems items) c := by
  match items with
  | item :: rest =>
    rcases List.mem_cons.1 ht with rfl | ht
    · exact (mem_dumped item h).imp_right (·.mono (List.subset_append_left _ _))
    · exact (mem_dumpedItems rest ht h).imp_right (·.mono (List.subset_append_right _ _))

theorem mem_dumpedEntries (entries : List (String × Json)) (ht : t ∈ dumpedEntries floats format entries) (h : c ∈ t) :
    Visible c ∨ format.Raw (stringsEntries entries) c := by
  match entries with
  | (key, json) :: rest =>
    rw [stringsEntries]
    rcases List.mem_cons.1 ht with rfl | ht
    · simp only [List.mem_append, List.mem_cons] at h
      rcases h with h | rfl | h | h
      · exact (DumpFormat.mem_quotes h).imp_right (·.mono (by simp))
      · exact .inl (by decide)
      · exact .inl (DumpFormat.mem_pad h)
      · exact (mem_dumped json h).imp_right (·.mono (by simp))
    · exact (mem_dumpedEntries rest ht h).imp_right (·.mono (by simp))

end

mutual

theorem mem_dumped_of_mem (hascii : format.ensureAscii = false) (hhigh : 0x7f ≤ c.toNat) (json : Json)
    (hs : s ∈ json.strings) (hc : c ∈ s.toList) : c ∈ json.dumped floats format := by
  match json with
  | .null | .bool _ | .int _ | .float _ => cases hs
  | .str text =>
    obtain rfl := List.mem_singleton.1 hs
    exact DumpFormat.mem_quotes_of_mem hascii hc hhigh
  | .array items =>
    obtain ⟨text, htext, hmem⟩ := mem_dumpedItems_of_mem hascii hhigh items hs hc
    exact .tail _ (List.mem_append_left _ (mem_intercalate_of_mem htext hmem))
  | .object entries =>
    obtain ⟨text, htext, hmem⟩ := mem_dumpedEntries_of_mem hascii hhigh entries hs hc
    exact .tail _ (List.mem_append_left _ (mem_intercalate_of_mem htext hmem))

theorem mem_dumpedItems_of_mem (hascii : format.ensureAscii = false) (hhigh : 0x7f ≤ c.toNat) (items : List Json)
    (hs : s ∈ stringsItems items) (hc : c ∈ s.toList) : ∃ text ∈ dumpedItems floats format items, c ∈ text := by
  match items with
  | item :: rest =>
    rcases List.mem_append.1 hs with hs | hs
    · exact ⟨_, .head _, mem_dumped_of_mem hascii hhigh item hs hc⟩
    · obtain ⟨text, htext, hmem⟩ := mem_dumpedItems_of_mem hascii hhigh rest hs hc
      exact ⟨text, .tail _ htext, hmem⟩

theorem mem_dumpedEntries_of_mem (hascii : format.ensureAscii = false) (hhigh : 0x7f ≤ c.toNat)
    (entries : List (String × Json)) (hs : s ∈ stringsEntries entries) (hc : c ∈ s.toList) :
    ∃ text ∈ dumpedEntries floats format entries, c ∈ text := by
  match entries with
  | (key, json) :: rest =>
    rw [stringsEntries, List.cons_append] at hs
    rcases List.mem_cons.1 hs with rfl | hs
    · exact ⟨_, .head _, List.mem_append_left _ (DumpFormat.mem_quotes_of_mem hascii hc hhigh)⟩
    · rcases List.mem_append.1 hs with hs | hs
      · have hjson := mem_dumped_of_mem hascii hhigh json hs hc
        exact ⟨_, .head _, List.mem_append_right _ (.tail _ (List.mem_append_right _ hjson))⟩
      · obtain ⟨text, htext, hmem⟩ := mem_dumpedEntries_of_mem hascii hhigh rest hs hc
        exact ⟨text, .tail _ htext, hmem⟩

end

end Json

-- Fractions

/-- The sign and the digits of the numerator, then those of the denominator after a point. -/
def fractionText (value : Rat) : Text :=
  (if value.num < 0 then ['-'] else []) ++ (Nat.toDigits 10 value.num.natAbs ++ '.' :: Nat.toDigits 10 value.den)

def readFraction (token : Text) : PyFloat :=
  let n : Nat := Nat.ofDigitChars 10 ((unsigned token).takeWhile Char.isDigit) 0
  let den := Nat.ofDigitChars 10 ((unsigned token).dropWhile Char.isDigit).tail 0
  .finite (mkRat (if token.head? = some '-' then -n else n) den)

theorem toDigits_isDigit (n : Nat) : ∀ c ∈ Nat.toDigits 10 n, c.isDigit = true := fun _ hc =>
  Nat.isDigit_of_mem_toDigits (by decide) (by decide) hc

theorem mem_fractionText (h : c ∈ fractionText value) : c = '-' ∨ c = '.' ∨ c.isDigit = true := by
  simp only [fractionText, List.mem_append, List.mem_cons] at h
  rcases h with h | h | rfl | h
  · split at h
    · exact .inl (List.mem_singleton.1 h)
    · cases h
  · exact .inr (.inr (toDigits_isDigit _ c h))
  · exact .inr (.inl rfl)
  · exact .inr (.inr (toDigits_isDigit _ c h))

theorem head?_digits_append (n : Nat) (rest : Text) : (Nat.toDigits 10 n ++ rest).head? ≠ some '-' := by
  have hsome : Nat.toDigits 10 n ≠ [] := Nat.toDigits_ne_nil
  rw [head?_append_left hsome]
  intro hhead
  exact absurd (toDigits_isDigit n '-' (List.mem_of_mem_head? hhead)) (by decide)

theorem head?_fractionText (value : Rat) : (fractionText value).head? = some '-' ↔ value.num < 0 := by
  unfold fractionText
  split
  · next h => simp [h]
  · next h => exact iff_of_false (head?_digits_append _ _) h

theorem unsigned_fractionText (value : Rat) :
    unsigned (fractionText value) = Nat.toDigits 10 value.num.natAbs ++ '.' :: Nat.toDigits 10 value.den := by
  unfold unsigned fractionText
  split
  · rfl
  · rw [List.nil_append, if_neg (head?_digits_append _ _)]

theorem fraction_digits (n : Nat) (rest : Text) :
    (Nat.toDigits 10 n ++ '.' :: rest).takeWhile Char.isDigit = Nat.toDigits 10 n ∧
      (Nat.toDigits 10 n ++ '.' :: rest).dropWhile Char.isDigit = '.' :: rest := by
  rw [List.takeWhile_append_of_pos (toDigits_isDigit n), List.dropWhile_append_of_pos (toDigits_isDigit n)]
  have hpoint : ¬Char.isDigit '.' = true := by decide
  rw [List.takeWhile_cons_of_neg hpoint, List.dropWhile_cons_of_neg hpoint, List.append_nil]
  exact ⟨rfl, rfl⟩

theorem isFloatToken_fractionText (value : Rat) : isFloatToken (fractionText value) = true := by
  obtain ⟨htake, hdrop⟩ := fraction_digits value.num.natAbs (Nat.toDigits 10 value.den)
  have hinteger : isIntegerToken (fractionText value) = false := by
    have hall : (Nat.toDigits 10 value.num.natAbs ++ '.' :: Nat.toDigits 10 value.den).all Char.isDigit = false := by
      simp
    simp [isIntegerToken, isWhole, isDigits, unsigned_fractionText, hall]
  have hden : (Nat.toDigits 10 value.den).takeWhile Char.isDigit = Nat.toDigits 10 value.den ∧
      (Nat.toDigits 10 value.den).dropWhile Char.isDigit = [] :=
    ⟨List.takeWhile_eq_self_iff.2 (toDigits_isDigit _), List.dropWhile_eq_nil_iff.2 (toDigits_isDigit _)⟩
  have hdigits : isDigits (Nat.toDigits 10 value.den) = true := by
    have hwhole := isWhole_toDigits value.den
    rw [isWhole, Bool.and_eq_true] at hwhole
    exact hwhole.1
  rw [isFloatToken, unsigned_fractionText, htake, hdrop, hinteger, isWhole_toDigits]
  simp [isFraction, hden, hdigits, isExponent]

theorem readFraction_fractionText (value : Rat) : readFraction (fractionText value) = .finite value := by
  obtain ⟨htake, hdrop⟩ := fraction_digits value.num.natAbs (Nat.toDigits 10 value.den)
  have hnum : (if (fractionText value).head? = some '-' then -(value.num.natAbs : Int) else value.num.natAbs) =
      value.num := by
    by_cases hneg : value.num < 0
    · rw [if_pos ((head?_fractionText value).2 hneg)]
      omega
    · rw [if_neg fun h => hneg ((head?_fractionText value).1 h)]
      omega
  simp only [readFraction, unsigned_fractionText, htake, hdrop, List.tail_cons, Nat.ofDigitChars_ten_toDigits, hnum,
    Rat.mkRat_self]

/-- Floats as fractions. -/
def FloatFormat.fraction : FloatFormat where
  write := fractionText
  visible value c h := by
    rcases mem_fractionText h with rfl | rfl | h
    · decide
    · decide
    · rw [Char.isDigit, Bool.and_eq_true, decide_eq_true_eq, decide_eq_true_eq] at h
      have hlow : (48 : Nat) ≤ c.toNat := h.1
      have hhigh : c.toNat ≤ (57 : Nat) := h.2
      omega
  read := readFraction
  token value := by
    refine ⟨List.all_eq_true.2 fun c hc => ?_, isFloatToken_fractionText value⟩
    rcases mem_fractionText hc with rfl | rfl | h
    · decide
    · decide
    · exact isTokenChar_of_isDigit h
  read_write := readFraction_fractionText

end ChainWeaver
