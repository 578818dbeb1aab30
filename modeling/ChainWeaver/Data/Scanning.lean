import Mathlib.Data.List.Basic

/-!
# Scanners

A scanner takes a value from the front of a text and leaves the rest. What it takes does not
depend on what follows, as soon as something follows that ends a value.
-/

namespace Scanning

abbrev Scanner (τ α : Type) := List τ → Option (α × List τ)

variable {τ α : Type}

/-- The text begins with a token that ends a value. -/
def Ended (ends : τ → Bool) (text : List τ) : Prop := ∃ token rest, text = token :: rest ∧ ends token = true

/-- A value that has ended stays as it is when the text goes on. -/
def Steady (ends : τ → Bool) (scan : Scanner τ α) : Prop :=
  ∀ text value rest, scan text = some (value, rest) → Ended ends rest →
    ∀ more, scan (text ++ more) = some (value, rest ++ more)

/-- A value has an end of its own, whatever follows. -/
def Closed (scan : Scanner τ α) : Prop :=
  ∀ text value rest, scan text = some (value, rest) → ∀ more, scan (text ++ more) = some (value, rest ++ more)

/-- A value takes at least one token. -/
def Consuming (scan : Scanner τ α) : Prop :=
  ∀ text value rest, scan text = some (value, rest) → rest.length < text.length

theorem Consuming.nil {scan : Scanner τ α} (h : Consuming scan) : scan [] = none := by
  cases hscan : scan [] with
  | none => rfl
  | some taken => exact absurd (h [] taken.1 taken.2 hscan) (Nat.not_lt_zero _)

/-- One more value in front of what was taken. -/
theorem map_cons_eq_some {taken : Option (List α × List τ)} :
    taken.map (fun taken => (value :: taken.1, taken.2)) = some (values, rest) ↔
      ∃ later, taken = some (later, rest) ∧ values = value :: later := by
  simp only [Option.map_eq_some_iff, Prod.exists, Prod.mk.injEq]
  constructor
  · rintro ⟨later, _, htaken, rfl, rfl⟩
    exact ⟨later, htaken, rfl⟩
  · rintro ⟨later, htaken, rfl⟩
    exact ⟨later, rest, htaken, rfl, rfl⟩

theorem dropWhile_append_cons {blank : τ → Bool} {text rest : List τ} (h : text.dropWhile blank = token :: rest) (more : List τ) :
    (text ++ more).dropWhile blank = token :: (rest ++ more) := by
  rw [List.dropWhile_append, h]
  rfl

theorem dropWhile_length_le (blank : τ → Bool) (text : List τ) : (text.dropWhile blank).length ≤ text.length :=
  (List.dropWhile_sublist blank).length_le

-- Lists

/-- What ends a value in a list: blanks, which are neither commas nor closing tokens, and these. -/
structure Punctuation (blank ends : τ → Bool) (comma close : τ) : Prop where
  ends_blank : ∀ token, blank token = true → ends token = true
  ends_comma : ends comma = true
  ends_close : ends close = true
  comma_not_blank : blank comma = false
  close_not_blank : blank close = false
  comma_ne_close : comma ≠ close

section

variable [DecidableEq τ] (blank : τ → Bool) (comma close : τ)

/-- Values with commas between them, up to the closing token; blanks may stand around a comma. -/
def separated (scan : Scanner τ α) : Nat → Scanner τ (List α)
  | 0, _ => none
  | fuel + 1, text =>
    match scan text with
    | none => none
    | some (value, rest) =>
      match rest.dropWhile blank with
      | [] => none
      | token :: rest =>
        if token = close then some ([value], rest)
        else if token = comma then
          (separated scan fuel (rest.dropWhile blank)).map fun taken => (value :: taken.1, taken.2)
        else none

/-- The list after its opening token. -/
def listed (scan : Scanner τ α) (fuel : Nat) (text : List τ) : Option (List α × List τ) :=
  match text.dropWhile blank with
  | [] => none
  | token :: rest => if token = close then some ([], rest) else separated blank comma close scan fuel (token :: rest)

end

variable [DecidableEq τ] {blank : τ → Bool} {comma close : τ} {scan scan' : Scanner τ α}

/-- What one round of `separated` takes. -/
theorem separated_succ {fuel : Nat} {text : List τ} : separated blank comma close scan (fuel + 1) text = some taken ↔
    ∃ value rest token after, scan text = some (value, rest) ∧ rest.dropWhile blank = token :: after ∧
      (token = close ∧ taken = ([value], after) ∨
        token ≠ close ∧ token = comma ∧ ∃ later, taken = (value :: later.1, later.2) ∧
          separated blank comma close scan fuel (after.dropWhile blank) = some later) := by
  constructor
  · intro h
    rw [separated] at h
    split at h
    · cases h
    next value rest hscan =>
      split at h
      · cases h
      next token after hdrop =>
        refine ⟨value, rest, token, after, hscan, hdrop, ?_⟩
        split at h
        · next hclose => exact .inl ⟨hclose, (Option.some.inj h).symm⟩
        next hclose =>
          split at h
          · next hcomma =>
            obtain ⟨later, hlater, rfl⟩ := Option.map_eq_some_iff.1 h
            exact .inr ⟨hclose, hcomma, later, rfl, hlater⟩
          · cases h
  · rintro ⟨value, rest, token, after, hscan, hdrop, ⟨rfl, rfl⟩ | ⟨hclose, rfl, later, rfl, hlater⟩⟩
    · simp [separated, hscan, hdrop]
    · simp [separated, hscan, hdrop, hclose, hlater]

theorem separated_consuming (h : Consuming scan) (fuel : Nat) : Consuming (separated blank comma close scan fuel) := by
  induction fuel with
  | zero => exact fun _ _ _ hscan => by cases hscan
  | succ fuel ih =>
    intro text values rest hscan
    obtain ⟨value, left, token, after, htaken, hdrop, hmore⟩ := separated_succ.1 hscan
    have hleft := h text value left htaken
    have hafter := dropWhile_length_le blank left
    rw [hdrop, List.length_cons] at hafter
    rcases hmore with ⟨-, heq⟩ | ⟨-, -, later, heq, hlater⟩
    · obtain ⟨rfl, rfl⟩ := Prod.mk.inj heq
      omega
    · obtain ⟨rfl, rfl⟩ := Prod.mk.inj heq
      have hlast := ih _ later.1 later.2 hlater
      have hdropped := dropWhile_length_le blank after
      omega

/-- The closing token ends a list of values that end at blanks, commas and closing tokens. -/
theorem separated_closed {ends : τ → Bool} (hpunctuation : Punctuation blank ends comma close) (hconsuming : Consuming scan) (h : Steady ends scan) (fuel : Nat) :
    Closed (separated blank comma close scan fuel) := by
  induction fuel with
  | zero => exact fun _ _ _ hscan => by cases hscan
  | succ fuel ih =>
    intro text values rest hscan more
    obtain ⟨value, left, token, after, htaken, hdrop, hmore⟩ := separated_succ.1 hscan
    have hended : Ended ends left := by
      cases left with
      | nil => cases hdrop
      | cons first later =>
        refine ⟨first, later, rfl, ?_⟩
        cases hblank : blank first with
        | true => exact hpunctuation.ends_blank first hblank
        | false =>
          rw [List.dropWhile_cons_of_neg (by simp [hblank])] at hdrop
          obtain ⟨rfl, -⟩ := List.cons.inj hdrop
          rcases hmore with ⟨rfl, -⟩ | ⟨-, rfl, -⟩
          · exact hpunctuation.ends_close
          · exact hpunctuation.ends_comma
    refine separated_succ.2 ⟨value, left ++ more, token, after ++ more, h text value left htaken hended more,
      dropWhile_append_cons hdrop more, ?_⟩
    rcases hmore with ⟨hclose, heq⟩ | ⟨hclose, hcomma, later, heq, hlater⟩
    · obtain ⟨rfl, rfl⟩ := Prod.mk.inj heq
      exact .inl ⟨hclose, rfl⟩
    · obtain ⟨rfl, rfl⟩ := Prod.mk.inj heq
      refine .inr ⟨hclose, hcomma, (later.1, later.2 ++ more), rfl, ?_⟩
      cases hnext : after.dropWhile blank with
      | nil =>
        rw [hnext, (separated_consuming hconsuming fuel).nil] at hlater
        cases hlater
      | cons first others =>
        rw [dropWhile_append_cons hnext, ← List.cons_append]
        exact ih _ later.1 later.2 (hnext ▸ hlater) more

/-- Fuel for every token is enough, and of the scanner only what it does on shorter texts counts. -/
theorem separated_congr (h : Consuming scan) {n : Nat} (hscan : ∀ text, text.length ≤ n → scan text = scan' text)
    {fuel fuel' : Nat} {text : List τ} (htext : text.length ≤ n) (hfuel : text.length ≤ fuel)
    (hfuel' : text.length ≤ fuel') :
    separated blank comma close scan fuel text = separated blank comma close scan' fuel' text := by
  induction fuel generalizing fuel' text with
  | zero =>
    obtain rfl : text = [] := List.eq_nil_of_length_eq_zero (by omega)
    cases fuel' with
    | zero => rfl
    | succ fuel' => simp only [separated, ← hscan [] (Nat.zero_le n), h.nil]
  | succ fuel ih =>
    cases fuel' with
    | zero =>
      obtain rfl : text = [] := List.eq_nil_of_length_eq_zero (by omega)
      simp only [separated, h.nil]
    | succ fuel' =>
      rw [separated, separated, ← hscan text htext]
      cases htaken : scan text with
      | none => rfl
      | some taken =>
        obtain ⟨value, rest⟩ := taken
        have hrest := h text value rest htaken
        dsimp only
        cases hdrop : rest.dropWhile blank with
        | nil => rfl
        | cons token after =>
          have hafter := dropWhile_length_le blank rest
          have hnext := dropWhile_length_le blank after
          rw [hdrop, List.length_cons] at hafter
          have hsame : separated blank comma close scan fuel (after.dropWhile blank) =
              separated blank comma close scan' fuel' (after.dropWhile blank) :=
            ih (by omega) (by omega) (by omega)
          dsimp only
          rw [hsame]

theorem listed_consuming (h : Consuming scan) (fuel : Nat) : Consuming (listed blank comma close scan fuel) := by
  intro text values rest hscan
  have hdropped := dropWhile_length_le blank text
  unfold listed at hscan
  split at hscan
  · cases hscan
  next token after hdrop =>
    rw [hdrop] at hdropped
    split at hscan
    · obtain ⟨rfl, rfl⟩ := Prod.mk.inj (Option.some.inj hscan)
      rw [List.length_cons] at hdropped
      omega
    · exact Nat.lt_of_lt_of_le (separated_consuming h fuel _ _ _ hscan) hdropped

theorem listed_closed {ends : τ → Bool} (hpunctuation : Punctuation blank ends comma close) (hconsuming : Consuming scan) (h : Steady ends scan) (fuel : Nat) :
    Closed (listed blank comma close scan fuel) := by
  intro text values rest hscan more
  unfold listed at hscan ⊢
  split at hscan
  · cases hscan
  next token after hdrop =>
    rw [dropWhile_append_cons hdrop]
    dsimp only
    split at hscan
    · next hclose =>
      obtain ⟨rfl, rfl⟩ := Prod.mk.inj (Option.some.inj hscan)
      rw [if_pos hclose]
    · next hclose =>
      rw [if_neg hclose]
      exact separated_closed hpunctuation hconsuming h fuel _ values rest hscan more

theorem listed_congr (h : Consuming scan) {n : Nat} (hscan : ∀ text, text.length ≤ n → scan text = scan' text)
    {fuel fuel' : Nat} {text : List τ} (htext : text.length ≤ n) (hfuel : text.length ≤ fuel)
    (hfuel' : text.length ≤ fuel') :
    listed blank comma close scan fuel text = listed blank comma close scan' fuel' text := by
  have hdropped := dropWhile_length_le blank text
  unfold listed
  cases hdrop : text.dropWhile blank with
  | nil => rfl
  | cons token after =>
    rw [hdrop] at hdropped
    dsimp only
    rw [separated_congr h hscan (Nat.le_trans hdropped htext) (Nat.le_trans hdropped hfuel)
      (Nat.le_trans hdropped hfuel')]

-- Written lists

/-- The scanner takes the value back from its text, if nothing follows or something that ends it. -/
def Reads (ends : τ → Bool) (scan : Scanner τ α) (value : α) (text : List τ) : Prop :=
  ∀ rest, rest = [] ∨ Ended ends rest → scan (text ++ rest) = some (value, rest)

/-- The text begins neither with a blank nor with the closing token. -/
def Starts (blank : τ → Bool) (close : τ) (text : List τ) : Prop :=
  ∃ token rest, text = token :: rest ∧ blank token = false ∧ token ≠ close

omit [DecidableEq τ] in
theorem Starts.dropWhile {text : List τ} (h : Starts blank close text) (rest : List τ) :
    (text ++ rest).dropWhile blank = text ++ rest := by
  obtain ⟨token, after, rfl, hblank, -⟩ := h
  exact List.dropWhile_cons_of_neg (by simp [hblank])

variable {ends : τ → Bool} {pad : List τ}

/-- The texts of values, with commas and blanks between them, are read back as their list. -/
theorem separated_written (hpunctuation : Punctuation blank ends comma close) (hpad : ∀ token ∈ pad, blank token = true)
    {values : List α} {texts : List (List τ)}
    (h : List.Forall₂ (fun value text => Reads ends scan value text ∧ Starts blank close text) values texts)
    (hsome : values ≠ []) {fuel : Nat} (hfuel : values.length ≤ fuel) (rest : List τ) :
    separated blank comma close scan fuel ((comma :: pad).intercalate texts ++ close :: rest) = some (values, rest) := by
  induction h generalizing fuel with
  | nil => exact absurd rfl hsome
  | @cons value text values texts hfirst hrest ih =>
    obtain ⟨fuel, rfl⟩ : ∃ n, fuel = n + 1 := Nat.exists_eq_succ_of_ne_zero (by rintro rfl; simp at hfuel)
    rw [List.length_cons, Nat.add_le_add_iff_right] at hfuel
    cases hrest with
    | nil =>
      have hread := hfirst.1 (close :: rest) (.inr ⟨close, rest, rfl, hpunctuation.ends_close⟩)
      rw [List.intercalate_singleton]
      refine separated_succ.2 ⟨value, close :: rest, close, rest, hread, ?_, .inl ⟨rfl, rfl⟩⟩
      exact List.dropWhile_cons_of_neg (by simp [hpunctuation.close_not_blank])
    | @cons next nextText others otherTexts hnext hothers =>
      have hlater := ih (List.cons_ne_nil _ _) hfuel
      have htext : (comma :: pad).intercalate (text :: nextText :: otherTexts) ++ close :: rest =
          text ++ comma :: (pad ++ ((comma :: pad).intercalate (nextText :: otherTexts) ++ close :: rest)) := by
        simp [List.intercalate]
      have hstart : ∃ after, (comma :: pad).intercalate (nextText :: otherTexts) = nextText ++ after := by
        cases otherTexts <;> simp [List.intercalate]
      obtain ⟨after, hafter⟩ := hstart
      rw [htext]
      refine separated_succ.2 ⟨value, _, comma, _, hfirst.1 _ (.inr ⟨comma, _, rfl, hpunctuation.ends_comma⟩),
        List.dropWhile_cons_of_neg (by simp [hpunctuation.comma_not_blank]),
        .inr ⟨hpunctuation.comma_ne_close, rfl, (next :: others, rest), rfl, ?_⟩⟩
      rw [List.dropWhile_append_of_pos hpad, hafter, List.append_assoc, hnext.2.dropWhile, ← List.append_assoc, ← hafter]
      exact hlater

theorem listed_written (hpunctuation : Punctuation blank ends comma close) (hpad : ∀ token ∈ pad, blank token = true)
    {values : List α} {texts : List (List τ)}
    (h : List.Forall₂ (fun value text => Reads ends scan value text ∧ Starts blank close text) values texts)
    {fuel : Nat} (hfuel : values.length ≤ fuel) (rest : List τ) :
    listed blank comma close scan fuel ((comma :: pad).intercalate texts ++ close :: rest) = some (values, rest) := by
  cases h with
  | nil =>
    have hdrop : (close :: rest).dropWhile blank = close :: rest :=
      List.dropWhile_cons_of_neg (by simp [hpunctuation.close_not_blank])
    simp [listed, List.intercalate, hdrop]
  | @cons value text values texts hfirst hrest =>
    have hread := separated_written hpunctuation hpad (.cons hfirst hrest) (List.cons_ne_nil _ _) hfuel rest
    obtain ⟨token, after, rfl, hblank, hclose⟩ := hfirst.2
    have hstart : ∃ later, (comma :: pad).intercalate ((token :: after) :: texts) ++ close :: rest = token :: later := by
      cases texts <;> simp [List.intercalate]
    obtain ⟨later, hlater⟩ := hstart
    rw [hlater] at hread ⊢
    have hdrop : (token :: later).dropWhile blank = token :: later := List.dropWhile_cons_of_neg (by simp [hblank])
    rw [listed, hdrop]
    simpa [hclose] using hread

end Scanning
