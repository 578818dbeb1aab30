import Mathlib.Data.List.Basic

/-!
# Substitution

What replaces the hits of a pattern in a text. A pattern is known by how it cuts texts, as a
regular expression that is compiled does: into characters outside of its hits and the hits.
-/

namespace Substitution

/-- A part of a text that was cut: a character between the hits, or a hit. -/
inductive Piece (τ μ : Type)
  | plain (c : τ)
  | hit (found : μ)
  deriving DecidableEq

variable {τ μ σ : Type}

/-- The pieces put together, with the texts of the hits. -/
def joined (textOf : μ → List τ) : List (Piece τ μ) → List τ
  | [] => []
  | .plain c :: rest => c :: joined textOf rest
  | .hit found :: rest => textOf found ++ joined textOf rest

/-- A compiled pattern, whose hits `textOf` gives the texts of. -/
structure Pattern (textOf : μ → List τ) where
  /-- What `finditer` finds, with what stands between. -/
  cut : List τ → List (Piece τ μ)
  joined_cut : ∀ text, joined textOf (cut text) = text

/-- The pieces put together, with what `replace` makes of the hits, one after the other. -/
def sub (replace : μ → StateM σ (List τ)) : List (Piece τ μ) → StateM σ (List τ)
  | [] => pure []
  | .plain c :: rest => do
    let later ← sub replace rest
    pure (c :: later)
  | .hit found :: rest => do
    let new ← replace found
    let later ← sub replace rest
    pure (new ++ later)

section

variable {textOf : μ → List τ} (pattern : Option (Pattern textOf))

/-- How a pattern cuts a text, if there is one. -/
def piecesOf (text : List τ) : List (Piece τ μ) :=
  match pattern with
  | some pattern => pattern.cut text
  | none => text.map .plain

/-- `pattern.sub(replace, text)`, if there is a pattern. -/
def subOf (replace : μ → StateM σ (List τ)) (text : List τ) : StateM σ (List τ) :=
  match pattern with
  | some pattern => sub replace (pattern.cut text)
  | none => pure text

end

def hits : List (Piece τ μ) → List μ
  | [] => []
  | .plain _ :: rest => hits rest
  | .hit found :: rest => found :: hits rest

section

variable {textOf textOf' : μ → List τ} {pieces more : List (Piece τ μ)}

@[simp] theorem joined_append (textOf : μ → List τ) (pieces more : List (Piece τ μ)) :
    joined textOf (pieces ++ more) = joined textOf pieces ++ joined textOf more := by
  induction pieces with
  | nil => rfl
  | cons piece rest ih => cases piece <;> simp [joined, ih]

@[simp] theorem joined_map_plain (textOf : μ → List τ) (text : List τ) :
    joined textOf (text.map .plain) = text := by
  induction text with
  | nil => rfl
  | cons c rest ih => simp [joined, ih]

@[simp] theorem hits_map_plain (text : List τ) : hits (text.map .plain : List (Piece τ μ)) = [] := by
  induction text with
  | nil => rfl
  | cons c rest ih => simpa [hits] using ih

theorem joined_piecesOf (pattern : Option (Pattern textOf)) (text : List τ) :
    joined textOf (piecesOf pattern text) = text := by
  cases pattern with
  | none => exact joined_map_plain textOf text
  | some pattern => exact pattern.joined_cut text

/-- Without a hit, nothing is replaced. -/
theorem joined_of_hits_eq_nil (h : hits pieces = []) : joined textOf pieces = joined textOf' pieces := by
  induction pieces with
  | nil => rfl
  | cons piece rest ih =>
    cases piece with
    | plain c => rw [joined, joined, ih h]
    | hit found => cases h

@[simp] theorem hits_append (pieces more : List (Piece τ μ)) : hits (pieces ++ more) = hits pieces ++ hits more := by
  induction pieces with
  | nil => rfl
  | cons piece rest ih => cases piece <;> simp [hits, ih]

/-- Pieces that nothing is made of are none. -/
theorem eq_nil_of_joined (hpos : ∀ found ∈ hits pieces, textOf found ≠ []) (h : joined textOf pieces = []) :
    pieces = [] := by
  cases pieces with
  | nil => rfl
  | cons piece rest =>
    cases piece with
    | plain c => cases h
    | hit found => exact absurd (List.append_eq_nil_iff.1 h).1 (hpos found (.head _))

end

-- Patterns that are tried at every position

section

variable (matchAt : Option τ → List τ → Option μ) (textOf : μ → List τ)

/-- Cuts a text by trying it at every position, with the character before that position at
hand. The next `skip` characters belong to the last hit. -/
def scan (previous : Option τ) (skip : Nat) : List τ → List (Piece τ μ)
  | [] => []
  | c :: rest =>
    match skip with
    | skip + 1 => scan (some c) skip rest
    | 0 =>
      match matchAt previous (c :: rest) with
      | some found => .hit found :: scan (some c) ((textOf found).length - 1) rest
      | none => .plain c :: scan (some c) 0 rest

/-- A hit is what the text begins with, and not empty. -/
def Sound : Prop := ∀ previous text found, matchAt previous text = some found → textOf found <+: text ∧ textOf found ≠ []

variable {matchAt textOf}

theorem joined_scan (h : Sound matchAt textOf) (previous : Option τ) (skip : Nat) (text : List τ) :
    joined textOf (scan matchAt textOf previous skip text) = text.drop skip := by
  induction text generalizing previous skip with
  | nil => simp [scan, joined]
  | cons c rest ih =>
    cases skip with
    | succ skip => exact ih (some c) skip
    | zero =>
      rw [scan]
      cases hmatch : matchAt previous (c :: rest) with
      | none => simp [joined, ih]
      | some found =>
        obtain ⟨⟨more, hmore⟩, hpos⟩ := h previous (c :: rest) found hmatch
        obtain ⟨c', tail, htext⟩ := List.exists_cons_of_ne_nil hpos
        rw [htext, List.cons_append, List.cons.injEq] at hmore
        obtain ⟨rfl, rfl⟩ := hmore
        simp [joined, ih, htext]

/-- The pattern that is tried at every position. -/
def Pattern.ofMatchAt (h : Sound matchAt textOf) : Pattern textOf where
  cut := scan matchAt textOf none 0
  joined_cut text := joined_scan h none 0 text

end

-- Parts of a text that the hits leave alone

section

variable (textOf : μ → List τ) (left part right : List τ)

/-- A hit reaches into the part between `left` and `right`: it begins before the end of that
part, and ends behind its beginning. -/
def Reaches (before : List (Piece τ μ)) (found : μ) : Prop :=
  (joined textOf before).length < left.length + part.length ∧
    left.length < (joined textOf before).length + (textOf found).length

variable {textOf left part right} {pieces : List (Piece τ μ)}

/-- A piece is in one of three parts. -/
theorem split_cases {α : Type} {before after head middle tail : List α} {a : α}
    (h : before ++ a :: after = head ++ middle ++ tail) :
    (∃ more, head = before ++ a :: more) ∨
      (∃ front back, before = head ++ front ∧ middle = front ++ a :: back) ∨ ∃ front, before = head ++ middle ++ front := by
  have hlater : ∀ front, before = head ++ front → middle ++ tail = front ++ a :: after →
      (∃ front back, before = head ++ front ∧ middle = front ++ a :: back) ∨ ∃ front, before = head ++ middle ++ front := by
    intro front hbefore hrest
    rcases List.append_eq_append_iff.1 hrest with ⟨front', hfront, -⟩ | ⟨back, hmiddle, hback⟩
    · exact .inr ⟨front', by rw [hbefore, hfront, List.append_assoc]⟩
    · cases back with
      | nil => exact .inr ⟨[], by rw [hbefore, hmiddle]; simp⟩
      | cons a' back =>
        obtain ⟨rfl, -⟩ := List.cons.inj hback
        exact .inl ⟨front, back, hbefore, hmiddle⟩
  rw [List.append_assoc] at h
  rcases List.append_eq_append_iff.1 h with ⟨more, hhead, hmore⟩ | ⟨front, hbefore, hrest⟩
  · cases more with
    | nil => exact .inr (hlater [] (by rw [hhead]; simp) hmore.symm)
    | cons a' more =>
      obtain ⟨rfl, -⟩ := List.cons.inj hmore
      exact .inl ⟨more, hhead⟩
  · exact .inr (hlater front hbefore hrest)

/-- No hit begins before the end of what the pieces begin with: it is left as it is. -/
theorem exists_plain (htext : joined textOf pieces = part ++ right)
    (h : ∀ before found after, pieces = before ++ .hit found :: after → ¬ (joined textOf before).length < part.length) :
    ∃ after, pieces = part.map .plain ++ after ∧ joined textOf after = right := by
  induction part generalizing pieces with
  | nil => exact ⟨pieces, rfl, htext⟩
  | cons c part ih =>
    cases pieces with
    | nil => cases htext
    | cons piece rest =>
      cases piece with
      | hit found => exact absurd (Nat.zero_lt_succ _) (h [] found rest rfl)
      | plain c' =>
        rw [joined, List.cons_append, List.cons.injEq] at htext
        obtain ⟨rfl, htext⟩ := htext
        obtain ⟨after, rfl, hafter⟩ := ih htext fun before found after hpieces hlength =>
          h (.plain c' :: before) found after (by rw [hpieces]; rfl) (by simpa [joined] using hlength)
        exact ⟨after, rfl, hafter⟩

/-- The hits that reach into a part of the text are the whole part. Then the pieces can be
split at its ends, and it is left as it is or is a hit itself. -/
theorem exists_split {good : μ → Prop} (hpart : part ≠ []) (htext : joined textOf pieces = left ++ part ++ right)
    (h : ∀ before found after, pieces = before ++ .hit found :: after → Reaches textOf left part before found →
      joined textOf before = left ∧ textOf found = part ∧ good found) :
    ∃ before middle after, pieces = before ++ middle ++ after ∧ joined textOf before = left ∧
      joined textOf after = right ∧ (middle = part.map .plain ∨ ∃ found, middle = [.hit found] ∧ textOf found = part ∧ good found) := by
  induction pieces generalizing left with
  | nil =>
    simp only [joined] at htext
    exact absurd (List.append_eq_nil_iff.1 (List.append_eq_nil_iff.1 htext.symm).1).2 hpart
  | cons piece rest ih =>
    have hlater : ∀ left', left = joined textOf [piece] ++ left' →
        ∃ before middle after, piece :: rest = before ++ middle ++ after ∧ joined textOf before = left ∧
          joined textOf after = right ∧
            (middle = part.map .plain ∨ ∃ found, middle = [.hit found] ∧ textOf found = part ∧ good found) := by
      intro left' hleft
      have hcons : ∀ pieces, joined textOf (piece :: pieces) = joined textOf [piece] ++ joined textOf pieces :=
        fun pieces => joined_append textOf [piece] pieces
      have hrest : joined textOf rest = left' ++ part ++ right := by
        rw [hcons, hleft, List.append_assoc, List.append_assoc] at htext
        simpa using List.append_cancel_left htext
      obtain ⟨before, middle, after, rfl, hbefore, hafter, hmiddle⟩ :=
        ih hrest fun before found after hpieces hreaches => by
          have hreaches' : Reaches textOf left part (piece :: before) found := by
            unfold Reaches at hreaches ⊢
            rw [hcons before, hleft, List.length_append, List.length_append]
            omega
          obtain ⟨hbefore, hfound, hgood⟩ := h (piece :: before) found after (by rw [hpieces]; rfl) hreaches'
          rw [hcons, hleft] at hbefore
          exact ⟨List.append_cancel_left hbefore, hfound, hgood⟩
      exact ⟨piece :: before, middle, after, rfl, by rw [hcons, hbefore, hleft], hafter, hmiddle⟩
    cases piece with
    | plain c =>
      cases left with
      | cons c' left' =>
        simp only [joined, List.cons_append, List.cons.injEq] at htext
        exact hlater left' (by rw [htext.1]; rfl)
      | nil =>
        have hrest : joined textOf (.plain c :: rest) = part ++ right := by simpa using htext
        obtain ⟨after, hafter⟩ := exists_plain hrest
          fun before found after hpieces hlength => by
            cases before with
            | nil => cases hpieces
            | cons piece before =>
              have hpiece : piece = .plain c := (List.cons.inj hpieces).1.symm
              have hreaches : Reaches textOf [] part (piece :: before) found :=
                ⟨by simpa using hlength, by rw [hpiece, joined, List.length_cons, List.length_nil]; omega⟩
              have hnil := (h (piece :: before) found after hpieces hreaches).1
              rw [hpiece] at hnil
              cases hnil
        exact ⟨[], part.map .plain, after, by simpa using hafter.1, rfl, hafter.2, .inl rfl⟩
    | hit found =>
      rw [joined, List.append_assoc] at htext
      rcases List.append_eq_append_iff.1 htext with ⟨left', hleft, -⟩ | ⟨beyond, hfound, hright⟩
      · exact hlater left' (by rw [hleft, joined, joined, List.append_nil])
      · cases beyond with
        | nil => exact hlater [] (by rw [joined, joined, hfound]; simp)
        | cons c beyond =>
          have hreaches : Reaches textOf left part [] found :=
            ⟨Nat.add_pos_right _ (List.length_pos_of_ne_nil hpart), by simp [joined, hfound]⟩
          obtain ⟨hleft, hpart, hgood⟩ := h [] found rest rfl hreaches
          obtain rfl : left = [] := hleft.symm
          refine ⟨[], [.hit found], rest, rfl, rfl, ?_, .inr ⟨found, rfl, hpart, hgood⟩⟩
          rw [List.nil_append, hpart] at htext
          exact List.append_cancel_left htext

end

end Substitution
