import ChainWeaver.Interaction.Justified

/-!
# Brackets

Traces in which some events open a bracket and some close one. In an enclosed trace
no bracket closes that has not been opened, and all are closed in the end, so
that what it holds is inside any bracket around it.
-/

namespace Interaction

variable {S : Signature} {opens closes : Event S → Bool}

/-- From `depth` open brackets on, none closes that is not open, and `depth'` are
left. -/
structure Descends (opens closes : Event S → Bool) (depth depth' : Nat) (events : List (Event S)) : Prop where
  along : ∀ before after, events = before ++ after → before.countP closes ≤ depth + before.countP opens
  whole : depth + events.countP opens = depth' + events.countP closes

abbrev Enclosed (opens closes : Event S → Bool) (events : List (Event S)) : Prop :=
  Descends opens closes 0 0 events

/-- The events outside of all brackets, where `depth` of them are open at first. -/
def outside (opens closes : Event S → Bool) : Nat → List (Event S) → List (Event S)
  | _, [] => []
  | depth, e :: rest =>
    (if depth = 0 ∧ opens e = false ∧ closes e = false then [e] else []) ++
      outside opens closes (depth + (if opens e then 1 else 0) - (if closes e then 1 else 0)) rest

theorem Descends.nil : Descends opens closes depth depth [] where
  along before after h := by
    obtain ⟨rfl, -⟩ := List.append_eq_nil_iff.1 h.symm
    exact Nat.zero_le _
  whole := rfl

theorem Descends.append (hfirst : Descends opens closes depth middle first)
    (hsecond : Descends opens closes middle depth' second) : Descends opens closes depth depth' (first ++ second) where
  along before after h := by
    rcases List.append_eq_append_iff.1 h with ⟨rest, rfl, hrest⟩ | ⟨rest, rfl, -⟩
    · have hwhole := hfirst.whole
      have halong := hsecond.along rest after hrest
      simp only [List.countP_append]
      omega
    · exact hfirst.along before rest rfl
  whole := by
    have hwhole := hfirst.whole
    have hrest := hsecond.whole
    simp only [List.countP_append]
    omega

/-- More brackets around the trace. -/
theorem Descends.deeper (h : Descends opens closes depth depth' events) (n : Nat) :
    Descends opens closes (depth + n) (depth' + n) events where
  along before after heq := by
    have := h.along before after heq
    omega
  whole := by
    have := h.whole
    omega

theorem Descends.tail (h : Descends opens closes depth depth' (e :: rest)) :
    ∃ middle, middle + (if closes e then 1 else 0) = depth + (if opens e then 1 else 0) ∧
      Descends opens closes middle depth' rest := by
  have hhead := h.along [e] rest rfl
  simp only [List.countP_singleton] at hhead
  refine ⟨depth + (if opens e then 1 else 0) - (if closes e then 1 else 0), by omega, fun before after heq => ?_, ?_⟩
  · have halong := h.along (e :: before) after (by rw [heq, List.cons_append])
    simp only [List.countP_cons] at halong
    omega
  · have hwhole := h.whole
    simp only [List.countP_cons] at hwhole
    omega

theorem enclosed_single (hopens : opens e = false) (hcloses : closes e = false) : Enclosed opens closes [e] where
  along before after h := by
    cases before with
    | nil => exact Nat.zero_le _
    | cons first before =>
      obtain ⟨rfl, hrest⟩ := List.cons.inj h
      obtain ⟨rfl, -⟩ := List.append_eq_nil_iff.1 hrest.symm
      simp [hcloses]
  whole := by simp [hopens, hcloses]

-- Outside

theorem outside_append (h : Descends opens closes depth depth' first) :
    outside opens closes depth (first ++ second) =
      outside opens closes depth first ++ outside opens closes depth' second := by
  induction first generalizing depth with
  | nil =>
    obtain rfl : depth = depth' := by simpa using h.whole
    rfl
  | cons e rest ih =>
    obtain ⟨middle, hmiddle, hrest⟩ := h.tail
    have hnext : depth + (if opens e then 1 else 0) - (if closes e then 1 else 0) = middle := by omega
    rw [List.cons_append, outside, outside, hnext, ih hrest, List.append_assoc]

/-- Inside a bracket nothing is outside. -/
theorem Descends.outside_deeper (h : Descends opens closes depth depth' events) :
    outside opens closes (depth + 1) events = [] := by
  induction events generalizing depth with
  | nil => rfl
  | cons e rest ih =>
    obtain ⟨middle, hmiddle, hrest⟩ := h.tail
    have hnext : depth + 1 + (if opens e then 1 else 0) - (if closes e then 1 else 0) = middle + 1 := by omega
    rw [outside, hnext, ih hrest]
    simp

section

variable {left right : Event S}

/-- A pair of brackets around an enclosed trace. -/
theorem Descends.bracket (h : Enclosed opens closes events) (hleft : opens left = true) (hleft' : closes left = false)
    (hright : opens right = false) (hright' : closes right = true) :
    Enclosed opens closes ([left] ++ events ++ [right]) := by
  have hopen : Descends opens closes 0 1 [left] := by
    refine ⟨fun before after heq => ?_, by simp [hleft, hleft']⟩
    cases before with
    | nil => exact Nat.zero_le _
    | cons first before =>
      obtain ⟨rfl, hrest⟩ := List.cons.inj heq
      obtain ⟨rfl, -⟩ := List.append_eq_nil_iff.1 hrest.symm
      simp [hleft']
  have hclose : Descends opens closes 1 0 [right] := by
    refine ⟨fun before after heq => ?_, by simp [hright, hright']⟩
    cases before with
    | nil => exact Nat.zero_le _
    | cons first before =>
      obtain ⟨rfl, hrest⟩ := List.cons.inj heq
      obtain ⟨rfl, -⟩ := List.append_eq_nil_iff.1 hrest.symm
      simp [hright', hright]
  exact (hopen.append (h.deeper 1)).append hclose

theorem outside_bracket (h : Enclosed opens closes events) (hleft : opens left = true) (hleft' : closes left = false)
    (hright' : closes right = true) : outside opens closes 0 ([left] ++ events ++ [right]) = [] := by
  have hinside : outside opens closes 1 (events ++ [right]) = [] := by
    rw [outside_append (h.deeper 1), h.outside_deeper]
    simp [outside, hright']
  rw [List.append_assoc, List.singleton_append, outside]
  simp [hleft, hleft', hinside]

end

-- Interleavings

/-- What comes first in each piece. -/
abbrev Fronts (fronts pieces : List (List (Event S))) : Prop := List.Forall₂ (· <+: ·) fronts pieces

theorem fronts_set {fronts pieces : List (List (Event S))} (h : Fronts fronts pieces)
    (hplace : pieces[place]? = some piece) :
    ∃ front, fronts[place]? = some front ∧ Fronts (fronts.set place (e :: front)) (pieces.set place (e :: piece)) := by
  induction h generalizing place with
  | nil => simp at hplace
  | @cons front own fronts pieces hfront hrest ih =>
    cases place with
    | zero =>
      obtain rfl := Option.some.inj hplace
      exact ⟨front, rfl, .cons (List.cons_prefix_cons.2 ⟨rfl, hfront⟩) hrest⟩
    | succ place =>
      obtain ⟨found, hfound, hset⟩ := ih hplace
      exact ⟨found, hfound, .cons hfront hset⟩

theorem fronts_nil (pieces : List (List (Event S))) : ∃ fronts, Fronts fronts pieces ∧ Prog.Merged fronts [] := by
  induction pieces with
  | nil => exact ⟨[], .nil, .nil⟩
  | cons piece pieces ih =>
    obtain ⟨fronts, hfronts, hmerged⟩ := ih
    exact ⟨[] :: fronts, .cons List.nil_prefix hfronts, .empty hmerged⟩

/-- The front of an interleaving interleaves fronts of its pieces. -/
theorem merged_front {pieces : List (List (Event S))} {before after : List (Event S)}
    (h : Prog.Merged pieces (before ++ after)) : ∃ fronts, Fronts fronts pieces ∧ Prog.Merged fronts before := by
  generalize heq : before ++ after = events at h
  induction h generalizing before with
  | nil =>
    obtain ⟨rfl, -⟩ := List.append_eq_nil_iff.1 heq
    exact fronts_nil []
  | empty _ ih =>
    obtain ⟨fronts, hfronts, hmerged⟩ := ih heq
    exact ⟨[] :: fronts, .cons List.nil_prefix hfronts, .empty hmerged⟩
  | take place hplace _ ih =>
    cases before with
    | nil => exact fronts_nil _
    | cons first before =>
      obtain ⟨rfl, hrest⟩ := List.cons.inj heq
      obtain ⟨fronts, hfronts, hmerged⟩ := ih hrest
      obtain ⟨front, hfront, hset⟩ := fronts_set hfronts hplace
      exact ⟨_, hset, hmerged.take place hfront⟩

theorem Enclosed.mixable (opens closes : Event S → Bool) : Mixable (Enclosed opens closes) where
  nil := .nil
  append := Descends.append
  merged {pieces events} hmerged hpieces := by
    have hbound : ∀ {fronts}, Fronts fronts pieces →
        fronts.flatten.countP closes ≤ fronts.flatten.countP opens := by
      intro fronts hfronts
      clear hmerged
      induction hfronts with
      | nil => simp
      | @cons front piece fronts pieces hfront _ ih =>
        obtain ⟨rest, hrest⟩ := hfront
        have hown := (hpieces piece (by simp)).along front rest hrest.symm
        have hothers := ih fun other hother => hpieces other (by simp [hother])
        simp only [List.flatten_cons, List.countP_append]
        omega
    refine ⟨fun before after heq => ?_, ?_⟩
    · obtain ⟨fronts, hfronts, hbefore⟩ := merged_front (heq ▸ hmerged)
      rw [hbefore.perm.countP_eq closes, hbefore.perm.countP_eq opens, Nat.zero_add]
      exact hbound hfronts
    · rw [hmerged.perm.countP_eq closes, hmerged.perm.countP_eq opens, List.countP_flatten, List.countP_flatten]
      congr 2
      exact List.map_congr_left fun piece hp => by simpa using (hpieces piece hp).whole

end Interaction
