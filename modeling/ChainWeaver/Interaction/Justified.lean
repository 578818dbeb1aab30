import ChainWeaver.Interaction.Gather
import ChainWeaver.Interaction.Rules

/-!
# Justified traces

In a justified trace every event stands behind what it needs. Needs last: what
is met stays met, so justified traces can be put together, one after the other
or interleaved.
-/

namespace Interaction

variable {S : Signature}

/-- A set of traces that can be put together in both ways. -/
structure Mixable (T : List (Event S) → Prop) : Prop extends Closed T where
  merged : Prog.Merged pieces events → (∀ piece ∈ pieces, T piece) → T events

/-- Every event of `events` is justified by those before it, `history` included. -/
def Justified (J : List (Event S) → Event S → Prop) (history events : List (Event S)) : Prop :=
  ∀ before e after, events = before ++ e :: after → J (history ++ before) e

/-- Events that come in between do not undo a justification. -/
def Lasting (J : List (Event S) → Event S → Prop) : Prop :=
  ∀ (first second : List (Event S)) (e : Event S), first.Sublist second → J first e → J second e

variable {J : List (Event S) → Event S → Prop} {history first second events : List (Event S)}

theorem Justified.nil : Justified J history [] := fun before e after h => by simp at h

theorem Justified.single (h : J history e) : Justified J history [e] := by
  intro before e' after heq
  cases before with
  | nil =>
    obtain ⟨rfl, -⟩ := List.cons.inj heq
    simpa using h
  | cons b before => simp at heq

theorem Justified.append (h₁ : Justified J history first) (h₂ : Justified J (history ++ first) second) :
    Justified J history (first ++ second) := by
  intro before e after heq
  rcases List.append_eq_append_iff.1 heq with ⟨rest, rfl, h⟩ | ⟨rest, rfl, h⟩
  · rw [← List.append_assoc]
    exact h₂ rest e after h
  · cases rest with
    | nil =>
      have := h₂ [] e after (by simpa using h.symm)
      simpa using this
    | cons b rest =>
      obtain ⟨rfl, rfl⟩ := List.cons.inj h
      exact h₁ before e rest rfl

theorem Justified.mono (hJ : Lasting J) (hsub : first.Sublist second) (h : Justified J first events) :
    Justified J second events :=
  fun before e after heq => hJ _ _ _ (hsub.append_right before) (h before e after heq)

/-- Behind more history more is justified. -/
theorem Justified.behind (hJ : Lasting J) (h : Justified J [] events) : Justified J history events :=
  h.mono hJ (List.nil_sublist _)

theorem Justified.mixable (hJ : Lasting J) (history : List (Event S)) : Mixable (Justified J history) where
  nil := .nil
  append h₁ h₂ := h₁.append (h₂.mono hJ (List.sublist_append_left _ _))
  merged hm hpieces := by
    rintro before e after rfl
    obtain ⟨piece, hp, own, rest, rfl, hsub⟩ := hm.split
    exact hJ _ _ _ (hsub.append_left _) (hpieces _ hp own e rest rfl)

theorem Mixable.given {T : List (Event S) → Prop} (hT : Mixable T) (p : Prop) :
    Mixable fun events => p → T events where
  nil _ := hT.nil
  append h₁ h₂ hp := hT.append (h₁ hp) (h₂ hp)
  merged hm hpieces hp := hT.merged hm fun piece hmem => hpieces piece hmem hp

/-- Traces that keep to `T` as long as all their events keep to `C`. -/
def Under (C : Event S → Prop) (T : List (Event S) → Prop) (events : List (Event S)) : Prop :=
  (∀ e ∈ events, C e) → T events

theorem Under.mixable (C : Event S → Prop) {T : List (Event S) → Prop} (hT : Mixable T) :
    Mixable (Under C T) where
  nil _ := hT.nil
  append h₁ h₂ hC := hT.append (h₁ fun e he => hC e (by simp [he])) (h₂ fun e he => hC e (by simp [he]))
  merged hm hpieces hC :=
    hT.merged hm fun piece hp => hpieces piece hp fun e he => hC e ((hm.sublist hp).subset he)

/-- Traces all of whose events keep to `A`. -/
def Always (A : Event S → Prop) (events : List (Event S)) : Prop := ∀ e ∈ events, A e

theorem Always.mixable (A : Event S → Prop) : Mixable (Always A) where
  nil e he := by simp at he
  append h₁ h₂ e he := (List.mem_append.1 he).elim (h₁ e) (h₂ e)
  merged hm hpieces e he := by
    obtain ⟨piece, hp, he⟩ := hm.mem he
    exact hpieces piece hp e he

/-- Traces with as many events of one kind as of another. -/
def Balanced (p q : Event S → Bool) (events : List (Event S)) : Prop := events.countP p = events.countP q

theorem Balanced.mixable (p q : Event S → Bool) : Mixable (Balanced p q) where
  nil := rfl
  append h₁ h₂ := by
    unfold Balanced at *
    rw [List.countP_append, List.countP_append, h₁, h₂]
  merged {pieces events} hm hpieces := by
    unfold Balanced
    rw [hm.perm.countP_eq p, hm.perm.countP_eq q, List.countP_flatten, List.countP_flatten,
      List.map_congr_left hpieces]

theorem Mixable.and {T T' : List (Event S) → Prop} (hT : Mixable T) (hT' : Mixable T') :
    Mixable fun events => T events ∧ T' events where
  nil := ⟨hT.nil, hT'.nil⟩
  append h₁ h₂ := ⟨hT.append h₁.1 h₂.1, hT'.append h₁.2 h₂.2⟩
  merged hm hpieces :=
    ⟨hT.merged hm fun piece hp => (hpieces piece hp).1, hT'.merged hm fun piece hp => (hpieces piece hp).2⟩

end Interaction
