import ChainWeaver.Interaction.Prog

/-!
# Graded computations

A judgement on computations with a number that adds up over their parts: how much
of a resource a computation may use. What holds of the parts holds of the whole,
whatever it is that the judgement says.
-/

namespace Interaction

variable {S : Signature} {ε σ : Type}

/-- A judgement that can be put together from the parts of a computation. -/
structure Graded (G : ∀ {α : Type}, Nat → Comp S ε σ α → Prop) : Prop where
  weaken {α : Type} {c : Comp S ε σ α} : G m c → m ≤ n → G n c
  pure {α : Type} (value : α) : G 0 (Pure.pure value : Comp S ε σ α)
  throw {α : Type} (e : ε) : G 0 (MonadExcept.throw e : Comp S ε σ α)
  bind {α β : Type} {c : Comp S ε σ α} {f : α → Comp S ε σ β} :
    G m c → (∀ value, G n (f value)) → G (m + n) (c >>= f)
  attempt {α : Type} {c : Comp S ε σ α} : G n c → G n (Comp.attempt c)

namespace Graded

variable {G : ∀ {α : Type}, Nat → Comp S ε σ α → Prop} {α β : Type} {c : Comp S ε σ α} {f : α → Comp S ε σ β}

theorem free (h : Graded G) (hc : G 0 c) : G n c := h.weaken hc (Nat.zero_le n)

/-- A part that is free, and what follows it. -/
theorem before (h : Graded G) (hc : G 0 c) (hf : ∀ value, G n (f value)) : G n (c >>= f) :=
  Nat.zero_add n ▸ h.bind hc hf

/-- A part, and what follows it for free. -/
theorem behind (h : Graded G) (hc : G n c) (hf : ∀ value, G 0 (f value)) : G n (c >>= f) :=
  h.bind hc hf

end Graded

-- Courses

/-- How a path may change the state, in terms of its events. -/
structure Course (S : Signature) (σ : Type) where
  Goes : Nat → σ → List (Event S) → σ → Prop
  stay : Goes 0 s [] s
  more : Goes m s events s' → m ≤ n → Goes n s events s'
  append : Goes m s first middle → Goes n middle second s' → Goes (m + n) s (first ++ second) s'

/-- Every path of the computation takes the course. -/
def Course.Takes (K : Course S σ) (n : Nat) (c : Comp S ε σ α) : Prop :=
  ∀ s events r s', c.Runs s events r s' → K.Goes n s events s'

theorem Course.graded (K : Course S σ) : Graded fun n (c : Comp S ε σ _) => K.Takes n c where
  weaken h hle s events r s' hrun := K.more (h s events r s' hrun) hle
  pure value s events r s' hrun := by
    obtain ⟨rfl, -, rfl⟩ := Comp.runs_pure.1 hrun
    exact K.stay
  throw e s events r s' hrun := by
    obtain ⟨rfl, -, rfl⟩ := Comp.runs_throw.1 hrun
    exact K.stay
  bind {m n _ _ _ _} hc hf s events r s' hrun := by
    rcases Comp.runs_bind.1 hrun with ⟨first, value, middle, second, rfl, hfirst, hsecond⟩ | ⟨e, -, herror⟩
    · exact K.append (hc _ _ _ _ hfirst) (hf value _ _ _ _ hsecond)
    · exact K.more (hc _ _ _ _ herror) (Nat.le_add_right m n)
  attempt hc s events r s' hrun := by
    obtain ⟨outcome, -, hrun⟩ := Comp.runs_attempt.1 hrun
    exact hc _ _ _ _ hrun

end Interaction
