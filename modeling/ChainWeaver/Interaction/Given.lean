import ChainWeaver.Interaction.Gather
import ChainWeaver.Interaction.Rules
import Mathlib.Data.List.Forall2

/-!
# Outcomes under an assumption on the answers

A judgement about the paths of a computation whose events all lie in a set: what it
returns and what it raises there. The set says what the surroundings are trusted
with.
-/

namespace Interaction

variable {S : Signature} {ε σ : Type}

/-- A value in `Q`, or an error in `E`. -/
def Outcome (Q : α → Prop) (E : ε → Prop) : Except ε α → Prop
  | .ok value => Q value
  | .error e => E e

namespace Frame

variable (F : Frame S σ)

/-- Every path of `c` from a good state that meets only events in `A` ends in a good
state, with a value in `Q` or an error in `E`. -/
def Given (A : Event S → Prop) (c : Comp S ε σ α) (Q : α → Prop) (E : ε → Prop) : Prop :=
  ∀ s events r s', F.Inv s → (∀ e ∈ events, A e) → c.Runs s events r s' → F.Inv s' ∧ Outcome Q E r

variable {F} {A : Event S → Prop} {c : Comp S ε σ α} {Q Q' : α → Prop} {R : β → Prop} {E E' : ε → Prop}

namespace Given

theorem weaken (h : F.Given A c Q E) (hQ : ∀ value, Q value → Q' value) (hE : ∀ e, E e → E' e) :
    F.Given A c Q' E' := by
  intro s events r s' hs ha hrun
  obtain ⟨hs', hr⟩ := h s events r s' hs ha hrun
  refine ⟨hs', ?_⟩
  cases r with
  | ok value => exact hQ value hr
  | error e => exact hE e hr

theorem post (h : F.Given A c Q E) (hQ : ∀ value, Q value → Q' value) : F.Given A c Q' E :=
  h.weaken hQ fun _ => id

/-- Fewer events are met where more is assumed of them. -/
theorem assume {A' : Event S → Prop} (h : F.Given A c Q E) (hA : ∀ e, A' e → A e) : F.Given A' c Q E :=
  fun s events r s' hs ha hrun => h s events r s' hs (fun e he => hA e (ha e he)) hrun

theorem pure {value : α} (h : Q value) : F.Given A (Pure.pure value : Comp S ε σ α) Q E := by
  intro s events r s' hs _ hrun
  obtain ⟨rfl, rfl, rfl⟩ := Comp.runs_pure.1 hrun
  exact ⟨hs, h⟩

theorem throw {e : ε} (h : E e) : F.Given A (MonadExcept.throw e : Comp S ε σ α) Q E := by
  intro s events r s' hs _ hrun
  obtain ⟨rfl, rfl, rfl⟩ := Comp.runs_throw.1 hrun
  exact ⟨hs, h⟩

theorem ask {Q : S.Reply kind → Prop} (h : ∀ reply, A ⟨kind, query, reply⟩ → Q reply) :
    F.Given A (Comp.ask kind query : Comp S ε σ _) Q E := by
  intro s events r s' hs ha hrun
  obtain ⟨reply, rfl, rfl, rfl⟩ := Comp.runs_ask.1 hrun
  exact ⟨hs, h reply (ha _ (List.mem_singleton_self _))⟩

theorem bind {f : α → Comp S ε σ β} (hc : F.Given A c Q E)
    (hf : ∀ value, Q value → F.Given A (f value) R E) : F.Given A (c >>= f) R E := by
  intro s events r s' hs ha hrun
  rcases Comp.runs_bind.1 hrun with ⟨first, value, middle, second, rfl, h₁, h₂⟩ | ⟨e, rfl, h⟩
  · obtain ⟨hm, hv⟩ := hc _ _ _ _ hs (fun e he => ha e (List.mem_append_left _ he)) h₁
    exact hf value hv _ _ _ _ hm (fun e he => ha e (List.mem_append_right _ he)) h₂
  · exact hc _ _ _ _ hs ha h

/-- A question whose answer is passed on. -/
theorem ask_bind {f : S.Reply kind → Comp S ε σ α}
    (h : ∀ reply, A ⟨kind, query, reply⟩ → F.Given A (f reply) Q E) :
    F.Given A (Comp.ask kind query >>= f) Q E :=
  (ask fun _ ha => ha).bind h

theorem attempt_bind {k : Except ε α → Comp S ε σ β} (hc : F.Given A c Q E')
    (hok : ∀ value, Q value → F.Given A (k (.ok value)) R E)
    (herror : ∀ e, E' e → F.Given A (k (.error e)) R E) : F.Given A (Comp.attempt c >>= k) R E := by
  intro s events r s' hs ha hrun
  rcases Comp.runs_bind.1 hrun with ⟨first, outcome, middle, second, rfl, h₁, h₂⟩ | ⟨e, rfl, h⟩
  · obtain ⟨_, heq, h₁⟩ := Comp.runs_attempt.1 h₁
    obtain rfl := Except.ok.inj heq
    obtain ⟨hm, hv⟩ := hc _ _ _ _ hs (fun e he => ha e (List.mem_append_left _ he)) h₁
    have ha := fun e he => ha e (List.mem_append_right _ he)
    cases outcome with
    | ok value => exact hok value hv _ _ _ _ hm ha h₂
    | error e => exact herror e hv _ _ _ _ hm ha h₂
  · simp at h

theorem get_bind {f : σ → Comp S ε σ α} (hf : ∀ s, F.Inv s → F.Given A (f s) Q E) :
    F.Given A (get >>= f) Q E := by
  intro s events r s' hs ha hrun
  exact hf s hs _ _ _ _ hs ha (Comp.runs_get_bind.1 hrun)

theorem modify_bind {g : σ → σ} {f : PUnit → Comp S ε σ α} (h : ∀ s, F.Inv s → F.Inv (g s))
    (hf : F.Given A (f ⟨⟩) Q E) : F.Given A (modify g >>= f) Q E := by
  intro s events r s' hs ha hrun
  rcases Comp.runs_bind.1 hrun with ⟨first, value, middle, second, rfl, h₁, h₂⟩ | ⟨e, rfl, h₁⟩
  · obtain ⟨rfl, hr, rfl⟩ := Comp.runs_modify.1 h₁
    exact hf _ _ _ _ (h s hs) ha h₂
  · obtain ⟨_, hr, _⟩ := Comp.runs_modify.1 h₁
    cases hr

/-- A scope may be entered from states of another kind. -/
theorem scope {G : Frame S σ} {enter : σ → σ} (h : ∀ s, F.Inv s → G.Inv (enter s)) (hc : G.Given A c Q E) :
    F.Given A (Comp.within enter c) Q E := by
  intro s events r s' hs ha hrun
  obtain ⟨rfl, inner, hrun⟩ := Comp.runs_within.1 hrun
  exact ⟨hs, (hc _ _ _ _ (h _ hs) ha hrun).2⟩

theorem within {enter : σ → σ} (h : ∀ s, F.Inv s → F.Inv (enter s)) (hc : F.Given A c Q E) :
    F.Given A (Comp.within enter c) Q E :=
  scope h hc

end Given

-- Tasks run together

theorem outcomes_of_runsAll {inputs : List ι} {task : ι → Comp S ε σ α} {Q : ι → α → Prop} (hs : F.Inv s)
    (h : ∀ input ∈ inputs, F.Given A (task input) (Q input) E)
    (hall : Prog.RunsAll ((inputs.map task).map fun task => Prod.fst <$> task s) pieces outcomes)
    (ha : ∀ piece ∈ pieces, ∀ e ∈ piece, A e) :
    List.Forall₂ (fun input outcome => Outcome (Q input) E outcome) inputs outcomes := by
  induction inputs generalizing pieces outcomes with
  | nil =>
    cases hall
    exact .nil
  | cons input rest ih =>
    obtain _ | ⟨hrun, hrest⟩ := hall
    obtain ⟨s', hrun⟩ := Comp.runs_fst hrun
    have hfirst := (h input (by simp) _ _ _ _ hs (ha _ (by simp)) hrun).2
    exact .cons hfirst (ih (fun input hi => h input (by simp [hi])) hrest fun piece hp => ha piece (by simp [hp]))

/-- Tasks run together return each what it returns alone. -/
theorem Given.gather {inputs : List ι} {task : ι → Comp S ε σ α} {Q : ι → α → Prop}
    (h : ∀ input ∈ inputs, F.Given A (task input) (Q input) E) :
    F.Given A (Comp.gather n choices (inputs.map task)) (List.Forall₂ Q inputs) E := by
  intro s events r s' hs ha hrun
  obtain ⟨rfl, pieces, outcomes, hall, hmerged, hgathered⟩ := Comp.runs_gather hrun
  have hout := outcomes_of_runsAll hs h hall fun piece hp e he => ha e ((hmerged.sublist hp).subset he)
  refine ⟨hs, ?_⟩
  cases r with
  | ok values =>
    obtain rfl : outcomes = values.map .ok := hgathered
    simpa [Outcome] using List.forall₂_map_right_iff.1 hout
  | error e =>
    have hmem : .error e ∈ outcomes := hgathered
    obtain ⟨place, hlt, hplace⟩ := List.getElem_of_mem hmem
    have hone := (List.forall₂_iff_get.1 hout).2 place (hout.length_eq ▸ hlt) hlt
    rw [List.get_eq_getElem, List.get_eq_getElem, hplace] at hone
    exact hone

end Frame

end Interaction
