import Mathlib.Data.List.Pairwise

/-!
# Passes

A pass takes items one after the other through a state and ends early at an item that fails. What each
item leaves alone the pass leaves alone; where every item has a slot of its own, each slot has in the end
what its item made of it.
-/

namespace Passes

variable {α β κ σ : Type*} {step : α → σ → σ × Bool} {items : List α}

/-- The state after the pass, and whether it reached the end. -/
def pass (step : α → σ → σ × Bool) : List α → σ → σ × Bool
  | [], state => (state, true)
  | item :: rest, state =>
    if (step item state).2 = true then pass step rest (step item state).1 else ((step item state).1, false)

theorem pass_cons {item : α} {rest : List α} {state : σ} (h : (step item state).2 = true) :
    pass step (item :: rest) state = pass step rest (step item state).1 := if_pos h

theorem pass_invariant {P : σ → Prop} (h : ∀ item ∈ items, ∀ state, P state → P (step item state).1) {state : σ}
    (hstate : P state) : P (pass step items state).1 := by
  induction items generalizing state with
  | nil => exact hstate
  | cons item rest ih =>
    obtain ⟨hitem, hrest⟩ := List.forall_mem_cons.1 h
    unfold pass
    split
    · exact ih hrest (hitem state hstate)
    · exact hitem state hstate

theorem pass_keeps {f : σ → β} (h : ∀ item ∈ items, ∀ state, f (step item state).1 = f state) (state : σ) :
    f (pass step items state).1 = f state :=
  pass_invariant (P := fun state' => f state' = f state) (fun item hitem state' h' => (h item hitem state').trans h')
    rfl

variable (step : α → σ → σ × Bool) (slot : α → κ) (content : κ → σ → β) (effect : α → β → β)

/-- Items with different slots, each of which succeeds on what stands in its slot at the start. -/
theorem pass_slots (start : σ) (hdifferent : items.Pairwise fun item other => slot item ≠ slot other)
    (hframe : ∀ item ∈ items, ∀ other ∈ items, slot other ≠ slot item → ∀ state,
      content (slot other) (step item state).1 = content (slot other) state)
    (heffect : ∀ item ∈ items, ∀ state, content (slot item) state = content (slot item) start →
      (step item state).2 = true ∧ content (slot item) (step item state).1 = effect item (content (slot item) start)) :
    ∀ item ∈ items, content (slot item) (pass step items start).1 = effect item (content (slot item) start) := by
  induction items generalizing start with
  | nil => exact fun item hitem => absurd hitem List.not_mem_nil
  | cons first rest ih =>
    obtain ⟨hfirst, hrest⟩ := List.pairwise_cons.1 hdifferent
    obtain ⟨hgoes, hmade⟩ := heffect first List.mem_cons_self start rfl
    have hsame : ∀ other ∈ rest, content (slot other) (step first start).1 = content (slot other) start :=
      fun other hother => hframe first List.mem_cons_self other (List.mem_cons_of_mem _ hother)
        (hfirst other hother).symm start
    rw [pass_cons hgoes]
    intro item hitem
    rcases List.mem_cons.1 hitem with rfl | hitem
    · rw [← hmade]
      exact pass_keeps (f := content (slot item)) (fun other hother => hframe other (List.mem_cons_of_mem _ hother) item
        List.mem_cons_self (hfirst other hother)) _
    · rw [← hsame item hitem]
      refine ih _ hrest (fun item hitem other hother => hframe item (List.mem_cons_of_mem _ hitem) other
        (List.mem_cons_of_mem _ hother)) (fun item hitem state hstate => ?_) item hitem
      rw [hsame item hitem] at hstate ⊢
      exact heffect item (List.mem_cons_of_mem _ hitem) state hstate

end Passes
