import ChainWeaver.Interaction.Prog
import Mathlib.Data.List.Forall2

/-!
# Related programs

Two programs whose questions are alike, and that go on alike when they get the same
answers. Which questions count as alike is a parameter, so that the programs may show
their surroundings different things as long as the answers do not depend on them. A run of
the one is then a run of the other.
-/

namespace Interaction

variable {S : Signature} {ε σ : Type}

/-- Which questions of one kind are alike. -/
abbrev Likeness (S : Signature) := (kind : S.Kind) → S.Query kind → S.Query kind → Prop

/-- Questions that are alike, with the same answer. -/
inductive Event.Like (like : Likeness S) : Event S → Event S → Prop
  | mk {kind : S.Kind} {query query' : S.Query kind} {reply : S.Reply kind} :
      like kind query query' → Event.Like like ⟨kind, query, reply⟩ ⟨kind, query', reply⟩

theorem Event.Like.refl {like : Likeness S} (hlike : ∀ kind query, like kind query query) (e : Event S) :
    Event.Like like e e :=
  .mk (hlike _ _)

/-- The questions of the second trace are alike to those of the first, one by one, and
have the same answers. -/
abbrev AnsweredAlike (like : Likeness S) : List (Event S) → List (Event S) → Prop :=
  List.Forall₂ (Event.Like like)

namespace Prog

/-- The programs ask alike, and end with values that `V` relates. -/
inductive Related (like : Likeness S) (V : α → β → Prop) : Prog S α → Prog S β → Prop
  | done : V value value' → Related like V (.done value) (.done value')
  | ask {kind query query' next next'} :
      like kind query query' → (∀ reply, Related like V (next reply) (next' reply)) →
      Related like V (.ask kind query next) (.ask kind query' next')

namespace Related

variable {like : Likeness S} {V : α → β → Prop} {p : Prog S α} {p' : Prog S β}

theorem weaken {W : α → β → Prop} (h : Related like V p p')
    (himp : ∀ value value', V value value' → W value value') : Related like W p p' := by
  induction h with
  | done hv => exact .done (himp _ _ hv)
  | ask hquery _ ih => exact .ask hquery ih

theorem bind {W : γ → δ → Prop} {f : α → Prog S γ} {f' : β → Prog S δ} (h : Related like V p p')
    (hf : ∀ value value', V value value' → Related like W (f value) (f' value')) :
    Related like W (p.bind f) (p'.bind f') := by
  induction h with
  | done hv => exact hf _ _ hv
  | ask hquery _ ih => exact .ask hquery ih

theorem refl {V : α → α → Prop} (hlike : ∀ kind query, like kind query query) (hv : ∀ value, V value value)
    (p : Prog S α) : Related like V p p := by
  induction p with
  | done value => exact .done (hv value)
  | ask kind query next ih => exact .ask (hlike kind query) ih

/-- A run of the one is a run of the other. -/
theorem runs (h : Related like V p p') (hrun : p.Runs events value) :
    ∃ events' value', p'.Runs events' value' ∧ AnsweredAlike like events events' ∧ V value value' := by
  induction h generalizing events with
  | done hv =>
    obtain ⟨rfl, rfl⟩ := runs_done.1 hrun
    exact ⟨[], _, .done _, .nil, hv⟩
  | ask hquery _ ih =>
    obtain ⟨reply, rest, rfl, hrest⟩ := runs_ask.1 hrun
    obtain ⟨events', value', hrun', halike, hv⟩ := ih reply hrest
    exact ⟨_ :: events', value', .ask hrun', .cons (.mk hquery) halike, hv⟩

end Related

end Prog

-- Related computations

/-- What computations are compared by: which questions and which states are alike. -/
structure Comparison (S : Signature) (σ : Type) where
  like : Likeness S
  state : σ → σ → Prop

/-- Values that `V` relates, or errors that `E` relates. -/
inductive Concur (V : α → β → Prop) (E : ε → ε → Prop) : Except ε α → Except ε β → Prop
  | ok : V value value' → Concur V E (.ok value) (.ok value')
  | error : E e e' → Concur V E (.error e) (.error e')

theorem Concur.eq {r r' : Except ε α} (h : Concur Eq Eq r r') : r = r' := by
  cases h with
  | ok hv => rw [hv]
  | error he => rw [he]

theorem Concur.refl {V : α → α → Prop} {E : ε → ε → Prop} (hv : ∀ value, V value value) (he : ∀ e, E e e)
    (r : Except ε α) : Concur V E r r := by
  cases r with
  | ok value => exact .ok (hv value)
  | error e => exact .error (he e)

theorem Concur.imp {V V' : α → β → Prop} {E E' : ε → ε → Prop} {r : Except ε α} {r' : Except ε β}
    (h : Concur V E r r') (hV : ∀ value value', V value value' → V' value value') (hE : ∀ e e', E e e' → E' e e') :
    Concur V' E' r r' := by
  cases h with
  | ok hv => exact .ok (hV _ _ hv)
  | error he => exact .error (hE _ _ he)

namespace Comparison

variable (C : Comparison S σ)

/-- From alike states the computations ask alike, and end in alike states with related
outcomes. -/
def Related (c : Comp S ε σ α) (c' : Comp S ε σ β) (V : α → β → Prop) (E : ε → ε → Prop) : Prop :=
  ∀ s s', C.state s s' →
    Prog.Related C.like (fun ran ran' => Concur V E ran.1 ran'.1 ∧ C.state ran.2 ran'.2) (c s) (c' s')

variable {C} {V : α → β → Prop} {W : γ → δ → Prop} {E : ε → ε → Prop} {c : Comp S ε σ α}
  {c' : Comp S ε σ β}

namespace Related

/-- What the one computation does, the other one does too. -/
theorem runs (h : C.Related c c' V E) (hs : C.state s s') (hrun : c.Runs s events r t) :
    ∃ events' r' t', c'.Runs s' events' r' t' ∧ AnsweredAlike C.like events events' ∧ Concur V E r r' ∧
      C.state t t' := by
  obtain ⟨events', ⟨r', t'⟩, hrun', halike, hr, ht⟩ := (h s s' hs).runs hrun
  exact ⟨events', r', t', hrun', halike, hr, ht⟩

theorem runs_ok (h : C.Related c c' V E) (hs : C.state s s') (hrun : c.Runs s events (.ok value) t) :
    ∃ events' value' t', c'.Runs s' events' (.ok value') t' ∧ AnsweredAlike C.like events events' ∧
      V value value' ∧ C.state t t' := by
  obtain ⟨events', r', t', hrun', halike, hr, ht⟩ := h.runs hs hrun
  cases hr with
  | ok hv => exact ⟨events', _, t', hrun', halike, hv, ht⟩

theorem weaken {V' : α → β → Prop} {E' : ε → ε → Prop} (h : C.Related c c' V E)
    (hV : ∀ value value', V value value' → V' value value') (hE : ∀ e e', E e e' → E' e e') :
    C.Related c c' V' E' := by
  intro s s' hs
  refine (h s s' hs).weaken ?_
  rintro ⟨r, t⟩ ⟨r', t'⟩ ⟨hr, ht⟩
  exact ⟨hr.imp hV hE, ht⟩

theorem post {V' : α → β → Prop} (h : C.Related c c' V E)
    (hV : ∀ value value', V value value' → V' value value') : C.Related c c' V' E :=
  h.weaken hV fun _ _ => id

theorem pure (h : V value value') : C.Related (Pure.pure value : Comp S ε σ α) (Pure.pure value') V E :=
  fun _ _ hs => .done ⟨.ok h, hs⟩

theorem throw (h : E e e') :
    C.Related (MonadExcept.throw e : Comp S ε σ α) (MonadExcept.throw e' : Comp S ε σ β) V E :=
  fun _ _ hs => .done ⟨.error h, hs⟩

theorem bind {f : α → Comp S ε σ γ} {f' : β → Comp S ε σ δ} (hc : C.Related c c' V E)
    (hf : ∀ value value', V value value' → C.Related (f value) (f' value') W E) :
    C.Related (c >>= f) (c' >>= f') W E := by
  intro s s' hs
  refine (hc s s' hs).bind ?_
  rintro ⟨r, t⟩ ⟨r', t'⟩ ⟨hr, ht⟩
  cases hr with
  | ok hv => exact hf _ _ hv _ _ ht
  | error he => exact .done ⟨.error he, ht⟩

/-- First parts that end with the same value. -/
theorem bind_same {c c' : Comp S ε σ α} {f : α → Comp S ε σ γ} {f' : α → Comp S ε σ δ}
    (hc : C.Related c c' Eq E) (hf : ∀ value, C.Related (f value) (f' value) W E) : C.Related (c >>= f) (c' >>= f') W E := by
  refine hc.bind ?_
  rintro value _ rfl
  exact hf value

theorem ask {query query' : S.Query kind} (hquery : C.like kind query query') :
    C.Related (Comp.ask kind query : Comp S ε σ _) (Comp.ask kind query') Eq E :=
  fun _ _ hs => .ask hquery fun _ => .done ⟨.ok rfl, hs⟩

theorem attempt (hc : C.Related c c' V E) :
    C.Related (Comp.attempt c) (Comp.attempt c') (Concur V E) (E' : ε → ε → Prop) := by
  intro s s' hs
  refine (hc s s' hs).bind ?_
  rintro ⟨r, t⟩ ⟨r', t'⟩ ⟨hr, ht⟩
  exact .done ⟨.ok hr, ht⟩

/-- Parts that end with the same outcome. -/
theorem attempt_same {c c' : Comp S ε σ α} (hc : C.Related c c' Eq Eq) :
    C.Related (Comp.attempt c) (Comp.attempt c') Eq (E' : ε → ε → Prop) :=
  hc.attempt.post fun _ _ h => h.eq

theorem get_bind {f : σ → Comp S ε σ α} {f' : σ → Comp S ε σ β}
    (hf : ∀ s s', C.state s s' → C.Related (f s) (f' s') V E) : C.Related (get >>= f) (get >>= f') V E :=
  fun s s' hs => hf s s' hs s s' hs

theorem modify_bind {g g' : σ → σ} {f : PUnit → Comp S ε σ α} {f' : PUnit → Comp S ε σ β}
    (h : ∀ s s', C.state s s' → C.state (g s) (g' s')) (hf : C.Related (f ⟨⟩) (f' ⟨⟩) V E) :
    C.Related (modify g >>= f) (modify g' >>= f') V E :=
  fun s s' hs => hf _ _ (h s s' hs)

/-- Alike states that enter a scope as the same state do the same in it. -/
theorem within_same {enter : σ → σ} {c : Comp S ε σ α} (hlike : ∀ kind query, C.like kind query query)
    (h : ∀ s s', C.state s s' → enter s = enter s') :
    C.Related (Comp.within enter c) (Comp.within enter c) Eq Eq := by
  intro s s' hs
  change Prog.Related _ _ ((c (enter s)).bind _) ((c (enter s')).bind _)
  rw [← h s s' hs]
  refine (Prog.Related.refl hlike (fun _ => rfl) _).bind ?_
  rintro ran _ rfl
  exact .done ⟨Concur.refl (fun _ => rfl) (fun _ => rfl) _, hs⟩

end Related

-- Computations that return

variable (C) in
/-- Where the one returns, so does the other, from alike states and with answers that are
alike. What becomes of the other where the one fails is left open. -/
def Simulates (c : Comp S ε σ α) (c' : Comp S ε σ β) (V : α → β → Prop) : Prop :=
  ∀ s s' events value t, C.state s s' → c.Runs s events (.ok value) t →
    ∃ events' value' t', c'.Runs s' events' (.ok value') t' ∧ AnsweredAlike C.like events events' ∧
      V value value' ∧ C.state t t'

theorem Related.simulates (h : C.Related c c' V E) : C.Simulates c c' V :=
  fun _ _ _ _ _ hs hrun => h.runs_ok hs hrun

theorem Related.attempt_simulates (hc : C.Related c c' V E) :
    C.Simulates (Comp.attempt c) (Comp.attempt c') (Concur V E) := by
  have h : C.Related (Comp.attempt c) (Comp.attempt c') (Concur V E) fun _ _ => True := .attempt hc
  exact h.simulates

namespace Simulates

theorem pure (h : V value value') : C.Simulates (Pure.pure value : Comp S ε σ α) (Pure.pure value') V := by
  intro s s' events result t hs hrun
  obtain ⟨rfl, hresult, rfl⟩ := Comp.runs_pure.1 hrun
  obtain rfl := Except.ok.inj hresult
  exact ⟨[], value', s', Comp.runs_pure.2 ⟨rfl, rfl, rfl⟩, .nil, h, hs⟩

/-- Nothing is asked of the other where the one never returns. -/
theorem of_never (h : ∀ s events value t, ¬c.Runs s events (.ok value) t) : C.Simulates c c' V :=
  fun s _ events value t _ hrun => (h s events value t hrun).elim

theorem bind {f : α → Comp S ε σ γ} {f' : β → Comp S ε σ δ} (hc : C.Simulates c c' V)
    (hf : ∀ value value', V value value' → C.Simulates (f value) (f' value') W) :
    C.Simulates (c >>= f) (c' >>= f') W := by
  intro s s' events result t hs hrun
  obtain ⟨first, value, middle, second, rfl, hfirst, hsecond⟩ := Comp.runs_bind_ok.1 hrun
  obtain ⟨first', value', middle', hfirst', halike, hv, hm⟩ := hc _ _ _ _ _ hs hfirst
  obtain ⟨second', result', t', hsecond', halike', hw, ht⟩ := hf _ _ hv _ _ _ _ _ hm hsecond
  refine ⟨first' ++ second', result', t', ?_, List.rel_append halike halike', hw, ht⟩
  exact Comp.runs_bind_ok.2 ⟨first', value', middle', second', rfl, hfirst', hsecond'⟩

theorem bind_same {c c' : Comp S ε σ α} {f : α → Comp S ε σ γ} {f' : α → Comp S ε σ δ}
    (hc : C.Simulates c c' Eq) (hf : ∀ value, C.Simulates (f value) (f' value) W) : C.Simulates (c >>= f) (c' >>= f') W := by
  refine hc.bind ?_
  rintro value _ rfl
  exact hf value

theorem post {V' : α → β → Prop} (h : C.Simulates c c' V)
    (hV : ∀ value value', V value value' → V' value value') : C.Simulates c c' V' := by
  intro s s' events value t hs hrun
  obtain ⟨events', value', t', hrun', halike, hv, ht⟩ := h _ _ _ _ _ hs hrun
  exact ⟨events', value', t', hrun', halike, hV _ _ hv, ht⟩

theorem ask {query query' : S.Query kind} (hquery : C.like kind query query') :
    C.Simulates (Comp.ask kind query : Comp S ε σ _) (Comp.ask kind query') Eq := by
  have h : C.Related (Comp.ask kind query : Comp S ε σ _) (Comp.ask kind query') Eq fun _ _ => True := .ask hquery
  exact h.simulates

theorem get_bind {f : σ → Comp S ε σ α} {f' : σ → Comp S ε σ β}
    (hf : ∀ s s', C.state s s' → C.Simulates (f s) (f' s') V) : C.Simulates (get >>= f) (get >>= f') V :=
  fun s s' events value t hs hrun => hf s s' hs s s' events value t hs (Comp.runs_get_bind.1 hrun)

/-- A computation that starts in the same state does what it does. -/
theorem refl {c : Comp S ε σ α} (hlike : ∀ kind query, C.like kind query query)
    (hstate : ∀ s s', C.state s s' ↔ s = s') : C.Simulates c c Eq := by
  intro s s' events value t hs hrun
  obtain rfl := (hstate _ _).1 hs
  exact ⟨events, value, t, hrun, List.forall₂_same.2 fun e _ => .refl hlike e, rfl, (hstate _ _).2 rfl⟩

end Simulates

end Comparison

end Interaction
