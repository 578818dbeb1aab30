import ChainWeaver.Interaction.Prog

/-!
# Rules for traces

Judgements about every path of a computation. `Ensures` is the general one: it
keeps an invariant of the state and relates outcome and trace. `Upholds` is the
instance that needs no bookkeeping: the trace lies in a set that is closed under
putting traces together, and a path that ends in an error has left a mark.
-/

namespace Interaction

variable {S : Signature} {ε σ : Type}

/-- What all computations of a development have in common: the invariant they
keep and the events that announce an error. -/
structure Frame (S : Signature) (σ : Type) where
  Inv : σ → Prop
  Mark : Event S → Prop

namespace Frame

variable (F : Frame S σ)

def Marked (events : List (Event S)) : Prop := ∃ e ∈ events, F.Mark e

variable {F}

theorem Marked.right (h : F.Marked second) : F.Marked (first ++ second) :=
  h.imp fun _ he => ⟨List.mem_append_right _ he.1, he.2⟩

-- Outcome and trace

variable (F)

/-- Every path of `c` from a good state ends in a good state, with an outcome and
a trace that `post` relates. -/
def Ensures (c : Comp S ε σ α) (post : Except ε α → List (Event S) → Prop) : Prop :=
  ∀ s events r s', F.Inv s → c.Runs s events r s' → F.Inv s' ∧ post r events

variable {F} {c : Comp S ε σ α}

namespace Ensures

variable {post post' : Except ε α → List (Event S) → Prop}

theorem weaken (h : F.Ensures c post) (himp : ∀ r events, post r events → post' r events) :
    F.Ensures c post' := by
  intro s events r s' hs hrun
  obtain ⟨hs', hpost⟩ := h s events r s' hs hrun
  exact ⟨hs', himp _ _ hpost⟩

theorem pure {value : α} (h : post (.ok value) []) :
    F.Ensures (Pure.pure value : Comp S ε σ α) post := by
  intro s events r s' hs hrun
  obtain ⟨rfl, rfl, rfl⟩ := Comp.runs_pure.1 hrun
  exact ⟨hs, h⟩

theorem throw {e : ε} (h : post (.error e) []) :
    F.Ensures (MonadExcept.throw e : Comp S ε σ α) post := by
  intro s events r s' hs hrun
  obtain ⟨rfl, rfl, rfl⟩ := Comp.runs_throw.1 hrun
  exact ⟨hs, h⟩

theorem ask {post : Except ε (S.Reply kind) → List (Event S) → Prop}
    (h : ∀ reply, post (.ok reply) [⟨kind, query, reply⟩]) :
    F.Ensures (Comp.ask kind query : Comp S ε σ _) post := by
  intro s events r s' hs hrun
  obtain ⟨reply, rfl, rfl, rfl⟩ := Comp.runs_ask.1 hrun
  exact ⟨hs, h reply⟩

theorem bind {f : α → Comp S ε σ β} {final : Except ε β → List (Event S) → Prop}
    (hc : F.Ensures c post)
    (hf : ∀ value first, post (.ok value) first →
      F.Ensures (f value) fun r events => final r (first ++ events))
    (he : ∀ e events, post (.error e) events → final (.error e) events) :
    F.Ensures (c >>= f) final := by
  intro s events r s' hs hrun
  rcases Comp.runs_bind.1 hrun with ⟨first, value, middle, second, rfl, h₁, h₂⟩ | ⟨e, rfl, h⟩
  · obtain ⟨hm, hv⟩ := hc _ _ _ _ hs h₁
    exact hf value first hv _ _ _ _ hm h₂
  · obtain ⟨hs', hv⟩ := hc _ _ _ _ hs h
    exact ⟨hs', he e events hv⟩

theorem attempt_bind {k : Except ε α → Comp S ε σ β} {final : Except ε β → List (Event S) → Prop}
    (hc : F.Ensures c post)
    (hk : ∀ outcome first, post outcome first →
      F.Ensures (k outcome) fun r events => final r (first ++ events)) :
    F.Ensures (Comp.attempt c >>= k) final := by
  intro s events r s' hs hrun
  rcases Comp.runs_bind.1 hrun with ⟨first, outcome, middle, second, rfl, h₁, h₂⟩ | ⟨e, rfl, h⟩
  · obtain ⟨_, heq, h₁⟩ := Comp.runs_attempt.1 h₁
    obtain rfl := Except.ok.inj heq
    obtain ⟨hm, hv⟩ := hc _ _ _ _ hs h₁
    exact hk outcome first hv _ _ _ _ hm h₂
  · simp at h

theorem get_bind {f : σ → Comp S ε σ α} (hf : ∀ s, F.Inv s → F.Ensures (f s) post) :
    F.Ensures (get >>= f) post := by
  intro s events r s' hs hrun
  exact hf s hs _ _ _ _ hs (Comp.runs_get_bind.1 hrun)

theorem modify {g : σ → σ} {post : Except ε PUnit → List (Event S) → Prop}
    (h : ∀ s, F.Inv s → F.Inv (g s)) (hpost : post (.ok ⟨⟩) []) :
    F.Ensures (modify g : Comp S ε σ PUnit) post := by
  intro s events r s' hs hrun
  obtain ⟨rfl, rfl, rfl⟩ := Comp.runs_modify.1 hrun
  exact ⟨h s hs, hpost⟩

theorem within {enter : σ → σ} (h : ∀ s, F.Inv s → F.Inv (enter s)) (hc : F.Ensures c post) :
    F.Ensures (Comp.within enter c) post := by
  intro s events r s' hs hrun
  obtain ⟨rfl, inner, hrun⟩ := Comp.runs_within.1 hrun
  exact ⟨hs, (hc _ _ _ _ (h _ hs) hrun).2⟩

end Ensures

end Frame

-- Closed sets of traces

/-- A set of traces that can be put together from pieces. -/
structure Closed (T : List (Event S) → Prop) : Prop where
  nil : T []
  append : T first → T second → T (first ++ second)

theorem Closed.cons {T : List (Event S) → Prop} (hT : Closed T) (he : T [e]) (hes : T events) :
    T (e :: events) :=
  hT.append he hes

namespace Frame

variable (F : Frame S σ)

/-- A path that returns does so with a value in `Q`. One that fails is marked, as
far as `need` asks. -/
def Settled (need : Prop) (Q : α → Prop) : Except ε α → List (Event S) → Prop
  | .ok value, _ => Q value
  | .error _, events => need → F.Marked events

/-- Every path of `c` keeps the invariant, has its trace in `T` and is settled. -/
def Upholds (T : List (Event S) → Prop) (need : Prop) (c : Comp S ε σ α) (Q : α → Prop) : Prop :=
  F.Ensures c fun r events => T events ∧ F.Settled need Q r events

variable {F} {T T' : List (Event S) → Prop} {need need' : Prop} {c : Comp S ε σ α} {Q Q' : α → Prop}

namespace Upholds

theorem weaken (h : F.Upholds T need c Q) (hT : ∀ {events}, T events → T' events)
    (hn : need' → need) (hQ : ∀ value, Q value → Q' value) : F.Upholds T' need' c Q' := by
  refine Ensures.weaken h fun r events hr => ⟨hT hr.1, ?_⟩
  cases r with
  | ok value => exact hQ value hr.2
  | error e => exact fun hneed => hr.2 (hn hneed)

theorem mono (h : F.Upholds T need c Q) (hT : ∀ {events}, T events → T' events) :
    F.Upholds T' need c Q :=
  h.weaken hT id fun _ => id

theorem post (h : F.Upholds T need c Q) (hQ : ∀ value, Q value → Q' value) : F.Upholds T need c Q' :=
  h.weaken id id hQ

theorem trivial (h : F.Upholds T need c Q) : F.Upholds T need c fun _ => True :=
  h.post fun _ _ => True.intro

theorem pure (hT : Closed T) (h : Q value) : F.Upholds T need (Pure.pure value : Comp S ε σ α) Q :=
  Ensures.pure ⟨hT.nil, h⟩

theorem throw (hT : Closed T) (h : ¬need) : F.Upholds T need (MonadExcept.throw e : Comp S ε σ α) Q :=
  Ensures.throw ⟨hT.nil, fun hneed => absurd hneed h⟩

theorem ask (h : ∀ reply, T [⟨kind, query, reply⟩]) :
    F.Upholds T need (Comp.ask kind query : Comp S ε σ _) fun _ => True :=
  Ensures.ask fun reply => ⟨h reply, True.intro⟩

theorem bind (hT : Closed T) {f : α → Comp S ε σ β} {R : β → Prop} (hc : F.Upholds T need c Q)
    (hf : ∀ value, Q value → F.Upholds T need (f value) R) : F.Upholds T need (c >>= f) R := by
  refine Ensures.bind hc ?_ fun _ _ h => h
  intro value first hfirst
  refine Ensures.weaken (hf value hfirst.2) fun r events hr => ⟨hT.append hfirst.1 hr.1, ?_⟩
  cases r with
  | ok result => exact hr.2
  | error e => exact fun hneed => (hr.2 hneed).right

/-- An error that is caught needs no mark. -/
theorem attempt_bind (hT : Closed T) {k : Except ε α → Comp S ε σ β} {R : β → Prop}
    (hc : F.Upholds T need' c Q) (hok : ∀ value, Q value → F.Upholds T need (k (.ok value)) R)
    (herror : ∀ e, F.Upholds T need (k (.error e)) R) :
    F.Upholds T need (Comp.attempt c >>= k) R := by
  refine Ensures.attempt_bind hc ?_
  intro outcome first hfirst
  have hrest : F.Upholds T need (k outcome) R := by
    cases outcome with
    | ok value => exact hok value hfirst.2
    | error e => exact herror e
  refine Ensures.weaken hrest fun r events hr => ⟨hT.append hfirst.1 hr.1, ?_⟩
  cases r with
  | ok result => exact hr.2
  | error e => exact fun hneed => (hr.2 hneed).right

theorem get_bind {f : σ → Comp S ε σ α} (hf : ∀ s, F.Inv s → F.Upholds T need (f s) Q) :
    F.Upholds T need (get >>= f) Q :=
  Ensures.get_bind hf

theorem modify (hT : Closed T) {g : σ → σ} (h : ∀ s, F.Inv s → F.Inv (g s)) :
    F.Upholds T need (modify g : Comp S ε σ PUnit) fun _ => True :=
  Ensures.modify h ⟨hT.nil, True.intro⟩

end Upholds

-- Traces that go on from a history

variable (F)

/-- Behind the events `history`, every path of `c` ends as `post` says of the
outcome and of all events so far. -/
def From (history : List (Event S)) (c : Comp S ε σ α) (post : Except ε α → List (Event S) → Prop) :
    Prop :=
  F.Ensures c fun r events => post r (history ++ events)

variable {F} {history : List (Event S)}

namespace From

variable {post post' : Except ε α → List (Event S) → Prop}

theorem weaken (h : F.From history c post) (himp : ∀ r events, post r events → post' r events) :
    F.From history c post' :=
  Ensures.weaken h fun r events => himp r (history ++ events)

/-- A part that needs no history, behind one. -/
theorem after (h : F.From [] c post) :
    F.From history c fun r events => ∃ own, events = history ++ own ∧ post r own :=
  Ensures.weaken h fun _ events hr => ⟨events, rfl, hr⟩

theorem pure {value : α} (h : post (.ok value) history) :
    F.From history (Pure.pure value : Comp S ε σ α) post :=
  Ensures.pure (by simpa using h)

theorem throw {e : ε} (h : post (.error e) history) :
    F.From history (MonadExcept.throw e : Comp S ε σ α) post :=
  Ensures.throw (by simpa using h)

theorem ask {post : Except ε (S.Reply kind) → List (Event S) → Prop}
    (h : ∀ reply, post (.ok reply) (history ++ [⟨kind, query, reply⟩])) :
    F.From history (Comp.ask kind query : Comp S ε σ _) post :=
  Ensures.ask h

theorem bind {f : α → Comp S ε σ β} {final : Except ε β → List (Event S) → Prop}
    (hc : F.From history c post)
    (hf : ∀ value events, post (.ok value) events → F.From events (f value) final)
    (he : ∀ e events, post (.error e) events → final (.error e) events) :
    F.From history (c >>= f) final := by
  refine Ensures.bind hc (fun value first h => ?_) fun e events h => he e _ h
  exact Ensures.weaken (hf value _ h) fun r events hr => by simpa [List.append_assoc] using hr

theorem attempt_bind {k : Except ε α → Comp S ε σ β} {final : Except ε β → List (Event S) → Prop}
    (hc : F.From history c post)
    (hk : ∀ outcome events, post outcome events → F.From events (k outcome) final) :
    F.From history (Comp.attempt c >>= k) final := by
  refine Ensures.attempt_bind hc fun outcome first h => ?_
  exact Ensures.weaken (hk outcome _ h) fun r events hr => by simpa [List.append_assoc] using hr

theorem get_bind {f : σ → Comp S ε σ α} (hf : ∀ s, F.Inv s → F.From history (f s) post) :
    F.From history (get >>= f) post :=
  Ensures.get_bind hf

theorem within {enter : σ → σ} (h : ∀ s, F.Inv s → F.Inv (enter s)) (hc : F.From history c post) :
    F.From history (Comp.within enter c) post :=
  Ensures.within h hc

theorem pure_bind {value : β} {f : β → Comp S ε σ α} (h : F.From history (f value) post) :
    F.From history (Pure.pure value >>= f) post :=
  h

theorem ask_bind {f : S.Reply kind → Comp S ε σ α}
    (h : ∀ reply, F.From (history ++ [⟨kind, query, reply⟩]) (f reply) post) :
    F.From history (Comp.ask kind query >>= f) post := by
  intro s events r s' hs hrun
  rcases Comp.runs_bind.1 hrun with ⟨first, value, middle, second, rfl, h₁, h₂⟩ | ⟨e, rfl, h₁⟩
  · obtain ⟨reply, rfl, hr, rfl⟩ := Comp.runs_ask.1 h₁
    obtain rfl := Except.ok.inj hr
    simpa [List.append_assoc] using h _ _ _ _ _ hs h₂
  · obtain ⟨_, _, hr, _⟩ := Comp.runs_ask.1 h₁
    cases hr

/-- A part known by the set its traces lie in. -/
theorem upholds (h : F.Upholds T need c Q)
    (hok : ∀ value events, T events → Q value → post (.ok value) (history ++ events))
    (herror : ∀ e events, T events → (need → F.Marked events) → post (.error e) (history ++ events)) :
    F.From history c post := by
  refine Ensures.weaken h fun r events hr => ?_
  cases r with
  | ok value => exact hok value events hr.1 hr.2
  | error e => exact herror e events hr.1 hr.2

theorem upholds_attempt_bind {k : Except ε α → Comp S ε σ β} {final : Except ε β → List (Event S) → Prop}
    (h : F.Upholds T need c Q)
    (hk : ∀ outcome events, T events → F.Settled need Q outcome events →
      F.From (history ++ events) (k outcome) final) :
    F.From history (Comp.attempt c >>= k) final := by
  refine Ensures.attempt_bind h fun outcome first hfirst => ?_
  exact Ensures.weaken (hk outcome first hfirst.1 hfirst.2) fun r events hr => by
    simpa [List.append_assoc] using hr

theorem upholds_bind {f : α → Comp S ε σ β} {final : Except ε β → List (Event S) → Prop}
    (h : F.Upholds T need c Q)
    (hok : ∀ value events, T events → Q value → F.From (history ++ events) (f value) final)
    (herror : ∀ e events, T events → (need → F.Marked events) → final (.error e) (history ++ events)) :
    F.From history (c >>= f) final := by
  refine Ensures.bind h (fun value first hfirst => ?_) fun e events h => herror e events h.1 h.2
  exact Ensures.weaken (hok value first hfirst.1 hfirst.2) fun r events hr => by
    simpa [List.append_assoc] using hr

end From

theorem From.modify_bind {g : σ → σ} {f : PUnit → Comp S ε σ α} (h : ∀ s, F.Inv s → F.Inv (g s))
    (hf : F.From history (f ⟨⟩) post) : F.From history (modify g >>= f) post := by
  intro s events r s' hs hrun
  rcases Comp.runs_bind.1 hrun with ⟨first, value, middle, second, rfl, h₁, h₂⟩ | ⟨e, rfl, h₁⟩
  · obtain ⟨rfl, hr, rfl⟩ := Comp.runs_modify.1 h₁
    exact hf _ _ _ _ (h s hs) h₂
  · obtain ⟨_, hr, _⟩ := Comp.runs_modify.1 h₁
    cases hr

end Frame

end Interaction
