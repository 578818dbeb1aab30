import ChainWeaver.Interaction.Given
import ChainWeaver.Interaction.Justified
import Mathlib.Data.List.Forall2

/-!
# Computations in accord

Two computations that need not ask the same questions: each runs against surroundings of its
own, of which it is known which answers they give. They are in accord if from related states
they come to related outcomes, where the second may fail if the first comes to a value that
makes up for it. Tasks that are in accord one by one are in accord together, in whatever order
they move.
-/

namespace Interaction

variable {S : Signature} {ε σ : Type}

/-- The answers that each side may get, and the states that go together. -/
structure Accord (S : Signature) (σ : Type) where
  left : Event S → Prop
  right : Event S → Prop
  state : σ → σ → Prop

/-- Related values or related errors, in states that go together. Only where the first has
come to a value in `D` need the second not have come to one. -/
inductive Met (V : α → β → Prop) (E : ε → ε → Prop) (D : α → Prop) (together : Prop) :
    Except ε α → Except ε β → Prop
  | ok : V value value' → together → Met V E D together (.ok value) (.ok value')
  | error : E e e' → together → Met V E D together (.error e) (.error e')
  | missed : D value → Met V E D together (.ok value) (.error e')

/-- No value makes up for a failure of the other side. -/
abbrev Never : α → Prop := fun _ => False

theorem Met.imp {V V' : α → β → Prop} {E E' : ε → ε → Prop} {D D' : α → Prop} {together together' : Prop}
    {r : Except ε α} {r' : Except ε β} (h : Met V E D together r r') (hv : ∀ value value', V value value' → V' value value')
    (he : ∀ e e', E e e' → E' e e') (hd : ∀ value, D value → D' value) (ht : together → together') :
    Met V' E' D' together' r r' := by
  cases h with
  | ok h hs => exact .ok (hv _ _ h) (ht hs)
  | error h hs => exact .error (he _ _ h) (ht hs)
  | missed h => exact .missed (hd _ h)

-- One side alone

/-- Nothing is asked of states. -/
abbrev Frame.free : Frame S σ := { Inv := fun _ => True, Mark := fun _ => False }

/-- The computation returns, whatever the answers, and its value is in `D`. -/
abbrev Comp.Returns (c : Comp S ε σ α) (D : α → Prop) : Prop :=
  Frame.free.Given (fun _ => True) c D fun _ => False

/-- The computation raises, whatever the answers. -/
abbrev Comp.Fails (c : Comp S ε σ α) : Prop :=
  Frame.free.Given (fun _ => True) c (fun _ => False) fun _ => True

/-- Given such answers the computation comes to a value in `Q` and leaves its state as it was. -/
abbrev Comp.Yields (P : Event S → Prop) (c : Comp S ε σ α) (Q : α → Prop) : Prop :=
  ∀ F : Frame S σ, F.Given P c Q fun _ => False

/-- The computation raises and leaves its state as it was. -/
abbrev Comp.Raises (c : Comp S ε σ α) : Prop :=
  ∀ F : Frame S σ, F.Given (fun _ => True) c (fun _ => False) fun _ => True

/-- However the computation ends, the state is the one it started with. -/
abbrev Comp.Restores (c : Comp S ε σ α) : Prop :=
  ∀ F : Frame S σ, F.Given (fun _ => True) c (fun _ => True) fun _ => True

namespace Comp

variable {c : Comp S ε σ α} {D Q : α → Prop} {P : Event S → Prop}

theorem Returns.run (h : c.Returns D) (hrun : c.Runs s events r t) : ∃ value, r = .ok value ∧ D value := by
  have hr := (h _ _ _ _ trivial (fun _ _ => trivial) hrun).2
  cases r with
  | ok value => exact ⟨value, rfl, hr⟩
  | error e => exact hr.elim

theorem Fails.run (h : c.Fails) (hrun : c.Runs s events r t) : ∃ e, r = .error e := by
  have hr := (h _ _ _ _ trivial (fun _ _ => trivial) hrun).2
  cases r with
  | ok value => exact hr.elim
  | error e => exact ⟨e, rfl⟩

theorem Yields.run (h : c.Yields P Q) (hrun : c.Runs s events r t) (hP : Always P events) :
    (∃ value, r = .ok value ∧ Q value) ∧ t = s := by
  obtain ⟨ht, hr⟩ := h { Inv := (· = s), Mark := fun _ => False } _ _ _ _ rfl hP hrun
  refine ⟨?_, ht⟩
  cases r with
  | ok value => exact ⟨value, rfl, hr⟩
  | error e => exact hr.elim

theorem Raises.run (h : c.Raises) (hrun : c.Runs s events r t) : (∃ e, r = .error e) ∧ t = s := by
  obtain ⟨ht, hr⟩ := h { Inv := (· = s), Mark := fun _ => False } _ _ _ _ rfl (fun _ _ => trivial) hrun
  refine ⟨?_, ht⟩
  cases r with
  | ok value => exact hr.elim
  | error e => exact ⟨e, rfl⟩

theorem Restores.run (h : c.Restores) (hrun : c.Runs s events r t) : t = s :=
  (h { Inv := (· = s), Mark := fun _ => False } _ _ _ _ rfl (fun _ _ => trivial) hrun).1

theorem Restores.of_runs (h : ∀ s events r t, c.Runs s events r t → t = s) : c.Restores := by
  intro F s events r t hs _ hrun
  obtain rfl := h _ _ _ _ hrun
  exact ⟨hs, by cases r <;> trivial⟩

theorem Fails.throw {e : ε} : Fails (MonadExcept.throw e : Comp S ε σ α) := Frame.Given.throw trivial

/-- What raises at its end raises. -/
theorem Fails.bind {f : α → Comp S ε σ β} (hf : ∀ value, (f value).Fails) : (c >>= f).Fails := by
  refine Frame.Given.bind (Q := fun _ => True) ?_ fun value _ => hf value
  intro s events r t _ _ _
  exact ⟨trivial, by cases r <;> trivial⟩

theorem runs_attempt_bind {k : Except ε α → Comp S ε σ β} (hrun : (Comp.attempt c >>= k).Runs s events r t) :
    ∃ first outcome middle second, events = first ++ second ∧ c.Runs s first outcome middle ∧
      (k outcome).Runs middle second r t := by
  rcases Comp.runs_bind.1 hrun with ⟨first, value, middle, second, rfl, h₁, h₂⟩ | ⟨e, rfl, h₁⟩
  · obtain ⟨outcome, hr, hbody⟩ := Comp.runs_attempt.1 h₁
    obtain rfl := Except.ok.inj hr
    exact ⟨first, _, middle, second, rfl, hbody, h₂⟩
  · obtain ⟨outcome, hr, -⟩ := Comp.runs_attempt.1 h₁
    cases hr

end Comp

-- Accord

theorem always_append {P : Event S → Prop} (h : Always P (first ++ second)) : Always P first ∧ Always P second :=
  List.forall_mem_append.1 h

namespace Accord

variable (A : Accord S σ)

/-- Whatever the answers, the computations come to outcomes that meet. -/
def Settles (E : ε → ε → Prop) (D : α → Prop) (c : Comp S ε σ α) (c' : Comp S ε σ β) (V : α → β → Prop) : Prop :=
  ∀ s s' events r t events' r' t', A.state s s' → c.Runs s events r t → c'.Runs s' events' r' t' →
    Always A.left events → Always A.right events' → Met V E D (A.state t t') r r'

namespace Settles

variable {A} {E E' : ε → ε → Prop} {c : Comp S ε σ α} {c' : Comp S ε σ β} {V V' : α → β → Prop} {D D' : α → Prop}
  {W : γ → δ → Prop} {F : γ → Prop}

theorem weaken (h : A.Settles E D c c' V) (hv : ∀ value value', V value value' → V' value value')
    (he : ∀ e e', E e e' → E' e e') (hd : ∀ value, D value → D' value) : A.Settles E' D' c c' V' := by
  intro s s' events r t events' r' t' hs hrun hrun' hleft hright
  exact (h _ _ _ _ _ _ _ _ hs hrun hrun' hleft hright).imp hv he hd id

theorem post (h : A.Settles E D c c' V) (hv : ∀ value value', V value value' → V' value value') :
    A.Settles E D c c' V' :=
  h.weaken hv (fun _ _ => id) fun _ => id

theorem never (h : A.Settles E Never c c' V) : A.Settles E D c c' V :=
  h.weaken (fun _ _ => id) (fun _ _ => id) fun _ => False.elim

theorem pure {value : α} {value' : β} (h : V value value') :
    A.Settles E D (Pure.pure value : Comp S ε σ α) (Pure.pure value') V := by
  intro s s' events r t events' r' t' hs hrun hrun' _ _
  obtain ⟨-, rfl, rfl⟩ := Comp.runs_pure.1 hrun
  obtain ⟨-, rfl, rfl⟩ := Comp.runs_pure.1 hrun'
  exact .ok h hs

theorem throw {e e' : ε} (h : E e e') :
    A.Settles E D (MonadExcept.throw e : Comp S ε σ α) (MonadExcept.throw e' : Comp S ε σ β) V := by
  intro s s' events r t events' r' t' hs hrun hrun' _ _
  obtain ⟨-, rfl, rfl⟩ := Comp.runs_throw.1 hrun
  obtain ⟨-, rfl, rfl⟩ := Comp.runs_throw.1 hrun'
  exact .error h hs

theorem missed {value : α} {e' : ε} (h : D value) :
    A.Settles E D (Pure.pure value : Comp S ε σ α) (MonadExcept.throw e' : Comp S ε σ β) V := by
  intro s s' events r t events' r' t' hs hrun hrun' _ _
  obtain ⟨-, rfl, rfl⟩ := Comp.runs_pure.1 hrun
  obtain ⟨-, rfl, rfl⟩ := Comp.runs_throw.1 hrun'
  exact .missed h

/-- Where any two errors go together. -/
theorem raises (he : ∀ e e', E e e') (h : c.Raises) (h' : c'.Raises) : A.Settles E D c c' V := by
  intro s s' events r t events' r' t' hs hrun hrun' _ _
  obtain ⟨⟨e, rfl⟩, rfl⟩ := h.run hrun
  obtain ⟨⟨e', rfl⟩, rfl⟩ := h'.run hrun'
  exact .error (he e e') hs

/-- The second raises, where whatever the first comes to makes up for it. -/
theorem lost (he : ∀ e e', E e e') (h : ∀ G : Frame S σ, G.Given (fun _ => True) c D fun _ => True) (h' : c'.Raises) :
    A.Settles E D c c' V := by
  intro s s' events r t events' r' t' hs hrun hrun' _ _
  obtain ⟨⟨e', rfl⟩, rfl⟩ := h'.run hrun'
  obtain ⟨rfl, hr⟩ := h { Inv := (· = s), Mark := fun _ => False } _ _ _ _ rfl (fun _ _ => trivial) hrun
  cases r with
  | ok value => exact .missed hr
  | error e => exact .error (he e e') hs

/-- The second fails where the first comes to a value that makes up for it. -/
theorem bind_missed {f : α → Comp S ε σ γ} {f' : β → Comp S ε σ δ} (h : A.Settles E D c c' V)
    (hf : ∀ value value', V value value' → A.Settles E F (f value) (f' value') W)
    (hd : ∀ value, D value → (f value).Returns F) :
    A.Settles E F (c >>= f) (c' >>= f') W := by
  intro s s' events r t events' r' t' hs hrun hrun' hleft hright
  rcases Comp.runs_bind.1 hrun with ⟨first, value, middle, second, rfl, h₁, h₂⟩ | ⟨e, rfl, h₁⟩ <;>
    rcases Comp.runs_bind.1 hrun' with ⟨first', value', middle', second', rfl, h₁', h₂'⟩ | ⟨e', rfl, h₁'⟩
  · cases h _ _ _ _ _ _ _ _ hs h₁ h₁' (always_append hleft).1 (always_append hright).1 with
    | ok hv hm => exact hf _ _ hv _ _ _ _ _ _ _ _ hm h₂ h₂' (always_append hleft).2 (always_append hright).2
  · cases h _ _ _ _ _ _ _ _ hs h₁ h₁' (always_append hleft).1 hright with
    | missed hv =>
      obtain ⟨value, rfl, hvalue⟩ := (hd _ hv).run h₂
      exact .missed hvalue
  · cases h _ _ _ _ _ _ _ _ hs h₁ h₁' hleft (always_append hright).1
  · cases h _ _ _ _ _ _ _ _ hs h₁ h₁' hleft hright with
    | error he ht => exact .error he ht

theorem bind {f : α → Comp S ε σ γ} {f' : β → Comp S ε σ δ} (h : A.Settles E Never c c' V)
    (hf : ∀ value value', V value value' → A.Settles E F (f value) (f' value') W) :
    A.Settles E F (c >>= f) (c' >>= f') W :=
  h.bind_missed hf fun _ => False.elim

/-- The two come to the same value. -/
theorem bind_same {c c' : Comp S ε σ α} {f : α → Comp S ε σ γ} {f' : α → Comp S ε σ δ} (h : A.Settles E Never c c' Eq)
    (hf : ∀ value, A.Settles E F (f value) (f' value) W) : A.Settles E F (c >>= f) (c' >>= f') W :=
  h.bind fun value _ heq => heq ▸ hf value

/-- Both ask a question of one kind. -/
theorem ask {query query' : S.Query kind} {V : S.Reply kind → S.Reply kind → Prop} {D : S.Reply kind → Prop}
    (h : ∀ reply reply', A.left ⟨kind, query, reply⟩ → A.right ⟨kind, query', reply'⟩ → V reply reply') :
    A.Settles E D (Comp.ask kind query : Comp S ε σ _) (Comp.ask kind query') V := by
  intro s s' events r t events' r' t' hs hrun hrun' hleft hright
  obtain ⟨reply, rfl, rfl, rfl⟩ := Comp.runs_ask.1 hrun
  obtain ⟨reply', rfl, rfl, rfl⟩ := Comp.runs_ask.1 hrun'
  exact .ok (h _ _ (hleft _ List.mem_cons_self) (hright _ List.mem_cons_self)) hs

theorem ask_bind {query query' : S.Query kind} {f : S.Reply kind → Comp S ε σ γ} {f' : S.Reply kind → Comp S ε σ δ}
    (h : ∀ reply reply', A.left ⟨kind, query, reply⟩ → A.right ⟨kind, query', reply'⟩ →
      A.Settles E F (f reply) (f' reply') W) :
    A.Settles E F (Comp.ask kind query >>= f) (Comp.ask kind query' >>= f') W :=
  bind (ask fun _ _ hleft hright => And.intro hleft hright) fun _ _ hreply => h _ _ hreply.1 hreply.2

/-- What the first does beforehand, which the second does not show. -/
theorem bind_left {f : α → Comp S ε σ γ} {c' : Comp S ε σ δ} {V : α → PUnit → Prop}
    (h : A.Settles E Never c (Pure.pure ⟨⟩) V) (hf : ∀ value, V value ⟨⟩ → A.Settles E F (f value) c' W) :
    A.Settles E F (c >>= f) c' W := by
  have hpure (s' : σ) : (Pure.pure ⟨⟩ : Comp S ε σ PUnit).Runs s' [] (.ok ⟨⟩) s' := Comp.runs_pure.2 ⟨rfl, rfl, rfl⟩
  intro s s' events r t events' r' t' hs hrun hrun' hleft hright
  rcases Comp.runs_bind.1 hrun with ⟨first, value, middle, second, rfl, h₁, h₂⟩ | ⟨e, rfl, h₁⟩
  · cases h _ _ _ _ _ _ _ _ hs h₁ (hpure s') (always_append hleft).1 (fun _ h => by cases h) with
    | ok hvalue hm => exact hf _ hvalue _ _ _ _ _ _ _ _ hm h₂ hrun' (always_append hleft).2 hright
  · cases h _ _ _ _ _ _ _ _ hs h₁ (hpure s') hleft (fun _ h => by cases h)

/-- What the second does beforehand, which the first does not show. -/
theorem bind_right {c : Comp S ε σ γ} {f' : β → Comp S ε σ δ} {V : PUnit → β → Prop}
    (h : A.Settles E Never (Pure.pure ⟨⟩) c' V) (hf : ∀ value, V ⟨⟩ value → A.Settles E F c (f' value) W) :
    A.Settles E F c (c' >>= f') W := by
  have hpure (s : σ) : (Pure.pure ⟨⟩ : Comp S ε σ PUnit).Runs s [] (.ok ⟨⟩) s := Comp.runs_pure.2 ⟨rfl, rfl, rfl⟩
  intro s s' events r t events' r' t' hs hrun hrun' hleft hright
  rcases Comp.runs_bind.1 hrun' with ⟨first, value, middle, second, rfl, h₁, h₂⟩ | ⟨e, rfl, h₁⟩
  · cases h _ _ _ _ _ _ _ _ hs (hpure s) h₁ (fun _ h => by cases h) (always_append hright).1 with
    | ok hvalue hm => exact hf _ hvalue _ _ _ _ _ _ _ _ hm hrun h₂ hleft (always_append hright).2
  · cases h _ _ _ _ _ _ _ _ hs (hpure s) h₁ (fun _ h => by cases h) hright with
    | missed hd => exact hd.elim

theorem yields_left {Q : α → Prop} {f : α → Comp S ε σ γ} {c' : Comp S ε σ δ} (hc : c.Yields A.left Q)
    (h : ∀ value, Q value → A.Settles E F (f value) c' W) : A.Settles E F (c >>= f) c' W := by
  refine bind_left (V := fun value _ => Q value) ?_ h
  intro s s' events r t events' r' t' hs hrun hrun' hleft _
  obtain ⟨⟨value, rfl, hvalue⟩, rfl⟩ := hc.run hrun hleft
  obtain ⟨-, rfl, rfl⟩ := Comp.runs_pure.1 hrun'
  exact .ok hvalue hs

theorem yields_right {Q : β → Prop} {c : Comp S ε σ γ} {f' : β → Comp S ε σ δ} (hc : c'.Yields A.right Q)
    (h : ∀ value, Q value → A.Settles E F c (f' value) W) : A.Settles E F c (c' >>= f') W := by
  refine bind_right (V := fun _ value => Q value) ?_ h
  intro s s' events r t events' r' t' hs hrun hrun' _ hright
  obtain ⟨⟨value, rfl, hvalue⟩, rfl⟩ := hc.run hrun' hright
  obtain ⟨-, rfl, rfl⟩ := Comp.runs_pure.1 hrun
  exact .ok hvalue hs

theorem pure_left {value : α} {f : α → Comp S ε σ γ} {c' : Comp S ε σ δ} (h : A.Settles E F (f value) c' W) :
    A.Settles E F (Pure.pure value >>= f) c' W :=
  yields_left (fun _ => Frame.Given.pure rfl) fun _ heq => heq.symm ▸ h

theorem pure_right {value : β} {c : Comp S ε σ γ} {f' : β → Comp S ε σ δ} (h : A.Settles E F c (f' value) W) :
    A.Settles E F c (Pure.pure value >>= f') W :=
  yields_right (fun _ => Frame.Given.pure rfl) fun _ heq => heq.symm ▸ h

theorem assoc_left {f : α → Comp S ε σ β} {g : β → Comp S ε σ γ} {c' : Comp S ε σ δ}
    (h : A.Settles E F (c >>= fun value => f value >>= g) c' W) : A.Settles E F ((c >>= f) >>= g) c' W := by
  intro s s' events r t events' r' t' hs hrun hrun' hleft hright
  refine h _ _ events _ _ _ _ _ hs ?_ hrun' hleft hright
  rcases Comp.runs_bind.1 hrun with ⟨first, value, middle, second, rfl, h₁, h₂⟩ | ⟨e, rfl, h₁⟩
  · rcases Comp.runs_bind.1 h₁ with ⟨third, inner, after, fourth, rfl, h₃, h₄⟩ | ⟨e, hr, h₃⟩
    · rw [List.append_assoc]
      exact Comp.runs_bind.2 (.inl ⟨third, inner, after, _, rfl, h₃, Comp.runs_bind.2 (.inl ⟨_, _, _, _, rfl, h₄, h₂⟩)⟩)
    · cases hr
  · rcases Comp.runs_bind.1 h₁ with ⟨third, inner, after, fourth, rfl, h₃, h₄⟩ | ⟨e, hr, h₃⟩
    · exact Comp.runs_bind.2 (.inl ⟨third, inner, after, _, rfl, h₃, Comp.runs_bind.2 (.inr ⟨_, rfl, h₄⟩)⟩)
    · exact Comp.runs_bind.2 (.inr ⟨_, rfl, by cases hr; exact h₃⟩)

/-- What the first makes of its value at the end. -/
theorem map_left {g : α → γ} {W : γ → β → Prop} (h : A.Settles E Never c c' V)
    (hv : ∀ value value', V value value' → W (g value) value') :
    A.Settles E F (c >>= fun value => Pure.pure (g value)) c' W := by
  intro s s' events r t events' r' t' hs hrun hrun' hleft hright
  rcases Comp.runs_bind.1 hrun with ⟨first, value, middle, second, rfl, h₁, h₂⟩ | ⟨e, rfl, h₁⟩
  · obtain ⟨rfl, rfl, rfl⟩ := Comp.runs_pure.1 h₂
    cases h _ _ _ _ _ _ _ _ hs h₁ hrun' (always_append hleft).1 hright with
    | ok hvalue ht => exact .ok (hv _ _ hvalue) ht
    | missed hd => exact hd.elim
  · cases h _ _ _ _ _ _ _ _ hs h₁ hrun' hleft hright with
    | error he ht => exact .error he ht

/-- What the second makes of its value at the end. -/
theorem map_right {g : β → δ} {W : α → δ → Prop} (h : A.Settles E D c c' V)
    (hv : ∀ value value', V value value' → W value (g value')) :
    A.Settles E D c (c' >>= fun value => Pure.pure (g value)) W := by
  intro s s' events r t events' r' t' hs hrun hrun' hleft hright
  rcases Comp.runs_bind.1 hrun' with ⟨first, value, middle, second, rfl, h₁, h₂⟩ | ⟨e, rfl, h₁⟩
  · obtain ⟨rfl, rfl, rfl⟩ := Comp.runs_pure.1 h₂
    cases h _ _ _ _ _ _ _ _ hs hrun h₁ hleft (always_append hright).1 with
    | ok hvalue ht => exact .ok (hv _ _ hvalue) ht
  · cases h _ _ _ _ _ _ _ _ hs hrun h₁ hleft hright with
    | error he ht => exact .error he ht
    | missed hd => exact .missed hd

theorem attempt_missed {k : Except ε α → Comp S ε σ γ} {k' : Except ε β → Comp S ε σ δ} (h : A.Settles E D c c' V)
    (hok : ∀ value value', V value value' → A.Settles E' F (k (.ok value)) (k' (.ok value')) W)
    (herror : ∀ e e', E e e' → A.Settles E' F (k (.error e)) (k' (.error e')) W)
    (hd : ∀ value, D value → (k (.ok value)).Returns F)
    (hfails : ∀ value, D value → ∀ e', (k' (.error e')).Fails) :
    A.Settles E' F (Comp.attempt c >>= k) (Comp.attempt c' >>= k') W := by
  intro s s' events r t events' r' t' hs hrun hrun' hleft hright
  obtain ⟨first, outcome, middle, second, rfl, h₁, h₂⟩ := Comp.runs_attempt_bind hrun
  obtain ⟨first', outcome', middle', second', rfl, h₁', h₂'⟩ := Comp.runs_attempt_bind hrun'
  cases h _ _ _ _ _ _ _ _ hs h₁ h₁' (always_append hleft).1 (always_append hright).1 with
  | ok hv hm => exact hok _ _ hv _ _ _ _ _ _ _ _ hm h₂ h₂' (always_append hleft).2 (always_append hright).2
  | error he hm => exact herror _ _ he _ _ _ _ _ _ _ _ hm h₂ h₂' (always_append hleft).2 (always_append hright).2
  | missed hv =>
    obtain ⟨value, rfl, hvalue⟩ := (hd _ hv).run h₂
    obtain ⟨e, rfl⟩ := (hfails _ hv _).run h₂'
    exact .missed hvalue

theorem attempt_bind {k : Except ε α → Comp S ε σ γ} {k' : Except ε β → Comp S ε σ δ} (h : A.Settles E Never c c' V)
    (hok : ∀ value value', V value value' → A.Settles E' F (k (.ok value)) (k' (.ok value')) W)
    (herror : ∀ e e', E e e' → A.Settles E' F (k (.error e)) (k' (.error e')) W) :
    A.Settles E' F (Comp.attempt c >>= k) (Comp.attempt c' >>= k') W :=
  h.attempt_missed hok herror (fun _ => False.elim) fun _ => False.elim

/-- The first takes its chance to go on, where the value of the second is known. -/
theorem attempt_left {k : Except ε α → Comp S ε σ γ} {value' : β} {c' : Comp S ε σ δ}
    (h : A.Settles E Never c (Pure.pure value') V) (hok : ∀ value, V value value' → A.Settles E' F (k (.ok value)) c' W) :
    A.Settles E' F (Comp.attempt c >>= k) c' W := by
  intro s s' events r t events' r' t' hs hrun hrun' hleft hright
  have hpure : (Pure.pure value' : Comp S ε σ β).Runs s' [] (.ok value') s' := Comp.runs_pure.2 ⟨rfl, rfl, rfl⟩
  obtain ⟨first, outcome, middle, second, rfl, h₁, h₂⟩ := Comp.runs_attempt_bind hrun
  cases h _ _ _ _ _ _ _ _ hs h₁ hpure (always_append hleft).1 (fun _ h => by cases h) with
  | ok hv hm => exact hok _ hv _ _ _ _ _ _ _ _ hm h₂ hrun' (always_append hleft).2 hright

/-- The first takes its chance to go on, where the second is known to raise. -/
theorem attempt_throw {k : Except ε α → Comp S ε σ γ} {e' : ε} (h : A.Settles E D c (MonadExcept.throw e' : Comp S ε σ β) V)
    (herror : ∀ e, E e e' → A.Settles E' F (k (.error e)) (MonadExcept.throw e' : Comp S ε σ δ) W)
    (hd : ∀ value, D value → (k (.ok value)).Returns F) :
    A.Settles E' F (Comp.attempt c >>= k) (MonadExcept.throw e' : Comp S ε σ δ) W := by
  intro s s' events r t events' r' t' hs hrun hrun' hleft hright
  obtain ⟨first, outcome, middle, second, rfl, h₁, h₂⟩ := Comp.runs_attempt_bind hrun
  have hthrow : (MonadExcept.throw e' : Comp S ε σ β).Runs s' [] (.error e') s' := Comp.runs_throw.2 ⟨rfl, rfl, rfl⟩
  obtain ⟨-, hr', ht'⟩ := Comp.runs_throw.1 hrun'
  subst hr' ht'
  cases h _ _ _ _ _ _ _ _ hs h₁ hthrow (always_append hleft).1 (fun _ h => by cases h) with
  | error he hm =>
    exact herror _ he _ _ _ _ _ _ _ _ hm h₂ hrun' (always_append hleft).2 hright
  | missed hv =>
    obtain ⟨value, rfl, hvalue⟩ := (hd _ hv).run h₂
    exact .missed hvalue

/-- The first goes on, where the second is known to raise. -/
theorem bind_throw {Q : α → Prop} {f : α → Comp S ε σ γ} {e' : ε} (he : ∀ e, E e e')
    (hc : ∀ G : Frame S σ, G.Given (fun _ => True) c Q fun _ => True)
    (hf : ∀ value, Q value → A.Settles E F (f value) (MonadExcept.throw e' : Comp S ε σ δ) W) :
    A.Settles E F (c >>= f) (MonadExcept.throw e' : Comp S ε σ δ) W := by
  intro s s' events r t events' r' t' hs hrun hrun' hleft hright
  rcases Comp.runs_bind.1 hrun with ⟨first, value, middle, second, rfl, h₁, h₂⟩ | ⟨e, rfl, h₁⟩
  · obtain ⟨rfl, hvalue⟩ := hc { Inv := (· = s), Mark := fun _ => False } _ _ _ _ rfl (fun _ _ => trivial) h₁
    exact hf _ hvalue _ _ _ _ _ _ _ _ hs h₂ hrun' (always_append hleft).2 hright
  · obtain ⟨rfl, -⟩ := hc { Inv := (· = s), Mark := fun _ => False } _ _ _ _ rfl (fun _ _ => trivial) h₁
    obtain ⟨-, rfl, rfl⟩ := Comp.runs_throw.1 hrun'
    exact .error (he _) hs

/-- The second raises, whatever would have come behind it. -/
theorem throw_bind {f : α → Comp S ε σ γ} {e' : ε} (h : A.Settles E D c (MonadExcept.throw e' : Comp S ε σ β) V)
    (hd : ∀ value, D value → (f value).Returns F) :
    A.Settles E F (c >>= f) (MonadExcept.throw e' : Comp S ε σ δ) W := by
  intro s s' events r t events' r' t' hs hrun hrun' hleft hright
  have hthrow : (MonadExcept.throw e' : Comp S ε σ β).Runs s' [] (.error e') s' := Comp.runs_throw.2 ⟨rfl, rfl, rfl⟩
  obtain ⟨-, hr', ht'⟩ := Comp.runs_throw.1 hrun'
  subst hr' ht'
  rcases Comp.runs_bind.1 hrun with ⟨first, value, middle, second, rfl, h₁, h₂⟩ | ⟨e, rfl, h₁⟩
  · cases h _ _ _ _ _ _ _ _ hs h₁ hthrow (always_append hleft).1 (fun _ h => by cases h) with
    | missed hv =>
      obtain ⟨value, rfl, hvalue⟩ := (hd _ hv).run h₂
      exact .missed hvalue
  · cases h _ _ _ _ _ _ _ _ hs h₁ hthrow hleft (fun _ h => by cases h) with
    | error he ht => exact .error he ht

theorem get_bind {f : σ → Comp S ε σ γ} {f' : σ → Comp S ε σ δ}
    (hf : ∀ s s', A.state s s' → A.Settles E F (f s) (f' s') W) : A.Settles E F (get >>= f) (get >>= f') W := by
  intro s s' events r t events' r' t' hs hrun hrun'
  exact hf s s' hs _ _ _ _ _ _ _ _ hs (Comp.runs_get_bind.1 hrun) (Comp.runs_get_bind.1 hrun')

/-- Only the first looks at its state. -/
theorem get_left {f : σ → Comp S ε σ γ} {c' : Comp S ε σ δ} (hf : ∀ s s', A.state s s' → A.Settles E F (f s) c' W) :
    A.Settles E F (get >>= f) c' W := by
  intro s s' events r t events' r' t' hs hrun hrun'
  exact hf s s' hs _ _ _ _ _ _ _ _ hs (Comp.runs_get_bind.1 hrun) hrun'

/-- Only the second looks at its state. -/
theorem get_right {c : Comp S ε σ γ} {f' : σ → Comp S ε σ δ} (hf : ∀ s s', A.state s s' → A.Settles E F c (f' s') W) :
    A.Settles E F c (get >>= f') W := by
  intro s s' events r t events' r' t' hs hrun hrun'
  exact hf s s' hs _ _ _ _ _ _ _ _ hs hrun (Comp.runs_get_bind.1 hrun')

theorem modify_bind {g g' : σ → σ} {f : PUnit → Comp S ε σ γ} {f' : PUnit → Comp S ε σ δ}
    (hg : ∀ s s', A.state s s' → A.state (g s) (g' s')) (hf : A.Settles E F (f ⟨⟩) (f' ⟨⟩) W) :
    A.Settles E F (modify g >>= f) (modify g' >>= f') W := by
  refine bind (V := fun _ _ => True) ?_ fun _ _ _ => hf
  intro s s' events r t events' r' t' hs hrun hrun' _ _
  obtain ⟨-, rfl, rfl⟩ := Comp.runs_modify.1 hrun
  obtain ⟨-, rfl, rfl⟩ := Comp.runs_modify.1 hrun'
  exact .ok trivial (hg _ _ hs)

/-- Only the first changes its state, in a way that does not count. -/
theorem modify_left {g : σ → σ} {f : PUnit → Comp S ε σ γ} {c' : Comp S ε σ δ}
    (hg : ∀ s s', A.state s s' → A.state (g s) s') (hf : A.Settles E F (f ⟨⟩) c' W) :
    A.Settles E F (modify g >>= f) c' W := by
  refine bind_left (V := fun _ _ => True) ?_ fun _ _ => hf
  intro s s' events r t events' r' t' hs hrun hrun' _ _
  obtain ⟨-, rfl, rfl⟩ := Comp.runs_modify.1 hrun
  obtain ⟨-, rfl, rfl⟩ := Comp.runs_pure.1 hrun'
  exact .ok trivial (hg _ _ hs)

/-- Both change their states so that they go together closer than before. -/
theorem modify_into {state : σ → σ → Prop} {g g' : σ → σ} {f : PUnit → Comp S ε σ γ} {f' : PUnit → Comp S ε σ δ}
    (hg : ∀ s s', state s s' → A.state (g s) (g' s')) (hback : ∀ t t', A.state t t' → state t t')
    (hf : A.Settles E F (f ⟨⟩) (f' ⟨⟩) W) : Settles { A with state } E F (modify g >>= f) (modify g' >>= f') W := by
  intro s s' events r t events' r' t' hs hrun hrun' hleft hright
  rcases Comp.runs_bind.1 hrun with ⟨first, value, middle, second, rfl, h₁, h₂⟩ | ⟨e, rfl, h₁⟩ <;>
    rcases Comp.runs_bind.1 hrun' with ⟨first', value', middle', second', rfl, h₁', h₂'⟩ | ⟨e', rfl, h₁'⟩
  · obtain ⟨-, hr, rfl⟩ := Comp.runs_modify.1 h₁
    obtain ⟨-, hr', rfl⟩ := Comp.runs_modify.1 h₁'
    exact (hf _ _ _ _ _ _ _ _ (hg _ _ hs) h₂ h₂' (always_append hleft).2 (always_append hright).2).imp (fun _ _ => id)
      (fun _ _ => id) (fun _ => id) (hback _ _)
  all_goals
    obtain ⟨-, hr, -⟩ := Comp.runs_modify.1 ‹Comp.Runs (modify _) _ _ (.error _) _›
    cases hr

/-- Inside a scope the states may go together in another way than outside. -/
theorem within {enter enter' : σ → σ} {R : σ → σ → Prop} (henter : ∀ s s', A.state s s' → R (enter s) (enter' s'))
    (h : Settles { A with state := R } E D c c' V) : A.Settles E D (Comp.within enter c) (Comp.within enter' c') V := by
  intro s s' events r t events' r' t' hs hrun hrun' hleft hright
  obtain ⟨rfl, inner, hrun⟩ := Comp.runs_within.1 hrun
  obtain ⟨rfl, inner', hrun'⟩ := Comp.runs_within.1 hrun'
  exact (h _ _ _ _ _ _ _ _ (henter _ _ hs) hrun hrun' hleft hright).imp (fun _ _ => id) (fun _ _ => id)
    (fun _ => id) fun _ => hs

/-- Code that may start from any two states that go together, its state put back at the end. -/
theorem restate {state : σ → σ → Prop} (hstate : ∀ s s', A.state s s' → state s s') (hc : c.Restores) (hc' : c'.Restores)
    (h : Settles { A with state } E D c c' V) : A.Settles E D c c' V := by
  intro s s' events r t events' r' t' hs hrun hrun' hleft hright
  obtain rfl := hc.run hrun
  obtain rfl := hc'.run hrun'
  exact (h _ _ _ _ _ _ _ _ (hstate _ _ hs) hrun hrun' hleft hright).imp (fun _ _ => id) (fun _ _ => id)
    (fun _ => id) fun _ => hs

end Settles

/-- The second side is in one state all the time. -/
def pinned (s' : σ) : Accord S σ := { A with state := fun s t' => A.state s t' ∧ t' = s' }

namespace Settles

variable {A} {E : ε → ε → Prop} {c : Comp S ε σ α} {c' : Comp S ε σ β} {V : α → β → Prop} {D : α → Prop}
  {W : γ → δ → Prop} {F : γ → Prop}

theorem pin (h : A.Settles E D c c' V) (hc' : c'.Restores) (s' : σ) : (A.pinned s').Settles E D c c' V := by
  intro s t' events r t events' r' u' hs hrun hrun' hleft hright
  obtain rfl := hc'.run hrun'
  exact (h _ _ _ _ _ _ _ _ hs.1 hrun hrun' hleft hright).imp (fun _ _ => id) (fun _ _ => id) (fun _ => id)
    fun ht => ⟨ht, hs.2⟩

/-- What the second is known to come to, from a run of it. -/
theorem foretold {value' : β} (h : A.Settles E D c c' V) (hrun' : c'.Runs s' events' (.ok value') s')
    (hright : Always A.right events') : (A.pinned s').Settles E Never c (Pure.pure value' : Comp S ε σ β) V := by
  rintro s t' events r t _ r' u' ⟨hs, rfl⟩ hrun hpure hleft -
  obtain ⟨rfl, rfl, rfl⟩ := Comp.runs_pure.1 hpure
  cases h _ _ _ _ _ _ _ _ hs hrun hrun' hleft hright with
  | ok hv ht => exact .ok hv ⟨ht, rfl⟩

theorem foretold_error {e' : ε} (h : A.Settles E D c c' V) (hrun' : c'.Runs s' events' (.error e') s')
    (hright : Always A.right events') : (A.pinned s').Settles E D c (MonadExcept.throw e' : Comp S ε σ β) V := by
  rintro s t' events r t _ r' u' ⟨hs, rfl⟩ hrun hthrow hleft -
  obtain ⟨rfl, rfl, rfl⟩ := Comp.runs_throw.1 hthrow
  cases h _ _ _ _ _ _ _ _ hs hrun hrun' hleft hright with
  | error he ht => exact .error he ⟨ht, rfl⟩
  | missed hd => exact .missed hd

/-- The second works ahead: the first is in accord with what remains. -/
theorem told {f' : β → Comp S ε σ δ} {c : Comp S ε σ γ} (hc' : c'.Restores)
    (hok : ∀ s' events' value', c'.Runs s' events' (.ok value') s' → Always A.right events' →
      (A.pinned s').Settles E F c (f' value') W)
    (herror : ∀ s' events' e', c'.Runs s' events' (.error e') s' → Always A.right events' →
      (A.pinned s').Settles E F c (MonadExcept.throw e' : Comp S ε σ δ) W) :
    A.Settles E F c (c' >>= f') W := by
  intro s s' events r t events' r' t' hs hrun hrun' hleft hright
  rcases Comp.runs_bind.1 hrun' with ⟨first', value', middle', second', rfl, h₁', h₂'⟩ | ⟨e', rfl, h₁'⟩
  · obtain rfl := hc'.run h₁'
    exact (hok _ _ _ h₁' (always_append hright).1 _ _ _ _ _ _ _ _ ⟨hs, rfl⟩ hrun h₂' hleft (always_append hright).2).imp
      (fun _ _ => id) (fun _ _ => id) (fun _ => id) And.left
  · obtain rfl := hc'.run h₁'
    exact (herror _ _ _ h₁' hright _ _ _ _ _ _ _ _ ⟨hs, rfl⟩ hrun (Comp.runs_throw.2 ⟨rfl, rfl, rfl⟩) hleft
      fun _ h => by cases h).imp (fun _ _ => id) (fun _ _ => id) (fun _ => id) And.left

end Settles

end Accord

-- Tasks

/-- All tasks have come to their values, or one of them has failed. What they asked is in
the trace. -/
inductive Joined (s : σ) (events : List (Event S)) (tasks : List (Comp S ε σ α)) : Except ε (List α) → Prop
  | all : List.Forall₂ (fun task value => ∃ piece t, piece ⊆ events ∧ task.Runs s piece (.ok value) t) tasks values →
      Joined s events tasks (.ok values)
  | failed : task ∈ tasks → piece ⊆ events → task.Runs s piece (.error e) t → Joined s events tasks (.error e)

theorem Prog.RunsAll.forall₂ {tasks : List (Comp S ε σ α)} {outcomes : List (Except ε α)}
    (h : Prog.RunsAll (tasks.map fun task => Prod.fst <$> task s) pieces outcomes)
    (hsub : ∀ piece ∈ pieces, piece ⊆ events) :
    List.Forall₂ (fun task outcome => ∃ piece t, piece ⊆ events ∧ task.Runs s piece outcome t) tasks outcomes := by
  induction tasks generalizing pieces outcomes with
  | nil =>
    cases h
    exact .nil
  | cons task tasks ih =>
    obtain _ | ⟨hrun, hrest⟩ := h
    obtain ⟨hpiece, hpieces⟩ := List.forall_mem_cons.1 hsub
    obtain ⟨t, ht⟩ := Comp.runs_fst hrun
    exact .cons ⟨_, t, hpiece, ht⟩ (ih hrest hpieces)

namespace Joined

variable {tasks tasks' : List (Comp S ε σ α)} {task : Comp S ε σ α}

theorem gather (h : (Comp.gather n choices tasks).Runs s events r t) : t = s ∧ Joined s events tasks r := by
  obtain ⟨rfl, pieces, outcomes, hall, hmerged, hg⟩ := Comp.runs_gather h
  have hruns := hall.forall₂ fun piece hp => (hmerged.sublist hp).subset
  refine ⟨rfl, ?_⟩
  cases r with
  | ok values =>
    obtain rfl : outcomes = values.map .ok := hg
    exact .all ((List.forall₂_map_right_iff).1 hruns)
  | error e =>
    have hmem : .error e ∈ outcomes := hg
    obtain ⟨place, hplace, heq⟩ := List.mem_iff_getElem.1 hmem
    have hlt : place < tasks.length := hruns.length_eq ▸ hplace
    obtain ⟨piece, t, hpiece, ht⟩ := (List.forall₂_iff_get.1 hruns).2 place hlt hplace
    simp only [List.get_eq_getElem, heq] at ht
    exact .failed (List.getElem_mem hlt) hpiece ht

theorem mono (h : Joined s rest tasks r) (hrest : rest ⊆ events) : Joined s events tasks r := by
  cases h with
  | all hall =>
    refine .all (hall.imp fun task value h => ?_)
    obtain ⟨piece, t, hpiece, hrun⟩ := h
    exact ⟨piece, t, List.Subset.trans hpiece hrest, hrun⟩
  | failed hmem hpiece hrun => exact .failed hmem (List.Subset.trans hpiece hrest) hrun

/-- A task that comes first, and those behind it. -/
theorem cons (hrun : task.Runs s first (.ok value) t) (hfirst : first ⊆ events)
    (h : Joined s rest tasks (.ok values)) (hrest : rest ⊆ events) :
    Joined s events (task :: tasks) (.ok (value :: values)) := by
  cases h.mono hrest with
  | all hall => exact .all (.cons ⟨first, t, hfirst, hrun⟩ hall)

theorem behind (h : Joined s rest tasks (.error e)) (hrest : rest ⊆ events) :
    Joined s events (task :: tasks) (.error e) := by
  cases h.mono hrest with
  | failed hmem hpiece hrun => exact .failed (List.mem_cons_of_mem _ hmem) hpiece hrun

/-- Tasks that are in accord one by one come to related values, or some on either side fail. -/
theorem settles {A : Accord S σ} {E E' : ε → ε → Prop} {V : α → α → Prop} {together : Prop}
    (hall : List.Forall₂ (fun task task' => A.Settles E Never task task' V) tasks tasks') (hs : A.state s s')
    (h : Joined s events tasks r) (h' : Joined s' events' tasks' r') (ht : together) (he : ∀ e e', E' e e')
    (hleft : Always A.left events) (hright : Always A.right events') :
    Met (List.Forall₂ V) E' Never together r r' := by
  have hpart {P : Event S → Prop} {events piece : List (Event S)} (h : Always P events) (hsub : piece ⊆ events) :
      Always P piece := fun e he => h e (hsub he)
  cases h with
  | @all values hruns =>
    cases h' with
    | @all values' hruns' =>
      refine .ok ?_ ht
      induction hall generalizing values values' with
      | nil =>
        cases hruns
        cases hruns'
        exact .nil
      | cons hsettles _ ih =>
        obtain _ | ⟨⟨piece, t, hpiece, hrun⟩, hruns⟩ := hruns
        obtain _ | ⟨⟨piece', t', hpiece', hrun'⟩, hruns'⟩ := hruns'
        refine .cons ?_ (ih hruns hruns')
        cases hsettles _ _ _ _ _ _ _ _ hs hrun hrun' (hpart hleft hpiece) (hpart hright hpiece') with
        | ok hv _ => exact hv
    | @failed task' piece' e t' hmem hpiece' hrun' =>
      obtain ⟨place, hplace, rfl⟩ := List.mem_iff_getElem.1 hmem
      have hlt : place < tasks.length := hall.length_eq ▸ hplace
      have hvalue : place < values.length := hruns.length_eq ▸ hlt
      obtain ⟨piece, t, hpiece, hrun⟩ := (List.forall₂_iff_get.1 hruns).2 place hlt hvalue
      have hsettles := (List.forall₂_iff_get.1 hall).2 place hlt hplace
      cases hsettles _ _ _ _ _ _ _ _ hs hrun hrun' (hpart hleft hpiece) (hpart hright hpiece') with
      | missed h => exact h.elim
  | @failed task piece e t hmem hpiece hrun =>
    cases h' with
    | failed _ _ _ => exact .error (he _ _) ht
    | @all values hruns =>
      obtain ⟨place, hplace, rfl⟩ := List.mem_iff_getElem.1 hmem
      have hlt : place < tasks'.length := hall.length_eq ▸ hplace
      have hvalue : place < values.length := hruns.length_eq ▸ hlt
      obtain ⟨piece', t', hpiece', hrun'⟩ := (List.forall₂_iff_get.1 hruns).2 place hlt hvalue
      have hsettles := (List.forall₂_iff_get.1 hall).2 place hplace hlt
      cases hsettles _ _ _ _ _ _ _ _ hs hrun hrun' (hpart hleft hpiece) (hpart hright hpiece')

end Joined

end Interaction
