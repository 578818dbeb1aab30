import ChainWeaver.Interaction.Prog

/-!
# Shared surroundings

Several threads run against one state, each question an atomic step of it. Between
the questions of one thread the others may take any steps.
-/

namespace Interaction

variable {S : Signature} {ω : Type}

/-- How the state answers a question: the state before, the question with its
answer, the state after. -/
abbrev Steps (S : Signature) (ω : Type) := ω → Event S → ω → Prop

/-- A question, in the state that it met. -/
abbrev Moment (S : Signature) (ω : Type) := ω × Event S

/-- `Reaches Step w moments w'`: the steps of all threads lead from `w` to `w'`. -/
inductive Reaches (Step : Steps S ω) : ω → List (Moment S ω) → ω → Prop
  | refl (w : ω) : Reaches Step w [] w
  | tail : Reaches Step w moments w₁ → Step w₁ e w₂ → Reaches Step w (moments ++ [(w₁, e)]) w₂

variable {Step : Steps S ω}

/-- A thread's run of `p` among others: its own moments and its result. -/
inductive Shared (Step : Steps S ω) : ω → Prog S α → List (Moment S ω) → α → ω → Prop
  | done : Reaches Step w others w' → Shared Step w (.done value) [] value w'
  | ask {kind query reply next} : Reaches Step w others w₁ → Step w₁ ⟨kind, query, reply⟩ w₂ →
      Shared Step w₂ (next reply) own value w' →
      Shared Step w (.ask kind query next) ((w₁, ⟨kind, query, reply⟩) :: own) value w'

theorem shared_bind {p : Prog S α} {f : α → Prog S β} (h : Shared Step w (p.bind f) own result w') :
    ∃ first value w₁ second, own = first ++ second ∧ Shared Step w p first value w₁ ∧
      Shared Step w₁ (f value) second result w' := by
  induction p generalizing w own with
  | done value => exact ⟨[], value, w, own, rfl, .done (.refl w), h⟩
  | ask kind query next ih =>
    cases h with
    | ask hothers hs hrest =>
      obtain ⟨first, value, w₁, second, rfl, hfirst, hsecond⟩ := ih _ hrest
      exact ⟨_, value, w₁, second, rfl, .ask hothers hs hfirst, hsecond⟩

/-- A run without others is a run among them. -/
theorem exec_shared (oracle : ω → (kind : S.Kind) → S.Query kind → S.Reply kind × ω)
    (horacle : ∀ w kind query, Step w ⟨kind, query, (oracle w kind query).1⟩ (oracle w kind query).2)
    (w : ω) (p : Prog S α) : ∃ own, Shared Step w p own (p.exec oracle w).2.1 (p.exec oracle w).2.2 := by
  induction p generalizing w with
  | done value => exact ⟨[], .done (.refl w)⟩
  | ask kind query next ih =>
    obtain ⟨own, hown⟩ := ih _ (oracle w kind query).2
    exact ⟨_, .ask (.refl w) (horacle w kind query) hown⟩

-- Where exceptions come from

variable {ε : Type} {Fine : Moment S ω → Prop}

/-- The program returns exactly if all its questions are fine where they are asked. -/
def ReturnsIff (Step : Steps S ω) (Fine : Moment S ω → Prop) (p : ExceptT ε (Prog S) α) : Prop :=
  ∀ w own result w', Shared Step w p.run own result w' → ((∃ value, result = .ok value) ↔ ∀ m ∈ own, Fine m)

theorem ReturnsIff.pure (value : α) : ReturnsIff Step Fine (Pure.pure value : ExceptT ε (Prog S) α) := by
  intro w own result w' h
  cases h with
  | done => simp

theorem ReturnsIff.bind {p : ExceptT ε (Prog S) α} {f : α → ExceptT ε (Prog S) β} (hp : ReturnsIff Step Fine p)
    (hf : ∀ value, ReturnsIff Step Fine (f value)) : ReturnsIff Step Fine (p >>= f) := by
  intro w own result w' h
  obtain ⟨first, value, w₁, second, rfl, hfirst, hsecond⟩ := shared_bind h
  have hpiff := hp _ _ _ _ hfirst
  simp only [List.mem_append, or_imp, forall_and]
  cases value with
  | ok value =>
    have hfiff := hf value _ _ _ _ hsecond
    rw [hfiff]
    exact ⟨fun hall => ⟨hpiff.1 ⟨value, rfl⟩, hall⟩, And.right⟩
  | error error =>
    cases hsecond with
    | done =>
      refine iff_of_false (by simp) fun hall => ?_
      obtain ⟨value, hvalue⟩ := hpiff.2 hall.1
      cases hvalue

/-- A single question that raises. -/
theorem ReturnsIff.ask {kind : S.Kind} {query : S.Query kind} (outcome : S.Reply kind → Except ε α)
    (h : ∀ w reply w', Step w ⟨kind, query, reply⟩ w' → ((∃ value, outcome reply = .ok value) ↔ Fine (w, ⟨kind, query, reply⟩))) :
    ReturnsIff Step Fine (ExceptT.mk (.ask kind query fun reply => .done (outcome reply))) := by
  intro w own result w' hrun
  cases hrun with
  | ask _ hs hrest =>
    cases hrest with
    | done => simpa using h _ _ _ hs

theorem ReturnsIff.forM {f : α → ExceptT ε (Prog S) PUnit} (values : List α)
    (hf : ∀ value ∈ values, ReturnsIff Step Fine (f value)) : ReturnsIff Step Fine (values.forM f) := by
  induction values with
  | nil => exact .pure _
  | cons value rest ih =>
    rw [List.forall_mem_cons] at hf
    exact .bind hf.1 fun _ => ih hf.2

end Interaction
