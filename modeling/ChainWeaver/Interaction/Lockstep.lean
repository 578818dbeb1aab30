import ChainWeaver.Interaction.Gather
import Mathlib.Data.List.Forall2

/-!
# Programs in lockstep

Two programs that meet the same questions, up to a renaming, and go on alike with
the same answers. What one of them does, the other one does too, however the
surroundings keep their state.
-/

namespace Interaction

variable {S : Signature} {ε σ : Type}

/-- A renaming of questions within their kinds. -/
abbrev Renaming (S : Signature) := (kind : S.Kind) → S.Query kind → S.Query kind

def Event.rename (swap : Renaming S) (e : Event S) : Event S := ⟨e.kind, swap e.kind e.query, e.reply⟩

namespace Prog

/-- Surroundings that do not see the renaming give the same answers. -/
theorem Answered.rename {oracle : ω → (kind : S.Kind) → S.Query kind → S.Reply kind × ω} {swap : Renaming S}
    (hsame : ∀ w kind query, oracle w kind (swap kind query) = oracle w kind query) {w : ω}
    (h : Answered oracle w events) : Answered oracle w (events.map (·.rename swap)) := by
  induction events generalizing w with
  | nil => trivial
  | cons e events ih =>
    obtain ⟨hreply, hrest⟩ := h
    refine ⟨hreply.trans (congrArg Prod.fst (hsame _ _ _)).symm, ?_⟩
    change Answered oracle (oracle w e.kind (swap e.kind e.query)).2 _
    rw [hsame]
    exact ih hrest

/-- The programs go on alike as long as they meet events in `A`, and end with values
that `V` relates. -/
inductive Lockstep (swap : Renaming S) (A : Event S → Prop) (V : α → β → Prop) : Prog S α → Prog S β → Prop
  | done : V value value' → Lockstep swap A V (.done value) (.done value')
  | ask {kind query next next'} :
      (∀ reply, A ⟨kind, query, reply⟩ → Lockstep swap A V (next reply) (next' reply)) →
      Lockstep swap A V (.ask kind query next) (.ask kind (swap kind query) next')

namespace Lockstep

variable {swap : Renaming S} {A : Event S → Prop} {V : α → β → Prop} {p : Prog S α} {p' : Prog S β}

theorem weaken {W : α → β → Prop} (h : Lockstep swap A V p p') (himp : ∀ value value', V value value' → W value value') :
    Lockstep swap A W p p' := by
  induction h with
  | done hv => exact .done (himp _ _ hv)
  | ask _ ih => exact .ask ih

theorem bind {W : γ → δ → Prop} {f : α → Prog S γ} {f' : β → Prog S δ} (h : Lockstep swap A V p p')
    (hf : ∀ value value', V value value' → Lockstep swap A W (f value) (f' value')) :
    Lockstep swap A W (p.bind f) (p'.bind f') := by
  induction h with
  | done hv => exact hf _ _ hv
  | ask _ ih => exact .ask ih

/-- A run of the one is a run of the other. -/
theorem runs (h : Lockstep swap A V p p') (hrun : p.Runs events value) (ha : ∀ e ∈ events, A e) :
    ∃ value', p'.Runs (events.map (·.rename swap)) value' ∧ V value value' := by
  induction h generalizing events with
  | done hv =>
    obtain ⟨rfl, rfl⟩ := runs_done.1 hrun
    exact ⟨_, .done _, hv⟩
  | ask _ ih =>
    obtain ⟨reply, rest, rfl, hrest⟩ := runs_ask.1 hrun
    obtain ⟨value', hrun', hv⟩ := ih reply (ha _ List.mem_cons_self) hrest fun e he => ha e (List.mem_cons_of_mem _ he)
    exact ⟨value', .ask hrun', hv⟩

/-- A run of the other is a run of the one. -/
theorem runs_back (h : Lockstep swap A V p p') (hall : ∀ e, A e) (hrun : p'.Runs events' value') :
    ∃ events value, events' = events.map (·.rename swap) ∧ p.Runs events value ∧ V value value' := by
  induction h generalizing events' with
  | done hv =>
    obtain ⟨rfl, rfl⟩ := runs_done.1 hrun
    exact ⟨[], _, rfl, .done _, hv⟩
  | ask _ ih =>
    obtain ⟨reply, rest, rfl, hrest⟩ := runs_ask.1 hrun
    obtain ⟨events, value, rfl, hrun', hv⟩ := ih reply (hall _) hrest
    exact ⟨_ :: events, value, rfl, .ask hrun', hv⟩

theorem isDone (h : Lockstep swap A V p p') : p'.isDone = p.isDone := by
  cases h <;> rfl

theorem advance (h : Lockstep swap A V p p') : Lockstep swap A (Lockstep swap A V) p.advance p'.advance := by
  cases h with
  | done hv => exact .done (.done hv)
  | ask h => exact .ask fun reply ha => .done (h reply ha)

end Lockstep

-- Programs run together

variable {swap : Renaming S} {A : Event S → Prop} {tasks tasks' : List (Prog S α)}

theorem lockstep_sequence (h : List.Forall₂ (Lockstep swap A Eq) tasks tasks') :
    Lockstep swap A Eq (sequence tasks) (sequence tasks') := by
  induction h with
  | nil => exact .done rfl
  | cons htask _ ih =>
    refine htask.bind ?_
    rintro value _ rfl
    refine ih.bind ?_
    rintro values _ rfl
    exact .done rfl

theorem forall₂_getElem? {R : α → β → Prop} {l : List α} {l' : List β} (h : List.Forall₂ R l l') (place : Nat) :
    (l[place]? = none ∧ l'[place]? = none) ∨ ∃ a b, l[place]? = some a ∧ l'[place]? = some b ∧ R a b := by
  induction h generalizing place with
  | nil => exact .inl ⟨rfl, rfl⟩
  | cons hab _ ih =>
    cases place with
    | zero => exact .inr ⟨_, _, rfl, rfl, hab⟩
    | succ place => exact ih place

theorem forall₂_set {R : α → β → Prop} {l : List α} {l' : List β} (h : List.Forall₂ R l l') (place : Nat)
    (hab : R a b) : List.Forall₂ R (l.set place a) (l'.set place b) := by
  induction h generalizing place with
  | nil => exact .nil
  | cons hhead htail ih =>
    cases place with
    | zero => exact .cons hab htail
    | succ place => exact .cons hhead (ih place)

theorem underway_eq (h : List.Forall₂ (Lockstep swap A Eq) tasks tasks') : underway n tasks' = underway n tasks := by
  unfold underway
  rw [h.length_eq]
  congr 1
  refine List.filter_congr fun place _ => ?_
  rcases forall₂_getElem? h place with ⟨hnone, hnone'⟩ | ⟨task, task', htask, htask', hlock⟩
  · rw [hnone, hnone']
  · rw [htask, htask', Option.all_some, Option.all_some, hlock.isDone]

theorem lockstep_interleave (h : List.Forall₂ (Lockstep swap A Eq) tasks tasks') (choices order : List Nat) :
    Lockstep swap A Eq (interleave n choices order tasks) (interleave n choices order tasks') := by
  induction choices generalizing order tasks tasks' with
  | nil =>
    refine (lockstep_sequence h).bind ?_
    rintro values _ rfl
    rw [h.length_eq]
    exact .done rfl
  | cons choice choices ih =>
    simp only [interleave, underway_eq h, h.length_eq]
    rcases forall₂_getElem? h ((underway n tasks).getD (choice % (underway n tasks).length) tasks'.length) with
      ⟨hnone, hnone'⟩ | ⟨task, task', htask, htask', hlock⟩
    · rw [hnone, hnone']
      exact ih h order
    · rw [htask, htask']
      refine hlock.advance.bind fun next next' hnext => ?_
      rw [hnext.isDone]
      exact ih (forall₂_set h _ hnext) _

theorem lockstep_gather {tasks tasks' : List (Prog S (Except ε α))}
    (h : List.Forall₂ (Lockstep swap A Eq) tasks tasks') :
    Lockstep swap A Eq (gather n choices tasks) (gather n choices tasks') := by
  have horder : ((List.range tasks'.length).filter fun i => tasks'[i]?.any Prog.isDone) =
      (List.range tasks.length).filter fun i => tasks[i]?.any Prog.isDone := by
    rw [h.length_eq]
    refine List.filter_congr fun place _ => ?_
    rcases forall₂_getElem? h place with ⟨hnone, hnone'⟩ | ⟨task, task', htask, htask', hlock⟩
    · rw [hnone, hnone']
    · rw [htask, htask', Option.any_some, Option.any_some, hlock.isDone]
  unfold gather
  rw [horder]
  refine (lockstep_interleave h choices _).bind ?_
  rintro result _ rfl
  exact .done rfl

end Prog

-- Computations in lockstep

/-- What the computations of two sides have in common: how the questions of the one
are renamed to those of the other, the states they start from, and the events they
are compared on. -/
structure Pairing (S : Signature) (σ : Type) where
  swap : Renaming S
  Inv : σ → Prop
  A : Event S → Prop

/-- Equal errors, or values that `V` relates. -/
inductive Alike (V : α → β → Prop) : Except ε α → Except ε β → Prop
  | ok : V value value' → Alike V (.ok value) (.ok value')
  | error : Alike V (.error e) (.error e)

theorem Alike.eq {r r' : Except ε α} (h : Alike Eq r r') : r = r' := by
  rcases h with rfl | _ <;> rfl

namespace Pairing

variable (P : Pairing S σ)

/-- From the same good state the computations go on alike, and end in the same good
state. -/
def Lockstep (c : Comp S ε σ α) (c' : Comp S ε σ β) (V : α → β → Prop) : Prop :=
  ∀ s, P.Inv s → Prog.Lockstep P.swap P.A
    (fun ran ran' => Alike V ran.1 ran'.1 ∧ ran'.2 = ran.2 ∧ P.Inv ran.2) (c s) (c' s)

variable {P} {V : α → β → Prop} {W : γ → δ → Prop} {c : Comp S ε σ α} {c' : Comp S ε σ β}

namespace Lockstep

/-- A run of the one is a run of the other, with the same outcome. -/
theorem runs (h : P.Lockstep c c' V) (hs : P.Inv s) (ha : ∀ e ∈ events, P.A e) (hrun : c.Runs s events r s') :
    ∃ r', c'.Runs s (events.map (·.rename P.swap)) r' s' ∧ Alike V r r' := by
  obtain ⟨⟨r', _⟩, hrun', hr, hstate, -⟩ := (h s hs).runs hrun ha
  cases hstate
  exact ⟨r', hrun', hr⟩

theorem runs_eq {c c' : Comp S ε σ α} (h : P.Lockstep c c' Eq) (hs : P.Inv s) (ha : ∀ e ∈ events, P.A e)
    (hrun : c.Runs s events r s') : c'.Runs s (events.map (·.rename P.swap)) r s' := by
  obtain ⟨r', hrun', hr⟩ := h.runs hs ha hrun
  obtain rfl := hr.eq
  exact hrun'

/-- Where they are compared on all events, either does what the other does. -/
theorem runs_iff {c c' : Comp S ε σ α} (h : P.Lockstep c c' Eq) (hs : P.Inv s) (hall : ∀ e, P.A e) :
    c'.Runs s events' r s' ↔ ∃ events, events' = events.map (·.rename P.swap) ∧ c.Runs s events r s' := by
  constructor
  · intro hrun
    obtain ⟨events, ⟨r₁, s₁⟩, rfl, hrun, hr, hstate, -⟩ := (h s hs).runs_back hall hrun
    dsimp only at hr hstate
    obtain rfl := hr.eq
    subst hstate
    exact ⟨events, rfl, hrun⟩
  · rintro ⟨events, rfl, hrun⟩
    exact h.runs_eq hs (fun e _ => hall e) hrun

theorem weaken {V' : α → β → Prop} (h : P.Lockstep c c' V) (himp : ∀ value value', V value value' → V' value value') :
    P.Lockstep c c' V' := by
  intro s hs
  refine (h s hs).weaken ?_
  rintro ⟨r, s₁⟩ ⟨r', s₂⟩ ⟨hr, rest⟩
  refine ⟨?_, rest⟩
  cases hr with
  | ok hv => exact .ok (himp _ _ hv)
  | error => exact .error

theorem pure (h : V value value') : P.Lockstep (Pure.pure value : Comp S ε σ α) (Pure.pure value') V :=
  fun _ hs => .done ⟨.ok h, rfl, hs⟩

theorem throw {e : ε} : P.Lockstep (MonadExcept.throw e : Comp S ε σ α) (MonadExcept.throw e) V :=
  fun _ hs => .done ⟨.error, rfl, hs⟩

theorem bind_related {f : α → Comp S ε σ γ} {f' : β → Comp S ε σ δ} (hc : P.Lockstep c c' V)
    (hf : ∀ value value', V value value' → P.Lockstep (f value) (f' value') W) :
    P.Lockstep (c >>= f) (c' >>= f') W := by
  intro s hs
  refine (hc s hs).bind ?_
  rintro ⟨r, s₁⟩ ⟨r', s₂⟩ ⟨hr, rfl, hs'⟩
  cases hr with
  | ok hv => exact hf _ _ hv _ hs'
  | error => exact .done ⟨.error, rfl, hs'⟩

/-- First parts that end with the same value. -/
theorem bind {c c' : Comp S ε σ α} {f : α → Comp S ε σ γ} {f' : α → Comp S ε σ δ} (hc : P.Lockstep c c' Eq)
    (hf : ∀ value, P.Lockstep (f value) (f' value) W) : P.Lockstep (c >>= f) (c' >>= f') W := by
  refine hc.bind_related ?_
  rintro value _ rfl
  exact hf value

theorem ask {query query' : S.Query kind} (hquery : query' = P.swap kind query) :
    P.Lockstep (Comp.ask kind query : Comp S ε σ _) (Comp.ask kind query') Eq := by
  subst hquery
  exact fun s hs => .ask fun _ _ => .done ⟨.ok rfl, rfl, hs⟩

theorem attempt (hc : P.Lockstep c c' V) :
    P.Lockstep (Comp.attempt c) (Comp.attempt c') (Alike (ε := ε) V) := by
  intro s hs
  refine (hc s hs).bind ?_
  rintro ⟨r, s₁⟩ ⟨r', s₂⟩ ⟨hr, rfl, hs'⟩
  exact .done ⟨.ok hr, rfl, hs'⟩

theorem attempt_bind {c c' : Comp S ε σ α} {k : Except ε α → Comp S ε σ γ} {k' : Except ε α → Comp S ε σ δ}
    (hc : P.Lockstep c c' Eq) (hk : ∀ outcome, P.Lockstep (k outcome) (k' outcome) W) :
    P.Lockstep (Comp.attempt c >>= k) (Comp.attempt c' >>= k') W := by
  refine hc.attempt.bind_related ?_
  rintro _ _ (rfl | _)
  · exact hk _
  · exact hk _

theorem get_bind {f : σ → Comp S ε σ α} {f' : σ → Comp S ε σ β} (hf : ∀ s, P.Inv s → P.Lockstep (f s) (f' s) V) :
    P.Lockstep (get >>= f) (get >>= f') V :=
  fun s hs => hf s hs s hs

theorem modify_bind {g : σ → σ} {f : PUnit → Comp S ε σ α} {f' : PUnit → Comp S ε σ β}
    (h : ∀ s, P.Inv s → P.Inv (g s)) (hf : P.Lockstep (f ⟨⟩) (f' ⟨⟩) V) :
    P.Lockstep (modify g >>= f) (modify g >>= f') V :=
  fun s hs => hf (g s) (h s hs)

theorem within {enter : σ → σ} (h : ∀ s, P.Inv s → P.Inv (enter s)) (hc : P.Lockstep c c' V) :
    P.Lockstep (Comp.within enter c) (Comp.within enter c') V := by
  intro s hs
  refine (hc _ (h s hs)).bind ?_
  rintro ⟨r, s₁⟩ ⟨r', s₂⟩ ⟨hr, -, -⟩
  exact .done ⟨hr, rfl, hs⟩

/-- Tasks run together are in lockstep if each of them is. -/
theorem gather {tasks tasks' : List (Comp S ε σ α)}
    (h : List.Forall₂ (fun task task' => P.Lockstep task task' Eq) tasks tasks') :
    P.Lockstep (Comp.gather n choices tasks) (Comp.gather n choices tasks') Eq := by
  intro s hs
  have houtcomes : List.Forall₂ (Prog.Lockstep P.swap P.A Eq) (tasks.map fun task => Prod.fst <$> task s)
      (tasks'.map fun task => Prod.fst <$> task s) := by
    refine List.forall₂_map_left_iff.2 (List.forall₂_map_right_iff.2 (h.imp fun task task' htask => ?_))
    refine (htask s hs).bind ?_
    rintro ⟨r, s₁⟩ ⟨r', s₂⟩ ⟨hr, -, -⟩
    cases hr with
    | ok hv =>
      subst hv
      exact .done rfl
    | error => exact .done rfl
  refine (Prog.lockstep_gather houtcomes).bind ?_
  rintro outcome _ rfl
  refine .done ⟨?_, rfl, hs⟩
  cases outcome with
  | ok values => exact .ok rfl
  | error e => exact .error

end Lockstep

end Pairing

end Interaction
