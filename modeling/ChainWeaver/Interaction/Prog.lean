import Mathlib.Data.List.Basic

/-!
# Interaction programs

A program that talks to its surroundings is a tree: at each node it asks one
question and goes on with the answer. Everything that can happen while it runs
is a path through the tree, so a statement about every path is a statement about
every behaviour of the surroundings, whatever state they keep.
-/

namespace Interaction

/-- The questions a program may ask, sorted by kind. The type of the answer
depends on the kind alone, so that two questions of one kind can be compared. -/
structure Signature where
  Kind : Type
  Query : Kind → Type
  Reply : Kind → Type

/-- One question together with the answer it got. -/
structure Event (S : Signature) where
  kind : S.Kind
  query : S.Query kind
  reply : S.Reply kind

inductive Prog (S : Signature) (α : Type) : Type
  | done (value : α)
  | ask (kind : S.Kind) (query : S.Query kind) (next : S.Reply kind → Prog S α)

namespace Prog

def bind : Prog S α → (α → Prog S β) → Prog S β
  | .done value, f => f value
  | .ask kind query next, f => .ask kind query fun reply => (next reply).bind f

instance : Monad (Prog S) where
  pure := .done
  bind := bind

def perform (kind : S.Kind) (query : S.Query kind) : Prog S (S.Reply kind) :=
  .ask kind query .done

/-- `p.Runs events value`: along some path the program meets exactly `events`
and ends with `value`. -/
inductive Runs : Prog S α → List (Event S) → α → Prop
  | done (value : α) : Runs (.done value) [] value
  | ask {kind query reply next events value} :
      Runs (next reply) events value →
      Runs (.ask kind query next) (⟨kind, query, reply⟩ :: events) value

@[simp]
theorem runs_done : Runs (.done value : Prog S α) events result ↔ events = [] ∧ result = value := by
  constructor
  · rintro ⟨⟩
    exact ⟨rfl, rfl⟩
  · rintro ⟨rfl, rfl⟩
    exact .done _

theorem runs_ask {next : S.Reply kind → Prog S α} :
    Runs (.ask kind query next) events result ↔
      ∃ reply rest, events = ⟨kind, query, reply⟩ :: rest ∧ Runs (next reply) rest result := by
  constructor
  · rintro ⟨⟩
    exact ⟨_, _, rfl, ‹_›⟩
  · rintro ⟨reply, rest, rfl, h⟩
    exact .ask h

theorem runs_bind {p : Prog S α} {f : α → Prog S β} :
    Runs (p.bind f) events result ↔
      ∃ first value second, events = first ++ second ∧ Runs p first value ∧
        Runs (f value) second result := by
  induction p generalizing events with
  | done value => simp [bind]
  | ask kind query next ih =>
    simp only [bind, runs_ask, ih]
    constructor
    · rintro ⟨reply, _, rfl, first, value, second, rfl, hfirst, hsecond⟩
      exact ⟨_, value, second, rfl, ⟨reply, first, rfl, hfirst⟩, hsecond⟩
    · rintro ⟨_, value, second, rfl, ⟨reply, first, rfl, hfirst⟩, hsecond⟩
      exact ⟨reply, _, rfl, first, value, second, rfl, hfirst, hsecond⟩

/-- A path is known by its events: no other path goes on from where it ends. -/
theorem Runs.unique (h : Runs p first value) (h' : Runs p second value') (heq : first ++ rest = second ++ rest') :
    first = second ∧ value = value' := by
  induction h generalizing second with
  | done value =>
    obtain ⟨rfl, rfl⟩ := runs_done.1 h'
    exact ⟨rfl, rfl⟩
  | ask h ih =>
    obtain ⟨reply, events, rfl, hnext⟩ := runs_ask.1 h'
    obtain ⟨hevent, hrest⟩ := List.cons.inj heq
    cases hevent
    obtain ⟨rfl, rfl⟩ := ih hnext hrest
    exact ⟨rfl, rfl⟩

/-- A run against surroundings that keep a state and answer by a function of it. -/
def exec (oracle : ω → (kind : S.Kind) → S.Query kind → S.Reply kind × ω) :
    ω → Prog S α → List (Event S) × α × ω
  | w, .done value => ([], value, w)
  | w, .ask kind query next =>
    let answer := oracle w kind query
    let rest := exec oracle answer.2 (next answer.1)
    (⟨kind, query, answer.1⟩ :: rest.1, rest.2)

theorem exec_runs (oracle : ω → (kind : S.Kind) → S.Query kind → S.Reply kind × ω) (w : ω)
    (p : Prog S α) : Runs p (exec oracle w p).1 (exec oracle w p).2.1 := by
  induction p generalizing w with
  | done value => exact .done value
  | ask kind query next ih => exact .ask (ih _ _)

/-- The surroundings give these answers one after the other. -/
def Answered (oracle : ω → (kind : S.Kind) → S.Query kind → S.Reply kind × ω) : ω → List (Event S) → Prop
  | _, [] => True
  | w, e :: events =>
    e.reply = (oracle w e.kind e.query).1 ∧ Answered oracle (oracle w e.kind e.query).2 events

theorem exec_answers (oracle : ω → (kind : S.Kind) → S.Query kind → S.Reply kind × ω) (w : ω) (p : Prog S α) :
    Answered oracle w (exec oracle w p).1 := by
  induction p generalizing w with
  | done value => trivial
  | ask kind query next ih => exact ⟨rfl, ih _ _⟩

/-- Given their answers the surroundings leave a program no choice. -/
theorem Answered.exec {S : Signature} {oracle : ω → (kind : S.Kind) → S.Query kind → S.Reply kind × ω} {w : ω}
    {p : Prog S α} {events : List (Event S)} (h : Answered oracle w events) (hrun : Runs p events value) : (exec oracle w p).2.1 = value := by
  induction hrun generalizing w with
  | done value => rfl
  | @ask kind query reply next _ _ hrun ih =>
    obtain ⟨hreply, hrest⟩ := h
    dsimp only at hreply
    subst hreply
    exact ih hrest

/-- Every reply in the trace is an answer of the surroundings. -/
theorem exec_answered (oracle : ω → (kind : S.Kind) → S.Query kind → S.Reply kind × ω) (w : ω)
    (p : Prog S α) (h : e ∈ (exec oracle w p).1) : ∃ w, e.reply = (oracle w e.kind e.query).1 := by
  induction p generalizing w with
  | done value => cases h
  | ask kind query next ih =>
    rcases List.mem_cons.1 h with rfl | h
    · exact ⟨w, rfl⟩
    · exact ih _ _ h

end Prog

/-- Programs that may also fail and that carry a state. The state survives a
failure: a handler sees what the failing part left. -/
abbrev Comp (S : Signature) (ε σ : Type) := ExceptT ε (StateT σ (Prog S))

namespace Comp

variable {S : Signature} {ε σ : Type}

def ask (kind : S.Kind) (query : S.Query kind) : Comp S ε σ (S.Reply kind) :=
  fun s => (Prog.perform kind query).bind fun reply => .done (.ok reply, s)

/-- The outcome of a computation as a value, its error caught. -/
def attempt (c : Comp S ε σ α) : Comp S ε σ (Except ε α) :=
  fun s => (c s).bind fun ran => .done (.ok ran.1, ran.2)

/-- A computation on a state of its own, derived from the caller's. The caller's
state comes back however the computation ends. -/
def within (enter : σ → σ) (c : Comp S ε σ α) : Comp S ε σ α :=
  fun s => (c (enter s)).bind fun ran => .done (ran.1, s)

/-- All paths of a computation from one start state. -/
def Runs (c : Comp S ε σ α) (s : σ) (events : List (Event S)) (r : Except ε α) (s' : σ) : Prop :=
  Prog.Runs (c s) events (r, s')

@[simp]
theorem runs_pure {value : α} :
    Runs (pure value : Comp S ε σ α) s events r s' ↔ events = [] ∧ r = .ok value ∧ s' = s := by
  change Prog.Runs (.done (.ok value, s)) events (r, s') ↔ _
  simp

@[simp]
theorem runs_throw {e : ε} :
    Runs (throw e : Comp S ε σ α) s events r s' ↔ events = [] ∧ r = .error e ∧ s' = s := by
  change Prog.Runs (.done (.error e, s)) events (r, s') ↔ _
  simp

theorem runs_bind {c : Comp S ε σ α} {f : α → Comp S ε σ β} :
    Runs (c >>= f) s events r s' ↔
      (∃ first value middle second, events = first ++ second ∧
        Runs c s first (.ok value) middle ∧ Runs (f value) middle second r s') ∨
      ∃ e, r = .error e ∧ Runs c s events (.error e) s' := by
  simp only [Runs, Bind.bind, ExceptT.bind, ExceptT.mk, StateT.bind, Prog.runs_bind,
    ExceptT.bindCont]
  constructor
  · rintro ⟨first, ⟨r₁, middle⟩, second, rfl, hfirst, hsecond⟩
    cases r₁ with
    | ok value => exact .inl ⟨first, value, middle, second, rfl, hfirst, hsecond⟩
    | error e =>
      have hdone : Prog.Runs (.done (.error e, middle)) second (r, s') := hsecond
      obtain ⟨rfl, heq⟩ := Prog.runs_done.1 hdone
      obtain ⟨rfl, rfl⟩ := Prod.mk.inj heq
      exact .inr ⟨e, rfl, by simpa using hfirst⟩
  · rintro (⟨first, value, middle, second, rfl, hfirst, hsecond⟩ | ⟨e, rfl, h⟩)
    · exact ⟨first, (.ok value, middle), second, rfl, hfirst, hsecond⟩
    · exact ⟨events, (.error e, s'), [], by simp, h, Prog.runs_done.2 ⟨rfl, rfl⟩⟩

/-- A sequence that returns has returned in both its parts. -/
theorem runs_bind_ok {c : Comp S ε σ α} {f : α → Comp S ε σ β} :
    Runs (c >>= f) s events (.ok result) s' ↔
      ∃ first value middle second, events = first ++ second ∧
        Runs c s first (.ok value) middle ∧ Runs (f value) middle second (.ok result) s' := by
  rw [runs_bind]
  constructor
  · rintro (h | ⟨e, herror, _⟩)
    · exact h
    · cases herror
  · exact .inl

theorem runs_ask :
    Runs (ask kind query : Comp S ε σ _) s events r s' ↔
      ∃ reply, events = [⟨kind, query, reply⟩] ∧ r = .ok reply ∧ s' = s := by
  simp [Runs, ask, Prog.perform, Prog.bind, Prog.runs_ask]

theorem runs_get_bind {f : σ → Comp S ε σ β} :
    Runs (get >>= f) s events r s' ↔ Runs (f s) s events r s' := Iff.rfl

theorem runs_modify {g : σ → σ} :
    Runs (modify g : Comp S ε σ PUnit) s events r s' ↔ events = [] ∧ r = .ok ⟨⟩ ∧ s' = g s := by
  change Prog.Runs (.done (.ok ⟨⟩, g s)) events (r, s') ↔ _
  simp

@[simp]
theorem runs_attempt {c : Comp S ε σ α} :
    Runs (attempt c) s events r s' ↔ ∃ outcome, r = .ok outcome ∧ Runs c s events outcome s' := by
  simp only [Runs, attempt, Prog.runs_bind, Prog.runs_done]
  constructor
  · rintro ⟨first, ⟨outcome, _⟩, _, rfl, h, rfl, heq⟩
    obtain ⟨rfl, rfl⟩ := Prod.mk.inj heq
    exact ⟨outcome, rfl, by simpa using h⟩
  · rintro ⟨outcome, rfl, h⟩
    exact ⟨events, (outcome, s'), [], by simp, h, rfl, rfl⟩

theorem runs_within {c : Comp S ε σ α} :
    Runs (within enter c) s events r s' ↔ s' = s ∧ ∃ inner, Runs c (enter s) events r inner := by
  simp only [Runs, within, Prog.runs_bind, Prog.runs_done]
  constructor
  · rintro ⟨first, ⟨outcome, inner⟩, _, rfl, h, rfl, heq⟩
    obtain ⟨rfl, rfl⟩ := Prod.mk.inj heq
    exact ⟨rfl, inner, by simpa using h⟩
  · rintro ⟨rfl, inner, h⟩
    exact ⟨events, (r, inner), [], by simp, h, rfl, rfl⟩

end Comp

end Interaction
