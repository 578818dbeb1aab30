import Mathlib.Data.List.Forall2

/-!
# Machines that answer operations

A component is given operations one at a time and answers each. Two components
that stay related answer alike.
-/

structure Machine (Op Answer : Type) where
  State : Type
  start : State
  step : State → Op → Answer × State

namespace Machine

variable {Op Answer : Type}

/-- The answers to `ops` from `state` on. -/
def answersFrom (m : Machine Op Answer) (state : m.State) : List Op → List Answer
  | [] => []
  | op :: rest => (m.step state op).1 :: m.answersFrom (m.step state op).2 rest

def stateFrom (m : Machine Op Answer) (state : m.State) : List Op → m.State
  | [] => state
  | op :: rest => m.stateFrom (m.step state op).2 rest

def answers (m : Machine Op Answer) (ops : List Op) : List Answer := m.answersFrom m.start ops

def after (m : Machine Op Answer) (ops : List Op) : m.State := m.stateFrom m.start ops

theorem stateFrom_append {m : Machine Op Answer} (first rest : List Op) (state : m.State) :
    m.stateFrom state (first ++ rest) = m.stateFrom (m.stateFrom state first) rest := by
  induction first generalizing state with
  | nil => rfl
  | cons op first ih => exact ih _

theorem after_concat {m : Machine Op Answer} (ops : List Op) (op : Op) :
    m.after (ops ++ [op]) = (m.step (m.after ops) op).2 :=
  stateFrom_append ops [op] m.start

theorem answersFrom_getElem? {m : Machine Op Answer} (first rest : List Op) (op : Op) (state : m.State) :
    (m.answersFrom state (first ++ op :: rest))[first.length]? = some (m.step (m.stateFrom state first) op).1 := by
  induction first generalizing state with
  | nil => rfl
  | cons head first ih => exact ih _

/-- The answer to an operation in the middle. -/
theorem answers_getElem? {m : Machine Op Answer} (first rest : List Op) (op : Op) :
    (m.answers (first ++ op :: rest))[first.length]? = some (m.step (m.after first) op).1 :=
  answersFrom_getElem? first rest op m.start

/-- Every operation is admitted in the state it meets. -/
def Admitted (m : Machine Op Answer) (Ok : m.State → Op → Prop) (state : m.State) : List Op → Prop
  | [] => True
  | op :: rest => Ok state op ∧ m.Admitted Ok (m.step state op).2 rest

theorem admitted_of_forall {m : Machine Op Answer} {Ok : Op → Prop} (state : m.State) (h : ∀ op ∈ ops, Ok op) :
    m.Admitted (fun _ => Ok) state ops := by
  induction ops generalizing state with
  | nil => exact trivial
  | cons op rest ih =>
    rw [List.forall_mem_cons] at h
    exact ⟨h.1, ih _ h.2⟩

section
variable {m : Machine Op Answer} {Inv : m.State → Prop}

/-- What every admitted operation keeps holds all along. -/
theorem stateFrom_admitted_keeps {Ok : m.State → Op → Prop}
    (hstep : ∀ state op, Inv state → Ok state op → Inv (m.step state op).2)
    (hinv : Inv state) (hok : m.Admitted Ok state ops) : Inv (m.stateFrom state ops) := by
  induction ops generalizing state with
  | nil => exact hinv
  | cons op rest ih => exact ih (hstep state op hinv hok.1) hok.2

theorem stateFrom_keeps {Ok : Op → Prop} (hstep : ∀ state op, Inv state → Ok op → Inv (m.step state op).2)
    (hinv : Inv state) (hok : ∀ op ∈ ops, Ok op) : Inv (m.stateFrom state ops) :=
  stateFrom_admitted_keeps hstep hinv (admitted_of_forall state hok)

theorem after_keeps {Ok : Op → Prop} (hstart : Inv m.start)
    (hstep : ∀ state op, Inv state → Ok op → Inv (m.step state op).2)
    (hok : ∀ op ∈ ops, Ok op) : Inv (m.after ops) :=
  stateFrom_keeps hstep hstart hok

end

section
variable {A B : Type} {m : Machine Op A} {n : Machine Op B}
variable {R : m.State → n.State → Prop} {Ok : n.State → Op → Prop} {Same : A → B → Prop}

/-- An operation that the second machine admits keeps related states related. -/
def Tracks (R : m.State → n.State → Prop) (Ok : n.State → Op → Prop) : Prop :=
  ∀ s t op, R s t → Ok t op → R (m.step s op).2 (n.step t op).2

/-- Related states answer an admitted operation alike and stay related. -/
structure Agree (R : m.State → n.State → Prop) (Ok : n.State → Op → Prop) (Same : A → B → Prop) : Prop where
  answer : ∀ s t op, R s t → Ok t op → Same (m.step s op).1 (n.step t op).1
  tracks : Tracks R Ok

theorem stateFrom_tracks (h : Tracks R Ok) (hR : R s t) (hok : n.Admitted Ok t ops) :
    R (m.stateFrom s ops) (n.stateFrom t ops) := by
  induction ops generalizing s t with
  | nil => exact hR
  | cons op rest ih => exact ih (h s t op hR hok.1) hok.2

theorem answersFrom_agree (h : Agree R Ok Same) (hR : R s t) (hok : n.Admitted Ok t ops) :
    List.Forall₂ Same (m.answersFrom s ops) (n.answersFrom t ops) := by
  induction ops generalizing s t with
  | nil => exact .nil
  | cons op rest ih => exact .cons (h.answer s t op hR hok.1) (ih (h.tracks s t op hR hok.1) hok.2)

/-- Where the answers of related states agree exactly if the second machine admits
the operation, runs agree exactly if every operation is admitted. -/
theorem answersFrom_agree_iff {Valid : Op → Prop}
    (hanswer : ∀ s t op, R s t → Valid op → (Same (m.step s op).1 (n.step t op).1 ↔ Ok t op))
    (htracks : ∀ s t op, R s t → Valid op → Ok t op → R (m.step s op).2 (n.step t op).2)
    (hR : R s t) (hvalid : ∀ op ∈ ops, Valid op) :
    List.Forall₂ Same (m.answersFrom s ops) (n.answersFrom t ops) ↔ n.Admitted Ok t ops := by
  induction ops generalizing s t with
  | nil => exact iff_of_true .nil trivial
  | cons op rest ih =>
    rw [List.forall_mem_cons] at hvalid
    rw [answersFrom, answersFrom, List.forall₂_cons, hanswer s t op hR hvalid.1]
    exact and_congr_right fun hok => ih (htracks s t op hR hvalid.1 hok) hvalid.2

theorem after_tracks (h : Tracks R Ok) (hstart : R m.start n.start) (hok : n.Admitted Ok n.start ops) :
    R (m.after ops) (n.after ops) :=
  stateFrom_tracks h hstart hok

theorem answers_agree (h : Agree R Ok Same) (hstart : R m.start n.start) (hok : n.Admitted Ok n.start ops) :
    List.Forall₂ Same (m.answers ops) (n.answers ops) :=
  answersFrom_agree h hstart hok

end

end Machine
