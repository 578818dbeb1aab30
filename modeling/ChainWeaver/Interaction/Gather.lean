import ChainWeaver.Interaction.Prog
import Mathlib.Data.List.Basic

/-!
# Programs run concurrently

`gather` runs a list of programs with at most `n` of them under way at a time,
a waiting one starting as soon as an earlier one is finished. A list of choices
says which of those under way moves next; it moves by one question. When the
choices are used up the rest runs in order.
-/

namespace Interaction

namespace Prog

def isDone : Prog S α → Bool
  | .done _ => true
  | .ask .. => false

/-- The program after its next question. -/
def advance : Prog S α → Prog S (Prog S α)
  | .done value => .done (.done value)
  | .ask kind query next => .ask kind query fun reply => .done (next reply)

/-- The programs one after the other, each to its end. -/
def sequence : List (Prog S α) → Prog S (List α)
  | [] => .done []
  | task :: tasks => task.bind fun value => (sequence tasks).bind fun values => .done (value :: values)

/-- The places of the programs that are under way. -/
def underway (n : Nat) (tasks : List (Prog S α)) : List Nat :=
  ((List.range tasks.length).filter fun i => !(tasks[i]?.all isDone)).take n

/-- The values of all programs, and the places in the order they finished. -/
def interleave (n : Nat) : List Nat → List Nat → List (Prog S α) → Prog S (List α × List Nat)
  | [], order, tasks =>
    let rest := (List.range tasks.length).filter fun i => !order.contains i
    (sequence tasks).bind fun values => .done (values, order ++ rest)
  | choice :: choices, order, tasks =>
    let live := underway n tasks
    let place := live.getD (choice % live.length) tasks.length
    match tasks[place]? with
    | none => interleave n choices order tasks
    | some task =>
      task.advance.bind fun task' =>
        interleave n choices (if task'.isDone then order ++ [place] else order) (tasks.set place task')

/-- The error of the first program that failed, or all values. -/
def gathered (outcomes : List (Except ε α)) (order : List Nat) : Except ε (List α) :=
  match order.findSome? fun i => outcomes[i]?.bind fun outcome =>
      match outcome with
      | .error e => some e
      | .ok _ => none with
  | some e => .error e
  | none => .ok (outcomes.filterMap Except.toOption)

def gather (n : Nat) (choices : List Nat) (tasks : List (Prog S (Except ε α))) :
    Prog S (Except ε (List α)) :=
  let order := (List.range tasks.length).filter fun i => tasks[i]?.any isDone
  (interleave n choices order tasks).bind fun result => .done (gathered result.1 result.2)

-- Traces of programs run together

/-- `Merged pieces events`: `events` is made of the events of all `pieces`, those
of each piece in their order. -/
inductive Merged : List (List α) → List α → Prop
  | nil : Merged [] []
  | empty : Merged pieces events → Merged ([] :: pieces) events
  | take (place : Nat) : pieces[place]? = some piece → Merged pieces events →
      Merged (pieces.set place (e :: piece)) (e :: events)

section

variable {pieces : List (List β)} {piece first before after events : List β} {e : β}

theorem Merged.flatten : ∀ pieces : List (List β), Merged pieces pieces.flatten
  | [] => .nil
  | piece :: pieces => by
    induction piece with
    | nil => exact .empty (flatten pieces)
    | cons e piece ih => exact ih.take 0 rfl

/-- The first event of a piece may come first. -/
theorem Merged.prepend (h : Merged pieces events) (hp : pieces[place]? = some piece) :
    Merged (pieces.set place (first ++ piece)) (first ++ events) := by
  induction first with
  | nil =>
    obtain ⟨_, rfl⟩ := List.getElem?_eq_some_iff.1 hp
    simpa using h
  | cons e first ih =>
    have hplace : (pieces.set place (first ++ piece))[place]? = some (first ++ piece) :=
      List.getElem?_set_self (List.getElem?_eq_some_iff.1 hp).1
    simpa using ih.take (e := e) place hplace

theorem Merged.cons (h : Merged pieces events) : Merged (first :: pieces) (first ++ events) := by
  have hset : Merged (([] :: pieces).set 0 (first ++ [])) (first ++ events) := h.empty.prepend rfl
  simpa using hset

/-- Each event belongs to a piece, and what precedes it there precedes it. -/
theorem Merged.split (h : Merged pieces (before ++ e :: after)) :
    ∃ piece ∈ pieces, ∃ own rest : List β, piece = own ++ e :: rest ∧ own.Sublist before := by
  generalize hes : before ++ e :: after = events at h
  induction h generalizing before with
  | nil => simp at hes
  | empty _ ih =>
    obtain ⟨piece, hmem, h⟩ := ih hes
    exact ⟨piece, List.mem_cons_of_mem _ hmem, h⟩
  | @take pieces piece events _ place hp _ ih =>
    have hlen := (List.getElem?_eq_some_iff.1 hp).1
    cases before with
    | nil =>
      obtain ⟨rfl, rfl⟩ := List.cons.inj hes
      exact ⟨e :: piece, List.mem_iff_getElem?.2 ⟨place, List.getElem?_set_self hlen⟩, [], piece, rfl, List.Sublist.refl _⟩
    | cons b before =>
      obtain ⟨rfl, htail⟩ := List.cons.inj hes
      obtain ⟨found, hmem, own, rest, rfl, hsub⟩ := ih htail
      obtain ⟨i, hi⟩ := List.getElem?_of_mem hmem
      by_cases hip : place = i
      · subst hip
        obtain rfl := Option.some.inj (hp.symm.trans hi)
        exact ⟨_, List.mem_iff_getElem?.2 ⟨place, List.getElem?_set_self hlen⟩, b :: own, rest, rfl, hsub.cons_cons b⟩
      · refine ⟨_, ?_, own, rest, rfl, hsub.cons b⟩
        exact List.mem_of_getElem? ((List.getElem?_set_ne hip).trans hi)

theorem Merged.mem (h : Merged pieces events) (he : e ∈ events) : ∃ piece ∈ pieces, e ∈ piece := by
  obtain ⟨before, after, rfl⟩ := List.append_of_mem he
  obtain ⟨piece, hmem, own, rest, rfl, _⟩ := h.split
  exact ⟨_, hmem, by simp⟩

theorem Merged.perm (h : Merged pieces events) : events.Perm pieces.flatten := by
  induction h with
  | nil => exact .nil
  | empty _ ih => exact ih
  | @take pieces piece events e place hp _ ih =>
    obtain ⟨hlen, rfl⟩ := List.getElem?_eq_some_iff.1 hp
    have hsplit : pieces = pieces.take place ++ pieces[place] :: pieces.drop (place + 1) := by simp
    rw [List.set_eq_take_append_cons_drop, if_pos hlen]
    refine (ih.cons e).trans ?_
    conv_lhs => rw [hsplit]
    simp only [List.flatten_append, List.flatten_cons, List.cons_append]
    exact List.perm_middle.symm

/-- Each piece is met in full. -/
theorem Merged.sublist (h : Merged pieces events) (hp : piece ∈ pieces) : piece.Sublist events := by
  induction h generalizing piece with
  | nil => simp at hp
  | empty _ ih =>
    rcases List.mem_cons.1 hp with rfl | hp
    · exact List.nil_sublist _
    · exact ih hp
  | take place hplace _ ih =>
    rcases List.mem_or_eq_of_mem_set hp with hp | rfl
    · exact (ih hp).cons _
    · exact (ih (List.mem_of_getElem? hplace)).cons_cons _

end

/-- `RunsAll tasks pieces values`: each task has a path with its piece and its
value. -/
inductive RunsAll : List (Prog S α) → List (List (Event S)) → List α → Prop
  | nil : RunsAll [] [] []
  | cons : Runs task piece value → RunsAll tasks pieces values →
      RunsAll (task :: tasks) (piece :: pieces) (value :: values)

theorem RunsAll.length (h : RunsAll tasks pieces values) : values.length = tasks.length := by
  induction h with
  | nil => rfl
  | cons _ _ ih => simp [ih]

theorem runs_advance {task : Prog S α} (h : Runs task.advance first task')
    (h' : Runs task' second value) : Runs task (first ++ second) value := by
  cases task with
  | done value =>
    obtain ⟨rfl, rfl⟩ := runs_done.1 h
    exact h'
  | ask kind query next =>
    obtain ⟨reply, rest, rfl, hdone⟩ := runs_ask.1 h
    obtain ⟨rfl, rfl⟩ := runs_done.1 hdone
    exact .ask h'

theorem RunsAll.advance (h : RunsAll (tasks.set place task') pieces values)
    (ht : tasks[place]? = some task) (hrun : Runs task.advance first task') :
    ∃ piece, pieces[place]? = some piece ∧
      RunsAll tasks (pieces.set place (first ++ piece)) values := by
  induction tasks generalizing place pieces values with
  | nil => simp at ht
  | cons head tasks ih =>
    cases place with
    | zero =>
      obtain rfl := Option.some.inj ht
      obtain _ | ⟨hhead, htail⟩ := h
      exact ⟨_, rfl, .cons (runs_advance hrun hhead) htail⟩
    | succ place =>
      obtain _ | ⟨hhead, htail⟩ := h
      obtain ⟨piece, hp, hall⟩ := ih htail ht
      exact ⟨piece, hp, .cons hhead hall⟩

theorem runs_sequence {tasks : List (Prog S α)} (h : Runs (sequence tasks) events values) :
    ∃ pieces, RunsAll tasks pieces values ∧ Merged pieces events := by
  suffices ∃ pieces, RunsAll tasks pieces values ∧ events = pieces.flatten by
    obtain ⟨pieces, hall, rfl⟩ := this
    exact ⟨pieces, hall, .flatten _⟩
  induction tasks generalizing events values with
  | nil =>
    obtain ⟨rfl, rfl⟩ := runs_done.1 h
    exact ⟨[], .nil, rfl⟩
  | cons task tasks ih =>
    obtain ⟨first, value, rest, rfl, hfirst, h⟩ := runs_bind.1 h
    obtain ⟨second, values, last, rfl, hsecond, h⟩ := runs_bind.1 h
    obtain ⟨rfl, rfl⟩ := runs_done.1 h
    obtain ⟨pieces, hall, rfl⟩ := ih hsecond
    exact ⟨first :: pieces, .cons hfirst hall, by simp⟩

/-- The run of an interleaving: every task runs to its end, and every place is in
the order of the ends. -/
theorem runs_interleave {tasks : List (Prog S α)}
    (h : Runs (interleave n choices order tasks) events result) :
    ∃ pieces, RunsAll tasks pieces result.1 ∧ Merged pieces events ∧
      ∀ place < tasks.length, place ∈ result.2 := by
  induction choices generalizing order tasks events with
  | nil =>
    obtain ⟨first, values, rest, rfl, hfirst, h⟩ := runs_bind.1 h
    obtain ⟨rfl, rfl⟩ := runs_done.1 h
    obtain ⟨pieces, hall, hmerged⟩ := runs_sequence hfirst
    refine ⟨pieces, hall, by simpa using hmerged, fun place hplace => ?_⟩
    by_cases ho : place ∈ order <;> simp [ho, hplace]
  | cons choice choices ih =>
    simp only [interleave] at h
    split at h
    · exact ih h
    · next task htask =>
      obtain ⟨first, task', rest, rfl, hfirst, h⟩ := runs_bind.1 h
      obtain ⟨pieces, hall, hmerged, horder⟩ := ih h
      obtain ⟨piece, hp, hall⟩ := hall.advance htask hfirst
      exact ⟨_, hall, hmerged.prepend hp, fun place hplace => horder place (by simpa using hplace)⟩

theorem gathered_ok {outcomes : List (Except ε α)} (horder : ∀ place < outcomes.length, place ∈ order)
    (h : gathered outcomes order = .ok values) : outcomes = values.map .ok := by
  unfold gathered at h
  split at h
  · cases h
  next hnone =>
  obtain rfl := Except.ok.inj h
  have hall : ∀ outcome ∈ outcomes, ∃ value, outcome = .ok value := by
    intro outcome hmem
    obtain ⟨place, hplace⟩ := List.getElem?_of_mem hmem
    have hlt := (List.getElem?_eq_some_iff.1 hplace).1
    have := List.findSome?_eq_none_iff.1 hnone place (horder place hlt)
    cases outcome with
    | ok value => exact ⟨value, rfl⟩
    | error e => simp [hplace] at this
  clear hnone horder h
  induction outcomes with
  | nil => rfl
  | cons outcome outcomes ih =>
    obtain ⟨value, rfl⟩ := hall outcome (by simp)
    simpa [Except.toOption] using ih fun outcome hmem => hall outcome (by simp [hmem])

theorem gathered_error {outcomes : List (Except ε α)} (h : gathered outcomes order = .error e) :
    .error e ∈ outcomes := by
  unfold gathered at h
  split at h
  · next hsome =>
    obtain rfl := Except.error.inj h
    obtain ⟨place, _, hplace⟩ := List.exists_of_findSome?_eq_some hsome
    cases hget : outcomes[place]? with
    | none => simp [hget] at hplace
    | some outcome =>
      cases outcome with
      | ok value => simp [hget] at hplace
      | error e' =>
        obtain rfl : e' = _ := by simpa [hget] using hplace
        exact List.mem_of_getElem? hget
  · cases h

/-- The outcome of all: an error of one of them, or the values of all. -/
def Gathered (outcomes : List (Except ε α)) : Except ε (List α) → Prop
  | .ok values => outcomes = values.map .ok
  | .error e => .error e ∈ outcomes

/-- Every task of a `gather` runs to its end. -/
theorem runs_gather {tasks : List (Prog S (Except ε α))}
    (h : Runs (gather n choices tasks) events outcome) :
    ∃ pieces outcomes, RunsAll tasks pieces outcomes ∧ Merged pieces events ∧
      Gathered outcomes outcome := by
  obtain ⟨first, result, rest, rfl, hfirst, h⟩ := runs_bind.1 h
  obtain ⟨rfl, rfl⟩ := runs_done.1 h
  obtain ⟨pieces, hall, hmerged, horder⟩ := runs_interleave hfirst
  refine ⟨pieces, _, hall, by simpa using hmerged, ?_⟩
  cases hg : gathered result.1 result.2 with
  | ok values => exact gathered_ok (by simpa [hall.length] using horder) hg
  | error e => exact gathered_error hg

end Prog

-- Tasks with a state

namespace Comp

variable {S : Signature} {ε σ : Type}

/-- Tasks that start from the state of their caller and leave it as it is. -/
def gather (n : Nat) (choices : List Nat) (tasks : List (Comp S ε σ α)) : Comp S ε σ (List α) :=
  fun s => (Prog.gather n choices (tasks.map fun task => Prod.fst <$> task s)).bind fun outcome =>
    .done (outcome, s)

theorem runs_fst {task : Comp S ε σ α} (h : Prog.Runs (Prod.fst <$> task s) events outcome) :
    ∃ s', task.Runs s events outcome s' := by
  obtain ⟨first, ran, second, rfl, hfirst, hsecond⟩ := Prog.runs_bind.1 h
  obtain ⟨rfl, rfl⟩ := Prog.runs_done.1 hsecond
  exact ⟨ran.2, by simpa [Comp.Runs] using hfirst⟩

theorem runs_gather {tasks : List (Comp S ε σ α)} (h : (gather n choices tasks).Runs s events r s') :
    s' = s ∧ ∃ pieces outcomes, Prog.RunsAll (tasks.map fun task => Prod.fst <$> task s) pieces outcomes ∧
      Prog.Merged pieces events ∧ Prog.Gathered outcomes r := by
  obtain ⟨first, outcome, rest, rfl, hfirst, h⟩ := Prog.runs_bind.1 h
  obtain ⟨rfl, heq⟩ := Prog.runs_done.1 h
  obtain ⟨rfl, rfl⟩ := Prod.mk.inj heq
  exact ⟨rfl, by simpa using Prog.runs_gather hfirst⟩

end Comp

end Interaction
