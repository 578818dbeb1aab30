import Mathlib.Data.List.Forall2

/-!
# Steps that may fail

What a sequence of two attempts comes to.
-/

namespace Attempt

variable {ε α β : Type} {x : Except ε α} {f : α → Except ε β}

theorem bind_eq_ok {value : β} : x >>= f = .ok value ↔ ∃ a, x = .ok a ∧ f a = .ok value := by
  cases x with
  | error e => exact iff_of_false nofun (by simp)
  | ok a => exact ⟨fun h => ⟨a, rfl, h⟩, fun ⟨_, ha, h⟩ => Except.ok.inj ha ▸ h⟩

/-- All of a list is attempted in turn. -/
theorem mapM_eq_ok {items : List α} {values : List β} :
    items.mapM f = .ok values ↔ List.Forall₂ (fun item value => f item = .ok value) items values := by
  induction items generalizing values with
  | nil =>
    rw [List.mapM_nil, List.forall₂_nil_left_iff]
    exact ⟨fun h => (Except.ok.inj h).symm, fun h => congrArg Except.ok h.symm⟩
  | cons item rest ih =>
    rw [List.mapM_cons, bind_eq_ok]
    simp only [bind_eq_ok, ih, List.forall₂_cons_left_iff]
    constructor
    · rintro ⟨value, hvalue, values', hvalues, h⟩
      exact ⟨value, values', hvalue, hvalues, (Except.ok.inj h).symm⟩
    · rintro ⟨value, values', hvalue, hvalues, rfl⟩
      exact ⟨value, hvalue, values', hvalues, rfl⟩

theorem exists_bind_ok : (∃ b, x >>= f = .ok b) ↔ ∃ a, x = .ok a ∧ ∃ b, f a = .ok b := by
  refine (exists_congr fun _ => bind_eq_ok).trans ?_
  exact ⟨fun ⟨b, a, ha, hb⟩ => ⟨a, ha, b, hb⟩, fun ⟨a, ha, b, hb⟩ => ⟨b, a, ha, hb⟩⟩

theorem exists_map_ok {g : α → β} : (∃ value, x.map g = .ok value) ↔ ∃ value, x = .ok value := by
  cases x with
  | ok value => exact iff_of_true ⟨_, rfl⟩ ⟨_, rfl⟩
  | error e => exact iff_of_false (fun ⟨_, h⟩ => by cases h) fun ⟨_, h⟩ => by cases h

theorem exists_of_mapM {items : List α} {values : List β} (h : items.mapM f = .ok values) (hmem : item ∈ items) :
    ∃ value, f item = .ok value := by
  induction mapM_eq_ok.1 h with
  | nil => cases hmem
  | @cons first value rest values hfirst hrest ih =>
    rcases List.mem_cons.1 hmem with rfl | hmem
    · exact ⟨value, hfirst⟩
    · exact ih (mapM_eq_ok.2 hrest) hmem

theorem mem_mapM {items : List α} {values : List β} (h : items.mapM f = .ok values) {value : β} :
    value ∈ values ↔ ∃ item ∈ items, f item = .ok value := by
  induction mapM_eq_ok.1 h with
  | nil => simp
  | @cons item first rest values hfirst hrest ih =>
    rw [List.mem_cons, ih (mapM_eq_ok.2 hrest), List.exists_mem_cons_iff]
    refine or_congr_left ?_
    rw [hfirst]
    exact ⟨fun heq => congrArg Except.ok heq.symm, fun heq => (Except.ok.inj heq).symm⟩

theorem exists_mapM_ok {items : List α} :
    (∃ values, items.mapM f = .ok values) ↔ ∀ item ∈ items, ∃ value, f item = .ok value := by
  refine ⟨fun ⟨_, hvalues⟩ _ hmem => exists_of_mapM hvalues hmem, fun h => ?_⟩
  induction items with
  | nil => exact ⟨[], rfl⟩
  | cons item rest ih =>
    obtain ⟨⟨value, hvalue⟩, hrest⟩ := List.forall_mem_cons.1 h
    obtain ⟨values, hvalues⟩ := ih hrest
    refine ⟨value :: values, ?_⟩
    rw [List.mapM_cons]
    exact bind_eq_ok.2 ⟨value, hvalue, bind_eq_ok.2 ⟨values, hvalues, rfl⟩⟩

theorem forM_eq_ok {f : α → Except ε Unit} {items : List α} :
    items.forM f = .ok () ↔ ∀ item ∈ items, f item = .ok () := by
  induction items with
  | nil => exact iff_of_true rfl (by simp)
  | cons item rest ih =>
    change f item >>= (fun _ => rest.forM f) = _ ↔ _
    rw [bind_eq_ok, List.forall_mem_cons, ← ih]
    exact ⟨fun ⟨_, h⟩ => h, fun h => ⟨_, h⟩⟩

/-- The error of the first item that fails. -/
theorem forM_eq_error {f : α → Except ε Unit} {items : List α} (h : items.forM f = .error e) :
    ∃ item ∈ items, f item = .error e := by
  induction items with
  | nil => cases h
  | cons item rest ih =>
    change f item >>= (fun _ => rest.forM f) = _ at h
    cases hitem : f item with
    | error e' =>
      rw [hitem] at h
      obtain rfl := Except.error.inj h
      exact ⟨item, List.mem_cons_self, hitem⟩
    | ok value =>
      rw [hitem] at h
      obtain ⟨other, hmem, hother⟩ := ih h
      exact ⟨other, List.mem_cons_of_mem _ hmem, hother⟩

@[simp] theorem mapError_eq_ok {ε' : Type} {g : ε → ε'} {a : α} : x.mapError g = .ok a ↔ x = .ok a := by
  cases x <;> simp [Except.mapError]

/-- Two attempts come to the same if one comes to a value whenever the other does. -/
theorem toOption_eq_iff {y : Except ε α} : x.toOption = y.toOption ↔ ∀ a, x = .ok a ↔ y = .ok a := by
  cases x <;> cases y <;> simp [Except.toOption]

/-- What the attempt may raise is among the errors `E`. -/
def ErrorsIn (E : ε → Prop) (x : Except ε α) : Prop := ∀ e, x = .error e → E e

section

variable {E : ε → Prop}

@[simp] theorem errorsIn_ok {value : α} : ErrorsIn E (.ok value : Except ε α) := nofun

@[simp] theorem errorsIn_error {e : ε} : ErrorsIn E (.error e : Except ε α) ↔ E e :=
  ⟨fun h => h e rfl, fun h _ he => Except.error.inj he ▸ h⟩

/-- What follows an attempt counts where the attempt comes to a value. -/
theorem errorsIn_bind : ErrorsIn E (x >>= f) ↔ ErrorsIn E x ∧ ∀ a, x = .ok a → ErrorsIn E (f a) := by
  cases x with
  | error e =>
    have hbind : (Except.error e >>= f) = .error e := rfl
    simp [hbind]
  | ok a =>
    have hbind : (Except.ok a >>= f) = f a := rfl
    simp [hbind]

@[simp] theorem errorsIn_map {g : α → β} : ErrorsIn E (x.map g) ↔ ErrorsIn E x := by
  cases x with
  | error e => exact errorsIn_error.trans errorsIn_error.symm
  | ok a => exact iff_of_true errorsIn_ok errorsIn_ok

theorem errorsIn_mapM {items : List α} (h : ∀ item ∈ items, ErrorsIn E (f item)) : ErrorsIn E (items.mapM f) := by
  induction items with
  | nil => exact errorsIn_ok
  | cons item rest ih =>
    obtain ⟨hitem, hrest⟩ := List.forall_mem_cons.1 h
    rw [List.mapM_cons]
    exact errorsIn_bind.2 ⟨hitem, fun _ _ => errorsIn_bind.2 ⟨ih hrest, fun _ _ => errorsIn_ok⟩⟩

/-- An item of the list counts where all before it come to values. -/
theorem errorsIn_mapM_iff {items : List α} :
    ErrorsIn E (items.mapM f) ↔ ∀ before item after, items = before ++ item :: after →
      (∀ earlier ∈ before, ∃ value, f earlier = .ok value) → ErrorsIn E (f item) := by
  induction items with
  | nil =>
    refine iff_of_true errorsIn_ok fun before item after h => ?_
    simp at h
  | cons first rest ih =>
    rw [List.mapM_cons, errorsIn_bind]
    have hlater : ∀ value, ErrorsIn E (do let values ← rest.mapM f; pure (value :: values)) ↔
        ErrorsIn E (rest.mapM f) := by
      intro value
      rw [errorsIn_bind]
      exact and_iff_left fun values _ => errorsIn_ok
    simp only [hlater, ih]
    constructor
    · rintro ⟨hfirst, hrest⟩ before item after heq hearlier
      cases before with
      | nil =>
        obtain ⟨rfl, rfl⟩ := List.cons.inj heq
        exact hfirst
      | cons other before =>
        obtain ⟨rfl, htail⟩ := List.cons.inj heq
        obtain ⟨⟨value, hvalue⟩, hbefore⟩ := List.forall_mem_cons.1 hearlier
        exact hrest value hvalue before item after htail hbefore
    · intro h
      refine ⟨h [] first rest rfl fun _ hmem => absurd hmem List.not_mem_nil, ?_⟩
      intro value hvalue before item after heq hbefore
      refine h (first :: before) item after (congrArg (first :: ·) heq) ?_
      exact List.forall_mem_cons.2 ⟨⟨value, hvalue⟩, hbefore⟩

/-- An attempt that raises nothing but other errors raises only `E` by coming to a value. -/
theorem errorsIn_iff_ok (h : ErrorsIn (fun e => ¬E e) x) : ErrorsIn E x ↔ ∃ value, x = .ok value := by
  cases x with
  | ok value => exact iff_of_true errorsIn_ok ⟨value, rfl⟩
  | error e => exact iff_of_false (fun hin => h e rfl (hin e rfl)) nofun

end

end Attempt
