import Mathlib.Data.List.Nodup
import Mathlib.Data.List.Range
import Mathlib.Data.Set.Finite.List
import Mathlib.Logic.Relation
import Mathlib.Order.Bounds.Basic
import Mathlib.Order.WellFounded

/-!
# Dependency orders

Lists in which everything stands behind what it depends on, and lists that are
cut into levels.
-/

/-- `order` may follow `done`: nothing comes twice, and whatever an element
depends on is there before it. -/
inductive DependencyOrder (deps : α → List α) : List α → List α → Prop
  | nil : DependencyOrder deps done []
  | cons : x ∉ done → (∀ d ∈ deps x, d ∈ done) → DependencyOrder deps (done ++ [x]) rest →
      DependencyOrder deps done (x :: rest)

namespace DependencyOrder

variable {deps : α → List α} {done done' order first second : List α} {x : α}

theorem congr (hdone : ∀ x, x ∈ done ↔ x ∈ done') (h : DependencyOrder deps done order) :
    DependencyOrder deps done' order := by
  induction h generalizing done' with
  | nil => exact .nil
  | cons hx hdeps _ ih =>
    refine .cons (fun hmem => hx ((hdone _).2 hmem)) (fun d hd => (hdone d).1 (hdeps d hd)) (ih fun y => ?_)
    rw [List.mem_append, List.mem_append, hdone y]

theorem append (h₁ : DependencyOrder deps done first) (h₂ : DependencyOrder deps (done ++ first) second) :
    DependencyOrder deps done (first ++ second) := by
  induction h₁ with
  | nil => simpa using h₂
  | cons hx hdeps _ ih => exact .cons hx hdeps (ih (by simpa using h₂))

theorem nodup (h : DependencyOrder deps done order) : order.Nodup ∧ ∀ y ∈ order, y ∉ done := by
  induction h with
  | nil => simp
  | cons hx _ _ ih =>
    obtain ⟨hnodup, hfresh⟩ := ih
    refine ⟨List.nodup_cons.2 ⟨fun hmem => ?_, hnodup⟩, List.forall_mem_cons.2 ⟨hx, fun y hy hmem => ?_⟩⟩
    · exact hfresh _ hmem (by simp)
    · exact hfresh y hy (by simp [hmem])

theorem before (h : DependencyOrder deps done (first ++ x :: second)) (hd : d ∈ deps x) :
    d ∈ done ∨ d ∈ first := by
  induction first generalizing done with
  | nil =>
    obtain _ | ⟨_, hdeps, _⟩ := h
    exact .inl (hdeps d hd)
  | cons y first ih =>
    obtain _ | ⟨_, _, hrest⟩ := h
    rcases ih hrest with hmem | hmem
    · rcases List.mem_append.1 hmem with hmem | hmem
      · exact .inl hmem
      · exact .inr (List.mem_cons.2 (.inl (List.mem_singleton.1 hmem)))
    · exact .inr (List.mem_cons_of_mem _ hmem)

/-- What holds of an element once it holds of all it depends on, holds of all. -/
theorem induction {P : α → Prop} (h : DependencyOrder deps done order) (hdone : ∀ y ∈ done, P y)
    (hstep : ∀ y ∈ order, (∀ d ∈ deps y, P d) → P y) : ∀ y ∈ order, P y := by
  induction h with
  | nil => simp
  | @cons _ y _ hx hdeps _ ih =>
    have hy : P y := hstep y (by simp) fun d hd => hdone d (hdeps d hd)
    refine List.forall_mem_cons.2 ⟨hy, ih (fun z hz => ?_) fun z hz => hstep z (List.mem_cons_of_mem _ hz)⟩
    rcases List.mem_append.1 hz with hz | hz
    · exact hdone z hz
    · exact List.mem_singleton.1 hz ▸ hy

/-- A list whose elements only depend on what is done may stand in any order. -/
theorem chunk (hnodup : (done ++ order).Nodup) (hdeps : ∀ y ∈ order, ∀ d ∈ deps y, d ∈ done) :
    DependencyOrder deps done order := by
  induction order generalizing done with
  | nil => exact .nil
  | cons x rest ih =>
    have hnodup' : ((done ++ [x]) ++ rest).Nodup := by simpa using hnodup
    have hx : x ∉ done := fun hmem => List.disjoint_of_nodup_append hnodup hmem (by simp)
    refine .cons hx (hdeps x (by simp)) (ih hnodup' fun y hy d hd => ?_)
    exact List.mem_append_left _ (hdeps y (List.mem_cons_of_mem _ hy) d hd)

end DependencyOrder

-- Cycles and depth

/-- Nothing depends on itself, directly or through others. -/
def Acyclic (deps : α → List α) : Prop := ∀ x, ¬ Relation.TransGen (fun d x => d ∈ deps x) x x

/-- A chain of dependencies, counted, that ends in an element. -/
inductive DependencyPath (deps : α → List α) : Nat → α → Prop
  | start : DependencyPath deps 0 x
  | step : d ∈ deps x → DependencyPath deps n d → DependencyPath deps (n + 1) x

/-- The length of the longest chain that ends in an element. -/
def Depth (deps : α → List α) (x : α) (n : Nat) : Prop := IsGreatest {n | DependencyPath deps n x} n

section

variable {deps : α → List α} {order all : List α} {x d : α}

theorem DependencyOrder.acyclic (h : DependencyOrder deps [] order) (hall : ∀ x, deps x ≠ [] → x ∈ order) :
    Acyclic deps := by
  have hacc : ∀ x ∈ order, Acc (fun d x => d ∈ deps x) x :=
    h.induction (by simp) fun y _ hdeps => .intro y hdeps
  have hwf : WellFounded fun d x => d ∈ deps x := by
    refine ⟨fun x => ?_⟩
    by_cases hx : x ∈ order
    · exact hacc x hx
    · have hnil : deps x = [] := by_contra fun hne => hx (hall x hne)
      exact .intro x fun d hd => by simp [hnil] at hd
  intro x hx
  exact hwf.transGen.asymmetric _ _ hx hx

theorem Acyclic.wellFounded (h : Acyclic deps) (hall : ∀ x, deps x ≠ [] → x ∈ all) :
    WellFounded fun d x => d ∈ deps x := by
  let below : {x // x ∈ all} → {x // x ∈ all} → Prop := fun d x => Relation.TransGen (fun d x => d ∈ deps x) d x
  have : Finite {x // x ∈ all} := (List.finite_toSet all).to_subtype
  have : IsTrans _ below := ⟨fun _ _ _ => Relation.TransGen.trans⟩
  have : Std.Irrefl below := ⟨fun x => h x⟩
  have hbelow : WellFounded below := Finite.wellFounded_of_trans_of_irrefl below
  have hroot : ∀ x ∉ all, Acc (fun d x => d ∈ deps x) x := fun x hx => by
    have hnil : deps x = [] := by_contra fun hne => hx (hall x hne)
    exact .intro x fun d hd => by simp [hnil] at hd
  have hacc : ∀ x : {x // x ∈ all}, Acc (fun d x => d ∈ deps x) x.1 := fun x => by
    induction x using hbelow.induction with
    | _ x ih =>
      refine .intro _ fun d hd => ?_
      by_cases hmem : d ∈ all
      · exact ih ⟨d, hmem⟩ (.single hd)
      · exact hroot d hmem
  refine ⟨fun x => ?_⟩
  by_cases hx : x ∈ all
  · exact hacc ⟨x, hx⟩
  · exact hroot x hx

theorem Depth.lower (h : Depth deps x (n + 1)) : ∃ d ∈ deps x, Depth deps d n := by
  obtain ⟨hpath, hbound⟩ := h
  obtain _ | ⟨hd, hpath⟩ := hpath
  exact ⟨_, hd, hpath, fun m hm => Nat.le_of_succ_le_succ (hbound (DependencyPath.step hd hm))⟩

/-- Below an element of some depth there are elements of every smaller one. -/
theorem Depth.reaches {P : α → Prop} (hclosed : ∀ x, P x → ∀ d ∈ deps x, P d) (h : Depth deps x n) (hx : P x)
    (hm : m ≤ n) : ∃ y, P y ∧ Depth deps y m := by
  induction n generalizing x with
  | zero => exact ⟨x, hx, Nat.le_zero.1 hm ▸ h⟩
  | succ n ih =>
    rcases Nat.le_succ_iff.1 hm with hm | rfl
    · obtain ⟨d, hd, hdepth⟩ := h.lower
      exact ih hdepth (hclosed x hx d hd) hm
    · exact ⟨x, hx, h⟩

/-- A dependency is less deep. -/
theorem Depth.lt (h : Depth deps x n) (hd : d ∈ deps x) (hdepth : Depth deps d m) : m < n :=
  h.2 (DependencyPath.step hd hdepth.1)

end

-- Levels

/-- The elements of `xs` by level, the levels below `count` in turn. -/
def byLevel (level : α → Nat) (count : Nat) (xs : List α) : List (List α) :=
  (List.range count).map fun n => xs.filter fun x => level x = n

theorem byLevel_flatten_perm {level : α → Nat} {xs : List α} (h : ∀ x ∈ xs, level x < count) :
    (byLevel level count xs).flatten.Perm xs := by
  induction count generalizing xs with
  | zero =>
    cases xs with
    | nil => exact .refl _
    | cons x rest => exact absurd (h x (by simp)) (Nat.not_lt_zero _)
  | succ count ih =>
    have hlower : byLevel level count (xs.filter fun x => level x ≠ count) = byLevel level count xs := by
      refine List.map_congr_left fun n hn => ?_
      rw [List.filter_filter]
      refine List.filter_congr fun x _ => ?_
      have := List.mem_range.1 hn
      by_cases hx : level x = n <;> simp [hx]
      omega
    have hsplit : byLevel level (count + 1) xs =
        byLevel level count (xs.filter fun x => level x ≠ count) ++ [xs.filter fun x => level x = count] := by
      rw [hlower]
      simp [byLevel, List.range_succ]
    rw [hsplit, List.flatten_append, List.flatten_singleton]
    let lower := xs.filter fun x => level x ≠ count
    have hfirst : (byLevel level count lower).flatten.Perm lower := ih fun x hx => by
      obtain ⟨hmem, hne⟩ := List.mem_filter.1 hx
      have := h x hmem
      have hne : level x ≠ count := by simpa using hne
      omega
    refine (hfirst.append_right _).trans ?_
    have hperm := List.filter_append_perm (fun x => decide (level x = count)) xs
    refine (List.perm_append_comm).trans ?_
    simpa [lower] using hperm
