import Mathlib.Data.List.Basic
import Mathlib.Data.List.Perm.Basic
import Mathlib.Data.List.Perm.Subperm

/-!
# A graph unfolded as a tree

Every node of a graph unfolds to a tree: below it stand the trees of its children. The
graph may share nodes and run in circles, so that the tree may be far larger than the
graph, or endless; it is known by its first levels.

`walk` walks the tree with a stack, counting the nodes. `walk_returns_iff` says when it
gets to the end, `walk_limited` and `walk_bounded` that a limit on the nodes or on the
depth makes it end somehow.
-/

namespace Unfolding

variable {ι ε : Type} (children : ι → List ι)

/-- The nodes of the first `n` levels of the tree below a node, each with its depth. -/
def levels : Nat → ι → Nat → List (ι × Nat)
  | 0, _, _ => []
  | n + 1, x, depth => (x, depth) :: (children x).flatMap fun child => levels n child (depth + 1)

/-- The first levels of all the trees on a stack. -/
def forest (n : Nat) (stack : List (ι × Nat)) : List (ι × Nat) :=
  stack.flatMap fun entry => levels children n entry.1 entry.2

/-- The children go on the stack in order, so that the last of them is on top. -/
def push (x : ι) (depth : Nat) (stack : List (ι × Nat)) : List (ι × Nat) :=
  ((children x).map (·, depth + 1)).reverse ++ stack

/-- A walk ends when the stack is empty, when more nodes were visited than the limit allows,
or when a node is refused; `none` where the fuel runs out first. -/
def walk (limit : Option Nat) (tooMany : ε) (refuse : ι → Nat → Option ε) :
    Nat → Nat → List (ι × Nat) → Option (Except ε Unit)
  | _, _, [] => some (.ok ())
  | 0, _, _ :: _ => none
  | fuel + 1, visited, (x, depth) :: stack =>
    if limit.any (· < visited + 1) then some (.error tooMany)
    else
      match refuse x depth with
      | some e => some (.error e)
      | none => walk limit tooMany refuse fuel (visited + 1) (push children x depth stack)

variable {children}

theorem flatMap_sublist {l : List α} {f g : α → List β} (h : ∀ a ∈ l, (f a).Sublist (g a)) :
    (l.flatMap f).Sublist (l.flatMap g) := by
  induction l with
  | nil => exact .refl _
  | cons a rest ih =>
    obtain ⟨ha, hrest⟩ := List.forall_mem_cons.1 h
    rw [List.flatMap_cons, List.flatMap_cons]
    exact ha.append (ih hrest)

theorem levels_succ (n : Nat) (x : ι) (depth : Nat) :
    (levels children n x depth).Sublist (levels children (n + 1) x depth) := by
  induction n generalizing x depth with
  | zero => exact List.nil_sublist _
  | succ n ih => exact (flatMap_sublist fun child _ => ih child (depth + 1)).cons_cons _

theorem forest_succ (n : Nat) (stack : List (ι × Nat)) :
    (forest children n stack).Sublist (forest children (n + 1) stack) :=
  flatMap_sublist fun entry _ => levels_succ n entry.1 entry.2

theorem forest_push (n : Nat) (x : ι) (depth : Nat) (stack : List (ι × Nat)) :
    (forest children n (push children x depth stack)).Perm
      (((children x).flatMap fun child => levels children n child (depth + 1)) ++ forest children n stack) := by
  have hreversed := (List.reverse_perm ((children x).map (·, depth + 1))).flatMap_right
    fun entry => levels children n entry.1 entry.2
  rw [List.flatMap_map] at hreversed
  rw [forest, push, List.flatMap_append]
  exact hreversed.append_right _

/-- Visiting the top of the stack takes one node off the trees that are left. -/
theorem cons_forest_push (n : Nat) (x : ι) (depth : Nat) (stack : List (ι × Nat)) :
    ((x, depth) :: forest children n (push children x depth stack)).Subperm
      (forest children (n + 1) ((x, depth) :: stack)) := by
  have hlevels : forest children (n + 1) ((x, depth) :: stack) =
      (x, depth) :: (((children x).flatMap fun child => levels children n child (depth + 1)) ++
        forest children (n + 1) stack) := rfl
  rw [hlevels]
  refine (List.subperm_cons _).2 (((forest_push n x depth stack).subperm).trans ?_)
  exact ((List.Sublist.refl _).append (forest_succ n stack)).subperm

theorem forest_cons_push (n : Nat) (x : ι) (depth : Nat) (stack : List (ι × Nat)) :
    (forest children n ((x, depth) :: stack)).Subperm
      ((x, depth) :: forest children n (push children x depth stack)) := by
  have hsub : (levels children n x depth).Sublist
      ((x, depth) :: (children x).flatMap fun child => levels children n child (depth + 1)) := levels_succ n x depth
  have happend : (forest children n ((x, depth) :: stack)).Sublist
      ((x, depth) :: (((children x).flatMap fun child => levels children n child (depth + 1)) ++
        forest children n stack)) := hsub.append (.refl (forest children n stack))
  exact happend.subperm.trans ((forest_push n x depth stack).symm.cons _).subperm

-- Walks that get to the end

/-- What a walk needs to get to the end, with `visited` nodes behind it. -/
structure Passes (children : ι → List ι) (limit : Option Nat) (refuse : ι → Nat → Option ε) (visited : Nat)
    (stack : List (ι × Nat)) : Prop where
  counted : ∀ m ∈ limit, ∀ n, visited + (forest children n stack).length ≤ m
  allowed : ∀ n, ∀ entry ∈ forest children n stack, refuse entry.1 entry.2 = none

variable {limit : Option Nat} {tooMany : ε} {refuse : ι → Nat → Option ε}

theorem any_lt_eq_false : limit.any (· < n) = false ↔ ∀ m ∈ limit, n ≤ m := by
  cases limit <;> simp

theorem walk_returns {fuel visited : Nat} {stack : List (ι × Nat)}
    (hfinite : ∀ n, (forest children n stack).length ≤ fuel) (h : Passes children limit refuse visited stack) :
    walk children limit tooMany refuse fuel visited stack = some (.ok ()) := by
  induction fuel generalizing visited stack with
  | zero =>
    cases stack with
    | nil => rfl
    | cons entry stack => exact absurd (hfinite 1) (by simp [forest, levels])
  | succ fuel ih =>
    cases stack with
    | nil => rfl
    | cons entry stack =>
      obtain ⟨x, depth⟩ := entry
      have hcount : limit.any (· < visited + 1) = false := by
        refine any_lt_eq_false.2 fun m hm => Nat.le_trans (Nat.add_le_add_left ?_ visited) (h.counted m hm 1)
        simp [forest, levels]
      have hallowed : refuse x depth = none := h.allowed 1 (x, depth) (by simp [forest, levels])
      simp only [walk, hcount, hallowed, Bool.false_eq_true, if_false]
      refine ih (fun n => ?_) ⟨fun m hm n => ?_, fun n entry hentry => ?_⟩
      · have hlength := (@cons_forest_push _ children n x depth stack).length_le
        have htotal := hfinite (n + 1)
        simp only [List.length_cons] at hlength
        omega
      · have hlength := (@cons_forest_push _ children n x depth stack).length_le
        have htotal := h.counted m hm (n + 1)
        simp only [List.length_cons] at hlength
        omega
      · exact h.allowed (n + 1) entry ((cons_forest_push n x depth stack).subset (.tail _ hentry))

theorem passes_of_walk {fuel visited : Nat} {stack : List (ι × Nat)} (hvisited : ∀ m ∈ limit, visited ≤ m)
    (h : walk children limit tooMany refuse fuel visited stack = some (.ok ())) :
    (∀ n, (forest children n stack).length ≤ fuel) ∧ Passes children limit refuse visited stack := by
  induction fuel generalizing visited stack with
  | zero =>
    cases stack with
    | nil => exact ⟨fun _ => Nat.zero_le _, fun m hm _ => hvisited m hm, fun _ _ h => by cases h⟩
    | cons entry stack => cases h
  | succ fuel ih =>
    cases stack with
    | nil => exact ⟨fun _ => Nat.zero_le _, fun m hm _ => hvisited m hm, fun _ _ h => by cases h⟩
    | cons entry stack =>
      obtain ⟨x, depth⟩ := entry
      simp only [walk] at h
      split at h
      · cases h
      next hcount =>
        split at h
        · cases h
        next hallowed =>
          have hmore := any_lt_eq_false.1 (Bool.eq_false_iff.2 hcount)
          obtain ⟨hfinite, hpasses⟩ := ih hmore h
          refine ⟨fun n => ?_, ⟨fun m hm n => ?_, fun n entry hentry => ?_⟩⟩
          · have hlength := (@forest_cons_push _ children n x depth stack).length_le
            have hrest := hfinite n
            simp only [List.length_cons] at hlength
            omega
          · have hlength := (@forest_cons_push _ children n x depth stack).length_le
            have hrest := hpasses.counted m hm n
            simp only [List.length_cons] at hlength
            omega
          · rcases List.mem_cons.1 ((forest_cons_push n x depth stack).subset hentry) with rfl | hlater
            · exact hallowed
            · exact hpasses.allowed n entry hlater

/-- A walk gets to the end exactly if the trees are finite, within the limit, and nothing
in them is refused. -/
theorem walk_returns_iff {visited : Nat} {stack : List (ι × Nat)} (hvisited : ∀ m ∈ limit, visited ≤ m) :
    (∃ fuel, walk children limit tooMany refuse fuel visited stack = some (.ok ())) ↔
      (∃ bound, ∀ n, (forest children n stack).length ≤ bound) ∧ Passes children limit refuse visited stack := by
  constructor
  · rintro ⟨fuel, h⟩
    obtain ⟨hfinite, hpasses⟩ := passes_of_walk hvisited h
    exact ⟨⟨fuel, hfinite⟩, hpasses⟩
  · rintro ⟨⟨fuel, hfinite⟩, hpasses⟩
    exact ⟨fuel, walk_returns hfinite hpasses⟩

theorem walk_succ {fuel visited : Nat} {stack : List (ι × Nat)} {result : Except ε Unit}
    (h : walk children limit tooMany refuse fuel visited stack = some result) :
    walk children limit tooMany refuse (fuel + 1) visited stack = some result := by
  induction fuel generalizing visited stack with
  | zero =>
    cases stack with
    | nil => exact h
    | cons entry stack => cases h
  | succ fuel ih =>
    cases stack with
    | nil => exact h
    | cons entry stack =>
      rw [walk] at h ⊢
      split
      · next hcount => simpa only [hcount, if_true] using h
      · next hcount =>
        simp only [hcount, Bool.false_eq_true, if_false] at h
        split
        · next e hrefused => simpa only [hrefused] using h
        · next hallowed =>
          simp only [hallowed] at h
          exact ih h

/-- More fuel does not change where a walk ends. -/
theorem walk_unique {fuel more visited : Nat} {stack : List (ι × Nat)} {result other : Except ε Unit}
    (h : walk children limit tooMany refuse fuel visited stack = some result)
    (h' : walk children limit tooMany refuse more visited stack = some other) : result = other := by
  have hmore : ∀ {fuel : Nat} {result : Except ε Unit} (extra : Nat),
      walk children limit tooMany refuse fuel visited stack = some result →
        walk children limit tooMany refuse (fuel + extra) visited stack = some result := by
    intro fuel result extra hwalk
    induction extra with
    | zero => exact hwalk
    | succ extra ih => exact walk_succ ih
  have hboth := (hmore more h).symm.trans (Nat.add_comm more fuel ▸ hmore fuel h')
  exact Option.some.inj hboth

-- Walks that end

/-- A limit on the nodes ends every walk, with one visit more than it allows. -/
theorem walk_limited (hlimit : limit = some m) {fuel visited : Nat} {stack : List (ι × Nat)}
    (hfuel : visited + fuel = m + 1) (hvisited : visited ≤ m) :
    (walk children limit tooMany refuse fuel visited stack).isSome = true := by
  induction fuel generalizing visited stack with
  | zero => omega
  | succ fuel ih =>
    cases stack with
    | nil => rfl
    | cons entry stack =>
      simp only [walk]
      split
      · rfl
      next hcount =>
        split
        · rfl
        next =>
          have hmore := any_lt_eq_false.1 (Bool.eq_false_iff.2 hcount) m hlimit
          exact ih (by omega) hmore

/-- What is left of the trees above a depth. -/
def above (children : ι → List ι) (maxDepth : Nat) (stack : List (ι × Nat)) : Nat :=
  (stack.flatMap fun entry => levels children (maxDepth + 1 - entry.2) entry.1 entry.2).length

theorem above_push {maxDepth depth : Nat} (hdepth : depth ≤ maxDepth) (x : ι) (stack : List (ι × Nat)) :
    above children maxDepth (push children x depth stack) + 1 = above children maxDepth ((x, depth) :: stack) := by
  have hreversed := (List.reverse_perm ((children x).map (·, depth + 1))).flatMap_right
    fun entry => levels children (maxDepth + 1 - entry.2) entry.1 entry.2
  rw [List.flatMap_map] at hreversed
  have hbelow : maxDepth + 1 - depth = (maxDepth + 1 - (depth + 1)) + 1 := by omega
  have hlength := hreversed.length_eq
  simp only [above, push, List.flatMap_append, List.flatMap_cons, List.length_append, hbelow, levels,
    List.length_cons] at hlength ⊢
  omega

/-- A limit on the depth ends every walk. -/
theorem walk_bounded {maxDepth : Nat} (hdeep : ∀ x depth, maxDepth < depth → (refuse x depth).isSome = true)
    {fuel visited : Nat} {stack : List (ι × Nat)} (hfuel : above children maxDepth stack < fuel) :
    (walk children limit tooMany refuse fuel visited stack).isSome = true := by
  induction fuel generalizing visited stack with
  | zero => omega
  | succ fuel ih =>
    cases stack with
    | nil => rfl
    | cons entry stack =>
      obtain ⟨x, depth⟩ := entry
      simp only [walk]
      split
      · rfl
      · split
        · rfl
        next hallowed =>
          have hdepth : depth ≤ maxDepth := by
            by_contra hmore
            have hrefused := hdeep x depth (by omega)
            rw [hallowed] at hrefused
            cases hrefused
          have hpush := @above_push _ children _ _ hdepth x stack
          exact ih (by omega)

-- Graphs that agree

/-- Two graphs that agree on the children of every node of a tree unfold to the same tree. -/
theorem levels_congr {others : ι → List ι} {n : Nat} {x : ι} {depth : Nat}
    (h : ∀ entry ∈ levels children n x depth, others entry.1 = children entry.1) :
    levels others n x depth = levels children n x depth := by
  induction n generalizing x depth with
  | zero => rfl
  | succ n ih =>
    obtain ⟨hhere, hbelow⟩ := List.forall_mem_cons.1 h
    simp only [levels, hhere]
    refine congrArg ((x, depth) :: ·) (List.flatMap_congr fun child hchild => ih fun entry hentry => ?_)
    exact hbelow entry (List.mem_flatMap.2 ⟨child, hchild, hentry⟩)

end Unfolding
