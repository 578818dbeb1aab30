import ChainWeaver.Data.Unfolding
import ChainWeaver.SerializationLaws

/-!
# Structural limits

`_enforce_structure` on what a parser gives: objects that may be shared and, by the aliases
of YAML, may hold themselves. The walk visits the tree that they unfold to; on the tree of a
JSON text it is `enforceStructure` (`enforceObjects_json`).
-/

namespace ChainWeaver

open Unfolding (levels forest)

/-- A parsed object by its class, its parts by their identity. Keys of a mapping that are no
strings are `none`. -/
inductive ParsedObject (ι : Type)
  | null
  | str (text : String)
  /-- Any other object without parts. -/
  | scalar (typeName : String)
  | mapping (entries : List (Option String × ι))
  | list (items : List ι)
  | tuple (items : List ι)
  | set (members : List ι)

namespace ParsedObject

/-- The string itself, or the string keys. -/
def texts : ParsedObject ι → List String
  | .str text => [text]
  | .mapping entries => entries.filterMap Prod.fst
  | _ => []

def parts : ParsedObject ι → List ι
  | .mapping entries => entries.map Prod.snd
  | .list items => items
  | .tuple items => items
  | .set members => members
  | _ => []

/-- The parts that the walk pushes: it has no branch for a set. -/
def pushed : ParsedObject ι → List ι
  | .mapping entries => entries.map Prod.snd
  | .list items => items
  | .tuple items => items
  | _ => []

end ParsedObject

namespace FlowParseLimits

variable (limits : FlowParseLimits) (objects : ι → ParsedObject ι)

def stringRefused (texts : List String) : Option String :=
  (texts.find? fun text => exceeds limits.maxStringLength text.length).map fun text =>
    s!"Flow contains a string of length {text.length}, exceeding the max_string_length limit " ++
      s!"({limits.maxStringLength.getD 0})"

def refused (identity : ι) (depth : Nat) : Option String :=
  if exceeds limits.maxDepth depth then
    some s!"Flow structure is nested deeper than the max_depth limit ({limits.maxDepth.getD 0})"
  else limits.stringRefused (objects identity).texts

/-- `_enforce_structure` with `visited` nodes behind it and `stack` left, top first; `none`
where it has not ended after `fuel` visits. -/
def enforceObjects (fuel visited : Nat) (stack : List (ι × Nat)) : Option (Except String Unit) :=
  Unfolding.walk (fun identity => (objects identity).pushed) limits.maxNodes
    s!"Flow structure exceeds the max_nodes limit ({limits.maxNodes.getD 0})" (limits.refused objects) fuel visited
    stack

def EndsWithin (fuel : Nat) (root : ι) : Prop := (limits.enforceObjects objects fuel 0 [(root, 1)]).isSome = true

def EnforcesNormally (root : ι) : Prop := ∃ fuel, limits.enforceObjects objects fuel 0 [(root, 1)] = some (.ok ())

-- The unfolded value

/-- The first levels of the unfolded value, each node with its depth. -/
abbrev unfolded (objects : ι → ParsedObject ι) (n : Nat) (root : ι) : List (ι × Nat) :=
  levels (fun identity => (objects identity).parts) n root 1

/-- Each limit that is set holds of the unfolded value. -/
structure Fits (root : ι) : Prop where
  nodes : ∀ m ∈ limits.maxNodes, ∀ n, (unfolded objects n root).length ≤ m
  depth : ∀ m ∈ limits.maxDepth, ∀ n, ∀ node ∈ unfolded objects n root, node.2 ≤ m
  strings : ∀ m ∈ limits.maxStringLength, ∀ n, ∀ node ∈ unfolded objects n root, ∀ text ∈ (objects node.1).texts,
    text.length ≤ m

def FinitelyMany (root : ι) : Prop := ∃ bound, ∀ n, (unfolded objects n root).length ≤ bound

def NoSetMembers (root : ι) : Prop :=
  ∀ n, ∀ node ∈ unfolded objects n root, ∀ members, objects node.1 = .set members → members = []

variable {limits objects}

theorem stringRefused_eq_none {texts : List String} :
    limits.stringRefused texts = none ↔ ∀ text ∈ texts, ∀ m ∈ limits.maxStringLength, text.length ≤ m := by
  simp only [stringRefused, Option.map_eq_none_iff, List.find?_eq_none, Bool.not_eq_true, exceeds_eq_false]

theorem refused_eq_none {identity : ι} : limits.refused objects identity depth = none ↔
    (∀ m ∈ limits.maxDepth, depth ≤ m) ∧
      ∀ text ∈ (objects identity).texts, ∀ m ∈ limits.maxStringLength, text.length ≤ m := by
  unfold refused
  split
  · next hdeep =>
    refine ⟨nofun, fun ⟨hdepth, _⟩ => ?_⟩
    rw [exceeds_eq_false.2 hdepth] at hdeep
    cases hdeep
  · next hdeep =>
    rw [stringRefused_eq_none]
    exact ⟨fun h => ⟨exceeds_eq_false.1 (Bool.eq_false_iff.2 hdeep), h⟩, And.right⟩

/-- Without members of sets the walk visits the unfolded value. -/
theorem levels_pushed (hsets : NoSetMembers objects root) (n : Nat) :
    levels (fun identity => (objects identity).pushed) n root 1 = unfolded objects n root := by
  refine Unfolding.levels_congr fun node hnode => ?_
  cases hobject : objects node.1 with
  | set members =>
    rw [hsets n node hnode members hobject]
    rfl
  | null | str | scalar | mapping | list | tuple => rfl

theorem forest_root (children : ι → List ι) (n : Nat) (root : ι) :
    forest children n [(root, 1)] = levels children n root 1 := List.append_nil _

theorem enforcesNormally_iff (hsets : NoSetMembers objects root) :
    limits.EnforcesNormally objects root ↔ FinitelyMany objects root ∧ limits.Fits objects root := by
  unfold EnforcesNormally
  refine (Unfolding.walk_returns_iff fun _ _ => Nat.zero_le _).trans ?_
  simp only [forest_root, levels_pushed hsets, FinitelyMany]
  refine and_congr_right fun _ => ⟨fun h => ⟨fun m hm n => ?_, fun m hm n node hnode => ?_,
    fun m hm n node hnode text htext => ?_⟩, fun h => ⟨fun m hm n => ?_, fun n node hnode => ?_⟩⟩
  · simpa [forest_root, levels_pushed hsets] using h.counted m hm n
  · have hallowed := h.allowed n node (by rwa [forest_root, levels_pushed hsets])
    exact (refused_eq_none.1 hallowed).1 m hm
  · have hallowed := h.allowed n node (by rwa [forest_root, levels_pushed hsets])
    exact (refused_eq_none.1 hallowed).2 text htext m hm
  · simpa [forest_root, levels_pushed hsets] using h.nodes m hm n
  · rw [forest_root, levels_pushed hsets] at hnode
    exact refused_eq_none.2 ⟨fun m hm => h.depth m hm n node hnode, fun text htext m hm =>
      h.strings m hm n node hnode text htext⟩

theorem endsWithin_nodes (hm : m ∈ limits.maxNodes) (root : ι) : limits.EndsWithin objects (m + 1) root :=
  Unfolding.walk_limited hm (Nat.zero_add _) (Nat.zero_le _)

theorem endsWithin_depth (hm : m ∈ limits.maxDepth) (root : ι) : ∃ fuel, limits.EndsWithin objects fuel root := by
  have hdeep : ∀ identity depth, m < depth → (limits.refused objects identity depth).isSome = true := by
    intro identity depth hdeep
    by_contra hnone
    have hdepth := (refused_eq_none.1 (Option.not_isSome_iff_eq_none.1 hnone)).1 m hm
    omega
  exact ⟨_, Unfolding.walk_bounded hdeep (Nat.lt_succ_self _)⟩

/-- The walk returns exactly on the finite values that keep every limit, and a limit on the
nodes or on the depth makes it end on every value. -/
theorem enforceStructure_exact (limits : FlowParseLimits) (objects : ι → ParsedObject ι) (root : ι) :
    (NoSetMembers objects root →
      (limits.EnforcesNormally objects root ↔ FinitelyMany objects root ∧ limits.Fits objects root)) ∧
    (limits.maxNodes.isSome = true ∨ limits.maxDepth.isSome = true → ∃ fuel, limits.EndsWithin objects fuel root) ∧
    ∀ m ∈ limits.maxNodes, limits.EndsWithin objects (m + 1) root := by
  refine ⟨enforcesNormally_iff, fun hset => ?_, fun m hm => endsWithin_nodes hm root⟩
  rcases hset with hnodes | hdepth
  · obtain ⟨m, hm⟩ := Option.isSome_iff_exists.1 hnodes
    exact ⟨m + 1, endsWithin_nodes hm root⟩
  · obtain ⟨m, hm⟩ := Option.isSome_iff_exists.1 hdepth
    exact endsWithin_depth hm root

/-- One string, aliased three times. -/
def aliased : Bool → ParsedObject Bool
  | true => .list [false, false, false]
  | false => .str "a"

theorem enforceStructure_exact_aliased :
    FinitelyMany aliased true ∧ ({ maxNodes := some 4 } : FlowParseLimits).Fits aliased true := by
  have hexact := (enforceStructure_exact { maxNodes := some 4 } aliased true).1
  refine (hexact fun n node _ members hobject => ?_).1 ⟨4, rfl⟩
  cases hidentity : node.1 <;> rw [hidentity] at hobject <;> cases hobject

def unlimited : FlowParseLimits :=
  { maxBytes := none, maxNodes := none, maxDepth := none, maxStringLength := none, maxSteps := none }

/-- With no limits the walk of a list that holds itself goes on for ever. With a limit on
strings the member of a set is not looked at. -/
theorem enforceStructure_inexact :
    (¬∀ (limits : FlowParseLimits) (objects : Unit → ParsedObject Unit) (root : Unit),
      limits.EnforcesNormally objects root ↔ limits.Fits objects root) ∧
    ¬∀ (limits : FlowParseLimits) (objects : Bool → ParsedObject Bool) (root : Bool),
      limits.EnforcesNormally objects root ↔ limits.Fits objects root := by
  constructor
  · intro h
    let circle : Unit → ParsedObject Unit := fun _ => .list [()]
    obtain ⟨fuel, hfuel⟩ := (h unlimited circle ()).2 ⟨nofun, nofun, nofun⟩
    have hendless : ∀ fuel visited depth, unlimited.enforceObjects circle fuel visited [((), depth)] = none := by
      intro fuel
      induction fuel with
      | zero => exact fun _ _ => rfl
      | succ fuel ih => exact fun visited depth => ih (visited + 1) (depth + 1)
    rw [hendless] at hfuel
    cases hfuel
  · intro h
    let holder : Bool → ParsedObject Bool := fun identity => if identity then .set [false] else .str "ab"
    have hfits := (h { unlimited with maxStringLength := some 1 } holder true).1 ⟨1, rfl⟩
    exact absurd (hfits.strings 1 rfl 2 (false, 2) (by decide) "ab" (by decide)) (by decide)

-- The tree of a JSON text

/-- In a JSON text every value stands for itself. -/
def ofJson : Json → ParsedObject Json
  | .str text => .str text
  | .array items => .list items
  | .object entries => .mapping (entries.map fun entry => (some entry.1, entry.2))
  | .null => .null
  | .bool _ => .scalar "bool"
  | .int _ => .scalar "int"
  | .float _ => .scalar "float"

theorem pushed_ofJson (json : Json) : (ofJson json).pushed = json.children := by
  cases json with
  | object entries => simp [ofJson, ParsedObject.pushed, Json.children]
  | _ => rfl

theorem texts_ofJson (json : Json) : (ofJson json).texts = json.ownStrings := by
  cases json with
  | object entries => simp [ofJson, ParsedObject.texts, Json.ownStrings, List.filterMap_map]
  | _ => rfl

theorem refused_ofJson (node : Json) (depth : Nat) : limits.refused ofJson node depth =
    if exceeds limits.maxDepth depth then
      some s!"Flow structure is nested deeper than the max_depth limit ({limits.maxDepth.getD 0})"
    else limits.stringTooLong? node := by
  rw [refused, texts_ofJson]
  rfl

theorem any_lt_eq_exceeds (limit : Option Nat) (n : Nat) : limit.any (· < n) = exceeds limit n := by
  cases limit <;> rfl

/-- On a JSON text the walk gives what `enforceStructure` gives. -/
theorem enforceObjects_json (visited : Nat) (stack : List (Json × Nat)) :
    ∃ fuel, limits.enforceObjects ofJson fuel visited stack = some (limits.enforceFrom visited stack) := by
  fun_induction enforceFrom limits visited stack with
  | case1 visited => exact ⟨0, rfl⟩
  | case2 visited node depth stack hnodes =>
    refine ⟨1, ?_⟩
    simp only [enforceObjects, Unfolding.walk, any_lt_eq_exceeds, hnodes, if_true]
  | case3 visited node depth stack hnodes hdepth =>
    refine ⟨1, ?_⟩
    simp only [enforceObjects, Unfolding.walk, any_lt_eq_exceeds, hnodes, refused_ofJson, hdepth, if_true,
      Bool.false_eq_true, if_false]
  | case4 visited node depth stack hnodes hdepth detail hdetail =>
    refine ⟨1, ?_⟩
    simp only [enforceObjects, Unfolding.walk, any_lt_eq_exceeds, hnodes, refused_ofJson, hdepth, hdetail,
      Bool.false_eq_true, if_false]
  | case5 visited node depth stack hnodes hdepth hdetail ih =>
    obtain ⟨fuel, hfuel⟩ := ih
    have hpush : Unfolding.push (fun json => (ofJson json).pushed) node depth stack =
        node.children.reverse.map (·, depth + 1) ++ stack := by
      rw [Unfolding.push, pushed_ofJson, List.map_reverse]
    refine ⟨fuel + 1, ?_⟩
    rw [← hfuel, ← hpush]
    simp only [enforceObjects, Unfolding.walk, any_lt_eq_exceeds, hnodes, refused_ofJson, hdepth, hdetail,
      Bool.false_eq_true, if_false]

end FlowParseLimits

end ChainWeaver
