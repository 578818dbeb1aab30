import ChainWeaver.Data.Attempt
import ChainWeaver.Predicate

/-!
# Predicates that cannot be evaluated

The evaluator has an error class of its own, and lets what Python's operations raise
through, lookups apart. An evaluation keeps to its own class exactly if no
operation it gets to is applied to operands that Python does not define it on.
-/

namespace ChainWeaver

open Attempt (ErrorsIn)

-- What Python defines

namespace Value

mutual

/-- `<` and its kin are defined on the two. -/
def ordered : Value → Value → Bool
  | .str _, .str _ => true
  | .list xs, .list ys => orderedAll xs ys
  | .tuple xs, .tuple ys => orderedAll xs ys
  | .set _, .set _ => true
  | a, b => a.number?.isSome && b.number?.isSome

/-- The first elements that differ decide. -/
def orderedAll : List Value → List Value → Bool
  | [], _ => true
  | _ :: _, [] => true
  | x :: xs, y :: ys => if equals x y then orderedAll xs ys else ordered x y

end

/-- `in` is defined on the two. -/
def soughtIn (a : Value) : Value → Bool
  | .str _ => match a with
    | .str _ => true
    | _ => false
  | .list _ => true
  | .tuple _ => true
  | .set _ => match a with
    | .set _ => true
    | _ => a.hashable
  | .dict _ => a.hashable
  | _ => false

end Value

/-- Whether Python defines the comparison on the two. The evaluator refuses `is` and `is not`
itself. -/
def CmpOp.applies (a b : Value) : CmpOp → Bool
  | .eq | .notEq | .is | .isNot => true
  | .lt | .ltE | .gt | .gtE => a.ordered b
  | .isIn | .notIn => a.soughtIn b

/-- Signs are for numbers; the evaluator refuses `~` itself. -/
def UnaryOp.applies (value : Value) : UnaryOp → Bool
  | .not | .invert => true
  | .usub | .uadd => value.number?.isSome

/-- The error is the evaluator's own. -/
def PredicateError.Own : PredicateError → Prop
  | .predicateSyntax _ _ => True
  | .raised _ _ => False

namespace Predicate

open Value (equals)

/-- An evaluation that gives a value or raises `PredicateSyntaxError`. -/
abbrev Contained (x : Except PredicateError α) : Prop := ErrorsIn PredicateError.Own x

theorem contained_bind {x : Except PredicateError α} {f : α → Except PredicateError β} :
    Contained (x >>= f) ↔ Contained x ∧ ∀ value, x = .ok value → Contained (f value) :=
  Attempt.errorsIn_bind

theorem contained_map {x : Except PredicateError α} {f : α → β} : Contained (x.map f) ↔ Contained x :=
  Attempt.errorsIn_map

theorem not_contained_raised : ¬Contained (.error (.raised name message) : Except PredicateError α) := by
  simp [PredicateError.Own]

theorem contained_typeError : ¬Contained (typeError message : Except PredicateError α) := not_contained_raised

theorem contained_hashed : Contained (hashed value) ↔ value.hashable = true := by
  unfold hashed
  split
  · next h => exact iff_of_true (by simp) h
  · next h => exact iff_of_false contained_typeError h

mutual

theorem contained_order (symbol : String) (want : Ordering → Bool) : (a b : Value) →
    (Contained (order symbol want a b) ↔ a.ordered b = true)
  | a, b => by
    unfold order Value.ordered
    split
    · simp
    · exact contained_orderAll symbol want _ _
    · exact contained_orderAll symbol want _ _
    · simp
    · cases ha : a.number? with
      | none => exact iff_of_false contained_typeError (by simp [ha])
      | some x =>
        cases hb : b.number? with
        | none => exact iff_of_false contained_typeError (by simp [hb])
        | some y => simp [ha, hb]

theorem contained_orderAll (symbol : String) (want : Ordering → Bool) : (xs ys : List Value) →
    (Contained (orderAll symbol want xs ys) ↔ Value.orderedAll xs ys = true)
  | [], [] => by simp [orderAll, Value.orderedAll]
  | [], _ :: _ => by simp [orderAll, Value.orderedAll]
  | _ :: _, [] => by simp [orderAll, Value.orderedAll]
  | x :: xs, y :: ys => by
    rw [orderAll, Value.orderedAll]
    split
    · exact contained_orderAll symbol want xs ys
    · exact contained_order symbol want x y

end

theorem contained_isIn (a b : Value) : Contained (isIn a b) ↔ a.soughtIn b = true := by
  cases b with
  | str s =>
    cases a with
    | str part => simp [isIn, Value.soughtIn]
    | _ => exact iff_of_false contained_typeError (by simp [Value.soughtIn])
  | list items => simp [isIn, Value.soughtIn]
  | tuple items => simp [isIn, Value.soughtIn]
  | set items =>
    cases a with
    | set _ => simp [isIn, Value.soughtIn, contained_bind]
    | _ => simp [isIn, Value.soughtIn, contained_bind, contained_hashed]
  | dict entries => simp [isIn, Value.soughtIn, contained_bind, contained_hashed]
  | _ => exact iff_of_false contained_typeError (by simp [Value.soughtIn])

/-- A comparison that the evaluator admits raises where Python does not define it. -/
theorem contained_comparator (h : comparator op = some compares) (a b : Value) :
    Contained (compares a b) ↔ op.applies a b = true := by
  cases op with
  | eq | notEq =>
    obtain rfl := Option.some.inj h
    simp [CmpOp.applies]
  | lt | ltE | gt | gtE =>
    obtain rfl := Option.some.inj h
    exact contained_order _ _ a b
  | isIn =>
    obtain rfl := Option.some.inj h
    exact contained_isIn a b
  | notIn =>
    obtain rfl := Option.some.inj h
    simpa [CmpOp.applies] using contained_isIn a b
  | is | isNot => cases h

theorem contained_negate (value : Value) : Contained (negate value) ↔ value.number?.isSome = true := by
  cases value with
  | bool | int | float => simp [negate, Value.number?]
  | _ => exact iff_of_false contained_typeError (by simp [Value.number?])

theorem contained_posate (value : Value) : Contained (posate value) ↔ value.number?.isSome = true := by
  cases value with
  | bool | int | float => simp [posate, Value.number?]
  | _ => exact iff_of_false contained_typeError (by simp [Value.number?])

-- Expressions

mutual

/-- Every operation that the evaluation of the expression gets to is applied to operands
that Python defines it on. Lookups do not count. -/
def Defined (predicate : String) (context : Dict) : Expr → Prop
  | .constant _ => True
  | .name _ => True
  | .subscript container slice =>
    Defined predicate context container ∧
      ∀ value, eval predicate context container = .ok value → Defined predicate context slice
  | .unary op operand =>
    Defined predicate context operand ∧
      ∀ value, eval predicate context operand = .ok value → op.applies value = true
  | .and values => AndDefined predicate context values
  | .or values => OrDefined predicate context values
  | .compare left rest =>
    Defined predicate context left ∧
      ∀ value, eval predicate context left = .ok value → LinksDefined predicate context value rest
  | .sequence elts => AllDefined predicate context elts
  | .set elts => SetDefined predicate context elts
  | .other _ => True

def AllDefined (predicate : String) (context : Dict) : List Expr → Prop
  | [] => True
  | e :: rest =>
    Defined predicate context e ∧
      ∀ value, eval predicate context e = .ok value → AllDefined predicate context rest

def SetDefined (predicate : String) (context : Dict) : List Expr → Prop
  | [] => True
  | e :: rest =>
    Defined predicate context e ∧
      ∀ value, eval predicate context e = .ok value → value.hashable = true ∧ SetDefined predicate context rest

def AndDefined (predicate : String) (context : Dict) : List Expr → Prop
  | [] => True
  | e :: rest =>
    Defined predicate context e ∧
      ∀ value, eval predicate context e = .ok value → value.truthy = true → AndDefined predicate context rest

def OrDefined (predicate : String) (context : Dict) : List Expr → Prop
  | [] => True
  | e :: rest =>
    Defined predicate context e ∧
      ∀ value, eval predicate context e = .ok value → value.truthy = false → OrDefined predicate context rest

def LinksDefined (predicate : String) (context : Dict) (left : Value) : List (CmpOp × Expr) → Prop
  | [] => True
  | (op, e) :: rest =>
    Defined predicate context e ∧
      ∀ right, eval predicate context e = .ok right → op.applies left right = true ∧
        ∀ compares, comparator op = some compares → compares left right = .ok true →
          LinksDefined predicate context right rest

end

/-- A failed lookup is reported as the evaluator's own error. -/
theorem contained_subscript (predicate : String) (container key : Value) :
    Contained (match lookup container key with
      | .ok item => .ok item
      | .error (.raised _ message) =>
        .error (.predicateSyntax predicate s!"subscript lookup failed: {message}")
      | .error e => .error e) := by
  cases lookup container key with
  | ok item => exact Attempt.errorsIn_ok
  | error e => cases e <;> simp [PredicateError.Own]

mutual

/-- The evaluator keeps to its own error exactly if every operation is defined. -/
theorem contained_eval (predicate : String) (context : Dict) : (e : Expr) →
    (Contained (eval predicate context e) ↔ Defined predicate context e)
  | .constant _ => by simp [eval, Defined]
  | .name id => by
    rw [eval, Defined]
    refine iff_of_true ?_ trivial
    split
    · simp
    split
    · simp
    split
    · simp
    cases context.get? id <;> simp [PredicateError.Own]
  | .subscript container slice => by
    rw [eval, Defined, contained_bind, contained_eval predicate context container]
    refine and_congr_right fun _ => forall₂_congr fun value _ => ?_
    rw [contained_bind, contained_eval predicate context slice]
    exact and_iff_left fun key _ => contained_subscript predicate value key
  | .unary op operand => by
    rw [eval, Defined, contained_bind, contained_eval predicate context operand]
    refine and_congr_right fun _ => forall₂_congr fun value _ => ?_
    cases op with
    | not => simp [UnaryOp.applies]
    | usub => exact contained_negate value
    | uadd => exact contained_posate value
    | invert => simp [UnaryOp.applies, PredicateError.Own]
  | .and values => by
    rw [eval, Defined]
    exact contained_evalAnd predicate context (.bool true) values
  | .or values => by
    rw [eval, Defined]
    exact contained_evalOr predicate context (.bool false) values
  | .compare left rest => by
    rw [eval, Defined, contained_bind, contained_eval predicate context left]
    refine and_congr_right fun _ => forall₂_congr fun value _ => ?_
    rw [contained_map]
    exact contained_evalCompare predicate context value rest
  | .sequence elts => by
    rw [eval, Defined, contained_map]
    exact contained_evalAll predicate context elts
  | .set elts => by
    rw [eval, Defined, contained_map]
    exact contained_evalSet predicate context [] elts
  | .other _ => by simp [eval, Defined, PredicateError.Own]

theorem contained_evalAll (predicate : String) (context : Dict) : (elts : List Expr) →
    (Contained (evalAll predicate context elts) ↔ AllDefined predicate context elts)
  | [] => by simp [evalAll, AllDefined]
  | e :: rest => by
    rw [evalAll, AllDefined, contained_bind, contained_eval predicate context e]
    refine and_congr_right fun _ => forall₂_congr fun value _ => ?_
    rw [contained_bind, contained_evalAll predicate context rest]
    exact and_iff_left fun _ _ => Attempt.errorsIn_ok

theorem contained_evalSet (predicate : String) (context : Dict) (items : List Value) : (elts : List Expr) →
    (Contained (evalSet predicate context items elts) ↔ SetDefined predicate context elts)
  | [] => by simp [evalSet, SetDefined]
  | e :: rest => by
    rw [evalSet, SetDefined, contained_bind, contained_eval predicate context e]
    refine and_congr_right fun _ => forall₂_congr fun value _ => ?_
    rw [contained_bind, contained_hashed, contained_evalSet predicate context _ rest]
    unfold hashed
    cases value.hashable <;> simp

theorem contained_evalAnd (predicate : String) (context : Dict) (result : Value) : (values : List Expr) →
    (Contained (evalAnd predicate context result values) ↔ AndDefined predicate context values)
  | [] => by simp [evalAnd, AndDefined]
  | e :: rest => by
    rw [evalAnd, AndDefined, contained_bind, contained_eval predicate context e]
    refine and_congr_right fun _ => forall₂_congr fun value _ => ?_
    cases htruthy : value.truthy with
    | true => simpa [htruthy] using contained_evalAnd predicate context value rest
    | false => simp

theorem contained_evalOr (predicate : String) (context : Dict) (result : Value) : (values : List Expr) →
    (Contained (evalOr predicate context result values) ↔ OrDefined predicate context values)
  | [] => by simp [evalOr, OrDefined]
  | e :: rest => by
    rw [evalOr, OrDefined, contained_bind, contained_eval predicate context e]
    refine and_congr_right fun _ => forall₂_congr fun value _ => ?_
    cases htruthy : value.truthy with
    | true => simp
    | false => simpa [htruthy] using contained_evalOr predicate context value rest

theorem contained_evalCompare (predicate : String) (context : Dict) (left : Value) :
    (rest : List (CmpOp × Expr)) →
    (Contained (evalCompare predicate context left rest) ↔ LinksDefined predicate context left rest)
  | [] => by simp [evalCompare, LinksDefined]
  | (op, e) :: rest => by
    rw [evalCompare, LinksDefined, contained_bind, contained_eval predicate context e]
    refine and_congr_right fun _ => forall₂_congr fun right _ => ?_
    cases hop : comparator op with
    | none =>
      have happlies : op.applies left right = true := by cases op <;> first | rfl | cases hop
      simp [happlies, PredicateError.Own]
    | some compares =>
      simp only [contained_bind, contained_comparator hop, Option.some.injEq, forall_eq']
      refine and_congr_right fun _ => ?_
      constructor
      · intro h hholds
        exact (contained_evalCompare predicate context right rest).1 (by simpa using h true hholds)
      · intro h holds hholds
        cases holds with
        | true => exact (contained_evalCompare predicate context right rest).2 (h hholds)
        | false => simp

end

-- Predicate strings

/-- The text is parsed, or refused as no syntax, and its evaluation is defined. -/
structure Evaluable (parse : String → Except PredicateError Expr) (predicate : String) (context : Dict) :
    Prop where
  parses : Contained (parse predicate)
  defined : ∀ tree, parse predicate = .ok tree → Defined predicate context tree

theorem contained_evaluate (parse : String → Except PredicateError Expr) (predicate : String) (context : Dict) :
    Contained (evaluate parse predicate context) ↔ Evaluable parse predicate context := by
  rw [evaluate, contained_bind]
  simp only [contained_map, contained_eval]
  exact ⟨fun h => ⟨h.1, h.2⟩, fun h => ⟨h.parses, h.defined⟩⟩

end Predicate

end ChainWeaver
