import ChainWeaver.Value
import Mathlib.Data.List.Infix

/-!
# Branch predicates

The evaluator of `contracts.py`: a walk over the parsed expression that admits
a short list of node types. Python's own comparison, membership and truth rules
come first, on the values of the model.
-/

namespace ChainWeaver

-- Python's comparisons

namespace Value

/-- Numbers of every class compare by value; `True` is 1. -/
def number? : Value → Option PyFloat
  | .bool b => some (.finite (if b then 1 else 0))
  | .int i => some (.finite i)
  | .float f => some f
  | _ => none

end Value

namespace PyFloat

def compare : PyFloat → PyFloat → Option Ordering
  | .nan, _ => none
  | _, .nan => none
  | .finite a, .finite b => some (if a < b then .lt else if b < a then .gt else .eq)
  | .infinite, .infinite => some .eq
  | .negInfinite, .negInfinite => some .eq
  | .infinite, _ => some .gt
  | .negInfinite, _ => some .lt
  | _, .infinite => some .lt
  | _, .negInfinite => some .gt

def neg : PyFloat → PyFloat
  | .finite a => .finite (-a)
  | .infinite => .negInfinite
  | .negInfinite => .infinite
  | .nan => .nan

def isZero : PyFloat → Bool
  | .finite a => a = 0
  | _ => false

end PyFloat

namespace Value

def quote (s : String) : String :=
  let mark := if s.toList.contains '\'' && !s.toList.contains '"' then '"' else '\''
  let body := s.toList.flatMap fun c =>
    if c = '\\' || c = mark then ['\\', c]
    else if c = '\n' then ['\\', 'n']
    else if c = '\r' then ['\\', 'r']
    else if c = '\t' then ['\\', 't']
    else [c]
  String.ofList (mark :: body ++ [mark])

mutual

/-- `a == b`. -/
def equals : Value → Value → Bool
  | .null, .null => true
  | .str a, .str b => a = b
  | .list xs, .list ys => equalsAll xs ys
  | .tuple xs, .tuple ys => equalsAll xs ys
  | .set xs, .set ys => xs.length = ys.length && subset xs ys
  | .dict xs, .dict ys => xs.length = ys.length && agrees xs ys
  | .obj t r, .obj t' r' => t = t' && r = r'
  | .bool a, y => (y.number?.bind (PyFloat.compare (.finite (if a then 1 else 0)))) = some .eq
  | .int a, y => (y.number?.bind (PyFloat.compare (.finite a))) = some .eq
  | .float a, y => (y.number?.bind a.compare) = some .eq
  | _, _ => false

def equalsAll : List Value → List Value → Bool
  | [], [] => true
  | x :: xs, y :: ys => equals x y && equalsAll xs ys
  | _, _ => false

/-- Every element of the first occurs in the second. -/
def subset : List Value → List Value → Bool
  | [], _ => true
  | x :: xs, ys => ys.any (equals x) && subset xs ys

def agrees : List (String × Value) → List (String × Value) → Bool
  | [], _ => true
  | (key, x) :: xs, ys =>
    (match ys.lookup key with
      | some y => equals x y
      | none => false) && agrees xs ys

end

def truthy : Value → Bool
  | .null => false
  | .bool b => b
  | .int i => i ≠ 0
  | .float f => !f.isZero
  | .str s => s ≠ ""
  | .list items => !items.isEmpty
  | .tuple items => !items.isEmpty
  | .set items => !items.isEmpty
  | .dict entries => !entries.isEmpty
  | .obj _ _ => true

mutual

def hashable : Value → Bool
  | .list _ => false
  | .set _ => false
  | .dict _ => false
  | .tuple items => allHashable items
  | _ => true

def allHashable : List Value → Bool
  | [] => true
  | item :: items => hashable item && allHashable items

end

/-- The element whose class `hash` complains about. -/
def unhashableName : Value → String
  | .tuple items => ((items.find? fun item => !item.hashable).map typeName).getD "tuple"
  | other => other.typeName

end Value

-- Expressions

inductive UnaryOp
  | not | usub | uadd | invert
  deriving DecidableEq

inductive CmpOp
  | eq | notEq | lt | ltE | gt | gtE | isIn | notIn | is | isNot
  deriving DecidableEq

def CmpOp.symbol : CmpOp → String
  | .eq => "==" | .notEq => "!=" | .lt => "<" | .ltE => "<=" | .gt => ">" | .gtE => ">="
  | .isIn => "in" | .notIn => "not in" | .is => "is" | .isNot => "is not"

/-- The tree `ast.parse` gives for an expression. A node the evaluator rejects
is known by the name of its type. -/
inductive Expr
  | constant (value : Value)
  | name (id : String)
  | subscript (value slice : Expr)
  | unary (op : UnaryOp) (operand : Expr)
  | and (values : List Expr)
  | or (values : List Expr)
  | compare (left : Expr) (rest : List (CmpOp × Expr))
  | sequence (elts : List Expr)
  | set (elts : List Expr)
  | other (nodeType : String)

/-- What an evaluation may raise: the evaluator's own error, or whatever an
operation of Python raises and the evaluator lets through. -/
inductive PredicateError
  | predicateSyntax (predicate detail : String)
  | raised (typeName message : String)
  deriving DecidableEq

namespace Predicate

open Value (equals)

def typeError (message : String) : Except PredicateError α := .error (.raised "TypeError" message)

def hashed (value : Value) : Except PredicateError Unit :=
  if value.hashable then .ok () else typeError s!"unhashable type: '{value.unhashableName}'"

mutual

/-- `a op b` for the four orderings, `want` being the outcomes that satisfy it. -/
def order (symbol : String) (want : Ordering → Bool) : Value → Value → Except PredicateError Bool
  | .str a, .str b => .ok (want (if a < b then .lt else if b < a then .gt else .eq))
  | .list xs, .list ys => orderAll symbol want xs ys
  | .tuple xs, .tuple ys => orderAll symbol want xs ys
  | .set xs, .set ys =>
    -- Sets are ordered by inclusion, so two sets may be unrelated.
    let left := Value.subset xs ys
    let right := Value.subset ys xs
    .ok ((left && right && want .eq) || (left && !right && want .lt) || (!left && right && want .gt))
  | a, b =>
    match a.number?, b.number? with
    | some x, some y => .ok ((x.compare y).any want)
    | _, _ => typeError
        s!"'{symbol}' not supported between instances of '{a.typeName}' and '{b.typeName}'"

/-- Sequences are ordered by their first elements that differ. -/
def orderAll (symbol : String) (want : Ordering → Bool) :
    List Value → List Value → Except PredicateError Bool
  | [], [] => .ok (want .eq)
  | [], _ :: _ => .ok (want .lt)
  | _ :: _, [] => .ok (want .gt)
  | x :: xs, y :: ys => if equals x y then orderAll symbol want xs ys else order symbol want x y

end

/-- `a in b`. -/
def isIn (a : Value) : Value → Except PredicateError Bool
  | .str s =>
    match a with
    | .str part => .ok (part.toList <:+: s.toList)
    | _ => typeError s!"'in <string>' requires string as left operand, not {a.typeName}"
  | .list items => .ok (items.any fun item => equals item a)
  | .tuple items => .ok (items.any fun item => equals item a)
  | .set items => do
    -- A set that is looked for in a set is taken as a frozen one.
    match a with
    | .set _ => .ok ()
    | _ => hashed a
    .ok (items.any fun item => equals item a)
  | .dict entries => do
    hashed a
    .ok (entries.any fun entry => equals (.str entry.1) a)
  | b => typeError s!"argument of type '{b.typeName}' is not iterable"

def comparator : CmpOp → Option (Value → Value → Except PredicateError Bool)
  | .eq => some fun a b => .ok (equals a b)
  | .notEq => some fun a b => .ok (!equals a b)
  | .lt => some (order "<" (· == .lt))
  | .ltE => some (order "<=" (· != .gt))
  | .gt => some (order ">" (· == .gt))
  | .gtE => some (order ">=" (· != .lt))
  | .isIn => some isIn
  | .notIn => some fun a b => (isIn a b).map not
  | .is => none
  | .isNot => none

def CmpOp.nodeType : CmpOp → String
  | .is => "Is"
  | .isNot => "IsNot"
  | op => op.symbol

/-- `container[key]` for a sequence; an index counts from the end when negative. -/
def itemAt (kind : String) (items : List Value) (key : Value) : Except PredicateError Value :=
  let position : Option Int :=
    match key with
    | .int i => some i
    | .bool b => some (if b then 1 else 0)
    | _ => none
  match position with
  | none => typeError s!"{kind} indices must be integers or slices, not {key.typeName}"
  | some i =>
    let index := if i < 0 then i + items.length else i
    if index < 0 then .error (.raised "IndexError" s!"{kind} index out of range")
    else
      match items[index.toNat]? with
      | some item => .ok item
      | none => .error (.raised "IndexError" s!"{kind} index out of range")

def lookup (container key : Value) : Except PredicateError Value :=
  match container with
  | .list items => itemAt "list" items key
  | .tuple items => itemAt "tuple" items key
  | .str s => itemAt "string" (s.toList.map fun c => .str (String.ofList [c])) key
  | .dict entries => do
    hashed key
    match entries.find? fun entry => equals (.str entry.1) key with
    | some entry => .ok entry.2
    | none =>
      let shown := match key with
        | .str s => Value.quote s
        | .int i => toString i
        | other => s!"<{other.typeName}>"
      .error (.raised "KeyError" shown)
  | other => typeError s!"'{other.typeName}' object is not subscriptable"

def negate : Value → Except PredicateError Value
  | .bool b => .ok (.int (if b then -1 else 0))
  | .int i => .ok (.int (-i))
  | .float f => .ok (.float f.neg)
  | other => typeError s!"bad operand type for unary -: '{other.typeName}'"

def posate : Value → Except PredicateError Value
  | .bool b => .ok (.int (if b then 1 else 0))
  | .int i => .ok (.int i)
  | .float f => .ok (.float f)
  | other => typeError s!"bad operand type for unary +: '{other.typeName}'"

/-- The elements of a set stand in the order they first occur. -/
def addItem (items : List Value) (item : Value) : List Value :=
  if items.any fun seen => equals seen item then items else items ++ [item]

mutual

def eval (predicate : String) (context : Dict) : Expr → Except PredicateError Value
  | .constant value => .ok value
  | .name id =>
    -- The names `True`, `False` and `None` win over a context key of that name.
    if id = "True" then .ok (.bool true)
    else if id = "False" then .ok (.bool false)
    else if id = "None" then .ok .null
    else
      match context.get? id with
      | some value => .ok value
      | none => .error (.predicateSyntax predicate s!"name '{id}' is not in the execution context.")
  | .subscript value slice => do
    let container ← eval predicate context value
    let key ← eval predicate context slice
    match lookup container key with
    | .ok item => .ok item
    | .error (.raised _ message) =>
      .error (.predicateSyntax predicate s!"subscript lookup failed: {message}")
    | .error e => .error e
  | .unary op operand => do
    let value ← eval predicate context operand
    match op with
    | .not => .ok (.bool !value.truthy)
    | .usub => negate value
    | .uadd => posate value
    | .invert => .error (.predicateSyntax predicate "unsupported unary op 'Invert'.")
  | .and values => evalAnd predicate context (.bool true) values
  | .or values => evalOr predicate context (.bool false) values
  | .compare left rest => do
    let value ← eval predicate context left
    (evalCompare predicate context value rest).map .bool
  | .sequence elts => (evalAll predicate context elts).map .list
  | .set elts => (evalSet predicate context [] elts).map .set
  | .other nodeType =>
    .error (.predicateSyntax predicate s!"unsupported expression node '{nodeType}'.")

def evalAll (predicate : String) (context : Dict) : List Expr → Except PredicateError (List Value)
  | [] => .ok []
  | elt :: elts => do
    let item ← eval predicate context elt
    let items ← evalAll predicate context elts
    .ok (item :: items)

/-- The comprehension adds each element before it evaluates the next one. -/
def evalSet (predicate : String) (context : Dict) (items : List Value) :
    List Expr → Except PredicateError (List Value)
  | [] => .ok items
  | elt :: elts => do
    let item ← eval predicate context elt
    hashed item
    evalSet predicate context (addItem items item) elts

/-- Stops at the first operand that is false. -/
def evalAnd (predicate : String) (context : Dict) (result : Value) :
    List Expr → Except PredicateError Value
  | [] => .ok result
  | value :: values => do
    let result ← eval predicate context value
    if result.truthy then evalAnd predicate context result values else .ok result

/-- Stops at the first operand that is true. -/
def evalOr (predicate : String) (context : Dict) (result : Value) :
    List Expr → Except PredicateError Value
  | [] => .ok result
  | value :: values => do
    let result ← eval predicate context value
    if result.truthy then .ok result else evalOr predicate context result values

/-- A chain `left op₁ e₁ op₂ e₂ …` stops at the first link that does not hold. -/
def evalCompare (predicate : String) (context : Dict) (left : Value) :
    List (CmpOp × Expr) → Except PredicateError Bool
  | [] => .ok true
  | (op, expr) :: rest => do
    let right ← eval predicate context expr
    match comparator op with
    | none =>
      .error (.predicateSyntax predicate s!"unsupported comparison operator '{CmpOp.nodeType op}'.")
    | some compares =>
      if ← compares left right then evalCompare predicate context right rest else .ok false

end

/-- `evaluate_predicate`, given what `ast.parse` makes of the text. -/
def evaluate (parse : String → Except PredicateError Expr) (predicate : String) (context : Dict) :
    Except PredicateError Bool := do
  let tree ← parse predicate
  (eval predicate context tree).map Value.truthy

example : (eval "p" (.ofList [("n", .int 3)]) (.compare (.constant (.int 1))
    [(.lt, .name "n"), (.ltE, .constant (.float (.finite 3)))])).toOption.map Value.truthy =
    some true := by decide

end Predicate

end ChainWeaver
