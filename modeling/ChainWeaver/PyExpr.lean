import ChainWeaver.Predicate

/-!
# Predicates as Python reads them

The expressions that the evaluator admits, with Python's own evaluation of them. The
evaluator gives a tuple display the value of a list display, and is otherwise
Python's evaluation.
-/

namespace ChainWeaver.Predicate

open Value (equals)

-- The grammar

inductive Sign
  | not | usub | uadd
  deriving DecidableEq

inductive Comparison
  | eq | notEq | lt | ltE | gt | gtE | isIn | notIn
  deriving DecidableEq

/-- `True`, `False` and `None` are constants, no names; so is `__debug__`. -/
abbrev Identifier (id : String) : Prop := id ≠ "True" ∧ id ≠ "False" ∧ id ≠ "None" ∧ id ≠ "__debug__"

inductive PyExpr
  | constant (value : Value)
  | name (id : String) (identifier : Identifier id)
  | subscript (value slice : PyExpr)
  | unary (op : Sign) (operand : PyExpr)
  | and (values : List PyExpr)
  | or (values : List PyExpr)
  | compare (left : PyExpr) (rest : List (Comparison × PyExpr))
  | tuple (elts : List PyExpr)
  | list (elts : List PyExpr)
  | set (elts : List PyExpr)

def Sign.node : Sign → UnaryOp
  | .not => .not | .usub => .usub | .uadd => .uadd

def Comparison.node : Comparison → CmpOp
  | .eq => .eq | .notEq => .notEq | .lt => .lt | .ltE => .ltE | .gt => .gt | .gtE => .gtE
  | .isIn => .isIn | .notIn => .notIn

namespace PyExpr

mutual

/-- The expression as the evaluator reads its nodes: it has one branch for tuple and
list displays. -/
def tree : PyExpr → Expr
  | .constant value => .constant value
  | .name id _ => .name id
  | .subscript value slice => .subscript value.tree slice.tree
  | .unary op operand => .unary op.node operand.tree
  | .and values => .and (trees values)
  | .or values => .or (trees values)
  | .compare left rest => .compare left.tree (links rest)
  | .tuple elts => .sequence (trees elts)
  | .list elts => .sequence (trees elts)
  | .set elts => .set (trees elts)

def trees : List PyExpr → List Expr
  | [] => []
  | e :: rest => e.tree :: trees rest

def links : List (Comparison × PyExpr) → List (CmpOp × Expr)
  | [] => []
  | (op, e) :: rest => (op.node, e.tree) :: links rest

end

mutual

/-- The expression with every tuple display written as a list display. -/
def listed : PyExpr → PyExpr
  | .constant value => .constant value
  | .name id identifier => .name id identifier
  | .subscript value slice => .subscript value.listed slice.listed
  | .unary op operand => .unary op operand.listed
  | .and values => .and (listedAll values)
  | .or values => .or (listedAll values)
  | .compare left rest => .compare left.listed (listedLinks rest)
  | .tuple elts => .list (listedAll elts)
  | .list elts => .list (listedAll elts)
  | .set elts => .set (listedAll elts)

def listedAll : List PyExpr → List PyExpr
  | [] => []
  | e :: rest => e.listed :: listedAll rest

def listedLinks : List (Comparison × PyExpr) → List (Comparison × PyExpr)
  | [] => []
  | (op, e) :: rest => (op, e.listed) :: listedLinks rest

end

end PyExpr

-- Python's evaluation

/-- `a op b`. -/
def Comparison.apply : Comparison → Value → Value → Except PredicateError Bool
  | .eq, a, b => .ok (equals a b)
  | .notEq, a, b => .ok (!equals a b)
  | .lt, a, b => order "<" (· == .lt) a b
  | .ltE, a, b => order "<=" (· != .gt) a b
  | .gt, a, b => order ">" (· == .gt) a b
  | .gtE, a, b => order ">=" (· != .lt) a b
  | .isIn, a, b => Predicate.isIn a b
  | .notIn, a, b => (Predicate.isIn a b).map not

def Sign.apply : Sign → Value → Except PredicateError Value
  | .not, value => .ok (.bool !value.truthy)
  | .usub, value => negate value
  | .uadd, value => posate value

namespace PyExpr

mutual

/-- The value of an expression with the context for its names. -/
def value (context : Dict) : PyExpr → Except PredicateError Value
  | .constant value => .ok value
  | .name id _ =>
    match context.get? id with
    | some value => .ok value
    | none => .error (.raised "NameError" s!"name '{id}' is not defined")
  | .subscript container slice => do
    let container ← container.value context
    let key ← slice.value context
    lookup container key
  | .unary op operand => do op.apply (← operand.value context)
  | .and values => conjunction context (.bool true) values
  | .or values => disjunction context (.bool false) values
  | .compare left rest => do chain context (← left.value context) rest
  | .tuple elts => do pure (.tuple (← values context elts))
  | .list elts => do pure (.list (← values context elts))
  | .set elts => do
    let items ← values context elts
    items.forM hashed
    pure (.set (items.foldl addItem []))

def values (context : Dict) : List PyExpr → Except PredicateError (List Value)
  | [] => .ok []
  | e :: rest => do pure ((← e.value context) :: (← values context rest))

/-- The first operand that is false, or the last one. -/
def conjunction (context : Dict) (last : Value) : List PyExpr → Except PredicateError Value
  | [] => .ok last
  | e :: rest => do
    let value ← e.value context
    if value.truthy then conjunction context value rest else pure value

/-- The first operand that is true, or the last one. -/
def disjunction (context : Dict) (last : Value) : List PyExpr → Except PredicateError Value
  | [] => .ok last
  | e :: rest => do
    let value ← e.value context
    if value.truthy then pure value else disjunction context value rest

/-- `a op₁ e₁ op₂ e₂ …` is `a op₁ e₁ and e₁ op₂ e₂ and …`, with each operand evaluated
once. -/
def chain (context : Dict) (left : Value) : List (Comparison × PyExpr) → Except PredicateError Value
  | [] => .ok (.bool true)
  | (op, e) :: rest => do
    let right ← e.value context
    if ← op.apply left right then chain context right rest else pure (.bool false)

end

end PyExpr

-- The evaluator

theorem toOption_bind {x : Except ε α} {f : α → Except ε β} :
    (x >>= f).toOption = x.toOption.bind fun value => (f value).toOption := by
  cases x <;> rfl

theorem toOption_map {x : Except ε α} {f : α → β} : (x.map f).toOption = x.toOption.map f := by
  cases x <;> rfl

theorem toOption_eq_some {x : Except ε α} {value : α} : x.toOption = some value ↔ x = .ok value := by
  cases x <;> simp [Except.toOption]

theorem comparator_node (op : Comparison) : comparator op.node = some op.apply := by
  cases op <;> rfl

/-- A comprehension that adds the elements one by one ends with the set of them all. -/
theorem evalSet_toOption (predicate : String) (context : Dict) (elts : List Expr) (items : List Value) :
    (evalSet predicate context items elts).toOption =
      (evalAll predicate context elts).toOption.bind fun values =>
        if values.all (·.hashable) then some (values.foldl addItem items) else none := by
  induction elts generalizing items with
  | nil => simp [evalSet, evalAll, Except.toOption]
  | cons elt rest ih =>
    rw [evalSet, evalAll]
    simp only [toOption_bind]
    cases (eval predicate context elt).toOption with
    | none => rfl
    | some item =>
      simp only [Option.bind_some, ih, hashed]
      cases hhashable : item.hashable with
      | true =>
        cases (evalAll predicate context rest).toOption with
        | none => rfl
        | some values => simp [Except.toOption, hhashable]
      | false =>
        cases (evalAll predicate context rest).toOption with
        | none => rfl
        | some values => simp [Except.toOption, typeError, hhashable]

theorem forM_hashed (items : List Value) :
    (items.forM hashed).toOption = if items.all (·.hashable) then some () else none := by
  induction items with
  | nil => rfl
  | cons item rest ih =>
    change (hashed item >>= fun _ => rest.forM hashed).toOption = _
    rw [toOption_bind, ih, hashed]
    cases hhashable : item.hashable <;> simp [Except.toOption, typeError, hhashable]

namespace PyExpr

mutual

/-- The evaluator gives an expression the value that Python gives it with its tuple
displays written as list displays. -/
theorem eval_tree (predicate : String) (context : Dict) : (e : PyExpr) →
    (eval predicate context e.tree).toOption = (e.listed.value context).toOption
  | .constant _ => by rw [tree, listed, eval, value]
  | .name id hid => by
    rw [tree, listed, eval, value, if_neg hid.1, if_neg hid.2.1, if_neg hid.2.2.1]
    cases context.get? id <;> rfl
  | .subscript container slice => by
    rw [tree, listed, eval, value]
    simp only [toOption_bind, eval_tree predicate context container, eval_tree predicate context slice]
    congr 1
    funext container
    congr 1
    funext key
    cases lookup container key with
    | ok item => rfl
    | error e => cases e <;> rfl
  | .unary op operand => by
    rw [tree, listed, eval, value]
    simp only [toOption_bind, eval_tree predicate context operand]
    congr 1
    funext value
    cases op <;> rfl
  | .and values => by rw [tree, listed, eval, value, evalAnd_trees]
  | .or values => by rw [tree, listed, eval, value, evalOr_trees]
  | .compare left rest => by
    rw [tree, listed, eval, value]
    simp only [toOption_bind, toOption_map, eval_tree predicate context left, evalCompare_links]
  | .tuple elts => by
    rw [tree, listed, eval, value, toOption_map, evalAll_trees, toOption_bind]
    cases (values context (listedAll elts)).toOption <;> rfl
  | .list elts => by
    rw [tree, listed, eval, value, toOption_map, evalAll_trees, toOption_bind]
    cases (values context (listedAll elts)).toOption <;> rfl
  | .set elts => by
    rw [tree, listed, eval, value, toOption_map, evalSet_toOption, evalAll_trees]
    simp only [toOption_bind, forM_hashed]
    cases (values context (listedAll elts)).toOption with
    | none => rfl
    | some items =>
      simp only [Option.bind_some]
      split <;> rfl

theorem evalAll_trees (predicate : String) (context : Dict) : (elts : List PyExpr) →
    (evalAll predicate context (trees elts)).toOption = (values context (listedAll elts)).toOption
  | [] => by rw [trees, listedAll, evalAll, values]
  | e :: rest => by
    rw [trees, listedAll, evalAll, values]
    simp only [toOption_bind, eval_tree predicate context e, evalAll_trees predicate context rest]
    rfl

theorem evalAnd_trees (predicate : String) (context : Dict) (last : Value) : (operands : List PyExpr) →
    (evalAnd predicate context last (trees operands)).toOption =
      (conjunction context last (listedAll operands)).toOption
  | [] => by rw [trees, listedAll, evalAnd, conjunction]
  | e :: rest => by
    rw [trees, listedAll, evalAnd, conjunction]
    simp only [toOption_bind, eval_tree predicate context e]
    congr 1
    funext value
    split
    · exact evalAnd_trees predicate context value rest
    · rfl

theorem evalOr_trees (predicate : String) (context : Dict) (last : Value) : (operands : List PyExpr) →
    (evalOr predicate context last (trees operands)).toOption =
      (disjunction context last (listedAll operands)).toOption
  | [] => by rw [trees, listedAll, evalOr, disjunction]
  | e :: rest => by
    rw [trees, listedAll, evalOr, disjunction]
    simp only [toOption_bind, eval_tree predicate context e]
    congr 1
    funext value
    split
    · rfl
    · exact evalOr_trees predicate context value rest

theorem evalCompare_links (predicate : String) (context : Dict) (left : Value) :
    (rest : List (Comparison × PyExpr)) →
    (evalCompare predicate context left (links rest)).toOption.map Value.bool =
      (chain context left (listedLinks rest)).toOption
  | [] => by
    rw [links, listedLinks, evalCompare, chain]
    rfl
  | (op, e) :: rest => by
    rw [links, listedLinks, evalCompare, chain, comparator_node]
    simp only [toOption_bind, eval_tree predicate context e]
    cases (e.listed.value context).toOption with
    | none => rfl
    | some right =>
      simp only [Option.bind_some]
      cases (op.apply left right).toOption with
      | none => rfl
      | some holds =>
        cases holds with
        | true => exact evalCompare_links predicate context right rest
        | false => rfl

end

-- Agreement

/-- Where Python and the evaluator both come to a value, it has the same truth. -/
def Agrees (e : PyExpr) (predicate : String) (context : Dict) : Prop :=
  ∀ value holds, e.value context = .ok value →
    evaluate (fun _ => .ok e.tree) predicate context = .ok holds → holds = value.truthy

theorem evaluate_eq_ok {e : PyExpr} {predicate : String} {context : Dict} {holds : Bool} :
    evaluate (fun _ => .ok e.tree) predicate context = .ok holds ↔
      ∃ value, e.listed.value context = .ok value ∧ value.truthy = holds := by
  have htree : ∀ value, eval predicate context e.tree = .ok value ↔ e.listed.value context = .ok value := by
    intro value
    rw [← toOption_eq_some, eval_tree, toOption_eq_some]
  change (eval predicate context e.tree).map Value.truthy = .ok holds ↔ _
  simp only [← htree]
  cases eval predicate context e.tree <;> simp [Except.map]

/-- The evaluator agrees with Python exactly if Python does not tell the tuple displays
of the expression from list displays. -/
theorem agrees_iff_listed (e : PyExpr) (predicate : String) (context : Dict) :
    e.Agrees predicate context ↔
      ∀ value value', e.value context = .ok value → e.listed.value context = .ok value' →
        value'.truthy = value.truthy := by
  constructor
  · intro h value value' hvalue hlisted
    exact h value _ hvalue (evaluate_eq_ok.2 ⟨value', hlisted, rfl⟩)
  · intro h value holds hvalue hevaluate
    obtain ⟨value', hlisted, rfl⟩ := evaluate_eq_ok.1 hevaluate
    exact h value value' hvalue hlisted

/-- A tuple that is compared with a tuple display. -/
def comparesTuple : PyExpr :=
  .compare (.name "pair" (by decide)) [(.eq, .tuple [.constant (.int 1), .constant (.int 2)])]

theorem tuple_display_unequal :
    ¬ comparesTuple.Agrees "pair == (1, 2)" (.ofList [("pair", .tuple [.int 1, .int 2])]) := by
  intro h
  have hvalue : (comparesTuple.value (.ofList [("pair", .tuple [.int 1, .int 2])])).toOption.map Value.truthy =
      some true := by decide +kernel
  have hevaluate : (evaluate (fun _ => .ok comparesTuple.tree) "pair == (1, 2)"
      (.ofList [("pair", .tuple [.int 1, .int 2])])).toOption = some false := by decide +kernel
  obtain ⟨value, hvalue, htrue⟩ := Option.map_eq_some_iff.1 hvalue
  have hfalse := h value false (toOption_eq_some.1 hvalue) (toOption_eq_some.1 hevaluate)
  rw [htrue] at hfalse
  cases hfalse

end PyExpr

end ChainWeaver.Predicate
