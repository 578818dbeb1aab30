import ChainWeaver.Value

/-!
# `json_pluck` and `json_set`

The pointer tools of `contrib/tools.py`. `json_set` copies the containers on its way
and shares the others, so its model keeps containers in a memory of cells, as the
interpreter does.
-/

namespace ChainWeaver

def Value.isContainer : Value → Bool
  | .dict _ | .list _ => true
  | _ => false

abbrev Scalar := { value : Value // value.isContainer = false }

structure ContribError where
  toolName : String
  detail : String

/-- What a variable or a container refers to. -/
inductive Ref
  | scalar (value : Scalar)
  | cell (address : Nat)

inductive Cell
  | dict (entries : List (String × Ref))
  | list (items : List Ref)

/-- The containers by their addresses. A new one goes to the end. -/
abbrev Memory := List Cell

namespace Contrib

def cellAt (memory : Memory) (address : Nat) : Cell := memory.getD address (.dict [])

/-- `_pointer_get`. -/
def pointerGet (data : Value) (pointer toolName : String) : Except ContribError Value :=
  match Pointer.resolvePointer data pointer with
  | .ok value => .ok value
  | .error e => .error ⟨toolName, e.detail⟩

def jsonPluck (data : Value) (pointer : String) : Except ContribError Value := pointerGet data pointer "json_pluck"

-- `_pointer_set`

def listPosition (toolName token : String) (length : Nat) : Except ContribError Nat :=
  match Pointer.parseInt token with
  | none => .error ⟨toolName, s!"List index '{token}' is not an integer"⟩
  | some position =>
    if position < 0 ∨ position ≥ length then
      .error ⟨toolName, s!"List index {position} out of range for length {length}"⟩
    else .ok position.toNat

/-- A shallow copy of a container; a scalar is not copied. -/
def copyRef (memory : Memory) : Ref → Memory × Ref
  | .cell address => (memory ++ [cellAt memory address], .cell memory.length)
  | .scalar value => (memory, .scalar value)

/-- The copy of a dict's child, an empty dict in the place of anything that is no
container. -/
def copyChild (memory : Memory) : Option Ref → Memory × Ref
  | some (.cell address) => copyRef memory (.cell address)
  | _ => (memory ++ [.dict []], .cell memory.length)

/-- One round of the loop over `tokens[:-1]`: the new `current`. -/
def descend (toolName pointer : String) (memory : Memory) (current : Ref) (token : String) :
    Memory × Except ContribError Ref :=
  match current with
  | .scalar value =>
    (memory, .error ⟨toolName, s!"Cannot descend into {value.1.typeName} while setting '{pointer}'"⟩)
  | .cell address =>
    match cellAt memory address with
    | .dict entries =>
      let (memory, child) := copyChild memory (entries.lookup token)
      (memory.set address (.dict (OrderedDict.put token child entries)), .ok child)
    | .list items =>
      match listPosition toolName token items.length with
      | .error e => (memory, .error e)
      | .ok position =>
        let (memory, entry) := copyRef memory (items.getD position (.cell 0))
        (memory.set address (.list (items.set position entry)), .ok entry)

/-- The write of the last token. -/
def assign (toolName : String) (memory : Memory) (current : Ref) (last : String) (value : Ref) :
    Memory × Except ContribError Unit :=
  match current with
  | .scalar scalar => (memory, .error ⟨toolName, s!"Cannot set final token '{last}' on {scalar.1.typeName}"⟩)
  | .cell address =>
    match cellAt memory address with
    | .dict entries => (memory.set address (.dict (OrderedDict.put last value entries)), .ok ())
    | .list items =>
      match listPosition toolName last items.length with
      | .error e => (memory, .error e)
      | .ok position => (memory.set address (.list (items.set position value)), .ok ())

def setTokens (toolName pointer : String) (memory : Memory) (current : Ref) (token : String) (rest : List String)
    (value : Ref) : Memory × Except ContribError Unit :=
  match rest with
  | [] => assign toolName memory current token value
  | next :: rest =>
    match descend toolName pointer memory current token with
    | (memory, .error e) => (memory, .error e)
    | (memory, .ok child) => setTokens toolName pointer memory child next rest value

/-- `_pointer_set` on the dict at `data`. The memory is what a failing call leaves as
well. -/
def pointerSet (memory : Memory) (data : Nat) (pointer : String) (value : Ref) (toolName : String) :
    Memory × Except ContribError Ref :=
  match Pointer.parsePointer pointer with
  | .error e => (memory, .error ⟨toolName, e.detail⟩)
  | .ok [] => (memory, .error ⟨toolName, "JSON pointer '' (root) cannot be set; use a top-level key"⟩)
  | .ok (token :: rest) =>
    let root := memory.length
    match setTokens toolName pointer (memory ++ [cellAt memory data]) (.cell root) token rest value with
    | (memory, .error e) => (memory, .error e)
    | (memory, .ok ()) => (memory, .ok (.cell root))

def jsonSet (memory : Memory) (data : Nat) (pointer : String) (value : Ref) : Memory × Except ContribError Ref :=
  pointerSet memory data pointer value "json_set"

end Contrib

end ChainWeaver
