import ChainWeaver.Data.OrderedDict
import Mathlib.Data.Rat.Defs

/-!
# Values

The Python values that flow between steps, and the JSON pointers that address
their parts (`_pointer.py`).
-/

namespace ChainWeaver

/-- A float by its exact value. Nothing in the executor rounds: floats are only
passed on, negated and compared. -/
inductive PyFloat
  | finite (value : Rat)
  | infinite
  | negInfinite
  | nan
  deriving DecidableEq

inductive Value
  /-- `None`. -/
  | null
  | bool (b : Bool)
  | int (i : Int)
  | float (f : PyFloat)
  | str (s : String)
  | list (items : List Value)
  | tuple (items : List Value)
  | set (items : List Value)
  | dict (entries : List (String × Value))
  /-- Any other object, known by its class and its `repr` only. -/
  | obj (typeName : String) (repr : String)

instance : Inhabited Value := ⟨.null⟩

abbrev Dict := OrderedDict Value

namespace Value

def typeName : Value → String
  | .null => "NoneType"
  | .bool _ => "bool"
  | .int _ => "int"
  | .float _ => "float"
  | .str _ => "str"
  | .list _ => "list"
  | .tuple _ => "tuple"
  | .set _ => "set"
  | .dict _ => "dict"
  | .obj name _ => name

end Value

namespace Pointer

-- `int(token)`

/-- The code points of the digit zero in each script with decimal digits; the
digits one to nine follow it. -/
def decimalZeros : List Nat :=
  [0x30, 0x660, 0x6f0, 0x7c0, 0x966, 0x9e6, 0xa66, 0xae6, 0xb66, 0xbe6, 0xc66, 0xce6, 0xd66, 0xde6,
   0xe50, 0xed0, 0xf20, 0x1040, 0x1090, 0x17e0, 0x1810, 0x1946, 0x19d0, 0x1a80, 0x1a90, 0x1b50,
   0x1bb0, 0x1c40, 0x1c50, 0xa620, 0xa8d0, 0xa900, 0xa9d0, 0xa9f0, 0xaa50, 0xabf0, 0xff10, 0x104a0,
   0x10d30, 0x11066, 0x110f0, 0x11136, 0x111d0, 0x112f0, 0x11450, 0x114d0, 0x11650, 0x116c0,
   0x11730, 0x118e0, 0x11950, 0x11c50, 0x11d50, 0x11da0, 0x16a60, 0x16ac0, 0x16b50, 0x1d7ce,
   0x1d7d8, 0x1d7e2, 0x1d7ec, 0x1d7f6, 0x1e140, 0x1e2f0, 0x1e950, 0x1fbf0]

def isSpace (c : Char) : Bool :=
  [0x9, 0xa, 0xb, 0xc, 0xd, 0x1c, 0x1d, 0x1e, 0x1f, 0x20, 0x85, 0xa0, 0x1680, 0x2000, 0x2001, 0x2002,
   0x2003, 0x2004, 0x2005, 0x2006, 0x2007, 0x2008, 0x2009, 0x200a, 0x2028, 0x2029, 0x202f, 0x205f,
   0x3000].contains c.toNat

def digit? (c : Char) : Option Nat :=
  (decimalZeros.find? fun start => start ≤ c.toNat && c.toNat ≤ start + 9).map (c.toNat - ·)

/-- Digits with single underscores between them, after the value `acc` read so
far; `afterDigit` says whether an underscore may come next. -/
def digits (acc : Nat) (afterDigit : Bool) : List Char → Option Nat
  | [] => if afterDigit then some acc else none
  | c :: rest =>
    if c = '_' then if afterDigit then digits acc false rest else none
    else (digit? c).bind fun d => digits (10 * acc + d) true rest

/-- `int(token)`, `none` where it raises `ValueError`. -/
def parseInt (token : String) : Option Int :=
  let trimmed := (((token.toList.dropWhile isSpace).reverse).dropWhile isSpace).reverse
  match trimmed with
  | '-' :: rest => (digits 0 false rest).map fun n => -(n : Int)
  | '+' :: rest => (digits 0 false rest).map Int.ofNat
  | rest => (digits 0 false rest).map Int.ofNat

-- Pointers

def isPointer (source : String) : Bool := source.toList.head? = some '/'

structure PointerResolutionError where
  pointer : String
  failedAt : String
  detail : String

/-- `token.replace("~1", "/").replace("~0", "~")`: the second pass runs over the
result of the first. -/
def unescape (token : List Char) : List Char :=
  replace '0' '~' (replace '1' '/' token)
where
  replace (code into : Char) : List Char → List Char
    | '~' :: c :: rest => if c = code then into :: replace code into rest else '~' :: replace code into (c :: rest)
    | c :: rest => c :: replace code into rest
    | [] => []

def parsePointer (pointer : String) : Except PointerResolutionError (List String) :=
  match pointer.toList with
  | [] => .ok []
  | '/' :: rest => .ok ((rest.splitOn '/').map fun token => String.ofList (unescape token))
  | _ => .error ⟨pointer, pointer, s!"JSON pointer '{pointer}' must start with '/' (RFC 6901)"⟩

def pathOf (tokens : List String) : String := "/" ++ "/".intercalate tokens

/-- The part of `current` that `rest` addresses, `before` being the tokens
already followed. -/
def follow (pointer : String) (before : List String) (current : Value) :
    List String → Except PointerResolutionError Value
  | [] => .ok current
  | token :: rest =>
    let path := pathOf (before ++ [token])
    match current with
    | .dict entries =>
      match entries.lookup token with
      | none => .error ⟨pointer, path, s!"JSON pointer '{path}' not found"⟩
      | some value => follow pointer (before ++ [token]) value rest
    | .list items =>
      match parseInt token with
      | none => .error ⟨pointer, path,
          s!"JSON pointer '{path}' addresses a list but token '{token}' is not an integer"⟩
      | some position =>
        if position < 0 then
          .error ⟨pointer, path, s!"JSON pointer '{path}' out of range for list of length {items.length}"⟩
        else
          match items[position.toNat]? with
          | none => .error ⟨pointer, path,
              s!"JSON pointer '{path}' out of range for list of length {items.length}"⟩
          | some value => follow pointer (before ++ [token]) value rest
    | other => .error ⟨pointer, path, s!"JSON pointer '{path}' cannot descend into {other.typeName}"⟩

def resolvePointer (data : Value) (pointer : String) : Except PointerResolutionError Value := do
  follow pointer [] data (← parsePointer pointer)

example : (resolvePointer (.dict [("a/b", .list [.int 7, .int 8])]) "/a~1b/+1").isOk = true := by
  decide

end Pointer

end ChainWeaver
