import ChainWeaver.Data.Machine
import ChainWeaver.Serialization
import Mathlib.Data.List.AList
import Mathlib.Data.List.Sort

/-!
# Flow stores

`storage.py`: the store in memory and the store of one JSON file a flow, as
machines that answer the operations of the protocol.
-/

namespace ChainWeaver

structure FlowKey where
  name : String
  version : String
deriving DecidableEq

namespace FlowKey

/-- How Python compares the two tuples. -/
def Le (a b : FlowKey) : Prop := a.name < b.name ∨ a.name = b.name ∧ a.version ≤ b.version

instance : DecidableRel Le := fun _ _ => inferInstanceAs (Decidable (_ ∨ _))

end FlowKey

def FullFlow.key (flow : FullFlow) : FlowKey := ⟨flow.name, flow.version⟩

-- Operations

inductive FlowStoreOp
  | saveFlow (flow : FullFlow) (overwrite : Bool)
  | loadFlow (key : FlowKey)
  | hasFlow (key : FlowKey)
  | listKeys
  | deleteFlow (key : FlowKey)

inductive FlowStoreError
  | flowAlreadyExists (name : String)
  | flowNotFound (name version : String)
  | flowSerialization (detail : String) (source : Option String)
  /-- The encoder has no form for a value. -/
  | unserializable
  /-- The file system refuses the file. -/
  | os

inductive FlowStoreAnswer
  | done
  | flow (flow : FullFlow)
  | has (stored : Bool)
  | keys (keys : List FlowKey)
  | raised (error : FlowStoreError)

namespace FlowStoreAnswer

def ofExcept (answer : α → FlowStoreAnswer) : Except FlowStoreError α → FlowStoreAnswer
  | .ok result => answer result
  | .error error => .raised error

/-- The answer to a change and the state after it. -/
def changed (state : σ) : Except FlowStoreError σ → FlowStoreAnswer × σ
  | .ok state => (.done, state)
  | .error error => (.raised error, state)

end FlowStoreAnswer

-- The store in memory

namespace InMemoryStore

abbrev Flows := AList fun _ : FlowKey => FullFlow

def saveFlow (flows : Flows) (flow : FullFlow) (overwrite : Bool) : Except FlowStoreError Flows :=
  if flow.key ∈ flows ∧ overwrite = false then .error (.flowAlreadyExists flow.name)
  else .ok (flows.insert flow.key flow)

def loadFlow (flows : Flows) (key : FlowKey) : Except FlowStoreError FullFlow :=
  match flows.lookup key with
  | some flow => .ok flow
  | none => .error (.flowNotFound key.name key.version)

def listKeys (flows : Flows) : List FlowKey := flows.keys.insertionSort FlowKey.Le

def deleteFlow (flows : Flows) (key : FlowKey) : Except FlowStoreError Flows :=
  if key ∈ flows then .ok (flows.erase key) else .error (.flowNotFound key.name key.version)

def step (flows : Flows) : FlowStoreOp → FlowStoreAnswer × Flows
  | .saveFlow flow overwrite => FlowStoreAnswer.changed flows (saveFlow flows flow overwrite)
  | .loadFlow key => (.ofExcept .flow (loadFlow flows key), flows)
  | .hasFlow key => (.has (decide (key ∈ flows)), flows)
  | .listKeys => (.keys (listKeys flows), flows)
  | .deleteFlow key => FlowStoreAnswer.changed flows (deleteFlow flows key)

def machine : Machine FlowStoreOp FlowStoreAnswer where
  State := Flows
  start := ∅
  step := step

end InMemoryStore

-- File names

/-- `$` also matches before a newline at the end. -/
def withoutNewline (text : Text) : Text := if text.getLast? = some '\n' then text.dropLast else text

/-- `[A-Za-z0-9._-]` -/
def isNameChar (c : Char) : Bool := c.isAlphanum || c ∈ ['.', '_', '-']

def isSeparator (c : Char) : Bool := c ∈ ['/', '\\']

namespace FlowKey

def fileSuffix : String := ".flow.json"

def validateName (name : String) : Except FlowStoreError Unit :=
  let text := withoutNewline name.toList
  if text ≠ [] ∧ text.all isNameChar then .ok ()
  else
    .error (.flowSerialization (s!"Flow name '{name}' is not safe for file storage; " ++
      "only ASCII letters, digits, '.', '_', and '-' are allowed") none)

def validateVersion (version : String) : Except FlowStoreError Unit :=
  if version.toList.any fun c => isSeparator c || c = '@' then
    .error (.flowSerialization (s!"Flow version '{version}' contains a path separator or '@'; " ++
      "these are reserved in filenames") none)
  else .ok ()

def fileName (key : FlowKey) : String := key.name ++ "@" ++ key.version ++ fileSuffix

def pathFor (key : FlowKey) : Except FlowStoreError String := do
  validateName key.name
  validateVersion key.version
  pure key.fileName

/-- `_FILENAME_RE.match`: the name ends at the first `@`. -/
def parse (file : String) : Option FlowKey := do
  let stem ← afterPrefix fileSuffix.toList.reverse (withoutNewline file.toList).reverse
  let name := stem.reverse.takeWhile (· ≠ '@')
  match stem.reverse.dropWhile (· ≠ '@') with
  | '@' :: version =>
    if name ≠ [] ∧ version ≠ [] ∧ ¬ (name.any isSeparator ∨ version.any isSeparator) then
      some ⟨String.ofList name, String.ofList version⟩
    else none
  | _ => none

end FlowKey

-- The store in files

structure FileStore where
  serializer : Serializer
  /-- `str(path)` of a file in the directory. -/
  path : String → String
  /-- Whether the file system takes a file of this name. -/
  takes : String → Bool
  /-- Whether it raises when asked for a name it does not take, instead of having no such file. -/
  raises : String → Bool

namespace FileStore

/-- The files of the directory. -/
abbrev Dir := OrderedDict JsonFile

variable (store : FileStore)

/-- `path.exists()` -/
def pathExists (dir : Dir) (file : String) : Except FlowStoreError Bool :=
  if store.takes file then .ok (dir.contains file) else if store.raises file then .error .os else .ok false

/-- The text is written beside the file and moved into its place. -/
def writeText (dir : Dir) (file : String) (text : JsonFile) : Except FlowStoreError Dir :=
  if store.takes (file ++ ".tmp") ∧ store.takes file then .ok (dir.insert file text) else .error .os

def saveFlow (dir : Dir) (flow : FullFlow) (overwrite : Bool) : Except FlowStoreError Dir := do
  let file ← flow.key.pathFor
  let present ← store.pathExists dir file
  if present = true ∧ overwrite = false then .error (.flowAlreadyExists flow.name)
  else
    match store.serializer.flowToJson (some 2) flow with
    | some text => store.writeText dir file text
    | none => .error .unserializable

/-- The file of `key`, if there is one. -/
def lookup (dir : Dir) (key : FlowKey) : Except FlowStoreError (String × JsonFile) := do
  let file ← key.pathFor
  let present ← store.pathExists dir file
  match present, dir.get? file with
  | true, some text => pure (file, text)
  | _, _ => .error (.flowNotFound key.name key.version)

def loadFlow (dir : Dir) (key : FlowKey) : Except FlowStoreError FullFlow := do
  let found ← store.lookup dir key
  match store.serializer.flowFromJson {} found.2 with
  | .ok flow => .ok flow
  | .error detail => .error (.flowSerialization detail (some (store.path found.1)))

def hasFlow (dir : Dir) (key : FlowKey) : Except FlowStoreError Bool :=
  match key.pathFor with
  | .ok file => store.pathExists dir file
  | .error _ => .ok false

/-- `iterdir` in the order of the file names. -/
def listKeys (dir : Dir) : List FlowKey := (dir.keys.insertionSort (· ≤ ·)).filterMap FlowKey.parse

def deleteFlow (dir : Dir) (key : FlowKey) : Except FlowStoreError Dir := do
  let found ← store.lookup dir key
  pure (dir.erase found.1)

def step (dir : Dir) : FlowStoreOp → FlowStoreAnswer × Dir
  | .saveFlow flow overwrite => FlowStoreAnswer.changed dir (store.saveFlow dir flow overwrite)
  | .loadFlow key => (.ofExcept .flow (store.loadFlow dir key), dir)
  | .hasFlow key => (.ofExcept .has (store.hasFlow dir key), dir)
  | .listKeys => (.keys (listKeys dir), dir)
  | .deleteFlow key => FlowStoreAnswer.changed dir (store.deleteFlow dir key)

/-- A store over an empty directory. -/
def machine : Machine FlowStoreOp FlowStoreAnswer where
  State := Dir
  start := .empty
  step := store.step

end FileStore

end ChainWeaver
