import ChainWeaver.ContribTools
import ChainWeaver.Data.Heap
import ChainWeaver.PointerLaws

/-!
# What `json_set` keeps and changes

The walk over cells comes down to an update of the document as a tree. The cells of
the caller are never written, and pointers that part from the one that is set
resolve as before.
-/

namespace ChainWeaver

namespace Contrib

open Heap (Kept KeptBut)
open Pointer (enter parseInt)

-- Reading cells as a tree

mutual
/-- The object that `ref` refers to reads as this value. -/
def Reads (memory : Memory) : Value → Ref → Prop
  | .dict entries, ref => ∃ address refs, ref = .cell address ∧ memory[address]? = some (.dict refs) ∧
      ReadsEntries memory entries refs
  | .list items, ref => ∃ address refs, ref = .cell address ∧ memory[address]? = some (.list refs) ∧
      ReadsItems memory items refs
  | value, ref => ∃ h, ref = .scalar ⟨value, h⟩
def ReadsEntries (memory : Memory) : List (String × Value) → List (String × Ref) → Prop
  | [], refs => refs = []
  | (key, value) :: rest, refs => ∃ ref tail, refs = (key, ref) :: tail ∧ Reads memory value ref ∧
      ReadsEntries memory rest tail
def ReadsItems (memory : Memory) : List Value → List Ref → Prop
  | [], refs => refs = []
  | value :: rest, refs => ∃ ref tail, refs = ref :: tail ∧ Reads memory value ref ∧ ReadsItems memory rest tail
end

section Kept

variable {before after : Memory}

mutual
theorem Reads.kept (h : Kept before after) : ∀ {value ref}, Reads before value ref → Reads after value ref
  | .dict _, _, ⟨address, refs, hcell, hget, hread⟩ =>
    ⟨address, refs, hcell, h address _ hget, ReadsEntries.kept h hread⟩
  | .list _, _, ⟨address, refs, hcell, hget, hread⟩ =>
    ⟨address, refs, hcell, h address _ hget, ReadsItems.kept h hread⟩
  | .null, _, hread | .bool _, _, hread | .int _, _, hread | .float _, _, hread | .str _, _, hread
  | .tuple _, _, hread | .set _, _, hread | .obj _ _, _, hread => hread
theorem ReadsEntries.kept (h : Kept before after) : ∀ {entries refs}, ReadsEntries before entries refs →
    ReadsEntries after entries refs
  | [], _, hnil => hnil
  | _ :: _, _, ⟨ref, tail, hrefs, hread, hrest⟩ => ⟨ref, tail, hrefs, hread.kept h, hrest.kept h⟩
theorem ReadsItems.kept (h : Kept before after) : ∀ {items refs}, ReadsItems before items refs → ReadsItems after items refs
  | [], _, hnil => hnil
  | _ :: _, _, ⟨ref, tail, hrefs, hread, hrest⟩ => ⟨ref, tail, hrefs, hread.kept h, hrest.kept h⟩
end

end Kept

-- The update as a tree

/-- The container that stands at `token` after `json_set` passed it: an empty one in
the place of anything else. -/
def childOf (entries : List (String × Value)) (token : String) : Value :=
  match entries.lookup token with
  | some (.dict inner) => .dict inner
  | some (.list items) => .list items
  | _ => .dict []

def position? (token : String) (length : Nat) : Option Nat :=
  (parseInt token).bind fun position => if position < 0 ∨ position ≥ length then none else some position.toNat

/-- The document with `value` at the tokens, `none` where `json_set` fails. -/
def update (value : Value) : Value → String → List String → Option Value
  | .dict entries, token, [] => some (.dict (OrderedDict.put token value entries))
  | .dict entries, token, next :: rest =>
    (update value (childOf entries token) next rest).map fun child => .dict (OrderedDict.put token child entries)
  | .list items, token, [] => (position? token items.length).map fun position => .list (items.set position value)
  | .list items, token, next :: rest =>
    (position? token items.length).bind fun position => (items[position]?).bind fun item =>
      (update value item next rest).map fun child => .list (items.set position child)
  | _, _, _ => none

theorem listPosition_position? (toolName token : String) (length : Nat) :
    (listPosition toolName token length).toOption = position? token length := by
  unfold listPosition position?
  cases parseInt token with
  | none => rfl
  | some position =>
    rw [Option.bind_some]
    dsimp only
    split <;> rfl

theorem position?_lt {token : String} {length position : Nat} (h : position? token length = some position) :
    position < length ∧ parseInt token = some (position : Int) := by
  obtain ⟨number, hparse, hrange⟩ := Option.bind_eq_some_iff.1 h
  split at hrange
  · cases hrange
  · cases hrange
    exact ⟨by omega, by rw [hparse]; congr 1; omega⟩

theorem enter_position {token : String} {items : List Value} {position : Nat} (h : parseInt token = some (position : Int)) :
    enter (.list items) token = items[position]? := by
  rw [enter, h, Option.bind_some, if_neg (by omega)]
  rfl

theorem position?_of_enter {token : String} {items : List Value} {item : Value}
    (h : enter (.list items) token = some item) :
    ∃ position, position? token items.length = some position ∧ items[position]? = some item := by
  obtain ⟨number, hparse, hrange⟩ := Option.bind_eq_some_iff.1 h
  split at hrange
  · cases hrange
  · have hlt := (List.getElem?_eq_some_iff.1 hrange).1
    refine ⟨number.toNat, ?_, hrange⟩
    rw [position?, hparse, Option.bind_some, if_neg (by omega)]

-- The cells follow the tree

section Refinement

variable {base memory : Memory} {toolName pointer : String} {value : Value} {valueRef : Ref}

/-- `current` is a scalar, or a cell of its own whose children are those of `base`. -/
inductive Placed (base memory : Memory) : Value → Ref → Prop
  | scalar (value : Scalar) : Placed base memory value.1 (.scalar value)
  | dict {address entries refs} : base.length ≤ address → memory[address]? = some (.dict refs) →
      ReadsEntries base entries refs → Placed base memory (.dict entries) (.cell address)
  | list {address items refs} : base.length ≤ address → memory[address]? = some (.list refs) →
      ReadsItems base items refs → Placed base memory (.list items) (.cell address)

/-- The cells that a walk from `current` leaves alone. -/
def Spared (current : Ref) (before after : Memory) : Prop :=
  match current with
  | .scalar _ => Kept before after
  | .cell address => KeptBut address before after

theorem readsEntries_lookup {entries : List (String × Value)} {refs : List (String × Ref)}
    (h : ReadsEntries memory entries refs) (token : String) :
    (entries.lookup token = none ∧ refs.lookup token = none) ∨
      ∃ child ref, entries.lookup token = some child ∧ refs.lookup token = some ref ∧ Reads memory child ref := by
  induction entries generalizing refs with
  | nil =>
    cases h
    exact .inl ⟨rfl, rfl⟩
  | cons entry rest ih =>
    obtain ⟨ref, tail, rfl, hread, hrest⟩ := h
    rw [OrderedDict.lookup_cons_if, OrderedDict.lookup_cons_if]
    by_cases hkey : token = entry.1
    · exact .inr ⟨entry.2, ref, by rw [if_pos hkey], by rw [if_pos hkey], hread⟩
    · rw [if_neg hkey, if_neg hkey]
      exact ih hrest

theorem readsEntries_put {entries : List (String × Value)} {refs : List (String × Ref)} {child : Value} {ref : Ref}
    (h : ReadsEntries memory entries refs) (hchild : Reads memory child ref) (token : String) :
    ReadsEntries memory (OrderedDict.put token child entries) (OrderedDict.put token ref refs) := by
  induction entries generalizing refs with
  | nil =>
    cases h
    exact ⟨ref, [], rfl, hchild, rfl⟩
  | cons entry rest ih =>
    obtain ⟨first, tail, rfl, hread, hrest⟩ := h
    unfold OrderedDict.put
    split
    · exact ⟨ref, tail, rfl, hchild, hrest⟩
    · exact ⟨first, _, rfl, hread, ih hrest⟩

theorem readsItems_getElem? {items : List Value} {refs : List Ref} {item : Value} {position : Nat}
    (h : ReadsItems memory items refs) (hitem : items[position]? = some item) :
    ∃ ref, refs[position]? = some ref ∧ Reads memory item ref := by
  induction items generalizing refs position with
  | nil => cases hitem
  | cons first rest ih =>
    obtain ⟨ref, tail, rfl, hread, hrest⟩ := h
    cases position with
    | zero =>
      cases hitem
      exact ⟨ref, rfl, hread⟩
    | succ position =>
      rw [List.getElem?_cons_succ] at hitem
      simp only [List.getElem?_cons_succ]
      exact ih hrest hitem

theorem readsItems_set {items : List Value} {refs : List Ref} {child : Value} {ref : Ref}
    (h : ReadsItems memory items refs) (hchild : Reads memory child ref) (position : Nat) :
    ReadsItems memory (items.set position child) (refs.set position ref) := by
  induction items generalizing refs position with
  | nil =>
    cases h
    exact rfl
  | cons first rest ih =>
    obtain ⟨old, tail, rfl, hread, hrest⟩ := h
    cases position with
    | zero => exact ⟨ref, tail, rfl, hchild, hrest⟩
    | succ position => exact ⟨old, _, rfl, hread, ih hrest position⟩

theorem readsItems_length {items : List Value} {refs : List Ref} (h : ReadsItems memory items refs) :
    refs.length = items.length := by
  induction items generalizing refs with
  | nil =>
    cases h
    rfl
  | cons first rest ih =>
    obtain ⟨ref, tail, rfl, _, hrest⟩ := h
    rw [List.length_cons, List.length_cons, ih hrest]

theorem getD_of_getElem? {memory : Memory} {address : Nat} {cell : Cell} (h : memory[address]? = some cell) :
    cellAt memory address = cell := by
  rw [cellAt, List.getD_eq_getElem?_getD, h]
  rfl

theorem length_le_of_kept {before after : Memory} (h : Kept before after) : before.length ≤ after.length := by
  by_contra hlt
  have hget := h after.length _ (List.getElem?_eq_getElem (by omega))
  have := (List.getElem?_eq_some_iff.1 hget).1
  omega

/-- A copy of a container of `base` stands at a new address, as its original reads. -/
theorem copyRef_placed {tree : Value} {ref : Ref} (hbase : Kept base memory) (h : Reads base tree ref)
    (hlength : base.length ≤ memory.length) :
    Kept memory (copyRef memory ref).1 ∧ Placed base (copyRef memory ref).1 tree (copyRef memory ref).2 ∧
      ∀ address, (copyRef memory ref).2 = .cell address → memory.length ≤ address := by
  cases tree with
  | dict entries =>
    obtain ⟨address, refs, rfl, hget, hread⟩ := h
    have hcell := getD_of_getElem? (hbase address _ hget)
    refine ⟨Heap.kept_concat _ _, ?_, fun _ heq => by cases heq; exact le_rfl⟩
    rw [copyRef, hcell]
    exact .dict hlength (by simp) hread
  | list items =>
    obtain ⟨address, refs, rfl, hget, hread⟩ := h
    have hcell := getD_of_getElem? (hbase address _ hget)
    refine ⟨Heap.kept_concat _ _, ?_, fun _ heq => by cases heq; exact le_rfl⟩
    rw [copyRef, hcell]
    exact .list hlength (by simp) hread
  | _ =>
    obtain ⟨hscalar, rfl⟩ := h
    exact ⟨Kept.refl _, .scalar ⟨_, hscalar⟩, nofun⟩

theorem copyChild_placed {entries : List (String × Value)} {refs : List (String × Ref)} (hbase : Kept base memory)
    (h : ReadsEntries base entries refs) (hlength : base.length ≤ memory.length) (token : String) :
    Kept memory (copyChild memory (refs.lookup token)).1 ∧
      Placed base (copyChild memory (refs.lookup token)).1 (childOf entries token) (copyChild memory (refs.lookup token)).2 ∧
      ∃ address, (copyChild memory (refs.lookup token)).2 = .cell address ∧ memory.length ≤ address := by
  have hempty : ∀ child, childOf entries token = .dict [] → copyChild memory child = (memory ++ [.dict []], .cell memory.length) →
      Kept memory (copyChild memory child).1 ∧
        Placed base (copyChild memory child).1 (childOf entries token) (copyChild memory child).2 ∧
        ∃ address, (copyChild memory child).2 = .cell address ∧ memory.length ≤ address := by
    intro child hchild hcopy
    rw [hcopy, hchild]
    exact ⟨Heap.kept_concat _ _, .dict hlength (by simp) rfl, _, rfl, le_rfl⟩
  rcases readsEntries_lookup h token with ⟨hvalue, href⟩ | ⟨child, ref, hvalue, href, hread⟩
  · exact hempty _ (by rw [childOf, hvalue]) (by rw [href]; rfl)
  · rw [href]
    cases child with
    | dict inner =>
      obtain ⟨hkept, hplaced, hfresh⟩ := copyRef_placed hbase hread hlength
      obtain ⟨address, refs, rfl, _, _⟩ := hread
      rw [childOf, hvalue]
      exact ⟨hkept, hplaced, _, rfl, hfresh _ rfl⟩
    | list items =>
      obtain ⟨hkept, hplaced, hfresh⟩ := copyRef_placed hbase hread hlength
      obtain ⟨address, refs, rfl, _, _⟩ := hread
      rw [childOf, hvalue]
      exact ⟨hkept, hplaced, _, rfl, hfresh _ rfl⟩
    | _ =>
      obtain ⟨hscalar, rfl⟩ := hread
      exact hempty _ (by rw [childOf, hvalue]) rfl

theorem Placed.keptBut {after : Memory} {tree : Value} {ref : Ref} {written : Nat} (h : Placed base memory tree ref)
    (hkept : KeptBut written memory after) (hne : ∀ address, ref = .cell address → address ≠ written) :
    Placed base after tree ref := by
  cases h with
  | scalar value => exact .scalar value
  | dict hlength hget hread => exact .dict hlength (hkept _ _ (hne _ rfl) hget) hread
  | list hlength hget hread => exact .list hlength (hkept _ _ (hne _ rfl) hget) hread

theorem update_scalar (scalar : Scalar) (token : String) (rest : List String) :
    update value scalar.1 token rest = none := by
  obtain ⟨tree, hscalar⟩ := scalar
  cases tree with
  | dict entries => cases hscalar
  | list items => cases hscalar
  | _ => cases rest <;> rfl

/-- What the walk from `current` leaves: the update of its tree, or an error where the
tree has none, and in either case the cells it does not own. -/
def Follows (value : Value) (tree : Value) (token : String) (rest : List String) (memory : Memory) (current : Ref)
    (after : Memory × Except ContribError Unit) : Prop :=
  Spared current memory after.1 ∧
    match update value tree token rest with
    | some result => after.2 = .ok () ∧ Reads after.1 result current
    | none => ∃ error, after.2 = .error error

theorem assign_follows {tree : Value} {current : Ref} (hbase : Kept base memory)
    (hplaced : Placed base memory tree current) (hvalue : Reads base value valueRef) (token : String) :
    Follows value tree token [] memory current (assign toolName memory current token valueRef) := by
  cases hplaced with
  | scalar scalar =>
    refine ⟨Kept.refl _, ?_⟩
    rw [update_scalar]
    exact ⟨_, rfl⟩
  | @dict address entries refs hlength hget hread =>
    have hkept := Heap.keptBut_set memory address (.dict (OrderedDict.put token valueRef refs))
    have hbehind := hbase.behind hlength hkept
    have haddress := (List.getElem?_eq_some_iff.1 hget).1
    rw [assign, getD_of_getElem? hget]
    exact ⟨hkept, rfl, address, _, rfl, List.getElem?_set_self haddress,
      readsEntries_put (hread.kept hbehind) (hvalue.kept hbehind) token⟩
  | @list address items refs hlength hget hread =>
    have haddress := (List.getElem?_eq_some_iff.1 hget).1
    have hposition := listPosition_position? toolName token refs.length
    rw [readsItems_length hread] at hposition
    rw [Follows, update, ← hposition, assign, getD_of_getElem? hget]
    dsimp only
    rw [readsItems_length hread]
    cases listPosition toolName token items.length with
    | error e => exact ⟨(Kept.refl _).keptBut _, e, rfl⟩
    | ok position =>
      have hkept := Heap.keptBut_set memory address (.list (refs.set position valueRef))
      have hbehind := hbase.behind hlength hkept
      exact ⟨hkept, rfl, address, _, rfl, List.getElem?_set_self haddress,
        readsItems_set (hread.kept hbehind) (hvalue.kept hbehind) position⟩

/-- One step down: the parent refers to a child of its own, and keeps doing so. -/
theorem Follows.into {tree : Value} {parent : Nat} {child : Ref} {copied : Memory} {cell : Cell} {next : String}
    {rest : List String} {after : Memory × Except ContribError Unit} (hcopied : Kept memory copied)
    (hparent : parent < memory.length) (hchild : ∀ address, child = .cell address → memory.length ≤ address)
    (h : Follows value tree next rest (copied.set parent cell) child after) :
    KeptBut parent memory after.1 ∧ after.1[parent]? = some cell := by
  have hset := Heap.keptBut_set copied parent cell
  have hcell : (copied.set parent cell)[parent]? = some cell :=
    List.getElem?_set_self (lt_of_lt_of_le hparent (length_le_of_kept hcopied))
  have hspared := h.1
  cases child with
  | scalar scalar =>
    exact ⟨((hcopied.keptBut parent).trans hset).trans (hspared.keptBut parent), hspared _ _ hcell⟩
  | cell address =>
    have hfresh := hchild address rfl
    exact ⟨((hcopied.keptBut parent).trans hset).fresh hfresh hspared, hspared _ _ (by omega) hcell⟩

theorem setTokens_follows {tree : Value} {current : Ref} (hbase : Kept base memory)
    (hlength : base.length ≤ memory.length) (hplaced : Placed base memory tree current)
    (hvalue : Reads base value valueRef) (token : String) (rest : List String) :
    Follows value tree token rest memory current
      (setTokens toolName pointer memory current token rest valueRef) := by
  induction rest generalizing memory current tree token with
  | nil => exact assign_follows hbase hplaced hvalue token
  | cons next rest ih =>
    cases hplaced with
    | scalar scalar =>
      refine ⟨Kept.refl _, ?_⟩
      rw [update_scalar]
      exact ⟨_, rfl⟩
    | @dict address entries refs hbehind hget hread =>
      have haddress := (List.getElem?_eq_some_iff.1 hget).1
      obtain ⟨hcopied, hplaced, child, hchild, hfresh⟩ := copyChild_placed hbase hread hlength token
      rw [setTokens, descend, getD_of_getElem? hget]
      dsimp only
      generalize copyChild memory (refs.lookup token) = copy at hcopied hplaced hchild ⊢
      obtain ⟨copied, ref⟩ := copy
      cases hchild
      have hset := Heap.keptBut_set copied address (.dict (OrderedDict.put token (.cell child) refs))
      have hinner := ih ((hbase.trans hcopied).behind hbehind hset)
        (by rw [List.length_set]; exact le_trans hlength (length_le_of_kept hcopied))
        (hplaced.keptBut hset (by rintro _ ⟨⟩; omega)) next
      obtain ⟨hspared, hcell⟩ := hinner.into hcopied haddress (by rintro _ ⟨⟩; exact hfresh)
      refine ⟨hspared, ?_⟩
      have hend := hinner.2
      rw [update]
      cases hupdate : update value (childOf entries token) next rest with
      | none =>
        rw [hupdate] at hend
        exact hend
      | some result =>
        rw [hupdate] at hend
        have hkept := hbase.behind hbehind hspared
        exact ⟨hend.1, address, _, rfl, hcell, readsEntries_put (hread.kept hkept) hend.2 token⟩
    | @list address items refs hbehind hget hread =>
      have haddress := (List.getElem?_eq_some_iff.1 hget).1
      have hposition := listPosition_position? toolName token items.length
      rw [Follows, update, ← hposition, setTokens, descend, getD_of_getElem? hget]
      dsimp only
      rw [readsItems_length hread]
      cases hlist : listPosition toolName token items.length with
      | error e => exact ⟨(Kept.refl _).keptBut _, e, rfl⟩
      | ok position =>
        have hlt := (position?_lt (hposition.symm.trans (by rw [hlist]; rfl))).1
        have hitem : items[position]? = some items[position] := List.getElem?_eq_getElem hlt
        obtain ⟨itemRef, href, hreadItem⟩ := readsItems_getElem? hread hitem
        obtain ⟨hcopied, hplaced, hfresh⟩ := copyRef_placed hbase hreadItem hlength
        dsimp only
        rw [List.getD_eq_getElem?_getD, href, Option.getD_some]
        generalize copyRef memory itemRef = copy at hcopied hplaced hfresh ⊢
        obtain ⟨copied, child⟩ := copy
        dsimp only at hcopied hplaced hfresh ⊢
        have hset := Heap.keptBut_set copied address (.list (refs.set position child))
        have hinner := ih ((hbase.trans hcopied).behind hbehind hset)
          (by rw [List.length_set]; exact le_trans hlength (length_le_of_kept hcopied))
          (hplaced.keptBut hset fun other heq => by have := hfresh other heq; omega) next
        obtain ⟨hspared, hcell⟩ := hinner.into hcopied haddress hfresh
        refine ⟨hspared, ?_⟩
        have hend := hinner.2
        rw [Except.toOption, Option.bind_some, hitem, Option.bind_some]
        cases hupdate : update value items[position] next rest with
        | none =>
          rw [hupdate] at hend
          exact hend
        | some result =>
          rw [hupdate] at hend
          have hkept := hbase.behind hbehind hspared
          exact ⟨hend.1, address, _, rfl, hcell, readsItems_set (hread.kept hkept) hend.2 position⟩

end Refinement

-- The setter laws of the tree

section Tree

variable {value document result : Value} {token : String} {rest : List String}

/-- The pointer leads to the value that was set. -/
theorem update_enter (h : update value document token rest = some result) :
    (token :: rest).foldlM enter result = some value := by
  induction rest generalizing document token result with
  | nil =>
    cases document with
    | dict entries =>
      cases h
      simp [enter, OrderedDict.lookup_put]
    | list items =>
      obtain ⟨position, hposition, rfl⟩ := Option.map_eq_some_iff.1 h
      obtain ⟨hlt, hparse⟩ := position?_lt hposition
      simp [enter_position hparse, List.getElem?_set_self hlt]
    | _ => cases h
  | cons next rest ih =>
    rw [List.foldlM_cons]
    cases document with
    | dict entries =>
      obtain ⟨child, hchild, rfl⟩ := Option.map_eq_some_iff.1 h
      simpa [enter, OrderedDict.lookup_put] using ih hchild
    | list items =>
      obtain ⟨position, hposition, h⟩ := Option.bind_eq_some_iff.1 h
      obtain ⟨item, _, h⟩ := Option.bind_eq_some_iff.1 h
      obtain ⟨child, hchild, rfl⟩ := Option.map_eq_some_iff.1 h
      obtain ⟨hlt, hparse⟩ := position?_lt hposition
      simpa [enter_position hparse, List.getElem?_set_self hlt] using ih hchild
    | _ => cases h

/-- At the first place where the two part they address different children. -/
def Diverges : Value → List String → List String → Prop
  | .dict entries, token :: rest, other :: more =>
    if token = other then Diverges (childOf entries token) rest more else True
  | .list items, token :: rest, other :: more =>
    if parseInt token = parseInt other then
      match enter (.list items) token with
      | some item => Diverges item rest more
      | none => False
    else True
  | _, _, _ => False

theorem childOf_cases (entries : List (String × Value)) (token : String) :
    (entries.lookup token = some (childOf entries token)) ∨
      childOf entries token = .dict [] ∧ ∀ child, entries.lookup token = some child → child.isContainer = false := by
  unfold childOf
  split
  · next h => exact .inl h
  · next h => exact .inl h
  · next hdict hlist =>
    refine .inr ⟨rfl, fun child hchild => ?_⟩
    cases child with
    | dict inner => exact absurd hchild (hdict inner)
    | list items => exact absurd hchild (hlist items)
    | _ => rfl

theorem enter_scalar {scalar : Value} (h : scalar.isContainer = false) (token : String) : enter scalar token = none := by
  cases scalar with
  | dict entries => cases h
  | list items => cases h
  | _ => rfl

/-- A walk that went through `token` goes on as in the container that stands there. -/
theorem foldlM_childOf (entries : List (String × Value)) (token other : String) (more : List String) :
    (token :: other :: more).foldlM enter (.dict entries) = (other :: more).foldlM enter (childOf entries token) := by
  rw [List.foldlM_cons, enter]
  rcases childOf_cases entries token with hsome | ⟨hempty, hscalar⟩
  · rw [hsome]
    rfl
  · rw [hempty]
    cases hlookup : entries.lookup token with
    | none => rfl
    | some child =>
      change (other :: more).foldlM enter child = _
      rw [List.foldlM_cons, List.foldlM_cons, enter_scalar (hscalar child hlookup)]
      rfl

theorem enter_put_other {entries : List (String × Value)} {child : Value} {other : String} (hne : token ≠ other) :
    enter (.dict (OrderedDict.put token child entries)) other = enter (.dict entries) other := by
  rw [enter, enter, OrderedDict.lookup_put, if_neg (Ne.symm hne)]

theorem enter_set_other {items : List Value} {child : Value} {position : Nat} {other : String}
    (hne : parseInt other ≠ some (position : Int)) :
    enter (.list (items.set position child)) other = enter (.list items) other := by
  rw [enter, enter]
  cases hparse : parseInt other with
  | none => rfl
  | some number =>
    rw [Option.bind_some, Option.bind_some]
    by_cases hneg : number < 0
    · rw [if_pos hneg, if_pos hneg]
    · rw [if_neg hneg, if_neg hneg]
      refine List.getElem?_set_ne fun heq => hne ?_
      rw [hparse, heq]
      congr 1
      omega

theorem diverges_nil {others : List String} : ¬ Diverges document [] others := by
  cases document <;> simp [Diverges]

theorem update_diverges {others : List String} (h : update value document token rest = some result)
    (hdiverges : Diverges document (token :: rest) others) :
    others.foldlM enter result = others.foldlM enter document := by
  induction rest generalizing document token result others with
  | nil =>
    cases others with
    | nil => cases document <;> exact absurd hdiverges (by simp [Diverges])
    | cons other more =>
      rw [List.foldlM_cons, List.foldlM_cons]
      cases document with
      | dict entries =>
        cases h
        have hne : token ≠ other := fun heq => by simp [Diverges, heq, diverges_nil] at hdiverges
        rw [enter_put_other hne]
      | list items =>
        obtain ⟨position, hposition, rfl⟩ := Option.map_eq_some_iff.1 h
        have hparse := (position?_lt hposition).2
        have hne : parseInt other ≠ some (position : Int) := by
          intro heq
          rw [Diverges, if_pos (hparse.trans heq.symm)] at hdiverges
          split at hdiverges
          · exact diverges_nil hdiverges
          · exact hdiverges
        rw [enter_set_other hne]
      | _ => cases h
  | cons next rest ih =>
    cases others with
    | nil => cases document <;> exact absurd hdiverges (by simp [Diverges])
    | cons other more =>
      cases document with
      | dict entries =>
        obtain ⟨child, hchild, rfl⟩ := Option.map_eq_some_iff.1 h
        by_cases heq : token = other
        · rw [Diverges, if_pos heq] at hdiverges
          cases more with
          | nil => cases childOf entries token <;> exact absurd hdiverges (by simp [Diverges])
          | cons further more =>
            rw [← heq, foldlM_childOf entries, ← ih hchild hdiverges, List.foldlM_cons, enter, OrderedDict.lookup_put,
              if_pos rfl]
            rfl
        · rw [List.foldlM_cons, List.foldlM_cons, enter_put_other heq]
      | list items =>
        obtain ⟨position, hposition, h⟩ := Option.bind_eq_some_iff.1 h
        obtain ⟨item, hitem, h⟩ := Option.bind_eq_some_iff.1 h
        obtain ⟨child, hchild, rfl⟩ := Option.map_eq_some_iff.1 h
        obtain ⟨hlt, hparse⟩ := position?_lt hposition
        rw [List.foldlM_cons, List.foldlM_cons]
        by_cases heq : parseInt other = some (position : Int)
        · rw [Diverges, if_pos (hparse.trans heq.symm), enter_position hparse, hitem] at hdiverges
          rw [enter_position heq, enter_position heq, List.getElem?_set_self hlt, hitem]
          exact ih hchild hdiverges
        · rw [enter_set_other heq]
      | _ => cases h

end Tree

-- Scalars on the way

/-- An existing scalar stands before the end of the tokens. -/
def Descends (document : Value) (tokens : List String) : Prop :=
  ∃ before after scalar, tokens = before ++ after ∧ after ≠ [] ∧ before.foldlM enter document = some scalar ∧
    scalar.isContainer = false

/-- The scalar is the value of a dict's key. -/
def Discards (document : Value) (tokens : List String) : Prop :=
  ∃ before token after entries scalar, tokens = before ++ token :: after ∧ after ≠ [] ∧
    before.foldlM enter document = some (.dict entries) ∧ entries.lookup token = some scalar ∧
    scalar.isContainer = false

section Scalars

variable {document : Value} {token : String} {rest : List String}

theorem Discards.descends {tokens : List String} (h : Discards document tokens) : Descends document tokens := by
  obtain ⟨before, token, after, entries, scalar, rfl, hafter, hbefore, hlookup, hscalar⟩ := h
  refine ⟨before ++ [token], after, scalar, by simp, hafter, ?_, hscalar⟩
  simp [List.foldlM_append, hbefore, enter, hlookup]

theorem Discards.cons {child : Value} (henter : enter document token = some child) (h : Discards child rest) :
    Discards document (token :: rest) := by
  obtain ⟨before, last, after, entries, scalar, rfl, hafter, hbefore, hrest⟩ := h
  refine ⟨token :: before, last, after, entries, scalar, rfl, hafter, ?_, hrest⟩
  rw [List.foldlM_cons, henter]
  exact hbefore

theorem update_empty (value : Value) (token : String) (rest : List String) :
    (update value (.dict []) token rest).isSome = true := by
  induction rest generalizing token with
  | nil => rfl
  | cons next rest ih =>
    rw [update, Option.isSome_map]
    exact ih next

theorem container_of_walk {walked : List String} {entries : List (String × Value)}
    (h : walked.foldlM enter document = some (.dict entries)) : document.isContainer = true := by
  cases walked with
  | nil =>
    cases h
    rfl
  | cons token walked =>
    rw [List.foldlM_cons] at h
    obtain ⟨child, henter, _⟩ := Option.bind_eq_some_iff.1 h
    by_contra hscalar
    rw [enter_scalar (by simpa using hscalar)] at henter
    cases henter

theorem childOf_container {entries : List (String × Value)} {child : Value} (hlookup : entries.lookup token = some child)
    (h : child.isContainer = true) : childOf entries token = child := by
  rcases childOf_cases entries token with hsome | ⟨_, hscalar⟩
  · rw [hlookup] at hsome
    exact (Option.some.inj hsome).symm
  · rw [hscalar child hlookup] at h
    cases h

theorem childOf_scalar {entries : List (String × Value)} {child : Value} (hlookup : entries.lookup token = some child)
    (h : child.isContainer = false) : childOf entries token = .dict [] := by
  rw [childOf, hlookup]
  cases child with
  | dict inner => cases h
  | list items => cases h
  | _ => rfl

/-- A scalar in a dict gives way, and nothing after it can fail. -/
theorem update_of_discards (value : Value) (h : Discards document (token :: rest)) :
    (update value document token rest).isSome = true := by
  obtain ⟨before, last, after, entries, scalar, htokens, hafter, hbefore, hlookup, hscalar⟩ := h
  induction before generalizing document token rest with
  | nil =>
    cases hbefore
    obtain ⟨rfl, rfl⟩ := List.cons.inj htokens
    obtain ⟨next, rest, rfl⟩ := List.exists_cons_of_ne_nil hafter
    rw [update, Option.isSome_map, childOf_scalar hlookup hscalar]
    exact update_empty value next rest
  | cons first before ih =>
    rw [List.cons_append, List.cons.injEq] at htokens
    obtain ⟨rfl, rfl⟩ := htokens
    rw [List.foldlM_cons] at hbefore
    obtain ⟨child, henter, hwalk⟩ := Option.bind_eq_some_iff.1 hbefore
    obtain ⟨next, rest, hrest⟩ := List.exists_cons_of_ne_nil (l := before ++ last :: after) (by simp)
    have hinner := ih hrest.symm hwalk
    rw [hrest]
    cases document with
    | dict inner =>
      rw [update, Option.isSome_map, childOf_container henter (container_of_walk hwalk)]
      exact hinner
    | list items =>
      obtain ⟨position, hposition, hitem⟩ := position?_of_enter henter
      rw [update, hposition, Option.bind_some, hitem, Option.bind_some, Option.isSome_map]
      exact hinner
    | _ => cases henter

/-- A scalar in a list stays, and the walk fails at it. -/
theorem update_of_descends (value : Value) (h : Descends document (token :: rest))
    (hkept : ¬ Discards document (token :: rest)) : update value document token rest = none := by
  obtain ⟨before, after, scalar, htokens, hafter, hbefore, hscalar⟩ := h
  induction before generalizing document token rest with
  | nil =>
    cases hbefore
    exact update_scalar ⟨_, hscalar⟩ token rest
  | cons first before ih =>
    rw [List.cons_append, List.cons.injEq] at htokens
    obtain ⟨rfl, rfl⟩ := htokens
    rw [List.foldlM_cons] at hbefore
    obtain ⟨child, henter, hwalk⟩ := Option.bind_eq_some_iff.1 hbefore
    obtain ⟨next, rest, hrest⟩ := List.exists_cons_of_ne_nil (l := before ++ after) (by simp [hafter])
    have hchild : ¬ Discards child (next :: rest) := fun h => hkept (by rw [hrest]; exact h.cons henter)
    have hinner := ih hchild hrest.symm hwalk
    rw [hrest]
    cases document with
    | dict entries =>
      have hcontainer : child.isContainer = true := by
        by_contra hnot
        refine hkept ⟨[], token, before ++ after, entries, child, rfl, by simp [hafter], rfl, henter, by simpa using hnot⟩
      rw [update, childOf_container henter hcontainer, hinner]
      rfl
    | list items =>
      obtain ⟨position, hposition, hitem⟩ := position?_of_enter henter
      rw [update, hposition, Option.bind_some, hitem, Option.bind_some, hinner]
      rfl
    | _ => cases henter

end Scalars

-- The tools

theorem jsonPluck_ok (document : Value) {pointer : String} {tokens : List String}
    (h : Pointer.parsePointer pointer = .ok tokens) :
    (jsonPluck document pointer).toOption = tokens.foldlM enter document := by
  have hfollow : Pointer.resolvePointer document pointer = Pointer.follow pointer [] document tokens := by
    rw [Pointer.resolvePointer, h]
    rfl
  rw [jsonPluck, pointerGet, hfollow]
  cases hresult : Pointer.follow pointer [] document tokens with
  | ok value => exact (Pointer.follow_ok.1 hresult).symm
  | error error =>
    cases hwalk : tokens.foldlM enter document with
    | none => rfl
    | some value =>
      rw [Pointer.follow_ok.2 hwalk] at hresult
      cases hresult

/-- The call on the document at `data`: what it leaves, and what it returns. -/
structure Lawful (memory : Memory) (data : Nat) (pointer : String) (ref : Ref) (document value : Value) : Prop where
  /-- Nothing the caller holds is written to, whether the call succeeds or fails. -/
  unchanged : Kept memory (jsonSet memory data pointer ref).1
  /-- The result has the value at the pointer, and is as the document elsewhere. -/
  setter : ∀ root, (jsonSet memory data pointer ref).2 = .ok root →
    ∃ result, Reads (jsonSet memory data pointer ref).1 result root ∧ jsonPluck result pointer = .ok value ∧
      ∀ tokens other others, Pointer.parsePointer pointer = .ok tokens → Pointer.parsePointer other = .ok others →
        Diverges document tokens others → (jsonPluck result other).toOption = (jsonPluck document other).toOption
  /-- A scalar before the end of the pointer is an error. -/
  refuses : ∀ tokens, Pointer.parsePointer pointer = .ok tokens → Descends document tokens →
    ∃ error, (jsonSet memory data pointer ref).2 = .error error

section Call

variable {memory : Memory} {data : Nat} {pointer : String} {ref : Ref} {entries : List (String × Value)} {value : Value}

/-- `json_set` on a pointer with tokens is the update of the document. -/
theorem jsonSet_update {token : String} {rest : List String} (hdata : Reads memory (.dict entries) (.cell data))
    (hvalue : Reads memory value ref) (hparse : Pointer.parsePointer pointer = .ok (token :: rest)) :
    Kept memory (jsonSet memory data pointer ref).1 ∧
      match update value (.dict entries) token rest with
      | some result => ∃ root, (jsonSet memory data pointer ref).2 = .ok root ∧
          Reads (jsonSet memory data pointer ref).1 result root
      | none => ∃ error, (jsonSet memory data pointer ref).2 = .error error := by
  obtain ⟨address, refs, heq, hget, hread⟩ := hdata
  cases heq
  have hcopy := Heap.kept_concat memory (.dict refs)
  have hplaced : Placed memory (memory ++ [.dict refs]) (.dict entries) (.cell memory.length) :=
    .dict le_rfl (by simp) hread
  have hwalk : Follows value (.dict entries) token rest (memory ++ [.dict refs]) (.cell memory.length)
      (setTokens "json_set" pointer (memory ++ [.dict refs]) (.cell memory.length) token rest ref) :=
    setTokens_follows hcopy (by simp) hplaced hvalue token rest
  rw [jsonSet, pointerSet, hparse, getD_of_getElem? hget]
  dsimp only
  generalize setTokens "json_set" pointer (memory ++ [.dict refs]) (.cell memory.length) token rest ref = after at hwalk ⊢
  obtain ⟨after, outcome⟩ := after
  obtain ⟨hspared, hend⟩ := hwalk
  have hkept : Kept memory after := hcopy.behind le_rfl hspared
  cases hupdate : update value (.dict entries) token rest with
  | none =>
    rw [hupdate] at hend
    obtain ⟨error, herror⟩ := hend
    cases herror
    exact ⟨hkept, error, rfl⟩
  | some result =>
    rw [hupdate] at hend
    obtain ⟨hok, hresult⟩ := hend
    cases hok
    exact ⟨hkept, _, rfl, hresult⟩

theorem jsonSet_unset (memory : Memory) (data : Nat) (ref : Ref)
    (h : ∀ token rest, Pointer.parsePointer pointer ≠ .ok (token :: rest)) :
    (jsonSet memory data pointer ref).1 = memory ∧ ∃ error, (jsonSet memory data pointer ref).2 = .error error := by
  rw [jsonSet, pointerSet]
  split
  · exact ⟨rfl, _, rfl⟩
  · exact ⟨rfl, _, rfl⟩
  · next token rest hparse => exact absurd hparse (h token rest)

/-- `json_set` keeps its promises exactly where it meets no scalar in a dict before the
end of the pointer. -/
theorem jsonSet_lawful_iff (hdata : Reads memory (.dict entries) (.cell data)) (hvalue : Reads memory value ref) :
    Lawful memory data pointer ref (.dict entries) value ↔
      ∀ tokens, Pointer.parsePointer pointer = .ok tokens → ¬ Discards (.dict entries) tokens := by
  by_cases htokens : ∃ token rest, Pointer.parsePointer pointer = .ok (token :: rest)
  · obtain ⟨token, rest, hparse⟩ := htokens
    obtain ⟨hkept, hend⟩ := jsonSet_update hdata hvalue hparse
    constructor
    · rintro hlawful tokens htokens hdiscards
      rw [hparse] at htokens
      cases htokens
      obtain ⟨error, herror⟩ := hlawful.refuses _ hparse hdiscards.descends
      obtain ⟨result, hresult⟩ := Option.isSome_iff_exists.1 (update_of_discards value hdiscards)
      rw [hresult] at hend
      obtain ⟨root, hroot, _⟩ := hend
      rw [hroot] at herror
      cases herror
    · intro hnot
      refine ⟨hkept, fun root hroot => ?_, fun tokens htokens hdescends => ?_⟩
      · cases hupdate : update value (.dict entries) token rest with
        | none =>
          rw [hupdate] at hend
          obtain ⟨error, herror⟩ := hend
          rw [herror] at hroot
          cases hroot
        | some result =>
          rw [hupdate] at hend
          obtain ⟨root', hroot', hread⟩ := hend
          rw [hroot'] at hroot
          cases hroot
          refine ⟨result, hread, ?_, fun tokens other others htokens hothers hdiverges => ?_⟩
          · have hpluck := jsonPluck_ok result hparse
            rw [update_enter hupdate] at hpluck
            cases hresult : jsonPluck result pointer with
            | ok found =>
              rw [hresult] at hpluck
              rw [Option.some.inj hpluck]
            | error error =>
              rw [hresult] at hpluck
              cases hpluck
          · rw [hparse] at htokens
            cases htokens
            rw [jsonPluck_ok _ hothers, jsonPluck_ok _ hothers, update_diverges hupdate hdiverges]
      · rw [hparse] at htokens
        cases htokens
        rw [update_of_descends value hdescends (hnot _ hparse)] at hend
        exact hend
  · obtain ⟨hmemory, error, herror⟩ := jsonSet_unset memory data ref
      fun token rest hparse => htokens ⟨token, rest, hparse⟩
    constructor
    · rintro _ tokens hparse ⟨before, token, after, _, _, rfl, _⟩
      cases before with
      | nil => exact htokens ⟨_, _, hparse⟩
      | cons first before => exact htokens ⟨_, _, hparse⟩
    · intro _
      refine ⟨by rw [hmemory]; exact Kept.refl _, fun root hroot => ?_, fun _ _ _ => ⟨error, herror⟩⟩
      rw [herror] at hroot
      cases hroot

end Call

/-- The caller holds `{"a": 1, "b": [2]}` at 0, with the list at 1. -/
def sampleMemory : Memory :=
  [.dict [("a", .scalar ⟨.int 1, rfl⟩), ("b", .cell 1)], .list [.scalar ⟨.int 2, rfl⟩]]

def sampleEntries : List (String × Value) := [("a", .int 1), ("b", .list [.int 2])]

theorem sampleMemory_reads : Reads sampleMemory (.dict sampleEntries) (.cell 0) :=
  ⟨0, _, rfl, rfl, _, _, rfl, ⟨rfl, rfl⟩, _, _, rfl, ⟨1, _, rfl, rfl, _, _, rfl, ⟨rfl, rfl⟩, rfl⟩, rfl⟩

theorem five_reads : Reads sampleMemory (.int 5) (.scalar ⟨.int 5, rfl⟩) := ⟨rfl, rfl⟩

theorem parse_sample : Pointer.parsePointer "/b/0" = .ok ["b", "0"] := by rfl

theorem jsonSet_lawful_element :
    Lawful sampleMemory 0 "/b/0" (.scalar ⟨.int 5, rfl⟩) (.dict sampleEntries) (.int 5) := by
  refine (jsonSet_lawful_iff sampleMemory_reads five_reads).2 fun tokens htokens hdiscards => ?_
  rw [parse_sample] at htokens
  cases htokens
  obtain ⟨before, token, after, entries, scalar, heq, hafter, hwalk, hlookup, hscalar⟩ := hdiscards
  rcases before with _ | ⟨first, _ | ⟨second, before⟩⟩
  · cases heq
    cases hwalk
    cases hlookup
    cases hscalar
  · cases heq
    exact hafter rfl
  · simp at heq

/-- The scalar under `a` is replaced by a dict, and nothing is raised. -/
theorem scalar_discarded : ¬ Lawful sampleMemory 0 "/a/x" (.scalar ⟨.int 5, rfl⟩) (.dict sampleEntries) (.int 5) := by
  intro hlawful
  have hparse : Pointer.parsePointer "/a/x" = .ok ["a", "x"] := by rfl
  obtain ⟨error, herror⟩ := hlawful.refuses _ hparse ⟨["a"], ["x"], .int 1, rfl, by simp, rfl, rfl⟩
  have hok : (jsonSet sampleMemory 0 "/a/x" (.scalar ⟨.int 5, rfl⟩)).2.isOk = true := by decide +kernel
  rw [herror] at hok
  cases hok

end Contrib

end ChainWeaver
