import ChainWeaver.Data.SortedEntries
import ChainWeaver.Passthrough

/-!
# The tools a run can reach

Names lead to tools, and tools that wrap flows lead to the steps of those. A run
enters no tool beside these: the same run is one of the executor with every other
tool marked, and no mark shows in its events.
-/

namespace ChainWeaver.Executor

variable (executor : Executor) (good : Tool → Prop) (listed : String → Prop)

/-- A name that leads to good tools and listed flows only. -/
def Leads (name : String) : Prop :=
  ∀ tool, executor.tools.get? name = some tool → good tool ∧
    ∀ flowName toolName stepCount, tool.fn = .flow flowName toolName stepCount → listed flowName

/-- The steps of the listed flows, which are called by name, lead to good tools. -/
def Closed : Prop :=
  ∀ flowName flow, listed flowName → executor.registry.getFlow flowName none = .ok flow →
    ∀ step ∈ flow.steps, step.Within (executor.Leads good listed) listed

section Marks

variable [DecidablePred good]

/-- The tool, or a mark in its place. -/
def marked (size : Option Nat) (tool : Tool) : Tool :=
  if good tool then tool else { tool with maxOutputSize := size }

/-- The executor, and the same with the tools that are not good marked. -/
def markedTwin (size : Option Nat) : Twin where
  executor := executor
  tools := executor.tools.mapValues (marked good size)
  settings := executor.settings
  swap := id
  Inv _ := True
  A _ := True
  known := executor.Leads good listed
  listed := listed

variable {executor good listed}

theorem marked_get? (size : Option Nat) (name : String) :
    (executor.tools.mapValues (marked good size)).get? name = (executor.tools.get? name).map (marked good size) :=
  SortedEntries.lookup_map (marked good size) executor.tools.entries

theorem markedTwin_faithful (size : Option Nat) (hclosed : executor.Closed good listed) :
    (executor.markedTwin good listed size).Faithful where
  stable _ _ _ _ := trivial
  schemaHash name := by
    change ((executor.tools.mapValues (marked good size)).get? name).map _ = _
    rw [marked_get?, Option.map_map]
    congr 1
    funext tool
    unfold marked
    simp only [Function.comp_apply]
    split <;> rfl
  tool name tool hknown hget := by
    obtain ⟨hgood, hlisted⟩ := hknown tool hget
    refine ⟨?_, Twin.matches_of_swap rfl rfl hlisted⟩
    have hget : executor.tools.get? name = some tool := hget
    change (executor.tools.mapValues (marked good size)).get? name = some tool
    rw [marked_get?, hget, Option.map_some, marked, if_pos hgood]
  steps := hclosed

theorem rename_id (e : Event) : e.rename (renameTools id) = e := by
  obtain ⟨kind, query, reply⟩ := e
  cases kind with
  | probe => cases query with
    | nestedStart origin => cases origin <;> rfl
    | nestedEnd origin => cases origin <;> rfl
    | _ => rfl
  | _ => rfl

/-- A tool that is entered is in the table of the marked executor, whatever the mark. -/
theorem entered_marked {flowName : String}
    (hsteps : ∀ flow, executor.registry.getFlow flowName call.version = .ok flow →
      ∀ step ∈ flow.steps, step.Within (executor.Leads good listed) listed)
    (hclosed : executor.Closed good listed)
    (hrun : (executor.enter stack (executeIn lane flowName input call)).Runs state events r state')
    (he : e ∈ events) (htool : entered e = some tool) (size : Option Nat) :
    ∃ name original, executor.tools.get? name = some original ∧ marked good size original = tool := by
  have hT := markedTwin_faithful size hclosed
  have hstarts : (executor.markedTwin good listed size).StartsWithin flowName call := hsteps
  have hsame : (executor.markedTwin good listed size).Same
      (executor.enter stack (executeIn lane flowName input call))
      ((executor.markedTwin good listed size).other.enter stack (executeIn lane flowName input call)) := by
    cases lane with
    | sync => exact Twin.same_executeFlowWith hT (Twin.nestled_lanes hT stack) hstarts fun _ _ => trivial
    | async => exact Twin.same_executeFlowAsyncWith hT (Twin.nestled_lanes hT stack) hstarts
  have hmarked := hsame.runs_eq trivial (fun _ _ => trivial) hrun
  have hentered := enter_entered (tablePolicy_sound (executor.markedTwin good listed size).other) (fun _ => trivial) hmarked
  have htable := Policy.Admits.entered (tablePolicy_admits (executor.markedTwin good listed size).other) hentered
  obtain ⟨name, hname⟩ := htable e (List.mem_map.2 ⟨e, he, rename_id e⟩) tool htool
  unfold getTool at hname
  split at hname
  next found hfound =>
    obtain rfl := Except.ok.inj hname
    change (executor.tools.mapValues (marked good size)).get? name = _ at hfound
    rw [marked_get?, Option.map_eq_some_iff] at hfound
    obtain ⟨original, horiginal, heq⟩ := hfound
    exact ⟨name, original, horiginal, heq⟩
  · cases hname

end Marks

/-- A run of a flow whose steps lead to good tools only enters no other ones. -/
theorem entered_good {executor : Executor} {good : Tool → Prop} {listed : String → Prop} {flowName : String}
    (hsteps : ∀ flow, executor.registry.getFlow flowName call.version = .ok flow →
      ∀ step ∈ flow.steps, step.Within (executor.Leads good listed) listed)
    (hclosed : executor.Closed good listed)
    (hrun : (executor.enter stack (executeIn lane flowName input call)).Runs state events r state')
    (he : e ∈ events) (htool : entered e = some tool) : good tool := by
  classical
  by_contra hbad
  have hmark : ∀ size, tool.maxOutputSize = size := by
    intro size
    obtain ⟨name, original, -, heq⟩ := entered_marked hsteps hclosed hrun he htool size
    unfold marked at heq
    split at heq
    next horiginal => exact absurd (heq ▸ horiginal) hbad
    · exact (congrArg Tool.maxOutputSize heq).symm
  cases (hmark none).symm.trans (hmark (some 0))

end ChainWeaver.Executor
