import ChainWeaver.Dag
import ChainWeaver.TopologyLaws

/-!
# Branches

What becomes of the steps of a DAG flow: branch routing skips a step, or the step
runs and its own branches select a target. The marks the level loop keeps are
compared with a rule that only looks at dependencies.
-/

namespace ChainWeaver.Executor


open ChainWeaver.Topology (ids dependents dependenciesOf Declared Levelled)

inductive Fate
  | skipped
  | ran (target : Option String)
  deriving DecidableEq

abbrev Fates := List (DAGFlowStep × Fate)

/-- The steps of a walk, in the order of the walk. -/
def stepsOf (fates : Fates) : List DAGFlowStep := fates.map Prod.fst

-- The rule

/-- A dependency ran and selected another step. -/
def Routed (fates : Fates) (step : DAGFlowStep) : Prop :=
  ∃ parent target, (parent, .ran (some target)) ∈ fates ∧ parent.stepId ∈ step.dependsOn ∧ target ≠ step.stepId

/-- There are dependencies, and all of them were skipped. -/
def CutOff (fates : Fates) (step : DAGFlowStep) : Prop :=
  step.dependsOn ≠ [] ∧ ∀ dep ∈ step.dependsOn, ∃ parent, (parent, .skipped) ∈ fates ∧ parent.stepId = dep

/-- Every step has one fate, behind those of its dependencies, and which steps are
skipped follows from the selections. -/
structure BranchRule (steps : List DAGFlowStep) (fates : Fates) : Prop where
  once : (stepsOf fates).Perm steps
  behind : ∀ before step fate after, fates = before ++ (step, fate) :: after →
    ∀ dep ∈ step.dependsOn, dep ∈ ids (stepsOf before)
  skipped_iff : ∀ step fate, (step, fate) ∈ fates → (fate = .skipped ↔ Routed fates step ∨ CutOff fates step)

-- The marks

/-- The level loop as far as it concerns branches: the fates so far, and the
marks. -/
inductive Walked (steps : List DAGFlowStep) : Fates → List String → Prop
  | start : Walked steps [] []
  | skip : Walked steps fates skipped → skipDecision skipped step = true →
      Walked steps (fates ++ [(step, .skipped)])
        (if skipped.contains step.stepId then skipped else skipped ++ [step.stepId])
  | run (target) : Walked steps fates skipped → skipDecision skipped step = false →
      Walked steps (fates ++ [(step, .ran target)]) (markSkipped steps step target skipped)

section

variable {steps : List DAGFlowStep} {fates before after : Fates} {step parent : DAGFlowStep}

theorem skipDecision_iff : skipDecision skipped step = true ↔
    step.stepId ∈ skipped ∨ step.dependsOn ≠ [] ∧ ∀ dep ∈ step.dependsOn, dep ∈ skipped := by
  simp [skipDecision]

theorem mem_markSkipped : x ∈ markSkipped steps step target skipped ↔
    x ∈ skipped ∨ ∃ chosen, target = some chosen ∧ x ∈ dependents steps step.stepId ∧ x ≠ chosen := by
  cases target <;> simp [markSkipped]

/-- The marks are the ids of the skipped steps and what the selections exclude. -/
theorem Walked.mem_skipped (h : Walked steps fates skipped) : x ∈ skipped ↔
    (∃ parent target, (parent, .ran (some target)) ∈ fates ∧ x ∈ dependents steps parent.stepId ∧ x ≠ target) ∨
      ∃ step, (step, .skipped) ∈ fates ∧ step.stepId = x := by
  induction h with
  | start => simp
  | @skip fates skipped step _ _ ih =>
    have hmarks : x ∈ (if skipped.contains step.stepId then skipped else skipped ++ [step.stepId]) ↔
        x ∈ skipped ∨ x = step.stepId := by
      split
      · next hmem =>
        have hmem : step.stepId ∈ skipped := by simpa using hmem
        exact ⟨.inl, fun h => h.elim id fun h => h ▸ hmem⟩
      · simp
    rw [hmarks, ih]
    simp only [List.mem_append, List.mem_singleton, Prod.mk.injEq]
    constructor
    · rintro ((⟨parent, target, hran, hx⟩ | ⟨other, hskipped, rfl⟩) | rfl)
      · exact .inl ⟨parent, target, .inl hran, hx⟩
      · exact .inr ⟨other, .inl hskipped, rfl⟩
      · exact .inr ⟨step, .inr ⟨rfl, trivial⟩, rfl⟩
    · rintro (⟨parent, target, hran | ⟨_, hfate⟩, hx⟩ | ⟨other, hskipped | ⟨rfl, _⟩, rfl⟩)
      · exact .inl (.inl ⟨parent, target, hran, hx⟩)
      · cases hfate
      · exact .inl (.inr ⟨other, hskipped, rfl⟩)
      · exact .inr rfl
  | @run fates skipped step target _ _ ih =>
    rw [mem_markSkipped, ih]
    simp only [List.mem_append, List.mem_singleton, Prod.mk.injEq, Fate.ran.injEq]
    constructor
    · rintro ((⟨parent, target, hran, hx⟩ | ⟨other, hskipped, rfl⟩) | ⟨chosen, rfl, hx⟩)
      · exact .inl ⟨parent, target, .inl hran, hx⟩
      · exact .inr ⟨other, .inl hskipped, rfl⟩
      · exact .inl ⟨step, chosen, .inr ⟨rfl, rfl⟩, hx⟩
    · rintro (⟨parent, target, hran | ⟨rfl, rfl⟩, hx⟩ | ⟨other, hskipped | ⟨_, hfate⟩, rfl⟩)
      · exact .inl (.inl ⟨parent, target, hran, hx⟩)
      · exact .inr ⟨target, rfl, hx⟩
      · exact .inl (.inr ⟨other, hskipped, rfl⟩)
      · cases hfate

theorem append_cons_eq_concat {α : Type} {x last : α} {before after front : List α}
    (h : before ++ x :: after = front ++ [last]) :
    (before = front ∧ x = last) ∨ ∃ rest, front = before ++ x :: rest := by
  rcases List.eq_nil_or_concat after with rfl | ⟨rest, other, rfl⟩
  · obtain ⟨hfront, hlast⟩ := List.append_inj' h rfl
    exact .inl ⟨hfront, (List.cons.inj hlast).1⟩
  · have h : (before ++ x :: rest) ++ [other] = front ++ [last] := by simpa using h
    exact .inr ⟨rest, (List.append_inj' h rfl).1.symm⟩

/-- How the loop decided on one step of the walk. -/
theorem Walked.decided (h : Walked steps (before ++ (step, fate) :: after) skipped) :
    ∃ marks, Walked steps before marks ∧ (fate = .skipped ↔ skipDecision marks step = true) := by
  generalize hfates : before ++ (step, fate) :: after = fates at h
  induction h generalizing after with
  | start => simp at hfates
  | @skip fates marks other hwalked hskip ih =>
    rcases append_cons_eq_concat hfates with ⟨rfl, heq⟩ | ⟨rest, hrest⟩
    · obtain ⟨rfl, rfl⟩ := Prod.mk.inj heq
      exact ⟨marks, hwalked, by simp [hskip]⟩
    · exact ih hrest.symm
  | @run fates marks other target hwalked hskip ih =>
    rcases append_cons_eq_concat hfates with ⟨rfl, heq⟩ | ⟨rest, hrest⟩
    · obtain ⟨rfl, rfl⟩ := Prod.mk.inj heq
      exact ⟨marks, hwalked, by simp [hskip]⟩
    · exact ih hrest.symm

-- The marks obey the rule

theorem mem_dependents (hsteps : Declared steps) (hstep : step ∈ steps) :
    step.stepId ∈ dependents steps stepId ↔ stepId ∈ step.dependsOn := by
  simp only [dependents, List.mem_map, List.mem_filter, List.contains_iff_mem]
  constructor
  · rintro ⟨other, ⟨hother, hdep⟩, hid⟩
    exact hsteps.unique hstep hother hid ▸ hdep
  · exact fun hdep => ⟨step, ⟨hstep, hdep⟩, rfl⟩

/-- A walk over all steps, each behind its dependencies. -/
structure Complete (steps : List DAGFlowStep) (fates : Fates) : Prop extends Declared steps where
  once : (stepsOf fates).Perm steps
  order : DependencyOrder (dependenciesOf steps) [] (ids (stepsOf fates))

theorem Complete.mem (h : Complete steps fates) (hmem : (step, fate) ∈ fates) : step ∈ steps :=
  h.once.mem_iff.1 (List.mem_map.2 ⟨_, hmem, rfl⟩)

theorem Complete.unique (h : Complete steps fates) (hmem : entry ∈ fates) (hother : other ∈ fates)
    (hid : entry.1.stepId = other.1.stepId) : entry = other := by
  have hnodup := h.order.nodup.1
  rw [ids, stepsOf, List.map_map] at hnodup
  exact List.inj_on_of_nodup_map hnodup hmem hother hid

/-- An entry whose id has come up stands there. -/
theorem Complete.mem_before (h : Complete steps (before ++ after)) (hmem : entry ∈ before ++ after)
    (hid : entry.1.stepId ∈ ids (stepsOf before)) : entry ∈ before := by
  obtain ⟨_, hstep, hid⟩ := List.mem_map.1 hid
  obtain ⟨other, hother, rfl⟩ := List.mem_map.1 hstep
  exact h.unique (List.mem_append_left _ hother) hmem hid ▸ hother

theorem Complete.behind (h : Complete steps (before ++ (step, fate) :: after)) (hdep : dep ∈ step.dependsOn) :
    dep ∈ ids (stepsOf before) := by
  have hentry : (step, fate) ∈ before ++ (step, fate) :: after := by simp
  have horder := h.order
  simp only [ids, stepsOf, List.map_append, List.map_cons] at horder
  rw [← h.dependencies (h.mem hentry)] at hdep
  simpa [ids, stepsOf] using (horder.before hdep).resolve_left List.not_mem_nil

theorem Complete.routed_iff (h : Complete steps (before ++ (step, fate) :: after))
    (hwalked : Walked steps before marks) :
    step.stepId ∈ marks ↔ Routed (before ++ (step, fate) :: after) step := by
  have hentry : (step, fate) ∈ before ++ (step, fate) :: after := by simp
  have hstep : step ∈ steps := h.mem hentry
  rw [hwalked.mem_skipped]
  constructor
  · rintro (⟨parent, target, hran, hdependent, hne⟩ | ⟨other, hskipped, hid⟩)
    · exact ⟨parent, target, List.mem_append_left _ hran, (mem_dependents h.toDeclared hstep).1 hdependent, hne.symm⟩
    · have hnodup := h.order.nodup.1
      simp only [ids, stepsOf, List.map_append, List.map_cons] at hnodup
      refine absurd ?_ (List.disjoint_of_nodup_append hnodup (a := step.stepId) ?_)
      · simp
      · exact List.mem_map.2 ⟨other, List.mem_map.2 ⟨_, hskipped, rfl⟩, hid⟩
  · rintro ⟨parent, target, hran, hdep, hne⟩
    refine .inl ⟨parent, target, h.mem_before hran (h.behind hdep), ?_, hne.symm⟩
    exact (mem_dependents h.toDeclared hstep).2 hdep

theorem Complete.skipped_of_routed (h : Complete steps fates) (hwalked : Walked steps fates skipped)
    (hmem : (step, fate) ∈ fates) (hrouted : Routed fates step) : fate = .skipped := by
  obtain ⟨before, after, rfl⟩ := List.append_of_mem hmem
  obtain ⟨marks, hbefore, hfate⟩ := hwalked.decided
  exact hfate.2 (skipDecision_iff.2 (.inl ((h.routed_iff hbefore).2 hrouted)))

theorem Complete.dep_iff (h : Complete steps (before ++ (step, fate) :: after))
    (hwalked : Walked steps (before ++ (step, fate) :: after) skipped)
    (hbefore : Walked steps before marks) (hdep : dep ∈ step.dependsOn) :
    dep ∈ marks ↔ ∃ parent, (parent, .skipped) ∈ before ++ (step, fate) :: after ∧ parent.stepId = dep := by
  rw [hbefore.mem_skipped]
  constructor
  · rintro (⟨marker, target, hran, hdependent, hne⟩ | ⟨parent, hskipped, rfl⟩)
    · obtain ⟨_, hdeclared, rfl⟩ := List.mem_map.1 (h.behind hdep)
      obtain ⟨⟨parent, parentFate⟩, hearlier, rfl⟩ := List.mem_map.1 hdeclared
      have hparent : (parent, parentFate) ∈ before ++ (step, fate) :: after := List.mem_append_left _ hearlier
      -- What was marked before its turn came was skipped.
      have hrouted : Routed (before ++ (step, fate) :: after) parent :=
        ⟨marker, target, List.mem_append_left _ hran, (mem_dependents h.toDeclared (h.mem hparent)).1 hdependent,
          hne.symm⟩
      obtain rfl := h.skipped_of_routed hwalked hparent hrouted
      exact ⟨parent, hparent, rfl⟩
    · exact ⟨parent, List.mem_append_left _ hskipped, rfl⟩
  · rintro ⟨parent, hskipped, rfl⟩
    exact .inr ⟨parent, h.mem_before hskipped (h.behind hdep), rfl⟩

theorem Complete.branchRule (h : Complete steps fates) (hwalked : Walked steps fates skipped) :
    BranchRule steps fates := by
  refine ⟨h.once, fun before step fate after heq dep hdep => ?_, fun step fate hmem => ?_⟩
  · subst heq
    exact h.behind hdep
  · obtain ⟨before, after, rfl⟩ := List.append_of_mem hmem
    obtain ⟨marks, hbefore, hfate⟩ := hwalked.decided
    rw [hfate, skipDecision_iff, h.routed_iff hbefore, CutOff]
    exact or_congr_right (and_congr_right fun _ => forall₂_congr fun dep hdep => h.dep_iff hwalked hbefore hdep)

-- The order of the declarations

/-- Steps that ran in both walks selected the same. -/
def Agree (fates fates' : Fates) : Prop :=
  ∀ step target target', (step, .ran target) ∈ fates → (step, .ran target') ∈ fates' → target = target'

theorem Agree.symm (h : Agree fates fates') : Agree fates' fates :=
  fun step target target' h₁ h₂ => (h step target' target h₂ h₁).symm

theorem Complete.fate (h : Complete steps fates) (hstep : step ∈ steps) : ∃ fate, (step, fate) ∈ fates := by
  obtain ⟨⟨other, fate⟩, hmem, rfl⟩ := List.mem_map.1 (h.once.mem_iff.2 hstep)
  exact ⟨fate, hmem⟩

theorem Complete.skipped_or_ran (h : Complete steps fates) (hstep : step ∈ steps) :
    (∃ target, (step, .ran target) ∈ fates) ↔ (step, .skipped) ∉ fates := by
  constructor
  · rintro ⟨target, hran⟩ hskipped
    cases h.unique hran hskipped rfl
  · intro hnot
    obtain ⟨fate, hmem⟩ := h.fate hstep
    cases fate with
    | skipped => exact absurd hmem hnot
    | ran target => exact ⟨target, hmem⟩

/-- The rule gives the same in both walks, once the dependencies fare alike. -/
theorem rule_imp (h : Complete steps fates) (h' : Complete steps' fates') (hsteps : steps'.Perm steps)
    (hagree : Agree fates fates')
    (hdeps : ∀ parent ∈ steps, parent.stepId ∈ step.dependsOn →
      ((parent, .skipped) ∈ fates ↔ (parent, .skipped) ∈ fates'))
    (hrule : Routed fates step ∨ CutOff fates step) : Routed fates' step ∨ CutOff fates' step := by
  rcases hrule with ⟨parent, target, hran, hdep, hne⟩ | ⟨hsome, hall⟩
  · have hparent := h.mem hran
    have hnot : (parent, .skipped) ∉ fates' := fun hskipped =>
      (h.skipped_or_ran hparent).1 ⟨_, hran⟩ ((hdeps parent hparent hdep).2 hskipped)
    obtain ⟨target', hran'⟩ := (h'.skipped_or_ran (hsteps.mem_iff.2 hparent)).2 hnot
    obtain rfl := hagree parent _ _ hran hran'
    exact .inl ⟨parent, target, hran', hdep, hne⟩
  · refine .inr ⟨hsome, fun dep hdep => ?_⟩
    obtain ⟨parent, hskipped, rfl⟩ := hall dep hdep
    exact ⟨parent, (hdeps parent (h.mem hskipped) hdep).1 hskipped, rfl⟩

/-- With the same selections the same steps are skipped, whatever the order of the
declarations. -/
theorem Complete.skipped_iff (h : Complete steps fates) (hwalked : Walked steps fates skipped)
    (h' : Complete steps' fates') (hwalked' : Walked steps' fates' skipped') (hsteps : steps'.Perm steps)
    (hagree : Agree fates fates') (step : DAGFlowStep) :
    (step, .skipped) ∈ fates ↔ (step, .skipped) ∈ fates' := by
  have hall : ∀ stepId ∈ ids (stepsOf fates), ∀ step ∈ steps, step.stepId = stepId →
      ((step, .skipped) ∈ fates ↔ (step, .skipped) ∈ fates') := by
    refine h.order.induction (by simp) fun stepId _ ih step hstep hid => ?_
    subst hid
    rw [h.dependencies hstep] at ih
    have hdeps : ∀ parent ∈ steps, parent.stepId ∈ step.dependsOn →
        ((parent, .skipped) ∈ fates ↔ (parent, .skipped) ∈ fates') :=
      fun parent hparent hdep => ih _ hdep parent hparent rfl
    have hdeps' : ∀ parent ∈ steps', parent.stepId ∈ step.dependsOn →
        ((parent, .skipped) ∈ fates' ↔ (parent, .skipped) ∈ fates) :=
      fun parent hparent hdep => (hdeps parent (hsteps.mem_iff.1 hparent) hdep).symm
    obtain ⟨fate, hmem⟩ := h.fate hstep
    obtain ⟨fate', hmem'⟩ := h'.fate (hsteps.mem_iff.2 hstep)
    constructor
    · intro hskipped
      have hrule := ((h.branchRule hwalked).skipped_iff step _ hskipped).1 rfl
      have hfate := ((h'.branchRule hwalked').skipped_iff step _ hmem').2 (rule_imp h h' hsteps hagree hdeps hrule)
      exact hfate ▸ hmem'
    · intro hskipped
      have hrule := ((h'.branchRule hwalked').skipped_iff step _ hskipped).1 rfl
      have hfate := ((h.branchRule hwalked).skipped_iff step _ hmem).2
        (rule_imp h' h hsteps.symm hagree.symm hdeps' hrule)
      exact hfate ▸ hmem
  have hin : step ∈ steps → step.stepId ∈ ids (stepsOf fates) := fun hstep =>
    List.mem_map_of_mem (h.once.mem_iff.2 hstep)
  constructor
  · exact fun hskipped => (hall _ (hin (h.mem hskipped)) step (h.mem hskipped) rfl).1 hskipped
  · intro hskipped
    have hstep := hsteps.mem_iff.1 (h'.mem hskipped)
    exact (hall _ (hin hstep) step hstep rfl).2 hskipped

end

end ChainWeaver.Executor
