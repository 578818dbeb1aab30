import ChainWeaver.Sample
import ChainWeaver.TopologyLaws

/-!
# Which graphs have levels

The checks of `validate_dag_topology` leave out the graphs with a cycle and no
others, and the level of a step is the length of its longest chain of
dependencies.
-/

namespace ChainWeaver.Topology

variable {steps : List DAGFlowStep} {hashing : Hashing} {flow : DAGFlow} {levels : List (List DAGFlowStep)}
  {done group ready : List String}

-- The sorter leaves nothing behind

/-- Every step whose dependencies are handed out is handed out or ready. -/
def Prompt (steps : List DAGFlowStep) (done ready : List String) : Prop :=
  ∀ x ∈ ids steps, (∀ dep ∈ dependenciesOf steps x, dep ∈ done) → x ∈ done ++ ready

theorem Prompt.release (hsteps : Declared steps) (h : Prompt steps done (node :: queue)) :
    Prompt steps (node :: done) (queue ++ (freed steps done node).map (·.stepId)) := by
  intro x hx hdeps
  obtain ⟨step, hstep, rfl⟩ := List.mem_map.1 hx
  rw [hsteps.dependencies hstep] at hdeps
  by_cases hwaits : node ∈ step.dependsOn
  · have hfreed : step ∈ freed steps done node := mem_freed.2 ⟨hstep, hwaits, hdeps⟩
    simp only [List.mem_append]
    exact .inr (.inr (List.mem_map_of_mem hfreed))
  · have hold : step.stepId ∈ done ++ node :: queue := by
      refine h _ hx fun dep hdep => ?_
      rw [hsteps.dependencies hstep] at hdep
      exact (List.mem_cons.1 (hdeps dep hdep)).resolve_left fun heq => hwaits (heq ▸ hdep)
    simp only [List.mem_append, List.mem_cons] at hold ⊢
    tauto

theorem Prompt.handOut (hsteps : Declared steps) (h : Prompt steps done (group ++ ready)) :
    let next := group.foldl (fun acc node => Topology.release steps acc.1 acc.2 node) (done, ready)
    Prompt steps next.1 next.2 := by
  induction group generalizing done ready with
  | nil => exact h
  | cons node group ih =>
    rw [List.cons_append] at h
    have h := h.release hsteps
    rw [List.append_assoc] at h
    rw [List.foldl_cons, release_eq]
    exact ih h

theorem Prompt.settled (hsteps : Declared steps) (hacyclic : Acyclic (dependenciesOf steps))
    (h : Prompt steps done []) : ∀ x ∈ ids steps, x ∈ done := by
  have hids : ∀ x, dependenciesOf steps x ≠ [] → x ∈ ids steps := fun x hx => by
    by_contra hmem
    exact hx (dependenciesOf_eq_nil fun step hstep hid => absurd (List.mem_map.2 ⟨step, hstep, hid⟩) hmem)
  intro x hx
  induction x using (hacyclic.wellFounded hids).induction with
  | _ x ih =>
    obtain ⟨step, hstep, rfl⟩ := List.mem_map.1 hx
    refine (List.mem_append.1 (h _ hx fun dep hdep => ih dep hdep ?_)).resolve_right (by simp)
    rw [hsteps.dependencies hstep] at hdep
    exact hsteps.known step hstep dep hdep

/-- With a group for each step left, the sorter hands out everything. -/
theorem staticOrder_covers (hsteps : Declared steps) (hacyclic : Acyclic (dependenciesOf steps))
    (hqueued : Queued steps done group) (hprompt : Prompt steps done group) (hdone : ∀ x ∈ done, x ∈ ids steps)
    (hfuel : (ids steps).length < fuel + done.length) :
    ∀ x ∈ ids steps, x ∈ done ++ staticOrder steps fuel done group := by
  induction fuel generalizing done group with
  | zero =>
    have hle : done.length ≤ (ids steps).length :=
      (List.subperm_of_subset hqueued.nodup.of_append_left hdone).length_le
    omega
  | succ fuel ih =>
    cases group with
    | nil =>
      intro x hx
      simpa [staticOrder] using hprompt.settled hsteps hacyclic x hx
    | cons node rest =>
      have hqueued' : Queued steps done ((node :: rest) ++ []) := by simpa using hqueued
      have hprompt' : Prompt steps done ((node :: rest) ++ []) := by simpa using hprompt
      obtain ⟨heq, hnext⟩ := hqueued'.handOut hsteps
      have hcovers := ih hnext (hprompt'.handOut hsteps)
        (fun x hx => by
          rw [heq, List.mem_append, List.mem_reverse] at hx
          exact hx.elim (hqueued.known x) (hdone x))
        (by rw [heq, List.length_append, List.length_reverse, List.length_cons]; omega)
      intro x hx
      have hmem := hcovers x hx
      rw [heq] at hmem
      rw [staticOrder]
      simp only [List.mem_append, List.mem_reverse] at hmem ⊢
      rw [heq]
      tauto

/-- The nodes the sorter starts with. -/
def roots (hashing : Hashing) (steps : List DAGFlowStep) : List String :=
  (nodes hashing steps).filter fun node => steps.all fun step => step.stepId != node || step.dependsOn.isEmpty

theorem topoOrder_eq : topoOrder hashing steps =
    staticOrder steps ((nodes hashing steps).length + 1) [] (roots hashing steps) := rfl

theorem Declared.mem_roots (h : Declared steps) :
    x ∈ roots hashing steps ↔ x ∈ ids steps ∧ dependenciesOf steps x = [] := by
  rw [roots, List.mem_filter, h.mem_nodes]
  refine and_congr_right fun hx => ?_
  obtain ⟨step, hstep, rfl⟩ := List.mem_map.1 hx
  rw [h.dependencies hstep, List.all_eq_true]
  constructor
  · intro hall
    simpa using hall step hstep
  · intro hnil other hother
    by_cases hid : other.stepId = step.stepId
    · rw [h.unique hstep hother hid]
      simp [hnil]
    · simp [hid]

theorem Declared.queued_roots (h : Declared steps) : Queued steps [] (roots hashing steps) := by
  refine ⟨nodes_spec.1.filter _, fun x hx => (h.mem_roots.1 hx).1, fun x hx => ?_⟩
  rw [(h.mem_roots.1 hx).2]
  simp

theorem Declared.prompt_roots (h : Declared steps) : Prompt steps [] (roots hashing steps) := fun _ hx hdeps =>
  h.mem_roots.2 ⟨hx, List.eq_nil_iff_forall_not_mem.2 fun dep hdep => List.not_mem_nil (hdeps dep hdep)⟩

theorem Declared.hasCycle_iff (h : Declared steps) :
    hasCycle hashing steps = false ↔ Acyclic (dependenciesOf steps) := by
  obtain ⟨horder, hknown⟩ := h.topoOrder hashing
  have hnodes : (nodes hashing steps).Perm (ids steps) :=
    (List.perm_ext_iff_of_nodup nodes_spec.1 h.nodup).2 fun x => h.mem_nodes
  have hle : (Topology.topoOrder hashing steps).length ≤ (ids steps).length :=
    (List.subperm_of_subset horder.nodup.1 hknown).length_le
  rw [hasCycle, decide_eq_false_iff_not, not_lt, hnodes.length_eq]
  constructor
  · intro hlength
    have hperm := (List.subperm_of_subset horder.nodup.1 hknown).perm_of_length_le hlength
    refine horder.acyclic fun x hx => hperm.mem_iff.2 ?_
    by_contra hmem
    exact hx (dependenciesOf_eq_nil fun step hstep hid => absurd (List.mem_map.2 ⟨step, hstep, hid⟩) hmem)
  · intro hacyclic
    have hcovers : ∀ x ∈ ids steps, x ∈ [] ++ Topology.topoOrder hashing steps := by
      rw [topoOrder_eq]
      exact staticOrder_covers h hacyclic h.queued_roots h.prompt_roots (by simp) (by simp [hnodes.length_eq])
    exact (List.subperm_of_subset h.nodup hcovers).length_le

-- What is accepted

def targetsOf (step : DAGFlowStep) : List String :=
  step.branches.map (·.targetStepId) ++ step.defaultNext.toList

/-- What a DAG flow has to satisfy, in terms of its graph. -/
structure WellFormed (steps : List DAGFlowStep) : Prop extends Declared steps where
  acyclic : Acyclic (dependenciesOf steps)
  direct : ∀ step ∈ steps, ∀ target ∈ targetsOf step,
    ∃ other ∈ steps, other.stepId = target ∧ step.stepId ∈ other.dependsOn

theorem mem_dependents : target ∈ dependents steps stepId ↔
    ∃ other ∈ steps, other.stepId = target ∧ stepId ∈ other.dependsOn := by
  simp only [dependents, List.mem_map, List.mem_filter, List.contains_eq_mem, decide_eq_true_eq]
  exact exists_congr fun other => by tauto

theorem badTarget_none : badTarget steps (ids steps) step targets = none ↔
    ∀ target ∈ targets.map Prod.fst, target ∈ dependents steps step.stepId := by
  induction targets with
  | nil => simp [badTarget]
  | cons entry rest ih =>
    obtain ⟨target, label⟩ := entry
    have hdeclared : target ∈ dependents steps step.stepId → target ∈ ids steps := fun h => by
      obtain ⟨other, hother, rfl, _⟩ := mem_dependents.1 h
      exact List.mem_map_of_mem hother
    rw [List.map_cons, List.forall_mem_cons, ← ih, badTarget]
    split
    · next hunknown => exact iff_of_false nofun fun h => by simp [hdeclared h.1] at hunknown
    split
    · next hindirect => exact iff_of_false nofun fun h => by simp [h.1] at hindirect
    · next hdirect =>
      have hdirect : target ∈ dependents steps step.stepId := by simpa using hdirect
      simp [hdirect]

theorem branchTargets_fst : (branchTargets step).map Prod.fst = targetsOf step := by
  simp [branchTargets, targetsOf, Function.comp_def]

theorem validateDagTopology_ok_iff : validateDagTopology hashing flow = .ok () ↔ WellFormed flow.steps := by
  have htargets : (flow.steps.findSome? fun step =>
        badTarget flow.steps (flow.steps.map (·.stepId)) step (branchTargets step)) = none ↔
      ∀ step ∈ flow.steps, ∀ target ∈ targetsOf step,
        ∃ other ∈ flow.steps, other.stepId = target ∧ step.stepId ∈ other.dependsOn := by
    rw [List.findSome?_eq_none_iff]
    refine forall₂_congr fun step _ => ?_
    rw [← ids, badTarget_none, branchTargets_fst]
    exact forall₂_congr fun target _ => mem_dependents
  unfold validateDagTopology
  dsimp only
  split
  next hduplicate =>
    refine iff_of_false nofun fun h => ?_
    rw [duplicateId_none.2 ⟨h.nodup, by simp⟩] at hduplicate
    cases hduplicate
  next hduplicate =>
  split
  next hunknown =>
    refine iff_of_false nofun fun h => ?_
    rw [show unknownDependency (flow.steps.map (·.stepId)) flow.steps = none from
      unknownDependency_none.2 h.known] at hunknown
    cases hunknown
  next hunknown =>
  have hsteps : Declared flow.steps := ⟨(duplicateId_none.1 hduplicate).1, unknownDependency_none.1 hunknown⟩
  split
  next hcycle =>
    refine iff_of_false nofun fun h => ?_
    rw [hsteps.hasCycle_iff.2 h.acyclic] at hcycle
    cases hcycle
  next hcycle =>
  have hacyclic := hsteps.hasCycle_iff.1 (by simpa using hcycle)
  split
  next hbad => exact iff_of_false nofun fun h => by rw [htargets.2 h.direct] at hbad; cases hbad
  next hgood => exact iff_of_true rfl ⟨hsteps, hacyclic, htargets.1 hgood⟩

-- Levels are depths

theorem foldl_max_cases (start : Nat) (numbers : List Nat) :
    numbers.foldl max start = start ∨ numbers.foldl max start ∈ numbers := by
  induction numbers generalizing start with
  | nil => exact .inl rfl
  | cons n rest ih =>
    rw [List.foldl_cons]
    rcases ih (max start n) with heq | hmem
    · rcases max_choice start n with hmax | hmax
      · exact .inl (heq.trans hmax)
      · exact .inr (by rw [heq, hmax]; simp)
    · exact .inr (List.mem_cons_of_mem _ hmem)

theorem foldl_max_mem {numbers : List Nat} (h : numbers ≠ []) : numbers.foldl max 0 ∈ numbers := by
  rcases foldl_max_cases 0 numbers with heq | hmem
  · obtain ⟨n, hn⟩ := List.exists_mem_of_ne_nil numbers h
    have hle := (le_foldl_max 0).2 n hn
    rw [heq, Nat.le_zero] at hle
    rw [heq]
    exact hle ▸ hn
  · exact hmem

/-- One more than the deepest dependency is the length of the longest chain. -/
theorem depth_nextLevel {level : String → Nat}
    (h : ∀ dep ∈ dependenciesOf steps x, Depth (dependenciesOf steps) dep (level dep)) :
    Depth (dependenciesOf steps) x (nextLevel steps level x) := by
  by_cases hnil : dependenciesOf steps x = []
  · have hzero : nextLevel steps level x = 0 := by simp [nextLevel, hnil]
    rw [hzero]
    refine ⟨.start, fun n hn => ?_⟩
    cases hn with
    | start => exact le_rfl
    | step hd _ => simp [hnil] at hd
  · have hsucc : nextLevel steps level x = ((dependenciesOf steps x).map level).foldl max 0 + 1 := by
      simp [nextLevel, hnil]
    rw [hsucc]
    constructor
    · have hmem : ((dependenciesOf steps x).map level).foldl max 0 ∈ (dependenciesOf steps x).map level :=
        foldl_max_mem (by simpa using hnil)
      obtain ⟨dep, hdep, hlevel⟩ := List.mem_map.1 hmem
      exact DependencyPath.step hdep (hlevel ▸ (h dep hdep).1)
    · intro n hn
      cases hn with
      | start => exact Nat.zero_le _
      | step hd hpath =>
        refine Nat.succ_le_succ (le_trans ((h _ hd).2 hpath) ?_)
        exact (le_foldl_max 0).2 _ (List.mem_map_of_mem hd)

theorem Levelled.depth (h : Levelled steps height levels) :
    ∀ x ∈ ids steps, Depth (dependenciesOf steps) x (height x) := by
  have hperm : (ids levels.flatten).Perm (ids steps) := h.perm.map _
  have hall : ∀ x ∈ ids levels.flatten, Depth (dependenciesOf steps) x (height x) := by
    refine h.order.induction (by simp) fun x hx hdeps => ?_
    obtain ⟨step, hstep, rfl⟩ := List.mem_map.1 (hperm.mem_iff.1 hx)
    rw [h.height_eq step hstep]
    exact depth_nextLevel hdeps
  exact fun x hx => hall x (hperm.mem_iff.2 hx)

/-- A level is the steps of its depth. -/
theorem Levelled.mem_iff (h : Levelled steps height levels) (hlevel : levels[n]? = some level) :
    step ∈ level ↔ step ∈ steps ∧ Depth (dependenciesOf steps) step.stepId n := by
  rw [h.mem_level n level step hlevel]
  refine and_congr_right fun hstep => ?_
  have hdepth := h.depth _ (List.mem_map_of_mem hstep)
  exact ⟨fun heq => heq ▸ hdepth, fun hn => hdepth.unique hn⟩

theorem Declared.closed (h : Declared steps) : ∀ x, x ∈ ids steps → ∀ dep ∈ dependenciesOf steps x, dep ∈ ids steps := by
  intro x hx dep hdep
  obtain ⟨step, hstep, rfl⟩ := List.mem_map.1 hx
  rw [h.dependencies hstep] at hdep
  exact h.known step hstep dep hdep

theorem computeDagLevels_nonempty (h : computeDagLevels hashing flow = .ok levels) : ∀ level ∈ levels, level ≠ [] := by
  obtain ⟨entries, hkeys, rfl, hperm, hlevelled⟩ := computeDagLevels_levelIn h
  rw [← hkeys] at hperm
  intro level hmem
  obtain ⟨n, hn, rfl⟩ := List.mem_map.1 hmem
  have hn := List.mem_range.1 hn
  -- The last level has a step, and below a step there is one of every smaller depth.
  have hne : entries.map (fun entry => entry.2 + 1) ≠ [] := by
    rintro hnil
    simp [levelCount, hnil] at hn
  obtain ⟨top, htop, heq⟩ := List.mem_map.1 (foldl_max_mem hne)
  change top.2 + 1 = levelCount entries at heq
  have hlevels : ∀ m < levelCount entries, ((List.range (levelCount entries)).map (levelOf flow.steps entries))[m]? =
      some (levelOf flow.steps entries m) := fun m hm => by simp [hm]
  obtain ⟨step, hstep, hid⟩ := List.mem_map.1 (hperm.mem_iff.1 (List.mem_map_of_mem htop))
  have htopLevel : step ∈ levelOf flow.steps entries top.2 := by
    refine List.mem_filterMap.2 ⟨top, List.mem_filter.2 ⟨htop, by simp⟩, ?_⟩
    rw [← hid]
    exact hlevelled.find hstep
  have hdepth := ((hlevelled.mem_iff (hlevels top.2 (by omega))).1 htopLevel).2
  obtain ⟨y, hy, hdepth⟩ := hdepth.reaches hlevelled.closed (List.mem_map_of_mem hstep) (show n ≤ top.2 by omega)
  obtain ⟨other, hother, rfl⟩ := List.mem_map.1 hy
  exact List.ne_nil_of_mem ((hlevelled.mem_iff (hlevels n hn)).2 ⟨hother, hdepth⟩)

-- The levels of an accepted flow

/-- The steps are dealt out to levels by the length of their longest chain of
dependencies. -/
structure ByDepth (steps : List DAGFlowStep) (levels : List (List DAGFlowStep)) : Prop where
  partition : levels.flatten.Perm steps
  once : ∀ step ∈ steps, ∃! n : Nat, ∃ level, levels[n]? = some level ∧ step ∈ level
  depth : ∀ (n : Nat) level, levels[n]? = some level → ∀ step ∈ level, Depth (dependenciesOf steps) step.stepId n
  occupied : ∀ level ∈ levels, level ≠ []
  behind : ∀ (n : Nat) level, levels[n]? = some level → ∀ step ∈ level, ∀ dep ∈ step.dependsOn,
    ∃ m < n, ∃ lower, levels[m]? = some lower ∧ ∃ parent ∈ lower, parent.stepId = dep

theorem Levelled.placed (h : Levelled steps height levels) (hstep : step ∈ steps) :
    ∃ level, levels[height step.stepId]? = some level ∧ step ∈ level := by
  obtain ⟨level, hlevel, hmem⟩ := List.mem_flatten.1 (h.perm.mem_iff.2 hstep)
  obtain ⟨n, hn, rfl⟩ := List.mem_iff_getElem.1 hlevel
  have hget : levels[n]? = some levels[n] := List.getElem?_eq_getElem hn
  obtain ⟨_, rfl⟩ := (h.mem_level n _ step hget).1 hmem
  exact ⟨_, hget, hmem⟩

theorem computeDagLevels_byDepth (h : computeDagLevels hashing flow = .ok levels) : ByDepth flow.steps levels := by
  obtain ⟨height, hlevelled⟩ := computeDagLevels_levelled h
  constructor
  · exact hlevelled.perm
  · intro step hstep
    refine ⟨height step.stepId, hlevelled.placed hstep, ?_⟩
    rintro n ⟨level, hlevel, hmem⟩
    exact ((hlevelled.mem_level n level step hlevel).1 hmem).2.symm
  · intro n level hlevel step hmem
    exact ((hlevelled.mem_iff hlevel).1 hmem).2
  · exact computeDagLevels_nonempty h
  · intro n level hlevel step hmem dep hdep
    obtain ⟨hstep, rfl⟩ := (hlevelled.mem_level n level step hlevel).1 hmem
    obtain ⟨parent, hparent, rfl, hlt⟩ := hlevelled.dependency hstep hdep
    obtain ⟨lower, hlower, hmem⟩ := hlevelled.placed hparent
    exact ⟨_, hlt, lower, hlower, parent, hmem, rfl⟩

theorem levels_by_depth (hashing : Hashing) (flow : DAGFlow) :
    (validateDagTopology hashing flow = .ok () ↔ WellFormed flow.steps) ∧
      (validateDagTopology hashing flow = .ok () →
        ∃ levels, computeDagLevels hashing flow = .ok levels ∧ ByDepth flow.steps levels) := by
  refine ⟨validateDagTopology_ok_iff, fun h => ?_⟩
  have hlevels : ∃ levels, computeDagLevels hashing flow = .ok levels := by
    unfold computeDagLevels
    rw [h]
    exact ⟨_, rfl⟩
  obtain ⟨levels, hlevels⟩ := hlevels
  exact ⟨levels, hlevels, computeDagLevels_byDepth hlevels⟩

def chained : DAGFlow where
  name := "f"
  steps := [Sample.node "b" ["a", "a"] (Sample.step "t"), Sample.node "a" [] (Sample.step "t")]

theorem chained_by_depth : ∃ levels, computeDagLevels Sample.platform.hashing chained = .ok levels ∧
    ByDepth chained.steps levels :=
  (levels_by_depth Sample.platform.hashing chained).2 (by rfl)

end ChainWeaver.Topology
