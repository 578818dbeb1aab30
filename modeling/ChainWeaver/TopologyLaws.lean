import ChainWeaver.Data.DependencyOrder
import ChainWeaver.Topology
import Mathlib.Data.List.Dedup
import Mathlib.Data.List.Perm.Subperm

/-!
# Levels follow the dependencies

A flow that passes `validate_dag_topology` is sorted completely: its levels hold
every step once, each behind the steps it depends on.
-/

namespace ChainWeaver.Topology

variable {steps : List DAGFlowStep} {step : DAGFlowStep} {hashing : Hashing}

def ids (steps : List DAGFlowStep) : List String := steps.map (·.stepId)

def dependenciesOf (steps : List DAGFlowStep) (stepId : String) : List String :=
  ((steps.find? fun step => step.stepId = stepId).map (·.dependsOn)).getD []

-- What the checks establish

/-- Each id is declared once, and dependencies are declared. -/
structure Declared (steps : List DAGFlowStep) : Prop where
  nodup : (ids steps).Nodup
  known : ∀ step ∈ steps, ∀ dep ∈ step.dependsOn, dep ∈ ids steps

theorem duplicateId_none : duplicateId steps seen = none ↔ (ids steps).Nodup ∧ ∀ stepId ∈ ids steps, stepId ∉ seen := by
  induction steps generalizing seen with
  | nil => simp [duplicateId, ids]
  | cons step rest ih =>
    unfold duplicateId
    split
    next hseen => exact iff_of_false nofun fun h => h.2 step.stepId (by simp [ids]) (by simpa using hseen)
    next hseen =>
    rw [ih]
    constructor
    · rintro ⟨hnodup, hfresh⟩
      refine ⟨List.nodup_cons.2 ⟨fun hmem => hfresh _ hmem (by simp), hnodup⟩, ?_⟩
      refine List.forall_mem_cons.2 ⟨by simpa using hseen, fun stepId hmem hold => ?_⟩
      exact hfresh _ hmem (List.mem_cons_of_mem _ hold)
    · rintro ⟨hnodup, hfresh⟩
      obtain ⟨hown, hnodup⟩ := List.nodup_cons.1 hnodup
      refine ⟨hnodup, fun stepId hmem hold => ?_⟩
      rcases List.mem_cons.1 hold with rfl | hold
      · exact hown hmem
      · exact hfresh stepId (List.mem_cons_of_mem _ hmem) hold

theorem unknownDependency_none : unknownDependency stepIds steps = none ↔
    ∀ step ∈ steps, ∀ dep ∈ step.dependsOn, dep ∈ stepIds := by
  induction steps with
  | nil => simp [unknownDependency]
  | cons step rest ih =>
    unfold unknownDependency
    cases hfind : step.dependsOn.find? fun dep => !stepIds.contains dep with
    | some dep =>
      refine iff_of_false nofun fun h => ?_
      have hknown := h step (by simp) dep (List.mem_of_find?_eq_some hfind)
      have hunknown := List.find?_some hfind
      simp [hknown] at hunknown
    | none =>
      have hknown : ∀ dep ∈ step.dependsOn, dep ∈ stepIds := fun dep hdep => by
        simpa using List.find?_eq_none.1 hfind dep hdep
      simpa [ih] using fun _ => hknown

theorem Declared.find (h : Declared steps) (hstep : step ∈ steps) :
    steps.find? (fun other => other.stepId = step.stepId) = some step := by
  have hnodup := h.nodup
  clear h
  induction steps with
  | nil => cases hstep
  | cons other rest ih =>
    obtain ⟨hfresh, hnodup⟩ := List.nodup_cons.1 hnodup
    rcases List.mem_cons.1 hstep with rfl | hmem
    · simp
    · have hne : other.stepId ≠ step.stepId := fun heq =>
        hfresh (List.mem_map.2 ⟨step, hmem, heq.symm⟩)
      rw [List.find?_cons_of_neg (by simpa using hne)]
      exact ih hmem hnodup

theorem Declared.dependencies (h : Declared steps) (hstep : step ∈ steps) :
    dependenciesOf steps step.stepId = step.dependsOn := by
  simp [dependenciesOf, h.find hstep]

theorem Declared.unique (h : Declared steps) (hstep : step ∈ steps) (hother : other ∈ steps)
    (hid : other.stepId = step.stepId) : other = step := by
  have hfind := h.find hother
  rw [hid, h.find hstep] at hfind
  exact (Option.some.inj hfind).symm

theorem dependenciesOf_eq_nil (h : ∀ step ∈ steps, step.stepId = stepId → step.dependsOn = []) :
    dependenciesOf steps stepId = [] := by
  unfold dependenciesOf
  cases hfind : steps.find? fun step => step.stepId = stepId with
  | none => rfl
  | some step => exact h step (List.mem_of_find?_eq_some hfind) (by simpa using List.find?_some hfind)

-- The nodes of the sorter

/-- One node met by the sorter. -/
def meet (met : List String) (node : String) : List String :=
  if met.contains node then met else met ++ [node]

theorem meet_nodup (h : met.Nodup) (node : String) : (meet met node).Nodup := by
  unfold meet
  split
  · exact h
  · next hnew =>
    have hnew : node ∉ met := by simpa using hnew
    exact h.append (List.nodup_singleton _) (by simpa using hnew)

theorem mem_meet : x ∈ meet met node ↔ x ∈ met ∨ x = node := by
  unfold meet
  split
  · next hold =>
    have hold : node ∈ met := by simpa using hold
    exact ⟨.inl, fun h => h.elim id fun h => h ▸ hold⟩
  · simp

theorem foldl_meet (h : met.Nodup) (fresh : List String) :
    (fresh.foldl meet met).Nodup ∧ ∀ x, x ∈ fresh.foldl meet met ↔ x ∈ met ∨ x ∈ fresh := by
  induction fresh generalizing met with
  | nil => exact ⟨h, by simp⟩
  | cons node rest ih =>
    obtain ⟨hnodup, hmem⟩ := ih (meet_nodup h node)
    refine ⟨hnodup, fun x => ?_⟩
    rw [List.foldl_cons, hmem, mem_meet, List.mem_cons, or_assoc]

theorem nodes_spec : (nodes hashing steps).Nodup ∧
    ∀ x, x ∈ nodes hashing steps ↔ ∃ step ∈ steps, x = step.stepId ∨ x ∈ step.dependsOn := by
  have hspec : ∀ met : List String, met.Nodup →
      (steps.foldl (fun acc step => (step.stepId :: hashing.setOrder step.dependsOn.dedup).foldl meet acc) met).Nodup ∧
      ∀ x, x ∈ steps.foldl (fun acc step => (step.stepId :: hashing.setOrder step.dependsOn.dedup).foldl meet acc) met ↔
        x ∈ met ∨ ∃ step ∈ steps, x = step.stepId ∨ x ∈ step.dependsOn := by
    induction steps with
    | nil => simp
    | cons step rest ih =>
      intro met hmet
      obtain ⟨hnodup, hmem⟩ := foldl_meet hmet (step.stepId :: hashing.setOrder step.dependsOn.dedup)
      obtain ⟨hnodup', hmem'⟩ := ih _ hnodup
      refine ⟨hnodup', fun x => ?_⟩
      rw [List.foldl_cons, hmem', hmem, List.mem_cons, (hashing.setOrder_perm _).mem_iff, List.mem_dedup,
        List.exists_mem_cons_iff, or_assoc]
  obtain ⟨hnodup, hmem⟩ := hspec [] .nil
  exact ⟨hnodup, fun x => (hmem x).trans (by simp)⟩

theorem Declared.mem_nodes (h : Declared steps) : x ∈ nodes hashing steps ↔ x ∈ ids steps := by
  rw [nodes_spec.2]
  constructor
  · rintro ⟨step, hstep, rfl | hdep⟩
    · exact List.mem_map.2 ⟨step, hstep, rfl⟩
    · exact h.known step hstep x hdep
  · intro hmem
    obtain ⟨step, hstep, rfl⟩ := List.mem_map.1 hmem
    exact ⟨step, hstep, .inl rfl⟩

-- The order of the sorter

/-- The sorter has handed out `done` and holds `queue` ready. -/
structure Queued (steps : List DAGFlowStep) (done queue : List String) : Prop where
  nodup : (done ++ queue).Nodup
  known : ∀ x ∈ queue, x ∈ ids steps
  settled : ∀ x ∈ done ++ queue, ∀ dep ∈ dependenciesOf steps x, dep ∈ done

/-- The steps that a node frees. -/
def freed (steps : List DAGFlowStep) (done : List String) (node : String) : List DAGFlowStep :=
  steps.filter fun step => step.dependsOn.contains node && step.dependsOn.all (node :: done).contains

theorem mem_freed : step ∈ freed steps done node ↔
    step ∈ steps ∧ node ∈ step.dependsOn ∧ ∀ dep ∈ step.dependsOn, dep ∈ node :: done := by
  simp [freed]

theorem Queued.release (hsteps : Declared steps) (h : Queued steps done (node :: queue)) :
    Queued steps (node :: done) (queue ++ (freed steps done node).map (·.stepId)) := by
  have hnode : node ∉ done := fun hmem => List.disjoint_of_nodup_append h.nodup hmem (by simp)
  -- A freed step waited for `node`, so it has not been handed out or held ready before.
  have hnew : ∀ x ∈ (freed steps done node).map (·.stepId), x ∉ done ++ node :: queue := by
    intro x hx hold
    obtain ⟨step, hstep, rfl⟩ := List.mem_map.1 hx
    obtain ⟨hstep, hwaits, _⟩ := mem_freed.1 hstep
    rw [← hsteps.dependencies hstep] at hwaits
    exact hnode (h.settled _ hold node hwaits)
  have hfreed : ((freed steps done node).map (·.stepId)).Nodup :=
    hsteps.nodup.sublist (List.filter_sublist.map _)
  refine ⟨?_, fun x hx => ?_, fun x hx dep hdep => ?_⟩
  · have hall : ((done ++ node :: queue) ++ (freed steps done node).map (·.stepId)).Nodup :=
      h.nodup.append hfreed fun x hold hx => hnew x hx hold
    have hperm : ((done ++ node :: queue) ++ (freed steps done node).map (·.stepId)).Perm
        ((node :: done) ++ (queue ++ (freed steps done node).map (·.stepId))) := by
      rw [List.append_assoc, List.cons_append, List.cons_append]
      exact List.perm_middle
    exact hperm.nodup_iff.1 hall
  · rcases List.mem_append.1 hx with hx | hx
    · exact h.known x (List.mem_cons_of_mem _ hx)
    · obtain ⟨step, hstep, rfl⟩ := List.mem_map.1 hx
      exact List.mem_map.2 ⟨step, (mem_freed.1 hstep).1, rfl⟩
  · have hcases : x ∈ done ++ node :: queue ∨ x ∈ (freed steps done node).map (·.stepId) := by
      simp only [List.mem_append, List.mem_cons] at hx ⊢
      tauto
    rcases hcases with hx | hx
    · exact List.mem_cons_of_mem _ (h.settled x hx dep hdep)
    · obtain ⟨step, hstep, rfl⟩ := List.mem_map.1 hx
      obtain ⟨hstep, _, hready⟩ := mem_freed.1 hstep
      rw [hsteps.dependencies hstep] at hdep
      exact hready dep hdep

theorem release_eq : release steps done ready node =
    (node :: done, ready ++ (freed steps done node).map (·.stepId)) := rfl

/-- A whole group is handed out. -/
theorem Queued.handOut (hsteps : Declared steps) (h : Queued steps done (group ++ ready)) :
    let next := group.foldl (fun acc node => Topology.release steps acc.1 acc.2 node) (done, ready)
    next.1 = group.reverse ++ done ∧ Queued steps next.1 next.2 := by
  induction group generalizing done ready with
  | nil => exact ⟨rfl, h⟩
  | cons node group ih =>
    rw [List.cons_append] at h
    have h := h.release hsteps
    rw [List.append_assoc] at h
    obtain ⟨hdone, hqueued⟩ := ih h
    rw [List.foldl_cons, release_eq]
    exact ⟨by simpa using hdone, hqueued⟩

theorem Queued.staticOrder (hsteps : Declared steps) (h : Queued steps done group) (fuel : Nat) :
    DependencyOrder (dependenciesOf steps) done (staticOrder steps fuel done group) ∧
      ∀ x ∈ Topology.staticOrder steps fuel done group, x ∈ ids steps := by
  induction fuel generalizing done group with
  | zero => exact ⟨.nil, by simp [Topology.staticOrder]⟩
  | succ fuel ih =>
    cases group with
    | nil => exact ⟨.nil, by simp [Topology.staticOrder]⟩
    | cons node rest =>
      rw [Topology.staticOrder]
      have h' : Queued steps done ((node :: rest) ++ []) := by simpa using h
      obtain ⟨hdone, hnext⟩ := Queued.handOut hsteps h'
      obtain ⟨horder, hknown⟩ := ih hnext
      constructor
      · refine .append (.chunk h.nodup fun x hx => h.settled x (List.mem_append_right _ hx)) ?_
        refine horder.congr fun x => ?_
        rw [hdone, List.mem_append, List.mem_reverse, List.mem_append, or_comm]
      · intro x hx
        exact (List.mem_append.1 hx).elim (h.known x) (hknown x)

theorem Declared.topoOrder (h : Declared steps) (hashing : Hashing) :
    DependencyOrder (dependenciesOf steps) [] (topoOrder hashing steps) ∧
      ∀ x ∈ Topology.topoOrder hashing steps, x ∈ ids steps := by
  refine Queued.staticOrder h ⟨?_, fun x hx => ?_, fun x hx => ?_⟩ _
  · exact nodes_spec.1.filter _
  · exact h.mem_nodes.1 (List.mem_filter.1 hx).1
  · have hroot := (List.mem_filter.1 hx).2
    rw [dependenciesOf_eq_nil fun step hstep hid => ?_]
    · simp
    · simpa [hid] using List.all_eq_true.1 hroot step hstep

/-- What the checks of a flow give: its steps are declared, and the sorter reaches
all of them. -/
structure Sorted (hashing : Hashing) (steps : List DAGFlowStep) : Prop extends Declared steps where
  perm : (topoOrder hashing steps).Perm (ids steps)

theorem validateDagTopology_sorted (h : validateDagTopology hashing flow = .ok ()) :
    Sorted hashing flow.steps := by
  unfold validateDagTopology at h
  dsimp only at h
  split at h
  · cases h
  next hduplicate =>
  split at h
  · cases h
  next hunknown =>
  split at h
  · cases h
  next hcycle =>
  have hsteps : Declared flow.steps :=
    ⟨(duplicateId_none.1 hduplicate).1, unknownDependency_none.1 hunknown⟩
  refine ⟨hsteps, ?_⟩
  obtain ⟨horder, hknown⟩ := hsteps.topoOrder hashing
  have hlength : (nodes hashing flow.steps).length ≤ (Topology.topoOrder hashing flow.steps).length := by
    simpa [hasCycle] using hcycle
  have hnodes : (nodes hashing flow.steps).Perm (ids flow.steps) :=
    (List.perm_ext_iff_of_nodup nodes_spec.1 hsteps.nodup).2 fun x => hsteps.mem_nodes
  rw [hnodes.length_eq] at hlength
  exact (List.subperm_of_subset horder.nodup.1 hknown).perm_of_length_le hlength

-- Levels

/-- The level of a step over the levels of the others. -/
def nextLevel (steps : List DAGFlowStep) (level : String → Nat) (stepId : String) : Nat :=
  let dependsOn := dependenciesOf steps stepId
  if dependsOn.isEmpty then 0 else (dependsOn.map level).foldl max 0 + 1

theorem le_foldl_max (start : Nat) {numbers : List Nat} : start ≤ numbers.foldl max start ∧
    ∀ n ∈ numbers, n ≤ numbers.foldl max start := by
  induction numbers generalizing start with
  | nil => simp
  | cons n rest ih =>
    obtain ⟨hstart, hrest⟩ := ih (max start n)
    exact ⟨(le_max_left ..).trans hstart, List.forall_mem_cons.2 ⟨(le_max_right ..).trans hstart, hrest⟩⟩

theorem lt_nextLevel (h : dep ∈ dependenciesOf steps stepId) : level dep < nextLevel steps level stepId := by
  unfold nextLevel
  dsimp only
  rw [if_neg (by simpa using List.ne_nil_of_mem h)]
  exact Nat.lt_succ_of_le ((le_foldl_max _).2 _ (List.mem_map_of_mem h))

theorem nextLevel_congr (h : ∀ dep ∈ dependenciesOf steps stepId, level dep = level' dep) :
    nextLevel steps level stepId = nextLevel steps level' stepId := by
  unfold nextLevel
  dsimp only
  rw [List.map_congr_left h]

/-- The level that a list of entries gives to a step. -/
def levelIn (entries : List (String × Nat)) (stepId : String) : Nat := (entries.lookup stepId).getD 0

theorem lookup_append_of_mem {entries more : List (String × Nat)} (h : x ∈ entries.map Prod.fst) :
    (entries ++ more).lookup x = entries.lookup x := by
  induction entries with
  | nil => cases h
  | cons entry rest ih =>
    obtain ⟨key, value⟩ := entry
    rw [List.cons_append, OrderedDict.lookup_cons_if, OrderedDict.lookup_cons_if]
    split
    · rfl
    · next hne => exact ih ((List.mem_cons.1 h).resolve_left hne)

theorem lookup_append_of_not_mem {entries more : List (String × Nat)} (h : x ∉ entries.map Prod.fst) :
    (entries ++ more).lookup x = more.lookup x := by
  induction entries with
  | nil => rfl
  | cons entry rest ih =>
    obtain ⟨key, value⟩ := entry
    obtain ⟨hne, hrest⟩ := not_or.1 fun hmem => h (List.mem_cons.2 hmem)
    rw [List.cons_append, OrderedDict.lookup_cons_if, if_neg hne]
    exact ih hrest

theorem stepLevels_spec (h : DependencyOrder (dependenciesOf steps) done order) (levels : List (String × Nat))
    (hkeys : levels.map Prod.fst = done) :
    ∃ more, stepLevels steps order levels = levels ++ more ∧ more.map Prod.fst = order ∧
      ∀ x ∈ order, levelIn (levels ++ more) x = nextLevel steps (levelIn (levels ++ more)) x := by
  induction h generalizing levels with
  | nil => exact ⟨[], by simp [stepLevels], rfl, by simp⟩
  | @cons _ x rest hx hdeps _ ih =>
    let entry := (x, nextLevel steps (levelIn levels) x)
    obtain ⟨more, heq, hmore, hlevel⟩ := ih (levels ++ [entry]) (by simp [hkeys, entry])
    have happend : levels ++ [entry] ++ more = levels ++ entry :: more := by simp
    rw [happend] at heq hlevel
    refine ⟨entry :: more, ?_, by simp [hmore, entry], List.forall_mem_cons.2 ⟨?_, hlevel⟩⟩
    · exact heq
    · have hown : levelIn (levels ++ entry :: more) x = nextLevel steps (levelIn levels) x := by
        unfold levelIn
        rw [lookup_append_of_not_mem (hkeys ▸ hx), OrderedDict.lookup_cons_if, if_pos rfl, Option.getD_some]
        rfl
      rw [hown]
      refine nextLevel_congr fun dep hdep => ?_
      unfold levelIn
      rw [lookup_append_of_mem (hkeys ▸ hdeps dep hdep)]

/-- What `_compute_dag_levels` gives: a level number for each step, and the steps
by number. -/
structure Levelled (steps : List DAGFlowStep) (height : String → Nat) (levels : List (List DAGFlowStep)) :
    Prop extends Declared steps where
  height_eq : ∀ step ∈ steps, height step.stepId = nextLevel steps height step.stepId
  mem_level : ∀ n level step, levels[n]? = some level → (step ∈ level ↔ step ∈ steps ∧ height step.stepId = n)
  perm : levels.flatten.Perm steps

theorem find_eq_some (h : steps.find? (fun step => step.stepId = stepId) = some step) :
    step ∈ steps ∧ step.stepId = stepId :=
  ⟨List.mem_of_find?_eq_some h, by simpa using List.find?_some h⟩

theorem Declared.filterMap_find (h : Declared steps) (hparts : ∀ step ∈ parts, step ∈ steps) :
    ((ids parts).filterMap fun x => steps.find? fun step => step.stepId = x) = parts := by
  rw [ids, List.filterMap_map]
  calc parts.filterMap ((fun x => steps.find? fun step => step.stepId = x) ∘ (·.stepId))
      = parts.filterMap some := List.filterMap_congr fun step hstep => h.find (hparts step hstep)
    _ = parts := List.filterMap_some

theorem filterMap_find_perm {order : List String} (h : Declared steps) (hperm : order.Perm (ids steps)) :
    (order.filterMap fun x => steps.find? fun step => step.stepId = x).Perm steps :=
  (hperm.filterMap _).trans (.of_eq (h.filterMap_find fun _ => id))

theorem levelIn_of_mem {entries : List (String × Nat)} (hkeys : (entries.map Prod.fst).Nodup)
    (h : (x, n) ∈ entries) : levelIn entries x = n := by
  have hlookup := (OrderedDict.get?_eq_some_iff (d := ⟨entries, hkeys⟩)).2 h
  simp only [OrderedDict.get?] at hlookup
  simp [levelIn, hlookup]

/-- The steps of a level in the order of its entries. -/
def levelOf (steps : List DAGFlowStep) (entries : List (String × Nat)) (level : Nat) : List DAGFlowStep :=
  (entries.filter fun entry => entry.2 = level).filterMap fun entry =>
    steps.find? fun step => step.stepId = entry.1

def levelCount (entries : List (String × Nat)) : Nat := (entries.map fun entry => entry.2 + 1).foldl max 0

theorem computeDagLevels_entries (h : computeDagLevels hashing flow = .ok levels) :
    Sorted hashing flow.steps ∧ ∃ entries, entries.map Prod.fst = topoOrder hashing flow.steps ∧
      (∀ x ∈ topoOrder hashing flow.steps, levelIn entries x = nextLevel flow.steps (levelIn entries) x) ∧
      levels = (List.range (levelCount entries)).map (levelOf flow.steps entries) := by
  unfold computeDagLevels at h
  cases hvalid : validateDagTopology hashing flow with
  | error e => simp [hvalid, bind, Except.bind] at h
  | ok =>
    simp only [hvalid, bind, Except.bind, pure, Except.pure, Except.ok.injEq] at h
    have hsorted := validateDagTopology_sorted hvalid
    obtain ⟨entries, heq, hkeys, hlevel⟩ := stepLevels_spec (hsorted.topoOrder hashing).1 [] rfl
    simp only [List.nil_append] at heq hlevel
    rw [heq] at h
    exact ⟨hsorted, entries, hkeys, hlevel, h.symm⟩

theorem lt_levelCount {entries : List (String × Nat)} (h : entry ∈ entries) : entry.2 < levelCount entries :=
  (le_foldl_max _).2 _ (List.mem_map_of_mem h)

theorem computeDagLevels_levelIn (h : computeDagLevels hashing flow = .ok levels) :
    ∃ entries, entries.map Prod.fst = topoOrder hashing flow.steps ∧
      levels = (List.range (levelCount entries)).map (levelOf flow.steps entries) ∧
      (topoOrder hashing flow.steps).Perm (ids flow.steps) ∧ Levelled flow.steps (levelIn entries) levels := by
  obtain ⟨hsorted, entries, hkeys, hlevel, rfl⟩ := computeDagLevels_entries h
  have hsteps := hsorted.toDeclared
  have hperm : (entries.map Prod.fst).Perm (ids flow.steps) := hkeys ▸ hsorted.perm
  have hnodup : (entries.map Prod.fst).Nodup := hperm.nodup_iff.2 hsteps.nodup
  refine ⟨entries, hkeys, rfl, hsorted.perm, hsteps, fun step hstep => ?_, fun n level step hget => ?_, ?_⟩
  · exact hlevel _ (hsorted.perm.mem_iff.2 (List.mem_map_of_mem hstep))
  · rw [List.getElem?_map, Option.map_eq_some_iff] at hget
    obtain ⟨_, hn, rfl⟩ := hget
    obtain ⟨_, rfl⟩ := List.getElem?_eq_some_iff.1 hn
    simp only [levelOf, List.getElem_range, List.mem_filterMap, List.mem_filter, decide_eq_true_eq]
    constructor
    · rintro ⟨⟨x, m⟩, ⟨hmem, rfl⟩, hfind⟩
      obtain ⟨hstep, rfl⟩ := find_eq_some hfind
      exact ⟨hstep, levelIn_of_mem hnodup hmem⟩
    · rintro ⟨hstep, hheight⟩
      obtain ⟨⟨x, m⟩, hmem, rfl⟩ := List.mem_map.1 (hperm.mem_iff.2 (List.mem_map_of_mem hstep))
      exact ⟨_, ⟨hmem, (levelIn_of_mem hnodup hmem).symm.trans hheight⟩, hsteps.find hstep⟩
  · have hflatten : ((List.range (levelCount entries)).map (levelOf flow.steps entries)).flatten =
        (byLevel Prod.snd (levelCount entries) entries).flatten.filterMap fun entry =>
          flow.steps.find? fun step => step.stepId = entry.1 := by
      rw [List.filterMap_flatten, byLevel, List.map_map]
      rfl
    rw [hflatten]
    refine ((byLevel_flatten_perm fun _ => lt_levelCount).filterMap _).trans ?_
    have hmap := filterMap_find_perm hsteps hperm
    rwa [List.filterMap_map] at hmap

theorem computeDagLevels_levelled (h : computeDagLevels hashing flow = .ok levels) :
    ∃ height, Levelled flow.steps height levels := by
  obtain ⟨entries, _, _, _, hlevelled⟩ := computeDagLevels_levelIn h
  exact ⟨_, hlevelled⟩

section

variable {height : String → Nat} {levels : List (List DAGFlowStep)}

/-- Dependencies stand on lower levels. -/
theorem Levelled.dependency (h : Levelled steps height levels) (hstep : step ∈ steps)
    (hdep : dep ∈ step.dependsOn) :
    ∃ parent ∈ steps, parent.stepId = dep ∧ height dep < height step.stepId := by
  obtain ⟨parent, hparent, rfl⟩ := List.mem_map.1 (h.known step hstep dep hdep)
  refine ⟨parent, hparent, rfl, ?_⟩
  rw [h.height_eq step hstep]
  exact lt_nextLevel (by rwa [h.dependencies hstep])

/-- The steps of the levels below a level are the steps of smaller height. -/
theorem Levelled.mem_take (h : Levelled steps height levels) (hn : n ≤ levels.length) :
    step ∈ (levels.take n).flatten ↔ step ∈ steps ∧ height step.stepId < n := by
  rw [List.mem_flatten]
  constructor
  · rintro ⟨level, hlevel, hmem⟩
    obtain ⟨m, hm, rfl⟩ := List.mem_iff_getElem.1 hlevel
    rw [List.length_take] at hm
    rw [List.getElem_take] at hmem
    obtain ⟨hstep, rfl⟩ := (h.mem_level m _ step (List.getElem?_eq_getElem _)).1 hmem
    exact ⟨hstep, by omega⟩
  · rintro ⟨hstep, hlt⟩
    have hlevel : levels[height step.stepId]? = some levels[height step.stepId] := List.getElem?_eq_getElem (by omega)
    refine ⟨_, ?_, (h.mem_level _ _ step hlevel).2 ⟨hstep, rfl⟩⟩
    exact List.mem_iff_getElem.2 ⟨height step.stepId, by rw [List.length_take]; omega, List.getElem_take⟩

/-- Level by level, the steps come in an order of their dependencies. -/
theorem Levelled.order (h : Levelled steps height levels) :
    DependencyOrder (dependenciesOf steps) [] (ids levels.flatten) := by
  have hnodup : (ids levels.flatten).Nodup := (h.perm.map _).nodup_iff.2 h.nodup
  have hprefix : ∀ n ≤ levels.length,
      DependencyOrder (dependenciesOf steps) [] (ids (levels.take n).flatten) := by
    intro n hn
    induction n with
    | zero => exact .nil
    | succ n ih =>
      have hlevel : levels[n]? = some levels[n] := List.getElem?_eq_getElem (by omega)
      have htake : ids (levels.take (n + 1)).flatten = ids (levels.take n).flatten ++ ids levels[n] := by
        rw [List.take_add_one, hlevel, ids, List.flatten_append, List.map_append]
        simp [ids]
      rw [htake]
      refine .append (ih (by omega)) (.chunk ?_ fun stepId hmem dep hdep => ?_)
      · rw [List.nil_append, ← htake]
        rw [← List.take_append_drop (n + 1) levels, List.flatten_append, ids, List.map_append] at hnodup
        exact hnodup.of_append_left
      · obtain ⟨step, hstep, rfl⟩ := List.mem_map.1 hmem
        obtain ⟨hstep, hheight⟩ := (h.mem_level n _ step hlevel).1 hstep
        rw [h.dependencies hstep] at hdep
        obtain ⟨parent, hparent, rfl, hlt⟩ := h.dependency hstep hdep
        exact List.mem_map_of_mem ((h.mem_take (by omega)).2 ⟨hparent, by omega⟩)
  simpa using hprefix levels.length le_rfl

end

end ChainWeaver.Topology
