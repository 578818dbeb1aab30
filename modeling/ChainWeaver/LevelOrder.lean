import ChainWeaver.Data.ListOrder
import ChainWeaver.Levels

/-!
# The order inside a level

The sorter hands a step out when the last of its dependencies is done, and a root
when it is first mentioned. A level follows the declaration exactly if these
moments do.
-/

namespace ChainWeaver.Topology

open ListOrder

variable {steps : List DAGFlowStep} {hashing : Hashing} {flow : DAGFlow} {levels : List (List DAGFlowStep)}
  {done group ready : List String}

-- One group after the other

/-- The steps that a group frees, in the order in which it does. -/
def freedBy (steps : List DAGFlowStep) (done : List String) : List String → List DAGFlowStep
  | [] => []
  | node :: rest => freed steps done node ++ freedBy steps (node :: done) rest

theorem foldl_release : group.foldl (fun acc node => release steps acc.1 acc.2 node) (done, ready) =
    (group.reverse ++ done, ready ++ (freedBy steps done group).map (·.stepId)) := by
  induction group generalizing done ready with
  | nil => simp [freedBy]
  | cons node group ih =>
    rw [List.foldl_cons, release_eq, ih]
    simp [freedBy]

theorem mem_freedBy (h : step ∈ freedBy steps done group) : step ∈ steps ∧ ∃ node ∈ group, node ∈ step.dependsOn := by
  induction group generalizing done with
  | nil => cases h
  | cons node group ih =>
    rcases List.mem_append.1 h with h | h
    · obtain ⟨hstep, hwaits, _⟩ := mem_freed.1 h
      exact ⟨hstep, node, by simp, hwaits⟩
    · obtain ⟨hstep, other, hother, hwaits⟩ := ih h
      exact ⟨hstep, other, List.mem_cons_of_mem _ hother, hwaits⟩

/-- The place of a step in the declaration. -/
def declared (steps : List DAGFlowStep) (stepId : String) : Nat := (ids steps).idxOf stepId

/-- No dependency of `step` in the group comes after all those of `other`. -/
def NoLater (group : List String) (step other : DAGFlowStep) : Prop :=
  ∀ dep ∈ step.dependsOn, dep ∈ group →
    ∃ last ∈ other.dependsOn, last ∈ group ∧ group.idxOf dep ≤ group.idxOf last

theorem steps_pairwise (h : Declared steps) :
    steps.Pairwise fun x y => declared steps x.stepId < declared steps y.stepId := by
  have hids : (steps.map (·.stepId)).Pairwise (declared steps · < declared steps ·) := pairwise_idxOf h.nodup
  rwa [List.pairwise_map] at hids

/-- The sorter hands steps out by their last dependency, and by declaration where
these are the same. -/
theorem freedBy_pairwise (h : Declared steps) (hgroup : group.Nodup) (before rest : List String)
    (hsplit : group = before ++ rest) (hdone : ∀ dep ∈ done, dep ∈ group → dep ∈ before) :
    (freedBy steps done rest).Pairwise fun x y =>
      NoLater group x y ∧ (NoLater group y x → declared steps x.stepId < declared steps y.stepId) := by
  induction rest generalizing before done with
  | nil => exact .nil
  | cons node rest ih =>
    have hnode : node ∈ group := by simp [hsplit]
    have hplace : group.idxOf node = before.length := by
      have hnew : node ∉ before := fun hmem =>
        List.disjoint_of_nodup_append (hsplit ▸ hgroup) hmem (by simp)
      rw [hsplit, List.idxOf_append_of_notMem hnew]
      simp
    -- What a step freed now waits for was handed out by now.
    have hby : ∀ x ∈ freed steps done node, ∀ dep ∈ x.dependsOn, dep ∈ group → group.idxOf dep ≤ group.idxOf node := by
      intro x hx dep hdep hmem
      rcases List.mem_cons.1 ((mem_freed.1 hx).2.2 dep hdep) with rfl | hold
      · exact le_rfl
      · have hbefore := hdone dep hold hmem
        rw [hplace, hsplit, List.idxOf_append_of_mem hbefore]
        exact (List.idxOf_lt_length_of_mem hbefore).le
    have hafter : ∀ later ∈ rest, group.idxOf node < group.idxOf later := by
      intro later hlater
      have hcut : ∀ place : String → Nat, group.Pairwise (place · < place ·) → place node < place later := by
        rw [hsplit]
        intro place hpairwise
        exact (List.pairwise_cons.1 (List.pairwise_append.1 hpairwise).2.1).1 later hlater
      exact hcut _ (pairwise_idxOf hgroup)
    rw [freedBy, List.pairwise_append]
    refine ⟨?_, ?_, fun x hx y hy => ?_⟩
    · refine ((steps_pairwise h).sublist List.filter_sublist).imp_of_mem fun {x y} hx hy hlt => ⟨?_, fun _ => hlt⟩
      intro dep hdep hmem
      exact ⟨node, (mem_freed.1 hy).2.1, hnode, hby x hx dep hdep hmem⟩
    · refine ih (before ++ [node]) (by simp [hsplit]) fun dep hdep hmem => ?_
      rcases List.mem_cons.1 hdep with rfl | hdep
      · simp
      · exact List.mem_append_left _ (hdone dep hdep hmem)
    · obtain ⟨_, later, hlater, hwaits⟩ := mem_freedBy hy
      have hlast : later ∈ group := by simp [hsplit, hlater]
      refine ⟨fun dep hdep hmem => ?_, fun hno => ?_⟩
      · exact ⟨later, hwaits, hlast, (hby x hx dep hdep hmem).trans (hafter later hlater).le⟩
      · obtain ⟨last, hlast', hmem, hle⟩ := hno later hwaits hlast
        have := hby x hx last hlast' hmem
        have := hafter later hlater
        omega

-- Groups are levels

/-- What the sorter has handed out, and what is ready, before group `n`. -/
def front (hashing : Hashing) (steps : List DAGFlowStep) : Nat → List String × List String
  | 0 => ([], roots hashing steps)
  | n + 1 =>
    let before := front hashing steps n
    (before.2.reverse ++ before.1, (freedBy steps before.1 before.2).map (·.stepId))

/-- Group `n` holds the steps of depth `n`. -/
structure Front (steps : List DAGFlowStep) (height : String → Nat) (n : Nat) (done group : List String) : Prop where
  queued : Queued steps done group
  prompt : Prompt steps done group
  mem_done : ∀ x ∈ ids steps, x ∈ done ↔ height x < n
  mem_group : ∀ x, x ∈ group ↔ x ∈ ids steps ∧ height x = n

theorem Levelled.front (h : Levelled steps height levels) (hashing : Hashing) (n : Nat) :
    Front steps height n (Topology.front hashing steps n).1 (Topology.front hashing steps n).2 := by
  have hsteps := h.toDeclared
  induction n with
  | zero =>
    refine ⟨hsteps.queued_roots, hsteps.prompt_roots, by simp [Topology.front], fun x => ?_⟩
    rw [Topology.front, hsteps.mem_roots]
    refine and_congr_right fun hx => ?_
    obtain ⟨step, hstep, rfl⟩ := List.mem_map.1 hx
    rw [h.height_eq step hstep, nextLevel]
    simp
  | succ n ih =>
    have hqueued : Queued steps (Topology.front hashing steps n).1 ((Topology.front hashing steps n).2 ++ []) := by
      simpa using ih.queued
    have hprompt : Prompt steps (Topology.front hashing steps n).1 ((Topology.front hashing steps n).2 ++ []) := by
      simpa using ih.prompt
    have hnext := (hqueued.handOut hsteps).2
    have hpnext := hprompt.handOut hsteps
    rw [foldl_release, List.nil_append] at hnext hpnext
    have hdone : ∀ x ∈ ids steps, x ∈ (Topology.front hashing steps (n + 1)).1 ↔ height x < n + 1 := by
      intro x hx
      rw [Topology.front, List.mem_append, List.mem_reverse, ih.mem_group, ih.mem_done x hx]
      simp only [hx, true_and]
      omega
    refine ⟨hnext, hpnext, hdone, fun x => ⟨fun hx => ?_, fun hlevel => ?_⟩⟩
    · have hknown := hnext.known x hx
      refine ⟨hknown, le_antisymm ?_ ?_⟩
      · have hdepth := h.depth x hknown
        generalize height x = m at hdepth
        cases m with
        | zero => exact Nat.zero_le _
        | succ m =>
          obtain ⟨dep, hdep, hlower⟩ := hdepth.lower
          have hids := hsteps.closed x hknown dep hdep
          have hlt := (hdone dep hids).1 (hnext.settled x (List.mem_append_right _ hx) dep hdep)
          have heq := (h.depth dep hids).unique hlower
          omega
      · by_contra hlt
        exact List.disjoint_of_nodup_append hnext.nodup ((hdone x hknown).2 (by omega)) hx
    · obtain ⟨hx, hheight⟩ := hlevel
      have hmem := hpnext x hx fun dep hdep => by
        have hids := hsteps.closed x hx dep hdep
        have hlt := (h.depth x hx).lt hdep (h.depth dep hids)
        exact (hdone dep hids).2 (by omega)
      refine (List.mem_append.1 hmem).resolve_left fun hold => ?_
      have hlt := (hdone x hx).1 hold
      omega

/-- The order of the sorter, cut at depth `n`, is group `n`. -/
theorem Levelled.filter_order (h : Levelled steps height levels) (hk : Topology.front hashing steps k = (done, group))
    (hn : k ≤ n) (hfuel : n < k + fuel) :
    (staticOrder steps fuel done group).filter (fun x => height x = n) = (Topology.front hashing steps n).2 := by
  induction fuel generalizing k done group with
  | zero => omega
  | succ fuel ih =>
    have hsteps := h.toDeclared
    have hfront : Front steps height k done group := by simpa [hk] using h.front hashing k
    have hnext : Topology.front hashing steps (k + 1) =
        (group.reverse ++ done, (freedBy steps done group).map (·.stepId)) := by
      simp [Topology.front, hk]
    cases group with
    | nil =>
      -- Nothing has depth `k`, so nothing is deeper.
      rw [staticOrder, List.filter_nil]
      refine (List.eq_nil_iff_forall_not_mem.2 fun x hx => ?_).symm
      obtain ⟨hids, rfl⟩ := ((h.front hashing n).mem_group x).1 hx
      obtain ⟨y, hy, hdepth⟩ := (h.depth x hids).reaches hsteps.closed hids hn
      exact List.not_mem_nil ((hfront.mem_group y).2 ⟨hy, (h.depth y hy).unique hdepth⟩)
    | cons node rest =>
      rw [staticOrder, foldl_release, List.nil_append, List.filter_append]
      rcases Nat.eq_or_lt_of_le hn with rfl | hlt
      · have hlater : Front steps height (k + 1) _ _ := h.front hashing (k + 1)
        rw [hnext] at hlater
        obtain ⟨horder, hknown⟩ := hlater.queued.staticOrder hsteps fuel
        have hrest : (staticOrder steps fuel ((node :: rest).reverse ++ done)
            ((freedBy steps done (node :: rest)).map (·.stepId))).filter (fun x => height x = k) = [] := by
          refine List.filter_eq_nil_iff.2 fun x hx => ?_
          have hfresh := horder.nodup.2 x hx
          rw [hlater.mem_done x (hknown x hx)] at hfresh
          simp only [decide_eq_true_eq]
          omega
        have hown : (node :: rest).filter (fun x => height x = k) = node :: rest :=
          List.filter_eq_self.2 fun x hx => by simpa using ((hfront.mem_group x).1 hx).2
        rw [hrest, hown, List.append_nil, hk]
      · have hown : (node :: rest).filter (fun x => height x = n) = [] := by
          refine List.filter_eq_nil_iff.2 fun x hx => ?_
          have := ((hfront.mem_group x).1 hx).2
          simp only [decide_eq_true_eq]
          omega
        rw [hown, List.nil_append]
        exact ih hnext hlt (by omega)

theorem ids_levelOf {entries : List (String × Nat)} (hknown : ∀ x ∈ entries.map Prod.fst, x ∈ ids steps)
    (h : Declared steps) : ids (levelOf steps entries n) = (entries.filter fun entry => entry.2 = n).map Prod.fst := by
  induction entries with
  | nil => rfl
  | cons entry rest ih =>
    have ih := ih fun x hx => hknown x (List.mem_cons_of_mem _ hx)
    unfold levelOf at ih ⊢
    obtain ⟨step, hstep, hid⟩ := List.mem_map.1 (hknown entry.1 (by simp))
    by_cases hn : entry.2 = n
    · rw [List.filter_cons_of_pos (by simpa using hn), List.filterMap_cons, ← hid, h.find hstep]
      simp [ids, hid, ← ih]
    · rw [List.filter_cons_of_neg (by simpa using hn)]
      exact ih

theorem length_le_flatten {lists : List (List α)} (h : ∀ xs ∈ lists, xs ≠ []) : lists.length ≤ lists.flatten.length := by
  induction lists with
  | nil => simp
  | cons xs rest ih =>
    obtain ⟨hxs, hrest⟩ := List.forall_mem_cons.1 h
    have hpos := List.length_pos_of_ne_nil hxs
    have := ih hrest
    simp only [List.flatten_cons, List.length_append, List.length_cons]
    omega

theorem computeDagLevels_front (h : computeDagLevels hashing flow = .ok levels) (hn : levels[n]? = some level) :
    ids level = (front hashing flow.steps n).2 := by
  have hnonempty := computeDagLevels_nonempty h
  obtain ⟨entries, hkeys, hlevels, hperm, hlevelled⟩ := computeDagLevels_levelIn h
  have hsteps := hlevelled.toDeclared
  have hfuel : n < 0 + ((nodes hashing flow.steps).length + 1) := by
    have hnodes : (nodes hashing flow.steps).Perm (ids flow.steps) :=
      (List.perm_ext_iff_of_nodup nodes_spec.1 hsteps.nodup).2 fun x => hsteps.mem_nodes
    have hlength := length_le_flatten hnonempty
    rw [hlevelled.perm.length_eq] at hlength
    obtain ⟨hlt, _⟩ := List.getElem?_eq_some_iff.1 hn
    rw [hnodes.length_eq, ids, List.length_map]
    omega
  have hcut : (topoOrder hashing flow.steps).filter (fun x => levelIn entries x = n) =
      (front hashing flow.steps n).2 := by
    rw [topoOrder_eq]
    exact hlevelled.filter_order rfl (Nat.zero_le n) hfuel
  rw [← hcut, ← hkeys]
  have hlevel : level = levelOf flow.steps entries n := by
    rw [hlevels, List.getElem?_map, Option.map_eq_some_iff] at hn
    obtain ⟨_, hrange, rfl⟩ := hn
    obtain ⟨_, rfl⟩ := List.getElem?_eq_some_iff.1 hrange
    simp
  rw [hlevel, ids_levelOf (fun x hx => hperm.mem_iff.1 (hkeys ▸ hx)) hsteps, List.filter_map]
  refine congrArg _ (List.filter_congr fun entry hentry => ?_)
  have hnodup : (entries.map Prod.fst).Nodup := hkeys ▸ hperm.nodup_iff.2 hsteps.nodup
  rw [Function.comp_apply, levelIn_of_mem hnodup hentry]

-- The order of declaration

/-- All mentions of ids, in the order in which the sorter is told of them. -/
def mentions (hashing : Hashing) (steps : List DAGFlowStep) : List String :=
  steps.flatMap fun step => step.stepId :: hashing.setOrder step.dependsOn.dedup

theorem nodes_eq : nodes hashing steps = (mentions hashing steps).foldl meet [] := by
  rw [mentions, List.foldl_flatMap]
  rfl

/-- What is met stands in the order of first mention. -/
theorem foldl_meet_pairwise (all : List String) : (all.foldl meet []).Pairwise (all.idxOf · < all.idxOf ·) := by
  induction all using List.reverseRecOn with
  | nil => exact .nil
  | append_singleton all x ih =>
    have hmem : ∀ y ∈ all.foldl meet [], y ∈ all := fun y hy =>
      (((foldl_meet .nil all).2 y).1 hy).resolve_left (by simp)
    have hold : (all.foldl meet []).Pairwise fun y z => (all ++ [x]).idxOf y < (all ++ [x]).idxOf z :=
      ih.imp_of_mem fun {y z} hy hz hlt => by
        rwa [List.idxOf_append_of_mem (hmem y hy), List.idxOf_append_of_mem (hmem z hz)]
    rw [List.foldl_append, List.foldl_cons, List.foldl_nil, meet]
    split
    · exact hold
    · next hnew =>
      have hnew : x ∉ all := fun hx => hnew (by simpa using ((foldl_meet .nil all).2 x).2 (.inr hx))
      refine List.pairwise_append.2 ⟨hold, List.pairwise_singleton .., fun y hy z hz => ?_⟩
      rw [List.mem_singleton.1 hz, List.idxOf_append_of_notMem hnew, List.idxOf_append_of_mem (hmem y hy)]
      exact Nat.lt_add_right _ (List.idxOf_lt_length_of_mem (hmem y hy))

/-- The sorter meets the roots in their order, and of two steps of a level the later
one waits for a dependency declared no earlier. -/
structure DeclaredAsReady (hashing : Hashing) (steps : List DAGFlowStep) : Prop where
  roots : ∀ step ∈ steps, ∀ other ∈ steps, step.dependsOn = [] → other.dependsOn = [] →
    declared steps step.stepId < declared steps other.stepId →
      (mentions hashing steps).idxOf step.stepId < (mentions hashing steps).idxOf other.stepId
  waiting : ∀ n, ∀ step ∈ steps, ∀ other ∈ steps, Depth (dependenciesOf steps) step.stepId (n + 1) →
    Depth (dependenciesOf steps) other.stepId (n + 1) →
      declared steps step.stepId < declared steps other.stepId →
        ∀ dep ∈ step.dependsOn, Depth (dependenciesOf steps) dep n →
          ∃ last ∈ other.dependsOn, Depth (dependenciesOf steps) last n ∧ declared steps dep ≤ declared steps last

theorem declared_inj (hx : x ∈ ids steps) (heq : declared steps x = declared steps y) : x = y :=
  (List.idxOf_inj hx).1 heq

section

variable {height : String → Nat}

/-- The ids stand in the order of their declaration. -/
def InOrder (steps : List DAGFlowStep) (group : List String) : Prop :=
  group.Pairwise (declared steps · < declared steps ·)

theorem roots_inOrder (h : Declared steps) : InOrder steps (roots hashing steps) ↔
    ∀ step ∈ steps, ∀ other ∈ steps, step.dependsOn = [] → other.dependsOn = [] →
      declared steps step.stepId < declared steps other.stepId →
        (mentions hashing steps).idxOf step.stepId < (mentions hashing steps).idxOf other.stepId := by
  have hmet : (roots hashing steps).Pairwise fun x y =>
      (mentions hashing steps).idxOf x < (mentions hashing steps).idxOf y := by
    have hall := foldl_meet_pairwise (mentions hashing steps)
    rw [← nodes_eq] at hall
    exact hall.sublist List.filter_sublist
  have hnodup : (roots hashing steps).Nodup := nodes_spec.1.filter _
  rw [InOrder, pairwise_rank_iff hnodup (fun x hx y _ => declared_inj (h.mem_roots.1 hx).1)
    (hmet.imp fun hlt => ⟨hlt, fun hgt => absurd hlt hgt.asymm⟩)]
  constructor
  · intro hroots step hstep other hother hnil hnil' hlt
    refine hroots _ (h.mem_roots.2 ⟨List.mem_map_of_mem hstep, ?_⟩) _ (h.mem_roots.2 ⟨List.mem_map_of_mem hother, ?_⟩) hlt
    · rwa [h.dependencies hstep]
    · rwa [h.dependencies hother]
  · intro hsteps x hx y hy hlt
    obtain ⟨hx, hnil⟩ := h.mem_roots.1 hx
    obtain ⟨hy, hnil'⟩ := h.mem_roots.1 hy
    obtain ⟨step, hstep, rfl⟩ := List.mem_map.1 hx
    obtain ⟨other, hother, rfl⟩ := List.mem_map.1 hy
    rw [h.dependencies hstep] at hnil
    rw [h.dependencies hother] at hnil'
    exact hsteps step hstep other hother hnil hnil' hlt

/-- Where a group is in order, the next one is if it does not wait longer for what is
declared earlier. -/
theorem next_inOrder (h : Levelled steps height levels) (hfront : Front steps height n done group)
    (hnext : Front steps height (n + 1) (group.reverse ++ done) ((freedBy steps done group).map (·.stepId)))
    (hgroup : InOrder steps group) : InOrder steps ((freedBy steps done group).map (·.stepId)) ↔
      ∀ step ∈ steps, ∀ other ∈ steps, Depth (dependenciesOf steps) step.stepId (n + 1) →
        Depth (dependenciesOf steps) other.stepId (n + 1) →
          declared steps step.stepId < declared steps other.stepId →
            ∀ dep ∈ step.dependsOn, Depth (dependenciesOf steps) dep n →
              ∃ last ∈ other.dependsOn, Depth (dependenciesOf steps) last n ∧
                declared steps dep ≤ declared steps last := by
  have hsteps := h.toDeclared
  have hdepth : ∀ m x, x ∈ ids steps → (height x = m ↔ Depth (dependenciesOf steps) x m) := fun m x hx =>
    ⟨fun heq => heq ▸ h.depth x hx, fun hdepth => (h.depth x hx).unique hdepth⟩
  have hmem : ∀ step ∈ steps, ∀ dep ∈ step.dependsOn, (dep ∈ group ↔ Depth (dependenciesOf steps) dep n) := by
    intro step hstep dep hdep
    have hids := hsteps.known step hstep dep hdep
    rw [hfront.mem_group, hdepth n dep hids]
    exact and_iff_right hids
  have hfreed : ∀ step, step ∈ freedBy steps done group ↔
      step ∈ steps ∧ Depth (dependenciesOf steps) step.stepId (n + 1) := by
    intro step
    constructor
    · intro hstep
      obtain ⟨hids, hheight⟩ := (hnext.mem_group step.stepId).1 (List.mem_map_of_mem hstep)
      exact ⟨(mem_freedBy hstep).1, (hdepth _ _ hids).1 hheight⟩
    · rintro ⟨hstep, hn⟩
      have hids : step.stepId ∈ ids steps := List.mem_map_of_mem hstep
      obtain ⟨other, hother, hid⟩ := List.mem_map.1 ((hnext.mem_group step.stepId).2 ⟨hids, (hdepth _ _ hids).2 hn⟩)
      exact hsteps.unique hstep (mem_freedBy hother).1 hid ▸ hother
  have hpairwise := freedBy_pairwise hsteps hfront.queued.nodup.of_append_right [] group rfl
    fun dep (hdone : dep ∈ done) hmem => absurd hmem (List.disjoint_of_nodup_append hfront.queued.nodup hdone)
  have hnodup : (freedBy steps done group).Nodup := .of_map _ hnext.queued.nodup.of_append_right
  rw [InOrder, List.pairwise_map, pairwise_rank_iff hnodup (fun x hx y hy heq => ?_) hpairwise]
  · constructor
    · intro hagrees step hstep other hother hn hn' hlt dep hdep hdn
      have hdg := (hmem step hstep dep hdep).2 hdn
      obtain ⟨last, hlast, hlg, hle⟩ :=
        hagrees step ((hfreed step).2 ⟨hstep, hn⟩) other ((hfreed other).2 ⟨hother, hn'⟩) hlt dep hdep hdg
      exact ⟨last, hlast, (hmem other hother last hlast).1 hlg, (idxOf_le_iff hgroup hdg hlg).1 hle⟩
    · intro hwaits step hstep other hother hlt dep hdep hdg
      obtain ⟨hstep, hn⟩ := (hfreed step).1 hstep
      obtain ⟨hother, hn'⟩ := (hfreed other).1 hother
      obtain ⟨last, hlast, hln, hle⟩ :=
        hwaits step hstep other hother hn hn' hlt dep hdep ((hmem step hstep dep hdep).1 hdg)
      have hlg := (hmem other hother last hlast).2 hln
      exact ⟨last, hlast, hlg, (idxOf_le_iff hgroup hdg hlg).2 hle⟩
  · have hx := (mem_freedBy hx).1
    exact hsteps.unique (mem_freedBy hy).1 hx (declared_inj (List.mem_map_of_mem hx) heq)

theorem declaredAsReady_iff (h : Levelled steps height levels) (hashing : Hashing) :
    DeclaredAsReady hashing steps ↔ ∀ n, InOrder steps (front hashing steps n).2 := by
  have hnext : ∀ n, InOrder steps (front hashing steps n).2 → (InOrder steps (front hashing steps (n + 1)).2 ↔ _) :=
    fun n => next_inOrder h (h.front hashing n) (h.front hashing (n + 1))
  constructor
  · intro hready n
    induction n with
    | zero => exact (roots_inOrder h.toDeclared).2 hready.roots
    | succ n ih => exact (hnext n ih).2 (hready.waiting n)
  · intro hall
    exact ⟨(roots_inOrder h.toDeclared).1 (hall 0), fun n => (hnext n (hall n)).1 (hall (n + 1))⟩

theorem sublist_iff_ids {level : List DAGFlowStep} (h : Declared steps) (hlevel : ∀ step ∈ level, step ∈ steps) :
    level.Sublist steps ↔ InOrder steps (ids level) := by
  have hids : ∀ x ∈ ids level, x ∈ ids steps := fun x hx => by
    obtain ⟨step, hstep, rfl⟩ := List.mem_map.1 hx
    exact List.mem_map_of_mem (hlevel step hstep)
  have hiff : (ids level).Sublist (ids steps) ↔ InOrder steps (ids level) := sublist_iff_idxOf h.nodup hids
  rw [← hiff]
  refine ⟨fun hsub => hsub.map _, fun hsub => ?_⟩
  obtain ⟨same, hsub, heq⟩ := List.sublist_map_iff.1 hsub
  have hsame : level = same := by
    rw [← h.filterMap_find hlevel, ← h.filterMap_find fun step hstep => hsub.subset hstep]
    exact congrArg _ heq
  exact hsame ▸ hsub

/-- Within every level the steps are in the order of their declaration exactly if the
sorter finds them ready in it. -/
theorem levels_as_declared (h : computeDagLevels hashing flow = .ok levels) :
    (∀ level ∈ levels, level.Sublist flow.steps) ↔ DeclaredAsReady hashing flow.steps := by
  obtain ⟨height, hlevelled⟩ := computeDagLevels_levelled h
  have hsub : ∀ (n : Nat) level, levels[n]? = some level →
      (level.Sublist flow.steps ↔ InOrder flow.steps (front hashing flow.steps n).2) := by
    intro n level hn
    rw [← computeDagLevels_front h hn]
    exact sublist_iff_ids hlevelled.toDeclared fun step hstep => ((hlevelled.mem_level n level step hn).1 hstep).1
  rw [declaredAsReady_iff hlevelled]
  constructor
  · intro hlevels n
    cases hn : levels[n]? with
    | some level => exact (hsub n level hn).1 (hlevels level (List.mem_of_getElem? hn))
    | none =>
      -- A step of depth `n` would have a level.
      have hempty : (front hashing flow.steps n).2 = [] := by
        refine List.eq_nil_iff_forall_not_mem.2 fun x hx => ?_
        obtain ⟨hids, rfl⟩ := ((hlevelled.front hashing n).mem_group x).1 hx
        obtain ⟨step, hstep, rfl⟩ := List.mem_map.1 hids
        obtain ⟨level, hlevel, _⟩ := hlevelled.placed hstep
        rw [hlevel] at hn
        cases hn
      rw [hempty]
      exact .nil
  · intro hall level hlevel
    obtain ⟨n, hn⟩ := List.mem_iff_getElem?.1 hlevel
    exact (hsub n level hn).2 (hall n)

end

theorem chained_as_declared :
    (∀ level ∈ [[Sample.node "a" [] (Sample.step "t")], [Sample.node "b" ["a", "a"] (Sample.step "t")]],
      level.Sublist chained.steps) ↔ DeclaredAsReady Sample.platform.hashing chained.steps :=
  levels_as_declared rfl

/-- `b` is mentioned before `a`, which is declared first. -/
def mentionedEarly : DAGFlow where
  name := "f"
  steps := [Sample.node "c" ["b"] (Sample.step "t"), Sample.node "a" [] (Sample.step "t"),
    Sample.node "b" [] (Sample.step "t")]

theorem root_overtakes : ¬∀ (hashing : Hashing) (flow : DAGFlow) (levels : List (List DAGFlowStep)),
    computeDagLevels hashing flow = .ok levels → ∀ level ∈ levels, level.Sublist flow.steps := by
  intro h
  have hlevel := h Sample.platform.hashing mentionedEarly
    [[Sample.node "b" [] (Sample.step "t"), Sample.node "a" [] (Sample.step "t")],
      [Sample.node "c" ["b"] (Sample.step "t")]] rfl
    [Sample.node "b" [] (Sample.step "t"), Sample.node "a" [] (Sample.step "t")] (by simp)
  have hids : (ids [Sample.node "b" [] (Sample.step "t"), Sample.node "a" [] (Sample.step "t")]).Sublist
      (ids mentionedEarly.steps) := hlevel.map _
  exact absurd hids (by decide)

end ChainWeaver.Topology
