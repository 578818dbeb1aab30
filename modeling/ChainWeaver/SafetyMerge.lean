import ChainWeaver.Data.Counting
import ChainWeaver.Exposure
import Mathlib.Order.Bounds.Basic

/-!
# Merged contracts

`merge_safety` is a join: contracts are ordered field by field, and the merged one is
the least above its parts. Only the text that gives the reasons for an approval
remembers how the parts were listed.
-/

namespace ChainWeaver

/-- `contract` is at most as restrictive as `bound`, in every field that has a more
and a less restrictive side. -/
structure ToolSafetyContract.AtMost (contract bound : ToolSafetyContract) : Prop where
  sideEffects : contract.sideEffects.order ≤ bound.sideEffects.order
  readOnly : bound.readOnly = true → contract.readOnly = true
  stability : Server.stabilityOrder contract.stability ≤ Server.stabilityOrder bound.stability
  determinismLevel :
    Server.determinismOrder contract.determinismLevel ≤ Server.determinismOrder bound.determinismLevel
  idempotent : bound.idempotent = true → contract.idempotent = true
  cacheable : bound.cacheable = true → contract.cacheable = true
  safeToRetry : bound.safeToRetry = true → contract.safeToRetry = true
  supportsDryRun : bound.supportsDryRun = true → contract.supportsDryRun = true
  requiresApproval : contract.requiresApproval = true → bound.requiresApproval = true

instance : Preorder ToolSafetyContract where
  le := ToolSafetyContract.AtMost
  le_refl _ := ⟨le_rfl, id, le_rfl, le_rfl, id, id, id, id, id⟩
  le_trans _ _ _ h h' :=
    { sideEffects := h.sideEffects.trans h'.sideEffects
      readOnly := h.readOnly ∘ h'.readOnly
      stability := h.stability.trans h'.stability
      determinismLevel := h.determinismLevel.trans h'.determinismLevel
      idempotent := h.idempotent ∘ h'.idempotent
      cacheable := h.cacheable ∘ h'.cacheable
      safeToRetry := h.safeToRetry ∘ h'.safeToRetry
      supportsDryRun := h.supportsDryRun ∘ h'.supportsDryRun
      requiresApproval := h'.requiresApproval ∘ h.requiresApproval }

/-- The contract without its text. -/
def ToolSafetyContract.withoutReason (contract : ToolSafetyContract) : ToolSafetyContract :=
  { contract with approvalReason := none }

namespace Server

open Counting

variable {contracts : List ToolSafetyContract} {parts : List (List ToolSafetyContract)}

-- The join

theorem sideEffects_order_inj {level level' : SideEffectLevel} (h : level.order = level'.order) : level = level' := by
  cases level <;> cases level' <;> first | rfl | cases h

theorem stabilityOrder_inj {level level' : StabilityLevel} (h : stabilityOrder level = stabilityOrder level') :
    level = level' := by
  cases level <;> cases level' <;> first | rfl | cases h

theorem determinismOrder_inj {level level' : DeterminismLevel} (h : determinismOrder level = determinismOrder level') :
    level = level' := by
  cases level <;> cases level' <;> first | rfl | cases h

/-- Contracts that are equally restrictive differ in their texts at most. -/
theorem withoutReason_eq {contract other : ToolSafetyContract} (h : contract ≤ other) (h' : other ≤ contract) :
    contract.withoutReason = other.withoutReason := by
  have hlevel := sideEffects_order_inj (h.sideEffects.antisymm h'.sideEffects)
  have hread : contract.readOnly = other.readOnly := Bool.eq_iff_iff.2 ⟨h'.readOnly, h.readOnly⟩
  have hstable := stabilityOrder_inj (h.stability.antisymm h'.stability)
  have hdeterminism := determinismOrder_inj (h.determinismLevel.antisymm h'.determinismLevel)
  have hidempotent : contract.idempotent = other.idempotent := Bool.eq_iff_iff.2 ⟨h'.idempotent, h.idempotent⟩
  have hcacheable : contract.cacheable = other.cacheable := Bool.eq_iff_iff.2 ⟨h'.cacheable, h.cacheable⟩
  have hretry : contract.safeToRetry = other.safeToRetry := Bool.eq_iff_iff.2 ⟨h'.safeToRetry, h.safeToRetry⟩
  have hdry : contract.supportsDryRun = other.supportsDryRun :=
    Bool.eq_iff_iff.2 ⟨h'.supportsDryRun, h.supportsDryRun⟩
  have happroval : contract.requiresApproval = other.requiresApproval :=
    Bool.eq_iff_iff.2 ⟨h.requiresApproval, h'.requiresApproval⟩
  simp only [ToolSafetyContract.withoutReason, hlevel, hread, hstable, hdeterminism, hidempotent, hcacheable, hretry,
    hdry, happroval]

theorem readOnly_iff (level : SideEffectLevel) : level.readOnly = true ↔ level.order ≤ SideEffectLevel.read.order := by
  cases level <;> decide

theorem readOnly_mono {level bound : SideEffectLevel} (h : level.order ≤ bound.order) (hbound : bound.readOnly = true) :
    level.readOnly = true :=
  (readOnly_iff level).2 (h.trans ((readOnly_iff bound).1 hbound))

/-- The merged contract is the least upper bound of its parts. -/
theorem mergeSafety_isLUB (h : contracts ≠ []) : IsLUB {contract | contract ∈ contracts} (mergeSafety contracts) := by
  obtain ⟨first, rest, rfl⟩ := List.exists_cons_of_ne_nil h
  have hgreatest : ∀ {β : Type} (order : β → Nat) (field : ToolSafetyContract → β) {contract : ToolSafetyContract},
      contract ∈ first :: rest → order (field contract) ≤ order (maxBy order (field first) (rest.map field)) :=
    fun order field _ hmem => le_maxBy order _ _ (List.mem_map_of_mem (f := field) hmem)
  have hattained : ∀ {β : Type} (order : β → Nat) (field : ToolSafetyContract → β) {bound : Nat},
      (∀ contract ∈ first :: rest, order (field contract) ≤ bound) →
        order (maxBy order (field first) (rest.map field)) ≤ bound := by
    intro β order field bound hbound
    obtain ⟨contract, hmem, heq⟩ := List.mem_map.1
      (show _ ∈ (first :: rest).map field from maxBy_mem order (field first) (rest.map field))
    exact heq ▸ hbound contract hmem
  constructor
  · intro contract hmem
    have hlevel := hgreatest SideEffectLevel.order (·.sideEffects) hmem
    exact {
      sideEffects := hlevel
      readOnly := fun hread => contract.readOnly_eq.trans (readOnly_mono hlevel hread)
      stability := hgreatest stabilityOrder (·.stability) hmem
      determinismLevel := hgreatest determinismOrder (·.determinismLevel) hmem
      idempotent := fun hall => List.all_eq_true.1 hall contract hmem
      cacheable := fun hall => List.all_eq_true.1 hall contract hmem
      safeToRetry := fun hall => List.all_eq_true.1 hall contract hmem
      supportsDryRun := fun hall => List.all_eq_true.1 hall contract hmem
      requiresApproval := fun happroval => List.any_eq_true.2 ⟨contract, hmem, happroval⟩ }
  · intro bound hbound
    have hlevel := hattained SideEffectLevel.order (·.sideEffects) fun contract hmem => (hbound hmem).sideEffects
    exact {
      sideEffects := hlevel
      readOnly := fun hread => readOnly_mono hlevel (bound.readOnly_eq.symm.trans hread)
      stability := hattained stabilityOrder (·.stability) fun contract hmem => (hbound hmem).stability
      determinismLevel := hattained determinismOrder (·.determinismLevel) fun contract hmem =>
        (hbound hmem).determinismLevel
      idempotent := fun hall => List.all_eq_true.2 fun contract hmem => (hbound hmem).idempotent hall
      cacheable := fun hall => List.all_eq_true.2 fun contract hmem => (hbound hmem).cacheable hall
      safeToRetry := fun hall => List.all_eq_true.2 fun contract hmem => (hbound hmem).safeToRetry hall
      supportsDryRun := fun hall => List.all_eq_true.2 fun contract hmem => (hbound hmem).supportsDryRun hall
      requiresApproval := by
        intro happroval
        obtain ⟨contract, hmem, happroval⟩ := List.any_eq_true.1 happroval
        exact (hbound hmem).requiresApproval happroval }

/-- Least upper bounds of contracts with the same upper bounds. -/
theorem withoutReason_of_isLUB {s s' : Set ToolSafetyContract} {joined joined' : ToolSafetyContract}
    (h : IsLUB s joined) (h' : IsLUB s' joined') (hbounds : upperBounds s = upperBounds s') :
    joined.withoutReason = joined'.withoutReason := by
  refine withoutReason_eq (h.2 ?_) (h'.2 ?_)
  · rw [hbounds]
    exact h'.1
  · rw [← hbounds]
    exact h.1

theorem mergeSafety_members {others : List ToolSafetyContract} (h : ∀ contract, contract ∈ contracts ↔ contract ∈ others) :
    (mergeSafety contracts).withoutReason = (mergeSafety others).withoutReason := by
  cases contracts with
  | nil =>
    have hempty : others = [] := List.eq_nil_iff_forall_not_mem.2 fun contract hmem => by
      simpa using (h contract).2 hmem
    rw [hempty]
  | cons first rest =>
    have hne : others ≠ [] := List.ne_nil_of_mem ((h first).1 List.mem_cons_self)
    exact withoutReason_of_isLUB (mergeSafety_isLUB (by simp)) (mergeSafety_isLUB hne) (by simp only [h])

/-- Merged parts have the upper bounds of all that is in them. -/
theorem mergeSafety_flatten (hparts : ∀ part ∈ parts, part ≠ []) :
    (mergeSafety parts.flatten).withoutReason = (mergeSafety (parts.map mergeSafety)).withoutReason := by
  cases parts with
  | nil => rfl
  | cons first rest =>
    have hne : (first :: rest).flatten ≠ [] := by simp [hparts first List.mem_cons_self]
    refine withoutReason_of_isLUB (mergeSafety_isLUB hne) (mergeSafety_isLUB (by simp)) ?_
    ext bound
    constructor
    · intro hbound merged hmem
      obtain ⟨part, hpart, rfl⟩ := List.mem_map.1 hmem
      refine (mergeSafety_isLUB (hparts part hpart)).2 fun contract hcontract => hbound ?_
      exact List.mem_flatten.2 ⟨part, hpart, hcontract⟩
    · intro hbound contract hmem
      obtain ⟨part, hpart, hcontract⟩ := List.mem_flatten.1 hmem
      have hmerged : mergeSafety part ≤ bound := hbound (List.mem_map_of_mem hpart)
      exact ((mergeSafety_isLUB (hparts part hpart)).1 hcontract).trans hmerged

-- The reasons

theorem mergeSafety_approvalReason (contracts : List ToolSafetyContract) : (mergeSafety contracts).approvalReason =
    (some ("; ".intercalate (approvalReasons contracts))).filter (· ≠ "") := by
  cases contracts with
  | nil => decide
  | cons first rest => rfl

theorem contract_ext {contract other : ToolSafetyContract} (h : contract.withoutReason = other.withoutReason)
    (hreason : contract.approvalReason = other.approvalReason) : contract = other := by
  cases contract
  cases other
  simp only [ToolSafetyContract.withoutReason, ToolSafetyContract.mk.injEq] at h hreason ⊢
  simp only [h, hreason, and_self]

/-- The reason a contract adds to a merged one. -/
def approvalText (contract : ToolSafetyContract) : Option String :=
  if contract.requiresApproval then contract.approvalReason.filter (· ≠ "") else none

theorem approvalReasons_eq (contracts : List ToolSafetyContract) :
    approvalReasons contracts = (contracts.filterMap approvalText).eraseDups := by
  unfold approvalReasons approvalText
  congr 1
  induction contracts with
  | nil => rfl
  | cons first rest ih =>
    cases happroval : first.requiresApproval with
    | false => rw [List.filter_cons_of_neg (by simp [happroval]), List.filterMap_cons_none (by simp [happroval]), ih]
    | true => simp only [List.filter_cons_of_pos happroval, List.filterMap_cons, happroval, if_true, ih]

/-- A contract that is listed again changes nothing. -/
theorem mergeSafety_eraseDups (contracts : List ToolSafetyContract) :
    mergeSafety contracts.eraseDups = mergeSafety contracts := by
  refine contract_ext (mergeSafety_members fun contract => List.mem_eraseDups) ?_
  rw [mergeSafety_approvalReason, mergeSafety_approvalReason, approvalReasons_eq, approvalReasons_eq,
    eraseDups_filterMap]

theorem intercalate_ne_empty {texts : List String} (h : ∀ text ∈ texts, text ≠ "") (hne : texts ≠ []) :
    "; ".intercalate texts ≠ "" := by
  obtain ⟨first, rest, rfl⟩ := List.exists_cons_of_ne_nil hne
  have hfirst := h first List.mem_cons_self
  cases rest with
  | nil => rwa [String.intercalate_singleton]
  | cons second rest =>
    rw [String.intercalate_cons_cons]
    simp [hfirst]

theorem approvalReasons_ne_empty (contracts : List ToolSafetyContract) :
    ∀ reason ∈ approvalReasons contracts, reason ≠ "" := by
  intro reason hmem
  rw [approvalReasons_eq, List.mem_eraseDups, List.mem_filterMap] at hmem
  obtain ⟨contract, -, htext⟩ := hmem
  unfold approvalText at htext
  split at htext
  · simpa using (Option.filter_eq_some_iff.1 htext).2
  · cases htext

/-- The text of reasons, if there are any. -/
def joinReasons (reasons : List String) : Option String :=
  if reasons = [] then none else some ("; ".intercalate reasons)

theorem mergeSafety_text (contracts : List ToolSafetyContract) :
    (mergeSafety contracts).approvalReason = joinReasons (approvalReasons contracts) := by
  rw [mergeSafety_approvalReason, joinReasons]
  split
  · next hnone =>
    rw [hnone]
    decide
  · next hne =>
    have htext := intercalate_ne_empty (approvalReasons_ne_empty contracts) hne
    simp [Option.filter, htext]

/-- A merged contract that gives a reason asks for approval. -/
theorem approvalText_mergeSafety (contracts : List ToolSafetyContract) :
    approvalText (mergeSafety contracts) = (mergeSafety contracts).approvalReason := by
  unfold approvalText
  rw [mergeSafety_text, mergeSafety_requiresApproval]
  by_cases hreasons : approvalReasons contracts = []
  · simp [hreasons, joinReasons]
  · have htext := intercalate_ne_empty (approvalReasons_ne_empty contracts) hreasons
    have hasks : contracts.any (·.requiresApproval) = true := by
      obtain ⟨reason, rest, heq⟩ := List.exists_cons_of_ne_nil hreasons
      have hmem : reason ∈ approvalReasons contracts := heq ▸ List.mem_cons_self
      rw [approvalReasons_eq, List.mem_eraseDups, List.mem_filterMap] at hmem
      obtain ⟨contract, hcontract, hgives⟩ := hmem
      refine List.any_eq_true.2 ⟨contract, hcontract, ?_⟩
      by_contra hno
      simp [approvalText, hno] at hgives
    simp [hreasons, hasks, joinReasons, Option.filter, htext]

/-- The reasons of merged parts are the texts of the parts. -/
theorem approvalReasons_map (parts : List (List ToolSafetyContract)) : approvalReasons (parts.map mergeSafety) =
    (parts.filterMap fun part => (mergeSafety part).approvalReason).eraseDups := by
  rw [approvalReasons_eq, List.filterMap_map]
  congr 2
  funext part
  exact approvalText_mergeSafety part

theorem approvalReasons_append {first second : List ToolSafetyContract}
    (h : List.Disjoint (approvalReasons first) (approvalReasons second)) :
    approvalReasons (first ++ second) = approvalReasons first ++ approvalReasons second := by
  simp only [approvalReasons_eq] at h ⊢
  rw [List.filterMap_append, List.eraseDups_append]
  congr 2
  refine List.filter_eq_self.2 fun text htext => ?_
  have hnew : text ∉ first.filterMap approvalText := fun hmem =>
    h (List.mem_eraseDups.2 hmem) (List.mem_eraseDups.2 htext)
  simpa using hnew

theorem approvalReasons_flatten (h : (parts.map approvalReasons).Pairwise List.Disjoint) :
    approvalReasons parts.flatten = (parts.map approvalReasons).flatten := by
  induction parts with
  | nil => rfl
  | cons first rest ih =>
    obtain ⟨hfirst, hrest⟩ := List.pairwise_cons.1 h
    have ih := ih hrest
    rw [List.flatten_cons, approvalReasons_append, ih, List.map_cons, List.flatten_cons]
    rw [ih]
    intro reason hmem hlater
    obtain ⟨reasons, hreasons, hlater⟩ := List.mem_flatten.1 hlater
    exact hfirst reasons hreasons hmem hlater

/-- Texts that are joined and joined again are joined at once. -/
theorem intercalate_flatten (lists : List (List String)) :
    "; ".intercalate lists.flatten = "; ".intercalate (lists.filterMap joinReasons) := by
  induction lists with
  | nil => rfl
  | cons texts rest ih =>
    by_cases hempty : texts = []
    · simpa [hempty, joinReasons] using ih
    · have hhead : joinReasons texts = some ("; ".intercalate texts) := if_neg hempty
      rw [List.flatten_cons, List.filterMap_cons_some hhead]
      by_cases hrest : rest.flatten = []
      · have hnone : rest.filterMap joinReasons = [] := by
          refine List.filterMap_eq_nil_iff.2 fun texts hmem => if_pos ?_
          exact List.flatten_eq_nil_iff.1 hrest texts hmem
        rw [hrest, hnone, List.append_nil, String.intercalate_singleton]
      · have hsome : rest.filterMap joinReasons ≠ [] := by
          intro hnone
          refine hrest (List.flatten_eq_nil_iff.2 fun texts hmem => ?_)
          by_contra hne
          simpa [joinReasons, hne] using List.filterMap_eq_nil_iff.1 hnone texts hmem
        rw [String.intercalate_append_of_ne_nil hempty hrest, ih, String.intercalate_cons_of_ne_nil hsome]

/-- Where no reason is given in two parts, merging the merged parts gives the text too. -/
theorem mergeSafety_flatten_eq (hparts : ∀ part ∈ parts, part ≠ [])
    (hreasons : (parts.map approvalReasons).Pairwise List.Disjoint)
    (htexts : (parts.filterMap fun part => (mergeSafety part).approvalReason).Nodup) :
    mergeSafety parts.flatten = mergeSafety (parts.map mergeSafety) := by
  refine contract_ext (mergeSafety_flatten hparts) ?_
  rw [mergeSafety_approvalReason, mergeSafety_approvalReason, approvalReasons_map, eraseDups_of_nodup htexts,
    approvalReasons_flatten hreasons, intercalate_flatten, List.filterMap_map]
  congr 3
  refine List.filterMap_congr fun part _ => ?_
  exact (mergeSafety_text part).symm

/-- The texts aside, merging is a join of the contracts in a list, however they are
listed and grouped. The text lists the distinct reasons in their order, and a merge of
merged parts that of their texts. -/
theorem mergeSafety_join :
    (∀ contracts, (mergeSafety contracts).readOnly = (mergeSafety contracts).sideEffects.readOnly) ∧
    (∀ contracts, contracts ≠ [] → IsLUB {contract | contract ∈ contracts} (mergeSafety contracts)) ∧
    (∀ contracts, mergeSafety contracts.eraseDups = mergeSafety contracts) ∧
    (∀ contracts others, (∀ contract, contract ∈ contracts ↔ contract ∈ others) →
      (mergeSafety contracts).withoutReason = (mergeSafety others).withoutReason ∧
        ∀ reason, reason ∈ approvalReasons contracts ↔ reason ∈ approvalReasons others) ∧
    (∀ contracts, (mergeSafety contracts).approvalReason = joinReasons (approvalReasons contracts)) ∧
    ∀ parts : List (List ToolSafetyContract), (∀ part ∈ parts, part ≠ []) →
      (mergeSafety parts.flatten).withoutReason = (mergeSafety (parts.map mergeSafety)).withoutReason ∧
        approvalReasons (parts.map mergeSafety) =
          (parts.filterMap fun part => (mergeSafety part).approvalReason).eraseDups ∧
        ((parts.map approvalReasons).Pairwise List.Disjoint →
          (parts.filterMap fun part => (mergeSafety part).approvalReason).Nodup →
            mergeSafety parts.flatten = mergeSafety (parts.map mergeSafety)) := by
  refine ⟨fun contracts => (mergeSafety contracts).readOnly_eq, fun contracts => mergeSafety_isLUB,
    mergeSafety_eraseDups, fun contracts others h => ⟨mergeSafety_members h, fun reason => ?_⟩, mergeSafety_text,
    fun parts hparts => ⟨mergeSafety_flatten hparts, approvalReasons_map parts, mergeSafety_flatten_eq hparts⟩⟩
  simp only [approvalReasons_eq, List.mem_eraseDups, List.mem_filterMap, h]

/-- A contract that asks for approval, and says why. -/
def asking (reason : String) : ToolSafetyContract :=
  { requiresApproval := true, approvalReason := some reason, readOnly_eq := SideEffectLevel.readOnly_none }

/-- The text follows the order, a merge of merged parts repeats a reason, and the
contract of no parts is not the least one. -/
theorem reasons_ordered :
    (¬∀ contracts others, (∀ contract, contract ∈ contracts ↔ contract ∈ others) →
      mergeSafety contracts = mergeSafety others) ∧
    (¬∀ first second, first ≠ [] → second ≠ [] →
      mergeSafety (first ++ second) = mergeSafety [mergeSafety first, mergeSafety second]) ∧
    ¬∀ contracts, IsLUB {contract | contract ∈ contracts} (mergeSafety contracts) := by
  refine ⟨fun h => ?_, fun h => ?_, fun h => ?_⟩
  · have heq := h [asking "a", asking "b"] [asking "b", asking "a"] fun contract => by simp [or_comm]
    exact absurd (congrArg (·.approvalReason) heq) (by decide +kernel)
  · have heq := h [asking "a", asking "b"] [asking "a"] (by simp) (by simp)
    exact absurd (congrArg (·.approvalReason) heq) (by decide +kernel)
  · have hleast : mergeSafety [] ≤ { supportsDryRun := true } := (h []).2 (by simp [upperBounds])
    cases hleast.supportsDryRun rfl

end Server

end ChainWeaver
