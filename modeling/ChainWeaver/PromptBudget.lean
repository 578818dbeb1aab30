import ChainWeaver.Data.Counting
import Mathlib.Data.List.Infix
import Mathlib.Order.Basic

/-!
# Prompt budgets

`apply_budget` of `proposals.py` plans the prompts of an offline proposer. Nothing is
known of the sizes that the renderer and the counter come to: a longer list of tools
may well be the smaller prompt.
-/

namespace ChainWeaver.Proposals

variable {τ : Type}

/-- `PromptBudget`. -/
structure PromptBudget (τ : Type) where
  maxTokens : Nat
  overflow : String := "error"
  maxDescriptionChars : Option Nat := none
  selector : Option (List τ → List τ) := none
  maxTokens_pos : 0 < maxTokens
  maxDescriptionChars_pos : ∀ cap, maxDescriptionChars = some cap → 0 < cap := by simp

/-- `_VALID_OVERFLOW`. -/
def validOverflow : List String := ["error", "truncate", "batch", "select"]

/-- `_TRUNCATE_DESCRIPTION_CHARS`. -/
def truncateDescriptionChars : Nat := 160

def estimateTokens (text : String) (tokenCounter : Option (String → Int)) : Int :=
  match tokenCounter with
  | some tokenCounter => tokenCounter text
  | none => ((text.length + 3) / 4 : Nat)

structure CatalogueStats where
  toolsTotal : Nat
  toolsRendered : Nat
  estimatedPromptTokens : Int

structure BudgetPlan (τ : Type) where
  batches : List (List τ)
  descriptionChars : Option Nat
  stats : CatalogueStats

/-- The `ValueError`s, and `PromptBudgetExceededError`. -/
inductive BudgetError
  | unknownOverflow (overflow : String)
  | selectorMissing
  | exceeded (estimatedTokens : Int) (maxTokens : Nat)

/-- `[items] if items else []`. -/
def oneBatch : List τ → List (List τ)
  | [] => []
  | tools => [tools]

/-- The `while` loop of the truncate mode. -/
def backOff (exceeds : List τ → Bool) (kept : List τ) : List τ :=
  if !kept.isEmpty && exceeds kept && decide (1 < kept.length) then backOff exceeds kept.dropLast else kept
termination_by kept.length
decreasing_by
  simp_all only [Bool.and_eq_true, decide_eq_true_eq, List.length_dropLast]
  omega

/-- The body of the loop of the batch mode, on the closed batches and the open one. -/
def pack (exceeds : List τ → Bool) (packed : List (List τ) × List τ) (tool : τ) : List (List τ) × List τ :=
  let (batches, current) := packed
  let trial := current ++ [tool]
  if !current.isEmpty && exceeds trial then (batches ++ [current], [tool]) else (batches, trial)

def packBatches (exceeds : List τ → Bool) (tools : List τ) : List (List τ) :=
  let (batches, current) := tools.foldl (pack exceeds) ([], [])
  if current.isEmpty then batches else batches ++ [current]

section

variable (maxTokens : Nat) (est : List τ → Option Nat → Int) (total : Nat)

/-- The check of the estimate at the end of every mode. -/
def planWithin (estimate : Int) (batches : List (List τ)) (cap : Option Nat) (rendered : Nat) :
    Except BudgetError (BudgetPlan τ) :=
  if estimate > maxTokens then .error (.exceeded estimate maxTokens)
  else .ok
    { batches, descriptionChars := cap,
      stats := { toolsTotal := total, toolsRendered := rendered, estimatedPromptTokens := estimate } }

def overBudget (cap : Option Nat) (subset : List τ) : Bool := est subset cap > maxTokens

def planWhole (selected : List τ) : Except BudgetError (BudgetPlan τ) :=
  planWithin maxTokens total (est selected none) (oneBatch selected) none selected.length

def planTruncated (cap : Nat) (selected : List τ) : Except BudgetError (BudgetPlan τ) :=
  let kept := backOff (overBudget maxTokens est cap) selected
  let estimate := if kept.isEmpty then 0 else est kept cap
  planWithin maxTokens total estimate (oneBatch kept) cap kept.length

def planBatched (selected : List τ) : Except BudgetError (BudgetPlan τ) :=
  let batches := packBatches (overBudget maxTokens est none) selected
  let rendered := Counting.total (batches.map List.length)
  let estimate := (batches.map (est · none)).max?.getD 0
  planWithin maxTokens total estimate batches none rendered

end

def selectTools (budget : PromptBudget τ) (tools : List τ) : Except BudgetError (List τ) :=
  if budget.overflow = "select" then
    match budget.selector with
    | none => .error .selectorMissing
    | some selector => .ok (selector tools)
  else .ok tools

/-- `_est`. -/
def estimated (tokenCounter : Option (String → Int)) (buildPrompt : List τ → Option Nat → String) (subset : List τ)
    (cap : Option Nat) : Int :=
  estimateTokens (buildPrompt subset cap) tokenCounter

def applyBudget (tools : List τ) (budget : Option (PromptBudget τ)) (tokenCounter : Option (String → Int))
    (buildPrompt : List τ → Option Nat → String) : Except BudgetError (BudgetPlan τ) :=
  let est := estimated tokenCounter buildPrompt
  match budget with
  | none =>
    .ok
      { batches := oneBatch tools, descriptionChars := none,
        stats := { toolsTotal := tools.length, toolsRendered := tools.length, estimatedPromptTokens := est tools none } }
  | some budget =>
    if budget.overflow ∉ validOverflow then .error (.unknownOverflow budget.overflow)
    else
      match selectTools budget tools with
      | .error e => .error e
      | .ok selected =>
        if budget.overflow = "error" ∨ budget.overflow = "select" then
          planWhole budget.maxTokens est tools.length selected
        else if budget.overflow = "truncate" then
          let cap := budget.maxDescriptionChars.getD truncateDescriptionChars
          planTruncated budget.maxTokens est tools.length cap selected
        else planBatched budget.maxTokens est tools.length selected

-- The loops

variable {exceeds : List τ → Bool} {tools : List τ}

theorem flatten_oneBatch (tools : List τ) : (oneBatch tools).flatten = tools := by
  cases tools <;> simp [oneBatch]

theorem mem_oneBatch {batch : List τ} (h : batch ∈ oneBatch tools) : batch = tools ∧ tools ≠ [] := by
  cases tools with
  | nil => cases h
  | cons first rest => exact ⟨List.mem_singleton.1 h, by simp⟩

/-- What is kept is a beginning, and every longer one was over the budget. -/
theorem backOff_spec (exceeds : List τ → Bool) (kept : List τ) :
    backOff exceeds kept <+: kept ∧
      ∀ longer, longer <+: kept → (backOff exceeds kept).length < longer.length → exceeds longer = true := by
  induction kept using backOff.induct exceeds with
  | case1 kept hdrop ih =>
    obtain ⟨hbegin, hlonger⟩ := ih
    rw [backOff, if_pos hdrop]
    refine ⟨hbegin.trans (List.dropLast_prefix kept), fun longer hbegins hlength => ?_⟩
    by_cases hwhole : longer.length = kept.length
    · rw [hbegins.eq_of_length hwhole]
      simp only [Bool.and_eq_true] at hdrop
      exact hdrop.1.2
    · refine hlonger longer ?_ hlength
      have hle := hbegins.length_le
      have hdropped : longer.length ≤ kept.dropLast.length := by
        rw [List.length_dropLast]
        omega
      exact List.prefix_of_prefix_length_le hbegins (List.dropLast_prefix kept) hdropped
  | case2 kept hkeep =>
    rw [backOff, if_neg hkeep]
    exact ⟨List.prefix_rfl, fun longer hbegins hlength => absurd hbegins.length_le (Nat.not_le.2 hlength)⟩

/-- What the loop of the batch mode keeps: closed batches are not empty, and nothing
of what was read is lost. -/
structure Packed (packed : List (List τ) × List τ) (read : List τ) : Prop where
  nonempty : ∀ batch ∈ packed.1, batch ≠ []
  flatten : packed.1.flatten ++ packed.2 = read

theorem Packed.pack {packed : List (List τ) × List τ} {read : List τ} (h : Packed packed read) (tool : τ) :
    Packed (pack exceeds packed tool) (read ++ [tool]) := by
  obtain ⟨batches, current⟩ := packed
  unfold Proposals.pack
  dsimp only
  split
  · next hclose =>
    have hcurrent : current ≠ [] := by
      rintro rfl
      cases hclose
    constructor
    · intro batch hmem
      rcases List.mem_append.1 hmem with hmem | hmem
      · exact h.nonempty batch hmem
      · obtain rfl := List.mem_singleton.1 hmem
        exact hcurrent
    · simp [← h.flatten]
  · exact ⟨h.nonempty, by simp [← h.flatten]⟩

theorem packed_foldl (tools : List τ) {packed : List (List τ) × List τ} {read : List τ} (h : Packed packed read) :
    Packed (tools.foldl (pack exceeds) packed) (read ++ tools) := by
  induction tools generalizing packed read with
  | nil => simpa using h
  | cons tool rest ih => simpa using ih (h.pack tool)

theorem packBatches_spec (exceeds : List τ → Bool) (tools : List τ) :
    (∀ batch ∈ packBatches exceeds tools, batch ≠ []) ∧ (packBatches exceeds tools).flatten = tools := by
  have hpacked : Packed (tools.foldl (pack exceeds) ([], [])) tools := packed_foldl tools ⟨by simp, rfl⟩
  unfold packBatches
  split
  next batches current heq =>
  rw [heq] at hpacked
  split
  · next hempty =>
    refine ⟨hpacked.nonempty, ?_⟩
    simpa [List.isEmpty_iff.1 hempty] using hpacked.flatten
  · next hopen =>
    constructor
    · intro batch hmem
      rcases List.mem_append.1 hmem with hmem | hmem
      · exact hpacked.nonempty batch hmem
      · obtain rfl := List.mem_singleton.1 hmem
        simpa using hopen
    · simpa using hpacked.flatten

-- Plans

/-- What a plan promises under a budget. -/
structure Planned (tools : List τ) (budget : PromptBudget τ) (est : List τ → Option Nat → Int) (plan : BudgetPlan τ) :
    Prop where
  within : ∀ batch ∈ plan.batches, est batch plan.descriptionChars ≤ budget.maxTokens
  rendered : plan.stats.toolsRendered = plan.batches.flatten.length
  batched : budget.overflow = "batch" → (∀ batch ∈ plan.batches, batch ≠ []) ∧ plan.batches.flatten = tools
  truncated : budget.overflow = "truncate" → ∃ kept, plan.batches = oneBatch kept ∧ kept <+: tools ∧
    ∀ longer, longer <+: tools → kept.length < longer.length →
      est longer plan.descriptionChars > budget.maxTokens

/-- The mode is known, and the select mode has its selector. -/
def PromptBudget.Valid (budget : PromptBudget τ) : Prop :=
  budget.overflow ∈ validOverflow ∧ (budget.overflow = "select" → budget.selector ≠ none)

variable {maxTokens total rendered : Nat} {est : List τ → Option Nat → Int} {estimate : Int} {batches : List (List τ)}
  {cap : Option Nat} {plan : BudgetPlan τ} {budget : PromptBudget τ} {selected : List τ} {e : BudgetError}

theorem planWithin_ok (h : planWithin maxTokens total estimate batches cap rendered = .ok plan) :
    estimate ≤ maxTokens ∧ plan.batches = batches ∧ plan.descriptionChars = cap ∧ plan.stats.toolsRendered = rendered := by
  unfold planWithin at h
  split at h
  · cases h
  · next hfits =>
    obtain rfl := Except.ok.inj h
    exact ⟨Int.not_lt.1 hfits, rfl, rfl, rfl⟩

theorem planWithin_error (h : planWithin maxTokens total estimate batches cap rendered = .error e) :
    e = .exceeded estimate maxTokens ∧ estimate > maxTokens := by
  unfold planWithin at h
  split at h
  · next hover => exact ⟨(Except.error.inj h).symm, hover⟩
  · cases h

theorem planWhole_planned (hmode : budget.overflow = "error" ∨ budget.overflow = "select")
    (h : planWhole budget.maxTokens est total selected = .ok plan) : Planned tools budget est plan := by
  obtain ⟨hfits, hbatches, hcap, hrendered⟩ := planWithin_ok h
  have hbatch : budget.overflow ≠ "batch" := by rcases hmode with hmode | hmode <;> simp [hmode]
  have htruncate : budget.overflow ≠ "truncate" := by rcases hmode with hmode | hmode <;> simp [hmode]
  refine ⟨fun batch hmem => ?_, ?_, fun hmode => absurd hmode hbatch, fun hmode => absurd hmode htruncate⟩
  · rw [hbatches] at hmem
    rw [hcap, (mem_oneBatch hmem).1]
    exact hfits
  · rw [hrendered, hbatches, flatten_oneBatch]

theorem planTruncated_planned {cap : Nat} (hmode : budget.overflow = "truncate")
    (h : planTruncated budget.maxTokens est total cap tools = .ok plan) : Planned tools budget est plan := by
  obtain ⟨hfits, hbatches, hcap, hrendered⟩ := planWithin_ok h
  obtain ⟨hbegin, hlonger⟩ := backOff_spec (overBudget budget.maxTokens est cap) tools
  refine ⟨fun batch hmem => ?_, ?_, fun hbatch => ?_, fun _ => ⟨_, hbatches, hbegin, fun longer hbegins hlength => ?_⟩⟩
  · rw [hbatches] at hmem
    obtain ⟨rfl, hne⟩ := mem_oneBatch hmem
    rw [if_neg (by simpa using hne)] at hfits
    rw [hcap]
    exact hfits
  · rw [hrendered, hbatches, flatten_oneBatch]
  · exact absurd (hmode.symm.trans hbatch) (by decide)
  · rw [hcap]
    exact of_decide_eq_true (hlonger longer hbegins hlength)

theorem le_greatest {item : Int} {items : List Int} (h : item ∈ items) : item ≤ items.max?.getD 0 := by
  cases hmax : items.max? with
  | none =>
    rw [List.max?_eq_none_iff.1 hmax] at h
    cases h
  | some greatest => exact (List.max?_eq_some_iff.1 hmax).2 item h

theorem planBatched_planned (hmode : budget.overflow = "batch")
    (h : planBatched budget.maxTokens est total tools = .ok plan) : Planned tools budget est plan := by
  obtain ⟨hfits, hbatches, hcap, hrendered⟩ := planWithin_ok h
  have hpacked := packBatches_spec (overBudget budget.maxTokens est none) tools
  refine ⟨fun batch hmem => ?_, ?_, fun _ => ?_, fun htruncate => ?_⟩
  · rw [hbatches] at hmem
    rw [hcap]
    exact Int.le_trans (le_greatest (List.mem_map_of_mem (f := (est · none)) hmem)) hfits
  · rw [hrendered, hbatches, Counting.length_flatten]
  · rw [hbatches]
    exact hpacked
  · exact absurd (hmode.symm.trans htruncate) (by decide)

/-- `apply_budget` plans prompts within the budget, or refuses for the size of one, if
the budget is valid. -/
theorem applyBudget_planned (tools : List τ) (budget : PromptBudget τ) (tokenCounter : Option (String → Int))
    (buildPrompt : List τ → Option Nat → String) :
    (∀ plan, applyBudget tools (some budget) tokenCounter buildPrompt = .ok plan →
      Planned tools budget (estimated tokenCounter buildPrompt) plan) ∧
    (budget.Valid → ∀ e, applyBudget tools (some budget) tokenCounter buildPrompt = .error e →
      ∃ estimate : Int, e = .exceeded estimate budget.maxTokens ∧ estimate > budget.maxTokens) := by
  unfold applyBudget
  dsimp only
  split
  · next hunknown =>
    refine ⟨fun plan h => ?_, fun hvalid => absurd hvalid.1 hunknown⟩
    cases h
  next hknown =>
  unfold selectTools
  by_cases hselect : budget.overflow = "select"
  · rw [if_pos hselect]
    cases hselector : budget.selector with
    | none =>
      refine ⟨fun plan h => ?_, fun hvalid => absurd hselector (hvalid.2 hselect)⟩
      cases h
    | some selector =>
      dsimp only
      rw [if_pos (.inr hselect)]
      exact ⟨fun plan h => planWhole_planned (.inr hselect) h, fun _ e h => ⟨_, planWithin_error h⟩⟩
  rw [if_neg hselect]
  dsimp only
  split
  · next hmode => exact ⟨fun plan h => planWhole_planned hmode h, fun _ e h => ⟨_, planWithin_error h⟩⟩
  next herror =>
  split
  · next hmode => exact ⟨fun plan h => planTruncated_planned hmode h, fun _ e h => ⟨_, planWithin_error h⟩⟩
  · next htruncate =>
    have hmode : budget.overflow = "batch" := by
      have hknown := not_not.1 hknown
      simp only [validOverflow, List.mem_cons, List.not_mem_nil, or_false] at hknown
      tauto
    exact ⟨fun plan h => planBatched_planned hmode h, fun _ e h => ⟨_, planWithin_error h⟩⟩

end ChainWeaver.Proposals
