import Mathlib
import PromptCode.Py.Rational

/-!
# Scores of quality and usage

`score_efficiency_tradeoff` and `score_frontier_navigation` over exact numbers.
-/

namespace PromptCode

open Py

/-- The budgets of a challenge, where it sets them. -/
structure UsageBudgets where
  tokens : Option ℚ
  costUsd : Option ℚ
  latencyMs : Option ℚ
  calls : Option ℚ

/-- What an evaluation has used. -/
structure Usage where
  tokens : ℚ
  costUsd : ℚ
  latencyMs : ℚ
  calls : ℚ
  tokens_nonneg : 0 ≤ tokens
  costUsd_nonneg : 0 ≤ costUsd
  latencyMs_nonneg : 0 ≤ latencyMs
  calls_nonneg : 0 ≤ calls

/-- The quality of an evaluation. -/
structure QualityAnchor where
  value : ℚ
  nonneg : 0 ≤ value
  le_one : value ≤ 1

def clamp01 (x : ℚ) : ℚ := max 0 (min 1 x)

namespace UsageBudgets

variable (b : UsageBudgets)

def tokenBudget : ℚ := max 1 (b.tokens.getD 12000)

def costBudget : ℚ := max (1 / 10000) (b.costUsd.getD (1 / 5))

def latencyBudget : ℚ := max 1 (b.latencyMs.getD 30000)

def callBudget : ℚ := max 1 (b.calls.getD 20)

/-- The usage as a share of the budgets. -/
def weightedUsage (u : Usage) : ℚ :=
  u.tokens / b.tokenBudget * (35 / 100) + u.costUsd / b.costBudget * (35 / 100) +
    u.latencyMs / b.latencyBudget * (20 / 100) + u.calls / b.callBudget * (10 / 100)

end UsageBudgets

/-! ## Efficiency -/

/-- How near a usage is to the budget frontier. -/
def efficiencyFrontier (w : ℚ) : ℚ :=
  clamp01 (if w ≤ 1 then 1 - w * (15 / 100) else 1 - (w - 1) * (6 / 10))

def qualityGate (q : ℚ) : ℚ := clamp01 ((clamp01 q - 2 / 10) / (6 / 10))

def scoreEfficiencyTradeoff (b : UsageBudgets) (u : Usage) (qualityAnchor : ℚ) : ℚ :=
  roundTo 4 (clamp01 (efficiencyFrontier (b.weightedUsage u) *
    (4 / 10 + 6 / 10 * qualityGate qualityAnchor)))

/-! ## Frontier navigation -/

def expectedUsage (q : ℚ) : ℚ := max (45 / 100) (110 / 100 - 70 / 100 * q)

def frontierGap (w q : ℚ) : ℚ := max 0 (w - expectedUsage q)

/-- The proximity to the frontier, which a low quality lowers further. -/
def frontierProximity (w q : ℚ) : ℚ :=
  let proximity := clamp01 (1 - frontierGap w q / (125 / 100))
  if q < 45 / 100 then proximity * (q / (45 / 100)) else proximity

structure FrontierNavigation where
  score : ℚ
  qualityAnchor : ℚ
  weightedUsage : ℚ
  expectedUsage : ℚ
  frontierGap : ℚ
  proximity : ℚ

def scoreFrontierNavigation (b : UsageBudgets) (u : Usage) (qualityAnchor : ℚ) :
    FrontierNavigation :=
  let w := b.weightedUsage u
  let q := clamp01 qualityAnchor
  { score := roundTo 4 (clamp01 (65 / 100 * frontierProximity w q + 35 / 100 * q))
    qualityAnchor := roundTo 4 q
    weightedUsage := roundTo 4 w
    expectedUsage := roundTo 4 (expectedUsage q)
    frontierGap := roundTo 4 (frontierGap w q)
    proximity := roundTo 4 (frontierProximity w q) }

/-! ## Usage and the clamp -/

section Clamp

variable {x y : ℚ}

theorem clamp01_nonneg : 0 ≤ clamp01 x := le_max_left _ _

theorem clamp01_le_one : clamp01 x ≤ 1 := max_le zero_le_one (min_le_left _ _)

theorem clamp01_mono (h : x ≤ y) : clamp01 x ≤ clamp01 y :=
  max_le_max_left _ (min_le_min_left _ h)

theorem clamp01_of_mem (h₀ : 0 ≤ x) (h₁ : x ≤ 1) : clamp01 x = x := by
  rw [clamp01, min_eq_right h₁, max_eq_right h₀]

/-- A rounded score is from 0 to 1. -/
theorem roundTo_clamp01_mem (digits : ℕ) :
    0 ≤ roundTo digits (clamp01 x) ∧ roundTo digits (clamp01 x) ≤ 1 := by
  have h := roundTo_mem_Icc digits (a := 0) (b := 1) (by exact_mod_cast clamp01_nonneg (x := x))
    (by exact_mod_cast clamp01_le_one (x := x))
  exact_mod_cast h

end Clamp

/-- One input is larger and the others are the same. -/
inductive Usage.Raises (u : Usage) : Usage → Prop
  | tokens {u'} : u.tokens ≤ u'.tokens → u'.costUsd = u.costUsd → u'.latencyMs = u.latencyMs →
      u'.calls = u.calls → u.Raises u'
  | costUsd {u'} : u.costUsd ≤ u'.costUsd → u'.tokens = u.tokens → u'.latencyMs = u.latencyMs →
      u'.calls = u.calls → u.Raises u'
  | latencyMs {u'} : u.latencyMs ≤ u'.latencyMs → u'.tokens = u.tokens → u'.costUsd = u.costUsd →
      u'.calls = u.calls → u.Raises u'
  | calls {u'} : u.calls ≤ u'.calls → u'.tokens = u.tokens → u'.costUsd = u.costUsd →
      u'.latencyMs = u.latencyMs → u.Raises u'

namespace UsageBudgets

variable (b : UsageBudgets)

theorem tokenBudget_pos : 0 < b.tokenBudget := lt_max_of_lt_left (by norm_num)

theorem costBudget_pos : 0 < b.costBudget := lt_max_of_lt_left (by norm_num)

theorem latencyBudget_pos : 0 < b.latencyBudget := lt_max_of_lt_left (by norm_num)

theorem callBudget_pos : 0 < b.callBudget := lt_max_of_lt_left (by norm_num)

theorem weightedUsage_nonneg (u : Usage) : 0 ≤ b.weightedUsage u := by
  have htokens := div_nonneg u.tokens_nonneg b.tokenBudget_pos.le
  have hcost := div_nonneg u.costUsd_nonneg b.costBudget_pos.le
  have hlatency := div_nonneg u.latencyMs_nonneg b.latencyBudget_pos.le
  have hcalls := div_nonneg u.calls_nonneg b.callBudget_pos.le
  unfold weightedUsage
  linarith

theorem weightedUsage_mono {u u' : Usage} (h : u.Raises u') :
    b.weightedUsage u ≤ b.weightedUsage u' := by
  unfold weightedUsage
  cases h with
  | tokens hle hcost hlatency hcalls =>
      rw [hcost, hlatency, hcalls]
      have := div_le_div_of_nonneg_right hle b.tokenBudget_pos.le
      linarith
  | costUsd hle htokens hlatency hcalls =>
      rw [htokens, hlatency, hcalls]
      have := div_le_div_of_nonneg_right hle b.costBudget_pos.le
      linarith
  | latencyMs hle htokens hcost hcalls =>
      rw [htokens, hcost, hcalls]
      have := div_le_div_of_nonneg_right hle b.latencyBudget_pos.le
      linarith
  | calls hle htokens hcost hlatency =>
      rw [htokens, hcost, hlatency]
      have := div_le_div_of_nonneg_right hle b.callBudget_pos.le
      linarith

end UsageBudgets

/-! ## The efficiency of more usage and of better quality -/

section Efficiency

variable {w w' q q' : ℚ}

theorem efficiencyFrontier_of_le (h₀ : 0 ≤ w) (h₁ : w ≤ 1) :
    efficiencyFrontier w = 1 - w * (15 / 100) := by
  rw [efficiencyFrontier, if_pos h₁]
  exact clamp01_of_mem (by linarith) (by linarith)

theorem efficiencyFrontier_of_lt (h : 1 < w) :
    efficiencyFrontier w = clamp01 (1 - (w - 1) * (6 / 10)) := by
  rw [efficiencyFrontier, if_neg (not_le.mpr h)]

/-- Within the budgets the frontier falls slowly, beyond them fast. -/
theorem efficiencyFrontier_anti (h₀ : 0 ≤ w) (hle : w ≤ w') (hside : w' ≤ 1 ∨ 1 < w) :
    efficiencyFrontier w' ≤ efficiencyFrontier w := by
  rcases hside with hin | hout
  · rw [efficiencyFrontier_of_le (h₀.trans hle) hin, efficiencyFrontier_of_le h₀ (hle.trans hin)]
    linarith
  · rw [efficiencyFrontier_of_lt (hout.trans_le hle), efficiencyFrontier_of_lt hout]
    exact clamp01_mono (by linarith)

/-- Past the budget line the frontier starts at the top again. -/
theorem efficiencyFrontier_cross_le (h₀ : 0 ≤ w) (hin : w ≤ 1) (hout : 1 < w')
    (hfar : w ≤ 4 * (w' - 1)) : efficiencyFrontier w' ≤ efficiencyFrontier w := by
  rw [efficiencyFrontier_of_lt hout, efficiencyFrontier_of_le h₀ hin]
  calc clamp01 (1 - (w' - 1) * (6 / 10)) ≤ clamp01 (1 - w * (15 / 100)) :=
        clamp01_mono (by linarith)
    _ = 1 - w * (15 / 100) := clamp01_of_mem (by linarith) (by linarith)

theorem qualityGate_mono (h : q ≤ q') : qualityGate q ≤ qualityGate q' := by
  have hclamp := clamp01_mono h
  exact clamp01_mono (div_le_div_of_nonneg_right (by linarith) (by norm_num))

theorem efficiencyGate_nonneg : 0 ≤ 4 / 10 + 6 / 10 * qualityGate q := by
  have : 0 ≤ qualityGate q := clamp01_nonneg
  linarith

theorem efficiencyGate_le_one : 4 / 10 + 6 / 10 * qualityGate q ≤ 1 := by
  have : qualityGate q ≤ 1 := clamp01_le_one
  linarith

/-- Before it is rounded, the score is the frontier times the gate. -/
theorem scoreEfficiencyTradeoff_eq (b : UsageBudgets) (u : Usage) (q : ℚ) :
    scoreEfficiencyTradeoff b u q = roundTo 4 (efficiencyFrontier (b.weightedUsage u) *
      (4 / 10 + 6 / 10 * qualityGate q)) := by
  rw [scoreEfficiencyTradeoff, clamp01_of_mem]
  · exact mul_nonneg clamp01_nonneg efficiencyGate_nonneg
  · exact mul_le_one₀ clamp01_le_one efficiencyGate_nonneg efficiencyGate_le_one

theorem scoreEfficiencyTradeoff_le {b : UsageBudgets} {u u' : Usage}
    (h : efficiencyFrontier (b.weightedUsage u') ≤ efficiencyFrontier (b.weightedUsage u)) :
    scoreEfficiencyTradeoff b u' q ≤ scoreEfficiencyTradeoff b u q := by
  rw [scoreEfficiencyTradeoff_eq, scoreEfficiencyTradeoff_eq]
  exact roundTo_mono 4 (mul_le_mul_of_nonneg_right h efficiencyGate_nonneg)

theorem scoreEfficiencyTradeoff_mono (b : UsageBudgets) (u : Usage) (h : q ≤ q') :
    scoreEfficiencyTradeoff b u q ≤ scoreEfficiencyTradeoff b u q' := by
  rw [scoreEfficiencyTradeoff_eq, scoreEfficiencyTradeoff_eq]
  refine roundTo_mono 4 (mul_le_mul_of_nonneg_left ?_ clamp01_nonneg)
  have := qualityGate_mono h
  linarith

end Efficiency

/-- More usage is not scored higher, better quality is not scored lower, and the score is from
0 to 1. -/
structure EfficiencyLaw (b : UsageBudgets) (u u' : Usage) (q q' : QualityAnchor) : Prop where
  usage : scoreEfficiencyTradeoff b u' q.value ≤ scoreEfficiencyTradeoff b u q.value
  quality : scoreEfficiencyTradeoff b u q.value ≤ scoreEfficiencyTradeoff b u q'.value
  range : 0 ≤ scoreEfficiencyTradeoff b u q.value ∧ scoreEfficiencyTradeoff b u q.value ≤ 1

/-- The usage passes the budget line by less than a quarter of what it was before, and what this
gains is not lost in the rounding. -/
def OverrunRewarded (w w' q : ℚ) : Prop :=
  w ≤ 1 ∧ 1 < w' ∧ 4 * (w' - 1) < w ∧
    roundTo 4 ((1 - w * (15 / 100)) * (4 / 10 + 6 / 10 * qualityGate q)) <
      roundTo 4 ((1 - (w' - 1) * (6 / 10)) * (4 / 10 + 6 / 10 * qualityGate q))

/-- More usage is scored higher exactly where it passes the budget line by a little. -/
theorem efficiency_law_iff {b : UsageBudgets} {u u' : Usage} (hraises : u.Raises u')
    {q q' : QualityAnchor} (hq : q.value ≤ q'.value) :
    EfficiencyLaw b u u' q q' ↔
      ¬ OverrunRewarded (b.weightedUsage u) (b.weightedUsage u') q.value := by
  have h₀ := b.weightedUsage_nonneg u
  have hle := b.weightedUsage_mono hraises
  constructor
  · rintro ⟨husage, -, -⟩ ⟨hin, hout, hnear, hgain⟩
    rw [scoreEfficiencyTradeoff_eq, scoreEfficiencyTradeoff_eq, efficiencyFrontier_of_le h₀ hin,
      efficiencyFrontier_of_lt hout, clamp01_of_mem (by linarith) (by linarith)] at husage
    exact absurd husage (not_le.mpr hgain)
  · intro hnot
    refine ⟨?_, scoreEfficiencyTradeoff_mono b u hq, roundTo_clamp01_mem 4⟩
    by_cases hside : b.weightedUsage u' ≤ 1 ∨ 1 < b.weightedUsage u
    · exact scoreEfficiencyTradeoff_le (efficiencyFrontier_anti h₀ hle hside)
    · obtain ⟨hout, hin⟩ := not_or.mp hside
      rw [not_le] at hout
      rw [not_lt] at hin
      rcases le_or_gt (b.weightedUsage u) (4 * (b.weightedUsage u' - 1)) with hfar | hnear
      · exact scoreEfficiencyTradeoff_le (efficiencyFrontier_cross_le h₀ hin hout hfar)
      · rw [scoreEfficiencyTradeoff_eq, scoreEfficiencyTradeoff_eq,
          efficiencyFrontier_of_le h₀ hin, efficiencyFrontier_of_lt hout,
          clamp01_of_mem (by linarith) (by linarith)]
        exact not_lt.mp fun hgain => hnot ⟨hin, hout, hnear, hgain⟩

/-- A first run within the budgets and a second of two hundred tokens. -/
theorem efficiency_law_iff_of_hundred :
    EfficiencyLaw ⟨none, none, none, none⟩
        ⟨100, 0, 0, 1, by norm_num, le_rfl, le_rfl, by norm_num⟩
        ⟨200, 0, 0, 1, by norm_num, le_rfl, le_rfl, by norm_num⟩
        ⟨1 / 2, by norm_num, by norm_num⟩ ⟨3 / 5, by norm_num, by norm_num⟩ ↔
      ¬ OverrunRewarded (UsageBudgets.weightedUsage ⟨none, none, none, none⟩
          ⟨100, 0, 0, 1, by norm_num, le_rfl, le_rfl, by norm_num⟩)
        (UsageBudgets.weightedUsage ⟨none, none, none, none⟩
          ⟨200, 0, 0, 1, by norm_num, le_rfl, le_rfl, by norm_num⟩) (1 / 2) := by
  refine efficiency_law_iff (.tokens ?_ ?_ ?_ ?_) ?_
  · norm_num
  · rfl
  · rfl
  · rfl
  · norm_num

/-- One token more passes the budget line and lifts the score from 0.85 to 1. -/
theorem efficiency_rewards_overrun : ¬ ∀ (b : UsageBudgets) (u u' : Usage)
    (q q' : QualityAnchor), u.Raises u' → q.value ≤ q'.value → EfficiencyLaw b u u' q q' := by
  intro h
  have hlaw := h ⟨none, none, none, none⟩
    ⟨34285, 0, 0, 0, by norm_num, le_rfl, le_rfl, le_rfl⟩
    ⟨34286, 0, 0, 0, by norm_num, le_rfl, le_rfl, le_rfl⟩
    ⟨1, by norm_num, le_rfl⟩ ⟨1, by norm_num, le_rfl⟩ (.tokens (by norm_num) rfl rfl rfl) le_rfl
  exact absurd hlaw.usage (by decide +kernel)

/-! ## The frontier and better quality -/

section Navigation

variable {w q q' : ℚ}

/-- The gap that still counts. -/
def countedGap (w q : ℚ) : ℚ := min (125 / 100) (frontierGap w q)

/-- The factor of the guardrail. -/
def lowQualityFactor (q : ℚ) : ℚ := min 1 (q / (45 / 100))

theorem frontierGap_nonneg : 0 ≤ frontierGap w q := le_max_left _ _

theorem countedGap_nonneg : 0 ≤ countedGap w q := le_min (by norm_num) frontierGap_nonneg

theorem frontierProximity_eq (w q : ℚ) :
    frontierProximity w q = lowQualityFactor q * (1 - countedGap w q / (125 / 100)) := by
  have hclamp : clamp01 (1 - frontierGap w q / (125 / 100)) =
      1 - countedGap w q / (125 / 100) := by
    have hgap : 0 ≤ frontierGap w q := frontierGap_nonneg
    unfold countedGap
    rcases le_total (frontierGap w q) (125 / 100) with hle | hge
    · rw [min_eq_right hle]
      refine clamp01_of_mem ?_ ?_
      · rw [sub_nonneg, div_le_one (by norm_num)]
        exact hle
      · have := div_nonneg hgap (show (0 : ℚ) ≤ 125 / 100 by norm_num)
        linarith
    · rw [min_eq_left hge, div_self (by norm_num), sub_self]
      refine max_eq_left ((min_le_right _ _).trans ?_)
      rw [sub_nonpos, one_le_div (by norm_num)]
      exact hge
  unfold frontierProximity lowQualityFactor
  rw [hclamp]
  dsimp only
  split_ifs with hlow
  · rw [min_eq_right ((div_le_one (by norm_num)).mpr hlow.le), mul_comm]
  · rw [min_eq_left ((one_le_div (by norm_num)).mpr (not_lt.mp hlow)), one_mul]

/-- The score of a usage and a quality before it is rounded. -/
def navigationValue (w q : ℚ) : ℚ :=
  65 / 100 * (lowQualityFactor q * (1 - countedGap w q / (125 / 100))) + 35 / 100 * q

theorem lowQualityFactor_mem (h₀ : 0 ≤ q) : 0 ≤ lowQualityFactor q ∧ lowQualityFactor q ≤ 1 :=
  ⟨le_min zero_le_one (div_nonneg h₀ (by norm_num)), min_le_left _ _⟩

theorem proximity_mem : 0 ≤ 1 - countedGap w q / (125 / 100) ∧
    1 - countedGap w q / (125 / 100) ≤ 1 := by
  have hle : countedGap w q ≤ 125 / 100 := min_le_left _ _
  have hnonneg : 0 ≤ countedGap w q := countedGap_nonneg
  constructor
  · rw [sub_nonneg, div_le_one (by norm_num)]
    exact hle
  · have := div_nonneg hnonneg (show (0 : ℚ) ≤ 125 / 100 by norm_num)
    linarith

theorem navigationValue_mem (h₀ : 0 ≤ q) (h₁ : q ≤ 1) :
    0 ≤ navigationValue w q ∧ navigationValue w q ≤ 1 := by
  obtain ⟨hf₀, hf₁⟩ := lowQualityFactor_mem h₀
  obtain ⟨hp₀, hp₁⟩ := proximity_mem (w := w) (q := q)
  have hlow := mul_nonneg hf₀ hp₀
  have hhigh := mul_le_one₀ hf₁ hp₀ hp₁
  unfold navigationValue
  constructor
  · linarith
  · linarith

theorem scoreFrontierNavigation_eq (b : UsageBudgets) (u : Usage) (q : QualityAnchor) :
    (scoreFrontierNavigation b u q.value).score =
      roundTo 4 (navigationValue (b.weightedUsage u) q.value) := by
  obtain ⟨h₀, h₁⟩ := navigationValue_mem (w := b.weightedUsage u) q.nonneg q.le_one
  rw [scoreFrontierNavigation]
  dsimp only
  rw [clamp01_of_mem q.nonneg q.le_one, frontierProximity_eq]
  exact congrArg (roundTo 4) (clamp01_of_mem h₀ h₁)

/-- What the counted gap costs more at the better quality is no more than what the quality and
the guardrail bring. -/
def GapPaid (w q q' : ℚ) : Prop :=
  52 * (lowQualityFactor q' * countedGap w q' - lowQualityFactor q * countedGap w q) ≤
    65 * (lowQualityFactor q' - lowQualityFactor q) + 35 * (q' - q)

theorem gapPaid_iff : GapPaid w q q' ↔ navigationValue w q ≤ navigationValue w q' := by
  unfold GapPaid navigationValue
  constructor
  · intro h
    linarith
  · intro h
    linarith

theorem lowQualityFactor_mono (h : q ≤ q') : lowQualityFactor q ≤ lowQualityFactor q' :=
  min_le_min_left _ (div_le_div_of_nonneg_right h (by norm_num))

/-- A usage within the least that is expected leaves no gap. -/
theorem gapPaid_of_small (hw : w ≤ 45 / 100) (h : q ≤ q') : GapPaid w q q' := by
  have hgap (q : ℚ) : countedGap w q = 0 := by
    have hexpected : w ≤ expectedUsage q := hw.trans (le_max_left _ _)
    rw [countedGap, frontierGap, max_eq_left (by linarith), min_eq_right (by norm_num)]
  have hfactor := lowQualityFactor_mono h
  rw [GapPaid, hgap, hgap]
  linarith

end Navigation

/-- Better quality at the same usage is not scored lower, and the score is from 0 to 1. -/
structure FrontierLaw (b : UsageBudgets) (u : Usage) (q q' : QualityAnchor) : Prop where
  quality : (scoreFrontierNavigation b u q.value).score ≤
    (scoreFrontierNavigation b u q'.value).score
  range : 0 ≤ (scoreFrontierNavigation b u q.value).score ∧
    (scoreFrontierNavigation b u q.value).score ≤ 1

/-- The gap costs more than the better quality brings, and this is not lost in the rounding. -/
def QualityPunished (w q q' : ℚ) : Prop :=
  ¬ GapPaid w q q' ∧ roundTo 4 (navigationValue w q') < roundTo 4 (navigationValue w q)

end PromptCode
