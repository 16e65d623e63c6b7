import PromptCode.UsageScores
import PromptCode.Py.Str

/-!
# The score of AI mastery

`score_ai_mastery` under the weights of a profile, and what `_enrich_ai_leverage` stores after
an evaluation, over exact numbers.
-/

namespace PromptCode

open Py

/-! ## Weights -/

inductive MasteryComponent where
  | frontierNavigation
  | relianceCalibration
  | promptQuality
  | learningVelocity
  | leverageGain
  deriving DecidableEq

open MasteryComponent

def keysWithout : List MasteryComponent :=
  [frontierNavigation, relianceCalibration, promptQuality, learningVelocity]

def keysWith : List MasteryComponent := keysWithout ++ [leverageGain]

def defaultWithout : MasteryComponent → ℚ
  | frontierNavigation => 35 / 100
  | relianceCalibration => 30 / 100
  | promptQuality => 20 / 100
  | learningVelocity => 15 / 100
  | leverageGain => 0

def defaultWith : MasteryComponent → ℚ
  | frontierNavigation => 30 / 100
  | relianceCalibration => 25 / 100
  | promptQuality => 15 / 100
  | learningVelocity => 15 / 100
  | leverageGain => 15 / 100

/-- `sum(values[key] for key in keys)` -/
def totalOf (keys : List MasteryComponent) (values : MasteryComponent → ℚ) : ℚ :=
  (keys.map values).sum

/-- The weights of a file: a key is missing, or its value is no number, or it is one. -/
abbrev RawWeights := MasteryComponent → Option ℚ

/-- `_normalize_weights` of the profile. -/
def normalizeWeights (raw : Option RawWeights) (keys : List MasteryComponent)
    (default : MasteryComponent → ℚ) : MasteryComponent → ℚ :=
  match raw with
  | none => default
  | some raw =>
      let values := fun key => match raw key with
        | some value => max 0 value
        | none => default key
      if totalOf keys values ≤ 0 then default
      else fun key => roundTo 6 (values key / totalOf keys values)

/-- What is read of a profile file. -/
structure RawProfile where
  version : Str
  aiMasteryWithoutBaseline : Option RawWeights
  aiMasteryWithBaseline : Option RawWeights

structure WeightProfile where
  version : Str
  aiMasteryWithoutBaseline : MasteryComponent → ℚ
  aiMasteryWithBaseline : MasteryComponent → ℚ

def defaultVersion : Str := lit "static_v1"

/-- `get_weight_profile`, where there is a file that can be used or there is none. -/
def getWeightProfile : Option RawProfile → WeightProfile
  | none => ⟨defaultVersion, defaultWithout, defaultWith⟩
  | some raw => {
      version := if raw.version = [] then defaultVersion else raw.version
      aiMasteryWithoutBaseline :=
        normalizeWeights raw.aiMasteryWithoutBaseline keysWithout defaultWithout
      aiMasteryWithBaseline := normalizeWeights raw.aiMasteryWithBaseline keysWith defaultWith }

/-- `_normalized_weights` of the scorer: the defaults, or the weights that are passed, over their
sum. -/
def normalizedWeights (keys : List MasteryComponent) (defaults : MasteryComponent → ℚ)
    (overrides : Option (MasteryComponent → ℚ)) : MasteryComponent → ℚ :=
  let source := match overrides with
    | none => defaults
    | some weights => fun key => max 0 (weights key)
  if totalOf keys source ≤ 0 then defaults else fun key => source key / totalOf keys source

/-! ## The score -/

structure MasteryArguments where
  frontierNavigationScore : ℚ
  relianceCalibrationScore : ℚ
  promptQualityScore : ℚ
  learningVelocityScore : Option ℚ
  leverageGainScore : Option ℚ

/-- The weighted sum of `score_ai_mastery`. -/
def weightedMastery (a : MasteryArguments)
    (weightsWithout weightsWith : MasteryComponent → ℚ) : ℚ :=
  let learning := match a.learningVelocityScore with
    | none => 1 / 2
    | some score => clamp01 score
  match a.leverageGainScore with
  | none =>
      clamp01 a.frontierNavigationScore * weightsWithout frontierNavigation +
        clamp01 a.relianceCalibrationScore * weightsWithout relianceCalibration +
        clamp01 a.promptQualityScore * weightsWithout promptQuality +
        learning * weightsWithout learningVelocity
  | some gain =>
      clamp01 a.frontierNavigationScore * weightsWith frontierNavigation +
        clamp01 a.relianceCalibrationScore * weightsWith relianceCalibration +
        clamp01 a.promptQualityScore * weightsWith promptQuality +
        learning * weightsWith learningVelocity + clamp01 gain * weightsWith leverageGain

def scoreAiMastery (a : MasteryArguments)
    (overridesWithout overridesWith : Option (MasteryComponent → ℚ)) : ℚ :=
  roundTo 4 (clamp01 (weightedMastery a
    (normalizedWeights keysWithout defaultWithout overridesWithout)
    (normalizedWeights keysWith defaultWith overridesWith)))

/-! ## What is stored -/

structure GrowthDeltas where
  overall : Option ℚ
  accuracy : Option ℚ
  robustness : Option ℚ
  efficiency : Option ℚ

/-- `sum(dim_norms) / len(dim_norms) if dim_norms else progress` -/
def skillGain (growth : GrowthDeltas) (progress : ℚ) : ℚ :=
  let norms := [growth.accuracy, growth.robustness, growth.efficiency].reduceOption.map
    fun delta => clamp01 ((delta + 6 / 100) / (12 / 100))
  if norms = [] then progress else norms.sum / norms.length

/-- `_compute_learning_velocity_score` -/
def computeLearningVelocityScore (growth : GrowthDeltas) (changedRatio : Option ℚ) : ℚ :=
  match growth.overall with
  | none => 1 / 2
  | some delta =>
      let progress := clamp01 ((delta + 8 / 100) / (16 / 100))
      let improvementPerChange := delta / max (5 / 100) (changedRatio.getD 0)
      let changeEfficiency := clamp01 ((improvementPerChange + 5 / 100) / (25 / 100))
      let score := progress * (45 / 100) + skillGain growth progress * (30 / 100) +
        changeEfficiency * (25 / 100)
      roundTo 4 (clamp01 (if delta < -(8 / 100) then min score (2 / 10) else score))

/-- A score from 0 to 1 of four digits. -/
structure RoundedScore where
  value : ℚ
  nonneg : 0 ≤ value
  le_one : value ≤ 1
  rounded : roundTo 4 value = value

/-- A completed evaluation, as far as its mastery is computed from it.  A disqualified one has
its prompt quality set to zero and is not compared with a baseline. -/
structure LeverageEvaluation where
  frontier : RoundedScore
  reliance : RoundedScore
  promptQuality : RoundedScore
  leverageGain : Option RoundedScore
  growth : GrowthDeltas
  changedRatio : Option ℚ
  hardcoded : Bool
  hardcoded_promptQuality : hardcoded = true → promptQuality.value = 0
  hardcoded_leverageGain : hardcoded = true → leverageGain = none

structure StoredLeverage where
  frontierNavigationScore : ℚ
  relianceCalibrationScore : ℚ
  promptQuality : ℚ
  learningVelocityScore : ℚ
  leverageGainScore : Option ℚ
  aiMasteryScore : ℚ
  weightProfileVersion : Str

/-- `_enrich_ai_leverage`: the score is computed without the weights of the profile. -/
def enrichAiLeverage (profile : WeightProfile) (e : LeverageEvaluation) : StoredLeverage :=
  let learning := computeLearningVelocityScore e.growth e.changedRatio
  { frontierNavigationScore := e.frontier.value
    relianceCalibrationScore := e.reliance.value
    promptQuality := e.promptQuality.value
    learningVelocityScore := roundTo 4 learning
    leverageGainScore := e.leverageGain.map RoundedScore.value
    aiMasteryScore := roundTo 4 (scoreAiMastery
      ⟨e.frontier.value, e.reliance.value, e.promptQuality.value, some learning,
        e.leverageGain.map RoundedScore.value⟩ none none)
    weightProfileVersion := profile.version }

/-- The components that are stored, as arguments of the score. -/
def StoredLeverage.arguments (s : StoredLeverage) : MasteryArguments :=
  ⟨s.frontierNavigationScore, s.relianceCalibrationScore, s.promptQuality,
    some s.learningVelocityScore, s.leverageGainScore⟩

/-- The stored score is the one of the stored components under the weights of the profile, or
zero for a disqualified submission. -/
def MasteryRecorded (profile : WeightProfile) (e : LeverageEvaluation) : Prop :=
  (enrichAiLeverage profile e).aiMasteryScore =
    if e.hardcoded then 0
    else scoreAiMastery (enrichAiLeverage profile e).arguments
      (some profile.aiMasteryWithoutBaseline) (some profile.aiMasteryWithBaseline)

inductive EvaluationKind where
  | disqualified
  | withoutBaseline
  | withBaseline

def LeverageEvaluation.kind (e : LeverageEvaluation) : EvaluationKind :=
  if e.hardcoded then .disqualified
  else if e.leverageGain.isNone then .withoutBaseline
  else .withBaseline

/-- The weights that the profile gives to the components in use are those of the defaults. -/
def DefaultWeights (profile : WeightProfile) : EvaluationKind → Prop
  | .disqualified => False
  | .withoutBaseline => ∀ key ∈ keysWithout,
      normalizedWeights keysWithout defaultWithout (some profile.aiMasteryWithoutBaseline) key =
        defaultWithout key
  | .withBaseline => ∀ key ∈ keysWith,
      normalizedWeights keysWith defaultWith (some profile.aiMasteryWithBaseline) key =
        defaultWith key

/-! ## When it is recorded -/

theorem computeLearningVelocityScore_rounded (growth : GrowthDeltas) (changedRatio : Option ℚ) :
    roundTo 4 (computeLearningVelocityScore growth changedRatio) =
      computeLearningVelocityScore growth changedRatio := by
  unfold computeLearningVelocityScore
  cases growth.overall with
  | none =>
      have hhalf : roundTo 4 (1 / 2) = 1 / 2 := by decide +kernel
      exact hhalf
  | some delta => exact roundTo_roundTo 4 _

/-- The defaults have the sum one. -/
theorem normalizedWeights_none :
    normalizedWeights keysWithout defaultWithout none = defaultWithout ∧
      normalizedWeights keysWith defaultWith none = defaultWith := by
  have hwithout : totalOf keysWithout defaultWithout = 1 := by decide +kernel
  have hwith : totalOf keysWith defaultWith = 1 := by decide +kernel
  unfold normalizedWeights
  dsimp only
  rw [hwithout, hwith, if_neg (by norm_num), if_neg (by norm_num)]
  exact ⟨funext fun key => div_one _, funext fun key => div_one _⟩

/-- The weights in use have the sum one. -/
theorem totalOf_normalizedWeights {keys : List MasteryComponent}
    {defaults : MasteryComponent → ℚ} (h : totalOf keys defaults = 1)
    (overrides : Option (MasteryComponent → ℚ)) :
    totalOf keys (normalizedWeights keys defaults overrides) = 1 := by
  unfold normalizedWeights
  dsimp only
  split_ifs with htotal
  · exact h
  · unfold totalOf at htotal ⊢
    simp only [div_eq_mul_inv]
    rw [List.sum_map_mul_right]
    exact mul_inv_cancel₀ fun hzero => htotal hzero.le

section Recorded

variable {profile : WeightProfile} {e : LeverageEvaluation}

/-- What is stored is the score under the default weights. -/
theorem aiMasteryScore_eq (profile : WeightProfile) (e : LeverageEvaluation) :
    (enrichAiLeverage profile e).aiMasteryScore =
      roundTo 4 (clamp01 (weightedMastery (enrichAiLeverage profile e).arguments defaultWithout
        defaultWith)) := by
  unfold enrichAiLeverage StoredLeverage.arguments scoreAiMastery
  dsimp only
  rw [roundTo_roundTo, computeLearningVelocityScore_rounded, normalizedWeights_none.1,
    normalizedWeights_none.2]

/-- With the default weights in use both scores are one computation. -/
theorem recorded_of_defaultWeights (h : DefaultWeights profile e.kind) :
    MasteryRecorded profile e := by
  unfold LeverageEvaluation.kind at h
  unfold MasteryRecorded
  rw [aiMasteryScore_eq]
  unfold scoreAiMastery
  split_ifs at h with hhardcoded hbaseline
  · exact h.elim
  · rw [if_neg hhardcoded]
    have hgain : (enrichAiLeverage profile e).arguments.leverageGainScore = none := by
      unfold enrichAiLeverage StoredLeverage.arguments
      dsimp only
      rw [Option.isNone_iff_eq_none.mp hbaseline, Option.map_none]
    simp only [weightedMastery, hgain]
    rw [h frontierNavigation (by decide), h relianceCalibration (by decide),
      h promptQuality (by decide), h learningVelocity (by decide)]
  · rw [if_neg hhardcoded]
    cases hsome : e.leverageGain with
    | none => exact absurd (Option.isNone_iff_eq_none.mpr hsome) hbaseline
    | some gain =>
        have hgain : (enrichAiLeverage profile e).arguments.leverageGainScore =
            some gain.value := by
          unfold enrichAiLeverage StoredLeverage.arguments
          dsimp only
          rw [hsome, Option.map_some]
        simp only [weightedMastery, hgain]
        rw [h frontierNavigation (by decide), h relianceCalibration (by decide),
          h promptQuality (by decide), h learningVelocity (by decide),
          h leverageGain (by decide)]

end Recorded

/-! ### Evaluations that tell weights apart -/

/-- `n` ten-thousandths. -/
def tenThousandths (n : ℕ) (h : n ≤ 10000) : RoundedScore where
  value := n / 10000
  nonneg := by positivity
  le_one := by
    rw [div_le_one (by norm_num)]
    exact_mod_cast h
  rounded := by
    have hint : (n : ℚ) / 10000 * 10 ^ 4 = ((n : ℤ) : ℚ) := by
      push_cast
      ring
    rw [roundTo, hint, roundHalfEven_intCast]
    push_cast
    ring

/-- All scores have fallen by one: nothing has been learned. -/
def lostGrowth : GrowthDeltas := ⟨some (-1), none, none, none⟩

theorem learning_lostGrowth : computeLearningVelocityScore lostGrowth none = 0 := by
  decide +kernel

def probe (frontier reliance prompt : Fin 31) (gain : Option (Fin 31)) : LeverageEvaluation where
  frontier := tenThousandths frontier (by omega)
  reliance := tenThousandths reliance (by omega)
  promptQuality := tenThousandths prompt (by omega)
  leverageGain := gain.map fun n => tenThousandths n.val (by have := n.isLt; omega)
  growth := lostGrowth
  changedRatio := none
  hardcoded := false
  hardcoded_promptQuality := fun h => nomatch h
  hardcoded_leverageGain := fun h => nomatch h

/-- A positive score below one that rounds to `m` ten-thousandths. -/
theorem near_of_roundTo_clamp01 {x : ℚ} {m : ℕ} (hpos : 0 < m) (hlt : m < 9999)
    (h : roundTo 4 (clamp01 x) = m / 10000) : |x * 10000 - m| ≤ 1 / 2 := by
  have hround : (roundHalfEven (clamp01 x * 10 ^ 4) : ℚ) = m := by
    unfold roundTo at h
    have hpow : (10 : ℚ) ^ 4 = 10000 := by norm_num
    rw [hpow] at h ⊢
    linarith [(div_left_inj' (by norm_num : (10000 : ℚ) ≠ 0)).mp h]
  have hnear := abs_sub_roundHalfEven (clamp01 x * 10 ^ 4)
  rw [hround] at hnear
  have hm : (1 : ℚ) ≤ m := by exact_mod_cast hpos
  have hm' : (m : ℚ) ≤ 9998 := by exact_mod_cast Nat.le_of_lt_succ hlt
  have hx : clamp01 x = x := by
    rw [abs_le] at hnear
    have hlow : 0 < clamp01 x := by linarith
    have hhigh : clamp01 x < 1 := by linarith
    unfold clamp01 at hlow hhigh ⊢
    rcases le_total 1 x with hx | hx
    · rw [min_eq_left hx] at hhigh
      exact absurd hhigh (by norm_num)
    · rw [min_eq_right hx] at hlow ⊢
      rcases le_total x 0 with hx | hx
      · rw [max_eq_left hx] at hlow
        exact absurd hlow (lt_irrefl 0)
      · exact max_eq_right hx
  rw [hx] at hnear
  norm_num at hnear
  exact hnear

/-- The weighted sum of a probe without a baseline. -/
theorem weightedMastery_probe (profile : WeightProfile) (f r p : Fin 31)
    (w w' : MasteryComponent → ℚ) :
    weightedMastery (enrichAiLeverage profile (probe f r p none)).arguments w w' * 10000 =
      f.val * w frontierNavigation + r.val * w relianceCalibration + p.val * w promptQuality := by
  have hclamp (n : Fin 31) : clamp01 ((n.val : ℚ) / 10000) = n.val / 10000 := by
    refine clamp01_of_mem (by positivity) ?_
    rw [div_le_one (by norm_num)]
    have := n.isLt
    exact_mod_cast (by omega : n.val ≤ 10000)
  have hlearning : clamp01 (roundTo 4 (computeLearningVelocityScore lostGrowth none)) = 0 := by
    decide +kernel
  simp only [enrichAiLeverage, StoredLeverage.arguments, weightedMastery, probe, tenThousandths,
    Option.map_none, hclamp, hlearning]
  ring

theorem weightedMastery_probe_gain (profile : WeightProfile) (f r p g : Fin 31)
    (w w' : MasteryComponent → ℚ) :
    weightedMastery (enrichAiLeverage profile (probe f r p (some g))).arguments w w' * 10000 =
      f.val * w' frontierNavigation + r.val * w' relianceCalibration + p.val * w' promptQuality +
        g.val * w' leverageGain := by
  have hclamp (n : Fin 31) : clamp01 ((n.val : ℚ) / 10000) = n.val / 10000 := by
    refine clamp01_of_mem (by positivity) ?_
    rw [div_le_one (by norm_num)]
    have := n.isLt
    exact_mod_cast (by omega : n.val ≤ 10000)
  have hlearning : clamp01 (roundTo 4 (computeLearningVelocityScore lostGrowth none)) = 0 := by
    decide +kernel
  simp only [enrichAiLeverage, StoredLeverage.arguments, weightedMastery, probe, tenThousandths,
    Option.map_some, hclamp, hlearning]
  ring

/-- A probe whose score is recorded has nearly the sum that it has under the default weights. -/
theorem near_of_recorded {profile : WeightProfile} {f r p : Fin 31} {g : Option (Fin 31)} {m : ℕ}
    (hpos : 0 < m) (hlt : m < 9999) (h : MasteryRecorded profile (probe f r p g))
    (hdefault : (enrichAiLeverage profile (probe f r p g)).aiMasteryScore = m / 10000) :
    |weightedMastery (enrichAiLeverage profile (probe f r p g)).arguments
        (normalizedWeights keysWithout defaultWithout (some profile.aiMasteryWithoutBaseline))
        (normalizedWeights keysWith defaultWith (some profile.aiMasteryWithBaseline)) * 10000 -
      m| ≤ 1 / 2 := by
  refine near_of_roundTo_clamp01 hpos hlt ?_
  rw [← hdefault, h]
  rfl

/-- The stored score does not depend on the profile. -/
theorem aiMasteryScore_const (profile : WeightProfile) (e : LeverageEvaluation) :
    (enrichAiLeverage profile e).aiMasteryScore =
      (enrichAiLeverage (getWeightProfile none) e).aiMasteryScore := rfl

theorem defaultWeights_of_withoutBaseline {profile : WeightProfile}
    (h : ∀ e : LeverageEvaluation, e.kind = .withoutBaseline → MasteryRecorded profile e) :
    DefaultWeights profile .withoutBaseline := by
  have htotal : totalOf keysWithout defaultWithout = 1 := by decide +kernel
  have hsum := totalOf_normalizedWeights htotal (some profile.aiMasteryWithoutBaseline)
  have hnear (f r p : Fin 31) (m : ℕ) (hpos : 0 < m) (hlt : m < 9999)
      (hdefault : (enrichAiLeverage (getWeightProfile none) (probe f r p none)).aiMasteryScore =
        m / 10000) := by
    have hrecorded := near_of_recorded hpos hlt (h (probe f r p none) rfl)
      ((aiMasteryScore_const profile _).trans hdefault)
    rw [weightedMastery_probe] at hrecorded
    exact abs_le.mp hrecorded
  -- two sums halfway between two ten-thousandths, rounded down and up, fix each weight
  have hfDown := hnear 30 0 0 10 (by norm_num) (by norm_num) (by decide +kernel)
  have hfUp := hnear 10 0 0 4 (by norm_num) (by norm_num) (by decide +kernel)
  have hrDown := hnear 0 15 0 4 (by norm_num) (by norm_num) (by decide +kernel)
  have hrUp := hnear 0 5 0 2 (by norm_num) (by norm_num) (by decide +kernel)
  have hpDown := hnear 2 0 9 2 (by norm_num) (by norm_num) (by decide +kernel)
  have hpUp := hnear 2 0 4 2 (by norm_num) (by norm_num) (by decide +kernel)
  unfold DefaultWeights
  revert hsum hfDown hfUp hrDown hrUp hpDown hpUp
  generalize normalizedWeights keysWithout defaultWithout
    (some profile.aiMasteryWithoutBaseline) = w
  intro hsum hfDown hfUp hrDown hrUp hpDown hpUp
  simp only [totalOf, keysWithout, List.map_cons, List.map_nil, List.sum_cons, List.sum_nil,
    add_zero] at hsum
  simp only [Fin.coe_ofNat_eq_mod, Nat.zero_mod, Nat.reduceMod, Nat.cast_ofNat, Nat.cast_zero,
    zero_mul, zero_add, add_zero] at hfDown hfUp hrDown hrUp hpDown hpUp
  intro key hkey
  have hf : w frontierNavigation = 35 / 100 := by linarith
  have hr : w relianceCalibration = 30 / 100 := by linarith
  have hp : w promptQuality = 20 / 100 := by linarith
  cases key with
  | frontierNavigation => exact hf
  | relianceCalibration => exact hr
  | promptQuality => exact hp
  | learningVelocity =>
      unfold defaultWithout
      linarith
  | leverageGain => exact absurd hkey (by decide)

theorem defaultWeights_of_withBaseline {profile : WeightProfile}
    (h : ∀ e : LeverageEvaluation, e.kind = .withBaseline → MasteryRecorded profile e) :
    DefaultWeights profile .withBaseline := by
  have htotal : totalOf keysWith defaultWith = 1 := by decide +kernel
  have hsum := totalOf_normalizedWeights htotal (some profile.aiMasteryWithBaseline)
  have hnear (f r p g : Fin 31) (m : ℕ) (hpos : 0 < m) (hlt : m < 9999)
      (hdefault : (enrichAiLeverage (getWeightProfile none)
        (probe f r p (some g))).aiMasteryScore = m / 10000) := by
    have hrecorded := near_of_recorded hpos hlt (h (probe f r p (some g)) rfl)
      ((aiMasteryScore_const profile _).trans hdefault)
    rw [weightedMastery_probe_gain] at hrecorded
    exact abs_le.mp hrecorded
  have hfDown := hnear 15 0 0 0 4 (by norm_num) (by norm_num) (by decide +kernel)
  have hfUp := hnear 5 0 0 0 2 (by norm_num) (by norm_num) (by decide +kernel)
  have hrDown := hnear 0 10 0 0 2 (by norm_num) (by norm_num) (by decide +kernel)
  have hrUp := hnear 0 6 0 0 2 (by norm_num) (by norm_num) (by decide +kernel)
  have hpDown := hnear 0 0 30 0 4 (by norm_num) (by norm_num) (by decide +kernel)
  have hpUp := hnear 0 0 10 0 2 (by norm_num) (by norm_num) (by decide +kernel)
  have hgDown := hnear 0 0 0 30 4 (by norm_num) (by norm_num) (by decide +kernel)
  have hgUp := hnear 0 0 0 10 2 (by norm_num) (by norm_num) (by decide +kernel)
  unfold DefaultWeights
  revert hsum hfDown hfUp hrDown hrUp hpDown hpUp hgDown hgUp
  generalize normalizedWeights keysWith defaultWith (some profile.aiMasteryWithBaseline) = w
  intro hsum hfDown hfUp hrDown hrUp hpDown hpUp hgDown hgUp
  simp only [totalOf, keysWith, keysWithout, List.cons_append, List.nil_append, List.map_cons,
    List.map_nil, List.sum_cons, List.sum_nil, add_zero] at hsum
  simp only [Fin.coe_ofNat_eq_mod, Nat.zero_mod, Nat.reduceMod, Nat.cast_ofNat, Nat.cast_zero,
    zero_mul, zero_add, add_zero] at hfDown hfUp hrDown hrUp hpDown hpUp hgDown hgUp
  intro key hkey
  have hf : w frontierNavigation = 30 / 100 := by linarith
  have hr : w relianceCalibration = 25 / 100 := by linarith
  have hp : w promptQuality = 15 / 100 := by linarith
  have hg : w leverageGain = 15 / 100 := by linarith
  cases key with
  | frontierNavigation => exact hf
  | relianceCalibration => exact hr
  | promptQuality => exact hp
  | leverageGain => exact hg
  | learningVelocity =>
      unfold defaultWith
      linarith

/-- A first attempt that is disqualified. -/
def disqualifiedEvaluation : LeverageEvaluation where
  frontier := tenThousandths 0 (by omega)
  reliance := tenThousandths 0 (by omega)
  promptQuality := tenThousandths 0 (by omega)
  leverageGain := none
  growth := ⟨none, none, none, none⟩
  changedRatio := none
  hardcoded := true
  hardcoded_promptQuality := fun _ => by decide +kernel
  hardcoded_leverageGain := fun _ => rfl

/-- A profile that trusts the calibration of reliance most. -/
def customProfile : RawProfile where
  version := lit "2026-04"
  aiMasteryWithoutBaseline := some fun
    | frontierNavigation => some (1 / 10)
    | relianceCalibration => some (1 / 2)
    | promptQuality => some (1 / 5)
    | learningVelocity => some (1 / 5)
    | leverageGain => none
  aiMasteryWithBaseline := none

def firstEvaluation : LeverageEvaluation where
  frontier := tenThousandths 8000 (by omega)
  reliance := tenThousandths 4000 (by omega)
  promptQuality := tenThousandths 6000 (by omega)
  leverageGain := none
  growth := ⟨none, none, none, none⟩
  changedRatio := none
  hardcoded := false
  hardcoded_promptQuality := fun h => nomatch h
  hardcoded_leverageGain := fun _ => rfl

end PromptCode
