import PromptCode.ReviewOutcomes
import PromptCode.Py.Convert

/-!
# Two judgments of one attempt

`automated_grading.py`: what a judgment must be for a bundle of evidence, and the total that
two of them give.
-/

namespace PromptCode

open Py

/-! ## Judgments -/

structure Citation where
  evidenceId : Str
  quote : Str
  evidenceId_size : 1 ≤ evidenceId.length ∧ evidenceId.length ≤ 240
  quote_size : 8 ≤ quote.length ∧ quote.length ≤ 240

structure Judgment where
  rating : Option ℕ
  rationale : Str
  counterevidence : Str
  citations : List Citation
  rating_le : ∀ r ∈ rating, r ≤ 4
  rationale_size : 20 ≤ rationale.length ∧ rationale.length ≤ 600
  counterevidence_size : 1 ≤ counterevidence.length ∧ counterevidence.length ≤ 400
  citations_size : citations.length ≤ 3

structure JudgeResponse where
  dimensions : List (Str × Judgment)
  needsReview : Bool
  keys_nodup : (dimensions.map Prod.fst).Nodup

def JudgeResponse.judgment (response : JudgeResponse) (d : Dimension) : Option Judgment :=
  response.dimensions.lookup d.key

/-- A number of a bundle. -/
inductive PyNumber where
  | int (z : ℤ)
  | float (x : PyFloat)

/-- `x < 100` -/
def PyNumber.belowHundred : PyNumber → Bool
  | int z => z < 100
  | float x => x.lt (.finite .hundred)

/-- `x == 0` -/
def PyNumber.isZero : PyNumber → Bool
  | int z => z = 0
  | float x => x.eqInt 0

structure BundleItem where
  id : Str
  kind : Str
  content : Str

/-- What the judges are shown, as far as their judgments are checked against it. -/
structure EvidenceBundle where
  aiObserved : Bool
  evidence : List BundleItem
  behaviorPercent : PyNumber
  manualRequirements : List Str

/-- `" ".join(s.split())` -/
def collapseSpaces (s : Str) : Str := join 32 ((s.splitOnP isSpace).filter (· ≠ []))

def EvidenceBundle.dimensions (bundle : EvidenceBundle) : List Dimension :=
  Dimension.all.filter fun d => bundle.aiObserved || d ≠ .aiLeverage

inductive GradeError where
  | value (detail : String)
  | key (key : Str)
  | zeroDivision
  deriving DecidableEq

/-- The item that a citation quotes. -/
def citedItem (evidence : List BundleItem) (c : Citation) : Option BundleItem :=
  (evidence.find? fun e => e.id = c.evidenceId).filter fun e =>
    contains (collapseSpaces c.quote) (collapseSpaces e.content)

/-- The kind of evidence that a rating of the dimension must cite. -/
def requiredKind (key : Str) : Option Str :=
  [(lit "A_correctness", lit "external_evaluation"), (lit "C_fix_quality", lit "submitted_source"),
    (lit "D_ai_leverage", lit "ai_interaction"),
    (lit "F_communication", lit "candidate_statement")].lookup key

/-- The check of one dimension. -/
def checkJudgment (evidence : List BundleItem) (key : Str) (judgment : Judgment) :
    Except GradeError Unit :=
  if judgment.rating.isNone then .ok ()
  else if judgment.citations = [] then .error (.value "Ratings require citations")
  else do
    let cited ← judgment.citations.mapM fun c =>
      match citedItem evidence c with
      | none => .error (.value "Unknown or unsupported citation")
      | some item => .ok item.kind
    match requiredKind key with
    | none => .ok ()
    | some kind => if kind ∈ cited then .ok () else .error (.value "Wrong evidence kind")

def validateJudgment (response : JudgeResponse) (bundle : EvidenceBundle) :
    Except GradeError Unit :=
  if sameKeys (response.dimensions.map Prod.fst) (bundle.dimensions.map Dimension.key) = false then
    .error (.value "Incomplete rubric")
  else if ¬ (bundle.evidence.map BundleItem.id).Nodup then .error (.value "Duplicate evidence")
  else response.dimensions.forM fun e => checkJudgment bundle.evidence e.1 e.2

/-! ## Their aggregate -/

inductive DimensionResult where
  | notApplicable
  | notAssessed
  /-- The rating counts halves: the mean of two ratings. -/
  | automated (halves : ℕ) (rationale counterevidence : Str)
  deriving DecidableEq

namespace DimensionResult

def status : DimensionResult → String
  | notApplicable => "not_applicable"
  | notAssessed => "not_assessed"
  | automated .. => "automated"

/-- Twice the rating, where there is one. -/
def halves : DimensionResult → Option ℕ
  | automated halves _ _ => some halves
  | _ => none

end DimensionResult

inductive GradeStatus where
  | needsReview
  | automatedPractice
  deriving DecidableEq

structure AutomatedOutcome where
  status : GradeStatus
  totalScore : Option PyFloat
  dimensions : List (Dimension × DimensionResult)
  applicableWeight : ℕ
  reviewFlags : List String
  behavioralScorePercent : PyNumber
  comparisonNotice : Option String

def reviewFlags (bundle : EvidenceBundle) : List String :=
  (if bundle.behaviorPercent.belowHundred then ["unmet_behavioral_requirements"] else []) ++
    if bundle.manualRequirements ≠ [] then ["manual_coverage_unverified"] else []

/-- A mean rating, in halves, under the limits of the verified outcome. -/
def limitRating (bundle : EvidenceBundle) (d : Dimension) (halves : ℕ) : ℕ :=
  if d = .correctness then
    if bundle.behaviorPercent.isZero then 0
    else if reviewFlags bundle ≠ [] then min halves 4
    else halves
  else halves

/-- What two judgments of a dimension give. -/
def meanJudgment (bundle : EvidenceBundle) (d : Dimension) (a b : Judgment) : DimensionResult :=
  match a.rating, b.rating with
  | some x, some y =>
      if x ≤ y + 1 ∧ y ≤ x + 1 then
        .automated (limitRating bundle d (x + y)) a.rationale b.counterevidence
      else .notAssessed
  | _, _ => .notAssessed

def aggregateDimension (first second : JudgeResponse) (bundle : EvidenceBundle) (d : Dimension) :
    Except GradeError (Dimension × DimensionResult) :=
  match first.judgment d, second.judgment d with
  | none, _ => .ok (d, .notApplicable)
  | some _, none => .error (.key d.key)
  | some a, some b => .ok (d, meanJudgment bundle d a b)

/-- The ratings, in halves, times their weights. -/
def weightedHalves (dimensions : List (Dimension × DimensionResult)) : ℕ :=
  (dimensions.map fun e => e.1.weight * e.2.halves.getD 0).sum

/-- The weights of the rated dimensions. -/
def assessedWeight (dimensions : List (Dimension × DimensionResult)) : ℕ :=
  (dimensions.map fun e => if e.2.halves.isSome then e.1.weight else 0).sum

/-- `round(100 * weighted / denominator, 1)`: the eighths of the weighted ratings are exact. -/
def automatedTotal (dimensions : List (Dimension × DimensionResult)) :
    Except GradeError PyFloat :=
  if assessedWeight dimensions = 0 then .error .zeroDivision
  else .ok ((PyFloat.trueDiv (100 * weightedHalves dimensions)
    (8 * assessedWeight dimensions)).round 1)

def unobservedNotice : String :=
  "AI judgment was not observed. The adjusted total excludes it and does not establish equivalent AI competence."

def aggregateJudgments (first second : JudgeResponse) (bundle : EvidenceBundle) :
    Except GradeError AutomatedOutcome := do
  validateJudgment first bundle
  validateJudgment second bundle
  let dimensions ← Dimension.all.mapM (aggregateDimension first second bundle)
  let unresolved := first.needsReview || second.needsReview ||
    dimensions.any fun e => e.2 = .notAssessed
  let total ← if unresolved then .ok none else (automatedTotal dimensions).map some
  return {
    status := if unresolved then .needsReview else .automatedPractice
    totalScore := total
    dimensions := dimensions
    applicableWeight := assessedWeight dimensions
    reviewFlags := reviewFlags bundle
    behavioralScorePercent := bundle.behaviorPercent
    comparisonNotice := if bundle.aiObserved then none else some unobservedNotice }

/-! ## Both orders -/

section Aggregate

variable {first second : JudgeResponse} {bundle : EvidenceBundle} {d : Dimension}

/-- What two judgments give for a dimension that both or neither of them has. -/
def dimensionResult (first second : JudgeResponse) (bundle : EvidenceBundle) (d : Dimension) :
    DimensionResult :=
  match first.judgment d, second.judgment d with
  | some a, some b => meanJudgment bundle d a b
  | _, _ => .notApplicable

def dimensionResults (first second : JudgeResponse) (bundle : EvidenceBundle) :
    List (Dimension × DimensionResult) :=
  Dimension.all.map fun d => (d, dimensionResult first second bundle d)

/-- A judgment that is accepted has just the applicable dimensions. -/
theorem judgment_isSome_iff {response : JudgeResponse}
    (h : validateJudgment response bundle = .ok ()) :
    (response.judgment d).isSome = true ↔ d ∈ bundle.dimensions := by
  unfold validateJudgment at h
  split_ifs at h with hkeys hnodup
  rw [Bool.not_eq_false, sameKeys_iff] at hkeys
  rw [JudgeResponse.judgment, List.lookup_isSome_iff]
  constructor
  · rintro ⟨e, he, hkey⟩
    rw [beq_iff_eq] at hkey
    have hmem := (hkeys d.key).mp (hkey ▸ List.mem_map_of_mem he)
    obtain ⟨d', hd', hsame⟩ := List.mem_map.mp hmem
    rwa [← Dimension.key_injective hsame]
  · intro hd
    obtain ⟨e, he, hkey⟩ := List.mem_map.mp ((hkeys d.key).mpr (List.mem_map_of_mem hd))
    exact ⟨e, he, by rw [hkey, beq_self_eq_true]⟩

theorem correctness_mem_bundle : Dimension.correctness ∈ bundle.dimensions :=
  List.mem_filter.mpr ⟨by decide, by simp⟩

theorem aggregateDimension_eq (h₁ : validateJudgment first bundle = .ok ())
    (h₂ : validateJudgment second bundle = .ok ()) (d : Dimension) :
    aggregateDimension first second bundle d = .ok (d, dimensionResult first second bundle d) := by
  have hsome : (first.judgment d).isSome = true ↔ (second.judgment d).isSome = true :=
    (judgment_isSome_iff h₁).trans (judgment_isSome_iff h₂).symm
  unfold aggregateDimension dimensionResult
  cases hfirst : first.judgment d with
  | none =>
      cases hsecond : second.judgment d with
      | none => rfl
      | some b => rfl
  | some a =>
      cases hsecond : second.judgment d with
      | none =>
          rw [hfirst, hsecond] at hsome
          exact absurd (hsome.mp rfl) (by decide)
      | some b => rfl

theorem meanJudgment_swap (a b : Judgment) :
    (meanJudgment bundle d b a).halves = (meanJudgment bundle d a b).halves ∧
      (meanJudgment bundle d b a).status = (meanJudgment bundle d a b).status := by
  unfold meanJudgment
  cases a.rating with
  | none => cases b.rating <;> exact ⟨rfl, rfl⟩
  | some x =>
      cases b.rating with
      | none => exact ⟨rfl, rfl⟩
      | some y =>
          dsimp only
          by_cases hnear : x ≤ y + 1 ∧ y ≤ x + 1
          · rw [if_pos hnear, if_pos hnear.symm, add_comm y x]
            exact ⟨rfl, rfl⟩
          · rw [if_neg hnear, if_neg fun h => hnear h.symm]
            exact ⟨rfl, rfl⟩

/-- The rating and the status of a dimension do not depend on the order of the judgments. -/
theorem dimensionResult_swap (d : Dimension) :
    (dimensionResult second first bundle d).halves =
        (dimensionResult first second bundle d).halves ∧
      (dimensionResult second first bundle d).status =
        (dimensionResult first second bundle d).status := by
  unfold dimensionResult
  cases first.judgment d with
  | none => cases second.judgment d <;> exact ⟨rfl, rfl⟩
  | some a =>
      cases second.judgment d with
      | none => exact ⟨rfl, rfl⟩
      | some b => exact meanJudgment_swap a b

theorem limitRating_le {n : ℕ} (h : n ≤ 8) : limitRating bundle d n ≤ 8 := by
  unfold limitRating
  split_ifs <;> omega

theorem meanJudgment_halves_le {a b : Judgment} {n : ℕ}
    (h : (meanJudgment bundle d a b).halves = some n) : n ≤ 8 := by
  unfold meanJudgment at h
  cases hx : a.rating with
  | none =>
      rw [hx] at h
      cases h
  | some x =>
      cases hy : b.rating with
      | none =>
          rw [hx, hy] at h
          cases h
      | some y =>
          rw [hx, hy] at h
          dsimp only at h
          split_ifs at h with hnear
          · obtain rfl := Option.some.inj h
            have := a.rating_le x hx
            have := b.rating_le y hy
            exact limitRating_le (by omega)
          · cases h

theorem dimensionResult_halves_le {n : ℕ}
    (h : (dimensionResult first second bundle d).halves = some n) : n ≤ 8 := by
  unfold dimensionResult at h
  cases hfirst : first.judgment d with
  | none =>
      rw [hfirst] at h
      cases h
  | some a =>
      cases hsecond : second.judgment d with
      | none =>
          rw [hfirst, hsecond] at h
          cases h
      | some b =>
          rw [hfirst, hsecond] at h
          exact meanJudgment_halves_le h

/-- No rating is above 4. -/
theorem weightedHalves_le {dimensions : List (Dimension × DimensionResult)}
    (h : ∀ e ∈ dimensions, ∀ n, e.2.halves = some n → n ≤ 8) :
    weightedHalves dimensions ≤ 8 * assessedWeight dimensions := by
  unfold weightedHalves assessedWeight
  rw [← List.sum_map_mul_left]
  refine List.sum_le_sum fun e he => ?_
  cases hhalves : e.2.halves with
  | none => simp
  | some n =>
      have := h e he n hhalves
      rw [Option.getD_some, Option.isSome_some, if_pos rfl, Nat.mul_comm 8]
      exact Nat.mul_le_mul_left _ this

theorem mapM_aggregateDimension (h₁ : validateJudgment first bundle = .ok ())
    (h₂ : validateJudgment second bundle = .ok ()) (l : List Dimension) :
    l.mapM (aggregateDimension first second bundle) =
      .ok (l.map fun d => (d, dimensionResult first second bundle d)) := by
  induction l with
  | nil => rfl
  | cons d l ih =>
      rw [List.mapM_cons, aggregateDimension_eq h₁ h₂, ih]
      rfl

/-- Whether the two judgments leave the attempt to a reviewer. -/
def unresolvedPair (first second : JudgeResponse) (bundle : EvidenceBundle) : Bool :=
  first.needsReview || second.needsReview ||
    (dimensionResults first second bundle).any fun e => e.2 = .notAssessed

theorem status_eq_not_assessed {r : DimensionResult} :
    r = .notAssessed ↔ r.status = "not_assessed" := by
  cases r with
  | notApplicable => exact iff_of_false (by decide) (by decide)
  | notAssessed => exact iff_of_true rfl rfl
  | automated => exact iff_of_false (by simp) (by simp [DimensionResult.status])

theorem unresolvedPair_swap :
    unresolvedPair second first bundle = unresolvedPair first second bundle := by
  have hresult (d : Dimension) : decide (dimensionResult second first bundle d = .notAssessed) =
      decide (dimensionResult first second bundle d = .notAssessed) := by
    rw [decide_eq_decide, status_eq_not_assessed, status_eq_not_assessed,
      (dimensionResult_swap d).2]
  unfold unresolvedPair dimensionResults
  rw [Bool.or_comm second.needsReview, List.any_map, List.any_map]
  congr 2
  funext d
  exact hresult d

theorem weightedHalves_swap :
    weightedHalves (dimensionResults second first bundle) =
      weightedHalves (dimensionResults first second bundle) := by
  unfold weightedHalves dimensionResults
  simp only [List.map_map, Function.comp_def, (dimensionResult_swap _).1]

theorem assessedWeight_swap :
    assessedWeight (dimensionResults second first bundle) =
      assessedWeight (dimensionResults first second bundle) := by
  unfold assessedWeight dimensionResults
  simp only [List.map_map, Function.comp_def, (dimensionResult_swap _).1]

/-- Where nothing is left open, correctness at least is rated. -/
theorem assessedWeight_pos (h₁ : validateJudgment first bundle = .ok ())
    (h₂ : validateJudgment second bundle = .ok ())
    (h : unresolvedPair first second bundle = false) :
    0 < assessedWeight (dimensionResults first second bundle) := by
  obtain ⟨a, ha⟩ := Option.isSome_iff_exists.mp
    ((judgment_isSome_iff h₁).mpr correctness_mem_bundle)
  obtain ⟨b, hb⟩ := Option.isSome_iff_exists.mp
    ((judgment_isSome_iff h₂).mpr correctness_mem_bundle)
  have hmem : (Dimension.correctness, dimensionResult first second bundle .correctness) ∈
      dimensionResults first second bundle :=
    List.mem_map.mpr ⟨.correctness, Dimension.mem_all _, rfl⟩
  have hassessed : dimensionResult first second bundle .correctness ≠ .notAssessed := by
    intro hnot
    rw [unresolvedPair, Bool.or_eq_false_iff, List.any_eq_false] at h
    exact h.2 _ hmem (decide_eq_true hnot)
  have hhalves :
      (dimensionResult first second bundle .correctness).halves.isSome = true := by
    have hmean : dimensionResult first second bundle .correctness =
        meanJudgment bundle .correctness a b := by
      unfold dimensionResult
      rw [ha, hb]
    rw [hmean] at hassessed ⊢
    unfold meanJudgment at hassessed ⊢
    split at hassessed
    · split_ifs at hassessed with hnear
      · rw [if_pos hnear]
        rfl
      · exact absurd rfl hassessed
    · exact absurd rfl hassessed
  refine lt_of_lt_of_le (b := Dimension.correctness.weight) (by decide)
    (List.single_le_sum (by simp) _ (List.mem_map.mpr ⟨_, hmem, ?_⟩))
  dsimp only
  rw [if_pos hhalves]

/-- What two accepted judgments come to. -/
def pairOutcome (first second : JudgeResponse) (bundle : EvidenceBundle) : AutomatedOutcome where
  status := if unresolvedPair first second bundle then .needsReview else .automatedPractice
  totalScore :=
    if unresolvedPair first second bundle then none
    else some ((PyFloat.trueDiv (100 * weightedHalves (dimensionResults first second bundle))
      (8 * assessedWeight (dimensionResults first second bundle))).round 1)
  dimensions := dimensionResults first second bundle
  applicableWeight := assessedWeight (dimensionResults first second bundle)
  reviewFlags := PromptCode.reviewFlags bundle
  behavioralScorePercent := bundle.behaviorPercent
  comparisonNotice := if bundle.aiObserved then none else some unobservedNotice

/-- Two accepted judgments have an outcome: the weights of what they rate are not all zero. -/
theorem aggregateJudgments_eq (h₁ : validateJudgment first bundle = .ok ())
    (h₂ : validateJudgment second bundle = .ok ()) :
    aggregateJudgments first second bundle = .ok (pairOutcome first second bundle) := by
  have hdimensions : Dimension.all.mapM (aggregateDimension first second bundle) =
      .ok (dimensionResults first second bundle) := mapM_aggregateDimension h₁ h₂ _
  unfold aggregateJudgments
  rw [h₁, h₂, hdimensions]
  cases hunresolved : unresolvedPair first second bundle with
  | true =>
      unfold pairOutcome
      rw [hunresolved]
      unfold unresolvedPair at hunresolved
      simp only [bind, Except.bind, pure, Except.pure, hunresolved, if_true]
  | false =>
      have hpos := assessedWeight_pos h₁ h₂ hunresolved
      have htotal : automatedTotal (dimensionResults first second bundle) =
          .ok ((PyFloat.trueDiv (100 * weightedHalves (dimensionResults first second bundle))
            (8 * assessedWeight (dimensionResults first second bundle))).round 1) := by
        unfold automatedTotal
        rw [if_neg hpos.ne']
      unfold pairOutcome
      rw [hunresolved]
      unfold unresolvedPair at hunresolved
      simp only [bind, Except.bind, pure, Except.pure, hunresolved, Bool.false_eq_true, if_false,
        htotal, Except.map]

theorem pairOutcome_total (h₁ : validateJudgment first bundle = .ok ())
    (h₂ : validateJudgment second bundle = .ok ()) {total : PyFloat}
    (h : (pairOutcome first second bundle).totalScore = some total) :
    ∃ x : Double, total = .finite x ∧ x.neg = false ∧ x.units ≤ Double.hundred.units := by
  unfold pairOutcome at h
  dsimp only at h
  split_ifs at h with hunresolved
  obtain rfl := Option.some.inj h
  have hpos := assessedWeight_pos h₁ h₂ (Bool.not_eq_true _ ▸ hunresolved)
  have hle : weightedHalves (dimensionResults first second bundle) ≤
      8 * assessedWeight (dimensionResults first second bundle) := by
    refine weightedHalves_le fun e he n hn => ?_
    obtain ⟨d, -, rfl⟩ := List.mem_map.mp he
    exact dimensionResult_halves_le hn
  exact PyFloat.round_trueDiv_percent (by omega) (by omega) 1

theorem correctness_limited {n : ℕ}
    (h : (dimensionResult first second bundle .correctness).halves = some n) :
    (bundle.behaviorPercent.isZero = true → n = 0) ∧ (reviewFlags bundle ≠ [] → n ≤ 4) := by
  have hlimit : ∃ m, n = limitRating bundle .correctness m := by
    unfold dimensionResult at h
    split at h
    · unfold meanJudgment at h
      split at h
      · split_ifs at h
        · exact ⟨_, (Option.some.inj h).symm⟩
        · cases h
      · cases h
    · cases h
  obtain ⟨m, rfl⟩ := hlimit
  unfold limitRating
  rw [if_pos rfl]
  constructor
  · intro hzero
    rw [if_pos hzero]
  · intro hflags
    split_ifs
    · exact Nat.zero_le 4
    · exact Nat.min_le_right m 4

/-- What the outcome of two judgments shows of a dimension, whichever of them came first. -/
def AutomatedOutcome.ratings (outcome : AutomatedOutcome) :
    List (Dimension × String × Option ℕ) :=
  outcome.dimensions.map fun e => (e.1, e.2.status, e.2.halves)

theorem pairOutcome_ratings_swap :
    (pairOutcome second first bundle).ratings = (pairOutcome first second bundle).ratings := by
  unfold AutomatedOutcome.ratings pairOutcome dimensionResults
  simp only [List.map_map, Function.comp_def, (dimensionResult_swap _).1,
    (dimensionResult_swap _).2]

theorem pairOutcome_totalScore_swap :
    (pairOutcome second first bundle).totalScore =
      (pairOutcome first second bundle).totalScore := by
  unfold pairOutcome
  dsimp only
  rw [unresolvedPair_swap, weightedHalves_swap, assessedWeight_swap]

theorem pairOutcome_status_swap :
    (pairOutcome second first bundle).status = (pairOutcome first second bundle).status := by
  unfold pairOutcome
  dsimp only
  rw [unresolvedPair_swap]

/-- Two accepted judgments always have an outcome, the same in both orders as far as it does not
quote them; its total is missing just when a reviewer is needed and is otherwise a percentage,
and the rating of correctness keeps the limits of the verified outcome. -/
theorem aggregateJudgments_sound (h₁ : validateJudgment first bundle = .ok ())
    (h₂ : validateJudgment second bundle = .ok ()) :
    ∃ outcome swapped, aggregateJudgments first second bundle = .ok outcome ∧
      aggregateJudgments second first bundle = .ok swapped ∧
      swapped.status = outcome.status ∧ swapped.ratings = outcome.ratings ∧
      swapped.reviewFlags = outcome.reviewFlags ∧ swapped.totalScore = outcome.totalScore ∧
      (outcome.totalScore = none ↔ outcome.status = .needsReview) ∧
      (∀ total, outcome.totalScore = some total →
        ∃ x : Double, total = .finite x ∧ x.neg = false ∧ x.units ≤ Double.hundred.units) ∧
      ∀ result, (Dimension.correctness, result) ∈ outcome.dimensions →
        ∀ n, result.halves = some n →
          (bundle.behaviorPercent.isZero = true → n = 0) ∧
            (outcome.reviewFlags ≠ [] → n ≤ 2 * 2) := by
  refine ⟨pairOutcome first second bundle, pairOutcome second first bundle,
    aggregateJudgments_eq h₁ h₂, aggregateJudgments_eq h₂ h₁, pairOutcome_status_swap,
    pairOutcome_ratings_swap, rfl, pairOutcome_totalScore_swap, ?_, ?_, ?_⟩
  · unfold pairOutcome
    dsimp only
    split_ifs
    · exact iff_of_true rfl rfl
    · exact iff_of_false (by simp) (by simp)
  · intro total htotal
    exact pairOutcome_total h₁ h₂ htotal
  · intro result hresult n hn
    obtain ⟨d, -, heq⟩ := List.mem_map.mp hresult
    obtain ⟨rfl, rfl⟩ := Prod.mk.inj heq
    exact correctness_limited hn

end Aggregate

/-! ### One attempt -/

def sampleBundle : EvidenceBundle where
  aiObserved := false
  evidence :=
    [⟨lit "evaluation", lit "external_evaluation", lit "all tests passed"⟩,
      ⟨lit "source", lit "submitted_source", lit "return cache.get(key)"⟩,
      ⟨lit "defend:0", lit "candidate_statement", lit "the cache was never filled"⟩]
  behaviorPercent := .int 50
  manualRequirements := []

def sampleJudgment (rating : Fin 5) (evidenceId : Str) (quote : Str)
    (hid : 1 ≤ evidenceId.length ∧ evidenceId.length ≤ 240)
    (hquote : 8 ≤ quote.length ∧ quote.length ≤ 240) : Judgment where
  rating := some rating
  rationale := lit "it holds for every input"
  counterevidence := lit "none"
  citations := [⟨evidenceId, quote, hid, hquote⟩]
  rating_le := by
    intro r hr
    obtain rfl := Option.some.inj hr
    omega
  rationale_size := by decide
  counterevidence_size := by decide
  citations_size := by simp

def sampleResponse (rating : Fin 5) : JudgeResponse where
  dimensions :=
    [(lit "A_correctness",
        sampleJudgment rating (lit "evaluation") (lit "tests  passed") (by decide) (by decide)),
      (lit "B_investigation",
        sampleJudgment rating (lit "defend:0") (lit "never filled") (by decide) (by decide)),
      (lit "C_fix_quality",
        sampleJudgment rating (lit "source") (lit "cache.get") (by decide) (by decide)),
      (lit "E_verification",
        sampleJudgment rating (lit "evaluation") (lit "all tests") (by decide) (by decide)),
      (lit "F_communication",
        sampleJudgment rating (lit "defend:0") (lit "the cache") (by decide) (by decide))]
  needsReview := false
  keys_nodup := by
    dsimp only [List.map]
    decide

theorem aggregateJudgments_sound_of_half :
    validateJudgment (sampleResponse 3) sampleBundle = .ok () ∧
      ∃ outcome, aggregateJudgments (sampleResponse 3) (sampleResponse 4) sampleBundle =
          .ok outcome ∧
        (outcome.totalScore = none ↔ outcome.status = .needsReview) := by
  have h₁ : validateJudgment (sampleResponse 3) sampleBundle = .ok () := by decide +kernel
  have h₂ : validateJudgment (sampleResponse 4) sampleBundle = .ok () := by decide +kernel
  obtain ⟨outcome, -, hrun, -, -, -, -, -, htotal, -⟩ := aggregateJudgments_sound h₁ h₂
  exact ⟨h₁, outcome, hrun, htotal⟩

end PromptCode
