import PromptCode.ReviewBoard

/-!
# Outcomes of reviews

What the scoring of a review guarantees: every applicable dimension is rated once and
cites existing evidence, the total is a percentage, and the rating of correctness keeps
the caps.
-/

namespace PromptCode

open Py

structure OutcomeSound (packet : Packet) (score : Json) (outcome : ReviewOutcome) :
    Prop where
  rated : outcome.dimensions.map Prod.fst = Dimension.all
  applicable : ∀ d ∈ outcome.dimensions, (d.2.isSome ↔ d.1 ∈ packet.dimensions)
  cited : ∀ d ∈ outcome.dimensions, ∀ r ∈ d.2, r.evidenceIds.Nodup ∧
    ∀ i ∈ r.evidenceIds, ∃ e ∈ packet.evidence, e.id = i
  total : ∃ x : Double, outcome.totalScore = .finite x ∧ x.neg = false ∧
    x.units ≤ Double.hundred.units
  zeroCap : scoreIsZero score = true → ∀ d ∈ outcome.dimensions, d.1 = .correctness →
    ∀ r ∈ d.2, r.rating = 0
  partialCap : scoreBelowHundred score = true ∨ unmetManualCheck outcome.manualChecks = true →
    ∀ d ∈ outcome.dimensions, d.1 = .correctness → ∀ r ∈ d.2, r.rating ≤ 2

theorem Dimension.mem_all (d : Dimension) : d ∈ Dimension.all := by
  rcases d with _ | _ | _ | _ | _ | _ <;> simp [Dimension.all]

theorem Dimension.key_injective : Function.Injective Dimension.key := by
  intro d e h
  rcases d with _ | _ | _ | _ | _ | _ <;> rcases e with _ | _ | _ | _ | _ | _ <;>
    first | rfl | simp [Dimension.key, lit_inj] at h

theorem correctness_mem_dimensions (packet : Packet) :
    Dimension.correctness ∈ packet.dimensions := by
  apply List.mem_filter.mpr
  exact ⟨Dimension.mem_all _, by simp⟩

theorem reviewDimension_ok {packet : Packet} {review : HumanReview} {d : Dimension}
    {x : Dimension × Option DimensionReview}
    (h : reviewDimension packet review d = .ok x) :
    x = (d, review.rating d) ∧
      ∀ r ∈ x.2, citesEvidence packet.evidence r.evidenceIds = true := by
  rw [reviewDimension] at h
  rcases hrating : review.rating d with _ | r
  · simp only [hrating, Except.ok.injEq] at h
    rw [← h]
    exact ⟨rfl, by simp⟩
  · simp only [hrating] at h
    obtain ⟨hcites, h⟩ := ite_error_eq_ok.mp h
    obtain ⟨-, h⟩ := ite_error_eq_ok.mp h
    obtain rfl := Except.ok.inj h
    refine ⟨rfl, ?_⟩
    intro r' hr'
    obtain rfl := Option.some.inj hr'
    simpa using hcites

theorem citesEvidence_iff {evidence : List EvidenceItem} {ids : List Str} :
    citesEvidence evidence ids = true ↔
      ids.Nodup ∧ ∀ i ∈ ids, ∃ e ∈ evidence, e.id = i := by
  simp [citesEvidence]

/-- A dimension is rated when its key is among those of the review. -/
theorem rating_isSome_iff {review : HumanReview} {d : Dimension} :
    (review.rating d).isSome ↔ d.key ∈ review.dimensions.map Prod.fst := by
  rw [HumanReview.rating, List.lookup_isSome_iff]
  simp only [List.mem_map, beq_iff_eq]
  constructor
  · rintro ⟨p, hp, heq⟩
    exact ⟨p, hp, heq.symm⟩
  · rintro ⟨p, hp, heq⟩
    exact ⟨p, hp, heq.symm⟩

theorem sameKeys_iff {ks ls : List Str} :
    sameKeys ks ls = true ↔ ∀ k, k ∈ ks ↔ k ∈ ls := by
  simp only [sameKeys, Bool.and_eq_true, List.all_eq_true, List.contains_iff_mem]
  constructor
  · rintro ⟨hks, hls⟩ k
    exact ⟨hks k, hls k⟩
  · intro h
    exact ⟨fun k hk => (h k).mp hk, fun k hk => (h k).mpr hk⟩

theorem weightedRatings_le (dimensions : List (Dimension × Option DimensionReview)) :
    weightedRatings dimensions ≤ 4 * ratedWeight dimensions := by
  induction dimensions with
  | nil => exact le_rfl
  | cons d dimensions ih =>
      have hcons : weightedRatings (d :: dimensions) =
          d.1.weight * d.2.elim 0 DimensionReview.rating + weightedRatings dimensions :=
        rfl
      have hweight : ratedWeight (d :: dimensions) =
          (if d.2.isSome then d.1.weight else 0) + ratedWeight dimensions := rfl
      rw [hcons, hweight]
      obtain ⟨d, r⟩ := d
      rcases r with _ | r
      · simp only [Option.elim_none, mul_zero, Option.isSome_none, Bool.false_eq_true,
          if_false]
        omega
      · have hle := Nat.mul_le_mul_left d.weight r.rating_le
        simp only [Option.elim_some, Option.isSome_some, if_true]
        omega

theorem ratedWeight_pos {dimensions : List (Dimension × Option DimensionReview)}
    {d : Dimension} {r : DimensionReview} (h : (d, some r) ∈ dimensions) :
    0 < ratedWeight dimensions := by
  have hweight : 0 < d.weight := by
    rcases d with _ | _ | _ | _ | _ | _ <;> decide
  refine hweight.trans_le (List.single_le_sum (by simp) _ ?_)
  exact List.mem_map.mpr ⟨(d, some r), h, rfl⟩

/-- The dimensions that a scored review has. -/
structure ScoredDimensions (packet : Packet) (review : HumanReview)
    (dimensions : List (Dimension × Option DimensionReview)) : Prop where
  rated : dimensions.map Prod.fst = Dimension.all
  rating : ∀ d ∈ dimensions, d.2 = review.rating d.1
  cites : ∀ d ∈ dimensions, ∀ r ∈ d.2, citesEvidence packet.evidence r.evidenceIds = true
  applicable : ∀ d, (review.rating d).isSome ↔ d ∈ packet.dimensions

theorem scoreReviewedAssessment_ok {assessment : Assessment} {review : HumanReview}
    {outcome : ReviewOutcome}
    (h : scoreReviewedAssessment assessment review = .ok outcome) :
    review.packetDigest = assessment.packet.digest ∧
      outcome.totalScore = reviewTotal outcome.dimensions ∧
      ScoredDimensions assessment.packet review outcome.dimensions := by
  rw [scoreReviewedAssessment] at h
  obtain ⟨hversion, h⟩ := ite_error_eq_ok.mp h
  obtain ⟨hkeys, h⟩ := ite_error_eq_ok.mp h
  obtain ⟨-, h⟩ := ite_error_eq_ok.mp h
  obtain ⟨dimensions, hdimensions, h⟩ := bind_eq_ok.mp h
  obtain rfl := Except.ok.inj h
  simp only [not_or, not_ne_iff] at hversion
  rw [Bool.not_eq_false, sameKeys_iff] at hkeys
  refine ⟨hversion.2.2.1, rfl, ?_, ?_, ?_, ?_⟩
  · apply map_of_mapM_ok hdimensions
    intro d x hx
    rw [(reviewDimension_ok hx).1]
  · intro x hx
    obtain ⟨d, -, hd⟩ := mem_of_mapM_ok hdimensions hx
    rw [(reviewDimension_ok hd).1]
  · intro x hx
    obtain ⟨d, -, hd⟩ := mem_of_mapM_ok hdimensions hx
    exact (reviewDimension_ok hd).2
  · intro d
    rw [rating_isSome_iff, hkeys, List.mem_map_of_injective Dimension.key_injective]

theorem reviewTotal_percent {dimensions : List (Dimension × Option DimensionReview)}
    (h : 0 < ratedWeight dimensions) :
    ∃ x : Double, reviewTotal dimensions = .finite x ∧ x.neg = false ∧
      x.units ≤ Double.hundred.units := by
  apply PyFloat.round_trueDiv_percent h
  have hle := weightedRatings_le dimensions
  omega

/-- An accepted review has a sound outcome. -/
theorem outcomeSound_of_reviewOutcome {requirements : List Str} {score : Json}
    {assessment : Assessment} {review : HumanReview}
    {checks : List (Str × DimensionReview)} {outcome : ReviewOutcome}
    (h : reviewOutcome requirements score assessment review checks = .ok outcome) :
    review.packetDigest = assessment.packet.digest ∧
      OutcomeSound assessment.packet score outcome := by
  rw [reviewOutcome] at h
  obtain ⟨-, h⟩ := ite_error_eq_ok.mp h
  obtain ⟨-, h⟩ := ite_error_eq_ok.mp h
  obtain ⟨-, h⟩ := ite_error_eq_ok.mp h
  obtain ⟨-, h⟩ := ite_error_eq_ok.mp h
  obtain ⟨hzero, h⟩ := ite_error_eq_ok.mp h
  obtain ⟨hcapped, h⟩ := ite_error_eq_ok.mp h
  obtain ⟨scored, hscored, h⟩ := bind_eq_ok.mp h
  obtain ⟨-, h⟩ := ite_error_eq_ok.mp h
  obtain rfl := Except.ok.inj h
  obtain ⟨hdigest, htotal, hdimensions⟩ := scoreReviewedAssessment_ok hscored
  refine ⟨hdigest, hdimensions.rated, ?_, ?_, ?_, ?_, ?_⟩
  · intro d hd
    rw [hdimensions.rating d hd]
    exact hdimensions.applicable d.1
  · intro d hd r hr
    exact citesEvidence_iff.mp (hdimensions.cites d hd r hr)
  · dsimp only
    rw [htotal]
    apply reviewTotal_percent
    have hmem : Dimension.correctness ∈ scored.dimensions.map Prod.fst := by
      rw [hdimensions.rated]
      exact Dimension.mem_all _
    obtain ⟨⟨d, r⟩, hd, rfl⟩ := List.mem_map.mp hmem
    have hsome : (review.rating .correctness).isSome :=
      (hdimensions.applicable _).mpr (correctness_mem_dimensions _)
    obtain ⟨r', hr'⟩ := Option.isSome_iff_exists.mp hsome
    have heq := hdimensions.rating _ hd
    dsimp only at heq
    rw [heq, hr'] at hd
    exact ratedWeight_pos hd
  · intro hscore d hd hd1 r hr
    rw [hdimensions.rating d hd, hd1] at hr
    rw [Bool.not_eq_false, withinZeroCap, Option.mem_def.mp hr] at hzero
    simpa [hscore] using hzero
  · intro hunmet d hd hd1 r hr
    rw [hdimensions.rating d hd, hd1] at hr
    rw [Bool.not_eq_false, withinPartialCap, Option.mem_def.mp hr] at hcapped
    rcases hunmet with hunmet | hunmet
    · simpa [hunmet] using hcapped
    · dsimp only at hunmet
      simpa [hunmet] using hcapped

/-! ## Scores of verified results -/

/-- The largest score below 100 rounds to 99.99, which is below this. -/
def nearlyAll : Double := ⟨false, 12799 * 2 ^ 39, 1028, by decide⟩

theorem units_nearlyAll : nearlyAll.units * 128 = 12799 * Double.unit := by decide +kernel

section

variable {inv : Inventories} {ident : GradingIdentity} {fields : List (Str × Json)}
  {cases : List Case} {results : List Json}

/-- The verified score is not above a double that the passed share is not above. -/
theorem Vouched.score_le (h : Vouched inv ident fields cases results) {y : Double} {m : ℕ}
    (hle : 100 * passedWeight cases results * Double.unit ≤ y.units * totalWeight cases)
    (hround : 2 * (y.units * 10 ^ 2) < (2 * m + 1) * Double.unit)
    (hm : m * Double.unit ≤ y.units * 10 ^ 2) :
    ∃ x : Double, x.neg = false ∧ x.units ≤ y.units ∧
      isNumber (fieldOf fields "score_percent") (.finite x) = true := by
  obtain ⟨score, hscore, hnumber⟩ := h.score
  rw [scorePercent] at hscore
  split_ifs at hscore with hzero
  obtain rfl := Except.ok.inj hscore
  obtain ⟨x, hx, hneg, hunits⟩ :=
    PyFloat.round_trueDiv_le (Nat.pos_of_ne_zero hzero) hle hround hm
  rw [hx] at hnumber
  exact ⟨x, hneg, hunits, hnumber⟩

/-- Without a passed case the score is zero. -/
theorem Vouched.score_zero (h : Vouched inv ident fields cases results)
    (hnone : passedWeight cases results = 0) :
    scoreIsZero (fieldOf fields "score_percent") = true := by
  have hunit : 0 < Double.unit := by
    unfold Double.unit
    positivity
  have hunits : (⟨false, 0, 0, by decide⟩ : Double).units = 0 := Nat.zero_mul _
  obtain ⟨x, hneg, hle, hnumber⟩ :=
    h.score_le (y := ⟨false, 0, 0, by decide⟩) (m := 0) (by simp [hnone])
      (by rw [hunits]; omega) (by simp)
  obtain hx : x.units = 0 := Nat.le_zero.mp (hle.trans hunits.le)
  generalize fieldOf fields "score_percent" = score at hnumber ⊢
  rcases score with _ | _ | z | w | _ | _ | _
  case int =>
    have hz : z.natAbs * Double.unit = 0 := by
      simpa [isNumber, PyFloat.eqInt, hx] using hnumber
    have hzero : z = 0 := by simpa [hunit.ne'] using hz
    simp [scoreIsZero, hzero]
  case float =>
    rcases w with w | _ | _
    · have hw : w.units = 0 := by
        simp only [isNumber, PyFloat.eqFloat, hx, Bool.and_eq_true,
          decide_eq_true_eq] at hnumber
        exact hnumber.1
      simp [scoreIsZero, PyFloat.eqInt, hw]
    · simp [isNumber, PyFloat.eqFloat] at hnumber
    · simp [isNumber, PyFloat.eqFloat] at hnumber
  all_goals simp [isNumber] at hnumber

/-- With an unpassed case the score is below 100: the rounding to two digits could hide
one only in an inventory of a larger weight. -/
theorem Vouched.score_below (h : Vouched inv ident fields cases results)
    (hunmet : passedWeight cases results < totalWeight cases)
    (hsmall : totalWeight cases ≤ 10000) :
    scoreBelowHundred (fieldOf fields "score_percent") = true := by
  have hunit : 0 < Double.unit := by
    unfold Double.unit
    positivity
  have hunits := units_nearlyAll
  have hshare : 12800 * passedWeight cases results ≤ 12799 * totalWeight cases := by omega
  obtain ⟨x, hneg, hle, hnumber⟩ := h.score_le (y := nearlyAll) (m := 9999)
    (by nlinarith) (by omega) (by omega)
  have hx : x.units < Double.hundred.units := by
    rw [Double.units_hundred]
    omega
  generalize fieldOf fields "score_percent" = score at hnumber ⊢
  rcases score with _ | _ | z | w | _ | _ | _
  case int =>
    have hz : x.units = z.natAbs * Double.unit := by
      simp only [isNumber, PyFloat.eqInt, Bool.and_eq_true, decide_eq_true_eq] at hnumber
      exact hnumber.1
    rw [hz, Double.units_hundred] at hx
    have habs := Nat.lt_of_mul_lt_mul_right hx
    simp only [scoreBelowHundred, decide_eq_true_eq]
    omega
  case float =>
    rcases w with w | _ | _
    · have hw : w.units = x.units := by
        simp only [isNumber, PyFloat.eqFloat, Bool.and_eq_true, decide_eq_true_eq] at hnumber
        exact hnumber.1
      simp [scoreBelowHundred, hw, hx]
    · simp [isNumber, PyFloat.eqFloat] at hnumber
    · simp [isNumber, PyFloat.eqFloat] at hnumber
  all_goals simp [isNumber] at hnumber

end
/-- The caps on the rating of correctness, by the cases that have passed. -/
structure CapsKept (cases : List Case) (results : List Json) (outcome : ReviewOutcome) :
    Prop where
  zero : passedWeight cases results = 0 → ∀ d ∈ outcome.dimensions, d.1 = .correctness →
    ∀ r ∈ d.2, r.rating = 0
  partly : passedWeight cases results < totalWeight cases → totalWeight cases ≤ 10000 →
    ∀ d ∈ outcome.dimensions, d.1 = .correctness → ∀ r ∈ d.2, r.rating ≤ 2

theorem OutcomeSound.capsKept {packet : Packet} {inv : Inventories}
    {ident : GradingIdentity} {fields : List (Str × Json)} {cases : List Case}
    {results : List Json} {outcome : ReviewOutcome}
    (h : OutcomeSound packet (payloadScore (.obj fields)) outcome)
    (hvouched : Vouched inv ident fields cases results) :
    CapsKept cases results outcome where
  zero hnone := h.zeroCap (hvouched.score_zero hnone)
  partly hunmet hsmall := h.partialCap (Or.inl (hvouched.score_below hunmet hsmall))

end PromptCode
