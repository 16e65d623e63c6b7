import Mathlib.Algebra.BigOperators.Fin
import PromptCode.Assessment
import PromptCode.Py.Equality

/-!
# Agreement of reviewers

`grading_calibration.py`: which records of reviews are accepted, how far the two reviewers of
each agree, and whether that and the audits are enough to publish grades.
-/

namespace PromptCode

open Py
open Py.Json (getField)

/-! ## Agreement of pairs of ratings -/

abbrev RatingPair := Fin 5 × Fin 5

/-- `abs(a - b)` -/
def ratingGap (a b : Fin 5) : ℕ := ((a : ℤ) - b).natAbs

/-- `sum((a - b) ** 2 for a, b in pairs)` -/
def observedDisagreement (pairs : List RatingPair) : ℕ :=
  (pairs.map fun p => ratingGap p.1 p.2 ^ 2).sum

/-- `sum(first[a] * second[b] * (a - b) ** 2 for a in range(5) for b in range(5))` -/
def expectedDisagreement (pairs : List RatingPair) : ℕ :=
  ∑ a : Fin 5, ∑ b : Fin 5,
    (pairs.map Prod.fst).count a * (pairs.map Prod.snd).count b * ratingGap a b ^ 2

/-- The sixteenths that the disagreements are sums of are exact. -/
def weightedKappa (pairs : List RatingPair) : Option PyFloat :=
  if pairs = [] then none
  else
    let n := pairs.length
    let observed := PyFloat.trueDiv (observedDisagreement pairs) (16 * n)
    let expected := PyFloat.trueDiv (expectedDisagreement pairs) (16 * n ^ 2)
    if expected.eqInt 0 then none
    else some (((PyFloat.trueDiv 1 1).add (observed.div expected).neg).round 4)

/-- `sum(p(a, b) for a, b in pairs) / len(pairs)` -/
def shareOfPairs (p : RatingPair → Bool) (pairs : List RatingPair) : Option PyFloat :=
  if pairs = [] then none else some (PyFloat.trueDiv (pairs.countP p) pairs.length)

def sameRating (p : RatingPair) : Bool := p.1 = p.2

def largeGap (p : RatingPair) : Bool := 1 < ratingGap p.1 p.2

/-- `.70` -/
def kappaFloor : PyFloat := .ofNearest false (Double.ofDecimal false 7 (-1))

/-- `.05` -/
def largeCeiling : PyFloat := .ofNearest false (Double.ofDecimal false 5 (-2))

structure DimensionMetric where
  n : ℕ
  quadraticWeightedKappa : Option PyFloat
  kappaInterval : Option (PyFloat × PyFloat)
  agreementRate : Option PyFloat
  largeDisagreementRate : Option PyFloat
  confusion : List (List ℕ)
  passes : Bool
  deriving DecidableEq

structure CalibrationOptions where
  /-- `None` or empty: all challenges of the registry. -/
  challenges : List Str
  minAttempts : ℤ
  auditEvidence : Json
  includeIntervals : Bool

section Report

/-! The slugs of the registry, and the bootstrap of `kappa_interval`. -/

variable (registry : List Str) (interval : List RatingPair → Option (PyFloat × PyFloat))

variable (o : CalibrationOptions)

def dimensionMetric (pairs : List RatingPair) : DimensionMetric where
  n := pairs.length
  quadraticWeightedKappa := weightedKappa pairs
  kappaInterval := if o.includeIntervals then interval pairs else none
  agreementRate := (shareOfPairs sameRating pairs).map (PyFloat.round 4)
  largeDisagreementRate := (shareOfPairs largeGap pairs).map (PyFloat.round 4)
  confusion := (List.finRange 5).map fun x => (List.finRange 5).map fun y => pairs.count (x, y)
  passes := o.minAttempts ≤ pairs.length &&
    (weightedKappa pairs).any (fun kappa => kappa.ge kappaFloor) &&
    (shareOfPairs largeGap pairs).any fun large => largeCeiling.ge large

/-! ## Records -/

/-- What the report reads of a record that it accepts. -/
structure CalibrationAttempt where
  challengeVersion : Json
  evaluatorVersion : Json
  inventoryDigest : Json
  aiAvailable : Bool
  /-- The ratings of the two reviews. -/
  first : List (Str × Json)
  second : List (Str × Json)

theorem toNat_lt_of_rating {z : ℤ} (h : 0 ≤ z ∧ z ≤ 4) : z.toNat < 5 := by omega

def ratingValue : Json → Option (Fin 5)
  | .int z => if h : 0 ≤ z ∧ z ≤ 4 then some ⟨z.toNat, toNat_lt_of_rating h⟩ else none
  | _ => none

def ratingOf (ratings : List (Str × Json)) (d : Dimension) : Option (Fin 5) :=
  (ratings.lookup d.key).bind ratingValue

/-- `(a["reviews"][0]["ratings"][d], a["reviews"][1]["ratings"][d])` where the first has it. -/
def CalibrationAttempt.pair (a : CalibrationAttempt) (d : Dimension) : Option RatingPair :=
  match ratingOf a.first d, ratingOf a.second d with
  | some x, some y => some (x, y)
  | _, _ => none

def applicableKeys (aiAvailable : Bool) : List Str :=
  (Dimension.all.filter fun d => aiAvailable || d ≠ .aiLeverage).map Dimension.key

/-- A review is of the revision of the record, and rates all that applies. -/
def checkReview (packetDigest : Json) (aiAvailable : Bool) (review : List (Str × Json)) :
    Option (List (Str × Json)) :=
  if (getField review (lit "packet_digest")).eq packetDigest = false then none
  else match getField review (lit "ratings") with
    | .obj ratings =>
        if sameKeys (ratings.map Prod.fst) (applicableKeys aiAvailable) &&
            ratings.all fun r => (ratingValue r.2).isSome then
          some ratings
        else none
    | _ => none

/-- A review of a person who is named. -/
def humanReview (review : List (Str × Json)) : Bool :=
  (match getField review (lit "reviewer_kind") with
    | .str kind => kind = lit "human"
    | _ => false) &&
  (getField review (lit "reviewer_id")).truthy

/-- `record["reviews"]` when it is a list of two dictionaries. -/
def reviewPair : Json → Option (List (Str × Json) × List (Str × Json))
  | .arr [.obj first, .obj second] => some (first, second)
  | _ => none

def evidenceBindings : List Str :=
  [lit "snapshot_digest", lit "packet_digest", lit "challenge_version", lit "evaluator_version",
    lit "inventory_digest"]

/-- `record.get(k) is b` -/
def isBool (fields : List (Str × Json)) (k : Str) (b : Bool) : Bool :=
  match getField fields k with
  | .bool b' => b' = b
  | _ => false

def isStr (fields : List (Str × Json)) (k s : Str) : Bool :=
  match getField fields k with
  | .str s' => s' = s
  | _ => false

/-- The challenge of a record, if its reviews are accepted too. -/
def checkReviews (fields : List (Str × Json)) : Option CalibrationAttempt :=
  match reviewPair (getField fields (lit "reviews")) with
  | none => none
  | some (r, r') =>
      if (humanReview r && humanReview r') = false then none
      else if (getField r (lit "reviewer_id")).eq (getField r' (lit "reviewer_id")) then none
      else match getField fields (lit "ai_available") with
        | .bool aiAvailable =>
            match checkReview (getField fields (lit "packet_digest")) aiAvailable r,
                checkReview (getField fields (lit "packet_digest")) aiAvailable r' with
            | some first, some second => some {
                challengeVersion := getField fields (lit "challenge_version")
                evaluatorVersion := getField fields (lit "evaluator_version")
                inventoryDigest := getField fields (lit "inventory_digest")
                aiAvailable := aiAvailable
                first := first
                second := second }
            | _, _ => none
        | _ => none

/-- The record is of a real attempt at the challenge, bound to what was evaluated. -/
def validRecord (slugs : List Str) (slug : Str) (fields : List (Str × Json)) : Bool :=
  decide (slug ∈ slugs) && isStr fields (lit "rubric_version") rubricVersion &&
    isBool fields (lit "synthetic") false && isBool fields (lit "external_verified") true &&
    evidenceBindings.all fun k => (getField fields k).truthy

def checkRecord (slugs : List Str) (fields : List (Str × Json)) :
    Option (Str × CalibrationAttempt) :=
  match getField fields (lit "challenge_slug") with
  | .str slug =>
      if validRecord slugs slug fields then
        (checkReviews fields).map fun attempt => (slug, attempt)
      else none
  | _ => none

/-- The identity of an attempt, if it has one. -/
def attemptId : Json → Option Str
  | .obj fields =>
      let identity := getField fields (lit "attempt_id")
      if identity.truthy && identity.hashable then some identity.form else none
  | _ => none

/-- The records read so far. -/
structure Intake where
  seen : List Str
  errors : List ℕ
  accepted : List (Str × CalibrationAttempt)

def recordFields : Json → List (Str × Json)
  | .obj fields => fields
  | _ => []

def takeRecord (slugs : List Str) (st : Intake) (record : Json × ℕ) : Intake :=
  match attemptId record.1 with
  | none => { st with errors := st.errors ++ [record.2] }
  | some identity =>
      if identity ∈ st.seen then { st with errors := st.errors ++ [record.2] }
      else match checkRecord slugs (recordFields record.1) with
        | none => {
            st with
            seen := st.seen ++ [identity]
            errors := st.errors ++ [record.2] }
        | some attempt => {
            st with
            seen := st.seen ++ [identity]
            accepted := st.accepted ++ [attempt] }

def takeRecords (slugs : List Str) (records : List Json) : Intake :=
  records.zipIdx.foldl (takeRecord slugs) ⟨[], [], []⟩

def attemptsOf (accepted : List (Str × CalibrationAttempt)) (slug : Str) :
    List CalibrationAttempt :=
  (accepted.filter fun a => a.1 = slug).map Prod.snd

/-! ## Audits -/

def requiredAudits : List Str :=
  [lit "challenge_and_mutant_validation", lit "adversarial_tenant_isolation",
    lit "reviewer_authenticity", lit "measurement_review", lit "accessibility_and_fairness"]

def evidenceRef : Json → Bool
  | .str ref => strip ref ≠ []
  | _ => false

def auditDone : Json → Bool
  | .obj value =>
      isBool value (lit "completed") true &&
        match getField value (lit "evidence_refs") with
        | .arr refs => refs ≠ [] && refs.all evidenceRef
        | _ => false
  | _ => false

/-- The inventory of a challenge is the one that all its attempts were evaluated with. -/
def inventoryMatches (attempts : List CalibrationAttempt) : Json → Bool
  | .obj item =>
      (getField item (lit "evidence_ref")).truthy && !attempts.isEmpty &&
        attempts.all fun a =>
          (getField item (lit "challenge_version")).eq a.challengeVersion &&
          (getField item (lit "evaluator_version")).eq a.evaluatorVersion &&
          (getField item (lit "inventory_digest")).eq a.inventoryDigest
  | _ => false

def missingInventories (slugs : List Str) (attempts : Str → List CalibrationAttempt) :
    Json → List Str
  | .obj inventories =>
      if sameKeys (inventories.map Prod.fst) slugs then
        (slugs.filter fun slug => !inventoryMatches (attempts slug) (getField inventories slug)).map
          fun slug => lit "inventory:" ++ slug
      else [lit "inventories"]
  | _ => [lit "inventories"]

/-- `_audit_gates`: what is missing. -/
def auditGates (slugs : List Str) (attempts : Str → List CalibrationAttempt) :
    Json → List Str
  | .obj audits =>
      requiredAudits.filter (fun name => !auditDone (getField audits name)) ++
        missingInventories slugs attempts (getField audits (lit "inventories"))
  | _ => requiredAudits ++ [lit "inventories"]

/-! ## The report -/

structure ChallengeResult where
  challengeSlug : Str
  acceptedAttempts : ℕ
  versionCohorts : ℕ
  dimensions : List (Dimension × DimensionMetric)
  passesAgreementGate : Bool
  deriving DecidableEq

structure CalibrationReport where
  status : String
  releaseReady : Bool
  agreementGateMet : Bool
  invalidRecords : List ℕ
  challenges : List ChallengeResult
  auditsMissing : List Str
  deriving DecidableEq

/-- What tells the cohorts of attempts apart. -/
def CalibrationAttempt.version (a : CalibrationAttempt) : Str × Str × Str × Bool :=
  (a.challengeVersion.form, a.evaluatorVersion.form, a.inventoryDigest.form, a.aiAvailable)

def CalibrationAttempt.versionHashable (a : CalibrationAttempt) : Bool :=
  a.challengeVersion.hashable && a.evaluatorVersion.hashable && a.inventoryDigest.hashable

def dimensionMetrics (attempts : List CalibrationAttempt) : List (Dimension × DimensionMetric) :=
  Dimension.all.map fun d => (d, dimensionMetric interval o (attempts.filterMap (·.pair d)))

def challengeResult (slug : Str) (attempts : List CalibrationAttempt) :
    Except ValueErr ChallengeResult :=
  if attempts.all CalibrationAttempt.versionHashable = false then .error .type
  else
    let cohorts := (attempts.map CalibrationAttempt.version).dedup.length
    let dimensions := dimensionMetrics interval o attempts
    .ok {
      challengeSlug := slug
      acceptedAttempts := attempts.length
      versionCohorts := cohorts
      dimensions := dimensions
      passesAgreementGate := o.minAttempts ≤ attempts.length && cohorts = 1 &&
        dimensions.all fun m => (m.1 = .aiLeverage && m.2.n = 0) || m.2.passes }

/-- `valid` has each challenge once. -/
def calibratedSlugs : List Str :=
  (if o.challenges = [] then registry else o.challenges).eraseDups

/-- The report on the records read, once each challenge has its results. -/
def reportOf (intake : Intake) (results : List ChallengeResult) : CalibrationReport :=
  let allPass := results.all ChallengeResult.passesAgreementGate
  let statisticalPass := decide (intake.errors = []) && decide (results ≠ []) && allPass
  let missing :=
    auditGates (calibratedSlugs registry o) (attemptsOf intake.accepted) o.auditEvidence
  { status := if intake.errors ≠ [] then "invalid_data"
      else if allPass then "agreement_gate_met" else "insufficient_or_disagreeing_data"
    releaseReady := statisticalPass && decide (missing = [])
    agreementGateMet := statisticalPass
    invalidRecords := intake.errors
    challenges := results
    auditsMissing := missing }

def calibrationReport (records : List Json) : Except ValueErr CalibrationReport :=
  if o.minAttempts < 30 then .error .value
  else
    let slugs := calibratedSlugs registry o
    let intake := takeRecords slugs records
    (slugs.mapM fun slug => challengeResult interval o slug (attemptsOf intake.accepted slug)).map
      (reportOf registry o intake)

end Report

/-! ## Agreement does not depend on the order of the pairs -/

theorem ratingGap_comm (a b : Fin 5) : ratingGap a b = ratingGap b a := by
  unfold ratingGap
  omega

section Pairs

variable {pairs pairs' : List RatingPair}

theorem observedDisagreement_perm (h : pairs'.Perm pairs) :
    observedDisagreement pairs' = observedDisagreement pairs :=
  (h.map _).sum_eq

theorem expectedDisagreement_perm (h : pairs'.Perm pairs) :
    expectedDisagreement pairs' = expectedDisagreement pairs := by
  unfold expectedDisagreement
  simp only [(h.map Prod.fst).count_eq, (h.map Prod.snd).count_eq]

theorem weightedKappa_congr (hlength : pairs'.length = pairs.length)
    (hobserved : observedDisagreement pairs' = observedDisagreement pairs)
    (hexpected : expectedDisagreement pairs' = expectedDisagreement pairs) :
    weightedKappa pairs' = weightedKappa pairs := by
  have hnil : pairs' = [] ↔ pairs = [] := by
    rw [← List.length_eq_zero_iff, hlength, List.length_eq_zero_iff]
  unfold weightedKappa
  simp only [hnil, hlength, hobserved, hexpected]

theorem shareOfPairs_congr {p : RatingPair → Bool} (hlength : pairs'.length = pairs.length)
    (hcount : pairs'.countP p = pairs.countP p) : shareOfPairs p pairs' = shareOfPairs p pairs := by
  have hnil : pairs' = [] ↔ pairs = [] := by
    rw [← List.length_eq_zero_iff, hlength, List.length_eq_zero_iff]
  unfold shareOfPairs
  simp only [hnil, hlength, hcount]

/-- Each pair is swapped, or, when that is allowed, kept. -/
abbrev Swapped {α : Type} (swap : α → α) (partly : Prop) (x x' : α) : Prop :=
  x' = swap x ∨ (partly ∧ x' = x)

theorem map_of_forall₂_swapped {α : Type} {swap : α → α} {l l' : List α}
    (h : List.Forall₂ (Swapped swap False) l l') : l' = l.map swap := by
  induction h with
  | nil => rfl
  | cons hx _ ih =>
      rcases hx with rfl | ⟨hfalse, -⟩
      · rw [List.map_cons, ih]
      · exact hfalse.elim

variable {partly : Prop}

theorem countP_swapped {p : RatingPair → Bool} (hp : ∀ x, p x.swap = p x)
    (h : List.Forall₂ (Swapped Prod.swap partly) pairs pairs') :
    pairs'.countP p = pairs.countP p := by
  induction h with
  | nil => rfl
  | @cons x x' l l' hx _ ih =>
      have hsame : p x' = p x := by
        rcases hx with rfl | ⟨-, rfl⟩
        · exact hp x
        · rfl
      rw [List.countP_cons, List.countP_cons, ih, hsame]

theorem sameRating_swap (x : RatingPair) : sameRating x.swap = sameRating x :=
  decide_eq_decide.mpr eq_comm

theorem largeGap_swap (x : RatingPair) : largeGap x.swap = largeGap x := by
  unfold largeGap
  rw [Prod.fst_swap, Prod.snd_swap, ratingGap_comm]

theorem observedDisagreement_swap :
    observedDisagreement (pairs.map Prod.swap) = observedDisagreement pairs := by
  unfold observedDisagreement
  rw [List.map_map]
  congr 2
  funext x
  rw [Function.comp_apply, Prod.fst_swap, Prod.snd_swap, ratingGap_comm]

/-- The marginals of the two reviewers change places. -/
theorem expectedDisagreement_swap :
    expectedDisagreement (pairs.map Prod.swap) = expectedDisagreement pairs := by
  have hfst : (pairs.map Prod.swap).map Prod.fst = pairs.map Prod.snd := by
    rw [List.map_map]
    rfl
  have hsnd : (pairs.map Prod.swap).map Prod.snd = pairs.map Prod.fst := by
    rw [List.map_map]
    rfl
  unfold expectedDisagreement
  rw [hfst, hsnd, Finset.sum_comm]
  refine Finset.sum_congr rfl fun a _ => Finset.sum_congr rfl fun b _ => ?_
  rw [ratingGap_comm b a, Nat.mul_comm ((pairs.map Prod.snd).count b)]

end Pairs

/-! ## What a report comes to -/

/-- A metric without its interval and its table of ratings. -/
def DimensionMetric.bare (m : DimensionMetric) : DimensionMetric :=
  { m with kappaInterval := none, confusion := [] }

/-- A metric without what is corrected for chance. -/
def DimensionMetric.rates (m : DimensionMetric) : DimensionMetric :=
  { m.bare with quadraticWeightedKappa := none, passes := false }

namespace ChallengeResult

/-- The metrics seen through `f`. -/
def mapMetrics (f : DimensionMetric → DimensionMetric) (r : ChallengeResult) : ChallengeResult :=
  { r with dimensions := r.dimensions.map fun m => (m.1, f m.2) }

def bare (r : ChallengeResult) : ChallengeResult := r.mapMetrics .bare

def rates (r : ChallengeResult) : ChallengeResult :=
  { r.mapMetrics .rates with passesAgreementGate := false }

end ChallengeResult

namespace CalibrationReport

/-- All but the positions of refused records and the parts of metrics that show the order. -/
def bare (r : CalibrationReport) : CalibrationReport :=
  { r with invalidRecords := [], challenges := r.challenges.map .bare }

/-- All but what rests on the weighted kappas. -/
def rates (r : CalibrationReport) : CalibrationReport :=
  { r with
    status := ""
    releaseReady := false
    agreementGateMet := false
    challenges := r.challenges.map .rates }

end CalibrationReport

section Metrics

variable {interval : List RatingPair → Option (PyFloat × PyFloat)} {o : CalibrationOptions}
variable {pairs pairs' : List RatingPair}

theorem dimensionMetric_bare_congr (hlength : pairs'.length = pairs.length)
    (hkappa : weightedKappa pairs' = weightedKappa pairs)
    (hshare : ∀ p ∈ [sameRating, largeGap], shareOfPairs p pairs' = shareOfPairs p pairs) :
    (dimensionMetric interval o pairs').bare = (dimensionMetric interval o pairs).bare := by
  unfold dimensionMetric DimensionMetric.bare
  dsimp only
  rw [hlength, hkappa, hshare sameRating (by simp), hshare largeGap (by simp)]

theorem dimensionMetric_perm (h : pairs'.Perm pairs) :
    (dimensionMetric interval o pairs').bare = (dimensionMetric interval o pairs).bare :=
  dimensionMetric_bare_congr h.length_eq
    (weightedKappa_congr h.length_eq (observedDisagreement_perm h) (expectedDisagreement_perm h))
    fun p _ => shareOfPairs_congr h.length_eq (h.countP_eq p)

theorem shareOfPairs_swapped {partly : Prop}
    (h : List.Forall₂ (Swapped Prod.swap partly) pairs pairs') :
    ∀ p ∈ [sameRating, largeGap], shareOfPairs p pairs' = shareOfPairs p pairs := by
  intro p hp
  have hswap : ∀ x, p x.swap = p x := by
    rcases List.mem_cons.mp hp with rfl | hp
    · exact sameRating_swap
    · obtain rfl := List.mem_singleton.mp hp
      exact largeGap_swap
  exact shareOfPairs_congr h.length_eq.symm (countP_swapped hswap h)

theorem dimensionMetric_swap (h : List.Forall₂ (Swapped Prod.swap False) pairs pairs') :
    (dimensionMetric interval o pairs').bare = (dimensionMetric interval o pairs).bare := by
  have hshare := shareOfPairs_swapped h
  obtain rfl := map_of_forall₂_swapped h
  have hlength : (pairs.map Prod.swap).length = pairs.length := List.length_map _
  exact dimensionMetric_bare_congr hlength
    (weightedKappa_congr hlength observedDisagreement_swap expectedDisagreement_swap) hshare

theorem dimensionMetric_swapped {partly : Prop}
    (h : List.Forall₂ (Swapped Prod.swap partly) pairs pairs') :
    (dimensionMetric interval o pairs').rates = (dimensionMetric interval o pairs).rates := by
  have hlength : pairs'.length = pairs.length := h.length_eq.symm
  have hshare := shareOfPairs_swapped h
  unfold dimensionMetric DimensionMetric.rates DimensionMetric.bare
  dsimp only
  rw [hlength, hshare sameRating (by simp), hshare largeGap (by simp)]

end Metrics

/-! ## Attempts -/

/-- The reviewers of the attempt change places. -/
def CalibrationAttempt.swap (a : CalibrationAttempt) : CalibrationAttempt :=
  { a with first := a.second, second := a.first }

theorem CalibrationAttempt.pair_swap (a : CalibrationAttempt) (d : Dimension) :
    a.swap.pair d = (a.pair d).map Prod.swap := by
  unfold pair swap
  cases ratingOf a.first d <;> cases ratingOf a.second d <;> rfl

/-- Two lists of attempts of the same cohorts. -/
structure SameCohorts (attempts attempts' : List CalibrationAttempt) : Prop where
  count : attempts'.length = attempts.length
  cohorts : (attempts'.map CalibrationAttempt.version).dedup.length =
    (attempts.map CalibrationAttempt.version).dedup.length
  hashable : attempts'.all CalibrationAttempt.versionHashable =
    attempts.all CalibrationAttempt.versionHashable
  inventory : ∀ item, inventoryMatches attempts' item = inventoryMatches attempts item

section Attempts

variable {attempts attempts' : List CalibrationAttempt}

theorem inventoryMatches_congr (hempty : attempts'.isEmpty = attempts.isEmpty)
    (hall : ∀ p : CalibrationAttempt → Bool, (∀ a, p a.swap = p a) →
      attempts'.all p = attempts.all p) (item : Json) :
    inventoryMatches attempts' item = inventoryMatches attempts item := by
  cases item with
  | obj item =>
      simp only [inventoryMatches]
      rw [hempty, hall _ fun a => rfl]
  | null => rfl
  | bool => rfl
  | int => rfl
  | float => rfl
  | str => rfl
  | arr => rfl

theorem SameCohorts.of_perm (h : attempts'.Perm attempts) : SameCohorts attempts attempts' where
  count := h.length_eq
  cohorts := ((h.map _).dedup).length_eq
  hashable := h.all_eq
  inventory := inventoryMatches_congr h.isEmpty_eq fun _ _ => h.all_eq

theorem SameCohorts.of_swapped {partly : Prop}
    (h : List.Forall₂ (Swapped CalibrationAttempt.swap partly) attempts attempts') :
    SameCohorts attempts attempts' := by
  have hall (p : CalibrationAttempt → Bool) (hp : ∀ a, p a.swap = p a) :
      attempts'.all p = attempts.all p := by
    induction h with
    | nil => rfl
    | @cons a a' l l' ha _ ih =>
        rw [List.all_cons, List.all_cons, ih]
        rcases ha with rfl | ⟨-, rfl⟩
        · rw [hp]
        · rfl
  have hversions : attempts'.map CalibrationAttempt.version =
      attempts.map CalibrationAttempt.version := by
    clear hall
    induction h with
    | nil => rfl
    | @cons a a' l l' ha _ ih =>
        rw [List.map_cons, List.map_cons, ih]
        rcases ha with rfl | ⟨-, rfl⟩ <;> rfl
  have hempty : attempts'.isEmpty = attempts.isEmpty := by
    cases h with
    | nil => rfl
    | cons => rfl
  exact ⟨h.length_eq.symm, by rw [hversions], hall _ fun a => rfl,
    inventoryMatches_congr hempty hall⟩

variable {interval : List RatingPair → Option (PyFloat × PyFloat)} {o : CalibrationOptions}

/-- The pairs of ratings of a dimension. -/
abbrev pairsOf (attempts : List CalibrationAttempt) (d : Dimension) : List RatingPair :=
  attempts.filterMap (·.pair d)

theorem pairsOf_swapped {partly : Prop}
    (h : List.Forall₂ (Swapped CalibrationAttempt.swap partly) attempts attempts')
    (d : Dimension) :
    List.Forall₂ (Swapped Prod.swap partly) (pairsOf attempts d) (pairsOf attempts' d) := by
  induction h with
  | nil => exact List.Forall₂.nil
  | @cons a a' l l' ha _ ih =>
      unfold pairsOf at ih ⊢
      rcases ha with rfl | ⟨hpartly, rfl⟩
      · rw [List.filterMap_cons, List.filterMap_cons, CalibrationAttempt.pair_swap]
        cases a.pair d with
        | none => exact ih
        | some x => exact List.Forall₂.cons (Or.inl rfl) ih
      · rw [List.filterMap_cons, List.filterMap_cons]
        cases a'.pair d with
        | none => exact ih
        | some x => exact List.Forall₂.cons (Or.inr ⟨hpartly, rfl⟩) ih

theorem mapMetrics_congr {f : DimensionMetric → DimensionMetric}
    (h : ∀ d, f (dimensionMetric interval o (pairsOf attempts' d)) =
      f (dimensionMetric interval o (pairsOf attempts d))) :
    (dimensionMetrics interval o attempts').map (fun m => (m.1, f m.2)) =
      (dimensionMetrics interval o attempts).map fun m => (m.1, f m.2) := by
  unfold dimensionMetrics
  rw [List.map_map, List.map_map]
  refine List.map_congr_left fun d _ => ?_
  exact congrArg (Prod.mk d) (h d)

/-- The gate of a challenge reads no part of a metric that shows the order. -/
theorem all_passes_bare (dimensions : List (Dimension × DimensionMetric)) :
    (dimensions.all fun m => (m.1 = .aiLeverage && m.2.n = 0) || m.2.passes) =
      (dimensions.map fun m => (m.1, m.2.bare)).all fun m =>
        (m.1 = .aiLeverage && m.2.n = 0) || m.2.passes := by
  rw [List.all_map]
  rfl

theorem challengeResult_bare (hcohorts : SameCohorts attempts attempts')
    (hmetrics : ∀ d, (dimensionMetric interval o (pairsOf attempts' d)).bare =
      (dimensionMetric interval o (pairsOf attempts d)).bare) (slug : Str) :
    (challengeResult interval o slug attempts').map ChallengeResult.bare =
      (challengeResult interval o slug attempts).map ChallengeResult.bare := by
  have hdimensions := mapMetrics_congr hmetrics
  unfold challengeResult
  rw [hcohorts.hashable]
  split_ifs
  · rfl
  · simp only [Except.map, ChallengeResult.bare, ChallengeResult.mapMetrics]
    rw [hcohorts.count, hcohorts.cohorts, all_passes_bare, hdimensions, ← all_passes_bare]

theorem challengeResult_rates (hcohorts : SameCohorts attempts attempts')
    (hmetrics : ∀ d, (dimensionMetric interval o (pairsOf attempts' d)).rates =
      (dimensionMetric interval o (pairsOf attempts d)).rates) (slug : Str) :
    (challengeResult interval o slug attempts').map ChallengeResult.rates =
      (challengeResult interval o slug attempts).map ChallengeResult.rates := by
  have hdimensions := mapMetrics_congr hmetrics
  unfold challengeResult
  rw [hcohorts.hashable]
  split_ifs
  · rfl
  · simp only [Except.map, ChallengeResult.rates, ChallengeResult.mapMetrics]
    rw [hcohorts.count, hcohorts.cohorts, hdimensions]

end Attempts

/-! ## Reports -/

/-- Results that are the same seen through `g`, and so are what `F` and `F'` make of them. -/
theorem map_congr_of_map_eq {ε α β γ δ : Type} {x x' : Except ε α} {g : α → β} {F F' : α → γ}
    {G : γ → δ} (h : x'.map g = x.map g) (hF : ∀ r r', g r' = g r → G (F' r') = G (F r)) :
    (x'.map F').map G = (x.map F).map G := by
  cases x' with
  | error e' =>
      cases x with
      | error e => exact congrArg Except.error (Except.error.inj h)
      | ok r => cases h
  | ok r' =>
      cases x with
      | error e => cases h
      | ok r => exact congrArg Except.ok (hF r r' (Except.ok.inj h))

theorem map_mapM_congr {ε α β γ : Type} {f f' : α → Except ε β} {g : β → γ} (l : List α)
    (h : ∀ a, (f' a).map g = (f a).map g) :
    (l.mapM f').map (List.map g) = (l.mapM f).map (List.map g) := by
  induction l with
  | nil => rfl
  | cons a l ih =>
      have ha := h a
      rw [List.mapM_cons, List.mapM_cons]
      cases hf' : f' a with
      | error e' =>
          cases hf : f a with
          | error e =>
              rw [hf', hf] at ha
              obtain rfl := Except.error.inj ha
              rfl
          | ok b =>
              rw [hf', hf] at ha
              cases ha
      | ok b' =>
          cases hf : f a with
          | error e =>
              rw [hf', hf] at ha
              cases ha
          | ok b =>
              rw [hf', hf] at ha
              have hb := Except.ok.inj ha
              have hcons : ∀ bs bs', List.map g bs' = List.map g bs →
                  List.map g (b' :: bs') = List.map g (b :: bs) := by
                intro bs bs' hbs
                rw [List.map_cons, List.map_cons, hb, hbs]
              exact map_congr_of_map_eq ih hcons

/-- Two intakes of the same cohorts. -/
structure SameIntake (intake intake' : Intake) : Prop where
  valid : intake'.errors = [] ↔ intake.errors = []
  cohorts : ∀ slug, SameCohorts (attemptsOf intake.accepted slug) (attemptsOf intake'.accepted slug)

section Reports

variable {registry : List Str} {interval : List RatingPair → Option (PyFloat × PyFloat)}
variable {o : CalibrationOptions} {intake intake' : Intake}

theorem auditGates_congr {attempts attempts' : Str → List CalibrationAttempt}
    (h : ∀ slug, SameCohorts (attempts slug) (attempts' slug)) (slugs : List Str) (audits : Json) :
    auditGates slugs attempts' audits = auditGates slugs attempts audits := by
  have hinventories (v : Json) : missingInventories slugs attempts' v =
      missingInventories slugs attempts v := by
    cases v with
    | obj inventories => simp only [missingInventories, (h _).inventory]
    | null => rfl
    | bool => rfl
    | int => rfl
    | float => rfl
    | str => rfl
    | arr => rfl
  cases audits with
  | obj audits => simp only [auditGates, hinventories]
  | null => rfl
  | bool => rfl
  | int => rfl
  | float => rfl
  | str => rfl
  | arr => rfl

theorem reportOf_bare (h : SameIntake intake intake') {results results' : List ChallengeResult}
    (hresults : results'.map ChallengeResult.bare = results.map ChallengeResult.bare) :
    (reportOf registry o intake' results').bare = (reportOf registry o intake results).bare := by
  have hlength : results'.length = results.length := by
    rw [← List.length_map ChallengeResult.bare, hresults, List.length_map]
  have hnil : results' = [] ↔ results = [] := by
    rw [← List.length_eq_zero_iff, hlength, List.length_eq_zero_iff]
  have hall (l : List ChallengeResult) : l.all ChallengeResult.passesAgreementGate =
      (l.map ChallengeResult.bare).all ChallengeResult.passesAgreementGate := by
    rw [List.all_map]
    rfl
  unfold reportOf CalibrationReport.bare
  dsimp only
  rw [hall results', hresults, ← hall, auditGates_congr h.cohorts]
  simp only [ne_eq, h.valid, hnil]

theorem reportOf_rates (hcohorts : ∀ slug,
      SameCohorts (attemptsOf intake.accepted slug) (attemptsOf intake'.accepted slug))
    (herrors : intake'.errors = intake.errors) {results results' : List ChallengeResult}
    (hresults : results'.map ChallengeResult.rates = results.map ChallengeResult.rates) :
    (reportOf registry o intake' results').rates = (reportOf registry o intake results).rates := by
  unfold reportOf CalibrationReport.rates
  dsimp only
  rw [hresults, herrors, auditGates_congr hcohorts]

/-- Reports on intakes that agree in all that the gates read. -/
theorem calibrationReport_bare {records records' : List Json}
    (h : SameIntake (takeRecords (calibratedSlugs registry o) records)
      (takeRecords (calibratedSlugs registry o) records'))
    (hmetrics : ∀ slug d,
      (dimensionMetric interval o (pairsOf (attemptsOf
        (takeRecords (calibratedSlugs registry o) records').accepted slug) d)).bare =
      (dimensionMetric interval o (pairsOf (attemptsOf
        (takeRecords (calibratedSlugs registry o) records).accepted slug) d)).bare) :
    (calibrationReport registry interval o records').map CalibrationReport.bare =
      (calibrationReport registry interval o records).map CalibrationReport.bare := by
  unfold calibrationReport
  split_ifs
  · rfl
  · exact map_congr_of_map_eq
      (map_mapM_congr _ fun slug => challengeResult_bare (h.cohorts slug) (hmetrics slug) slug)
      fun r r' hr => reportOf_bare h hr

/-- Reports on intakes that agree in all but what is corrected for chance. -/
theorem calibrationReport_rates {records records' : List Json}
    (herrors : (takeRecords (calibratedSlugs registry o) records').errors =
      (takeRecords (calibratedSlugs registry o) records).errors)
    (hcohorts : ∀ slug, SameCohorts
      (attemptsOf (takeRecords (calibratedSlugs registry o) records).accepted slug)
      (attemptsOf (takeRecords (calibratedSlugs registry o) records').accepted slug))
    (hmetrics : ∀ slug d,
      (dimensionMetric interval o (pairsOf (attemptsOf
        (takeRecords (calibratedSlugs registry o) records').accepted slug) d)).rates =
      (dimensionMetric interval o (pairsOf (attemptsOf
        (takeRecords (calibratedSlugs registry o) records).accepted slug) d)).rates) :
    (calibrationReport registry interval o records').map CalibrationReport.rates =
      (calibrationReport registry interval o records).map CalibrationReport.rates := by
  unfold calibrationReport
  split_ifs
  · rfl
  · exact map_congr_of_map_eq
      (map_mapM_congr _ fun slug => challengeResult_rates (hcohorts slug) (hmetrics slug) slug)
      fun r r' hr => reportOf_rates hcohorts herrors hr

end Reports

/-! ## Records in another order -/

section Records

variable {slugs : List Str}

/-- The attempt of a record that is accepted when none before has its identity. -/
def attemptOf (slugs : List Str) (record : Json) : Option (Str × CalibrationAttempt) :=
  (attemptId record).bind fun _ => checkRecord slugs (recordFields record)

/-- The records have distinct identities, as far as they have one. -/
def DistinctAttempts (records : List Json) : Prop := (records.filterMap attemptId).Nodup

theorem foldl_takeRecord (l : List (Json × ℕ)) (st : Intake)
    (h : (st.seen ++ l.filterMap fun r => attemptId r.1).Nodup) :
    l.foldl (takeRecord slugs) st = {
      seen := st.seen ++ l.filterMap fun r => attemptId r.1
      errors := st.errors ++ (l.filter fun r => (attemptOf slugs r.1).isNone).map Prod.snd
      accepted := st.accepted ++ l.filterMap fun r => attemptOf slugs r.1 } := by
  induction l generalizing st with
  | nil => simp
  | cons r l ih =>
      rw [List.foldl_cons]
      cases hid : attemptId r.1 with
      | none =>
          have hof : attemptOf slugs r.1 = none := by rw [attemptOf, hid, Option.bind_none]
          simp only [List.filterMap_cons, hid] at h ⊢
          have hstep : takeRecord slugs st r = { st with errors := st.errors ++ [r.2] } := by
            simp only [takeRecord, hid]
          rw [hstep, ih { st with errors := st.errors ++ [r.2] } h]
          simp [hof]
      | some identity =>
          simp only [List.filterMap_cons, hid] at h ⊢
          have hnew : identity ∉ st.seen := by
            intro hmem
            exact (List.nodup_append.mp h).2.2 _ hmem _ (List.mem_cons_self ..) rfl
          have hrest : ((st.seen ++ [identity]) ++ l.filterMap fun r => attemptId r.1).Nodup := by
            rwa [List.append_assoc]
          have hof : attemptOf slugs r.1 = checkRecord slugs (recordFields r.1) := by
            rw [attemptOf, hid, Option.bind_some]
          cases hcheck : checkRecord slugs (recordFields r.1) with
          | none =>
              have hstep : takeRecord slugs st r = {
                  st with
                  seen := st.seen ++ [identity]
                  errors := st.errors ++ [r.2] } := by
                simp only [takeRecord, hid, hcheck]
                exact if_neg hnew
              rw [hstep, ih _ hrest]
              simp [hof, hcheck]
          | some attempt =>
              have hstep : takeRecord slugs st r = {
                  st with
                  seen := st.seen ++ [identity]
                  accepted := st.accepted ++ [attempt] } := by
                simp only [takeRecord, hid, hcheck]
                exact if_neg hnew
              rw [hstep, ih _ hrest]
              simp [hof, hcheck]

theorem takeRecords_eq {records : List Json} (h : DistinctAttempts records) :
    (takeRecords slugs records).accepted = records.filterMap (attemptOf slugs) ∧
      ((takeRecords slugs records).errors = [] ↔
        ∀ r ∈ records, (attemptOf slugs r).isSome = true) := by
  have hfst : records.zipIdx.map Prod.fst = records := List.zipIdx_map_fst 0 records
  have hids : (records.zipIdx.filterMap fun r => attemptId r.1) = records.filterMap attemptId := by
    conv_rhs => rw [← hfst, List.filterMap_map]
    rfl
  unfold takeRecords
  rw [foldl_takeRecord _ _ (by rwa [List.nil_append, hids])]
  constructor
  · conv_rhs => rw [← hfst, List.filterMap_map]
    rfl
  · dsimp only
    rw [List.nil_append, List.map_eq_nil_iff, List.filter_eq_nil_iff]
    constructor
    · intro hnone r hr
      rw [← hfst] at hr
      obtain ⟨e, he, rfl⟩ := List.mem_map.mp hr
      simpa [Option.isSome_iff_ne_none] using hnone e he
    · intro hsome e he
      have hmem : e.1 ∈ records := hfst ▸ List.mem_map_of_mem he
      simpa [Option.isSome_iff_ne_none] using hsome e.1 hmem

theorem attemptsOf_perm {accepted accepted' : List (Str × CalibrationAttempt)}
    (h : accepted'.Perm accepted) (slug : Str) :
    (attemptsOf accepted' slug).Perm (attemptsOf accepted slug) :=
  (h.filter _).map _

theorem takeRecords_perm {records records' : List Json} (h : DistinctAttempts records)
    (hperm : records'.Perm records) :
    (takeRecords slugs records').accepted.Perm (takeRecords slugs records).accepted ∧
      ((takeRecords slugs records').errors = [] ↔ (takeRecords slugs records).errors = []) := by
  have h' : DistinctAttempts records' := (hperm.filterMap _).nodup_iff.mpr h
  rw [(takeRecords_eq h).1, (takeRecords_eq h').1, (takeRecords_eq h).2, (takeRecords_eq h').2]
  exact ⟨hperm.filterMap _, by simp only [hperm.mem_iff]⟩

/-! ## Reviewers in another order -/

def swapPair : Json → Json
  | .arr [a, b] => .arr [b, a]
  | v => v

/-- The record with the entries of its two reviewers in the other order. -/
def swapReviews : Json → Json
  | .obj fields =>
      .obj (fields.map fun f => (f.1, if f.1 = lit "reviews" then swapPair f.2 else f.2))
  | v => v

theorem getField_swap (fields : List (Str × Json)) (k : Str) :
    getField (fields.map fun f => (f.1, if f.1 = lit "reviews" then swapPair f.2 else f.2)) k =
      if k = lit "reviews" then swapPair (getField fields k) else getField fields k := by
  unfold Json.getField
  induction fields with
  | nil =>
      rw [List.map_nil, List.lookup_nil]
      split_ifs <;> rfl
  | cons f fields ih =>
      rw [List.map_cons, List.lookup_cons, List.lookup_cons]
      by_cases hk : k = f.1
      · subst hk
        simp only [beq_self_eq_true, Option.getD_some]
      · rw [beq_false_of_ne hk]
        exact ih

theorem reviewPair_swap (v : Json) : reviewPair (swapPair v) = (reviewPair v).map Prod.swap := by
  cases v with
  | arr items =>
      match items with
      | [] => rfl
      | [a] => cases a <;> rfl
      | [a, b] => cases a <;> cases b <;> rfl
      | a :: b :: _ :: _ => cases a <;> cases b <;> rfl
  | null => rfl
  | bool => rfl
  | int => rfl
  | float => rfl
  | str => rfl
  | obj => rfl

theorem checkReviews_swap (fields : List (Str × Json)) :
    checkReviews (fields.map fun f => (f.1, if f.1 = lit "reviews" then swapPair f.2 else f.2)) =
      (checkReviews fields).map CalibrationAttempt.swap := by
  have hother {k : Str} (hk : k ≠ lit "reviews") :
      getField (fields.map fun f => (f.1, if f.1 = lit "reviews" then swapPair f.2 else f.2)) k =
        getField fields k := by
    rw [getField_swap, if_neg hk]
  unfold checkReviews
  rw [getField_swap, if_pos rfl, reviewPair_swap, hother (by decide), hother (by decide),
    hother (by decide), hother (by decide), hother (by decide)]
  cases reviewPair (getField fields (lit "reviews")) with
  | none => rfl
  | some rs =>
      obtain ⟨r, r'⟩ := rs
      simp only [Option.map_some, Prod.swap_prod_mk]
      rw [Bool.and_comm (humanReview r'),
        Json.eq_comm (getField r' (lit "reviewer_id")) (getField r (lit "reviewer_id"))]
      split_ifs
      · rfl
      · rfl
      · cases getField fields (lit "ai_available") with
        | bool aiAvailable =>
            dsimp only
            cases checkReview (getField fields (lit "packet_digest")) aiAvailable r <;>
              cases checkReview (getField fields (lit "packet_digest")) aiAvailable r' <;> rfl
        | null => rfl
        | int => rfl
        | float => rfl
        | str => rfl
        | arr => rfl
        | obj => rfl

theorem attemptId_swap (record : Json) : attemptId (swapReviews record) = attemptId record := by
  cases record with
  | obj fields =>
      have hkey : lit "attempt_id" ≠ lit "reviews" := by decide
      unfold swapReviews attemptId
      dsimp only
      rw [getField_swap, if_neg hkey]
  | null => rfl
  | bool => rfl
  | int => rfl
  | float => rfl
  | str => rfl
  | arr => rfl

theorem validRecord_swap (slug : Str) (fields : List (Str × Json)) :
    validRecord slugs slug
        (fields.map fun f => (f.1, if f.1 = lit "reviews" then swapPair f.2 else f.2)) =
      validRecord slugs slug fields := by
  have hother {k : Str} (hk : k ≠ lit "reviews") :
      getField (fields.map fun f => (f.1, if f.1 = lit "reviews" then swapPair f.2 else f.2)) k =
        getField fields k := by
    rw [getField_swap, if_neg hk]
  have hbindings : (evidenceBindings.all fun k => (getField (fields.map fun f =>
        (f.1, if f.1 = lit "reviews" then swapPair f.2 else f.2)) k).truthy) =
      evidenceBindings.all fun k => (getField fields k).truthy := by
    have hkeys : ∀ k ∈ evidenceBindings, k ≠ lit "reviews" := by decide
    rw [Bool.eq_iff_iff, List.all_eq_true, List.all_eq_true]
    exact forall₂_congr fun k hk => by rw [hother (hkeys k hk)]
  unfold validRecord isStr isBool
  rw [hbindings, hother (by decide), hother (by decide), hother (by decide)]

theorem checkRecord_swap (record : Json) :
    checkRecord slugs (recordFields (swapReviews record)) =
      (checkRecord slugs (recordFields record)).map (Prod.map id CalibrationAttempt.swap) := by
  cases record with
  | obj fields =>
      have hkey : lit "challenge_slug" ≠ lit "reviews" := by decide
      change checkRecord slugs (fields.map fun f =>
        (f.1, if f.1 = lit "reviews" then swapPair f.2 else f.2)) =
          (checkRecord slugs fields).map _
      unfold checkRecord
      rw [getField_swap, if_neg hkey]
      cases getField fields (lit "challenge_slug") with
      | str slug =>
          dsimp only
          rw [validRecord_swap, checkReviews_swap]
          cases validRecord slugs slug fields with
          | true => cases checkReviews fields <;> rfl
          | false => rfl
      | null => rfl
      | bool => rfl
      | int => rfl
      | float => rfl
      | arr => rfl
      | obj => rfl
  | null => rfl
  | bool => rfl
  | int => rfl
  | float => rfl
  | str => rfl
  | arr => rfl

variable {partly : Prop}

/-- What reading a record of each list in turn keeps. -/
structure SwappedIntake (partly : Prop) (st st' : Intake) : Prop where
  seen : st'.seen = st.seen
  errors : st'.errors = st.errors
  accepted : List.Forall₂ (Swapped (Prod.map id CalibrationAttempt.swap) partly)
    st.accepted st'.accepted

theorem takeRecord_swapped {st st' : Intake} (h : SwappedIntake partly st st')
    {record record' : Json} (hrecord : Swapped swapReviews partly record record') (i : ℕ) :
    SwappedIntake partly (takeRecord slugs st (record, i)) (takeRecord slugs st' (record', i)) := by
  have hid : attemptId record' = attemptId record := by
    rcases hrecord with rfl | ⟨-, rfl⟩
    · exact attemptId_swap record
    · rfl
  have herrors : st'.errors ++ [i] = st.errors ++ [i] := by rw [h.errors]
  unfold takeRecord
  dsimp only
  rw [hid]
  cases attemptId record with
  | none => exact ⟨h.seen, herrors, h.accepted⟩
  | some identity =>
      dsimp only
      rw [h.seen]
      by_cases hmem : identity ∈ st.seen
      · rw [if_pos hmem, if_pos hmem]
        exact ⟨rfl, herrors, h.accepted⟩
      · rw [if_neg hmem, if_neg hmem]
        rcases hrecord with rfl | ⟨hpartly, rfl⟩
        · rw [checkRecord_swap]
          cases checkRecord slugs (recordFields record) with
          | none => exact ⟨rfl, herrors, h.accepted⟩
          | some a =>
              exact ⟨rfl, h.errors,
                List.rel_append h.accepted (List.Forall₂.cons (Or.inl rfl) List.Forall₂.nil)⟩
        · cases checkRecord slugs (recordFields record') with
          | none => exact ⟨rfl, herrors, h.accepted⟩
          | some a =>
              exact ⟨rfl, h.errors, List.rel_append h.accepted
                (List.Forall₂.cons (Or.inr ⟨hpartly, rfl⟩) List.Forall₂.nil)⟩

theorem takeRecords_swapped {records records' : List Json}
    (h : List.Forall₂ (Swapped swapReviews partly) records records') :
    SwappedIntake partly (takeRecords slugs records) (takeRecords slugs records') := by
  have hfold (i : ℕ) (st st' : Intake) (hst : SwappedIntake partly st st') :
      SwappedIntake partly ((records.zipIdx i).foldl (takeRecord slugs) st)
        ((records'.zipIdx i).foldl (takeRecord slugs) st') := by
    induction h generalizing i st st' with
    | nil => exact hst
    | cons hrecord _ ih =>
        rw [List.zipIdx_cons, List.zipIdx_cons, List.foldl_cons, List.foldl_cons]
        exact ih (i + 1) _ _ (takeRecord_swapped hst hrecord i)
  exact hfold 0 _ _ ⟨rfl, rfl, List.Forall₂.nil⟩

theorem attemptsOf_swapped {accepted accepted' : List (Str × CalibrationAttempt)}
    (h : List.Forall₂ (Swapped (Prod.map id CalibrationAttempt.swap) partly) accepted accepted')
    (slug : Str) :
    List.Forall₂ (Swapped CalibrationAttempt.swap partly)
      (attemptsOf accepted slug) (attemptsOf accepted' slug) := by
  unfold attemptsOf
  induction h with
  | nil => exact List.Forall₂.nil
  | @cons a a' l l' ha _ ih =>
      have hslug : a'.1 = a.1 := by rcases ha with rfl | ⟨-, rfl⟩ <;> rfl
      have hattempt : Swapped CalibrationAttempt.swap partly a.2 a'.2 := by
        rcases ha with rfl | ⟨hpartly, rfl⟩
        · exact Or.inl rfl
        · exact Or.inr ⟨hpartly, rfl⟩
      rw [List.filter_cons, List.filter_cons, hslug]
      split_ifs
      · exact List.Forall₂.cons hattempt ih
      · exact ih

end Records

/-- The order of the records does not matter to the report, nor does the order of the reviewers
when it changes in all records; where it changes in some, only what is corrected for chance may
follow. -/
theorem calibrationReport_order {registry : List Str}
    {interval : List RatingPair → Option (PyFloat × PyFloat)} {o : CalibrationOptions}
    {records : List Json} (h : DistinctAttempts records) :
    (∀ records', records'.Perm records →
      (calibrationReport registry interval o records').map CalibrationReport.bare =
          (calibrationReport registry interval o records).map CalibrationReport.bare ∧
        (calibrationReport registry interval o (records'.map swapReviews)).map
            CalibrationReport.bare =
          (calibrationReport registry interval o records).map CalibrationReport.bare) ∧
      ∀ records', List.Forall₂ (fun r r' => r' = swapReviews r ∨ r' = r) records records' →
        (calibrationReport registry interval o records').map CalibrationReport.rates =
          (calibrationReport registry interval o records).map CalibrationReport.rates := by
  have hswap (records : List Json) :
      (calibrationReport registry interval o (records.map swapReviews)).map
          CalibrationReport.bare =
        (calibrationReport registry interval o records).map CalibrationReport.bare := by
    have hrecords : List.Forall₂ (Swapped swapReviews False) records
        (records.map swapReviews) := by
      rw [List.forall₂_map_right_iff, List.forall₂_same]
      exact fun r _ => Or.inl rfl
    have hintake : SwappedIntake False (takeRecords (calibratedSlugs registry o) records)
        (takeRecords (calibratedSlugs registry o) (records.map swapReviews)) :=
      takeRecords_swapped hrecords
    refine calibrationReport_bare ⟨by rw [hintake.errors], fun slug => ?_⟩ fun slug d => ?_
    · exact SameCohorts.of_swapped (attemptsOf_swapped hintake.accepted slug)
    · exact dimensionMetric_swap (pairsOf_swapped (attemptsOf_swapped hintake.accepted slug) d)
  refine ⟨fun records' hperm => ?_, fun records' hrecords => ?_⟩
  · have hsame : (calibrationReport registry interval o records').map CalibrationReport.bare =
        (calibrationReport registry interval o records).map CalibrationReport.bare := by
      refine calibrationReport_bare ⟨(takeRecords_perm h hperm).2, fun slug => ?_⟩ fun slug d => ?_
      · exact SameCohorts.of_perm (attemptsOf_perm (takeRecords_perm h hperm).1 slug)
      · exact dimensionMetric_perm
          ((attemptsOf_perm (takeRecords_perm h hperm).1 slug).filterMap _)
    exact ⟨hsame, (hswap records').trans hsame⟩
  · have hrecords' : List.Forall₂ (Swapped swapReviews True) records records' := by
      refine hrecords.imp fun r r' hr => ?_
      rcases hr with hr | hr
      · exact Or.inl hr
      · exact Or.inr ⟨trivial, hr⟩
    have hintake : SwappedIntake True (takeRecords (calibratedSlugs registry o) records)
        (takeRecords (calibratedSlugs registry o) records') :=
      takeRecords_swapped hrecords'
    refine calibrationReport_rates hintake.errors (fun slug => ?_) fun slug d => ?_
    · exact SameCohorts.of_swapped (attemptsOf_swapped hintake.accepted slug)
    · exact dimensionMetric_swapped (pairsOf_swapped (attemptsOf_swapped hintake.accepted slug) d)

/-! ### Thirty attempts -/

def pilotReview (reviewer rating : ℕ) : Json :=
  .obj [(lit "reviewer_kind", .str (lit "human")), (lit "reviewer_id", .int reviewer),
    (lit "packet_digest", .str (lit "p")),
    (lit "ratings", .obj ((applicableKeys false).map fun k => (k, .int rating)))]

/-- The second reviewer is one step above the first, unless the entries are swapped. -/
def pilotRecord (swapped : Bool) (i : ℕ) : Json :=
  let low := if i < 5 then 0 else 3
  let reviews := [pilotReview 1 low, pilotReview 2 (low + 1)]
  .obj [(lit "attempt_id", .int (i + 1)), (lit "challenge_slug", .str (lit "demo")),
    (lit "rubric_version", .str rubricVersion), (lit "synthetic", .bool false),
    (lit "external_verified", .bool true), (lit "snapshot_digest", .str (lit "s")),
    (lit "packet_digest", .str (lit "p")), (lit "challenge_version", .str (lit "1")),
    (lit "evaluator_version", .str (lit "1")), (lit "inventory_digest", .str (lit "d")),
    (lit "ai_available", .bool false),
    (lit "reviews", .arr (if swapped then reviews.reverse else reviews))]

def pilotAudits : Json :=
  .obj ((requiredAudits.map fun name =>
      (name, .obj [(lit "completed", .bool true),
        (lit "evidence_refs", .arr [.str (lit "audit")])])) ++
    [(lit "inventories", .obj [(lit "demo", .obj [(lit "evidence_ref", .str (lit "audit")),
      (lit "challenge_version", .str (lit "1")), (lit "evaluator_version", .str (lit "1")),
      (lit "inventory_digest", .str (lit "d"))])])])

def pilotOptions : CalibrationOptions where
  challenges := [lit "demo"]
  minAttempts := 30
  auditEvidence := pilotAudits
  includeIntervals := false

def pilotRecords : List Json := (List.range 30).map (pilotRecord false)

/-- The first fifteen records have their reviewers in the other order. -/
def swappedRecords : List Json := (List.range 30).map fun i => pilotRecord (decide (i < 15)) i

theorem distinct_pilotRecords : DistinctAttempts pilotRecords := by
  unfold DistinctAttempts
  decide +kernel

theorem calibrationReport_order_of_thirty :
    DistinctAttempts pilotRecords ∧
      (calibrationReport [] (fun _ => none) pilotOptions (pilotRecords.map swapReviews)).map
          CalibrationReport.bare =
        (calibrationReport [] (fun _ => none) pilotOptions pilotRecords).map
          CalibrationReport.bare :=
  ⟨distinct_pilotRecords,
    ((calibrationReport_order distinct_pilotRecords).1 pilotRecords (List.Perm.refl _)).2⟩

/-- What decides about a release. -/
def CalibrationReport.decisions (r : CalibrationReport) : Bool × Bool :=
  (r.releaseReady, r.agreementGateMet)

/-- Swapping the reviewers of some records may close the gate. -/
theorem calibrationReport_partial_swap :
    ∃ records records', DistinctAttempts records ∧
      List.Forall₂ (fun r r' => r' = swapReviews r ∨ r' = r) records records' ∧
      (calibrationReport [] (fun _ => none) pilotOptions records).map
          CalibrationReport.decisions = .ok (true, true) ∧
        (calibrationReport [] (fun _ => none) pilotOptions records').map
          CalibrationReport.decisions = .ok (false, false) := by
  refine ⟨pilotRecords, swappedRecords, distinct_pilotRecords, ?_, by decide +kernel,
    by decide +kernel⟩
  unfold pilotRecords swappedRecords
  rw [List.forall₂_map_left_iff, List.forall₂_map_right_iff, List.forall₂_same]
  intro i _
  by_cases hi : i < 15
  · rw [decide_eq_true hi]
    exact Or.inl rfl
  · rw [decide_eq_false hi]
    exact Or.inr rfl

end PromptCode
