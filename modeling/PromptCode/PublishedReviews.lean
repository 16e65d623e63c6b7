import PromptCode.ReviewChain
import Mathlib.Data.List.Sort

/-!
# The reviews shown for a list of sessions

`published_reviews_for_sessions` answers for many sessions at once what
`candidate_review_status` answers for one.  It does not look at the evidence, so the two
agree on the sessions whose latest review is current, held by an appeal, or absent.
-/

namespace PromptCode

open Py Transition

/-! ## The batched projection -/

/-- `order_by(session_id, revision.desc())`. -/
def ReviewRow.Precedes (r q : ReviewRow) : Prop :=
  r.sessionId < q.sessionId ∨ r.sessionId = q.sessionId ∧ q.revision ≤ r.revision

instance : DecidableRel ReviewRow.Precedes := fun _ _ => inferInstanceAs (Decidable (_ ∨ _))

instance : Std.Total ReviewRow.Precedes where
  total r q := by
    rcases Nat.lt_trichotomy r.sessionId q.sessionId with h | h | h
    · exact Or.inl (Or.inl h)
    · rcases Nat.le_total q.revision r.revision with hle | hle
      · exact Or.inl (Or.inr ⟨h, hle⟩)
      · exact Or.inr (Or.inr ⟨h.symm, hle⟩)
    · exact Or.inr (Or.inl h)

instance : IsTrans ReviewRow ReviewRow.Precedes where
  trans r q p hrq hqp := by
    rcases hrq with hlt | ⟨heq, hle⟩
    · rcases hqp with hlt' | ⟨heq', -⟩
      · exact Or.inl (Nat.lt_trans hlt hlt')
      · exact Or.inl (heq' ▸ hlt)
    · rcases hqp with hlt' | ⟨heq', hle'⟩
      · exact Or.inl (heq ▸ hlt')
      · exact Or.inr ⟨heq.trans heq', hle'.trans hle⟩

def newestFirst (rows : List ReviewRow) : List ReviewRow :=
  rows.insertionSort ReviewRow.Precedes

/-- A row enters the dictionary when it is the first of its session. -/
def keepFirst (latest : List ReviewRow) (r : ReviewRow) : List ReviewRow :=
  if latest.any (fun q => q.sessionId = r.sessionId) then latest else latest ++ [r]

/-- `published_reviews_for_sessions`, as the list of the entries of its dictionary. -/
def Board.publishedReviewsForSessions (b : Board) (ids : List SessionId) :
    List (SessionId × Board.Published) :=
  if b.service.publicationAllowed = false ∨ ids = [] then []
  else
    let latest :=
      (newestFirst (b.reviews.filter fun r => r.sessionId ∈ ids)).foldl keepFirst []
    let held := (b.appeals.filter fun a =>
      (latest.map ReviewRow.id).contains a.reviewId && a.status.isHeld).map
        AppealRow.reviewId
    (latest.filter fun r => !held.contains r.id).map fun r =>
      (r.sessionId, Board.publish r)

/-! ## The latest review of each session -/

theorem RevisionChain.revisions {previous : Option RowId} {k : ℕ} {rows : List ReviewRow}
    (h : RevisionChain previous k rows) :
    rows.map ReviewRow.revision = List.range' (k + 1) rows.length := by
  induction rows generalizing previous k with
  | nil => rfl
  | cons r rows ih =>
      obtain ⟨hr, -, hrows⟩ := h
      rw [List.map_cons, ih hrows, hr, List.length_cons, List.range'_succ]

/-- The latest review of a chain is the one with the highest revision. -/
theorem RevisionChain.latestReview_iff {rows : List ReviewRow}
    (h : RevisionChain none 0 rows) (r : ReviewRow) :
    latestReview rows = some r ↔ r ∈ rows ∧ ∀ q ∈ rows, q.revision ≤ r.revision := by
  obtain ⟨hlatest, hrevision⟩ := h.latest
  have hle : ∀ q ∈ rows, q.revision ≤ rows.length := by
    intro q hq
    have hmem : q.revision ∈ rows.map ReviewRow.revision := List.mem_map_of_mem hq
    rw [h.revisions, List.mem_range'_1] at hmem
    omega
  rw [hlatest]
  constructor
  · intro hr
    have hlast := hrevision r hr
    refine ⟨List.mem_of_getLast? hr, ?_⟩
    intro q hq
    have hbound := hle q hq
    omega
  · rintro ⟨hr, hmax⟩
    obtain ⟨last, hlast⟩ : ∃ last, rows.getLast? = some last :=
      Option.isSome_iff_exists.mp (by
        rw [List.getLast?_isSome]
        exact List.ne_nil_of_mem hr)
    have hnodup : (rows.map ReviewRow.revision).Nodup := by
      rw [h.revisions]
      exact List.nodup_range'
    have hmem := List.mem_of_getLast? hlast
    have heq : r.revision = last.revision := by
      have hlength := hrevision last hlast
      have hbound := hle r hr
      have hlow := hmax last hmem
      omega
    rw [hlast, List.inj_on_of_nodup_map hnodup hmem hr heq.symm]

theorem find_newestFirst {rows : List ReviewRow} {s : SessionId} {r : ReviewRow}
    (h : (newestFirst rows).find? (fun q => q.sessionId = s) = some r) :
    r ∈ rows ∧ r.sessionId = s ∧
      ∀ q ∈ rows, q.sessionId = s → q.revision ≤ r.revision := by
  have hmem : ∀ q, q ∈ newestFirst rows ↔ q ∈ rows := fun _ => List.mem_insertionSort _
  have hsorted : (newestFirst rows).Pairwise ReviewRow.Precedes :=
    List.pairwise_insertionSort _ rows
  obtain ⟨hr, before, after, heq, hbefore⟩ := List.find?_eq_some_iff_append.mp h
  have hsession : r.sessionId = s := by simpa using hr
  refine ⟨(hmem r).mp (by simp [heq]), hsession, ?_⟩
  intro q hq hqs
  have hq' := (hmem q).mpr hq
  rw [heq] at hq' hsorted
  rcases List.mem_append.mp hq' with hin | hin
  · exact absurd (hbefore q hin) (by simp [hqs])
  · rcases List.mem_cons.mp hin with rfl | hin
    · exact le_rfl
    · have hrel := (List.pairwise_cons.mp (List.pairwise_append.mp hsorted).2.1).1 q hin
      rcases hrel with hlt | ⟨-, hle⟩
      · rw [hsession, hqs] at hlt
        exact absurd hlt (Nat.lt_irrefl s)
      · exact hle

/-- The rows of the dictionary are those that come first among the rows of their
session. -/
theorem mem_foldl_keepFirst {rows latest : List ReviewRow} {r : ReviewRow} :
    r ∈ rows.foldl keepFirst latest ↔
      r ∈ latest ∨ (∀ q ∈ latest, q.sessionId ≠ r.sessionId) ∧
        rows.find? (fun q => q.sessionId = r.sessionId) = some r := by
  induction rows generalizing latest with
  | nil => simp
  | cons q rows ih =>
      rw [List.foldl_cons, ih, keepFirst]
      by_cases hknown : latest.any (fun p => p.sessionId = q.sessionId)
      · rw [if_pos hknown]
        obtain ⟨p, hp, hpq⟩ := List.any_eq_true.mp hknown
        rw [decide_eq_true_eq] at hpq
        apply or_congr_right
        apply and_congr_right
        intro hfresh
        have hne : q.sessionId ≠ r.sessionId := hpq ▸ hfresh p hp
        rw [List.find?_cons_of_neg (by simpa using hne)]
      · rw [if_neg hknown]
        by_cases hqr : q.sessionId = r.sessionId
        · rw [List.find?_cons_of_pos (by simpa using hqr)]
          rw [Option.some.injEq]
          simp only [List.any_eq_true, decide_eq_true_eq, not_exists, not_and] at hknown
          constructor
          · rintro (hmem | ⟨hfresh, -⟩)
            · rcases List.mem_append.mp hmem with hmem | hmem
              · exact Or.inl hmem
              · obtain rfl := List.mem_singleton.mp hmem
                exact Or.inr ⟨hknown, rfl⟩
            · exact absurd hqr (hfresh q (by simp))
          · rintro (hmem | ⟨-, rfl⟩)
            · exact Or.inl (List.mem_append_left _ hmem)
            · exact Or.inl (by simp)
        · rw [List.find?_cons_of_neg (by simpa using hqr)]
          have hother : r ∈ latest ++ [q] ↔ r ∈ latest := by
            constructor
            · intro hmem
              rcases List.mem_append.mp hmem with hmem | hmem
              · exact hmem
              · exact absurd (by rw [List.mem_singleton.mp hmem]) hqr
            · exact List.mem_append_left _
          have hall : (∀ p ∈ latest ++ [q], p.sessionId ≠ r.sessionId) ↔
              ∀ p ∈ latest, p.sessionId ≠ r.sessionId := by
            simp only [List.forall_mem_append, List.forall_mem_singleton]
            exact and_iff_left hqr
          rw [hother, hall]

/-- The dictionary holds the latest review of each session of the list. -/
theorem mem_latest {b : Board} (htables : TablesInv b) {ids : List SessionId}
    {r : ReviewRow} :
    r ∈ (newestFirst (b.reviews.filter fun q => q.sessionId ∈ ids)).foldl keepFirst [] ↔
      r.sessionId ∈ ids ∧ latestReview (b.reviewsOf r.sessionId) = some r := by
  have hmem : ∀ {s q}, q ∈ b.reviewsOf s ↔ q ∈ b.reviews ∧ q.sessionId = s := by
    intro s q
    simp [Board.reviewsOf]
  have hchain := (htables.chain r.sessionId).latestReview_iff
  rw [mem_foldl_keepFirst, hchain]
  simp only [List.not_mem_nil, false_or, IsEmpty.forall_iff, implies_true, true_and]
  constructor
  · intro hfind
    obtain ⟨hr, -, hmax⟩ := find_newestFirst hfind
    obtain ⟨hr, hids⟩ := List.mem_filter.mp hr
    have hids : r.sessionId ∈ ids := by simpa using hids
    refine ⟨hids, hmem.mpr ⟨hr, rfl⟩, ?_⟩
    intro q hq
    obtain ⟨hq, hqs⟩ := hmem.mp hq
    exact hmax q (List.mem_filter.mpr ⟨hq, by simpa [hqs] using hids⟩) hqs
  · rintro ⟨hids, hr, hmax⟩
    have hin : r ∈ newestFirst (b.reviews.filter fun q => q.sessionId ∈ ids) := by
      apply (List.mem_insertionSort _).mpr
      exact List.mem_filter.mpr ⟨(hmem.mp hr).1, by simpa using hids⟩
    obtain ⟨q, hq⟩ : ∃ q, (newestFirst (b.reviews.filter fun q => q.sessionId ∈ ids)).find?
        (fun q => q.sessionId = r.sessionId) = some q :=
      Option.isSome_iff_exists.mp (List.find?_isSome.mpr ⟨r, hin, by simp⟩)
    obtain ⟨hq', hqs, hqmax⟩ := find_newestFirst hq
    have hqr := (hchain q).mpr ⟨hmem.mpr ⟨(List.mem_filter.mp hq').1, hqs⟩, ?_⟩
    · rw [(hchain r).mpr ⟨hr, hmax⟩] at hqr
      rw [hq, Option.some.inj hqr]
    · intro p hp
      obtain ⟨hp, hps⟩ := hmem.mp hp
      exact hqmax p (List.mem_filter.mpr ⟨hp, by simpa [hps] using hids⟩) hps

/-! ## Agreement -/

/-- An appeal that holds the review back. -/
def Board.Held (b : Board) (r : ReviewRow) : Prop :=
  ∃ a ∈ b.appeals, a.reviewId = r.id ∧ a.status.isHeld = true

/-- The review is about the evidence that `review_context` finds now. -/
def Board.Current (b : Board) (r : ReviewRow) : Prop :=
  ∃ context, b.contextOf r.sessionId = .ok context ∧
    r.packetDigest = context.assessment.packetDigest ∧
    r.sourceDigest = context.job.ident.sourceDigest.1

/-- The latest review of the session is current unless it is held back. -/
def Board.LatestCurrent (b : Board) (s : SessionId) : Prop :=
  b.service.publicationAllowed = true →
    ∀ r, latestReview (b.reviewsOf s) = some r → ¬ b.Held r → b.Current r

section

variable {b : Board} {s : SessionId} {p : Board.Published}

theorem latestReview_sessionId (htables : TablesInv b) {r : ReviewRow}
    (h : latestReview (b.reviewsOf s) = some r) : r.sessionId = s := by
  obtain ⟨hr, -⟩ := ((htables.chain s).latestReview_iff r).mp h
  simpa using (List.mem_filter.mp hr).2

theorem mem_publishedReviewsForSessions (htables : TablesInv b) {ids : List SessionId} :
    (s, p) ∈ b.publishedReviewsForSessions ids ↔
      b.service.publicationAllowed = true ∧ s ∈ ids ∧
        ∃ r, latestReview (b.reviewsOf s) = some r ∧ ¬ b.Held r ∧ p = Board.publish r := by
  rw [Board.publishedReviewsForSessions]
  split_ifs with hnone
  · simp only [List.not_mem_nil, false_iff]
    rintro ⟨hallowed, hs, -⟩
    rcases hnone with hnone | hnone
    · simp [hallowed] at hnone
    · simp [hnone] at hs
  rw [not_or, Bool.not_eq_false] at hnone
  dsimp only
  rw [List.mem_map]
  constructor
  · rintro ⟨r, hr, heq⟩
    obtain ⟨rfl, rfl⟩ := Prod.mk.inj heq
    obtain ⟨hr, hheld⟩ := List.mem_filter.mp hr
    obtain ⟨hids, hlatest⟩ := (mem_latest htables).mp hr
    refine ⟨hnone.1, hids, r, hlatest, ?_, rfl⟩
    rintro ⟨a, ha, hreview, hstatus⟩
    rw [Bool.not_eq_true', ← Bool.not_eq_true, List.contains_iff_mem] at hheld
    apply hheld
    apply List.mem_map.mpr
    refine ⟨a, List.mem_filter.mpr ⟨ha, ?_⟩, hreview⟩
    rw [hreview, hstatus, Bool.and_true, List.contains_iff_mem]
    exact List.mem_map_of_mem hr
  · rintro ⟨-, hids, r, hlatest, hheld, rfl⟩
    obtain rfl := latestReview_sessionId htables hlatest
    refine ⟨r, List.mem_filter.mpr ⟨(mem_latest htables).mpr ⟨hids, hlatest⟩, ?_⟩, rfl⟩
    rw [Bool.not_eq_true', ← Bool.not_eq_true, List.contains_iff_mem]
    intro hmem
    obtain ⟨a, ha, hreview⟩ := List.mem_map.mp hmem
    obtain ⟨ha, hstatus⟩ := List.mem_filter.mp ha
    rw [Bool.and_eq_true] at hstatus
    exact hheld ⟨a, ha, hreview, hstatus.2⟩

/-- A review has one appeal at most, so its appeal holds it when some appeal does. -/
theorem appealOf_isHeld (htables : TablesInv b) (r : ReviewRow) :
    (b.appealOf r.id).any (fun a => a.status.isHeld) = true ↔ b.Held r := by
  rw [Option.any_eq_true]
  constructor
  · rintro ⟨a, ha, hstatus⟩
    have hreview := List.find?_some ha
    exact ⟨a, List.mem_of_find?_eq_some ha, by simpa using hreview, hstatus⟩
  · rintro ⟨a, ha, hreview, hstatus⟩
    obtain ⟨a', ha'⟩ : ∃ a', b.appealOf r.id = some a' :=
      Option.isSome_iff_exists.mp (List.find?_isSome.mpr ⟨a, ha, by simpa using hreview⟩)
    have hreview' : a'.reviewId = r.id := by simpa using List.find?_some ha'
    have heq := List.inj_on_of_nodup_map htables.appealReviews
      (List.mem_of_find?_eq_some ha') ha (hreview'.trans hreview.symm)
    exact ⟨a', ha', by rwa [heq]⟩

theorem candidateReviewStatus_eq_some (htables : TablesInv b) :
    b.candidateReviewStatus s = .ok (some p) ↔
      b.service.publicationAllowed = true ∧
        ∃ r, latestReview (b.reviewsOf s) = some r ∧ ¬ b.Held r ∧ b.Current r ∧
          p = Board.publish r := by
  rw [Board.candidateReviewStatus]
  split_ifs with hclosed
  · simp [hclosed]
  rw [Bool.not_eq_false] at hclosed
  constructor
  · intro h
    split at h
    · simp at h
    · simp at h
    · rename_i context hcontext
      rcases hlatest : latestReview (b.reviewsOf s) with _ | r
      · simp [hlatest] at h
      · simp only [hlatest] at h
        split_ifs at h with hstale hheld
        · simp at h
        · simp at h
        obtain ⟨hpacket, hsource⟩ := not_or.mp hstale
        rw [appealOf_isHeld htables] at hheld
        rw [Except.ok.injEq, Option.some.injEq] at h
        obtain rfl := latestReview_sessionId htables hlatest
        exact ⟨hclosed, r, rfl, hheld,
          ⟨context, hcontext, not_ne_iff.mp hpacket, not_ne_iff.mp hsource⟩, h.symm⟩
  · rintro ⟨-, r, hlatest, hheld, ⟨context, hcontext, hpacket, hsource⟩, rfl⟩
    obtain rfl := latestReview_sessionId htables hlatest
    rw [← appealOf_isHeld htables] at hheld
    simp [hcontext, hlatest, hpacket, hsource, hheld]

/-- Both projections show the same review of each session of the list. -/
def Board.ProjectionsAgree (b : Board) (ids : List SessionId) : Prop :=
  ∀ s ∈ ids, ∀ p, (s, p) ∈ b.publishedReviewsForSessions ids ↔
    b.candidateReviewStatus s = .ok (some p)

theorem projectionsAgree_iff (htables : TablesInv b) {ids : List SessionId} :
    b.ProjectionsAgree ids ↔ ∀ s ∈ ids, b.LatestCurrent s := by
  simp only [Board.ProjectionsAgree, mem_publishedReviewsForSessions htables,
    candidateReviewStatus_eq_some htables]
  constructor
  · intro hagree s hs hallowed r hlatest hheld
    obtain ⟨-, r', hlatest', -, hcurrent, -⟩ :=
      (hagree s hs (Board.publish r)).mp ⟨hallowed, hs, r, hlatest, hheld, rfl⟩
    rwa [Option.some.inj (hlatest.symm.trans hlatest')]
  · intro hcurrent s hs p
    constructor
    · rintro ⟨hallowed, -, r, hlatest, hheld, hp⟩
      exact ⟨hallowed, r, hlatest, hheld, hcurrent s hs hallowed r hlatest hheld, hp⟩
    · rintro ⟨hallowed, r, hlatest, hheld, -, hp⟩
      exact ⟨hallowed, hs, r, hlatest, hheld, hp⟩

end

/-- In every reachable state the projections agree exactly on the lists of sessions
whose latest reviews, unless held back, are current. -/
theorem published_reviews_agree_iff_current (service : Service)
    (sessions : SessionId → Option SessionRow) (jobs : SessionId → Option SubmittedJob)
    (evaluations : SessionId → Option Evaluation) (actions : List BoardAction)
    (ids : List SessionId) :
    (run boardAct (freshBoard service sessions jobs evaluations) actions).ProjectionsAgree
        ids ↔
      ∀ s ∈ ids, (run boardAct (freshBoard service sessions jobs evaluations)
        actions).LatestCurrent s := by
  apply projectionsAgree_iff
  exact (invariant_run_of_step BoardInv (fun _ a hi => boardAct_inv hi a)
    (freshBoard_inv service sessions jobs evaluations)).tables

def samplePacket : Packet where
  sessionId := lit "s"
  challengeSlug := lit "demo"
  challengeVersion := some (lit "3")
  rubricVersion := rubricVersion
  aiAvailable := false
  aiContext := .null
  sourceDigest := none
  evidence := [defenseItem (lit "0", lit "Because")]

def sampleEvaluation : Evaluation where
  assessment := some samplePacket.assessed
  defendAnswers := [(lit "0", lit "Because")]
  questions := 1
  gradingReviewId := none

def sampleJob (result : Json) : SubmittedJob where
  ident := sampleIdentity
  row := { enqueueGradingJob 0 with
    status := .completed
    leaseToken := sampleIdentity.leaseToken
    result := some result }

def sampleService (version : String) : Service where
  inventories := sampleInventories
  key := sampleKey
  challengeVersionFor _ := lit version
  sourceVerified _ := true
  publicationAllowed := true

def sampleSession : SessionRow := ⟨some 1, some (lit "3"), true⟩

/-- The lowest ratings, each citing everything. -/
def sampleRating : DimensionReview :=
  ⟨0, lit "Reviewed", [sourceSubmitted, lit "evaluation:trusted", lit "defend:0"],
    by decide, by decide⟩

def sampleReview (result : Json) : ReviewRequest where
  session := 0
  user := ⟨2, true⟩
  packetDigest := (installEvidence samplePacket (sampleJob result) result).digest
  dimensions := [.correctness, .investigation, .fixQuality, .verification,
    .communication].map fun d => (Dimension.key d, sampleRating)
  manualChecks := [(lit "Explain the design", sampleRating)]

def sampleBoard (result : Json) : Board :=
  freshBoard (sampleService "3") (fun _ => some sampleSession)
    (fun _ => some (sampleJob result)) (fun _ => some sampleEvaluation)

/-- The review is stored, and the challenge gets another version. -/
def sampleActions (result : Json) : List BoardAction :=
  appendReview 0 (sampleReview result) ++ [.deploy (sampleService "4")]

theorem rating_sampleReview (result : Json) (d : Dimension) :
    (sampleReview result).review.rating d =
      if d = .aiLeverage then none else some sampleRating := by
  rcases d with _ | _ | _ | _ | _ | _ <;> rfl

def sampleInstalled (result : Json) : Packet :=
  installEvidence samplePacket (sampleJob result) result

theorem evidence_sampleInstalled (result : Json) :
    (sampleInstalled result).evidence =
      [⟨lit "defend:0", .candidateStatement, none, jsonHash (.str (lit "Because"))⟩,
        ⟨lit "source:submitted", .submittedSource, none, sampleIdentity.sourceDigest.1⟩,
        ⟨lit "evaluation:trusted", .externalEvaluation, none, jsonHash result⟩] := by
  have hdefend : lit "defend:" ++ lit "0" = lit "defend:0" := by decide +kernel
  simp [sampleInstalled, installEvidence, samplePacket, defenseItem, hdefend,
    sourceSubmitted, sampleJob]

theorem citesEvidence_sample (result : Json) :
    citesEvidence (sampleInstalled result).evidence sampleRating.evidenceIds = true := by
  rw [citesEvidence_iff, evidence_sampleInstalled]
  simp [sampleRating, sourceSubmitted, lit_inj]

theorem citesSome_sample (result : Json) :
    citesSome (sampleInstalled result).evidence sampleRating.evidenceIds
        (fun e => e.kind = .externalEvaluation) = true ∧
      citesSome (sampleInstalled result).evidence sampleRating.evidenceIds
        (fun e => e.kind = .candidateStatement) = true := by
  rw [evidence_sampleInstalled]
  simp [citesSome, sampleRating, sourceSubmitted, lit_inj]

theorem exists_reviewOutcome_sample (result score : Json) :
    ∃ outcome, reviewOutcome [lit "Explain the design"] score
      (sampleInstalled result).assessed (sampleReview result).review
      (sampleReview result).manualChecks = .ok outcome := by
  have hcites := citesEvidence_sample result
  obtain ⟨hexternal, hstatement⟩ := citesSome_sample result
  obtain ⟨dimensions, hdimensions⟩ : ∃ dimensions, Dimension.all.mapM
      (reviewDimension (sampleInstalled result) (sampleReview result).review) =
        .ok dimensions := by
    apply exists_mapM_ok
    intro d _
    rw [reviewDimension, rating_sampleReview]
    by_cases h : d = .aiLeverage
    · simp [h]
    · simp [h, hcites, hexternal]
  have hkeys : sameKeys ((sampleReview result).review.dimensions.map Prod.fst)
      ((sampleInstalled result).dimensions.map Dimension.key) = true := by
    apply sameKeys_iff.mpr
    intro k
    rfl
  have hids : ((sampleInstalled result).evidence.map EvidenceItem.id).Nodup := by
    rw [evidence_sampleInstalled]
    simp [lit_inj]
  obtain ⟨scored, hscored⟩ : ∃ scored, scoreReviewedAssessment
      (sampleInstalled result).assessed (sampleReview result).review = .ok scored := by
    refine ⟨⟨reviewTotal dimensions, ratedWeight dimensions,
      (sampleReview result).review.reviewerId, (sampleReview result).review.packetDigest,
      dimensions, false, false, []⟩, ?_⟩
    rw [scoreReviewedAssessment]
    apply ite_error_eq_ok.mpr
    refine ⟨?_, ?_⟩
    · simp only [not_or, not_ne_iff]
      exact ⟨rfl, rfl, rfl, rfl⟩
    apply ite_error_eq_ok.mpr
    refine ⟨ne_of_eq_of_ne hkeys (by simp), ?_⟩
    apply ite_error_eq_ok.mpr
    refine ⟨not_not.mpr hids, ?_⟩
    exact bind_eq_ok.mpr ⟨dimensions, hdimensions, rfl⟩
  have hmanual : (sampleReview result).manualChecks.all (fun c =>
      manualCheckOk (sampleInstalled result).evidence c.2) = true := by
    rw [show (sampleReview result).manualChecks =
      [(lit "Explain the design", sampleRating)] from rfl]
    simp only [List.all_cons, List.all_nil, Bool.and_true, manualCheckOk, hcites]
    rfl
  refine ⟨{ scored with
    unmetBehavior := scoreBelowHundred score
    unmetManual := true
    manualChecks := (sampleReview result).manualChecks }, ?_⟩
  rw [reviewOutcome]
  simp only [ite_error_eq_ok, Bool.not_eq_false]
  refine ⟨rfl, hmanual, ?_, ?_, ?_, ?_, ?_⟩
  · rw [ownershipCited, rating_sampleReview]
    exact hstatement
  · rw [oversightCited, rating_sampleReview]
    rfl
  · rw [withinZeroCap, rating_sampleReview]
    exact Bool.or_true _
  · rw [withinPartialCap, rating_sampleReview]
    exact Bool.or_true _
  · apply bind_eq_ok.mpr
    refine ⟨scored, hscored, ?_⟩
    apply ite_error_eq_ok.mpr
    refine ⟨?_, rfl⟩
    rw [qualityCited, rating_sampleReview]
    simp [sampleRating]

/-- The envelope of the sample submission. -/
def sampleResult : Json :=
  ((evaluateSnapshot sampleInventories sampleKey sampleIdentity
    (manifestDigest sampleManifest) (lit "source") (some sampleSource)
    sampleObserve).toOption).getD .null

theorem verifyResult_sampleResult : ∃ results score,
    verifyResult sampleInventories sampleKey sampleIdentity sampleResult =
      .ok (.obj (payloadFields sampleInventories sampleIdentity
        ((sampleInventories.casesFor (lit "demo")).getD []) results score)) := by
  obtain ⟨result, hresult⟩ := exists_evaluateSnapshot evaluable_sample
  obtain ⟨cases, results, score, hcases, hgrades, hscore, hsign⟩ :=
    signResult_of_evaluateSnapshot hresult
  have hverify := verifyResult_signResult hcases hgrades hscore hsign
  obtain rfl : (sampleInventories.casesFor (lit "demo")).getD [] = cases := by
    rw [show lit "demo" = sampleIdentity.challengeSlug.1 from rfl, hcases]
    rfl
  rw [sampleResult, hresult]
  exact ⟨results, score, hverify⟩

theorem reviewContext_sample {result payload : Json}
    (h : verifyResult sampleInventories sampleKey sampleIdentity result = .ok payload) :
    reviewContext (sampleService "3") sampleSession (some (sampleJob result))
        (some sampleEvaluation) =
      .ok ⟨sampleJob result, sampleEvaluation, payload,
        (sampleInstalled result).assessed⟩ := by
  have hident : (sampleJob result).ident.leased (sampleJob result).row.leaseToken =
    sampleIdentity := rfl
  have hstatus : (sampleJob result).row.status = .completed := rfl
  have hresult : (sampleJob result).row.result = some result := rfl
  simp only [reviewContext, hstatus, hresult]
  rw [hident]
  refine (if_neg (not_not.mpr rfl)).trans ?_
  refine (if_neg (not_or.mpr ⟨by simp [sampleService], not_not.mpr rfl⟩)).trans ?_
  simp only [sampleService, h, sampleEvaluation]
  apply if_neg
  simp only [not_or, not_ne_iff]
  exact ⟨rfl, rfl, rfl⟩

theorem challengeVersion_of_reviewContext {service : Service} {session : SessionRow}
    {job : SubmittedJob} {evaluation : Option Evaluation} {context : ReviewContext}
    (h : reviewContext service session (some job) evaluation = .ok context) :
    job.ident.challengeVersion.1 =
      service.challengeVersionFor job.ident.challengeSlug.1 := by
  rcases evaluation with _ | evaluation
  · simp [reviewContext] at h
  rw [reviewContext] at h
  split at h
  · obtain ⟨hversion, -⟩ := ite_error_eq_ok.mp h
    exact not_ne_iff.mp hversion
  · simp at h

/-- After the deployment the list still shows the review, the report does not. -/
theorem not_projectionsAgree_sample {result : Json} {results : List CaseResult}
    {score : PyFloat}
    (hverify : verifyResult sampleInventories sampleKey sampleIdentity result =
      .ok (.obj (payloadFields sampleInventories sampleIdentity
        ((sampleInventories.casesFor (lit "demo")).getD []) results score))) :
    ¬ (run boardAct (sampleBoard result) (sampleActions result)).ProjectionsAgree [0] := by
  obtain ⟨outcome, houtcome⟩ := exists_reviewOutcome_sample result (.float score)
  have hcontext := reviewContext_sample hverify
  obtain ⟨hreviews, happeals, -, -, hjobs, -⟩ :=
    run_appendReview (b := sampleBoard result) (c := 0) (sampleReview result)
      sampleSession rfl rfl rfl rfl hcontext houtcome (by simp [sampleBoard, freshBoard])
  have htables : TablesInv (run boardAct (sampleBoard result)
      (sampleActions result)) :=
    (invariant_run_of_step BoardInv (fun _ a hi => boardAct_inv hi a)
      (freshBoard_inv _ _ _ _)).tables
  rw [projectionsAgree_iff htables]
  intro hcurrent
  generalize hshown : run boardAct (sampleBoard result)
    (appendReview 0 (sampleReview result)) = b at *
  have hrun : run boardAct (sampleBoard result) (sampleActions result) =
      { b with service := sampleService "4" } := by
    rw [sampleActions, run_append, hshown]
    rfl
  rw [hrun] at hcurrent
  obtain ⟨r, hlatest, hsession⟩ : ∃ r, latestReview
      (Board.reviewsOf { b with service := sampleService "4" } 0) = some r ∧
        r.sessionId = 0 := by
    rw [Board.reviewsOf, hreviews]
    exact ⟨_, rfl, rfl⟩
  obtain ⟨context, hok, -⟩ := hcurrent 0 (by simp) rfl _ hlatest (by
    rintro ⟨a, ha, -⟩
    rw [happeals] at ha
    cases ha)
  obtain ⟨session, -, hok⟩ := bind_eq_ok.mp hok
  dsimp only at hok
  rw [hjobs] at hok
  have hversion := challengeVersion_of_reviewContext hok
  simp [sampleService, sampleJob, sampleIdentity, lit_inj] at hversion

theorem projections_disagree :
    ¬ (run boardAct (sampleBoard sampleResult) (sampleActions sampleResult)).ProjectionsAgree
      [0] := by
  obtain ⟨results, score, hverify⟩ := verifyResult_sampleResult
  exact not_projectionsAgree_sample hverify

end PromptCode
