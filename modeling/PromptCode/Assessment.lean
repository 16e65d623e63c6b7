import PromptCode.GradingJobs

/-!
# Evidence packets and review outcomes

`grading.py` and `grading_review.py`: the packet of evidence of a session, what
`review_context` makes of it, and the outcome that a review by a person has.
-/

namespace PromptCode

open Py FileTree

/-! ## Packets -/

inductive EvidenceKind where
  | sessionObservation | advisoryExecution | candidateStatement | externalEvaluation
  | submittedSource
  deriving DecidableEq

def EvidenceKind.text : EvidenceKind → Str
  | .sessionObservation => lit "session_observation"
  | .advisoryExecution => lit "advisory_execution"
  | .candidateStatement => lit "candidate_statement"
  | .externalEvaluation => lit "external_evaluation"
  | .submittedSource => lit "submitted_source"

structure EvidenceItem where
  id : Str
  kind : EvidenceKind
  eventType : Option Str
  payloadDigest : Str
  deriving DecidableEq

structure Packet where
  sessionId : Str
  challengeSlug : Str
  challengeVersion : Option Str
  rubricVersion : Str
  aiAvailable : Bool
  aiContext : Json
  sourceDigest : Option Str
  evidence : List EvidenceItem

/-- `RUBRIC_VERSION`. -/
def rubricVersion : Str := lit "v4-research-pilot"

def optionalStr : Option Str → Json
  | none => .null
  | some s => .str s

/-- The keys that are absent rather than `None`. -/
def optionalField (k : String) : Option Str → List (Str × Json)
  | none => []
  | some s => [(lit k, .str s)]

def EvidenceItem.toJson (e : EvidenceItem) : Json :=
  .obj ([(lit "id", .str e.id), (lit "kind", .str e.kind.text)] ++
    optionalField "event_type" e.eventType ++
    [(lit "payload_digest", .str e.payloadDigest)])

def Packet.toJson (p : Packet) : Json :=
  .obj ([(lit "session_id", .str p.sessionId),
      (lit "challenge_slug", .str p.challengeSlug),
      (lit "challenge_version", optionalStr p.challengeVersion),
      (lit "rubric_version", .str p.rubricVersion),
      (lit "ai_available", .bool p.aiAvailable), (lit "ai_context", p.aiContext),
      (lit "evidence", .arr (p.evidence.map EvidenceItem.toJson))] ++
    optionalField "source_digest" p.sourceDigest)

/-- `_digest`. -/
def Packet.digest (p : Packet) : Str := jsonHash p.toJson

structure Assessment where
  packet : Packet
  packetDigest : Str

/-- The assessment of a packet, with its digest. -/
def Packet.assessed (p : Packet) : Assessment := ⟨p, p.digest⟩

/-! ## Defense answers -/

/-- `metrics["defend_answers"]`, by the text of the index. -/
abbrev Answers := List (Str × Str)

/-- Assignment to a key of the dictionary. -/
def setAnswer (answers : Answers) (k v : Str) : Answers :=
  if (answers.map Prod.fst).contains k then
    answers.map fun a => if a.1 = k then (k, v) else a
  else answers ++ [(k, v)]

def defenseItem (answer : Str × Str) : EvidenceItem where
  id := lit "defend:" ++ answer.1
  kind := .candidateStatement
  eventType := none
  payloadDigest := jsonHash (.str answer.2)

/-- `sorted(answers.items())`. -/
def sortedAnswers (answers : Answers) : Answers :=
  answers.insertionSort fun a b => a.1 ≤ b.1

/-- `revise_defense`. -/
def reviseDefense (assessment : Assessment) (answers : Answers) : Assessment :=
  Packet.assessed
    { assessment.packet with
      evidence :=
        assessment.packet.evidence.filter (fun e => e.kind ≠ .candidateStatement) ++
          (sortedAnswers answers).map defenseItem }

/-! ## Dimensions -/

inductive Dimension where
  | correctness | investigation | fixQuality | aiLeverage | verification
  | communication
  deriving DecidableEq

namespace Dimension

/-- `DIMENSIONS`, in its order. -/
def all : List Dimension :=
  [.correctness, .investigation, .fixQuality, .aiLeverage, .verification,
    .communication]

def key : Dimension → Str
  | .correctness => lit "A_correctness"
  | .investigation => lit "B_investigation"
  | .fixQuality => lit "C_fix_quality"
  | .aiLeverage => lit "D_ai_leverage"
  | .verification => lit "E_verification"
  | .communication => lit "F_communication"

def weight : Dimension → ℕ
  | .correctness => 30
  | .investigation => 15
  | .fixQuality => 15
  | .aiLeverage => 10
  | .verification => 20
  | .communication => 10

end Dimension

/-- The dimensions that a packet makes applicable. -/
def Packet.dimensions (p : Packet) : List Dimension :=
  Dimension.all.filter fun d => p.aiAvailable || d ≠ .aiLeverage

/-! ## Reviews -/

/-- A rating from 0 to 4 that cites evidence. -/
structure DimensionReview where
  rating : ℕ
  rationale : Str
  evidenceIds : List Str
  rating_le : rating ≤ 4
  cites : evidenceIds ≠ []
  deriving DecidableEq

structure HumanReview where
  reviewerId : Str
  packetDigest : Str
  rubricVersion : Str
  dimensions : List (Str × DimensionReview)

def HumanReview.rating (review : HumanReview) (d : Dimension) : Option DimensionReview :=
  review.dimensions.lookup d.key

structure ReviewOutcome where
  totalScore : PyFloat
  applicableWeight : ℕ
  reviewerId : Str
  packetDigest : Str
  dimensions : List (Dimension × Option DimensionReview)
  unmetBehavior : Bool
  unmetManual : Bool
  manualChecks : List (Str × DimensionReview)

/-- The ids are distinct and all in the packet. -/
def citesEvidence (evidence : List EvidenceItem) (ids : List Str) : Bool :=
  decide ids.Nodup && ids.all fun i => evidence.any fun e => e.id = i

/-- Some cited item has the property. -/
def citesSome (evidence : List EvidenceItem) (ids : List Str) (p : EvidenceItem → Bool) :
    Bool :=
  ids.any fun i => evidence.any fun e => e.id = i && p e

/-- The ratings times their weights. -/
def weightedRatings (dimensions : List (Dimension × Option DimensionReview)) : ℕ :=
  (dimensions.map fun d => d.1.weight * d.2.elim 0 DimensionReview.rating).sum

/-- The weights of the rated dimensions. -/
def ratedWeight (dimensions : List (Dimension × Option DimensionReview)) : ℕ :=
  (dimensions.map fun d => if d.2.isSome then d.1.weight else 0).sum

/-- `round(100 * weighted / denominator, 1)`: the quarters of the ratings are exact. -/
def reviewTotal (dimensions : List (Dimension × Option DimensionReview)) : PyFloat :=
  (PyFloat.trueDiv (25 * weightedRatings dimensions) (ratedWeight dimensions)).round 1

/-- The check of one dimension. -/
def reviewDimension (packet : Packet) (review : HumanReview) (d : Dimension) :
    Except PyErr (Dimension × Option DimensionReview) :=
  match review.rating d with
  | none => .ok (d, none)
  | some r =>
      if citesEvidence packet.evidence r.evidenceIds = false then
        .error (.value "Review cites unknown or duplicate evidence")
      else if d = .correctness ∧ citesSome packet.evidence r.evidenceIds
          (fun e => e.kind = .externalEvaluation) = false then
        .error (.value "Correctness requires verified external evaluation evidence")
      else .ok (d, some r)

/-- Both sets hold the same keys. -/
def sameKeys (ks ls : List Str) : Bool :=
  ks.all (fun k => ls.contains k) && ls.all fun k => ks.contains k

/-- `score_reviewed_assessment`. -/
def scoreReviewedAssessment (assessment : Assessment) (review : HumanReview) :
    Except PyErr ReviewOutcome :=
  let packet := assessment.packet
  if packet.rubricVersion ≠ PromptCode.rubricVersion ∨
      review.rubricVersion ≠ packet.rubricVersion ∨
      review.packetDigest ≠ packet.digest ∨
      review.packetDigest ≠ assessment.packetDigest then
    .error (.value "Review does not match the evidence revision")
  else if sameKeys (review.dimensions.map Prod.fst)
      (packet.dimensions.map Dimension.key) = false then
    .error (.value "Every applicable dimension must be reviewed exactly once")
  else if ¬ (packet.evidence.map EvidenceItem.id).Nodup then
    .error (.value "Duplicate evidence IDs")
  else do
    let dimensions ← Dimension.all.mapM (reviewDimension packet review)
    return ⟨reviewTotal dimensions, ratedWeight dimensions, review.reviewerId,
      review.packetDigest, dimensions, false, false, []⟩

/-! ## The checks of `append_review` -/

/-- Equality of a score with zero. -/
def scoreIsZero : Json → Bool
  | .int z => z = 0
  | .float x => x.eqInt 0
  | _ => false

/-- `score < 100`. -/
def scoreBelowHundred : Json → Bool
  | .int z => z < 100
  | .float (.finite x) => x.neg || x.units < Double.hundred.units
  | .float (.inf neg) => neg
  | _ => false

def sourceSubmitted : Str := lit "source:submitted"

/-- A manual check cites the submitted source among existing evidence. -/
def manualCheckOk (evidence : List EvidenceItem) (check : DimensionReview) : Bool :=
  citesEvidence evidence check.evidenceIds && check.evidenceIds.contains sourceSubmitted

def unmetManualCheck (checks : List (Str × DimensionReview)) : Bool :=
  checks.any fun c => c.2.rating < 3

/-- The citations that three dimensions need. -/
def ownershipCited (packet : Packet) (review : HumanReview) : Bool :=
  (review.rating .communication).all fun r => citesSome packet.evidence r.evidenceIds
    fun e => e.kind = .candidateStatement

def oversightCited (packet : Packet) (review : HumanReview) : Bool :=
  (review.rating .aiLeverage).all fun r => citesSome packet.evidence r.evidenceIds
    fun e => e.eventType = some (lit "ai_response")

def qualityCited (review : HumanReview) : Bool :=
  (review.rating .fixQuality).any fun r => r.evidenceIds.contains sourceSubmitted

/-- No passing check leaves the rating 0. -/
def withinZeroCap (score : Json) (review : HumanReview) : Bool :=
  (review.rating .correctness).all fun r => !scoreIsZero score || r.rating = 0

/-- An unmet requirement caps the rating at 2. -/
def withinPartialCap (score : Json) (checks : List (Str × DimensionReview))
    (review : HumanReview) : Bool :=
  (review.rating .correctness).all fun r =>
    !(scoreBelowHundred score || unmetManualCheck checks) || r.rating ≤ 2

/-- The outcome of a review against an authenticated payload; every failure is a
`ValueError`, which the route answers with 422. -/
def reviewOutcome (requirements : List Str) (score : Json) (assessment : Assessment)
    (review : HumanReview) (checks : List (Str × DimensionReview)) :
    Except PyErr ReviewOutcome :=
  if sameKeys (checks.map Prod.fst) requirements = false then
    .error (.value "Every evaluator coverage gap requires an explicit manual check")
  else if checks.all (fun c => manualCheckOk assessment.packet.evidence c.2) = false then
    .error (.value "Manual checks require cited submitted source evidence")
  else if ownershipCited assessment.packet review = false then
    .error (.value "Explanation and ownership require cited defense answers")
  else if oversightCited assessment.packet review = false then
    .error (.value "AI oversight requires cited assistant interaction evidence")
  else if withinZeroCap score review = false then
    .error (.value "No passing correctness checks requires correctness rating zero")
  else if withinPartialCap score checks review = false then
    .error (.value
      "Unmet functional or manual requirements cap correctness at partial")
  else do
    let outcome ← scoreReviewedAssessment assessment review
    if qualityCited review = false then
      .error (.value "Implementation quality requires submitted source evidence")
    else
      return { outcome with
        unmetBehavior := scoreBelowHundred score
        unmetManual := unmetManualCheck checks
        manualChecks := checks }

/-! ## The context of a review -/

/-- A session's identifier, and those of the users and the rows. -/
abbrev SessionId := ℕ
abbrev UserId := ℕ
abbrev RowId := ℕ

structure User where
  id : UserId
  isInterviewer : Bool

structure SessionRow where
  owner : Option UserId
  challengeVersion : Option Str
  isSubmitted : Bool

/-- The job row of a session. -/
structure SubmittedJob where
  ident : GradingIdentity
  row : GradingJob

structure Evaluation where
  assessment : Option Assessment
  defendAnswers : Answers
  questions : ℕ
  gradingReviewId : Option RowId

/-- The deployed service: its inventories, its key, the versions of its challenges,
which submissions the resolver finds unchanged, and whether ratings are published. -/
structure Service where
  inventories : Inventories
  key : Str
  challengeVersionFor : Str → Str
  sourceVerified : Str → Bool
  publicationAllowed : Bool

/-- The first checks of `review_context`. -/
def openContext (session : Option SessionRow) (user : Option User) :
    Except PyErr SessionRow :=
  if user.any (fun u => !u.isInterviewer) then
    .error (.http 403 "Reviewer access required")
  else
    match session with
    | none => .error (.http 404 "Session not found")
    | some row =>
        if user.any (fun u => row.owner = some u.id) then
          .error (.http 403 "Self-review is prohibited")
        else .ok row

/-- The packet with the authenticated evidence installed. -/
def installEvidence (packet : Packet) (job : SubmittedJob) (result : Json) : Packet :=
  { packet with
    evidence :=
      packet.evidence.filter (fun e =>
        e.kind ≠ .externalEvaluation ∧ e.kind ≠ .submittedSource) ++
        [⟨sourceSubmitted, .submittedSource, none, job.ident.sourceDigest.1⟩,
          ⟨lit "evaluation:trusted", .externalEvaluation, none, jsonHash result⟩]
    sourceDigest := some job.ident.sourceDigest.1 }

/-- What `review_context` yields besides the rows. -/
structure ReviewContext where
  job : SubmittedJob
  evaluation : Evaluation
  payload : Json
  assessment : Assessment

/-- The checks of `review_context` on the rows it has read. -/
def reviewContext (service : Service) (session : SessionRow) (job : Option SubmittedJob)
    (evaluation : Option Evaluation) : Except PyErr ReviewContext :=
  match job, evaluation with
  | some job, some evaluation =>
      match job.row.status, job.row.result with
      | .completed, some result =>
          if job.ident.challengeVersion.1 ≠
              service.challengeVersionFor job.ident.challengeSlug.1 then
            .error (.http 409 "Challenge evaluation version has changed")
          else if service.sourceVerified job.ident.sourceDigest.1 = false ∨
              session.challengeVersion ≠ some job.ident.challengeVersion.1 then
            .error (.http 409 "External evaluation provenance is invalid")
          else
            match verifyResult service.inventories service.key
                (job.ident.leased job.row.leaseToken) result with
            | .error .zeroDivision => .error .zeroDivision
            | .error _ => .error (.http 409 "External evaluation provenance is invalid")
            | .ok payload =>
                match evaluation.assessment with
                | none => .error (.http 409 "Evidence packet is unavailable")
                | some assessment =>
                    if assessment.packet.sessionId ≠ job.ident.sessionId.1 ∨
                        assessment.packet.challengeSlug ≠ job.ident.challengeSlug.1 ∨
                        assessment.packet.challengeVersion ≠
                          some job.ident.challengeVersion.1 then
                      .error (.http 409
                        "Evidence packet identity does not match submitted source")
                    else
                      .ok ⟨job, evaluation, payload,
                        (installEvidence assessment.packet job result).assessed⟩
      | _, _ => .error (.http 409 "Verified evaluation is not ready")
  | _, _ => .error (.http 409 "Verified evaluation is not ready")

end PromptCode
