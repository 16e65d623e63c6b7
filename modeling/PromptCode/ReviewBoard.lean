import PromptCode.Assessment

/-!
# Reviews, appeals and decisions

The requests that store reviews of a session, change its defense answers, appeal
against a review and decide an appeal, statement by statement, with the row locks
that they hold to their commit and the unique constraints of their tables.
-/

namespace PromptCode

open Py FileTree Transition

/-! ## Tables -/

/-- `interview_grade_reviews`. -/
structure ReviewRow where
  id : RowId
  sessionId : SessionId
  reviewerId : UserId
  revision : ℕ
  packetDigest : Str
  sourceDigest : Str
  review : HumanReview
  outcome : ReviewOutcome
  supersedesId : Option RowId

inductive AppealStatus where
  | pending | upheld | reReviewRequired
  deriving DecidableEq

/-- `interview_grade_appeals`. -/
structure AppealRow where
  id : RowId
  sessionId : SessionId
  reviewId : RowId
  candidateId : UserId
  reason : Str
  status : AppealStatus
  deriving DecidableEq

/-- `interview_appeal_decisions`. -/
structure DecisionRow where
  id : RowId
  appealId : RowId
  reviewerId : UserId
  disposition : AppealStatus
  reason : Str
  deriving DecidableEq

/-- The review with the highest revision. -/
def latestReview (rows : List ReviewRow) : Option ReviewRow :=
  rows.foldl (fun best r =>
    match best with
    | none => some r
    | some b => if b.revision < r.revision then some r else some b) none

/-- `status in ("pending", "re_review_required")`. -/
def AppealStatus.isHeld (s : AppealStatus) : Bool := s = .pending || s = .reReviewRequired

/-! ## Requests -/

structure ReviewRequest where
  session : SessionId
  user : User
  packetDigest : Str
  dimensions : List (Str × DimensionReview)
  manualChecks : List (Str × DimensionReview)

/-- The text of a user's identifier. -/
def userText (u : UserId) : Str := jsonNat u

/-- `create_review`: the reviewer is always the user that sends the request. -/
def ReviewRequest.review (req : ReviewRequest) : HumanReview where
  reviewerId := userText req.user.id
  packetDigest := req.packetDigest
  rubricVersion := rubricVersion
  dimensions := req.dimensions

structure AppealRequest where
  session : SessionId
  user : User
  reviewId : RowId
  reason : Str

structure DecisionRequest where
  appealId : RowId
  user : User
  /-- `true` for `upheld`. -/
  upheld : Bool
  reason : Str

def DecisionRequest.disposition (req : DecisionRequest) : AppealStatus :=
  if req.upheld then .upheld else .reReviewRequired

/-- Where a request is between its statements. -/
inductive BoardPhase where
  | idle
  /-- `append_review` holds the lock of the session. -/
  | reviewing (req : ReviewRequest) (session : SessionRow)
  | reviewingJob (req : ReviewRequest) (session : SessionRow) (job : Option SubmittedJob)
  /-- It also holds the lock of the evaluation, and the review is scored. -/
  | scored (req : ReviewRequest) (context : ReviewContext) (outcome : ReviewOutcome)
  | numbered (req : ReviewRequest) (context : ReviewContext) (outcome : ReviewOutcome)
      (previous : Option ReviewRow)
  /-- `post_defend_answer` holds the lock of the session. -/
  | answering (session : SessionId) (index : ℕ) (answer : Str)
  /-- It also holds the lock of the evaluation. -/
  | revised (session : SessionId) (evaluation : Evaluation)
  /-- `create_appeal` holds the lock of the session. -/
  | appealing (req : AppealRequest)
  | appealFound (req : AppealRequest)
  | appealLatest (req : AppealRequest)
  | appealFresh (req : AppealRequest)
  | appealPublished (req : AppealRequest)
  /-- `decide_appeal` holds the lock of the appeal. -/
  | deciding (req : DecisionRequest) (appeal : AppealRow)
  | decided (req : DecisionRequest) (appeal : AppealRow)

structure Board where
  service : Service
  sessions : SessionId → Option SessionRow
  jobs : SessionId → Option SubmittedJob
  evaluations : SessionId → Option Evaluation
  reviews : List ReviewRow
  appeals : List AppealRow
  decisions : List DecisionRow
  nextId : RowId
  sessionLock : SessionId → Option ℕ
  evaluationLock : SessionId → Option ℕ
  appealLock : RowId → Option ℕ
  phase : ℕ → BoardPhase

inductive BoardAction where
  | review (c : ℕ) (req : ReviewRequest)
  | answer (c : ℕ) (user : User) (session : SessionId) (index : ℕ) (answer : Str)
  | appeal (c : ℕ) (req : AppealRequest)
  | decide (c : ℕ) (req : DecisionRequest)
  /-- The next statement of a request. -/
  | next (c : ℕ)
  /-- The request ends without a commit. -/
  | abort (c : ℕ)
  /-- Another transaction that holds the lock of the session until it commits: the
  submission itself, the completion or the retry of the grading job. -/
  | other (session : SessionId) (job : Option SubmittedJob)
      (evaluation : Option Evaluation)
  /-- The service is deployed with other settings or challenges. -/
  | deploy (service : Service)

namespace Board

variable (b : Board)

def reviewsOf (s : SessionId) : List ReviewRow := b.reviews.filter fun r => r.sessionId = s

/-- The appeal against a review. -/
def appealOf (reviewId : RowId) : Option AppealRow :=
  b.appeals.find? fun a => a.reviewId = reviewId

def goto (c : ℕ) (p : BoardPhase) : Board :=
  { b with phase := Function.update b.phase c p }

/-- The locks of a client that ends its transaction. -/
def unlock (c : ℕ) (locks : ℕ → Option ℕ) (i : ℕ) : Option ℕ :=
  if locks i = some c then none else locks i

/-- The client ends its transaction; what it has committed is stored before. -/
def close (c : ℕ) : Board :=
  { b with
    sessionLock := unlock c b.sessionLock
    evaluationLock := unlock c b.evaluationLock
    appealLock := unlock c b.appealLock
    phase := Function.update b.phase c .idle }

/-- `SELECT .. FOR UPDATE` on the session. -/
def lockSession (c : ℕ) (s : SessionId) (p : BoardPhase) : Board :=
  if b.sessionLock s = none then
    { b with
      sessionLock := Function.update b.sessionLock s (some c)
      phase := Function.update b.phase c p }
  else b

/-- The client has the free lock of the evaluation. -/
def lockEvaluation (c : ℕ) (s : SessionId) (p : BoardPhase) : Board :=
  { b with
    evaluationLock := Function.update b.evaluationLock s (some c)
    phase := Function.update b.phase c p }

def storeEvaluation (s : SessionId) (evaluation : Evaluation) : Board :=
  { b with evaluations := Function.update b.evaluations s (some evaluation) }

/-- The inserted review and the evaluation that names it. -/
def insertReview (row : ReviewRow) (evaluation : Evaluation) : Board :=
  { b with
    reviews := b.reviews ++ [row]
    evaluations := Function.update b.evaluations row.sessionId (some evaluation)
    nextId := b.nextId + 1 }

def insertAppeal (row : AppealRow) : Board :=
  { b with
    appeals := b.appeals ++ [row]
    nextId := b.nextId + 1 }

/-- The inserted decision and the appeal that it closes. -/
def insertDecision (row : DecisionRow) : Board :=
  { b with
    decisions := b.decisions ++ [row]
    appeals := b.appeals.map fun a =>
      if a.id = row.appealId then { a with status := row.disposition } else a
    nextId := b.nextId + 1 }

/-! ### Projections -/

/-- `review_context` without locks. -/
def contextOf (s : SessionId) : Except PyErr ReviewContext := do
  let session ← openContext (b.sessions s) none
  reviewContext b.service session (b.jobs s) (b.evaluations s)

/-- What a candidate is shown of a review: its id, its revision and its outcome. -/
structure Published where
  reviewId : RowId
  revision : ℕ
  outcome : ReviewOutcome

def publish (r : ReviewRow) : Published := ⟨r.id, r.revision, r.outcome⟩

/-- `candidate_review_status`; an exception that is not an HTTP error propagates. -/
def candidateReviewStatus (s : SessionId) : Except PyErr (Option Published) :=
  if b.service.publicationAllowed = false then .ok none
  else
    match b.contextOf s with
    | .error (.http _ _) => .ok none
    | .error e => .error e
    | .ok context =>
        match latestReview (b.reviewsOf s) with
        | none => .ok none
        | some latest =>
            if latest.packetDigest ≠ context.assessment.packetDigest ∨
                latest.sourceDigest ≠ context.job.ident.sourceDigest.1 then .ok none
            else if (b.appealOf latest.id).any (fun a => a.status.isHeld) then .ok none
            else .ok (some (publish latest))

end Board

/-! ## Statements -/

/-- The list of texts in a payload. -/
def payloadTexts (payload : Json) (k : String) : List Str :=
  match payload with
  | .obj fields =>
      match fieldOf fields k with
      | .arr items => items.filterMap fun
          | .str s => some s
          | _ => none
      | _ => []
  | _ => []

def payloadScore : Json → Json
  | .obj fields => fieldOf fields "score_percent"
  | _ => .null

/-- The row that `append_review` inserts. -/
def ReviewRequest.row (req : ReviewRequest) (context : ReviewContext)
    (outcome : ReviewOutcome) (previous : Option ReviewRow) (id : RowId) : ReviewRow where
  id := id
  sessionId := req.session
  reviewerId := req.user.id
  revision := previous.elim 1 fun p => p.revision + 1
  packetDigest := req.packetDigest
  sourceDigest := context.job.ident.sourceDigest.1
  review := req.review
  outcome := outcome
  supersedesId := previous.map ReviewRow.id

/-- `post_defend_answer` on the evaluation it has locked. -/
def Evaluation.answer (evaluation : Evaluation) (index : ℕ) (text : Str) : Evaluation :=
  let answers := setAnswer evaluation.defendAnswers (jsonNat index) (text.take 4000)
  { evaluation with
    defendAnswers := answers
    assessment := evaluation.assessment.map fun a => reviseDefense a answers }

/-- The next statement of a request. -/
def boardNext (b : Board) (c : ℕ) : Board :=
  match b.phase c with
  | .idle => b
  | .reviewing req session => b.goto c (.reviewingJob req session (b.jobs req.session))
  | .reviewingJob req session job =>
      if b.evaluationLock req.session ≠ none then b
      else
        match reviewContext b.service session job (b.evaluations req.session) with
        | .error _ => b.close c
        | .ok context =>
            match reviewOutcome (payloadTexts context.payload "manual_requirements")
                (payloadScore context.payload) context.assessment req.review
                req.manualChecks with
            | .error _ => b.close c
            | .ok outcome =>
                b.lockEvaluation c req.session (.scored req context outcome)
  | .scored req context outcome =>
      b.goto c (.numbered req context outcome (latestReview (b.reviewsOf req.session)))
  | .numbered req context outcome previous =>
      let row := req.row context outcome previous b.nextId
      if b.reviews.any (fun r =>
          r.sessionId = row.sessionId && r.revision = row.revision) then
        b.close c
      else
        (b.insertReview row { context.evaluation with gradingReviewId := some row.id }).close
          c
  | .answering s index text =>
      if b.evaluationLock s ≠ none then b
      else
        match b.evaluations s with
        | none => b.close c
        | some evaluation =>
            if evaluation.questions ≤ index ∨ strip text = [] then b.close c
            else b.lockEvaluation c s (.revised s (evaluation.answer index text))
  | .revised s evaluation => (b.storeEvaluation s evaluation).close c
  | .appealing req =>
      match b.reviews.find? fun r => r.id = req.reviewId with
      | none => b.close c
      | some r =>
          if r.sessionId ≠ req.session then b.close c else b.goto c (.appealFound req)
  | .appealFound req =>
      match latestReview (b.reviewsOf req.session) with
      | none => b.close c
      | some latest =>
          if latest.id ≠ req.reviewId then b.close c else b.goto c (.appealLatest req)
  | .appealLatest req =>
      if (b.appealOf req.reviewId).isSome then b.close c
      else b.goto c (.appealFresh req)
  | .appealFresh req =>
      match b.candidateReviewStatus req.session with
      | .ok (some published) =>
          if published.reviewId ≠ req.reviewId then b.close c
          else b.goto c (.appealPublished req)
      | _ => b.close c
  | .appealPublished req =>
      if b.appeals.any (fun a => a.reviewId = req.reviewId) then b.close c
      else
        (b.insertAppeal
          ⟨b.nextId, req.session, req.reviewId, req.user.id, req.reason, .pending⟩).close c
  | .deciding req appeal =>
      match b.reviews.find? fun r => r.id = appeal.reviewId with
      | none => b.close c
      | some r =>
          if req.user.id = appeal.candidateId ∨ req.user.id = r.reviewerId ∨
              appeal.status ≠ .pending then b.close c
          else b.goto c (.decided req appeal)
  | .decided req appeal =>
      if b.decisions.any (fun d => d.appealId = appeal.id) then b.close c
      else
        (b.insertDecision
          ⟨b.nextId, appeal.id, req.user.id, req.disposition, req.reason⟩).close c

def boardAct (b : Board) : BoardAction → Board
  | .review c req =>
      match b.phase c with
      | .idle =>
          match openContext (b.sessions req.session) (some req.user) with
          | .ok session => b.lockSession c req.session (.reviewing req session)
          | .error _ => b
      | _ => b
  | .answer c user s index text =>
      match b.phase c with
      | .idle =>
          match b.sessions s with
          | some session =>
              if session.owner = some user.id ∧ session.isSubmitted then
                b.lockSession c s (.answering s index text)
              else b
          | none => b
      | _ => b
  | .appeal c req =>
      match b.phase c with
      | .idle =>
          match b.sessions req.session with
          | some session =>
              if session.owner = some req.user.id then
                b.lockSession c req.session (.appealing req)
              else b
          | none => b
      | _ => b
  | .decide c req =>
      match b.phase c with
      | .idle =>
          match b.appeals.find? fun a => a.id = req.appealId with
          | some appeal =>
              if req.user.isInterviewer ∧ b.appealLock appeal.id = none then
                { b with
                  appealLock := Function.update b.appealLock appeal.id (some c)
                  phase := Function.update b.phase c (.deciding req appeal) }
              else b
          | none => b
      | _ => b
  | .next c => boardNext b c
  | .abort c => b.close c
  | .other s job evaluation =>
      if b.sessionLock s = none ∧ b.evaluationLock s = none then
        { b with
          jobs := Function.update b.jobs s job
          evaluations := Function.update b.evaluations s evaluation }
      else b
  | .deploy service => { b with service := service }

/-- Submitted sessions without a review. -/
def freshBoard (service : Service) (sessions : SessionId → Option SessionRow)
    (jobs : SessionId → Option SubmittedJob)
    (evaluations : SessionId → Option Evaluation) : Board where
  service := service
  sessions := sessions
  jobs := jobs
  evaluations := evaluations
  reviews := []
  appeals := []
  decisions := []
  nextId := 0
  sessionLock := fun _ => none
  evaluationLock := fun _ => none
  appealLock := fun _ => none
  phase := fun _ => .idle

end PromptCode
