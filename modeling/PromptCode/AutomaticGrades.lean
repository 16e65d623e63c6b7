import PromptCode.AutomatedGrading
import PromptCode.ReviewBoard

/-!
# Automatic grades

`interview_ai_grading.py` with the other writers of the evaluation: the bundle of evidence
that two judgments are made from, the state of the grading in the metrics of the evaluation,
and the statements of the workers and of the requests that change them.
-/

namespace PromptCode

open Py

/-! ## The bundle -/

structure RecordedEvent where
  id : Str
  eventType : Str
  payload : Json

structure AiMessage where
  id : Str
  role : Str
  content : Str

/-- What a bundle is made from besides the evaluation and the job. -/
structure GradingRecord where
  /-- The files of the submission, or the exception that reading them raises. -/
  source : Except PyErr (List (Str × Str))
  events : List RecordedEvent
  messages : List AiMessage

def maxBundleEvents : ℕ := 1000

def lockFileSuffixes : List Str := [lit ".lock", lit "package-lock.json", lit "yarn.lock"]

def observedEventTypes : List Str :=
  [lit "file_changed", lit "test_result", lit "file_viewed", lit "ai_prompt",
    lit "ai_edit_accepted", lit "ai_edit_modified", lit "ai_edit_rejected",
    lit "ai_provider_error"]

def submittedItems (source : List (Str × Str)) : List BundleItem :=
  (source.filter fun f => !lockFileSuffixes.any fun suffix => suffix.isSuffixOf f.1).map
    fun f => ⟨lit "source:" ++ f.1, lit "submitted_source", f.2⟩

/-- A defense answer as evidence. -/
def statementItem (answer : Str × Str) : BundleItem :=
  ⟨lit "defend:" ++ answer.1, lit "candidate_statement", answer.2⟩

/-- The packet has the event, with this payload. -/
def isObserved (evidence : List EvidenceItem) (event : RecordedEvent) : Bool :=
  ((evidence.reverse.find? fun e => e.id = lit "event:" ++ event.id).any fun e =>
    decide (e.payloadDigest = jsonHash event.payload)) &&
    decide (event.eventType ∈ observedEventTypes)

def observationItem (event : RecordedEvent) : BundleItem :=
  ⟨lit "event:" ++ event.id, lit "session_observation",
    (Json.obj [(lit "event_type", .str event.eventType),
      (lit "payload", event.payload)]).text spacedStyle⟩

def messageItem (message : AiMessage) : BundleItem :=
  ⟨lit "ai:" ++ message.id, lit "ai_interaction",
    (Json.obj [(lit "role", .str message.role),
      (lit "content", .str message.content)]).text spacedStyle⟩

def payloadCases : Json → List Json
  | .obj fields =>
      match fieldOf fields "cases" with
      | .arr items => items
      | _ => []
  | _ => []

def casePassed : Json → Bool
  | .obj fields =>
      match fieldOf fields "passed" with
      | .bool b => b
      | _ => false
  | _ => false

/-- The verified outcome, without tests, inputs or expected answers. -/
def trustedItem (payload : Json) : BundleItem :=
  ⟨lit "evaluation:trusted", lit "external_evaluation",
    (Json.obj [(lit "score_percent", payloadScore payload),
      (lit "passed_checks", .int ((payloadCases payload).countP casePassed)),
      (lit "total_checks", .int (payloadCases payload).length),
      (lit "manual_requirements", .arr ((payloadTexts payload "manual_requirements").map
        .str))]).text spacedStyle⟩

def scoreNumber : Json → Option PyNumber
  | .int z => some (.int z)
  | .float x => some (.float x)
  | _ => none

/-- `_bundle` -/
def gradingBundle (record : GradingRecord) (answers : Answers) (packet : Packet)
    (payload : Json) : Except PyErr EvidenceBundle :=
  match record.source, scoreNumber (payloadScore payload) with
  | .error e, _ => .error e
  | .ok _, none => .error .type
  | .ok source, some score =>
      if maxBundleEvents < record.events.length then
        .error (.value "Evidence exceeds bounded event context")
      else .ok {
        aiObserved := packet.aiAvailable
        evidence := submittedItems source ++ (sortedAnswers answers).map statementItem ++
          (record.events.filter (isObserved packet.evidence)).map observationItem ++
          (if packet.aiAvailable then record.messages.map messageItem else []) ++
          [trustedItem payload]
        behaviorPercent := score
        manualRequirements := payloadTexts payload "manual_requirements" }

/-! ## The evaluation -/

inductive AutoStatus where
  | queued | waitingDefense | running | retryPending | needsReview | automatedPractice
  deriving DecidableEq

structure AutoOutcome where
  packetDigest : Option Str
  sourceDigest : Str
  rubricVersion : Str
  promptVersion : Str
  judged : AutomatedOutcome

/-- What a grading that came to an end stores. -/
structure AutoResult where
  outcome : AutoOutcome
  defenseSnapshot : Answers
  passes : JudgeResponse × JudgeResponse

/-- `metrics["auto_grading"]` -/
structure AutoGrading where
  status : AutoStatus
  attempts : ℕ
  leaseToken : Option ℕ
  leaseUntil : Time
  nextAttemptAt : Time
  reason : Option String
  result : Option AutoResult

/-- The evaluation with what the metrics hold of automatic grading. -/
structure GradedEvaluation extends Evaluation where
  auto : Option AutoGrading
  history : List AutoGrading
  autoGradeRetries : ℕ
  aiFeedback : Option Str

/-- `PROMPT_VERSION` -/
def promptVersion : Str := lit "automated-rubric-v1"

/-- `MAX_ATTEMPTS` -/
def maxGradeAttempts : ℕ := 2

/-- `LEASE_SECONDS` -/
def gradeLease : Time := seconds 360

def defenseComplete (e : Evaluation) : Bool :=
  decide (0 < e.questions) &&
    (List.range e.questions).all fun i =>
      decide (strip ((e.defendAnswers.lookup (jsonNat i)).getD []) ≠ [])

def queueState (e : Evaluation) : AutoGrading where
  status := if defenseComplete e then .queued else .waitingDefense
  attempts := 0
  leaseToken := none
  leaseUntil := 0
  nextAttemptAt := 0
  reason := none
  result := none

/-- `history[-5:]` -/
def lastFive (history : List AutoGrading) : List AutoGrading :=
  history.drop (history.length - 5)

/-- The settings and rows that stay as they are. -/
structure GradeSetup where
  autoEnabled : Bool
  scoringVersion : Str
  service : Service
  session : SessionRow

/-- The versions whose assessment follows the answers. -/
def evidenceVersions : List Str := [lit "v3-evidence", rubricVersion]

namespace GradedEvaluation

variable (setup : GradeSetup) (e : GradedEvaluation)

/-- `post_defend_answer` -/
def postDefendAnswer (index : ℕ) (text : Str) : Except PyErr GradedEvaluation :=
  if e.questions ≤ index ∨ strip text = [] then
    .error (.http 400 "Invalid defense answer")
  else
    let answers := setAnswer e.defendAnswers (jsonNat index) (text.take 4000)
    if setup.scoringVersion ∉ evidenceVersions then .ok { e with defendAnswers := answers }
    else
      match e.assessment with
      -- `KeyError`
      | none => .error .type
      | some assessment =>
          let revised := { e with
            defendAnswers := answers
            assessment := some (reviseDefense assessment answers) }
          if setup.autoEnabled = false then .ok revised
          else .ok { revised with
            history :=
              match e.auto with
              | some previous =>
                  if previous.result.isSome then lastFive (e.history ++ [previous])
                  else e.history
              | none => e.history
            auto := some (queueState revised.toEvaluation) }

/-- `retry_automatic_grade` -/
def retryAutomaticGrade : Except PyErr GradedEvaluation :=
  if setup.autoEnabled = false then .error (.http 409 "Automatic grading is not available")
  else if setup.scoringVersion ≠ rubricVersion then
    .error (.http 409 "This attempt uses a different rubric version")
  else if defenseComplete e.toEvaluation = false then
    .error (.http 409 "Complete the defense answers before grading")
  else
    match e.auto with
    | none => .error (.http 409 "A retry is not needed")
    | some prior =>
        if prior.status ≠ .needsReview ∧ prior.status ≠ .retryPending then
          .error (.http 409 "A retry is not needed")
        else if 1 ≤ e.autoGradeRetries then
          .error (.http 409 "Retry limit reached; retain this report for review")
        else .ok { e with
          history := lastFive (e.history ++ [prior])
          autoGradeRetries := e.autoGradeRetries + 1
          auto := some (queueState e.toEvaluation) }

/-- `finish_job` -/
def finishJob (jobId : Str) (payload : Json) : Except PyErr GradedEvaluation :=
  match e.assessment with
  | none => .error .type
  | some assessment =>
      .ok { e with
        assessment := some (Packet.assessed { assessment.packet with
          evidence :=
            (assessment.packet.evidence.filter fun e => e.kind ≠ .externalEvaluation) ++
              [⟨lit "external:" ++ jobId, .externalEvaluation, none, jsonHash payload⟩] }) }

/-- The status of a selected evaluation. -/
def isSelected : Bool :=
  e.auto.all fun a => a.status ∈ [AutoStatus.queued, .running, .retryPending]

end GradedEvaluation

/-- The claim that a worker goes on with. -/
structure AutoClaim where
  token : ℕ
  packetDigest : Option Str
  attempts : ℕ

inductive ClaimResult where
  | skip
  | write (e : GradedEvaluation)
  | claim (e : GradedEvaluation) (claim : AutoClaim)

def GradedEvaluation.packetDigest (e : GradedEvaluation) : Option Str :=
  e.assessment.map Assessment.packetDigest

def GradedEvaluation.attempts (e : GradedEvaluation) : ℕ := (e.auto.map AutoGrading.attempts).getD 0

/-- What a worker makes of the evaluation that it has read under the lock. -/
def GradedEvaluation.claimGrade (e : GradedEvaluation) (now : Time) (token : ℕ) : ClaimResult :=
  if e.auto.any fun a => decide (a.status = .running ∧ now < a.leaseUntil) then .skip
  else if e.auto.any fun a => decide (now < a.nextAttemptAt) then .skip
  else if defenseComplete e.toEvaluation = false then
    .write { e with auto := some (queueState e.toEvaluation) }
  else if maxGradeAttempts ≤ e.attempts then
    .write { e with auto := e.auto.map fun prior =>
      { prior with
        status := .needsReview
        reason := some "retry_limit" } }
  else
    .claim { e with auto := some {
        status := .running
        attempts := e.attempts + 1
        leaseToken := some token
        leaseUntil := now + gradeLease
        nextAttemptAt := 0
        reason := none
        result := none } }
      ⟨token, e.packetDigest, e.attempts + 1⟩

def autoStatus : GradeStatus → AutoStatus
  | .needsReview => .needsReview
  | .automatedPractice => .automatedPractice

/-- The state after two judgments. -/
def AutoClaim.graded (claim : AutoClaim) (sourceDigest : Str) (snapshot : Answers)
    (first second : JudgeResponse) (judged : AutomatedOutcome) : AutoGrading where
  status := autoStatus judged.status
  attempts := claim.attempts
  leaseToken := none
  leaseUntil := 0
  nextAttemptAt := 0
  reason := none
  result := some ⟨⟨claim.packetDigest, sourceDigest, rubricVersion, promptVersion, judged⟩,
    snapshot, (first, second)⟩

/-- The state after an exception. -/
def AutoClaim.unavailable (claim : AutoClaim) (now : Time) : AutoGrading where
  status := if claim.attempts < maxGradeAttempts then .retryPending else .needsReview
  attempts := claim.attempts
  leaseToken := none
  leaseUntil := 0
  nextAttemptAt := now + seconds 60
  reason := some "grading_unavailable"
  result := none

/-- The claim still holds the lease, for the same packet. -/
def AutoClaim.isCurrent (claim : AutoClaim) (e : GradedEvaluation) (now : Time) : Bool :=
  (e.auto.any fun a => decide (a.leaseToken = some claim.token ∧ now < a.leaseUntil)) &&
    decide (e.packetDigest = claim.packetDigest)

/-- The evaluation with the state that a worker publishes. -/
def GradedEvaluation.publishGrade (e : GradedEvaluation) (final : AutoGrading) :
    GradedEvaluation :=
  { e with
    history := lastFive (e.history ++ (e.auto.filter fun a => a.result.isSome).toList)
    auto := some final }

/-- `candidate_auto_assessment` -/
def candidateAutoAssessment (setup : GradeSetup) (e : GradedEvaluation) :
    Option AutomatedOutcome :=
  if setup.autoEnabled = false then none
  else
    (((e.auto.bind AutoGrading.result).map AutoResult.outcome).filter fun o =>
      decide (o.packetDigest = e.packetDigest ∧ o.rubricVersion = PromptCode.rubricVersion ∧
        o.promptVersion = PromptCode.promptVersion)).map AutoOutcome.judged

/-! ## Statements -/

/-- The grading worker `w`, and the request `r`. -/
inductive GradeClient where
  | worker (w : ℕ)
  | route (r : ℕ)
  deriving DecidableEq

/-- Where a worker is between its statements. -/
inductive AutoPhase where
  | idle
  /-- The session is among the ids. -/
  | selected
  /-- It holds the lock of the session. -/
  | locked
  | claiming (e : GradedEvaluation)
  /-- The claim is committed. -/
  | claimed (claim : AutoClaim)
  /-- `review_context` has read the job. -/
  | reviewing (claim : AutoClaim) (job : Option SubmittedJob)
  | gathering (claim : AutoClaim) (context : ReviewContext)
  /-- The judges are asked, without a transaction. -/
  | judging (claim : AutoClaim) (sourceDigest : Str) (snapshot : Answers)
      (bundle : EvidenceBundle)
  | graded (claim : AutoClaim) (final : AutoGrading)
  /-- It holds the lock of the session again. -/
  | relocked (claim : AutoClaim) (final : AutoGrading)
  | publishing (claim : AutoClaim) (final : AutoGrading) (e : GradedEvaluation)

inductive GradeRequest where
  | answer (index : ℕ) (text : Str)
  | retry
  /-- `finish_job` with the envelope that was verified for the lease. -/
  | finish (token : Option Text) (envelope : Json)
  /-- `append_review` -/
  | review (id : RowId)
  /-- `retry_grading` -/
  | reopen
  | feedback

inductive GradeRoute where
  | idle
  /-- It holds the lock of the session. -/
  | locked (request : GradeRequest)
  /-- It also holds the lock of the evaluation. -/
  | holding (request : GradeRequest)
  /-- `feedback` asks the model, without a transaction. -/
  | advising (revision : Str)
  /-- It has read the evaluation again, without a lock. -/
  | advised (e : GradedEvaluation)

/-- What the transactions have committed. -/
inductive GradeEvent where
  /-- A defense answer that resets the grading. -/
  | answered
  | retried
  | claimed (token : ℕ)
  | published (token : ℕ)
  deriving DecidableEq

structure GradeHost where
  now : Time
  /-- The lock of the session. -/
  session : Option GradeClient
  evaluation : Row GradeClient GradedEvaluation
  job : SubmittedJob
  /-- `secrets.token_hex(32)` gives a new token each time. -/
  tokens : ℕ
  workers : ℕ → AutoPhase
  routes : ℕ → GradeRoute
  /-- The last commit first. -/
  log : List GradeEvent

namespace GradeHost

variable (h : GradeHost)

def gotoWorker (w : ℕ) (p : AutoPhase) : GradeHost :=
  { h with workers := Function.update h.workers w p }

def gotoRoute (r : ℕ) (p : GradeRoute) : GradeHost :=
  { h with routes := Function.update h.routes r p }

/-- The client ends its transaction. -/
def release (c : GradeClient) : GradeHost :=
  { h with
    session := if h.session = some c then none else h.session
    evaluation := h.evaluation.rollback c }

/-- A client without a lock of the evaluation stores it. -/
def store (e : GradedEvaluation) (log : List GradeEvent) : GradeHost :=
  { h with
    evaluation := { h.evaluation with stored := e }
    log := log ++ h.log }

end GradeHost

section

variable (setup : GradeSetup)

/-- The next statement of a worker. -/
def autoNext (h : GradeHost) (w : ℕ) : GradeHost :=
  match h.workers w with
  | .idle =>
      if setup.autoEnabled ∧ setup.session.isSubmitted ∧ h.job.row.status = .completed ∧
          setup.scoringVersion = rubricVersion ∧ h.evaluation.stored.isSelected then
        h.gotoWorker w .selected
      else h
  | .selected =>
      -- `SKIP LOCKED`
      if h.session = none then { h.gotoWorker w .locked with session := some (.worker w) }
      else h.gotoWorker w .idle
  | .locked => h.gotoWorker w (.claiming (h.evaluation.visible (.worker w)))
  | .claiming e =>
      if h.evaluation.free (.worker w) = false then h
      else
        match e.claimGrade h.now h.tokens with
        | .skip => (h.gotoWorker w .idle).release (.worker w)
        | .write e => ((h.store e []).gotoWorker w .idle).release (.worker w)
        | .claim e claim =>
            { ((h.store e [.claimed claim.token]).gotoWorker w (.claimed claim)).release
                (.worker w) with tokens := h.tokens + 1 }
  | .claimed claim => h.gotoWorker w (.reviewing claim (some h.job))
  | .reviewing claim job =>
      match reviewContext setup.service setup.session job
          (some (h.evaluation.visible (.worker w)).toEvaluation) with
      | .error _ => h.gotoWorker w (.graded claim (claim.unavailable h.now))
      | .ok context => h.gotoWorker w (.gathering claim context)
  | .gathering _ _ | .judging _ _ _ _ => h
  | .graded claim final =>
      if h.session = none then
        { h.gotoWorker w (.relocked claim final) with session := some (.worker w) }
      else h
  | .relocked claim final =>
      h.gotoWorker w (.publishing claim final (h.evaluation.visible (.worker w)))
  | .publishing claim final e =>
      if claim.isCurrent e h.now then
        if h.evaluation.free (.worker w) = false then h
        else ((h.store (e.publishGrade final) [.published claim.token]).gotoWorker w
          .idle).release (.worker w)
      else (h.gotoWorker w .idle).release (.worker w)

/-- What a request makes of the evaluation under its lock, and of the job. -/
def GradeRequest.commit (now : Time) (job : SubmittedJob) (e : GradedEvaluation) :
    GradeRequest → Except PyErr (GradedEvaluation × SubmittedJob)
  | .answer index text => (e.postDefendAnswer setup index text).map (·, job)
  | .retry => (e.retryAutomaticGrade setup).map (·, job)
  | .finish token envelope =>
      match verifyResult setup.service.inventories setup.service.key (job.ident.leased token)
          envelope with
      | .error error => .error error
      | .ok payload =>
          if job.row.isLeasedAt token now then
            (e.finishJob job.ident.jobId.1 payload).map
              (·, { job with row := job.row.complete envelope now })
          else .error (.value "The lease has ended")
  | .review id => .ok ({ e with gradingReviewId := some id }, job)
  | .reopen =>
      if job.row.status = .failed then .ok (e, { job with row := job.row.reopen now })
      else .error (.http 409 "Only failed grading jobs can be retried")
  | .feedback =>
      (reviewContext setup.service setup.session (some job) (some e.toEvaluation)).map
        fun context => ({ e with assessment := some context.assessment }, job)

/-- What the log notes of the commit of a request. -/
def GradeRequest.events : GradeRequest → List GradeEvent
  | .answer _ _ =>
      if setup.scoringVersion ∈ evidenceVersions ∧ setup.autoEnabled then [.answered] else []
  | .retry => [.retried]
  | _ => []

/-- Where a request goes on after its commit. -/
def GradeRequest.next (e : GradedEvaluation) : GradeRequest → GradeRoute
  | .feedback => .advising (e.packetDigest.getD [])
  | _ => .idle

/-- The next statement of a request. -/
def gradeRouteNext (h : GradeHost) (r : ℕ) : GradeHost :=
  match h.routes r with
  | .idle => h
  | .locked request =>
      match h.evaluation.lock (.route r) with
      | none => h
      | some evaluation => { h.gotoRoute r (.holding request) with evaluation := evaluation }
  | .holding request =>
      match request.commit setup h.now h.job (h.evaluation.visible (.route r)) with
      | .error _ => (h.gotoRoute r .idle).release (.route r)
      | .ok (e, job) =>
          { ((h.store e (request.events setup)).gotoRoute r (request.next e)).release
              (.route r) with job := job }
  | .advising revision =>
      let e := h.evaluation.visible (.route r)
      match reviewContext setup.service setup.session (some h.job) (some e.toEvaluation) with
      | .error _ => h.gotoRoute r .idle
      | .ok context =>
          if context.assessment.packetDigest = revision then h.gotoRoute r (.advised e)
          else h.gotoRoute r .idle
  | .advised _ => h

end

inductive GradeAction where
  | tick (d : ℕ)
  | worker (w : ℕ)
  /-- The bundle is made. -/
  | bundle (w : ℕ) (record : GradingRecord)
  /-- Both judges answer. -/
  | judged (w : ℕ) (first second : JudgeResponse)
  /-- An exception. -/
  | raised (w : ℕ)
  | crash (w : ℕ)
  | request (r : ℕ) (request : GradeRequest)
  | route (r : ℕ)
  /-- The model of the feedback answers. -/
  | advice (r : ℕ) (text : Str)
  | abort (r : ℕ)
  /-- A grading worker claims, fails or requeues the job. -/
  | job (row : GradingJob)

section

variable (setup : GradeSetup)

def gradeAct (h : GradeHost) : GradeAction → GradeHost
  | .tick d => { h with now := h.now + d }
  | .worker w => autoNext setup h w
  | .bundle w record =>
      match h.workers w with
      | .gathering claim context =>
          let answers := context.evaluation.defendAnswers
          match gradingBundle record answers context.assessment.packet context.payload with
          | .error _ => h.gotoWorker w (.graded claim (claim.unavailable h.now))
          | .ok bundle =>
              h.gotoWorker w (.judging claim context.job.ident.sourceDigest.1 answers bundle)
      | _ => h
  | .judged w first second =>
      match h.workers w with
      | .judging claim sourceDigest snapshot bundle =>
          match aggregateJudgments first second bundle with
          | .error _ => h.gotoWorker w (.graded claim (claim.unavailable h.now))
          | .ok judged =>
              h.gotoWorker w
                (.graded claim (claim.graded sourceDigest snapshot first second judged))
      | _ => h
  | .raised w =>
      match h.workers w with
      | .claimed claim | .reviewing claim _ | .gathering claim _ | .judging claim _ _ _ =>
          h.gotoWorker w (.graded claim (claim.unavailable h.now))
      | _ => (h.gotoWorker w .idle).release (.worker w)
  | .crash w => (h.gotoWorker w .idle).release (.worker w)
  | .request r request =>
      match h.routes r with
      | .idle =>
          if h.session = none then
            { h.gotoRoute r (.locked request) with session := some (.route r) }
          else h
      | _ => h
  | .route r => gradeRouteNext setup h r
  | .advice r text =>
      match h.routes r with
      | .advised e =>
          if h.evaluation.free (.route r) = false then h
          else (h.store { e with aiFeedback := some text } []).gotoRoute r .idle
      | _ => h
  | .abort r => (h.gotoRoute r .idle).release (.route r)
  | .job row =>
      if h.job.row.status = .completed ∨ row.status = .completed then h
      else { h with job := { h.job with row := row } }

end

/-- An evaluation that has just been submitted. -/
def freshGrades (assessment : Assessment) (questions : ℕ) (job : SubmittedJob) (now : Time) :
    GradeHost where
  now := now
  session := none
  evaluation := ⟨⟨⟨some assessment, [], questions, none⟩, none, [], 0, none⟩, none⟩
  job := { job with row := enqueueGradingJob now }
  tokens := 0
  workers := fun _ => .idle
  routes := fun _ => .idle
  log := []

end PromptCode
