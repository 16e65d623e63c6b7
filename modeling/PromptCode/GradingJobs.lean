import PromptCode.EvaluationQueue
import PromptCode.RowLock
import PromptCode.SignedResults

/-!
# Leased grading jobs

`workers/interview_grading.py`: a worker claims a job under a fresh lease token, runs
the trusted evaluation and stores its envelope if the row still has that token and the
lease has not expired.  An operator may queue a failed job again.
-/

namespace PromptCode

open Py FileTree Transition

/-! ## Job rows -/

inductive GradingStatus where
  | queued | running | completed | failed
  deriving DecidableEq

/-- The columns that change; the others identify the submission. -/
structure GradingJob where
  status : GradingStatus
  attempts : ℕ
  maxAttempts : ℕ
  leaseToken : Option Text
  leaseExpiresAt : Option Time
  availableAt : Time
  startedAt : Option Time
  finishedAt : Option Time
  lastError : Option String
  result : Option Json

/-- `enqueue_grading_job`. -/
def enqueueGradingJob (now : Time) : GradingJob where
  status := .queued
  attempts := 0
  maxAttempts := 3
  leaseToken := none
  leaseExpiresAt := none
  availableAt := now
  startedAt := none
  finishedAt := none
  lastError := none
  result := none

/-- `_lease_seconds`. -/
def leaseTime (timeout : Time) : Time :=
  min (max (timeout * 2) (timeout + seconds 120)) (timeout * 4)

namespace GradingJob

/-! ### The statements of `claim_next_job` -/

def isExpired (now : Time) (job : GradingJob) : Bool :=
  job.status = .running && job.leaseExpiresAt.any (fun t => t ≤ now)

def requeue (now : Time) (job : GradingJob) : GradingJob :=
  { job with
    status := .queued
    leaseToken := none
    leaseExpiresAt := none
    availableAt := now
    lastError := some "Worker lease expired" }

def isExhausted (job : GradingJob) : Bool :=
  job.status = .queued && job.maxAttempts ≤ job.attempts

def giveUp (now : Time) (job : GradingJob) : GradingJob :=
  { job with
    status := .failed
    finishedAt := some now
    lastError := some "Grading retry limit reached" }

def isClaimable (now : Time) (job : GradingJob) : Bool :=
  job.status = .queued && job.availableAt ≤ now && job.attempts < job.maxAttempts

def claimed (timeout now : Time) (token : Text) (job : GradingJob) : GradingJob :=
  { job with
    status := .running
    leaseToken := some token
    leaseExpiresAt := some (now + leaseTime timeout)
    startedAt := some now
    attempts := job.attempts + 1 }

/-! ### The outcome of an attempt -/

/-- The row is still the one that was claimed under the token. -/
def isLeased (token : Option Text) (job : GradingJob) : Bool :=
  job.status = .running && job.leaseToken = token

def isLeasedAt (token : Option Text) (now : Time) (job : GradingJob) : Bool :=
  job.isLeased token && job.leaseExpiresAt.any (fun t => now < t)

def complete (envelope : Json) (now : Time) (job : GradingJob) : GradingJob :=
  { job with
    status := .completed
    result := some envelope
    finishedAt := some now
    lastError := none
    leaseExpiresAt := none }

/-- The columns are computed from the attempts that the worker has loaded. -/
def failAttempt (attempts maxAttempts : ℕ) (now : Time) (job : GradingJob) :
    GradingJob :=
  { job with
    status := if maxAttempts ≤ attempts then .failed else .queued
    availableAt := now + seconds (min 60 (5 * 2 ^ attempts))
    finishedAt := if maxAttempts ≤ attempts then some now else none
    lastError := some "Trusted evaluation unavailable; no grade was issued"
    leaseToken := none
    leaseExpiresAt := none }

/-- `retry_grading`. -/
def reopen (now : Time) (job : GradingJob) : GradingJob :=
  { job with
    status := .queued
    attempts := 0
    maxAttempts := 3
    leaseToken := none
    leaseExpiresAt := none
    result := none
    availableAt := now
    startedAt := none
    finishedAt := none
    lastError := none }

end GradingJob

/-- What the writers of a job change in the evaluation of the session: the execution
status and the payload whose digest stands in the evidence. -/
structure ExecutionEvidence where
  status : GradingStatus
  external : Option Json

/-- The payload of an envelope. -/
def envelopePayload (envelope : Json) : Option Json :=
  (envelopeParts envelope).map Prod.fst

/-! ## Clients -/

/-- What a worker keeps of the job it has loaded. -/
structure Lease where
  token : Option Text
  attempts : ℕ
  maxAttempts : ℕ

/-- Where a client is between its statements. -/
inductive GradingPhase where
  | idle
  /-- `claim_next_job` has read the clock. -/
  | expiring (now : Time)
  | exhausting (now : Time)
  | selecting (now : Time)
  /-- The candidate is this job. -/
  | taking (now : Time)
  /-- Before the commit, with whether this job was claimed. -/
  | taken (hit : Bool)
  /-- Before the closing `get`. -/
  | loading
  | running (lease : Lease)
  /-- `finish_job` has verified the envelope and read the clock. -/
  | finishing (lease : Lease) (envelope : Json) (now : Time)
  /-- It holds the lock of the session. -/
  | applying (lease : Lease) (envelope : Json) (now : Time)
  /-- Its `UPDATE` has hit the row. -/
  | applied (lease : Lease) (envelope : Json) (now : Time)
  /-- An exception was raised and the transaction rolled back. -/
  | failing (lease : Lease)
  /-- `fail_job` before its commit. -/
  | reporting (lease : Lease)
  /-- `retry_grading` holds the lock of the session. -/
  | retrying
  /-- It holds the lock of the failed job. -/
  | reopening

/-- A grading job with its identity, the lock of its session and the clients. -/
structure GradingHost where
  job : Row ℕ GradingJob
  session : Option ℕ
  evaluation : ExecutionEvidence
  phase : ℕ → GradingPhase

namespace GradingHost

variable (h : GradingHost) (w : ℕ)

def goto (p : GradingPhase) : GradingHost :=
  { h with phase := Function.update h.phase w p }

/-- The client gives up its locks and what it has not committed. -/
def rollback (p : GradingPhase) : GradingHost :=
  { h with
    job := h.job.rollback w
    session := if h.session = some w then none else h.session
    phase := Function.update h.phase w p }

def commit (p : GradingPhase) : GradingHost :=
  { h with
    job := h.job.commit w
    session := if h.session = some w then none else h.session
    phase := Function.update h.phase w p }

/-- An `UPDATE` of the job; while it waits nothing happens. -/
def updateJob (cond : GradingJob → Bool) (change : GradingJob → GradingJob)
    (next : Bool → GradingPhase) : GradingHost :=
  match h.job.update w cond change with
  | some (job, hit) => { h with job := job, phase := Function.update h.phase w (next hit) }
  | none => h

/-- The row lock of the session. -/
def lockSession (p : GradingPhase) : GradingHost :=
  if h.session = none then
    { h with session := some w, phase := Function.update h.phase w p }
  else h

end GradingHost

inductive GradingAction where
  /-- The next statement of the client; the argument is the clock where it reads one. -/
  | next (w : ℕ) (now : Time)
  /-- The candidate query, which may name another job. -/
  | select (w : ℕ) (chosen : Bool)
  /-- The claiming `UPDATE`, with the token it has drawn. -/
  | take (w : ℕ) (token : Text)
  /-- The evaluation returns an envelope. -/
  | evaluated (w : ℕ) (envelope : Json) (now : Time)
  /-- An exception. -/
  | raised (w : ℕ)
  /-- An operator asks for a retry. -/
  | retry (w : ℕ)
  /-- The process ends, or the request does. -/
  | crash (w : ℕ)

section

variable (inv : Inventories) (key : Str) (ident : GradingIdentity) (timeout : Time)

/-- The identity of the job under a lease token. -/
def GradingIdentity.leased (ident : GradingIdentity) (token : Option Text) :
    GradingIdentity :=
  { ident with leaseToken := token }

/-- One statement of one client. -/
def gradingAct (h : GradingHost) : GradingAction → GradingHost
  | .next w now =>
      match h.phase w with
      | .idle => h.goto w (.expiring now)
      | .expiring t =>
          h.updateJob w (GradingJob.isExpired t) (GradingJob.requeue t)
            fun _ => .exhausting t
      | .exhausting t =>
          h.updateJob w GradingJob.isExhausted (GradingJob.giveUp t)
            fun _ => .selecting t
      | .taken hit => h.commit w (if hit then .loading else .idle)
      | .loading =>
          let job := h.job.visible w
          h.goto w (.running ⟨job.leaseToken, job.attempts, job.maxAttempts⟩)
      | .finishing lease envelope t => h.lockSession w (.applying lease envelope t)
      | .applying lease envelope t =>
          match h.job.update w (GradingJob.isLeasedAt lease.token t)
              (GradingJob.complete envelope t) with
          | some (job, true) => { h.goto w (.applied lease envelope t) with job := job }
          | some (_, false) => h.rollback w .idle
          | none => h
      | .applied _ envelope _ =>
          { h.commit w .idle with
            evaluation := ⟨.completed, envelopePayload envelope⟩ }
      | .failing lease =>
          h.updateJob w (GradingJob.isLeased lease.token)
            (GradingJob.failAttempt lease.attempts lease.maxAttempts now)
            fun _ => .reporting lease
      | .reporting _ => h.commit w .idle
      | .retrying =>
          match h.job.lock w with
          | some job =>
              if (job.visible w).status = .failed then
                { h.goto w .reopening with job := job }
              else h.rollback w .idle
          | none => h
      | .reopening =>
          let job := h.job.put w (GradingJob.reopen now (h.job.visible w))
          { { h with job := job }.commit w .idle with
            evaluation := { h.evaluation with status := .queued } }
      | .selecting _ | .taking _ | .running _ => h
  | .select w chosen =>
      match h.phase w with
      | .selecting t =>
          if chosen ∧ (h.job.visible w).isClaimable t then h.goto w (.taking t)
          else h.goto w (.taken false)
      | _ => h
  | .take w token =>
      match h.phase w with
      | .taking t =>
          h.updateJob w (GradingJob.isClaimable t) (GradingJob.claimed timeout t token)
            .taken
      | _ => h
  | .evaluated w envelope now =>
      match h.phase w with
      | .running lease =>
          match verifyResult inv key (ident.leased lease.token) envelope with
          | .ok _ => h.goto w (.finishing lease envelope now)
          | .error _ => h.goto w (.failing lease)
      | _ => h
  | .raised w =>
      match h.phase w with
      | .running lease | .finishing lease _ _ | .applying lease _ _
      | .applied lease _ _ => h.rollback w (.failing lease)
      | _ => h.rollback w .idle
  | .retry w =>
      match h.phase w with
      | .idle => h.lockSession w .retrying
      | _ => h
  | .crash w => h.rollback w .idle

end

/-- A job that has just been queued. -/
def freshGrading (now : Time) : GradingHost where
  job := ⟨enqueueGradingJob now, none⟩
  session := none
  evaluation := ⟨.queued, none⟩
  phase := fun _ => .idle

end PromptCode
