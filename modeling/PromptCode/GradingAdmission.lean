import PromptCode.GradingJobs
import PromptCode.RowTable
import Mathlib.Algebra.Order.Ring.Int

/-!
# Admission to the grading queues

`grading_admission.py` with the routes that add pending work: a submit and an operator's
retry queue a grading job, a new submission queues an evaluation job.  Each request takes
the advisory lock of the admission, counts, locks the row of the owner, counts again,
writes and commits; the workers move the jobs in transactions of their own.
-/

namespace PromptCode

open Py Transition

/-! ## Tables -/

/-- The transactions of requests and those of workers. -/
inductive QueueClient where
  | request (t : ℕ)
  | worker (w : ℕ)
  deriving DecidableEq

def GradingJob.isPending (job : GradingJob) : Bool :=
  job.status = .queued || job.status = .running

def EvaluationJob.isPending (job : EvaluationJob) : Bool :=
  job.status = .queued || job.status = .retry || job.status = .running

structure AdmissionLimits where
  gradingMaxPendingJobs : ℤ
  submissionMaxOutstandingJobsPerUser : ℤ

/-- `MAX_PENDING_GRADING_PER_USER` -/
def maxPendingGradingPerUser : ℕ := 3

/-! ## Requests -/

inductive AdmissionKind where
  /-- `submit_session` -/
  | submit (session : ℕ)
  /-- `retry_grading` -/
  | retry (session : ℕ)
  /-- `create_submission` -/
  | create (user : ℕ)
  deriving DecidableEq

/-- The user that the request is counted for; the sessions have fixed owners. -/
def AdmissionKind.owner (owners : ℕ → ℕ) : AdmissionKind → ℕ
  | .submit session | .retry session => owners session
  | .create user => user

/-- The statement that a request comes to next. -/
inductive AdmissionPhase where
  /-- `retry_grading` locks the job; the others have none. -/
  | lockJob
  /-- `pg_advisory_xact_lock` -/
  | advisory
  | countJobs
  | countEvaluations (jobs : ℕ)
  | lockOwner
  | countOwner
  /-- The source is frozen; the job is written. -/
  | write
  | commit
  deriving DecidableEq

structure AdmissionRequest where
  kind : AdmissionKind
  phase : AdmissionPhase
  deriving DecidableEq

/-- The request holds the advisory lock. -/
def AdmissionPhase.Admitted (p : AdmissionPhase) : Prop := p ≠ .lockJob ∧ p ≠ .advisory

instance (p : AdmissionPhase) : Decidable p.Admitted :=
  inferInstanceAs (Decidable (_ ∧ _))

structure AdmissionHost where
  /-- The key is the session. -/
  jobs : Table QueueClient ℕ GradingJob
  /-- The key is the user of the submission. -/
  evaluations : Table QueueClient ℕ EvaluationJob
  /-- Whether there is such a user. -/
  users : ℕ → Row QueueClient Bool
  /-- The request that holds the advisory lock. -/
  admission : Option ℕ
  requests : ℕ → Option AdmissionRequest

namespace AdmissionHost

variable (h : AdmissionHost) (t : ℕ)

def goto (r : AdmissionRequest) (p : AdmissionPhase) : AdmissionHost :=
  { h with requests := Function.update h.requests t (some { r with phase := p }) }

/-- The end of the transaction with its locks. -/
def leave : AdmissionHost :=
  { h with
    admission := if h.admission = some t then none else h.admission
    requests := Function.update h.requests t none }

/-- An exception, or a refusal. -/
def rollback : AdmissionHost :=
  { h.leave t with
    jobs := h.jobs.rollbackRows (.request t)
    evaluations := h.evaluations.rollbackRows (.request t)
    users := fun u => (h.users u).rollback (.request t) }

def commit : AdmissionHost :=
  { h.leave t with
    jobs := h.jobs.commitRows (.request t)
    evaluations := h.evaluations.commitRows (.request t)
    users := fun u => (h.users u).commit (.request t) }

end AdmissionHost

section

variable (owners : ℕ → ℕ) (lim : AdmissionLimits)

/-- The row of the job of a session that a request sees. -/
def AdmissionHost.jobOf (h : AdmissionHost) (t session : ℕ) : Option ℕ :=
  h.jobs.findIdx? fun e => e.1 = session && (e.2.visible (.request t)).isSome

/-- The global count against the limit. -/
def globalRefused (pending : ℕ) : Bool := lim.gradingMaxPendingJobs ≤ pending

/-- The count of the owner, of the jobs that the request is about. -/
def ownerRefused (h : AdmissionHost) (t : ℕ) (r : AdmissionRequest) : Bool :=
  match r.kind with
  | .submit session | .retry session => maxPendingGradingPerUser ≤
      h.jobs.count (.request t) (owners · = owners session) GradingJob.isPending
  | .create user => lim.submissionMaxOutstandingJobsPerUser ≤
      h.evaluations.count (.request t) (· = user) EvaluationJob.isPending

/-- A new submission does not look at the row of the user that it has locked. -/
def ownerFound (kind : AdmissionKind) (found : Bool) : Bool :=
  match kind with
  | .submit _ | .retry _ => found
  | .create _ => true

/-- `enqueue_grading_job`, the changes of `retry_grading`, or `enqueue_evaluation_job`. -/
def writeJob (h : AdmissionHost) (t : ℕ) (r : AdmissionRequest) (now : Time) :
    AdmissionHost :=
  match r.kind with
  | .submit session =>
      match h.jobOf t session with
      | some _ => h
      | none =>
          { h with
            jobs := h.jobs.insertRow (.request t) session (enqueueGradingJob now) }
  | .retry session =>
      match h.jobOf t session with
      | none => h
      | some job =>
          { h with
            jobs := h.jobs.changeRow job (.request t) (fun _ => true)
              (GradingJob.reopen now) }
  | .create user =>
      { h with
        evaluations := h.evaluations.insertRow (.request t) user
          (enqueueEvaluationJob 3 now) }

/-- `retry_grading` up to its lock of a failed job. -/
def lockFailed (h : AdmissionHost) (t : ℕ) (r : AdmissionRequest) (session : ℕ) :
    AdmissionHost :=
  match h.jobOf t session with
  | none => h.rollback t
  | some job =>
      match (h.jobs[job]?).bind fun e => e.2.lock (.request t) with
      | none => h
      | some row =>
          if (row.visible (.request t)).any fun j => j.status = .failed then
            { h.goto t r .advisory with jobs := h.jobs.modify job fun e => (e.1, row) }
          else h.rollback t

/-- The next statement of a request; one that needs a lock of another client waits. -/
def requestNext (h : AdmissionHost) (t : ℕ) (r : AdmissionRequest) (now : Time) :
    AdmissionHost :=
  match r.phase with
  | .lockJob =>
      match r.kind with
      | .retry session => lockFailed h t r session
      | _ => h.goto t r .advisory
  | .advisory =>
      if h.admission = none then { h.goto t r .countJobs with admission := some t } else h
  | .countJobs =>
      h.goto t r (.countEvaluations
        (h.jobs.count (.request t) (fun _ => true) GradingJob.isPending))
  | .countEvaluations jobs =>
      if globalRefused lim (jobs +
          h.evaluations.count (.request t) (fun _ => true) EvaluationJob.isPending) then
        h.rollback t
      else h.goto t r .lockOwner
  | .lockOwner =>
      match (h.users (r.kind.owner owners)).lock (.request t) with
      | none => h
      | some row =>
          if ownerFound r.kind (row.visible (.request t)) then
            { h.goto t r .countOwner with
              users := Function.update h.users (r.kind.owner owners) row }
          else h.rollback t
  | .countOwner =>
      if ownerRefused owners lim h t r then h.rollback t else h.goto t r .write
  | .write => (writeJob h t r now).goto t r .commit
  | .commit => h.commit t

end

/-! ## Actions -/

inductive AdmissionAction where
  | start (t : ℕ) (kind : AdmissionKind)
  | next (t : ℕ) (now : Time)
  /-- An exception anywhere in the request. -/
  | fail (t : ℕ)
  /-- The statements of `claim_next_job` on one row. -/
  | requeue (w job : ℕ) (now : Time)
  | giveUp (w job : ℕ) (now : Time)
  | claim (w job : ℕ) (timeout now : Time) (token : Text)
  /-- `finish_job` -/
  | finish (w job : ℕ) (token : Option Text) (envelope : Json) (now : Time)
  /-- `fail_job` -/
  | failJob (w job : ℕ) (lease : Lease) (now : Time)
  /-- `_claim_job_by_id` -/
  | claimEvaluation (w job : ℕ) (now : Time)
  /-- The write of `_run_job`, by the primary key of the job it has loaded. -/
  | finishEvaluation (w job : ℕ) (loaded : EvaluationJob) (configured : Time)
      (outcome : RunOutcome) (now : Time)
  /-- `_recover_stuck_jobs` -/
  | recover (w job : ℕ) (configured now : Time) (submission : Option (Option Time))
  | commitWorker (w : ℕ)
  | crashWorker (w : ℕ)

/-- One statement of one client. -/
def admissionAct (owners : ℕ → ℕ) (lim : AdmissionLimits) (h : AdmissionHost) :
    AdmissionAction → AdmissionHost
  | .start t kind =>
      match h.requests t with
      | none => { h with requests := Function.update h.requests t (some ⟨kind, .lockJob⟩) }
      | some _ => h
  | .next t now =>
      match h.requests t with
      | none => h
      | some r => requestNext owners lim h t r now
  | .fail t => h.rollback t
  | .requeue w job now =>
      { h with
        jobs := h.jobs.changeRow job (.worker w) (GradingJob.isExpired now)
          (GradingJob.requeue now) }
  | .giveUp w job now =>
      { h with
        jobs := h.jobs.changeRow job (.worker w) GradingJob.isExhausted
          (GradingJob.giveUp now) }
  | .claim w job timeout now token =>
      { h with
        jobs := h.jobs.changeRow job (.worker w) (GradingJob.isClaimable now)
          (GradingJob.claimed timeout now token) }
  | .finish w job token envelope now =>
      { h with
        jobs := h.jobs.changeRow job (.worker w) (GradingJob.isLeasedAt token now)
          (GradingJob.complete envelope now) }
  | .failJob w job lease now =>
      { h with
        jobs := h.jobs.changeRow job (.worker w) (GradingJob.isLeased lease.token)
          (GradingJob.failAttempt lease.attempts lease.maxAttempts now) }
  | .claimEvaluation w job now =>
      { h with
        evaluations := h.evaluations.changeRow job (.worker w)
          (fun j => decide j.status.Waiting && decide (j.availableAt ≤ now))
          fun j =>
            { j with
              status := .running
              startedAt := some now
              attempts := j.attempts + 1 } }
  | .finishEvaluation w job loaded configured outcome now =>
      { h with
        evaluations := h.evaluations.changeRow job (.worker w) (fun _ => true)
          fun j => j.flush loaded (loaded.afterRun configured outcome now) }
  | .recover w job configured now submission =>
      { h with
        evaluations := h.evaluations.changeRow job (.worker w)
          (fun j => decide (j.status = .running) &&
            j.startedAt.any fun s => s ≤ now - stuckJobRecovery configured)
          fun j => j.recovered now submission }
  | .commitWorker w =>
      { h with
        jobs := h.jobs.commitRows (.worker w)
        evaluations := h.evaluations.commitRows (.worker w) }
  | .crashWorker w =>
      { h with
        jobs := h.jobs.rollbackRows (.worker w)
        evaluations := h.evaluations.rollbackRows (.worker w) }

/-- Empty tables with some users. -/
def freshAdmission (users : ℕ → Bool) : AdmissionHost where
  jobs := []
  evaluations := []
  users := fun u => ⟨users u, none⟩
  admission := none
  requests := fun _ => none

/-- An evaluation ends before its job is recovered: the job that it writes is running. -/
def EndsInTime (h : AdmissionHost) : AdmissionAction → Prop
  | .finishEvaluation w job _ _ _ _ =>
      ∀ e ∈ h.evaluations[job]?, ∀ j ∈ e.2.visible (.worker w), j.status = .running
  | _ => True

/-! ## The invariant -/

/-- The request has written its job and comes to its commit. -/
def AdmissionHost.Writing (h : AdmissionHost) (t : ℕ) : Prop :=
  ∃ r, h.requests t = some r ∧ r.phase = .commit

/-- Only a request that has written adds a pending version to a row; the lock of any other
request leaves the row as it is, and a worker makes no job pending that was not. -/
def Tame {α : Type} (writing : ℕ → Prop) (p : α → Bool) (r : Row QueueClient (Option α)) :
    Prop :=
  ∀ c v, r.held = some (c, v) →
    match c with
    | .worker _ => v.any p = true → r.stored.any p = true
    | .request t => writing t ∨ v.any p = r.stored.any p

section

variable {α : Type} {writing writing' : ℕ → Prop} {p : α → Bool}
  {r : Row QueueClient (Option α)} {t w : ℕ} {v : Option α}

theorem tame_of_held_none (h : r.held = none) : Tame writing p r := by
  intro c v hv
  rw [h] at hv
  cases hv

theorem Tame.mono (h : Tame writing p r) (hw : ∀ u, writing u → writing' u) :
    Tame writing' p r := by
  intro c v hv
  have hc := h c v hv
  rcases c with u | u
  · exact hc.imp_left (hw u)
  · exact hc

/-- What is left of a request that has given up its locks. -/
theorem Tame.of_released (h : Tame writing p r) (hrel : r.Released (.request t))
    (hw : ∀ u, u ≠ t → writing u → writing' u) : Tame writing' p r := by
  intro c v hv
  have hc := h c v hv
  rcases c with u | u
  · have hne : u ≠ t := by
      rintro rfl
      exact hrel v hv
    exact hc.imp_left (hw u hne)
  · exact hc

theorem Tame.commit (h : Tame writing p r) (c : QueueClient) : Tame writing p (r.commit c) := by
  rcases r.commit_cases c with ⟨-, heq⟩ | ⟨v, -, heq⟩
  · rwa [heq]
  · rw [heq]
    exact tame_of_held_none rfl

theorem Tame.rollback (h : Tame writing p r) (c : QueueClient) :
    Tame writing p (r.rollback c) := by
  rcases r.rollback_cases c with ⟨-, heq⟩ | heq
  · rwa [heq]
  · rw [heq]
    exact tame_of_held_none rfl

theorem tame_put_request (hw : writing t ∨ v.any p = r.stored.any p) :
    Tame writing p (r.put (.request t) v) := by
  intro c u hu
  obtain ⟨rfl, rfl⟩ := Prod.mk.inj (Option.some.inj hu)
  exact hw

theorem tame_put_worker (h : v.any p = true → r.stored.any p = true) :
    Tame writing p (r.put (.worker w) v) := by
  intro c u hu
  obtain ⟨rfl, rfl⟩ := Prod.mk.inj (Option.some.inj hu)
  exact h

/-- The lock of a request leaves the row as it is. -/
theorem Tame.lock (h : Tame writing p r) :
    Tame writing p (r.put (.request t) (r.visible (.request t))) := by
  apply tame_put_request
  rw [Row.visible]
  rcases hheld : r.held with _ | ⟨c, v⟩
  · exact Or.inr rfl
  · by_cases hc : c = .request t
    · subst hc
      simp only [↓reduceIte]
      exact h (.request t) v hheld
    · simp [hc]

/-- A pending version that a worker sees is no more than the stored one. -/
theorem Tame.stored_of_visible_worker (h : Tame writing p r)
    (hv : (r.visible (.worker w)).any p = true) : r.stored.any p = true := by
  rw [Row.visible] at hv
  rcases hheld : r.held with _ | ⟨c, v⟩
  · simpa [hheld] using hv
  · by_cases hc : c = .worker w
    · subst hc
      simp only [hheld, ↓reduceIte] at hv
      exact h (.worker w) v hheld hv
    · simpa [hheld, hc] using hv

theorem Tame.change_worker (h : Tame writing p r) {p' : α → Bool} {f : α → α}
    (hp : ∀ v, r.visible (.worker w) = some v → p' v = true → p (f v) = true → p v = true) :
    Tame writing p (r.change (.worker w) p' f) := by
  rcases r.change_cases (.worker w) p' f with heq | ⟨v, hv, hpv, -, heq⟩
  · rwa [heq]
  · rw [heq]
    apply tame_put_worker
    intro hfv
    have hvis : (r.visible (.worker w)).any p = true := by
      rw [hv]
      exact hp v hv hpv hfv
    exact h.stored_of_visible_worker hvis

theorem Tame.change_request (h : Tame writing p r) (hw : writing t) {p' : α → Bool}
    {f : α → α} : Tame writing p (r.change (.request t) p' f) := by
  rcases r.change_cases (.request t) p' f with heq | ⟨v, -, -, -, heq⟩
  · rwa [heq]
  · rw [heq]
    exact tame_put_request (Or.inl hw)

/-- While nobody has written, a request sees every row with a pending version. -/
theorem Tame.visible (h : Tame writing p r) (hw : ∀ u, ¬ writing u)
    (hr : r.hasVersion p = true) : (r.visible (.request t)).any p = true := by
  rw [Row.visible]
  rcases hheld : r.held with _ | ⟨c, v⟩
  · simpa [Row.hasVersion, hheld] using hr
  · have hc := h c v hheld
    simp only [Row.hasVersion, hheld, Option.any_some, Bool.or_eq_true] at hr
    rcases c with u | u
    · have hsame := hc.resolve_left (hw u)
      have hstored : r.stored.any p = true := by
        rcases hr with hr | hr
        · exact hr
        · rw [← hsame]
          exact hr
      by_cases hu : u = t
      · subst hu
        simpa [hsame] using hstored
      · simpa [hu] using hstored
    · simpa using hr.elim id hc

end

namespace AdmissionHost

variable (h : AdmissionHost)

/-- The grading jobs of one user that are pending or may become so without a request. -/
def jobLoad (owners : ℕ → ℕ) (u : ℕ) : ℕ :=
  h.jobs.load (owners · = u) GradingJob.isPending

def evaluationLoad (u : ℕ) : ℕ := h.evaluations.load (· = u) EvaluationJob.isPending

def totalLoad : ℕ :=
  h.jobs.load (fun _ => true) GradingJob.isPending +
    h.evaluations.load (fun _ => true) EvaluationJob.isPending

end AdmissionHost

/-- What a request knows from the statements behind it. -/
def RequestOk (owners : ℕ → ℕ) (lim : AdmissionLimits) (fenced : Prop) (h : AdmissionHost)
    (r : AdmissionRequest) : Prop :=
  match r.phase with
  | .countEvaluations jobs => h.jobs.load (fun _ => true) GradingJob.isPending ≤ jobs
  | .lockOwner | .countOwner => fenced → (h.totalLoad + 1 : ℤ) ≤ lim.gradingMaxPendingJobs
  | .write =>
      (fenced → (h.totalLoad + 1 : ℤ) ≤ lim.gradingMaxPendingJobs) ∧
        match r.kind with
        | .submit session | .retry session =>
            h.jobLoad owners (owners session) + 1 ≤ maxPendingGradingPerUser
        | .create user => fenced →
            (h.evaluationLoad user + 1 : ℤ) ≤ lim.submissionMaxOutstandingJobsPerUser
  | _ => True

/-- The bounds with what keeps them.  What concerns evaluation jobs rests on `fenced`. -/
structure AdmissionInv (owners : ℕ → ℕ) (lim : AdmissionLimits) (fenced : Prop)
    (h : AdmissionHost) : Prop where
  holder : ∀ t r, h.requests t = some r → r.phase.Admitted → h.admission = some t
  jobs : ∀ e ∈ h.jobs, Tame h.Writing GradingJob.isPending e.2
  evaluations : fenced → ∀ e ∈ h.evaluations, Tame h.Writing EvaluationJob.isPending e.2
  jobLoad : ∀ u, h.jobLoad owners u ≤ maxPendingGradingPerUser
  evaluationLoad : fenced → ∀ u,
    (h.evaluationLoad u : ℤ) ≤ max lim.submissionMaxOutstandingJobsPerUser 0
  totalLoad : fenced → (h.totalLoad : ℤ) ≤ max lim.gradingMaxPendingJobs 0
  requests : ∀ t r, h.requests t = some r → RequestOk owners lim fenced h r

/-! ## Tables that stay tame -/

section

variable {α κ : Type} {writing writing' : ℕ → Prop} {p : α → Bool}
  {T : Table QueueClient κ α} {t w : ℕ}

theorem tame_commitRows (h : ∀ e ∈ T, Tame writing p e.2) (c : QueueClient) :
    ∀ e ∈ T.commitRows c, Tame writing p e.2 := by
  intro e he
  obtain ⟨d, hd, rfl⟩ := List.mem_map.mp he
  exact (h d hd).commit c

theorem tame_rollbackRows (h : ∀ e ∈ T, Tame writing p e.2) (c : QueueClient) :
    ∀ e ∈ T.rollbackRows c, Tame writing p e.2 := by
  intro e he
  obtain ⟨d, hd, rfl⟩ := List.mem_map.mp he
  exact (h d hd).rollback c

theorem tame_commitRows_leave (h : ∀ e ∈ T, Tame writing p e.2)
    (hw : ∀ u, u ≠ t → writing u → writing' u) :
    ∀ e ∈ T.commitRows (.request t), Tame writing' p e.2 := by
  intro e he
  obtain ⟨d, hd, rfl⟩ := List.mem_map.mp he
  exact ((h d hd).commit _).of_released (d.2.released_commit _) hw

theorem tame_rollbackRows_leave (h : ∀ e ∈ T, Tame writing p e.2)
    (hw : ∀ u, u ≠ t → writing u → writing' u) :
    ∀ e ∈ T.rollbackRows (.request t), Tame writing' p e.2 := by
  intro e he
  obtain ⟨d, hd, rfl⟩ := List.mem_map.mp he
  exact ((h d hd).rollback _).of_released (d.2.released_rollback _) hw

theorem tame_changeRow_worker (h : ∀ e ∈ T, Tame writing p e.2) {i : ℕ} {p' : α → Bool}
    {f : α → α} (hp : ∀ e ∈ T[i]?, ∀ v, e.2.visible (.worker w) = some v → p' v = true →
      p (f v) = true → p v = true) :
    ∀ e ∈ T.changeRow i (.worker w) p' f, Tame writing p e.2 := by
  intro e he
  rcases Table.mem_modify he with he | ⟨d, hd, hi, rfl⟩
  · exact h e he
  · exact (h d hd).change_worker (hp d hi)

theorem tame_changeRow_request (h : ∀ e ∈ T, Tame writing p e.2) (hw : writing t) {i : ℕ}
    {p' : α → Bool} {f : α → α} :
    ∀ e ∈ T.changeRow i (.request t) p' f, Tame writing p e.2 := by
  intro e he
  rcases Table.mem_modify he with he | ⟨d, hd, -, rfl⟩
  · exact h e he
  · exact (h d hd).change_request hw

theorem tame_insertRow (h : ∀ e ∈ T, Tame writing p e.2) (hw : writing t) (k : κ) (v : α) :
    ∀ e ∈ T.insertRow (.request t) k v, Tame writing p e.2 := by
  intro e he
  rcases List.mem_append.mp he with he | he
  · exact h e he
  · rw [List.mem_singleton.mp he]
    exact tame_put_request (r := ⟨none, none⟩) (Or.inl hw)

end

/-! ## Moves of the host -/

section

variable {owners : ℕ → ℕ} {lim : AdmissionLimits} {fenced : Prop} {h h' : AdmissionHost}
  {t : ℕ} {r : AdmissionRequest} {p : AdmissionPhase}

theorem totalLoad_mono
    (hjobs : ∀ q, h'.jobs.load q GradingJob.isPending ≤ h.jobs.load q GradingJob.isPending)
    (hevaluations : ∀ q, h'.evaluations.load q EvaluationJob.isPending ≤
      h.evaluations.load q EvaluationJob.isPending) : h'.totalLoad ≤ h.totalLoad :=
  Nat.add_le_add (hjobs _) (hevaluations _)

theorem RequestOk.mono (hok : RequestOk owners lim fenced h r)
    (hjobs : ∀ q, h'.jobs.load q GradingJob.isPending ≤ h.jobs.load q GradingJob.isPending)
    (hevaluations : fenced → ∀ q, h'.evaluations.load q EvaluationJob.isPending ≤
      h.evaluations.load q EvaluationJob.isPending) : RequestOk owners lim fenced h' r := by
  have htotal : (fenced → (h.totalLoad + 1 : ℤ) ≤ lim.gradingMaxPendingJobs) →
      fenced → (h'.totalLoad + 1 : ℤ) ≤ lim.gradingMaxPendingJobs := by
    intro hle hf
    have hmono := totalLoad_mono hjobs (hevaluations hf)
    have hbefore := hle hf
    omega
  rw [RequestOk] at hok ⊢
  rcases hphase : r.phase with _ | _ | _ | jobs | _ | _ | _ | _ <;> rw [hphase] at hok
  case countEvaluations => exact (hjobs _).trans hok
  case lockOwner => exact htotal hok
  case countOwner => exact htotal hok
  case write =>
    refine ⟨htotal hok.1, ?_⟩
    have howner := hok.2
    rcases hkind : r.kind with session | session | user <;> rw [hkind] at howner
    · exact (Nat.add_le_add_right (hjobs _) 1).trans howner
    · exact (Nat.add_le_add_right (hjobs _) 1).trans howner
    · intro hf
      have hmono : h'.evaluationLoad user ≤ h.evaluationLoad user := hevaluations hf _
      have hbefore := howner hf
      omega
  all_goals trivial

/-- A move that adds nothing to the loads. -/
theorem AdmissionInv.moved (hi : AdmissionInv owners lim fenced h)
    (hholder : ∀ u q, h'.requests u = some q → q.phase.Admitted → h'.admission = some u)
    (hjobs : ∀ e ∈ h'.jobs, Tame h'.Writing GradingJob.isPending e.2)
    (hevaluations : fenced → ∀ e ∈ h'.evaluations,
      Tame h'.Writing EvaluationJob.isPending e.2)
    (hjobLoad : ∀ q, h'.jobs.load q GradingJob.isPending ≤
      h.jobs.load q GradingJob.isPending)
    (hevaluationLoad : fenced → ∀ q, h'.evaluations.load q EvaluationJob.isPending ≤
      h.evaluations.load q EvaluationJob.isPending)
    (hrequests : ∀ u q, h'.requests u = some q →
      h.requests u = some q ∨ RequestOk owners lim fenced h q) :
    AdmissionInv owners lim fenced h' where
  holder := hholder
  jobs := hjobs
  evaluations := hevaluations
  jobLoad := fun u => (hjobLoad _).trans (hi.jobLoad u)
  evaluationLoad := fun hf u =>
    (Int.ofNat_le.mpr (hevaluationLoad hf _)).trans (hi.evaluationLoad hf u)
  totalLoad := fun hf =>
    (Int.ofNat_le.mpr (totalLoad_mono hjobLoad (hevaluationLoad hf))).trans (hi.totalLoad hf)
  requests := by
    intro u q hq
    have hok : RequestOk owners lim fenced h q := by
      rcases hrequests u q hq with hq | hok
      · exact hi.requests u q hq
      · exact hok
    exact hok.mono hjobLoad hevaluationLoad

theorem goto_requests_self : (h.goto t r p).requests t = some { r with phase := p } :=
  Function.update_self ..

theorem goto_requests_of_ne {u : ℕ} (hu : u ≠ t) :
    (h.goto t r p).requests u = h.requests u :=
  Function.update_of_ne hu ..

theorem writing_goto (hr : h.requests t = some r) (hcommit : r.phase ≠ .commit) (u : ℕ)
    (hu : h.Writing u) : (h.goto t r p).Writing u := by
  obtain ⟨q, hq, hphase⟩ := hu
  have hne : u ≠ t := by
    rintro rfl
    rw [hr] at hq
    obtain rfl := Option.some.inj hq
    exact hcommit hphase
  exact ⟨q, (goto_requests_of_ne hne).trans hq, hphase⟩

theorem AdmissionInv.goto (hi : AdmissionInv owners lim fenced h)
    (hr : h.requests t = some r) (hcommit : r.phase ≠ .commit)
    (hholder : p.Admitted → h.admission = some t)
    (hok : RequestOk owners lim fenced h { r with phase := p }) :
    AdmissionInv owners lim fenced (h.goto t r p) := by
  apply hi.moved
  · intro u q hq hadmitted
    by_cases hu : u = t
    · subst hu
      rw [goto_requests_self] at hq
      obtain rfl := Option.some.inj hq
      exact hholder hadmitted
    · rw [goto_requests_of_ne hu] at hq
      exact hi.holder u q hq hadmitted
  · exact fun e he => (hi.jobs e he).mono (writing_goto hr hcommit)
  · exact fun hf e he => (hi.evaluations hf e he).mono (writing_goto hr hcommit)
  · exact fun q => Nat.le_refl _
  · exact fun _ q => Nat.le_refl _
  · intro u q hq
    by_cases hu : u = t
    · subst hu
      rw [goto_requests_self] at hq
      obtain rfl := Option.some.inj hq
      exact Or.inr hok
    · rw [goto_requests_of_ne hu] at hq
      exact Or.inl hq

theorem AdmissionInv.acquire (hi : AdmissionInv owners lim fenced h)
    (hfree : h.admission = none) :
    AdmissionInv owners lim fenced { h with admission := some t } := by
  apply hi.moved
  · intro u q hq hadmitted
    have hheld := hi.holder u q hq hadmitted
    rw [hfree] at hheld
    cases hheld
  · exact hi.jobs
  · exact hi.evaluations
  · exact fun q => Nat.le_refl _
  · exact fun _ q => Nat.le_refl _
  · exact fun u q hq => Or.inl hq

theorem AdmissionInv.of_users (hi : AdmissionInv owners lim fenced h)
    (users : ℕ → Row QueueClient Bool) :
    AdmissionInv owners lim fenced { h with users := users } :=
  ⟨hi.holder, hi.jobs, hi.evaluations, hi.jobLoad, hi.evaluationLoad, hi.totalLoad, hi.requests⟩

/-- A change of the tables alone. -/
theorem AdmissionInv.setTables (hi : AdmissionInv owners lim fenced h)
    {jobs : Table QueueClient ℕ GradingJob} {evaluations : Table QueueClient ℕ EvaluationJob}
    (hjobs : ∀ e ∈ jobs, Tame h.Writing GradingJob.isPending e.2)
    (hevaluations : fenced → ∀ e ∈ evaluations, Tame h.Writing EvaluationJob.isPending e.2)
    (hjobLoad : ∀ q, jobs.load q GradingJob.isPending ≤ h.jobs.load q GradingJob.isPending)
    (hevaluationLoad : fenced → ∀ q, evaluations.load q EvaluationJob.isPending ≤
      h.evaluations.load q EvaluationJob.isPending) :
    AdmissionInv owners lim fenced { h with jobs := jobs, evaluations := evaluations } :=
  AdmissionInv.moved hi hi.holder hjobs hevaluations hjobLoad hevaluationLoad
    fun _ _ hq => Or.inl hq

theorem leave_requests {u : ℕ} {q : AdmissionRequest} (hq : (h.leave t).requests u = some q) :
    u ≠ t ∧ h.requests u = some q := by
  by_cases hu : u = t
  · subst hu
    simp [AdmissionHost.leave] at hq
  · exact ⟨hu, by simpa [AdmissionHost.leave, hu] using hq⟩

theorem writing_leave (u : ℕ) (hu : u ≠ t) (hw : h.Writing u) : (h.leave t).Writing u := by
  obtain ⟨q, hq, hphase⟩ := hw
  exact ⟨q, by simpa [AdmissionHost.leave, hu] using hq, hphase⟩

theorem AdmissionInv.leave_holder (hi : AdmissionInv owners lim fenced h) (u : ℕ)
    (q : AdmissionRequest) (hq : (h.leave t).requests u = some q)
    (hadmitted : q.phase.Admitted) : (h.leave t).admission = some u := by
  obtain ⟨hu, hq⟩ := leave_requests hq
  have hheld := hi.holder u q hq hadmitted
  simp [AdmissionHost.leave, hheld, hu]

theorem AdmissionInv.rollback (hi : AdmissionInv owners lim fenced h) :
    AdmissionInv owners lim fenced (h.rollback t) :=
  hi.moved hi.leave_holder (tame_rollbackRows_leave hi.jobs writing_leave)
    (fun hf => tame_rollbackRows_leave (hi.evaluations hf) writing_leave)
    (fun _ => Table.load_rollbackRows) (fun _ _ => Table.load_rollbackRows)
    fun _ _ hq => Or.inl (leave_requests hq).2

theorem AdmissionInv.commit (hi : AdmissionInv owners lim fenced h) :
    AdmissionInv owners lim fenced (h.commit t) :=
  hi.moved hi.leave_holder (tame_commitRows_leave hi.jobs writing_leave)
    (fun hf => tame_commitRows_leave (hi.evaluations hf) writing_leave)
    (fun _ => Table.load_commitRows) (fun _ _ => Table.load_commitRows)
    fun _ _ hq => Or.inl (leave_requests hq).2

/-- Nobody has written while a request holds the admission and has not. -/
theorem AdmissionInv.not_writing (hi : AdmissionInv owners lim fenced h)
    (hr : h.requests t = some r) (hadmitted : r.phase.Admitted) (hcommit : r.phase ≠ .commit)
    (u : ℕ) : ¬ h.Writing u := by
  rintro ⟨q, hq, hphase⟩
  have hheld := hi.holder u q hq (by simp [hphase, AdmissionPhase.Admitted])
  rw [hi.holder t r hr hadmitted] at hheld
  obtain rfl := Option.some.inj hheld
  rw [hr] at hq
  obtain rfl := Option.some.inj hq
  exact hcommit hphase

theorem AdmissionInv.jobs_le_count (hi : AdmissionInv owners lim fenced h)
    (hr : h.requests t = some r) (hadmitted : r.phase.Admitted) (hcommit : r.phase ≠ .commit)
    (q : ℕ → Bool) : h.jobs.load q GradingJob.isPending ≤
      h.jobs.count (.request t) q GradingJob.isPending :=
  Table.load_le_count fun e he =>
    (hi.jobs e he).visible (hi.not_writing hr hadmitted hcommit)

theorem AdmissionInv.evaluations_le_count (hi : AdmissionInv owners lim fenced h)
    (hf : fenced) (hr : h.requests t = some r) (hadmitted : r.phase.Admitted)
    (hcommit : r.phase ≠ .commit) (q : ℕ → Bool) :
    h.evaluations.load q EvaluationJob.isPending ≤
      h.evaluations.count (.request t) q EvaluationJob.isPending :=
  Table.load_le_count fun e he =>
    (hi.evaluations hf e he).visible (hi.not_writing hr hadmitted hcommit)

end

/-! ## The steps of a request -/

section

variable {owners : ℕ → ℕ} {lim : AdmissionLimits} {fenced : Prop} {h h' : AdmissionHost}
  {t : ℕ} {r : AdmissionRequest}

theorem AdmissionInv.lockFailed (hi : AdmissionInv owners lim fenced h)
    (hr : h.requests t = some r) (hphase : r.phase = .lockJob) (session : ℕ) :
    AdmissionInv owners lim fenced (lockFailed h t r session) := by
  rw [PromptCode.lockFailed]
  rcases h.jobOf t session with _ | job
  · exact hi.rollback
  dsimp only
  rcases hlock : (h.jobs[job]?).bind fun e => e.2.lock (.request t) with _ | row
  · exact hi
  dsimp only
  obtain ⟨e, he, hrow⟩ := Option.bind_eq_some_iff.mp hlock
  obtain ⟨rfl, -⟩ := Row.lock_eq_some hrow
  split_ifs
  · have hmem := List.mem_of_getElem? he
    have hlocked : AdmissionInv owners lim fenced
        { h with
          jobs := h.jobs.modify job fun d =>
            (d.1, e.2.put (.request t) (e.2.visible (.request t))) } := by
      apply hi.setTables
      · intro d hd
        rcases Table.mem_modify hd with hd | ⟨d, -, -, rfl⟩
        · exact hi.jobs d hd
        · exact (hi.jobs e hmem).lock
      · exact hi.evaluations
      · intro q
        apply Table.countP_modify_le
        intro d _ hd hpd
        rw [he] at hd
        obtain rfl := Option.some.inj hd
        rw [Bool.and_eq_true] at hpd ⊢
        refine ⟨hpd.1, ?_⟩
        have hput := hpd.2
        rw [Row.hasVersion_put, Bool.or_eq_true] at hput
        exact hput.elim Row.hasVersion_of_stored Row.hasVersion_of_visible
      · exact fun _ q => Nat.le_refl _
    exact hlocked.goto (p := .advisory) hr (by simp [hphase]) (by simp [AdmissionPhase.Admitted])
      trivial
  · exact hi.rollback

/-- The write adds one job to what the request has counted. -/
theorem AdmissionInv.write (hi : AdmissionInv owners lim fenced h)
    (hr : h.requests t = some r) (hphase : r.phase = .write)
    (hrequests : h'.requests = h.requests) (hadmission : h'.admission = h.admission)
    (hjobs : ∀ e ∈ h'.jobs, Tame (h.goto t r .commit).Writing GradingJob.isPending e.2)
    (hevaluations : fenced → ∀ e ∈ h'.evaluations,
      Tame (h.goto t r .commit).Writing EvaluationJob.isPending e.2)
    (hjobLoad : ∀ u, h'.jobLoad owners u ≤ maxPendingGradingPerUser)
    (hevaluationLoad : fenced → ∀ u,
      (h'.evaluationLoad u : ℤ) ≤ max lim.submissionMaxOutstandingJobsPerUser 0)
    (htotal : fenced → h'.totalLoad ≤ h.totalLoad + 1) :
    AdmissionInv owners lim fenced (h'.goto t r .commit) := by
  have hadmitted : r.phase.Admitted := by simp [hphase, AdmissionPhase.Admitted]
  have hheld := hi.holder t r hr hadmitted
  have hgoto : (h'.goto t r .commit).requests = (h.goto t r .commit).requests := by
    simp [AdmissionHost.goto, hrequests]
  have hwriting : (h'.goto t r .commit).Writing = (h.goto t r .commit).Writing := by
    funext u
    rw [AdmissionHost.Writing, AdmissionHost.Writing, hgoto]
  constructor
  · intro u q hq hadm
    rw [hgoto] at hq
    by_cases hu : u = t
    · rw [hu]
      exact hadmission.trans hheld
    · rw [goto_requests_of_ne hu] at hq
      exact hadmission.trans (hi.holder u q hq hadm)
  · rw [hwriting]
    exact hjobs
  · rw [hwriting]
    exact hevaluations
  · exact hjobLoad
  · exact hevaluationLoad
  · intro hf
    have hok := hi.requests t r hr
    rw [RequestOk, hphase] at hok
    have hcounted := hok.1 hf
    have hadded := htotal hf
    exact (show (h'.totalLoad : ℤ) ≤ _ by omega).trans (le_max_left _ _)
  · intro u q hq
    rw [hgoto] at hq
    by_cases hu : u = t
    · subst hu
      rw [goto_requests_self] at hq
      obtain rfl := Option.some.inj hq
      trivial
    · rw [goto_requests_of_ne hu] at hq
      have hout : ¬ q.phase.Admitted := by
        intro hadm
        have hother := hi.holder u q hq hadm
        rw [hheld] at hother
        exact hu (Option.some.inj hother).symm
      rcases hq' : q.phase with _ | _ | _ | jobs | _ | _ | _ | _ <;>
        simp only [hq', AdmissionPhase.Admitted, ne_eq, reduceCtorEq, not_false_eq_true,
          and_self, not_true_eq_false] at hout
      all_goals
        rw [RequestOk, hq']
        trivial

theorem ite_le_one (b : Bool) : (if b = true then 1 else 0) ≤ 1 := by
  split_ifs <;> omega

theorem AdmissionInv.writeJob (hi : AdmissionInv owners lim fenced h)
    (hr : h.requests t = some r) (hphase : r.phase = .write) (now : Time) :
    AdmissionInv owners lim fenced ((writeJob h t r now).goto t r .commit) := by
  have hcommit : r.phase ≠ .commit := by simp [hphase]
  have hgoto := writing_goto (p := .commit) hr hcommit
  have hwriting : (h.goto t r .commit).Writing t := ⟨_, goto_requests_self, rfl⟩
  have hjobs : ∀ e ∈ h.jobs, Tame (h.goto t r .commit).Writing GradingJob.isPending e.2 :=
    fun e he => (hi.jobs e he).mono hgoto
  have hevaluations : fenced → ∀ e ∈ h.evaluations,
      Tame (h.goto t r .commit).Writing EvaluationJob.isPending e.2 :=
    fun hf e he => (hi.evaluations hf e he).mono hgoto
  have hok := hi.requests t r hr
  rw [RequestOk, hphase] at hok
  have howner := hok.2
  rw [PromptCode.writeJob]
  rcases hkind : r.kind with session | session | user <;> rw [hkind] at howner
  case submit =>
    dsimp only
    rcases h.jobOf t session with _ | job
    · refine hi.write hr hphase rfl rfl (tame_insertRow hjobs hwriting _ _) hevaluations ?_
        hi.evaluationLoad ?_
      · intro u
        refine (Table.load_insertRow ..).trans ?_
        split_ifs with hu
        · obtain rfl := of_decide_eq_true hu
          exact howner
        · exact hi.jobLoad u
      · intro _
        have hadded := Table.load_insertRow (T := h.jobs) (t := QueueClient.request t)
          (q := fun _ => true) (p := GradingJob.isPending) session (enqueueGradingJob now)
        simp only [AdmissionHost.totalLoad]
        simp only [↓reduceIte] at hadded
        omega
    · exact hi.write hr hphase rfl rfl hjobs hevaluations hi.jobLoad hi.evaluationLoad
        fun _ => Nat.le_succ _
  case retry =>
    dsimp only
    rcases hjob : h.jobOf t session with _ | job
    · exact hi.write hr hphase rfl rfl hjobs hevaluations hi.jobLoad hi.evaluationLoad
        fun _ => Nat.le_succ _
    · obtain ⟨e, he, hsession⟩ : ∃ e, h.jobs[job]? = some e ∧ e.1 = session := by
        obtain ⟨hlt, hfound, -⟩ := List.findIdx?_eq_some_iff_getElem.mp hjob
        refine ⟨_, List.getElem?_eq_getElem hlt, ?_⟩
        exact of_decide_eq_true (Bool.and_eq_true _ _ ▸ hfound).1
      refine hi.write hr hphase rfl rfl (tame_changeRow_request hjobs hwriting) hevaluations ?_
        hi.evaluationLoad ?_
      · intro u
        refine Table.load_changeRow_le.trans ?_
        rw [he, Option.any_some, hsession]
        split_ifs with hu
        · obtain rfl := of_decide_eq_true hu
          exact howner
        · exact hi.jobLoad u
      · intro _
        have hadded : (h.jobs.changeRow job (.request t) (fun _ => true)
            (GradingJob.reopen now)).load (fun _ => true) GradingJob.isPending ≤ _ :=
          Table.load_changeRow_le
        have hone := ite_le_one ((h.jobs[job]?).any fun _ => true)
        simp only [AdmissionHost.totalLoad]
        omega
  case create =>
    dsimp only
    refine hi.write hr hphase rfl rfl hjobs
      (fun hf => tame_insertRow (hevaluations hf) hwriting _ _) hi.jobLoad ?_ ?_
    · intro hf u
      have hadded := Table.load_insertRow (T := h.evaluations) (t := QueueClient.request t)
        (q := (· = u)) (p := EvaluationJob.isPending) user (enqueueEvaluationJob 3 now)
      rw [AdmissionHost.evaluationLoad]
      split_ifs at hadded with hu
      · obtain rfl := of_decide_eq_true hu
        have hcounted := howner hf
        rw [AdmissionHost.evaluationLoad] at hcounted
        refine le_trans ?_ (le_max_left _ _)
        exact (Int.ofNat_le.mpr hadded).trans hcounted
      · exact (Int.ofNat_le.mpr hadded).trans (hi.evaluationLoad hf u)
    · intro _
      have hadded := Table.load_insertRow (T := h.evaluations) (t := QueueClient.request t)
        (q := fun _ => true) (p := EvaluationJob.isPending) user (enqueueEvaluationJob 3 now)
      simp only [AdmissionHost.totalLoad]
      simp only [↓reduceIte] at hadded
      omega

theorem requestNext_inv (hi : AdmissionInv owners lim fenced h) (hr : h.requests t = some r)
    (now : Time) : AdmissionInv owners lim fenced (requestNext owners lim h t r now) := by
  rw [requestNext]
  rcases hphase : r.phase with _ | _ | _ | jobs | _ | _ | _ | _ <;> dsimp only
  case lockJob =>
    have hfree : AdmissionInv owners lim fenced (h.goto t r .advisory) :=
      hi.goto hr (by simp [hphase]) (by simp [AdmissionPhase.Admitted]) trivial
    rcases r.kind with session | session | user
    · exact hfree
    · exact hi.lockFailed hr hphase session
    · exact hfree
  case advisory =>
    split_ifs with hfree
    · exact (hi.acquire hfree).goto (p := .countJobs) hr (by simp [hphase]) (fun _ => rfl)
        trivial
    · exact hi
  case commit => exact hi.commit
  all_goals
    have hadmitted : r.phase.Admitted := by simp [hphase, AdmissionPhase.Admitted]
    have hcommit : r.phase ≠ .commit := by simp [hphase]
    have hheld := hi.holder t r hr hadmitted
    have hok := hi.requests t r hr
    rw [RequestOk, hphase] at hok
  case countJobs =>
    exact hi.goto hr hcommit (fun _ => hheld) (hi.jobs_le_count hr hadmitted hcommit _)
  case countEvaluations =>
    split_ifs with hrefused
    · exact hi.rollback
    · refine hi.goto hr hcommit (fun _ => hheld) ?_
      intro hf
      have hle := hi.evaluations_le_count hf hr hadmitted hcommit fun _ => true
      simp only [globalRefused, decide_eq_true_eq, not_le] at hrefused
      rw [AdmissionHost.totalLoad]
      omega
  case lockOwner =>
    rcases (h.users (r.kind.owner owners)).lock (.request t) with _ | row
    · exact hi
    dsimp only
    split_ifs
    · exact (hi.goto (p := .countOwner) hr hcommit (fun _ => hheld) hok).of_users _
    · exact hi.rollback
  case countOwner =>
    split_ifs with hrefused
    · exact hi.rollback
    · refine hi.goto hr hcommit (fun _ => hheld) ⟨hok, ?_⟩
      rw [ownerRefused] at hrefused
      rcases hkind : r.kind with session | session | user <;>
        simp only [hkind, decide_eq_true_eq, not_le] at hrefused ⊢
      · exact Nat.lt_of_le_of_lt (hi.jobs_le_count hr hadmitted hcommit _) hrefused
      · exact Nat.lt_of_le_of_lt (hi.jobs_le_count hr hadmitted hcommit _) hrefused
      · intro hf
        have hle := hi.evaluations_le_count hf hr hadmitted hcommit (· = user)
        rw [AdmissionHost.evaluationLoad]
        omega
  case write => exact hi.writeJob hr hphase now

end

/-! ## The workers -/

theorem GradingJob.isPending_of_isExpired {now : Time} {job : GradingJob}
    (h : job.isExpired now = true) : job.isPending = true := by
  simp only [isExpired, Bool.and_eq_true, decide_eq_true_eq] at h
  simp [isPending, h.1]

theorem GradingJob.isPending_of_isExhausted {job : GradingJob}
    (h : job.isExhausted = true) : job.isPending = true := by
  simp only [isExhausted, Bool.and_eq_true, decide_eq_true_eq] at h
  simp [isPending, h.1]

theorem GradingJob.isPending_of_isClaimable {now : Time} {job : GradingJob}
    (h : job.isClaimable now = true) : job.isPending = true := by
  simp only [isClaimable, Bool.and_eq_true, decide_eq_true_eq] at h
  simp [isPending, h.1.1]

theorem GradingJob.isPending_of_isLeased {token : Option Text} {job : GradingJob}
    (h : job.isLeased token = true) : job.isPending = true := by
  simp only [isLeased, Bool.and_eq_true, decide_eq_true_eq] at h
  simp [isPending, h.1]

theorem GradingJob.isPending_of_isLeasedAt {token : Option Text} {now : Time}
    {job : GradingJob} (h : job.isLeasedAt token now = true) : job.isPending = true :=
  isPending_of_isLeased (Bool.and_eq_true _ _ ▸ h).1

section

variable {owners : ℕ → ℕ} {lim : AdmissionLimits} {fenced : Prop} {h : AdmissionHost} {w : ℕ}

/-- A worker's statement on a grading job that it takes for pending. -/
theorem AdmissionInv.changeJob (hi : AdmissionInv owners lim fenced h) {job : ℕ}
    {p : GradingJob → Bool} {f : GradingJob → GradingJob}
    (hp : ∀ j, p j = true → j.isPending = true) :
    AdmissionInv owners lim fenced
      { h with jobs := h.jobs.changeRow job (.worker w) p f } := by
  refine hi.setTables (tame_changeRow_worker hi.jobs fun _ _ j _ hj _ => hp j hj)
    hi.evaluations ?_ (fun _ q => Nat.le_refl _)
  intro q
  apply Table.load_changeRow
  intro e _ _ j hj hpj _
  apply Row.hasVersion_of_visible (t := .worker w)
  rw [hj]
  exact hp j hpj

/-- A worker's statement on an evaluation job that it makes pending only if it was. -/
theorem AdmissionInv.changeEvaluation (hi : AdmissionInv owners lim fenced h) {job : ℕ}
    {p : EvaluationJob → Bool} {f : EvaluationJob → EvaluationJob}
    (hp : fenced → ∀ e ∈ h.evaluations[job]?, ∀ j, e.2.visible (.worker w) = some j →
      p j = true → (f j).isPending = true → j.isPending = true) :
    AdmissionInv owners lim fenced
      { h with evaluations := h.evaluations.changeRow job (.worker w) p f } := by
  refine hi.setTables hi.jobs (fun hf => tame_changeRow_worker (hi.evaluations hf) (hp hf))
    (fun q => Nat.le_refl _) ?_
  intro hf q
  apply Table.load_changeRow
  intro e _ he j hj hpj hfj
  apply Row.hasVersion_of_visible (t := .worker w)
  rw [hj]
  exact hp hf e he j hj hpj hfj

theorem admissionAct_inv (hi : AdmissionInv owners lim fenced h) (a : AdmissionAction)
    (ha : fenced → EndsInTime h a) :
    AdmissionInv owners lim fenced (admissionAct owners lim h a) := by
  rcases a with ⟨t, kind⟩ | ⟨t, now⟩ | t | ⟨w, job, now⟩ | ⟨w, job, now⟩ |
    ⟨w, job, timeout, now, token⟩ | ⟨w, job, token, envelope, now⟩ | ⟨w, job, lease, now⟩ |
    ⟨w, job, now⟩ | ⟨w, job, loaded, configured, outcome, now⟩ |
    ⟨w, job, configured, now, submission⟩ | w | w <;> rw [admissionAct]
  case start =>
    rcases hr : h.requests t with _ | r
    · have hnew : ∀ u q, Function.update h.requests t (some ⟨kind, .lockJob⟩) u = some q →
          u = t ∧ q.phase = .lockJob ∨ h.requests u = some q := by
        intro u q hq
        by_cases hu : u = t
        · subst hu
          rw [Function.update_self] at hq
          obtain rfl := Option.some.inj hq
          exact Or.inl ⟨rfl, rfl⟩
        · rw [Function.update_of_ne hu] at hq
          exact Or.inr hq
      have hwriting : ∀ u, h.Writing u → AdmissionHost.Writing
          { h with requests := Function.update h.requests t (some ⟨kind, .lockJob⟩) } u := by
        rintro u ⟨q, hq, hphase⟩
        have hu : u ≠ t := by
          rintro rfl
          rw [hr] at hq
          cases hq
        exact ⟨q, (Function.update_of_ne hu ..).trans hq, hphase⟩
      apply hi.moved
      · intro u q hq hadmitted
        rcases hnew u q hq with ⟨-, hphase⟩ | hq
        · exact absurd hphase hadmitted.1
        · exact hi.holder u q hq hadmitted
      · exact fun e he => (hi.jobs e he).mono hwriting
      · exact fun hf e he => (hi.evaluations hf e he).mono hwriting
      · exact fun q => Nat.le_refl _
      · exact fun _ q => Nat.le_refl _
      · intro u q hq
        rcases hnew u q hq with ⟨-, hphase⟩ | hq
        · rw [RequestOk, hphase]
          exact Or.inr trivial
        · exact Or.inl hq
    · exact hi
  case next =>
    rcases hr : h.requests t with _ | r
    · exact hi
    · exact requestNext_inv hi hr now
  case fail => exact hi.rollback
  case requeue => exact hi.changeJob fun _ => GradingJob.isPending_of_isExpired
  case giveUp => exact hi.changeJob fun _ => GradingJob.isPending_of_isExhausted
  case claim => exact hi.changeJob fun _ => GradingJob.isPending_of_isClaimable
  case finish => exact hi.changeJob fun _ => GradingJob.isPending_of_isLeasedAt
  case failJob => exact hi.changeJob fun _ => GradingJob.isPending_of_isLeased
  case claimEvaluation =>
    apply hi.changeEvaluation
    intro _ _ _ j _ hj _
    have hwaiting : j.status.Waiting := of_decide_eq_true (Bool.and_eq_true _ _ ▸ hj).1
    rcases hwaiting with hj | hj <;> simp [EvaluationJob.isPending, hj]
  case finishEvaluation =>
    apply hi.changeEvaluation
    intro hf e he j hj _ _
    simp [EvaluationJob.isPending, ha hf e he j hj]
  case recover =>
    apply hi.changeEvaluation
    intro _ _ _ j _ hj _
    simp only [Bool.and_eq_true, decide_eq_true_eq] at hj
    simp [EvaluationJob.isPending, hj.1]
  case commitWorker =>
    exact hi.setTables (tame_commitRows hi.jobs _) (fun hf => tame_commitRows (hi.evaluations hf) _)
      (fun _ => Table.load_commitRows) fun _ _ => Table.load_commitRows
  case crashWorker =>
    exact hi.setTables (tame_rollbackRows hi.jobs _)
      (fun hf => tame_rollbackRows (hi.evaluations hf) _)
      (fun _ => Table.load_rollbackRows) fun _ _ => Table.load_rollbackRows

end

/-! ## The bounds -/

section

variable (owners : ℕ → ℕ) (lim : AdmissionLimits) (users : ℕ → Bool)

theorem freshAdmission_inv (fenced : Prop) :
    AdmissionInv owners lim fenced (freshAdmission users) where
  holder := by simp [freshAdmission]
  jobs := by simp [freshAdmission]
  evaluations := by simp [freshAdmission]
  jobLoad := by simp [freshAdmission, AdmissionHost.jobLoad, Table.load]
  evaluationLoad := by simp [freshAdmission, AdmissionHost.evaluationLoad, Table.load]
  totalLoad := by simp [freshAdmission, AdmissionHost.totalLoad, Table.load]
  requests := by simp [freshAdmission]

/-- In every run the committed grading jobs of a user that wait or run are at most three. -/
theorem grading_jobs_of_user_bounded (actions : List AdmissionAction) (u : ℕ) :
    (run (admissionAct owners lim) (freshAdmission users) actions).jobs.storedCount
      (owners · = u) GradingJob.isPending ≤ maxPendingGradingPerUser := by
  have hinv : AdmissionInv owners lim False
      (run (admissionAct owners lim) (freshAdmission users) actions) :=
    invariant_run_of_step _ (fun h a hi => admissionAct_inv hi a False.elim)
      (freshAdmission_inv owners lim users False)
  exact Table.storedCount_le_load.trans (hinv.jobLoad u)

/-- In every run whose evaluations end before their jobs are recovered, all pending jobs
keep within the global limit and the evaluation jobs of a user within the limit for one. -/
theorem pending_jobs_bounded {actions : List AdmissionAction}
    (hended : Throughout (admissionAct owners lim) EndsInTime (freshAdmission users) actions) :
    ((run (admissionAct owners lim) (freshAdmission users) actions).jobs.storedCount
          (fun _ => true) GradingJob.isPending +
        (run (admissionAct owners lim) (freshAdmission users) actions).evaluations.storedCount
          (fun _ => true) EvaluationJob.isPending : ℤ) ≤ max lim.gradingMaxPendingJobs 0 ∧
      ∀ u, ((run (admissionAct owners lim) (freshAdmission users)
          actions).evaluations.storedCount (· = u) EvaluationJob.isPending : ℤ) ≤
        max lim.submissionMaxOutstandingJobsPerUser 0 := by
  have hinv : AdmissionInv owners lim True
      (run (admissionAct owners lim) (freshAdmission users) actions) :=
    invariant_run _ (fun h a hi ha => admissionAct_inv hi a fun _ => ha)
      (freshAdmission_inv owners lim users True) hended
  refine ⟨?_, fun u => ?_⟩
  · have htotal := hinv.totalLoad trivial
    have hjobs := Table.storedCount_le_load (p := GradingJob.isPending) (q := fun _ => true)
      (T := (run (admissionAct owners lim) (freshAdmission users) actions).jobs)
    have hevaluations := Table.storedCount_le_load (p := EvaluationJob.isPending)
      (q := fun _ => true)
      (T := (run (admissionAct owners lim) (freshAdmission users) actions).evaluations)
    rw [AdmissionHost.totalLoad] at htotal
    omega
  · exact (Int.ofNat_le.mpr Table.storedCount_le_load).trans (hinv.evaluationLoad trivial u)

/-- A submission that is queued, claimed and evaluated. -/
def oneSubmission : List AdmissionAction :=
  .start 0 (.create 7) :: List.replicate 8 (.next 0 0) ++
    [.claimEvaluation 1 0 5, .commitWorker 1,
      .finishEvaluation 1 0 { enqueueEvaluationJob 3 0 with status := .running } 0 .completed 9,
      .commitWorker 1]

theorem pending_jobs_bounded_one :
    ((run (admissionAct id ⟨1, 1⟩) (freshAdmission fun _ => true)
        oneSubmission).evaluations.storedCount (· = 7) EvaluationJob.isPending : ℤ) ≤
      max 1 0 := by
  have hended : Throughout (admissionAct id ⟨1, 1⟩) EndsInTime (freshAdmission fun _ => true)
      oneSubmission := by
    refine ⟨trivial, trivial, trivial, trivial, trivial, trivial, trivial, trivial, trivial,
      trivial, trivial, ?_, trivial, trivial⟩
    rintro e he j hj
    obtain rfl := Option.some.inj he
    obtain rfl := Option.some.inj hj
    rfl
  exact (pending_jobs_bounded id ⟨1, 1⟩ (fun _ => true) hended).2 7

end

end PromptCode
