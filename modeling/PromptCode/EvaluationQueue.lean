import PromptCode.Py.Json
import PromptCode.Transition

/-!
# The evaluation queue

A worker claims a job row, runs the evaluation pipeline for as long as it takes
and stores the outcome from the values it loaded.  Any other worker may meanwhile
recover a job that has been running too long.  Nothing but the status, the
attempts and the timestamps of the row says who owns it.
-/

namespace PromptCode

open Py Transition

/-- A point in time or a duration, in microseconds. -/
abbrev Time := ℤ

def seconds (n : ℤ) : Time := n * 1000000

/-! ## Job rows -/

inductive EvaluationStatus where
  | queued | running | retry | completed | failed
  deriving DecidableEq

structure EvaluationJob where
  status : EvaluationStatus
  attempts : ℕ
  maxAttempts : ℕ
  lastError : Option Str
  availableAt : Time
  startedAt : Option Time
  finishedAt : Option Time
  deriving DecidableEq

def EvaluationStatus.Final (s : EvaluationStatus) : Prop :=
  s = .completed ∨ s = .failed

/-- The statuses a claim takes. -/
def EvaluationStatus.Waiting (s : EvaluationStatus) : Prop :=
  s = .queued ∨ s = .retry

instance (s : EvaluationStatus) : Decidable s.Waiting :=
  inferInstanceAs (Decidable (s = .queued ∨ s = .retry))

def enqueueEvaluationJob (maxAttempts : ℕ) (now : Time) : EvaluationJob where
  status := .queued
  attempts := 0
  maxAttempts := maxAttempts
  lastError := none
  availableAt := now
  startedAt := none
  finishedAt := none

section

variable {α : Type} [DecidableEq α]

/-- An attribute of a mapped object is part of its `UPDATE` if it differs from the
value that was loaded. -/
def flushed (row loaded new : α) : α := if new = loaded then row else new

@[simp] theorem flushed_self (row new : α) : flushed row row new = new := by
  unfold flushed
  split_ifs with h
  · exact h.symm
  · rfl

end

/-- The `UPDATE` by primary key that stores a changed job. -/
def EvaluationJob.flush (row loaded new : EvaluationJob) : EvaluationJob where
  status := flushed row.status loaded.status new.status
  attempts := flushed row.attempts loaded.attempts new.attempts
  maxAttempts := flushed row.maxAttempts loaded.maxAttempts new.maxAttempts
  lastError := flushed row.lastError loaded.lastError new.lastError
  availableAt := flushed row.availableAt loaded.availableAt new.availableAt
  startedAt := flushed row.startedAt loaded.startedAt new.startedAt
  finishedAt := flushed row.finishedAt loaded.finishedAt new.finishedAt

@[simp] theorem EvaluationJob.flush_self (row new : EvaluationJob) :
    row.flush row new = new := by
  simp [flush]

/-! ## Settings -/

def evaluationJobTimeout (configured : Time) : Time := max (seconds 60) configured

def stuckJobRecovery (configured : Time) : Time :=
  max (evaluationJobTimeout configured * 2)
    (evaluationJobTimeout configured + seconds 300)

def retryBackoffSeconds (attempts : ℕ) : ℕ := min 60 (2 ^ max 1 attempts)

/-! ## Changes of a row -/

def EvaluationJob.setRetryOrFailed (job : EvaluationJob) (now : Time)
    (lastError : Str) : EvaluationJob :=
  if job.maxAttempts ≤ job.attempts then
    { job with
      status := .failed
      finishedAt := some now
      lastError := some (lastError.take 1500) }
  else
    { job with
      status := .retry
      availableAt := now + seconds (retryBackoffSeconds job.attempts)
      finishedAt := none
      lastError := some (lastError.take 1500) }

def EvaluationJob.complete (job : EvaluationJob) (now : Time) : EvaluationJob :=
  { job with status := .completed, finishedAt := some now, lastError := none }

def EvaluationJob.stuckError (job : EvaluationJob) (now : Time) : Str :=
  lit "Recovered stuck evaluation job after " ++
    jsonNat ((now - job.startedAt.getD now).toNat / 1000000) ++
    lit " seconds in 'running'; retrying cleanly."

/-- A duration in whole seconds, a half rounded to the even second. -/
def wholeSeconds (t : Time) : ℕ :=
  let s := t.toNat / 1000000
  let r := t.toNat % 1000000
  if r < 500000 ∨ (r = 500000 ∧ s % 2 = 0) then s else s + 1

/-- What becomes of a run of the evaluation pipeline. -/
inductive RunOutcome where
  | completed
  | incomplete
  | timeout
  | raised (text : Str)
  | cancelled

/-- `_run_job` once the pipeline has ended. -/
def EvaluationJob.afterRun (job : EvaluationJob) (configured : Time)
    (outcome : RunOutcome) (now : Time) : EvaluationJob :=
  match outcome with
  | .completed => job.complete now
  | .incomplete => job.setRetryOrFailed now
      (lit "Submission evaluation did not complete successfully.")
  | .timeout => job.setRetryOrFailed now
      (lit "Evaluation timed out after " ++
        jsonNat (wholeSeconds (evaluationJobTimeout configured)) ++ lit " seconds.")
  | .raised text => job.setRetryOrFailed now text
  | .cancelled => job

/-- `_recover_stuck_jobs` on one row.  The argument is the completion time of the
submission where it reads a completed submission. -/
def EvaluationJob.recovered (job : EvaluationJob) (now : Time)
    (submission : Option (Option Time)) : EvaluationJob :=
  match submission with
  | some completedAt => job.complete (completedAt.getD now)
  | none => job.setRetryOrFailed now (job.stuckError now)

/-- The row is within its budget of attempts, and it waits for another one only if
there is one left. -/
def EvaluationJob.InBudget (job : EvaluationJob) : Prop :=
  job.attempts ≤ job.maxAttempts ∧
    (job.status.Waiting → job.attempts < job.maxAttempts)

theorem EvaluationJob.complete_inBudget {job : EvaluationJob} (now : Time)
    (hjob : job.InBudget) : (job.complete now).InBudget :=
  ⟨hjob.1, by simp [complete, EvaluationStatus.Waiting]⟩

theorem EvaluationJob.setRetryOrFailed_inBudget {job : EvaluationJob} (now : Time)
    (text : Str) (hjob : job.InBudget) :
    (job.setRetryOrFailed now text).InBudget := by
  unfold setRetryOrFailed
  split_ifs with hlast
  · exact ⟨hjob.1, by simp [EvaluationStatus.Waiting]⟩
  · exact ⟨hjob.1, fun _ => not_le.mp hlast⟩

theorem EvaluationJob.afterRun_inBudget {job : EvaluationJob} (configured : Time)
    (outcome : RunOutcome) (now : Time) (hjob : job.InBudget) :
    (job.afterRun configured outcome now).InBudget := by
  rcases outcome with _ | _ | _ | text | _
  · exact complete_inBudget now hjob
  · exact setRetryOrFailed_inBudget now _ hjob
  · exact setRetryOrFailed_inBudget now _ hjob
  · exact setRetryOrFailed_inBudget now text hjob
  · exact hjob

theorem EvaluationJob.recovered_inBudget {job : EvaluationJob} (now : Time)
    (submission : Option (Option Time)) (hjob : job.InBudget) :
    (job.recovered now submission).InBudget := by
  rcases submission with _ | completedAt
  · exact setRetryOrFailed_inBudget now _ hjob
  · exact complete_inBudget _ hjob

/-! ## Workers -/

/-- Where a worker is between its statements. -/
inductive WorkerPhase where
  | idle
  /-- The claim with this number is committed, the row not yet loaded. -/
  | claimed (k : ℕ)
  /-- The pipeline runs, with the values of the row as they were loaded. -/
  | running (k : ℕ) (job : EvaluationJob)
  /-- Recovery holds the row lock. -/
  | recovering (now : Time) (job : EvaluationJob)

/-- A job row, its lock and the workers.  The number of claims and the worker from
which recovery has not taken the job are not stored anywhere. -/
structure QueueHost where
  job : EvaluationJob
  locked : Option ℕ
  workers : ℕ → WorkerPhase
  claims : ℕ
  owner : Option ℕ

def QueueHost.setWorker (h : QueueHost) (w : ℕ) (phase : WorkerPhase) : QueueHost :=
  { h with workers := Function.update h.workers w phase }

/-- The worker no longer has the job in hand. -/
def QueueHost.letGo (h : QueueHost) (w : ℕ) : QueueHost :=
  { h with owner := if h.owner = some w then none else h.owner }

section

variable (h : QueueHost) (w : ℕ) (phase : WorkerPhase)

@[simp] theorem QueueHost.setWorker_job : (h.setWorker w phase).job = h.job := rfl

@[simp] theorem QueueHost.setWorker_locked :
    (h.setWorker w phase).locked = h.locked := rfl

@[simp] theorem QueueHost.setWorker_claims :
    (h.setWorker w phase).claims = h.claims := rfl

@[simp] theorem QueueHost.setWorker_owner :
    (h.setWorker w phase).owner = h.owner := rfl

@[simp] theorem QueueHost.setWorker_self :
    (h.setWorker w phase).workers w = phase := by
  simp [setWorker]

theorem QueueHost.setWorker_of_ne {v : ℕ} (hv : v ≠ w) :
    (h.setWorker w phase).workers v = h.workers v := by
  simp [setWorker, hv]

end

inductive QueueAction where
  /-- `_claim_job_by_id` up to its commit. -/
  | claim (w : ℕ) (now : Time)
  /-- Its closing `get`, in a transaction of its own. -/
  | load (w : ℕ)
  /-- The end of `_run_job`. -/
  | finish (w : ℕ) (outcome : RunOutcome) (now : Time)
  /-- `_recover_stuck_jobs` up to the row lock. -/
  | recover (w : ℕ) (now : Time)
  /-- Its commit. -/
  | commitRecovery (w : ℕ) (submission : Option (Option Time))
  | crash (w : ℕ)

/-- One statement of one worker. -/
def queueAct (configured : Time) (h : QueueHost) : QueueAction → QueueHost
  | .claim w now =>
      match h.workers w with
      | .idle =>
          if h.locked = none ∧ h.job.status.Waiting ∧ h.job.availableAt ≤ now then
            { job :=
                { h.job with
                  status := .running
                  startedAt := some now
                  attempts := h.job.attempts + 1 }
              locked := h.locked
              workers := Function.update h.workers w (.claimed (h.claims + 1))
              claims := h.claims + 1
              owner := some w }
          else h
      | _ => h
  | .load w =>
      match h.workers w with
      | .claimed k => h.setWorker w (.running k h.job)
      | _ => h
  | .finish w outcome now =>
      match h.workers w with
      | .running _ job =>
          -- the `UPDATE` waits for the row lock
          if h.locked = none then
            { h.letGo w with
              job := h.job.flush job (job.afterRun configured outcome now)
              workers := Function.update h.workers w .idle }
          else h
      | _ => h
  | .recover w now =>
      match h.workers w with
      | .idle =>
          if h.locked = none ∧ h.job.status = .running ∧
              ∃ t ∈ h.job.startedAt, t ≤ now - stuckJobRecovery configured then
            { h with
              locked := some w
              workers := Function.update h.workers w (.recovering now h.job) }
          else h
      | _ => h
  | .commitRecovery w submission =>
      match h.workers w with
      | .recovering now job =>
          { h with
            job := h.job.flush job (job.recovered now submission)
            locked := none
            workers := Function.update h.workers w .idle
            owner := none }
      | _ => h
  | .crash w =>
      { h.letGo w with
        locked := if h.locked = some w then none else h.locked
        workers := Function.update h.workers w .idle }

def freshQueue (maxAttempts : ℕ) (now : Time) : QueueHost where
  job := enqueueEvaluationJob maxAttempts now
  locked := none
  workers := fun _ => .idle
  claims := 0
  owner := none

/-! ## What a step can do -/

/-- The ways in which one statement changes the queue. -/
inductive QueueMove (configured : Time) (h : QueueHost) :
    QueueAction → QueueHost → Prop where
  | rest (a) : QueueMove configured h a h
  | claim (w now) (hphase : h.workers w = .idle) (hfree : h.locked = none)
      (hwaiting : h.job.status.Waiting) :
      QueueMove configured h (.claim w now)
        { job :=
            { h.job with
              status := .running
              startedAt := some now
              attempts := h.job.attempts + 1 }
          locked := h.locked
          workers := Function.update h.workers w (.claimed (h.claims + 1))
          claims := h.claims + 1
          owner := some w }
  | load (w k) (hphase : h.workers w = .claimed k) :
      QueueMove configured h (.load w) (h.setWorker w (.running k h.job))
  | finish (w outcome now k job) (hphase : h.workers w = .running k job)
      (hfree : h.locked = none) :
      QueueMove configured h (.finish w outcome now)
        { h.letGo w with
          job := h.job.flush job (job.afterRun configured outcome now)
          workers := Function.update h.workers w .idle }
  | recover (w now) (hphase : h.workers w = .idle) (hfree : h.locked = none)
      (hrunning : h.job.status = .running) :
      QueueMove configured h (.recover w now)
        { h with
          locked := some w
          workers := Function.update h.workers w (.recovering now h.job) }
  | commitRecovery (w submission now job)
      (hphase : h.workers w = .recovering now job) :
      QueueMove configured h (.commitRecovery w submission)
        { h with
          job := h.job.flush job (job.recovered now submission)
          locked := none
          workers := Function.update h.workers w .idle
          owner := none }
  | crash (w) :
      QueueMove configured h (.crash w)
        { h.letGo w with
          locked := if h.locked = some w then none else h.locked
          workers := Function.update h.workers w .idle }

theorem queueAct_move (configured : Time) (h : QueueHost) (a : QueueAction) :
    QueueMove configured h a (queueAct configured h a) := by
  unfold queueAct
  split
  · split
    · split_ifs with hc
      · exact .claim _ _ ‹_› hc.1 hc.2.1
      · exact .rest _
    · exact .rest _
  · split
    · exact .load _ _ ‹_›
    · exact .rest _
  · split
    · split_ifs with hfree
      · exact .finish _ _ _ _ _ ‹_› hfree
      · exact .rest _
    · exact .rest _
  · split
    · split_ifs with hc
      · exact .recover _ _ ‹_› hc.1 hc.2.1
      · exact .rest _
    · exact .rest _
  · split
    · exact .commitRecovery _ _ _ _ ‹_›
    · exact .rest _
  · exact .crash _

/-! ## The fence -/

/-- What is expected of a single step: a final status stays, the attempts stay
within their budget, and only the worker that made the latest claim stores a
status. -/
structure KeepsFence (configured : Time) (h : QueueHost) (a : QueueAction) :
    Prop where
  final : h.job.status.Final →
    (queueAct configured h a).job.status = h.job.status
  budget : (queueAct configured h a).job.attempts ≤
    (queueAct configured h a).job.maxAttempts
  claimant : ∀ w outcome now k job, a = .finish w outcome now →
    h.workers w = .running k job → h.locked = none →
    (job.afterRun configured outcome now).status ≠ job.status → k = h.claims

/-- A worker that stores the outcome of its run has not lost the job to
recovery. -/
def NotRecovered (h : QueueHost) (a : QueueAction) : Prop :=
  ∀ w outcome now k job, a = .finish w outcome now →
    h.workers w = .running k job → h.owner = some w

/-- The worker has made the latest claim and knows the row as it is. -/
def QueueHost.Holds (h : QueueHost) : WorkerPhase → Prop
  | .claimed k => k = h.claims
  | .running k job => k = h.claims ∧ job = h.job
  | _ => False

structure QueueInv (h : QueueHost) : Prop where
  inBudget : h.job.InBudget
  owner : ∀ w, h.owner = some w → h.job.status = .running ∧ h.Holds (h.workers w)
  recovering : ∀ w now job, h.workers w = .recovering now job →
    h.locked = some w ∧ job = h.job ∧ h.job.status = .running

theorem freshQueue_inv {maxAttempts : ℕ} (hmax : 0 < maxAttempts) (now : Time) :
    QueueInv (freshQueue maxAttempts now) where
  inBudget := ⟨Nat.zero_le _, fun _ => hmax⟩
  owner := by simp [freshQueue]
  recovering := by simp [freshQueue]

/-- Another worker's phase has changed. -/
theorem QueueHost.Holds.of_eq {h h' : QueueHost} {phase : WorkerPhase}
    (hclaims : h'.claims = h.claims) (hjob : h'.job = h.job) (hp : h.Holds phase) :
    h'.Holds phase := by
  rcases phase with _ | k | ⟨k, job⟩ | ⟨now, job⟩
  · exact hp
  · exact hp.trans hclaims.symm
  · exact ⟨hp.1.trans hclaims.symm, hp.2.trans hjob.symm⟩
  · exact hp

theorem QueueHost.letGo_owner_eq_some {h : QueueHost} {v w : ℕ}
    (hv : (h.letGo w).owner = some v) : h.owner = some v ∧ v ≠ w := by
  unfold letGo at hv
  dsimp only at hv
  split_ifs at hv with hw
  refine ⟨hv, ?_⟩
  rintro rfl
  exact hw hv

/-- Every step in which no worker stores an outcome of a job it has lost keeps the
invariant. -/
theorem QueueMove.inv {configured : Time} {h h' : QueueHost} {a : QueueAction}
    (hmove : QueueMove configured h a h') (hi : QueueInv h)
    (hcond : NotRecovered h a) : QueueInv h' := by
  obtain ⟨hbudget, howner, hrec⟩ := hi
  -- the row that a worker takes from `idle` or `claimed` is in nobody's recovery
  have hother : ∀ w phase, (∀ now job, phase ≠ .recovering now job) →
      ∀ v now job, Function.update h.workers w phase v = .recovering now job →
        h.workers v = .recovering now job := by
    intro w phase hphase v now job hv
    by_cases hvw : v = w
    · subst hvw
      rw [Function.update_self] at hv
      exact absurd hv (hphase now job)
    · rwa [Function.update_of_ne hvw] at hv
  have hunlocked : h.locked = none → ∀ w now job,
      h.workers w ≠ .recovering now job := by
    intro hnone w now job hw
    have hlock := (hrec w now job hw).1
    rw [hnone] at hlock
    exact absurd hlock (by simp)
  rcases hmove with _ | ⟨w, now, hphase, hfree, hwaiting⟩ | ⟨w, k, hphase⟩ |
    ⟨w, outcome, now, k, job, hphase, hfree⟩ | ⟨w, now, hphase, hfree, hrunning⟩ |
    ⟨w, submission, now, job, hphase⟩ | ⟨w⟩
  · exact ⟨hbudget, howner, hrec⟩
  · refine ⟨⟨hbudget.2 hwaiting, by simp [EvaluationStatus.Waiting]⟩, ?_, ?_⟩
    · intro v hv
      obtain rfl := Option.some.inj hv
      exact ⟨rfl, by simp [QueueHost.Holds]⟩
    · intro v now' job hv
      have := hother w _ (by simp) v now' job hv
      exact absurd this (hunlocked hfree v now' job)
  · refine ⟨hbudget, ?_, ?_⟩
    · intro v hv
      obtain ⟨hrunning, hholds⟩ := howner v hv
      refine ⟨hrunning, ?_⟩
      by_cases hvw : v = w
      · subst hvw
        rw [hphase] at hholds
        rw [QueueHost.setWorker_self]
        exact ⟨hholds, rfl⟩
      · rw [QueueHost.setWorker_of_ne _ _ _ hvw]
        exact hholds.of_eq rfl rfl
    · intro v now job hv
      exact hrec v now job (hother w _ (by simp) v now job hv)
  · -- the worker still owns the job, so it knows the row as it is
    have hw := hcond w outcome now k job rfl hphase
    obtain ⟨hrunning, hholds⟩ := howner w hw
    rw [hphase] at hholds
    obtain ⟨-, rfl⟩ := hholds
    refine ⟨?_, ?_, ?_⟩
    · simpa using EvaluationJob.afterRun_inBudget configured outcome now hbudget
    · intro v hv
      obtain ⟨hv', hne⟩ := QueueHost.letGo_owner_eq_some hv
      exact absurd (Option.some.inj (hv'.symm.trans hw)) hne
    · intro v now' job hv
      have := hother w _ (by simp) v now' job hv
      exact absurd this (hunlocked hfree v now' job)
  · refine ⟨hbudget, ?_, ?_⟩
    · intro v hv
      obtain ⟨-, hholds⟩ := howner v hv
      have hvw : v ≠ w := by
        rintro rfl
        rw [hphase] at hholds
        exact hholds
      refine ⟨hrunning, ?_⟩
      dsimp only
      rw [Function.update_of_ne hvw]
      exact hholds.of_eq rfl rfl
    · intro v now' job hv
      dsimp only at hv
      by_cases hvw : v = w
      · subst hvw
        rw [Function.update_self] at hv
        obtain ⟨-, rfl⟩ := WorkerPhase.recovering.inj hv
        exact ⟨rfl, rfl, hrunning⟩
      · rw [Function.update_of_ne hvw] at hv
        exact absurd hv (hunlocked hfree v now' job)
  · obtain ⟨hlock, rfl, hrunning⟩ := hrec w now job hphase
    refine ⟨?_, by simp, ?_⟩
    · simpa using EvaluationJob.recovered_inBudget now submission hbudget
    · intro v now' job hv
      dsimp only at hv
      by_cases hvw : v = w
      · subst hvw
        rw [Function.update_self] at hv
        exact absurd hv (by simp)
      · rw [Function.update_of_ne hvw] at hv
        have hlock' := (hrec v now' job hv).1
        exact absurd (Option.some.inj (hlock'.symm.trans hlock)) hvw
  · refine ⟨hbudget, ?_, ?_⟩
    · intro v hv
      obtain ⟨hv', hne⟩ := QueueHost.letGo_owner_eq_some hv
      obtain ⟨hrunning, hholds⟩ := howner v hv'
      refine ⟨hrunning, ?_⟩
      dsimp only
      rw [Function.update_of_ne hne]
      exact hholds.of_eq rfl rfl
    · intro v now' job hv
      obtain ⟨hlock, hrest⟩ := hrec v now' job (hother w _ (by simp) v now' job hv)
      refine ⟨?_, hrest⟩
      dsimp only at hv ⊢
      have hvw : v ≠ w := by
        rintro rfl
        rw [Function.update_self] at hv
        exact absurd hv (by simp)
      rw [hlock, if_neg (by simpa using hvw)]

/-- A step from a state that meets the invariant, by a worker that has not lost the
job, keeps the fence. -/
theorem QueueInv.keepsFence {configured : Time} {h : QueueHost} {a : QueueAction}
    (hi : QueueInv h) (hcond : NotRecovered h a) : KeepsFence configured h a := by
  have hmove := queueAct_move configured h a
  have hnext := hmove.inv hi hcond
  refine ⟨?_, hnext.inBudget.1, ?_⟩
  · intro hfinal
    have hwaiting : ¬ h.job.status.Waiting := by
      rcases hfinal with hf | hf <;> simp [hf, EvaluationStatus.Waiting]
    have hrunning : h.job.status ≠ .running := by
      rcases hfinal with hf | hf <;> simp [hf]
    generalize queueAct configured h a = h' at hmove
    rcases hmove with _ | ⟨w, now, hphase, hfree, hclaim⟩ | ⟨w, k, hphase⟩ |
      ⟨w, outcome, now, k, job, hphase, hfree⟩ | ⟨w, now, hphase, hfree, hr⟩ |
      ⟨w, submission, now, job, hphase⟩ | ⟨w⟩
    · rfl
    · exact absurd hclaim hwaiting
    · rfl
    · have hw := hcond w outcome now k job rfl hphase
      exact absurd (hi.owner w hw).1 hrunning
    · rfl
    · exact absurd (hi.recovering w now job hphase).2.2 hrunning
    · rfl
  · intro w outcome now k job ha hphase _ _
    have hholds := (hi.owner w (hcond w outcome now k job ha hphase)).2
    rw [hphase] at hholds
    exact hholds.1

/-- Steps that keep the fence leave a final status as it is. -/
theorem final_of_keepsFence {configured : Time} {h : QueueHost}
    {actions : List QueueAction}
    (hrun : Throughout (queueAct configured) (KeepsFence configured) h actions)
    (hfinal : h.job.status.Final) :
    (run (queueAct configured) h actions).job.status = h.job.status := by
  apply run_eq_of_throughout (fun h => h.job.status) (fun h => h.job.status.Final) ?_
    hrun hfinal
  intro h a hkeeps hstored
  have hsame := hkeeps.final hstored
  exact ⟨hsame, hsame ▸ hstored⟩

/-- In every run in which no worker stores the outcome of a job that recovery has
taken from it, a final status stays, the attempts stay within their budget and only
the latest claimant stores a status. -/
theorem evaluation_queue_fenced (configured : Time) {maxAttempts : ℕ}
    (hmax : 0 < maxAttempts) (now : Time) (actions : List QueueAction)
    (hcond : Throughout (queueAct configured) NotRecovered
      (freshQueue maxAttempts now) actions) :
    Throughout (queueAct configured) (KeepsFence configured)
        (freshQueue maxAttempts now) actions ∧
      ∀ before after, actions = before ++ after →
        (run (queueAct configured) (freshQueue maxAttempts now)
          before).job.status.Final →
        (run (queueAct configured) (freshQueue maxAttempts now) actions).job.status =
          (run (queueAct configured) (freshQueue maxAttempts now)
            before).job.status := by
  have hfence : Throughout (queueAct configured) (KeepsFence configured)
      (freshQueue maxAttempts now) actions := by
    apply throughout_of_invariant QueueInv ?_ ?_ (freshQueue_inv hmax now) hcond
    · intro h a hi ha
      exact (queueAct_move configured h a).inv hi ha
    · intro h a hi ha
      exact hi.keepsFence ha
  refine ⟨hfence, ?_⟩
  rintro before after rfl hfinal
  rw [run_append]
  exact final_of_keepsFence (throughout_append.mp hfence).2 hfinal

/-- Worker `0` claims a job and stalls, worker `1` recovers the job and claims it in
its turn. -/
def takenOver : List QueueAction :=
  [.claim 0 0, .load 0, .recover 1 (seconds 400), .commitRecovery 1 none,
    .claim 1 (seconds 500), .load 1]

/-- A job that is recovered from a worker that has died. -/
theorem evaluation_queue_fenced_worker_died :
    (run (queueAct 0) (freshQueue 3 0)
        ([.claim 0 0, .load 0, .crash 0, .recover 1 (seconds 400),
          .commitRecovery 1 none, .claim 1 (seconds 500), .load 1,
          .finish 1 .completed (seconds 600)] ++
        [.recover 2 (seconds 1000)])).job.status = .completed := by
  have hcond : Throughout (queueAct 0) NotRecovered (freshQueue 3 0)
      ([.claim 0 0, .load 0, .crash 0, .recover 1 (seconds 400),
        .commitRecovery 1 none, .claim 1 (seconds 500), .load 1,
        .finish 1 .completed (seconds 600)] ++ [.recover 2 (seconds 1000)]) := by
    simp only [Throughout, List.cons_append, List.nil_append, and_true]
    refine ⟨?_, ?_, ?_, ?_, ?_, ?_, ?_, ?_, ?_⟩ <;>
      intro w outcome now k job ha hphase <;> cases ha
    rfl
  have hstays := (evaluation_queue_fenced 0 (by decide) 0 _ hcond).2 _ _ rfl
    (Or.inl (by decide))
  exact hstays.trans (by decide)

/-- The worker that stalled reports a failure after the other one has completed the
job, and the completed job is up for another attempt. -/
theorem completed_evaluation_reopened :
    ¬ Throughout (queueAct 0) (KeepsFence 0) (freshQueue 3 0)
      (takenOver ++ [.finish 1 .completed (seconds 600)] ++
        [.finish 0 .incomplete (seconds 700)]) := by
  intro hfence
  have hlast := (throughout_append.mp hfence).2.1
  have hcompleted : (run (queueAct 0) (freshQueue 3 0)
      (takenOver ++ [.finish 1 .completed (seconds 600)])).job.status =
        .completed := by decide
  have hstays := hlast.final (Or.inl hcompleted)
  rw [hcompleted] at hstays
  exact absurd hstays (by decide)

end PromptCode
