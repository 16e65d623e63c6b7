import PromptCode.GradingJobs

/-!
# Lease safety of the grading jobs

In every run a job keeps within its attempts, only the worker whose lease is current
stores an outcome, a completed job never changes, and its result is one that the
verifier accepts for the lease under which it was stored.
-/

namespace PromptCode

open Py FileTree Transition

variable (inv : Inventories) (key : Str) (ident : GradingIdentity) (timeout : Time)

/-! ## What is expected of a step -/

/-- The verifier accepts the stored result for the lease of the row. -/
def GradingJob.Verified (job : GradingJob) : Prop :=
  ∃ envelope payload, job.result = some envelope ∧
    verifyResult inv key (ident.leased job.leaseToken) envelope = .ok payload

/-- The phases whose next statement is a commit. -/
def GradingPhase.Commits : GradingPhase → Prop
  | .taken _ | .applied _ _ _ | .reporting _ | .reopening => True
  | _ => False

structure KeepsLease (h : GradingHost) (a : GradingAction) : Prop where
  attempts : (gradingAct inv key ident timeout h a).job.stored.attempts ≤
    (gradingAct inv key ident timeout h a).job.stored.maxAttempts
  /-- `finish_job` stores the envelope of the current, unexpired lease. -/
  finish : ∀ w now lease envelope t, a = .next w now →
    h.phase w = .applied lease envelope t →
    h.job.stored.status = .running ∧ h.job.stored.leaseToken = lease.token ∧
      (∃ e, h.job.stored.leaseExpiresAt = some e ∧ t < e) ∧
      (gradingAct inv key ident timeout h a).job.stored =
        h.job.stored.complete envelope t
  /-- `fail_job` changes the row of the current lease or nothing. -/
  fail : ∀ w now lease, a = .next w now → h.phase w = .reporting lease →
    (gradingAct inv key ident timeout h a).job.stored = h.job.stored ∨
      h.job.stored.status = .running ∧ h.job.stored.leaseToken = lease.token ∧
        ∃ t, (gradingAct inv key ident timeout h a).job.stored =
          h.job.stored.failAttempt lease.attempts lease.maxAttempts t
  /-- Nothing is stored but by a commit. -/
  unchanged : (∀ w now, a = .next w now → ¬ (h.phase w).Commits) →
    (gradingAct inv key ident timeout h a).job.stored = h.job.stored ∧
      (gradingAct inv key ident timeout h a).evaluation = h.evaluation
  terminal : h.job.stored.status = .completed →
    (gradingAct inv key ident timeout h a).job.stored = h.job.stored
  verified : (gradingAct inv key ident timeout h a).job.stored.status = .completed →
    (gradingAct inv key ident timeout h a).job.stored.Verified inv key ident

/-! ## The invariant -/

/-- What holds of every version of the row. -/
structure GradingJob.Sound (job : GradingJob) : Prop where
  attempts : job.attempts ≤ job.maxAttempts
  verified : job.status = .completed → job.Verified inv key ident

/-- What a client knows about the row in each phase. -/
def PhaseOk (job : Row ℕ GradingJob) (w : ℕ) : GradingPhase → Prop
  | .exhausting _ | .selecting _ | .taking _ | .taken _ => True
  | .applied lease envelope t =>
      job.held = some (w, job.stored.complete envelope t) ∧
        job.stored.isLeasedAt lease.token t = true
  | .reporting lease =>
      ∀ v, job.held = some (w, v) → job.stored.isLeased lease.token = true ∧
        ∃ t, v = job.stored.failAttempt lease.attempts lease.maxAttempts t
  | .reopening => ∃ v, job.held = some (w, v)
  | .finishing lease envelope _ | .applying lease envelope _ =>
      job.Released w ∧
        ∃ payload, verifyResult inv key (ident.leased lease.token) envelope = .ok payload
  | _ => job.Released w

structure GradingInv (h : GradingHost) : Prop where
  rows : h.job.All (GradingJob.Sound inv key ident)
  /-- Nobody changes a completed row. -/
  open' : ∀ w v, h.job.held = some (w, v) → h.job.stored.status ≠ .completed
  phases : ∀ w, PhaseOk inv key ident h.job w (h.phase w)

variable {inv : Inventories} {key : Str} {ident : GradingIdentity} {timeout : Time}

theorem freshGrading_inv (now : Time) :
    GradingInv inv key ident (freshGrading now) where
  rows := ⟨⟨by simp [freshGrading, enqueueGradingJob],
    by simp [freshGrading, enqueueGradingJob]⟩, by simp [freshGrading]⟩
  open' := by simp [freshGrading]
  phases w := by simp [freshGrading, PhaseOk, Row.Released]

/-- Another client has acted. -/
theorem PhaseOk.of_onlyBy {job job' : Row ℕ GradingJob} {v w : ℕ} {p : GradingPhase}
    (h : PhaseOk inv key ident job v p) (honly : Row.OnlyBy w job job') (hv : v ≠ w) :
    PhaseOk inv key ident job' v p := by
  rcases honly with rfl | honly
  · exact h
  · obtain ⟨hbefore, hafter⟩ := honly v hv
    rcases p with _ | _ | _ | _ | _ | _ | _ | _ | ⟨lease, envelope, t⟩ |
      ⟨lease, envelope, t⟩ | ⟨lease, envelope, t⟩ | _ | lease | _ | _
    case applied => exact absurd h.1 (hbefore _)
    case reporting => exact fun w hw => absurd hw (hafter w)
    case reopening => exact h.elim fun w hw => absurd hw (hbefore w)
    case finishing => exact ⟨hafter, h.2⟩
    case applying => exact ⟨hafter, h.2⟩
    all_goals trivial

section

variable {h : GradingHost} {w : ℕ} {p : GradingPhase}

/-- One client has acted. -/
theorem GradingInv.moved {job : Row ℕ GradingJob} {session : Option ℕ}
    {evaluation : ExecutionEvidence} (hi : GradingInv inv key ident h)
    (hrows : job.All (GradingJob.Sound inv key ident))
    (hopen : ∀ u v, job.held = some (u, v) → job.stored.status ≠ .completed)
    (honly : Row.OnlyBy w h.job job) (hp : PhaseOk inv key ident job w p) :
    GradingInv inv key ident
      ⟨job, session, evaluation, Function.update h.phase w p⟩ := by
  refine ⟨hrows, hopen, ?_⟩
  intro v
  by_cases hv : v = w
  · rw [hv]
    dsimp only
    rwa [Function.update_self]
  · dsimp only
    rw [Function.update_of_ne hv]
    exact (hi.phases v).of_onlyBy honly hv

theorem GradingInv.goto (hi : GradingInv inv key ident h)
    (hp : PhaseOk inv key ident h.job w p) : GradingInv inv key ident (h.goto w p) :=
  hi.moved hi.rows hi.open' (Or.inl rfl) hp

theorem GradingInv.lockSession (hi : GradingInv inv key ident h)
    (hp : PhaseOk inv key ident h.job w p) :
    GradingInv inv key ident (h.lockSession w p) := by
  rw [GradingHost.lockSession]
  split_ifs
  · exact hi.moved hi.rows hi.open' (Or.inl rfl) hp
  · exact hi

/-- The phases after a rollback or a commit. -/
def GradingPhase.Quiet : GradingPhase → Prop
  | .idle | .loading | .failing _ => True
  | _ => False

theorem GradingPhase.Quiet.phaseOk {job : Row ℕ GradingJob} (hp : p.Quiet)
    (hjob : job.Released w) : PhaseOk inv key ident job w p := by
  rcases p with _ | _ | _ | _ | _ | _ | _ | _ | _ | _ | _ | _ | _ | _ | _
  case idle => exact hjob
  case loading => exact hjob
  case failing => exact hjob
  all_goals exact hp.elim

theorem GradingInv.rollback (hi : GradingInv inv key ident h) (hp : p.Quiet) :
    GradingInv inv key ident (h.rollback w p) := by
  refine hi.moved hi.rows.rollback ?_ (Row.onlyBy_rollback _ _)
    (hp.phaseOk (Row.released_rollback _ _))
  intro u v hheld
  rw [Row.rollback_stored]
  rcases h.job.rollback_cases w with ⟨-, heq⟩ | heq
  · rw [heq] at hheld
    exact hi.open' u v hheld
  · rw [heq] at hheld
    exact nomatch hheld

theorem GradingInv.commit (hi : GradingInv inv key ident h) (hp : p.Quiet)
    (evaluation : ExecutionEvidence) :
    GradingInv inv key ident { h.commit w p with evaluation := evaluation } := by
  refine hi.moved hi.rows.commit ?_ (Row.onlyBy_commit _ _)
    (hp.phaseOk (Row.released_commit _ _))
  intro u v hheld
  dsimp only [GradingHost.commit] at hheld ⊢
  rcases h.job.commit_cases w with ⟨-, heq⟩ | ⟨x, -, heq⟩
  · rw [heq] at hheld ⊢
    exact hi.open' u v hheld
  · rw [heq] at hheld
    exact nomatch hheld

/-- The client writes a sound version of a row that is not completed. -/
theorem GradingInv.put (hi : GradingInv inv key ident h) {session : Option ℕ} {v : GradingJob}
    (hfree : h.job.free w = true) (hv : v.Sound inv key ident)
    (hopen : h.job.stored.status ≠ .completed)
    (hp : PhaseOk inv key ident (h.job.put w v) w p) :
    GradingInv inv key ident
      ⟨h.job.put w v, session, h.evaluation, Function.update h.phase w p⟩ :=
  hi.moved (hi.rows.put hv) (fun _ _ _ => hopen) (Row.onlyBy_put hfree v) hp

/-- A row that the client sees as not completed is not completed. -/
theorem GradingInv.not_completed (hi : GradingInv inv key ident h)
    (hvisible : (h.job.visible w).status ≠ .completed) :
    h.job.stored.status ≠ .completed := by
  by_cases hw : h.job.Released w
  · rwa [Row.visible_of_released hw] at hvisible
  · simp only [Row.Released, not_forall, not_not] at hw
    obtain ⟨v, hv⟩ := hw
    exact hi.open' w v hv

theorem GradingInv.updateJob (hi : GradingInv inv key ident h) {cond : GradingJob → Bool}
    {change : GradingJob → GradingJob} {next : Bool → GradingPhase}
    (hcond : ∀ job, cond job = true → job.status ≠ .completed)
    (hchange : ∀ job, cond job = true → job.Sound inv key ident →
      (change job).Sound inv key ident)
    (hmiss : PhaseOk inv key ident h.job w (next false))
    (hhit : cond (h.job.visible w) = true →
      PhaseOk inv key ident (h.job.put w (change (h.job.visible w))) w (next true)) :
    GradingInv inv key ident (h.updateJob w cond change next) := by
  rw [GradingHost.updateJob]
  rcases hupdate : h.job.update w cond change with _ | ⟨job, hit⟩
  · exact hi
  · rcases Row.update_eq_some hupdate with ⟨rfl, rfl, -⟩ | ⟨rfl, rfl, hmatch, hfree⟩
    · exact hi.moved hi.rows hi.open' (Or.inl rfl) hmiss
    · exact hi.put hfree (hchange _ hmatch hi.rows.visible)
        (hi.not_completed (hcond _ hmatch)) (hhit hmatch)

end

/-! ## Every step keeps the invariant -/

section

variable {h : GradingHost} {w : ℕ}

theorem GradingJob.Sound.requeue {job : GradingJob} (hjob : job.Sound inv key ident)
    (t : Time) : (job.requeue t).Sound inv key ident :=
  ⟨hjob.attempts, by simp [GradingJob.requeue]⟩

theorem GradingJob.Sound.giveUp {job : GradingJob} (hjob : job.Sound inv key ident)
    (t : Time) : (job.giveUp t).Sound inv key ident :=
  ⟨hjob.attempts, by simp [GradingJob.giveUp]⟩

theorem GradingJob.Sound.claimed {job : GradingJob} {t : Time}
    (hjob : job.isClaimable t = true) (token : Text) :
    (job.claimed timeout t token).Sound inv key ident := by
  simp only [GradingJob.isClaimable, Bool.and_eq_true, decide_eq_true_eq] at hjob
  exact ⟨hjob.2, by simp [GradingJob.claimed]⟩

theorem GradingJob.Sound.failAttempt {job : GradingJob} (hjob : job.Sound inv key ident)
    (attempts maxAttempts : ℕ) (t : Time) :
    (job.failAttempt attempts maxAttempts t).Sound inv key ident := by
  refine ⟨hjob.attempts, ?_⟩
  intro hstatus
  simp only [GradingJob.failAttempt] at hstatus
  split_ifs at hstatus

theorem GradingJob.Sound.complete {job : GradingJob} (hjob : job.Sound inv key ident)
    {token : Option Text} {t : Time} (hlease : job.isLeasedAt token t = true)
    {envelope payload : Json}
    (hverify : verifyResult inv key (ident.leased token) envelope = .ok payload) :
    (job.complete envelope t).Sound inv key ident := by
  simp only [GradingJob.isLeasedAt, GradingJob.isLeased, Bool.and_eq_true,
    decide_eq_true_eq] at hlease
  obtain ⟨⟨-, rfl⟩, -⟩ := hlease
  exact ⟨hjob.attempts, fun _ => ⟨envelope, payload, rfl, hverify⟩⟩

theorem GradingJob.Sound.reopen (job : GradingJob) (t : Time) :
    (job.reopen t).Sound inv key ident :=
  ⟨by simp [GradingJob.reopen], by simp [GradingJob.reopen]⟩

theorem GradingJob.status_of_isLeased {job : GradingJob} {token : Option Text}
    (h : job.isLeased token = true) : job.status = .running ∧ job.leaseToken = token := by
  simpa [GradingJob.isLeased] using h

theorem GradingJob.isLeasedAt_iff {job : GradingJob} {token : Option Text} {t : Time} :
    job.isLeasedAt token t = true ↔ job.status = .running ∧ job.leaseToken = token ∧
      ∃ e, job.leaseExpiresAt = some e ∧ t < e := by
  rcases hexpires : job.leaseExpiresAt with _ | e <;>
    simp [GradingJob.isLeasedAt, GradingJob.isLeased, hexpires, and_assoc]

theorem gradingNext_inv (hi : GradingInv inv key ident h) (now : Time) :
    GradingInv inv key ident (gradingAct inv key ident timeout h (.next w now)) := by
  have hw := hi.phases w
  rw [gradingAct]
  rcases hphase : h.phase w with _ | t | t | t | t | hit | _ | lease |
    ⟨lease, envelope, t⟩ | ⟨lease, envelope, t⟩ | ⟨lease, envelope, t⟩ | lease | lease |
    _ | _ <;> rw [hphase] at hw <;> dsimp only
  case idle => exact hi.goto hw
  case expiring =>
    apply hi.updateJob
    · intro job hjob
      simp only [GradingJob.isExpired, Bool.and_eq_true, decide_eq_true_eq] at hjob
      simp [hjob.1]
    · exact fun job _ hjob => hjob.requeue t
    · trivial
    · exact fun _ => trivial
  case exhausting =>
    apply hi.updateJob
    · intro job hjob
      simp only [GradingJob.isExhausted, Bool.and_eq_true, decide_eq_true_eq] at hjob
      simp [hjob.1]
    · exact fun job _ hjob => hjob.giveUp t
    · trivial
    · exact fun _ => trivial
  case selecting => exact hi
  case taking => exact hi
  case taken =>
    apply hi.commit
    rcases hit with _ | _ <;> trivial
  case loading => exact hi.goto hw
  case running => exact hi
  case finishing => exact hi.lockSession hw
  case applying =>
    obtain ⟨hreleased, payload, hverify⟩ := hw
    rcases hupdate : h.job.update w (GradingJob.isLeasedAt lease.token t)
      (GradingJob.complete envelope t) with _ | ⟨job, _ | _⟩
    · exact hi
    · exact hi.rollback trivial
    · rcases Row.update_eq_some hupdate with ⟨hit, -⟩ | ⟨-, rfl, hmatch, hfree⟩
      · exact absurd hit (by simp)
      · rw [Row.visible_of_released hreleased] at hmatch ⊢
        have hrunning := (GradingJob.isLeasedAt_iff.mp hmatch).1
        apply hi.put hfree (hi.rows.stored.complete hmatch hverify)
        · simp [hrunning]
        · exact ⟨rfl, hmatch⟩
  case applied => exact hi.commit (p := .idle) trivial _
  case failing =>
    apply hi.updateJob
    · intro job hjob
      simp [(GradingJob.status_of_isLeased hjob).1]
    · exact fun job _ hjob => hjob.failAttempt _ _ now
    · exact fun v hv => absurd hv (hw v)
    · intro hmatch v hv
      rw [Row.visible_of_released hw] at hmatch hv
      exact ⟨hmatch, now, (Prod.mk.inj (Option.some.inj hv)).2.symm⟩
  case reporting => exact hi.commit (p := .idle) trivial _
  case retrying =>
    rcases hlock : h.job.lock w with _ | job
    · exact hi
    · obtain ⟨rfl, hfree⟩ := Row.lock_eq_some hlock
      dsimp only
      split_ifs with hfailed
      · have hvisible : (h.job.visible w).status = .failed := by
          rwa [Row.visible_of_held (Row.put_held)] at hfailed
        apply hi.put hfree hi.rows.visible
        · apply hi.not_completed (w := w)
          simp [hvisible]
        · exact ⟨_, rfl⟩
      · exact hi.rollback trivial
  case reopening =>
    obtain ⟨v, hv⟩ := hw
    have hfree : h.job.free w = true := by simp [Row.free, hv]
    have hput : GradingInv inv key ident
        ⟨h.job.put w (GradingJob.reopen now (h.job.visible w)), h.session, h.evaluation,
          Function.update h.phase w .reopening⟩ :=
      hi.put hfree (GradingJob.Sound.reopen _ _) (hi.open' w v hv) ⟨_, rfl⟩
    have hcommit := hput.commit (w := w) (p := .idle) trivial
      { h.evaluation with status := .queued }
    simpa [GradingHost.commit] using hcommit

theorem gradingAct_inv (hi : GradingInv inv key ident h) (a : GradingAction) :
    GradingInv inv key ident (gradingAct inv key ident timeout h a) := by
  rcases a with ⟨w, now⟩ | ⟨w, chosen⟩ | ⟨w, token⟩ | ⟨w, envelope, now⟩ | w | w | w
  case next => exact gradingNext_inv hi now
  all_goals have hw := hi.phases w
  case select =>
    rw [gradingAct]
    split
    · split_ifs
      · exact hi.goto trivial
      · exact hi.goto trivial
    · exact hi
  case take =>
    rw [gradingAct]
    split
    · apply hi.updateJob
      · intro job hjob
        simp only [GradingJob.isClaimable, Bool.and_eq_true, decide_eq_true_eq] at hjob
        simp [hjob.1.1]
      · exact fun job hjob _ => GradingJob.Sound.claimed hjob token
      · trivial
      · exact fun _ => trivial
    · exact hi
  case evaluated =>
    rw [gradingAct]
    split
    · rename_i lease hphase
      rw [hphase] at hw
      split
      · rename_i payload hverify
        exact hi.goto ⟨hw, payload, hverify⟩
      · exact hi.goto hw
    · exact hi
  case raised =>
    rw [gradingAct]
    split <;> exact hi.rollback trivial
  case retry =>
    rw [gradingAct]
    split
    · rename_i hphase
      rw [hphase] at hw
      exact hi.lockSession hw
    · exact hi
  case crash => exact hi.rollback trivial

end

/-! ## Every step keeps the lease -/

section

variable {h : GradingHost} {w : ℕ}

@[simp] theorem GradingHost.goto_job (p : GradingPhase) : (h.goto w p).job = h.job := rfl

@[simp] theorem GradingHost.goto_evaluation (p : GradingPhase) :
    (h.goto w p).evaluation = h.evaluation := rfl

/-- Nothing has been stored. -/
def SameStored (h h' : GradingHost) : Prop :=
  h'.job.stored = h.job.stored ∧ h'.evaluation = h.evaluation

theorem sameStored_rollback (p : GradingPhase) : SameStored h (h.rollback w p) :=
  ⟨Row.rollback_stored, rfl⟩

theorem sameStored_lockSession (p : GradingPhase) :
    SameStored h (h.lockSession w p) := by
  rw [GradingHost.lockSession]
  split_ifs <;> exact ⟨rfl, rfl⟩

theorem sameStored_updateJob (cond : GradingJob → Bool) (change : GradingJob → GradingJob)
    (next : Bool → GradingPhase) : SameStored h (h.updateJob w cond change next) := by
  rw [GradingHost.updateJob]
  rcases hupdate : h.job.update w cond change with _ | ⟨job, hit⟩
  · exact ⟨rfl, rfl⟩
  · rcases Row.update_eq_some hupdate with ⟨-, rfl, -⟩ | ⟨-, rfl, -⟩ <;> exact ⟨rfl, rfl⟩

/-- Only a commit stores something. -/
theorem gradingAct_sameStored (a : GradingAction)
    (ha : ∀ w now, a = .next w now → ¬ (h.phase w).Commits) :
    SameStored h (gradingAct inv key ident timeout h a) := by
  rcases a with ⟨w, now⟩ | ⟨w, chosen⟩ | ⟨w, token⟩ | ⟨w, envelope, now⟩ | w | w | w
  case next =>
    have hw := ha w now rfl
    rw [gradingAct]
    rcases hphase : h.phase w with _ | t | t | t | t | hit | _ | lease |
      ⟨lease, envelope, t⟩ | ⟨lease, envelope, t⟩ | ⟨lease, envelope, t⟩ | lease | lease |
      _ | _ <;> rw [hphase] at hw <;> dsimp only
    case expiring => exact sameStored_updateJob _ _ _
    case exhausting => exact sameStored_updateJob _ _ _
    case failing => exact sameStored_updateJob _ _ _
    case finishing => exact sameStored_lockSession _
    case applying =>
      rcases hupdate : h.job.update w (GradingJob.isLeasedAt lease.token t)
        (GradingJob.complete envelope t) with _ | ⟨job, _ | _⟩
      · exact ⟨rfl, rfl⟩
      · exact sameStored_rollback _
      · rcases Row.update_eq_some hupdate with ⟨-, rfl, -⟩ | ⟨-, rfl, -⟩ <;>
          exact ⟨rfl, rfl⟩
    case retrying =>
      rcases hlock : h.job.lock w with _ | job
      · exact ⟨rfl, rfl⟩
      · obtain ⟨rfl, -⟩ := Row.lock_eq_some hlock
        dsimp only
        split_ifs
        · exact ⟨rfl, rfl⟩
        · exact sameStored_rollback _
    case taken => exact absurd trivial hw
    case applied => exact absurd trivial hw
    case reporting => exact absurd trivial hw
    case reopening => exact absurd trivial hw
    all_goals exact ⟨rfl, rfl⟩
  case select =>
    rw [gradingAct]
    split
    · split_ifs <;> exact ⟨rfl, rfl⟩
    · exact ⟨rfl, rfl⟩
  case take =>
    rw [gradingAct]
    split
    · exact sameStored_updateJob _ _ _
    · exact ⟨rfl, rfl⟩
  case evaluated =>
    rw [gradingAct]
    split
    · split <;> exact ⟨rfl, rfl⟩
    · exact ⟨rfl, rfl⟩
  case raised =>
    rw [gradingAct]
    split <;> exact sameStored_rollback _
  case retry =>
    rw [gradingAct]
    split
    · exact sameStored_lockSession _
    · exact ⟨rfl, rfl⟩
  case crash => exact sameStored_rollback _

/-- A commit changes a completed row in no way. -/
theorem GradingInv.commit_completed (hi : GradingInv inv key ident h)
    (hstored : h.job.stored.status = .completed) :
    (h.job.commit w).stored = h.job.stored := by
  rcases h.job.commit_cases w with ⟨-, heq⟩ | ⟨v, hv, -⟩
  · rw [heq]
  · exact absurd hstored (hi.open' w v hv)

theorem GradingInv.terminal (hi : GradingInv inv key ident h) (a : GradingAction)
    (hstored : h.job.stored.status = .completed) :
    (gradingAct inv key ident timeout h a).job.stored = h.job.stored := by
  by_cases ha : ∀ w now, a = .next w now → ¬ (h.phase w).Commits
  · exact (gradingAct_sameStored a ha).1
  · simp only [not_forall, not_not] at ha
    obtain ⟨w, now, rfl, hcommits⟩ := ha
    have hw := hi.phases w
    rw [gradingAct]
    rcases hphase : h.phase w with _ | t | t | t | t | hit | _ | lease |
      ⟨lease, envelope, t⟩ | ⟨lease, envelope, t⟩ | ⟨lease, envelope, t⟩ | lease | lease |
      _ | _ <;> rw [hphase] at hw hcommits <;> dsimp only
    case taken => exact hi.commit_completed hstored
    case applied => exact hi.commit_completed hstored
    case reporting => exact hi.commit_completed hstored
    case reopening =>
      obtain ⟨v, hv⟩ := hw
      exact absurd hstored (hi.open' w v hv)
    all_goals exact hcommits.elim

/-- A step from a state of the invariant keeps the lease. -/
theorem GradingInv.keepsLease (hi : GradingInv inv key ident h) (a : GradingAction) :
    KeepsLease inv key ident timeout h a := by
  have hnext : GradingInv inv key ident (gradingAct inv key ident timeout h a) :=
    gradingAct_inv hi a
  refine ⟨hnext.rows.stored.attempts, ?_, ?_, gradingAct_sameStored a, hi.terminal a,
    hnext.rows.stored.verified⟩
  · rintro w now lease envelope t rfl hphase
    have hw := hi.phases w
    rw [hphase] at hw
    obtain ⟨hheld, hlease⟩ := hw
    obtain ⟨hrunning, htoken, hexpires⟩ := GradingJob.isLeasedAt_iff.mp hlease
    refine ⟨hrunning, htoken, hexpires, ?_⟩
    simp only [gradingAct, hphase, GradingHost.commit, Row.commit_of_held hheld]
  · rintro w now lease rfl hphase
    have hw := hi.phases w
    rw [hphase] at hw
    simp only [gradingAct, hphase, GradingHost.commit]
    rcases h.job.commit_cases w with ⟨-, heq⟩ | ⟨v, hv, heq⟩
    · exact Or.inl (by rw [heq])
    · obtain ⟨hlease, t, rfl⟩ := hw v hv
      obtain ⟨hrunning, htoken⟩ := GradingJob.status_of_isLeased hlease
      exact Or.inr ⟨hrunning, htoken, t, by rw [heq]⟩

end

variable (inv key ident timeout)

/-- In every run of claims, evaluations, failures, crashes and operator retries, by any
number of clients, every step keeps the lease, and a completed job stays as it is. -/
theorem grading_jobs_lease_safe (now : Time) (actions : List GradingAction) :
    Throughout (gradingAct inv key ident timeout) (KeepsLease inv key ident timeout)
        (freshGrading now) actions ∧
      ∀ before after, actions = before ++ after →
        (run (gradingAct inv key ident timeout) (freshGrading now)
          before).job.stored.status = .completed →
        (run (gradingAct inv key ident timeout) (freshGrading now) actions).job.stored =
          (run (gradingAct inv key ident timeout) (freshGrading now)
            before).job.stored := by
  have hsafe : Throughout (gradingAct inv key ident timeout)
      (KeepsLease inv key ident timeout) (freshGrading now) actions :=
    throughout_of_step (GradingInv inv key ident) (fun _ a hi => gradingAct_inv hi a)
      (fun _ a hi => hi.keepsLease a) (freshGrading_inv now)
  refine ⟨hsafe, ?_⟩
  rintro before after rfl hcompleted
  rw [run_append]
  apply run_eq_of_throughout (fun h => h.job.stored)
    (fun h => h.job.stored.status = .completed) ?_ (throughout_append.mp hsafe).2 hcompleted
  intro h a hkeeps hstored
  have hsame := hkeeps.terminal hstored
  exact ⟨hsame, by rwa [hsame]⟩

end PromptCode
