import PromptCode.AutomaticGrades
import PromptCode.GradingLease
import PromptCode.PublishedReviews
import PromptCode.Transition

/-!
# The automatic grades that candidates see

In every interleaving of the workers and the requests, a grade that a candidate is shown was
made from the answers and the verified outcome that the evaluation has now, and the commits
are those of a legal grading: two claims at most between two resets, one retry at most, and a
publication for a claim that nothing has reset.
-/

namespace PromptCode

open Py Transition

/-! ## Legal logs -/

namespace GradeEvent

/-- The attempts are counted anew. -/
def isReset : GradeEvent → Bool
  | .answered | .retried => true
  | _ => false

def isClaim : GradeEvent → Bool
  | .claimed _ => true
  | _ => false

end GradeEvent

/-- The part of a log after its last reset. -/
def sinceReset (log : List GradeEvent) : List GradeEvent := log.takeWhile fun e => !e.isReset

def claimsSinceReset (log : List GradeEvent) : ℕ := (sinceReset log).countP GradeEvent.isClaim

/-- The commits of a grading, the last one first. -/
def GradingLog : List GradeEvent → Prop
  | [] => True
  | .answered :: log => GradingLog log
  | .retried :: log => .retried ∉ log ∧ GradingLog log
  | .claimed t :: log => .claimed t ∉ log ∧ claimsSinceReset log < maxGradeAttempts ∧ GradingLog log
  | .published t :: log => .published t ∉ log ∧ .claimed t ∈ sinceReset log ∧ GradingLog log

section

variable {log : List GradeEvent} {e : GradeEvent}

theorem sinceReset_cons (h : e.isReset = false) : sinceReset (e :: log) = e :: sinceReset log := by
  simp [sinceReset, h]

theorem sinceReset_reset (h : e.isReset = true) : sinceReset (e :: log) = [] := by
  simp [sinceReset, h]

end

/-! ## What a grade is made from -/

/-- The outcome that `verify_result` finds in the result of the job. -/
def VerifiedOutcome (setup : GradeSetup) (job : SubmittedJob) (payload : Json) : Prop :=
  ∃ result, job.row.result = some result ∧
    verifyResult setup.service.inventories setup.service.key
      (job.ident.leased job.row.leaseToken) result = .ok payload

/-- Two judgments of a bundle with these answers and the verified outcome. -/
def JudgedFrom (setup : GradeSetup) (job : SubmittedJob) (answers : Answers)
    (judged : AutomatedOutcome) : Prop :=
  ∃ payload record packet bundle first second, VerifiedOutcome setup job payload ∧
    gradingBundle record answers packet payload = .ok bundle ∧
    aggregateJudgments first second bundle = .ok judged

/-- The statements of a bundle are the answers that it is made from. -/
theorem statements_gradingBundle {record : GradingRecord} {answers : Answers} {packet : Packet}
    {payload : Json} {bundle : EvidenceBundle}
    (h : gradingBundle record answers packet payload = .ok bundle) :
    bundle.evidence.filter (fun e => e.kind = lit "candidate_statement") =
      (sortedAnswers answers).map statementItem := by
  rw [gradingBundle] at h
  split at h
  · cases h
  · cases h
  · by_cases hmany : maxBundleEvents < record.events.length
    · rw [if_pos hmany] at h
      cases h
    rw [if_neg hmany] at h
    obtain rfl := Except.ok.inj h
    have hsource : ∀ source, (submittedItems source).filter
        (fun e => e.kind = lit "candidate_statement") = [] := by
      intro source
      refine List.filter_eq_nil_iff.mpr fun e he => ?_
      obtain ⟨f, -, rfl⟩ := List.mem_map.mp he
      simp [lit_inj]
    have hobserved : ∀ events : List RecordedEvent, (events.map observationItem).filter
        (fun e => e.kind = lit "candidate_statement") = [] := by
      intro events
      refine List.filter_eq_nil_iff.mpr fun e he => ?_
      obtain ⟨f, -, rfl⟩ := List.mem_map.mp he
      simp [observationItem, lit_inj]
    have hmessages : ∀ messages : List AiMessage, (messages.map messageItem).filter
        (fun e => e.kind = lit "candidate_statement") = [] := by
      intro messages
      refine List.filter_eq_nil_iff.mpr fun e he => ?_
      obtain ⟨f, -, rfl⟩ := List.mem_map.mp he
      simp [messageItem, lit_inj]
    have hstatements : ∀ l : Answers, (l.map statementItem).filter
        (fun e => e.kind = lit "candidate_statement") = l.map statementItem := by
      intro l
      refine List.filter_eq_self.mpr fun e he => ?_
      obtain ⟨f, -, rfl⟩ := List.mem_map.mp he
      simp [statementItem]
    have htrusted : [trustedItem payload].filter
        (fun e => e.kind = lit "candidate_statement") = [] := by
      simp [trustedItem, lit_inj]
    simp only [List.filter_append, hsource, hobserved, hstatements, htrusted, List.nil_append,
      List.append_nil]
    split_ifs
    · rw [hmessages, List.append_nil]
    · rw [List.filter_nil, List.append_nil]

/-- The verified outcome is the last item of a bundle. -/
theorem getLast_gradingBundle {record : GradingRecord} {answers : Answers} {packet : Packet}
    {payload : Json} {bundle : EvidenceBundle}
    (h : gradingBundle record answers packet payload = .ok bundle) :
    bundle.evidence.getLast? = some (trustedItem payload) := by
  rw [gradingBundle] at h
  split at h
  · cases h
  · cases h
  · by_cases hmany : maxBundleEvents < record.events.length
    · rw [if_pos hmany] at h
      cases h
    rw [if_neg hmany] at h
    obtain rfl := Except.ok.inj h
    exact List.getLast?_concat

/-! ## The stored evaluation -/

namespace GradedEvaluation

/-- The lease is that of this token. -/
def Holds (e : GradedEvaluation) (t : ℕ) : Prop :=
  ∃ a, e.auto = some a ∧ a.leaseToken = some t

/-- All but the feedback of the model. -/
def core (e : GradedEvaluation) : GradedEvaluation := { e with aiFeedback := none }

end GradedEvaluation

/-- What the stored evaluation says about the commits and the job. -/
structure StoredGrade (setup : GradeSetup) (log : List GradeEvent) (tokens : ℕ)
    (job : SubmittedJob) (e : GradedEvaluation) : Prop where
  claims : e.attempts = claimsSinceReset log
  attempts : e.attempts ≤ maxGradeAttempts
  complete : 0 < e.attempts → defenseComplete e.toEvaluation = true ∧
    setup.autoEnabled = true ∧ setup.scoringVersion = rubricVersion
  retries : e.autoGradeRetries = log.count .retried
  active : ∀ a, e.auto = some a → (a.leaseToken.isSome = true ∨ a.result.isSome = true) →
    0 < a.attempts
  lease : ∀ t, e.Holds t → t < tokens ∧ .claimed t ∈ sinceReset log ∧ .published t ∉ log
  result : ∀ a r, e.auto = some a → a.result = some r →
    r.defenseSnapshot = e.defendAnswers ∧
      JudgedFrom setup job e.defendAnswers r.outcome.judged ∧ job.row.status = .completed
  legal : GradingLog log
  issued : ∀ t, tokens ≤ t → .claimed t ∉ log ∧ .published t ∉ log

/-- No lease is given that was not there before. -/
structure KeepsLeases (tokens : ℕ) (e e' : GradedEvaluation) : Prop where
  kept : ∀ t < tokens, e'.Holds t → e.Holds t ∧ e'.attempts = e.attempts ∧
    e'.defendAnswers = e.defendAnswers

namespace StoredGrade

variable {setup : GradeSetup} {log : List GradeEvent} {tokens : ℕ} {job job' : SubmittedJob}
  {e e' : GradedEvaluation}

/-- Nothing of the grading has changed. -/
theorem congr (h : StoredGrade setup log tokens job e) (hauto : e'.auto = e.auto)
    (hanswers : e'.defendAnswers = e.defendAnswers) (hquestions : e'.questions = e.questions)
    (hretries : e'.autoGradeRetries = e.autoGradeRetries) :
    StoredGrade setup log tokens job e' where
  claims := by rw [GradedEvaluation.attempts, hauto]; exact h.claims
  attempts := by rw [GradedEvaluation.attempts, hauto]; exact h.attempts
  complete hpos := by
    rw [GradedEvaluation.attempts, hauto] at hpos
    rw [defenseComplete, hanswers, hquestions]
    exact h.complete hpos
  retries := hretries.trans h.retries
  active a ha := h.active a (hauto ▸ ha)
  lease t ht := by
    rw [GradedEvaluation.Holds, hauto] at ht
    exact h.lease t ht
  result a r ha hr := by
    rw [hanswers]
    exact h.result a r (hauto ▸ ha) hr
  legal := h.legal
  issued := h.issued

theorem keepsLeases_congr (hauto : e'.auto = e.auto)
    (hanswers : e'.defendAnswers = e.defendAnswers) : KeepsLeases tokens e e' where
  kept t _ ht := by
    rw [GradedEvaluation.Holds, hauto] at ht
    refine ⟨ht, ?_, hanswers⟩
    rw [GradedEvaluation.attempts, hauto, GradedEvaluation.attempts]

/-- A job that is not completed may change. -/
theorem setJob (h : StoredGrade setup log tokens job e) (hjob : job.row.status ≠ .completed) :
    StoredGrade setup log tokens job' e :=
  { h with result := fun a r ha hr => absurd (h.result a r ha hr).2.2 hjob }

/-- The state is queued anew. -/
theorem ofQueued {e₀ : Evaluation} (hauto : e'.auto = some (queueState e₀))
    (hclaims : claimsSinceReset log = 0) (hlegal : GradingLog log)
    (hretries : e'.autoGradeRetries = log.count .retried)
    (hissued : ∀ t, tokens ≤ t → .claimed t ∉ log ∧ .published t ∉ log) :
    StoredGrade setup log tokens job e' := by
  have hattempts : e'.attempts = 0 := by
    rw [GradedEvaluation.attempts, hauto]
    rfl
  refine ⟨hattempts.trans hclaims.symm, by omega, fun hpos => by omega, hretries, ?_, ?_, ?_,
    hlegal, hissued⟩
  · intro a ha hactive
    obtain rfl := Option.some.inj (hauto.symm.trans ha)
    rcases hactive with hactive | hactive <;> cases hactive
  · rintro t ⟨a, ha, ht⟩
    obtain rfl := Option.some.inj (hauto.symm.trans ha)
    cases ht
  · intro a r ha hr
    obtain rfl := Option.some.inj (hauto.symm.trans ha)
    cases hr

theorem keepsLeases_ofQueued {e₀ : Evaluation} (hauto : e'.auto = some (queueState e₀)) :
    KeepsLeases tokens e e' where
  kept t _ ht := by
    obtain ⟨a, ha, ht⟩ := ht
    obtain rfl := Option.some.inj (hauto.symm.trans ha)
    cases ht

/-- A worker takes the lease with a token of its own. -/
theorem claim (h : StoredGrade setup log tokens job e) {now : Time} {claim : AutoClaim}
    (hsetup : setup.autoEnabled = true ∧ setup.scoringVersion = rubricVersion)
    (hclaim : e.claimGrade now tokens = .claim e' claim) :
    StoredGrade setup (.claimed tokens :: log) (tokens + 1) job e' ∧ KeepsLeases tokens e e' ∧
      claim.token = tokens ∧ 0 < claim.attempts ∧ e'.attempts = claim.attempts := by
  rw [GradedEvaluation.claimGrade] at hclaim
  split_ifs at hclaim with hrunning hearly hincomplete hmany
  obtain ⟨rfl, rfl⟩ := ClaimResult.claim.inj hclaim
  obtain ⟨hnew, hunpublished⟩ := h.issued tokens (Nat.le_refl _)
  have hcomplete : defenseComplete e.toEvaluation = true := by simpa using hincomplete
  have hsince : sinceReset (.claimed tokens :: log) = .claimed tokens :: sinceReset log :=
    sinceReset_cons rfl
  have hclaims : claimsSinceReset (.claimed tokens :: log) = claimsSinceReset log + 1 := by
    rw [claimsSinceReset, hsince, List.countP_cons_of_pos rfl, claimsSinceReset]
  have hcount := h.claims
  refine ⟨⟨?_, ?_, fun _ => ⟨hcomplete, hsetup⟩, ?_, ?_, ?_, ?_, ?_, ?_⟩, ⟨?_⟩, rfl,
    Nat.succ_pos _, rfl⟩
  · exact (congrArg (· + 1) hcount).trans hclaims.symm
  · change e.attempts + 1 ≤ maxGradeAttempts
    omega
  · rw [List.count_cons_of_ne (by simp)]
    exact h.retries
  · intro a ha _
    obtain rfl := Option.some.inj ha
    exact Nat.succ_pos _
  · rintro t ⟨a, ha, ht⟩
    obtain rfl := Option.some.inj ha
    obtain rfl := Option.some.inj ht
    refine ⟨Nat.lt_succ_self _, hsince ▸ List.mem_cons_self, ?_⟩
    exact fun hmem => hunpublished ((List.mem_cons.mp hmem).resolve_left (by simp))
  · intro a r ha hr
    obtain rfl := Option.some.inj ha
    cases hr
  · exact ⟨hnew, by omega, h.legal⟩
  · intro t ht
    obtain ⟨hclaimed, hpublished⟩ := h.issued t (by omega)
    have hne : t ≠ tokens := by omega
    simp [hclaimed, hpublished, hne]
  · intro t hlt ht
    obtain ⟨a, ha, ht⟩ := ht
    obtain rfl := Option.some.inj ha
    obtain rfl := Option.some.inj ht
    omega

/-- A worker that gives up the selected evaluation. -/
theorem write (h : StoredGrade setup log tokens job e) {now : Time}
    (hclaim : e.claimGrade now tokens = .write e') :
    StoredGrade setup log tokens job e' ∧ KeepsLeases tokens e e' := by
  rw [GradedEvaluation.claimGrade] at hclaim
  split_ifs at hclaim with hrunning hearly hincomplete hmany
  · obtain rfl := ClaimResult.write.inj hclaim
    have hnone : e.attempts = 0 := by
      by_contra hpos
      rw [(h.complete (Nat.pos_of_ne_zero hpos)).1] at hincomplete
      cases hincomplete
    exact ⟨ofQueued rfl (h.claims.symm.trans hnone) h.legal h.retries h.issued,
      keepsLeases_ofQueued rfl⟩
  · obtain rfl := ClaimResult.write.inj hclaim
    rcases hauto : e.auto with _ | prior
    · rw [GradedEvaluation.attempts, hauto] at hmany
      cases hmany
    have hattempts : ∀ f : AutoGrading → AutoGrading, (∀ a, (f a).attempts = a.attempts) →
        ({ e with auto := (some prior).map f } : GradedEvaluation).attempts = e.attempts := by
      intro f hf
      rw [GradedEvaluation.attempts, GradedEvaluation.attempts, hauto]
      exact hf prior
    have hsame := hattempts
      (fun prior => { prior with
        status := .needsReview
        reason := some "retry_limit" }) fun _ => rfl
    refine ⟨⟨hsame.trans h.claims, hsame.trans_le h.attempts,
      fun hpos => h.complete (hsame ▸ hpos), h.retries, ?_, ?_, ?_, h.legal, h.issued⟩, ⟨?_⟩⟩
    · intro a ha hactive
      obtain rfl := Option.some.inj ha
      exact h.active prior hauto hactive
    · rintro t ⟨a, ha, ht⟩
      obtain rfl := Option.some.inj ha
      exact h.lease t ⟨prior, hauto, ht⟩
    · intro a r ha hr
      obtain rfl := Option.some.inj ha
      exact h.result prior r hauto hr
    · rintro t - ⟨a, ha, ht⟩
      obtain rfl := Option.some.inj ha
      exact ⟨⟨prior, hauto, ht⟩, hsame, rfl⟩

/-- A worker publishes under the lease that it has kept. -/
theorem publish (h : StoredGrade setup log tokens job e) {claim : AutoClaim}
    {final : AutoGrading} (hholds : e.Holds claim.token) (hlease : final.leaseToken = none)
    (hattempts : final.attempts = claim.attempts) (hpos : 0 < claim.attempts)
    (hsame : e.attempts = claim.attempts) (hjob : job.row.status = .completed)
    (hresult : ∀ r, final.result = some r → r.defenseSnapshot = e.defendAnswers ∧
      JudgedFrom setup job r.defenseSnapshot r.outcome.judged) :
    StoredGrade setup (.published claim.token :: log) tokens job (e.publishGrade final) ∧
      KeepsLeases tokens e (e.publishGrade final) := by
  obtain ⟨hlt, hclaimed, hpublished⟩ := h.lease _ hholds
  have hsince : sinceReset (.published claim.token :: log) =
      .published claim.token :: sinceReset log := sinceReset_cons rfl
  have hclaims : claimsSinceReset (.published claim.token :: log) = claimsSinceReset log := by
    rw [claimsSinceReset, hsince, List.countP_cons_of_neg (by simp [GradeEvent.isClaim]),
      claimsSinceReset]
  have hfinal : (e.publishGrade final).attempts = e.attempts := hattempts.trans hsame.symm
  refine ⟨⟨?_, hfinal.trans_le h.attempts, fun _ => h.complete (hsame ▸ hpos), ?_, ?_, ?_, ?_,
    ⟨hpublished, hclaimed, h.legal⟩, ?_⟩, ⟨?_⟩⟩
  · rw [hfinal, hclaims]
    exact h.claims
  · rw [List.count_cons_of_ne (by simp)]
    exact h.retries
  · intro a ha _
    obtain rfl := Option.some.inj ha
    exact hattempts ▸ hpos
  · rintro t ⟨a, ha, ht⟩
    obtain rfl := Option.some.inj ha
    rw [hlease] at ht
    cases ht
  · intro a r ha hr
    obtain rfl := Option.some.inj ha
    obtain ⟨hsnapshot, hjudged⟩ := hresult r hr
    exact ⟨hsnapshot, hsnapshot ▸ hjudged, hjob⟩
  · intro t ht
    obtain ⟨hold, hnew⟩ := h.issued t ht
    have hne : t ≠ claim.token := by omega
    simp [hold, hnew, hne]
  · rintro t - ⟨a, ha, ht⟩
    obtain rfl := Option.some.inj ha
    rw [hlease] at ht
    cases ht

theorem postDefendAnswer (h : StoredGrade setup log tokens job e) {index : ℕ} {text : Str}
    (hanswer : e.postDefendAnswer setup index text = .ok e') :
    StoredGrade setup (GradeRequest.events setup (.answer index text) ++ log) tokens job e' ∧
      KeepsLeases tokens e e' := by
  -- Without a reset there was no attempt, so neither a lease nor a result.
  have hquiet : ¬(setup.scoringVersion ∈ evidenceVersions ∧ setup.autoEnabled = true) →
      e'.auto = e.auto → e'.autoGradeRetries = e.autoGradeRetries →
      StoredGrade setup log tokens job e' ∧ KeepsLeases tokens e e' := by
    intro hversion hauto hretries
    have hnone : e.attempts = 0 := by
      by_contra hpos
      obtain ⟨-, henabled, hrubric⟩ := h.complete (Nat.pos_of_ne_zero hpos)
      exact hversion ⟨by rw [hrubric]; exact List.mem_cons_of_mem _ List.mem_cons_self, henabled⟩
    have hidle : ∀ a, e.auto = some a → a.leaseToken = none ∧ a.result = none := by
      intro a ha
      have hzero : a.attempts = 0 := by
        rw [GradedEvaluation.attempts, ha] at hnone
        exact hnone
      have hactive := fun hactive => (h.active a ha hactive).ne' hzero
      exact ⟨by simpa using fun hl => hactive (Or.inl hl),
        by simpa using fun hr => hactive (Or.inr hr)⟩
    have hattempts : e'.attempts = 0 := by
      rw [GradedEvaluation.attempts, hauto]
      exact hnone
    refine ⟨⟨?_, by omega, fun hpos => by omega, hretries.trans h.retries, ?_, ?_, ?_, h.legal,
      h.issued⟩, ⟨?_⟩⟩
    · exact hattempts.trans (hnone.symm.trans h.claims)
    · exact fun a ha => h.active a (hauto ▸ ha)
    · rintro t ⟨a, ha, ht⟩
      rw [(hidle a (hauto ▸ ha)).1] at ht
      cases ht
    · intro a r ha hr
      rw [(hidle a (hauto ▸ ha)).2] at hr
      cases hr
    · rintro t - ⟨a, ha, ht⟩
      rw [(hidle a (hauto ▸ ha)).1] at ht
      cases ht
  rw [GradedEvaluation.postDefendAnswer] at hanswer
  rw [GradeRequest.events]
  by_cases hinvalid : e.questions ≤ index ∨ strip text = []
  · rw [if_pos hinvalid] at hanswer
    cases hanswer
  rw [if_neg hinvalid] at hanswer
  dsimp only at hanswer
  by_cases hversion : setup.scoringVersion ∈ evidenceVersions
  · rw [if_neg (not_not.mpr hversion)] at hanswer
    rcases hassessment : e.assessment with _ | assessment <;> rw [hassessment] at hanswer <;>
      dsimp only at hanswer
    · cases hanswer
    · split_ifs at hanswer with henabled
      · obtain rfl := Except.ok.inj hanswer
        have hdisabled : ¬setup.autoEnabled = true := by simp [henabled]
        rw [if_neg fun hboth => hdisabled hboth.2]
        exact hquiet (fun hboth => hdisabled hboth.2) rfl rfl
      · obtain rfl := Except.ok.inj hanswer
        rw [if_pos ⟨hversion, by simpa using henabled⟩]
        refine ⟨ofQueued rfl ?_ h.legal ?_ ?_, keepsLeases_ofQueued rfl⟩
        · rw [claimsSinceReset, List.singleton_append, sinceReset_reset rfl, List.countP_nil]
        · rw [List.singleton_append, List.count_cons_of_ne (by simp)]
          exact h.retries
        · intro t ht
          simpa using h.issued t ht
  · rw [if_pos hversion] at hanswer
    obtain rfl := Except.ok.inj hanswer
    rw [if_neg fun hboth => hversion hboth.1]
    exact hquiet (fun hboth => hversion hboth.1) rfl rfl

theorem retryAutomaticGrade (h : StoredGrade setup log tokens job e)
    (hretry : e.retryAutomaticGrade setup = .ok e') :
    StoredGrade setup (.retried :: log) tokens job e' ∧ KeepsLeases tokens e e' := by
  rw [GradedEvaluation.retryAutomaticGrade] at hretry
  rcases hauto : e.auto with _ | prior <;> rw [hauto] at hretry <;> dsimp only at hretry
  · split_ifs at hretry
  · split_ifs at hretry with hdisabled hversion hincomplete hstatus hlimit
    obtain rfl := Except.ok.inj hretry
    have hnone : log.count .retried = 0 := by
      rw [← h.retries]
      omega
    refine ⟨ofQueued rfl ?_ ⟨List.count_eq_zero.mp hnone, h.legal⟩ ?_ ?_,
      keepsLeases_ofQueued rfl⟩
    · rw [claimsSinceReset, sinceReset_reset rfl, List.countP_nil]
    · rw [List.count_cons_self]
      exact congrArg (· + 1) h.retries
    · intro t ht
      simpa using h.issued t ht

/-- `finish_job` changes the assessment alone. -/
theorem finishJob_eq {jobId : Str} {payload : Json} (hfinish : e.finishJob jobId payload = .ok e') :
    ∃ assessment, e' = { e with assessment := assessment } := by
  rw [GradedEvaluation.finishJob] at hfinish
  rcases hassessment : e.assessment with _ | assessment <;> rw [hassessment] at hfinish
  · cases hfinish
  · exact ⟨_, (Except.ok.inj hfinish).symm⟩

/-- Every request but an answer or a retry leaves the grading alone. -/
theorem commit (h : StoredGrade setup log tokens job e) {request : GradeRequest} {now : Time}
    (hcommit : request.commit setup now job e = .ok (e', job')) :
    StoredGrade setup (request.events setup ++ log) tokens job' e' ∧ KeepsLeases tokens e e' ∧
      (job.row.status = .completed → job' = job) := by
  cases request with
  | answer index text =>
      rw [GradeRequest.commit] at hcommit
      rcases hanswer : e.postDefendAnswer setup index text with error | e₁ <;>
        rw [hanswer] at hcommit <;> cases hcommit
      obtain ⟨hstored, hleases⟩ := h.postDefendAnswer hanswer
      exact ⟨hstored, hleases, fun _ => rfl⟩
  | retry =>
      rw [GradeRequest.commit] at hcommit
      rcases hretry : e.retryAutomaticGrade setup with error | e₁ <;>
        rw [hretry] at hcommit <;> cases hcommit
      obtain ⟨hstored, hleases⟩ := h.retryAutomaticGrade hretry
      exact ⟨hstored, hleases, fun _ => rfl⟩
  | finish token envelope =>
      rw [GradeRequest.commit] at hcommit
      split at hcommit
      · cases hcommit
      · rename_i payload _
        split_ifs at hcommit with hleased
        have hrunning := (GradingJob.isLeasedAt_iff.mp hleased).1
        have hopen : job.row.status ≠ .completed := by simp [hrunning]
        rcases hfinish : e.finishJob job.ident.jobId.1 payload with error | e₁ <;>
          rw [hfinish] at hcommit <;> cases hcommit
        obtain ⟨assessment, rfl⟩ := finishJob_eq hfinish
        exact ⟨(h.setJob hopen).congr rfl rfl rfl rfl, keepsLeases_congr rfl rfl,
          fun hcompleted => absurd hcompleted hopen⟩
  | review id =>
      cases hcommit
      exact ⟨h.congr rfl rfl rfl rfl, keepsLeases_congr rfl rfl, fun _ => rfl⟩
  | reopen =>
      rw [GradeRequest.commit] at hcommit
      split_ifs at hcommit with hfailed
      have hopen : job.row.status ≠ .completed := by simp [hfailed]
      cases hcommit
      exact ⟨h.setJob hopen, keepsLeases_congr rfl rfl, fun hcompleted => absurd hcompleted hopen⟩
  | feedback =>
      rw [GradeRequest.commit] at hcommit
      rcases hcontext : reviewContext setup.service setup.session (some job)
        (some e.toEvaluation) with error | context <;> rw [hcontext] at hcommit <;> cases hcommit
      exact ⟨h.congr rfl rfl rfl rfl, keepsLeases_congr rfl rfl, fun _ => rfl⟩

end StoredGrade

/-! ## The clients -/

/-- The worker holds the lock of the session. -/
def AutoPhase.holdsLock : AutoPhase → Bool
  | .locked | .claiming _ | .relocked _ _ | .publishing _ _ _ => true
  | _ => false

def GradeRoute.holdsLock : GradeRoute → Bool
  | .locked _ | .holding _ => true
  | _ => false

/-- The evaluation can be graded, and its job does not change any more. -/
structure Gradable (setup : GradeSetup) (h : GradeHost) : Prop where
  enabled : setup.autoEnabled = true
  version : setup.scoringVersion = rubricVersion
  completed : h.job.row.status = .completed

/-- While the claim has the lease, the evaluation is as the claim knows it. -/
structure ClaimOk (h : GradeHost) (claim : AutoClaim) (P : Prop) : Prop where
  issued : claim.token < h.tokens
  positive : 0 < claim.attempts
  held : h.evaluation.stored.Holds claim.token →
    h.evaluation.stored.attempts = claim.attempts ∧ P

structure FinalOk (setup : GradeSetup) (h : GradeHost) (claim : AutoClaim)
    (final : AutoGrading) : Prop where
  gradable : Gradable setup h
  lease : final.leaseToken = none
  attempts : final.attempts = claim.attempts
  judged : ∀ r, final.result = some r →
    JudgedFrom setup h.job r.defenseSnapshot r.outcome.judged
  claim : ClaimOk h claim
    (∀ r, final.result = some r → r.defenseSnapshot = h.evaluation.stored.defendAnswers)

/-- What a worker has found out. -/
def AutoOk (setup : GradeSetup) (h : GradeHost) : AutoPhase → Prop
  | .idle => True
  | .selected | .locked => Gradable setup h
  | .claiming e => Gradable setup h ∧ e.core = h.evaluation.stored.core
  | .claimed claim => Gradable setup h ∧ ClaimOk h claim True
  | .reviewing claim job => Gradable setup h ∧ ClaimOk h claim True ∧ job = some h.job
  | .gathering claim context => Gradable setup h ∧ VerifiedOutcome setup h.job context.payload ∧
      ClaimOk h claim
        (context.evaluation.defendAnswers = h.evaluation.stored.defendAnswers)
  | .judging claim _ snapshot bundle => Gradable setup h ∧
      (∃ payload record packet, VerifiedOutcome setup h.job payload ∧
        gradingBundle record snapshot packet payload = .ok bundle) ∧
      ClaimOk h claim (snapshot = h.evaluation.stored.defendAnswers)
  | .graded claim final | .relocked claim final => FinalOk setup h claim final
  | .publishing claim final e => FinalOk setup h claim final ∧
      e.core = h.evaluation.stored.core

structure GradeInv (setup : GradeSetup) (h : GradeHost) : Prop where
  stored : StoredGrade setup h.log h.tokens h.job h.evaluation.stored
  held : ∀ c v, h.evaluation.held = some (c, v) →
    v = h.evaluation.stored ∧ h.session = some c
  workers : ∀ w, AutoOk setup h (h.workers w)
  workerLocks : ∀ w, (h.workers w).holdsLock = true → h.session = some (.worker w)
  routeLocks : ∀ r, (h.routes r).holdsLock = true ↔ h.session = some (.route r)

/-- What a step leaves to the workers that do not take it. -/
structure Leaves (h h' : GradeHost) : Prop where
  tokens : h.tokens ≤ h'.tokens
  job : h.job.row.status = .completed → h'.job = h.job
  leases : KeepsLeases h.tokens h.evaluation.stored h'.evaluation.stored

section

variable {setup : GradeSetup} {h h' : GradeHost} {claim : AutoClaim} {P Q : Prop}
  {final : AutoGrading} {p : AutoPhase} {w r : ℕ}

theorem Gradable.leaves (hl : Leaves h h') (hg : Gradable setup h) : Gradable setup h' :=
  { hg with completed := hl.job hg.completed ▸ hg.completed }

theorem ClaimOk.leaves (hl : Leaves h h') (hc : ClaimOk h claim P)
    (hP : h'.evaluation.stored.defendAnswers = h.evaluation.stored.defendAnswers → P → Q) :
    ClaimOk h' claim Q where
  issued := hc.issued.trans_le hl.tokens
  positive := hc.positive
  held ht := by
    obtain ⟨hold, hattempts, hanswers⟩ := hl.leases.kept _ hc.issued ht
    obtain ⟨hsame, hp⟩ := hc.held hold
    exact ⟨hattempts.trans hsame, hP hanswers hp⟩

theorem FinalOk.leaves (hl : Leaves h h') (hf : FinalOk setup h claim final) :
    FinalOk setup h' claim final where
  gradable := hf.gradable.leaves hl
  lease := hf.lease
  attempts := hf.attempts
  judged := (hl.job hf.gradable.completed).symm ▸ hf.judged
  claim := hf.claim.leaves hl fun hanswers hp r hr => (hp r hr).trans hanswers.symm

theorem AutoOk.leaves (hl : Leaves h h')
    (hcore : p.holdsLock = true → h'.evaluation.stored.core = h.evaluation.stored.core)
    (hp : AutoOk setup h p) : AutoOk setup h' p := by
  cases p with
  | idle => trivial
  | selected => exact Gradable.leaves hl hp
  | locked => exact Gradable.leaves hl hp
  | claiming e => exact ⟨hp.1.leaves hl, hp.2.trans (hcore rfl).symm⟩
  | claimed claim => exact ⟨hp.1.leaves hl, hp.2.leaves hl fun _ _ => trivial⟩
  | reviewing claim job =>
      obtain ⟨hg, hc, hjob⟩ := hp
      exact ⟨hg.leaves hl, hc.leaves hl fun _ _ => trivial,
        hjob.trans (congrArg some (hl.job hg.completed).symm)⟩
  | gathering claim context =>
      obtain ⟨hg, hv, hc⟩ := hp
      exact ⟨hg.leaves hl, (hl.job hg.completed).symm ▸ hv,
        hc.leaves hl fun hanswers heq => heq.trans hanswers.symm⟩
  | judging claim sourceDigest snapshot bundle =>
      obtain ⟨hg, hb, hc⟩ := hp
      exact ⟨hg.leaves hl, (hl.job hg.completed).symm ▸ hb,
        hc.leaves hl fun hanswers heq => heq.trans hanswers.symm⟩
  | graded claim final => exact FinalOk.leaves hl hp
  | relocked claim final => exact FinalOk.leaves hl hp
  | publishing claim final e => exact ⟨hp.1.leaves hl, hp.2.trans (hcore rfl).symm⟩

theorem Leaves.of_same (htokens : h'.tokens = h.tokens) (hjob : h'.job = h.job)
    (hevaluation : h'.evaluation.stored = h.evaluation.stored) : Leaves h h' where
  tokens := htokens.ge
  job _ := hjob
  leases := hevaluation ▸ StoredGrade.keepsLeases_congr rfl rfl

end

/-! ## Steps of one client -/

namespace GradeInv

variable {setup : GradeSetup} {h h' : GradeHost} {c : GradeClient} {w r : ℕ} {p : AutoPhase}
  {q : GradeRoute} {e : GradedEvaluation} {log : List GradeEvent} {tokens : ℕ}
  {job : SubmittedJob}

/-- A step of a client that changes the evaluation under the lock of the session only. -/
theorem moved (hi : GradeInv setup h) (c : GradeClient) (hl : Leaves h h')
    (hstored : StoredGrade setup h'.log h'.tokens h'.job h'.evaluation.stored)
    (hcore : h'.evaluation.stored.core = h.evaluation.stored.core ∨ h.session = some c)
    (hheld : ∀ d v, h'.evaluation.held = some (d, v) →
      v = h'.evaluation.stored ∧ h'.session = some d)
    (hsession : ∀ d, d ≠ c → (h'.session = some d ↔ h.session = some d))
    (hworkers : ∀ v, .worker v ≠ c → h'.workers v = h.workers v)
    (hroutes : ∀ v, .route v ≠ c → h'.routes v = h.routes v)
    (hworker : ∀ v, c = .worker v → AutoOk setup h' (h'.workers v) ∧
      ((h'.workers v).holdsLock = true → h'.session = some c))
    (hroute : ∀ v, c = .route v → ((h'.routes v).holdsLock = true ↔ h'.session = some c)) :
    GradeInv setup h' where
  stored := hstored
  held := hheld
  workers v := by
    by_cases hv : c = .worker v
    · exact (hworker v hv).1
    · rw [hworkers v (Ne.symm hv)]
      refine (hi.workers v).leaves hl fun hlock => ?_
      refine hcore.resolve_right fun hc => hv ?_
      exact Option.some.inj (hc.symm.trans (hi.workerLocks v hlock))
  workerLocks v hlock := by
    by_cases hv : c = .worker v
    · exact hv ▸ (hworker v hv).2 hlock
    · rw [hworkers v (Ne.symm hv)] at hlock
      exact (hsession _ (Ne.symm hv)).mpr (hi.workerLocks v hlock)
  routeLocks v := by
    by_cases hv : c = .route v
    · exact hv ▸ hroute v hv
    · rw [hroutes v (Ne.symm hv), hsession _ (Ne.symm hv)]
      exact hi.routeLocks v

theorem workers_gotoWorker {v : ℕ} (hv : .worker v ≠ GradeClient.worker w) :
    (h.gotoWorker w p).workers v = h.workers v :=
  Function.update_of_ne (fun heq => hv (congrArg _ heq)) ..

theorem workers_gotoWorker_self {v : ℕ} (hv : GradeClient.worker w = .worker v) :
    (h.gotoWorker w p).workers v = p := by
  obtain rfl := GradeClient.worker.inj hv
  exact Function.update_self ..

theorem routes_gotoRoute {v : ℕ} (hv : .route v ≠ GradeClient.route r) :
    (h.gotoRoute r q).routes v = h.routes v :=
  Function.update_of_ne (fun heq => hv (congrArg _ heq)) ..

theorem routes_gotoRoute_self {v : ℕ} (hv : GradeClient.route r = .route v) :
    (h.gotoRoute r q).routes v = q := by
  obtain rfl := GradeClient.route.inj hv
  exact Function.update_self ..

theorem session_release {d : GradeClient} (hd : d ≠ c) :
    (h.release c).session = some d ↔ h.session = some d := by
  rw [GradeHost.release]
  dsimp only
  split_ifs with hc
  · rw [hc, Option.some.injEq]
    exact ⟨fun hnone => hnone.elim, fun heq => absurd heq.symm hd⟩
  · rfl

theorem not_session_release : (h.release c).session ≠ some c := by
  rw [GradeHost.release]
  dsimp only
  split_ifs with hc
  · exact (Option.some_ne_none c).symm
  · exact hc

/-- Who still holds the evaluation after the step of a client held it before, and the lock of
the session too. -/
theorem held_release (hi : GradeInv setup h) {d : GradeClient} {v : GradedEvaluation}
    (hheld : (h.release c).evaluation.held = some (d, v)) :
    v = h.evaluation.stored ∧ h.session = some d ∧ d ≠ c := by
  obtain ⟨hv, hsession⟩ := hi.held d v (Row.held_of_rollback hheld)
  refine ⟨hv, hsession, ?_⟩
  rintro rfl
  exact Row.released_rollback h.evaluation d v hheld

/-- A worker goes on. -/
theorem gotoWorker (hi : GradeInv setup h) (hp : AutoOk setup h p)
    (hlock : p.holdsLock = true → h.session = some (.worker w)) :
    GradeInv setup (h.gotoWorker w p) := by
  refine hi.moved (.worker w) (.of_same rfl rfl rfl) hi.stored (Or.inl rfl) hi.held
    (fun _ _ => Iff.rfl) (fun v hv => workers_gotoWorker hv) (fun _ _ => rfl) (fun v hv => ?_)
    fun v hv => by cases hv
  have hl : Leaves h (h.gotoWorker w p) := .of_same rfl rfl rfl
  rw [workers_gotoWorker_self hv]
  exact ⟨AutoOk.leaves hl (fun _ => rfl) hp, hlock⟩

/-- A worker takes the free lock of the session. -/
theorem lockWorker (hi : GradeInv setup h) (hfree : h.session = none) (hp : AutoOk setup h p) :
    GradeInv setup { h.gotoWorker w p with session := some (.worker w) } := by
  refine hi.moved (.worker w) (.of_same rfl rfl rfl) hi.stored (Or.inl rfl) (fun d v hd => ?_)
    (fun d hd => ?_) (fun v hv => workers_gotoWorker hv) (fun _ _ => rfl) (fun v hv => ?_)
    fun v hv => by cases hv
  · rw [(hi.held d v hd).2] at hfree
    cases hfree
  · rw [hfree, Option.some.injEq]
    exact ⟨fun heq => absurd heq.symm hd, fun hnone => (Option.some_ne_none d hnone.symm).elim⟩
  · have hl : Leaves h { h.gotoWorker w p with session := some (.worker w) } :=
      .of_same rfl rfl rfl
    change AutoOk setup _ ((h.gotoWorker w p).workers v) ∧ _
    rw [workers_gotoWorker_self hv]
    exact ⟨AutoOk.leaves hl (fun _ => rfl) hp, fun _ => rfl⟩

/-- A worker ends its transaction. -/
theorem releaseWorker (hi : GradeInv setup h) :
    GradeInv setup ((h.gotoWorker w .idle).release (.worker w)) := by
  have hstored : ((h.gotoWorker w .idle).release (.worker w)).evaluation.stored =
      h.evaluation.stored := Row.rollback_stored
  have hgo : GradeInv setup (h.gotoWorker w .idle) :=
    hi.gotoWorker trivial fun hlock => by cases hlock
  refine hi.moved (.worker w) (.of_same rfl rfl hstored) (hstored ▸ hi.stored)
    (Or.inl (congrArg _ hstored)) (fun d v hd => ?_) (fun d hd => session_release hd)
    (fun v hv => workers_gotoWorker hv) (fun _ _ => rfl) (fun v hv => ?_) fun v hv => by cases hv
  · obtain ⟨hv, hsession, hne⟩ := hgo.held_release hd
    exact ⟨hv.trans hstored.symm, (session_release hne).mpr hsession⟩
  · change AutoOk setup _ ((h.gotoWorker w .idle).workers v) ∧
      (((h.gotoWorker w .idle).workers v).holdsLock = true → _)
    rw [workers_gotoWorker_self hv]
    exact ⟨trivial, fun hlock => by cases hlock⟩

/-- A worker with the lock of the session stores the evaluation and ends its transaction. -/
theorem storeWorker (hi : GradeInv setup h) (log : List GradeEvent)
    (hsession : h.session = some (.worker w)) (htokens : h.tokens ≤ tokens)
    (hleases : KeepsLeases h.tokens h.evaluation.stored e)
    (hstored : StoredGrade setup (log ++ h.log) tokens h.job e)
    (hp : ∀ h' : GradeHost, h'.evaluation.stored = e → h'.tokens = tokens → h'.job = h.job →
      AutoOk setup h' p) (hlock : p.holdsLock = false) :
    GradeInv setup { ((h.store e log).gotoWorker w p).release (.worker w) with
      tokens := tokens } := by
  have hvalue : (((h.store e log).gotoWorker w p).release (.worker w)).evaluation.stored = e :=
    Row.rollback_stored
  have hkeeps : KeepsLeases h.tokens h.evaluation.stored
      (((h.store e log).gotoWorker w p).release (.worker w)).evaluation.stored := by
    rw [hvalue]
    exact hleases
  have hnew : StoredGrade setup (log ++ h.log) tokens h.job
      (((h.store e log).gotoWorker w p).release (.worker w)).evaluation.stored := by
    rw [hvalue]
    exact hstored
  refine hi.moved (.worker w) ⟨htokens, fun _ => rfl, hkeeps⟩ hnew
    (Or.inr hsession) (fun d v hd => ?_) (fun d hd => session_release hd)
    (fun v hv => workers_gotoWorker hv) (fun _ _ => rfl) (fun v hv => ?_) fun v hv => by cases hv
  · have hold : h.evaluation.held = some (d, v) :=
      Row.held_of_rollback (r := { h.evaluation with stored := e }) hd
    have hd' := (hi.held d v hold).2
    obtain rfl := Option.some.inj (hsession.symm.trans hd')
    exact absurd hd (Row.released_rollback _ _ v)
  · change AutoOk setup _ (((h.store e log).gotoWorker w p).workers v) ∧
      ((((h.store e log).gotoWorker w p).workers v).holdsLock = true → _)
    rw [workers_gotoWorker_self hv]
    exact ⟨hp _ hvalue rfl rfl, fun htrue => absurd (hlock.symm.trans htrue) Bool.false_ne_true⟩

/-- A request goes on. -/
theorem gotoRoute (hi : GradeInv setup h)
    (hlock : q.holdsLock = true ↔ h.session = some (.route r)) :
    GradeInv setup (h.gotoRoute r q) := by
  refine hi.moved (.route r) (.of_same rfl rfl rfl) hi.stored (Or.inl rfl) hi.held
    (fun _ _ => Iff.rfl) (fun _ _ => rfl) (fun v hv => routes_gotoRoute hv)
    (fun v hv => by cases hv) fun v hv => ?_
  rw [routes_gotoRoute_self hv]
  exact hlock

/-- A request takes the free lock of the session. -/
theorem lockRoute (hi : GradeInv setup h) (hfree : h.session = none) (hlock : q.holdsLock = true) :
    GradeInv setup { h.gotoRoute r q with session := some (.route r) } := by
  refine hi.moved (.route r) (.of_same rfl rfl rfl) hi.stored (Or.inl rfl) (fun d v hd => ?_)
    (fun d hd => ?_) (fun _ _ => rfl) (fun v hv => routes_gotoRoute hv) (fun v hv => by cases hv)
    fun v hv => ?_
  · rw [(hi.held d v hd).2] at hfree
    cases hfree
  · rw [hfree, Option.some.injEq]
    exact ⟨fun heq => absurd heq.symm hd, fun hnone => (Option.some_ne_none d hnone.symm).elim⟩
  · change (((h.gotoRoute r q).routes v).holdsLock = true) ↔ _
    rw [routes_gotoRoute_self hv]
    exact ⟨fun _ => rfl, fun _ => hlock⟩

/-- A request ends its transaction. -/
theorem releaseRoute (hi : GradeInv setup h) (hlock : q.holdsLock = false) :
    GradeInv setup ((h.gotoRoute r q).release (.route r)) := by
  have hstored : ((h.gotoRoute r q).release (.route r)).evaluation.stored =
      h.evaluation.stored := Row.rollback_stored
  refine hi.moved (.route r) (.of_same rfl rfl hstored) (hstored ▸ hi.stored)
    (Or.inl (congrArg _ hstored)) (fun d v hd => ?_) (fun d hd => session_release hd)
    (fun _ _ => rfl) (fun v hv => routes_gotoRoute hv) (fun v hv => by cases hv) fun v hv => ?_
  · obtain ⟨hv, hsession⟩ := hi.held d v (Row.held_of_rollback hd)
    have hne : d ≠ .route r := by
      rintro rfl
      exact Row.released_rollback _ _ v hd
    exact ⟨hv.trans hstored.symm, (session_release hne).mpr hsession⟩
  · change (((h.gotoRoute r q).routes v).holdsLock = true) ↔ _
    rw [routes_gotoRoute_self hv, hlock]
    exact ⟨fun hf => absurd hf Bool.false_ne_true, fun hs => absurd hs not_session_release⟩

/-- A request with the lock of the session stores the evaluation and ends its transaction. -/
theorem storeRoute (hi : GradeInv setup h) (hsession : h.session = some (.route r))
    (hleases : KeepsLeases h.tokens h.evaluation.stored e)
    (hstored : StoredGrade setup (log ++ h.log) h.tokens job e)
    (hjob : h.job.row.status = .completed → job = h.job) (hlock : q.holdsLock = false) :
    GradeInv setup { ((h.store e log).gotoRoute r q).release (.route r) with job := job } := by
  have hvalue : (((h.store e log).gotoRoute r q).release (.route r)).evaluation.stored = e :=
    Row.rollback_stored
  have hkeeps : KeepsLeases h.tokens h.evaluation.stored
      (((h.store e log).gotoRoute r q).release (.route r)).evaluation.stored := by
    rw [hvalue]
    exact hleases
  have hnew : StoredGrade setup (log ++ h.log) h.tokens job
      (((h.store e log).gotoRoute r q).release (.route r)).evaluation.stored := by
    rw [hvalue]
    exact hstored
  refine hi.moved (.route r) ⟨Nat.le_refl _, hjob, hkeeps⟩ hnew
    (Or.inr hsession) (fun d v hd => ?_) (fun d hd => session_release hd)
    (fun _ _ => rfl) (fun v hv => routes_gotoRoute hv) (fun v hv => by cases hv) fun v hv => ?_
  · have hold : h.evaluation.held = some (d, v) :=
      Row.held_of_rollback (r := { h.evaluation with stored := e }) hd
    have hd' := (hi.held d v hold).2
    obtain rfl := Option.some.inj (hsession.symm.trans hd')
    exact absurd hd (Row.released_rollback _ _ v)
  · change ((((h.store e log).gotoRoute r q).routes v).holdsLock = true) ↔ _
    rw [routes_gotoRoute_self hv, hlock]
    exact ⟨fun hf => absurd hf Bool.false_ne_true, fun hs => absurd hs not_session_release⟩

end GradeInv

/-! ## Runs -/

/-- The feedback is written into an evaluation that has changed since it was read. -/
def LateFeedback (h : GradeHost) : GradeAction → Prop
  | .advice r _ =>
      match h.routes r with
      | .advised e => e.core ≠ h.evaluation.stored.core
      | _ => False
  | _ => False

section

variable {setup : GradeSetup} {h : GradeHost} {e e' : GradedEvaluation} {w r : ℕ}
  {claim : AutoClaim} {final : AutoGrading}

theorem GradedEvaluation.eq_of_core (hcore : e'.core = e.core) : e'.auto = e.auto ∧
    e'.toEvaluation = e.toEvaluation ∧ e'.autoGradeRetries = e.autoGradeRetries := by
  obtain ⟨hevaluation, hauto, -, hretries, -⟩ := GradedEvaluation.mk.inj hcore
  exact ⟨hauto, hevaluation, hretries⟩

theorem StoredGrade.of_core {log : List GradeEvent} {tokens : ℕ} {job : SubmittedJob}
    (hcore : e'.core = e.core) (hs : StoredGrade setup log tokens job e) :
    StoredGrade setup log tokens job e' := by
  obtain ⟨hauto, hevaluation, hretries⟩ := GradedEvaluation.eq_of_core hcore
  exact hs.congr hauto (congrArg Evaluation.defendAnswers hevaluation)
    (congrArg Evaluation.questions hevaluation) hretries

theorem KeepsLeases.of_core {e₀ : GradedEvaluation} {tokens : ℕ} (hcore : e.core = e₀.core)
    (hk : KeepsLeases tokens e e') : KeepsLeases tokens e₀ e' where
  kept t hlt ht := by
    obtain ⟨hauto, hevaluation, -⟩ := GradedEvaluation.eq_of_core hcore
    obtain ⟨hold, hattempts, hsame⟩ := hk.kept t hlt ht
    rw [GradedEvaluation.Holds, hauto] at hold
    rw [GradedEvaluation.attempts, GradedEvaluation.attempts, hauto] at hattempts
    exact ⟨hold, hattempts, hsame.trans (congrArg Evaluation.defendAnswers hevaluation)⟩

theorem holds_of_isCurrent {now : Time} (hcurrent : claim.isCurrent e now = true) :
    e.Holds claim.token := by
  have hlease := (Bool.and_eq_true_iff.mp hcurrent).1
  rcases ha : e.auto with _ | a <;> rw [ha] at hlease
  · cases hlease
  · exact ⟨a, ha, (of_decide_eq_true hlease).1⟩

namespace GradeInv

theorem visible_eq (hi : GradeInv setup h) (c : GradeClient) :
    h.evaluation.visible c = h.evaluation.stored := by
  rw [Row.visible]
  split
  · rfl
  · rename_i u v hheld
    split_ifs
    · exact (hi.held u v hheld).1
    · rfl

/-- The state after an exception of a claim. -/
theorem finalOk_unavailable {P : Prop} (hg : Gradable setup h) (hc : ClaimOk h claim P)
    (now : Time) :
    FinalOk setup h claim (claim.unavailable now) where
  gradable := hg
  lease := rfl
  attempts := rfl
  judged r hr := by cases hr
  claim := ⟨hc.issued, hc.positive, fun ht => ⟨(hc.held ht).1, fun r hr => by cases hr⟩⟩

theorem autoNext (hi : GradeInv setup h) (w : ℕ) : GradeInv setup (autoNext setup h w) := by
  have hp := hi.workers w
  have hlock := hi.workerLocks w
  rw [PromptCode.autoNext]
  cases hphase : h.workers w <;> rw [hphase] at hp hlock <;> dsimp only
  case idle =>
    split_ifs with hselect
    · obtain ⟨henabled, -, hcompleted, hversion, -⟩ := hselect
      exact hi.gotoWorker (p := .selected) ⟨henabled, hversion, hcompleted⟩
        fun hl => by cases hl
    · exact hi
  case selected =>
    split_ifs with hfree
    · exact hi.lockWorker (p := .locked) hfree hp
    · exact hi.gotoWorker (p := .idle) trivial fun hl => by cases hl
  case locked =>
    refine hi.gotoWorker (p := .claiming _) ⟨hp, ?_⟩ fun _ => hlock rfl
    rw [hi.visible_eq]
  case claiming e =>
    obtain ⟨hg, hcore⟩ := hp
    have hsession := hlock rfl
    have he : StoredGrade setup h.log h.tokens h.job e := hi.stored.of_core hcore
    split_ifs with hfree
    · exact hi
    · rcases hclaim : e.claimGrade h.now h.tokens with _ | e₁ | ⟨e₁, claim⟩ <;> dsimp only
      · exact hi.releaseWorker
      · obtain ⟨hstored, hleases⟩ := he.write hclaim
        exact hi.storeWorker (p := .idle) [] hsession (Nat.le_refl _)
          (hleases.of_core hcore) hstored (fun _ _ _ _ => trivial) rfl
      · obtain ⟨hstored, hleases, htoken, hpos, hattempts⟩ :=
          he.claim ⟨hg.enabled, hg.version⟩ hclaim
        rw [htoken]
        refine hi.storeWorker [_] hsession (Nat.le_succ _) (hleases.of_core hcore) hstored
          (fun h' hvalue htokens hjob => ⟨{ hg with completed := hjob ▸ hg.completed }, ?_⟩) rfl
        exact ⟨by omega, hpos, fun _ => ⟨hvalue ▸ hattempts, trivial⟩⟩
  case claimed claim =>
    exact hi.gotoWorker (p := .reviewing _ _) ⟨hp.1, hp.2, rfl⟩ fun hl => by cases hl
  case reviewing claim job =>
    obtain ⟨hg, hc, rfl⟩ := hp
    rw [hi.visible_eq]
    rcases hcontext : reviewContext setup.service setup.session (some h.job)
      (some h.evaluation.stored.toEvaluation) with error | context <;> dsimp only
    · exact hi.gotoWorker (p := .graded _ _) (finalOk_unavailable hg hc _) fun hl => by cases hl
    · obtain ⟨hjob, hevaluation, result, -, -, hresult, hverify, -⟩ := reviewContext_ok hcontext
      have hanswers : context.evaluation.defendAnswers = h.evaluation.stored.defendAnswers :=
        congrArg Evaluation.defendAnswers (Option.some.inj hevaluation).symm
      have hverified : VerifiedOutcome setup h.job context.payload := by
        rw [Option.some.inj hjob]
        exact ⟨result, hresult, hverify⟩
      exact hi.gotoWorker (p := .gathering _ _) ⟨hg, hverified, hc.issued, hc.positive,
        fun ht => ⟨(hc.held ht).1, hanswers⟩⟩ fun hl => by cases hl
  case gathering => exact hi
  case judging => exact hi
  case graded claim final =>
    split_ifs with hfree
    · exact hi.lockWorker (p := .relocked _ _) hfree hp
    · exact hi
  case relocked claim final =>
    refine hi.gotoWorker (p := .publishing _ _ _) ⟨hp, ?_⟩ fun _ => hlock rfl
    rw [hi.visible_eq]
  case publishing claim final e =>
    obtain ⟨hf, hcore⟩ := hp
    have hsession := hlock rfl
    split_ifs with hcurrent hfree
    · exact hi
    · have he : StoredGrade setup h.log h.tokens h.job e := hi.stored.of_core hcore
      obtain ⟨hauto, hevaluation, -⟩ := GradedEvaluation.eq_of_core hcore
      have hholds := holds_of_isCurrent hcurrent
      obtain ⟨hattempts, hsnapshot⟩ := hf.claim.held (by
        rwa [GradedEvaluation.Holds, hauto] at hholds)
      have hsame : e.attempts = claim.attempts := by
        rw [GradedEvaluation.attempts, hauto]
        exact hattempts
      obtain ⟨hstored, hleases⟩ := he.publish hholds hf.lease hf.attempts hf.claim.positive hsame
        hf.gradable.completed fun r hr => ⟨(hsnapshot r hr).trans
          (congrArg Evaluation.defendAnswers hevaluation).symm, hf.judged r hr⟩
      exact hi.storeWorker (p := .idle) [_] hsession (Nat.le_refl _)
        (hleases.of_core hcore) hstored (fun _ _ _ _ => trivial) rfl
    · exact hi.releaseWorker

theorem gradeRouteNext (hi : GradeInv setup h) (r : ℕ) :
    GradeInv setup (gradeRouteNext setup h r) := by
  have hlock := hi.routeLocks r
  rw [PromptCode.gradeRouteNext]
  cases hphase : h.routes r <;> rw [hphase] at hlock <;> dsimp only
  case idle => exact hi
  case locked request =>
    have hsession := hlock.mp rfl
    rcases hrow : h.evaluation.lock (.route r) with _ | evaluation <;> dsimp only
    · exact hi
    · obtain ⟨rfl, -⟩ := Row.lock_eq_some hrow
      refine hi.moved (.route r) (.of_same rfl rfl rfl) hi.stored (Or.inl rfl) (fun d v hd => ?_)
        (fun _ _ => Iff.rfl) (fun _ _ => rfl) (fun v hv => routes_gotoRoute hv)
        (fun v hv => by cases hv) fun v hv => ?_
      · obtain ⟨rfl, rfl⟩ := Prod.mk.inj (Option.some.inj hd)
        exact ⟨hi.visible_eq _, hsession⟩
      · change (((h.gotoRoute r _).routes v).holdsLock = true) ↔ _
        rw [routes_gotoRoute_self hv]
        exact ⟨fun _ => hsession, fun _ => rfl⟩
  case holding request =>
    have hsession := hlock.mp rfl
    rw [hi.visible_eq]
    rcases hcommit : request.commit setup h.now h.job h.evaluation.stored with error | ⟨e, job⟩ <;>
      dsimp only
    · exact hi.releaseRoute rfl
    · obtain ⟨hstored, hleases, hjob⟩ := hi.stored.commit hcommit
      refine hi.storeRoute hsession hleases hstored hjob ?_
      cases request <;> rfl
  case advising revision =>
    have hother : ¬h.session = some (.route r) := fun hs => by cases hlock.mpr hs
    have hgo : ∀ {q : GradeRoute}, q.holdsLock = false → GradeInv setup (h.gotoRoute r q) :=
      fun hq => hi.gotoRoute ⟨fun ht => absurd (hq.symm.trans ht) Bool.false_ne_true,
        fun hs => absurd hs hother⟩
    split
    · exact hgo rfl
    · split_ifs
      · exact hgo rfl
      · exact hgo rfl
  case advised => exact hi

theorem gradeAct (hi : GradeInv setup h) {a : GradeAction} (hlate : ¬LateFeedback h a) :
    GradeInv setup (gradeAct setup h a) := by
  cases a with
  | tick d =>
      have hl : Leaves h (PromptCode.gradeAct setup h (.tick d)) := .of_same rfl rfl rfl
      exact ⟨hi.stored, hi.held, fun w => AutoOk.leaves hl (fun _ => rfl) (hi.workers w),
        hi.workerLocks, hi.routeLocks⟩
  | worker w => exact hi.autoNext w
  | bundle w record =>
      have hp := hi.workers w
      rw [PromptCode.gradeAct]
      split
      · rename_i claim context hphase
        rw [hphase] at hp
        obtain ⟨hg, hv, hc⟩ := hp
        dsimp only
        split
        · exact hi.gotoWorker (p := .graded _ _) (finalOk_unavailable hg hc _)
            fun hl => by cases hl
        · rename_i bundle hbundle
          exact hi.gotoWorker (p := .judging _ _ _ _) ⟨hg, ⟨_, _, _, hv, hbundle⟩, hc⟩
            fun hl => by cases hl
      · exact hi
  | judged w first second =>
      have hp := hi.workers w
      rw [PromptCode.gradeAct]
      split
      · rename_i claim sourceDigest snapshot bundle hphase
        rw [hphase] at hp
        obtain ⟨hg, ⟨payload, record, packet, hv, hbundle⟩, hc⟩ := hp
        split
        · exact hi.gotoWorker (p := .graded _ _) (finalOk_unavailable hg hc _)
            fun hl => by cases hl
        · rename_i judged hjudged
          refine hi.gotoWorker (p := .graded _ _) ⟨hg, rfl, rfl, fun r hr => ?_, hc.issued,
            hc.positive, fun ht => ⟨(hc.held ht).1, fun r hr => ?_⟩⟩ fun hl => by cases hl
          · obtain rfl := Option.some.inj hr
            exact ⟨payload, record, packet, bundle, first, second, hv, hbundle, hjudged⟩
          · obtain rfl := Option.some.inj hr
            exact (hc.held ht).2
      · exact hi
  | raised w =>
      have hp := hi.workers w
      rw [PromptCode.gradeAct]
      split
      case h_5 => exact hi.releaseWorker
      all_goals
        rename_i hphase
        rw [hphase] at hp
      · exact hi.gotoWorker (p := .graded _ _) (finalOk_unavailable hp.1 hp.2 _)
          fun hl => by cases hl
      · exact hi.gotoWorker (p := .graded _ _) (finalOk_unavailable hp.1 hp.2.1 _)
          fun hl => by cases hl
      · exact hi.gotoWorker (p := .graded _ _) (finalOk_unavailable hp.1 hp.2.2 _)
          fun hl => by cases hl
      · exact hi.gotoWorker (p := .graded _ _) (finalOk_unavailable hp.1 hp.2.2 _)
          fun hl => by cases hl
  | crash w => exact hi.releaseWorker
  | request r request =>
      rw [PromptCode.gradeAct]
      split
      · split_ifs with hfree
        · exact hi.lockRoute hfree rfl
        · exact hi
      · exact hi
  | route r => exact hi.gradeRouteNext r
  | advice r text =>
      rw [PromptCode.gradeAct]
      split
      · rename_i e hphase
        simp only [LateFeedback, hphase, ne_eq, not_not] at hlate
        obtain ⟨hauto, hevaluation, hretries⟩ := GradedEvaluation.eq_of_core hlate
        have hanswers : e.defendAnswers = h.evaluation.stored.defendAnswers :=
          congrArg Evaluation.defendAnswers hevaluation
        have hother : h.session ≠ some (.route r) := fun hs => by
          have hlock := (hi.routeLocks r).mpr hs
          rw [hphase] at hlock
          cases hlock
        split_ifs with hfree
        · exact hi
        · refine hi.moved (.route r)
            ⟨Nat.le_refl _, fun _ => rfl, StoredGrade.keepsLeases_congr hauto hanswers⟩
            (hi.stored.congr hauto hanswers (congrArg Evaluation.questions hevaluation) hretries)
            (Or.inl hlate) (fun d v hd => ?_) (fun _ _ => Iff.rfl) (fun _ _ => rfl)
            (fun v hv => routes_gotoRoute hv) (fun v hv => by cases hv) fun v hv => ?_
          · have hsession := (hi.held d v hd).2
            have hd' : d = .route r := by
              have hfree' : h.evaluation.free (.route r) = true := by simpa using hfree
              rw [Row.free, show h.evaluation.held = some (d, v) from hd] at hfree'
              exact of_decide_eq_true hfree'
            exact absurd (hd' ▸ hsession) hother
          · rw [routes_gotoRoute_self hv]
            exact ⟨fun hl => (by cases hl), fun hs => absurd hs hother⟩
      · exact hi
  | abort r => exact hi.releaseRoute rfl
  | job row =>
      rw [PromptCode.gradeAct]
      split_ifs with hdone
      · exact hi
      · have hopen := (not_or.mp hdone).1
        exact hi.moved (.route 0) ⟨Nat.le_refl _, fun hc => absurd hc hopen,
            StoredGrade.keepsLeases_congr rfl rfl⟩ (hi.stored.setJob hopen) (Or.inl rfl) hi.held
          (fun _ _ => Iff.rfl) (fun _ _ => rfl) (fun _ _ => rfl) (fun v hv => by cases hv)
          fun v hv => hv ▸ hi.routeLocks v

end GradeInv

theorem freshGrades_inv (setup : GradeSetup) (assessment : Assessment) (questions : ℕ)
    (job : SubmittedJob) (now : Time) :
    GradeInv setup (freshGrades assessment questions job now) where
  stored :=
    { claims := rfl
      attempts := Nat.zero_le _
      complete := fun hpos => absurd hpos (Nat.lt_irrefl 0)
      retries := rfl
      active := fun _ ha => by cases ha
      lease := fun t ⟨a, ha, _⟩ => by cases ha
      result := fun _ _ ha => by cases ha
      legal := trivial
      issued := fun _ _ => ⟨List.not_mem_nil, List.not_mem_nil⟩ }
  held _ _ hd := by cases hd
  workers _ := trivial
  workerLocks _ hl := by cases hl
  routeLocks _ := ⟨fun hl => (by cases hl), fun hs => (by cases hs)⟩

end

section

variable (setup : GradeSetup) (assessment : Assessment) (questions : ℕ) (job : SubmittedJob)
  (now : Time)

/-- The commits of such a run are those of a legal grading. -/
theorem grading_log_legal {actions : List GradeAction}
    (h : Throughout (gradeAct setup) (fun h a => ¬LateFeedback h a)
      (freshGrades assessment questions job now) actions) :
    GradingLog (run (gradeAct setup) (freshGrades assessment questions job now) actions).log :=
  (invariant_run (GradeInv setup) (fun _ _ hi hlate => hi.gradeAct hlate)
    (freshGrades_inv setup assessment questions job now) h).stored.legal

end

/-! ### One grading -/

section

variable {setup : GradeSetup} {h : GradeHost}

/-- A request that no other client disturbs. -/
theorem run_request {r : ℕ} {request : GradeRequest} {e : GradedEvaluation} {job : SubmittedJob}
    (hroute : h.routes r = .idle) (hsession : h.session = none)
    (hheld : h.evaluation.held = none)
    (hcommit : request.commit setup h.now h.job h.evaluation.stored = .ok (e, job)) :
    run (gradeAct setup) h [.request r request, .route r, .route r] =
      { h with
        evaluation := ⟨e, none⟩
        job := job
        routes := Function.update h.routes r (request.next e)
        log := request.events setup ++ h.log } := by
  obtain ⟨now, session, ⟨stored, held⟩, row, tokens, workers, routes, log⟩ := h
  obtain rfl : session = none := hsession
  obtain rfl : held = none := hheld
  dsimp only at hroute hcommit
  simp only [run_cons, run_nil, gradeAct, hroute, if_true, GradeHost.gotoRoute, gradeRouteNext,
    Function.update_self, Row.lock, Row.free, Row.visible, Row.put, hcommit, GradeHost.store,
    GradeHost.release, Row.rollback, Function.update_idem]

/-- The statements of a worker that grades. -/
def gradeActions (w : ℕ) (record : GradingRecord) (first second : JudgeResponse) :
    List GradeAction :=
  List.replicate 6 (.worker w) ++
    [.bundle w record, .judged w first second, .worker w, .worker w, .worker w]

/-- A worker that no other client disturbs. -/
theorem run_gradeActions {w : ℕ} {record : GradingRecord} {first second : JudgeResponse}
    {e : GradedEvaluation} {claim : AutoClaim} {context : ReviewContext}
    {bundle : EvidenceBundle} {judged : AutomatedOutcome} (hidle : h.workers w = .idle)
    (hsession : h.session = none) (hheld : h.evaluation.held = none)
    (hselected : setup.autoEnabled ∧ setup.session.isSubmitted ∧
      h.job.row.status = .completed ∧ setup.scoringVersion = rubricVersion ∧
      h.evaluation.stored.isSelected)
    (hclaim : h.evaluation.stored.claimGrade h.now h.tokens = .claim e claim)
    (hcontext : reviewContext setup.service setup.session (some h.job)
      (some e.toEvaluation) = .ok context)
    (hbundle : gradingBundle record context.evaluation.defendAnswers
      context.assessment.packet context.payload = .ok bundle)
    (hjudged : aggregateJudgments first second bundle = .ok judged)
    (hcurrent : claim.isCurrent e h.now = true) :
    (run (gradeAct setup) h (gradeActions w record first second)).evaluation.stored =
      e.publishGrade (claim.graded context.job.ident.sourceDigest.1
        context.evaluation.defendAnswers first second judged) := by
  obtain ⟨now, session, ⟨stored, held⟩, row, tokens, workers, routes, log⟩ := h
  obtain rfl : session = none := hsession
  obtain rfl : held = none := hheld
  dsimp only at hidle hselected hclaim hcontext hcurrent
  simp only [gradeActions, List.replicate, List.cons_append, List.nil_append, run_cons, run_nil,
    gradeAct, autoNext, hidle, hselected, and_self, if_true, GradeHost.gotoWorker,
    Function.update_self, Row.free, Row.visible, hclaim, GradeHost.store, GradeHost.release,
    Row.rollback, hcontext, hbundle, hjudged, hcurrent, Bool.true_eq_false, if_false]

end

theorem candidateAutoAssessment_publishGrade {setup : GradeSetup} {e : GradedEvaluation}
    {claim : AutoClaim} {sourceDigest : Str} {snapshot : Answers} {first second : JudgeResponse}
    {judged : AutomatedOutcome} (hauto : setup.autoEnabled = true)
    (hpacket : e.packetDigest = claim.packetDigest) :
    candidateAutoAssessment setup
      (e.publishGrade (claim.graded sourceDigest snapshot first second judged)) = some judged := by
  have hpublished : (e.publishGrade
      (claim.graded sourceDigest snapshot first second judged)).packetDigest =
      claim.packetDigest := hpacket
  simp only [candidateAutoAssessment, hpublished]
  simp [hauto, GradedEvaluation.publishGrade, AutoClaim.graded]

def sampleGrading : GradeSetup := ⟨true, rubricVersion, sampleService "3", sampleSession⟩

/-- The lease under which the sample result is sent in. -/
def sampleLease : GradingJob :=
  { enqueueGradingJob 0 with
    status := .running
    leaseToken := sampleIdentity.leaseToken
    leaseExpiresAt := some 1 }

/-- The answer, the result of the job and the lease of its worker. -/
def answeredActions (result : Json) : List GradeAction :=
  [.request 0 (.answer 0 (lit "Because")), .route 0, .route 0] ++ [.job sampleLease] ++
    [.request 1 (.finish sampleIdentity.leaseToken result), .route 1, .route 1]

def silentJudgment : Judgment where
  rating := none
  rationale := lit "Nothing here can be rated"
  counterevidence := lit "nothing"
  citations := []
  rating_le _ hr := absurd hr (Option.not_mem_none _)
  rationale_size := by decide
  counterevidence_size := by decide
  citations_size := Nat.zero_le 3

/-- A judge that rates nothing. -/
def silentResponse : JudgeResponse where
  dimensions :=
    [(lit "A_correctness", silentJudgment), (lit "B_investigation", silentJudgment),
      (lit "C_fix_quality", silentJudgment), (lit "E_verification", silentJudgment),
      (lit "F_communication", silentJudgment)]
  needsReview := true
  keys_nodup := by
    dsimp only [List.map]
    decide

def gradedActions (result : Json) : List GradeAction :=
  answeredActions result ++ gradeActions 0 ⟨.ok [], [], []⟩ silentResponse silentResponse

def gradedHost (result : Json) : GradeHost :=
  run (gradeAct sampleGrading) (freshGrades samplePacket.assessed 1 (sampleJob result) 0)
    (gradedActions result)

theorem graded_notLate (result : Json) : Throughout (gradeAct sampleGrading)
    (fun h a => ¬LateFeedback h a) (freshGrades samplePacket.assessed 1 (sampleJob result) 0)
    (gradedActions result) := by
  repeat' constructor
  all_goals exact id

section

variable {result payload : Json} {score : PyFloat}

/-- The evaluation with the answer. -/
def answeredEvaluation : GradedEvaluation where
  toEvaluation := sampleEvaluation
  auto := some (queueState sampleEvaluation)
  history := []
  autoGradeRetries := 0
  aiFeedback := none

theorem answer_sample : (GradeRequest.answer 0 (lit "Because")).commit sampleGrading 0
    { sampleJob result with row := enqueueGradingJob 0 }
    ⟨⟨some samplePacket.assessed, [], 1, none⟩, none, [], 0, none⟩ =
      .ok (answeredEvaluation, { sampleJob result with row := enqueueGradingJob 0 }) := by
  have hvalid : ¬(1 ≤ 0 ∨ strip (lit "Because") = []) := by decide
  have hversion : ¬(sampleGrading.scoringVersion ∉ evidenceVersions) := by
    rw [not_not]
    decide
  rw [GradeRequest.commit, GradedEvaluation.postDefendAnswer, if_neg hvalid]
  dsimp only
  rw [if_neg hversion, if_neg (by simp [sampleGrading])]
  rfl

def finishedPacket (payload : Json) : Packet :=
  { samplePacket with
    evidence := samplePacket.evidence ++
      [⟨lit "external:" ++ lit "j", .externalEvaluation, none, jsonHash payload⟩] }

/-- The evaluation with the result of the job. -/
def finishedEvaluation (payload : Json) : GradedEvaluation :=
  { answeredEvaluation with assessment := some (finishedPacket payload).assessed }

def finishedJob (result : Json) : SubmittedJob :=
  { sampleJob result with row := sampleLease.complete result 0 }

theorem finish_sample
    (h : verifyResult sampleInventories sampleKey sampleIdentity result = .ok payload) :
    (GradeRequest.finish sampleIdentity.leaseToken result).commit sampleGrading 0
      { sampleJob result with row := sampleLease } answeredEvaluation =
        .ok (finishedEvaluation payload, finishedJob result) := by
  have hident : ({ sampleJob result with row := sampleLease } : SubmittedJob).ident.leased
    sampleIdentity.leaseToken = sampleIdentity := rfl
  have hleased : sampleLease.isLeasedAt sampleIdentity.leaseToken 0 = true := by decide
  rw [GradeRequest.commit, hident]
  simp only [sampleGrading, sampleService, h]
  rw [if_pos hleased]
  rfl

/-- The evaluation that the worker claims, and its claim. -/
def sampleClaim (payload : Json) : GradedEvaluation × AutoClaim :=
  ({ finishedEvaluation payload with
      auto := some ⟨.running, 1, some 0, gradeLease, 0, none, none⟩ },
    ⟨0, (finishedEvaluation payload).packetDigest, 1⟩)

theorem claimGrade_sample : (finishedEvaluation payload).claimGrade 0 0 =
    .claim (sampleClaim payload).1 (sampleClaim payload).2 := by
  have hcomplete : defenseComplete (finishedEvaluation payload).toEvaluation = true := by
    rfl
  have hauto : (finishedEvaluation payload).auto = some (queueState sampleEvaluation) := rfl
  have hattempts : (finishedEvaluation payload).attempts = 0 := rfl
  simp [GradedEvaluation.claimGrade, hcomplete, hauto, hattempts, maxGradeAttempts,
    sampleClaim, queueState]

theorem isCurrent_sample :
    (sampleClaim payload).2.isCurrent (sampleClaim payload).1 0 = true := by
  have hlease : 0 < gradeLease := by decide
  have hpacket : (sampleClaim payload).1.packetDigest = (sampleClaim payload).2.packetDigest :=
    rfl
  rw [AutoClaim.isCurrent, hpacket]
  simp [sampleClaim, hlease]

/-- What the worker judges. -/
def finishedContext (result payload : Json) : ReviewContext :=
  ⟨finishedJob result, (sampleClaim payload).1.toEvaluation, payload,
    (installEvidence (finishedPacket payload) (finishedJob result) result).assessed⟩

theorem reviewContext_finished
    (h : verifyResult sampleInventories sampleKey sampleIdentity result = .ok payload) :
    reviewContext (sampleService "3") sampleSession (some (finishedJob result))
      (some (sampleClaim payload).1.toEvaluation) = .ok (finishedContext result payload) := by
  have hident : (finishedJob result).ident.leased (finishedJob result).row.leaseToken =
    sampleIdentity := rfl
  have hstatus : (finishedJob result).row.status = .completed := rfl
  have hresult : (finishedJob result).row.result = some result := rfl
  simp only [reviewContext, hstatus, hresult]
  rw [hident]
  refine (if_neg (not_not.mpr rfl)).trans ?_
  refine (if_neg (not_or.mpr ⟨by simp [sampleService], not_not.mpr rfl⟩)).trans ?_
  simp only [sampleService, h, sampleClaim, finishedEvaluation]
  apply if_neg
  simp only [not_or, not_ne_iff]
  exact ⟨rfl, rfl, rfl⟩

theorem validateJudgment_silent {bundle : EvidenceBundle} (hai : bundle.aiObserved = false)
    (hids : (bundle.evidence.map BundleItem.id).Nodup) :
    validateJudgment silentResponse bundle = .ok () := by
  have hkeys : sameKeys (silentResponse.dimensions.map Prod.fst)
      (bundle.dimensions.map Dimension.key) = true := by
    rw [EvidenceBundle.dimensions, hai]
    decide
  rw [validateJudgment, if_neg (by simp [hkeys]), if_neg (not_not.mpr hids)]
  rfl

/-- The bundle of the sample, and what the silent judges make of it. -/
theorem aggregateJudgments_silent (result : Json) (hscore : payloadScore payload = .float score) :
    ∃ bundle judged,
      gradingBundle ⟨.ok [], [], []⟩ (finishedContext result payload).evaluation.defendAnswers
        (finishedContext result payload).assessment.packet
        (finishedContext result payload).payload = .ok bundle ∧
      aggregateJudgments silentResponse silentResponse bundle = .ok judged := by
  obtain ⟨bundle, hbundle, hai, hitems⟩ : ∃ bundle,
      gradingBundle ⟨.ok [], [], []⟩ (finishedContext result payload).evaluation.defendAnswers
        (finishedContext result payload).assessment.packet
        (finishedContext result payload).payload = .ok bundle ∧
      bundle.aiObserved = false ∧
      bundle.evidence.map BundleItem.id = [lit "defend:" ++ lit "0", lit "evaluation:trusted"] := by
    simp only [gradingBundle, finishedContext, hscore, scoreNumber]
    exact ⟨_, if_neg (by simp), rfl, rfl⟩
  have hids : (bundle.evidence.map BundleItem.id).Nodup := by
    rw [hitems]
    decide
  have hvalid := validateJudgment_silent hai hids
  obtain ⟨judged, -, hjudged, -⟩ := aggregateJudgments_sound hvalid hvalid
  exact ⟨bundle, judged, hbundle, hjudged⟩

/-- The host with the answer, and with the job of its worker. -/
def leasedHost (result : Json) : GradeHost :=
  { freshGrades samplePacket.assessed 1 (sampleJob result) 0 with
    evaluation := ⟨answeredEvaluation, none⟩
    job := { sampleJob result with row := sampleLease }
    routes := Function.update (fun _ => .idle) 0 .idle
    log := [.answered] }

theorem run_answer_sample (result : Json) :
    run (gradeAct sampleGrading) (freshGrades samplePacket.assessed 1 (sampleJob result) 0)
      ([.request 0 (.answer 0 (lit "Because")), .route 0, .route 0] ++ [.job sampleLease]) =
        leasedHost result := by
  rw [run_append, run_request rfl rfl rfl answer_sample]
  rfl

theorem candidateAutoAssessment_sample (hscore : payloadScore payload = .float score)
    (h : verifyResult sampleInventories sampleKey sampleIdentity result = .ok payload) :
    ∃ judged, candidateAutoAssessment sampleGrading (gradedHost result).evaluation.stored =
      some judged := by
  obtain ⟨bundle, judged, hbundle, hjudged⟩ := aggregateJudgments_silent result hscore
  refine ⟨judged, ?_⟩
  rw [gradedHost, gradedActions, answeredActions, run_append, run_append,
    run_answer_sample, run_request rfl rfl rfl (finish_sample h)]
  rw [run_gradeActions rfl rfl rfl ⟨rfl, rfl, rfl, rfl, rfl⟩ claimGrade_sample
    (reviewContext_finished h) hbundle hjudged isCurrent_sample]
  exact candidateAutoAssessment_publishGrade rfl rfl

end

theorem verifyResult_sampleScore : ∃ payload score,
    verifyResult sampleInventories sampleKey sampleIdentity sampleResult = .ok payload ∧
      payloadScore payload = .float score := by
  obtain ⟨results, score, h⟩ := verifyResult_sampleResult
  exact ⟨_, score, h, rfl⟩

theorem grading_log_legal_graded : GradingLog (gradedHost sampleResult).log := by
  generalize sampleResult = result
  exact grading_log_legal sampleGrading samplePacket.assessed 1 (sampleJob result) 0
    (graded_notLate result)

end PromptCode
