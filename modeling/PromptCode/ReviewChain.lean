import PromptCode.ReviewOutcomes
import PromptCode.ReviewProtocol

/-!
# The revision chain of a session

In every run the reviews of a session count their revisions from 1 and name their
predecessors, each is sound for the packet of evidence at the moment of its insertion,
and an append that is rejected changes nothing.
-/

namespace PromptCode

open Py Transition

/-- The row is a sound review of what is stored on the board. -/
def AcceptedReview (b : Board) (r : ReviewRow) : Prop :=
  ∃ session job evaluation assessment result fields packet,
    b.sessions r.sessionId = some session ∧ session.owner ≠ some r.reviewerId ∧
    b.jobs r.sessionId = some job ∧ job.row.result = some result ∧
    (∃ (service : Service) (cases : List Case) (results : List Json),
      verifyResult service.inventories service.key
        (job.ident.leased job.row.leaseToken) result = .ok (.obj fields) ∧
      Vouched service.inventories (job.ident.leased job.row.leaseToken) fields cases
        results ∧
      CapsKept cases results r.outcome) ∧
    b.evaluations r.sessionId = some evaluation ∧
    evaluation.assessment = some assessment ∧
    packet = installEvidence assessment.packet job result ∧
    r.packetDigest = packet.digest ∧ r.sourceDigest = job.ident.sourceDigest.1 ∧
    OutcomeSound packet (payloadScore (.obj fields)) r.outcome

/-- The phases of `append_review`. -/
def BoardPhase.Appends : BoardPhase → Prop
  | .reviewing _ _ | .reviewingJob _ _ _ | .scored _ _ _ | .numbered _ _ _ _ => True
  | _ => False

/-- A step of a request that appends a review. -/
def BoardAction.Appends (b : Board) : BoardAction → Prop
  | .review _ _ => True
  | .next c | .abort c => (b.phase c).Appends
  | _ => False

structure KeepsChain (b : Board) (a : BoardAction) : Prop where
  chain : ∀ s, RevisionChain none 0 ((boardAct b a).reviewsOf s)
  inserted : (boardAct b a).reviews = b.reviews ∨
    ∃ r, (boardAct b a).reviews = b.reviews ++ [r] ∧ AcceptedReview b r
  rejected : a.Appends b → (boardAct b a).reviews = b.reviews →
    (boardAct b a).evaluations = b.evaluations

section

variable {b : Board} {c : ℕ}

theorem lockSession_tables {s : SessionId} {p : BoardPhase} :
    (b.lockSession c s p).reviews = b.reviews ∧
      (b.lockSession c s p).evaluations = b.evaluations := by
  rw [Board.lockSession]
  split_ifs <;> exact ⟨rfl, rfl⟩

/-- What a step of a request inserts is accepted, and an append that inserts nothing
changes nothing. -/
theorem boardNext_chain (hi : BoardInv b) :
    ((boardNext b c).reviews = b.reviews ∧
        ((b.phase c).Appends → (boardNext b c).evaluations = b.evaluations)) ∨
      ∃ r, (boardNext b c).reviews = b.reviews ++ [r] ∧ AcceptedReview b r := by
  have hc := hi.phases c
  rw [boardNext]
  rcases hphase : b.phase c with _ | ⟨req, session⟩ | ⟨req, session, job⟩ |
    ⟨req, context, outcome⟩ | ⟨req, context, outcome, previous⟩ | ⟨s, index, text⟩ |
    ⟨s, evaluation⟩ | req | req | req | req | req | ⟨req, appeal⟩ | ⟨req, appeal⟩ <;>
    rw [hphase] at hc <;> dsimp only
  case idle => exact Or.inl ⟨rfl, fun _ => rfl⟩
  case reviewing => exact Or.inl ⟨rfl, fun _ => rfl⟩
  case scored => exact Or.inl ⟨rfl, fun _ => rfl⟩
  case reviewingJob =>
    split_ifs
    · exact Or.inl ⟨rfl, fun _ => rfl⟩
    · split
      · exact Or.inl ⟨rfl, fun _ => rfl⟩
      · split <;> exact Or.inl ⟨rfl, fun _ => rfl⟩
  case numbered =>
    obtain ⟨-, ⟨session, hsession, howner⟩, -, hok, rfl⟩ := hc
    split_ifs
    · exact Or.inl ⟨rfl, fun _ => rfl⟩
    · refine Or.inr ⟨_, rfl, ?_⟩
      obtain ⟨service, row, hcontext⟩ := hok.verified
      obtain ⟨-, -, result, assessment, -, hresult, hverify, hassessment, hpacket⟩ :=
        reviewContext_ok hcontext
      obtain ⟨hdigest, hsound⟩ := outcomeSound_of_reviewOutcome hok.scored
      obtain ⟨fields, -, cases, results, hfields, -, -, hvouched, -⟩ :=
        verifyResult_ok hverify
      rw [hpacket] at hdigest hsound
      rw [hfields] at hverify hsound
      exact ⟨session, context.job, context.evaluation, assessment, result, fields, _,
        hsession, howner, hok.job, hresult,
        ⟨service, cases, results, hverify, hvouched, hsound.capsKept hvouched⟩,
        hok.evaluation, hassessment, rfl, hdigest, rfl, hsound⟩
  case answering =>
    split_ifs
    · exact Or.inl ⟨rfl, fun h => h.elim⟩
    · split
      · exact Or.inl ⟨rfl, fun h => h.elim⟩
      · split_ifs <;> exact Or.inl ⟨rfl, fun h => h.elim⟩
  case revised => exact Or.inl ⟨rfl, fun h => h.elim⟩
  case appealing =>
    split
    · exact Or.inl ⟨rfl, fun h => h.elim⟩
    · split_ifs <;> exact Or.inl ⟨rfl, fun h => h.elim⟩
  case appealFound =>
    split
    · exact Or.inl ⟨rfl, fun h => h.elim⟩
    · split_ifs <;> exact Or.inl ⟨rfl, fun h => h.elim⟩
  case appealLatest => split_ifs <;> exact Or.inl ⟨rfl, fun h => h.elim⟩
  case appealFresh =>
    split
    · split_ifs <;> exact Or.inl ⟨rfl, fun h => h.elim⟩
    · exact Or.inl ⟨rfl, fun h => h.elim⟩
  case appealPublished => split_ifs <;> exact Or.inl ⟨rfl, fun h => h.elim⟩
  case deciding =>
    split
    · exact Or.inl ⟨rfl, fun h => h.elim⟩
    · split_ifs <;> exact Or.inl ⟨rfl, fun h => h.elim⟩
  case decided => split_ifs <;> exact Or.inl ⟨rfl, fun h => h.elim⟩

/-- A step that starts or ends a request, and one of the environment, inserts nothing. -/
theorem boardAct_chain (hi : BoardInv b) (a : BoardAction) :
    ((boardAct b a).reviews = b.reviews ∧
        (a.Appends b → (boardAct b a).evaluations = b.evaluations)) ∨
      ∃ r, (boardAct b a).reviews = b.reviews ++ [r] ∧ AcceptedReview b r := by
  rcases a with ⟨c, req⟩ | ⟨c, user, s, index, text⟩ | ⟨c, req⟩ | ⟨c, req⟩ | c | c |
    ⟨s, job, evaluation⟩ | service
  case next => exact boardNext_chain hi
  all_goals apply Or.inl; rw [boardAct]
  case review =>
    split
    · split
      · exact ⟨lockSession_tables.1, fun _ => lockSession_tables.2⟩
      · exact ⟨rfl, fun _ => rfl⟩
    · exact ⟨rfl, fun _ => rfl⟩
  case answer =>
    split
    · split
      · split_ifs
        · exact ⟨lockSession_tables.1, fun _ => lockSession_tables.2⟩
        · exact ⟨rfl, fun _ => rfl⟩
      · exact ⟨rfl, fun _ => rfl⟩
    · exact ⟨rfl, fun _ => rfl⟩
  case appeal =>
    split
    · split
      · split_ifs
        · exact ⟨lockSession_tables.1, fun _ => lockSession_tables.2⟩
        · exact ⟨rfl, fun _ => rfl⟩
      · exact ⟨rfl, fun _ => rfl⟩
    · exact ⟨rfl, fun _ => rfl⟩
  case decide =>
    split
    · split
      · split_ifs <;> exact ⟨rfl, fun _ => rfl⟩
      · exact ⟨rfl, fun _ => rfl⟩
    · exact ⟨rfl, fun _ => rfl⟩
  case abort => exact ⟨rfl, fun _ => rfl⟩
  case other => split_ifs <;> exact ⟨rfl, fun h => h.elim⟩
  case deploy => exact ⟨rfl, fun _ => rfl⟩

theorem BoardInv.keepsChain (hi : BoardInv b) (a : BoardAction) : KeepsChain b a := by
  refine ⟨(boardAct_inv hi a).tables.chain, ?_, ?_⟩
  · rcases boardAct_chain hi a with ⟨hsame, -⟩ | hinserted
    · exact Or.inl hsame
    · exact Or.inr hinserted
  · intro happends hsame
    rcases boardAct_chain hi a with ⟨-, hevaluations⟩ | ⟨r, hr, -⟩
    · exact hevaluations happends
    · rw [hr] at hsame
      exact absurd hsame (by simp)

/-! ## Progress -/

/-- The steps of `append_review` when it neither waits nor fails. -/
def appendReview (c : ℕ) (req : ReviewRequest) : List BoardAction :=
  [.review c req, .next c, .next c, .next c, .next c]

/-- A request that nothing delays or refuses inserts its review. -/
theorem run_appendReview (req : ReviewRequest) (session : SessionRow)
    {context : ReviewContext} {outcome : ReviewOutcome} (hidle : b.phase c = .idle)
    (hopen : openContext (b.sessions req.session) (some req.user) = .ok session)
    (hsession : b.sessionLock req.session = none)
    (hevaluation : b.evaluationLock req.session = none)
    (hcontext : reviewContext b.service session (b.jobs req.session)
      (b.evaluations req.session) = .ok context)
    (houtcome : reviewOutcome (payloadTexts context.payload "manual_requirements")
      (payloadScore context.payload) context.assessment req.review req.manualChecks =
        .ok outcome)
    (hnew : ∀ r ∈ b.reviews, r.sessionId = req.session → r.revision ≠
      (latestReview (b.reviewsOf req.session)).elim 1 fun p => p.revision + 1) :
    let row := req.row context outcome (latestReview (b.reviewsOf req.session)) b.nextId
    let b' := run boardAct b (appendReview c req)
    b'.reviews = b.reviews ++ [row] ∧ b'.appeals = b.appeals ∧ b'.service = b.service ∧
      b'.sessions = b.sessions ∧ b'.jobs = b.jobs ∧ b'.evaluations = Function.update
        b.evaluations req.session (some { context.evaluation with
          gradingReviewId := some row.id }) := by
  intro row b'
  have hlocked : boardAct b (.review c req) =
      { b with
        sessionLock := Function.update b.sessionLock req.session (some c)
        phase := Function.update b.phase c (.reviewing req session) } := by
    simp only [boardAct, hidle, hopen, Board.lockSession, hsession, if_true]
  have hfresh : b.reviews.any (fun r =>
      r.sessionId = row.sessionId && r.revision = row.revision) = false := by
    rw [List.any_eq_false]
    intro r hr
    simp only [Bool.and_eq_true, decide_eq_true_eq, not_and]
    exact hnew r hr
  have hrun : b' = ((((({ b with
      sessionLock := Function.update b.sessionLock req.session (some c)
      phase := Function.update b.phase c (.reviewing req session) } : Board).goto c
        (.reviewingJob req session (b.jobs req.session))).lockEvaluation c req.session
        (.scored req context outcome)).goto c
        (.numbered req context outcome (latestReview (b.reviewsOf req.session)))).insertReview
        row { context.evaluation with gradingReviewId := some row.id }).close c := by
    show run boardAct b (appendReview c req) = _
    rw [appendReview, run_cons, hlocked]
    simp only [run_cons, run_nil, boardAct, boardNext, Function.update_self, Board.goto,
      ne_eq, hevaluation, not_true_eq_false, if_false, hcontext, houtcome,
      Board.lockEvaluation]
    exact if_neg (Bool.eq_false_iff.mp hfresh)
  rw [hrun]
  exact ⟨rfl, rfl, rfl, rfl, rfl, rfl⟩

end

/-- In every run, from sessions without reviews, every step keeps the revision chain. -/
theorem review_revision_chain (service : Service)
    (sessions : SessionId → Option SessionRow) (jobs : SessionId → Option SubmittedJob)
    (evaluations : SessionId → Option Evaluation) (actions : List BoardAction) :
    Throughout boardAct KeepsChain (freshBoard service sessions jobs evaluations)
      actions :=
  throughout_of_step BoardInv (fun _ a hi => boardAct_inv hi a)
    (fun _ a hi => hi.keepsChain a) (freshBoard_inv service sessions jobs evaluations)

end PromptCode
