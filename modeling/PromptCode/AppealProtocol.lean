import PromptCode.PublishedReviews

/-!
# The appeal protocol

A review has one appeal and an appeal one decision, by a person who is independent of
both sides.  An appeal is against the latest review, which was published when the
request checked that, a decided appeal stays as it is, and a review that is held back
is not shown.
-/

namespace PromptCode

open Py Transition

/-- The tables of appeals and decisions, and what is shown while an appeal holds a
review back. -/
structure AppealsSound (b : Board) : Prop where
  appeals : (b.appeals.map AppealRow.reviewId).Nodup
  owners : ∀ a ∈ b.appeals, Owns b a.sessionId a.candidateId
  decisions : (b.decisions.map DecisionRow.appealId).Nodup
  independent : ∀ d ∈ b.decisions, DecisionOk b d
  unreported : ∀ a ∈ b.appeals, a.status.isHeld = true →
    ∀ s p, b.candidateReviewStatus s = .ok (some p) → p.reviewId ≠ a.reviewId
  unlisted : ∀ a ∈ b.appeals, a.status.isHeld = true →
    ∀ ids s p, (s, p) ∈ b.publishedReviewsForSessions ids → p.reviewId ≠ a.reviewId

theorem TablesInv.appealsSound {b : Board} (h : TablesInv b) : AppealsSound b where
  appeals := h.appealReviews
  owners := h.appealOwners
  decisions := h.decisionAppeals
  independent := h.decisions
  unreported a ha hstatus s p hp heq := by
    obtain ⟨-, r, -, hheld, -, rfl⟩ := (candidateReviewStatus_eq_some h).mp hp
    exact hheld ⟨a, ha, heq.symm, hstatus⟩
  unlisted a ha hstatus ids s p hp heq := by
    obtain ⟨-, -, r, -, hheld, rfl⟩ := (mem_publishedReviewsForSessions h).mp hp
    exact hheld ⟨a, ha, heq.symm, hstatus⟩

/-- The review is the one that the report shows. -/
def Reported (b : Board) (s : SessionId) (reviewId : RowId) : Prop :=
  ∃ p, b.candidateReviewStatus s = .ok (some p) ∧ p.reviewId = reviewId

/-- The review is the latest one of the session. -/
def IsLatest (b : Board) (s : SessionId) (reviewId : RowId) : Prop :=
  ∃ r, latestReview (b.reviewsOf s) = some r ∧ r.id = reviewId

/-- The rows that a step may add to the appeals and the decisions. -/
structure KeepsAppeals (b : Board) (a : BoardAction) : Prop where
  checked : ∀ c req, (boardAct b a).phase c = .appealPublished req →
    b.phase c = .appealPublished req ∨ Reported b req.session req.reviewId
  created : ∀ row ∈ (boardAct b a).appeals,
    (∃ old ∈ b.appeals, row = old ∨ old.status = .pending ∧
      row = { old with status := row.status }) ∨
    ∃ c req, b.phase c = .appealPublished req ∧
      row = ⟨b.nextId, req.session, req.reviewId, req.user.id, req.reason, .pending⟩ ∧
      IsLatest b req.session req.reviewId ∧ IsLatest (boardAct b a) req.session req.reviewId
  decided : ∀ row ∈ b.appeals, row.status ≠ .pending → row ∈ (boardAct b a).appeals
  decision : ∀ d ∈ (boardAct b a).decisions, d ∈ b.decisions ∨
    ∃ c req appeal, b.phase c = .decided req appeal ∧ req.user.isInterviewer = true ∧
      d = ⟨b.nextId, appeal.id, req.user.id, req.disposition, req.reason⟩

/-- The appeals, the decisions and the checked requests are as before. -/
structure Quiet (b b' : Board) : Prop where
  appeals : b'.appeals = b.appeals
  decisions : b'.decisions = b.decisions
  phase : ∀ c req, b'.phase c = .appealPublished req → b.phase c = .appealPublished req

theorem Quiet.keepsAppeals {b : Board} {a : BoardAction} (h : Quiet b (boardAct b a)) :
    KeepsAppeals b a where
  checked c req hphase := Or.inl (h.phase c req hphase)
  created row hrow := by
    rw [h.appeals] at hrow
    exact Or.inl ⟨row, hrow, Or.inl rfl⟩
  decided row hrow _ := by rwa [h.appeals]
  decision d hd := by
    rw [h.decisions] at hd
    exact Or.inl hd

section

variable {b b' : Board} {c d : ℕ} {s : SessionId} {p : BoardPhase}

theorem Quiet.refl (b : Board) : Quiet b b := ⟨rfl, rfl, fun _ _ h => h⟩

theorem Quiet.trans {b'' : Board} (h : Quiet b b') (h' : Quiet b' b'') : Quiet b b'' where
  appeals := h'.appeals.trans h.appeals
  decisions := h'.decisions.trans h.decisions
  phase d req hphase := h.phase d req (h'.phase d req hphase)

/-- Another phase of one client, which is not the checked one. -/
theorem published_of_update {q : BoardPhase} (hq : ∀ req, q ≠ .appealPublished req)
    {req : AppealRequest} (h : Function.update b.phase c q d = .appealPublished req) :
    b.phase d = .appealPublished req := by
  by_cases hd : d = c
  · subst hd
    rw [Function.update_self] at h
    exact absurd h (hq req)
  · rwa [Function.update_of_ne hd] at h

theorem quiet_goto (hp : ∀ req, p ≠ .appealPublished req) : Quiet b (b.goto c p) :=
  ⟨rfl, rfl, fun _ _ h => published_of_update hp h⟩

theorem quiet_close : Quiet b (b.close c) :=
  ⟨rfl, rfl, fun _ _ h => published_of_update (q := .idle) nofun h⟩

/-- A commit that changes other tables. -/
theorem Quiet.close (h : Quiet b b') : Quiet b (b'.close c) := h.trans quiet_close

theorem quiet_lockEvaluation (hp : ∀ req, p ≠ .appealPublished req) :
    Quiet b (b.lockEvaluation c s p) :=
  ⟨rfl, rfl, fun _ _ h => published_of_update hp h⟩

theorem quiet_lockSession (hp : ∀ req, p ≠ .appealPublished req) :
    Quiet b (b.lockSession c s p) := by
  rw [Board.lockSession]
  split_ifs
  · exact ⟨rfl, rfl, fun _ _ h => published_of_update hp h⟩
  · exact Quiet.refl b

/-! ## The two inserts -/

theorem keepsAppeals_insertAppeal {req : AppealRequest} {a : BoardAction}
    (hphase : b.phase c = .appealPublished req)
    (hlatest : IsLatest b req.session req.reviewId)
    (ha : boardAct b a = (b.insertAppeal
      ⟨b.nextId, req.session, req.reviewId, req.user.id, req.reason, .pending⟩).close c) :
    KeepsAppeals b a where
  checked d req' h := by
    rw [ha] at h
    exact Or.inl (published_of_update (q := .idle) nofun h)
  created row hrow := by
    rw [ha] at hrow ⊢
    rcases List.mem_append.mp hrow with hrow | hrow
    · exact Or.inl ⟨row, hrow, Or.inl rfl⟩
    · exact Or.inr ⟨c, req, hphase, List.mem_singleton.mp hrow, hlatest, hlatest⟩
  decided row hrow _ := by
    rw [ha]
    exact List.mem_append_left _ hrow
  decision e he := by
    rw [ha] at he
    exact Or.inl he

theorem keepsAppeals_insertDecision (hi : BoardInv b) {req : DecisionRequest}
    {appeal : AppealRow} {a : BoardAction} (hphase : b.phase c = .decided req appeal)
    (ha : boardAct b a = (b.insertDecision
      ⟨b.nextId, appeal.id, req.user.id, req.disposition, req.reason⟩).close c) :
    KeepsAppeals b a := by
  have hc := hi.phases c
  rw [hphase] at hc
  obtain ⟨-, hmem, hrole, hpending, -⟩ := hc
  have hunique : ∀ row ∈ b.appeals, row.id = appeal.id → row = appeal := by
    intro row hrow hid
    exact List.inj_on_of_nodup_map hi.tables.appealIds hrow hmem hid
  constructor
  · intro d req' h
    rw [ha] at h
    exact Or.inl (published_of_update (q := .idle) nofun h)
  · intro row hrow
    rw [ha] at hrow
    obtain ⟨old, hold, rfl⟩ := List.mem_map.mp hrow
    refine Or.inl ⟨old, hold, ?_⟩
    split_ifs with hid
    · obtain rfl := hunique old hold hid
      exact Or.inr ⟨hpending, rfl⟩
    · exact Or.inl rfl
  · intro row hrow hstatus
    rw [ha]
    apply mem_insertDecision hrow
    intro hid
    rw [hunique row hrow hid] at hstatus
    exact hstatus hpending
  · intro e he
    rw [ha] at he
    rcases List.mem_append.mp he with he | he
    · exact Or.inl he
    · exact Or.inr ⟨c, req, appeal, hphase, hrole, List.mem_singleton.mp he⟩

/-! ## Every step -/

theorem boardNext_keepsAppeals (hi : BoardInv b) : KeepsAppeals b (.next c) := by
  have hc := hi.phases c
  have hquiet : Quiet b (boardNext b c) → KeepsAppeals b (.next c) :=
    fun h => h.keepsAppeals (a := .next c)
  rcases hphase : b.phase c with _ | ⟨req, session⟩ | ⟨req, session, job⟩ |
    ⟨req, context, outcome⟩ | ⟨req, context, outcome, previous⟩ | ⟨s, index, text⟩ |
    ⟨s, evaluation⟩ | req | req | req | req | req | ⟨req, appeal⟩ | ⟨req, appeal⟩ <;>
    rw [hphase] at hc
  case appealFresh =>
    by_cases hpublished : Reported b req.session req.reviewId
    · obtain ⟨published, hok, hid⟩ := hpublished
      have hnext : boardAct b (.next c) = b.goto c (.appealPublished req) := by
        simp only [boardAct, boardNext, hphase, hok]
        exact if_neg (not_ne_iff.mpr hid)
      refine ⟨?_, ?_, ?_, ?_⟩
      · intro d req' h
        rw [hnext] at h
        by_cases hd : d = c
        · subst hd
          rw [goto_phase] at h
          obtain rfl := BoardPhase.appealPublished.inj h
          exact Or.inr ⟨published, hok, hid⟩
        · rw [Board.goto] at h
          exact Or.inl (by simpa [Function.update_of_ne hd] using h)
      · intro row hrow
        rw [hnext] at hrow
        exact Or.inl ⟨row, hrow, Or.inl rfl⟩
      · intro row hrow _
        rw [hnext]
        exact hrow
      · intro e he
        rw [hnext] at he
        exact Or.inl he
    · apply hquiet
      rw [boardNext]
      simp only [hphase]
      split
      · rename_i published hok
        split_ifs with hid
        · exact quiet_close
        · exact absurd ⟨published, hok, not_ne_iff.mp hid⟩ hpublished
      · exact quiet_close
  case appealPublished =>
    by_cases hexists : b.appeals.any (fun a => a.reviewId = req.reviewId) = true
    · apply hquiet
      simp only [boardNext, hphase, if_pos hexists]
      exact quiet_close
    · apply keepsAppeals_insertAppeal hphase hc.2.2
      simp only [boardAct, boardNext, hphase, if_neg hexists]
  case decided =>
    by_cases hexists : b.decisions.any (fun d => d.appealId = appeal.id) = true
    · apply hquiet
      simp only [boardNext, hphase, if_pos hexists]
      exact quiet_close
    · apply keepsAppeals_insertDecision hi hphase
      simp only [boardAct, boardNext, hphase, if_neg hexists]
  all_goals
    apply hquiet
    simp only [boardNext, hphase]
  case idle => exact Quiet.refl b
  case reviewing => exact quiet_goto (by simp)
  case reviewingJob =>
    split_ifs
    · exact Quiet.refl b
    · split
      · exact quiet_close
      · split
        · exact quiet_close
        · exact quiet_lockEvaluation (by simp)
  case scored => exact quiet_goto (by simp)
  case numbered =>
    split_ifs
    · exact quiet_close
    · exact Quiet.close ⟨rfl, rfl, fun _ _ h => h⟩
  case answering =>
    split_ifs
    · exact Quiet.refl b
    · split
      · exact quiet_close
      · split_ifs
        · exact quiet_close
        · exact quiet_lockEvaluation (by simp)
  case revised => exact Quiet.close ⟨rfl, rfl, fun _ _ h => h⟩
  case appealing =>
    split
    · exact quiet_close
    · split_ifs
      · exact quiet_close
      · exact quiet_goto (by simp)
  case appealFound =>
    split
    · exact quiet_close
    · split_ifs
      · exact quiet_close
      · exact quiet_goto (by simp)
  case appealLatest =>
    split_ifs
    · exact quiet_close
    · exact quiet_goto (by simp)
  case deciding =>
    split
    · exact quiet_close
    · split_ifs
      · exact quiet_close
      · exact quiet_goto (by simp)

theorem BoardInv.keepsAppeals (hi : BoardInv b) (a : BoardAction) : KeepsAppeals b a := by
  rcases a with ⟨c, req⟩ | ⟨c, user, s, index, text⟩ | ⟨c, req⟩ | ⟨c, req⟩ | c | c |
    ⟨s, job, evaluation⟩ | service
  case next => exact boardNext_keepsAppeals hi
  all_goals apply Quiet.keepsAppeals; rw [boardAct]
  case review =>
    split
    · split
      · exact quiet_lockSession (by simp)
      · exact Quiet.refl b
    · exact Quiet.refl b
  case answer =>
    split
    · split
      · split_ifs
        · exact quiet_lockSession (by simp)
        · exact Quiet.refl b
      · exact Quiet.refl b
    · exact Quiet.refl b
  case appeal =>
    split
    · split
      · split_ifs
        · exact quiet_lockSession (by simp)
        · exact Quiet.refl b
      · exact Quiet.refl b
    · exact Quiet.refl b
  case decide =>
    split
    · split
      · rename_i appeal _
        split_ifs
        · exact ⟨rfl, rfl, fun _ _ h =>
            published_of_update (q := .deciding req appeal) (by simp) h⟩
        · exact Quiet.refl b
      · exact Quiet.refl b
    · exact Quiet.refl b
  case abort => exact quiet_close
  case other =>
    split_ifs
    · exact ⟨rfl, rfl, fun _ _ h => h⟩
    · exact Quiet.refl b
  case deploy => exact ⟨rfl, rfl, fun _ _ h => h⟩

/-! ## Runs -/

theorem boardInv_run (hi : BoardInv b) (actions : List BoardAction) :
    BoardInv (run boardAct b actions) :=
  invariant_run_of_step BoardInv (fun _ a hi => boardAct_inv hi a) hi

/-- The report has shown the review in some state of the run. -/
def ReportedDuring (b : Board) (actions : List BoardAction) (s : SessionId)
    (reviewId : RowId) : Prop :=
  ∃ earlier later, actions = earlier ++ later ∧
    Reported (run boardAct b earlier) s reviewId

theorem ReportedDuring.append {actions : List BoardAction} {reviewId : RowId}
    (h : ReportedDuring b actions s reviewId) (more : List BoardAction) :
    ReportedDuring b (actions ++ more) s reviewId := by
  obtain ⟨earlier, later, rfl, hreported⟩ := h
  exact ⟨earlier, later ++ more, List.append_assoc .., hreported⟩

/-- What is checked, or appealed against, has been reported before. -/
theorem reportedDuring_run (hi : BoardInv b) (hphase : ∀ c, b.phase c = .idle)
    (happeals : b.appeals = []) (actions : List BoardAction) :
    (∀ c req, (run boardAct b actions).phase c = .appealPublished req →
        ReportedDuring b actions req.session req.reviewId) ∧
      ∀ row ∈ (run boardAct b actions).appeals,
        ReportedDuring b actions row.sessionId row.reviewId := by
  induction actions using List.reverseRecOn with
  | nil =>
      constructor
      · intro c req h
        exact absurd ((hphase c).symm.trans h) nofun
      · intro row hrow
        rw [run_nil, happeals] at hrow
        exact nomatch hrow
  | append_singleton actions a ih =>
      obtain ⟨ihphase, ihappeals⟩ := ih
      have hkeeps := (boardInv_run hi actions).keepsAppeals a
      rw [run_append, run_cons, run_nil]
      constructor
      · intro c req h
        rcases hkeeps.checked c req h with hbefore | hreported
        · exact (ihphase c req hbefore).append [a]
        · exact ⟨actions, [a], rfl, hreported⟩
      · intro row hrow
        rcases hkeeps.created row hrow with ⟨old, hold, hsame⟩ | ⟨c, req, hc, rfl, -⟩
        · have hid : row.sessionId = old.sessionId ∧ row.reviewId = old.reviewId := by
            rcases hsame with rfl | ⟨-, hsame⟩
            · exact ⟨rfl, rfl⟩
            · rw [hsame]
              exact ⟨rfl, rfl⟩
          rw [hid.1, hid.2]
          exact (ihappeals old hold).append [a]
        · exact (ihphase c req hc).append [a]

/-- A decided appeal is the same after any run. -/
theorem decided_run (hi : BoardInv b) {row : AppealRow} (hrow : row ∈ b.appeals)
    (hstatus : row.status ≠ .pending) (actions : List BoardAction) :
    row ∈ (run boardAct b actions).appeals := by
  have hrun : BoardInv (run boardAct b actions) ∧ row ∈ (run boardAct b actions).appeals :=
    invariant_run_of_step (fun b => BoardInv b ∧ row ∈ b.appeals)
      (fun b a h => ⟨boardAct_inv h.1 a, (h.1.keepsAppeals a).decided row h.2 hstatus⟩)
      ⟨hi, hrow⟩
  exact hrun.2

end

/-- The protocol in every run, from submitted sessions without reviews. -/
theorem appeal_protocol (service : Service) (sessions : SessionId → Option SessionRow)
    (jobs : SessionId → Option SubmittedJob)
    (evaluations : SessionId → Option Evaluation) (actions : List BoardAction) :
    let start := freshBoard service sessions jobs evaluations
    Throughout boardAct KeepsAppeals start actions ∧
      AppealsSound (run boardAct start actions) ∧
      (∀ row ∈ (run boardAct start actions).appeals,
        ReportedDuring start actions row.sessionId row.reviewId) ∧
      ∀ row ∈ (run boardAct start actions).appeals, row.status ≠ .pending →
        ∀ more, row ∈ (run boardAct start (actions ++ more)).appeals := by
  intro start
  have hi : BoardInv start := freshBoard_inv service sessions jobs evaluations
  refine ⟨?_, (boardInv_run hi actions).tables.appealsSound, ?_, ?_⟩
  · exact throughout_of_step BoardInv (fun _ a hi => boardAct_inv hi a)
      (fun _ a hi => hi.keepsAppeals a) hi
  · exact (reportedDuring_run hi (fun _ => rfl) rfl actions).2
  · intro row hrow hstatus more
    rw [run_append]
    exact decided_run (boardInv_run hi actions) hrow hstatus more

end PromptCode
