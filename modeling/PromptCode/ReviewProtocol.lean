import PromptCode.ReviewBoard

/-!
# What the requests keep

The invariant of the tables of reviews, appeals and decisions: what each request
knows between its statements stays true, because the rows that it depends on are
locked.
-/

namespace PromptCode

open Py FileTree Transition

/-! ## Chains of revisions -/

/-- The revisions count on from `k`, and each review names the one before it. -/
def RevisionChain : Option RowId → ℕ → List ReviewRow → Prop
  | _, _, [] => True
  | previous, k, r :: rows =>
      r.revision = k + 1 ∧ r.supersedesId = previous ∧
        RevisionChain (some r.id) (k + 1) rows

theorem latestReview_append (rows : List ReviewRow) (r : ReviewRow) :
    latestReview (rows ++ [r]) =
      match latestReview rows with
      | none => some r
      | some b => if b.revision < r.revision then some r else some b := by
  rw [latestReview, List.foldl_append]
  rfl

/-- The last review of a chain is its latest. -/
theorem RevisionChain.latest {previous : Option RowId} {k : ℕ} {rows : List ReviewRow}
    (h : RevisionChain previous k rows) :
    latestReview rows = rows.getLast? ∧
      ∀ r, rows.getLast? = some r → r.revision = k + rows.length := by
  induction rows using List.reverseRecOn generalizing previous k with
  | nil => exact ⟨rfl, by simp⟩
  | append_singleton rows r ih =>
      have hsplit : RevisionChain previous k rows ∧ r.revision = k + rows.length + 1 := by
        clear ih
        induction rows generalizing previous k with
        | nil => exact ⟨trivial, by simpa using h.1⟩
        | cons q rows ih =>
            obtain ⟨hq, hprev, hrows⟩ := h
            obtain ⟨hchain, hr⟩ := ih hrows
            exact ⟨⟨hq, hprev, hchain⟩, by simp only [List.length_cons]; omega⟩
      obtain ⟨hlatest, hrevision⟩ := ih hsplit.1
      rw [latestReview_append, hlatest]
      constructor
      · rcases hlast : rows.getLast? with _ | q
        · simp
        · have hq := hrevision q hlast
          simp [show q.revision < r.revision by omega]
      · intro q hq
        simp only [List.getLast?_append, List.getLast?_singleton, Option.some_or,
          Option.some.injEq] at hq
        subst hq
        rw [hsplit.2, List.length_append]
        rfl

/-- A chain goes on with the successor of its latest review. -/
theorem RevisionChain.append {previous : Option RowId} {k : ℕ} {rows : List ReviewRow}
    (h : RevisionChain previous k rows) {r : ReviewRow}
    (hrevision : r.revision = k + rows.length + 1)
    (hsupersedes : r.supersedesId = (rows.getLast?.map ReviewRow.id).or previous) :
    RevisionChain previous k (rows ++ [r]) := by
  induction rows generalizing previous k with
  | nil => exact ⟨by simpa using hrevision, by simpa using hsupersedes, trivial⟩
  | cons q rows ih =>
      obtain ⟨hq, hprev, hrows⟩ := h
      refine ⟨hq, hprev, ih hrows ?_ ?_⟩
      · rw [hrevision, List.length_cons]
        omega
      · rw [hsupersedes]
        rcases hlast : rows.getLast? with _ | p
        · rw [List.getLast?_eq_none_iff] at hlast
          simp [hlast]
        · simp [List.getLast?_cons, hlast]

/-! ## What a request knows -/

/-- The review is one that the scoring has accepted for the locked rows. -/
structure ScoredOk (b : Board) (req : ReviewRequest) (context : ReviewContext)
    (outcome : ReviewOutcome) : Prop where
  job : b.jobs req.session = some context.job
  evaluation : b.evaluations req.session = some context.evaluation
  verified : ∃ service session, reviewContext service session (some context.job)
    (some context.evaluation) = .ok context
  scored : reviewOutcome (payloadTexts context.payload "manual_requirements")
    (payloadScore context.payload) context.assessment req.review req.manualChecks =
      .ok outcome

/-- The reviewer does not own the session. -/
def Independent (b : Board) (req : ReviewRequest) : Prop :=
  ∃ session, b.sessions req.session = some session ∧ session.owner ≠ some req.user.id

/-- The candidate owns the session. -/
def Owns (b : Board) (s : SessionId) (candidate : UserId) : Prop :=
  ∃ session, b.sessions s = some session ∧ session.owner = some candidate

def BoardPhase.Ok (b : Board) (c : ℕ) : BoardPhase → Prop
  | .idle => True
  | .reviewing req _ => b.sessionLock req.session = some c ∧ Independent b req
  | .reviewingJob req _ job =>
      b.sessionLock req.session = some c ∧ Independent b req ∧ job = b.jobs req.session
  | .scored req context outcome =>
      b.sessionLock req.session = some c ∧ Independent b req ∧
        b.evaluationLock req.session = some c ∧ ScoredOk b req context outcome
  | .numbered req context outcome previous =>
      b.sessionLock req.session = some c ∧ Independent b req ∧
        b.evaluationLock req.session = some c ∧ ScoredOk b req context outcome ∧
        previous = latestReview (b.reviewsOf req.session)
  | .answering s _ _ => b.sessionLock s = some c
  | .revised s _ => b.sessionLock s = some c ∧ b.evaluationLock s = some c
  | .appealing req | .appealFound req =>
      b.sessionLock req.session = some c ∧ Owns b req.session req.user.id
  | .appealLatest req | .appealFresh req | .appealPublished req =>
      b.sessionLock req.session = some c ∧ Owns b req.session req.user.id ∧
        ∃ r, latestReview (b.reviewsOf req.session) = some r ∧ r.id = req.reviewId
  | .deciding req appeal =>
      b.appealLock appeal.id = some c ∧ appeal ∈ b.appeals ∧ req.user.isInterviewer = true
  | .decided req appeal =>
      b.appealLock appeal.id = some c ∧ appeal ∈ b.appeals ∧
        req.user.isInterviewer = true ∧ appeal.status = .pending ∧
        req.user.id ≠ appeal.candidateId ∧
        ∃ r ∈ b.reviews, r.id = appeal.reviewId ∧ req.user.id ≠ r.reviewerId

/-- A decision, with the appeal that it has closed. -/
def DecisionOk (b : Board) (d : DecisionRow) : Prop :=
  d.disposition ≠ .pending ∧
    ∃ a ∈ b.appeals, a.id = d.appealId ∧ a.status = d.disposition ∧
      d.reviewerId ≠ a.candidateId ∧
      ∃ r ∈ b.reviews, r.id = a.reviewId ∧ d.reviewerId ≠ r.reviewerId

structure TablesInv (b : Board) : Prop where
  chain : ∀ s, RevisionChain none 0 (b.reviewsOf s)
  appealIds : (b.appeals.map AppealRow.id).Nodup
  appealFresh : ∀ a ∈ b.appeals, a.id < b.nextId
  appealOwners : ∀ a ∈ b.appeals, Owns b a.sessionId a.candidateId
  appealReviews : (b.appeals.map AppealRow.reviewId).Nodup
  decisionAppeals : (b.decisions.map DecisionRow.appealId).Nodup
  decisions : ∀ d ∈ b.decisions, DecisionOk b d

structure BoardInv (b : Board) : Prop where
  phases : ∀ c, (b.phase c).Ok b c
  tables : TablesInv b

theorem freshBoard_inv (service : Service) (sessions : SessionId → Option SessionRow)
    (jobs : SessionId → Option SubmittedJob)
    (evaluations : SessionId → Option Evaluation) :
    BoardInv (freshBoard service sessions jobs evaluations) where
  phases _ := trivial
  tables :=
    { chain := fun _ => trivial
      appealIds := List.nodup_nil
      appealFresh := by simp [freshBoard]
      appealOwners := by simp [freshBoard]
      appealReviews := List.nodup_nil
      decisionAppeals := List.nodup_nil
      decisions := by simp [freshBoard] }

/-! ## What a client does to the others -/

/-- The rows that the client has locked, its locks and its phase are as before. -/
structure Board.Spares (d : ℕ) (b b' : Board) : Prop where
  phase : b'.phase d = b.phase d
  sessions : b'.sessions = b.sessions
  reviews : ∀ r ∈ b.reviews, r ∈ b'.reviews
  session : ∀ s, b.sessionLock s = some d → b'.sessionLock s = some d ∧
    b'.jobs s = b.jobs s ∧ b'.evaluations s = b.evaluations s ∧
    b'.reviewsOf s = b.reviewsOf s
  evaluation : ∀ s, b.evaluationLock s = some d → b'.evaluationLock s = some d
  appeal : ∀ i, b.appealLock i = some d → b'.appealLock i = some d ∧
    ∀ a ∈ b.appeals, a.id = i → a ∈ b'.appeals

theorem BoardPhase.Ok.spared {b b' : Board} {d : ℕ} {p : BoardPhase} (h : p.Ok b d)
    (hs : Board.Spares d b b') : p.Ok b' d := by
  have hindependent : ∀ req, Independent b req → Independent b' req := by
    intro req hreq
    rwa [Independent, hs.sessions]
  have howns : ∀ {s u}, Owns b s u → Owns b' s u := by
    intro s u h
    rwa [Owns, hs.sessions]
  have hscored : ∀ {req context outcome}, b.sessionLock req.session = some d →
      ScoredOk b req context outcome → ScoredOk b' req context outcome := by
    intro req context outcome hlock hok
    obtain ⟨-, hjobs, hevaluations, -⟩ := hs.session _ hlock
    exact ⟨hjobs.trans hok.job, hevaluations.trans hok.evaluation, hok.verified,
      hok.scored⟩
  rcases p with _ | ⟨req, session⟩ | ⟨req, session, job⟩ | ⟨req, context, outcome⟩ |
    ⟨req, context, outcome, previous⟩ | ⟨s, index, text⟩ | ⟨s, evaluation⟩ | req | req |
    req | req | req | ⟨req, appeal⟩ | ⟨req, appeal⟩
  case idle => trivial
  case reviewing =>
    obtain ⟨hlock, hreq⟩ := h
    exact ⟨(hs.session _ hlock).1, hindependent req hreq⟩
  case reviewingJob =>
    obtain ⟨hlock, hreq, rfl⟩ := h
    obtain ⟨hlock', hjobs, -⟩ := hs.session _ hlock
    exact ⟨hlock', hindependent req hreq, hjobs.symm⟩
  case scored =>
    obtain ⟨hlock, hreq, heval, hok⟩ := h
    exact ⟨(hs.session _ hlock).1, hindependent req hreq, hs.evaluation _ heval,
      hscored hlock hok⟩
  case numbered =>
    obtain ⟨hlock, hreq, heval, hok, rfl⟩ := h
    obtain ⟨hlock', -, -, hreviews⟩ := hs.session _ hlock
    exact ⟨hlock', hindependent req hreq, hs.evaluation _ heval, hscored hlock hok,
      by rw [hreviews]⟩
  case answering => exact (hs.session _ h).1
  case revised => exact ⟨(hs.session _ h.1).1, hs.evaluation _ h.2⟩
  case appealing => exact ⟨(hs.session _ h.1).1, howns h.2⟩
  case appealFound => exact ⟨(hs.session _ h.1).1, howns h.2⟩
  case deciding =>
    obtain ⟨hlock, hmem, hrole⟩ := h
    obtain ⟨hlock', hkeep⟩ := hs.appeal _ hlock
    exact ⟨hlock', hkeep _ hmem rfl, hrole⟩
  case decided =>
    obtain ⟨hlock, hmem, hrole, hpending, hcandidate, r, hr, hid, hreviewer⟩ := h
    obtain ⟨hlock', hkeep⟩ := hs.appeal _ hlock
    exact ⟨hlock', hkeep _ hmem rfl, hrole, hpending, hcandidate, r, hs.reviews r hr, hid,
      hreviewer⟩
  all_goals
    obtain ⟨hlock, howner, hlatest⟩ := h
    obtain ⟨hlock', -, -, hreviews⟩ := hs.session _ hlock
    refine ⟨hlock', howns howner, ?_⟩
    rwa [hreviews]

section

variable {b : Board} {c d : ℕ} {s : SessionId} {p : BoardPhase}

theorem Board.Spares.trans {b' b'' : Board} (h : Spares d b b') (h' : Spares d b' b'') :
    Spares d b b'' where
  phase := h'.phase.trans h.phase
  sessions := h'.sessions.trans h.sessions
  reviews r hr := h'.reviews r (h.reviews r hr)
  session s hs := by
    obtain ⟨hlock, hjobs, hevaluations, hreviews⟩ := h.session s hs
    obtain ⟨hlock', hjobs', hevaluations', hreviews'⟩ := h'.session s hlock
    exact ⟨hlock', hjobs'.trans hjobs, hevaluations'.trans hevaluations,
      hreviews'.trans hreviews⟩
  evaluation s hs := h'.evaluation s (h.evaluation s hs)
  appeal i hi := by
    obtain ⟨hlock, hkeep⟩ := h.appeal i hi
    obtain ⟨hlock', hkeep'⟩ := h'.appeal i hlock
    exact ⟨hlock', fun a ha hid => hkeep' a (hkeep a ha hid) hid⟩

theorem spares_goto (hd : d ≠ c) : Board.Spares d b (b.goto c p) where
  phase := Function.update_of_ne hd _ _
  sessions := rfl
  reviews _ hr := hr
  session _ hs := ⟨hs, rfl, rfl, rfl⟩
  evaluation _ hs := hs
  appeal _ hi := ⟨hi, fun _ ha _ => ha⟩

theorem unlock_of_ne {locks : ℕ → Option ℕ} {i : ℕ} (hd : d ≠ c)
    (h : locks i = some d) : Board.unlock c locks i = some d := by
  rw [Board.unlock, h, if_neg (by simpa using hd)]

theorem spares_close (hd : d ≠ c) : Board.Spares d b (b.close c) where
  phase := Function.update_of_ne hd _ _
  sessions := rfl
  reviews _ hr := hr
  session _ hs := ⟨unlock_of_ne hd hs, rfl, rfl, rfl⟩
  evaluation _ hs := unlock_of_ne hd hs
  appeal _ hi := ⟨unlock_of_ne hd hi, fun _ ha _ => ha⟩

/-- A free lock is none of another client. -/
theorem update_lock {locks : ℕ → Option ℕ} {i j : ℕ} (hfree : locks i = none)
    (h : locks j = some d) : Function.update locks i (some c) j = some d := by
  have hne : j ≠ i := by
    rintro rfl
    rw [hfree] at h
    exact nomatch h
  rwa [Function.update_of_ne hne]

theorem spares_lockSession (hd : d ≠ c) : Board.Spares d b (b.lockSession c s p) := by
  rw [Board.lockSession]
  split_ifs with hfree
  · exact ⟨Function.update_of_ne hd _ _, rfl, fun _ hr => hr,
      fun _ hs => ⟨update_lock hfree hs, rfl, rfl, rfl⟩, fun _ hs => hs,
      fun _ hi => ⟨hi, fun _ ha _ => ha⟩⟩
  · exact ⟨rfl, rfl, fun _ hr => hr, fun _ hs => ⟨hs, rfl, rfl, rfl⟩, fun _ hs => hs,
      fun _ hi => ⟨hi, fun _ ha _ => ha⟩⟩

theorem spares_lockEvaluation (hd : d ≠ c) (hfree : b.evaluationLock s = none) :
    Board.Spares d b (b.lockEvaluation c s p) where
  phase := Function.update_of_ne hd _ _
  sessions := rfl
  reviews _ hr := hr
  session _ hs := ⟨hs, rfl, rfl, rfl⟩
  evaluation _ hs := update_lock hfree hs
  appeal _ hi := ⟨hi, fun _ ha _ => ha⟩

/-- The session that one client has locked is none that another one has. -/
theorem ne_of_locked {t : SessionId} (hd : d ≠ c) (hc : b.sessionLock s = some c)
    (ht : b.sessionLock t = some d) : t ≠ s := by
  rintro rfl
  exact hd (Option.some.inj (ht.symm.trans hc))

theorem spares_storeEvaluation {evaluation : Evaluation} (hd : d ≠ c)
    (hlock : b.sessionLock s = some c) :
    Board.Spares d b (b.storeEvaluation s evaluation) where
  phase := rfl
  sessions := rfl
  reviews _ hr := hr
  session _ ht :=
    ⟨ht, rfl, Function.update_of_ne (ne_of_locked hd hlock ht) _ _, rfl⟩
  evaluation _ ht := ht
  appeal _ hi := ⟨hi, fun _ ha _ => ha⟩

theorem reviewsOf_insertReview {row : ReviewRow} {evaluation : Evaluation}
    (t : SessionId) : (b.insertReview row evaluation).reviewsOf t =
      b.reviewsOf t ++ (if row.sessionId = t then [row] else []) := by
  rw [Board.reviewsOf, Board.insertReview, List.filter_append, Board.reviewsOf,
    List.filter_singleton]
  by_cases h : row.sessionId = t <;> simp [h]

theorem spares_insertReview {row : ReviewRow} {evaluation : Evaluation} (hd : d ≠ c)
    (hlock : b.sessionLock row.sessionId = some c) :
    Board.Spares d b (b.insertReview row evaluation) where
  phase := rfl
  sessions := rfl
  reviews _ hr := List.mem_append_left _ hr
  session t ht := by
    have hne := ne_of_locked hd hlock ht
    refine ⟨ht, rfl, Function.update_of_ne hne _ _, ?_⟩
    rw [reviewsOf_insertReview, if_neg (Ne.symm hne), List.append_nil]
  evaluation _ ht := ht
  appeal _ hi := ⟨hi, fun _ ha _ => ha⟩

theorem spares_insertAppeal {row : AppealRow} :
    Board.Spares d b (b.insertAppeal row) where
  phase := rfl
  sessions := rfl
  reviews _ hr := hr
  session _ ht := ⟨ht, rfl, rfl, rfl⟩
  evaluation _ ht := ht
  appeal _ hi := ⟨hi, fun _ ha _ => List.mem_append_left _ ha⟩

/-- A decision changes no appeal but its own. -/
theorem mem_insertDecision {row : DecisionRow} {a : AppealRow} (ha : a ∈ b.appeals)
    (hid : a.id ≠ row.appealId) : a ∈ (b.insertDecision row).appeals := by
  apply List.mem_map.mpr
  exact ⟨a, ha, if_neg hid⟩

theorem spares_insertDecision {row : DecisionRow} (hd : d ≠ c)
    (hlock : b.appealLock row.appealId = some c) :
    Board.Spares d b (b.insertDecision row) where
  phase := rfl
  sessions := rfl
  reviews _ hr := hr
  session _ ht := ⟨ht, rfl, rfl, rfl⟩
  evaluation _ ht := ht
  appeal i hi := by
    refine ⟨hi, ?_⟩
    rintro a ha rfl
    apply mem_insertDecision ha
    intro hid
    rw [hid] at hi
    exact hd (Option.some.inj (hi.symm.trans hlock))

/-! ## Every step keeps the invariant -/

theorem TablesInv.of_eq {b' : Board} (h : TablesInv b) (hs : b'.sessions = b.sessions)
    (hr : b'.reviews = b.reviews) (ha : b'.appeals = b.appeals)
    (hd : b'.decisions = b.decisions) (hn : b'.nextId = b.nextId) : TablesInv b' where
  chain s := by
    rw [Board.reviewsOf, hr]
    exact h.chain s
  appealIds := by
    rw [ha]
    exact h.appealIds
  appealFresh := by
    rw [ha, hn]
    exact h.appealFresh
  appealOwners a hmem := by
    rw [ha] at hmem
    rw [Owns, hs]
    exact h.appealOwners a hmem
  appealReviews := by
    rw [ha]
    exact h.appealReviews
  decisionAppeals := by
    rw [hd]
    exact h.decisionAppeals
  decisions e he := by
    rw [hd] at he
    rw [DecisionOk, ha, hr]
    exact h.decisions e he

theorem BoardInv.acted {b' : Board} (hi : BoardInv b)
    (hspares : ∀ d, d ≠ c → Board.Spares d b b') (hphase : b'.phase c = p)
    (hp : p.Ok b' c) (htables : TablesInv b') : BoardInv b' := by
  refine ⟨?_, htables⟩
  intro d
  by_cases hd : d = c
  · rwa [hd, hphase]
  · have hs := hspares d hd
    rw [hs.phase]
    exact (hi.phases d).spared hs

theorem goto_phase : (b.goto c p).phase c = p := by simp [Board.goto]

theorem close_phase : (b.close c).phase c = .idle := by simp [Board.close]

theorem BoardInv.goto (hi : BoardInv b) (hp : p.Ok (b.goto c p) c) :
    BoardInv (b.goto c p) :=
  hi.acted (fun _ hd => spares_goto hd) goto_phase hp (hi.tables.of_eq rfl rfl rfl rfl rfl)

theorem BoardInv.close (hi : BoardInv b) : BoardInv (b.close c) :=
  hi.acted (fun _ hd => spares_close hd) close_phase trivial
    (hi.tables.of_eq rfl rfl rfl rfl rfl)

/-- A commit: the tables change, and the client ends. -/
theorem BoardInv.commit {b' : Board} (hi : BoardInv b)
    (hspares : ∀ d, d ≠ c → Board.Spares d b b') (htables : TablesInv b') :
    BoardInv (b'.close c) :=
  hi.acted (fun d hd => (hspares d hd).trans (spares_close hd)) close_phase trivial
    (htables.of_eq rfl rfl rfl rfl rfl)

theorem BoardInv.lockSession (hi : BoardInv b)
    (hp : b.sessionLock s = none → p.Ok (b.lockSession c s p) c) :
    BoardInv (b.lockSession c s p) := by
  by_cases hfree : b.sessionLock s = none
  · have hspares : ∀ d, d ≠ c → Board.Spares d b (b.lockSession c s p) :=
      fun d hd => spares_lockSession hd
    have hown := hp hfree
    rw [Board.lockSession, if_pos hfree] at hspares hown ⊢
    exact hi.acted hspares (Function.update_self c p b.phase) hown
      (hi.tables.of_eq rfl rfl rfl rfl rfl)
  · rwa [Board.lockSession, if_neg hfree]

/-! ### The inserted rows -/

theorem TablesInv.insertReview (h : TablesInv b) {req : ReviewRequest}
    {context : ReviewContext} {outcome : ReviewOutcome} {id : RowId}
    {evaluation : Evaluation} :
    TablesInv (b.insertReview
      (req.row context outcome (latestReview (b.reviewsOf req.session)) id) evaluation) := by
  refine ⟨?_, h.appealIds, fun a ha => Nat.lt_succ_of_lt (h.appealFresh a ha),
    h.appealOwners, h.appealReviews, h.decisionAppeals, ?_⟩
  · intro t
    rw [reviewsOf_insertReview]
    split_ifs with ht
    · subst ht
      obtain ⟨hlatest, hrevision⟩ := (h.chain req.session).latest
      apply (h.chain _).append
      · simp only [ReviewRequest.row]
        rw [hlatest]
        rcases hlast : (b.reviewsOf req.session).getLast? with _ | q
        · rw [List.getLast?_eq_none_iff] at hlast
          simp [hlast]
        · have hq := hrevision q hlast
          simp only [Option.elim_some]
          omega
      · simp only [ReviewRequest.row]
        rw [hlatest, Option.or_none]
    · rw [List.append_nil]
      exact h.chain t
  · intro d hd
    obtain ⟨hdisposition, a, ha, hid, hstatus, hcandidate, r, hr, hrid, hreviewer⟩ :=
      h.decisions d hd
    exact ⟨hdisposition, a, ha, hid, hstatus, hcandidate, r, List.mem_append_left _ hr,
      hrid, hreviewer⟩

theorem TablesInv.insertAppeal (h : TablesInv b) {row : AppealRow}
    (hid : row.id = b.nextId) (howner : Owns b row.sessionId row.candidateId)
    (hreview : ∀ a ∈ b.appeals, a.reviewId ≠ row.reviewId) :
    TablesInv (b.insertAppeal row) := by
  have hids : row.id ∉ b.appeals.map AppealRow.id := by
    intro hmem
    obtain ⟨a, ha, heq⟩ := List.mem_map.mp hmem
    exact absurd (heq.trans hid) (h.appealFresh a ha).ne
  have hreviews : row.reviewId ∉ b.appeals.map AppealRow.reviewId := by
    intro hmem
    obtain ⟨a, ha, heq⟩ := List.mem_map.mp hmem
    exact hreview a ha heq
  refine ⟨h.chain, ?_, ?_, ?_, ?_, h.decisionAppeals, ?_⟩
  · rw [Board.insertAppeal, List.map_append]
    exact List.Nodup.append h.appealIds (List.nodup_singleton _) (by simpa using hids)
  · intro a ha
    rcases List.mem_append.mp ha with ha | ha
    · exact Nat.lt_succ_of_lt (h.appealFresh a ha)
    · rw [List.mem_singleton.mp ha, hid]
      exact Nat.lt_succ_self _
  · intro a ha
    rcases List.mem_append.mp ha with ha | ha
    · exact h.appealOwners a ha
    · rw [List.mem_singleton.mp ha]
      exact howner
  · rw [Board.insertAppeal, List.map_append]
    exact List.Nodup.append h.appealReviews (List.nodup_singleton _)
      (by simpa using hreviews)
  · intro d hd
    obtain ⟨hdisposition, a, ha, hrest⟩ := h.decisions d hd
    exact ⟨hdisposition, a, List.mem_append_left _ ha, hrest⟩

theorem TablesInv.insertDecision (h : TablesInv b) {row : DecisionRow} {appeal : AppealRow}
    (hdisposition : row.disposition ≠ .pending) (happeal : appeal ∈ b.appeals)
    (hid : appeal.id = row.appealId) (hcandidate : row.reviewerId ≠ appeal.candidateId)
    (hreviewer : ∃ r ∈ b.reviews, r.id = appeal.reviewId ∧ row.reviewerId ≠ r.reviewerId)
    (hfresh : ∀ d ∈ b.decisions, d.appealId ≠ row.appealId) :
    TablesInv (b.insertDecision row) := by
  have hmap : ∀ f : AppealRow → ℕ,
      (∀ a : AppealRow, f { a with status := row.disposition } = f a) →
        (b.insertDecision row).appeals.map f = b.appeals.map f := by
    intro f hf
    rw [Board.insertDecision, List.map_map]
    apply List.map_congr_left
    intro a _
    simp only [Function.comp_apply]
    split_ifs
    · exact hf a
    · rfl
  refine ⟨h.chain, ?_, ?_, ?_, ?_, ?_, ?_⟩
  · rw [hmap _ fun _ => rfl]
    exact h.appealIds
  · intro a ha
    obtain ⟨a', ha', rfl⟩ := List.mem_map.mp ha
    have hlt := Nat.lt_succ_of_lt (h.appealFresh a' ha')
    split_ifs <;> exact hlt
  · intro a ha
    obtain ⟨a', ha', rfl⟩ := List.mem_map.mp ha
    have howner := h.appealOwners a' ha'
    split_ifs <;> exact howner
  · rw [hmap _ fun _ => rfl]
    exact h.appealReviews
  · have hnew : row.appealId ∉ b.decisions.map DecisionRow.appealId := by
      intro hmem
      obtain ⟨d, hd, heq⟩ := List.mem_map.mp hmem
      exact hfresh d hd heq
    rw [Board.insertDecision, List.map_append]
    exact List.Nodup.append h.decisionAppeals (List.nodup_singleton _)
      (by simpa using hnew)
  · intro d hd
    rcases List.mem_append.mp hd with hd | hd
    · obtain ⟨hd', a, ha, haid, hrest⟩ := h.decisions d hd
      have hne : a.id ≠ row.appealId := by
        rw [haid]
        exact hfresh d hd
      exact ⟨hd', a, mem_insertDecision ha hne, haid, hrest⟩
    · obtain rfl := List.mem_singleton.mp hd
      refine ⟨hdisposition, { appeal with status := d.disposition }, ?_, hid, rfl,
        hcandidate, hreviewer⟩
      apply List.mem_map.mpr
      exact ⟨appeal, happeal, if_pos hid⟩

/-! ### The statements -/

theorem BoardInv.lockEvaluation (hi : BoardInv b) (hfree : b.evaluationLock s = none)
    (hp : p.Ok (b.lockEvaluation c s p) c) : BoardInv (b.lockEvaluation c s p) :=
  hi.acted (fun _ hd => spares_lockEvaluation hd hfree) (by simp [Board.lockEvaluation])
    hp (hi.tables.of_eq rfl rfl rfl rfl rfl)

theorem reviewContext_ok {service : Service} {session : SessionRow}
    {job : Option SubmittedJob} {evaluation : Option Evaluation} {context : ReviewContext}
    (h : reviewContext service session job evaluation = .ok context) :
    job = some context.job ∧ evaluation = some context.evaluation ∧
      ∃ result assessment, context.job.row.status = .completed ∧
        context.job.row.result = some result ∧
        verifyResult service.inventories service.key
          (context.job.ident.leased context.job.row.leaseToken) result =
            .ok context.payload ∧
        context.evaluation.assessment = some assessment ∧
        context.assessment =
          (installEvidence assessment.packet context.job result).assessed := by
  rcases job with _ | job
  · simp [reviewContext] at h
  rcases evaluation with _ | evaluation
  · simp [reviewContext] at h
  rw [reviewContext] at h
  split at h
  case h_1 result hstatus hresult =>
    obtain ⟨-, h⟩ := ite_error_eq_ok.mp h
    obtain ⟨-, h⟩ := ite_error_eq_ok.mp h
    split at h
    · simp at h
    · simp at h
    · rename_i payload hverify
      rcases hassessment : evaluation.assessment with _ | assessment
      · simp [hassessment] at h
      · simp only [hassessment] at h
        obtain ⟨-, h⟩ := ite_error_eq_ok.mp h
        obtain rfl := Except.ok.inj h
        exact ⟨rfl, rfl, result, assessment, hstatus, hresult, hverify, hassessment, rfl⟩
  case h_2 => simp at h

theorem boardNext_inv (hi : BoardInv b) : BoardInv (boardNext b c) := by
  have hc := hi.phases c
  rw [boardNext]
  rcases hphase : b.phase c with _ | ⟨req, session⟩ | ⟨req, session, job⟩ |
    ⟨req, context, outcome⟩ | ⟨req, context, outcome, previous⟩ | ⟨s, index, text⟩ |
    ⟨s, evaluation⟩ | req | req | req | req | req | ⟨req, appeal⟩ | ⟨req, appeal⟩ <;>
    rw [hphase] at hc <;> dsimp only
  case idle => exact hi
  case reviewing => exact hi.goto ⟨hc.1, hc.2, rfl⟩
  case reviewingJob =>
    obtain ⟨hlock, hindependent, rfl⟩ := hc
    split_ifs with hbusy
    · exact hi
    · rcases hcontext : reviewContext b.service session (b.jobs req.session)
        (b.evaluations req.session) with _ | context
      · exact hi.close
      · dsimp only
        rcases houtcome : reviewOutcome
          (payloadTexts context.payload "manual_requirements")
          (payloadScore context.payload) context.assessment req.review
          req.manualChecks with _ | outcome
        · exact hi.close
        · obtain ⟨hjob, hevaluation, -⟩ := reviewContext_ok hcontext
          apply hi.lockEvaluation (not_ne_iff.mp hbusy)
          refine ⟨hlock, hindependent, by simp [Board.lockEvaluation], hjob, hevaluation,
            ⟨b.service, session, ?_⟩, houtcome⟩
          rw [hjob, hevaluation] at hcontext
          exact hcontext
  case scored =>
    obtain ⟨hlock, hindependent, hevaluation, hok⟩ := hc
    exact hi.goto ⟨hlock, hindependent, hevaluation,
      ⟨hok.job, hok.evaluation, hok.verified, hok.scored⟩, rfl⟩
  case numbered =>
    obtain ⟨hlock, -, -, -, rfl⟩ := hc
    split_ifs
    · exact hi.close
    · exact hi.commit (fun _ hd => spares_insertReview hd hlock) hi.tables.insertReview
  case answering =>
    split_ifs with hbusy
    · exact hi
    · split
      · exact hi.close
      · split_ifs
        · exact hi.close
        · exact hi.lockEvaluation (not_ne_iff.mp hbusy)
            ⟨hc, by simp [Board.lockEvaluation]⟩
  case revised =>
    exact hi.commit (fun _ hd => spares_storeEvaluation hd hc.1)
      (hi.tables.of_eq rfl rfl rfl rfl rfl)
  case appealing =>
    split
    · exact hi.close
    · split_ifs
      · exact hi.close
      · exact hi.goto hc
  case appealFound =>
    split
    · exact hi.close
    · rename_i latest hlatest
      split_ifs with hid
      · exact hi.close
      · exact hi.goto ⟨hc.1, hc.2, latest, hlatest, not_ne_iff.mp hid⟩
  case appealLatest =>
    split_ifs
    · exact hi.close
    · exact hi.goto hc
  case appealFresh =>
    split
    · split_ifs
      · exact hi.close
      · exact hi.goto hc
    · exact hi.close
  case appealPublished =>
    split_ifs with hexists
    · exact hi.close
    · apply hi.commit (fun _ _ => spares_insertAppeal)
      apply hi.tables.insertAppeal rfl hc.2.1
      intro a ha heq
      exact hexists (List.any_eq_true.mpr ⟨a, ha, by simpa using heq⟩)
  case deciding =>
    obtain ⟨hlock, hmem, hrole⟩ := hc
    split
    · exact hi.close
    · rename_i r hfind
      split_ifs with hrefused
      · exact hi.close
      · have hr := List.mem_of_find?_eq_some hfind
        have hid : r.id = appeal.reviewId := by simpa using List.find?_some hfind
        simp only [not_or, not_ne_iff] at hrefused
        obtain ⟨hcandidate, hreviewer, hpending⟩ := hrefused
        exact hi.goto ⟨hlock, hmem, hrole, hpending, hcandidate, r, hr, hid, hreviewer⟩
  case decided =>
    obtain ⟨hlock, hmem, -, -, hcandidate, hreviewer⟩ := hc
    split_ifs with hexists
    · exact hi.close
    · apply hi.commit (fun _ hd => spares_insertDecision hd hlock)
      apply hi.tables.insertDecision _ hmem rfl hcandidate hreviewer
      · intro d hd heq
        exact hexists (List.any_eq_true.mpr ⟨d, hd, by simpa using heq⟩)
      · rw [DecisionRequest.disposition]
        split_ifs <;> simp

/-- Another transaction, or a deployment, acts while nobody holds the rows. -/
theorem BoardInv.environment {b' : Board} (hi : BoardInv b)
    (hspares : ∀ d, Board.Spares d b b') (hr : b'.reviews = b.reviews)
    (ha : b'.appeals = b.appeals) (hd : b'.decisions = b.decisions)
    (hn : b'.nextId = b.nextId) : BoardInv b' := by
  refine ⟨?_, hi.tables.of_eq (hspares 0).sessions hr ha hd hn⟩
  intro d
  rw [(hspares d).phase]
  exact (hi.phases d).spared (hspares d)

theorem openContext_ok {session : Option SessionRow} {user : User} {row : SessionRow}
    (h : openContext session (some user) = .ok row) :
    session = some row ∧ row.owner ≠ some user.id ∧ user.isInterviewer = true := by
  unfold openContext at h
  obtain ⟨hrole, h⟩ := ite_error_eq_ok.mp h
  rcases session with _ | session
  · simp at h
  · obtain ⟨howner, h⟩ := ite_error_eq_ok.mp h
    obtain rfl := Except.ok.inj h
    exact ⟨rfl, by simpa using howner, by simpa using hrole⟩

theorem boardAct_inv (hi : BoardInv b) (a : BoardAction) : BoardInv (boardAct b a) := by
  rcases a with ⟨c, req⟩ | ⟨c, user, s, index, text⟩ | ⟨c, req⟩ | ⟨c, req⟩ | c | c |
    ⟨s, job, evaluation⟩ | service
  case review =>
    rw [boardAct]
    split
    · split
      · rename_i session hopen
        apply hi.lockSession
        intro hfree
        obtain ⟨hsession, howner, -⟩ := openContext_ok hopen
        rw [Board.lockSession, if_pos hfree]
        exact ⟨by simp, session, hsession, howner⟩
      · exact hi
    · exact hi
  case answer =>
    rw [boardAct]
    split
    · split
      · split_ifs
        · apply hi.lockSession
          intro hfree
          rw [Board.lockSession, if_pos hfree]
          simp [BoardPhase.Ok]
        · exact hi
      · exact hi
    · exact hi
  case appeal =>
    rw [boardAct]
    split
    · split
      · rename_i session hsession
        split_ifs with howner
        · apply hi.lockSession
          intro hfree
          rw [Board.lockSession, if_pos hfree]
          exact ⟨Function.update_self .., session, hsession, howner⟩
        · exact hi
      · exact hi
    · exact hi
  case decide =>
    rw [boardAct]
    split
    · split
      · rename_i appeal hfind
        split_ifs with hok
        · obtain ⟨hrole, hfree⟩ := hok
          have hmem := List.mem_of_find?_eq_some hfind
          refine hi.acted (c := c) (p := .deciding req appeal) ?_
            (Function.update_self ..) ⟨Function.update_self .., hmem, hrole⟩
            (hi.tables.of_eq rfl rfl rfl rfl rfl)
          intro d hd
          exact ⟨Function.update_of_ne hd _ _, rfl, fun _ hr => hr,
            fun _ hs => ⟨hs, rfl, rfl, rfl⟩, fun _ hs => hs,
            fun _ hi => ⟨update_lock hfree hi, fun _ ha _ => ha⟩⟩
        · exact hi
      · exact hi
    · exact hi
  case next => exact boardNext_inv hi
  case abort => exact hi.close
  case other =>
    rw [boardAct]
    split_ifs with hfree
    · refine hi.environment ?_ rfl rfl rfl rfl
      intro d
      refine ⟨rfl, rfl, fun _ hr => hr, ?_, fun _ hs => hs,
        fun _ hi => ⟨hi, fun _ ha _ => ha⟩⟩
      intro t ht
      have hne : t ≠ s := by
        rintro rfl
        exact nomatch hfree.1.symm.trans ht
      exact ⟨ht, Function.update_of_ne hne _ _, Function.update_of_ne hne _ _, rfl⟩
    · exact hi
  case deploy =>
    refine hi.environment ?_ rfl rfl rfl rfl
    exact fun d => ⟨rfl, rfl, fun _ hr => hr, fun _ hs => ⟨hs, rfl, rfl, rfl⟩,
      fun _ hs => hs, fun _ hi => ⟨hi, fun _ ha _ => ha⟩⟩

end

end PromptCode
