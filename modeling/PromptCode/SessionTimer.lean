import PromptCode.Lifecycle
import PromptCode.Transition

/-!
# Timer accounting

The operations on the timer of one session, one after another, each reading the clock as
often as the code does and committing its row or not.
-/

namespace PromptCode

open Py Transition

/-- `SessionTimerRequest.editor_token` -/
structure EditorToken where
  text : Str
  size : 16 ≤ text.length ∧ text.length ≤ 64

/-- A later reading of the clock. -/
def clockAfter (now d : ℕ) : ℕ := min (now + d) datetimeMax

/-- The times between the readings of one request. -/
structure ClockGaps where
  load : ℕ
  expiry : ℕ
  check : ℕ
  stop : ℕ
  finish : ℕ

namespace ClockGaps

variable (g : ClockGaps) (now : ℕ)

/-- The clock of `_load_owned_session`. -/
def loadAt : ℕ := clockAfter now g.load

/-- The clock of the request's own expiry. -/
def expiryAt : ℕ := clockAfter (g.loadAt now) g.expiry

/-- The clock of the snapshot that tells who holds the lease. -/
def checkAt : ℕ := clockAfter (g.expiryAt now) g.check

/-- The clock of `stop_timer`. -/
def stopAt : ℕ := clockAfter (g.checkAt now) g.stop

/-- The clock of `submitted_at`. -/
def finishAt : ℕ := clockAfter (g.stopAt now) g.finish

end ClockGaps

inductive TimerAction where
  | wait (d : ℕ)
  /-- A request that loads the session and commits. -/
  | read (d : ℕ)
  | expireDue (d d' : ℕ)
  | timer (verb : TimerVerb) (token : EditorToken) (gaps : ClockGaps) (commits : Bool)
  /-- A request that changes the session's files, events or answers. -/
  | edit (token : Option Str) (gaps : ClockGaps) (commits : Bool)
  | submit (token : Option Str) (gaps : ClockGaps) (commits : Bool)
  | abandon (token : Option Str) (gaps : ClockGaps) (commits : Bool)

namespace TimerAction

/-- The clock when the action is over. -/
def endAt (now : ℕ) : TimerAction → ℕ
  | wait d | read d => clockAfter now d
  | expireDue d d' => clockAfter (clockAfter now d) d'
  | timer _ _ gaps _ | edit _ gaps _ => gaps.checkAt now
  | submit _ gaps _ => gaps.finishAt now
  | abandon _ gaps _ => gaps.stopAt now

/-- The clock of the check of the editor. -/
def checkedAt (now : ℕ) : TimerAction → ℕ
  | timer _ _ gaps _ | edit _ gaps _ | submit _ gaps _ | abandon _ gaps _ => gaps.checkAt now
  | a => a.endAt now

/-- The token of a request that needs the editor, if there is one in it. -/
def bearer : TimerAction → Option (Option Str)
  | timer _ token _ _ => some (some token.text)
  | edit token _ _ | submit token _ _ | abandon token _ _ => some token
  | _ => none

/-- The transaction of the action is not rolled back. -/
def commits : TimerAction → Bool
  | timer _ _ _ commits | edit _ _ commits | submit _ _ commits | abandon _ _ commits => commits
  | _ => true

end TimerAction

/-- The session's row, and when each token has last been granted the lease without giving it
up. -/
structure TimerState where
  now : ℕ
  session : TimedSession
  leases : Str → Option ℕ

/-- `session_timer` -/
def sessionTimer (s : TimedSession) (verb : TimerVerb) (token : Str) (loadAt expiryAt now : ℕ) :
    Except HttpException TimedSession :=
  let s := maybeExpireSession s loadAt
  if s.status.isMutable then updateTimer s verb token expiryAt now else .ok s

/-- What a request that edits checks first. -/
def editSession (s : TimedSession) (token : Option Str) (loadAt expiryAt now : ℕ) :
    Except HttpException TimedSession := do
  let s ← requireMutable (maybeExpireSession s loadAt) expiryAt
  requireEditor s token now
  .ok s

/-- What `submit_session` writes to the row. -/
def TimedSession.submit (s : TimedSession) (stopAt submittedAt : ℕ) : TimedSession :=
  let stopped := stopTimer s stopAt
  { stopped with
    status := .submitted
    submittedAt := some submittedAt
    activeDurationMs := some (max 0 (stopped.timerElapsedMs.getD 0 - stopped.infraBlockedMs)) }

def submitSession (s : TimedSession) (token : Option Str)
    (loadAt expiryAt now stopAt submittedAt : ℕ) : Except HttpException TimedSession :=
  let s := maybeExpireSession s loadAt
  -- the evaluation has been committed with the status
  if s.status = .submitted then .ok s
  else
    let s := maybeExpireSession s expiryAt
    if s.status = .expired then
      .error ⟨410, "Session expired before submit. Start a new attempt."⟩
    else if !s.status.isMutable then .error ⟨409, "Session cannot be submitted."⟩
    else do
      requireEditor s token now
      .ok (s.submit stopAt submittedAt)

def abandonSession (s : TimedSession) (token : Option Str) (loadAt now stopAt : ℕ) :
    Except HttpException TimedSession :=
  let s := maybeExpireSession s loadAt
  if s.status = .abandoned then .ok s
  else if !s.status.isMutable then .error ⟨400, "Session is not active."⟩
  else do
    requireEditor s token now
    .ok { stopTimer s stopAt with status := .abandoned }

/-- `expire_due_sessions`, which selects a session that is due and then expires it. -/
def expireDueSession (s : TimedSession) (selectedAt now : ℕ) : TimedSession :=
  if s.status.isMutable && s.expiresAt.any fun expires => expires ≤ selectedAt then
    maybeExpireSession s now
  else s

/-- The row that an action commits, unless it is refused. -/
def timerResult (st : TimerState) : TimerAction → Except HttpException TimedSession
  | .wait _ => .ok st.session
  | .read d => .ok (maybeExpireSession st.session (clockAfter st.now d))
  | .expireDue d d' =>
      .ok (expireDueSession st.session (clockAfter st.now d)
        (clockAfter (clockAfter st.now d) d'))
  | .timer verb token gaps _ =>
      sessionTimer st.session verb token.text (gaps.loadAt st.now) (gaps.expiryAt st.now)
        (gaps.checkAt st.now)
  | .edit token gaps _ =>
      editSession st.session token (gaps.loadAt st.now) (gaps.expiryAt st.now)
        (gaps.checkAt st.now)
  | .submit token gaps _ =>
      submitSession st.session token (gaps.loadAt st.now) (gaps.expiryAt st.now)
        (gaps.checkAt st.now) (gaps.stopAt st.now) (gaps.finishAt st.now)
  | .abandon token gaps _ =>
      abandonSession st.session token (gaps.loadAt st.now) (gaps.checkAt st.now)
        (gaps.stopAt st.now)

/-- The leases after an action that has committed `s`: a resume or a heartbeat is granted the
lease, and a pause gives it up. -/
def TimerState.leasesAfter (st : TimerState) (s : TimedSession) : TimerAction → Str → Option ℕ
  | .timer verb token gaps _ =>
      if s.status.isMutable then
        Function.update st.leases token.text
          (if verb = .pause then none else some (gaps.checkAt st.now))
      else st.leases
  | _ => st.leases

def timerAct (st : TimerState) (a : TimerAction) : TimerState :=
  match timerResult st a, a.commits with
  | .ok s, true => ⟨a.endAt st.now, s, st.leasesAfter s a⟩
  | _, _ => { st with now := a.endAt st.now }

/-- `start_session` -/
def startTimer (sessionTtlHours : ℤ) (now : ℕ) : Option TimerState :=
  (computeExpiresAt sessionTtlHours now).map fun expires =>
    ⟨now, ⟨.active, some 0, none, none, none, 0, now, none, some expires⟩, fun _ => none⟩

namespace TimerState

variable (st : TimerState)

/-- The elapsed time that a response reports. -/
def elapsed : ℤ := st.session.elapsedAt st.now

/-- The token has been granted the lease, has not given it up since, and its time is not over. -/
def HoldsLease (tok : Str) (t : ℕ) : Prop :=
  st.session.status.isMutable ∧ (∀ expires ∈ st.session.expiresAt, t < expires) ∧
    ∃ granted, st.leases tok = some granted ∧ t < granted + timerLeaseSeconds * 1000000

/-- A request is allowed. -/
def Allows (a : TimerAction) : Prop := ∃ s, timerResult st a = .ok s

end TimerState

/-! ## What an operation makes of the row -/

theorem le_clockAfter {now : ℕ} (d : ℕ) (h : now ≤ datetimeMax) : now ≤ clockAfter now d :=
  le_min (Nat.le_add_right _ _) h

theorem clockAfter_le (now d : ℕ) : clockAfter now d ≤ datetimeMax := min_le_right _ _

/-- The rows that an operation between two instants may leave. -/
inductive TimerMove (s : TimedSession) (now now' : ℕ) : TimedSession → Prop
  | kept : TimerMove s now now' s
  | stopped {s' : TimedSession} (t : ℕ) (hle : now ≤ t) (hend : t ≤ now')
      (helapsed : s'.timerElapsedMs = some (s.elapsedAt t)) (hlast : s'.timerLastSeenAt = none)
      (hstarted : s'.startedAt = s.startedAt) (hexpires : s'.expiresAt = s.expiresAt) :
      TimerMove s now now' s'
  | touched (token : Str) (hmutable : s.status.isMutable = true) :
      TimerMove s now now' (s.touch token now')

section Moves

variable {s s' : TimedSession} {now t now' elapsed expires : ℕ} {token : Option Str}

theorem TimerMove.expired (h : s.Sound now elapsed expires) (hle : now ≤ t) (hend : t ≤ now')
    (hmax : now' ≤ datetimeMax) : TimerMove s now now' (maybeExpireSession s t) := by
  rcases maybeExpireSession_cases s t with ⟨hsame, -⟩ | ⟨x, -, hexpires, hdue, heq⟩
  · rw [hsame]
    exact .kept
  · obtain rfl := Option.some.inj (hexpires.symm.trans h.expires_eq)
    have helapsed := h.elapsedAt_of_expired hdue (hend.trans hmax)
    rw [heq]
    exact .stopped t hle hend (congrArg some helapsed) rfl rfl rfl

/-- A row after a move is sound; no time is lost, and no more than a lease is added. -/
theorem TimerMove.sound (hm : TimerMove s now now' s') (h : s.Sound now elapsed expires)
    (hle : now ≤ now') (hmax : now' ≤ datetimeMax) :
    s'.startedAt = s.startedAt ∧ ∃ elapsed' : ℕ, s'.Sound now' elapsed' expires ∧
      s.elapsedAt now ≤ s'.elapsedAt now' ∧ s'.elapsedAt now' ≤ elapsed + timerLease := by
  cases hm with
  | kept =>
      exact ⟨rfl, elapsed, h.later hle hmax, h.elapsedAt_mono hle hmax, h.elapsedAt_le now'⟩
  | stopped t hlow hend helapsed hlast hstarted hexpires =>
      have hat := h.later hlow (hend.trans hmax)
      obtain ⟨e, he⟩ := Int.eq_ofNat_of_zero_le (h.elapsedAt_nonneg t)
      have hwall := hat.elapsedAt_wall
      rw [he] at helapsed hwall
      have hsound : s'.Sound now' e expires :=
        { elapsed_eq := helapsed
          expires_eq := hexpires.trans h.expires_eq
          expires_le := h.expires_le
          now_le := hmax
          started_le := by
            rw [hstarted]
            exact h.started_le.trans hle
          last_le := by
            rw [hlast]
            rintro l ⟨⟩
          wall := by
            rw [hlast, hstarted, Option.getD_none]
            omega
          stopped := fun _ => hlast }
      refine ⟨hstarted, e, hsound, ?_, ?_⟩
      · rw [hsound.elapsedAt_stopped hlast, ← he]
        exact h.elapsedAt_mono hlow (hend.trans hmax)
      · rw [hsound.elapsedAt_stopped hlast, ← he]
        exact h.elapsedAt_le t
  | touched token hmutable =>
      have hat := h.later hle hmax
      obtain ⟨e, he⟩ := Int.eq_ofNat_of_zero_le (h.elapsedAt_nonneg now')
      have hwall := hat.elapsedAt_wall
      rw [he] at hwall
      have hsound : (s.touch token now').Sound now' e expires :=
        { elapsed_eq := congrArg some he
          expires_eq := h.expires_eq
          expires_le := h.expires_le
          now_le := hmax
          started_le := hat.started_le
          last_le := by
            rintro l ⟨⟩
            exact le_rfl
          wall := by
            change s.startedAt + 1000 * e ≤ min now' expires
            omega
          stopped := fun hnot => absurd (hmutable.symm.trans hnot) (by decide) }
      have hnew : (s.touch token now').elapsedAt now' = e := by
        rw [hsound.elapsedAt_running rfl, min_countedMs_self hmax h.expires_le, add_zero]
      refine ⟨rfl, e, hsound, ?_, ?_⟩
      · rw [hnew, ← he]
        exact h.elapsedAt_mono hle hmax
      · rw [hnew, ← he]
        exact h.elapsedAt_le now'

theorem expireDueSession_cases (s : TimedSession) (selectedAt now : ℕ) :
    expireDueSession s selectedAt now = s ∨
      expireDueSession s selectedAt now = maybeExpireSession s now := by
  unfold expireDueSession
  split_ifs
  · exact Or.inr rfl
  · exact Or.inl rfl

theorem TimerMove.updated {token : Str} (verb : TimerVerb) (hmutable : s.status.isMutable = true)
    (hle : now ≤ now') : TimerMove s now now' (timerUpdated s verb token now') := by
  unfold timerUpdated
  split_ifs
  · exact .stopped now' hle le_rfl rfl rfl rfl rfl
  · exact .kept
  · exact .touched token hmutable

theorem sessionTimer_ok {verb : TimerVerb} {token : Str} {loadAt expiryAt : ℕ}
    (h : sessionTimer s verb token loadAt expiryAt now = .ok s') :
    (s' = maybeExpireSession s loadAt ∧ s'.status.isMutable = false) ∨
      (s.status.isMutable = true ∧ s' = timerUpdated s verb token now ∧
        EditorOk s (some token) now) := by
  unfold sessionTimer at h
  dsimp only at h
  split_ifs at h with hmutable
  · obtain ⟨hsame, -⟩ := maybeExpireSession_of_mutable hmutable
    rw [hsame] at h hmutable
    exact Or.inr ⟨hmutable, updateTimer_ok h⟩
  · obtain rfl := Except.ok.inj h
    exact Or.inl ⟨rfl, Bool.eq_false_iff.mpr hmutable⟩

theorem editSession_ok {loadAt expiryAt : ℕ}
    (h : editSession s token loadAt expiryAt now = .ok s') :
    s' = s ∧ s.status.isMutable = true ∧ EditorOk s token now := by
  unfold editSession at h
  cases hloaded : requireMutable (maybeExpireSession s loadAt) expiryAt with
  | error e =>
      rw [hloaded] at h
      cases h
  | ok t =>
      obtain ⟨rfl, hmutable, -⟩ := requireMutable_ok hloaded
      obtain ⟨hsame, -⟩ := maybeExpireSession_of_mutable hmutable
      rw [hloaded, hsame] at h
      rw [hsame] at hmutable
      obtain ⟨hrow, heditor⟩ := requireEditor_bind_ok h
      exact ⟨hrow, hmutable, heditor⟩

theorem submitSession_ok {loadAt expiryAt stopAt submittedAt : ℕ}
    (h : submitSession s token loadAt expiryAt now stopAt submittedAt = .ok s') :
    (s' = s ∧ s.status.isMutable = false) ∨
      (s.status.isMutable = true ∧ s' = s.submit stopAt submittedAt ∧ EditorOk s token now) := by
  unfold submitSession at h
  dsimp only at h
  split_ifs at h with hsubmitted hexpired hmutable
  · rcases maybeExpireSession_cases s loadAt with ⟨hsame, -⟩ | ⟨x, -, -, -, heq⟩
    · rw [hsame] at h hsubmitted
      exact Or.inl ⟨(Except.ok.inj h).symm, by rw [hsubmitted]; rfl⟩
    · rw [heq] at hsubmitted
      cases hsubmitted
  · have hopen : (maybeExpireSession (maybeExpireSession s loadAt) expiryAt).status.isMutable =
        true := by
      rwa [Bool.not_eq_true', Bool.not_eq_false] at hmutable
    obtain ⟨hsame, -⟩ := maybeExpireSession_of_mutable hopen
    rw [hsame] at h hopen
    obtain ⟨hsame, -⟩ := maybeExpireSession_of_mutable hopen
    rw [hsame] at h hopen
    obtain ⟨hrow, heditor⟩ := requireEditor_bind_ok h
    exact Or.inr ⟨hopen, hrow, heditor⟩

theorem abandonSession_ok {loadAt stopAt : ℕ}
    (h : abandonSession s token loadAt now stopAt = .ok s') :
    (s' = s ∧ s.status.isMutable = false) ∨
      (s.status.isMutable = true ∧ s' = { stopTimer s stopAt with status := .abandoned } ∧
        EditorOk s token now) := by
  unfold abandonSession at h
  dsimp only at h
  split_ifs at h with habandoned hmutable
  · rcases maybeExpireSession_cases s loadAt with ⟨hsame, -⟩ | ⟨x, -, -, -, heq⟩
    · rw [hsame] at h habandoned
      exact Or.inl ⟨(Except.ok.inj h).symm, by rw [habandoned]; rfl⟩
    · rw [heq] at habandoned
      cases habandoned
  · have hopen : (maybeExpireSession s loadAt).status.isMutable = true := by
      rwa [Bool.not_eq_true', Bool.not_eq_false] at hmutable
    obtain ⟨hsame, -⟩ := maybeExpireSession_of_mutable hopen
    rw [hsame] at h hopen
    obtain ⟨hrow, heditor⟩ := requireEditor_bind_ok h
    exact Or.inr ⟨hopen, hrow, heditor⟩

end Moves

/-! ## One operation -/

namespace ClockGaps

variable (g : ClockGaps) (now : ℕ)

theorem le_loadAt (h : now ≤ datetimeMax) : now ≤ g.loadAt now := le_clockAfter _ h

theorem loadAt_le_checkAt : g.loadAt now ≤ g.checkAt now :=
  (le_clockAfter g.expiry (clockAfter_le _ _)).trans (le_clockAfter g.check (clockAfter_le _ _))

theorem checkAt_le_stopAt : g.checkAt now ≤ g.stopAt now :=
  le_clockAfter g.stop (clockAfter_le _ _)

theorem stopAt_le_finishAt : g.stopAt now ≤ g.finishAt now :=
  le_clockAfter g.finish (clockAfter_le _ _)

theorem le_checkAt (h : now ≤ datetimeMax) : now ≤ g.checkAt now :=
  (g.le_loadAt now h).trans (g.loadAt_le_checkAt now)

theorem le_stopAt (h : now ≤ datetimeMax) : now ≤ g.stopAt now :=
  (g.le_checkAt now h).trans (g.checkAt_le_stopAt now)

end ClockGaps

namespace TimerAction

variable {now : ℕ}

theorem endAt_le (a : TimerAction) : a.endAt now ≤ datetimeMax := by
  cases a <;> exact clockAfter_le _ _

theorem le_endAt (a : TimerAction) (h : now ≤ datetimeMax) : now ≤ a.endAt now := by
  cases a with
  | wait d => exact le_clockAfter d h
  | read d => exact le_clockAfter d h
  | expireDue d d' => exact (le_clockAfter d h).trans (le_clockAfter d' (clockAfter_le _ _))
  | timer verb token gaps commits => exact gaps.le_checkAt now h
  | edit token gaps commits => exact gaps.le_checkAt now h
  | submit token gaps commits => exact (gaps.le_stopAt now h).trans (gaps.stopAt_le_finishAt now)
  | abandon token gaps commits => exact gaps.le_stopAt now h

theorem checkedAt_le (a : TimerAction) : a.checkedAt now ≤ datetimeMax := by
  cases a <;> exact clockAfter_le _ _

theorem le_checkedAt (a : TimerAction) (h : now ≤ datetimeMax) : now ≤ a.checkedAt now := by
  cases a with
  | wait d => exact le_clockAfter d h
  | read d => exact le_clockAfter d h
  | expireDue d d' => exact (le_clockAfter d h).trans (le_clockAfter d' (clockAfter_le _ _))
  | timer verb token gaps commits => exact gaps.le_checkAt now h
  | edit token gaps commits => exact gaps.le_checkAt now h
  | submit token gaps commits => exact gaps.le_checkAt now h
  | abandon token gaps commits => exact gaps.le_checkAt now h

end TimerAction

section Step

variable {st : TimerState} {a : TimerAction} {s' : TimedSession} {elapsed expires : ℕ}

/-- What an operation commits is a move of the row. -/
theorem timerResult_move (h : st.session.Sound st.now elapsed expires)
    (hok : timerResult st a = .ok s') : TimerMove st.session st.now (a.endAt st.now) s' := by
  have hnow := h.now_le
  cases a with
  | wait d =>
      obtain rfl := Except.ok.inj hok
      exact .kept
  | read d =>
      obtain rfl := Except.ok.inj hok
      exact .expired h (le_clockAfter d hnow) le_rfl (clockAfter_le _ _)
  | expireDue d d' =>
      obtain rfl := Except.ok.inj hok
      rcases expireDueSession_cases st.session (clockAfter st.now d)
        (clockAfter (clockAfter st.now d) d') with heq | heq
      · rw [heq]
        exact .kept
      · rw [heq]
        exact .expired h ((le_clockAfter d hnow).trans (le_clockAfter d' (clockAfter_le _ _)))
          le_rfl (clockAfter_le _ _)
  | timer verb token gaps commits =>
      rcases sessionTimer_ok hok with ⟨rfl, -⟩ | ⟨hmutable, rfl, -⟩
      · exact .expired h (gaps.le_loadAt _ hnow) (gaps.loadAt_le_checkAt _) (clockAfter_le _ _)
      · exact .updated verb hmutable (gaps.le_checkAt _ hnow)
  | edit token gaps commits =>
      obtain ⟨rfl, -, -⟩ := editSession_ok hok
      exact .kept
  | submit token gaps commits =>
      rcases submitSession_ok hok with ⟨rfl, -⟩ | ⟨-, rfl, -⟩
      · exact .kept
      · exact .stopped _ (gaps.le_stopAt _ hnow) (gaps.stopAt_le_finishAt _) rfl rfl rfl rfl
  | abandon token gaps commits =>
      rcases abandonSession_ok hok with ⟨rfl, -⟩ | ⟨-, rfl, -⟩
      · exact .kept
      · exact .stopped _ (gaps.le_stopAt _ hnow) le_rfl rfl rfl rfl rfl

theorem timerAct_move (h : st.session.Sound st.now elapsed expires) (a : TimerAction) :
    (timerAct st a).now = a.endAt st.now ∧
      TimerMove st.session st.now (a.endAt st.now) (timerAct st a).session := by
  unfold timerAct
  split
  · rename_i s' hok hcommits
    exact ⟨rfl, timerResult_move h hok⟩
  · exact ⟨rfl, .kept⟩

/-- A request of an editor that is allowed before the expiry has passed the check. -/
theorem editorOk_of_allowed {token : Option Str} (hok : st.Allows a)
    (hbearer : a.bearer = some token) (hmutable : st.session.status.isMutable = true)
    (hdue : ∀ expires ∈ st.session.expiresAt, a.checkedAt st.now < expires) :
    EditorOk st.session token (a.checkedAt st.now) := by
  obtain ⟨s', hok⟩ := hok
  cases a with
  | wait d => cases hbearer
  | read d => cases hbearer
  | expireDue d d' => cases hbearer
  | timer verb tok gaps commits =>
      obtain rfl := Option.some.inj hbearer
      rcases sessionTimer_ok hok with ⟨heq, hstopped⟩ | ⟨-, -, heditor⟩
      · rw [heq, maybeExpireSession_of_lt fun x hx =>
          (gaps.loadAt_le_checkAt st.now).trans_lt (hdue x hx), hmutable] at hstopped
        cases hstopped
      · exact heditor
  | edit tok gaps commits =>
      obtain rfl := Option.some.inj hbearer
      exact (editSession_ok hok).2.2
  | submit tok gaps commits =>
      obtain rfl := Option.some.inj hbearer
      rcases submitSession_ok hok with ⟨-, hstopped⟩ | ⟨-, -, heditor⟩
      · rw [hmutable] at hstopped
        cases hstopped
      · exact heditor
  | abandon tok gaps commits =>
      obtain rfl := Option.some.inj hbearer
      rcases abandonSession_ok hok with ⟨-, hstopped⟩ | ⟨-, -, heditor⟩
      · rw [hmutable] at hstopped
        cases hstopped
      · exact heditor

/-- A session that can still be changed after an operation is kept by it, unless it is an
operation on the timer. -/
theorem timerResult_mutable (hok : timerResult st a = .ok s')
    (hmutable : s'.status.isMutable = true) :
    st.session.status.isMutable = true ∧
      ((s' = st.session ∧ st.leasesAfter s' a = st.leases) ∨
        ∃ verb token gaps commits, a = .timer verb token gaps commits ∧
          s' = timerUpdated st.session verb token.text (gaps.checkAt st.now) ∧
          EditorOk st.session (some token.text) (gaps.checkAt st.now)) := by
  cases a with
  | wait d =>
      obtain rfl := Except.ok.inj hok
      exact ⟨hmutable, Or.inl ⟨rfl, rfl⟩⟩
  | read d =>
      obtain rfl := Except.ok.inj hok
      obtain ⟨hsame, -⟩ := maybeExpireSession_of_mutable hmutable
      rw [hsame] at hmutable
      exact ⟨hmutable, Or.inl ⟨hsame, rfl⟩⟩
  | expireDue d d' =>
      obtain rfl := Except.ok.inj hok
      rcases expireDueSession_cases st.session (clockAfter st.now d)
        (clockAfter (clockAfter st.now d) d') with heq | heq
      · rw [heq] at hmutable
        exact ⟨hmutable, Or.inl ⟨heq, rfl⟩⟩
      · rw [heq] at hmutable
        obtain ⟨hsame, -⟩ := maybeExpireSession_of_mutable hmutable
        rw [hsame] at hmutable
        exact ⟨hmutable, Or.inl ⟨heq.trans hsame, rfl⟩⟩
  | timer verb token gaps commits =>
      rcases sessionTimer_ok hok with ⟨-, hstopped⟩ | ⟨hopen, heq, heditor⟩
      · rw [hmutable] at hstopped
        cases hstopped
      · exact ⟨hopen, Or.inr ⟨verb, token, gaps, commits, rfl, heq, heditor⟩⟩
  | edit token gaps commits =>
      obtain ⟨rfl, hopen, -⟩ := editSession_ok hok
      exact ⟨hopen, Or.inl ⟨rfl, rfl⟩⟩
  | submit token gaps commits =>
      rcases submitSession_ok hok with ⟨rfl, -⟩ | ⟨-, rfl, -⟩
      · exact ⟨hmutable, Or.inl ⟨rfl, rfl⟩⟩
      · cases hmutable
  | abandon token gaps commits =>
      rcases abandonSession_ok hok with ⟨rfl, -⟩ | ⟨-, rfl, -⟩
      · exact ⟨hmutable, Or.inl ⟨rfl, rfl⟩⟩
      · cases hmutable

end Step

/-! ## Runs -/

/-- The timer is sound, and a lease is that of the row or it is over. -/
structure TimerOk (started expires : ℕ) (st : TimerState) : Prop where
  sound : ∃ elapsed, st.session.Sound st.now elapsed expires
  started : st.session.startedAt = started
  leases : st.session.status.isMutable = true → ∀ tok granted, st.leases tok = some granted →
    (st.session.timerEditorToken = some tok ∧ st.session.timerLastSeenAt = some granted) ∨
      granted + timerLeaseSeconds * 1000000 ≤ st.now

namespace TimerOk

variable {started expires : ℕ} {st : TimerState}

/-- A token that holds the lease at some time from now on is the one of the row. -/
theorem token_of_holds (h : TimerOk started expires st) {tok : Str} {t : ℕ} (hle : st.now ≤ t)
    (hholds : st.HoldsLease tok t) : st.session.timerEditorToken = some tok ∧
      ∃ granted, st.session.timerLastSeenAt = some granted ∧
        t < granted + timerLeaseSeconds * 1000000 := by
  obtain ⟨hmutable, -, granted, hgranted, hlt⟩ := hholds
  rcases h.leases hmutable tok granted hgranted with ⟨htoken, hlast⟩ | hover
  · exact ⟨htoken, granted, hlast, hlt⟩
  · exact absurd (hover.trans hle) (Nat.not_le.mpr hlt)

/-- A timer operation takes the lease from no other token before it is over. -/
theorem leases_updated (h : TimerOk started expires st)
    (hmutable : st.session.status.isMutable = true) {verb : TimerVerb} {token : Str} {t : ℕ} (hle : st.now ≤ t) (hmax : t ≤ datetimeMax)
    (heditor : EditorOk st.session (some token) t) {tok : Str} {granted : ℕ}
    (hgranted : Function.update st.leases token (if verb = .pause then none else some t) tok =
      some granted) :
    ((timerUpdated st.session verb token t).timerEditorToken = some tok ∧
        (timerUpdated st.session verb token t).timerLastSeenAt = some granted) ∨
      granted + timerLeaseSeconds * 1000000 ≤ t := by
  by_cases htok : tok = token
  · subst htok
    rw [Function.update_self] at hgranted
    split_ifs at hgranted with hpause
    obtain rfl := Option.some.inj hgranted
    rw [timerUpdated, if_neg hpause]
    exact Or.inl ⟨rfl, rfl⟩
  · rw [Function.update_of_ne htok] at hgranted
    rcases h.leases hmutable tok granted hgranted with ⟨hheld, hlast⟩ | hover
    · rcases heditor with hzero | hsame
      · obtain ⟨elapsed, hsound⟩ := h.sound
        exact Or.inr (hsound.lease_over hlast hle hmax hzero)
      · exact absurd (Option.some.inj (hheld.symm.trans hsame)) htok
    · exact Or.inr (hover.trans hle)

theorem act (h : TimerOk started expires st) (a : TimerAction) :
    TimerOk started expires (timerAct st a) := by
  obtain ⟨elapsed, hsound⟩ := h.sound
  have hle := a.le_endAt hsound.now_le
  obtain ⟨hnow, hmove⟩ := timerAct_move hsound a
  obtain ⟨hstarted, elapsed', hsound', -⟩ := hmove.sound hsound hle (a.endAt_le)
  rw [← hnow] at hsound'
  refine ⟨⟨elapsed', hsound'⟩, hstarted.trans h.started, ?_⟩
  unfold timerAct
  split
  · rename_i s' hok hcommits
    intro hmutable tok granted hgranted
    obtain ⟨hopen, ⟨rfl, hsame⟩ | ⟨verb, token, gaps, commits, rfl, rfl, heditor⟩⟩ :=
      timerResult_mutable hok hmutable
    · dsimp only at hgranted
      rw [hsame] at hgranted
      exact (h.leases hopen tok granted hgranted).imp_right fun hover => hover.trans hle
    · dsimp only [TimerState.leasesAfter] at hgranted hmutable
      rw [if_pos hmutable] at hgranted
      exact h.leases_updated hopen hle (clockAfter_le _ _) heditor hgranted
  · intro hmutable tok granted hgranted
    exact (h.leases hmutable tok granted hgranted).imp_right fun hover => hover.trans hle

theorem start {sessionTtlHours : ℤ} {now : ℕ} (hstart : startTimer sessionTtlHours now = some st)
    (hexpires : expires ∈ st.session.expiresAt) : TimerOk now expires st := by
  obtain ⟨x, hx, rfl⟩ := Option.map_eq_some_iff.mp hstart
  obtain rfl := Option.some.inj hexpires
  obtain ⟨hlow, hmax⟩ := computeExpiresAt_bounds hx
  refine ⟨⟨0, rfl, rfl, hmax, hlow.trans hmax, le_rfl, ?_, ?_, fun _ => rfl⟩,
    rfl, ?_⟩
  · rintro last ⟨⟩
  · change now + 1000 * 0 ≤ min now _
    exact le_min le_rfl hlow
  · rintro - tok granted ⟨⟩

end TimerOk

/-- What holds of a timer, and of every operation that may come next. -/
structure TimerLaw (started expires : ℕ) (st : TimerState) : Prop where
  wall : 1000 * st.elapsed ≤ min (st.now : ℤ) expires - started
  /-- The row does not lag behind by more than a lease. -/
  recorded : ∃ recorded : ℤ, st.session.timerElapsedMs = some recorded ∧
    recorded ≤ st.elapsed ∧
    ∀ a, st.elapsed ≤ (timerAct st a).elapsed ∧ (timerAct st a).elapsed ≤ recorded + timerLease
  one : ∀ t ≥ st.now, ∀ tok tok', st.HoldsLease tok t → st.HoldsLease tok' t → tok = tok'
  barred : ∀ a token tok, st.Allows a → a.bearer = some token →
    st.HoldsLease tok (a.checkedAt st.now) → token = some tok

theorem TimerOk.law {started expires : ℕ} {st : TimerState} (h : TimerOk started expires st) :
    TimerLaw started expires st := by
  obtain ⟨elapsed, hsound⟩ := h.sound
  refine ⟨?_, ⟨elapsed, hsound.elapsed_eq, hsound.elapsed_le _, fun a => ?_⟩, ?_, ?_⟩
  · have hwall := hsound.elapsedAt_wall
    rw [h.started] at hwall
    unfold TimerState.elapsed
    omega
  · obtain ⟨hnow, hmove⟩ := timerAct_move hsound a
    obtain ⟨-, elapsed', -, hgrows, hlease⟩ :=
      hmove.sound hsound (a.le_endAt hsound.now_le) a.endAt_le
    unfold TimerState.elapsed
    rw [hnow]
    exact ⟨hgrows, hlease⟩
  · intro t hle tok tok' hholds hholds'
    have htoken := (h.token_of_holds hle hholds).1
    exact Option.some.inj (htoken.symm.trans (h.token_of_holds hle hholds').1)
  · intro a token tok hallows hbearer hholds
    have hle := a.le_checkedAt hsound.now_le
    obtain ⟨htoken, granted, hlast, hlt⟩ := h.token_of_holds hle hholds
    rcases editorOk_of_allowed hallows hbearer hholds.1 hholds.2.1 with hzero | hsame
    · have hover := hsound.lease_over hlast hle a.checkedAt_le hzero
      exact absurd hover (Nat.not_le.mpr hlt)
    · exact hsame.symm.trans htoken

/-- In every state that the operations on a started session reach, the elapsed time is within
the wall time, does not decrease and grows by at most a lease with the next operation, and one
token at most holds the lease, which bars every other request. -/
theorem timer_accounting {sessionTtlHours : ℤ} {now : ℕ} {st : TimerState}
    (hstart : startTimer sessionTtlHours now = some st) (actions : List TimerAction) :
    ∀ expires ∈ st.session.expiresAt, TimerLaw now expires (run timerAct st actions) :=
  fun _ hexpires => (invariant_run_of_step _ (fun _ a h => h.act a)
    (TimerOk.start hstart hexpires)).law

/-- A session of a day that one token resumes, keeps for ten seconds and pauses. -/
theorem timer_accounting_of_day :
    TimerLaw 0 86400000000 (run timerAct
      ⟨0, ⟨.active, some 0, none, none, none, 0, 0, none, some 86400000000⟩, fun _ => none⟩
      [.timer .resume ⟨List.replicate 16 97, by decide⟩ ⟨1, 1, 1, 1, 1⟩ true, .wait 10000000,
        .timer .pause ⟨List.replicate 16 97, by decide⟩ ⟨1, 1, 1, 1, 1⟩ true]) := by
  have hstart : startTimer 24 0 = some
      ⟨0, ⟨.active, some 0, none, none, none, 0, 0, none, some 86400000000⟩, fun _ => none⟩ := by
    simp [startTimer, computeExpiresAt, datetimeMax]
  exact timer_accounting hstart _ _ rfl

end PromptCode
