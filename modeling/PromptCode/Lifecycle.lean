import PromptCode.Py.Timedelta
import PromptCode.Py.Str
import Mathlib.Tactic.Linarith

/-!
# The lifecycle of a session

The status gates, the expiry and the timer of a session row.  Instants are microseconds
since `datetime.min`; a function that reads the clock takes what it reads.
-/

namespace PromptCode

open Py

inductive SessionStatus where
  | created
  | active
  | submitted
  | expired
  | failed
  | abandoned
  deriving DecidableEq

/-- Membership in `MUTABLE_STATUSES`. -/
def SessionStatus.isMutable : SessionStatus → Bool
  | created | active => true
  | _ => false

structure HttpException where
  statusCode : ℕ
  detail : String
  deriving DecidableEq

/-- The columns of a session that its lifecycle reads or writes. -/
structure TimedSession where
  status : SessionStatus
  timerElapsedMs : Option ℤ
  timerLastSeenAt : Option ℕ
  timerEditorToken : Option Str
  activeDurationMs : Option ℤ
  infraBlockedMs : ℤ
  startedAt : ℕ
  submittedAt : Option ℕ
  expiresAt : Option ℕ
  deriving DecidableEq

/-- `datetime.max` -/
def datetimeMax : ℕ := 315537897599999999

/-- The expiry of a session, unless no datetime is so late. -/
def computeExpiresAt (sessionTtlHours : ℤ) (startedAt : ℕ) : Option ℕ :=
  let hours := max 1 (if sessionTtlHours = 0 then 24 else sessionTtlHours)
  let expires := startedAt + hours.toNat * 3600000000
  if expires ≤ datetimeMax then some expires else none

theorem computeExpiresAt_bounds {sessionTtlHours : ℤ} {startedAt expires : ℕ}
    (h : computeExpiresAt sessionTtlHours startedAt = some expires) :
    startedAt ≤ expires ∧ expires ≤ datetimeMax := by
  unfold computeExpiresAt at h
  dsimp only at h
  split_ifs at h with hmax
  all_goals
    obtain rfl := Option.some.inj h
    exact ⟨Nat.le_add_right _ _, by assumption⟩

def timerLeaseSeconds : ℕ := 30

/-- The lease in milliseconds. -/
def timerLease : ℤ := timerLeaseSeconds * 1000

/-- `int((end - start).total_seconds() * 1000)` -/
def spanMs (start stop : ℕ) : ℤ := wholeMs (stop - start)

/-- The elapsed time of a row, by the older columns where the timer has none. -/
def TimedSession.elapsedBefore (s : TimedSession) (now : ℕ) : ℤ :=
  match s.timerElapsedMs, s.activeDurationMs with
  | some elapsed, _ => elapsed
  | none, some active => active
  | none, none =>
      let stop := s.submittedAt.getD now
      max 0 (spanMs s.startedAt (s.expiresAt.elim stop (min stop)))

/-- The elapsed time and the rest of the editor's lease. -/
def timerSnapshot (s : TimedSession) (now : ℕ) : ℤ × ℤ :=
  match s.timerLastSeenAt, s.status.isMutable with
  | some last, true =>
      let delta := max 0 (spanMs last now)
      let delta := s.expiresAt.elim delta fun expires => min delta (max 0 (spanMs last expires))
      (max 0 (s.elapsedBefore now) + min delta timerLease, max 0 (timerLease - delta))
  | _, _ => (max 0 (s.elapsedBefore now), 0)

def stopTimer (s : TimedSession) (now : ℕ) : TimedSession :=
  { s with
    timerElapsedMs := some (timerSnapshot s now).1
    timerLastSeenAt := none
    timerEditorToken := none }

def maybeExpireSession (s : TimedSession) (now : ℕ) : TimedSession :=
  match s.status.isMutable, s.expiresAt with
  | true, some expires =>
      if expires ≤ now then { stopTimer s expires with status := .expired } else s
  | _, _ => s

/-- The session that goes on, once its expiry has been checked. -/
def requireMutable (s : TimedSession) (now : ℕ) : Except HttpException TimedSession :=
  let s := maybeExpireSession s now
  match s.status with
  | .expired => .error ⟨410,
      "Session expired. Report and history remain available if submitted earlier."⟩
  | .submitted => .error ⟨409, "Session already submitted. Code is immutable."⟩
  | .failed => .error ⟨409, "Session failed and cannot be modified."⟩
  | .abandoned => .error ⟨409, "Session is not editable."⟩
  | .created | .active => .ok s

def otherEditor : HttpException :=
  ⟨409, "This session is open for editing in another tab or device."⟩

def sessionPaused : HttpException := ⟨409, "Session paused. Resume before editing."⟩

def requireEditor (s : TimedSession) (token : Option Str) (now : ℕ) :
    Except HttpException Unit :=
  let remaining := (timerSnapshot s now).2
  if remaining ≠ 0 ∧ s.timerEditorToken ≠ token then .error otherEditor
  -- an empty token is none
  else if token.getD [] ≠ [] ∧ (remaining = 0 ∨ s.timerEditorToken ≠ token) then
    .error sessionPaused
  else .ok ()

inductive TimerVerb where
  | resume
  | heartbeat
  | pause
  deriving DecidableEq

/-- `update_timer`; the clock is read for the expiry and then for the snapshot. -/
def updateTimer (s : TimedSession) (verb : TimerVerb) (token : Str) (expiryAt now : ℕ) :
    Except HttpException TimedSession := do
  let s ← requireMutable s expiryAt
  let (elapsed, remaining) := timerSnapshot s now
  if remaining ≠ 0 ∧ s.timerEditorToken ≠ some token then .error otherEditor
  else if verb = .pause then
    .ok (if s.timerEditorToken = some token then stopTimer s now else s)
  else if verb = .heartbeat ∧ (remaining = 0 ∨ s.timerEditorToken ≠ some token) then
    .error sessionPaused
  else
    .ok { s with
      timerElapsedMs := some elapsed
      timerLastSeenAt := some now
      timerEditorToken := some token }

/-! ## The time since the last contact -/

/-- The time since the last contact, up to the expiry. -/
def countedMs (last expires now : ℕ) : ℤ :=
  min (max 0 (spanMs last now)) (max 0 (spanMs last expires))

section Counted

variable {last expires now later : ℕ}

theorem countedMs_nonneg : 0 ≤ countedMs last expires now :=
  le_min (le_max_left _ _) (le_max_left _ _)

theorem natAbs_sub_le {a b : ℕ} (ha : a ≤ datetimeMax) (hb : b ≤ datetimeMax) :
    ((b : ℤ) - a).natAbs ≤ 2 ^ 64 := by
  unfold datetimeMax at ha hb
  omega

theorem max_spanMs_mono (hlast : last ≤ datetimeMax) (hle : now ≤ later)
    (hlater : later ≤ datetimeMax) : max 0 (spanMs last now) ≤ max 0 (spanMs last later) :=
  max_wholeMs_mono (by omega) (natAbs_sub_le hlast (hle.trans hlater))
    (natAbs_sub_le hlast hlater)

theorem countedMs_mono (hlast : last ≤ datetimeMax) (hle : now ≤ later)
    (hlater : later ≤ datetimeMax) :
    countedMs last expires now ≤ countedMs last expires later :=
  min_le_min_right _ (max_spanMs_mono hlast hle hlater)

/-- After the expiry nothing is counted. -/
theorem countedMs_of_expired (hlast : last ≤ datetimeMax) (hle : expires ≤ now)
    (hnow : now ≤ datetimeMax) :
    countedMs last expires now = countedMs last expires expires := by
  unfold countedMs
  rw [min_self, min_eq_right (max_spanMs_mono hlast hle hnow)]

/-- Up to the lease, what is counted of a time is not longer than it. -/
theorem thousand_mul_min_spanMs_le (hlast : last ≤ datetimeMax) (hnow : now ≤ datetimeMax) :
    1000 * min (max 0 (spanMs last now)) timerLease ≤ max 0 ((now : ℤ) - last) := by
  have hlease : timerLease = 30000 := rfl
  rw [hlease]
  rcases Int.lt_or_le ((now : ℤ) - last) 0 with hneg | hpos
  · have := wholeMs_nonpos hneg (natAbs_sub_le hlast hnow)
    unfold spanMs
    omega
  · rcases Int.lt_or_le ((now : ℤ) - last) 30000000 with hlt | hge
    · have := wholeMs_le_div hpos hlt
      unfold spanMs
      omega
    · omega

theorem thousand_mul_min_countedMs_le (hlast : last ≤ datetimeMax) (hnow : now ≤ datetimeMax)
    (hexpires : expires ≤ datetimeMax) :
    1000 * min (countedMs last expires now) timerLease ≤
      max 0 (min (now : ℤ) expires - last) := by
  have hspan := thousand_mul_min_spanMs_le hlast hnow
  have hleft := thousand_mul_min_spanMs_le hlast hexpires
  unfold countedMs
  generalize spanMs last now = span at *
  generalize spanMs last expires = left at *
  omega

/-- Less than the lease is counted before it ends. -/
theorem countedMs_lt (hlt : now < last + timerLeaseSeconds * 1000000) (hnow : now ≤ datetimeMax)
    (hlast : last ≤ now) : countedMs last expires now < timerLease := by
  have hspan := thousand_mul_min_spanMs_le (hlast.trans hnow) hnow
  have hlease : timerLease = 30000 := rfl
  have hseconds : timerLeaseSeconds = 30 := rfl
  unfold countedMs
  generalize spanMs last now = span at *
  generalize spanMs last expires = left at *
  omega

/-- Nothing is counted at the last contact. -/
theorem min_countedMs_self (hlast : last ≤ datetimeMax) (hexpires : expires ≤ datetimeMax) :
    min (countedMs last expires last) timerLease = 0 := by
  have hle := thousand_mul_min_countedMs_le hlast hlast hexpires
  have hnonneg : 0 ≤ min (countedMs last expires last) timerLease :=
    le_min countedMs_nonneg (by decide)
  generalize min (countedMs last expires last) timerLease = counted at *
  omega

end Counted

/-! ## A sound timer -/

/-- What a row records of its timer at `now`: the elapsed time is counted, and no more than has
passed up to the last contact. -/
structure TimedSession.Sound (s : TimedSession) (now elapsed expires : ℕ) : Prop where
  elapsed_eq : s.timerElapsedMs = some (elapsed : ℤ)
  expires_eq : s.expiresAt = some expires
  expires_le : expires ≤ datetimeMax
  now_le : now ≤ datetimeMax
  started_le : s.startedAt ≤ now
  last_le : ∀ last ∈ s.timerLastSeenAt, last ≤ now
  wall : s.startedAt + 1000 * elapsed ≤ min (s.timerLastSeenAt.getD now) expires
  stopped : s.status.isMutable = false → s.timerLastSeenAt = none

/-- The elapsed time of a snapshot. -/
def TimedSession.elapsedAt (s : TimedSession) (now : ℕ) : ℤ := (timerSnapshot s now).1

namespace TimedSession.Sound

variable {s : TimedSession} {now elapsed expires last : ℕ}

theorem later {now' : ℕ} (h : s.Sound now elapsed expires) (hle : now ≤ now')
    (hmax : now' ≤ datetimeMax) : s.Sound now' elapsed expires where
  elapsed_eq := h.elapsed_eq
  expires_eq := h.expires_eq
  expires_le := h.expires_le
  now_le := hmax
  started_le := h.started_le.trans hle
  last_le l hl := (h.last_le l hl).trans hle
  wall := h.wall.trans (min_le_min_right _ (by
    cases s.timerLastSeenAt with
    | none => exact hle
    | some last => exact le_rfl))
  stopped := h.stopped

theorem elapsedBefore (h : s.Sound now elapsed expires) (t : ℕ) : s.elapsedBefore t = elapsed := by
  rw [TimedSession.elapsedBefore, h.elapsed_eq]

/-- The snapshot of a timer that is stopped. -/
theorem snapshot_stopped (h : s.Sound now elapsed expires) (hlast : s.timerLastSeenAt = none)
    (t : ℕ) : timerSnapshot s t = ((elapsed : ℤ), 0) := by
  rw [timerSnapshot, hlast]
  dsimp only
  rw [h.elapsedBefore, max_eq_right (Int.natCast_nonneg _)]

/-- The snapshot of a timer that runs. -/
theorem snapshot_running (h : s.Sound now elapsed expires) (hlast : s.timerLastSeenAt = some last)
    (t : ℕ) : timerSnapshot s t = (elapsed + min (countedMs last expires t) timerLease,
      max 0 (timerLease - countedMs last expires t)) := by
  have hmutable : s.status.isMutable = true := by
    by_contra hnot
    rw [h.stopped (Bool.eq_false_iff.mpr hnot)] at hlast
    cases hlast
  rw [timerSnapshot, hlast, hmutable]
  dsimp only
  rw [h.elapsedBefore, max_eq_right (Int.natCast_nonneg _), h.expires_eq, Option.elim_some,
    countedMs]

theorem elapsedAt_stopped (h : s.Sound now elapsed expires) (hlast : s.timerLastSeenAt = none)
    (t : ℕ) : s.elapsedAt t = elapsed := by
  rw [elapsedAt, h.snapshot_stopped hlast]

theorem elapsedAt_running (h : s.Sound now elapsed expires)
    (hlast : s.timerLastSeenAt = some last) (t : ℕ) :
    s.elapsedAt t = elapsed + min (countedMs last expires t) timerLease := by
  rw [elapsedAt, h.snapshot_running hlast]

theorem elapsed_le (h : s.Sound now elapsed expires) (t : ℕ) : elapsed ≤ s.elapsedAt t := by
  cases hlast : s.timerLastSeenAt with
  | none => exact (h.elapsedAt_stopped hlast t).ge
  | some last =>
      rw [h.elapsedAt_running hlast]
      exact Int.le_add_of_nonneg_right (le_min countedMs_nonneg (by decide))

/-- A snapshot adds at most a lease. -/
theorem elapsedAt_le (h : s.Sound now elapsed expires) (t : ℕ) :
    s.elapsedAt t ≤ elapsed + timerLease := by
  cases hlast : s.timerLastSeenAt with
  | none =>
      rw [h.elapsedAt_stopped hlast]
      exact Int.le_add_of_nonneg_right (by decide)
  | some last =>
      rw [h.elapsedAt_running hlast]
      exact Int.add_le_add_left (min_le_right _ _) _

theorem elapsedAt_mono (h : s.Sound now elapsed expires) {t t' : ℕ} (hle : t ≤ t')
    (hmax : t' ≤ datetimeMax) : s.elapsedAt t ≤ s.elapsedAt t' := by
  cases hlast : s.timerLastSeenAt with
  | none => rw [h.elapsedAt_stopped hlast, h.elapsedAt_stopped hlast]
  | some last =>
      rw [h.elapsedAt_running hlast, h.elapsedAt_running hlast]
      have hlastMax := (h.last_le last hlast).trans h.now_le
      exact Int.add_le_add_left (min_le_min_right _ (countedMs_mono hlastMax hle hmax)) _

/-- After the expiry a snapshot is the one at the expiry. -/
theorem elapsedAt_of_expired (h : s.Sound now elapsed expires) {t : ℕ} (hle : expires ≤ t)
    (ht : t ≤ datetimeMax) : s.elapsedAt expires = s.elapsedAt t := by
  cases hlast : s.timerLastSeenAt with
  | none => rw [h.elapsedAt_stopped hlast, h.elapsedAt_stopped hlast]
  | some last =>
      have hmax := (h.last_le last hlast).trans h.now_le
      rw [h.elapsedAt_running hlast, h.elapsedAt_running hlast,
        countedMs_of_expired hmax hle ht]

/-- The elapsed time is not longer than the time from the start to the expiry or now. -/
theorem elapsedAt_wall (h : s.Sound now elapsed expires) :
    s.startedAt + 1000 * s.elapsedAt now ≤ min (now : ℤ) expires := by
  have hwall := h.wall
  cases hlast : s.timerLastSeenAt with
  | none =>
      rw [h.elapsedAt_stopped hlast]
      rw [hlast, Option.getD_none] at hwall
      omega
  | some last =>
      have hnow := h.last_le last hlast
      have hcounted := thousand_mul_min_countedMs_le (hnow.trans h.now_le) h.now_le h.expires_le
      rw [h.elapsedAt_running hlast, mul_add]
      rw [hlast, Option.getD_some] at hwall
      generalize min (countedMs last expires now) timerLease = counted at *
      omega

theorem elapsedAt_nonneg (h : s.Sound now elapsed expires) (t : ℕ) : 0 ≤ s.elapsedAt t :=
  (Int.natCast_nonneg _).trans (h.elapsed_le t)

/-- No lease is left only when the lease is over. -/
theorem lease_over (h : s.Sound now elapsed expires) (hlast : s.timerLastSeenAt = some last) {t : ℕ}
    (hle : now ≤ t) (hmax : t ≤ datetimeMax) (hzero : (timerSnapshot s t).2 = 0) :
    last + timerLeaseSeconds * 1000000 ≤ t := by
  by_contra hlt
  have hcounted : countedMs last expires t < timerLease :=
    countedMs_lt (Nat.lt_of_not_le hlt) hmax ((h.last_le last hlast).trans hle)
  rw [h.snapshot_running hlast] at hzero
  have hnonpos := (le_max_right _ _).trans_eq hzero
  exact absurd hnonpos (not_le.mpr (Int.sub_pos_of_lt hcounted))

end TimedSession.Sound

/-! ## What the gates let pass -/

section Gates

variable {s s' : TimedSession} {now now' : ℕ}

theorem maybeExpireSession_cases (s : TimedSession) (now : ℕ) :
    (maybeExpireSession s now = s ∧
      (s.status.isMutable = true → ∀ expires ∈ s.expiresAt, now < expires)) ∨
    ∃ expires, s.status.isMutable = true ∧ s.expiresAt = some expires ∧ expires ≤ now ∧
      maybeExpireSession s now = { stopTimer s expires with status := .expired } := by
  unfold maybeExpireSession
  cases hmutable : s.status.isMutable with
  | false => exact Or.inl ⟨rfl, fun h => nomatch h⟩
  | true =>
      cases hexpires : s.expiresAt with
      | none => exact Or.inl ⟨rfl, fun _ x hx => nomatch hx⟩
      | some expires =>
          by_cases hdue : expires ≤ now
          · exact Or.inr ⟨expires, rfl, rfl, hdue, if_pos hdue⟩
          · refine Or.inl ⟨if_neg hdue, ?_⟩
            rintro - x ⟨⟩
            exact Nat.lt_of_not_le hdue

/-- A session that can still be changed has not been touched by the check of its expiry. -/
theorem maybeExpireSession_of_mutable (h : (maybeExpireSession s now).status.isMutable = true) :
    maybeExpireSession s now = s ∧ ∀ expires ∈ s.expiresAt, now < expires := by
  rcases maybeExpireSession_cases s now with ⟨hsame, hdue⟩ | ⟨expires, -, -, -, heq⟩
  · rw [hsame] at h
    exact ⟨hsame, hdue h⟩
  · rw [heq] at h
    cases h

theorem maybeExpireSession_of_lt (h : ∀ expires ∈ s.expiresAt, now < expires) :
    maybeExpireSession s now = s := by
  rcases maybeExpireSession_cases s now with ⟨hsame, -⟩ | ⟨expires, -, hexpires, hdue, -⟩
  · exact hsame
  · exact absurd (h expires hexpires) (Nat.not_lt.mpr hdue)

theorem requireMutable_ok (h : requireMutable s now = .ok s') :
    s' = s ∧ s.status.isMutable = true ∧ ∀ expires ∈ s.expiresAt, now < expires := by
  have hok : s' = maybeExpireSession s now ∧
      (maybeExpireSession s now).status.isMutable = true := by
    unfold requireMutable at h
    dsimp only at h
    split at h
    · cases h
    · cases h
    · cases h
    · cases h
    · rename_i hstatus
      exact ⟨(Except.ok.inj h).symm, by rw [hstatus]; rfl⟩
    · rename_i hstatus
      exact ⟨(Except.ok.inj h).symm, by rw [hstatus]; rfl⟩
  obtain ⟨rfl, hmutable⟩ := hok
  obtain ⟨hsame, hdue⟩ := maybeExpireSession_of_mutable hmutable
  rw [hsame] at hmutable
  exact ⟨hsame, hmutable, hdue⟩

/-- The token is the stored one, unless no lease runs. -/
def EditorOk (s : TimedSession) (token : Option Str) (now : ℕ) : Prop :=
  (timerSnapshot s now).2 = 0 ∨ s.timerEditorToken = token

theorem requireEditor_bind_ok {token : Option Str} {row : TimedSession}
    (h : (do requireEditor s token now; .ok row : Except HttpException TimedSession) = .ok s') :
    s' = row ∧ EditorOk s token now := by
  unfold requireEditor at h
  dsimp only at h
  split_ifs at h with hother hpaused
  · cases h
  · cases h
  · refine ⟨(Except.ok.inj h).symm, or_iff_not_imp_left.mpr fun hzero => ?_⟩
    exact not_not.mp fun hne => hother ⟨hzero, hne⟩

/-- The row after a contact of an editor. -/
def TimedSession.touch (s : TimedSession) (token : Str) (now : ℕ) : TimedSession :=
  { s with
    timerElapsedMs := some (s.elapsedAt now)
    timerLastSeenAt := some now
    timerEditorToken := some token }

/-- What a row is after an update of its timer. -/
def timerUpdated (s : TimedSession) (verb : TimerVerb) (token : Str) (now : ℕ) : TimedSession :=
  if verb = .pause then if s.timerEditorToken = some token then stopTimer s now else s
  else s.touch token now

theorem updateTimer_ok {verb : TimerVerb} {token : Str}
    (h : updateTimer s verb token now now' = .ok s') :
    s' = timerUpdated s verb token now' ∧ EditorOk s (some token) now' := by
  unfold updateTimer at h
  cases hmutable : requireMutable s now with
  | error e =>
      rw [hmutable] at h
      cases h
  | ok t =>
      rw [hmutable] at h
      obtain ⟨rfl, -, -⟩ := requireMutable_ok hmutable
      change (if (timerSnapshot t now').2 ≠ 0 ∧ t.timerEditorToken ≠ some token then _ else _) =
        _ at h
      split_ifs at h with hother hpause hheld hbeat
      · refine ⟨?_, ?_⟩
        · rw [timerUpdated, if_pos hpause, if_pos hheld]
          exact (Except.ok.inj h).symm
        · exact Or.inr hheld
      · refine ⟨?_, ?_⟩
        · rw [timerUpdated, if_pos hpause, if_neg hheld]
          exact (Except.ok.inj h).symm
        · exact or_iff_not_imp_left.mpr fun hzero => not_not.mp fun hne => hother ⟨hzero, hne⟩
      · refine ⟨?_, ?_⟩
        · rw [timerUpdated, if_neg hpause]
          exact (Except.ok.inj h).symm
        · exact or_iff_not_imp_left.mpr fun hzero => not_not.mp fun hne => hother ⟨hzero, hne⟩

end Gates

end PromptCode
