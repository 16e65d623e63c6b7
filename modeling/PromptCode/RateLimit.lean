import PromptCode.RowLock
import PromptCode.Transition
import PromptCode.Py.Sha256
import PromptCode.Py.Utf8
import Mathlib.Data.Int.Order.Basic
import Mathlib.Data.List.Basic

/-!
# Rate limits

`enforce_rate_limit` and `cleanup_expired_counters` on the counters of all keys and windows.
A check reads the clock and then executes its upsert; its session may go on to further
checks before it commits.
-/

namespace PromptCode

open Py Transition

/-- The limits and windows of the keys, and `jwt_secret`. -/
structure RateLimits where
  secret : Bytes
  limit : Str → ℤ
  windowSeconds : Str → ℤ

/-- A row of `rate_limit_counters`, under its `key` and `window_start`. -/
structure RateCounter where
  count : ℤ
  expiresAt : ℤ
  deriving DecidableEq

inductive CallStatus where
  | pending
  | committed
  /-- Its session has rolled back. -/
  | undone
  deriving DecidableEq

/-- A call that has been accepted. -/
structure AcceptedCall where
  session : ℕ
  key : Str
  hash : Str
  bucket : ℤ
  status : CallStatus
  deriving DecidableEq

/-- Where a session stands. -/
inductive LimiterPhase where
  /-- Nothing is left to commit. -/
  | settled
  /-- A check has been accepted without a commit. -/
  | opened
  | upsert (key hash : Str) (bucket current : ℤ) (commit : Bool)
  /-- The commit of a check, with `Retry-After` when it is rejected. -/
  | commit (retry : Option ℤ)
  | rejected (retry : ℤ)
  | rolledBack
  | cleanup (current : ℤ)
  | cleaned
  deriving DecidableEq

structure LimiterState where
  now : ℤ
  counters : Str → ℤ → Row ℕ (Option RateCounter)
  sessions : ℕ → LimiterPhase
  calls : List AcceptedCall
  /-- The counters that a committed cleanup has deleted. -/
  pruned : Str → ℤ → Bool

inductive LimiterAction where
  | tick (d : ℕ)
  | check (t : ℕ) (key : Str) (commit : Bool)
  /-- The upsert of the session or its commit. -/
  | step (t : ℕ)
  /-- The route commits. -/
  | commit (t : ℕ)
  | rollback (t : ℕ)
  | cleanup (t : ℕ)
  /-- The deletion of a cleanup comes to a counter. -/
  | prune (t : ℕ) (hash : Str) (bucket : ℤ)

/-- The column `key`, or `none` where the key has no encoding. -/
def RateLimits.hashKey (cfg : RateLimits) (key : Str) : Option Str :=
  (utf8Encode key).map (hmacSha256Hex cfg.secret)

/-- What a commit or a rollback makes of the calls of its session. -/
def AcceptedCall.settle (t : ℕ) (status : CallStatus) (c : AcceptedCall) : AcceptedCall :=
  if c.session = t ∧ c.status = .pending then { c with status := status } else c

namespace LimiterState

variable (st : LimiterState)

def setPhase (t : ℕ) (phase : LimiterPhase) : LimiterState :=
  { st with sessions := Function.update st.sessions t phase }

def setCounter (hash : Str) (bucket : ℤ) (row : Row ℕ (Option RateCounter)) : LimiterState :=
  { st with
    counters := Function.update st.counters hash
      (Function.update (st.counters hash) bucket row) }

def commitSession (t : ℕ) (phase : LimiterPhase) : LimiterState :=
  { st with
    counters := fun hash bucket => (st.counters hash bucket).commit t
    calls := st.calls.map (AcceptedCall.settle t .committed)
    pruned := fun hash bucket =>
      st.pruned hash bucket || (st.counters hash bucket).held = some (t, none) }.setPhase t phase

def rollbackSession (t : ℕ) : LimiterState :=
  { st with
    counters := fun hash bucket => (st.counters hash bucket).rollback t
    calls := st.calls.map (AcceptedCall.settle t .undone) }.setPhase t .rolledBack

/-- The upsert has returned a count. -/
def accept (t : ℕ) (key hash : Str) (bucket : ℤ) (commit : Bool) : LimiterState :=
  { st with calls := st.calls ++ [AcceptedCall.mk t key hash bucket .pending] }.setPhase t
    (if commit then .commit none else .opened)

/-- `int(now.timestamp())` -/
def current : ℤ := st.now / 1000000

end LimiterState

/-- `INSERT .. ON CONFLICT DO UPDATE .. WHERE count < limit RETURNING count`, once the row can
be locked. -/
def upsertCounter (cfg : RateLimits) (st : LimiterState) (t : ℕ) (key hash : Str)
    (bucket current : ℤ) (commit : Bool) : LimiterState :=
  if (st.counters hash bucket).free t then
    match (st.counters hash bucket).visible t with
    | none => (st.setCounter hash bucket ((st.counters hash bucket).put t
        (some ⟨1, bucket + cfg.windowSeconds key⟩))).accept t key hash bucket commit
    | some counter =>
        if counter.count < cfg.limit key then
          (st.setCounter hash bucket ((st.counters hash bucket).put t
            (some { counter with count := counter.count + 1 }))).accept t key hash bucket commit
        else
          (st.setCounter hash bucket ((st.counters hash bucket).put t (some counter))).setPhase t
            (.commit (some (max 1 (bucket + cfg.windowSeconds key - current))))
  else st

def limiterStep (cfg : RateLimits) (st : LimiterState) (t : ℕ) : LimiterState :=
  match st.sessions t with
  | .upsert key hash bucket current commit => upsertCounter cfg st t key hash bucket current commit
  | .commit none => st.commitSession t .settled
  | .commit (some retry) => st.commitSession t (.rejected retry)
  | .cleanup _ => st.commitSession t .cleaned
  | _ => st

/-- A check begins: the configuration, the clock and the column `key`. -/
def checkStep (cfg : RateLimits) (st : LimiterState) (t : ℕ) (key : Str) (commit : Bool) :
    LimiterState :=
  if cfg.limit key < 1 ∨ cfg.windowSeconds key < 1 then st.rollbackSession t
  else
    match cfg.hashKey key with
    | none => st.rollbackSession t
    | some hash => st.setPhase t (.upsert key hash
        (st.current / cfg.windowSeconds key * cfg.windowSeconds key) st.current commit)

/-- `RateLimitCounter.expires_at <= current` -/
def counterExpired (current : ℤ) (counter : Option RateCounter) : Bool :=
  counter.any fun counter => counter.expiresAt ≤ current

/-- The deletion of a counter that has expired. -/
def pruneStep (st : LimiterState) (t : ℕ) (hash : Str) (bucket current : ℤ) : LimiterState :=
  match (st.counters hash bucket).update t (counterExpired current) fun _ => none with
  | none => st
  | some (row, _) => st.setCounter hash bucket row

def limiterAct (cfg : RateLimits) (st : LimiterState) : LimiterAction → LimiterState
  | .tick d => { st with now := st.now + d }
  | .check t key commit =>
      match st.sessions t with
      | .settled | .opened => checkStep cfg st t key commit
      | _ => st
  | .step t => limiterStep cfg st t
  | .commit t =>
      match st.sessions t with
      | .settled | .opened => st.commitSession t .settled
      | _ => st
  | .rollback t =>
      match st.sessions t with
      | .rejected _ | .rolledBack | .cleaned => st
      | _ => st.rollbackSession t
  | .cleanup t =>
      match st.sessions t with
      | .settled => st.setPhase t (.cleanup st.current)
      | _ => st
  | .prune t hash bucket =>
      match st.sessions t with
      | .cleanup current => pruneStep st t hash bucket current
      | _ => st

def LimiterState.start (now : ℤ) : LimiterState :=
  ⟨now, fun _ _ => ⟨none, none⟩, fun _ => .settled, [], fun _ _ => false⟩

/-- The call has incremented this counter. -/
def AcceptedCall.on (hash : Str) (bucket : ℤ) (c : AcceptedCall) : Bool :=
  c.hash = hash && c.bucket = bucket

/-- The calls of a key in a window. -/
def LimiterState.callsFor (st : LimiterState) (key : Str) (bucket : ℤ)
    (p : CallStatus → Bool) : ℕ :=
  st.calls.countP fun c => c.key = key && c.bucket = bucket && p c.status

/-- The committed increments of a counter. -/
def LimiterState.committedOn (st : LimiterState) (hash : Str) (bucket : ℤ) : ℕ :=
  st.calls.countP fun c => c.on hash bucket && c.status = .committed

/-- The bound of every key in every window, and what the counters say. -/
structure RateLimited (cfg : RateLimits) (st : LimiterState) : Prop where
  /-- The accepted calls stay within the limit, but for those that were rolled back. -/
  bounded : ∀ key bucket, st.callsFor key bucket (fun _ => true) ≤
    (cfg.limit key).toNat + st.callsFor key bucket fun status => status = .undone
  /-- A counter counts the calls that were accepted and committed, until it is deleted. -/
  counted : ∀ hash bucket, st.pruned hash bucket = false →
    (((st.counters hash bucket).stored.map (·.count)).getD 0) = st.committedOn hash bucket
  /-- After a commit, of a check that was accepted or rejected, nothing is left to commit. -/
  settled : ∀ t, (st.sessions t = .settled ∨ ∃ retry, st.sessions t = .rejected retry) →
    ∀ c ∈ st.calls, c.session = t → c.status ≠ .pending

/-- No upsert comes to a window whose counter a cleanup has deleted. -/
def NoLateUpsert (st : LimiterState) : LimiterAction → Prop
  | .step t => ∀ key hash bucket current commit,
      st.sessions t = .upsert key hash bucket current commit → st.pruned hash bucket = false
  | _ => True

/-- The increments of a counter that a session sees. -/
def LimiterState.seenBy (st : LimiterState) (t : ℕ) (hash : Str) (bucket : ℤ) : ℕ :=
  st.calls.countP fun c =>
    c.on hash bucket && (c.status = .committed || (c.status = .pending && c.session = t))

section

variable {cfg : RateLimits} {st st' : LimiterState} {t u : ℕ} {hash key : Str} {bucket : ℤ}
  {c : AcceptedCall} {status : CallStatus}

/-! ## Settled calls -/

@[simp] theorem AcceptedCall.settle_key : (c.settle t status).key = c.key := by
  rw [settle]
  split_ifs <;> rfl

@[simp] theorem AcceptedCall.settle_hash : (c.settle t status).hash = c.hash := by
  rw [settle]
  split_ifs <;> rfl

@[simp] theorem AcceptedCall.settle_bucket : (c.settle t status).bucket = c.bucket := by
  rw [settle]
  split_ifs <;> rfl

@[simp] theorem AcceptedCall.settle_session : (c.settle t status).session = c.session := by
  rw [settle]
  split_ifs <;> rfl

theorem AcceptedCall.settle_of_ne (h : c.status ≠ .pending) : c.settle t status = c := by
  rw [settle, if_neg fun hc => h hc.2]

theorem AcceptedCall.settle_of_session_ne (h : c.session ≠ t) : c.settle t status = c := by
  rw [settle, if_neg fun hc => h hc.1]

theorem AcceptedCall.settle_pending (hs : c.session = t) (hp : c.status = .pending) :
    (c.settle t status).status = status := by
  rw [settle, if_pos ⟨hs, hp⟩]

@[simp] theorem AcceptedCall.settle_on : (c.settle t status).on hash bucket = c.on hash bucket := by
  rw [on, on, settle_hash, settle_bucket]

theorem AcceptedCall.on_iff : c.on hash bucket = true ↔ c.hash = hash ∧ c.bucket = bucket := by
  simp [on]

/-- A call that is pending after a commit or a rollback is one of another session. -/
theorem AcceptedCall.pending_of_settle (hstatus : status ≠ .pending)
    (h : (c.settle t status).status = .pending) : c.session ≠ t ∧ c.status = .pending := by
  by_cases hs : c.session = t
  · by_cases hp : c.status = .pending
    · exact absurd ((settle_pending hs hp).symm.trans h) hstatus
    · rw [settle_of_ne hp] at h
      exact absurd h hp
  · rw [settle_of_session_ne hs] at h
    exact ⟨hs, h⟩

/-! ## The invariant -/

/-- The locks of a session. -/
def SessionOk (cfg : RateLimits) (st : LimiterState) (t : ℕ) : Prop :=
  match st.sessions t with
  | .settled | .rejected _ | .rolledBack | .cleaned => ∀ hash bucket,
      (st.counters hash bucket).Released t
  | .opened | .commit _ => ∀ hash bucket, (st.counters hash bucket).held ≠ some (t, none)
  | .upsert key hash _ _ _ => (∀ hash bucket, (st.counters hash bucket).held ≠ some (t, none)) ∧
      cfg.hashKey key = some hash ∧ 1 ≤ cfg.limit key
  | .cleanup _ => ∀ hash bucket counter,
      (st.counters hash bucket).held ≠ some (t, some counter)

structure LimiterOk (cfg : RateLimits) (st : LimiterState) : Prop where
  hashed : ∀ c ∈ st.calls, cfg.hashKey c.key = some c.hash
  bounded : ∀ key bucket, st.callsFor key bucket (fun status => status ≠ .undone) ≤
    (cfg.limit key).toNat
  stored : ∀ hash bucket counter, (st.counters hash bucket).stored = some counter →
    counter.count = st.committedOn hash bucket
  missing : ∀ hash bucket, (st.counters hash bucket).stored = none →
    st.committedOn hash bucket = 0 ∨ st.pruned hash bucket = true
  /-- A session has the locks of the counters that it has incremented. -/
  locked : ∀ c ∈ st.calls, c.status = .pending →
    ∃ counter, (st.counters c.hash c.bucket).held = some (c.session, some counter)
  held : ∀ hash bucket t counter, (st.counters hash bucket).held = some (t, some counter) →
    counter.count = st.seenBy t hash bucket
  session : ∀ t, SessionOk cfg st t

theorem SessionOk.frame (h : SessionOk cfg st u) (hphase : st'.sessions u = st.sessions u)
    (hheld : ∀ hash bucket v, (st'.counters hash bucket).held = some (u, v) →
      (st.counters hash bucket).held = some (u, v)) : SessionOk cfg st' u := by
  have hreleased : (∀ hash bucket, (st.counters hash bucket).Released u) →
      ∀ hash bucket, (st'.counters hash bucket).Released u :=
    fun hr hash bucket v hv => hr hash bucket v (hheld hash bucket v hv)
  rw [SessionOk, hphase]
  rw [SessionOk] at h
  rcases hp : st.sessions u <;> rw [hp] at h
  case settled => exact hreleased h
  case opened => exact fun hash bucket hv => h hash bucket (hheld hash bucket none hv)
  case upsert => exact ⟨fun hash bucket hv => h.1 hash bucket (hheld hash bucket none hv), h.2⟩
  case commit => exact fun hash bucket hv => h hash bucket (hheld hash bucket none hv)
  case rejected => exact hreleased h
  case rolledBack => exact hreleased h
  case cleanup => exact fun hash bucket counter hv => h hash bucket counter (hheld _ _ _ hv)
  case cleaned => exact hreleased h

/-- A pending increment of a counter belongs to the holder of its lock. -/
theorem LimiterOk.session_of_free (hok : LimiterOk cfg st)
    (hfree : (st.counters hash bucket).free t = true) (hc : c ∈ st.calls)
    (hon : c.on hash bucket = true) (hp : c.status = .pending) : c.session = t := by
  obtain ⟨rfl, rfl⟩ := AcceptedCall.on_iff.mp hon
  obtain ⟨counter, hheld⟩ := hok.locked c hc hp
  by_contra hne
  exact Row.released_of_free_ne hfree hne _ hheld

/-- A session without the lock sees the committed increments. -/
theorem LimiterOk.seenBy_of_released (hok : LimiterOk cfg st)
    (hreleased : (st.counters hash bucket).Released t) :
    st.seenBy t hash bucket = st.committedOn hash bucket := by
  refine List.countP_congr fun c hc => ?_
  have hnot : c.on hash bucket = true → c.status = .pending → c.session ≠ t := by
    rintro hon hp rfl
    obtain ⟨rfl, rfl⟩ := AcceptedCall.on_iff.mp hon
    obtain ⟨counter, hheld⟩ := hok.locked c hc hp
    exact hreleased _ hheld
  simp only [Bool.and_eq_true, Bool.or_eq_true, decide_eq_true_eq]
  constructor
  · rintro ⟨hon, hcommitted | ⟨hp, hs⟩⟩
    · exact ⟨hon, hcommitted⟩
    · exact absurd hs (hnot hon hp)
  · exact fun ⟨hon, hcommitted⟩ => ⟨hon, .inl hcommitted⟩

/-- The count that the upsert finds. -/
theorem LimiterOk.visible (hok : LimiterOk cfg st) {counter : RateCounter}
    (hv : (st.counters hash bucket).visible t = some counter) :
    counter.count = st.seenBy t hash bucket := by
  by_cases hreleased : (st.counters hash bucket).Released t
  · rw [Row.visible_of_released hreleased] at hv
    rw [hok.stored hash bucket counter hv, hok.seenBy_of_released hreleased]
  · rw [Row.Released] at hreleased
    push Not at hreleased
    obtain ⟨v, hheld⟩ := hreleased
    rw [Row.visible_of_held hheld] at hv
    exact hok.held hash bucket t counter (hv ▸ hheld)

/-- No row is found for a counter without increments, unless it has been deleted. -/
theorem LimiterOk.visible_none (hok : LimiterOk cfg st)
    (hv : (st.counters hash bucket).visible t = none)
    (hnone : (st.counters hash bucket).held ≠ some (t, none))
    (hpruned : st.pruned hash bucket = false) : st.seenBy t hash bucket = 0 := by
  by_cases hreleased : (st.counters hash bucket).Released t
  · rw [Row.visible_of_released hreleased] at hv
    rw [hok.seenBy_of_released hreleased]
    rcases hok.missing hash bucket hv with hzero | hdeleted
    · exact hzero
    · exact nomatch hpruned.symm.trans hdeleted
  · rw [Row.Released] at hreleased
    push Not at hreleased
    obtain ⟨v, hheld⟩ := hreleased
    rw [Row.visible_of_held hheld] at hv
    exact absurd (hv ▸ hheld) hnone

/-- The live calls of a key are among the increments of its counter. -/
theorem LimiterOk.callsFor_le_seenBy (hok : LimiterOk cfg st)
    (hfree : (st.counters hash bucket).free t = true) (hkey : cfg.hashKey key = some hash) :
    st.callsFor key bucket (fun status => status ≠ .undone) ≤ st.seenBy t hash bucket := by
  refine List.countP_mono_left fun c hc hlive => ?_
  simp only [Bool.and_eq_true, Bool.or_eq_true, decide_eq_true_eq] at hlive ⊢
  obtain ⟨⟨hk, hb⟩, hstatus⟩ := hlive
  have hon : c.on hash bucket = true :=
    AcceptedCall.on_iff.mpr ⟨Option.some.inj ((hok.hashed c hc).symm.trans (hk ▸ hkey)), hb⟩
  refine ⟨hon, ?_⟩
  rcases hs : c.status
  case pending => exact .inr ⟨rfl, hok.session_of_free hfree hc hon hs⟩
  case committed => exact .inl rfl
  case undone => exact absurd hs hstatus

/-! ## Commits and rollbacks -/

theorem setPhase_of_ne {phase : LimiterPhase} (h : u ≠ t) :
    (st.setPhase t phase).sessions u = st.sessions u := Function.update_of_ne h ..

@[simp] theorem setPhase_self {phase : LimiterPhase} :
    (st.setPhase t phase).sessions t = phase := Function.update_self ..

/-- A session that has ended its transaction. -/
theorem sessionOk_released {phase : LimiterPhase}
    (hphase : phase = .settled ∨ (∃ retry, phase = .rejected retry) ∨ phase = .rolledBack ∨
      phase = .cleaned) (hst : st.sessions t = phase)
    (hreleased : ∀ hash bucket, (st.counters hash bucket).Released t) : SessionOk cfg st t := by
  rw [SessionOk, hst]
  rcases hphase with rfl | ⟨retry, rfl⟩ | rfl | rfl <;> exact hreleased

/-- A pending call of another session after a commit or a rollback. -/
theorem LimiterOk.locked_settle (hok : LimiterOk cfg st) (hstatus : status ≠ .pending)
    (hc : c ∈ st.calls.map (AcceptedCall.settle t status)) (hp : c.status = .pending) :
    c ∈ st.calls ∧ c.session ≠ t ∧
      ∃ counter, (st.counters c.hash c.bucket).held = some (c.session, some counter) := by
  obtain ⟨b, hb, rfl⟩ := List.mem_map.mp hc
  obtain ⟨hs, hp'⟩ := AcceptedCall.pending_of_settle hstatus hp
  rw [AcceptedCall.settle_of_session_ne hs]
  exact ⟨hb, hs, hok.locked b hb hp'⟩

/-- After its commit the increments of a session are committed. -/
theorem committedOn_commit {phase : LimiterPhase} :
    (st.commitSession t phase).committedOn hash bucket = st.seenBy t hash bucket := by
  have hcount : (st.calls.map (AcceptedCall.settle t .committed)).countP
      (fun c => c.on hash bucket && c.status = .committed) = st.seenBy t hash bucket := by
    rw [List.countP_map]
    refine List.countP_congr fun c _ => ?_
    simp only [Function.comp_apply, AcceptedCall.settle_on, Bool.and_eq_true, Bool.or_eq_true,
      decide_eq_true_eq]
    refine and_congr_right fun _ => ?_
    by_cases hp : c.status = .pending
    · by_cases hs : c.session = t
      · simp [AcceptedCall.settle_pending hs hp, hp, hs]
      · simp [AcceptedCall.settle_of_session_ne hs, hp, hs]
    · simp [AcceptedCall.settle_of_ne hp, hp]
  exact hcount

/-- Another session sees the same increments of a counter that it has locked. -/
theorem LimiterOk.seenBy_settle (hok : LimiterOk cfg st) {v : Option RateCounter}
    (hheld : (st.counters hash bucket).held = some (u, v)) (hu : u ≠ t) :
    (st.calls.map (AcceptedCall.settle t status)).countP (fun c => c.on hash bucket &&
        (c.status = .committed || (c.status = .pending && c.session = u))) =
      st.seenBy u hash bucket := by
  rw [List.countP_map]
  refine List.countP_congr fun c hc => ?_
  simp only [Function.comp_apply, AcceptedCall.settle_on, AcceptedCall.settle_session,
    Bool.and_eq_true, Bool.or_eq_true, decide_eq_true_eq]
  refine and_congr_right fun hon => ?_
  obtain ⟨rfl, rfl⟩ := AcceptedCall.on_iff.mp hon
  by_cases hs : c.session = t
  · have hp : c.status ≠ .pending := by
      intro hp
      obtain ⟨counter, hheld'⟩ := hok.locked c hc hp
      exact hu ((Prod.mk.inj (Option.some.inj (hheld.symm.trans hheld'))).1.trans hs)
    rw [AcceptedCall.settle_of_ne hp]
  · rw [AcceptedCall.settle_of_session_ne hs]

theorem LimiterOk.commit (hok : LimiterOk cfg st) {phase : LimiterPhase}
    (hphase : phase = .settled ∨ (∃ retry, phase = .rejected retry) ∨ phase = .rolledBack ∨
      phase = .cleaned) : LimiterOk cfg (st.commitSession t phase) := by
  refine ⟨fun c hc => ?_, fun key bucket => ?_, fun hash bucket counter hs => ?_,
    fun hash bucket hs => ?_, fun c hc hp => ?_, fun hash bucket u counter hheld => ?_,
    fun u => ?_⟩
  · obtain ⟨b, hb, rfl⟩ := List.mem_map.mp hc
    rw [AcceptedCall.settle_key, AcceptedCall.settle_hash]
    exact hok.hashed b hb
  · refine le_trans ?_ (hok.bounded key bucket)
    change (st.calls.map (AcceptedCall.settle t .committed)).countP _ ≤ _
    rw [List.countP_map]
    refine List.countP_mono_left fun c _ hlive => ?_
    simp only [Function.comp_apply, AcceptedCall.settle_key, AcceptedCall.settle_bucket,
      Bool.and_eq_true, decide_eq_true_eq] at hlive ⊢
    refine ⟨hlive.1, fun hundone => ?_⟩
    rw [AcceptedCall.settle_of_ne (by simp [hundone])] at hlive
    exact hlive.2 hundone
  · rw [committedOn_commit]
    rcases (st.counters hash bucket).commit_cases t with ⟨hreleased, heq⟩ | ⟨v, hv, heq⟩
    · rw [hok.seenBy_of_released hreleased]
      exact hok.stored hash bucket counter ((congrArg Row.stored heq).symm.trans hs)
    · have hcounter : v = some counter := (congrArg Row.stored heq).symm.trans hs
      exact hok.held hash bucket t counter (hcounter ▸ hv)
  · rw [committedOn_commit]
    rcases (st.counters hash bucket).commit_cases t with ⟨hreleased, heq⟩ | ⟨v, hv, heq⟩
    · rw [hok.seenBy_of_released hreleased]
      refine (hok.missing hash bucket ((congrArg Row.stored heq).symm.trans hs)).imp id
        fun hpruned => ?_
      exact Bool.or_eq_true_iff.mpr (.inl hpruned)
    · have hnone : v = none := (congrArg Row.stored heq).symm.trans hs
      exact .inr (Bool.or_eq_true_iff.mpr (.inr (decide_eq_true (hnone ▸ hv))))
  · obtain ⟨-, hne, counter, hheld⟩ :=
      hok.locked_settle (by decide : CallStatus.committed ≠ .pending) hc hp
    refine ⟨counter, ?_⟩
    have hreleased := Row.released_of_held_ne hheld hne
    exact (congrArg Row.held (Row.commit_of_released hreleased)).trans hheld
  · have hbefore := Row.held_of_commit hheld
    have hu : u ≠ t := by
      rintro rfl
      exact Row.released_commit _ u _ hheld
    rw [hok.held hash bucket u counter hbefore]
    exact congrArg Nat.cast (hok.seenBy_settle hbefore hu).symm
  · by_cases hu : u = t
    · subst hu
      exact sessionOk_released hphase setPhase_self
        fun hash bucket => Row.released_commit (st.counters hash bucket) u
    · exact (hok.session u).frame (setPhase_of_ne hu) fun _ _ _ hv => Row.held_of_commit hv

theorem LimiterOk.rollback (hok : LimiterOk cfg st) : LimiterOk cfg (st.rollbackSession t) := by
  have hcommitted : ∀ hash bucket, (st.rollbackSession t).committedOn hash bucket =
      st.committedOn hash bucket := by
    intro hash bucket
    change (st.calls.map (AcceptedCall.settle t .undone)).countP _ = _
    rw [List.countP_map]
    refine List.countP_congr fun c _ => ?_
    simp only [Function.comp_apply, AcceptedCall.settle_on, Bool.and_eq_true, decide_eq_true_eq]
    refine and_congr_right fun _ => ?_
    by_cases hp : c.status = .pending
    · by_cases hs : c.session = t
      · simp [AcceptedCall.settle_pending hs hp, hp]
      · rw [AcceptedCall.settle_of_session_ne hs]
    · rw [AcceptedCall.settle_of_ne hp]
  refine ⟨fun c hc => ?_, fun key bucket => ?_, fun hash bucket counter hs => ?_,
    fun hash bucket hs => ?_, fun c hc hp => ?_, fun hash bucket u counter hheld => ?_,
    fun u => ?_⟩
  · obtain ⟨b, hb, rfl⟩ := List.mem_map.mp hc
    rw [AcceptedCall.settle_key, AcceptedCall.settle_hash]
    exact hok.hashed b hb
  · refine le_trans ?_ (hok.bounded key bucket)
    change (st.calls.map (AcceptedCall.settle t .undone)).countP _ ≤ _
    rw [List.countP_map]
    refine List.countP_mono_left fun c _ hlive => ?_
    simp only [Function.comp_apply, AcceptedCall.settle_key, AcceptedCall.settle_bucket,
      Bool.and_eq_true, decide_eq_true_eq] at hlive ⊢
    refine ⟨hlive.1, fun hundone => ?_⟩
    rw [AcceptedCall.settle_of_ne (by simp [hundone])] at hlive
    exact hlive.2 hundone
  · rw [hcommitted]
    exact hok.stored hash bucket counter (Row.rollback_stored.symm.trans hs)
  · rw [hcommitted]
    exact hok.missing hash bucket (Row.rollback_stored.symm.trans hs)
  · obtain ⟨-, hne, counter, hheld⟩ :=
      hok.locked_settle (by decide : CallStatus.undone ≠ .pending) hc hp
    refine ⟨counter, ?_⟩
    rcases (st.counters c.hash c.bucket).rollback_cases t with ⟨-, heq⟩ | heq
    · exact (congrArg Row.held heq).trans hheld
    · rcases Row.onlyBy_rollback (st.counters c.hash c.bucket) t with heq' | hreleased
      · exact (congrArg Row.held heq').trans hheld
      · exact absurd hheld ((hreleased c.session hne).1 _)
  · have hbefore := Row.held_of_rollback hheld
    have hu : u ≠ t := by
      rintro rfl
      exact Row.released_rollback _ u _ hheld
    rw [hok.held hash bucket u counter hbefore]
    exact congrArg Nat.cast (hok.seenBy_settle hbefore hu).symm
  · by_cases hu : u = t
    · subst hu
      exact sessionOk_released (.inr (.inr (.inl rfl))) setPhase_self
        fun hash bucket => Row.released_rollback (st.counters hash bucket) u
    · exact (hok.session u).frame (setPhase_of_ne hu) fun _ _ _ hv => Row.held_of_rollback hv

/-! ## Writes under a lock -/

theorem setCounter_self {row : Row ℕ (Option RateCounter)} :
    (st.setCounter hash bucket row).counters hash bucket = row := by
  unfold LimiterState.setCounter
  dsimp only
  rw [Function.update_self, Function.update_self]

theorem setCounter_of_ne {row : Row ℕ (Option RateCounter)} {k : Str} {b : ℤ}
    (h : ¬ (k = hash ∧ b = bucket)) :
    (st.setCounter hash bucket row).counters k b = st.counters k b := by
  unfold LimiterState.setCounter
  dsimp only
  by_cases hk : k = hash
  · subst hk
    rw [Function.update_self, Function.update_of_ne fun hb => h ⟨rfl, hb⟩]
  · rw [Function.update_of_ne hk]

theorem setCounter_stored {v : Option RateCounter} (k : Str) (b : ℤ) :
    ((st.setCounter hash bucket ((st.counters hash bucket).put t v)).counters k b).stored =
      (st.counters k b).stored := by
  by_cases h : k = hash ∧ b = bucket
  · obtain ⟨rfl, rfl⟩ := h
    rw [setCounter_self, Row.put_stored]
  · rw [setCounter_of_ne h]

/-- A write under the lock of a session, with the call that it accepts. -/
theorem LimiterOk.put (hok : LimiterOk cfg st) {v : Option RateCounter}
    (more : List AcceptedCall) (hfree : (st.counters hash bucket).free t = true)
    (hcounters : st'.counters =
      (st.setCounter hash bucket ((st.counters hash bucket).put t v)).counters)
    (hcalls : st'.calls = st.calls ++ more) (hpruned : st'.pruned = st.pruned)
    (hsessions : ∀ u, u ≠ t → st'.sessions u = st.sessions u)
    (hmore : ∀ c ∈ more, c.on hash bucket = true ∧ c.session = t ∧ c.status = .pending ∧
      cfg.hashKey c.key = some c.hash)
    (hbounded : ∀ key bucket, st'.callsFor key bucket (fun status => status ≠ .undone) ≤
      (cfg.limit key).toNat)
    (hv : ∀ counter, v = some counter →
      counter.count = st.seenBy t hash bucket + more.length)
    (hnone : v = none → more = [] ∧ ∀ c ∈ st.calls, c.on hash bucket = true →
      c.status ≠ .pending) (hsession : SessionOk cfg st' t) : LimiterOk cfg st' := by
  have hcommitted : ∀ k b, st'.committedOn k b = st.committedOn k b := by
    intro k b
    rw [LimiterState.committedOn, hcalls, List.countP_append]
    have hzero : more.countP (fun c => c.on k b && c.status = .committed) = 0 := by
      refine List.countP_eq_zero.mpr fun c hc => ?_
      simp [(hmore c hc).2.2.1]
    rw [hzero]
    rfl
  have hother : ∀ u k b, ¬ (k = hash ∧ b = bucket) → st'.seenBy u k b = st.seenBy u k b := by
    intro u k b hne
    rw [LimiterState.seenBy, hcalls, List.countP_append]
    have hzero : more.countP (fun c => c.on k b &&
        (c.status = .committed || (c.status = .pending && c.session = u))) = 0 := by
      refine List.countP_eq_zero.mpr fun c hc => ?_
      have hon := AcceptedCall.on_iff.mp (hmore c hc).1
      have hnot : c.on k b = false := by
        rw [Bool.eq_false_iff]
        intro hkb
        obtain ⟨rfl, rfl⟩ := AcceptedCall.on_iff.mp hkb
        exact hne hon
      simp [hnot]
    rw [hzero]
    rfl
  refine ⟨fun c hc => ?_, hbounded, fun k b counter hs => ?_, fun k b hs => ?_,
    fun c hc hp => ?_, fun k b u counter hheld => ?_, fun u => ?_⟩
  · rw [hcalls, List.mem_append] at hc
    rcases hc with hc | hc
    · exact hok.hashed c hc
    · exact (hmore c hc).2.2.2
  · rw [hcounters, setCounter_stored] at hs
    rw [hcommitted]
    exact hok.stored k b counter hs
  · rw [hcounters, setCounter_stored] at hs
    rw [hcommitted, hpruned]
    exact hok.missing k b hs
  · rw [hcounters]
    rw [hcalls, List.mem_append] at hc
    by_cases hon : c.hash = hash ∧ c.bucket = bucket
    · have hs : c.session = t := by
        rcases hc with hc | hc
        · exact hok.session_of_free hfree hc (AcceptedCall.on_iff.mpr hon) hp
        · exact (hmore c hc).2.1
      rw [hon.1, hon.2, setCounter_self, Row.put_held, hs]
      rcases v with _ | counter
      · obtain ⟨rfl, hidle⟩ := hnone rfl
        rcases hc with hc | hc
        · exact absurd hp (hidle c hc (AcceptedCall.on_iff.mpr hon))
        · exact absurd hc List.not_mem_nil
      · exact ⟨counter, rfl⟩
    · rw [setCounter_of_ne hon]
      rcases hc with hc | hc
      · exact hok.locked c hc hp
      · exact absurd (AcceptedCall.on_iff.mp (hmore c hc).1) hon
  · rw [hcounters] at hheld
    by_cases hkb : k = hash ∧ b = bucket
    · obtain ⟨rfl, rfl⟩ := hkb
      rw [setCounter_self, Row.put_held] at hheld
      obtain ⟨rfl, hcounter⟩ := Prod.mk.inj (Option.some.inj hheld)
      rw [hv counter hcounter, LimiterState.seenBy, LimiterState.seenBy, hcalls,
        List.countP_append]
      have hall : more.countP (fun c => c.on k b &&
          (c.status = .committed || (c.status = .pending && c.session = t))) = more.length := by
        refine List.countP_eq_length.mpr fun c hc => ?_
        obtain ⟨hon, hs, hp, -⟩ := hmore c hc
        simp [hon, hs, hp]
      rw [hall, Nat.cast_add]
    · rw [setCounter_of_ne hkb] at hheld
      rw [hother u k b hkb]
      exact hok.held k b u counter hheld
  · by_cases hu : u = t
    · exact hu ▸ hsession
    · refine (hok.session u).frame (hsessions u hu) fun k b w hw => ?_
      rw [hcounters] at hw
      by_cases hkb : k = hash ∧ b = bucket
      · obtain ⟨rfl, rfl⟩ := hkb
        rw [setCounter_self, Row.put_held] at hw
        exact absurd (Prod.mk.inj (Option.some.inj hw)).1.symm hu
      · rwa [setCounter_of_ne hkb] at hw

/-! ## Runs -/

theorem LimiterOk.setPhase (hok : LimiterOk cfg st) {phase : LimiterPhase}
    (hsession : SessionOk cfg (st.setPhase t phase) t) : LimiterOk cfg (st.setPhase t phase) := by
  refine ⟨hok.hashed, hok.bounded, hok.stored, hok.missing, hok.locked, hok.held, fun u => ?_⟩
  by_cases hu : u = t
  · exact hu ▸ hsession
  · exact (hok.session u).frame (setPhase_of_ne hu) fun _ _ _ hv => hv

/-- A session without the lock of a row that it has deleted. -/
theorem SessionOk.held_ne (h : SessionOk cfg st t)
    (hphase : ∀ current, st.sessions t ≠ .cleanup current) (hash : Str) (bucket : ℤ) :
    (st.counters hash bucket).held ≠ some (t, none) := by
  rw [SessionOk] at h
  rcases hp : st.sessions t <;> rw [hp] at h
  case settled => exact h hash bucket none
  case opened => exact h hash bucket
  case upsert => exact h.1 hash bucket
  case commit => exact h hash bucket
  case rejected => exact h hash bucket none
  case rolledBack => exact h hash bucket none
  case cleanup current => exact absurd hp (hphase current)
  case cleaned => exact h hash bucket none

/-- The accepted call stays within the limit of its key. -/
theorem LimiterOk.bounded_accept (hok : LimiterOk cfg st)
    (hfree : (st.counters hash bucket).free t = true) (hkey : cfg.hashKey key = some hash)
    (hlimit : (st.seenBy t hash bucket : ℤ) < cfg.limit key) (key' : Str) (bucket' : ℤ) :
    (st.calls ++ [AcceptedCall.mk t key hash bucket .pending]).countP (fun c =>
      c.key = key' && c.bucket = bucket' && c.status ≠ .undone) ≤ (cfg.limit key').toNat := by
  rw [List.countP_append]
  by_cases hsame : key = key' ∧ bucket = bucket'
  · obtain ⟨rfl, rfl⟩ := hsame
    have hle := hok.callsFor_le_seenBy hfree hkey
    have hone : [AcceptedCall.mk t key hash bucket .pending].countP (fun c =>
        c.key = key && c.bucket = bucket && c.status ≠ .undone) = 1 := by simp
    rw [hone]
    change st.callsFor key bucket (fun status => status ≠ .undone) + 1 ≤ _
    omega
  · have hzero : [AcceptedCall.mk t key hash bucket .pending].countP (fun c =>
        c.key = key' && c.bucket = bucket' && c.status ≠ .undone) = 0 := by
      refine List.countP_eq_zero.mpr fun c hc => ?_
      rw [List.mem_singleton.mp hc]
      simpa using hsame
    rw [hzero]
    exact hok.bounded key' bucket'

/-- The upsert has counted a call. -/
theorem LimiterOk.accept (hok : LimiterOk cfg st) {current : ℤ} {commit : Bool}
    (hphase : st.sessions t = .upsert key hash bucket current commit)
    (hfree : (st.counters hash bucket).free t = true) {counter : RateCounter}
    (hcount : counter.count = st.seenBy t hash bucket + 1)
    (hlimit : (st.seenBy t hash bucket : ℤ) < cfg.limit key) :
    LimiterOk cfg ((st.setCounter hash bucket ((st.counters hash bucket).put t
      (some counter))).accept t key hash bucket commit) := by
  have hsession := hok.session t
  have hnot := hsession.held_ne fun current' hp => nomatch hphase.symm.trans hp
  rw [SessionOk, hphase] at hsession
  obtain ⟨-, hkey, -⟩ := hsession
  refine hok.put [⟨t, key, hash, bucket, .pending⟩] hfree rfl rfl rfl
    (fun u hu => setPhase_of_ne hu) ?_ (hok.bounded_accept hfree hkey hlimit) ?_ nofun ?_
  · intro c hc
    rw [List.mem_singleton.mp hc]
    exact ⟨AcceptedCall.on_iff.mpr ⟨rfl, rfl⟩, rfl, rfl, hkey⟩
  · intro counter' heq
    obtain rfl := Option.some.inj heq
    exact hcount
  · have hheld : ∀ k b, ((st.setCounter hash bucket ((st.counters hash bucket).put t
        (some counter))).counters k b).held ≠ some (t, none) := by
      intro k b
      by_cases hkb : k = hash ∧ b = bucket
      · obtain ⟨rfl, rfl⟩ := hkb
        rw [setCounter_self, Row.put_held]
        exact nofun
      · rw [setCounter_of_ne hkb]
        exact hnot k b
    rw [SessionOk, LimiterState.accept, setPhase_self]
    split_ifs
    · exact hheld
    · exact hheld

/-- The upsert has locked a counter that is at its limit. -/
theorem LimiterOk.reject (hok : LimiterOk cfg st) {current retry : ℤ} {commit : Bool}
    (hphase : st.sessions t = .upsert key hash bucket current commit)
    (hfree : (st.counters hash bucket).free t = true) {counter : RateCounter}
    (hcount : counter.count = st.seenBy t hash bucket) :
    LimiterOk cfg ((st.setCounter hash bucket ((st.counters hash bucket).put t
      (some counter))).setPhase t (.commit (some retry))) := by
  have hnot := (hok.session t).held_ne fun current' hp => nomatch hphase.symm.trans hp
  refine hok.put [] hfree rfl (List.append_nil _).symm rfl
    (fun u hu => setPhase_of_ne hu) (fun c hc => absurd hc List.not_mem_nil) hok.bounded ?_
    nofun ?_
  · intro counter' heq
    obtain rfl := Option.some.inj heq
    rw [hcount, List.length_nil, Nat.cast_zero, Int.add_zero]
  · rw [SessionOk, setPhase_self]
    intro k b
    change ((st.setCounter hash bucket ((st.counters hash bucket).put t
      (some counter))).counters k b).held ≠ _
    by_cases hkb : k = hash ∧ b = bucket
    · obtain ⟨rfl, rfl⟩ := hkb
      rw [setCounter_self, Row.put_held]
      exact nofun
    · rw [setCounter_of_ne hkb]
      exact hnot k b

theorem LimiterOk.upsert (hok : LimiterOk cfg st) {current : ℤ} {commit : Bool}
    (hphase : st.sessions t = .upsert key hash bucket current commit)
    (hpruned : st.pruned hash bucket = false) :
    LimiterOk cfg (upsertCounter cfg st t key hash bucket current commit) := by
  rw [upsertCounter]
  split_ifs with hfree
  · rcases hv : (st.counters hash bucket).visible t with _ | counter
    · have hnot := (hok.session t).held_ne (by simp [hphase]) hash bucket
      have hzero := hok.visible_none hv hnot hpruned
      have hsession := hok.session t
      rw [SessionOk, hphase] at hsession
      refine hok.accept hphase hfree ?_ ?_
      · rw [hzero]
        rfl
      · rw [hzero]
        exact Int.lt_of_lt_of_le zero_lt_one hsession.2.2
    · have hcount := hok.visible hv
      dsimp only
      split_ifs with hlimit
      · exact hok.accept hphase hfree (by rw [hcount]) (hcount ▸ hlimit)
      · exact hok.reject hphase hfree hcount
  · exact hok

theorem LimiterOk.prune (hok : LimiterOk cfg st) {current : ℤ}
    (hphase : st.sessions t = .cleanup current) :
    LimiterOk cfg (pruneStep st t hash bucket current) := by
  rw [pruneStep]
  rcases hupdate : (st.counters hash bucket).update t (counterExpired current) fun _ => none with
    _ | ⟨row, hit⟩
  · exact hok
  dsimp only
  rcases Row.update_eq_some hupdate with ⟨-, rfl, -⟩ | ⟨-, rfl, -, hfree⟩
  · have heq : st.setCounter hash bucket (st.counters hash bucket) = st := by
      rw [LimiterState.setCounter, Function.update_eq_self, Function.update_eq_self]
    rw [heq]
    exact hok
  · have hsession := hok.session t
    rw [SessionOk, hphase] at hsession
    refine hok.put [] hfree rfl (List.append_nil _).symm rfl (fun _ _ => rfl)
      (fun c hc => absurd hc List.not_mem_nil) hok.bounded nofun (fun _ => ⟨rfl, ?_⟩) ?_
    · rintro c hc hon hp
      obtain ⟨rfl, rfl⟩ := AcceptedCall.on_iff.mp hon
      obtain ⟨counter, hheld⟩ := hok.locked c hc hp
      rw [hok.session_of_free hfree hc hon hp] at hheld
      exact hsession _ _ counter hheld
    · have hp : (st.setCounter hash bucket ((st.counters hash bucket).put t none)).sessions t =
          .cleanup current := hphase
      rw [SessionOk, hp]
      intro k b counter
      by_cases hkb : k = hash ∧ b = bucket
      · obtain ⟨rfl, rfl⟩ := hkb
        rw [setCounter_self, Row.put_held]
        exact nofun
      · rw [setCounter_of_ne hkb]
        exact hsession k b counter

theorem LimiterOk.check (hok : LimiterOk cfg st) (commit : Bool)
    (hphase : ∀ current, st.sessions t ≠ .cleanup current) :
    LimiterOk cfg (checkStep cfg st t key commit) := by
  rw [checkStep]
  split_ifs with hbad
  · exact hok.rollback
  · rcases hkey : cfg.hashKey key with _ | hash
    · exact hok.rollback
    · refine hok.setPhase ?_
      rw [SessionOk, setPhase_self]
      refine ⟨(hok.session t).held_ne hphase, hkey, ?_⟩
      omega

theorem LimiterOk.act {a : LimiterAction} (hok : LimiterOk cfg st) (ha : NoLateUpsert st a) :
    LimiterOk cfg (limiterAct cfg st a) := by
  rcases a with d | ⟨t, key, commit⟩ | t | t | t | t | ⟨t, hash, bucket⟩
  case tick =>
    exact ⟨hok.hashed, hok.bounded, hok.stored, hok.missing, hok.locked, hok.held,
      fun u => (hok.session u).frame rfl fun _ _ _ hv => hv⟩
  case check =>
    rcases hp : st.sessions t <;> simp only [limiterAct, hp]
    case settled => exact hok.check commit fun _ h => nomatch hp.symm.trans h
    case opened => exact hok.check commit fun _ h => nomatch hp.symm.trans h
    all_goals exact hok
  case step =>
    rcases hp : st.sessions t <;> simp only [limiterAct, limiterStep, hp]
    case upsert key hash bucket current commit =>
      exact hok.upsert hp (ha key hash bucket current commit hp)
    case commit retry =>
      rcases retry with _ | retry
      · exact hok.commit (.inl rfl)
      · exact hok.commit (.inr (.inl ⟨retry, rfl⟩))
    case cleanup => exact hok.commit (.inr (.inr (.inr rfl)))
    all_goals exact hok
  case commit =>
    rcases hp : st.sessions t <;> simp only [limiterAct, hp]
    case settled => exact hok.commit (.inl rfl)
    case opened => exact hok.commit (.inl rfl)
    all_goals exact hok
  case rollback =>
    rcases hp : st.sessions t <;> simp only [limiterAct, hp]
    case rejected => exact hok
    case rolledBack => exact hok
    case cleaned => exact hok
    all_goals exact hok.rollback
  case cleanup =>
    rcases hp : st.sessions t <;> simp only [limiterAct, hp]
    case settled =>
      refine hok.setPhase ?_
      have hsession := hok.session t
      rw [SessionOk, hp] at hsession
      rw [SessionOk, setPhase_self]
      exact fun hash bucket counter => hsession hash bucket (some counter)
    all_goals exact hok
  case prune =>
    rcases hp : st.sessions t <;> simp only [limiterAct, hp]
    case cleanup current => exact hok.prune hp
    all_goals exact hok

theorem limiterOk_start {now : ℤ} : LimiterOk cfg (.start now) where
  hashed := fun _ hc => absurd hc List.not_mem_nil
  bounded := fun _ _ => Nat.zero_le _
  stored := fun _ _ _ hs => nomatch hs
  missing := fun _ _ _ => .inl rfl
  locked := fun _ hc => absurd hc List.not_mem_nil
  held := fun _ _ _ _ hheld => nomatch hheld
  session := fun _ _ _ _ hheld => nomatch hheld

/-- An accepted call is live or has been undone. -/
theorem callsFor_split (key : Str) (bucket : ℤ) :
    st.callsFor key bucket (fun _ => true) =
      st.callsFor key bucket (fun status => status ≠ .undone) +
        st.callsFor key bucket fun status => status = .undone := by
  simp only [LimiterState.callsFor]
  rw [List.countP_eq_countP_filter_add st.calls _ fun c => decide (c.status ≠ .undone),
    List.countP_filter, List.countP_filter]
  refine congrArg₂ (· + ·) (List.countP_congr fun c _ => ?_) (List.countP_congr fun c _ => ?_)
  · simp
  · simp

theorem LimiterOk.limited (hok : LimiterOk cfg st) : RateLimited cfg st := by
  refine ⟨fun key bucket => ?_, fun hash bucket hpruned => ?_, fun t hphase c hc hs hp => ?_⟩
  · rw [callsFor_split]
    exact Nat.add_le_add_right (hok.bounded key bucket) _
  · rcases hs : (st.counters hash bucket).stored with _ | counter
    · rcases hok.missing hash bucket hs with hzero | hdeleted
      · rw [hzero]
        rfl
      · exact nomatch hpruned.symm.trans hdeleted
    · exact hok.stored hash bucket counter hs
  · obtain ⟨counter, hheld⟩ := hok.locked c hc hp
    have hsession := hok.session t
    rw [SessionOk] at hsession
    rcases hphase with hphase | ⟨retry, hphase⟩
    · rw [hphase] at hsession
      exact hsession _ _ _ (hs ▸ hheld)
    · rw [hphase] at hsession
      exact hsession _ _ _ (hs ▸ hheld)

/-- A committed call stays committed. -/
theorem committed_act (a : LimiterAction) (hc : c ∈ st.calls) (hs : c.status = .committed) :
    c ∈ (limiterAct cfg st a).calls := by
  have hsettle : ∀ t status, c ∈ st.calls.map (AcceptedCall.settle t status) := fun t status =>
    List.mem_map.mpr ⟨c, hc, AcceptedCall.settle_of_ne (by simp [hs])⟩
  have haccept : ∀ t key hash bucket row commit, c ∈ ((st.setCounter hash bucket row).accept t
      key hash bucket commit).calls := fun _ _ _ _ _ _ => List.mem_append_left _ hc
  rcases a with d | ⟨t, key, commit⟩ | t | t | t | t | ⟨t, hash, bucket⟩
  case tick => exact hc
  case check =>
    rcases hp : st.sessions t <;> simp only [limiterAct, hp] <;> try exact hc
    all_goals
      rw [checkStep]
      split_ifs
      · exact hsettle t .undone
      · rcases cfg.hashKey key with _ | hash
        · exact hsettle t .undone
        · exact hc
  case step =>
    rcases hp : st.sessions t <;> simp only [limiterAct, limiterStep, hp] <;> try exact hc
    case upsert key hash bucket current commit =>
      rw [upsertCounter]
      split_ifs
      · rcases (st.counters hash bucket).visible t with _ | counter
        · exact haccept ..
        · dsimp only
          split_ifs
          · exact haccept ..
          · exact hc
      · exact hc
    case commit retry => rcases retry <;> exact hsettle t .committed
    case cleanup => exact hsettle t .committed
  case commit =>
    rcases hp : st.sessions t <;> simp only [limiterAct, hp] <;> try exact hc
    all_goals exact hsettle t .committed
  case rollback =>
    rcases hp : st.sessions t <;> simp only [limiterAct, hp] <;> try exact hc
    all_goals exact hsettle t .undone
  case cleanup => rcases hp : st.sessions t <;> simp only [limiterAct, hp] <;> exact hc
  case prune =>
    rcases hp : st.sessions t <;> simp only [limiterAct, hp] <;> try exact hc
    rw [pruneStep]
    split <;> exact hc

end

/-! ## A call across the end of its window -/

/-- One call a minute. -/
def onePerMinute : RateLimits := ⟨[], fun _ => 1, fun _ => 60⟩

/-- Two calls read the clock in one window.  The counter of the first is deleted when the
window has ended, and then the second one executes its upsert. -/
def lateUpsert : List LimiterAction :=
  [.check 0 (lit "k") true, .check 1 (lit "k") true, .step 0, .step 0, .tick 60000000,
    .cleanup 2, .prune 2 (hmacSha256Hex [] (asciiBytes (lit "k"))) 0, .step 2, .step 1, .step 1]

end PromptCode
