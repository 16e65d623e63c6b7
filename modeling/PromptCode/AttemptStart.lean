import PromptCode.EvaluationQueue
import PromptCode.RowLock
import PromptCode.SessionTimer
import Mathlib.Data.List.Sort

/-!
# Starting an attempt

`start_session` against the routes that change the status of a session.  A start takes the
advisory lock of its user, locks the attempts that are still open, expires those that are
due and returns one that is not, or counts the attempts and inserts the next one.  The other
routes change a row under its lock, except the reads that expire what they have loaded.
-/

namespace PromptCode

open Py Transition

/-! ## Rows -/

inductive SessionClient where
  | start (t : ℕ)
  | route (w : ℕ)
  deriving DecidableEq

structure AttemptKey where
  user : ℕ
  challengeSlug : Str
  deriving DecidableEq

structure Attempt where
  session : TimedSession
  attemptNumber : ℕ
  deriving DecidableEq

/-- The status is `created` or `active`. -/
def Attempt.isOpen (a : Attempt) : Bool := a.session.status.isMutable

/-- The committed rows in the order of their commits. -/
abbrev AttemptTable := List (AttemptKey × Row SessionClient Attempt)

/-- The `UPDATE` by primary key of a session that was loaded and then changed. -/
def TimedSession.flush (row loaded new : TimedSession) : TimedSession where
  status := flushed row.status loaded.status new.status
  timerElapsedMs := flushed row.timerElapsedMs loaded.timerElapsedMs new.timerElapsedMs
  timerLastSeenAt := flushed row.timerLastSeenAt loaded.timerLastSeenAt new.timerLastSeenAt
  timerEditorToken := flushed row.timerEditorToken loaded.timerEditorToken new.timerEditorToken
  activeDurationMs := flushed row.activeDurationMs loaded.activeDurationMs new.activeDurationMs
  infraBlockedMs := flushed row.infraBlockedMs loaded.infraBlockedMs new.infraBlockedMs
  startedAt := flushed row.startedAt loaded.startedAt new.startedAt
  submittedAt := flushed row.submittedAt loaded.submittedAt new.submittedAt
  expiresAt := flushed row.expiresAt loaded.expiresAt new.expiresAt

/-! ## Clients -/

/-- The statement that a start comes to next. -/
inductive StartPhase where
  /-- `pg_advisory_xact_lock` -/
  | advisory
  /-- `SELECT .. FOR UPDATE` of the open attempts, with those that it has locked. -/
  | select (taken : List ℕ)
  /-- The loop over the open attempts. -/
  | review (rest : List ℕ)
  | count
  | workspace (attempt : ℕ)
  | insert (attempt : ℕ)
  | commit (attempt : Attempt)

structure StartRequest where
  key : AttemptKey
  phase : StartPhase

/-- Where another route is with one session. -/
inductive RoutePhase where
  | idle
  /-- It holds the lock of the row. -/
  | locked (i : ℕ)
  /-- It has loaded the row without a lock and expired its copy if that was due. -/
  | loaded (i : ℕ) (session expired : TimedSession)

inductive StartAnswer where
  | existing (key : AttemptKey) (i : ℕ)
  | created (key : AttemptKey) (attempt : ℕ)

structure AttemptHost where
  attempts : AttemptTable
  /-- The start that holds the advisory lock with this number. -/
  startLocks : ℕ → Option ℕ
  starts : ℕ → Option StartRequest
  routes : ℕ → RoutePhase
  answers : List StartAnswer

namespace AttemptHost

variable (h : AttemptHost) (t i : ℕ)

def setRow (r : Row SessionClient Attempt) : AttemptTable :=
  h.attempts.modify i fun e => (e.1, r)

def gotoStart (key : AttemptKey) (p : StartPhase) : AttemptHost :=
  { h with starts := Function.update h.starts t (some ⟨key, p⟩) }

def gotoRoute (w : ℕ) (p : RoutePhase) : AttemptHost :=
  { h with routes := Function.update h.routes w p }

/-- The end of a start's transaction. -/
def leaveStart : AttemptHost :=
  { h with
    startLocks := fun n => if h.startLocks n = some t then none else h.startLocks n
    starts := Function.update h.starts t none }

def commitRows (c : SessionClient) : AttemptTable :=
  h.attempts.map fun e => (e.1, e.2.commit c)

def rollbackStart : AttemptHost :=
  { h.leaveStart t with
    attempts := h.attempts.map fun e => (e.1, e.2.rollback (.start t)) }

/-- The attempts of a user on a challenge. -/
def size (key : AttemptKey) : ℕ := h.attempts.countP fun e => e.1 = key

/-- The next row that the select of the open attempts finds. -/
def nextOpen (key : AttemptKey) (taken : List ℕ) : Option ℕ :=
  (List.range h.attempts.length).find? fun i => decide (i ∉ taken) &&
    (h.attempts[i]?).any fun e => e.1 = key && (e.2.visible (.start t)).isOpen

/-- `order_by(started_at.desc())` -/
def newestFirst (taken : List ℕ) : List ℕ :=
  let startedAt (i : ℕ) := (h.attempts[i]?).elim 0 fun e => e.2.stored.session.startedAt
  taken.insertionSort fun i j => startedAt j ≤ startedAt i

section

variable {t} {u : ℕ} {key : AttemptKey} {p : StartPhase} {q : StartRequest}

theorem starts_gotoStart (hq : (h.gotoStart t key p).starts u = some q) :
    u = t ∧ q = ⟨key, p⟩ ∨ u ≠ t ∧ h.starts u = some q := by
  rw [gotoStart] at hq
  by_cases hu : u = t
  · subst hu
    exact Or.inl ⟨rfl, by simpa [eq_comm] using hq⟩
  · exact Or.inr ⟨hu, by simpa [hu] using hq⟩

theorem starts_leaveStart (hq : (h.leaveStart t).starts u = some q) :
    u ≠ t ∧ h.starts u = some q := by
  rw [leaveStart] at hq
  by_cases hu : u = t
  · subst hu
    simp at hq
  · exact ⟨hu, by simpa [hu] using hq⟩

end

end AttemptHost

section

variable (hash : ℕ → ℕ) (sessionTtlHours : ℤ)

/-- The next statement of a start; one that needs a lock of another client waits. -/
def startNext (h : AttemptHost) (t : ℕ) (r : StartRequest) (now : ℕ) : AttemptHost :=
  match r.phase with
  | .advisory =>
      if h.startLocks (hash r.key.user) = none then
        { h.gotoStart t r.key (.select []) with
          startLocks := Function.update h.startLocks (hash r.key.user) (some t) }
      else h
  | .select taken =>
      match h.nextOpen t r.key taken with
      | none => h.gotoStart t r.key (.review (h.newestFirst taken))
      | some i =>
          match (h.attempts[i]?).bind fun e => e.2.lock (.start t) with
          | none => h
          | some row =>
              { h.gotoStart t r.key (.select (i :: taken)) with attempts := h.setRow i row }
  | .review [] => h.gotoStart t r.key .count
  | .review (i :: rest) =>
      match h.attempts[i]? with
      | none => h.gotoStart t r.key (.review rest)
      | some e =>
          let a := e.2.visible (.start t)
          let session := maybeExpireSession a.session now
          if session.status.isMutable then
            { h.leaveStart t with
              attempts := h.commitRows (.start t)
              answers := h.answers ++ [.existing r.key i] }
          else
            { h.gotoStart t r.key (.review rest) with
              attempts := h.setRow i (e.2.put (.start t) { a with session := session }) }
  | .count => h.gotoStart t r.key (.workspace (h.size r.key + 1))
  | .workspace attempt => h.gotoStart t r.key (.insert attempt)
  | .insert attempt =>
      match startTimer sessionTtlHours now with
      | none => h.rollbackStart t
      | some st => h.gotoStart t r.key (.commit ⟨st.session, attempt⟩)
  | .commit attempt =>
      { h.leaveStart t with
        attempts := h.commitRows (.start t) ++ [(r.key, ⟨attempt, none⟩)]
        answers := h.answers ++ [.created r.key attempt.attemptNumber] }

end

/-! ## Actions -/

inductive AttemptAction where
  | start (t : ℕ) (key : AttemptKey)
  | next (t now : ℕ)
  /-- An exception in a start, as where the workspace cannot be created. -/
  | fail (t : ℕ)
  /-- `SELECT .. FOR UPDATE` of one session. -/
  | lock (w i : ℕ)
  /-- What a route makes of the row that it has locked. -/
  | operate (w now : ℕ) (a : TimerAction)
  | commit (w : ℕ)
  | rollback (w : ℕ)
  /-- A read that loads a session without a lock. -/
  | load (w i now : ℕ)
  /-- Its commit, with the flush of what it has changed. -/
  | commitRead (w : ℕ)

/-- One statement of one client. -/
def attemptAct (hash : ℕ → ℕ) (sessionTtlHours : ℤ) (h : AttemptHost) :
    AttemptAction → AttemptHost
  | .start t key =>
      match h.starts t with
      | none => h.gotoStart t key .advisory
      | some _ => h
  | .next t now =>
      match h.starts t with
      | none => h
      | some r => startNext hash sessionTtlHours h t r now
  | .fail t => h.rollbackStart t
  | .lock w i =>
      match h.routes w with
      | .idle =>
          match (h.attempts[i]?).bind fun e => e.2.lock (.route w) with
          | none => h
          | some row => { h.gotoRoute w (.locked i) with attempts := h.setRow i row }
      | _ => h
  | .operate w now a =>
      match h.routes w with
      | .locked i =>
          match h.attempts[i]? with
          | none => h
          | some e =>
              let row := e.2.visible (.route w)
              match timerResult ⟨now, row.session, fun _ => none⟩ a with
              | .error _ => h
              | .ok s =>
                  { h with
                    attempts := h.setRow i (e.2.put (.route w) { row with session := s }) }
      | _ => h
  | .commit w => { h.gotoRoute w .idle with attempts := h.commitRows (.route w) }
  | .rollback w =>
      { h.gotoRoute w .idle with
        attempts := h.attempts.map fun e => (e.1, e.2.rollback (.route w)) }
  | .load w i now =>
      match h.routes w, h.attempts[i]? with
      | .idle, some e =>
          let s := (e.2.visible (.route w)).session
          h.gotoRoute w (.loaded i s (maybeExpireSession s now))
      | _, _ => h
  | .commitRead w =>
      match h.routes w with
      | .loaded i s expired =>
          match h.attempts[i]? with
          | none => h.gotoRoute w .idle
          | some e =>
              if expired = s then h.gotoRoute w .idle
              -- the `UPDATE` waits for the row lock
              else if e.2.held.isNone then
                { h.gotoRoute w .idle with
                  attempts := h.setRow i
                    ⟨{ e.2.stored with session := e.2.stored.session.flush s expired }, none⟩ }
              else h
      | _ => h

def freshAttempts : AttemptHost where
  attempts := []
  startLocks := fun _ => none
  starts := fun _ => none
  routes := fun _ => .idle
  answers := []

/-! ## What a statement makes of a row -/

section

variable {s s' : TimedSession} {now : ℕ}

theorem maybeExpireSession_of_closed (h : s.status.isMutable = false) :
    maybeExpireSession s now = s := by
  rcases maybeExpireSession_cases s now with ⟨hsame, -⟩ | ⟨expires, hopen, -⟩
  · exact hsame
  · rw [h] at hopen
    cases hopen

/-- What is no longer open stays as it is. -/
theorem timerResult_of_closed {t : TimerState} {a : TimerAction}
    (h : t.session.status.isMutable = false) (hok : timerResult t a = .ok s') :
    s' = t.session := by
  cases a with
  | wait d => exact (Except.ok.inj hok).symm
  | read d => exact (Except.ok.inj hok).symm.trans (maybeExpireSession_of_closed h)
  | expireDue d d' =>
      obtain rfl := Except.ok.inj hok
      rw [expireDueSession, h]
      rfl
  | timer verb token gaps commits =>
      rcases sessionTimer_ok hok with ⟨rfl, -⟩ | ⟨hopen, -⟩
      · exact maybeExpireSession_of_closed h
      · rw [h] at hopen
        cases hopen
  | edit token gaps commits =>
      exact (editSession_ok hok).1
  | submit token gaps commits =>
      rcases submitSession_ok hok with ⟨rfl, -⟩ | ⟨hopen, -⟩
      · rfl
      · rw [h] at hopen
        cases hopen
  | abandon token gaps commits =>
      rcases abandonSession_ok hok with ⟨rfl, -⟩ | ⟨hopen, -⟩
      · rfl
      · rw [h] at hopen
        cases hopen

/-- The check of the expiry has no effect, or it expires an open session. -/
theorem maybeExpireSession_eq_or (s : TimedSession) (now : ℕ) :
    maybeExpireSession s now = s ∨
      s.status.isMutable = true ∧ (maybeExpireSession s now).status = .expired := by
  rcases maybeExpireSession_cases s now with ⟨hsame, -⟩ | ⟨expires, hopen, -, -, heq⟩
  · exact Or.inl hsame
  · exact Or.inr ⟨hopen, by rw [heq]⟩

end

/-- A later version keeps the number, is not open again, and has the status of the earlier one
where that has ended. -/
structure Attempt.Follows (a a' : Attempt) : Prop where
  number : a'.attemptNumber = a.attemptNumber
  closed : a.isOpen = false → a'.session.status = a.session.status

namespace Attempt.Follows

variable {a b c : Attempt}

theorem refl (a : Attempt) : a.Follows a := ⟨rfl, fun _ => rfl⟩

theorem open_of_open (h : a.Follows b) (hb : b.isOpen = true) : a.isOpen = true := by
  rcases ha : a.isOpen with _ | _
  · rw [← ha, isOpen, ← h.closed ha]
    exact hb
  · rfl

theorem isOpen_eq_false (h : a.Follows b) (ha : a.isOpen = false) : b.isOpen = false := by
  rcases hb : b.isOpen with _ | _
  · rfl
  · rw [h.open_of_open hb] at ha
    exact ha

theorem trans (h : a.Follows b) (hbc : b.Follows c) : a.Follows c where
  number := hbc.number.trans h.number
  closed ha := (hbc.closed (h.isOpen_eq_false ha)).trans (h.closed ha)

theorem expire (a : Attempt) (now : ℕ) :
    a.Follows { a with session := maybeExpireSession a.session now } :=
  ⟨rfl, fun ha => congrArg TimedSession.status (maybeExpireSession_of_closed ha)⟩

theorem timer {act : TimerAction} {now : ℕ} {leases : Str → Option ℕ} {s : TimedSession}
    (hok : timerResult ⟨now, a.session, leases⟩ act = .ok s) :
    a.Follows { a with session := s } :=
  ⟨rfl, fun ha => congrArg TimedSession.status
    (timerResult_of_closed (t := ⟨now, a.session, leases⟩) ha hok)⟩

end Attempt.Follows

/-- The version under the lock follows the stored one. -/
def AttemptRowOk (r : Row SessionClient Attempt) : Prop :=
  ∀ c v, r.held = some (c, v) → r.stored.Follows v

/-- What a statement of a client makes of a row; `L` where a late expiry may overwrite another
end of the attempt. -/
structure AttemptStep (L : Prop) (c : SessionClient) (r r' : Row SessionClient Attempt) :
    Prop where
  only : Row.OnlyBy c r r'
  ok : AttemptRowOk r'
  number : r'.stored.attemptNumber = r.stored.attemptNumber
  closed : r.stored.isOpen = false → r'.stored.isOpen = false ∧
    (L ∨ r'.stored.session.status = r.stored.session.status)

section

variable {L : Prop} {c : SessionClient} {r r' : Row SessionClient Attempt} {v : Attempt}

theorem AttemptRowOk.follows_visible (h : AttemptRowOk r) : r.stored.Follows (r.visible c) := by
  rw [Row.visible]
  split
  · exact .refl _
  · rename_i u w hheld
    split_ifs
    · exact h u w hheld
    · exact .refl _

namespace AttemptStep

theorem of_stored (honly : Row.OnlyBy c r r') (hok : AttemptRowOk r')
    (h : r'.stored = r.stored) : AttemptStep L c r r' where
  only := honly
  ok := hok
  number := by rw [h]
  closed hclosed := by
    rw [h]
    exact ⟨hclosed, Or.inr rfl⟩

theorem refl (h : AttemptRowOk r) : AttemptStep L c r r :=
  of_stored (Or.inl rfl) h rfl

theorem put (h : AttemptRowOk r) (hfree : r.free c = true) (hv : (r.visible c).Follows v) :
    AttemptStep L c r (r.put c v) := by
  refine of_stored (Row.onlyBy_put hfree v) ?_ rfl
  intro u w hw
  obtain ⟨rfl, rfl⟩ := Prod.mk.inj (Option.some.inj hw)
  exact h.follows_visible.trans hv

theorem commit (h : AttemptRowOk r) (c : SessionClient) : AttemptStep L c r (r.commit c) := by
  rcases r.commit_cases c with ⟨-, heq⟩ | ⟨v, hv, heq⟩
  · rw [heq]
    exact refl h
  · have hfollows := h c v hv
    refine ⟨r.onlyBy_commit c, ?_, ?_, ?_⟩
    · rw [heq]
      intro u w hw
      cases hw
    · rw [heq]
      exact hfollows.number
    · rw [heq]
      exact fun hclosed => ⟨hfollows.isOpen_eq_false hclosed, Or.inr (hfollows.closed hclosed)⟩

theorem rollback (h : AttemptRowOk r) (c : SessionClient) :
    AttemptStep L c r (r.rollback c) :=
  of_stored (r.onlyBy_rollback c) (fun u w hw => by
    rw [Row.rollback_stored]
    exact h u w (Row.held_of_rollback hw)) Row.rollback_stored

/-- The flush of an expiry. -/
theorem flush {s expired : TimedSession} (hheld : r.held = none)
    (hs : s.status.isMutable = true) (hexpired : expired.status = .expired)
    (hlate : r.stored.isOpen = false → r.stored.session.status ≠ .expired → L) :
    AttemptStep L c r
      ⟨{ r.stored with session := r.stored.session.flush s expired }, none⟩ := by
  have hstatus : (r.stored.session.flush s expired).status = .expired := by
    have hne : expired.status ≠ s.status := by
      rw [hexpired]
      intro h
      rw [← h] at hs
      cases hs
    exact (if_neg hne).trans hexpired
  refine ⟨Or.inr fun u _ => ⟨?_, ?_⟩, ?_, rfl, ?_⟩
  · simp [Row.Released, hheld]
  · simp [Row.Released]
  · intro u w hw
    cases hw
  · intro hclosed
    refine ⟨by simp [Attempt.isOpen, hstatus, SessionStatus.isMutable], ?_⟩
    by_cases hsame : r.stored.session.status = .expired
    · exact Or.inr (hstatus.trans hsame.symm)
    · exact Or.inl (hlate hclosed hsame)

theorem open_of_open (h : AttemptStep L c r r') (ho : r'.stored.isOpen = true) :
    r.stored.isOpen = true := by
  rcases hr : r.stored.isOpen with _ | _
  · rw [(h.closed hr).1] at ho
    exact ho
  · rfl

/-- A row that another client holds is left alone. -/
theorem eq_of_held (h : AttemptStep L c r r') {u : SessionClient}
    (hu : r.held = some (u, v)) (hne : u ≠ c) : r' = r := by
  rcases h.only with heq | honly
  · exact heq
  · exact absurd hu ((honly u hne).1 v)

end AttemptStep

end

/-! ## What a statement makes of the table -/

/-- A step of a client on each row; no row goes or moves. -/
def TableStep (L : Prop) (c : SessionClient) (T T' : AttemptTable) : Prop :=
  List.Forall₂ (fun e e' => e'.1 = e.1 ∧ AttemptStep L c e.2 e'.2) T T'

namespace TableStep

variable {L : Prop} {c : SessionClient} {T T' : AttemptTable} {i : ℕ}
  {e e' : AttemptKey × Row SessionClient Attempt}

theorem map {f : Row SessionClient Attempt → Row SessionClient Attempt}
    (h : ∀ e ∈ T, AttemptStep L c e.2 (f e.2)) :
    TableStep L c T (T.map fun e => (e.1, f e.2)) := by
  rw [TableStep, List.forall₂_map_right_iff, List.forall₂_same]
  exact fun e he => ⟨rfl, h e he⟩

theorem refl (h : ∀ e ∈ T, AttemptRowOk e.2) : TableStep L c T T :=
  List.forall₂_same.mpr fun e he => ⟨rfl, .refl (h e he)⟩

theorem modify {r : Row SessionClient Attempt} (hT : ∀ e ∈ T, AttemptRowOk e.2)
    (h : ∀ e, T[i]? = some e → AttemptStep L c e.2 r) :
    TableStep L c T (T.modify i fun e => (e.1, r)) := by
  induction T generalizing i with
  | nil => simp [TableStep]
  | cons d T ih =>
      have hrest : ∀ e ∈ T, AttemptRowOk e.2 := fun e he => hT e (List.mem_cons_of_mem d he)
      cases i with
      | zero =>
          rw [List.modify_zero_cons]
          exact .cons ⟨rfl, h d rfl⟩ (refl hrest)
      | succ i =>
          rw [List.modify_succ_cons]
          exact .cons ⟨rfl, .refl (hT d List.mem_cons_self)⟩
            (ih hrest fun e he => h e (by simpa using he))

theorem getElem? (h : TableStep L c T T') (hi : T[i]? = some e) :
    ∃ r', T'[i]? = some (e.1, r') ∧ AttemptStep L c e.2 r' := by
  obtain ⟨hlt, rfl⟩ := List.getElem?_eq_some_iff.mp hi
  obtain ⟨hlen, hget⟩ := List.forall₂_iff_get.mp h
  have hlt' : i < T'.length := hlen ▸ hlt
  obtain ⟨hkey, hstep⟩ := hget i hlt hlt'
  exact ⟨T'[i].2, List.getElem?_eq_some_iff.mpr ⟨hlt', Prod.ext hkey rfl⟩, hstep⟩

theorem getElem?_back (h : TableStep L c T T') (hi : T'[i]? = some e') :
    ∃ r, T[i]? = some (e'.1, r) ∧ AttemptStep L c r e'.2 := by
  obtain ⟨hlt, rfl⟩ := List.getElem?_eq_some_iff.mp hi
  obtain ⟨hlen, hget⟩ := List.forall₂_iff_get.mp h
  have hlt' : i < T.length := hlen ▸ hlt
  obtain ⟨hkey, hstep⟩ := hget i hlt' hlt
  exact ⟨T[i].2, List.getElem?_eq_some_iff.mpr ⟨hlt', Prod.ext hkey.symm rfl⟩, hstep⟩

theorem rows (h : TableStep L c T T') : ∀ e' ∈ T', AttemptRowOk e'.2 := by
  intro e' he'
  obtain ⟨i, hi⟩ := List.mem_iff_getElem?.mp he'
  obtain ⟨r, -, hstep⟩ := h.getElem?_back hi
  exact hstep.ok

/-- The keys and the numbers of the rows are fixed. -/
theorem map_eq {β : Type} (f : AttemptKey → ℕ → β) (h : TableStep L c T T') :
    T'.map (fun e => f e.1 e.2.stored.attemptNumber) =
      T.map fun e => f e.1 e.2.stored.attemptNumber := by
  induction h with
  | nil => rfl
  | cons hstep _ ih =>
      rw [List.map_cons, List.map_cons, ih, hstep.1, hstep.2.number]

theorem countP_key (h : TableStep L c T T') (p : AttemptKey → Bool) :
    (T'.countP fun e => p e.1) = T.countP fun e => p e.1 := by
  induction h with
  | nil => rfl
  | cons hstep _ ih => rw [List.countP_cons, List.countP_cons, ih, hstep.1]

theorem countP_open_le (h : TableStep L c T T') (p : AttemptKey → Bool) :
    (T'.countP fun e => p e.1 && e.2.stored.isOpen) ≤
      T.countP fun e => p e.1 && e.2.stored.isOpen := by
  induction h with
  | nil => exact Nat.le_refl _
  | @cons e e' _ _ hstep _ ih =>
      rw [List.countP_cons, List.countP_cons]
      apply Nat.add_le_add ih
      split_ifs with hnew hold
      · exact Nat.le_refl _
      · rw [hstep.1, Bool.and_eq_true] at hnew
        exact absurd (Bool.and_eq_true _ _ ▸ ⟨hnew.1, hstep.2.open_of_open hnew.2⟩) hold
      · exact Nat.zero_le 1
      · exact Nat.le_refl _

end TableStep

/-! ## What a start has found out -/

/-- The row has the key and the start holds it. -/
def HeldByStart (T : AttemptTable) (t : ℕ) (key : AttemptKey) (i : ℕ) : Prop :=
  ∃ r v, T[i]? = some (key, r) ∧ r.held = some (.start t, v)

/-- The start holds every open attempt of the key, and has ended those not in the list. -/
def Reviewed (T : AttemptTable) (t : ℕ) (key : AttemptKey) (rest : List ℕ) : Prop :=
  ∀ i r, T[i]? = some (key, r) → r.stored.isOpen = true →
    ∃ v, r.held = some (.start t, v) ∧ (v.isOpen = true → i ∈ rest)

def StartOk (T : AttemptTable) (t : ℕ) (r : StartRequest) : Prop :=
  match r.phase with
  | .advisory => True
  | .select taken => ∀ i ∈ taken, HeldByStart T t r.key i
  | .review rest => (∀ i ∈ rest, HeldByStart T t r.key i) ∧ Reviewed T t r.key rest
  | .count => Reviewed T t r.key []
  | .workspace attempt | .insert attempt =>
      Reviewed T t r.key [] ∧ attempt = (T.countP fun e => e.1 = r.key) + 1
  | .commit a =>
      Reviewed T t r.key [] ∧ a.attemptNumber = (T.countP fun e => e.1 = r.key) + 1 ∧
        a.isOpen = true

section

variable {L : Prop} {c : SessionClient} {T T' : AttemptTable} {t : ℕ} {r : StartRequest}
  {key : AttemptKey}

theorem HeldByStart.step (hT : TableStep L c T T') (hc : c ≠ .start t) {i : ℕ}
    (h : HeldByStart T t key i) : HeldByStart T' t key i := by
  obtain ⟨r, v, hi, hv⟩ := h
  obtain ⟨r', hi', hstep⟩ := hT.getElem? hi
  rw [hstep.eq_of_held hv hc.symm] at hi'
  exact ⟨r, v, hi', hv⟩

theorem Reviewed.step (hT : TableStep L c T T') (hc : c ≠ .start t) {rest : List ℕ}
    (h : Reviewed T t key rest) : Reviewed T' t key rest := by
  intro i r' hi hopen
  obtain ⟨r, hi, hstep⟩ := hT.getElem?_back hi
  obtain ⟨v, hv, hrest⟩ := h i r hi (hstep.open_of_open hopen)
  obtain rfl : r' = r := hstep.eq_of_held hv hc.symm
  exact ⟨v, hv, hrest⟩

theorem StartOk.step (hT : TableStep L c T T') (hc : c ≠ .start t) (h : StartOk T t r) :
    StartOk T' t r := by
  have hsize := hT.countP_key fun k => decide (k = r.key)
  rcases hphase : r.phase with _ | taken | rest | _ | attempt | attempt | a <;>
    simp only [StartOk, hphase] at h ⊢
  case select => exact fun i hi => (h i hi).step hT hc
  case review => exact ⟨fun i hi => (h.1 i hi).step hT hc, h.2.step hT hc⟩
  case count => exact h.step hT hc
  all_goals
    rw [hsize]
    exact ⟨h.1.step hT hc, h.2⟩

theorem HeldByStart.append {row : AttemptKey × Row SessionClient Attempt} {i : ℕ}
    (h : HeldByStart T t key i) : HeldByStart (T ++ [row]) t key i := by
  obtain ⟨r, v, hi, hv⟩ := h
  have hlt := (List.getElem?_eq_some_iff.mp hi).1
  exact ⟨r, v, (List.getElem?_append_left hlt).trans hi, hv⟩

theorem Reviewed.append {row : AttemptKey × Row SessionClient Attempt} (hrow : row.1 ≠ key)
    {rest : List ℕ} (h : Reviewed T t key rest) : Reviewed (T ++ [row]) t key rest := by
  intro i r hi
  rw [List.getElem?_append] at hi
  split_ifs at hi with hlt
  · exact h i r hi
  · have hmem := List.mem_singleton.mp (List.mem_of_getElem? hi)
    rw [← hmem] at hrow
    exact absurd rfl hrow

/-- Rows of other keys do not matter to a start. -/
theorem StartOk.append {row : AttemptKey × Row SessionClient Attempt} (hrow : row.1 ≠ r.key)
    (h : StartOk T t r) : StartOk (T ++ [row]) t r := by
  have hsize : ((T ++ [row]).countP fun e => e.1 = r.key) = T.countP fun e => e.1 = r.key := by
    rw [List.countP_append, List.countP_singleton, if_neg (by simpa using hrow), Nat.add_zero]
  rcases hphase : r.phase with _ | taken | rest | _ | attempt | attempt | a <;>
    simp only [StartOk, hphase] at h ⊢
  case select => exact fun i hi => (h i hi).append
  case review => exact ⟨fun i hi => (h.1 i hi).append, h.2.append hrow⟩
  case count => exact h.append hrow
  all_goals
    rw [hsize]
    exact ⟨h.1.append hrow, h.2⟩

end

/-! ## What a route has loaded -/

def RouteOk (T : AttemptTable) (w : ℕ) : RoutePhase → Prop
  | .idle => True
  | .locked i => ∃ e v, T[i]? = some e ∧ e.2.held = some (.route w, v)
  | .loaded _ s expired => ∃ now, expired = maybeExpireSession s now

section

variable {L : Prop} {c : SessionClient} {T T' : AttemptTable} {w : ℕ} {p : RoutePhase}

theorem RouteOk.step (hT : TableStep L c T T') (hc : c ≠ .route w) (h : RouteOk T w p) :
    RouteOk T' w p := by
  cases p with
  | idle => trivial
  | locked i =>
      obtain ⟨e, v, hi, hv⟩ := h
      obtain ⟨r', hi', hstep⟩ := hT.getElem? hi
      rw [hstep.eq_of_held hv hc.symm] at hi'
      exact ⟨_, v, hi', hv⟩
  | loaded i s expired => exact h

theorem RouteOk.append {row : AttemptKey × Row SessionClient Attempt} (h : RouteOk T w p) :
    RouteOk (T ++ [row]) w p := by
  cases p with
  | idle => trivial
  | locked i =>
      obtain ⟨e, v, hi, hv⟩ := h
      have hlt := (List.getElem?_eq_some_iff.mp hi).1
      exact ⟨e, v, (List.getElem?_append_left hlt).trans hi, hv⟩
  | loaded i s expired => exact h

end

/-! ## The invariant -/

/-- Rows are numbered and one is open; a start past its advisory lock holds it. -/
structure AttemptInv (hash : ℕ → ℕ) (h : AttemptHost) : Prop where
  rows : ∀ e ∈ h.attempts, AttemptRowOk e.2
  numbers : ∀ key, ((h.attempts.filter fun e => e.1 = key).map
    fun e => e.2.stored.attemptNumber) = List.range' 1 (h.size key)
  one : ∀ key, (h.attempts.countP fun e => decide (e.1 = key) && e.2.stored.isOpen) ≤ 1
  holder : ∀ t r, h.starts t = some r → r.phase ≠ .advisory →
    h.startLocks (hash r.key.user) = some t
  starts : ∀ t r, h.starts t = some r → StartOk h.attempts t r
  routes : ∀ w, RouteOk h.attempts w (h.routes w)

namespace AttemptInv

variable {hash : ℕ → ℕ} {h h' : AttemptHost} {L : Prop} {c : SessionClient} {t : ℕ}
  {r : StartRequest}

/-- A step of a client that changes no other start and no other route. -/
theorem moved (hi : AttemptInv hash h) (hT : TableStep L c h.attempts h'.attempts)
    (hholder : ∀ u q, h'.starts u = some q → q.phase ≠ .advisory →
      h'.startLocks (hash q.key.user) = some u)
    (hstarts : ∀ u q, h'.starts u = some q →
      c ≠ .start u ∧ h.starts u = some q ∨ StartOk h'.attempts u q)
    (hroutes : ∀ w, c ≠ .route w ∧ h'.routes w = h.routes w ∨
      RouteOk h'.attempts w (h'.routes w)) : AttemptInv hash h' where
  rows := hT.rows
  numbers key := by
    have hfilter := hT.map_eq fun k n => (k, n)
    have hkeys : ∀ T : AttemptTable, ((T.filter fun e => e.1 = key).map
        fun e => e.2.stored.attemptNumber) =
          ((T.map fun e => (e.1, e.2.stored.attemptNumber)).filter fun e => e.1 = key).map
            Prod.snd := by
      intro T
      rw [List.filter_map, List.map_map]
      rfl
    rw [hkeys, hfilter, ← hkeys, hi.numbers key, AttemptHost.size, AttemptHost.size,
      hT.countP_key fun k => decide (k = key)]
  one key := (hT.countP_open_le fun k => decide (k = key)).trans (hi.one key)
  holder := hholder
  starts u q hq := by
    rcases hstarts u q hq with ⟨hc, hq⟩ | hok
    · exact (hi.starts u q hq).step hT hc
    · exact hok
  routes w := by
    rcases hroutes w with ⟨hc, hsame⟩ | hok
    · rw [hsame]
      exact (hi.routes w).step hT hc
    · exact hok

/-- A start that holds its advisory lock goes on. -/
theorem goto (hi : AttemptInv hash h) (hr : h.starts t = some r) (hphase : r.phase ≠ .advisory)
    {T : AttemptTable} (hT : TableStep L (.start t) h.attempts T) {p : StartPhase}
    (hp : StartOk T t ⟨r.key, p⟩) :
    AttemptInv hash { h.gotoStart t r.key p with attempts := T } := by
  refine hi.moved hT ?_ ?_ fun w => Or.inl ⟨by simp, rfl⟩
  · intro u q hq hpast
    rcases h.starts_gotoStart hq with ⟨rfl, rfl⟩ | ⟨-, hq⟩
    · exact hi.holder u r hr hphase
    · exact hi.holder u q hq hpast
  · intro u q hq
    rcases h.starts_gotoStart hq with ⟨rfl, rfl⟩ | ⟨hu, hq⟩
    · exact Or.inr hp
    · refine Or.inl ⟨?_, hq⟩
      rintro ⟨⟩
      exact hu rfl

/-- The end of a start's transaction. -/
theorem leave (hi : AttemptInv hash h) {T : AttemptTable}
    (hT : TableStep L (.start t) h.attempts T) (answers : List StartAnswer) :
    AttemptInv hash
      { h.leaveStart t with
        attempts := T
        answers := answers } := by
  refine hi.moved hT ?_ ?_ fun w => Or.inl ⟨by simp, rfl⟩
  · intro u q hq hpast
    obtain ⟨hu, hq⟩ := h.starts_leaveStart hq
    have hheld := hi.holder u q hq hpast
    have hne : h.startLocks (hash q.key.user) ≠ some t := by
      rw [hheld]
      exact fun heq => hu (Option.some.inj heq)
    exact (if_neg hne).trans hheld
  · intro u q hq
    obtain ⟨hu, hq⟩ := h.starts_leaveStart hq
    refine Or.inl ⟨?_, hq⟩
    rintro ⟨⟩
    exact hu rfl

/-- The insert of the next attempt where none is open. -/
theorem append (hi : AttemptInv hash h) {key : AttemptKey} {a : Attempt}
    (hclosed : ∀ e ∈ h.attempts, e.1 = key → e.2.stored.isOpen = false)
    (hnumber : a.attemptNumber = h.size key + 1)
    (hothers : ∀ u q, h.starts u = some q → q.phase ≠ .advisory → q.key ≠ key)
    (answers : List StartAnswer) :
    AttemptInv hash
      { h with
        attempts := h.attempts ++ [(key, ⟨a, none⟩)]
        answers := answers } where
  rows e he := by
    rcases List.mem_append.mp he with he | he
    · exact hi.rows e he
    · obtain rfl := List.mem_singleton.mp he
      intro c v hv
      cases hv
  numbers k := by
    have hsize := hi.numbers k
    rw [AttemptHost.size] at hsize ⊢
    rw [List.filter_append, List.map_append, hsize, List.countP_append, List.countP_singleton]
    by_cases hk : key = k
    · subst hk
      rw [List.filter_singleton, decide_eq_true rfl, cond_true, if_pos rfl,
        List.range'_1_concat, List.map_singleton, hnumber, Nat.add_comm 1]
      rfl
    · rw [List.filter_singleton, decide_eq_false hk, cond_false, if_neg Bool.false_ne_true]
      simp
  one k := by
    rw [List.countP_append, List.countP_singleton]
    by_cases hk : key = k
    · subst hk
      have hzero : (h.attempts.countP fun e => decide (e.1 = key) && e.2.stored.isOpen) = 0 := by
        rw [List.countP_eq_zero]
        intro e he hopen
        rw [Bool.and_eq_true, decide_eq_true_eq] at hopen
        rw [hclosed e he hopen.1] at hopen
        cases hopen.2
      rw [hzero, Nat.zero_add]
      split_ifs
      · exact Nat.le_refl 1
      · exact Nat.zero_le 1
    · rw [decide_eq_false hk, Bool.false_and, if_neg Bool.false_ne_true]
      exact hi.one k
  holder := hi.holder
  starts u q hq := by
    by_cases hphase : q.phase = .advisory
    · rw [StartOk, hphase]
      trivial
    · exact (hi.starts u q hq).append (hothers u q hq hphase).symm
  routes w := (hi.routes w).append

end AttemptInv

/-! ## The steps of a start -/

section

variable {hash : ℕ → ℕ} {ttl : ℤ} {h : AttemptHost} {t now : ℕ} {r : StartRequest}
  {key : AttemptKey}

theorem getElem?_setRow_self {i : ℕ} {e : AttemptKey × Row SessionClient Attempt}
    {row : Row SessionClient Attempt} (he : h.attempts[i]? = some e) :
    (h.setRow i row)[i]? = some (e.1, row) := by
  rw [AttemptHost.setRow, List.getElem?_modify, he, Option.map_eq_map, Option.map_some, if_pos rfl]

theorem getElem?_setRow_ne {i j : ℕ} {row : Row SessionClient Attempt} (hij : i ≠ j) :
    (h.setRow i row)[j]? = h.attempts[j]? := by
  simp [AttemptHost.setRow, hij]

theorem HeldByStart.setRow {i j : ℕ} {row : Row SessionClient Attempt} {v : Attempt}
    (hj : HeldByStart h.attempts t key j) :
    HeldByStart (h.setRow i (row.put (.start t) v)) t key j := by
  obtain ⟨r, w, hr, hw⟩ := hj
  by_cases hij : i = j
  · subst hij
    exact ⟨row.put (.start t) v, v, getElem?_setRow_self hr, rfl⟩
  · exact ⟨r, w, (getElem?_setRow_ne hij).trans hr, hw⟩

/-- The select takes one more row. -/
theorem StartOk.taken {taken : List ℕ} {i : ℕ} {row : Row SessionClient Attempt}
    {e : AttemptKey × Row SessionClient Attempt} (hok : StartOk h.attempts t ⟨key, .select taken⟩)
    (he : h.attempts[i]? = some e) (hkey : e.1 = key)
    (hlock : e.2.lock (.start t) = some row) :
    StartOk (h.setRow i row) t ⟨key, .select (i :: taken)⟩ := by
  obtain ⟨rfl, -⟩ := Row.lock_eq_some hlock
  intro j hj
  rcases List.mem_cons.mp hj with rfl | hj
  · subst hkey
    exact ⟨_, e.2.visible (.start t), getElem?_setRow_self he, rfl⟩
  · exact (hok j hj).setRow

/-- The select is over once it has every open attempt. -/
theorem StartOk.selected {taken : List ℕ} (hok : StartOk h.attempts t ⟨key, .select taken⟩)
    (hnone : h.nextOpen t key taken = none) :
    StartOk h.attempts t ⟨key, .review (h.newestFirst taken)⟩ := by
  have hmem : ∀ i, i ∈ h.newestFirst taken ↔ i ∈ taken :=
    fun i => (List.perm_insertionSort _ taken).mem_iff
  refine ⟨fun i hi => hok i ((hmem i).mp hi), ?_⟩
  intro i row hi hopen
  by_cases htaken : i ∈ taken
  · obtain ⟨row', v, hi', hv⟩ := hok i htaken
    obtain ⟨-, rfl⟩ := Prod.mk.inj (Option.some.inj (hi.symm.trans hi'))
    exact ⟨v, hv, fun _ => (hmem i).mpr htaken⟩
  · have hlt := (List.getElem?_eq_some_iff.mp hi).1
    have hfound := List.find?_eq_none.mp hnone i (List.mem_range.mpr hlt)
    have hclosed : (row.visible (.start t)).isOpen = false := by
      simpa [htaken, hi] using hfound
    rcases hheld : row.held with _ | ⟨c, v⟩
    · rw [Row.visible, hheld] at hclosed
      rw [hopen] at hclosed
      cases hclosed
    · by_cases hc : c = .start t
      · subst hc
        rw [Row.visible_of_held hheld] at hclosed
        refine ⟨v, rfl, ?_⟩
        rw [hclosed]
        intro hfalse
        cases hfalse
      · rw [Row.visible_of_released (Row.released_of_held_ne hheld hc), hopen] at hclosed
        cases hclosed

/-- The start goes past an attempt that it has expired. -/
theorem StartOk.reviewed {rest : List ℕ} {i : ℕ} {e : AttemptKey × Row SessionClient Attempt}
    {a : Attempt} (hok : StartOk h.attempts t ⟨key, .review (i :: rest)⟩)
    (he : h.attempts[i]? = some e) (ha : a.isOpen = false) :
    StartOk (h.setRow i (e.2.put (.start t) a)) t ⟨key, .review rest⟩ := by
  refine ⟨fun j hj => (hok.1 j (List.mem_cons_of_mem i hj)).setRow, ?_⟩
  intro j row hj hopen
  by_cases hij : i = j
  · subst hij
    rw [getElem?_setRow_self he] at hj
    obtain ⟨-, rfl⟩ := Prod.mk.inj (Option.some.inj hj)
    refine ⟨a, rfl, ?_⟩
    rw [ha]
    intro hfalse
    cases hfalse
  · rw [getElem?_setRow_ne hij] at hj
    obtain ⟨v, hv, hrest⟩ := hok.2 j row hj hopen
    exact ⟨v, hv, fun hvo => (List.mem_cons.mp (hrest hvo)).resolve_left (Ne.symm hij)⟩

theorem TableStep.setRow {L : Prop} {c : SessionClient} {i : ℕ} {v : Attempt}
    {e : AttemptKey × Row SessionClient Attempt} (hT : ∀ e ∈ h.attempts, AttemptRowOk e.2)
    (he : h.attempts[i]? = some e) (hfree : e.2.free c = true)
    (hv : (e.2.visible c).Follows v) :
    TableStep L c h.attempts (h.setRow i (e.2.put c v)) := by
  apply TableStep.modify hT
  intro d hd
  obtain rfl := Option.some.inj (he.symm.trans hd)
  exact .put (hT e (List.mem_of_getElem? he)) hfree hv

theorem TableStep.setLocked {L : Prop} {c : SessionClient} {i : ℕ}
    {row : Row SessionClient Attempt} {e : AttemptKey × Row SessionClient Attempt}
    (hT : ∀ e ∈ h.attempts, AttemptRowOk e.2) (he : h.attempts[i]? = some e)
    (hlock : e.2.lock c = some row) : TableStep L c h.attempts (h.setRow i row) := by
  obtain ⟨rfl, hfree⟩ := Row.lock_eq_some hlock
  exact .setRow hT he hfree (.refl _)

theorem free_of_held {row : Row SessionClient Attempt} {c : SessionClient} {v : Attempt}
    (hv : row.held = some (c, v)) : row.free c = true := by
  simp [Row.free, hv]

theorem AttemptInv.commit_table {L : Prop} (hi : AttemptInv hash h) (c : SessionClient) :
    TableStep L c h.attempts (h.commitRows c) :=
  TableStep.map (f := fun r => r.commit c) fun e he => .commit (hi.rows e he) c

theorem AttemptInv.rollbackStart (hi : AttemptInv hash h) (t : ℕ) :
    AttemptInv hash (h.rollbackStart t) :=
  hi.leave (TableStep.map (L := False) (f := fun r => r.rollback (.start t)) fun e he =>
    .rollback (hi.rows e he) _) h.answers

/-- After the commit of a start that has ended every open attempt none is open. -/
theorem Reviewed.closed {key : AttemptKey} (h' : Reviewed h.attempts t key [])
    (hi : AttemptInv hash h) :
    ∀ e ∈ h.commitRows (.start t), e.1 = key → e.2.stored.isOpen = false := by
  intro e' he' hkey
  obtain ⟨e, he, rfl⟩ := List.mem_map.mp he'
  obtain ⟨i, hget⟩ := List.mem_iff_getElem?.mp he
  dsimp only at hkey ⊢
  subst hkey
  rcases hopen : e.2.stored.isOpen with _ | _
  · exact ((AttemptStep.commit (L := False) (hi.rows e he) (.start t)).closed hopen).1
  · obtain ⟨v, hv, hrest⟩ := h' i e.2 hget hopen
    rw [Row.commit_of_held hv]
    rcases hvo : v.isOpen with _ | _
    · rfl
    · cases hrest hvo

theorem startNext_advisory (hi : AttemptInv hash h) (hr : h.starts t = some ⟨key, .advisory⟩)
    (now : ℕ) : AttemptInv hash (startNext hash ttl h t ⟨key, .advisory⟩ now) := by
  simp only [startNext]
  split_ifs with hfree
  · refine hi.moved (L := False) (c := .start t) (.refl hi.rows) ?_ ?_ fun w =>
      Or.inl ⟨by simp, rfl⟩
    · intro u q hq hpast
      rcases h.starts_gotoStart hq with ⟨rfl, rfl⟩ | ⟨-, hq⟩
      · exact Function.update_self ..
      · have hheld := hi.holder u q hq hpast
        have hne : hash q.key.user ≠ hash key.user := by
          intro heq
          rw [heq, hfree] at hheld
          cases hheld
        exact (Function.update_of_ne hne ..).trans hheld
    · intro u q hq
      rcases h.starts_gotoStart hq with ⟨rfl, rfl⟩ | ⟨hu, hq⟩
      · refine Or.inr fun i hi => ?_
        cases hi
      · refine Or.inl ⟨?_, hq⟩
        rintro ⟨⟩
        exact hu rfl
  · exact hi

theorem startNext_select (hi : AttemptInv hash h) {taken : List ℕ}
    (hr : h.starts t = some ⟨key, .select taken⟩) (now : ℕ) :
    AttemptInv hash (startNext hash ttl h t ⟨key, .select taken⟩ now) := by
  have hok := hi.starts t _ hr
  have hpast : StartPhase.select taken ≠ .advisory := by simp
  simp only [startNext]
  rcases hnext : h.nextOpen t key taken with _ | i <;> dsimp only
  · exact hi.goto hr hpast (L := False) (.refl hi.rows) (hok.selected hnext)
  · rcases hlock : (h.attempts[i]?).bind fun e => e.2.lock (.start t) with _ | row <;>
      dsimp only
    · exact hi
    · obtain ⟨e, he, hlock⟩ := Option.bind_eq_some_iff.mp hlock
      have hkey : e.1 = key := by
        have hfound := List.find?_some hnext
        rw [he] at hfound
        simp only [Option.any_some, Bool.and_eq_true, decide_eq_true_eq] at hfound
        exact hfound.2.1
      exact hi.goto hr hpast (TableStep.setLocked (L := False) hi.rows he hlock)
        (hok.taken he hkey hlock)

theorem startNext_review (hi : AttemptInv hash h) {rest : List ℕ}
    (hr : h.starts t = some ⟨key, .review rest⟩) (now : ℕ) :
    AttemptInv hash (startNext hash ttl h t ⟨key, .review rest⟩ now) := by
  have hok := hi.starts t _ hr
  have hpast : StartPhase.review rest ≠ .advisory := by simp
  cases rest with
  | nil => exact hi.goto (p := .count) hr hpast (L := False) (.refl hi.rows) hok.2
  | cons i rest =>
      obtain ⟨row, v, he, hv⟩ := hok.1 i List.mem_cons_self
      simp only [startNext, he, Row.visible_of_held hv]
      split_ifs with hopen
      · exact hi.leave (hi.commit_table (L := False) _) _
      · have hclosed : Attempt.isOpen
            { v with session := maybeExpireSession v.session now } = false :=
          Bool.eq_false_iff.mpr hopen
        refine hi.goto hr hpast (TableStep.setRow (L := False) hi.rows he
          (free_of_held hv) ?_) (hok.reviewed he hclosed)
        rw [Row.visible_of_held hv]
        exact .expire v now

theorem startTimer_status {st : TimerState} (hstart : startTimer ttl now = some st) :
    st.session.status = .active := by
  rcases hexpires : computeExpiresAt ttl now with _ | expires
  · simp [startTimer, hexpires] at hstart
  · simp only [startTimer, hexpires, Option.map_some, Option.some.injEq] at hstart
    rw [← hstart]

theorem startNext_insert_eq (attempt now : ℕ) :
    startNext hash ttl h t ⟨key, .insert attempt⟩ now =
      (startTimer ttl now).elim (h.rollbackStart t)
        fun st => h.gotoStart t key (.commit ⟨st.session, attempt⟩) := by
  rw [startNext]
  cases startTimer ttl now <;> rfl

theorem startNext_insert (hi : AttemptInv hash h) {attempt : ℕ}
    (hr : h.starts t = some ⟨key, .insert attempt⟩) (now : ℕ) :
    AttemptInv hash (startNext hash ttl h t ⟨key, .insert attempt⟩ now) := by
  have hok := hi.starts t _ hr
  have hpast : StartPhase.insert attempt ≠ .advisory := by simp
  rw [startNext_insert_eq]
  rcases hstart : startTimer ttl now with _ | st
  · exact hi.rollbackStart t
  · have hopen : Attempt.isOpen ⟨st.session, attempt⟩ = true := by
      rw [Attempt.isOpen, startTimer_status hstart]
      rfl
    exact hi.goto hr hpast (L := False) (.refl hi.rows) ⟨hok.1, hok.2, hopen⟩

theorem startNext_commit (hi : AttemptInv hash h) {a : Attempt}
    (hr : h.starts t = some ⟨key, .commit a⟩) (now : ℕ) :
    AttemptInv hash (startNext hash ttl h t ⟨key, .commit a⟩ now) := by
  have hok := hi.starts t _ hr
  have hT := hi.commit_table (L := False) (.start t)
  have hleft := hi.leave (t := t) hT h.answers
  have hsize : h.size key = ((h.commitRows (.start t)).countP fun e => e.1 = key) :=
    (hT.countP_key fun k => decide (k = key)).symm
  simp only [startNext]
  refine hleft.append (hok.1.closed hi) (hok.2.1.trans ?_) ?_ _
  · exact congrArg (· + 1) hsize
  · intro u q hq hpast hkey
    obtain ⟨hu, hq⟩ := h.starts_leaveStart hq
    have hheld := hi.holder u q hq hpast
    rw [hkey, hi.holder t _ hr (by simp)] at hheld
    exact hu (Option.some.inj hheld).symm

theorem startNext_inv (hi : AttemptInv hash h) (hr : h.starts t = some r) (now : ℕ) :
    AttemptInv hash (startNext hash ttl h t r now) := by
  obtain ⟨key, phase⟩ := r
  have hok := hi.starts t _ hr
  cases phase with
  | advisory => exact startNext_advisory hi hr now
  | select taken => exact startNext_select hi hr now
  | review rest => exact startNext_review hi hr now
  | count =>
      exact hi.goto (p := .workspace _) hr (by simp) (L := False) (.refl hi.rows) ⟨hok, rfl⟩
  | workspace attempt =>
      exact hi.goto (p := .insert attempt) hr (by simp) (L := False) (.refl hi.rows) hok
  | insert attempt => exact startNext_insert hi hr now
  | commit a => exact startNext_commit hi hr now

/-- What a step makes of the table and of the answers. -/
inductive AttemptEffect (L : Prop) (h h' : AttemptHost) : Prop
  | kept {c : SessionClient} (table : TableStep L c h.attempts h'.attempts)
      (answers : h'.answers = h.answers)
  | existing {c : SessionClient} {key : AttemptKey} {i : ℕ} {row : Row SessionClient Attempt}
      (table : TableStep L c h.attempts h'.attempts)
      (answers : h'.answers = h.answers ++ [.existing key i])
      (found : h'.attempts[i]? = some (key, row)) (isOpen : row.stored.isOpen = true)
  | created {c : SessionClient} {key : AttemptKey} {T : AttemptTable} {a : Attempt}
      (table : TableStep L c h.attempts T)
      (attempts : h'.attempts = T ++ [(key, ⟨a, none⟩)])
      (answers : h'.answers = h.answers ++ [.created key a.attemptNumber])
      (number : a.attemptNumber = h.size key + 1) (isOpen : a.isOpen = true)

theorem startNext_effect (hi : AttemptInv hash h) (hr : h.starts t = some r) (now : ℕ) :
    AttemptEffect False h (startNext hash ttl h t r now) := by
  obtain ⟨key, phase⟩ := r
  have hok := hi.starts t _ hr
  have hsame : TableStep False (.start t) h.attempts h.attempts := .refl hi.rows
  have hleft : TableStep False (.start t) h.attempts (h.rollbackStart t).attempts :=
    TableStep.map (f := fun r => r.rollback (.start t)) fun e he => .rollback (hi.rows e he) _
  have hcommit := hi.commit_table (L := False) (.start t)
  cases phase with
  | advisory =>
      simp only [startNext]
      split_ifs <;> exact .kept hsame rfl
  | select taken =>
      simp only [startNext]
      rcases h.nextOpen t key taken with _ | i <;> dsimp only
      · exact .kept hsame rfl
      · rcases hlock : (h.attempts[i]?).bind fun e => e.2.lock (.start t) with _ | row <;>
          dsimp only
        · exact .kept hsame rfl
        · obtain ⟨e, he, hlock⟩ := Option.bind_eq_some_iff.mp hlock
          exact .kept (TableStep.setLocked (L := False) hi.rows he hlock) rfl
  | review rest =>
      cases rest with
      | nil => exact .kept hsame rfl
      | cons i rest =>
          obtain ⟨row, v, he, hv⟩ := hok.1 i List.mem_cons_self
          simp only [startNext, he, Row.visible_of_held hv]
          split_ifs with hopen
          · refine .existing hcommit rfl (?_ : _ = some (_, row.commit (.start t))) ?_
            · simp only [AttemptHost.commitRows, List.getElem?_map, he, Option.map_some]
            · rw [Row.commit_of_held hv, Attempt.isOpen]
              rwa [(maybeExpireSession_of_mutable hopen).1] at hopen
          · refine .kept (TableStep.setRow (L := False) hi.rows he (free_of_held hv) ?_) rfl
            rw [Row.visible_of_held hv]
            exact .expire v now
  | count => exact .kept hsame rfl
  | workspace attempt => exact .kept hsame rfl
  | insert attempt =>
      rw [startNext_insert_eq]
      rcases startTimer ttl now with _ | st
      · exact .kept hleft rfl
      · exact .kept hsame rfl
  | commit a => exact .created hcommit rfl rfl hok.2.1 hok.2.2

end

/-! ## Every action -/

/-- It flushes an expiry to an attempt that has ended otherwise since it was loaded. -/
def LateExpiry (h : AttemptHost) : AttemptAction → Prop
  | .commitRead w => ∃ i s expired e, h.routes w = .loaded i s expired ∧ expired ≠ s ∧
      h.attempts[i]? = some e ∧ e.2.held = none ∧ e.2.stored.isOpen = false ∧
      e.2.stored.session.status ≠ .expired
  | _ => False

section

variable {hash : ℕ → ℕ} {ttl : ℤ} {h : AttemptHost} {w : ℕ}

/-- A route's statement is a step on the table that leaves the starts alone. -/
structure RouteStep (L : Prop) (w : ℕ) (h h' : AttemptHost) : Prop where
  table : TableStep L (.route w) h.attempts h'.attempts
  startLocks : h'.startLocks = h.startLocks
  starts : h'.starts = h.starts
  answers : h'.answers = h.answers
  routes : ∀ v, RouteOk h'.attempts v (h'.routes v)

theorem RouteStep.of_goto {L : Prop} (hi : AttemptInv hash h) {T : AttemptTable}
    {p : RoutePhase} (hT : TableStep L (.route w) h.attempts T) (hp : RouteOk T w p) :
    RouteStep L w h { h.gotoRoute w p with attempts := T } where
  table := hT
  startLocks := rfl
  starts := rfl
  answers := rfl
  routes v := by
    rw [AttemptHost.gotoRoute]
    by_cases hvw : v = w
    · subst hvw
      simpa using hp
    · simpa [hvw] using (hi.routes v).step hT fun heq => hvw (SessionClient.route.inj heq).symm

theorem RouteStep.idle {L : Prop} (hi : AttemptInv hash h) {T : AttemptTable}
    (hT : TableStep L (.route w) h.attempts T) :
    RouteStep L w h { h.gotoRoute w .idle with attempts := T } :=
  .of_goto hi hT trivial

theorem RouteStep.refl {L : Prop} (hi : AttemptInv hash h) : RouteStep L w h h :=
  ⟨.refl hi.rows, rfl, rfl, rfl, hi.routes⟩

theorem routeStep_commitRead (hi : AttemptInv hash h) (w : ℕ) :
    RouteStep (LateExpiry h (.commitRead w)) w h (attemptAct hash ttl h (.commitRead w)) := by
  simp only [attemptAct]
  rcases hroute : h.routes w with _ | i | ⟨i, s, expired⟩ <;> dsimp only
  case loaded =>
    have hsame : TableStep (LateExpiry h (.commitRead w)) (.route w) h.attempts h.attempts :=
      .refl hi.rows
    rcases he : h.attempts[i]? with _ | e <;> dsimp only
    · exact .idle hi hsame
    · split_ifs with hequal hheld
      · exact .idle hi hsame
      · have hok := hi.routes w
        rw [hroute] at hok
        obtain ⟨now, rfl⟩ := hok
        obtain ⟨hopen, hexpired⟩ := (maybeExpireSession_eq_or s now).resolve_left hequal
        rw [Option.isNone_iff_eq_none] at hheld
        refine .idle hi (TableStep.modify hi.rows ?_)
        intro d hd
        obtain rfl := Option.some.inj (he.symm.trans hd)
        exact .flush hheld hopen hexpired fun hclosed hother =>
          ⟨i, s, _, e, hroute, hequal, he, hheld, hclosed, hother⟩
      · exact .refl hi
  all_goals exact .refl hi

theorem routeStep_lock {L : Prop} (hi : AttemptInv hash h) (w i : ℕ) :
    RouteStep L w h (attemptAct hash ttl h (.lock w i)) := by
  simp only [attemptAct]
  rcases h.routes w with _ | _ | _ <;> dsimp only
  case idle =>
    rcases hlock : (h.attempts[i]?).bind fun e => e.2.lock (.route w) with _ | row <;> dsimp only
    · exact .refl hi
    · obtain ⟨e, he, hlock⟩ := Option.bind_eq_some_iff.mp hlock
      refine .of_goto hi (TableStep.setLocked hi.rows he hlock) ?_
      obtain ⟨rfl, -⟩ := Row.lock_eq_some hlock
      exact ⟨_, _, getElem?_setRow_self he, rfl⟩
  all_goals exact .refl hi

theorem routeStep_operate {L : Prop} (hi : AttemptInv hash h) (w now : ℕ) (a : TimerAction) :
    RouteStep L w h (attemptAct hash ttl h (.operate w now a)) := by
  have hok := hi.routes w
  simp only [attemptAct]
  rcases hroute : h.routes w with _ | i | _ <;> dsimp only
  case locked =>
    rw [hroute] at hok
    obtain ⟨e, v, he, hv⟩ := hok
    rw [he]
    dsimp only
    rcases hresult : timerResult ⟨now, (e.2.visible (.route w)).session, fun _ => none⟩ a with
      _ | s <;> dsimp only
    · exact .refl hi
    · have hT : TableStep L (.route w) h.attempts (h.setRow i
          (e.2.put (.route w) { e.2.visible (.route w) with session := s })) :=
        TableStep.setRow hi.rows he (free_of_held hv) (.timer hresult)
      refine ⟨hT, rfl, rfl, rfl, fun u => ?_⟩
      by_cases huw : u = w
      · subst huw
        rw [hroute]
        exact ⟨_, _, getElem?_setRow_self he, rfl⟩
      · exact (hi.routes u).step hT fun heq => huw (SessionClient.route.inj heq).symm
  all_goals exact .refl hi

theorem routeStep_load {L : Prop} (hi : AttemptInv hash h) (w i now : ℕ) :
    RouteStep L w h (attemptAct hash ttl h (.load w i now)) := by
  simp only [attemptAct]
  split
  · exact .of_goto hi (.refl hi.rows) ⟨now, rfl⟩
  · exact .refl hi

/-- A step keeps the invariant and has an effect on the table. -/
theorem RouteStep.inv {L : Prop} {h' : AttemptHost} (hi : AttemptInv hash h)
    (hstep : RouteStep L w h h') : AttemptInv hash h' ∧ AttemptEffect L h h' := by
  refine ⟨hi.moved hstep.table ?_ ?_ fun v => Or.inr (hstep.routes v),
    .kept hstep.table hstep.answers⟩
  · rw [hstep.startLocks, hstep.starts]
    exact hi.holder
  · intro u q hq
    rw [hstep.starts] at hq
    exact Or.inl ⟨by simp, hq⟩

theorem attemptAct_inv (hi : AttemptInv hash h) (a : AttemptAction) :
    AttemptInv hash (attemptAct hash ttl h a) ∧
      AttemptEffect (LateExpiry h a) h (attemptAct hash ttl h a) := by
  have hsame : AttemptEffect False h h := .kept (c := .start 0) (.refl hi.rows) rfl
  cases a with
  | start t key =>
      simp only [attemptAct]
      rcases hr : h.starts t with _ | r <;> dsimp only
      · refine ⟨hi.moved (L := False) (c := .start t) (.refl hi.rows) ?_ ?_ fun w =>
          Or.inl ⟨by simp, rfl⟩, .kept (c := .start t) (.refl hi.rows) rfl⟩
        · intro u q hq hpast
          rcases h.starts_gotoStart hq with ⟨rfl, rfl⟩ | ⟨-, hq⟩
          · exact absurd rfl hpast
          · exact hi.holder u q hq hpast
        · intro u q hq
          rcases h.starts_gotoStart hq with ⟨rfl, rfl⟩ | ⟨hu, hq⟩
          · exact Or.inr trivial
          · refine Or.inl ⟨?_, hq⟩
            rintro ⟨⟩
            exact hu rfl
      · exact ⟨hi, hsame⟩
  | next t now =>
      simp only [attemptAct]
      rcases hr : h.starts t with _ | r <;> dsimp only
      · exact ⟨hi, hsame⟩
      · exact ⟨startNext_inv hi hr now, startNext_effect hi hr now⟩
  | fail t =>
      exact ⟨hi.rollbackStart t, .kept (TableStep.map (L := False) (c := .start t)
        (f := fun r => r.rollback (.start t)) fun e he => .rollback (hi.rows e he) _) rfl⟩
  | lock w i => exact RouteStep.inv hi (routeStep_lock hi w i)
  | operate w now a => exact RouteStep.inv hi (routeStep_operate hi w now a)
  | commit w => exact RouteStep.inv hi (.idle hi (hi.commit_table _))
  | rollback w =>
      exact RouteStep.inv hi (.idle hi (TableStep.map (L := False)
        (f := fun r => r.rollback (.route w)) fun e he => .rollback (hi.rows e he) _))
  | load w i now => exact RouteStep.inv hi (routeStep_load hi w i now)
  | commitRead w => exact RouteStep.inv hi (routeStep_commitRead hi w)

theorem freshAttempts_inv : AttemptInv hash freshAttempts where
  rows := by simp [freshAttempts]
  numbers := by simp [freshAttempts, AttemptHost.size]
  one := by simp [freshAttempts]
  holder := by simp [freshAttempts]
  starts := by simp [freshAttempts]
  routes w := trivial

end

/-! ## Every run -/

/-- The row is the one open attempt of its user on its challenge. -/
def AttemptHost.OnlyOpen (h : AttemptHost) (key : AttemptKey) (i : ℕ) : Prop :=
  ∃ row, h.attempts[i]? = some (key, row) ∧ row.stored.isOpen = true ∧
    ∀ j row', h.attempts[j]? = some (key, row') → row'.stored.isOpen = true → j = i

/-- What an answer tells of the step that has given it. -/
def StartAnswer.Holds (h h' : AttemptHost) : StartAnswer → Prop
  | .existing key i => h'.OnlyOpen key i ∧ h'.size key = h.size key
  | .created key attempt => h'.OnlyOpen key h.attempts.length ∧ attempt = h'.size key ∧
      h'.size key = h.size key + 1

/-- An attempt that has ended keeps its status. -/
def EndsKept (h h' : AttemptHost) : Prop :=
  ∀ (i : ℕ) (e : AttemptKey × Row SessionClient Attempt), h.attempts[i]? = some e →
    e.2.stored.isOpen = false → ∃ row : Row SessionClient Attempt,
      h'.attempts[i]? = some (e.1, row) ∧
        row.stored.session.status = e.2.stored.session.status

theorem eq_of_countP_le_one {α : Type} {p : α → Bool} {l : List α} (h : l.countP p ≤ 1)
    {i j : ℕ} {a b : α} (hi : l[i]? = some a) (ha : p a = true) (hj : l[j]? = some b)
    (hb : p b = true) : i = j := by
  induction l generalizing i j with
  | nil => simp at hi
  | cons x l ih =>
      rw [List.countP_cons] at h
      have hmem : ∀ {k : ℕ} {y : α}, l[k]? = some y → p y = true → 0 < l.countP p :=
        fun hk hy => List.countP_pos_iff.mpr ⟨_, List.mem_of_getElem? hk, hy⟩
      cases i with
      | zero =>
          cases j with
          | zero => rfl
          | succ j =>
              obtain rfl := Option.some.inj hi
              rw [if_pos ha] at h
              have := hmem hj hb
              omega
      | succ i =>
          cases j with
          | zero =>
              obtain rfl := Option.some.inj hj
              rw [if_pos hb] at h
              have := hmem hi ha
              omega
          | succ j => exact congrArg (· + 1) (ih ((Nat.le_add_right _ _).trans h) hi hj)

section

variable {hash : ℕ → ℕ} {ttl : ℤ} {L : Prop} {h h' : AttemptHost}

theorem AttemptInv.onlyOpen (hi : AttemptInv hash h) {key : AttemptKey} {i : ℕ}
    {row : Row SessionClient Attempt} (hrow : h.attempts[i]? = some (key, row))
    (hopen : row.stored.isOpen = true) : h.OnlyOpen key i := by
  refine ⟨row, hrow, hopen, fun j row' hrow' hopen' => ?_⟩
  exact eq_of_countP_le_one (hi.one key) hrow' (by simp [hopen']) hrow (by simp [hopen])

theorem AttemptEffect.answers_hold (hi : AttemptInv hash h') (heffect : AttemptEffect L h h') :
    ∃ new, h'.answers = h.answers ++ new ∧ ∀ x ∈ new, x.Holds h h' := by
  cases heffect with
  | kept table answers => exact ⟨[], by simpa using answers, by simp⟩
  | existing table answers found isOpen =>
      refine ⟨_, answers, fun x hx => ?_⟩
      obtain rfl := List.mem_singleton.mp hx
      exact ⟨hi.onlyOpen found isOpen, table.countP_key fun k => decide (k = _)⟩
  | @created c key T a table attempts answers number isOpen =>
      refine ⟨_, answers, fun x hx => ?_⟩
      obtain rfl := List.mem_singleton.mp hx
      have hsize : h'.size key = h.size key + 1 := by
        have hT := table.countP_key fun k => decide (k = key)
        rw [AttemptHost.size, attempts, List.countP_append, hT, List.countP_singleton,
          if_pos (by simp)]
        rfl
      refine ⟨?_, number.trans hsize.symm, hsize⟩
      rw [table.length_eq]
      refine hi.onlyOpen (?_ : _ = some (_, ⟨a, none⟩)) isOpen
      rw [attempts, List.getElem?_concat_length]

/-- No ended attempt is open again. -/
theorem AttemptEffect.ends_kept (heffect : AttemptEffect L h h') (hlate : ¬L) :
    EndsKept h h' := by
  have hkept : ∀ {c : SessionClient} {T : AttemptTable}, TableStep L c h.attempts T →
      ∀ (i : ℕ) (e : AttemptKey × Row SessionClient Attempt), h.attempts[i]? = some e →
        e.2.stored.isOpen = false → ∃ row : Row SessionClient Attempt,
          T[i]? = some (e.1, row) ∧
            row.stored.session.status = e.2.stored.session.status := by
    intro c T hT i e he hclosed
    obtain ⟨row, hrow, hstep⟩ := hT.getElem? he
    exact ⟨row, hrow, (hstep.closed hclosed).2.resolve_left hlate⟩
  intro i e he hclosed
  cases heffect with
  | kept table answers => exact hkept table i e he hclosed
  | existing table answers found isOpen => exact hkept table i e he hclosed
  | created table attempts answers number isOpen =>
      obtain ⟨row, hrow, hstatus⟩ := hkept table i e he hclosed
      refine ⟨row, ?_, hstatus⟩
      rw [attempts, List.getElem?_append_left (List.getElem?_eq_some_iff.mp hrow).1]
      exact hrow

/-- A L expiry takes the place of the end that the attempt has had. -/
theorem LateExpiry.not_ends_kept (hi : AttemptInv hash h) {a : AttemptAction}
    (ha : LateExpiry h a) : ¬EndsKept h (attemptAct hash ttl h a) := by
  cases a with
  | commitRead w =>
      obtain ⟨i, s, expired, e, hroute, hne, he, hheld, hclosed, hother⟩ := ha
      have hok := hi.routes w
      rw [hroute] at hok
      obtain ⟨now, rfl⟩ := hok
      obtain ⟨hopen, hexpired⟩ := (maybeExpireSession_eq_or s now).resolve_left hne
      have hchanged : (maybeExpireSession s now).status ≠ s.status := by
        rw [hexpired]
        intro heq
        rw [← heq] at hopen
        cases hopen
      intro hkept
      obtain ⟨row, hrow, hstatus⟩ := hkept i e he hclosed
      simp only [attemptAct, hroute, he, if_neg hne, hheld, Option.isNone_none, if_true,
        getElem?_setRow_self he, Option.some.injEq, Prod.mk.injEq, true_and] at hrow
      rw [← hrow] at hstatus
      exact hother (hstatus.symm.trans ((if_neg hchanged).trans hexpired))
  | _ => exact ha.elim

/-- In every run each user has one open attempt at most on a challenge, and the attempts are
numbered without a gap in the order of their commits. -/
theorem one_open_attempt (hash : ℕ → ℕ) (ttl : ℤ) (actions : List AttemptAction)
    (key : AttemptKey) :
    ((run (attemptAct hash ttl) freshAttempts actions).attempts.countP
        fun e => decide (e.1 = key) && e.2.stored.isOpen) ≤ 1 ∧
      ((run (attemptAct hash ttl) freshAttempts actions).attempts.filter fun e =>
          e.1 = key).map (fun e => e.2.stored.attemptNumber) =
        List.range' 1 ((run (attemptAct hash ttl) freshAttempts actions).size key) := by
  have hi : AttemptInv hash (run (attemptAct hash ttl) freshAttempts actions) :=
    invariant_run_of_step _ (fun _ a hi => (attemptAct_inv hi a).1) freshAttempts_inv
  exact ⟨hi.one key, hi.numbers key⟩

/-- In every run a start that answers with an attempt answers with the one that is open, and
one that it has created is the next in number. -/
theorem start_answers (hash : ℕ → ℕ) (ttl : ℤ) (actions : List AttemptAction) :
    Throughout (attemptAct hash ttl) (fun h a => ∃ new,
        (attemptAct hash ttl h a).answers = h.answers ++ new ∧
          ∀ x ∈ new, x.Holds h (attemptAct hash ttl h a)) freshAttempts actions := by
  apply throughout_of_step (AttemptInv hash) (fun _ a hi => (attemptAct_inv hi a).1) _
    freshAttempts_inv
  intro h a hi
  obtain ⟨hi', heffect⟩ := attemptAct_inv hi a
  exact heffect.answers_hold hi'

/-- The ended attempts of a run keep their status exactly when no read expires one late. -/
theorem ends_kept_iff (hash : ℕ → ℕ) (ttl : ℤ) (actions : List AttemptAction) :
    Throughout (attemptAct hash ttl) (fun h a => EndsKept h (attemptAct hash ttl h a))
        freshAttempts actions ↔
      Throughout (attemptAct hash ttl) (fun h a => ¬LateExpiry h a) freshAttempts actions := by
  apply throughout_iff_of_invariant (AttemptInv hash)
    (fun _ a hi _ => (attemptAct_inv hi a).1) _ freshAttempts_inv
  intro h a hi
  constructor
  · exact fun hkept hlate => hlate.not_ends_kept hi hkept
  · exact fun hlate => (attemptAct_inv hi a).2.ends_kept hlate

end

end PromptCode
