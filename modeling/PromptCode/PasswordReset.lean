import PromptCode.RowLock
import PromptCode.Transition
import PromptCode.Py.Sha256
import PromptCode.Py.Utf8
import Mathlib.Data.Int.Order.Basic
import Mathlib.Data.List.Nodup

/-!
# Password resets

`issue_password_reset` and `reset_password_with_token`, cut at every statement.  The reset
reads the row of the token without a lock, hashes the password, and writes the rows of the
user and of the token by their primary keys.
-/

namespace PromptCode

open Py Transition

/-- `RESET_TOKEN_TTL` in microseconds. -/
def resetTokenTtl : ℤ := 3600 * 1000000

/-- `hash_reset_token`, or `none` where the token has no encoding. -/
def hashResetToken (rawToken : Str) : Option Str := (utf8Encode rawToken).map sha256Hex

/-- A row of `password_reset_tokens`, under its `token_hash`. -/
structure PasswordResetToken where
  userId : ℕ
  expiresAt : ℤ
  usedAt : Option ℤ
  deriving DecidableEq

/-- What the flush of a reset has to write. -/
inductive ResetWrite where
  | passwordHash (value : Str)
  | usedAt (time : ℤ)
  deriving DecidableEq

/-- The statement that a client comes to next. -/
inductive ResetPhase where
  | insert (row : PasswordResetToken)
  | commitIssue
  | select (now : ℤ)
  | loadUser (now : ℤ) (userId : ℕ)
  | hashPassword (now : ℤ) (userId : ℕ) (passwordHash : Str)
  /-- With nothing left to write the commit follows. -/
  | flush (userId : ℕ) (writes : List ResetWrite)
  | ended
  deriving DecidableEq

structure ResetClient where
  tokenHash : Str
  phase : ResetPhase
  deriving DecidableEq

/-- A committed change of a password. -/
structure PasswordChange where
  tokenHash : Str
  time : ℤ
  deriving DecidableEq

structure ResetState where
  now : ℤ
  /-- `User.password_hash` of each user. -/
  users : ℕ → Row ℕ (Option Str)
  tokens : Str → Row ℕ (Option PasswordResetToken)
  clients : ℕ → Option ResetClient
  changes : List PasswordChange

inductive ResetAction where
  | tick (d : ℕ)
  | issue (t : ℕ) (userId : ℕ) (rawToken : Str)
  | reset (t : ℕ) (rawToken : Str)
  /-- The next statement of the client. -/
  | step (t : ℕ)
  /-- `hash_password` returns; the flush comes to the two tables in either order. -/
  | hashed (t : ℕ) (passwordHash : Str) (userFirst : Bool)
  /-- An exception: the client rolls back. -/
  | fail (t : ℕ)

namespace ResetState

variable (st : ResetState)

def setClient (t : ℕ) (c : ResetClient) : ResetState :=
  { st with clients := Function.update st.clients t (some c) }

def setToken (tokenHash : Str) (row : Row ℕ (Option PasswordResetToken)) : ResetState :=
  { st with tokens := Function.update st.tokens tokenHash row }

def setUser (userId : ℕ) (row : Row ℕ (Option Str)) : ResetState :=
  { st with users := Function.update st.users userId row }

def commit (t : ℕ) (c : ResetClient) : ResetState :=
  { st with
    users := fun userId => (st.users userId).commit t
    tokens := fun tokenHash => (st.tokens tokenHash).commit t }.setClient t
      { c with phase := .ended }

def rollback (t : ℕ) (c : ResetClient) : ResetState :=
  { st with
    users := fun userId => (st.users userId).rollback t
    tokens := fun tokenHash => (st.tokens tokenHash).rollback t }.setClient t
      { c with phase := .ended }

end ResetState

/-- The attributes that `reset_password_with_token` has changed; one that it has set to the
value that was loaded is not written. -/
def resetWrites (now : ℤ) (loaded passwordHash : Str) (userFirst : Bool) : List ResetWrite :=
  if passwordHash = loaded then [.usedAt now]
  else if userFirst then [.passwordHash passwordHash, .usedAt now]
  else [.usedAt now, .passwordHash passwordHash]

/-- `UPDATE .. WHERE id`: an error when there is no row. -/
def flushWrite (st : ResetState) (t : ℕ) (c : ResetClient) (userId : ℕ)
    (rest : List ResetWrite) : ResetWrite → ResetState
  | .passwordHash value =>
      match (st.users userId).update t Option.isSome (Option.map fun _ => value) with
      | none => st
      | some (_, false) => st.rollback t c
      | some (row, true) => (st.setUser userId row).setClient t
          { c with phase := .flush userId rest }
  | .usedAt time =>
      match (st.tokens c.tokenHash).update t Option.isSome
          (Option.map fun row => { row with usedAt := some time }) with
      | none => st
      | some (_, false) => st.rollback t c
      | some (row, true) => (st.setToken c.tokenHash row).setClient t
          { c with phase := .flush userId rest }

/-- The insert of `issue_password_reset`: the user exists and the hash is new. -/
def insertToken (st : ResetState) (t : ℕ) (c : ResetClient) (row : PasswordResetToken) :
    ResetState :=
  match (st.users row.userId).visible t with
  | none => st.rollback t c
  | some _ =>
      if (st.tokens c.tokenHash).free t then
        match (st.tokens c.tokenHash).visible t with
        | some _ => st.rollback t c
        | none => (st.setToken c.tokenHash ((st.tokens c.tokenHash).put t (some row))).setClient
            t { c with phase := .commitIssue }
      else st

/-- One statement.  A client that waits for a lock stays where it is. -/
def resetStep (st : ResetState) (t : ℕ) (c : ResetClient) : ResetState :=
  match c.phase with
  | .insert row => insertToken st t c row
  | .commitIssue => st.commit t c
  | .select now =>
      match (st.tokens c.tokenHash).visible t with
      | none => st.rollback t c
      | some row =>
          if row.usedAt.isSome ∨ row.expiresAt ≤ now then st.rollback t c
          else st.setClient t { c with phase := .loadUser now row.userId }
  | .loadUser now userId =>
      match (st.users userId).visible t with
      | none => st.rollback t c
      | some passwordHash =>
          st.setClient t { c with phase := .hashPassword now userId passwordHash }
  | .hashPassword _ _ _ => st
  | .flush userId (w :: rest) => flushWrite st t c userId rest w
  | .flush _ [] =>
      { st.commit t c with changes := st.changes ++ [⟨c.tokenHash, st.now⟩] }
  | .ended => st

/-- A new call. -/
def ResetState.call (st : ResetState) (t : ℕ) (rawToken : Str) (phase : ResetPhase) :
    ResetState :=
  match st.clients t, hashResetToken rawToken with
  | none, some tokenHash => st.setClient t ⟨tokenHash, phase⟩
  | _, _ => st

def resetAct (st : ResetState) : ResetAction → ResetState
  | .tick d => { st with now := st.now + d }
  | .issue t userId rawToken =>
      st.call t rawToken (.insert ⟨userId, st.now + resetTokenTtl, none⟩)
  | .reset t rawToken => st.call t rawToken (.select st.now)
  | .step t =>
      match st.clients t with
      | none => st
      | some c => resetStep st t c
  | .hashed t passwordHash userFirst =>
      match st.clients t with
      | some ⟨tokenHash, .hashPassword now userId loaded⟩ => st.setClient t
          ⟨tokenHash, .flush userId (resetWrites now loaded passwordHash userFirst)⟩
      | _ => st
  | .fail t =>
      match st.clients t with
      | none => st
      | some c => if c.phase = .ended then st else st.rollback t c

/-- The users are there and no token has been issued. -/
def ResetState.start (now : ℤ) (users : ℕ → Option Str) : ResetState :=
  ⟨now, fun userId => ⟨users userId, none⟩, fun _ => ⟨none, none⟩, fun _ => none, []⟩

/-- No token has led to two changes, and none to one at its expiry or later. -/
structure ResetOnce (st : ResetState) : Prop where
  once : (st.changes.map (·.tokenHash)).Nodup
  inTime : ∀ c ∈ st.changes, ∃ row, (st.tokens c.tokenHash).stored = some row ∧
    c.time < row.expiresAt

/-- When a reset commits, its token is still unused in the database, and has not expired. -/
def CommitsValid (st : ResetState) : ResetAction → Prop
  | .step t => ∀ c userId, st.clients t = some c → c.phase = .flush userId [] →
      ∃ row, (st.tokens c.tokenHash).stored = some row ∧ row.usedAt = none ∧
        st.now < row.expiresAt
  | _ => True

section

variable {st st' : ResetState} {a : ResetAction} {t u : ℕ} {c c' : ResetClient}

@[simp] theorem ResetState.setClient_self : (st.setClient t c).clients t = some c :=
  Function.update_self ..

theorem ResetState.setClient_of_ne (h : u ≠ t) :
    (st.setClient t c).clients u = st.clients u := Function.update_of_ne h ..

/-! ## What one statement does -/

/-- A phase of a reset in which it has read a row of its token. -/
def ResetPhase.HasRead : ResetPhase → Prop
  | .loadUser _ _ | .hashPassword _ _ _ => True
  | _ => False

/-- What a statement leaves behind. -/
inductive ResetMove (st : ResetState) (t : ℕ) (c : ResetClient) : ResetState → Prop where
  | stay : ResetMove st t c st
  | rollback : ResetMove st t c (st.rollback t c)
  | insert (row : PasswordResetToken) (hphase : c.phase = .insert row)
      (hfree : (st.tokens c.tokenHash).free t = true)
      (hnew : (st.tokens c.tokenHash).visible t = none) :
      ResetMove st t c
        ((st.setToken c.tokenHash ((st.tokens c.tokenHash).put t (some row))).setClient t
          { c with phase := .commitIssue })
  | commitIssue (hphase : c.phase = .commitIssue) : ResetMove st t c (st.commit t c)
  | read (hphase : (∃ now, c.phase = .select now) ∨ c.phase.HasRead) (phase : ResetPhase)
      (hnext : phase.HasRead)
      (hrow : c.phase.HasRead ∨ ∃ row, (st.tokens c.tokenHash).visible t = some row) :
      ResetMove st t c (st.setClient t { c with phase := phase })
  | writeUser (userId : ℕ) (value : Str) (rest : List ResetWrite)
      (hphase : c.phase = .flush userId (.passwordHash value :: rest))
      (row : Row ℕ (Option Str)) :
      ResetMove st t c ((st.setUser userId row).setClient t
        { c with phase := .flush userId rest })
  | writeToken (userId : ℕ) (time : ℤ) (rest : List ResetWrite)
      (hphase : c.phase = .flush userId (.usedAt time :: rest)) (row : PasswordResetToken)
      (hfree : (st.tokens c.tokenHash).free t = true)
      (hrow : (st.tokens c.tokenHash).visible t = some row) :
      ResetMove st t c
        ((st.setToken c.tokenHash ((st.tokens c.tokenHash).put t
          (some { row with usedAt := some time }))).setClient t
            { c with phase := .flush userId rest })
  | commit (userId : ℕ) (hphase : c.phase = .flush userId []) :
      ResetMove st t c { st.commit t c with changes := st.changes ++ [⟨c.tokenHash, st.now⟩] }

theorem resetMove_insertToken {row : PasswordResetToken} (hphase : c.phase = .insert row) :
    ResetMove st t c (insertToken st t c row) := by
  rw [insertToken]
  rcases (st.users row.userId).visible t with _ | user
  · exact .rollback
  · dsimp only
    split_ifs with hfree
    · rcases hnew : (st.tokens c.tokenHash).visible t with _ | row'
      · exact .insert row hphase hfree hnew
      · exact .rollback
    · exact .stay

theorem resetMove_flushWrite {userId : ℕ} {w : ResetWrite} {rest : List ResetWrite}
    (hphase : c.phase = .flush userId (w :: rest)) :
    ResetMove st t c (flushWrite st t c userId rest w) := by
  rcases w with value | time
  case passwordHash =>
    rw [flushWrite]
    rcases (st.users userId).update t Option.isSome (Option.map fun _ => value) with
      _ | ⟨row, _ | _⟩
    · exact .stay
    · exact .rollback
    · exact .writeUser userId value rest hphase row
  case usedAt =>
    rw [flushWrite]
    rcases hupdate : (st.tokens c.tokenHash).update t Option.isSome
      (Option.map fun row => { row with usedAt := some time }) with _ | ⟨row, _ | _⟩
    · exact .stay
    · exact .rollback
    · rcases Row.update_eq_some hupdate with ⟨hhit, -⟩ | ⟨-, rfl, hsome, hfree⟩
      · exact nomatch hhit
      · obtain ⟨row, hrow⟩ := Option.isSome_iff_exists.mp hsome
        rw [hrow]
        exact .writeToken userId time rest hphase row hfree hrow

theorem resetMove_step (st : ResetState) (t : ℕ) (c : ResetClient) :
    ResetMove st t c (resetStep st t c) := by
  rw [resetStep]
  rcases hphase : c.phase with row | _ | now | ⟨now, userId⟩ | ⟨now, userId, loaded⟩ |
    ⟨userId, _ | ⟨w, rest⟩⟩ | _
  case insert => exact resetMove_insertToken hphase
  case commitIssue => exact .commitIssue hphase
  case select =>
    dsimp only
    rcases hrow : (st.tokens c.tokenHash).visible t with _ | row
    · exact .rollback
    · dsimp only
      split_ifs
      · exact .rollback
      · exact .read (.inl ⟨now, hphase⟩) _ trivial (.inr ⟨row, hrow⟩)
  case loadUser =>
    have hread : c.phase.HasRead := by
      rw [hphase]
      trivial
    dsimp only
    rcases (st.users userId).visible t with _ | loaded
    · exact .rollback
    · exact .read (.inr hread) _ trivial (.inl hread)
  case hashPassword => exact .stay
  case flush.nil => exact .commit userId hphase
  case flush.cons => exact resetMove_flushWrite hphase
  case ended => exact .stay

/-! ## The invariant -/

/-- The client has the lock of no token. -/
def HoldsNoToken (st : ResetState) (t : ℕ) : Prop := ∀ h, (st.tokens h).Released t

/-- The token has been issued. -/
def Issued (st : ResetState) (tokenHash : Str) (row : PasswordResetToken) : Prop :=
  ∃ stored, (st.tokens tokenHash).stored = some stored ∧ stored.expiresAt = row.expiresAt

/-- The lock that a client has on the row of its token. -/
structure HoldsToken (st : ResetState) (t : ℕ) (c : ResetClient) (row : PasswordResetToken) :
    Prop where
  others : ∀ h, h ≠ c.tokenHash → (st.tokens h).Released t
  held : (st.tokens c.tokenHash).held = some (t, some row)

/-- The locks of a client in each phase. -/
def ResetClientOk (st : ResetState) (t : ℕ) (c : ResetClient) : Prop :=
  match c.phase with
  | .insert row => HoldsNoToken st t ∧ row.usedAt = none
  | .commitIssue => ∃ row, HoldsToken st t c row ∧ row.usedAt = none ∧
      (st.tokens c.tokenHash).stored = none
  | .select _ | .ended => HoldsNoToken st t
  | .loadUser _ _ | .hashPassword _ _ _ => HoldsNoToken st t ∧ ∃ row, Issued st c.tokenHash row
  | .flush _ writes =>
      (HoldsNoToken st t ∧ (∃ row, Issued st c.tokenHash row) ∧
        ∃ time, .usedAt time ∈ writes) ∨
      ∃ row, HoldsToken st t c row ∧ row.usedAt.isSome ∧ Issued st c.tokenHash row

/-- The token has been used. -/
def TokenUsed (st : ResetState) (tokenHash : Str) : Prop :=
  ∃ row, (st.tokens tokenHash).stored = some row ∧ row.usedAt.isSome

structure ResetOk (st : ResetState) : Prop where
  used : ∀ h, h ∈ st.changes.map (·.tokenHash) ↔ TokenUsed st h
  idle : ∀ t, st.clients t = none → HoldsNoToken st t
  client : ∀ t c, st.clients t = some c → ResetClientOk st t c

/-! ## Frames -/

theorem ResetMove.clients_of_ne (hmove : ResetMove st t c st') (hu : u ≠ t) :
    st'.clients u = st.clients u := by
  rcases hmove
  case stay => rfl
  all_goals exact ResetState.setClient_of_ne hu

theorem ResetMove.client_isSome (hmove : ResetMove st t c st') (hc : st.clients t = some c) :
    st'.clients t ≠ none := by
  intro hnone
  rcases hmove
  case stay => exact nomatch hc.symm.trans hnone
  all_goals exact nomatch ResetState.setClient_self.symm.trans hnone

theorem onlyBy_setToken {h : Str} {v : Option PasswordResetToken}
    (hfree : (st.tokens h).free t = true) (k : Str) :
    Row.OnlyBy t (st.tokens k) ((st.setToken h ((st.tokens h).put t v)).tokens k) := by
  by_cases hk : k = h
  · subst hk
    have heq : (st.setToken k ((st.tokens k).put t v)).tokens k = (st.tokens k).put t v :=
      Function.update_self ..
    rw [heq]
    exact Row.onlyBy_put hfree v
  · exact .inl (Function.update_of_ne hk ..)

/-- The rows of a move belong to the client that moves. -/
theorem ResetMove.onlyBy (hmove : ResetMove st t c st') (k : Str) :
    Row.OnlyBy t (st.tokens k) (st'.tokens k) := by
  rcases hmove
  case rollback => exact Row.onlyBy_rollback (st.tokens k) t
  case insert row hphase hfree hnew => exact onlyBy_setToken hfree k
  case writeToken hfree _ => exact onlyBy_setToken hfree k
  case commitIssue => exact Row.onlyBy_commit (st.tokens k) t
  case commit => exact Row.onlyBy_commit (st.tokens k) t
  all_goals exact .inl rfl

theorem HoldsNoToken.commit_eq (h : HoldsNoToken st t) (k : Str) :
    (st.tokens k).commit t = st.tokens k := Row.commit_of_released (h k)

/-- The commit stores the row of the client's token. -/
theorem HoldsToken.commit_stored {row : PasswordResetToken} (h : HoldsToken st t c row)
    (k : Str) : ((st.tokens k).commit t).stored =
      if k = c.tokenHash then some row else (st.tokens k).stored := by
  split_ifs with hk
  · rw [hk, Row.commit_of_held h.held]
  · rw [Row.commit_of_released (h.others k hk)]

/-- What a move does to the stored tokens. -/
inductive StoredTokens (st : ResetState) (c : ResetClient) (st' : ResetState) : Prop where
  | same (hchanges : st'.changes = st.changes)
      (hstored : ∀ k, (st'.tokens k).stored = (st.tokens k).stored)
  | issued (row : PasswordResetToken) (hchanges : st'.changes = st.changes)
      (hunused : row.usedAt = none) (hnew : (st.tokens c.tokenHash).stored = none)
      (hstored : ∀ k, (st'.tokens k).stored =
        if k = c.tokenHash then some row else (st.tokens k).stored)
  | changed (row : PasswordResetToken) (userId : ℕ) (hphase : c.phase = .flush userId [])
      (hchanges : st'.changes = st.changes ++ [⟨c.tokenHash, st.now⟩])
      (hused : row.usedAt.isSome) (hissued : Issued st c.tokenHash row)
      (hstored : ∀ k, (st'.tokens k).stored =
        if k = c.tokenHash then some row else (st.tokens k).stored)

theorem setToken_stored {h : Str} {v : Option PasswordResetToken} (k : Str) :
    ((st.setToken h ((st.tokens h).put t v)).tokens k).stored = (st.tokens k).stored := by
  by_cases hk : k = h
  · subst hk
    have heq : (st.setToken k ((st.tokens k).put t v)).tokens k = (st.tokens k).put t v :=
      Function.update_self ..
    rw [heq, Row.put_stored]
  · exact congrArg Row.stored (Function.update_of_ne hk ..)

theorem ResetOk.storedTokens (h : ResetOk st) (hc : st.clients t = some c)
    (hmove : ResetMove st t c st') : StoredTokens st c st' := by
  have hok := h.client t c hc
  rcases hmove
  case rollback => exact .same rfl fun k => Row.rollback_stored
  case insert => exact .same rfl fun k => setToken_stored k
  case writeToken => exact .same rfl fun k => setToken_stored k
  case commitIssue hphase =>
    rw [ResetClientOk, hphase] at hok
    obtain ⟨row, hholds, hunused, hnew⟩ := hok
    exact .issued row rfl hunused hnew hholds.commit_stored
  case commit userId hphase =>
    rw [ResetClientOk, hphase] at hok
    rcases hok with ⟨-, -, time, hmem⟩ | ⟨row, hholds, hused, hissued⟩
    · exact absurd hmem List.not_mem_nil
    · exact .changed row userId hphase rfl hused hissued hholds.commit_stored
  all_goals exact .same rfl fun _ => rfl

/-- An issued token keeps its expiry. -/
theorem StoredTokens.issued_of (hstored : StoredTokens st c st') {k : Str}
    {row : PasswordResetToken} (h : Issued st k row) : Issued st' k row := by
  obtain ⟨stored, hs, hexpires⟩ := h
  rcases hstored with ⟨-, hsame⟩ | ⟨row', -, -, hnew, hsame⟩ |
    ⟨row', -, -, -, -, ⟨stored', hs', hexpires'⟩, hsame⟩
  case same => exact ⟨stored, (hsame k).trans hs, hexpires⟩
  case issued =>
    have hk : k ≠ c.tokenHash := by
      rintro rfl
      exact nomatch hnew.symm.trans hs
    exact ⟨stored, by rw [hsame, if_neg hk, hs], hexpires⟩
  case changed =>
    by_cases hk : k = c.tokenHash
    · subst hk
      obtain rfl := Option.some.inj (hs.symm.trans hs')
      exact ⟨row', by rw [hsame, if_pos rfl], hexpires'.symm.trans hexpires⟩
    · exact ⟨stored, by rw [hsame, if_neg hk, hs], hexpires⟩

/-- The changes are those of the used tokens. -/
theorem StoredTokens.used (hstored : StoredTokens st c st')
    (h : ∀ k, k ∈ st.changes.map (·.tokenHash) ↔ TokenUsed st k) (k : Str) :
    k ∈ st'.changes.map (·.tokenHash) ↔ TokenUsed st' k := by
  have hother : ∀ {v : Option PasswordResetToken},
      (st'.tokens k).stored = v → (st.tokens k).stored = v →
      (TokenUsed st' k ↔ TokenUsed st k) := by
    intro v hv hv'
    rw [TokenUsed, TokenUsed, hv, hv']
  rcases hstored with ⟨hchanges, hsame⟩ | ⟨row, hchanges, hunused, hnew, hsame⟩ |
    ⟨row, userId, hphase, hchanges, hused, -, hsame⟩
  case same => rw [hchanges, h, hother (hsame k) rfl]
  case issued =>
    rw [hchanges, h]
    by_cases hk : k = c.tokenHash
    · have hrow : (st'.tokens k).stored = some row := by rw [hsame, if_pos hk]
      constructor
      · rintro ⟨row', hs, -⟩
        exact nomatch (hk ▸ hs).symm.trans hnew
      · rintro ⟨row', hs, hu⟩
        obtain rfl := Option.some.inj (hrow.symm.trans hs)
        rw [hunused] at hu
        exact nomatch hu
    · rw [hother (by rw [hsame, if_neg hk]) rfl]
  case changed =>
    rw [hchanges, List.map_append, List.mem_append, h]
    by_cases hk : k = c.tokenHash
    · have hrow : (st'.tokens k).stored = some row := by rw [hsame, if_pos hk]
      exact iff_of_true (.inr (List.mem_singleton.mpr hk)) ⟨row, hrow, hused⟩
    · rw [hother (by rw [hsame, if_neg hk]) rfl]
      exact or_iff_left fun hmem => hk (List.mem_singleton.mp hmem)

/-- Another client keeps its locks. -/
theorem ResetClientOk.frame (h : ResetClientOk st u c') (hu : u ≠ t)
    (hrow : ∀ k, Row.OnlyBy t (st.tokens k) (st'.tokens k))
    (hissued : ∀ k row, Issued st k row → Issued st' k row) : ResetClientOk st' u c' := by
  have hreleased : ∀ k, (st.tokens k).Released u → (st'.tokens k).Released u := by
    intro k hk
    rcases hrow k with heq | hrel
    · rwa [heq]
    · exact (hrel u hu).2
  have hnone : HoldsNoToken st u → HoldsNoToken st' u := fun hn k => hreleased k (hn k)
  have hsame : ∀ row, HoldsToken st u c' row →
      st'.tokens c'.tokenHash = st.tokens c'.tokenHash := by
    intro row hh
    rcases hrow c'.tokenHash with heq | hrel
    · exact heq
    · exact absurd hh.held ((hrel u hu).1 _)
  have hholds : ∀ row, HoldsToken st u c' row → HoldsToken st' u c' row := fun row hh =>
    ⟨fun k hk => hreleased k (hh.others k hk), (hsame row hh).symm ▸ hh.held⟩
  rw [ResetClientOk] at h ⊢
  rcases hphase : c'.phase <;> rw [hphase] at h
  case insert => exact ⟨hnone h.1, h.2⟩
  case commitIssue =>
    obtain ⟨row, hh, hunused, hnew⟩ := h
    exact ⟨row, hholds row hh, hunused, (hsame row hh).symm ▸ hnew⟩
  case select => exact hnone h
  case loadUser => exact ⟨hnone h.1, h.2.imp fun row => hissued _ row⟩
  case hashPassword => exact ⟨hnone h.1, h.2.imp fun row => hissued _ row⟩
  case flush =>
    rcases h with ⟨hn, hi, hpending⟩ | ⟨row, hh, hused, hi⟩
    · exact .inl ⟨hnone hn, hi.imp fun row => hissued _ row, hpending⟩
    · exact .inr ⟨row, hholds row hh, hused, hissued _ _ hi⟩
  case ended => exact hnone h

theorem holdsToken_setToken {v : PasswordResetToken}
    (h : ∀ k, k ≠ c.tokenHash → (st.tokens k).Released t) :
    HoldsToken (st.setToken c.tokenHash ((st.tokens c.tokenHash).put t (some v))) t c v where
  others := fun k hk => by
    have heq : (st.setToken c.tokenHash ((st.tokens c.tokenHash).put t (some v))).tokens k =
      st.tokens k := Function.update_of_ne hk ..
    rw [heq]
    exact h k hk
  held := by
    have heq : (st.setToken c.tokenHash ((st.tokens c.tokenHash).put t (some v))).tokens
      c.tokenHash = (st.tokens c.tokenHash).put t (some v) := Function.update_self ..
    rw [heq, Row.put_held]

/-- A client that holds no token sees the stored row. -/
theorem HoldsNoToken.issued (h : HoldsNoToken st t) {k : Str} {row : PasswordResetToken}
    (hrow : (st.tokens k).visible t = some row) : Issued st k row := by
  rw [Row.visible_of_released (h k)] at hrow
  exact ⟨row, hrow, rfl⟩

theorem resetClientOk_of_hasRead (hphase : c.phase.HasRead) (hnone : HoldsNoToken st t)
    (hissued : ∃ row, Issued st c.tokenHash row) : ResetClientOk st t c := by
  rw [ResetClientOk]
  rcases hc : c.phase <;> rw [hc] at hphase
  case loadUser => exact ⟨hnone, hissued⟩
  case hashPassword => exact ⟨hnone, hissued⟩
  all_goals exact absurd hphase id

theorem ResetClientOk.hasRead (h : ResetClientOk st t c) (hphase : c.phase.HasRead) :
    HoldsNoToken st t ∧ ∃ row, Issued st c.tokenHash row := by
  rw [ResetClientOk] at h
  rcases hc : c.phase <;> rw [hc] at h hphase
  case loadUser => exact h
  case hashPassword => exact h
  all_goals exact absurd hphase id

/-- The client that moves has the locks of its next phase. -/
theorem ResetOk.own (h : ResetOk st) (hc : st.clients t = some c)
    (hmove : ResetMove st t c st') :
    ∀ c', st'.clients t = some c' → ResetClientOk st' t c' := by
  have hok := h.client t c hc
  have hstored := h.storedTokens hc hmove
  have hkeeps : ∀ k row, Issued st k row → Issued st' k row :=
    fun _ _ hissued => hstored.issued_of hissued
  intro c' hc'
  rcases hmove
  case stay =>
    obtain rfl := Option.some.inj (hc.symm.trans hc')
    exact hok
  all_goals
    obtain rfl := Option.some.inj (ResetState.setClient_self.symm.trans hc')
  case rollback => exact fun k => Row.released_rollback (st.tokens k) t
  case insert row hphase hfree hnew =>
    rw [ResetClientOk, hphase] at hok
    obtain ⟨hnone, hunused⟩ := hok
    refine ⟨row, ?_, hunused, ?_⟩
    · have hholds := holdsToken_setToken (c := c) (v := row) fun k _ => hnone k
      exact ⟨hholds.others, hholds.held⟩
    · rw [Row.visible_of_released (hnone _)] at hnew
      exact (setToken_stored _).trans hnew
  case commitIssue => exact fun k => Row.released_commit (st.tokens k) t
  case read hphase phase hnext hrow =>
    rcases hphase with ⟨now, hphase⟩ | hread
    · rw [ResetClientOk, hphase] at hok
      rw [hphase] at hrow
      obtain ⟨row, hvisible⟩ := hrow.resolve_left id
      exact resetClientOk_of_hasRead hnext hok ⟨row, hok.issued hvisible⟩
    · obtain ⟨hnone, hissued⟩ := hok.hasRead hread
      exact resetClientOk_of_hasRead hnext hnone hissued
  case writeUser userId value rest hphase row =>
    rw [ResetClientOk, hphase] at hok
    rcases hok with ⟨hnone, hissued, time, hmem⟩ | ⟨row, hholds, hused, hissued⟩
    · exact .inl ⟨hnone, hissued, time, (List.mem_cons.mp hmem).resolve_left nofun⟩
    · exact .inr ⟨row, ⟨hholds.others, hholds.held⟩, hused, hissued⟩
  case writeToken userId time rest hphase row hfree hrow =>
    rw [ResetClientOk, hphase] at hok
    have hothers : ∀ k, k ≠ c.tokenHash → (st.tokens k).Released t := by
      rcases hok with ⟨hnone, -, -⟩ | ⟨row', hholds, -, -⟩
      · exact fun k _ => hnone k
      · exact hholds.others
    have hissued : Issued st c.tokenHash row := by
      rcases hok with ⟨hnone, -, -⟩ | ⟨row', hholds, -, hi⟩
      · exact hnone.issued hrow
      · rw [Row.visible_of_held hholds.held] at hrow
        exact Option.some.inj hrow ▸ hi
    have hholds := holdsToken_setToken (v := { row with usedAt := some time }) hothers
    exact .inr ⟨{ row with usedAt := some time }, ⟨hholds.others, hholds.held⟩, rfl,
      hkeeps _ _ hissued⟩
  case commit => exact fun k => Row.released_commit (st.tokens k) t

theorem ResetOk.move (h : ResetOk st) (hc : st.clients t = some c)
    (hmove : ResetMove st t c st') : ResetOk st' := by
  have hstored := h.storedTokens hc hmove
  refine ⟨hstored.used h.used, fun u hu k => ?_, fun u c' hu => ?_⟩
  · have hut : u ≠ t := by
      rintro rfl
      exact hmove.client_isSome hc hu
    have hbefore := h.idle u ((hmove.clients_of_ne hut).symm.trans hu) k
    rcases hmove.onlyBy k with heq | hrel
    · rwa [heq]
    · exact (hrel u hut).2
  · by_cases hut : u = t
    · subst hut
      exact h.own hc hmove c' hu
    · rw [hmove.clients_of_ne hut] at hu
      exact (h.client u c' hu).frame hut hmove.onlyBy fun _ _ => hstored.issued_of

theorem ResetClientOk.of_tokens (h : ResetClientOk st t c) (htokens : st'.tokens = st.tokens) :
    ResetClientOk st' t c := by
  refine h.frame (Nat.ne_add_one t) (fun k => .inl (congrFun htokens k)) fun k row hissued => ?_
  rwa [Issued, htokens]

/-- A step that changes at most the phase of one client, without locks. -/
theorem ResetOk.setClient (h : ResetOk st) (hok : ResetClientOk st t c) :
    ResetOk (st.setClient t c) := by
  refine ⟨h.used, fun u hu => ?_, fun u c' hu => ?_⟩
  · by_cases hut : u = t
    · subst hut
      exact nomatch ResetState.setClient_self.symm.trans hu
    · exact h.idle u ((ResetState.setClient_of_ne hut).symm.trans hu)
  · by_cases hut : u = t
    · subst hut
      obtain rfl := Option.some.inj (ResetState.setClient_self.symm.trans hu)
      exact hok.of_tokens rfl
    · exact (h.client u c' ((ResetState.setClient_of_ne hut).symm.trans hu)).of_tokens rfl

theorem ResetOk.call (h : ResetOk st) {rawToken : Str} {phase : ResetPhase}
    (hok : ∀ tokenHash, HoldsNoToken st t → ResetClientOk st t ⟨tokenHash, phase⟩) :
    ResetOk (st.call t rawToken phase) := by
  rw [ResetState.call]
  rcases hc : st.clients t with _ | c
  · rcases hashResetToken rawToken with _ | tokenHash
    · exact h
    · exact h.setClient (hok tokenHash (h.idle t hc))
  · exact h

theorem mem_resetWrites (now : ℤ) (loaded passwordHash : Str) (userFirst : Bool) :
    .usedAt now ∈ resetWrites now loaded passwordHash userFirst := by
  rw [resetWrites]
  split_ifs <;> simp

theorem ResetOk.act (h : ResetOk st) (a : ResetAction) : ResetOk (resetAct st a) := by
  rcases a with d | ⟨t, userId, rawToken⟩ | ⟨t, rawToken⟩ | t | ⟨t, passwordHash, userFirst⟩ | t
  case tick => exact ⟨h.used, h.idle, fun t c hc => (h.client t c hc).of_tokens rfl⟩
  case issue => exact h.call fun _ hnone => ⟨hnone, rfl⟩
  case reset => exact h.call fun _ hnone => hnone
  case step =>
    rw [resetAct]
    rcases hc : st.clients t with _ | c
    · exact h
    · exact h.move hc (resetMove_step st t c)
  case hashed =>
    rw [resetAct]
    split
    · rename_i tokenHash now userId loaded hc
      obtain ⟨hnone, hissued⟩ := (h.client t _ hc).hasRead trivial
      exact h.setClient (.inl ⟨hnone, hissued, now, mem_resetWrites ..⟩)
    · exact h
  case fail =>
    rw [resetAct]
    rcases hc : st.clients t with _ | c
    · exact h
    · dsimp only
      split_ifs
      · exact h
      · exact h.move hc .rollback

theorem resetOk_start (now : ℤ) (users : ℕ → Option Str) : ResetOk (.start now users) where
  used := fun k => by
    constructor
    · exact fun hmem => absurd hmem List.not_mem_nil
    · rintro ⟨row, hrow, -⟩
      exact nomatch hrow
  idle := fun _ _ _ _ => nofun
  client := nofun

/-! ## Single use -/

/-- An issued token keeps its expiry, so a change stays in time. -/
theorem StoredTokens.inTime_iff (hstored : StoredTokens st c st') {tokenHash : Str} {time : ℤ}
    {row : PasswordResetToken} (hrow : (st.tokens tokenHash).stored = some row) :
    (∃ row, (st.tokens tokenHash).stored = some row ∧ time < row.expiresAt) ↔
      ∃ row, (st'.tokens tokenHash).stored = some row ∧ time < row.expiresAt := by
  obtain ⟨row', hrow', hexpires⟩ := hstored.issued_of ⟨row, hrow, rfl⟩
  rw [hrow, hrow']
  simp [hexpires]

/-- A step that commits no change of a password. -/
theorem StoredTokens.resetOnce_iff (hstored : StoredTokens st c st')
    (hchanges : st'.changes = st.changes)
    (hissued : ∀ change ∈ st.changes,
      ∃ row, (st.tokens change.tokenHash).stored = some row) :
    ResetOnce st' ↔ ResetOnce st := by
  constructor
  · intro h
    refine ⟨hchanges ▸ h.once, fun change hmem => ?_⟩
    obtain ⟨row, hrow⟩ := hissued change hmem
    exact hstored.inTime_iff hrow |>.mpr (h.inTime change (hchanges ▸ hmem))
  · intro h
    refine ⟨hchanges ▸ h.once, fun change hmem => ?_⟩
    obtain ⟨row, hrow⟩ := hissued change (hchanges ▸ hmem)
    exact hstored.inTime_iff hrow |>.mp (h.inTime change (hchanges ▸ hmem))

theorem ResetOk.issued_of_mem (h : ResetOk st) {change : PasswordChange}
    (hmem : change ∈ st.changes) :
    ∃ row, (st.tokens change.tokenHash).stored = some row := by
  obtain ⟨row, hrow, -⟩ := (h.used change.tokenHash).mp (List.mem_map_of_mem hmem)
  exact ⟨row, hrow⟩

/-- The commit of a reset keeps the property exactly when its token is valid. -/
theorem ResetOk.resetOnce_commit_iff (h : ResetOk st) (hc : st.clients t = some c)
    {userId : ℕ} (hphase : c.phase = .flush userId []) :
    ResetOnce { st.commit t c with changes := st.changes ++ [⟨c.tokenHash, st.now⟩] } ↔
      ResetOnce st ∧ ∃ row, (st.tokens c.tokenHash).stored = some row ∧ row.usedAt = none ∧
        st.now < row.expiresAt := by
  have hstored := h.storedTokens hc (.commit userId hphase)
  have hok := h.client t c hc
  rw [ResetClientOk, hphase] at hok
  obtain ⟨-, -, time, hmem⟩ | ⟨row, hholds, hused, stored, hs, hexpires⟩ := hok
  · exact absurd hmem List.not_mem_nil
  have hunused : c.tokenHash ∉ st.changes.map (·.tokenHash) ↔ stored.usedAt = none := by
    rw [h.used, TokenUsed, hs]
    simp
  have hafter : ((st.tokens c.tokenHash).commit t).stored = some row := by
    rw [hholds.commit_stored, if_pos rfl]
  constructor
  · intro hp
    have honce := hp.once
    rw [List.map_append, List.map_singleton, List.nodup_append] at honce
    refine ⟨⟨honce.1, fun change hmem => ?_⟩, stored, hs, ?_, ?_⟩
    · obtain ⟨row', hrow'⟩ := h.issued_of_mem hmem
      exact hstored.inTime_iff hrow' |>.mpr (hp.inTime change (List.mem_append_left _ hmem))
    · exact hunused.mp fun hmem => honce.2.2 _ hmem _ List.mem_cons_self rfl
    · obtain ⟨row', hrow', htime⟩ := hp.inTime ⟨c.tokenHash, st.now⟩
        (List.mem_append_right _ List.mem_cons_self)
      obtain rfl := Option.some.inj (hafter.symm.trans hrow')
      exact hexpires ▸ htime
  · rintro ⟨hp, row', hs', hnone, htime⟩
    obtain rfl := Option.some.inj (hs.symm.trans hs')
    refine ⟨?_, fun change hmem => ?_⟩
    · rw [List.map_append, List.map_singleton, ← List.concat_eq_append, List.nodup_concat]
      exact ⟨hunused.mpr hnone, hp.once⟩
    · rcases List.mem_append.mp hmem with hbefore | hlast
      · obtain ⟨row', hrow'⟩ := h.issued_of_mem hbefore
        exact hstored.inTime_iff hrow' |>.mp (hp.inTime change hbefore)
      · obtain rfl := List.mem_singleton.mp hlast
        exact ⟨row, hafter, hexpires ▸ htime⟩

theorem resetOnce_of_tokens (hchanges : st'.changes = st.changes)
    (htokens : st'.tokens = st.tokens) : ResetOnce st' ↔ ResetOnce st := by
  constructor
  · exact fun h => ⟨hchanges ▸ h.once, htokens ▸ hchanges ▸ h.inTime⟩
  · exact fun h => ⟨hchanges ▸ h.once, htokens ▸ hchanges ▸ h.inTime⟩

theorem resetOnce_call (t : ℕ) (rawToken : Str) (phase : ResetPhase) :
    ResetOnce (st.call t rawToken phase) ↔ ResetOnce st := by
  rw [ResetState.call]
  split
  · exact resetOnce_of_tokens rfl rfl
  · rfl

theorem ResetOk.resetOnce_act_iff (h : ResetOk st) (a : ResetAction) :
    ResetOnce (resetAct st a) ↔ ResetOnce st ∧ CommitsValid st a := by
  rcases a with d | ⟨t, userId, rawToken⟩ | ⟨t, rawToken⟩ | t | ⟨t, passwordHash, userFirst⟩ | t
  case tick =>
    have hsame : ResetOnce (resetAct st (.tick d)) ↔ ResetOnce st := resetOnce_of_tokens rfl rfl
    exact hsame.trans (and_iff_left trivial).symm
  case issue => exact (resetOnce_call ..).trans (and_iff_left trivial).symm
  case reset => exact (resetOnce_call ..).trans (and_iff_left trivial).symm
  case step =>
    rcases hc : st.clients t with _ | c
    · rw [resetAct, CommitsValid, hc]
      exact (and_iff_left fun _ _ hnone => nomatch hnone).symm
    by_cases hphase : ∃ userId, c.phase = .flush userId []
    · obtain ⟨userId, hphase⟩ := hphase
      have hact : resetAct st (.step t) =
          { st.commit t c with changes := st.changes ++ [⟨c.tokenHash, st.now⟩] } := by
        rw [resetAct, hc]
        dsimp only
        rw [resetStep, hphase]
      rw [hact, h.resetOnce_commit_iff hc hphase, CommitsValid]
      refine and_congr_right fun _ => ⟨fun hvalid c' userId' hc' _ => ?_, fun hvalid => ?_⟩
      · obtain rfl := Option.some.inj (hc.symm.trans hc')
        exact hvalid
      · exact hvalid c userId hc hphase
    · have hvalid : CommitsValid st (.step t) := fun c' userId hc' hp => by
        obtain rfl := Option.some.inj (hc.symm.trans hc')
        exact absurd ⟨userId, hp⟩ hphase
      have hact : resetAct st (.step t) = resetStep st t c := by rw [resetAct, hc]
      rw [and_iff_left hvalid, hact]
      have hstored := h.storedTokens hc (resetMove_step st t c)
      refine hstored.resetOnce_iff ?_ fun _ => h.issued_of_mem
      rcases hstored with ⟨hchanges, -⟩ | ⟨-, hchanges, -⟩ | ⟨-, userId, hp, -⟩
      · exact hchanges
      · exact hchanges
      · exact absurd ⟨userId, hp⟩ hphase
  case hashed =>
    refine Iff.trans ?_ (and_iff_left trivial).symm
    rw [resetAct]
    split
    · exact resetOnce_of_tokens rfl rfl
    · rfl
  case fail =>
    refine Iff.trans ?_ (and_iff_left trivial).symm
    rw [resetAct]
    rcases hc : st.clients t with _ | c
    · rfl
    · dsimp only
      split_ifs
      · rfl
      · exact (h.storedTokens hc .rollback).resetOnce_iff rfl fun _ => h.issued_of_mem

/-- A run changes passwords at most once for each token, and before its expiry, exactly when
every reset finds its token still valid at its commit. -/
theorem reset_once_iff (now : ℤ) (users : ℕ → Option Str) (actions : List ResetAction) :
    ResetOnce (run resetAct (.start now users) actions) ↔
      Throughout resetAct CommitsValid (.start now users) actions := by
  have hstart : ResetOnce (.start now users) :=
    ⟨List.nodup_nil, fun _ hmem => absurd hmem List.not_mem_nil⟩
  rw [run_iff_throughout ResetOk ResetOnce (fun _ a h => h.act a)
    (fun _ a h => h.resetOnce_act_iff a) (resetOk_start now users)]
  exact and_iff_right hstart

end

/-! ## Two resets at once -/

/-- A token is issued, two resets find it unused, and both change the password. -/
def resetRace : List ResetAction :=
  [.issue 0 0 (lit "token"), .step 0, .step 0,
    .reset 1 (lit "token"), .step 1, .step 1, .reset 2 (lit "token"), .step 2, .step 2,
    .hashed 1 (lit "a") true, .step 1, .step 1, .step 1,
    .hashed 2 (lit "b") true, .step 2, .step 2, .step 2]

theorem reset_token_used_twice :
    (run resetAct (.start 0 fun _ => some []) resetRace).changes.length = 2 ∧
      ¬ ResetOnce (run resetAct (.start 0 fun _ => some []) resetRace) := by
  have hnodup : ¬ ((run resetAct (.start 0 fun _ => some []) resetRace).changes.map
      (·.tokenHash)).Nodup := by decide +kernel
  exact ⟨by decide +kernel, fun h => hnodup h.once⟩

end PromptCode
