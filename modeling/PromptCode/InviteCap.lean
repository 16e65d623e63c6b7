import PromptCode.RowLock
import PromptCode.Transition
import PromptCode.Py.Str
import Mathlib.Data.Int.Order.Basic
import Mathlib.Data.List.Basic

/-!
# Invite codes

`signup` with `consume_invite_or_allowlist`, cut at every statement.  The signup reads the
row of the invite without a lock, hashes the password, and then writes the count that it
has read, plus one, together with the new user.
-/

namespace PromptCode

open Py Transition

/-- A row of `invite_codes`, under its `code`. -/
structure InviteCode where
  cohort : Str
  maxUses : ℤ
  useCount : ℤ
  expiresAt : Option ℤ
  deriving DecidableEq

/-- The row that `create_invite` inserts. -/
def createInvite (cohort : Str) (maxUses : ℤ) (expiresAt : Option ℤ) : InviteCode :=
  ⟨cohort, max 1 maxUses, 0, expiresAt⟩

structure BetaSettings where
  betaInviteRequired : Bool
  betaEmailAllowlist : Str
  betaDefaultCohort : Str
  /-- `str.lower` -/
  lower : Str → Str

/-- `_allowlist` -/
def BetaSettings.allowlist (s : BetaSettings) : List Str :=
  ((split 44 (strip s.betaEmailAllowlist)).filter fun e => strip e ≠ []).map fun e =>
    s.lower (strip e)

/-- What `consume_invite_or_allowlist` does before it reads the invite. -/
inductive InviteGate where
  | direct
  | allowlisted
  | refused
  | invited (code : Str)
  deriving DecidableEq

def BetaSettings.gate (s : BetaSettings) (email : Str) (inviteCode : Option Str) : InviteGate :=
  if !s.betaInviteRequired then .direct
  else if s.lower (strip email) ∈ s.allowlist then .allowlisted
  else if strip (inviteCode.getD []) = [] then .refused
  else .invited (strip (inviteCode.getD []))

/-- A signup with a checked payload. -/
structure SignupRequest where
  email : Str
  username : Str
  inviteCode : Option Str
  deriving DecidableEq

/-- An invite and the `use_count` that was read from it. -/
structure InviteUse where
  code : Str
  seen : ℤ
  deriving DecidableEq

/-- The result of `consume_invite_or_allowlist`. -/
structure Admission where
  invite : Option InviteUse
  cohort : Str
  signupSource : Str
  deriving DecidableEq

structure NewUser where
  email : Str
  username : Str
  betaCohort : Str
  signupSource : Str
  inviteCodeId : Option Str
  deriving DecidableEq

/-- What the flush of a signup has to write. -/
inductive SignupWrite where
  | useCount
  | user
  deriving DecidableEq

/-- The statement that a signup comes to next. -/
inductive SignupPhase where
  | existing
  | select (code : Str)
  | clock (code : Str) (row : Option InviteCode)
  | hashPassword (admission : Admission)
  /-- With nothing left to write the commit follows. -/
  | flush (admission : Admission) (writes : List SignupWrite)
  | ended
  deriving DecidableEq

structure Signup where
  request : SignupRequest
  phase : SignupPhase
  deriving DecidableEq

/-- A committed user, or a signup that has found an invite expired. -/
inductive SignupEvent where
  | created (user : NewUser)
  | expired (code : Str)
  deriving DecidableEq

structure SignupState where
  now : ℤ
  invites : Str → Row ℕ (Option InviteCode)
  /-- The unique indexes of the users. -/
  emails : Str → Row ℕ Bool
  usernames : Str → Row ℕ Bool
  signups : ℕ → Option Signup
  events : List SignupEvent

inductive SignupAction where
  | tick (d : ℕ)
  | signup (t : ℕ) (request : SignupRequest)
  /-- The next statement of the signup. -/
  | step (t : ℕ)
  /-- `hash_password` returns; the flush comes to the two tables in either order. -/
  | hashed (t : ℕ) (inviteFirst : Bool)
  /-- An exception: the signup rolls back. -/
  | fail (t : ℕ)

/-- The user that a signup inserts. -/
def Signup.user (c : Signup) (admission : Admission) : NewUser :=
  ⟨c.request.email, c.request.username, admission.cohort, admission.signupSource,
    admission.invite.map (·.code)⟩

def Admission.writes (admission : Admission) (inviteFirst : Bool) : List SignupWrite :=
  if admission.invite.isNone then [.user]
  else if inviteFirst then [.useCount, .user]
  else [.user, .useCount]

namespace SignupState

variable (st : SignupState)

def setSignup (t : ℕ) (c : Signup) : SignupState :=
  { st with signups := Function.update st.signups t (some c) }

def setInvite (code : Str) (row : Row ℕ (Option InviteCode)) : SignupState :=
  { st with invites := Function.update st.invites code row }

def commit (t : ℕ) (c : Signup) : SignupState :=
  { st with
    invites := fun code => (st.invites code).commit t
    emails := fun email => (st.emails email).commit t
    usernames := fun username => (st.usernames username).commit t }.setSignup t
      { c with phase := .ended }

def rollback (t : ℕ) (c : Signup) : SignupState :=
  { st with
    invites := fun code => (st.invites code).rollback t
    emails := fun email => (st.emails email).rollback t
    usernames := fun username => (st.usernames username).rollback t }.setSignup t
      { c with phase := .ended }

/-- Both keys of the user are in the indexes, under the lock of the signup. -/
def takeKeys (t : ℕ) (email username : Str) : SignupState :=
  { st with
    emails := Function.update st.emails email ((st.emails email).put t true)
    usernames := Function.update st.usernames username ((st.usernames username).put t true) }

end SignupState

/-- The result for an invite that can be used. -/
def BetaSettings.admission (s : BetaSettings) (code : Str) (row : InviteCode) : Admission where
  invite := some ⟨code, row.useCount⟩
  cohort := if row.cohort = [] then s.betaDefaultCohort else row.cohort
  signupSource := lit "invite"

/-- The checks of `consume_invite_or_allowlist` on the row that it has read. -/
def consumeInvite (s : BetaSettings) (st : SignupState) (t : ℕ) (c : Signup) (code : Str) :
    Option InviteCode → SignupState
  | none => st.rollback t c
  | some row =>
      if row.expiresAt.any fun expiresAt => expiresAt < st.now then
        { st.rollback t c with events := st.events ++ [.expired code] }
      else if row.maxUses ≤ row.useCount then st.rollback t c
      else st.setSignup t { c with phase := .hashPassword (s.admission code row) }

/-- `UPDATE .. WHERE id`, an error when there is no row, or the insert of the user, an error
when one of its keys is there. -/
def flushSignup (st : SignupState) (t : ℕ) (c : Signup) (admission : Admission)
    (rest : List SignupWrite) : SignupWrite → SignupState
  | .useCount =>
      match admission.invite with
      | none => st
      | some ⟨code, seen⟩ =>
          match (st.invites code).update t Option.isSome
              (Option.map fun row => { row with useCount := seen + 1 }) with
          | none => st
          | some (_, false) => st.rollback t c
          | some (row, true) => (st.setInvite code row).setSignup t
              { c with phase := .flush admission rest }
  | .user =>
      if (st.emails c.request.email).free t && (st.usernames c.request.username).free t then
        if (st.emails c.request.email).visible t || (st.usernames c.request.username).visible t
        then st.rollback t c
        else (st.takeKeys t c.request.email c.request.username).setSignup t
          { c with phase := .flush admission rest }
      else st

/-- One statement.  A signup that waits for a lock stays where it is. -/
def signupStep (s : BetaSettings) (st : SignupState) (t : ℕ) (c : Signup) : SignupState :=
  match c.phase with
  | .existing =>
      if (st.emails c.request.email).visible t || (st.usernames c.request.username).visible t
      then st.rollback t c
      else
        match s.gate c.request.email c.request.inviteCode with
        | .direct => st.setSignup t
            { c with phase := .hashPassword ⟨none, lit "open", lit "direct"⟩ }
        | .allowlisted => st.setSignup t
            { c with phase := .hashPassword ⟨none, s.betaDefaultCohort, lit "allowlist"⟩ }
        | .refused => st.rollback t c
        | .invited code => st.setSignup t { c with phase := .select code }
  | .select code => st.setSignup t { c with phase := .clock code ((st.invites code).visible t) }
  | .clock code row => consumeInvite s st t c code row
  | .hashPassword _ => st
  | .flush admission (w :: rest) => flushSignup st t c admission rest w
  | .flush admission [] =>
      { st.commit t c with events := st.events ++ [.created (c.user admission)] }
  | .ended => st

def signupAct (s : BetaSettings) (st : SignupState) : SignupAction → SignupState
  | .tick d => { st with now := st.now + d }
  | .signup t request =>
      if (st.signups t).isNone then st.setSignup t ⟨request, .existing⟩ else st
  | .step t =>
      match st.signups t with
      | none => st
      | some c => signupStep s st t c
  | .hashed t inviteFirst =>
      match st.signups t with
      | some ⟨request, .hashPassword admission⟩ =>
          st.setSignup t ⟨request, .flush admission (admission.writes inviteFirst)⟩
      | _ => st
  | .fail t =>
      match st.signups t with
      | none => st
      | some c => if c.phase = .ended then st else st.rollback t c

/-- The invites that have been created, and the users that were there before them. -/
structure InviteWorld where
  invites : Str → Option (Str × ℤ × Option ℤ)
  emails : Str → Bool
  usernames : Str → Bool

def SignupState.start (now : ℤ) (w : InviteWorld) : SignupState where
  now := now
  invites code := ⟨(w.invites code).map fun i => createInvite i.1 i.2.1 i.2.2, none⟩
  emails email := ⟨w.emails email, none⟩
  usernames username := ⟨w.usernames username, none⟩
  signups _ := none
  events := []

/-- The users that were created with an invite. -/
def invitedUsers (code : Str) (events : List SignupEvent) : ℕ :=
  events.countP fun
    | .created user => user.inviteCodeId = some code
    | .expired _ => false

/-- The bound and the counter of every invite, and no user after its expiry was seen. -/
structure InvitesCapped (st : SignupState) : Prop where
  capped : ∀ code row, (st.invites code).stored = some row →
    (invitedUsers code st.events : ℤ) ≤ row.maxUses
  counted : ∀ code row, (st.invites code).stored = some row →
    row.useCount = invitedUsers code st.events
  unexpired : ∀ code before after, st.events = before ++ .expired code :: after →
    invitedUsers code after = 0

/-- When a signup with an invite commits, nobody has counted a use of the invite since it
read the count, and nobody has found the invite expired. -/
def ConsumesAlone (st : SignupState) : SignupAction → Prop
  | .step t => ∀ c admission code seen, st.signups t = some c →
      c.phase = .flush admission [] → admission.invite = some ⟨code, seen⟩ →
      (∃ row, (st.invites code).stored = some row ∧ row.useCount = seen) ∧
        .expired code ∉ st.events
  | _ => True

section

variable {s : BetaSettings} {st st' : SignupState} {a : SignupAction} {t u : ℕ}
  {c c' : Signup} {events : List SignupEvent} {code : Str}

@[simp] theorem SignupState.setSignup_self : (st.setSignup t c).signups t = some c :=
  Function.update_self ..

theorem SignupState.setSignup_of_ne (h : u ≠ t) :
    (st.setSignup t c).signups u = st.signups u := Function.update_of_ne h ..

/-! ## The commits -/

@[simp] theorem invitedUsers_nil : invitedUsers code [] = 0 := rfl

theorem invitedUsers_append (more : List SignupEvent) :
    invitedUsers code (events ++ more) = invitedUsers code events + invitedUsers code more :=
  List.countP_append ..

@[simp] theorem invitedUsers_expired {k : Str} : invitedUsers code [.expired k] = 0 := rfl

theorem invitedUsers_created {user : NewUser} :
    invitedUsers code [.created user] = if user.inviteCodeId = some code then 1 else 0 := by
  rw [invitedUsers, List.countP_singleton]
  simp

/-- No user after the expiry of their invite was seen. -/
def Unexpired (events : List SignupEvent) : Prop :=
  ∀ code before after, events = before ++ .expired code :: after → invitedUsers code after = 0

theorem unexpired_concat {e : SignupEvent} :
    Unexpired (events ++ [e]) ↔ Unexpired events ∧
      ∀ code, .expired code ∈ events → invitedUsers code [e] = 0 := by
  constructor
  · intro h
    refine ⟨fun code before after heq => ?_, fun code hmem => ?_⟩
    · have hafter := h code before (after ++ [e]) (by rw [heq]; simp)
      rw [invitedUsers_append] at hafter
      exact Nat.eq_zero_of_add_eq_zero_right hafter
    · obtain ⟨before, after, heq⟩ := List.append_of_mem hmem
      have hafter := h code before (after ++ [e]) (by rw [heq]; simp)
      rw [invitedUsers_append] at hafter
      exact Nat.eq_zero_of_add_eq_zero_left hafter
  · rintro ⟨hbefore, hlast⟩ code before after heq
    rcases List.eq_nil_or_concat after with rfl | ⟨rest, last, rfl⟩
    · rfl
    · rw [List.concat_eq_append, ← List.cons_append, ← List.append_assoc] at heq
      obtain ⟨hsplit, he⟩ := List.append_inj' heq rfl
      obtain rfl := (List.cons.inj he).1
      have hmem : .expired code ∈ events := by
        rw [hsplit]
        exact List.mem_append_right _ List.mem_cons_self
      rw [List.concat_eq_append, invitedUsers_append, hbefore code before rest hsplit,
        hlast code hmem]

/-! ## What one statement does -/

/-- What a signup has read of an invite: its count was no more than the users, and it is
still the stored one if there have been no users since. -/
def SeenOk (st : SignupState) (code : Str) (row : InviteCode) : Prop :=
  ∃ stored, (st.invites code).stored = some stored ∧ stored.maxUses = row.maxUses ∧
    row.useCount ≤ invitedUsers code st.events ∧
    (row.useCount = invitedUsers code st.events → stored.useCount = row.useCount)

/-- The use that a signup has been admitted for was below the limit. -/
def AdmissionOk (st : SignupState) (admission : Admission) : Prop :=
  ∀ use, admission.invite = some use →
    ∃ row, SeenOk st use.code row ∧ row.useCount = use.seen ∧ use.seen < row.maxUses

/-- What a statement leaves behind. -/
inductive SignupMove (st : SignupState) (t : ℕ) (c : Signup) : SignupState → Prop where
  | stay : SignupMove st t c st
  | rollback : SignupMove st t c (st.rollback t c)
  | expire (code : Str) :
      SignupMove st t c { st.rollback t c with events := st.events ++ [.expired code] }
  | uninvited (hphase : c.phase = .existing) (admission : Admission)
      (hinvite : admission.invite = none) :
      SignupMove st t c (st.setSignup t { c with phase := .hashPassword admission })
  | invited (hphase : c.phase = .existing) (code : Str) :
      SignupMove st t c (st.setSignup t { c with phase := .select code })
  | select (code : Str) (hphase : c.phase = .select code) :
      SignupMove st t c
        (st.setSignup t { c with phase := .clock code ((st.invites code).visible t) })
  | admitted (code : Str) (row : InviteCode) (hphase : c.phase = .clock code (some row))
      (hbelow : row.useCount < row.maxUses) (admission : Admission)
      (hinvite : admission.invite = some ⟨code, row.useCount⟩) :
      SignupMove st t c (st.setSignup t { c with phase := .hashPassword admission })
  | writeCount (admission : Admission) (rest : List SignupWrite) (use : InviteUse)
      (hphase : c.phase = .flush admission (.useCount :: rest))
      (hinvite : admission.invite = some use) (row : InviteCode)
      (hfree : (st.invites use.code).free t = true)
      (hrow : (st.invites use.code).visible t = some row) :
      SignupMove st t c
        ((st.setInvite use.code ((st.invites use.code).put t
          (some { row with useCount := use.seen + 1 }))).setSignup t
            { c with phase := .flush admission rest })
  | writeUser (admission : Admission) (rest : List SignupWrite)
      (hphase : c.phase = .flush admission (.user :: rest)) (email username : Str) :
      SignupMove st t c ((st.takeKeys t email username).setSignup t
        { c with phase := .flush admission rest })
  | commit (admission : Admission) (hphase : c.phase = .flush admission []) :
      SignupMove st t c
        { st.commit t c with events := st.events ++ [.created (c.user admission)] }

theorem signupMove_consumeInvite {row : Option InviteCode} (hphase : c.phase = .clock code row) :
    SignupMove st t c (consumeInvite s st t c code row) := by
  rcases row with _ | row
  · exact .rollback
  · rw [consumeInvite]
    split_ifs with hexpired hfull
    · exact .expire code
    · exact .rollback
    · exact .admitted code row hphase (not_le.mp hfull) (s.admission code row) rfl

theorem signupMove_flushSignup {admission : Admission} {w : SignupWrite}
    {rest : List SignupWrite} (hphase : c.phase = .flush admission (w :: rest)) :
    SignupMove st t c (flushSignup st t c admission rest w) := by
  rcases w
  case useCount =>
    rw [flushSignup]
    rcases hinvite : admission.invite with _ | ⟨code, seen⟩
    · exact .stay
    · dsimp only
      rcases hupdate : (st.invites code).update t Option.isSome
        (Option.map fun row => { row with useCount := seen + 1 }) with _ | ⟨row, _ | _⟩
      · exact .stay
      · exact .rollback
      · rcases Row.update_eq_some hupdate with ⟨hhit, -⟩ | ⟨-, rfl, hsome, hfree⟩
        · exact nomatch hhit
        · obtain ⟨row, hrow⟩ := Option.isSome_iff_exists.mp hsome
          rw [hrow]
          exact .writeCount admission rest ⟨code, seen⟩ hphase hinvite row hfree hrow
  case user =>
    rw [flushSignup]
    split_ifs
    · exact .rollback
    · exact .writeUser admission rest hphase _ _
    · exact .stay

theorem signupMove_step (s : BetaSettings) (st : SignupState) (t : ℕ) (c : Signup) :
    SignupMove st t c (signupStep s st t c) := by
  rw [signupStep]
  rcases hphase : c.phase with _ | code | ⟨code, row⟩ | admission |
    ⟨admission, _ | ⟨w, rest⟩⟩ | _
  case existing =>
    dsimp only
    split_ifs
    · exact .rollback
    · rcases s.gate c.request.email c.request.inviteCode with _ | _ | _ | code
      · exact .uninvited hphase _ rfl
      · exact .uninvited hphase _ rfl
      · exact .rollback
      · exact .invited hphase code
  case select => exact .select code hphase
  case clock => exact signupMove_consumeInvite hphase
  case hashPassword => exact .stay
  case flush.nil => exact .commit admission hphase
  case flush.cons => exact signupMove_flushSignup hphase
  case ended => exact .stay

/-! ## The invariant -/

/-- The signup has the lock of no invite. -/
def HoldsNoInvite (st : SignupState) (t : ℕ) : Prop := ∀ code, (st.invites code).Released t

/-- The lock that a signup has on an invite. -/
structure HoldsInvite (st : SignupState) (t : ℕ) (code : Str) (row : InviteCode) : Prop where
  others : ∀ k, k ≠ code → (st.invites k).Released t
  held : (st.invites code).held = some (t, some row)

/-- A version of an invite with the limit that is stored. -/
def SameLimit (st : SignupState) (code : Str) (row : InviteCode) : Prop :=
  ∃ stored, (st.invites code).stored = some stored ∧ stored.maxUses = row.maxUses

/-- What a signup has read and locked in each phase. -/
def SignupOk (st : SignupState) (t : ℕ) (c : Signup) : Prop :=
  match c.phase with
  | .existing | .select _ | .ended => HoldsNoInvite st t
  | .clock code row => HoldsNoInvite st t ∧ ∀ r, row = some r → SeenOk st code r
  | .hashPassword admission => HoldsNoInvite st t ∧ AdmissionOk st admission
  | .flush admission writes => AdmissionOk st admission ∧
      ((HoldsNoInvite st t ∧ (admission.invite ≠ none → .useCount ∈ writes)) ∨
        ∃ use row, admission.invite = some use ∧ HoldsInvite st t use.code row ∧
          row.useCount = use.seen + 1 ∧ SameLimit st use.code row)

structure SignupsOk (st : SignupState) : Prop where
  counted : ∀ code row, (st.invites code).stored = some row →
    row.useCount ≤ invitedUsers code st.events
  idle : ∀ t, st.signups t = none → HoldsNoInvite st t
  signup : ∀ t c, st.signups t = some c → SignupOk st t c

/-! ## Frames -/

theorem SignupMove.signups_of_ne (hmove : SignupMove st t c st') (hu : u ≠ t) :
    st'.signups u = st.signups u := by
  rcases hmove
  case stay => rfl
  all_goals exact SignupState.setSignup_of_ne hu

theorem SignupMove.signup_ne_none (hmove : SignupMove st t c st') (hc : st.signups t = some c) :
    st'.signups t ≠ none := by
  intro hnone
  rcases hmove
  case stay => exact nomatch hc.symm.trans hnone
  all_goals exact nomatch SignupState.setSignup_self.symm.trans hnone

@[simp] theorem setInvite_self {row : Row ℕ (Option InviteCode)} :
    (st.setInvite code row).invites code = row := Function.update_self ..

theorem setInvite_of_ne {row : Row ℕ (Option InviteCode)} {k : Str} (h : k ≠ code) :
    (st.setInvite code row).invites k = st.invites k := Function.update_of_ne h ..

theorem setInvite_put_stored {v : Option InviteCode} :
    ((st.setInvite code ((st.invites code).put t v)).invites code).stored =
      (st.invites code).stored := by
  rw [setInvite_self, Row.put_stored]

/-- The invites of a move belong to the signup that moves. -/
theorem SignupMove.onlyBy (hmove : SignupMove st t c st') (k : Str) :
    Row.OnlyBy t (st.invites k) (st'.invites k) := by
  rcases hmove
  case rollback => exact Row.onlyBy_rollback (st.invites k) t
  case expire => exact Row.onlyBy_rollback (st.invites k) t
  case commit => exact Row.onlyBy_commit (st.invites k) t
  case writeCount rest use hphase hinvite row hfree hrow =>
    by_cases hk : k = use.code
    · subst hk
      exact setInvite_self.symm ▸ Row.onlyBy_put hfree _
    · exact .inl (setInvite_of_ne hk)
  all_goals exact .inl rfl

theorem HoldsInvite.commit_stored {row : InviteCode} (h : HoldsInvite st t code row) (k : Str) :
    ((st.invites k).commit t).stored =
      if k = code then some row else (st.invites k).stored := by
  split_ifs with hk
  · rw [hk, Row.commit_of_held h.held]
  · rw [Row.commit_of_released (h.others k hk)]

/-- What a move does to the stored invites and the commits. -/
inductive StoredInvites (st : SignupState) (c : Signup) (st' : SignupState) : Prop where
  | same (hcount : ∀ k, invitedUsers k st'.events = invitedUsers k st.events)
      (hunexpired : Unexpired st'.events ↔ Unexpired st.events)
      (hstored : ∀ k, (st'.invites k).stored = (st.invites k).stored)
  | used (admission : Admission) (use : InviteUse) (row : InviteCode)
      (hphase : c.phase = .flush admission []) (hinvite : admission.invite = some use)
      (hevents : st'.events = st.events ++ [.created (c.user admission)])
      (huse : row.useCount = use.seen + 1) (hlimit : SameLimit st use.code row)
      (hstored : ∀ k, (st'.invites k).stored =
        if k = use.code then some row else (st.invites k).stored)

/-- The user of a signup counts for its invite alone. -/
theorem invitedUsers_signup {admission : Admission} {use : InviteUse}
    (hinvite : admission.invite = some use) (k : Str) :
    invitedUsers k [.created (c.user admission)] = if k = use.code then 1 else 0 := by
  rw [invitedUsers_created, Signup.user, hinvite]
  simp [eq_comm]

theorem storedInvites_concat {e : SignupEvent} (hevents : st'.events = st.events ++ [e])
    (he : ∀ k, invitedUsers k [e] = 0)
    (hstored : ∀ k, (st'.invites k).stored = (st.invites k).stored) :
    StoredInvites st c st' := by
  refine .same (fun k => ?_) ?_ hstored
  · rw [hevents, invitedUsers_append, he, Nat.add_zero]
  · rw [hevents, unexpired_concat]
    exact and_iff_left fun k _ => he k

theorem SignupsOk.storedInvites (h : SignupsOk st) (hc : st.signups t = some c)
    (hmove : SignupMove st t c st') : StoredInvites st c st' := by
  have hok := h.signup t c hc
  rcases hmove
  case rollback => exact .same (fun _ => rfl) Iff.rfl fun k => Row.rollback_stored
  case expire code =>
    exact storedInvites_concat rfl (fun _ => rfl) fun k => Row.rollback_stored
  case writeCount rest use hphase hinvite row hfree hrow =>
    refine .same (fun _ => rfl) Iff.rfl fun k => ?_
    by_cases hk : k = use.code
    · rw [hk]
      exact setInvite_put_stored
    · exact congrArg Row.stored (setInvite_of_ne hk)
  case commit admission hphase =>
    rw [SignupOk, hphase] at hok
    rcases hok.2 with ⟨hnone, hpending⟩ | ⟨use, row, hinvite, hholds, huse, hlimit⟩
    · rcases hinvite : admission.invite with _ | use
      · refine storedInvites_concat rfl (fun k => ?_) fun k => ?_
        · rw [invitedUsers_created, Signup.user, hinvite]
          rfl
        · exact congrArg Row.stored (Row.commit_of_released (hnone k))
      · exact absurd (hpending (by simp [hinvite])) List.not_mem_nil
    · exact .used admission use row hphase hinvite rfl huse hlimit hholds.commit_stored
  all_goals exact .same (fun _ => rfl) Iff.rfl fun _ => rfl

theorem StoredInvites.count_le (hstored : StoredInvites st c st') (k : Str) :
    invitedUsers k st.events ≤ invitedUsers k st'.events := by
  rcases hstored with ⟨hcount, -, -⟩ | ⟨admission, use, row, -, -, hevents, -⟩
  · exact (hcount k).ge
  · rw [hevents, invitedUsers_append]
    exact Nat.le_add_right ..

/-- The limit of an invite does not change. -/
theorem StoredInvites.sameLimit (hstored : StoredInvites st c st') {k : Str} {row : InviteCode}
    (h : SameLimit st k row) : SameLimit st' k row := by
  obtain ⟨stored, hs, hmax⟩ := h
  rcases hstored with ⟨-, -, hsame⟩ | ⟨-, use, row', -, -, -, -, ⟨stored', hs', hmax'⟩, hsame⟩
  · exact ⟨stored, (hsame k).trans hs, hmax⟩
  · by_cases hk : k = use.code
    · subst hk
      obtain rfl := Option.some.inj (hs.symm.trans hs')
      exact ⟨row', by rw [hsame, if_pos rfl], hmax'.symm.trans hmax⟩
    · exact ⟨stored, by rw [hsame, if_neg hk, hs], hmax⟩

/-- What a signup has read keeps its meaning: after a use by another one, the count that it
has read is below the number of users. -/
theorem StoredInvites.seenOk (hstored : StoredInvites st c st') {k : Str} {row : InviteCode}
    (h : SeenOk st k row) : SeenOk st' k row := by
  obtain ⟨stored, hs, hmax, hle, hlast⟩ := h
  obtain ⟨stored', hs', hmax'⟩ := hstored.sameLimit ⟨stored, hs, hmax⟩
  rcases hstored with ⟨hcount, -, hsame⟩ |
    ⟨admission, use, row', -, hinvite, hevents, -, -, hsame⟩
  · exact ⟨stored, (hsame k).trans hs, hmax, by rwa [hcount k], by rwa [hcount k]⟩
  · by_cases hk : k = use.code
    · have hnext : (invitedUsers k st'.events : ℤ) = invitedUsers k st.events + 1 := by
        rw [hevents, invitedUsers_append, invitedUsers_signup hinvite, if_pos hk]
        rfl
      refine ⟨stored', hs', hmax', ?_, fun heq => ?_⟩
      · omega
      · omega
    · have hsamecount : invitedUsers k st'.events = invitedUsers k st.events := by
        rw [hevents, invitedUsers_append, invitedUsers_signup hinvite, if_neg hk, Nat.add_zero]
      rw [SeenOk, hsamecount]
      exact ⟨stored, by rw [hsame, if_neg hk, hs], hmax, hle, hlast⟩

theorem StoredInvites.admissionOk (hstored : StoredInvites st c st') {admission : Admission}
    (h : AdmissionOk st admission) : AdmissionOk st' admission := by
  intro use huse
  obtain ⟨row, hseen, heq, hbelow⟩ := h use huse
  exact ⟨row, hstored.seenOk hseen, heq, hbelow⟩

/-- Another signup keeps what it has read and locked. -/
theorem SignupOk.frame (h : SignupOk st u c') (hu : u ≠ t)
    (hrow : ∀ k, Row.OnlyBy t (st.invites k) (st'.invites k))
    (hstored : StoredInvites st c st') : SignupOk st' u c' := by
  have hreleased : ∀ k, (st.invites k).Released u → (st'.invites k).Released u := by
    intro k hk
    rcases hrow k with heq | hrel
    · rwa [heq]
    · exact (hrel u hu).2
  have hnone : HoldsNoInvite st u → HoldsNoInvite st' u := fun hn k => hreleased k (hn k)
  have hholds : ∀ code row, HoldsInvite st u code row → HoldsInvite st' u code row := by
    intro code row hh
    refine ⟨fun k hk => hreleased k (hh.others k hk), ?_⟩
    rcases hrow code with heq | hrel
    · rw [heq, hh.held]
    · exact absurd hh.held ((hrel u hu).1 _)
  rw [SignupOk] at h ⊢
  rcases hphase : c'.phase <;> rw [hphase] at h
  case existing => exact hnone h
  case select => exact hnone h
  case clock => exact ⟨hnone h.1, fun r hr => hstored.seenOk (h.2 r hr)⟩
  case hashPassword => exact ⟨hnone h.1, hstored.admissionOk h.2⟩
  case flush =>
    refine ⟨hstored.admissionOk h.1, ?_⟩
    rcases h.2 with ⟨hn, hpending⟩ | ⟨use, row, hinvite, hh, huse, hlimit⟩
    · exact .inl ⟨hnone hn, hpending⟩
    · exact .inr ⟨use, row, hinvite, hholds _ _ hh, huse, hstored.sameLimit hlimit⟩
  case ended => exact hnone h

theorem SignupOk.of_invites (h : SignupOk st t c) (hinvites : st'.invites = st.invites)
    (hevents : st'.events = st.events) : SignupOk st' t c := by
  refine h.frame (c := c) (Nat.ne_add_one t) (fun k => .inl (congrFun hinvites k)) ?_
  exact .same (fun k => by rw [hevents]) (by rw [hevents]) fun k => by rw [hinvites]

theorem AdmissionOk.of_none {admission : Admission} (h : admission.invite = none) :
    AdmissionOk st admission := fun _ huse => nomatch h.symm.trans huse

/-- The signup that moves has read and locked what its next phase needs. -/
theorem SignupsOk.own (h : SignupsOk st) (hc : st.signups t = some c)
    (hmove : SignupMove st t c st') : ∀ c', st'.signups t = some c' → SignupOk st' t c' := by
  have hok := h.signup t c hc
  have hstored := h.storedInvites hc hmove
  intro c' hc'
  rcases hmove
  case stay =>
    obtain rfl := Option.some.inj (hc.symm.trans hc')
    exact hok
  all_goals
    obtain rfl := Option.some.inj (SignupState.setSignup_self.symm.trans hc')
  case rollback => exact fun k => Row.released_rollback (st.invites k) t
  case expire => exact fun k => Row.released_rollback (st.invites k) t
  case uninvited hphase admission hinvite =>
    rw [SignupOk, hphase] at hok
    exact ⟨hok, .of_none hinvite⟩
  case invited hphase code =>
    rw [SignupOk, hphase] at hok
    exact hok
  case select code hphase =>
    rw [SignupOk, hphase] at hok
    refine ⟨hok, fun row hrow => ?_⟩
    rw [Row.visible_of_released (hok code)] at hrow
    exact ⟨row, hrow, rfl, h.counted code row hrow, fun _ => rfl⟩
  case admitted code row hphase hbelow admission hinvite =>
    rw [SignupOk, hphase] at hok
    refine ⟨hok.1, fun use huse => ?_⟩
    obtain rfl := Option.some.inj (hinvite.symm.trans huse)
    exact ⟨row, hok.2 row rfl, rfl, hbelow⟩
  case writeCount admission rest use hphase hinvite row hfree hrow =>
    rw [SignupOk, hphase] at hok
    refine ⟨hstored.admissionOk hok.1, .inr ⟨use, { row with useCount := use.seen + 1 }, hinvite,
      ⟨fun k hk => ?_, ?_⟩, rfl, ?_⟩⟩
    · have hbefore : (st.invites k).Released t := by
        rcases hok.2 with ⟨hnone, -⟩ | ⟨use', row', hinvite', hholds, -⟩
        · exact hnone k
        · obtain rfl := Option.some.inj (hinvite.symm.trans hinvite')
          exact hholds.others k hk
      exact (setInvite_of_ne hk).symm ▸ hbefore
    · exact congrArg Row.held setInvite_self
    · refine hstored.sameLimit ?_
      rcases hok.2 with ⟨hnone, -⟩ | ⟨use', row', hinvite', hholds, -, hlimit⟩
      · rw [Row.visible_of_released (hnone _)] at hrow
        exact ⟨row, hrow, rfl⟩
      · obtain rfl := Option.some.inj (hinvite.symm.trans hinvite')
        rw [Row.visible_of_held hholds.held] at hrow
        exact Option.some.inj hrow ▸ hlimit
  case writeUser admission rest hphase email username =>
    rw [SignupOk, hphase] at hok
    have hkeep : SignupOk st t { c with phase := .flush admission rest } := by
      refine ⟨hok.1, hok.2.imp (fun ⟨hnone, hpending⟩ => ⟨hnone, fun hne => ?_⟩) id⟩
      exact (List.mem_cons.mp (hpending hne)).resolve_left nofun
    exact hkeep.of_invites rfl rfl
  case commit => exact fun k => Row.released_commit (st.invites k) t

/-- The count of every invite is at most the number of its users. -/
theorem StoredInvites.counted (hstored : StoredInvites st c st') (h : SignupsOk st)
    (hc : st.signups t = some c) (row : InviteCode)
    (hrow : (st'.invites code).stored = some row) :
    row.useCount ≤ invitedUsers code st'.events := by
  have hok := h.signup t c hc
  rcases hstored with ⟨hcount, -, hsame⟩ |
    ⟨admission, use, row', hphase, hinvite, hevents, huse, -, hsame⟩
  · rw [hcount]
    exact h.counted code row ((hsame code).symm.trans hrow)
  · rw [SignupOk, hphase] at hok
    obtain ⟨seen, ⟨-, -, -, hle, -⟩, heq, -⟩ := hok.1 use hinvite
    rw [hevents, invitedUsers_append, invitedUsers_signup hinvite]
    rw [hsame] at hrow
    split_ifs at hrow with hk
    · obtain rfl := Option.some.inj hrow
      subst hk
      rw [if_pos rfl]
      push_cast
      omega
    · have hbefore := h.counted code row hrow
      rw [if_neg hk]
      exact hbefore

theorem SignupsOk.move (h : SignupsOk st) (hc : st.signups t = some c)
    (hmove : SignupMove st t c st') : SignupsOk st' := by
  have hstored := h.storedInvites hc hmove
  refine ⟨fun _ row => hstored.counted h hc row, fun u hu k => ?_, fun u c' hu => ?_⟩
  · have hut : u ≠ t := by
      rintro rfl
      exact hmove.signup_ne_none hc hu
    have hbefore := h.idle u ((hmove.signups_of_ne hut).symm.trans hu) k
    rcases hmove.onlyBy k with heq | hrel
    · rwa [heq]
    · exact (hrel u hut).2
  · by_cases hut : u = t
    · subst hut
      exact h.own hc hmove c' hu
    · rw [hmove.signups_of_ne hut] at hu
      exact (h.signup u c' hu).frame hut hmove.onlyBy hstored

/-- A step that changes at most the phase of one signup, without locks. -/
theorem SignupsOk.setSignup (h : SignupsOk st) (hok : SignupOk st t c) :
    SignupsOk (st.setSignup t c) := by
  refine ⟨h.counted, fun u hu => ?_, fun u c' hu => ?_⟩
  · by_cases hut : u = t
    · subst hut
      exact nomatch SignupState.setSignup_self.symm.trans hu
    · exact h.idle u ((SignupState.setSignup_of_ne hut).symm.trans hu)
  · by_cases hut : u = t
    · subst hut
      obtain rfl := Option.some.inj (SignupState.setSignup_self.symm.trans hu)
      exact hok.of_invites rfl rfl
    · exact (h.signup u c' ((SignupState.setSignup_of_ne hut).symm.trans hu)).of_invites rfl rfl

theorem Admission.useCount_mem_writes {admission : Admission} (inviteFirst : Bool)
    (h : admission.invite ≠ none) : .useCount ∈ admission.writes inviteFirst := by
  rw [Admission.writes, if_neg (by simpa using h)]
  split_ifs <;> simp

theorem SignupsOk.act (h : SignupsOk st) (a : SignupAction) : SignupsOk (signupAct s st a) := by
  rcases a with d | ⟨t, request⟩ | t | ⟨t, inviteFirst⟩ | t
  case tick =>
    exact ⟨h.counted, h.idle, fun t c hc => (h.signup t c hc).of_invites rfl rfl⟩
  case signup =>
    rw [signupAct]
    split_ifs with hnone
    · exact h.setSignup (h.idle t (Option.isNone_iff_eq_none.mp hnone))
    · exact h
  case step =>
    rw [signupAct]
    rcases hc : st.signups t with _ | c
    · exact h
    · exact h.move hc (signupMove_step s st t c)
  case hashed =>
    rw [signupAct]
    split
    · rename_i request admission hc
      obtain ⟨hnone, hadmission⟩ : HoldsNoInvite st t ∧ AdmissionOk st admission :=
        h.signup t _ hc
      refine h.setSignup ⟨hadmission, .inl ⟨hnone, fun hne => ?_⟩⟩
      exact Admission.useCount_mem_writes inviteFirst hne
    · exact h
  case fail =>
    rw [signupAct]
    rcases hc : st.signups t with _ | c
    · exact h
    · dsimp only
      split_ifs
      · exact h
      · exact h.move hc .rollback

theorem signupsOk_start (now : ℤ) (w : InviteWorld) : SignupsOk (.start now w) where
  counted := fun code row hrow => by
    obtain ⟨i, -, rfl⟩ := Option.map_eq_some_iff.mp hrow
    exact le_rfl
  idle := fun _ _ _ _ => nofun
  signup := nofun

/-! ## The bound -/

/-- A move that uses no invite. -/
theorem invitesCapped_of_same (hcount : ∀ k, invitedUsers k st'.events = invitedUsers k st.events)
    (hunexpired : Unexpired st'.events ↔ Unexpired st.events)
    (hstored : ∀ k, (st'.invites k).stored = (st.invites k).stored) :
    InvitesCapped st' ↔ InvitesCapped st := by
  constructor
  · intro h
    refine ⟨fun code row hrow => ?_, fun code row hrow => ?_, hunexpired.mp h.unexpired⟩
    · rw [← hcount code]
      exact h.capped code row ((hstored code).trans hrow)
    · rw [← hcount code]
      exact h.counted code row ((hstored code).trans hrow)
  · intro h
    refine ⟨fun code row hrow => ?_, fun code row hrow => ?_, hunexpired.mpr h.unexpired⟩
    · rw [hcount code]
      exact h.capped code row ((hstored code).symm.trans hrow)
    · rw [hcount code]
      exact h.counted code row ((hstored code).symm.trans hrow)

/-- The commit of a use keeps the bound and the counter exactly when the count was still
the stored one, and the expiry had not been seen. -/
theorem SignupsOk.invitesCapped_used (h : SignupsOk st) (hc : st.signups t = some c)
    {admission : Admission} {use : InviteUse} {row : InviteCode}
    (hphase : c.phase = .flush admission []) (hinvite : admission.invite = some use)
    (hevents : st'.events = st.events ++ [.created (c.user admission)])
    (huse : row.useCount = use.seen + 1) (hlimit : SameLimit st use.code row)
    (hstored : ∀ k, (st'.invites k).stored =
      if k = use.code then some row else (st.invites k).stored) :
    InvitesCapped st' ↔ InvitesCapped st ∧
      (∃ row, (st.invites use.code).stored = some row ∧ row.useCount = use.seen) ∧
        .expired use.code ∉ st.events := by
  have hok := h.signup t c hc
  rw [SignupOk, hphase] at hok
  obtain ⟨seen, ⟨stored, hs, hmax, hle, hlast⟩, hseen, hbelow⟩ := hok.1 use hinvite
  obtain ⟨stored', hs', hmax'⟩ := hlimit
  obtain rfl := Option.some.inj (hs.symm.trans hs')
  have hcount : ∀ k, invitedUsers k st'.events =
      invitedUsers k st.events + if k = use.code then 1 else 0 := by
    intro k
    rw [hevents, invitedUsers_append, invitedUsers_signup hinvite]
  have hexpired : Unexpired st'.events ↔ Unexpired st.events ∧ .expired use.code ∉ st.events := by
    rw [hevents, unexpired_concat]
    refine and_congr_right fun _ => ⟨fun hzero hmem => ?_, fun hnot code hmem => ?_⟩
    · have hone := hzero use.code hmem
      rw [invitedUsers_signup hinvite, if_pos rfl] at hone
      exact nomatch hone
    · rw [invitedUsers_signup hinvite, if_neg]
      rintro rfl
      exact hnot hmem
  have hself : (st'.invites use.code).stored = some row := by rw [hstored, if_pos rfl]
  have hcountSelf := hcount use.code
  rw [if_pos rfl] at hcountSelf
  constructor
  · intro hp
    have hcounted := hp.counted use.code row hself
    have hcapped := hp.capped use.code row hself
    have hcurrent : stored.useCount = use.seen := hseen ▸ hlast (by omega)
    obtain ⟨hunexpired, hnot⟩ := hexpired.mp hp.unexpired
    refine ⟨⟨fun code row' hrow' => ?_, fun code row' hrow' => ?_, hunexpired⟩,
      ⟨stored, hs, hcurrent⟩, hnot⟩
    · by_cases hk : code = use.code
      · subst hk
        obtain rfl := Option.some.inj (hs.symm.trans hrow')
        omega
      · have hother := hp.capped code row' (by rw [hstored, if_neg hk, hrow'])
        rwa [hcount, if_neg hk, Nat.add_zero] at hother
    · by_cases hk : code = use.code
      · subst hk
        obtain rfl := Option.some.inj (hs.symm.trans hrow')
        omega
      · have hother := hp.counted code row' (by rw [hstored, if_neg hk, hrow'])
        rwa [hcount, if_neg hk, Nat.add_zero] at hother
  · rintro ⟨hp, ⟨stored', hs', hcurrent⟩, hnot⟩
    obtain rfl := Option.some.inj (hs.symm.trans hs')
    have hcounted := hp.counted use.code stored hs
    refine ⟨fun code row' hrow' => ?_, fun code row' hrow' => ?_,
      hexpired.mpr ⟨hp.unexpired, hnot⟩⟩
    · rw [hstored] at hrow'
      rw [hcount]
      split_ifs at hrow' ⊢ with hk
      · subst hk
        obtain rfl := Option.some.inj hrow'
        push_cast
        omega
      · exact hp.capped code row' hrow'
    · rw [hstored] at hrow'
      rw [hcount]
      split_ifs at hrow' ⊢ with hk
      · subst hk
        obtain rfl := Option.some.inj hrow'
        push_cast
        omega
      · exact hp.counted code row' hrow'

theorem SignupsOk.invitesCapped_act_iff (h : SignupsOk st) (a : SignupAction) :
    InvitesCapped (signupAct s st a) ↔ InvitesCapped st ∧ ConsumesAlone st a := by
  have hsame : ∀ {st' : SignupState}, st'.events = st.events → st'.invites = st.invites →
      (InvitesCapped st' ↔ InvitesCapped st) := fun hevents hinvites =>
    invitesCapped_of_same (fun k => by rw [hevents]) (by rw [hevents])
      fun k => by rw [hinvites]
  rcases a with d | ⟨t, request⟩ | t | ⟨t, inviteFirst⟩ | t
  case tick =>
    have htick : InvitesCapped (signupAct s st (.tick d)) ↔ InvitesCapped st := hsame rfl rfl
    exact htick.trans (and_iff_left trivial).symm
  case signup =>
    refine Iff.trans ?_ (and_iff_left trivial).symm
    rw [signupAct]
    split_ifs
    · exact hsame rfl rfl
    · rfl
  case step =>
    rcases hc : st.signups t with _ | c
    · rw [signupAct, ConsumesAlone, hc]
      exact (and_iff_left fun _ _ _ _ hnone => nomatch hnone).symm
    have hact : signupAct s st (.step t) = signupStep s st t c := by rw [signupAct, hc]
    rw [hact]
    by_cases huse : ∃ admission use, c.phase = .flush admission [] ∧ admission.invite = some use
    · obtain ⟨admission, use, hphase, hinvite⟩ := huse
      have hstep : signupStep s st t c =
          { st.commit t c with events := st.events ++ [.created (c.user admission)] } := by
        rw [signupStep, hphase]
      have hvalid : ConsumesAlone st (.step t) ↔
          (∃ row, (st.invites use.code).stored = some row ∧ row.useCount = use.seen) ∧
            .expired use.code ∉ st.events := by
        constructor
        · exact fun hv => hv c admission use.code use.seen hc hphase hinvite
        · intro hv c' admission' code seen hc' hphase' hinvite'
          obtain rfl := Option.some.inj (hc.symm.trans hc')
          obtain ⟨rfl, -⟩ := SignupPhase.flush.inj (hphase.symm.trans hphase')
          obtain rfl := Option.some.inj (hinvite.symm.trans hinvite')
          exact hv
      rw [hvalid, hstep]
      have hok := h.signup t c hc
      rw [SignupOk, hphase] at hok
      rcases hok.2 with ⟨-, hpending⟩ | ⟨use', row, hinvite', hholds, hcount, hlimit⟩
      · exact absurd (hpending (by simp [hinvite])) List.not_mem_nil
      · obtain rfl := Option.some.inj (hinvite.symm.trans hinvite')
        exact h.invitesCapped_used hc hphase hinvite rfl hcount hlimit hholds.commit_stored
    · have hvalid : ConsumesAlone st (.step t) := by
        intro c' admission code seen hc' hphase hinvite
        obtain rfl := Option.some.inj (hc.symm.trans hc')
        exact absurd ⟨admission, _, hphase, hinvite⟩ huse
      rw [and_iff_left hvalid]
      rcases h.storedInvites hc (signupMove_step s st t c) with ⟨hcount, hunexpired, hstored⟩ |
        ⟨admission, use, -, hphase, hinvite, -⟩
      · exact invitesCapped_of_same hcount hunexpired hstored
      · exact absurd ⟨admission, use, hphase, hinvite⟩ huse
  case hashed =>
    refine Iff.trans ?_ (and_iff_left trivial).symm
    rw [signupAct]
    split
    · exact hsame rfl rfl
    · rfl
  case fail =>
    refine Iff.trans ?_ (and_iff_left trivial).symm
    rw [signupAct]
    rcases hc : st.signups t with _ | c
    · rfl
    · dsimp only
      split_ifs
      · rfl
      · exact invitesCapped_of_same (fun _ => rfl) Iff.rfl fun k => Row.rollback_stored

theorem invitesCapped_start (now : ℤ) (w : InviteWorld) : InvitesCapped (.start now w) where
  capped := fun code row hrow => by
    obtain ⟨i, -, rfl⟩ := Option.map_eq_some_iff.mp hrow
    exact zero_le_one.trans (le_max_left 1 i.2.1)
  counted := fun code row hrow => by
    obtain ⟨i, -, rfl⟩ := Option.map_eq_some_iff.mp hrow
    rfl
  unexpired := fun code before after heq => by
    have hnil := (List.append_eq_nil_iff.mp heq.symm).2
    exact nomatch hnil

/-- The invites stay within their limits and count their users exactly when no signup counts
a use over a use that it has not seen, or after somebody has seen the expiry. -/
theorem invites_capped_iff (s : BetaSettings) (now : ℤ) (w : InviteWorld)
    (actions : List SignupAction) :
    InvitesCapped (run (signupAct s) (.start now w) actions) ↔
      Throughout (signupAct s) ConsumesAlone (.start now w) actions := by
  rw [run_iff_throughout SignupsOk InvitesCapped (fun _ a h => h.act a)
    (fun _ a h => h.invitesCapped_act_iff a) (signupsOk_start now w)]
  exact and_iff_right (invitesCapped_start now w)

end

/-! ## Two signups at once -/

def betaSettings : BetaSettings := ⟨true, [], lit "beta", lower⟩

/-- One invite for one use. -/
def oneInvite : InviteWorld where
  invites code := if code = lit "code" then some ([], 1, none) else none
  emails _ := false
  usernames _ := false

/-- Two signups read a count of zero, and both write a count of one. -/
def signupRace : List SignupAction :=
  [.signup 0 ⟨lit "a@example.com", lit "alice", some (lit "code")⟩,
    .signup 1 ⟨lit "b@example.com", lit "bobby", some (lit "code")⟩,
    .step 0, .step 0, .step 0, .step 1, .step 1, .step 1,
    .hashed 0 true, .step 0, .step 0, .step 0, .hashed 1 true, .step 1, .step 1, .step 1]

theorem invite_used_over_its_limit :
    invitedUsers (lit "code") (run (signupAct betaSettings) (.start 0 oneInvite)
      signupRace).events = 2 ∧
      ((run (signupAct betaSettings) (.start 0 oneInvite) signupRace).invites
        (lit "code")).stored = some ⟨[], 1, 1, none⟩ ∧
      ¬ InvitesCapped (run (signupAct betaSettings) (.start 0 oneInvite) signupRace) := by
  have hcount : invitedUsers (lit "code") (run (signupAct betaSettings) (.start 0 oneInvite)
      signupRace).events = 2 := by decide +kernel
  have hstored : ((run (signupAct betaSettings) (.start 0 oneInvite) signupRace).invites
      (lit "code")).stored = some ⟨[], 1, 1, none⟩ := by decide +kernel
  refine ⟨hcount, hstored, fun h => ?_⟩
  have hcapped := h.capped (lit "code") _ hstored
  rw [hcount] at hcapped
  exact absurd hcapped (by decide)

end PromptCode
