import PromptCode.RowLock
import PromptCode.Transition
import Mathlib.Data.Int.Notation
import Mathlib.Data.Nat.Notation
import Mathlib.Data.List.Basic
import Mathlib.Data.Int.Order.Basic

/-!
# Rotation of a refresh token

`refresh_token_endpoint`, `logout` and the cleanup loop on the row of one token in
`revoked_tokens`, cut at every statement.  The row is unique in its hash: an insert waits
for another uncommitted one and fails when there is a row.
-/

namespace PromptCode

open Transition

/-- `REFRESH_TOKEN_EXPIRE_DAYS` in microseconds. -/
def refreshLifetime : ℤ := 30 * 24 * 3600 * 1000000

/-- A row of `revoked_tokens`. -/
structure RevokedRow where
  expiresAt : ℤ
  deriving DecidableEq

inductive RevokerKind where
  | refresh
  | logout
  /-- `_rate_limit_cleanup_loop`. -/
  | sweep
  deriving DecidableEq

/-- The statement that a client comes to next. -/
inductive RevokerPhase where
  | lookup
  | loadUser
  | clock
  | purge (now : ℤ)
  | lookupAgain (now : ℤ)
  | insert (now : ℤ)
  | commit
  | ended
  deriving DecidableEq

structure Revoker where
  kind : RevokerKind
  phase : RevokerPhase
  deriving DecidableEq

/-- A commit that used the token up, or revoked it. -/
inductive RevocationEvent where
  | exchanged (t : ℕ)
  | loggedOut (t : ℕ)
  deriving DecidableEq

structure RotationState where
  now : ℤ
  row : Row ℕ (Option RevokedRow)
  clients : ℕ → Option Revoker
  /-- The commits, in their order. -/
  events : List RevocationEvent

inductive RotationAction where
  | tick (d : ℕ)
  | start (t : ℕ) (kind : RevokerKind)
  /-- The next statement of the client. -/
  | step (t : ℕ)
  /-- An exception or a refusal: the client rolls back. -/
  | fail (t : ℕ)

namespace RotationState

variable (st : RotationState)

def setClient (t : ℕ) (r : Revoker) : RotationState :=
  { st with clients := Function.update st.clients t (some r) }

def rollback (t : ℕ) (kind : RevokerKind) : RotationState :=
  { st with row := st.row.rollback t }.setClient t ⟨kind, .ended⟩

/-- The decoder accepts the token: the second has not passed that it names. -/
def decodes (exp : ℤ) : Bool := st.now / 1000000 ≤ exp

/-- What the commit of a client does with the token. -/
def eventOf (t : ℕ) : RevokerKind → List RevocationEvent
  | .refresh => [.exchanged t]
  | .logout => [.loggedOut t]
  | .sweep => []

end RotationState

/-- `RevokedToken.expires_at < now` -/
def expiredBefore (now : ℤ) (row : Option RevokedRow) : Bool :=
  row.any fun row => row.expiresAt < now

/-- What comes after the deletion of the expired rows. -/
def RevokerKind.next (now : ℤ) : RevokerKind → RevokerPhase
  | .sweep => .commit
  | _ => .lookupAgain now

/-- One statement.  A client that waits for a lock stays where it is. -/
def rotationStep (st : RotationState) (t : ℕ) (r : Revoker) : RotationState :=
  match r.phase with
  | .lookup =>
      match st.row.visible t with
      | some _ => st.rollback t r.kind
      | none => st.setClient t { r with phase := .loadUser }
  | .loadUser => st.setClient t { r with phase := .clock }
  | .clock => st.setClient t { r with phase := .purge st.now }
  | .purge now =>
      match st.row.update t (expiredBefore now) fun _ => none with
      | none => st
      | some (row, _) => { st with row := row }.setClient t { r with phase := r.kind.next now }
  | .lookupAgain now =>
      match st.row.visible t with
      | some _ => st.setClient t { r with phase := .commit }
      | none => st.setClient t { r with phase := .insert now }
  | .insert now =>
      if st.row.free t then
        match st.row.visible t with
        -- the unique constraint
        | some _ => st.rollback t r.kind
        | none => { st with row := st.row.put t (some ⟨now + refreshLifetime⟩) }.setClient t
            { r with phase := .commit }
      else st
  | .commit =>
      { st with
        row := st.row.commit t
        events := st.events ++ RotationState.eventOf t r.kind }.setClient t
          { r with phase := .ended }
  | .ended => st

/-- One action on the row of a token that expires in the second `exp`. -/
def rotationAct (exp : ℤ) (st : RotationState) : RotationAction → RotationState
  | .tick d => { st with now := st.now + d }
  | .start t kind =>
      if (st.clients t).isNone then
        match kind with
        | .refresh => if st.decodes exp then st.setClient t ⟨kind, .lookup⟩ else st
        | .logout => if st.decodes exp then st.setClient t ⟨kind, .clock⟩ else st
        | .sweep => st.setClient t ⟨kind, .clock⟩
      else st
  | .step t =>
      match st.clients t with
      | none => st
      | some r => rotationStep st t r
  | .fail t =>
      match st.clients t with
      | none => st
      | some r => if r.phase = .ended then st else st.rollback t r.kind

/-- Nobody has presented the token yet. -/
def RotationState.start (now : ℤ) : RotationState := ⟨now, ⟨none, none⟩, fun _ => none, []⟩

/-- An exchange comes before every other commit: there is at most one, and none after a
logout. -/
def SingleUse (st : RotationState) : Prop :=
  ∀ before t after, st.events = before ++ .exchanged t :: after → before = []

/-- No refresh of the token is under way, and none can begin. -/
structure TokenDead (exp : ℤ) (st : RotationState) : Prop where
  expired : exp < st.now / 1000000
  quiet : ∀ t r, st.clients t = some r → r.kind = .refresh → r.phase = .ended

/-- The second lookup of a refresh finds no revocation that the first one did not find,
and the row of the token is deleted only when the token is dead. -/
def RotatesAlone (exp : ℤ) (st : RotationState) : RotationAction → Prop
  | .step t => ∀ r, st.clients t = some r →
      (∀ now, r = ⟨.refresh, .lookupAgain now⟩ → st.row.visible t = none) ∧
      (∀ now row, r.phase = .purge now → st.row.visible t = some row →
        row.expiresAt < now → TokenDead exp st)
  | _ => True

section

variable {exp : ℤ} {st : RotationState} {a : RotationAction} {t u : ℕ} {r r' : Revoker}

@[simp] theorem RotationState.setClient_self : (st.setClient t r).clients t = some r :=
  Function.update_self ..

theorem RotationState.setClient_of_ne (h : u ≠ t) :
    (st.setClient t r).clients u = st.clients u := Function.update_of_ne h ..

/-! ## What one statement does -/

/-- What a statement leaves behind. -/
inductive RotationMove (st : RotationState) (t : ℕ) (r : Revoker) : RotationState → Prop where
  | stay : RotationMove st t r st
  | rollback : RotationMove st t r (st.rollback t r.kind)
  | pass (hphase : r.phase = .lookup ∨ r.phase = .loadUser ∨ r.phase = .clock)
      (phase : RevokerPhase) (hnext : phase ≠ .commit) :
      RotationMove st t r (st.setClient t { r with phase := phase })
  | miss (now : ℤ) (hphase : r.phase = .purge now) :
      RotationMove st t r (st.setClient t { r with phase := r.kind.next now })
  | delete (now : ℤ) (hphase : r.phase = .purge now) (row : RevokedRow)
      (hrow : st.row.visible t = some row) (hexpired : row.expiresAt < now)
      (hfree : st.row.free t = true) :
      RotationMove st t r
        ({ st with row := st.row.put t none }.setClient t { r with phase := r.kind.next now })
  | found (now : ℤ) (hphase : r.phase = .lookupAgain now) (row : RevokedRow)
      (hrow : st.row.visible t = some row) :
      RotationMove st t r (st.setClient t { r with phase := .commit })
  | unfound (now : ℤ) (hphase : r.phase = .lookupAgain now) :
      RotationMove st t r (st.setClient t { r with phase := .insert now })
  | insert (now : ℤ) (hphase : r.phase = .insert now) (hrow : st.row.visible t = none)
      (hfree : st.row.free t = true) (row : RevokedRow) :
      RotationMove st t r
        ({ st with row := st.row.put t (some row) }.setClient t { r with phase := .commit })
  | commit (hphase : r.phase = .commit) :
      RotationMove st t r ({ st with
        row := st.row.commit t
        events := st.events ++ RotationState.eventOf t r.kind }.setClient t
          { r with phase := .ended })

theorem rotationMove_step (st : RotationState) (t : ℕ) (r : Revoker) :
    RotationMove st t r (rotationStep st t r) := by
  rw [rotationStep]
  rcases hphase : r.phase with _ | _ | _ | now | now | now | _ | _
  case lookup =>
    dsimp only
    rcases st.row.visible t with _ | row
    · exact .pass (.inl hphase) _ nofun
    · exact .rollback
  case loadUser => exact .pass (.inr (.inl hphase)) _ nofun
  case clock => exact .pass (.inr (.inr hphase)) _ nofun
  case purge =>
    dsimp only
    rcases hupdate : st.row.update t (expiredBefore now) fun _ => none with _ | ⟨row, hit⟩
    · exact .stay
    dsimp only
    rcases Row.update_eq_some hupdate with ⟨-, rfl, -⟩ | ⟨-, rfl, hany, hfree⟩
    · exact .miss now hphase
    · rcases hrow : st.row.visible t with _ | row
      · rw [hrow] at hany
        exact nomatch hany
      · rw [hrow] at hany
        exact .delete now hphase row hrow (of_decide_eq_true hany) hfree
  case lookupAgain =>
    dsimp only
    rcases hrow : st.row.visible t with _ | row
    · exact .unfound now hphase
    · exact .found now hphase row hrow
  case insert =>
    dsimp only
    split_ifs with hfree
    · rcases hrow : st.row.visible t with _ | row
      · exact .insert now hphase hrow hfree _
      · exact .rollback
    · exact .stay
  case commit => exact .commit hphase
  case ended => exact .stay

/-! ## The invariant -/

/-- The token is revoked for good. -/
def TokenSpent (exp : ℤ) (st : RotationState) : Prop :=
  (∃ row, st.row.stored = some row) ∨ TokenDead exp st

/-- A refresh that comes to its commit has inserted the row and holds its lock; a logout
has inserted or found it. -/
def RevokerOk (exp : ℤ) (st : RotationState) (t : ℕ) (r : Revoker) : Prop :=
  match r.kind with
  | .refresh =>
      if r.phase = .commit then
        st.row.stored = none ∧ ∃ row, st.row.held = some (t, some row)
      else st.row.Released t
  | .logout => r.phase = .commit → (∃ row, st.row.held = some (t, some row)) ∨
      TokenSpent exp st
  | .sweep => True

structure RotationOk (exp : ℤ) (st : RotationState) : Prop where
  once : SingleUse st
  spent : st.events ≠ [] → TokenSpent exp st
  deleted : ∀ t, st.row.held = some (t, none) → TokenDead exp st
  idle : ∀ t, st.clients t = none → st.row.Released t
  client : ∀ t r, st.clients t = some r → RevokerOk exp st t r

theorem TokenDead.setClient (h : TokenDead exp st) {row : Row ℕ (Option RevokedRow)}
    {events : List RevocationEvent} (hr : r.kind = .refresh → r.phase = .ended) :
    TokenDead exp ({ st with row := row, events := events }.setClient t r) := by
  refine ⟨h.expired, fun u r' hu => ?_⟩
  by_cases hut : u = t
  · rw [hut, RotationState.setClient_self, Option.some.injEq] at hu
    exact hu ▸ hr
  · rw [RotationState.setClient_of_ne hut] at hu
    exact h.quiet u r' hu

variable {st' : RotationState}

/-- A dead token stays dead. -/
theorem TokenDead.move (h : TokenDead exp st) (hr : st.clients t = some r)
    (hmove : RotationMove st t r st') : TokenDead exp st' := by
  have hended : r.kind = .refresh → r.phase = .ended := h.quiet t r hr
  have hother : ∀ phase : RevokerPhase, r.phase ≠ .ended →
      r.kind = .refresh → phase = .ended := fun _ hphase hkind => absurd (hended hkind) hphase
  rcases hmove with _ | _ | ⟨hphase, phase⟩ | ⟨now, hphase⟩ | ⟨now, hphase⟩ |
    ⟨now, hphase⟩ | ⟨now, hphase⟩ | ⟨now, hphase⟩ | hphase
  case stay => exact h
  case rollback => exact h.setClient fun _ => rfl
  case pass =>
    refine h.setClient (hother phase ?_)
    rcases hphase with hphase | hphase | hphase <;> simp [hphase]
  case commit => exact h.setClient fun _ => rfl
  all_goals exact h.setClient (hother _ (by simp [hphase]))

/-- The rows of a move belong to the client that moves. -/
theorem RotationMove.onlyBy (hmove : RotationMove st t r st') :
    Row.OnlyBy t st.row st'.row := by
  rcases hmove
  case rollback => exact Row.onlyBy_rollback st.row t
  case delete hfree => exact Row.onlyBy_put hfree none
  case insert hfree row => exact Row.onlyBy_put hfree (some row)
  case commit => exact Row.onlyBy_commit st.row t
  all_goals exact .inl rfl

theorem RotationMove.clients_of_ne (hmove : RotationMove st t r st') (hu : u ≠ t) :
    st'.clients u = st.clients u := by
  rcases hmove
  case stay => rfl
  all_goals exact RotationState.setClient_of_ne hu

/-- A spent token stays spent. -/
theorem RotationOk.spent_move (h : RotationOk exp st) (hr : st.clients t = some r)
    (hmove : RotationMove st t r st') (hspent : TokenSpent exp st) : TokenSpent exp st' := by
  rcases hspent with ⟨row, hrow⟩ | hdead
  · have hstored : st'.row.stored = st.row.stored → TokenSpent exp st' :=
      fun heq => .inl ⟨row, heq.trans hrow⟩
    rcases hmove with _ | _ | _ | _ | _ | _ | _ | _ | hphase
    case rollback => exact hstored Row.rollback_stored
    case commit =>
      rcases st.row.commit_cases t with ⟨-, heq⟩ | ⟨v, hv, heq⟩
      · exact hstored (congrArg Row.stored heq)
      · rcases v with _ | row'
        · exact .inr ((h.deleted t hv).move hr (.commit hphase))
        · exact .inl ⟨row', congrArg Row.stored heq⟩
    all_goals exact hstored rfl
  · exact .inr (hdead.move hr hmove)

/-- Another client keeps what it relies on. -/
theorem RevokerOk.frame (h : RevokerOk exp st u r') (hu : u ≠ t)
    (hrow : Row.OnlyBy t st.row st'.row) (hspent : TokenSpent exp st → TokenSpent exp st') :
    RevokerOk exp st' u r' := by
  have hheld : ∀ v, st.row.held = some (u, v) → st'.row = st.row := fun v hv => by
    rcases hrow with heq | hreleased
    · exact heq
    · exact absurd hv ((hreleased u hu).1 v)
  rw [RevokerOk] at h ⊢
  rcases hkind : r'.kind
  case refresh =>
    rw [hkind] at h
    dsimp only at h ⊢
    split_ifs at h ⊢ with hphase
    · obtain ⟨hstored, row, hv⟩ := h
      rw [hheld _ hv]
      exact ⟨hstored, row, hv⟩
    · rcases hrow with heq | hreleased
      · rw [heq]
        exact h
      · exact (hreleased u hu).2
  case logout =>
    rw [hkind] at h
    intro hphase
    rcases h hphase with ⟨row, hv⟩ | hs
    · rw [hheld _ hv]
      exact .inl ⟨row, hv⟩
    · exact .inr (hspent hs)
  case sweep => trivial

/-- The events before the commit of a refresh. -/
theorem RotationOk.events_eq_nil (h : RotationOk exp st) (hr : st.clients t = some r)
    (hkind : r.kind = .refresh) (hphase : r.phase = .commit) : st.events = [] := by
  by_contra hne
  have hok := h.client t r hr
  rw [RevokerOk, hkind] at hok
  dsimp only at hok
  rw [if_pos hphase] at hok
  rcases h.spent hne with ⟨row, hrow⟩ | hdead
  · exact nomatch hok.1.symm.trans hrow
  · exact nomatch hphase.symm.trans (hdead.quiet t r hr hkind)

theorem singleUse_append_loggedOut {events : List RevocationEvent}
    (h : ∀ before u after, events = before ++ .exchanged u :: after → before = [])
    (before : List RevocationEvent) (u : ℕ) (after : List RevocationEvent)
    (heq : events ++ [.loggedOut t] = before ++ .exchanged u :: after) : before = [] := by
  rcases List.eq_nil_or_concat after with rfl | ⟨rest, last, rfl⟩
  · have hlast := (List.append_inj' heq rfl).2
    exact nomatch List.cons.inj hlast
  · rw [List.concat_eq_append, ← List.cons_append, ← List.append_assoc] at heq
    exact h before u rest (List.append_inj' heq rfl).1

/-- The commit of a client that the invariant allows. -/
theorem RotationOk.commit_events (h : RotationOk exp st) (hr : st.clients t = some r)
    (hphase : r.phase = .commit) (hmove : RotationMove st t r st')
    (hst' : st'.events = st.events ++ RotationState.eventOf t r.kind)
    (hrow : st'.row = st.row.commit t) :
    SingleUse st' ∧ (st'.events ≠ [] → TokenSpent exp st') := by
  have hok := h.client t r hr
  rw [RevokerOk] at hok
  have hinserted : ∀ row, st.row.held = some (t, some row) → TokenSpent exp st' := by
    intro row hv
    exact .inl ⟨row, by rw [hrow, Row.commit_of_held hv]⟩
  rw [SingleUse, hst']
  rcases hkind : r.kind
  case refresh =>
    rw [hkind] at hok
    dsimp only at hok
    rw [if_pos hphase] at hok
    obtain ⟨row, hv⟩ := hok.2
    refine ⟨?_, fun _ => hinserted row hv⟩
    rw [h.events_eq_nil hr hkind hphase]
    intro before u after heq
    rcases before with _ | ⟨e, before⟩
    · rfl
    · have htail := (List.cons.inj heq).2
      simp at htail
  case logout =>
    rw [hkind] at hok
    refine ⟨singleUse_append_loggedOut h.once, fun _ => ?_⟩
    rcases hok hphase with ⟨row, hv⟩ | hspent
    · exact hinserted row hv
    · exact h.spent_move hr hmove hspent
  case sweep =>
    rw [RotationState.eventOf, List.append_nil]
    exact ⟨h.once, fun hne => h.spent_move hr hmove (h.spent hne)⟩

/-- Where the row of the token is deleted, the token is dead. -/
def PurgesDead (exp : ℤ) (st : RotationState) (t : ℕ) (r : Revoker) : Prop :=
  ∀ now row, r.phase = .purge now → st.row.visible t = some row → row.expiresAt < now →
    TokenDead exp st

theorem RevokerOk.released (h : RevokerOk exp st t r) (hkind : r.kind = .refresh)
    (hphase : r.phase ≠ .commit) : st.row.Released t := by
  rw [RevokerOk, hkind] at h
  dsimp only at h
  rwa [if_neg hphase] at h

theorem revokerOk_of_refresh (hkind : r.kind = .refresh) (hphase : r.phase ≠ .commit)
    (h : st.row.Released t) : RevokerOk exp st t r := by
  rw [RevokerOk, hkind]
  dsimp only
  rwa [if_neg hphase]

theorem revokerOk_of_ne_commit (hkind : r.kind ≠ .refresh) (hphase : r.phase ≠ .commit) :
    RevokerOk exp st t r := by
  rw [RevokerOk]
  rcases hk : r.kind
  case refresh => exact absurd hk hkind
  case logout => exact fun h => absurd h hphase
  case sweep => trivial

theorem revokerOk_of_sweep (hkind : r.kind = .sweep) : RevokerOk exp st t r := by
  rw [RevokerOk, hkind]
  trivial

/-- A client that goes on without a lock. -/
theorem revokerOk_of_pass (hphase : r.phase ≠ .commit)
    (h : r.kind = .refresh → st.row.Released t) : RevokerOk exp st t r := by
  by_cases hkind : r.kind = .refresh
  · exact revokerOk_of_refresh hkind hphase (h hkind)
  · exact revokerOk_of_ne_commit hkind hphase

theorem RevokerKind.next_eq_commit {now : ℤ} {kind : RevokerKind}
    (h : kind.next now = .commit) : kind = .sweep := by
  rcases kind
  case sweep => rfl
  all_goals exact nomatch h

/-- The client that moves keeps what it relies on. -/
theorem RotationOk.own (h : RotationOk exp st) (hr : st.clients t = some r)
    (hmove : RotationMove st t r st')
    (halone : ∀ now, r = ⟨.refresh, .lookupAgain now⟩ → st.row.visible t = none)
    (hpurge : PurgesDead exp st t r) :
    ∀ r', st'.clients t = some r' → RevokerOk exp st' t r' := by
  have hok := h.client t r hr
  -- after its deletion of expired rows a client has no lock, or the token is dead
  have hafter : ∀ {st'' : RotationState} (now : ℤ),
      (r.kind = .refresh → st''.row.Released t) →
      RevokerOk exp st'' t { r with phase := r.kind.next now } := by
    intro st'' now hrel
    by_cases hnext : r.kind.next now = .commit
    · exact revokerOk_of_sweep (RevokerKind.next_eq_commit hnext)
    · exact revokerOk_of_pass hnext hrel
  intro r' hr'
  rcases hmove with _ | _ | ⟨hphase, phase, hnext⟩ | ⟨now, hphase⟩ |
    ⟨now, hphase, row, hrow, hexpired, hfree⟩ | ⟨now, hphase, row, hrow⟩ |
    ⟨now, hphase⟩ | ⟨now, hphase, hrow, hfree, row⟩ | hphase
  case stay =>
    obtain rfl := Option.some.inj (hr.symm.trans hr')
    exact hok
  all_goals
    obtain rfl := Option.some.inj (RotationState.setClient_self.symm.trans hr')
  case rollback =>
    exact revokerOk_of_pass (by simp) fun _ => Row.released_rollback st.row t
  case pass =>
    refine revokerOk_of_pass hnext fun hkind => hok.released hkind ?_
    rcases hphase with hphase | hphase | hphase <;> simp [hphase]
  case miss => exact hafter now fun hkind => hok.released hkind (by simp [hphase])
  case delete =>
    refine hafter now fun hkind => ?_
    have hended := (hpurge now row hphase hrow hexpired).quiet t r hr hkind
    cases hphase.symm.trans hended
  case found =>
    rw [RevokerOk]
    rcases hkind : r.kind
    case refresh =>
      have hnone := halone now (by rw [← hkind, ← hphase])
      cases hnone.symm.trans hrow
    case logout =>
      intro _
      by_cases hrel : st.row.Released t
      · rw [Row.visible_of_released hrel] at hrow
        exact .inr (.inl ⟨row, hrow⟩)
      · rw [Row.Released] at hrel
        push Not at hrel
        obtain ⟨v, hv⟩ := hrel
        rw [Row.visible_of_held hv] at hrow
        exact .inl ⟨row, hrow ▸ hv⟩
    case sweep => trivial
  case unfound =>
    exact revokerOk_of_pass (by simp) fun hkind => hok.released hkind (by simp [hphase])
  case insert =>
    rw [RevokerOk]
    rcases hkind : r.kind
    case refresh =>
      rw [Row.visible_of_released (hok.released hkind (by simp [hphase]))] at hrow
      exact ⟨hrow, row, rfl⟩
    case logout => exact fun _ => .inl ⟨row, rfl⟩
    case sweep => trivial
  case commit =>
    exact revokerOk_of_pass (by simp) fun _ => Row.released_commit st.row t

/-- What a move leaves to show about the commits, the deleted row and the client itself. -/
theorem RotationOk.of_move (h : RotationOk exp st) (hr : st.clients t = some r)
    (hmove : RotationMove st t r st')
    (hevents : st'.events = st.events ∨
      SingleUse st' ∧ (st'.events ≠ [] → TokenSpent exp st'))
    (hheld : ∀ u, st'.row.held = some (u, none) →
      st.row.held = some (u, none) ∨ TokenDead exp st')
    (hown : ∀ r', st'.clients t = some r' → RevokerOk exp st' t r') : RotationOk exp st' := by
  have hspent : TokenSpent exp st → TokenSpent exp st' := h.spent_move hr hmove
  refine ⟨?_, fun hne => ?_, fun u hu => ?_, fun u hu => ?_, fun u r' hu => ?_⟩
  · rcases hevents with heq | ⟨honce, -⟩
    · rw [SingleUse, heq]
      exact h.once
    · exact honce
  · rcases hevents with heq | ⟨-, hs⟩
    · rw [heq] at hne
      exact hspent (h.spent hne)
    · exact hs hne
  · rcases hheld u hu with hbefore | hd
    · exact (h.deleted u hbefore).move hr hmove
    · exact hd
  · have hut : u ≠ t := by
      rintro rfl
      rcases hmove
      case stay => exact nomatch hr.symm.trans hu
      all_goals exact nomatch RotationState.setClient_self.symm.trans hu
    have hbefore := h.idle u ((hmove.clients_of_ne hut).symm.trans hu)
    rcases hmove.onlyBy with heq | hreleased
    · rw [heq]
      exact hbefore
    · exact (hreleased u hut).2
  · by_cases hut : u = t
    · subst hut
      exact hown r' hu
    · rw [hmove.clients_of_ne hut] at hu
      exact (h.client u r' hu).frame hut hmove.onlyBy hspent

theorem RotationOk.rollback (h : RotationOk exp st) (hr : st.clients t = some r) :
    RotationOk exp (st.rollback t r.kind) := by
  refine h.of_move hr .rollback (.inl rfl) (fun u hu => .inl (Row.held_of_rollback hu)) ?_
  intro r' hr'
  obtain rfl := Option.some.inj (RotationState.setClient_self.symm.trans hr')
  exact revokerOk_of_pass nofun fun _ => Row.released_rollback st.row t

theorem RotationOk.move (h : RotationOk exp st) (hr : st.clients t = some r)
    (hmove : RotationMove st t r st')
    (halone : ∀ now, r = ⟨.refresh, .lookupAgain now⟩ → st.row.visible t = none)
    (hpurge : PurgesDead exp st t r) : RotationOk exp st' := by
  refine h.of_move hr hmove ?_ ?_ (h.own hr hmove halone hpurge)
  · rcases hmove
    case commit hphase => exact .inr (h.commit_events hr hphase (.commit hphase) rfl rfl)
    all_goals exact .inl rfl
  · intro u hu
    rcases hmove
    case rollback => exact .inl (Row.held_of_rollback hu)
    case commit =>
      rcases st.row.commit_cases t with ⟨-, heq⟩ | ⟨v, -, heq⟩
      · exact .inl ((congrArg Row.held heq).symm.trans hu)
      · exact nomatch (congrArg Row.held heq).symm.trans hu
    case delete now hphase row hrow hexpired hfree =>
      exact .inr ((hpurge now row hphase hrow hexpired).move hr
        (.delete now hphase row hrow hexpired hfree))
    case insert => exact nomatch hu
    all_goals exact .inl hu

/-! ## Runs -/

/-- A step that leaves the row and the commits alone. -/
theorem RotationOk.keep (h : RotationOk exp st) (hrow : st'.row = st.row)
    (hevents : st'.events = st.events) (hdead : TokenDead exp st → TokenDead exp st')
    (hidle : ∀ u, st'.clients u = none → st.clients u = none)
    (hclient : ∀ u r', st'.clients u = some r' →
      st.clients u = some r' ∨ r'.phase ≠ .commit ∧ st.clients u = none) :
    RotationOk exp st' := by
  have hspent : TokenSpent exp st → TokenSpent exp st' := by
    rintro (⟨row, hstored⟩ | hd)
    · exact .inl ⟨row, by rw [hrow, hstored]⟩
    · exact .inr (hdead hd)
  refine ⟨?_, fun hne => ?_, fun u hu => ?_, fun u hu => ?_, fun u r' hu => ?_⟩
  · rw [SingleUse, hevents]
    exact h.once
  · rw [hevents] at hne
    exact hspent (h.spent hne)
  · rw [hrow] at hu
    exact hdead (h.deleted u hu)
  · rw [hrow]
    exact h.idle u (hidle u hu)
  · rcases hclient u r' hu with hbefore | ⟨hphase, hnone⟩
    · have hok := h.client u r' hbefore
      rw [RevokerOk, hrow]
      rw [RevokerOk] at hok
      rcases hkind : r'.kind
      case refresh =>
        rw [hkind] at hok
        exact hok
      case logout =>
        rw [hkind] at hok
        exact fun hphase => (hok hphase).imp id hspent
      case sweep => trivial
    · refine revokerOk_of_pass hphase fun _ => ?_
      rw [hrow]
      exact h.idle u hnone

/-- A request for a token that has expired does not begin. -/
theorem TokenDead.start (h : TokenDead exp st) {kind : RevokerKind} {phase : RevokerPhase}
    (hdecodes : kind = .refresh → st.decodes exp = true) :
    TokenDead exp (st.setClient t ⟨kind, phase⟩) := by
  refine h.setClient fun hkind => ?_
  have hle : st.now / 1000000 ≤ exp := of_decide_eq_true (hdecodes hkind)
  exact absurd h.expired (not_lt.mpr hle)

theorem RotationOk.start (h : RotationOk exp st) (hnone : st.clients t = none)
    {kind : RevokerKind} {phase : RevokerPhase} (hphase : phase ≠ .commit)
    (hdecodes : kind = .refresh → st.decodes exp = true) :
    RotationOk exp (st.setClient t ⟨kind, phase⟩) := by
  refine h.keep rfl rfl (fun hd => hd.start hdecodes) (fun u hu => ?_) fun u r' hu => ?_
  · by_cases hut : u = t
    · exact hut ▸ hnone
    · exact (RotationState.setClient_of_ne hut).symm.trans hu
  · by_cases hut : u = t
    · subst hut
      obtain rfl := Option.some.inj (RotationState.setClient_self.symm.trans hu)
      exact .inr ⟨hphase, hnone⟩
    · exact .inl ((RotationState.setClient_of_ne hut).symm.trans hu)

theorem RotationOk.act (h : RotationOk exp st) (ha : RotatesAlone exp st a) :
    RotationOk exp (rotationAct exp st a) := by
  rcases a with d | ⟨t, kind⟩ | t | t
  case tick =>
    refine h.keep rfl rfl (fun hd => ⟨?_, hd.quiet⟩) (fun _ hu => hu) fun _ _ hu => .inl hu
    have hle : st.now / 1000000 ≤ (st.now + d) / 1000000 := by omega
    exact lt_of_lt_of_le hd.expired hle
  case start =>
    rcases hnone : st.clients t with _ | r
    · rcases kind <;> simp only [rotationAct, hnone, Option.isNone_none, if_true]
      case refresh =>
        split_ifs with hdecodes
        · exact h.start hnone nofun fun _ => hdecodes
        · exact h
      case logout =>
        split_ifs
        · exact h.start hnone nofun nofun
        · exact h
      case sweep => exact h.start hnone nofun nofun
    · simp only [rotationAct, hnone, Option.isNone_some, Bool.false_eq_true, if_false]
      exact h
  case step =>
    rw [rotationAct]
    rcases hr : st.clients t with _ | r
    · exact h
    · obtain ⟨halone, hpurge⟩ := ha r hr
      exact h.move hr (rotationMove_step st t r) halone hpurge
  case fail =>
    rw [rotationAct]
    rcases hr : st.clients t with _ | r
    · exact h
    · dsimp only
      split_ifs
      · exact h
      · exact h.rollback hr

theorem rotationOk_start {now : ℤ} : RotationOk exp (.start now) where
  once := fun before _ _ h => by
    have hnil := (List.append_eq_nil_iff.mp h.symm).2
    exact nomatch hnil
  spent := fun h => absurd rfl h
  deleted := nofun
  idle := fun _ _ _ => nofun
  client := nofun

theorem rotatesAlone_of_visible (h : st.row.visible t = none) :
    RotatesAlone exp st (.step t) :=
  fun _ _ => ⟨fun _ _ => h, fun _ _ _ hrow => nomatch h.symm.trans hrow⟩

/-- As long as no second lookup finds a revocation and no row of a live token is deleted,
a token is exchanged once, and never after a logout has revoked it. -/
theorem refresh_rotates_once (exp now : ℤ) (actions : List RotationAction)
    (h : Throughout (rotationAct exp) (RotatesAlone exp) (.start now) actions) :
    SingleUse (run (rotationAct exp) (.start now) actions) :=
  (invariant_run (RotationOk exp) (fun _ _ hok ha => hok.act ha) rotationOk_start h).once

end

/-- One refresh from its start to its commit. -/
theorem refresh_rotates_once_of_one :
    SingleUse (run (rotationAct 100) (.start 0)
      (.start 0 .refresh :: List.replicate 7 (.step 0))) :=
  refresh_rotates_once 100 0 _
    ⟨trivial, rotatesAlone_of_visible rfl, rotatesAlone_of_visible rfl,
      rotatesAlone_of_visible rfl, rotatesAlone_of_visible rfl, rotatesAlone_of_visible rfl,
      rotatesAlone_of_visible rfl, fun _ hr => by cases hr; exact ⟨nofun, nofun⟩, trivial⟩

/-! ## Two refreshes at once -/

/-- Two refreshes pass the first lookup.  The first of them revokes the token and commits,
then the second one finds the row that it would have inserted, and commits as well. -/
def rotationRace : List RotationAction :=
  [.start 0 .refresh, .start 1 .refresh, .step 0, .step 0, .step 0, .step 1, .step 1, .step 1,
    .step 0, .step 0, .step 0, .step 0, .step 1, .step 1, .step 1]

theorem refresh_token_exchanged_twice :
    (run (rotationAct 100) (.start 0) rotationRace).events = [.exchanged 0, .exchanged 1] ∧
      ¬ SingleUse (run (rotationAct 100) (.start 0) rotationRace) := by
  have hevents : (run (rotationAct 100) (.start 0) rotationRace).events =
      [.exchanged 0, .exchanged 1] := by decide
  refine ⟨hevents, fun h => ?_⟩
  exact nomatch h [.exchanged 0] 1 [] hevents

end PromptCode
