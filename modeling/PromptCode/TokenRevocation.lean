import PromptCode.RefreshRotation
import PromptCode.Py.Sha256

/-!
# Revoked tokens

The rows of `revoked_tokens` against the lifetimes of the tokens: what `get_current_user`,
`get_optional_user`, `refresh_token_endpoint`, `logout` and the deletions of expired rows do
one after another.  A request reads the clock more than once.
-/

namespace PromptCode

open Py Transition

/-- The claims of a token. -/
structure Claims where
  sub : Option Str
  exp : ℤ
  type : Option Str
  jti : Str
  deriving DecidableEq

/-- The library of the tokens with the key of the server, and the text of a user's id. -/
structure TokenLib where
  /-- `jwt.encode` -/
  encode : Claims → Str
  /-- `jwt.decode`, which checks the signature -/
  decode : Str → Option Claims
  /-- `str(user_id)` -/
  idText : ℕ → Str
  /-- `uuid.UUID(text)` -/
  idOf : Str → Option ℕ

/-- `claims.validate()`: the second has not passed that the token expires in. -/
def Claims.validates (claims : Claims) (now : ℤ) : Bool := now / 1000000 ≤ claims.exp

/-- `ACCESS_TOKEN_EXPIRE_MINUTES` in microseconds. -/
def accessLifetime : ℤ := 15 * 60 * 1000000

/-- `create_access_token` and `create_refresh_token` -/
def createToken (lib : TokenLib) (type : Str) (lifetime : ℤ) (userId : ℕ) (now : ℤ) (jti : Str) :
    Str :=
  lib.encode ⟨some (lib.idText userId), (now + lifetime) / 1000000, some type, jti⟩

def createAccessToken (lib : TokenLib) : ℕ → ℤ → Str → Str :=
  createToken lib (lit "access") accessLifetime

def createRefreshToken (lib : TokenLib) : ℕ → ℤ → Str → Str :=
  createToken lib (lit "refresh") refreshLifetime

/-- `decode_access_token` and `decode_refresh_token` -/
def decodeToken (lib : TokenLib) (type token : Str) (now : ℤ) : Option ℕ :=
  match lib.decode token with
  | none => none
  | some claims =>
      if claims.validates now && claims.type = some type then claims.sub.bind lib.idOf else none

def decodeAccessToken (lib : TokenLib) : Str → ℤ → Option ℕ := decodeToken lib (lit "access")

def decodeRefreshToken (lib : TokenLib) : Str → ℤ → Option ℕ := decodeToken lib (lit "refresh")

/-- `_hash_token`, or `none` where the token has no encoding. -/
def hashToken (token : Str) : Option Str := (utf8Encode token).map sha256Hex

abbrev RevokedRows := Str → Option RevokedRow

/-- `delete(RevokedToken).where(RevokedToken.expires_at < now)` -/
def RevokedRows.purge (rows : RevokedRows) (now : ℤ) : RevokedRows := fun h =>
  if expiredBefore now (rows h) then none else rows h

/-- A row for the hash, unless there is one. -/
def RevokedRows.insertNew (rows : RevokedRows) (h : Str) (expiresAt : ℤ) : RevokedRows :=
  if (rows h).isNone then Function.update rows h (some ⟨expiresAt⟩) else rows

/-- `_revoke_access_token` -/
def RevokedRows.revokeAccessToken (rows : RevokedRows) (h : Str) (now : ℤ) : RevokedRows :=
  rows.insertNew h (now + accessLifetime)

/-- `_revoke_refresh_token` -/
def RevokedRows.revokeRefreshToken (rows : RevokedRows) (h : Str) (now : ℤ) : RevokedRows :=
  (rows.purge now).insertNew h (now + refreshLifetime)

/-- The response to a request that is refused, or `UnicodeEncodeError`. -/
inductive AuthFailure where
  | http (status : ℕ) (detail : Str)
  | unicode
  deriving DecidableEq

/-- The tokens of a request. -/
structure RequestTokens where
  credentials : Option Str
  cookie : Option Str

structure AuthWorld where
  lib : TokenLib
  authCookieEnabled : Bool
  /-- `User.beta_status` of each user. -/
  users : ℕ → Option (Option Str)

/-- `_extract_access_token` -/
def AuthWorld.extractAccessToken (w : AuthWorld) (r : RequestTokens) : Option Str :=
  match r.credentials.filter (· ≠ []) with
  | some token => some token
  | none => if w.authCookieEnabled then r.cookie.filter (· ≠ []) else none

/-- `_access_token_is_revoked` -/
def accessTokenIsRevoked (rows : RevokedRows) (token : Str) (now : ℤ) : Option Bool :=
  (hashToken token).map fun h => (rows h).any fun row => now ≤ row.expiresAt

def AuthWorld.disabled (status : Option Str) : Bool := status = some (lit "disabled")

/-- `get_current_user`, with its two readings of the clock. -/
def getCurrentUser (w : AuthWorld) (rows : RevokedRows) (r : RequestTokens) (now later : ℤ) :
    Except AuthFailure ℕ :=
  match w.extractAccessToken r with
  | none => .error (.http 401 (lit "Not authenticated"))
  | some token =>
      match decodeAccessToken w.lib token now with
      | none => .error (.http 401 (lit "Invalid or expired token"))
      | some userId =>
          match accessTokenIsRevoked rows token later with
          | none => .error .unicode
          | some true => .error (.http 401 (lit "Token has been revoked"))
          | some false =>
              match w.users userId with
              | none => .error (.http 401 (lit "User not found"))
              | some status =>
                  if AuthWorld.disabled status then .error (.http 403 (lit "Account disabled"))
                  else .ok userId

def getOptionalUser (w : AuthWorld) (rows : RevokedRows) (r : RequestTokens) (now later : ℤ) :
    Except AuthFailure (Option ℕ) :=
  match w.extractAccessToken r with
  | none => .ok none
  | some token =>
      match decodeAccessToken w.lib token now with
      | none => .ok none
      | some userId =>
          match accessTokenIsRevoked rows token later with
          | none => .error .unicode
          | some true => .ok none
          | some false =>
              match w.users userId with
              | none => .ok none
              | some status => .ok (if AuthWorld.disabled status then none else some userId)

/-- The checks of `refresh_token_endpoint`: the user, and the hash of the token. -/
def checkRefresh (w : AuthWorld) (rows : RevokedRows) (token : Str) (now : ℤ) :
    Except AuthFailure (ℕ × Str) :=
  match decodeRefreshToken w.lib token now with
  | none => .error (.http 401 (lit "Invalid or expired refresh token"))
  | some userId =>
      match hashToken token with
      | none => .error .unicode
      | some h =>
          match rows h with
          | some _ => .error (.http 401 (lit "Refresh token has been revoked"))
          | none =>
              match w.users userId with
              | none => .error (.http 401 (lit "User not found"))
              | some status =>
                  if AuthWorld.disabled status then .error (.http 403 (lit "Account disabled"))
                  else .ok (userId, h)

/-- The checks of `logout` after `get_current_user`: the hashes of the two tokens. -/
def checkLogout (w : AuthWorld) (r : RequestTokens) (userId : ℕ) (refreshToken : Str)
    (now : ℤ) : Except AuthFailure (Str × Str) :=
  if decodeRefreshToken w.lib refreshToken now ≠ some userId then
    .error (.http 401 (lit "Refresh token does not belong to the current user"))
  else
    match hashToken refreshToken, (w.extractAccessToken r).bind hashToken with
    | some refreshHash, some accessHash => .ok (refreshHash, accessHash)
    | _, _ => .error .unicode

/-- A request that has accepted a token, or a committed revocation. -/
inductive TokenEvent where
  | accepted (token : Str)
  | revoked (token : Str)
  deriving DecidableEq

structure RevocationState where
  now : ℤ
  rows : RevokedRows
  issued : List Str
  events : List TokenEvent

/-- The delays are the gaps between the readings of the clock; a commit may fail. -/
inductive RevocationAction where
  | tick (d : ℕ)
  | issue (userId : ℕ) (jti : Str)
  | authenticate (r : RequestTokens) (d : ℕ)
  | authenticateOptional (r : RequestTokens) (d : ℕ)
  | refresh (token : Str) (d₁ d₂ d₃ : ℕ) (jti₁ jti₂ : Str) (commits : Bool)
  | logout (r : RequestTokens) (refreshToken : Str) (d₁ d₂ d₃ : ℕ) (commits : Bool)
  /-- `_rate_limit_cleanup_loop`. -/
  | cleanup

namespace RevocationState

variable (st : RevocationState)

def wait (d : ℕ) : RevocationState := { st with now := st.now + d }

/-- The token of the request has been accepted. -/
def accept (w : AuthWorld) (r : RequestTokens) : RevocationState :=
  { st with events := st.events ++ (w.extractAccessToken r).toList.map .accepted }

/-- A refresh whose checks have passed, after the second reading of the clock. -/
def refreshCommit (w : AuthWorld) (token h : Str) (userId : ℕ) (d₂ d₃ : ℕ)
    (jti₁ jti₂ : Str) : RevocationState where
  now := st.now + d₂ + d₃
  rows := st.rows.revokeRefreshToken h st.now
  issued := st.issued ++ [createAccessToken w.lib userId (st.now + d₂) jti₁,
    createRefreshToken w.lib userId (st.now + d₂ + d₃) jti₂]
  events := st.events ++ [.accepted token, .revoked token]

/-- A logout whose checks have passed, after its last reading of the clock. -/
def logoutCommit (w : AuthWorld) (r : RequestTokens) (refreshToken refreshHash accessHash : Str) :
    RevocationState :=
  { st with
    rows := (st.rows.revokeRefreshToken refreshHash st.now).revokeAccessToken accessHash st.now
    events := st.events ++
      (.revoked refreshToken :: (w.extractAccessToken r).toList.map .revoked) }

end RevocationState

def refreshAct (w : AuthWorld) (st : RevocationState) (token : Str) (d₁ d₂ d₃ : ℕ)
    (jti₁ jti₂ : Str) (commits : Bool) : RevocationState :=
  match checkRefresh w st.rows token st.now with
  | .error _ => st
  | .ok (userId, h) =>
      if commits then (st.wait d₁).refreshCommit w token h userId d₂ d₃ jti₁ jti₂
      else st.wait d₁

def logoutAct (w : AuthWorld) (st : RevocationState) (r : RequestTokens) (refreshToken : Str)
    (d₁ d₂ d₃ : ℕ) (commits : Bool) : RevocationState :=
  match getCurrentUser w st.rows r st.now (st.now + d₁) with
  | .error _ => st.wait d₁
  | .ok userId =>
      match checkLogout w r userId refreshToken (st.now + d₁ + d₂) with
      | .error _ => (((st.wait d₁).accept w r).wait d₂)
      | .ok (refreshHash, accessHash) =>
          if commits then
            (((st.wait d₁).accept w r).wait d₂ |>.wait d₃).logoutCommit w r refreshToken
              refreshHash accessHash
          else ((st.wait d₁).accept w r).wait d₂

def revocationAct (w : AuthWorld) (st : RevocationState) : RevocationAction → RevocationState
  | .tick d => st.wait d
  | .issue userId jti =>
      { st with issued := st.issued ++ [createAccessToken w.lib userId st.now jti,
          createRefreshToken w.lib userId st.now jti] }
  | .authenticate r d =>
      match getCurrentUser w st.rows r st.now (st.now + d) with
      | .ok _ => (st.wait d).accept w r
      | .error _ => st.wait d
  | .authenticateOptional r d =>
      match getOptionalUser w st.rows r st.now (st.now + d) with
      | .ok (some _) => (st.wait d).accept w r
      | _ => st.wait d
  | .refresh token d₁ d₂ d₃ jti₁ jti₂ commits =>
      refreshAct w st token d₁ d₂ d₃ jti₁ jti₂ commits
  | .logout r refreshToken d₁ d₂ d₃ commits => logoutAct w st r refreshToken d₁ d₂ d₃ commits
  | .cleanup => { st with rows := st.rows.purge st.now }

def RevocationState.start (now : ℤ) : RevocationState := ⟨now, fun _ => none, [], []⟩

/-- No token is accepted after its revocation was committed. -/
def RevocationsRemembered (events : List TokenEvent) : Prop :=
  ∀ token before after, events = before ++ .revoked token :: after → .accepted token ∉ after

/-- The first microsecond at which the token is not accepted any more. -/
def Claims.end (claims : Claims) : ℤ := (claims.exp + 1) * 1000000

/-- The row under the hash of the token, the one that is there or a new one with this
expiry, lasts to the end of the token. -/
def LivesOn (lib : TokenLib) (rows : RevokedRows) (token : Str) (expiresAt : ℤ) : Bool :=
  (lib.decode token).all fun claims =>
    claims.end ≤ (((hashToken token).bind rows).map (·.expiresAt)).getD expiresAt

/-- A revoked token that is accepted by its claims has still not expired when its row is
looked up. -/
def LooksUpInTime (w : AuthWorld) (st : RevocationState) (r : RequestTokens) (d : ℕ) : Prop :=
  ∀ token claims, w.extractAccessToken r = some token → .revoked token ∈ st.events →
    w.lib.decode token = some claims → claims.validates st.now = true →
      claims.validates (st.now + d) = true

/-- The rows of the committed revocations outlive their tokens, and no request straddles the
end of a revoked token. -/
def RevokesLong (w : AuthWorld) (st : RevocationState) : RevocationAction → Prop
  | .authenticate r d | .authenticateOptional r d => LooksUpInTime w st r d
  | .refresh token d₁ _ _ _ _ commits => commits = true →
      (∃ result, checkRefresh w st.rows token st.now = .ok result) →
        LivesOn w.lib (st.rows.purge (st.now + d₁)) token (st.now + d₁ + refreshLifetime) = true
  | .logout r refreshToken d₁ d₂ d₃ commits => LooksUpInTime w st r d₁ ∧
      (commits = true →
        (∃ userId result, getCurrentUser w st.rows r st.now (st.now + d₁) = .ok userId ∧
          checkLogout w r userId refreshToken (st.now + d₁ + d₂) = .ok result) →
          LivesOn w.lib (st.rows.purge (st.now + d₁ + d₂ + d₃)) refreshToken
            (st.now + d₁ + d₂ + d₃ + refreshLifetime) = true ∧
          ∀ token, w.extractAccessToken r = some token →
            LivesOn w.lib (st.rows.purge (st.now + d₁ + d₂ + d₃)) token
              (st.now + d₁ + d₂ + d₃ + accessLifetime) = true)
  | _ => True

section

variable {w : AuthWorld} {lib : TokenLib} {rows : RevokedRows} {st : RevocationState}
  {r : RequestTokens} {token h : Str} {claims : Claims} {now later expiresAt : ℤ}
  {events : List TokenEvent}

/-! ## What a request has checked -/

theorem Claims.validates_iff : claims.validates now = true ↔ now < claims.end := by
  rw [Claims.validates, Claims.end, decide_eq_true_iff]
  omega

theorem decodeToken_eq_some {type : Str} {userId : ℕ}
    (heq : decodeToken lib type token now = some userId) :
    ∃ claims, lib.decode token = some claims ∧ claims.validates now = true := by
  rw [decodeToken] at heq
  rcases hclaims : lib.decode token with _ | claims
  · rw [hclaims] at heq
    exact nomatch heq
  · rw [hclaims] at heq
    dsimp only at heq
    split_ifs at heq with hvalid
    exact ⟨claims, rfl, (Bool.and_eq_true_iff.mp hvalid).1⟩

/-- An access token that has been accepted. -/
theorem getCurrentUser_eq_ok {userId : ℕ}
    (heq : getCurrentUser w rows r now later = .ok userId) :
    ∃ token claims, w.extractAccessToken r = some token ∧
      w.lib.decode token = some claims ∧ claims.validates now = true ∧
      accessTokenIsRevoked rows token later = some false := by
  rw [getCurrentUser] at heq
  rcases htoken : w.extractAccessToken r with _ | token
  · rw [htoken] at heq
    exact nomatch heq
  rw [htoken] at heq
  dsimp only at heq
  rcases hdecode : decodeAccessToken w.lib token now with _ | userId'
  · rw [hdecode] at heq
    exact nomatch heq
  obtain ⟨claims, hclaims, hvalid⟩ := decodeToken_eq_some hdecode
  rw [hdecode] at heq
  dsimp only at heq
  rcases hrevoked : accessTokenIsRevoked rows token later with _ | _ | _
  · rw [hrevoked] at heq
    exact nomatch heq
  · exact ⟨token, claims, rfl, hclaims, hvalid, hrevoked⟩
  · rw [hrevoked] at heq
    exact nomatch heq

/-- Both dependencies accept the same requests. -/
theorem getOptionalUser_eq_ok {userId : ℕ}
    (heq : getOptionalUser w rows r now later = .ok (some userId)) :
    getCurrentUser w rows r now later = .ok userId := by
  rw [getOptionalUser] at heq
  rw [getCurrentUser]
  rcases htoken : w.extractAccessToken r with _ | token <;> rw [htoken] at heq <;>
    dsimp only at heq ⊢
  · exact nomatch heq
  rcases hdecode : decodeAccessToken w.lib token now with _ | userId' <;> rw [hdecode] at heq <;>
    dsimp only at heq ⊢
  · exact nomatch heq
  rcases hrevoked : accessTokenIsRevoked rows token later with _ | _ | _ <;>
    rw [hrevoked] at heq <;> dsimp only at heq ⊢
  · exact nomatch heq
  · rcases huser : w.users userId' with _ | status <;> rw [huser] at heq <;> dsimp only at heq ⊢
    · exact nomatch heq
    · split_ifs at heq ⊢
      · exact nomatch heq
      · exact congrArg Except.ok (Option.some.inj (Except.ok.inj heq))
  · exact nomatch heq

/-- A refresh token that has passed the checks. -/
theorem checkRefresh_eq_ok {userId : ℕ} (heq : checkRefresh w rows token now = .ok (userId, h)) :
    (∃ claims, w.lib.decode token = some claims ∧ claims.validates now = true) ∧
      hashToken token = some h ∧ rows h = none := by
  rw [checkRefresh] at heq
  rcases hdecode : decodeRefreshToken w.lib token now with _ | userId'
  · rw [hdecode] at heq
    exact nomatch heq
  refine ⟨decodeToken_eq_some hdecode, ?_⟩
  rw [hdecode] at heq
  dsimp only at heq
  rcases hhash : hashToken token with _ | h'
  · rw [hhash] at heq
    exact nomatch heq
  rw [hhash] at heq
  dsimp only at heq
  rcases hrow : rows h' with _ | row
  · rw [hrow] at heq
    dsimp only at heq
    rcases huser : w.users userId' with _ | status <;> rw [huser] at heq <;> dsimp only at heq
    · exact nomatch heq
    · split_ifs at heq
      obtain ⟨-, rfl⟩ := Prod.mk.inj (Except.ok.inj heq)
      exact ⟨rfl, hrow⟩
  · rw [hrow] at heq
    exact nomatch heq

theorem checkLogout_eq_ok {userId : ℕ} {refreshToken refreshHash accessHash : Str}
    (heq : checkLogout w r userId refreshToken now = .ok (refreshHash, accessHash)) :
    hashToken refreshToken = some refreshHash ∧
      (w.extractAccessToken r).bind hashToken = some accessHash := by
  rw [checkLogout] at heq
  split_ifs at heq
  split at heq
  · rename_i hrefresh haccess
    obtain ⟨rfl, rfl⟩ := Prod.mk.inj (Except.ok.inj heq)
    exact ⟨hrefresh, haccess⟩
  · exact nomatch heq

/-! ## The rows of the revocations -/

/-- There is a row for the token that lasts to its end, or the end has come. -/
def StillRevoked (lib : TokenLib) (rows : RevokedRows) (now : ℤ) (token : Str) : Prop :=
  ∀ claims, lib.decode token = some claims →
    (∃ row, (hashToken token).bind rows = some row ∧ claims.end ≤ row.expiresAt) ∨
      claims.end ≤ now

theorem StillRevoked.wait (hrev : StillRevoked lib rows now token) (d : ℕ) :
    StillRevoked lib rows (now + d) token := fun claims hclaims =>
  (hrev claims hclaims).imp id fun hend => hend.trans (by omega)

theorem purge_eq_of_le {row : RevokedRow} (hrow : rows h = some row)
    (hle : now ≤ row.expiresAt) : rows.purge now h = some row := by
  rw [RevokedRows.purge, hrow, if_neg]
  simpa [expiredBefore] using hle

/-- Only rows of tokens that have ended are deleted. -/
theorem StillRevoked.purge (hrev : StillRevoked lib rows now token) :
    StillRevoked lib (rows.purge now) now token := by
  intro claims hclaims
  rcases hrev claims hclaims with ⟨row, hrow, hend⟩ | hend
  · rcases le_or_gt now row.expiresAt with hle | hlt
    · obtain ⟨h, hhash, hrow⟩ := Option.bind_eq_some_iff.mp hrow
      exact .inl ⟨row, by rw [hhash, Option.bind_some, purge_eq_of_le hrow hle], hend⟩
    · exact .inr (hend.trans hlt.le)
  · exact .inr hend

theorem insertNew_of_some {k : Str} {row : RevokedRow} (hrow : rows k = some row) :
    rows.insertNew h expiresAt k = some row := by
  rw [RevokedRows.insertNew]
  split_ifs with hnone
  · have hk : k ≠ h := by
      rintro rfl
      rw [hrow] at hnone
      exact nomatch hnone
    rw [Function.update_of_ne hk, hrow]
  · exact hrow

theorem StillRevoked.insertNew (hrev : StillRevoked lib rows now token) :
    StillRevoked lib (rows.insertNew h expiresAt) now token := by
  intro claims hclaims
  refine (hrev claims hclaims).imp (fun ⟨row, hrow, hend⟩ => ⟨row, ?_, hend⟩) id
  obtain ⟨k, hhash, hrow⟩ := Option.bind_eq_some_iff.mp hrow
  rw [hhash, Option.bind_some, insertNew_of_some hrow]

/-- The row under the hash of a token that is revoked. -/
theorem stillRevoked_insertNew (hhash : hashToken token = some h)
    (hlives : LivesOn lib rows token expiresAt = true) :
    StillRevoked lib (rows.insertNew h expiresAt) now token := by
  intro claims hclaims
  rw [LivesOn, hclaims, hhash] at hlives
  have hend := of_decide_eq_true hlives
  refine .inl ?_
  rw [hhash, Option.bind_some]
  rw [Option.bind_some] at hend
  rcases hrow : rows h with _ | row
  · refine ⟨⟨expiresAt⟩, ?_, ?_⟩
    · rw [RevokedRows.insertNew, hrow, if_pos Option.isNone_none, Function.update_self]
    · rwa [hrow] at hend
  · refine ⟨row, insertNew_of_some hrow, ?_⟩
    rwa [hrow] at hend

theorem LivesOn.insertNew {lifetime longer : ℤ} (hle : lifetime ≤ longer)
    (hlives : LivesOn lib rows token lifetime = true) :
    LivesOn lib (rows.insertNew h longer) token lifetime = true := by
  rw [LivesOn, Option.all_eq_true] at hlives ⊢
  intro claims hclaims
  have hend := of_decide_eq_true (hlives claims hclaims)
  refine decide_eq_true (hend.trans ?_)
  rcases hashToken token with _ | k
  · exact le_rfl
  · rw [Option.bind_some, Option.bind_some]
    rcases hrow : rows k with _ | row
    · rw [RevokedRows.insertNew]
      split_ifs
      · by_cases hk : k = h
        · rw [hk, Function.update_self]
          exact hle
        · rw [Function.update_of_ne hk, hrow]
      · rw [hrow]
    · rw [insertNew_of_some hrow]

/-! ## Acceptance after a revocation -/

theorem RevocationsRemembered.append_accepted (hrem : RevocationsRemembered events)
    (hnot : .revoked token ∉ events) : RevocationsRemembered (events ++ [.accepted token]) := by
  intro token' before after heq hmem
  rcases List.eq_nil_or_concat after with rfl | ⟨rest, last, rfl⟩
  · exact absurd hmem List.not_mem_nil
  rw [List.concat_eq_append] at heq hmem
  rw [← List.cons_append, ← List.append_assoc] at heq
  obtain ⟨hsplit, hlast⟩ := List.append_inj' heq rfl
  obtain rfl := (List.cons.inj hlast).1
  rcases List.mem_append.mp hmem with hrest | hself
  · exact hrem token' before rest hsplit hrest
  · obtain rfl := TokenEvent.accepted.inj (List.mem_singleton.mp hself)
    refine hnot ?_
    rw [hsplit]
    exact List.mem_append_right _ List.mem_cons_self

theorem RevocationsRemembered.append_revoked (hrem : RevocationsRemembered events) :
    RevocationsRemembered (events ++ [.revoked token]) := by
  intro token' before after heq hmem
  rcases List.eq_nil_or_concat after with rfl | ⟨rest, last, rfl⟩
  · exact absurd hmem List.not_mem_nil
  rw [List.concat_eq_append] at heq hmem
  rw [← List.cons_append, ← List.append_assoc] at heq
  obtain ⟨hsplit, hlast⟩ := List.append_inj' heq rfl
  obtain rfl := (List.cons.inj hlast).1
  rcases List.mem_append.mp hmem with hrest | hself
  · exact hrem token' before rest hsplit hrest
  · exact nomatch List.mem_singleton.mp hself

/-- A revoked access token is not accepted. -/
theorem StillRevoked.not_current {userId : ℕ} (hrev : StillRevoked w.lib rows now token)
    (hextract : w.extractAccessToken r = some token)
    (htime : ∀ claims, w.lib.decode token = some claims → claims.validates now = true →
      claims.validates later = true)
    (heq : getCurrentUser w rows r now later = .ok userId) : False := by
  obtain ⟨token', claims, hextract', hclaims, hvalid, hnot⟩ := getCurrentUser_eq_ok heq
  obtain rfl := Option.some.inj (hextract.symm.trans hextract')
  have hlater := Claims.validates_iff.mp (htime claims hclaims hvalid)
  rcases hrev claims hclaims with ⟨row, hrow, hend⟩ | hend
  · obtain ⟨h, hhash, hrow⟩ := Option.bind_eq_some_iff.mp hrow
    have hle : later ≤ row.expiresAt := hlater.le.trans hend
    rw [accessTokenIsRevoked, hhash, Option.map_some, hrow] at hnot
    exact absurd hle (of_decide_eq_false (Option.some.inj hnot))
  · exact absurd (Claims.validates_iff.mp hvalid) (not_lt.mpr hend)

/-- A revoked refresh token is not accepted. -/
theorem StillRevoked.not_refresh {userId : ℕ} (hrev : StillRevoked w.lib rows now token)
    (heq : checkRefresh w rows token now = .ok (userId, h)) : False := by
  obtain ⟨⟨claims, hclaims, hvalid⟩, hhash, hnone⟩ := checkRefresh_eq_ok heq
  rcases hrev claims hclaims with ⟨row, hrow, -⟩ | hend
  · rw [hhash, Option.bind_some] at hrow
    exact nomatch hnone.symm.trans hrow
  · exact absurd (Claims.validates_iff.mp hvalid) (not_lt.mpr hend)

/-! ## Runs -/

structure RevocationsOk (w : AuthWorld) (st : RevocationState) : Prop where
  remembered : RevocationsRemembered st.events
  kept : ∀ token, .revoked token ∈ st.events → StillRevoked w.lib st.rows st.now token

theorem RevocationsOk.wait (hok : RevocationsOk w st) (d : ℕ) : RevocationsOk w (st.wait d) :=
  ⟨hok.remembered, fun token hmem => (hok.kept token hmem).wait d⟩

theorem RevocationsOk.accept (hok : RevocationsOk w st) {userId : ℕ} {d : ℕ}
    (htime : LooksUpInTime w st r d)
    (heq : getCurrentUser w st.rows r st.now (st.now + d) = .ok userId) :
    RevocationsOk w ((st.wait d).accept w r) := by
  obtain ⟨token, -, hextract, -⟩ := getCurrentUser_eq_ok heq
  have hnot : .revoked token ∉ st.events := fun hmem =>
    (hok.kept token hmem).not_current hextract
      (fun claims hclaims => htime token claims hextract hmem hclaims) heq
  have hevents : ((st.wait d).accept w r).events = st.events ++ [.accepted token] := by
    rw [RevocationState.accept, hextract]
    rfl
  refine ⟨?_, fun token' hmem => ?_⟩
  · rw [hevents]
    exact hok.remembered.append_accepted hnot
  · rw [hevents, List.mem_append] at hmem
    rcases hmem with hmem | hlast
    · exact (hok.kept token' hmem).wait d
    · exact nomatch List.mem_singleton.mp hlast

theorem RevocationsOk.refresh (hok : RevocationsOk w st) {userId d₁ : ℕ}
    (heq : checkRefresh w st.rows token st.now = .ok (userId, h))
    (hlives : LivesOn w.lib (st.rows.purge (st.now + d₁)) token
      (st.now + d₁ + refreshLifetime) = true) (d₂ d₃ : ℕ) (jti₁ jti₂ : Str) :
    RevocationsOk w ((st.wait d₁).refreshCommit w token h userId d₂ d₃ jti₁ jti₂) := by
  have hnot : .revoked token ∉ st.events := fun hmem => (hok.kept token hmem).not_refresh heq
  have hhash := (checkRefresh_eq_ok heq).2.1
  refine ⟨?_, fun token' hmem => ?_⟩
  · have hevents : ((st.wait d₁).refreshCommit w token h userId d₂ d₃ jti₁ jti₂).events =
        (st.events ++ [.accepted token]) ++ [.revoked token] := by
      rw [List.append_assoc]
      rfl
    rw [hevents]
    exact (hok.remembered.append_accepted hnot).append_revoked
  · refine StillRevoked.wait (StillRevoked.wait ?_ d₂) d₃
    rcases List.mem_append.mp hmem with hbefore | hlast
    · exact (((hok.kept token' hbefore).wait d₁).purge).insertNew
    · have heq : token' = token := by simpa using hlast
      rw [heq]
      exact stillRevoked_insertNew hhash hlives

theorem RevocationsOk.logout (hok : RevocationsOk w st)
    {refreshToken refreshHash accessHash : Str} (hhash : hashToken refreshToken = some refreshHash)
    (haccess : (w.extractAccessToken r).bind hashToken = some accessHash)
    (hrefresh : LivesOn w.lib (st.rows.purge st.now) refreshToken
      (st.now + refreshLifetime) = true)
    (hlives : ∀ token, w.extractAccessToken r = some token →
      LivesOn w.lib (st.rows.purge st.now) token (st.now + accessLifetime) = true) :
    RevocationsOk w (st.logoutCommit w r refreshToken refreshHash accessHash) := by
  obtain ⟨token, hextract, hhash'⟩ := Option.bind_eq_some_iff.mp haccess
  have hevents : (st.logoutCommit w r refreshToken refreshHash accessHash).events =
      (st.events ++ [.revoked refreshToken]) ++ [.revoked token] := by
    rw [RevocationState.logoutCommit, hextract, List.append_assoc]
    rfl
  refine ⟨?_, fun token' hmem => ?_⟩
  · rw [hevents]
    exact hok.remembered.append_revoked.append_revoked
  · rw [hevents, List.mem_append, List.mem_append] at hmem
    have hlifetime : st.now + accessLifetime ≤ st.now + refreshLifetime := by
      rw [accessLifetime, refreshLifetime]
      omega
    rcases hmem with (hbefore | hfirst) | hlast
    · exact ((hok.kept token' hbefore).purge).insertNew.insertNew
    · obtain rfl := TokenEvent.revoked.inj (List.mem_singleton.mp hfirst)
      exact (stillRevoked_insertNew hhash hrefresh).insertNew
    · obtain rfl := TokenEvent.revoked.inj (List.mem_singleton.mp hlast)
      exact stillRevoked_insertNew hhash' (LivesOn.insertNew hlifetime (hlives _ hextract))

theorem RevocationsOk.act {a : RevocationAction} (hok : RevocationsOk w st)
    (ha : RevokesLong w st a) : RevocationsOk w (revocationAct w st a) := by
  rcases a with d | ⟨userId, jti⟩ | ⟨r, d⟩ | ⟨r, d⟩ | ⟨token, d₁, d₂, d₃, jti₁, jti₂, commits⟩ |
    ⟨r, refreshToken, d₁, d₂, d₃, commits⟩ | _
  case tick => exact hok.wait d
  case issue => exact ⟨hok.remembered, hok.kept⟩
  case authenticate =>
    rw [revocationAct]
    rcases heq : getCurrentUser w st.rows r st.now (st.now + d) with e | userId
    · exact hok.wait d
    · exact hok.accept ha heq
  case authenticateOptional =>
    rw [revocationAct]
    rcases heq : getOptionalUser w st.rows r st.now (st.now + d) with e | _ | userId
    · exact hok.wait d
    · exact hok.wait d
    · exact hok.accept ha (getOptionalUser_eq_ok heq)
  case refresh =>
    rw [revocationAct, refreshAct]
    rcases heq : checkRefresh w st.rows token st.now with e | ⟨userId, h⟩
    · exact hok
    · dsimp only
      split_ifs with hcommits
      · exact hok.refresh heq (ha hcommits ⟨_, heq⟩) d₂ d₃ jti₁ jti₂
      · exact hok.wait d₁
  case logout =>
    rw [revocationAct, logoutAct]
    rcases huser : getCurrentUser w st.rows r st.now (st.now + d₁) with e | userId
    · exact hok.wait d₁
    have haccepted := (hok.accept ha.1 huser).wait d₂
    dsimp only
    rcases hcheck : checkLogout w r userId refreshToken (st.now + d₁ + d₂) with
      e | ⟨refreshHash, accessHash⟩
    · exact haccepted
    · dsimp only
      split_ifs with hcommits
      · obtain ⟨hhash, haccess⟩ := checkLogout_eq_ok hcheck
        obtain ⟨hrefresh, hlives⟩ := ha.2 hcommits ⟨userId, _, huser, hcheck⟩
        exact (haccepted.wait d₃).logout hhash haccess hrefresh hlives
      · exact haccepted
  case cleanup => exact ⟨hok.remembered, fun token hmem => (hok.kept token hmem).purge⟩

theorem revocationsOk_start : RevocationsOk w (.start now) where
  remembered := fun _ _ _ heq => by
    have hnil := (List.append_eq_nil_iff.mp heq.symm).2
    exact nomatch hnil
  kept := fun _ hmem => absurd hmem List.not_mem_nil

/-- Where the rows outlive the tokens that they revoke, a revoked token is never accepted. -/
theorem revocations_remembered (w : AuthWorld) (now : ℤ) (actions : List RevocationAction)
    (hlong : Throughout (revocationAct w) (RevokesLong w) (.start now) actions) :
    RevocationsRemembered (run (revocationAct w) (.start now) actions).events :=
  (invariant_run (RevocationsOk w) (fun _ _ hok ha => hok.act ha) revocationsOk_start
    hlong).remembered

theorem looksUpInTime_zero : LooksUpInTime w st r 0 := fun _ claims _ _ _ hvalid => by
  rwa [Nat.cast_zero, Int.add_zero]

end

/-! ## A logout just after the login -/

/-- A library whose tokens are their claims. -/
def plainTokens : TokenLib where
  encode claims :=
    (if claims.type = some (lit "access") then 97 else 114) ::
      Fin.ofNat _ (claims.exp.toNat / 1000000) :: Fin.ofNat _ (claims.exp.toNat % 1000000) ::
        claims.sub.getD []
  decode token :=
    match token with
    | kind :: high :: low :: sub => some ⟨some sub, high.val * 1000000 + low.val,
        some (if kind = 97 then lit "access" else lit "refresh"), []⟩
    | _ => none
  idText userId := [Fin.ofNat _ userId]
  idOf text :=
    match text with
    | [c] => some c.val
    | _ => none

def oneUser : AuthWorld where
  lib := plainTokens
  authCookieEnabled := false
  users userId := if userId = 1 then some (some (lit "active")) else none

def accessToken : Str := createAccessToken plainTokens 1 0 []

def refreshToken : Str := createRefreshToken plainTokens 1 0 []

/-- The header with the access token. -/
def bearer : RequestTokens := ⟨some accessToken, none⟩

/-- A login, a logout after the delay, and a request with the revoked token half a second
after the end of its fifteen minutes. -/
def loginLogout (delay rest : ℕ) : List RevocationAction :=
  [.issue 1 [], .tick delay, .logout bearer refreshToken 0 0 0 true, .tick rest,
    .authenticate bearer 0]

theorem revocations_remembered_after_two_seconds :
    RevocationsRemembered
      (run (revocationAct oneUser) (.start 0) (loginLogout 2000000 898500000)).events :=
  revocations_remembered oneUser 0 _ ⟨trivial, trivial, ⟨looksUpInTime_zero, fun _ _ =>
    ⟨by decide +kernel, fun _ htoken => by
      obtain rfl := Option.some.inj (htoken.symm.trans rfl)
      decide +kernel⟩⟩, trivial, looksUpInTime_zero, trivial⟩

/-- The row of a token that is revoked within its first second is gone before the token. -/
theorem revoked_token_accepted :
    (run (revocationAct oneUser) (.start 0) (loginLogout 300000 900200000)).events =
      [.accepted accessToken, .revoked refreshToken, .revoked accessToken,
        .accepted accessToken] ∧
      ¬ RevocationsRemembered
        (run (revocationAct oneUser) (.start 0) (loginLogout 300000 900200000)).events := by
  have hevents : (run (revocationAct oneUser) (.start 0) (loginLogout 300000 900200000)).events =
      [.accepted accessToken, .revoked refreshToken, .revoked accessToken,
        .accepted accessToken] := by decide +kernel
  refine ⟨hevents, fun hrem => ?_⟩
  rw [hevents] at hrem
  exact hrem accessToken [.accepted accessToken, .revoked refreshToken]
    [.accepted accessToken] rfl List.mem_cons_self

end PromptCode
