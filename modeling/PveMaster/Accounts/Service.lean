import PveMaster.Accounts.Model

/-! `AuthService` and the functions of `AccountService` that change a user.

Every request is one transaction on its session: what it loads it loads at the statement
that reads it, and what it has assigned is written by its commit. Reading the clock,
checking a password and drawing secrets take time in which others commit. -/
namespace PveMaster.Accounts
open Prog

/-- The hashes and the settings of the authentication service. Times are in the unit of
`Instant`. -/
structure Security where
  /-- `PasswordManager.verify`. -/
  verify : String → String → Bool
  /-- `PasswordManager.hash`, with its salt. -/
  hash : Nat → String → String
  /-- `TokenManager.hash_refresh_secret`. -/
  hashRefreshSecret : String → Digest
  /-- `_throttle_key`. -/
  throttleKey : String → String → Digest
  refreshTtl : Int
  loginFailureLimit : Nat
  loginFailureWindow : Int
  loginLockout : Int
  limit_ge : 2 ≤ loginFailureLimit := by decide
  window_ge : 60 * second ≤ loginFailureWindow := by decide
  lockout_ge : 60 * second ≤ loginLockout := by decide

theorem mem_id (l : List Uuid) (k : Uuid) : k ∈ id l ↔ k ∈ l := Iff.rfl

/-- What is decided outside: random draws, and the order in which an update finds its rows. -/
structure Draws where
  uuid : Nat → Uuid := fun n => n
  secret : String := ""
  salt : Nat := 0
  order : List Uuid → List Uuid := id
  mem_order : ∀ l k, k ∈ order l ↔ k ∈ l := by exact Accounts.mem_id

inductive AuthCall where
  /-- `verify` of a user's stored hash. -/
  | verify (userId : Uuid) (passwordHash password : String)
  | verifyDummy (password : String)
  | draw
  deriving DecidableEq

/-- The claims of an access token. -/
structure AccessClaims where
  userId : Uuid
  sessionEpoch : Int
  deriving DecidableEq

structure TokenResponse where
  accessToken : AccessClaims
  refreshToken : String
  deriving DecidableEq

inductive AuthResponse where
  | tokens (t : TokenResponse)
  | done
  deriving DecidableEq

abbrev Answer := Except Exn AuthResponse

abbrev AuthOp := Statement Db Row Flush AuthCall Answer Exn Draws

abbrev AuthProg (α : Type) := Prog Exn AuthOp α

namespace AuthProg
variable {α : Type}

def read (q : Db → α) : AuthProg α := op (.read fun _ db => q db)
def now : AuthProg Instant := read Db.clock
def lock (row : Row) (wanted : Db → Bool) (q : Db → α) : AuthProg α := op (.lock row wanted q)
def call (c : AuthCall) (q : Draws → α) : AuthProg α := op (.call c q)
def draw : AuthProg Draws := call .draw id
def commit (w : Flush) : AuthProg Unit := perform (.commit w id)

end AuthProg
open AuthProg

/-! ### Errors -/

def invalidCredentials : AppError :=
  ⟨401, "INVALID_CREDENTIALS", "The email or password is invalid.", []⟩

def invalidRefresh : AppError :=
  ⟨401, "INVALID_REFRESH_TOKEN", "The refresh token is invalid or expired.", []⟩

def refreshReused : AppError :=
  ⟨401, "REFRESH_TOKEN_REUSED", "Refresh token reuse was detected; the session was revoked.", []⟩

def rateLimited : AppError :=
  ⟨429, "LOGIN_RATE_LIMITED", "Too many login attempts. Try again later.", []⟩

def invalidAccessToken : AppError :=
  ⟨401, "INVALID_ACCESS_TOKEN", "The access token is invalid or expired.", []⟩

def userNotFound : AppError := ⟨404, "USER_NOT_FOUND", "The user was not found.", []⟩

def userVersionConflict : AppError :=
  ⟨409, "USER_VERSION_CONFLICT", "The user was modified by another request.", []⟩

def currentPasswordInvalid : AppError :=
  ⟨400, "CURRENT_PASSWORD_INVALID", "The current password is invalid.", []⟩

def userSelfDelete : AppError :=
  ⟨409, "USER_SELF_DELETE", "The current user cannot delete their own account.", []⟩

/-- `update_user` says `changed`, `delete_user` says `deleted`. -/
def lastSuperAdmin (done : String) : AppError :=
  ⟨409, "LAST_SUPER_ADMIN", "The last active super administrator cannot be " ++ done ++ ".", []⟩

/-! ### Tokens -/

def createAccessToken (user : User) : AccessClaims := ⟨user.id, user.sessionEpoch⟩

/-- What `get_current_principal` makes of the user it has found. -/
def principalOf (claims : AccessClaims) (user : Option User) : Except Exn Principal :=
  match user with
  | none => .error (.app invalidAccessToken)
  | some user =>
    if user.isActive = false ∨ user.sessionEpoch ≠ claims.sessionEpoch then .error (.app invalidAccessToken)
    else .ok ⟨user.id, user.email, user.role, user.sessionEpoch⟩

/-- `get_current_principal` in one state. -/
def authenticate (claims : AccessClaims) (db : Db) : Except Exn Principal :=
  principalOf claims (db.users.get? claims.userId)

def getCurrentPrincipal (claims : AccessClaims) : AuthProg Principal := do
  ofExcept (← read (authenticate claims))

/-- The rows an update, or a deletion, finds when it starts: each is locked in its turn, and
passed by if it does not satisfy the condition any more. -/
def lockRows (row : Uuid → Row) (wanted : Uuid → Db → Bool) : List Uuid → AuthProg (List Uuid)
  | [] => pure []
  | id :: rest => do
    let matched ← lock (row id) (wanted id) (wanted id)
    let others ← lockRows row wanted rest
    return if matched then id :: others else others

def Db.tokenMatches (p : RefreshToken → Bool) (id : Uuid) (db : Db) : Bool := (db.tokens.get? id).any p

def Db.memberMatches (p : OrganizationMember → Bool) (id : Uuid) (db : Db) : Bool := (db.members.get? id).any p

/-- `UPDATE refresh_tokens … WHERE p`: the rows it found, and those it updated. -/
def updateTokens (p : RefreshToken → Bool) : AuthProg (List Uuid × List Uuid) := do
  let found ← op (.read fun i db => i.order ((db.tokens.select p).map RefreshToken.id))
  let updated ← lockRows .token (Db.tokenMatches p) found
  return (found, updated)

/-- `DELETE FROM organization_members WHERE user_id = …`. -/
def deleteMembers (userId : Uuid) : AuthProg (List Uuid) := do
  let found ← op (.read fun i db =>
    i.order ((db.members.select (fun m => m.userId == userId)).map OrganizationMember.id))
  lockRows .member (Db.memberMatches (fun m => m.userId == userId)) found

/-- The unrevoked tokens of a family. -/
def ofFamily (familyId : Uuid) (t : RefreshToken) : Bool := t.familyId == familyId && t.revokedAt.isNone

/-- The unrevoked tokens of a user. -/
def ofUser (userId : Uuid) (t : RefreshToken) : Bool := t.userId == userId && t.revokedAt.isNone

def revokeFamily (familyId : Uuid) : AuthProg (List Uuid × List Uuid) := updateTokens (ofFamily familyId)

def tokenWithHash (tokenHash : Digest) (db : Db) : Option RefreshToken :=
  db.tokens.first (fun t => t.tokenHash == tokenHash)

/-- `SELECT … WHERE token_hash = … FOR UPDATE`. -/
def selectTokenForUpdate (tokenHash : Digest) : AuthProg (Option RefreshToken) := do
  match ← read (tokenWithHash tokenHash) with
  | none => return none
  | some t =>
    lock (.token t.id) (Db.tokenMatches (fun t => t.tokenHash == tokenHash) t.id)
      (fun db => (db.tokens.get? t.id).filter (fun t => t.tokenHash == tokenHash))

/-- `SELECT … FROM users WHERE id = … FOR UPDATE`. -/
def selectUserForUpdate (userId : Uuid) : AuthProg (Option User) :=
  lock (.user userId) (fun db => (db.users.get? userId).isSome) (fun db => db.users.get? userId)

/-! ### What the services write -/

/-- The row of a refresh token, in a family and after a parent. -/
def refreshToken (sec : Security) (d : Draws) (user : User) (familyId : Uuid) (parentId : Option Uuid)
    (now : Instant) : RefreshToken where
  id := d.uuid 0
  userId := user.id
  familyId := familyId
  tokenHash := sec.hashRefreshSecret d.secret
  parentId := parentId
  replacedById := none
  expiresAt := now + sec.refreshTtl
  revokedAt := none
  reuseDetectedAt := none

def sessionAudit (action : String) (outcome : AuditOutcome) (user : User) (targetType : String)
    (targetId : Uuid) : AuditEvent :=
  ⟨action, outcome, some user.id, some user.role, some targetType, some targetId, none⟩

def limitedWrite : Flush :=
  { audits := [⟨"AUTH_LOGIN", .denied, none, none, none, none, some "LOGIN_RATE_LIMITED"⟩] }

def deniedWrite (user : Option User) (throttle : ThrottleEdit) : Flush :=
  { throttle := throttle
    audits := [⟨"AUTH_LOGIN", .denied, user.map User.id, user.map User.role, none, none,
      some "INVALID_CREDENTIALS"⟩] }

def loginWrite (sec : Security) (d : Draws) (user : User) (throttle : Option LoginThrottle) (now : Instant) : Flush :=
  { user := some ⟨user, { user with lastLoginAt := some now }⟩
    issued := some (refreshToken sec d user (d.uuid 1) none now)
    throttle := match throttle with
      | some t => .delete t.keyHash
      | none => .keep
    audits := [sessionAudit "AUTH_LOGIN" .succeeded user "user" user.id] }

def rotationWrite (sec : Security) (d : Draws) (user : User) (stored : RefreshToken) (now : Instant) : Flush :=
  { token := some ⟨stored, { stored with revokedAt := some now, replacedById := some (d.uuid 0) }⟩
    issued := some (refreshToken sec d user stored.familyId (some stored.id) now)
    audits := [sessionAudit "AUTH_REFRESH" .succeeded user "refresh_token_family" stored.familyId] }

def reuseWrite (user : User) (stored : RefreshToken) (rows : List Uuid × List Uuid) (now : Instant) : Flush :=
  { user := some ⟨user, { user with sessionEpoch := user.sessionEpoch + 1 }⟩
    token := some ⟨stored, { stored with reuseDetectedAt := some now }⟩
    found := rows.1
    revoked := rows.2
    revokedAt := now
    audits := [sessionAudit "AUTH_REFRESH_REUSE" .denied user "refresh_token_family" stored.familyId] }

def expiryWrite (stored : RefreshToken) (now : Instant) : Flush :=
  { token := some ⟨stored, { stored with revokedAt := some now }⟩ }

def logoutWrite (user : Option User) (familyId : Uuid) (rows : List Uuid × List Uuid) (now : Instant) : Flush :=
  { user := user.map fun user => ⟨user, { user with sessionEpoch := user.sessionEpoch + 1 }⟩
    found := rows.1
    revoked := rows.2
    revokedAt := now
    audits := match user with
      | some user => [sessionAudit "AUTH_LOGOUT" .succeeded user "refresh_token_family" familyId]
      | none => [] }

/-- A change of a user by an administrator or by themselves. -/
def userWrite (e : Edit User) (rows : List Uuid × List Uuid) (now : Instant) (removed : List Uuid)
    (counted : Option Nat) (audit : AuditEvent) : Flush :=
  { user := some e
    found := rows.1
    revoked := rows.2
    revokedAt := now
    removed := removed
    counted := counted
    audits := [audit] }

/-! ### AuthService -/

/-- `_record_failure`: what becomes of the throttle row, and whether the key is locked. -/
def recordFailure (sec : Security) (throttle : Option LoginThrottle) (keyHash : Digest) (now : Instant) :
    ThrottleEdit × Bool :=
  let current : LoginThrottle := match throttle with
    | none => ⟨keyHash, 0, now, none⟩
    | some t => if sec.loginFailureWindow ≤ now - t.windowStartedAt then ⟨t.keyHash, 0, now, none⟩ else t
  let counted := { current with failureCount := current.failureCount + 1 }
  let locked := decide (sec.loginFailureLimit ≤ counted.failureCount)
  let after := if locked then { counted with lockedUntil := some (now + sec.loginLockout) } else counted
  (match throttle with
    | none => .insert after
    | some _ => .update after, locked)

/-- Whether the key is locked out at an instant. -/
def LoginThrottle.lockedAt (t : LoginThrottle) (now : Instant) : Bool :=
  match t.lockedUntil with
  | some until_ => decide (now < until_)
  | none => false

def verified (sec : Security) (user : Option User) (password : String) : AuthProg Bool :=
  match user with
  | some user => call (.verify user.id user.passwordHash password) fun _ => sec.verify user.passwordHash password
  | none => call (.verifyDummy password) fun _ => false

def login (sec : Security) (email password source : String) : AuthProg AuthResponse := do
  let now ← now
  let keyHash := sec.throttleKey email source
  let throttle ← lock (.throttle keyHash) (fun db => (db.throttles.get? keyHash).isSome)
    (fun db => db.throttles.get? keyHash)
  if throttle.any (LoginThrottle.lockedAt · now) then
    call (.verifyDummy password) fun _ => ()
    commit limitedWrite
    raise (.app rateLimited)
  else
    let user ← read fun db => db.users.first (fun u => u.email == email)
    let passwordValid ← verified sec user password
    match user.filter (fun user => passwordValid && user.isActive) with
    | none =>
      let (edit, locked) := recordFailure sec throttle keyHash now
      commit (deniedWrite user edit)
      raise (.app (if locked then rateLimited else invalidCredentials))
    | some user =>
      let d ← draw
      -- the update of `last_login_at`
      let _ ← selectUserForUpdate user.id
      commit (loginWrite sec d user throttle now)
      return .tokens ⟨createAccessToken user, d.secret⟩

def refresh (sec : Security) (rawToken : String) : AuthProg AuthResponse := do
  let now ← now
  match ← selectTokenForUpdate (sec.hashRefreshSecret rawToken) with
  | none => raise (.app invalidRefresh)
  | some stored =>
    match (← selectUserForUpdate stored.userId).filter User.isActive with
    | none => raise (.app invalidRefresh)
    | some user =>
      if stored.revokedAt.isSome || stored.replacedById.isSome then
        let rows ← revokeFamily stored.familyId
        commit (reuseWrite user stored rows now)
        raise (.app refreshReused)
      else if stored.expiresAt ≤ now then
        commit (expiryWrite stored now)
        raise (.app invalidRefresh)
      else
        let d ← draw
        commit (rotationWrite sec d user stored now)
        return .tokens ⟨createAccessToken user, d.secret⟩

def logout (sec : Security) (rawToken : String) : AuthProg AuthResponse := do
  let now ← now
  match ← read (tokenWithHash (sec.hashRefreshSecret rawToken)) with
  | none => return .done
  | some stored =>
    let user ← read fun db => db.users.get? stored.userId
    let rows ← revokeFamily stored.familyId
    match user with
    | none => commit (logoutWrite none stored.familyId rows now)
    | some user =>
      -- the update of `session_epoch`
      let _ ← selectUserForUpdate user.id
      commit (logoutWrite (some user) stored.familyId rows now)
    return .done

/-! ### AccountService -/

/-- `_get_user` with its lock. -/
def getUser (userId : Uuid) : AuthProg User := do
  let user ← lock (.user userId) (fun db => ((db.users.get? userId).filter (·.deletedAt.isNone)).isSome)
    (fun db => (db.users.get? userId).filter (·.deletedAt.isNone))
  ofExcept (orRaise user (.app userNotFound))

def accountAudit (principal : Principal) (action targetType : String) (targetId : Uuid) : AuditEvent :=
  ⟨action, .succeeded, some principal.userId, some principal.role, some targetType, some targetId, none⟩

def User.withPassword (user : User) (passwordHash : String) : User :=
  { user with passwordHash := passwordHash, sessionEpoch := user.sessionEpoch + 1, version := user.version + 1 }

def changePassword (sec : Security) (claims : AccessClaims) (currentPassword newPassword : String) :
    AuthProg AuthResponse := do
  let principal ← getCurrentPrincipal claims
  let user ← getUser principal.userId
  let valid ← call (.verify user.id user.passwordHash currentPassword)
    fun _ => sec.verify user.passwordHash currentPassword
  ofExcept (raiseIf (valid = false) (.app currentPasswordInvalid))
  let d ← draw
  let now ← now
  let rows ← updateTokens (ofUser user.id)
  commit (userWrite ⟨user, user.withPassword (sec.hash d.salt newPassword)⟩ rows now [] none
    (accountAudit principal "USER_PASSWORD_CHANGED" "account" user.id))
  return .done

structure UserUpdate where
  displayName : Option String
  role : Option UserRole
  isActive : Option Bool
  version : Option Nat
  deriving DecidableEq

/-- Whether the update takes a super administrator away. -/
def UserUpdate.removesSuperAdmin (request : UserUpdate) (user : User) : Bool :=
  user.role == .superAdmin &&
    (request.role != none && request.role != some .superAdmin || request.isActive == some false)

/-- Whether the update changes `is_active`, which ends the sessions of the user. -/
def UserUpdate.activates (request : UserUpdate) (user : User) : Bool :=
  request.isActive != none && request.isActive != some user.isActive

def UserUpdate.assign (request : UserUpdate) (user : User) (now : Instant) : User :=
  let user := { user with
    displayName := (request.displayName.map strip).getD user.displayName
    role := request.role.getD user.role
    version := user.version + 1 }
  if request.activates user then
    { user with
      isActive := request.isActive.getD user.isActive
      disabledAt := if request.isActive = some true then none else some now
      sessionEpoch := user.sessionEpoch + 1 }
  else user

def userAction (before after : User) : String :=
  if before.role ≠ after.role then "USER_ROLE_CHANGED"
  else if before.isActive ∧ ¬ after.isActive then "USER_DISABLED"
  else "USER_UPDATED"

/-- The super administrators `update_user` counts. -/
def activeSuperAdmins (db : Db) : Nat :=
  (db.users.select (fun u => u.role == .superAdmin && u.isActive)).length

/-- The super administrators `delete_user` counts. -/
def remainingSuperAdmins (db : Db) : Nat :=
  (db.users.select (fun u => u.role == .superAdmin && u.isActive && u.deletedAt.isNone)).length

/-- The guard of the last super administrator: what it counted, if it had to. -/
def guardLast (removing : Bool) (count : Db → Nat) (done : String) : AuthProg (Option Nat) := do
  if removing then
    let count ← read count
    ofExcept (raiseIf (count ≤ 1) (.app (lastSuperAdmin done)))
    return some count
  else return none

def updateUser (claims : AccessClaims) (userId : Uuid) (request : UserUpdate) : AuthProg AuthResponse := do
  let principal ← getCurrentPrincipal claims
  ofExcept (requireServiceRole principal [.superAdmin])
  let user ← getUser userId
  ofExcept (raiseIf (request.version ≠ none ∧ request.version ≠ some user.version) (.app userVersionConflict))
  let counted ← guardLast (request.removesSuperAdmin user) activeSuperAdmins "changed"
  let disabled ← now
  let revoked ← now
  let rows ← if request.activates user then updateTokens (ofUser user.id) else pure ([], [])
  let current := request.assign user disabled
  commit (userWrite ⟨user, current⟩ rows revoked [] counted
    (accountAudit principal (userAction user current) "user" user.id))
  return .done

def deletedEmail (userId : Uuid) : String := "deleted+" ++ toString userId ++ "@deleted.invalid"

def User.deleted (user : User) (now : Instant) : User :=
  { user with
    email := deletedEmail user.id
    displayName := "삭제된 사용자"
    role := .customer
    isActive := false
    disabledAt := some now
    deletedAt := some now
    sessionEpoch := user.sessionEpoch + 1
    version := user.version + 1 }

def deleteUser (claims : AccessClaims) (userId : Uuid) (version : Nat) : AuthProg AuthResponse := do
  let principal ← getCurrentPrincipal claims
  ofExcept (requireServiceRole principal [.superAdmin])
  ofExcept (raiseIf (userId = principal.userId) (.app userSelfDelete))
  let user ← getUser userId
  ofExcept (raiseIf (version ≠ user.version) (.app userVersionConflict))
  let counted ← guardLast (user.role == .superAdmin && user.isActive) remainingSuperAdmins "deleted"
  let now ← now
  let removed ← deleteMembers user.id
  let rows ← updateTokens (ofUser user.id)
  commit (userWrite ⟨user, user.deleted now⟩ rows now removed counted
    (accountAudit principal "USER_DELETED" "user" user.id))
  return .done

def resetPassword (sec : Security) (claims : AccessClaims) (userId : Uuid) (newPassword : String) :
    AuthProg AuthResponse := do
  let principal ← getCurrentPrincipal claims
  ofExcept (requireServiceRole principal [.superAdmin])
  let user ← getUser userId
  let d ← draw
  let now ← now
  let rows ← updateTokens (ofUser user.id)
  commit (userWrite ⟨user, user.withPassword (sec.hash d.salt newPassword)⟩ rows now [] none
    (accountAudit principal "USER_PASSWORD_RESET" "account" user.id))
  return .done

/-! ### Requests -/

inductive AuthRequest where
  | login (email password source : String)
  | refresh (rawToken : String)
  | logout (rawToken : String)
  | changePassword (claims : AccessClaims) (currentPassword newPassword : String)
  | updateUser (claims : AccessClaims) (userId : Uuid) (request : UserUpdate)
  | deleteUser (claims : AccessClaims) (userId : Uuid) (version : Nat)
  | resetPassword (claims : AccessClaims) (userId : Uuid) (newPassword : String)
  deriving DecidableEq

def AuthRequest.isLogin : AuthRequest → Bool
  | .login .. => true
  | _ => false

def AuthRequest.isLogout : AuthRequest → Bool
  | .logout _ => true
  | _ => false

def AuthRequest.program (sec : Security) : AuthRequest → AuthProg AuthResponse
  | .login email password source => Accounts.login sec email password source
  | .refresh rawToken => Accounts.refresh sec rawToken
  | .logout rawToken => Accounts.logout sec rawToken
  | .changePassword claims currentPassword newPassword =>
    Accounts.changePassword sec claims currentPassword newPassword
  | .updateUser claims userId request => Accounts.updateUser claims userId request
  | .deleteUser claims userId version => Accounts.deleteUser claims userId version
  | .resetPassword claims userId newPassword => Accounts.resetPassword sec claims userId newPassword

/-- The accounts of the platform: a request is answered with what its program returns or
raises. -/
def accounts (sec : Security) : Schema Db Row Flush AuthCall Answer Exn Draws AuthRequest where
  apply := Db.flush
  program m := do
    let answer ← attempt (m.program sec)
    op (.answer answer id)

abbrev AuthAction := Action (Store Db Row Flush AuthRequest) Draws (Nat × AuthRequest)

end PveMaster.Accounts
