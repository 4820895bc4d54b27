import PveMaster.Database
import PveMaster.Foundation.Transactions

/-! Users, refresh tokens and login throttles, and what a session writes of them.

A session writes at its flushes and its commit, all of it in one transaction (`Flush`). Of
a row it has loaded it writes the columns it assigned, whatever the row holds by then. -/
namespace PveMaster.Accounts

structure User where
  id : Uuid
  email : String
  displayName : String
  role : UserRole
  passwordHash : String
  isActive : Bool
  sessionEpoch : Int
  lastLoginAt : Option Instant
  disabledAt : Option Instant
  deletedAt : Option Instant
  version : Nat
  deriving DecidableEq

structure RefreshToken where
  id : Uuid
  userId : Uuid
  familyId : Uuid
  tokenHash : Digest
  parentId : Option Uuid
  replacedById : Option Uuid
  expiresAt : Instant
  revokedAt : Option Instant
  reuseDetectedAt : Option Instant
  deriving DecidableEq

structure LoginThrottle where
  keyHash : Digest
  failureCount : Nat
  windowStartedAt : Instant
  lockedUntil : Option Instant
  deriving DecidableEq

inductive AuditOutcome where
  | succeeded
  | denied
  deriving DecidableEq, Repr

structure AuditEvent where
  action : String
  outcome : AuditOutcome
  actorUserId : Option Uuid
  actorRole : Option UserRole
  targetType : Option String
  targetId : Option Uuid
  errorCode : Option String := none
  deriving DecidableEq

instance : Keyed User Uuid := ⟨User.id⟩
instance : Keyed RefreshToken Uuid := ⟨RefreshToken.id⟩
instance : Keyed LoginThrottle Digest := ⟨LoginThrottle.keyHash⟩

structure Db where
  users : Table User
  tokens : Table RefreshToken
  throttles : Table LoginThrottle
  members : Table OrganizationMember
  audits : List AuditEvent
  clock : Instant

/-- The rows a transaction can lock. -/
inductive Row where
  | user (id : Uuid)
  | token (id : Uuid)
  | throttle (keyHash : Digest)
  | member (id : Uuid)
  deriving DecidableEq

/-! ### Writes -/

/-- A user row after the update of one that was loaded as `loaded`. -/
def User.flush (loaded current stored : User) : User where
  id := stored.id
  email := written loaded.email current.email stored.email
  displayName := written loaded.displayName current.displayName stored.displayName
  role := written loaded.role current.role stored.role
  passwordHash := written loaded.passwordHash current.passwordHash stored.passwordHash
  isActive := written loaded.isActive current.isActive stored.isActive
  sessionEpoch := written loaded.sessionEpoch current.sessionEpoch stored.sessionEpoch
  lastLoginAt := written loaded.lastLoginAt current.lastLoginAt stored.lastLoginAt
  disabledAt := written loaded.disabledAt current.disabledAt stored.disabledAt
  deletedAt := written loaded.deletedAt current.deletedAt stored.deletedAt
  version := written loaded.version current.version stored.version

/-- A token row after an update; the other columns are never assigned. -/
def RefreshToken.flush (loaded current stored : RefreshToken) : RefreshToken :=
  { stored with
    replacedById := written loaded.replacedById current.replacedById stored.replacedById
    revokedAt := written loaded.revokedAt current.revokedAt stored.revokedAt
    reuseDetectedAt := written loaded.reuseDetectedAt current.reuseDetectedAt stored.reuseDetectedAt }

/-- What a login does to the throttle row of its key. -/
inductive ThrottleEdit where
  | keep
  | insert (t : LoginThrottle)
  | update (t : LoginThrottle)
  | delete (keyHash : Digest)
  deriving DecidableEq

/-- A row as it was loaded and as it has been assigned. -/
structure Edit (ρ : Type) where
  loaded : ρ
  current : ρ
  deriving DecidableEq

/-- Everything a session writes. `found` and `counted` are not written: the rows an update
found when it started, and the number a decision rests on. -/
structure Flush where
  user : Option (Edit User) := none
  token : Option (Edit RefreshToken) := none
  issued : Option RefreshToken := none
  revoked : List Uuid := []
  revokedAt : Instant := 0
  throttle : ThrottleEdit := .keep
  removed : List Uuid := []
  audits : List AuditEvent := []
  found : List Uuid := []
  counted : Option Nat := none
  deriving DecidableEq

namespace Flush

def onUser (w : Flush) (u : User) : User :=
  match w.user with
  | some e => if u.id = e.loaded.id then User.flush e.loaded e.current u else u
  | none => u

def onStored (w : Flush) (t : RefreshToken) : RefreshToken :=
  match w.token with
  | some e => if t.id = e.loaded.id then RefreshToken.flush e.loaded e.current t else t
  | none => t

def onToken (w : Flush) (t : RefreshToken) : RefreshToken :=
  if t.id ∈ w.revoked then { w.onStored t with revokedAt := some w.revokedAt } else w.onStored t

end Flush

/-- `UniqueConstraint` of `users.email`. -/
def Db.emailTaken (db : Db) (w : Flush) : Bool :=
  match w.user with
  | some e => e.current.email != e.loaded.email &&
      db.users.rows.any (fun u => u.id != e.loaded.id && u.email == e.current.email)
  | none => false

/-- `UniqueConstraint` of `refresh_tokens.token_hash`. -/
def RefreshToken.clashes (t q : RefreshToken) : Bool := q.tokenHash == t.tokenHash

def Db.issueToken (db : Db) (w : Flush) : Option (Table RefreshToken) :=
  match w.issued with
  | some t => insertUnless RefreshToken.clashes (db.tokens.each w.onToken) t
  | none => some (db.tokens.each w.onToken)

def Db.editThrottle (db : Db) : ThrottleEdit → Option (Table LoginThrottle)
  | .keep => some db.throttles
  | .insert t => db.throttles.insert t
  | .update t => some (db.throttles.update t.keyHash (fun _ => t))
  | .delete keyHash => some (db.throttles.restrict (fun t => t.keyHash != keyHash))

/-- The commit of a session. -/
def Db.flush (w : Flush) (db : Db) : Except Exn Db :=
  if db.emailTaken w then .error .integrity
  else match db.issueToken w, db.editThrottle w.throttle with
    | some tokens, some throttles =>
      .ok { db with
        users := db.users.each w.onUser
        tokens := tokens
        throttles := throttles
        members := db.members.restrict (fun m => m.id ∉ w.removed)
        audits := db.audits ++ w.audits }
    | _, _ => .error .integrity

/-! ### What a commit leaves -/

section Flush
variable {w : Flush} {db db' : Db}

@[simp] theorem User.flush_id (l c u : User) : (User.flush l c u).id = u.id := rfl

/-- The row as it was loaded. -/
@[simp] theorem User.flush_loaded (l c : User) : User.flush l c l = { c with id := l.id } := by
  simp [User.flush]

@[simp] theorem RefreshToken.flush_loaded (l c : RefreshToken) : RefreshToken.flush l c l =
    { l with replacedById := c.replacedById, revokedAt := c.revokedAt, reuseDetectedAt := c.reuseDetectedAt } := by
  simp [RefreshToken.flush]

@[simp] theorem Flush.onUser_id (w : Flush) (u : User) : (w.onUser u).id = u.id := by
  unfold Flush.onUser
  split
  · split <;> rfl
  · rfl

/-- The columns of a token that no update assigns. -/
def RefreshToken.fixed (t : RefreshToken) : Uuid × Uuid × Uuid × Digest × Option Uuid × Instant :=
  (t.id, t.userId, t.familyId, t.tokenHash, t.parentId, t.expiresAt)

@[simp] theorem Flush.onToken_fixed (w : Flush) (t : RefreshToken) : (w.onToken t).fixed = t.fixed := by
  have hstored : (w.onStored t).fixed = t.fixed := by
    unfold Flush.onStored
    split
    · split <;> rfl
    · rfl
  unfold Flush.onToken
  split
  · exact hstored
  · exact hstored

@[simp] theorem Flush.onToken_id (w : Flush) (t : RefreshToken) : (w.onToken t).id = t.id :=
  congrArg (·.1) (w.onToken_fixed t)

@[simp] theorem Flush.onToken_userId (w : Flush) (t : RefreshToken) : (w.onToken t).userId = t.userId :=
  congrArg (·.2.1) (w.onToken_fixed t)

@[simp] theorem Flush.onToken_familyId (w : Flush) (t : RefreshToken) : (w.onToken t).familyId = t.familyId :=
  congrArg (·.2.2.1) (w.onToken_fixed t)

@[simp] theorem Flush.onToken_tokenHash (w : Flush) (t : RefreshToken) : (w.onToken t).tokenHash = t.tokenHash :=
  congrArg (·.2.2.2.1) (w.onToken_fixed t)

@[simp] theorem Flush.onToken_parentId (w : Flush) (t : RefreshToken) : (w.onToken t).parentId = t.parentId :=
  congrArg (·.2.2.2.2.1) (w.onToken_fixed t)

/-- A commit, table by table. -/
structure Flushed (w : Flush) (db db' : Db) : Prop where
  users : db'.users = db.users.each w.onUser
  tokens : db.issueToken w = some db'.tokens
  throttles : db.editThrottle w.throttle = some db'.throttles
  members : db'.members = db.members.restrict (fun m => m.id ∉ w.removed)
  audits : db'.audits = db.audits ++ w.audits
  clock : db'.clock = db.clock

theorem flushed (h : db.flush w = .ok db') : Flushed w db db' := by
  unfold Db.flush at h
  split at h
  · cases h
  split at h
  · next tokens throttles htokens hthrottles =>
    cases h
    exact ⟨rfl, htokens, hthrottles, rfl, rfl, rfl⟩
  · cases h

theorem Flushed.user (h : Flushed w db db') (k : Uuid) : db'.users.get? k = (db.users.get? k).map w.onUser := by
  rw [h.users]
  exact Table.get?_each _ w.onUser_id k

/-- The tokens are those there were, as the commit left them, and the one it issued. -/
theorem Flushed.mem_tokens (h : Flushed w db db') {t' : RefreshToken} :
    t' ∈ db'.tokens ↔ (∃ t ∈ db.tokens, w.onToken t = t') ∨ w.issued = some t' := by
  have htokens := h.tokens
  unfold Db.issueToken at htokens
  cases hissued : w.issued with
  | some t =>
    rw [hissued] at htokens
    rw [Table.mem_insert (insertUnless_some htokens).2, Table.mem_each w.onToken_id, Option.some_inj, eq_comm (a := t)]
  | none =>
    rw [hissued] at htokens
    rw [← Option.some.inj htokens, Table.mem_each w.onToken_id]
    simp

/-- A token that is issued is new. -/
theorem Flushed.issued_new (h : Flushed w db db') {t : RefreshToken} (ht : w.issued = some t) :
    ∀ q ∈ db.tokens, q.id ≠ t.id ∧ q.tokenHash ≠ t.tokenHash := by
  intro q hq
  have htokens := h.tokens
  unfold Db.issueToken at htokens
  rw [ht] at htokens
  obtain ⟨hclash, hinsert⟩ := insertUnless_some htokens
  have hmem : w.onToken q ∈ db.tokens.each w.onToken := (Table.mem_each w.onToken_id).mpr ⟨q, hq, rfl⟩
  refine ⟨fun he => (Table.insert_some hinsert).2 _ hmem ((w.onToken_id q).trans he), fun he => ?_⟩
  have := hclash _ hmem
  simp [RefreshToken.clashes, he] at this

/-- A token that was there, after a commit. -/
theorem Flushed.token (h : Flushed w db db') {k : Uuid} {t : RefreshToken} (ht : db.tokens.get? k = some t) :
    db'.tokens.get? k = some (w.onToken t) :=
  Table.get?_eq_some.mpr ⟨h.mem_tokens.mpr (.inl ⟨t, Table.get?_mem ht, rfl⟩),
    (w.onToken_id t).trans (Table.get?_key ht)⟩

end Flush

end PveMaster.Accounts
