import PveMaster.Accounts.Service
import PveMaster.Foundation.Chain

/-! What the commits of the account requests are, and what they keep.

`Legal` says of a commit what its transaction knows of the state it is made in: of the rows
it has locked everything, of the others only what no commit can change. The lock of a user
row covers the user's tokens too, since every commit that writes a token holds it
(`Same`). -/
namespace PveMaster.Accounts

/-! ### Families -/

def tokenLinks : Links RefreshToken Uuid where
  id := RefreshToken.id
  parent := RefreshToken.parentId
  next := RefreshToken.replacedById
  isClosed t := t.revokedAt.isSome = true

/-- The tokens of a family, each after the one it replaced. -/
structure FamilyChain (db : Db) (familyId : Uuid) (l : List RefreshToken) : Prop where
  nodup : l.Nodup
  mem : ∀ t, t ∈ l ↔ t ∈ db.tokens ∧ t.familyId = familyId
  linked : tokenLinks.Linked none l

structure Sound (db : Db) : Prop where
  owner : ∀ t ∈ db.tokens, (db.users.get? t.userId).isSome = true
  hashes : Table.Once RefreshToken.tokenHash db.tokens
  families : ∀ t ∈ db.tokens, ∀ t' ∈ db.tokens, t.familyId = t'.familyId → t.userId = t'.userId
  chains : ∀ familyId, ∃ l, FamilyChain db familyId l
  deleted : ∀ u ∈ db.users, u.deletedAt.isSome = true → u.isActive = false

/-! ### Commits -/

/-- What a change of a user makes of the user. -/
def Edited (sec : Security) (user user' : User) : AuthRequest → Prop
  | .changePassword claims current new => user.id = claims.userId ∧
    sec.verify user.passwordHash current = true ∧ ∃ salt, user' = user.withPassword (sec.hash salt new)
  | .resetPassword _ userId new => user.id = userId ∧ ∃ salt, user' = user.withPassword (sec.hash salt new)
  | .updateUser _ userId request => user.id = userId ∧ ∃ now, user' = request.assign user now
  | .deleteUser _ userId _ => user.id = userId ∧ ∃ now, user' = user.deleted now
  | _ => False

/-- Whether a change of a user takes a super administrator away. -/
def AuthRequest.removes (user : User) : AuthRequest → Bool
  | .updateUser _ _ request => request.removesSuperAdmin user
  | .deleteUser .. => user.role == .superAdmin && user.isActive
  | _ => false

/-- The rows of an update of a user's tokens that it has locked: all of them, if sessions end. -/
structure Revokes (user user' : User) (rows : List Uuid × List Uuid) (db : Db) : Prop where
  only : ∀ id ∈ rows.2, db.tokenMatches (ofUser user.id) id = true
  all : user'.sessionEpoch ≠ user.sessionEpoch → ∀ t ∈ db.tokens, ofUser user.id t = true → t.id ∈ rows.2

inductive Legal (sec : Security) (db : Db) : AuthRequest → Flush → Prop
  | limited {email password source : String} : Legal sec db (.login email password source) limitedWrite
  | denied {email password source : String} {user : Option User} {edit : ThrottleEdit} :
    Legal sec db (.login email password source) (deniedWrite user edit)
  | loggedIn {email password source : String} {d : Draws} {user : User} {throttle : Option LoginThrottle}
      {now : Instant} (known : (db.users.get? user.id).isSome = true)
      (verified : sec.verify user.passwordHash password = true) (active : user.isActive = true) :
    Legal sec db (.login email password source) (loginWrite sec d user throttle now)
  | rotated {rawToken : String} {d : Draws} {user : User} {stored : RefreshToken} {now : Instant}
      (found : db.tokens.get? stored.id = some stored)
      (hash : stored.tokenHash = sec.hashRefreshSecret rawToken)
      (owner : db.users.get? stored.userId = some user) (active : user.isActive = true)
      (unrevoked : stored.revokedAt = none) (unreplaced : stored.replacedById = none) :
    Legal sec db (.refresh rawToken) (rotationWrite sec d user stored now)
  | reused {rawToken : String} {user : User} {stored : RefreshToken} {rows : List Uuid × List Uuid} {now : Instant}
      (found : db.tokens.get? stored.id = some stored)
      (hash : stored.tokenHash = sec.hashRefreshSecret rawToken)
      (owner : db.users.get? stored.userId = some user) (active : user.isActive = true)
      (only : ∀ id ∈ rows.2, db.tokenMatches (ofFamily stored.familyId) id = true)
      (all : ∀ t ∈ db.tokens, ofFamily stored.familyId t = true → t.id ∈ rows.2) :
    Legal sec db (.refresh rawToken) (reuseWrite user stored rows now)
  | expired {rawToken : String} {stored : RefreshToken} {now : Instant}
      (found : db.tokens.get? stored.id = some stored)
      (hash : stored.tokenHash = sec.hashRefreshSecret rawToken) :
    Legal sec db (.refresh rawToken) (expiryWrite stored now)
  | loggedOut {rawToken : String} {user : User} {stored t : RefreshToken} {rows : List Uuid × List Uuid} {now : Instant}
      (found : db.tokens.get? stored.id = some t) (same : t.fixed = stored.fixed)
      (hash : stored.tokenHash = sec.hashRefreshSecret rawToken) (owner : user.id = stored.userId)
      (only : ∀ id ∈ rows.2, db.tokenMatches (ofFamily stored.familyId) id = true)
      (others : ∀ id ∈ rows.1, id ∉ rows.2 → ∃ t, db.tokens.get? id = some t ∧ t.revokedAt.isSome = true) :
    Legal sec db (.logout rawToken) (logoutWrite (some user) stored.familyId rows now)
  | changed {m : AuthRequest} {user user' : User} {rows : List Uuid × List Uuid} {now : Instant}
      {removed : List Uuid} {counted : Option Nat} {audit : AuditEvent}
      (current : db.users.get? user.id = some user) (present : user.deletedAt = none)
      (edited : Edited sec user user' m) (revokes : Revokes user user' rows db)
      (guarded : m.removes user = true → ∃ n, counted = some n ∧ 1 < n) :
    Legal sec db m (userWrite ⟨user, user'⟩ rows now removed counted audit)

/-- A login draws the identifier of a new family. -/
def NewFamily (w : Flush) (db : Db) : Prop :=
  ∀ t, w.issued = some t → t.parentId = none → ∀ t' ∈ db.tokens, t'.familyId ≠ t.familyId

instance (w : Flush) (db : Db) : Decidable (NewFamily w db) :=
  decidable_of_iff (∀ t ∈ w.issued, t.parentId = none → ∀ t' ∈ db.tokens.rows, t'.familyId ≠ t.familyId) Iff.rfl

/-! ### Rules -/

/-- What stays of a locked row. -/
def Same : Row → Db → Db → Prop
  | .user k, db, db' => (∀ u, db.users.get? k = some u → db'.users.get? k = some u) ∧
    ∀ t : RefreshToken, t.userId = k → (t ∈ db'.tokens ↔ t ∈ db.tokens)
  | .token k, db, db' => ∀ t, db.tokens.get? k = some t → db'.tokens.get? k = some t
  | .throttle k, db, db' => ∀ t, db.throttles.get? k = some t → db'.throttles.get? k = some t
  | .member k, db, db' => ∀ m, db.members.get? k = some m → db'.members.get? k = some m

/-- The account requests, in runs whose commits satisfy a condition of their own. -/
def rules (sec : Security) (condition : AuthRequest → Flush → Db → Prop) : Rules Db Row Flush AuthRequest where
  Same := Same
  Change m w db db' := Legal sec db m w ∧ NewFamily w db ∧ condition m w db ∧ Flushed w db db'
  Sound := Sound
  fits m w db := (m.isLogin = true → NewFamily w db) ∧ condition m w db
  Outside db db' := ∃ clock, db.clock ≤ clock ∧ db' = { db with clock := clock }

instance {sec : Security} {condition : AuthRequest → Flush → Db → Prop} [∀ m w db, Decidable (condition m w db)]
    (m : AuthRequest) (w : Flush) (db : Db) : Decidable ((rules sec condition).fits m w db) :=
  inferInstanceAs (Decidable ((m.isLogin = true → NewFamily w db) ∧ condition m w db))

variable {sec : Security} {condition : AuthRequest → Flush → Db → Prop} {db db' : Db} {m : AuthRequest} {w : Flush}

/-! ### What every commit keeps -/

/-- A commit revokes tokens, and never takes that back. -/
theorem onToken_revoked (h : Legal sec db m w) (t : RefreshToken) :
    (w.onToken t).revokedAt.isSome = true ↔ t.revokedAt.isSome = true ∨ t.id ∈ w.revoked ∨
      ∃ e, w.token = some e ∧ t.id = e.loaded.id ∧ e.current.revokedAt ≠ e.loaded.revokedAt := by
  by_cases hrevoked : t.id ∈ w.revoked
  · simp [Flush.onToken, hrevoked]
  · have hsame : w.onToken t = w.onStored t := if_neg hrevoked
    rw [hsame]
    cases hedit : w.token with
    | none => simp [Flush.onStored, hedit, hrevoked]
    | some e =>
      by_cases hid : t.id = e.loaded.id
      · have hassigned : e.current.revokedAt ≠ e.loaded.revokedAt → e.current.revokedAt.isSome = true := by
          cases h with
          | rotated | expired =>
            cases hedit
            exact fun _ => rfl
          | reused =>
            cases hedit
            exact fun hne => absurd rfl hne
          | _ => cases hedit
        rw [hid] at hrevoked
        by_cases hne : e.current.revokedAt = e.loaded.revokedAt
        · simp [Flush.onStored, hedit, hid, hrevoked, RefreshToken.flush, hne, written]
        · simp [Flush.onStored, hedit, hid, hrevoked, RefreshToken.flush, hne, written, hassigned hne]
      · simp [Flush.onStored, hedit, hid, hrevoked]

/-- Rows stay, and revoked tokens stay revoked. -/
structure Grows (db db' : Db) : Prop where
  users : ∀ k, (db.users.get? k).isSome = true → (db'.users.get? k).isSome = true
  tokens : ∀ k t, db.tokens.get? k = some t → ∃ t', db'.tokens.get? k = some t' ∧ t'.fixed = t.fixed ∧
    (t.revokedAt.isSome = true → t'.revokedAt.isSome = true)

theorem Grows.refl (db : Db) : Grows db db := ⟨fun _ h => h, fun _ t h => ⟨t, h, rfl, id⟩⟩

theorem Grows.trans {db'' : Db} (h : Grows db db') (h' : Grows db' db'') : Grows db db'' := by
  refine ⟨fun k hk => h'.users k (h.users k hk), fun k t ht => ?_⟩
  obtain ⟨t', ht', hfixed, hrevoked⟩ := h.tokens k t ht
  obtain ⟨t'', ht'', hfixed', hrevoked'⟩ := h'.tokens k t' ht'
  exact ⟨t'', ht'', hfixed'.trans hfixed, fun hr => hrevoked' (hrevoked hr)⟩

theorem Legal.grows (h : Legal sec db m w) (hf : Flushed w db db') : Grows db db' where
  users k hk := by
    rw [hf.user k, Option.isSome_map]
    exact hk
  tokens k t ht := ⟨w.onToken t, hf.token ht, w.onToken_fixed t, fun hr => (onToken_revoked h t).mpr (.inl hr)⟩

theorem moves_grows (h : (rules sec condition).Moves db db') : Grows db db' := by
  cases h with
  | commit m w h => exact h.1.grows h.2.2.2
  | outside h =>
    obtain ⟨clock, -, rfl⟩ := h
    exact ⟨fun _ h => h, fun _ t h => ⟨t, h, rfl, id⟩⟩

theorem later_grows (h : (rules sec condition).Later db db') : Grows db db' :=
  Rules.Later.keeps (J := fun db' => Grows db db') (fun _ _ hmove hg => hg.trans (moves_grows hmove)) h
    (Grows.refl db)

theorem rules_lawful (sec : Security) (condition : AuthRequest → Flush → Db → Prop) : (rules sec condition).Lawful where
  same_refl row db := by
    cases row with
    | user k => exact ⟨fun _ h => h, fun _ _ => Iff.rfl⟩
    | _ => exact fun _ h => h
  same_trans row db db' db'' h h' := by
    cases row with
    | user k => exact ⟨fun u hu => h'.1 u (h.1 u hu), fun t ht => (h'.2 t ht).trans (h.2 t ht)⟩
    | _ => exact fun r hr => h' r (h r hr)
  outside db db' hs h := by
    obtain ⟨clock, -, rfl⟩ := h
    refine ⟨⟨hs.owner, hs.hashes, hs.families, fun f => ?_, hs.deleted⟩, fun row => ?_⟩
    · obtain ⟨l, hl⟩ := hs.chains f
      exact ⟨l, hl.nodup, hl.mem, hl.linked⟩
    · cases row with
      | user k => exact ⟨fun _ h => h, fun _ _ => Iff.rfl⟩
      | _ => exact fun _ h => h

/-! ### Users -/

section Assign
variable {request : UserUpdate} {user : User} {now : Instant}

/-- An update that changes `is_active` ends the sessions of the user. -/
theorem assign_activates (h : request.activates user = true) : request.assign user now =
    { user with
      displayName := (request.displayName.map strip).getD user.displayName
      role := request.role.getD user.role
      version := user.version + 1
      isActive := request.isActive.getD user.isActive
      disabledAt := if request.isActive = some true then none else some now
      sessionEpoch := user.sessionEpoch + 1 } := if_pos h

/-- Any other update leaves the sessions alone. -/
theorem assign_keeps (h : request.activates user = false) : request.assign user now =
    { user with
      displayName := (request.displayName.map strip).getD user.displayName
      role := request.role.getD user.role
      version := user.version + 1 } := if_neg (Bool.eq_false_iff.mp h)

@[simp] theorem assign_id : (request.assign user now).id = user.id := by
  cases h : request.activates user with
  | true => rw [assign_activates h]
  | false => rw [assign_keeps h]

@[simp] theorem assign_deletedAt : (request.assign user now).deletedAt = user.deletedAt := by
  cases h : request.activates user with
  | true => rw [assign_activates h]
  | false => rw [assign_keeps h]

@[simp] theorem assign_role : (request.assign user now).role = request.role.getD user.role := by
  cases h : request.activates user with
  | true => rw [assign_activates h]
  | false => rw [assign_keeps h]

@[simp] theorem assign_passwordHash : (request.assign user now).passwordHash = user.passwordHash := by
  cases h : request.activates user with
  | true => rw [assign_activates h]
  | false => rw [assign_keeps h]

@[simp] theorem assign_isActive : (request.assign user now).isActive = request.isActive.getD user.isActive := by
  cases h : request.activates user with
  | true => rw [assign_activates h]
  | false =>
    rw [assign_keeps h]
    unfold UserUpdate.activates at h
    cases ha : request.isActive with
    | none => rfl
    | some a =>
      simp only [ha] at h
      have hsame : a = user.isActive := by simpa using h
      exact hsame.symm

end Assign

/-- What a commit makes of one user. -/
inductive UserChange (sec : Security) (db : Db) (m : AuthRequest) (w : Flush) (u : User) : User → Prop
  | kept (lastLoginAt : Option Instant) (apart : (∃ email password source, m = .login email password source) ∨
      ∀ e, w.user = some e → e.loaded.id ≠ u.id) : UserChange sec db m w u { u with lastLoginAt := lastLoginAt }
  | reused (rawToken : String) (request : m = .refresh rawToken) :
    UserChange sec db m w u { u with sessionEpoch := u.sessionEpoch + 1 }
  | loggedOut (rawToken : String) (e : Edit User) (request : m = .logout rawToken) (write : w.user = some e)
      (same : e.loaded.id = u.id) : UserChange sec db m w u { u with sessionEpoch := e.loaded.sessionEpoch + 1 }
  | edited (user' : User) (present : u.deletedAt = none) (edited : Edited sec u user' m)
      (write : w.user = some ⟨u, user'⟩) (revokes : user'.sessionEpoch ≠ u.sessionEpoch →
        ∀ t ∈ db.tokens, ofUser u.id t = true → t.id ∈ w.revoked)
      (guarded : m.removes u = true → ∃ n, w.counted = some n ∧ 1 < n) : UserChange sec db m w u user'

theorem Edited.id {user user' : User} (h : Edited sec user user' m) : user'.id = user.id := by
  cases m with
  | changePassword claims current new =>
    obtain ⟨-, -, salt, rfl⟩ := h
    rfl
  | resetPassword claims userId new =>
    obtain ⟨-, salt, rfl⟩ := h
    rfl
  | updateUser claims userId request =>
    obtain ⟨-, now, rfl⟩ := h
    exact assign_id
  | deleteUser claims userId version =>
    obtain ⟨-, now, rfl⟩ := h
    rfl
  | login | refresh | logout => exact h.elim

theorem Legal.user (h : Legal sec db m w) {u : User} (hu : u ∈ db.users) : UserChange sec db m w u (w.onUser u) := by
  cases h with
  | limited | denied | rotated | expired => exact .kept u.lastLoginAt (.inr fun e he => by cases he)
  | @loggedIn email password source d user throttle now =>
    by_cases hid : u.id = user.id
    · have hchange : (loginWrite sec d user throttle now).onUser u =
          { u with lastLoginAt := written user.lastLoginAt (some now) u.lastLoginAt } := by
        simp [Flush.onUser, loginWrite, hid, User.flush]
      rw [hchange]
      exact .kept _ (.inl ⟨email, password, source, rfl⟩)
    · have hchange : (loginWrite sec d user throttle now).onUser u = u := by
        simp [Flush.onUser, loginWrite, hid]
      rw [hchange]
      exact .kept u.lastLoginAt (.inl ⟨email, password, source, rfl⟩)
  | @reused rawToken user stored rows now _ _ howner =>
    by_cases hid : u.id = user.id
    · have hsame : u = user := Table.eq_of_key hu (Table.get?_mem howner) hid
      have hchange : (reuseWrite user stored rows now).onUser u = { u with sessionEpoch := u.sessionEpoch + 1 } := by
        simp [Flush.onUser, reuseWrite, hsame]
      rw [hchange]
      exact .reused rawToken rfl
    · have hchange : (reuseWrite user stored rows now).onUser u = u := by
        simp [Flush.onUser, reuseWrite, hid]
      rw [hchange]
      refine .kept u.lastLoginAt (.inr fun e he => ?_)
      cases he
      exact fun heq => hid heq.symm
  | @loggedOut rawToken user stored t rows now =>
    by_cases hid : u.id = user.id
    · have hchange : (logoutWrite (some user) stored.familyId rows now).onUser u =
          { u with sessionEpoch := user.sessionEpoch + 1 } := by
        have hne : user.sessionEpoch + 1 ≠ user.sessionEpoch := by omega
        simp [Flush.onUser, logoutWrite, hid, User.flush, written_of_ne _ hne]
      rw [hchange]
      exact .loggedOut rawToken ⟨user, _⟩ rfl rfl hid.symm
    · have hchange : (logoutWrite (some user) stored.familyId rows now).onUser u = u := by
        simp [Flush.onUser, logoutWrite, hid]
      rw [hchange]
      refine .kept u.lastLoginAt (.inr fun e he => ?_)
      cases he
      exact fun heq => hid heq.symm
  | @changed _ user user' rows now removed counted audit hcurrent hpresent hedited hrevokes hguarded =>
    by_cases hid : u.id = user.id
    · have hsame : u = user := Table.eq_of_key hu (Table.get?_mem hcurrent)
        (hid.trans (Table.get?_key hcurrent).symm)
      subst hsame
      have hchange : (userWrite ⟨u, user'⟩ rows now removed counted audit).onUser u = user' := by
        have hid' := hedited.id
        simp only [Flush.onUser, userWrite, if_true, User.flush_loaded]
        rw [← hid']
      rw [hchange]
      exact .edited user' hpresent hedited rfl hrevokes.all hguarded
    · have hchange : (userWrite ⟨user, user'⟩ rows now removed counted audit).onUser u = u := by
        simp [Flush.onUser, userWrite, hid]
      rw [hchange]
      refine .kept u.lastLoginAt (.inr fun e he => ?_)
      cases he
      exact fun heq => hid heq.symm

/-- A deleted user is not active. -/
theorem UserChange.deleted {u u' : User} (h : UserChange sec db m w u u')
    (hu : u.deletedAt.isSome = true → u.isActive = false) : u'.deletedAt.isSome = true → u'.isActive = false := by
  cases h with
  | kept | reused | loggedOut => exact hu
  | edited _ hpresent hedited =>
    have hnone : ¬ (u.deletedAt.isSome = true) := by simp [hpresent]
    cases m with
    | changePassword claims current new =>
      obtain ⟨-, -, salt, rfl⟩ := hedited
      exact fun hd => absurd hd hnone
    | resetPassword claims userId new =>
      obtain ⟨-, salt, rfl⟩ := hedited
      exact fun hd => absurd hd hnone
    | updateUser claims userId request =>
      obtain ⟨-, now, rfl⟩ := hedited
      rw [assign_deletedAt]
      exact fun hd => absurd hd hnone
    | deleteUser claims userId version =>
      obtain ⟨-, now, rfl⟩ := hedited
      exact fun _ => rfl
    | login | refresh | logout => exact hedited.elim

/-! ### Families -/

/-- A commit that gives a token no successor. -/
theorem onToken_next {t : RefreshToken} (h : ∀ e, w.token = some e → t.id = e.loaded.id →
    e.current.replacedById = e.loaded.replacedById) : (w.onToken t).replacedById = t.replacedById := by
  have hstored : (w.onStored t).replacedById = t.replacedById := by
    unfold Flush.onStored
    split
    · next e he =>
      split
      · next hid => simp [RefreshToken.flush, h e he hid]
      · rfl
    · rfl
  unfold Flush.onToken
  split
  · exact hstored
  · exact hstored

/-- A commit that touches a token in no way. -/
theorem onToken_untouched {t : RefreshToken} (h : ∀ e, w.token = some e → t.id ≠ e.loaded.id)
    (hrevoked : t.id ∉ w.revoked) : w.onToken t = t := by
  unfold Flush.onToken
  rw [if_neg hrevoked]
  unfold Flush.onStored
  split
  · next e he => exact if_neg (h e he)
  · rfl

theorem nodup_onToken {l : List RefreshToken} {familyId : Uuid} (h : FamilyChain db familyId l) (w : Flush) :
    (l.map w.onToken).Nodup := by
  refine List.Nodup.map_on (fun t ht t' ht' heq => ?_) h.nodup
  have hid : t.id = t'.id := by
    rw [← w.onToken_id t, heq, w.onToken_id]
  exact Table.eq_of_key ((h.mem t).mp ht).1 ((h.mem t').mp ht').1 hid

/-- A family no token is issued in. -/
theorem chain_kept {l : List RefreshToken} {familyId : Uuid} (h : Legal sec db m w) (hf : Flushed w db db')
    (hl : FamilyChain db familyId l) (issued : ∀ t, w.issued = some t → t.familyId ≠ familyId)
    (next : ∀ t ∈ l, (w.onToken t).replacedById = t.replacedById) :
    FamilyChain db' familyId (l.map w.onToken) where
  nodup := nodup_onToken hl w
  mem t' := by
    rw [hf.mem_tokens, List.mem_map]
    constructor
    · rintro ⟨t, ht, rfl⟩
      obtain ⟨hmem, hfamily⟩ := (hl.mem t).mp ht
      exact ⟨.inl ⟨t, hmem, rfl⟩, (w.onToken_familyId t).trans hfamily⟩
    · rintro ⟨⟨t, ht, rfl⟩ | hissued, hfamily⟩
      · rw [w.onToken_familyId] at hfamily
        exact ⟨t, (hl.mem t).mpr ⟨ht, hfamily⟩, rfl⟩
      · exact absurd hfamily (issued t' hissued)
  linked := Links.linked_map hl.linked fun t ht =>
    ⟨w.onToken_id t, w.onToken_parentId t, next t ht, fun hr => (onToken_revoked h t).mpr (.inl hr)⟩

/-- A new family. -/
theorem chain_started {t : RefreshToken} (hf : Flushed w db db') (hnew : NewFamily w db) (ht : w.issued = some t)
    (root : t.parentId = none) (last : t.replacedById = none) : FamilyChain db' t.familyId [t] where
  nodup := List.nodup_singleton t
  mem t' := by
    rw [hf.mem_tokens, List.mem_singleton]
    constructor
    · rintro rfl
      exact ⟨.inr ht, rfl⟩
    · rintro ⟨⟨q, hq, rfl⟩ | hissued, hfamily⟩
      · rw [w.onToken_familyId] at hfamily
        exact absurd hfamily (hnew t ht root q hq)
      · rw [ht] at hissued
        exact (Option.some.inj hissued).symm
  linked := ⟨root, last⟩

/-- A rotation makes its family one token longer. -/
theorem chain_rotated {l : List RefreshToken} {d : Draws} {user : User} {stored : RefreshToken} {now : Instant}
    (hf : Flushed (rotationWrite sec d user stored now) db db')
    (hl : FamilyChain db stored.familyId l) (found : stored ∈ db.tokens) (unrevoked : stored.revokedAt = none) :
    FamilyChain db' stored.familyId (l.map (rotationWrite sec d user stored now).onToken ++
      [refreshToken sec d user stored.familyId (some stored.id) now]) := by
  set w := rotationWrite sec d user stored now with hw
  set r := refreshToken sec d user stored.familyId (some stored.id) now with hr
  have hissued : w.issued = some r := rfl
  have hnew := hf.issued_new hissued
  refine ⟨?_, fun t' => ?_, ?_⟩
  · rw [List.nodup_append]
    refine ⟨nodup_onToken hl w, List.nodup_singleton r, fun t' ht' q hq => ?_⟩
    obtain ⟨t, ht, rfl⟩ := List.mem_map.mp ht'
    rw [List.mem_singleton] at hq
    rintro rfl
    refine (hnew t ((hl.mem t).mp ht).1).1 ?_
    rw [← hq, w.onToken_id]
  · rw [hf.mem_tokens, List.mem_append, List.mem_map, List.mem_singleton]
    constructor
    · rintro (⟨t, ht, rfl⟩ | rfl)
      · obtain ⟨hmem, hfamily⟩ := (hl.mem t).mp ht
        exact ⟨.inl ⟨t, hmem, rfl⟩, (w.onToken_familyId t).trans hfamily⟩
      · exact ⟨.inr rfl, rfl⟩
    · rintro ⟨⟨t, ht, rfl⟩ | hq, hfamily⟩
      · rw [w.onToken_familyId] at hfamily
        exact .inl ⟨t, (hl.mem t).mpr ⟨ht, hfamily⟩, rfl⟩
      · exact .inr (Option.some.inj (hissued.symm.trans hq)).symm
  · -- the token that is replaced is the last of its family
    obtain ⟨before, hbefore⟩ := Links.eq_last hl.linked ((hl.mem stored).mpr ⟨found, rfl⟩)
      (show ¬ stored.revokedAt.isSome = true by simp [unrevoked])
    have hstored : w.onToken stored = { stored with revokedAt := some now, replacedById := some r.id } := by
      simp [hw, hr, Flush.onToken, Flush.onStored, rotationWrite, refreshToken]
    have hapart (t : RefreshToken) (ht : t ∈ before) : w.onToken t = t := by
      refine onToken_untouched (fun e he hid => ?_) List.not_mem_nil
      cases he
      have hnodup := hl.nodup
      rw [hbefore] at hnodup
      have hmem : t ∈ l := by
        rw [hbefore]
        exact List.mem_append_left _ ht
      have hsame : t = stored := Table.eq_of_key ((hl.mem t).mp hmem).1 found hid
      exact (List.nodup_append.mp hnodup).2.2 t ht stored (List.mem_singleton.mpr rfl) hsame
    have hlinked := hl.linked
    rw [hbefore] at hlinked ⊢
    exact Links.linked_extend (L := tokenLinks) hlinked hapart (w.onToken_id stored) (w.onToken_parentId stored)
      (by rw [hstored]; rfl) (by rw [hstored]; rfl) rfl rfl

end PveMaster.Accounts
