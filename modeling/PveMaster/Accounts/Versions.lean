import PveMaster.Accounts.Service
import PveMaster.Foundation.Versions

/-! The versions of the users.

`update_user` and `delete_user` compare the version they carry with the row they have locked, and
every assignment of a version is made under that lock. So the accounts are an instance of the
general rule for optimistic versions: what is left to show here is, of each request, that it reads
a user it is about to write with the lock of the row, and that no other statement of it assigns a
version. The requests that assign none are idle. -/
namespace PveMaster.Accounts
open Prog AuthProg

/-- The user rows, by the version they have. A flush assigns a version only where the new one
differs from the one that was loaded, and of the requests only `update_user` and `delete_user`
carry one from the client. -/
def userVersions : Versioned Db Row Flush AuthRequest where
  version
    | .user k, db => (db.users.get? k).map User.version
    | _, _ => none
  assigns w := w.user.bind fun e =>
    if e.current.version = e.loaded.version then none
    else some (.user e.loaded.id, e.loaded.version, e.current.version)
  carried
    | .updateUser _ userId request => request.version.map (.user userId, ·)
    | .deleteUser _ userId version => some (.user userId, version)
    | _ => none

/-- A commit assigns the version it says it assigns, and leaves every other row the version it
has. -/
theorem userVersions_lawful (sec : Security) : userVersions.Lawful (accounts sec) where
  assigned w db db' k l a happly hassigns hthere := by
    obtain ⟨e, he, hassigned⟩ := Option.bind_eq_some_iff.mp hassigns
    split at hassigned
    · cases hassigned
    next hne =>
    cases hassigned
    have hthere : ((db.users.get? e.loaded.id).map User.version).isSome = true := hthere
    obtain ⟨u, hu⟩ := Option.isSome_iff_exists.mp ((Option.isSome_map).symm.trans hthere)
    show (db'.users.get? e.loaded.id).map User.version = some e.current.version
    rw [(flushed happly).user, hu]
    have hid : u.id = e.loaded.id := Table.get?_key hu
    have hwritten : w.onUser u = User.flush e.loaded e.current u := by
      unfold Flush.onUser
      rw [he]
      exact if_pos hid
    rw [Option.map_some, hwritten]
    exact congrArg some (written_of_ne u.version hne)
  others w db db' k n happly hnot hversion := by
    cases k with
    | token id | throttle k | member id => cases hversion
    | user k =>
      obtain ⟨u, hu, rfl⟩ := Option.map_eq_some_iff.mp hversion
      show (db'.users.get? k).map User.version = some u.version
      rw [(flushed happly).user, hu]
      refine congrArg some ?_
      have hk : u.id = k := Table.get?_key hu
      unfold Flush.onUser
      split
      · next e he =>
        split
        · next hid =>
          have hsame : e.current.version = e.loaded.version := by
            by_contra hne
            refine hnot e.loaded.version e.current.version ?_
            show w.user.bind _ = _
            rw [he, Option.bind_some, if_neg hne, ← hid, hk]
          show written e.loaded.version e.current.version u.version = u.version
          rw [hsame, written_unchanged]
        · rfl
      · rfl

variable {sec : Security} {m : AuthRequest} {held : Row → Option Nat} {α : Type}

/-! ### Programs -/

/-- What a program owes from a point on, with the rows it has locked so far and the versions it
has read of them. -/
abbrev Guards (m : AuthRequest) (p : AuthProg α) (held : Row → Option Nat) : Prop :=
  userVersions.Guarded m p (fun _ _ => True) held

theorem quiet_read {q : Db → α} : (AuthProg.read q).Only userVersions.Quiet := only_op trivial

theorem quiet_call {c : AuthCall} {q : Draws → α} : (call c q).Only userVersions.Quiet := only_op trivial

theorem quiet_lockRows {row : Uuid → Row} {wanted : Uuid → Db → Bool}
    (h : ∀ id db, userVersions.version (row id) db = none) (ids : List Uuid) :
    (lockRows row wanted ids).Only userVersions.Quiet := by
  induction ids with
  | nil => trivial
  | cons id rest ih => exact only_bind (only_op (h id)) fun _ => only_bind ih fun _ => trivial

theorem quiet_updateTokens {p : RefreshToken → Bool} : (updateTokens p).Only userVersions.Quiet :=
  only_bind (only_op trivial) fun found => only_bind (quiet_lockRows (fun _ _ => rfl) found) fun _ => trivial

theorem quiet_deleteMembers {userId : Uuid} : (deleteMembers userId).Only userVersions.Quiet :=
  only_bind (only_op trivial) fun found => quiet_lockRows (fun _ _ => rfl) found

theorem quiet_principal {claims : AccessClaims} : (getCurrentPrincipal claims).Only userVersions.Quiet :=
  only_bind quiet_read fun _ => trivial

theorem quiet_guardLast {removing : Bool} {count : Db → Nat} {done : String} :
    (guardLast removing count done).Only userVersions.Quiet := by
  unfold guardLast
  split
  · exact only_bind quiet_read fun _ => only_bind (p := ofExcept _) trivial fun _ => trivial
  · trivial

/-- `_get_user` with `lock`: what follows knows the version of the row, and nobody else can change
it. -/
theorem guards_getUser {userId : Uuid} {f : User → AuthProg α}
    (h : ∀ user held, user.id = userId → held (.user user.id) = some user.version → Guards m (f user) held) :
    Guards m (getUser userId >>= f) held := by
  unfold getUser
  rw [bind_assoc]
  refine Versioned.guarded_lock fun db => Versioned.guarded_ofExcept fun user huser => ?_
  rw [orRaise_ok] at huser
  rw [if_pos (by rw [huser]; rfl)]
  have hget := (Option.filter_eq_some_iff.mp huser).1
  have hid : user.id = userId := Table.get?_key hget
  subst hid
  refine h user _ rfl ?_
  rw [Function.update_self]
  show (db.users.get? user.id).map User.version = some user.version
  rw [hget]
  rfl

/-- The commit of a change of one user is allowed once the row of that user is locked, whatever
tokens are revoked with it. -/
theorem guards_userWrite {user current : User} {rows : List Uuid × List Uuid} {now : Instant}
    {removed : List Uuid} {counted : Option Nat} {audit : AuditEvent} {f : Unit → AuthProg α}
    (hheld : held (.user user.id) = some user.version) (hnext : current.version = user.version + 1)
    (hcarried : ∀ k v, userVersions.carried m = some (k, v) → k = .user user.id ∧ v = user.version)
    (hf : ∀ held, Guards m (f ()) held) :
    Guards m (commit (userWrite ⟨user, current⟩ rows now removed counted audit) >>= f) held := by
  refine Versioned.guarded_commit (fun k l a ha => ?_) hf
  have hassigns : (if current.version = user.version then none
    else some (Row.user user.id, user.version, current.version)) = some (k, l, a) := ha
  split at hassigns
  · cases hassigns
  · cases hassigns
    exact ⟨hheld, hnext, hcarried⟩

/-! ### Requests -/

theorem guards_changePassword {claims : AccessClaims} {currentPassword newPassword : String}
    (hm : userVersions.carried m = none) :
    Guards m (changePassword sec claims currentPassword newPassword) held := by
  refine Versioned.guarded_quiet quiet_principal fun principal => ?_
  refine guards_getUser fun user held _ hheld => ?_
  refine Versioned.guarded_quiet quiet_call fun valid => Versioned.guarded_ofExcept fun _ _ => ?_
  refine Versioned.guarded_quiet quiet_call fun d => Versioned.guarded_quiet quiet_read fun now => ?_
  refine Versioned.guarded_quiet quiet_updateTokens fun rows => ?_
  refine guards_userWrite hheld rfl (fun k v hkv => ?_) fun _ => trivial
  rw [hm] at hkv
  cases hkv

theorem guards_resetPassword {claims : AccessClaims} {userId : Uuid} {newPassword : String}
    (hm : userVersions.carried m = none) : Guards m (resetPassword sec claims userId newPassword) held := by
  refine Versioned.guarded_quiet quiet_principal fun principal => Versioned.guarded_ofExcept fun _ _ => ?_
  refine guards_getUser fun user held _ hheld => ?_
  refine Versioned.guarded_quiet quiet_call fun d => Versioned.guarded_quiet quiet_read fun now => ?_
  refine Versioned.guarded_quiet quiet_updateTokens fun rows => ?_
  refine guards_userWrite hheld rfl (fun k v hkv => ?_) fun _ => trivial
  rw [hm] at hkv
  cases hkv

/-- A change of a user through the endpoint makes the version one greater; the fields it leaves
out keep their values. -/
theorem assign_version (request : UserUpdate) (user : User) (now : Instant) :
    (request.assign user now).version = user.version + 1 := by
  unfold UserUpdate.assign
  dsimp only
  split <;> rfl

theorem guards_updateUser {claims : AccessClaims} {userId : Uuid} {request : UserUpdate} :
    Guards (.updateUser claims userId request) (updateUser claims userId request) held := by
  refine Versioned.guarded_quiet quiet_principal fun principal => Versioned.guarded_ofExcept fun _ _ => ?_
  refine guards_getUser fun user held hid hheld => Versioned.guarded_ofExcept fun _ hversion => ?_
  have hversion := raiseIf_ok.mp hversion
  refine Versioned.guarded_quiet quiet_guardLast fun counted => ?_
  refine Versioned.guarded_quiet quiet_read fun disabled => Versioned.guarded_quiet quiet_read fun revoked => ?_
  have hcarried (k : Row) (v : Nat) (hkv : userVersions.carried (.updateUser claims userId request) = some (k, v)) :
      k = .user user.id ∧ v = user.version := by
    obtain ⟨n, hn, heq⟩ := Option.map_eq_some_iff.mp hkv
    cases heq
    rw [hid]
    by_contra hne
    exact hversion ⟨by rw [hn]; nofun, fun hsame => hne ⟨rfl, Option.some.inj (hn.symm.trans hsame)⟩⟩
  have hcommit (rows : List Uuid × List Uuid) : Guards (.updateUser claims userId request)
      (commit (userWrite ⟨user, request.assign user disabled⟩ rows revoked [] counted
        (accountAudit principal (userAction user (request.assign user disabled)) "user" user.id)) >>= fun _ =>
          pure AuthResponse.done) held :=
    guards_userWrite hheld (assign_version request user disabled) hcarried fun _ => trivial
  dsimp only
  split
  · exact Versioned.guarded_quiet quiet_updateTokens hcommit
  · exact Versioned.guarded_quiet (p := pure ([], [])) trivial hcommit

theorem guards_deleteUser {claims : AccessClaims} {userId : Uuid} {version : Nat} :
    Guards (.deleteUser claims userId version) (deleteUser claims userId version) held := by
  refine Versioned.guarded_quiet quiet_principal fun principal => ?_
  refine Versioned.guarded_ofExcept fun _ _ => Versioned.guarded_ofExcept fun _ _ => ?_
  refine guards_getUser fun user held hid hheld => Versioned.guarded_ofExcept fun _ hversion => ?_
  have hversion := raiseIf_ok.mp hversion
  refine Versioned.guarded_quiet quiet_guardLast fun counted => Versioned.guarded_quiet quiet_read fun now => ?_
  refine Versioned.guarded_quiet quiet_deleteMembers fun removed => ?_
  refine Versioned.guarded_quiet quiet_updateTokens fun rows => ?_
  refine guards_userWrite hheld rfl (fun k v hkv => ?_) fun _ => trivial
  cases hkv
  exact ⟨by rw [hid], not_not.mp hversion⟩

/-- Programs that assign no version, as `login`, `refresh` and `logout` are. -/
abbrev IdleProg (p : AuthProg α) : Prop := p.Only userVersions.Idle

theorem idle_commit {w : Flush} {f : Unit → AuthProg α} (h : userVersions.assigns w = none)
    (hf : IdleProg (f ())) : IdleProg (commit w >>= f) := only_bind (only_perform h) fun _ => hf

theorem idle_read {q : Db → α} : IdleProg (AuthProg.read q) := only_op trivial

theorem idle_lock {row : Row} {wanted : Db → Bool} {q : Db → α} : IdleProg (lock row wanted q) := only_op trivial

theorem idle_call {c : AuthCall} {q : Draws → α} : IdleProg (call c q) := only_op trivial

theorem idle_revokeFamily {familyId : Uuid} : IdleProg (revokeFamily familyId) := by
  have hrows (ids : List Uuid) :
      IdleProg (lockRows .token (Db.tokenMatches (ofFamily familyId)) ids) := by
    induction ids with
    | nil => trivial
    | cons id rest ih => exact only_bind idle_lock fun _ => only_bind ih fun _ => trivial
  exact only_bind (only_op trivial) fun found => only_bind (hrows found) fun _ => trivial

theorem idle_verified {user : Option User} {password : String} : IdleProg (verified sec user password) := by
  unfold verified
  split
  · exact idle_call
  · exact idle_call

theorem idle_login {email password source : String} : IdleProg (login sec email password source) := by
  refine only_bind idle_read fun now => only_bind idle_lock fun throttle => ?_
  split
  · exact only_bind idle_call fun _ => idle_commit rfl trivial
  · refine only_bind idle_read fun user => only_bind idle_verified fun passwordValid => ?_
    split
    · exact idle_commit rfl trivial
    · refine only_bind idle_call fun d => only_bind idle_lock fun _ => idle_commit ?_ trivial
      exact if_pos rfl

theorem idle_selectToken {tokenHash : Digest} : IdleProg (selectTokenForUpdate tokenHash) := by
  refine only_bind idle_read fun t => ?_
  split
  · trivial
  · exact idle_lock

theorem idle_refresh {rawToken : String} : IdleProg (refresh sec rawToken) := by
  refine only_bind idle_read fun now => only_bind idle_selectToken fun stored => ?_
  split
  · trivial
  refine only_bind idle_lock fun user => ?_
  split
  · trivial
  split
  · exact only_bind idle_revokeFamily fun rows => idle_commit (if_pos rfl) trivial
  split
  · exact idle_commit rfl trivial
  · exact only_bind idle_call fun d => idle_commit rfl trivial

theorem idle_logout {rawToken : String} : IdleProg (logout sec rawToken) := by
  refine only_bind idle_read fun now => only_bind idle_read fun stored => ?_
  split
  · trivial
  refine only_bind idle_read fun user => only_bind idle_revokeFamily fun rows => ?_
  split
  · exact idle_commit rfl trivial
  · exact only_bind idle_lock fun _ => idle_commit (if_pos rfl) trivial

/-- Every request keeps to the rule, so the general theorem about versions applies to the
accounts. -/
theorem guarded_accounts (sec : Security) (m : AuthRequest) :
    Guards m ((accounts sec).program m) (fun _ => none) := by
  refine Versioned.guarded_bind (fun _ _ => trivial) (Versioned.guarded_attempt ?_)
  have hprogram : Guards m (m.program sec) fun _ => none := by
    cases m with
    | login email password source => exact Versioned.guarded_idle idle_login
    | refresh rawToken => exact Versioned.guarded_idle idle_refresh
    | logout rawToken => exact Versioned.guarded_idle idle_logout
    | changePassword claims currentPassword newPassword => exact guards_changePassword rfl
    | updateUser claims userId request => exact guards_updateUser
    | deleteUser claims userId version => exact guards_deleteUser
    | resetPassword claims userId newPassword => exact guards_resetPassword rfl
  exact Versioned.guarded_mono (fun r held _ a ha => trivial) hprogram

end PveMaster.Accounts
