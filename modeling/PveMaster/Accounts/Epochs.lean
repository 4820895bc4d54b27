import PveMaster.Accounts.Commits

/-! The epoch of a user's sessions.

An access token carries the `session_epoch` its user had when it was made, and is accepted
while the user still has it. A call that ends sessions adds one; a logout adds it to the
epoch it read before, without a lock. As long as no logout overwrites an epoch it has not
seen, an epoch never comes back. -/
namespace PveMaster.Accounts

variable {sec : Security} {condition : AuthRequest → Flush → Db → Prop} {kind : AuthRequest → Prop} {db db' : Db}
  {m : AuthRequest} {w : Flush} {u : User}

/-- Whether a commit ends the sessions of a user: a refresh edits the user when it has found
a reuse, an update when it changes `is_active`. -/
def AuthRequest.endsSessions (m : AuthRequest) (w : Flush) (userId : Uuid) : Prop :=
  ∃ e, w.user = some e ∧ e.loaded.id = userId ∧ match m with
    | .login .. => False
    | .updateUser .. => e.current.isActive ≠ e.loaded.isActive
    | .refresh _ | .logout _ | .changePassword .. | .deleteUser .. | .resetPassword .. => True

/-- The epoch a logout writes follows the stored one. -/
def SeenEpoch (m : AuthRequest) (w : Flush) (db : Db) : Prop :=
  m.isLogout = true → ∀ e ∈ w.user, ∀ u ∈ db.users.get? e.loaded.id, u.sessionEpoch = e.loaded.sessionEpoch

instance (m : AuthRequest) (w : Flush) (db : Db) : Decidable (SeenEpoch m w db) :=
  inferInstanceAs (Decidable (m.isLogout = true → ∀ e ∈ w.user, ∀ u ∈ db.users.get? e.loaded.id,
    u.sessionEpoch = e.loaded.sessionEpoch))

theorem Edited.epoch {user' : User} (h : Edited sec u user' m) :
    u.sessionEpoch ≤ user'.sessionEpoch ∧
      (∀ claims userId request, m = .updateUser claims userId request → user'.isActive ≠ u.isActive →
        u.sessionEpoch < user'.sessionEpoch) ∧
      ((∀ claims userId request, m ≠ .updateUser claims userId request) → u.sessionEpoch < user'.sessionEpoch) := by
  have next : u.sessionEpoch < u.sessionEpoch + 1 := by omega
  cases m with
  | changePassword claims current new =>
    obtain ⟨-, -, salt, rfl⟩ := h
    exact ⟨le_of_lt next, fun _ _ _ _ _ => next, fun _ => next⟩
  | resetPassword claims userId new =>
    obtain ⟨-, salt, rfl⟩ := h
    exact ⟨le_of_lt next, fun _ _ _ _ _ => next, fun _ => next⟩
  | deleteUser claims userId version =>
    obtain ⟨-, now, rfl⟩ := h
    exact ⟨le_of_lt next, fun _ _ _ _ _ => next, fun _ => next⟩
  | updateUser claims userId request =>
    obtain ⟨-, now, rfl⟩ := h
    cases hactivates : request.activates u with
    | true =>
      rw [assign_activates hactivates]
      exact ⟨le_of_lt next, fun _ _ _ _ _ => next, fun _ => next⟩
    | false =>
      rw [assign_keeps hactivates]
      exact ⟨le_refl _, fun _ _ _ _ hne => absurd rfl hne, fun hne => absurd rfl (hne claims userId request)⟩
  | login | refresh | logout => exact h.elim

/-- **One commit** never takes an epoch back, and a call that ends sessions leaves it behind. -/
theorem Legal.epoch (h : Legal sec db m w) (hseen : SeenEpoch m w db) (hu : u ∈ db.users) :
    u.sessionEpoch ≤ (w.onUser u).sessionEpoch ∧
      (m.endsSessions w u.id → u.sessionEpoch < (w.onUser u).sessionEpoch) := by
  have next : u.sessionEpoch < u.sessionEpoch + 1 := by omega
  have hchange := h.user hu
  generalize w.onUser u = u' at hchange
  cases hchange with
  | kept lastLoginAt hapart =>
    refine ⟨le_refl _, fun hends => ?_⟩
    obtain ⟨e, he, hid, hkind⟩ := hends
    cases hapart with
    | inl hlogin =>
      obtain ⟨email, password, source, rfl⟩ := hlogin
      exact hkind.elim
    | inr hapart => exact absurd hid (hapart e he)
  | reused => exact ⟨le_of_lt next, fun _ => next⟩
  | loggedOut rawToken e request write same =>
    have hget : db.users.get? e.loaded.id = some u := by
      rw [same]
      exact Table.get?_of_mem hu
    have hepoch := hseen (by rw [request]; rfl) e write u hget
    rw [← hepoch]
    exact ⟨le_of_lt next, fun _ => next⟩
  | edited user' hpresent hedited hwrite hrevokes =>
    obtain ⟨hle, hupdate, hother⟩ := hedited.epoch
    refine ⟨hle, fun hends => ?_⟩
    obtain ⟨e, he, hid, hkind⟩ := hends
    rw [hwrite] at he
    cases he
    cases m with
    | updateUser claims userId request => exact hupdate claims userId request rfl hkind
    | login => exact hkind.elim
    | _ => exact hother fun _ _ _ => nofun

/-- From a point of the log on the epoch of a user is not less than it was, and more once
their sessions have been ended. -/
def Ahead (userId : Uuid) (epoch : Int) (start : List (Committed Flush AuthRequest)) (db : Db)
    (log : List (Committed Flush AuthRequest)) : Prop :=
  ∃ l u, log = start ++ l ∧ db.users.get? userId = some u ∧ epoch ≤ u.sessionEpoch ∧
    ∀ c ∈ l, c.request.endsSessions c.write userId → epoch < u.sessionEpoch

theorem ahead_commit {userId : Uuid} {epoch : Int} {start log : List (Committed Flush AuthRequest)}
    {c : Committed Flush AuthRequest} (h : Ahead userId epoch start db log) (hlegal : Legal sec db c.request c.write)
    (hseen : SeenEpoch c.request c.write db) (hflushed : Flushed c.write db db') :
    Ahead userId epoch start db' (log ++ [c]) := by
  obtain ⟨l, u, rfl, hget, hle, hended⟩ := h
  obtain ⟨hgrows, hends⟩ := hlegal.epoch hseen (Table.get?_mem hget)
  have hid : u.id = userId := Table.get?_key hget
  refine ⟨l ++ [c], c.write.onUser u, List.append_assoc _ _ _, ?_, le_trans hle hgrows, fun c' hc' hcends => ?_⟩
  · rw [hflushed.user, hget]
    rfl
  · cases List.mem_append.mp hc' with
    | inl hold => exact lt_of_lt_of_le (hended c' hold hcends) hgrows
    | inr hnew =>
      rw [List.mem_singleton] at hnew
      subst hnew
      rw [← hid] at hcends
      exact lt_of_le_of_lt hle (hends hcends)

/-- A token whose epoch is behind is rejected. -/
theorem rejected_of_lt {claims : AccessClaims} (hget : db.users.get? claims.userId = some u)
    (hlt : claims.sessionEpoch < u.sessionEpoch) : authenticate claims db = .error (.app invalidAccessToken) := by
  unfold authenticate principalOf
  rw [hget]
  exact if_pos (.inr (ne_of_gt hlt))

/-- The sessions that are ended between two points of a run stay ended. -/
theorem epochs_behind {before rest : List AuthAction} (run : AuthRun sec kind condition db (before ++ rest))
    (hseen : ∀ m w db, kind m → condition m w db → SeenEpoch m w db) {userId : Uuid}
    (hget : (after sec db before).db.users.get? userId = some u) :
    Ahead userId u.sessionEpoch (after sec db before).log (after sec db (before ++ rest)).db
      (after sec db (before ++ rest)).log := by
  have hstart : Ahead userId u.sessionEpoch (after sec db before).log (after sec db before).db
      (after sec db before).log := ⟨[], u, (List.append_nil _).symm, hget, le_refl _, fun c hc => by cases hc⟩
  refine run_keeps run (fun c db db' log _ h hkind hcondition hlegal _ hflushed => ?_) (fun _ _ _ h => h) hstart
  exact ahead_commit h hlegal (hseen _ _ _ hkind hcondition) hflushed

/-! ### Sessions end for good -/

/-- Whatever access token a user has from a state of the run, once a call that ends their
sessions has been committed after it, it is not accepted any more. -/
def EndForGood (sec : Security) (db : Db) (actions : List AuthAction) : Prop :=
  ∀ before rest l c userId u, actions = before ++ rest →
    (after sec db actions).log = (after sec db before).log ++ l → c ∈ l →
    c.request.endsSessions c.write userId → (after sec db before).db.users.get? userId = some u →
      (∃ u', (after sec db actions).db.users.get? userId = some u' ∧ u'.sessionEpoch ≠ u.sessionEpoch) ∧
        authenticate (createAccessToken u) (after sec db actions).db = .error (.app invalidAccessToken)

/-- **Sessions end for good**, if every logout commits the epoch after the stored one. -/
theorem sessions_end_for_good {actions : List AuthAction} (run : AuthRun sec (fun _ => True) SeenEpoch db actions) :
    EndForGood sec db actions := by
  intro before rest l c userId u hactions hlog hc hends hget
  subst hactions
  obtain ⟨l', u', hlog', hget', -, hended⟩ := epochs_behind run (fun _ _ _ _ h => h) hget
  have hsame : l = l' := List.append_cancel_left (hlog.symm.trans hlog')
  have hlt : u.sessionEpoch < u'.sessionEpoch := hended c (hsame ▸ hc) hends
  have hid : u.id = userId := Table.get?_key hget
  refine ⟨⟨u', hget', ne_of_gt hlt⟩, rejected_of_lt (u := u') ?_ hlt⟩
  show (after sec db (before ++ rest)).db.users.get? u.id = some u'
  rw [hid]
  exact hget'

/-! ### Runs on fixed inputs -/

/-- Hashes that can be evaluated. -/
def plainSecurity : Security where
  verify hash password := hash == password
  hash _ password := password
  hashRefreshSecret secret := secret.toList.map Char.toNat
  throttleKey email source := (email ++ " " ++ source).toList.map Char.toNat
  refreshTtl := 30 * 86400 * second
  loginFailureLimit := 5
  loginFailureWindow := 900 * second
  loginLockout := 900 * second

def plainUser (id : Uuid) (email : String) (role : UserRole) : User where
  id := id
  email := email
  displayName := email
  role := role
  passwordHash := "old"
  isActive := true
  sessionEpoch := 0
  lastLoginAt := none
  disabledAt := none
  deletedAt := none
  version := 1

/-- The first token of a family, with the secret `"first"`. -/
def plainToken : RefreshToken where
  id := 5
  userId := 2
  familyId := 7
  tokenHash := plainSecurity.hashRefreshSecret "first"
  parentId := none
  replacedById := none
  expiresAt := 86400 * second
  revokedAt := none
  reuseDetectedAt := none

/-- Users of whom the one with the identifier 2 has a session. -/
def plainTables (users : Table User) : Db where
  users := users
  tokens := .single plainToken
  throttles := .empty
  members := .empty
  audits := []
  clock := 0

theorem plainTables_sound {users : Table User} (owner : (users.get? 2).isSome = true)
    (present : users.rows.all (fun u => u.deletedAt.isNone) = true) : Sound (plainTables users) where
  owner t ht := by
    rw [List.mem_singleton.mp ht]
    exact owner
  hashes t ht t' ht' _ := (List.mem_singleton.mp ht).trans (List.mem_singleton.mp ht').symm
  families t ht t' ht' _ := by rw [List.mem_singleton.mp ht, List.mem_singleton.mp ht']
  chains familyId := by
    by_cases hfamily : familyId = 7
    · subst hfamily
      refine ⟨[plainToken], List.nodup_singleton _, fun t => ⟨fun ht => ?_, fun ht => ht.1⟩, rfl, rfl⟩
      exact ⟨ht, by rw [List.mem_singleton.mp ht]; rfl⟩
    · refine ⟨[], List.nodup_nil, fun t => ⟨fun ht => ?_, fun ht => ?_⟩, trivial⟩
      · cases ht
      · rw [List.mem_singleton.mp ht.1] at ht
        exact absurd ht.2.symm hfamily
  deleted u hu hsome := by
    have hnone := List.all_eq_true.mp present u hu
    rw [Option.isNone_iff_eq_none.mp hnone] at hsome
    cases hsome

/-- An administrator, and a customer with a session. -/
def plainDb : Db := plainTables ⟨[plainUser 1 "root@pve" .superAdmin, plainUser 2 "bob@pve" .customer], by decide⟩

theorem plainDb_sound : Sound plainDb := plainTables_sound rfl rfl

/-- As many statements of one process. -/
def steps (pid n : Nat) (d : Draws) : List AuthAction := List.replicate n (.step pid d)

def drawing (id familyId : Uuid) (secret : String) : Draws where
  uuid := fun n => if n = 0 then id else familyId
  secret := secret

def starts (kind : AuthRequest → Bool) (actions : List AuthAction) : Bool :=
  actions.all fun
    | .spawn _ m => kind m.2
    | _ => true

/-- A run that can be checked by evaluation. -/
theorem checked_run {kind : AuthRequest → Prop} [DecidablePred kind] {condition : AuthRequest → Flush → Db → Prop}
    [∀ m w db, Decidable (condition m w db)] {db : Db} {actions : List AuthAction} (sound : Sound db)
    (requests : starts (fun m => decide (kind m)) actions = true)
    (numbers : (spawned (accounts plainSecurity).machine Transaction.xid actions).Nodup)
    (checks : (rules plainSecurity condition).checks (accounts plainSecurity)
      (Sys.idle (Store.unlocked Row Flush AuthRequest db)) actions = true) :
    AuthRun plainSecurity kind condition db actions where
  sound := sound
  numbers := numbers
  requests _ _ hm := of_decide_eq_true (List.all_eq_true.mp requests _ hm)
  conditions := Rules.along_of_checks checks

/-- Bob logs out. -/
def logoutRun : List AuthAction := .spawn 0 (0, .logout "first") :: steps 0 8 {}

theorem logout_ends_for_good : EndForGood plainSecurity plainDb logoutRun :=
  sessions_end_for_good (checked_run plainDb_sound (by decide) (by decide) (by decide +kernel))

/-- Bob logs out and, before the family is revoked, changes his password and logs in again. -/
def passwordChange : List AuthAction :=
  .spawn 0 (0, .logout "first") :: steps 0 3 {} ++
    .spawn 1 (1, .changePassword ⟨2, 0⟩ "old" "new") :: steps 1 9 {} ++
    .spawn 2 (2, .login "bob@pve" "new" "10.0.0.1") :: steps 2 8 (drawing 8 9 "second")

/-- The logout commits the epoch of the new session once more: the token of that session is
still accepted. -/
theorem logout_ends_nothing :
    AuthRun plainSecurity (fun _ => True) (fun _ _ _ => True) plainDb (passwordChange ++ steps 0 8 {}) ∧
      ¬ EndForGood plainSecurity plainDb (passwordChange ++ steps 0 8 {}) := by
  refine ⟨checked_run plainDb_sound (by decide) (by decide) (by decide +kernel), fun h => ?_⟩
  let bob : User := { plainUser 2 "bob@pve" .customer with
    passwordHash := "new", sessionEpoch := 1, lastLoginAt := some 0, version := 2 }
  let logout : Committed Flush AuthRequest :=
    ⟨0, .logout "first", logoutWrite (some (plainUser 2 "bob@pve" .customer)) 7 ([], []) 0⟩
  have hget : (after plainSecurity plainDb passwordChange).db.users.get? 2 = some bob := by decide +kernel
  have hlog : (after plainSecurity plainDb (passwordChange ++ steps 0 8 {})).log =
      (after plainSecurity plainDb passwordChange).log ++ [logout] := by decide +kernel
  have hfinal : (after plainSecurity plainDb (passwordChange ++ steps 0 8 {})).db.users.get? 2 = some bob := by
    decide +kernel
  obtain ⟨⟨u, hu, hne⟩, -⟩ := h passwordChange _ [logout] logout 2 bob rfl hlog List.mem_cons_self
    ⟨_, rfl, rfl, trivial⟩ hget
  rw [hfinal] at hu
  cases hu
  exact hne rfl

end PveMaster.Accounts
