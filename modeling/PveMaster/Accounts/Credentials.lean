import PveMaster.Accounts.Epochs

/-! Sessions and the credentials they were opened with.

A login reads the user and checks the password without a lock, and issues its token at the
end. A change of the password, of `is_active` or a deletion raises the epoch of the user
and revokes the tokens that are there. -/
namespace PveMaster.Accounts

variable {sec : Security} {db db' : Db} {m : AuthRequest} {w : Flush} {u : User}

def AuthRequest.changesCredentials : AuthRequest → Prop
  | .login .. | .changePassword .. | .resetPassword .. | .updateUser .. | .deleteUser .. => True
  | .refresh _ | .logout _ => False

instance : DecidablePred AuthRequest.changesCredentials
  | .login .. | .changePassword .. | .resetPassword .. | .updateUser .. | .deleteUser .. => .isTrue trivial
  | .refresh _ | .logout _ => .isFalse id

/-- The credentials of a user, and the epoch that counts their changes. -/
def User.credentials (u : User) : Int × String × Bool := (u.sessionEpoch, u.passwordHash, u.isActive)

/-- When a login commits, the user still has the credentials it has read. -/
def SeenCredentials (m : AuthRequest) (w : Flush) (db : Db) : Prop :=
  m.isLogin = true → ∀ e ∈ w.user, ∀ u ∈ db.users.get? e.loaded.id, u.credentials = e.loaded.credentials

instance (m : AuthRequest) (w : Flush) (db : Db) : Decidable (SeenCredentials m w db) :=
  inferInstanceAs (Decidable (m.isLogin = true → ∀ e ∈ w.user, ∀ u ∈ db.users.get? e.loaded.id,
    u.credentials = e.loaded.credentials))

/-- A token that a login has issued and that is not revoked was issued for the credentials
the user has. -/
def CutsOff (sec : Security) (db : Db) (actions : List AuthAction) : Prop :=
  ∀ c ∈ (after sec db actions).log, c.request.isLogin = true → ∀ t e, c.write.issued = some t →
    c.write.user = some e → ∀ t' ∈ (after sec db actions).db.tokens, t'.id = t.id → t'.revokedAt = none →
      ∃ u, (after sec db actions).db.users.get? e.loaded.id = some u ∧ u.credentials = e.loaded.credentials

/-- A change that leaves the epoch leaves the credentials. -/
theorem Edited.credentials {user' : User} (h : Edited sec u user' m) (hepoch : user'.sessionEpoch = u.sessionEpoch) :
    user'.credentials = u.credentials := by
  have hnext : u.sessionEpoch + 1 ≠ u.sessionEpoch := by omega
  cases m with
  | changePassword claims current new =>
    obtain ⟨-, -, salt, rfl⟩ := h
    exact absurd hepoch hnext
  | resetPassword claims userId new =>
    obtain ⟨-, salt, rfl⟩ := h
    exact absurd hepoch hnext
  | deleteUser claims userId version =>
    obtain ⟨-, now, rfl⟩ := h
    exact absurd hepoch hnext
  | updateUser claims userId request =>
    obtain ⟨-, now, rfl⟩ := h
    cases hactivates : request.activates u with
    | true =>
      rw [assign_activates hactivates] at hepoch
      exact absurd hepoch hnext
    | false =>
      rw [assign_keeps hactivates]
      rfl
  | login | refresh | logout => exact h.elim

/-- **One commit** leaves the credentials of a user, or revokes every token of theirs. -/
theorem Legal.credentials (h : Legal sec db m w) (hkind : m.changesCredentials) (hu : u ∈ db.users) :
    (w.onUser u).credentials = u.credentials ∨ ∀ t ∈ db.tokens, ofUser u.id t = true → t.id ∈ w.revoked := by
  have hchange := h.user hu
  generalize w.onUser u = u' at hchange
  cases hchange with
  | kept => exact .inl rfl
  | reused rawToken request =>
    subst request
    exact hkind.elim
  | loggedOut rawToken e request =>
    subst request
    exact hkind.elim
  | edited _ hpresent hedited hwrite hrevokes =>
    by_cases hepoch : u'.sessionEpoch = u.sessionEpoch
    · exact .inl (hedited.credentials hepoch)
    · exact .inr (hrevokes hepoch)

/-- What a login has issued is of use only while the user has the credentials it read. -/
def Opened (db : Db) (t : RefreshToken) (loaded : User) : Prop :=
  ∃ t' ∈ db.tokens, t'.id = t.id ∧ t'.userId = loaded.id ∧
    (t'.revokedAt = none → ∃ u, db.users.get? loaded.id = some u ∧ u.credentials = loaded.credentials)

theorem Opened.commit {t : RefreshToken} {loaded : User} (h : Opened db t loaded) (hlegal : Legal sec db m w)
    (hkind : m.changesCredentials) (hf : Flushed w db db') : Opened db' t loaded := by
  obtain ⟨t', ht', hid, howner, hcurrent⟩ := h
  refine ⟨w.onToken t', hf.mem_tokens.mpr (.inl ⟨t', ht', rfl⟩), (w.onToken_id t').trans hid,
    (w.onToken_userId t').trans howner, fun hunrevoked => ?_⟩
  have hkept := mt (onToken_revoked hlegal t').mpr (by rw [hunrevoked]; exact Bool.false_ne_true)
  rw [not_or, not_or] at hkept
  have hnone : t'.revokedAt = none := by simpa using hkept.1
  obtain ⟨u, hget, hcredentials⟩ := hcurrent hnone
  have hu : u.id = loaded.id := Table.get?_key hget
  cases hlegal.credentials hkind (Table.get?_mem hget) with
  | inl hsame =>
    refine ⟨w.onUser u, ?_, hsame.trans hcredentials⟩
    rw [hf.user, hget]
    rfl
  | inr hrevokes =>
    refine absurd (hrevokes t' ht' ?_) hkept.2.1
    simp [ofUser, hnone, howner, hu]

theorem opened_login {t : RefreshToken} {e : Edit User} (hlegal : Legal sec db m w)
    (hlogin : m.isLogin = true) (hseen : SeenCredentials m w db) (hf : Flushed w db db') (ht : w.issued = some t)
    (he : w.user = some e) : Opened db' t e.loaded := by
  cases hlegal with
  | @loggedIn email password source d user throttle now known =>
    cases ht
    cases he
    obtain ⟨u, hu⟩ := Option.isSome_iff_exists.mp known
    refine ⟨_, hf.mem_tokens.mpr (.inr rfl), rfl, rfl, fun _ => ?_⟩
    have hcredentials := hseen rfl _ rfl u hu
    refine ⟨(loginWrite sec d user throttle now).onUser u, ?_, ?_⟩
    · rw [hf.user]
      show (db.users.get? user.id).map _ = _
      rw [hu]
      rfl
    · have hid : u.id = user.id := Table.get?_key hu
      rw [← hcredentials]
      simp [Flush.onUser, loginWrite, hid, User.flush, User.credentials]
  | changed _ _ hedited =>
    cases m with
    | login => exact hedited.elim
    | _ => cases hlogin
  | limited | denied => cases ht
  | rotated | reused | expired | loggedOut => cases hlogin

/-- **A change of credentials cuts off** the sessions that were opened before it, if no login
commits with credentials that have been changed meanwhile. -/
theorem credentials_cut_off {actions : List AuthAction}
    (run : AuthRun sec AuthRequest.changesCredentials SeenCredentials db actions) : CutsOff sec db actions := by
  let J : Db → List (Committed Flush AuthRequest) → Prop := fun db log =>
    ∀ c ∈ log, c.request.isLogin = true → ∀ t e, c.write.issued = some t → c.write.user = some e → Opened db t e.loaded
  have hopened : J (after sec db actions).db (after sec db actions).log := by
    have hempty : J (after sec db []).db (after sec db []).log := fun c hc => by cases hc
    have run' : AuthRun sec AuthRequest.changesCredentials SeenCredentials db ([] ++ actions) := run
    refine run_keeps run' (fun c db db' log _ h hkind hseen hlegal _ hf => ?_) (fun _ _ _ h => h) hempty
    intro c' hc' hlogin t e ht he
    cases List.mem_append.mp hc' with
    | inl hold => exact (h c' hold hlogin t e ht he).commit hlegal hkind hf
    | inr hnew =>
      rw [List.mem_singleton] at hnew
      subst hnew
      exact opened_login hlegal hlogin hseen hf ht he
  intro c hc hlogin t e ht he t' ht' hid hunrevoked
  obtain ⟨q, hq, hqid, -, hcurrent⟩ := hopened c hc hlogin t e ht he
  have hsame : t' = q := Table.eq_of_key ht' hq (hid.trans hqid.symm)
  exact hcurrent (hsame ▸ hunrevoked)

/-- Bob logs in, and an administrator resets his password. -/
def resetRun : List AuthAction :=
  .spawn 0 (0, .login "bob@pve" "old" "10.0.0.1") :: steps 0 8 (drawing 8 9 "second") ++
    .spawn 1 (1, .resetPassword ⟨1, 0⟩ 2 "new") :: steps 1 9 {}

theorem reset_cuts_off : CutsOff plainSecurity plainDb resetRun :=
  credentials_cut_off (checked_run plainDb_sound (by decide) (by decide) (by decide +kernel))

/-- The administrator resets the password while the login checks the old one. -/
def overtakenLogin : List AuthAction :=
  .spawn 0 (0, .login "bob@pve" "old" "10.0.0.1") :: steps 0 4 {} ++
    .spawn 1 (1, .resetPassword ⟨1, 0⟩ 2 "new") :: steps 1 9 {} ++ steps 0 5 (drawing 8 9 "second")

/-- The session is opened with the old password, and stays. -/
theorem login_outlives_reset :
    AuthRun plainSecurity AuthRequest.changesCredentials (fun _ _ _ => True) plainDb overtakenLogin ∧
      ¬ CutsOff plainSecurity plainDb overtakenLogin := by
  refine ⟨checked_run plainDb_sound (by decide) (by decide) (by decide +kernel), fun h => ?_⟩
  let bob := plainUser 2 "bob@pve" .customer
  let login : Committed Flush AuthRequest :=
    ⟨0, .login "bob@pve" "old" "10.0.0.1", loginWrite plainSecurity (drawing 8 9 "second") bob none 0⟩
  have hlogin : login ∈ (after plainSecurity plainDb overtakenLogin).log := by decide +kernel
  have htoken : ∃ t ∈ (after plainSecurity plainDb overtakenLogin).db.tokens.rows, t.id = 8 ∧ t.revokedAt = none := by
    decide +kernel
  have huser : ((after plainSecurity plainDb overtakenLogin).db.users.get? 2).map User.credentials =
      some (1, "new", true) := by decide +kernel
  obtain ⟨t, ht, hid, hunrevoked⟩ := htoken
  obtain ⟨u, hu, hcredentials⟩ := h login hlogin rfl _ _ rfl rfl t ht hid hunrevoked
  have hu : (after plainSecurity plainDb overtakenLogin).db.users.get? 2 = some u := hu
  rw [hu, Option.map_some, hcredentials] at huser
  exact absurd (Option.some.inj huser) (by decide)

end PveMaster.Accounts
