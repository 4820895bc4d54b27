import PveMaster.Accounts.Epochs

/-! Refresh tokens and their families.

A refresh replaces the last token of its family, and a family with no token to replace stays
so: the only tokens that join it are replacements. A reuse revokes every token of the family,
since it holds the lock of the user while it looks for them. A logout does not. -/
namespace PveMaster.Accounts

variable {sec : Security} {condition : AuthRequest → Flush → Db → Prop} {kind : AuthRequest → Prop} {db db' : Db}
  {m : AuthRequest} {w : Flush} {familyId userId : Uuid}

/-- Every token of the family, and there is one, has been revoked. -/
structure Ended (familyId : Uuid) (db : Db) : Prop where
  started : ∃ t ∈ db.tokens, t.familyId = familyId
  revoked : ∀ t ∈ db.tokens, t.familyId = familyId → t.revokedAt.isSome = true

/-- A token that joins a family replaces one that was not revoked. -/
theorem Ended.closed (h : Ended familyId db) (hlegal : Legal sec db m w) (hnew : NewFamily w db) {t : RefreshToken}
    (ht : w.issued = some t) : t.familyId ≠ familyId := by
  rintro rfl
  obtain ⟨-, -, -, hroot | ⟨q, hq, -, hunrevoked, hfamily, -⟩⟩ := hlegal.issued ht
  · obtain ⟨t', ht', hsame⟩ := h.started
    exact hnew t ht hroot t' ht' hsame
  · have hrevoked := h.revoked q (Table.get?_mem hq) hfamily
    rw [hunrevoked] at hrevoked
    cases hrevoked

/-- **One commit** leaves an ended family ended. -/
theorem Ended.commit (h : Ended familyId db) (hlegal : Legal sec db m w) (hnew : NewFamily w db)
    (hf : Flushed w db db') : Ended familyId db' where
  started := by
    obtain ⟨t, ht, hfamily⟩ := h.started
    exact ⟨w.onToken t, hf.mem_tokens.mpr (.inl ⟨t, ht, rfl⟩), (w.onToken_familyId t).trans hfamily⟩
  revoked t' ht' hfamily := by
    cases hf.mem_tokens.mp ht' with
    | inl hkept =>
      obtain ⟨t, ht, rfl⟩ := hkept
      rw [w.onToken_familyId] at hfamily
      exact (onToken_revoked hlegal t).mpr (.inl (h.revoked t ht hfamily))
    | inr hissued => exact absurd hfamily (h.closed hlegal hnew hissued)

/-- A commit that revokes the tokens of a family that are not. -/
theorem ended_of_revoked {stored : RefreshToken} (hlegal : Legal sec db m w) (hf : Flushed w db db')
    (hissued : w.issued = none) (hstored : stored ∈ db.tokens)
    (hrevoked : ∀ t ∈ db.tokens, ofFamily stored.familyId t = true → t.id ∈ w.revoked) :
    Ended stored.familyId db' where
  started := ⟨w.onToken stored, hf.mem_tokens.mpr (.inl ⟨stored, hstored, rfl⟩), w.onToken_familyId stored⟩
  revoked t' ht' hfamily := by
    cases hf.mem_tokens.mp ht' with
    | inl hkept =>
      obtain ⟨t, ht, rfl⟩ := hkept
      rw [w.onToken_familyId] at hfamily
      refine (onToken_revoked hlegal t).mpr ?_
      by_cases hunrevoked : t.revokedAt.isSome = true
      · exact .inl hunrevoked
      · refine .inr (.inl (hrevoked t ht ?_))
        simpa [ofFamily, hfamily] using hunrevoked
    | inr hsome =>
      rw [hissued] at hsome
      cases hsome

/-! ### Reuse -/

/-- A refresh that has found a token of the family used twice. -/
def AuthRequest.findsReuse (m : AuthRequest) (w : Flush) (familyId userId : Uuid) : Prop :=
  (∃ rawToken, m = .refresh rawToken) ∧
    ∃ a ∈ w.audits, a.action = "AUTH_REFRESH_REUSE" ∧ a.targetId = some familyId ∧ a.actorUserId = some userId

theorem Legal.reuse (h : Legal sec db m w) (hr : m.findsReuse w familyId userId) :
    m.endsSessions w userId ∧ w.issued = none ∧ ∃ stored ∈ db.tokens, stored.familyId = familyId ∧
      ∀ t ∈ db.tokens, ofFamily familyId t = true → t.id ∈ w.revoked := by
  obtain ⟨⟨rawToken, rfl⟩, a, ha, haction, htarget, hactor⟩ := hr
  cases h with
  | rotated =>
    rw [List.mem_singleton.mp ha] at haction
    exact absurd haction (by simp [sessionAudit])
  | expired => cases ha
  | @reused _ user stored rows now found _ _ _ _ all =>
    rw [List.mem_singleton.mp ha] at htarget hactor
    have hfamily : stored.familyId = familyId := Option.some.inj htarget
    have huser : user.id = userId := Option.some.inj hactor
    subst hfamily huser
    exact ⟨⟨_, rfl, rfl, trivial⟩, rfl, stored, Table.get?_mem found, rfl, all⟩
  | changed _ _ hedited => exact hedited.elim

/-- Every family a reuse was found in has ended, and the sessions of its user were ended. -/
def ReusesEnded (db : Db) (log : List (Committed Flush AuthRequest)) : Prop :=
  ∀ c ∈ log, ∀ familyId userId, c.request.findsReuse c.write familyId userId →
    Ended familyId db ∧ c.request.endsSessions c.write userId

theorem reusesEnded_commit {c : Committed Flush AuthRequest} {log : List (Committed Flush AuthRequest)}
    (h : ReusesEnded db log) (hlegal : Legal sec db c.request c.write) (hnew : NewFamily c.write db)
    (hf : Flushed c.write db db') : ReusesEnded db' (log ++ [c]) := by
  intro c' hc' familyId userId hreuse
  cases List.mem_append.mp hc' with
  | inl hold =>
    obtain ⟨hended, hends⟩ := h c' hold familyId userId hreuse
    exact ⟨hended.commit hlegal hnew hf, hends⟩
  | inr hlast =>
    rw [List.mem_singleton] at hlast
    subst hlast
    obtain ⟨hends, hissued, stored, hstored, rfl, hrevoked⟩ := hlegal.reuse hreuse
    exact ⟨ended_of_revoked hlegal hf hissued hstored hrevoked, hends⟩

/-! ### Rotation -/

def AuthRequest.isRefresh : AuthRequest → Prop
  | .refresh _ => True
  | _ => False

instance : DecidablePred AuthRequest.isRefresh
  | .refresh _ => .isTrue trivial
  | .login .. | .logout _ | .changePassword .. | .updateUser .. | .deleteUser .. | .resetPassword .. =>
    .isFalse id

/-- A token that can be exchanged, as far as it has not expired. -/
def RefreshToken.live (t : RefreshToken) : Prop := t.revokedAt = none ∧ t.replacedById = none

/-- Refresh rotation: every family is a chain with at most one token that can be used, and
a reuse ends its family and every session the user had. -/
structure Rotates (sec : Security) (db : Db) (actions : List AuthAction) : Prop where
  chains : ∀ familyId, ∃ l, FamilyChain (after sec db actions).db familyId l
  single : ∀ t ∈ (after sec db actions).db.tokens, ∀ t' ∈ (after sec db actions).db.tokens,
    t.familyId = t'.familyId → t.live → t'.live → t = t'
  reuse : ∀ before rest l c familyId userId, actions = before ++ rest →
    (after sec db actions).log = (after sec db before).log ++ l → c ∈ l →
    c.request.findsReuse c.write familyId userId →
      (∀ t ∈ (after sec db actions).db.tokens, t.familyId = familyId → t.revokedAt.isSome = true) ∧
        ∀ u claims, (after sec db before).db.users.get? userId = some u → claims.userId = userId →
          claims.sessionEpoch ≤ u.sessionEpoch →
            authenticate claims (after sec db actions).db = .error (.app invalidAccessToken)

/-- **Refresh calls** rotate, however they interleave. -/
theorem refresh_rotates {actions : List AuthAction}
    (run : AuthRun sec AuthRequest.isRefresh (fun _ _ _ => True) db actions) : Rotates sec db actions := by
  have hsound := sound_after run
  have hreuses : ReusesEnded (after sec db actions).db (after sec db actions).log := by
    have hempty : ReusesEnded (after sec db []).db (after sec db []).log := fun c hc => by cases hc
    have run' : AuthRun sec AuthRequest.isRefresh (fun _ _ _ => True) db ([] ++ actions) := run
    refine run_keeps run' (fun c db db' log _ h _ _ hlegal hnew hf => reusesEnded_commit h hlegal hnew hf) ?_ hempty
    exact fun db clock log h c hc f u hr =>
      ⟨⟨(h c hc f u hr).1.started, (h c hc f u hr).1.revoked⟩, (h c hc f u hr).2⟩
  refine ⟨hsound.chains, fun t ht t' ht' hfamily hlive hlive' => ?_, ?_⟩
  · obtain ⟨l, hl⟩ := hsound.chains t.familyId
    refine Links.open_unique hl.linked ((hl.mem t).mpr ⟨ht, rfl⟩) ?_ ((hl.mem t').mpr ⟨ht', hfamily.symm⟩) ?_
    · show ¬ t.revokedAt.isSome = true
      rw [hlive.1]
      exact Bool.false_ne_true
    · show ¬ t'.revokedAt.isSome = true
      rw [hlive'.1]
      exact Bool.false_ne_true
  · intro before rest l c familyId userId hactions hlog hc hreuse
    subst hactions
    have hmem : c ∈ (after sec db (before ++ rest)).log := by
      rw [hlog]
      exact List.mem_append_right _ hc
    obtain ⟨hended, hends⟩ := hreuses c hmem familyId userId hreuse
    refine ⟨hended.revoked, fun u claims hget hclaims hle => ?_⟩
    have hseen : ∀ m w db, AuthRequest.isRefresh m → True → SeenEpoch m w db := by
      intro m w db hm _ hlogout
      cases m with
      | logout => exact hm.elim
      | _ => cases hlogout
    obtain ⟨l', u', hlog', hget', -, hbehind⟩ := epochs_behind run hseen hget
    have hsame : l = l' := List.append_cancel_left (hlog.symm.trans hlog')
    have hlt := hbehind c (hsame ▸ hc) hends
    exact rejected_of_lt (u := u') (by rw [hclaims]; exact hget') (lt_of_le_of_lt hle hlt)

/-- Bob refreshes twice with the same token, the second time while the first is under way. -/
def doubleRefresh : List AuthAction :=
  .spawn 0 (0, .refresh "first") :: steps 0 3 {} ++
    .spawn 1 (1, .refresh "first") :: steps 1 2 {} ++ steps 0 5 (drawing 8 9 "second") ++ steps 1 9 {}

theorem double_refresh_rotates : Rotates plainSecurity plainDb doubleRefresh :=
  refresh_rotates (checked_run plainDb_sound (by decide) (by decide) (by decide +kernel))

/-! ### Logout -/

def AuthRequest.logoutToken : AuthRequest → Option String
  | .logout rawToken => some rawToken
  | _ => none

/-- When a logout commits, its update has found every token of the family that can be
used: no refresh of the family has been committed since it started. -/
def SeenFamily (sec : Security) (m : AuthRequest) (w : Flush) (db : Db) : Prop :=
  ∀ rawToken ∈ m.logoutToken, ∀ t ∈ db.tokens.rows, t.tokenHash = sec.hashRefreshSecret rawToken →
    ∀ t' ∈ db.tokens.rows, ofFamily t.familyId t' = true → t'.id ∈ w.found

instance (sec : Security) (m : AuthRequest) (w : Flush) (db : Db) : Decidable (SeenFamily sec m w db) :=
  inferInstanceAs (Decidable (∀ rawToken ∈ m.logoutToken, ∀ t ∈ db.tokens.rows,
    t.tokenHash = sec.hashRefreshSecret rawToken → ∀ t' ∈ db.tokens.rows, ofFamily t.familyId t' = true →
      t'.id ∈ w.found))

/-- Once a logout has been committed, no token of its family can be used, and no refresh of
the family is committed. -/
def LogoutComplete (sec : Security) (db : Db) (actions : List AuthAction) : Prop :=
  ∀ l c l' rawToken, (after sec db actions).log = l ++ c :: l' → c.request = .logout rawToken →
    ∀ t ∈ (after sec db actions).db.tokens, t.tokenHash = sec.hashRefreshSecret rawToken →
      (∀ t' ∈ (after sec db actions).db.tokens, t'.familyId = t.familyId → t'.revokedAt.isSome = true) ∧
        ∀ c' ∈ l', ∀ t', c'.write.issued = some t' → t'.familyId ≠ t.familyId

/-- Every family a logout has been committed for has ended. -/
def LogoutsEnded (sec : Security) (db : Db) (log : List (Committed Flush AuthRequest)) : Prop :=
  ∀ l c l' rawToken, log = l ++ c :: l' → c.request = .logout rawToken →
    ∃ t ∈ db.tokens, t.tokenHash = sec.hashRefreshSecret rawToken ∧ Ended t.familyId db ∧
      ∀ c' ∈ l', ∀ t', c'.write.issued = some t' → t'.familyId ≠ t.familyId

theorem Legal.logout {rawToken : String} (h : Legal sec db (.logout rawToken) w)
    (hseen : SeenFamily sec (.logout rawToken) w db) (hf : Flushed w db db') :
    ∃ t ∈ db'.tokens, t.tokenHash = sec.hashRefreshSecret rawToken ∧ Ended t.familyId db' := by
  cases h with
  | @loggedOut _ user stored t rows now found same hash owner only others =>
    have hfamily : t.familyId = stored.familyId := congrArg (·.2.2.1) same
    have hhash : t.tokenHash = sec.hashRefreshSecret rawToken := (congrArg (·.2.2.2.1) same).trans hash
    have hmem := Table.get?_mem found
    refine ⟨_, hf.mem_tokens.mpr (.inl ⟨t, hmem, rfl⟩), (Flush.onToken_tokenHash _ t).trans hhash, ?_⟩
    rw [Flush.onToken_familyId]
    refine ended_of_revoked (.loggedOut found same hash owner only others) hf rfl hmem fun q hq hp => ?_
    by_contra hnot
    obtain ⟨q', hq', hrevoked⟩ := others q.id (hseen rawToken rfl t hmem hhash q hq hp) hnot
    have hget : db.tokens.get? q.id = some q := Table.get?_of_mem hq
    rw [hget] at hq'
    cases hq'
    simp only [ofFamily, Bool.and_eq_true, Option.isNone_iff_eq_none] at hp
    rw [hp.2] at hrevoked
    cases hrevoked
  | changed _ _ hedited => exact hedited.elim

theorem logoutsEnded_commit {c : Committed Flush AuthRequest} {log : List (Committed Flush AuthRequest)}
    (h : LogoutsEnded sec db log) (hlegal : Legal sec db c.request c.write) (hnew : NewFamily c.write db)
    (hseen : SeenFamily sec c.request c.write db) (hf : Flushed c.write db db') :
    LogoutsEnded sec db' (log ++ [c]) := by
  intro l c₁ l' rawToken hlog hrequest
  rcases List.eq_nil_or_concat l' with rfl | ⟨l'', last, rfl⟩
  · -- the logout is the last commit
    obtain ⟨-, hlast⟩ := List.append_inj' hlog rfl
    cases hlast
    rw [hrequest] at hlegal hseen
    obtain ⟨t, ht, hhash, hended⟩ := hlegal.logout hseen hf
    exact ⟨t, ht, hhash, hended, fun _ hc' => by cases hc'⟩
  · rw [List.concat_eq_append, ← List.cons_append, ← List.append_assoc] at hlog
    obtain ⟨hlog', hlast⟩ := List.append_inj' hlog rfl
    cases hlast
    obtain ⟨t, ht, hhash, hended, hothers⟩ := h l c₁ l'' rawToken hlog' hrequest
    refine ⟨c.write.onToken t, hf.mem_tokens.mpr (.inl ⟨t, ht, rfl⟩), (Flush.onToken_tokenHash _ t).trans hhash, ?_⟩
    rw [Flush.onToken_familyId]
    refine ⟨hended.commit hlegal hnew hf, fun c' hc' t' ht' => ?_⟩
    rw [List.concat_eq_append] at hc'
    cases List.mem_append.mp hc' with
    | inl hold => exact hothers c' hold t' ht'
    | inr hnew' =>
      rw [List.mem_singleton] at hnew'
      subst hnew'
      exact hended.closed hlegal hnew ht'

/-- **A logout is complete** if no refresh of the family is committed while it revokes it. -/
theorem logout_complete {actions : List AuthAction} (run : AuthRun sec (fun _ => True) (SeenFamily sec) db actions) :
    LogoutComplete sec db actions := by
  have hended : LogoutsEnded sec (after sec db actions).db (after sec db actions).log := by
    have hempty : LogoutsEnded sec (after sec db []).db (after sec db []).log := by
      intro l c l' rawToken hlog
      cases l <;> cases hlog
    have run' : AuthRun sec (fun _ => True) (SeenFamily sec) db ([] ++ actions) := run
    refine run_keeps run' (fun c db db' log _ h _ hseen hlegal hnew hf => logoutsEnded_commit h hlegal hnew hseen hf)
      (fun db clock log h l c l' rawToken hlog hrequest => ?_) hempty
    obtain ⟨t, ht, hhash, hended, hothers⟩ := h l c l' rawToken hlog hrequest
    exact ⟨t, ht, hhash, ⟨hended.started, hended.revoked⟩, hothers⟩
  intro l c l' rawToken hlog hrequest t ht hhash
  obtain ⟨t', ht', hhash', hended, hothers⟩ := hended l c l' rawToken hlog hrequest
  have hsame : t = t' := (sound_after run).hashes t ht t' ht' (hhash.trans hhash'.symm)
  subst hsame
  exact ⟨hended.revoked, hothers⟩

theorem logout_run_complete : LogoutComplete plainSecurity plainDb logoutRun :=
  logout_complete (checked_run plainDb_sound (by decide) (by decide) (by decide +kernel))

/-- Bob logs out while a refresh of the session is under way. -/
def refreshedLogout : List AuthAction :=
  .spawn 0 (0, .refresh "first") :: steps 0 4 {} ++
    .spawn 1 (1, .logout "first") :: steps 1 4 {} ++ steps 0 4 (drawing 8 9 "second") ++ steps 1 5 {} ++
      .spawn 2 (2, .refresh "second") :: steps 2 8 (drawing 10 9 "third")

/-- The update of the logout does not see the token that replaces the one it waits for: the
session goes on. -/
theorem logout_incomplete :
    AuthRun plainSecurity (fun _ => True) (fun _ _ _ => True) plainDb refreshedLogout ∧
      ¬ LogoutComplete plainSecurity plainDb refreshedLogout := by
  refine ⟨checked_run plainDb_sound (by decide) (by decide) (by decide +kernel), fun h => ?_⟩
  have hlog : (after plainSecurity plainDb refreshedLogout).log.map Committed.request =
      [.refresh "first", .logout "first", .refresh "second"] := by decide +kernel
  have htoken : ∃ t ∈ (after plainSecurity plainDb refreshedLogout).db.tokens.rows,
      t.tokenHash = plainSecurity.hashRefreshSecret "first" ∧ t.familyId = 7 := by decide +kernel
  have hlive : ∃ t ∈ (after plainSecurity plainDb refreshedLogout).db.tokens.rows,
      t.familyId = 7 ∧ t.revokedAt = none := by decide +kernel
  obtain ⟨c₀, l₀, hl, -, hl₀⟩ := List.map_eq_cons_iff.mp hlog
  obtain ⟨c, l', rfl, hrequest, -⟩ := List.map_eq_cons_iff.mp hl₀
  obtain ⟨t, ht, hhash, hfamily⟩ := htoken
  obtain ⟨t', ht', hfamily', hunrevoked⟩ := hlive
  have hrevoked := (h [c₀] c l' "first" hl hrequest t ht hhash).1 t' ht' (hfamily'.trans hfamily.symm)
  rw [hunrevoked] at hrevoked
  cases hrevoked

end PveMaster.Accounts
