import PveMaster.Accounts.System

/-! The tables of the accounts stay sound under every commit, and a commit leaves the rows others have
locked as they are.

Soundness is what the services rely on without testing it: a token belongs to a user that exists,
hashes are unique, and the tokens of a family belong to one user and form a chain, each replaced
by the next. It is proved of one legal commit at a time; the runs follow by induction in
`Commits`. -/
namespace PveMaster.Accounts

variable {sec : Security} {condition : AuthRequest → Flush → Db → Prop} {db db' : Db} {m : AuthRequest} {w : Flush}

/-! ### Soundness -/

/-- The token a commit issues belongs to a user that is there, and to a family of theirs. -/
theorem Legal.issued (h : Legal sec db m w) {t : RefreshToken} (ht : w.issued = some t) :
    (db.users.get? t.userId).isSome = true ∧ t.replacedById = none ∧ t.revokedAt = none ∧
      (t.parentId = none ∨ ∃ q, db.tokens.get? q.id = some q ∧ t.parentId = some q.id ∧ q.revokedAt = none ∧
        q.familyId = t.familyId ∧ q.userId = t.userId) := by
  cases h with
  | loggedIn known =>
    cases ht
    exact ⟨known, rfl, rfl, .inl rfl⟩
  | @rotated _ _ user stored _ found _ owner _ unrevoked =>
    cases ht
    have hid : user.id = stored.userId := Table.get?_key owner
    refine ⟨?_, rfl, rfl, .inr ⟨stored, found, rfl, unrevoked, rfl, hid.symm⟩⟩
    show (db.users.get? user.id).isSome = true
    rw [hid, owner]
    rfl
  | limited | denied | reused | expired | loggedOut | changed => cases ht

/-- The chain of every family after a commit. -/
theorem Legal.chains (h : Legal sec db m w) (hnew : NewFamily w db) (hf : Flushed w db db') (hs : Sound db)
    (familyId : Uuid) : ∃ l, FamilyChain db' familyId l := by
  obtain ⟨l, hl⟩ := hs.chains familyId
  have kept (issued : ∀ t, w.issued = some t → t.familyId ≠ familyId)
      (next : ∀ t ∈ l, ∀ e, w.token = some e → t.id = e.loaded.id →
        e.current.replacedById = e.loaded.replacedById) : ∃ l, FamilyChain db' familyId l :=
    ⟨_, chain_kept h hf hl issued fun t ht => onToken_next (next t ht)⟩
  cases h with
  | limited | denied | loggedOut | changed => exact kept (fun _ ht => by cases ht) fun _ _ e he => by cases he
  | reused | expired =>
    refine kept (fun _ ht => by cases ht) fun _ _ e he _ => ?_
    cases he
    rfl
  | @loggedIn _ _ _ d user _ now =>
    by_cases hfamily : d.uuid 1 = familyId
    · subst hfamily
      exact ⟨_, chain_started hf hnew rfl rfl rfl⟩
    · refine kept (fun t ht => ?_) fun _ _ e he => by cases he
      cases ht
      exact hfamily
  | @rotated _ d user stored now found _ _ _ unrevoked =>
    by_cases hfamily : stored.familyId = familyId
    · subst hfamily
      exact ⟨_, chain_rotated hf hl (Table.get?_mem found) unrevoked⟩
    · refine kept (fun t ht => ?_) fun t ht e he hid => ?_
      · cases ht
        exact hfamily
      · cases he
        obtain ⟨hmem, htfamily⟩ := (hl.mem t).mp ht
        have hsame : t = stored := Table.eq_of_key hmem (Table.get?_mem found) hid
        exact absurd (hsame ▸ htfamily) hfamily

/-- **Every commit** leaves the tables sound. -/
theorem Legal.sound (h : Legal sec db m w) (hnew : NewFamily w db) (hf : Flushed w db db') (hs : Sound db) :
    Sound db' where
  owner t' ht' := by
    rw [hf.user, Option.isSome_map]
    cases hf.mem_tokens.mp ht' with
    | inl hkept =>
      obtain ⟨t, ht, rfl⟩ := hkept
      rw [w.onToken_userId]
      exact hs.owner t ht
    | inr hissued => exact (h.issued hissued).1
  hashes t ht t' ht' heq := by
    cases hf.mem_tokens.mp ht with
    | inl hkept =>
      obtain ⟨q, hq, rfl⟩ := hkept
      rw [w.onToken_tokenHash] at heq
      cases hf.mem_tokens.mp ht' with
      | inl hkept' =>
        obtain ⟨q', hq', rfl⟩ := hkept'
        rw [w.onToken_tokenHash] at heq
        rw [hs.hashes q hq q' hq' heq]
      | inr hissued => exact absurd heq (hf.issued_new hissued q hq).2
    | inr hissued =>
      cases hf.mem_tokens.mp ht' with
      | inl hkept' =>
        obtain ⟨q', hq', rfl⟩ := hkept'
        rw [w.onToken_tokenHash] at heq
        exact absurd heq.symm (hf.issued_new hissued q' hq').2
      | inr hissued' => exact Option.some.inj (hissued.symm.trans hissued')
  families := by
    -- an issued token joins the family of its parent, or starts one
    have joins (t q : RefreshToken) (ht : w.issued = some t) (hq : q ∈ db.tokens)
        (hfamily : t.familyId = q.familyId) : t.userId = q.userId := by
      obtain ⟨-, -, -, hroot | ⟨p, hp, -, -, hpfamily, hpuser⟩⟩ := h.issued ht
      · exact absurd hfamily.symm (hnew t ht hroot q hq)
      · rw [← hpuser]
        exact hs.families p (Table.get?_mem hp) q hq (hpfamily.trans hfamily)
    intro t ht t' ht' heq
    cases hf.mem_tokens.mp ht with
    | inl hkept =>
      obtain ⟨q, hq, rfl⟩ := hkept
      rw [w.onToken_familyId] at heq
      rw [w.onToken_userId]
      cases hf.mem_tokens.mp ht' with
      | inl hkept' =>
        obtain ⟨q', hq', rfl⟩ := hkept'
        rw [w.onToken_familyId] at heq
        rw [w.onToken_userId]
        exact hs.families q hq q' hq' heq
      | inr hissued => exact (joins t' q hissued hq heq.symm).symm
    | inr hissued =>
      cases hf.mem_tokens.mp ht' with
      | inl hkept' =>
        obtain ⟨q', hq', rfl⟩ := hkept'
        rw [w.onToken_familyId] at heq
        rw [w.onToken_userId]
        exact joins t q' hissued hq' heq
      | inr hissued' => rw [Option.some.inj (hissued.symm.trans hissued')]
  chains := h.chains hnew hf hs
  deleted u' hu' := by
    have hget := Table.get?_of_mem hu'
    rw [hf.user] at hget
    obtain ⟨u, hu, rfl⟩ := Option.map_eq_some_iff.mp hget
    have hmem := Table.get?_mem hu
    exact (h.user hmem).deleted (hs.deleted u hmem)

/-! ### Locked rows -/

/-- The rows a transaction has to have locked for a commit. -/
structure Holds (s : Store Db Row Flush AuthRequest) (x : Nat) (w : Flush) : Prop where
  user : ∀ e, w.user = some e → s.holder (.user e.loaded.id) = some x
  token : ∀ e, w.token = some e → s.holder (.token e.loaded.id) = some x ∧
    ∀ t, s.db.tokens.get? e.loaded.id = some t → s.holder (.user t.userId) = some x
  revoked : ∀ id ∈ w.revoked, s.holder (.token id) = some x ∧
    ∀ t, s.db.tokens.get? id = some t → s.holder (.user t.userId) = some x
  issued : ∀ t, w.issued = some t → s.holder (.user t.userId) = some x
  updated : ∀ t, w.throttle = .update t → s.holder (.throttle t.keyHash) = some x
  deleted : ∀ k, w.throttle = .delete k → s.holder (.throttle k) = some x
  removed : ∀ id ∈ w.removed, s.holder (.member id) = some x

/-- A commit leaves the rows that others have locked. -/
theorem Flushed.same {s : Store Db Row Flush AuthRequest} {x y : Nat} (hf : Flushed w s.db db')
    (hw : Holds s x w) (hne : y ≠ x) {row : Row} (hrow : s.holder row = some y) : Same row s.db db' := by
  have other {r : Row} (h : s.holder r = some x) : r ≠ row := by
    rintro rfl
    rw [hrow] at h
    exact hne (Option.some.inj h)
  have untouched {t : RefreshToken} (ht : s.db.tokens.get? t.id = some t)
      (hcovers : row = .token t.id ∨ row = .user t.userId) : w.onToken t = t := by
    have hother (h : s.holder (.token t.id) = some x)
        (howner : ∀ q, s.db.tokens.get? t.id = some q → s.holder (.user q.userId) = some x) : False := by
      cases hcovers with
      | inl hr => exact other h hr.symm
      | inr hr => exact other (howner t ht) hr.symm
    refine onToken_untouched (fun e he hid => ?_) fun hmem => ?_
    · have hheld := hw.token e he
      rw [← hid] at hheld
      exact hother hheld.1 hheld.2
    · exact hother (hw.revoked _ hmem).1 (hw.revoked _ hmem).2
  cases row with
  | user k =>
    refine ⟨fun u hu => ?_, fun t ht => ?_⟩
    · rw [hf.user, hu]
      refine congrArg some ?_
      unfold Flush.onUser
      split
      · next e he =>
        have hk : u.id = k := Table.get?_key hu
        exact if_neg fun hid => other (hw.user e he) (by rw [← hid, hk])
      · rfl
    · subst ht
      rw [hf.mem_tokens]
      constructor
      · rintro (⟨q, hq, rfl⟩ | hissued)
        · have hget := Table.get?_of_mem hq
          have hkept : w.onToken q = q := untouched hget (.inr (by rw [w.onToken_userId]))
          rw [hkept]
          exact hq
        · exact absurd rfl (other (hw.issued t hissued))
      · intro ht
        exact .inl ⟨t, ht, untouched (Table.get?_of_mem ht) (.inr rfl)⟩
  | token k =>
    intro t ht
    have hk : t.id = k := Table.get?_key ht
    subst hk
    rw [hf.token ht, untouched ht (.inl rfl)]
  | throttle k =>
    intro t ht
    have hthrottles := hf.throttles
    unfold Db.editThrottle at hthrottles
    split at hthrottles
    · rw [← Option.some.inj hthrottles]
      exact ht
    · next q hq =>
      have hnew := (Table.insert_some hthrottles).2 t (Table.get?_mem ht)
      rw [Table.get?_insert_of_ne hthrottles (fun hk => hnew ((Table.get?_key ht).trans hk))]
      exact ht
    · next q hq =>
      rw [← Option.some.inj hthrottles, Table.get?_update_of_ne]
      · exact ht
      · rintro rfl
        exact other (hw.updated q hq) rfl
    · next k' hq =>
      rw [← Option.some.inj hthrottles]
      refine Table.get?_eq_some.mpr ⟨Table.mem_restrict.mpr ⟨Table.get?_mem ht, ?_⟩, Table.get?_key ht⟩
      have hk : t.keyHash = k := Table.get?_key ht
      simp only [hk, bne_iff_ne, ne_eq]
      rintro rfl
      exact other (hw.deleted k hq) rfl
  | member k =>
    intro r hr
    rw [hf.members]
    refine Table.get?_eq_some.mpr ⟨Table.mem_restrict.mpr ⟨Table.get?_mem hr, ?_⟩, Table.get?_key hr⟩
    have hk : r.id = k := Table.get?_key hr
    simp only [hk, decide_eq_true_eq]
    exact fun hmem => other (hw.removed k hmem) rfl

/-- Only a login starts a family. -/
theorem Legal.newFamily (h : Legal sec db m w)
    (hlogin : m.isLogin = true → NewFamily w db) : NewFamily w db := by
  cases h with
  | loggedIn => exact hlogin rfl
  | rotated =>
    intro t ht hroot
    cases ht
    cases hroot
  | limited | denied | reused | expired | loggedOut | changed => exact fun t ht => by cases ht

/-- What a transaction owes for a commit, from the rows it has locked. -/
theorem commits_of_holds {s : Store Db Row Flush AuthRequest} {x : Nat} (h : Legal sec s.db m w)
    (hfits : (rules sec condition).fits m w s.db) (hw : Holds s x w) (hs : Sound s.db)
    (happly : s.db.flush w = .ok db') : (rules sec condition).Commits x m w s db' where
  others _ _ hne hrow := (flushed happly).same hw hne hrow
  change := ⟨h, h.newFamily hfits.1, hfits.2, flushed happly⟩
  sound := h.sound (h.newFamily hfits.1) (flushed happly) hs

end PveMaster.Accounts
