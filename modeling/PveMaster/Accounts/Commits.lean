import PveMaster.Accounts.Invariant

/-! Every commit of an account request is legal.

`Obeys` is what a program owes from a point on, whatever others commit in between
(`Rely`). There is a rule for each statement and for each of the queries the services
share, and each request follows by going through its program. -/
namespace PveMaster.Accounts
open Prog AuthProg

variable {sec : Security} {condition : AuthRequest → Flush → Db → Prop} {x : Nat}
  {θ : Transaction AuthRequest Answer} {s s' s'' : Store Db Row Flush AuthRequest} {α β : Type}

/-- What others may do to the state between two statements of a transaction. -/
def Rely (sec : Security) (condition : AuthRequest → Flush → Db → Prop) (x : Nat)
    (s s' : Store Db Row Flush AuthRequest) : Prop :=
  ((rules sec condition).contract x : Contract AuthOp (Transaction AuthRequest Answer) _ Draws).rely s s'

namespace Rely

theorem refl : Rely sec condition x s s :=
  (((rules_lawful sec condition).closed x) : Contract.Closed
    ((rules sec condition).contract x : Contract AuthOp (Transaction AuthRequest Answer) _ Draws)).refl s

theorem trans (h : Rely sec condition x s s') (h' : Rely sec condition x s' s'') : Rely sec condition x s s'' :=
  (((rules_lawful sec condition).closed x) : Contract.Closed
    ((rules sec condition).contract x : Contract AuthOp (Transaction AuthRequest Answer) _ Draws)).trans s s' s'' h h'

/-- Locks are not lost: a row stays with its holder, whatever others commit. -/
theorem holds (h : Rely sec condition x s s') {row : Row} (hrow : s.holder row = some x) :
    s'.holder row = some x := (h.1 row hrow).1

/-- A row that is locked stays as it was read. -/
theorem same (h : Rely sec condition x s s') {row : Row} (hrow : s.holder row = some x) :
    Same row s.db s'.db := (h.1 row hrow).2

theorem grows (h : Rely sec condition x s s') : Grows s.db s'.db := later_grows h.2

end Rely

/-- What a program owes. -/
abbrev Obeys (sec : Security) (condition : AuthRequest → Flush → Db → Prop)
    (θ : Transaction AuthRequest Answer) (s : Store Db Row Flush AuthRequest) (p : AuthProg α) : Prop :=
  wp (accounts sec).machine ((rules sec condition).contract θ.xid) p (fun _ _ _ => True) θ s

/-! ### Statements -/

theorem obeys_read {q : Db → α} {f : α → AuthProg β}
    (h : ∀ s', Rely sec condition θ.xid s s' → Sound s'.db → Obeys sec condition θ s' (f (q s'.db))) :
    Obeys sec condition θ s (AuthProg.read q >>= f) :=
  wp_read (rules_lawful sec condition) fun _ s' hr hs => h s' hr hs

theorem obeys_now {f : Instant → AuthProg β}
    (h : ∀ now s', Rely sec condition θ.xid s s' → Sound s'.db → Obeys sec condition θ s' (f now)) :
    Obeys sec condition θ s (now >>= f) :=
  obeys_read fun s' hr hs => h s'.db.clock s' hr hs

theorem obeys_call {c : AuthCall} {q : Draws → α} {f : α → AuthProg β}
    (h : ∀ d s', Rely sec condition θ.xid s s' → Sound s'.db → Obeys sec condition θ s' (f (q d))) :
    Obeys sec condition θ s (call c q >>= f) :=
  wp_call (rules_lawful sec condition) h

theorem obeys_draw {f : Draws → AuthProg β}
    (h : ∀ d s', Rely sec condition θ.xid s s' → Sound s'.db → Obeys sec condition θ s' (f d)) :
    Obeys sec condition θ s (draw >>= f) := obeys_call h

theorem obeys_lock {row : Row} {wanted : Db → Bool} {q : Db → α} {f : α → AuthProg β}
    (h : ∀ s', Rely sec condition θ.xid s s' → Sound s'.db → (wanted s'.db = true → s'.holder row = some θ.xid) →
      Obeys sec condition θ s' (f (q s'.db))) : Obeys sec condition θ s (lock row wanted q >>= f) :=
  wp_lock (rules_lawful sec condition) h

/-- The rule of a commit: it has to be legal in the database as it is by then, with every row it
writes locked. -/
theorem obeys_commit {w : Flush} {f : Unit → AuthProg β}
    (h : ∀ s', Rely sec condition θ.xid s s' → Sound s'.db →
      Legal sec s'.db θ.request w ∧ Holds s' θ.xid w)
    (hf : ∀ s', Obeys sec condition θ s' (f ())) : Obeys sec condition θ s (commit w >>= f) :=
  wp_commit (rules_lawful sec condition) fun s' hr hs hfits =>
    ⟨fun _ happly => ⟨commits_of_holds (h s' hr hs).1 hfits (h s' hr hs).2 hs happly, hf _⟩, fun _ _ => trivial⟩

theorem obeys_ofExcept {r : Except Exn α} {f : α → AuthProg β} (h : ∀ a, r = .ok a → Obeys sec condition θ s (f a)) :
    Obeys sec condition θ s (ofExcept r >>= f) := by
  cases r with
  | ok a => exact h a rfl
  | error e => trivial

/-! ### Queries -/

/-- The principal of a request is read without a lock, so nothing follows from it about what is
committed later. -/
theorem obeys_principal {claims : AccessClaims} {f : Principal → AuthProg β}
    (h : ∀ principal s', principal.userId = claims.userId → Rely sec condition θ.xid s s' → Sound s'.db →
      Obeys sec condition θ s' (f principal)) : Obeys sec condition θ s (getCurrentPrincipal claims >>= f) := by
  unfold getCurrentPrincipal
  rw [bind_assoc]
  refine obeys_read fun s' hr hs => obeys_ofExcept fun principal hp => h principal s' ?_ hr hs
  unfold authenticate principalOf at hp
  split at hp
  · cases hp
  · next user huser =>
    split at hp
    · cases hp
    · cases hp
      exact Table.get?_key huser

theorem obeys_selectUser {userId : Uuid} {f : Option User → AuthProg β}
    (h : ∀ s', Rely sec condition θ.xid s s' → Sound s'.db →
      (∀ user, s'.db.users.get? userId = some user → s'.holder (.user userId) = some θ.xid) →
        Obeys sec condition θ s' (f (s'.db.users.get? userId))) :
    Obeys sec condition θ s (selectUserForUpdate userId >>= f) :=
  obeys_lock fun s' hr hs hmine => h s' hr hs fun user hu => hmine (by rw [hu]; rfl)

/-- `_get_user` with `lock`: the row is locked and is the one that was read. -/
theorem obeys_getUser {userId : Uuid} {f : User → AuthProg β}
    (h : ∀ s' user, Rely sec condition θ.xid s s' → Sound s'.db → s'.db.users.get? user.id = some user →
      user.id = userId → user.deletedAt = none → s'.holder (.user user.id) = some θ.xid →
        Obeys sec condition θ s' (f user)) : Obeys sec condition θ s (getUser userId >>= f) := by
  unfold getUser
  rw [bind_assoc]
  refine obeys_lock fun s' hr hs hmine => obeys_ofExcept fun user huser => ?_
  rw [orRaise_ok] at huser
  have hheld := hmine (by rw [huser]; rfl)
  rw [Option.filter_eq_some_iff] at huser
  obtain ⟨hget, hpresent⟩ := huser
  have hid : user.id = userId := Table.get?_key hget
  subst hid
  exact h s' user hr hs hget rfl (Option.isNone_iff_eq_none.mp hpresent) hheld

theorem tokenWithHash_some {db : Db} {tokenHash : Digest} {t : RefreshToken}
    (h : tokenWithHash tokenHash db = some t) : db.tokens.get? t.id = some t ∧ t.tokenHash = tokenHash := by
  obtain ⟨hmem, hhash⟩ := Table.first_some h
  exact ⟨Table.get?_of_mem hmem, by simpa using hhash⟩

theorem obeys_selectToken {tokenHash : Digest} {f : Option RefreshToken → AuthProg β}
    (missing : ∀ s', Obeys sec condition θ s' (f none))
    (found : ∀ s' stored, Rely sec condition θ.xid s s' → Sound s'.db → s'.db.tokens.get? stored.id = some stored →
      stored.tokenHash = tokenHash → s'.holder (.token stored.id) = some θ.xid →
        Obeys sec condition θ s' (f (some stored))) :
    Obeys sec condition θ s (selectTokenForUpdate tokenHash >>= f) := by
  unfold selectTokenForUpdate
  rw [bind_assoc]
  refine obeys_read fun s₁ hr₁ hs₁ => ?_
  cases htoken : tokenWithHash tokenHash s₁.db with
  | none => exact missing s₁
  | some t =>
    refine obeys_lock fun s' hr hs hmine => ?_
    cases hstored : (s'.db.tokens.get? t.id).filter (fun t => t.tokenHash == tokenHash) with
    | none => exact missing s'
    | some stored =>
      obtain ⟨hget, hhash⟩ := Option.filter_eq_some_iff.mp hstored
      have hid : stored.id = t.id := Table.get?_key hget
      rw [← hid] at hget hmine
      refine found s' stored (hr₁.trans hr) hs hget (by simpa using hhash) (hmine ?_)
      simp only [Db.tokenMatches, hget, Option.any_some, hhash]

/-- The rows an update has locked, and those it has passed by. -/
structure LockedRows (sec : Security) (condition : AuthRequest → Flush → Db → Prop) (row : Uuid → Row)
    (wanted : Uuid → Db → Bool) (x : Nat) (ids locked : List Uuid)
    (s s' : Store Db Row Flush AuthRequest) : Prop where
  mine : ∀ id ∈ locked, id ∈ ids ∧ s'.holder (row id) = some x ∧ wanted id s'.db = true
  passed : ∀ id ∈ ids, id ∉ locked → ∃ s₁, Rely sec condition x s s₁ ∧ wanted id s₁.db = false ∧
    Rely sec condition x s₁ s'

/-- Locking a list of rows, in its order. By the time one is locked others may have committed, so
that each row is known at its own instant. -/
theorem obeys_lockRows {row : Uuid → Row} {wanted : Uuid → Db → Bool} {ids : List Uuid}
    (stays : ∀ id db db', Same (row id) db db' → wanted id db = true → wanted id db' = true)
    {f : List Uuid → AuthProg β} (hs : Sound s.db)
    (h : ∀ s' locked, Rely sec condition θ.xid s s' → Sound s'.db →
      LockedRows sec condition row wanted θ.xid ids locked s s' → Obeys sec condition θ s' (f locked)) :
    Obeys sec condition θ s (lockRows row wanted ids >>= f) := by
  induction ids generalizing s f with
  | nil => exact h s [] .refl hs ⟨nofun, nofun⟩
  | cons id rest ih =>
    unfold lockRows
    rw [bind_assoc]
    refine obeys_lock fun s₁ hr₁ hs₁ hmine => ?_
    rw [bind_assoc]
    refine ih hs₁ fun s' others hr' hs' hothers => ?_
    show Obeys sec condition θ s' (f (if wanted id s₁.db then id :: others else others))
    refine h s' _ (hr₁.trans hr') hs' ⟨fun k hk => ?_, fun k hk hnot => ?_⟩
    · by_cases hwanted : wanted id s₁.db = true
      · rw [if_pos hwanted] at hk
        cases List.mem_cons.mp hk with
        | inl heq =>
          subst heq
          have hheld := hmine hwanted
          exact ⟨List.mem_cons_self, hr'.holds hheld, stays _ _ _ (hr'.same hheld) hwanted⟩
        | inr hmem =>
          obtain ⟨hrest, hheld, hstill⟩ := hothers.mine k hmem
          exact ⟨List.mem_cons_of_mem _ hrest, hheld, hstill⟩
      · rw [if_neg hwanted] at hk
        obtain ⟨hrest, hheld, hstill⟩ := hothers.mine k hk
        exact ⟨List.mem_cons_of_mem _ hrest, hheld, hstill⟩
    · have hpassed (hmem : k ∈ rest) (hnot : k ∉ others) : ∃ s₁, Rely sec condition θ.xid s s₁ ∧
          wanted k s₁.db = false ∧ Rely sec condition θ.xid s₁ s' := by
        obtain ⟨s₂, hbefore, hdb, hafter⟩ := hothers.passed k hmem hnot
        exact ⟨s₂, hr₁.trans hbefore, hdb, hafter⟩
      by_cases hwanted : wanted id s₁.db = true
      · rw [if_pos hwanted, List.mem_cons, not_or] at hnot
        cases List.mem_cons.mp hk with
        | inl heq => exact absurd heq hnot.1
        | inr hmem => exact hpassed hmem hnot.2
      · rw [if_neg hwanted] at hnot
        cases List.mem_cons.mp hk with
        | inl heq =>
          subst heq
          exact ⟨s₁, hr₁, Bool.not_eq_true _ ▸ hwanted, hr'⟩
        | inr hmem => exact hpassed hmem hnot

theorem tokenMatches_stays {p : RefreshToken → Bool} (id : Uuid) (db db' : Db) (h : Same (.token id) db db')
    (hm : db.tokenMatches p id = true) : db'.tokenMatches p id = true := by
  unfold Db.tokenMatches at hm ⊢
  cases hget : db.tokens.get? id with
  | none =>
    rw [hget] at hm
    cases hm
  | some t =>
    rw [hget] at hm
    rw [h t hget]
    exact hm

theorem memberMatches_stays {p : OrganizationMember → Bool} (id : Uuid) (db db' : Db) (h : Same (.member id) db db')
    (hm : db.memberMatches p id = true) : db'.memberMatches p id = true := by
  unfold Db.memberMatches at hm ⊢
  cases hget : db.members.get? id with
  | none =>
    rw [hget] at hm
    cases hm
  | some t =>
    rw [hget] at hm
    rw [h t hget]
    exact hm

theorem mem_found {p : RefreshToken → Bool} {db : Db} {d : Draws} {k : Uuid} :
    k ∈ d.order ((db.tokens.select p).map RefreshToken.id) ↔ db.tokenMatches p k = true := by
  rw [d.mem_order, List.mem_map]
  constructor
  · rintro ⟨t, ht, rfl⟩
    obtain ⟨hmem, hp⟩ := Table.mem_select.mp ht
    have hget : db.tokens.get? t.id = some t := Table.get?_of_mem hmem
    simp only [Db.tokenMatches, hget, Option.any_some, hp]
  · intro h
    obtain ⟨t, hget, hp⟩ := Option.any_eq_true _ _ |>.mp h
    exact ⟨t, Table.mem_select.mpr ⟨Table.get?_mem hget, hp⟩, Table.get?_key hget⟩

/-- The rows an update of the tokens has found and locked. -/
structure UpdatedRows (sec : Security) (condition : AuthRequest → Flush → Db → Prop) (p : RefreshToken → Bool)
    (x : Nat) (rows : List Uuid × List Uuid) (s s' : Store Db Row Flush AuthRequest) : Prop where
  mine : ∀ id ∈ rows.2, s'.holder (.token id) = some x ∧ s'.db.tokenMatches p id = true
  start : ∃ s₁, Rely sec condition x s s₁ ∧ Rely sec condition x s₁ s' ∧
    (∀ id, id ∈ rows.1 ↔ s₁.db.tokenMatches p id = true) ∧
    ∀ id ∈ rows.1, id ∉ rows.2 → ∃ s₂, Rely sec condition x s₁ s₂ ∧ s₂.db.tokenMatches p id = false ∧
      Rely sec condition x s₂ s'

theorem obeys_updateTokens {p : RefreshToken → Bool} {f : List Uuid × List Uuid → AuthProg β}
    (h : ∀ s' rows, Rely sec condition θ.xid s s' → Sound s'.db →
      UpdatedRows sec condition p θ.xid rows s s' → Obeys sec condition θ s' (f rows)) :
    Obeys sec condition θ s (updateTokens p >>= f) := by
  unfold updateTokens
  rw [bind_assoc]
  refine wp_read (rules_lawful sec condition) fun d s₁ hr₁ hs₁ => ?_
  rw [bind_assoc]
  refine obeys_lockRows tokenMatches_stays hs₁ fun s' locked hr' hs' hlocked => ?_
  exact h s' _ (Rely.trans hr₁ hr') hs' ⟨fun id hid => (hlocked.mine id hid).2,
    ⟨s₁, hr₁, hr', fun id => mem_found, hlocked.passed⟩⟩

theorem obeys_deleteMembers {userId : Uuid} {f : List Uuid → AuthProg β}
    (h : ∀ s' removed, Rely sec condition θ.xid s s' → Sound s'.db →
      (∀ id ∈ removed, s'.holder (.member id) = some θ.xid) → Obeys sec condition θ s' (f removed)) :
    Obeys sec condition θ s (deleteMembers userId >>= f) := by
  unfold deleteMembers
  rw [bind_assoc]
  refine wp_read (rules_lawful sec condition) fun d s₁ hr₁ hs₁ => ?_
  refine obeys_lockRows memberMatches_stays hs₁ fun s' locked hr' hs' hlocked => ?_
  exact h s' locked (Rely.trans hr₁ hr') hs' fun id hid => (hlocked.mine id hid).2.1

theorem matches_of_mem {p : RefreshToken → Bool} {db : Db} {t : RefreshToken} (ht : t ∈ db.tokens) (hp : p t = true) :
    db.tokenMatches p t.id = true := by
  have hget : db.tokens.get? t.id = some t := Table.get?_of_mem ht
  simp only [Db.tokenMatches, hget, Option.any_some, hp]

/-- An update under the lock of a user has reached every token of theirs that it is about. -/
theorem UpdatedRows.all {p : RefreshToken → Bool} {rows : List Uuid × List Uuid} {k : Uuid}
    (h : UpdatedRows sec condition p x rows s s') (hheld : s.holder (.user k) = some x) {t : RefreshToken}
    (ht : t ∈ s'.db.tokens) (hp : p t = true) (howner : t.userId = k) : t.id ∈ rows.2 := by
  -- the tokens of a locked user are the same all the time
  have there (s₁ : Store Db Row Flush AuthRequest) (hr : Rely sec condition x s s₁) (hr' : Rely sec condition x s₁ s') :
      s₁.db.tokenMatches p t.id = true :=
    matches_of_mem (((hr'.same (hr.holds hheld)).2 t howner).mp ht) hp
  obtain ⟨s₁, hr₁, hr₁', hfound, hothers⟩ := h.start
  by_contra hnot
  obtain ⟨s₂, hr₂, hpassed, hr₂'⟩ := hothers t.id ((hfound t.id).mpr (there s₁ hr₁ hr₁')) hnot
  rw [there s₂ (hr₁.trans hr₂) hr₂'] at hpassed
  cases hpassed

/-- The user of a token an update has locked, when the update is about one user. -/
theorem UpdatedRows.owner {p : RefreshToken → Bool} {rows : List Uuid × List Uuid} {k : Uuid}
    (h : UpdatedRows sec condition p x rows s s') (hheld : s'.holder (.user k) = some x)
    (howner : ∀ t ∈ s'.db.tokens, p t = true → t.userId = k) :
    ∀ id ∈ rows.2, s'.holder (.token id) = some x ∧
      ∀ t, s'.db.tokens.get? id = some t → s'.holder (.user t.userId) = some x := by
  intro id hid
  obtain ⟨hmine, hmatches⟩ := h.mine id hid
  refine ⟨hmine, fun t ht => ?_⟩
  unfold Db.tokenMatches at hmatches
  rw [ht] at hmatches
  rw [howner t (Table.get?_mem ht) hmatches]
  exact hheld

/-! ### Requests -/

theorem ofFamily_owner {db : Db} {stored : RefreshToken} (hs : Sound db) (hstored : stored ∈ db.tokens) :
    ∀ t ∈ db.tokens, ofFamily stored.familyId t = true → t.userId = stored.userId := by
  intro t ht hp
  simp only [ofFamily, Bool.and_eq_true, beq_iff_eq] at hp
  exact hs.families t ht stored hstored hp.1

theorem ofUser_owner {db : Db} {k : Uuid} : ∀ t ∈ db.tokens, ofUser k t = true → t.userId = k := by
  intro t _ hp
  simp only [ofUser, Bool.and_eq_true, beq_iff_eq] at hp
  exact hp.1

/-- `refresh` locks the token and its user; what it finds of either decides between a rotation,
the end of the whole family, and a refusal. -/
theorem obeys_refresh {rawToken : String} (hθ : θ.request = .refresh rawToken) :
    Obeys sec condition θ s (Accounts.refresh sec rawToken) := by
  unfold Accounts.refresh
  refine obeys_now fun now s₁ hr₁ hs₁ => obeys_selectToken (fun _ => trivial) ?_
  intro s₂ stored hr₂ hs₂ hfound₂ hhash htoken₂
  refine obeys_selectUser fun s₃ hr₃ hs₃ huser₃ => ?_
  have hfound₃ := hr₃.same htoken₂ stored hfound₂
  cases howner : (s₃.db.users.get? stored.userId).filter User.isActive with
  | none => trivial
  | some user =>
    obtain ⟨hget₃, hactive⟩ := Option.filter_eq_some_iff.mp howner
    have hheld₃ := huser₃ user hget₃
    have hid : user.id = stored.userId := Table.get?_key hget₃
    -- both rows stay as they are until the commit
    have locked (s' : Store Db Row Flush AuthRequest) (hr : Rely sec condition θ.xid s₃ s') :
        s'.db.tokens.get? stored.id = some stored ∧ s'.db.users.get? stored.userId = some user ∧
          s'.holder (.token stored.id) = some θ.xid ∧ s'.holder (.user stored.userId) = some θ.xid :=
      ⟨hr.same (hr₃.holds htoken₂) stored hfound₃, (hr.same hheld₃).1 user hget₃,
        hr.holds (hr₃.holds htoken₂), hr.holds hheld₃⟩
    have edits {s' : Store Db Row Flush AuthRequest} (hr : Rely sec condition θ.xid s₃ s') :
        s'.holder (.token stored.id) = some θ.xid ∧ ∀ t, s'.db.tokens.get? stored.id = some t →
          s'.holder (.user t.userId) = some θ.xid := by
      obtain ⟨hfound, -, htoken, huser⟩ := locked s' hr
      refine ⟨htoken, fun t ht => ?_⟩
      rw [hfound] at ht
      cases ht
      exact huser
    dsimp only
    split
    · refine obeys_updateTokens fun s₄ rows hr₄ hs₄ hrows => ?_
      refine obeys_commit (fun s₅ hr₅ hs₅ => ?_) fun _ => trivial
      have hr₃₅ := hr₄.trans hr₅
      obtain ⟨hfound, howner, htoken, huser⟩ := locked s₅ hr₃₅
      obtain ⟨hfound₄, -, -, huser₄⟩ := locked s₄ hr₄
      have hfamily₄ := ofFamily_owner hs₄ (Table.get?_mem hfound₄)
      have hmine := hrows.owner huser₄ hfamily₄
      have hstays (id : Uuid) (hmem : id ∈ rows.2) :
          s₅.db.tokenMatches (ofFamily stored.familyId) id = true :=
        tokenMatches_stays id _ _ (hr₅.same (hmine id hmem).1) (hrows.mine id hmem).2
      constructor
      · rw [hθ]
        refine .reused hfound hhash howner hactive hstays fun t ht hp => ?_
        have howns := ofFamily_owner hs₅ (Table.get?_mem hfound) t ht hp
        exact hrows.all hheld₃ (((hr₅.same huser₄).2 t howns).mp ht) hp howns
      · refine ⟨?_, ?_, fun id hmem => ⟨hr₅.holds (hmine id hmem).1, fun t ht => ?_⟩, (fun _ h => by cases h), (fun _ h => by cases h), (fun _ h => by cases h), (fun _ h => by cases h)⟩
        · intro e he
          cases he
          rw [hid]
          exact huser
        · intro e he
          cases he
          exact edits hr₃₅
        · have hp := hstays id hmem
          unfold Db.tokenMatches at hp
          rw [ht] at hp
          rw [ofFamily_owner hs₅ (Table.get?_mem hfound) t (Table.get?_mem ht) hp]
          exact huser
    · next hfresh =>
      have hfresh : stored.revokedAt = none ∧ stored.replacedById = none := by simpa using hfresh
      split
      · refine obeys_commit (fun s₄ hr₄ hs₄ => ?_) fun _ => trivial
        obtain ⟨hfound, -, -, -⟩ := locked s₄ hr₄
        constructor
        · rw [hθ]
          exact .expired hfound hhash
        · refine ⟨(fun _ h => by cases h), fun e he => ?_, (fun _ h => by cases h), (fun _ h => by cases h), (fun _ h => by cases h), (fun _ h => by cases h), (fun _ h => by cases h)⟩
          cases he
          exact edits hr₄
      · refine obeys_draw fun d s₄ hr₄ hs₄ => ?_
        refine obeys_commit (fun s₅ hr₅ hs₅ => ?_) fun _ => trivial
        have hr₃₅ := hr₄.trans hr₅
        obtain ⟨hfound, howner, -, huser⟩ := locked s₅ hr₃₅
        constructor
        · rw [hθ]
          exact .rotated hfound hhash howner hactive hfresh.1 hfresh.2
        · refine ⟨(fun _ h => by cases h), fun e he => ?_, (fun _ h => by cases h), fun t ht => ?_, (fun _ h => by cases h), (fun _ h => by cases h), (fun _ h => by cases h)⟩
          · cases he
            exact edits hr₃₅
          · cases ht
            show s₅.holder (.user user.id) = some θ.xid
            rw [hid]
            exact huser

/-- A token of a family that an update of the family has passed by has been revoked. -/
theorem UpdatedRows.revoked {familyId : Uuid} {rows : List Uuid × List Uuid}
    (h : UpdatedRows sec condition (ofFamily familyId) x rows s s') :
    ∀ id ∈ rows.1, id ∉ rows.2 → ∃ t, s'.db.tokens.get? id = some t ∧ t.revokedAt.isSome = true := by
  intro id hid hnot
  obtain ⟨s₁, -, -, hfound, hothers⟩ := h.start
  obtain ⟨s₂, hr₂, hpassed, hr₂'⟩ := hothers id hid hnot
  obtain ⟨t₁, hget₁, hp₁⟩ := Option.any_eq_true _ _ |>.mp ((hfound id).mp hid)
  obtain ⟨t₂, hget₂, hfixed, -⟩ := hr₂.grows.tokens id t₁ hget₁
  have hfamily : t₂.familyId = t₁.familyId := congrArg (·.2.2.1) hfixed
  have hrevoked : t₂.revokedAt.isSome = true := by
    simp only [Db.tokenMatches, hget₂, Option.any_some, ofFamily, hfamily] at hpassed
    simp only [ofFamily, Bool.and_eq_true] at hp₁
    rw [hp₁.1, Bool.true_and] at hpassed
    simpa using hpassed
  obtain ⟨t', hget', -, hstays⟩ := hr₂'.grows.tokens id t₂ hget₂
  exact ⟨t', hget', hstays hrevoked⟩

/-- `logout` revokes what its `UPDATE` has found. A token that was rotated meanwhile is the gap,
and the condition is about that. -/
theorem obeys_logout {rawToken : String} (hθ : θ.request = .logout rawToken) :
    Obeys sec condition θ s (Accounts.logout sec rawToken) := by
  unfold Accounts.logout
  refine obeys_now fun now s₁ hr₁ hs₁ => obeys_read fun s₂ hr₂ hs₂ => ?_
  cases htoken : tokenWithHash (sec.hashRefreshSecret rawToken) s₂.db with
  | none => trivial
  | some stored =>
    obtain ⟨hget₂, hhash⟩ := tokenWithHash_some htoken
    refine obeys_read fun s₃ hr₃ hs₃ => obeys_updateTokens fun s₄ rows hr₄ hs₄ hrows => ?_
    have hknown : (s₃.db.users.get? stored.userId).isSome = true :=
      hr₃.grows.users _ (hs₂.owner stored (Table.get?_mem hget₂))
    cases huser : s₃.db.users.get? stored.userId with
    | none =>
      rw [huser] at hknown
      cases hknown
    | some user =>
      have hid : user.id = stored.userId := Table.get?_key huser
      refine obeys_selectUser fun s₅ hr₅ hs₅ hheld₅ => ?_
      refine obeys_commit (fun s₆ hr₆ hs₆ => ?_) fun _ => trivial
      have hr₄₆ := hr₅.trans hr₆
      obtain ⟨t, hget, hfixed, -⟩ := ((hr₃.trans hr₄).trans hr₄₆).grows.tokens _ _ hget₂
      have huserId : t.userId = stored.userId := congrArg (·.2.1) hfixed
      have hfamily : t.familyId = stored.familyId := congrArg (·.2.2.1) hfixed
      have hheld : s₆.holder (.user user.id) = some θ.xid := by
        have hsome : (s₅.db.users.get? user.id).isSome = true := by
          rw [hid]
          exact (hr₄.trans hr₅).grows.users _ hknown
        obtain ⟨u, hu⟩ := Option.isSome_iff_exists.mp hsome
        exact hr₆.holds (hheld₅ u hu)
      have hmatches (id : Uuid) (hmem : id ∈ rows.2) : s₆.db.tokenMatches (ofFamily stored.familyId) id = true :=
        tokenMatches_stays id _ _ (hr₄₆.same (hrows.mine id hmem).1) (hrows.mine id hmem).2
      constructor
      · rw [hθ]
        refine .loggedOut hget hfixed hhash hid hmatches fun id hmem hnot => ?_
        obtain ⟨q, hq, hrevoked⟩ := hrows.revoked id hmem hnot
        obtain ⟨q', hq', -, hstays⟩ := hr₄₆.grows.tokens id q hq
        exact ⟨q', hq', hstays hrevoked⟩
      · refine ⟨?_, (fun _ h => by cases h), fun id hmem => ⟨hr₄₆.holds (hrows.mine id hmem).1, fun q hq => ?_⟩,
          (fun _ h => by cases h), (fun _ h => by cases h), (fun _ h => by cases h), (fun _ h => by cases h)⟩
        · intro e he
          cases he
          exact hheld
        · obtain ⟨q', hq', hp⟩ := Option.any_eq_true _ _ |>.mp (hmatches id hmem)
          rw [hq] at hq'
          cases hq'
          rw [← hfamily] at hp
          rw [ofFamily_owner hs₆ (Table.get?_mem hget) q (Table.get?_mem hq) hp, huserId, ← hid]
          exact hheld

/-! The login locks the throttle row of its key, if there is one, and the user at its end. -/

theorem recordFailure_update {throttle : Option LoginThrottle} {keyHash : Digest} {now : Instant} {t : LoginThrottle}
    (h : (recordFailure sec throttle keyHash now).1 = .update t) : ∃ q, throttle = some q ∧ t.keyHash = q.keyHash := by
  cases throttle with
  | none => cases h
  | some q =>
    refine ⟨q, rfl, ?_⟩
    have ht : t = _ := (ThrottleEdit.update.inj h).symm
    rw [ht]
    dsimp only
    split <;> split <;> rfl

theorem recordFailure_delete {throttle : Option LoginThrottle} {keyHash : Digest} {now : Instant} {k : Digest} :
    (recordFailure sec throttle keyHash now).1 ≠ .delete k := by
  cases throttle with
  | none => exact fun h => by cases h
  | some q => exact fun h => by cases h

theorem obeys_verified {user : Option User} {password : String} {f : Bool → AuthProg β}
    (h : ∀ valid s', (valid = true → ∃ u, user = some u ∧ sec.verify u.passwordHash password = true) →
      Rely sec condition θ.xid s s' → Sound s'.db → Obeys sec condition θ s' (f valid)) :
    Obeys sec condition θ s (verified sec user password >>= f) := by
  cases user with
  | none => exact obeys_call fun _ s' hr hs => h false s' (fun hv => by cases hv) hr hs
  | some user => exact obeys_call fun _ s' hr hs => h _ s' (fun hv => ⟨user, rfl, hv⟩) hr hs

/-- `login` locks the throttle of its key, but reads the user without a lock. The token it inserts
begins a family. -/
theorem obeys_login {email password source : String} (hθ : θ.request = .login email password source) :
    Obeys sec condition θ s (Accounts.login sec email password source) := by
  unfold Accounts.login
  refine obeys_now fun now s₁ hr₁ hs₁ => obeys_lock fun s₂ hr₂ hs₂ hmine₂ => ?_
  have hheld₂ : ∀ t, s₂.db.throttles.get? (sec.throttleKey email source) = some t →
      s₂.holder (.throttle t.keyHash) = some θ.xid := by
    intro t ht
    have hk : t.keyHash = sec.throttleKey email source := Table.get?_key ht
    rw [hk]
    exact hmine₂ (by rw [ht]; rfl)
  generalize s₂.db.throttles.get? (sec.throttleKey email source) = throttle at hheld₂ ⊢
  split
  · refine obeys_call fun _ s₃ hr₃ hs₃ => ?_
    refine obeys_commit (fun s₄ hr₄ hs₄ => ⟨?_, ?_⟩) fun _ => trivial
    · rw [hθ]
      exact .limited
    · exact ⟨(fun _ h => by cases h), (fun _ h => by cases h), (fun _ h => by cases h), (fun _ h => by cases h),
        (fun _ h => by cases h), (fun _ h => by cases h), (fun _ h => by cases h)⟩
  refine obeys_read fun s₃ hr₃ hs₃ => obeys_verified fun valid s₄ hvalid hr₄ hs₄ => ?_
  cases haccepted : (s₃.db.users.first (fun u => u.email == email)).filter (fun u => valid && u.isActive) with
  | none =>
    dsimp only
    refine obeys_commit (fun s₅ hr₅ hs₅ => ⟨?_, ?_⟩) fun _ => trivial
    · rw [hθ]
      exact .denied
    · refine ⟨(fun _ h => by cases h), (fun _ h => by cases h), (fun _ h => by cases h), (fun _ h => by cases h),
        fun t ht => ?_, fun k hk => absurd hk recordFailure_delete, (fun _ h => by cases h)⟩
      obtain ⟨q, hq, hkey⟩ := recordFailure_update ht
      rw [hkey]
      exact ((hr₃.trans hr₄).trans hr₅).holds (hheld₂ q hq)
  | some user =>
    dsimp only
    obtain ⟨hfirst, haccepts⟩ := Option.filter_eq_some_iff.mp haccepted
    simp only [Bool.and_eq_true] at haccepts
    obtain ⟨u, hu, hverified⟩ := hvalid haccepts.1
    rw [hfirst] at hu
    cases hu
    have hknown : (s₃.db.users.get? user.id).isSome = true := by
      have hget : s₃.db.users.get? user.id = some user := Table.get?_of_mem (Table.first_some hfirst).1
      rw [hget]
      rfl
    refine obeys_draw fun d s₅ hr₅ hs₅ => obeys_selectUser fun s₆ hr₆ hs₆ hheld₆ => ?_
    refine obeys_commit (fun s₇ hr₇ hs₇ => ?_) fun _ => trivial
    have hr₃₆ := (hr₄.trans hr₅).trans hr₆
    obtain ⟨u, hu⟩ := Option.isSome_iff_exists.mp (hr₃₆.grows.users _ hknown)
    have hheld : s₇.holder (.user user.id) = some θ.xid := hr₇.holds (hheld₆ u hu)
    constructor
    · rw [hθ]
      exact .loggedIn ((hr₃₆.trans hr₇).grows.users _ hknown) hverified haccepts.2
    · refine ⟨fun e he => ?_, (fun _ h => by cases h), (fun _ h => by cases h), fun t ht => ?_, fun t ht => ?_,
        fun k hk => ?_, (fun _ h => by cases h)⟩
      · cases he
        exact hheld
      · cases ht
        exact hheld
      · cases throttle <;> cases ht
      · cases throttle with
        | none => cases hk
        | some t =>
          cases hk
          exact ((hr₃.trans hr₃₆).trans hr₇).holds (hheld₂ t rfl)

/-! The changes of a user. -/

/-- What all changes of a user have in common: the row of the user is locked, and so are the
tokens that are revoked with it. -/
theorem obeys_userWrite {user user' : User} {rows : List Uuid × List Uuid} {now : Instant} {removed : List Uuid}
    {counted : Option Nat} {audit : AuditEvent} {f : Unit → AuthProg β}
    (hcurrent : s.db.users.get? user.id = some user) (present : user.deletedAt = none)
    (hheld : s.holder (.user user.id) = some θ.xid) (edited : Edited sec user user' θ.request)
    (mine : ∀ id ∈ rows.2, s.holder (.token id) = some θ.xid ∧ s.db.tokenMatches (ofUser user.id) id = true)
    (all : user'.sessionEpoch ≠ user.sessionEpoch → ∀ t ∈ s.db.tokens, ofUser user.id t = true → t.id ∈ rows.2)
    (members : ∀ id ∈ removed, s.holder (.member id) = some θ.xid)
    (guarded : θ.request.removes user = true → ∃ n, counted = some n ∧ 1 < n)
    (hf : ∀ s', Obeys sec condition θ s' (f ())) :
    Obeys sec condition θ s (commit (userWrite ⟨user, user'⟩ rows now removed counted audit) >>= f) := by
  refine obeys_commit (fun s' hr hs => ?_) hf
  have hsame := hr.same hheld
  have hmatches (id : Uuid) (hmem : id ∈ rows.2) : s'.db.tokenMatches (ofUser user.id) id = true :=
    tokenMatches_stays id _ _ (hr.same (mine id hmem).1) (mine id hmem).2
  constructor
  · refine .changed (hsame.1 user hcurrent) present edited ⟨hmatches, fun hne t ht hp => ?_⟩ guarded
    exact all hne t ((hsame.2 t (ofUser_owner t ht hp)).mp ht) hp
  · refine ⟨?_, (fun _ h => by cases h), fun id hmem => ⟨hr.holds (mine id hmem).1, fun t ht => ?_⟩,
      (fun _ h => by cases h), (fun _ h => by cases h), (fun _ h => by cases h),
      fun id hmem => hr.holds (members id hmem)⟩
    · intro e he
      cases he
      exact hr.holds hheld
    · obtain ⟨q, hq, hp⟩ := Option.any_eq_true _ _ |>.mp (hmatches id hmem)
      rw [ht] at hq
      cases hq
      rw [ofUser_owner t (Table.get?_mem ht) hp]
      exact hr.holds hheld

/-- `_revoke_sessions`, as part of a change of a user. -/
theorem obeys_endSessions {user user' : User} {now : Instant} {removed : List Uuid} {counted : Option Nat}
    {audit : AuditEvent} {f : Unit → AuthProg β} (hcurrent : s.db.users.get? user.id = some user)
    (present : user.deletedAt = none) (hheld : s.holder (.user user.id) = some θ.xid)
    (edited : Edited sec user user' θ.request) (members : ∀ id ∈ removed, s.holder (.member id) = some θ.xid)
    (guarded : θ.request.removes user = true → ∃ n, counted = some n ∧ 1 < n)
    (hf : ∀ s', Obeys sec condition θ s' (f ())) :
    Obeys sec condition θ s (updateTokens (ofUser user.id) >>= fun rows =>
      commit (userWrite ⟨user, user'⟩ rows now removed counted audit) >>= f) := by
  refine obeys_updateTokens fun s' rows hr hs hrows => ?_
  refine obeys_userWrite ((hr.same hheld).1 user hcurrent) present (hr.holds hheld) edited hrows.mine ?_
    (fun id hmem => hr.holds (members id hmem)) guarded hf
  exact fun _ t ht hp => hrows.all hheld ht hp (ofUser_owner t ht hp)

theorem obeys_changePassword {claims : AccessClaims} {current new : String}
    (hθ : θ.request = .changePassword claims current new) :
    Obeys sec condition θ s (Accounts.changePassword sec claims current new) := by
  unfold Accounts.changePassword
  refine obeys_principal fun principal s₁ hprincipal hr₁ hs₁ => ?_
  refine obeys_getUser fun s₂ user hr₂ hs₂ hcurrent hid hpresent hheld => ?_
  refine obeys_call fun _ s₃ hr₃ hs₃ => obeys_ofExcept fun _ hvalid => ?_
  refine obeys_draw fun d s₄ hr₄ hs₄ => obeys_now fun now s₅ hr₅ hs₅ => ?_
  have hr := (hr₃.trans hr₄).trans hr₅
  refine obeys_endSessions ((hr.same hheld).1 user hcurrent) hpresent (hr.holds hheld) ?_ (fun _ h => by cases h) ?_
    fun _ => trivial
  · rw [hθ]
    exact ⟨hid.trans hprincipal, by simpa using hvalid, d.salt, rfl⟩
  · rw [hθ]
    exact fun h => by cases h

theorem obeys_resetPassword {claims : AccessClaims} {userId : Uuid} {new : String}
    (hθ : θ.request = .resetPassword claims userId new) :
    Obeys sec condition θ s (Accounts.resetPassword sec claims userId new) := by
  unfold Accounts.resetPassword
  refine obeys_principal fun principal s₁ hprincipal hr₁ hs₁ => obeys_ofExcept fun _ _ => ?_
  refine obeys_getUser fun s₂ user hr₂ hs₂ hcurrent hid hpresent hheld => ?_
  refine obeys_draw fun d s₃ hr₃ hs₃ => obeys_now fun now s₄ hr₄ hs₄ => ?_
  have hr := hr₃.trans hr₄
  refine obeys_endSessions ((hr.same hheld).1 user hcurrent) hpresent (hr.holds hheld) ?_ (fun _ h => by cases h) ?_
    fun _ => trivial
  · rw [hθ]
    exact ⟨hid, d.salt, rfl⟩
  · rw [hθ]
    exact fun h => by cases h

theorem obeys_guardLast {removing : Bool} {count : Db → Nat} {done : String} {f : Option Nat → AuthProg β}
    (hs : Sound s.db) (h : ∀ s' counted, (removing = true → ∃ n, counted = some n ∧ 1 < n) →
      Rely sec condition θ.xid s s' → Sound s'.db → Obeys sec condition θ s' (f counted)) :
    Obeys sec condition θ s (guardLast removing count done >>= f) := by
  cases removing with
  | false => exact h s none (fun hr => by cases hr) .refl hs
  | true =>
    unfold guardLast
    rw [if_pos rfl, bind_assoc]
    refine obeys_read fun s' hr hs' => ?_
    rw [bind_assoc]
    refine obeys_ofExcept fun _ hcount => ?_
    rw [raiseIf_ok, not_le] at hcount
    exact h s' (some (count s'.db)) (fun _ => ⟨_, rfl, hcount⟩) hr hs'

/-- `update_user`, with the guard of the last administrator before its write. -/
theorem obeys_updateUser {claims : AccessClaims} {userId : Uuid} {request : UserUpdate}
    (hθ : θ.request = .updateUser claims userId request) :
    Obeys sec condition θ s (Accounts.updateUser claims userId request) := by
  unfold Accounts.updateUser
  refine obeys_principal fun principal s₁ hprincipal hr₁ hs₁ => obeys_ofExcept fun _ _ => ?_
  refine obeys_getUser fun s₂ user hr₂ hs₂ hcurrent hid hpresent hheld => obeys_ofExcept fun _ _ => ?_
  refine obeys_guardLast hs₂ fun s₃ counted hcounted hr₃ hs₃ => ?_
  refine obeys_now fun disabled s₄ hr₄ hs₄ => obeys_now fun revoked s₅ hr₅ hs₅ => ?_
  have hr := (hr₃.trans hr₄).trans hr₅
  have hcurrent₅ := (hr.same hheld).1 user hcurrent
  have hedited : Edited sec user (request.assign user disabled) θ.request := by
    rw [hθ]
    exact ⟨hid, disabled, rfl⟩
  have hguarded : θ.request.removes user = true → ∃ n, counted = some n ∧ 1 < n := by
    rw [hθ]
    exact hcounted
  cases hactivates : request.activates user with
  | true => exact obeys_endSessions hcurrent₅ hpresent (hr.holds hheld) hedited (fun _ h => by cases h) hguarded fun _ => trivial
  | false =>
    refine obeys_userWrite hcurrent₅ hpresent (hr.holds hheld) hedited (fun _ h => by cases h) (fun hne => ?_)
      (fun _ h => by cases h) hguarded fun _ => trivial
    rw [assign_keeps hactivates] at hne
    exact absurd rfl hne

/-- `delete_user`: the memberships go with the user, and the sessions end. -/
theorem obeys_deleteUser {claims : AccessClaims} {userId : Uuid} {version : Nat}
    (hθ : θ.request = .deleteUser claims userId version) :
    Obeys sec condition θ s (Accounts.deleteUser claims userId version) := by
  unfold Accounts.deleteUser
  refine obeys_principal fun principal s₁ hprincipal hr₁ hs₁ => obeys_ofExcept fun _ _ => obeys_ofExcept fun _ _ => ?_
  refine obeys_getUser fun s₂ user hr₂ hs₂ hcurrent hid hpresent hheld => obeys_ofExcept fun _ _ => ?_
  refine obeys_guardLast hs₂ fun s₃ counted hcounted hr₃ hs₃ => obeys_now fun now s₄ hr₄ hs₄ => ?_
  refine obeys_deleteMembers fun s₅ removed hr₅ hs₅ hremoved => ?_
  have hr := (hr₃.trans hr₄).trans hr₅
  refine obeys_endSessions ((hr.same hheld).1 user hcurrent) hpresent (hr.holds hheld) ?_ hremoved ?_ fun _ => trivial
  · rw [hθ]
    exact ⟨hid, now, rfl⟩
  · rw [hθ]
    exact hcounted

/-! ### The system -/

/-- **Every request** commits legally. -/
theorem obeys_program (m : AuthRequest) (hθ : θ.request = m) : Obeys sec condition θ s (m.program sec) := by
  cases m with
  | login email password source => exact obeys_login hθ
  | refresh rawToken => exact obeys_refresh hθ
  | logout rawToken => exact obeys_logout hθ
  | changePassword claims current new => exact obeys_changePassword hθ
  | updateUser claims userId request => exact obeys_updateUser hθ
  | deleteUser claims userId version => exact obeys_deleteUser hθ
  | resetPassword claims userId new => exact obeys_resetPassword hθ

theorem accounts_crew (sec : Security) (condition : AuthRequest → Flush → Db → Prop) :
    Crew (accounts sec).machine (rules sec condition).conditions Transaction.xid (fun s => Sound s.db)
      (fun θ p s => Obeys sec condition θ s p)
      (fun x => ((rules sec condition).contract x : Contract AuthOp (Transaction AuthRequest Answer) _ Draws).guar) := by
  refine (rules_lawful sec condition).crew (fun _ _ _ _ _ _ => trivial) fun x m s _ => ?_
  have hprogram : Obeys sec condition ⟨x, m, none⟩ s (m.program sec) := obeys_program m rfl
  refine wp_bind (wp_attempt (wp_mono (fun r θ' s' _ => ?_) hprogram))
  refine wp_op fun s₁ _ d θ₁ s₂ a _ hexec => ?_
  cases hexec
  exact ⟨(rules_lawful sec condition).guar_same x s₁, trivial⟩


/-! ### Runs -/

/-- A run of account requests of some kind from a sound database, in which every commit
satisfies a condition, time passes and a login draws a new family. -/
abbrev AuthRun (sec : Security) (kind : AuthRequest → Prop) (condition : AuthRequest → Flush → Db → Prop) (db : Db)
    (actions : List AuthAction) : Prop := (accounts sec).Run (rules sec condition) kind db actions

/-- The state a run ends in, of the database alone. -/
abbrev after (sec : Security) (db : Db) (actions : List AuthAction) : Store Db Row Flush AuthRequest :=
  ((accounts sec).after db actions).shared

variable {kind : AuthRequest → Prop} {db : Db} {before rest : List AuthAction}

theorem rules_cover : (rules sec (fun m w db => kind m ∧ condition m w db)).Covers (rules sec condition) kind :=
  ⟨fun _ h => h, fun _ _ _ hkind hfits => ⟨hfits.1, hkind, hfits.2⟩, fun _ _ h => h⟩

/-- An invariant of the rows and of what has been committed so far is kept by a run if every legal
commit keeps it. -/
theorem run_keeps (run : AuthRun sec kind condition db (before ++ rest)) {J : Db → List (Committed Flush AuthRequest) → Prop}
    (commit : ∀ (c : Committed Flush AuthRequest) (db db' : Db) log, Sound db → J db log → kind c.request →
      condition c.request c.write db → Legal sec db c.request c.write → NewFamily c.write db →
        Flushed c.write db db' → J db' (log ++ [c]))
    (clock : ∀ (db : Db) clock log, J db log → J { db with clock := clock } log)
    (hJ : J (after sec db before).db (after sec db before).log) :
    J (after sec db (before ++ rest)).db (after sec db (before ++ rest)).log := by
  refine run.keeps rules_cover (accounts_crew sec _) (fun c db db' log hs hJ hchange => ?_)
    (fun db db' log _ hJ houtside => ?_) hJ
  · obtain ⟨hlegal, hnew, ⟨hkind, hcondition⟩, hflushed⟩ := hchange
    exact commit c db db' log hs hJ hkind hcondition hlegal hnew hflushed
  · obtain ⟨time, -, rfl⟩ := houtside
    exact clock db time log hJ

theorem sound_after (run : AuthRun sec kind condition db rest) : Sound (after sec db rest).db :=
  run.sound_after rules_cover (accounts_crew sec _)

end PveMaster.Accounts
