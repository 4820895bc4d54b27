import PveMaster.Provisioning.Effects

/-! Where the initial password of a request is.

Its three columns are set together and cleared together. A session writes back only what it
has changed, so once the row's are cleared no run that still holds them can set them again;
what a run may not do, before they are, is to mark `CONFIGURE_IDENTITY` or the request as
succeeded (`Licensed`). -/
namespace PveMaster.Secrets
open ProvisioningRunner

/-! ### The columns -/

/-- The password is in the row, in all three of its columns. -/
structure Sealed (r : ProvisioningRequest) : Prop where
  ciphertext : r.initialPasswordCiphertext ≠ none
  nonce : r.initialPasswordNonce ≠ none
  keyVersion : r.initialPasswordKeyVersion ≠ none

/-- It is not, in any of them. -/
structure Cleared (r : ProvisioningRequest) : Prop where
  ciphertext : r.initialPasswordCiphertext = none
  nonce : r.initialPasswordNonce = none
  keyVersion : r.initialPasswordKeyVersion = none

instance (r : ProvisioningRequest) : Decidable (Sealed r) :=
  decidable_of_iff (r.initialPasswordCiphertext ≠ none ∧ r.initialPasswordNonce ≠ none ∧
    r.initialPasswordKeyVersion ≠ none) ⟨fun h => ⟨h.1, h.2.1, h.2.2⟩, fun h => ⟨h.1, h.2, h.3⟩⟩

instance (r : ProvisioningRequest) : Decidable (Cleared r) :=
  decidable_of_iff (r.initialPasswordCiphertext = none ∧ r.initialPasswordNonce = none ∧
    r.initialPasswordKeyVersion = none) ⟨fun h => ⟨h.1, h.2.1, h.2.2⟩, fun h => ⟨h.1, h.2, h.3⟩⟩

theorem Sealed.not_cleared {r : ProvisioningRequest} (h : Sealed r) : ¬ Cleared r :=
  fun hc => h.ciphertext hc.ciphertext

/-- The columns are as in another row, so a flush writes none of them. -/
structure SameSecret (c l : ProvisioningRequest) : Prop where
  ciphertext : c.initialPasswordCiphertext = l.initialPasswordCiphertext
  nonce : c.initialPasswordNonce = l.initialPasswordNonce
  keyVersion : c.initialPasswordKeyVersion = l.initialPasswordKeyVersion

theorem SameSecret.refl (r : ProvisioningRequest) : SameSecret r r := ⟨rfl, rfl, rfl⟩

theorem SameSecret.cleared {c l : ProvisioningRequest} (h : SameSecret c l) (hl : Cleared l) : Cleared c :=
  ⟨h.ciphertext.trans hl.ciphertext, h.nonce.trans hl.nonce, h.keyVersion.trans hl.keyVersion⟩

theorem SameSecret.sealed {c l : ProvisioningRequest} (h : SameSecret c l) (hl : Sealed l) : Sealed c :=
  ⟨h.ciphertext ▸ hl.ciphertext, h.nonce ▸ hl.nonce, h.keyVersion ▸ hl.keyVersion⟩

theorem cleared_clearInitialPassword (now : Instant) (r : ProvisioningRequest) :
    Cleared (clearInitialPassword now r) := by
  unfold clearInitialPassword
  split
  · exact ⟨rfl, rfl, rfl⟩
  · next h =>
    simp only [not_or, Bool.not_eq_true, Option.isSome_eq_false_iff, Option.isNone_iff_eq_none] at h
    exact ⟨h.1, h.2.1, h.2.2⟩

/-! ### The tables -/

/-- The row of the request is there, without the password. -/
def Gone (k : Uuid) (db : Db) : Prop := ∃ r, db.requests.get? k = some r ∧ Cleared r

/-- `CONFIGURE_IDENTITY` of the request. -/
def Identifies (k : Uuid) (s : ProvisioningStep) : Prop :=
  s.provisioningRequestId = k ∧ s.stepName = .configureIdentity

instance (k : Uuid) (s : ProvisioningStep) : Decidable (Identifies k s) :=
  inferInstanceAs (Decidable (_ ∧ _))

/-- What holds of a request and its steps: a password is there only for a guest that needs one,
only until the step that hands it over has succeeded, and not after the end. -/
structure Kept (db : Db) (r : ProvisioningRequest) : Prop where
  columns : Sealed r ∧ isWindows r ∨ Cleared r
  unfinished : Sealed r → r.status.terminal = false
  unidentified : Sealed r → ∀ s ∈ db.steps, Identifies r.id s → s.status ≠ .succeeded
  planned : ∃ s ∈ db.steps, Identifies r.id s

/-- Every request is kept so, and every step belongs to one. -/
structure Guarded (db : Db) : Prop where
  kept : ∀ r ∈ db.requests, Kept db r
  owned : ∀ s ∈ db.steps, ∃ r, db.requests.get? s.provisioningRequestId = some r

/-- The columns of a step that nothing changes. -/
abbrev stepColumns (s : ProvisioningStep) : Uuid × StepName := (s.provisioningRequestId, s.stepName)

/-- What every change keeps. -/
structure Onward (db db' : Db) : Prop where
  gone : ∀ k, Gone k db → Gone k db'
  rows : Table.Keeps ProvisioningRequest.id db.requests db'.requests
  steps : Table.Keeps stepColumns db.steps db'.steps

theorem Onward.refl (db : Db) : Onward db db := ⟨fun _ h => h, .refl _ _, .refl _ _⟩

theorem Onward.trans {db db' db'' : Db} (h : Onward db db') (h' : Onward db' db'') : Onward db db'' :=
  ⟨fun k hk => h'.gone k (h.gone k hk), h.rows.trans h'.rows, h.steps.trans h'.steps⟩

/-- A row that is not cleared has the password. -/
theorem Guarded.sealed {db : Db} (h : Guarded db) {k : Uuid} {r : ProvisioningRequest}
    (hr : db.requests.get? k = some r) (hgone : ¬ Gone k db) : Sealed r ∧ isWindows r := by
  rcases (h.kept r (Table.get?_mem hr)).columns with hs | hc
  · exact hs
  · exact absurd ⟨r, hr, hc⟩ hgone

theorem Sealed.not_gone {db : Db} {k : Uuid} {r : ProvisioningRequest} (h : Sealed r)
    (hr : db.requests.get? k = some r) : ¬ Gone k db := by
  rintro ⟨r', hr', hc⟩
  rw [hr] at hr'
  cases hr'
  exact h.not_cleared hc

/-! ### The session -/

/-- How the request of a session compares with the one it loaded and with the row. -/
structure Draft (db : Db) (l c : ProvisioningRequest) : Prop where
  id : c.id = l.id
  os : isWindows l → isWindows c
  loaded : Sealed l ∧ isWindows l ∨ Cleared l ∧ Gone l.id db
  secret : SameSecret c l ∨ Cleared c
  present : ∃ r, db.requests.get? l.id = some r
  status : c.status = l.status ∨ c.status.terminal = true
  ended : l.status.terminal = true → Gone l.id db
  closing : c.status.terminal = true → Cleared c ∨ Gone l.id db

inductive Drafted (θ : ProvState) (db : Db) : Prop
  | nothing (loaded : θ.loaded.request = none) (current : θ.current.request = none)
  | row {l c : ProvisioningRequest} (loaded : θ.loaded.request = some l)
      (current : θ.current.request = some c) (own : l.id = θ.requestId) (draft : Draft db l c)

/-- What is known of a step in a session. -/
structure Seen (θ : ProvState) (db : Db) (s : ProvisioningStep) : Prop where
  stored : ∃ s', db.steps.get? s.id = some s' ∧ stepColumns s' = (θ.requestId, s.stepName)
  passed : s.stepName = .configureIdentity → s.status = .succeeded → Gone θ.requestId db

structure Knows (θ : ProvState) (db : Db) : Prop where
  request : Drafted θ db
  loaded : ∀ s ∈ θ.loaded.steps, Seen θ db s
  current : ∀ s ∈ θ.current.steps, Seen θ db s

theorem Draft.mono {db db' : Db} {l c : ProvisioningRequest} (h : Draft db l c) (ho : Onward db db') :
    Draft db' l c := by
  refine ⟨h.id, h.os, ?_, h.secret, ?_, h.status, fun hl => ho.gone _ (h.ended hl), fun hc => ?_⟩
  · exact h.loaded.imp_right fun hl => ⟨hl.1, ho.gone _ hl.2⟩
  · obtain ⟨r, hr⟩ := h.present
    obtain ⟨r', hr', -⟩ := ho.rows _ r hr
    exact ⟨r', hr'⟩
  · exact (h.closing hc).imp_right (ho.gone _)

theorem Drafted.mono {θ : ProvState} {db db' : Db} (h : Drafted θ db) (ho : Onward db db') :
    Drafted θ db' := by
  cases h with
  | nothing loaded current => exact .nothing loaded current
  | row loaded current own draft => exact .row loaded current own (draft.mono ho)

theorem Seen.mono {θ : ProvState} {db db' : Db} {s : ProvisioningStep} (h : Seen θ db s)
    (ho : Onward db db') : Seen θ db' s := by
  refine ⟨?_, fun hname hstatus => ho.gone _ (h.passed hname hstatus)⟩
  obtain ⟨s', hs', hcolumns⟩ := h.stored
  obtain ⟨s'', hs'', hkept⟩ := ho.steps _ s' hs'
  exact ⟨s'', hs'', hkept.trans hcolumns⟩

theorem Knows.mono {θ : ProvState} {db db' : Db} (h : Knows θ db) (ho : Onward db db') : Knows θ db' :=
  ⟨h.request.mono ho, fun s hs => (h.loaded s hs).mono ho, fun s hs => (h.current s hs).mono ho⟩

/-- Only the rows of a session count. -/
theorem Knows.same {θ θ' : ProvState} {db : Db} (h : Knows θ db) (hid : θ'.requestId = θ.requestId)
    (hloaded : θ'.loaded = θ.loaded) (hcurrent : θ'.current = θ.current) : Knows θ' db := by
  have hseen {s : ProvisioningStep} (hs : Seen θ db s) : Seen θ' db s := by
    refine ⟨?_, ?_⟩
    · rw [hid]
      exact hs.stored
    · rw [hid]
      exact hs.passed
  refine ⟨?_, ?_, ?_⟩
  · cases h.request with
    | nothing l c => exact .nothing (by rw [hloaded, l]) (by rw [hcurrent, c])
    | row l c own draft =>
      exact .row (by rw [hloaded, l]) (by rw [hcurrent, c]) (own.trans hid.symm) draft
  · rw [hloaded]
    exact fun s hs => hseen (h.loaded s hs)
  · rw [hcurrent]
    exact fun s hs => hseen (h.current s hs)

/-! ### Loads -/

theorem Knows.loadRequest {θ : ProvState} {db : Db} (h : Knows θ db) (hG : Guarded db) :
    Knows (loadRequest θ db) db := by
  refine ⟨?_, fun s hs => ⟨(h.loaded s hs).stored, (h.loaded s hs).passed⟩,
    fun s hs => ⟨(h.current s hs).stored, (h.current s hs).passed⟩⟩
  cases hr : db.requests.get? θ.requestId with
  | none => exact .nothing hr hr
  | some r =>
    have hid : r.id = θ.requestId := Table.get?_key hr
    have hr' : db.requests.get? r.id = some r := by
      rw [hid]
      exact hr
    have hkept := hG.kept r (Table.get?_mem hr)
    have hended (hterminal : r.status.terminal = true) : Gone r.id db := by
      rcases hkept.columns with hs | hc
      · rw [hkept.unfinished hs.1] at hterminal
        cases hterminal
      · exact ⟨r, hr', hc⟩
    refine .row hr hr hid ⟨rfl, fun h => h, ?_, Or.inl (.refl r), ⟨r, hr'⟩, Or.inl rfl, hended,
      fun ht => Or.inr (hended ht)⟩
    exact hkept.columns.imp_right fun hc => ⟨hc, r, hr', hc⟩

theorem Knows.loadSteps {θ : ProvState} {db : Db} (h : Knows θ db) (hG : Guarded db) :
    Knows (loadSteps θ db) db := by
  have hseen : ∀ s ∈ storedSteps db θ.requestId, Seen θ db s := by
    intro s hs
    obtain ⟨hmem, hreq⟩ := Table.mem_restrict.mp hs
    replace hreq : s.provisioningRequestId = θ.requestId := by simpa using hreq
    refine ⟨⟨s, Table.get?_of_mem hmem, Prod.ext hreq rfl⟩, fun hname hstatus => ?_⟩
    obtain ⟨r, hr⟩ := hG.owned s hmem
    rw [hreq] at hr
    by_contra hgone
    have hsealed := (hG.sealed hr hgone).1
    have hid : r.id = θ.requestId := Table.get?_key hr
    exact (hG.kept r (Table.get?_mem hr)).unidentified hsealed s hmem ⟨hreq.trans hid.symm, hname⟩ hstatus
  refine ⟨?_, fun s hs => ⟨(hseen s hs).stored, (hseen s hs).passed⟩,
    fun s hs => ⟨(hseen s hs).stored, (hseen s hs).passed⟩⟩
  cases h.request with
  | nothing l c => exact .nothing l c
  | row l c own draft => exact .row l c own draft

/-! ### Assignments -/

/-- What has to hold before an assignment. -/
def Licensed (θ : ProvState) (db : Db) : ProvEdit → Prop
  | .completed _ => Gone θ.requestId db
  | .stepSucceeded id .. =>
    ∀ s ∈ θ.current.steps, s.id = id → s.stepName = .configureIdentity → Gone θ.requestId db
  | _ => True

theorem onRequest_windows (settings : Settings) (e : ProvEdit) (r : ProvisioningRequest) :
    isWindows (e.onRequest settings r) ↔ isWindows r := by
  have hset (b : Bool) : (r.specSnapshot.set "node_capacity_reserved" (.bool b)).get? "os_type" =
      r.specSnapshot.get? "os_type" := Dict.get?_set_of_ne _ _ (by decide)
  have hclear (now : Instant) (r : ProvisioningRequest) :
      (clearInitialPassword now r).specSnapshot = r.specSnapshot := by
    unfold clearInitialPassword
    split <;> rfl
  unfold isWindows
  cases e with
  | nodeReserved nodeId => rw [← hset true]; exact Iff.rfl
  | capacityReleased => rw [← hset false]; exact Iff.rfl
  | passwordCleared now =>
    rw [← hclear now r]
    exact Iff.rfl
  | settled review error finished cleared =>
    show (clearInitialPassword cleared _).specSnapshot.get? _ = _ ↔ _
    rw [hclear]
  | _ => exact Iff.rfl

/-- The columns stay, or are cleared. -/
theorem onRequest_secret (settings : Settings) (e : ProvEdit) (r : ProvisioningRequest) :
    SameSecret (e.onRequest settings r) r ∨ Cleared (e.onRequest settings r) := by
  cases e with
  | passwordCleared now => exact Or.inr (cleared_clearInitialPassword now r)
  | settled review error finished cleared => exact Or.inr (cleared_clearInitialPassword cleared _)
  | _ => exact Or.inl ⟨rfl, rfl, rfl⟩

/-- A request is ended without its password, or by its completion. -/
theorem onRequest_closing (settings : Settings) (e : ProvEdit) (r : ProvisioningRequest)
    (h : (e.onRequest settings r).status.terminal = true) : r.status.terminal = true ∨
      Cleared (e.onRequest settings r) ∨ ∃ finished, e = .completed finished := by
  cases e with
  | passwordCleared now => exact Or.inr (Or.inl (cleared_clearInitialPassword now r))
  | settled review error finished cleared => exact Or.inr (Or.inl (cleared_clearInitialPassword cleared _))
  | completed finished => exact Or.inr (Or.inr ⟨finished, rfl⟩)
  | _ => exact Or.inl h

theorem Draft.edit {db : Db} {l c : ProvisioningRequest} (h : Draft db l c) (settings : Settings)
    {e : ProvEdit} (licensed : ∀ finished, e = .completed finished → Gone l.id db) :
    Draft db l (e.onRequest settings c) where
  id := (onRequest_id settings e c).trans h.id
  os hl := (onRequest_windows settings e c).mpr (h.os hl)
  loaded := h.loaded
  secret := by
    rcases onRequest_secret settings e c with he | he
    · rcases h.secret with hc | hc
      · exact Or.inl ⟨he.ciphertext.trans hc.ciphertext, he.nonce.trans hc.nonce,
          he.keyVersion.trans hc.keyVersion⟩
      · exact Or.inr (he.cleared hc)
    · exact Or.inr he
  present := h.present
  status := by
    rcases onRequest_status settings e c with he | he
    · rw [he]
      exact h.status
    · exact Or.inr he
  ended := h.ended
  closing ht := by
    rcases onRequest_closing settings e c ht with hc | hc | ⟨finished, he⟩
    · rcases h.closing hc with hcleared | hgone
      · rcases onRequest_secret settings e c with he | he
        · exact Or.inl (he.cleared hcleared)
        · exact Or.inl he
      · exact Or.inr hgone
    · exact Or.inl hc
    · exact Or.inr (licensed finished he)

theorem onStep_columns (e : ProvEdit) (s : ProvisioningStep) :
    (e.onStep s).id = s.id ∧ (e.onStep s).stepName = s.stepName := by
  unfold ProvEdit.onStep
  split
  case h_5 => exact ⟨rfl, rfl⟩
  all_goals split <;> exact ⟨rfl, rfl⟩

/-- A step succeeds by one assignment. -/
theorem onStep_succeeded (e : ProvEdit) (s : ProvisioningStep) (h : (e.onStep s).status = .succeeded) :
    s.status = .succeeded ∨ ∃ result finished touched, e = .stepSucceeded s.id result finished touched := by
  unfold ProvEdit.onStep at h
  split at h
  · split at h
    · cases h
    · exact Or.inl h
  · next id result finished touched =>
    split at h
    · next hid =>
      right
      refine ⟨result, finished, touched, ?_⟩
      rw [hid]
    · exact Or.inl h
  · split at h
    · cases h
    · exact Or.inl h
  · split at h
    · exact Or.inl h
    · exact Or.inl h
  · exact Or.inl h

theorem Knows.assign {θ : ProvState} {db : Db} (h : Knows θ db) (settings : Settings) {e : ProvEdit}
    (licensed : Licensed θ db e) : Knows (θ.assign settings e) db := by
  refine ⟨?_, fun s hs => ⟨(h.loaded s hs).stored, (h.loaded s hs).passed⟩, fun s hs => ?_⟩
  · cases h.request with
    | nothing l c =>
      refine .nothing l ?_
      show θ.current.request.map _ = none
      rw [c]
      rfl
    | @row l c loaded current own draft =>
      refine .row (c := e.onRequest settings c) loaded ?_ own (draft.edit settings fun finished he => ?_)
      · show θ.current.request.map _ = _
        rw [current]
        rfl
      · rw [he] at licensed
        rw [own]
        exact licensed
  · obtain ⟨s₀, hs₀, rfl⟩ := (Table.mem_each fun s => (onStep_columns e s).1).mp hs
    have hseen := h.current s₀ hs₀
    obtain ⟨hid, hname⟩ := onStep_columns e s₀
    refine ⟨?_, fun hidentity hstatus => ?_⟩
    · rw [hid, hname]
      exact hseen.stored
    · rw [hname] at hidentity
      rcases onStep_succeeded e s₀ hstatus with hbefore | ⟨result, finished, touched, he⟩
      · exact hseen.passed hidentity hbefore
      · rw [he] at licensed
        exact licensed s₀ hs₀ rfl hidentity

/-! ### Commits -/

section Merge
variable {l c r : ProvisioningRequest}

/-- A column that is cleared, in the row or in the session, is cleared in what is written. -/
theorem written_none {α : Type} [DecidableEq α] {loaded current stored : Option α}
    (h : current = loaded ∧ stored = none ∨ current = none ∧ (stored = none ∨ loaded ≠ none)) :
    written loaded current stored = none := by
  unfold written
  rcases h with ⟨hsame, hstored⟩ | ⟨hcurrent, hstored⟩
  · rw [if_pos hsame]
    exact hstored
  · split
    · next hsame =>
      rcases hstored with hstored | hloaded
      · exact hstored
      · exact absurd (hsame.symm.trans hcurrent) hloaded
    · exact hcurrent

/-- Over a cleared row nothing sets the columns. -/
theorem merge_cleared_row (hsecret : SameSecret c l ∨ Cleared c) (hr : Cleared r) :
    Cleared (ProvisioningRequest.merge l c r) := by
  rcases hsecret with h | h
  · exact ⟨written_none (Or.inl ⟨h.ciphertext, hr.ciphertext⟩),
      written_none (Or.inl ⟨h.nonce, hr.nonce⟩), written_none (Or.inl ⟨h.keyVersion, hr.keyVersion⟩)⟩
  · exact ⟨written_none (Or.inr ⟨h.ciphertext, Or.inl hr.ciphertext⟩),
      written_none (Or.inr ⟨h.nonce, Or.inl hr.nonce⟩),
      written_none (Or.inr ⟨h.keyVersion, Or.inl hr.keyVersion⟩)⟩

/-- A session that has cleared the columns it loaded clears the row's. -/
theorem merge_clears (hc : Cleared c) (hl : Sealed l) : Cleared (ProvisioningRequest.merge l c r) :=
  ⟨written_none (Or.inr ⟨hc.ciphertext, Or.inr hl.ciphertext⟩),
    written_none (Or.inr ⟨hc.nonce, Or.inr hl.nonce⟩),
    written_none (Or.inr ⟨hc.keyVersion, Or.inr hl.keyVersion⟩)⟩

/-- One that has not leaves them. -/
theorem merge_sameSecret (h : SameSecret c l) : SameSecret (ProvisioningRequest.merge l c r) r := by
  refine ⟨?_, ?_, ?_⟩
  · show written l.initialPasswordCiphertext c.initialPasswordCiphertext _ = _
    rw [h.ciphertext]
    exact if_pos rfl
  · show written l.initialPasswordNonce c.initialPasswordNonce _ = _
    rw [h.nonce]
    exact if_pos rfl
  · show written l.initialPasswordKeyVersion c.initialPasswordKeyVersion _ = _
    rw [h.keyVersion]
    exact if_pos rfl

theorem merge_windows (hc : isWindows c) (hr : isWindows r) :
    isWindows (ProvisioningRequest.merge l c r) := by
  show (written l.specSnapshot c.specSnapshot r.specSnapshot).get? _ = _
  unfold written
  split
  · exact hr
  · exact hc

theorem merge_unfinished (hstatus : c.status = l.status ∨ c.status.terminal = true)
    (hopen : c.status.terminal = true → False) (hr : r.status.terminal = false) :
    (ProvisioningRequest.merge l c r).status.terminal = false := by
  show (written l.status c.status r.status).terminal = false
  unfold written
  split
  · exact hr
  · next hne =>
    rcases hstatus with h | h
    · exact absurd h hne
    · exact absurd h (by simpa using hopen)

end Merge

section Commit
variable {θ : ProvState} {db : Db}

/-- What a commit makes of the request's own row. -/
inductive Rewrites (θ : ProvState) (db : Db) : Prop
  | nothing (loaded : θ.loaded.request = none) (current : θ.current.request = none)
      (requests : (θ.flush db).requests = db.requests)
  | row {l c r : ProvisioningRequest} (loaded : θ.loaded.request = some l)
      (current : θ.current.request = some c) (own : l.id = θ.requestId) (draft : Draft db l c)
      (stored : db.requests.get? l.id = some r)
      (rewritten : (θ.flush db).requests.get? l.id = some (ProvisioningRequest.merge l c r))
      (others : ∀ k, k ≠ l.id → (θ.flush db).requests.get? k = db.requests.get? k)

theorem rewrites (h : Knows θ db) : Rewrites θ db := by
  cases h.request with
  | nothing loaded current =>
    refine .nothing loaded current ?_
    show θ.flushRequests db.requests = _
    unfold ProvState.flushRequests
    rw [loaded]
  | @row l c loaded current own draft =>
    obtain ⟨r, hr⟩ := draft.present
    have hflush := flush_request θ db
    rw [loaded, current] at hflush
    refine .row loaded current own draft hr ?_ fun k hk => ?_
    · rw [hflush l.id]
      simp only [if_true, hr, Option.map_some]
    · rw [hflush k]
      simp only [if_neg (Ne.symm hk)]

theorem flush_gone (h : Knows θ db) (k : Uuid) (hgone : Gone k db) : Gone k (θ.flush db) := by
  obtain ⟨q, hq, hcleared⟩ := hgone
  cases rewrites h with
  | nothing _ _ requests => exact ⟨q, by rw [requests]; exact hq, hcleared⟩
  | @row l c r loaded current own draft stored rewritten others =>
    by_cases hk : k = l.id
    · rw [hk] at hq ⊢
      rw [stored] at hq
      cases hq
      exact ⟨_, rewritten, merge_cleared_row draft.secret hcleared⟩
    · exact ⟨q, by rw [others k hk]; exact hq, hcleared⟩

theorem flush_rows (h : Knows θ db) :
    Table.Keeps ProvisioningRequest.id db.requests (θ.flush db).requests := by
  intro k q hq
  cases rewrites h with
  | nothing _ _ requests => exact ⟨q, by rw [requests]; exact hq, rfl⟩
  | @row l c r loaded current own draft stored rewritten others =>
    by_cases hk : k = l.id
    · rw [hk] at hq ⊢
      rw [stored] at hq
      cases hq
      exact ⟨_, rewritten, rfl⟩
    · exact ⟨q, by rw [others k hk]; exact hq, rfl⟩

theorem flushStep_id (θ : ProvState) (s : ProvisioningStep) : (θ.flushStep s).id = s.id := by
  unfold ProvState.flushStep
  split <;> rfl

theorem flushStep_columns (θ : ProvState) (s : ProvisioningStep) :
    stepColumns (θ.flushStep s) = stepColumns s := by
  unfold ProvState.flushStep
  split <;> rfl

theorem flush_steps (θ : ProvState) (db : Db) : Table.Keeps stepColumns db.steps (θ.flush db).steps := by
  intro k s hs
  refine ⟨θ.flushStep s, ?_, flushStep_columns θ s⟩
  show (db.steps.each θ.flushStep).get? k = _
  rw [Table.get?_each _ (flushStep_id θ), hs]
  rfl

/-- A step that a commit marks as succeeded is one the session has seen succeed. -/
theorem flushStep_succeeded (h : Knows θ db) {s : ProvisioningStep} (hs : s ∈ db.steps)
    (hidentity : s.stepName = .configureIdentity) (hstatus : (θ.flushStep s).status = .succeeded) :
    s.status = .succeeded ∨ s.provisioningRequestId = θ.requestId ∧ Gone θ.requestId db := by
  unfold ProvState.flushStep at hstatus
  split at hstatus
  · next l c hl hc =>
    replace hstatus : written l.status c.status s.status = .succeeded := hstatus
    unfold written at hstatus
    split at hstatus
    · exact Or.inl hstatus
    · right
      have hseen := h.current c (Table.get?_mem hc)
      have hid : c.id = s.id := Table.get?_key hc
      obtain ⟨s', hs', hcolumns⟩ := hseen.stored
      rw [hid, show db.steps.get? s.id = some s from Table.get?_of_mem hs] at hs'
      cases hs'
      obtain ⟨hreq, hname⟩ := Prod.mk.inj hcolumns
      exact ⟨hreq, hseen.passed (hname.symm.trans hidentity) hstatus⟩
  · exact Or.inl hstatus

/-- A request whose row and steps a commit leaves, or marks as the session may. -/
theorem flush_unidentified (h : Knows θ db) {k : Uuid} (hgone : ¬ Gone k db)
    (hbefore : ∀ s ∈ db.steps, Identifies k s → s.status ≠ .succeeded) :
    ∀ s ∈ (θ.flush db).steps, Identifies k s → s.status ≠ .succeeded := by
  intro s' hs' hidentifies hstatus
  obtain ⟨s, hs, rfl⟩ := (Table.mem_each (flushStep_id θ)).mp hs'
  obtain ⟨hreq, hname⟩ := Prod.mk.inj (flushStep_columns θ s)
  have hidentity : Identifies k s := ⟨hreq.symm.trans hidentifies.1, hname.symm.trans hidentifies.2⟩
  rcases flushStep_succeeded h hs hidentity.2 hstatus with hsucceeded | ⟨hown, hgone'⟩
  · exact hbefore s hs hidentity hsucceeded
  · rw [← hown, hidentity.1] at hgone'
    exact hgone hgone'

theorem flush_planned {k : Uuid} (h : ∃ s ∈ db.steps, Identifies k s) :
    ∃ s ∈ (θ.flush db).steps, Identifies k s := by
  obtain ⟨s, hs, hidentifies⟩ := h
  obtain ⟨s', hs', hcolumns⟩ := flush_steps θ db _ s (Table.get?_of_mem hs)
  obtain ⟨hreq, hname⟩ := Prod.mk.inj hcolumns
  exact ⟨s', Table.get?_mem hs', hreq.trans hidentifies.1, hname.trans hidentifies.2⟩

theorem flush_owned (h : Knows θ db)
    (howned : ∀ s ∈ db.steps, ∃ r, db.requests.get? s.provisioningRequestId = some r) :
    ∀ s ∈ (θ.flush db).steps, ∃ r, (θ.flush db).requests.get? s.provisioningRequestId = some r := by
  intro s' hs'
  obtain ⟨s, hs, rfl⟩ := (Table.mem_each (flushStep_id θ)).mp hs'
  obtain ⟨r, hr⟩ := howned s hs
  obtain ⟨r', hr', -⟩ := flush_rows h _ r hr
  rw [(Prod.mk.inj (flushStep_columns θ s)).1]
  exact ⟨r', hr'⟩

/-- **A commit** keeps what holds of every request. -/
theorem flush_guarded (h : Knows θ db) (hG : Guarded db) : Guarded (θ.flush db) := by
  refine ⟨fun m hm => ?_, flush_owned h hG.owned⟩
  have hget : (θ.flush db).requests.get? m.id = some m := Table.get?_of_mem hm
  have other (hbefore : db.requests.get? m.id = some m) : Kept (θ.flush db) m := by
    have hkept := hG.kept m (Table.get?_mem hbefore)
    exact ⟨hkept.columns, hkept.unfinished,
      fun hs => flush_unidentified h (hs.not_gone hbefore) (hkept.unidentified hs),
      flush_planned hkept.planned⟩
  cases rewrites h with
  | nothing _ _ requests =>
    rw [requests] at hget
    exact other hget
  | @row l c r loaded current own draft stored rewritten others =>
    by_cases hk : m.id = l.id
    · rw [hk, rewritten] at hget
      cases hget
      have hkept := hG.kept r (Table.get?_mem stored)
      have hid : r.id = l.id := Table.get?_key stored
      have hplanned : ∃ s ∈ (θ.flush db).steps, Identifies (ProvisioningRequest.merge l c r).id s :=
        flush_planned hkept.planned
      rcases hkept.columns with ⟨hsealed, hwindows⟩ | hcleared
      · have hgone : ¬ Gone l.id db := hsealed.not_gone stored
        obtain ⟨hl, hlwindows⟩ := draft.loaded.resolve_right fun hl => hgone hl.2
        rcases draft.secret with hsame | hc
        · -- the session still holds the password
          have hsame' : SameSecret (ProvisioningRequest.merge l c r) r := merge_sameSecret hsame
          have hopen (ht : c.status.terminal = true) : False := by
            rcases draft.closing ht with hc | hgone'
            · exact (hsame.sealed hl).not_cleared hc
            · exact hgone hgone'
          refine ⟨Or.inl ⟨hsame'.sealed hsealed, merge_windows (draft.os hlwindows) hwindows⟩,
            fun _ => merge_unfinished draft.status hopen (hkept.unfinished hsealed), fun _ => ?_, hplanned⟩
          show ∀ s ∈ (θ.flush db).steps, Identifies r.id s → _
          rw [hid]
          exact flush_unidentified h hgone (hid ▸ hkept.unidentified hsealed)
        · have hclears : Cleared (ProvisioningRequest.merge l c r) := merge_clears hc hl
          exact ⟨Or.inr hclears, fun hs => absurd hclears hs.not_cleared,
            fun hs => absurd hclears hs.not_cleared, hplanned⟩
      · have hclears : Cleared (ProvisioningRequest.merge l c r) := merge_cleared_row draft.secret hcleared
        exact ⟨Or.inr hclears, fun hs => absurd hclears hs.not_cleared,
          fun hs => absurd hclears hs.not_cleared, hplanned⟩
    · rw [others m.id hk] at hget
      exact other hget

theorem flush_onward (h : Knows θ db) : Onward db (θ.flush db) :=
  ⟨flush_gone h, flush_rows h, flush_steps θ db⟩

/-- A commit of a cleared session. -/
theorem flush_cleared (h : Knows θ db) {c : ProvisioningRequest}
    (hc : θ.current.request = some c) (hcleared : Cleared c) : Gone θ.requestId (θ.flush db) := by
  cases rewrites h with
  | nothing _ current =>
    rw [current] at hc
    cases hc
  | @row l c' r loaded current own draft stored rewritten others =>
    rw [current] at hc
    cases hc
    rw [← own]
    by_cases hgone : Gone l.id db
    · exact flush_gone h _ hgone
    · obtain ⟨hl, -⟩ := draft.loaded.resolve_right fun hl => hgone hl.2
      exact ⟨_, rewritten, merge_clears hcleared hl⟩

/-- After a commit the session holds what is written. -/
theorem Knows.saved (h : Knows θ db) : Knows θ.saved (θ.flush db) := by
  have honward := flush_onward h
  have hseen {s : ProvisioningStep} (hs : s ∈ θ.current.steps) : Seen θ.saved (θ.flush db) s :=
    ⟨((h.current s hs).mono honward).stored, ((h.current s hs).mono honward).passed⟩
  refine ⟨?_, fun s hs => hseen hs, fun s hs => hseen hs⟩
  cases h.request with
  | nothing _ current => exact .nothing current current
  | @row l c loaded current own draft =>
    have hid : c.id = θ.requestId := draft.id.trans own
    have hgone (hc : Cleared c) : Gone c.id (θ.flush db) := by
      rw [hid]
      exact flush_cleared h current hc
    have hended (ht : c.status.terminal = true) : Gone c.id (θ.flush db) := by
      rcases draft.closing ht with hc | hl
      · exact hgone hc
      · rw [draft.id]
        exact honward.gone _ hl
    refine .row (l := c) (c := c) current current hid ⟨rfl, fun h => h, ?_, Or.inl (.refl c), ?_,
      Or.inl rfl, hended, fun ht => Or.inr (hended ht)⟩
    · rcases draft.secret with hsame | hc
      · rcases draft.loaded with ⟨hl, hwindows⟩ | ⟨hl, -⟩
        · exact Or.inl ⟨hsame.sealed hl, draft.os hwindows⟩
        · exact Or.inr ⟨hsame.cleared hl, hgone (hsame.cleared hl)⟩
      · exact Or.inr ⟨hc, hgone hc⟩
    · obtain ⟨r, hr⟩ := draft.present
      obtain ⟨r', hr', -⟩ := honward.rows _ r hr
      rw [draft.id]
      exact ⟨r', hr'⟩

end Commit

/-! ### Every operation -/

/-- An update of a request that leaves the password and the steps. -/
theorem update_kept {db : Db} {k : Uuid} {f : ProvisioningRequest → ProvisioningRequest}
    (hG : Guarded db) (hid : ∀ r, (f r).id = r.id) (hsecret : ∀ r, SameSecret (f r) r)
    (hwindows : ∀ r, isWindows r → isWindows (f r))
    (hopen : ∀ r, r.status.terminal = false → (f r).status.terminal = false) :
    Guarded { db with requests := db.requests.update k f } ∧
      Onward db { db with requests := db.requests.update k f } := by
  have hback (r : ProvisioningRequest) : SameSecret r (f r) :=
    ⟨(hsecret r).ciphertext.symm, (hsecret r).nonce.symm, (hsecret r).keyVersion.symm⟩
  have hrows : Table.Keeps ProvisioningRequest.id db.requests (db.requests.update k f) :=
    (Table.alike_update k hid).keeps
  have hkept : ∀ r ∈ db.requests.update k f, Kept db r := by
    refine Table.forall_update hG.kept fun r hr _ _ => ?_
    have hkept := hG.kept r hr
    refine ⟨hkept.columns.imp (fun h => ⟨(hsecret r).sealed h.1, hwindows r h.2⟩)
      (hsecret r).cleared, fun hs => hopen r (hkept.unfinished ((hback r).sealed hs)), ?_, ?_⟩
    · rw [hid r]
      exact fun hs => hkept.unidentified ((hback r).sealed hs)
    · rw [hid r]
      exact hkept.planned
  refine ⟨⟨fun r hr => ⟨(hkept r hr).columns, (hkept r hr).unfinished, (hkept r hr).unidentified,
    (hkept r hr).planned⟩, fun s hs => ?_⟩, fun k' ⟨r, hr, hc⟩ => ?_, hrows, .refl _ _⟩
  · obtain ⟨r, hr⟩ := hG.owned s hs
    obtain ⟨r', hr', -⟩ := hrows _ r hr
    exact ⟨r', hr'⟩
  · by_cases hk : k' = k
    · rw [hk] at hr ⊢
      exact ⟨f r, Table.get?_update_same hr (hid r), (hsecret r).cleared hc⟩
    · exact ⟨r, (Table.get?_update_of_ne f hk).trans hr, hc⟩

section Effect
variable {settings : Settings} {θ θ' : ProvState} {db db' : Db} {ρ : Type} {o : ProvOp ρ}

/-- **Every operation of a run** that is licensed leaves every request guarded. -/
theorem effect_guarded (he : ProvEffect settings θ db o θ' db')
    (licensed : ∀ e, o.edits e → Licensed θ db e) (hG : Guarded db)
    (hK : Knows θ db) : Guarded db' ∧ Onward db db' ∧ Knows θ' db' := by
  cases he with
  | assigned edits => exact ⟨hG, .refl db, hK.assign settings (licensed _ edits)⟩
  | failed edits =>
    exact ⟨hG, .refl db, (hK.assign settings (licensed _ edits)).same rfl rfl rfl⟩
  | @committed e db₁ edits commits live writes =>
    have hassigned := hK.assign settings (licensed e edits)
    have hrows : ((θ.assign settings e).flush db₁).requests = ((θ.assign settings e).flush db).requests := by
      show (θ.assign settings e).flushRequests db₁.requests = _
      rw [writes.requests]
      rfl
    have hsteps : ((θ.assign settings e).flush db₁).steps = ((θ.assign settings e).flush db).steps := by
      show db₁.steps.each _ = _
      rw [writes.steps]
      rfl
    have honward := flush_onward hassigned
    have hsame : Onward ((θ.assign settings e).flush db) ((θ.assign settings e).flush db₁) := by
      refine ⟨fun k hk => ?_, ?_, ?_⟩
      · unfold Gone
        rw [hrows]
        exact hk
      · rw [hrows]
        exact .refl _ _
      · rw [hsteps]
        exact .refl _ _
    have hguarded := flush_guarded hassigned hG
    refine ⟨⟨fun r hr => ?_, ?_⟩, honward.trans hsame, hassigned.saved.mono hsame⟩
    · rw [hrows] at hr
      have hkept := hguarded.kept r hr
      refine ⟨hkept.columns, hkept.unfinished, ?_, ?_⟩
      · rw [hsteps]
        exact hkept.unidentified
      · rw [hsteps]
        exact hkept.planned
    · rw [hsteps, hrows]
      exact hguarded.owned
  | claimed claims found claimable =>
    obtain ⟨hG', honward⟩ := update_kept (k := θ.requestId) (f := claimed settings _ θ.runnerId) hG
      (fun _ => rfl) (fun _ => ⟨rfl, rfl, rfl⟩) (fun _ h => h) (fun _ _ => rfl)
    exact ⟨hG', honward, (hK.mono honward).same rfl rfl rfl⟩
  | loaded loads => exact ⟨hG, .refl db, hK.loadRequest hG⟩
  | stepsLoaded idle => exact ⟨hG, .refl db, hK.loadSteps hG⟩
  | released idle =>
    have hreleased (r : ProvisioningRequest) : (released θ.runnerId r).id = r.id ∧
        SameSecret (released θ.runnerId r) r ∧ (released θ.runnerId r).specSnapshot = r.specSnapshot ∧
        (released θ.runnerId r).status = r.status := by
      unfold released
      split <;> exact ⟨rfl, ⟨rfl, rfl, rfl⟩, rfl, rfl⟩
    obtain ⟨hG', honward⟩ := update_kept (k := θ.requestId) (f := released θ.runnerId) hG
      (fun r => (hreleased r).1) (fun r => (hreleased r).2.1)
      (fun r h => by unfold isWindows; rw [(hreleased r).2.2.1]; exact h)
      (fun r h => by rw [(hreleased r).2.2.2]; exact h)
    exact ⟨hG', honward, (hK.mono honward).same rfl rfl rfl⟩

end Effect
end PveMaster.Secrets
