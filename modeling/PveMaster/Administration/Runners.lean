import PveMaster.Administration.Emptiness

/-! What a provisioning runner leaves of an organization.

A runner goes on with its request without a look at the organization. It assigns the
workload to it, and its last commit may call for a review of a request that has ended
meanwhile. -/
namespace PveMaster.Administration
open Prog

/-- What a commit assigns to the request itself. -/
def ownEdit {ρ : Type} : ProvOp ρ → ProvEdit
  | .commit e _ => e
  | _ => .nothing

/-- Whether a flush would write that the request is not settled. -/
def reviews (θ : ProvState) : Bool :=
  match θ.loaded.request, θ.current.request with
  | some loaded, some current => current.status.unsettled && current.status != loaded.status
  | _, _ => false

/-- A runner whose request has ended meanwhile, for an organization that is not active any
more, neither assigns its workload nor calls for a review of it. -/
def RunnerFits (settings : Settings) {ρ : Type} (o : ProvOp ρ) (θ : ProvState) (db : Db) : Prop :=
  o.commits = true → ∀ stored ∈ db.requests.get? θ.requestId, stored.status.unsettled = false →
    ¬ Active db stored.organizationId →
      o.assigns = false ∧ reviews (θ.assign settings (ownEdit o)) = false

/-- The session's request is the stored one, as far as its organization goes, and its status is
changed to that of a request that has ended or is reviewed. -/
structure Owned (θ : ProvState) (db : Db) : Prop where
  row : ∀ r, θ.current.request = some r ∨ θ.loaded.request = some r → r.id = θ.requestId ∧
    ∃ stored, db.requests.get? θ.requestId = some stored ∧ stored.organizationId = r.organizationId
  drafted : ∀ l c, θ.loaded.request = some l → θ.current.request = some c → c.status ≠ l.status →
    pending c.status = false

theorem Owned.stays {θ : ProvState} {db db' : Db} (h : Owned θ db) (hstay : RequestsStay db db') : Owned θ db' where
  row r hr := by
    obtain ⟨hid, stored, hget, horganization⟩ := h.row r hr
    obtain ⟨stored', hget', hsame⟩ := hstay _ stored hget
    exact ⟨hid, stored', hget', hsame.trans horganization⟩
  drafted := h.drafted

/-- A request follows another: it is for the same organization, it becomes pending only if it
was, and one that has ended is reviewed for an active organization only. -/
structure Succeeds (db : Db) (r r' : ProvisioningRequest) : Prop where
  organization : r.organizationId = r'.organizationId
  unsettled : r'.status.unsettled = true → r.status.unsettled = true ∨ Active db r.organizationId
  pending : pending r'.status = true → pending r.status = true

def Follows (db db' : Db) : Prop := ∀ r' ∈ db'.requests, ∃ r ∈ db.requests, Succeeds db r r'

theorem Succeeds.refl (db : Db) (r : ProvisioningRequest) : Succeeds db r r := ⟨rfl, Or.inl, id⟩

theorem Follows.refl (db : Db) : Follows db db := fun r hr => ⟨r, hr, .refl db r⟩

theorem Follows.settled {db db' : Db} (h : Follows db db') {g : Uuid} (hinactive : ¬ Active db g)
    (hn : NoRequests db g) : NoRequests db' g := by
  intro r' hr' hg
  obtain ⟨r, hr, hsucceeds⟩ := h r' hr'
  have hof : r.organizationId = g := hsucceeds.organization.trans hg
  by_contra hopen
  rcases hsucceeds.unsettled (Bool.eq_true_of_not_eq_false hopen) with hunsettled | hactive
  · rw [hn r hr hof] at hunsettled
    cases hunsettled
  · rw [hof] at hactive
    exact hinactive hactive

theorem Follows.pending {db db' : Db} (h : Follows db db') {g : Uuid} (hn : NoneIs Administration.pending db g) :
    NoneIs Administration.pending db' g := by
  intro r' hr' hg
  obtain ⟨r, hr, hsucceeds⟩ := h r' hr'
  by_contra hpending
  have hbefore := hsucceeds.pending (Bool.eq_true_of_not_eq_false hpending)
  rw [hn r hr (hsucceeds.organization.trans hg)] at hbefore
  cases hbefore

/-- An update of one request, and what it makes of the row. -/
theorem follows_update {db : Db} {k : Uuid} {f : ProvisioningRequest → ProvisioningRequest}
    (horganization : ∀ r, (f r).organizationId = r.organizationId)
    (hf : ∀ r, db.requests.get? k = some r → Succeeds db r (f r)) :
    RequestsStay db { db with requests := db.requests.update k f } ∧
      Follows db { db with requests := db.requests.update k f } := by
  have halike : Table.Alike ProvisioningRequest.organizationId db.requests (db.requests.update k f) :=
    Table.alike_update _ horganization
  refine ⟨halike.keeps, Table.forall_update (fun r hr => ⟨r, hr, .refl db r⟩) fun r hr hk _ => ⟨r, hr, hf r ?_⟩⟩
  rw [← hk]
  exact Table.get?_of_mem hr

section Runners
variable {settings : Settings} {ρ : Type} {o : ProvOp ρ} {θ θ' : ProvState} {db db' : Db} {e : ProvEdit}

theorem onRequest_organization (r : ProvisioningRequest) :
    (e.onRequest settings r).organizationId = r.organizationId := by
  have hcleared (now : Instant) (r : ProvisioningRequest) :
      (clearInitialPassword now r).organizationId = r.organizationId := by
    unfold clearInitialPassword
    split <;> rfl
  cases e with
  | passwordCleared now => exact hcleared now r
  | settled review error finished cleared => exact hcleared cleared _
  | _ => rfl

theorem onRequest_pending (r : ProvisioningRequest) :
    (e.onRequest settings r).status = r.status ∨ pending (e.onRequest settings r).status = false := by
  have hcleared (now : Instant) (r : ProvisioningRequest) : (clearInitialPassword now r).status = r.status := by
    unfold clearInitialPassword
    split <;> rfl
  cases e with
  | passwordCleared now => exact Or.inl (hcleared now r)
  | settled review error finished cleared =>
    right
    show pending (clearInitialPassword cleared _).status = false
    rw [hcleared]
    cases review <;> rfl
  | completed finished => exact Or.inr rfl
  | _ => exact Or.inl rfl

theorem Owned.assign (h : Owned θ db) : Owned (θ.assign settings e) db where
  row r hr := by
    rcases hr with hr | hr
    · obtain ⟨c, hc, rfl⟩ := Option.map_eq_some_iff.mp hr
      rw [onRequest_id, onRequest_organization]
      exact h.row c (Or.inl hc)
    · exact h.row r (Or.inr hr)
  drafted l c hl hc hne := by
    obtain ⟨c₀, hc₀, rfl⟩ := Option.map_eq_some_iff.mp hc
    have hcases : (e.onRequest settings c₀).status = c₀.status ∨ pending (e.onRequest settings c₀).status = false :=
      onRequest_pending c₀
    rcases hcases with hsame | hnot
    · rw [hsame] at hne ⊢
      exact h.drafted l c₀ hl hc₀ hne
    · exact hnot

theorem Owned.saved (h : Owned θ db) : Owned θ.saved db where
  row r hr := h.row r (Or.inl (hr.elim id id))
  drafted l c hl hc hne := by
    have heq : some l = some c := hl.symm.trans hc
    cases heq
    exact absurd rfl hne

/-- What an operation assigns to the status, it assigns by its own edit. -/
theorem ownEdit_status (hedits : o.edits e) (hcommits : o.commits = true) :
    reviews (θ.assign settings e) = reviews (θ.assign settings (ownEdit o)) := by
  have hsame {e' : ProvEdit} (h : ∀ r : ProvisioningRequest, (e'.onRequest settings r).status = r.status) :
      reviews (θ.assign settings e') = reviews (θ.assign settings .nothing) := by
    unfold reviews ProvState.assign
    dsimp only
    cases θ.loaded.request with
    | none => rfl
    | some loaded =>
      cases θ.current.request with
      | none => rfl
      | some current =>
        simp only [Option.map_some, h current]
        rfl
  cases o with
  | commit e' audit =>
    cases hedits
    rfl
  | selectTarget | assignOrganization | recordPartialWorkload =>
    rcases hedits with rfl | ⟨id, rfl⟩
    · rfl
    · exact hsame fun _ => rfl
  | releaseNodeCapacity =>
    rcases hedits with rfl | rfl
    · rfl
    · exact hsame fun _ => rfl
  | reserveIp | confirmIp | quarantineIp =>
    cases hedits
    rfl
  | _ => cases hcommits

theorem merge_status (loaded current stored : ProvisioningRequest) :
    (ProvisioningRequest.merge loaded current stored).status = stored.status ∧ current.status = loaded.status ∨
      (ProvisioningRequest.merge loaded current stored).status = current.status ∧ current.status ≠ loaded.status := by
  by_cases h : current.status = loaded.status
  · exact Or.inl ⟨if_pos h, h⟩
  · exact Or.inr ⟨if_neg h, h⟩

/-- The requests after a flush. -/
theorem flushed_requests (howned : Owned θ db)
    (hfits : ∀ stored ∈ db.requests.get? θ.requestId, stored.status.unsettled = false →
      ¬ Active db stored.organizationId → reviews θ = false) :
    RequestsStay db (θ.flush db) ∧ Follows db (θ.flush db) := by
  have hsame (h : θ.flushRequests db.requests = db.requests) :
      RequestsStay db (θ.flush db) ∧ Follows db (θ.flush db) := by
    have h : (θ.flush db).requests = db.requests := h
    unfold RequestsStay Follows
    rw [h]
    exact ⟨Table.Keeps.refl _ _, Follows.refl db⟩
  cases hl : θ.loaded.request with
  | none =>
    refine hsame ?_
    unfold ProvState.flushRequests
    rw [hl]
  | some l =>
    cases hc : θ.current.request with
    | none =>
      refine hsame ?_
      unfold ProvState.flushRequests
      rw [hl, hc]
    | some c =>
      have hupdate : (θ.flush db).requests = db.requests.update l.id (ProvisioningRequest.merge l c) := by
        show θ.flushRequests db.requests = _
        unfold ProvState.flushRequests
        rw [hl, hc]
      have hmerge : RequestsStay db _ ∧ Follows db _ :=
        follows_update (k := l.id) (f := ProvisioningRequest.merge l c) (fun _ => rfl) fun stored hstored => ?_
      · unfold RequestsStay Follows
        rw [hupdate]
        exact hmerge
      rw [(howned.row l (Or.inr hl)).1] at hstored
      rcases merge_status l c stored with ⟨hstatus, -⟩ | ⟨hstatus, hne⟩
      · exact ⟨rfl, fun h => Or.inl (by rwa [hstatus] at h), fun h => by rwa [hstatus] at h⟩
      · refine ⟨rfl, fun hunsettled => ?_, fun hpending => ?_⟩
        · by_contra hnot
          push Not at hnot
          have hreviews := hfits stored hstored (Bool.eq_false_of_not_eq_true hnot.1) hnot.2
          unfold reviews at hreviews
          rw [hl, hc] at hreviews
          rw [hstatus] at hunsettled
          simp [hunsettled, hne] at hreviews
        · rw [hstatus, howned.drafted l c hl hc hne] at hpending
          cases hpending

/-- What a runner's commit leaves of the organizations. -/
structure RunnerLeaves (o : ProvOp ρ) (θ : ProvState) (db db' : Db) : Prop where
  organizations : db'.organizations = db.organizations
  members : db'.members = db.members
  assignments : (∀ g, NoAssignments db g → NoAssignments db' g) ∨ o.assigns = true ∧ ∃ r, θ.current.request = some r ∧
    (NoRequests db r.organizationId → Active db r.organizationId) ∧
      ∀ g, g ≠ r.organizationId → NoAssignments db g → NoAssignments db' g
  follows : Follows db db'
  stays : RequestsStay db db'

theorem RunnerLeaves.refl (o : ProvOp ρ) (θ : ProvState) (db : Db) : RunnerLeaves o θ db db :=
  ⟨rfl, rfl, Or.inl fun _ h => h, .refl db, Table.Keeps.refl _ _⟩

/-- The assignment of a workload to the organization of its request. -/
theorem ensureAssignment_spares {t t' : Table WorkloadAssignment} {r : ProvisioningRequest} {workloadId actorId : Uuid}
    {i : Input} (h : ensureAssignment t r workloadId actorId i = .ok t') :
    ∀ a ∈ t', a ∈ t ∨ a.organizationId = r.organizationId := by
  unfold ensureAssignment at h
  split at h
  · obtain ⟨_, -, h⟩ := bind_ok.mp h
    cases h
    exact fun a ha => Or.inl ha
  · intro a ha
    rcases (Table.mem_insert (orRaise_ok.mp h)).mp ha with hold | rfl
    · exact Or.inl hold
    · exact Or.inr rfl

theorem assignedWorkload_spares {r : ProvisioningRequest} {actor : User} {i : Input} {now : Instant} {id : Uuid}
    (h : assignedWorkload db r actor i now = .ok (db', id)) {g : Uuid} (hg : g ≠ r.organizationId)
    (hnone : NoAssignments db g) : NoAssignments db' g := by
  obtain ⟨⟨workloads, workload⟩, -, h⟩ := bind_ok.mp h
  obtain ⟨assignments, hassignments, h⟩ := bind_ok.mp h
  cases h
  intro a ha hag
  rcases ensureAssignment_spares hassignments a ha with hold | hnew
  · exact hnone a hold hag
  · exact absurd (hag.symm.trans hnew) hg

theorem claimable_pending {now : Instant} {r : ProvisioningRequest} (h : r.claimable now = true) :
    pending r.status = true := by
  unfold ProvisioningRequest.claimable at h
  cases hs : r.status <;> simp_all [pending]

/-- **Every step of a runner**, by what it can do. -/
theorem runner_leaves (h : ProvEffect settings θ db o θ' db') (howned : Owned θ db)
    (hfits : RunnerFits settings o θ db) : RunnerLeaves o θ db db' ∧ Owned θ' db' := by
  cases h with
  | assigned edits => exact ⟨.refl o θ db, howned.assign⟩
  | failed edits => exact ⟨.refl o θ db, howned.assign.row, howned.assign.drafted⟩
  | @committed e db₁ edits commits live writes =>
    have howned₁ : Owned (θ.assign settings e) db₁ := by
      refine howned.assign.stays ?_
      unfold RequestsStay
      rw [writes.requests]
      exact Table.Keeps.refl _ _
    have hrest := writes.rest
    have hactive (g : Uuid) : Active db₁ g ↔ Active db g := by
      unfold Active
      rw [hrest]
    obtain ⟨hstay, hfollows⟩ := flushed_requests howned₁ fun stored hstored hsettled hinactive => by
      rw [writes.requests] at hstored
      rw [ownEdit_status edits commits]
      rw [hactive] at hinactive
      exact (hfits commits stored hstored hsettled hinactive).2
    have hsame : RequestsStay db db₁ := by
      unfold RequestsStay
      rw [writes.requests]
      exact Table.Keeps.refl _ _
    refine ⟨⟨?_, ?_, ?_, fun r' hr' => ?_, hsame.trans hstay⟩, (howned₁.stays hstay).saved⟩
    · show db₁.organizations = db.organizations
      rw [hrest]
    · show db₁.members = db.members
      rw [hrest]
    · have hflush (g : Uuid) : NoAssignments ((θ.assign settings e).flush db₁) g ↔ NoAssignments db₁ g := Iff.rfl
      simp only [hflush]
      cases writes.owners with
      | same workloads assignments | recorded owners assignments =>
        left
        intro g hg
        unfold NoAssignments
        rw [assignments]
        exact hg
      | @assigned r actor i now id assigns request hassigned =>
        refine Or.inr ⟨assigns, r, request, fun hno => ?_, fun g hg hn => assignedWorkload_spares hassigned hg hn⟩
        obtain ⟨hid, stored, hget, horganization⟩ := howned.row r (Or.inl request)
        have hsettled := hno stored (Table.get?_mem hget) horganization
        by_contra hinactive
        rw [← horganization] at hinactive
        rw [(hfits commits stored hget hsettled hinactive).1] at assigns
        cases assigns
    · obtain ⟨r, hr, hsucceeds⟩ := hfollows r' hr'
      rw [writes.requests] at hr
      exact ⟨r, hr, hsucceeds.organization, fun h => (hsucceeds.unsettled h).imp_right (hactive _).mp,
        hsucceeds.pending⟩
  | @claimed time r claims found claimable =>
    have hclaimed (r' : ProvisioningRequest) (hr' : db.requests.get? θ.requestId = some r') :
        Succeeds db r' (claimed settings time θ.runnerId r') := by
      rw [found] at hr'
      cases hr'
      have hpending := claimable_pending claimable
      exact ⟨rfl, fun _ => Or.inl (pending_unsettled hpending), fun _ => hpending⟩
    obtain ⟨hstay, hfollows⟩ := follows_update (f := claimed settings time θ.runnerId) (fun _ => rfl) hclaimed
    have howned' := howned.stays hstay
    exact ⟨⟨rfl, rfl, Or.inl fun _ hg => hg, hfollows, hstay⟩, howned'.row, howned'.drafted⟩
  | loaded loads =>
    refine ⟨.refl o θ db, fun r hr => ?_, fun l c hl hc hne => ?_⟩
    · have hget : db.requests.get? θ.requestId = some r := hr.elim id id
      exact ⟨Table.get?_key hget, r, hget, rfl⟩
    · have heq : some l = some c := hl.symm.trans hc
      cases heq
      exact absurd rfl hne
  | stepsLoaded idle => exact ⟨.refl o θ db, howned.row, howned.drafted⟩
  | released idle =>
    have horganization (r : ProvisioningRequest) : (released θ.runnerId r).organizationId = r.organizationId := by
      unfold released
      split <;> rfl
    have hreleased (r : ProvisioningRequest) (_ : db.requests.get? θ.requestId = some r) :
        Succeeds db r (released θ.runnerId r) := by
      refine ⟨(horganization r).symm, ?_, ?_⟩
      · unfold released
        split <;> exact Or.inl
      · unfold released
        split <;> exact id
    obtain ⟨hstay, hfollows⟩ := follows_update horganization hreleased
    have howned' := howned.stays hstay
    exact ⟨⟨rfl, rfl, Or.inl fun _ hg => hg, hfollows, hstay⟩, howned'.row, howned'.drafted⟩

end Runners

end PveMaster.Administration
