import PveMaster.Administration.System

/-! What the administrators leave of an organization without members, assignments and requests.

`delete_organization` selects the organization for update, so what it has counted stays: an
insert that names the organization waits until it has ended. -/
namespace PveMaster.Administration
open Prog

/-! ### Emptiness -/

/-- Nobody is a member. -/
def NoMembers (db : Db) (g : Uuid) : Prop := ∀ m ∈ db.members, m.organizationId ≠ g

/-- No workload is assigned; assignments of the past have ended. -/
def NoAssignments (db : Db) (g : Uuid) : Prop := ∀ a ∈ db.assignments, a.organizationId = g → a.revokedAt ≠ none

/-- No request of an organization has one of some statuses. -/
def NoneIs (status : ProvisioningStatus → Bool) (db : Db) (g : Uuid) : Prop :=
  ∀ r ∈ db.requests, r.organizationId = g → status r.status = false

abbrev NoRequests : Db → Uuid → Prop := NoneIs ProvisioningStatus.unsettled

/-- Waiting for a runner, or run by one. A request in manual review is neither: it waits for a
person. -/
def pending : ProvisioningStatus → Bool
  | .queued | .running => true
  | .manualReview | .succeeded | .failed => false

/-- What the answer to a deletion promises. -/
structure Empty (db : Db) (g : Uuid) : Prop where
  members : NoMembers db g
  assignments : NoAssignments db g
  requests : NoRequests db g

/-- An organization that is not active is empty. -/
def Emptied (db : Db) : Prop := ∀ o ∈ db.organizations, o.isActive = false → Empty db o.id

/-- An organization that is there and is active. -/
def Active (db : Db) (g : Uuid) : Prop := (db.organizations.get? g).any (·.isActive) = true

instance (db : Db) (g : Uuid) : Decidable (Active db g) := inferInstanceAs (Decidable (_ = true))

theorem not_active {db : Db} {o : Organization} (ho : o ∈ db.organizations) (h : o.isActive = false) :
    ¬ Active db o.id := by
  have hget : db.organizations.get? o.id = some o := Table.get?_of_mem ho
  unfold Active
  rw [hget, Option.any_some, h]
  nofun

theorem memberCount_eq {g : Uuid} {db : Db} (h : memberCount g db = 0) : NoMembers db g := by
  intro m hm
  simpa using Table.select_empty h hm

theorem assignmentCount_eq {g : Uuid} {db : Db} (h : assignmentCount g db = 0) : NoAssignments db g := by
  intro a ha hg hrevoked
  have hnot := Table.select_empty h ha
  simp [hg, hrevoked] at hnot

theorem requestCount_eq {g : Uuid} {db : Db} (h : requestCount g db = 0) : NoRequests db g := by
  intro r hr hg
  simpa [hg] using Table.select_empty h hr

theorem pending_unsettled {status : ProvisioningStatus} (h : pending status = true) : status.unsettled = true := by
  cases status <;> first | rfl | cases h

theorem NoneIs.pending {db : Db} {g : Uuid} (h : NoRequests db g) : NoneIs pending db g := by
  intro r hr hg
  have hsettled := h r hr hg
  cases hp : Administration.pending r.status with
  | false => rfl
  | true =>
    rw [pending_unsettled hp] at hsettled
    cases hsettled

/-- What is neither pending nor under review has ended. -/
theorem NoneIs.settled {db : Db} {g : Uuid} (h : NoneIs Administration.pending db g)
    (hreview : NoneIs (· == .manualReview) db g) : NoRequests db g := by
  intro r hr hg
  have hpending := h r hr hg
  have hnot := hreview r hr hg
  cases hs : r.status with
  | queued | running =>
    rw [hs] at hpending
    cases hpending
  | manualReview =>
    rw [hs] at hnot
    exact absurd hnot nofun
  | succeeded | failed => rfl

/-- The requests are as they were. -/
theorem NoneIs.same {status : ProvisioningStatus → Bool} {db db' : Db} {g : Uuid}
    (hrequests : db'.requests = db.requests) (h : NoneIs status db g) : NoneIs status db' g := by
  unfold NoneIs
  rw [hrequests]
  exact h

/-! ### What others leave -/

/-- What others leave of an organization that is locked: its row, and that there is nothing that
names it. Their inserts would have to wait. -/
structure Spares (g : Uuid) (db db' : Db) : Prop where
  organization : db'.organizations.get? g = db.organizations.get? g
  members : NoMembers db g → NoMembers db' g
  assignments : NoAssignments db g → NoAssignments db' g
  pending : NoneIs pending db g → NoneIs pending db' g

theorem Spares.refl (g : Uuid) (db : Db) : Spares g db db := ⟨rfl, id, id, id⟩

theorem Spares.trans {g : Uuid} {db db' db'' : Db} (h : Spares g db db') (h' : Spares g db' db'') :
    Spares g db db'' where
  organization := h'.organization.trans h.organization
  members hn := h'.members (h.members hn)
  assignments hn := h'.assignments (h.assignments hn)
  pending hn := h'.pending (h.pending hn)

/-- What spares every organization that is not active keeps them empty. -/
theorem Emptied.spared {db db' : Db} (h : Emptied db)
    (hspares : ∀ g, ¬ Active db g → Spares g db db') (hrequests : db'.requests = db.requests)
    (hactive : ∀ g, Active db g → Active db' g) : Emptied db' := by
  intro o ho hinactive
  have hnot : ¬ Active db o.id := fun ha => not_active ho hinactive (hactive o.id ha)
  have hg := hspares o.id hnot
  have hget : db.organizations.get? o.id = some o := hg.organization.symm.trans (Table.get?_of_mem ho)
  have hempty := h o (Table.get?_mem hget) hinactive
  exact ⟨hg.members hempty.members, hg.assignments hempty.assignments, hempty.requests.same hrequests⟩

/-- Requests stay, for the organizations they were made for. -/
abbrev RequestsStay (db db' : Db) : Prop :=
  Table.Keeps ProvisioningRequest.organizationId db.requests db'.requests

/-- What is locked with an organization is not only its row, but also that nothing is added to it.
-/
def adminRules : Rules Estate Row AdminWrite AdminRequest where
  Same row e e' :=
    match row with
    | .organization g => Spares g e.db e'.db
    | .workload _ => True
  Change _ _ e e' := RequestsStay e.db e'.db
  Sound e := Emptied e.db
  fits _ w e :=
    match w with
    | .addMember member _ => Active e.db member.organizationId
    | .assign assignment _ => Active e.db assignment.organizationId
    | .deleteOrganization profile _ => NoneIs (· == .manualReview) e.db profile.id
    | .updateOrganization .. => True
  Outside e e' := e' = e

theorem adminRules_lawful : adminRules.Lawful where
  same_refl row e := by
    cases row with
    | organization g => exact Spares.refl g e.db
    | workload id => trivial
  same_trans row e e' e'' h h' := by
    cases row with
    | organization g => exact Spares.trans h h'
    | workload id => trivial
  outside e e' h he := by
    cases he
    refine ⟨h, fun row => ?_⟩
    cases row with
    | organization g => exact Spares.refl g e.db
    | workload id => trivial

/-! ### Commits -/

section Commits
variable {e e' : Estate} {audit : AuditLog}

theorem addMember_spares {member : OrganizationMember}
    (h : (AdminWrite.addMember member audit).apply e = .ok e') :
    (∀ g, g ≠ member.organizationId → Spares g e.db e'.db) ∧ e'.db.organizations = e.db.organizations ∧
      e'.db.requests = e.db.requests := by
  unfold AdminWrite.apply at h
  dsimp only at h
  split at h
  · next members hinsert =>
    cases h
    refine ⟨fun g hg => ⟨rfl, fun hn m hm => ?_, id, id⟩, rfl, rfl⟩
    rcases (Table.mem_insert (insertUnless_some hinsert).2).mp hm with hold | rfl
    · exact hn m hold
    · exact hg.symm
  · cases h

theorem assign_spares {assignment : WorkloadAssignment}
    (h : (AdminWrite.assign assignment audit).apply e = .ok e') :
    (∀ g, g ≠ assignment.organizationId → Spares g e.db e'.db) ∧ e'.db.organizations = e.db.organizations ∧
      e'.db.requests = e.db.requests := by
  unfold AdminWrite.apply at h
  dsimp only at h
  split at h
  · next assignments hinsert =>
    cases h
    refine ⟨fun g hg => ⟨rfl, id, fun hn a ha hag => ?_, id⟩, rfl, rfl⟩
    rcases (Table.mem_insert (insertUnless_some hinsert).2).mp ha with hold | rfl
    · exact hn a hold hag
    · exact absurd hag.symm hg
  · cases h

/-- A write of the columns of one organization. -/
theorem writeOrganization_spares {profile : OrganizationProfile} {isActive : Bool}
    (h : e' = (e.writeOrganization profile isActive).audited audit) :
    (∀ g, g ≠ profile.id → Spares g e.db e'.db) ∧
      e'.db.organizations.get? profile.id =
        (e.db.organizations.get? profile.id).map (fun o => { o with isActive := isActive }) ∧
      e'.db.requests = e.db.requests ∧ (∀ g, Empty e.db g → Empty e'.db g) := by
  subst h
  refine ⟨fun g hg => ⟨Table.get?_update_of_ne _ hg, id, id, id⟩, ?_, rfl, fun g hg => ?_⟩
  · exact Table.get?_update_self _ _ fun _ => rfl
  · exact ⟨hg.members, hg.assignments, hg.requests⟩

theorem updateOrganization_applied {profile : OrganizationProfile} {isActive : Bool}
    (h : (AdminWrite.updateOrganization profile isActive audit).apply e = .ok e') :
    e' = (e.writeOrganization profile isActive).audited audit := by
  unfold AdminWrite.apply at h
  dsimp only at h
  split at h
  · cases h
  · exact (Except.ok.inj h).symm

end Commits

/-! ### The administrators -/

section Programs
variable {α β : Type} {θ : Transaction AdminRequest Unit} {s : AdminStore}

/-- What a transaction relies on. -/
abbrev Relies (x : Nat) (s s' : AdminStore) : Prop :=
  (adminRules.contract x : Contract AdminStatement (Transaction AdminRequest Unit) AdminStore Input).rely s s'

theorem Relies.refl (x : Nat) (s : AdminStore) : Relies x s s :=
  (adminRules_lawful.closed x :
    (adminRules.contract x : Contract AdminStatement (Transaction AdminRequest Unit) AdminStore Input).Closed).refl s

theorem Relies.trans {x : Nat} {s s' s'' : AdminStore} (h : Relies x s s') (h' : Relies x s' s'') : Relies x s s'' :=
  (adminRules_lawful.closed x :
    (adminRules.contract x : Contract AdminStatement (Transaction AdminRequest Unit) AdminStore Input).Closed).trans
      s s' s'' h h'

theorem Relies.holds {x : Nat} {s s' : AdminStore} {row : Row} (h : Relies x s s') (hrow : s.holder row = some x) :
    s'.holder row = some x := (h.1 row hrow).1

theorem Relies.spares {x : Nat} {s s' : AdminStore} {g : Uuid} (h : Relies x s s')
    (hrow : s.holder (.organization g) = some x) : Spares g s.db.db s'.db.db := (h.1 _ hrow).2

/-- What the program of an administrator owes, from a point on. -/
abbrev Obeys (θ : Transaction AdminRequest Unit) (s : AdminStore) (p : AdminProg α) : Prop :=
  wp adminSchema.machine (adminRules.contract θ.xid) p (fun _ _ _ => True) θ s

theorem obeys_read {q : Db → α} {f : α → AdminProg β}
    (h : ∀ s', Relies θ.xid s s' → Obeys θ s' (f (q s'.db.db))) : Obeys θ s (AdminProg.read q >>= f) :=
  wp_read adminRules_lawful fun _ s' hr _ => h s' hr

theorem obeys_draw {f : Input → AdminProg β} (h : ∀ i s', Relies θ.xid s s' → Obeys θ s' (f i)) :
    Obeys θ s (AdminProg.draw >>= f) := wp_call adminRules_lawful fun i s' hr _ => h i s' hr

theorem obeys_lock {row : Row} {wanted : Estate → Bool} {q : Estate → α} {f : α → AdminProg β}
    (h : ∀ s', Relies θ.xid s s' → (wanted s'.db = true → s'.holder row = some θ.xid) → Obeys θ s' (f (q s'.db))) :
    Obeys θ s (AdminProg.lock row wanted q >>= f) := wp_lock adminRules_lawful fun s' hr _ hmine => h s' hr hmine

theorem obeys_ofExcept {r : Except Exn α} {f : α → AdminProg β} (h : ∀ a, r = .ok a → Obeys θ s (f a)) :
    Obeys θ s (ofExcept r >>= f) := by
  cases r with
  | ok a => exact h a rfl
  | error e => trivial

/-- A commit that leaves the organizations others have locked. -/
theorem obeys_commit {w : AdminWrite}
    (h : ∀ s', Relies θ.xid s s' → Emptied s'.db.db → adminRules.fits θ.request w s'.db →
      ∀ e, w.apply s'.db = .ok e → adminRules.Commits θ.xid θ.request w s' e) :
    Obeys θ s (AdminProg.commit w) := by
  rw [← bind_pure (AdminProg.commit w)]
  exact wp_commit adminRules_lawful fun s' hr hs hfits =>
    ⟨fun e he => ⟨h s' hr hs hfits e he, trivial⟩, fun _ _ => trivial⟩

theorem obeys_commitOr {w : AdminWrite} {conflict : AppError}
    (h : ∀ s', Relies θ.xid s s' → Emptied s'.db.db → adminRules.fits θ.request w s'.db →
      ∀ e, w.apply s'.db = .ok e → adminRules.Commits θ.xid θ.request w s' e) :
    Obeys θ s (AdminProg.commitOr conflict w) := by
  refine wp_bind (wp_attempt (wp_mono (fun r θ s _ => ?_) (obeys_commit h)))
  dsimp only
  split <;> trivial

/-- What a commit owes that writes to one organization, whose row it has locked. -/
theorem commits_of_spares {w : AdminWrite} {e : Estate} {g : Uuid} (hheld : s.holder (.organization g) = some θ.xid)
    (hspares : ∀ g', g' ≠ g → Spares g' s.db.db e.db) (hrequests : e.db.requests = s.db.db.requests)
    (hemptied : Emptied e.db) : adminRules.Commits θ.xid θ.request w s e where
  others row y hne hrow := by
    cases row with
    | workload id => trivial
    | organization g' =>
      refine hspares g' ?_
      rintro rfl
      rw [hheld] at hrow
      exact hne (Option.some.inj hrow).symm
  change := by
    show RequestsStay s.db.db e.db
    unfold RequestsStay
    rw [hrequests]
    exact Table.Keeps.refl _ _
  sound := hemptied

/-- The same for an insert that names an active organization. -/
theorem commits_of_active {w : AdminWrite} {e : Estate} {g : Uuid} (hheld : s.holder (.organization g) = some θ.xid)
    (hactive : Active s.db.db g) (hsound : Emptied s.db.db)
    (hspares : (∀ g', g' ≠ g → Spares g' s.db.db e.db) ∧ e.db.organizations = s.db.db.organizations ∧
      e.db.requests = s.db.db.requests) : adminRules.Commits θ.xid θ.request w s e := by
  obtain ⟨hothers, horganizations, hrequests⟩ := hspares
  refine commits_of_spares hheld hothers hrequests (hsound.spared (fun g' hg' => hothers g' ?_) hrequests fun g' hg' => ?_)
  · rintro rfl
    exact hg' hactive
  · unfold Active
    rw [horganizations]
    exact hg'

theorem obeys_refer {g : Uuid} {p : AdminProg β}
    (h : ∀ s', s'.holder (.organization g) = some θ.xid → Obeys θ s' p) :
    Obeys θ s (AdminProg.refer g >>= fun _ => p) :=
  obeys_lock fun s' _ hmine => h s' (hmine rfl)

/-- The lock of an organization, and what stays of it. -/
theorem obeys_getOrganization {id : Uuid} {includeInactive : Bool}
    {f : Organization × OrganizationProfile → AdminProg β}
    (h : ∀ s' o, s'.holder (.organization id) = some θ.xid → s'.db.db.organizations.get? id = some o.1 →
      o.1.id = id → o.2.id = id → (includeInactive = false → o.1.isActive = true) → Obeys θ s' (f o)) :
    Obeys θ s (getOrganization id includeInactive >>= f) := by
  unfold getOrganization
  rw [bind_assoc]
  refine obeys_lock fun s' _ hmine => obeys_ofExcept fun o ho => ?_
  rw [orRaise_ok] at ho
  have hheld := hmine (by dsimp only; rw [ho]; rfl)
  obtain ⟨hfound, hactive⟩ := Option.filter_eq_some_iff.mp ho
  obtain ⟨organization, hget, hfound⟩ := Option.bind_eq_some_iff.mp hfound
  obtain ⟨profile, hprofile, heq⟩ := Option.map_eq_some_iff.mp hfound
  cases heq
  refine h s' _ hheld hget (Table.get?_key hget) (Table.get?_key hprofile) fun hi => ?_
  rw [hi] at hactive
  simpa using hactive

/-! Every call. -/

theorem obeys_addMember (principal : Principal) (organizationId userId : Uuid) :
    Obeys θ s (addMember principal organizationId userId) := by
  refine obeys_ofExcept fun _ _ => obeys_read fun s₁ _ => obeys_read fun s₂ _ => ?_
  refine obeys_ofExcept fun organization _ => obeys_ofExcept fun user _ => obeys_draw fun i s₃ _ => ?_
  refine obeys_refer fun s₄ hheld => obeys_commitOr fun s₅ hr hsound hfits e he => ?_
  exact commits_of_active (hr.holds hheld) hfits hsound (addMember_spares he)

theorem obeys_assign (principal : Principal) (workloadId organizationId : Uuid) :
    Obeys θ s (assign principal workloadId organizationId) := by
  refine obeys_ofExcept fun _ _ => obeys_lock fun s₁ _ _ => obeys_ofExcept fun workload _ => ?_
  refine obeys_read fun s₂ _ => obeys_ofExcept fun organization _ => obeys_ofExcept fun _ _ => ?_
  refine obeys_read fun s₃ _ => ?_
  dsimp only
  split
  · trivial
  refine obeys_ofExcept fun _ _ => obeys_draw fun i s₄ _ => obeys_refer fun s₅ hheld => ?_
  refine obeys_commitOr fun s₆ hr hsound hfits e he => ?_
  exact commits_of_active (hr.holds hheld) hfits hsound (assign_spares he)

theorem obeys_updateOrganization (principal : Principal) (id : Uuid) (request : OrganizationUpdate) :
    Obeys θ s (updateOrganization principal id request) := by
  refine obeys_ofExcept fun _ _ => obeys_getOrganization fun s₁ o hheld hget hid hprofile _ => ?_
  obtain ⟨organization, profile⟩ := o
  refine obeys_ofExcept fun _ _ => obeys_ofExcept fun _ _ => ?_
  refine obeys_commitOr fun s₂ hr hsound _ e he => ?_
  obtain ⟨hspares, hrow, hrequests, hempty⟩ := writeOrganization_spares (updateOrganization_applied he)
  dsimp only at hspares hrow hprofile
  rw [hprofile] at hspares hrow
  have hget₂ : s₂.db.db.organizations.get? id = some organization := (hr.spares hheld).organization.trans hget
  rw [hget₂] at hrow
  -- An organization that has been active stays active.
  refine commits_of_spares (hr.holds hheld) hspares hrequests fun o ho hinactive => ?_
  have hbefore : ∃ o₂, s₂.db.db.organizations.get? o.id = some o₂ ∧ o₂.isActive = false := by
    by_cases hg : o.id = id
    · have hsome : e.db.organizations.get? o.id = some o := Table.get?_of_mem ho
      rw [hg, hrow] at hsome
      cases hsome
      dsimp only at hinactive
      rw [Bool.or_eq_false_iff] at hinactive
      exact ⟨organization, hg ▸ hget₂, hinactive.1⟩
    · exact ⟨o, (hspares o.id hg).organization.symm.trans (Table.get?_of_mem ho), hinactive⟩
  obtain ⟨o₂, hget', hinactive'⟩ := hbefore
  have hkey : o₂.id = o.id := Table.get?_key hget'
  exact hempty o.id (hkey ▸ hsound o₂ (Table.get?_mem hget') hinactive')

theorem obeys_deleteOrganization (principal : Principal) (id : Uuid) (version : Nat) :
    Obeys θ s (deleteOrganization principal id version) := by
  refine obeys_ofExcept fun _ _ => obeys_getOrganization fun s₁ o hheld _ hid hprofile _ => ?_
  obtain ⟨organization, profile⟩ := o
  dsimp only at hid hprofile
  refine obeys_ofExcept fun _ _ => obeys_read fun s₂ h₂ => obeys_read fun s₃ h₃ => obeys_read fun s₄ h₄ => ?_
  rw [hid]
  refine obeys_ofExcept fun _ hzero => obeys_commit fun s₅ h₅ hsound hfits e he => ?_
  have hzero := raiseIf_ok.mp hzero
  push Not at hzero
  obtain ⟨hmembers, hassignments, hrequests⟩ := hzero
  -- What has been counted stays: the row is locked. Only a request that has ended may be
  -- reviewed again, which does not need the lock.
  have hheld₂ := h₂.holds hheld
  have hheld₃ := h₃.holds hheld₂
  have hheld₄ := h₄.holds hheld₃
  have hempty : Empty s₅.db.db id :=
    { members := ((h₃.trans h₄).trans h₅).spares hheld₂ |>.members (memberCount_eq hmembers)
      assignments := (h₄.trans h₅).spares hheld₃ |>.assignments (assignmentCount_eq hassignments)
      requests := by
        refine (h₅.spares hheld₄ |>.pending (requestCount_eq hrequests).pending).settled ?_
        rw [← hprofile]
        exact hfits }
  obtain ⟨hspares, hrow, hrest, hkept⟩ := writeOrganization_spares (Except.ok.inj he).symm
  dsimp only at hspares hrow
  rw [hprofile] at hspares hrow
  refine commits_of_spares (h₅.holds hheld₄) hspares hrest fun o ho hinactive => ?_
  by_cases hg : o.id = id
  · rw [hg]
    exact hkept id hempty
  · have hget : s₅.db.db.organizations.get? o.id = some o :=
      (hspares o.id hg).organization.symm.trans (Table.get?_of_mem ho)
    exact hkept o.id (hsound o (Table.get?_mem hget) hinactive)

/-- **Every call** of an administrator keeps to the rules. -/
theorem obeys_program (r : AdminRequest) : Obeys θ s r.program := by
  unfold AdminRequest.program
  cases r.call with
  | updateOrganization id request => exact obeys_updateOrganization _ _ _
  | deleteOrganization id version => exact obeys_deleteOrganization _ _ _
  | addMember id userId => exact obeys_addMember _ _ _
  | assign workloadId id => exact obeys_assign _ _ _

end Programs

end PveMaster.Administration
