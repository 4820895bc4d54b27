import PveMaster.Administration.Service
import PveMaster.Foundation.Versions

/-! The versions of the organizations.

`update_organization` and `delete_organization` select their organization for update before they
compare its version. As for the users, the general rule for optimistic versions applies once every
request is shown to write an organization only under its lock. -/
namespace PveMaster.Administration
open Prog AdminProg

/-- The organizations by their versions; the version a commit writes is the next one of the
organization it has loaded. -/
def organizationVersions : Versioned Estate Row AdminWrite AdminRequest where
  version
    | .organization k, e => (e.profiles.get? k).map OrganizationProfile.version
    | .workload _, _ => none
  assigns
    | .updateOrganization profile _ _ => some (.organization profile.id, profile.version - 1, profile.version)
    | .deleteOrganization profile _ => some (.organization profile.id, profile.version - 1, profile.version)
    | _ => none
  carried r :=
    match r.call with
    | .updateOrganization organizationId request => some (.organization organizationId, request.version)
    | .deleteOrganization organizationId version => some (.organization organizationId, version)
    | _ => none

/-- What a commit makes of the rows with the versions. -/
theorem AdminWrite.apply_profiles {w : AdminWrite} {e e' : Estate} (h : w.apply e = .ok e') :
    match w with
    | .updateOrganization profile _ _ => e'.profiles = e.profiles.update profile.id (fun _ => profile)
    | .deleteOrganization profile _ => e'.profiles = e.profiles.update profile.id (fun _ => profile)
    | _ => e'.profiles = e.profiles := by
  cases w with
  | addMember member audit =>
    unfold AdminWrite.apply at h
    dsimp only at h
    split at h
    · cases h
      rfl
    · cases h
  | assign assignment audit =>
    unfold AdminWrite.apply at h
    dsimp only at h
    split at h
    · cases h
      rfl
    · cases h
  | updateOrganization profile isActive audit =>
    unfold AdminWrite.apply at h
    dsimp only at h
    split at h
    · cases h
    · cases h
      rfl
  | deleteOrganization profile audit =>
    cases h
    rfl

theorem version_written {e e' : Estate} {profile : OrganizationProfile}
    (h : e'.profiles = e.profiles.update profile.id (fun _ => profile))
    (hthere : (organizationVersions.version (.organization profile.id) e).isSome = true) :
    organizationVersions.version (.organization profile.id) e' = some profile.version := by
  have hthere : ((e.profiles.get? profile.id).map OrganizationProfile.version).isSome = true := hthere
  obtain ⟨stored, hstored⟩ := Option.isSome_iff_exists.mp (Option.isSome_map.symm.trans hthere)
  show (e'.profiles.get? profile.id).map OrganizationProfile.version = _
  rw [h, Table.get?_update_same hstored (Table.get?_key hstored).symm]
  rfl

theorem version_kept {e e' : Estate} {profile : OrganizationProfile} {k : Row} {n : Nat}
    (h : e'.profiles = e.profiles.update profile.id (fun _ => profile)) (hk : k ≠ .organization profile.id)
    (hn : organizationVersions.version k e = some n) : organizationVersions.version k e' = some n := by
  cases k with
  | workload id => cases hn
  | organization id =>
    have hid : id ≠ profile.id := fun he => hk (he ▸ rfl)
    show (e'.profiles.get? id).map OrganizationProfile.version = some n
    rw [h, Table.get?_update_of_ne _ hid]
    exact hn

theorem organizationVersions_lawful : organizationVersions.Lawful adminSchema where
  assigned w e e' k l a happly hassigns hthere := by
    have hprofiles := AdminWrite.apply_profiles happly
    cases w with
    | addMember member audit => cases hassigns
    | assign assignment audit => cases hassigns
    | updateOrganization profile isActive audit =>
      cases hassigns
      exact version_written hprofiles hthere
    | deleteOrganization profile audit =>
      cases hassigns
      exact version_written hprofiles hthere
  others w e e' k n happly hnot hversion := by
    have hprofiles := AdminWrite.apply_profiles happly
    have hsame (hp : e'.profiles = e.profiles) : organizationVersions.version k e' = some n := by
      cases k with
      | workload id => cases hversion
      | organization id =>
        show (e'.profiles.get? id).map OrganizationProfile.version = some n
        rw [hp]
        exact hversion
    cases w with
    | addMember member audit => exact hsame hprofiles
    | assign assignment audit => exact hsame hprofiles
    | updateOrganization profile isActive audit =>
      exact version_kept hprofiles (fun hk => hnot (profile.version - 1) profile.version (by rw [hk]; rfl)) hversion
    | deleteOrganization profile audit =>
      exact version_kept hprofiles (fun hk => hnot (profile.version - 1) profile.version (by rw [hk]; rfl)) hversion

/-! ### Programs -/

variable {m : AdminRequest} {held : Row → Option Nat} {α : Type}

abbrev Guards (m : AdminRequest) (p : AdminProg α) (held : Row → Option Nat) : Prop :=
  organizationVersions.Guarded m p (fun _ _ => True) held

theorem quiet_read {q : Db → α} : (AdminProg.read q).Only organizationVersions.Quiet := only_op trivial

theorem guards_commit {w : AdminWrite} (hw : organizationVersions.Allows m held w) :
    Guards m (AdminProg.commit w) held := ⟨hw, fun _ => trivial⟩

theorem guards_commitOr {error : AppError} {w : AdminWrite} (hw : organizationVersions.Allows m held w) :
    Guards m (commitOr error w) held := by
  refine Versioned.guarded_bind (fun _ _ => trivial) (Versioned.guarded_attempt ?_)
  refine ⟨hw, fun r a _ => ?_⟩
  split <;> trivial

/-- An organization that is selected for update is locked, with the version that has been read. -/
theorem guards_getOrganization {organizationId : Uuid} {includeInactive : Bool}
    {f : Organization × OrganizationProfile → AdminProg α}
    (h : ∀ o held, o.2.id = organizationId → held (.organization o.2.id) = some o.2.version →
      Guards m (f o) held) : Guards m (getOrganization organizationId includeInactive >>= f) held := by
  unfold getOrganization
  rw [bind_assoc]
  refine Versioned.guarded_lock fun e => Versioned.guarded_ofExcept fun o ho => ?_
  rw [orRaise_ok] at ho
  rw [if_pos (show Option.isSome (Option.filter _ _) = true by rw [ho]; rfl)]
  obtain ⟨organization, profile⟩ := o
  obtain ⟨row, -, hprofile⟩ := Option.bind_eq_some_iff.mp (Option.filter_eq_some_iff.mp ho).1
  obtain ⟨stored, hstored, heq⟩ := Option.map_eq_some_iff.mp hprofile
  cases heq
  have hid : profile.id = organizationId := Table.get?_key hstored
  subst hid
  refine h _ _ rfl ?_
  rw [Function.update_self]
  show (e.profiles.get? profile.id).map OrganizationProfile.version = some profile.version
  rw [hstored]
  rfl

/-- A commit that writes the next version of an organization that is locked. -/
theorem allows_next {w : AdminWrite} {profile : OrganizationProfile}
    (hassigns : organizationVersions.assigns w = some (.organization profile.id, profile.version, profile.version + 1))
    (hheld : held (.organization profile.id) = some profile.version)
    (hcarried : ∀ k v, organizationVersions.carried m = some (k, v) → k = .organization profile.id ∧ v = profile.version) :
    organizationVersions.Allows m held w := by
  intro k l a ha
  rw [hassigns] at ha
  cases ha
  exact ⟨hheld, rfl, hcarried⟩

theorem guards_updateOrganization {principal : Principal} {organizationId : Uuid} {request : OrganizationUpdate} :
    Guards ⟨principal, .updateOrganization organizationId request⟩
      (updateOrganization principal organizationId request) held := by
  refine Versioned.guarded_ofExcept fun _ _ => guards_getOrganization fun o held hid hheld => ?_
  refine Versioned.guarded_ofExcept fun _ hversion => Versioned.guarded_ofExcept fun _ _ => ?_
  have hversion := not_not.mp (raiseIf_ok.mp hversion)
  refine guards_commitOr (allows_next rfl hheld fun k v hkv => ?_)
  cases hkv
  exact ⟨by rw [hid], hversion⟩

theorem guards_deleteOrganization {principal : Principal} {organizationId : Uuid} {version : Nat} :
    Guards ⟨principal, .deleteOrganization organizationId version⟩
      (deleteOrganization principal organizationId version) held := by
  refine Versioned.guarded_ofExcept fun _ _ => guards_getOrganization fun o held hid hheld => ?_
  refine Versioned.guarded_ofExcept fun _ hversion => ?_
  have hversion := not_not.mp (raiseIf_ok.mp hversion)
  refine Versioned.guarded_quiet quiet_read fun members => Versioned.guarded_quiet quiet_read fun assignments => ?_
  refine Versioned.guarded_quiet quiet_read fun requests => Versioned.guarded_ofExcept fun _ _ => ?_
  refine guards_commit (allows_next rfl hheld fun k v hkv => ?_)
  cases hkv
  exact ⟨by rw [hid], hversion⟩

/-! Members and assignments assign no version. -/

theorem idle_commitOr {error : AppError} {w : AdminWrite} (h : organizationVersions.assigns w = none) :
    (commitOr error w).Only organizationVersions.Idle := by
  refine only_bind (only_attempt (only_perform h)) fun r => ?_
  split <;> trivial

theorem idle_read {q : Db → α} : (AdminProg.read q).Only organizationVersions.Idle := only_op trivial

theorem idle_lock {row : Row} {wanted : Estate → Bool} {q : Estate → α} :
    (AdminProg.lock row wanted q).Only organizationVersions.Idle := only_op trivial

theorem idle_draw : AdminProg.draw.Only organizationVersions.Idle := only_op trivial

theorem idle_addMember {principal : Principal} {organizationId userId : Uuid} :
    (addMember principal organizationId userId).Only organizationVersions.Idle := by
  refine only_bind (p := ofExcept _) trivial fun _ => only_bind idle_read fun organization => ?_
  refine only_bind idle_read fun user => only_bind (p := ofExcept _) trivial fun _ => ?_
  refine only_bind (p := ofExcept _) trivial fun _ => only_bind idle_draw fun draws => ?_
  exact only_bind idle_lock fun _ => idle_commitOr rfl

theorem idle_assign {principal : Principal} {workloadId organizationId : Uuid} :
    (assign principal workloadId organizationId).Only organizationVersions.Idle := by
  refine only_bind (p := ofExcept _) trivial fun _ => only_bind idle_lock fun workload => ?_
  refine only_bind (p := ofExcept _) trivial fun _ => only_bind idle_read fun organization => ?_
  refine only_bind (p := ofExcept _) trivial fun _ => only_bind (p := ofExcept _) trivial fun _ => ?_
  refine only_bind idle_read fun active => ?_
  split
  · trivial
  · refine only_bind (p := ofExcept _) trivial fun _ => only_bind idle_draw fun draws => ?_
    exact only_bind idle_lock fun _ => idle_commitOr rfl

theorem guarded_administration (m : AdminRequest) : Guards m (adminSchema.program m) (fun _ => none) := by
  obtain ⟨principal, call⟩ := m
  cases call with
  | updateOrganization organizationId request => exact guards_updateOrganization
  | deleteOrganization organizationId version => exact guards_deleteOrganization
  | addMember organizationId userId => exact Versioned.guarded_idle idle_addMember
  | assign workloadId organizationId => exact Versioned.guarded_idle idle_assign

end PveMaster.Administration
