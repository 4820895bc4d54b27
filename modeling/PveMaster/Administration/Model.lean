import PveMaster.Clusters.Inventory
import PveMaster.Foundation.Transactions
import PveMaster.Requests.System

/-! Organizations: what their administration writes.

An organization that is deleted stays as a row that is not active. -/
namespace PveMaster.Administration

/-- The columns of an organization that only its administration reads. -/
structure OrganizationProfile where
  id : Uuid
  name : String
  version : Nat
  deriving DecidableEq

instance : Keyed OrganizationProfile Uuid := ⟨OrganizationProfile.id⟩

/-- The world, and the rest of the organizations' rows. -/
structure Estate where
  world : World
  profiles : Table OrganizationProfile

def Estate.db (e : Estate) : Db := e.world.db

/-- An organization with all its columns. -/
def Estate.organization? (e : Estate) (id : Uuid) : Option (Organization × OrganizationProfile) :=
  (e.db.organizations.get? id).bind fun o => (e.profiles.get? id).map (o, ·)

/-- The rows an administrator locks. -/
inductive Row where
  | organization (id : Uuid)
  | workload (id : Uuid)
  deriving DecidableEq

/-! ### Counts -/

/-- What `delete_organization` counts. -/
def memberCount (organizationId : Uuid) (db : Db) : Nat :=
  (db.members.select (·.organizationId == organizationId)).length

def assignmentCount (organizationId : Uuid) (db : Db) : Nat :=
  (db.assignments.select (fun a => a.organizationId == organizationId && a.revokedAt.isNone)).length

def requestCount (organizationId : Uuid) (db : Db) : Nat :=
  (db.requests.select (fun r => r.organizationId == organizationId && r.status.unsettled)).length

/-! ### Commits -/

/-- `UniqueConstraint("organization_id", "user_id")`. -/
def OrganizationMember.clashes (m q : OrganizationMember) : Bool :=
  q.organizationId == m.organizationId && q.userId == m.userId

/-- `uq_workload_assignments_active_workload`. -/
def WorkloadAssignment.clashes (a q : WorkloadAssignment) : Bool :=
  q.workloadId == a.workloadId && q.revokedAt.isNone && a.revokedAt.isNone

/-- What an administrator commits. -/
inductive AdminWrite where
  | addMember (member : OrganizationMember) (audit : AuditLog)
  | assign (assignment : WorkloadAssignment) (audit : AuditLog)
  | updateOrganization (profile : OrganizationProfile) (isActive : Bool) (audit : AuditLog)
  | deleteOrganization (profile : OrganizationProfile) (audit : AuditLog)

/-- The estate with other tables. -/
def Estate.withDb (e : Estate) (f : Db → Db) : Estate := { e with world := e.world.setDb (f e.db) }

/-- The columns of an organization. -/
def Estate.writeOrganization (e : Estate) (profile : OrganizationProfile) (isActive : Bool) : Estate :=
  { e.withDb fun db =>
      { db with organizations := db.organizations.update profile.id (fun o => { o with isActive := isActive }) } with
    profiles := e.profiles.update profile.id (fun _ => profile) }

def Estate.audited (e : Estate) (audit : AuditLog) : Estate :=
  e.withDb fun db => { db with auditLogs := db.auditLogs ++ [audit] }

/-- The commit of a call, unless a constraint refuses it. -/
def AdminWrite.apply (e : Estate) : AdminWrite → Except Exn Estate
  | .addMember member audit =>
    match insertUnless OrganizationMember.clashes e.db.members member with
    | some members => .ok ((e.withDb fun db => { db with members := members }).audited audit)
    | none => .error .integrity
  | .assign assignment audit =>
    match insertUnless WorkloadAssignment.clashes e.db.assignments assignment with
    | some assignments =>
      .ok ((e.withDb fun db =>
        { db with
          assignments := assignments
          workloads := db.workloads.update assignment.workloadId (fun w =>
            { w with organizationId := some assignment.organizationId, version := w.version + 1 }) }).audited audit)
    | none => .error .integrity
  | .updateOrganization profile isActive audit =>
    -- `UniqueConstraint` on `Organization.name`
    if e.profiles.rows.any (fun q => q.id != profile.id && q.name == profile.name) then .error .integrity
    else .ok ((e.writeOrganization profile isActive).audited audit)
  | .deleteOrganization profile audit => .ok ((e.writeOrganization profile false).audited audit)

end PveMaster.Administration
