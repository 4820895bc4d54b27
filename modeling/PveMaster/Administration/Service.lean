import PveMaster.Administration.Model
import PveMaster.Requests.Workloads

/-! `AccountService.update_organization`, `delete_organization` and `add_member`, and
`WorkloadService.assign`, statement by statement.

The first two select their organization for update. The others read it, and an insert that
names an organization locks its row until the end of its transaction, because of the
foreign key. -/
namespace PveMaster.Administration
open Prog

abbrev AdminStatement : Type → Type := Statement Estate Row AdminWrite Unit Unit Exn Input
abbrev AdminProg (α : Type) := Prog Exn AdminStatement α

namespace AdminProg

variable {α : Type}

def read (q : Db → α) : AdminProg α := op (.read fun _ e => q e.db)
/-- `SELECT … FOR UPDATE`: the rows that are wanted are locked, and read again once the lock is
there. -/
def lock (row : Row) (wanted : Estate → Bool) (q : Estate → α) : AdminProg α := op (.lock row wanted q)
def draw : AdminProg Input := op (.call () id)

/-- The foreign key of an insert: the row it names is locked against being deleted, until the end
of the transaction. -/
def refer (organizationId : Uuid) : AdminProg Unit :=
  lock (.organization organizationId) (fun _ => true) (fun _ => ())

def commit (w : AdminWrite) : AdminProg Unit := perform (.commit w id)

/-- A commit whose `IntegrityError` is answered otherwise: the constraint that failed is the last
word where two requests have read the same rows. -/
def commitOr (e : AppError) (w : AdminWrite) : AdminProg Unit := do
  match ← attempt (commit w) with
  | .error .integrity => raise (.appFrom e)
  | r => ofExcept r

end AdminProg

open AdminProg

def organizationNotFound : AppError := ⟨404, "ORGANIZATION_NOT_FOUND", "The organization was not found.", []⟩

def userNotFound : AppError := ⟨404, "USER_NOT_FOUND", "The user was not found.", []⟩

/-- The audit event of a change of an organization. -/
def organizationAudit (principal : Principal) (action : String) (organizationId : Uuid) : AuditLog where
  action := action
  outcome := .succeeded
  actorUserId := some principal.userId
  actorRole := some principal.role
  organizationId := some organizationId
  workloadId := none
  operationId := none
  pveUpid := none
  resourceType := "organization"
  resourceId := some organizationId
  errorCode := none

/-- `_audit`. -/
def accountAudit (principal : Principal) (action : String) (targetId : Uuid) : AuditLog where
  action := action
  outcome := .succeeded
  actorUserId := some principal.userId
  actorRole := some principal.role
  organizationId := none
  workloadId := none
  operationId := none
  pveUpid := none
  resourceType := "account"
  resourceId := some targetId
  errorCode := none

/-! ### Organizations -/

/-- `OrganizationUpdate`; a field that is left out stays as it is. -/
structure OrganizationUpdate where
  name : Option String
  isActive : Option Bool
  version : Nat

def versionConflict : AppError :=
  ⟨409, "ORGANIZATION_VERSION_CONFLICT", "The organization was modified by another request.", []⟩

/-- `_get_organization` with `lock`. -/
def getOrganization (organizationId : Uuid) (includeInactive : Bool) :
    AdminProg (Organization × OrganizationProfile) := do
  let found (e : Estate) := (e.organization? organizationId).filter (fun o => includeInactive || o.1.isActive)
  let organization ← lock (.organization organizationId) (fun e => (found e).isSome) found
  ofExcept (orRaise organization (.app organizationNotFound))

def updateOrganization (principal : Principal) (organizationId : Uuid) (request : OrganizationUpdate) :
    AdminProg Unit := do
  ofExcept (requireServiceRole principal [.superAdmin])
  let (organization, profile) ← getOrganization organizationId true
  ofExcept (raiseIf (request.version ≠ profile.version) (.app versionConflict))
  ofExcept (raiseIf (request.isActive = some false ∧ organization.isActive = true)
    (.app ⟨422, "ORGANIZATION_DEACTIVATION_REQUIRES_DELETE",
      "Use the organization delete endpoint to validate and deactivate it.", []⟩))
  let name := match request.name with
    | some name => strip name
    | none => profile.name
  commitOr ⟨409, "ORGANIZATION_NAME_CONFLICT", "An organization with this name already exists.", []⟩
    (.updateOrganization ⟨profile.id, name, profile.version + 1⟩
      (organization.isActive || request.isActive == some true)
      (organizationAudit principal "ORGANIZATION_UPDATED" organization.id))

/-- The refusal to delete an organization, with the three counts that it depends on. -/
def inUse (members assignments requests : Nat) : AppError :=
  ⟨409, "ORGANIZATION_IN_USE",
    "Remove members, workload assignments, and active provisioning requests before deleting the organization.",
    [("members", .int members), ("workload_assignments", .int assignments),
      ("active_provisioning_requests", .int requests)]⟩

def deleteOrganization (principal : Principal) (organizationId : Uuid) (version : Nat) : AdminProg Unit := do
  ofExcept (requireServiceRole principal [.superAdmin])
  let (organization, profile) ← getOrganization organizationId false
  ofExcept (raiseIf (version ≠ profile.version) (.app versionConflict))
  let members ← read (memberCount organization.id)
  let assignments ← read (assignmentCount organization.id)
  let requests ← read (requestCount organization.id)
  ofExcept (raiseIf (members ≠ 0 ∨ assignments ≠ 0 ∨ requests ≠ 0) (.app (inUse members assignments requests)))
  commit (.deleteOrganization ⟨profile.id, profile.name, profile.version + 1⟩
    (organizationAudit principal "ORGANIZATION_DELETED" organization.id))

/-! ### Members and workloads -/

def addMember (principal : Principal) (organizationId userId : Uuid) : AdminProg Unit := do
  ofExcept (requireServiceRole principal [.superAdmin])
  let organization ← read (·.organizations.get? organizationId)
  let user ← read (·.users.get? userId)
  let organization ← ofExcept (orRaise (organization.filter (·.isActive)) (.app organizationNotFound))
  let user ← ofExcept (orRaise (user.filter (·.isActive)) (.app userNotFound))
  let draws ← draw
  let member : OrganizationMember := ⟨draws.uuid 0, organization.id, user.id⟩
  refer organization.id
  commitOr ⟨409, "RESOURCE_CONFLICT", "The user is already an organization member.", []⟩
    (.addMember member (accountAudit principal "ORGANIZATION_MEMBER_ADDED" member.id))

open WorkloadService in
/-- `assign`; its tests are those of `WorkloadService.assigned`. -/
def assign (principal : Principal) (workloadId organizationId : Uuid) : AdminProg Unit := do
  ofExcept (requireServiceRole principal [.superAdmin, .operator])
  let workload ← lock (.workload workloadId) (fun e => (lockedWorkload e.db workloadId).toOption.isSome)
    (fun e => lockedWorkload e.db workloadId)
  let workload ← ofExcept workload
  let organization ← read (·.organizations.get? organizationId)
  let organization ← ofExcept (orRaise (organization.filter (·.isActive)) (.app organizationNotFound))
  ofExcept (raiseIf (workload.isPresent = false ∨ workload.isTemplate = true)
    (.app ⟨409, "WORKLOAD_NOT_ASSIGNABLE", "Only present, non-template workloads can be assigned.", []⟩))
  let active ← read (fun db => activeAssignment db.assignments workload.id)
  let elsewhere := alreadyAssigned "The workload is already assigned to another organization."
  match active with
  | some active => ofExcept (raiseIf (active.organizationId ≠ organization.id) (.app elsewhere))
  | none => do
    ofExcept (raiseIf (workload.organizationId ≠ none ∧ workload.organizationId ≠ some organization.id)
      (.app elsewhere))
    let draws ← draw
    refer organization.id
    commitOr (alreadyAssigned "The workload was assigned by another request.")
      (.assign
        { id := draws.uuid 0
          workloadId := workload.id
          organizationId := organization.id
          assignedById := principal.userId
          revokedById := none
          revokedAt := none }
        (ownershipAudit principal "WORKLOAD_ASSIGNED" (some organization.id) workload.id))

/-! ### Requests -/

/-- The calls that touch an organization or what belongs to it. `assign` is among them because the
workload it writes names an organization. -/
inductive AdminCall where
  | updateOrganization (organizationId : Uuid) (request : OrganizationUpdate)
  | deleteOrganization (organizationId : Uuid) (version : Nat)
  | addMember (organizationId userId : Uuid)
  | assign (workloadId organizationId : Uuid)

structure AdminRequest where
  principal : Principal
  call : AdminCall

def AdminRequest.program (r : AdminRequest) : AdminProg Unit :=
  match r.call with
  | .updateOrganization organizationId request => updateOrganization r.principal organizationId request
  | .deleteOrganization organizationId version => deleteOrganization r.principal organizationId version
  | .addMember organizationId userId => addMember r.principal organizationId userId
  | .assign workloadId organizationId => assign r.principal workloadId organizationId

def adminSchema : Schema Estate Row AdminWrite Unit Unit Exn Input AdminRequest where
  apply w e := w.apply e
  program := AdminRequest.program

end PveMaster.Administration
