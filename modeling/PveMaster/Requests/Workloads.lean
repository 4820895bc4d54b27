import PveMaster.Provisioning.Session
import PveMaster.Requests.Operations

/-! `WorkloadService.assign` and `unassign`.

Both lock the workload's row first. An insert of an operation waits for that lock, because
of its foreign key, so each is one transaction on what it finds. -/
namespace PveMaster.WorkloadService
open Prog ServiceProg

variable (principal : Principal)

def notFound : Exn := .app ⟨404, "WORKLOAD_NOT_FOUND", "The workload was not found.", []⟩

/-- `_locked_workload`: present, and on a cluster that is active. Anything else is not found. -/
def lockedWorkload (db : Db) (workloadId : Uuid) : Except Exn Workload :=
  orRaise ((db.workloads.get? workloadId).filter (fun w => w.isPresent &&
    (db.clusters.get? w.clusterId).any (·.isActive))) notFound

def alreadyAssigned (message : String) : AppError := ⟨409, "WORKLOAD_ALREADY_ASSIGNED", message, []⟩

/-- The audit event of a change of ownership. -/
def ownershipAudit (action : String) (organizationId : Option Uuid) (workloadId : Uuid) : AuditLog where
  action := action
  outcome := .succeeded
  actorUserId := some principal.userId
  actorRole := some principal.role
  organizationId := organizationId
  workloadId := some workloadId
  operationId := none
  pveUpid := none
  resourceType := "workload"
  resourceId := some workloadId
  errorCode := none

/-- `assign`, as one transaction: an assignment to the organization that has it already changes
nothing, one to another organization is refused. -/
def assigned (workloadId organizationId : Uuid) (i : Input) (_now : Instant) (db : Db) :
    Except Exn Db := do
  let workload ← lockedWorkload db workloadId
  let organization ← orRaise ((db.organizations.get? organizationId).filter (·.isActive))
    (.app ⟨404, "ORGANIZATION_NOT_FOUND", "The organization was not found.", []⟩)
  raiseIf (workload.isPresent = false ∨ workload.isTemplate = true)
    (.app ⟨409, "WORKLOAD_NOT_ASSIGNABLE",
      "Only present, non-template workloads can be assigned.", []⟩)
  let elsewhere := alreadyAssigned "The workload is already assigned to another organization."
  match activeAssignment db.assignments workload.id with
  | some active => do
    raiseIf (active.organizationId ≠ organization.id) (.app elsewhere)
    return db
  | none => do
    raiseIf (workload.organizationId ≠ none ∧ workload.organizationId ≠ some organization.id)
      (.app elsewhere)
    let assignments ← orRaise (db.assignments.insert
      { id := i.uuid 0
        workloadId := workload.id
        organizationId := organization.id
        assignedById := principal.userId
        revokedById := none
        revokedAt := none })
      (.appFrom (alreadyAssigned "The workload was assigned by another request."))
    return { db with
      assignments := assignments
      workloads := db.workloads.update workload.id (fun w =>
        { w with organizationId := some organization.id, version := w.version + 1 })
      auditLogs := db.auditLogs ++
        [ownershipAudit principal "WORKLOAD_ASSIGNED" (some organization.id) workload.id] }

/-- `unassign`, as one transaction. A workload that nobody has stays so, without an audit event.
-/
def unassigned (workloadId : Uuid) (_i : Input) (now : Instant) (db : Db) : Except Exn Db := do
  let workload ← lockedWorkload db workloadId
  match workload.organizationId with
  | none => return db
  | some organizationId => do
    raiseIf ((activeOperation workload.id db).isSome)
      (.app ⟨409, "WORKLOAD_OPERATION_ACTIVE",
        "The workload cannot be unassigned while an operation is active.", []⟩)
    let assignments := match activeAssignment db.assignments workload.id with
      | some assignment => db.assignments.update assignment.id (fun a =>
          { a with revokedById := some principal.userId, revokedAt := some now })
      | none => db.assignments
    return { db with
      assignments := assignments
      workloads := db.workloads.update workload.id (fun w =>
        { w with organizationId := none, version := w.version + 1 })
      auditLogs := db.auditLogs ++
        [ownershipAudit principal "WORKLOAD_UNASSIGNED" (some organizationId) workload.id] }

/-- The service's role check, which comes before any row is read, and the transaction. -/
def transaction (t : Input → Instant → Db → Except Exn Db) : ServiceProg Unit := do
  ofExcept (requireServiceRole principal [.superAdmin, .operator])
  perform (.transact t id)

def assign (workloadId organizationId : Uuid) : ServiceProg Unit :=
  transaction principal (assigned principal workloadId organizationId)

def unassign (workloadId : Uuid) : ServiceProg Unit :=
  transaction principal (unassigned principal workloadId)

end PveMaster.WorkloadService
