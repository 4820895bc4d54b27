import PveMaster.Requests.System

/-! What a customer reads: `CustomerPortalService.list_vms`, `get_vm` and `get_job`.

Each is given on one state of the database. `list_vms`, `get_vm` and the power actions look
for a workload by the organization it belongs to; `get_job` looks for an operation by the
organization it was accepted for. Names of organizations are left out of the answers, and
with them only the organizations that are looked up for one. -/
namespace PveMaster.CustomerPortalService
open Prog

variable (rt : Runtime) (principal : Principal)

/-- `exists(... organization_members ...)`. -/
def membership (organizationId : Option Uuid) (db : Db) : Bool :=
  (db.members.first (fun m => m.userId == principal.userId &&
    some m.organizationId == organizationId)).isSome

/-- `exists(... organizations ...)`. -/
def activeOrganization (organizationId : Option Uuid) (db : Db) : Bool :=
  (db.organizations.first (fun g => some g.id == organizationId && g.isActive)).isSome

/-- The condition of `_owned_workloads_query`. -/
def owned (db : Db) (w : Workload) : Bool :=
  w.organizationId.isSome && w.kind == .qemu && w.isPresent && !w.isTemplate &&
    membership principal w.organizationId db && activeOrganization w.organizationId db

theorem ownedVm_eq (vmId : Uuid) (db : Db) :
    ownedVm principal vmId db = (db.workloads.get? vmId).filter (owned principal db) := rfl

/-- `ORDER BY name ASC, id ASC`, in which a missing name comes last. -/
def listedBefore (v w : Workload) : Bool :=
  match v.name, w.name with
  | some a, some b => decide (a < b) || (a == b && decide (v.id ≤ w.id))
  | some _, none => true
  | none, some _ => false
  | none, none => decide (v.id ≤ w.id)

/-- `_owned_workloads_query`, in the order of `list_vms`. -/
def ownedWorkloads (db : Db) : List Workload :=
  (db.workloads.select (owned principal db)).mergeSort listedBefore

/-- `_assigned_ip_addresses` of one workload. -/
def assignedIpAddresses (workloadId : Uuid) (db : Db) : List String :=
  let allocations := db.ipam.allocations.select fun l =>
    l.workloadId == some workloadId && l.status == .assigned
  let addresses := allocations.filterMap fun l => (db.ipam.addresses.get? l.ipAddressId).map IpAddress.address
  let before (a b : Inet) : Bool := match a.version, b.version with
    | .v4, .v6 => true
    | .v6, .v4 => false
    | _, _ => decide (a.ip ≤ b.ip)
  (addresses.mergeSort before).map Inet.text

structure VmSummary where
  id : Uuid
  name : String
  powerState : String
  cpuCores : Option Int
  memoryBytes : Option Int
  diskBytes : Option Int
  assignedIpAddresses : List String
  observedAt : Instant
  deriving DecidableEq

/-- `_vm_summary`. -/
def vmSummary (db : Db) (w : Workload) : VmSummary where
  id := w.id
  name := match w.name with
    | some name => if name = "" then "Unnamed VM" else name
    | none => "Unnamed VM"
  powerState := w.powerState
  cpuCores := w.cpuCores
  memoryBytes := w.memoryBytes
  diskBytes := w.diskBytes
  assignedIpAddresses := assignedIpAddresses w.id db
  observedAt := w.observedAt

/-- Whether `_organization_names` has the workload's organization. -/
def named (db : Db) (w : Workload) : Bool := activeOrganization w.organizationId db

def listVms (db : Db) : Except Exn (List VmSummary) := do
  requireServiceRole principal [.customer]
  return ((ownedWorkloads principal db).filter (named db)).map (vmSummary db)

/-! ### Jobs -/

structure JobResponse where
  jobId : Uuid
  vmId : Uuid
  action : PowerAction
  actionMode : String
  status : OperationStatus
  result : Dict
  errorCode : Option String
  errorSummary : Option String
  retryable : Option Bool
  startedAt : Option Instant
  finishedAt : Option Instant
  deriving DecidableEq

/-- The keys of a result that customers see. -/
def safeKeys : List String := ["action_mode", "no_op", "message", "final_power_state"]

/-- `_job_response`: the action has to be one of the power actions. -/
def jobResponse (o : Operation) : Except Exn JobResponse :=
  match o.action with
  | .power action => .ok
    { jobId := o.id
      vmId := o.workloadId
      action := action
      actionMode := rt.strOf o.result "action_mode" "STANDARD"
      status := o.status
      result := o.result.filter (fun e => decide (e.1 ∈ safeKeys))
      errorCode := o.errorCode
      errorSummary := o.errorSummary
      retryable := o.retryable
      startedAt := o.startedAt
      finishedAt := o.finishedAt }
  | _ => .error .valueError

/-- The operations of `_recent_jobs`, the newest first. -/
def recentOperations (vmId : Uuid) (db : Db) : List Operation :=
  ((db.operations.select fun o => o.workloadId == vmId &&
    o.requestedById == principal.userId).reverse).take 10

/-- `_recent_jobs`. -/
def recentJobs (vmId : Uuid) (db : Db) : Except Exn (List JobResponse) :=
  (recentOperations principal vmId db).mapM (jobResponse rt)

def getVm (vmId : Uuid) (db : Db) : Except Exn (VmSummary × List JobResponse) := do
  requireServiceRole principal [.customer]
  let workload ← orRaise (ownedVm principal vmId db) vmMissing
  let jobs ← recentJobs rt principal workload.id db
  raiseIf (named db workload = false) vmMissing
  return (vmSummary db workload, jobs)

/-- The operation `get_job` looks for. -/
def visibleJob (jobId : Uuid) (db : Db) : Option Operation :=
  (db.operations.get? jobId).filter (fun o => o.requestedById == principal.userId &&
    membership principal o.organizationId db && activeOrganization o.organizationId db)

def getJob (jobId : Uuid) (db : Db) : Except Exn JobResponse := do
  requireServiceRole principal [.customer]
  let operation ← orRaise (visibleJob principal jobId db)
    (.app ⟨404, "JOB_NOT_FOUND", "The job was not found.", []⟩)
  jobResponse rt operation

end PveMaster.CustomerPortalService
