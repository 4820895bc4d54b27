import PveMaster.Foundation.Table
import PveMaster.Core

/-! Workloads, operations, the Proxmox tasks of an operation, and the backup and
restore runs that belong to one. -/
namespace PveMaster

inductive PowerAction where
  | start
  | shutdown
  | stop
  | reboot
  | reset
  deriving DecidableEq, Repr

inductive AdminVmAction where
  | updateSpec
  | delete
  deriving DecidableEq, Repr

/-- The values of `operations.action`, the column by which the power runner decides what to do. -/
inductive OperationAction where
  | power (action : PowerAction)
  | admin (action : AdminVmAction)
  | backup
  | restore
  deriving DecidableEq, Repr

/-- The values of `operations.operation_type`, the column by which recovery and the other two
runners decide what is theirs. -/
inductive OperationType where
  | power (action : PowerAction)
  | vmSpecUpdate
  | vmDelete
  | workloadBackup
  | workloadRestore
  deriving DecidableEq, Repr

/-- The action stored beside an operation type by the four request functions. The two columns are
written together and never again. -/
def OperationType.action : OperationType → OperationAction
  | .power a => .power a
  | .vmSpecUpdate => .admin .updateSpec
  | .vmDelete => .admin .delete
  | .workloadBackup => .backup
  | .workloadRestore => .restore

/-- The value of `operations.operation_type`. -/
def OperationType.value : OperationType → String
  | .power .start => "POWER_START"
  | .power .shutdown => "POWER_SHUTDOWN"
  | .power .stop => "POWER_STOP"
  | .power .reboot => "POWER_REBOOT"
  | .power .reset => "POWER_RESET"
  | .vmSpecUpdate => "VM_SPEC_UPDATE"
  | .vmDelete => "VM_DELETE"
  | .workloadBackup => "WORKLOAD_BACKUP"
  | .workloadRestore => "WORKLOAD_RESTORE"

/-- The values of `operations.status`, which are those of `backup_runs.status` and
`restore_runs.status` too. -/
inductive OperationStatus where
  | queued
  | running
  | succeeded
  | failed
  | timeout
  deriving DecidableEq, Repr

/-- `TERMINAL_OPERATION_STATUSES`: the work has ended, well or not. A runner that finds its
operation so leaves at once. -/
def OperationStatus.terminal : OperationStatus → Bool
  | .succeeded | .failed | .timeout => true
  | .queued | .running => false

theorem OperationStatus.failed_ne : OperationStatus.failed ≠ .succeeded := by decide

theorem OperationStatus.timeout_ne : OperationStatus.timeout ≠ .succeeded := by decide

inductive WorkloadKind where
  | qemu
  | lxc
  deriving DecidableEq, Repr

/-- A row of `workloads`: a guest of a cluster as it was last seen, and the organization it is
assigned to, if any. `isPresent` is false once the guest has gone; the row itself stays. -/
structure Workload where
  id : Uuid
  clusterId : Uuid
  vmid : Int
  node : String
  kind : WorkloadKind
  name : Option String
  powerState : String
  cpuCores : Option Int
  memoryBytes : Option Int
  diskBytes : Option Int
  isTemplate : Bool
  isPresent : Bool
  organizationId : Option Uuid
  observedAt : Instant
  version : Nat
  deriving DecidableEq

/-- A row of `workload_assignments`, the history behind `workloads.organization_id`: the
assignment is the current one while `revokedAt` is null. -/
structure WorkloadAssignment where
  id : Uuid
  workloadId : Uuid
  organizationId : Uuid
  assignedById : Uuid
  revokedById : Option Uuid
  revokedAt : Option Instant
  deriving DecidableEq

/-- A row of `operations`: something requested of one workload, worked off by a runner.
`idempotencyKeyHash` and `requestFingerprint` recognise the same request when it is sent again. -/
structure Operation where
  id : Uuid
  operationType : OperationType
  action : OperationAction
  status : OperationStatus
  requestedById : Uuid
  sourceIp : String
  organizationId : Option Uuid
  clusterId : Uuid
  workloadId : Uuid
  idempotencyKeyHash : Digest
  requestFingerprint : Digest
  celeryTaskId : String
  result : Dict
  errorCode : Option String
  errorSummary : Option String
  retryable : Option Bool
  attemptCount : Nat
  startedAt : Option Instant
  finishedAt : Option Instant
  heartbeatAt : Option Instant
  version : Nat
  /-- Both are written once, by the function that accepts the request. -/
  consistent : action = operationType.action := by rfl
  deriving DecidableEq

/-- An operation as it is inserted: `QUEUED`, never tried yet, with the action its type stands for. -/
def Operation.queued (id : Uuid) (celeryTaskId : String) (type : OperationType) (requestedById : Uuid)
    (sourceIp : String) (organizationId : Option Uuid) (clusterId workloadId : Uuid)
    (idempotencyKeyHash requestFingerprint : Digest) (result : Dict) : Operation where
  id := id
  operationType := type
  action := type.action
  status := .queued
  requestedById := requestedById
  sourceIp := sourceIp
  organizationId := organizationId
  clusterId := clusterId
  workloadId := workloadId
  idempotencyKeyHash := idempotencyKeyHash
  requestFingerprint := requestFingerprint
  celeryTaskId := celeryTaskId
  result := result
  errorCode := none
  errorSummary := none
  retryable := none
  attemptCount := 0
  startedAt := none
  finishedAt := none
  heartbeatAt := none
  version := 1

inductive PveTaskStatus where
  | running
  | succeeded
  | failed
  | timeout
  deriving DecidableEq, Repr

/-- A row of `pve_tasks`: a task of Proxmox that an operation has started, kept under its UPID as
soon as Proxmox has answered with one. -/
structure PveTask where
  id : Uuid
  operationId : Uuid
  clusterId : Uuid
  workloadId : Uuid
  stepName : String
  upid : String
  status : PveTaskStatus
  pveNode : String
  pveExitStatus : Option String
  submittedAt : Instant
  lastPolledAt : Option Instant
  completedAt : Option Instant
  pollAttempts : Nat
  errorCode : Option String
  deriving DecidableEq

/-- The columns of `backup_targets` that a requested backup or restore reads. -/
structure BackupTarget where
  id : Uuid
  clusterId : Uuid
  storageId : String
  isEnabled : Bool
  deriving DecidableEq

/-- A row of `backup_runs`: what a backup operation makes, with the archive found for it when its
task has ended. -/
structure BackupRun where
  id : Uuid
  operationId : Uuid
  backupTargetId : Uuid
  workloadId : Uuid
  mode : String
  compression : String
  status : OperationStatus
  snapshotVolumeId : Option String
  snapshotTime : Option Instant
  sizeBytes : Option Int
  transferredBytes : Option Int
  startedAt : Option Instant
  finishedAt : Option Instant
  deriving DecidableEq

/-- A row of `restore_runs`: what a restore operation makes of an archive, and the VMID it takes
for it. -/
structure RestoreRun where
  id : Uuid
  operationId : Uuid
  backupRunId : Uuid
  clusterId : Uuid
  sourceWorkloadId : Uuid
  targetNode : String
  targetVmid : Int
  targetName : String
  status : OperationStatus
  startedAt : Option Instant
  finishedAt : Option Instant
  deriving DecidableEq

instance : Keyed Workload Uuid := ⟨Workload.id⟩
instance : Keyed WorkloadAssignment Uuid := ⟨WorkloadAssignment.id⟩
instance : Keyed Operation Uuid := ⟨Operation.id⟩
instance : Keyed PveTask Uuid := ⟨PveTask.id⟩
instance : Keyed BackupTarget Uuid := ⟨BackupTarget.id⟩
instance : Keyed BackupRun Uuid := ⟨BackupRun.id⟩
instance : Keyed RestoreRun Uuid := ⟨RestoreRun.id⟩

end PveMaster
