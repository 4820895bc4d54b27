import PveMaster.Requests.Operations

/-! `BackupService.request_backup` and `request_restore`.

A backup checks its workload and its target before it looks for an operation under the same key,
as the other requests do; a restore checks the run it restores from, and asks Proxmox for the node
and the VMID only if there is no such operation. Both insert the operation, the run and the audit
event in one commit. The two payloads carry what their schemas admit as fields: no request with
another mode, or with a name that is no host name, can be written down. -/
namespace PveMaster.BackupService
open Prog ServiceProg

variable (rt : Runtime) (api : Api) (principal : Principal) (sourceIp : String)

/-! ### Payloads -/

/-- `BackupRequest`; its schema admits one mode and one compression, so that the fingerprint of a
backup depends on its target and its workload alone. -/
structure BackupRequest where
  backupTargetId : Uuid
  mode : String := "snapshot"
  compression : String := "zstd"
  literal : mode = "snapshot" ∧ compression = "zstd" := by exact ⟨rfl, rfl⟩

/-- The payload that names a target and leaves the rest to the defaults of the schema. -/
def BackupRequest.of (backupTargetId : Uuid) : BackupRequest := { backupTargetId := backupTargetId }

/-- `[A-Za-z0-9._-]`, a character of the name of a node. -/
def nodeChar (c : Char) : Bool := JsonText.plain c

/-- `[A-Za-z0-9-]`, a character of the name of the guest that is restored. -/
def nameChar (c : Char) : Bool := JsonText.plain c && c != '.' && c != '_'

/-- `RestoreRequest`, with what its patterns and bounds admit. -/
structure RestoreRequest where
  targetNode : String
  targetVmid : Int
  targetName : String
  node : targetNode ≠ "" ∧ targetNode.toList.all nodeChar = true
  vmid : 100 ≤ targetVmid ∧ targetVmid ≤ 999999999
  name : targetName ≠ "" ∧ targetName.toList.all nameChar = true ∧
    targetName.toList.head? ≠ some '-' ∧ targetName.toList.getLast? ≠ some '-'

/-! ### Backups -/

/-- The dictionary behind the fingerprint of a backup, its keys sorted. -/
def backupDict (workloadId : Uuid) (payload : BackupRequest) : Dict :=
  [("backup_target_id", uuidJson payload.backupTargetId), ("compression", .str payload.compression),
    ("mode", .str payload.mode), ("workload_id", uuidJson workloadId)]

/-- The run an operation has inserted with it. -/
def backupRunOf (operationId : Uuid) (db : Db) : Option BackupRun :=
  db.backupRuns.first (fun r => r.operationId == operationId)

/-- The run of a backup as it is inserted, `QUEUED` like its operation. -/
def queuedBackup (id : Uuid) (o : Operation) (payload : BackupRequest) : BackupRun where
  id := id
  operationId := o.id
  backupTargetId := payload.backupTargetId
  workloadId := o.workloadId
  mode := payload.mode
  compression := payload.compression
  status := .queued
  snapshotVolumeId := none
  snapshotTime := none
  sizeBytes := none
  transferredBytes := none
  startedAt := none
  finishedAt := none

def requestBackup (workloadId : Uuid) (payload : BackupRequest) (idempotencyKey : String) :
    ServiceProg JobAnswer := do
  ofExcept (requireServiceRole principal [.superAdmin, .operator])
  match ← query (liveWorkload workloadId) with
  | none => raise (.app (vmNotFound "The workload was not found."))
  | some workload => do
    match (← query (·.backupTargets.get? payload.backupTargetId)).filter (·.isEnabled) with
    | none => raise (.app ⟨404, "BACKUP_TARGET_NOT_FOUND", "The backup target was not found.", []⟩)
    | some target =>
      if target.clusterId ≠ workload.clusterId then
        raise (.app ⟨409, "BACKUP_TARGET_CLUSTER_MISMATCH",
          "The backup target belongs to another cluster.", []⟩)
      else do
        let keyHash := api.keyHash idempotencyKey
        let fingerprint := api.sha256 (JsonText.dumps (backupDict workload.id payload))
        let reused := Exn.app (keyReused "The idempotency key was reused.")
        match ← lookup principal.userId keyHash with
        | some existing =>
          if existing.requestFingerprint ≠ fingerprint then raise reused
          else
            match ← queryRun (backupRunOf existing.id) with
            | none => raise reused
            | some _ => return ⟨existing.id, false⟩
        | none => do
          match ← query (activeOperation workload.id) with
          | some _ => raise (.app (operationConflict "Another workload operation is running."))
          | none => do
            let id ← uuid4
            let taskId ← uuid4
            let operation := queuedOperation id (String.ofList (Text.uuid taskId)) .workloadBackup
              principal sourceIp workload.organizationId workload.clusterId workload.id keyHash
              fingerprint
              [("backup_target_id", uuidJson target.id), ("storage_id", .str target.storageId),
                ("mode", .str payload.mode), ("compression", .str payload.compression),
                ("workload_kind", .str workload.kind.value)]
            let runId ← uuid4
            let conflict := Exn.appFrom (operationConflict "A conflicting operation exists.")
            store
              { operation := operation
                backupRun := some (queuedBackup runId operation payload)
                audit := attemptedAudit principal operation workload.organizationId
                  "WORKLOAD_BACKUP" "workload" workload.id }
              conflict conflict

/-! ### Restores -/

/-- The rows `request_restore` joins. A run whose target, cluster or workload is gone is not
found. -/
structure RestoreSource where
  backup : BackupRun
  operation : Operation
  target : BackupTarget
  cluster : Cluster
  workload : Workload

/-- The join, with the cluster active. -/
def restoreSource (runId : Uuid) (db : Db) : Option RestoreSource := do
  let backup ← db.backupRuns.get? runId
  let operation ← db.operations.get? backup.operationId
  let target ← db.backupTargets.get? backup.backupTargetId
  let cluster ← (db.clusters.get? target.clusterId).filter (·.isActive)
  let workload ← db.workloads.get? backup.workloadId
  return ⟨backup, operation, target, cluster, workload⟩

/-- The dictionary behind the fingerprint of a restore, its keys sorted. -/
def restoreDict (backupRunId : Uuid) (payload : RestoreRequest) : Dict :=
  [("backup_run_id", uuidJson backupRunId), ("target_name", .str payload.targetName),
    ("target_node", .str payload.targetNode), ("target_vmid", .int payload.targetVmid)]

def restoreRunOf (operationId : Uuid) (db : Db) : Option RestoreRun :=
  db.restoreRuns.first (fun r => r.operationId == operationId)

/-- The run of a restore, with the target the payload names. -/
def queuedRestore (id : Uuid) (o : Operation) (source : RestoreSource) (payload : RestoreRequest) :
    RestoreRun where
  id := id
  operationId := o.id
  backupRunId := source.backup.id
  clusterId := source.cluster.id
  sourceWorkloadId := source.workload.id
  targetNode := payload.targetNode
  targetVmid := payload.targetVmid
  targetName := payload.targetName
  status := .queued
  startedAt := none
  finishedAt := none

/-- `_open_client`: the cluster has to have credentials that are in use. -/
def openClient (cluster : Cluster) : ServiceProg Unit := do
  match ← query (fun db =>
    db.credentials.first (fun c => c.clusterId == cluster.id && c.isActive)) with
  | none =>
    raise (.app ⟨409, "CLUSTER_CREDENTIAL_MISSING", "The cluster has no credential.", []⟩)
  | some _ => ofExcept ((← op (.connect id)).mapError Exn.app)

/-- The refusal of a VMID that Proxmox lists already. -/
def vmidInUse : AppError := ⟨409, "RESTORE_VMID_IN_USE", "The target VMID is already in use.", []⟩

/-- `item.get("vmid") in {vmid, str(vmid)}`: the answer of Proxmox may have the number or its
text. A value that cannot be hashed raises. -/
def hasVmid (vmid : Int) (item : Dict) : Except Exn Bool := ((item.get? "vmid").getD .null).isVmid vmid

/-- What is asked of the cluster and of the workloads before a restore is accepted. -/
def checkTarget (cluster : Cluster) (payload : RestoreRequest) : ServiceProg Unit := do
  match ← query (fun db => db.workloads.first (fun w =>
    w.clusterId == cluster.id && w.vmid == payload.targetVmid && w.isPresent)) with
  | some _ => raise (.app vmidInUse)
  | none => do
    openClient cluster
    let nodes : List Dict ← call .getNodes
    if nodes.any (fun item => item.get? "node" == some (.str payload.targetNode) &&
        rt.lower (rt.strOf item "status" "") == "online") then do
      let guests : List Dict ← call .getGuests
      if ← ofExcept (guests.anyM (hasVmid payload.targetVmid)) then raise (.app vmidInUse) else return ()
    else
      raise (.app ⟨409, "RESTORE_NODE_UNAVAILABLE", "The target node is unavailable.", []⟩)

def requestRestore (runId : Uuid) (payload : RestoreRequest) (idempotencyKey : String) :
    ServiceProg JobAnswer := do
  ofExcept (requireServiceRole principal [.superAdmin])
  match ← query (restoreSource runId) with
  | none => raise (.app ⟨404, "BACKUP_NOT_FOUND", "The backup run was not found.", []⟩)
  | some source =>
    if source.operation.status ≠ .succeeded ∨ source.backup.snapshotVolumeId.getD "" = "" then
      raise (.app ⟨409, "BACKUP_NOT_RESTORABLE",
        "Only a completed backup with a snapshot can be restored.", []⟩)
    else if source.target.isEnabled = false then
      raise (.app ⟨409, "BACKUP_TARGET_DISABLED", "The backup target is disabled.", []⟩)
    else do
      let keyHash := api.keyHash idempotencyKey
      let fingerprint := api.sha256 (JsonText.dumps (restoreDict source.backup.id payload))
      let reused := Exn.app (keyReused "The idempotency key was reused.")
      match ← lookup principal.userId keyHash with
      | some existing =>
        if existing.requestFingerprint ≠ fingerprint then raise reused
        else
          match ← queryRun (restoreRunOf existing.id) with
          | none => raise reused
          | some _ => return ⟨existing.id, false⟩
      | none => do
        checkTarget rt source.cluster payload
        let id ← uuid4
        let taskId ← uuid4
        let operation := queuedOperation id (String.ofList (Text.uuid taskId)) .workloadRestore
          principal sourceIp none source.cluster.id source.workload.id keyHash fingerprint
          [("backup_run_id", uuidJson source.backup.id),
            ("snapshot_volume_id", (source.backup.snapshotVolumeId.map Json.str).getD .null),
            ("storage_id", .str source.target.storageId),
            ("workload_kind", .str source.workload.kind.value),
            ("target_node", .str payload.targetNode), ("target_vmid", .int payload.targetVmid),
            ("target_name", .str payload.targetName)]
        let restoreId ← uuid4
        store
          { operation := operation
            restoreRun := some (queuedRestore restoreId operation source payload)
            audit := attemptedAudit principal operation none "WORKLOAD_RESTORE" "backup_run"
              source.backup.id }
          (.appFrom ⟨409, "RESTORE_SOURCE_CONFLICT",
            "Another operation is running for the source workload.", []⟩)
          (.appFrom ⟨409, "RESTORE_CONFLICT", "A conflicting restore is running.", []⟩)

end PveMaster.BackupService
