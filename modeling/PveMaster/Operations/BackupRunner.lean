import PveMaster.Operations.PowerRunner

/-! `BackupOperationRunner` and `RestoreOperationRunner`.

Unlike the power runner they check the operation's type, and a client that cannot
be opened ends the operation before any call. -/
namespace PveMaster

/-- What `_open_client` of either runner does; it raises what keeps it from a client. -/
def openRunnerClient (message : String) (cluster : Option Cluster)
    (credential : Option ClusterCredential) : OpProg Unit := do
  match cluster, credential with
  | some cluster, some credential =>
    if cluster.isActive then do
      Prog.ofExcept ((← Prog.op (.connect cluster credential)).mapError Exn.app)
    else Prog.raise (.app (clusterUnavailable message))
  | _, _ => Prog.raise (.app (clusterUnavailable message))

/-- The years 1 to 9999, outside which Python has no `datetime`. -/
def isDatetime (time : Instant) : Bool := -62135596800 * second ≤ time && time < 253402300800 * second

/-- `datetime.fromtimestamp(value, tz=UTC)`; what else it can raise than a `ValueError` is caught nowhere either. -/
def fromTimestamp (value : Number) : Except Exn Instant :=
  let time? : Option Instant := match value with
    | .int seconds => some (seconds * second)
    | .float (.finite negative units _) => some (Double.signed negative (Double.millionths units))
    | .float (.infinite _) | .float .nan => none
  orRaise (time?.filter isDatetime) .valueError

/-- `float(value)`; an integer can be too large, which is an `OverflowError`. -/
def Number.toFloat : Number → Except Exn Double
  | .int i => orRaise (Double.ofInt i) .other
  | .float x => .ok x

namespace SubmissionRunner
open Prog OpProg

variable (rt : Runtime)

/-- `_finish` of either runner with a failure. -/
def fail (code : String) (withTask : Bool := true) : OpProg Unit := do
  let time ← now
  finish { time := time, status := .failed, errorCode := some code, retryable := false,
           withTask := withTask }

/-- A submission that was answered by an error. A timeout leaves open whether the task was
started, so the operation ends as timed out and nothing is submitted again. -/
def submissionFailed (error : AppError) : OpProg Unit := do
  let time ← now
  if error.code = "PVE_TIMEOUT" then
    finish { time := time, status := .timeout, errorCode := some error.code, retryable := false }
  else
    finish { time := time, status := .failed, errorCode := some error.code, retryable := false }

/-- The row of a task just submitted, and its commit. Until that commit the UPID is known to this
process alone. -/
def recordTask (operation : Operation) (clusterId workloadId : Uuid) (stepName node upid : String) :
    OpProg Unit := do
  let id ← op .uuid4
  let submitted ← now
  let task : PveTask :=
    { id := id
      operationId := operation.id
      clusterId := clusterId
      workloadId := workloadId
      stepName := stepName
      upid := upid
      status := .running
      pveNode := node
      pveExitStatus := none
      submittedAt := submitted
      lastPolledAt := none
      completedAt := none
      pollAttempts := 0
      errorCode := none }
  let beaten ← now
  assign { heartbeatAt := some beaten }
  perform (.addTask task)

/-- `_poll` of either runner, which differ in what follows a success; `n` is what `poll_attempts`
still leaves of the maximum. The attempts are stored with each poll. -/
def poll (success : PveTask → OpProg Unit) (deadline : Instant) : Nat → OpProg Unit
  | 0 => PowerRunner.timeOut
  | n + 1 => do
    let time ← now
    if deadline ≤ time then PowerRunner.timeOut
    else do
      let polled ← now
      assign { heartbeatAt := some polled
               task := fun t =>
                 { t with pollAttempts := t.pollAttempts + 1, lastPolledAt := some polled } }
      let task ← row (← session).task
      match ← attempt (perform (.call (.getTaskStatus task.pveNode task.upid))) with
      | .error (.app error) =>
        if retryableCodes.contains error.code then do
          commit
          poll success deadline n
        else do
          assign { task := fun t => { t with status := .failed, errorCode := some error.code } }
          fail error.code
      | .error e => raise e
      | .ok status =>
        let status : Dict := status
        if status.get? "status" = some (.str "running") then do
          commit
          poll success deadline n
        else do
          let exitStatus := ((status.get? "exitstatus").filter (· ≠ .null)).map rt.str
          let completed ← now
          assign { task := fun t =>
            { t with pveExitStatus := exitStatus, completedAt := some completed } }
          if status.get? "status" ≠ some (.str "stopped") ∨
              status.get? "exitstatus" ≠ some (.str "OK") then do
            assign { task := fun t => { t with status := .failed } }
            fail "PVE_TASK_FAILED"
          else do
            assign { task := fun t => { t with status := .succeeded } }
            success task

/-- `_poll` from its first line. -/
def startPoll (success : PveTask → OpProg Unit) : OpProg Unit := do
  let task ← row (← session).task
  let time ← now
  poll rt success (time + rt.settings.pveTaskTimeout) (PowerRunner.pollsLeft rt task)

end SubmissionRunner

namespace BackupRunner
open Prog OpProg

variable (rt : Runtime)

/-- What makes an entry a candidate of `_latest_snapshot`: it has a volume, is a backup, and is of
this guest or of none that is named. -/
def isCandidate (vmid : Int) (item : Dict) : Except Exn Bool :=
  if ((item.get? "volid").bind Json.asStr?).isSome ∧ (item.get? "content").getD (.str "backup") = .str "backup" then
    match (item.get? "vmid").getD .null with
    | .null => .ok true
    | value => value.isVmid vmid
  else .ok false

/-- `timestamp`: the `ctime` of an entry as a float, and 0 for an entry without a number there. -/
def timestamp (item : Dict) : Except Exn Double :=
  match (item.get? "ctime").bind Json.number? with
  | some value => value.toFloat
  | none => .ok .zero

/-- `_latest_snapshot`: `max` takes the first of the greatest, and the floats are compared, so a
`nan` is passed over unless it comes first. Nothing tells whose backup an entry is. -/
def latestSnapshot (content : List Dict) (vmid : Int) : Except Exn (Option Dict) := do
  let candidates ← content.filterM (isCandidate vmid)
  let timed ← candidates.mapM fun item => (timestamp item).map (·, item)
  return (firstGreatest (fun entry : Double × Dict => entry.1.value?) timed).map Prod.snd

/-- The metadata of a snapshot, as `_poll` assigns it to the run. What has been assigned when an
error is raised stays assigned. -/
def recordSnapshot (snapshot : Dict) : OpProg Unit := do
  let volid ← row ((snapshot.get? "volid").bind Json.asStr?)
  assign { backupRun := fun r => { r with snapshotVolumeId := some volid } }
  match (snapshot.get? "ctime").bind Json.number? with
  | some ctime => do
    let time ← ofExcept (fromTimestamp ctime)
    assign { backupRun := fun r => { r with snapshotTime := some time } }
  | none => pure ()
  match (snapshot.get? "size").bind Json.asInt? with
  | some size =>
    if 0 ≤ size then assign { backupRun := fun r => { r with sizeBytes := some size } }
    else return ()
  | none => return ()

/-- The first `try` after a success; whether the metadata is still pending. An `AppError` of the
listing leaves it so. -/
def readMetadata (workload : Workload) (target : BackupTarget) : OpProg Bool := do
  match ← attempt (perform (.call (.getBackupContent workload.node target.storageId workload.vmid))) with
  | .ok content =>
    match ← ofExcept (latestSnapshot content workload.vmid) with
    | some snapshot => do
      recordSnapshot snapshot
      return false
    | none => return true
  | .error (.app _) => return true
  | .error e => raise e

/-- The second `try`; whether the measurement is still pending. A log that says nothing of bytes
leaves it so. -/
def measureTransfer (task : PveTask) : OpProg Bool := do
  match ← attempt (perform (.call (.getTaskLog task.pveNode task.upid))) with
  | .ok log => do
    let bytes ← ofExcept (rt.backupTransferBytes log)
    assign { backupRun := fun r => { r with transferredBytes := bytes } }
    return bytes.isNone
  | .error (.app _) => return true
  | .error e => raise e

/-- The end of `_poll` for a task that stopped with `OK`. -/
def succeed (workload : Workload) (target : BackupTarget) (task : PveTask) : OpProg Unit := do
  let metadataPending ← readMetadata workload target
  let measurementPending ← measureTransfer rt task
  let run ← row (← session).backupRun
  let volid := match run.snapshotVolumeId with
    | some volid => Json.str volid
    | none => .null
  let time ← now
  finish { time := time, status := .succeeded, retryable := false, withTask := true
           result := fun r => r.merge
             [("snapshot_volume_id", volid), ("metadata_pending", .bool metadataPending),
              ("transfer_measurement_pending", .bool measurementPending)] }

/-- The body of `run`'s `try`. -/
def body (operation : Operation) (workload : Workload) (target : BackupTarget) (run : BackupRun) :
    OpProg Unit := do
  let cluster ← op (.getCluster workload.clusterId)
  let credential ← op (.activeCredential workload.clusterId)
  openRunnerClient "The workload cluster is unavailable." cluster credential
  match (← session).task with
  | some _ => SubmissionRunner.startPoll rt (succeed rt workload target)
  | none => do
    match ← attempt (perform (.call (.submitGuestBackup workload.node workload.vmid target.storageId
      run.mode run.compression))) with
    | .error (.app error) => SubmissionRunner.submissionFailed error
    | .error e => raise e
    | .ok upid => do
      SubmissionRunner.recordTask operation workload.clusterId workload.id "backup" workload.node upid
      SubmissionRunner.startPoll rt (succeed rt workload target)

def run : OpProg Unit := do
  match ← perform .enter with
  | .ended | .admin => return ()
  | .proceed _ => do
    let s ← session
    let operation ← row s.operation
    let workload ← row s.workload
    let target ← row s.target
    let backupRun ← row s.backupRun
    match ← attempt (body rt operation workload target backupRun) with
    | .ok () => return ()
    | .error (.app error) => do
      let task := (← session).task
      SubmissionRunner.fail error.code task.isSome
    | .error e => raise e

end BackupRunner

namespace RestoreRunner
open Prog OpProg

variable (rt : Runtime)

/-- `_target_is_free`: the node is online and no guest of the cluster has the VMID, as Proxmox
answers at that moment. -/
def targetIsFree (restore : RestoreRun) : OpProg Bool := do
  let nodes : List Dict ← perform (.call .getNodes)
  if nodes.any (fun item => item.get? "node" == some (.str restore.targetNode) &&
      rt.lower (rt.strOf item "status" "") == "online") then do
    let guests : List Dict ← perform (.call .getGuests)
    let taken ← ofExcept (guests.anyM fun item => ((item.get? "vmid").getD .null).isVmid restore.targetVmid)
    return !taken
  else return false

/-- The end of `_poll` for a task that stopped with `OK`. -/
def succeed : OpProg Unit := do
  let time ← now
  finish { time := time, status := .succeeded, retryable := false, withTask := true
           result := fun r => r.merge [("restored", .bool true)] }

/-- The body of `run`'s `try`. -/
def body (operation : Operation) (workload : Workload) (source : BackupRun) (restore : RestoreRun)
    (cluster : Cluster) : OpProg Unit := do
  let credential ← op (.activeCredential cluster.id)
  openRunnerClient "The restore cluster is unavailable." (some cluster) credential
  match (← session).task with
  | some _ => SubmissionRunner.startPoll rt (fun _ => succeed)
  | none => do
    if ← targetIsFree rt restore then do
      match ← attempt (perform (.call (.submitGuestRestore workload.kind restore.targetNode
        (source.snapshotVolumeId.getD "") restore.targetVmid restore.targetName))) with
      | .error (.app error) => SubmissionRunner.submissionFailed error
      | .error e => raise e
      | .ok upid => do
        SubmissionRunner.recordTask operation cluster.id workload.id "restore" restore.targetNode upid
        SubmissionRunner.startPoll rt (fun _ => succeed)
    else SubmissionRunner.fail "RESTORE_TARGET_CONFLICT" false

def run : OpProg Unit := do
  match ← perform .enter with
  | .ended | .admin => return ()
  | .proceed _ => do
    let s ← session
    let operation ← row s.operation
    let workload ← row s.workload
    let source ← row s.source
    let restore ← row s.restoreRun
    let cluster ← row s.cluster
    match ← attempt (body rt operation workload source restore cluster) with
    | .ok () => return ()
    | .error (.app error) => do
      let task := (← session).task
      SubmissionRunner.fail error.code task.isSome
    | .error e => raise e

end RestoreRunner
end PveMaster
