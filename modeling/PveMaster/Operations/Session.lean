import PveMaster.Foundation.Process
import PveMaster.Runtime

/-! The session of an operation runner and its transactions.

A runner keeps its rows as it loaded them and as it has assigned to them since
(`OpState`). A commit writes the columns that differ: a column the runner did not
touch keeps what others have committed. The first transaction of a run holds the
operation's row lock from its first read to its end and is one action
(`admitPower`, `admitBackup`, `admitRestore`). -/
namespace PveMaster

/-- The three runners, each of which has a task of its own at the broker. -/
inductive RunnerKind where
  | power
  | backup
  | restore
  deriving DecidableEq, Repr

/-- The rows a runner works with. -/
structure OpSession where
  operation : Option Operation := none
  workload : Option Workload := none
  actor : Option User := none
  task : Option PveTask := none
  backupRun : Option BackupRun := none
  target : Option BackupTarget := none
  restoreRun : Option RestoreRun := none
  /-- The backup run a restore reads from. -/
  source : Option BackupRun := none
  cluster : Option Cluster := none

/-- The rows as loaded or last committed, and as assigned to since. It is lost with the process;
what a later delivery knows of it is what was committed. -/
structure OpState where
  kind : RunnerKind
  /-- The operation the runner was called for. -/
  operationId : Uuid
  loaded : OpSession := {}
  current : OpSession := {}

/-- The session right after its rows have been read. -/
def OpState.load (θ : OpState) (s : OpSession) : OpState := { θ with loaded := s, current := s }

/-! ### Column-wise writes -/

/-- The columns of an operation that a runner assigns. One it has not touched keeps what others
have committed meanwhile. -/
def Operation.merge (loaded current stored : Operation) : Operation :=
  { stored with
    status := written loaded.status current.status stored.status
    result := written loaded.result current.result stored.result
    errorCode := written loaded.errorCode current.errorCode stored.errorCode
    errorSummary := written loaded.errorSummary current.errorSummary stored.errorSummary
    retryable := written loaded.retryable current.retryable stored.retryable
    attemptCount := written loaded.attemptCount current.attemptCount stored.attemptCount
    startedAt := written loaded.startedAt current.startedAt stored.startedAt
    finishedAt := written loaded.finishedAt current.finishedAt stored.finishedAt
    heartbeatAt := written loaded.heartbeatAt current.heartbeatAt stored.heartbeatAt
    version := written loaded.version current.version stored.version }

/-- The columns of a workload that a runner assigns. The organization is none of them. -/
def Workload.merge (loaded current stored : Workload) : Workload :=
  { stored with
    powerState := written loaded.powerState current.powerState stored.powerState
    cpuCores := written loaded.cpuCores current.cpuCores stored.cpuCores
    memoryBytes := written loaded.memoryBytes current.memoryBytes stored.memoryBytes
    diskBytes := written loaded.diskBytes current.diskBytes stored.diskBytes
    isPresent := written loaded.isPresent current.isPresent stored.isPresent
    organizationId := written loaded.organizationId current.organizationId stored.organizationId
    observedAt := written loaded.observedAt current.observedAt stored.observedAt
    version := written loaded.version current.version stored.version }

/-- The columns of a task that a runner assigns. -/
def PveTask.merge (loaded current stored : PveTask) : PveTask :=
  { stored with
    status := written loaded.status current.status stored.status
    pveExitStatus := written loaded.pveExitStatus current.pveExitStatus stored.pveExitStatus
    lastPolledAt := written loaded.lastPolledAt current.lastPolledAt stored.lastPolledAt
    completedAt := written loaded.completedAt current.completedAt stored.completedAt
    pollAttempts := written loaded.pollAttempts current.pollAttempts stored.pollAttempts
    errorCode := written loaded.errorCode current.errorCode stored.errorCode }

/-- The columns of a backup run that a runner assigns. -/
def BackupRun.merge (loaded current stored : BackupRun) : BackupRun :=
  { stored with
    status := written loaded.status current.status stored.status
    snapshotVolumeId := written loaded.snapshotVolumeId current.snapshotVolumeId
      stored.snapshotVolumeId
    snapshotTime := written loaded.snapshotTime current.snapshotTime stored.snapshotTime
    sizeBytes := written loaded.sizeBytes current.sizeBytes stored.sizeBytes
    transferredBytes := written loaded.transferredBytes current.transferredBytes
      stored.transferredBytes
    startedAt := written loaded.startedAt current.startedAt stored.startedAt
    finishedAt := written loaded.finishedAt current.finishedAt stored.finishedAt }

/-- The columns of a restore run that a runner assigns. -/
def RestoreRun.merge (loaded current stored : RestoreRun) : RestoreRun :=
  { stored with
    status := written loaded.status current.status stored.status
    startedAt := written loaded.startedAt current.startedAt stored.startedAt
    finishedAt := written loaded.finishedAt current.finishedAt stored.finishedAt }

/-- The `UPDATE` of a loaded row, if there is one: nothing is written of a row that was never
loaded. -/
def flushRow {ρ : Type} [Keyed ρ Uuid] (merge : ρ → ρ → ρ → ρ) (loaded current : Option ρ)
    (t : Table ρ) : Table ρ :=
  match loaded, current with
  | some l, some c => t.update (Keyed.key l) (merge l c)
  | _, _ => t

/-- The `UPDATE`s of a flush: the columns that changed of every loaded row. -/
def OpState.flush (θ : OpState) (db : Db) : Db :=
  { db with
    operations := flushRow Operation.merge θ.loaded.operation θ.current.operation db.operations
    workloads := flushRow Workload.merge θ.loaded.workload θ.current.workload db.workloads
    pveTasks := flushRow PveTask.merge θ.loaded.task θ.current.task db.pveTasks
    backupRuns := flushRow BackupRun.merge θ.loaded.backupRun θ.current.backupRun db.backupRuns
    restoreRuns :=
      flushRow RestoreRun.merge θ.loaded.restoreRun θ.current.restoreRun db.restoreRuns }

/-! ### Assignments -/

/-- Assignments between commits: the heartbeat of the operation, and the other rows. They are seen
by nobody else until the commit. -/
structure Edit where
  heartbeatAt : Option Instant := none
  task : PveTask → PveTask := id
  workload : Workload → Workload := id
  backupRun : BackupRun → BackupRun := id

/-- `operation.heartbeat_at = time`, where it is assigned. -/
def beat (time : Option Instant) (o : Operation) : Operation :=
  match time with
  | none => o
  | some t => { o with heartbeatAt := some t }

def OpSession.edit (s : OpSession) (e : Edit) : OpSession :=
  { s with
    operation := s.operation.map (beat e.heartbeatAt)
    task := s.task.map e.task
    workload := s.workload.map e.workload
    backupRun := s.backupRun.map e.backupRun }

def OpState.assign (θ : OpState) (e : Edit) : OpState := { θ with current := θ.current.edit e }

/-- The arguments of `_finish`, with the last assignment to the operation's result. -/
structure Finish where
  time : Instant
  status : OperationStatus
  terminal : status.terminal = true := by exact Eq.refl true
  errorCode : Option String := none
  retryable : Bool
  withTask : Bool := false
  result : Dict → Dict := id

def errorSummary (kind : RunnerKind) (errorCode : Option String) : Option String :=
  match kind, errorCode with
  | _, none => none
  | .power, some code =>
    if code = "" then none else some ("Workload operation failed (" ++ code ++ ").")
  | .backup, some code => some ("Backup operation failed (" ++ code ++ ").")
  | .restore, some code => some ("Restore operation failed (" ++ code ++ ").")

/-- What `_finish` assigns to the operation. -/
def finishedOperation (kind : RunnerKind) (f : Finish) (o : Operation) : Operation :=
  { o with
    status := f.status
    result := f.result o.result
    finishedAt := some f.time
    heartbeatAt := some f.time
    errorCode := f.errorCode
    errorSummary := errorSummary kind f.errorCode
    retryable := some f.retryable
    version := o.version + 1 }

/-- What `_finish` assigns: the operation, and the run that belongs to it. -/
def OpState.finished (θ : OpState) (f : Finish) : OpState :=
  { θ with current := { θ.current with
    operation := θ.current.operation.map (finishedOperation θ.kind f)
    backupRun := θ.current.backupRun.map (fun r =>
      { r with status := f.status, finishedAt := some f.time })
    restoreRun := θ.current.restoreRun.map (fun r =>
      { r with status := f.status, finishedAt := some f.time }) } }

/-- The audit event of `_finish`. -/
def finishAudit (θ : OpState) (f : Finish) (o : Operation) : AuditLog where
  action := o.operationType.value
  outcome := if f.status = .succeeded then .succeeded else .failed
  actorUserId := some ((θ.current.actor.map User.id).getD o.requestedById)
  actorRole := θ.current.actor.map User.role
  organizationId := if θ.kind = .restore then none else o.organizationId
  workloadId := some o.workloadId
  operationId := some o.id
  pveUpid := if f.withTask then θ.current.task.map PveTask.upid else none
  resourceType := match θ.kind with
    | .power => match o.action with
      | .admin _ => "vm"
      | _ => "workload"
    | .backup => "workload"
    | .restore => "backup_run"
  resourceId := match θ.kind with
    | .restore => θ.current.restoreRun.map RestoreRun.backupRunId
    | _ => some o.workloadId
  errorCode := if θ.kind = .power then none else f.errorCode

/-! ### Transactions -/

/-- A rollback: what was assigned is lost. -/
def OpState.rolledBack (θ : OpState) : OpState := { θ with current := θ.loaded }

/-- A commit: the database may refuse it, and then nothing of it is kept. -/
def commitTo (i : Input) (θ : OpState) (w : World) (db : Db) : OpState × World × Except Exn Unit :=
  match i.reject with
  | some e => (θ.rolledBack, w, .error e)
  | none => (θ.load θ.current, w.setDb db, .ok ())

/-- `session.commit()` with nothing but assignments pending. -/
def commitEdits (i : Input) (θ : OpState) (w : World) : OpState × World × Except Exn Unit :=
  commitTo i θ w (θ.flush w.db)

/-- `_finish`: the assignments, the audit event and the commit. -/
def commitFinish (f : Finish) (i : Input) (θ : OpState) (w : World) :
    OpState × World × Except Exn Unit :=
  let audit := (θ.current.operation.map (finishAudit θ f)).toList
  let θ := θ.finished f
  let db := θ.flush w.db
  commitTo i θ w { db with auditLogs := db.auditLogs ++ audit }

/-- `UniqueConstraint("cluster_id", "upid")` and
`UniqueConstraint("operation_id", "step_name", "upid")`. -/
def PveTasksUnique (t : Table PveTask) : Prop :=
  ∀ a ∈ t.rows, ∀ b ∈ t.rows, a.upid = b.upid →
    a.clusterId = b.clusterId ∨ a.operationId = b.operationId ∧ a.stepName = b.stepName → a.id = b.id

instance (t : Table PveTask) : Decidable (PveTasksUnique t) := by
  unfold PveTasksUnique; infer_instance

/-- `session.add(pve_task)` and its commit. -/
def commitTask (t : PveTask) (i : Input) (θ : OpState) (w : World) :
    OpState × World × Except Exn Unit :=
  match w.db.pveTasks.insert t with
  | none => (θ.rolledBack, w, .error .integrity)
  | some tasks =>
    if PveTasksUnique tasks then
      commitTo i { θ with current := { θ.current with task := some t } } w
        { θ.flush w.db with pveTasks := tasks }
    else (θ.rolledBack, w, .error .integrity)

/-- What admits a run: nothing more to do, an admin action, or the rest of `run`. -/
inductive Admission where
  | ended
  | admin
  | proceed (recovering : Bool)
  deriving DecidableEq, Repr

/-- The assignments that set an operation `RUNNING`. -/
def startedOperation (now : Instant) (o : Operation) : Operation :=
  { o with
    status := .running
    startedAt := some (o.startedAt.getD now)
    heartbeatAt := some now
    attemptCount := o.attemptCount + 1
    version := o.version + 1 }

/-- What the admitting commit assigns: the operation, and the run that belongs to it. -/
def OpState.started (θ : OpState) (now : Instant) : OpState :=
  { θ with current := { θ.current with
    operation := θ.current.operation.map (startedOperation now)
    backupRun := θ.current.backupRun.map (fun r =>
      { r with status := .running, startedAt := some (r.startedAt.getD now) })
    restoreRun := θ.current.restoreRun.map (fun r =>
      { r with status := .running, startedAt := some (r.startedAt.getD now) }) } }

/-- The outcome of an admitting transaction that committed. -/
def Admission.after (a : Admission) :
    OpState × World × Except Exn Unit → OpState × World × Except Exn Admission
  | (θ, w, .ok ()) => (θ, w, .ok a)
  | (θ, w, .error e) => (θ, w, .error e)

/-- The admitting commit. -/
def commitStart (a : Admission) (i : Input) (θ : OpState) (w : World) :
    OpState × World × Except Exn Admission :=
  a.after (commitEdits i (θ.started w.clock) w)

/-- A `_finish` inside the admitting transaction. -/
def refuse (errorCode : String) (i : Input) (θ : OpState) (w : World) :
    OpState × World × Except Exn Admission :=
  Admission.ended.after (commitFinish
    { time := w.clock, status := .failed, errorCode := some errorCode, retryable := false } i θ w)

/-- The lease test: another run of this operation may still be alive. -/
def freshLease (settings : Settings) (now : Instant) (o : Operation) : Bool :=
  match o.heartbeatAt.or o.startedAt with
  | none => false
  | some leaseStart => decide (leaseStart > now - settings.operationLease)

/-- `RUNNING` without a Proxmox task. -/
def stateUnknown (o : Operation) (task : Option PveTask) : Bool :=
  o.status == .running && task.isNone

/-- Whether the requester of a power action may still make it. -/
def powerAuthorized (db : Db) (o : Operation) (workload : Workload) (actor : User) : Bool :=
  actor.isActive && match actor.role with
    | .superAdmin | .operator => true
    | .customer =>
      (db.members.select (fun m => m.userId == actor.id && some m.organizationId == o.organizationId &&
        (db.organizations.select (fun g => g.id == m.organizationId && g.isActive)).length != 0)).length
          != 0 &&
      workload.organizationId == o.organizationId &&
      (o.action == .power .start || o.action == .power .shutdown || o.action == .power .stop ||
        o.action == .power .reboot)

def taskOf (db : Db) (operationId : Uuid) : Option PveTask :=
  db.pveTasks.first (fun t => t.operationId == operationId)

/-- `_run_admin_action` up to its commit. -/
def admitAdmin (i : Input) (θ : OpState) (w : World) : OpState × World × Except Exn Admission :=
  match θ.loaded.workload, θ.loaded.actor with
  | none, _ => refuse "VM_NOT_FOUND" i θ w
  | some workload, actor =>
    if !workload.isPresent || workload.isTemplate then refuse "VM_NOT_FOUND" i θ w
    else if (actor.map (fun u => u.isActive && u.role == .superAdmin)).getD false then
      commitStart .admin i θ w
    else refuse "PERMISSION_REVOKED" i θ w

/-- The power path of `run` up to its commit. -/
def admitPowerAction (rt : Runtime) (o : Operation) (s : OpSession) (i : Input) (θ : OpState)
    (w : World) : OpState × World × Except Exn Admission :=
  match s.workload with
  | none => refuse "VM_NOT_FOUND" i (θ.load s) w
  | some workload =>
    if !workload.isPresent || workload.isTemplate ||
        (workload.kind == .lxc && o.action == .power .reset) then
      refuse "VM_NOT_FOUND" i (θ.load s) w
    else if (s.actor.map (powerAuthorized w.db o workload)).getD false then
      let task := taskOf w.db o.id
      let θ := θ.load { s with task := task }
      if stateUnknown o task && freshLease rt.settings w.clock o then (θ, w, .ok .ended)
      else commitStart (.proceed (o.status == .running)) i θ w
    else refuse "PERMISSION_REVOKED" i (θ.load s) w

/-- `PowerOperationRunner.run` up to its commit. -/
def admitPower (rt : Runtime) (id : Uuid) (i : Input) (θ : OpState) (w : World) :
    OpState × World × Except Exn Admission :=
  match w.db.operations.get? id with
  | none => (θ, w, .ok .ended)
  | some o =>
    if o.status.terminal then (θ, w, .ok .ended)
    else
      let s : OpSession :=
        { operation := some o
          workload := w.db.workloads.get? o.workloadId
          actor := w.db.users.get? o.requestedById }
      match o.action with
      | .admin _ => admitAdmin i (θ.load s) w
      | _ => admitPowerAction rt o s i θ w

/-- The lease test of the backup and restore runners, and the commit after it. -/
def admitSubmission (rt : Runtime) (unknownCode : String) (o : Operation) (s : OpSession) (i : Input)
    (θ : OpState) (w : World) : OpState × World × Except Exn Admission :=
  let task := taskOf w.db o.id
  let θ := θ.load { s with task := task }
  if stateUnknown o task then
    if freshLease rt.settings w.clock o then (θ, w, .ok .ended)
    else refuse unknownCode i θ w
  else commitStart (.proceed (o.status == .running)) i θ w

/-- The rows `BackupOperationRunner.run` reads. -/
def backupSession (db : Db) (o : Operation) : OpSession :=
  let run := db.backupRuns.first (fun r => r.operationId == o.id)
  { operation := some o
    backupRun := run
    workload := db.workloads.get? o.workloadId
    target := run.bind (fun r => db.backupTargets.get? r.backupTargetId)
    actor := db.users.get? o.requestedById }

/-- The checks of `BackupOperationRunner.run` on the rows it has read. -/
def backupAvailable (s : OpSession) : Bool :=
  match s.backupRun, s.workload, s.target with
  | some _, some workload, some target => workload.isPresent && !workload.isTemplate &&
      target.isEnabled && target.clusterId == workload.clusterId
  | _, _, _ => false

/-- Whether the requester is active and has one of the roles, at the moment the work begins and
not only when it was requested. -/
def activeActor (s : OpSession) (roles : List UserRole) : Bool :=
  (s.actor.map (fun u => u.isActive && roles.contains u.role)).getD false

/-- `BackupOperationRunner.run` up to its commit. -/
def admitBackup (rt : Runtime) (id : Uuid) (i : Input) (θ : OpState) (w : World) :
    OpState × World × Except Exn Admission :=
  match w.db.operations.get? id with
  | none => (θ, w, .ok .ended)
  | some o =>
    if o.operationType ≠ .workloadBackup ∨ o.status.terminal = true then (θ, w, .ok .ended)
    else
      let s := backupSession w.db o
      if !backupAvailable s then refuse "BACKUP_TARGET_OR_WORKLOAD_UNAVAILABLE" i (θ.load s) w
      else if !activeActor s [.superAdmin, .operator] then refuse "PERMISSION_REVOKED" i (θ.load s) w
      else admitSubmission rt "BACKUP_SUBMISSION_STATE_UNKNOWN" o s i θ w

/-- The rows `RestoreOperationRunner.run` reads. -/
def restoreSession (db : Db) (o : Operation) : OpSession :=
  let restore := db.restoreRuns.first (fun r => r.operationId == o.id)
  let backup := restore.bind (fun r => db.backupRuns.get? r.backupRunId)
  { operation := some o
    restoreRun := restore
    source := backup
    target := backup.bind (fun b => db.backupTargets.get? b.backupTargetId)
    workload := db.workloads.get? o.workloadId
    cluster := db.clusters.get? o.clusterId
    actor := db.users.get? o.requestedById }

/-- The checks of `RestoreOperationRunner.run` on the rows it has read. -/
def restoreAvailable (s : OpSession) : Bool :=
  match s.restoreRun, s.source, s.target, s.workload, s.cluster with
  | some _, some backup, some target, some _, some cluster =>
    backup.snapshotVolumeId.getD "" != "" && backup.status == .succeeded && target.isEnabled &&
      cluster.isActive
  | _, _, _, _, _ => false

/-- `RestoreOperationRunner.run` up to its commit. -/
def admitRestore (rt : Runtime) (id : Uuid) (i : Input) (θ : OpState) (w : World) :
    OpState × World × Except Exn Admission :=
  match w.db.operations.get? id with
  | none => (θ, w, .ok .ended)
  | some o =>
    if o.operationType ≠ .workloadRestore ∨ o.status.terminal = true then (θ, w, .ok .ended)
    else
      let s := restoreSession w.db o
      if !restoreAvailable s then refuse "RESTORE_SOURCE_UNAVAILABLE" i (θ.load s) w
      else if !activeActor s [.superAdmin] then refuse "PERMISSION_REVOKED" i (θ.load s) w
      else admitSubmission rt "RESTORE_SUBMISSION_STATE_UNKNOWN" o s i θ w

/-! ### The operations of a runner -/

/-- What a runner can do at once: one transaction, one call to Proxmox, or a reading of its own
memory. Between any two of them everybody else can act. -/
inductive RunnerOp : Type → Type where
  | now : RunnerOp Instant
  | uuid4 : RunnerOp Uuid
  /-- The rows as the runner sees them. -/
  | session : RunnerOp OpSession
  | enter : RunnerOp (Except Exn Admission)
  | getCluster (id : Uuid) : RunnerOp (Option Cluster)
  | activeCredential (clusterId : Uuid) : RunnerOp (Option ClusterCredential)
  /-- Decrypting the credential and building the client. -/
  | connect (cluster : Cluster) (credential : ClusterCredential) : RunnerOp (Except AppError Unit)
  | assign (e : Edit) : RunnerOp Unit
  | commit : RunnerOp (Except Exn Unit)
  | addTask (t : PveTask) : RunnerOp (Except Exn Unit)
  | finish (f : Finish) : RunnerOp (Except Exn Unit)
  | call (r : Request) : RunnerOp (Except Exn (Reply r))

/-- `run` up to its first commit, which decides whether this delivery goes on with the operation.
-/
def enter (rt : Runtime) (i : Input) (θ : OpState) (w : World) :
    OpState × World × Except Exn Admission :=
  match θ.kind with
  | .power => admitPower rt θ.operationId i θ w
  | .backup => admitBackup rt θ.operationId i θ w
  | .restore => admitRestore rt θ.operationId i θ w

/-- In whose name the runner calls Proxmox. -/
def OpState.caller (θ : OpState) : Caller := .operation θ.operationId

/-- One operation of a runner: what it does to the runner's session and to the world, and what it
is answered with. None of them waits. -/
def RunnerOp.exec (rt : Runtime) {ρ : Type} (o : RunnerOp ρ) (i : Input) (θ : OpState) (w : World) :
    OpState × World × ρ :=
  match o with
  | .now => (θ, w, w.clock)
  | .uuid4 => (θ, w, i.uuid 0)
  | .session => (θ, w, θ.current)
  | .enter => PveMaster.enter rt i θ w
  | .getCluster id => (θ, w, w.db.clusters.get? id)
  | .activeCredential clusterId =>
    (θ, w, w.db.credentials.first (fun c => c.clusterId == clusterId && c.isActive))
  | .connect _ _ => (θ, w, i.client)
  | .assign e => (θ.assign e, w, ())
  | .commit => commitEdits i θ w
  | .addTask t => commitTask t i θ w
  | .finish f => commitFinish f i θ w
  | .call r => (θ, w.logCall θ.caller i.answers r, i.answers r)

end PveMaster
