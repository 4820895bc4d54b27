import PveMaster.Operations.BackupRunner

/-! The three operation runners as a system, and the recovery at worker start.

A process is one delivery of a task message. Any number of deliveries of any
messages interleave at their commits and calls; a process can be lost at any
point. -/
namespace PveMaster

/-- What the broker delivers: the Celery task, which stands for its runner, and the operation it
is about. A message can be delivered any number of times. -/
structure OpMessage where
  task : RunnerKind
  operationId : Uuid
  deriving DecidableEq, Repr

/-- The runner that implements an operation type. Which runner is delivered an operation is for
the sender to say. -/
def OperationType.runner : OperationType → RunnerKind
  | .power _ | .vmSpecUpdate | .vmDelete => .power
  | .workloadBackup => .backup
  | .workloadRestore => .restore

def OpMessage.program (rt : Runtime) (m : OpMessage) : OpProg Unit :=
  match m.task with
  | .power => PowerRunner.run rt
  | .backup => BackupRunner.run rt
  | .restore => RestoreRunner.run rt

/-- The runners as processes. A process that is lost leaves the world as it is. -/
def opMachine (rt : Runtime) : Machine Exn RunnerOp OpState World Input OpMessage where
  exec o i θ w := some (o.exec rt i θ w)
  start m := ({ kind := m.task, operationId := m.operationId }, m.program rt)
  drop _ w := w

abbrev OpSys := Sys Exn RunnerOp OpState World
abbrev OpAction := Action World Input OpMessage

/-! ### A requested start -/

/-- An operation as `request_power_action` and its siblings insert it. -/
def requested (id workloadId : Uuid) (type : OperationType) : Operation :=
  .queued id "task" type 1 "192.0.2.1" none 1 workloadId [] [] []

def sampleWorkload (id : Uuid) : Workload where
  id := id
  clusterId := 1
  vmid := 100
  node := "pve1"
  kind := .qemu
  name := some "vm"
  powerState := "STOPPED"
  cpuCores := none
  memoryBytes := none
  diskBytes := none
  isTemplate := false
  isPresent := true
  organizationId := none
  observedAt := 0
  version := 1

/-- One cluster, one administrator, one VM and one operation requested for it. -/
def sampleWorld (type : OperationType) : World where
  db := { Db.empty with
    users := .single ⟨1, "admin", .superAdmin, true, 1⟩
    clusters := .single ⟨1, true⟩
    credentials := .single ⟨1, 1, true⟩
    workloads := .single (sampleWorkload 1)
    operations := .single (requested 1 1 type) }
  clock := 0
  calls := []

/-- Proxmox accepts every submission; a task has ended well; a guest is in a given state. -/
def sampleAnswers (state : String) : Answers
  | .getTaskStatus .. => .ok [("status", .str "stopped"), ("exitstatus", .str "OK")]
  | .getGuestStatus .. => .ok [("status", .str state)]
  | .submitGuestPowerAction .. => .ok "UPID:1"
  | _ => .error (.app ⟨502, "PVE_UPSTREAM_ERROR", "Proxmox did not answer.", []⟩)

def sampleInput (state : String) : Input where
  answers := sampleAnswers state
  uuid n := 100 + n
  random _ := 0
  client := .ok ()
  reject := none

/-- A process takes some actions while the guest is in one state. -/
def steps (pid count : Nat) (state : String) : List OpAction :=
  List.replicate count (.step pid (sampleInput state))

/-! ### Recovery -/

/-- `status IN ('QUEUED', 'RUNNING')`. -/
def OperationStatus.incomplete (s : OperationStatus) : Bool := s == .queued || s == .running

@[simp] theorem OperationStatus.incomplete_eq (s : OperationStatus) : s.incomplete = !s.terminal := by
  cases s <;> rfl

/-- `recover_power_operations`: the messages sent at the start of a worker. It leaves out backups,
and not restores. -/
def recoverPowerOperations (db : Db) : List OpMessage :=
  (db.operations.select (fun o => o.operationType != .workloadBackup && o.status.incomplete)).map
    (fun o => ⟨.power, o.id⟩)

/-- `recover_backup_operations`: backups and restores, each to its own runner. -/
def recoverBackupOperations (db : Db) : List OpMessage :=
  (db.operations.select (fun o => o.operationType == .workloadBackup && o.status.incomplete)).map
      (fun o => ⟨.backup, o.id⟩) ++
    (db.operations.select (fun o => o.operationType == .workloadRestore && o.status.incomplete)).map
      (fun o => ⟨.restore, o.id⟩)

/-- The operations' part of `recover_incomplete_power_operations`. -/
def recoverOperations (db : Db) : List OpMessage :=
  recoverPowerOperations db ++ recoverBackupOperations db

end PveMaster
