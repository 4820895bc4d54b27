import PveMaster.Foundation.Parallel
import PveMaster.Operations.System
import PveMaster.Requests.Backups
import PveMaster.Requests.Provisioning
import PveMaster.Requests.Workloads

/-! The requests as a system.

A process is one request of the API. What it is answered with stays with the process until
it ends. -/
namespace PveMaster

/-- The calls that may start a job, with what their endpoints pass along. -/
inductive JobCall where
  | power (workloadId : Uuid) (action : PowerAction) (reason : Option String)
  | admin (vmId : Uuid) (payload : OperationService.AdminPayload)
  | backup (workloadId : Uuid) (payload : BackupService.BackupRequest)
  | restore (backupRunId : Uuid) (payload : BackupService.RestoreRequest)
  | customerPower (vmId : Uuid) (action : PowerAction) (reason : Option String)
      (confirmForced : Bool)
  | provision (payload : ProvisioningService.RequestCreate)

structure JobRequest where
  principal : Principal
  sourceIp : String
  idempotencyKey : String
  call : JobCall

section
variable (rt : Runtime) (api : Api)

def JobRequest.program (r : JobRequest) : ServiceProg JobAnswer :=
  match r.call with
  | .power workloadId action reason =>
    OperationService.requestPowerAction rt api r.principal r.sourceIp workloadId action
      r.idempotencyKey reason
  | .admin vmId payload =>
    OperationService.requestAdminAction rt api r.principal r.sourceIp vmId payload r.idempotencyKey
  | .backup workloadId payload =>
    BackupService.requestBackup api r.principal r.sourceIp workloadId payload r.idempotencyKey
  | .restore backupRunId payload =>
    BackupService.requestRestore rt api r.principal r.sourceIp backupRunId payload r.idempotencyKey
  | .customerPower vmId action reason confirmForced =>
    CustomerPortalService.requestPowerAction api r.principal r.sourceIp vmId action
      r.idempotencyKey reason confirmForced
  | .provision payload =>
    ProvisioningService.createRequest rt api r.principal payload r.idempotencyKey

/-- The requests of the system: for a job, or to change who owns a workload. -/
inductive ServiceMessage where
  | job (r : JobRequest)
  | assign (principal : Principal) (workloadId organizationId : Uuid)
  | unassign (principal : Principal) (workloadId : Uuid)

def ServiceMessage.userId : ServiceMessage → Uuid
  | .job r => r.principal.userId
  | .assign principal .. | .unassign principal .. => principal.userId

def ServiceMessage.program : ServiceMessage → ServiceProg Unit
  | .job r => do
    let answer ← Prog.attempt (r.program rt api)
    Prog.op (.answer answer id)
  | .assign principal workloadId organizationId =>
    WorkloadService.assign principal workloadId organizationId
  | .unassign principal workloadId => WorkloadService.unassign principal workloadId

/-- A process knows the request it serves. -/
structure ServiceProcess where
  message : ServiceMessage
  state : ServiceState

def serviceMachine : Machine Exn ServiceOp ServiceProcess World Input ServiceMessage where
  exec o i θ w :=
    let (state, w, r) := o.exec i θ.state w
    some ({ θ with state := state }, w, r)
  start m := (⟨m, { userId := m.userId }⟩, m.program rt api)
  drop _ w := w

/-- The requests beside the runners of what they accept. -/
def jobMachine : Machine Exn (SumOp RunnerOp ServiceOp) (OpState ⊕ ServiceProcess) World Input
    (OpMessage ⊕ ServiceMessage) := (opMachine rt).beside (serviceMachine rt api)

end

abbrev JobMessage : Type := OpMessage ⊕ ServiceMessage
abbrev JobAction : Type := Action World Input JobMessage
abbrev JobSys : Type 1 := Sys Exn (SumOp RunnerOp ServiceOp) (OpState ⊕ ServiceProcess) World

/-! ### A request of the administrator -/

/-- Hashes that keep their text, and passwords that are not encrypted. -/
def plainApi : Api where
  sha256 := List.map Char.toNat
  keyHash s := s.toList.map Char.toNat
  encryptPassword _ _ _ := ([], [], "")

/-- The administrator of the sample world. -/
def administrator : Principal := ⟨1, "admin", .superAdmin, 1⟩

/-- The sample world without an operation, with a backup target. -/
def quietWorld : World :=
  { sampleWorld .workloadBackup with
    db := { (sampleWorld .workloadBackup).db with
      operations := .empty
      backupTargets := .single ⟨7, 1, "pbs", true⟩ } }

def jobOf (key : String) (call : JobCall) : OpMessage ⊕ ServiceMessage :=
  .inr (.job ⟨administrator, "192.0.2.1", key, call⟩)

/-! ### What an operation of a request commits -/

def ServiceOp.accepted {ρ : Type} : ServiceOp ρ → Option Acceptance
  | .accept a _ => some a
  | _ => none

def ServiceOp.created {ρ : Type} : ServiceOp ρ →
    Option (ProvisioningRequest × List ProvisioningStep × AuditLog)
  | .create r steps audit _ => some (r, steps, audit)
  | _ => none

def ServiceOp.transaction {ρ : Type} : ServiceOp ρ → Option (Input → Instant → Db → Except Exn Db)
  | .transact t _ => some t
  | _ => none

/-- What an operation of a request does to the database. -/
inductive ServiceEffect {ρ : Type} (i : Input) (now : Instant) (op : ServiceOp ρ) (db : Db) : Db → Prop
  | nothing : ServiceEffect i now op db db
  | accepted {a : Acceptance} {db' : Db} (h : op.accepted = some a) (stored : db.accept a = .ok db') :
      ServiceEffect i now op db db'
  | created {r : ProvisioningRequest} {steps : List ProvisioningStep} {audit : AuditLog} {db' : Db}
      (h : op.created = some (r, steps, audit)) (stored : db.createRequest r steps audit = .ok db') :
      ServiceEffect i now op db db'
  | transacted {t : Input → Instant → Db → Except Exn Db} {db' : Db} (h : op.transaction = some t)
      (stored : t i now db = .ok db') : ServiceEffect i now op db db'

section Effects
variable {ρ : Type} {o : ServiceOp ρ} {i : Input} {w : World}

theorem commitAs_cases {ε : Type} (refused : Exn → ε) (f : Db → Except ε Db) (k : Except ε Unit → ρ) :
    (commitAs i refused f w k).1 = w ∨
      ∃ db, f w.db = .ok db ∧ commitAs i refused f w k = (w.setDb db, k (.ok ())) := by
  unfold commitAs
  cases i.reject with
  | some e => exact Or.inl rfl
  | none =>
    cases hf : f w.db with
    | ok db => exact Or.inr ⟨db, rfl, rfl⟩
    | error e => exact Or.inl rfl

/-- **Every operation of a request** has one of the listed effects. -/
theorem service_effect (o : ServiceOp ρ) (i : Input) (θ : ServiceState) (w : World) :
    ServiceEffect i w.clock o w.db (o.exec i θ w).2.1.db := by
  cases o with
  | accept a k =>
    rcases commitAs_cases (i := i) (w := w) Refusal.database (·.accept a) k with h | ⟨db, hdb, h⟩
    · show ServiceEffect i w.clock _ w.db (commitAs i .database (·.accept a) w k).1.db
      rw [h]
      exact .nothing
    · show ServiceEffect i w.clock _ w.db (commitAs i .database (·.accept a) w k).1.db
      rw [h]
      exact .accepted rfl hdb
  | create r steps audit k =>
    rcases commitAs_cases (i := i) (w := w) Refusal.database (·.createRequest r steps audit) k with
      h | ⟨db, hdb, h⟩
    · show ServiceEffect i w.clock _ w.db (commitAs i .database (·.createRequest r steps audit) w k).1.db
      rw [h]
      exact .nothing
    · show ServiceEffect i w.clock _ w.db (commitAs i .database (·.createRequest r steps audit) w k).1.db
      rw [h]
      exact .created rfl hdb
  | transact t k =>
    rcases commitAs_cases (i := i) (w := w) id (t i w.clock) k with h | ⟨db, hdb, h⟩
    · show ServiceEffect i w.clock _ w.db (commitAs i id (t i w.clock) w k).1.db
      rw [h]
      exact .nothing
    · show ServiceEffect i w.clock _ w.db (commitAs i id (t i w.clock) w k).1.db
      rw [h]
      exact .transacted rfl hdb
  | _ => exact .nothing

end Effects

/-! ### What the inserts of an acceptance do -/

section Accept
variable {db db' : Db} {a : Acceptance}

theorem mem_insertRun {ρ κ : Type} [Keyed ρ κ] [DecidableEq κ] {clashes : ρ → ρ → Bool}
    {runs runs' : Table ρ} {run : Option ρ} (h : insertRun clashes runs run = some runs') (r' : ρ) :
    r' ∈ runs' ↔ r' ∈ runs ∨ run = some r' := by
  cases run with
  | none =>
    cases h
    exact ⟨Or.inl, fun h => h.resolve_right nofun⟩
  | some r =>
    rw [Table.mem_insert (insertUnless_some h).2, Option.some_inj]
    exact or_congr_right eq_comm

/-- What an accepted operation finds and leaves in the tables. -/
structure Accepts (a : Acceptance) (db db' : Db) : Prop where
  operations : insertUnless Operation.clashes db.operations a.operation = some db'.operations
  backupRuns : insertRun BackupRun.clashes db.backupRuns a.backupRun = some db'.backupRuns
  restoreRuns : insertRun RestoreRun.clashes db.restoreRuns a.restoreRun = some db'.restoreRuns
  rest : db' = { db with
    operations := db'.operations
    backupRuns := db'.backupRuns
    restoreRuns := db'.restoreRuns
    auditLogs := db.auditLogs ++ [a.audit] }

theorem accept_ok (h : db.accept a = .ok db') : Accepts a db db' := by
  unfold Db.accept at h
  split at h
  · cases h
  · next operations hoperations =>
    split at h
    · next backupRuns restoreRuns hbackup hrestore =>
      cases h
      exact ⟨hoperations, hbackup, hrestore, rfl⟩
    · cases h

/-- The rows of the operations before and after. -/
theorem Accepts.get? (h : Accepts a db db') (k : Uuid) :
    db'.operations.get? k = if k = a.operation.id then some a.operation else db.operations.get? k := by
  have hinsert := (insertUnless_some h.operations).2
  split
  · next hk =>
    rw [hk]
    exact Table.get?_insert_same hinsert
  · next hk => exact Table.get?_insert_of_ne hinsert hk

theorem Accepts.fresh (h : Accepts a db db') : db.operations.get? a.operation.id = none :=
  Table.get?_eq_none.mpr (Table.insert_some (insertUnless_some h.operations).2).2

end Accept
end PveMaster
